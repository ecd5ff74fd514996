import Constructicon.HostWorkers

/-!
# The order of launch intents

An intent bound to a later attempt supersedes one bound to an earlier attempt or to none; of
two for one attempt, a caused one supersedes an uncaused one, and else the broader one the
narrower. The queue of a run keeps an intent that none of those it was offered supersedes, for
as long as something stands against which an offer is judged: a queued intent or a live worker.
-/

namespace Constructicon

/-! ## The order -/

section

variable {a b c : LaunchIntent}

theorem supersedes_irrefl (a : LaunchIntent) : supersedes a a = false := if_pos rfl

theorem supersedes_iff : supersedes a b = true ↔
    (a.expectedEventSeq = none ∧ b.expectedEventSeq = none ∧ b.allowedStatuses ⊂ a.allowedStatuses) ∨
      ∃ n, a.expectedEventSeq = some n ∧ (b.expectedEventSeq = none ∨ ∃ m, b.expectedEventSeq = some m ∧
        (m < n ∨ m = n ∧ (a.cause.isSome = true ∧ b.cause = none ∨
          a.cause = b.cause ∧ b.allowedStatuses ⊂ a.allowedStatuses))) := by
  obtain ⟨seq, statuses, cause⟩ := a
  obtain ⟨seq', statuses', cause'⟩ := b
  unfold supersedes
  by_cases same : (⟨seq, statuses, cause⟩ : LaunchIntent) = ⟨seq', statuses', cause'⟩
  · rw [if_pos same]
    cases same
    cases seq <;> cases cause <;> simp
  · rw [if_neg same]
    cases seq with
    | none => cases seq' <;> simp
    | some n =>
      cases seq' with
      | none => simp
      | some m =>
        by_cases fence : n = m
        · subst fence
          by_cases caused : cause = cause'
          · subst caused
            cases cause <;> simp
          · simp [caused, Option.isNone_iff_eq_none]
        · simp [fence, Ne.symm fence]

theorem supersedes_trans (h : supersedes a b = true) (h' : supersedes b c = true) : supersedes a c = true := by
  rw [supersedes_iff] at h h' ⊢
  rcases h with ⟨none_a, none_b, wider⟩ | ⟨n, fence_a, h⟩
  · rcases h' with ⟨-, none_c, wider'⟩ | ⟨m, fence_b, -⟩
    · exact .inl ⟨none_a, none_c, wider'.trans wider⟩
    · rw [none_b] at fence_b
      cases fence_b
  · refine .inr ⟨n, fence_a, ?_⟩
    rcases h' with ⟨-, none_c, -⟩ | ⟨m, fence_b, h'⟩
    · exact .inl none_c
    · rcases h' with none_c | ⟨k, fence_c, later'⟩
      · exact .inl none_c
      · refine .inr ⟨k, fence_c, ?_⟩
        rcases h with none_b | ⟨m', fence_b', later⟩
        · rw [fence_b] at none_b
          cases none_b
        · cases fence_b.symm.trans fence_b'
          rcases later with later | ⟨rfl, same⟩
          · rcases later' with later' | ⟨rfl, -⟩
            · exact .inl (later'.trans later)
            · exact .inl later
          · rcases later' with later' | ⟨rfl, same'⟩
            · exact .inl later'
            · refine .inr ⟨rfl, ?_⟩
              -- one fence: a cause before none, else the broader statuses
              rcases same with ⟨caused, uncaused⟩ | ⟨cause, wider⟩
              · rcases same' with ⟨caused', -⟩ | ⟨cause', -⟩
                · rw [uncaused] at caused'
                  cases caused'
                · exact .inl ⟨caused, cause' ▸ uncaused⟩
              · rcases same' with ⟨caused', uncaused⟩ | ⟨cause', wider'⟩
                · exact .inl ⟨cause ▸ caused', uncaused⟩
                · exact .inr ⟨cause.trans cause', wider'.trans wider⟩

theorem supersedes_asymm (h : supersedes a b = true) : supersedes b a = false := by
  by_contra both
  have loop := supersedes_trans h (Bool.eq_true_of_not_eq_false both)
  rw [supersedes_irrefl] at loop
  cases loop

theorem not_supersedes_of_replaced (h : supersedes a b = false) (replaces : supersedes c b = true) :
    supersedes a c = false := by
  by_contra above
  rw [supersedes_trans (Bool.eq_true_of_not_eq_false above) replaces] at h
  cases h

end

/-! ## What an event does to one run -/

section

variable {cfg : HostConfig} {h h' h'' : Host} {run r : RunId}

def Host.Occupied (h : Host) (run : RunId) : Prop := (h.tasks.get? run).any (fun t => h.Live t) = true

instance (h : Host) (run : RunId) : Decidable (h.Occupied run) := inferInstanceAs (Decidable (_ = true))

theorem Host.occupied_iff : h.Occupied run ↔ ∃ task, h.tasks.get? run = some task ∧ h.Live task := by
  unfold Host.Occupied
  cases h.tasks.get? run <;> simp

/-- The queued intent of the run stays or is dropped, and its worker stays. -/
structure Host.Keeps (run : RunId) (h h' : Host) : Prop where
  requested : h'.requested.get? run = h.requested.get? run ∨ h'.requested.get? run = none
  tasks : h'.tasks.get? run = h.tasks.get? run
  explicitTasks : h'.explicitTasks.get? run = h.explicitTasks.get? run
  live : ∀ task, h.Live task → h'.Live task
  nextTask : h.nextTask ≤ h'.nextTask

structure Host.Starts (run : RunId) (h h' : Host) : Prop where
  requested : h'.requested.get? run = none
  tasks : ∃ task, h'.tasks.get? run = some task ∧ h.nextTask ≤ task
  nextTask : h.nextTask ≤ h'.nextTask

theorem Host.Keeps.refl (run : RunId) (h : Host) : h.Keeps run h := ⟨.inl rfl, rfl, rfl, fun _ alive => alive, le_rfl⟩

theorem Host.Keeps.trans (k : h.Keeps run h') (k' : h'.Keeps run h'') : h.Keeps run h'' := by
  refine ⟨?_, k'.tasks.trans k.tasks, k'.explicitTasks.trans k.explicitTasks, fun task alive => k'.live task (k.live task alive),
    k.nextTask.trans k'.nextTask⟩
  rcases k'.requested with same | none
  · rw [same]
    exact k.requested
  · exact .inr none

theorem Host.Keeps.starts (k : h.Keeps run h') (s : h'.Starts run h'') : h.Starts run h'' := by
  obtain ⟨task, found, new⟩ := s.tasks
  exact ⟨s.requested, ⟨task, found, k.nextTask.trans new⟩, k.nextTask.trans s.nextTask⟩

theorem Host.Starts.keeps (s : h.Starts run h') (k : h'.Keeps run h'') : h.Starts run h'' := by
  obtain ⟨task, found, new⟩ := s.tasks
  refine ⟨?_, ⟨task, k.tasks.trans found, new⟩, s.nextTask.trans k.nextTask⟩
  rcases k.requested with same | none
  · exact same.trans s.requested
  · exact none

def Host.Fills (run : RunId) (h h' : Host) : Prop := h.Keeps run h' ∨ h.Starts run h'

theorem Host.Fills.trans (f : h.Fills run h') (f' : h'.Fills run h'') : h.Fills run h'' := by
  rcases f with k | s
  · exact f'.imp k.trans k.starts
  · rcases f' with k' | s'
    · exact .inr (s.keeps k')
    · obtain ⟨task, found, new⟩ := s'.tasks
      exact .inr ⟨s'.requested, ⟨task, found, s.nextTask.trans new⟩, s.nextTask.trans s'.nextTask⟩

theorem get?_erase_cases {ν : Type} (d : Dict RunId ν) (r run : RunId) :
    (d.erase r).get? run = d.get? run ∨ (d.erase r).get? run = none := by
  by_cases same : r = run
  · subst same
    exact .inr (Dict.get?_erase_self d r)
  · exact .inl (Dict.get?_erase_ne d same)

theorem Host.fills_start (h : Host) (r : RunId) (intent : LaunchIntent) (explicit : Bool) :
    h.Fills run (h.start r intent explicit) := by
  by_cases same : r = run
  · subst same
    exact .inr ⟨Dict.get?_erase_self _ _, ⟨h.nextTask, Dict.get?_insert_self _ _ _, le_rfl⟩, Nat.le_succ _⟩
  · refine .inl ⟨get?_erase_cases _ _ _, Dict.get?_insert_ne _ _ same, ?_, ?_, Nat.le_succ _⟩
    · unfold Host.start
      dsimp only
      split_ifs
      · exact Dict.get?_insert_ne _ _ same
      · rfl
    · intro task alive
      exact (Host.live_start h r intent explicit task).mpr (.inl alive)

theorem Host.keeps_forget (h : Host) (r : RunId) : h.Keeps run (h.forget r) :=
  ⟨get?_erase_cases _ _ _, rfl, rfl, fun _ alive => alive, le_rfl⟩

theorem Host.keeps_claims (h : Host) (claims : Dict RunId Instant) : h.Keeps run { h with claimRetryAt := claims } :=
  ⟨.inl rfl, rfl, rfl, fun _ alive => alive, le_rfl⟩

theorem Host.fills_requested (sight : Sight) (queue : List (RunId × LaunchIntent)) (h : Host) (capacity : ℕ) :
    h.Fills run (Host.fillRequested sight queue h capacity).1 := by
  induction queue generalizing h capacity with
  | nil => exact .inl (.refl run h)
  | cons entry queue ih =>
    obtain ⟨r, intent⟩ := entry
    rw [Host.fillRequested]
    cases h.verdict sight r intent with
    | drop => exact Host.Fills.trans (.inl (h.keeps_forget r)) (ih _ _)
    | wait => exact ih h capacity
    | start =>
      have started : h.Fills run ({ h with claimRetryAt := h.claimRetryAt.erase r }.start r intent true) :=
        Host.Fills.trans (.inl (h.keeps_claims _)) (Host.fills_start _ r intent true)
      dsimp only
      split_ifs
      · exact started
      · exact started.trans (ih _ _)

theorem Host.keeps_selectPage (sight : Sight) (limit : ℕ) (records : List RunRecord) (h : Host)
    (selected : List (RunId × LaunchIntent)) : h.Keeps run (h.selectPage sight limit records selected).1 := by
  induction records generalizing h selected with
  | nil => exact .refl run h
  | cons record records ih =>
    rw [Host.selectPage]
    dsimp only
    split_ifs
    · exact ih h selected
    · exact h.keeps_claims _
    · exact (h.keeps_claims _).trans (ih _ _)

theorem Host.keeps_selectPages (sight : Sight) (through : String ×ₗ String) (limit : ℕ) (tables : List RunTable)
    (after : Option (String ×ₗ String)) (h : Host) (selected : List (RunId × LaunchIntent)) :
    h.Keeps run (h.selectPages cfg sight through limit tables after selected).1 := by
  induction tables generalizing after h selected with
  | nil => exact .refl run h
  | cons table tables ih =>
    rw [Host.selectPages]
    split_ifs
    · exact .refl run h
    · dsimp only
      split
      · exact .refl run h
      · split_ifs
        · exact h.keeps_selectPage sight limit _ selected
        · exact (h.keeps_selectPage sight limit _ selected).trans (ih _ _ _)

theorem Host.fills_recover (h : Host) (sight : Sight) (limit : ℕ) : h.Fills run (h.recover cfg sight limit) := by
  unfold Host.recover
  cases sight.through with
  | none => exact .inl (.refl run h)
  | some through =>
    have starts : ∀ (batch : List (RunId × LaunchIntent)) (h : Host),
        h.Fills run (batch.foldl (fun h entry => h.start entry.1 entry.2 false) h) := by
      intro batch
      induction batch with
      | nil => exact fun h => .inl (.refl run h)
      | cons entry batch ih => exact fun h => (h.fills_start entry.1 entry.2 false).trans (ih _)
    exact Host.Fills.trans (.inl (h.keeps_selectPages sight through limit _ _ _)) (starts _ _)

theorem Host.fills_fillCapacity (h : Host) (sight : Sight) : h.Fills run (h.fillCapacity cfg sight) := by
  unfold Host.fillCapacity
  dsimp only
  split_ifs
  · exact .inl (.refl run h)
  · exact h.fills_requested sight _ _
  · exact (h.fills_requested sight _ _).trans (Host.fills_recover _ sight _)

end

/-! ## What a queued intent was offered -/

section

variable {cfg : HostConfig} {h h' : Host} {run : RunId} {offers : List LaunchIntent}

/-- The intents that an event delivers for the run, or puts back after a lost claim. -/
def offered (h : Host) (run : RunId) : HostEvent → List LaunchIntent
  | .launch r intent => if h.closed ∨ r ≠ run then [] else [intent]
  | .resumes found => if h.closed then [] else (found.filter (fun x => x.1 = run)).map resumeIntent
  | .waits found => if h.closed then [] else (found.filter (fun x => x.1 = run)).map waitIntent
  | .ends task (.ownershipLost _) =>
    if h.closed ∨ (h.worker task).map Worker.run ≠ some run then [] else (h.explicitTasks.get? run).toList
  | _ => []

def startsWorker (run : RunId) (h h' : Host) : Bool := (h'.tasks.get? run).any (fun task => h.nextTask ≤ task)

/-- The step starts a worker of the run, takes its intent from the queue, or leaves it with neither a queued
intent nor a worker. -/
def leavesNothing (run : RunId) (h h' : Host) : Bool :=
  startsWorker run h h' || decide (h'.requested.get? run = none ∧ (h.requested.get? run ≠ none ∨ ¬ h'.Occupied run))

/-- A host, with the intents offered for one run since a step that forgets them. -/
structure Watched where
  host : Host
  offers : List LaunchIntent

def Watched.step (cfg : HostConfig) (run : RunId) (forgets : Host → Host → Bool) (w : Watched) (event : HostEvent) :
    Watched where
  host := w.host.step cfg event
  offers := if forgets w.host (w.host.step cfg event) then [] else w.offers ++ offered w.host run event

theorem Watched.host_run (cfg : HostConfig) (run : RunId) (forgets : Host → Host → Bool) (events : List HostEvent)
    (w : Watched) : (events.foldl (Watched.step cfg run forgets) w).host = events.foldl (Host.step cfg) w.host := by
  induction events generalizing w with
  | nil => rfl
  | cons event events ih => exact ih _

/-- No offer supersedes the queued intent or, without one, the intent of the worker. -/
structure Unbeaten (run : RunId) (h : Host) (offers : List LaunchIntent) : Prop where
  queued : ∀ intent, h.requested.get? run = some intent → ∀ offer ∈ offers, supersedes offer intent = false
  working : h.requested.get? run = none → ∀ offer ∈ offers, h.Occupied run ∧
    ∃ intent, h.explicitTasks.get? run = some intent ∧ supersedes offer intent = false

theorem unbeaten_nil (run : RunId) (h : Host) : Unbeaten run h [] := ⟨by simp, by simp⟩

theorem Unbeaten.replaced (u : Unbeaten run h offers) {intent : LaunchIntent}
    (wins : ∀ queued, h.requested.get? run = some queued → supersedes intent queued = true)
    (above : h.requested.get? run = none → h.Occupied run →
      ∀ inflight, h.explicitTasks.get? run = some inflight → inflight = intent ∨ supersedes intent inflight = true) :
    ∀ offer ∈ offers, supersedes offer intent = false := by
  intro offer mem
  cases queue : h.requested.get? run with
  | some queued => exact not_supersedes_of_replaced (u.queued queued queue offer mem) (wins queued queue)
  | none =>
    obtain ⟨occupied, inflight, explicit, below⟩ := u.working queue offer mem
    rcases above queue occupied inflight explicit with rfl | replaces
    · exact below
    · exact not_supersedes_of_replaced below replaces

theorem Unbeaten.congr (u : Unbeaten run h offers) (requested : h'.requested.get? run = h.requested.get? run)
    (explicit : h'.explicitTasks.get? run = h.explicitTasks.get? run) (occupied : h.Occupied run → h'.Occupied run) :
    Unbeaten run h' offers := by
  constructor
  · rw [requested]
    exact u.queued
  · rw [requested, explicit]
    exact fun none offer mem => ⟨occupied (u.working none offer mem).1, (u.working none offer mem).2⟩

theorem forall_mem_snoc {p : LaunchIntent → Prop} {intent : LaunchIntent} (all : ∀ offer ∈ offers, p offer)
    (last : p intent) : ∀ offer ∈ offers ++ [intent], p offer := by
  intro offer mem
  rcases List.mem_append.mp mem with old | new
  · exact all offer old
  · exact List.mem_singleton.mp new ▸ last

theorem unbeaten_accept {intent : LaunchIntent}
    (behind : ∀ offer ∈ offers, supersedes offer intent = false) :
    Unbeaten run (h.accept run intent) (offers ++ [intent]) := by
  constructor
  · intro queued found
    change (h.requested.insert run intent).get? run = some queued at found
    rw [Dict.get?_insert_self] at found
    cases found
    exact forall_mem_snoc behind (supersedes_irrefl intent)
  · intro none
    change (h.requested.insert run intent).get? run = Option.none at none
    rw [Dict.get?_insert_self] at none
    cases none

theorem Unbeaten.launch (u : Unbeaten run h offers) (intent : LaunchIntent) :
    Unbeaten run (h.launch run intent).2 (offers ++ [intent]) := by
  unfold Host.launch
  cases queue : h.requested.get? run with
  | some queued =>
    have stays : supersedes intent queued = false → Unbeaten run h (offers ++ [intent]) := by
      intro below
      refine ⟨fun q found => ?_, fun none => ?_⟩
      · cases queue.symm.trans found
        exact forall_mem_snoc (u.queued queued queue) below
      · rw [queue] at none
        cases none
    dsimp only
    split_ifs with same wins
    · exact stays (same ▸ supersedes_irrefl queued)
    · refine unbeaten_accept (u.replaced (fun q found => ?_) fun none => ?_)
      · cases queue.symm.trans found
        exact wins
      · rw [queue] at none
        cases none
    · exact stays (Bool.eq_false_iff.mpr wins)
  | none =>
    have unqueued : ∀ q, h.requested.get? run = some q → supersedes intent q = true := by
      intro q found
      rw [queue] at found
      cases found
    dsimp only
    split_ifs with occupied
    · cases explicit : h.explicitTasks.get? run with
      | none =>
        refine unbeaten_accept (u.replaced unqueued fun _ _ inflight found => ?_)
        rw [explicit] at found
        cases found
      | some inflight =>
        have stays : supersedes intent inflight = false → Unbeaten run h (offers ++ [intent]) := by
          intro below
          refine ⟨fun q found => ?_, fun _ => ?_⟩
          · rw [queue] at found
            cases found
          · exact forall_mem_snoc (u.working queue) ⟨occupied, inflight, explicit, below⟩
        dsimp only
        split_ifs with same wins
        · exact stays (same ▸ supersedes_irrefl inflight)
        · refine unbeaten_accept (u.replaced unqueued fun _ _ other found => ?_)
          cases explicit.symm.trans found
          exact .inr wins
        · exact stays (Bool.eq_false_iff.mpr wins)
    · exact unbeaten_accept (u.replaced unqueued fun _ busy => absurd busy occupied)

theorem Host.launch_other {r : RunId} (h : Host) (intent : LaunchIntent) (other : r ≠ run) :
    (h.launch r intent).2.requested.get? run = h.requested.get? run ∧
      (h.launch r intent).2.explicitTasks = h.explicitTasks := by
  have accepted : (h.accept r intent).requested.get? run = h.requested.get? run := Dict.get?_insert_ne _ _ other
  unfold Host.launch
  repeat' split
  all_goals first | exact ⟨rfl, rfl⟩ | exact ⟨accepted, rfl⟩

theorem Unbeaten.launched (u : Unbeaten run h offers) (r : RunId) (intent : LaunchIntent) :
    Unbeaten run (h.launched r intent) (offers ++ if h.closed ∨ r ≠ run then [] else [intent]) := by
  unfold Host.launched
  by_cases closed : h.closed = true
  · rw [if_pos closed, if_pos (.inl closed), List.append_nil]
    exact u
  · rw [if_neg closed]
    by_cases same : r = run
    · subst same
      rw [if_neg (by simp [closed])]
      exact u.launch intent
    · rw [if_pos (.inr same), List.append_nil]
      obtain ⟨requested, explicit⟩ := h.launch_other intent same
      obtain ⟨alike, -⟩ := h.launched_alike r intent
      refine u.congr requested (by rw [explicit]) fun busy => ?_
      obtain ⟨task, recorded, alive⟩ := Host.occupied_iff.mp busy
      rw [Host.launched, if_neg closed] at alike
      exact Host.occupied_iff.mpr ⟨task, by rw [alike.tasks, recorded], by rwa [Host.Live, alike.live]⟩

theorem Host.closed_launched (h : Host) (r : RunId) (intent : LaunchIntent) :
    (h.launched r intent).closed = h.closed := by
  unfold Host.launched Host.launch
  repeat' split
  all_goals rfl

theorem Unbeaten.launches {α : Type} {runOf : α → RunId} {intentOf : α → LaunchIntent} {found : List α}
    (u : Unbeaten run h offers) :
    Unbeaten run (found.foldl (fun h x => h.launched (runOf x) (intentOf x)) h)
      (offers ++ if h.closed then [] else (found.filter (fun x => runOf x = run)).map intentOf) := by
  induction found generalizing h offers with
  | nil => simpa using u
  | cons x found ih =>
    have next := ih (u.launched (runOf x) (intentOf x))
    rw [Host.closed_launched, List.append_assoc] at next
    rw [List.foldl_cons]
    convert next using 2
    by_cases closed : h.closed = true
    · simp [closed]
    · by_cases same : runOf x = run <;> simp [closed, same]

/-! ## One event -/

theorem kept_of_not_leavesNothing (keeps : leavesNothing run h h' = false) (none : h'.requested.get? run = none) :
    h.requested.get? run = Option.none ∧ h'.Occupied run := by
  have stands := (Bool.or_eq_false_iff.mp keeps).2
  by_contra gone
  rw [not_and_or] at gone
  exact of_decide_eq_false stands ⟨none, gone⟩

theorem Unbeaten.keep (u : Unbeaten run h offers) (requested : h'.requested.get? run = h.requested.get? run)
    (explicit : h'.Occupied run → h'.explicitTasks.get? run = h.explicitTasks.get? run) :
    Unbeaten run h' (if leavesNothing run h h' then [] else offers ++ []) := by
  split_ifs with nothing
  · exact unbeaten_nil run h'
  · rw [List.append_nil]
    have stands := kept_of_not_leavesNothing (Bool.eq_false_iff.mpr nothing)
    refine ⟨requested ▸ u.queued, fun none offer mem => ?_⟩
    obtain ⟨before, occupied⟩ := stands none
    rw [explicit occupied]
    exact ⟨occupied, (u.working before offer mem).2⟩

theorem Unbeaten.fills (u : Unbeaten run h offers) (f : h.Fills run h') :
    Unbeaten run h' (if leavesNothing run h h' then [] else offers ++ []) := by
  rcases f with k | s
  · rcases k.requested with same | none
    · exact u.keep same fun _ => k.explicitTasks
    · by_cases before : h.requested.get? run = Option.none
      · exact u.keep (none.trans before.symm) fun _ => k.explicitTasks
      · have nothing : leavesNothing run h h' = true := by simp [leavesNothing, none, before]
        rw [if_pos nothing]
        exact unbeaten_nil run h'
  · obtain ⟨task, recorded, new⟩ := s.tasks
    have nothing : leavesNothing run h h' = true := by simp [leavesNothing, startsWorker, recorded, new]
    rw [if_pos nothing]
    exact unbeaten_nil run h'

/-- A worker that lost its claim, and the explicit intent it was started with, put back or not. -/
structure Host.Requeues (h left : Host) (r : RunId) (exit : Exit) (intent : LaunchIntent) : Prop where
  lost : ∃ now, exit = .ownershipLost now
  alive : h.closed = false
  explicit : h.explicitTasks.get? r = some intent
  queue : ((∀ queued, h.requested.get? r = some queued → supersedes intent queued = true) ∧
      left.requested = h.requested.insert r intent) ∨
    ((∃ queued, h.requested.get? r = some queued ∧ supersedes intent queued = false) ∧ left.requested = h.requested)

theorem Host.leave_cases (cfg : HostConfig) (h : Host) (r : RunId) (exit : Exit) :
    (∃ intent, h.Requeues (h.leave cfg r exit) r exit intent) ∨
      (∀ now, exit = .ownershipLost now → h.closed = true ∨ h.explicitTasks.get? r = none) ∧
        (h.leave cfg r exit).requested = h.requested := by
  cases exit with
  | ownershipLost now =>
    cases closed : h.closed with
    | true => exact .inr ⟨fun _ _ => .inl rfl, by simp [Host.leave, closed]⟩
    | false =>
      cases explicit : h.explicitTasks.get? r with
      | none => exact .inr ⟨fun _ _ => .inr rfl, by simp [Host.leave, closed, explicit]⟩
      | some intent =>
        refine .inl ⟨intent, ⟨now, rfl⟩, closed, explicit, ?_⟩
        cases queue : h.requested.get? r with
        | none => exact .inl ⟨by simp, by simp [Host.leave, closed, explicit, queue]⟩
        | some queued =>
          cases wins : supersedes intent queued with
          | true => exact .inl ⟨by simp [wins], by simp [Host.leave, closed, explicit, queue, wins]⟩
          | false => exact .inr ⟨⟨queued, rfl, wins⟩, by simp [Host.leave, closed, explicit, queue, wins]⟩
  | returned => exact .inr ⟨by simp, rfl⟩
  | superseded => exact .inr ⟨by simp, rfl⟩
  | failed => exact .inr ⟨by simp, rfl⟩
  | cancelled => exact .inr ⟨by simp, rfl⟩
  | died => exact .inr ⟨by simp, rfl⟩

theorem Host.leave_explicitTasks (cfg : HostConfig) (h : Host) (r : RunId) (exit : Exit) :
    (h.leave cfg r exit).explicitTasks = h.explicitTasks := by
  cases exit with
  | ownershipLost now =>
    unfold Host.leave
    dsimp only
    repeat' split
    all_goals rfl
  | _ => rfl

theorem Unbeaten.left (u : Unbeaten run h offers) {task : ℕ} {exit : Exit} {worker : Worker} {left : Host}
    (found : h.worker task = some worker) (explicit : left.explicitTasks = h.explicitTasks)
    (cases : (∃ intent, h.Requeues left worker.run exit intent) ∨
      (∀ now, exit = .ownershipLost now → h.closed = true ∨ h.explicitTasks.get? worker.run = none) ∧
        left.requested = h.requested) :
    Unbeaten run left (if leavesNothing run h left then [] else offers ++ offered h run (.ends task exit)) := by
  by_cases own : worker.run = run
  · subst own
    rcases cases with ⟨intent, ⟨now, rfl⟩, alive, mine, queue⟩ | ⟨silent, same⟩
    · have here : offered h worker.run (.ends task (.ownershipLost now)) = [intent] := by
        simp [offered, alive, found, mine]
      rw [here]
      split_ifs
      · exact unbeaten_nil _ _
      rcases queue with ⟨wins, put⟩ | ⟨⟨queued, before, stays⟩, same⟩
      · have behind := u.replaced wins fun _ _ inflight explicit => by
          cases mine.symm.trans explicit
          exact .inl rfl
        refine ⟨fun q after => ?_, fun none => ?_⟩
        · rw [put, Dict.get?_insert_self] at after
          cases after
          exact forall_mem_snoc behind (supersedes_irrefl intent)
        · rw [put, Dict.get?_insert_self] at none
          cases none
      · refine ⟨fun q after => ?_, fun none => ?_⟩
        · rw [same, before] at after
          cases after
          exact forall_mem_snoc (u.queued queued before) stays
        · rw [same, before] at none
          cases none
    · have none : offered h worker.run (.ends task exit) = [] := by
        cases exit with
        | ownershipLost now =>
          rcases silent now rfl with closed | none
          · simp [offered, closed]
          · simp [offered, none]
        | _ => rfl
      rw [none]
      exact u.keep (by rw [same]) fun _ => by rw [explicit]
  · have none : offered h run (.ends task exit) = [] := by cases exit <;> simp [offered, found, own]
    rw [none]
    have same : left.requested.get? run = h.requested.get? run := by
      rcases cases with ⟨intent, -, -, -, ⟨-, put⟩ | ⟨-, same⟩⟩ | ⟨-, same⟩
      · rw [put]
        exact Dict.get?_insert_ne _ _ own
      · rw [same]
      · rw [same]
    exact u.keep same fun _ => by rw [explicit]

theorem Unbeaten.ends (u : Unbeaten run h offers) (task : ℕ) (exit : Exit) :
    Unbeaten run (h.ends cfg task exit)
      (if leavesNothing run h (h.ends cfg task exit) then [] else offers ++ offered h run (.ends task exit)) := by
  unfold Host.ends
  cases found : h.worker task with
  | none =>
    have none : offered h run (.ends task exit) = [] := by cases exit <;> simp [offered, found]
    rw [none]
    exact u.keep rfl fun _ => rfl
  | some worker =>
    obtain cases := h.leave_cases cfg worker.run exit
    have explicit := h.leave_explicitTasks cfg worker.run exit
    refine u.left found explicit ?_
    exact cases.imp_left fun ⟨intent, lost, alive, mine, queue⟩ => ⟨intent, lost, alive, mine, queue⟩

theorem Unbeaten.finished (u : Unbeaten run h offers) (entry : Worker × Exit) :
    Unbeaten run (h.finished entry) (if leavesNothing run h (h.finished entry) then [] else offers ++ []) := by
  refine u.keep ?_ fun occupied => ?_
  · unfold Host.finished
    dsimp only
    split_ifs <;> rfl
  · obtain ⟨task, recorded, -⟩ := Host.occupied_iff.mp occupied
    by_cases own : h.tasks.get? entry.1.run = some entry.1.task
    · by_cases same : entry.1.run = run
      · subst same
        have erased : (h.finished entry).tasks = h.tasks.erase entry.1.run := by
          unfold Host.finished
          dsimp only
          split_ifs <;> rfl
        rw [erased, Dict.get?_erase_self] at recorded
        cases recorded
      · have erased : (h.finished entry).explicitTasks = h.explicitTasks.erase entry.1.run := by
          unfold Host.finished
          dsimp only
          split_ifs <;> rfl
        rw [erased]
        exact Dict.get?_erase_ne _ same
    · unfold Host.finished
      dsimp only
      split_ifs <;> rfl

theorem Watched.unbeaten_step (cfg : HostConfig) (run : RunId) (w : Watched) (u : Unbeaten run w.host w.offers)
    (event : HostEvent) :
    Unbeaten run (w.step cfg run (leavesNothing run) event).host (w.step cfg run (leavesNothing run) event).offers := by
  obtain ⟨h, offers⟩ := w
  change Unbeaten run h offers at u
  change Unbeaten run (h.step cfg event)
    (if leavesNothing run h (h.step cfg event) then [] else offers ++ offered h run event)
  cases event with
  | launch r intent =>
    split_ifs
    · exact unbeaten_nil _ _
    · exact u.launched r intent
  | resumes found =>
    split_ifs
    · exact unbeaten_nil _ _
    · exact u.launches
  | waits found =>
    split_ifs
    · exact unbeaten_nil _ _
    · exact u.launches
  | fill sight =>
    by_cases closed : h.closed = true
    · have same : h.step cfg (.fill sight) = h := if_pos closed
      rw [same]
      exact u.keep rfl fun _ => rfl
    · have filled : h.step cfg (.fill sight) = h.fillCapacity cfg sight := if_neg closed
      rw [filled]
      exact u.fills (h.fills_fillCapacity sight)
  | ends task exit => exact u.ends task exit
  | finished entry =>
    by_cases mem : entry ∈ h.ended
    · have retired : h.step cfg (.finished entry) = h.finished entry := if_pos mem
      rw [retired]
      exact u.finished entry
    · have same : h.step cfg (.finished entry) = h := if_neg mem
      rw [same]
      exact u.keep rfl fun _ => rfl
  | shutdown =>
    have nothing : leavesNothing run h h.shutdown = true := by
      have none : ¬h.shutdown.Occupied run := fun busy => by
        obtain ⟨task, recorded, -⟩ := Host.occupied_iff.mp busy
        cases recorded
      have unqueued : h.shutdown.requested.get? run = Option.none := rfl
      simp [leavesNothing, none, unqueued]
    change Unbeaten run h.shutdown (if leavesNothing run h h.shutdown then [] else _)
    rw [if_pos nothing]
    exact unbeaten_nil _ _

theorem Watched.unbeaten_run (cfg : HostConfig) (run : RunId) (events : List HostEvent) (w : Watched)
    (u : Unbeaten run w.host w.offers) :
    Unbeaten run (events.foldl (Watched.step cfg run (leavesNothing run)) w).host
      (events.foldl (Watched.step cfg run (leavesNothing run)) w).offers := by
  induction events generalizing w with
  | nil => exact u
  | cons event events ih => exact ih _ (w.unbeaten_step cfg run u event)

end

/-- A worker refuses the fourth attempt while the fifth is at work, and ends; the third is queued. -/
def refusedThenWeaker : List HostEvent :=
  [.launch "r" fifthAttempt, .fill failedSight, .launch "r" ⟨some 4, resumableRunStatuses, none⟩, .ends 0 .returned,
    .finished (⟨0, "r", fifthAttempt⟩, .returned), .launch "r" ⟨some 3, resumableRunStatuses, none⟩]

end Constructicon
