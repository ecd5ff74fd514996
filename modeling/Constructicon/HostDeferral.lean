import Constructicon.HostWorkers

/-!
# Deferred runs

A run whose worker failed unexpectedly is held back until someone outside the host
launches it. `_fill_capacity` keeps that for what recovery finds; the scans of committed
resumes and answered waits call `launch`, which drops the deferral.
-/

namespace Constructicon

open Transaction

/-- A host, with the runs deferred since their last launch from outside. -/
structure Watch where
  host : Host
  held : Finset RunId

/-- The runs that `_report_failure` defers at this event. -/
def HostEvent.defers (h : Host) : HostEvent → Option RunId
  | .ends task .failed => (h.worker task).map Worker.run
  | .finished (worker, .died) => if (worker, Exit.died) ∈ h.ended then some worker.run else none
  | _ => none

def Watch.step (cfg : HostConfig) (w : Watch) (event : HostEvent) : Watch where
  host := w.host.step cfg event
  held :=
    match event with
    | .launch run _ => w.held.erase run
    | event => w.held ∪ (event.defers w.host).toFinset

/-- The scans find no run that is held; a worker that fails leaves no intent queued for its
run and no other worker of it. -/
def Watch.Quiet (w : Watch) : HostEvent → Prop
  | .resumes found => ∀ x ∈ found, x.1 ∉ w.held
  | .waits found => ∀ x ∈ found, x.1 ∉ w.held
  | .ends task exit => ∀ run ∈ (HostEvent.ends task exit).defers w.host,
      w.host.requested.get? run = none ∧ ∀ x ∈ w.host.live, x.run = run → x.task = task
  | .finished entry => ∀ run ∈ (HostEvent.finished entry).defers w.host,
      w.host.requested.get? run = none ∧ ∀ x ∈ w.host.live, x.run ≠ run
  | _ => True

def Watch.Kept (w : Watch) : Prop :=
  w.host.closed = false → ∀ run ∈ w.held,
    run ∈ w.host.deferred ∧ w.host.requested.get? run = none ∧ ∀ x ∈ w.host.live, x.run ≠ run

/-! ## What a fill starts -/

section Refill

variable {cfg : HostConfig} {h h' h'' : Host} {allowed : RunId → Prop} {run : RunId}
  {intent : LaunchIntent} {sight : Sight}

/-- Only workers of allowed runs are started, and no intent is queued. -/
structure Host.Refill (allowed : RunId → Prop) (h h' : Host) : Prop where
  deferred : h'.deferred = h.deferred
  closed : h'.closed = h.closed
  requested : ∀ run, h.requested.get? run = none → h'.requested.get? run = none
  started : ∀ x ∈ h'.live, x ∈ h.live ∨ allowed x.run

theorem Host.Refill.refl (h : Host) : h.Refill allowed h :=
  ⟨rfl, rfl, fun _ none => none, fun _ mem => .inl mem⟩

theorem Host.Refill.trans (a : h.Refill allowed h') (b : h'.Refill allowed h'') :
    h.Refill allowed h'' where
  deferred := b.deferred.trans a.deferred
  closed := b.closed.trans a.closed
  requested := fun run none => b.requested run (a.requested run none)
  started := fun x hx => (b.started x hx).elim (a.started x) .inr

theorem Host.requested_erase {run' : RunId} (none : h.requested.get? run' = none) :
    (h.requested.erase run).get? run' = Option.none := by
  rw [Dict.get?_erase]
  split_ifs
  · rfl
  · exact none

theorem Host.Refill.forget : h.Refill allowed (h.forget run) :=
  ⟨rfl, rfl, fun _ none => Host.requested_erase none, fun _ mem => .inl mem⟩

theorem Host.Refill.retry : h.Refill allowed { h with claimRetryAt := h.claimRetryAt.erase run } :=
  ⟨rfl, rfl, fun _ none => none, fun _ mem => .inl mem⟩

theorem Host.Refill.start (own : allowed run) (intent : LaunchIntent) (explicit : Bool) :
    h.Refill allowed (h.start run intent explicit) := by
  refine ⟨rfl, rfl, fun _ none => Host.requested_erase none, ?_⟩
  intro x hx
  rcases List.mem_append.mp hx with old | new
  · exact .inl old
  · rw [List.mem_singleton.mp new]
    exact .inr own

theorem Host.Refill.fillRequested (entries : List (RunId × LaunchIntent)) (capacity : ℕ)
    (own : ∀ e ∈ entries, allowed e.1) :
    h.Refill allowed (Host.fillRequested sight entries h capacity).1 := by
  induction entries generalizing h capacity with
  | nil => exact .refl h
  | cons e rest ih =>
    obtain ⟨run, intent⟩ := e
    have here := own (run, intent) List.mem_cons_self
    have later : ∀ e ∈ rest, allowed e.1 := fun e he => own e (List.mem_cons_of_mem _ he)
    unfold Host.fillRequested
    cases hv : h.verdict sight run intent with
    | drop => exact Host.Refill.forget.trans (ih capacity later)
    | wait => exact ih capacity later
    | start =>
      have started : h.Refill allowed
          ({ h with claimRetryAt := h.claimRetryAt.erase run }.start run intent true) :=
        Host.Refill.retry.trans (.start here intent true)
      by_cases last : capacity = 1
      · simp only [last, if_true]
        exact started
      · simp only [last, if_false]
        exact started.trans (ih (capacity - 1) later)

theorem Host.Refill.starts (selected : List (RunId × LaunchIntent))
    (own : ∀ e ∈ selected, allowed e.1) :
    h.Refill allowed (selected.foldl (fun h entry => h.start entry.1 entry.2 false) h) := by
  induction selected generalizing h with
  | nil => exact .refl h
  | cons e rest ih =>
    have started : h.Refill allowed (h.start e.1 e.2 false) :=
      .start (own e List.mem_cons_self) e.2 false
    exact started.trans (ih fun e he => own e (List.mem_cons_of_mem _ he))

theorem Host.Refill.recover {limit : ℕ} (own : ∀ run, run ∉ h.deferred → allowed run) :
    h.Refill allowed (h.recover cfg sight limit) := by
  unfold Host.recover
  cases sight.through with
  | none => exact .refl h
  | some through =>
    have nothing : Selection cfg h limit h [] :=
      ⟨⟨rfl, rfl, rfl, rfl⟩, rfl, rfl, rfl, by simp, List.nodup_nil, Nat.zero_le _⟩
    have hs := nothing.pages sight through sight.tables none (by simp)
    dsimp only
    generalize h.selectPages cfg sight through limit sight.tables none [] = batch at hs ⊢
    have selected : h.Refill allowed batch.1 :=
      ⟨hs.deferred, hs.closed, fun run none => hs.requested ▸ none, fun x hx => .inl (hs.alike.live ▸ hx)⟩
    apply selected.trans
    apply Host.Refill.starts
    intro e he
    apply own
    exact fun deferred => hs.unknown e he (.inr (.inr deferred))

theorem Host.Refill.fillCapacity
    (queued : ∀ run, h.requested.get? run ≠ none → allowed run)
    (own : ∀ run, run ∉ h.deferred → allowed run) :
    h.Refill allowed (h.fillCapacity cfg sight) := by
  unfold Host.fillCapacity
  by_cases full : cfg.maxConcurrency - h.tasks.entries.length = 0
  · simp only [full, if_true]
    exact .refl h
  simp only [full, if_false]
  have filled : h.Refill allowed
      (Host.fillRequested sight h.queue h (cfg.maxConcurrency - h.tasks.entries.length)).1 := by
    apply Host.Refill.fillRequested
    intro e he
    apply queued
    have mem : e ∈ h.requested.entries := (List.perm_insertionSort _ _).mem_iff.mp he
    exact Dict.get?_ne_none_of_mem mem
  split_ifs
  · exact filled
  · apply filled.trans
    apply Host.Refill.recover
    rw [filled.deferred]
    exact own

end Refill

/-! ## The steps -/

section Steps

variable {cfg : HostConfig} {h : Host} {w : Watch} {run run' : RunId}

theorem Host.launched_other (ne : run' ≠ run) (intent : LaunchIntent) :
    (h.launched run' intent).requested.get? run = h.requested.get? run ∧
      (run ∈ h.deferred → run ∈ (h.launched run' intent).deferred) := by
  have accepted : (h.accept run' intent).requested.get? run = h.requested.get? run ∧
      (run ∈ h.deferred → run ∈ (h.accept run' intent).deferred) :=
    ⟨Dict.get?_insert_ne _ _ ne, fun mem => Finset.mem_erase.mpr ⟨ne.symm, mem⟩⟩
  unfold Host.launched Host.launch
  repeat' split
  all_goals first | exact ⟨rfl, id⟩ | exact accepted

theorem Host.launched_closed (h : Host) (run : RunId) (intent : LaunchIntent) :
    (h.launched run intent).closed = h.closed := by
  unfold Host.launched Host.launch
  repeat' split
  all_goals rfl

theorem Watch.Kept.launched (hk : w.Kept) (intent : LaunchIntent) {held : Finset RunId}
    (less : ∀ run' ∈ held, run ≠ run' ∧ run' ∈ w.held) :
    Watch.Kept ⟨w.host.launched run intent, held⟩ := by
  intro opened run' mem
  obtain ⟨ne, mem⟩ := less run' mem
  change (w.host.launched run intent).closed = false at opened
  rw [Host.launched_closed] at opened
  obtain ⟨deferred, unqueued, idle⟩ := hk opened run' mem
  have other := Host.launched_other (h := w.host) ne intent
  have alike := (w.host.launched_alike run intent).1
  refine ⟨other.2 deferred, other.1.trans unqueued, ?_⟩
  change ∀ x ∈ (w.host.launched run intent).live, x.run ≠ run'
  rw [alike.live]
  exact idle

theorem Watch.Kept.launches {α : Type} (run : α → RunId) (intent : α → LaunchIntent)
    (found : List α) (hk : w.Kept) (quiet : ∀ x ∈ found, run x ∉ w.held) :
    Watch.Kept ⟨found.foldl (fun h x => h.launched (run x) (intent x)) w.host, w.held⟩ := by
  obtain ⟨h, held⟩ := w
  induction found generalizing h with
  | nil => exact hk
  | cons x found ih =>
    have here : run x ∉ held := quiet x List.mem_cons_self
    apply ih (h.launched (run x) (intent x))
    · apply hk.launched (intent x)
      intro run' mem
      exact ⟨fun same => here (same ▸ mem), mem⟩
    · exact fun x hx => quiet x (List.mem_cons_of_mem _ hx)

theorem Watch.Kept.fill (hk : w.Kept) (opened : w.host.closed = false) (sight : Sight) :
    w.host.Refill (fun run => run ∉ w.held) (w.host.fillCapacity cfg sight) := by
  apply Host.Refill.fillCapacity
  · intro run queued mem
    exact queued (hk opened run mem).2.1
  · intro run out mem
    exact out (hk opened run mem).1

theorem Watch.Kept.refill {h' : Host} (hk : w.Kept)
    (a : w.host.Refill (fun run => run ∉ w.held) h') : Watch.Kept ⟨h', w.held⟩ := by
  intro opened run mem
  change h'.closed = false at opened
  rw [a.closed] at opened
  obtain ⟨deferred, unqueued, idle⟩ := hk opened run mem
  refine ⟨?_, a.requested run unqueued, ?_⟩
  · change run ∈ h'.deferred
    rw [a.deferred]
    exact deferred
  · rintro x hx rfl
    rcases a.started x hx with old | free
    · exact idle x old rfl
    · exact free mem

theorem Host.leave_other (cfg : HostConfig) (h : Host) (exit : Exit) (ne : run' ≠ run) :
    (h.leave cfg run' exit).requested.get? run = h.requested.get? run ∧
      (run ∈ h.deferred → run ∈ (h.leave cfg run' exit).deferred) := by
  unfold Host.leave
  cases exit with
  | ownershipLost now =>
    dsimp only
    split_ifs
    · exact ⟨rfl, id⟩
    · split
      · exact ⟨rfl, id⟩
      · split_ifs
        · exact ⟨Dict.get?_insert_ne _ _ ne, id⟩
        · exact ⟨rfl, id⟩
  | failed => exact ⟨rfl, fun mem => Finset.mem_insert_of_mem mem⟩
  | returned => exact ⟨rfl, id⟩
  | superseded => exact ⟨rfl, id⟩
  | cancelled => exact ⟨rfl, id⟩
  | died => exact ⟨rfl, id⟩

theorem Host.leave_closed (exit : Exit) : (h.leave cfg run exit).closed = h.closed := by
  cases exit with
  | ownershipLost now =>
    unfold Host.leave
    dsimp only
    repeat' split
    all_goals rfl
  | _ => rfl

theorem Watch.Kept.ends (hk : w.Kept) (task : ℕ) (exit : Exit) (quiet : w.Quiet (.ends task exit)) :
    (w.step cfg (.ends task exit)).Kept := by
  intro opened run mem
  obtain ⟨h, held⟩ := w
  change (h.ends cfg task exit).closed = false at opened
  change run ∈ held ∪ ((HostEvent.ends task exit).defers h).toFinset at mem
  change run ∈ (h.ends cfg task exit).deferred ∧
    (h.ends cfg task exit).requested.get? run = none ∧ ∀ x ∈ (h.ends cfg task exit).live, x.run ≠ run
  rw [Finset.mem_union, Option.mem_toFinset] at mem
  unfold Host.ends at opened ⊢
  cases hw : h.worker task with
  | none =>
    rw [hw] at opened
    have old : run ∈ held := by
      rcases mem with old | new
      · exact old
      · cases exit <;> simp [HostEvent.defers, hw] at new
    exact hk opened run old
  | some worker =>
    rw [hw] at opened
    dsimp only at opened ⊢
    rw [Host.leave_closed] at opened
    have alive : worker ∈ h.live := List.mem_of_find?_eq_some hw
    have alike := (h.leave_alike cfg worker.run exit).1
    rw [alike.live]
    rcases mem with old | new
    · obtain ⟨deferred, unqueued, idle⟩ := hk opened run old
      have other := h.leave_other cfg exit (idle worker alive)
      refine ⟨other.2 deferred, other.1.trans unqueued, ?_⟩
      exact fun x hx => idle x (List.mem_of_mem_filter hx)
    · obtain ⟨unqueued, single⟩ := quiet run new
      have failed : exit = .failed ∧ worker.run = run := by
        cases exit <;> simp [HostEvent.defers, hw] at new
        exact ⟨rfl, new⟩
      obtain ⟨rfl, rfl⟩ := failed
      refine ⟨Finset.mem_insert_self _ _, unqueued, ?_⟩
      intro x hx same
      have sameTask := single x (List.mem_of_mem_filter hx) same
      simp [sameTask] at hx

theorem Host.finished_rest (h : Host) (entry : Worker × Exit) :
    (h.finished entry).requested = h.requested ∧ (h.finished entry).live = h.live ∧
      (h.finished entry).closed = h.closed ∧ h.deferred ⊆ (h.finished entry).deferred ∧
      (entry.2 = .died → entry.1.run ∈ (h.finished entry).deferred) := by
  have wider : h.deferred ⊆ insert entry.1.run h.deferred := Finset.subset_insert _ _
  unfold Host.finished
  dsimp only
  split_ifs with died own own
  · exact ⟨rfl, rfl, rfl, wider, fun _ => Finset.mem_insert_self _ _⟩
  · exact ⟨rfl, rfl, rfl, wider, fun _ => Finset.mem_insert_self _ _⟩
  · exact ⟨rfl, rfl, rfl, fun _ => id, fun died' => absurd died' died⟩
  · exact ⟨rfl, rfl, rfl, fun _ => id, fun died' => absurd died' died⟩

theorem HostEvent.defers_finished {entry : Worker × Exit}
    (new : run ∈ (HostEvent.finished entry).defers h) :
    entry ∈ h.ended ∧ entry.2 = .died ∧ entry.1.run = run := by
  obtain ⟨worker, exit⟩ := entry
  cases exit with
  | died =>
    simp only [HostEvent.defers] at new
    split_ifs at new with mem
    · exact ⟨mem, rfl, Option.some.inj new⟩
    · cases new
  | _ => cases new

theorem Watch.Kept.finished (hk : w.Kept) (entry : Worker × Exit)
    (quiet : w.Quiet (.finished entry)) : (w.step cfg (.finished entry)).Kept := by
  intro opened run mem
  obtain ⟨h, held⟩ := w
  change run ∈ held ∪ ((HostEvent.finished entry).defers h).toFinset at mem
  rw [Finset.mem_union, Option.mem_toFinset] at mem
  change Host.closed (if entry ∈ h.ended then h.finished entry else h) = false at opened
  change run ∈ Host.deferred (if entry ∈ h.ended then h.finished entry else h) ∧
    (Host.requested (if entry ∈ h.ended then h.finished entry else h)).get? run = none ∧
    ∀ x ∈ Host.live (if entry ∈ h.ended then h.finished entry else h), x.run ≠ run
  obtain ⟨requested, live, closed, wider, added⟩ := h.finished_rest entry
  rcases mem with old | new
  · split_ifs at opened ⊢
    · rw [closed] at opened
      obtain ⟨deferred, unqueued, idle⟩ := hk opened run old
      rw [requested, live]
      exact ⟨wider deferred, unqueued, idle⟩
    · exact hk opened run old
  · obtain ⟨ended, died, rfl⟩ := HostEvent.defers_finished new
    obtain ⟨unqueued, idle⟩ := quiet _ new
    rw [if_pos ended, requested, live]
    exact ⟨added died, unqueued, idle⟩

theorem Watch.Kept.step (hk : w.Kept) (event : HostEvent) (quiet : w.Quiet event) :
    (w.step cfg event).Kept := by
  cases event with
  | launch run intent =>
    apply hk.launched intent
    intro run' mem
    obtain ⟨ne, mem⟩ := Finset.mem_erase.mp mem
    exact ⟨ne.symm, mem⟩
  | resumes found =>
    have same : (w.step cfg (.resumes found)).held = w.held := Finset.union_empty _
    have launched := hk.launches Prod.fst resumeIntent found quiet
    intro opened run mem
    exact launched opened run (same ▸ mem)
  | waits found =>
    have same : (w.step cfg (.waits found)).held = w.held := Finset.union_empty _
    have launched := hk.launches Prod.fst waitIntent found quiet
    intro opened run mem
    exact launched opened run (same ▸ mem)
  | fill sight =>
    have same : (w.step cfg (.fill sight)).held = w.held := Finset.union_empty _
    have filled : Watch.Kept ⟨w.host.step cfg (.fill sight), w.held⟩ := by
      cases opened : w.host.closed with
      | true =>
        have still : w.host.step cfg (.fill sight) = w.host := by simp [Host.step, opened]
        rw [still]
        exact hk
      | false =>
        have fills : w.host.step cfg (.fill sight) = w.host.fillCapacity cfg sight := by
          simp [Host.step, opened]
        rw [fills]
        exact hk.refill (hk.fill opened sight)
    intro opened run mem
    exact filled opened run (same ▸ mem)
  | ends task exit => exact hk.ends task exit quiet
  | finished entry => exact hk.finished entry quiet
  | shutdown =>
    intro opened
    cases opened

theorem Watch.Kept.started (hk : w.Kept) (event : HostEvent) :
    ∀ x ∈ (w.host.step cfg event).live, x ∈ w.host.live ∨ x.run ∉ w.held := by
  have launches : ∀ {α : Type} (run : α → RunId) (intent : α → LaunchIntent) (found : List α)
      (h : Host), (found.foldl (fun h x => h.launched (run x) (intent x)) h).live = h.live := by
    intro α run intent found
    induction found with
    | nil => exact fun h => rfl
    | cons x found ih =>
      intro h
      rw [List.foldl_cons, ih]
      exact (h.launched_alike _ _).1.live
  cases event with
  | launch run intent =>
    intro x hx
    change x ∈ (w.host.launched run intent).live at hx
    rw [(w.host.launched_alike run intent).1.live] at hx
    exact .inl hx
  | resumes found =>
    intro x hx
    change x ∈ Host.live (found.foldl (fun h x => h.launched x.1 (resumeIntent x)) w.host) at hx
    rw [launches Prod.fst resumeIntent] at hx
    exact .inl hx
  | waits found =>
    intro x hx
    change x ∈ Host.live (found.foldl (fun h x => h.launched x.1 (waitIntent x)) w.host) at hx
    rw [launches Prod.fst waitIntent] at hx
    exact .inl hx
  | fill sight =>
    intro x hx
    cases opened : w.host.closed with
    | true =>
      simp only [Host.step, opened, if_true] at hx
      exact .inl hx
    | false =>
      simp only [Host.step, opened, Bool.false_eq_true, if_false] at hx
      exact (hk.fill opened sight).started x hx
  | ends task exit =>
    intro x hx
    change x ∈ (w.host.ends cfg task exit).live at hx
    unfold Host.ends at hx
    split at hx
    · exact .inl hx
    · have mem := List.mem_of_mem_filter hx
      rw [(w.host.leave_alike cfg _ exit).1.live] at mem
      exact .inl mem
  | finished entry =>
    intro x hx
    change x ∈ Host.live (if entry ∈ w.host.ended then w.host.finished entry else w.host) at hx
    split_ifs at hx
    · rw [(w.host.finished_rest entry).2.1] at hx
      exact .inl hx
    · exact .inl hx
  | shutdown => exact fun x hx => .inl (List.mem_of_mem_filter hx)

end Steps

/-- In every history whose scans find no held run and whose workers fail with nothing queued
behind them, no event starts a worker for a held run. -/
theorem held_not_started (cfg : HostConfig) {w : Watch}
    (history : Guarded Watch.Quiet (Watch.step cfg) ⟨Host.empty, ∅⟩ w) (event : HostEvent) :
    ∀ x ∈ (w.host.step cfg event).live, x ∈ w.host.live ∨ x.run ∉ w.held := by
  have hk : w.Kept := by
    apply history.invariant (I := Watch.Kept) (fun _ event quiet hk => hk.step event quiet)
    intro _ run mem
    simp at mem
  exact hk.started event

section Respun

def respins : List HostEvent :=
  [.resumes [("r", 5, "c")], .fill failedSight, .ends 0 .failed,
    .finished (⟨0, "r", resumeIntent ("r", 5, "c")⟩, .failed), .resumes [("r", 5, "c")]]

/-- The worker failed; the scan finds nothing, and the pump starts nothing for its run. -/
theorem failed_held :
    (((((Watch.mk Host.empty ∅).step pairHost (.resumes [("r", 5, "c")])).step pairHost
      (.fill failedSight)).step pairHost (.ends 0 .failed)).held = {"r"}) ∧
    ∀ x ∈ (((((Watch.mk Host.empty ∅).step pairHost (.resumes [("r", 5, "c")])).step pairHost
      (.fill failedSight)).step pairHost (.ends 0 .failed)).host.step pairHost
        (.fill failedSight)).live, x.run ∉ ({"r"} : Finset RunId) := by
  have queued : Guarded Watch.Quiet (Watch.step pairHost) ⟨Host.empty, ∅⟩
      ((Watch.mk Host.empty ∅).step pairHost (.resumes [("r", 5, "c")])) :=
    .call _ .refl (fun x _ => Finset.notMem_empty _)
  have started := queued.call (HostEvent.fill failedSight) trivial
  have failed := started.call (HostEvent.ends 0 .failed) (by
    intro run mem
    have same : run = "r" := by
      cases mem
      rfl
    subst same
    decide)
  refine ⟨by decide, fun x hx => ?_⟩
  rcases held_not_started pairHost failed (.fill failedSight) x hx with old | free
  · exact absurd old (List.not_mem_nil)
  · exact free

/-- A run that its worker's failure deferred is started again at the next scan. -/
theorem held_respun :
    ∃ events : List HostEvent, ∃ sight : Sight,
      "r" ∈ (events.foldl (Watch.step pairHost) ⟨Host.empty, ∅⟩).held ∧
      (events.foldl (Watch.step pairHost) ⟨Host.empty, ∅⟩).host.live = [] ∧
      (((events.foldl (Watch.step pairHost) ⟨Host.empty, ∅⟩).host.step pairHost (.fill sight)).live.map
        Worker.run) = ["r"] :=
  ⟨respins, failedSight, by decide, by decide, by decide⟩

end Respun

end Constructicon
