import Constructicon.RunHost
import Constructicon.Library.Transaction

/-!
# The workers of a host

A worker that is not yet done is the one recorded under its run, as long as the pump
starts no queued intent over a live worker. `_fill_capacity` does not look: it reads the
durable lease, not its own table.
-/

namespace Constructicon

open Transaction

structure Host.Tracked (cfg : HostConfig) (h : Host) : Prop where
  recorded : ∀ x ∈ h.live, h.tasks.get? x.run = some x.task
  numbered : ∀ x ∈ h.live, x.task < h.nextTask
  assigned : ∀ run task, h.tasks.get? run = some task → task < h.nextTask
  distinct : (h.live.map Worker.task).Nodup
  retired : ∀ e ∈ h.ended, e.1.task < h.nextTask ∧ ¬h.Live e.1.task
  keys : h.tasks.keys.Nodup
  queued : h.requested.keys.Nodup
  bounded : h.tasks.entries.length ≤ cfg.maxConcurrency

def HostEvent.Clear (h : Host) : HostEvent → Prop
  | .fill sight => ∀ run intent task, h.requested.get? run = some intent →
      h.verdict sight run intent = .start → h.tasks.get? run = some task → ¬h.Live task
  | _ => True

section Tracked

variable {cfg : HostConfig} {h h' : Host} {run : RunId} {intent : LaunchIntent} {sight : Sight}

theorem Host.tracked_empty (cfg : HostConfig) : Host.empty.Tracked cfg where
  recorded := fun x hx => by simp [Host.empty] at hx
  numbered := fun x hx => by simp [Host.empty] at hx
  assigned := fun run task found => by simp [Host.empty] at found
  distinct := List.nodup_nil
  retired := fun e he => by simp [Host.empty] at he
  keys := List.nodup_nil
  queued := List.nodup_nil
  bounded := Nat.zero_le _

structure Host.Alike (h h' : Host) : Prop where
  tasks : h'.tasks = h.tasks
  live : h'.live = h.live
  ended : h'.ended = h.ended
  nextTask : h'.nextTask = h.nextTask

theorem Host.Alike.trans {h'' : Host} (a : h.Alike h') (b : h'.Alike h'') : h.Alike h'' :=
  ⟨b.tasks.trans a.tasks, b.live.trans a.live, b.ended.trans a.ended, b.nextTask.trans a.nextTask⟩

theorem Host.Tracked.alike (ht : h.Tracked cfg) (a : h.Alike h') (queued : h'.requested.keys.Nodup) :
    h'.Tracked cfg := by
  obtain ⟨tasks, live, ended, next⟩ := a
  refine ⟨?_, ?_, ?_, ?_, ?_, ?_, queued, ?_⟩
  · rw [live, tasks]
    exact ht.recorded
  · rw [live, next]
    exact ht.numbered
  · rw [tasks, next]
    exact ht.assigned
  · rw [live]
    exact ht.distinct
  · rw [ended, next]
    unfold Host.Live
    rw [live]
    exact ht.retired
  · rw [tasks]
    exact ht.keys
  · rw [tasks]
    exact ht.bounded

theorem Host.launched_alike (h : Host) (run : RunId) (intent : LaunchIntent) :
    h.Alike (h.launched run intent) ∧ (h.requested.keys.Nodup →
      (h.launched run intent).requested.keys.Nodup) := by
  have same : h.Alike h := ⟨rfl, rfl, rfl, rfl⟩
  have accepted : h.Alike (h.accept run intent) := ⟨rfl, rfl, rfl, rfl⟩
  have queued : h.requested.keys.Nodup → (h.accept run intent).requested.keys.Nodup :=
    fun hq => Dict.nodup_insert hq _ _
  unfold Host.launched Host.launch
  repeat' split
  all_goals first | exact ⟨same, id⟩ | exact ⟨accepted, queued⟩

theorem Host.Tracked.launches {α : Type} (run : α → RunId) (intent : α → LaunchIntent)
    (found : List α) (ht : h.Tracked cfg) :
    (found.foldl (fun h x => h.launched (run x) (intent x)) h).Tracked cfg := by
  induction found generalizing h with
  | nil => exact ht
  | cons x found ih =>
    apply ih
    obtain ⟨alike, queued⟩ := h.launched_alike (run x) (intent x)
    exact ht.alike alike (queued ht.queued)

theorem Host.live_start (h : Host) (run : RunId) (intent : LaunchIntent) (explicit : Bool) (task : ℕ) :
    (h.start run intent explicit).Live task ↔ h.Live task ∨ task = h.nextTask := by
  simp only [Host.Live, Host.start, List.mem_append, List.mem_singleton, or_and_right, exists_or,
    exists_eq_left]
  rw [eq_comm (a := h.nextTask)]

theorem Host.Tracked.start (ht : h.Tracked cfg)
    (free : ∀ task, h.tasks.get? run = some task → ¬h.Live task)
    (room : h.tasks.entries.length < cfg.maxConcurrency) (intent : LaunchIntent) (explicit : Bool) :
    (h.start run intent explicit).Tracked cfg := by
  have other : ∀ x ∈ h.live, run ≠ x.run := by
    rintro x hx rfl
    exact free x.task (ht.recorded x hx) ⟨x, hx, rfl⟩
  refine ⟨?_, ?_, ?_, ?_, ?_, Dict.nodup_insert ht.keys _ _, Dict.nodup_erase ht.queued _, ?_⟩
  · intro x hx
    rcases List.mem_append.mp hx with old | new
    · change (h.tasks.insert run h.nextTask).get? x.run = _
      rw [Dict.get?_insert_ne _ _ (other x old)]
      exact ht.recorded x old
    · rw [List.mem_singleton.mp new]
      exact Dict.get?_insert_self _ _ _
  · intro x hx
    change x.task < h.nextTask + 1
    rcases List.mem_append.mp hx with old | new
    · have := ht.numbered x old
      omega
    · rw [List.mem_singleton.mp new]
      exact Nat.lt_succ_self h.nextTask
  · intro run' task found
    change task < h.nextTask + 1
    change (h.tasks.insert run h.nextTask).get? run' = _ at found
    by_cases same : run = run'
    · subst same
      rw [Dict.get?_insert_self] at found
      cases found
      omega
    · rw [Dict.get?_insert_ne _ _ same] at found
      have := ht.assigned run' task found
      omega
  · change ((h.live ++ [(⟨h.nextTask, run, intent⟩ : Worker)]).map Worker.task).Nodup
    rw [List.map_append, List.nodup_append]
    refine ⟨ht.distinct, List.nodup_singleton _, ?_⟩
    intro task old task' new
    obtain ⟨x, hx, rfl⟩ := List.mem_map.mp old
    have fresh : task' = h.nextTask := by simpa using new
    have := ht.numbered x hx
    omega
  · intro e he
    obtain ⟨below, gone⟩ := ht.retired e he
    refine ⟨Nat.lt_succ_of_lt below, ?_⟩
    rw [Host.live_start]
    rintro (alive | new)
    · exact gone alive
    · omega
  · have grown := Dict.length_insert_le h.tasks run h.nextTask
    change (h.tasks.insert run h.nextTask).entries.length ≤ _
    omega

theorem Host.start_length (h : Host) (run : RunId) (intent : LaunchIntent) (explicit : Bool) :
    (h.start run intent explicit).tasks.entries.length ≤ h.tasks.entries.length + 1 :=
  Dict.length_insert_le _ _ _

theorem Host.verdict_congr (retry : h'.claimRetryAt.get? run = h.claimRetryAt.get? run)
    (intent : LaunchIntent) : h'.verdict sight run intent = h.verdict sight run intent := by
  unfold Host.verdict
  cases hr : sight.record run with
  | none => rfl
  | some record =>
    have same : record.runId = run := sight.named run record hr
    have waits : h'.Waits record sight.now ↔ h.Waits record sight.now := by
      simp only [Host.Waits, same, retry]
    simp only [waits]

/-- The intent, if the pump would start it, starts over no live worker. -/
def Host.Free (h : Host) (sight : Sight) (e : RunId × LaunchIntent) : Prop :=
  h.verdict sight e.1 e.2 = .start → ∀ task, h.tasks.get? e.1 = some task → ¬h.Live task

theorem Host.Free.forget {e : RunId × LaunchIntent} (hf : h.Free sight e) (ne : run ≠ e.1) :
    (h.forget run).Free sight e := by
  intro verdict
  have same : (h.forget run).verdict sight e.1 e.2 = h.verdict sight e.1 e.2 :=
    Host.verdict_congr (Dict.get?_erase_ne _ ne) e.2
  rw [same] at verdict
  exact hf verdict

theorem Host.Free.start {e : RunId × LaunchIntent} (hf : h.Free sight e) (ne : run ≠ e.1)
    (ht : h.Tracked cfg) :
    ({ h with claimRetryAt := h.claimRetryAt.erase run }.start run intent true).Free sight e := by
  intro verdict task found
  have same : ({ h with claimRetryAt := h.claimRetryAt.erase run }.start run intent true).verdict
      sight e.1 e.2 = h.verdict sight e.1 e.2 :=
    Host.verdict_congr (Dict.get?_erase_ne _ ne) e.2
  rw [same] at verdict
  change (h.tasks.insert run h.nextTask).get? e.1 = some task at found
  rw [Dict.get?_insert_ne _ _ ne] at found
  have below := ht.assigned e.1 task found
  rw [Host.live_start]
  rintro (alive | new)
  · exact hf verdict task found alive
  · change task = h.nextTask at new
    omega

theorem Host.Tracked.fillRequested (entries : List (RunId × LaunchIntent)) (capacity : ℕ)
    (ht : h.Tracked cfg) (positive : 0 < capacity)
    (room : h.tasks.entries.length + capacity ≤ cfg.maxConcurrency)
    (distinct : (entries.map Prod.fst).Nodup) (free : ∀ e ∈ entries, h.Free sight e) :
    (Host.fillRequested sight entries h capacity).1.Tracked cfg ∧
      (Host.fillRequested sight entries h capacity).1.tasks.entries.length +
        (Host.fillRequested sight entries h capacity).2 ≤ cfg.maxConcurrency := by
  induction entries generalizing h capacity with
  | nil => exact ⟨ht, room⟩
  | cons e rest ih =>
    obtain ⟨run, intent⟩ := e
    obtain ⟨apart, distinct⟩ := List.nodup_cons.mp distinct
    have ne : ∀ e ∈ rest, run ≠ e.1 := by
      rintro e he rfl
      exact apart (List.mem_map.mpr ⟨e, he, rfl⟩)
    have here := free (run, intent) List.mem_cons_self
    have later : ∀ e ∈ rest, h.Free sight e := fun e he => free e (List.mem_cons_of_mem _ he)
    unfold Host.fillRequested
    cases hv : h.verdict sight run intent with
    | drop =>
      have forgot : (h.forget run).Tracked cfg :=
        ht.alike ⟨rfl, rfl, rfl, rfl⟩ (Dict.nodup_erase ht.queued _)
      apply ih (h := h.forget run) capacity forgot positive room distinct
      exact fun e he => (later e he).forget (ne e he)
    | wait => exact ih capacity ht positive room distinct later
    | start =>
      have retried : Host.Tracked cfg { h with claimRetryAt := h.claimRetryAt.erase run } :=
        ht.alike ⟨rfl, rfl, rfl, rfl⟩ ht.queued
      have open' : h.tasks.entries.length < cfg.maxConcurrency := by omega
      have free' : ∀ task, h.tasks.get? run = some task → ¬h.Live task := here hv
      have started := retried.start free' open' intent true
      have grown := Host.start_length { h with claimRetryAt := h.claimRetryAt.erase run }
        run intent true
      change _ ≤ h.tasks.entries.length + 1 at grown
      by_cases last : capacity = 1
      · simp only [last, if_true]
        exact ⟨started, by omega⟩
      · simp only [last, if_false]
        apply ih (capacity - 1) started (by omega) (by omega) distinct
        exact fun e he => (later e he).start (ne e he) ht

/-! ## Recovery -/

def HostConfig.runKey (cfg : HostConfig) (run : RunId) : String ×ₗ String := toLex (cfg.created run, run)

theorem HostConfig.runKey_injective (cfg : HostConfig) : Function.Injective cfg.runKey := by
  intro a b same
  exact congrArg Prod.snd (toLex_inj.mp same)

/-- What recovery has selected so far: runs this host does not have, once each. -/
structure Selection (cfg : HostConfig) (h₀ : Host) (limit : ℕ) (h : Host)
    (selected : List (RunId × LaunchIntent)) : Prop where
  alike : h₀.Alike h
  requested : h.requested = h₀.requested
  deferred : h.deferred = h₀.deferred
  closed : h.closed = h₀.closed
  unknown : ∀ e ∈ selected, ¬h₀.Known e.1
  distinct : (selected.map Prod.fst).Nodup
  limited : selected.length ≤ limit

theorem Selection.known_iff {h₀ : Host} {limit : ℕ} {selected : List (RunId × LaunchIntent)}
    (hs : Selection cfg h₀ limit h selected) (run : RunId) : h.Known run ↔ h₀.Known run := by
  unfold Host.Known
  rw [hs.alike.tasks, hs.requested, hs.deferred]

theorem Selection.add {h₀ : Host} {limit : ℕ} {selected : List (RunId × LaunchIntent)}
    (hs : Selection cfg h₀ limit h selected) (short : selected.length < limit)
    (unknown : ¬h.Known run) (fresh : run ∉ selected.map Prod.fst) (intent : LaunchIntent) :
    Selection cfg h₀ limit { h with claimRetryAt := h.claimRetryAt.erase run }
      (selected ++ [(run, intent)]) := by
  refine ⟨hs.alike.trans ⟨rfl, rfl, rfl, rfl⟩, hs.requested, hs.deferred, hs.closed, ?_, ?_, ?_⟩
  · intro e he
    rcases List.mem_append.mp he with old | new
    · exact hs.unknown e old
    · rw [List.mem_singleton.mp new]
      exact fun known => unknown ((hs.known_iff run).mpr known)
  · rw [List.map_append, List.nodup_append]
    refine ⟨hs.distinct, List.nodup_singleton _, ?_⟩
    rintro run' old run'' new rfl
    have same : run' = run := List.mem_singleton.mp new
    exact fresh (same ▸ old)
  · rw [List.length_append, List.length_singleton]
    omega

theorem Selection.page (sight : Sight) {h₀ : Host} {limit : ℕ} (records : List RunRecord)
    {selected : List (RunId × LaunchIntent)} (hs : Selection cfg h₀ limit h selected)
    (short : selected.length < limit)
    (increasing : records.Pairwise (fun a b => cfg.key a < cfg.key b))
    (beyond : ∀ e ∈ selected, ∀ r ∈ records, cfg.runKey e.1 < cfg.key r) :
    Selection cfg h₀ limit (h.selectPage sight limit records selected).1
        (h.selectPage sight limit records selected).2 ∧
      ∀ e ∈ (h.selectPage sight limit records selected).2,
        e ∈ selected ∨ ∃ r ∈ records, r.runId = e.1 := by
  induction records generalizing h selected with
  | nil => exact ⟨hs, fun e he => .inl he⟩
  | cons record rest ih =>
    obtain ⟨first, increasing⟩ := List.pairwise_cons.mp increasing
    have further : ∀ e ∈ selected, ∀ r ∈ rest, cfg.runKey e.1 < cfg.key r :=
      fun e he r hr => beyond e he r (List.mem_cons_of_mem _ hr)
    unfold Host.selectPage
    by_cases passed : h.Known record.runId ∨ h.Waits record sight.now
    · simp only [passed, if_true]
      have ⟨hs', from'⟩ := ih hs short increasing further
      refine ⟨hs', fun e he => ?_⟩
      rcases from' e he with old | ⟨r, hr, same⟩
      · exact .inl old
      · exact .inr ⟨r, List.mem_cons_of_mem _ hr, same⟩
    simp only [passed, if_false]
    have fresh : record.runId ∉ selected.map Prod.fst := by
      intro mem
      obtain ⟨e, he, same⟩ := List.mem_map.mp mem
      have before := beyond e he record List.mem_cons_self
      rw [same] at before
      exact lt_irrefl _ before
    have grown := hs.add short (fun known => passed (.inl known)) fresh
      (recoveryIntent (sight.maxEventSeq record.runId))
    have added : ∀ e ∈ selected ++
        [(record.runId, recoveryIntent (sight.maxEventSeq record.runId))],
        e ∈ selected ∨ e.1 = record.runId := by
      intro e he
      rcases List.mem_append.mp he with old | new
      · exact .inl old
      · rw [List.mem_singleton.mp new]
        exact .inr rfl
    generalize selected ++ [(record.runId, recoveryIntent (sight.maxEventSeq record.runId))] = wider
      at grown added
    have here : ∀ e ∈ wider, e ∈ selected ∨ ∃ r ∈ record :: rest, r.runId = e.1 :=
      fun e he => (added e he).imp_right fun same => ⟨record, List.mem_cons_self, same.symm⟩
    by_cases full : wider.length = limit
    · simp only [full, if_true]
      exact ⟨grown, here⟩
    simp only [full, if_false]
    have below := grown.limited
    have beyond' : ∀ e ∈ wider, ∀ r ∈ rest, cfg.runKey e.1 < cfg.key r := by
      intro e he r hr
      rcases added e he with old | same
      · exact further e old r hr
      · rw [same]
        exact first r hr
    have ⟨hs', from'⟩ := ih grown (by omega) increasing beyond'
    refine ⟨hs', fun e he => ?_⟩
    rcases from' e he with old | ⟨r, hr, same⟩
    · exact here e old
    · exact .inr ⟨r, List.mem_cons_of_mem _ hr, same⟩

theorem RunTable.page_increasing (cfg : HostConfig) (table : RunTable)
    (after : Option (String ×ₗ String)) (through : String ×ₗ String) (limit : ℕ) :
    (Keyset.page cfg.key (table.records.filter (fun r => r.status ∈ recoveryStatuses)) after through
      limit).Pairwise (fun a b => cfg.key a < cfg.key b) := by
  apply Keyset.page_increasing
  have keyed : table.records.map cfg.key = (table.records.map RunRecord.runId).map cfg.runKey := by
    rw [List.map_map]
    rfl
  have all : (table.records.map cfg.key).Nodup := by
    rw [keyed]
    exact table.distinct.map cfg.runKey_injective
  exact all.sublist (List.filter_sublist.map cfg.key)

theorem Selection.pages (sight : Sight) (through : String ×ₗ String) {h₀ : Host} {limit : ℕ}
    (tables : List RunTable) (after : Option (String ×ₗ String))
    {selected : List (RunId × LaunchIntent)} (hs : Selection cfg h₀ limit h selected)
    (seen : ∀ e ∈ selected, ∃ a, after = some a ∧ cfg.runKey e.1 ≤ a) :
    Selection cfg h₀ limit (h.selectPages cfg sight through limit tables after selected).1
      (h.selectPages cfg sight through limit tables after selected).2 := by
  induction tables generalizing h after selected with
  | nil => exact hs
  | cons table tables ih =>
    unfold Host.selectPages
    by_cases full : limit ≤ selected.length
    · simpa only [full, if_true] using hs
    simp only [full, if_false]
    have increasing := table.page_increasing cfg after through cfg.recoveryPageSize
    generalize hp : Keyset.page cfg.key (table.records.filter (fun r => r.status ∈ recoveryStatuses))
      after through cfg.recoveryPageSize = records at increasing
    cases hl : records.getLast? with
    | none => exact hs
    | some last =>
      have beyond : ∀ e ∈ selected, ∀ r ∈ records, cfg.runKey e.1 < cfg.key r := by
        intro e he r hr
        obtain ⟨a, ha, le⟩ := seen e he
        rw [← hp] at hr
        have after' := (Keyset.mem_window.mp (Keyset.window_of_mem_page hr)).2.1
        exact lt_of_le_of_lt le (after' a ha)
      have paged := hs.page sight records (by omega) increasing beyond
      dsimp only
      split_ifs with short
      · exact paged.1
      · apply ih _ paged.1
        intro e he
        refine ⟨_, rfl, ?_⟩
        have lastMem : last ∈ records := List.mem_of_getLast? hl
        rcases paged.2 e he with old | ⟨r, hr, same⟩
        · exact (beyond e old last lastMem).le
        · have le : cfg.key r ≤ cfg.key last := by
            rw [← hp] at hr hl
            exact Keyset.page_le_last hr hl
          rw [← same]
          exact le

theorem Host.Tracked.starts (selected : List (RunId × LaunchIntent)) (ht : h.Tracked cfg)
    (room : h.tasks.entries.length + selected.length ≤ cfg.maxConcurrency)
    (unknown : ∀ e ∈ selected, h.tasks.get? e.1 = none) (distinct : (selected.map Prod.fst).Nodup) :
    (selected.foldl (fun h entry => h.start entry.1 entry.2 false) h).Tracked cfg := by
  induction selected generalizing h with
  | nil => exact ht
  | cons e rest ih =>
    obtain ⟨apart, distinct⟩ := List.nodup_cons.mp distinct
    have none := unknown e List.mem_cons_self
    rw [List.length_cons] at room
    have free : ∀ task, h.tasks.get? e.1 = some task → ¬h.Live task := by
      intro task found
      rw [none] at found
      cases found
    have started := ht.start free (by omega) e.2 false
    have grown := h.start_length e.1 e.2 false
    apply ih started (by omega) _ distinct
    intro e' he'
    have ne : e.1 ≠ e'.1 := fun same => apart (same ▸ List.mem_map_of_mem he')
    change (h.tasks.insert e.1 h.nextTask).get? e'.1 = Option.none
    rw [Dict.get?_insert_ne _ _ ne]
    exact unknown e' (List.mem_cons_of_mem _ he')

theorem Host.Tracked.recover (ht : h.Tracked cfg) {limit : ℕ}
    (room : h.tasks.entries.length + limit ≤ cfg.maxConcurrency) :
    (h.recover cfg sight limit).Tracked cfg := by
  unfold Host.recover
  cases sight.through with
  | none => exact ht
  | some through =>
    have nothing : Selection cfg h limit h [] :=
      ⟨⟨rfl, rfl, rfl, rfl⟩, rfl, rfl, rfl, by simp, List.nodup_nil, Nat.zero_le _⟩
    have hs := nothing.pages sight through sight.tables none (by simp)
    dsimp only
    generalize h.selectPages cfg sight through limit sight.tables none [] = batch at hs ⊢
    have same : batch.1.Tracked cfg := ht.alike hs.alike (hs.requested ▸ ht.queued)
    have limited := hs.limited
    apply same.starts batch.2
    · rw [hs.alike.tasks]
      omega
    · intro e he
      have unknown := hs.unknown e he
      rw [hs.alike.tasks]
      exact Option.not_isSome_iff_eq_none.mp fun known => unknown (.inl known)
    · exact hs.distinct

/-! ## The steps -/

theorem Host.Tracked.fillCapacity (ht : h.Tracked cfg) (clear : (HostEvent.fill sight).Clear h) :
    (h.fillCapacity cfg sight).Tracked cfg := by
  unfold Host.fillCapacity
  by_cases full : cfg.maxConcurrency - h.tasks.entries.length = 0
  · simpa only [full, if_true] using ht
  simp only [full, if_false]
  have sorted : h.queue.Perm h.requested.entries := List.perm_insertionSort _ _
  have distinct : (h.queue.map Prod.fst).Nodup := (sorted.map Prod.fst).nodup_iff.mpr ht.queued
  have free : ∀ e ∈ h.queue, h.Free sight e := by
    intro e he start task found
    have queued := Dict.get?_of_mem ht.queued (sorted.mem_iff.mp he)
    exact clear e.1 e.2 task queued start found
  have filled := ht.fillRequested h.queue (cfg.maxConcurrency - h.tasks.entries.length) (by omega)
    (by omega) distinct free
  split_ifs
  · exact filled.1
  · exact filled.1.recover filled.2

theorem Host.leave_alike (cfg : HostConfig) (h : Host) (run : RunId) (exit : Exit) :
    h.Alike (h.leave cfg run exit) ∧
      (h.requested.keys.Nodup → (h.leave cfg run exit).requested.keys.Nodup) := by
  have same : h.Alike h := ⟨rfl, rfl, rfl, rfl⟩
  unfold Host.leave
  cases exit with
  | ownershipLost now =>
    dsimp only
    split_ifs
    · exact ⟨⟨rfl, rfl, rfl, rfl⟩, id⟩
    · split
      · exact ⟨⟨rfl, rfl, rfl, rfl⟩, id⟩
      · split_ifs
        · exact ⟨⟨rfl, rfl, rfl, rfl⟩, fun hq => Dict.nodup_insert hq _ _⟩
        · exact ⟨⟨rfl, rfl, rfl, rfl⟩, id⟩
  | failed => exact ⟨⟨rfl, rfl, rfl, rfl⟩, id⟩
  | returned => exact ⟨same, id⟩
  | superseded => exact ⟨same, id⟩
  | cancelled => exact ⟨same, id⟩
  | died => exact ⟨same, id⟩

theorem Host.Tracked.ends (ht : h.Tracked cfg) (task : ℕ) (exit : Exit) :
    (h.ends cfg task exit).Tracked cfg := by
  unfold Host.ends
  cases hw : h.worker task with
  | none => exact ht
  | some worker =>
    have mem : worker ∈ h.live := List.mem_of_find?_eq_some hw
    have named : worker.task = task := by simpa using List.find?_some hw
    obtain ⟨alike, queued⟩ := h.leave_alike cfg worker.run exit
    have left := ht.alike alike (queued ht.queued)
    have below : worker.task < (h.leave cfg worker.run exit).nextTask := by
      rw [alike.nextTask]
      exact ht.numbered worker mem
    dsimp only
    generalize h.leave cfg worker.run exit = h' at left below ⊢
    have less : ∀ x ∈ h'.live.filter (fun x => x.task ≠ task), x ∈ h'.live :=
      fun x hx => List.mem_of_mem_filter hx
    refine ⟨?_, ?_, left.assigned, ?_, ?_, left.keys, left.queued, left.bounded⟩
    · exact fun x hx => left.recorded x (less x hx)
    · exact fun x hx => left.numbered x (less x hx)
    · exact left.distinct.sublist (List.filter_sublist.map _)
    · intro e he
      rcases List.mem_append.mp he with old | new
      · obtain ⟨numbered, gone⟩ := left.retired e old
        refine ⟨numbered, ?_⟩
        rintro ⟨x, hx, same⟩
        exact gone ⟨x, less x hx, same⟩
      · rw [List.mem_singleton.mp new]
        refine ⟨below, ?_⟩
        rintro ⟨x, hx, same⟩
        rw [named] at same
        simp [same] at hx

theorem Host.Tracked.finished (ht : h.Tracked cfg) {entry : Worker × Exit} (he : entry ∈ h.ended) :
    (h.finished entry).Tracked cfg := by
  obtain ⟨below, gone⟩ := ht.retired entry he
  have less : ∀ e ∈ h.ended.erase entry, e ∈ h.ended := fun e => List.mem_of_mem_erase
  have dropped : Host.Tracked cfg { h with ended := h.ended.erase entry } :=
    ⟨ht.recorded, ht.numbered, ht.assigned, ht.distinct, fun e he => ht.retired e (less e he),
      ht.keys, ht.queued, ht.bounded⟩
  have erased : Host.Tracked cfg (if h.tasks.get? entry.1.run = some entry.1.task then
      { h with
        ended := h.ended.erase entry
        tasks := h.tasks.erase entry.1.run
        explicitTasks := h.explicitTasks.erase entry.1.run }
      else { h with ended := h.ended.erase entry }) := by
    split_ifs with own
    · refine ⟨?_, ht.numbered, ?_, ht.distinct, dropped.retired, Dict.nodup_erase ht.keys _,
        ht.queued, (Dict.length_erase_le _ _).trans ht.bounded⟩
      · intro x hx
        have recorded := ht.recorded x hx
        have ne : entry.1.run ≠ x.run := by
          intro same
          rw [same, recorded] at own
          exact gone ⟨x, hx, Option.some.inj own⟩
        change (h.tasks.erase entry.1.run).get? x.run = _
        rw [Dict.get?_erase_ne _ ne]
        exact recorded
      · intro run task found
        change (h.tasks.erase entry.1.run).get? run = _ at found
        rw [Dict.get?_erase] at found
        split_ifs at found
        exact ht.assigned run task found
    · exact dropped
  unfold Host.finished
  dsimp only
  split_ifs at erased ⊢
  all_goals first
    | exact erased
    | exact erased.alike ⟨rfl, rfl, rfl, rfl⟩ erased.queued

theorem Host.Tracked.shutdown_live (ht : h.Tracked cfg) : h.shutdown.live = [] := by
  change h.live.filter (fun x => h.tasks.get? x.run ≠ some x.task) = []
  rw [List.filter_eq_nil_iff]
  intro x hx
  simp [ht.recorded x hx]

theorem Host.Tracked.shutdown (ht : h.Tracked cfg) : h.shutdown.Tracked cfg := by
  have none := ht.shutdown_live
  refine ⟨?_, ?_, ?_, ?_, ?_, List.nodup_nil, List.nodup_nil, Nat.zero_le _⟩
  · rw [none]
    simp
  · rw [none]
    simp
  · intro run task found
    simp [Host.shutdown, Host.empty] at found
  · rw [none]
    exact List.nodup_nil
  · intro e he
    refine ⟨(ht.retired e he).1, ?_⟩
    unfold Host.Live
    rw [none]
    simp

theorem Host.Tracked.step (ht : h.Tracked cfg) (event : HostEvent) (clear : event.Clear h) :
    (h.step cfg event).Tracked cfg := by
  cases event with
  | launch run intent =>
    obtain ⟨alike, queued⟩ := h.launched_alike run intent
    exact ht.alike alike (queued ht.queued)
  | resumes found => exact ht.launches (fun x => x.1) resumeIntent found
  | waits found => exact ht.launches (fun x => x.1) waitIntent found
  | fill sight =>
    change Host.Tracked cfg (if h.closed then h else h.fillCapacity cfg sight)
    split_ifs
    · exact ht
    · exact ht.fillCapacity clear
  | ends task exit => exact ht.ends task exit
  | finished entry =>
    change Host.Tracked cfg (if entry ∈ h.ended then h.finished entry else h)
    split_ifs with mem
    · exact ht.finished mem
    · exact ht
  | shutdown => exact ht.shutdown

theorem Host.Tracked.live_le (ht : h.Tracked cfg) : h.live.length ≤ cfg.maxConcurrency := by
  have nodup : (h.live.map (fun x => (x.run, x.task))).Nodup := by
    apply List.Nodup.of_map Prod.snd
    rw [List.map_map]
    exact ht.distinct
  have subset : h.live.map (fun x => (x.run, x.task)) ⊆ h.tasks.entries := by
    intro e he
    obtain ⟨x, hx, rfl⟩ := List.mem_map.mp he
    exact Dict.mem_of_get? (ht.recorded x hx)
  have length := (nodup.subperm subset).length_le
  rw [List.length_map] at length
  exact length.trans ht.bounded

end Tracked

/-- In every history whose fills start nothing over a live worker, the table has every
worker and shutdown leaves none. -/
theorem workers_recorded (cfg : HostConfig) {h : Host}
    (history : Guarded (fun h event => event.Clear h) (fun h event => h.step cfg event) Host.empty h) :
    (∀ x ∈ h.live, h.tasks.get? x.run = some x.task) ∧
      h.live.length ≤ cfg.maxConcurrency ∧ h.shutdown.live = [] := by
  have ht : h.Tracked cfg :=
    history.invariant (I := Host.Tracked cfg) (fun _ event clear ht => ht.step event clear)
      (Host.tracked_empty cfg)
  exact ⟨ht.recorded, ht.live_le, ht.shutdown_live⟩

section Overwritten

def pairHost : HostConfig := ⟨2, 1, 0, fun _ => "", by decide⟩

def failedSight : Sight where
  now := 0
  record := fun run => some ⟨run, .failed, none, none⟩
  named := by simp
  maxEventSeq := fun _ => 5
  through := none
  tables := []

def lapsedSight : Sight where
  now := 20
  record := fun run => some ⟨run, .running, some "host", some 10⟩
  named := by simp
  maxEventSeq := fun _ => 9
  through := none
  tables := []

def anyAttempt : LaunchIntent := ⟨none, resumableRunStatuses, none⟩

def fifthAttempt : LaunchIntent := ⟨some 5, resumableRunStatuses, none⟩

def restarts : List HostEvent :=
  [.launch "r" anyAttempt, .fill failedSight, .ends 0 .returned,
    .finished (⟨0, "r", anyAttempt⟩, .returned), .launch "r" fifthAttempt, .fill failedSight]

/-- The lease of a live worker lapses while a newer intent for its run is queued. -/
def overwrites : List HostEvent :=
  [.launch "r" anyAttempt, .fill failedSight, .launch "r" ⟨some 9, resumableRunStatuses, none⟩,
    .fill lapsedSight, .launch "q" anyAttempt, .fill lapsedSight]

theorem HostEvent.clear_of_idle {h : Host} (idle : h.live = []) (event : HostEvent) :
    event.Clear h := by
  cases event with
  | fill sight =>
    intro run intent task _ _ _
    unfold Host.Live
    rw [idle]
    simp
  | _ => trivial

/-- A run started again after its worker ended is recorded under its new task. -/
theorem restarted_recorded :
    ((restarts.foldl (fun h event => h.step pairHost event) Host.empty).tasks.get? "r" = some 1) ∧
      (∀ x ∈ (restarts.foldl (fun h event => h.step pairHost event) Host.empty).live,
        (restarts.foldl (fun h event => h.step pairHost event) Host.empty).tasks.get? x.run =
          some x.task) := by
  have queued : Guarded (fun h event => event.Clear h) (fun h event => h.step pairHost event)
      Host.empty (Host.empty.step pairHost (.launch "r" anyAttempt)) := .call _ .refl trivial
  have started := queued.call (HostEvent.fill failedSight) (HostEvent.clear_of_idle (by decide) _)
  have ended := started.call (HostEvent.ends 0 .returned) trivial
  have retired := ended.call (HostEvent.finished (⟨0, "r", anyAttempt⟩, .returned)) trivial
  have again := retired.call (HostEvent.launch "r" fifthAttempt) trivial
  have restarted := again.call (HostEvent.fill failedSight) (HostEvent.clear_of_idle (by decide) _)
  exact ⟨by decide, (workers_recorded pairHost restarted).1⟩

/-- A host of two workers comes to have three, one of them recorded nowhere, and its
shutdown leaves that one running. -/
theorem worker_overwritten :
    ∃ events : List HostEvent,
      (∃ x ∈ (events.foldl (fun h event => h.step pairHost event) Host.empty).live,
        (events.foldl (fun h event => h.step pairHost event) Host.empty).tasks.get? x.run ≠
          some x.task) ∧
      pairHost.maxConcurrency <
        (events.foldl (fun h event => h.step pairHost event) Host.empty).live.length ∧
      (events.foldl (fun h event => h.step pairHost event) Host.empty).shutdown.live ≠ [] :=
  ⟨overwrites, by decide, by decide, by decide⟩

end Overwritten

end Constructicon
