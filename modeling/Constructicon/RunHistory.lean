import Constructicon.RunFencing

/-!
# The history of a run

In every journal the program reaches, the events of a run are numbered from one
without gap or repetition, its status is what the last of them says, success and
cancellation are final, and a run that is not running holds no active acquisition.
-/

namespace Constructicon

open Transaction

def statusAtFence (kind : Option String) : RunStatus :=
  match kind with
  | none => .pending
  | some k => (terminalEventStatuses.get? k).getD .running

/-- `resume_status_at_fence`: the status an attempt may start from. -/
def resumeStatusAtFence (fence : ℕ) (kind : Option String) : Except StoreError RunStatus :=
  if fence = 0 then do
    require (kind = none) .valueError
    pure .pending
  else do
    let k ← expect kind .valueError
    match terminalEventStatuses.get? k with
    | none => pure .running
    | some status =>
      require (status = .failed ∨ status = .parked) .valueError
      pure status

def Journal.fenceOf (s : Journal) (run : RunId) : ℕ :=
  ((s.runs.get? run).map RunRow.nextEventSeq).getD 0

def Journal.lastKind (s : Journal) (run : RunId) : Option String :=
  (s.eventsOf run).getLast?.map EventRow.kind

structure Journal.Coherent (s : Journal) : Prop where
  seqs : ∀ run, (s.eventsOf run).map EventRow.seq = List.range' 1 (s.fenceOf run)
  status : ∀ run row, s.runs.get? run = some row → row.status = statusAtFence (s.lastKind run)
  idle : ∀ entry ∈ s.leases.entries, entry.2.lease.state = .active →
    ∃ row, s.runs.get? entry.2.lease.runId = some row ∧ row.status = .running

section Steps

variable {w : Wire} {b : Beside} {now : Instant} {s s' : Journal} {call : JournalCall}
  {run : RunId} {row row' : RunRow}

theorem Journal.coherent_empty : Journal.empty.Coherent where
  seqs := fun run => rfl
  status := fun run row hr => by simp [Journal.empty] at hr
  idle := fun entry he => by simp [Journal.empty] at he

theorem fenceOf_of_found (found : s.runs.get? run = some row) :
    s.fenceOf run = row.nextEventSeq := by
  simp [Journal.fenceOf, found]

theorem Journal.Coherent.extend {new : List EventRow} (hs : s.Coherent)
    (found : (s.runs.get? run).map RunRow.nextEventSeq = some row.nextEventSeq ∨
      s.runs.get? run = none ∧ row.nextEventSeq = 0)
    (runs : s'.runs = s.runs.insert run row') (events : s'.events = s.events ++ new)
    (mine : ∀ e ∈ new, e.runId = run)
    (numbered : new.map EventRow.seq = List.range' (row.nextEventSeq + 1) new.length)
    (fence : row'.nextEventSeq = row.nextEventSeq + new.length)
    (status : row'.status = statusAtFence (s'.lastKind run))
    (idle : ∀ entry ∈ s'.leases.entries, entry.2.lease.state = .active →
      ∃ row, s'.runs.get? entry.2.lease.runId = some row ∧ row.status = .running) :
    s'.Coherent := by
  have before : s.fenceOf run = row.nextEventSeq := by
    rcases found with found | ⟨absent, zero⟩
    · simp [Journal.fenceOf, found]
    · simp [Journal.fenceOf, absent, zero]
  have other : ∀ run', run ≠ run' → s'.eventsOf run' = s.eventsOf run' := by
    intro run' hne
    have none : new.filter (fun e => e.runId = run') = [] := by
      rw [List.filter_eq_nil_iff]
      intro e he heq
      exact hne ((mine e he).symm.trans (by simpa using heq))
    rw [Journal.eventsOf, events, List.filter_append, none, List.append_nil]
    rfl
  have own : s'.eventsOf run = s.eventsOf run ++ new := by
    have all : new.filter (fun e => e.runId = run) = new := by
      rw [List.filter_eq_self]
      exact fun e he => by simp [mine e he]
    rw [Journal.eventsOf, events, List.filter_append, all]
    rfl
  refine ⟨fun run' => ?_, fun run' row₀ hr => ?_, idle⟩
  · by_cases heq : run = run'
    · subst heq
      have after : s'.fenceOf run = row.nextEventSeq + new.length := by
        simp [Journal.fenceOf, runs, fence]
      rw [own, List.map_append, hs.seqs run, numbered, after, before, Nat.add_comm _ 1,
        List.range'_append_1]
    · have same : s'.fenceOf run' = s.fenceOf run' := by
        simp [Journal.fenceOf, runs, Dict.get?_insert_ne _ _ heq]
      rw [other run' heq, hs.seqs run', same]
  · by_cases heq : run = run'
    · subst heq
      have hrow : row' = row₀ := by simpa [runs] using hr
      rw [← hrow, status]
    · have hr' : s.runs.get? run' = some row₀ := by
        rwa [runs, Dict.get?_insert_ne _ _ heq] at hr
      rw [hs.status run' row₀ hr', Journal.lastKind, Journal.lastKind, other run' heq]

theorem lastKind_of_append {new : List EventRow} {e : EventRow}
    (events : s'.events = s.events ++ (new ++ [e])) (mine : e.runId = run) :
    s'.lastKind run = some e.kind := by
  have last : s'.eventsOf run = s.eventsOf run ++ new.filter (fun e => e.runId = run) ++ [e] := by
    simp [Journal.eventsOf, events, mine]
  rw [Journal.lastKind, last, List.getLast?_concat]
  rfl

theorem Journal.Coherent.touch (hs : s.Coherent) (found : s.runs.get? run = some row)
    (fence : row'.nextEventSeq = row.nextEventSeq) (status : row'.status = row.status) :
    (s.setRun run row').Coherent := by
  refine hs.extend (.inl (by rw [found]; rfl)) rfl (List.append_nil _).symm ?_ rfl fence ?_ ?_
  · exact fun e he => by simp at he
  · rw [status, hs.status run row found]
    rfl
  · intro entry he active
    obtain ⟨r, hr, running⟩ := hs.idle entry he active
    by_cases heq : run = entry.2.lease.runId
    · subst heq
      cases found.symm.trans hr
      exact ⟨row', by simp [Journal.setRun], status.trans running⟩
    · exact ⟨r, by simpa [Journal.setRun, Dict.get?_insert_ne _ _ heq] using hr, running⟩

theorem Journal.Coherent.idle_of_running (hs : s.Coherent) (runs : s'.runs = s.runs.insert run row')
    (running : row'.status = .running)
    (leases : ∀ entry ∈ s'.leases.entries, entry.2.lease.state = .active →
      entry ∈ s.leases.entries ∨ entry.2.lease.runId = run) :
    ∀ entry ∈ s'.leases.entries, entry.2.lease.state = .active →
      ∃ row, s'.runs.get? entry.2.lease.runId = some row ∧ row.status = .running := by
  intro entry he active
  by_cases heq : run = entry.2.lease.runId
  · subst heq
    exact ⟨row', by simp [runs], running⟩
  · rcases leases entry he active with old | mine
    · obtain ⟨r, hr, hrun⟩ := hs.idle entry old active
      exact ⟨r, by rwa [runs, Dict.get?_insert_ne _ _ heq], hrun⟩
    · exact absurd mine.symm heq

theorem Journal.Coherent.append {e : EventRow} (hs : s.Coherent)
    (found : s.runs.get? run = some row) (runs : s'.runs = s.runs.insert run row')
    (events : s'.events = s.events ++ [e]) (mine : e.runId = run)
    (seq : e.seq = row.nextEventSeq + 1) (fence : row'.nextEventSeq = row.nextEventSeq + 1)
    (status : row'.status = statusAtFence (some e.kind))
    (idle : ∀ entry ∈ s'.leases.entries, entry.2.lease.state = .active →
      ∃ row, s'.runs.get? entry.2.lease.runId = some row ∧ row.status = .running) :
    s'.Coherent := by
  refine hs.extend (.inl (by rw [found]; rfl)) runs events ?_ ?_ fence ?_ idle
  · exact fun e' he' => by simpa [List.mem_singleton.mp he'] using mine
  · simp [seq]
  · have last : s'.events = s.events ++ ([] ++ [e]) := by simpa using events
    rw [status, lastKind_of_append last mine]

theorem Journal.Coherent.note {e : EventRow} (hs : s.Coherent)
    (found : s.runs.get? run = some row) (running : row.status = .running)
    (runs : s'.runs = s.runs.insert run row.allocated) (events : s'.events = s.events ++ [e])
    (mine : e.runId = run) (seq : e.seq = row.nextEventSeq + 1)
    (kind : terminalEventStatuses.get? e.kind = none)
    (leases : ∀ entry ∈ s'.leases.entries, entry.2.lease.state = .active →
      entry ∈ s.leases.entries ∨ entry.2.lease.runId = run) : s'.Coherent := by
  refine hs.append found runs events mine seq rfl ?_ (hs.idle_of_running runs running leases)
  simp [statusAtFence, kind, RunRow.allocated, running]

theorem Turn.status_of_kind (t : Turn) : statusAtFence (some t.kind) = t.target := by
  cases t <;> rfl

theorem Notice.kind_not_terminal (n : Notice) : terminalEventStatuses.get? n.kind = none := by
  cases n with
  | blocked loop => cases loop <;> rfl
  | unitParked loop => cases loop <;> rfl
  | loopIteration restored => cases restored <;> rfl
  | loopEnded restored => cases restored <;> rfl
  | policyExhausted reobserved => cases reobserved <;> rfl
  | _ => rfl

theorem effectEventKind_not_terminal {status : ReceiptStatus} {kind : String}
    (allowed : kind = effectEventKind status ∨ kind = "EffectReconciled") :
    terminalEventStatuses.get? kind = none := by
  rcases allowed with rfl | rfl
  · cases status <;> rfl
  · rfl

theorem Journal.Coherent.turn {e : EventRow} {t : Turn} (hs : s.Coherent)
    (found : s.runs.get? run = some row) (expected : row.status ∈ t.expected)
    (idle : (terminalStatusEvents t.target).isSome → ∀ entry ∈ s.leases.entries,
      entry.2.lease.runId = run → entry.2.lease.state ≠ .active)
    (runs : s'.runs = s.runs.insert run { row.allocated with status := t.target })
    (leases : s'.leases = s.leases) (events : s'.events = s.events ++ [e]) (mine : e.runId = run)
    (seq : e.seq = row.nextEventSeq + 1) (kind : e.kind = t.kind) : s'.Coherent := by
  refine hs.append found runs events mine seq rfl ?_ ?_
  · rw [kind, t.status_of_kind]
  · by_cases running : t.target = .running
    · refine hs.idle_of_running runs running fun entry he active => .inl ?_
      rwa [leases] at he
    · intro entry he active
      rw [leases] at he
      have terminal : (terminalStatusEvents t.target).isSome := by
        cases t <;> first | rfl | exact absurd rfl running
      have hne : run ≠ entry.2.lease.runId := fun heq => idle terminal entry he heq.symm active
      obtain ⟨r, hr, hrun⟩ := hs.idle entry he active
      exact ⟨r, by rwa [runs, Dict.get?_insert_ne _ _ hne], hrun⟩

theorem dispose_events {entries : List ((String × ℕ) × ℕ)}
    (h : entries.foldlM (disposeOne w b now run) s = .ok s') :
    ∃ new : List EventRow, s'.events = s.events ++ new ∧ (∀ e ∈ new, e.runId = run) ∧
      new.map EventRow.seq = entries.map Prod.snd := by
  induction entries generalizing s with
  | nil =>
    cases h
    exact ⟨[], by simp, by simp, rfl⟩
  | cons entry entries ih =>
    rw [List.foldlM_cons, bind_eq_ok] at h
    obtain ⟨s₁, hs₁, h⟩ := h
    obtain ⟨new, events, mine, seqs⟩ := ih h
    obtain ⟨held, -, -, -, -, inserted⟩ := disposeOne_ok hs₁
    refine ⟨lostEvent w now run entry.1 entry.2 :: new, ?_, ?_, by simp [seqs, lostEvent]⟩
    · rw [events, inserted.events]
      simp
    intro e he
    rcases List.mem_cons.mp he with rfl | he
    · rfl
    · exact mine e he

theorem dispose_active {entries : List ((String × ℕ) × ℕ)}
    (h : entries.foldlM (disposeOne w b now run) s = .ok s') :
    ∀ entry ∈ s'.leases.entries, entry.2.lease.state = .active → entry ∈ s.leases.entries := by
  let Kept := fun s₁ : Journal =>
    ∀ entry ∈ s₁.leases.entries, entry.2.lease.state = .active → entry ∈ s.leases.entries
  refine foldlM_keeps (P := Kept) ?_ h (fun entry he _ => he)
  intro s₁ key s₂ kept hs₂ entry he active
  obtain ⟨held, -, -, -, -, inserted⟩ := disposeOne_ok hs₂
  rw [inserted.leases] at he
  rcases Dict.mem_insert he with rfl | old
  · simp [LeaseRow.moved] at active
  · exact kept entry old active

theorem Journal.Coherent.dispose {plan : CapabilityDisposalPlan} {commandId : String}
    {s₁ : Journal} (hs : s.Coherent) (found : s.runs.get? plan.runId = some row)
    (running : row.status = .running) (fence : row.nextEventSeq = plan.baselineEventSeq)
    (lost : ((plan.pairs.map CapabilityAcquisitionPair.key).zip
        (plan.receipt commandId).transitionEventSeqs).foldlM (disposeOne w b now plan.runId)
      (s.setRun plan.runId { row with nextEventSeq := (plan.receipt commandId).auditEventSeq }) =
        .ok s₁)
    (inserted : Inserted w b s₁ ⟨plan.runId, (plan.receipt commandId).auditEventSeq,
      disposalEvent, none, some (plan.receipt commandId).dump, now⟩ s') : s'.Coherent := by
  have runs := inserted.runs.trans (dispose_runs lost)
  obtain ⟨new, events, mine, seqs⟩ := dispose_events lost
  have numbered : new.map EventRow.seq = List.range' (row.nextEventSeq + 1) plan.pairs.length := by
    rw [seqs, List.map_snd_zip (by simp [CapabilityDisposalPlan.receipt]), List.range'_eq_map_range,
      fence]
    rfl
  have length : new.length = plan.pairs.length := by
    simpa using congrArg List.length numbered
  have all : s'.events = s.events ++ (new ++ [⟨plan.runId, (plan.receipt commandId).auditEventSeq,
      disposalEvent, none, some (plan.receipt commandId).dump, now⟩]) := by
    rw [inserted.events, events, List.append_assoc]
    rfl
  refine hs.extend (.inl (by rw [found]; rfl)) runs all ?_ ?_ ?_ ?_ ?_
  · intro e he
    rcases List.mem_append.mp he with he | he
    · exact mine e he
    · rw [List.mem_singleton.mp he]
  · rw [List.map_append, numbered, List.length_append, length]
    simp [List.range'_concat, CapabilityDisposalPlan.receipt, fence]
    omega
  · simp [CapabilityDisposalPlan.receipt, fence, length, Nat.add_assoc]
  · rw [lastKind_of_append all rfl]
    exact running
  · refine hs.idle_of_running runs running fun entry he active => .inl ?_
    rw [inserted.leases] at he
    exact dispose_active lost entry he active

theorem Journal.Change.coherent (hc : s.Change w b now call s') (made : call.Made)
    (hs : s.Coherent) : s'.Coherent := by
  cases hc with
  | none => exact hs
  | create run manifestHash absent =>
    refine @Journal.Coherent.extend s _ run (freshRun manifestHash) _ _ hs (.inr ⟨absent, rfl⟩)
      rfl (List.append_nil _).symm ?_ rfl rfl ?_ ?_
    · exact fun e he => by simp at he
    · have empty := hs.seqs run
      rw [Journal.fenceOf, absent] at empty
      have none : s.eventsOf run = [] := by simpa using empty
      change RunStatus.pending = statusAtFence (s.lastKind run)
      rw [Journal.lastKind, none]
      rfl
    · intro entry he active
      obtain ⟨r, hr, running⟩ := hs.idle entry he active
      have hne : run ≠ entry.2.lease.runId := by
        rintro rfl
        rw [absent] at hr
        cases hr
      exact ⟨r, by rwa [Journal.setRun, Dict.get?_insert_ne _ _ hne], running⟩
  | claim run ownerId ttl seq statuses row found => exact hs.touch found rfl rfl
  | heartbeat lease ttl row found => exact hs.touch found rfl rfl
  | release lease row found => exact hs.touch found rfl rfl
  | cancel run lease row found => exact hs.touch found rfl rfl
  | transition lease expected target kind payload row s' found status held idle inserted =>
    cases made with
    | turn _ t =>
      exact hs.turn found status idle inserted.runs inserted.leases inserted.events rfl rfl rfl
  | append lease kind path payload row s' found running held inserted =>
    cases made with
    | notice _ n =>
      refine hs.note found running inserted.runs inserted.events rfl rfl n.kind_not_terminal ?_
      exact fun entry he _ => .inl (by rwa [inserted.leases] at he)
  | complete lease checkpoint row seals s' mine absent found running held sealed inserted =>
    refine hs.note found running inserted.runs inserted.events mine rfl rfl ?_
    exact fun entry he _ => .inl (by rwa [inserted.leases] at he)
  | prepare lease request => exact ⟨hs.seqs, hs.status, hs.idle⟩
  | outcome lease request receipt kind row key effect s' mine allowed prepared read same open'
      found running held inserted =>
    refine hs.note found running inserted.runs inserted.events rfl rfl
      (effectEventKind_not_terminal allowed) ?_
    exact fun entry he _ => .inl (by rwa [inserted.leases] at he)
  | acquire lease capability row s' mine absent found running held inserted =>
    refine hs.note found running inserted.runs inserted.events rfl rfl rfl ?_
    intro entry he active
    rw [inserted.leases] at he
    rcases Dict.mem_insert he with rfl | old
    · exact .inr mine.1
    · exact .inl old
  | move lease key expected target disposition acquired row s' stored named mine status found
      running held inserted =>
    refine hs.note found running inserted.runs inserted.events rfl rfl rfl ?_
    intro entry he active
    rw [inserted.leases] at he
    rcases Dict.mem_insert he with rfl | old
    · exact .inr mine
    · exact .inl old
  | meter lease key phase acquired row s' stored found running held inserted =>
    refine hs.note found running inserted.runs inserted.events rfl rfl rfl ?_
    exact fun entry he _ => .inl (by rwa [inserted.leases] at he)
  | dispose commandId plan row s₁ s' found running idle fence nodup lost inserted =>
    exact hs.dispose found running fence lost inserted

theorem Journal.Reachable.coherent (h : s.Reachable w) : s.Coherent :=
  Reaches.invariant (fun s c hs => (s.step_change w c.beside c.now c.call).coherent c.made hs) h
    Journal.coherent_empty

def RunStatus.Final (status : RunStatus) : Prop := status = .succeeded ∨ status = .cancelled

def Journal.KeepsFinal (s s' : Journal) : Prop :=
  ∀ run row, s.runs.get? run = some row → row.status.Final →
    ∃ row', s'.runs.get? run = some row' ∧ row'.status = row.status

theorem Journal.KeepsFinal.refl (s : Journal) : s.KeepsFinal s := fun _ row hr _ => ⟨row, hr, rfl⟩

theorem Journal.KeepsFinal.trans {s'' : Journal} (h : s.KeepsFinal s') (h' : s'.KeepsFinal s'') :
    s.KeepsFinal s'' := by
  intro run row hr final
  obtain ⟨row', hr', same⟩ := h run row hr final
  obtain ⟨row'', hr'', same'⟩ := h' run row' hr' (by rwa [same])
  exact ⟨row'', hr'', same'.trans same⟩

theorem Journal.KeepsFinal.of_insert (runs : s'.runs = s.runs.insert run row')
    (same : ∀ row, s.runs.get? run = some row → row.status.Final → row'.status = row.status) :
    s.KeepsFinal s' := by
  intro run' row hr final
  rw [runs]
  by_cases heq : run = run'
  · subst heq
    exact ⟨row', by simp, same row hr final⟩
  · exact ⟨row, by rwa [Dict.get?_insert_ne _ _ heq], rfl⟩

theorem Journal.KeepsFinal.of_found (runs : s'.runs = s.runs.insert run row')
    (found : s.runs.get? run = some row) (same : row'.status = row.status) : s.KeepsFinal s' := by
  apply Journal.KeepsFinal.of_insert runs
  intro row₀ hr _
  cases found.symm.trans hr
  exact same

theorem Turn.expected_open (t : Turn) {status : RunStatus} (h : status ∈ t.expected) :
    ¬status.Final := by
  cases t with
  | resumed cause =>
    rcases List.mem_pair.mp h with rfl | rfl <;> simp [RunStatus.Final]
  | _ =>
    rw [List.mem_singleton.mp h]
    simp [RunStatus.Final]

theorem Journal.Change.keepsFinal (hc : s.Change w b now call s') (made : call.Made) :
    s.KeepsFinal s' := by
  cases hc with
  | none => exact .refl s
  | create run manifestHash absent => exact .of_insert rfl fun row hr => by simp [absent] at hr
  | claim run ownerId ttl seq statuses row found => exact .of_found rfl found rfl
  | heartbeat lease ttl row found => exact .of_found rfl found rfl
  | release lease row found => exact .of_found rfl found rfl
  | cancel run lease row found => exact .of_found rfl found rfl
  | transition lease expected target kind payload row s' found status held idle inserted =>
    cases made with
    | turn _ t =>
      apply Journal.KeepsFinal.of_insert inserted.runs
      intro row₀ hr final
      cases found.symm.trans hr
      exact absurd final (t.expected_open status)
  | append lease kind path payload row s' found running held inserted =>
    exact .of_found inserted.runs found rfl
  | complete lease checkpoint row seals s' mine absent found running held sealed inserted =>
    exact .of_found inserted.runs found rfl
  | prepare => exact .refl s
  | outcome lease request receipt kind row key effect s' mine allowed prepared read same open'
      found running held inserted =>
    exact .of_found inserted.runs found rfl
  | acquire lease capability row s' mine absent found running held inserted =>
    exact .of_found inserted.runs found rfl
  | move lease key expected target disposition acquired row s' stored named mine status found
      running held inserted =>
    exact .of_found inserted.runs found rfl
  | meter lease key phase acquired row s' stored found running held inserted =>
    exact .of_found inserted.runs found rfl
  | dispose commandId plan row s₁ s' found running idle fence nodup lost inserted =>
    exact .of_found (inserted.runs.trans (dispose_runs lost)) found rfl

theorem Journal.keepsFinal_of_reaches
    (h : Reaches (fun s (c : MadeCall) => s.step w c.beside c.now c.call) s s') :
    s.KeepsFinal s' :=
  Reaches.relates (I := fun _ => True) Journal.KeepsFinal.refl Journal.KeepsFinal.trans
    (fun _ _ _ => trivial)
    (fun s c _ => (s.step_change w c.beside c.now c.call).keepsFinal c.made) h trivial

theorem Journal.Coherent.resumeStatus (hs : s.Coherent) (found : s.runs.get? run = some row) :
    resumeStatusAtFence row.nextEventSeq (s.lastKind run) =
      if row.status = .succeeded ∨ row.status = .cancelled then .error .valueError
      else .ok row.status := by
  have status := hs.status run row found
  have seqs := hs.seqs run
  rw [fenceOf_of_found found] at seqs
  have length : (s.eventsOf run).length = row.nextEventSeq := by
    simpa using congrArg List.length seqs
  by_cases zero : row.nextEventSeq = 0
  · have none : s.lastKind run = none := by
      have empty : s.eventsOf run = [] := List.length_eq_zero_iff.mp (length.trans zero)
      rw [Journal.lastKind, empty]
      rfl
    rw [none] at status
    simp [resumeStatusAtFence, zero, none, status, statusAtFence]
    rfl
  · have some' : ∃ k, s.lastKind run = some k := by
      have nonempty : s.eventsOf run ≠ [] := by
        intro empty
        rw [empty] at length
        exact zero length.symm
      exact ⟨_, by rw [Journal.lastKind, List.getLast?_eq_some_getLast nonempty]; rfl⟩
    obtain ⟨k, last⟩ := some'
    rw [last, statusAtFence] at status
    cases terminal : terminalEventStatuses.get? k with
    | none =>
      simp [resumeStatusAtFence, zero, last, terminal, status]
      rfl
    | some st =>
      rw [terminal] at status
      simp only [Option.getD_some] at status
      simp only [resumeStatusAtFence, if_neg zero, last, expect_some, ok_bind, terminal, status]
      have known : st ∈ terminalEventStatuses.values :=
        Dict.mem_values.mpr ⟨k, Dict.mem_of_get? terminal⟩
      cases st <;> first | rfl | simp [terminalEventStatuses, Dict.values] at known

theorem statusAtFence_pending (kind : Option String) :
    statusAtFence kind = .pending ↔ kind = none := by
  cases kind with
  | none => simp [statusAtFence]
  | some k =>
    simp only [statusAtFence, terminalEventStatuses, Dict.get?, Dict.find]
    split_ifs <;> simp

theorem statusAtFence_terminal (kind : Option String) {status : RunStatus} {k : String}
    (h : terminalStatusEvents status = some k) : statusAtFence kind = status ↔ kind = some k := by
  cases kind with
  | none => cases status <;> simp_all [statusAtFence, terminalStatusEvents]
  | some k' =>
    simp only [statusAtFence, terminalEventStatuses, Dict.get?, Dict.find]
    cases status <;> simp only [terminalStatusEvents, Option.some.injEq, reduceCtorEq] at h <;>
      subst h <;> split_ifs with h₁ h₂ h₃ h₄ <;> simp_all [eq_comm]

/-- The history of every run, in every journal the program reaches. -/
theorem run_history (w : Wire) (s : Journal) (h : s.Reachable w) :
    (∀ run, (s.eventsOf run).map EventRow.seq = List.range' 1 (s.fenceOf run)) ∧
    (∀ run row, s.runs.get? run = some row →
      row.status = statusAtFence (s.lastKind run) ∧
      (row.status = .pending ↔ s.lastKind run = none) ∧
      (∀ status kind, terminalStatusEvents status = some kind →
        (row.status = status ↔ s.lastKind run = some kind)) ∧
      resumeStatusAtFence row.nextEventSeq (s.lastKind run) =
        if row.status = .succeeded ∨ row.status = .cancelled then .error .valueError
        else .ok row.status) ∧
    (∀ s', Reaches (fun s (c : MadeCall) => s.step w c.beside c.now c.call) s s' →
      ∀ run row, s.runs.get? run = some row →
        row.status = .succeeded ∨ row.status = .cancelled →
        ∃ row', s'.runs.get? run = some row' ∧ row'.status = row.status) ∧
    (∀ run row, s.runs.get? run = some row → row.status ≠ .running →
      ∀ entry ∈ s.leases.entries, entry.2.lease.runId = run → entry.2.lease.state ≠ .active) := by
  have hs := h.coherent
  refine ⟨hs.seqs, ?_, ?_, ?_⟩
  · intro run row found
    have status := hs.status run row found
    refine ⟨status, ?_, ?_, hs.resumeStatus found⟩
    · rw [status, statusAtFence_pending]
    · intro target kind terminal
      rw [status, statusAtFence_terminal _ terminal]
  · intro s' later run row found final
    exact Journal.keepsFinal_of_reaches later run row found final
  · intro run row found idle entry he mine active
    obtain ⟨r, hr, running⟩ := hs.idle entry he active
    rw [mine] at hr
    cases found.symm.trans hr
    exact idle running

end Steps

section Example

def finishing : List MadeCall :=
  [⟨calm, 0, _, .create "r" "m"⟩, ⟨calm, 0, _, .claim "r" "a" 10 none none⟩,
    ⟨calm, 1, _, .turn firstLease (.started .null none)⟩,
    ⟨calm, 2, _, .complete firstLease firstCompletion⟩,
    ⟨calm, 3, _, .turn firstLease (.succeeded .null)⟩]

def finished : Journal :=
  finishing.foldl (fun s c => s.step plainWire c.beside c.now c.call) .empty

theorem finished_history :
    (finished.eventsOf "r").map EventRow.kind = ["RunStarted", "NodeCompleted", "RunSucceeded"] ∧
      (finished.eventsOf "r").map EventRow.seq = List.range' 1 (finished.fenceOf "r") :=
  ⟨by decide, (run_history plainWire finished ⟨finishing, rfl⟩).1 "r"⟩

end Example

end Constructicon
