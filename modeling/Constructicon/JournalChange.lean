import Constructicon.JournalWriters

/-!
# What a journal call can do

One lemma for each writer says everything it may leave behind; a call that refuses
or repeats a durable fact leaves the journal as it was. The fence, the run history
and the readers' acceptance are all read off this.
-/

namespace Constructicon

open Transaction

section Parts

variable {w : Wire} {b : Beside} {now : Instant} {s s' : Journal} {lease : RunLease}
  {row : RunRow} {e : EventRow}

theorem runMutationRow_ok {run : RunId} (h : runMutationRow w b s run = .ok (some row)) :
    s.runs.get? run = some row := by
  unfold runMutationRow at h
  cases hr : s.runs.get? run with
  | none =>
    simp only [hr, bind_eq_ok] at h
    obtain ⟨-, -, h⟩ := h
    cases h
  | some row' =>
    simp only [hr, bind_eq_ok] at h
    obtain ⟨-, -, h⟩ := h
    cases h
    rfl

theorem allocateSeq_ok {expected : List RunStatus}
    (h : allocateSeq w b s lease expected = .ok row) :
    s.runs.get? lease.runId = some row ∧ row.status ∈ expected ∧ row.HeldBy lease := by
  simp only [allocateSeq, bind_eq_ok, expect_eq_ok, require_eq_ok] at h
  obtain ⟨o, ho, row', rfl, -, status, -, held, h⟩ := h
  cases h
  exact ⟨runMutationRow_ok ho, status, held⟩

theorem fencedRow_ok (h : fencedRow w b s lease = .ok row) :
    s.runs.get? lease.runId = some row ∧ row.HeldBy lease := by
  simp only [fencedRow, bind_eq_ok, expect_eq_ok, require_eq_ok] at h
  obtain ⟨o, ho, row', rfl, -, held, h⟩ := h
  cases h
  exact ⟨runMutationRow_ok ho, held⟩

/-- One event was inserted at a free position and sealed. -/
structure Inserted (w : Wire) (b : Beside) (s : Journal) (e : EventRow) (s' : Journal) : Prop where
  fresh : ∀ e' ∈ s.events, ¬(e'.runId = e.runId ∧ e'.seq = e.seq)
  runs : s'.runs = s.runs
  events : s'.events = s.events ++ [e]
  checkpoints : s'.checkpoints = s.checkpoints
  effects : s'.effects = s.effects
  leases : s'.leases = s.leases
  seals : ∃ seals cause, storeDurableFactSeal w s.seals .event (eventFactKey e.runId e.seq)
      (eventSelector e.runId e.seq) (eventFactHash w e) = .ok seals ∧
    AttemptCause.fromPayload e.payload = .ok cause ∧
    (resumeCause cause = none ∧ s'.seals = seals ∨ ∃ id fact, resumeCause cause = some id ∧
      storeDurableFactSeal w seals .resumeAttempt (.str id) (eventFactKey e.runId e.seq) fact =
        .ok s'.seals)

theorem insertEventFact_ok (h : insertEventFact w b s e = .ok s') : Inserted w b s e s' := by
  simp only [insertEventFact, bind_eq_ok, require_eq_ok] at h
  obtain ⟨-, fresh, seals, hseals, cause, hcause, h⟩ := h
  cases hr : resumeCause cause with
  | none =>
    rw [hr] at h
    cases h
    exact ⟨fresh, rfl, rfl, rfl, rfl, rfl, seals, cause, hseals, hcause, .inl ⟨hr, rfl⟩⟩
  | some id =>
    simp only [hr, bind_eq_ok] at h
    obtain ⟨fact, -, seals', hseals', h⟩ := h
    cases h
    exact ⟨fresh, rfl, rfl, rfl, rfl, rfl, seals, cause, hseals, hcause,
      .inr ⟨id, fact, hr, hseals'⟩⟩

theorem insertEvent_ok (h : insertEvent w b s e = .ok s') :
    e.kind ≠ meteringEvent ∧ Inserted w b s e s' := by
  simp only [insertEvent, bind_eq_ok, require_eq_ok] at h
  obtain ⟨-, kind, s₁, hs₁, -, -, h⟩ := h
  cases h
  exact ⟨kind, insertEventFact_ok hs₁⟩

theorem capabilityLeaseFromRow_ok {run : Option RunId} {key : String × ℕ} {held : LeaseRow}
    {lease : CapabilityLease} (h : capabilityLeaseFromRow w b s run key held = .ok lease) :
    lease = held.lease ∧ (∀ r ∈ run, held.lease.runId = r) ∧ held.lease.key = key := by
  simp only [capabilityLeaseFromRow, bind_eq_ok, require_eq_ok] at h
  obtain ⟨-, -, -, hrun, -, hkey, -, -, -, -, h⟩ := h
  cases h
  exact ⟨rfl, hrun, hkey⟩

theorem capabilityLeaseRow_some {key : String × ℕ} {held : LeaseRow}
    (h : capabilityLeaseRow s key = .ok (some held)) : s.leases.get? key = some held := by
  unfold capabilityLeaseRow at h
  cases hk : s.leases.get? key with
  | none =>
    simp only [hk, bind_eq_ok] at h
    obtain ⟨-, -, h⟩ := h
    cases h
  | some held' =>
    rw [hk] at h
    cases h
    rfl

theorem capabilityLeaseRow_none {key : String × ℕ} (h : capabilityLeaseRow s key = .ok none) :
    s.leases.get? key = none ∧ s.events.filter (fun e => e.OfLease key) = [] := by
  unfold capabilityLeaseRow at h
  cases hk : s.leases.get? key with
  | none =>
    simp only [hk, bind_eq_ok, require_eq_ok] at h
    obtain ⟨-, clear, -⟩ := h
    exact ⟨rfl, clear⟩
  | some held' =>
    rw [hk] at h
    cases h

theorem activeLeases_nil {run : RunId} (h : activeLeases w b s run = .ok []) :
    ∀ entry ∈ s.leases.entries, entry.2.lease.runId = run → entry.2.lease.state ≠ .active := by
  simp only [activeLeases, capabilityLeaseRows, bind_eq_ok] at h
  obtain ⟨rows, ⟨-, -, hrows⟩, leases, hleases, h⟩ := h
  cases hrows
  intro entry hentry hrun active
  obtain ⟨l, hl, hread⟩ := mapM_ok hleases entry
    (List.mem_filter.mpr ⟨hentry, decide_eq_true (Or.inl hrun)⟩)
  have same := (capabilityLeaseFromRow_ok hread).1
  have none : leases.filter (fun l => l.state = .active) = [] := Except.ok.inj h
  rw [List.filter_eq_nil_iff] at none
  exact none l hl (by simpa [same] using active)

end Parts

theorem disposeOne_ok {w : Wire} {b : Beside} {now : Instant} {s s' : Journal} {run : RunId}
    {entry : (String × ℕ) × ℕ} (h : disposeOne w b now run s entry = .ok s') :
    ∃ held, s.leases.get? entry.1 = some held ∧ held.lease.runId = run ∧
      held.lease.state = .active ∧ held.lease.disposition = none ∧
      Inserted w b { s with leases := s.leases.insert entry.1 (held.moved .lost none now) }
        (lostEvent w now run entry.1 entry.2) s' := by
  simp only [disposeOne, bind_eq_ok, expect_eq_ok, require_eq_ok] at h
  obtain ⟨held, found, -, ⟨mine, active, undisposed⟩, h⟩ := h
  exact ⟨held, found, mine, active, undisposed, insertEventFact_ok h⟩

theorem dispose_runs {w : Wire} {b : Beside} {now : Instant} {s s' : Journal}
    {run : RunId} {entries : List ((String × ℕ) × ℕ)}
    (h : entries.foldlM (disposeOne w b now run) s = .ok s') : s'.runs = s.runs :=
  foldlM_keeps (P := fun s₁ => s₁.runs = s.runs)
    (fun _ _ _ same hs₁ => by
      obtain ⟨held, -, -, -, -, inserted⟩ := disposeOne_ok hs₁
      exact inserted.runs.trans same) h rfl

inductive Journal.Change (w : Wire) (b : Beside) (now : Instant) (s : Journal) :
    JournalCall → Journal → Prop
  | none (call : JournalCall) : Change w b now s call s
  | create (run : RunId) (manifestHash : Digest) (absent : s.runs.get? run = Option.none) :
      Change w b now s (.create run manifestHash) (s.setRun run (freshRun manifestHash))
  | claim (run : RunId) (ownerId : String) (ttl : ℤ) (expectedEventSeq : Option ℕ)
      (expectedStatuses : Option (List RunStatus)) (row : RunRow)
      (found : s.runs.get? run = some row) (fence : ∀ n ∈ expectedEventSeq, row.nextEventSeq = n)
      (statuses : ∀ l ∈ expectedStatuses, row.status ∈ l)
      (open' : row.status ≠ .succeeded ∧ row.status ≠ .cancelled) (free : row.Free now) :
      Change w b now s (.claim run ownerId ttl expectedEventSeq expectedStatuses)
        (s.setRun run (row.claimed ownerId now ttl))
  | heartbeat (lease : RunLease) (ttl : ℤ) (row : RunRow)
      (found : s.runs.get? lease.runId = some row) (held : row.HeldBy lease) :
      Change w b now s (.heartbeat lease ttl) (s.setRun lease.runId
        { row with leaseExpiresAt := some (now + ttl), heartbeatAt := some now })
  | release (lease : RunLease) (row : RunRow) (found : s.runs.get? lease.runId = some row)
      (held : row.HeldBy lease) :
      Change w b now s (.release lease)
        (s.setRun lease.runId { row with ownerId := Option.none, leaseExpiresAt := Option.none })
  | cancel (run : RunId) (lease : Option RunLease) (row : RunRow)
      (found : s.runs.get? run = some row) (held : ∀ l ∈ lease, l.runId = run ∧ row.HeldBy l) :
      Change w b now s (.cancel run lease) (s.setRun run { row with cancelRequested := true })
  | transition (lease : RunLease) (expected : List RunStatus) (target : RunStatus) (kind : String)
      (payload : Option Json) (row : RunRow) (s' : Journal)
      (found : s.runs.get? lease.runId = some row) (status : row.status ∈ expected)
      (held : row.HeldBy lease)
      (idle : (terminalStatusEvents target).isSome → ∀ entry ∈ s.leases.entries,
        entry.2.lease.runId = lease.runId → entry.2.lease.state ≠ .active)
      (inserted : Inserted w b (s.setRun lease.runId { row.allocated with status := target })
        ⟨lease.runId, row.nextEventSeq + 1, kind, Option.none, payload, now⟩ s') :
      Change w b now s (.transition lease expected target kind payload) s'
  | append (lease : RunLease) (kind : String) (path : Option ExecutionPath) (payload : Option Json)
      (row : RunRow) (s' : Journal) (found : s.runs.get? lease.runId = some row)
      (running : row.status = .running) (held : row.HeldBy lease)
      (inserted : Inserted w b (s.setRun lease.runId row.allocated)
        ⟨lease.runId, row.nextEventSeq + 1, kind, path, payload, now⟩ s') :
      Change w b now s (.append lease kind path payload) s'
  | complete (lease : RunLease) (checkpoint : Checkpoint) (row : RunRow) (seals : List FactSeal)
      (s' : Journal) (mine : checkpoint.runId = lease.runId)
      (absent : storedCheckpointFor w b s checkpoint.runId checkpoint.path = .ok Option.none)
      (found : s.runs.get? lease.runId = some row) (running : row.status = .running)
      (held : row.HeldBy lease)
      (sealed : storeDurableFactSeal w s.seals .checkpoint
        (checkpointFactKey checkpoint.runId checkpoint.path)
        (checkpointPayloadSelector checkpoint.runId checkpoint.path)
        (checkpointFactHash w checkpoint) = .ok seals)
      (inserted : Inserted w b { s.setRun lease.runId row.allocated with
          checkpoints := s.checkpoints ++ [checkpoint], seals := seals }
        ⟨checkpoint.runId, row.nextEventSeq + 1, "NodeCompleted", some checkpoint.path,
          some (.obj [("input_hash", .str checkpoint.inputHash)]), now⟩ s') :
      Change w b now s (.complete lease checkpoint) s'
  | prepare (lease : RunLease) (request : EffectRequest) (row : RunRow) (seals : List FactSeal)
      (mine : request.runId = lease.runId ∧ request.idempotencyKey = request.derivedKey w)
      (found : s.runs.get? lease.runId = some row) (held : row.HeldBy lease)
      (manifest : request.manifestHash = row.manifestHash)
      (absent : effectRow w s request.idempotencyKey = .ok Option.none)
      (sealed : storeDurableFactSeal w s.seals .effectPreparation (.str request.idempotencyKey)
        (.str request.idempotencyKey) (effectPreparationFactHash w request.idempotencyKey
          ⟨lease.runId, request, now, Option.none, Option.none, Option.none⟩) = .ok seals) :
      Change w b now s (.prepare lease request)
        { s with
          effects := s.effects.insert request.idempotencyKey
            ⟨lease.runId, request, now, Option.none, Option.none, Option.none⟩
          seals := seals }
  | outcome (lease : RunLease) (request : EffectRequest) (receipt : EffectReceipt) (kind : String)
      (row : RunRow) (key : Digest) (effect : EffectRow) (s' : Journal)
      (mine : request.idempotencyKey = request.derivedKey w ∧
        receipt.requestHash = effectRequestHash w request)
      (allowed : kind = effectEventKind receipt.status ∨ kind = "EffectReconciled")
      (prepared : effectRow w s request.idempotencyKey = .ok (some (key, effect)))
      (read : effectRequestFromRow w b s key effect = .ok effect.request)
      (same : effect.request.canonical = request.canonical) (open' : effect.receipt = Option.none)
      (found : s.runs.get? lease.runId = some row) (running : row.status = .running)
      (held : row.HeldBy lease)
      (inserted : Inserted w b { s.setRun lease.runId row.allocated with
          effects := s.effects.insert key { effect with
            receipt := some receipt, receiptedAt := some now,
            outcome := some (lease.runId, row.nextEventSeq + 1) } }
        ⟨lease.runId, row.nextEventSeq + 1, kind, some request.path,
          some (effectOutcomePayload w request receipt), now⟩ s') :
      Change w b now s (.outcome lease request receipt kind) s'
  | acquire (lease : RunLease) (capability : CapabilityLease) (row : RunRow) (s' : Journal)
      (mine : capability.runId = lease.runId ∧ capability.acquisitionEpoch = lease.epoch ∧
        capability.leaseId = leaseIdFor w capability.runId capability.path capability.bindingId ∧
        capability.state = .active ∧ capability.disposition = Option.none)
      (absent : capabilityLeaseRow s capability.key = .ok Option.none)
      (found : s.runs.get? lease.runId = some row) (running : row.status = .running)
      (held : row.HeldBy lease)
      (inserted : Inserted w b { s.setRun lease.runId row.allocated with
          leases := s.leases.insert capability.key ⟨capability, now, now⟩ }
        ⟨lease.runId, row.nextEventSeq + 1, "LeaseAcquired", Option.none,
          some (acquiredPayload w capability now), now⟩ s') :
      Change w b now s (.acquire lease capability) s'
  | move (lease : RunLease) (key : String × ℕ) (expected : List LeaseState) (target : LeaseState)
      (disposition : Option Disposition) (acquired : LeaseRow) (row : RunRow) (s' : Journal)
      (stored : s.leases.get? key = some acquired) (named : acquired.lease.key = key)
      (mine : acquired.lease.runId = lease.runId) (status : acquired.lease.state ∈ expected)
      (found : s.runs.get? lease.runId = some row) (running : row.status = .running)
      (held : row.HeldBy lease)
      (inserted : Inserted w b { s.setRun lease.runId row.allocated with
          leases := s.leases.insert key (acquired.moved target disposition now) }
        ⟨lease.runId, row.nextEventSeq + 1, "LeaseTransition", Option.none,
          some (transitionPayload w key acquired.lease.state target disposition now), now⟩ s') :
      Change w b now s (.move lease key expected target disposition) s'
  | meter (lease : RunLease) (key : String × ℕ) (phase : MeteringPhase) (acquired : LeaseRow)
      (row : RunRow) (s' : Journal) (stored : s.leases.get? key = some acquired)
      (found : s.runs.get? lease.runId = some row) (running : row.status = .running)
      (held : row.HeldBy lease)
      (inserted : Inserted w b (s.setRun lease.runId row.allocated)
        ⟨lease.runId, row.nextEventSeq + 1, meteringEvent, some acquired.lease.path,
          some (phase.payload lease.runId), now⟩ s') :
      Change w b now s (.meter lease key phase) s'
  | dispose (commandId : String) (plan : CapabilityDisposalPlan) (row : RunRow)
      (s₁ s' : Journal) (found : s.runs.get? plan.runId = some row)
      (running : row.status = .running) (idle : row.ownerId = Option.none)
      (fence : row.nextEventSeq = plan.baselineEventSeq)
      (nodup : (plan.pairs.map CapabilityAcquisitionPair.key).Nodup)
      (lost : ((plan.pairs.map CapabilityAcquisitionPair.key).zip
          (plan.receipt commandId).transitionEventSeqs).foldlM (disposeOne w b now plan.runId)
        (s.setRun plan.runId { row with nextEventSeq := (plan.receipt commandId).auditEventSeq }) =
          .ok s₁)
      (inserted : Inserted w b s₁ ⟨plan.runId, (plan.receipt commandId).auditEventSeq,
        disposalEvent, Option.none, some (plan.receipt commandId).dump, now⟩ s') :
      Change w b now s (.dispose commandId plan) s'

def Journal.Holds (s : Journal) (lease : RunLease) : Prop :=
  ∃ row, s.runs.get? lease.runId = some row ∧ row.HeldBy lease

/-- The write repeats a fact that is durable already. -/
def Journal.Repeats (w : Wire) (b : Beside) (s : Journal) : JournalCall → Prop
  | .complete _ c => ∃ existing, storedCheckpointFor w b s c.runId c.path = .ok (some existing) ∧
      checkpointIdentity w existing = checkpointIdentity w c
  | .outcome _ request receipt _ => ∃ key effect prior,
      effectRow w s request.idempotencyKey = .ok (some (key, effect)) ∧
        effect.receipt = some prior ∧ prior.canonical = receipt.canonical
  | .acquire _ capability => ∃ row, s.leases.get? capability.key = some row ∧ row.lease = capability
  | .move _ key _ target disposition => ∃ row, s.leases.get? key = some row ∧
      row.lease.state = target ∧ row.lease.disposition = disposition
  | _ => False

section Inversion

variable {w : Wire} {b : Beside} {now : Instant} {s s' : Journal} {lease : RunLease}

theorem createRun_change {run : RunId} {manifestHash : Digest} {u : Unit}
    (h : createRun b s run manifestHash = .ok (u, s')) :
    s.Change w b now (.create run manifestHash) s' := by
  simp only [createRun, bind_eq_ok] at h
  obtain ⟨-, -, h⟩ := h
  cases hr : s.runs.get? run with
  | none =>
    rw [hr] at h
    cases h
    exact .create run manifestHash hr
  | some row =>
    simp only [hr, bind_eq_ok] at h
    obtain ⟨-, -, h⟩ := h
    cases h
    exact .none _

theorem claimRun_change {run : RunId} {ownerId : String} {ttl : ℤ} {seq : Option ℕ}
    {statuses : Option (List RunStatus)} {res : RunLease}
    (h : claimRun w b now s run ownerId ttl seq statuses = .ok (res, s')) :
    s.Change w b now (.claim run ownerId ttl seq statuses) s' := by
  simp only [claimRun, bind_eq_ok, expect_eq_ok, require_eq_ok] at h
  obtain ⟨o, ho, row, rfl, -, ⟨fence, hstatuses⟩, -, open', -, free, h⟩ := h
  cases h
  exact .claim run ownerId ttl seq statuses row (runMutationRow_ok ho) fence hstatuses open' free

theorem heartbeat_change {ttl : ℤ} {res : RunLease}
    (h : heartbeat w b now s lease ttl = .ok (res, s')) :
    s.Change w b now (.heartbeat lease ttl) s' ∧ s.Holds lease := by
  simp only [heartbeat, bind_eq_ok] at h
  obtain ⟨row, hrow, h⟩ := h
  cases h
  obtain ⟨found, held⟩ := fencedRow_ok hrow
  exact ⟨.heartbeat lease ttl row found held, row, found, held⟩

theorem releaseRun_change {u : Unit} (h : releaseRun w b s lease = .ok (u, s')) :
    s.Change w b now (.release lease) s' ∧ s.Holds lease := by
  simp only [releaseRun, bind_eq_ok] at h
  obtain ⟨row, hrow, h⟩ := h
  cases h
  obtain ⟨found, held⟩ := fencedRow_ok hrow
  exact ⟨.release lease row found held, row, found, held⟩

theorem requestCancel_change {run : RunId} {lease : Option RunLease} {u : Unit}
    (h : requestCancel w b s run lease = .ok (u, s')) :
    s.Change w b now (.cancel run lease) s' ∧ ∀ l ∈ lease, s.Holds l := by
  simp only [requestCancel, bind_eq_ok, expect_eq_ok, require_eq_ok] at h
  obtain ⟨-, mine, o, ho, row, rfl, -, held, h⟩ := h
  cases h
  have found := runMutationRow_ok ho
  refine ⟨.cancel run lease row found fun l hl => ⟨mine l hl, held l hl⟩, fun l hl => ?_⟩
  exact ⟨row, by rw [mine l hl]; exact found, held l hl⟩

theorem transitionRun_change {expected : List RunStatus} {target : RunStatus} {kind : String}
    {payload : Option Json} {u : Unit}
    (h : transitionRun w b now s lease expected target kind payload = .ok (u, s')) :
    s.Change w b now (.transition lease expected target kind payload) s' ∧ s.Holds lease := by
  simp only [transitionRun, bind_eq_ok] at h
  obtain ⟨row, hrow, ⟨⟩, hidle, s₁, hs₁, h⟩ := h
  cases h
  obtain ⟨found, status, held⟩ := allocateSeq_ok hrow
  refine ⟨.transition lease expected target kind payload row s' found status held ?_
    (insertEvent_ok hs₁).2, row, found, held⟩
  intro terminal
  rw [requireNoActive, if_pos terminal] at hidle
  simp only [bind_eq_ok, require_eq_ok] at hidle
  obtain ⟨active, hactive, rfl⟩ := hidle
  exact activeLeases_nil hactive

theorem appendEvent_change {kind : String} {path : Option ExecutionPath} {payload : Option Json}
    {u : Unit} (h : appendEvent w b now s lease kind path payload = .ok (u, s')) :
    s.Change w b now (.append lease kind path payload) s' ∧ s.Holds lease := by
  simp only [appendEvent, bind_eq_ok] at h
  obtain ⟨row, hrow, s₁, hs₁, h⟩ := h
  cases h
  obtain ⟨found, status, held⟩ := allocateSeq_ok hrow
  exact ⟨.append lease kind path payload row s' found (List.mem_singleton.mp status) held
    (insertEvent_ok hs₁).2, row, found, held⟩

theorem recordCompletion_change {checkpoint : Checkpoint} {u : Unit}
    (h : recordCompletion w b now s lease checkpoint = .ok (u, s')) :
    s.Change w b now (.complete lease checkpoint) s' ∧
      (s.Holds lease ∨ s.Repeats w b (.complete lease checkpoint)) := by
  simp only [recordCompletion, bind_eq_ok, require_eq_ok] at h
  obtain ⟨-, mine, o, ho, h⟩ := h
  cases o with
  | some existing =>
    simp only [bind_eq_ok, require_eq_ok] at h
    obtain ⟨-, same, h⟩ := h
    cases h
    exact ⟨.none _, .inr ⟨existing, ho, same⟩⟩
  | none =>
    simp only [bind_eq_ok] at h
    obtain ⟨row, hrow, seals, hseals, s₁, hs₁, h⟩ := h
    cases h
    obtain ⟨found, status, held⟩ := allocateSeq_ok hrow
    exact ⟨.complete lease checkpoint row seals s' mine ho found (List.mem_singleton.mp status) held
      hseals (insertEvent_ok hs₁).2, .inl ⟨row, found, held⟩⟩

theorem recordEffectPrepared_change {request stored : EffectRequest}
    (h : recordEffectPrepared w b now s lease request = .ok (stored, s')) :
    s.Change w b now (.prepare lease request) s' ∧ s.Holds lease := by
  simp only [recordEffectPrepared, bind_eq_ok, require_eq_ok] at h
  obtain ⟨-, mine, row, hrow, -, manifest, o, ho, h⟩ := h
  obtain ⟨found, held⟩ := fencedRow_ok hrow
  cases o with
  | some entry =>
    simp only [bind_eq_ok] at h
    obtain ⟨r, -, h⟩ := h
    cases h
    exact ⟨.none _, row, found, held⟩
  | none =>
    simp only [bind_eq_ok] at h
    obtain ⟨-, -, seals, hseals, r, -, -, -, h⟩ := h
    cases h
    exact ⟨.prepare lease request row seals mine found held manifest ho hseals, row, found, held⟩

theorem effectRequestFromRow_ok {key : Digest} {effect : EffectRow} {request : EffectRequest}
    (h : effectRequestFromRow w b s key effect = .ok request) : request = effect.request := by
  simp only [effectRequestFromRow, bind_eq_ok] at h
  obtain ⟨-, -, o, -, run, -, -, -, -, -, -, -, -, -, r, -, -, -, h⟩ := h
  cases h
  rfl

theorem effectReceiptFromRow_ok {effect : EffectRow} {o : Option EffectReceipt}
    (h : effectReceiptFromRow w effect = .ok o) : o = effect.receipt := by
  unfold effectReceiptFromRow at h
  cases hr : effect.receipt with
  | none =>
    rw [hr] at h
    cases h
    rfl
  | some receipt =>
    simp only [hr, bind_eq_ok] at h
    obtain ⟨-, -, h⟩ := h
    cases h
    rfl

theorem recordEffectOutcome_change {request : EffectRequest} {receipt : EffectReceipt}
    {kind : String} {res : OutcomeDisposition}
    (h : recordEffectOutcome w b now s lease request receipt kind = .ok (res, s')) :
    s.Change w b now (.outcome lease request receipt kind) s' ∧
      (s.Holds lease ∨ s.Repeats w b (.outcome lease request receipt kind)) := by
  simp only [recordEffectOutcome, bind_eq_ok, require_eq_ok, expect_eq_ok] at h
  obtain ⟨-, mine, -, allowed, o, ho, entry, rfl, stored, hstored, -, same, r, hr, h⟩ := h
  have hrequest := effectRequestFromRow_ok hstored
  have hreceipt := effectReceiptFromRow_ok hr
  subst hrequest
  cases r with
  | some prior =>
    simp only [bind_eq_ok, require_eq_ok] at h
    obtain ⟨-, equal, h⟩ := h
    cases h
    exact ⟨.none _, .inr ⟨entry.1, entry.2, prior, ho, hreceipt.symm, equal⟩⟩
  | none =>
    simp only [bind_eq_ok] at h
    obtain ⟨row, hrow, s₁, hs₁, h⟩ := h
    cases h
    obtain ⟨found, status, held⟩ := allocateSeq_ok hrow
    exact ⟨.outcome lease request receipt kind row entry.1 entry.2 s' mine allowed ho hstored same
      hreceipt.symm found (List.mem_singleton.mp status) held (insertEvent_ok hs₁).2,
      .inl ⟨row, found, held⟩⟩

theorem recordCapabilityLease_change {capability : CapabilityLease} {u : Unit}
    (h : recordCapabilityLease w b now s lease capability = .ok (u, s')) :
    s.Change w b now (.acquire lease capability) s' ∧
      (s.Holds lease ∨ s.Repeats w b (.acquire lease capability)) := by
  simp only [recordCapabilityLease, bind_eq_ok, require_eq_ok] at h
  obtain ⟨-, mine, -, -, -, -, o, ho, h⟩ := h
  cases o with
  | some existing =>
    simp only [bind_eq_ok, require_eq_ok] at h
    obtain ⟨stored, hstored, -, equal, h⟩ := h
    cases h
    obtain ⟨rfl, -, -⟩ := capabilityLeaseFromRow_ok hstored
    exact ⟨.none _, .inr ⟨existing, capabilityLeaseRow_some ho, equal⟩⟩
  | none =>
    simp only [bind_eq_ok] at h
    obtain ⟨row, hrow, s₁, hs₁, h⟩ := h
    cases h
    obtain ⟨found, status, held⟩ := allocateSeq_ok hrow
    exact ⟨.acquire lease capability row s' mine ho found (List.mem_singleton.mp status) held
      (insertEvent_ok hs₁).2, .inl ⟨row, found, held⟩⟩

theorem transitionCapabilityLease_change {key : String × ℕ} {expected : List LeaseState}
    {target : LeaseState} {disposition : Option Disposition} {u : Unit}
    (h : transitionCapabilityLease w b now s lease key expected target disposition = .ok (u, s')) :
    s.Change w b now (.move lease key expected target disposition) s' ∧
      (s.Holds lease ∨ s.Repeats w b (.move lease key expected target disposition)) := by
  simp only [transitionCapabilityLease, bind_eq_ok, expect_eq_ok] at h
  obtain ⟨o, ho, acquired, rfl, stored, hstored, h⟩ := h
  obtain ⟨rfl, hrun, hkey⟩ := capabilityLeaseFromRow_ok hstored
  split_ifs at h with repeated
  · cases h
    exact ⟨.none _, .inr ⟨acquired, capabilityLeaseRow_some ho, repeated⟩⟩
  · simp only [bind_eq_ok, require_eq_ok] at h
    obtain ⟨-, -, -, -, -, -, -, status, row, hrow, s₁, hs₁, h⟩ := h
    cases h
    obtain ⟨found, running, held⟩ := allocateSeq_ok hrow
    exact ⟨.move lease key expected target disposition acquired row s' (capabilityLeaseRow_some ho)
      hkey (hrun lease.runId rfl) status found (List.mem_singleton.mp running) held
      (insertEvent_ok hs₁).2, .inl ⟨row, found, held⟩⟩

theorem writeMeteringPhase_change {key : String × ℕ} {phase : MeteringPhase} {seq : ℕ}
    (h : writeMeteringPhase w b now s lease key phase = .ok (seq, s')) :
    s.Change w b now (.meter lease key phase) s' ∧ s.Holds lease := by
  simp only [writeMeteringPhase, bind_eq_ok, expect_eq_ok, require_eq_ok] at h
  obtain ⟨row, found, -, -, -, ⟨held, -, -⟩, acquired, stored, -, -, o, -, h⟩ := h
  cases o with
  | some seq =>
    cases h
    exact ⟨.none _, row, found, held⟩
  | none =>
    simp only [bind_eq_ok] at h
    obtain ⟨row, hrow, s₁, hs₁, -, -, h⟩ := h
    cases h
    obtain ⟨found, running, held⟩ := allocateSeq_ok hrow
    exact ⟨.meter lease key phase acquired row s' stored found (List.mem_singleton.mp running) held
      (insertEventFact_ok hs₁), row, found, held⟩

theorem recordDisposal_change {commandId : String} {plan : CapabilityDisposalPlan} {u : Unit}
    (h : recordDisposal w b now s commandId plan = .ok (u, s')) :
    s.Change w b now (.dispose commandId plan) s' := by
  simp only [recordDisposal, bind_eq_ok, expect_eq_ok, require_eq_ok] at h
  obtain ⟨o, ho, row, rfl, -, ⟨running, idle, -, -, -, fence⟩, -, nodup, s₁, lost, s₂, hs₂, -, -, h⟩ := h
  cases h
  exact .dispose commandId plan row s₁ s' (runMutationRow_ok ho) running idle fence nodup lost
    (insertEventFact_ok hs₂)

theorem Journal.step_change (w : Wire) (b : Beside) (now : Instant) (s : Journal)
    (call : JournalCall) : s.Change w b now call (s.step w b now call) := by
  cases call with
  | create run manifestHash => exact settle_cases (.none _) fun _ _ h => createRun_change h
  | claim run ownerId ttl seq statuses =>
    exact settle_cases (.none _) fun _ _ h => claimRun_change h
  | heartbeat lease ttl => exact settle_cases (.none _) fun _ _ h => (heartbeat_change h).1
  | release lease => exact settle_cases (.none _) fun _ _ h => (releaseRun_change h).1
  | cancel run lease => exact settle_cases (.none _) fun _ _ h => (requestCancel_change h).1
  | transition lease expected target kind payload =>
    exact settle_cases (.none _) fun _ _ h => (transitionRun_change h).1
  | append lease kind path payload =>
    exact settle_cases (.none _) fun _ _ h => (appendEvent_change h).1
  | complete lease checkpoint =>
    exact settle_cases (.none _) fun _ _ h => (recordCompletion_change h).1
  | prepare lease request =>
    exact settle_cases (.none _) fun _ _ h => (recordEffectPrepared_change h).1
  | outcome lease request receipt kind =>
    exact settle_cases (.none _) fun _ _ h => (recordEffectOutcome_change h).1
  | acquire lease capability =>
    exact settle_cases (.none _) fun _ _ h => (recordCapabilityLease_change h).1
  | move lease key expected target disposition =>
    exact settle_cases (.none _) fun _ _ h => (transitionCapabilityLease_change h).1
  | meter lease key phase => exact settle_cases (.none _) fun _ _ h => (writeMeteringPhase_change h).1
  | dispose commandId plan => exact settle_cases (.none _) fun _ _ h => recordDisposal_change h

end Inversion

end Constructicon
