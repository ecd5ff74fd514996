import Constructicon.JournalReaders

/-!
# The writers of the execution journal

Every write is one transaction: it reads what it depends on, turns the run's fence
and leaves the row, the event and their seals together, or it refuses and leaves
nothing. `transitionRun`, `appendEvent`, `transitionCapabilityLease` take whatever
their callers pass; the callers themselves are `Turn` and `Notice`.
-/

namespace Constructicon

open Transaction

section Writers

variable (w : Wire)

def Journal.setRun (s : Journal) (run : RunId) (row : RunRow) : Journal :=
  { s with runs := s.runs.insert run row }

/-- The row after its fence moved to the next event. -/
def RunRow.allocated (row : RunRow) : RunRow := { row with nextEventSeq := row.nextEventSeq + 1 }

/-- `_insert_event_fact`: the event, its seal, and the relation to the command it names. -/
def insertEventFact (b : Beside) (s : Journal) (e : EventRow) : Except StoreError Journal := do
  require (∀ e' ∈ s.events, ¬(e'.runId = e.runId ∧ e'.seq = e.seq)) .integrityError
  let seals ← storeDurableFactSeal w s.seals .event (eventFactKey e.runId e.seq)
    (eventSelector e.runId e.seq) (eventFactHash w e)
  let cause ← AttemptCause.fromPayload e.payload
  match resumeCause cause with
  | some id =>
    let fact ← b.attempt e id
    let seals ← storeDurableFactSeal w seals .resumeAttempt (.str id) (eventFactKey e.runId e.seq)
      fact
    pure { s with events := s.events ++ [e], seals := seals }
  | none => pure { s with events := s.events ++ [e], seals := seals }

/-- `_insert_event` -/
def insertEvent (b : Beside) (s : Journal) (e : EventRow) : Except StoreError Journal := do
  require (e.kind ≠ meteringEvent) .contractViolation
  let s ← insertEventFact w b s e
  storedEventFromRow w b s e
  pure s

/-- The row `create_run` inserts. -/
def freshRun (manifestHash : Digest) : RunRow where
  manifestHash := manifestHash
  status := .pending
  ownerId := none
  ownerEpoch := 0
  leaseExpiresAt := none
  heartbeatAt := none
  nextEventSeq := 0
  cancelRequested := false

/-- `create_run`; inputs and origin belong to the run's world. -/
def createRun (b : Beside) (s : Journal) (run : RunId) (manifestHash : Digest) :
    Except StoreError (Unit × Journal) := do
  b.world run
  match s.runs.get? run with
  | some row =>
    require (row.manifestHash = manifestHash) .checkpointConflict
    pure ((), s)
  | none => pure ((), s.setRun run (freshRun manifestHash))

def RunRow.Free (row : RunRow) (now : Instant) : Prop :=
  row.ownerId = none ∨ ∀ expires ∈ row.leaseExpiresAt, expires ≤ now

instance (row : RunRow) (now : Instant) : Decidable (row.Free now) :=
  inferInstanceAs (Decidable (_ ∨ ∀ expires ∈ row.leaseExpiresAt, expires ≤ now))

def RunRow.claimed (row : RunRow) (ownerId : String) (now : Instant) (ttl : ℤ) : RunRow :=
  { row with
    ownerId := some ownerId
    ownerEpoch := row.ownerEpoch + 1
    leaseExpiresAt := some (now + ttl)
    heartbeatAt := some now }

/-- `claim_run` -/
def claimRun (b : Beside) (now : Instant) (s : Journal) (run : RunId) (ownerId : String) (ttl : ℤ)
    (expectedEventSeq : Option ℕ) (expectedStatuses : Option (List RunStatus)) :
    Except StoreError (RunLease × Journal) := do
  let row ← expect (← runMutationRow w b s run) .contractViolation
  require ((∀ n ∈ expectedEventSeq, row.nextEventSeq = n) ∧
    ∀ l ∈ expectedStatuses, row.status ∈ l) .runAttemptSuperseded
  require (row.status ≠ .succeeded ∧ row.status ≠ .cancelled) .contractViolation
  require (row.Free now) .ownershipLost
  pure (⟨run, ownerId, row.ownerEpoch + 1, now + ttl⟩,
    s.setRun run (row.claimed ownerId now ttl))

/-- The row a lease still holds, or the refusal of a fenced-out worker. -/
def fencedRow (b : Beside) (s : Journal) (lease : RunLease) : Except StoreError RunRow := do
  let row ← expect (← runMutationRow w b s lease.runId) .ownershipLost
  require (row.HeldBy lease) .ownershipLost
  pure row

/-- `heartbeat` -/
def heartbeat (b : Beside) (now : Instant) (s : Journal) (lease : RunLease) (ttl : ℤ) :
    Except StoreError (RunLease × Journal) := do
  let row ← fencedRow w b s lease
  pure ({ lease with expiresAt := now + ttl }, s.setRun lease.runId
    { row with leaseExpiresAt := some (now + ttl), heartbeatAt := some now })

/-- `release_run` -/
def releaseRun (b : Beside) (s : Journal) (lease : RunLease) :
    Except StoreError (Unit × Journal) := do
  let row ← fencedRow w b s lease
  pure ((), s.setRun lease.runId { row with ownerId := none, leaseExpiresAt := none })

/-- `request_cancel`: with a lease it is fenced, without one it is an operator's. -/
def requestCancel (b : Beside) (s : Journal) (run : RunId) (lease : Option RunLease) :
    Except StoreError (Unit × Journal) := do
  require (∀ l ∈ lease, l.runId = run) .contractViolation
  let row ← expect (← runMutationRow w b s run) .contractViolation
  require (∀ l ∈ lease, row.HeldBy l) .ownershipLost
  pure ((), s.setRun run { row with cancelRequested := true })

/-- A run does not settle over an active acquisition. -/
def requireNoActive (b : Beside) (s : Journal) (run : RunId) (target : RunStatus) :
    Except StoreError Unit :=
  if (terminalStatusEvents target).isSome then do
    let active ← activeLeases w b s run
    require (active = []) .cleanupUnresolved
  else .ok ()

/-- `transition_run` -/
def transitionRun (b : Beside) (now : Instant) (s : Journal) (lease : RunLease)
    (expected : List RunStatus) (target : RunStatus) (kind : String) (payload : Option Json) :
    Except StoreError (Unit × Journal) := do
  let row ← allocateSeq w b s lease expected
  requireNoActive w b s lease.runId target
  let s' ← insertEvent w b (s.setRun lease.runId { row.allocated with status := target })
    ⟨lease.runId, row.nextEventSeq + 1, kind, none, payload, now⟩
  pure ((), s')

/-- `append_event` -/
def appendEvent (b : Beside) (now : Instant) (s : Journal) (lease : RunLease) (kind : String)
    (path : Option ExecutionPath) (payload : Option Json) : Except StoreError (Unit × Journal) := do
  let row ← allocateSeq w b s lease [.running]
  let s' ← insertEvent w b (s.setRun lease.runId row.allocated)
    ⟨lease.runId, row.nextEventSeq + 1, kind, path, payload, now⟩
  pure ((), s')

/-- `record_completion`: the first completion of an invocation, or its exact repetition. -/
def recordCompletion (b : Beside) (now : Instant) (s : Journal) (lease : RunLease)
    (checkpoint : Checkpoint) : Except StoreError (Unit × Journal) := do
  require (checkpoint.runId = lease.runId) .contractViolation
  match ← storedCheckpointFor w b s checkpoint.runId checkpoint.path with
  | some existing =>
    require (checkpointIdentity w existing = checkpointIdentity w checkpoint) .checkpointConflict
    pure ((), s)
  | none =>
    let row ← allocateSeq w b s lease [.running]
    let seals ← storeDurableFactSeal w s.seals .checkpoint
      (checkpointFactKey checkpoint.runId checkpoint.path)
      (checkpointPayloadSelector checkpoint.runId checkpoint.path) (checkpointFactHash w checkpoint)
    let s := { s.setRun lease.runId row.allocated with
      checkpoints := s.checkpoints ++ [checkpoint], seals := seals }
    let s' ← insertEvent w b s ⟨checkpoint.runId, row.nextEventSeq + 1, "NodeCompleted",
      some checkpoint.path, some (.obj [("input_hash", .str checkpoint.inputHash)]), now⟩
    pure ((), s')

/-- `record_effect_prepared`: the first exact request of a key, whoever asks. -/
def recordEffectPrepared (b : Beside) (now : Instant) (s : Journal) (lease : RunLease)
    (request : EffectRequest) : Except StoreError (EffectRequest × Journal) := do
  require (request.runId = lease.runId ∧ request.idempotencyKey = request.derivedKey w)
    .contractViolation
  let row ← fencedRow w b s lease
  require (request.manifestHash = row.manifestHash) .contractViolation
  match ← effectRow w s request.idempotencyKey with
  | some entry =>
    let stored ← effectRequestFromRow w b s entry.1 entry.2
    pure (stored, s)
  | none =>
    b.effect request
    let prepared : EffectRow := ⟨lease.runId, request, now, none, none, none⟩
    let seals ← storeDurableFactSeal w s.seals .effectPreparation (.str request.idempotencyKey)
      (.str request.idempotencyKey) (effectPreparationFactHash w request.idempotencyKey prepared)
    let s' := { s with
      effects := s.effects.insert request.idempotencyKey prepared, seals := seals }
    let stored ← effectRequestFromRow w b s' request.idempotencyKey prepared
    require (stored.canonical = request.canonical) .journalDamaged
    pure (stored, s')

inductive OutcomeDisposition where
  | recorded
  | alreadyRecorded
deriving DecidableEq, Repr

/-- `record_effect_outcome`: the first receipt of a key; an equal one is a repetition
and any other is damage. -/
def recordEffectOutcome (b : Beside) (now : Instant) (s : Journal) (lease : RunLease)
    (request : EffectRequest) (receipt : EffectReceipt) (kind : String) :
    Except StoreError (OutcomeDisposition × Journal) := do
  require (request.idempotencyKey = request.derivedKey w ∧
    receipt.requestHash = effectRequestHash w request) .contractViolation
  require (kind = effectEventKind receipt.status ∨ kind = "EffectReconciled") .contractViolation
  let entry ← expect (← effectRow w s request.idempotencyKey) .journalDamaged
  let stored ← effectRequestFromRow w b s entry.1 entry.2
  require (stored.canonical = request.canonical) .journalDamaged
  match ← effectReceiptFromRow w entry.2 with
  | some prior =>
    require (prior.canonical = receipt.canonical) .journalDamaged
    pure (.alreadyRecorded, s)
  | none =>
    let row ← allocateSeq w b s lease [.running]
    let closed := { entry.2 with receipt := some receipt, receiptedAt := some now,
                                 outcome := some (lease.runId, row.nextEventSeq + 1) }
    let s := { s.setRun lease.runId row.allocated with
      effects := s.effects.insert entry.1 closed }
    let s' ← insertEvent w b s ⟨lease.runId, row.nextEventSeq + 1, kind, some request.path,
      some (effectOutcomePayload w request receipt), now⟩
    pure (.recorded, s')

/-- `record_capability_lease` -/
def recordCapabilityLease (b : Beside) (now : Instant) (s : Journal) (lease : RunLease)
    (capability : CapabilityLease) : Except StoreError (Unit × Journal) := do
  require (capability.runId = lease.runId ∧ capability.acquisitionEpoch = lease.epoch ∧
    capability.leaseId = leaseIdFor w capability.runId capability.path capability.bindingId ∧
    capability.state = .active ∧ capability.disposition = none) .contractViolation
  let _ ← expect (← runMutationRow w b s lease.runId) .contractViolation
  match ← capabilityLeaseRow s capability.key with
  | some existing =>
    let stored ← capabilityLeaseFromRow w b s none capability.key existing
    require (stored = capability) .checkpointConflict
    pure ((), s)
  | none =>
    let row ← allocateSeq w b s lease [.running]
    let s := { s.setRun lease.runId row.allocated with
      leases := s.leases.insert capability.key ⟨capability, now, now⟩ }
    let s' ← insertEvent w b s ⟨lease.runId, row.nextEventSeq + 1, "LeaseAcquired", none,
      some (acquiredPayload w capability now), now⟩
    pure ((), s')

def LeaseRow.moved (row : LeaseRow) (target : LeaseState) (disposition : Option Disposition)
    (now : Instant) : LeaseRow :=
  { row with
    lease := { row.lease with state := target, disposition := disposition }
    updatedAt := now }

/-- A worker does not touch an acquisition that was disposed of. -/
def refuseDisposed (b : Beside) (held : LeaseRow) : Except StoreError Unit :=
  if held.lease.state = .lost then b.disposed held else .ok ()

/-- `transition_capability_lease` -/
def transitionCapabilityLease (b : Beside) (now : Instant) (s : Journal) (lease : RunLease)
    (key : String × ℕ) (expected : List LeaseState) (target : LeaseState)
    (disposition : Option Disposition) : Except StoreError (Unit × Journal) := do
  let held ← expect (← capabilityLeaseRow s key) .contractViolation
  let stored ← capabilityLeaseFromRow w b s (some lease.runId) key held
  if stored.state = target ∧ stored.disposition = disposition then pure ((), s)
  else do
    require (target ≠ .lost) .contractViolation
    refuseDisposed b held
    require (stored.state = .lost → target ≠ .active) .contractViolation
    require (stored.state ∈ expected) .contractViolation
    let row ← allocateSeq w b s lease [.running]
    let s := { s.setRun lease.runId row.allocated with
      leases := s.leases.insert key (held.moved target disposition now) }
    let s' ← insertEvent w b s ⟨lease.runId, row.nextEventSeq + 1, "LeaseTransition", none,
      some (transitionPayload w key stored.state target disposition now), now⟩
    pure ((), s')

inductive MeteringPhase where
  | intent (intent : Json)
  | outcome (acquisitionId : String) (intentSeq : ℕ) (outcome : Json)

def MeteringPhase.payload (run : RunId) : MeteringPhase → Json
  | .intent body => .obj [("phase", .str "intent"), ("intent", body)]
  | .outcome acquisitionId intentSeq body => .obj [("phase", .str "outcome"), ("run_id", .str run),
      ("acquisition_id", .str acquisitionId), ("intent_seq", .int intentSeq), ("outcome", body)]

/-- `_write_metering_phase`: an observation of an active acquisition. -/
def writeMeteringPhase (b : Beside) (now : Instant) (s : Journal) (lease : RunLease)
    (key : String × ℕ) (phase : MeteringPhase) : Except StoreError (ℕ × Journal) := do
  let row ← expect (s.runs.get? lease.runId) .ownershipLost
  b.world lease.runId
  require (row.HeldBy lease ∧ (∃ expires ∈ row.leaseExpiresAt, now < expires) ∧
    row.status = .running) .ownershipLost
  let acquisition ← expect (s.leases.get? key) .journalDamaged
  require (acquisition.lease.runId = lease.runId ∧ acquisition.lease.state = .active)
    .contractViolation
  match ← b.metered acquisition with
  | some seq => pure (seq, s)
  | none =>
    let row ← allocateSeq w b s lease [.running]
    let e : EventRow := ⟨lease.runId, row.nextEventSeq + 1, meteringEvent,
      some acquisition.lease.path, some (phase.payload lease.runId), now⟩
    let s' ← insertEventFact w b (s.setRun lease.runId row.allocated) e
    b.related e
    pure (e.seq, s')

/-- The transition of an acquisition that a disposal gives up. -/
def lostEvent (now : Instant) (run : RunId) (key : String × ℕ) (seq : ℕ) : EventRow :=
  ⟨run, seq, "LeaseTransition", none, some (transitionPayload w key .active .lost none now), now⟩

/-- One acquisition of a disposal: the row is lost, its transition is on record. -/
def disposeOne (b : Beside) (now : Instant) (run : RunId) (s : Journal)
    (entry : (String × ℕ) × ℕ) : Except StoreError Journal := do
  let held ← expect (s.leases.get? entry.1) .journalDamaged
  require (held.lease.runId = run ∧ held.lease.state = .active ∧ held.lease.disposition = none)
    .journalDamaged
  insertEventFact w b
    { s with leases := s.leases.insert entry.1 (held.moved .lost none now) }
    (lostEvent w now run entry.1 entry.2)

def CapabilityAcquisitionPair.key (p : CapabilityAcquisitionPair) : String × ℕ :=
  (p.leaseId, p.acquisitionEpoch)

def CapabilityDisposalRecorded.dump (r : CapabilityDisposalRecorded) : Json :=
  .obj [("command_id", .str r.commandId), ("run_id", .str r.runId),
    ("manifest_hash", .str r.manifestHash), ("owner_epoch", .int r.ownerEpoch),
    ("before_event_seq", .int r.beforeEventSeq), ("audit_event_seq", .int r.auditEventSeq),
    ("pairs", .arr (r.pairs.map CapabilityAcquisitionPair.dump)),
    ("row_baseline_hashes", Json.strs r.rowBaselineHashes),
    ("transition_event_seqs", .arr (r.transitionEventSeqs.map (fun n => .int n))),
    ("physical_cleanup", .str "unverified")]

/-- What `capability_disposal_apply` writes to the journal: an idle run at its planned
fence loses the planned acquisitions, and the receipt is the last event. -/
def recordDisposal (b : Beside) (now : Instant) (s : Journal) (commandId : String)
    (plan : CapabilityDisposalPlan) : Except StoreError (Unit × Journal) := do
  let row ← expect (← runMutationRow w b s plan.runId) .journalDamaged
  require (row.status = .running ∧ row.ownerId = none ∧ row.leaseExpiresAt = none ∧
    row.manifestHash = plan.manifestHash ∧ row.ownerEpoch = plan.ownerEpoch ∧
    row.nextEventSeq = plan.baselineEventSeq) .journalDamaged
  require ((plan.pairs.map CapabilityAcquisitionPair.key).Nodup) .journalDamaged
  let receipt := plan.receipt commandId
  let s ← ((plan.pairs.map CapabilityAcquisitionPair.key).zip receipt.transitionEventSeqs).foldlM
    (disposeOne w b now plan.runId)
    (s.setRun plan.runId { row with nextEventSeq := receipt.auditEventSeq })
  let e : EventRow := ⟨plan.runId, receipt.auditEventSeq, disposalEvent, none,
    some receipt.dump, now⟩
  let s' ← insertEventFact w b s e
  b.related e
  pure ((), s')

end Writers

/-! ## The callers -/

inductive Turn where
  | started (inputs : Json) (cause : Option AttemptCause)
  | resumed (cause : Option AttemptCause)
  | cancelled (source : String)
  | failed (failed blocked parked : Json)
  | parked (parked blocked : Json)
  | succeeded (outputs : Json)

def AttemptCause.entries (cause : Option AttemptCause) : List (String × Json) :=
  (cause.map AttemptCause.payload).getD []

namespace Turn

def expected : Turn → List RunStatus
  | .started _ _ => [.pending]
  | .resumed _ => [.failed, .parked]
  | _ => [.running]

def target : Turn → RunStatus
  | .started _ _ => .running
  | .resumed _ => .running
  | .cancelled _ => .cancelled
  | .failed _ _ _ => .failed
  | .parked _ _ => .parked
  | .succeeded _ => .succeeded

def kind : Turn → String
  | .started _ _ => "RunStarted"
  | .resumed _ => "RunResumed"
  | .cancelled _ => "RunCancelled"
  | .failed _ _ _ => "RunFailed"
  | .parked _ _ => "RunParked"
  | .succeeded _ => "RunSucceeded"

def payload : Turn → Option Json
  | .started inputs cause => some (.obj (("inputs", inputs) :: AttemptCause.entries cause))
  | .resumed cause => cause.map (fun c => .obj c.payload)
  | .cancelled source => some (.obj [("source", .str source)])
  | .failed names blocked waits =>
    some (.obj [("failed", names), ("blocked", blocked), ("parked", waits)])
  | .parked waits blocked => some (.obj [("parked", waits), ("blocked", blocked)])
  | .succeeded outputs => some (.obj [("outputs", outputs)])

end Turn

structure ParkedUnit where
  path : ExecutionPath
  reason : String
  completedIterations : Option ℕ
  waitingOn : Option Digest
deriving DecidableEq

def ParkedUnit.dump (u : ParkedUnit) : Json :=
  .obj [("path", u.path.dump), ("reason", .str u.reason),
    ("completed_iterations", (u.completedIterations.map (fun n => Json.int n)).getD .null),
    ("waiting_on", Json.optStr u.waitingOn)]

/-- The events the walker appends beside status, completions, effects and acquisitions. -/
inductive Notice where
  | runReclaimed (cause : Option AttemptCause)
  | blocked (loop : Bool) (path : ExecutionPath) (destination producers : Json)
  | nodeSkipped (path : ExecutionPath)
  | nodeStarted (path : ExecutionPath)
  | nodeRestored (path : ExecutionPath)
  | nodeFailed (path : ExecutionPath) (error errorType : String)
  | unitParked (loop : Bool) (path : ExecutionPath) (unit : ParkedUnit)
  | loopFailed (path : ExecutionPath) (error : String) (iteration : ℕ)
  | loopIteration (restored : Bool) (path : ExecutionPath) (continue' : Bool)
  | loopEnded (restored : Bool) (path : ExecutionPath) (iterations : ℕ)
  | policyExhausted (reobserved : Bool) (path : ExecutionPath) (unit : ParkedUnit)
  | effectDeduplicated (path : ExecutionPath) (kind : String)

namespace Notice

def kind : Notice → String
  | .runReclaimed _ => "RunReclaimed"
  | .blocked loop _ _ _ => if loop then "LoopBlocked" else "NodeBlocked"
  | .nodeSkipped _ => "NodeSkipped"
  | .nodeStarted _ => "NodeStarted"
  | .nodeRestored _ => "NodeRestored"
  | .nodeFailed _ _ _ => "NodeFailed"
  | .unitParked loop _ _ => if loop then "LoopParked" else "NodeParked"
  | .loopFailed _ _ _ => "LoopFailed"
  | .loopIteration restored _ _ => if restored then "LoopIterationRestored" else "LoopIterationCompleted"
  | .loopEnded restored _ _ => if restored then "LoopRestored" else "LoopCompleted"
  | .policyExhausted reobserved _ _ => if reobserved then "LoopPolicyReobserved" else "LoopPolicyExhausted"
  | .effectDeduplicated _ _ => "EffectDeduplicated"

def path : Notice → Option ExecutionPath
  | .runReclaimed _ => none
  | .blocked _ p _ _ => some p
  | .nodeSkipped p => some p
  | .nodeStarted p => some p
  | .nodeRestored p => some p
  | .nodeFailed p _ _ => some p
  | .unitParked _ p _ => some p
  | .loopFailed p _ _ => some p
  | .loopIteration _ p _ => some p
  | .loopEnded _ p _ => some p
  | .policyExhausted _ p _ => some p
  | .effectDeduplicated p _ => some p

def payload : Notice → Option Json
  | .runReclaimed cause => cause.map (fun c => .obj c.payload)
  | .blocked _ _ destination producers =>
    some (.obj [("destination", destination), ("producers", producers)])
  | .nodeSkipped _ => some (.obj [("reason", .str "loop_iteration_failed")])
  | .nodeStarted _ => none
  | .nodeRestored _ => none
  | .nodeFailed _ error errorType => some (.obj [("error", .str error), ("error_type", .str errorType)])
  | .unitParked _ _ unit => some unit.dump
  | .loopFailed _ error iteration =>
    some (.obj [("error", .str error), ("iteration", .int iteration)])
  | .loopIteration _ _ continue' => some (.obj [("continue", .bool continue')])
  | .loopEnded _ _ iterations => some (.obj [("iterations", .int iterations)])
  | .policyExhausted _ _ unit => some unit.dump
  | .effectDeduplicated _ kind => some (.obj [("kind", .str kind)])

end Notice

/-- One transaction on the journal, with what it reads elsewhere and its clock. -/
inductive JournalCall where
  | create (run : RunId) (manifestHash : Digest)
  | claim (run : RunId) (ownerId : String) (ttl : ℤ) (expectedEventSeq : Option ℕ)
      (expectedStatuses : Option (List RunStatus))
  | heartbeat (lease : RunLease) (ttl : ℤ)
  | release (lease : RunLease)
  | cancel (run : RunId) (lease : Option RunLease)
  | transition (lease : RunLease) (expected : List RunStatus) (target : RunStatus) (kind : String)
      (payload : Option Json)
  | append (lease : RunLease) (kind : String) (path : Option ExecutionPath) (payload : Option Json)
  | complete (lease : RunLease) (checkpoint : Checkpoint)
  | prepare (lease : RunLease) (request : EffectRequest)
  | outcome (lease : RunLease) (request : EffectRequest) (receipt : EffectReceipt) (kind : String)
  | acquire (lease : RunLease) (capability : CapabilityLease)
  | move (lease : RunLease) (key : String × ℕ) (expected : List LeaseState) (target : LeaseState)
      (disposition : Option Disposition)
  | meter (lease : RunLease) (key : String × ℕ) (phase : MeteringPhase)
  | dispose (commandId : String) (plan : CapabilityDisposalPlan)

/-- The journal after a call that reads `b` beside it at `now`. -/
def Journal.step (w : Wire) (b : Beside) (now : Instant) (s : Journal) : JournalCall → Journal
  | .create run manifestHash => settle s (createRun b s run manifestHash)
  | .claim run ownerId ttl expectedEventSeq expectedStatuses =>
    settle s (claimRun w b now s run ownerId ttl expectedEventSeq expectedStatuses)
  | .heartbeat lease ttl => settle s (heartbeat w b now s lease ttl)
  | .release lease => settle s (releaseRun w b s lease)
  | .cancel run lease => settle s (requestCancel w b s run lease)
  | .transition lease expected target kind payload =>
    settle s (transitionRun w b now s lease expected target kind payload)
  | .append lease kind path payload => settle s (appendEvent w b now s lease kind path payload)
  | .complete lease checkpoint => settle s (recordCompletion w b now s lease checkpoint)
  | .prepare lease request => settle s (recordEffectPrepared w b now s lease request)
  | .outcome lease request receipt kind =>
    settle s (recordEffectOutcome w b now s lease request receipt kind)
  | .acquire lease capability => settle s (recordCapabilityLease w b now s lease capability)
  | .move lease key expected target disposition =>
    settle s (transitionCapabilityLease w b now s lease key expected target disposition)
  | .meter lease key phase => settle s (writeMeteringPhase w b now s lease key phase)
  | .dispose commandId plan => settle s (recordDisposal w b now s commandId plan)

/-- The calls the program makes: every writer, with the walker's own transitions and
notices where the kind of an event is free. -/
inductive JournalCall.Made : JournalCall → Prop
  | create (run : RunId) (manifestHash : Digest) : Made (.create run manifestHash)
  | claim (run : RunId) (ownerId : String) (ttl : ℤ) (expectedEventSeq : Option ℕ)
      (expectedStatuses : Option (List RunStatus)) :
      Made (.claim run ownerId ttl expectedEventSeq expectedStatuses)
  | heartbeat (lease : RunLease) (ttl : ℤ) : Made (.heartbeat lease ttl)
  | release (lease : RunLease) : Made (.release lease)
  | cancel (run : RunId) (lease : Option RunLease) : Made (.cancel run lease)
  | turn (lease : RunLease) (t : Turn) :
      Made (.transition lease t.expected t.target t.kind t.payload)
  | notice (lease : RunLease) (n : Notice) : Made (.append lease n.kind n.path n.payload)
  | complete (lease : RunLease) (checkpoint : Checkpoint) : Made (.complete lease checkpoint)
  | prepare (lease : RunLease) (request : EffectRequest) : Made (.prepare lease request)
  | outcome (lease : RunLease) (request : EffectRequest) (receipt : EffectReceipt)
      (kind : String) : Made (.outcome lease request receipt kind)
  | acquire (lease : RunLease) (capability : CapabilityLease) : Made (.acquire lease capability)
  | move (lease : RunLease) (key : String × ℕ) (expected : List LeaseState) (target : LeaseState)
      (disposition : Option Disposition) : Made (.move lease key expected target disposition)
  | meter (lease : RunLease) (key : String × ℕ) (phase : MeteringPhase) :
      Made (.meter lease key phase)
  | dispose (commandId : String) (plan : CapabilityDisposalPlan) : Made (.dispose commandId plan)

/-- A call with what it reads beside the journal. -/
structure MadeCall where
  beside : Beside
  now : Instant
  call : JournalCall
  made : call.Made

/-- The journals the program reaches from an empty store. -/
def Journal.Reachable (w : Wire) (s : Journal) : Prop :=
  Reaches (fun s (c : MadeCall) => s.step w c.beside c.now c.call) .empty s

end Constructicon
