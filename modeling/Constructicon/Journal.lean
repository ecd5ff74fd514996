import Constructicon.Manifest
import Constructicon.Commands

/-!
# The execution journal

The tables of the run journal and its strict readers. A fact stands in its own row
and, independently, in a write-once seal; every reader proves the row against the
seal and against the events that tell the same history. The readers reach other
tables too (commands, manifests, disposal and metering relations); what they answer
there is a `Beside`.
-/

namespace Constructicon

open Transaction

structure IterationFrame where
  loop : ScopePath
  index : ℕ
deriving DecidableEq, Repr

structure ExecutionPath where
  scope : ScopePath
  iterations : List IterationFrame := []
deriving DecidableEq, Repr

def IterationFrame.dump (f : IterationFrame) : Json :=
  .obj [("index", .int f.index), ("loop", f.loop.dump)]

/-- `canonical_json(path.model_dump(mode="json"))`, keys already sorted. -/
def ExecutionPath.dump (p : ExecutionPath) : Json :=
  .obj [("iterations", .arr (p.iterations.map IterationFrame.dump)), ("scope", p.scope.dump)]

inductive RunStatus where
  | pending
  | running
  | succeeded
  | failed
  | cancelled
  | parked
deriving DecidableEq, Repr

/-- `TERMINAL_EVENT_STATUSES` -/
def terminalEventStatuses : Dict String RunStatus :=
  ⟨[("RunSucceeded", .succeeded), ("RunFailed", .failed), ("RunParked", .parked),
    ("RunCancelled", .cancelled)]⟩

/-- `TERMINAL_STATUS_EVENTS` -/
def terminalStatusEvents : RunStatus → Option String
  | .succeeded => some "RunSucceeded"
  | .failed => some "RunFailed"
  | .parked => some "RunParked"
  | .cancelled => some "RunCancelled"
  | .pending => none
  | .running => none

/-- The columns of `runs` that change, and the manifest a run is bound to. -/
structure RunRow where
  manifestHash : Digest
  status : RunStatus
  ownerId : Option String
  ownerEpoch : ℕ
  leaseExpiresAt : Option Instant
  heartbeatAt : Option Instant
  nextEventSeq : ℕ
  cancelRequested : Bool
deriving DecidableEq, Repr

/-- The authority to write a run: owner and epoch are the fence. -/
structure RunLease where
  runId : RunId
  ownerId : String
  epoch : ℕ
  expiresAt : Instant
deriving DecidableEq, Repr

structure EventRow where
  runId : RunId
  seq : ℕ
  kind : String
  path : Option ExecutionPath
  payload : Option Json
  createdAt : Instant
deriving DecidableEq

/-- The durable outputs of one invocation; an envelope is its payload and the rest. -/
structure Checkpoint where
  runId : RunId
  path : ExecutionPath
  inputHash : Digest
  resolvedVersion : Option Digest
  outputs : List (String × Json × Json)
deriving DecidableEq

inductive EffectMode where
  | live
  | simulated
deriving DecidableEq, Repr

structure EffectRequest where
  runId : RunId
  manifestHash : Digest
  path : ExecutionPath
  kind : String
  subject : Json
  idempotencyKey : Digest
  attestationId : Option String
  mode : EffectMode
deriving DecidableEq

inductive ReceiptStatus where
  | committed
  | rejected
  | unknown
  | simulated
deriving DecidableEq, Repr

structure EffectReceipt where
  requestHash : Digest
  status : ReceiptStatus
  externalReference : Option String
  observedState : Option Json
deriving DecidableEq

/-- One row of `effects`. -/
structure EffectRow where
  runId : RunId
  request : EffectRequest
  preparedAt : Instant
  receipt : Option EffectReceipt
  receiptedAt : Option Instant
  outcome : Option (RunId × ℕ)
deriving DecidableEq

inductive LeaseState where
  | active
  | closed
  | lost
deriving DecidableEq, Repr

inductive Disposition where
  | released
  | discarded
deriving DecidableEq, Repr

structure CapabilityLease where
  leaseId : String
  acquisitionEpoch : ℕ
  runId : RunId
  bindingId : String
  path : ExecutionPath
  state : LeaseState
  disposition : Option Disposition
  resourceRef : Option String
deriving DecidableEq

structure LeaseRow where
  lease : CapabilityLease
  createdAt : Instant
  updatedAt : Instant
deriving DecidableEq

inductive SealFamily where
  | event
  | checkpoint
  | effectPreparation
  | resumeAttempt
deriving DecidableEq, Repr

structure FactSeal where
  family : SealFamily
  key : Json
  selector : Json
  hash : Digest
deriving DecidableEq

structure Journal where
  runs : Dict RunId RunRow
  events : List EventRow
  checkpoints : List Checkpoint
  effects : Dict Digest EffectRow
  leases : Dict (String × ℕ) LeaseRow
  seals : List FactSeal
deriving DecidableEq

def Journal.empty : Journal := ⟨Dict.empty, [], [], Dict.empty, Dict.empty, []⟩

/-- The printing of identities: the hash, and `datetime.isoformat`. -/
structure Wire where
  hashing : Hashing Digest
  iso : Instant → String

/-- What the tables outside the journal answer during one call. -/
structure Beside where
  /-- the immutable world of a run, its integrity flags and eras -/
  world : RunId → Except StoreError Unit
  /-- the command named as the cause of an attempt event: the relation's hash -/
  attempt : EventRow → String → Except StoreError Digest
  /-- the disposal, lost-acquisition and metering relations of an event -/
  related : EventRow → Except StoreError Unit
  /-- attestations and channel facts an effect request names -/
  effect : EffectRequest → Except StoreError Unit
  /-- lost-accounting provenance of an acquisition -/
  provenance : LeaseRow → Except StoreError Unit
  /-- an administrative disposal bars a worker from a lost acquisition -/
  disposed : LeaseRow → Except StoreError Unit
  /-- a metering phase already recorded for an acquisition: its event's sequence -/
  metered : LeaseRow → Except StoreError (Option ℕ)

def Json.field (j : Json) (key : String) : Option Json :=
  match j with
  | .obj entries => Dict.find entries key
  | _ => none

def Json.text : Json → Option String
  | .str s => some s
  | _ => none

/-! ## Seals -/

section Seals

/-- `durable_fact_seal`: by key or selector, detecting a split row. -/
def durableFactSeal (seals : List FactSeal) (family : SealFamily) (key selector : Option Json) :
    Except StoreError (Option FactSeal) :=
  match seals.filter (fun x => x.family = family ∧ (some x.key = key ∨ some x.selector = selector))
    with
  | [] => .ok none
  | [x] => do
    require (key = none ∨ some x.key = key) .journalDamaged
    require (selector = none ∨ some x.selector = selector) .journalDamaged
    pure (some x)
  | _ => .error .journalDamaged

variable (w : Wire)

def SealFamily.text : SealFamily → String
  | .event => "event"
  | .checkpoint => "checkpoint"
  | .effectPreparation => "effect_preparation"
  | .resumeAttempt => "resume_attempt"

def durableFactHash (family : SealFamily) (fields : Json) : Digest :=
  w.hashing.digest "durable-fact-seal" 1
    (.obj [("family", .str family.text), ("exact_fields", fields)])

/-- `sealed_fact_hash` -/
def sealedFactHash (family : SealFamily) (key selector : Json) (fact : Digest) : Digest :=
  w.hashing.digest "durable-fact-seal-identity" 1
    (.obj [("family", .str family.text), ("fact_key", key), ("selector", selector),
      ("fact", .str fact)])

def factSeal (family : SealFamily) (key selector : Json) (fact : Digest) : FactSeal :=
  ⟨family, key, selector, sealedFactHash w family key selector fact⟩

/-- `require_durable_fact_seal` -/
def requireDurableFactSeal (seals : List FactSeal) (family : SealFamily) (key selector : Json)
    (fact : Digest) : Except StoreError Unit := do
  let x ← expect (← durableFactSeal seals family (some key) (some selector)) .journalDamaged
  require (x.hash = sealedFactHash w family key selector fact) .journalDamaged

/-- `store_durable_fact_seal` -/
def storeDurableFactSeal (seals : List FactSeal) (family : SealFamily) (key selector : Json)
    (fact : Digest) : Except StoreError (List FactSeal) := do
  match ← durableFactSeal seals family (some key) (some selector) with
  | some prior =>
    require (prior.hash = sealedFactHash w family key selector fact) .journalDamaged
    pure seals
  | none => pure (seals ++ [factSeal w family key selector fact])

end Seals

/-! ## Events -/

section Events

variable (w : Wire)

def eventFactKey (run : RunId) (seq : ℕ) : Json := .obj [("run_id", .str run), ("seq", .int seq)]

def eventSelector (run : RunId) (seq : ℕ) : Json := .obj [("event", eventFactKey run seq)]

/-- `event_fact_hash`: every exact scalar of the row. -/
def eventFactHash (e : EventRow) : Digest :=
  durableFactHash w .event (.obj [("run_id", .str e.runId), ("seq", .int e.seq),
    ("kind", .str e.kind), ("path_json", (e.path.map ExecutionPath.dump).getD .null),
    ("payload", e.payload.getD .null), ("created_at", .str (w.iso e.createdAt))])

def eventSeal (e : EventRow) : FactSeal :=
  factSeal w .event (eventFactKey e.runId e.seq) (eventSelector e.runId e.seq) (eventFactHash w e)

inductive AttemptCauseKind where
  | resumeCommand
  | channelReply
deriving DecidableEq, Repr

structure AttemptCause where
  kind : AttemptCauseKind
  id : String
deriving DecidableEq, Repr

def AttemptCause.payload (c : AttemptCause) : List (String × Json) :=
  match c.kind with
  | .resumeCommand => [("resume_command_id", .str c.id)]
  | .channelReply => [("reply_message_id", .str c.id)]

/-- `AttemptCause.from_payload` -/
def AttemptCause.fromPayload (payload : Option Json) : Except StoreError (Option AttemptCause) :=
  match (payload.bind (Json.field · "resume_command_id")),
      (payload.bind (Json.field · "reply_message_id")) with
  | some _, some _ => .error .journalDamaged
  | some (.str id), none => do
    require (id ≠ "" ∧ stripped id) .journalDamaged
    pure (some ⟨.resumeCommand, id⟩)
  | none, some (.str id) => do
    require (id ≠ "" ∧ stripped id) .journalDamaged
    pure (some ⟨.channelReply, id⟩)
  | none, none => .ok none
  | _, _ => .error .journalDamaged

def resumeCause : Option AttemptCause → Option String
  | some ⟨.resumeCommand, id⟩ => some id
  | _ => none

/-- `_stored_event_from_row_without_relationship` -/
def storedEventWithoutRelationship (s : Journal) (e : EventRow) : Except StoreError Unit :=
  requireDurableFactSeal w s.seals .event (eventFactKey e.runId e.seq)
    (eventSelector e.runId e.seq) (eventFactHash w e)

/-- `_require_resume_attempt_relationship` -/
def requireResumeAttemptRelationship (b : Beside) (s : Journal) (e : EventRow) :
    Except StoreError Unit := do
  let cause ← AttemptCause.fromPayload e.payload
  match resumeCause cause with
  | some id =>
    let fact ← b.attempt e id
    requireDurableFactSeal w s.seals .resumeAttempt (.str id) (eventFactKey e.runId e.seq) fact
  | none =>
    let found ← durableFactSeal s.seals .resumeAttempt none (some (eventFactKey e.runId e.seq))
    require (found = none) .journalDamaged

/-- The kinds whose events carry a relation of their own. -/
def disposalEvent : String := "CapabilityDisposalRecorded"

def meteringEvent : String := "ExecutorMetering"

def EventRow.Lost (e : EventRow) : Prop :=
  e.kind = "LeaseTransition" ∧ e.payload.bind (Json.field · "to") = some (.str "lost")

instance (e : EventRow) : Decidable e.Lost := inferInstanceAs (Decidable (_ ∧ _))

/-- `stored_event_from_row` -/
def storedEventFromRow (b : Beside) (s : Journal) (e : EventRow) : Except StoreError Unit := do
  storedEventWithoutRelationship w s e
  requireResumeAttemptRelationship w b s e
  if e.kind = disposalEvent ∨ e.Lost ∨ e.kind = meteringEvent then b.related e else .ok ()

end Events

/-! ## Runs -/

section Runs

variable (w : Wire)

def Journal.eventsOf (s : Journal) (run : RunId) : List EventRow :=
  s.events.filter (fun e => e.runId = run)

def Journal.eventAt (s : Journal) (run : RunId) (seq : ℕ) : Option EventRow :=
  s.events.find? (fun e => e.runId = run ∧ e.seq = seq)

/-- `validated_event_fence`: count, minimum and maximum against the allocation fence,
and no seal where the next event will stand. -/
def validatedEventFence (s : Journal) (run : RunId) (fence : ℕ) : Except StoreError Unit := do
  let seqs := (s.eventsOf run).map EventRow.seq
  require (seqs.length = fence ∧ seqs.min?.getD 0 = (if fence = 0 then 0 else 1) ∧
    seqs.max?.getD 0 = fence) .journalDamaged
  let orphan ← durableFactSeal s.seals .event (some (eventFactKey run (fence + 1))) none
  require (orphan = none) .journalDamaged

def LifecycleLawful (status : RunStatus) (fence : ℕ) (kind : Option String) (newer : Bool) : Prop :=
  if status = .pending then fence = 0 ∧ kind = none ∧ newer = false
  else newer = false ∧ ∃ k ∈ kind,
    if status = .running then 0 < fence ∧ terminalEventStatuses.get? k = none
    else terminalStatusEvents status = some k

instance (status : RunStatus) (fence : ℕ) (kind : Option String) (newer : Bool) :
    Decidable (LifecycleLawful status fence kind newer) :=
  inferInstanceAs (Decidable (ite (status = .pending) _ _))

def latestEvent (b : Beside) (s : Journal) (run : RunId) (row : RunRow) :
    Except StoreError Unit :=
  if row.status ≠ .pending then do
    let e ← expect (s.eventAt run row.nextEventSeq) .journalDamaged
    storedEventFromRow w b s e
  else .ok ()

/-- `run_facts_for_id`: the world, the event extent, the latest event and the lifecycle. -/
def runFacts (b : Beside) (s : Journal) (run : RunId) (row : RunRow) : Except StoreError Unit := do
  b.world run
  validatedEventFence s run row.nextEventSeq
  latestEvent w b s run row
  require (LifecycleLawful row.status row.nextEventSeq
    ((s.eventAt run row.nextEventSeq).map EventRow.kind)
    ((s.eventsOf run).any (fun e => row.nextEventSeq < e.seq))) .journalDamaged

/-- `_run_mutation_row` -/
def runMutationRow (b : Beside) (s : Journal) (run : RunId) : Except StoreError (Option RunRow) :=
  match s.runs.get? run with
  | none => do
    b.world run
    pure none
  | some row => do
    runFacts w b s run row
    pure (some row)

def RunRow.HeldBy (row : RunRow) (lease : RunLease) : Prop :=
  row.ownerId = some lease.ownerId ∧ row.ownerEpoch = lease.epoch

instance (row : RunRow) (lease : RunLease) : Decidable (row.HeldBy lease) :=
  inferInstanceAs (Decidable (_ ∧ _))

/-- `_allocate_seq`, the fence: the row whose next sequence number may be taken. -/
def allocateSeq (b : Beside) (s : Journal) (lease : RunLease) (expected : List RunStatus) :
    Except StoreError RunRow := do
  let row ← expect (← runMutationRow w b s lease.runId) .ownershipLost
  require (row.status ∈ expected) .contractViolation
  require (row.HeldBy lease) .ownershipLost
  pure row

end Runs

end Constructicon
