import Constructicon.Json
import Constructicon.Library.Transaction

/-!
# The command ledger

Every mutation of the control plane is one durable command, named by its actor,
operation and idempotency key. A worker claims it for a while, stores its one plan
and makes it terminal with the one response its key replays. The definitions follow
the SQLite store: each is one transaction over a `Ledger`, the `commands` table with
the disposal receipts and run fences a command row is read against.
-/

namespace Constructicon

open Transaction

/-- A reading of a store's clock, in microseconds. -/
abbrev Instant := ℤ

/-- `sha256:` and 64 hexadecimal digits: a digest is its own printed form. -/
abbrev Digest := String

def Digest.body (d : Digest) : String := String.ofList (d.toList.drop 7)

inductive StoreError where
  | valueError
  | contractViolation
  | journalDamaged
  | ownershipLost
  | runAttemptSuperseded
  | cleanupUnresolved
  | checkpointConflict
  | channelReplyConflict
  | channelAckConflict
  | integrityError
deriving DecidableEq, Repr

/-- The characters `str.strip` removes. -/
def isSpace (c : Char) : Bool :=
  let n := c.toNat
  (9 ≤ n && n ≤ 13) || (28 ≤ n && n ≤ 32) || n == 0x85 || n == 0xa0 || n == 0x1680 ||
    (0x2000 ≤ n && n ≤ 0x200a) || n == 0x2028 || n == 0x2029 || n == 0x202f || n == 0x205f ||
    n == 0x3000

/-- `s.strip() == s` -/
def stripped (s : String) : Bool :=
  s.toList.head?.all (fun c => !isSpace c) && s.toList.getLast?.all (fun c => !isSpace c)

/-- `IDEMPOTENCY_KEY_MAX_LENGTH` -/
def idempotencyKeyMaxLength : ℕ := 200

/-- `validate_idempotency_key`: non-empty, without outer blanks, bounded. -/
def ValidIdempotencyKey (key : String) : Prop :=
  key ≠ "" ∧ stripped key ∧ key.length ≤ idempotencyKeyMaxLength

instance (key : String) : Decidable (ValidIdempotencyKey key) :=
  inferInstanceAs (Decidable (_ ∧ _ ∧ _))

inductive AuthMethod where
  | static
  | oauth
deriving DecidableEq, Repr

structure AuthenticatedActor where
  actorId : String
  authMethod : AuthMethod
  scopes : Finset String
  displayName : Option String := none
  issuer : Option String := none
  subject : Option String := none
  clientId : Option String := none
deriving DecidableEq

inductive CommandState where
  | prepared
  | committed
  | rejected
deriving DecidableEq, Repr

/-- One row of `commands`. -/
structure CommandRecord where
  commandId : String
  actor : AuthenticatedActor
  operation : String
  idempotencyKey : String
  requestHash : Digest
  request : Json
  state : CommandState
  plan : Option Json
  response : Option Json
  ownerId : Option String
  ownerEpoch : ℕ
  leaseExpiresAt : Option Instant
  createdAt : Instant
  updatedAt : Instant
  completedAt : Option Instant
deriving DecidableEq

structure CommandClaim where
  commandId : String
  actorId : String
  operation : String
  ownerId : String
  epoch : ℕ
  expiresAt : Instant
deriving DecidableEq

inductive ClaimStatus where
  | claimed
  | replayed
  | inProgress
  | conflict
deriving DecidableEq, Repr

structure CommandClaimResult where
  status : ClaimStatus
  claim : Option CommandClaim := none
  record : Option CommandRecord := none
deriving DecidableEq

/-- The arguments of `claim_command`. -/
structure ClaimRequest where
  actor : AuthenticatedActor
  operation : String
  idempotencyKey : String
  requestHash : Digest
  request : Json
  ownerId : String
  ttl : ℤ
deriving DecidableEq

abbrev Commands := Dict String CommandRecord

abbrev RunId := String

structure CapabilityAcquisitionPair where
  leaseId : String
  acquisitionEpoch : ℕ
deriving DecidableEq, Repr

/-- What the disposal plan of a command fixes: one run at one fence, and the
acquisitions to dispose of there. -/
structure CapabilityDisposalPlan where
  runId : RunId
  manifestHash : Digest
  worldHash : Digest
  ownerEpoch : ℕ
  baselineEventSeq : ℕ
  pairs : List CapabilityAcquisitionPair
  rowBaselineHashes : List Digest
deriving DecidableEq, Repr

structure CapabilityDisposalRecorded where
  commandId : String
  runId : RunId
  manifestHash : Digest
  ownerEpoch : ℕ
  beforeEventSeq : ℕ
  auditEventSeq : ℕ
  pairs : List CapabilityAcquisitionPair
  rowBaselineHashes : List Digest
  transitionEventSeqs : List ℕ
deriving DecidableEq, Repr

/-- The columns of a run that a disposal is fenced by. -/
structure RunFence where
  ownerEpoch : ℕ
  nextEventSeq : ℕ
deriving DecidableEq, Repr

/-- The fence moved past `f`: neither column fell back and one grew. -/
def RunFence.Past (g f : RunFence) : Prop :=
  f.ownerEpoch ≤ g.ownerEpoch ∧ f.nextEventSeq ≤ g.nextEventSeq ∧ g ≠ f

instance (g f : RunFence) : Decidable (g.Past f) := inferInstanceAs (Decidable (_ ∧ _ ∧ _))

/-- A run is claimed `epochs` times and records `events` events. -/
def RunFence.advance (f : RunFence) (epochs events : ℕ) : RunFence :=
  ⟨f.ownerEpoch + epochs, f.nextEventSeq + events⟩

def CapabilityDisposalPlan.fence (plan : CapabilityDisposalPlan) : RunFence :=
  ⟨plan.ownerEpoch, plan.baselineEventSeq⟩

/-- `commands`, the disposal receipt each command owns, and the fence of each run. -/
structure Ledger where
  commands : Commands
  disposals : Dict String CapabilityDisposalRecorded
  fences : Dict RunId RunFence
deriving DecidableEq

def Ledger.empty : Ledger := ⟨Dict.empty, Dict.empty, Dict.empty⟩

/-- What the writers of runs do to the ledger: a fence is created or moves on. -/
def Ledger.advance (s : Ledger) (run : RunId) (epochs events : ℕ) : Ledger :=
  { s with fences := s.fences.insert run ((s.fences.getD run ⟨0, 0⟩).advance epochs events) }

section Identity

variable (h : Hashing Digest)

def commandIdFor (actorId operation idempotencyKey : String) : String :=
  "cmd-" ++ Digest.body (h.digest "control-command" 1 (.obj
    [("actor_id", .str actorId), ("operation", .str operation),
      ("idempotency_key", .str idempotencyKey)]))

def commandRequestHash (request : Json) : Digest := h.digest "control-request" 1 request

def ClaimRequest.commandId (q : ClaimRequest) : String :=
  commandIdFor h q.actor.actorId q.operation q.idempotencyKey

def CommandRecord.derivedId (r : CommandRecord) : String :=
  commandIdFor h r.actor.actorId r.operation r.idempotencyKey

/-- The lifecycle columns of a row agree with its state. -/
def CommandRecord.LifecycleLawful (r : CommandRecord) : Prop :=
  if r.state = .prepared then
    r.response = none ∧ r.completedAt = none ∧ r.ownerId ≠ none ∧ r.leaseExpiresAt ≠ none
  else
    r.response ≠ none ∧ r.plan ≠ none ∧ r.completedAt ≠ none ∧ r.ownerId = none ∧
      r.leaseExpiresAt = none

instance (r : CommandRecord) : Decidable r.LifecycleLawful :=
  inferInstanceAs (Decidable (ite (r.state = .prepared) _ _))

/-- `command_from_row`: every redundant identity of the row agrees. -/
def CommandRecord.Lawful (r : CommandRecord) : Prop :=
  r.LifecycleLawful ∧ ValidIdempotencyKey r.idempotencyKey ∧ r.commandId = r.derivedId h ∧
    r.requestHash = commandRequestHash h r.request

instance (r : CommandRecord) : Decidable (r.Lawful h) :=
  inferInstanceAs (Decidable (_ ∧ _ ∧ _ ∧ _))

end Identity

/-! ## The disposal law of a command row -/

def CapabilityAcquisitionPair.dump (p : CapabilityAcquisitionPair) : Json :=
  .obj [("lease_id", .str p.leaseId), ("acquisition_epoch", .int p.acquisitionEpoch)]

/-- `ControlRejected.one_fault(..).model_dump(mode="json")` -/
def oneFault (code message repair : String) (details : List (String × Json)) : Json :=
  .obj [("schema_version", .int 3), ("status", .str "rejected"),
    ("faults", .arr [.obj [("code", .str code), ("message", .str message),
      ("repair", .str repair), ("details", .obj details)]])]

/-- `capability_disposal_superseded_rejection` -/
def capabilityDisposalSupersededRejection (plan : CapabilityDisposalPlan) : Json :=
  oneFault "control.request.invalid" "capability disposal baseline was superseded"
    "inspect the current run and submit a fresh command key"
    [("run_id", .str plan.runId), ("owner_epoch", .int plan.ownerEpoch),
      ("baseline_event_seq", .int plan.baselineEventSeq),
      ("pairs", .arr (plan.pairs.map CapabilityAcquisitionPair.dump))]

/-- `plan.get("plan").get("kind")` of a stored plan envelope. -/
def planKind : Json → Option String
  | .obj entries =>
    match Dict.find entries "plan" with
    | some (.obj inner) =>
      match Dict.find inner "kind" with
      | some (.str kind) => some kind
      | _ => none
    | _ => none
  | _ => none

/-- The readings of stored JSON that the ledger relies on: the disposal plan of a
command's immutable columns, and whether a response is the typed success of a
receipt. `validated_new_*_command_plan` is `newPlan`. A recorded refusal is no
disposal plan: the decoder reads the kind first. -/
structure Codec where
  disposalPlan : (commandId : String) → AuthenticatedActor → (requestHash : Digest) →
    (request plan : Json) → Option CapabilityDisposalPlan
  disposalResponse : CapabilityDisposalPlan → CapabilityDisposalRecorded → Json → Bool
  newPlan : CommandRecord → Except StoreError Unit
  refusal_no_disposal : ∀ id actor hash request plan, planKind plan = some "control_reject" →
    disposalPlan id actor hash request plan = none

/-- The operation that disposes of capability acquisitions. -/
def disposeOperation : String := "runs_dispose_capabilities"

def Codec.planOf (codec : Codec) (r : CommandRecord) (plan : Json) :
    Option CapabilityDisposalPlan :=
  codec.disposalPlan r.commandId r.actor r.requestHash r.request plan

/-- What a disposal command with this plan owes by its state. -/
def disposalOutcome (codec : Codec) (s : Ledger) (r : CommandRecord)
    (plan : CapabilityDisposalPlan) : Except StoreError Unit :=
  match r.state with
  | .prepared => .ok ()
  | .committed => do
    let receipt ← expect (s.disposals.get? r.commandId) .journalDamaged
    let response ← expect r.response .journalDamaged
    require (codec.disposalResponse plan receipt response) .journalDamaged
  | .rejected => do
    let fence ← expect (s.fences.get? plan.runId) .journalDamaged
    require (s.disposals.get? r.commandId = none) .journalDamaged
    require (fence.Past plan.fence) .journalDamaged
    require (r.response.map Json.canonical =
      some (capabilityDisposalSupersededRejection plan).canonical) .journalDamaged

/-- `_require_disposal_command` -/
def requireDisposalCommand (codec : Codec) (s : Ledger) (r : CommandRecord) :
    Except StoreError Unit :=
  if r.operation ≠ disposeOperation then .ok ()
  else
    match r.plan with
    | none => .ok ()
    | some plan =>
      if planKind plan = some "control_reject" then
        require (s.disposals.get? r.commandId = none) .journalDamaged
      else do
        let plan ← expect (codec.planOf r plan) .journalDamaged
        disposalOutcome codec s r plan

section Sqlite

variable (h : Hashing Digest) (codec : Codec)

/-- `sealed_command_from_row` -/
def sealedCommandFromRow (s : Ledger) (row : CommandRecord) : Except StoreError CommandRecord := do
  require (row.Lawful h) .journalDamaged
  requireDisposalCommand codec s row
  pure row

/-- `command_for_id`: by relational or derived identity, at most one row. -/
def commandForId (s : Ledger) (commandId : String) : Except StoreError (Option CommandRecord) :=
  match s.commands.entries.filter (fun e => e.1 = commandId ∨ e.2.derivedId h = commandId) with
  | [] => .ok none
  | [(_, row)] => do
    let record ← sealedCommandFromRow h codec s row
    require (record.commandId = commandId) .journalDamaged
    pure (some record)
  | _ => .error .journalDamaged

/-- `_command_fenced`: the prepared command this claim still owns. -/
def commandFenced (s : Ledger) (claim : CommandClaim) : Except StoreError CommandRecord := do
  let record ← expect (← commandForId h codec s claim.commandId) .journalDamaged
  require (record.actor.actorId = claim.actorId ∧ record.operation = claim.operation)
    .journalDamaged
  require (record.state = .prepared ∧ record.ownerId = some claim.ownerId ∧
    record.ownerEpoch = claim.epoch) .ownershipLost
  pure record

def Ledger.write (s : Ledger) (id : String) (r : CommandRecord) : Ledger :=
  { s with commands := s.commands.insert id r }

/-- The stored command answers another request than this one. -/
def CommandRecord.Conflicts (r : CommandRecord) (q : ClaimRequest) : Prop :=
  r.actor.actorId ≠ q.actor.actorId ∨ r.operation ≠ q.operation ∨
    r.idempotencyKey ≠ q.idempotencyKey ∨ r.requestHash ≠ q.requestHash ∨
    r.request.canonical ≠ q.request.canonical

instance (r : CommandRecord) (q : ClaimRequest) : Decidable (r.Conflicts q) :=
  inferInstanceAs (Decidable (_ ∨ _ ∨ _ ∨ _ ∨ _))

/-- A worker still holds the command at `now`. -/
def CommandRecord.Leased (r : CommandRecord) (now : Instant) : Prop :=
  ∃ expires ∈ r.leaseExpiresAt, now < expires

instance (r : CommandRecord) (now : Instant) : Decidable (r.Leased now) :=
  inferInstanceAs (Decidable (∃ expires ∈ r.leaseExpiresAt, now < expires))

def ClaimRequest.claimAt (q : ClaimRequest) (now : Instant) (epoch : ℕ) : CommandClaim where
  commandId := q.commandId h
  actorId := q.actor.actorId
  operation := q.operation
  ownerId := q.ownerId
  epoch := epoch
  expiresAt := now + q.ttl

def ClaimRequest.freshRecord (q : ClaimRequest) (now : Instant) : CommandRecord where
  commandId := q.commandId h
  actor := q.actor
  operation := q.operation
  idempotencyKey := q.idempotencyKey
  requestHash := q.requestHash
  request := q.request.canonical
  state := .prepared
  plan := none
  response := none
  ownerId := some q.ownerId
  ownerEpoch := 1
  leaseExpiresAt := some (now + q.ttl)
  createdAt := now
  updatedAt := now
  completedAt := none

/-- The row after an expired claim is taken over. -/
def CommandRecord.reclaimed (r : CommandRecord) (q : ClaimRequest) (now : Instant) :
    CommandRecord :=
  { r with
    ownerId := some q.ownerId
    ownerEpoch := r.ownerEpoch + 1
    leaseExpiresAt := some (now + q.ttl)
    updatedAt := now }

def ClaimRequest.Valid (q : ClaimRequest) : Prop :=
  ValidIdempotencyKey q.idempotencyKey ∧ q.requestHash = commandRequestHash h q.request

instance (q : ClaimRequest) : Decidable (q.Valid h) :=
  inferInstanceAs (Decidable (_ ∧ _))

/-- `claim_command` -/
def claimCommand (now : Instant) (s : Ledger) (q : ClaimRequest) :
    Except StoreError (CommandClaimResult × Ledger) := do
  require (q.Valid h) .valueError
  match ← commandForId h codec s (q.commandId h) with
  | none =>
    pure ({ status := .claimed, claim := some (q.claimAt h now 1) },
      s.write (q.commandId h) (q.freshRecord h now))
  | some record =>
    if record.Conflicts q then
      pure ({ status := .conflict, record := some record }, s)
    else if record.state ≠ .prepared then
      pure ({ status := .replayed, record := some record }, s)
    else if record.Leased now then
      pure ({ status := .inProgress, record := some record }, s)
    else
      -- the answer carries the row as it stood before the takeover
      pure ({ status := .claimed, claim := some (q.claimAt h now (record.ownerEpoch + 1)),
              record := some record },
        s.write (q.commandId h) (record.reclaimed q now))

def CommandRecord.planned (r : CommandRecord) (plan : Json) (now : Instant) : CommandRecord :=
  { r with plan := some plan.canonical, updatedAt := now }

/-- `store_command_plan`: the first plan is sealed, an equal one is a repetition. -/
def storeCommandPlan (now : Instant) (s : Ledger) (claim : CommandClaim) (plan : Json) :
    Except StoreError (Unit × Ledger) := do
  require (plan ≠ .null) .valueError
  let record ← commandFenced h codec s claim
  match record.plan with
  | some stored =>
    require (stored.canonical = plan.canonical) .journalDamaged
    pure ((), s)
  | none =>
    codec.newPlan (record.planned plan now)
    requireDisposalCommand codec s (record.planned plan now)
    pure ((), s.write claim.commandId (record.planned plan now))

def CommandRecord.terminated (r : CommandRecord) (state : CommandState) (response : Json)
    (now : Instant) : CommandRecord :=
  { r with
    state := state
    response := some response.canonical
    ownerId := none
    leaseExpiresAt := none
    updatedAt := now
    completedAt := some now }

/-- `_domain_fact_owned_by` is asked before a rejection only; `owned` is what it answers. -/
def refuseOwnedFact (owned : CommandRecord → Except StoreError (Option String))
    (state : CommandState) (existing : CommandRecord) : Except StoreError Unit :=
  if state = .rejected then do
    require ((← owned existing) = none) .journalDamaged
  else .ok ()

/-- `_terminal_command` -/
def terminalCommand (owned : CommandRecord → Except StoreError (Option String)) (now : Instant)
    (s : Ledger) (claim : CommandClaim) (response : Json) (state : CommandState) :
    Except StoreError (CommandRecord × Ledger) := do
  require (response ≠ .null) .valueError
  let existing ← expect (← commandForId h codec s claim.commandId) .journalDamaged
  refuseOwnedFact owned state existing
  if existing.state ≠ .prepared then do
    require (existing.state = state ∧
      existing.response.map Json.canonical = some response.canonical) .journalDamaged
    pure (existing, s)
  else do
    let fenced ← commandFenced h codec s claim
    require (fenced.plan ≠ none) .journalDamaged
    let updated ← sealedCommandFromRow h codec s (fenced.terminated state response now)
    pure (updated, s.write claim.commandId updated)

def completeCommand (owned : CommandRecord → Except StoreError (Option String)) (now : Instant)
    (s : Ledger) (claim : CommandClaim) (response : Json) :
    Except StoreError (CommandRecord × Ledger) :=
  terminalCommand h codec owned now s claim response .committed

def rejectCommand (owned : CommandRecord → Except StoreError (Option String)) (now : Instant)
    (s : Ledger) (claim : CommandClaim) (response : Json) :
    Except StoreError (CommandRecord × Ledger) :=
  terminalCommand h codec owned now s claim response .rejected

/-- The receipt a disposal at its planned fence leaves. -/
def CapabilityDisposalPlan.receipt (plan : CapabilityDisposalPlan) (commandId : String) :
    CapabilityDisposalRecorded where
  commandId := commandId
  runId := plan.runId
  manifestHash := plan.manifestHash
  ownerEpoch := plan.ownerEpoch
  beforeEventSeq := plan.baselineEventSeq
  auditEventSeq := plan.baselineEventSeq + plan.pairs.length + 1
  pairs := plan.pairs
  rowBaselineHashes := plan.rowBaselineHashes
  transitionEventSeqs := (List.range plan.pairs.length).map (plan.baselineEventSeq + 1 + ·)

inductive DisposalOutcome where
  | recorded (receipt : CapabilityDisposalRecorded)
  | superseded
deriving DecidableEq

/-- `capability_disposal_apply`. `intact` says that the rest of the planned baseline
(an idle `RUNNING` run, its world and its active rows) is as the plan found it. -/
def capabilityDisposalApply (intact : Bool) (s : Ledger) (claim : CommandClaim) :
    Except StoreError (DisposalOutcome × Ledger) := do
  let command ← commandFenced h codec s claim
  require (command.operation = disposeOperation) .journalDamaged
  let raw ← expect command.plan .journalDamaged
  let plan ← expect (codec.planOf command raw) .journalDamaged
  match s.disposals.get? command.commandId with
  | some previous => pure (.recorded previous, s)
  | none =>
    let fence ← expect (s.fences.get? plan.runId) .journalDamaged
    require (plan.ownerEpoch ≤ fence.ownerEpoch ∧ plan.baselineEventSeq ≤ fence.nextEventSeq)
      .journalDamaged
    if fence ≠ plan.fence then pure (.superseded, s)
    else do
      require intact .journalDamaged
      let receipt := plan.receipt command.commandId
      pure (.recorded receipt,
        { s with
          disposals := s.disposals.insert command.commandId receipt
          fences := s.fences.insert plan.runId ⟨plan.ownerEpoch, receipt.auditEventSeq⟩ })

end Sqlite

end Constructicon
