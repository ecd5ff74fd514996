import Constructicon.Journal

/-!
# The strict readers of completions, effects and acquisitions

Each reader re-derives what the writers should have left: the completion event of a
checkpoint, the one outcome event of a receipt, the event chain that ends in the
state of an acquisition. Any disagreement is damage.
-/

namespace Constructicon

open Transaction

/-! ## Checkpoints -/

section Checkpoints

variable (w : Wire)

/-- `_checkpoint_identity`: the envelopes' payloads, without their metadata. -/
def checkpointIdentity (c : Checkpoint) : Digest :=
  w.hashing.digest "checkpoint-identity" 1 (.obj [("input_hash", .str c.inputHash),
    ("resolved_version", Json.optStr c.resolvedVersion),
    ("outputs", .obj (c.outputs.map (fun o => (o.1, o.2.1))))])

def checkpointPosition (run : RunId) (path : ExecutionPath) : Json :=
  .obj [("path_key", path.dump), ("run_id", .str run)]

def checkpointFactKey (run : RunId) (path : ExecutionPath) : Json :=
  .obj [("checkpoint_row", checkpointPosition run path)]

def checkpointPayloadSelector (run : RunId) (path : ExecutionPath) : Json :=
  .obj [("checkpoint_payload", checkpointPosition run path)]

/-- `checkpoint_fact_hash` -/
def checkpointFactHash (c : Checkpoint) : Digest :=
  durableFactHash w .checkpoint (.obj [("run_id", .str c.runId), ("path_key", c.path.dump),
    ("identity", .str (checkpointIdentity w c)),
    ("checkpoint_json", .obj [("run_id", .str c.runId), ("path", c.path.dump),
      ("input_hash", .str c.inputHash), ("resolved_version", Json.optStr c.resolvedVersion),
      ("outputs", .obj (c.outputs.map (fun o =>
        (o.1, .obj [("payload", o.2.1), ("rest", o.2.2)]))))])])

def checkpointSeal (c : Checkpoint) : FactSeal :=
  factSeal w .checkpoint (checkpointFactKey c.runId c.path)
    (checkpointPayloadSelector c.runId c.path) (checkpointFactHash w c)

def Journal.completionsAt (s : Journal) (run : RunId) (path : ExecutionPath) : List EventRow :=
  s.events.filter (fun e => e.runId = run ∧ e.kind = "NodeCompleted" ∧ e.path = some path)

/-- `stored_checkpoint_for`: one checkpoint and the completion event that proves it. -/
def storedCheckpointFor (b : Beside) (s : Journal) (run : RunId) (path : ExecutionPath) :
    Except StoreError (Option Checkpoint) := do
  let found ← durableFactSeal s.seals .checkpoint (some (checkpointFactKey run path))
    (some (checkpointPayloadSelector run path))
  match s.checkpoints.filter (fun c => c.runId = run ∧ c.path = path),
      s.completionsAt run path with
  | [], [] =>
    require (found = none) .journalDamaged
    pure none
  | [c], [e] =>
    requireDurableFactSeal w s.seals .checkpoint (checkpointFactKey run path)
      (checkpointPayloadSelector run path) (checkpointFactHash w c)
    storedEventFromRow w b s e
    pure (some c)
  | _, _ => .error .journalDamaged

/-- `validate_checkpoint_seal_inventory` -/
def validateCheckpointSealInventory (b : Beside) (s : Journal) : Except StoreError Unit := do
  s.checkpoints.forM (fun c => do
    let _ ← storedCheckpointFor w b s c.runId c.path
    pure ())
  let completions := s.events.filter (fun e => e.kind = "NodeCompleted")
  completions.forM (fun e => do
    storedEventFromRow w b s e
    require (e.path ≠ none) .journalDamaged)
  let rows : List (RunId × Option ExecutionPath) := s.checkpoints.map (fun c => (c.runId, some c.path))
  let proofs : List (RunId × Option ExecutionPath) := completions.map (fun e => (e.runId, e.path))
  require (rows.Nodup ∧ proofs.Nodup ∧ rows ⊆ proofs ∧ proofs ⊆ rows) .journalDamaged

end Checkpoints

/-! ## Effects -/

section Effects

variable (w : Wire)

/-- `idempotency_key`: live and simulated requests are kept apart by their domain. -/
def effectIdempotencyKey (manifestHash : Digest) (path : ExecutionPath) (kind : String) (subject : Json)
    (mode : EffectMode) : Digest :=
  let payload : Json := .obj [("manifest_hash", .str manifestHash), ("path", path.dump),
    ("kind", .str kind), ("subject", subject)]
  match mode with
  | .live => w.hashing.digest "idempotency" 1 payload
  | .simulated => w.hashing.digest "idempotency-simulated" 1 payload

/-- `_effect_request_key` -/
def EffectRequest.derivedKey (r : EffectRequest) : Digest :=
  effectIdempotencyKey w r.manifestHash r.path r.kind r.subject r.mode

def EffectMode.text : EffectMode → String
  | .live => "live"
  | .simulated => "simulated"

def EffectRequest.dump (r : EffectRequest) : Json :=
  .obj [("run_id", .str r.runId), ("manifest_hash", .str r.manifestHash), ("path", r.path.dump),
    ("kind", .str r.kind), ("subject", r.subject), ("idempotency_key", .str r.idempotencyKey),
    ("attestation_id", Json.optStr r.attestationId), ("mode", .str r.mode.text)]

/-- The request up to the key order of its subject: what `canonical_json` prints. -/
def EffectRequest.canonical (r : EffectRequest) : EffectRequest :=
  { r with subject := r.subject.canonical }

def ReceiptStatus.text : ReceiptStatus → String
  | .committed => "committed"
  | .rejected => "rejected"
  | .unknown => "unknown"
  | .simulated => "simulated"

def EffectReceipt.dump (r : EffectReceipt) : Json :=
  .obj [("request_hash", .str r.requestHash), ("status", .str r.status.text),
    ("external_reference", Json.optStr r.externalReference),
    ("observed_state", r.observedState.getD .null)]

def EffectReceipt.canonical (r : EffectReceipt) : EffectReceipt :=
  { r with observedState := r.observedState.map Json.canonical }

/-- `request_hash` of an effect request. -/
def effectRequestHash (r : EffectRequest) : Digest := w.hashing.digest "effect-request" 1 r.dump

def effectReceiptHash (r : EffectReceipt) : Digest := w.hashing.digest "effect-receipt" 1 r.dump

/-- `_effect_event_kind` -/
def effectEventKind : ReceiptStatus → String
  | .committed => "EffectCommitted"
  | .rejected => "EffectRejected"
  | .simulated => "EffectSimulated"
  | .unknown => "EffectUnresolved"

/-- `_effect_outcome_payload` -/
def effectOutcomePayload (request : EffectRequest) (receipt : EffectReceipt) : Json :=
  .obj [("kind", .str request.kind), ("idempotency_key", .str request.idempotencyKey),
    ("request_hash", .str (effectRequestHash w request)),
    ("receipt_hash", .str (effectReceiptHash w receipt))]

/-- `_effect_key_from_event_payload` -/
def effectEventKey (e : EventRow) : Option Digest :=
  (e.payload.bind (Json.field · "idempotency_key")).bind Json.text

def Journal.effectEventRows (s : Journal) (key : Digest) : List EventRow :=
  s.events.filter (fun e => effectEventKey e = some key)

def effectPreparationFactHash (key : Digest) (row : EffectRow) : Digest :=
  durableFactHash w .effectPreparation (.obj [("idempotency_key", .str key),
    ("run_id", .str row.runId), ("request_json", row.request.dump),
    ("prepared_at", .str (w.iso row.preparedAt))])

def effectPreparationSeal (key : Digest) (row : EffectRow) : FactSeal :=
  factSeal w .effectPreparation (.str key) (.str key) (effectPreparationFactHash w key row)

/-- `_effect_row`: by relational or request-derived identity, before deciding absence. -/
def effectRow (s : Journal) (key : Digest) : Except StoreError (Option (Digest × EffectRow)) :=
  match s.effects.entries.filter (fun e => e.1 = key ∨ e.2.request.derivedKey w = key) with
  | [] => do
    let preparation ← durableFactSeal s.seals .effectPreparation (some (.str key)) (some (.str key))
    require (s.effectEventRows key = []) .journalDamaged
    require (preparation = none) .journalDamaged
    pure none
  | [entry] => .ok (some entry)
  | _ => .error .journalDamaged

/-- `_validate_effect_lifecycle`: prepared without any outcome, or closed by exactly
one outcome event at the pointer. -/
def validateEffectLifecycle (b : Beside) (s : Journal) (row : EffectRow) :
    Except StoreError Unit := do
  let key := row.request.idempotencyKey
  let rows := s.effectEventRows key
  require (rows.length ≤ 1) .journalDamaged
  match row.receipt with
  | none => require (row.outcome = none ∧ rows = []) .journalDamaged
  | some receipt =>
    let pointer ← expect row.outcome .journalDamaged
    let receiptedAt ← expect row.receiptedAt .journalDamaged
    let e ← expect (s.eventAt pointer.1 pointer.2) .journalDamaged
    storedEventFromRow w b s e
    require (rows.map (fun e => (e.runId, e.seq)) = [(e.runId, e.seq)] ∧ e.runId = pointer.1 ∧
      e.seq = pointer.2 ∧
      (e.kind = effectEventKind receipt.status ∨ e.kind = "EffectReconciled") ∧
      e.path = some row.request.path ∧ e.createdAt = receiptedAt ∧
      e.payload.map Json.canonical = some (effectOutcomePayload w row.request receipt).canonical)
      .journalDamaged

/-- `_effect_receipt_from_row` -/
def effectReceiptFromRow (row : EffectRow) : Except StoreError (Option EffectReceipt) :=
  match row.receipt with
  | none => .ok none
  | some receipt => do
    require (receipt.requestHash = effectRequestHash w row.request) .journalDamaged
    pure (some receipt)

/-- `_effect_request_from_row` -/
def effectRequestFromRow (b : Beside) (s : Journal) (key : Digest) (row : EffectRow) :
    Except StoreError EffectRequest := do
  require (row.receipt = none ↔ row.receiptedAt = none) .journalDamaged
  let run ← expect (← runMutationRow w b s row.runId) .journalDamaged
  let request := row.request
  require (request.manifestHash = run.manifestHash) .journalDamaged
  require (request.idempotencyKey = key ∧ request.runId = row.runId ∧
    request.idempotencyKey = request.derivedKey w) .journalDamaged
  b.effect request
  requireDurableFactSeal w s.seals .effectPreparation (.str key) (.str key)
    (effectPreparationFactHash w key row)
  let _ ← effectReceiptFromRow w row
  validateEffectLifecycle w b s row
  pure request

/-- `receipt_for` -/
def receiptFor (b : Beside) (s : Journal) (key : Digest) :
    Except StoreError (Option EffectReceipt) := do
  match ← effectRow w s key with
  | none => pure none
  | some entry =>
    let request ← effectRequestFromRow w b s entry.1 entry.2
    require (request.idempotencyKey = key) .journalDamaged
    effectReceiptFromRow w entry.2

end Effects

/-! ## Acquisitions -/

section Acquisitions

variable (w : Wire)

/-- `lease_id_for` -/
def leaseIdFor (run : RunId) (path : ExecutionPath) (bindingId : String) : String :=
  "lease-" ++ String.ofList ((Digest.body (w.hashing.digest "capability-lease" 2
    (.obj [("run_id", .str run), ("path", path.dump), ("binding", .str bindingId)]))).toList.take 32)

def LeaseState.text : LeaseState → String
  | .active => "active"
  | .closed => "closed"
  | .lost => "lost"

def LeaseState.ofText (s : String) : Option LeaseState :=
  [LeaseState.active, .closed, .lost].find? (fun x => x.text = s)

def Disposition.text : Disposition → String
  | .released => "released"
  | .discarded => "discarded"

/-- A stored disposition: `null` or one of the two words. -/
def Disposition.ofJson (j : Json) : Option (Option Disposition) :=
  match j with
  | .null => some none
  | .str s => ([Disposition.released, .discarded].find? (fun x => x.text = s)).map some
  | _ => none

def Disposition.toJson (d : Option Disposition) : Json := Json.optStr (d.map Disposition.text)

/-- `_lease_event_identity_from_payload` -/
def leaseEventIdentity (payload : Option Json) : Option (String × ℕ) :=
  match payload.bind (Json.field · "lease_id"), payload.bind (Json.field · "acquisition_epoch") with
  | some (.str id), some (.int epoch) => if 0 < epoch then some (id, epoch.toNat) else none
  | _, _ => none

def CapabilityLease.key (l : CapabilityLease) : String × ℕ := (l.leaseId, l.acquisitionEpoch)

/-- The event belongs to the history of an acquisition. -/
def EventRow.OfLease (e : EventRow) (key : String × ℕ) : Prop :=
  (e.kind = "LeaseAcquired" ∨ e.kind = "LeaseTransition") ∧ leaseEventIdentity e.payload = some key

instance (e : EventRow) (key : String × ℕ) : Decidable (e.OfLease key) :=
  inferInstanceAs (Decidable (_ ∧ _))

def acquiredPayload (l : CapabilityLease) (at' : Instant) : Json :=
  .obj [("lease_id", .str l.leaseId), ("acquisition_epoch", .int l.acquisitionEpoch),
    ("binding", .str l.bindingId), ("resource_ref", Json.optStr l.resourceRef),
    ("observed_at", .str (w.iso at'))]

def transitionPayload (key : String × ℕ) (source target : LeaseState)
    (disposition : Option Disposition) (at' : Instant) : Json :=
  .obj [("lease_id", .str key.1), ("acquisition_epoch", .int key.2), ("from", .str source.text),
    ("to", .str target.text), ("disposition", Disposition.toJson disposition),
    ("observed_at", .str (w.iso at'))]

/-- Where an acquisition stands after some of its events. -/
structure LeaseStanding where
  state : LeaseState
  disposition : Option Disposition
  observedAt : Instant
deriving DecidableEq

/-- The history as the reader selects it: every event of the identity, by sequence. -/
def Journal.leaseEvents (s : Journal) (key : String × ℕ) : List EventRow :=
  (s.events.filter (fun e => e.OfLease key)).insertionSort (fun a b => a.seq ≤ b.seq)

/-- One transition event continues the standing before it. -/
def leaseStep (lease : CapabilityLease) (standing : LeaseStanding) (e : EventRow) :
    Except StoreError LeaseStanding := do
  require (e.kind = "LeaseTransition") .journalDamaged
  let payload ← expect e.payload .journalDamaged
  let target ← expect (((payload.field "to").bind Json.text).bind LeaseState.ofText) .journalDamaged
  let disposition ← expect (Disposition.ofJson ((payload.field "disposition").getD .null))
    .journalDamaged
  require (e.runId = lease.runId ∧ e.path = none ∧ payload.canonical =
    (transitionPayload w lease.key standing.state target disposition e.createdAt).canonical)
    .journalDamaged
  pure ⟨target, disposition, e.createdAt⟩

/-- `_validate_capability_lease_history`: the row is the final state of its event chain. -/
def validateCapabilityLeaseHistory (s : Journal) (row : LeaseRow) : Except StoreError Unit := do
  (s.leaseEvents row.lease.key).forM (fun e => storedEventWithoutRelationship w s e)
  match s.leaseEvents row.lease.key with
  | [] => .error .journalDamaged
  | acquired :: rest =>
    require (acquired.kind = "LeaseAcquired") .journalDamaged
    require (acquired.runId = row.lease.runId ∧ acquired.path = none ∧
      row.createdAt = acquired.createdAt ∧ acquired.payload.map Json.canonical =
        some (acquiredPayload w row.lease acquired.createdAt).canonical) .journalDamaged
    let last ← rest.foldlM (leaseStep w row.lease) ⟨.active, none, acquired.createdAt⟩
    require (row.lease.state = last.state ∧ row.lease.disposition = last.disposition ∧
      row.updatedAt = last.observedAt) .journalDamaged

/-- `_capability_lease_from_row` -/
def capabilityLeaseFromRow (b : Beside) (s : Journal) (run : Option RunId) (key : String × ℕ)
    (row : LeaseRow) : Except StoreError CapabilityLease := do
  require (row.lease.leaseId = leaseIdFor w row.lease.runId row.lease.path row.lease.bindingId)
    .journalDamaged
  require (∀ r ∈ run, row.lease.runId = r) .journalDamaged
  require (row.lease.key = key) .journalDamaged
  validateCapabilityLeaseHistory w s row
  b.provenance row
  pure row.lease

/-- `_capability_lease_row`: no lifecycle proof stands without its row. -/
def capabilityLeaseRow (s : Journal) (key : String × ℕ) : Except StoreError (Option LeaseRow) :=
  match s.leases.get? key with
  | some row => .ok (some row)
  | none => do
    require (s.events.filter (fun e => e.OfLease key) = []) .journalDamaged
    pure none

/-- `_capability_lease_rows`: by the row's own run or by that of an acquisition event. -/
def capabilityLeaseRows (s : Journal) (run : RunId) :
    Except StoreError (List ((String × ℕ) × LeaseRow)) := do
  require (∀ e ∈ s.events, e.kind = "LeaseAcquired" → e.runId = run →
    ∃ entry ∈ s.leases.entries, leaseEventIdentity e.payload = some entry.1) .journalDamaged
  pure (s.leases.entries.filter (fun entry => entry.2.lease.runId = run ∨
    ∃ e ∈ s.events, e.kind = "LeaseAcquired" ∧ e.runId = run ∧
      leaseEventIdentity e.payload = some entry.1))

/-- The acquisitions of a run that are still active. -/
def activeLeases (b : Beside) (s : Journal) (run : RunId) :
    Except StoreError (List CapabilityLease) := do
  let rows ← capabilityLeaseRows s run
  let leases ← rows.mapM (fun entry => capabilityLeaseFromRow w b s (some run) entry.1 entry.2)
  pure (leases.filter (fun l => l.state = .active))

end Acquisitions

end Constructicon
