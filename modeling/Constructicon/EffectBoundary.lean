import Constructicon.JournalIntact

/-!
# The effect boundary

Any number of boundary calls of any runs share one journal. Each call is a program of
single transactions and adapter calls; between any two of them another call, another
worker or a crash may stand. The key of an effect ignores the run, so calls of two runs
meet on one row.
-/

namespace Constructicon

open Transaction

structure Boundary where
  lease : RunLease
  manifestHash : Digest
  path : ExecutionPath
  kind : String
  subject : Json
  attestationId : Option String
  mode : EffectMode

inductive BoundaryError where
  | store (e : StoreError)
  /-- ownership was lost or the run is being cancelled -/
  | control
  | noAdapter
  | noSimulation
  | adapter
  | crashed
deriving DecidableEq, Repr

/-- What stands around one action of a call: the tables beside the journal, the clock,
the last control check, and what the adapter answers. -/
structure Surroundings where
  beside : Beside
  now : Instant
  control : Except BoundaryError Unit
  assembled : Bool
  simulation : Bool
  reconciled : Except BoundaryError (Option EffectReceipt)
  executed : Except BoundaryError EffectReceipt
  simulated : Except BoundaryError EffectReceipt
  /-- a counterfactual answers a simulated receipt, as every adapter here does -/
  counterfactual : ∀ receipt, simulated = .ok receipt → receipt.status = .simulated

inductive Phase where
  | look
  | prepare
  | reread (request : EffectRequest)
  | reconcile (request : EffectRequest)
  | perform (request : EffectRequest)
  | record (request : EffectRequest) (receipt : EffectReceipt) (kind : String)
  | note (receipt : EffectReceipt)
  | returned (receipt : EffectReceipt)
  | raised (e : BoundaryError)
deriving DecidableEq

/-- One remarkable moment of call `i`. -/
inductive Touch where
  | prepared (i : ℕ) (request : EffectRequest)
  /-- the second lookup, after the preparation: the receipt it saw -/
  | reread (i : ℕ) (request : EffectRequest) (seen : Option EffectReceipt)
  | reconciled (i : ℕ) (request : EffectRequest)
      (answer : Except BoundaryError (Option EffectReceipt))
  | executed (i : ℕ) (request : EffectRequest)
  | simulated (i : ℕ) (request : EffectRequest)
  | recorded (key : Digest) (receipt : EffectReceipt)
deriving DecidableEq

/-- `terminal_statuses` -/
def EffectMode.terminalStatuses : EffectMode → List ReceiptStatus
  | .simulated => [.simulated]
  | .live => [.committed, .rejected]

def EffectMode.Ends (mode : EffectMode) (receipt : EffectReceipt) : Prop :=
  receipt.status ∈ mode.terminalStatuses

instance (mode : EffectMode) (receipt : EffectReceipt) : Decidable (mode.Ends receipt) :=
  inferInstanceAs (Decidable (_ ∈ _))

section Calls

variable (w : Wire)

def Boundary.key (c : Boundary) : Digest :=
  effectIdempotencyKey w c.manifestHash c.path c.kind c.subject c.mode

def Boundary.proposed (c : Boundary) : EffectRequest where
  runId := c.lease.runId
  manifestHash := c.manifestHash
  path := c.path
  kind := c.kind
  subject := c.subject
  idempotencyKey := c.key w
  attestationId := c.attestationId
  mode := c.mode

/-- One action of a call: the journal it leaves, what it does next, and its touches. -/
structure Action where
  journal : Journal
  phase : Phase
  touches : List Touch

def Action.raise (s : Journal) (e : BoundaryError) : Action := ⟨s, .raised e, []⟩

/-- `terminal_receipt` before the preparation. -/
def lookAction (env : Surroundings) (s : Journal) (c : Boundary) : Action :=
  match env.control with
  | .error e => .raise s e
  | .ok () =>
    match receiptFor w env.beside s (c.key w) with
    | .error e => .raise s (.store e)
    | .ok seen =>
      match seen.filter (fun r => c.mode.Ends r) with
      | some receipt => ⟨s, .note receipt, []⟩
      | none => if env.assembled then ⟨s, .prepare, []⟩ else .raise s .noAdapter

/-- `record_effect_prepared`, which answers the first exact request of the key. -/
def prepareAction (env : Surroundings) (s : Journal) (i : ℕ) (c : Boundary) : Action :=
  match env.control with
  | .error e => .raise s e
  | .ok () =>
    match recordEffectPrepared w env.beside env.now s c.lease (c.proposed w) with
    | .error e => .raise s (.store e)
    | .ok (request, s') => ⟨s', .reread request, [.prepared i request]⟩

/-- `terminal_receipt` again: another worker may have closed the preparation. -/
def rereadAction (env : Surroundings) (s : Journal) (i : ℕ) (c : Boundary)
    (request : EffectRequest) : Action :=
  match receiptFor w env.beside s (c.key w) with
  | .error e => .raise s (.store e)
  | .ok seen =>
    match seen.filter (fun r => c.mode.Ends r) with
    | some receipt => ⟨s, .note receipt, [.reread i request seen]⟩
    | none =>
      ⟨s, if c.mode = .live then .reconcile request else .perform request, [.reread i request seen]⟩

def reconcileAction (env : Surroundings) (s : Journal) (i : ℕ) (request : EffectRequest) : Action :=
  match env.reconciled with
  | .error e => ⟨s, .raised e, [.reconciled i request (.error e)]⟩
  | .ok none => ⟨s, .perform request, [.reconciled i request (.ok none)]⟩
  | .ok (some receipt) =>
    ⟨s, .record request receipt "EffectReconciled", [.reconciled i request (.ok (some receipt))]⟩

/-- What follows an answer of `execute` or `simulate`. -/
def answered (s : Journal) (request : EffectRequest) (touch : Touch)
    (answer : Except BoundaryError EffectReceipt) : Action :=
  match answer with
  | .error e => ⟨s, .raised e, [touch]⟩
  | .ok receipt => ⟨s, .record request receipt (effectEventKind receipt.status), [touch]⟩

def performAction (env : Surroundings) (s : Journal) (i : ℕ) (c : Boundary)
    (request : EffectRequest) : Action :=
  match env.control with
  | .error e => .raise s e
  | .ok () =>
    match c.mode with
    | .simulated =>
      if env.simulation then answered s request (.simulated i request) env.simulated
      else .raise s .noSimulation
    | .live => answered s request (.executed i request) env.executed

/-- `record_outcome` -/
def recordAction (env : Surroundings) (s : Journal) (c : Boundary) (request : EffectRequest)
    (receipt : EffectReceipt) (kind : String) : Action :=
  match recordEffectOutcome w env.beside env.now s c.lease request receipt kind with
  | .error e => .raise s (.store e)
  | .ok (.recorded, s') =>
    ⟨s', .returned receipt, [.recorded request.idempotencyKey receipt]⟩
  | .ok (.alreadyRecorded, s') => ⟨s', .note receipt, []⟩

def noteAction (env : Surroundings) (s : Journal) (c : Boundary) (receipt : EffectReceipt) :
    Action :=
  let n := Notice.effectDeduplicated c.path c.kind
  match appendEvent w env.beside env.now s c.lease n.kind n.path n.payload with
  | .error e => .raise s (.store e)
  | .ok (_, s') => ⟨s', .returned receipt, []⟩

def boundaryAction (env : Surroundings) (s : Journal) (i : ℕ) (c : Boundary) : Phase → Action
  | .look => lookAction w env s c
  | .prepare => prepareAction w env s i c
  | .reread request => rereadAction w env s i c request
  | .reconcile request => reconcileAction env s i request
  | .perform request => performAction env s i c request
  | .record request receipt kind => recordAction w env s c request receipt kind
  | .note receipt => noteAction w env s c receipt
  | .returned receipt => ⟨s, .returned receipt, []⟩
  | .raised e => ⟨s, .raised e, []⟩

end Calls

/-- The journal, the calls in the order they began, and the touches, newest first. -/
structure Exchange where
  journal : Journal
  calls : List (Boundary × Phase)
  trace : List Touch

def Exchange.start : Exchange := ⟨.empty, [], []⟩

/-- A call that is not a boundary's: the boundary alone prepares and closes effects. -/
structure OtherCall extends MadeCall where
  other : ∀ lease request receipt kind,
    call ≠ .prepare lease request ∧ call ≠ .outcome lease request receipt kind

inductive Move where
  | begin (c : Boundary)
  | act (i : ℕ) (env : Surroundings)
  /-- the worker dies where it stands -/
  | crash (i : ℕ)
  | other (c : OtherCall)

/-- Call `i` takes its next action. -/
def Exchange.act (w : Wire) (x : Exchange) (i : ℕ) (env : Surroundings) : Exchange :=
  match x.calls[i]? with
  | none => x
  | some (c, phase) =>
    let a := boundaryAction w env x.journal i c phase
    ⟨a.journal, x.calls.set i (c, a.phase), a.touches ++ x.trace⟩

def Exchange.crash (x : Exchange) (i : ℕ) : Exchange :=
  match x.calls[i]? with
  | none => x
  | some (c, _) => { x with calls := x.calls.set i (c, .raised .crashed) }

def Exchange.step (w : Wire) (x : Exchange) : Move → Exchange
  | .begin c => { x with calls := x.calls ++ [(c, .look)] }
  | .act i env => x.act w i env
  | .crash i => x.crash i
  | .other c => { x with journal := x.journal.step w c.beside c.now c.call }

end Constructicon
