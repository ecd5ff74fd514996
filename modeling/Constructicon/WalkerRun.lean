import Constructicon.Walker
import Constructicon.Library.Procedure

/-!
# One attempt of a run

The walker drives the units of a manifest in order. Before every access to the journal
the rest of the world may have written to it, and the process may die there; what
implementations answer, when a cancellation strikes and how the resources of an
invocation are closed are the world's to say. An exception ends the attempt and leaves
the journal as it is.
-/

namespace Constructicon.Walker

open Transaction

/-! ## Exceptions -/

/-- An exception that does not come from the walker's own checks. -/
inductive Foreign where
  | hardDeath
  | cancelled
  | cancelRequested
  | lost
  | store (e : StoreError)
  | waiting (request : Digest) (reason : String)
  | other (type text : String)
  /-- two errors of one cleanup -/
  | both (first second : Foreign)
deriving DecidableEq

inductive Raised where
  | foreign (e : Foreign)
  | damage (d : Damage)
  /-- `_CleanupFailure`: the error of closing, the error of the node, a cancellation -/
  | cleanup (error : Foreign) (node : Option Raised) (cancelled : Bool)

/-- What `_execute_or_restore` does with the exception of an invocation. -/
inductive Handling where
  | passes
  | waits (request : Digest) (reason : String)
  | fails
deriving DecidableEq

def Foreign.handling : Foreign → Handling
  | .hardDeath => .passes
  | .cancelled => .passes
  | .cancelRequested => .passes
  | .lost => .passes
  | .store .ownershipLost => .passes
  | .store .checkpointConflict => .passes
  | .store _ => .fails
  | .waiting request reason => .waits request reason
  | .other _ _ => .fails
  | .both _ _ => .fails

def Damage.handling : Damage → Handling
  | .contradicts _ => .passes
  | _ => .fails

def Raised.handling : Raised → Handling
  | .foreign e => e.handling
  | .damage d => d.handling
  | .cleanup _ _ _ => .passes

/-- `isinstance(exc, OwnershipLost)` -/
def Foreign.ownership (e : Foreign) : Bool := e = .lost ∨ e = .store .ownershipLost

/-! ## The world of an attempt -/

/-- What `implementation` returns: a mapping, whose values `json_value` may refuse, or
something else. -/
inductive Returned where
  | mapping (values : Dict String (Option Json))
  | other (type : String)

/-- How `_close_acquired` ends. -/
inductive Closing where
  | clean
  | dies
  | lost
  | fails (error : Foreign) (namesNode cancelled : Bool)

/-- All that the walker does not decide, by the number of the step it is asked at. -/
structure World where
  wire : Wire
  /-- what everybody else has written by then -/
  others : ℕ → Journal → Journal
  beside : ℕ → Beside
  clock : ℕ → Instant
  dies : ℕ → Bool
  cancels : ℕ → Bool
  /-- the heartbeat has found the lease lost -/
  lost : ℕ → Bool
  reconciles : ℕ → Option Foreign
  implementation : ℕ → ExecutionPath → Instance → Dict String Json → Except Foreign Returned
  closing : ℕ → Closing
  /-- the rest of an envelope beside its payload -/
  envelope : ℕ → ExecutionPath → String → Json
  /-- `type(exc).__name__` and `str(exc)` -/
  said : Raised → String × String

/-- What the locals of `_execute` hold throughout an attempt. -/
structure Context where
  world : World
  lease : RunLease
  bindings : Dict String ResolvedPortBinding
  byScope : Dict ScopePath Instance
  producers : Dict String RootUnit
  /-- the scopes with sealed grants -/
  granted : List ScopePath

/-- The journal and what an attempt collects; `calls` are the invocations it made. -/
structure Attempt where
  journal : Journal
  tick : ℕ := 0
  failures : Dict String String := .empty
  blocked : List DependencyReport := []
  parked : List ParkedUnit := []
  calls : List (ExecutionPath × Dict String Json) := []

abbrev Walk := Proc Raised Attempt

variable {α : Type}

def raise (e : Foreign) : Walk α := Proc.fail (.foreign e)

def checked : Except Damage α → Walk α
  | .ok a => pure a
  | .error d => Proc.fail (.damage d)

def ask (f : ℕ → α) : Walk α := fun s => (.ok (f s.tick), { s with tick := s.tick + 1 })

def Attempt.begins (s : Attempt) (w : World) : Attempt :=
  { s with journal := w.others s.tick s.journal, tick := s.tick + 1 }

/-- One call of the journal, unless the process dies before it. -/
def access (w : World) (op : Beside → Instant → Journal → Except StoreError (α × Journal)) : Walk α := fun s =>
  if w.dies s.tick then (.error (.foreign .hardDeath), s.begins w)
  else
    match op (w.beside s.tick) (w.clock s.tick) (s.begins w).journal with
    | .ok (a, journal) => (.ok a, { s.begins w with journal := journal })
    | .error e => (.error (.foreign (.store e)), s.begins w)

section Parts

variable (c : Context)

/-- `append_event` -/
def notice (n : Notice) : Walk Unit :=
  access c.world (fun b now s => appendEvent c.world.wire b now s c.lease n.kind n.path n.payload)

/-- `transition_run` -/
def turn (t : Turn) : Walk Unit :=
  access c.world (fun b now s => transitionRun c.world.wire b now s c.lease t.expected t.target t.kind t.payload)

/-- `checkpoint` -/
def checkpoint (path : ExecutionPath) : Walk (Option Checkpoint) :=
  access c.world (fun b _ s =>
    (storedCheckpointFor c.world.wire b s c.lease.runId path).map (fun found => (found, s)))

/-- `record_completion` -/
def complete (k : Checkpoint) : Walk Unit :=
  access c.world (fun b now s => recordCompletion c.world.wire b now s c.lease k)

/-- `asyncio.sleep(0)` -/
def pause : Walk Unit := do
  let cancelled ← ask c.world.cancels
  if cancelled then raise .cancelled else pure ()

/-- `cancel_requested`: an unknown run has not been cancelled. -/
def Journal.cancelRequested (s : Journal) (run : RunId) : Bool :=
  (s.runs.get? run).elim false RunRow.cancelRequested

/-- `_check_run_control` -/
def checkRunControl : Walk Unit := do
  let lost ← ask c.world.lost
  if lost then raise .lost
  else do
    let requested ← access c.world (fun _ _ s => .ok (Journal.cancelRequested s c.lease.runId, s))
    if requested then raise .cancelRequested else pure ()

/-! ## One invocation -/

/-- `digest("inputs", 1, node_inputs)` -/
def inputHash (inputs : Dict String Json) : Digest := c.world.wire.hashing.digest "inputs" 1 (.obj inputs.entries)

/-- How `_close_acquired` ends for a node that raised `node`. -/
def endClosing (node : Option Raised) : Closing → Walk Unit
  | .clean => pure ()
  | .dies => raise .hardDeath
  | .lost => raise .lost
  | .fails error namesNode cancelled => Proc.fail (.cleanup error (if namesNode then node else none) cancelled)

/-- `_close_acquired` -/
def closeAcquired (node : Option Raised) : Walk Unit := do
  let closing ← ask c.world.closing
  endClosing node closing

def declaredNames (i : Instance) : List String := (i.definition.outputs.map Port.name).dedup

/-- The outputs of an invocation, if it returned exactly the declared ones. -/
def declaredOutputs (i : Instance) : Returned → Except Damage (Dict String Json)
  | .other type => .error (.notMapping i.scope type)
  | .mapping values =>
    let missing := (declaredNames i).filter (fun name => name ∉ values.keys)
    let extra := values.keys.filter (fun name => name ∉ declaredNames i)
    if missing ≠ [] ∨ extra ≠ [] then .error (.mismatch i.scope (sortStrings missing) (sortStrings extra))
    else ((declaredNames i).mapM (fun name =>
      (expect (values.get? name).join (.notJson i.scope name)).map (fun value => (name, value)))).map Dict.mk

def call (path : ExecutionPath) (i : Instance) (inputs : Dict String Json) : Walk Returned := fun s =>
  let s' : Attempt := { s with tick := s.tick + 1, calls := s.calls ++ [(path, inputs)] }
  match c.world.implementation s.tick path i inputs with
  | .ok returned => (.ok returned, s')
  | .error e => (.error (.foreign e), s')

/-- The checkpoint of a completion: every output in its envelope. -/
def completion (path : ExecutionPath) (i : Instance) (inputs outputs : Dict String Json) (rest : String → Json) :
    Checkpoint where
  runId := c.lease.runId
  path := path
  inputHash := inputHash c inputs
  resolvedVersion := some i.version
  outputs := outputs.entries.map (fun e => (e.1, e.2, rest e.1))

/-- The `try` block of `_invoke`: acquire, run, and record what it returned. -/
def perform (path : ExecutionPath) (i : Instance) (inputs : Dict String Json) : Walk (Dict String Json) := do
  let returned ← call c path i inputs
  let outputs ← checked (declaredOutputs i returned)
  let rest ← ask (fun tick => c.world.envelope tick path)
  complete c (completion c path i inputs outputs rest)
  pure outputs

/-- The handlers of `_invoke`: what is closed before the exception goes on. -/
def afterRaise (e : Raised) : Walk Unit :=
  match e with
  | .foreign .hardDeath => pure ()
  | .foreign .lost => pure ()
  | .foreign (.store .ownershipLost) => pure ()
  | .foreign .cancelled => do
    let lost ← ask c.world.lost
    if lost then raise .lost else closeAcquired c (some e)
  | .foreign .cancelRequested => do
    let lost ← ask c.world.lost
    if lost then raise .lost else closeAcquired c (some e)
  | _ => closeAcquired c (some e)

/-- How `_invoke` ends: with the outputs, or with the exception. -/
def conclude : Except Raised (Dict String Json) → Walk (Dict String Json)
  | .ok outputs => do
    closeAcquired c none
    pure outputs
  | .error e => do
    afterRaise c e
    Proc.fail e

local instance grantedLawful : LawfulBEq ScopePath := inferInstanceAs (LawfulBEq (List String))

/-- `_invoke` -/
def invoke (path : ExecutionPath) (i : Instance) (inputs : Dict String Json) : Walk (Dict String Json) := do
  notice c (.nodeStarted path)
  if i.scope ∉ c.granted then Proc.fail (.damage (.noGrants i.scope))
  else do
    let outcome ← Proc.tried (perform c path i inputs)
    conclude c outcome

/-! ## Restoring or invoking -/

inductive UnitOutcome where
  | completed
  | parked (u : ParkedUnit)
  | failed (error : String)

def payloads (k : Checkpoint) : Dict String Json := Dict.ofList (k.outputs.map (fun o => (o.1, o.2.1)))

/-- A failed cleanup goes on, with the error of recording the node's own beside its own. -/
def passCleanup (error : Foreign) (node : Raised) (cancelled : Bool) : Except Raised Unit → Walk UnitOutcome
  | .error (.foreign e) =>
    if e.ownership ∨ e = .hardDeath then raise e
    else Proc.fail (.cleanup (.both error e) (some node) cancelled)
  | _ => Proc.fail (.cleanup error (some node) cancelled)

/-- The `except` clauses of `_execute_or_restore`, but the one for failed cleanups. -/
def settleRaised (path : ExecutionPath) (e : Raised) : Handling → Walk UnitOutcome
  | .passes => Proc.fail e
  | .waits request reason => do
    let u : ParkedUnit := ⟨path, reason, none, some request⟩
    notice c (.unitParked false path u)
    pure (.parked u)
  | .fails => do
    notice c (.nodeFailed path (c.world.said e).2 (c.world.said e).1)
    pure (.failed ((c.world.said e).1 ++ ": " ++ (c.world.said e).2))

/-- The `except` clauses of `_execute_or_restore`; the node's own error behind a failed
cleanup is recorded before that goes on. -/
def settleInvocation (path : ExecutionPath) (e : Raised) : Walk UnitOutcome :=
  match e with
  | .cleanup error (some node) cancelled =>
    if node.handling = .fails then do
      let noted ← Proc.tried (notice c (.nodeFailed path (c.world.said node).2 (c.world.said node).1))
      passCleanup error node cancelled noted
    else Proc.fail e
  | _ => settleRaised c path e e.handling

/-- A completed invocation, from its checkpoint. -/
def restore (path : ExecutionPath) (i : Instance) (values : Values) (inputs : Dict String Json) (k : Checkpoint) :
    Walk (UnitOutcome × Values) :=
  if k.inputHash ≠ inputHash c inputs ∨ k.resolvedVersion ≠ some i.version then
    Proc.fail (.damage (.contradicts path))
  else do
    notice c (.nodeRestored path)
    let values ← checked (publishAtomicOutputs i (payloads k) values)
    pure (.completed, values)

def settleOutcome (path : ExecutionPath) (i : Instance) (values : Values) :
    Except Raised (Dict String Json) → Walk (UnitOutcome × Values)
  | .ok outputs => do
    let values ← checked (publishAtomicOutputs i outputs values)
    pure (.completed, values)
  | .error e => do
    let settled ← settleInvocation c path e
    pure (settled, values)

/-- Restore a recorded completion, or invoke the unit. -/
def restoreOrInvoke (path : ExecutionPath) (i : Instance) (values : Values) (inputs : Dict String Json) :
    Option Checkpoint → Walk (UnitOutcome × Values)
  | some k => restore c path i values inputs k
  | none => do
    let outcome ← Proc.tried (invoke c path i inputs)
    settleOutcome c path i values outcome

/-- `_execute_or_restore` -/
def executeOrRestore (path : ExecutionPath) (i : Instance) (values : Values) : Walk (UnitOutcome × Values) := do
  let inputs ← checked (nodeInputs c.bindings values i)
  let found ← checkpoint c path
  restoreOrInvoke c path i values inputs found

end Parts

end Constructicon.Walker
