import Constructicon.AddressKey
import Constructicon.FaultText
import Constructicon.JournalWriters
import Constructicon.Library.Place

/-!
# The units of a run and the values between them

The walker reads a sealed manifest as root units: the atomic instances outside every
loop, and the loops. Values stand in a store under the text of their address; a unit
takes its inputs from there and publishes its outputs there. Nothing here touches the
journal.
-/

namespace Constructicon.Walker

open Transaction

/-! ## Complaints of the walker itself -/

/-- What the walker raises on its own account, with what the message names. -/
inductive Damage where
  | unavailable (key : String)
  | cardinality (port : String) (cardinality : Cardinality) (sources : ℕ)
  | unbound (scope : ScopePath) (port : String)
  | omits (scope : ScopePath) (port : String)
  | noPrevious (scope : ScopePath) (iteration : ℕ)
  | noContinuation (scope : ScopePath) (key : String)
  | notBoolean (scope : ScopePath) (value : Json)
  | missingMember (loop member : ScopePath)
  | cycle
  | unknownRun (run : RunId)
  | contradicts (path : ExecutionPath)
  | noGrants (scope : ScopePath)
  | notMapping (scope : ScopePath) (type : String)
  | mismatch (scope : ScopePath) (missing extra : List String)
  | notJson (scope : ScopePath) (port : String)
  | blockedWithoutRoot
  | lacksCheckpoint (scope : ScopePath)
  | missingComponent (scope : ScopePath)
  | afterEmpty (scope : ScopePath) (iteration : ℕ)
  | afterMissing (scope : ScopePath) (iteration : ℕ)
  | afterPartial (scope : ScopePath) (iteration : ℕ)
  | afterTerminal (scope : ScopePath) (iteration : ℕ)
  | incomplete (scope : ScopePath) (iteration : ℕ)
  | partialIteration (scope : ScopePath) (iteration : ℕ)
  | exhausted (scope : ScopePath)

/-! ## Statuses and reports -/

/-- The `InvocationStatus` values the walker gives. -/
inductive InvocationStatus where
  | queued
  | completed
  | failed
  | blocked
  | skipped
  | parked
deriving DecidableEq

def InvocationStatus.text : InvocationStatus → String
  | .queued => "queued"
  | .completed => "completed"
  | .failed => "failed"
  | .blocked => "blocked_by_dependency"
  | .skipped => "skipped_run_terminated"
  | .parked => "parked"

structure ProducerStatus where
  path : ExecutionPath
  status : InvocationStatus

/-- The whole recorded producer set of a destination. -/
structure DependencyReport where
  destination : ExecutionPath
  producers : List ProducerStatus

def DependencyReport.waits (r : DependencyReport) : Bool := r.producers.any (fun p => p.status ≠ .completed)

def ProducerStatus.dump (p : ProducerStatus) : Json :=
  .obj [("path", p.path.dump), ("status", .str p.status.text), ("error_ref", .null)]

/-- `path.render()` -/
def renderPath (p : ExecutionPath) : String :=
  p.iterations.foldl (fun rendered f => rendered ++ "[" ++ toString f.index ++ "]") (renderScope p.scope)

/-! ## Units -/

/-- `_Unit` -/
inductive RootUnit where
  | atomic (i : Instance)
  | loop (l : LoopResolution)

namespace RootUnit

def scope : RootUnit → ScopePath
  | .atomic i => i.scope
  | .loop l => l.scope

def offered : RootUnit → List PortAddress
  | .atomic i => i.definition.outputs.map (fun p => i.port p.name)
  | .loop l => l.exports.map LoopExport.destination

end RootUnit

/-- `instances_by_scope` -/
def instancesByScope (instances : List Instance) : Dict ScopePath Instance :=
  Dict.ofList (instances.map (fun i => (i.scope, i)))

/-- `bindings`: the connections under the keys of their destinations. -/
def bindingsByKey {δ : Type} (m : ExecutionManifest δ) : Dict String ResolvedPortBinding :=
  Dict.ofList (m.resolvedConnections.map (fun b => (addressKey b.destination, b)))

section Members

local instance scopesLawful : LawfulBEq ScopePath := inferInstanceAs (LawfulBEq (List String))

/-- `_root_units` -/
def rootUnits {δ : Type} (m : ExecutionManifest δ) (instances : List Instance) : List RootUnit :=
  (instances.filter (fun i => i.scope ∉ m.resolvedLoops.flatMap LoopResolution.memberOrder)).map .atomic ++
    m.resolvedLoops.map .loop

end Members

/-- `_unit_producer_index` -/
def unitProducerIndex (units : List RootUnit) : Dict String RootUnit :=
  Dict.ofList (units.flatMap (fun u => u.offered.map (fun a => (addressKey a, u))))

/-- `[instances_by_scope[scope] for scope in loop.member_order]` -/
def members (byScope : Dict ScopePath Instance) (l : LoopResolution) : Except Damage (List Instance) :=
  l.memberOrder.mapM (fun scope => expect (byScope.get? scope) (.missingMember l.scope scope))

/-- `_member_producer_index`, of the members found. -/
def memberProducerIndex (found : List Instance) : Dict String Instance :=
  Dict.ofList (found.flatMap (fun i => i.definition.outputs.map (fun p => (addressKey (i.port p.name), i))))

/-- The bindings of an instance's inputs, in declaration order. -/
def inputBindings (bindings : Dict String ResolvedPortBinding) (i : Instance) : List ResolvedPortBinding :=
  i.definition.inputs.filterMap (fun p => bindings.get? (addressKey (i.port p.name)))

/-- `_unit_input_bindings` -/
def unitInputBindings (bindings : Dict String ResolvedPortBinding) : RootUnit → List ResolvedPortBinding
  | .atomic i => inputBindings bindings i
  | .loop l => l.initialBindings

/-! ## The order of the units -/

/-- `sorted` of a set of scopes. -/
def sortedScopes (scopes : List ScopePath) : List ScopePath :=
  scopes.dedup.insertionSort (fun a b => ScopePath.le a b = true)

/-- The scopes of the units that produce for the given bindings. -/
def producersOf (producers : Dict String RootUnit) (bound : List ResolvedPortBinding) : List ScopePath :=
  (bound.flatMap ResolvedPortBinding.sources).filterMap
    (fun a => (producers.get? (addressKey a)).map RootUnit.scope)

/-- `dependencies[scope]`, of every unit under the scope. -/
def dependencies (units : List RootUnit) (bindings : Dict String ResolvedPortBinding)
    (producers : Dict String RootUnit) (scope : ScopePath) : List ScopePath :=
  sortedScopes ((units.filter (fun u => u.scope = scope)).flatMap
    (fun u => producersOf producers (unitInputBindings bindings u)))

/-- `_ordered_units`: every unit after the units it depends on. -/
def orderedUnits (units : List RootUnit) (bindings : Dict String ResolvedPortBinding)
    (producers : Dict String RootUnit) : Except Damage (List RootUnit) :=
  -- no trail repeats a scope, so the recursion is never deeper than there are scopes
  match Place.placeAll (fun _ => true) (dependencies units bindings producers) (units.length + 2)
      ((units.map RootUnit.scope).insertionSort (fun a b => ScopePath.le a b = true)) with
  | .ok order => .ok (order.filterMap (Dict.ofList (units.map (fun u => (u.scope, u)))).get?)
  | .error _ => .error .cycle

/-! ## Dependency reports -/

/-- The producers of the bindings, each once, with the statuses known of them. -/
def reportProducers (producer : String → Option ScopePath) (iterations : List IterationFrame)
    (statuses : Dict ScopePath InvocationStatus) (bound : List ResolvedPortBinding) : List ProducerStatus :=
  ((bound.flatMap ResolvedPortBinding.sources).filterMap (fun a => producer (addressKey a))).eraseDups.map
    (fun scope => ⟨⟨scope, iterations⟩, statuses.getD scope .queued⟩)

/-- `_unit_dependency_report` -/
def unitDependencyReport (bindings : Dict String ResolvedPortBinding) (producers : Dict String RootUnit)
    (statuses : Dict ScopePath InvocationStatus) (u : RootUnit) : DependencyReport where
  destination := ⟨u.scope, []⟩
  producers := reportProducers (fun key => (producers.get? key).map RootUnit.scope) [] statuses
    (unitInputBindings bindings u)

/-- `_member_dependency_report` -/
def memberDependencyReport (bindings : Dict String ResolvedPortBinding) (producers : Dict String Instance)
    (frame : IterationFrame) (statuses : Dict ScopePath InvocationStatus) (i : Instance) : DependencyReport where
  destination := ⟨i.scope, [frame]⟩
  producers := reportProducers (fun key => (producers.get? key).map Instance.scope) [frame] statuses
    (inputBindings bindings i)

/-! ## Values -/

abbrev Values := Dict String Json

/-- What a port receives of the values at its sources. -/
def gather (port : Port) (resolved : List Json) : Except Damage Json :=
  if port.cardinality = .many then .ok (.arr resolved)
  else
    match resolved with
    | [value] => .ok value
    | _ => .error (.cardinality port.name port.cardinality resolved.length)

/-- `_collect` -/
def collect (values : Values) (sources : List PortAddress) (port : Port) : Except Damage Json := do
  let resolved ← sources.mapM (fun a => expect (values.get? (addressKey a)) (.unavailable (addressKey a)))
  gather port resolved

/-- One input of `_node_inputs`. -/
def nodeInput (bindings : Dict String ResolvedPortBinding) (values : Values) (i : Instance) (p : Port) :
    Except Damage (String × Json) :=
  match bindings.get? (addressKey (i.port p.name)) with
  | some b => (collect values b.sources p).map (fun v => (p.name, v))
  | none => if p.cardinality = .optional then .ok (p.name, .null) else .error (.unbound i.scope p.name)

/-- `_node_inputs` -/
def nodeInputs (bindings : Dict String ResolvedPortBinding) (values : Values) (i : Instance) :
    Except Damage (Dict String Json) :=
  (i.definition.inputs.mapM (nodeInput bindings values i)).map Dict.ofList

/-- `_publish_atomic_outputs` -/
def publishAtomicOutputs (i : Instance) (outputs : Dict String Json) (values : Values) : Except Damage Values :=
  i.definition.outputs.foldlM (fun values p => do
    let value ← expect (outputs.get? p.name) (.omits i.scope p.name)
    pure (values.insert (addressKey (i.port p.name)) value)) values

/-! ## Loops -/

/-- Bindings of a loop boundary under the names of its ports. -/
def boundaryBindings (bound : List ResolvedPortBinding) : Dict String ResolvedPortBinding :=
  Dict.ofList (bound.filterMap (fun b =>
    match b.destination with
    | .graphInput _ port => some (port, b)
    | _ => none))

/-- The binding that seeds a port in an iteration, and whether it is feedback. -/
def seedBinding (l : LoopResolution) (iteration : ℕ) (p : Port) : Bool × Option ResolvedPortBinding :=
  let initial := boundaryBindings l.initialBindings
  let feedback := boundaryBindings l.feedbackBindings
  if 0 < iteration ∧ feedback.contains p.name then (true, feedback.get? p.name)
  else (false, initial.get? p.name)

/-- One port of `_seed_loop_iteration`. -/
def seedPort (l : LoopResolution) (iteration : ℕ) (outer : Values) (previous : Option Values) (values : Values)
    (p : Port) : Except Damage Values :=
  match seedBinding l iteration p with
  | (_, none) => .ok values
  | (fed, some b) => do
    let source ← expect (if fed then previous else some outer) (.noPrevious l.scope iteration)
    let value ← collect source b.sources p
    pure (values.insert (addressKey b.destination) value)

/-- `_seed_loop_iteration` -/
def seedLoopIteration (l : LoopResolution) (iteration : ℕ) (outer : Values) (previous : Option Values) :
    Except Damage Values :=
  l.inputPorts.foldlM (seedPort l iteration outer previous) .empty

/-- `_loop_decision` -/
def loopDecision (l : LoopResolution) (values : Values) : Except Damage Bool :=
  match values.get? (addressKey l.continueSource) with
  | some (.bool decision) => .ok decision
  | some value => .error (.notBoolean l.scope value)
  | none => .error (.noContinuation l.scope (addressKey l.continueSource))

/-- `_publish_loop_exports` -/
def publishLoopExports (l : LoopResolution) (iterationValues outer : Values) : Except Damage Values :=
  l.exports.foldlM (fun outer e => do
    let value ← collect iterationValues e.sources e.port
    pure (outer.insert (addressKey e.destination) value)) outer

/-! ## The boundary of the run -/

def rootValues {δ : Type} (m : ExecutionManifest δ) (inputs : Dict String Json) : Values :=
  Dict.ofList (inputs.entries.map (fun e => (addressKey (.graphInput [m.sourceGraph.name] e.1), e.2)))

/-- `_graph_outputs` -/
def graphOutputs {δ : Type} (m : ExecutionManifest δ) (values : Values) (bindings : Dict String ResolvedPortBinding) :
    Except Damage (Dict String Json) :=
  m.sourceGraph.outputs.foldlM (fun outputs p =>
    match bindings.get? (addressKey (.graphOutput [m.sourceGraph.name] p.name)) with
    | some b => (collect values b.sources p).map (fun v => outputs.insert p.name v)
    | none => .ok outputs) .empty

end Constructicon.Walker
