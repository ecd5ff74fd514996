import Constructicon.Atomic

/-!
# Admission

`compileNode` compiles one node: a loop, a reference (atomic or composite) or an
inline nested graph; `compileGraphWith` compiles one level with a given way of
compiling its nodes. The recursion runs over the registry's reference relation,
not over the syntax, so it is bounded only by the interpreter's stack: `compileNode`
takes the remaining depth and raises `recursionError` when it is spent.
-/

namespace Constructicon

variable {δ : Type}

/-- The arguments of one `_compile_graph` call. -/
structure Level where
  scope : ScopePath
  inputSources : Sources
  grants : EffectiveGrants
  loopDepth : ℕ
  location : GraphLocation

/-- Record the faults and, when there are any, raise with all faults so far. -/
def refuseOn (faults : List Fault) : Compile δ Unit :=
  if faults = [] then pure ()
  else do
    emitFaults faults
    Emit.raise .compFaults

def ofExcept {α : Type} (x : Except Raised α) : Compile δ α := ⟨[], x⟩

/-- Every source of a dictionary of outputs, in iteration order. -/
def allSources (sources : Sources) : List Source := sources.values.flatten

/-- The pool of one node: the outputs of its upstream nodes, then the level's inputs. -/
def nodePool (upstream : List String) (nodeOutputs : NodeLookup) (inputs : Sources) : List Source :=
  upstream.flatMap (fun name => allSources (nodeOutputs.getD name .empty)) ++ allSources inputs

/-- The seat of a node at its level, given the outputs compiled so far. -/
def seatOf (g : Graph) (l : Level) (upstream : Dict String (List String)) (nodeOutputs : NodeLookup)
    (node : GraphNode) : Seat where
  node := node
  levelScope := l.scope
  pool := nodePool (upstream.getD node.id []) nodeOutputs l.inputSources
  explicit := (explicitMaps g l.location).filter (fun e => e.destinationNode = node.id)
  nodeLookup := nodeOutputs
  inputSources := l.inputSources
  grants := l.grants
  loopDepth := l.loopDepth
  location := l.location.child [.inl "nodes", .inr ((nodeIndices g).getD node.id 0), .inl "body"]
  levelLocation := l.location
  incomingConnectionIndex := (incomingConnectionIndices g).get? node.id
  upstream := upstream.getD node.id []

def compileNodes (rec : Seat → Compile δ Sources) (g : Graph) (l : Level)
    (upstream : Dict String (List String)) : List GraphNode → NodeLookup → Compile δ NodeLookup
  | [], nodeOutputs => pure nodeOutputs
  | node :: nodes, nodeOutputs => do
    let outputs ← rec (seatOf g l upstream nodeOutputs node)
    compileNodes rec g l upstream nodes (nodeOutputs.insert node.id outputs)

/-- The declared outputs of a level. A graph input is a pass-through fallback, not
a competitor with a value produced by the graph. -/
def bindOutputs (l : Level) (nodeSources inputSources : List Source) :
    List (Port × ℕ) → Sources → Compile δ Sources
  | [], outputs => pure outputs
  | (port, index) :: ports, outputs => do
    let pool := if nodeSources.any (fun s => portsSameContract s.port port) then nodeSources
      else inputSources
    match ← bindPort { location := l.location.child [.inl "outputs", .inr index], scope := l.scope }
        port pool with
    | some bound =>
      bindOutputs l nodeSources inputSources ports
        (outputs.insert port.name (bound.map (fun s => ⟨s.address, port⟩)))
    | none => bindOutputs l nodeSources inputSources ports outputs

/-- `_compile_graph`, with `rec` compiling the nodes. -/
def compileGraphWith (rec : Seat → Compile δ Sources) (g : Graph) (l : Level) :
    Compile δ Sources := do
  refuseOn (endpointFaults g l.scope l.location)
  refuseOn (cycleFaults g l.scope l.location)
  validateUniquePorts (.graphInputs l.scope) g.inputs
  validateUniquePorts (.graphOutputs l.scope) g.outputs
  let upstream := upstreamClosure (nodeIds g) (connectionEdges g)
  let ordered ← ofExcept (orderedNodes g upstream)
  let nodeOutputs ← compileNodes rec g l upstream ordered .empty
  bindOutputs l (nodeOutputs.values.flatMap allSources) (allSources l.inputSources)
    g.outputs.zipIdx .empty

/-! ## Loops -/

def portsByName (ports : List Port) : Dict String Port :=
  Dict.ofList (ports.map (fun p => (p.name, p)))

def feedbackFaults (scope : ScopePath) (inputs outputs : Dict String Port) (edge : String × String) :
    List Fault :=
  match inputs.get? edge.1, outputs.get? edge.2 with
  | some input, some output =>
    (if input.cardinality ≠ .one ∨ output.cardinality ≠ .one then
      [.feedbackCardinality scope edge.1 edge.2] else []) ++
    (if portsSameContract input output = false then
      [.feedbackContract scope edge.1 edge.2 input.contract output.contract] else [])
  | input, output =>
    (if input = none then [.feedbackDestination scope edge.1 (sortStrings inputs.keys)] else []) ++
    (if output = none then [.feedbackSource scope edge.2 (sortStrings outputs.keys)] else [])

def continueFaults (h : Hashing δ) (scope : ScopePath) (outputs : Dict String Port)
    (continueFrom : String) : List Fault :=
  match outputs.get? continueFrom with
  | none => [.continueMissing scope continueFrom (sortStrings outputs.keys)]
  | some port =>
    if port.typeId ≠ continueType ∨ port.schemaHash ≠ continueSchemaHash h ∨
        port.cardinality ≠ .one then [.continueContract scope continueFrom]
    else []

/-- The seeds of a loop: for every bound body input, in declared order, its initial
binding and the boundary source the body sees. -/
def loopSeeds (bodyScope : ScopePath) (inputs : List Port) (bound : Sources) :
    List (ResolvedPortBinding × String × List Source) :=
  inputs.filterMap (fun port =>
    (bound.get? port.name).map (fun selected =>
      (⟨.graphInput bodyScope port.name, selected.map Source.address⟩, port.name,
        [⟨.graphInput bodyScope port.name, port⟩])))

def feedbackBinding (loopScope bodyScope : ScopePath) (inputs outputs : Dict String Port)
    (bodyOutputs : Sources) (edge : String × String) : Compile δ (List ResolvedPortBinding) :=
  if inputs.contains edge.1 = false ∨ outputs.contains edge.2 = false then pure []
  else match bodyOutputs.getD edge.2 [] with
    | [] => pure []
    | [source] => pure [⟨.graphInput bodyScope edge.1, [source.address]⟩]
    | sources => do
      fault (.feedbackArity loopScope edge.2 sources.length)
      pure []

/-- The feedback bindings, in the order the edges were written. -/
def feedbackBindings (loopScope bodyScope : ScopePath) (inputs outputs : Dict String Port)
    (bodyOutputs : Sources) : List (String × String) → Compile δ (List ResolvedPortBinding)
  | [] => pure []
  | edge :: edges => do
    let here ← feedbackBinding loopScope bodyScope inputs outputs bodyOutputs edge
    let rest ← feedbackBindings loopScope bodyScope inputs outputs bodyOutputs edges
    pure (here ++ rest)

/-- The continuation source; the placeholder is never emitted, a fault refuses first. -/
def continueSource (loopScope bodyScope : ScopePath) (outputs : Dict String Port)
    (bodyOutputs : Sources) (continueFrom : String) : Compile δ PortAddress :=
  match bodyOutputs.get? continueFrom with
  | some [source] => pure source.address
  | _ => do
    emitFaults (if outputs.contains continueFrom then [.continueArity loopScope continueFrom] else [])
    pure (.graphInput bodyScope continueFrom)

/-- What a completed loop publishes: every non-control output that has sources. -/
def loopExports (levelScope : ScopePath) (node : String) (outputs : List Port)
    (bodyOutputs : Sources) (continueFrom : String) : List LoopExport :=
  outputs.filterMap (fun port =>
    if port.name = continueFrom then none
    else match bodyOutputs.getD port.name [] with
      | [] => none
      | sources => some ⟨port, .nodePort levelScope node port.name, sources.map Source.address⟩)

def exportedSources (exports : List LoopExport) : Sources :=
  Dict.ofList (exports.map (fun e => (e.port.name, [⟨e.destination, e.port⟩])))

/-- The boundary of a loop body: the ports of the referenced definition or of the
inline graph, or nothing when the reference is unusable. -/
def loopBoundary (w : World δ) (loop : Loop) (bodyScope : ScopePath) :
    Compile δ (Option (List Port × List Port)) :=
  match loop.body with
  | .inr g => pure (some (g.inputs, g.outputs))
  | .inl ref => do
    let scope := bodyScope.child "$body"
    match ← resolveRef w ref scope with
    | none => pure none
    | some stored =>
      match boundaryLie w.hashing stored scope with
      | some f => do
        fault f
        pure none
      | none => pure (some (stored.definition.inputs, stored.definition.outputs))

def bodySeat (a : Seat) (ref : Ref) (bodyScope : ScopePath) (boundary : Sources) : Seat where
  node := ⟨"$body", .ref ref⟩
  levelScope := bodyScope
  pool := allSources boundary
  explicit := []
  nodeLookup := .empty
  inputSources := boundary
  grants := a.grants
  loopDepth := 1
  location := a.location.child [.inl "body"]
  levelLocation := a.location
  incomingConnectionIndex := none
  upstream := []

/-- Compile the body of a loop over its boundary sources. -/
def compileBody (rec : Seat → Compile δ Sources) (a : Seat) (loop : Loop) (bodyScope : ScopePath)
    (boundary : Sources) : Compile δ Sources :=
  match loop.body with
  | .inl ref => rec (bodySeat a ref bodyScope boundary)
  | .inr g => compileGraphWith rec g
      { scope := bodyScope
        inputSources := boundary
        grants := a.grants
        loopDepth := 1
        location := a.location.child [.inl "body"] }

def loopResolution (a : Seat) (loop : Loop) (inputs outputs : List Port) (bound body : Sources)
    (members : List ScopePath) (feedback : List ResolvedPortBinding) (continuation : PortAddress) :
    LoopResolution where
  scope := a.scope
  bodyScope := a.scope.child loopBodySegment
  maxIterations := loop.maxIterations
  inputPorts := inputs
  initialBindings := (loopSeeds (a.scope.child loopBodySegment) inputs bound).map Prod.fst
  feedbackBindings := feedback
  continueSource := continuation
  exports := loopExports a.levelScope a.node.id outputs body loop.continueFrom
  memberOrder := members

/-- A loop whose boundary is known, into its sealed program. -/
def compileBounded (w : World δ) (rec : Seat → Compile δ Sources) (a : Seat) (loop : Loop)
    (bodyInputs bodyOutputsDeclared : List Port) : Compile δ Sources := do
  let loopScope := a.scope
  let bodyScope := loopScope.child loopBodySegment
  validateUniquePorts (.bodyInputs loopScope) bodyInputs
  validateUniquePorts (.bodyOutputs loopScope) bodyOutputsDeclared
  let inputsByName := portsByName bodyInputs
  let outputsByName := portsByName bodyOutputsDeclared
  emitFaults (loop.feedback.entries.flatMap (feedbackFaults loopScope inputsByName outputsByName))
  emitFaults (continueFaults w.hashing loopScope outputsByName loop.continueFrom)
  let bound ← bindNodeInputs a bodyInputs loop.feedback.keys
  let seeds := loopSeeds bodyScope bodyInputs bound
  let body ← Emit.listen (compileBody rec a loop bodyScope (Dict.ofList (seeds.map Prod.snd)))
  emitFaults (if atomicsOf body.2 = [] then [.emptyLoop loopScope] else [])
  let feedback ← feedbackBindings loopScope bodyScope inputsByName outputsByName body.1
    loop.feedback.entries
  let continuation ← continueSource loopScope bodyScope outputsByName body.1 loop.continueFrom
  let sealed := loopResolution a loop bodyInputs bodyOutputsDeclared bound body.1 (atomicsOf body.2)
    feedback continuation
  Emit.tell (.loop sealed)
  pure (exportedSources sealed.exports)

/-- `_compile_loop` -/
def compileLoop (w : World δ) (rec : Seat → Compile δ Sources) (a : Seat) (loop : Loop) :
    Compile δ Sources := do
  match ← loopBoundary w loop (a.scope.child loopBodySegment) with
  | none => pure .empty
  | some boundary => compileBounded w rec a loop boundary.1 boundary.2

/-! ## Nodes -/

/-- Re-tag the sources bound at a composite's boundary with its declared ports. -/
def retag (inputs : List Port) (bound : Sources) : Sources :=
  ⟨bound.entries.map (fun (name, sources) =>
    (name, sources.map (fun s => ⟨s.address, ((portsByName inputs).get? name).getD s.port⟩)))⟩

/-- A composite reference: its graph compiles over the re-tagged boundary. -/
def compileComposite (w : World δ) (rec : Seat → Compile δ Sources) (a : Seat)
    (stored : StoredVersion) (g : Graph) (bound : Sources) (grants : EffectiveGrants) :
    Compile δ Sources :=
  match boundaryLie w.hashing stored a.scope with
  | some f => do
    fault f
    pure .empty
  | none => compileGraphWith rec g
      { scope := a.scope
        inputSources := retag stored.definition.inputs bound
        grants := grants
        loopDepth := a.loopDepth
        location := ⟨[.inl "body"], some (stored.definition.name, stored.contentHash)⟩ }

/-- A resolved reference: record it, bind its inputs, then compile or register it. -/
def compileStored (w : World δ) (rec : Seat → Compile δ Sources) (a : Seat) (ref : Ref)
    (stored : StoredVersion) : Compile δ Sources := do
  let grants ← compileGrants a.grants ref.grants a.scope
  recordResolution w stored ref a.scope
  let bound ← bindNodeInputs a stored.definition.inputs
  match stored.definition.body with
  | .graph g => compileComposite w rec a stored g bound grants
  | .python _ => registerAtomic w a stored.definition bound ref grants

/-- The `Ref` branch of `_compile_node`. -/
def compileRef (w : World δ) (rec : Seat → Compile δ Sources) (a : Seat) (ref : Ref) :
    Compile δ Sources := do
  match ← resolveRef w ref a.scope with
  | none => pure .empty
  | some stored => compileStored w rec a ref stored

/-- The inline branch of `_compile_node`: the bound sources are forwarded. -/
def compileInline (rec : Seat → Compile δ Sources) (a : Seat) (g : Graph) : Compile δ Sources := do
  let bound ← bindNodeInputs a g.inputs
  compileGraphWith rec g
    { scope := a.scope
      inputSources := bound
      grants := a.grants
      loopDepth := a.loopDepth
      location := a.location }

/-- One turn of the recursion of `_compile_node`. -/
def compileNodeWith (w : World δ) (rec : Seat → Compile δ Sources) (a : Seat) : Compile δ Sources :=
  match a.node.body with
  | .loop loop =>
    if a.loopDepth ≠ 0 then do
      fault (.nestedLoop a.scope)
      pure .empty
    else compileLoop w rec a loop
  | .ref ref => compileRef w rec a ref
  | .graph g => compileInline rec a g

/-- `_compile_node` with `depth` nested calls left on the stack. -/
def compileNode (w : World δ) : ℕ → Seat → Compile δ Sources
  | 0, _ => Emit.raise .recursionError
  | depth + 1, a => compileNodeWith w (compileNode w depth) a

/-- `_compile_graph` -/
def compileGraph (w : World δ) (depth : ℕ) (g : Graph) (l : Level) : Compile δ Sources :=
  compileGraphWith (compileNode w depth) g l

/-! ## The boundary every authoring surface passes through -/

inductive AdmitError where
  | admissionError (faults : List Fault)
  | recursionError

/-- The arguments of one admission besides the graph. -/
structure Admission (δ : Type) where
  snapshot : RegistrySnapshot
  assembly : Assembly δ
  hashing : Hashing δ
  rootGrants : EffectiveGrants
  inputs : Dict String Json
  resolutionLock : Option ResolutionLock := none

def Admission.world (adm : Admission δ) (g : Graph) : World δ where
  snapshot := adm.snapshot
  assembly := adm.assembly
  hashing := adm.hashing
  sourceGraphHash := sourceGraphHashFor adm.hashing g
  resolutionLock := adm.resolutionLock

/-- Faults of the run inputs against the declared graph inputs. -/
def inputFaults (g : Graph) (inputs : Dict String Json) : List Fault :=
  let declared := sortStrings (g.inputs.map Port.name).dedup
  let required := ((g.inputs.filter (fun p => p.cardinality ≠ .optional)).map Port.name).dedup
  let missing := sortStrings (required.filter (fun n => inputs.contains n = false))
  let extra := sortStrings (inputs.keys.filter (fun n => n ∉ declared))
  (if missing ≠ [] then [.missingInputs missing declared] else []) ++
  (if extra ≠ [] then [.extraInputs extra declared] else [])

/-- The root level of an admission: only supplied inputs are sources. -/
def rootLevel (adm : Admission δ) (g : Graph) : Level where
  scope := [g.name]
  inputSources := Dict.ofList ((g.inputs.filter (fun p => adm.inputs.contains p.name)).map
    (fun p => (p.name, [⟨.graphInput [g.name] p.name, p⟩])))
  grants := adm.rootGrants
  loopDepth := 0
  location := {}

def outputBindings (g : Graph) (outputs : Sources) : List ResolvedPortBinding :=
  g.outputs.filterMap (fun port =>
    match outputs.getD port.name [] with
    | [] => none
    | sources => some ⟨.graphOutput [g.name] port.name, sources.map Source.address⟩)

/-- Faults of the lock pins no reference consumed. -/
def unusedPinFaults (lock : Option ResolutionLock) (consumed : List ScopePath) : List Fault :=
  match lock with
  | none => []
  | some lock =>
    ((lock.entries.filter (fun p => p.1 ∉ consumed)).insertionSort (fun a b => ScopePath.le a.1 b.1)).map
      (fun p => .unusedPin p.2)

/-- The compilation of `admit`: everything it logs before sealing. -/
def admitCompile (adm : Admission δ) (depth : ℕ) (g : Graph) : Compile δ Unit := do
  validateUniquePorts (.rootInputs g.name) g.inputs
  validateUniquePorts (.rootOutputs g.name) g.outputs
  emitFaults (inputFaults g adm.inputs)
  let root ← Emit.listen (compileGraph (adm.world g) depth g (rootLevel adm g))
  Emit.tellAll ((outputBindings g root.1).map .binding)
  emitFaults (unusedPinFaults adm.resolutionLock (pinsOf root.2))

/-- The manifest sealed from a compilation's log. -/
def sealManifest (adm : Admission δ) (g : Graph) (log : List (Emitted δ)) : ExecutionManifest δ :=
  let h := adm.hashing
  let capabilities := capabilitiesOf log
  let bindsChannel := capabilities.any (fun b => b.channel.isSome)
  let draft : ExecutionManifest δ :=
    { schemaVersion := if bindsChannel then manifestChannelSchemaVersion else manifestSchemaVersion
      sourceGraph := g
      sourceGraphHash := sourceGraphHashFor h g
      resolvedComponents := resolutionsOf log
      resolvedConnections := bindingsOf log
      capabilityBindings := capabilities
      resolvedLoops := loopsOf log
      inputHash := h.digest "inputs" 1 (.obj adm.inputs.entries)
      worldHash := worldHashFor h (resolutionsOf log) capabilities
      manifestHash := h.digest "manifest-placeholder" 1 (.obj []) }
  { draft with manifestHash := manifestHashFor h draft }

/-- `admit`, with `depth` nested node compilations available. -/
def admitGraph (adm : Admission δ) (depth : ℕ) (g : Graph) : Except AdmitError (ExecutionManifest δ) :=
  let c := admitCompile adm depth g
  match c.result with
  | .error .compFaults => .error (.admissionError (faultsOf c.log))
  | .error (.admissionError faults) => .error (.admissionError faults)
  | .error .recursionError => .error .recursionError
  | .ok () =>
    if faultsOf c.log = [] then .ok (sealManifest adm g c.log)
    else .error (.admissionError (faultsOf c.log))

end Constructicon
