import Constructicon.Level

/-!
# Binding ports to sources

The fixed nominal rules of `_bind_port` (a unique exact-name match, else a unique
contract match, else all contract matches for a gathering port), explicit
selectors, and the binding of all inputs of one node.
-/

namespace Constructicon

variable {δ : Type}

/-- `_source_matches`: the source is known under the port's nominal contract. -/
def Source.matches (s : Source) (port : Port) : Bool :=
  s.port.typeId = port.typeId ∧ s.port.schemaHash = port.schemaHash

/-- `_ports_same_contract` -/
def portsSameContract (left right : Port) : Bool :=
  left.typeId = right.typeId ∧ left.schemaHash = right.schemaHash

/-- Where a port is being bound. The level's node outputs and inputs are present
for a node input and absent for a graph output; `upstream` names the nodes whose
outputs are in the pool. -/
structure BindSite where
  location : GraphLocation
  scope : ScopePath
  destinationNode : Option String := none
  levelLocation : Option GraphLocation := none
  incomingConnectionIndex : Option ℕ := none
  level : Option (NodeLookup × Sources × List String) := none

def nodeEvidence (destinationNode : Option String) : List (String × Json) :=
  match destinationNode with
  | some n => [("destination_node", .str n)]
  | none => []

/-- `_map_fault`: a fault located at one entry of a connection map. -/
def mapFault (entry : MapEntry) (scope : ScopePath) (defect : Defect)
    (evidence : List (String × Json)) : Fault :=
  .located (entry.location.child [.inl "connections", .inr entry.connectionIndex, .inl "map",
      .inl entry.destinationPort]) scope defect
    ([("connection_index", .int entry.connectionIndex),
      ("destination_node", .str entry.destinationNode),
      ("destination_port", .str entry.destinationPort), ("selector", .str entry.selector)] ++ evidence)

def missingSourceFault (site : BindSite) (port : Port) : Fault :=
  .located site.location site.scope .missingPortSource
    (("destination_port", .str port.name) :: nodeEvidence site.destinationNode)

/-- The selectors of one dictionary of outputs that an explicit map could name
instead of the ambiguous port. -/
def selectorsOf (label : String) (outputs : Sources) (port : Port) (sources : List Source) :
    List String :=
  (Json.sortKeys outputs.entries).filterMap (fun (name, resolved) =>
    match resolved with
    | [source] =>
      if name ≠ "" ∧ source ∈ sources ∧ source.port.cardinality = .one ∧ source.matches port then
        some (label ++ "." ++ name)
      else none
    | _ => none)

/-- `_applicable_selectors`. Only upstream nodes put their own objects in the pool,
so identity with an ambiguous source is membership of an upstream output. -/
def applicableSelectors (port : Port) (sources : List Source)
    (level : Option (NodeLookup × Sources × List String)) : List String :=
  match level with
  | none => []
  | some (lookup, inputs, upstream) =>
    sortStrings ((Json.sortKeys lookup.entries).flatMap (fun (node, outputs) =>
        if node = "$input" ∨ '.' ∈ node.toList ∨ node ∉ upstream then []
        else selectorsOf node outputs port sources) ++ selectorsOf "$input" inputs port sources)

def ambiguousPortFault (site : BindSite) (port : Port) (sources : List Source) : Fault :=
  let candidates := applicableSelectors port sources site.level
  match site.destinationNode, site.levelLocation, site.incomingConnectionIndex, candidates with
  | some node, some levelLocation, some index, selector :: _ =>
    mapFault ⟨index, node, port.name, selector, levelLocation⟩ site.scope .ambiguousNodeInput
      [("candidate_selectors", Json.strs candidates)]
  | node, _, _, _ =>
    .located site.location site.scope
      (if node = none then .ambiguousGraphOutput else .ambiguousNodeInputUnmappable)
      ([("destination_port", .str port.name), ("candidate_selectors", Json.strs candidates)] ++
        nodeEvidence node)

/-- `_bind_port`: ambiguity is never guessed. -/
def bindPort (site : BindSite) (port : Port) (pool : List Source) :
    Compile δ (Option (List Source)) :=
  let typed := pool.filter (fun s => s.matches port)
  let named := typed.filter (fun s => s.port.name = port.name)
  if port.cardinality = .many then
    if typed = [] then do
      fault (missingSourceFault site port)
      pure none
    else pure (some typed)
  else if named.length = 1 then pure (some named)
  else if 1 < named.length then do
    fault (ambiguousPortFault site port named)
    pure none
  else if typed.length = 1 then pure (some typed)
  else if 1 < typed.length then do
    fault (ambiguousPortFault site port typed)
    pure none
  else if port.cardinality = .optional then pure none
  else do
    fault (missingSourceFault site port)
    pure none

/-- `selector.partition(".")`, without the separator. -/
def partitionDot (s : String) : String × String :=
  (String.ofList (s.toList.takeWhile (· ≠ '.')),
    String.ofList ((s.toList.dropWhile (· ≠ '.')).drop 1))

def Contract.evidence (c : Contract) : Json :=
  .obj [("type_id", .str c.typeId), ("schema_hash", .str c.schemaHash)]

/-- The sources that the two halves of a selector name. -/
def selectedSources (parts : String × String) (lookup : NodeLookup) (inputs : Sources) :
    List Source :=
  if parts.1 = "$input" then inputs.getD parts.2 []
  else (lookup.getD parts.1 .empty).getD parts.2 []

/-- `_resolve_selector` -/
def resolveSelector (entry : MapEntry) (port : Port) (lookup : NodeLookup) (inputs : Sources)
    (scope : ScopePath) : Compile δ (Option Source) :=
  let parts := partitionDot entry.selector
  if parts.2 = "" then do
    fault (mapFault entry scope .malformedSelector [])
    pure none
  else
    match selectedSources parts lookup inputs with
    | [source] =>
      if source.port.cardinality ≠ .one then do
        fault (mapFault entry scope .explicitSourceContract
          [("source_cardinality", .str source.port.cardinality.text)])
        pure none
      else if source.matches port = false then do
        fault (mapFault entry scope .explicitSourceContract
          [("source_contract", source.port.contract.evidence),
            ("destination_contract", port.contract.evidence)])
        pure none
      else pure (some source)
    | sources => do
      fault (mapFault entry scope .explicitSourceContract [("resolved_count", .int sources.length)])
      pure none

/-- The arguments of one `_compile_node` call. -/
structure Seat where
  node : GraphNode
  levelScope : ScopePath
  pool : List Source
  explicit : List MapEntry
  nodeLookup : NodeLookup
  inputSources : Sources
  grants : EffectiveGrants
  loopDepth : ℕ
  location : GraphLocation
  levelLocation : GraphLocation
  incomingConnectionIndex : Option ℕ
  upstream : List String

/-- `level_scope.child(node.id)` -/
def Seat.scope (a : Seat) : ScopePath := a.levelScope.child a.node.id

def Seat.site (a : Seat) : BindSite where
  location := a.location
  scope := a.scope
  destinationNode := some a.node.id
  levelLocation := some a.levelLocation
  incomingConnectionIndex := a.incomingConnectionIndex
  level := some (a.nodeLookup, a.inputSources, a.upstream)

/-- Explicit entries by destination port and selector, the first mention winning;
an entry for an undeclared input is a fault. -/
def groupMaps (scope : ScopePath) (declared : List String) :
    List MapEntry → Dict String (Dict String MapEntry) → Compile δ (Dict String (Dict String MapEntry))
  | [], byPort => pure byPort
  | entry :: entries, byPort =>
    if entry.destinationPort ∉ declared then do
      fault (mapFault entry scope .unusedMapDestination [])
      groupMaps scope declared entries byPort
    else
      groupMaps scope declared entries
        (byPort.insert entry.destinationPort
          ((byPort.getD entry.destinationPort .empty).setDefault entry.selector entry))

def resolveSelectors (port : Port) (lookup : NodeLookup) (inputs : Sources) (scope : ScopePath) :
    List MapEntry → Compile δ (List (Option Source))
  | [] => pure []
  | entry :: entries => do
    let s ← resolveSelector entry port lookup inputs scope
    let ss ← resolveSelectors port lookup inputs scope entries
    pure (s :: ss)

/-- The entry recorded for the port that two maps both name. -/
def duplicateMapFault (scope : ScopePath) (port : Port) (first conflict : MapEntry) : Fault :=
  mapFault conflict scope .duplicateMapDestination
    [("destination_cardinality", .str port.cardinality.text),
      ("first_connection_index", .int first.connectionIndex), ("first_selector", .str first.selector)]

/-- The first two of several entries that name one scalar port. -/
def mapConflict (port : Port) : List MapEntry → Option (MapEntry × MapEntry)
  | first :: conflict :: _ => if port.cardinality = .many then none else some (first, conflict)
  | _ => none

/-- One port of `_bind_node_inputs`: maps replace the pool, a feedback port needs a
seed, anything else binds by the nominal rules. -/
def bindNodePort (a : Seat) (byPort : Dict String (Dict String MapEntry)) (feedback : List String)
    (port : Port) : Compile δ (Option (List Source)) :=
  let entries := (byPort.getD port.name .empty).values
  if entries ≠ [] then
    match mapConflict port entries with
    | some (first, conflict) => do
      fault (duplicateMapFault a.scope port first conflict)
      pure none
    | none => do
      let selected ← resolveSelectors port a.nodeLookup a.inputSources a.scope entries
      if selected.all Option.isSome then pure (some (selected.filterMap id)) else pure none
  else if port.name ∈ feedback ∧ a.pool.all (fun s => s.matches port = false) then do
    fault (.located a.location a.scope .missingFeedbackSeed
      [("destination_node", .str a.node.id), ("destination_port", .str port.name)])
    pure none
  else bindPort a.site port a.pool

def bindPorts (a : Seat) (byPort : Dict String (Dict String MapEntry)) (feedback : List String) :
    List Port → Sources → Compile δ Sources
  | [], bound => pure bound
  | port :: ports, bound => do
    match ← bindNodePort a byPort feedback port with
    | some sources => bindPorts a byPort feedback ports (bound.insert port.name sources)
    | none => bindPorts a byPort feedback ports bound

/-- `_bind_node_inputs` -/
def bindNodeInputs (a : Seat) (inputs : List Port) (feedback : List String := []) :
    Compile δ Sources := do
  let byPort ← groupMaps a.scope (inputs.map Port.name) a.explicit .empty
  bindPorts a byPort feedback inputs .empty

end Constructicon
