import Constructicon.Compilation

/-!
# One graph level

The structural checks and orders of a single level: declared endpoints, absence
of connection cycles, the upstream closure, the node order, explicit maps and
unique port names. None of them looks inside a node body.
-/

namespace Constructicon

variable {δ : Type}

def nodeIds (g : Graph) : List String := g.nodes.map NodeOf.id

/-- The authored connections of a level, without their maps. -/
def connectionEdges (g : Graph) : List (String × String) := g.connections.map (fun c => (c.src, c.dst))

/-- The roles of an edge that name no node of the level. -/
def missingRoles (ids : List String) (edge : String × String) : List String :=
  ([("src", edge.1), ("dst", edge.2)].filter (fun r => r.2 ∉ ids)).map Prod.fst

/-- The faults of `_validate_connection_endpoints`; the level is valid when there
are none. -/
def endpointFaults (g : Graph) (scope : ScopePath) (location : GraphLocation) : List Fault :=
  ((connectionEdges g).zipIdx.filter (fun e => missingRoles (nodeIds g) e.1 ≠ [])).map
    (fun (edge, index) => .located (location.child [.inl "connections", .inr index]) scope
      .unknownConnectionNode [("connection_index", .int index), ("source_node", .str edge.1),
        ("destination_node", .str edge.2),
        ("missing_roles", Json.strs (missingRoles (nodeIds g) edge))])

/-- A connection that closes a cycle, with the search trail it was met on. -/
structure BackEdge where
  trail : List String
  index : ℕ
  target : String

/-- The search state of `_reject_cycles`: a node is absent (unseen), `true` (on the
stack) or `false` (done); the innermost frame comes first. -/
structure CycleSearch where
  state : Dict String Bool
  trail : List String
  frames : List (List (ℕ × String))
  found : List BackEdge

def outgoing (edges : List (String × String)) : Dict String (List (ℕ × String)) :=
  edges.zipIdx.foldl (fun d (edge, index) =>
    d.insert edge.1 (d.getD edge.1 [] ++ [(index, edge.2)])) .empty

/-- One turn of the inner `while frames` loop. -/
def CycleSearch.step (out : Dict String (List (ℕ × String))) (s : CycleSearch) : CycleSearch :=
  match s.frames with
  | [] => s
  | [] :: frames =>
    { s with
      state := s.state.insert (s.trail.getLastD "") false
      trail := s.trail.dropLast
      frames := frames }
  | ((index, target) :: rest) :: frames =>
    match s.state.get? target with
    | some true =>
      { s with frames := rest :: frames, found := s.found ++ [⟨s.trail, index, target⟩] }
    | some false => { s with frames := rest :: frames }
    | none =>
      { s with
        state := s.state.insert target true
        trail := s.trail ++ [target]
        frames := out.getD target [] :: rest :: frames }

/-- Search from one root. Every turn consumes an edge or closes a node, so the
bound of turns is never met. -/
def CycleSearch.drain (out : Dict String (List (ℕ × String))) : ℕ → CycleSearch → CycleSearch
  | 0, s => s
  | turns + 1, s => if s.frames = [] then s else drain out turns (s.step out)

/-- The back edges of a depth-first search in declaration order. -/
def backEdges (ids : List String) (edges : List (String × String)) : List BackEdge :=
  let out := outgoing edges
  (ids.foldl (fun (s : CycleSearch) id =>
    if s.state.contains id then s
    else CycleSearch.drain out (edges.length + ids.length + 1)
      { s with state := s.state.insert id true, trail := [id], frames := [out.getD id []] })
    { state := .empty, trail := [], frames := [], found := [] }).found

/-- The faults of `_reject_cycles`, one for each back edge. -/
def cycleFaults (g : Graph) (scope : ScopePath) (location : GraphLocation) : List Fault :=
  (backEdges (nodeIds g) (connectionEdges g)).map (fun e =>
    .located (location.child [.inl "connections", .inr e.index]) scope .graphCycle
      [("connection_index", .int e.index), ("source_node", .str (e.trail.getLastD "")),
        ("destination_node", .str e.target),
        ("cycle", Json.strs (e.trail.drop (e.trail.idxOf e.target) ++ [e.target]))])

def directParents (ids : List String) (edges : List (String × String)) : Dict String (List String) :=
  edges.foldl (fun d e => d.insert e.2 (d.getD e.2 [] ++ [e.1]))
    (Dict.ofList (ids.map (fun id => (id, []))))

def addNew (ordered : List String) (name : String) : List String :=
  if name ∈ ordered then ordered else ordered ++ [name]

/-- `visit` of `_upstream_closure`: the ancestors of `name` and the grown memo. The
`seen` names are distinct, so the recursion is never deeper than the level has nodes. -/
def visitUpstream (direct : Dict String (List String)) : ℕ → List String →
    Dict String (List String) → String → List String × Dict String (List String)
  | 0, _, closure, _ => ([], closure)
  | depth + 1, seen, closure, name =>
    match closure.get? name with
    | some ordered => (ordered, closure)
    | none =>
      let r := (direct.getD name []).foldl (fun (acc : List String × Dict String (List String)) parent =>
        if parent ∈ seen then acc
        else
          let v := visitUpstream direct depth (seen ++ [name]) acc.2 parent
          (addNew (v.1.foldl addNew acc.1) parent, v.2)) ([], closure)
      (r.1, r.2.insert name r.1)

/-- `_upstream_closure` -/
def upstreamClosure (ids : List String) (edges : List (String × String)) :
    Dict String (List String) :=
  ids.foldl (fun closure id =>
    (visitUpstream (directParents ids edges) (ids.length + 2) [] closure id).2) .empty

/-- `by_id`: the last node declared under each id. -/
def nodesById (g : Graph) : Dict String GraphNode :=
  Dict.ofList (g.nodes.map (fun n => (n.id, n)))

/-- The names of a level in the order `_ordered_nodes` places them. -/
def nodeOrder (graph : String) (ids : List String) (upstream : Dict String (List String)) :
    Except Raised (List String) :=
  if ¬ ids.Nodup then .error (.admissionError [.duplicateNodeIds graph])
  else
    match Place.placeAll (fun name => name ∈ ids) (fun name => upstream.getD name []) (ids.length + 2)
        ids with
    | .ok order => .ok order
    | .error (.unknown name) => .error (.admissionError [.unknownNode graph name])
    | .error (.cycle trail name) => .error (.admissionError [.cycleOutsideLoop trail name])
    | .error .depth => .error .recursionError

/-- `_ordered_nodes`: every node after its upstream closure. -/
def orderedNodes (g : Graph) (upstream : Dict String (List String)) : Except Raised (List GraphNode) :=
  (nodeOrder g.name (nodeIds g) upstream).map (fun order => order.filterMap (nodesById g).get?)

/-- `_explicit_maps`: map entries in connection order, ports sorted within one. -/
def explicitMaps (g : Graph) (location : GraphLocation) : List MapEntry :=
  g.connections.zipIdx.flatMap (fun (connection, index) =>
    (Json.sortKeys connection.map.entries).map (fun p =>
      ⟨index, connection.dst, p.1, p.2, location⟩))

/-- The first connection that enters each node. -/
def incomingConnectionIndices (g : Graph) : Dict String ℕ :=
  g.connections.zipIdx.foldl (fun d (connection, index) => d.setDefault connection.dst index) .empty

def nodeIndices (g : Graph) : Dict String ℕ :=
  Dict.ofList (g.nodes.zipIdx.map (fun (n, i) => (n.id, i)))

/-- The names a port list declares more than once. -/
def duplicateNames (ports : List Port) : List String :=
  ((ports.map Port.name).filter (fun n => 1 < (ports.map Port.name).count n)).dedup

/-- `_validate_unique_ports` -/
def validateUniquePorts (site : PortsSite) (ports : List Port) : Compile δ Unit :=
  if duplicateNames ports = [] then pure ()
  else fault (.duplicatePorts site (sortStrings (duplicateNames ports)))

end Constructicon
