import Constructicon.Registry

/-!
# The sealed manifest and its identity

`ExecutionManifest` is the compiled result of admission: resolved components,
explicit port bindings, capability bindings and loop programs. The `dump`
functions are the JSON encodings that enter the identity payloads;
`manifestHashFor` covers exactly `manifestIdentityPayload`.
-/

namespace Constructicon

/-- `SELF_BINDING` and `SELF_CAPABILITY`. -/
def selfBinding : String := "__node__"

def manifestSchemaVersion : ℕ := 2
def manifestChannelSchemaVersion : ℕ := 3

def continueType : String := "constructicon/continue"

def continueSchema : Json := .obj [("type", .str "boolean")]

structure ResolvedPortBinding where
  destination : PortAddress
  sources : List PortAddress
deriving DecidableEq, Repr

structure ComponentResolution (δ : Type) where
  scope : ScopePath
  component : String
  requestedVersion : Option String
  resolvedVersion : String
  contractHash : δ
  implementationDigest : Option String
deriving DecidableEq

structure CapabilityBinding where
  scope : ScopePath
  binding : String
  capabilityId : String
  revision : String
  effectiveGrants : EffectiveGrants
  channel : Option ChannelBinding := none
deriving DecidableEq

/-- One value a completed loop publishes to its outer graph; the destination is
the port `port` of node `node` at `scope`. -/
structure LoopExport where
  port : Port
  destination : PortAddress
  sources : List PortAddress
deriving DecidableEq

structure LoopResolution where
  scope : ScopePath
  bodyScope : ScopePath
  maxIterations : ℕ+
  inputPorts : List Port
  initialBindings : List ResolvedPortBinding
  feedbackBindings : List ResolvedPortBinding
  continueSource : PortAddress
  exports : List LoopExport
  memberOrder : List ScopePath
deriving DecidableEq

structure ExecutionManifest (δ : Type) where
  schemaVersion : ℕ
  sourceGraph : Graph
  sourceGraphHash : δ
  resolvedComponents : List (ComponentResolution δ)
  resolvedConnections : List ResolvedPortBinding
  capabilityBindings : List CapabilityBinding
  resolvedLoops : List LoopResolution
  inputHash : δ
  worldHash : δ
  manifestHash : δ

/-! ## JSON encodings -/

def Json.strs (l : List String) : Json := .arr (l.map .str)

def Json.optStr : Option String → Json
  | none => .null
  | some s => .str s

def Json.ofDict (d : Dict String String) : Json := .obj (d.entries.map (fun p => (p.1, .str p.2)))

def Cardinality.text : Cardinality → String
  | .one => "one"
  | .optional => "optional"
  | .many => "many"

def Port.dump (p : Port) : Json :=
  .obj [("name", .str p.name), ("type_id", .str p.typeId), ("schema_hash", .str p.schemaHash),
    ("json_schema", p.jsonSchema.getD .null), ("cardinality", .str p.cardinality.text)]

def ScopePath.dump (s : ScopePath) : Json := .obj [("segments", Json.strs s)]

def PortAddress.dump : PortAddress → Json
  | .graphInput s p => .obj [("kind", .str "graph_input"), ("scope", ScopePath.dump s), ("port", .str p)]
  | .nodePort s n p =>
    .obj [("kind", .str "node_port"), ("scope", ScopePath.dump s), ("node", .str n), ("port", .str p)]
  | .graphOutput s p => .obj [("kind", .str "graph_output"), ("scope", ScopePath.dump s), ("port", .str p)]

def ResolvedPortBinding.dump (b : ResolvedPortBinding) : Json :=
  .obj [("destination", b.destination.dump), ("sources", .arr (b.sources.map PortAddress.dump))]

def Posture.text : Posture → String
  | .read => "read"
  | .write => "write"

def NetworkMode.text : NetworkMode → String
  | .none => "none"
  | .allow => "allow"

def NetworkRequest.text : NetworkRequest → String
  | .inherit => "inherit"
  | .mode m => m.text

def Json.optNat : Option ℕ+ → Json
  | none => .null
  | some n => .int n

def ModelSelection.dump : ModelSelection → Json
  | .explicit m => .obj [("kind", .str "explicit"), ("model", Json.optStr m)]
  | .backendDefault m => .obj [("kind", .str "backend_default"), ("model", Json.optStr m)]

def GrantRequest.dump (g : GrantRequest) : Json :=
  .obj [("posture", Json.optStr (g.posture.map Posture.text)), ("model", Json.optStr g.model),
    ("effort", Json.optStr g.effort),
    ("allowed_tools", (g.allowedTools.map Json.strs).getD .null),
    ("env_allowlist", (g.envAllowlist.map Json.strs).getD .null),
    ("network", .str g.network.text), ("timeout_s", Json.optNat g.timeoutS)]

def EffectiveGrants.dump (g : EffectiveGrants) : Json :=
  .obj [("posture", .str g.posture.text), ("model_selection", g.modelSelection.dump),
    ("effort", Json.optStr g.effort), ("allowed_tools", Json.strs g.allowedTools),
    ("env_allowlist", Json.strs g.envAllowlist), ("network", .str g.network.text),
    ("timeout_s", .int g.timeoutS)]

def ChannelInteraction.text : ChannelInteraction → String
  | .advice => "advice"
  | .approval => "approval"

def Contract.dump (c : Contract) : Json :=
  .obj [("type_id", .str c.typeId), ("schema_hash", .str c.schemaHash)]

def ChannelEndpoint.dump (e : ChannelEndpoint) : Json :=
  .obj [("lane", .str e.lane), ("interaction", .str e.interaction.text),
    ("recipient_actor_id", Json.optStr e.recipientActorId)]

def ChannelBinding.dump (b : ChannelBinding) : Json :=
  .obj [("endpoint", b.endpoint.dump), ("port", .str b.port), ("contract", b.contract.dump),
    ("reply_port", .str b.replyPort), ("reply_contract", b.replyContract.dump)]

/-- A binding without a channel omits the key, as before channels existed. -/
def CapabilityBinding.dump (b : CapabilityBinding) : Json :=
  .obj ([("scope", ScopePath.dump b.scope), ("binding", .str b.binding),
    ("capability_id", .str b.capabilityId), ("revision", .str b.revision),
    ("effective_grants", b.effectiveGrants.dump), ("lifetime", .str "invocation")] ++
      match b.channel with
      | none => []
      | some c => [("channel", c.dump)])

def LoopExport.dump (e : LoopExport) : Json :=
  .obj [("port", e.port.dump), ("destination", e.destination.dump),
    ("sources", .arr (e.sources.map PortAddress.dump))]

def LoopResolution.dump (l : LoopResolution) : Json :=
  .obj [("scope", ScopePath.dump l.scope), ("body_scope", ScopePath.dump l.bodyScope),
    ("max_iterations", .int l.maxIterations), ("input_ports", .arr (l.inputPorts.map Port.dump)),
    ("initial_bindings", .arr (l.initialBindings.map ResolvedPortBinding.dump)),
    ("feedback_bindings", .arr (l.feedbackBindings.map ResolvedPortBinding.dump)),
    ("continue_source", l.continueSource.dump), ("exports", .arr (l.exports.map LoopExport.dump)),
    ("member_order", .arr (l.memberOrder.map ScopePath.dump))]

def Ref.dump (r : Ref) : Json :=
  .obj [("component", .str r.component), ("version", Json.optStr r.version),
    ("bind", Json.ofDict r.bind), ("grants", (r.grants.map GrantRequest.dump).getD .null)]

def Connection.dump (c : Connection) : Json :=
  .obj [("src", .str c.src), ("dst", .str c.dst), ("map", Json.ofDict c.map)]

mutual

def Body.dump : Body → Json
  | .ref r => r.dump
  | .graph g => dumpGraph g
  | .loop ⟨.inl r, feedback, continueFrom, maxIterations⟩ =>
    .obj [("body", r.dump), ("feedback", Json.ofDict feedback),
      ("continue_from", .str continueFrom), ("max_iterations", .int maxIterations)]
  | .loop ⟨.inr g, feedback, continueFrom, maxIterations⟩ =>
    .obj [("body", dumpGraph g), ("feedback", Json.ofDict feedback),
      ("continue_from", .str continueFrom), ("max_iterations", .int maxIterations)]

def dumpGraph : GraphOf Body → Json
  | ⟨name, nodes, connections, inputs, outputs⟩ =>
    .obj [("schema_version", .int 1), ("name", .str name), ("nodes", .arr (dumpNodes nodes)),
      ("connections", .arr (connections.map Connection.dump)),
      ("inputs", .arr (inputs.map Port.dump)), ("outputs", .arr (outputs.map Port.dump))]

def dumpNodes : List (NodeOf Body) → List Json
  | [] => []
  | ⟨id, body⟩ :: nodes => .obj [("id", .str id), ("body", body.dump)] :: dumpNodes nodes

end

/-- `graph.model_dump(mode="json")` -/
def Graph.dump (g : Graph) : Json := dumpGraph g

section Identity

variable {δ : Type} (h : Hashing δ)

def digestJson (d : δ) : Json := .str (h.text d)

def ComponentResolution.dump (r : ComponentResolution δ) : Json :=
  .obj [("scope", ScopePath.dump r.scope), ("component", .str r.component),
    ("requested_version", Json.optStr r.requestedVersion),
    ("resolved_version", .str r.resolvedVersion), ("contract_hash", digestJson h r.contractHash),
    ("implementation_digest", Json.optStr r.implementationDigest)]

def sourceGraphHashFor (g : Graph) : δ := h.digest "graph" 1 g.dump

/-- `CONTINUE_SCHEMA_HASH` -/
def continueSchemaHash : String := h.text (h.digest "json-schema" 1 continueSchema)

def componentContractHash (d : ComponentDef) : δ :=
  h.digest "component-contract" 1
    (.obj [("inputs", .arr (d.inputs.map Port.dump)), ("outputs", .arr (d.outputs.map Port.dump))])

def worldHashFor (resolutions : List (ComponentResolution δ))
    (capabilities : List CapabilityBinding) : δ :=
  h.digest "world" 1 (.obj
    [("components", .arr (resolutions.map (fun r =>
        .obj [("scope", Json.strs r.scope), ("component", .str r.component),
          ("version", .str r.resolvedVersion)]))),
      ("capabilities", .arr (capabilities.map (fun b =>
        .obj [("scope", Json.strs b.scope), ("binding", .str b.binding),
          ("capability", .str b.capabilityId), ("revision", .str b.revision)])))])

/-- Exactly the fields covered by the manifest hash; schema 1 predates loops. -/
def manifestIdentityPayload (m : ExecutionManifest δ) : Json :=
  .obj ([("schema_version", .int m.schemaVersion),
    ("source_graph_hash", digestJson h m.sourceGraphHash), ("world_hash", digestJson h m.worldHash),
    ("input_hash", digestJson h m.inputHash),
    ("resolved_components", .arr (m.resolvedComponents.map (ComponentResolution.dump h))),
    ("resolved_connections", .arr (m.resolvedConnections.map ResolvedPortBinding.dump)),
    ("capability_bindings", .arr (m.capabilityBindings.map CapabilityBinding.dump))] ++
      if 2 ≤ m.schemaVersion then [("resolved_loops", .arr (m.resolvedLoops.map LoopResolution.dump))]
      else [])

def manifestHashFor (m : ExecutionManifest δ) : δ :=
  h.digest "manifest" m.schemaVersion (manifestIdentityPayload h m)

end Identity

end Constructicon
