import Constructicon.Binding

/-!
# Resolving references and registering atomic instances

Grants only narrow; a reference resolves against the one snapshot; a retained
composite is re-proved before it is compiled; an atomic instance seals its input
bindings, its grants and its capability bindings.
-/

namespace Constructicon

variable {δ : Type}

/-- The faults `_compile_grants` records for a request under a parent grant. -/
def wideningFaults (parent : EffectiveGrants) (request : GrantRequest) (scope : ScopePath) :
    List Fault :=
  let posture := request.posture.getD parent.posture
  let tools := (request.allowedTools.getD parent.allowedTools).filter (· ∉ parent.allowedTools)
  let env := (request.envAllowlist.getD parent.envAllowlist).filter (· ∉ parent.envAllowlist)
  (if posture = .write ∧ parent.posture = .read then [.postureWidened scope] else []) ++
  (if tools ≠ [] then [.toolsWidened scope (sortStrings tools.dedup)] else []) ++
  (if env ≠ [] then [.environmentWidened scope (sortStrings env.dedup)] else []) ++
  (if request.network = .mode .allow ∧ parent.network = .none then [.networkWidened scope] else []) ++
  (match request.timeoutS with
    | some t => if parent.timeoutS < t then [.timeoutWidened scope t parent.timeoutS] else []
    | none => [])

/-- The concrete grants of a request that does not widen. -/
def narrowedGrants (parent : EffectiveGrants) (request : GrantRequest) : EffectiveGrants where
  posture := request.posture.getD parent.posture
  modelSelection :=
    match request.model with
    | some m => .explicit (some m)
    | none => parent.modelSelection
  effort :=
    match request.effort with
    | some e => if e = "" then parent.effort else some e
    | none => parent.effort
  allowedTools := request.allowedTools.getD parent.allowedTools
  envAllowlist := request.envAllowlist.getD parent.envAllowlist
  network :=
    match request.network with
    | .inherit => parent.network
    | .mode m => m
  timeoutS := request.timeoutS.getD parent.timeoutS

/-- `_compile_grants`: a faulty request leaves the parent's grants in force. -/
def compileGrants (parent : EffectiveGrants) (request : Option GrantRequest) (scope : ScopePath) :
    Compile δ EffectiveGrants :=
  match request with
  | none => pure parent
  | some r => do
    emitFaults (wideningFaults parent r scope)
    if wideningFaults parent r scope = [] then pure (narrowedGrants parent r) else pure parent

/-- `embedded_schema_faults`: direction, port, declared and expected revision of every
port whose embedded schema does not hash to its declared revision. -/
def embeddedSchemaFaults (h : Hashing δ) (d : ComponentDef) :
    List (Bool × String × String × String) :=
  let check (isInput : Bool) (p : Port) : Option (Bool × String × String × String) :=
    match p.jsonSchema with
    | none => none
    | some schema =>
      let expected := h.text (h.digest "json-schema" 1 schema)
      if p.schemaHash ≠ expected then some (isInput, p.name, p.schemaHash, expected) else none
  d.inputs.filterMap (check true) ++ d.outputs.filterMap (check false)

/-- `same_boundary`: equality of canonical bytes, in declared order. -/
def sameBoundary (left right : List Port) : Bool :=
  (Json.arr (left.map Port.dump)).canonical = (Json.arr (right.map Port.dump)).canonical

/-- The fault of `_boundary_lies`, if the stored composite is not what it declares. -/
def boundaryLie (h : Hashing δ) (stored : StoredVersion) (scope : ScopePath) : Option Fault :=
  match stored.definition.body with
  | .python _ => none
  | .graph g =>
    let schemaFaults := embeddedSchemaFaults h stored.definition
    let differs := ¬ (sameBoundary stored.definition.inputs g.inputs ∧
      sameBoundary stored.definition.outputs g.outputs)
    if schemaFaults = [] ∧ ¬ differs then none
    else some (.retainedComposite scope stored.definition.name stored.contentHash schemaFaults differs)

/-- `_resolve_ref` -/
def resolveRef (w : World δ) (ref : Ref) (scope : ScopePath) : Compile δ (Option StoredVersion) :=
  let stored := selectVersion w.snapshot ref scope w.resolutionLock
  let registered := w.snapshot.order.getD ref.component []
  match w.resolutionLock with
  | some lock =>
    match lock.get? scope with
    | none => do
      fault (.pinMissing scope ref.component)
      pure none
    | some pin => do
      Emit.tell (.pin scope)
      if pin.component ≠ ref.component then
        fault (.pinMismatch scope pin.component ref.component)
        pure none
      else match stored with
        | none => do
          fault (.pinUnavailable scope pin)
          pure none
        | some s => pure (some s)
  | none =>
    if w.snapshot.versions.contains ref.component = false then do
      fault (.unknownComponent scope ref.component w.snapshot.names)
      pure none
    else match ref.version with
      | none =>
        match w.snapshot.stableVersion ref.component with
        | none => do
          fault (.noStableVersion scope ref.component registered)
          pure none
        | some stable =>
          match stored with
          | none => do
            fault (.danglingStable scope ref.component stable)
            pure none
          | some s => pure (some s)
      | some version =>
        match stored with
        | none => do
          fault (.noVersion scope ref.component (some version) registered)
          pure none
        | some s => pure (some s)

/-- `_record_resolution` -/
def recordResolution (w : World δ) (stored : StoredVersion) (ref : Ref) (scope : ScopePath) :
    Compile δ Unit :=
  Emit.tell (.resolution
    { scope := scope
      component := stored.definition.name
      requestedVersion := ref.version
      resolvedVersion := stored.contentHash
      contractHash := componentContractHash w.hashing stored.definition
      implementationDigest :=
        match stored.definition.body with
        | .graph _ => none
        | .python p => p.sourceDigest })

def adviceRequestContract : Contract := ⟨"constructicon.std/AdviceRequest", "advice-request-1"⟩
def adviceReplyContract : Contract := ⟨"constructicon.std/AdviceResponse", "advice-response-1"⟩
def approvalRequestContract : Contract := ⟨"constructicon.std/ApprovalRequest", "approval-request-1"⟩
def approvalReplyContract : Contract := ⟨"constructicon.std/ApprovalDecision", "approval-decision-1"⟩

/-- `CANONICAL_EXCHANGES` -/
def canonicalExchanges : List (Contract × Contract × ChannelInteraction) :=
  [(adviceRequestContract, adviceReplyContract, .advice),
    (approvalRequestContract, approvalReplyContract, .approval)]

/-- Whether `canonical_exchange_fault` refuses the exchange. -/
def exchangeRefused (request reply : Contract) (interaction : ChannelInteraction) : Bool :=
  match canonicalExchanges.find? (fun e => request = e.1 ∨ reply = e.2.1) with
  | some e => ¬ (request = e.1 ∧ reply = e.2.1 ∧ interaction = e.2.2)
  | none => interaction = .approval

/-- `_compiled_channel` -/
def compiledChannel (w : World δ) (d : ComponentDef) (scope : ScopePath) (aliasName : String)
    (descriptor : CapabilityDescriptor) : Compile δ (Option ChannelBinding) :=
  let id := descriptor.capabilityId
  match w.assembly.channelIncoherence descriptor with
  | some reason => do
    fault (.channelIncoherent scope aliasName id reason)
    pure none
  | none =>
    if descriptor.isChannel = false then pure none
    else match descriptor.endpoint with
      | none => do
        fault (.channelWithoutEndpoint scope aliasName id)
        pure none
      | some endpoint =>
        match d.inputs, d.outputs with
        | [request], [reply] =>
          if exchangeRefused request.contract reply.contract endpoint.interaction then do
            fault (.channelExchange scope aliasName id)
            pure none
          else pure (some ⟨endpoint, request.name, request.contract, reply.name, reply.contract⟩)
        | inputs, outputs => do
          fault (.channelPorts scope aliasName id d.name inputs.length outputs.length)
          pure none

/-- `_admitted_unavailability`: an authorized provider omits its own published
reasons, never under a resolution lock. -/
def admittedUnavailability (w : World δ) (descriptor : CapabilityDescriptor)
    (capabilityId : String) : List String :=
  let reasons := w.assembly.executorUnavailability descriptor
  if reasons ≠ [] ∧ w.resolutionLock.isNone ∧ w.assembly.executorIncoherent descriptor = false ∧
      w.assembly.authorizesAdmission w.sourceGraphHash capabilityId then []
  else reasons

/-- The posture and policy faults of one bound capability. -/
def capabilityFaults (w : World δ) (scope : ScopePath) (grants : EffectiveGrants)
    (aliasName capabilityId : String) (descriptor : CapabilityDescriptor) : List Fault :=
  (admittedUnavailability w descriptor capabilityId).map
    (.executorUnavailable scope capabilityId aliasName) ++
  (match descriptor.executorProfile with
    | none => []
    | some profile =>
      match profile.grantFaults with
      | some policy => (policy grants).map (.executorGrants scope capabilityId aliasName)
      | none =>
        match profile.offers with
        | none => []
        | some (postures, isolation) =>
          if grants.posture ∉ postures then [.postureNotOffered scope capabilityId grants.posture]
          else if isolation.satisfies grants.posture = false then
            [.postureNotEnforced scope capabilityId grants.posture]
          else []) ++
  (if descriptor.requiresPosture = some .write ∧ grants.posture ≠ .write then
    [.requiresWrite scope capabilityId grants.posture] else [])

/-- The alias loop of `_register_atomic`, in sorted alias order. -/
def bindCapabilities (w : World δ) (d : ComponentDef) (scope : ScopePath) (grants : EffectiveGrants) :
    List (String × String) → Compile δ Unit
  | [] => pure ()
  | (aliasName, capabilityId) :: rest => do
    match w.assembly.catalog.get? capabilityId with
    | none => fault (.unknownCapability scope aliasName capabilityId
        (sortStrings w.assembly.catalog.keys))
    | some descriptor =>
      emitFaults (capabilityFaults w scope grants aliasName capabilityId descriptor)
      let channel ← compiledChannel w d scope aliasName descriptor
      Emit.tell (.capability
        { scope := scope
          binding := aliasName
          capabilityId := capabilityId
          revision := descriptor.revision
          effectiveGrants := grants
          channel := channel })
    bindCapabilities w d scope grants rest

/-- The destination bindings of an atomic instance, in bound order. -/
def inputBindings (levelScope : ScopePath) (node : String) (bound : Sources) :
    List ResolvedPortBinding :=
  bound.entries.map (fun (port, sources) =>
    ⟨.nodePort levelScope node port, sources.map Source.address⟩)

/-- The outputs an atomic instance offers to its level. -/
def atomicOutputs (levelScope : ScopePath) (node : String) (outputs : List Port) : Sources :=
  Dict.ofList (outputs.map (fun p => (p.name, [⟨.nodePort levelScope node p.name, p⟩])))

/-- `_register_atomic` -/
def registerAtomic (w : World δ) (a : Seat) (d : ComponentDef) (bound : Sources) (ref : Ref)
    (grants : EffectiveGrants) : Compile δ Sources := do
  Emit.tellAll ((inputBindings a.levelScope a.node.id bound).map .binding)
  Emit.tell (.capability
    { scope := a.scope
      binding := selfBinding
      capabilityId := selfBinding
      revision := "0"
      effectiveGrants := grants })
  bindCapabilities w d a.scope grants (Json.sortKeys ref.bind.entries)
  Emit.tell (.atomic a.scope)
  pure (atomicOutputs a.levelScope a.node.id d.outputs)

end Constructicon
