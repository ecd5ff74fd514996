import Constructicon.Closedness
import Constructicon.FaultFrames

/-!
# The faults of an admission

`Leaves P x`: every fault that the computation `x` leaves, logged or raised, has the property `P`. One
rule for each way to compose computations, one lemma for each function of the compiler, and the
recursion gives it of an admission: the evidence of a located fault never stands for another entry of
its details, and a level that was searched for cycles is not refused for one again.
-/

namespace Constructicon

open PyJson

variable {φ δ α β : Type}

structure Leaves (P : Fault → Prop) (x : Compile δ α) : Prop where
  logged : ∀ f ∈ faultsOf x.log, P f
  raised : ∀ faults, x.result = .error (.admissionError faults) → ∀ f ∈ faults, P f

section

variable {P : Fault → Prop}

theorem Leaves.pure (a : α) : Leaves P (pure a : Compile δ α) where
  logged _ hf := by cases hf
  raised _ h := by cases h

theorem Leaves.bind {x : Compile δ α} {f : α → Compile δ β} (hx : Leaves P x) (hf : ∀ a, Leaves P (f a)) :
    Leaves P (x >>= f) := by
  cases done : x.result with
  | error e =>
    refine ⟨?_, fun faults h => hx.raised faults ?_⟩
    · rw [Emit.log_bind_error done]
      exact hx.logged
    · rw [Emit.result_bind, done] at h
      rw [done]
      cases h
      rfl
  | ok a =>
    refine ⟨?_, fun faults h => (hf a).raised faults ?_⟩
    · rw [Emit.log_bind_ok done, faultsOf, List.filterMap_append]
      exact List.forall_mem_append.mpr ⟨hx.logged, (hf a).logged⟩
    · rwa [Emit.result_bind_ok done] at h

theorem Leaves.tell {e : Emitted δ} (he : ∀ f, e.fault? = some f → P f) : Leaves P (Emit.tell e : Compile δ Unit) where
  logged f hf := by
    obtain ⟨w, hw, same⟩ := List.mem_filterMap.mp hf
    cases List.mem_singleton.mp hw
    exact he f same
  raised _ h := by cases h

theorem Leaves.tellAll {es : List (Emitted δ)} (hes : ∀ e ∈ es, ∀ f, e.fault? = some f → P f) :
    Leaves P (Emit.tellAll es : Compile δ Unit) where
  logged f hf := by
    obtain ⟨w, hw, same⟩ := List.mem_filterMap.mp hf
    exact hes w hw f same
  raised _ h := by cases h

theorem Leaves.fault {f : Fault} (hf : P f) : Leaves P (Constructicon.fault f : Compile δ Unit) :=
  .tell (fun g same => by cases same; exact hf)

theorem Leaves.emitFaults {fs : List Fault} (hfs : ∀ f ∈ fs, P f) :
    Leaves P (Constructicon.emitFaults fs : Compile δ Unit) := by
  refine .tellAll (fun e he g same => ?_)
  obtain ⟨f, mem, rfl⟩ := List.mem_map.mp he
  exact Option.some.inj same ▸ hfs f mem

theorem Leaves.refused {f : Fault} (hf : P f) (a : α) :
    Leaves P (do Constructicon.fault f; Pure.pure a : Compile δ α) := (Leaves.fault hf).bind (fun _ => .pure a)

theorem Leaves.raise {e : Raised} (he : ∀ faults, e ≠ .admissionError faults) :
    Leaves P (Emit.raise e : Compile δ α) where
  logged _ hf := by cases hf
  raised faults h := absurd (Except.error.inj h) (he faults)

theorem Leaves.ofExcept {x : Except Raised α} (hx : ∀ faults, x = .error (.admissionError faults) → ∀ f ∈ faults, P f) :
    Leaves P (ofExcept x : Compile δ α) where
  logged _ hf := by cases hf
  raised := hx

theorem Leaves.listen {x : Compile δ α} (hx : Leaves P x) : Leaves P (Emit.listen x) := by
  obtain ⟨log, result⟩ := x
  cases result with
  | error e => exact ⟨hx.logged, fun faults h => hx.raised faults (by cases h; rfl)⟩
  | ok a => exact ⟨hx.logged, fun faults h => by cases h⟩

theorem Leaves.refuseOn {fs : List Fault} (hfs : ∀ f ∈ fs, P f) : Leaves P (refuseOn fs : Compile δ Unit) := by
  unfold Constructicon.refuseOn
  split_ifs
  · exact .pure ()
  · exact (Leaves.emitFaults hfs).bind (fun _ => .raise (fun _ => by rintro ⟨⟩))

end

theorem refuseOn_stops (fs : List Fault) : fs = [] ∨ (refuseOn fs : Compile δ Unit).result = .error .compFaults := by
  unfold refuseOn
  split_ifs with none
  · exact .inl none
  · exact .inr rfl

theorem Leaves.stopped {P : Fault → Prop} {x : Compile δ α} (hx : Leaves P x) (stops : x.result = .error .compFaults)
    (f : α → Compile δ β) : Leaves P (x >>= f) := by
  refine ⟨?_, fun faults h => ?_⟩
  · rw [Emit.log_bind_error stops]
    exact hx.logged
  · rw [Emit.result_bind, stops] at h
    cases h

/-! ## Evidence -/

def Shallow (j : Json) : Prop := WireValue noFloats j ∧ Nests 1 j

theorem shallow_str (s : String) : Shallow (.str s) := ⟨.str s, .str s⟩

theorem shallow_int (n : ℤ) : Shallow (.int n) := ⟨.int n, .int n⟩

theorem shallow_strs (l : List String) : Shallow (Json.strs l) := by
  have each : ∀ j ∈ l.map Json.str, WireValue noFloats j ∧ Nests 0 j := by
    intro j hj
    obtain ⟨s, -, rfl⟩ := List.mem_map.mp hj
    exact ⟨.str s, .str s⟩
  exact ⟨.arr (fun j hj => (each j hj).1), .arr (fun j hj => (each j hj).2)⟩

theorem shallow_contract (c : Contract) : Shallow c.evidence := by
  have each : ∀ e ∈ [("type_id", Json.str c.typeId), ("schema_hash", Json.str c.schemaHash)],
      WireValue noFloats e.2 ∧ Nests 0 e.2 := by
    intro e he
    simp only [List.mem_cons, List.not_mem_nil, or_false] at he
    rcases he with rfl | rfl
    · exact ⟨.str _, .str _⟩
    · exact ⟨.str _, .str _⟩
  exact ⟨.obj (by simp) (fun e he => (each e he).1), .obj (fun e he => (each e he).2)⟩

theorem FaultEvidence.of_shallow {evidence : List (String × Json)} (distinct : (evidence.map Prod.fst).Nodup)
    (own : ∀ k ∈ evidence.map Prod.fst, k ∉ ["defect", "scope", "path", "component", "version", "definition_path"])
    (shallow : ∀ e ∈ evidence, Shallow e.2) : FaultEvidence evidence where
  distinct := distinct
  own e he := own e.1 (List.mem_map_of_mem he)
  wire e he := (shallow e he).1
  nests e he := (shallow e he).2

theorem shallow_node (node : Option String) : ∀ e ∈ nodeEvidence node, Shallow e.2 := by
  intro e he
  cases node with
  | none => cases he
  | some n =>
    cases List.mem_singleton.mp he
    exact shallow_str n

theorem evidence_map (entry : MapEntry) {more : List (String × Json)} (distinct : (more.map Prod.fst).Nodup)
    (own : ∀ k ∈ more.map Prod.fst, k ∉ ["defect", "scope", "path", "component", "version", "definition_path",
      "connection_index", "destination_node", "destination_port", "selector"])
    (shallow : ∀ e ∈ more, Shallow e.2) :
    FaultEvidence ([("connection_index", .int entry.connectionIndex), ("destination_node", .str entry.destinationNode),
      ("destination_port", .str entry.destinationPort), ("selector", .str entry.selector)] ++ more) := by
  apply FaultEvidence.of_shallow
  · rw [List.map_append]
    refine List.nodup_append.mpr ⟨by simp, distinct, fun a ha b hb same => own b hb ?_⟩
    subst same
    simp at ha ⊢
    tauto
  · intro k hk
    rw [List.map_append] at hk
    rcases List.mem_append.mp hk with hk | hk
    · simp only [List.map_cons, List.map_nil, List.mem_cons, List.not_mem_nil, or_false] at hk
      rcases hk with rfl | rfl | rfl | rfl <;> decide
    · have other := own k hk
      simp only [List.mem_cons, List.not_mem_nil, or_false, not_or] at other ⊢
      tauto
  · intro e he
    rcases List.mem_append.mp he with he | he
    · simp only [List.mem_cons, List.not_mem_nil, or_false] at he
      rcases he with rfl | rfl | rfl | rfl
      · exact shallow_int _
      · exact shallow_str _
      · exact shallow_str _
      · exact shallow_str _
    · exact shallow e he

section

variable (printable : ℕ → Bool)

theorem proper_map (entry : MapEntry) (scope : ScopePath) (defect : Defect) {more : List (String × Json)}
    (distinct : (more.map Prod.fst).Nodup)
    (own : ∀ k ∈ more.map Prod.fst, k ∉ ["defect", "scope", "path", "component", "version", "definition_path",
      "connection_index", "destination_node", "destination_port", "selector"])
    (shallow : ∀ e ∈ more, Shallow e.2) : (mapFault entry scope defect more).Proper printable :=
  evidence_map entry distinct own shallow

theorem proper_missing (site : BindSite) (port : Port) : (missingSourceFault site port).Proper printable := by
  have node := shallow_node site.destinationNode
  refine FaultEvidence.of_shallow ?_ ?_ (List.forall_mem_cons.mpr ⟨shallow_str _, node⟩)
  · cases site.destinationNode <;> simp [nodeEvidence]
  · cases site.destinationNode <;> simp [nodeEvidence]

theorem proper_ambiguous (site : BindSite) (port : Port) (sources : List Source) :
    (ambiguousPortFault site port sources).Proper printable := by
  unfold ambiguousPortFault
  dsimp only
  split
  · exact proper_map printable _ _ _ (by simp) (by simp)
      (List.forall_mem_singleton.mpr (shallow_strs _))
  · have node := shallow_node site.destinationNode
    refine FaultEvidence.of_shallow ?_ ?_ ?_
    · cases site.destinationNode <;> simp [nodeEvidence]
    · cases site.destinationNode <;> simp [nodeEvidence]
    · exact List.forall_mem_append.mpr ⟨List.forall_mem_cons.mpr ⟨shallow_str _,
        List.forall_mem_singleton.mpr (shallow_strs _)⟩, node⟩

theorem proper_endpoints {g : Graph} {scope : ScopePath} {location : GraphLocation} :
    ∀ f ∈ endpointFaults g scope location, f.Proper printable := by
  intro f hf
  obtain ⟨e, -, rfl⟩ := List.mem_map.mp hf
  refine FaultEvidence.of_shallow (by simp) (by simp) ?_
  simp only [List.forall_mem_cons, List.not_mem_nil, false_imp_iff, implies_true, and_true]
  exact ⟨shallow_int _, shallow_str _, shallow_str _, shallow_strs _⟩

theorem proper_cycles {g : Graph} {scope : ScopePath} {location : GraphLocation} :
    ∀ f ∈ cycleFaults g scope location, f.Proper printable := by
  intro f hf
  obtain ⟨e, -, rfl⟩ := List.mem_map.mp hf
  refine FaultEvidence.of_shallow (by simp) (by simp) ?_
  simp only [List.forall_mem_cons, List.not_mem_nil, false_imp_iff, implies_true, and_true]
  exact ⟨shallow_int _, shallow_str _, shallow_str _, shallow_strs _⟩

end

/-! ## The functions of the compiler -/

section

variable (printable : ℕ → Bool)

theorem leaves_uniquePorts (site : PortsSite) (ports : List Port) :
    Leaves (Fault.Proper printable) (validateUniquePorts site ports : Compile δ Unit) := by
  unfold validateUniquePorts
  split_ifs
  · exact .pure ()
  · exact .fault trivial

theorem leaves_bindPort (site : BindSite) (port : Port) (pool : List Source) :
    Leaves (Fault.Proper printable) (bindPort site port pool : Compile δ (Option (List Source))) := by
  unfold bindPort
  dsimp only
  split_ifs
  · exact .refused (proper_missing printable site port) _
  · exact .pure _
  · exact .pure _
  · exact .refused (proper_ambiguous printable site port _) _
  · exact .pure _
  · exact .refused (proper_ambiguous printable site port _) _
  · exact .pure _
  · exact .refused (proper_missing printable site port) _

theorem leaves_resolveSelector (entry : MapEntry) (port : Port) (lookup : NodeLookup) (inputs : Sources)
    (scope : ScopePath) :
    Leaves (Fault.Proper printable) (resolveSelector entry port lookup inputs scope : Compile δ (Option Source)) := by
  unfold resolveSelector
  dsimp only
  split_ifs
  · exact .refused (proper_map printable entry scope _ (by simp) (by simp) (by simp)) _
  · split
    · split_ifs
      · exact .refused (proper_map printable entry scope _ (by simp) (by simp)
          (List.forall_mem_singleton.mpr (shallow_str _))) _
      · exact .refused (proper_map printable entry scope _ (by simp) (by simp)
          (List.forall_mem_cons.mpr ⟨shallow_contract _, List.forall_mem_singleton.mpr (shallow_contract _)⟩)) _
      · exact .pure _
    · exact .refused (proper_map printable entry scope _ (by simp) (by simp)
        (List.forall_mem_singleton.mpr (shallow_int _))) _

theorem leaves_resolveSelectors (port : Port) (lookup : NodeLookup) (inputs : Sources) (scope : ScopePath)
    (entries : List MapEntry) : Leaves (Fault.Proper printable)
      (resolveSelectors port lookup inputs scope entries : Compile δ (List (Option Source))) := by
  induction entries with
  | nil => exact .pure _
  | cons entry entries ih =>
    exact (leaves_resolveSelector printable entry port lookup inputs scope).bind
      (fun _ => ih.bind (fun _ => .pure _))

theorem leaves_groupMaps (scope : ScopePath) (declared : List String) (entries : List MapEntry)
    (byPort : Dict String (Dict String MapEntry)) : Leaves (Fault.Proper printable)
      (groupMaps scope declared entries byPort : Compile δ (Dict String (Dict String MapEntry))) := by
  induction entries generalizing byPort with
  | nil => exact .pure _
  | cons entry entries ih =>
    unfold groupMaps
    split_ifs
    · exact ih _
    · exact (Leaves.fault (proper_map printable entry scope _ (by simp) (by simp) (by simp))).bind (fun _ => ih _)

theorem leaves_bindNodePort (a : Seat) (byPort : Dict String (Dict String MapEntry)) (feedback : List String)
    (port : Port) : Leaves (Fault.Proper printable)
      (bindNodePort a byPort feedback port : Compile δ (Option (List Source))) := by
  have seed : FaultEvidence [("destination_node", Json.str a.node.id), ("destination_port", .str port.name)] :=
    .of_shallow (by simp) (by simp)
      (List.forall_mem_cons.mpr ⟨shallow_str _, List.forall_mem_singleton.mpr (shallow_str _)⟩)
  unfold bindNodePort
  dsimp only
  split_ifs
  · split
    · exact .refused (proper_map printable _ _ _ (by simp) (by simp) (by
        simp only [List.forall_mem_cons, List.not_mem_nil, false_imp_iff, implies_true, and_true]
        exact ⟨shallow_str _, shallow_int _, shallow_str _⟩)) _
    · refine (leaves_resolveSelectors printable port _ _ _ _).bind (fun selected => ?_)
      split_ifs
      · exact .pure _
      · exact .pure _
  · exact .refused seed _
  · exact leaves_bindPort printable a.site port a.pool

theorem leaves_bindPorts (a : Seat) (byPort : Dict String (Dict String MapEntry)) (feedback : List String)
    (ports : List Port) (bound : Sources) :
    Leaves (Fault.Proper printable) (bindPorts a byPort feedback ports bound : Compile δ Sources) := by
  induction ports generalizing bound with
  | nil => exact .pure _
  | cons port ports ih =>
    refine (leaves_bindNodePort printable a byPort feedback port).bind (fun sources => ?_)
    cases sources with
    | some sources => exact ih _
    | none => exact ih _

theorem leaves_bindNodeInputs (a : Seat) (inputs : List Port) (feedback : List String) :
    Leaves (Fault.Proper printable) (bindNodeInputs a inputs feedback : Compile δ Sources) :=
  (leaves_groupMaps printable a.scope _ a.explicit _).bind
    (fun byPort => leaves_bindPorts printable a byPort feedback inputs _)

theorem each_ite {P : Fault → Prop} {p : Prop} [Decidable p] {f : Fault} (hf : P f) :
    ∀ g ∈ if p then [f] else [], P g := by
  split_ifs
  · exact List.forall_mem_singleton.mpr hf
  · exact List.forall_mem_nil _

theorem proper_widening (parent : EffectiveGrants) (request : GrantRequest) (scope : ScopePath) :
    ∀ f ∈ wideningFaults parent request scope, f.Proper printable := by
  unfold wideningFaults
  dsimp only
  simp only [List.forall_mem_append]
  refine ⟨⟨⟨⟨each_ite trivial, each_ite trivial⟩, each_ite trivial⟩, each_ite trivial⟩, ?_⟩
  cases request.timeoutS with
  | some t => exact each_ite trivial
  | none => exact List.forall_mem_nil _

theorem leaves_compileGrants (parent : EffectiveGrants) (request : Option GrantRequest) (scope : ScopePath) :
    Leaves (Fault.Proper printable) (compileGrants parent request scope : Compile δ EffectiveGrants) := by
  cases request with
  | none => exact .pure _
  | some r =>
    refine (Leaves.emitFaults (proper_widening printable parent r scope)).bind (fun _ => ?_)
    split_ifs
    · exact .pure _
    · exact .pure _

theorem leaves_resolveRef (w : World δ) (ref : Ref) (scope : ScopePath) :
    Leaves (Fault.Proper printable) (resolveRef w ref scope) := by
  unfold resolveRef
  dsimp only
  split
  · split
    · exact .refused trivial _
    · refine (Leaves.tell (fun f same => by cases same)).bind (fun _ => ?_)
      split_ifs
      · exact .refused trivial _
      · split
        · exact .refused trivial _
        · exact .pure _
  · split_ifs
    · exact .refused trivial _
    · split
      · split
        · exact .refused trivial _
        · split
          · exact .refused trivial _
          · exact .pure _
      · split
        · exact .refused trivial _
        · exact .pure _

theorem proper_boundaryLie {h : Hashing δ} {stored : StoredVersion} {scope : ScopePath} {f : Fault}
    (lie : boundaryLie h stored scope = some f) : f.Proper printable := by
  unfold boundaryLie at lie
  split at lie
  · cases lie
  · dsimp only at lie
    split_ifs at lie
    cases lie
    trivial

/-- The reasons an assembly gives for a channel it cannot realize are those of `channel_incoherence`. -/
def Assembly.Explains (assembly : Assembly δ) : Prop :=
  ∀ descriptor reason, assembly.channelIncoherence descriptor = some reason →
    ∃ pieces, ChannelReason pieces ∧ points reason = spell printable pieces

variable {printable} in
theorem leaves_compiledChannel {w : World δ} (explains : w.assembly.Explains printable) (d : ComponentDef)
    (scope : ScopePath) (aliasName : String) (descriptor : CapabilityDescriptor) :
    Leaves (Fault.Proper printable) (compiledChannel w d scope aliasName descriptor) := by
  unfold compiledChannel
  dsimp only
  split
  next reason said => exact .refused (explains descriptor reason said) _
  · split_ifs
    · exact .pure _
    · split
      · exact .refused trivial _
      · split
        · split_ifs
          · exact .refused trivial _
          · exact .pure _
        · exact .refused trivial _

theorem proper_capability (w : World δ) (scope : ScopePath) (grants : EffectiveGrants)
    (aliasName capabilityId : String) (descriptor : CapabilityDescriptor) :
    ∀ f ∈ capabilityFaults w scope grants aliasName capabilityId descriptor, f.Proper printable := by
  unfold capabilityFaults
  simp only [List.forall_mem_append]
  refine ⟨⟨?_, ?_⟩, each_ite trivial⟩
  · intro f hf
    obtain ⟨reason, -, rfl⟩ := List.mem_map.mp hf
    trivial
  · split
    · exact List.forall_mem_nil _
    · split
      · intro f hf
        obtain ⟨reason, -, rfl⟩ := List.mem_map.mp hf
        trivial
      · split
        · exact List.forall_mem_nil _
        · split_ifs
          · exact List.forall_mem_singleton.mpr trivial
          · exact List.forall_mem_nil _
          · exact List.forall_mem_singleton.mpr trivial

variable {printable} in
theorem leaves_bindCapabilities {w : World δ} (explains : w.assembly.Explains printable) (d : ComponentDef)
    (scope : ScopePath) (grants : EffectiveGrants) (bindings : List (String × String)) :
    Leaves (Fault.Proper printable) (bindCapabilities w d scope grants bindings) := by
  induction bindings with
  | nil => exact .pure _
  | cons binding rest ih =>
    obtain ⟨aliasName, capabilityId⟩ := binding
    unfold bindCapabilities
    split
    · exact (Leaves.fault trivial).bind (fun _ => ih)
    · refine (Leaves.emitFaults (proper_capability printable w scope grants aliasName capabilityId _)).bind
        (fun _ => ?_)
      refine (leaves_compiledChannel explains d scope aliasName _).bind (fun channel => ?_)
      exact (Leaves.tell (fun f same => by cases same)).bind (fun _ => ih)

variable {printable} in
theorem leaves_registerAtomic {w : World δ} (explains : w.assembly.Explains printable) (a : Seat) (d : ComponentDef)
    (bound : Sources) (ref : Ref) (grants : EffectiveGrants) :
    Leaves (Fault.Proper printable) (registerAtomic w a d bound ref grants) := by
  have told : ∀ e ∈ (inputBindings a.levelScope a.node.id bound).map (Emitted.binding (δ := δ)), ∀ f,
      e.fault? = some f → f.Proper printable := by
    intro e he f same
    obtain ⟨b, -, rfl⟩ := List.mem_map.mp he
    cases same
  refine (Leaves.tellAll told).bind (fun _ => (Leaves.tell (fun f same => by cases same)).bind (fun _ => ?_))
  refine (leaves_bindCapabilities explains d a.scope grants _).bind (fun _ => ?_)
  exact (Leaves.tell (fun f same => by cases same)).bind (fun _ => .pure _)

/-! ## Levels, loops and nodes -/

theorem leaves_bindOutputs (l : Level) (nodeSources inputSources : List Source) (ports : List (Port × ℕ))
    (outputs : Sources) :
    Leaves (Fault.Proper printable) (bindOutputs l nodeSources inputSources ports outputs : Compile δ Sources) := by
  induction ports generalizing outputs with
  | nil => exact .pure _
  | cons port ports ih =>
    refine (leaves_bindPort printable _ port.1 _).bind (fun bound => ?_)
    cases bound with
    | some bound => exact ih _
    | none => exact ih _

section

variable {printable} {rec : Seat → Compile δ Sources} (inner : ∀ a, Leaves (Fault.Proper printable) (rec a))

include inner

theorem leaves_compileNodes (g : Graph) (l : Level) (upstream : Dict String (List String)) (nodes : List GraphNode)
    (outputs : NodeLookup) : Leaves (Fault.Proper printable) (compileNodes rec g l upstream nodes outputs) := by
  induction nodes generalizing outputs with
  | nil => exact .pure _
  | cons node nodes ih => exact (inner _).bind (fun _ => ih _)

theorem leaves_compileGraphWith (g : Graph) (l : Level) :
    Leaves (Fault.Proper printable) (compileGraphWith rec g l) := by
  unfold compileGraphWith
  rcases refuseOn_stops (δ := δ) (endpointFaults g l.scope l.location) with declared | stops
  · rcases refuseOn_stops (δ := δ) (cycleFaults g l.scope l.location) with acyclic | stops
    · refine (Leaves.refuseOn (proper_endpoints printable)).bind (fun _ =>
        (Leaves.refuseOn (proper_cycles printable)).bind (fun _ =>
        (leaves_uniquePorts printable _ _).bind (fun _ => (leaves_uniquePorts printable _ _).bind (fun _ => ?_))))
      refine (Leaves.ofExcept ?_).bind (fun ordered => (leaves_compileNodes inner g l _ ordered _).bind
        (fun outputs => leaves_bindOutputs printable l _ _ _ _))
      intro faults raised
      rcases orderedNodes_cases (endpointFaults_eq_nil.mp declared) acyclic with ⟨-, ordered, found⟩ | ⟨-, repeated⟩
      · cases found.symm.trans raised
      · cases repeated.symm.trans raised
        exact List.forall_mem_singleton.mpr trivial
    · exact (Leaves.refuseOn (proper_endpoints printable)).bind (fun _ =>
        (Leaves.refuseOn (proper_cycles printable)).stopped stops _)
  · exact (Leaves.refuseOn (proper_endpoints printable)).stopped stops _

theorem leaves_compileBody (a : Seat) (loop : Loop) (bodyScope : ScopePath) (boundary : Sources) :
    Leaves (Fault.Proper printable) (compileBody rec a loop bodyScope boundary) := by
  unfold compileBody
  split
  · exact inner _
  · exact leaves_compileGraphWith inner _ _

end

theorem leaves_loopBoundary (w : World δ) (loop : Loop) (bodyScope : ScopePath) :
    Leaves (Fault.Proper printable) (loopBoundary w loop bodyScope) := by
  unfold loopBoundary
  split
  · exact .pure _
  · refine (leaves_resolveRef printable w _ _).bind (fun stored => ?_)
    split
    · exact .pure _
    · split
      next f lie => exact .refused (proper_boundaryLie printable lie) _
      · exact .pure _

theorem proper_feedback (scope : ScopePath) (inputs outputs : Dict String Port) (edge : String × String) :
    ∀ f ∈ feedbackFaults scope inputs outputs edge, f.Proper printable := by
  unfold feedbackFaults
  split
  · exact List.forall_mem_append.mpr ⟨each_ite trivial, each_ite trivial⟩
  · exact List.forall_mem_append.mpr ⟨each_ite trivial, each_ite trivial⟩

theorem proper_continue (h : Hashing δ) (scope : ScopePath) (outputs : Dict String Port) (continueFrom : String) :
    ∀ f ∈ continueFaults h scope outputs continueFrom, f.Proper printable := by
  unfold continueFaults
  split
  · exact List.forall_mem_singleton.mpr trivial
  · exact each_ite trivial

theorem leaves_feedbackBindings (loopScope bodyScope : ScopePath) (inputs outputs : Dict String Port)
    (body : Sources) (edges : List (String × String)) : Leaves (Fault.Proper printable)
      (feedbackBindings loopScope bodyScope inputs outputs body edges : Compile δ (List ResolvedPortBinding)) := by
  induction edges with
  | nil => exact .pure _
  | cons edge edges ih =>
    have here : Leaves (Fault.Proper printable)
        (feedbackBinding loopScope bodyScope inputs outputs body edge : Compile δ (List ResolvedPortBinding)) := by
      unfold feedbackBinding
      split_ifs
      · exact .pure _
      · split
        · exact .pure _
        · exact .pure _
        · exact .refused trivial _
    exact here.bind (fun _ => ih.bind (fun _ => .pure _))

theorem leaves_continueSource (loopScope bodyScope : ScopePath) (outputs : Dict String Port) (body : Sources)
    (continueFrom : String) : Leaves (Fault.Proper printable)
      (continueSource loopScope bodyScope outputs body continueFrom : Compile δ PortAddress) := by
  unfold continueSource
  split
  · exact .pure _
  · exact (Leaves.emitFaults (each_ite trivial)).bind (fun _ => .pure _)

section

variable {printable} {w : World δ} {rec : Seat → Compile δ Sources} (explains : w.assembly.Explains printable)
  (inner : ∀ a, Leaves (Fault.Proper printable) (rec a))

include inner

theorem leaves_compileLoop (a : Seat) (loop : Loop) : Leaves (Fault.Proper printable) (compileLoop w rec a loop) := by
  refine (leaves_loopBoundary printable w loop _).bind (fun boundary => ?_)
  cases boundary with
  | none => exact .pure _
  | some boundary =>
    refine (leaves_uniquePorts printable _ _).bind (fun _ => (leaves_uniquePorts printable _ _).bind (fun _ => ?_))
    refine (Leaves.emitFaults ?_).bind (fun _ => ?_)
    · intro f hf
      obtain ⟨edge, -, hf⟩ := List.mem_flatMap.mp hf
      exact proper_feedback printable _ _ _ edge f hf
    refine (Leaves.emitFaults (proper_continue printable w.hashing _ _ _)).bind (fun _ => ?_)
    refine (leaves_bindNodeInputs printable a _ _).bind (fun bound => ?_)
    refine (leaves_compileBody inner a loop _ _).listen.bind (fun body => ?_)
    refine (Leaves.emitFaults (each_ite trivial)).bind (fun _ => ?_)
    refine (leaves_feedbackBindings printable _ _ _ _ _ _).bind (fun feedback => ?_)
    refine (leaves_continueSource printable _ _ _ _ _).bind (fun continuation => ?_)
    exact (Leaves.tell (fun f same => by cases same)).bind (fun _ => .pure _)

include explains

theorem leaves_compileRef (a : Seat) (ref : Ref) : Leaves (Fault.Proper printable) (compileRef w rec a ref) := by
  refine (leaves_resolveRef printable w ref _).bind (fun stored => ?_)
  cases stored with
  | none => exact .pure _
  | some stored =>
    refine (leaves_compileGrants printable _ _ _).bind (fun grants => ?_)
    refine (Leaves.tell (fun f same => by cases same)).bind (fun _ => ?_)
    refine (leaves_bindNodeInputs printable a _ _).bind (fun bound => ?_)
    split
    · unfold compileComposite
      split
      next f lie => exact .refused (proper_boundaryLie printable lie) _
      · exact leaves_compileGraphWith inner _ _
    · exact leaves_registerAtomic explains a _ bound ref grants

theorem leaves_compileNodeWith (a : Seat) : Leaves (Fault.Proper printable) (compileNodeWith w rec a) := by
  unfold compileNodeWith
  split
  · split_ifs
    · exact .refused trivial _
    · exact leaves_compileLoop inner a _
  · exact leaves_compileRef explains inner a _
  · exact (leaves_bindNodeInputs printable a _ _).bind (fun bound => leaves_compileGraphWith inner _ _)

end

variable {printable} in
theorem leaves_compileNode {w : World δ} (explains : w.assembly.Explains printable) (depth : ℕ) (a : Seat) :
    Leaves (Fault.Proper printable) (compileNode w depth a) := by
  induction depth generalizing a with
  | zero => exact .raise (fun _ => by rintro ⟨⟩)
  | succ depth ih => exact leaves_compileNodeWith explains ih a

theorem proper_inputs (g : Graph) (inputs : Dict String Json) : ∀ f ∈ inputFaults g inputs, f.Proper printable :=
  List.forall_mem_append.mpr ⟨each_ite trivial, each_ite trivial⟩

theorem proper_pins (lock : Option ResolutionLock) (consumed : List ScopePath) :
    ∀ f ∈ unusedPinFaults lock consumed, f.Proper printable := by
  intro f hf
  cases lock with
  | none => cases hf
  | some lock =>
    obtain ⟨pin, -, rfl⟩ := List.mem_map.mp hf
    trivial

variable {printable} in
theorem leaves_admitCompile {adm : Admission δ} (explains : adm.assembly.Explains printable) (depth : ℕ) (g : Graph) :
    Leaves (Fault.Proper printable) (admitCompile adm depth g) := by
  refine (leaves_uniquePorts printable _ _).bind (fun _ => (leaves_uniquePorts printable _ _).bind (fun _ => ?_))
  refine (Leaves.emitFaults (proper_inputs printable g adm.inputs)).bind (fun _ => ?_)
  refine (leaves_compileGraphWith (leaves_compileNode (w := adm.world g) explains depth) g _).listen.bind (fun root => ?_)
  refine (Leaves.tellAll ?_).bind (fun _ => .emitFaults (proper_pins printable _ _))
  intro e he f same
  obtain ⟨b, -, rfl⟩ := List.mem_map.mp he
  cases same

theorem admission_faults {adm : Admission δ} (explains : adm.assembly.Explains printable) {depth : ℕ} {g : Graph}
    {faults : List Fault} (refused : admitGraph adm depth g = .error (.admissionError faults)) :
    ∀ f ∈ faults, f.Proper printable := by
  have leaves := leaves_admitCompile explains depth g
  unfold admitGraph at refused
  dsimp only at refused
  split at refused
  · cases refused
    exact leaves.logged
  next faults' raised =>
    cases refused
    exact leaves.raised faults raised
  · cases refused
  · split_ifs at refused
    cases refused
    exact leaves.logged

end

/-! ## Frames are neither lost nor forged -/

def Fault.code : Fault → AdmissionCode
  | .located _ _ defect _ => (locatedFault defect).1
  | _ => .graphContractInvalid

section

variable (F : FloatText φ)

/-- What follows the last separator of a message nests no deeper than there is room to read it. -/
def ReadsWithin (room : ℕ) (message : PyStr) : Prop :=
  ∀ head suffix, rpartition faultSeparator message = some (head, suffix) →
    nesting F .malformed dictOfPairs suffix ≤ room

theorem framedDetails_deep {room : ℕ} {message : PyStr} (deep : ¬ ReadsWithin F room message) :
    framedDetails F room message = .error .recursionError := by
  unfold ReadsWithin at deep
  push Not at deep
  obtain ⟨head, suffix, split, deep⟩ := deep
  have raised : loadsWithin F .malformed dictOfPairs room suffix = .error .recursionError := if_pos deep
  rw [framedDetails, split]
  dsimp only
  rw [raised]

theorem framedDetails_more {room more : ℕ} {message : PyStr} (fits : ReadsWithin F room message) (le : room ≤ more) :
    framedDetails F room message = framedDetails F more message := by
  cases split : rpartition faultSeparator message with
  | none => rw [framedDetails, framedDetails, split]
  | some parts =>
    obtain ⟨head, suffix⟩ := parts
    have shallow := fits head suffix split
    have here : loadsWithin F .malformed dictOfPairs room suffix =
        (loads F .malformed dictOfPairs suffix).mapError (fun _ => .valueError) := if_neg (by omega)
    have there : loadsWithin F .malformed dictOfPairs more suffix =
        (loads F .malformed dictOfPairs suffix).mapError (fun _ => .valueError) := if_neg (by omega)
    rw [framedDetails, framedDetails, split]
    dsimp only
    rw [here, there]

def Classifier.roomier (c : Classifier φ) : Classifier φ := { c with room := max c.room 2 }

theorem classifyFault_more {c : Classifier φ} {message : PyStr} (fits : ReadsWithin F c.room message) :
    classifyFault F c message = classifyFault F c.roomier message := by
  have same := framedDetails_more F fits (le_max_left c.room 2)
  rw [classifyFault, classifyFault, same]
  rfl

theorem framed_read {printable : ℕ → Bool} {f : Fault} (proper : f.Proper printable)
    {details : List (String × Json)} (framed : f.details = some details) (c : Classifier φ) (enough : 2 ≤ c.room)
    (prose : PyStr) :
    framedDetails F c.room (f.message prose) = .ok (some (carriedOf details)) ∧
      ∃ typed, classifyFault F c (f.message prose) = .ok typed ∧ typed.code = f.code := by
  have message : f.message prose = prose ++ faultSeparator :: canonicalText (.obj details) := by
    rw [Fault.message, framed]
  cases f with
  | located location scope defect evidence =>
    obtain ⟨entries, frameable⟩ := @located_details location scope defect evidence proper
    obtain rfl := Option.some.inj (entries.symm.trans framed)
    have known : ("defect", Json.str defect.text) ∈ locatedEntries location scope defect evidence := by
      simp [locatedEntries]
    refine ⟨?_, classify_located F c enough proper prose⟩
    rw [message]
    exact framedDetails_framed F frameable known (.inr (by rw [namedDefect_text]; rfl)) enough prose
  | retainedComposite scope component version schemaFaults differs =>
    obtain rfl := Option.some.inj framed
    refine ⟨?_, classify_retained F c enough scope component version schemaFaults differs prose⟩
    rw [message]
    exact framedDetails_framed F (retained_frameable component version) List.mem_cons_self (.inl rfl) enough prose
  | _ => cases framed

end

/-- A graph of this name, whose one node refers to a component nobody registered. -/
def unregistered (name : String) : Graph where
  name := name
  nodes := [⟨"n", .ref { component := "c" }⟩]

theorem admit_unregistered (name : String) : admitGraph (Sample.admission .empty) 1 (unregistered name) =
    .error (.admissionError [.unknownComponent [name, "n"] "c" ["join", "pair", "step"]]) := rfl

theorem points_append (s t : String) : points (s ++ t) = points s ++ points t := by
  rw [points, String.toList_append, List.map_append]
  rfl

def plainReader : Classifier Empty where
  room := 1000
  maxFaultDetailItems := 25
  ofProse message := { code := .legacyAdmission, message := message, repair := "" }
  scopeFromMessage _ := none

def nested (brackets : ℕ) : String := String.ofList ('\x1f' :: List.replicate brackets '[')

theorem points_nested (brackets : ℕ) : points (nested brackets) = faultSeparator :: List.replicate brackets 91 := by
  have separator : '\x1f'.toNat = faultSeparator := rfl
  have bracket : '['.toNat = 91 := rfl
  rw [points, nested, String.toList_ofList, List.map_cons, List.map_replicate, separator, bracket]

theorem nested_unread (F : FloatText φ) (room : ℕ) :
    framedDetails F room (spell (fun _ => false)
      (Fault.pieces "" (.unknownComponent [nested (room + 1), "n"] "c" ["join", "pair", "step"]))) =
      .error .recursionError := by
  have scope : renderScope [nested (room + 1), "n"] = nested (room + 1) ++ "/" ++ "n" := rfl
  obtain ⟨tail, split, free⟩ : ∃ tail, spell (fun _ => false)
      (Fault.pieces "" (.unknownComponent [nested (room + 1), "n"] "c" ["join", "pair", "step"])) =
        points (nested (room + 1)) ++ tail ∧ faultSeparator ∉ tail := by
    refine ⟨points "/" ++ points "n" ++ spell (fun _ => false) [.words ": unknown component ", .quoted "c",
      .words "; registered components: ", .names ["join", "pair", "step"]], ?_, by decide⟩
    rw [Fault.pieces, spell, List.flatMap_cons, Piece.spell, scope, points_append, points_append, List.append_assoc,
      List.append_assoc, List.append_assoc]
    rfl
  have brackets : faultSeparator ∉ List.replicate (room + 1) 91 ++ tail := by
    intro mem
    rcases List.mem_append.mp mem with mem | mem
    · cases List.eq_of_mem_replicate mem
    · exact free mem
  apply framedDetails_deep
  intro reads
  have fits := reads [] (List.replicate (room + 1) 91 ++ tail) (by
    rw [split, points_nested]
    exact rpartition_framed brackets [])
  have deep := nesting_brackets F .malformed dictOfPairs (room + 1) tail
  omega

end Constructicon
