import Constructicon.Sealed

/-!
# Compilations of graphs that are alike

Two seats that differ in nothing binding reads, over bodies of one canonical form,
compile alike: both are clean or neither is, they log the same entries, and loop
programs differ at most in the order of their feedback bindings, which is the order
the edges were written in. The comparison is carried through levels, references and
loops one turn at a time and then closed at every depth.
-/

namespace Constructicon

variable {δ : Type}

/-- Worlds that a compilation cannot tell apart: the source graph is seen only by the
authorizations of the assembly. -/
structure WorldAlike (w w' : World δ) : Prop where
  snapshot : w.snapshot = w'.snapshot
  assembly : w.assembly = w'.assembly
  hashing : w.hashing = w'.hashing
  resolutionLock : w.resolutionLock = w'.resolutionLock
  admitted : admittedUnavailability w = admittedUnavailability w'

theorem WorldAlike.refl (w : World δ) : WorldAlike w w := ⟨rfl, rfl, rfl, rfl, rfl⟩

theorem WorldAlike.symm {w w' : World δ} (h : WorldAlike w w') : WorldAlike w' w :=
  ⟨h.snapshot.symm, h.assembly.symm, h.hashing.symm, h.resolutionLock.symm, h.admitted.symm⟩

/-! ## Logs -/

def normExport (e : LoopExport) : Json × PortAddress × List PortAddress :=
  (normPort e.port, e.destination, e.sources)

/-- Loop programs that differ in their feedback bindings and port schemas only. -/
structure LoopProgramAlike (r r' : LoopResolution) : Prop where
  scope : r.scope = r'.scope
  bodyScope : r.bodyScope = r'.bodyScope
  maxIterations : r.maxIterations = r'.maxIterations
  inputPorts : r.inputPorts.map normPort = r'.inputPorts.map normPort
  initialBindings : r.initialBindings = r'.initialBindings
  continueSource : r.continueSource = r'.continueSource
  exports : r.exports.map normExport = r'.exports.map normExport
  memberOrder : r.memberOrder = r'.memberOrder

/-- A relation of logs that a comparison carries through a compilation. `Rel P l l'`
says that the logs are alike, and that they agree in their feedback bindings exactly
when `P` holds. -/
structure LogRel (δ : Type) where
  Rel : Prop → List (Emitted δ) → List (Emitted δ) → Prop
  nil : Rel True [] []
  append : ∀ {P Q : Prop} {l l' m m' : List (Emitted δ)}, Rel P l l' → Rel Q m m' →
    Rel (P ∧ Q) (l ++ m) (l' ++ m')
  entry : ∀ e, Rel True [e] [e]
  loop : ∀ {r r' : LoopResolution}, LoopProgramAlike r r' →
    Rel (r.feedbackBindings = r'.feedbackBindings) [.loop r] [.loop r']
  atomics : ∀ {P : Prop} {l l' : List (Emitted δ)}, Rel P l l' → atomicsOf l = atomicsOf l'

namespace LogRel

variable (R : LogRel δ)

theorem same (l : List (Emitted δ)) : R.Rel True l l := by
  induction l with
  | nil => exact R.nil
  | cons e l ih => simpa using R.append (R.entry e) ih

variable {R} {P Q : Prop}

theorem iff {l l' : List (Emitted δ)} (h : R.Rel P l l') (hPQ : P ↔ Q) : R.Rel Q l l' :=
  propext hPQ ▸ h

end LogRel

abbrev OutputsAlike (o o' : Sources) : Prop := bareSources o = bareSources o'

section Steps

variable {R : LogRel δ} {P Q : Prop} {α β α' β' : Type} {A : α → β → Prop} {B : α' → β' → Prop}
  {x : Compile δ α} {y : Compile δ β} {f : α → Compile δ α'} {g : β → Compile δ β'}

theorem Sim.seq (hx : Sim (R.Rel P) A x y) (hf : ∀ a b, A a b → Sim (R.Rel Q) B (f a) (g b)) :
    Sim (R.Rel (P ∧ Q)) B (x >>= f) (y >>= g) :=
  Sim.bind hx hf fun _ _ _ _ => R.append

theorem Sim.seqSame (hx : Sim (R.Rel True) A x y) (hf : ∀ a b, A a b → Sim (R.Rel Q) B (f a) (g b)) :
    Sim (R.Rel Q) B (x >>= f) (y >>= g) :=
  (Sim.seq hx hf).mono (fun _ _ h => LogRel.iff h (iff_of_eq (true_and Q))) fun _ _ => id

theorem Sim.same (R : LogRel δ) (x : Compile δ α) : Sim (R.Rel True) (· = ·) x x :=
  Sim.refl x fun l _ _ => R.same l

end Steps

/-! ## References -/

theorem resolveRef_congr {w w' : World δ} (hw : WorldAlike w w') {r r' : Ref} (hr : RefAlike r r')
    (scope : ScopePath) : resolveRef w r scope = resolveRef w' r' scope := by
  simp only [resolveRef, selectVersion, hw.snapshot, hw.resolutionLock, hr.component, hr.version]

theorem bindCapabilities_congr {w w' : World δ} (hw : WorldAlike w w') (d : ComponentDef)
    (scope : ScopePath) (grants : EffectiveGrants) (l : List (String × String)) :
    bindCapabilities w d scope grants l = bindCapabilities w' d scope grants l := by
  induction l with
  | nil => rfl
  | cons p l ih =>
    obtain ⟨aliasName, capability⟩ := p
    simp only [bindCapabilities, ih, hw.assembly, capabilityFaults, hw.admitted, compiledChannel]

theorem inputBindings_congr {bound bound' : Sources} (h : OutputsAlike bound bound')
    (levelScope : ScopePath) (node : String) :
    inputBindings levelScope node bound = inputBindings levelScope node bound' := by
  have hmap : ∀ b : Sources, inputBindings levelScope node b =
      (bareSources b).entries.map (fun e => ⟨.nodePort levelScope node e.1, e.2.map Source.address⟩) := by
    intro b
    simp [inputBindings, bareSources, Dict.mapValues, Function.comp_def, Source.bare]
  rw [hmap bound, hmap bound', h]

theorem registerAtomic_congr {w w' : World δ} (hw : WorldAlike w w') {a a' : Seat}
    (ha : SeatAlike a a') (d : ComponentDef) {bound bound' : Sources}
    (hb : OutputsAlike bound bound') {r r' : Ref} (hr : RefAlike r r') (grants : EffectiveGrants) :
    registerAtomic w a d bound r grants = registerAtomic w' a' d bound' r' grants := by
  unfold registerAtomic
  rw [ha.levelScope, ha.id, ha.scope, inputBindings_congr hb, hr.bind,
    bindCapabilities_congr hw]

/-! ## Levels -/

structure LevelAlike (l l' : Level) : Prop where
  scope : l.scope = l'.scope
  inputSources : OutputsAlike l.inputSources l'.inputSources
  grants : l.grants = l'.grants
  loopDepth : l.loopDepth = l'.loopDepth

theorem LevelAlike.symm {l l' : Level} (h : LevelAlike l l') : LevelAlike l' l :=
  ⟨h.scope.symm, h.inputSources.symm, h.grants.symm, h.loopDepth.symm⟩

/-- The state of a level between two nodes: the nodes still to compile and the outputs
of those compiled. -/
inductive Progress (rec : Seat → Compile δ Sources) (g : Graph) (l : Level) :
    List GraphNode → NodeLookup → Prop where
  | start {nodes : List GraphNode}
      (h : orderedNodes g (upstreamClosure (nodeIds g) (connectionEdges g)) = .ok nodes) :
      Progress rec g l nodes .empty
  | step {node : GraphNode} {nodes : List GraphNode} {nodeOutputs : NodeLookup}
      (h : Progress rec g l (node :: nodes) nodeOutputs) {log : List (Emitted δ)} {outputs : Sources}
      (hnode : (rec (seatOf g l (upstreamClosure (nodeIds g) (connectionEdges g)) nodeOutputs
        node)).Returns log outputs) :
      Progress rec g l nodes (nodeOutputs.insert node.id outputs)

def LevelVisits (rec : Seat → Compile δ Sources) (g : Graph) (l : Level) (b : Seat) : Prop :=
  ∃ nodes nodeOutputs, Progress rec g l (b.node :: nodes) nodeOutputs ∧
    b = seatOf g l (upstreamClosure (nodeIds g) (connectionEdges g)) nodeOutputs b.node

section Level

variable {g g' : Graph} {l l' : Level}

theorem GraphAlike.edges (h : GraphAlike g g') : connectionEdges g = connectionEdges g' := by
  have hmap : ∀ g : Graph, connectionEdges g =
      (g.connections.map bareConnection).map (fun c => (c.1, c.2.1)) := by
    intro g
    simp [connectionEdges, bareConnection]
  rw [hmap g, hmap g', h.connections]

theorem explicitMaps_bare (g : Graph) (location : GraphLocation) (node : String) :
    ((explicitMaps g location).filter (fun e => e.destinationNode = node)).map MapEntry.bare =
      (g.connections.map bareConnection).flatMap (fun c => if c.2.1 = node then c.2.2 else []) := by
  have hentries : ∀ (cs : List Connection) (k : ℕ),
      (((cs.zipIdx k).flatMap (fun c => (Json.sortKeys c.1.map.entries).map (fun p =>
        (⟨c.2, c.1.dst, p.1, p.2, location⟩ : MapEntry)))).filter
          (fun e => e.destinationNode = node)).map MapEntry.bare =
        (cs.map bareConnection).flatMap (fun c => if c.2.1 = node then c.2.2 else []) := by
    intro cs
    induction cs with
    | nil => intro k; rfl
    | cons c cs ih =>
      intro k
      rw [List.zipIdx_cons, List.flatMap_cons, List.filter_append, List.map_append, ih, List.map_cons,
        List.flatMap_cons]
      congr 1
      by_cases hc : c.dst = node
      · simp [List.filter_map, Function.comp_def, bareConnection, hc, MapEntry.bare]
      · simp [List.filter_map, Function.comp_def, bareConnection, hc]
  exact hentries g.connections 0

theorem nodePool_alike (upstream : List String) {o o' : NodeLookup} (ho : bareLookup o = bareLookup o')
    {i i' : Sources} (hi : OutputsAlike i i') :
    (nodePool upstream o i).map Source.bare = (nodePool upstream o' i').map Source.bare := by
  rw [nodePool, nodePool, List.map_append, List.map_append, allSources_alike hi, List.map_flatMap,
    List.map_flatMap]
  congr 2
  funext name
  exact allSources_alike (getD_bareLookup ho name)

theorem seatOf_alike (hg : GraphAlike g g') (hl : LevelAlike l l')
    (upstream : Dict String (List String)) {o o' : NodeLookup} (ho : bareLookup o = bareLookup o')
    {n n' : GraphNode} (hn : n.id = n'.id) :
    SeatAlike (seatOf g l upstream o n) (seatOf g' l' upstream o' n') where
  id := hn
  levelScope := hl.scope
  pool := by
    simp only [seatOf, hn]
    exact nodePool_alike _ ho hl.inputSources
  explicit := by
    simp only [seatOf, hn]
    rw [explicitMaps_bare, explicitMaps_bare, hg.connections]
  nodeLookup := ho
  inputSources := hl.inputSources
  grants := hl.grants
  loopDepth := hl.loopDepth

theorem bareLookup_insert {d d' : NodeLookup} (h : bareLookup d = bareLookup d') {name name' : String}
    (hn : name = name') {o o' : Sources} (ho : OutputsAlike o o') :
    bareLookup (d.insert name o) = bareLookup (d'.insert name' o') := by
  unfold bareLookup at *
  rw [Dict.mapValues_insert, Dict.mapValues_insert, h, hn, ho]

variable {R : LogRel δ} {rec rec' : Seat → Compile δ Sources} {I : GraphNode → GraphNode → Prop}

theorem compileNodes_alike (hg : GraphAlike g g') (hl : LevelAlike l l')
    {upstream : Dict String (List String)}
    (hup : upstream = upstreamClosure (nodeIds g) (connectionEdges g))
    (hup' : upstream = upstreamClosure (nodeIds g') (connectionEdges g'))
    {nodes nodes' : List GraphNode} (hids : nodes.map NodeOf.id = nodes'.map NodeOf.id)
    (hrec : ∀ b b', LevelVisits rec g l b → LevelVisits rec' g' l' b' → SeatAlike b b' →
      (b.node, b'.node) ∈ nodes.zip nodes' →
        Sim (R.Rel (I b.node b'.node)) OutputsAlike (rec b) (rec' b')) :
    ∀ {o o' : NodeLookup}, Progress rec g l nodes o → Progress rec' g' l' nodes' o' →
      bareLookup o = bareLookup o' → Sim (R.Rel (∀ p ∈ nodes.zip nodes', I p.1 p.2)) (fun r r' => bareLookup r = bareLookup r')
        (compileNodes rec g l upstream nodes o) (compileNodes rec' g' l' upstream nodes' o') := by
  induction nodes generalizing nodes' with
  | nil =>
    intro o o' _ _ ho
    obtain rfl : nodes' = [] := by simpa using hids.symm
    exact Sim.pure (LogRel.iff R.nil (by simp)) ho
  | cons n nodes ih =>
    intro o o' hprogress hprogress' ho
    cases nodes' with
    | nil => simp at hids
    | cons n' nodes' =>
      rw [List.map_cons, List.map_cons, List.cons.injEq] at hids
      have hseat := seatOf_alike hg hl upstream ho hids.1
      have hhead := hrec _ _ ⟨nodes, o, hprogress, by rw [hup]; rfl⟩
        ⟨nodes', o', hprogress', by rw [hup']; rfl⟩ hseat List.mem_cons_self
      have hseq := Sim.seq (Q := ∀ p ∈ nodes.zip nodes', I p.1 p.2) hhead.clean
        (f := fun outputs => compileNodes rec g l upstream nodes (o.insert n.id outputs))
        (g := fun outputs => compileNodes rec' g' l' upstream nodes' (o'.insert n'.id outputs)) (by
          rintro r r' ⟨hr, ⟨log, hc⟩, ⟨log', hc'⟩⟩
          exact ih hids.2 (fun b b' hv hv' hs hm => hrec b b' hv hv' hs (List.mem_cons_of_mem _ hm))
            (hprogress.step (hup ▸ hc.1)) (hprogress'.step (hup' ▸ hc'.1))
            (bareLookup_insert ho hids.1 hr))
      refine hseq.mono (fun _ _ h => LogRel.iff h ?_) fun _ _ => id
      rw [List.zip_cons_cons, List.forall_mem_cons]
      rfl

theorem orderedNodes_alike (hg : GraphAlike g g') {upstream : Dict String (List String)}
    {nodes : List GraphNode} (h : orderedNodes g upstream = .ok nodes) :
    ∃ nodes', orderedNodes g' upstream = .ok nodes' ∧ nodes.map NodeOf.id = nodes'.map NodeOf.id ∧
      ∀ p, p ∈ nodes.zip nodes' ↔ p ∈ nodePairs g g' := by
  cases ho : nodeOrder g.name (nodeIds g) upstream with
  | error e => simp [orderedNodes, ho, Except.map] at h
  | ok order =>
    obtain rfl : order.filterMap (nodesById g).get? = nodes := by
      simpa [orderedNodes, ho, Except.map] using h
    have hids : (nodeIds g).Nodup := by
      rw [nodeOrder] at ho
      split_ifs at ho with hn
      exact hn
    -- the two levels are the two halves of one list of pairs, filed under the common id
    have hlen : g.nodes.length = g'.nodes.length := by
      simpa [nodeIds] using congrArg List.length hg.ids
    have hpair : ∀ p ∈ nodePairs g g', p.1.id = p.2.id := map_eq_zip hg.ids
    have hleft : (nodePairs g g').map Prod.fst = g.nodes := List.map_fst_zip hlen.le
    have hright : (nodePairs g g').map Prod.snd = g'.nodes := List.map_snd_zip hlen.ge
    let rows := (nodePairs g g').map (fun p => (p.1.id, p))
    have hkeys : rows.map Prod.fst = nodeIds g := by
      rw [nodeIds, ← hleft]
      simp [rows, Function.comp_def]
    have hrows : (Dict.mk rows).keys.Nodup := by
      rw [Dict.keys, hkeys]
      exact hids
    have hget : ∀ name, (nodesById g).get? name = ((Dict.mk rows).get? name).map Prod.fst := by
      intro name
      rw [← Dict.get?_mapValues]
      have he : (nodesById g).entries = (Dict.mapValues Prod.fst ⟨rows⟩).entries := by
        rw [nodesById, Dict.ofList_entries (by simpa [nodeIds, Function.comp_def] using hids), ← hleft]
        simp [rows, Dict.mapValues, Function.comp_def]
      rw [Dict.get?, Dict.get?, he]
    have hget' : ∀ name, (nodesById g').get? name = ((Dict.mk rows).get? name).map Prod.snd := by
      intro name
      rw [← Dict.get?_mapValues]
      have he : (nodesById g').entries = (Dict.mapValues Prod.snd ⟨rows⟩).entries := by
        have hids' : (nodeIds g').Nodup := hg.ids ▸ hids
        rw [nodesById, Dict.ofList_entries (by simpa [nodeIds, Function.comp_def] using hids'), ← hright]
        simp only [rows, Dict.mapValues, List.map_map, Function.comp_def]
        exact List.map_congr_left fun p hp => by rw [hpair p hp]
      rw [Dict.get?, Dict.get?, he]
    have hnodes : order.filterMap (nodesById g).get? =
        (order.filterMap (Dict.mk rows).get?).map Prod.fst := by
      rw [List.map_filterMap]
      exact congrArg (order.filterMap ·) (funext hget)
    have hnodes' : order.filterMap (nodesById g').get? =
        (order.filterMap (Dict.mk rows).get?).map Prod.snd := by
      rw [List.map_filterMap]
      exact congrArg (order.filterMap ·) (funext hget')
    have hmem : ∀ p, p ∈ order.filterMap (Dict.mk rows).get? ↔ p ∈ nodePairs g g' := by
      intro p
      rw [List.mem_filterMap]
      constructor
      · rintro ⟨name, -, hp⟩
        obtain ⟨q, hq, he⟩ := List.mem_map.mp (Dict.mem_of_get? hp)
        exact (Prod.mk.inj he).2 ▸ hq
      · intro hp
        have hrow : (p.1.id, p) ∈ rows := List.mem_map.mpr ⟨p, hp, rfl⟩
        refine ⟨p.1.id, (nodeOrder_placed ho).2 ?_, Dict.get?_of_mem hrows hrow⟩
        exact hkeys ▸ List.mem_map.mpr ⟨_, hrow, rfl⟩
    refine ⟨order.filterMap (nodesById g').get?, ?_, ?_, ?_⟩
    · rw [orderedNodes, ← hg.name, ← hg.ids, ho]
      rfl
    · rw [hnodes, hnodes', List.map_map, List.map_map]
      exact List.map_congr_left fun p hp => hpair p ((hmem p).mp hp)
    · intro p
      have hzip := List.zip_unzip (order.filterMap (Dict.mk rows).get?)
      rw [List.unzip_eq_map] at hzip
      rw [hnodes, hnodes', hzip, hmem]

theorem bindOutputs_alike {nodeSources nodeSources' inputSources inputSources' : List Source}
    (hn : nodeSources.map Source.bare = nodeSources'.map Source.bare)
    (hi : inputSources.map Source.bare = inputSources'.map Source.bare) :
    ∀ {ports ports' : List (Port × ℕ)} {o o' : Sources},
      ports.map (fun p => p.1.bare) = ports'.map (fun p => p.1.bare) → OutputsAlike o o' →
        Quiet (δ := δ) OutputsAlike (bindOutputs l nodeSources inputSources ports o)
          (bindOutputs l' nodeSources' inputSources' ports' o') := by
  intro ports
  induction ports with
  | nil =>
    intro ports' o o' hp ho
    obtain rfl : ports' = [] := by simpa using hp.symm
    exact Sim.pure ⟨rfl, rfl⟩ ho
  | cons entry ports ih =>
    obtain ⟨port, index⟩ := entry
    intro ports' o o' hp ho
    cases ports' with
    | nil => simp at hp
    | cons entry' ports' =>
      obtain ⟨port', index'⟩ := entry'
      rw [List.map_cons, List.map_cons, List.cons.injEq] at hp
      obtain ⟨hname, htype, hhash, -⟩ := Port.bare_eq_iff.mp hp.1
      have hany : nodeSources.any (fun s => portsSameContract s.port port) =
          nodeSources'.any (fun s => portsSameContract s.port port') := by
        have hbare : ∀ (ns : List Source) (q : Port), q.typeId = port'.typeId →
            q.schemaHash = port'.schemaHash → ns.any (fun s => portsSameContract s.port q) =
              (ns.map Source.bare).any (fun s => portsSameContract s.port port') := by
          intro ns q ht hh
          rw [List.any_map]
          congr 1
          funext s
          rw [Function.comp_apply, portsSameContract, portsSameContract, ht, hh]
          rfl
        rw [hbare nodeSources port htype hhash, hbare nodeSources' port' rfl rfl, hn]
      have hpool : (if nodeSources.any (fun s => portsSameContract s.port port) then nodeSources
            else inputSources).map Source.bare =
          (if nodeSources'.any (fun s => portsSameContract s.port port') then nodeSources'
            else inputSources').map Source.bare := by
        rw [hany]
        split_ifs
        · exact hn
        · exact hi
      refine Quiet.bind (bindPort_alike hp.1 hpool) fun r r' hr => ?_
      obtain ⟨rfl, rfl⟩ | ⟨sources, sources', rfl, rfl, hs⟩ := hr.cases
      · exact ih hp.2 ho
      · refine ih hp.2 (bareSources_insert ho hname ?_)
        have htag : ∀ (ss : List Source) (q : Port),
            (ss.map (fun s => (⟨s.address, q⟩ : Source))).map Source.bare =
              (ss.map Source.address).map (fun address => ⟨address, q.bare⟩) := by
          intro ss q
          rw [List.map_map, List.map_map]
          rfl
        rw [htag, htag, map_address_of_bare hs, hp.1]

theorem Quiet.refuseOn {fs fs' : List Fault} (h : fs = [] → fs' = []) :
    Quiet (δ := δ) (fun _ _ => True) (Constructicon.refuseOn fs) (Constructicon.refuseOn fs') := by
  intro log u hx
  obtain ⟨hfs, rfl⟩ := refuseOn_clean hx
  refine ⟨[], (), ?_, ⟨rfl, rfl⟩, trivial⟩
  rw [Constructicon.refuseOn, if_pos (h hfs)]
  exact clean_pure.mpr ⟨rfl, rfl⟩

theorem Quiet.validateUniquePorts {site site' : PortsSite} {ports ports' : List Port}
    (h : ports.map Port.name = ports'.map Port.name) :
    Quiet (δ := δ) (fun _ _ => True) (Constructicon.validateUniquePorts site ports)
      (Constructicon.validateUniquePorts site' ports') := by
  have hnames : duplicateNames ports = duplicateNames ports' := by
    rw [duplicateNames, duplicateNames, h]
  intro log u hx
  rw [Constructicon.validateUniquePorts] at hx
  split_ifs at hx with hd
  · refine ⟨[], (), ?_, ⟨(clean_pure.mp hx).1, rfl⟩, trivial⟩
    rw [Constructicon.validateUniquePorts, ← hnames, if_pos hd]
    exact clean_pure.mpr ⟨rfl, rfl⟩
  · exact absurd hx not_clean_fault

/-- One level of two graphs alike. The nodes it visits are compared by `hrec`. -/
theorem compileGraphWith_alike (hg : GraphAlike g g') (hl : LevelAlike l l')
    (hrec : ∀ b b', LevelVisits rec g l b → LevelVisits rec' g' l' b' → SeatAlike b b' →
      (b.node, b'.node) ∈ nodePairs g g' →
        Sim (R.Rel (I b.node b'.node)) OutputsAlike (rec b) (rec' b')) :
    Sim (R.Rel (∀ p ∈ nodePairs g g', I p.1 p.2)) OutputsAlike (compileGraphWith rec g l)
      (compileGraphWith rec' g' l') := by
  have hends : endpointFaults g l.scope l.location = [] → endpointFaults g' l'.scope l'.location = [] := by
    simp only [endpointFaults, List.map_eq_nil_iff, hg.edges, hg.ids]
    exact id
  have hcycles : cycleFaults g l.scope l.location = [] → cycleFaults g' l'.scope l'.location = [] := by
    simp only [cycleFaults, List.map_eq_nil_iff, hg.edges, hg.ids]
    exact id
  have hin := map_bare_of_norm hg.inputs
  have hout := map_bare_of_norm hg.outputs
  unfold compileGraphWith
  refine Quiet.bind (Quiet.refuseOn hends) fun _ _ _ => ?_
  refine Quiet.bind (Quiet.refuseOn hcycles) fun _ _ _ => ?_
  refine Quiet.bind (Quiet.validateUniquePorts (map_name_of_bare hin)) fun _ _ _ => ?_
  refine Quiet.bind (Quiet.validateUniquePorts (map_name_of_bare hout)) fun _ _ _ => ?_
  have hup' : upstreamClosure (nodeIds g) (connectionEdges g) =
      upstreamClosure (nodeIds g') (connectionEdges g') := by rw [hg.ids, hg.edges]
  rw [← hup']
  set upstream := upstreamClosure (nodeIds g) (connectionEdges g) with hup
  intro log o hclean
  obtain ⟨l₁, nodes, l₂, hord, htail, rfl⟩ := clean_bind.mp hclean
  obtain ⟨horder, rfl⟩ := ofExcept_clean hord
  obtain ⟨nodes', horder', hids, hzip⟩ := orderedNodes_alike hg horder
  have hnodes := compileNodes_alike (R := R) (I := I) hg hl hup hup' hids
    (fun b b' hv hv' hs hm => hrec b b' hv hv' hs ((hzip _).mp hm)) (Progress.start horder)
    (Progress.start (hup' ▸ horder')) rfl
  have hports : g.outputs.zipIdx.map (fun p => p.1.bare) = g'.outputs.zipIdx.map (fun p => p.1.bare) := by
    have hz : ∀ ports : List Port, ports.zipIdx.map (fun p => p.1.bare) = ports.map Port.bare := by
      intro ports
      conv_rhs => rw [← List.zipIdx_map_fst 0 ports, List.map_map]
      rfl
    rw [hz, hz, hout]
  have hvalues : ∀ {r r' : NodeLookup}, bareLookup r = bareLookup r' →
      (r.values.flatMap allSources).map Source.bare = (r'.values.flatMap allSources).map Source.bare := by
    intro r r' hr
    have hflat : ∀ r : NodeLookup, (r.values.flatMap allSources).map Source.bare =
        (bareLookup r).values.flatMap (fun s => s.values.flatten) := by
      intro r
      rw [bareLookup, Dict.values_mapValues, List.flatMap_map, List.map_flatMap]
      simp only [allSources_bare]
    rw [hflat r, hflat r', hr]
  have houtputs : ∀ r r' : NodeLookup, bareLookup r = bareLookup r' →
      Quiet (δ := δ) OutputsAlike
        (bindOutputs l (r.values.flatMap allSources) (allSources l.inputSources) g.outputs.zipIdx .empty)
        (bindOutputs l' (r'.values.flatMap allSources) (allSources l'.inputSources) g'.outputs.zipIdx
          .empty) :=
    fun r r' hr => bindOutputs_alike (hvalues hr) (allSources_alike hl.inputSources) hports rfl
  have hsim := Sim.bind (S := R.Rel (∀ p ∈ nodePairs g g', I p.1 p.2)) hnodes houtputs (by
      rintro m m' n n' hm ⟨rfl, rfl⟩
      rw [List.append_nil, List.append_nil]
      exact LogRel.iff hm (by simp only [hzip]))
  obtain ⟨log', o', hc', hS, ho⟩ := hsim l₂ o htail
  refine ⟨log', o', ?_, hS, ho⟩
  refine clean_bind.mpr ⟨[], nodes', log', ⟨?_, rfl⟩, hc', rfl⟩
  rw [Emit.Returns, ofExcept, horder']

end Level

end Constructicon
