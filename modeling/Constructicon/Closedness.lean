import Constructicon.Sealed

/-!
# Closedness of admitted manifests

A manifest read on its own: `Declares` says which port stands at an address for a
reader at the root or inside one loop body, and `Closed` that every source of the
manifest is declared there, uniquely and under the contract of the port it feeds.
-/

namespace Constructicon

variable {δ : Type}

/-- Where a reader of values stands: at the root, or inside the body of a loop. -/
abbrev Region := Option LoopResolution

/-- An instance runs in a region: in the body that lists it as a member, else at the root. -/
def InRegion (m : ExecutionManifest δ) (i : Instance) : Region → Prop
  | none => ∀ l ∈ m.resolvedLoops, i.scope ∉ l.memberOrder
  | some l => l ∈ m.resolvedLoops ∧ i.scope ∈ l.memberOrder

/-- The port declared at an address, for a reader in a region. -/
inductive Declares (s : RegistrySnapshot) (m : ExecutionManifest δ) :
    Region → PortAddress → Port → Prop
  | rootInput {p : Port} (hp : p ∈ m.sourceGraph.inputs) :
      Declares s m none (.graphInput [m.sourceGraph.name] p.name) p
  | output {region : Region} {i : Instance} {p : Port} (hi : i ∈ s.instances m)
      (hr : InRegion m i region) (hp : p ∈ i.definition.outputs) :
      Declares s m region (i.port p.name) p
  | loopExport {l : LoopResolution} {e : LoopExport} (hl : l ∈ m.resolvedLoops)
      (he : e ∈ l.exports) : Declares s m none e.destination e.port
  | boundary {l : LoopResolution} {p : Port} (hl : l ∈ m.resolvedLoops) (hp : p ∈ l.inputPorts) :
      Declares s m (some l) (.graphInput l.bodyScope p.name) p

/-- `sources` feed `port` in a region: each is declared there, and whatever is declared
there has the port's contract. -/
structure Feeds (s : RegistrySnapshot) (m : ExecutionManifest δ) (region : Region) (port : Port)
    (sources : List PortAddress) : Prop where
  nonempty : sources ≠ []
  many : 1 < sources.length → port.cardinality = .many
  declared : ∀ a ∈ sources, ∃ q, Declares s m region a q
  contract : ∀ a ∈ sources, ∀ q, Declares s m region a q → q.contract = port.contract

structure Closed (s : RegistrySnapshot) (h : Hashing δ) (m : ExecutionManifest δ) : Prop where
  connections : ∀ b ∈ m.resolvedConnections,
    (∃ i ∈ s.instances m, ∃ region, InRegion m i region ∧ ∃ p ∈ i.definition.inputs,
      b.destination = i.port p.name ∧ Feeds s m region p b.sources) ∨
    (∃ p ∈ m.sourceGraph.outputs, b.destination = .graphOutput [m.sourceGraph.name] p.name ∧
      Feeds s m none p b.sources)
  distinct : (m.resolvedConnections.map ResolvedPortBinding.destination).Nodup
  initial : ∀ l ∈ m.resolvedLoops, ∀ b ∈ l.initialBindings, ∃ p ∈ l.inputPorts,
    b.destination = .graphInput l.bodyScope p.name ∧ Feeds s m none p b.sources
  feedback : ∀ l ∈ m.resolvedLoops, ∀ b ∈ l.feedbackBindings, ∃ p ∈ l.inputPorts,
    b.destination = .graphInput l.bodyScope p.name ∧ Feeds s m (some l) p b.sources
  continuation : ∀ l ∈ m.resolvedLoops, (∃ q, Declares s m (some l) l.continueSource q) ∧
    ∀ q, Declares s m (some l) l.continueSource q → q.contract = continueContract h
  exports : ∀ l ∈ m.resolvedLoops, ∀ e ∈ l.exports, Feeds s m (some l) e.port e.sources
  required : ∀ i ∈ s.instances m, ∀ p ∈ i.definition.inputs, p.cardinality ≠ .optional →
    ∃ b ∈ m.resolvedConnections, b.destination = i.port p.name

/-! ## Scopes identify units and instances -/

theorem scope_ext {s t : ScopePath} (hs : s ≠ []) (ht : t ≠ []) (hd : s.dropLast = t.dropLast)
    (hl : s.getLastD "" = t.getLastD "") : s = t := by
  rw [← List.dropLast_append_getLast hs, ← List.dropLast_append_getLast ht, hd]
  rw [List.getLastD_eq_getLast?, List.getLastD_eq_getLast?, List.getLast?_eq_some_getLast hs,
    List.getLast?_eq_some_getLast ht] at hl
  rw [Option.getD_some, Option.getD_some] at hl
  rw [hl]

theorem eq_of_mem_flatMap_nodup {α β : Type} {f : α → List β} {l : List α} {a b : α} {x : β}
    (h : (l.flatMap f).Nodup) (ha : a ∈ l) (hb : b ∈ l) (hxa : x ∈ f a) (hxb : x ∈ f b) : a = b := by
  by_contra hne
  have hsymm : Std.Symm (Function.onFun List.Disjoint f) := ⟨fun _ _ hd => hd.symm⟩
  exact (List.nodup_flatMap.mp h).2.forall ha hb hne hxa hxb

namespace Sealed

variable {s : RegistrySnapshot} {h : Hashing δ} {supplied : String → Prop}
  {m : ExecutionManifest δ} {units : List CompiledUnit} {outputs : Bound}

theorem mem_instances (hs : Sealed s h supplied m units outputs) {i : Instance} :
    i ∈ s.instances m ↔ ∃ u ∈ units, ∃ c ∈ u.cells, c.inst = i := by
  simp only [hs.instances, List.mem_flatMap, List.mem_map]

theorem mem_loops (hs : Sealed s h supplied m units outputs) {l : LoopResolution} :
    l ∈ m.resolvedLoops ↔ ∃ cells, CompiledUnit.loop l cells ∈ units := by
  rw [hs.loops, List.mem_filterMap]
  constructor
  · rintro ⟨u, hu, he⟩
    cases u with
    | atomic c => cases he
    | loop l' cells => cases he; exact ⟨cells, hu⟩
  · rintro ⟨cells, hu⟩
    exact ⟨_, hu, rfl⟩

theorem scope_ne_nil (hs : Sealed s h supplied m units outputs) {u : CompiledUnit} (hu : u ∈ units)
    {scope : ScopePath} (hm : scope ∈ u.scopes) : scope ≠ [] := by
  rintro rfl
  simpa using hs.within u hu [] hm

theorem unit_eq_of_scope (hs : Sealed s h supplied m units outputs) {u v : CompiledUnit}
    (hu : u ∈ units) (hv : v ∈ units) {scope : ScopePath} (hus : scope ∈ u.scopes)
    (hvs : scope ∈ v.scopes) : u = v :=
  eq_of_mem_flatMap_nodup hs.distinct hu hv hus hvs

theorem typed_of_mem (hs : Sealed s h supplied m units outputs) {u : CompiledUnit} (hu : u ∈ units) :
    u.Typed h (after (rootOffers m.sourceGraph supplied) units) :=
  hs.typed.of_mem (CompiledUnit.typed_mono h) hu

theorem loopTyped (hs : Sealed s h supplied m units outputs) {l : LoopResolution}
    {cells : List Cell} (hu : .loop l cells ∈ units) :
    LoopTyped h (after (rootOffers m.sourceGraph supplied) units) l cells :=
  hs.typed_of_mem hu

end Sealed

theorem CompiledUnit.scope_mem_scopes {u : CompiledUnit} {c : Cell} (hc : c ∈ u.cells) :
    c.inst.scope ∈ u.scopes := by
  cases u with
  | atomic c' =>
    rw [CompiledUnit.cells, List.mem_singleton] at hc
    simp [CompiledUnit.scopes, hc]
  | loop l cells => exact List.mem_cons_of_mem _ (List.mem_map.mpr ⟨c, hc, rfl⟩)

namespace Sealed

variable {s : RegistrySnapshot} {h : Hashing δ} {supplied : String → Prop}
  {m : ExecutionManifest δ} {units : List CompiledUnit} {outputs : Bound}

theorem scopes_nodup (hs : Sealed s h supplied m units outputs) {u : CompiledUnit}
    (hu : u ∈ units) : u.scopes.Nodup :=
  (List.nodup_flatMap.mp hs.distinct).1 u hu

theorem cell_eq_of_scope (hs : Sealed s h supplied m units outputs) {u v : CompiledUnit}
    (hu : u ∈ units) (hv : v ∈ units) {c d : Cell} (hc : c ∈ u.cells) (hd : d ∈ v.cells)
    (he : c.inst.scope = d.inst.scope) : u = v ∧ c = d := by
  obtain rfl := hs.unit_eq_of_scope hu hv (CompiledUnit.scope_mem_scopes hc)
    (he ▸ CompiledUnit.scope_mem_scopes hd)
  refine ⟨rfl, ?_⟩
  have hn := hs.scopes_nodup hu
  cases u with
  | atomic c' =>
    rw [CompiledUnit.cells, List.mem_singleton] at hc hd
    rw [hc, hd]
  | loop l cells => exact List.inj_on_of_nodup_map (List.nodup_cons.mp hn).2 hc hd he

theorem loop_scope_ne (hs : Sealed s h supplied m units outputs) {u : CompiledUnit} (hu : u ∈ units)
    {c : Cell} (hc : c ∈ u.cells) {l : LoopResolution} {cells : List Cell}
    (hl : .loop l cells ∈ units) : c.inst.scope ≠ l.scope := by
  intro he
  obtain rfl := hs.unit_eq_of_scope hu hl (CompiledUnit.scope_mem_scopes hc)
    (he ▸ List.mem_cons_self)
  have hn := (List.nodup_cons.mp (hs.scopes_nodup hl)).1
  exact hn (he ▸ List.mem_map.mpr ⟨c, hc, rfl⟩)

theorem inRegion_atomic (hs : Sealed s h supplied m units outputs) {c : Cell}
    (hu : .atomic c ∈ units) : InRegion m c.inst none := by
  intro l hl hm
  obtain ⟨cells, hv⟩ := hs.mem_loops.mp hl
  rw [(hs.loopTyped hv).members] at hm
  obtain ⟨d, hd, he⟩ := List.mem_map.mp hm
  have := (hs.cell_eq_of_scope hu hv List.mem_cons_self hd he.symm).1
  cases this

theorem inRegion_member (hs : Sealed s h supplied m units outputs) {l : LoopResolution}
    {cells : List Cell} (hu : .loop l cells ∈ units) {c : Cell} (hc : c ∈ cells) :
    InRegion m c.inst (some l) := by
  refine ⟨hs.mem_loops.mpr ⟨cells, hu⟩, ?_⟩
  rw [(hs.loopTyped hu).members]
  exact List.mem_map.mpr ⟨c, hc, rfl⟩

/-! ## Offers are declarations -/

theorem declares_of_root (hs : Sealed s h supplied m units outputs) {a : PortAddress} {q : Port}
    (ho : (a, q) ∈ after (rootOffers m.sourceGraph supplied) units) : Declares s m none a q := by
  rcases ho with ⟨p, hp, -, he⟩ | ⟨u, hu, ho⟩
  · obtain ⟨rfl, rfl⟩ := Prod.mk.inj he
    exact .rootInput hp
  · cases u with
    | atomic c =>
      obtain ⟨p, hp, he⟩ := ho
      obtain ⟨rfl, rfl⟩ := Prod.mk.inj he
      exact .output (hs.mem_instances.mpr ⟨_, hu, c, List.mem_cons_self, rfl⟩)
        (hs.inRegion_atomic hu) hp
    | loop l cells =>
      obtain ⟨e, hm, he⟩ := ho
      obtain ⟨rfl, rfl⟩ := Prod.mk.inj he
      exact .loopExport (hs.mem_loops.mpr ⟨cells, hu⟩) hm

theorem declares_of_inner (hs : Sealed s h supplied m units outputs) {l : LoopResolution}
    {cells : List Cell} (hu : .loop l cells ∈ units) {a : PortAddress} {q : Port}
    (ho : (a, q) ∈ l.inner cells) : Declares s m (some l) a q := by
  rcases ho with ⟨p, hp, he, -⟩ | ⟨c, hc, p, hp, he⟩
  · obtain ⟨rfl, rfl⟩ := Prod.mk.inj he
    exact .boundary (hs.mem_loops.mpr ⟨cells, hu⟩) hp
  · obtain ⟨rfl, rfl⟩ := Prod.mk.inj he
    exact .output (hs.mem_instances.mpr ⟨_, hu, c, hc, rfl⟩) (hs.inRegion_member hu hc) hp

/-! ## One port at each address -/

theorem port_inj (hs : Sealed s h supplied m units outputs) {i j : Instance}
    (hi : i ∈ s.instances m) (hj : j ∈ s.instances m) {p q : String} (he : i.port p = j.port q) :
    i = j ∧ p = q := by
  obtain ⟨u, hu, c, hc, rfl⟩ := hs.mem_instances.mp hi
  obtain ⟨v, hv, d, hd, rfl⟩ := hs.mem_instances.mp hj
  obtain ⟨hlevel, hnode, hp⟩ := PortAddress.nodePort.inj he
  have hscope : c.inst.scope = d.inst.scope :=
    scope_ext (hs.scope_ne_nil hu (CompiledUnit.scope_mem_scopes hc))
      (hs.scope_ne_nil hv (CompiledUnit.scope_mem_scopes hd)) hlevel hnode
  obtain ⟨-, rfl⟩ := hs.cell_eq_of_scope hu hv hc hd hscope
  exact ⟨rfl, hp⟩

theorem export_ne_port (hs : Sealed s h supplied m units outputs) {l : LoopResolution}
    (hl : l ∈ m.resolvedLoops) {e : LoopExport} (he : e ∈ l.exports) {i : Instance}
    (hi : i ∈ s.instances m) (p : String) : i.port p ≠ e.destination := by
  intro heq
  obtain ⟨cells, hv⟩ := hs.mem_loops.mp hl
  obtain ⟨u, hu, c, hc, rfl⟩ := hs.mem_instances.mp hi
  rw [((hs.loopTyped hv).exports e he).1] at heq
  obtain ⟨hlevel, hnode, -⟩ := PortAddress.nodePort.inj heq
  exact hs.loop_scope_ne hu hc hv (scope_ext
    (hs.scope_ne_nil hu (CompiledUnit.scope_mem_scopes hc))
    (hs.scope_ne_nil hv List.mem_cons_self) hlevel hnode)

theorem export_inj (hs : Sealed s h supplied m units outputs) {l l' : LoopResolution}
    (hl : l ∈ m.resolvedLoops) (hl' : l' ∈ m.resolvedLoops) {e e' : LoopExport} (he : e ∈ l.exports)
    (he' : e' ∈ l'.exports) (heq : e.destination = e'.destination) : l = l' ∧ e = e' := by
  obtain ⟨cells, hu⟩ := hs.mem_loops.mp hl
  obtain ⟨cells', hv⟩ := hs.mem_loops.mp hl'
  rw [((hs.loopTyped hu).exports e he).1, ((hs.loopTyped hv).exports e' he').1] at heq
  obtain ⟨hlevel, hnode, hname⟩ := PortAddress.nodePort.inj heq
  have hscope : l.scope = l'.scope := scope_ext (hs.scope_ne_nil hu List.mem_cons_self)
    (hs.scope_ne_nil hv List.mem_cons_self) hlevel hnode
  have hmem : l.scope ∈ (CompiledUnit.loop l' cells').scopes := hscope ▸ List.mem_cons_self
  have hunit := hs.unit_eq_of_scope hu hv List.mem_cons_self hmem
  cases hunit
  exact ⟨rfl, List.inj_on_of_nodup_map (hs.loopTyped hu).exports_nodup he he' hname⟩

theorem export_ne_graphInput (hs : Sealed s h supplied m units outputs) {l : LoopResolution}
    (hl : l ∈ m.resolvedLoops) {e : LoopExport} (he : e ∈ l.exports) (scope : ScopePath)
    (p : String) : e.destination ≠ .graphInput scope p := by
  obtain ⟨cells, hu⟩ := hs.mem_loops.mp hl
  rw [((hs.loopTyped hu).exports e he).1]
  exact PortAddress.noConfusion

theorem declares_unique (hs : Sealed s h supplied m units outputs) (hports : s.DistinctPorts)
    {region : Region} {a : PortAddress} {q q' : Port} (hq : Declares s m region a q)
    (hq' : Declares s m region a q') : q = q' := by
  have hout : ∀ i ∈ s.instances m, (i.definition.outputs.map Port.name).Nodup := by
    intro i hi
    obtain ⟨r, -, hr⟩ := List.mem_filterMap.mp hi
    simp only [RegistrySnapshot.instanceOf] at hr
    split at hr
    next => cases hr
    next stored hg =>
      split at hr
      next => cases hr
      next => cases hr; exact (hports _ _ _ hg).2
  cases hq with
  | rootInput hp =>
    generalize ha : PortAddress.graphInput [m.sourceGraph.name] q.name = a at hq'
    cases hq' with
    | rootInput hp' => exact List.inj_on_of_nodup_map hs.inputs_nodup hp hp' (PortAddress.graphInput.inj ha).2
    | output => cases ha
    | loopExport hl he => exact absurd ha.symm (hs.export_ne_graphInput hl he _ _)
  | output hi hr hp =>
    generalize ha : Instance.port _ q.name = a at hq'
    cases hq' with
    | rootInput => cases ha
    | output hi' hr' hp' =>
      obtain ⟨rfl, hname⟩ := hs.port_inj hi hi' ha
      exact List.inj_on_of_nodup_map (hout _ hi) hp hp' hname
    | loopExport hl he => exact absurd ha (hs.export_ne_port hl he hi _)
    | boundary => cases ha
  | loopExport hl he =>
    generalize ha : LoopExport.destination _ = a at hq'
    cases hq' with
    | rootInput => exact absurd ha (hs.export_ne_graphInput hl he _ _)
    | output hi hr hp => exact absurd ha.symm (hs.export_ne_port hl he hi _)
    | loopExport hl' he' => rw [(hs.export_inj hl hl' he he' ha).2]
  | boundary hl hp =>
    generalize ha : PortAddress.graphInput _ q.name = a at hq'
    cases hq' with
    | output => cases ha
    | boundary hl' hp' =>
      obtain ⟨cells, hu⟩ := hs.mem_loops.mp hl
      exact List.inj_on_of_nodup_map (hs.loopTyped hu).inputs_nodup hp hp'
        (PortAddress.graphInput.inj ha).2

/-! ## The manifest is closed -/

theorem feeds_root (hs : Sealed s h supplied m units outputs) (hports : s.DistinctPorts)
    {port : Port} {sources : List PortAddress}
    (hf : Sourced (after (rootOffers m.sourceGraph supplied) units) port sources) :
    Feeds s m none port sources := by
  refine ⟨hf.nonempty, hf.many, ?_, ?_⟩
  · intro a ha
    obtain ⟨q, hq, -⟩ := hf.typed a ha
    exact ⟨q, hs.declares_of_root hq⟩
  · intro a ha q' hq'
    obtain ⟨q, hq, hc⟩ := hf.typed a ha
    rw [hs.declares_unique hports hq' (hs.declares_of_root hq), hc]

theorem feeds_inner (hs : Sealed s h supplied m units outputs) (hports : s.DistinctPorts)
    {l : LoopResolution} {cells : List Cell} (hu : .loop l cells ∈ units) {port : Port}
    {sources : List PortAddress} (hf : Sourced (l.inner cells) port sources) :
    Feeds s m (some l) port sources := by
  refine ⟨hf.nonempty, hf.many, ?_, ?_⟩
  · intro a ha
    obtain ⟨q, hq, -⟩ := hf.typed a ha
    exact ⟨q, hs.declares_of_inner hu hq⟩
  · intro a ha q' hq'
    obtain ⟨q, hq, hc⟩ := hf.typed a ha
    rw [hs.declares_unique hports hq' (hs.declares_of_inner hu hq), hc]

theorem cell_feeds (hs : Sealed s h supplied m units outputs) (hports : s.DistinctPorts)
    {u : CompiledUnit} (hu : u ∈ units) {c : Cell} (hc : c ∈ u.cells) :
    ∃ env region, InRegion m c.inst region ∧ c.Typed env ∧
      ∀ port sources, Sourced env port sources → Feeds s m region port sources := by
  cases u with
  | atomic c' =>
    rw [CompiledUnit.cells, List.mem_singleton] at hc
    subst hc
    exact ⟨_, none, hs.inRegion_atomic hu, hs.typed_of_mem hu, fun _ _ => hs.feeds_root hports⟩
  | loop l cells =>
    exact ⟨_, some l, hs.inRegion_member hu hc,
      (hs.loopTyped hu).body.of_mem Cell.typed_mono hc,
      fun _ _ => hs.feeds_inner hports hu⟩

theorem destinations_disjoint {c d : Cell} (hc : c.inst.scope ≠ []) (hd : d.inst.scope ≠ [])
    (hne : c.inst.scope ≠ d.inst.scope) :
    List.Disjoint (c.bindings.map ResolvedPortBinding.destination)
      (d.bindings.map ResolvedPortBinding.destination) := by
  intro a hac had
  simp only [Cell.bindings, List.map_map, List.mem_map, Function.comp_apply] at hac had
  obtain ⟨b, -, rfl⟩ := hac
  obtain ⟨b', -, he⟩ := had
  obtain ⟨hlevel, hnode, -⟩ := PortAddress.nodePort.inj he
  exact hne (scope_ext hc hd hlevel.symm hnode.symm)

theorem distinct_destinations (hs : Sealed s h supplied m units outputs)
    (hports : s.DistinctPorts) :
    (m.resolvedConnections.map ResolvedPortBinding.destination).Nodup := by
  have hcell : ∀ u ∈ units, ∀ c ∈ u.cells,
      (c.bindings.map ResolvedPortBinding.destination).Nodup := by
    intro u hu c hc
    obtain ⟨env, region, -, ht, -⟩ := hs.cell_feeds hports hu hc
    have hmap : c.bindings.map ResolvedPortBinding.destination =
        (c.bound.map Prod.fst).map c.inst.port := by
      simp [Cell.bindings, Function.comp_def]
    rw [hmap]
    exact ht.nodup.map fun p q he => (PortAddress.nodePort.inj he).2.2
  have hne : ∀ u ∈ units, ∀ c ∈ u.cells, c.inst.scope ≠ [] := fun u hu c hc =>
    hs.scope_ne_nil hu (CompiledUnit.scope_mem_scopes hc)
  have hunit : ∀ u ∈ units,
      (u.cells.flatMap (fun c => c.bindings.map ResolvedPortBinding.destination)).Nodup := by
    intro u hu
    refine List.nodup_flatMap.mpr ⟨hcell u hu, ?_⟩
    have hscopes : (u.cells.map (fun c => c.inst.scope)).Nodup := by
      have hn := hs.scopes_nodup hu
      cases u with
      | atomic c => simp [CompiledUnit.cells]
      | loop l cells => exact (List.nodup_cons.mp hn).2
    exact (List.pairwise_map.mp hscopes).imp_of_mem fun hc hd hcd =>
      destinations_disjoint (hne u hu _ hc) (hne u hu _ hd) hcd
  have hcells : (units.flatMap (fun u =>
      u.cells.flatMap (fun c => c.bindings.map ResolvedPortBinding.destination))).Nodup := by
    refine List.nodup_flatMap.mpr ⟨hunit, ?_⟩
    refine (List.nodup_flatMap.mp hs.distinct).2.imp_of_mem fun {u v} hu hv huv => ?_
    intro a hau hav
    obtain ⟨c, hc, hac⟩ := List.mem_flatMap.mp hau
    obtain ⟨d, hd, had⟩ := List.mem_flatMap.mp hav
    refine destinations_disjoint (hne u hu c hc) (hne v hv d hd) ?_ hac had
    intro he
    exact huv (CompiledUnit.scope_mem_scopes hc) (he ▸ CompiledUnit.scope_mem_scopes hd)
  rw [hs.connections, List.map_append, List.map_flatMap]
  simp only [List.map_flatMap]
  refine List.nodup_append.mpr ⟨hcells, ?_, ?_⟩
  · rw [List.map_map]
    have hmap : outputs.map (ResolvedPortBinding.destination ∘
        fun b => ⟨.graphOutput [m.sourceGraph.name] b.1, b.2⟩) =
          (outputs.map Prod.fst).map (PortAddress.graphOutput [m.sourceGraph.name]) := by
      simp [Function.comp_def]
    rw [hmap]
    exact hs.bound.nodup.map fun p q he => (PortAddress.graphOutput.inj he).2
  · rintro a ha b hb rfl
    obtain ⟨u, -, ha⟩ := List.mem_flatMap.mp ha
    obtain ⟨c, -, ha⟩ := List.mem_flatMap.mp ha
    simp only [Cell.bindings, List.map_map, List.mem_map, Function.comp_apply] at ha hb
    obtain ⟨b, -, rfl⟩ := ha
    obtain ⟨b', -, he⟩ := hb
    cases he

theorem closed (hs : Sealed s h supplied m units outputs) (hports : s.DistinctPorts) :
    Closed s h m := by
  refine ⟨?_, hs.distinct_destinations hports, ?_, ?_, ?_, ?_, ?_⟩
  · intro b hb
    rw [hs.connections, List.mem_append] at hb
    rcases hb with hb | hb
    · obtain ⟨u, hu, hb⟩ := List.mem_flatMap.mp hb
      obtain ⟨c, hc, hb⟩ := List.mem_flatMap.mp hb
      obtain ⟨⟨name, sources⟩, hm, rfl⟩ := List.mem_map.mp hb
      obtain ⟨env, region, hr, ht, hfeeds⟩ := hs.cell_feeds hports hu hc
      obtain ⟨p, hp, rfl⟩ := ht.declared _ hm
      exact .inl ⟨c.inst, hs.mem_instances.mpr ⟨u, hu, c, hc, rfl⟩, region, hr, p, hp, rfl,
        hfeeds _ _ (ht.sourced p hp _ hm)⟩
    · obtain ⟨⟨name, sources⟩, hm, rfl⟩ := List.mem_map.mp hb
      obtain ⟨p, hp, rfl⟩ := hs.bound.declared _ hm
      exact .inr ⟨p, hp, rfl, hs.feeds_root hports (hs.bound.sourced p hp _ hm)⟩
  · intro l hl b hb
    obtain ⟨cells, hu⟩ := hs.mem_loops.mp hl
    obtain ⟨bound, hinit, hbound⟩ := (hs.loopTyped hu).initial
    rw [hinit] at hb
    obtain ⟨⟨name, sources⟩, hm, rfl⟩ := List.mem_map.mp hb
    obtain ⟨p, hp, rfl⟩ := hbound.declared _ hm
    exact ⟨p, hp, rfl, hs.feeds_root hports (hbound.sourced p hp _ hm)⟩
  · intro l hl b hb
    obtain ⟨cells, hu⟩ := hs.mem_loops.mp hl
    obtain ⟨p, hp, hd, -, hf⟩ := (hs.loopTyped hu).feedback b hb
    exact ⟨p, hp, hd, hs.feeds_inner hports hu hf⟩
  · intro l hl
    obtain ⟨cells, hu⟩ := hs.mem_loops.mp hl
    obtain ⟨q, hq, hc⟩ := (hs.loopTyped hu).continuation
    refine ⟨⟨q, hs.declares_of_inner hu hq⟩, fun q' hq' => ?_⟩
    rw [hs.declares_unique hports hq' (hs.declares_of_inner hu hq), hc]
  · intro l hl e he
    obtain ⟨cells, hu⟩ := hs.mem_loops.mp hl
    exact hs.feeds_inner hports hu ((hs.loopTyped hu).exports e he).2
  · intro i hi p hp hreq
    obtain ⟨u, hu, c, hc, rfl⟩ := hs.mem_instances.mp hi
    obtain ⟨env, region, -, ht, -⟩ := hs.cell_feeds hports hu hc
    obtain ⟨sources, hm⟩ := ht.required p hp hreq
    refine ⟨⟨c.inst.port p.name, sources⟩, ?_, rfl⟩
    rw [hs.connections]
    exact List.mem_append_left _ (List.mem_flatMap.mpr
      ⟨u, hu, List.mem_flatMap.mpr ⟨c, hc, List.mem_map.mpr ⟨_, hm, rfl⟩⟩⟩)

end Sealed

/-- Every admitted manifest is closed and typed. -/
theorem admit_closed {adm : Admission δ} {depth : ℕ} {g : Graph} {m : ExecutionManifest δ}
    (hports : adm.snapshot.DistinctPorts) (h : admitGraph adm depth g = .ok m) :
    Closed adm.snapshot adm.hashing m := by
  obtain ⟨-, units, outputs, hs⟩ := sealed_of_admit hports h
  exact hs.closed hports

/-! ## A registry to run admissions in -/

namespace Sample

def hashing : Hashing (String × ℕ × Json) := ⟨fun d v p => (d, v, p), fun d => d.1⟩

def python : PythonRef := ⟨"sample", "sample", "step", "contract", none⟩

def value (name : String) (cardinality : Cardinality := .one) : Port :=
  { name := name, typeId := "value", schemaHash := "1", cardinality := cardinality }

def again : Port := { name := "again", typeId := continueType, schemaHash := "json-schema" }

/-- An atomic component with the given boundary. -/
def atomic (name : String) (inputs outputs : List Port) : StoredVersion :=
  ⟨{ name := name, body := .python python, inputs := inputs, outputs := outputs }, "v1"⟩

def composite (name : String) (g : Graph) : StoredVersion :=
  ⟨{ name := name, body := .graph g, inputs := g.inputs, outputs := g.outputs }, "v1"⟩

def assembly : Assembly (String × ℕ × Json) where
  catalog := .empty
  executorUnavailability := fun _ => []
  executorIncoherent := fun _ => false
  authorizesAdmission := fun _ _ => false
  channelIncoherence := fun _ => none

def grants : EffectiveGrants where
  posture := .read
  modelSelection := .backendDefault none
  effort := none
  allowedTools := []
  envAllowlist := []
  network := .none
  timeoutS := 1

/-- `step` advances a value and says whether to go on; `pair` offers two values and
`join` consumes two. -/
def snapshot : RegistrySnapshot where
  versions := ⟨[("step", ⟨[("v1", atomic "step" [value "x"] [value "x", again])]⟩),
    ("pair", ⟨[("v1", atomic "pair" [] [value "x", value "y"])]⟩),
    ("join", ⟨[("v1", atomic "join" [value "x", value "y"] [value "z"])]⟩)]⟩
  stable := ⟨[("step", "v1"), ("pair", "v1"), ("join", "v1")]⟩

def admission (inputs : Dict String Json) : Admission (String × ℕ × Json) where
  snapshot := snapshot
  assembly := assembly
  hashing := hashing
  rootGrants := grants
  inputs := inputs

/-- A loop around `step`, fed by the graph's input and feeding its output. -/
def counter : Graph where
  name := "g"
  nodes := [⟨"l", .loop ⟨.inl { component := "step" }, ⟨[("x", "x")]⟩, "again", 3⟩⟩]
  inputs := [value "x"]
  outputs := [value "x"]

theorem distinctPorts : snapshot.DistinctPorts :=
  RegistrySnapshot.distinctPorts_of_rows (by decide)

end Sample

theorem admit_closed_counter :
    ∃ m, admitGraph (Sample.admission ⟨[("x", .int 0)]⟩) 2 Sample.counter = .ok m ∧
      Closed Sample.snapshot Sample.hashing m := by
  obtain ⟨m, hm⟩ : ∃ m, admitGraph (Sample.admission ⟨[("x", .int 0)]⟩) 2 Sample.counter = .ok m :=
    ⟨_, rfl⟩
  exact ⟨m, hm, admit_closed Sample.distinctPorts hm⟩

end Constructicon
