import Constructicon.WalkerSettled

/-!
# Admitted manifests are wired

The walker reads the flat lists of a manifest through the texts of its addresses. When
these texts tell the addresses apart, it finds the typed program behind an admitted
manifest again: its units, what each takes and from where, and an order to run them in.
-/

namespace Constructicon

open Walker

variable {δ : Type}

/-- Every address of a port that a manifest speaks of. -/
def addresses (s : RegistrySnapshot) (m : ExecutionManifest δ) : List PortAddress :=
  (s.instances m).flatMap (fun i => (i.definition.inputs ++ i.definition.outputs).map (fun p => i.port p.name)) ++
    (m.resolvedLoops.flatMap (fun l => l.exports.map LoopExport.destination ++
      l.inputPorts.map (fun p => .graphInput l.bodyScope p.name)) ++
    (m.sourceGraph.inputs.map (fun p => .graphInput [m.sourceGraph.name] p.name) ++
      m.sourceGraph.outputs.map (fun p => .graphOutput [m.sourceGraph.name] p.name)))

/-- The keys of a manifest's addresses tell them apart. -/
def KeysDistinct (s : RegistrySnapshot) (m : ExecutionManifest δ) : Prop :=
  ∀ a ∈ addresses s m, ∀ b ∈ addresses s m, addressKey a = addressKey b → a = b

instance (s : RegistrySnapshot) (m : ExecutionManifest δ) : Decidable (KeysDistinct s m) :=
  inferInstanceAs (Decidable (∀ a ∈ addresses s m, ∀ b ∈ addresses s m, addressKey a = addressKey b → a = b))

def CompiledUnit.root : CompiledUnit → RootUnit
  | .atomic c => .atomic c.inst
  | .loop l _ => .loop l

@[simp] theorem CompiledUnit.root_scope (u : CompiledUnit) : u.root.scope = u.scope := by
  cases u with
  | atomic c => rfl
  | loop l cells => rfl

theorem kind_of_addressKey {a b : PortAddress} (h : addressKey a = addressKey b) : a.kind = b.kind :=
  (addressKey_eq_iff.mp h).1

theorem Sourced.fits {env : Set Offer} {port : Port} {sources : List PortAddress} (h : Sourced env port sources) :
    Fits port sources := by
  intro notMany
  have some_ := List.length_pos_iff.mpr h.nonempty
  have few : ¬1 < sources.length := fun many => notMany (h.many many)
  omega

namespace Sealed

variable {s : RegistrySnapshot} {h : Hashing δ} {supplied : String → Prop} {m : ExecutionManifest δ}
  {cus : List CompiledUnit} {outputs : Bound}

/-! ## The units -/

theorem roots_perm (hs : Sealed s h supplied m cus outputs) :
    (rootUnits m (s.instances m)).Perm (cus.map CompiledUnit.root) := by
  have member : ∀ {l : LoopResolution} {cells : List Cell}, .loop l cells ∈ cus → ∀ c ∈ cells,
      c.inst.scope ∈ m.resolvedLoops.flatMap LoopResolution.memberOrder := by
    intro l cells mem c inside
    refine List.mem_flatMap.mpr ⟨l, hs.mem_loops.mpr ⟨cells, mem⟩, ?_⟩
    rw [(hs.loopTyped mem).members]
    exact List.mem_map_of_mem inside
  have outside : ∀ {c : Cell}, .atomic c ∈ cus → c.inst.scope ∉ m.resolvedLoops.flatMap LoopResolution.memberOrder := by
    intro c mem inside
    obtain ⟨l, loop, within⟩ := List.mem_flatMap.mp inside
    exact hs.inRegion_atomic mem l loop within
  unfold rootUnits
  rw [hs.instances, show m.resolvedLoops.map RootUnit.loop = (cus.filterMap CompiledUnit.loop?).map RootUnit.loop by
    rw [← hs.loops]]
  generalize m.resolvedLoops.flatMap LoopResolution.memberOrder = inner at member outside
  clear hs
  induction cus with
  | nil => exact .refl _
  | cons u cus ih =>
    have rest := ih (fun mem => member (List.mem_cons_of_mem _ mem)) fun mem => outside (List.mem_cons_of_mem _ mem)
    cases u with
    | atomic c =>
      have kept := outside List.mem_cons_self
      rw [List.flatMap_cons, List.filterMap_cons_none rfl]
      have head : ((CompiledUnit.atomic c).cells.map Cell.inst ++ cus.flatMap (fun u => u.cells.map Cell.inst)).filter
          (fun i => i.scope ∉ inner) = c.inst :: (cus.flatMap (fun u => u.cells.map Cell.inst)).filter
            (fun i => i.scope ∉ inner) := List.filter_cons_of_pos (by simpa using kept)
      rw [head]
      exact rest.cons _
    | loop l cells =>
      have dropped : (cells.map Cell.inst).filter (fun i => i.scope ∉ inner) = [] := by
        rw [List.filter_eq_nil_iff]
        intro i mem
        obtain ⟨c, inside, rfl⟩ := List.mem_map.mp mem
        simpa using member List.mem_cons_self c inside
      have shown : (CompiledUnit.loop l cells).cells = cells := rfl
      have looped : (CompiledUnit.loop l cells).loop? = some l := rfl
      rw [List.flatMap_cons, List.filter_append, shown, dropped, List.nil_append, List.filterMap_cons_some looped,
        List.map_cons, List.map_cons]
      exact List.perm_middle.trans (rest.cons _)

theorem mem_rootUnits (hs : Sealed s h supplied m cus outputs) {u : RootUnit} :
    u ∈ rootUnits m (s.instances m) ↔ ∃ cu ∈ cus, cu.root = u := by
  rw [hs.roots_perm.mem_iff, List.mem_map]

theorem unit_scopes_nodup (hs : Sealed s h supplied m cus outputs) : (cus.map CompiledUnit.scope).Nodup := by
  have own : ∀ u : CompiledUnit, u.scope ∈ u.scopes := by
    intro u
    cases u with
    | atomic c => exact List.mem_cons_self
    | loop l cells => exact List.mem_cons_self
  refine List.pairwise_map.mpr ((List.nodup_flatMap.mp hs.distinct).2.imp ?_)
  intro u w apart same
  exact apart (own u) (same ▸ own w)

theorem rootUnits_nodup (hs : Sealed s h supplied m cus outputs) :
    ((rootUnits m (s.instances m)).map RootUnit.scope).Nodup := by
  have scopes : (cus.map CompiledUnit.root).map RootUnit.scope = cus.map CompiledUnit.scope := by
    rw [List.map_map]
    exact List.map_congr_left fun u _ => u.root_scope
  rw [(hs.roots_perm.map RootUnit.scope).nodup_iff, scopes]
  exact hs.unit_scopes_nodup

/-! ## Addresses -/

theorem port_mem (hs : Sealed s h supplied m cus outputs) {u : CompiledUnit} (mem : u ∈ cus) {c : Cell} (inside : c ∈ u.cells)
    {p : Port} (declared : p ∈ c.inst.definition.inputs ++ c.inst.definition.outputs) :
    c.inst.port p.name ∈ addresses s m :=
  List.mem_append_left _ (List.mem_flatMap.mpr
    ⟨c.inst, hs.mem_instances.mpr ⟨u, mem, c, inside, rfl⟩, List.mem_map_of_mem declared⟩)

theorem offered_mem (hs : Sealed s h supplied m cus outputs) {u : CompiledUnit} (mem : u ∈ cus) {a : PortAddress}
    (offered : a ∈ u.root.offered) : a ∈ addresses s m := by
  cases u with
  | atomic c =>
    obtain ⟨p, declared, rfl⟩ := List.mem_map.mp offered
    exact hs.port_mem mem List.mem_cons_self (List.mem_append_right _ declared)
  | loop l cells =>
    obtain ⟨e, exported, rfl⟩ := List.mem_map.mp offered
    refine List.mem_append_right _ (List.mem_append_left _ (List.mem_flatMap.mpr
      ⟨l, hs.mem_loops.mpr ⟨cells, mem⟩, List.mem_append_left _ (List.mem_map_of_mem exported)⟩))

theorem offered_kind (hs : Sealed s h supplied m cus outputs) {u : CompiledUnit} (mem : u ∈ cus) {a : PortAddress}
    (offered : a ∈ u.root.offered) : a.kind = .node := by
  cases u with
  | atomic c =>
    obtain ⟨p, -, rfl⟩ := List.mem_map.mp offered
    rfl
  | loop l cells =>
    obtain ⟨e, exported, rfl⟩ := List.mem_map.mp offered
    rw [((hs.loopTyped mem).exports e exported).1]
    rfl

theorem offered_unique (hs : Sealed s h supplied m cus outputs) {u w : CompiledUnit} (mem : u ∈ cus) (mem' : w ∈ cus)
    {a : PortAddress} (mine : a ∈ u.root.offered) (theirs : a ∈ w.root.offered) : u = w := by
  cases u with
  | atomic c =>
    obtain ⟨p, declared, rfl⟩ := List.mem_map.mp mine
    have inst := hs.mem_instances.mpr ⟨_, mem, c, List.mem_cons_self, rfl⟩
    cases w with
    | atomic d =>
      obtain ⟨q, declared', same⟩ := List.mem_map.mp theirs
      have inst' := hs.mem_instances.mpr ⟨_, mem', d, List.mem_cons_self, rfl⟩
      obtain ⟨here, -⟩ := hs.port_inj inst' inst same
      exact (hs.cell_eq_of_scope mem mem' List.mem_cons_self List.mem_cons_self (congrArg Instance.scope here).symm).1
    | loop l cells =>
      obtain ⟨e, exported, same⟩ := List.mem_map.mp theirs
      exact absurd same.symm (hs.export_ne_port (hs.mem_loops.mpr ⟨cells, mem'⟩) exported inst _)
  | loop l cells =>
    obtain ⟨e, exported, rfl⟩ := List.mem_map.mp mine
    have loop := hs.mem_loops.mpr ⟨cells, mem⟩
    cases w with
    | atomic d =>
      obtain ⟨q, declared, same⟩ := List.mem_map.mp theirs
      have inst' := hs.mem_instances.mpr ⟨_, mem', d, List.mem_cons_self, rfl⟩
      exact absurd same (hs.export_ne_port loop exported inst' _)
    | loop l' cells' =>
      obtain ⟨e', exported', same⟩ := List.mem_map.mp theirs
      obtain ⟨here, -⟩ := hs.export_inj loop (hs.mem_loops.mpr ⟨cells', mem'⟩) exported exported' same.symm
      have headed : l.scope ∈ (CompiledUnit.loop l' cells').scopes := by
        rw [here]
        exact List.mem_cons_self
      exact hs.unit_eq_of_scope mem mem' List.mem_cons_self headed

theorem offers_offered {u : CompiledUnit} {a : PortAddress} {q : Port} (offer : (a, q) ∈ u.offers) :
    a ∈ u.root.offered := by
  cases u with
  | atomic c =>
    obtain ⟨p, declared, same⟩ := offer
    obtain ⟨rfl, rfl⟩ := Prod.mk.inj same
    exact List.mem_map_of_mem (f := fun p : Port => c.inst.port p.name) declared
  | loop l cells =>
    obtain ⟨e, exported, same⟩ := offer
    obtain ⟨rfl, rfl⟩ := Prod.mk.inj same
    exact List.mem_map_of_mem exported

theorem keys_apart (hs : Sealed s h supplied m cus outputs) (keyed : KeysDistinct s m) {u w : CompiledUnit} (mem : u ∈ cus)
    (mem' : w ∈ cus) {k : String} (mine : k ∈ u.root.keys) (theirs : k ∈ w.root.keys) : u = w := by
  obtain ⟨a, offered, rfl⟩ := List.mem_map.mp mine
  obtain ⟨b, offered', same⟩ := List.mem_map.mp theirs
  obtain rfl := keyed b (hs.offered_mem mem' offered') a (hs.offered_mem mem offered) same
  exact hs.offered_unique mem mem' offered offered'

theorem index_of_offered (hs : Sealed s h supplied m cus outputs) (keyed : KeysDistinct s m) {u : CompiledUnit} (mem : u ∈ cus)
    {a : PortAddress} (offered : a ∈ u.root.offered) :
    (unitProducerIndex (rootUnits m (s.instances m))).get? (addressKey a) = some u.root := by
  have listed : ((unitProducerIndex (rootUnits m (s.instances m))).get? (addressKey a)).isSome := by
    refine Dict.isSome_ofList.mpr (List.mem_map.mpr ⟨(addressKey a, u.root), ?_, rfl⟩)
    exact List.mem_flatMap.mpr ⟨u.root, hs.mem_rootUnits.mpr ⟨u, mem, rfl⟩, List.mem_map.mpr ⟨a, offered, rfl⟩⟩
  obtain ⟨w, found⟩ := Option.isSome_iff_exists.mp listed
  obtain ⟨inside, key⟩ := unitProducerIndex_spec found
  obtain ⟨cw, mem', rfl⟩ := hs.mem_rootUnits.mp inside
  rw [found, hs.keys_apart keyed mem' mem key (List.mem_map_of_mem offered)]

theorem byScope_cell (hs : Sealed s h supplied m cus outputs) {u : CompiledUnit} (mem : u ∈ cus) {c : Cell}
    (inside : c ∈ u.cells) : (instancesByScope (s.instances m)).get? c.inst.scope = some c.inst := by
  have listed : ((instancesByScope (s.instances m)).get? c.inst.scope).isSome := by
    refine Dict.isSome_ofList.mpr (List.mem_map.mpr ⟨(c.inst.scope, c.inst), ?_, rfl⟩)
    exact List.mem_map.mpr ⟨c.inst, hs.mem_instances.mpr ⟨u, mem, c, inside, rfl⟩, rfl⟩
  obtain ⟨i, found⟩ := Option.isSome_iff_exists.mp listed
  obtain ⟨j, instance_, same⟩ := List.mem_map.mp (Dict.mem_of_get?_ofList found)
  obtain ⟨scopes, rfl⟩ := Prod.mk.inj same
  obtain ⟨w, mem', d, inside', rfl⟩ := hs.mem_instances.mp instance_
  rw [found, (hs.cell_eq_of_scope mem' mem inside' inside scopes).2]

/-! ## Bindings -/

theorem cell_binding (hs : Sealed s h supplied m cus outputs) (keyed : KeysDistinct s m) {u : CompiledUnit} (mem : u ∈ cus)
    {c : Cell} (inside : c ∈ u.cells) {p : Port} (declared : p ∈ c.inst.definition.inputs) {b : ResolvedPortBinding}
    (bound : (bindingsByKey m).get? (addressKey (c.inst.port p.name)) = some b) : (p.name, b.sources) ∈ c.bound := by
  obtain ⟨b', connected, same⟩ := List.mem_map.mp (Dict.mem_of_get?_ofList bound)
  obtain ⟨key, rfl⟩ := Prod.mk.inj same
  have here := hs.port_mem mem inside (List.mem_append_left _ declared)
  rw [hs.connections, List.mem_append] at connected
  rcases connected with connected | connected
  · obtain ⟨w, mem', connected⟩ := List.mem_flatMap.mp connected
    obtain ⟨d, inside', connected⟩ := List.mem_flatMap.mp connected
    obtain ⟨⟨name, sources⟩, entry, rfl⟩ := List.mem_map.mp connected
    have typed : ∃ q ∈ d.inst.definition.inputs, q.name = name := by
      cases w with
      | atomic d' =>
        obtain rfl := List.mem_singleton.mp inside'
        exact (hs.typed_of_mem mem' : d.Typed _).declared _ entry
      | loop l cells => exact ((hs.loopTyped mem').body.of_mem Cell.typed_mono inside').declared _ entry
    obtain ⟨q, declared', rfl⟩ := typed
    have same := keyed _ (hs.port_mem mem' inside' (List.mem_append_left _ declared')) _ here key
    obtain ⟨inst, names⟩ := hs.port_inj (hs.mem_instances.mpr ⟨w, mem', d, inside', rfl⟩)
      (hs.mem_instances.mpr ⟨u, mem, c, inside, rfl⟩) same
    obtain ⟨-, rfl⟩ := hs.cell_eq_of_scope mem' mem inside' inside (congrArg Instance.scope inst)
    rw [← names]
    exact entry
  · obtain ⟨entry, -, rfl⟩ := List.mem_map.mp connected
    cases kind_of_addressKey key

theorem cell_bound (hs : Sealed s h supplied m cus outputs) {u : CompiledUnit} (mem : u ∈ cus) {c : Cell}
    (inside : c ∈ u.cells) {name : String} {sources : List PortAddress} (entry : (name, sources) ∈ c.bound) :
    (bindingsByKey m).get? (addressKey (c.inst.port name)) ≠ none := by
  rw [← Option.isSome_iff_ne_none, bindingsByKey, Dict.isSome_ofList, List.mem_map]
  refine ⟨_, List.mem_map.mpr ⟨⟨c.inst.port name, sources⟩, ?_, rfl⟩, rfl⟩
  rw [hs.connections]
  exact List.mem_append_left _ (List.mem_flatMap.mpr ⟨u, mem, List.mem_flatMap.mpr
    ⟨c, inside, List.mem_map.mpr ⟨_, entry, rfl⟩⟩⟩)

/-- What is bound at an output of the graph. -/
theorem output_binding (hs : Sealed s h supplied m cus outputs) (keyed : KeysDistinct s m) {q : Port}
    (declared : q ∈ m.sourceGraph.outputs) {b : ResolvedPortBinding}
    (bound : (bindingsByKey m).get? (addressKey (.graphOutput [m.sourceGraph.name] q.name)) = some b) :
    (q.name, b.sources) ∈ outputs := by
  obtain ⟨b', connected, same⟩ := List.mem_map.mp (Dict.mem_of_get?_ofList bound)
  obtain ⟨key, rfl⟩ := Prod.mk.inj same
  have address {q : Port} (declared : q ∈ m.sourceGraph.outputs) :
      PortAddress.graphOutput [m.sourceGraph.name] q.name ∈ addresses s m :=
    List.mem_append_right _ (List.mem_append_right _ (List.mem_append_right _
      (List.mem_map_of_mem (f := fun q : Port => PortAddress.graphOutput [m.sourceGraph.name] q.name) declared)))
  rw [hs.connections, List.mem_append] at connected
  rcases connected with connected | connected
  · obtain ⟨w, mem', connected⟩ := List.mem_flatMap.mp connected
    obtain ⟨d, inside', connected⟩ := List.mem_flatMap.mp connected
    obtain ⟨entry, -, rfl⟩ := List.mem_map.mp connected
    cases kind_of_addressKey key
  · obtain ⟨⟨name, sources⟩, entry, rfl⟩ := List.mem_map.mp connected
    obtain ⟨q', declared', rfl⟩ := hs.bound.declared _ entry
    have same := keyed _ (address declared') _ (address declared) key
    rw [← (PortAddress.graphOutput.inj same).2]
    exact entry

theorem shaped_cell (hs : Sealed s h supplied m cus outputs) (keyed : KeysDistinct s m) {u : CompiledUnit} (mem : u ∈ cus)
    {c : Cell} (inside : c ∈ u.cells) {env : Set Offer} (typed : c.Typed env) : Walker.Shaped (bindingsByKey m) c.inst where
  fits := fun p declared b bound => (typed.sourced p declared b.sources (hs.cell_binding keyed mem inside declared bound)).fits
  unbound := by
    intro p declared missing
    by_contra needed
    obtain ⟨sources, entry⟩ := typed.required p declared needed
    exact hs.cell_bound mem inside entry missing

theorem cell_sources (hs : Sealed s h supplied m cus outputs) (keyed : KeysDistinct s m) {u : CompiledUnit} (mem : u ∈ cus)
    {c : Cell} (inside : c ∈ u.cells) {env : Set Offer} (typed : c.Typed env) {b : ResolvedPortBinding}
    (bound : b ∈ Walker.inputBindings (bindingsByKey m) c.inst) {a : PortAddress} (source : a ∈ b.sources) : ∃ q, (a, q) ∈ env := by
  obtain ⟨p, declared, found⟩ := mem_inputBindings.mp bound
  obtain ⟨q, offer, -⟩ := (typed.sourced p declared b.sources (hs.cell_binding keyed mem inside declared found)).typed a source
  exact ⟨q, offer⟩

theorem unit_sources (hs : Sealed s h supplied m cus outputs) (keyed : KeysDistinct s m) {pre post : List CompiledUnit}
    {u : CompiledUnit} (split : cus = pre ++ u :: post) {b : ResolvedPortBinding}
    (bound : b ∈ unitInputBindings (bindingsByKey m) u.root) {a : PortAddress} (source : a ∈ b.sources) :
    (∃ p ∈ m.sourceGraph.inputs, supplied p.name ∧ a = .graphInput [m.sourceGraph.name] p.name) ∨
      ∃ w ∈ pre, a ∈ w.root.offered := by
  have mem : u ∈ cus := split ▸ List.mem_append_right _ List.mem_cons_self
  have typed := hs.typed.at split
  have offer : ∃ q, (a, q) ∈ rootOffers m.sourceGraph supplied ∪ Threaded.offered CompiledUnit.offers pre := by
    cases u with
    | atomic c => exact hs.cell_sources keyed mem List.mem_cons_self typed bound source
    | loop l cells =>
      obtain ⟨entries, initial, ports⟩ := LoopTyped.initial typed
      have bound' : b ∈ l.initialBindings := bound
      rw [initial] at bound'
      obtain ⟨⟨name, sources⟩, entry, rfl⟩ := List.mem_map.mp bound'
      obtain ⟨p, declared, rfl⟩ := ports.declared _ entry
      obtain ⟨q, offer, -⟩ := (ports.sourced p declared sources entry).typed a source
      exact ⟨q, offer⟩
  obtain ⟨q, offer⟩ := offer
  rcases offer with ⟨p, declared, given, same⟩ | ⟨w, early, offer⟩
  · exact .inl ⟨p, declared, given, (Prod.mk.inj same).1⟩
  · exact .inr ⟨w, early, offers_offered offer⟩

/-! ## The order -/

theorem dependsOn_before (hs : Sealed s h supplied m cus outputs) (keyed : KeysDistinct s m) {u w : RootUnit}
    (depends : DependsOn (rootUnits m (s.instances m)) (bindingsByKey m) u w) :
    (cus.map CompiledUnit.scope).idxOf w.scope < (cus.map CompiledUnit.scope).idxOf u.scope := by
  obtain ⟨inside, b, bound, a, source, indexed⟩ := depends
  obtain ⟨cu, mem, rfl⟩ := hs.mem_rootUnits.mp inside
  obtain ⟨pre, post, split⟩ := List.append_of_mem mem
  have early : ∃ cw ∈ pre, cw.root = w := by
    obtain ⟨inside', key⟩ := unitProducerIndex_spec indexed
    obtain ⟨cw, mem', rfl⟩ := hs.mem_rootUnits.mp inside'
    obtain ⟨a', offered, same⟩ := List.mem_map.mp key
    rcases hs.unit_sources keyed split bound source with ⟨p, -, -, rfl⟩ | ⟨cw', early, offered'⟩
    · cases (hs.offered_kind mem' offered).symm.trans (kind_of_addressKey same)
    · have mem'' : cw' ∈ cus := split ▸ List.mem_append_left _ early
      obtain rfl := keyed _ (hs.offered_mem mem' offered) _ (hs.offered_mem mem'' offered') same
      obtain rfl := hs.offered_unique mem' mem'' offered offered'
      exact ⟨cw, early, rfl⟩
  obtain ⟨cw, early, rfl⟩ := early
  have distinct := hs.unit_scopes_nodup
  rw [CompiledUnit.root_scope, CompiledUnit.root_scope, split, List.map_append, List.map_cons]
  rw [split, List.map_append, List.map_cons] at distinct
  have here : cw.scope ∈ pre.map CompiledUnit.scope := List.mem_map_of_mem early
  have late : cu.scope ∉ pre.map CompiledUnit.scope := fun inside =>
    (List.nodup_append.mp distinct).2.2 _ inside _ List.mem_cons_self rfl
  rw [List.idxOf_append_of_mem here, List.idxOf_append_of_notMem late]
  have := List.idxOf_lt_length_of_mem here
  omega

/-- The units of an admitted manifest can be ordered. -/
theorem listed (hs : Sealed s h supplied m cus outputs) (keyed : KeysDistinct s m) :
    ∃ ordered, orderedUnits (rootUnits m (s.instances m)) (bindingsByKey m)
      (unitProducerIndex (rootUnits m (s.instances m))) = .ok ordered := by
  refine (orderedUnits_ok hs.rootUnits_nodup).mpr fun u _ cycle => ?_
  have lower : ∀ {u w : RootUnit}, Relation.TransGen (DependsOn (rootUnits m (s.instances m)) (bindingsByKey m)) u w →
      (cus.map CompiledUnit.scope).idxOf w.scope < (cus.map CompiledUnit.scope).idxOf u.scope := by
    intro u w chain
    induction chain with
    | single depends => exact hs.dependsOn_before keyed depends
    | tail _ depends ih => exact (hs.dependsOn_before keyed depends).trans ih
  exact (lower cycle).false

/-! ## Loops -/

section Boundary

variable {l : LoopResolution}

theorem get?_boundaryBindings {bound : List ResolvedPortBinding} {name : String} {b : ResolvedPortBinding}
    (found : (boundaryBindings bound).get? name = some b) : b ∈ bound ∧ ∃ scope, b.destination = .graphInput scope name := by
  obtain ⟨b', mem, entry⟩ := List.mem_filterMap.mp (Dict.mem_of_get?_ofList found)
  cases destination : b'.destination with
  | graphInput scope port =>
    rw [destination] at entry
    cases entry
    exact ⟨mem, scope, destination⟩
  | nodePort scope node port =>
    rw [destination] at entry
    cases entry
  | graphOutput scope port =>
    rw [destination] at entry
    cases entry

theorem boundaryBindings_some {bound : List ResolvedPortBinding} {scope : ScopePath} {name : String} {b : ResolvedPortBinding}
    (mem : b ∈ bound) (destination : b.destination = .graphInput scope name) :
    ∃ b', (boundaryBindings bound).get? name = some b' := by
  refine Option.isSome_iff_exists.mp (Dict.isSome_ofList.mpr (List.mem_map.mpr ⟨(name, b), ?_, rfl⟩))
  refine List.mem_filterMap.mpr ⟨b, mem, ?_⟩
  rw [destination]

end Boundary

theorem loopWired (hs : Sealed s h supplied m cus outputs) (keyed : KeysDistinct s m) {l : LoopResolution}
    {cells : List Cell} (mem : .loop l cells ∈ cus) {p : Shared} (bindings : p.bindings = bindingsByKey m)
    (byScope : p.byScope = instancesByScope (s.instances m)) : LoopWired p l (cells.map Cell.inst) := by
  have typed := hs.loopTyped mem
  obtain ⟨entries, initial, ports⟩ := typed.initial
  -- the initial binding of a port, by its name
  have first {name : String} {b : ResolvedPortBinding} (found : (boundaryBindings l.initialBindings).get? name = some b) :
      b.destination = .graphInput l.bodyScope name ∧ (name, b.sources) ∈ entries ∧ b ∈ l.initialBindings := by
    obtain ⟨inside, scope, destination⟩ := get?_boundaryBindings found
    have listed := inside
    rw [initial] at listed
    obtain ⟨⟨name', sources⟩, entry, rfl⟩ := List.mem_map.mp listed
    obtain ⟨rfl, rfl⟩ := PortAddress.graphInput.inj destination
    exact ⟨rfl, entry, inside⟩
  have fed {q : Port} (port : q ∈ l.inputPorts) {b : ResolvedPortBinding}
      (found : (boundaryBindings l.feedbackBindings).get? q.name = some b) :
      b.destination = .graphInput l.bodyScope q.name ∧ Sourced (l.inner cells) q b.sources := by
    obtain ⟨inside, scope, destination⟩ := get?_boundaryBindings found
    obtain ⟨q', port', destination', -, sourced⟩ := typed.feedback b inside
    obtain ⟨-, names⟩ := PortAddress.graphInput.inj (destination.symm.trans destination')
    obtain rfl := List.inj_on_of_nodup_map typed.inputs_nodup port port' names
    exact ⟨destination', sourced⟩
  have inner {a : PortAddress} {q : Port} (offer : (a, q) ∈ l.inner cells) :
      addressKey a ∈ innerKeys l (cells.map Cell.inst) := by
    rcases offer with ⟨q', -, same, b, inside, destination⟩ | ⟨c, inside, q', declared, same⟩
    · obtain ⟨rfl, -⟩ := Prod.mk.inj same
      exact List.mem_append_left _ (List.mem_map.mpr ⟨b, inside, by rw [destination]⟩)
    · obtain ⟨rfl, -⟩ := Prod.mk.inj same
      refine List.mem_append_right _ (List.mem_flatMap.mpr ⟨c.inst, List.mem_map_of_mem inside, ?_⟩)
      exact List.mem_map_of_mem (f := fun q : Port => addressKey (c.inst.port q.name)) declared
  have at_ {pre : List Instance} {i : Instance} {post : List Instance} (split : cells.map Cell.inst = pre ++ i :: post) :
      ∃ cpre c cpost, cells = cpre ++ c :: cpost ∧ cpre.map Cell.inst = pre ∧ c.inst = i := by
    obtain ⟨cpre, rest, rfl, rfl, behind⟩ := List.map_eq_append_iff.mp split
    obtain ⟨c, cpost, rfl, rfl, -⟩ := List.map_eq_cons_iff.mp behind
    exact ⟨cpre, c, cpost, rfl, rfl, rfl⟩
  have offers {cpre cpost : List Cell} {c : Cell} (split : cells = cpre ++ c :: cpost) {b : ResolvedPortBinding}
      (bound : b ∈ Walker.inputBindings p.bindings c.inst) {a : PortAddress} (source : a ∈ b.sources) :
      (∃ q ∈ l.inputPorts, a = .graphInput l.bodyScope q.name ∧ ∃ b ∈ l.initialBindings, b.destination = a) ∨
        ∃ d ∈ cpre, ∃ q ∈ d.inst.definition.outputs, a = d.inst.port q.name := by
    have inside : c ∈ cells := split ▸ List.mem_append_right _ List.mem_cons_self
    rw [bindings] at bound
    obtain ⟨q, offer⟩ := hs.cell_sources keyed mem inside (typed.body.at split) bound source
    rcases offer with ⟨q', port, same, b, initial, destination⟩ | ⟨d, early, q', declared, same⟩
    · obtain ⟨rfl, -⟩ := Prod.mk.inj same
      exact .inl ⟨q', port, rfl, b, initial, destination⟩
    · obtain ⟨rfl, -⟩ := Prod.mk.inj same
      exact .inr ⟨d, early, q', declared, rfl⟩
  refine ⟨⟨?_, ?_⟩, ?_, ?_, ?_, ?_, ?_, ?_, ?_, ?_, ?_, ?_⟩
  · rw [typed.members, List.map_map]
    rfl
  · intro i found
    obtain ⟨c, inside, rfl⟩ := List.mem_map.mp found
    rw [byScope]
    exact hs.byScope_cell mem inside
  · rw [typed.members]
    exact (List.nodup_cons.mp (hs.scopes_nodup mem)).2
  · simpa using typed.members_ne
  · -- a port bound at first is seeded in every iteration
    intro index b inside
    have listed := inside
    rw [initial] at listed
    obtain ⟨⟨name, sources⟩, entry, rfl⟩ := List.mem_map.mp listed
    obtain ⟨q, port, rfl⟩ := ports.declared _ entry
    refine ⟨q, port, ?_⟩
    unfold seedBinding
    dsimp only
    split_ifs with feeds
    · obtain ⟨b', found⟩ := Option.isSome_iff_exists.mp feeds.2
      exact ⟨true, b', by rw [found], by rw [(fed port found).1]⟩
    · obtain ⟨b', found⟩ := boundaryBindings_some inside rfl
      exact ⟨false, b', by rw [found], by rw [(first found).1]⟩
  · intro b inside
    have listed := inside
    rw [initial] at listed
    obtain ⟨⟨name, sources⟩, entry, rfl⟩ := List.mem_map.mp listed
    obtain ⟨q, port, rfl⟩ := ports.declared _ entry
    refine ⟨q, port, ?_⟩
    obtain ⟨b', found⟩ := boundaryBindings_some inside rfl
    have same : b' = ⟨.graphInput l.bodyScope q.name, sources⟩ := by
      obtain ⟨destination, entry', -⟩ := first found
      have one := List.inj_on_of_nodup_map ports.nodup entry' entry rfl
      cases b' with
      | mk destination' sources' =>
        cases destination
        obtain rfl : sources' = sources := (Prod.mk.inj one).2
        rfl
    unfold seedBinding
    dsimp only
    rw [if_neg (fun feeds => absurd feeds.1 (lt_irrefl 0)), found, same]
  · intro index q port again b bound
    unfold seedBinding at bound
    dsimp only at bound
    split_ifs at bound with feeds
    · obtain ⟨rfl, found⟩ := Prod.mk.inj bound
      obtain ⟨-, sourced⟩ := fed port found
      refine ⟨sourced.fits, fun a source => ?_⟩
      obtain ⟨q', offer, -⟩ := sourced.typed a source
      exact inner offer
    · obtain ⟨rfl, found⟩ := Prod.mk.inj bound
      obtain ⟨-, entry, inside⟩ := first found
      exact ⟨(ports.sourced q port _ entry).fits, inside⟩
  · intro i found
    obtain ⟨c, inside, rfl⟩ := List.mem_map.mp found
    rw [bindings]
    exact hs.shaped_cell keyed mem inside (typed.body.of_mem Cell.typed_mono inside)
  · intro pre i post split b bound a source
    obtain ⟨cpre, c, cpost, cut, rfl, rfl⟩ := at_ split
    rcases offers cut bound source with ⟨q, -, rfl, b', initial, destination⟩ | ⟨d, early, q, declared, rfl⟩
    · exact List.mem_append_left _ (List.mem_map.mpr ⟨b', initial, by rw [destination]⟩)
    · refine List.mem_append_right _ (List.mem_flatMap.mpr ⟨d.inst, List.mem_map_of_mem early, ?_⟩)
      exact List.mem_map_of_mem (f := fun q : Port => addressKey (d.inst.port q.name)) declared
  · intro pre i post split b bound a source w indexed
    obtain ⟨cpre, c, cpost, cut, rfl, rfl⟩ := at_ split
    obtain ⟨i', found, entry⟩ := List.mem_flatMap.mp (Dict.mem_of_get?_ofList indexed)
    obtain ⟨q, declared, same⟩ := List.mem_map.mp entry
    obtain ⟨key, rfl⟩ := Prod.mk.inj same
    obtain ⟨d, inside, rfl⟩ := List.mem_map.mp found
    rcases offers cut bound source with ⟨q', -, rfl, -⟩ | ⟨d', early, q', declared', rfl⟩
    · cases kind_of_addressKey key
    · have inside' : d' ∈ cells := cut ▸ List.mem_append_left _ early
      have one := keyed _ (hs.port_mem mem inside (List.mem_append_right _ declared)) _
        (hs.port_mem mem inside' (List.mem_append_right _ declared')) key
      obtain ⟨here, -⟩ := hs.port_inj (hs.mem_instances.mpr ⟨_, mem, d, inside, rfl⟩)
        (hs.mem_instances.mpr ⟨_, mem, d', inside', rfl⟩) one
      rw [here]
      exact List.mem_map_of_mem early
  · obtain ⟨q, offer, -⟩ := typed.continuation
    exact inner offer
  · intro e exported
    have sourced := (typed.exports e exported).2
    refine ⟨sourced.fits, fun a source => ?_⟩
    obtain ⟨q, offer, -⟩ := sourced.typed a source
    exact inner offer

end Sealed

end Constructicon
