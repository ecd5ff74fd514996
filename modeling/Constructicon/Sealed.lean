import Constructicon.ClosedLoop
import Constructicon.CanonicalForm

/-!
# Every admitted manifest seals a typed program

The recursion is closed here: references and inline graphs join loops, the
invariant holds at every depth, and `admit` returns only manifests that are the
flattening of a typed program over the graph's supplied inputs (`Sealed`).
-/

namespace Constructicon

variable {δ : Type}

/-! ## The re-proved boundary of a composite -/

theorem ports_of_sameBoundary {left right : List Port} (h : sameBoundary left right = true) :
    ∀ p ∈ left, ∃ q ∈ right, q.name = p.name ∧ q.contract = p.contract ∧
      q.cardinality = p.cardinality := by
  intro p hp
  have hm : normPort p ∈ right.map normPort :=
    norm_of_sameBoundary h ▸ List.mem_map.mpr ⟨p, hp, rfl⟩
  obtain ⟨q, hq, he⟩ := List.mem_map.mp hm
  obtain ⟨hn, ht, hs, hc⟩ := Port.bare_eq_iff.mp (bare_of_norm he)
  exact ⟨q, hq, hn, by simp [Port.contract, hs, ht], hc⟩

theorem Answers.of_sameBoundary {env : Set Offer} {declared exported : List Port} {outputs : Sources}
    (h : Answers env exported outputs) (hb : sameBoundary declared exported = true) :
    Answers env declared outputs := by
  intro p hp sources hm
  obtain ⟨q, hq, hn, hc, hcard⟩ := ports_of_sameBoundary hb p hp
  have hchosen := h q hq sources (hn ▸ hm)
  exact ⟨hchosen.nonempty, hcard ▸ hchosen.many, hchosen.visible, hc ▸ hchosen.contract⟩

theorem sameBoundary_of_boundaryLie {h : Hashing δ} {stored : StoredVersion} {scope : ScopePath}
    {g : Graph} (hbody : stored.definition.body = .graph g)
    (hl : boundaryLie h stored scope = none) :
    sameBoundary stored.definition.outputs g.outputs = true := by
  simp only [boundaryLie, hbody] at hl
  split_ifs at hl with hc
  simp only [not_not] at hc
  exact hc.2.2

/-! ## References and inline graphs -/

theorem retag_sound {env : Set Offer} {inputs : List Port} {bound : Sources}
    (h : BoundPorts env inputs (addressed bound)) (hs : ∀ s ∈ allSources bound, s.Sound env) :
    ∀ s ∈ allSources (retag inputs bound), s.Sound env := by
  intro s hm
  obtain ⟨name, ss, he, hm⟩ := mem_allSources.mp hm
  obtain ⟨⟨name', sources⟩, he', hq⟩ := List.mem_map.mp he
  obtain ⟨rfl, rfl⟩ := Prod.mk.inj hq
  obtain ⟨t, ht, rfl⟩ := List.mem_map.mp hm
  cases hp : (portsByName inputs).get? name' with
  | none => exact hs t (mem_allSources.mpr ⟨name', sources, he', ht⟩)
  | some p =>
    obtain ⟨hpm, rfl⟩ := get?_portsByName hp
    have hsourced := h.sourced p hpm _ (List.mem_map.mpr ⟨_, he', rfl⟩)
    exact hsourced.typed t.address (List.mem_map.mpr ⟨t, ht, rfl⟩)

theorem tracks_composite {w : World δ} {stored : StoredVersion} {g : Graph}
    (hbody : stored.definition.body = .graph g)
    (hget : w.snapshot.get stored.definition.name stored.contentHash = some stored)
    {r : ComponentResolution δ} (hname : r.component = stored.definition.name)
    (hversion : r.resolvedVersion = stored.contentHash) :
    Tracks w.snapshot [.resolution r] [] := by
  refine ⟨?_, rfl, rfl, rfl⟩
  have hinst : w.snapshot.instanceOf r = none := by
    simp [RegistrySnapshot.instanceOf, hname, hversion, hget, hbody]
  have hres : resolutionsOf [Emitted.resolution r] = [r] := rfl
  rw [hres, List.filterMap_cons_none hinst]
  rfl

theorem compileStored_clean {w : World δ} {rec : Seat → Compile δ Sources} (hrec : NodeSound w rec)
    (hports : w.snapshot.DistinctPorts) {a : Seat} {ref : Ref} {stored : StoredVersion}
    (hget : w.snapshot.get stored.definition.name stored.contentHash = some stored)
    {env : Set Offer} (hv : ∀ s, a.Sees s → s.Sound env) {log : List (Emitted δ)} {o : Sources}
    (h : Clean (compileStored w rec a ref stored) log o) :
    ∃ units, Compiled w env a.scope a.loopDepth log units ∧
      (∀ s ∈ allSources o, s.Sound (after env units)) ∧
      Answers (after env units) stored.definition.outputs o := by
  obtain ⟨hni, hno⟩ := hports _ _ _ hget
  obtain ⟨_, grants, _, hg, h₁, rfl⟩ := clean_bind.mp h
  obtain rfl := compileGrants_clean hg
  obtain ⟨_, _, _, hr, h₂, rfl⟩ := clean_bind.mp h₁
  obtain ⟨rfl, -⟩ := clean_tell.mp hr
  obtain ⟨_, bound, tail, hb, h₃, rfl⟩ := clean_bind.mp h₂
  obtain ⟨rfl, hbound, hsound⟩ := bindNodeInputs_clean hb hni hv
  cases hbody : stored.definition.body with
  | python p =>
    simp only [hbody] at h₃
    have ho := (registerAtomic_clean h₃).2.2.2.2
    obtain ⟨hanswers, hout⟩ := atomicOutputs_answers a env bound hno
    subst ho
    exact ⟨_, atomic_compiled hbody hget hbound rfl rfl rfl h₃, hout, hanswers⟩
  | graph g =>
    simp only [hbody] at h₃
    rw [compileComposite] at h₃
    split at h₃
    next => exact absurd h₃ clean_fault_bind
    next hlie =>
      obtain ⟨units, hu, hn, hbound', htag⟩ :=
        compileGraphWith_clean hrec h₃ (retag_sound hbound hsound)
      refine ⟨units, hu.prepend (tracks_composite hbody hget rfl rfl), hbound'.sound hn htag, ?_⟩
      exact (hbound'.answers hn htag).of_sameBoundary (sameBoundary_of_boundaryLie hbody hlie)

theorem compileInline_clean {w : World δ} {rec : Seat → Compile δ Sources} (hrec : NodeSound w rec)
    {a : Seat} {g : Graph} {env : Set Offer} (hv : ∀ s, a.Sees s → s.Sound env)
    {log : List (Emitted δ)} {o : Sources} (h : Clean (compileInline rec a g) log o) :
    ∃ units, Compiled w env a.scope a.loopDepth log units ∧
      ∀ s ∈ allSources o, s.Sound (after env units) := by
  obtain ⟨_, bound, tail, hb, hg, rfl⟩ := clean_bind.mp h
  -- the level itself refuses repeated input names, after they were bound
  have hni : (g.inputs.map Port.name).Nodup := inputs_nodup_of_clean hg
  obtain ⟨rfl, hbound, hsound⟩ := bindNodeInputs_clean hb hni hv
  obtain ⟨units, hu, hn, hbound', htag⟩ := compileGraphWith_clean hrec hg hsound
  exact ⟨units, hu, hbound'.sound hn htag⟩

/-! ## Every depth -/

theorem compileNodeWith_sound {w : World δ} {rec : Seat → Compile δ Sources}
    (hports : w.snapshot.DistinctPorts) (hrec : NodeSound w rec) :
    NodeSound w (compileNodeWith w rec) := by
  intro a env log o hv h
  rw [compileNodeWith] at h
  cases hbody : a.node.body with
  | loop loop =>
    simp only [hbody] at h
    split_ifs at h with hd
    · exact absurd h clean_fault_bind
    · obtain ⟨units, hu, ho⟩ := compileLoop_clean hrec hv (not_not.mp hd) h
      exact ⟨units, hu, ho, by simp [hbody]⟩
  | ref ref =>
    simp only [hbody] at h
    obtain ⟨l₁, resolved, l₂, hr, htail, rfl⟩ := clean_bind.mp h
    obtain ⟨hs, stored, rfl, hsel⟩ := resolveRef_clean hr
    obtain ⟨units, hu, ho, hanswers⟩ :=
      compileStored_clean hrec hports (get_of_selectVersion hsel) hv htail
    refine ⟨units, hu.prepend hs.tracks, ho, ?_⟩
    intro ref' href stored' hsel'
    obtain rfl : ref = ref' := Body.ref.inj (hbody.symm.trans href)
    obtain rfl : stored = stored' := Option.some.inj (hsel.symm.trans hsel')
    exact hanswers
  | graph g =>
    simp only [hbody] at h
    obtain ⟨units, hu, ho⟩ := compileInline_clean hrec hv h
    exact ⟨units, hu, ho, by simp [hbody]⟩

theorem compileNode_sound {w : World δ} (hports : w.snapshot.DistinctPorts) (depth : ℕ) :
    NodeSound w (compileNode w depth) := by
  induction depth with
  | zero => exact fun _ h => absurd h not_clean_raise
  | succ depth ih => exact compileNodeWith_sound hports ih

/-! ## Admitted manifests -/

/-- The offers of the graph's own inputs, of those that are supplied. -/
def rootOffers (g : Graph) (supplied : String → Prop) : Set Offer :=
  {o | ∃ p ∈ g.inputs, supplied p.name ∧ o = (.graphInput [g.name] p.name, p)}

/-- A manifest is the flattening of a typed program and of the graph's output bindings. -/
structure Sealed (s : RegistrySnapshot) (h : Hashing δ) (supplied : String → Prop)
    (m : ExecutionManifest δ) (units : List CompiledUnit) (outputs : Bound) : Prop where
  instances : s.instances m = units.flatMap (fun u => u.cells.map Cell.inst)
  connections : m.resolvedConnections = units.flatMap (fun u => u.cells.flatMap Cell.bindings) ++
    outputs.map (fun b => ⟨.graphOutput [m.sourceGraph.name] b.1, b.2⟩)
  loops : m.resolvedLoops = units.filterMap CompiledUnit.loop?
  typed : Threaded (CompiledUnit.Typed h) CompiledUnit.offers (rootOffers m.sourceGraph supplied) units
  bound : BoundPorts (after (rootOffers m.sourceGraph supplied) units) m.sourceGraph.outputs outputs
  within : ∀ u ∈ units, ∀ scope ∈ u.scopes, [m.sourceGraph.name] <+: scope
  distinct : (units.flatMap CompiledUnit.scopes).Nodup
  inputs_nodup : (m.sourceGraph.inputs.map Port.name).Nodup
  outputs_nodup : (m.sourceGraph.outputs.map Port.name).Nodup

theorem clean_of_admit {adm : Admission δ} {depth : ℕ} {g : Graph} {m : ExecutionManifest δ}
    (h : admitGraph adm depth g = .ok m) :
    ∃ log, Clean (admitCompile adm depth g) log () ∧ m = sealManifest adm g log := by
  rw [admitGraph] at h
  cases hr : (admitCompile adm depth g).result with
  | error e => cases e <;> simp [hr] at h
  | ok u =>
    simp only [hr] at h
    split_ifs at h with hf
    cases h
    refine ⟨_, ⟨?_, hf⟩, rfl⟩
    cases hc : admitCompile adm depth g with
    | mk log result =>
      obtain rfl : result = .ok u := by rw [hc] at hr; exact hr
      rfl

theorem admit_of_clean {adm : Admission δ} {depth : ℕ} {g : Graph} {log : List (Emitted δ)} {u : Unit}
    (h : Clean (admitCompile adm depth g) log u) :
    admitGraph adm depth g = .ok (sealManifest adm g log) := by
  obtain ⟨hr, hf⟩ := h
  rw [Emit.Returns] at hr
  simp [admitGraph, hr, hf]

section Fields

variable (adm : Admission δ) (g : Graph) (log : List (Emitted δ))

@[simp] theorem sealManifest_sourceGraph : (sealManifest adm g log).sourceGraph = g := rfl

@[simp] theorem sealManifest_resolvedComponents :
    (sealManifest adm g log).resolvedComponents = resolutionsOf log := rfl

@[simp] theorem sealManifest_resolvedConnections :
    (sealManifest adm g log).resolvedConnections = bindingsOf log := rfl

@[simp] theorem sealManifest_resolvedLoops :
    (sealManifest adm g log).resolvedLoops = loopsOf log := rfl

end Fields

theorem rootLevel_sound (adm : Admission δ) (g : Graph) :
    ∀ s ∈ allSources (rootLevel adm g).inputSources,
      s.Sound (rootOffers g (fun n => adm.inputs.contains n)) := by
  intro s hs
  obtain ⟨name, ss, hm, hs⟩ := mem_allSources.mp hs
  obtain ⟨p, hp, he⟩ := List.mem_map.mp (Dict.mem_ofList hm)
  obtain ⟨rfl, rfl⟩ := Prod.mk.inj he
  rw [List.mem_singleton] at hs
  subst hs
  obtain ⟨hmem, hsup⟩ := List.mem_filter.mp hp
  exact ⟨p, ⟨p, hmem, by simpa using hsup, rfl⟩, rfl⟩

/-- The bindings of the declared outputs, by name. -/
def outputBound (g : Graph) (outputs : Sources) : Bound :=
  g.outputs.filterMap (fun port =>
    match outputs.getD port.name [] with
    | [] => none
    | sources => some (port.name, sources.map Source.address))

theorem outputBindings_eq (g : Graph) (outputs : Sources) :
    outputBindings g outputs =
      (outputBound g outputs).map (fun b => ⟨.graphOutput [g.name] b.1, b.2⟩) := by
  rw [outputBindings, outputBound, List.map_filterMap]
  congr 1
  funext port
  cases outputs.getD port.name [] <;> rfl

theorem mem_outputBound {g : Graph} {outputs : Sources} {b : String × List PortAddress} :
    b ∈ outputBound g outputs ↔ ∃ p ∈ g.outputs, ∃ sources, sources ≠ [] ∧
      outputs.get? p.name = some sources ∧ b = (p.name, sources.map Source.address) := by
  rw [outputBound, List.mem_filterMap]
  refine exists_congr fun p => and_congr_right fun _ => ?_
  cases hg : outputs.get? p.name with
  | none => simp [Dict.getD, hg]
  | some sources => cases sources <;> simp [Dict.getD, hg, eq_comm]

theorem outputBound_names (g : Graph) (outputs : Sources) :
    ((outputBound g outputs).map Prod.fst).Sublist (g.outputs.map Port.name) := by
  rw [outputBound]
  induction g.outputs with
  | nil => simp
  | cons p ports ih =>
    rw [List.filterMap_cons]
    split
    · exact ih.cons _
    next b hb =>
      have hname : b.1 = p.name := by
        split at hb
        · cases hb
        · cases hb; rfl
      rw [List.map_cons, List.map_cons, hname]
      exact ih.cons_cons _

theorem outputBound_boundPorts {env : Set Offer} {g : Graph} {outputs : Sources}
    (hn : (g.outputs.map Port.name).Nodup) (h : BoundPorts env g.outputs (addressed outputs)) :
    BoundPorts env g.outputs (outputBound g outputs) := by
  have hkeys : outputs.keys.Nodup := addressed_names outputs ▸ h.nodup
  refine ⟨(outputBound_names g outputs).nodup hn, ?_, ?_, ?_⟩
  · intro b hb
    obtain ⟨p, hp, sources, -, -, rfl⟩ := mem_outputBound.mp hb
    exact ⟨p, hp, rfl⟩
  · intro p hp sources hm
    obtain ⟨q, -, selected, -, hs, he⟩ := mem_outputBound.mp hm
    obtain ⟨hname, rfl⟩ := Prod.mk.inj he
    exact h.sourced p hp _ (List.mem_map.mpr ⟨(p.name, selected), hname ▸ Dict.mem_of_get? hs, rfl⟩)
  · intro p hp hc
    obtain ⟨sources, hm⟩ := h.required p hp hc
    have hne := (h.sourced p hp sources hm).nonempty
    obtain ⟨⟨name, selected⟩, he, hq⟩ := List.mem_map.mp hm
    obtain ⟨rfl, rfl⟩ := Prod.mk.inj hq
    exact ⟨_, mem_outputBound.mpr
      ⟨p, hp, selected, by simpa using hne, Dict.get?_of_mem hkeys he, rfl⟩⟩

theorem sealed_of_admit {adm : Admission δ} {depth : ℕ} {g : Graph} {m : ExecutionManifest δ}
    (hports : adm.snapshot.DistinctPorts) (h : admitGraph adm depth g = .ok m) :
    m.sourceGraph = g ∧ ∃ units outputs,
      Sealed adm.snapshot adm.hashing (fun n => adm.inputs.contains n) m units outputs := by
  obtain ⟨log, hclean, rfl⟩ := clean_of_admit h
  obtain ⟨_, _, _, hui, h₁, rfl⟩ := clean_bind.mp hclean
  obtain ⟨rfl, hni⟩ := nodup_of_validateUniquePorts hui
  obtain ⟨_, _, _, huo, h₂, rfl⟩ := clean_bind.mp h₁
  obtain ⟨rfl, hno⟩ := nodup_of_validateUniquePorts huo
  obtain ⟨_, _, _, hif, h₃, rfl⟩ := clean_bind.mp h₂
  obtain ⟨-, rfl⟩ := clean_emitFaults.mp hif
  obtain ⟨_, ⟨outputs, rootLog⟩, _, hroot, h₄, rfl⟩ := clean_bind.mp h₃
  obtain ⟨hgraph, hlog⟩ := clean_listen.mp hroot
  subst hlog
  obtain ⟨_, _, _, hbind, hpins, rfl⟩ := clean_bind.mp h₄
  obtain rfl := Emit.tellAll_returns.mp hbind.1
  obtain ⟨-, rfl⟩ := clean_emitFaults.mp hpins
  have hrec : NodeSound (adm.world g) (compileNode (adm.world g) depth) := compileNode_sound hports depth
  obtain ⟨units, hu, -, hbound, -⟩ := compileGraphWith_clean hrec hgraph (rootLevel_sound adm g)
  obtain ⟨hbr, hbb, hbl, -⟩ := bindings_projections (δ := δ) (outputBindings g outputs)
  refine ⟨rfl, units, outputBound g outputs, ?_, ?_, ?_, hu.typed,
    outputBound_boundPorts hno hbound, hu.within, hu.distinct, hni, hno⟩
  · rw [← hu.tracks.instances, RegistrySnapshot.instances]
    simp [hbr]
    rfl
  · rw [← hu.tracks.bindings]
    simp only [List.nil_append, List.append_nil, sealManifest_resolvedConnections,
      sealManifest_sourceGraph, bindingsOf_append, hbb]
    rw [outputBindings_eq]
  · rw [← hu.tracks.loops]
    simp [hbl]

end Constructicon
