import Constructicon.Closed

/-!
# Loops are closed programs of their own

The body of a loop compiles over the loop's boundary inputs alone, so its
feedback, its continuation and its exports all read the boundary or a member.
-/

namespace Constructicon

variable {δ : Type}

theorem cells_of_flat {units : List CompiledUnit} (h : ∀ u ∈ units, u.loop? = none) :
    ∃ cells : List Cell, units = cells.map .atomic := by
  induction units with
  | nil => exact ⟨[], rfl⟩
  | cons u units ih =>
    obtain ⟨cells, rfl⟩ := ih fun v hv => h v (List.mem_cons_of_mem _ hv)
    cases u with
    | atomic c => exact ⟨c :: cells, rfl⟩
    | loop l members => cases h _ List.mem_cons_self

theorem offered_atomic (cells : List Cell) :
    Threaded.offered CompiledUnit.offers (cells.map .atomic) = Threaded.offered Cell.offers cells := by
  ext o
  simp [Threaded.offered, CompiledUnit.offers]

theorem threaded_atomic {h : Hashing δ} {env : Set Offer} {cells : List Cell} :
    Threaded (CompiledUnit.Typed h) CompiledUnit.offers env (cells.map .atomic) ↔
      Threaded Cell.Typed Cell.offers env cells := by
  induction cells generalizing env with
  | nil => simp
  | cons c cells ih =>
    simp only [List.map_cons, Threaded]
    exact and_congr_right fun _ => ih

theorem get?_portsByName {ports : List Port} {name : String} {p : Port}
    (h : (portsByName ports).get? name = some p) : p ∈ ports ∧ p.name = name := by
  obtain ⟨q, hq, he⟩ := List.mem_map.mp (Dict.mem_ofList (Dict.mem_of_get? h))
  obtain ⟨rfl, rfl⟩ := Prod.mk.inj he
  exact ⟨hq, rfl⟩

/-! ## The boundary -/

/-- The initial bindings of a loop, in the order its inputs are declared. -/
def seedBound (inputs : List Port) (bound : Sources) : Bound :=
  inputs.filterMap (fun port =>
    (bound.get? port.name).map (fun selected => (port.name, selected.map Source.address)))

theorem mem_seedBound {inputs : List Port} {bound : Sources} {b : String × List PortAddress} :
    b ∈ seedBound inputs bound ↔ ∃ p ∈ inputs, ∃ selected, bound.get? p.name = some selected ∧
      b = (p.name, selected.map Source.address) := by
  simp only [seedBound, List.mem_filterMap, Option.map_eq_some_iff]
  constructor
  · rintro ⟨p, hp, selected, hs, rfl⟩
    exact ⟨p, hp, selected, hs, rfl⟩
  · rintro ⟨p, hp, selected, hs, rfl⟩
    exact ⟨p, hp, selected, hs, rfl⟩

theorem seedBound_names (inputs : List Port) (bound : Sources) :
    ((seedBound inputs bound).map Prod.fst).Sublist (inputs.map Port.name) := by
  induction inputs with
  | nil => simp [seedBound]
  | cons p inputs ih =>
    cases hb : bound.get? p.name with
    | none =>
      simp only [seedBound, List.filterMap_cons, hb, Option.map_none, List.map_cons]
      exact ih.cons _
    | some selected =>
      simp only [seedBound, List.filterMap_cons, hb, Option.map_some, List.map_cons]
      exact ih.cons_cons _

theorem loopSeeds_bindings (bodyScope : ScopePath) (inputs : List Port) (bound : Sources) :
    (loopSeeds bodyScope inputs bound).map Prod.fst =
      (seedBound inputs bound).map (fun b => ⟨.graphInput bodyScope b.1, b.2⟩) := by
  simp only [loopSeeds, seedBound, List.map_filterMap, Option.map_map]
  rfl

theorem seedBound_boundPorts {env : Set Offer} {inputs : List Port} {bound : Sources}
    (hn : (inputs.map Port.name).Nodup) (h : BoundPorts env inputs (addressed bound)) :
    BoundPorts env inputs (seedBound inputs bound) := by
  have hkeys : bound.keys.Nodup := addressed_names bound ▸ h.nodup
  refine ⟨(seedBound_names inputs bound).nodup hn, ?_, ?_, ?_⟩
  · intro b hb
    obtain ⟨p, hp, selected, -, rfl⟩ := mem_seedBound.mp hb
    exact ⟨p, hp, rfl⟩
  · intro p hp sources hm
    obtain ⟨q, -, selected, hs, he⟩ := mem_seedBound.mp hm
    obtain ⟨hname, rfl⟩ := Prod.mk.inj he
    exact h.sourced p hp _ (List.mem_map.mpr ⟨(p.name, selected), hname ▸ Dict.mem_of_get? hs, rfl⟩)
  · intro p hp hc
    obtain ⟨sources, hm⟩ := h.required p hp hc
    obtain ⟨⟨name, selected⟩, he, hq⟩ := List.mem_map.mp hm
    obtain ⟨rfl, -⟩ := Prod.mk.inj hq
    exact ⟨_, mem_seedBound.mpr ⟨p, hp, selected, Dict.get?_of_mem hkeys he, rfl⟩⟩

theorem boundary_sound {l : LoopResolution} {bound : Sources}
    (hinit : l.initialBindings = (loopSeeds l.bodyScope l.inputPorts bound).map Prod.fst) :
    ∀ s ∈ allSources (Dict.ofList ((loopSeeds l.bodyScope l.inputPorts bound).map Prod.snd)),
      s.Sound l.boundary := by
  intro s hs
  obtain ⟨name, ss, hm, hs⟩ := mem_allSources.mp hs
  obtain ⟨seed, hseed, he⟩ := List.mem_map.mp (Dict.mem_ofList hm)
  obtain ⟨p, hp, hsome⟩ := List.mem_filterMap.mp hseed
  obtain ⟨selected, hsel, rfl⟩ := Option.map_eq_some_iff.mp hsome
  obtain ⟨rfl, rfl⟩ := Prod.mk.inj he
  rw [List.mem_singleton] at hs
  refine ⟨p, ⟨p, hp, by rw [hs], ⟨.graphInput l.bodyScope p.name, selected.map Source.address⟩, ?_, rfl⟩,
    by rw [hs]⟩
  rw [hinit]
  exact List.mem_map.mpr ⟨_, hseed, rfl⟩

/-! ## Feedback, continuation and exports -/

/-- A binding that stands for a feedback edge: both ports are declared and the body
resolves the output to one source. -/
def FeedsBack (bodyScope : ScopePath) (inputs outputs : Dict String Port) (bodyOutputs : Sources)
    (edge : String × String) (b : ResolvedPortBinding) : Prop :=
  ∃ p q source, inputs.get? edge.1 = some p ∧ outputs.get? edge.2 = some q ∧
    bodyOutputs.get? edge.2 = some [source] ∧
    b = ⟨.graphInput bodyScope edge.1, [source.address]⟩

theorem feedbackBinding_clean {loopScope bodyScope : ScopePath} {inputs outputs : Dict String Port}
    {bodyOutputs : Sources} {edge : String × String} {l : List (Emitted δ)}
    {r : List ResolvedPortBinding}
    (h : Clean (feedbackBinding loopScope bodyScope inputs outputs bodyOutputs edge) l r) :
    l = [] ∧ ∀ b ∈ r, FeedsBack bodyScope inputs outputs bodyOutputs edge b := by
  rw [feedbackBinding] at h
  split_ifs at h with hc
  · obtain ⟨rfl, rfl⟩ := clean_pure.mp h
    simp
  · split at h
    next =>
      obtain ⟨rfl, rfl⟩ := clean_pure.mp h
      simp
    next source hs =>
      obtain ⟨rfl, rfl⟩ := clean_pure.mp h
      simp only [not_or, Bool.not_eq_false, Dict.contains] at hc
      obtain ⟨p, hp⟩ := Option.isSome_iff_exists.mp hc.1
      obtain ⟨q, hq⟩ := Option.isSome_iff_exists.mp hc.2
      refine ⟨rfl, fun b hb => ⟨p, q, source, hp, hq, ?_, List.mem_singleton.mp hb⟩⟩
      cases hg : bodyOutputs.get? edge.2 with
      | none => simp [Dict.getD, hg] at hs
      | some ss => simpa [Dict.getD, hg] using hs
    next => exact absurd h clean_fault_bind

theorem feedbackBindings_clean {loopScope bodyScope : ScopePath} {inputs outputs : Dict String Port}
    {bodyOutputs : Sources} : ∀ {edges : List (String × String)} {l : List (Emitted δ)}
    {r : List ResolvedPortBinding},
      Clean (feedbackBindings loopScope bodyScope inputs outputs bodyOutputs edges) l r →
        l = [] ∧ ∀ b ∈ r, ∃ edge ∈ edges, FeedsBack bodyScope inputs outputs bodyOutputs edge b := by
  intro edges
  induction edges with
  | nil =>
    intro l r h
    obtain ⟨rfl, rfl⟩ := clean_pure.mp h
    simp
  | cons edge edges ih =>
    intro l r h
    obtain ⟨l₁, here, l₂, hhere, htail, rfl⟩ := clean_bind.mp h
    obtain ⟨l₃, rest, l₄, hrest, hret, rfl⟩ := clean_bind.mp htail
    obtain ⟨rfl, rfl⟩ := clean_pure.mp hret
    obtain ⟨rfl, hh⟩ := feedbackBinding_clean hhere
    obtain ⟨rfl, hr⟩ := ih hrest
    refine ⟨rfl, fun b hb => ?_⟩
    rcases List.mem_append.mp hb with hb | hb
    · exact ⟨edge, List.mem_cons_self, hh b hb⟩
    · obtain ⟨edge', he, hx⟩ := hr b hb
      exact ⟨edge', List.mem_cons_of_mem _ he, hx⟩

theorem continueSource_clean {loopScope bodyScope : ScopePath} {outputs : Dict String Port}
    {bodyOutputs : Sources} {continueFrom : String} {port : Port} {l : List (Emitted δ)}
    {r : PortAddress} (hport : outputs.get? continueFrom = some port)
    (h : Clean (continueSource loopScope bodyScope outputs bodyOutputs continueFrom) l r) :
    l = [] ∧ ∃ source, bodyOutputs.get? continueFrom = some [source] ∧ r = source.address := by
  rw [continueSource] at h
  split at h
  next source hs =>
    obtain ⟨rfl, rfl⟩ := clean_pure.mp h
    exact ⟨rfl, source, hs, rfl⟩
  next =>
    obtain ⟨l₁, _, l₂, hf, -, rfl⟩ := clean_bind.mp h
    have hc : outputs.contains continueFrom = true := by simp [Dict.contains, hport]
    rw [if_pos hc] at hf
    exact absurd (clean_emitFaults.mp hf).1 (List.cons_ne_nil _ _)

theorem mem_loopExports {levelScope : ScopePath} {node : String} {outputs : List Port}
    {bodyOutputs : Sources} {continueFrom : String} {e : LoopExport}
    (h : e ∈ loopExports levelScope node outputs bodyOutputs continueFrom) :
    ∃ port ∈ outputs, ∃ sources, bodyOutputs.get? port.name = some sources ∧
      e = ⟨port, .nodePort levelScope node port.name, sources.map Source.address⟩ := by
  obtain ⟨port, hp, he⟩ := List.mem_filterMap.mp h
  split_ifs at he
  cases hg : bodyOutputs.get? port.name with
  | none => simp [Dict.getD, hg] at he
  | some sources =>
    refine ⟨port, hp, sources, hg, ?_⟩
    cases sources with
    | nil => simp [Dict.getD, hg] at he
    | cons s ss => simpa [Dict.getD, hg, eq_comm] using he

theorem loopExports_names (levelScope : ScopePath) (node : String) (outputs : List Port)
    (bodyOutputs : Sources) (continueFrom : String) :
    ((loopExports levelScope node outputs bodyOutputs continueFrom).map (fun e => e.port.name)).Sublist
      (outputs.map Port.name) := by
  induction outputs with
  | nil => simp [loopExports]
  | cons port outputs ih =>
    rw [loopExports, List.filterMap_cons]
    split
    · exact ih.cons _
    next e he =>
      have hport : e.port = port := by
        split_ifs at he
        split at he
        · cases he
        · cases he; rfl
      rw [List.map_cons, List.map_cons, hport]
      exact ih.cons_cons _

/-! ## The whole loop -/

/-- The ports a loop body declares, as `loopBoundary` found them. -/
def BodyPorts (w : World δ) (loop : Loop) (bodyScope : ScopePath) (inputs outputs : List Port) :
    Prop :=
  match loop.body with
  | .inr g => inputs = g.inputs ∧ outputs = g.outputs
  | .inl ref => ∃ stored,
      selectVersion w.snapshot ref (bodyScope.child "$body") w.resolutionLock = some stored ∧
        inputs = stored.definition.inputs ∧ outputs = stored.definition.outputs

theorem loopBoundary_clean {w : World δ} {loop : Loop} {bodyScope : ScopePath}
    {l : List (Emitted δ)} {r : Option (List Port × List Port)}
    (h : Clean (loopBoundary w loop bodyScope) l r) :
    Silent l ∧ ∃ inputs outputs, r = some (inputs, outputs) ∧
      BodyPorts w loop bodyScope inputs outputs := by
  rw [loopBoundary] at h
  cases hb : loop.body with
  | inr g =>
    simp only [hb] at h
    obtain ⟨rfl, rfl⟩ := clean_pure.mp h
    exact ⟨Silent.nil, g.inputs, g.outputs, rfl, by simp [BodyPorts, hb]⟩
  | inl ref =>
    simp only [hb] at h
    obtain ⟨l₁, resolved, l₂, hr, htail, rfl⟩ := clean_bind.mp h
    obtain ⟨hs, stored, rfl, hsel⟩ := resolveRef_clean hr
    split at htail
    next h₀ => cases h₀
    next stored' h₀ =>
      cases h₀
      split at htail
      next => exact absurd htail clean_fault_bind
      next =>
        obtain ⟨rfl, rfl⟩ := clean_pure.mp htail
        refine ⟨by simpa using hs, _, _, rfl, ?_⟩
        simp only [BodyPorts, hb]
        exact ⟨stored, hsel, rfl, rfl⟩

theorem compileBody_clean {w : World δ} {rec : Seat → Compile δ Sources} (hrec : NodeSound w rec)
    {a : Seat} {loop : Loop} {bodyScope : ScopePath} {boundary : Sources} {env : Set Offer}
    {inputs outputs : List Port} (hports : BodyPorts w loop bodyScope inputs outputs)
    (hsound : ∀ s ∈ allSources boundary, s.Sound env) {log : List (Emitted δ)} {o : Sources}
    (h : Clean (compileBody rec a loop bodyScope boundary) log o) :
    ∃ cells : List Cell, Compiled w env bodyScope 1 log (cells.map .atomic) ∧
      Answers (env ∪ Threaded.offered Cell.offers cells) outputs o := by
  have hfinish : ∀ {scope : ScopePath} {units : List CompiledUnit}, bodyScope <+: scope →
      Compiled w env scope 1 log units → Answers (after env units) outputs o →
      ∃ cells : List Cell, Compiled w env bodyScope 1 log (cells.map .atomic) ∧
        Answers (env ∪ Threaded.offered Cell.offers cells) outputs o := by
    intro scope units hscope hu ha
    obtain ⟨cells, rfl⟩ := cells_of_flat (hu.flat one_ne_zero)
    exact ⟨cells, { hu with within := fun u hm s hs => hscope.trans (hu.within u hm s hs) },
      by rwa [after, offered_atomic] at ha⟩
  rw [compileBody] at h
  cases hb : loop.body with
  | inr g =>
    simp only [hb] at h
    simp only [BodyPorts, hb] at hports
    obtain ⟨rfl, rfl⟩ := hports
    obtain ⟨units, hu, hn, hbound, htag⟩ := compileGraphWith_clean hrec h hsound
    exact hfinish (List.prefix_refl _) hu (hbound.answers hn htag)
  | inl ref =>
    simp only [hb] at h
    simp only [BodyPorts, hb] at hports
    obtain ⟨stored, hsel, rfl, rfl⟩ := hports
    have hv : ∀ s, (bodySeat a ref bodyScope boundary).Sees s → s.Sound env := by
      rintro s (hs | hs | ⟨outputs', ho, -⟩)
      · exact hsound s hs
      · exact hsound s hs
      · simp [bodySeat] at ho
    obtain ⟨units, hu⟩ := hrec hv h
    exact hfinish (List.prefix_append bodyScope ["$body"]) hu.compiled
      (hu.answers ref rfl stored hsel)

theorem feedbackFaults_nil {scope : ScopePath} {inputs outputs : Dict String Port}
    {edge : String × String} {p q : Port} (hp : inputs.get? edge.1 = some p)
    (hq : outputs.get? edge.2 = some q) (h : feedbackFaults scope inputs outputs edge = []) :
    p.cardinality = .one ∧ p.contract = q.contract := by
  simp only [feedbackFaults, hp, hq, List.append_eq_nil_iff, ite_eq_right_iff, List.cons_ne_nil,
    imp_false, not_or, not_not, Bool.not_eq_false] at h
  refine ⟨h.1.1, ?_⟩
  simpa [portsSameContract, Port.contract] using h.2

theorem continueFaults_nil {h : Hashing δ} {scope : ScopePath} {outputs : Dict String Port}
    {continueFrom : String} (hf : continueFaults h scope outputs continueFrom = []) :
    ∃ port, outputs.get? continueFrom = some port ∧ port.contract = continueContract h := by
  cases hg : outputs.get? continueFrom with
  | none => simp [continueFaults, hg] at hf
  | some port =>
    refine ⟨port, rfl, ?_⟩
    simp only [continueFaults, hg, ite_eq_right_iff, List.cons_ne_nil, imp_false, not_or,
      not_not] at hf
    simp [Port.contract, continueContract, hf.1, hf.2.1]

theorem Answers.of_get? {env : Set Offer} {ports : List Port} {outputs : Sources} {p : Port}
    {sources : List Source} (h : Answers env ports outputs) (hp : p ∈ ports)
    (hs : outputs.get? p.name = some sources) : Chosen (Source.Sound env) p sources :=
  h p hp sources (Dict.mem_of_get? hs)

theorem loopTyped_of_clean {w : World δ} {a : Seat} {loop : Loop} {env : Set Offer}
    {inputs outputs : List Port} (hni : (inputs.map Port.name).Nodup)
    (hno : (outputs.map Port.name).Nodup) {bound : Sources}
    (hbound : BoundPorts env inputs (addressed bound))
    (hfaults : loop.feedback.entries.flatMap
      (feedbackFaults a.scope (portsByName inputs) (portsByName outputs)) = [])
    {cells : List Cell} (hne : cells ≠ []) {body : Sources} {L : LoopResolution}
    (hscope : L.scope = a.scope) (hbodyScope : L.bodyScope = a.scope.child loopBodySegment)
    (hinputs : L.inputPorts = inputs)
    (hinit : L.initialBindings = (loopSeeds L.bodyScope L.inputPorts bound).map Prod.fst)
    (hcells : Threaded Cell.Typed Cell.offers L.boundary cells)
    (hanswers : Answers (L.inner cells) outputs body)
    (hfeedback : ∀ b ∈ L.feedbackBindings, ∃ edge ∈ loop.feedback.entries,
      FeedsBack L.bodyScope (portsByName inputs) (portsByName outputs) body edge b)
    (hcontinue : ∃ port source, (portsByName outputs).get? loop.continueFrom = some port ∧
      port.contract = continueContract w.hashing ∧
      body.get? loop.continueFrom = some [source] ∧ L.continueSource = source.address)
    (hexports : L.exports = loopExports a.levelScope a.node.id outputs body loop.continueFrom)
    (hmembers : L.memberOrder = cells.map (fun c => c.inst.scope)) :
    LoopTyped w.hashing env L cells := by
  refine ⟨by rw [hbodyScope, hscope], by rw [hinputs]; exact hni, ?_, ?_, ?_, ?_, ?_, hmembers, hne,
    hcells⟩
  · refine ⟨seedBound L.inputPorts bound, ?_, ?_⟩
    · rw [LoopResolution.Initial, hinit, loopSeeds_bindings]
    · rw [hinputs]
      exact seedBound_boundPorts hni hbound
  · intro b hb
    obtain ⟨edge, hedge, p, q, source, hp, hq, hsource, rfl⟩ := hfeedback b hb
    obtain ⟨hpm, hpn⟩ := get?_portsByName hp
    obtain ⟨hqm, hqn⟩ := get?_portsByName hq
    obtain ⟨hone, hcontract⟩ := feedbackFaults_nil hp hq (List.flatMap_eq_nil_iff.mp hfaults edge hedge)
    have hchosen := hanswers.of_get? hqm (hqn ▸ hsource)
    refine ⟨p, hinputs ▸ hpm, by rw [hpn], hone, ⟨by simp, by simp, ?_⟩⟩
    intro s hs
    rw [List.mem_singleton] at hs
    obtain ⟨o, ho, hc⟩ := hchosen.visible source List.mem_cons_self
    refine ⟨o, hs ▸ ho, ?_⟩
    rw [hc, hchosen.contract source List.mem_cons_self, hcontract]
  · obtain ⟨port, source, hp, hc, hs, he⟩ := hcontinue
    obtain ⟨hpm, hpn⟩ := get?_portsByName hp
    have hchosen := hanswers.of_get? hpm (hpn ▸ hs)
    obtain ⟨o, ho, hoc⟩ := hchosen.visible source List.mem_cons_self
    refine ⟨o, he ▸ ho, ?_⟩
    rw [hoc, hchosen.contract source List.mem_cons_self, hc]
  · intro e he
    rw [hexports] at he
    obtain ⟨port, hpm, sources, hs, rfl⟩ := mem_loopExports he
    refine ⟨by simp [hscope, Seat.scope, ScopePath.child], ?_⟩
    exact (hanswers.of_get? hpm hs).sourced fun s hs => hs
  · rw [hexports]
    exact (loopExports_names _ _ _ _ _).nodup hno

theorem loop_compiled {w : World δ} {a : Seat} {env : Set Offer} {L : LoopResolution}
    {cells : List Cell} {log : List (Emitted δ)} (hscope : L.scope = a.scope)
    (hbodyScope : L.bodyScope = a.scope.child loopBodySegment) (hdepth : a.loopDepth = 0)
    (hbody : Compiled w L.boundary L.bodyScope 1 log (cells.map .atomic))
    (htyped : LoopTyped w.hashing env L cells) :
    Compiled w env a.scope a.loopDepth (log ++ [.loop L]) [.loop L cells] := by
  have hcells : ∀ c ∈ cells, L.bodyScope <+: c.inst.scope := by
    intro c hc
    exact hbody.within (.atomic c) (List.mem_map.mpr ⟨c, hc, rfl⟩) _ List.mem_cons_self
  have htail : Tracks w.snapshot log (cells.map .atomic) := hbody.tracks
  refine ⟨⟨?_, ?_, ?_, ?_⟩, ⟨htyped, trivial⟩, ?_, ?_, ?_⟩
  · have : resolutionsOf (log ++ [.loop L]) = resolutionsOf log := by
      rw [resolutionsOf_append]; exact List.append_nil _
    rw [this, htail.instances]
    simp [CompiledUnit.cells, List.flatMap_map, ← List.map_eq_flatMap]
  · have : bindingsOf (log ++ [.loop L]) = bindingsOf log := by
      rw [bindingsOf_append]; exact List.append_nil _
    rw [this, htail.bindings]
    simp [CompiledUnit.cells, List.flatMap_map]
  · rw [loopsOf_append, htail.loops]
    simp [CompiledUnit.loop?, loopsOf, Emitted.loop?]
  · have : atomicsOf (log ++ [.loop L]) = atomicsOf log := by
      rw [atomicsOf_append]; exact List.append_nil _
    rw [this, htail.atomics]
    simp [CompiledUnit.cells, List.flatMap_map, ← List.map_eq_flatMap]
  · intro u hu s hs
    rw [List.mem_singleton] at hu
    subst hu
    rcases List.mem_cons.mp hs with rfl | hs
    · rw [hscope]
    · obtain ⟨c, hc, rfl⟩ := List.mem_map.mp hs
      refine List.IsPrefix.trans ?_ (hcells c hc)
      rw [hbodyScope]
      exact List.prefix_append _ _
  · have hd : (cells.map (fun c => c.inst.scope)).Nodup := by
      simpa [List.flatMap_map, CompiledUnit.scopes, ← List.map_eq_flatMap] using hbody.distinct
    simp only [List.flatMap_cons, List.flatMap_nil, List.append_nil, CompiledUnit.scopes]
    refine List.nodup_cons.mpr ⟨fun hm => ?_, hd⟩
    obtain ⟨c, hc, he⟩ := List.mem_map.mp hm
    have hlen := (hcells c hc).length_le
    rw [he, hbodyScope, hscope] at hlen
    simp [ScopePath.child] at hlen
  · exact fun h => absurd hdepth h

theorem exportedSources_sound {env : Set Offer} {L : LoopResolution} {cells : List Cell} :
    ∀ s ∈ allSources (exportedSources L.exports), s.Sound (after env [.loop L cells]) := by
  intro s hs
  obtain ⟨name, ss, hm, hs⟩ := mem_allSources.mp hs
  obtain ⟨e, he, heq⟩ := List.mem_map.mp (Dict.mem_ofList hm)
  obtain ⟨rfl, rfl⟩ := Prod.mk.inj heq
  rw [List.mem_singleton] at hs
  subst hs
  exact ⟨e.port, .inr ⟨_, List.mem_singleton_self _, e, he, rfl⟩, rfl⟩

/-- `_compile_loop` at the outer level. -/
theorem compileBounded_clean {w : World δ} {rec : Seat → Compile δ Sources} (hrec : NodeSound w rec)
    {a : Seat} {loop : Loop} {env : Set Offer} (hv : ∀ s, a.Sees s → s.Sound env)
    (hdepth : a.loopDepth = 0) {inputs outputs : List Port}
    (hports : BodyPorts w loop (a.scope.child loopBodySegment) inputs outputs)
    {log : List (Emitted δ)} {o : Sources}
    (h : Clean (compileBounded w rec a loop inputs outputs) log o) :
    ∃ units, Compiled w env a.scope a.loopDepth log units ∧
      ∀ s ∈ allSources o, s.Sound (after env units) := by
  obtain ⟨_, _, _, hui, h₁, rfl⟩ := clean_bind.mp h
  obtain ⟨rfl, hni⟩ := nodup_of_validateUniquePorts hui
  obtain ⟨_, _, _, huo, h₂, rfl⟩ := clean_bind.mp h₁
  obtain ⟨rfl, hno⟩ := nodup_of_validateUniquePorts huo
  obtain ⟨_, _, _, hff, h₃, rfl⟩ := clean_bind.mp h₂
  obtain ⟨hfeedback, rfl⟩ := clean_emitFaults.mp hff
  obtain ⟨_, _, _, hcf, h₄, rfl⟩ := clean_bind.mp h₃
  obtain ⟨hcontinue, rfl⟩ := clean_emitFaults.mp hcf
  obtain ⟨port, hport, hcontract⟩ := continueFaults_nil hcontinue
  obtain ⟨_, bound, _, hbind, h₅, rfl⟩ := clean_bind.mp h₄
  obtain ⟨rfl, hbound, -⟩ := bindNodeInputs_clean hbind hni hv
  obtain ⟨_, ⟨body, bodyLog⟩, _, hlisten, h₆, rfl⟩ := clean_bind.mp h₅
  obtain ⟨hbody, hlog⟩ := clean_listen.mp hlisten
  subst hlog
  obtain ⟨_, _, _, hempty, h₇, rfl⟩ := clean_bind.mp h₆
  obtain ⟨hnonempty, rfl⟩ := clean_emitFaults.mp hempty
  obtain ⟨_, feedback, _, hfb, h₈, rfl⟩ := clean_bind.mp h₇
  obtain ⟨rfl, hfeeds⟩ := feedbackBindings_clean hfb
  obtain ⟨_, continuation, _, hcs, h₉, rfl⟩ := clean_bind.mp h₈
  obtain ⟨rfl, source, hsource, rfl⟩ := continueSource_clean hport hcs
  obtain ⟨_, _, _, htell, hret, rfl⟩ := clean_bind.mp h₉
  obtain ⟨rfl, -⟩ := clean_tell.mp htell
  obtain ⟨rfl, rfl⟩ := clean_pure.mp hret
  set L := loopResolution a loop inputs outputs bound body (atomicsOf bodyLog) feedback source.address
    with hL
  obtain ⟨cells, hcells, hanswers⟩ := compileBody_clean hrec hports (boundary_sound (l := L) rfl) hbody
  have hmembers : atomicsOf bodyLog = cells.map (fun c => c.inst.scope) := by
    rw [hcells.tracks.atomics]
    simp [CompiledUnit.cells, List.flatMap_map, ← List.map_eq_flatMap]
  have hne : cells ≠ [] := by
    rintro rfl
    simp [hmembers] at hnonempty
  have htyped : LoopTyped w.hashing env L cells :=
    loopTyped_of_clean hni hno hbound hfeedback hne rfl rfl rfl rfl
      (threaded_atomic.mp hcells.typed) hanswers hfeeds
      ⟨port, source, hport, hcontract, hsource, rfl⟩ rfl hmembers
  refine ⟨[.loop L cells], ?_, exportedSources_sound⟩
  simpa using loop_compiled rfl rfl hdepth hcells htyped

theorem compileLoop_clean {w : World δ} {rec : Seat → Compile δ Sources} (hrec : NodeSound w rec)
    {a : Seat} {loop : Loop} {env : Set Offer} (hv : ∀ s, a.Sees s → s.Sound env)
    (hdepth : a.loopDepth = 0) {log : List (Emitted δ)} {o : Sources}
    (h : Clean (compileLoop w rec a loop) log o) :
    ∃ units, Compiled w env a.scope a.loopDepth log units ∧
      ∀ s ∈ allSources o, s.Sound (after env units) := by
  obtain ⟨l₁, boundary, l₂, hb, htail, rfl⟩ := clean_bind.mp h
  obtain ⟨hs, inputs, outputs, rfl, hports⟩ := loopBoundary_clean hb
  obtain ⟨units, hu, ho⟩ := compileBounded_clean hrec hv hdepth hports htail
  exact ⟨units, hu.prepend hs.tracks, ho⟩

end Constructicon
