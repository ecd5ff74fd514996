import Constructicon.Congruence

/-!
# Loops and nodes of graphs that are alike

A loop seals its feedback bindings in the order the edges were written, so two loops
of one canonical form seal the same program exactly when their feedback keys stand in
the same order. With that the comparison closes over `_compile_node` at every depth:
the index of a body is the order of its feedback keys, `feedbackOutline`.
-/

namespace Constructicon

variable {δ : Type}

/-! ## Ports by name -/

theorem get?_portsByName_alike {ports ports' : List Port}
    (h : ports.map Port.bare = ports'.map Port.bare) (name : String) :
    ((portsByName ports).get? name).map Port.bare = ((portsByName ports').get? name).map Port.bare := by
  have hbare : ∀ ports : List Port, ((portsByName ports).get? name).map Port.bare =
      (Dict.ofList ((ports.map Port.bare).map (fun p => (p.name, p)))).get? name := by
    intro ports
    rw [portsByName, ← Dict.get?_mapValues, Dict.mapValues_ofList, List.map_map, List.map_map]
    rfl
  rw [hbare ports, hbare ports', h]

theorem contains_portsByName_alike {ports ports' : List Port}
    (h : ports.map Port.bare = ports'.map Port.bare) (name : String) :
    (portsByName ports).contains name = (portsByName ports').contains name := by
  simpa [Dict.contains] using congrArg Option.isSome (get?_portsByName_alike h name)

theorem feedbackFaults_alike {scope scope' : ScopePath} {ins ins' outs outs' : List Port}
    (hi : ins.map Port.bare = ins'.map Port.bare) (ho : outs.map Port.bare = outs'.map Port.bare)
    {edge : String × String}
    (h : feedbackFaults scope (portsByName ins) (portsByName outs) edge = []) :
    feedbackFaults scope' (portsByName ins') (portsByName outs') edge = [] := by
  have hin := get?_portsByName_alike hi edge.1
  have hout := get?_portsByName_alike ho edge.2
  unfold feedbackFaults at h ⊢
  generalize (portsByName ins).get? edge.1 = p at h hin
  generalize (portsByName ins').get? edge.1 = p' at hin ⊢
  generalize (portsByName outs).get? edge.2 = q at h hout
  generalize (portsByName outs').get? edge.2 = q' at hout ⊢
  match p, q, p', q' with
  | some p, some q, some p', some q' =>
    obtain ⟨-, htp, hhp, hcp⟩ := Port.bare_eq_iff.mp (Option.some.inj hin)
    obtain ⟨-, htq, hhq, hcq⟩ := Port.bare_eq_iff.mp (Option.some.inj hout)
    simpa [portsSameContract, htp, hhp, hcp, htq, hhq, hcq] using h
  | none, _, _, _ => simp at h
  | some _, none, _, _ => simp at h
  | some _, some _, none, _ => simp at hin
  | some _, some _, some _, none => simp at hout

theorem continueFaults_alike {h : Hashing δ} {scope scope' : ScopePath} {outs outs' : List Port}
    (ho : outs.map Port.bare = outs'.map Port.bare) {continueFrom : String}
    (hf : continueFaults h scope (portsByName outs) continueFrom = []) :
    continueFaults h scope' (portsByName outs') continueFrom = [] := by
  have hout := get?_portsByName_alike ho continueFrom
  unfold continueFaults at hf ⊢
  generalize (portsByName outs).get? continueFrom = p at hf hout
  generalize (portsByName outs').get? continueFrom = p' at hout ⊢
  match p, p' with
  | some p, some p' =>
    obtain ⟨-, ht, hh, hc⟩ := Port.bare_eq_iff.mp (Option.some.inj hout)
    simpa [ht, hh, hc] using hf
  | none, _ => simp at hf
  | some _, none => simp at hout

/-! ## The parts of a loop -/

theorem get?_bareSources (s : Sources) (name : String) :
    (bareSources s).get? name = (s.get? name).map (List.map Source.bare) :=
  Dict.get?_mapValues (List.map Source.bare) s name

theorem loopSeeds_alike (bodyScope : ScopePath) {ins ins' : List Port}
    (hi : ins.map Port.bare = ins'.map Port.bare) {bound bound' : Sources}
    (hb : OutputsAlike bound bound') :
    (loopSeeds bodyScope ins bound).map Prod.fst = (loopSeeds bodyScope ins' bound').map Prod.fst ∧
      OutputsAlike (Dict.ofList ((loopSeeds bodyScope ins bound).map Prod.snd))
        (Dict.ofList ((loopSeeds bodyScope ins' bound').map Prod.snd)) := by
  -- both halves read a port through its bare form and the bound sources through theirs
  have hseeds : ∀ (ins : List Port) (bound : Sources),
      (loopSeeds bodyScope ins bound).map (fun s => (s.1, s.2.1, s.2.2.map Source.bare)) =
        (ins.map Port.bare).filterMap (fun port => ((bareSources bound).get? port.name).map
          (fun selected => (⟨.graphInput bodyScope port.name, selected.map Source.address⟩, port.name,
            [(⟨.graphInput bodyScope port.name, port⟩ : Source)]))) := by
    intro ins bound
    rw [loopSeeds, List.map_filterMap, List.filterMap_map]
    congr 1
    funext port
    rw [Function.comp_apply, get?_bareSources, Option.map_map, Option.map_map]
    congr 1
    funext selected
    simp [Function.comp_def, Source.bare, Port.bare]
  have he : (loopSeeds bodyScope ins bound).map (fun s => (s.1, s.2.1, s.2.2.map Source.bare)) =
      (loopSeeds bodyScope ins' bound').map (fun s => (s.1, s.2.1, s.2.2.map Source.bare)) := by
    rw [hseeds, hseeds, hi, hb]
  constructor
  · simpa [Function.comp_def] using congrArg (List.map Prod.fst) he
  · unfold OutputsAlike bareSources
    rw [Dict.mapValues_ofList, Dict.mapValues_ofList]
    simpa [Function.comp_def] using congrArg (fun l => Dict.ofList (l.map Prod.snd)) he

/-- The binding of a feedback edge whose output has one source. -/
def fedBack (bodyScope : ScopePath) (body : Sources) (edge : String × String) : ResolvedPortBinding :=
  ⟨.graphInput bodyScope edge.1, (body.getD edge.2 []).map Source.address⟩

theorem feedbackBindings_clean_iff {loopScope bodyScope : ScopePath} {inputs outputs : Dict String Port}
    {body : Sources} : ∀ {edges : List (String × String)} {l : List (Emitted δ)}
    {r : List ResolvedPortBinding},
    (∀ e ∈ edges, inputs.contains e.1 = true ∧ outputs.contains e.2 = true ∧ body.getD e.2 [] ≠ []) →
      (Clean (feedbackBindings loopScope bodyScope inputs outputs body edges) l r ↔
        l = [] ∧ (∀ e ∈ edges, (body.getD e.2 []).length = 1) ∧
          r = edges.map (fedBack bodyScope body)) := by
  intro edges
  induction edges with
  | nil =>
    intro l r _
    rw [feedbackBindings, clean_pure]
    simp [eq_comm]
  | cons edge edges ih =>
    intro l r h
    obtain ⟨hin, hout, hne⟩ := h edge List.mem_cons_self
    have htail := fun e he => h e (List.mem_cons_of_mem _ he)
    rw [feedbackBindings, clean_bind, feedbackBinding, if_neg (by simp [hin, hout])]
    constructor
    · rintro ⟨l₁, here, l₂, hhere, hrest, rfl⟩
      obtain ⟨l₃, rest, l₄, hr, hret, rfl⟩ := clean_bind.mp hrest
      obtain ⟨rfl, rfl⟩ := clean_pure.mp hret
      obtain ⟨rfl, hlen, rfl⟩ := (ih htail).mp hr
      rcases hs : body.getD edge.2 [] with _ | ⟨source, _ | ⟨t, ss⟩⟩
      · exact absurd hs hne
      · simp only [hs] at hhere
        obtain ⟨rfl, rfl⟩ := clean_pure.mp hhere
        refine ⟨rfl, List.forall_mem_cons.mpr ⟨by rw [hs]; rfl, hlen⟩, ?_⟩
        rw [List.map_cons, fedBack, hs]
        rfl
      · simp only [hs] at hhere
        exact absurd hhere clean_fault_bind
    · rintro ⟨rfl, hlen, rfl⟩
      obtain ⟨hhead, hlen⟩ := List.forall_mem_cons.mp hlen
      rcases hs : body.getD edge.2 [] with _ | ⟨source, _ | ⟨t, ss⟩⟩
      · exact absurd hs hne
      · refine ⟨[], [fedBack bodyScope body edge], [], ?_, ?_, rfl⟩
        · rw [fedBack, hs]
          exact clean_pure.mpr ⟨rfl, rfl⟩
        · refine clean_bind.mpr ⟨[], edges.map (fedBack bodyScope body), [], ?_, ?_, rfl⟩
          · exact (ih htail).mpr ⟨rfl, hlen, rfl⟩
          · exact clean_pure.mpr ⟨rfl, rfl⟩
      · simp [hs] at hhead

theorem perm_of_sortKeys {es es' : List (String × String)} (h : Json.sortKeys es = Json.sortKeys es') :
    es.Perm es' := by
  have hp := (Json.sortKeys_perm es).symm
  rw [h] at hp
  exact hp.trans (Json.sortKeys_perm es')

theorem fedBack_eq_iff {bodyScope : ScopePath} {body body' : Sources} (hb : OutputsAlike body body')
    {es es' : List (String × String)} (h : Json.sortKeys es = Json.sortKeys es') :
    es.map (fedBack bodyScope body) = es'.map (fedBack bodyScope body') ↔
      es.map Prod.fst = es'.map Prod.fst := by
  have hfed : fedBack bodyScope body = fedBack bodyScope body' := by
    funext edge
    rw [fedBack, fedBack, map_address_of_bare (getD_bareSources hb edge.2)]
  have hkey : ∀ l : List (String × String), l.map Prod.fst = (l.map (fedBack bodyScope body')).map
      (fun b => match b.destination with
        | .graphInput _ port => port
        | _ => "") := by
    intro l
    rw [List.map_map]
    rfl
  rw [hfed]
  constructor
  · intro he
    rw [hkey es, hkey es', he]
  · intro he
    rw [Json.eq_of_sortKeys_eq he h]

theorem feedbackBindings_alike {loopScope loopScope' bodyScope : ScopePath}
    {ins ins' outs outs' : List Port} (hi : ins.map Port.bare = ins'.map Port.bare)
    (ho : outs.map Port.bare = outs'.map Port.bare) {body body' : Sources}
    (hb : OutputsAlike body body') {es es' : List (String × String)}
    (hes : Json.sortKeys es = Json.sortKeys es')
    (hdecl : ∀ e ∈ es, (portsByName ins).contains e.1 = true ∧ (portsByName outs).contains e.2 = true ∧
      body.getD e.2 [] ≠ []) :
    Quiet (δ := δ) (fun r r' => r = r' ↔ es.map Prod.fst = es'.map Prod.fst)
      (feedbackBindings loopScope bodyScope (portsByName ins) (portsByName outs) body es)
      (feedbackBindings loopScope' bodyScope (portsByName ins') (portsByName outs') body' es') := by
  intro l r hc
  obtain ⟨rfl, hlen, rfl⟩ := (feedbackBindings_clean_iff hdecl).mp hc
  have hperm := perm_of_sortKeys hes
  have hlength : ∀ name, (body'.getD name []).length = (body.getD name []).length := by
    intro name
    simpa using (congrArg List.length (getD_bareSources hb name)).symm
  have hdecl' : ∀ e ∈ es', (portsByName ins').contains e.1 = true ∧
      (portsByName outs').contains e.2 = true ∧ body'.getD e.2 [] ≠ [] := by
    intro e he
    obtain ⟨h₁, h₂, h₃⟩ := hdecl e (hperm.mem_iff.mpr he)
    refine ⟨contains_portsByName_alike hi e.1 ▸ h₁, contains_portsByName_alike ho e.2 ▸ h₂, ?_⟩
    rw [← List.length_pos_iff_ne_nil, hlength]
    exact List.length_pos_iff_ne_nil.mpr h₃
  refine ⟨[], es'.map (fedBack bodyScope body'), (feedbackBindings_clean_iff hdecl').mpr ⟨rfl, ?_, rfl⟩,
    ⟨rfl, rfl⟩, fedBack_eq_iff hb hes⟩
  intro e he
  rw [hlength]
  exact hlen e (hperm.mem_iff.mpr he)

theorem continueSource_alike {loopScope loopScope' bodyScope : ScopePath} {outs outs' : List Port}
    (ho : outs.map Port.bare = outs'.map Port.bare) {body body' : Sources}
    (hb : OutputsAlike body body') (continueFrom : String) :
    Quiet (δ := δ) (· = ·) (continueSource loopScope bodyScope (portsByName outs) body continueFrom)
      (continueSource loopScope' bodyScope (portsByName outs') body' continueFrom) := by
  have hget : (body.get? continueFrom).map (List.map Source.bare) =
      (body'.get? continueFrom).map (List.map Source.bare) := by
    rw [← get?_bareSources, ← get?_bareSources, hb]
  have hfaults : Quiet (δ := δ) (· = ·)
      (do emitFaults (if (portsByName outs).contains continueFrom then
            [.continueArity loopScope continueFrom] else [])
          pure (PortAddress.graphInput bodyScope continueFrom))
      (do emitFaults (if (portsByName outs').contains continueFrom then
            [.continueArity loopScope' continueFrom] else [])
          pure (PortAddress.graphInput bodyScope continueFrom)) := by
    refine Quiet.bind (Quiet.emitFaults fun h => ?_) fun _ _ _ => Sim.pure ⟨rfl, rfl⟩ rfl
    rw [← contains_portsByName_alike ho]
    split_ifs at h ⊢
    rfl
  unfold continueSource
  generalize body.get? continueFrom = s at hget
  generalize body'.get? continueFrom = s' at hget
  obtain ⟨rfl, rfl⟩ | ⟨s, s', rfl, rfl, hs⟩ := OutcomeAlike.cases hget
  · exact hfaults
  · rcases s with _ | ⟨s, _ | ⟨t, ss⟩⟩ <;> rcases s' with _ | ⟨s', _ | ⟨t', ss'⟩⟩ <;>
      simp only [List.map_nil, List.map_cons, List.cons.injEq, reduceCtorEq, and_false, and_true] at hs
    · exact hfaults
    · exact Sim.pure ⟨rfl, rfl⟩ (Source.bare_eq_iff.mp hs).1
    · exact hfaults

theorem loopExports_alike (levelScope : ScopePath) (node : String) {body body' : Sources}
    (hb : OutputsAlike body body') (continueFrom : String) :
    ∀ {outs outs' : List Port}, outs.map normPort = outs'.map normPort →
      (loopExports levelScope node outs body continueFrom).map normExport =
        (loopExports levelScope node outs' body' continueFrom).map normExport := by
  intro outs
  induction outs with
  | nil =>
    intro outs' ho
    obtain rfl : outs' = [] := by simpa using ho.symm
    rfl
  | cons port outs ih =>
    intro outs' ho
    cases outs' with
    | nil => simp at ho
    | cons port' outs' =>
      rw [List.map_cons, List.map_cons, List.cons.injEq] at ho
      obtain ⟨hname, -⟩ := Port.bare_eq_iff.mp (bare_of_norm ho.1)
      have hs := getD_bareSources hb port'.name
      have ht := ih ho.2
      simp only [loopExports, List.map_filterMap] at ht ⊢
      simp only [List.filterMap_cons, hname]
      split_ifs with hc
      · exact ht
      · generalize body.getD port'.name [] = ss at hs
        generalize body'.getD port'.name [] = ss' at hs
        cases ss with
        | nil =>
          obtain rfl : ss' = [] := by simpa using hs.symm
          exact ht
        | cons s ss =>
          cases ss' with
          | nil => simp at hs
          | cons s' ss' =>
            simp only [Option.map_some]
            rw [ht, List.cons.injEq]
            refine ⟨?_, rfl⟩
            rw [normExport, normExport, ho.1, map_address_of_bare hs]

theorem exportedSources_alike {es es' : List LoopExport} (h : es.map normExport = es'.map normExport) :
    OutputsAlike (exportedSources es) (exportedSources es') := by
  have hlen : es.length = es'.length := by simpa using congrArg List.length h
  have hmap : es.map (fun e => (e.port.name, [(⟨e.destination, e.port.bare⟩ : Source)])) =
      es'.map (fun e => (e.port.name, [⟨e.destination, e.port.bare⟩])) := by
    refine map_of_zip hlen fun p hp => ?_
    have he := map_eq_zip h p hp
    simp only [normExport, Prod.mk.injEq] at he
    have hbare := bare_of_norm he.1
    rw [(Port.bare_eq_iff.mp hbare).1, he.2.1, hbare]
  have hbare : ∀ es : List LoopExport, bareSources (exportedSources es) =
      Dict.ofList (es.map (fun e => (e.port.name, [⟨e.destination, e.port.bare⟩]))) := by
    intro es
    rw [bareSources, exportedSources, Dict.mapValues_ofList, List.map_map]
    rfl
  unfold OutputsAlike
  rw [hbare es, hbare es', hmap]

/-! ## Loops -/

def Complete (outs : List Port) (o : Sources) : Prop :=
  ∀ p ∈ outs, p.cardinality ≠ .optional → o.getD p.name [] ≠ []

abbrev boundaryOf (a : Seat) (ins : List Port) (bound : Sources) : Sources :=
  Dict.ofList ((loopSeeds (a.scope.child loopBodySegment) ins bound).map Prod.snd)

section Loops

variable {R : LogRel δ} {rec rec' : Seat → Compile δ Sources} {w w' : World δ} {a a' : Seat}
  {loop loop' : Loop} {P : Prop}

theorem declared_of_feedbackFaults {scope : ScopePath} {ins outs : List Port} {edge : String × String}
    (h : feedbackFaults scope (portsByName ins) (portsByName outs) edge = []) :
    (portsByName ins).contains edge.1 = true ∧
      ∃ q ∈ outs, q.name = edge.2 ∧ q.cardinality = .one ∧ (portsByName outs).contains edge.2 = true := by
  cases hp : (portsByName ins).get? edge.1 with
  | none => simp [feedbackFaults, hp] at h
  | some p =>
    cases hq : (portsByName outs).get? edge.2 with
    | none => simp [feedbackFaults, hp, hq] at h
    | some q =>
      obtain ⟨hm, hn⟩ := get?_portsByName hq
      simp only [feedbackFaults, hp, hq, List.append_eq_nil_iff, ite_eq_right_iff, List.cons_ne_nil,
        imp_false, not_or, not_not] at h
      exact ⟨by simp [Dict.contains, hp], q, hm, hn, h.1.2, by simp [Dict.contains, hq]⟩

/-- Two loops of known boundary. The comparison of their bodies is `hbody`. -/
theorem compileBounded_alike (hw : w.hashing = w'.hashing) (ha : SeatAlike a a')
    (hfeedback : Json.sortKeys loop.feedback.entries = Json.sortKeys loop'.feedback.entries)
    (hcontinue : loop.continueFrom = loop'.continueFrom)
    (hmax : loop.maxIterations = loop'.maxIterations) {ins ins' outs outs' : List Port}
    (hi : ins.map normPort = ins'.map normPort) (ho : outs.map normPort = outs'.map normPort)
    (hbody : ∀ (log log' : List (Emitted δ)) bound bound',
      Clean (bindNodeInputs a ins loop.feedback.keys) log bound →
      Clean (bindNodeInputs a' ins' loop'.feedback.keys) log' bound' → OutputsAlike bound bound' → Sim (R.Rel P) (fun o o' => OutputsAlike o o' ∧ Complete outs o)
        (compileBody rec a loop (a.scope.child loopBodySegment) (boundaryOf a ins bound))
        (compileBody rec' a' loop' (a'.scope.child loopBodySegment) (boundaryOf a' ins' bound'))) :
    Sim (R.Rel (P ∧ loop.feedback.keys = loop'.feedback.keys)) OutputsAlike
      (compileBounded w rec a loop ins outs) (compileBounded w' rec' a' loop' ins' outs') := by
  have hib := map_bare_of_norm hi
  have hob := map_bare_of_norm ho
  have hperm := perm_of_sortKeys hfeedback
  have hkeys : ∀ name, name ∈ loop.feedback.keys ↔ name ∈ loop'.feedback.keys :=
    fun name => (hperm.map Prod.fst).mem_iff
  simp only [boundaryOf, ← ha.scope] at hbody
  simp only [compileBounded, ← ha.scope, ← hcontinue]
  refine Quiet.bind (Quiet.validateUniquePorts (map_name_of_bare hib)) fun _ _ _ => ?_
  refine Quiet.bind (Quiet.validateUniquePorts (map_name_of_bare hob)) fun _ _ _ => ?_
  have hfaults : loop.feedback.entries.flatMap
        (feedbackFaults a.scope (portsByName ins) (portsByName outs)) = [] →
      loop'.feedback.entries.flatMap
        (feedbackFaults a.scope (portsByName ins') (portsByName outs')) = [] := by
    intro h
    rw [List.flatMap_eq_nil_iff] at h ⊢
    exact fun e he => feedbackFaults_alike hib hob (h e (hperm.mem_iff.mpr he))
  refine Quiet.bind (Sim.clean (Quiet.emitFaults hfaults)) fun _ _ hclean => ?_
  obtain ⟨-, ⟨_, hnone⟩, -⟩ := hclean
  obtain ⟨hnone, -⟩ := clean_emitFaults.mp hnone
  rw [List.flatMap_eq_nil_iff] at hnone
  refine Quiet.bind (Quiet.emitFaults ?_) fun _ _ _ => ?_
  · intro h
    rw [← hw]
    exact continueFaults_alike hob h
  refine Quiet.bind (Sim.clean (bindNodeInputs_alike ha hib hkeys)) fun bound bound' hbound => ?_
  obtain ⟨hbound, ⟨log, hlog⟩, ⟨log', hlog'⟩⟩ := hbound
  obtain ⟨hinitial, -⟩ := loopSeeds_alike (a.scope.child loopBodySegment) hib hbound
  have hlisten := Sim.listen (hbody log log' bound bound' hlog hlog' hbound)
  refine (Sim.seq (Q := loop.feedback.keys = loop'.feedback.keys) hlisten ?_)
  rintro ⟨body, members⟩ ⟨body', members'⟩ ⟨⟨hout, hcomplete⟩, hlogs⟩
  have hatomics : atomicsOf members = atomicsOf members' := R.atomics hlogs
  have hdecl : ∀ e ∈ loop.feedback.entries, (portsByName ins).contains e.1 = true ∧
      (portsByName outs).contains e.2 = true ∧ body.getD e.2 [] ≠ [] := by
    intro e he
    obtain ⟨hin, q, hq, hname, hone, hcontains⟩ := declared_of_feedbackFaults (hnone e he)
    exact ⟨hin, hcontains, hname ▸ hcomplete q hq (by rw [hone]; decide)⟩
  refine Quiet.bind (Quiet.emitFaults ?_) fun _ _ _ => ?_
  · simp only [hatomics]
    intro h
    split_ifs at h ⊢
    rfl
  refine Quiet.bind (feedbackBindings_alike hib hob hout hfeedback hdecl) fun feedback feedback' hfed => ?_
  refine Quiet.bind (continueSource_alike hob hout loop.continueFrom) fun continuation continuation' hcont => ?_
  have hprogram : LoopProgramAlike
      (loopResolution a loop ins outs bound body (atomicsOf members) feedback continuation)
      (loopResolution a' loop' ins' outs' bound' body' (atomicsOf members') feedback' continuation') :=
    { scope := ha.scope
      bodyScope := congrArg (fun s => ScopePath.child s loopBodySegment) ha.scope
      maxIterations := hmax
      inputPorts := hi
      initialBindings := by
        simp only [loopResolution, ← ha.scope]
        exact hinitial
      continueSource := hcont
      exports := by
        simp only [loopResolution, ← ha.levelScope, ← ha.id, ← hcontinue]
        exact loopExports_alike _ _ hout _ ho
      memberOrder := hatomics }
  have htell : Sim (R.Rel (feedback = feedback')) (fun _ _ => True)
      (Emit.tell (.loop (loopResolution a loop ins outs bound body (atomicsOf members) feedback
        continuation)))
      (Emit.tell (.loop (loopResolution a' loop' ins' outs' bound' body' (atomicsOf members') feedback'
        continuation'))) := by
    intro l u h
    obtain ⟨rfl, -⟩ := clean_tell.mp h
    exact ⟨_, (), clean_tell.mpr ⟨rfl, rfl⟩, R.loop hprogram, trivial⟩
  refine (Sim.seq (Q := True) htell fun _ _ _ => ?_).mono (fun _ _ h => LogRel.iff h ?_) fun _ _ => id
  · exact Sim.pure R.nil (exportedSources_alike hprogram.exports)
  · rw [and_true]
    exact hfed

end Loops

/-! ## Required outputs always have a source -/

theorem compileGraphWith_complete {rec : Seat → Compile δ Sources} {g : Graph} {l : Level}
    {log : List (Emitted δ)} {o : Sources} (h : Clean (compileGraphWith rec g l) log o) :
    Complete g.outputs o := by
  obtain ⟨_, _, _, -, h₁, -⟩ := clean_bind.mp h
  obtain ⟨_, _, _, -, h₂, -⟩ := clean_bind.mp h₁
  obtain ⟨_, _, _, -, h₃, -⟩ := clean_bind.mp h₂
  obtain ⟨_, _, _, huo, h₄, -⟩ := clean_bind.mp h₃
  obtain ⟨_, _, _, -, h₅, -⟩ := clean_bind.mp h₄
  obtain ⟨_, _, _, -, hout, -⟩ := clean_bind.mp h₅
  have hall : ∀ ss : List Source, ∀ s ∈ ss, s.Sound Set.univ := fun _ s _ => ⟨s.port, trivial, rfl⟩
  have hzip : g.outputs.zipIdx.map Prod.fst = g.outputs := List.zipIdx_map_fst 0 g.outputs
  have hno := (nodup_of_validateUniquePorts huo).2
  obtain ⟨-, hb, -⟩ := bindOutputs_clean (hall _) (hall _) hout (by simpa [hzip] using hno)
    (BoundPorts.nil _) (by simp [Tagged])
  rw [List.nil_append, hzip] at hb
  intro p hp hc
  obtain ⟨sources, hm⟩ := hb.required p hp hc
  obtain ⟨e, he, heq⟩ := List.mem_map.mp hm
  obtain ⟨hname, rfl⟩ := Prod.mk.inj heq
  have hget : o.get? p.name = some e.2 :=
    Dict.get?_of_mem (addressed_names o ▸ hb.nodup) (hname ▸ he)
  rw [Dict.getD, hget, Option.getD_some]
  simpa using (hb.sourced p hp _ hm).nonempty

theorem Complete.of_norm {outs outs' : List Port} {o : Sources} (h : Complete outs o)
    (ho : outs'.map normPort = outs.map normPort) : Complete outs' o := by
  intro p hp hc
  have hm : normPort p ∈ outs.map normPort := ho ▸ List.mem_map.mpr ⟨p, hp, rfl⟩
  obtain ⟨q, hq, he⟩ := List.mem_map.mp hm
  obtain ⟨hn, -, -, hcard⟩ := Port.bare_eq_iff.mp (bare_of_norm he)
  exact hn ▸ h q hq (hcard ▸ hc)

theorem atomicOutputs_complete (levelScope : ScopePath) (node : String) (outs : List Port) :
    Complete outs (atomicOutputs levelScope node outs) := by
  have hmem : ∀ (l : List (String × List Source)) (d : Sources),
      (∀ e ∈ l, e.2 ≠ []) → (∀ name, d.contains name = true → d.getD name [] ≠ []) →
        let r := l.foldl (fun d p => d.insert p.1 p.2) d
        (∀ name, r.contains name = true → r.getD name [] ≠ []) ∧
          ∀ name, (d.contains name = true ∨ name ∈ l.map Prod.fst) → r.contains name = true := by
    intro l
    induction l with
    | nil => exact fun d _ hd => ⟨hd, by simp⟩
    | cons e l ih =>
      intro d hl hd
      obtain ⟨he, hl⟩ := List.forall_mem_cons.mp hl
      obtain ⟨h₁, h₂⟩ := ih (d.insert e.1 e.2) hl (by
        intro name
        rw [Dict.contains, Dict.getD, Dict.get?_insert]
        split_ifs
        · exact fun _ => he
        · exact hd name)
      refine ⟨h₁, fun name hname => h₂ name ?_⟩
      rw [List.map_cons, List.mem_cons] at hname
      by_cases hk : e.1 = name
      · exact .inl (by simp [Dict.contains, hk])
      · rcases hname with hname | hname | hname
        · exact .inl (by simpa [Dict.contains, Dict.get?_insert, hk] using hname)
        · exact absurd hname.symm hk
        · exact .inr hname
  obtain ⟨h₁, h₂⟩ := hmem (outs.map (fun p => (p.name, [⟨.nodePort levelScope node p.name, p⟩]))) .empty
    (by simp) (by simp [Dict.contains])
  intro p hp _
  exact h₁ p.name (h₂ p.name (.inr (List.mem_map.mpr ⟨_, List.mem_map.mpr ⟨p, hp, rfl⟩, rfl⟩)))

theorem compileRef_complete {w : World δ} {rec : Seat → Compile δ Sources} {a : Seat} {ref : Ref}
    {log : List (Emitted δ)} {o : Sources} (h : Clean (compileRef w rec a ref) log o)
    {stored : StoredVersion}
    (hs : selectVersion w.snapshot ref a.scope w.resolutionLock = some stored) :
    Complete stored.definition.outputs o := by
  obtain ⟨_, _, _, hr, h₁, -⟩ := clean_bind.mp h
  obtain ⟨-, stored', rfl, hs'⟩ := resolveRef_clean hr
  obtain rfl : stored = stored' := Option.some.inj (hs.symm.trans hs')
  obtain ⟨_, _, _, -, h₂, -⟩ := clean_bind.mp h₁
  obtain ⟨_, _, _, -, h₃, -⟩ := clean_bind.mp h₂
  obtain ⟨_, _, _, -, h₄, -⟩ := clean_bind.mp h₃
  cases hbody : stored.definition.body with
  | python p =>
    simp only [hbody] at h₄
    rw [(registerAtomic_clean h₄).2.2.2.2]
    exact atomicOutputs_complete _ _ _
  | graph g =>
    simp only [hbody] at h₄
    rw [compileComposite] at h₄
    split at h₄
    next => exact absurd h₄ clean_fault_bind
    next hlie =>
      exact (compileGraphWith_complete h₄).of_norm
        (norm_of_sameBoundary (sameBoundary_of_boundaryLie hbody hlie))

/-! ## Nodes -/

/-- The order of the feedback keys of a body: its own, and those of its parts in the
order they are declared. -/
inductive Outline where
  | mk (keys : List String) (parts : List Outline)

mutual

def Body.feedbackOutline : Body → Outline
  | .ref _ => .mk [] []
  | .graph g => .mk [] (outlineGraph g)
  | .loop ⟨.inl _, feedback, _, _⟩ => .mk feedback.keys []
  | .loop ⟨.inr g, feedback, _, _⟩ => .mk feedback.keys (outlineGraph g)

def outlineGraph : GraphOf Body → List Outline
  | ⟨_, nodes, _, _, _⟩ => outlineNodes nodes

def outlineNodes : List (NodeOf Body) → List Outline
  | [] => []
  | ⟨_, body⟩ :: nodes => body.feedbackOutline :: outlineNodes nodes

end

theorem outlineGraph_eq_map (g : Graph) :
    outlineGraph g = g.nodes.map (fun n => n.body.feedbackOutline) := by
  have hnodes : ∀ nodes : List GraphNode,
      outlineNodes nodes = nodes.map (fun n => n.body.feedbackOutline) := by
    intro nodes
    induction nodes with
    | nil => rfl
    | cons n nodes ih =>
      obtain ⟨id, body⟩ := n
      rw [outlineNodes, ih]
      rfl
  obtain ⟨name, nodes, connections, inputs, outputs⟩ := g
  rw [outlineGraph, hnodes]

theorem outlineGraph_eq_iff {g g' : Graph} (h : GraphAlike g g') :
    outlineGraph g = outlineGraph g' ↔
      ∀ p ∈ nodePairs g g', p.1.body.feedbackOutline = p.2.body.feedbackOutline := by
  have hlen : g.nodes.length = g'.nodes.length := by
    simpa [nodeIds] using congrArg List.length h.ids
  rw [outlineGraph_eq_map, outlineGraph_eq_map]
  constructor
  · exact fun he p hp => map_eq_zip he p hp
  · exact fun he => map_of_zip hlen he

theorem eq_of_mem_zip_self {α : Type} {l : List α} {p : α × α} (h : p ∈ l.zip l) : p.1 = p.2 := by
  induction l with
  | nil => simp at h
  | cons a l ih =>
    rw [List.zip_cons_cons, List.mem_cons] at h
    rcases h with rfl | h
    · rfl
    · exact ih h

theorem retag_alike (inputs : List Port) {bound bound' : Sources} (h : OutputsAlike bound bound') :
    OutputsAlike (retag inputs bound) (retag inputs bound') := by
  have hbare : ∀ bound : Sources, bareSources (retag inputs bound) =
      ⟨(bareSources bound).entries.map (fun e => (e.1, e.2.map (fun s =>
        ⟨s.address, (((portsByName inputs).get? e.1).getD s.port).bare⟩)))⟩ := by
    intro bound
    simp only [bareSources, retag, Dict.mapValues, List.map_map]
    congr 2
    funext e
    simp only [Function.comp_apply, List.map_map, Prod.mk.injEq, true_and]
    congr 1
    funext s
    cases (portsByName inputs).get? e.1 <;> rfl
  unfold OutputsAlike
  rw [hbare bound, hbare bound', h]

section Nodes

variable {R : LogRel δ} {w w' : World δ}

def NodesAlike (R : LogRel δ) (rec rec' : Seat → Compile δ Sources) : Prop :=
  ∀ b b', SeatAlike b b' → BodyAlike b.node.body b'.node.body →
    Sim (R.Rel (b.node.body.feedbackOutline = b'.node.body.feedbackOutline)) OutputsAlike (rec b) (rec' b')

variable {rec rec' : Seat → Compile δ Sources}

theorem NodesAlike.level (hrec : NodesAlike R rec rec') {g g' : Graph} (hg : GraphAlike g g')
    (hb : ∀ p ∈ nodePairs g g', BodyAlike p.1.body p.2.body) {l l' : Level} (hl : LevelAlike l l') :
    Sim (R.Rel (outlineGraph g = outlineGraph g')) OutputsAlike (compileGraphWith rec g l)
      (compileGraphWith rec' g' l') := by
  refine (compileGraphWith_alike (R := R)
    (I := fun n n' => n.body.feedbackOutline = n'.body.feedbackOutline) hg hl ?_).mono
    (fun _ _ h => LogRel.iff h (outlineGraph_eq_iff hg).symm) fun _ _ => id
  exact fun b b' _ _ hs hm => hrec b b' hs (hb _ hm)

theorem NodesAlike.sameLevel (hrec : NodesAlike R rec rec') (g : Graph) {l l' : Level}
    (hl : LevelAlike l l') :
    Sim (R.Rel True) OutputsAlike (compileGraphWith rec g l) (compileGraphWith rec' g l') := by
  refine (hrec.level (GraphAlike.refl g) (fun p hp => ?_) hl).mono
    (fun _ _ h => LogRel.iff h (by simp)) fun _ _ => id
  rw [eq_of_mem_zip_self hp]
  rfl

theorem compileRef_alike (hrec : NodesAlike R rec rec') (hw : WorldAlike w w') {a a' : Seat}
    (ha : SeatAlike a a') {r r' : Ref} (hr : RefAlike r r') :
    Sim (R.Rel True) OutputsAlike (compileRef w rec a r) (compileRef w' rec' a' r') := by
  unfold compileRef
  rw [resolveRef_congr hw hr, ha.scope]
  refine Sim.seqSame (Sim.same R _) ?_
  rintro stored _ rfl
  cases stored with
  | none => exact Sim.pure R.nil rfl
  | some stored =>
    have hrecord : recordResolution w stored r a.scope = recordResolution w' stored r' a'.scope := by
      simp only [recordResolution, hw.hashing, hr.version, ha.scope]
    simp only [compileStored]
    rw [ha.grants, hr.grants, ha.scope, ← ha.scope, hrecord, ha.scope]
    refine Sim.seqSame (Sim.same R _) ?_
    rintro grants _ rfl
    refine Sim.seqSame (Sim.same R _) fun _ _ _ => ?_
    refine Quiet.bind (bindNodeInputs_alike ha rfl fun _ => Iff.rfl) fun bound bound' hb => ?_
    cases stored.definition.body with
    | python p =>
      simp only [registerAtomic_congr hw ha _ hb hr]
      exact (Sim.same R _).mono (fun _ _ => id) fun _ _ h => congrArg bareSources h
    | graph g =>
      simp only [compileComposite, hw.hashing, ha.scope]
      cases boundaryLie w'.hashing stored a'.scope with
      | some f => exact Sim.fault
      | none => exact hrec.sameLevel g ⟨rfl, retag_alike _ hb, rfl, ha.loopDepth⟩

theorem compileInline_alike (hrec : NodesAlike R rec rec') {a a' : Seat} (ha : SeatAlike a a')
    {g g' : Graph} (hg : GraphAlike g g') (hb : ∀ p ∈ nodePairs g g', BodyAlike p.1.body p.2.body) :
    Sim (R.Rel (outlineGraph g = outlineGraph g')) OutputsAlike (compileInline rec a g)
      (compileInline rec' a' g') := by
  unfold compileInline
  refine Quiet.bind (bindNodeInputs_alike ha (map_bare_of_norm hg.inputs) fun _ => Iff.rfl)
    fun bound bound' hbound => ?_
  exact hrec.level hg hb ⟨ha.scope, hbound, ha.grants, ha.loopDepth⟩

/-- A way of compiling nodes under which references offer all they must. -/
def RefsComplete (w : World δ) (rec : Seat → Compile δ Sources) : Prop :=
  ∀ {b : Seat} {ref : Ref} {log : List (Emitted δ)} {o : Sources}, b.node.body = .ref ref →
    Clean (rec b) log o → ∀ {stored : StoredVersion},
      selectVersion w.snapshot ref b.scope w.resolutionLock = some stored →
        Complete stored.definition.outputs o

/-- Declared boundaries alike: the same ports up to their schemas. -/
def BoundaryAlike (b b' : Option (List Port × List Port)) : Prop :=
  b.map (fun p => (p.1.map normPort, p.2.map normPort)) =
    b'.map (fun p => (p.1.map normPort, p.2.map normPort))

theorem loopBoundary_alike (hw : WorldAlike w w') {loop loop' : Loop}
    (h : LoopBodyAlike loop.body loop'.body) (bodyScope : ScopePath) :
    Sim (R.Rel True) BoundaryAlike (loopBoundary w loop bodyScope) (loopBoundary w' loop' bodyScope) := by
  obtain ⟨body, feedback, continueFrom, maxIterations⟩ := loop
  obtain ⟨body', feedback', continueFrom', maxIterations'⟩ := loop'
  unfold loopBoundary
  cases body with
  | inl r =>
    cases body' with
    | inr g' => exact h.elim
    | inl r' =>
      dsimp only
      rw [resolveRef_congr hw h, hw.hashing]
      exact (Sim.same R _).mono (fun _ _ => id) fun _ _ he => congrArg _ he
  | inr g =>
    cases body' with
    | inl r' => exact h.elim
    | inr g' =>
      refine Sim.pure R.nil ?_
      simp only [BoundaryAlike, Option.map_some, h.1.inputs, h.1.outputs]

theorem bodySeat_alike {a a' : Seat} (ha : SeatAlike a a') {r r' : Ref} (bodyScope : ScopePath)
    {boundary boundary' : Sources} (hb : OutputsAlike boundary boundary') :
    SeatAlike (bodySeat a r bodyScope boundary) (bodySeat a' r' bodyScope boundary') where
  id := rfl
  levelScope := rfl
  pool := allSources_alike hb
  explicit := rfl
  nodeLookup := rfl
  inputSources := hb
  grants := ha.grants
  loopDepth := rfl

theorem compileLoop_alike (hrec : NodesAlike R rec rec') (hcomplete : RefsComplete w rec)
    (hw : WorldAlike w w') {a a' : Seat} (ha : SeatAlike a a') {loop loop' : Loop}
    (h : LoopAlike loop loop') (hbody : ∀ r r', loop.body = .inl r → loop'.body = .inl r' →
      BodyAlike (.ref r) (.ref r')) :
    Sim (R.Rel ((Body.loop loop).feedbackOutline = (Body.loop loop').feedbackOutline)) OutputsAlike
      (compileLoop w rec a loop) (compileLoop w' rec' a' loop') := by
  unfold compileLoop
  rw [← ha.scope]
  refine Sim.seqSame (Sim.clean (loopBoundary_alike (R := R) hw h.body _)) ?_
  rintro b b' ⟨hb, ⟨log, hclean⟩, -⟩
  obtain ⟨-, ins, outs, rfl, hports⟩ := loopBoundary_clean hclean
  cases b' with
  | none => simp [BoundaryAlike] at hb
  | some b' =>
    simp only [BoundaryAlike, Option.map_some, Option.some.injEq, Prod.mk.injEq] at hb
    obtain ⟨body, feedback, continueFrom, maxIterations⟩ := loop
    obtain ⟨body', feedback', continueFrom', maxIterations'⟩ := loop'
    have hinner := h.body
    cases body with
    | inl r =>
      cases body' with
      | inr g' => exact hinner.elim
      | inl r' =>
        refine (compileBounded_alike (P := True) hw.hashing ha h.feedback h.continueFrom h.maxIterations
          hb.1 hb.2 ?_).mono (fun _ _ hl => LogRel.iff hl ?_) fun _ _ => id
        · intro log log' bound bound' _ _ hbound
          obtain ⟨stored, hsel, -, rfl⟩ := hports
          have hseeds := (loopSeeds_alike (a.scope.child loopBodySegment) (map_bare_of_norm hb.1) hbound).2
          have hseat : SeatAlike (bodySeat a r (a.scope.child loopBodySegment) _)
              (bodySeat a' r' (a.scope.child loopBodySegment) _) := bodySeat_alike ha _ hseeds
          have hsim := hrec _ _ hseat (hbody r r' rfl rfl)
          rw [← ha.scope, boundaryOf, boundaryOf, ← ha.scope]
          refine (Sim.clean hsim).mono (fun _ _ hl => LogRel.iff hl ?_) ?_
          · simp [bodySeat, Body.feedbackOutline]
          · rintro o o' ⟨ho, ⟨_, hc⟩, -⟩
            exact ⟨ho, hcomplete rfl hc hsel⟩
        · simp [Body.feedbackOutline]
    | inr g =>
      cases body' with
      | inl r' => exact hinner.elim
      | inr g' =>
        refine (compileBounded_alike (P := outlineGraph g = outlineGraph g') hw.hashing ha h.feedback
          h.continueFrom h.maxIterations hb.1 hb.2 ?_).mono (fun _ _ hl => LogRel.iff hl ?_) fun _ _ => id
        · intro log log' bound bound' _ _ hbound
          obtain ⟨-, rfl⟩ := hports
          have hseeds := (loopSeeds_alike (a.scope.child loopBodySegment) (map_bare_of_norm hb.1) hbound).2
          rw [← ha.scope, boundaryOf, boundaryOf, ← ha.scope]
          have hlevel : LevelAlike
              ⟨a.scope.child loopBodySegment, _, a.grants, 1, a.location.child [.inl "body"]⟩
              ⟨a.scope.child loopBodySegment, _, a'.grants, 1, a'.location.child [.inl "body"]⟩ :=
            ⟨rfl, hseeds, ha.grants, rfl⟩
          refine (Sim.clean (hrec.level h.body.1 h.body.2 hlevel)).mono (fun _ _ => id) ?_
          rintro o o' ⟨ho, ⟨_, hc⟩, -⟩
          exact ⟨ho, compileGraphWith_complete hc⟩
        · simp only [Body.feedbackOutline, Outline.mk.injEq]
          exact and_comm

theorem compileNode_refsComplete (w : World δ) (depth : ℕ) : RefsComplete w (compileNode w depth) := by
  intro b ref log o hb hc stored hs
  cases depth with
  | zero => exact absurd hc not_clean_raise
  | succ depth =>
    rw [compileNode, compileNodeWith] at hc
    simp only [hb] at hc
    exact compileRef_complete hc hs

theorem compileNode_alike (R : LogRel δ) (hw : WorldAlike w w') (depth : ℕ) :
    NodesAlike R (compileNode w depth) (compileNode w' depth) := by
  induction depth with
  | zero => exact fun _ _ _ _ _ _ h => absurd h not_clean_raise
  | succ depth ih =>
    intro b b' hs hb
    have hshape := hb.shape
    rw [compileNode, compileNode, compileNodeWith, compileNodeWith]
    generalize b.node.body = body at hb hshape
    generalize b'.node.body = body' at hb hshape
    cases hshape with
    | ref hr =>
      exact (compileRef_alike ih hw hs hr).mono
        (fun _ _ h => LogRel.iff h (by simp [Body.feedbackOutline])) fun _ _ => id
    | graph hg hbodies =>
      exact (compileInline_alike ih hs hg hbodies).mono
        (fun _ _ h => LogRel.iff h (by simp [Body.feedbackOutline])) fun _ _ => id
    | @loop l l' hl =>
      simp only [hs.loopDepth]
      split_ifs
      · exact Sim.fault
      · refine compileLoop_alike ih (compileNode_refsComplete w depth) hw hs hl ?_
        intro r r' hr hr'
        rw [BodyAlike, Body.dump_loop, Body.dump_loop] at hb
        have he := Json.entries_of_canonical (by rfl) hb
        simp only [List.map_cons, List.cons.injEq, Prod.mk.injEq, hr, hr'] at he
        exact he.1.2

end Nodes

end Constructicon
