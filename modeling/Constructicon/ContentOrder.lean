import Constructicon.NodeCongruence
import Constructicon.Closedness

/-!
# Admission and the order of keys

Graphs of one canonical form are admitted together, and their manifests have one hash
exactly when their feedback dictionaries were written in one order: every other
dictionary the compiler iterates is sorted first, the feedback of a loop is not.
-/

namespace Constructicon

variable {δ : Type}

/-! ## Whole admissions -/

theorem rootLevel_alike (adm : Admission δ) {g g' : Graph} (hg : GraphAlike g g') :
    LevelAlike (rootLevel adm g) (rootLevel adm g') where
  scope := by rw [rootLevel, rootLevel, hg.name]
  inputSources := by
    have hbare : ∀ g : Graph, bareSources (rootLevel adm g).inputSources =
        Dict.ofList (((g.inputs.map Port.bare).filter (fun p => adm.inputs.contains p.name)).map
          (fun p => (p.name, [⟨.graphInput [g.name] p.name, p⟩]))) := by
      intro g
      rw [rootLevel, bareSources, Dict.mapValues_ofList, List.map_map, List.filter_map, List.map_map]
      rfl
    unfold OutputsAlike
    rw [hbare g, hbare g', map_bare_of_norm hg.inputs, hg.name]
  grants := rfl
  loopDepth := rfl

theorem inputFaults_alike {g g' : Graph} (hi : g.inputs.map Port.bare = g'.inputs.map Port.bare)
    (inputs : Dict String Json) : inputFaults g inputs = inputFaults g' inputs := by
  have hreq : ∀ ports : List Port, (ports.filter (fun p => p.cardinality ≠ .optional)).map Port.name =
      ((ports.map Port.bare).filter (fun p => p.cardinality ≠ .optional)).map Port.name := by
    intro ports
    rw [List.filter_map, List.map_map]
    rfl
  simp only [inputFaults, map_name_of_bare hi, hreq g.inputs, hreq g'.inputs, hi]

theorem outputBindings_alike {g g' : Graph} (hg : GraphAlike g g') {o o' : Sources}
    (ho : OutputsAlike o o') : outputBindings g o = outputBindings g' o' := by
  have hnames : ∀ (g : Graph) (o : Sources), outputBindings g o =
      (g.outputs.map Port.name).filterMap (fun name =>
        if (bareSources o).getD name [] = [] then none
        else some ⟨.graphOutput [g.name] name, ((bareSources o).getD name []).map Source.address⟩) := by
    intro g o
    rw [outputBindings, List.filterMap_map]
    congr 1
    funext port
    have hget : (bareSources o).getD port.name [] = (o.getD port.name []).map Source.bare :=
      Dict.getD_mapValues (List.map Source.bare) o port.name []
    rw [Function.comp_apply, hget]
    cases o.getD port.name [] <;> simp [Source.bare, Function.comp_def]
  rw [hnames g o, hnames g' o', ho, map_name_of_bare (map_bare_of_norm hg.outputs), hg.name]

theorem admitCompile_alike {R : LogRel δ} {adm : Admission δ} {depth : ℕ} {g g' : Graph} {P : Prop}
    (hg : GraphAlike g g')
    (hpins : ∀ {P : Prop} {l l' : List (Emitted δ)}, R.Rel P l l' →
      unusedPinFaults adm.resolutionLock (pinsOf l) = [] →
        unusedPinFaults adm.resolutionLock (pinsOf l') = [])
    (h : Sim (R.Rel P) OutputsAlike (compileGraph (adm.world g) depth g (rootLevel adm g))
      (compileGraph (adm.world g') depth g' (rootLevel adm g'))) :
    Sim (R.Rel P) (fun _ _ => True) (admitCompile adm depth g) (admitCompile adm depth g') := by
  have hin := map_bare_of_norm hg.inputs
  have hout := map_bare_of_norm hg.outputs
  unfold admitCompile
  refine Quiet.bind (Quiet.validateUniquePorts (map_name_of_bare hin)) fun _ _ _ => ?_
  refine Quiet.bind (Quiet.validateUniquePorts (map_name_of_bare hout)) fun _ _ _ => ?_
  refine Quiet.bind (Quiet.emitFaults fun hf => inputFaults_alike hin adm.inputs ▸ hf) fun _ _ _ => ?_
  have htail : ∀ r r' : Sources × List (Emitted δ), (OutputsAlike r.1 r'.1 ∧ R.Rel P r.2 r'.2) →
      Sim (R.Rel True) (fun _ _ => True)
        (do Emit.tellAll ((outputBindings g r.1).map .binding)
            emitFaults (unusedPinFaults adm.resolutionLock (pinsOf r.2)))
        (do Emit.tellAll ((outputBindings g' r'.1).map .binding)
            emitFaults (unusedPinFaults adm.resolutionLock (pinsOf r'.2))) := by
    rintro r r' ⟨ho, hl⟩
    rw [outputBindings_alike hg ho]
    refine Sim.seqSame (Sim.same R _) fun _ _ _ => ?_
    refine (Quiet.emitFaults (hpins hl)).mono ?_ fun _ _ => id
    rintro _ _ ⟨rfl, rfl⟩
    exact R.nil
  exact (Sim.seq (Sim.listen h) htail).mono (fun _ _ hl => LogRel.iff hl (by simp)) fun _ _ => id

/-! ## Logs of one content -/

theorem PortAddress.eq_of_canonical {p q : PortAddress} (h : p.dump.canonical = q.dump.canonical) :
    p = q := by
  have hscope : ∀ {s t : ScopePath}, (ScopePath.dump s).canonical = (ScopePath.dump t).canonical →
      s = t := by
    intro s t hst
    have he := Json.entries_of_canonical (by rfl) hst
    simp only [List.map_cons, List.map_nil, List.cons.injEq, Prod.mk.injEq, Json.canonical_strs,
      true_and, and_true] at he
    exact Json.strs_injective he
  cases p <;> cases q
  case graphInput.graphInput | graphOutput.graphOutput =>
    have he := Json.entries_of_canonical (by rfl) h
    simp only [List.map_cons, List.map_nil, List.cons.injEq, Prod.mk.injEq, Json.canonical_str,
      Json.str.injEq, true_and, and_true] at he
    rw [hscope he.1, he.2]
  case nodePort.nodePort =>
    have he := Json.entries_of_canonical (by rfl) h
    simp only [List.map_cons, List.map_nil, List.cons.injEq, Prod.mk.injEq, Json.canonical_str,
      Json.str.injEq, true_and, and_true] at he
    rw [hscope he.1, he.2.1, he.2.2]
  case graphInput.graphOutput | graphOutput.graphInput =>
    have he := Json.entries_of_canonical (by rfl) h
    simp at he
  case nodePort.graphInput | nodePort.graphOutput =>
    have hk := Json.mem_keysOf_of_canonical (k := "node") h (by simp [PortAddress.dump, Json.keysOf])
    simp [PortAddress.dump, Json.keysOf] at hk
  case graphInput.nodePort | graphOutput.nodePort =>
    have hk := Json.mem_keysOf_of_canonical (k := "node") h.symm
      (by simp [PortAddress.dump, Json.keysOf])
    simp [PortAddress.dump, Json.keysOf] at hk

theorem ResolvedPortBinding.eq_of_canonical {b b' : ResolvedPortBinding}
    (h : b.dump.canonical = b'.dump.canonical) : b = b' := by
  have he := Json.entries_of_canonical (by rfl) h
  simp only [List.map_cons, List.map_nil, List.cons.injEq, Prod.mk.injEq, Json.canonical_arr,
    Json.arr.injEq, List.map_map, true_and, and_true] at he
  obtain ⟨hd, hs⟩ := he
  have hinj : Function.Injective (Json.canonical ∘ PortAddress.dump) :=
    fun _ _ => PortAddress.eq_of_canonical
  have hsources := List.map_injective_iff.mpr hinj hs
  cases b
  cases b'
  simp only at hd hsources
  rw [PortAddress.eq_of_canonical hd, hsources]

theorem LoopExport.canonical_dump (e : LoopExport) :
    e.dump.canonical = .obj (Json.sortKeys [("port", (normExport e).1),
      ("destination", (normExport e).2.1.dump.canonical),
      ("sources", (Json.arr ((normExport e).2.2.map PortAddress.dump)).canonical)]) := by
  rw [LoopExport.dump, Json.canonical_obj]
  rfl

theorem LoopProgramAlike.dump_iff {r r' : LoopResolution} (h : LoopProgramAlike r r') :
    r.dump.canonical = r'.dump.canonical ↔ r.feedbackBindings = r'.feedbackBindings := by
  constructor
  · intro hd
    have he := Json.entries_of_canonical (by rfl) hd
    simp only [List.map_cons, List.map_nil, List.cons.injEq, Prod.mk.injEq, Json.canonical_arr,
      Json.arr.injEq, List.map_map, true_and, and_true] at he
    have hinj : Function.Injective (Json.canonical ∘ ResolvedPortBinding.dump) :=
      fun _ _ => ResolvedPortBinding.eq_of_canonical
    exact List.map_injective_iff.mpr hinj he.2.2.2.2.2.1
  · intro hf
    have hports : (Json.arr (r.inputPorts.map Port.dump)).canonical =
        (Json.arr (r'.inputPorts.map Port.dump)).canonical := by
      rw [Json.canonical_arr, Json.canonical_arr, List.map_map, List.map_map]
      exact congrArg Json.arr h.inputPorts
    have hexports : (Json.arr (r.exports.map LoopExport.dump)).canonical =
        (Json.arr (r'.exports.map LoopExport.dump)).canonical := by
      have hmap : ∀ es : List LoopExport, (es.map LoopExport.dump).map Json.canonical =
          (es.map normExport).map (fun e => .obj (Json.sortKeys [("port", e.1),
            ("destination", e.2.1.dump.canonical),
            ("sources", (Json.arr (e.2.2.map PortAddress.dump)).canonical)])) := by
        intro es
        rw [List.map_map, List.map_map]
        exact List.map_congr_left fun e _ => LoopExport.canonical_dump e
      rw [Json.canonical_arr, Json.canonical_arr, hmap, hmap, h.exports]
    rw [LoopResolution.dump, LoopResolution.dump, Json.canonical_obj, Json.canonical_obj]
    simp only [List.map_cons, List.map_nil, h.scope, h.bodyScope, h.maxIterations, hports,
      h.initialBindings, hf, h.continueSource, hexports, h.memberOrder]

def loopDumps (log : List (Emitted δ)) : List Json :=
  (loopsOf log).map (fun r => r.dump.canonical)

/-- Logs of one content: the same entries, but for the order of feedback bindings; `P`
says when even those agree. -/
structure SameContent (P : Prop) (l l' : List (Emitted δ)) : Prop where
  resolutions : resolutionsOf l = resolutionsOf l'
  bindings : bindingsOf l = bindingsOf l'
  capabilities : capabilitiesOf l = capabilitiesOf l'
  atomics : atomicsOf l = atomicsOf l'
  pins : pinsOf l = pinsOf l'
  loops : (loopsOf l).length = (loopsOf l').length
  exact_iff : loopDumps l = loopDumps l' ↔ P

theorem SameContent.append {P Q : Prop} {l l' m m' : List (Emitted δ)} (h : SameContent P l l')
    (h' : SameContent Q m m') : SameContent (P ∧ Q) (l ++ m) (l' ++ m') where
  resolutions := by simp [h.resolutions, h'.resolutions]
  bindings := by simp [h.bindings, h'.bindings]
  capabilities := by simp [h.capabilities, h'.capabilities]
  atomics := by simp [h.atomics, h'.atomics]
  pins := by simp [h.pins, h'.pins]
  loops := by simp [h.loops, h'.loops]
  exact_iff := by
    have happ : ∀ l m : List (Emitted δ), loopDumps (l ++ m) = loopDumps l ++ loopDumps m := by
      intro l m
      simp [loopDumps]
    have hlen : (loopDumps l).length = (loopDumps l').length := by simp [loopDumps, h.loops]
    rw [happ, happ, ← h.exact_iff, ← h'.exact_iff]
    constructor
    · exact fun he => List.append_inj he hlen
    · rintro ⟨h₁, h₂⟩
      rw [h₁, h₂]

def contentRel (δ : Type) : LogRel δ where
  Rel := SameContent
  nil := ⟨rfl, rfl, rfl, rfl, rfl, rfl, by simp⟩
  append := SameContent.append
  entry := fun e => ⟨rfl, rfl, rfl, rfl, rfl, rfl, by simp⟩
  loop := fun h => ⟨rfl, rfl, rfl, rfl, rfl, rfl, by
    rw [← h.dump_iff]
    simp [loopDumps, loopsOf, Emitted.loop?]⟩
  atomics := SameContent.atomics

/-! ## The hash of a manifest -/

theorem manifestIdentityPayload_of_loops (h : Hashing δ) {m : ExecutionManifest δ}
    (hv : 2 ≤ m.schemaVersion) : manifestIdentityPayload h m =
      .obj [("schema_version", .int m.schemaVersion),
        ("source_graph_hash", digestJson h m.sourceGraphHash), ("world_hash", digestJson h m.worldHash),
        ("input_hash", digestJson h m.inputHash),
        ("resolved_components", .arr (m.resolvedComponents.map (ComponentResolution.dump h))),
        ("resolved_connections", .arr (m.resolvedConnections.map ResolvedPortBinding.dump)),
        ("capability_bindings", .arr (m.capabilityBindings.map CapabilityBinding.dump)),
        ("resolved_loops", .arr (m.resolvedLoops.map LoopResolution.dump))] := by
  rw [manifestIdentityPayload, if_pos hv]
  rfl

theorem SameContent.manifestHash_iff {P : Prop} {l l' : List (Emitted δ)} (h : SameContent P l l')
    {adm : Admission δ} (hfree : adm.hashing.CollisionFree) {g g' : Graph}
    (hsource : sourceGraphHashFor adm.hashing g = sourceGraphHashFor adm.hashing g') :
    (sealManifest adm g l).manifestHash = (sealManifest adm g' l').manifestHash ↔ P := by
  have hversion : ∀ (g : Graph) (l : List (Emitted δ)), 2 ≤ (sealManifest adm g l).schemaVersion := by
    intro g l
    simp only [sealManifest]
    split_ifs
    · decide
    · decide
  have hhash : ∀ (g : Graph) (l : List (Emitted δ)), (sealManifest adm g l).manifestHash =
      adm.hashing.hash "manifest" (sealManifest adm g l).schemaVersion
        (manifestIdentityPayload adm.hashing (sealManifest adm g l)).canonical := fun _ _ => rfl
  have hschema : (sealManifest adm g l).schemaVersion = (sealManifest adm g' l').schemaVersion := by
    simp only [sealManifest, h.capabilities]
  have hloops : ∀ l : List (Emitted δ),
      (Json.arr ((loopsOf l).map LoopResolution.dump)).canonical = .arr (loopDumps l) := by
    intro l
    rw [Json.canonical_arr, List.map_map]
    rfl
  rw [← h.exact_iff, hhash, hhash, hschema, manifestIdentityPayload_of_loops _ (hversion g l),
    manifestIdentityPayload_of_loops _ (hversion g' l')]
  constructor
  · intro he
    have hp := Json.entries_of_canonical (by rfl) (hfree _ _ _ _ he)
    simp only [List.map_cons, List.map_nil, List.cons.injEq, Prod.mk.injEq, true_and, and_true] at hp
    have hl := hp.2.2.2.2.2.2.2
    rw [sealManifest_resolvedLoops, sealManifest_resolvedLoops, hloops, hloops] at hl
    exact Json.arr.inj hl
  · intro hd
    congr 1
    rw [Json.canonical_obj, Json.canonical_obj]
    simp only [List.map_cons, List.map_nil, sealManifest_resolvedLoops, hloops, hd,
      sealManifest_resolvedComponents, h.resolutions, sealManifest_resolvedConnections, h.bindings,
      hschema]
    simp only [sealManifest, hsource, h.resolutions, h.capabilities]

/-! ## Canonically equal graphs -/

theorem sourceGraphHash_of_canonical (h : Hashing δ) {g g' : Graph}
    (hc : g.dump.canonical = g'.dump.canonical) : sourceGraphHashFor h g = sourceGraphHashFor h g' := by
  rw [sourceGraphHashFor, sourceGraphHashFor, Hashing.digest, Hashing.digest, hc]

theorem admitCompile_content {adm : Admission δ} {g g' : Graph}
    (hc : g.dump.canonical = g'.dump.canonical) (depth : ℕ) :
    Sim (SameContent (outlineGraph g = outlineGraph g')) (fun _ _ => True) (admitCompile adm depth g)
      (admitCompile adm depth g') := by
  obtain ⟨hg, hb⟩ := graphAlike_of_canonical hc
  have hworld : adm.world g = adm.world g' := by
    rw [Admission.world, Admission.world, sourceGraphHash_of_canonical adm.hashing hc]
  refine admitCompile_alike (R := contentRel δ) hg ?_ ?_
  · intro P l l' hl
    rw [hl.pins]
    exact id
  · rw [hworld]
    exact (compileNode_alike (contentRel δ) (WorldAlike.refl _) depth).level hg hb (rootLevel_alike adm hg)

theorem admitGraph_content {adm : Admission δ} (hfree : adm.hashing.CollisionFree) (depth : ℕ) {g g' : Graph}
    (hc : g.dump.canonical = g'.dump.canonical) {m : ExecutionManifest δ} (hm : admitGraph adm depth g = .ok m) :
    ∃ m', admitGraph adm depth g' = .ok m' ∧ (m.manifestHash = m'.manifestHash ↔ outlineGraph g = outlineGraph g') := by
  obtain ⟨log, hlog, rfl⟩ := clean_of_admit hm
  obtain ⟨log', _, hlog', hsame, -⟩ := admitCompile_content hc depth log () hlog
  exact ⟨_, admit_of_clean hlog', hsame.manifestHash_iff hfree (sourceGraphHash_of_canonical _ hc)⟩

/-- Graphs of one canonical form are admitted together. Their manifests have one hash
exactly when every loop of the one lists its feedback in the order the other does. -/
theorem admit_content_order {adm : Admission δ} (hfree : adm.hashing.CollisionFree) (depth : ℕ)
    {g g' : Graph} (hc : g.dump.canonical = g'.dump.canonical) :
    ((∃ m, admitGraph adm depth g = .ok m) ↔ ∃ m, admitGraph adm depth g' = .ok m) ∧
      ∀ m m', admitGraph adm depth g = .ok m → admitGraph adm depth g' = .ok m' →
        (m.manifestHash = m'.manifestHash ↔ outlineGraph g = outlineGraph g') := by
  refine ⟨⟨?_, ?_⟩, ?_⟩
  · rintro ⟨m, hm⟩
    obtain ⟨m', hm', -⟩ := admitGraph_content hfree depth hc hm
    exact ⟨m', hm'⟩
  · rintro ⟨m, hm⟩
    obtain ⟨m', hm', -⟩ := admitGraph_content hfree depth hc.symm hm
    exact ⟨m', hm'⟩
  · intro m m' hm hm'
    obtain ⟨m'', hm'', hiff⟩ := admitGraph_content hfree depth hc hm
    obtain rfl : m'' = m' := by
      rw [hm'] at hm''
      exact (Except.ok.inj hm'').symm
    exact hiff

namespace Sample

theorem hashing_collisionFree : hashing.CollisionFree := by
  intro d v p q h
  simpa [hashing] using h

def twofold (feedback : Dict String String) : Graph where
  name := "g"
  nodes := [⟨"l", .loop ⟨.inr
    { name := "b"
      nodes := [⟨"s", .ref { component := "step" }⟩]
      inputs := [value "x", value "y"]
      outputs := [value "x", value "y", again] }, feedback, "again", 4⟩⟩]
  inputs := [value "x", value "y"]

def twoValues : Admission (String × ℕ × Json) := admission ⟨[("x", .int 0), ("y", .int 1)]⟩

theorem twofold_canonical :
    (twofold ⟨[("x", "x"), ("y", "y")]⟩).dump.canonical = (twofold ⟨[("y", "y"), ("x", "x")]⟩).dump.canonical := by
  have feedback : (Json.ofDict ⟨[("x", "x"), ("y", "y")]⟩).canonical =
      (Json.ofDict ⟨[("y", "y"), ("x", "x")]⟩).canonical := by decide
  simp only [Graph.dump, twofold, dumpGraph, dumpNodes, Body.dump, Json.canonical_obj, Json.canonical_arr,
    List.map_cons, List.map_nil, feedback]

end Sample

theorem admit_content_order_twofold :
    ((∃ m, admitGraph Sample.twoValues 2 (Sample.twofold ⟨[("x", "x"), ("y", "y")]⟩) = .ok m) ↔
      ∃ m, admitGraph Sample.twoValues 2 (Sample.twofold ⟨[("y", "y"), ("x", "x")]⟩) = .ok m) :=
  (admit_content_order Sample.hashing_collisionFree 2 Sample.twofold_canonical).1

theorem exists_of_isOk {ε α : Type} {x : Except ε α} (h : x.isOk = true) : ∃ a, x = .ok a := by
  cases x with
  | error e => cases h
  | ok a => exact ⟨a, rfl⟩

/-- The same program, its feedback keys serialised in two orders: two identities. -/
theorem feedback_order_changes_hash :
    ∃ m m', (Sample.twofold ⟨[("x", "x"), ("y", "y")]⟩).dump.canonical =
        (Sample.twofold ⟨[("y", "y"), ("x", "x")]⟩).dump.canonical ∧
      admitGraph Sample.twoValues 2 (Sample.twofold ⟨[("x", "x"), ("y", "y")]⟩) = .ok m ∧
      admitGraph Sample.twoValues 2 (Sample.twofold ⟨[("y", "y"), ("x", "x")]⟩) = .ok m' ∧
      m.manifestHash ≠ m'.manifestHash := by
  obtain ⟨m, hm⟩ := exists_of_isOk (x := admitGraph Sample.twoValues 2 (Sample.twofold ⟨[("x", "x"), ("y", "y")]⟩))
    (by decide)
  obtain ⟨m', hm', same⟩ := admitGraph_content Sample.hashing_collisionFree 2 Sample.twofold_canonical hm
  have differ : outlineGraph (Sample.twofold ⟨[("x", "x"), ("y", "y")]⟩) ≠
      outlineGraph (Sample.twofold ⟨[("y", "y"), ("x", "x")]⟩) := by
    simp [outlineGraph, outlineNodes, Body.feedbackOutline, Sample.twofold, Dict.keys]
  exact ⟨m, m', Sample.twofold_canonical, hm, hm', fun h => differ (same.mp h)⟩

end Constructicon
