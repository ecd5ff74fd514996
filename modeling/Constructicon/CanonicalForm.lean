import Constructicon.Alike

/-!
# Reading a canonical form back

Two objects of one canonical form hold the same entries in another order, and an
object whose keys are written in a fixed order is recovered entry by entry. So equal
canonical graphs are alike node for node: what may differ is the insertion order of
the `bind`, `map` and `feedback` dictionaries and of the objects inside port schemas.
-/

namespace Constructicon

namespace Json

variable {ν μ : Type}

theorem sortKeys_perm (es : List (String × ν)) : (sortKeys es).Perm es :=
  List.perm_insertionSort _ es

theorem filter_sortKeys (es : List (String × ν)) (k : String) :
    (sortKeys es).filter (fun p => p.1 = k) = es.filter (fun p => p.1 = k) := by
  have hpair : (es.filter (fun p => p.1 = k)).Pairwise (fun a b => a.1 ≤ b.1) := by
    rw [List.pairwise_iff_forall_sublist]
    intro a b hab
    have ha : a.1 = k := by simpa using List.of_mem_filter (hab.subset (by simp : a ∈ [a, b]))
    have hb : b.1 = k := by simpa using List.of_mem_filter (hab.subset (by simp : b ∈ [a, b]))
    exact Std.le_of_eq (ha.trans hb.symm)
  have hsub : (es.filter (fun p => p.1 = k)).Sublist (sortKeys es) :=
    List.sublist_insertionSort hpair List.filter_sublist
  have hlen : ((sortKeys es).filter (fun p => p.1 = k)).length =
      (es.filter (fun p => p.1 = k)).length := ((sortKeys_perm es).filter _).length_eq
  have hfilter := hsub.filter (fun p => p.1 = k)
  rw [List.filter_filter] at hfilter
  simp only [Bool.and_self] at hfilter
  exact (hfilter.eq_of_length hlen.symm).symm

theorem eq_of_filter_eq {es es' : List (String × ν)} (hk : es.map Prod.fst = es'.map Prod.fst)
    (h : ∀ k, es.filter (fun p => p.1 = k) = es'.filter (fun p => p.1 = k)) : es = es' := by
  induction es generalizing es' with
  | nil => simpa using hk.symm
  | cons p es ih =>
    cases es' with
    | nil => simp at hk
    | cons q es' =>
      rw [List.map_cons, List.map_cons, List.cons.injEq] at hk
      have hp := h p.1
      rw [List.filter_cons_of_pos (by simp), List.filter_cons_of_pos (by simp [hk.1]),
        List.cons.injEq] at hp
      obtain ⟨rfl, -⟩ := hp
      rw [ih hk.2]
      intro k
      have htail := h k
      by_cases hpk : p.1 = k
      · rw [List.filter_cons_of_pos (by simp [hpk]), List.filter_cons_of_pos (by simp [hpk])] at htail
        exact (List.cons.inj htail).2
      · rwa [List.filter_cons_of_neg (by simp [hpk]), List.filter_cons_of_neg (by simp [hpk])] at htail

theorem eq_of_sortKeys_eq {es es' : List (String × ν)} (hk : es.map Prod.fst = es'.map Prod.fst)
    (h : sortKeys es = sortKeys es') : es = es' := by
  refine eq_of_filter_eq hk fun k => ?_
  rw [← filter_sortKeys es, ← filter_sortKeys es', h]

theorem entries_of_canonical {es es' : List (String × Json)} (hk : es.map Prod.fst = es'.map Prod.fst)
    (h : (obj es).canonical = (obj es').canonical) :
    es.map (fun p => (p.1, p.2.canonical)) = es'.map (fun p => (p.1, p.2.canonical)) := by
  rw [canonical_obj, canonical_obj, obj.injEq] at h
  refine eq_of_sortKeys_eq ?_ h
  simpa [Function.comp_def] using hk

def keysOf : Json → List String
  | .obj es => es.map Prod.fst
  | _ => []

theorem mem_keysOf_of_canonical {j j' : Json} (h : j.canonical = j'.canonical) {k : String}
    (hk : k ∈ j.keysOf) : k ∈ j'.keysOf := by
  cases j with
  | obj es =>
    cases j' with
    | obj es' =>
      rw [canonical_obj, canonical_obj, obj.injEq] at h
      have hp := (sortKeys_perm (es.map (fun p => (p.1, p.2.canonical)))).symm
      rw [h] at hp
      have hkeys := (hp.trans (sortKeys_perm _)).map Prod.fst
      rw [List.map_map, List.map_map] at hkeys
      exact hkeys.subset hk
    | _ => simp [canonical] at h
  | _ => simp [keysOf] at hk

@[simp] theorem canonical_str (s : String) : (str s).canonical = str s := rfl

@[simp] theorem canonical_int (n : ℤ) : (int n).canonical = int n := rfl

@[simp] theorem canonical_null : null.canonical = null := rfl

@[simp] theorem canonical_optStr (s : Option String) : (optStr s).canonical = optStr s := by
  cases s <;> rfl

@[simp] theorem canonical_optNat (n : Option ℕ+) : (optNat n).canonical = optNat n := by
  cases n <;> rfl

@[simp] theorem canonical_strs (l : List String) : (strs l).canonical = strs l := by
  simp [strs, canonical_arr, Function.comp_def]

theorem strs_injective {l l' : List String} (h : strs l = strs l') : l = l' := by
  have hinj : Function.Injective Json.str := fun a b hab => by simpa using hab
  exact List.map_injective_iff.mpr hinj (by simpa [strs] using h)

theorem optStr_injective {s s' : Option String} (h : optStr s = optStr s') : s = s' := by
  cases s <;> cases s' <;> simp_all [optStr]

theorem optNat_injective {n n' : Option ℕ+} (h : optNat n = optNat n') : n = n' := by
  cases n <;> cases n' <;> simp_all [optNat]

theorem sortKeys_of_ofDict {d d' : Dict String String}
    (h : (ofDict d).canonical = (ofDict d').canonical) : sortKeys d.entries = sortKeys d'.entries := by
  have hcanon : ∀ d : Dict String String,
      (ofDict d).canonical = obj ((sortKeys d.entries).map (fun p => (p.1, str p.2))) := by
    intro d
    rw [ofDict, canonical_obj, List.map_map, ← sortKeys_map]
    rfl
  rw [hcanon, hcanon, obj.injEq] at h
  have hinj : Function.Injective (fun p : String × String => (p.1, str p.2)) := by
    rintro ⟨a, b⟩ ⟨c, e⟩ he
    simpa using he
  exact List.map_injective_iff.mpr hinj h

end Json

/-! ## Ports, grants and connections -/

theorem Cardinality.text_injective : Function.Injective Cardinality.text := by
  intro a b
  cases a <;> cases b <;> decide

theorem Posture.text_injective : Function.Injective Posture.text := by
  intro a b
  cases a <;> cases b <;> decide

theorem NetworkRequest.text_injective : Function.Injective NetworkRequest.text := by
  rintro (_ | a) (_ | b)
  · simp
  · cases b <;> decide
  · cases a <;> decide
  · cases a <;> cases b <;> decide

/-- A port up to the order of keys in its schema. -/
def normPort (p : Port) : Json := p.dump.canonical

theorem bare_of_norm {p q : Port} (h : normPort p = normPort q) : p.bare = q.bare := by
  have he := Json.entries_of_canonical (by rfl) h
  simp only [List.map_cons, List.map_nil, List.cons.injEq, Prod.mk.injEq, Json.canonical_str,
    Json.str.injEq, true_and, and_true] at he
  obtain ⟨hname, htype, hschema, -, hcard⟩ := he
  exact Port.bare_eq_iff.mpr ⟨hname, htype, hschema, Cardinality.text_injective hcard⟩

theorem map_bare_of_norm {ports ports' : List Port} (h : ports.map normPort = ports'.map normPort) :
    ports.map Port.bare = ports'.map Port.bare := by
  induction ports generalizing ports' with
  | nil => simpa using h
  | cons p ports ih =>
    cases ports' with
    | nil => simp at h
    | cons q ports' =>
      rw [List.map_cons, List.map_cons, List.cons.injEq] at h
      rw [List.map_cons, List.map_cons, bare_of_norm h.1, ih h.2]

theorem norm_of_sameBoundary {left right : List Port} (h : sameBoundary left right = true) :
    left.map normPort = right.map normPort := by
  rw [sameBoundary, decide_eq_true_eq, Json.canonical_arr, Json.canonical_arr, Json.arr.injEq,
    List.map_map, List.map_map] at h
  exact h

theorem GrantRequest.eq_of_canonical {r r' : GrantRequest}
    (h : r.dump.canonical = r'.dump.canonical) : r = r' := by
  have hlist : ∀ l l' : Option (List String),
      ((l.map Json.strs).getD .null).canonical = ((l'.map Json.strs).getD .null).canonical → l = l' := by
    rintro (_ | l) (_ | l') hl
    · rfl
    · simp [Json.strs, Json.canonical_arr] at hl
    · simp [Json.strs, Json.canonical_arr] at hl
    · exact congrArg some (Json.strs_injective (by simpa using hl))
  have he := Json.entries_of_canonical (by rfl) h
  simp only [List.map_cons, List.map_nil, List.cons.injEq, Prod.mk.injEq, Json.canonical_str,
    Json.canonical_optStr, Json.canonical_optNat, Json.str.injEq, true_and, and_true] at he
  obtain ⟨hposture, hmodel, heffort, htools, henv, hnetwork, htimeout⟩ := he
  have hposture' := Option.map_injective Posture.text_injective (Json.optStr_injective hposture)
  cases r
  cases r'
  simp_all only [GrantRequest.mk.injEq]
  exact ⟨trivial, Json.optStr_injective hmodel, Json.optStr_injective heffort, hlist _ _ htools,
    hlist _ _ henv, NetworkRequest.text_injective hnetwork, Json.optNat_injective htimeout⟩

/-- Two references that differ in the order of their capability bindings only. -/
structure RefAlike (r r' : Ref) : Prop where
  component : r.component = r'.component
  version : r.version = r'.version
  bind : Json.sortKeys r.bind.entries = Json.sortKeys r'.bind.entries
  grants : r.grants = r'.grants

theorem RefAlike.of_canonical {r r' : Ref} (h : r.dump.canonical = r'.dump.canonical) :
    RefAlike r r' := by
  have he := Json.entries_of_canonical (by rfl) h
  simp only [List.map_cons, List.map_nil, List.cons.injEq, Prod.mk.injEq, Json.canonical_str,
    Json.canonical_optStr, Json.str.injEq, true_and, and_true] at he
  obtain ⟨hcomponent, hversion, hbind, hgrants⟩ := he
  refine ⟨hcomponent, Json.optStr_injective hversion, Json.sortKeys_of_ofDict hbind, ?_⟩
  cases hr : r.grants <;> cases hr' : r'.grants
  · rfl
  · simp [hr, hr', GrantRequest.dump, Json.canonical_obj] at hgrants
  · simp [hr, hr', GrantRequest.dump, Json.canonical_obj] at hgrants
  · exact congrArg some (GrantRequest.eq_of_canonical (by simpa [hr, hr'] using hgrants))

def bareConnection (c : Connection) : String × String × List (String × String) :=
  (c.src, c.dst, Json.sortKeys c.map.entries)

theorem bareConnection_of_canonical {c c' : Connection} (h : c.dump.canonical = c'.dump.canonical) :
    bareConnection c = bareConnection c' := by
  have he := Json.entries_of_canonical (by rfl) h
  simp only [List.map_cons, List.map_nil, List.cons.injEq, Prod.mk.injEq, Json.canonical_str,
    Json.str.injEq, true_and, and_true] at he
  obtain ⟨hsrc, hdst, hmap⟩ := he
  rw [bareConnection, bareConnection, hsrc, hdst, Json.sortKeys_of_ofDict hmap]

/-! ## Bodies -/

/-- Two levels with the same names, edges, explicit maps and ports. -/
structure GraphAlike (g g' : Graph) : Prop where
  name : g.name = g'.name
  ids : nodeIds g = nodeIds g'
  connections : g.connections.map bareConnection = g'.connections.map bareConnection
  inputs : g.inputs.map normPort = g'.inputs.map normPort
  outputs : g.outputs.map normPort = g'.outputs.map normPort

theorem GraphAlike.refl (g : Graph) : GraphAlike g g := ⟨rfl, rfl, rfl, rfl, rfl⟩

theorem GraphAlike.symm {g g' : Graph} (h : GraphAlike g g') : GraphAlike g' g :=
  ⟨h.name.symm, h.ids.symm, h.connections.symm, h.inputs.symm, h.outputs.symm⟩

def BodyAlike (b b' : Body) : Prop := b.dump.canonical = b'.dump.canonical

theorem dumpNodes_eq_map (nodes : List GraphNode) :
    dumpNodes nodes = nodes.map (fun n => .obj [("id", .str n.id), ("body", n.body.dump)]) := by
  induction nodes with
  | nil => rfl
  | cons n nodes ih =>
    obtain ⟨id, body⟩ := n
    rw [dumpNodes, ih]
    rfl

abbrev nodePairs (g g' : Graph) : List (GraphNode × GraphNode) := g.nodes.zip g'.nodes

theorem map_eq_zip {α β γ : Type} {f : α → γ} {f' : β → γ} {l : List α} {l' : List β}
    (h : l.map f = l'.map f') : ∀ p ∈ l.zip l', f p.1 = f' p.2 := by
  induction l generalizing l' with
  | nil => simp
  | cons a l ih =>
    cases l' with
    | nil => simp at h
    | cons b l' =>
      rw [List.map_cons, List.map_cons, List.cons.injEq] at h
      intro p hp
      rw [List.zip_cons_cons, List.mem_cons] at hp
      rcases hp with rfl | hp
      · exact h.1
      · exact ih h.2 p hp

theorem map_of_zip {α β γ : Type} {f : α → γ} {f' : β → γ} {l : List α} {l' : List β}
    (hlen : l.length = l'.length) (h : ∀ p ∈ l.zip l', f p.1 = f' p.2) : l.map f = l'.map f' := by
  induction l generalizing l' with
  | nil => simpa using hlen.symm
  | cons a l ih =>
    cases l' with
    | nil => simp at hlen
    | cons b l' =>
      rw [List.zip_cons_cons] at h
      rw [List.map_cons, List.map_cons, h _ List.mem_cons_self,
        ih (by simpa using hlen) fun p hp => h p (List.mem_cons_of_mem _ hp)]

theorem graphAlike_of_canonical {g g' : Graph}
    (h : (dumpGraph g).canonical = (dumpGraph g').canonical) :
    GraphAlike g g' ∧ ∀ p ∈ nodePairs g g', BodyAlike p.1.body p.2.body := by
  obtain ⟨name, nodes, connections, inputs, outputs⟩ := g
  obtain ⟨name', nodes', connections', inputs', outputs'⟩ := g'
  rw [dumpGraph, dumpGraph] at h
  have he := Json.entries_of_canonical (by rfl) h
  simp only [List.map_cons, List.map_nil, List.cons.injEq, Prod.mk.injEq, Json.canonical_str,
    Json.str.injEq, true_and, and_true, Json.canonical_arr, Json.arr.injEq, List.map_map,
    dumpNodes_eq_map] at he
  obtain ⟨hname, hnodes, hconnections, hinputs, houtputs⟩ := he
  have hpairs : ∀ p ∈ nodes.zip nodes', p.1.id = p.2.id ∧ BodyAlike p.1.body p.2.body := by
    intro p hp
    have hnode := map_eq_zip hnodes p hp
    have hnode' := Json.entries_of_canonical (by rfl) hnode
    simp only [List.map_cons, List.map_nil, List.cons.injEq, Prod.mk.injEq, Json.canonical_str,
      Json.str.injEq, true_and, and_true] at hnode'
    exact hnode'
  have hlen : nodes.length = nodes'.length := by simpa using congrArg List.length hnodes
  have hlen' : connections.length = connections'.length := by
    simpa using congrArg List.length hconnections
  refine ⟨⟨hname, map_of_zip hlen fun p hp => (hpairs p hp).1, ?_, hinputs, houtputs⟩,
    fun p hp => (hpairs p hp).2⟩
  exact map_of_zip hlen' fun p hp => bareConnection_of_canonical (map_eq_zip hconnections p hp)

/-- The body of a loop: two references alike, or two graphs of one canonical form. -/
def LoopBodyAlike : Ref ⊕ Graph → Ref ⊕ Graph → Prop
  | .inl r, .inl r' => RefAlike r r'
  | .inr g, .inr g' => GraphAlike g g' ∧ ∀ p ∈ nodePairs g g', BodyAlike p.1.body p.2.body
  | _, _ => False

structure LoopAlike (l l' : Loop) : Prop where
  body : LoopBodyAlike l.body l'.body
  feedback : Json.sortKeys l.feedback.entries = Json.sortKeys l'.feedback.entries
  continueFrom : l.continueFrom = l'.continueFrom
  maxIterations : l.maxIterations = l'.maxIterations

/-- What alike bodies are, one case for each kind of body. -/
inductive BodyShape : Body → Body → Prop where
  | ref {r r' : Ref} (h : RefAlike r r') : BodyShape (.ref r) (.ref r')
  | graph {g g' : Graph} (h : GraphAlike g g')
      (hb : ∀ p ∈ nodePairs g g', BodyAlike p.1.body p.2.body) : BodyShape (.graph g) (.graph g')
  | loop {l l' : Loop} (h : LoopAlike l l') : BodyShape (.loop l) (.loop l')

theorem Body.dump_loop (l : Loop) :
    (Body.loop l).dump = .obj [("body", match l.body with
        | .inl r => r.dump
        | .inr g => dumpGraph g), ("feedback", Json.ofDict l.feedback),
      ("continue_from", .str l.continueFrom), ("max_iterations", .int l.maxIterations)] := by
  obtain ⟨body, feedback, continueFrom, maxIterations⟩ := l
  cases body <;> rfl

/-! The three kinds of body are told apart by their keys. -/

theorem keysOf_ref (r : Ref) : r.dump.keysOf = ["component", "version", "bind", "grants"] := rfl

theorem keysOf_graph (g : Graph) :
    (dumpGraph g).keysOf = ["schema_version", "name", "nodes", "connections", "inputs", "outputs"] := by
  obtain ⟨name, nodes, connections, inputs, outputs⟩ := g
  rw [dumpGraph]
  rfl

theorem keysOf_loop (l : Loop) :
    (Body.loop l).dump.keysOf = ["body", "feedback", "continue_from", "max_iterations"] := by
  rw [Body.dump_loop]
  rfl

theorem ref_ne_graph {r : Ref} {g : Graph} : r.dump.canonical ≠ (dumpGraph g).canonical := by
  intro h
  have hk := Json.mem_keysOf_of_canonical (k := "component") h (by simp [keysOf_ref])
  simp [keysOf_graph] at hk

theorem ref_ne_loop {r : Ref} {l : Loop} : r.dump.canonical ≠ (Body.loop l).dump.canonical := by
  intro h
  have hk := Json.mem_keysOf_of_canonical (k := "component") h (by simp [keysOf_ref])
  simp [keysOf_loop] at hk

theorem graph_ne_loop {g : Graph} {l : Loop} :
    (dumpGraph g).canonical ≠ (Body.loop l).dump.canonical := by
  intro h
  have hk := Json.mem_keysOf_of_canonical (k := "nodes") h (by simp [keysOf_graph])
  simp [keysOf_loop] at hk

theorem loopAlike_of_canonical {l l' : Loop}
    (h : (Body.loop l).dump.canonical = (Body.loop l').dump.canonical) : LoopAlike l l' := by
  rw [Body.dump_loop, Body.dump_loop] at h
  have he := Json.entries_of_canonical (by rfl) h
  simp only [List.map_cons, List.map_nil, List.cons.injEq, Prod.mk.injEq, Json.canonical_str,
    Json.canonical_int, Json.str.injEq, Json.int.injEq, true_and, and_true] at he
  obtain ⟨hbody, hfeedback, hcontinue, hmax⟩ := he
  refine ⟨?_, Json.sortKeys_of_ofDict hfeedback, hcontinue, PNat.eq (by exact_mod_cast hmax)⟩
  cases hl : l.body with
  | inl r =>
    cases hl' : l'.body with
    | inl r' => exact RefAlike.of_canonical (by simpa only [hl, hl'] using hbody)
    | inr g' => exact absurd (by simpa only [hl, hl'] using hbody) (ref_ne_graph (r := r) (g := g'))
  | inr g =>
    cases hl' : l'.body with
    | inl r' =>
      exact absurd (by simpa only [hl, hl'] using hbody.symm) (ref_ne_graph (r := r') (g := g))
    | inr g' => exact graphAlike_of_canonical (by simpa only [hl, hl'] using hbody)

theorem BodyAlike.shape {b b' : Body} (h : BodyAlike b b') : BodyShape b b' := by
  cases b with
  | ref r =>
    cases b' with
    | ref r' => exact .ref (RefAlike.of_canonical h)
    | graph g' => exact absurd h ref_ne_graph
    | loop l' => exact absurd h ref_ne_loop
  | graph g =>
    cases b' with
    | ref r' => exact absurd h.symm ref_ne_graph
    | graph g' =>
      obtain ⟨hg, hb⟩ := graphAlike_of_canonical h
      exact .graph hg hb
    | loop l' => exact absurd h graph_ne_loop
  | loop l =>
    cases b' with
    | ref r' => exact absurd h.symm ref_ne_loop
    | graph g' => exact absurd h.symm graph_ne_loop
    | loop l' => exact .loop (loopAlike_of_canonical h)

end Constructicon
