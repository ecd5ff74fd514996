import Constructicon.CompileRules
import Constructicon.GraphCycles
import Constructicon.Library.Preceded

/-!
# The upstream closure and the node order

`_upstream_closure` visits the predecessors of a node along paths it remembers, and keeps every
finished list in a memo. On a level without cycles no path meets itself, so what a visit
computes is the same on every path: the transitive predecessors, each after its own.
-/

namespace Constructicon

open Preceded

section

variable {g : Graph}

/-- `a` precedes `b` along one connection or several. -/
abbrev Upstream (g : Graph) : String → String → Prop := Relation.TransGen (LeadsTo g)

theorem getD_fold_edges (edges : List (String × String)) (d : Dict String (List String)) (v : String) :
    (edges.foldl (fun d e => d.insert e.2 (d.getD e.2 [] ++ [e.1])) d).getD v [] =
      d.getD v [] ++ (edges.filter (·.2 = v)).map Prod.fst := by
  induction edges generalizing d with
  | nil => simp
  | cons e edges ih =>
    rw [List.foldl_cons, ih]
    by_cases same : e.2 = v
    · subst same
      simp [Dict.getD]
    · simp [Dict.getD, Dict.get?_insert_ne _ _ same, same]

theorem getD_ofList_nil (ids : List String) (v : String) :
    (Dict.ofList (ids.map (fun id => (id, ([] : List String))))).getD v [] = [] := by
  rw [Dict.getD]
  cases found : (Dict.ofList (ids.map (fun id => (id, ([] : List String))))).get? v with
  | none => rfl
  | some parents =>
    obtain ⟨id, -, same⟩ := List.mem_map.mp (Dict.mem_ofList (Dict.mem_of_get? found))
    exact (congrArg Prod.snd same).symm

theorem mem_directParents {p v : String} :
    p ∈ (directParents (nodeIds g) (connectionEdges g)).getD v [] ↔ LeadsTo g p v := by
  rw [directParents, getD_fold_edges, getD_ofList_nil, List.nil_append]
  simp only [connectionEdges, List.mem_map, List.mem_filter, decide_eq_true_eq]
  constructor
  · rintro ⟨_, ⟨⟨c, mem, rfl⟩, target⟩, source⟩
    exact ⟨c, mem, source, target⟩
  · rintro ⟨c, mem, source, target⟩
    exact ⟨(c.src, c.dst), ⟨⟨c, mem, rfl⟩, target⟩, source⟩

theorem upstream_iff {a b : String} : Upstream g a b ↔ ∃ p, LeadsTo g p b ∧ (a = p ∨ Upstream g a p) := by
  rw [Upstream, Relation.TransGen.tail'_iff]
  constructor
  · rintro ⟨p, path, last⟩
    refine ⟨p, last, ?_⟩
    rcases Relation.reflTransGen_iff_eq_or_transGen.mp path with same | path
    · exact .inl same.symm
    · exact .inr path
  · rintro ⟨p, last, rfl | path⟩
    · exact ⟨a, .refl, last⟩
    · exact ⟨p, path.to_reflTransGen, last⟩

/-! ## One visit -/

structure UpstreamList (g : Graph) (id : String) (ordered : List String) : Prop where
  follows : Follows (Upstream g) ordered
  exact : ∀ a, a ∈ ordered ↔ Upstream g a id

def Memoised (g : Graph) (closure : Dict String (List String)) : Prop :=
  ∀ id ordered, closure.get? id = some ordered → id ∈ nodeIds g ∧ UpstreamList g id ordered

def Remembers (closure closure' : Dict String (List String)) : Prop :=
  ∀ id ordered, closure.get? id = some ordered → closure'.get? id = some ordered

theorem Remembers.refl (closure : Dict String (List String)) : Remembers closure closure := fun _ _ h => h

theorem Remembers.trans {c c' c'' : Dict String (List String)} (h : Remembers c c') (h' : Remembers c' c'') :
    Remembers c c'' := fun id ordered found => h' id ordered (h id ordered found)

structure Visited (g : Graph) (closure : Dict String (List String)) (id : String)
    (r : List String × Dict String (List String)) : Prop where
  list : UpstreamList g id r.1
  memoised : Memoised g r.2
  filed : r.2.get? id = some r.1
  remembers : Remembers closure r.2

def visitParent (direct : Dict String (List String)) (depth : ℕ) (seen : List String) (name : String)
    (acc : List String × Dict String (List String)) (parent : String) : List String × Dict String (List String) :=
  if parent ∈ seen then acc
  else
    let v := visitUpstream direct depth (seen ++ [name]) acc.2 parent
    (addNew (v.1.foldl addNew acc.1) parent, v.2)

theorem visitUpstream_new {direct : Dict String (List String)} {closure : Dict String (List String)} {name : String}
    (depth : ℕ) (seen : List String) (new : closure.get? name = none) :
    visitUpstream direct (depth + 1) seen closure name =
      (((direct.getD name []).foldl (visitParent direct depth seen name) ([], closure)).1,
        ((direct.getD name []).foldl (visitParent direct depth seen name) ([], closure)).2.insert name
          ((direct.getD name []).foldl (visitParent direct depth seen name) ([], closure)).1) := by
  rw [visitUpstream, new]
  rfl

structure Gathered (g : Graph) (acc : List String × Dict String (List String)) (parents : List String)
    (r : List String × Dict String (List String)) : Prop where
  follows : Follows (Upstream g) r.1
  members : ∀ a, a ∈ r.1 ↔ a ∈ acc.1 ∨ ∃ p ∈ parents, a = p ∨ Upstream g a p
  memoised : Memoised g r.2
  remembers : Remembers acc.2 r.2

theorem gathers (step : List String × Dict String (List String) → String → List String × Dict String (List String))
    (parents : List String)
    (visits : ∀ p ∈ parents, ∀ acc, Memoised g acc.2 →
      ∃ v, step acc p = (addNew (v.1.foldl addNew acc.1) p, v.2) ∧ Visited g acc.2 p v)
    (acc : List String × Dict String (List String)) (follows : Follows (Upstream g) acc.1)
    (memoised : Memoised g acc.2) : Gathered g acc parents (parents.foldl step acc) := by
  induction parents generalizing acc with
  | nil => exact ⟨follows, by simp, memoised, .refl _⟩
  | cons p parents ih =>
    obtain ⟨v, turn, visited⟩ := visits p List.mem_cons_self acc memoised
    have merged : Follows (Upstream g) (v.1.foldl addNew acc.1) := follows.foldl_add visited.list.follows
    have known : ∀ a, a ∈ v.1.foldl addNew acc.1 ↔ a ∈ acc.1 ∨ Upstream g a p := by
      intro a
      rw [← visited.list.exact]
      exact mem_foldl_add
    have next : Follows (Upstream g) (step acc p).1 := by
      rw [turn]
      exact merged.add fun a first => (known a).mpr (.inr first)
    have rest := ih (fun q mem => visits q (List.mem_cons_of_mem _ mem)) _ next (by rw [turn]; exact visited.memoised)
    refine ⟨rest.follows, ?_, rest.memoised, ?_⟩
    · intro a
      have here : a ∈ (step acc p).1 ↔ (a ∈ acc.1 ∨ Upstream g a p) ∨ a = p := by
        rw [turn, ← known a]
        exact mem_add
      rw [List.foldl_cons, rest.members, here]
      simp only [List.exists_mem_cons_iff]
      rw [or_assoc (a := a ∈ acc.1), or_comm (a := Upstream g a p), or_assoc]
    · have first : Remembers acc.2 (step acc p).2 := by
        rw [turn]
        exact visited.remembers
      exact first.trans rest.remembers

theorem visit_exact (declared : EndpointsDeclared g) (acyclic : ¬ ∃ v, Upstream g v v) {depth : ℕ}
    {seen : List String} {closure : Dict String (List String)} {name : String} (mem : name ∈ nodeIds g)
    (path : ∀ s ∈ seen, Upstream g name s) (distinct : seen.Nodup) (inside : seen ⊆ nodeIds g)
    (enough : (nodeIds g).length < depth + seen.length) (memoised : Memoised g closure) :
    Visited g closure name (visitUpstream (directParents (nodeIds g) (connectionEdges g)) depth seen closure name) := by
  have fresh : ∀ {name : String} {seen : List String}, (∀ s ∈ seen, Upstream g name s) → name ∉ seen :=
    fun path again => acyclic ⟨_, path _ again⟩
  induction depth generalizing seen closure name with
  | zero =>
    have short := (distinct.subperm inside).length_le
    omega
  | succ depth ih =>
    cases found : closure.get? name with
    | some ordered =>
      have same : visitUpstream (directParents (nodeIds g) (connectionEdges g)) (depth + 1) seen closure name =
          (ordered, closure) := by
        rw [visitUpstream, found]
      rw [same]
      exact ⟨(memoised name ordered found).2, memoised, found, .refl _⟩
    | none =>
      have longer : (seen ++ [name]).Nodup := by
        rw [List.nodup_append_comm]
        exact List.nodup_cons.mpr ⟨fresh path, distinct⟩
      rw [visitUpstream_new depth seen found]
      generalize parents_eq : (directParents (nodeIds g) (connectionEdges g)).getD name [] = parents
      have leads : ∀ p ∈ parents, LeadsTo g p name := fun p h => mem_directParents.mp (parents_eq ▸ h)
      -- no parent closes a cycle with the path
      have ahead : ∀ p ∈ parents, ∀ s ∈ seen ++ [name], Upstream g p s := by
        intro p parent s on
        rcases List.mem_append.mp on with on | on
        · exact .head (leads p parent) (path s on)
        · rw [List.mem_singleton.mp on]
          exact .single (leads p parent)
      have gathered := gathers (visitParent (directParents (nodeIds g) (connectionEdges g)) depth seen name) parents
        (fun p parent acc done => by
          refine ⟨_, if_neg fun on => fresh (ahead p parent) (List.mem_append_left _ on), ?_⟩
          obtain ⟨c, edge, source, -⟩ := leads p parent
          apply ih (source ▸ (declared c edge).1) (ahead p parent) longer
          · exact List.append_subset.mpr ⟨inside, List.cons_subset.mpr ⟨mem, List.nil_subset _⟩⟩
          · rw [List.length_append, List.length_singleton]
            omega
          · exact done)
        ([], closure) .nil memoised
      generalize parents.foldl _ ([], closure) = r at gathered ⊢
      have list : UpstreamList g name r.1 := by
        refine ⟨gathered.follows, fun a => ?_⟩
        rw [gathered.members, upstream_iff]
        constructor
        · rintro (nothing | ⟨p, parent, before⟩)
          · cases nothing
          · exact ⟨p, leads p parent, before⟩
        · rintro ⟨p, parent, before⟩
          exact .inr ⟨p, parents_eq ▸ mem_directParents.mpr parent, before⟩
      refine ⟨list, ?_, Dict.get?_insert_self _ _ _, ?_⟩
      · intro id ordered held
        by_cases same : name = id
        · subst same
          rw [Dict.get?_insert_self] at held
          exact ⟨mem, Option.some.inj held ▸ list⟩
        · rw [Dict.get?_insert_ne _ _ same] at held
          exact gathered.memoised id ordered held
      · intro id ordered held
        have other : name ≠ id := by
          rintro rfl
          rw [found] at held
          cases held
        rw [Dict.get?_insert_ne _ _ other]
        exact gathered.remembers id ordered held

/-! ## The closure and the order -/

theorem upstreamClosure_exact (declared : EndpointsDeclared g) (acyclic : ¬ ∃ v, Upstream g v v) :
    Memoised g (upstreamOf g) ∧ ∀ id ∈ nodeIds g, ∃ ordered, (upstreamOf g).get? id = some ordered := by
  have fold : ∀ ids, ids ⊆ nodeIds g → ∀ closure, Memoised g closure →
      ∃ closure', ids.foldl (fun closure id => (visitUpstream (directParents (nodeIds g) (connectionEdges g))
          ((nodeIds g).length + 2) [] closure id).2) closure = closure' ∧
        Memoised g closure' ∧ Remembers closure closure' ∧ ∀ id ∈ ids, ∃ ordered, closure'.get? id = some ordered := by
    intro ids
    induction ids with
    | nil => exact fun _ closure memoised => ⟨closure, rfl, memoised, .refl _, by simp⟩
    | cons id ids ih =>
      intro inside closure memoised
      have visited : Visited g closure id (visitUpstream (directParents (nodeIds g) (connectionEdges g))
          ((nodeIds g).length + 2) [] closure id) :=
        visit_exact declared acyclic (inside List.mem_cons_self) (by simp) List.nodup_nil (by simp) (by simp) memoised
      obtain ⟨closure', same, kept, remembers, all⟩ := ih (fun _ h => inside (List.mem_cons_of_mem _ h)) _ visited.memoised
      refine ⟨closure', same, kept, visited.remembers.trans remembers, ?_⟩
      intro v mem
      rcases List.mem_cons.mp mem with rfl | mem
      · exact ⟨_, remembers _ _ visited.filed⟩
      · exact all v mem
  obtain ⟨closure, same, memoised, -, all⟩ :=
    fold (nodeIds g) (List.Subset.refl _) .empty (fun _ _ h => by cases h)
  have whole : upstreamOf g = closure := same
  rw [whole]
  exact ⟨memoised, all⟩

theorem getD_upstream (declared : EndpointsDeclared g) (acyclic : ¬ ∃ v, Upstream g v v) {id : String}
    (mem : id ∈ nodeIds g) : UpstreamList g id ((upstreamOf g).getD id []) := by
  obtain ⟨memoised, all⟩ := upstreamClosure_exact declared acyclic
  obtain ⟨ordered, found⟩ := all id mem
  rw [Dict.getD, found]
  exact (memoised id ordered found).2

theorem mem_of_upstream (declared : EndpointsDeclared g) {a b : String} (before : Upstream g a b) : a ∈ nodeIds g := by
  obtain ⟨p, ⟨c, mem, source, -⟩, -⟩ := Relation.TransGen.head'_iff.mp before
  exact source ▸ (declared c mem).1

theorem nodeOrder_ok (distinct : (nodeIds g).Nodup) (declared : EndpointsDeclared g)
    (acyclic : ¬ ∃ v, Upstream g v v) : ∃ order, nodeOrder g.name (nodeIds g) (upstreamOf g) = .ok order := by
  have exact_list : ∀ id ∈ nodeIds g, UpstreamList g id ((upstreamOf g).getD id []) := fun id mem =>
    getD_upstream declared acyclic mem
  have inside : ∀ id ∈ nodeIds g, (upstreamOf g).getD id [] ⊆ nodeIds g := fun id mem a before =>
    mem_of_upstream declared ((exact_list id mem).exact a |>.mp before)
  -- a predecessor has fewer predecessors
  have fewer : ∀ id ∈ nodeIds g, ∀ d ∈ (upstreamOf g).getD id [],
      ((upstreamOf g).getD d []).length < ((upstreamOf g).getD id []).length := by
    intro id mem d before
    have list := exact_list d (inside id mem before)
    have first := ((exact_list id mem).exact d).mp before
    have sub : d :: (upstreamOf g).getD d [] ⊆ (upstreamOf g).getD id [] := by
      apply List.cons_subset.mpr
      refine ⟨before, fun a earlier => ?_⟩
      exact ((exact_list id mem).exact a).mpr (((list.exact a).mp earlier).trans first)
    have nodup : (d :: (upstreamOf g).getD d []).Nodup := by
      apply List.nodup_cons.mpr
      exact ⟨fun loop => acyclic ⟨d, (list.exact d).mp loop⟩, list.follows.nodup⟩
    exact (nodup.subperm sub).length_le
  have bounded : ∀ id ∈ nodeIds g, ((upstreamOf g).getD id []).length ≤ (nodeIds g).length := fun id mem =>
    ((exact_list id mem).follows.nodup.subperm (inside id mem)).length_le
  have placed : ∃ order, Place.placeAll (fun name => decide (name ∈ nodeIds g))
      (fun name => (upstreamOf g).getD name []) ((nodeIds g).length + 2) (nodeIds g) = .ok order := by
    apply Place.placeAll_ok
    · exact fun id known d before => decide_eq_true (inside id (of_decide_eq_true known) before)
    · exact fun id known d before => fewer id (of_decide_eq_true known) d before
    · intro id mem
      have short := bounded id mem
      exact ⟨decide_eq_true mem, by omega⟩
  obtain ⟨order, placed⟩ := placed
  refine ⟨order, ?_⟩
  rw [nodeOrder, if_neg (not_not.mpr distinct), placed]

theorem orderedNodes_cases {scope : ScopePath} {location : GraphLocation} (declared : EndpointsDeclared g)
    (searched : cycleFaults g scope location = []) :
    ((nodeIds g).Nodup ∧ ∃ ordered, orderedNodes g (upstreamOf g) = .ok ordered) ∨
      (¬(nodeIds g).Nodup ∧ orderedNodes g (upstreamOf g) = .error (.admissionError [.duplicateNodeIds g.name])) := by
  have acyclic : ¬ ∃ v, Upstream g v v := by
    rw [← @cycleFaults_ne_nil g scope location declared, not_not]
    exact searched
  by_cases distinct : (nodeIds g).Nodup
  · obtain ⟨order, placed⟩ := nodeOrder_ok distinct declared acyclic
    exact .inl ⟨distinct, _, by rw [orderedNodes, placed]; rfl⟩
  · refine .inr ⟨distinct, ?_⟩
    rw [orderedNodes, nodeOrder, if_pos distinct]
    rfl

theorem get?_nodesById (distinct : (nodeIds g).Nodup) {n : GraphNode} (mem : n ∈ g.nodes) :
    (nodesById g).get? n.id = some n := by
  have keys : (g.nodes.map (fun n => (n.id, n))).map Prod.fst = nodeIds g := by
    simp [nodeIds, Function.comp_def]
  have entries : (nodesById g).entries = g.nodes.map (fun n => (n.id, n)) := Dict.ofList_entries (by rwa [keys])
  have row : (n.id, n) ∈ (nodesById g).entries := by
    rw [entries]
    exact List.mem_map.mpr ⟨n, mem, rfl⟩
  exact Dict.get?_of_mem (Dict.nodup_ofList _) row

theorem orderedNodes_after (distinct : (nodeIds g).Nodup) (declared : EndpointsDeclared g)
    (acyclic : ¬ ∃ v, Upstream g v v) {order : List String} {front : List GraphNode} {n : GraphNode}
    {back : List GraphNode} (placed : nodeOrder g.name (nodeIds g) (upstreamOf g) = .ok order)
    (ok : orderedNodes g (upstreamOf g) = .ok (front ++ n :: back)) {a : String} (before : Upstream g a n.id) :
    a ∈ front.map NodeOf.id := by
  have named : ∀ m ∈ front ++ n :: back, m ∈ g.nodes := mem_of_orderedNodes ok
  have different := orderedNodes_nodup ok
  have listed : order.filterMap (nodesById g).get? = front ++ n :: back := by
    rw [orderedNodes, placed] at ok
    exact Except.ok.inj ok
  have node : n ∈ g.nodes := named n (by simp)
  have id : n.id ∈ nodeIds g := List.mem_map.mpr ⟨n, node, rfl⟩
  obtain ⟨closed, all⟩ := nodeOrder_placed placed
  obtain ⟨pre, post, rfl⟩ := List.append_of_mem (all id)
  have earlier : a ∈ pre := closed.closed pre n.id post rfl (((getD_upstream declared acyclic id).exact a).mpr before)
  rw [List.filterMap_append, List.filterMap_cons_some (get?_nodesById distinct node)] at listed
  -- the ids are distinct, so the node is met at one place
  have same : pre.filterMap (nodesById g).get? = front := by
    have once : (front ++ n :: back).Nodup := List.Nodup.of_map _ different
    have others : n ∉ pre.filterMap (nodesById g).get? ∧ n ∉ post.filterMap (nodesById g).get? := by
      rw [← listed, List.nodup_middle, List.nodup_cons, List.mem_append, not_or] at once
      exact once.1
    exact ((List.append_cons_inj_of_notMem others.1 others.2).mp listed).1
  obtain ⟨m, mem, rfl⟩ := List.mem_map.mp (mem_of_upstream declared before)
  rw [← same]
  exact List.mem_map.mpr ⟨m, List.mem_filterMap.mpr ⟨m.id, earlier, get?_nodesById distinct mem⟩, rfl⟩

end

def diamond : Graph where
  name := "diamond"
  nodes := [⟨"join", .ref ⟨"shape/join", none, .empty, none⟩⟩, ⟨"left", .ref ⟨"shape/side", none, .empty, none⟩⟩,
    ⟨"right", .ref ⟨"shape/side", none, .empty, none⟩⟩, ⟨"top", .ref ⟨"shape/top", none, .empty, none⟩⟩]
  connections := [⟨"left", "join", .empty⟩, ⟨"top", "left", .empty⟩, ⟨"right", "join", .empty⟩,
    ⟨"top", "right", .empty⟩, ⟨"top", "left", .empty⟩]

end Constructicon
