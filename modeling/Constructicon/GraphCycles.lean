import Constructicon.Validator
import Constructicon.Library.Collect
import Constructicon.Library.DepthFirst

/-!
# Connection cycles of a level

`_reject_cycles` searches a level depth first and refuses it for the edges that lead back to the
stack. Its frames, trail and colours are those of a three-colour search (`Shows`), so it refuses
exactly the cyclic levels, every fault names a closed walk, and without the reported connections
the level has no cycle.
-/

namespace Constructicon

open DepthFirst

/-! ## Edges -/

/-- The edges that leave a node, with the indices of their connections. -/
def edgesFrom (edges : List (String × String)) (v : String) : List (ℕ × String) := (outgoing edges).getD v []

def edgeItems (edges : List (String × String)) : List (String × (ℕ × String)) :=
  edges.zipIdx.map (fun e => (e.1.1, (e.2, e.1.2)))

theorem outgoing_eq (edges : List (String × String)) :
    outgoing edges = Dict.collect (fun filed e => filed ++ [e]) [] (edgeItems edges) := by
  unfold outgoing Dict.collect edgeItems
  rw [List.foldl_map]
  rfl

theorem foldl_append_singleton {α : Type} (start items : List α) :
    items.foldl (fun filed e => filed ++ [e]) start = start ++ items := by
  induction items generalizing start with
  | nil => simp
  | cons e items ih => simp [ih]

theorem edgesFrom_eq (edges : List (String × String)) (v : String) :
    edgesFrom edges v = Dict.itemsOf (edgeItems edges) v := by
  rw [edgesFrom, outgoing_eq, Dict.getD, Dict.get?_collect, foldl_append_singleton]
  split_ifs with known
  · rfl
  · exact (Dict.itemsOf_eq_nil.mpr known).symm

theorem mem_edgesFrom {edges : List (String × String)} {v : String} {e : ℕ × String} :
    e ∈ edgesFrom edges v ↔ edges[e.1]? = some (v, e.2) := by
  obtain ⟨i, w⟩ := e
  simp only [edgesFrom_eq, Dict.itemsOf, edgeItems, List.mem_map, List.mem_filter, decide_eq_true_eq]
  constructor
  · rintro ⟨_, ⟨⟨⟨⟨a, b⟩, j⟩, mem, rfl⟩, rfl⟩, same⟩
    cases same
    exact List.mk_mem_zipIdx_iff_getElem?.mp mem
  · intro found
    exact ⟨_, ⟨⟨((v, w), i), List.mk_mem_zipIdx_iff_getElem?.mpr found, rfl⟩, rfl⟩, rfl⟩

theorem sum_itemsOf {κ α : Type} [DecidableEq κ] (U : Finset κ) (items : List (κ × α)) :
    ∑ k ∈ U, (Dict.itemsOf items k).length ≤ items.length := by
  induction items with
  | nil => simp
  | cons item items ih =>
    have each : ∀ k ∈ U, (Dict.itemsOf (item :: items) k).length =
        (if item.1 = k then 1 else 0) + (Dict.itemsOf items k).length := by
      intro k _
      rw [← List.singleton_append, Dict.itemsOf_append, Dict.itemsOf_singleton, List.length_append]
      split_ifs <;> rfl
    rw [Finset.sum_congr rfl each, Finset.sum_add_distrib, Finset.sum_ite_eq]
    split_ifs <;> simp only [List.length_cons] <;> omega

/-! ## The search of the source -/

section

variable {edges : List (String × String)} {s : CycleSearch} {a : Search String ℕ}

/-- The search state of the source shows the search `a`. -/
structure CycleSearch.Shows (s : CycleSearch) (a : Search String ℕ) : Prop where
  state : s.state.get? = a.colour
  trail : s.trail = a.names.reverse
  frames : s.frames = a.stack.map Prod.snd
  found : s.found = a.found.map (fun r => ⟨r.trail.reverse, r.index, r.target⟩)

theorem get?_insert_eq (d : Dict String Bool) (v : String) (b : Bool) :
    (d.insert v b).get? = Function.update d.get? v (some b) := by
  funext u
  rw [Dict.get?_insert]
  by_cases same : u = v
  · subst same
    simp
  · rw [Function.update_of_ne same, if_neg (Ne.symm same)]

theorem CycleSearch.Shows.step (shows : s.Shows a) (more : s.frames ≠ []) :
    ∃ b, DepthFirst.Turn (edgesFrom edges) a b ∧ (s.step (outgoing edges)).Shows b := by
  obtain ⟨colour, stack, found⟩ := a
  obtain ⟨state, trail, frames, reported⟩ := s
  obtain ⟨same_colour, same_trail, same_frames, same_found⟩ := shows
  dsimp only [Search.names] at same_colour same_trail same_frames same_found more
  subst same_trail same_frames same_found same_colour
  rcases stack with _ | ⟨⟨v, _ | ⟨⟨i, w⟩, pending⟩⟩, rest⟩
  · exact absurd rfl more
  · refine ⟨_, .close rfl, ?_, ?_, rfl, rfl⟩
    · simp [CycleSearch.step, get?_insert_eq, Search.close]
    · simp [CycleSearch.step, Search.close, Search.names]
  · cases look : state.get? w with
    | none =>
      refine ⟨_, .push rfl look, ?_, ?_, ?_, ?_⟩
      · simp [CycleSearch.step, look, get?_insert_eq, Search.enter]
      · simp [CycleSearch.step, look, Search.enter, Search.names]
      · simp [CycleSearch.step, look, Search.enter, edgesFrom]
      · simp [CycleSearch.step, look, Search.enter]
    | some held =>
      cases held with
      | true =>
        refine ⟨_, .back rfl look, ?_, ?_, ?_, ?_⟩
        · simp [CycleSearch.step, look]
        · simp [CycleSearch.step, look, Search.names]
        · simp [CycleSearch.step, look]
        · simp [CycleSearch.step, look, Search.names]
      | false =>
        refine ⟨_, .skip rfl look, ?_, ?_, ?_, ?_⟩
        · simp [CycleSearch.step, look]
        · simp [CycleSearch.step, look, Search.names]
        · simp [CycleSearch.step, look]
        · simp [CycleSearch.step, look]

theorem CycleSearch.Shows.drain {U : Finset String} (closed : ∀ v, ∀ e ∈ edgesFrom edges v, e.2 ∈ U) {turns : ℕ}
    (shows : s.Shows a) (sound : Sound (edgesFrom edges) none a)
    (enough : a.work (edgesFrom edges) U ≤ turns) :
    ∃ b, Relation.ReflTransGen (DepthFirst.Turn (edgesFrom edges)) a b ∧ b.stack = [] ∧
      (CycleSearch.drain (outgoing edges) turns s).Shows b := by
  induction turns generalizing s a with
  | zero =>
    refine ⟨a, .refl, ?_, shows⟩
    rcases stack : a.stack with _ | ⟨f, rest⟩
    · rfl
    · simp only [Search.work, stack, List.map_cons, List.sum_cons] at enough
      omega
  | succ turns ih =>
    rw [CycleSearch.drain]
    by_cases ended : s.frames = []
    · rw [if_pos ended]
      refine ⟨a, .refl, ?_, shows⟩
      exact List.map_eq_nil_iff.mp (shows.frames.symm.trans ended)
    · rw [if_neg ended]
      obtain ⟨b, turn, shown⟩ := shows.step ended
      have spent := turn.work closed sound
      obtain ⟨c, run, empty, last⟩ := ih shown (sound.turn turn) (by omega)
      exact ⟨c, .head turn run, empty, last⟩

/-- One root of `backEdges`, unless it is seen. -/
def CycleSearch.visit (edges : List (String × String)) (turns : ℕ) (s : CycleSearch) (id : String) : CycleSearch :=
  if s.state.contains id then s
  else CycleSearch.drain (outgoing edges) turns
    { s with state := s.state.insert id true, trail := [id], frames := [(outgoing edges).getD id []] }

theorem CycleSearch.Shows.visit {ids : List String} (closed : ∀ v, ∀ e ∈ edgesFrom edges v, e.2 ∈ ids.toFinset)
    (shows : s.Shows a) (sound : Sound (edgesFrom edges) none a) (empty : a.stack = []) {id : String}
    (mem : id ∈ ids) :
    ∃ b, (s.visit edges (edges.length + ids.length + 1) id).Shows b ∧ Sound (edgesFrom edges) none b ∧ b.stack = [] ∧ b.colour id ≠ none ∧
      ∀ v, a.colour v ≠ none → b.colour v ≠ none := by
  have no_names : a.names = [] := by simp [Search.names, empty]
  by_cases seen : s.state.contains id = true
  · rw [CycleSearch.visit, if_pos seen]
    refine ⟨a, shows, sound, empty, ?_, fun _ h => h⟩
    rw [← shows.state]
    exact Option.isSome_iff_ne_none.mp seen
  · rw [CycleSearch.visit, if_neg seen]
    have unseen : a.colour id = none := by
      rw [← shows.state]
      simpa [Dict.contains] using seen
    have entered : Sound (edgesFrom edges) none (a.enter (edgesFrom edges) id) := by
      apply sound.enter (fun u owed => by cases owed) unseen
      rw [no_names]
      exact List.IsChain.singleton _
    have shown : CycleSearch.Shows { s with
        state := s.state.insert id true, trail := [id], frames := [(outgoing edges).getD id []] }
        (a.enter (edgesFrom edges) id) := by
      refine ⟨?_, ?_, ?_, shows.found⟩
      · rw [get?_insert_eq, shows.state]
        rfl
      · simp [Search.names, Search.enter, empty]
      · simp [Search.enter, empty, edgesFrom]
    have bounded : (a.enter (edgesFrom edges) id).work (edgesFrom edges) ids.toFinset ≤
        edges.length + ids.length + 1 := by
      have spent := unseenWork_enter (edgesFrom edges) true (List.mem_toFinset.mpr mem) unseen
      have each : unseenWork (edgesFrom edges) ids.toFinset a.colour ≤
          ∑ v ∈ ids.toFinset, ((edgesFrom edges v).length + 1) := by
        apply Finset.sum_le_sum
        intro v _
        split_ifs <;> omega
      have lengths : ∑ v ∈ ids.toFinset, (edgesFrom edges v).length ≤ edges.length := by
        have items := sum_itemsOf ids.toFinset (edgeItems edges)
        rw [Finset.sum_congr rfl (fun v _ => congrArg List.length (edgesFrom_eq edges v))]
        simpa [edgeItems] using items
      have count : ids.toFinset.card ≤ ids.length := List.toFinset_card_le ids
      rw [Finset.sum_add_distrib, Finset.sum_const, smul_eq_mul, mul_one] at each
      simp only [Search.work, Search.enter, empty, List.map_cons, List.map_nil, List.sum_cons, List.sum_nil]
      omega
    obtain ⟨b, run, done, last⟩ := shown.drain closed entered bounded
    refine ⟨b, last, sound_run entered run, done, ?_, ?_⟩
    · apply seen_run run
      simp [Search.enter]
    · intro v known
      apply seen_run run
      change Function.update a.colour id (some true) v ≠ none
      by_cases same : v = id
      · subst same
        simp
      · rwa [Function.update_of_ne same]

theorem backEdges_reports {ids : List String} (closed : ∀ v, ∀ e ∈ edgesFrom edges v, e.2 ∈ ids.toFinset) :
    ∃ b : Search String ℕ, Sound (edgesFrom edges) none b ∧ b.stack = [] ∧ (∀ id ∈ ids, b.colour id ≠ none) ∧
      backEdges ids edges = b.found.map (fun r => ⟨r.trail.reverse, r.index, r.target⟩) := by
  have fold : ∀ (roots : List String), roots ⊆ ids → ∀ (s : CycleSearch) (a : Search String ℕ), s.Shows a →
      Sound (edgesFrom edges) none a → a.stack = [] →
      ∃ b, (roots.foldl (CycleSearch.visit edges (edges.length + ids.length + 1)) s).Shows b ∧
        Sound (edgesFrom edges) none b ∧ b.stack = [] ∧ (∀ id ∈ roots, b.colour id ≠ none) ∧
        ∀ v, a.colour v ≠ none → b.colour v ≠ none := by
    intro roots
    induction roots with
    | nil =>
      intro _ s a shows sound empty
      exact ⟨a, shows, sound, empty, by simp, fun _ h => h⟩
    | cons id roots ih =>
      intro inside s a shows sound empty
      obtain ⟨b, shown, kept, done, seen, mono⟩ :=
        shows.visit closed sound empty (inside List.mem_cons_self)
      obtain ⟨c, last, sound_c, empty_c, all, mono_c⟩ :=
        ih (fun _ h => inside (List.mem_cons_of_mem _ h)) _ b shown kept done
      refine ⟨c, last, sound_c, empty_c, ?_, fun v h => mono_c v (mono v h)⟩
      intro v mem
      rcases List.mem_cons.mp mem with rfl | mem
      · exact mono_c v seen
      · exact all v mem
  have shows : CycleSearch.Shows { state := .empty, trail := [], frames := [], found := [] } Search.start := by
    refine ⟨?_, rfl, rfl, rfl⟩
    funext v
    rfl
  obtain ⟨b, shown, sound, empty, all, -⟩ :=
    fold ids (List.Subset.refl _) _ _ shows (sound_start _) rfl
  exact ⟨b, sound, empty, all, shown.found⟩

end

/-! ## The refusal -/

section

variable {δ : Type} {g : Graph} {scope : ScopePath} {location : GraphLocation}

/-- `_reject_cycles` -/
def rejectCycles (g : Graph) (scope : ScopePath) (location : GraphLocation) : Compile δ Unit :=
  refuseOn (cycleFaults g scope location)

def EndpointsDeclared (g : Graph) : Prop := ∀ c ∈ g.connections, c.src ∈ nodeIds g ∧ c.dst ∈ nodeIds g

/-- A connection leads from `a` to `b`. -/
def LeadsTo (g : Graph) (a b : String) : Prop := ∃ c ∈ g.connections, c.src = a ∧ c.dst = b

/-- A connection that no fault is located at leads from `a` to `b`. -/
def StillLeads (g : Graph) (scope : ScopePath) (location : GraphLocation) (a b : String) : Prop :=
  ∃ (index : ℕ) (c : Connection), g.connections[index]? = some c ∧ c.src = a ∧ c.dst = b ∧
    ∀ evidence, .located (location.child [.inl "connections", .inr index]) scope .graphCycle evidence ∉
      cycleFaults g scope location

/-- The fault names a closed walk along connections that ends with the connection it is located at. -/
def NamesCycle (g : Graph) (scope : ScopePath) (location : GraphLocation) (f : Fault) : Prop :=
  ∃ (index : ℕ) (c : Connection) (front : List String), g.connections[index]? = some c ∧
    (front ++ [c.src]).head? = some c.dst ∧ (front ++ [c.src] ++ [c.dst]).IsChain (LeadsTo g) ∧
    f = .located (location.child [.inl "connections", .inr index]) scope .graphCycle
      [("connection_index", .int index), ("source_node", .str c.src), ("destination_node", .str c.dst),
        ("cycle", Json.strs (front ++ [c.src] ++ [c.dst]))]

/-- `_validate_connection_endpoints` passes exactly then, and only then is the level searched. -/
theorem endpointFaults_eq_nil : endpointFaults g scope location = [] ↔ EndpointsDeclared g := by
  rw [endpointFaults, List.map_eq_nil_iff, List.filter_eq_nil_iff]
  have roles : ∀ edge, missingRoles (nodeIds g) edge = [] ↔ edge.1 ∈ nodeIds g ∧ edge.2 ∈ nodeIds g := by
    intro edge
    simp only [missingRoles, List.map_eq_nil_iff, List.filter_eq_nil_iff]
    simp
  simp only [ne_eq, decide_eq_true_eq, not_not, roles]
  constructor
  · intro all c mem
    obtain ⟨index, found⟩ := List.mem_iff_getElem?.mp mem
    have edge : (connectionEdges g)[index]? = some (c.src, c.dst) := by simp [connectionEdges, found]
    exact all ((c.src, c.dst), index) (List.mk_mem_zipIdx_iff_getElem?.mpr edge)
  · rintro declared ⟨⟨a, b⟩, index⟩ mem
    have edge := List.mk_mem_zipIdx_iff_getElem?.mp mem
    simp only [connectionEdges, List.getElem?_map, Option.map_eq_some_iff, Prod.mk.injEq] at edge
    obtain ⟨c, found, rfl, rfl⟩ := edge
    exact declared c (List.mem_of_getElem? found)

theorem getElem?_edges {index : ℕ} {a b : String} (found : (connectionEdges g)[index]? = some (a, b)) :
    ∃ c, g.connections[index]? = some c ∧ c.src = a ∧ c.dst = b := by
  simp only [connectionEdges, List.getElem?_map, Option.map_eq_some_iff, Prod.mk.injEq] at found
  exact found

theorem leads_of_joined {a b : String} (joined : Joined (edgesFrom (connectionEdges g)) a b) : LeadsTo g a b := by
  obtain ⟨e, edge, rfl⟩ := joined
  obtain ⟨c, found, source, target⟩ := getElem?_edges (mem_edgesFrom.mp edge)
  exact ⟨c, List.mem_of_getElem? found, source, target⟩

theorem joined_of_leads {a b : String} (leads : LeadsTo g a b) : Joined (edgesFrom (connectionEdges g)) a b := by
  obtain ⟨c, mem, rfl, rfl⟩ := leads
  obtain ⟨index, found⟩ := List.mem_iff_getElem?.mp mem
  refine ⟨(index, c.dst), mem_edgesFrom.mpr ?_, rfl⟩
  simp [connectionEdges, found]

theorem closed_of_declared (declared : EndpointsDeclared g) (v : String) :
    ∀ e ∈ edgesFrom (connectionEdges g) v, e.2 ∈ (nodeIds g).toFinset := by
  intro e edge
  obtain ⟨c, found, -, target⟩ := getElem?_edges (mem_edgesFrom.mp edge)
  rw [List.mem_toFinset, ← target]
  exact (declared c (List.mem_of_getElem? found)).2

theorem namesCycle_of_closes {r : DepthFirst.Report String ℕ} (closes : Closes (edgesFrom (connectionEdges g)) r) :
    NamesCycle g scope location (.located (location.child [.inl "connections", .inr r.index]) scope .graphCycle
      [("connection_index", .int r.index), ("source_node", .str (r.trail.reverse.getLastD "")),
        ("destination_node", .str r.target),
        ("cycle", Json.strs (r.trail.reverse.drop (r.trail.reverse.idxOf r.target) ++ [r.target]))]) := by
  obtain ⟨v, front, head, edge, walk, opens, chain⟩ := closes.walk
  obtain ⟨c, found, rfl, target⟩ := getElem?_edges (mem_edgesFrom.mp edge)
  have source : r.trail.reverse.getLastD "" = c.src := by
    rw [List.getLastD_eq_getLast?, List.getLast?_reverse, head]
    rfl
  have spelled : r.trail.reverse.drop (r.trail.reverse.idxOf r.target) ++ [r.target] =
      front ++ [c.src] ++ [r.target] := walk
  rw [walk] at chain
  refine ⟨r.index, c, front, found, by rw [opens, target], ?_, ?_⟩
  · rw [target]
    exact chain.imp (fun _ _ => leads_of_joined)
  · rw [source, spelled, target]

theorem rejectCycles_result (g : Graph) (scope : ScopePath) (location : GraphLocation) :
    (rejectCycles g scope location : Compile δ Unit).log = (cycleFaults g scope location).map .fault ∧
      (rejectCycles g scope location : Compile δ Unit).result =
        if cycleFaults g scope location = [] then .ok () else .error .compFaults := by
  unfold rejectCycles refuseOn
  split_ifs with none
  · rw [none]
    exact ⟨rfl, rfl⟩
  · exact ⟨List.append_nil _, rfl⟩

theorem kept_acyclic (declared : EndpointsDeclared g) {b : Search String ℕ}
    (sound : Sound (edgesFrom (connectionEdges g)) none b) (empty : b.stack = [])
    (seen : ∀ id ∈ nodeIds g, b.colour id ≠ none) :
    ¬ ∃ v, Relation.TransGen (fun a c => b.Keeps (edgesFrom (connectionEdges g)) c a) v v := by
  -- a cycle of kept connections starts at a declared node, from which every walk ends
  have grounded : ∀ v ∈ nodeIds g, Acc (b.Keeps (edgesFrom (connectionEdges g))) v :=
    fun v mem => sound.finished empty (seen v mem)
  rintro ⟨v, loop⟩
  have member : v ∈ nodeIds g := by
    obtain ⟨w, ⟨e, edge, -⟩, -⟩ := Relation.TransGen.head'_iff.mp loop
    obtain ⟨c, found, source, -⟩ := getElem?_edges (mem_edgesFrom.mp edge)
    rw [← source]
    exact (declared c (List.mem_of_getElem? found)).1
  exact not_cyclic (grounded v member) (Relation.transGen_swap.mp loop)

theorem cycleFaults_ne_nil (declared : EndpointsDeclared g) :
    cycleFaults g scope location ≠ [] ↔ ∃ v, Relation.TransGen (LeadsTo g) v v := by
  obtain ⟨b, sound, empty, seen, reports⟩ := backEdges_reports (closed_of_declared declared)
  rw [cycleFaults, reports, Ne, List.map_eq_nil_iff, List.map_eq_nil_iff]
  constructor
  · intro some_
    obtain ⟨r, mem⟩ := List.exists_mem_of_ne_nil _ some_
    have walks : Joined (edgesFrom (connectionEdges g)) ≤ LeadsTo g := fun _ _ => leads_of_joined
    exact ⟨r.target, Relation.TransGen.mono walks _ _ (sound.closes r mem).cyclic⟩
  · rintro ⟨v, loop⟩ none
    apply kept_acyclic declared sound empty seen
    refine ⟨v, Relation.TransGen.mono ?_ _ _ loop⟩
    intro a c leads
    obtain ⟨e, edge, same⟩ := joined_of_leads leads
    refine ⟨e, edge, same, ?_⟩
    rintro ⟨r, mem, -⟩
    rw [none] at mem
    cases mem

/-- `_reject_cycles` raises exactly on cyclic levels, its faults name closed walks, and without the
connections they are located at the level has no cycle. -/
theorem cycle_refusal (declared : EndpointsDeclared g) :
    ((rejectCycles g scope location : Compile δ Unit).result = .error .compFaults ↔
        ∃ v, Relation.TransGen (LeadsTo g) v v) ∧
      ((rejectCycles g scope location : Compile δ Unit).result = .ok () ↔
        ¬ ∃ v, Relation.TransGen (LeadsTo g) v v) ∧
      (rejectCycles g scope location : Compile δ Unit).log = (cycleFaults g scope location).map .fault ∧
      (∀ f ∈ cycleFaults g scope location, NamesCycle g scope location f) ∧
      ¬ ∃ v, Relation.TransGen (StillLeads g scope location) v v := by
  obtain ⟨b, sound, empty, seen, reports⟩ := backEdges_reports (closed_of_declared declared)
  obtain ⟨log, result⟩ := rejectCycles_result (δ := δ) g scope location
  have acyclic := kept_acyclic declared sound empty seen
  have refused := @cycleFaults_ne_nil g scope location declared
  refine ⟨?_, ?_, log, ?_, ?_⟩
  · rw [result, ← refused]
    split_ifs with none <;> simp [none]
  · rw [result, ← refused]
    split_ifs with none <;> simp [none]
  · intro f mem
    rw [cycleFaults, reports, List.map_map, List.mem_map] at mem
    obtain ⟨r, mem, rfl⟩ := mem
    exact namesCycle_of_closes (sound.closes r mem)
  · rintro ⟨v, loop⟩
    apply acyclic
    refine ⟨v, Relation.TransGen.mono ?_ _ _ loop⟩
    rintro a c ⟨index, connection, found, rfl, rfl, free⟩
    refine ⟨(index, connection.dst), mem_edgesFrom.mpr (by simp [connectionEdges, found]), rfl, ?_⟩
    rintro ⟨r, mem, -, same⟩
    obtain rfl : r.index = index := congrArg Prod.fst same
    apply free
    rw [cycleFaults, reports, List.map_map]
    exact List.mem_map.mpr ⟨r, mem, rfl⟩

end

def mutualPair : Graph where
  name := "pair"
  nodes := [⟨"back", .ref ⟨"cycle/back", none, .empty, none⟩⟩, ⟨"triage", .ref ⟨"cycle/triage", none, .empty, none⟩⟩]
  connections := [⟨"triage", "back", .empty⟩, ⟨"back", "triage", .empty⟩]

theorem cycle_refusal_pair :
    EndpointsDeclared mutualPair ∧
      (rejectCycles mutualPair [] {} : Compile Unit Unit).result = .error .compFaults := by
  have declared : EndpointsDeclared mutualPair := by
    intro c mem
    simp only [mutualPair, List.mem_cons, List.not_mem_nil, or_false] at mem
    rcases mem with rfl | rfl <;> decide
  refine ⟨declared, (cycle_refusal declared).1.mpr ⟨"back", ?_⟩⟩
  apply Relation.TransGen.head (b := "triage")
  · exact ⟨_, List.mem_cons_of_mem _ List.mem_cons_self, rfl, rfl⟩
  · exact Relation.TransGen.single ⟨_, List.mem_cons_self, rfl, rfl⟩

end Constructicon
