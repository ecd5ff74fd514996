import Constructicon.Atomic
import Constructicon.Library.Transaction
import Mathlib.Data.List.DropRight
import Std.Data.String.ToNat

/-!
# Composition sugar

`flow` and `panel` build one canonical Graph. Node ids that an author leaves out are derived
from the component names: the last segment of a name, made a word, and the number of its use
from the second on. A numbered word may be the word of another component, and nothing compares
the derived ids afterwards; so they are distinct unless that happens, and exactly then.
-/

namespace Constructicon.Combinators

open Transaction

/-! ## The combinators -/

inductive AuthoringError where
  /-- `ids has N entries for M steps` -/
  | idsLength (entries steps : ℕ)
  | idsNotUnique
  | idEmpty
  /-- a node id begins with `$` -/
  | idReserved
  | boundaryRedeclared
  | noSteps
  | flowInputsUndeclared
  | flowOutputsUndeclared
  | unknownMapIds (unknown generated : List String)
  | firstMapped (id : String)
  | fewMembers
  | aggregatorComposite (name : String)
  | memberPorts (name : String) (inputs outputs : ℕ)
  | memberCardinality (name : String) (request result : Cardinality)
  | memberContract (name : String) (inputs outputs : List String) (first : String)
      (firstInputs firstOutputs : List String)
  | resultUnnamed
  | requestIsResult
  | gatherCount (name : String) (count : ℕ)
  | gatherContract (name : String) (gathers result : Contract)
  | dottedMember
  | gatherCollides (id : String)
  | policyIsResult (port : String)
  | boundaryNames (names : List String)
deriving DecidableEq

structure DefinitionBundle where
  definition : ComponentDef

def DefinitionBundle.ref (b : DefinitionBundle) : Ref := { component := b.definition.name }

inductive AuthoringStep where
  | bundle (b : DefinitionBundle)
  | ref (r : Ref)
  | name (component : String)

/-- `_to_ref` -/
def toRef : AuthoringStep → Ref
  | .bundle b => b.ref
  | .ref r => r
  | .name component => { component }

def AuthoringStep.bundle? : AuthoringStep → Option DefinitionBundle
  | .bundle b => some b
  | _ => none

/-- `component`, for a Graph: its boundary is the Graph's. -/
def component (name : String) (graph : Graph) (inputs outputs : Option (List Port)) :
    Except AuthoringError DefinitionBundle := do
  require (∀ ports ∈ inputs, sameBoundary ports graph.inputs = true) .boundaryRedeclared
  require (∀ ports ∈ outputs, sameBoundary ports graph.outputs = true) .boundaryRedeclared
  return ⟨{ name, body := .graph graph, inputs := graph.inputs, outputs := graph.outputs }⟩

/-- `[A-Za-z0-9_]` -/
def isWord (c : Char) : Bool :=
  ('A' ≤ c && c ≤ 'Z') || ('a' ≤ c && c ≤ 'z') || ('0' ≤ c && c ≤ '9') || c == '_'

/-- `re.sub(r"[^A-Za-z0-9_]+", "_", segment)`; `run` says that a run of other characters is going on. -/
def squeeze : Bool → List Char → List Char
  | _, [] => []
  | run, c :: text =>
    if isWord c then c :: squeeze false text
    else if run then squeeze true text
    else '_' :: squeeze true text

/-- `name.rsplit("/", 1)[-1]` -/
def lastSegment (name : List Char) : List Char := (name.reverse.takeWhile (· ≠ '/')).reverse

/-- `.strip("_")` -/
def stripUnderscores (text : List Char) : List Char := (text.dropWhile (· = '_')).rdropWhile (· = '_')

def base (name : String) : String :=
  let word := stripUnderscores (squeeze false (lastSegment name.toList))
  if word = [] then "component" else String.ofList word

/-- One turn of the loop of `_node_ids`. -/
def generate (s : Dict String ℕ × List String) (ref : Ref) : Dict String ℕ × List String :=
  let word := base ref.component
  let count := s.1.getD word 0 + 1
  (s.1.insert word count, s.2 ++ [if count = 1 then word else word ++ "_" ++ toString count])

/-- `_validate_ids` -/
def validateIds : List String → Except AuthoringError Unit
  | [] => .ok ()
  | id :: ids => do
    require (id ≠ "") .idEmpty
    require (¬ '$' ∈ id.toList.head?) .idReserved
    validateIds ids

/-- `_node_ids` -/
def nodeIds (refs : List Ref) : Option (List String) → Except AuthoringError (List String)
  | some ids => do
    require (ids.length = refs.length) (.idsLength ids.length refs.length)
    require ids.Nodup .idsNotUnique
    validateIds ids
    return ids
  | none => do
    let ids := (refs.foldl generate (.empty, [])).2
    validateIds ids
    return ids

/-- The chain of `flow`: every step follows the one before. -/
def flowGraph (name : String) (ids : List String) (refs : List Ref) (maps : Dict String (Dict String String))
    (inputs outputs : List Port) : Graph where
  name := name
  nodes := List.zipWith (fun id ref => ⟨id, .ref ref⟩) ids refs
  connections := List.zipWith (fun src dst => ⟨src, dst, maps.getD dst .empty⟩) ids ids.tail
  inputs := inputs
  outputs := outputs

/-- `flow` -/
def flow (name : String) (steps : List AuthoringStep) (maps : Dict String (Dict String String))
    (ids : Option (List String)) (inputs outputs : Option (List Port)) : Except AuthoringError DefinitionBundle := do
  require (steps ≠ []) .noSteps
  let ids ← nodeIds (steps.map toRef) ids
  let inputs ← expect (inputs.or ((steps.head?.bind AuthoringStep.bundle?).map (·.definition.inputs)))
    .flowInputsUndeclared
  let outputs ← expect (outputs.or ((steps.getLast?.bind AuthoringStep.bundle?).map (·.definition.outputs)))
    .flowOutputsUndeclared
  let unknown := sortStrings (maps.keys.filter (· ∉ ids))
  require (unknown = []) (.unknownMapIds unknown ids)
  require (ids.headD "" ∉ maps.keys) (.firstMapped (ids.headD ""))
  component name (flowGraph name ids (steps.map toRef) maps inputs outputs) none none

/-- `_one_member_contract`: the request and the result of every member. -/
def oneMemberContract (first : ComponentDef) (others : List ComponentDef) : Except AuthoringError (Port × Port) := do
  let request ← expect first.inputs.head? (.memberPorts first.name first.inputs.length first.outputs.length)
  let result ← expect first.outputs.head? (.memberPorts first.name first.inputs.length first.outputs.length)
  require (first.inputs.length = 1 ∧ first.outputs.length = 1)
    (.memberPorts first.name first.inputs.length first.outputs.length)
  require (request.cardinality = .one ∧ result.cardinality = .one)
    (.memberCardinality first.name request.cardinality result.cardinality)
  others.forM (fun d => require (sameBoundary d.inputs first.inputs = true ∧ sameBoundary d.outputs first.outputs = true)
    (.memberContract d.name (d.inputs.map Port.name) (d.outputs.map Port.name) first.name
      (first.inputs.map Port.name) (first.outputs.map Port.name)))
  return (request, result)

/-- `_aggregator_contract`: the port that gathers, and the others. -/
def aggregatorContract (aggregator : ComponentDef) (result : Port) : Except AuthoringError (Port × List Port) := do
  let gathering := aggregator.inputs.filter (fun p => p.cardinality = .many)
  let gathers ← expect gathering.head? (.gatherCount aggregator.name 0)
  require (gathering.length = 1) (.gatherCount aggregator.name gathering.length)
  require (gathers.contract = result.contract) (.gatherContract aggregator.name gathers.contract result.contract)
  return (gathers, aggregator.inputs.filter (fun p => p.cardinality ≠ .many))

def gatherIdOf (aggregator : DefinitionBundle) : Option String → Except AuthoringError String
  | some id => .ok id
  | none => (nodeIds [aggregator.ref] none).map (fun ids => ids.headD "")

/-- The fan of `panel`: every member sends its result to the aggregator. -/
def panelGraph (name : String) (ids : List String) (refs : List Ref) (gatherId : String) (aggregator : DefinitionBundle)
    (gathers result : Port) (inputs : List Port) : Graph where
  name := name
  nodes := List.zipWith (fun id ref => ⟨id, .ref ref⟩) ids refs ++ [⟨gatherId, .ref aggregator.ref⟩]
  connections := ids.map (fun id => ⟨id, gatherId, Dict.ofList [(gathers.name, id ++ "." ++ result.name)]⟩)
  inputs := inputs
  outputs := aggregator.definition.outputs

def ComponentBody.isGraph : ComponentBody → Bool
  | .graph _ => true
  | .python _ => false

/-- `panel` -/
def panel (name : String) (members : List DefinitionBundle) (aggregator : DefinitionBundle)
    (ids : Option (List String)) (aggregatorId : Option String) : Except AuthoringError DefinitionBundle := do
  require (2 ≤ members.length) .fewMembers
  require (¬ ComponentBody.isGraph aggregator.definition.body) (.aggregatorComposite aggregator.definition.name)
  let first ← expect members.head? .fewMembers
  let pair ← oneMemberContract first.definition (members.tail.map DefinitionBundle.definition)
  require (pair.2.name ≠ "") .resultUnnamed
  require (pair.1.contract ≠ pair.2.contract) .requestIsResult
  let gathering ← aggregatorContract aggregator.definition pair.2
  let ids ← nodeIds (members.map DefinitionBundle.ref) ids
  require (∀ id ∈ ids, '.' ∉ id.toList) .dottedMember
  let gatherId ← gatherIdOf aggregator aggregatorId
  validateIds [gatherId]
  require (gatherId ∉ ids) (.gatherCollides gatherId)
  gathering.2.forM (fun p => require (p.contract ≠ pair.2.contract) (.policyIsResult p.name))
  require ((pair.1 :: gathering.2).map Port.name).Nodup (.boundaryNames ((pair.1 :: gathering.2).map Port.name))
  component name (panelGraph name ids (members.map DefinitionBundle.ref) gatherId aggregator gathering.1 pair.2
    (pair.1 :: gathering.2)) none none

/-! ## Words and numbers -/

theorem squeeze_word (run : Bool) (text : List Char) : ∀ c ∈ squeeze run text, isWord c = true := by
  induction text generalizing run with
  | nil => simp [squeeze]
  | cons d text ih =>
    intro c mem
    rw [squeeze] at mem
    split_ifs at mem with word going
    · rcases List.mem_cons.mp mem with rfl | mem
      · exact word
      · exact ih false c mem
    · exact ih true c mem
    · rcases List.mem_cons.mp mem with rfl | mem
      · decide
      · exact ih true c mem

theorem base_word (name : String) : base name ≠ "" ∧ ∀ c ∈ (base name).toList, isWord c = true := by
  unfold base
  dsimp only
  split_ifs with none
  · have letters : "component".toList.all isWord = true := by decide
    exact ⟨by decide, List.all_eq_true.mp letters⟩
  · constructor
    · intro empty
      apply none
      have text := congrArg String.toList empty
      rwa [String.toList_ofList] at text
    · intro c mem
      rw [String.toList_ofList] at mem
      apply squeeze_word false
      have kept := (List.rdropWhile_prefix (fun c => decide (c = '_')) _).subset mem
      exact (List.dropWhile_sublist _).subset kept

theorem base_head (name : String) : ¬ '$' ∈ (base name).toList.head? := by
  intro first
  have word := (base_word name).2 '$' (List.mem_of_mem_head? first)
  exact absurd word (by decide)

/-- The id of the `k`-th use of a word. -/
def idOf (word : String) (k : ℕ) : String := if k = 1 then word else word ++ "_" ++ toString k

theorem toString_digits (k : ℕ) : (toString k).toList = Nat.toDigits 10 k := String.toList_ofList

theorem suffixed_inj {word word' : String} {k k' : ℕ} (same : word ++ "_" ++ toString k = word' ++ "_" ++ toString k') :
    word = word' ∧ k = k' := by
  have texts : (Nat.toDigits 10 k).reverse ++ '_' :: word.toList.reverse =
      (Nat.toDigits 10 k').reverse ++ '_' :: word'.toList.reverse := by
    have reversed := congrArg (fun s : String => s.toList.reverse) same
    simpa [String.toList_append, toString_digits] using reversed
  have before : ∀ n, ∀ c ∈ (Nat.toDigits 10 n).reverse, decide (c ≠ '_') = true := by
    intro n c mem
    apply decide_eq_true
    rintro rfl
    exact Nat.underscore_not_in_toDigits (List.mem_reverse.mp mem)
  have digits := congrArg (List.takeWhile (fun c => decide (c ≠ '_'))) texts
  have words := congrArg (List.dropWhile (fun c => decide (c ≠ '_'))) texts
  rw [List.takeWhile_append_of_pos (before k), List.takeWhile_append_of_pos (before k')] at digits
  rw [List.dropWhile_append_of_pos (before k), List.dropWhile_append_of_pos (before k')] at words
  simp only [ne_eq, not_true_eq_false, decide_false, Bool.false_eq_true, not_false_eq_true, List.takeWhile_cons_of_neg,
    List.append_nil, List.reverse_inj] at digits
  simp only [ne_eq, not_true_eq_false, decide_false, Bool.false_eq_true, not_false_eq_true, List.dropWhile_cons_of_neg,
    List.cons.injEq, List.reverse_inj, true_and] at words
  refine ⟨String.toList_injective words, Nat.repr_injective ?_⟩
  exact congrArg String.ofList digits

/-! ## The uses of the words -/

/-- The words with the number of their use; the words of `seen` were used before. -/
def uses : List String → List String → List (String × ℕ)
  | _, [] => []
  | seen, word :: words => (word, seen.count word + 1) :: uses (seen ++ [word]) words

def words (refs : List Ref) : List String := refs.map (fun ref => base ref.component)

theorem foldl_generate {refs : List Ref} {counts : Dict String ℕ} {ids seen : List String}
    (counted : ∀ word, counts.getD word 0 = seen.count word) :
    (refs.foldl generate (counts, ids)).2 = ids ++ (uses seen (words refs)).map (fun use => idOf use.1 use.2) := by
  induction refs generalizing counts ids seen with
  | nil => simp [words, uses]
  | cons ref refs ih =>
    have next : ∀ word, (counts.insert (base ref.component) (seen.count (base ref.component) + 1)).getD word 0 =
        (seen ++ [base ref.component]).count word := by
      intro word
      rw [Dict.getD, Dict.get?_insert, List.count_append, List.count_singleton]
      by_cases same : base ref.component = word
      · subst same
        simp
      · rw [if_neg same, if_neg (by simpa using same)]
        exact counted word
    rw [List.foldl_cons, generate, counted, ih next]
    simp [words, uses, idOf]

theorem mem_uses {seen ws : List String} {word : String} {k : ℕ} :
    (word, k) ∈ uses seen ws ↔ seen.count word < k ∧ k ≤ (seen ++ ws).count word := by
  induction ws generalizing seen with
  | nil =>
    simp only [uses, List.not_mem_nil, List.append_nil, false_iff]
    omega
  | cons w ws ih =>
    rw [uses, List.mem_cons, ih, Prod.mk.injEq, List.append_assoc, List.singleton_append]
    simp only [List.count_append, List.count_cons, List.count_nil, beq_iff_eq]
    by_cases same : w = word
    · subst same
      simp only [if_true, true_and]
      omega
    · rw [if_neg same]
      simp only [Ne.symm same, false_and, false_or]
      omega

theorem nodup_uses (seen ws : List String) : (uses seen ws).Nodup := by
  induction ws generalizing seen with
  | nil => exact List.nodup_nil
  | cons w ws ih =>
    rw [uses, List.nodup_cons]
    refine ⟨fun again => ?_, ih _⟩
    have later := (mem_uses.mp again).1
    rw [List.count_append, List.count_singleton_self] at later
    omega

/-- No word is another word with the number of one of its uses, from the second on. -/
def Unclashing (ws : List String) : Prop :=
  ∀ word k, 2 ≤ k → k ≤ ws.count word → word ++ "_" ++ toString k ∉ ws

theorem nodup_ids_iff (ws : List String) :
    ((uses [] ws).map (fun use => idOf use.1 use.2)).Nodup ↔ Unclashing ws := by
  have known : ∀ word k, (word, k) ∈ uses [] ws ↔ 1 ≤ k ∧ k ≤ ws.count word := by
    intro word k
    rw [mem_uses, List.nil_append, List.count_nil]
    omega
  have first : ∀ word ∈ ws, (word, 1) ∈ uses [] ws := fun word mem =>
    (known word 1).mpr ⟨le_rfl, List.count_pos_iff.mpr mem⟩
  rw [List.nodup_map_iff_inj_on (nodup_uses [] ws)]
  constructor
  · intro distinct word k second used mem
    have same := distinct (word, k) ((known word k).mpr ⟨by omega, used⟩) _ (first _ mem)
      (by rw [idOf, idOf, if_neg (by omega), if_pos rfl])
    have one := (Prod.mk.inj same).2
    omega
  · rintro clear ⟨w, k⟩ use ⟨w', k'⟩ use' same
    obtain ⟨pos, used⟩ := (known w k).mp use
    obtain ⟨pos', used'⟩ := (known w' k').mp use'
    have mem : w ∈ ws := List.count_pos_iff.mp (by omega)
    have mem' : w' ∈ ws := List.count_pos_iff.mp (by omega)
    simp only [idOf] at same
    split_ifs at same with one one' one'
    · rw [same, one, one']
    · exact absurd (same ▸ mem) (clear w' k' (by omega) used')
    · exact absurd (same ▸ mem') (clear w k (by omega) used)
    · obtain ⟨rfl, rfl⟩ := suffixed_inj same
      rfl

/-! ## What the ids are for -/

theorem validateIds_ok {ids : List String} :
    validateIds ids = .ok () ↔ ∀ id ∈ ids, id ≠ "" ∧ ¬ '$' ∈ id.toList.head? := by
  induction ids with
  | nil => simp [validateIds]
  | cons id ids ih =>
    simp only [validateIds, bind_eq_ok, require_eq_ok, ih, List.forall_mem_cons]
    constructor
    · rintro ⟨-, some_, -, plain, rest⟩
      exact ⟨⟨some_, plain⟩, rest⟩
    · rintro ⟨⟨some_, plain⟩, rest⟩
      exact ⟨(), some_, (), plain, rest⟩

theorem idOf_valid (name : String) (k : ℕ) : idOf (base name) k ≠ "" ∧ ¬ '$' ∈ (idOf (base name) k).toList.head? := by
  obtain ⟨some_, -⟩ := base_word name
  have opens : (idOf (base name) k).toList.head? = (base name).toList.head? := by
    unfold idOf
    split_ifs
    · rfl
    · obtain ⟨c, text, same⟩ := List.exists_cons_of_ne_nil fun none => some_ (String.toList_eq_nil_iff.mp none)
      simp [String.toList_append, same]
  constructor
  · intro none
    rw [none] at opens
    exact some_ (String.toList_eq_nil_iff.mp (List.head?_eq_none_iff.mp opens.symm))
  · rw [opens]
    exact base_head name

theorem valid_uses (refs : List Ref) :
    ∀ id ∈ (uses [] (words refs)).map (fun use => idOf use.1 use.2), id ≠ "" ∧ ¬ '$' ∈ id.toList.head? := by
  intro id mem
  obtain ⟨⟨word, k⟩, use, rfl⟩ := List.mem_map.mp mem
  have known : word ∈ words refs := by
    obtain ⟨above, below⟩ := mem_uses.mp use
    exact List.count_pos_iff.mp (lt_of_lt_of_le (Nat.zero_lt_of_lt above) below)
  obtain ⟨ref, -, rfl⟩ := List.mem_map.mp known
  exact idOf_valid ref.component k

theorem nodeIds_generated (refs : List Ref) :
    nodeIds refs none = .ok ((uses [] (words refs)).map (fun use => idOf use.1 use.2)) := by
  have ids : (refs.foldl generate (.empty, [])).2 = (uses [] (words refs)).map (fun use => idOf use.1 use.2) :=
    foldl_generate fun _ => rfl
  rw [nodeIds, ids, validateIds_ok.mpr (valid_uses refs)]
  rfl

theorem length_uses (seen ws : List String) : (uses seen ws).length = ws.length := by
  induction ws generalizing seen with
  | nil => rfl
  | cons w ws ih => rw [uses, List.length_cons, List.length_cons, ih]

def RefusesIds (g : Graph) : Prop :=
  ∃ upstream, orderedNodes g upstream = .error (.admissionError [.duplicateNodeIds g.name])

theorem refusesIds_iff {g : Graph} : RefusesIds g ↔ ¬ (Constructicon.nodeIds g).Nodup := by
  constructor
  · rintro ⟨upstream, refused⟩ distinct
    rw [orderedNodes, nodeOrder, if_neg (not_not.mpr distinct)] at refused
    split at refused
    all_goals cases refused
  · intro twice
    refine ⟨.empty, ?_⟩
    rw [orderedNodes, nodeOrder, if_pos twice]
    rfl

/-- What a caller of the combinators gets from the derived ids of these references. -/
structure Identifies (refs : List Ref) : Prop where
  ids : ∃ ids, nodeIds refs none = .ok ids ∧ ids.length = refs.length ∧
    (∀ id ∈ ids, id ≠ "" ∧ ¬ '$' ∈ id.toList.head?) ∧ ids.Nodup
  /-- A chain is not refused for its ids, and every map has one destination. -/
  flow : ∀ name steps maps inputs outputs b g, steps.map toRef = refs →
    flow name steps maps none inputs outputs = .ok b → b.definition.body = .graph g →
    ¬ RefusesIds g ∧ ∀ key ∈ maps.keys, (g.connections.filter (fun c => c.dst = key)).length = 1
  panel : ∀ name members aggregator aggregatorId b g, members.map DefinitionBundle.ref = refs →
    panel name members aggregator none aggregatorId = .ok b → b.definition.body = .graph g → ¬ RefusesIds g

theorem component_graph {name : String} {graph g : Graph} {inputs outputs : Option (List Port)} {b : DefinitionBundle}
    (ok : component name graph inputs outputs = .ok b) (body : b.definition.body = .graph g) : g = graph := by
  simp only [component, bind_eq_ok] at ok
  obtain ⟨-, -, -, -, built⟩ := ok
  cases built
  exact (ComponentBody.graph.inj body).symm

theorem ids_zipWith {ids : List String} {refs : List Ref} (same : ids.length = refs.length) :
    (List.zipWith (fun id ref => (⟨id, .ref ref⟩ : GraphNode)) ids refs).map NodeOf.id = ids := by
  induction ids generalizing refs with
  | nil => rfl
  | cons id ids ih =>
    cases refs with
    | nil => cases same
    | cons ref refs =>
      rw [List.zipWith_cons_cons, List.map_cons, ih (Nat.succ.inj same)]

theorem dst_zipWith (maps : String → Dict String String) (srcs dsts : List String) (short : dsts.length ≤ srcs.length) :
    (List.zipWith (fun src dst => (⟨src, dst, maps dst⟩ : Connection)) srcs dsts).map Connection.dst = dsts := by
  induction dsts generalizing srcs with
  | nil => simp
  | cons dst dsts ih =>
    cases srcs with
    | nil => cases short
    | cons src srcs =>
      rw [List.zipWith_cons_cons, List.map_cons, ih srcs (Nat.le_of_succ_le_succ short)]

theorem flow_identifies {refs : List Ref} {ids : List String} (generated : nodeIds refs none = .ok ids)
    (length : ids.length = refs.length) (distinct : ids.Nodup) {name : String} {steps : List AuthoringStep}
    {maps : Dict String (Dict String String)} {inputs outputs : Option (List Port)} {b : DefinitionBundle} {g : Graph}
    (same : steps.map toRef = refs) (ok : flow name steps maps none inputs outputs = .ok b)
    (body : b.definition.body = .graph g) :
    ¬ RefusesIds g ∧ ∀ key ∈ maps.keys, (g.connections.filter (fun c => c.dst = key)).length = 1 := by
  subst same
  simp only [flow, generated, ok_bind, bind_eq_ok, require_eq_ok, expect_eq_ok] at ok
  obtain ⟨-, -, ins, -, outs, -, -, known, -, unmapped, built⟩ := ok
  obtain rfl := component_graph built body
  constructor
  · rw [refusesIds_iff, not_not, Constructicon.nodeIds, flowGraph, ids_zipWith length]
    exact distinct
  · intro key mem
    have named : key ∈ ids := by
      by_contra other
      have listed : key ∈ sortStrings (maps.keys.filter (· ∉ ids)) := by
        rw [sortStrings, List.mem_insertionSort]
        exact List.mem_filter.mpr ⟨mem, decide_eq_true other⟩
      rw [known] at listed
      cases listed
    have later : key ∈ ids.tail := by
      cases ids with
      | nil => cases named
      | cons first rest =>
        rcases List.mem_cons.mp named with rfl | rest
        · exact absurd mem unmapped
        · exact rest
    have entered := dst_zipWith (fun dst => maps.getD dst .empty) ids ids.tail
      (by rw [List.length_tail]; omega)
    have once : (ids.tail).count key = 1 := List.count_eq_one_of_mem (distinct.sublist (List.tail_sublist ids)) later
    rw [← entered, List.count_eq_countP, List.countP_map, List.countP_eq_length_filter] at once
    rw [← once]
    congr 1

theorem panel_identifies {refs : List Ref} {ids : List String} (generated : nodeIds refs none = .ok ids)
    (length : ids.length = refs.length) (distinct : ids.Nodup) {name : String} {members : List DefinitionBundle}
    {aggregator : DefinitionBundle} {aggregatorId : Option String} {b : DefinitionBundle} {g : Graph}
    (same : members.map DefinitionBundle.ref = refs) (ok : panel name members aggregator none aggregatorId = .ok b)
    (body : b.definition.body = .graph g) : ¬ RefusesIds g := by
  subst same
  simp only [panel, generated, ok_bind, bind_eq_ok, require_eq_ok, expect_eq_ok] at ok
  obtain ⟨-, -, -, -, first, -, pair, -, -, -, -, -, gathering, -, -, -, gather, -, -, -, -, other, -, -, -, -, built⟩ := ok
  obtain rfl := component_graph built body
  rw [refusesIds_iff, not_not, Constructicon.nodeIds, panelGraph, List.map_append, ids_zipWith length]
  apply List.nodup_append.mpr
  refine ⟨distinct, List.nodup_singleton _, ?_⟩
  rintro id mem last gathers rfl
  obtain rfl : id = gather := List.mem_singleton.mp gathers
  exact other mem

/-- The derived ids identify the nodes exactly when no numbered word is the word of a reference. -/
theorem derived_ids (refs : List Ref) : Identifies refs ↔ Unclashing (words refs) := by
  have generated := nodeIds_generated refs
  rw [← nodup_ids_iff]
  constructor
  · intro identifies
    obtain ⟨ids, same, -, -, distinct⟩ := identifies.ids
    rw [generated] at same
    exact Except.ok.inj same ▸ distinct
  · intro distinct
    have length : ((uses [] (words refs)).map (fun use => idOf use.1 use.2)).length = refs.length := by
      rw [List.length_map, length_uses, words, List.length_map]
    refine ⟨⟨_, generated, length, valid_uses refs, distinct⟩, ?_, ?_⟩
    · intro name steps maps inputs outputs b g same ok body
      exact flow_identifies generated length distinct same ok body
    · intro name members aggregator aggregatorId b g same ok body
      exact panel_identifies generated length distinct same ok body

/-- Two uses of `a`, and a component whose own word is `a_2`. -/
def clashing : List Ref := [{ component := "a" }, { component := "a" }, { component := "a_2" }]

theorem derived_ids_clash :
    nodeIds clashing none = .ok ["a", "a_2", "a_2"] ∧
      (∃ b g, flow "f" (clashing.map .ref) .empty none (some []) (some []) = .ok b ∧ b.definition.body = .graph g ∧
        RefusesIds g) ∧
      ¬ Identifies clashing := by
  have ids : nodeIds clashing none = .ok ["a", "a_2", "a_2"] := by decide
  have refused : RefusesIds (flowGraph "f" ["a", "a_2", "a_2"] clashing .empty [] []) := by
    rw [refusesIds_iff]
    decide
  have refs : (clashing.map AuthoringStep.ref).map toRef = clashing := rfl
  have built : flow "f" (clashing.map .ref) .empty none (some []) (some []) =
      .ok { definition :=
        { name := "f"
          body := .graph (flowGraph "f" ["a", "a_2", "a_2"] clashing .empty [] [])
          inputs := []
          outputs := [] } } := by
    rw [flow, refs, ids]
    rfl
  refine ⟨ids, ⟨_, _, built, rfl, refused⟩, fun identifies => ?_⟩
  exact (identifies.flow "f" _ .empty _ _ _ _ refs built rfl).1 refused

end Constructicon.Combinators
