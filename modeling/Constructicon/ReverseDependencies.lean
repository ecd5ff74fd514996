import Constructicon.ControlPages
import Mathlib.Logic.Relation

/-!
# Reverse dependencies

`rdeps` works through a frontier of names and collects the owners that refer to one of them. The
references of a body are those at any depth of its nested graphs and loops, and what is
collected is closed under them when the frontier is empty.
-/

namespace Constructicon

/-! ## References -/

inductive RefersTo (component : String) : Body → Prop
  | ref {r : Ref} (named : r.component = component) : RefersTo component (.ref r)
  | node {g : GraphOf Body} {n : NodeOf Body} (mem : n ∈ g.nodes) (inner : RefersTo component n.body) :
      RefersTo component (.graph g)
  | loopRef {l : LoopOf Body} {r : Ref} (body : l.body = .inl r) (named : r.component = component) :
      RefersTo component (.loop l)
  | loopGraph {l : LoopOf Body} {g : GraphOf Body} (body : l.body = .inr g) (inner : RefersTo component (.graph g)) :
      RefersTo component (.loop l)

section

variable {c : String}

theorem mem_refsOfNodes {nodes : List (NodeOf Body)} :
    c ∈ refsOfNodes nodes ↔ ∃ n ∈ nodes, c ∈ refsOfBody n.body := by
  induction nodes with
  | nil => simp [refsOfNodes]
  | cons n nodes ih => rw [refsOfNodes, List.mem_append, ih, List.exists_mem_cons_iff]

/-- `_refs_in` misses no form of nesting and adds nothing. -/
theorem mem_refsOfBody (b : Body) : c ∈ refsOfBody b ↔ RefersTo c b := by
  constructor
  · have found := refsOfBody.induct (fun b => c ∈ refsOfBody b → RefersTo c b)
      (fun g => c ∈ refsIn g → RefersTo c (.graph g))
      (fun nodes => c ∈ refsOfNodes nodes → ∃ n ∈ nodes, RefersTo c n.body)
    apply found
    · intro r mem
      exact .ref (List.mem_singleton.mp mem).symm
    · intro g ih mem
      exact ih mem
    · intro r _ _ _ mem
      exact .loopRef rfl (List.mem_singleton.mp mem).symm
    · intro g _ _ _ ih mem
      exact .loopGraph rfl (ih mem)
    · intro _ nodes _ _ _ ih mem
      obtain ⟨n, inside, inner⟩ := ih mem
      exact .node inside inner
    · intro mem
      cases mem
    · intro id body nodes here later mem
      rcases List.mem_append.mp mem with mem | mem
      · exact ⟨_, List.mem_cons_self, here mem⟩
      · obtain ⟨n, inside, inner⟩ := later mem
        exact ⟨n, List.mem_cons_of_mem _ inside, inner⟩
  · intro refers
    induction refers with
    | ref named => exact List.mem_singleton.mpr named.symm
    | @node g n mem _ ih =>
      obtain ⟨name, nodes, connections, inputs, outputs⟩ := g
      exact mem_refsOfNodes.mpr ⟨n, mem, ih⟩
    | @loopRef l r body named =>
      obtain ⟨_, feedback, continueFrom, maxIterations⟩ := l
      cases body
      exact List.mem_singleton.mpr named.symm
    | @loopGraph l g body _ ih =>
      obtain ⟨_, feedback, continueFrom, maxIterations⟩ := l
      cases body
      exact ih

end

/-! ## The fixpoint -/

section

variable {δ : Type} (graphOf : δ → Option Graph) (cut : RegistryCut δ)

/-- A registered version of `owner` refers to `name`. -/
def Refers (owner name : String) : Prop :=
  ∃ row ∈ cut.versions.entries, row.1 = owner ∧ ∃ stored ∈ row.2.values, ∃ g,
    graphOf stored.definition = some g ∧ RefersTo name (.graph g)

theorem mem_dependents {owner name : String} : owner ∈ cut.dependents graphOf name ↔ Refers graphOf cut owner name := by
  have found : ∀ stored : Registration δ, (graphOf stored.definition).elim false (fun g => (refsIn g).contains name) = true ↔
      ∃ g, graphOf stored.definition = some g ∧ RefersTo name (.graph g) := by
    intro stored
    cases body : graphOf stored.definition with
    | none => simp
    | some g =>
      rw [Option.elim_some, List.contains_iff_mem]
      constructor
      · intro mem
        exact ⟨g, rfl, (mem_refsOfBody (.graph g)).mp mem⟩
      · rintro ⟨g', same, refers⟩
        cases same
        exact (mem_refsOfBody (.graph g)).mpr refers
  rw [RegistryCut.dependents, List.mem_dedup, List.mem_map]
  constructor
  · rintro ⟨row, kept, rfl⟩
    obtain ⟨mem, some_⟩ := List.mem_filter.mp kept
    obtain ⟨stored, inside, refers⟩ := List.any_eq_true.mp some_
    exact ⟨row, mem, rfl, stored, inside, (found stored).mp refers⟩
  · rintro ⟨row, mem, rfl, stored, inside, refers⟩
    refine ⟨row, List.mem_filter.mpr ⟨mem, ?_⟩, rfl⟩
    exact List.any_eq_true.mpr ⟨stored, inside, (found stored).mpr refers⟩

structure Collecting (name : String) (frontier seen : List String) : Prop where
  leads : ∀ s ∈ seen, Relation.TransGen (Refers graphOf cut) s name
  waiting : ∀ s ∈ frontier, s = name ∨ s ∈ seen
  /-- What waits no more has its dependents collected. -/
  closed : ∀ s, s = name ∨ s ∈ seen → s ∉ frontier → ∀ d, Refers graphOf cut d s → d ∈ seen

variable {graphOf cut}

theorem Collecting.turn {name current : String} {frontier seen : List String}
    (h : Collecting graphOf cut name (current :: frontier) seen) :
    Collecting graphOf cut name ((cut.fresh graphOf current seen).reverse ++ frontier)
      (seen ++ cut.fresh graphOf current seen) := by
  have refers : ∀ d ∈ cut.fresh graphOf current seen, Refers graphOf cut d current := fun d new =>
    (mem_dependents graphOf cut).mp (List.mem_of_mem_filter new)
  constructor
  · intro s mem
    rcases List.mem_append.mp mem with old | new
    · exact h.leads s old
    · rcases h.waiting current List.mem_cons_self with rfl | held
      · exact .single (refers s new)
      · exact .head (refers s new) (h.leads current held)
  · intro s mem
    rcases List.mem_append.mp mem with new | waits
    · exact .inr (List.mem_append_right _ (List.mem_reverse.mp new))
    · exact (h.waiting s (List.mem_cons_of_mem _ waits)).imp_right (List.mem_append_left _)
  · intro s known done d first
    rw [List.mem_append, List.mem_reverse, not_or] at done
    by_cases here : s = current
    · subst here
      by_cases held : d ∈ seen
      · exact List.mem_append_left _ held
      · apply List.mem_append_right
        exact List.mem_filter.mpr ⟨(mem_dependents graphOf cut).mpr first, decide_eq_true held⟩
    · have before : s = name ∨ s ∈ seen := by
        rcases known with same | mem
        · exact .inl same
        · exact .inr ((List.mem_append.mp mem).resolve_right done.1)
      apply List.mem_append_left
      exact h.closed s before (fun waits => (List.mem_cons.mp waits).elim here done.2) d first

theorem Collecting.ends {name : String} {frontier seen : List String}
    (h : Collecting graphOf cut name frontier seen) : Collecting graphOf cut name [] (cut.seen graphOf frontier seen) := by
  induction frontier, seen using RegistryCut.seen.induct graphOf cut with
  | case1 seen =>
    rw [RegistryCut.seen]
    exact h
  | case2 current frontier seen ih =>
    rw [RegistryCut.seen]
    exact ih h.turn

/-- `rdeps` returns, in order and once each, exactly the components from which a chain of references
leads to the name. -/
theorem rdeps_exact (graphOf : δ → Option Graph) (cut : RegistryCut δ) (name : String) :
    (cut.rdeps graphOf name).Pairwise (· < ·) ∧
      ∀ owner, owner ∈ cut.rdeps graphOf name ↔ Relation.TransGen (Refers graphOf cut) owner name := by
  have start : Collecting graphOf cut name [name] [] := by
    refine ⟨by simp, fun s mem => .inl (List.mem_singleton.mp mem), ?_⟩
    rintro s (rfl | held) done
    · exact absurd (List.mem_singleton_self s) done
    · cases held
  have collected := start.ends
  constructor
  · have sorted : (cut.rdeps graphOf name).Pairwise (· ≤ ·) := List.pairwise_insertionSort _ _
    have once : (cut.rdeps graphOf name).Pairwise (· ≠ ·) := nodup_rdeps graphOf name
    exact (sorted.and once).imp fun both => lt_of_le_of_ne both.1 both.2
  · intro owner
    rw [RegistryCut.rdeps, List.mem_insertionSort]
    constructor
    · exact collected.leads owner
    · intro path
      -- the chain is collected from the name backwards
      induction path using Relation.TransGen.head_induction_on with
      | single refers => exact collected.closed name (.inl rfl) (by simp) _ refers
      | head refers _ ih => exact collected.closed _ (.inr ih) (by simp) _ refers

end

end Constructicon
