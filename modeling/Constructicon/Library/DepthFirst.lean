import Mathlib.Logic.Relation
import Mathlib.Tactic

/-!
# Depth-first search in three colours

A search keeps a stack of nodes, each with the edges it has still to follow, and reports an edge
that leads back to the stack. `Turn` is one step of it. Every report is an edge that closes a walk,
a node that is done is grounded (no infinite walk avoids the reported edges from there), and each
turn works off one unit of `work`.
-/

namespace DepthFirst

variable {V ι : Type} [DecidableEq V]

/-- An edge back to a node on the stack; `trail` is that stack, innermost first. -/
structure Report (V ι : Type) where
  trail : List V
  index : ι
  target : V

/-- A node is unseen (`none`), on the stack (`true`) or done (`false`). -/
structure Search (V ι : Type) where
  colour : V → Option Bool
  stack : List (V × List (ι × V))
  found : List (Report V ι)

namespace Search

def names (s : Search V ι) : List V := s.stack.map Prod.fst

def start : Search V ι := ⟨fun _ => none, [], []⟩

/-- Put `v` on the stack with its edges. -/
def enter (out : V → List (ι × V)) (s : Search V ι) (v : V) : Search V ι :=
  { s with colour := Function.update s.colour v (some true), stack := (v, out v) :: s.stack }

/-- Take the node `v` off the stack. -/
def close (s : Search V ι) (v : V) (rest : List (V × List (ι × V))) : Search V ι :=
  { s with colour := Function.update s.colour v (some false), stack := rest }

end Search

inductive Turn (out : V → List (ι × V)) : Search V ι → Search V ι → Prop
  | close {s : Search V ι} {v : V} {rest : List (V × List (ι × V))} (top : s.stack = (v, []) :: rest) :
      Turn out s (s.close v rest)
  | back {s : Search V ι} {v w : V} {i : ι} {pending : List (ι × V)} {rest : List (V × List (ι × V))}
      (top : s.stack = (v, (i, w) :: pending) :: rest) (looped : s.colour w = some true) :
      Turn out s { s with stack := (v, pending) :: rest, found := s.found ++ [⟨s.names, i, w⟩] }
  | skip {s : Search V ι} {v w : V} {i : ι} {pending : List (ι × V)} {rest : List (V × List (ι × V))}
      (top : s.stack = (v, (i, w) :: pending) :: rest) (done : s.colour w = some false) :
      Turn out s { s with stack := (v, pending) :: rest }
  | push {s : Search V ι} {v w : V} {i : ι} {pending : List (ι × V)} {rest : List (V × List (ι × V))}
      (top : s.stack = (v, (i, w) :: pending) :: rest) (unseen : s.colour w = none) :
      Turn out s (Search.enter out { s with stack := (v, pending) :: rest } w)

/-! ## Grounded nodes -/

/-- The edge `e` from `v` is reported. -/
def Search.Reported (s : Search V ι) (v : V) (e : ι × V) : Prop :=
  ∃ r ∈ s.found, r.trail.head? = some v ∧ (r.index, r.target) = e

/-- An edge that is not reported leads from `v` to `w`. -/
def Search.Keeps (out : V → List (ι × V)) (s : Search V ι) (w v : V) : Prop :=
  ∃ e ∈ out v, e.2 = w ∧ ¬ s.Reported v e

/-- Consecutive nodes of a trail, innermost first, are joined by edges. -/
def Trail (out : V → List (ι × V)) (trail : List V) : Prop :=
  trail.IsChain (fun a b => ∃ e ∈ out b, e.2 = a)

structure Closes (out : V → List (ι × V)) (r : Report V ι) : Prop where
  trail : Trail out r.trail
  nodup : r.trail.Nodup
  edge : ∃ v, r.trail.head? = some v ∧ (r.index, r.target) ∈ out v
  target : r.target ∈ r.trail

/-- The invariant of a search; an edge to `due` was followed and its node is about to be entered. -/
structure Sound (out : V → List (ι × V)) (due : Option V) (s : Search V ι) : Prop where
  opened : ∀ v, s.colour v = some true ↔ v ∈ s.names
  nodup : s.names.Nodup
  trail : Trail out s.names
  pending : ∀ f ∈ s.stack, f.2 ⊆ out f.1
  explored : ∀ above v p below, s.stack = above ++ (v, p) :: below → ∀ e ∈ out v,
    e ∈ p ∨ s.Reported v e ∨ s.colour e.2 = some false ∨ e.2 ∈ above.map Prod.fst ∨ due = some e.2
  grounded : ∀ v, s.colour v = some false → Acc (s.Keeps out) v
  closes : ∀ r ∈ s.found, Closes out r

omit [DecidableEq V] in
theorem sound_start (out : V → List (ι × V)) : Sound out none (Search.start : Search V ι) where
  opened v := by simp [Search.start, Search.names]
  nodup := List.nodup_nil
  trail := List.IsChain.nil
  pending f mem := by cases mem
  explored above v p below same := by simp [Search.start] at same
  grounded v done := by cases done
  closes r mem := by cases mem

section

variable {out : V → List (ι × V)} {s t : Search V ι}

omit [DecidableEq V] in
theorem acc_of_keeps (reported : ∀ v e, s.Reported v e → t.Reported v e) {v : V} (acc : Acc (s.Keeps out) v) :
    Acc (t.Keeps out) v := by
  apply Subrelation.accessible _ acc
  rintro a b ⟨e, mem, same, free⟩
  exact ⟨e, mem, same, fun h => free (reported b e h)⟩

theorem not_cyclic {α : Type} {r : α → α → Prop} {a : α} (acc : Acc r a) : ¬ Relation.TransGen r a a := by
  have closed : ∀ b, Acc (Relation.TransGen r) b → ¬ Relation.TransGen r b b := by
    intro b h
    induction h with
    | intro b _ ih => exact fun loop => ih b loop loop
  exact closed a acc.transGen

theorem Sound.enter {due : Option V} {v : V} (sound : Sound out due s) (owed : ∀ u, due = some u → u = v)
    (unseen : s.colour v = none) (joined : Trail out (v :: s.names)) : Sound out none (s.enter out v) := by
  have fresh : v ∉ s.names := by
    intro mem
    rw [(sound.opened v).mpr mem] at unseen
    cases unseen
  refine ⟨?_, ?_, joined, ?_, ?_, ?_, sound.closes⟩
  · intro u
    change Function.update s.colour v (some true) u = some true ↔ u ∈ v :: s.names
    by_cases same : u = v
    · subst same
      simp
    · rw [Function.update_of_ne same, sound.opened, List.mem_cons]
      simp [same]
  · exact List.nodup_cons.mpr ⟨fresh, sound.nodup⟩
  · intro f mem
    rcases List.mem_cons.mp mem with rfl | mem
    · exact List.Subset.refl _
    · exact sound.pending f mem
  · intro above u p below same e edge
    have done : s.colour e.2 = some false → (s.enter out v).colour e.2 = some false := by
      intro done
      have other : e.2 ≠ v := by
        rintro rfl
        rw [done] at unseen
        cases unseen
      exact (Function.update_of_ne other _ _).trans done
    cases above with
    | nil =>
      cases same
      exact .inl edge
    | cons f above =>
      have head := (List.cons.inj same).1
      subst head
      rcases sound.explored above u p below (List.cons.inj same).2 e edge with
        left | reported | finished | held | now
      · exact .inl left
      · exact .inr (.inl reported)
      · exact .inr (.inr (.inl (done finished)))
      · exact .inr (.inr (.inr (.inl (List.mem_cons_of_mem _ held))))
      · rw [owed _ now]
        exact .inr (.inr (.inr (.inl List.mem_cons_self)))
  · intro u done
    have other : u ≠ v := by
      rintro rfl
      change Function.update s.colour u (some true) u = some false at done
      simp at done
    exact sound.grounded u ((Function.update_of_ne other _ _).symm.trans done)

omit [DecidableEq V] in
theorem Sound.follow {v w : V} {i : ι} {pending : List (ι × V)} {rest : List (V × List (ι × V))}
    {due : Option V} (sound : Sound out none s) (top : s.stack = (v, (i, w) :: pending) :: rest)
    (colour : t.colour = s.colour) (stack : t.stack = (v, pending) :: rest)
    (reported : ∀ v e, s.Reported v e → t.Reported v e) (closes : ∀ r ∈ t.found, Closes out r)
    (accounted : t.Reported v (i, w) ∨ s.colour w = some false ∨ due = some w) : Sound out due t := by
  have names : t.names = s.names := by simp [Search.names, top, stack]
  refine ⟨?_, ?_, ?_, ?_, ?_, ?_, closes⟩
  · rw [names, colour]
    exact sound.opened
  · rw [names]
    exact sound.nodup
  · rw [names]
    exact sound.trail
  · intro f mem
    rw [stack] at mem
    rcases List.mem_cons.mp mem with rfl | mem
    · have all := sound.pending (v, (i, w) :: pending) (by simp [top])
      exact fun e among => all (List.mem_cons_of_mem _ among)
    · exact sound.pending f (by rw [top]; exact List.mem_cons_of_mem _ mem)
  · intro above u p below split e edge
    rw [stack] at split
    rw [colour]
    cases above with
    | nil =>
      cases split
      rcases sound.explored [] v _ rest top e edge with left | known | finished | held | now
      · rcases List.mem_cons.mp left with rfl | left
        · rcases accounted with known | finished | now
          · exact .inr (.inl known)
          · exact .inr (.inr (.inl finished))
          · exact .inr (.inr (.inr (.inr now)))
        · exact .inl left
      · exact .inr (.inl (reported _ _ known))
      · exact .inr (.inr (.inl finished))
      · cases held
      · cases now
    | cons f above =>
      have head := (List.cons.inj split).1
      subst head
      have split := (List.cons.inj split).2
      rcases sound.explored ((v, (i, w) :: pending) :: above) u p below (by rw [top, split]; rfl) e edge with
        left | known | finished | held | now
      · exact .inl left
      · exact .inr (.inl (reported _ _ known))
      · exact .inr (.inr (.inl finished))
      · exact .inr (.inr (.inr (.inl held)))
      · cases now
  · intro u done
    rw [colour] at done
    exact acc_of_keeps reported (sound.grounded u done)

theorem Sound.close {v : V} {rest : List (V × List (ι × V))} (sound : Sound out none s)
    (top : s.stack = (v, []) :: rest) : Sound out none (s.close v rest) := by
  have names : s.names = v :: rest.map Prod.fst := by simp [Search.names, top]
  have distinct := sound.nodup
  rw [names, List.nodup_cons] at distinct
  have done : ∀ u, s.colour u = some false → (s.close v rest).colour u = some false := by
    intro u done
    by_cases same : u = v
    · subst same
      exact Function.update_self _ _ _
    · exact (Function.update_of_ne same _ _).trans done
  have grounded : Acc (s.Keeps out) v := by
    constructor
    rintro w ⟨e, edge, rfl, free⟩
    rcases sound.explored [] v [] rest top e edge with left | known | finished | held | now
    · cases left
    · exact absurd known free
    · exact sound.grounded _ finished
    · cases held
    · cases now
  refine ⟨?_, ?_, ?_, ?_, ?_, ?_, sound.closes⟩
  · intro u
    change Function.update s.colour v (some false) u = some true ↔ u ∈ rest.map Prod.fst
    by_cases same : u = v
    · subst same
      simp [distinct.1]
    · rw [Function.update_of_ne same, sound.opened, names, List.mem_cons]
      simp [same]
  · exact distinct.2
  · have whole := sound.trail
    rw [names] at whole
    exact whole.tail
  · intro f mem
    exact sound.pending f (by rw [top]; exact List.mem_cons_of_mem _ mem)
  · intro above u p below split e edge
    change rest = above ++ (u, p) :: below at split
    rcases sound.explored ((v, []) :: above) u p below (by rw [top, split]; rfl) e edge with
      left | known | finished | held | now
    · exact .inl left
    · exact .inr (.inl known)
    · exact .inr (.inr (.inl (done _ finished)))
    · rcases List.mem_cons.mp held with same | held
      · rw [same]
        exact .inr (.inr (.inl (Function.update_self _ _ _)))
      · exact .inr (.inr (.inr (.inl held)))
    · cases now
  · intro u finished
    by_cases same : u = v
    · subst same
      exact grounded
    · exact sound.grounded u ((Function.update_of_ne same _ _).symm.trans finished)

theorem Sound.turn (sound : Sound out none s) (turn : Turn out s t) : Sound out none t := by
  cases turn with
  | close top => exact sound.close top
  | @back v w i pending rest top looped =>
    have names : s.names = v :: rest.map Prod.fst := by simp [Search.names, top]
    have edge : (i, w) ∈ out v := sound.pending _ (by rw [top]; exact List.mem_cons_self) List.mem_cons_self
    refine sound.follow top rfl rfl ?_ ?_ (.inl ⟨⟨s.names, i, w⟩, by simp, by rw [names]; rfl, rfl⟩)
    · rintro u e ⟨r, mem, same⟩
      exact ⟨r, List.mem_append_left _ mem, same⟩
    · intro r mem
      rcases List.mem_append.mp mem with mem | mem
      · exact sound.closes r mem
      · obtain rfl := List.mem_singleton.mp mem
        exact ⟨sound.trail, sound.nodup, ⟨v, by rw [names]; rfl, edge⟩, (sound.opened w).mp looped⟩
  | skip top done =>
    exact sound.follow top rfl rfl (fun _ _ h => h) sound.closes (.inr (.inl done))
  | @push v w i pending rest top unseen =>
    have names : s.names = v :: rest.map Prod.fst := by simp [Search.names, top]
    have edge : (i, w) ∈ out v := sound.pending _ (by rw [top]; exact List.mem_cons_self) List.mem_cons_self
    have due : Sound out (some w) { s with stack := (v, pending) :: rest } :=
      sound.follow top rfl rfl (fun _ _ h => h) sound.closes (.inr (.inr rfl))
    apply due.enter (fun u same => (Option.some.inj same).symm) unseen
    have trail := sound.trail
    rw [names] at trail
    exact List.IsChain.cons_cons ⟨(i, w), edge, rfl⟩ trail

theorem sound_run (sound : Sound out none s) (run : Relation.ReflTransGen (Turn out) s t) :
    Sound out none t := by
  induction run with
  | refl => exact sound
  | tail _ turn ih => exact ih.turn turn

theorem Turn.seen (turn : Turn out s t) {v : V} (seen : s.colour v ≠ none) : t.colour v ≠ none := by
  have update : ∀ (u : V) (b : Bool), Function.update s.colour u (some b) v ≠ none := by
    intro u b
    by_cases same : v = u
    · subst same
      simp
    · rwa [Function.update_of_ne same]
  cases turn with
  | close _ => exact update _ _
  | back _ _ => exact seen
  | skip _ _ => exact seen
  | push _ _ => exact update _ _

theorem seen_run (run : Relation.ReflTransGen (Turn out) s t) {v : V} (seen : s.colour v ≠ none) :
    t.colour v ≠ none := by
  induction run with
  | refl => exact seen
  | tail _ turn ih => exact turn.seen ih

omit [DecidableEq V] in
theorem Sound.finished (sound : Sound out none s) (empty : s.stack = []) {v : V} (seen : s.colour v ≠ none) :
    Acc (s.Keeps out) v := by
  apply sound.grounded
  cases colour : s.colour v with
  | none => exact absurd colour seen
  | some held =>
    cases held with
    | false => rfl
    | true =>
      have mem := (sound.opened v).mp colour
      simp [Search.names, empty] at mem

end

/-! ## Closed walks -/

/-- An edge leads from `a` to `b`. -/
def Joined (out : V → List (ι × V)) (a b : V) : Prop := ∃ e ∈ out a, e.2 = b

/-- The walk a report names: from the target along the stack to its top, and back. -/
def Report.walk (r : Report V ι) : List V :=
  r.trail.reverse.drop (r.trail.reverse.idxOf r.target) ++ [r.target]

theorem Closes.walk {out : V → List (ι × V)} {r : Report V ι} (closes : Closes out r) :
    ∃ v front, r.trail.head? = some v ∧ (r.index, r.target) ∈ out v ∧ r.walk = front ++ [v] ++ [r.target] ∧
      (front ++ [v]).head? = some r.target ∧ r.walk.IsChain (Joined out) := by
  obtain ⟨v, head, edge⟩ := closes.edge
  obtain ⟨before, after, split, first⟩ :=
    List.eq_append_cons_of_mem (List.mem_reverse.mpr closes.target)
  have last : (r.target :: after).getLast? = some v := by
    have whole : r.trail.reverse.getLast? = some v := by rw [List.getLast?_reverse, head]
    rw [split, List.getLast?_append] at whole
    simpa using whole
  have dropped : r.trail.reverse.drop (r.trail.reverse.idxOf r.target) = r.target :: after := by
    rw [split, List.idxOf_append_of_notMem first]
    simp
  obtain ⟨front, spelled⟩ := List.getLast?_eq_some_iff.mp last
  have walk : r.walk = front ++ [v] ++ [r.target] := by rw [Report.walk, dropped, spelled]
  have turned : r.trail.reverse.IsChain (Joined out) := List.isChain_reverse.mpr closes.trail
  have part : (front ++ [v]).IsChain (Joined out) := by
    rw [split] at turned
    rw [← spelled]
    exact turned.right_of_append
  refine ⟨v, front, head, edge, walk, by rw [← spelled]; rfl, ?_⟩
  rw [walk]
  apply List.isChain_append.mpr
  refine ⟨part, List.IsChain.singleton _, ?_⟩
  intro a final b first
  obtain rfl : v = a := by simpa using final
  obtain rfl : r.target = b := by simpa using first
  exact ⟨_, edge, rfl⟩

theorem Closes.cyclic {out : V → List (ι × V)} {r : Report V ι} (closes : Closes out r) :
    Relation.TransGen (Joined out) r.target r.target := by
  obtain ⟨v, front, -, edge, walk, head, chain⟩ := closes.walk
  have part : (front ++ [v]).IsChain (Joined out) := by
    rw [walk] at chain
    exact chain.left_of_append
  have reach := List.relationReflTransGen_of_exists_isChain (front ++ [v]) part (by simp)
  rw [List.getLast_append_singleton] at reach
  have same : (front ++ [v]).head (by simp) = r.target := by
    rw [List.head_eq_iff_head?_eq_some]
    exact head
  rw [same] at reach
  exact Relation.TransGen.tail' reach ⟨_, edge, rfl⟩

/-! ## Termination -/

section

variable {out : V → List (ι × V)} {s t : Search V ι}

/-- The turns the unseen nodes among `U` will take. -/
def unseenWork (out : V → List (ι × V)) (U : Finset V) (colour : V → Option Bool) : ℕ :=
  ∑ v ∈ U, if colour v = none then (out v).length + 1 else 0

/-- The turns a search may still take among the nodes `U`. -/
def Search.work (out : V → List (ι × V)) (U : Finset V) (s : Search V ι) : ℕ :=
  (s.stack.map (fun f => f.2.length + 1)).sum + unseenWork out U s.colour

theorem unseenWork_enter (out : V → List (ι × V)) (b : Bool) {U : Finset V} {v : V}
    {colour : V → Option Bool} (mem : v ∈ U) (unseen : colour v = none) :
    unseenWork out U (Function.update colour v (some b)) + ((out v).length + 1) = unseenWork out U colour := by
  have others : ∀ u ∈ U.erase v, (if Function.update colour v (some b) u = none then (out u).length + 1 else 0) =
      if colour u = none then (out u).length + 1 else 0 := by
    intro u among
    rw [Function.update_of_ne (Finset.ne_of_mem_erase among)]
  unfold unseenWork
  rw [← Finset.add_sum_erase U _ mem, Finset.sum_congr rfl others, Function.update_self,
    ← Finset.add_sum_erase U (fun u => if colour u = none then (out u).length + 1 else 0) mem, if_pos unseen]
  simp
  omega

theorem unseenWork_close (out : V → List (ι × V)) (U : Finset V) (b : Bool) {v : V}
    {colour : V → Option Bool} (seen : colour v ≠ none) :
    unseenWork out U (Function.update colour v (some b)) = unseenWork out U colour := by
  apply Finset.sum_congr rfl
  intro u _
  by_cases same : u = v
  · subst same
    simp [seen]
  · rw [Function.update_of_ne same]

theorem Turn.work {U : Finset V} (closed : ∀ v, ∀ e ∈ out v, e.2 ∈ U) (sound : Sound out none s)
    (turn : Turn out s t) : t.work out U + 1 = s.work out U := by
  cases turn with
  | @close v rest top =>
    have opened : s.colour v = some true := (sound.opened v).mpr (by simp [Search.names, top])
    have seen : s.colour v ≠ none := by simp [opened]
    have same := unseenWork_close out U false seen
    simp only [Search.work, Search.close, top, List.map_cons, List.sum_cons, List.length_nil, same]
    omega
  | back top _ =>
    simp only [Search.work, top, List.map_cons, List.sum_cons, List.length_cons]
    omega
  | skip top _ =>
    simp only [Search.work, top, List.map_cons, List.sum_cons, List.length_cons]
    omega
  | @push v w i pending rest top unseen =>
    have edge : (i, w) ∈ out v := sound.pending _ (by rw [top]; exact List.mem_cons_self) List.mem_cons_self
    have among : w ∈ U := closed v _ edge
    have spent := unseenWork_enter out true among unseen
    simp only [Search.work, Search.enter, top, List.map_cons, List.sum_cons, List.length_cons]
    omega

end

end DepthFirst
