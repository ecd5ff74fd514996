import Mathlib.Data.List.Nodup
import Mathlib.Tactic

/-!
# Lists that follow a relation

A list is `Preceded` when it has no repetition and each of its members stands after everything
the relation puts before it. Members may be added at the end, one by one or list after list, as
long as their predecessors are there.
-/

namespace Preceded

variable {α : Type} {r : α → α → Prop}

structure Follows (r : α → α → Prop) (l : List α) : Prop where
  nodup : l.Nodup
  after : ∀ front x back, l = front ++ x :: back → ∀ a, r a x → a ∈ front

theorem Follows.nil : Follows r [] := ⟨List.nodup_nil, by simp⟩

theorem Follows.snoc {l : List α} {x : α} (h : Follows r l) (new : x ∉ l) (before : ∀ a, r a x → a ∈ l) :
    Follows r (l ++ [x]) := by
  constructor
  · apply List.nodup_append.mpr
    refine ⟨h.nodup, List.nodup_singleton x, ?_⟩
    rintro a mem b last rfl
    rw [List.mem_singleton] at last
    exact new (last ▸ mem)
  · intro front y back whole a first
    rcases List.eq_nil_or_concat back with rfl | ⟨back, z, rfl⟩
    · obtain ⟨rfl, rfl⟩ : l = front ∧ x = y := by simpa using whole
      exact before a first
    · have shorter : l ++ [x] = (front ++ y :: back) ++ [z] := by simpa using whole
      exact h.after front y back (List.append_inj' shorter rfl).1 a first

theorem Follows.of_snoc {l : List α} {x : α} (h : Follows r (l ++ [x])) :
    Follows r l ∧ ∀ a, r a x → a ∈ l := by
  refine ⟨⟨(List.nodup_append.mp h.nodup).1, ?_⟩, fun a first => h.after l x [] rfl a first⟩
  intro front y back whole a first
  apply h.after front y (back ++ [x]) ?_ a first
  rw [whole]
  simp

section

variable [DecidableEq α]

def add (l : List α) (x : α) : List α := if x ∈ l then l else l ++ [x]

theorem mem_add {l : List α} {x a : α} : a ∈ add l x ↔ a ∈ l ∨ a = x := by
  unfold add
  split_ifs with known
  · exact ⟨.inl, fun h => h.elim id (fun same => same ▸ known)⟩
  · simp

theorem Follows.add {l : List α} {x : α} (h : Follows r l) (before : ∀ a, r a x → a ∈ l) :
    Follows r (add l x) := by
  unfold Preceded.add
  by_cases known : x ∈ l
  · rwa [if_pos known]
  · rw [if_neg known]
    exact h.snoc known before

theorem mem_foldl_add {l l' : List α} {a : α} : a ∈ l'.foldl Preceded.add l ↔ a ∈ l ∨ a ∈ l' := by
  induction l' generalizing l with
  | nil => simp
  | cons x l' ih => rw [List.foldl_cons, ih, mem_add, List.mem_cons, or_assoc]

theorem Follows.foldl_add {l l' : List α} (h : Follows r l) (h' : Follows r l') :
    Follows r (l'.foldl Preceded.add l) := by
  induction l' using List.reverseRecOn with
  | nil => exact h
  | append_singleton l' x ih =>
    obtain ⟨front, before⟩ := h'.of_snoc
    rw [List.foldl_append, List.foldl_cons, List.foldl_nil]
    apply (ih front).add
    intro a first
    exact mem_foldl_add.mpr (.inr (before a first))

end

end Preceded
