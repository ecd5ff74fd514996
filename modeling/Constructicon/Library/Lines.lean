import Mathlib.Data.List.Basic

/-!
# The lines of a stream

A stream is cut at a terminator into its complete lines and the tail that no terminator ends. A cut
forgets nothing, and it can be made in two parts: what comes later only continues the tail.
-/

namespace Lines

variable {α : Type}

/-- Every line with its terminator, and then the tail. -/
def join (eol : α) (lines : List (List α)) (tail : List α) : List α :=
  lines.foldr (fun l rest => l ++ eol :: rest) tail

/-- One more letter at the front of the first line, or of the tail where there is no line. -/
def glue (x : α) (r : List (List α) × List α) : List (List α) × List α :=
  match r.1 with
  | [] => ([], x :: r.2)
  | l :: ls => ((x :: l) :: ls, r.2)

/-- The complete lines of a stream, without their terminators, and the tail. -/
def cut [DecidableEq α] (eol : α) : List α → List (List α) × List α
  | [] => ([], [])
  | x :: xs => if x = eol then ([] :: (cut eol xs).1, (cut eol xs).2) else glue x (cut eol xs)

variable [DecidableEq α] {eol : α}

@[simp] theorem cut_nil : cut eol [] = ([], []) := rfl

theorem cut_eol (xs : List α) : cut eol (eol :: xs) = ([] :: (cut eol xs).1, (cut eol xs).2) := if_pos rfl

theorem cut_line {l : List α} (plain : eol ∉ l) (xs : List α) :
    cut eol (l ++ eol :: xs) = (l :: (cut eol xs).1, (cut eol xs).2) := by
  induction l with
  | nil => exact cut_eol xs
  | cons x l ih =>
    obtain ⟨other, plain⟩ := List.ne_and_not_mem_of_not_mem_cons plain
    rw [List.cons_append, cut, if_neg (Ne.symm other), ih plain]
    rfl

theorem idxOf?_line {l : List α} (plain : eol ∉ l) (xs : List α) : (l ++ eol :: xs).idxOf? eol = some l.length := by
  induction l with
  | nil => simp [List.idxOf?_cons]
  | cons x l ih =>
    obtain ⟨other, plain⟩ := List.ne_and_not_mem_of_not_mem_cons plain
    rw [List.cons_append, List.idxOf?_cons, ih plain]
    simp [Ne.symm other]

theorem cut_tail {t : List α} (plain : eol ∉ t) : cut eol t = ([], t) := by
  induction t with
  | nil => rfl
  | cons x t ih =>
    obtain ⟨other, plain⟩ := List.ne_and_not_mem_of_not_mem_cons plain
    rw [cut, if_neg (Ne.symm other), ih plain]
    rfl

theorem induct (eol : α) {P : List α → Prop} (tail : ∀ t, eol ∉ t → P t)
    (line : ∀ l xs, eol ∉ l → P xs → P (l ++ eol :: xs)) (xs : List α) : P xs := by
  have longer : ∀ l, eol ∉ l → P (l ++ xs) := by
    induction xs with
    | nil => exact fun l plain => (List.append_nil l).symm ▸ tail l plain
    | cons x xs ih =>
      intro l plain
      by_cases same : x = eol
      · subst same
        exact line l xs plain (ih [] List.not_mem_nil)
      · have next := ih (l ++ [x]) (by simp [plain, Ne.symm same])
        rwa [List.append_assoc, List.singleton_append] at next
  exact longer [] List.not_mem_nil

theorem join_cut (eol : α) (xs : List α) : join eol (cut eol xs).1 (cut eol xs).2 = xs := by
  induction xs using induct eol with
  | tail t plain =>
    rw [cut_tail plain]
    rfl
  | line l xs plain ih =>
    rw [cut_line plain]
    exact congrArg (fun rest => l ++ eol :: rest) ih

theorem cut_plain (xs : List α) : (∀ l ∈ (cut eol xs).1, eol ∉ l) ∧ eol ∉ (cut eol xs).2 := by
  induction xs using induct eol with
  | tail t plain =>
    rw [cut_tail plain]
    exact ⟨by simp, plain⟩
  | line l xs plain ih =>
    rw [cut_line plain]
    exact ⟨List.forall_mem_cons.mpr ⟨plain, ih.1⟩, ih.2⟩

theorem cut_append (xs ys : List α) :
    cut eol (xs ++ ys) = ((cut eol xs).1 ++ (cut eol ((cut eol xs).2 ++ ys)).1, (cut eol ((cut eol xs).2 ++ ys)).2) := by
  induction xs using induct eol with
  | tail t plain =>
    rw [cut_tail plain]
    rfl
  | line l xs plain ih =>
    rw [cut_line plain, List.append_assoc, List.cons_append, cut_line plain, ih]
    rfl

theorem cut_join {ls : List (List α)} (plain : ∀ l ∈ ls, eol ∉ l) (xs : List α) :
    cut eol (join eol ls xs) = (ls ++ (cut eol xs).1, (cut eol xs).2) := by
  induction ls with
  | nil => rfl
  | cons l ls ih =>
    obtain ⟨first, plain⟩ := List.forall_mem_cons.mp plain
    have rest := ih plain
    change cut eol (l ++ eol :: join eol ls xs) = _
    rw [cut_line first, rest]
    rfl

theorem length_cut_le (eol : α) (xs : List α) :
    (∀ l ∈ (cut eol xs).1, l.length < xs.length) ∧ (cut eol xs).2.length ≤ xs.length := by
  induction xs using induct eol with
  | tail t plain =>
    rw [cut_tail plain]
    exact ⟨by simp, Nat.le_refl _⟩
  | line l xs plain ih =>
    rw [cut_line plain]
    simp only [List.length_append, List.length_cons, List.forall_mem_cons]
    refine ⟨⟨by omega, fun m mem => ?_⟩, by omega⟩
    have short := ih.1 m mem
    omega

end Lines
