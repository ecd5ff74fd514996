import Mathlib.Tactic

/-!
# Words joined by separators

A separated text is a list of words, each followed by a separator, and a last
word. Spelling it out forgets where the separators were: a word that contains a
separator can stand for a word, a separator and the beginning of the next word.
`Blends` is that relation between separated texts, rule by rule, and
`blends_iff` says that it is exactly what spelling confuses.
-/

namespace Separated

variable {α : Type}

/-- The words up to the last, each with the separator that follows it, and the last word. -/
structure Text (α : Type) where
  words : List (List α × α)
  last : List α

def spell (t : Text α) : List α := t.words.foldr (fun w rest => w.1 ++ w.2 :: rest) t.last

/-- Two separated texts blend when they can be read in step, one word of either side
standing for a word, the separator after it and the beginning of the next word of
the other. -/
inductive Blends : Text α → Text α → Prop
  | done (last : List α) : Blends ⟨[], last⟩ ⟨[], last⟩
  | step {a b : List (List α × α)} {x y : List α} (w : List α) (c : α) (h : Blends ⟨a, x⟩ ⟨b, y⟩) :
      Blends ⟨(w, c) :: a, x⟩ ⟨(w, c) :: b, y⟩
  | left {a b : List (List α × α)} {x y : List α} (w : List α) (c : α) (u : List α) (d : α)
      (h : Blends ⟨a, x⟩ ⟨(u, d) :: b, y⟩) : Blends ⟨(w, c) :: a, x⟩ ⟨(w ++ c :: u, d) :: b, y⟩
  | leftLast {a : List (List α × α)} {x : List α} (w : List α) (c : α) (u : List α)
      (h : Blends ⟨a, x⟩ ⟨[], u⟩) : Blends ⟨(w, c) :: a, x⟩ ⟨[], w ++ c :: u⟩
  | right {a b : List (List α × α)} {x y : List α} (w : List α) (c : α) (u : List α) (d : α)
      (h : Blends ⟨(u, d) :: a, x⟩ ⟨b, y⟩) : Blends ⟨(w ++ c :: u, d) :: a, x⟩ ⟨(w, c) :: b, y⟩
  | rightLast {b : List (List α × α)} {y : List α} (w : List α) (c : α) (u : List α)
      (h : Blends ⟨[], u⟩ ⟨b, y⟩) : Blends ⟨[], w ++ c :: u⟩ ⟨(w, c) :: b, y⟩

@[simp] theorem spell_nil (last : List α) : spell ⟨[], last⟩ = last := rfl

@[simp] theorem spell_cons (w : List α) (c : α) (a : List (List α × α)) (x : List α) :
    spell ⟨(w, c) :: a, x⟩ = w ++ c :: spell ⟨a, x⟩ := rfl

theorem spell_eq_of_blends {p q : Text α} (h : Blends p q) : spell p = spell q := by
  induction h with
  | done last => rfl
  | step w c h ih => rw [spell_cons, spell_cons, ih]
  | left w c u d h ih => simp [ih]
  | leftLast w c u h ih => simp [ih]
  | right w c u d h ih => simp [← ih]
  | rightLast w c u h ih => simp [← ih]

theorem blends_of_spell_eq (n : ℕ) : ∀ (a b : List (List α × α)) (x y : List α),
    a.length + b.length ≤ n → spell ⟨a, x⟩ = spell ⟨b, y⟩ → Blends ⟨a, x⟩ ⟨b, y⟩ := by
  induction n with
  | zero =>
    intro a b x y hn h
    obtain rfl : a = [] := List.length_eq_zero_iff.mp (by omega)
    obtain rfl : b = [] := List.length_eq_zero_iff.mp (by omega)
    rw [spell_nil, spell_nil] at h
    exact h ▸ .done x
  | succ n ih =>
    intro a b x y hn h
    rcases a with _ | ⟨⟨w, c⟩, a⟩ <;> rcases b with _ | ⟨⟨v, d⟩, b⟩
    · rw [spell_nil, spell_nil] at h
      exact h ▸ .done x
    · rw [spell_nil, spell_cons] at h
      subst h
      exact .rightLast v d _ (ih [] b _ y (by simpa using hn) rfl)
    · rw [spell_nil, spell_cons] at h
      subst h
      exact .leftLast w c _ (ih a [] x _ (by simpa using hn) rfl)
    · rw [spell_cons, spell_cons] at h
      simp only [List.length_cons] at hn
      have hstep : w = v → c :: spell ⟨a, x⟩ = d :: spell ⟨b, y⟩ →
          Blends ⟨(w, c) :: a, x⟩ ⟨(v, d) :: b, y⟩ := by
        rintro rfl ht
        obtain ⟨rfl, htail⟩ := List.cons.inj ht
        exact .step w c (ih a b x y (by omega) htail)
      -- compare the two first words: equal, or one runs over the other's separator
      rcases List.append_eq_append_iff.mp h with ⟨u, hv, ht⟩ | ⟨u, hw, ht⟩
      · rcases u with _ | ⟨e, u⟩
        · exact hstep (by simpa using hv.symm) ht
        · obtain ⟨rfl, ht'⟩ := List.cons.inj ht
          subst hv
          exact .left w c u d (ih a _ x y (by simp; omega) ht')
      · rcases u with _ | ⟨e, u⟩
        · exact hstep (by simpa using hw) ht.symm
        · obtain ⟨rfl, ht'⟩ := List.cons.inj ht
          subst hw
          exact .right v d u c (ih _ b x y (by simp; omega) ht'.symm)

theorem blends_iff {p q : Text α} : Blends p q ↔ spell p = spell q :=
  ⟨spell_eq_of_blends, blends_of_spell_eq _ p.words q.words p.last q.last le_rfl⟩

end Separated
