import Mathlib.Tactic

/-!
# Append-only numbering

The rows of an append-only table: each carries its position, counted from one. The rows up to a
number are the beginning of that length, so a number names a cut that later rows leave alone.
-/

namespace Numbered

variable {α β : Type}

def numbered (l : List α) : List (ℕ × α) := l.zipIdx.map (fun p => (p.2 + 1, p.1))

@[simp] theorem numbered_nil : numbered ([] : List α) = [] := rfl

@[simp] theorem numbered_append_singleton (l : List α) (a : α) :
    numbered (l ++ [a]) = numbered l ++ [(l.length + 1, a)] := by
  simp [numbered, List.zipIdx_append]

@[simp] theorem length_numbered (l : List α) : (numbered l).length = l.length := by
  simp [numbered]

theorem mem_numbered {l : List α} {n : ℕ} {a : α} (h : (n, a) ∈ numbered l) :
    0 < n ∧ n ≤ l.length ∧ l[n - 1]? = some a := by
  induction l using List.reverseRecOn with
  | nil => exact absurd h List.not_mem_nil
  | append_singleton l b ih =>
    rw [numbered_append_singleton] at h
    rcases List.mem_append.mp h with old | new
    · obtain ⟨positive, within, found⟩ := ih old
      refine ⟨positive, by rw [List.length_append]; omega, ?_⟩
      rw [List.getElem?_append_left (by omega)]
      exact found
    · cases List.mem_singleton.mp new
      refine ⟨by omega, by rw [List.length_append, List.length_singleton], ?_⟩
      simp

theorem map_snd_numbered (l : List α) : (numbered l).map Prod.snd = l := by
  induction l using List.reverseRecOn with
  | nil => rfl
  | append_singleton l a ih => rw [numbered_append_singleton, List.map_append, ih, List.map_singleton]

theorem map_numbered (f : α → β) (l : List α) :
    (numbered l).map (fun p => f p.2) = l.map f := by
  have whole := congrArg (List.map f) (map_snd_numbered l)
  rw [List.map_map] at whole
  exact whole

theorem filter_numbered (l : List α) (n : ℕ) :
    (numbered l).filter (fun p => p.1 ≤ n) = numbered (l.take n) := by
  induction l using List.reverseRecOn with
  | nil => simp
  | append_singleton l a ih =>
    rw [numbered_append_singleton, List.filter_append, ih, List.filter_singleton]
    by_cases within : l.length + 1 ≤ n
    · rw [List.take_of_length_le (by omega), List.take_of_length_le (by simp; omega),
        numbered_append_singleton]
      simp [within]
    · rw [List.take_append_of_le_length (by omega)]
      simp [within]

theorem max_numbered (l : List α) : ((numbered l).map Prod.fst).foldl max 0 = l.length := by
  induction l using List.reverseRecOn with
  | nil => rfl
  | append_singleton l a ih =>
    rw [numbered_append_singleton, List.map_append, List.foldl_append, ih]
    simp

theorem filter_snd_numbered (l : List α) (P : α → Prop) [DecidablePred P] :
    ((numbered l).filter (fun p => P p.2)).map Prod.snd = l.filter P := by
  induction l using List.reverseRecOn with
  | nil => rfl
  | append_singleton l a ih =>
    rw [numbered_append_singleton, List.filter_append, List.map_append, ih, List.filter_append]
    by_cases holds : P a <;> simp [holds]

theorem find?_snd_numbered (l : List α) (P : α → Prop) [DecidablePred P] :
    ((numbered l).find? (fun p => P p.2)).map Prod.snd = l.find? P := by
  rw [← List.head?_filter, ← List.head?_filter, ← List.head?_map, filter_snd_numbered]

theorem getLast?_snd_numbered (l : List α) (P : α → Prop) [DecidablePred P] :
    ((numbered l).filter (fun p => P p.2)).getLast?.map Prod.snd = (l.filter P).getLast? := by
  rw [← List.getLast?_map, filter_snd_numbered]

/-! ## Rows that carry their numbers -/

/-- The rows carry the numbers that follow `start`. -/
def Counted (number : α → ℕ) (start : ℕ) (l : List α) : Prop := l.map number = List.range' (start + 1) l.length

section

variable {number : α → ℕ} {start : ℕ} {l : List α}

theorem counted_cons {a : α} : Counted number start (a :: l) ↔ number a = start + 1 ∧ Counted number (start + 1) l := by
  simp [Counted, List.range'_succ]

theorem counted_append_singleton {a : α} :
    Counted number start (l ++ [a]) ↔ Counted number start l ∧ number a = start + l.length + 1 := by
  induction l generalizing start with
  | nil => simp [Counted]
  | cons b l ih =>
    rw [List.cons_append, counted_cons, counted_cons, ih, and_assoc, List.length_cons]
    have same : start + 1 + l.length + 1 = start + (l.length + 1) + 1 := by omega
    rw [same]

theorem Counted.lt (counted : Counted number start l) {a : α} (h : a ∈ l) : start < number a := by
  have inside : number a ∈ List.range' (start + 1) l.length := counted ▸ List.mem_map_of_mem h
  rw [List.mem_range'_1] at inside
  omega

theorem Counted.sorted (counted : Counted number start l) : l.Pairwise (fun a b => number a ≤ number b) := by
  have increasing : (l.map number).Pairwise (· < ·) := by
    rw [counted]
    exact List.pairwise_lt_range'
  exact (List.pairwise_map.mp increasing).imp le_of_lt

theorem Counted.after (counted : Counted number start l) (n : ℕ) :
    l.filter (fun a => start + n < number a) = l.drop n := by
  induction l generalizing start n with
  | nil => simp
  | cons a l ih =>
    obtain ⟨first, rest⟩ := counted_cons.mp counted
    cases n with
    | zero =>
      rw [List.drop_zero, List.filter_eq_self]
      intro b held
      have past := counted.lt held
      simpa using past
    | succ n =>
      have out : ¬start + (n + 1) < number a := by omega
      have same : start + (n + 1) = start + 1 + n := by omega
      rw [List.filter_cons_of_neg (by simpa using out), List.drop_succ_cons, same]
      exact ih rest n

theorem Counted.upto (counted : Counted number start l) (n : ℕ) :
    l.filter (fun a => number a ≤ start + n) = l.take n := by
  induction l generalizing start n with
  | nil => simp
  | cons a l ih =>
    obtain ⟨first, rest⟩ := counted_cons.mp counted
    cases n with
    | zero =>
      rw [List.take_zero, List.filter_eq_nil_iff]
      intro b held
      have past := counted.lt held
      simp only [decide_eq_true_eq]
      omega
    | succ n =>
      have inside : number a ≤ start + (n + 1) := by omega
      have same : start + (n + 1) = start + 1 + n := by omega
      rw [List.filter_cons_of_pos (by simpa using inside), List.take_succ_cons, same, ih rest n]

theorem Counted.drop (counted : Counted number start l) {n : ℕ} (h : n ≤ l.length) :
    Counted number (start + n) (l.drop n) := by
  induction n generalizing start l with
  | zero => simpa using counted
  | succ n ih =>
    cases l with
    | nil => simp at h
    | cons a l =>
      have rest := ih (counted_cons.mp counted).2 (by simpa using h)
      have same : start + (n + 1) = start + 1 + n := by omega
      rw [List.drop_succ_cons, same]
      exact rest

theorem Counted.front {first : List α} (counted : Counted number start l) (h : first <+: l) :
    Counted number start first := by
  obtain ⟨rest, rfl⟩ := h
  induction rest using List.reverseRecOn with
  | nil => simpa using counted
  | append_singleton rest a ih =>
    rw [← List.append_assoc] at counted
    exact ih (counted_append_singleton.mp counted).1

theorem Counted.last (counted : Counted number start l) {a : α} (h : l.getLast? = some a) :
    number a = start + l.length := by
  obtain ⟨front, rfl⟩ := List.getLast?_eq_some_iff.mp h
  have numbered := (counted_append_singleton.mp counted).2
  rw [List.length_append, List.length_singleton]
  omega

theorem Counted.max (counted : Counted number 0 l) : (l.map number).foldl max 0 = l.length := by
  induction l using List.reverseRecOn with
  | nil => rfl
  | append_singleton l a ih =>
    obtain ⟨before, last⟩ := counted_append_singleton.mp counted
    rw [List.map_append, List.foldl_append, ih before]
    simp only [List.map_cons, List.map_nil, List.foldl_cons, List.foldl_nil, List.length_append,
      List.length_singleton]
    omega

end

end Numbered
