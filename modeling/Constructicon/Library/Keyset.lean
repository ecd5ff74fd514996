import Mathlib.Tactic
import Mathlib.Data.List.Sort

/-!
# Pages by key

A page holds the first rows of a table after a key and at or below another, in the
order of their keys. A short page holds all of them; a full one leaves only larger keys.
-/

namespace Keyset

variable {α κ : Type} [LinearOrder κ] (key : α → κ)

def Beyond (after : Option κ) (k : κ) : Prop := ∀ a ∈ after, a < k

instance (after : Option κ) (k : κ) : Decidable (Beyond after k) :=
  inferInstanceAs (Decidable (∀ a ∈ after, a < k))

/-- The rows after `after`, at or below `through`. -/
def window (rows : List α) (after : Option κ) (through : κ) : List α :=
  rows.filter (fun r => Beyond after (key r) ∧ key r ≤ through)

/-- `ORDER BY key LIMIT limit` over a window. -/
def page (rows : List α) (after : Option κ) (through : κ) (limit : ℕ) : List α :=
  ((window key rows after through).insertionSort (fun a b => key a ≤ key b)).take limit

variable {key} {rows : List α} {after : Option κ} {through : κ} {limit : ℕ}

theorem mem_window {r : α} :
    r ∈ window key rows after through ↔ r ∈ rows ∧ Beyond after (key r) ∧ key r ≤ through := by
  simp [window]

theorem window_of_mem_page {r : α} (h : r ∈ page key rows after through limit) :
    r ∈ window key rows after through :=
  (List.perm_insertionSort _ _).mem_iff.mp (List.mem_of_mem_take h)

theorem page_sorted : (page key rows after through limit).Pairwise (fun a b => key a ≤ key b) := by
  have total : Std.Total (fun a b : α => key a ≤ key b) := ⟨fun a b => le_total _ _⟩
  have trans : IsTrans α (fun a b => key a ≤ key b) := ⟨fun _ _ _ => le_trans⟩
  exact (List.pairwise_insertionSort _ _).sublist (List.take_sublist _ _)

theorem page_increasing (distinct : (rows.map key).Nodup) :
    (page key rows after through limit).Pairwise (fun a b => key a < key b) := by
  have nodup : ((page key rows after through limit).map key).Nodup := by
    have sorted : (((window key rows after through).insertionSort
        (fun a b => key a ≤ key b)).map key).Nodup := by
      rw [((List.perm_insertionSort _ _).map key).nodup_iff]
      exact distinct.sublist (List.filter_sublist.map key)
    exact sorted.sublist ((List.take_sublist _ _).map key)
  have apart : (page key rows after through limit).Pairwise (fun a b => key a ≠ key b) :=
    List.pairwise_map.mp nodup
  exact (page_sorted.and apart).imp fun h => lt_of_le_of_ne h.1 h.2

theorem length_page :
    (page key rows after through limit).length = min limit (window key rows after through).length := by
  unfold page
  rw [List.length_take, List.length_insertionSort]

theorem mem_page_of_whole {r : α}
    (whole : (window key rows after through).length ≤ (page key rows after through limit).length)
    (h : r ∈ window key rows after through) : r ∈ page key rows after through limit := by
  have all : page key rows after through limit =
      (window key rows after through).insertionSort (fun a b => key a ≤ key b) := by
    apply List.take_of_length_le
    rw [length_page] at whole
    rw [List.length_insertionSort]
    omega
  rw [all]
  exact (List.perm_insertionSort _ _).mem_iff.mpr h

theorem page_le_of_not_mem {r p : α} (h : r ∈ window key rows after through)
    (out : r ∉ page key rows after through limit) (hp : p ∈ page key rows after through limit) :
    key p ≤ key r := by
  have total : Std.Total (fun a b : α => key a ≤ key b) := ⟨fun a b => le_total _ _⟩
  have trans : IsTrans α (fun a b => key a ≤ key b) := ⟨fun _ _ _ => le_trans⟩
  have sorted := List.pairwise_insertionSort (fun a b : α => key a ≤ key b)
    (window key rows after through)
  have mem := (List.perm_insertionSort (fun a b : α => key a ≤ key b) _).mem_iff.mpr h
  rw [← List.take_append_drop limit (List.insertionSort _ _)] at mem sorted
  rcases List.mem_append.mp mem with taken | dropped
  · exact absurd taken out
  · exact (List.pairwise_append.mp sorted).2.2 p hp r dropped

theorem page_le_last {r last : α} (hr : r ∈ page key rows after through limit)
    (hl : (page key rows after through limit).getLast? = some last) : key r ≤ key last := by
  have sorted : (page key rows after through limit).Pairwise (fun a b => key a ≤ key b) :=
    page_sorted
  obtain ⟨init, split⟩ := List.getLast?_eq_some_iff.mp hl
  rw [split] at hr sorted
  rcases List.mem_append.mp hr with old | new
  · exact (List.pairwise_append.mp sorted).2.2 r old last (List.mem_singleton_self _)
  · rw [List.mem_singleton.mp new]

/-! ## Following the pages -/

section Follow

variable {σ ε : Type} (key)

def next (rows : List α) (after : Option κ) (limit : ℕ) : List α :=
  (rows.filter (fun r => Beyond after (key r))).take limit

/-- Pages read at one state after another, each after the last row of the one before, until
one is short. -/
def follow (read : σ → Option κ → Except ε (List α)) (limit : ℕ) :
    List σ → Option κ → Except ε (List α)
  | [], _ => .ok []
  | s :: states, after => do
    let rows ← read s after
    match rows.getLast? with
    | none => return rows
    | some last =>
      if rows.length < limit then return rows
      else
        let more ← follow read limit states (some (key last))
        return rows ++ more

variable {key} {read : σ → Option κ → Except ε (List α)}

theorem filter_beyond {seen rest : List α}
    (increasing : (seen ++ rest).Pairwise (fun a b => key a < key b)) :
    (seen ++ rest).filter (fun r => Beyond (seen.getLast?.map key) (key r)) = rest := by
  obtain ⟨first, -, across⟩ := List.pairwise_append.mp increasing
  rw [List.filter_append]
  have gone : seen.filter (fun r => Beyond (seen.getLast?.map key) (key r)) = [] := by
    rw [List.filter_eq_nil_iff]
    intro r hr beyond
    cases hl : seen.getLast? with
    | none =>
      rw [List.getLast?_eq_none_iff] at hl
      rw [hl] at hr
      cases hr
    | some last =>
      rw [hl] at beyond
      have after : key last < key r := (of_decide_eq_true beyond) _ rfl
      obtain ⟨init, split⟩ := List.getLast?_eq_some_iff.mp hl
      rw [split] at hr first
      rcases List.mem_append.mp hr with old | new
      · have before := (List.pairwise_append.mp first).2.2 r old last (List.mem_singleton_self _)
        exact lt_asymm before after
      · rw [List.mem_singleton.mp new] at after
        exact lt_irrefl _ after
  have kept : rest.filter (fun r => Beyond (seen.getLast?.map key) (key r)) = rest := by
    rw [List.filter_eq_self]
    intro r hr
    apply decide_eq_true
    intro a ha
    cases hl : seen.getLast? with
    | none =>
      rw [hl] at ha
      cases ha
    | some last =>
      rw [hl] at ha
      cases ha
      exact across last (List.mem_of_getLast? hl) r hr
  rw [gone, kept, List.nil_append]

theorem follow_eq {rows : List α} (increasing : rows.Pairwise (fun a b => key a < key b))
    (positive : 0 < limit) (states : List σ) (enough : rows.length < states.length)
    (reads : ∀ s ∈ states, ∀ after, read s after = .ok (next key rows after limit)) :
    follow key read limit states none = .ok rows := by
  have general : ∀ (states : List σ) (seen rest : List α), rows = seen ++ rest →
      rest.length < states.length →
      (∀ s ∈ states, ∀ after, read s after = .ok (next key rows after limit)) →
      follow key read limit states (seen.getLast?.map key) = .ok rest := by
    clear enough reads states
    intro states
    induction states with
    | nil => exact fun _ _ _ enough => absurd enough (Nat.not_lt_zero _)
    | cons s states ih =>
      intro seen rest split enough reads
      have page : next key rows (seen.getLast?.map key) limit = rest.take limit := by
        unfold next
        rw [split, filter_beyond (split ▸ increasing)]
      unfold follow
      rw [reads s List.mem_cons_self, page]
      change (match (rest.take limit).getLast? with
        | none => Except.ok (rest.take limit)
        | some last => if (rest.take limit).length < limit then Except.ok (rest.take limit)
          else (do
            let more ← follow key read limit states (some (key last))
            return rest.take limit ++ more : Except ε (List α))) = _
      cases hl : (rest.take limit).getLast? with
      | none =>
        rw [List.getLast?_eq_none_iff, List.take_eq_nil_iff] at hl
        rcases hl with zero | empty
        · omega
        · simp [empty]
      | some last =>
        dsimp only
        rw [List.length_take]
        by_cases short : min limit rest.length < limit
        · rw [if_pos short, List.take_of_length_le (by omega)]
        · rw [if_neg short]
          have further : follow key read limit states (some (key last)) = .ok (rest.drop limit) := by
            have last' : (seen ++ rest.take limit).getLast?.map key = some (key last) := by
              rw [List.getLast?_append, hl]
              rfl
            rw [← last']
            apply ih
            · rw [List.append_assoc, List.take_append_drop, split]
            · rw [List.length_drop]
              rw [List.length_cons] at enough
              omega
            · exact fun s hs => reads s (List.mem_cons_of_mem _ hs)
          rw [further]
          change Except.ok (rest.take limit ++ rest.drop limit) = _
          rw [List.take_append_drop]
  exact general states [] rows rfl enough reads

end Follow

end Keyset
