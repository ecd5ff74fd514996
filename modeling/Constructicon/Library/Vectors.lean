import Mathlib.Tactic

/-!
# Length-prefixed vectors

Byte formats that nest vectors: a vector is its length, as a big-endian number of fixed width,
followed by that many bytes. Reading is exact (`take_eq_some`, `vector_eq_some`): a reader
returns a value and a rest exactly when the input is the value's encoding followed by the rest.
-/

namespace Vectors

abbrev Bytes := List UInt8

/-! ## Numbers -/

/-- `int.from_bytes(bytes, "big")` -/
def number (bytes : Bytes) : ℕ := bytes.foldl (fun n b => n * 256 + b.toNat) 0

/-- The `width` low bytes of a number, most significant first. -/
def numeral : ℕ → ℕ → Bytes
  | 0, _ => []
  | width + 1, n => numeral width (n / 256) ++ [UInt8.ofNat n]

@[simp] theorem number_nil : number [] = 0 := rfl

@[simp] theorem number_append (bytes : Bytes) (b : UInt8) :
    number (bytes ++ [b]) = number bytes * 256 + b.toNat := by
  simp [number]

@[simp] theorem length_numeral (width n : ℕ) : (numeral width n).length = width := by
  induction width generalizing n with
  | zero => rfl
  | succ width ih => simp [numeral, ih]

theorem number_lt (bytes : Bytes) : number bytes < 256 ^ bytes.length := by
  induction bytes using List.reverseRecOn with
  | nil => simp
  | append_singleton bytes b ih =>
    have small := b.toNat_lt
    rw [number_append, List.length_append, List.length_singleton, pow_succ]
    omega

theorem number_numeral {width n : ℕ} (h : n < 256 ^ width) : number (numeral width n) = n := by
  induction width generalizing n with
  | zero =>
    rw [pow_zero] at h
    have zero : n = 0 := by omega
    rw [zero]
    rfl
  | succ width ih =>
    have high : n / 256 < 256 ^ width := by
      rw [pow_succ] at h
      exact Nat.div_lt_of_lt_mul (by omega)
    rw [numeral, number_append, ih high, UInt8.toNat_ofNat']
    omega

theorem numeral_number (bytes : Bytes) : numeral bytes.length (number bytes) = bytes := by
  induction bytes using List.reverseRecOn with
  | nil => rfl
  | append_singleton bytes b ih =>
    have small := b.toNat_lt
    have high : (number bytes * 256 + b.toNat) / 256 = number bytes := by omega
    have low : UInt8.ofNat (number bytes * 256 + b.toNat) = b := by
      apply UInt8.toNat_inj.mp
      rw [UInt8.toNat_ofNat']
      omega
    rw [List.length_append, List.length_singleton, number_append, numeral, high, ih, low]

/-! ## Reading -/

/-- The first `count` bytes and the rest. -/
def take (count : ℕ) (data : Bytes) : Option (Bytes × Bytes) :=
  if count ≤ data.length then some (data.take count, data.drop count) else none

theorem take_eq_some {count : ℕ} {data value rest : Bytes} :
    take count data = some (value, rest) ↔ data = value ++ rest ∧ value.length = count := by
  unfold take
  constructor
  · intro h
    split_ifs at h with fits
    obtain ⟨rfl, rfl⟩ := Prod.mk.inj (Option.some.inj h)
    refine ⟨(List.take_append_drop count data).symm, ?_⟩
    rw [List.length_take]
    omega
  · rintro ⟨rfl, rfl⟩
    have fits : value.length ≤ (value ++ rest).length := by simp
    rw [if_pos fits, List.take_left, List.drop_left]

/-- A vector: its length in `width` bytes, then its bytes. -/
def vector (width : ℕ) (data : Bytes) : Option (Bytes × Bytes) :=
  (take width data).bind (fun r => take (number r.1) r.2)

def prefixed (width : ℕ) (value : Bytes) : Bytes := numeral width value.length ++ value

@[simp] theorem length_prefixed (width : ℕ) (value : Bytes) :
    (prefixed width value).length = width + value.length := by
  simp [prefixed]

theorem vector_eq_some {width : ℕ} {data value rest : Bytes} :
    vector width data = some (value, rest) ↔
      data = prefixed width value ++ rest ∧ value.length < 256 ^ width := by
  unfold vector
  rw [Option.bind_eq_some_iff]
  constructor
  · rintro ⟨⟨length, tail⟩, first, second⟩
    obtain ⟨rfl, width_eq⟩ := take_eq_some.mp first
    obtain ⟨split, value_length⟩ := take_eq_some.mp second
    dsimp only at split value_length
    rw [← width_eq, prefixed, value_length, numeral_number, split, List.append_assoc]
    exact ⟨rfl, number_lt length⟩
  · rintro ⟨rfl, small⟩
    refine ⟨(numeral width value.length, value ++ rest), take_eq_some.mpr ?_, take_eq_some.mpr ?_⟩
    · exact ⟨by rw [prefixed, List.append_assoc], length_numeral _ _⟩
    · exact ⟨rfl, (number_numeral small).symm⟩

/-! ## Searching -/

/-- Where `pattern` first occurs. -/
def find (pattern : Bytes) : Bytes → Option ℕ
  | [] => if pattern = [] then some 0 else none
  | b :: data => if pattern <+: b :: data then some 0 else (find pattern data).map (· + 1)

theorem find_eq_some {pattern data : Bytes} {k : ℕ} (nonempty : pattern ≠ []) :
    find pattern data = some k ↔ pattern <+: data.drop k ∧ ∀ j < k, ¬ pattern <+: data.drop j := by
  induction data generalizing k with
  | nil =>
    rw [find, if_neg nonempty]
    constructor
    · intro h
      exact absurd h (by simp)
    · rintro ⟨here, -⟩
      rw [List.drop_nil] at here
      exact absurd (List.prefix_nil.mp here) nonempty
  | cons b data ih =>
    rw [find]
    by_cases first : pattern <+: b :: data
    · rw [if_pos first]
      constructor
      · intro h
        cases h
        exact ⟨first, fun j hj => absurd hj (Nat.not_lt_zero j)⟩
      · rintro ⟨-, none⟩
        by_cases zero : k = 0
        · rw [zero]
        · exact absurd first (none 0 (by omega))
    · rw [if_neg first]
      cases k with
      | zero =>
        constructor
        · intro h
          obtain ⟨k, -, h⟩ := Option.map_eq_some_iff.mp h
          omega
        · rintro ⟨here, -⟩
          exact absurd here first
      | succ k =>
        rw [Option.map_eq_some_iff, List.drop_succ_cons]
        constructor
        · rintro ⟨k', found, same⟩
          obtain rfl : k' = k := by omega
          obtain ⟨here, none⟩ := ih.mp found
          refine ⟨here, fun j hj => ?_⟩
          cases j with
          | zero => exact first
          | succ j => exact none j (by omega)
        · rintro ⟨here, none⟩
          refine ⟨k, ih.mpr ⟨here, fun j hj => ?_⟩, rfl⟩
          exact none (j + 1) (by omega)

theorem find_le {pattern data : Bytes} {k : ℕ} (nonempty : pattern ≠ [])
    (h : find pattern data = some k) : k + pattern.length ≤ data.length := by
  obtain ⟨here, -⟩ := (find_eq_some nonempty).mp h
  have length := here.length_le
  have positive : 0 < pattern.length := List.length_pos_iff.mpr nonempty
  rw [List.length_drop] at length
  omega

theorem find_append {pattern data : Bytes} {k : ℕ} (nonempty : pattern ≠ [])
    (h : find pattern data = some k) (more : Bytes) : find pattern (data ++ more) = some k := by
  have inside := find_le nonempty h
  obtain ⟨here, none⟩ := (find_eq_some nonempty).mp h
  rw [find_eq_some nonempty]
  constructor
  · rw [List.drop_append_of_le_length (by omega)]
    exact here.trans (List.prefix_append _ _)
  · intro j hj early
    rw [List.drop_append_of_le_length (by omega)] at early
    refine none j hj (List.prefix_of_prefix_length_le early (List.prefix_append _ _) ?_)
    rw [List.length_drop]
    omega

end Vectors
