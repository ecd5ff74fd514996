import Mathlib.Data.List.Lex
import Mathlib.Data.String.Basic
import Mathlib.Tactic

/-!
# Times as texts

The ISO format of a time in UTC, which leaves its microseconds away where there are none. Texts of two times
compare as the times do.
-/

namespace IsoTime

/-- A time in UTC; only the widths of its fields are kept of the calendar. -/
structure UtcTime where
  year : ℕ
  month : ℕ
  day : ℕ
  hour : ℕ
  minute : ℕ
  second : ℕ
  microsecond : ℕ
  year_lt : year < 10 ^ 4
  month_lt : month < 10 ^ 2
  day_lt : day < 10 ^ 2
  hour_lt : hour < 10 ^ 2
  minute_lt : minute < 10 ^ 2
  second_lt : second < 10 ^ 2
  microsecond_lt : microsecond < 10 ^ 6
deriving DecidableEq

def UtcTime.fields (t : UtcTime) : List ℕ :=
  [t.year, t.month, t.day, t.hour, t.minute, t.second, t.microsecond]

instance : LT UtcTime := ⟨fun t u => t.fields < u.fields⟩

theorem UtcTime.fields_injective : Function.Injective UtcTime.fields := by
  intro t u same
  cases t
  cases u
  simpa [UtcTime.fields] using same

def digit (n : ℕ) : Char := Char.ofNat (48 + n)

/-- `n` in `width` digits. -/
def digits : ℕ → ℕ → List Char
  | 0, _ => []
  | width + 1, n => digit (n / 10 ^ width) :: digits width (n % 10 ^ width)

/-- The microseconds, where there are some, and the offset of UTC. -/
def fraction (microsecond : ℕ) : List Char :=
  (if microsecond = 0 then [] else '.' :: digits 6 microsecond) ++ "+00:00".toList

/-- `datetime.isoformat()` -/
def UtcTime.isoformat (t : UtcTime) : String :=
  String.ofList (digits 4 t.year ++ '-' :: (digits 2 t.month ++ '-' :: (digits 2 t.day ++ 'T' ::
    (digits 2 t.hour ++ ':' :: (digits 2 t.minute ++ ':' :: (digits 2 t.second ++
      fraction t.microsecond))))))

example : UtcTime.isoformat ⟨2025, 1, 31, 9, 5, 0, 250, by decide, by decide, by decide, by decide, by decide,
    by decide, by decide⟩ = "2025-01-31T09:05:00.000250+00:00" := by decide

theorem digit_lt : ∀ {m n : ℕ}, m < 10 → n < 10 → (digit m < digit n ↔ m < n) := by
  intro m n hm hn
  interval_cases m <;> interval_cases n <;> decide

theorem digit_injective {m n : ℕ} (hm : m < 10) (hn : n < 10) (same : digit m = digit n) : m = n := by
  have below := digit_lt hm hn
  have above := digit_lt hn hm
  rw [same] at below above
  have first : ¬m < n := fun lt => lt_irrefl _ (below.mpr lt)
  have second : ¬n < m := fun lt => lt_irrefl _ (above.mpr lt)
  omega

theorem digits_lt {width m n : ℕ} (hm : m < 10 ^ width) (hn : n < 10 ^ width) (s t : List Char) :
    digits width m ++ s < digits width n ++ t ↔ m < n ∨ m = n ∧ s < t := by
  induction width generalizing m n with
  | zero =>
    obtain rfl : m = 0 := by simpa using hm
    obtain rfl : n = 0 := by simpa using hn
    simp [digits]
  | succ width ih =>
    have positive : 0 < 10 ^ width := Nat.pow_pos (by omega)
    have dm : m / 10 ^ width < 10 := Nat.div_lt_of_lt_mul (by rwa [pow_succ] at hm)
    have dn : n / 10 ^ width < 10 := Nat.div_lt_of_lt_mul (by rwa [pow_succ] at hn)
    have em := Nat.div_add_mod m (10 ^ width)
    have en := Nat.div_add_mod n (10 ^ width)
    have rm := Nat.mod_lt m positive
    have rn := Nat.mod_lt n positive
    simp only [digits, List.cons_append]
    rw [List.cons_lt_cons_iff, digit_lt dm dn, ih rm rn]
    generalize m / 10 ^ width = a at *
    generalize n / 10 ^ width = b at *
    generalize m % 10 ^ width = c at *
    generalize n % 10 ^ width = d at *
    rcases lt_trichotomy a b with less | same | more
    · have step : 10 ^ width * (a + 1) ≤ 10 ^ width * b := Nat.mul_le_mul_left _ less
      have numbers : m < n := by
        rw [Nat.mul_add, Nat.mul_one] at step
        omega
      simp [less, numbers]
    · subst same
      have numbers : m < n ↔ c < d := by omega
      have equal : m = n ↔ c = d := by omega
      simp [numbers, equal]
    · have step : 10 ^ width * (b + 1) ≤ 10 ^ width * a := Nat.mul_le_mul_left _ more
      have numbers : n < m := by
        rw [Nat.mul_add, Nat.mul_one] at step
        omega
      have apart : digit a ≠ digit b := fun same => by
        have := digit_injective dm dn same
        omega
      have first : ¬a < b := by omega
      have second : ¬m < n := by omega
      have third : ¬m = n := by omega
      simp [apart, first, second, third]

theorem fraction_lt {m n : ℕ} (hm : m < 10 ^ 6) (hn : n < 10 ^ 6) : fraction m < fraction n ↔ m < n := by
  unfold fraction
  by_cases zm : m = 0
  · subst zm
    by_cases zn : n = 0
    · subst zn
      simp
    · rw [if_pos rfl, if_neg zn]
      have positive : 0 < n := by omega
      have earlier : '+' < '.' := by decide
      simp [positive, earlier, List.cons_lt_cons_iff]
  · by_cases zn : n = 0
    · subst zn
      rw [if_neg zm, if_pos rfl]
      have later : ¬ '.' < '+' := by decide
      simp [later, List.cons_lt_cons_iff]
    · rw [if_neg zm, if_neg zn, List.cons_append, List.cons_append, List.cons_lt_cons_iff, digits_lt hm hn]
      simp

theorem isoformat_lt {t u : UtcTime} : t.isoformat < u.isoformat ↔ t < u := by
  have separated : ∀ (c : Char) (s r : List Char), c :: s < c :: r ↔ s < r := by
    intro c s r
    simp
  change _ ↔ t.fields < u.fields
  unfold UtcTime.isoformat UtcTime.fields
  rw [String.lt_iff_toList_lt, String.toList_ofList, String.toList_ofList,
    digits_lt t.year_lt u.year_lt, separated, digits_lt t.month_lt u.month_lt, separated,
    digits_lt t.day_lt u.day_lt, separated, digits_lt t.hour_lt u.hour_lt, separated,
    digits_lt t.minute_lt u.minute_lt, separated, digits_lt t.second_lt u.second_lt,
    fraction_lt t.microsecond_lt u.microsecond_lt]
  simp [List.cons_lt_cons_iff]

theorem isoformat_injective : Function.Injective UtcTime.isoformat := by
  intro t u same
  have below : ¬t < u := fun lt => lt_irrefl _ (same ▸ isoformat_lt.mpr lt)
  have above : ¬u < t := fun lt => lt_irrefl _ (same ▸ isoformat_lt.mpr lt)
  rcases lt_trichotomy t.fields u.fields with less | equal | more
  · exact absurd less below
  · exact UtcTime.fields_injective equal
  · exact absurd more above

end IsoTime
