import Constructicon.Library.IsoTime

/-!
# The calendar of `datetime`

A `datetime` in UTC is a day of the proleptic Gregorian calendar and a time of that day. Counting days, it is
a number of microseconds; the numbers are ordered as the fields, hence as the ISO texts. A text that is the
ISO format of a `datetime` is read back as it.
-/

namespace IsoTime

/-- `_is_leap` -/
def isLeap (year : ℕ) : Bool := year % 4 = 0 && (year % 100 ≠ 0 || year % 400 = 0)

/-- `_days_in_month`, of a leap year or another one -/
def daysInMonth (leap : Bool) (month : ℕ) : ℕ :=
  if month = 2 && leap then 29 else [0, 31, 28, 31, 30, 31, 30, 31, 31, 30, 31, 30, 31].getD month 0

/-- `_days_before_month` -/
def daysBeforeMonth (leap : Bool) (month : ℕ) : ℕ :=
  [0, 0, 31, 59, 90, 120, 151, 181, 212, 243, 273, 304, 334].getD month 0 + if 2 < month && leap then 1 else 0

/-- `_days_before_year` -/
def daysBeforeYear (year : ℕ) : ℕ := (year - 1) * 365 + (year - 1) / 4 - (year - 1) / 100 + (year - 1) / 400

/-- `date.toordinal()` -/
def UtcTime.toordinal (t : UtcTime) : ℕ :=
  daysBeforeYear t.year + daysBeforeMonth (isLeap t.year) t.month + t.day

/-- The fields that a `datetime` can have. -/
structure UtcTime.InCalendar (t : UtcTime) : Prop where
  year : 1 ≤ t.year
  month : 1 ≤ t.month ∧ t.month ≤ 12
  day : 1 ≤ t.day ∧ t.day ≤ daysInMonth (isLeap t.year) t.month
  hour : t.hour < 24
  minute : t.minute < 60
  second : t.second < 60

instance (t : UtcTime) : Decidable t.InCalendar :=
  decidable_of_iff (1 ≤ t.year ∧ (1 ≤ t.month ∧ t.month ≤ 12) ∧
      (1 ≤ t.day ∧ t.day ≤ daysInMonth (isLeap t.year) t.month) ∧ t.hour < 24 ∧ t.minute < 60 ∧ t.second < 60)
    ⟨fun h => ⟨h.1, h.2.1, h.2.2.1, h.2.2.2.1, h.2.2.2.2.1, h.2.2.2.2.2⟩,
      fun h => ⟨h.year, h.month, h.day, h.hour, h.minute, h.second⟩⟩

/-- A `datetime` in UTC. -/
structure Datetime extends UtcTime where
  valid : toUtcTime.InCalendar
deriving DecidableEq

def epochOrdinal : ℕ := 719163

example : UtcTime.toordinal ⟨1970, 1, 1, 0, 0, 0, 0, by decide, by decide, by decide, by decide, by decide, by decide,
    by decide⟩ = epochOrdinal := by decide

/-- The microseconds since the epoch: the days, seconds and microseconds of the difference. -/
def Datetime.sinceEpoch (t : Datetime) : ℤ :=
  ((t.toordinal : ℤ) - epochOrdinal) * 86400000000 +
    ((t.hour * 3600 + t.minute * 60 + t.second : ℕ) : ℤ) * 1000000 + t.microsecond

/-! ## Days -/

theorem daysBeforeYear_succ {year : ℕ} (positive : 1 ≤ year) :
    daysBeforeYear (year + 1) = daysBeforeYear year + 365 + if isLeap year then 1 else 0 := by
  obtain ⟨p, rfl⟩ : ∃ p, year = p + 1 := ⟨year - 1, by omega⟩
  have leaps : p / 100 ≤ p / 4 := Nat.div_le_div_left (by decide) (by decide)
  have step : ∀ b, (p + 1) / b = p / b + if b ∣ p + 1 then 1 else 0 := fun _ => Nat.succ_div
  have century : 100 ∣ p + 1 → 4 ∣ p + 1 := (show 4 ∣ 100 by decide).trans
  have fourth_century : 400 ∣ p + 1 → 100 ∣ p + 1 := (show 100 ∣ 400 by decide).trans
  have leap : isLeap (p + 1) = true ↔ 4 ∣ p + 1 ∧ (¬100 ∣ p + 1 ∨ 400 ∣ p + 1) := by
    simp [isLeap, Nat.dvd_iff_mod_eq_zero]
  unfold daysBeforeYear
  simp only [Nat.add_sub_cancel, leap, step]
  by_cases four : 4 ∣ p + 1
  · by_cases hundred : 100 ∣ p + 1
    · by_cases all : 400 ∣ p + 1
      · simp only [four, hundred, all, if_true, not_true_eq_false, or_true, and_true]
        omega
      · simp only [four, hundred, all, if_true, if_false, not_true_eq_false, or_false, and_false]
        omega
    · have all : ¬400 ∣ p + 1 := fun h => hundred (fourth_century h)
      simp only [four, hundred, all, if_true, if_false, not_false_eq_true, or_false, and_true]
      omega
  · have hundred : ¬100 ∣ p + 1 := fun h => four (century h)
    have all : ¬400 ∣ p + 1 := fun h => hundred (fourth_century h)
    simp only [four, hundred, all, if_false, false_and]
    omega

theorem daysBeforeYear_mono {y z : ℕ} (le : y ≤ z) : daysBeforeYear y ≤ daysBeforeYear z := by
  refine monotone_nat_of_le_succ (fun n => ?_) le
  rcases n.eq_zero_or_pos with rfl | positive
  · decide
  · have step := daysBeforeYear_succ positive
    omega

theorem month_fits : ∀ leap : Bool, ∀ m < 13, 1 ≤ m →
    (∀ n < 13, m < n → daysBeforeMonth leap m + daysInMonth leap m ≤ daysBeforeMonth leap n) ∧
      daysBeforeMonth leap m + daysInMonth leap m ≤ 365 + if leap then 1 else 0 := by decide

theorem toordinal_lt {t u : UtcTime} (ht : t.InCalendar) (hu : u.InCalendar)
    (earlier : t.year < u.year ∨ t.year = u.year ∧ (t.month < u.month ∨ t.month = u.month ∧ t.day < u.day)) :
    t.toordinal < u.toordinal := by
  obtain ⟨low, high⟩ := ht.month
  obtain ⟨low', high'⟩ := hu.month
  obtain ⟨next, whole⟩ := month_fits (isLeap t.year) t.month (by omega) low
  have day := ht.day.2
  have day' := hu.day.1
  unfold UtcTime.toordinal
  rcases earlier with year | ⟨year, month | ⟨month, less⟩⟩
  · have step := daysBeforeYear_succ ht.year
    have later := daysBeforeYear_mono (Nat.succ_le_of_lt year)
    rw [Nat.succ_eq_add_one] at later
    omega
  · have ends := next u.month (by omega) month
    rw [← year]
    omega
  · rw [← year, ← month]
    omega

/-! ## Microseconds -/

theorem Datetime.sinceEpoch_lt {t u : Datetime} (less : t.fields < u.fields) : t.sinceEpoch < u.sinceEpoch := by
  have hours := t.valid.hour
  have minutes := t.valid.minute
  have seconds := t.valid.second
  have micros := t.microsecond_lt
  have micros' := u.microsecond_lt
  simp only [UtcTime.fields, List.cons_lt_cons_iff, List.not_lt_nil, and_false, or_false] at less
  unfold sinceEpoch
  by_cases date : t.year < u.year ∨ t.year = u.year ∧ (t.month < u.month ∨ t.month = u.month ∧ t.day < u.day)
  · have days := toordinal_lt t.valid u.valid date
    omega
  · obtain ⟨year, month, day, time⟩ : t.year = u.year ∧ t.month = u.month ∧ t.day = u.day ∧ (t.hour < u.hour ∨
        t.hour = u.hour ∧ (t.minute < u.minute ∨ t.minute = u.minute ∧ (t.second < u.second ∨
          t.second = u.second ∧ t.microsecond < u.microsecond))) := by tauto
    have days : t.toordinal = u.toordinal := by rw [UtcTime.toordinal, UtcTime.toordinal, year, month, day]
    rw [days]
    have seconds' := u.valid.second
    have minutes' := u.valid.minute
    omega

theorem Datetime.toUtcTime_inj {t u : Datetime} (same : t.toUtcTime = u.toUtcTime) : t = u := by
  cases t
  cases u
  cases same
  rfl

theorem Datetime.fields_le {t u : Datetime} : ¬u.fields < t.fields ↔ t.sinceEpoch ≤ u.sinceEpoch := by
  constructor
  · intro within
    rcases lt_trichotomy t.fields u.fields with less | same | more
    · exact (sinceEpoch_lt less).le
    · rw [toUtcTime_inj (UtcTime.fields_injective same)]
    · exact absurd more within
  · intro le more
    have less := sinceEpoch_lt more
    omega

theorem Datetime.isoformat_le {t u : Datetime} : t.isoformat ≤ u.isoformat ↔ t.sinceEpoch ≤ u.sinceEpoch := by
  rw [← fields_le, ← not_lt, isoformat_lt]
  rfl

theorem Datetime.isoformat_inj {t u : Datetime} (same : t.isoformat = u.isoformat) : t = u :=
  toUtcTime_inj (isoformat_injective same)

/-! ## Reading -/

def number (text : List Char) : ℕ := text.foldl (fun n c => 10 * n + (c.toNat - 48)) 0

def readField (width : ℕ) (text : List Char) : ℕ × List Char := (number (text.take width), text.drop (width + 1))

/-- The `datetime` of seven numbers, if there is one. -/
def datetime? (year month day hour minute second microsecond : ℕ) : Option Datetime :=
  if widths : year < 10 ^ 4 ∧ month < 10 ^ 2 ∧ day < 10 ^ 2 ∧ hour < 10 ^ 2 ∧ minute < 10 ^ 2 ∧ second < 10 ^ 2 ∧
      microsecond < 10 ^ 6 then
    let t : UtcTime := ⟨year, month, day, hour, minute, second, microsecond, widths.1, widths.2.1, widths.2.2.1,
      widths.2.2.2.1, widths.2.2.2.2.1, widths.2.2.2.2.2.1, widths.2.2.2.2.2.2⟩
    if valid : t.InCalendar then some ⟨t, valid⟩ else none
  else none

/-- The `datetime` in UTC whose ISO format a text is. -/
def fromIsoformat (raw : String) : Option Datetime :=
  let year := readField 4 raw.toList
  let month := readField 2 year.2
  let day := readField 2 month.2
  let hour := readField 2 day.2
  let minute := readField 2 hour.2
  let second := readField 2 minute.2
  -- without a fraction only the offset is left
  let microsecond := if second.2.length = 5 then 0 else number (second.2.take 6)
  (datetime? year.1 month.1 day.1 hour.1 minute.1 second.1 microsecond).filter (fun t => t.isoformat = raw)

theorem length_digits (width n : ℕ) : (digits width n).length = width := by
  induction width generalizing n with
  | zero => rfl
  | succ width ih => rw [digits, List.length_cons, ih]

theorem foldl_digits {width n : ℕ} (fits : n < 10 ^ width) (a : ℕ) :
    (digits width n).foldl (fun n c => 10 * n + (c.toNat - 48)) a = a * 10 ^ width + n := by
  have value : ∀ d < 10, (digit d).toNat - 48 = d := by decide
  induction width generalizing n a with
  | zero =>
    obtain rfl : n = 0 := by simpa using fits
    simp [digits]
  | succ width ih =>
    have positive : 0 < 10 ^ width := Nat.pow_pos (by omega)
    have first : n / 10 ^ width < 10 := Nat.div_lt_of_lt_mul (by rwa [pow_succ] at fits)
    have whole := Nat.div_add_mod n (10 ^ width)
    rw [digits, List.foldl_cons, value _ first, ih (Nat.mod_lt n positive), pow_succ]
    conv_rhs => rw [← whole]
    ring

theorem readField_digits {width n : ℕ} (fits : n < 10 ^ width) (c : Char) (rest : List Char) :
    readField width (digits width n ++ c :: rest) = (n, rest) := by
  have length := length_digits width n
  have front : (digits width n ++ c :: rest).take width = digits width n := List.take_left' length
  have behind : (digits width n ++ c :: rest).drop (width + 1) = rest := by
    rw [← List.drop_drop, List.drop_left' length]
    rfl
  rw [readField, front, behind, number, foldl_digits fits, Nat.zero_mul, Nat.zero_add]

theorem fromIsoformat_iff {raw : String} {t : Datetime} : fromIsoformat raw = some t ↔ t.isoformat = raw := by
  constructor
  · intro read
    exact of_decide_eq_true (Option.filter_eq_some_iff.mp read).2
  · rintro rfl
    have micros : ∀ c rest, fraction t.microsecond = c :: rest →
        (if rest.length = 5 then 0 else number (rest.take 6)) = t.microsecond := by
      intro c rest same
      unfold fraction at same
      split_ifs at same with zero
      · cases same
        exact zero.symm
      · cases same
        have length := length_digits 6 t.microsecond
        have long : (digits 6 t.microsecond ++ "+00:00".toList).length ≠ 5 := by
          rw [List.length_append, length]
          omega
        change (if (digits 6 t.microsecond ++ "+00:00".toList).length = 5 then 0 else
          number ((digits 6 t.microsecond ++ "+00:00".toList).take 6)) = _
        rw [if_neg long, List.take_left' length, number, foldl_digits t.microsecond_lt, Nat.zero_mul, Nat.zero_add]
    obtain ⟨c, rest, split⟩ : ∃ c rest, fraction t.microsecond = c :: rest := by
      unfold fraction
      split_ifs <;> exact ⟨_, _, rfl⟩
    have fields := micros c rest split
    have again : datetime? t.year t.month t.day t.hour t.minute t.second t.microsecond = some t := by
      rw [datetime?, dif_pos ⟨t.year_lt, t.month_lt, t.day_lt, t.hour_lt, t.minute_lt, t.second_lt, t.microsecond_lt⟩]
      exact dif_pos t.valid
    unfold fromIsoformat
    rw [UtcTime.isoformat, String.toList_ofList, split]
    simp only [readField_digits t.year_lt, readField_digits t.month_lt, readField_digits t.day_lt,
      readField_digits t.hour_lt, readField_digits t.minute_lt, readField_digits t.second_lt, fields, again]
    rw [Option.filter_some, if_pos]
    rw [decide_eq_true_eq, UtcTime.isoformat, split]

end IsoTime
