import Constructicon.Library.Transaction
import Mathlib.Data.List.TakeWhile
import Mathlib.Data.Nat.Digits.Defs

/-!
# The `json` module

`json.loads` with an `object_pairs_hook` and the strings `json.dumps` prints, over texts as
lists of code points: a text may hold lone surrogates, and a value may be a float that is
not finite, a dictionary with keys that are no strings, or no JSON value at all. A float is
known by the text of its `repr` only.
-/

namespace PyJson

open Transaction

/-- A `str`: its code points. -/
abbrev PyStr := List ℕ

/-- The code points of a text without lone surrogates. -/
def points (s : String) : PyStr := s.toList.map Char.toNat

inductive PyValue (φ : Type) where
  | none
  | bool (b : Bool)
  | int (n : ℤ)
  /-- `none` is NaN or an infinity. -/
  | float (f : Option φ)
  | str (s : PyStr)
  | list (items : List (PyValue φ))
  | tuple (items : List (PyValue φ))
  | dict (entries : List (PyValue φ × PyValue φ))
  /-- An object that stands for another value: a model for its dump, a member of an
  enumeration for its value. -/
  | boxed (value : PyValue φ)
  | other

/-- `part` occurs somewhere in a value. -/
inductive Part {φ : Type} (part : PyValue φ) : PyValue φ → Prop
  | whole : Part part part
  | item {items : List (PyValue φ)} {v : PyValue φ} (mem : v ∈ items) (h : Part part v) :
      Part part (.list items)
  | member {items : List (PyValue φ)} {v : PyValue φ} (mem : v ∈ items) (h : Part part v) :
      Part part (.tuple items)
  | key {entries : List (PyValue φ × PyValue φ)} {e : PyValue φ × PyValue φ} (mem : e ∈ entries)
      (h : Part part e.1) : Part part (.dict entries)
  | value {entries : List (PyValue φ × PyValue φ)} {e : PyValue φ × PyValue φ} (mem : e ∈ entries)
      (h : Part part e.2) : Part part (.dict entries)
  | boxed {v : PyValue φ} (h : Part part v) : Part part (.boxed v)

def isDigit (c : ℕ) : Bool := 48 ≤ c && c ≤ 57

def isBlank (c : ℕ) : Bool := c == 32 || c == 9 || c == 10 || c == 13

def skipBlanks (s : PyStr) : PyStr := s.dropWhile isBlank

/-! ## Numbers -/

/-- `str(n)` of a natural number. -/
def decimal (n : ℕ) : PyStr :=
  if n = 0 then [48] else (Nat.digits 10 n).reverse.map (· + 48)

/-- `str(n)` -/
def integer : ℤ → PyStr
  | .ofNat n => decimal n
  | .negSucc n => 45 :: decimal (n + 1)

/-- `int(s)` of a row of digits. -/
def ofDigits (s : PyStr) : ℕ := s.foldl (fun n d => 10 * n + (d - 48)) 0

/-- `int(s)` of a literal. -/
def ofInteger : PyStr → ℤ
  | 45 :: s => -(ofDigits s : ℤ)
  | s => ofDigits s

/-- `(0|[1-9][0-9]*)` -/
def scanDigits : PyStr → Option (PyStr × PyStr)
  | [] => none
  | d :: s =>
    if d = 48 then some ([48], s)
    else if isDigit d then some (d :: s.takeWhile isDigit, s.dropWhile isDigit)
    else none

/-- `-?(0|[1-9][0-9]*)` -/
def scanIntegral (s : PyStr) : Option (PyStr × PyStr) :=
  if s.head? = some 45 then (scanDigits s.tail).map (fun r => (45 :: r.1, r.2)) else scanDigits s

/-- `(\.[0-9]+)?` -/
def scanFraction : PyStr → PyStr × PyStr
  | 46 :: s =>
    if s.takeWhile isDigit = [] then ([], 46 :: s)
    else (46 :: s.takeWhile isDigit, s.dropWhile isDigit)
  | s => ([], s)

/-- `[-+]?` -/
def scanSign : PyStr → PyStr × PyStr
  | [] => ([], [])
  | c :: s => if c = 43 ∨ c = 45 then ([c], s) else ([], c :: s)

/-- `([eE][-+]?[0-9]+)?` -/
def scanExponent : PyStr → PyStr × PyStr
  | [] => ([], [])
  | e :: s =>
    if e = 101 ∨ e = 69 then
      let (sign, digits) := scanSign s
      if digits.takeWhile isDigit = [] then ([], e :: s)
      else (e :: sign ++ digits.takeWhile isDigit, digits.dropWhile isDigit)
    else ([], e :: s)

/-- How floats are printed and read: what is printed is a literal that reads back. -/
structure FloatText (φ : Type) where
  repr : φ → String
  /-- `float(s)` of a literal; `none` when it overflows. -/
  read : PyStr → Option φ
  read_repr : ∀ f, read (points (repr f)) = some f
  literal : ∀ f, ∃ integral fraction exponent, points (repr f) = integral ++ fraction ++ exponent ∧
    scanIntegral integral = some (integral, []) ∧ scanFraction fraction = (fraction, []) ∧
    scanExponent exponent = (exponent, []) ∧ ¬(fraction = [] ∧ exponent = [])

def noFloats : FloatText Empty where
  repr := Empty.elim
  read _ := none
  read_repr f := f.elim
  literal f := f.elim

variable {φ ε : Type} (F : FloatText φ)

def scanNumber (s : PyStr) : Option (PyValue φ × PyStr) := do
  let (integral, s) ← scanIntegral s
  let (fraction, s) := scanFraction s
  let (exponent, s) := scanExponent s
  if fraction = [] ∧ exponent = [] then return (.int (ofInteger integral), s)
  else return (.float (F.read (integral ++ fraction ++ exponent)), s)

/-! ## Strings -/

def hexDigit (c : ℕ) : Option ℕ :=
  if 48 ≤ c ∧ c ≤ 57 then some (c - 48)
  else if 97 ≤ c ∧ c ≤ 102 then some (c - 87)
  else if 65 ≤ c ∧ c ≤ 70 then some (c - 55)
  else none

/-- The four digits after `\u`. -/
def hex4 (a b c d : ℕ) : Option ℕ := do
  return 4096 * (← hexDigit a) + 256 * (← hexDigit b) + 16 * (← hexDigit c) + (← hexDigit d)

/-- What a backslash and this character stand for. -/
def unescape (c : ℕ) : Option ℕ :=
  if c = 34 ∨ c = 92 ∨ c = 47 then some c
  else if c = 98 then some 8
  else if c = 102 then some 12
  else if c = 110 then some 10
  else if c = 114 then some 13
  else if c = 116 then some 9
  else none

def HighSurrogate (c : ℕ) : Prop := 0xd800 ≤ c ∧ c ≤ 0xdbff

def LowSurrogate (c : ℕ) : Prop := 0xdc00 ≤ c ∧ c ≤ 0xdfff

instance (c : ℕ) : Decidable (HighSurrogate c) := inferInstanceAs (Decidable (_ ∧ _))

instance (c : ℕ) : Decidable (LowSurrogate c) := inferInstanceAs (Decidable (_ ∧ _))

/-- A unit of a string: a character, or a code unit written as `\uXXXX`. -/
inductive StrUnit where
  | char (c : ℕ)
  | escaped (c : ℕ)

def consUnit (u : StrUnit) (read : Option (List StrUnit × PyStr)) : Option (List StrUnit × PyStr) :=
  read.map (fun r => (u :: r.1, r.2))

/-- The units of a string up to its closing quote. -/
def scanUnits : PyStr → Option (List StrUnit × PyStr)
  | [] => none
  | 34 :: s => some ([], s)
  | 92 :: 117 :: a :: b :: c :: d :: s =>
    (hex4 a b c d).bind (fun u => consUnit (.escaped u) (scanUnits s))
  | 92 :: e :: s => (unescape e).bind (fun c => consUnit (.char c) (scanUnits s))
  | c :: s => if c < 32 ∨ c = 92 then none else consUnit (.char c) (scanUnits s)

/-- Two escapes that are a surrogate pair are one character. -/
def joinUnits : List StrUnit → PyStr
  | .escaped u :: .escaped v :: units =>
    if HighSurrogate u ∧ LowSurrogate v then
      (0x10000 + (u - 0xd800) * 0x400 + (v - 0xdc00)) :: joinUnits units
    else u :: joinUnits (.escaped v :: units)
  | .escaped u :: units => u :: joinUnits units
  | .char c :: units => c :: joinUnits units
  | [] => []

/-- `scanstring` after the opening quote. -/
def scanString (s : PyStr) : Option (PyStr × PyStr) :=
  (scanUnits s).map (fun r => (joinUnits r.1, r.2))

/-! ## Values -/

/-- `true`, `false`, `null` and the three constants that are no JSON. -/
def constants : List (PyStr × PyValue φ) :=
  [([116, 114, 117, 101], .bool true), ([102, 97, 108, 115, 101], .bool false),
    ([110, 117, 108, 108], .none), ([78, 97, 78], .float none),
    ([73, 110, 102, 105, 110, 105, 116, 121], .float none),
    ([45, 73, 110, 102, 105, 110, 105, 116, 121], .float none)]

/-- The rest of the text after a word it begins with. -/
def after : PyStr → PyStr → Option PyStr
  | [], s => some s
  | c :: word, d :: s => if c = d then after word s else none
  | _ :: _, [] => none

def scanConstant (s : PyStr) : Option (PyValue φ × PyStr) :=
  constants.findSome? (fun c => (after c.1 s).map (fun rest => (c.2, rest)))

section Scan

variable (bad : ε) (hook : List (PyStr × PyValue φ) → Except ε (PyValue φ))

mutual

/-- `scan_once`: one value and the text after it. Fewer than four calls stand between two
characters of the text, which bounds the fuel. -/
def scanOnce : ℕ → PyStr → Except ε (PyValue φ × PyStr)
  | 0, _ => .error bad
  | _ + 1, [] => .error bad
  | fuel + 1, c :: s =>
    if c = 34 then do
      let (text, s) ← expect (scanString s) bad
      return (.str text, s)
    else if c = 123 then do
      let (pairs, s) ← scanObject fuel (skipBlanks s)
      let value ← hook pairs
      return (value, s)
    else if c = 91 then do
      let (items, s) ← scanArray fuel (skipBlanks s)
      return (.list items, s)
    else
      match scanConstant (c :: s) with
      | some r => .ok r
      | none => expect (scanNumber F (c :: s)) bad

def scanArray : ℕ → PyStr → Except ε (List (PyValue φ) × PyStr)
  | 0, _ => .error bad
  | fuel + 1, s =>
    match s with
    | 93 :: s => .ok ([], s)
    | s => scanItems fuel s

def scanItems : ℕ → PyStr → Except ε (List (PyValue φ) × PyStr)
  | 0, _ => .error bad
  | fuel + 1, s => do
    let (item, s) ← scanOnce fuel s
    match skipBlanks s with
    | 93 :: s => return ([item], s)
    | 44 :: s => do
      let (items, s) ← scanItems fuel (skipBlanks s)
      return (item :: items, s)
    | _ => .error bad

def scanObject : ℕ → PyStr → Except ε (List (PyStr × PyValue φ) × PyStr)
  | 0, _ => .error bad
  | fuel + 1, s =>
    match s with
    | 125 :: s => .ok ([], s)
    | s => scanMembers fuel s

def scanMembers : ℕ → PyStr → Except ε (List (PyStr × PyValue φ) × PyStr)
  | fuel + 1, 34 :: s => do
    let (key, s) ← expect (scanString s) bad
    match skipBlanks s with
    | 58 :: s => do
      let (value, s) ← scanOnce fuel (skipBlanks s)
      match skipBlanks s with
      | 125 :: s => return ([(key, value)], s)
      | 44 :: s => do
        let (members, s) ← scanMembers fuel (skipBlanks s)
        return ((key, value) :: members, s)
      | _ => .error bad
    | _ => .error bad
  | _, _ => .error bad

end

/-- `json.loads(text, object_pairs_hook=hook)` -/
def loads (text : PyStr) : Except ε (PyValue φ) := do
  require (text.head? ≠ some 0xfeff) bad
  let (value, s) ← scanOnce F bad hook (4 * text.length + 4) (skipBlanks text)
  require (skipBlanks s = []) bad
  return value

end Scan

/-! ## Printing -/

def hexChar (n : ℕ) : ℕ := if n < 10 then 48 + n else 87 + n

/-- How `json.dumps` prints a character with `ensure_ascii=False`. -/
def escape (c : ℕ) : PyStr :=
  if c = 34 ∨ c = 92 then [92, c]
  else if c = 8 then [92, 98]
  else if c = 9 then [92, 116]
  else if c = 10 then [92, 110]
  else if c = 12 then [92, 102]
  else if c = 13 then [92, 114]
  else if c < 32 then [92, 117, 48, 48, hexChar (c / 16), hexChar (c % 16)]
  else [c]

def quote (s : PyStr) : PyStr := 34 :: (s.flatMap escape ++ [34])

/-! ## Reading what was printed -/

def printedUnit (c : ℕ) : StrUnit :=
  if c < 32 ∧ c ∉ [8, 9, 10, 12, 13] then .escaped c else .char c

theorem scanUnits_char {c : ℕ} (s : PyStr) (plain : 32 ≤ c) (quoted : c ≠ 34) (slashed : c ≠ 92) :
    scanUnits (c :: s) = consUnit (.char c) (scanUnits s) := by
  have legal : ¬(c < 32 ∨ c = 92) := by omega
  rw [scanUnits.eq_def]
  split
  · contradiction
  · simp_all
  · simp_all
  · simp_all
  · next c' s' _ _ _ same =>
    cases same
    rw [if_neg legal]

theorem scanUnits_escape (c : ℕ) (s : PyStr) :
    scanUnits (escape c ++ s) = consUnit (printedUnit c) (scanUnits s) := by
  by_cases control : c < 32
  · interval_cases c <;> (rw [scanUnits.eq_def]; simp [escape]; rfl)
  · have unit : printedUnit c = .char c := if_neg fun h => control h.1
    rw [unit]
    by_cases special : c = 34 ∨ c = 92
    · rcases special with rfl | rfl <;> (rw [scanUnits.eq_def]; simp [escape, unescape])
    · have printed : escape c = [c] := by
        unfold escape
        rw [if_neg special, if_neg (by omega), if_neg (by omega), if_neg (by omega),
          if_neg (by omega), if_neg (by omega), if_neg control]
      rw [printed, List.singleton_append,
        scanUnits_char s (by omega) (fun h => special (.inl h)) (fun h => special (.inr h))]

theorem scanUnits_escaped (t rest : PyStr) :
    scanUnits (t.flatMap escape ++ 34 :: rest) = some (t.map printedUnit, rest) := by
  induction t with
  | nil => rfl
  | cons c t ih =>
    rw [List.flatMap_cons, List.append_assoc, scanUnits_escape, ih]
    rfl

theorem joinUnits_cons (c : ℕ) (units : List StrUnit) :
    joinUnits (printedUnit c :: units) = c :: joinUnits units := by
  unfold printedUnit
  split_ifs with control
  · have low : ¬HighSurrogate c := by
      unfold HighSurrogate
      omega
    cases units with
    | nil => rfl
    | cons u units => cases u <;> simp [joinUnits, low]
  · simp [joinUnits]

theorem joinUnits_printed (t : PyStr) : joinUnits (t.map printedUnit) = t := by
  induction t with
  | nil => rfl
  | cons c t ih => rw [List.map_cons, joinUnits_cons, ih]

theorem scanString_quoted (t rest : PyStr) :
    scanString (t.flatMap escape ++ 34 :: rest) = some (t, rest) := by
  unfold scanString
  rw [scanUnits_escaped, Option.map_some, joinUnits_printed]

/-! ## Reading numbers -/

/-- The text does not begin with a character of this kind. -/
def Clear (p : ℕ → Bool) (s : PyStr) : Prop := ∀ c ∈ s.head?, p c = false

def numberPart (c : ℕ) : Bool := isDigit c || c == 46 || c == 101 || c == 69

theorem Clear.mono {p q : ℕ → Bool} {s : PyStr} (h : Clear p s) (weaker : ∀ c, q c = true → p c = true) :
    Clear q s := by
  intro c hc
  have none := h c hc
  cases hq : q c with
  | false => rfl
  | true =>
    rw [weaker c hq] at none
    cases none

theorem takeWhile_clear {p : ℕ → Bool} {s : PyStr} (h : Clear p s) : s.takeWhile p = [] := by
  cases s with
  | nil => rfl
  | cons c s => rw [List.takeWhile_cons_of_neg (by simp [h c rfl])]

theorem dropWhile_clear {p : ℕ → Bool} {s : PyStr} (h : Clear p s) : s.dropWhile p = s := by
  cases s with
  | nil => rfl
  | cons c s => rw [List.dropWhile_cons_of_neg (by simp [h c rfl])]

theorem digits_append {s rest : PyStr} (whole : s.dropWhile isDigit = []) (clear : Clear isDigit rest) :
    (s ++ rest).takeWhile isDigit = s.takeWhile isDigit ∧ (s ++ rest).dropWhile isDigit = rest := by
  have all : ∀ c ∈ s, isDigit c = true := List.dropWhile_eq_nil_iff.mp whole
  rw [List.takeWhile_append_of_pos all, List.dropWhile_append_of_pos all, takeWhile_clear clear,
    dropWhile_clear clear, List.append_nil]
  exact ⟨(List.takeWhile_eq_self_iff.mpr all).symm, rfl⟩

theorem scanDigits_append {s a rest : PyStr} (h : scanDigits s = some (a, []))
    (clear : Clear isDigit rest) : scanDigits (s ++ rest) = some (a, rest) := by
  cases s with
  | nil => cases h
  | cons d s =>
    simp only [List.cons_append, scanDigits] at h ⊢
    split_ifs at h ⊢ with zero digit
    · cases h
      rfl
    · simp only [Option.some.injEq, Prod.mk.injEq] at h ⊢
      obtain ⟨same, whole⟩ := digits_append h.2 clear
      rw [same, whole]
      exact ⟨h.1, rfl⟩

theorem scanIntegral_append {s a rest : PyStr} (h : scanIntegral s = some (a, []))
    (clear : Clear isDigit rest) : scanIntegral (s ++ rest) = some (a, rest) := by
  cases s with
  | nil => cases h
  | cons c s =>
    unfold scanIntegral at h ⊢
    rw [List.cons_append, List.head?_cons, List.tail_cons]
    rw [List.head?_cons, List.tail_cons] at h
    split_ifs at h ⊢ with minus
    · rw [Option.map_eq_some_iff] at h
      obtain ⟨⟨t, t'⟩, read, same⟩ := h
      simp only [Prod.mk.injEq] at same
      obtain ⟨rfl, rfl⟩ := same
      rw [scanDigits_append read clear]
      rfl
    · exact scanDigits_append (s := c :: s) h clear

theorem scanFraction_clear {s : PyStr} (clear : Clear (· == 46) s) : scanFraction s = ([], s) := by
  unfold scanFraction
  split
  · next s =>
    have dot := clear 46 rfl
    cases dot
  · rfl

theorem scanFraction_append {s rest : PyStr} (h : scanFraction s = (s, []))
    (clear : Clear (fun c => c == 46 || isDigit c) rest) : scanFraction (s ++ rest) = (s, rest) := by
  have digits : Clear isDigit rest := clear.mono fun c hc => by simp [hc]
  cases s with
  | nil => exact scanFraction_clear (clear.mono fun c hc => by simp_all)
  | cons c s =>
    unfold scanFraction at h
    split at h
    · next t same =>
      cases same
      split_ifs at h with empty
      · cases h
      · simp only [Prod.mk.injEq, List.cons.injEq, true_and] at h
        obtain ⟨same, whole⟩ := digits_append h.2 digits
        rw [List.cons_append, scanFraction, same, whole, if_neg empty, h.1]
    · cases h

theorem scanExponent_append {s rest : PyStr} (h : scanExponent s = (s, []))
    (clear : Clear numberPart rest) : scanExponent (s ++ rest) = (s, rest) := by
  have digits : Clear isDigit rest := clear.mono fun c hc => by simp [numberPart, hc]
  cases s with
  | nil =>
    cases rest with
    | nil => rfl
    | cons c rest =>
      have stop := clear c rfl
      have other : ¬(c = 101 ∨ c = 69) := by
        rintro (rfl | rfl) <;> cases stop
      rw [List.nil_append, scanExponent, if_neg other]
  | cons e t =>
    simp only [List.cons_append, scanExponent] at h ⊢
    split_ifs at h with letter empty
    · cases h
    · rw [if_pos letter]
      simp only [Prod.mk.injEq, List.cons.injEq, true_and] at h
      obtain ⟨same, whole⟩ := digits_append h.2 digits
      have sign : scanSign (t ++ rest) = ((scanSign t).1, (scanSign t).2 ++ rest) := by
        cases t with
        | nil => exact absurd rfl empty
        | cons c t =>
          simp only [List.cons_append, scanSign]
          split_ifs <;> rfl
      rw [sign]
      dsimp only
      rw [same, whole, if_neg empty, h.1]
    · cases h

theorem scanNumber_float (f : φ) {rest : PyStr} (clear : Clear numberPart rest) :
    scanNumber F (points (F.repr f) ++ rest) = some (.float (some f), rest) := by
  obtain ⟨integral, fraction, exponent, same, hi, hf, he, part⟩ := F.literal f
  have afterFraction : Clear (fun c => c == 46 || isDigit c) (exponent ++ rest) := by
    intro c hc
    cases exponent with
    | nil =>
      have stop := clear c hc
      simp only [numberPart, Bool.or_eq_false_iff] at stop
      simp [stop]
    | cons e exponent =>
      cases hc
      simp only [scanExponent] at he
      split_ifs at he with letter empty
      · cases he
      · rcases letter with rfl | rfl <;> rfl
      · cases he
  have afterIntegral : Clear isDigit (fraction ++ (exponent ++ rest)) := by
    intro c hc
    cases fraction with
    | nil =>
      have stop := afterFraction c hc
      simp only [Bool.or_eq_false_iff] at stop
      exact stop.2
    | cons d fraction =>
      cases hc
      unfold scanFraction at hf
      split at hf
      · next same =>
        cases same
        rfl
      · cases hf
  unfold scanNumber
  rw [same, List.append_assoc, List.append_assoc, scanIntegral_append hi afterIntegral]
  simp only [Option.bind_eq_bind, Option.bind_some, scanFraction_append hf afterFraction,
    scanExponent_append he clear]
  rw [if_neg part, ← same, F.read_repr]
  rfl

/-! ### Integers -/

theorem decimal_digits (n : ℕ) : ∀ c ∈ decimal n, isDigit c = true := by
  intro c hc
  unfold decimal at hc
  split_ifs at hc with zero
  · rw [List.mem_singleton.mp hc]
    rfl
  · obtain ⟨d, hd, rfl⟩ := List.mem_map.mp hc
    have small := Nat.digits_lt_base (by decide) (List.mem_reverse.mp hd)
    unfold isDigit
    simp only [Bool.and_eq_true, decide_eq_true_eq]
    omega

theorem ofDigits_decimal (n : ℕ) : ofDigits (decimal n) = n := by
  unfold decimal
  split_ifs with zero
  · rw [zero]
    rfl
  · unfold ofDigits
    rw [List.foldl_map, List.foldl_reverse]
    have value := Nat.ofDigits_digits 10 n
    rw [Nat.ofDigits_eq_foldr] at value
    conv_rhs => rw [← value]
    congr 1
    funext d acc
    simp only [Nat.cast_id]
    omega

/-- A decimal is `0` or begins with another digit. -/
theorem scanDigits_decimal (n : ℕ) : scanDigits (decimal n) = some (decimal n, []) := by
  by_cases zero : n = 0
  · subst zero
    rfl
  · have all := decimal_digits n
    cases hd : decimal n with
    | nil =>
      unfold decimal at hd
      rw [if_neg zero, List.map_eq_nil_iff, List.reverse_eq_nil_iff] at hd
      exact absurd (Nat.digits_eq_nil_iff_eq_zero.mp hd) zero
    | cons d s =>
      have first : d ≠ 48 := by
        unfold decimal at hd
        rw [if_neg zero] at hd
        have nonempty : Nat.digits 10 n ≠ [] := fun h => zero (Nat.digits_eq_nil_iff_eq_zero.mp h)
        have last := Nat.getLast_digit_ne_zero 10 zero
        have head : ((Nat.digits 10 n).reverse.map (· + 48)).head? =
            some ((Nat.digits 10 n).getLast nonempty + 48) := by
          rw [List.head?_map, List.head?_reverse, List.getLast?_eq_some_getLast nonempty]
          rfl
        rw [hd, List.head?_cons] at head
        have same := Option.some.inj head
        omega
      rw [hd] at all
      have rest : ∀ c ∈ s, isDigit c = true := fun c hc => all c (List.mem_cons_of_mem _ hc)
      rw [scanDigits, if_neg first, if_pos (all d List.mem_cons_self),
        List.takeWhile_eq_self_iff.mpr rest, List.dropWhile_eq_nil_iff.mpr rest]

theorem head_decimal (n : ℕ) : (decimal n).head? ≠ some 45 := by
  intro minus
  have digit := decimal_digits n 45 (List.mem_of_mem_head? minus)
  cases digit

theorem scanIntegral_integer (n : ℤ) : scanIntegral (integer n) = some (integer n, []) := by
  unfold scanIntegral
  cases n with
  | ofNat n =>
    change (if (decimal n).head? = some 45 then _ else scanDigits (decimal n)) = _
    rw [if_neg (head_decimal n), scanDigits_decimal]
    rfl
  | negSucc n =>
    have minus : (integer (.negSucc n)).head? = some 45 := rfl
    have rest : (integer (.negSucc n)).tail = decimal (n + 1) := rfl
    rw [if_pos minus, rest, scanDigits_decimal]
    rfl

theorem ofInteger_integer (n : ℤ) : ofInteger (integer n) = n := by
  cases n with
  | ofNat n =>
    have plain : ofInteger (decimal n) = ofDigits (decimal n) := by
      unfold ofInteger
      split
      · next s same => exact absurd (congrArg List.head? same) (head_decimal n)
      · rfl
    change ofInteger (decimal n) = _
    rw [plain, ofDigits_decimal]
    rfl
  | negSucc n =>
    change -((ofDigits (decimal (n + 1)) : ℕ) : ℤ) = _
    rw [ofDigits_decimal]
    rfl

theorem scanNumber_integer (n : ℤ) {rest : PyStr} (clear : Clear numberPart rest) :
    scanNumber F (integer n ++ rest) = some (.int n, rest) := by
  have digits : Clear isDigit rest := clear.mono fun c hc => by simp [numberPart, hc]
  have fraction : scanFraction rest = ([], rest) :=
    scanFraction_clear (clear.mono fun c hc => by simp_all [numberPart])
  have exponent : scanExponent rest = ([], rest) := scanExponent_append (s := []) rfl clear
  unfold scanNumber
  rw [scanIntegral_append (scanIntegral_integer n) digits]
  simp only [Option.bind_eq_bind, Option.bind_some, fraction, exponent]
  rw [if_pos ⟨trivial, trivial⟩, ofInteger_integer]
  rfl

/-! ## Reading values -/

theorem Clear.cons {p : ℕ → Bool} {c : ℕ} (h : p c = false) (s : PyStr) : Clear p (c :: s) := by
  intro d hd
  cases hd
  exact h

theorem skipBlanks_clear {s : PyStr} (h : Clear isBlank s) : skipBlanks s = s := dropWhile_clear h

theorem scanIntegral_cons {s : PyStr} {r : PyStr × PyStr} (h : scanIntegral s = some r) :
    ∃ c t, s = c :: t ∧ (isDigit c = true ∨ c = 45 ∧ ∃ d u, t = d :: u ∧ isDigit d = true) := by
  have digits : ∀ {s : PyStr} {r : PyStr × PyStr}, scanDigits s = some r →
      ∃ c t, s = c :: t ∧ isDigit c = true := by
    intro s r h
    cases s with
    | nil => cases h
    | cons d s =>
      refine ⟨d, s, rfl, ?_⟩
      simp only [scanDigits] at h
      split_ifs at h with zero digit
      · rw [zero]
        rfl
      · exact digit
  unfold scanIntegral at h
  split_ifs at h with minus
  · rw [Option.map_eq_some_iff] at h
    obtain ⟨r', read, -⟩ := h
    cases s with
    | nil => cases minus
    | cons c s =>
      cases minus
      obtain ⟨d, u, same, digit⟩ := digits read
      exact ⟨45, s, rfl, .inr ⟨rfl, d, u, same, digit⟩⟩
  · obtain ⟨c, t, same, digit⟩ := digits h
    exact ⟨c, t, same, .inl digit⟩

theorem scanConstant_number {s : PyStr} {r : PyStr × PyStr} (h : scanIntegral s = some r) :
    scanConstant (φ := φ) s = none := by
  obtain ⟨c, t, rfl, shape⟩ := scanIntegral_cons h
  unfold scanConstant constants
  rcases shape with digit | ⟨rfl, d, u, rfl, digit⟩
  · have other : ∀ w, isDigit w = false → w ≠ c := by
      rintro w hw rfl
      rw [digit] at hw
      cases hw
    simp [after, other 116 rfl, other 102 rfl, other 110 rfl, other 78 rfl, other 73 rfl, other 45 rfl]
  · have other : 73 ≠ d := by
      rintro rfl
      cases digit
    simp [after, other]

section Parts

variable {F} {bad : ε} {hook : List (PyStr × PyValue φ) → Except ε (PyValue φ)} {n : ℕ}
  {s t r : PyStr} {v : PyValue φ}

theorem scanItems_last (item : scanOnce F bad hook n s = .ok (v, 93 :: r)) :
    scanItems F bad hook (n + 1) s = .ok ([v], r) := by
  rw [scanItems, item, ok_bind]
  rfl

theorem scanItems_more {items : List (PyValue φ)} (item : scanOnce F bad hook n s = .ok (v, 44 :: t))
    (more : scanItems F bad hook n (skipBlanks t) = .ok (items, r)) :
    scanItems F bad hook (n + 1) s = .ok (v :: items, r) := by
  rw [scanItems, item, ok_bind]
  change (scanItems F bad hook n (skipBlanks t) >>= _) = _
  rw [more]
  rfl

theorem scanMembers_last {key : PyStr} (name : scanString s = some (key, 58 :: t))
    (value : scanOnce F bad hook n (skipBlanks t) = .ok (v, 125 :: r)) :
    scanMembers F bad hook (n + 1) (34 :: s) = .ok ([(key, v)], r) := by
  rw [scanMembers, name, expect_some, ok_bind]
  change (scanOnce F bad hook n (skipBlanks t) >>= _) = _
  rw [value]
  rfl

theorem scanMembers_more {key t' : PyStr} {members : List (PyStr × PyValue φ)}
    (name : scanString s = some (key, 58 :: t))
    (value : scanOnce F bad hook n (skipBlanks t) = .ok (v, 44 :: t'))
    (more : scanMembers F bad hook n (skipBlanks t') = .ok (members, r)) :
    scanMembers F bad hook (n + 1) (34 :: s) = .ok ((key, v) :: members, r) := by
  rw [scanMembers, name, expect_some, ok_bind]
  change (scanOnce F bad hook n (skipBlanks t) >>= _) = _
  rw [value, ok_bind]
  change (scanMembers F bad hook n (skipBlanks t') >>= _) = _
  rw [more]
  rfl

theorem scanOnce_number {x : PyValue φ × PyStr} (read : scanNumber F s = some x) (n : ℕ) :
    scanOnce F bad hook (n + 1) s = .ok x := by
  have begins := read
  unfold scanNumber at begins
  simp only [Option.bind_eq_bind, Option.bind_eq_some_iff] at begins
  obtain ⟨integral, begins, -⟩ := begins
  have constant := scanConstant_number (φ := φ) begins
  obtain ⟨c, t, rfl, shape⟩ := scanIntegral_cons begins
  have other : c ≠ 34 ∧ c ≠ 123 ∧ c ≠ 91 := by
    rcases shape with digit | ⟨rfl, -⟩
    · refine ⟨?_, ?_, ?_⟩ <;> rintro rfl <;> cases digit
    · decide
  rw [scanOnce, if_neg other.1, if_neg other.2.1, if_neg other.2.2, constant]
  dsimp only
  rw [read, expect_some]

theorem scanArray_items {c : ℕ} (other : c ≠ 93) :
    scanArray F bad hook (n + 1) (c :: s) = scanItems F bad hook n (c :: s) := by
  simp [scanArray, other]

theorem scanOnce_list {items : List (PyValue φ)}
    (array : scanArray F bad hook n (skipBlanks s) = .ok (items, r)) :
    scanOnce F bad hook (n + 1) (91 :: s) = .ok (.list items, r) := by
  rw [scanOnce, if_neg (by decide), if_neg (by decide), if_pos rfl, array]
  rfl

theorem scanOnce_object {members : List (PyStr × PyValue φ)}
    (object : scanObject F bad hook n (skipBlanks s) = .ok (members, r)) (hooked : hook members = .ok v) :
    scanOnce F bad hook (n + 1) (123 :: s) = .ok (v, r) := by
  rw [scanOnce, if_neg (by decide), if_pos rfl, object, ok_bind]
  change (hook members >>= _) = _
  rw [hooked]
  rfl

end Parts

/-! ## What a scan consumes -/

theorem length_skipBlanks (s : PyStr) : (skipBlanks s).length ≤ s.length :=
  (List.dropWhile_suffix _).length_le

theorem consUnit_length {u : StrUnit} {read : Option (List StrUnit × PyStr)} {units : List StrUnit}
    {r : PyStr} {n : ℕ} (shorter : ∀ units r, read = some (units, r) → r.length < n)
    (h : consUnit u read = some (units, r)) : r.length < n := by
  unfold consUnit at h
  rw [Option.map_eq_some_iff] at h
  obtain ⟨⟨units', r'⟩, found, same⟩ := h
  cases same
  exact shorter _ _ found

theorem scanUnits_length {s r : PyStr} {units : List StrUnit} (h : scanUnits s = some (units, r)) :
    r.length < s.length := by
  induction s using scanUnits.induct generalizing units r with
  | case1 => simp [scanUnits] at h
  | case2 s =>
    simp only [scanUnits, Option.some.injEq, Prod.mk.injEq] at h
    simp [h.2]
  | case3 a b c d s ih =>
    rw [scanUnits, Option.bind_eq_some_iff] at h
    obtain ⟨u, -, h⟩ := h
    have shorter := consUnit_length (fun units r read => ih read) h
    simp only [List.length_cons]
    omega
  | case4 e s other ih =>
    rw [scanUnits.eq_4 _ _ other, Option.bind_eq_some_iff] at h
    obtain ⟨u, -, h⟩ := h
    have shorter := consUnit_length (fun units r read => ih read) h
    simp only [List.length_cons]
    omega
  | case5 c s h₁ h₂ h₃ illegal =>
    rw [scanUnits.eq_5 _ _ h₁ h₂ h₃, if_pos illegal] at h
    cases h
  | case6 c s h₁ h₂ h₃ legal ih =>
    rw [scanUnits.eq_5 _ _ h₁ h₂ h₃, if_neg legal] at h
    have shorter := consUnit_length (fun units r read => ih read) h
    simp only [List.length_cons]
    omega

theorem scanString_length {s t r : PyStr} (h : scanString s = some (t, r)) : r.length < s.length := by
  unfold scanString at h
  rw [Option.map_eq_some_iff] at h
  obtain ⟨⟨units, r'⟩, read, same⟩ := h
  cases same
  exact scanUnits_length read

theorem after_length {word s r : PyStr} (h : after word s = some r) :
    s.length = word.length + r.length := by
  induction word generalizing s with
  | nil =>
    cases h
    simp
  | cons c word ih =>
    cases s with
    | nil => simp [after] at h
    | cons d s =>
      simp only [after] at h
      split_ifs at h
      have shorter := ih h
      simp only [List.length_cons]
      omega

theorem scanConstant_length {s r : PyStr} {v : PyValue φ} (h : scanConstant s = some (v, r)) :
    r.length < s.length := by
  unfold scanConstant at h
  obtain ⟨c, hc, found⟩ := List.exists_of_findSome?_eq_some h
  rw [Option.map_eq_some_iff] at found
  obtain ⟨rest, read, same⟩ := found
  cases same
  have consumed := after_length read
  have word : 0 < c.1.length := by
    unfold constants at hc
    simp only [List.mem_cons, List.not_mem_nil, or_false] at hc
    rcases hc with rfl | rfl | rfl | rfl | rfl | rfl <;> exact Nat.succ_pos _
  omega

theorem scanDigits_length {s t r : PyStr} (h : scanDigits s = some (t, r)) : r.length < s.length := by
  cases s with
  | nil => cases h
  | cons d s =>
    simp only [scanDigits] at h
    have rest := (List.dropWhile_suffix isDigit (l := s)).length_le
    split_ifs at h <;> cases h <;> simp only [List.length_cons] <;> omega

theorem scanNumber_length {s r : PyStr} {v : PyValue φ} (h : scanNumber F s = some (v, r)) :
    r.length < s.length := by
  have fraction : ∀ t : PyStr, (scanFraction t).2.length ≤ t.length := by
    intro t
    unfold scanFraction
    split
    · next s =>
      have rest := (List.dropWhile_suffix isDigit (l := s)).length_le
      split_ifs <;> simp only [List.length_cons] <;> omega
    · exact le_rfl
  have sign : ∀ t : PyStr, (scanSign t).2.length ≤ t.length := by
    intro t
    cases t with
    | nil => exact le_rfl
    | cons c t =>
      simp only [scanSign]
      split_ifs <;> simp
  have exponent : ∀ t : PyStr, (scanExponent t).2.length ≤ t.length := by
    intro t
    cases t with
    | nil => exact le_rfl
    | cons e t =>
      simp only [scanExponent]
      have rest := (List.dropWhile_suffix isDigit (l := (scanSign t).2)).length_le
      have signed := sign t
      split_ifs <;> simp only [List.length_cons] <;> omega
  have integral : ∀ t a b : PyStr, scanIntegral t = some (a, b) → b.length < t.length := by
    intro t a b read
    unfold scanIntegral at read
    split_ifs at read with minus
    · rw [Option.map_eq_some_iff] at read
      obtain ⟨⟨a', b'⟩, read, same⟩ := read
      cases same
      have shorter := scanDigits_length read
      rw [List.length_tail] at shorter
      dsimp only
      omega
    · exact scanDigits_length read
  unfold scanNumber at h
  simp only [Option.bind_eq_bind, Option.bind_eq_some_iff] at h
  obtain ⟨⟨a, b⟩, read, h⟩ := h
  have first := integral s a b read
  have second := fraction b
  have third := exponent (scanFraction b).2
  dsimp only at h
  split_ifs at h <;> cases h <;> omega

/-! ## What a scan keeps -/

def PyValue.Atomic : PyValue φ → Prop
  | .none | .bool _ | .int _ | .float _ | .str _ => True
  | _ => False

theorem scanConstant_atomic {s r : PyStr} {v : PyValue φ} (h : scanConstant s = some (v, r)) :
    v.Atomic := by
  unfold scanConstant at h
  obtain ⟨c, hc, found⟩ := List.exists_of_findSome?_eq_some h
  rw [Option.map_eq_some_iff] at found
  obtain ⟨rest, -, same⟩ := found
  cases same
  unfold constants at hc
  simp only [List.mem_cons, List.not_mem_nil, or_false] at hc
  rcases hc with rfl | rfl | rfl | rfl | rfl | rfl <;> trivial

theorem scanNumber_atomic {s r : PyStr} {v : PyValue φ} (h : scanNumber F s = some (v, r)) :
    v.Atomic := by
  unfold scanNumber at h
  simp only [Option.bind_eq_bind, Option.bind_eq_some_iff] at h
  obtain ⟨x, -, h⟩ := h
  split_ifs at h
  · cases h
    trivial
  · cases h
    trivial

section Keeps

variable {F} {bad : ε} {hook hook' : List (PyStr × PyValue φ) → Except ε (PyValue φ)}
  {P : PyValue φ → Prop}

/-- What `scan` reads on `n` fuel has `Q` and is part of the text, and `scan'` reads it as
well once it has fuel for the text's length. -/
def Keeps {α : Type} (scan scan' : ℕ → PyStr → Except ε (α × PyStr)) (more : ℕ) (Q : α → Prop)
    (n : ℕ) : Prop :=
  ∀ s a r, scan n s = .ok (a, r) →
    Q a ∧ r.length < s.length ∧ ∀ m, 4 * s.length + more ≤ m → scan' m s = .ok (a, r)

variable (F bad hook hook' P) in
def KeepsOnce : ℕ → Prop := Keeps (scanOnce F bad hook) (scanOnce F bad hook') 0 P

variable (F bad hook hook' P) in
def KeepsItems : ℕ → Prop :=
  Keeps (scanItems F bad hook) (scanItems F bad hook') 1 (fun l => ∀ v ∈ l, P v)

variable (F bad hook hook' P) in
def KeepsArray : ℕ → Prop :=
  Keeps (scanArray F bad hook) (scanArray F bad hook') 2 (fun l => ∀ v ∈ l, P v)

variable (F bad hook hook' P) in
def KeepsMembers : ℕ → Prop :=
  Keeps (scanMembers F bad hook) (scanMembers F bad hook') 1 (fun l => ∀ p ∈ l, P p.2)

variable (F bad hook hook' P) in
def KeepsObject : ℕ → Prop :=
  Keeps (scanObject F bad hook) (scanObject F bad hook') 2 (fun l => ∀ p ∈ l, P p.2)

theorem keeps_once (atomic : ∀ v : PyValue φ, v.Atomic → P v)
    (list : ∀ items, (∀ v ∈ items, P v) → P (.list items))
    (made : ∀ pairs v, (∀ p ∈ pairs, P p.2) → hook pairs = .ok v → P v ∧ hook' pairs = .ok v)
    {n : ℕ} (array : KeepsArray F bad hook hook' P n) (object : KeepsObject F bad hook hook' P n) :
    KeepsOnce F bad hook hook' P (n + 1) := by
  intro s v r h
  cases s with
  | nil => simp [scanOnce] at h
  | cons c s =>
    have rest := length_skipBlanks s
    suffices held : P v ∧ r.length < s.length + 1 ∧
        ∀ m, 4 * s.length + 3 ≤ m → scanOnce F bad hook' (m + 1) (c :: s) = .ok (v, r) by
      refine ⟨held.1, held.2.1, fun m enough => ?_⟩
      rw [List.length_cons] at enough
      cases m with
      | zero => omega
      | succ m => exact held.2.2 m (by omega)
    simp only [scanOnce] at h ⊢
    split_ifs at h ⊢ with quoted braced bracketed
    · simp only [bind_eq_ok] at h
      obtain ⟨⟨text, s'⟩, read, h⟩ := h
      cases h
      have shorter := scanString_length (expect_eq_ok.mp read)
      refine ⟨atomic _ trivial, by dsimp only; omega, fun m _ => ?_⟩
      simp only [bind_eq_ok]
      exact ⟨_, read, rfl⟩
    · simp only [bind_eq_ok] at h
      obtain ⟨⟨pairs, s'⟩, read, value, hooked, h⟩ := h
      cases h
      obtain ⟨held, shorter, read'⟩ := object _ _ _ read
      obtain ⟨holds, hooked'⟩ := made _ _ held hooked
      refine ⟨holds, by dsimp only; omega, fun m enough => ?_⟩
      simp only [bind_eq_ok]
      exact ⟨_, read' m (by omega), _, hooked', rfl⟩
    · simp only [bind_eq_ok] at h
      obtain ⟨⟨l, s'⟩, read, h⟩ := h
      cases h
      obtain ⟨held, shorter, read'⟩ := array _ _ _ read
      refine ⟨list _ held, by dsimp only; omega, fun m enough => ?_⟩
      simp only [bind_eq_ok]
      exact ⟨_, read' m (by omega), rfl⟩
    · cases hc : scanConstant (φ := φ) (c :: s) with
      | some x =>
        rw [hc] at h
        cases h
        have shorter := scanConstant_length hc
        exact ⟨atomic _ (scanConstant_atomic hc), by simpa using shorter, fun m _ => rfl⟩
      | none =>
        rw [hc] at h
        have read := expect_eq_ok.mp h
        have shorter := scanNumber_length F read
        exact ⟨atomic _ (scanNumber_atomic F read), by simpa using shorter, fun m _ => h⟩

theorem keeps_array {n : ℕ} (items : KeepsItems F bad hook hook' P n) :
    KeepsArray F bad hook hook' P (n + 1) := by
  intro s l r h
  suffices held : (∀ v ∈ l, P v) ∧ r.length < s.length ∧
      ∀ m, 4 * s.length + 1 ≤ m → scanArray F bad hook' (m + 1) s = .ok (l, r) by
    refine ⟨held.1, held.2.1, fun m enough => ?_⟩
    cases m with
    | zero => omega
    | succ m => exact held.2.2 m (by omega)
  simp only [scanArray] at h ⊢
  split at h
  · cases h
    refine ⟨fun v hv => (List.not_mem_nil hv).elim, ?_, fun m _ => rfl⟩
    rw [List.length_cons]
    omega
  · exact items _ _ _ h

theorem keeps_items {n : ℕ} (once : KeepsOnce F bad hook hook' P n)
    (items : KeepsItems F bad hook hook' P n) : KeepsItems F bad hook hook' P (n + 1) := by
  intro s l r h
  suffices held : (∀ v ∈ l, P v) ∧ r.length < s.length ∧
      ∀ m, 4 * s.length ≤ m → scanItems F bad hook' (m + 1) s = .ok (l, r) by
    refine ⟨held.1, held.2.1, fun m enough => ?_⟩
    cases m with
    | zero => omega
    | succ m => exact held.2.2 m (by omega)
  simp only [scanItems, bind_eq_ok] at h ⊢
  obtain ⟨⟨v, s'⟩, read, h⟩ := h
  obtain ⟨held, shorter, read'⟩ := once _ _ _ read
  have blanks := length_skipBlanks s'
  dsimp only at h
  split at h
  · next rest close =>
    cases h
    rw [close, List.length_cons] at blanks
    refine ⟨List.forall_mem_singleton.mpr held, by omega, fun m enough => ⟨_, read' m (by omega), ?_⟩⟩
    dsimp only
    rw [close]
    rfl
  · next rest comma =>
    simp only [bind_eq_ok] at h
    obtain ⟨⟨l', s''⟩, more, h⟩ := h
    cases h
    obtain ⟨held', shorter', more'⟩ := items _ _ _ more
    have blanks' := length_skipBlanks rest
    rw [comma, List.length_cons] at blanks
    refine ⟨List.forall_mem_cons.mpr ⟨held, held'⟩, by dsimp only; omega,
      fun m enough => ⟨_, read' m (by omega), ?_⟩⟩
    dsimp only
    rw [comma]
    simp only [bind_eq_ok]
    exact ⟨_, more' m (by omega), rfl⟩
  · cases h

theorem keeps_object {n : ℕ} (members : KeepsMembers F bad hook hook' P n) :
    KeepsObject F bad hook hook' P (n + 1) := by
  intro s l r h
  suffices held : (∀ p ∈ l, P p.2) ∧ r.length < s.length ∧
      ∀ m, 4 * s.length + 1 ≤ m → scanObject F bad hook' (m + 1) s = .ok (l, r) by
    refine ⟨held.1, held.2.1, fun m enough => ?_⟩
    cases m with
    | zero => omega
    | succ m => exact held.2.2 m (by omega)
  simp only [scanObject] at h ⊢
  split at h
  · cases h
    refine ⟨fun v hv => (List.not_mem_nil hv).elim, ?_, fun m _ => rfl⟩
    rw [List.length_cons]
    omega
  · exact members _ _ _ h

theorem keeps_members {n : ℕ} (once : KeepsOnce F bad hook hook' P n)
    (members : KeepsMembers F bad hook hook' P n) : KeepsMembers F bad hook hook' P (n + 1) := by
  intro s l r h
  cases s with
  | nil => simp [scanMembers] at h
  | cons c s =>
    suffices held : (∀ p ∈ l, P p.2) ∧ r.length < s.length + 1 ∧
        ∀ m, 4 * s.length + 4 ≤ m → scanMembers F bad hook' (m + 1) (c :: s) = .ok (l, r) by
      refine ⟨held.1, held.2.1, fun m enough => ?_⟩
      rw [List.length_cons] at enough
      cases m with
      | zero => omega
      | succ m => exact held.2.2 m (by omega)
    by_cases quoted : c = 34
    · subst quoted
      simp only [scanMembers, bind_eq_ok] at h ⊢
      obtain ⟨⟨key, s'⟩, name, h⟩ := h
      have named := scanString_length (expect_eq_ok.mp name)
      have blanks := length_skipBlanks s'
      dsimp only at h
      split at h
      · next s'' colon =>
        simp only [bind_eq_ok] at h
        obtain ⟨⟨v, t⟩, read, h⟩ := h
        obtain ⟨held, shorter, read'⟩ := once _ _ _ read
        have valued := length_skipBlanks s''
        have blanks' := length_skipBlanks t
        rw [colon, List.length_cons] at blanks
        dsimp only at h
        split at h
        · next rest close =>
          cases h
          rw [close, List.length_cons] at blanks'
          refine ⟨List.forall_mem_singleton.mpr held, by omega, fun m enough => ⟨_, name, ?_⟩⟩
          dsimp only
          rw [colon]
          simp only [bind_eq_ok]
          refine ⟨_, read' m (by omega), ?_⟩
          dsimp only
          rw [close]
          rfl
        · next rest comma =>
          simp only [bind_eq_ok] at h
          obtain ⟨⟨l', t'⟩, more, h⟩ := h
          cases h
          obtain ⟨held', shorter', more'⟩ := members _ _ _ more
          have next := length_skipBlanks rest
          rw [comma, List.length_cons] at blanks'
          refine ⟨List.forall_mem_cons.mpr ⟨held, held'⟩, by dsimp only; omega, fun m enough => ⟨_, name, ?_⟩⟩
          dsimp only
          rw [colon]
          simp only [bind_eq_ok]
          refine ⟨_, read' m (by omega), ?_⟩
          dsimp only
          rw [comma]
          simp only [bind_eq_ok]
          exact ⟨_, more' m (by omega), rfl⟩
        · cases h
      · cases h
    · simp [scanMembers, quoted] at h

/-- What atoms and lists have, and what the hook makes of pairs that have it, every value
scanned has; and a hook that accepts what this one accepts scans it too. -/
theorem scan_keeps (atomic : ∀ v : PyValue φ, v.Atomic → P v)
    (list : ∀ items, (∀ v ∈ items, P v) → P (.list items))
    (made : ∀ pairs v, (∀ p ∈ pairs, P p.2) → hook pairs = .ok v → P v ∧ hook' pairs = .ok v)
    (n : ℕ) : KeepsOnce F bad hook hook' P n := by
  suffices all : KeepsOnce F bad hook hook' P n ∧ KeepsArray F bad hook hook' P n ∧
      KeepsItems F bad hook hook' P n ∧ KeepsObject F bad hook hook' P n ∧
      KeepsMembers F bad hook hook' P n from all.1
  induction n with
  | zero =>
    refine ⟨?_, ?_, ?_, ?_, ?_⟩ <;> intro s x r h
    · simp [scanOnce] at h
    · simp [scanArray] at h
    · simp [scanItems] at h
    · simp [scanObject] at h
    · simp [scanMembers] at h
  | succ n ih =>
    obtain ⟨once, array, items, object, members⟩ := ih
    exact ⟨keeps_once atomic list made array object, keeps_array items, keeps_items once items,
      keeps_object members, keeps_members once members⟩

/-- The fuel of `loads` is enough: what a scan reads on any fuel it reads. -/
theorem loads_of_scan {text : PyStr} {n : ℕ} {v : PyValue φ} {r : PyStr}
    (start : text.head? ≠ some 0xfeff) (read : scanOnce F bad hook n (skipBlanks text) = .ok (v, r))
    (done : skipBlanks r = []) : loads F bad hook text = .ok v := by
  have kept : KeepsOnce F bad hook hook (fun _ => True) n :=
    scan_keeps (fun _ _ => trivial) (fun _ _ => trivial) (fun _ _ _ hooked => ⟨trivial, hooked⟩) n
  obtain ⟨-, -, enough⟩ := kept _ _ _ read
  have blanks := length_skipBlanks text
  unfold loads
  rw [require_of start, ok_bind, enough (4 * text.length + 4) (by omega), ok_bind]
  dsimp only
  rw [require_of done]
  rfl

/-- `loads` keeps what a scan keeps. -/
theorem loads_keeps (atomic : ∀ v : PyValue φ, v.Atomic → P v)
    (list : ∀ items, (∀ v ∈ items, P v) → P (.list items))
    (made : ∀ pairs v, (∀ p ∈ pairs, P p.2) → hook pairs = .ok v → P v ∧ hook' pairs = .ok v)
    {text : PyStr} {v : PyValue φ} (h : loads F bad hook text = .ok v) :
    P v ∧ loads F bad hook' text = .ok v := by
  unfold loads at h
  simp only [bind_eq_ok, require_eq_ok] at h
  obtain ⟨_, start, ⟨w, r⟩, read, _, done, same⟩ := h
  cases same
  obtain ⟨held, -, read'⟩ := scan_keeps atomic list made _ _ _ _ read
  exact ⟨held, loads_of_scan start (read' _ le_rfl) done⟩

end Keeps

end PyJson
