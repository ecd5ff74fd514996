import Mathlib.Tactic

/-!
# The spellings of IP addresses

`isAddress` is what Python's `ipaddress.ip_address` reads: four decimal octets, or an IPv6
address with its abbreviations and its zone. `isNumeric` is the older grammar of `inet_aton`,
of one to four parts that may be octal or hexadecimal. In every spelling there is a colon, or
the part after the last dot begins with a digit.
-/

namespace IpLiteral

def isDigit (c : Char) : Bool := 48 ≤ c.toNat ∧ c.toNat ≤ 57

def isHexDigit (c : Char) : Bool :=
  isDigit c ∨ (97 ≤ c.toNat ∧ c.toNat ≤ 102) ∨ (65 ≤ c.toNat ∧ c.toNat ≤ 70)

def decimal (digits : List Char) : ℕ := digits.foldl (fun n c => n * 10 + (c.toNat - 48)) 0

/-- `IPv4Address._parse_octet` -/
def isOctet (s : List Char) : Bool :=
  s ≠ [] ∧ s.all isDigit ∧ s.length ≤ 3 ∧ (s = ['0'] ∨ s.head? ≠ some '0') ∧ decimal s ≤ 255

/-- `IPv4Address` of a text -/
def isV4 (s : List Char) : Bool :=
  '/' ∉ s ∧ s ≠ [] ∧ (s.splitOn '.').length = 4 ∧ (s.splitOn '.').all isOctet

/-- `IPv6Address._parse_hextet` -/
def isHextet (s : List Char) : Bool := s ≠ [] ∧ s.all isHexDigit ∧ s.length ≤ 4

/-- The positions of the empty parts between the first part and the last. -/
def skips (parts : List (List Char)) : List ℕ :=
  (List.range (parts.length - 1)).filter (fun i => 1 ≤ i ∧ parts[i]? = some [])

/-- The hextets of the parts before and after `::`. -/
def splitParts (parts : List (List Char)) (skip : ℕ) : Bool :=
  let hi := if parts.head? = some [] then skip - 1 else skip
  let after := parts.length - skip - 1
  let lo := if parts.getLast? = some [] then after - 1 else after
  (parts.head? = some [] → hi = 0) ∧ (parts.getLast? = some [] → lo = 0) ∧ hi + lo + 1 ≤ 8 ∧
    (parts.take hi).all isHextet ∧ (parts.drop (parts.length - lo)).all isHextet

def suffixed (parts : List (List Char)) : List (List Char) :=
  if '.' ∈ parts.getLast?.getD [] then parts.dropLast ++ [['0'], ['0']] else parts

/-- At most one `::`, which stands for at least one part of eight. -/
def arranged (parts : List (List Char)) : List ℕ → Bool
  | [] => parts.length = 8 ∧ parts.all isHextet
  | [skip] => splitParts parts skip
  | _ => false

/-- `IPv6Address._ip_int_from_string`, of the parts between colons -/
def isParts (parts : List (List Char)) : Bool :=
  3 ≤ parts.length ∧ ('.' ∈ parts.getLast?.getD [] → isV4 (parts.getLast?.getD [])) ∧
    (suffixed parts).length ≤ 9 ∧ arranged (suffixed parts) (skips (suffixed parts))

/-- `IPv6Address` of a text: a zone after one `%` is not empty. -/
def isV6 (s : List Char) : Bool :=
  let zone := (s.dropWhile (· ≠ '%'))
  '/' ∉ s ∧ (zone = [] ∨ (zone.tail ≠ [] ∧ '%' ∉ zone.tail)) ∧
    isParts ((s.takeWhile (· ≠ '%')).splitOn ':')

/-- `ipaddress.ip_address` reads the text. -/
def isAddress (s : List Char) : Bool := isV4 s || isV6 s

/-- A number as `inet_aton` reads it: decimal, octal, or hexadecimal after `0x`. -/
def isNumber (s : List Char) : Bool :=
  (s ≠ [] ∧ s.all isDigit) ∨
    (s.head? = some '0' ∧ (s[1]? = some 'x' ∨ s[1]? = some 'X') ∧ (s.drop 2).all isHexDigit)

/-- A text that `inet_aton` reads as an address. -/
def isNumeric (s : List Char) : Bool := (s.splitOn '.').length ≤ 4 ∧ (s.splitOn '.').all isNumber

example : isAddress "192.0.2.1".toList = true ∧ isAddress "fe80::1%eth0".toList = true ∧
    isAddress "::ffff:192.0.2.1".toList = true ∧ isAddress "127.1".toList = false ∧
    isNumeric "0x7f.1".toList = true := by decide

/-! ## How a spelling ends -/

def EndsNumeric (s : List Char) : Prop :=
  ∃ last ∈ (s.splitOn '.').getLast?, ∃ first ∈ last.head?, isDigit first = true

theorem endsNumeric_of_all {s : List Char} {p : List Char → Bool} (all : (s.splitOn '.').all p = true)
    (digit : ∀ part, p part = true → ∃ first ∈ part.head?, isDigit first = true) : EndsNumeric s := by
  have parts : s.splitOn '.' ≠ [] := List.splitOn_ne_nil _ _
  refine ⟨_, List.getLast?_eq_some_getLast parts, digit _ ?_⟩
  exact List.all_eq_true.mp all _ (List.getLast_mem parts)

theorem digit_of_all {part : List Char} (some_ : part ≠ []) (all : part.all isDigit = true) :
    ∃ first ∈ part.head?, isDigit first = true := by
  cases part with
  | nil => exact absurd rfl some_
  | cons first rest => exact ⟨first, rfl, List.all_eq_true.mp all _ List.mem_cons_self⟩

theorem digit_of_octet (part : List Char) (h : isOctet part = true) :
    ∃ first ∈ part.head?, isDigit first = true := by
  simp only [isOctet, decide_eq_true_eq] at h
  exact digit_of_all h.1 h.2.1

theorem digit_of_number (part : List Char) (h : isNumber part = true) :
    ∃ first ∈ part.head?, isDigit first = true := by
  simp only [isNumber, decide_eq_true_eq] at h
  rcases h with ⟨some_, all⟩ | ⟨zero, -⟩
  · exact digit_of_all some_ all
  · exact ⟨'0', zero, by decide⟩

theorem endsNumeric_of_v4 {s : List Char} (h : isV4 s = true) : EndsNumeric s := by
  simp only [isV4, decide_eq_true_eq] at h
  exact endsNumeric_of_all h.2.2.2 digit_of_octet

theorem endsNumeric_of_numeric {s : List Char} (h : isNumeric s = true) : EndsNumeric s := by
  simp only [isNumeric, decide_eq_true_eq] at h
  exact endsNumeric_of_all h.2 digit_of_number

theorem colon_of_v6 {s : List Char} (h : isV6 s = true) : ':' ∈ s := by
  simp only [isV6, decide_eq_true_eq] at h
  have three := h.2.2
  by_contra none
  have front : ':' ∉ s.takeWhile (· ≠ '%') := fun has => none (List.takeWhile_subset _ has)
  rw [List.splitOn_eq_singleton front] at three
  simp [isParts] at three

theorem no_spelling {s : List Char} (colon : ':' ∉ s) (ends : ¬ EndsNumeric s) :
    isAddress s = false ∧ isNumeric s = false := by
  constructor
  · by_contra h
    have h := Bool.not_eq_false _ ▸ h
    rcases Bool.or_eq_true_iff.mp h with v4 | v6
    · exact ends (endsNumeric_of_v4 v4)
    · exact colon (colon_of_v6 v6)
  · by_contra h
    have h := Bool.not_eq_false _ ▸ h
    exact ends (endsNumeric_of_numeric h)

end IpLiteral
