import Constructicon.Library.JsonNesting

/-!
# The shortest text of a value

`json.dumps` without blanks and with `ensure_ascii=False` writes every character in the shortest way
that `json.loads` reads. So no text of a value has fewer bytes than the printed one: of strings because
each unit of a text stands for a character that is printed as short, of numbers because no literal
begins with a zero it could spare, and of lists and objects by what separates their parts.
-/

namespace PyJson

open Transaction

def width (c : ℕ) : ℕ := if c < 0x80 then 1 else if c < 0x800 then 2 else if c < 0x10000 then 3 else 4

def weight (s : PyStr) : ℕ := (s.map width).sum

@[simp] theorem weight_nil : weight [] = 0 := rfl

@[simp] theorem weight_cons (c : ℕ) (s : PyStr) : weight (c :: s) = width c + weight s := by simp [weight]

@[simp] theorem weight_append (s t : PyStr) : weight (s ++ t) = weight s + weight t := by simp [weight]

theorem width_pos (c : ℕ) : 1 ≤ width c := by
  unfold width
  split_ifs <;> omega

theorem length_le_weight (s : PyStr) : s.length ≤ weight s := by
  induction s with
  | nil => exact le_rfl
  | cons c s ih =>
    have here := width_pos c
    rw [List.length_cons, weight_cons]
    omega

theorem weight_skipBlanks (s : PyStr) : weight (skipBlanks s) ≤ weight s := by
  obtain ⟨b, -, split⟩ := skipBlanks_split s
  conv_rhs => rw [split, weight_append]
  exact Nat.le_add_left _ _

/-! ## Strings -/

def StrUnit.bytes : StrUnit → ℕ
  | .char c => weight (escape c)
  | .escaped _ => 6

theorem weight_escape_le (c : ℕ) : weight (escape c) ≤ 6 := by
  have digit : ∀ n, n < 16 → width (hexChar n) = 1 := by decide
  unfold escape
  split_ifs with h₁ h₂ h₃ h₄ h₅ h₆ h₇
  · rcases h₁ with rfl | rfl <;> decide
  · decide
  · decide
  · decide
  · decide
  · decide
  · have first := digit (c / 16) (by omega)
    have second := digit (c % 16) (by omega)
    have others : width 92 = 1 ∧ width 117 = 1 ∧ width 48 = 1 := by decide
    simp only [weight_cons, weight_nil, first, second, others.1, others.2.1, others.2.2]
    omega
  · rw [weight_cons, weight_nil]
    unfold width
    split_ifs <;> omega

theorem weight_escape_raw {c : ℕ} (printed : 32 ≤ c) (quote : c ≠ 34) (slash : c ≠ 92) :
    weight (escape c) = width c := by
  unfold escape
  rw [if_neg (by omega), if_neg (by omega), if_neg (by omega), if_neg (by omega), if_neg (by omega), if_neg (by omega),
    if_neg (by omega)]
  exact Nat.add_zero _

theorem weight_unescape {e c : ℕ} (h : unescape e = some c) : weight (escape c) ≤ 2 := by
  unfold unescape at h
  split_ifs at h with special
  · cases h
    rcases special with rfl | rfl | rfl <;> decide
  all_goals
    cases h
    decide

def quotedBytes (s : PyStr) : ℕ := weight (s.flatMap escape)

theorem quotedBytes_cons (c : ℕ) (s : PyStr) : quotedBytes (c :: s) = weight (escape c) + quotedBytes s := by
  rw [quotedBytes, List.flatMap_cons, weight_append]
  rfl

theorem quotedBytes_join (units : List StrUnit) : quotedBytes (joinUnits units) ≤ (units.map StrUnit.bytes).sum := by
  induction units using joinUnits.induct with
  | case1 u v units pair ih =>
    have one := weight_escape_le (0x10000 + (u - 0xd800) * 0x400 + (v - 0xdc00))
    rw [joinUnits, if_pos pair, quotedBytes_cons]
    simp only [List.map_cons, List.sum_cons, StrUnit.bytes]
    omega
  | case2 u v units alone ih =>
    have one := weight_escape_le u
    rw [joinUnits, if_neg alone, quotedBytes_cons]
    simp only [List.map_cons, List.sum_cons, StrUnit.bytes] at ih ⊢
    omega
  | case3 u units other ih =>
    have one := weight_escape_le u
    rw [joinUnits.eq_2 _ _ other, quotedBytes_cons]
    simp only [List.map_cons, List.sum_cons, StrUnit.bytes]
    omega
  | case4 c units ih =>
    rw [joinUnits, quotedBytes_cons]
    simp only [List.map_cons, List.sum_cons, StrUnit.bytes]
    omega
  | case5 => exact le_rfl

theorem consUnit_weight {u : StrUnit} {read : Option (List StrUnit × PyStr)} {units : List StrUnit} {r s : PyStr}
    {n : ℕ} (fits : ∀ units r, read = some (units, r) → weight r + 1 + (units.map StrUnit.bytes).sum ≤ n)
    (more : n + u.bytes ≤ weight s) (h : consUnit u read = some (units, r)) :
    weight r + 1 + (units.map StrUnit.bytes).sum ≤ weight s := by
  unfold consUnit at h
  rw [Option.map_eq_some_iff] at h
  obtain ⟨⟨units', r'⟩, found, same⟩ := h
  cases same
  have rest := fits _ _ found
  dsimp only
  rw [List.map_cons, List.sum_cons]
  omega

theorem scanUnits_weight {s r : PyStr} {units : List StrUnit} (h : scanUnits s = some (units, r)) :
    weight r + 1 + (units.map StrUnit.bytes).sum ≤ weight s := by
  induction s using scanUnits.induct generalizing units r with
  | case1 => simp [scanUnits] at h
  | case2 s =>
    simp only [scanUnits, Option.some.injEq, Prod.mk.injEq] at h
    obtain ⟨rfl, rfl⟩ := h
    rw [weight_cons]
    change _ ≤ 1 + weight s
    simp only [List.map_nil, List.sum_nil]
    omega
  | case3 a b c d s ih =>
    rw [scanUnits, Option.bind_eq_some_iff] at h
    obtain ⟨u, -, h⟩ := h
    refine consUnit_weight (fun units r read => ih read) ?_ h
    have wide := length_le_weight [92, 117, a, b, c, d]
    have split : weight (92 :: 117 :: a :: b :: c :: d :: s) = weight [92, 117, a, b, c, d] + weight s :=
      weight_append [92, 117, a, b, c, d] s
    change _ + 6 ≤ _
    change 6 ≤ _ at wide
    omega
  | case4 e s other ih =>
    rw [scanUnits.eq_4 _ _ other, Option.bind_eq_some_iff] at h
    obtain ⟨u, letter, h⟩ := h
    refine consUnit_weight (fun units r read => ih read) ?_ h
    have wide := length_le_weight [92, e]
    have split : weight (92 :: e :: s) = weight [92, e] + weight s := weight_append [92, e] s
    have short := weight_unescape letter
    change _ + weight (escape u) ≤ _
    change 2 ≤ _ at wide
    omega
  | case5 c s h₁ h₂ h₃ illegal =>
    rw [scanUnits.eq_5 _ _ h₁ h₂ h₃, if_pos illegal] at h
    cases h
  | case6 c s h₁ h₂ h₃ legal ih =>
    rw [scanUnits.eq_5 _ _ h₁ h₂ h₃, if_neg legal] at h
    refine consUnit_weight (fun units r read => ih read) ?_ h
    have quote : c ≠ 34 := by
      rintro rfl
      exact h₁ rfl
    have raw := weight_escape_raw (show 32 ≤ c by omega) quote (fun same => legal (.inr same))
    change _ + weight (escape c) ≤ _
    rw [weight_cons, raw]
    omega

theorem scanString_weight {s r text : PyStr} (h : scanString s = some (text, r)) :
    weight r + 1 + quotedBytes text ≤ weight s := by
  unfold scanString at h
  rw [Option.map_eq_some_iff] at h
  obtain ⟨⟨units, r'⟩, read, same⟩ := h
  cases same
  have taken := scanUnits_weight read
  have joined := quotedBytes_join units
  dsimp only
  omega

/-! ## Numbers -/

theorem ofDigits_lt {s : PyStr} (digits : ∀ c ∈ s, isDigit c = true) : ofDigits s < 10 ^ s.length := by
  have general : ∀ n m, n < 10 ^ m → s.foldl (fun n d => 10 * n + (d - 48)) n < 10 ^ (m + s.length) := by
    induction s with
    | nil => exact fun n m small => small
    | cons c s ih =>
      obtain ⟨here, later⟩ := List.forall_mem_cons.mp digits
      intro n m small
      simp only [isDigit, Bool.and_eq_true, decide_eq_true_eq] at here
      have next := ih later (10 * n + (c - 48)) (m + 1) (by rw [pow_succ]; omega)
      rwa [List.foldl_cons, List.length_cons, show m + (s.length + 1) = m + 1 + s.length by omega]
  have whole := general 0 0 (by decide)
  rwa [Nat.zero_add] at whole

theorem length_decimal_le {s : PyStr} (some : s ≠ []) (digits : ∀ c ∈ s, isDigit c = true) :
    (decimal (ofDigits s)).length ≤ s.length := by
  unfold decimal
  split_ifs
  · exact List.length_pos_iff.mpr some
  · rw [List.length_map, List.length_reverse]
    exact (Nat.digits_length_le_iff (by decide : 1 < 10) _).mpr (ofDigits_lt digits)

theorem length_integer_neg (n : ℕ) : (integer (-(n : ℤ))).length ≤ 1 + (decimal n).length := by
  cases n with
  | zero => exact Nat.le_add_left _ _
  | succ n =>
    change (45 :: decimal (n + 1)).length ≤ _
    rw [List.length_cons]
    omega

theorem length_integer_le {s a r : PyStr} (h : scanIntegral s = some (a, r)) :
    (integer (ofInteger a)).length ≤ a.length := by
  unfold scanIntegral at h
  split_ifs at h with minus
  · rw [Option.map_eq_some_iff] at h
    obtain ⟨⟨t, r'⟩, read, same⟩ := h
    cases same
    obtain ⟨-, some, digits⟩ := scanDigits_split read
    have short := length_decimal_le some digits
    have signed := length_integer_neg (ofDigits t)
    change (integer (-(ofDigits t : ℤ))).length ≤ (45 :: t).length
    rw [List.length_cons]
    omega
  · obtain ⟨-, some, digits⟩ := scanDigits_split h
    obtain ⟨c, t, rfl⟩ := List.exists_cons_of_ne_nil some
    have digit := digits c List.mem_cons_self
    have unsigned : ofInteger (c :: t) = ofDigits (c :: t) := by
      unfold ofInteger
      split
      · next same =>
        cases same
        cases digit
      · rfl
    rw [unsigned]
    exact length_decimal_le some digits

/-! ## Values -/

theorem weight_numeric {s : PyStr} (number : ∀ c ∈ s, numeric c = true) : weight s = s.length := by
  induction s with
  | nil => rfl
  | cons c s ih =>
    obtain ⟨here, later⟩ := List.forall_mem_cons.mp number
    have narrow : width c = 1 := by
      simp only [numeric, numberPart, isDigit, Bool.or_eq_true, Bool.and_eq_true, beq_iff_eq, decide_eq_true_eq] at here
      rw [width, if_pos (by omega)]
    rw [weight_cons, List.length_cons, ih later, narrow]
    omega

variable {φ ε : Type}

mutual

/-- The fewest bytes of a text of a value, and one for what is printed by other means. -/
def PyValue.bytes : PyValue φ → ℕ
  | .none => 4
  | .bool true => 4
  | .bool false => 5
  | .int n => (integer n).length
  | .str s => 2 + quotedBytes s
  | .list items => 1 + max 1 (itemsBytes items)
  | .dict entries => 1 + max 1 (membersBytes entries)
  | _ => 1

/-- The items of a list, each with the comma or bracket behind it. -/
def itemsBytes : List (PyValue φ) → ℕ
  | [] => 0
  | v :: items => v.bytes + 1 + itemsBytes items

/-- The members of a dictionary, each with its colon and the comma or brace behind it. -/
def membersBytes : List (PyValue φ × PyValue φ) → ℕ
  | [] => 0
  | (k, v) :: entries => k.bytes + 1 + v.bytes + 1 + membersBytes entries

end

def pairsBytes (pairs : List (PyStr × PyValue φ)) : ℕ :=
  (pairs.map (fun p => 2 + quotedBytes p.1 + 1 + p.2.bytes + 1)).sum

variable (F : FloatText φ) (bad : ε) (hook : List (PyStr × PyValue φ) → Except ε (PyValue φ))

/-- What `n` fuel reads takes at least the bytes of its shortest text. -/
structure Weighs (n : ℕ) : Prop where
  once : ∀ {s r v}, scanOnce F bad hook n s = .ok (v, r) → weight r + v.bytes ≤ weight s
  array : ∀ {s r l}, scanArray F bad hook n s = .ok (l, r) → weight r + max 1 (itemsBytes l) ≤ weight s
  items : ∀ {s r l}, scanItems F bad hook n s = .ok (l, r) → weight r + max 1 (itemsBytes l) ≤ weight s
  object : ∀ {s r l}, scanObject F bad hook n s = .ok (l, r) → weight r + max 1 (pairsBytes l) ≤ weight s
  members : ∀ {s r l}, scanMembers F bad hook n s = .ok (l, r) → weight r + max 1 (pairsBytes l) ≤ weight s

variable {F bad hook}

theorem scanNumber_weight {s r : PyStr} {v : PyValue φ} (h : scanNumber F s = some (v, r)) :
    weight r + v.bytes ≤ weight s := by
  obtain ⟨t, split, some, number⟩ := scanNumber_takes h
  have taken : weight s = t.length + weight r := by rw [split, weight_append, weight_numeric number]
  have long := List.length_pos_iff.mpr some
  unfold scanNumber at h
  simp only [Option.bind_eq_bind, Option.bind_eq_some_iff] at h
  obtain ⟨⟨a, s'⟩, integral, h⟩ := h
  obtain ⟨split', -, digits⟩ := scanIntegral_split integral
  dsimp only at h
  split_ifs at h with whole
  · cases h
    have short := length_integer_le integral
    have fraction := (scanFraction_takes s').1
    have exponent := (scanExponent_takes (scanFraction s').2).1
    rw [whole.1, List.nil_append] at fraction
    rw [whole.2, List.nil_append] at exponent
    rw [← exponent, ← fraction]
    change weight s' + (integer (ofInteger a)).length ≤ weight s
    rw [split', weight_append, weight_numeric digits]
    omega
  · cases h
    change _ + 1 ≤ _
    omega

theorem scanConstant_weight {s r : PyStr} {v : PyValue φ} (h : scanConstant s = some (v, r)) :
    weight r + v.bytes ≤ weight s := by
  unfold scanConstant at h
  obtain ⟨c, mem, found⟩ := List.exists_of_findSome?_eq_some h
  rw [Option.map_eq_some_iff] at found
  obtain ⟨rest, read, same⟩ := found
  cases same
  have short : c.2.bytes ≤ c.1.length := by
    unfold constants at mem
    simp only [List.mem_cons, List.not_mem_nil, or_false] at mem
    rcases mem with rfl | rfl | rfl | rfl | rfl | rfl <;> simp [PyValue.bytes]
  have long := length_le_weight c.1
  rw [after_split read, weight_append]
  omega

theorem weigh_items {n : ℕ} (h : Weighs F bad hook n) {s r : PyStr} {l : List (PyValue φ)}
    (read : scanItems F bad hook (n + 1) s = .ok (l, r)) : weight r + max 1 (itemsBytes l) ≤ weight s := by
  simp only [scanItems, bind_eq_ok] at read
  obtain ⟨⟨v, s'⟩, item, read⟩ := read
  have first := h.once item
  have blanks := weight_skipBlanks s'
  dsimp only at read
  split at read
  · next rest close =>
    cases read
    have mark := width_pos 93
    rw [close, weight_cons] at blanks
    simp only [itemsBytes]
    omega
  · next rest comma =>
    simp only [bind_eq_ok] at read
    obtain ⟨⟨l', r'⟩, more, same⟩ := read
    cases same
    have later := h.items more
    have blanks' := weight_skipBlanks rest
    have mark := width_pos 44
    rw [comma, weight_cons] at blanks
    simp only [itemsBytes]
    omega
  · cases read

theorem weigh_members {n : ℕ} (h : Weighs F bad hook n) {s r : PyStr} {l : List (PyStr × PyValue φ)}
    (read : scanMembers F bad hook (n + 1) s = .ok (l, r)) : weight r + max 1 (pairsBytes l) ≤ weight s := by
  cases s with
  | nil => simp [scanMembers] at read
  | cons c s =>
    by_cases quoted : c = 34
    · subst quoted
      simp only [scanMembers, bind_eq_ok, expect_eq_ok] at read
      obtain ⟨⟨key, s₁⟩, name, read⟩ := read
      have named := scanString_weight name
      have blanks₁ := weight_skipBlanks s₁
      have quote := width_pos 34
      dsimp only at read
      split at read
      · next s₂ colon =>
        simp only [bind_eq_ok] at read
        obtain ⟨⟨v, s₃⟩, value, read⟩ := read
        have valued := h.once value
        have blanks₂ := weight_skipBlanks s₂
        have blanks₃ := weight_skipBlanks s₃
        have mark := width_pos 58
        rw [colon, weight_cons] at blanks₁
        rw [weight_cons]
        dsimp only at read
        split at read
        · next rest close =>
          cases read
          have mark' := width_pos 125
          rw [close, weight_cons] at blanks₃
          simp only [pairsBytes, List.map_cons, List.map_nil, List.sum_cons, List.sum_nil]
          omega
        · next rest comma =>
          simp only [bind_eq_ok] at read
          obtain ⟨⟨l', r'⟩, more, same⟩ := read
          cases same
          have later := h.members more
          have blanks₄ := weight_skipBlanks rest
          have mark' := width_pos 44
          rw [comma, weight_cons] at blanks₃
          simp only [pairsBytes, List.map_cons, List.sum_cons] at later ⊢
          omega
        · cases read
      · cases read
    · simp [scanMembers, quoted] at read

variable (made : ∀ pairs v, hook pairs = .ok v → v.bytes ≤ 1 + max 1 (pairsBytes pairs))

include made

theorem weigh_once {n : ℕ} (h : Weighs F bad hook n) {s r : PyStr} {v : PyValue φ}
    (read : scanOnce F bad hook (n + 1) s = .ok (v, r)) : weight r + v.bytes ≤ weight s := by
  cases s with
  | nil => cases read
  | cons c s =>
    have mark := width_pos c
    have blanks := weight_skipBlanks s
    rw [scanOnce] at read
    split_ifs at read with quoted braced bracketed
    · simp only [bind_eq_ok, expect_eq_ok] at read
      obtain ⟨⟨text, s'⟩, string, same⟩ := read
      cases same
      have taken := scanString_weight string
      rw [weight_cons]
      change weight s' + (2 + quotedBytes text) ≤ _
      omega
    · simp only [bind_eq_ok] at read
      obtain ⟨⟨pairs, s'⟩, object, value, hooked, same⟩ := read
      cases same
      have taken := h.object object
      have short := made pairs _ hooked
      rw [weight_cons]
      dsimp only at hooked ⊢
      omega
    · simp only [bind_eq_ok] at read
      obtain ⟨⟨items, s'⟩, array, same⟩ := read
      cases same
      have taken := h.array array
      rw [weight_cons]
      change weight s' + (1 + max 1 (itemsBytes items)) ≤ _
      omega
    · cases constant : scanConstant (φ := φ) (c :: s) with
      | some x =>
        rw [constant] at read
        cases read
        exact scanConstant_weight constant
      | none =>
        rw [constant] at read
        exact scanNumber_weight (expect_eq_ok.mp read)

theorem weighs (n : ℕ) : Weighs F bad hook n := by
  induction n with
  | zero =>
    constructor <;> intro s r x read
    · simp [scanOnce] at read
    · simp [scanArray] at read
    · simp [scanItems] at read
    · simp [scanObject] at read
    · simp [scanMembers] at read
  | succ n ih =>
    constructor
    · intro s r v read
      exact weigh_once made ih read
    · intro s r l read
      rw [scanArray.eq_def] at read
      dsimp only at read
      split at read
      · next rest =>
        cases read
        have mark := width_pos 93
        rw [weight_cons]
        change _ + max 1 0 ≤ _
        omega
      · exact ih.items read
    · intro s r l read
      exact weigh_items ih read
    · intro s r l read
      rw [scanObject.eq_def] at read
      dsimp only at read
      split at read
      · next rest =>
        cases read
        have mark := width_pos 125
        rw [weight_cons]
        change _ + max 1 0 ≤ _
        omega
      · exact ih.members read
    · intro s r l read
      exact weigh_members ih read

theorem bytes_le_weight {text : PyStr} {v : PyValue φ} (read : loads F bad hook text = .ok v) :
    v.bytes ≤ weight text := by
  unfold loads at read
  simp only [bind_eq_ok, require_eq_ok] at read
  obtain ⟨_, -, ⟨w, r⟩, scanned, _, -, same⟩ := read
  cases same
  have taken := (weighs made _).once scanned
  have blanks := weight_skipBlanks text
  dsimp only
  omega

end PyJson
