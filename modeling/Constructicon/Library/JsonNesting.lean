import Constructicon.Library.PyJson

/-!
# How deep `json.loads` goes, and how an object ends

The scanner calls itself for every list and every object it enters, so a text it nests too deep in
raises before its end is seen. `nesting` is the depth it reaches, up to the end of the text or to the
first defect. The text of an object ends with its closing brace; before it stands a value, and the key
of that value in its quotes.
-/

namespace PyJson

open Transaction

variable {φ ε : Type} (F : FloatText φ) (bad : ε) (hook : List (PyStr × PyValue φ) → Except ε (PyValue φ))

mutual

/-- How many lists and objects inside one another `scanOnce` enters. -/
def nestOnce : ℕ → PyStr → ℕ
  | 0, _ => 0
  | _ + 1, [] => 0
  | fuel + 1, c :: s =>
    if c = 123 then 1 + nestMembers fuel (skipBlanks s)
    else if c = 91 then 1 + nestItems fuel (skipBlanks s)
    else 0

/-- The items of a list up to the first that is defective. -/
def nestItems : ℕ → PyStr → ℕ
  | 0, _ => 0
  | fuel + 1, s =>
    max (nestOnce fuel s) (match scanOnce F bad hook fuel s with
      | .ok (_, s) =>
        match skipBlanks s with
        | 44 :: s => nestItems fuel (skipBlanks s)
        | _ => 0
      | .error _ => 0)

/-- The members of an object up to the first that is defective. -/
def nestMembers : ℕ → PyStr → ℕ
  | fuel + 1, 34 :: s =>
    match scanString s with
    | some (_, s) =>
      match skipBlanks s with
      | 58 :: s =>
        max (nestOnce fuel (skipBlanks s)) (match scanOnce F bad hook fuel (skipBlanks s) with
          | .ok (_, s) =>
            match skipBlanks s with
            | 44 :: s => nestMembers fuel (skipBlanks s)
            | _ => 0
          | .error _ => 0)
      | _ => 0
    | none => 0
  | _, _ => 0

end

/-- The depth that `json.loads` reaches in a text. -/
def nesting (text : PyStr) : ℕ :=
  if text.head? = some 0xfeff then 0
  else nestOnce F bad hook (4 * text.length + 4) (skipBlanks text)

inductive LoadFailure where
  | valueError
  | recursionError
deriving DecidableEq

/-- `json.loads` with `room` on the interpreter's stack. -/
def loadsWithin (room : ℕ) (text : PyStr) : Except LoadFailure (PyValue φ) :=
  if room < nesting F bad hook text then .error .recursionError
  else (loads F bad hook text).mapError (fun _ => .valueError)

theorem nestOnce_brackets (n : ℕ) (rest : PyStr) {fuel : ℕ} (enough : 2 * n ≤ fuel) :
    n ≤ nestOnce F bad hook fuel (List.replicate n 91 ++ rest) := by
  induction n generalizing fuel with
  | zero => exact Nat.zero_le _
  | succ n ih =>
    obtain ⟨fuel, rfl⟩ : ∃ k, fuel = k + 2 := ⟨fuel - 2, by omega⟩
    have inner := ih (show 2 * n ≤ fuel by omega)
    cases n with
    | zero =>
      rw [List.replicate_one, List.singleton_append, nestOnce, if_neg (by decide), if_pos rfl]
      omega
    | succ n =>
      have opens : skipBlanks (List.replicate (n + 1) 91 ++ rest) = List.replicate (n + 1) 91 ++ rest := rfl
      rw [List.replicate_succ, List.cons_append, nestOnce, if_neg (by decide), if_pos rfl, opens, nestItems]
      omega

theorem nesting_brackets (n : ℕ) (rest : PyStr) : n ≤ nesting F bad hook (List.replicate n 91 ++ rest) := by
  cases n with
  | zero => exact Nat.zero_le _
  | succ n =>
    have enough : 2 * (n + 1) ≤ 4 * (List.replicate (n + 1) 91 ++ rest).length + 4 := by
      rw [List.length_append, List.length_replicate]
      omega
    exact nestOnce_brackets F bad hook (n + 1) rest enough

/-! ## What a scan takes -/

def Blank (s : PyStr) : Prop := ∀ c ∈ s, isBlank c = true

def numeric (c : ℕ) : Bool := numberPart c || c == 43 || c == 45

/-- The text of a value that ends with a digit is the text of a number. -/
structure ValueText (t : PyStr) : Prop where
  some : t ≠ []
  number : ∀ c ∈ t.getLast?, isDigit c = true → ∀ d ∈ t, numeric d = true

/-- `s` holds members up to the closing brace of their object, and `r` is what follows. -/
inductive MemberEnds (s r : PyStr) : Prop
  | last (front before after value behind : PyStr)
      (same : s = front ++ 34 :: (before ++ 58 :: (after ++ (value ++ (behind ++ 125 :: r)))))
      (blanks : Blank before ∧ Blank after ∧ Blank behind) (text : ValueText value)

variable {F bad hook}

theorem skipBlanks_split (s : PyStr) : ∃ b, Blank b ∧ s = b ++ skipBlanks s :=
  ⟨s.takeWhile isBlank, fun _ hc => List.mem_takeWhile_imp hc, List.takeWhile_append_dropWhile.symm⟩

theorem consUnit_split {u : StrUnit} {read : Option (List StrUnit × PyStr)} {units : List StrUnit} {r s : PyStr}
    (split : ∀ units r, read = some (units, r) → ∃ t, s = t ++ 34 :: r)
    (h : consUnit u read = some (units, r)) : ∃ t, s = t ++ 34 :: r := by
  unfold consUnit at h
  rw [Option.map_eq_some_iff] at h
  obtain ⟨⟨units', r'⟩, found, same⟩ := h
  cases same
  exact split _ _ found

theorem scanUnits_split {s r : PyStr} {units : List StrUnit} (h : scanUnits s = some (units, r)) :
    ∃ t, s = t ++ 34 :: r := by
  induction s using scanUnits.induct generalizing units r with
  | case1 => simp [scanUnits] at h
  | case2 s =>
    simp only [scanUnits, Option.some.injEq, Prod.mk.injEq] at h
    exact ⟨[], by rw [h.2]; rfl⟩
  | case3 a b c d s ih =>
    rw [scanUnits, Option.bind_eq_some_iff] at h
    obtain ⟨u, -, h⟩ := h
    obtain ⟨t, rfl⟩ := consUnit_split (fun units r read => ih read) h
    exact ⟨92 :: 117 :: a :: b :: c :: d :: t, rfl⟩
  | case4 e s other ih =>
    rw [scanUnits.eq_4 _ _ other, Option.bind_eq_some_iff] at h
    obtain ⟨u, -, h⟩ := h
    obtain ⟨t, rfl⟩ := consUnit_split (fun units r read => ih read) h
    exact ⟨92 :: e :: t, rfl⟩
  | case5 c s h₁ h₂ h₃ illegal =>
    rw [scanUnits.eq_5 _ _ h₁ h₂ h₃, if_pos illegal] at h
    cases h
  | case6 c s h₁ h₂ h₃ legal ih =>
    rw [scanUnits.eq_5 _ _ h₁ h₂ h₃, if_neg legal] at h
    obtain ⟨t, rfl⟩ := consUnit_split (fun units r read => ih read) h
    exact ⟨c :: t, rfl⟩

theorem scanString_split {s key r : PyStr} (h : scanString s = some (key, r)) : ∃ t, s = t ++ 34 :: r := by
  unfold scanString at h
  rw [Option.map_eq_some_iff] at h
  obtain ⟨⟨units, r'⟩, read, same⟩ := h
  cases same
  exact scanUnits_split read

theorem after_split {word s r : PyStr} (h : after word s = some r) : s = word ++ r := by
  induction word generalizing s with
  | nil =>
    cases h
    rfl
  | cons c word ih =>
    cases s with
    | nil => cases h
    | cons d s =>
      rw [after] at h
      split_ifs at h with same
      rw [same, ih h]
      rfl

theorem ValueText.last {f : PyStr} {c : ℕ} (other : isDigit c = false) : ValueText (f ++ [c]) where
  some := List.append_ne_nil_of_right_ne_nil _ (List.cons_ne_nil _ _)
  number := by
    intro d hd digit
    rw [List.getLast?_concat] at hd
    cases hd
    rw [other] at digit
    cases digit

theorem ValueText.numeric {t : PyStr} (some : t ≠ []) (number : ∀ d ∈ t, PyJson.numeric d = true) : ValueText t :=
  ⟨some, fun _ _ _ => number⟩

theorem scanConstant_split {s r : PyStr} {v : PyValue φ} (h : scanConstant s = some (v, r)) :
    ∃ t, s = t ++ r ∧ ValueText t := by
  unfold scanConstant at h
  obtain ⟨c, hc, found⟩ := List.exists_of_findSome?_eq_some h
  rw [Option.map_eq_some_iff] at found
  obtain ⟨rest, read, same⟩ := found
  cases same
  refine ⟨c.1, after_split read, ?_⟩
  unfold constants at hc
  simp only [List.mem_cons, List.not_mem_nil, or_false] at hc
  rcases hc with rfl | rfl | rfl | rfl | rfl | rfl
  · exact ValueText.last (f := [116, 114, 117]) rfl
  · exact ValueText.last (f := [102, 97, 108, 115]) rfl
  · exact ValueText.last (f := [110, 117, 108]) rfl
  · exact ValueText.last (f := [78, 97]) rfl
  · exact ValueText.last (f := [73, 110, 102, 105, 110, 105, 116]) rfl
  · exact ValueText.last (f := [45, 73, 110, 102, 105, 110, 105, 116]) rfl

theorem scanDigits_split {s t r : PyStr} (h : scanDigits s = some (t, r)) :
    s = t ++ r ∧ t ≠ [] ∧ ∀ c ∈ t, isDigit c = true := by
  cases s with
  | nil => cases h
  | cons d s =>
    rw [scanDigits] at h
    split_ifs at h with zero digit
    · cases h
      exact ⟨by rw [zero]; rfl, List.cons_ne_nil _ _, by simp [isDigit]⟩
    · cases h
      refine ⟨?_, List.cons_ne_nil _ _, List.forall_mem_cons.mpr ⟨digit, fun c hc => List.mem_takeWhile_imp hc⟩⟩
      rw [List.cons_append, List.takeWhile_append_dropWhile]

theorem numeric_digit {c : ℕ} (h : isDigit c = true) : numeric c = true := by
  simp [numeric, numberPart, h]

theorem scanIntegral_split {s t r : PyStr} (h : scanIntegral s = some (t, r)) :
    s = t ++ r ∧ t ≠ [] ∧ ∀ c ∈ t, numeric c = true := by
  unfold scanIntegral at h
  split_ifs at h with minus
  · rw [Option.map_eq_some_iff] at h
    obtain ⟨⟨t', r'⟩, read, same⟩ := h
    cases same
    obtain ⟨split, -, digits⟩ := scanDigits_split read
    cases s with
    | nil => cases minus
    | cons c s =>
      cases minus
      rw [List.tail_cons] at split
      refine ⟨by rw [split]; rfl, List.cons_ne_nil _ _, List.forall_mem_cons.mpr ⟨rfl, fun c hc => ?_⟩⟩
      exact numeric_digit (digits c hc)
  · obtain ⟨split, some, digits⟩ := scanDigits_split h
    exact ⟨split, some, fun c hc => numeric_digit (digits c hc)⟩

/-- What a part of a number takes is numeric, and may be nothing. -/
def Takes (scan : PyStr → PyStr × PyStr) : Prop :=
  ∀ s, s = (scan s).1 ++ (scan s).2 ∧ ∀ c ∈ (scan s).1, numeric c = true

theorem numeric_digits (s : PyStr) : ∀ c ∈ s.takeWhile isDigit, numeric c = true :=
  fun _ hc => numeric_digit (List.mem_takeWhile_imp hc)

theorem scanFraction_takes : Takes scanFraction := by
  intro s
  unfold scanFraction
  split
  · next s =>
    split_ifs with none
    · exact ⟨rfl, fun c hc => absurd hc List.not_mem_nil⟩
    · refine ⟨?_, List.forall_mem_cons.mpr ⟨rfl, numeric_digits s⟩⟩
      rw [List.cons_append, List.takeWhile_append_dropWhile]
  · exact ⟨rfl, fun c hc => absurd hc List.not_mem_nil⟩

theorem scanSign_takes : Takes scanSign := by
  intro s
  cases s with
  | nil => exact ⟨rfl, fun c hc => absurd hc List.not_mem_nil⟩
  | cons c s =>
    rw [scanSign]
    split_ifs with sign
    · refine ⟨rfl, List.forall_mem_singleton.mpr ?_⟩
      rcases sign with rfl | rfl <;> rfl
    · exact ⟨rfl, fun c hc => absurd hc List.not_mem_nil⟩

theorem scanExponent_takes : Takes scanExponent := by
  intro s
  cases s with
  | nil => exact ⟨rfl, fun c hc => absurd hc List.not_mem_nil⟩
  | cons e s =>
    obtain ⟨split, signed⟩ := scanSign_takes s
    rw [scanExponent]
    generalize scanSign s = read at split signed ⊢
    obtain ⟨sign, digits⟩ := read
    dsimp only at split signed ⊢
    split_ifs with letter none
    · exact ⟨rfl, fun c hc => absurd hc List.not_mem_nil⟩
    · refine ⟨?_, fun c hc => ?_⟩
      · rw [List.cons_append, List.cons_append, List.append_assoc, List.takeWhile_append_dropWhile, ← split]
      · rcases List.mem_append.mp hc with hc | hc
        · rcases List.mem_cons.mp hc with rfl | hc
          · rcases letter with rfl | rfl <;> rfl
          · exact signed c hc
        · exact numeric_digits _ c hc
    · exact ⟨rfl, fun c hc => absurd hc List.not_mem_nil⟩

theorem scanNumber_takes {s r : PyStr} {v : PyValue φ} (h : scanNumber F s = some (v, r)) :
    ∃ t, s = t ++ r ∧ t ≠ [] ∧ ∀ c ∈ t, numeric c = true := by
  unfold scanNumber at h
  simp only [Option.bind_eq_bind, Option.bind_eq_some_iff] at h
  obtain ⟨⟨a, s'⟩, integral, h⟩ := h
  obtain ⟨split, some, digits⟩ := scanIntegral_split integral
  obtain ⟨split', fraction⟩ := scanFraction_takes s'
  obtain ⟨split'', exponent⟩ := scanExponent_takes (scanFraction s').2
  have rest : r = (scanExponent (scanFraction s').2).2 := by
    dsimp only at h
    split_ifs at h <;> cases h <;> rfl
  refine ⟨a ++ (scanFraction s').1 ++ (scanExponent (scanFraction s').2).1, ?_, ?_, fun c hc => ?_⟩
  · rw [List.append_assoc, List.append_assoc, rest, ← split'', ← split', split]
  · rw [List.append_assoc]
    exact List.append_ne_nil_of_left_ne_nil some _
  · rcases List.mem_append.mp hc with hc | hc
    · rcases List.mem_append.mp hc with hc | hc
      · exact digits c hc
      · exact fraction c hc
    · exact exponent c hc

theorem scanNumber_split {s r : PyStr} {v : PyValue φ} (h : scanNumber F s = some (v, r)) :
    ∃ t, s = t ++ r ∧ ValueText t := by
  obtain ⟨t, split, some, number⟩ := scanNumber_takes h
  exact ⟨t, split, .numeric some number⟩

/-- A scan of `n` fuel takes whole texts. -/
structure Splits (F : FloatText φ) (bad : ε) (hook : List (PyStr × PyValue φ) → Except ε (PyValue φ)) (n : ℕ) :
    Prop where
  once : ∀ {s r v}, scanOnce F bad hook n s = .ok (v, r) → ∃ t, s = t ++ r ∧ ValueText t
  array : ∀ {s r l}, scanArray F bad hook n s = .ok (l, r) → ∃ t, s = t ++ 93 :: r
  items : ∀ {s r l}, scanItems F bad hook n s = .ok (l, r) → ∃ t, s = t ++ 93 :: r
  object : ∀ {s r l}, scanObject F bad hook n s = .ok (l, r) → s = 125 :: r ∨ MemberEnds s r
  members : ∀ {s r l}, scanMembers F bad hook n s = .ok (l, r) → MemberEnds s r

theorem MemberEnds.brace {s r : PyStr} (h : MemberEnds s r) : ∃ t, s = t ++ 125 :: r := by
  obtain ⟨front, before, after, value, behind, same, -, -⟩ := h
  refine ⟨front ++ 34 :: (before ++ 58 :: (after ++ (value ++ behind))), ?_⟩
  rw [same]
  simp only [List.append_assoc, List.cons_append]

theorem MemberEnds.more {s r : PyStr} (h : MemberEnds s r) (t : PyStr) : MemberEnds (t ++ s) r := by
  obtain ⟨front, before, after, value, behind, same, blanks, text⟩ := h
  exact .last (t ++ front) before after value behind (by rw [same, List.append_assoc]) blanks text

theorem ValueText.closed {s t r : PyStr} {c d : ℕ} (same : s = t ++ d :: r) (other : isDigit d = false) :
    ∃ u, c :: s = u ++ r ∧ ValueText u :=
  ⟨c :: t ++ [d], by rw [same, List.append_assoc]; rfl, ValueText.last other⟩

theorem skipBlanks_after {s t : PyStr} {c : ℕ} {r : PyStr} (h : skipBlanks s = t ++ c :: r) :
    ∃ u, s = u ++ c :: r := by
  obtain ⟨b, -, same⟩ := skipBlanks_split s
  exact ⟨b ++ t, by rw [same, h, List.append_assoc]⟩

theorem split_once {n : ℕ} (h : Splits F bad hook n) {s r : PyStr} {v : PyValue φ}
    (read : scanOnce F bad hook (n + 1) s = .ok (v, r)) : ∃ t, s = t ++ r ∧ ValueText t := by
  cases s with
  | nil => cases read
  | cons c s =>
    rw [scanOnce] at read
    split_ifs at read with quoted braced bracketed
    · simp only [bind_eq_ok] at read
      obtain ⟨⟨text, s'⟩, string, same⟩ := read
      cases same
      obtain ⟨t, split⟩ := scanString_split (expect_eq_ok.mp string)
      exact ValueText.closed split rfl
    · simp only [bind_eq_ok] at read
      obtain ⟨⟨pairs, s'⟩, object, value, -, same⟩ := read
      cases same
      have closed : ∃ t, skipBlanks s = t ++ 125 :: s' := by
        rcases h.object object with same | ends
        · exact ⟨[], same⟩
        · exact ends.brace
      obtain ⟨t, closed⟩ := closed
      obtain ⟨u, split⟩ := skipBlanks_after closed
      exact ValueText.closed split rfl
    · simp only [bind_eq_ok] at read
      obtain ⟨⟨items, s'⟩, array, same⟩ := read
      cases same
      obtain ⟨t, closed⟩ := h.array array
      obtain ⟨u, split⟩ := skipBlanks_after closed
      exact ValueText.closed split rfl
    · cases constant : scanConstant (φ := φ) (c :: s) with
      | some x =>
        rw [constant] at read
        cases read
        exact scanConstant_split constant
      | none =>
        rw [constant] at read
        exact scanNumber_split (expect_eq_ok.mp read)

theorem split_items {n : ℕ} (h : Splits F bad hook n) {s r : PyStr} {l : List (PyValue φ)}
    (read : scanItems F bad hook (n + 1) s = .ok (l, r)) : ∃ t, s = t ++ 93 :: r := by
  simp only [scanItems, bind_eq_ok] at read
  obtain ⟨⟨v, s'⟩, item, read⟩ := read
  obtain ⟨t, rfl, -⟩ := h.once item
  dsimp only at read
  split at read
  · next rest close =>
    cases read
    obtain ⟨b, -, same⟩ := skipBlanks_split s'
    exact ⟨t ++ b, by rw [same, close, List.append_assoc]⟩
  · next rest comma =>
    simp only [bind_eq_ok] at read
    obtain ⟨⟨l', s''⟩, more, same⟩ := read
    cases same
    obtain ⟨u, closed⟩ := h.items more
    obtain ⟨w, split⟩ := skipBlanks_after closed
    obtain ⟨b, -, same⟩ := skipBlanks_split s'
    refine ⟨t ++ (b ++ 44 :: w), ?_⟩
    rw [same, comma, split]
    simp only [List.append_assoc, List.cons_append]
  · cases read

theorem split_members {n : ℕ} (h : Splits F bad hook n) {s r : PyStr} {l : List (PyStr × PyValue φ)}
    (read : scanMembers F bad hook (n + 1) s = .ok (l, r)) : MemberEnds s r := by
  cases s with
  | nil => simp [scanMembers] at read
  | cons c s =>
    by_cases quoted : c = 34
    · subst quoted
      simp only [scanMembers, bind_eq_ok] at read
      obtain ⟨⟨key, s₁⟩, name, read⟩ := read
      obtain ⟨k, split⟩ := scanString_split (expect_eq_ok.mp name)
      obtain ⟨before, blankBefore, same⟩ := skipBlanks_split s₁
      dsimp only at read
      split at read
      · next s₂ colon =>
        simp only [bind_eq_ok] at read
        obtain ⟨⟨v, s₃⟩, value, read⟩ := read
        obtain ⟨after, blankAfter, same'⟩ := skipBlanks_split s₂
        obtain ⟨t, split', text⟩ := h.once value
        obtain ⟨behind, blankBehind, same''⟩ := skipBlanks_split s₃
        have whole : 34 :: s = (34 :: k) ++ 34 :: (before ++ 58 :: (after ++ (t ++ (behind ++ skipBlanks s₃)))) := by
          rw [← same'', ← split', ← same', ← colon, ← same, split]
          rfl
        dsimp only at read
        split at read
        · next rest close =>
          cases read
          rw [whole, close]
          exact .last (34 :: k) before after t behind rfl ⟨blankBefore, blankAfter, blankBehind⟩ text
        · next rest comma =>
          simp only [bind_eq_ok] at read
          obtain ⟨⟨l', s₄⟩, more, same⟩ := read
          cases same
          obtain ⟨b, -, next⟩ := skipBlanks_split rest
          have ends := (h.members more).more
            ((34 :: k) ++ 34 :: (before ++ 58 :: (after ++ (t ++ (behind ++ 44 :: b)))))
          rw [whole, comma, next]
          simp only [List.append_assoc, List.cons_append] at ends ⊢
          exact ends
        · cases read
      · cases read
    · simp [scanMembers, quoted] at read

theorem scan_splits (F : FloatText φ) (bad : ε) (hook : List (PyStr × PyValue φ) → Except ε (PyValue φ)) (n : ℕ) :
    Splits F bad hook n := by
  induction n with
  | zero =>
    constructor <;> intro s r x read
    · simp [scanOnce] at read
    · simp [scanArray] at read
    · simp [scanItems] at read
    · simp [scanObject] at read
    · simp [scanMembers] at read
  | succ n ih =>
    constructor
    · intro s r v read
      exact split_once ih read
    · intro s r l read
      rw [scanArray.eq_def] at read
      dsimp only at read
      split at read
      · next rest => exact ⟨[], by cases read; rfl⟩
      · exact ih.items read
    · intro s r l read
      exact split_items ih read
    · intro s r l read
      rw [scanObject.eq_def] at read
      dsimp only at read
      split at read
      · next rest => exact .inl (by cases read; rfl)
      · exact .inr (ih.members read)
    · intro s r l read
      exact split_members ih read

theorem loads_object {text : PyStr} {entries : List (PyValue φ × PyValue φ)}
    (h : loads F bad hook text = .ok (.dict entries)) :
    ∃ s behind, skipBlanks text = 123 :: s ∧ Blank behind ∧ (skipBlanks s = 125 :: behind ∨ MemberEnds (skipBlanks s) behind) := by
  unfold loads at h
  simp only [bind_eq_ok, require_eq_ok] at h
  obtain ⟨_, -, ⟨v, r⟩, read, _, done, same⟩ := h
  cases same
  have blank : Blank r := by
    obtain ⟨b, blank, split⟩ := skipBlanks_split r
    rw [done, List.append_nil] at split
    rw [split]
    exact blank
  cases begins : skipBlanks text with
  | nil =>
    rw [begins] at read
    cases read
  | cons c s =>
    rw [begins, scanOnce] at read
    split_ifs at read with quoted braced bracketed
    · simp only [bind_eq_ok] at read
      obtain ⟨_, -, same⟩ := read
      cases same
    · simp only [bind_eq_ok] at read
      obtain ⟨⟨pairs, s'⟩, object, value, -, same⟩ := read
      cases same
      exact ⟨s, s', by rw [braced], blank, (scan_splits F bad hook _).object object⟩
    · simp only [bind_eq_ok] at read
      obtain ⟨_, -, same⟩ := read
      cases same
    · cases constant : scanConstant (φ := φ) (c :: s) with
      | some x =>
        rw [constant] at read
        cases read
        exact (scanConstant_atomic constant).elim
      | none =>
        rw [constant] at read
        exact (scanNumber_atomic F (expect_eq_ok.mp read)).elim

theorem Blank.clear {s : PyStr} {c : ℕ} (blank : Blank s) (other : isBlank c = false) : c ∉ s := by
  intro mem
  rw [blank c mem] at other
  cases other

theorem last_of_blank {t b : PyStr} {c d : ℕ} (blank : Blank b) (other : isBlank d = false)
    (last : (t ++ c :: b).getLast? = some d) : b = [] ∧ c = d := by
  rcases List.eq_nil_or_concat b with rfl | ⟨b', e, rfl⟩
  · rw [List.getLast?_concat] at last
    exact ⟨rfl, Option.some.inj last⟩
  · rw [List.concat_eq_append, ← List.cons_append, ← List.append_assoc, List.getLast?_concat] at last
    cases last
    exact absurd (by simp) (blank.clear other)

theorem not_object_of_last {text : PyStr} {c : ℕ} (last : text.getLast? = some c) (other : c ≠ 125)
    (solid : isBlank c = false) (entries : List (PyValue φ × PyValue φ)) :
    loads F bad hook text ≠ .ok (.dict entries) := by
  intro h
  obtain ⟨s, behind, begins, blank, ends⟩ := loads_object h
  have closed : ∃ t, skipBlanks s = t ++ 125 :: behind := by
    rcases ends with same | ends
    · exact ⟨[], same⟩
    · exact ends.brace
  obtain ⟨t, closed⟩ := closed
  obtain ⟨u, split⟩ := skipBlanks_after closed
  rw [split] at begins
  obtain ⟨w, whole⟩ := skipBlanks_after (t := 123 :: u) begins
  rw [whole] at last
  exact other (last_of_blank blank solid last).2.symm

theorem quoted_key {front key before after value digits : PyStr} (blanks : Blank before ∧ Blank after)
    (text : ValueText value) (digit : ∀ c ∈ digits, isDigit c = true) (some : digits ≠ [])
    (same : key ++ 34 :: (before ++ 58 :: (after ++ value)) = front ++ 39 :: 58 :: 32 :: digits) : False := by
  have whole : (key ++ 34 :: (before ++ 58 :: after)) ++ value = (front ++ [39, 58, 32]) ++ digits := by
    simpa only [List.append_assoc, List.cons_append, List.nil_append] using same
  have last : ∃ c ∈ value.getLast?, isDigit c = true := by
    obtain ⟨d, c, rfl⟩ := List.eq_nil_or_concat digits |>.resolve_left some
    have ends := congrArg List.getLast? whole
    rw [List.concat_eq_append, ← List.append_assoc (front ++ [39, 58, 32]), List.getLast?_concat,
      List.getLast?_append_of_ne_nil _ text.some] at ends
    exact ⟨c, ends, digit c (by simp)⟩
  obtain ⟨c, hc, isDigit⟩ := last
  have number := text.number c hc isDigit
  have aligned : key ++ 34 :: (before ++ 58 :: after) = front ++ [39, 58, 32] := by
    rcases List.append_eq_append_iff.mp whole with ⟨t, longer, rest⟩ | ⟨t, longer, rest⟩
    · rcases List.eq_nil_or_concat t with rfl | ⟨t', e, rfl⟩
      · rw [longer, List.append_nil]
      · have ends := congrArg List.getLast? longer
        rw [List.concat_eq_append, ← List.append_assoc, List.getLast?_concat,
          List.getLast?_append_of_ne_nil _ (List.cons_ne_nil _ _)] at ends
        cases ends
        have inside := number 32 (by rw [rest]; simp)
        cases inside
    · rcases List.eq_nil_or_concat t with rfl | ⟨t', e, rfl⟩
      · rw [longer, List.append_nil]
      · have digits := digit e (by rw [rest]; simp)
        have ends := congrArg List.getLast? longer
        rw [List.concat_eq_append, ← List.append_assoc, List.getLast?_concat] at ends
        rcases List.eq_nil_or_concat after with rfl | ⟨a, f, rfl⟩
        · rw [← List.cons_append, ← List.append_assoc, List.getLast?_concat] at ends
          cases ends
          cases digits
        · rw [List.concat_eq_append, ← List.cons_append, ← List.append_assoc, ← List.cons_append,
            ← List.append_assoc, List.getLast?_concat] at ends
          cases ends
          have blank := blanks.2 e (by simp)
          simp only [PyJson.isDigit, Bool.and_eq_true, decide_eq_true_eq] at digits
          simp only [isBlank, Bool.or_eq_true, beq_iff_eq] at blank
          omega
  have reversed := congrArg List.reverse aligned
  simp only [List.reverse_append, List.reverse_cons, List.reverse_nil, List.nil_append, List.append_assoc,
    List.cons_append] at reversed
  cases a : after.reverse with
  | nil =>
    rw [a] at reversed
    cases reversed
  | cons x a' =>
    rw [a] at reversed
    have tail := (List.cons.inj reversed).2
    cases a' with
    | cons y a'' =>
      have blank := blanks.2 y (by rw [← List.mem_reverse, a]; simp)
      cases (List.cons.inj tail).1
      cases blank
    | nil =>
      have tail := (List.cons.inj tail).2
      cases b : before.reverse with
      | nil =>
        rw [b] at tail
        cases tail
      | cons z b' =>
        have blank := blanks.1 z (by rw [← List.mem_reverse, b]; simp)
        rw [b] at tail
        cases (List.cons.inj tail).1
        cases blank

theorem not_object_of_key {front digits : PyStr} (digit : ∀ c ∈ digits, isDigit c = true) (some : digits ≠ [])
    (entries : List (PyValue φ × PyValue φ)) :
    loads F bad hook (front ++ 39 :: 58 :: 32 :: (digits ++ [125])) ≠ .ok (.dict entries) := by
  intro h
  obtain ⟨s, behind, begins, blank, ends⟩ := loads_object h
  obtain ⟨b, -, split⟩ := skipBlanks_split (front ++ 39 :: 58 :: 32 :: (digits ++ [125]))
  rw [begins] at split
  obtain ⟨b', blank', split'⟩ := skipBlanks_split s
  have last : (front ++ 39 :: 58 :: 32 :: (digits ++ [125])).getLast? = Option.some 125 := by
    simp only [← List.cons_append, ← List.append_assoc, List.getLast?_concat]
  obtain ⟨d, c, rfl⟩ := List.eq_nil_or_concat digits |>.resolve_left some
  have solid : PyJson.isDigit c = true := digit c (by simp)
  rcases ends with same | ⟨front', before, after, value, after', same, blanks, text⟩
  · have whole : front ++ 39 :: 58 :: 32 :: (d.concat c ++ [125]) = (b ++ 123 :: b') ++ 125 :: behind := by
      rw [split, split', same]
      simp only [List.append_assoc, List.cons_append]
    rw [whole] at last
    obtain ⟨rfl, -⟩ := last_of_blank blank rfl last
    have ends : (front ++ 39 :: 58 :: 32 :: d ++ [c]) ++ [125] = (b ++ 123 :: b') ++ [125] := by
      rw [← whole]
      simp only [List.concat_eq_append, List.append_assoc, List.cons_append]
    have ends := congrArg List.getLast? (List.append_cancel_right ends)
    rw [List.getLast?_concat] at ends
    rcases List.eq_nil_or_concat b' with rfl | ⟨b'', e, rfl⟩
    · rw [List.getLast?_concat] at ends
      cases ends
      cases solid
    · rw [List.concat_eq_append, ← List.cons_append, ← List.append_assoc, List.getLast?_concat] at ends
      cases ends
      have blank := blank' c (by simp)
      simp only [PyJson.isDigit, Bool.and_eq_true, decide_eq_true_eq] at solid
      simp only [isBlank, Bool.or_eq_true, beq_iff_eq] at blank
      omega
  · have whole : front ++ 39 :: 58 :: 32 :: (d.concat c ++ [125]) =
        (b ++ 123 :: (b' ++ (front' ++ 34 :: (before ++ 58 :: (after ++ (value ++ after')))))) ++ 125 :: behind := by
      rw [split, split', same]
      simp only [List.append_assoc, List.cons_append]
    rw [whole] at last
    obtain ⟨rfl, -⟩ := last_of_blank blank rfl last
    have trimmed : front ++ 39 :: 58 :: 32 :: d.concat c =
        b ++ 123 :: (b' ++ (front' ++ 34 :: (before ++ 58 :: (after ++ (value ++ after'))))) := by
      refine @List.append_cancel_right _ _ [125] _ ?_
      rw [← whole]
      simp only [List.append_assoc, List.cons_append]
    rcases List.eq_nil_or_concat after' with rfl | ⟨a, e, rfl⟩
    · rw [List.append_nil] at trimmed
      have aligned : (b ++ 123 :: (b' ++ front')) ++ 34 :: (before ++ 58 :: (after ++ value)) =
          front ++ 39 :: 58 :: 32 :: d.concat c := by
        rw [trimmed]
        simp only [List.append_assoc, List.cons_append]
      exact quoted_key ⟨blanks.1, blanks.2.1⟩ text digit some aligned
    · have ends := congrArg List.getLast? trimmed
      have blank := blanks.2.2 e (by simp)
      simp only [List.concat_eq_append, ← List.cons_append, ← List.append_assoc, List.getLast?_concat] at ends
      cases ends
      simp only [PyJson.isDigit, Bool.and_eq_true, decide_eq_true_eq] at solid
      simp only [isBlank, Bool.or_eq_true, beq_iff_eq] at blank
      omega

end PyJson
