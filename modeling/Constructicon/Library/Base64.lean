import Mathlib.Data.List.DropRight
import Mathlib.Tactic

/-!
# Base64 without padding

The URL-safe alphabet, three bytes in four symbols. The padding is stripped from what is written, and
put back to read it; what is read back is what was written.
-/

namespace Base64

def symbol (n : ℕ) : Char :=
  if n < 26 then Char.ofNat (65 + n)
  else if n < 52 then Char.ofNat (71 + n)
  else if n < 62 then Char.ofNat (n - 4)
  else if n = 62 then '-'
  else '_'

/-- The six bits of a symbol; the last two of the standard alphabet are read as well. -/
def value (c : Char) : Option ℕ :=
  if c = '+' then some 62 else if c = '/' then some 63 else (List.range 64).find? (fun n => symbol n = c)

/-- `urlsafe_b64encode` -/
def encode : List ℕ → List Char
  | [] => []
  | [a] => [symbol (a / 4), symbol (a % 4 * 16), '=', '=']
  | [a, b] => [symbol (a / 4), symbol (a % 4 * 16 + b / 16), symbol (b % 16 * 4), '=']
  | a :: b :: c :: bytes =>
    symbol (a / 4) :: symbol (a % 4 * 16 + b / 16) :: symbol (b % 16 * 4 + c / 64) :: symbol (c % 64) ::
      encode bytes

/-- The bytes of the last four symbols, which may be padded. -/
def decodeLast (w x y z : Char) : Option (List ℕ) := do
  let i ← value w
  let j ← value x
  if y = '=' ∧ z = '=' then some [i * 4 + j / 16]
  else do
    let k ← value y
    if z = '=' then some [i * 4 + j / 16, j % 16 * 16 + k / 4]
    else do
      let l ← value z
      some [i * 4 + j / 16, j % 16 * 16 + k / 4, k % 4 * 64 + l]

/-- `b64decode` that validates: no other symbol, and no padding but in the last four. -/
def decode : List Char → Option (List ℕ)
  | [] => some []
  | [w, x, y, z] => decodeLast w x y z
  | w :: x :: y :: z :: text => do
    let i ← value w
    let j ← value x
    let k ← value y
    let l ← value z
    let bytes ← decode text
    some ((i * 4 + j / 16) :: (j % 16 * 16 + k / 4) :: (k % 4 * 64 + l) :: bytes)
  | _ => none

/-- `rstrip("=")` -/
def strip (text : List Char) : List Char := text.rdropWhile (· = '=')

/-- The text with the padding its length asks for. -/
def pad (text : List Char) : List Char := text ++ List.replicate ((4 - text.length % 4) % 4) '='

/-! ## Reading what was written -/

theorem value_symbol {n : ℕ} (h : n < 64) : value (symbol n) = some n := by
  interval_cases n <;> decide

theorem symbol_ne_pad {n : ℕ} (h : n < 64) : symbol n ≠ '=' := by
  interval_cases n <;> decide

theorem decode_whole {w x y z : Char} {i j k l : ℕ} (hw : value w = some i) (hx : value x = some j)
    (hy : value y = some k) (hz : value z = some l) (whole : z ≠ '=') {text : List Char} {bytes : List ℕ}
    (rest : decode text = some bytes) :
    decode (w :: x :: y :: z :: text) =
      some ((i * 4 + j / 16) :: (j % 16 * 16 + k / 4) :: (k % 4 * 64 + l) :: bytes) := by
  cases text with
  | nil =>
    cases rest
    simp [decode, decodeLast, hw, hx, hy, hz, whole]
  | cons c text => simp [decode, hw, hx, hy, hz, rest]

theorem decode_encode (bytes : List ℕ) (small : ∀ b ∈ bytes, b < 256) : decode (encode bytes) = some bytes := by
  induction bytes using encode.induct with
  | case1 => rfl
  | case2 a =>
    have ha := small a (by simp)
    have first : value (symbol (a / 4)) = some (a / 4) := value_symbol (by omega)
    have second : value (symbol (a % 4 * 16)) = some (a % 4 * 16) := value_symbol (by omega)
    have back : a / 4 * 4 + a % 4 * 16 / 16 = a := by omega
    simp only [encode, decode, decodeLast, first, second, and_self, if_true, Option.bind_eq_bind, Option.bind_some,
      back]
  | case3 a b =>
    have ha := small a (by simp)
    have hb := small b (by simp)
    have first : value (symbol (a / 4)) = some (a / 4) := value_symbol (by omega)
    have second : value (symbol (a % 4 * 16 + b / 16)) = some (a % 4 * 16 + b / 16) := value_symbol (by omega)
    have third : value (symbol (b % 16 * 4)) = some (b % 16 * 4) := value_symbol (by omega)
    have more : symbol (b % 16 * 4) ≠ '=' := symbol_ne_pad (by omega)
    have back : a / 4 * 4 + (a % 4 * 16 + b / 16) / 16 = a := by omega
    have back' : (a % 4 * 16 + b / 16) % 16 * 16 + b % 16 * 4 / 4 = b := by omega
    simp only [encode, decode, decodeLast, first, second, third, more, false_and, if_false, Option.bind_eq_bind,
      Option.bind_some, if_true, back, back']
  | case4 a b c bytes ih =>
    have ha := small a (by simp)
    have hb := small b (by simp)
    have hc := small c (by simp)
    have rest := ih fun b' held => small b' (by simp [held])
    rw [encode, decode_whole (value_symbol (by omega)) (value_symbol (by omega)) (value_symbol (by omega))
      (value_symbol (by omega)) (symbol_ne_pad (by omega)) rest]
    have back : a / 4 * 4 + (a % 4 * 16 + b / 16) / 16 = a := by omega
    have back' : (a % 4 * 16 + b / 16) % 16 * 16 + (b % 16 * 4 + c / 64) / 4 = b := by omega
    have back'' : (b % 16 * 4 + c / 64) % 4 * 64 + c % 64 = c := by omega
    rw [back, back', back'']

theorem encode_split (bytes : List ℕ) (small : ∀ b ∈ bytes, b < 256) :
    ∃ body k, encode bytes = body ++ List.replicate k '=' ∧ '=' ∉ body ∧ k < 4 ∧ (body.length + k) % 4 = 0 := by
  induction bytes using encode.induct with
  | case1 => exact ⟨[], 0, rfl, by simp, by omega, rfl⟩
  | case2 a =>
    have ha := small a (by simp)
    refine ⟨[symbol (a / 4), symbol (a % 4 * 16)], 2, rfl, ?_, by omega, by simp⟩
    simp [(symbol_ne_pad (n := a / 4) (by omega)).symm, (symbol_ne_pad (n := a % 4 * 16) (by omega)).symm]
  | case3 a b =>
    have ha := small a (by simp)
    have hb := small b (by simp)
    refine ⟨[symbol (a / 4), symbol (a % 4 * 16 + b / 16), symbol (b % 16 * 4)], 1, rfl, ?_, by omega, by simp⟩
    simp [(symbol_ne_pad (n := a / 4) (by omega)).symm, (symbol_ne_pad (n := a % 4 * 16 + b / 16) (by omega)).symm,
      (symbol_ne_pad (n := b % 16 * 4) (by omega)).symm]
  | case4 a b c bytes ih =>
    have ha := small a (by simp)
    have hb := small b (by simp)
    have hc := small c (by simp)
    obtain ⟨body, k, split, plain, few, fours⟩ := ih fun b' held => small b' (by simp [held])
    refine ⟨symbol (a / 4) :: symbol (a % 4 * 16 + b / 16) :: symbol (b % 16 * 4 + c / 64) :: symbol (c % 64) :: body,
      k, ?_, ?_, few, ?_⟩
    · rw [encode, split]
      rfl
    · simp [plain, (symbol_ne_pad (n := a / 4) (by omega)).symm,
        (symbol_ne_pad (n := a % 4 * 16 + b / 16) (by omega)).symm,
        (symbol_ne_pad (n := b % 16 * 4 + c / 64) (by omega)).symm, (symbol_ne_pad (n := c % 64) (by omega)).symm]
    · simp only [List.length_cons]
      omega

theorem strip_padded {body : List Char} (plain : '=' ∉ body) (k : ℕ) :
    strip (body ++ List.replicate k '=') = body := by
  unfold strip
  induction k with
  | zero =>
    rw [List.replicate_zero, List.append_nil, List.rdropWhile_eq_self_iff]
    intro some same
    exact plain (of_decide_eq_true same ▸ List.getLast_mem some)
  | succ k ih =>
    rw [List.replicate_succ', ← List.append_assoc, List.rdropWhile_concat_pos _ _ _ (by simp), ih]

theorem pad_strip (bytes : List ℕ) (small : ∀ b ∈ bytes, b < 256) : pad (strip (encode bytes)) = encode bytes := by
  obtain ⟨body, k, split, plain, few, fours⟩ := encode_split bytes small
  have missing : (4 - body.length % 4) % 4 = k := by omega
  rw [split, strip_padded plain, pad, missing]

theorem decode_stripped (bytes : List ℕ) (small : ∀ b ∈ bytes, b < 256) :
    decode (pad (strip (encode bytes))) = some bytes := by
  rw [pad_strip bytes small, decode_encode bytes small]

end Base64
