import Mathlib.Tactic

/-!
# Slices of UTF-8

A text as the list of its bytes. Decoding is exact, no encoding is a proper beginning of another
one of the same length in characters, and a decodable beginning of an encoding is the encoding of
a beginning of the text.
-/

namespace Utf8

def encode (text : List Char) : List UInt8 := text.flatMap String.utf8EncodeChar

def decode (bytes : List UInt8) : Option (List Char) := bytes.toByteArray.utf8Decode?.map Array.toList

@[simp] theorem encode_nil : encode [] = [] := rfl

@[simp] theorem encode_cons (c : Char) (text : List Char) :
    encode (c :: text) = String.utf8EncodeChar c ++ encode text := rfl

@[simp] theorem encode_append (a b : List Char) : encode (a ++ b) = encode a ++ encode b := by
  simp [encode]

@[simp] theorem decode_encode (text : List Char) : decode (encode text) = some text := by
  change (text.utf8Encode.utf8Decode?).map Array.toList = some text
  rw [List.utf8Decode?_utf8Encode]
  rfl

theorem decode_eq_some {bytes : List UInt8} {text : List Char} : decode bytes = some text ↔ encode text = bytes := by
  constructor
  · intro read
    obtain ⟨chars, found, rfl⟩ := Option.map_eq_some_iff.mp read
    have valid : bytes.toByteArray.utf8Decode?.isSome := by rw [found]; rfl
    have whole := ByteArray.utf8Encode_get_utf8Decode? (h := valid)
    have got : bytes.toByteArray.utf8Decode?.get valid = chars := by
      rw [Option.get_of_eq_some valid found]
    rw [got] at whole
    exact List.toByteArray_inj.mp whole
  · rintro rfl
    exact decode_encode text

theorem head_of_append {c d : Char} {a b : List UInt8}
    (same : String.utf8EncodeChar c ++ a = String.utf8EncodeChar d ++ b) : c = d ∧ a = b := by
  have first : c = d := by
    have left := ByteArray.utf8DecodeChar?_utf8EncodeChar_append (b := a.toByteArray) (c := c)
    have right := ByteArray.utf8DecodeChar?_utf8EncodeChar_append (b := b.toByteArray) (c := d)
    rw [← List.toByteArray_append] at left right
    rw [same, right] at left
    exact (Option.some.inj left).symm
  subst first
  exact ⟨rfl, List.append_cancel_left same⟩

theorem exists_append_of_encode {text whole : List Char} {rest : List UInt8} (same : encode text ++ rest = encode whole) :
    ∃ after, whole = text ++ after ∧ encode after = rest := by
  induction text generalizing whole with
  | nil => exact ⟨whole, rfl, same.symm⟩
  | cons c text ih =>
    cases whole with
    | nil =>
      have empty : String.utf8EncodeChar c = [] := by
        simp only [encode_cons, encode_nil, List.append_assoc, List.append_eq_nil_iff] at same
        exact same.1
      exact absurd empty String.utf8EncodeChar_ne_nil
    | cons d whole =>
      rw [encode_cons, encode_cons, List.append_assoc] at same
      obtain ⟨rfl, tails⟩ := head_of_append same
      obtain ⟨after, rfl, last⟩ := ih tails
      exact ⟨after, rfl, last⟩

theorem size_le (c : Char) : (String.utf8EncodeChar c).length ≤ 4 := by
  rw [String.length_utf8EncodeChar]
  exact c.utf8Size_le_four

theorem size_pos (c : Char) : 0 < (String.utf8EncodeChar c).length := by
  rw [String.length_utf8EncodeChar]
  exact c.utf8Size_pos

theorem length_le_encode (text : List Char) : text.length ≤ (encode text).length := by
  induction text with
  | nil => simp
  | cons c text ih =>
    have size := size_pos c
    rw [encode_cons, List.length_append, List.length_cons]
    omega

theorem exists_wide {c : Char} (wide : 128 ≤ c.toNat) : ∃ b ∈ String.utf8EncodeChar c, 128 ≤ b := by
  have value : ∀ n < 256, 128 ≤ n → 128 ≤ UInt8.ofNat n := by
    intro n small big
    rw [UInt8.le_iff_toNat_le, UInt8.toNat_ofNat', Nat.mod_eq_of_lt small]
    exact big
  have number : c.val.toNat = c.toNat := rfl
  unfold String.utf8EncodeChar
  dsimp only
  rw [number, if_neg (by omega)]
  split_ifs
  · exact ⟨_, List.mem_cons_self, value _ (by omega) (by omega)⟩
  · exact ⟨_, List.mem_cons_self, value _ (by omega) (by omega)⟩
  · exact ⟨_, List.mem_cons_self, value _ (by omega) (by omega)⟩

theorem encode_narrow {c : Char} (narrow : c.toNat < 128) : (String.utf8EncodeChar c).map UInt8.toNat = [c.toNat] := by
  have number : c.val.toNat = c.toNat := rfl
  unfold String.utf8EncodeChar
  dsimp only
  rw [number, if_pos (by omega), List.map_singleton, UInt8.toNat_ofNat', Nat.mod_eq_of_lt (by omega)]

theorem encode_wide {c : Char} (wide : 128 ≤ c.toNat) : ∀ b ∈ String.utf8EncodeChar c, 128 ≤ b.toNat := by
  have value : ∀ n < 256, 128 ≤ n → 128 ≤ (UInt8.ofNat n).toNat := by
    intro n small big
    rw [UInt8.toNat_ofNat', Nat.mod_eq_of_lt small]
    exact big
  have number : c.val.toNat = c.toNat := rfl
  unfold String.utf8EncodeChar
  dsimp only
  rw [number, if_neg (by omega)]
  split_ifs
  all_goals
    intro b mem
    simp only [List.mem_cons, List.not_mem_nil, or_false] at mem
    rcases mem with rfl | rfl | rfl | rfl <;> exact value _ (by omega) (by omega)

theorem ascii_of_encode {text : List Char} (ascii : ∀ b ∈ encode text, b < 128) : ∀ c ∈ text, c.toNat < 128 := by
  intro c mem
  by_contra wide
  obtain ⟨b, inside, big⟩ := exists_wide (not_lt.mp wide)
  have small := ascii b (List.mem_flatMap.mpr ⟨c, mem, inside⟩)
  exact UInt8.not_le.mpr small big

theorem decode_take {whole text : List Char} {count : ℕ} (read : decode ((encode whole).take count) = some text) :
    ∃ after, whole = text ++ after ∧ (encode text).length = min count (encode whole).length := by
  have bytes := decode_eq_some.mp read
  have same : encode text ++ (encode whole).drop count = encode whole := by
    rw [bytes]
    exact List.take_append_drop count (encode whole)
  obtain ⟨after, split, -⟩ := exists_append_of_encode same
  exact ⟨after, split, by rw [bytes, List.length_take]⟩

theorem decode_first (c : Char) (text : List Char) :
    decode ((encode (c :: text)).take (String.utf8EncodeChar c).length) = some [c] := by
  rw [encode_cons, List.take_left]
  apply decode_eq_some.mpr
  simp [encode]

theorem boundary (front : List Char) (c : Char) (text : List Char) {b : UInt8}
    (found : (encode (front ++ c :: text))[(encode front).length]? = some b) : b &&& 0xC0 ≠ 0x80 := by
  rw [encode_append, List.getElem?_append_right (le_refl _), Nat.sub_self, encode_cons,
    List.getElem?_append_left (size_pos c)] at found
  obtain ⟨short, same⟩ := List.getElem?_eq_some_iff.mp found
  have opens : b.IsUTF8FirstByte := by
    rw [← same]
    exact UInt8.isUTF8FirstByte_getElem_utf8EncodeChar.mpr rfl
  have plain : ∀ n : Fin 256, (UInt8.ofNat n).IsUTF8FirstByte → UInt8.ofNat n &&& 0xC0 ≠ 0x80 := by decide +kernel
  have value := plain ⟨b.toNat, b.toNat_lt⟩
  rw [UInt8.ofNat_toNat] at value
  exact value opens

end Utf8
