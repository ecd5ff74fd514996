import Constructicon.JsonFrames
import Constructicon.Library.DepthGuard
import Constructicon.Library.Utf8
import Constructicon.PiDecoder

/-!
# The depth guard of a Pi record

`parse_record` counts brackets over the bytes of a record before it parses them. The bytes of a
character beyond ASCII are none that the count looks at, so the count over bytes is the count over
characters: it gives up on every record that begins with a text the parser goes too deep in, and on
no valid text besides.
-/

namespace Constructicon.PiDecoder

open PyJson

variable {φ ε : Type}

/-! ## Bytes and characters -/

theorem next_wide {c : ℕ} (wide : 128 ≤ c) (g : PyJson.Scan) : g.next c = { g with escaped := g.escaped && !g.quoted } := by
  obtain ⟨slash, quote, bracket, brace, bracket', brace'⟩ :
      c ≠ 92 ∧ c ≠ 34 ∧ c ≠ 91 ∧ c ≠ 123 ∧ c ≠ 93 ∧ c ≠ 125 := by omega
  obtain ⟨depth, quoted, escaped⟩ := g
  cases quoted <;> cases escaped <;> simp [Scan.next, slash, quote, bracket, brace, bracket', brace']

theorem wide_bytes {bytes : List ℕ} (some : bytes ≠ []) (wide : ∀ b ∈ bytes, 128 ≤ b) {c : ℕ} (beyond : 128 ≤ c)
    (g : PyJson.Scan) : g.walk bytes = g.next c ∧ g.peak bytes = g.peak [c] := by
  have depth : ∀ {b : ℕ} (g : PyJson.Scan), 128 ≤ b → (g.next b).depth = g.depth := by
    intro b g wide
    rw [next_wide wide]
  induction bytes generalizing g with
  | nil => exact absurd rfl some
  | cons b bytes ih =>
    obtain ⟨here, later⟩ := List.forall_mem_cons.mp wide
    cases bytes with
    | nil =>
      refine ⟨(next_wide here g).trans (next_wide beyond g).symm, ?_⟩
      rw [Scan.peak, Scan.peak, Scan.peak, Scan.peak, depth g here, depth g beyond]
    | cons b' bytes =>
      obtain ⟨walk, peak⟩ := ih (List.cons_ne_nil _ _) later (g.next b)
      have again : (g.next b).next c = g.next c := by
        rw [next_wide here, next_wide beyond, next_wide beyond]
        cases g.escaped <;> cases g.quoted <;> rfl
      refine ⟨?_, ?_⟩
      · rw [← again, ← walk]
        rfl
      · rw [Scan.peak, peak, Scan.peak, Scan.peak, Scan.peak, Scan.peak, again, depth g here, depth g beyond, max_self,
          max_self]

theorem character_bytes (c : Char) (g : PyJson.Scan) :
    g.walk ((String.utf8EncodeChar c).map UInt8.toNat) = g.next c.toNat ∧
      g.peak ((String.utf8EncodeChar c).map UInt8.toNat) = g.peak [c.toNat] := by
  rcases lt_or_ge c.toNat 128 with narrow | wide
  · rw [Utf8.encode_narrow narrow]
    exact ⟨rfl, rfl⟩
  · refine wide_bytes ?_ ?_ wide g
    · simp
    · intro b mem
      obtain ⟨byte, inside, rfl⟩ := List.mem_map.mp mem
      exact Utf8.encode_wide wide byte inside

theorem text_bytes (text : List Char) (g : PyJson.Scan) :
    g.walk ((Utf8.encode text).map UInt8.toNat) = g.walk (text.map Char.toNat) ∧
      g.peak ((Utf8.encode text).map UInt8.toNat) = g.peak (text.map Char.toNat) := by
  induction text generalizing g with
  | nil => exact ⟨rfl, rfl⟩
  | cons c text ih =>
    obtain ⟨walk, peak⟩ := character_bytes c g
    obtain ⟨walk', peak'⟩ := ih (g.next c.toNat)
    have split : (c :: text).map Char.toNat = [c.toNat] ++ text.map Char.toNat := rfl
    rw [Utf8.encode_cons, List.map_append, split, Scan.walk_append, Scan.peak_append, Scan.walk_append,
      Scan.peak_append, walk, peak]
    exact ⟨walk', congrArg (max _) peak'⟩

/-! ## The scan of a record -/

def Scan.characters (s : Scan) : PyJson.Scan := ⟨s.depth, s.quoted, s.escaped⟩

theorem byte_step {s : Scan} (low : s.depth ≤ jsonDepth) (byte : UInt8) :
    (s.byte byte).map Scan.characters = s.characters.step jsonDepth byte.toNat := by
  have slash : byte = 92 ↔ byte.toNat = 92 := UInt8.toNat_inj.symm
  have quote : byte = 34 ↔ byte.toNat = 34 := UInt8.toNat_inj.symm
  have bracket : byte = 91 ↔ byte.toNat = 91 := UInt8.toNat_inj.symm
  have brace : byte = 123 ↔ byte.toNat = 123 := UInt8.toNat_inj.symm
  have bracket' : byte = 93 ↔ byte.toNat = 93 := UInt8.toNat_inj.symm
  have brace' : byte = 125 ↔ byte.toNat = 125 := UInt8.toNat_inj.symm
  obtain ⟨depth, quoted, escaped⟩ := s
  change depth ≤ jsonDepth at low
  have kept : ¬jsonDepth < depth := not_lt.mpr low
  have lower : ¬jsonDepth < depth - 1 := by omega
  unfold Scan.byte Scan.step Scan.next
  simp only [Scan.characters, slash, quote, bracket, brace, bracket', brace']
  split_ifs <;> first | rfl | contradiction | simp_all [Scan.characters]

/-- `parse_record` raises "JSON depth exceeded". -/
def DepthExceeded (raw : List UInt8) : Prop := raw.foldlM Scan.byte ⟨0, false, false⟩ = none

theorem foldlM_byte (raw : List UInt8) {s : Scan} (low : s.depth ≤ jsonDepth) :
    (raw.foldlM Scan.byte s).map Scan.characters =
      (raw.map UInt8.toNat).foldlM (Scan.step jsonDepth) s.characters := by
  induction raw generalizing s with
  | nil => rfl
  | cons byte raw ih =>
    have step := byte_step low byte
    rw [List.foldlM_cons, List.map_cons, List.foldlM_cons, ← step]
    cases next : s.byte byte with
    | none => rfl
    | some s' =>
      have kept : s'.depth ≤ jsonDepth := by
        by_contra above
        rw [next, PyJson.Scan.step] at step
        split_ifs at step with high
        · cases step
        · exact high (Option.some.inj step ▸ not_le.mp above)
      exact ih kept

theorem depthExceeded_iff (raw : List UInt8) :
    DepthExceeded raw ↔ jsonDepth < (PyJson.Scan.outside 0).peak (raw.map UInt8.toNat) := by
  have scanned := foldlM_byte raw (show (⟨0, false, false⟩ : Scan).depth ≤ jsonDepth by decide)
  have counted := PyJson.Scan.foldlM_step (show (PyJson.Scan.outside 0).depth ≤ jsonDepth by decide) (raw.map UInt8.toNat)
  rw [DepthExceeded, ← Option.map_eq_none_iff (f := Scan.characters), scanned]
  change (raw.map UInt8.toNat).foldlM (PyJson.Scan.step jsonDepth) (PyJson.Scan.outside 0) = none ↔ _
  rw [counted]
  split_ifs with above
  · exact ⟨fun _ => above, fun _ => rfl⟩
  · exact ⟨fun h => (by cases h), fun h => absurd h above⟩

/-! ## The guard is exact -/

/-- A text that the parser goes too deep in is refused, whatever follows; a valid text is refused only
then; and what is not refused the parser goes no deeper in. -/
theorem depth_guard (F : FloatText φ) (bad : ε) (hook : List (PyStr × PyValue φ) → Except ε (PyValue φ))
    (text : List Char) :
    (jsonDepth < nesting F bad hook (text.map Char.toNat) → ∀ rest, DepthExceeded (Utf8.encode text ++ rest)) ∧
      (∀ v, loads F bad hook (text.map Char.toNat) = .ok v →
        (DepthExceeded (Utf8.encode text) ↔ jsonDepth < nesting F bad hook (text.map Char.toNat))) ∧
      ∀ raw, Utf8.decode raw = some text → ¬DepthExceeded raw →
        nesting F bad hook (text.map Char.toNat) ≤ jsonDepth := by
  have reached := nesting_le_peak F bad hook (text.map Char.toNat)
  have bytes := (text_bytes text (.outside 0)).2
  have refused : jsonDepth < nesting F bad hook (text.map Char.toNat) →
      ∀ rest, DepthExceeded (Utf8.encode text ++ rest) := by
    intro deep rest
    rw [depthExceeded_iff, List.map_append, PyJson.Scan.peak_append, bytes]
    exact lt_max_of_lt_left (deep.trans_le reached)
  refine ⟨refused, fun v valid => ⟨fun exceeded => ?_, fun deep => ?_⟩, fun raw read kept => ?_⟩
  · rw [depthExceeded_iff, bytes] at exceeded
    exact exceeded.trans_le (peak_le_nesting valid)
  · simpa using refused deep []
  · rw [← Utf8.decode_eq_some.mp read] at kept
    by_contra deep
    exact kept (by simpa using refused (not_le.mp deep) [])

/-- Thirty-three lists are too many, with whatever behind them. -/
theorem depth_guard_lists : DepthExceeded (Utf8.encode (List.replicate 33 '[') ++ [0xff, 0x5d]) := by
  have opened : (List.replicate 33 '[').map Char.toNat = List.replicate 33 91 ++ [] := by
    rw [List.map_replicate, List.append_nil]
    rfl
  have deep := nesting_brackets noFloats WireFault.malformed dictOfPairs 33 []
  refine (depth_guard noFloats WireFault.malformed dictOfPairs (List.replicate 33 '[')).1 ?_ _
  rw [opened, jsonDepth]
  omega

end Constructicon.PiDecoder
