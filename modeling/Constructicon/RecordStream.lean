import Constructicon.Library.Lines
import Mathlib.Tactic

/-!
# The framing of native records

`RecordStream` cuts what it reads into lines and refuses a line that reaches the ceiling before its
newline: its bytes are dropped a ceiling at a time, and what is left of the line is read as a record.
A reader that asks `next_read` how much it may read never has more than a ceiling pending, so where the
bytes are dropped depends on the stream alone.
-/

namespace Constructicon

namespace RecordStream

/-- `READ_WINDOW` -/
def readWindow : ℕ := 8192

/-- `RECORD_BYTES` -/
def recordBytes : ℕ := 256 * 1024

/-- `b"\n"` -/
def lineEnd : UInt8 := 10

/-- `split_records`: the complete lines, and what stays in the buffer. -/
def splitRecords (buffer : List UInt8) : List (List UInt8) × List UInt8 :=
  match found : buffer.idxOf? lineEnd with
  | none => ([], buffer)
  | some index =>
    let rest := splitRecords (buffer.drop (index + 1))
    (buffer.take index :: rest.1, rest.2)
termination_by buffer.length
decreasing_by
  cases buffer with
  | nil => cases found
  | cons x rest =>
    rw [List.length_drop]
    exact Nat.sub_lt (Nat.succ_pos _) (Nat.succ_pos _)

/-- `RecordStream` -/
structure Stream where
  pending : List UInt8
  damage : Option String
deriving DecidableEq

/-- `RecordStream()` -/
def fresh : Stream := ⟨[], none⟩

def endedInside : String := "the native stream ended inside a record"

def exceedsCeiling : String := "a native protocol record exceeds its ceiling"

/-- `next_read`, or the contract violation. -/
def Stream.nextRead (s : Stream) : Except String ℕ :=
  if (recordBytes : ℤ) - s.pending.length < 1 then .error "a clamped read argument must stay within 1..8192"
  else .ok (min readWindow (recordBytes - s.pending.length))

/-- `feed`: the stream after a chunk, and the records it completes. Empty bytes are EOF. -/
def Stream.feed (s : Stream) (chunk : List UInt8) : Stream × List (List UInt8) :=
  if chunk = [] then
    if s.pending = [] then (s, []) else (⟨[], s.damage.or (some endedInside)⟩, [])
  else
    let split := splitRecords (s.pending ++ chunk)
    if recordBytes ≤ split.2.length then (⟨[], s.damage.or (some exceedsCeiling)⟩, split.1)
    else (⟨split.2, s.damage⟩, split.1)

def feeds (s : Stream) (chunks : List (List UInt8)) : Stream × List (List UInt8) :=
  chunks.foldl (fun r chunk => ((r.1.feed chunk).1, r.2 ++ (r.1.feed chunk).2)) (s, [])

/-- Every chunk is a read of what the stream asked for: not empty, and no longer. -/
def Respects : Stream → List (List UInt8) → Prop
  | _, [] => True
  | s, chunk :: chunks =>
    chunk ≠ [] ∧ (∃ n, s.nextRead = .ok n ∧ chunk.length ≤ n) ∧ Respects (s.feed chunk).1 chunks

/-! ## The stream as a whole -/

open Lines

theorem splitRecords_eq (buffer : List UInt8) : splitRecords buffer = cut lineEnd buffer := by
  induction buffer using Lines.induct lineEnd with
  | tail t plain =>
    have none : t.idxOf? lineEnd = none := List.idxOf?_eq_none_iff.mpr plain
    rw [splitRecords, cut_tail plain]
    split
    · rfl
    · rename_i index found
      rw [none] at found
      cases found
  | line l xs plain ih =>
    have here : (l ++ lineEnd :: xs).idxOf? lineEnd = some l.length := idxOf?_line plain xs
    rw [splitRecords, cut_line plain]
    split
    · rename_i found
      rw [here] at found
      cases found
    · rename_i index found
      cases here.symm.trans found
      have later : (l ++ lineEnd :: xs).drop (l.length + 1) = xs := by simp
      rw [later, ih]
      simp

/-- What is read of a line as a record: the rest after every full ceiling. -/
def leftover (line : List UInt8) : List UInt8 := line.drop (recordBytes * (line.length / recordBytes))

theorem recordBytes_pos : 0 < recordBytes := by decide

theorem length_leftover (line : List UInt8) : (leftover line).length = line.length % recordBytes := by
  rw [leftover, List.length_drop]
  exact Nat.mod_eq_sub_mul_div.symm

theorem leftover_short {line : List UInt8} (short : line.length < recordBytes) : leftover line = line := by
  rw [leftover, Nat.div_eq_of_lt short, Nat.mul_zero, List.drop_zero]

theorem map_leftover {lines : List (List UInt8)} (short : ∀ line ∈ lines, line.length < recordBytes) :
    lines.map leftover = lines := by
  rw [List.map_congr_left fun line mem => leftover_short (short line mem), List.map_id']

theorem length_parts (line : List UInt8) :
    recordBytes * (line.length / recordBytes) + (leftover line).length = line.length := by
  rw [length_leftover]
  exact Nat.div_add_mod line.length recordBytes

theorem leftover_append {line more : List UInt8} (short : (leftover line).length + more.length < recordBytes) :
    leftover (line ++ more) = leftover line ++ more := by
  have parts := length_parts line
  have blocks : (line ++ more).length / recordBytes = line.length / recordBytes := by
    apply Nat.div_eq_of_lt_le
    · rw [List.length_append, Nat.mul_comm]
      omega
    · rw [List.length_append, Nat.add_mul, Nat.one_mul, Nat.mul_comm]
      omega
  rw [leftover, blocks, leftover, List.drop_append_of_le_length]
  omega

theorem leftover_full {line more : List UInt8} (full : (leftover line).length + more.length = recordBytes) :
    leftover (line ++ more) = [] := by
  have parts := length_parts line
  rw [← List.length_eq_zero_iff, length_leftover, List.length_append]
  have whole : line.length + more.length = recordBytes * (line.length / recordBytes + 1) := by
    rw [Nat.mul_add, Nat.mul_one]
    omega
  rw [whole, Nat.mul_mod_right]

def Overlong (r : List (List UInt8) × List UInt8) : Prop :=
  (∃ line ∈ r.1, recordBytes ≤ line.length) ∨ recordBytes ≤ r.2.length

instance (r : List (List UInt8) × List UInt8) : Decidable (Overlong r) := inferInstanceAs (Decidable (_ ∨ _))

theorem cut_pending {t chunk : List UInt8} (plain : lineEnd ∉ t)
    (room : (leftover t).length + chunk.length ≤ recordBytes) :
    (cut lineEnd (t ++ chunk)).1.map leftover = (cut lineEnd (leftover t ++ chunk)).1 ∧
      (leftover (cut lineEnd (t ++ chunk)).2 =
        if recordBytes ≤ (cut lineEnd (leftover t ++ chunk)).2.length then []
        else (cut lineEnd (leftover t ++ chunk)).2) ∧
      (Overlong (cut lineEnd (t ++ chunk)) ↔
        recordBytes ≤ t.length ∨ recordBytes ≤ (cut lineEnd (leftover t ++ chunk)).2.length) := by
  have plain' : lineEnd ∉ leftover t := fun mem => plain (List.mem_of_mem_drop mem)
  have parts := length_parts t
  have blocks : recordBytes ≤ t.length ∨ t.length / recordBytes = 0 :=
    (Nat.lt_or_ge t.length recordBytes).symm.imp_right Nat.div_eq_of_lt
  induction chunk using Lines.induct lineEnd with
  | tail c none =>
    have whole : lineEnd ∉ t ++ c := by simp [plain, none]
    have pending : lineEnd ∉ leftover t ++ c := by simp [plain', none]
    rw [cut_tail whole, cut_tail pending]
    refine ⟨rfl, ?_, ?_⟩
    · dsimp only
      split_ifs with full
      · rw [List.length_append] at full
        exact leftover_full (by omega)
      · rw [List.length_append] at full
        exact leftover_append (by omega)
    · simp only [Overlong, List.not_mem_nil, false_and, exists_false, false_or, List.length_append]
      constructor
      · intro long
        rcases blocks with already | none
        · exact .inl already
        · rw [none] at parts
          exact .inr (by omega)
      · rintro (already | full) <;> omega
  | line l xs none _ =>
    have whole : lineEnd ∉ t ++ l := by simp [plain, none]
    have pending : lineEnd ∉ leftover t ++ l := by simp [plain', none]
    rw [List.length_append, List.length_cons] at room
    obtain ⟨lines, tail⟩ := length_cut_le lineEnd xs
    rw [← List.append_assoc, cut_line whole, ← List.append_assoc, cut_line pending]
    have here : leftover (t ++ l) = leftover t ++ l := leftover_append (by omega)
    have short : ∀ line ∈ (cut lineEnd xs).1, line.length < recordBytes := fun line mem => by
      have below := lines line mem
      omega
    have rest : ¬recordBytes ≤ (cut lineEnd xs).2.length := by omega
    refine ⟨?_, ?_, ?_⟩
    · rw [List.map_cons, here]
      rw [map_leftover short]
    · dsimp only
      rw [if_neg rest, leftover_short (by omega)]
    · simp only [Overlong, List.exists_mem_cons_iff, List.length_append, rest, or_false]
      constructor
      · rintro (long | ⟨line, mem, long⟩)
        · rcases blocks with already | none
          · exact already
          · rw [none] at parts
            omega
        · have below := short line mem
          omega
      · exact fun long => .inl (by omega)

/-- What the stream holds after some bytes, and the records it has read of them. -/
def framed (xs : List UInt8) : Stream × List (List UInt8) :=
  (⟨leftover (cut lineEnd xs).2, if Overlong (cut lineEnd xs) then some exceedsCeiling else none⟩,
    (cut lineEnd xs).1.map leftover)

theorem feed_framed (xs : List UInt8) {chunk : List UInt8} (some_bytes : chunk ≠ [])
    (room : (framed xs).1.pending.length + chunk.length ≤ recordBytes) :
    ((framed xs).1.feed chunk).1 = (framed (xs ++ chunk)).1 ∧
      (framed xs).2 ++ ((framed xs).1.feed chunk).2 = (framed (xs ++ chunk)).2 := by
  obtain ⟨records, pending, overlong⟩ := cut_pending (cut_plain xs).2 room
  unfold Stream.feed
  rw [if_neg some_bytes, splitRecords_eq]
  unfold framed at room ⊢
  dsimp only at room ⊢
  rw [cut_append xs chunk]
  dsimp only
  rw [pending, List.map_append, records]
  have verdict : Overlong ((cut lineEnd xs).1 ++ (cut lineEnd ((cut lineEnd xs).2 ++ chunk)).1,
      (cut lineEnd ((cut lineEnd xs).2 ++ chunk)).2) ↔ Overlong (cut lineEnd xs) ∨
        recordBytes ≤ (cut lineEnd (leftover (cut lineEnd xs).2 ++ chunk)).2.length := by
    have later := overlong
    unfold Overlong at later ⊢
    simp only [List.mem_append, or_and_right, exists_or]
    rw [or_assoc, later, or_assoc]
  by_cases long : Overlong (cut lineEnd xs)
  · have both := verdict.mpr (.inl long)
    split_ifs <;> exact ⟨rfl, rfl⟩
  · by_cases full : recordBytes ≤ (cut lineEnd (leftover (cut lineEnd xs).2 ++ chunk)).2.length
    · rw [if_pos full, if_pos full, if_neg long, if_pos (verdict.mpr (.inr full))]
      exact ⟨rfl, rfl⟩
    · have neither := fun both => (verdict.mp both).elim long full
      rw [if_neg full, if_neg full, if_neg long, if_neg neither]
      exact ⟨rfl, rfl⟩


/-! ## Runs -/

theorem nextRead_ok {s : Stream} (bounded : s.pending.length < recordBytes) :
    s.nextRead = .ok (min readWindow (recordBytes - s.pending.length)) := by
  have remaining : ¬((recordBytes : ℤ) - s.pending.length < 1) := by omega
  rw [Stream.nextRead, if_neg remaining]

theorem feed_bounded {s : Stream} (bounded : s.pending.length < recordBytes) (chunk : List UInt8) :
    (s.feed chunk).1.pending.length < recordBytes := by
  unfold Stream.feed
  dsimp only
  split_ifs with eof empty full
  · exact bounded
  · exact recordBytes_pos
  · exact recordBytes_pos
  · exact Nat.lt_of_not_le full

theorem feeds_bounded (chunks : List (List UInt8)) {r : Stream × List (List UInt8)}
    (bounded : r.1.pending.length < recordBytes) :
    (chunks.foldl (fun r chunk => ((r.1.feed chunk).1, r.2 ++ (r.1.feed chunk).2)) r).1.pending.length <
      recordBytes := by
  induction chunks generalizing r with
  | nil => exact bounded
  | cons chunk chunks ih => exact ih (feed_bounded bounded chunk)

theorem feeds_framed (chunks : List (List UInt8)) (xs : List UInt8) (respects : Respects (framed xs).1 chunks) :
    chunks.foldl (fun r chunk => ((r.1.feed chunk).1, r.2 ++ (r.1.feed chunk).2)) (framed xs) =
      framed (xs ++ chunks.flatten) := by
  induction chunks generalizing xs with
  | nil => simp
  | cons chunk chunks ih =>
    obtain ⟨some_bytes, ⟨n, asked, fits⟩, respects⟩ := respects
    have bounded : (framed xs).1.pending.length < recordBytes := by
      rw [framed, length_leftover]
      exact Nat.mod_lt _ recordBytes_pos
    rw [nextRead_ok bounded] at asked
    cases asked
    obtain ⟨stream, records⟩ := feed_framed xs some_bytes (by omega)
    rw [stream] at respects
    rw [List.foldl_cons, stream, records, List.flatten_cons, ← List.append_assoc]
    exact ih (xs ++ chunk) respects

theorem feeds_eq (chunks : List (List UInt8)) (respects : Respects fresh chunks) :
    feeds fresh chunks = framed chunks.flatten := by
  have start : (fresh, []) = framed [] := by simp [framed, leftover, Overlong, fresh, recordBytes]
  rw [feeds, start]
  exact feeds_framed chunks [] (by rwa [← start])

def verdict (stream : List UInt8) : Option String :=
  if Overlong (cut lineEnd stream) then some exceedsCeiling
  else if (cut lineEnd stream).2 ≠ [] then some endedInside
  else none

theorem verdict_ne_none (stream : List UInt8) : verdict stream ≠ none ↔
    (∃ line ∈ (cut lineEnd stream).1, recordBytes ≤ line.length) ∨ (cut lineEnd stream).2 ≠ [] := by
  unfold verdict
  split_ifs with long tail
  · refine iff_of_true (by simp) (long.imp_right fun full empty => ?_)
    rw [empty] at full
    exact absurd full (by decide)
  · exact iff_of_true (by simp) (.inr tail)
  · exact iff_of_false (by simp) fun found => found.elim (fun line => long (.inl line)) tail

theorem feeds_eof (chunks : List (List UInt8)) (respects : Respects fresh chunks) :
    feeds fresh (chunks ++ [[]]) = (⟨[], verdict chunks.flatten⟩, (cut lineEnd chunks.flatten).1.map leftover) := by
  have read := feeds_eq chunks respects
  unfold feeds at read ⊢
  rw [List.foldl_append, read]
  generalize chunks.flatten = stream
  unfold framed verdict Stream.feed
  by_cases long : Overlong (cut lineEnd stream)
  · by_cases empty : leftover (cut lineEnd stream).2 = [] <;> simp [long, empty]
  · have short : (cut lineEnd stream).2.length < recordBytes := by
      rw [Overlong, not_or] at long
      omega
    rw [leftover_short short]
    by_cases empty : (cut lineEnd stream).2 = [] <;> simp [long, empty]

/-- The framing of a stream does not depend on how it is read, as long as every read respects `next_read`;
without damage the records are the stream; up to the first overlong record they are its lines; the damage is
that of an overlong record or of a stream that ended inside one; and `next_read` never refuses. -/
theorem framing_exact :
    (∀ chunks chunks' : List (List UInt8), Respects fresh chunks → Respects fresh chunks' →
      chunks.flatten = chunks'.flatten →
        feeds fresh chunks = feeds fresh chunks' ∧ feeds fresh (chunks ++ [[]]) = feeds fresh (chunks' ++ [[]])) ∧
    (∀ chunks : List (List UInt8), Respects fresh chunks →
      ((feeds fresh (chunks ++ [[]])).1.damage = none →
        join lineEnd (feeds fresh (chunks ++ [[]])).2 [] = chunks.flatten) ∧
      (∀ before later, chunks.flatten = join lineEnd before later →
        (∀ line ∈ before, lineEnd ∉ line ∧ line.length < recordBytes) →
          (feeds fresh (chunks ++ [[]])).2.take before.length = before) ∧
      (feeds fresh (chunks ++ [[]])).2 = (cut lineEnd chunks.flatten).1.map leftover ∧
      ((feeds fresh (chunks ++ [[]])).1.damage ≠ none ↔
        (∃ line ∈ (cut lineEnd chunks.flatten).1, recordBytes ≤ line.length) ∨ (cut lineEnd chunks.flatten).2 ≠ []) ∧
      (feeds fresh (chunks ++ [[]])).1.damage = verdict chunks.flatten) ∧
    ∀ chunks : List (List UInt8), ∃ n, (feeds fresh chunks).1.nextRead = .ok n ∧ 1 ≤ n ∧ n ≤ readWindow := by
  refine ⟨?_, ?_, ?_⟩
  · intro chunks chunks' respects respects' same
    rw [feeds_eq chunks respects, feeds_eq chunks' respects', feeds_eof chunks respects, feeds_eof chunks' respects', same]
    exact ⟨rfl, rfl⟩
  · intro chunks respects
    rw [feeds_eof chunks respects]
    generalize chunks.flatten = stream
    have damaged := verdict_ne_none stream
    refine ⟨fun clean => ?_, fun before later same short => ?_, rfl, damaged, rfl⟩
    · -- every line is short and none is left
      have fine := fun found => damaged.mpr found clean
      rw [imp_false, not_or, not_not] at fine
      have whole : (cut lineEnd stream).1.map leftover = (cut lineEnd stream).1 := map_leftover fun line mem => by
        by_contra long
        exact fine.1 ⟨line, mem, Nat.le_of_not_lt long⟩
      have joined := join_cut lineEnd stream
      rw [fine.2] at joined
      rw [whole]
      exact joined
    · rw [same, cut_join fun line mem => (short line mem).1, List.map_append,
        map_leftover fun line mem => (short line mem).2]
      exact List.take_left
  · intro chunks
    have bounded := feeds_bounded chunks (r := (fresh, [])) recordBytes_pos
    have asked := nextRead_ok bounded
    refine ⟨_, asked, ?_, Nat.min_le_left _ _⟩
    rw [Nat.le_min]
    exact ⟨by decide, by omega⟩

end RecordStream

end Constructicon
