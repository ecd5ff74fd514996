import Constructicon.Library.Lines
import Mathlib.Tactic

/-!
# The stream of a Pi peer

The decoder is fed whatever the transport brings: it keeps the unfinished record, bounds every record,
their count and the whole stream, and hands each record to `observe`. Where a chunk ends shows only in
which of several damages is found first, and damage is never undone.

What `observe` makes of a record is a parameter: any function of what it reads.
-/

namespace Constructicon

namespace PiDecoder

/-- `RECORD_BYTES` -/
def recordBytes : ℕ := 65536

/-- `STDOUT_BYTES` -/
def stdoutBytes : ℕ := 1048576

/-- `RECORD_COUNT` -/
def recordCount : ℕ := 128

/-- `JSON_DEPTH` -/
def jsonDepth : ℤ := 32

/-- `b"\n"` -/
def lineEnd : UInt8 := 10

/-! ## Records -/

/-- The scan of `parse_record`: the depth, and whether it is in a string and after a backslash. -/
structure Scan where
  depth : ℤ
  quoted : Bool
  escaped : Bool

/-- One byte of the scan; `none` when the depth is exceeded. -/
def Scan.byte (s : Scan) (byte : UInt8) : Option Scan :=
  if s.quoted then
    if s.escaped then some { s with escaped := false }
    else if byte = 92 then some { s with escaped := true }
    else if byte = 34 then some { s with quoted := false }
    else some s
  else if byte = 34 then some { s with quoted := true }
  else if byte = 91 ∨ byte = 123 then
    if jsonDepth < s.depth + 1 then none else some { s with depth := s.depth + 1 }
  else if byte = 93 ∨ byte = 125 then some { s with depth := s.depth - 1 }
  else some s

/-- What `observe` reads and writes of the decoder besides its generation: the response it expects, whether the
peer refused, and the conversation `φ`. -/
structure Seen (φ : Type) where
  expected : Option (String × String × ℕ)
  refused : Bool
  conversation : φ

/-- How `observe` ends: with its return, after it has recorded some damage or none, or with an exception. -/
inductive Observed where
  | done (damage : Option String)
  | unexpectedUserMessage
  /-- `ValueError`, `TypeError`, `KeyError`, `AttributeError`, `RecursionError` -/
  | malformed

/-- The parts of the decoder behind its framing: the JSON objects that bytes decode to, what `observe` makes of
one, and the excerpt that is kept of damaged bytes. -/
structure Reader (φ ν : Type) where
  parseObject : List UInt8 → Option ν
  observe : ℕ → Seen φ → ν → ℕ → Seen φ × Observed
  excerpt : List UInt8 → String

variable {φ ν : Type} (reader : Reader φ ν)

/-- `parse_record`; `none` for a `ValueError`. -/
def parseRecord (raw : List UInt8) : Option ν :=
  match raw.foldlM Scan.byte ⟨0, false, false⟩ with
  | none => none
  | some _ => reader.parseObject raw

/-! ## The decoder -/

/-- `PiDecoder` -/
structure Decoder (φ : Type) where
  buffer : List UInt8
  total : ℕ
  count : ℕ
  generation : ℕ
  frameGeneration : ℕ
  eof : Bool
  seen : Seen φ
  damageCount : ℕ
  error : Option String
  evidence : Option String

/-- `PiDecoder(instruction)` -/
def Decoder.fresh (conversation : φ) : Decoder φ :=
  ⟨[], 0, 0, 0, 0, false, ⟨none, false, conversation⟩, 0, none, none⟩

/-- `damage`: the first detail stands, with its excerpt. -/
def Decoder.damage (d : Decoder φ) (detail : String) (raw : List UInt8) : Decoder φ :=
  { d with
    damageCount := min (recordCount + 1) (d.damageCount + 1)
    error := d.error.or (some detail)
    evidence := if d.error = none then some (reader.excerpt (raw.take 1024)) else d.evidence }

/-- `request` -/
def Decoder.request (d : Decoder φ) (command identifier : String) : Decoder φ :=
  let crossed := d.seen.expected.isSome ∨ d.buffer ≠ [] ∨ d.eof = true
  let d := if crossed then d.damage reader "request crossed buffered or closed input" [] else d
  { d with
    generation := d.generation + 1
    seen := { d.seen with expected := some (command, identifier, d.generation + 1) } }

/-- `observe`: nothing after damage or refusal. -/
def Decoder.observe (d : Decoder φ) (record : ν) : Decoder φ × Observed :=
  if d.damageCount ≠ 0 ∨ d.seen.refused = true then (d, .done none)
  else
    let observed := reader.observe d.generation d.seen record d.frameGeneration
    ({ d with seen := observed.1 }, observed.2)

/-- A complete record, with the exceptions that `feed` turns into damage. -/
def Decoder.record (d : Decoder φ) (raw : List UInt8) : Decoder φ :=
  match parseRecord reader raw with
  | none => d.damage reader "malformed or incoherent Pi record" raw
  | some record =>
    let observed := d.observe reader record
    match observed.2 with
    | .done none => observed.1
    | .done (some detail) => observed.1.damage reader detail []
    | .unexpectedUserMessage => observed.1.damage reader "unexpected user message" raw
    | .malformed => observed.1.damage reader "malformed or incoherent Pi record" raw

/-- The first line of `while chunk`. -/
def Decoder.begin (d : Decoder φ) : Decoder φ :=
  if d.buffer = [] then { d with frameGeneration := d.generation } else d

def Decoder.overflow (d : Decoder φ) : Decoder φ :=
  { d.damage reader "record byte limit exceeded" [] with buffer := [] }

/-- `while chunk` -/
def Decoder.lines (d : Decoder φ) (chunk : List UInt8) : Decoder φ :=
  if chunk = [] then d
  else
    let d := d.begin
    match chunk.idxOf? lineEnd with
    | none =>
      if recordBytes < d.buffer.length + chunk.length then d.overflow reader
      else { d with buffer := d.buffer ++ chunk }
    | some newline =>
      if recordBytes < d.buffer.length + (newline + 1) then d.overflow reader
      else
        let raw := d.buffer ++ chunk.take (newline + 1)
        let d := { d with buffer := [], count := d.count + 1 }
        if recordCount < d.count then d.damage reader "record count exceeded" []
        else (d.record reader raw).lines (chunk.drop (newline + 1))
termination_by chunk.length
decreasing_by
  cases chunk with
  | nil => contradiction
  | cons x rest =>
    rw [List.length_drop]
    exact Nat.sub_lt (Nat.succ_pos _) (Nat.succ_pos _)

/-- `feed` -/
def Decoder.feed (d : Decoder φ) (chunk : List UInt8) : Decoder φ :=
  let d := { d with total := d.total + chunk.length }
  if stdoutBytes < d.total then d.damage reader "stdout byte limit exceeded" []
  else d.lines reader chunk

/-- `finish` -/
def Decoder.finish (d : Decoder φ) : Decoder φ :=
  let d := { d with eof := true }
  if d.buffer ≠ [] then { d.damage reader "unterminated record" d.buffer with buffer := [] } else d

/-- `feed`, chunk by chunk. -/
def Decoder.feeds (d : Decoder φ) (chunks : List (List UInt8)) : Decoder φ := chunks.foldl (Decoder.feed reader) d

/-- What a peer sends before each request, in chunks, and the requests; then what it sends to the end. -/
structure Exchange where
  before : List (List (List UInt8) × String × String)
  last : List (List UInt8)

def Decoder.exchange (d : Decoder φ) (before : List (List (List UInt8) × String × String)) : Decoder φ :=
  before.foldl (fun d part => (d.feeds reader part.1).request reader part.2.1 part.2.2) d

def decode (conversation : φ) (x : Exchange) : Decoder φ :=
  (((Decoder.fresh conversation).exchange reader x.before).feeds reader x.last).finish reader

/-! ## Damage stays -/

section

variable {reader} {d d' : Decoder φ}

def Decoder.Damaged (d : Decoder φ) : Prop := d.damageCount ≠ 0

theorem damaged_damage (d : Decoder φ) (detail : String) (raw : List UInt8) : (d.damage reader detail raw).Damaged := by
  change min (recordCount + 1) (d.damageCount + 1) ≠ 0
  unfold recordCount
  omega

theorem damaged_overflow (d : Decoder φ) : (d.overflow reader).Damaged :=
  @damaged_damage _ _ reader d "record byte limit exceeded" []

theorem Decoder.Damaged.observe (h : d.Damaged) (record : ν) : (d.observe reader record).1 = d := by
  rw [Decoder.observe, if_pos (.inl h)]

theorem Decoder.Damaged.record (h : d.Damaged) (raw : List UInt8) : (d.record reader raw).Damaged := by
  unfold Decoder.record
  cases parseRecord reader raw with
  | none => exact damaged_damage d _ raw
  | some record =>
    dsimp only
    split
    · rw [h.observe]
      exact h
    · exact damaged_damage _ _ _
    · exact damaged_damage _ _ _
    · exact damaged_damage _ _ _

theorem Decoder.Damaged.begin (h : d.Damaged) : d.begin.Damaged := by
  unfold Decoder.begin
  split_ifs
  · exact h
  · exact h

theorem buffer_begin (d : Decoder φ) : d.begin.buffer = d.buffer := by
  unfold Decoder.begin
  split_ifs <;> rfl

theorem lines_nil (d : Decoder φ) : d.lines reader [] = d := by
  rw [Decoder.lines]
  rfl

theorem lines_open (d : Decoder φ) {c : List UInt8} (some_bytes : c ≠ []) (plain : lineEnd ∉ c) :
    d.lines reader c = if recordBytes < d.buffer.length + c.length then
        d.begin.overflow reader
      else { d.begin with buffer := d.buffer ++ c } := by
  have none : c.idxOf? lineEnd = none := List.idxOf?_eq_none_iff.mpr plain
  rw [Decoder.lines, if_neg some_bytes, none]
  dsimp only
  rw [buffer_begin]

theorem lines_record (d : Decoder φ) {l : List UInt8} (plain : lineEnd ∉ l) (xs : List UInt8) :
    d.lines reader (l ++ lineEnd :: xs) = if recordBytes < d.buffer.length + (l.length + 1) then
        d.begin.overflow reader
      else if recordCount < d.begin.count + 1 then
        { d.begin with buffer := [], count := d.begin.count + 1 }.damage reader "record count exceeded" []
      else ({ d.begin with buffer := [], count := d.begin.count + 1 }.record reader
        (d.buffer ++ (l ++ [lineEnd]))).lines reader xs := by
  have here : (l ++ lineEnd :: xs).idxOf? lineEnd = some l.length := Lines.idxOf?_line plain xs
  have taken : (l ++ lineEnd :: xs).take (l.length + 1) = l ++ [lineEnd] := by simp [List.take_append]
  have rest : (l ++ lineEnd :: xs).drop (l.length + 1) = xs := by simp
  rw [Decoder.lines, if_neg (by simp), here]
  dsimp only
  rw [buffer_begin, taken, rest]

theorem Decoder.Damaged.lines (h : d.Damaged) (c : List UInt8) : (d.lines reader c).Damaged := by
  induction c using Lines.induct lineEnd generalizing d with
  | tail t plain =>
    by_cases empty : t = []
    · rw [empty, lines_nil]
      exact h
    · rw [lines_open d empty plain]
      split_ifs
      · exact damaged_overflow _
      · exact h.begin
  | line l xs plain ih =>
    rw [lines_record d plain]
    split_ifs
    · exact damaged_overflow _
    · exact damaged_damage _ _ _
    · exact ih (Decoder.Damaged.record (show Decoder.Damaged { d.begin with buffer := [], count := _ } from h.begin) _)

/-! ## Two ways to feed the same bytes -/

def Alike (d d' : Decoder φ) : Prop := (d.Damaged ∧ d'.Damaged) ∨ d = d'

theorem lines_long (d : Decoder φ) {t : List UInt8} (some_bytes : t ≠ []) (plain : lineEnd ∉ t) (b : List UInt8)
    (long : recordBytes < d.buffer.length + t.length) : (d.lines reader (t ++ b)).Damaged := by
  induction b using Lines.induct lineEnd with
  | tail c none =>
    have whole : lineEnd ∉ t ++ c := by simp [plain, none]
    rw [lines_open d (by simp [some_bytes]) whole, if_pos (by rw [List.length_append]; omega)]
    exact damaged_overflow _
  | line l xs none _ =>
    have whole : lineEnd ∉ t ++ l := by simp [plain, none]
    rw [← List.append_assoc, lines_record d whole, if_pos (by rw [List.length_append]; omega)]
    exact damaged_overflow _

theorem lines_append (d : Decoder φ) (a b : List UInt8) :
    Alike (d.lines reader (a ++ b)) ((d.lines reader a).lines reader b) := by
  induction a using Lines.induct lineEnd generalizing d with
  | tail t plain =>
    by_cases empty : t = []
    · subst empty
      rw [lines_nil]
      exact .inr rfl
    rw [lines_open d empty plain]
    split_ifs with long
    · exact .inl ⟨lines_long d empty plain b long, Decoder.Damaged.lines (damaged_overflow _) b⟩
    · -- the record goes on: its first chunk has begun it
      have begun : ({ d.begin with buffer := d.buffer ++ t } : Decoder φ).begin =
          { d.begin with buffer := d.buffer ++ t } := if_neg (by simp [empty])
      induction b using Lines.induct lineEnd with
      | tail c none =>
        have whole : lineEnd ∉ t ++ c := by simp [plain, none]
        rw [lines_open d (by simp [empty]) whole]
        by_cases nothing : c = []
        · subst nothing
          rw [lines_nil, List.append_nil, if_neg long]
          exact .inr rfl
        · rw [lines_open _ nothing none, begun]
          simp only [List.length_append, ← Nat.add_assoc, ← List.append_assoc]
          split_ifs
          · exact .inl ⟨damaged_overflow _, damaged_overflow _⟩
          · exact .inr rfl
      | line l xs none _ =>
        have whole : lineEnd ∉ t ++ l := by simp [plain, none]
        rw [← List.append_assoc, lines_record d whole, lines_record _ none, begun]
        simp only [List.length_append, ← Nat.add_assoc, ← List.append_assoc]
        split_ifs
        · exact .inl ⟨damaged_overflow _, damaged_overflow _⟩
        · exact .inr rfl
        · exact .inr rfl
  | line l xs plain ih =>
    rw [List.append_assoc, List.cons_append, lines_record d plain, lines_record d plain]
    split_ifs
    · exact .inl ⟨damaged_overflow _, Decoder.Damaged.lines (damaged_overflow _) b⟩
    · exact .inl ⟨damaged_damage _ _ _, Decoder.Damaged.lines (damaged_damage _ _ _) b⟩
    · exact ih _

/-! ## The size of the stream -/

def Decoder.setTotal (d : Decoder φ) (n : ℕ) : Decoder φ := { d with total := n }

theorem buffer_setTotal (d : Decoder φ) (n : ℕ) : (d.setTotal n).buffer = d.buffer := rfl

theorem count_setTotal (d : Decoder φ) (n : ℕ) : (d.setTotal n).count = d.count := rfl

theorem begin_setTotal (d : Decoder φ) (n : ℕ) : (d.setTotal n).begin = d.begin.setTotal n := by
  unfold Decoder.begin
  rw [buffer_setTotal]
  split_ifs <;> rfl

theorem record_setTotal (d : Decoder φ) (n : ℕ) (raw : List UInt8) :
    (d.setTotal n).record reader raw = (d.record reader raw).setTotal n := by
  have observed : ∀ record, (d.setTotal n).observe reader record =
      ((d.observe reader record).1.setTotal n, (d.observe reader record).2) := by
    intro record
    unfold Decoder.observe
    split_ifs with silent silent' silent'
    · rfl
    · exact absurd silent silent'
    · exact absurd silent' silent
    · rfl
  unfold Decoder.record
  cases parseRecord reader raw with
  | none => rfl
  | some record =>
    dsimp only
    rw [observed]
    cases (d.observe reader record).2 with
    | done damage => cases damage <;> rfl
    | unexpectedUserMessage => rfl
    | malformed => rfl

theorem lines_setTotal (d : Decoder φ) (n : ℕ) (c : List UInt8) :
    (d.setTotal n).lines reader c = (d.lines reader c).setTotal n := by
  induction c using Lines.induct lineEnd generalizing d with
  | tail t plain =>
    by_cases empty : t = []
    · rw [empty, lines_nil, lines_nil]
    · rw [lines_open _ empty plain, lines_open _ empty plain, begin_setTotal, buffer_setTotal]
      split_ifs <;> rfl
  | line l xs plain ih =>
    rw [lines_record _ plain, lines_record _ plain, begin_setTotal, buffer_setTotal, count_setTotal]
    split_ifs
    · rfl
    · rfl
    · rw [← ih, ← record_setTotal]
      rfl

theorem total_lines (d : Decoder φ) (c : List UInt8) : (d.lines reader c).total = d.total := by
  have same := @lines_setTotal _ _ reader d d.total c
  have kept : d.setTotal d.total = d := rfl
  rw [kept] at same
  rw [same]
  rfl

theorem feed_large (d : Decoder φ) {c : List UInt8} (large : stdoutBytes < d.total + c.length) :
    (d.feed reader c).Damaged := by
  have refused : d.feed reader c = (d.setTotal (d.total + c.length)).damage reader "stdout byte limit exceeded" [] :=
    if_pos large
  rw [refused]
  exact damaged_damage _ _ _

theorem feed_fits (d : Decoder φ) {c : List UInt8} (fits : ¬stdoutBytes < d.total + c.length) :
    d.feed reader c = (d.setTotal (d.total + c.length)).lines reader c := if_neg fits

theorem Decoder.Damaged.feed (h : d.Damaged) (c : List UInt8) : (d.feed reader c).Damaged := by
  by_cases large : stdoutBytes < d.total + c.length
  · exact feed_large d large
  · rw [feed_fits d large]
    have kept : (d.setTotal (d.total + c.length)).Damaged := h
    exact kept.lines c

theorem feed_append (d : Decoder φ) (a b : List UInt8) :
    Alike (d.feed reader (a ++ b)) ((d.feed reader a).feed reader b) := by
  by_cases first : stdoutBytes < d.total + a.length
  · refine .inl ⟨feed_large d ?_, (feed_large d first).feed b⟩
    rw [List.length_append]
    omega
  · rw [feed_fits d first]
    have total := @total_lines _ _ reader (d.setTotal (d.total + a.length)) a
    change _ = d.total + a.length at total
    by_cases second : stdoutBytes < d.total + a.length + b.length
    · refine .inl ⟨feed_large d ?_, feed_large _ ?_⟩
      · rw [List.length_append]
        omega
      · rw [total]
        exact second
    · rw [feed_fits d (by rw [List.length_append]; omega), feed_fits _ (by rw [total]; exact second), total,
        ← lines_setTotal]
      have sum : d.total + (a ++ b).length = d.total + a.length + b.length := by
        rw [List.length_append]
        omega
      rw [sum]
      exact lines_append _ a b

theorem Alike.trans {d'' : Decoder φ} (h : Alike d d') (h' : Alike d' d'') : Alike d d'' := by
  rcases h with ⟨left, middle⟩ | rfl
  · rcases h' with ⟨-, right⟩ | rfl
    · exact .inl ⟨left, right⟩
    · exact .inl ⟨left, middle⟩
  · exact h'

theorem Alike.symm (h : Alike d d') : Alike d' d := h.imp And.symm Eq.symm

theorem Alike.feed (h : Alike d d') (c : List UInt8) : Alike (d.feed reader c) (d'.feed reader c) := by
  rcases h with ⟨left, right⟩ | rfl
  · exact .inl ⟨left.feed c, right.feed c⟩
  · exact .inr rfl

theorem Decoder.Damaged.request (h : d.Damaged) (command identifier : String) :
    (d.request reader command identifier).Damaged := by
  unfold Decoder.request
  dsimp only
  split_ifs
  · exact @damaged_damage _ _ reader d "request crossed buffered or closed input" []
  · exact h

theorem Alike.request (h : Alike d d') (command identifier : String) :
    Alike (d.request reader command identifier) (d'.request reader command identifier) := by
  rcases h with ⟨left, right⟩ | rfl
  · exact .inl ⟨left.request command identifier, right.request command identifier⟩
  · exact .inr rfl

theorem Decoder.Damaged.finish (h : d.Damaged) : (d.finish reader).Damaged := by
  unfold Decoder.finish
  dsimp only
  split_ifs
  · exact @damaged_damage _ _ reader { d with eof := true } "unterminated record" d.buffer
  · exact h

theorem Alike.finish (h : Alike d d') : Alike (d.finish reader) (d'.finish reader) := by
  rcases h with ⟨left, right⟩ | rfl
  · exact .inl ⟨left.finish, right.finish⟩
  · exact .inr rfl

/-! ## Runs -/

def Decoder.Sized (d : Decoder φ) : Prop := d.total ≤ stdoutBytes ∨ d.Damaged

theorem Decoder.Sized.feed (c : List UInt8) : (d.feed reader c).Sized := by
  by_cases large : stdoutBytes < d.total + c.length
  · exact .inr (feed_large d large)
  · refine .inl ?_
    rw [feed_fits d large, total_lines]
    exact Nat.le_of_not_lt large

theorem Decoder.Sized.request (h : d.Sized) (command identifier : String) :
    (d.request reader command identifier).Sized := by
  rcases h with fits | damaged
  · refine .inl ?_
    unfold Decoder.request
    dsimp only
    split_ifs
    · exact fits
    · exact fits
  · exact .inr (damaged.request command identifier)

theorem feed_empty (sized : d.Sized) : Alike (d.feed reader []) d := by
  by_cases large : stdoutBytes < d.total + ([] : List UInt8).length
  · refine .inl ⟨feed_large d large, sized.resolve_left ?_⟩
    exact Nat.not_le_of_lt large
  · rw [feed_fits d large, lines_nil]
    exact .inr rfl

theorem feeds_flatten (sized : d.Sized) (chunks : List (List UInt8)) :
    Alike (d.feeds reader chunks) (d.feed reader chunks.flatten) := by
  induction chunks generalizing d with
  | nil => exact (feed_empty sized).symm
  | cons chunk chunks ih =>
    rw [List.flatten_cons]
    exact (ih (Decoder.Sized.feed chunk)).trans (feed_append d chunk chunks.flatten).symm

theorem Decoder.Sized.feeds (sized : d.Sized) (chunks : List (List UInt8)) : (d.feeds reader chunks).Sized := by
  induction chunks generalizing d with
  | nil => exact sized
  | cons chunk chunks ih => exact ih (Decoder.Sized.feed chunk)

theorem Alike.feeds (h : Alike d d') (sized : d.Sized) (sized' : d'.Sized) {chunks chunks' : List (List UInt8)}
    (same : chunks.flatten = chunks'.flatten) : Alike (d.feeds reader chunks) (d'.feeds reader chunks') := by
  have first := @feeds_flatten _ _ reader _ sized chunks
  rw [same] at first
  exact first.trans ((h.feed _).trans (feeds_flatten sized' chunks').symm)

structure SameBytes (x y : Exchange) : Prop where
  before : List.Forall₂ (fun a b => a.1.flatten = b.1.flatten ∧ a.2 = b.2) x.before y.before
  last : x.last.flatten = y.last.flatten

theorem Alike.exchange {before before' : List (List (List UInt8) × String × String)}
    (same : List.Forall₂ (fun a b => a.1.flatten = b.1.flatten ∧ a.2 = b.2) before before')
    (h : Alike d d') (sized : d.Sized) (sized' : d'.Sized) :
    Alike (d.exchange reader before) (d'.exchange reader before') ∧ (d.exchange reader before).Sized ∧
      (d'.exchange reader before').Sized := by
  induction same generalizing d d' with
  | nil => exact ⟨h, sized, sized'⟩
  | @cons a b _ _ part _ ih =>
    obtain ⟨bytes, request⟩ := part
    apply ih
    · dsimp only
      rw [request]
      exact (h.feeds sized sized' bytes).request _ _
    · exact (sized.feeds _).request _ _
    · exact (sized'.feeds _).request _ _

/-- However the bytes between the same requests are cut into chunks: the decoder is damaged or not, and where it
is not it is the same decoder. -/
theorem decode_sameBytes {φ ν : Type} (reader : Reader φ ν) (conversation : φ) (x y : Exchange) (same : SameBytes x y) :
    ((decode reader conversation x).damageCount ≠ 0 ↔ (decode reader conversation y).damageCount ≠ 0) ∧
      ((decode reader conversation x).damageCount = 0 → decode reader conversation x = decode reader conversation y) := by
  have sized : (Decoder.fresh conversation).Sized := .inl (Nat.zero_le _)
  obtain ⟨alike, sized, sized'⟩ := @Alike.exchange _ _ reader _ _ _ _ same.before (.inr rfl) sized sized
  have decoded : Alike (decode reader conversation x) (decode reader conversation y) :=
    (alike.feeds sized sized' same.last).finish
  rcases decoded with ⟨left, right⟩ | equal
  · exact ⟨iff_of_true left right, fun clean => absurd clean left⟩
  · rw [equal]
    exact ⟨Iff.rfl, fun _ => rfl⟩

end

def plainReader : Reader ℕ (List UInt8) where
  parseObject := some
  observe _ seen record _ := ({ seen with conversation := seen.conversation + record.length }, .done none)
  excerpt _ := ""

/-- One record in one chunk and in three, the first of which ends inside a character. -/
theorem decode_split :
    ((decode plainReader 0 ⟨[([], "get_state", "a")], [[123, 34, 195, 169, 34, 125, 10]]⟩).damageCount ≠ 0 ↔
        (decode plainReader 0 ⟨[([], "get_state", "a")], [[123, 34, 195], [169, 34, 125], [10]]⟩).damageCount ≠ 0) ∧
      ((decode plainReader 0 ⟨[([], "get_state", "a")], [[123, 34, 195, 169, 34, 125, 10]]⟩).damageCount = 0 →
        decode plainReader 0 ⟨[([], "get_state", "a")], [[123, 34, 195, 169, 34, 125, 10]]⟩ =
          decode plainReader 0 ⟨[([], "get_state", "a")], [[123, 34, 195], [169, 34, 125], [10]]⟩) :=
  decode_sameBytes plainReader 0 _ _ ⟨.cons ⟨rfl, rfl⟩ .nil, rfl⟩

end PiDecoder

end Constructicon
