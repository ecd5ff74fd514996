import Constructicon.Library.Lines
import Mathlib.Tactic

/-!
# The bytes of a contained process

`capture` keeps what a process writes, within its limits, however the pipe cuts it into chunks. A
conversation with the process reads what is captured of its stdout, in pieces, and writes to its stdin
within an input budget. Tasks interleave at their awaits: a reader waits for `changed`, a writer for its
drain, and between them chunks arrive, stdin is closed, tasks are cancelled and the owner stops.
-/

namespace Constructicon

namespace ProcessPump

open Lines

/-! ## Capture -/

structure Limits where
  stdoutBytes : ℕ
  stderrBytes : ℕ
  recordBytes : ℕ

/-- What `capture` has kept, with the bytes of the unfinished line and the bound that was exceeded. -/
structure Capture where
  stdout : List UInt8
  stderrHead : List UInt8
  stderrTail : List UInt8
  lineBytes : ℕ
  bound : Option String

def Capture.empty : Capture := ⟨[], [], [], 0, none⟩

def lineFeed : UInt8 := 10

/-- `chunk.split(b"\n")` -/
def splitPieces (chunk : List UInt8) : List (List UInt8) := (cut lineFeed chunk).1 ++ [(cut lineFeed chunk).2]

/-- The length of the line after one more piece, and the bound with it. -/
def countPiece (limits : Limits) (lineBytes : ℕ) (bound : Option String) (piece : List UInt8) : Option String :=
  if limits.recordBytes < lineBytes + piece.length then bound.or (some "record") else bound

def countPieces (limits : Limits) : List (List UInt8) → ℕ → Option String → ℕ × Option String
  | [], lineBytes, bound => (lineBytes, bound)
  | [piece], lineBytes, bound => (lineBytes + piece.length, countPiece limits lineBytes bound piece)
  | piece :: pieces, lineBytes, bound => countPieces limits pieces 0 (countPiece limits lineBytes bound piece)

def Capture.output (limits : Limits) (c : Capture) (chunk : List UInt8) : Capture :=
  let room := limits.stdoutBytes - c.stdout.length
  let bound := if room < chunk.length then c.bound.or (some "stdout") else c.bound
  let counted := countPieces limits (splitPieces chunk) c.lineBytes bound
  { c with
    stdout := c.stdout ++ chunk.take room
    lineBytes := counted.1
    bound := counted.2 }

/-- One chunk of stderr: the first half is full before the tail slides. -/
def Capture.errors (limits : Limits) (c : Capture) (chunk : List UInt8) : Capture :=
  let half := limits.stderrBytes / 2
  let room := half - c.stderrHead.length
  let tail := c.stderrTail ++ chunk.drop room
  { c with
    stderrHead := c.stderrHead ++ chunk.take room
    stderrTail := tail.drop (tail.length - (limits.stderrBytes - half)) }

/-! ## The conversation -/

/-- A drain: under way, done, or failed, with an `OSError` or another exception. -/
inductive Drain where
  | pending
  | drained
  | failed (osError : Bool)
deriving DecidableEq

/-- A write between two of its blocks: what is left of its data, and its drain; `interrupted` when the owner
stopped while the drain was under way. -/
structure Writing where
  rest : List UInt8
  drain : Drain
  interrupted : Bool
deriving DecidableEq

/-- A read that waits for `changed`; `woken` once it was set. -/
structure Reading where
  maximum : ℕ
  woken : Bool
deriving DecidableEq

/-- `_ProcessIO`, with the bytes handed to its writer; `capture` is what its output is shared with. -/
structure Channel where
  capture : Capture
  inputLimit : ℕ
  spent : ℕ
  offset : ℕ
  eof : Bool
  active : Bool
  stopping : Bool
  stdinClosed : Bool
  reading : Option Reading
  writing : Option Writing
  handed : List UInt8

def Channel.opened (inputLimit : ℕ) : Channel :=
  ⟨.empty, inputLimit, 0, 0, false, true, false, false, none, none, []⟩

inductive Answer where
  | read (data : List UInt8)
  | wrote
  | closed
  /-- `ContractViolation` -/
  | refused
  /-- `_OwnedStop` -/
  | ownedStop
  | cancelled
  /-- the failure of the drain -/
  | failed
deriving DecidableEq

/-- `require_active` -/
def Channel.requireActive (ch : Channel) : Option Answer :=
  if ch.stopping then some .ownedStop else if ch.active then none else some .refused

/-- `changed.set()`: whoever waits will resume. -/
def Channel.setChanged (ch : Channel) : Channel :=
  { ch with reading := ch.reading.map fun r => { r with woken := true } }

/-- `invalidate` -/
def Channel.invalidate (ch : Channel) (stopping : Bool) : Channel :=
  let interrupts := stopping && !ch.stopping
  { ch.setChanged with
    stopping := ch.stopping || stopping
    active := false
    stdinClosed := true
    writing := ch.writing.map fun w =>
      if interrupts ∧ w.drain = .pending then { w with interrupted := true } else w }

/-- The loop of `read`: a piece, or a wait. -/
def Channel.deliver (ch : Channel) (maximum : ℕ) : Channel × Option Answer :=
  if ch.offset = ch.capture.stdout.length ∧ ch.eof = false then
    ({ ch with reading := some ⟨maximum, false⟩ }, none)
  else
    let stop := min ch.capture.stdout.length (ch.offset + maximum)
    ({ ch with reading := none, offset := stop },
      some (.read ((ch.capture.stdout.take stop).drop ch.offset)))

/-- `read` -/
def Channel.read (ch : Channel) (maximum : ℤ) : Channel × Option Answer :=
  match ch.requireActive with
  | some fault => (ch, some fault)
  | none =>
    if maximum < 1 ∨ 8192 < maximum ∨ ch.reading ≠ none then (ch, some .refused)
    else ch.deliver maximum.toNat

/-- The reader resumes, once `changed` was set. -/
def Channel.wake (ch : Channel) : Channel × Option Answer :=
  match ch.reading with
  | some ⟨maximum, true⟩ =>
    match ch.requireActive with
    | some fault => ({ ch with reading := none }, some fault)
    | none => ch.deliver maximum
  | _ => (ch, none)

def Channel.interruption (ch : Channel) : Answer := if ch.stopping then .ownedStop else .cancelled

def Channel.cancelRead (ch : Channel) : Channel × Option Answer :=
  if ch.reading = none then (ch, none) else ({ ch with reading := none }, some ch.interruption)

/-- One turn of the loop of `write`: the next block goes to the writer. -/
def Channel.block (ch : Channel) (rest : List UInt8) : Channel × Option Answer :=
  if rest = [] then ({ ch with writing := none }, some .wrote)
  else
    match ch.requireActive with
    | some fault => ({ ch with writing := none }, some fault)
    | none =>
      ({ ch with
          handed := ch.handed ++ rest.take 8192
          writing := some ⟨rest.drop 8192, .pending, false⟩ }, none)

def Channel.accepts (ch : Channel) (data : List UInt8) : Prop :=
  ch.requireActive = none ∧ ch.writing = none ∧ ch.stdinClosed = false ∧ (data.length : ℤ) ≤ ch.inputLimit - ch.spent

instance (ch : Channel) (data : List UInt8) : Decidable (ch.accepts data) := inferInstanceAs (Decidable (_ ∧ _))

/-- `write` -/
def Channel.write (ch : Channel) (data : List UInt8) : Channel × Option Answer :=
  if ch.accepts data then { ch with spent := ch.spent + data.length }.block data
  else (ch, some (ch.requireActive.getD .refused))

def Channel.settle (ch : Channel) (drain : Drain) : Channel :=
  { ch with writing := ch.writing.map fun w => if w.drain = .pending then { w with drain := drain } else w }

def drainFault (osError interrupted : Bool) : Answer := if osError && interrupted then .ownedStop else .failed

def Channel.resume (ch : Channel) : Channel × Option Answer :=
  match ch.writing with
  | some ⟨rest, .drained, _⟩ =>
    match ch.requireActive with
    | some fault => ({ ch with writing := none }, some fault)
    | none => ch.block rest
  | some ⟨_, .failed osError, interrupted⟩ => ({ ch with writing := none }, some (drainFault osError interrupted))
  | _ => (ch, none)

/-- The writer is cancelled at its drain: a failure that has settled stands. -/
def Channel.cancelWrite (ch : Channel) : Channel × Option Answer :=
  match ch.writing with
  | none => (ch, none)
  | some ⟨_, .failed osError, interrupted⟩ => ({ ch with writing := none }, some (drainFault osError interrupted))
  | some _ => ({ ch with writing := none }, some ch.interruption)

/-- `close_stdin` -/
def Channel.closeStdin (ch : Channel) : Channel × Option Answer :=
  match ch.requireActive with
  | some fault => (ch, some fault)
  | none => if ch.writing ≠ none then (ch, some .refused) else ({ ch with stdinClosed := true }, some .closed)

/-- One chunk for `capture` of stdout; the empty one is EOF. A bound stops the owner. -/
def Channel.output (limits : Limits) (ch : Channel) (chunk : List UInt8) : Channel :=
  if ch.eof then ch
  else if chunk = [] then { ch.setChanged with eof := true }
  else
    let ch := { ch with capture := ch.capture.output limits chunk }
    (if ch.capture.bound.isSome then ch.invalidate true else ch).setChanged

inductive Event where
  | output (chunk : List UInt8)
  | errors (chunk : List UInt8)
  | read (maximum : ℤ)
  | wake
  | cancelRead
  | write (data : List UInt8)
  | settle (drain : Drain)
  | resume
  | cancelWrite
  | closeStdin
  | invalidate (stopping : Bool)

def Channel.step (limits : Limits) (ch : Channel) : Event → Channel × Option Answer
  | .output chunk => (ch.output limits chunk, none)
  | .errors chunk => ({ ch with capture := ch.capture.errors limits chunk }, none)
  | .read maximum => ch.read maximum
  | .wake => ch.wake
  | .cancelRead => ch.cancelRead
  | .write data => ch.write data
  | .settle drain => (ch.settle drain, none)
  | .resume => ch.resume
  | .cancelWrite => ch.cancelWrite
  | .closeStdin => ch.closeStdin
  | .invalidate stopping => (ch.invalidate stopping, none)

/-! ## What is captured -/

section

variable {limits : Limits} {out err chunk t : List UInt8} {c : Capture}

/-- The capture of some stdout and some stderr, whatever their chunks were. -/
structure Captured (limits : Limits) (out err : List UInt8) (c : Capture) : Prop where
  stdout : c.stdout = out.take limits.stdoutBytes
  bound : c.bound ≠ none ↔ limits.stdoutBytes < out.length ∨ ∃ line ∈ splitPieces out, limits.recordBytes < line.length
  lineBytes : c.lineBytes = (cut lineFeed out).2.length
  stderrHead : c.stderrHead = err.take (limits.stderrBytes / 2)
  stderrTail : c.stderrTail = (err.drop (limits.stderrBytes / 2)).drop
    ((err.drop (limits.stderrBytes / 2)).length - (limits.stderrBytes - limits.stderrBytes / 2))

theorem splitPieces_line {l : List UInt8} (plain : lineFeed ∉ l) (xs : List UInt8) :
    splitPieces (l ++ lineFeed :: xs) = l :: splitPieces xs := by
  rw [splitPieces, cut_line plain]
  rfl

theorem splitPieces_tail (plain : lineFeed ∉ t) : splitPieces t = [t] := by
  rw [splitPieces, cut_tail plain]
  rfl

theorem splitPieces_ne_nil (xs : List UInt8) : splitPieces xs ≠ [] := by
  simp [splitPieces]

theorem countPiece_ne_none {n : ℕ} {bound : Option String} {piece : List UInt8} :
    countPiece limits n bound piece ≠ none ↔ bound ≠ none ∨ limits.recordBytes < n + piece.length := by
  unfold countPiece
  split_ifs with long
  · exact iff_of_true (by simp) (.inr long)
  · simp [long]

theorem countPieces_split (plain : lineFeed ∉ t) (chunk : List UInt8) (bound : Option String) :
    (countPieces limits (splitPieces chunk) t.length bound).1 = (cut lineFeed (t ++ chunk)).2.length ∧
      ((countPieces limits (splitPieces chunk) t.length bound).2 ≠ none ↔
        bound ≠ none ∨ ∃ line ∈ splitPieces (t ++ chunk), limits.recordBytes < line.length) := by
  induction chunk using Lines.induct lineFeed generalizing t bound with
  | tail c none =>
    have whole : lineFeed ∉ t ++ c := by simp [plain, none]
    rw [splitPieces_tail none, splitPieces_tail whole, cut_tail whole]
    refine ⟨List.length_append.symm, ?_⟩
    rw [countPieces, countPiece_ne_none]
    simp
  | line l xs none ih =>
    have whole : lineFeed ∉ t ++ l := by simp [plain, none]
    rw [← List.append_assoc, splitPieces_line none, splitPieces_line whole, cut_line whole]
    obtain ⟨length, verdict⟩ := ih List.not_mem_nil (countPiece limits t.length bound l)
    have turn : countPieces limits (l :: splitPieces xs) t.length bound =
        countPieces limits (splitPieces xs) 0 (countPiece limits t.length bound l) := by
      obtain ⟨p, ps, some_pieces⟩ := List.exists_cons_of_ne_nil (splitPieces_ne_nil xs)
      rw [some_pieces]
      rfl
    rw [turn]
    refine ⟨length, ?_⟩
    rw [List.length_nil, List.nil_append] at verdict
    rw [verdict, countPiece_ne_none, List.exists_mem_cons_iff, List.length_append, or_assoc]

theorem long_tail {n : ℕ} (plain : lineFeed ∉ t) (chunk : List UInt8) (long : n < t.length) :
    ∃ line ∈ splitPieces (t ++ chunk), n < line.length := by
  induction chunk using Lines.induct lineFeed with
  | tail c none =>
    have whole : lineFeed ∉ t ++ c := by simp [plain, none]
    rw [splitPieces_tail whole]
    exact ⟨_, List.mem_singleton_self _, by rw [List.length_append]; omega⟩
  | line l xs none _ =>
    have whole : lineFeed ∉ t ++ l := by simp [plain, none]
    rw [← List.append_assoc, splitPieces_line whole]
    exact ⟨_, List.mem_cons_self, by rw [List.length_append]; omega⟩

theorem long_append (n : ℕ) (out chunk : List UInt8) : (∃ line ∈ splitPieces (out ++ chunk), n < line.length) ↔
    (∃ line ∈ splitPieces out, n < line.length) ∨
      ∃ line ∈ splitPieces ((cut lineFeed out).2 ++ chunk), n < line.length := by
  have parts : splitPieces (out ++ chunk) = (cut lineFeed out).1 ++ splitPieces ((cut lineFeed out).2 ++ chunk) := by
    rw [splitPieces, cut_append, splitPieces, List.append_assoc]
  rw [parts]
  constructor
  · rintro ⟨line, mem, long⟩
    rcases List.mem_append.mp mem with before | after
    · exact .inl ⟨line, List.mem_append_left _ before, long⟩
    · exact .inr ⟨line, after, long⟩
  · rintro (⟨line, mem, long⟩ | ⟨line, after, long⟩)
    · rcases List.mem_append.mp mem with before | tail
      · exact ⟨line, List.mem_append_left _ before, long⟩
      · rw [List.mem_singleton.mp tail] at long
        obtain ⟨line, after, long⟩ := long_tail (cut_plain out).2 chunk long
        exact ⟨line, List.mem_append_right _ after, long⟩
    · exact ⟨line, List.mem_append_right _ after, long⟩

theorem take_room (n : ℕ) (xs ys : List UInt8) :
    xs.take n ++ ys.take (n - (xs.take n).length) = (xs ++ ys).take n := by
  rw [List.take_append, List.length_take]
  have room : n - min n xs.length = n - xs.length := by omega
  rw [room]

theorem drop_window (k : ℕ) (xs ys : List UInt8) :
    (xs.drop (xs.length - k) ++ ys).drop ((xs.drop (xs.length - k) ++ ys).length - k) =
      (xs ++ ys).drop ((xs ++ ys).length - k) := by
  rw [← List.drop_append_of_le_length (Nat.sub_le _ _), List.drop_drop]
  congr 1
  rw [List.length_drop, List.length_append]
  omega

theorem Captured.output (h : Captured limits out err c) (chunk : List UInt8) :
    Captured limits (out ++ chunk) err (c.output limits chunk) := by
  have counted := @countPieces_split limits _ (@cut_plain _ _ lineFeed out).2 chunk
    (if limits.stdoutBytes - c.stdout.length < chunk.length then c.bound.or (some "stdout") else c.bound)
  rw [← h.lineBytes] at counted
  refine ⟨?_, ?_, ?_, h.stderrHead, h.stderrTail⟩
  · change c.stdout ++ chunk.take (limits.stdoutBytes - c.stdout.length) = _
    rw [h.stdout]
    exact take_room _ _ _
  · have stdout : (if limits.stdoutBytes - c.stdout.length < chunk.length then c.bound.or (some "stdout") else c.bound) ≠
        none ↔ c.bound ≠ none ∨ limits.stdoutBytes - c.stdout.length < chunk.length := by
      split_ifs with full
      · exact iff_of_true (by simp) (.inr full)
      · simp [full]
    change (countPieces limits (splitPieces chunk) c.lineBytes _).2 ≠ none ↔ _
    have room : c.stdout.length = min limits.stdoutBytes out.length := by rw [h.stdout, List.length_take]
    rw [counted.2, stdout, h.bound, long_append limits.recordBytes out chunk, List.length_append, room]
    constructor
    · rintro (((long | long) | full) | long)
      · exact .inl (by omega)
      · exact .inr (.inl long)
      · exact .inl (by omega)
      · exact .inr (.inr long)
    · rintro (full | long | long)
      · by_cases before : limits.stdoutBytes < out.length
        · exact .inl (.inl (.inl before))
        · exact .inl (.inr (by omega))
      · exact .inl (.inl (.inr long))
      · exact .inr long
  · change (countPieces limits (splitPieces chunk) c.lineBytes _).1 = _
    rw [counted.1, cut_append out chunk]

theorem Captured.errors (h : Captured limits out err c) (chunk : List UInt8) :
    Captured limits out (err ++ chunk) (c.errors limits chunk) := by
  refine ⟨h.stdout, h.bound, h.lineBytes, ?_, ?_⟩
  · change c.stderrHead ++ chunk.take (limits.stderrBytes / 2 - c.stderrHead.length) = _
    rw [h.stderrHead]
    exact take_room _ _ _
  · have room : limits.stderrBytes / 2 - c.stderrHead.length = limits.stderrBytes / 2 - err.length := by
      rw [h.stderrHead, List.length_take]
      omega
    change (c.stderrTail ++ chunk.drop (limits.stderrBytes / 2 - c.stderrHead.length)).drop
      ((c.stderrTail ++ chunk.drop (limits.stderrBytes / 2 - c.stderrHead.length)).length - _) = _
    have whole : (err ++ chunk).drop (limits.stderrBytes / 2) =
        err.drop (limits.stderrBytes / 2) ++ chunk.drop (limits.stderrBytes / 2 - err.length) := List.drop_append
    rw [room, h.stderrTail, drop_window, whole]

theorem captured_empty (limits : Limits) : Captured limits [] [] .empty :=
  ⟨by simp [Capture.empty], by simp [Capture.empty, splitPieces], rfl, by simp [Capture.empty], by simp [Capture.empty]⟩

end

/-! ## Runs -/

/-- A channel with all that has passed: the chunks that arrived, the pieces that reads returned, and the data of
the writes taken on. -/
structure Run where
  channel : Channel
  outputs : List (List UInt8)
  errors : List (List UInt8)
  pieces : List (List UInt8)
  accepted : List (List UInt8)

def Run.opened (inputLimit : ℕ) : Run := ⟨.opened inputLimit, [], [], [], []⟩

/-- The chunk of stdout that an event brings: none arrives after EOF. -/
def arrivedOutput (ch : Channel) : Event → List (List UInt8)
  | .output chunk => if ch.eof then [] else [chunk]
  | _ => []

def arrivedErrors : Event → List (List UInt8)
  | .errors chunk => [chunk]
  | _ => []

def takenOn (ch : Channel) : Event → List (List UInt8)
  | .write data => if ch.accepts data then [data] else []
  | _ => []

def returned : Option Answer → List (List UInt8)
  | some (.read data) => [data]
  | _ => []

def Run.step (limits : Limits) (r : Run) (event : Event) : Run where
  channel := (r.channel.step limits event).1
  outputs := r.outputs ++ arrivedOutput r.channel event
  errors := r.errors ++ arrivedErrors event
  pieces := r.pieces ++ returned (r.channel.step limits event).2
  accepted := r.accepted ++ takenOn r.channel event

def Run.after (limits : Limits) (inputLimit : ℕ) (events : List Event) : Run :=
  events.foldl (Run.step limits) (.opened inputLimit)

def PartsOf (handed : List UInt8) (accepted : List (List UInt8)) : Prop :=
  ∃ parts, List.Forall₂ (· <+: ·) parts accepted ∧ handed = parts.flatten

/-- The write under way is the last one taken on, and the bytes still to come complete its part. -/
def Completes (handed : List UInt8) (accepted : List (List UInt8)) (rest : List UInt8) : Prop :=
  ∃ earlier part, accepted = earlier ++ [part ++ rest] ∧ ∃ parts, List.Forall₂ (· <+: ·) parts earlier ∧
    handed = parts.flatten ++ part

theorem Completes.partsOf {handed rest : List UInt8} {accepted : List (List UInt8)}
    (h : Completes handed accepted rest) : PartsOf handed accepted := by
  obtain ⟨earlier, part, rfl, parts, inOrder, rfl⟩ := h
  refine ⟨parts ++ [part], ?_, by simp⟩
  exact List.rel_append inOrder (.cons (List.prefix_append part rest) .nil)

theorem Completes.block {handed rest : List UInt8} {accepted : List (List UInt8)}
    (h : Completes handed accepted rest) (n : ℕ) : Completes (handed ++ rest.take n) accepted (rest.drop n) := by
  obtain ⟨earlier, part, rfl, parts, inOrder, rfl⟩ := h
  exact ⟨earlier, part ++ rest.take n, by simp, parts, inOrder, by simp⟩

theorem PartsOf.takes_on {handed : List UInt8} {accepted : List (List UInt8)} (h : PartsOf handed accepted)
    (data : List UInt8) : Completes handed (accepted ++ [data]) data := by
  obtain ⟨parts, inOrder, rfl⟩ := h
  exact ⟨accepted, [], rfl, parts, inOrder, by simp⟩

theorem PartsOf.length_le {handed : List UInt8} {accepted : List (List UInt8)} (h : PartsOf handed accepted) :
    handed.length ≤ accepted.flatten.length := by
  obtain ⟨parts, inOrder, rfl⟩ := h
  induction inOrder with
  | nil => exact le_rfl
  | cons first _ ih =>
    rw [List.flatten_cons, List.flatten_cons, List.length_append, List.length_append]
    exact Nat.add_le_add first.length_le ih

structure Run.Sound (limits : Limits) (inputLimit : ℕ) (r : Run) : Prop where
  captured : Captured limits r.outputs.flatten r.errors.flatten r.channel.capture
  eof : r.channel.eof = true ↔ [] ∈ r.outputs
  offset : r.channel.offset ≤ r.channel.capture.stdout.length
  pieces : r.pieces.flatten = r.channel.capture.stdout.take r.channel.offset
  limit : r.channel.inputLimit = inputLimit
  spent : r.accepted.flatten.length = r.channel.spent ∧ r.channel.spent ≤ inputLimit
  handed : PartsOf r.channel.handed r.accepted
  writing : ∀ w, r.channel.writing = some w → Completes r.channel.handed r.accepted w.rest
  reading : ∀ w, r.channel.reading = some w → 0 < w.maximum

section

variable {limits : Limits} {inputLimit : ℕ} {r : Run} {ch ch' : Channel}

structure Channel.Same (ch ch' : Channel) : Prop where
  capture : ch'.capture = ch.capture
  eof : ch'.eof = ch.eof
  offset : ch'.offset = ch.offset
  inputLimit : ch'.inputLimit = ch.inputLimit
  spent : ch'.spent = ch.spent
  handed : ch'.handed = ch.handed
  writing : ∀ w', ch'.writing = some w' → ∃ w, ch.writing = some w ∧ w'.rest = w.rest
  reading : ∀ w', ch'.reading = some w' → ∃ w, ch.reading = some w ∧ w'.maximum = w.maximum

theorem Channel.Same.refl (ch : Channel) : ch.Same ch :=
  ⟨rfl, rfl, rfl, rfl, rfl, rfl, fun w found => ⟨w, found, rfl⟩, fun w found => ⟨w, found, rfl⟩⟩

theorem Channel.Same.trans {ch'' : Channel} (a : ch.Same ch') (b : ch'.Same ch'') : ch.Same ch'' := by
  refine ⟨b.capture.trans a.capture, b.eof.trans a.eof, b.offset.trans a.offset, b.inputLimit.trans a.inputLimit,
    b.spent.trans a.spent, b.handed.trans a.handed, fun w'' found => ?_, fun w'' found => ?_⟩
  · obtain ⟨w', found', rest'⟩ := b.writing w'' found
    obtain ⟨w, found, rest⟩ := a.writing w' found'
    exact ⟨w, found, rest'.trans rest⟩
  · obtain ⟨w', found', maximum'⟩ := b.reading w'' found
    obtain ⟨w, found, maximum⟩ := a.reading w' found'
    exact ⟨w, found, maximum'.trans maximum⟩

theorem Channel.same_setChanged (ch : Channel) : ch.Same ch.setChanged := by
  refine ⟨rfl, rfl, rfl, rfl, rfl, rfl, fun w found => ⟨w, found, rfl⟩, fun w' found => ?_⟩
  obtain ⟨w, before, rfl⟩ := Option.map_eq_some_iff.mp found
  exact ⟨w, before, rfl⟩

theorem Channel.same_unread (ch : Channel) : ch.Same { ch with reading := none } :=
  ⟨rfl, rfl, rfl, rfl, rfl, rfl, fun w found => ⟨w, found, rfl⟩, fun _ found => by cases found⟩

theorem Channel.same_unwritten (ch : Channel) : ch.Same { ch with writing := none } :=
  ⟨rfl, rfl, rfl, rfl, rfl, rfl, fun _ found => (by cases found), fun w found => ⟨w, found, rfl⟩⟩

theorem Channel.same_invalidate (ch : Channel) (stopping : Bool) : ch.Same (ch.invalidate stopping) := by
  refine ⟨rfl, rfl, rfl, rfl, rfl, rfl, fun w' found => ?_, ch.same_setChanged.reading⟩
  obtain ⟨w, before, rfl⟩ := Option.map_eq_some_iff.mp found
  refine ⟨w, before, ?_⟩
  split_ifs <;> rfl

theorem Channel.same_settle (ch : Channel) (drain : Drain) : ch.Same (ch.settle drain) := by
  refine ⟨rfl, rfl, rfl, rfl, rfl, rfl, fun w' found => ?_, fun w found => ⟨w, found, rfl⟩⟩
  obtain ⟨w, before, rfl⟩ := Option.map_eq_some_iff.mp found
  refine ⟨w, before, ?_⟩
  split_ifs <;> rfl

theorem Channel.same_closeStdin (ch : Channel) : ch.Same ch.closeStdin.1 := by
  unfold Channel.closeStdin
  cases ch.requireActive with
  | some fault => exact .refl ch
  | none =>
    dsimp only
    split_ifs
    · exact .refl ch
    · exact ⟨rfl, rfl, rfl, rfl, rfl, rfl, fun w found => ⟨w, found, rfl⟩, fun w found => ⟨w, found, rfl⟩⟩

theorem Channel.same_cancelRead (ch : Channel) : ch.Same ch.cancelRead.1 := by
  unfold Channel.cancelRead
  split_ifs
  · exact .refl ch
  · exact ch.same_unread

theorem Channel.same_cancelWrite (ch : Channel) : ch.Same ch.cancelWrite.1 := by
  unfold Channel.cancelWrite
  split
  · exact .refl ch
  · exact ch.same_unwritten
  · exact ch.same_unwritten

theorem Run.Sound.same (h : r.Sound limits inputLimit) (same : r.channel.Same ch') :
    Run.Sound limits inputLimit { r with channel := ch' } := by
  obtain ⟨capture, eof, offset, limit, spent, handed, writing, reading⟩ := same
  refine ⟨?_, ?_, ?_, ?_, ?_, ?_, ?_, ?_, ?_⟩
  · rw [capture]
    exact h.captured
  · rw [eof]
    exact h.eof
  · rw [offset, capture]
    exact h.offset
  · rw [capture, offset]
    exact h.pieces
  · rw [limit]
    exact h.limit
  · rw [spent]
    exact h.spent
  · rw [handed]
    exact h.handed
  · intro w' found
    obtain ⟨w, before, rest⟩ := writing w' found
    rw [handed, rest]
    exact h.writing w before
  · intro w' found
    obtain ⟨w, before, maximum⟩ := reading w' found
    rw [maximum]
    exact h.reading w before

theorem Run.Sound.deliver (h : r.Sound limits inputLimit) {maximum : ℕ} (positive : 0 < maximum) :
    Run.Sound limits inputLimit { r with
      channel := (r.channel.deliver maximum).1
      pieces := r.pieces ++ returned (r.channel.deliver maximum).2 } := by
  unfold Channel.deliver
  split_ifs with waits
  · dsimp only [returned]
    rw [List.append_nil]
    refine ⟨h.captured, h.eof, h.offset, h.pieces, h.limit, h.spent, h.handed, h.writing, fun w found => ?_⟩
    cases found
    exact positive
  · refine ⟨h.captured, h.eof, Nat.min_le_left _ _, ?_, h.limit, h.spent, h.handed, h.writing, fun _ found => ?_⟩
    case refine_2 => cases found
    have offset := h.offset
    dsimp only [returned]
    rw [List.flatten_append, h.pieces, List.flatten_singleton]
    generalize r.channel.capture.stdout = stdout at offset ⊢
    have before : (stdout.take (min stdout.length (r.channel.offset + maximum))).take r.channel.offset =
        stdout.take r.channel.offset := by
      rw [List.take_take]
      congr 1
      omega
    rw [← before]
    exact List.take_append_drop _ _

theorem deliver_empty {maximum : ℕ} (positive : 0 < maximum) (offset : ch.offset ≤ ch.capture.stdout.length)
    (answer : (ch.deliver maximum).2 = some (.read [])) : ch.eof = true ∧ ch.offset = ch.capture.stdout.length := by
  unfold Channel.deliver at answer
  split_ifs at answer with waits
  have empty : (ch.capture.stdout.take (min ch.capture.stdout.length (ch.offset + maximum))).drop ch.offset = [] := by
    injection answer with answer
    injection answer
  have length := congrArg List.length empty
  rw [List.length_drop, List.length_take, List.length_nil] at length
  have ended : ch.offset = ch.capture.stdout.length := by omega
  refine ⟨?_, ended⟩
  by_contra going
  exact waits ⟨ended, Bool.eq_false_iff.mpr going⟩

theorem returned_requireActive {fault : Answer} (inactive : ch.requireActive = some fault) :
    returned (some fault) = [] := by
  unfold Channel.requireActive at inactive
  split_ifs at inactive <;> cases inactive <;> rfl

theorem returned_block (rest : List UInt8) : returned (ch.block rest).2 = [] := by
  unfold Channel.block
  split_ifs
  · rfl
  · cases active : ch.requireActive with
    | some fault => exact returned_requireActive active
    | none => rfl

theorem returned_write (data : List UInt8) : returned (ch.write data).2 = [] := by
  unfold Channel.write
  split_ifs
  · exact returned_block data
  · cases active : ch.requireActive with
    | some fault => exact returned_requireActive active
    | none => rfl

theorem returned_drainFault (osError interrupted : Bool) : returned (some (drainFault osError interrupted)) = [] := by
  unfold drainFault
  split_ifs <;> rfl

theorem returned_interruption : returned (some ch.interruption) = [] := by
  unfold Channel.interruption
  split_ifs <;> rfl

theorem returned_resume : returned ch.resume.2 = [] := by
  unfold Channel.resume
  split
  · split
    · rename_i active
      exact returned_requireActive active
    · exact returned_block _
  · exact returned_drainFault _ _
  · rfl

theorem returned_cancelRead : returned ch.cancelRead.2 = [] := by
  unfold Channel.cancelRead
  split_ifs
  · rfl
  · exact returned_interruption

theorem returned_cancelWrite : returned ch.cancelWrite.2 = [] := by
  unfold Channel.cancelWrite
  split
  · rfl
  · exact returned_drainFault _ _
  · exact returned_interruption

theorem returned_closeStdin : returned ch.closeStdin.2 = [] := by
  unfold Channel.closeStdin
  split
  · rename_i active
    exact returned_requireActive active
  · split_ifs <;> rfl

theorem Run.Sound.block (h : r.Sound limits inputLimit) {rest : List UInt8}
    (completes : Completes r.channel.handed r.accepted rest) :
    Run.Sound limits inputLimit { r with channel := (r.channel.block rest).1 } := by
  unfold Channel.block
  split_ifs
  · exact h.same r.channel.same_unwritten
  · cases r.channel.requireActive with
    | some fault => exact h.same r.channel.same_unwritten
    | none =>
      have next := completes.block 8192
      refine ⟨h.captured, h.eof, h.offset, h.pieces, h.limit, h.spent, next.partsOf, ?_, h.reading⟩
      intro w found
      cases found
      exact next

theorem Run.Sound.read (h : r.Sound limits inputLimit) (maximum : ℤ) :
    Run.Sound limits inputLimit { r with
      channel := (r.channel.read maximum).1
      pieces := r.pieces ++ returned (r.channel.read maximum).2 } := by
  have refused : ∀ fault, returned (some fault) = [] → Run.Sound limits inputLimit { r with
      channel := r.channel, pieces := r.pieces ++ returned (some fault) } := by
    intro fault nothing
    rw [nothing, List.append_nil]
    exact h
  unfold Channel.read
  cases active : r.channel.requireActive with
  | some fault => exact refused fault (returned_requireActive active)
  | none =>
    dsimp only
    split_ifs with bad
    · exact refused .refused rfl
    · exact h.deliver (by omega)

theorem Run.Sound.wake (h : r.Sound limits inputLimit) :
    Run.Sound limits inputLimit { r with
      channel := r.channel.wake.1
      pieces := r.pieces ++ returned r.channel.wake.2 } := by
  unfold Channel.wake
  cases waiting : r.channel.reading with
  | none => simpa [returned] using h
  | some w =>
    obtain ⟨maximum, woken⟩ := w
    cases woken with
    | false => simpa [returned] using h
    | true =>
      dsimp only
      cases active : r.channel.requireActive with
      | some fault =>
        dsimp only
        rw [returned_requireActive active, List.append_nil]
        exact h.same r.channel.same_unread
      | none => exact h.deliver (h.reading _ waiting)

theorem Run.Sound.write (h : r.Sound limits inputLimit) (data : List UInt8) :
    Run.Sound limits inputLimit { r with
      channel := (r.channel.write data).1
      accepted := r.accepted ++ takenOn r.channel (.write data) } := by
  by_cases accepts : r.channel.accepts data
  · have here : takenOn r.channel (.write data) = [data] := if_pos accepts
    rw [here, Channel.write, if_pos accepts]
    have completes := h.handed.takes_on data
    obtain ⟨-, idle, -, fits⟩ := accepts
    obtain ⟨sum, below⟩ := h.spent
    have limit := h.limit
    have taken : Run.Sound limits inputLimit { r with
        channel := { r.channel with spent := r.channel.spent + data.length }
        accepted := r.accepted ++ [data] } := by
      refine ⟨h.captured, h.eof, h.offset, h.pieces, h.limit, ⟨?_, ?_⟩, completes.partsOf, fun w found => ?_, h.reading⟩
      · rw [List.flatten_append, List.length_append, sum, List.flatten_singleton]
      · dsimp only
        omega
      · rw [idle] at found
        cases found
    exact taken.block completes
  · have here : takenOn r.channel (.write data) = [] := if_neg accepts
    rw [here, Channel.write, if_neg accepts, List.append_nil]
    exact h

theorem Run.Sound.resume (h : r.Sound limits inputLimit) :
    Run.Sound limits inputLimit { r with channel := r.channel.resume.1 } := by
  unfold Channel.resume
  cases writing : r.channel.writing with
  | none => exact h
  | some w =>
    have completes := h.writing w writing
    obtain ⟨rest, drain, interrupted⟩ := w
    cases drain with
    | pending => exact h
    | failed osError => exact h.same r.channel.same_unwritten
    | drained =>
      dsimp only
      cases r.channel.requireActive with
      | some fault => exact h.same r.channel.same_unwritten
      | none => exact h.block completes

theorem Run.Sound.captures (h : r.Sound limits inputLimit) {chunk : List UInt8} (some_bytes : chunk ≠ []) :
    Run.Sound limits inputLimit { r with
      channel := { r.channel with capture := r.channel.capture.output limits chunk }
      outputs := r.outputs ++ [chunk] } := by
  have grown : (r.channel.capture.output limits chunk).stdout.take r.channel.offset =
      r.channel.capture.stdout.take r.channel.offset := List.take_append_of_le_length h.offset
  have more : r.channel.capture.stdout.length ≤ (r.channel.capture.output limits chunk).stdout.length := by
    change _ ≤ (r.channel.capture.stdout ++ _).length
    rw [List.length_append]
    exact Nat.le_add_right _ _
  refine ⟨?_, ?_, h.offset.trans more, h.pieces.trans grown.symm, h.limit, h.spent, h.handed, h.writing, h.reading⟩
  · rw [List.flatten_append, List.flatten_singleton]
    exact h.captured.output chunk
  · rw [List.mem_append, List.mem_singleton]
    exact h.eof.trans (or_iff_left (Ne.symm some_bytes)).symm

theorem Run.Sound.output (h : r.Sound limits inputLimit) (chunk : List UInt8) :
    Run.Sound limits inputLimit { r with
      channel := r.channel.output limits chunk
      outputs := r.outputs ++ arrivedOutput r.channel (.output chunk) } := by
  unfold Channel.output
  dsimp only [arrivedOutput]
  split_ifs with ended eof bound
  · rw [List.append_nil]
    exact h
  · subst eof
    have same := h.same r.channel.same_setChanged
    refine ⟨?_, ?_, same.offset, same.pieces, same.limit, same.spent, same.handed, same.writing, same.reading⟩
    · rw [List.flatten_append, List.flatten_singleton, List.append_nil]
      exact h.captured
    · exact iff_of_true rfl (List.mem_append_right _ (List.mem_singleton_self _))
  · exact (h.captures eof).same ((Channel.same_invalidate _ true).trans (Channel.same_setChanged _))
  · exact (h.captures eof).same (Channel.same_setChanged _)

theorem Run.Sound.step (h : r.Sound limits inputLimit) (event : Event) : (r.step limits event).Sound limits inputLimit := by
  unfold Run.step
  cases event with
  | output chunk =>
    dsimp only [arrivedErrors, takenOn, returned, Channel.step]
    rw [List.append_nil, List.append_nil, List.append_nil]
    exact h.output chunk
  | errors chunk =>
    dsimp only [arrivedOutput, arrivedErrors, takenOn, returned, Channel.step]
    rw [List.append_nil, List.append_nil, List.append_nil]
    refine ⟨?_, h.eof, h.offset, h.pieces, h.limit, h.spent, h.handed, h.writing, h.reading⟩
    rw [List.flatten_append, List.flatten_singleton]
    exact h.captured.errors chunk
  | read maximum =>
    dsimp only [arrivedOutput, arrivedErrors, takenOn, Channel.step]
    rw [List.append_nil, List.append_nil, List.append_nil]
    exact h.read maximum
  | wake =>
    dsimp only [arrivedOutput, arrivedErrors, takenOn, Channel.step]
    rw [List.append_nil, List.append_nil, List.append_nil]
    exact h.wake
  | write data =>
    dsimp only [arrivedOutput, arrivedErrors, Channel.step]
    rw [List.append_nil, List.append_nil, returned_write, List.append_nil]
    exact h.write data
  | resume =>
    dsimp only [arrivedOutput, arrivedErrors, takenOn, Channel.step]
    rw [List.append_nil, List.append_nil, List.append_nil, returned_resume, List.append_nil]
    exact h.resume
  | settle drain =>
    dsimp only [arrivedOutput, arrivedErrors, takenOn, returned, Channel.step]
    rw [List.append_nil, List.append_nil, List.append_nil, List.append_nil]
    exact h.same (r.channel.same_settle drain)
  | invalidate stopping =>
    dsimp only [arrivedOutput, arrivedErrors, takenOn, returned, Channel.step]
    rw [List.append_nil, List.append_nil, List.append_nil, List.append_nil]
    exact h.same (r.channel.same_invalidate stopping)
  | cancelRead =>
    dsimp only [arrivedOutput, arrivedErrors, takenOn, Channel.step]
    rw [List.append_nil, List.append_nil, List.append_nil, returned_cancelRead, List.append_nil]
    exact h.same r.channel.same_cancelRead
  | cancelWrite =>
    dsimp only [arrivedOutput, arrivedErrors, takenOn, Channel.step]
    rw [List.append_nil, List.append_nil, List.append_nil, returned_cancelWrite, List.append_nil]
    exact h.same r.channel.same_cancelWrite
  | closeStdin =>
    dsimp only [arrivedOutput, arrivedErrors, takenOn, Channel.step]
    rw [List.append_nil, List.append_nil, List.append_nil, returned_closeStdin, List.append_nil]
    exact h.same r.channel.same_closeStdin

theorem sound_after (limits : Limits) (inputLimit : ℕ) (events : List Event) :
    (Run.after limits inputLimit events).Sound limits inputLimit := by
  have opened : (Run.opened inputLimit).Sound limits inputLimit := by
    refine ⟨captured_empty limits, ?_, le_rfl, rfl, rfl, ⟨rfl, Nat.zero_le _⟩, ⟨[], .nil, rfl⟩, ?_, ?_⟩
    · simp [Run.opened, Channel.opened]
    · exact fun w found => by cases found
    · exact fun w found => by cases found
  unfold Run.after
  generalize Run.opened inputLimit = r at opened
  induction events generalizing r with
  | nil => exact opened
  | cons event events ih => exact ih _ (opened.step event)

theorem Run.Sound.empty_read (h : r.Sound limits inputLimit) (event : Event)
    (answer : (r.channel.step limits event).2 = some (.read [])) :
    r.channel.eof = true ∧ r.pieces.flatten = r.channel.capture.stdout := by
  have delivered : ∃ maximum, 0 < maximum ∧ (r.channel.deliver maximum).2 = some (.read []) := by
    have silent : ∀ {answer : Option Answer}, returned answer = [] → answer ≠ some (.read []) := by
      rintro answer nothing rfl
      cases nothing
    cases event with
    | read maximum =>
      change (r.channel.read maximum).2 = _ at answer
      unfold Channel.read at answer
      cases active : r.channel.requireActive with
      | some fault =>
        rw [active] at answer
        exact absurd answer (silent (returned_requireActive active))
      | none =>
        rw [active] at answer
        dsimp only at answer
        split_ifs at answer with bad
        · cases answer
        · exact ⟨maximum.toNat, by omega, answer⟩
    | wake =>
      change r.channel.wake.2 = _ at answer
      unfold Channel.wake at answer
      split at answer
      · rename_i maximum waiting
        split at answer
        · rename_i active
          exact absurd answer (silent (returned_requireActive active))
        · exact ⟨maximum, h.reading _ waiting, answer⟩
      · cases answer
    | write data => exact absurd answer (silent (returned_write data))
    | resume => exact absurd answer (silent returned_resume)
    | cancelRead => exact absurd answer (silent returned_cancelRead)
    | cancelWrite => exact absurd answer (silent returned_cancelWrite)
    | closeStdin => exact absurd answer (silent returned_closeStdin)
    | output chunk => cases answer
    | errors chunk => cases answer
    | settle drain => cases answer
    | invalidate stopping => cases answer
  obtain ⟨maximum, positive, answer⟩ := delivered
  obtain ⟨eof, offset⟩ := deliver_empty positive h.offset answer
  refine ⟨eof, ?_⟩
  rw [h.pieces, offset, List.take_length]


end

/-- Whatever the chunks and the order of events: what is captured is cut out of the streams, with a bound where
one was exceeded; what reads returned is the beginning of the captured stdout, all of it once a read returns
nothing; and the writer was handed a part of each write, in order, within the input budget. -/
theorem pump_exact (limits : Limits) (inputLimit : ℕ) (events : List Event) :
    Captured limits (Run.after limits inputLimit events).outputs.flatten
      (Run.after limits inputLimit events).errors.flatten (Run.after limits inputLimit events).channel.capture ∧
    ((Run.after limits inputLimit events).channel.eof = true ↔ [] ∈ (Run.after limits inputLimit events).outputs) ∧
    (Run.after limits inputLimit events).pieces.flatten <+:
      (Run.after limits inputLimit events).channel.capture.stdout ∧
    (∀ event, ((Run.after limits inputLimit events).channel.step limits event).2 = some (.read []) →
      (Run.after limits inputLimit events).channel.eof = true ∧
        (Run.after limits inputLimit events).pieces.flatten =
          (Run.after limits inputLimit events).channel.capture.stdout) ∧
    (Run.after limits inputLimit events).channel.handed.length ≤ inputLimit ∧
    PartsOf (Run.after limits inputLimit events).channel.handed (Run.after limits inputLimit events).accepted := by
  have h := sound_after limits inputLimit events
  refine ⟨h.captured, h.eof, ?_, h.empty_read, ?_, h.handed⟩
  · rw [h.pieces]
    exact List.take_prefix _ _
  · have parts := h.handed.length_le
    obtain ⟨sum, below⟩ := h.spent
    omega

end ProcessPump

end Constructicon
