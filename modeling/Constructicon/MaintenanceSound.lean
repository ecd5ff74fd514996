import Constructicon.MaintenanceMode

/-!
# What a maintenance observation is evidence of

Along a conversation its fields go together as the observation wants them, wherever it stops. What it has
read is what it has processed, what it holds in its buffers and nothing else, so a conversation that
completes has read a reply to each of its requests, a few inert notifications, and the end of the
stream after it closed the input.
-/

namespace Constructicon

namespace MaintenanceMode

open Proc PyJson ClaudeProtocol

/-! ## What has happened -/

def Event.chunk : Event → List UInt8
  | .received chunk => chunk
  | _ => []

def received (log : List Event) : List UInt8 := log.flatMap Event.chunk

def Event.record? : Event → Option (List UInt8)
  | .notified record => some record
  | .classified _ record _ _ => some record
  | _ => none

def processed (log : List Event) : List (List UInt8) := log.filterMap Event.record?

def Event.notice? : Event → Option (List UInt8)
  | .notified record => some record
  | _ => none

def notices (log : List Event) : List (List UInt8) := log.filterMap Event.notice?

def Event.isWrite : Event → Bool
  | .wrote _ => true
  | _ => false

def Event.isReply : Event → Bool
  | .classified _ _ _ _ => true
  | _ => false

def Event.isMilestone : Event → Bool
  | .wrote _ => true
  | .classified _ _ _ _ => true
  | .closing => true
  | .closed => true
  | _ => false

def milestones (log : List Event) : List Event := log.filter Event.isMilestone

theorem received_snoc (log : List Event) (e : Event) : received (log ++ [e]) = received log ++ e.chunk := by
  simp [received]

theorem processed_snoc (log : List Event) (e : Event) :
    processed (log ++ [e]) = processed log ++ e.record?.toList := by
  unfold processed
  rw [List.filterMap_append]
  cases found : e.record? <;> simp [found]

theorem notices_snoc (log : List Event) (e : Event) : notices (log ++ [e]) = notices log ++ e.notice?.toList := by
  unfold notices
  rw [List.filterMap_append]
  cases found : e.notice? <;> simp [found]

theorem milestones_snoc (log : List Event) (e : Event) :
    milestones (log ++ [e]) = milestones log ++ if e.isMilestone then [e] else [] := by
  unfold milestones
  rw [List.filter_append, List.filter_singleton, Bool.cond_eq_ite]

def IsRecord (record : List UInt8) : Prop := ∃ line, lineFeed ∉ line ∧ record = line ++ [lineFeed]

variable {φ : Type}

def Inert (k : Setup φ) (record : List UInt8) : Prop :=
  ∃ value, parseRecord k.floats record = some value ∧ exactInertNotification value = true

/-! ## The fields go together -/

/-- What the constructor of the observation checks, less the lifecycle. -/
structure Sane (k : Setup φ) (s : Session) : Prop where
  diagnostics : initializeDiagnosticsValid s.modeVerdict s.modeMismatchReason s.tokenSourceCategory
    s.apiKeySourceCategory = true
  writes : s.requestWrites ≤ k.phase.writes
  classified : s.classifiedResponses ≤ s.requestWrites
  judged : 0 < s.classifiedResponses ↔ s.modeVerdict ≠ none
  rejected : s.refusalCode = some .uiRecord ↔ s.rejectedSystemCategory ≠ none
  few : s.uiRecords ≤ uiRecordLimit

theorem Sane.latch {k : Setup φ} {s : Session} (h : Sane k s) {code : RefusalCode}
    {category : Option SystemRecordCategory} (told : code = .uiRecord ↔ category ≠ none) : Sane k (s.latch code category) := by
  unfold Session.latch
  split_ifs with first
  · refine ⟨h.diagnostics, h.writes, h.classified, h.judged, ?_, h.few⟩
    simpa using told
  · exact h

theorem Sane.report {k : Setup φ} {s : Session} (h : Sane k s) (lifecycle : MaintenanceLifecycle) :
    (s.report k.phase lifecycle).coherent := by
  refine ⟨h.diagnostics, h.writes, ?_, ?_, h.rejected, h.few⟩
  · intro n same
    cases same
    exact ⟨h.classified, h.judged⟩
  · intro _ none
    cases none

/-! ## What has been read and what is held -/

def Event.verdict? : Event → Option InitializeVerdict
  | .classified _ _ o _ => some o.verdict
  | _ => none

def lastVerdict (ms : List Event) : Option InitializeVerdict := (ms.filterMap Event.verdict?).getLast?

/-- What a log accounts for: after the milestones `ms` all that was received has been processed, or is in `hand`, or
in the buffers. The log has `P`. -/
structure Account (k : Setup φ) (P : List Event → Prop) (ms : List Event) (hand : List (List UInt8)) (log : List Event)
    (records : List (List UInt8)) (buffer : List UInt8) (eof : Bool) : Prop where
  kept : P log
  marked : milestones log = ms
  stream : received log = (processed log ++ hand ++ records).flatten ++ buffer
  whole : ∀ record ∈ processed log ++ hand ++ records, IsRecord record
  ended : .ended ∈ log ↔ eof = true
  inert : ∀ record ∈ notices log, Inert k record

theorem Account.note {k : Setup φ} {P P' : List Event → Prop} {ms log : List Event} {hand records : List (List UInt8)}
    {buffer : List UInt8} {eof eof' : Bool} {e : Event}
    (h : Account k P ms (e.record?.toList ++ hand) log records buffer eof) (kept : P' (log ++ [e]))
    (stream : eof' = true ↔ eof = true ∨ .ended = e) (inert : ∀ record ∈ e.notice?, Inert k record) :
    Account k P' (ms ++ if e.isMilestone then [e] else []) hand (log ++ [e]) records (buffer ++ e.chunk) eof' where
  kept := kept
  marked := by rw [milestones_snoc, h.marked]
  stream := by
    rw [received_snoc, processed_snoc, h.stream]
    simp only [List.append_assoc]
  whole := by
    rw [processed_snoc]
    intro record mem
    apply h.whole
    simpa only [List.append_assoc] using mem
  ended := by rw [stream, ← h.ended, List.mem_append, List.mem_singleton]
  inert := by
    intro record mem
    rw [notices_snoc] at mem
    rcases List.mem_append.mp mem with old | new
    · exact h.inert record old
    · exact inert record (Option.mem_toList.mp new)

section Notes

variable {k : Setup φ} {P P' : List Event → Prop} {ms log : List Event} {hand records : List (List UInt8)}
  {buffer : List UInt8} {eof eof' : Bool} {e : Event}

theorem Account.silent (h : Account k P ms hand log records buffer eof)
    (quiet : e.record? = none ∧ e.notice? = none ∧ e.isMilestone = false) (kept : P' (log ++ [e]))
    (stream : eof' = true ↔ eof = true ∨ .ended = e) :
    Account k P' ms hand (log ++ [e]) records (buffer ++ e.chunk) eof' := by
  obtain ⟨noRecord, noNotice, aside⟩ := quiet
  have before : Account k P ms (e.record?.toList ++ hand) log records buffer eof := by
    rw [noRecord]
    exact h
  have after := before.note kept stream (by simp [noNotice])
  rwa [aside, if_neg Bool.false_ne_true, List.append_nil] at after

theorem Account.milestone (h : Account k P ms (e.record?.toList ++ hand) log records buffer eof)
    (mark : e.isMilestone = true) (bytes : e.chunk = []) (notice : e.notice? = none) (kept : P' (log ++ [e])) :
    Account k P' (ms ++ [e]) hand (log ++ [e]) records buffer eof := by
  have going : Event.ended ≠ e := by
    rintro rfl
    cases mark
  have after : Account k P' (ms ++ if e.isMilestone then [e] else []) hand (log ++ [e]) records (buffer ++ e.chunk) eof :=
    h.note kept (by simp [going]) (by simp [notice])
  rwa [mark, if_pos rfl, bytes, List.append_nil] at after

end Notes

/-- The session after the milestones `ms`, with the records in `hand` taken but not processed. -/
structure Held (k : Setup φ) (P : List Event → Prop) (ms : List Event) (hand : List (List UInt8)) (s : Session) : Prop
    extends Sane k s where
  account : Account k P ms hand s.log s.records s.buffer s.eof
  written : s.requestWrites = ms.countP Event.isWrite
  replied : s.classifiedResponses = ms.countP Event.isReply
  known : ∀ id, id ∈ s.ids ↔ .wrote id ∈ ms
  verdict : s.modeVerdict = lastVerdict ms
  shut : s.stdinClosed = true ↔ .closed ∈ ms
  counted : (notices s.log).length = s.uiRecords
  clean : s.state = .running → s.refusalCode = none

def Lasting (P : List Event → Prop) : Prop := ∀ log e, P log → P (log ++ [e])

section Steps

variable {k : Setup φ} {P P' : List Event → Prop} {ms : List Event} {hand : List (List UInt8)} {s : Session}

theorem Held.other (h : Held k P ms hand s) (kept : P' s.log) : Held k P' ms hand s :=
  { h with account := { h.account with kept := kept } }

theorem Held.lasts (h : Held k P ms hand s) (lasts : Lasting P) (e : Event) : P (s.log ++ [e]) :=
  lasts _ _ h.account.kept

theorem Held.same (h : Held k P ms hand s) (asked outputBytes : ℕ) (reader : Bool) :
    Held k P ms hand { s with asked := asked, outputBytes := outputBytes, reader := reader } :=
  ⟨⟨h.diagnostics, h.writes, h.classified, h.judged, h.rejected, h.few⟩, h.account, h.written, h.replied, h.known,
    h.verdict, h.shut, h.counted, h.clean⟩

theorem Held.tick (h : Held k P ms hand s) (now : ℚ) (kept : P' (s.log ++ [.tick now])) :
    Held k P' ms hand (s.note (.tick now)) := by
  have account : Account k P' ms hand (s.log ++ [.tick now]) s.records (s.buffer ++ []) s.eof :=
    h.account.silent (e := .tick now) ⟨rfl, rfl, rfl⟩ kept (by simp)
  rw [List.append_nil] at account
  refine ⟨⟨h.diagnostics, h.writes, h.classified, h.judged, h.rejected, h.few⟩, account, h.written, h.replied,
    h.known, h.verdict, h.shut, ?_, h.clean⟩
  have counted := h.counted
  simpa [Session.note, notices_snoc, Event.notice?] using counted

theorem Held.received (h : Held k P ms hand s) (lasts : Lasting P) (chunk : List UInt8) :
    Held k P ms hand { s.note (.received chunk) with buffer := s.buffer ++ chunk } := by
  have account : Account k P ms hand (s.log ++ [.received chunk]) s.records (s.buffer ++ chunk) s.eof :=
    h.account.silent (e := .received chunk) ⟨rfl, rfl, rfl⟩ (h.lasts lasts _) (by simp)
  refine ⟨⟨h.diagnostics, h.writes, h.classified, h.judged, h.rejected, h.few⟩, account, h.written, h.replied,
    h.known, h.verdict, h.shut, ?_, h.clean⟩
  have counted := h.counted
  simpa [Session.note, notices_snoc, Event.notice?] using counted

theorem Held.endOfStream (h : Held k P ms hand s) (lasts : Lasting P) :
    Held k P ms hand { s.note .ended with eof := true } := by
  have account : Account k P ms hand (s.log ++ [.ended]) s.records (s.buffer ++ []) true :=
    h.account.silent (e := .ended) ⟨rfl, rfl, rfl⟩ (h.lasts lasts _) (by simp)
  rw [List.append_nil] at account
  refine ⟨⟨h.diagnostics, h.writes, h.classified, h.judged, h.rejected, h.few⟩, account, h.written, h.replied,
    h.known, h.verdict, h.shut, ?_, h.clean⟩
  have counted := h.counted
  simpa [Session.note, notices_snoc, Event.notice?] using counted

theorem Held.framed (h : Held k P ms hand s) {line rest : List UInt8} (plain : lineFeed ∉ line)
    (first : s.buffer = line ++ lineFeed :: rest) :
    Held k P ms hand { s with
      records := s.records ++ [line ++ [lineFeed]], buffer := s.buffer.drop (line.length + 1) } := by
  have left : s.buffer.drop (line.length + 1) = rest := by
    rw [first, List.drop_append]
    simp
  refine ⟨⟨h.diagnostics, h.writes, h.classified, h.judged, h.rejected, h.few⟩, ?_, h.written, h.replied, h.known,
    h.verdict, h.shut, h.counted, h.clean⟩
  refine ⟨h.account.kept, h.account.marked, ?_, ?_, h.account.ended, h.account.inert⟩
  · rw [h.account.stream, left, first]
    simp
  · intro record mem
    rw [← List.append_assoc] at mem
    rcases List.mem_append.mp mem with old | new
    · exact h.account.whole record old
    · exact ⟨line, plain, List.mem_singleton.mp new⟩

theorem Held.calledAgain (h : Held k P ms hand s) : Held k P ms hand s.callAgain := by
  have sane : Sane k (s.latch .state none) := h.toSane.latch (by simp)
  unfold Session.callAgain
  unfold Session.latch at sane ⊢
  split_ifs at sane ⊢
  · exact ⟨⟨sane.diagnostics, sane.writes, sane.classified, sane.judged, sane.rejected, sane.few⟩, h.account,
      h.written, h.replied, h.known, h.verdict, h.shut, h.counted, by simp⟩
  · exact ⟨⟨sane.diagnostics, sane.writes, sane.classified, sane.judged, sane.rejected, sane.few⟩, h.account,
      h.written, h.replied, h.known, h.verdict, h.shut, h.counted, by simp⟩

theorem Held.taken (h : Held k P ms [] s) {record : List UInt8} {records : List (List UInt8)}
    (first : s.records = record :: records) : Held k P ms [record] { s with records := records } := by
  have stream := h.account.stream
  have whole := h.account.whole
  rw [first] at stream whole
  refine ⟨⟨h.diagnostics, h.writes, h.classified, h.judged, h.rejected, h.few⟩, ?_, h.written, h.replied, h.known,
    h.verdict, h.shut, h.counted, h.clean⟩
  refine ⟨h.account.kept, h.account.marked, ?_, ?_, h.account.ended, h.account.inert⟩
  · simpa using stream
  · simpa using whole

theorem Held.notified {record : List UInt8} (h : Held k P ms [record] s) (lasts : Lasting P) (inert : Inert k record)
    (few : s.uiRecords < uiRecordLimit) :
    Held k P ms [] { s.note (.notified record) with uiRecords := s.uiRecords + 1 } := by
  have account : Account k P (ms ++ []) [] (s.log ++ [.notified record]) s.records (s.buffer ++ []) s.eof :=
    Account.note (e := .notified record) h.account (h.lasts lasts _) (by simp) (by simpa [Event.notice?] using inert)
  rw [List.append_nil, List.append_nil] at account
  refine ⟨⟨h.diagnostics, h.writes, h.classified, h.judged, h.rejected, few⟩, account, h.written, h.replied, h.known,
    h.verdict, h.shut, ?_, h.clean⟩
  have counted := h.counted
  simpa [Session.note, notices_snoc, Event.notice?] using counted

theorem Held.replies {record : List UInt8} (h : Held k P ms [record] s) (lasts : Lasting P) (identifier : String)
    (o : InitializeObservation) (receivedAt : ℚ) (asked : ms.countP Event.isReply < ms.countP Event.isWrite) :
    Held k P (ms ++ [.classified identifier record o receivedAt]) []
      ((s.classify o).note (.classified identifier record o receivedAt)) := by
  have account := Account.milestone (e := .classified identifier record o receivedAt) h.account rfl rfl rfl
    (h.lasts lasts _)
  refine ⟨⟨o.valid, h.writes, ?_, ?_, h.rejected, h.few⟩, account, ?_, ?_, ?_, ?_, ?_, ?_, h.clean⟩
  · change s.classifiedResponses + 1 ≤ s.requestWrites
    rw [h.replied, h.written]
    exact asked
  · simp [Session.note, Session.classify]
  · have written := h.written
    simpa [Session.note, Session.classify, Event.isWrite] using written
  · have replied := h.replied
    simpa [Session.note, Session.classify, Event.isReply] using replied
  · have known := h.known
    simpa [Session.note, Session.classify] using known
  · simp [Session.note, Session.classify, lastVerdict, Event.verdict?]
  · have shut := h.shut
    simpa [Session.note, Session.classify] using shut
  · have counted := h.counted
    simpa [Session.note, Session.classify, notices_snoc, Event.notice?] using counted

theorem Held.spent (h : Held k P ms hand s) (identifier : String) (room : s.requestWrites < k.phase.writes)
    (kept : P' (s.log ++ [.wrote identifier])) :
    Held k P' (ms ++ [.wrote identifier]) hand (s.spend identifier) := by
  have account := Account.milestone (e := .wrote identifier) h.account rfl rfl rfl kept
  refine ⟨⟨h.diagnostics, room, ?_, h.judged, h.rejected, h.few⟩, account, ?_, ?_, ?_, ?_, ?_, ?_, h.clean⟩
  · exact h.classified.trans (Nat.le_succ _)
  · have written := h.written
    simpa [Session.spend, Session.note, Event.isWrite] using written
  · have replied := h.replied
    simpa [Session.spend, Session.note, Event.isReply] using replied
  · intro id
    have known := h.known id
    simp [Session.spend, Session.note, known, or_comm]
  · have verdict := h.verdict
    simpa [Session.spend, Session.note, lastVerdict, Event.verdict?] using verdict
  · have shut := h.shut
    simpa [Session.spend, Session.note] using shut
  · have counted := h.counted
    simpa [Session.spend, Session.note, notices_snoc, Event.notice?] using counted

theorem Held.closes (h : Held k P ms hand s) {e : Event} {stdinClosed : Bool} (kept : P' (s.log ++ [e]))
    (closes : e = .closing ∧ stdinClosed = s.stdinClosed ∨ e = .closed ∧ stdinClosed = true) :
    Held k P' (ms ++ [e]) hand { s.note e with stdinClosed := stdinClosed } := by
  have account : Account k P' (ms ++ [e]) hand (s.log ++ [e]) s.records s.buffer s.eof := by
    rcases closes with ⟨rfl, -⟩ | ⟨rfl, -⟩
    · exact Account.milestone h.account rfl rfl rfl kept
    · exact Account.milestone h.account rfl rfl rfl kept
  have kind : e.isWrite = false ∧ e.isReply = false ∧ e.verdict? = none ∧ e.notice? = none ∧ ∀ id, e ≠ .wrote id := by
    rcases closes with ⟨rfl, -⟩ | ⟨rfl, -⟩ <;> simp [Event.isWrite, Event.isReply, Event.verdict?, Event.notice?]
  obtain ⟨noWrite, noReply, noVerdict, noNotice, other⟩ := kind
  refine ⟨⟨h.diagnostics, h.writes, h.classified, h.judged, h.rejected, h.few⟩, account, ?_, ?_, ?_, ?_, ?_, ?_,
    h.clean⟩
  · have written := h.written
    simpa [Session.note, noWrite] using written
  · have replied := h.replied
    simpa [Session.note, noReply] using replied
  · intro id
    have known := h.known id
    simpa [Session.note, (other id).symm] using known
  · have verdict := h.verdict
    simpa [Session.note, lastVerdict, noVerdict] using verdict
  · have shut := h.shut
    rcases closes with ⟨rfl, rfl⟩ | ⟨rfl, rfl⟩ <;> simp [shut]
  · have counted := h.counted
    simpa [Session.note, notices_snoc, noNotice] using counted

end Steps

/-! ## What each procedure leaves -/

def Left (k : Setup φ) : Raised → Session → Prop := fun _ s => Sane k s

def Ticking (P : List Event → Prop) : Prop := ∀ log now, P log → P (log ++ [.tick now])

theorem Lasting.ticking {P : List Event → Prop} (h : Lasting P) : Ticking P := fun log now => h log (.tick now)

def Running (k : Setup φ) (P : List Event → Prop) (ms : List Event) (hand : List (List UInt8)) (s : Session) : Prop :=
  Held k P ms hand s ∧ s.state = .running

section Specs

variable (k : Setup φ) (w : Surroundings) {P : List Event → Prop} {ms : List Event} {hand : List (List UInt8)}

variable {k} in
theorem ask_spec {α : Type} {R G : Session → Prop} {E : Raised → Session → Prop} (answers : ℕ → α)
    (gain : ∀ s n, R s → G { s with asked := n }) : Triple R (ask answers) (fun _ => G) E := by
  intro s held
  constructor
  · intro a same
    exact gain s _ held
  · intro e same
    cases same

theorem monotonic_spec {R : Session → Prop} {G : ℚ → Session → Prop} {E : Raised → Session → Prop}
    (gain : ∀ s n now, R s → G now ({ s with asked := n }.note (.tick now))) : Triple R (monotonic w) G E := by
  refine Triple.bind (ask_spec (G := fun s => ∃ s' n, R s' ∧ s = { s' with asked := n }) w.clock
    fun s n held => ⟨s, n, held, rfl⟩) fun now => ?_
  refine Triple.bind (Q := fun _ => G now) (Triple.update ?_) fun _ => Triple.answer fun _ held => held
  rintro s ⟨s', n, held, rfl⟩
  exact gain s' n now held

variable {k}

theorem stop_spec {α : Type} {R : Session → Prop} {Q : α → Session → Prop} {code : RefusalCode} {raised : Raised}
    (sane : ∀ s, R s → Sane k s) (other : code ≠ .uiRecord) : Triple R (stop code raised) Q (Left k) := by
  refine Triple.bind (Q := fun _ => Sane k) (Triple.update ?_) fun _ => Triple.fail fun _ held => held
  intro s held
  exact (sane s held).latch (by simp [other])

theorem stopIf_spec {c : Prop} [Decidable c] {R : Session → Prop} {Q : Unit → Session → Prop} {code : RefusalCode}
    {raised : Raised} (sane : ∀ s, R s → Sane k s) (other : code ≠ .uiRecord) (passed : ¬c → ∀ s, R s → Q () s) :
    Triple R (stopIf c code raised) Q (Left k) :=
  Triple.ite (fun _ => stop_spec sane other) fun fails => Triple.answer (passed fails)

theorem stopIf_keeps {c : Prop} [Decidable c] {R : Session → Prop} {code : RefusalCode} {raised : Raised}
    (sane : ∀ s, R s → Sane k s) (other : code ≠ .uiRecord) :
    Triple R (stopIf c code raised) (fun _ => R) (Left k) :=
  stopIf_spec sane other fun _ _ held => held

theorem ask_held {α : Type} (answers : ℕ → α) :
    Triple (Held k P ms hand) (ask answers) (fun _ => Held k P ms hand) (Left k) :=
  ask_spec answers fun s n held => held.same n s.outputBytes s.reader

variable (k)

theorem check_keeps {R : Session → Prop} (sane : ∀ s, R s → Sane k s) (asks : ∀ s n, R s → R { s with asked := n })
    (ticks : ∀ s now, R s → R (s.note (.tick now))) :
    Triple R (check k w) (fun _ s => R s ∧ s.state = .running) (Left k) := by
  refine Triple.bind (ask_spec w.cancelling asks) fun cancelling => ?_
  refine Triple.bind (Q := fun _ => R) (Triple.failIf (fun _ s held => sane s held) fun _ s held => held) fun _ => ?_
  refine Triple.look fun s held => ?_
  refine Triple.bind (Q := fun _ s => R s ∧ s.state = .running) (stopIf_spec ?_ (by decide) ?_) fun _ => ?_
  · rintro _ rfl
    exact sane _ held
  · rintro running _ rfl
    exact ⟨held, not_not.mp running⟩
  refine Triple.bind (Q := fun _ s => R s ∧ s.state = .running) (monotonic_spec w ?_) fun now => ?_
  · intro s' n now running
    exact ⟨ticks _ now (asks s' n running.1), running.2⟩
  · exact stopIf_keeps (fun s running => sane s running.1) (by decide)

theorem check_spec (ticking : Ticking P) :
    Triple (Held k P ms hand) (check k w) (fun _ => Running k P ms hand) (Left k) :=
  check_keeps k w (fun _ held => held.toSane) (fun s n held => held.same n s.outputBytes s.reader)
    fun _ now held => held.tick now (ticking _ _ held.account.kept)

theorem suspend_spec : Triple (Held k P ms hand) (suspend w) (fun _ => Held k P ms hand) (Left k) := by
  refine Triple.bind (ask_held w.calledAgain) fun again => Triple.update fun s held => ?_
  cases again with
  | true => exact held.calledAgain
  | false => exact held

theorem finish_spec (ended : Finish) :
    Triple (Held k P ms hand) (finish ended) (fun _ => Held k P ms hand) (Left k) := by
  cases ended with
  | done => exact Triple.answer fun _ held => held
  | failed => exact Triple.fail fun _ held => held.toSane
  | cancelled => exact Triple.fail fun _ held => held.toSane

theorem await_spec (operation : ℕ → Finish) :
    Triple (Held k P ms hand) (await w operation) (fun _ => Held k P ms hand) (Left k) :=
  Triple.bind (suspend_spec k w) fun _ => Triple.bind (ask_held operation) fun ended => finish_spec k ended

/-! ### Reading -/

theorem frames_spec (lines : List (List UInt8)) (plain : ∀ line ∈ lines, lineFeed ∉ line) :
    Triple (fun s => Held k P ms hand s ∧ ∃ rest, s.buffer = Lines.join lineFeed lines rest) (frames lines)
      (fun _ => Held k P ms hand) (Left k) := by
  induction lines with
  | nil => exact Triple.answer fun _ held => held.1
  | cons line lines ih =>
    refine Triple.bind (stopIf_keeps (fun s held => held.1.toSane) (by decide)) fun _ => ?_
    refine Triple.updated ?_ (ih fun l mem => plain l (List.mem_cons_of_mem _ mem))
    rintro s ⟨held, rest, buffer⟩
    have first : s.buffer = line ++ lineFeed :: Lines.join lineFeed lines rest := buffer
    refine ⟨held.framed (plain line List.mem_cons_self) first, rest, ?_⟩
    change s.buffer.drop (line.length + 1) = _
    rw [first, List.drop_append]
    simp

theorem receiveBytes_spec (lasts : Lasting P) (chunk : List UInt8) :
    Triple (Held k P ms hand) (receiveBytes chunk) (fun _ => Held k P ms hand) (Left k) := by
  refine Triple.updated (I := Held k P ms hand) (fun s held => held.received lasts chunk) ?_
  refine Triple.look fun s held => ?_
  refine Triple.bind (Q := fun _ => Held k P ms hand) ?_ fun _ => ?_
  · refine (frames_spec k _ (Lines.cut_plain s.buffer).1).weaken ?_
    rintro _ rfl
    exact ⟨held, _, (Lines.join_cut lineFeed _).symm⟩
  refine Triple.look fun s held => ?_
  refine Triple.bind (Q := fun _ => Held k P ms hand) (stopIf_spec ?_ (by decide) ?_) fun _ => ?_
  · rintro _ rfl
    exact held.toSane
  · rintro _ _ rfl
    exact held
  · exact Triple.update fun s held => held.same s.asked s.outputBytes true

theorem receive_spec (lasts : Lasting P) (chunk : Option (List UInt8)) :
    Triple (Held k P ms hand) (receive k chunk) (fun _ => Held k P ms hand) (Left k) := by
  cases chunk with
  | none => exact stop_spec (fun _ held => held.toSane) (by decide)
  | some chunk =>
    refine Triple.bind (stopIf_keeps (fun _ held => held.toSane) (by decide)) fun _ => ?_
    refine Triple.updated (I := Held k P ms hand)
      (fun s held => held.same s.asked (s.outputBytes + chunk.length) s.reader) ?_
    refine Triple.look fun s held => ?_
    refine Triple.bind (Q := fun _ => Held k P ms hand) (stopIf_spec ?_ (by decide) ?_) fun _ => ?_
    · rintro _ rfl
      exact held.toSane
    · rintro _ _ rfl
      exact held
    · exact Triple.ite (fun _ => Triple.update fun s held => held.endOfStream lasts) fun _ => receiveBytes_spec k lasts chunk

theorem arrived_spec (result : ReadResult) :
    Triple (Held k P ms hand) (arrived result) (fun _ => Held k P ms hand) (Left k) := by
  cases result with
  | bytes chunk => exact Triple.answer fun _ held => held
  | notBytes => exact Triple.answer fun _ held => held
  | failed => exact stop_spec (fun _ held => held.toSane) (by decide)
  | cancelled => exact Triple.fail fun _ held => held.toSane

theorem auditLoop_spec (lasts : Lasting P) (n : ℕ) :
    Triple (Held k P ms hand) (auditLoop k w n) (fun _ => Held k P ms hand) (Left k) := by
  induction n with
  | zero => exact Triple.fail fun _ held => held.toSane
  | succ n ih =>
    refine Triple.bind (ask_held w.readDone) fun done => ?_
    refine Triple.look fun s held => ?_
    refine Triple.ite (fun _ => ?_) fun _ => Triple.answer ?_
    · refine Triple.updated (I := Held k P ms hand) ?_ ?_
      · rintro s rfl
        exact held.same s.asked s.outputBytes false
      · exact Triple.bind (ask_held w.read) fun result => Triple.bind (arrived_spec k result) fun chunk =>
          Triple.bind (receive_spec k lasts chunk) fun _ => ih
    · rintro _ rfl
      exact held

theorem audit_spec (lasts : Lasting P) :
    Triple (Held k P ms hand) (audit k w) (fun _ => Held k P ms hand) (Left k) :=
  Triple.bind ((check_spec k w lasts.ticking).strengthen fun _ _ running => running.1) fun _ =>
    auditLoop_spec k w lasts w.rounds

theorem awaitRead_spec (lasts : Lasting P) :
    Triple (Held k P ms hand) (awaitRead k w) (fun _ => Held k P ms hand) (Left k) := by
  refine Triple.bind (suspend_spec k w) fun _ => ?_
  refine Triple.bind (ask_held w.read) fun result => Triple.bind (arrived_spec k result) fun chunk => ?_
  refine Triple.updated (I := Held k P ms hand) (fun s held => held.same s.asked s.outputBytes false) ?_
  refine Triple.bind ((check_spec k w lasts.ticking).strengthen fun _ _ running => running.1) fun _ => ?_
  exact receive_spec k lasts chunk

theorem nextUi_spec (lasts : Lasting P) :
    Triple (Held k P ms hand) (nextUi k w) (fun _ => Held k P ms hand) (Left k) := by
  refine Triple.look fun s held => ?_
  refine Triple.bind (Q := fun _ => Held k P ms hand) (stopIf_spec ?_ (by decide) ?_) fun _ => awaitRead_spec k w lasts
  · rintro _ rfl
    exact held.toSane
  · rintro _ _ rfl
    exact held

theorem nextRecordLoop_spec (lasts : Lasting P) (n : ℕ) :
    Triple (Held k P ms []) (nextRecordLoop k w n) (fun record => Held k P ms [record]) (Left k) := by
  induction n with
  | zero => exact Triple.fail fun _ held => held.toSane
  | succ n ih =>
    refine Triple.look fun s held => ?_
    cases waiting : s.records with
    | cons record records =>
      refine Triple.updated (I := Held k P ms [record]) ?_ (Triple.answer fun _ held => held)
      rintro _ rfl
      exact held.taken waiting
    | nil =>
      refine Triple.bind (Q := fun _ => Held k P ms []) (stopIf_spec ?_ (by decide) ?_) fun _ => ?_
      · rintro _ rfl
        exact held.toSane
      · rintro _ _ rfl
        exact held
      refine Triple.bind (stopIf_keeps (fun _ held => held.toSane) (by decide)) fun _ => ?_
      exact Triple.bind (awaitRead_spec k w lasts) fun _ => ih

theorem nextRecord_spec (lasts : Lasting P) :
    Triple (Held k P ms []) (nextRecord k w) (fun record => Held k P ms [record]) (Left k) :=
  Triple.bind (audit_spec k w lasts) fun _ => nextRecordLoop_spec k w lasts w.rounds

/-! ### Records -/

/-- What `_ui` says of the record in the hand; the records behind it wait. -/
def Sorted (k : Setup φ) (P : List Event → Prop) (ms : List Event) (record : List UInt8) (rest : List (List UInt8))
    (inert : Bool) (s : Session) : Prop :=
  (inert = true ∧ Held k P ms [] s ∨ inert = false ∧ Held k P ms [record] s) ∧ s.records = rest

theorem uiValue_spec (lasts : Lasting P) {record : List UInt8} {value : Json} (rest : List (List UInt8))
    (parsed : parseRecord k.floats record = some value) :
    Triple (fun s => Held k P ms [record] s ∧ s.records = rest) (uiValue record value)
      (Sorted k P ms record rest) (Left k) := by
  refine Triple.ite (fun _ => ?_) fun _ => Triple.answer fun s held => ⟨.inr ⟨rfl, held.1⟩, held.2⟩
  refine Triple.look fun s held => ?_
  refine Triple.ite (fun _ => ?_) fun fits => ?_
  · refine Triple.bind (Q := fun _ => Sane k) (Triple.update ?_) fun _ => Triple.fail fun _ sane => sane
    rintro s rfl
    exact held.1.toSane.latch (by simp)
  · obtain ⟨inert, few⟩ := not_or.mp fits
    refine Triple.updated (I := Sorted k P ms record rest true) ?_ (Triple.answer fun _ sorted => sorted)
    rintro s rfl
    exact ⟨.inl ⟨rfl, held.1.notified lasts ⟨value, parsed, not_not.mp inert⟩ (not_le.mp few)⟩, held.2⟩

theorem ui_spec (lasts : Lasting P) (record : List UInt8) (rest : List (List UInt8)) :
    Triple (fun s => Held k P ms [record] s ∧ s.records = rest) (ui k record)
      (Sorted k P ms record rest) (Left k) := by
  refine Triple.bind (stopIf_keeps (fun _ held => held.1.toSane) (by decide)) fun _ => ?_
  cases parsed : parseRecord k.floats record with
  | none => exact stop_spec (fun _ held => held.1.toSane) (by decide)
  | some value => exact uiValue_spec k lasts rest parsed

theorem consumeLoop_spec (lasts : Lasting P) (records : List (List UInt8)) :
    Triple (fun s => Held k P ms [] s ∧ s.records = records) (consumeLoop k records)
      (fun _ s => Held k P ms [] s ∧ s.records = []) (Left k) := by
  induction records with
  | nil => exact Triple.answer fun _ held => held
  | cons record records ih =>
    refine Triple.updated (I := fun s => Held k P ms [record] s ∧ s.records = records)
      (fun s held => ⟨held.1.taken held.2, rfl⟩) ?_
    refine Triple.bind (ui_spec k lasts record records) fun inert => ?_
    refine Triple.bind (Q := fun _ s => Held k P ms [] s ∧ s.records = records) (stopIf_spec ?_ (by decide) ?_)
      fun _ => ih
    · rintro s ⟨⟨-, held⟩ | ⟨-, held⟩, -⟩
      · exact held.toSane
      · exact held.toSane
    · rintro passed s ⟨⟨-, held⟩ | ⟨same, -⟩, rest⟩
      · exact ⟨held, rest⟩
      · exact absurd same passed

theorem consumeUiRecords_spec (lasts : Lasting P) :
    Triple (Held k P ms []) (consumeUiRecords k) (fun _ s => Held k P ms [] s ∧ s.records = []) (Left k) := by
  refine Triple.look fun s held => (consumeLoop_spec k lasts s.records).weaken ?_
  rintro s rfl
  exact ⟨held, rfl⟩

/-! ### Replies -/

/-- A reply to `identifier` is classified: it matches, or it is the first and ambiguous. -/
def Replied (k : Setup φ) (P : List Event → Prop) (ms : List Event) (identifier : String) (a : Bool × ℚ)
    (s : Session) : Prop :=
  ∃ record o, observeInitialize k.floats k.alphanumeric record identifier = some o ∧
    Held k P (ms ++ [.classified identifier record o a.2]) [] s ∧
      (a.1 = true ∧ o.verdict = .modeMatch ∨
        a.1 = false ∧ k.phase = .observe ∧ ms.countP Event.isWrite = 1 ∧ o.reason = some .ambiguousApi)

theorem judged_spec (lasts : Lasting P) {identifier : String} {record : List UInt8} {o : InitializeObservation}
    (observed : observeInitialize k.floats k.alphanumeric record identifier = some o)
    (asked : ms.countP Event.isReply < ms.countP Event.isWrite) :
    Triple (Held k P ms [record]) (judged k w identifier record o) (Replied k P ms identifier) (Left k) := by
  refine Triple.updated (I := fun s => ∃ s', Held k P ms [record] s' ∧ s = s'.classify o)
    (fun s held => ⟨s, held, rfl⟩) ?_
  refine Triple.bind (Q := fun _ s => ∃ s', Held k P ms [record] s' ∧ s = s'.classify o) (monotonic_spec w ?_)
    fun receivedAt => ?_
  · rintro _ n now ⟨s', held, rfl⟩
    exact ⟨{ s' with asked := n }.note (.tick now),
      (held.same n s'.outputBytes s'.reader).tick now (held.lasts lasts _), rfl⟩
  refine Triple.updated (I := Held k P (ms ++ [.classified identifier record o receivedAt]) []) ?_ ?_
  · rintro _ ⟨s', held, rfl⟩
    exact held.replies lasts identifier o receivedAt asked
  refine Triple.look fun s held => ?_
  refine Triple.ite (fun matched => Triple.answer ?_) fun _ => ?_
  · rintro s rfl
    exact ⟨record, o, observed, held, .inl ⟨rfl, matched⟩⟩
  refine Triple.ite (fun ambiguous => Triple.answer ?_) fun _ => ?_
  · obtain ⟨phase, first, reason⟩ := ambiguous
    rintro s rfl
    have written := held.written
    have one : ms.countP Event.isWrite = 1 := by
      rw [first] at written
      simpa [Event.isWrite] using written.symm
    exact ⟨record, o, observed, held, .inr ⟨rfl, phase, one, reason⟩⟩
  · refine stop_spec ?_ (by decide)
    rintro s rfl
    exact held.toSane

theorem classifyRecord_spec (lasts : Lasting P) (identifier : String) (record : List UInt8)
    (asked : ms.countP Event.isReply < ms.countP Event.isWrite) :
    Triple (Held k P ms [record]) (classifyRecord k w identifier record) (Replied k P ms identifier) (Left k) := by
  unfold classifyRecord
  cases observed : observeInitialize k.floats k.alphanumeric record identifier with
  | none => exact Triple.fail fun _ held => held.toSane
  | some o => exact judged_spec k w lasts observed asked

theorem responseLoop_spec (lasts : Lasting P) (identifier : String)
    (asked : ms.countP Event.isReply < ms.countP Event.isWrite) (n : ℕ) :
    Triple (Held k P ms []) (responseLoop k w identifier n) (Replied k P ms identifier) (Left k) := by
  induction n with
  | zero => exact Triple.fail fun _ held => held.toSane
  | succ n ih =>
    refine Triple.bind (nextRecord_spec k w lasts) fun record => ?_
    refine Triple.bind (Q := fun inert s => ∃ rest, Sorted k P ms record rest inert s) ?_ fun inert => ?_
    · intro s held
      obtain ⟨answered, raised⟩ := ui_spec k lasts record s.records s ⟨held, rfl⟩
      exact ⟨fun a run => ⟨s.records, answered a run⟩, raised⟩
    refine Triple.ite (fun same => ih.weaken ?_) fun other => ?_
    · rintro s ⟨rest, ⟨-, held⟩ | ⟨no, -⟩, -⟩
      · exact held
      · rw [same] at no
        cases no
    · refine (classifyRecord_spec k w lasts identifier record asked).weaken ?_
      rintro s ⟨rest, ⟨yes, -⟩ | ⟨-, held⟩, -⟩
      · exact absurd yes other
      · exact held

/-! ### Requests and pauses -/

/-- The log up to a request has `P`, and all it has received it has processed. -/
def Wrote (P : List Event → Prop) (identifier : String) (log : List Event) : Prop :=
  ∃ before after, log = before ++ .wrote identifier :: after ∧ P before ∧ received before = (processed before).flatten

theorem Wrote.lasting (P : List Event → Prop) (identifier : String) : Lasting (Wrote P identifier) := by
  rintro log e ⟨before, after, rfl, held, settled⟩
  exact ⟨before, after ++ [e], by simp, held, settled⟩

theorem unread_spec :
    Triple (Held k P ms []) unread (fun _ s => Held k P ms [] s ∧ s.records = [] ∧ s.buffer = []) (Left k) := by
  refine Triple.look fun s held => ?_
  refine Triple.bind (Q := fun _ s' => s' = s ∧ s.records = []) (stopIf_spec ?_ (by decide) ?_) fun _ => ?_
  · rintro _ rfl
    exact held.toSane
  · rintro passed _ rfl
    exact ⟨rfl, not_not.mp passed⟩
  refine Triple.bind (Q := fun _ s' => s' = s ∧ s.records = [] ∧ s.buffer = []) (stopIf_spec ?_ (by decide) ?_)
    fun _ => stopIf_spec ?_ (by decide) ?_
  · rintro _ ⟨rfl, -⟩
    exact held.toSane
  · rintro passed _ ⟨rfl, records⟩
    exact ⟨rfl, records, not_not.mp passed⟩
  · rintro _ ⟨rfl, -⟩
    exact held.toSane
  · rintro - _ ⟨rfl, empty⟩
    exact ⟨held, empty⟩

theorem write_spec (lasts : Lasting P) :
    Triple (Held k P ms []) (write k w)
      (fun id s => Held k (Wrote P id) (ms ++ [.wrote id]) [] s ∧ .wrote id ∉ ms ∧
        ms.countP Event.isWrite < k.phase.writes) (Left k) := by
  refine Triple.bind (audit_spec k w lasts) fun _ => Triple.bind (unread_spec k) fun _ => ?_
  refine Triple.look fun s ⟨held, records, buffer⟩ => ?_
  have written := held.written
  refine Triple.bind (Q := fun _ s' => s' = s ∧ s.requestWrites < k.phase.writes) (stopIf_spec ?_ (by decide) ?_)
    fun _ => ?_
  · rintro _ rfl
    exact held.toSane
  · rintro room _ rfl
    exact ⟨rfl, not_le.mp room⟩
  refine Triple.bind (Q := fun _ s' => (∃ n, s' = { s with asked := n }) ∧ s.requestWrites < k.phase.writes)
    (ask_spec w.token ?_) fun token => ?_
  · rintro _ n ⟨rfl, room⟩
    exact ⟨⟨n, rfl⟩, room⟩
  have same : ∀ n, Held k P ms [] { s with asked := n } := fun n => held.same n s.outputBytes s.reader
  refine Triple.bind (Q := fun _ s' =>
    (∃ n, s' = { s with asked := n }) ∧ s.requestWrites < k.phase.writes ∧ token.text ∉ s.ids)
    (stopIf_spec ?_ (by decide) ?_) fun _ => ?_
  · rintro _ ⟨⟨n, rfl⟩, -⟩
    exact (same n).toSane
  · rintro fresh _ ⟨now, room⟩
    exact ⟨now, room, fresh⟩
  refine Triple.bind (stopIf_keeps ?_ (by decide)) fun _ => ?_
  · rintro _ ⟨⟨n, rfl⟩, -⟩
    exact (same n).toSane
  have settled : received s.log = (processed s.log).flatten := by
    have stream := held.account.stream
    rw [records, buffer, List.append_nil, List.append_nil, List.append_nil] at stream
    exact stream
  refine Triple.updated (I := fun s' => (.wrote token.text ∉ ms ∧ ms.countP Event.isWrite < k.phase.writes) ∧
    Held k (Wrote P token.text) (ms ++ [.wrote token.text]) [] s') ?_ (Triple.pure_left fun facts => ?_)
  · rintro _ ⟨⟨n, rfl⟩, room, fresh⟩
    refine ⟨⟨fun known => fresh ((held.known token.text).mpr known), written ▸ room⟩, ?_⟩
    exact (same n).spent token.text room ⟨s.log, [], rfl, held.account.kept, settled⟩
  have lasting := Wrote.lasting P token.text
  refine Triple.bind (await_spec k w w.write) fun _ => Triple.bind (audit_spec k w lasting) fun _ => ?_
  exact Triple.answer fun _ held => ⟨held, facts⟩

def Seen (e : Event) (log : List Event) : Prop := ∃ before after, log = before ++ e :: after

/-- After the event the clock has read `boundary` or more. -/
def Paused (e : Event) (boundary : ℚ) (log : List Event) : Prop :=
  ∃ before after now, log = before ++ e :: after ∧ .tick now ∈ after ∧ boundary ≤ now

theorem Seen.lasting (e : Event) : Lasting (Seen e) := by
  rintro log e' ⟨before, after, rfl⟩
  exact ⟨before, after ++ [e'], by simp⟩

theorem Paused.lasting (e : Event) (boundary : ℚ) : Lasting (Paused e boundary) := by
  rintro log e' ⟨before, after, now, rfl, ticked, late⟩
  exact ⟨before, after ++ [e'], now, by simp, List.mem_append_left _ ticked, late⟩

theorem spacingWait_spec (lasts : Lasting P) :
    Triple (Held k P ms []) (spacingWait k w) (fun _ => Held k P ms []) (Left k) := by
  refine Triple.look fun s held => ?_
  refine Triple.bind (Q := fun _ => Held k P ms []) (Triple.failIf ?_ ?_) fun _ => ?_
  · rintro - _ rfl
    exact held.toSane
  · rintro - _ rfl
    exact held
  refine Triple.bind (Q := fun _ => Held k P ms []) (monotonic_spec w ?_) fun _ => ?_
  · intro s n now held
    exact (held.same n s.outputBytes s.reader).tick now (held.lasts lasts _)
  refine Triple.bind (await_spec k w w.wait) fun _ => ?_
  exact (check_spec k w lasts.ticking).strengthen fun _ _ running => running.1

theorem spacingLoop_spec (e : Event) (boundary : ℚ) (n : ℕ) :
    Triple (Held k (Seen e) ms []) (spacingLoop k w boundary n) (fun _ => Held k (Paused e boundary) ms []) (Left k) := by
  have lasts := Seen.lasting e
  induction n with
  | zero => exact Triple.fail fun _ held => held.toSane
  | succ n ih =>
    refine Triple.bind (audit_spec k w lasts) fun _ => ?_
    refine Triple.bind ((consumeUiRecords_spec k lasts).strengthen fun _ _ held => held.1) fun _ => ?_
    refine Triple.look fun s held => ?_
    refine Triple.bind (Q := fun _ => Held k (Seen e) ms []) (stopIf_spec ?_ ?_ ?_) fun _ => ?_
    · rintro _ rfl
      exact held.toSane
    · split_ifs <;> decide
    · rintro _ _ rfl
      exact held
    refine Triple.ite (fun _ => Triple.bind (nextUi_spec k w lasts) fun _ => ih) fun _ => ?_
    refine Triple.bind (Q := fun now s => Held k (Seen e) ms [] s ∧ (boundary ≤ now → Held k (Paused e boundary) ms [] s))
      (monotonic_spec w ?_) fun now => ?_
    · intro s n now held
      have later := held.same n s.outputBytes s.reader
      refine ⟨later.tick now (held.lasts lasts _), fun late => later.tick now ?_⟩
      obtain ⟨before, after, log⟩ := held.account.kept
      exact ⟨before, after ++ [.tick now], now, by simp [log], by simp, late⟩
    refine Triple.ite (fun late => ?_) fun _ => ?_
    · refine Triple.bind ((audit_spec k w (Paused.lasting e boundary)).weaken fun s held => held.2 late) fun _ => ?_
      refine Triple.look fun s held => ?_
      refine Triple.ite (fun _ => ih.weaken ?_) fun _ => Triple.answer ?_
      · rintro _ rfl
        obtain ⟨before, after, -, log, -⟩ := held.account.kept
        exact held.other ⟨before, after, log⟩
      · rintro _ rfl
        exact held
    · exact Triple.bind ((spacingWait_spec k w lasts).weaken fun _ held => held.1) fun _ => ih

/-! ### The end of the stream -/

theorem drainLoop_spec (lasts : Lasting P) (n : ℕ) :
    Triple (Held k P ms []) (drainLoop k w n)
      (fun _ s => Held k P ms [] s ∧ s.records = [] ∧ s.buffer = [] ∧ s.eof = true) (Left k) := by
  induction n with
  | zero => exact Triple.fail fun _ held => held.toSane
  | succ n ih =>
    refine Triple.bind (audit_spec k w lasts) fun _ => Triple.bind (consumeUiRecords_spec k lasts) fun _ => ?_
    refine Triple.look fun s held => ?_
    refine Triple.ite (fun eof => stopIf_spec ?_ (by decide) ?_) fun _ => ?_
    · rintro _ rfl
      exact held.1.toSane
    · rintro whole s rfl
      exact ⟨held.1, held.2, not_not.mp whole, eof⟩
    · refine Triple.bind ((nextUi_spec k w lasts).weaken ?_) fun _ => ih
      rintro _ rfl
      exact held.1

def ClosedFirst (P : List Event → Prop) (log : List Event) : Prop :=
  ∃ before after, log = before ++ .closed :: after ∧ P before ∧ .ended ∉ before

theorem ClosedFirst.lasting (P : List Event → Prop) : Lasting (ClosedFirst P) := by
  rintro log e ⟨before, after, rfl, held, going⟩
  exact ⟨before, after ++ [e], by simp, held, going⟩

/-- The input is closed, the stream at an end, and nothing is left over. -/
structure Drained (k : Setup φ) (P : List Event → Prop) (ms : List Event) (s : Session) : Prop where
  held : Held k (ClosedFirst P) (ms ++ [.closing] ++ [.closed]) [] s
  records : s.records = []
  buffer : s.buffer = []
  eof : s.eof = true

theorem closeAndDrain_spec (lasts : Lasting P) :
    Triple (Held k P ms []) (closeAndDrain k w)
      (fun _ s => s.state = .completed ∧ s.refusalCode = none ∧ Drained k P ms s) (Left k) := by
  refine Triple.bind (audit_spec k w lasts) fun _ => ?_
  refine Triple.bind ((consumeUiRecords_spec k lasts).strengthen fun _ _ held => held.1) fun _ => ?_
  refine Triple.look fun s held => ?_
  refine Triple.bind (Q := fun _ s' => s' = s ∧ s.eof = false) (stopIf_spec ?_ (by decide) ?_) fun _ => ?_
  · rintro _ rfl
    exact held.toSane
  · rintro going _ rfl
    exact ⟨rfl, eq_false_of_ne_true going⟩
  -- until the input is closed nothing is received
  have ticking : Ticking fun log => P log ∧ Event.ended ∉ log := by
    rintro log now ⟨kept, going⟩
    exact ⟨lasts _ _ kept, by simpa using going⟩
  refine Triple.updated (I := Held k (fun log => P log ∧ Event.ended ∉ log) (ms ++ [.closing]) []) ?_ ?_
  · rintro _ ⟨rfl, going⟩
    refine held.closes ⟨held.lasts lasts _, ?_⟩ (.inl ⟨rfl, rfl⟩)
    have ended := held.account.ended
    rw [going] at ended
    simpa using ended
  refine Triple.bind (await_spec k w w.close) fun _ => ?_
  refine Triple.bind ((check_spec k w ticking).strengthen fun _ _ running => running.1) fun _ => ?_
  have lasting := ClosedFirst.lasting P
  refine Triple.updated (I := Held k (ClosedFirst P) (ms ++ [.closing] ++ [.closed]) []) ?_ ?_
  · intro s held
    obtain ⟨kept, going⟩ := held.account.kept
    exact held.closes ⟨s.log, [], rfl, kept, going⟩ (.inr ⟨rfl, rfl⟩)
  refine Triple.bind (Q := fun _ => Drained k P ms) ((drainLoop_spec k w lasting w.rounds).strengthen ?_) fun _ => ?_
  · rintro - s ⟨held, records, buffer, eof⟩
    exact ⟨held, records, buffer, eof⟩
  refine Triple.bind (check_keeps k w (fun _ drained => drained.held.toSane) ?_ ?_) fun _ => Triple.update ?_
  · intro s n drained
    exact ⟨drained.held.same n s.outputBytes s.reader, drained.records, drained.buffer, drained.eof⟩
  · intro s now drained
    exact ⟨drained.held.tick now (drained.held.lasts lasting _), drained.records, drained.buffer, drained.eof⟩
  · rintro s ⟨drained, running⟩
    have h := drained.held
    refine ⟨rfl, h.clean running, ?_, drained.records, drained.buffer, drained.eof⟩
    exact ⟨⟨h.diagnostics, h.writes, h.classified, h.judged, h.rejected, h.few⟩, h.account, h.written, h.replied,
      h.known, h.verdict, h.shut, h.counted, fun _ => h.clean running⟩

/-! ### The whole conversation -/

/-- After the reply the clock read `spacingSeconds` more before the next request was written, and then all that
had been received had been processed. -/
def Spaced (log : List Event) (reply : Event) (receivedAt : ℚ) (id : String) : Prop :=
  ∃ before pause after now, log = before ++ reply :: pause ++ .wrote id :: after ∧ .tick now ∈ pause ∧
    receivedAt + spacingSeconds ≤ now ∧
      received (before ++ reply :: pause) = (processed (before ++ reply :: pause)).flatten

/-- One request and a reply that matches; or, when observing, a request, an ambiguous reply, and after a pause
another request and a reply that matches. -/
def Exchange (k : Setup φ) (ms log : List Event) : Prop :=
  (∃ id record o t, ms = [.wrote id, .classified id record o t] ∧
      observeInitialize k.floats k.alphanumeric record id = some o ∧ o.verdict = .modeMatch) ∨
    k.phase = .observe ∧ ∃ id record o t id' record' o' t',
      ms = [.wrote id, .classified id record o t, .wrote id', .classified id' record' o' t'] ∧ id ≠ id' ∧
        observeInitialize k.floats k.alphanumeric record id = some o ∧ o.reason = some .ambiguousApi ∧
        observeInitialize k.floats k.alphanumeric record' id' = some o' ∧ o'.verdict = .modeMatch ∧
        Spaced log (.classified id record o t) t id'

theorem Exchange.lasting (ms : List Event) : Lasting (Exchange k ms) := by
  rintro log e (one | ⟨phase, id, record, o, t, id', record', o', t', same, other, first, ambiguous, second, matched,
    before, pause, after, now, rfl, ticked, late, settled⟩)
  · exact .inl one
  · exact .inr ⟨phase, id, record, o, t, id', record', o', t', same, other, first, ambiguous, second, matched,
      before, pause, after ++ [e], now, by simp, ticked, late, settled⟩

theorem Exchange.verdict {k : Setup φ} {log : List Event} (h : Exchange k ms log) :
    lastVerdict ms = some .modeMatch ∧ 0 < ms.countP Event.isWrite := by
  rcases h with ⟨id, record, o, t, rfl, -, matched⟩ | ⟨-, id, record, o, t, id', record', o', t', rfl, -, -, -, -, matched, -⟩
  · simp [lastVerdict, Event.verdict?, matched, Event.isWrite]
  · simp [lastVerdict, Event.verdict?, matched, Event.isWrite]

theorem secondReply (phase : k.phase = .observe) {id id' : String} {record : List UInt8} {o : InitializeObservation}
    {t : ℚ} (observed : observeInitialize k.floats k.alphanumeric record id = some o)
    (ambiguous : o.reason = some .ambiguousApi) (fresh : .wrote id' ∉ [.wrote id, Event.classified id record o t])
    {second : Bool × ℚ} {s : Session}
    (replied : Replied k (Wrote (Paused (.classified id record o t) (t + spacingSeconds)) id')
      [.wrote id, .classified id record o t, .wrote id'] id' second s) :
    second.1 = true ∧ ∃ ms, Held k (Exchange k ms) ms [] s := by
  obtain ⟨record', o', observed', held, ⟨yes, matched⟩ | ⟨-, -, once, -⟩⟩ := replied
  · refine ⟨yes, _, held.other (.inr ⟨phase, id, record, o, t, id', record', o', second.2, rfl, ?_, observed,
      ambiguous, observed', matched, ?_⟩)⟩
    · rintro rfl
      exact fresh List.mem_cons_self
    · obtain ⟨_, after, log, ⟨before, pause, now, rfl, ticked, late⟩, settled⟩ := held.account.kept
      exact ⟨before, pause, after, now, log, ticked, late, settled⟩
  · have twice : [.wrote id, Event.classified id record o t, .wrote id'].countP Event.isWrite = 2 := rfl
    omega

theorem pausedRequest_spec (phase : k.phase = .observe) {id : String} {record : List UInt8} {o : InitializeObservation}
    {t : ℚ} (observed : observeInitialize k.floats k.alphanumeric record id = some o)
    (ambiguous : o.reason = some .ambiguousApi) :
    Triple (Held k (Seen (.classified id record o t)) [.wrote id, .classified id record o t] [])
      (pausedRequest k w t) (fun matched s => matched = true ∧ ∃ ms, Held k (Exchange k ms) ms [] s) (Left k) := by
  refine Triple.bind (spacingLoop_spec k w _ _ w.rounds) fun _ => ?_
  refine Triple.bind (write_spec k w (Paused.lasting _ _)) fun id' => ?_
  rintro s ⟨written, fresh, -⟩
  have asked : [.wrote id, Event.classified id record o t, .wrote id'].countP Event.isReply <
      [.wrote id, Event.classified id record o t, .wrote id'].countP Event.isWrite := Nat.lt_succ_self 1
  have answered := responseLoop_spec k w
    (Wrote.lasting (Paused (.classified id record o t) (t + spacingSeconds)) id') id' asked w.rounds
  have matching : ∀ second : Bool × ℚ, Triple
      (Replied k (Wrote (Paused (.classified id record o t) (t + spacingSeconds)) id')
        [.wrote id, .classified id record o t, .wrote id'] id' second)
      (pure second.1 : Talk Bool) (fun matched s => matched = true ∧ ∃ ms, Held k (Exchange k ms) ms [] s) (Left k) :=
    fun second => Triple.answer fun s => secondReply k phase observed ambiguous fresh
  exact Triple.bind answered matching s written

theorem secondRequest_spec (id : String) (first : Bool × ℚ) :
    Triple (Replied k P [.wrote id] id first) (secondRequest k w first)
      (fun matched s => matched = true ∧ ∃ ms, Held k (Exchange k ms) ms [] s) (Left k) := by
  refine Triple.ite (fun done => Triple.answer ?_) fun more => ?_
  · rintro s ⟨record, o, observed, held, ⟨-, matched⟩ | ⟨no, -⟩⟩
    · exact ⟨rfl, _, held.other (.inl ⟨id, record, o, first.2, rfl, observed, matched⟩)⟩
    · rw [done] at no
      cases no
  · rintro s ⟨record, o, observed, held, ⟨yes, -⟩ | ⟨-, phase, -, ambiguous⟩⟩
    · exact absurd yes more
    have marked : Event.classified id record o first.2 ∈ milestones s.log := by
      rw [held.account.marked]
      simp
    obtain ⟨before, after, log⟩ := List.append_of_mem (List.mem_filter.mp marked).1
    exact pausedRequest_spec k w phase observed ambiguous s (held.other ⟨before, after, log⟩)

theorem conversation_spec :
    Triple (Held k (fun _ => True) [] []) (conversation k w)
      (fun _ s => s.state = .completed ∧ s.refusalCode = none ∧ ∃ ms, Drained k (Exchange k ms) ms s) (Left k) := by
  refine Triple.bind (write_spec k w fun _ _ _ => trivial) fun id => ?_
  refine Triple.bind (Q := Replied k (Wrote (fun _ => True) id) [.wrote id] id) ?_ fun first => ?_
  · refine (responseLoop_spec k w (Wrote.lasting _ id) id ?_ w.rounds).weaken fun s written => written.1
    simp [Event.isReply, Event.isWrite]
  refine Triple.bind (secondRequest_spec k w id first) fun matched => ?_
  refine Triple.pure_left fun yes => Triple.exists_left fun ms => ?_
  refine Triple.bind (stopIf_keeps (fun _ held => held.toSane) (by decide)) fun _ => ?_
  refine (closeAndDrain_spec k w (Exchange.lasting k ms)).strengthen ?_
  rintro - s ⟨completed, clean, drained⟩
  exact ⟨completed, clean, ms, drained⟩

/-- How a conversation that was called ends: its fields go together, and if it completed it has drained its stream
after an exchange that matches. -/
def Ended (k : Setup φ) (s : Session) : Prop :=
  Sane k s ∧ (s.state = .completed → s.refusalCode = none ∧ ∃ ms, Drained k (Exchange k ms) ms s)

theorem Ended.same {k : Setup φ} {s : Session} (h : Ended k s) (asked : ℕ) (reader : Bool) :
    Ended k { s with asked := asked, reader := reader } := by
  obtain ⟨sane, drained⟩ := h
  refine ⟨⟨sane.diagnostics, sane.writes, sane.classified, sane.judged, sane.rejected, sane.few⟩, fun completed => ?_⟩
  obtain ⟨clean, ms, ended⟩ := drained completed
  exact ⟨clean, ms, ended.held.same asked s.outputBytes reader, ended.records, ended.buffer, ended.eof⟩

theorem Ended.joined {k : Setup φ} {r : Except Raised Unit × Session} (h : Ended k r.2) : Ended k (joinReader w r).2 := by
  unfold joinReader
  split_ifs
  · split <;> exact h.same _ false
  · exact h

theorem start_held : Held k (fun _ => True) [] [] { Session.new with state := .running, reader := true } := by
  refine ⟨⟨by decide, Nat.zero_le _, le_refl _, by simp [Session.new], by simp [Session.new], Nat.zero_le _⟩,
    ⟨trivial, rfl, rfl, by simp [Session.new, processed], by simp [Session.new], by simp [Session.new, notices]⟩,
    rfl, rfl, by simp [Session.new], rfl, by simp [Session.new], rfl, fun _ => rfl⟩

theorem call_ended : Ended k (call k w).2 := by
  obtain ⟨returned, raised⟩ := conversation_spec k w _ (start_held k)
  apply Ended.joined w
  unfold refusedBy
  cases run : (conversation k w { Session.new with state := .running, reader := true }).1 with
  | ok u =>
    obtain ⟨-, clean, ms, drained⟩ := returned u run
    exact ⟨drained.held.toSane, fun _ => ⟨clean, ms, drained⟩⟩
  | error e =>
    have sane := raised e run
    refine ⟨⟨sane.diagnostics, sane.writes, sane.classified, sane.judged, sane.rejected, sane.few⟩, fun same => ?_⟩
    cases same

theorem new_ended : Ended k Session.new :=
  ⟨⟨by decide, Nat.zero_le _, le_refl _, by simp [Session.new], by simp [Session.new], Nat.zero_le _⟩,
    fun completed => by cases completed⟩

end Specs

/-! ## The observation -/

/-- What the log of an observed mode shows: one exchange that matches and then the closing of the input, each as
the only milestones; a stream that is the records read, every one a line, all but the replies inert
notifications and those few; and its end after the input was closed. -/
structure Evidence (k : Setup φ) (log : List Event) : Prop where
  exchange : ∃ ms, milestones log = ms ++ [.closing, .closed] ∧ Exchange k ms log
  stream : received log = (processed log).flatten
  whole : ∀ record ∈ processed log, IsRecord record
  inert : ∀ record ∈ notices log, Inert k record
  few : (notices log).length ≤ uiRecordLimit
  ended : ∃ before after, log = before ++ .closed :: after ∧ .ended ∉ before ∧ .ended ∈ after

theorem Drained.evidence {k : Setup φ} {ms : List Event} {s : Session} (h : Drained k (Exchange k ms) ms s) :
    Evidence k s.log := by
  have account := h.held.account
  obtain ⟨before, after, log, exchange, going⟩ := account.kept
  have lasts : ∀ after, Exchange k ms (before ++ after) := by
    intro after
    induction after using List.reverseRecOn with
    | nil => simpa using exchange
    | append_singleton after e ih =>
      rw [← List.append_assoc]
      exact Exchange.lasting k ms _ e ih
  refine ⟨⟨ms, ?_, ?_⟩, ?_, ?_, account.inert, ?_, before, after, log, going, ?_⟩
  · rw [account.marked, List.append_assoc]
    rfl
  · rw [log]
    exact lasts _
  · have stream := account.stream
    rw [h.records, h.buffer, List.append_nil, List.append_nil, List.append_nil] at stream
    exact stream
  · intro record mem
    exact account.whole record (by simp [mem])
  · rw [h.held.counted]
    exact h.held.few
  · have present := account.ended.mpr h.eof
    rw [log] at present
    simpa [going] using present

theorem Drained.joined {k : Setup φ} {ms : List Event} {s : Session} (h : Drained k (Exchange k ms) ms s)
    (clean : s.refusalCode = none) (lifecycle : MaintenanceLifecycle) : (s.report k.phase lifecycle).joined := by
  obtain ⟨before, after, log, exchange, going⟩ := h.held.account.kept
  obtain ⟨verdict, asked⟩ := exchange.verdict
  have written := h.held.written
  have last := h.held.verdict
  refine fun _ => ⟨?_, ?_, h.held.shut.mpr (by simp), h.eof, clean⟩
  · change s.modeVerdict = _
    rw [last, ← verdict]
    unfold lastVerdict
    rw [List.filterMap_append, List.filterMap_append]
    change (ms.filterMap Event.verdict? ++ [] ++ []).getLast? = _
    rw [List.append_nil, List.append_nil]
  · change s.requestWrites ≠ 0
    rw [written]
    simp only [List.countP_append]
    omega

section Observe

variable {k : Setup φ} {phase : MaintenancePhase} {h : Host} {s : Session}

theorem build_valid {r : Report} (valid : r.Valid) : build r = .observed ⟨r, valid⟩ := dif_pos valid

theorem lifecycleOf_observed (same : lifecycleOf h s = .observed) : s.state = .completed := by
  unfold lifecycleOf at same
  split_ifs at same with late unclean completed
  exact completed

theorem build_other (sane : Sane k s) {lifecycle : MaintenanceLifecycle} (other : lifecycle ≠ .observed) :
    ∃ o, build (s.report k.phase lifecycle) = .observed o ∧ o.report.lifecycle ≠ .observed :=
  ⟨_, build_valid ⟨sane.report lifecycle, fun same => absurd same other⟩, other⟩

theorem recovered_other (sane : Sane k s) (e : HostError) :
    ∃ o, recovered k.phase h s e = .observed o ∧ o.report.lifecycle ≠ .observed := by
  unfold recovered
  dsimp only
  apply build_other
  · split_ifs
    · exact sane.latch (by simp)
    · exact sane
  · split_ifs <;> decide

theorem concluded_error (sane : Sane k s) (e : HostError) :
    concluded k.phase h s (.error e) ≠ .invalidObservation ∧
      ∀ o, concluded k.phase h s (.error e) = .observed o → o.report.lifecycle ≠ .observed := by
  have other : ∀ e, recovered k.phase h s e ≠ .invalidObservation ∧
      ∀ o, recovered k.phase h s e = .observed o → o.report.lifecycle ≠ .observed := by
    intro e
    obtain ⟨o, built, refused⟩ := recovered_other (h := h) sane e
    rw [built]
    refine ⟨by simp, fun o' same => ?_⟩
    cases same
    exact refused
  cases e with
  | cancelled => simp [concluded]
  | fatal => simp [concluded]
  | timeout => exact other .timeout
  | failed => exact other .failed

theorem concluded_sound (ended : Ended k s) (outcome : Except HostError Unit) :
    concluded k.phase h s outcome ≠ .invalidObservation ∧
      ∀ o, concluded k.phase h s outcome = .observed o → o.report.lifecycle = .observed → Evidence k s.log := by
  obtain ⟨sane, drained⟩ := ended
  cases outcome with
  | ok u =>
    have valid : (s.report k.phase (lifecycleOf h s)).Valid := by
      refine ⟨sane.report _, fun observed => ?_⟩
      obtain ⟨clean, ms, whole⟩ := drained (lifecycleOf_observed observed)
      exact whole.joined clean _ observed
    have built : concluded k.phase h s (.ok u) = .observed ⟨_, valid⟩ := build_valid valid
    rw [built]
    refine ⟨by simp, fun o same observed => ?_⟩
    cases same
    obtain ⟨-, ms, whole⟩ := drained (lifecycleOf_observed observed)
    exact whole.evidence
  | error e =>
    obtain ⟨valid, refused⟩ := concluded_error (h := h) sane e
    exact ⟨valid, fun o same observed => absurd observed (refused o same)⟩

end Observe

end MaintenanceMode

end Constructicon
