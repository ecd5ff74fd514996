import Constructicon.ClaudeProtocol
import Constructicon.Library.Lines
import Constructicon.Library.Procedure

/-!
# The maintenance mode observation

One process of the Claude peer is asked for its mode: an initialize request is written, its reply
classified, and in the first phase an ambiguous reply is followed, after a pause, by one more request.
Nothing else may arrive but a few inert notifications. However the conversation ends, an observation is
built of its fields, and the constructor of the observation checks how they go together.

The answers of the surroundings are a parameter, numbered in the order they are asked for: whether the
task is being cancelled, the readings of the clock, what the reads bring and when, how writes end.
Beside the fields of the conversation a session keeps what has happened in it.
-/

namespace Constructicon

namespace MaintenanceMode

open Proc PyJson ClaudeProtocol

/-! ## The observation -/

/-- `ClaudeMaintenancePhase` -/
inductive MaintenancePhase where
  | observe
  | reload
deriving DecidableEq

/-- `ClaudeMaintenanceLifecycle` -/
inductive MaintenanceLifecycle where
  | observed
  | refused
  | incomplete
  | processRefused
deriving DecidableEq

/-- `ClaudeMaintenanceRefusalCode` -/
inductive RefusalCode where
  | state
  | deadline
  | readContract
  | readError
  | readUnavailable
  | outputLimit
  | recordLimit
  | recordFormat
  | uiRecord
  | unexpectedRecord
  | partialRecord
  | eof
  | writeLimit
  | requestIdReuse
  | inputLimit
  | responseVerdict
deriving DecidableEq

/-- `UI_RECORDS` -/
def uiRecordLimit : ℕ := 8

/-- `SPACING_SECONDS` -/
def spacingSeconds : ℚ := 30

/-- `LIFETIME_SECONDS` -/
def lifetimeSeconds : ℚ := 120

/-- `INPUT_BYTES` -/
def inputBytesLimit : ℕ := 8 * 1024

/-- `OUTPUT_BYTES` -/
def outputBytesLimit : ℕ := 512 * 1024

def MaintenancePhase.writes : MaintenancePhase → ℕ
  | .observe => 2
  | .reload => 1

/-- The arguments of `ClaudeMaintenanceObservation`. -/
structure Report where
  phase : MaintenancePhase
  modeVerdict : Option InitializeVerdict
  lifecycle : MaintenanceLifecycle
  requestWrites : ℕ
  uiRecords : ℕ
  stdinClosed : Bool
  eof : Bool
  modeMismatchReason : Option ModeMismatchReason
  classifiedResponses : Option ℕ
  refusalCode : Option RefusalCode
  tokenSourceCategory : Option TokenSourceCategory
  apiKeySourceCategory : Option ApiKeySourceCategory
  rejectedSystemCategory : Option SystemRecordCategory

/-- The first check of `__post_init__`. -/
def Report.coherent (r : Report) : Prop :=
  initializeDiagnosticsValid r.modeVerdict r.modeMismatchReason r.tokenSourceCategory r.apiKeySourceCategory = true ∧
    r.requestWrites ≤ r.phase.writes ∧
    (∀ n ∈ r.classifiedResponses, n ≤ r.requestWrites ∧ (0 < n ↔ r.modeVerdict ≠ none)) ∧
    (r.modeMismatchReason ≠ none → r.classifiedResponses ≠ none) ∧
    (r.refusalCode = some .uiRecord ↔ r.rejectedSystemCategory ≠ none) ∧ r.uiRecords ≤ uiRecordLimit

def Report.joined (r : Report) : Prop :=
  r.lifecycle = .observed → r.modeVerdict = some .modeMatch ∧ r.requestWrites ≠ 0 ∧ r.stdinClosed = true ∧
    r.eof = true ∧ r.refusalCode = none

def Report.Valid (r : Report) : Prop := r.coherent ∧ r.joined

local instance (priority := 2000) countDecidable (p : ℕ → Prop) [DecidablePred p] (o : Option ℕ) :
    Decidable (∀ n ∈ o, p n) :=
  match o with
  | none => isTrue fun _ mem => absurd mem (Option.not_mem_none _)
  | some n => decidable_of_iff (p n) (by simp)

instance (r : Report) : Decidable r.Valid := inferInstanceAs (Decidable ((_ ∧ _ ∧ _ ∧ _ ∧ _ ∧ _) ∧ (_ → _)))

/-- `ClaudeMaintenanceObservation` -/
structure MaintenanceObservation where
  report : Report
  valid : report.Valid

/-! ## The conversation -/

inductive Event where
  /-- a reading of the clock -/
  | tick (now : ℚ)
  /-- a chunk of the peer's bytes is received -/
  | received (chunk : List UInt8)
  /-- the peer's stream has ended -/
  | ended
  /-- a request is written with this id -/
  | wrote (id : String)
  /-- a record is read as an inert notification -/
  | notified (record : List UInt8)
  /-- a record is classified as the reply to an id, the clock read right after -/
  | classified (id : String) (record : List UInt8) (observation : InitializeObservation) (receivedAt : ℚ)
  /-- the closing of the peer's input begins -/
  | closing
  | closed

/-- `_state` -/
inductive ConversationState where
  | new
  | running
  | completed
  | refused
deriving DecidableEq

/-- The fields of `ClaudeMaintenanceConversation`, the number of answers of the surroundings used so far and what
has happened. -/
structure Session where
  state : ConversationState
  modeVerdict : Option InitializeVerdict
  modeMismatchReason : Option ModeMismatchReason
  tokenSourceCategory : Option TokenSourceCategory
  apiKeySourceCategory : Option ApiKeySourceCategory
  classifiedResponses : ℕ
  refusalCode : Option RefusalCode
  rejectedSystemCategory : Option SystemRecordCategory
  requestWrites : ℕ
  uiRecords : ℕ
  inputBytes : ℕ
  outputBytes : ℕ
  stdinClosed : Bool
  eof : Bool
  buffer : List UInt8
  records : List (List UInt8)
  ids : List String
  /-- a read is under way -/
  reader : Bool
  asked : ℕ
  log : List Event

def Session.new : Session where
  state := .new
  modeVerdict := none
  modeMismatchReason := none
  tokenSourceCategory := none
  apiKeySourceCategory := none
  classifiedResponses := 0
  refusalCode := none
  rejectedSystemCategory := none
  requestWrites := 0
  uiRecords := 0
  inputBytes := 0
  outputBytes := 0
  stdinClosed := false
  eof := false
  buffer := []
  records := []
  ids := []
  reader := false
  asked := 0
  log := []

inductive ReadResult where
  | bytes (chunk : List UInt8)
  | notBytes
  | failed
  | cancelled

inductive Finish where
  | done
  | failed
  | cancelled

structure Surroundings where
  cancelling : ℕ → Bool
  clock : ℕ → ℚ
  /-- the read under way has ended -/
  readDone : ℕ → Bool
  read : ℕ → ReadResult
  write : ℕ → Finish
  close : ℕ → Finish
  wait : ℕ → Finish
  join : ℕ → Finish
  /-- the conversation is called a second time during an await -/
  calledAgain : ℕ → Bool
  token : ℕ → Token
  /-- the rounds a loop is followed for -/
  rounds : ℕ

inductive Raised where
  /-- `_Refused` -/
  | refused
  | timeout
  /-- any other `Exception` -/
  | failed
  | cancelled
  /-- still going on after the rounds it is followed for -/
  | unfinished

structure Setup (φ : Type) where
  phase : MaintenancePhase
  inputLimit : ℕ
  outputLimit : ℕ
  deadline : ℚ
  floats : FloatText φ
  alphanumeric : Char → Bool

abbrev Talk (α : Type) : Type := Proc Raised Session α

def ask {α : Type} (answers : ℕ → α) : Talk α := fun s => (.ok (answers s.asked), { s with asked := s.asked + 1 })

/-- `_latch`: the first refusal is kept. -/
def Session.latch (s : Session) (code : RefusalCode) (category : Option SystemRecordCategory) : Session :=
  if s.refusalCode = none then { s with refusalCode := some code, rejectedSystemCategory := category } else s

def latch (code : RefusalCode) (category : Option SystemRecordCategory) : Talk Unit :=
  update fun s => s.latch code category

def stop {α : Type} (code : RefusalCode) (raised : Raised) : Talk α := do
  latch code none
  fail raised

def stopIf (c : Prop) [Decidable c] (code : RefusalCode) (raised : Raised) : Talk Unit :=
  if c then stop code raised else answer ()

def Session.note (s : Session) (e : Event) : Session := { s with log := s.log ++ [e] }

section Talk

variable {φ : Type} (k : Setup φ) (w : Surroundings)

/-- `_monotonic` -/
def monotonic : Talk ℚ := do
  let now ← ask w.clock
  update fun s => s.note (.tick now)
  return now

/-- `_check` -/
def check : Talk Unit := do
  let cancelling ← ask w.cancelling
  failIf (cancelling = true) .cancelled
  let s ← look
  stopIf (s.state ≠ .running) .state .refused
  let now ← monotonic w
  stopIf (k.deadline ≤ now) .deadline .timeout

/-- What `__call__` does to a conversation that is not new. -/
def Session.callAgain (s : Session) : Session := { s.latch .state none with state := .refused }

def suspend : Talk Unit := do
  let again ← ask w.calledAgain
  update fun s => if again then s.callAgain else s

def finish : Finish → Talk Unit
  | .done => answer ()
  | .failed => fail .failed
  | .cancelled => fail .cancelled

def await (operation : ℕ → Finish) : Talk Unit := do
  suspend w
  let ended ← ask operation
  finish ended

/-! ### Reading -/

/-- The loop of `_receive` over the complete lines of the buffer. -/
def frames : List (List UInt8) → Talk Unit
  | [] => answer ()
  | line :: lines => do
    stopIf (recordBytes < line.length + 1) .recordLimit .refused
    update fun s =>
      { s with records := s.records ++ [line ++ [lineFeed]], buffer := s.buffer.drop (line.length + 1) }
    frames lines

/-- `_receive` of a chunk that is not empty. -/
def receiveBytes (chunk : List UInt8) : Talk Unit := do
  update fun s => { s.note (.received chunk) with buffer := s.buffer ++ chunk }
  let s ← look
  frames (Lines.cut lineFeed s.buffer).1
  let s ← look
  stopIf (recordBytes ≤ s.buffer.length) .recordLimit .refused
  update fun s => { s with reader := true }

/-- `_receive`; `none` is no bytes. -/
def receive : Option (List UInt8) → Talk Unit
  | none => stop .readContract .refused
  | some chunk => do
    stopIf (8192 < chunk.length) .readContract .refused
    update fun s => { s with outputBytes := s.outputBytes + chunk.length }
    let s ← look
    stopIf (k.outputLimit < s.outputBytes) .outputLimit .refused
    if chunk = [] then update fun s => { s.note .ended with eof := true } else receiveBytes chunk

def arrived : ReadResult → Talk (Option (List UInt8))
  | .bytes chunk => answer (some chunk)
  | .notBytes => answer none
  | .failed => stop .readError .failed
  | .cancelled => fail .cancelled

/-- The loop of `_audit`: every read that has ended is received. -/
def auditLoop : ℕ → Talk Unit
  | 0 => fail .unfinished
  | n + 1 => do
    let done ← ask w.readDone
    let s ← look
    if s.reader = true ∧ done = true then do
      update fun s => { s with reader := false }
      let result ← ask w.read
      let chunk ← arrived result
      receive k chunk
      auditLoop n
    else answer ()

/-- `_audit` -/
def audit : Talk Unit := do
  check k w
  auditLoop k w w.rounds

def awaitRead : Talk Unit := do
  suspend w
  let result ← ask w.read
  let chunk ← arrived result
  update fun s => { s with reader := false }
  check k w
  receive k chunk

/-- `_next_ui` -/
def nextUi : Talk Unit := do
  let s ← look
  stopIf (s.reader = false) .readUnavailable .refused
  awaitRead k w

/-- The loop of `_next`, and the record it takes. -/
def nextRecordLoop : ℕ → Talk (List UInt8)
  | 0 => fail .unfinished
  | n + 1 => do
    let s ← look
    match s.records with
    | record :: records => do
      update fun s => { s with records := records }
      return record
    | [] => do
      stopIf (s.eof = true) .eof .refused
      stopIf (s.reader = false) .readUnavailable .refused
      awaitRead k w
      nextRecordLoop n

/-- `_next` -/
def nextRecord : Talk (List UInt8) := do
  audit k w
  nextRecordLoop k w w.rounds

/-! ### Records -/

/-- `_ui` of a parsed record. -/
def uiValue (record : List UInt8) (value : Json) : Talk Bool :=
  if isSystem value then do
    let s ← look
    if ¬exactInertNotification value ∨ uiRecordLimit ≤ s.uiRecords then do
      latch .uiRecord (some (systemRecordCategory value))
      fail .refused
    else do
      update fun s => { s.note (.notified record) with uiRecords := s.uiRecords + 1 }
      return true
  else answer false

/-- `_ui` -/
def ui (record : List UInt8) : Talk Bool := do
  stopIf (carriageReturn ∈ record) .recordFormat .refused
  match parseRecord k.floats record with
  | none => stop .recordFormat .refused
  | some value => uiValue record value

/-- The loop of `_consume_ui_records`. -/
def consumeLoop : List (List UInt8) → Talk Unit
  | [] => answer ()
  | record :: records => do
    update fun s => { s with records := records }
    let inert ← ui k record
    stopIf (inert = false) .unexpectedRecord .refused
    consumeLoop records

/-- `_consume_ui_records` -/
def consumeUiRecords : Talk Unit := do
  let s ← look
  consumeLoop k s.records

def Session.classify (s : Session) (o : InitializeObservation) : Session :=
  { s with
    modeVerdict := some o.verdict
    modeMismatchReason := o.reason
    tokenSourceCategory := o.token
    apiKeySourceCategory := o.apiKey
    classifiedResponses := s.classifiedResponses + 1 }

/-- The end of `_response`, once a record is classified. -/
def judged (identifier : String) (record : List UInt8) (o : InitializeObservation) : Talk (Bool × ℚ) := do
  update fun s => s.classify o
  let receivedAt ← monotonic w
  update fun s => s.note (.classified identifier record o receivedAt)
  let s ← look
  if o.verdict = .modeMatch then answer (true, receivedAt)
  else if k.phase = .observe ∧ s.requestWrites = 1 ∧ o.reason = some .ambiguousApi then answer (false, receivedAt)
  else stop .responseVerdict .refused

def classifyRecord (identifier : String) (record : List UInt8) : Talk (Bool × ℚ) :=
  match observeInitialize k.floats k.alphanumeric record identifier with
  | none => fail .failed
  | some o => judged k w identifier record o

/-- The loop of `_response`. -/
def responseLoop (identifier : String) : ℕ → Talk (Bool × ℚ)
  | 0 => fail .unfinished
  | n + 1 => do
    let record ← nextRecord k w
    let inert ← ui k record
    if inert = true then responseLoop identifier n else classifyRecord k w identifier record

/-- `_response` -/
def response (identifier : String) : Talk (Bool × ℚ) := responseLoop k w identifier w.rounds

/-! ### Writing and waiting -/

/-- What `_write` requires of the buffers. -/
def unread : Talk Unit := do
  let s ← look
  stopIf (s.records ≠ []) .unexpectedRecord .refused
  stopIf (s.buffer ≠ []) .partialRecord .refused
  stopIf (s.eof = true) .eof .refused

/-- What `_write` spends before it writes. -/
def Session.spend (s : Session) (identifier : String) : Session :=
  { s.note (.wrote identifier) with
    ids := identifier :: s.ids
    requestWrites := s.requestWrites + 1
    inputBytes := s.inputBytes + (request "initialize" identifier).length }

/-- `_write` -/
def write : Talk String := do
  audit k w
  unread
  let s ← look
  stopIf (k.phase.writes ≤ s.requestWrites) .writeLimit .refused
  let token ← ask w.token
  stopIf (token.text ∈ s.ids) .requestIdReuse .refused
  stopIf (k.inputLimit < s.inputBytes + (request "initialize" token.text).length) .inputLimit .refused
  update fun s => s.spend token.text
  await w w.write
  audit k w
  return token.text

/-- The wait of `_spacing` for the read or the end of the pause. -/
def spacingWait : Talk Unit := do
  let s ← look
  failIf (s.reader = false) .failed
  let _ ← monotonic w
  await w w.wait
  check k w

/-- The loop of `_spacing`. -/
def spacingLoop (boundary : ℚ) : ℕ → Talk Unit
  | 0 => fail .unfinished
  | n + 1 => do
    audit k w
    consumeUiRecords k
    let s ← look
    stopIf (s.eof = true) (if s.buffer ≠ [] then .partialRecord else .eof) .refused
    if s.buffer ≠ [] then do
      nextUi k w
      spacingLoop boundary n
    else do
      let now ← monotonic w
      if boundary ≤ now then do
        audit k w
        let s ← look
        if s.records ≠ [] ∨ s.buffer ≠ [] ∨ s.eof = true then spacingLoop boundary n else answer ()
      else do
        spacingWait k w
        spacingLoop boundary n

/-- `_spacing` -/
def spacing (firstResponseAt : ℚ) : Talk Unit := spacingLoop k w (firstResponseAt + spacingSeconds) w.rounds

/-- The loop of `_drain`. -/
def drainLoop : ℕ → Talk Unit
  | 0 => fail .unfinished
  | n + 1 => do
    audit k w
    consumeUiRecords k
    let s ← look
    if s.eof = true then stopIf (s.buffer ≠ []) .partialRecord .refused
    else do
      nextUi k w
      drainLoop n

/-- `_drain` -/
def drain : Talk Unit := drainLoop k w w.rounds

/-! ### The whole conversation -/

def pausedRequest (receivedAt : ℚ) : Talk Bool := do
  spacing k w receivedAt
  let identifier ← write k w
  let second ← response k w identifier
  return second.1

def secondRequest (first : Bool × ℚ) : Talk Bool :=
  if first.1 = true then answer true else pausedRequest k w first.2

def closeAndDrain : Talk Unit := do
  audit k w
  consumeUiRecords k
  let s ← look
  stopIf (s.eof = true) .eof .refused
  update fun s => s.note .closing
  await w w.close
  check k w
  update fun s => { s.note .closed with stdinClosed := true }
  drain k w
  check k w
  update fun s => { s with state := .completed }

/-- The body of `__call__`. -/
def conversation : Talk Unit := do
  let identifier ← write k w
  let first ← response k w identifier
  let matched ← secondRequest k w first
  stopIf (matched = false) .responseVerdict .refused
  closeAndDrain k w

def joinReader (r : Except Raised Unit × Session) : Except Raised Unit × Session :=
  if r.2.reader then
    match w.join r.2.asked with
    | .done => (r.1, { r.2 with reader := false, asked := r.2.asked + 1 })
    | .failed => (.error .failed, { r.2 with reader := false, asked := r.2.asked + 1 })
    | .cancelled => (.error .cancelled, { r.2 with reader := false, asked := r.2.asked + 1 })
  else r

def refusedBy (r : Except Raised Unit × Session) : Except Raised Unit × Session :=
  match r.1 with
  | .ok () => r
  | .error e => (.error e, { r.2 with state := .refused })

/-- `__call__` of a new conversation. -/
def call : Except Raised Unit × Session :=
  joinReader w (refusedBy (conversation k w { Session.new with state := .running, reader := true }))

end Talk

/-! ## The observation of one process -/

/-- The exceptions `observe_maintenance_mode` tells apart. -/
inductive HostError where
  | cancelled
  | timeout
  /-- any other `Exception` -/
  | failed
  /-- a `BaseException` that holds no cancellation -/
  | fatal
deriving DecidableEq

structure Host where
  timeout : ℚ
  inputBytes : ℕ
  stdoutBytes : ℕ
  /-- the instant the conversation is built -/
  now : ℚ
  /-- why the exchange is not begun -/
  opening : Option HostError
  /-- the exchange gets as far as calling the conversation -/
  called : Bool
  exchange : Except HostError Unit
  /-- the check of the binding after the exchange -/
  binding : Except HostError Unit
  late : Bool
  /-- `_clean(result)` -/
  clean : Bool
  /-- `work_timeout.expired()` -/
  expired : Bool

/-- How `observe_maintenance_mode` ends. -/
inductive Outcome where
  | observed (observation : MaintenanceObservation)
  | invalidParameters
  | cancelled
  | fatal
  /-- `ValueError` of the observation it builds -/
  | invalidObservation

def Session.report (s : Session) (phase : MaintenancePhase) (lifecycle : MaintenanceLifecycle) : Report where
  phase := phase
  modeVerdict := s.modeVerdict
  lifecycle := lifecycle
  requestWrites := s.requestWrites
  uiRecords := s.uiRecords
  stdinClosed := s.stdinClosed
  eof := s.eof
  modeMismatchReason := s.modeMismatchReason
  classifiedResponses := some s.classifiedResponses
  refusalCode := s.refusalCode
  tokenSourceCategory := s.tokenSourceCategory
  apiKeySourceCategory := s.apiKeySourceCategory
  rejectedSystemCategory := s.rejectedSystemCategory

def build (r : Report) : Outcome := if valid : r.Valid then .observed ⟨r, valid⟩ else .invalidObservation

def lifecycleOf (h : Host) (s : Session) : MaintenanceLifecycle :=
  if h.late = true then .incomplete
  else if h.clean = false then .processRefused
  else if s.state = .completed then .observed
  else if s.state = .new then .incomplete
  else .refused

/-- The exception handler of `observe_maintenance_mode`, less the two that are raised again. -/
def recovered (phase : MaintenancePhase) (h : Host) (s : Session) (e : HostError) : Outcome :=
  let s := if e = .timeout ∧ h.expired = true then s.latch .deadline none else s
  build (s.report phase (if e = .timeout ∧ s.state ≠ .refused then .incomplete else .refused))

def concluded (phase : MaintenancePhase) (h : Host) (s : Session) : Except HostError Unit → Outcome
  | .ok () => build (s.report phase (lifecycleOf h s))
  | .error .cancelled => .cancelled
  | .error .fatal => .fatal
  | .error .timeout => recovered phase h s .timeout
  | .error .failed => recovered phase h s .failed

section Observe

variable {φ : Type} (floats : FloatText φ) (alphanumeric : Char → Bool) (phase : MaintenancePhase) (h : Host)
  (w : Surroundings)

/-- `ClaudeMaintenanceConversation.__init__` -/
def Host.setup : Setup φ where
  phase := phase
  inputLimit := min h.inputBytes inputBytesLimit
  outputLimit := min h.stdoutBytes outputBytesLimit
  deadline := h.now + h.timeout
  floats := floats
  alphanumeric := alphanumeric

def session : Session := if h.called then (call (h.setup floats alphanumeric phase) w).2 else Session.new

/-- `observe_maintenance_mode` -/
def observeMaintenanceMode : Outcome :=
  if ¬(0 < h.timeout ∧ h.timeout ≤ lifetimeSeconds ∧ 0 < h.inputBytes ∧ 0 < h.stdoutBytes) then .invalidParameters
  else
    match h.opening with
    | some e => concluded phase h Session.new (.error e)
    | none => concluded phase h (session floats alphanumeric phase h w) (h.exchange.bind fun _ => h.binding)

end Observe

end MaintenanceMode

end Constructicon
