import Mathlib.Data.List.Count
import Mathlib.Data.List.Induction
import Mathlib.Logic.Function.Basic
import Mathlib.Order.Nat

/-! # The attempt record of a read authorization

The record at one path, the files it is written through, and the handles that account for their one
attempt in it. Every operation on a file can fail, with or without having taken effect; a process can
die between any two of them; and a loss of power leaves only what was made durable. -/

namespace Constructicon

inductive Dispatch where
  | completed
  | notDispatched
  | possiblyDispatched
  deriving DecidableEq

inductive WorkerResultCategory where
  | success
  | nonzero
  | timeout
  | outputBound
  | incomplete
  | invalidUtf8
  deriving DecidableEq

/-- A bounded list of admitted callbacks; a result that was not observed is `none`. -/
structure CallbackObservation where
  admittedStarted : ℕ
  admittedCompleted : ℕ
  workerResults : List (Option WorkerResultCategory)
  ceiling : admittedStarted ≤ 8
  counted : admittedStarted = workerResults.length
  ordered : admittedCompleted ≤ admittedStarted
  succeeded : ∀ result ∈ workerResults.take admittedCompleted, result = some .success

def CallbackObservation.zero : CallbackObservation where
  admittedStarted := 0
  admittedCompleted := 0
  workerResults := []
  ceiling := by omega
  counted := rfl
  ordered := le_rfl
  succeeded := by simp

/-- What `observe_callbacks` accepts after `previous`: nothing retained is taken back. -/
def CallbackObservation.Extends (previous observation : CallbackObservation) : Prop :=
  previous.admittedStarted ≤ observation.admittedStarted ∧
    previous.admittedCompleted ≤ observation.admittedCompleted ∧
    ∀ pair ∈ previous.workerResults.zip observation.workerResults, pair.1 = none ∨ pair.1 = pair.2

instance (previous observation : CallbackObservation) : Decidable (previous.Extends observation) :=
  inferInstanceAs (Decidable (_ ∧ _ ∧ _))

inductive AttemptPhase where
  | acquired
  | intent
  | outcome
  deriving DecidableEq

def AttemptPhase.rank : AttemptPhase → ℕ
  | .acquired => 0
  | .intent => 1
  | .outcome => 2

variable {ι φ : Type}

structure AttemptBody (ι φ : Type) where
  identity : ι
  phase : AttemptPhase
  outcome : Option (Dispatch × φ)
  callbacks : Option CallbackObservation

/-! ## The record in memory -/

/-- `AttemptRecord`, as its process holds it. -/
structure AttemptRecord (ι : Type) where
  identity : ι
  callbacks : Option CallbackObservation := none
  callbackFailed : Bool := false
  phase : AttemptPhase := .acquired

namespace AttemptRecord

/-- The body of a write: the identity and the retained callbacks go into each. -/
def body (record : AttemptRecord ι) (phase : AttemptPhase) (outcome : Option (Dispatch × φ) := none) :
    AttemptBody ι φ where
  identity := record.identity
  phase := phase
  outcome := outcome
  callbacks := record.callbacks

/-- `_observe`: what it retains in memory before it writes, unless a write failed before. -/
def observe (record : AttemptRecord ι) (observation : CallbackObservation) : Option (AttemptRecord ι) :=
  if record.callbackFailed then none else some { record with callbacks := some observation }

def enableCallbacks (record : AttemptRecord ι) : Option (AttemptRecord ι) :=
  if record.callbacks.isSome ∨ record.phase ≠ .acquired then none else record.observe .zero

def observeCallbacks (record : AttemptRecord ι) (observation : CallbackObservation) :
    Option (AttemptRecord ι) :=
  record.callbacks.bind fun previous =>
    if record.phase ≠ .intent ∨ ¬previous.Extends observation then none else record.observe observation

/-- `intend` after an error: with callbacks retained, no later write may follow. -/
def intendFailed (record : AttemptRecord ι) : AttemptRecord ι :=
  { record with callbackFailed := record.callbackFailed || record.callbacks.isSome }

end AttemptRecord

/-! ## The files -/

inductive AttemptFile (ι φ : Type) where
  | torn
  | whole (body : AttemptBody ι φ)

/-- The record's path as a reader finds it, what of it would survive a loss of power, and the
temporary file beside it. -/
structure AttemptDisk (ι φ : Type) where
  path : Option (AttemptFile ι φ) := none
  kept : Option (AttemptFile ι φ) := none
  following : Option (AttemptFile ι φ) := none

inductive RecordFile where
  | path
  | following
  deriving DecidableEq

inductive RecordOp (ι φ : Type) where
  /-- `os.open` with `O_CREAT | O_EXCL`. -/
  | create (file : RecordFile)
  /-- The loop of `os.write`. -/
  | write (file : RecordFile) (body : AttemptBody ι φ)
  | fsync (file : RecordFile)
  /-- `os.replace` of the path by the temporary file. -/
  | replace
  | syncDirectory

/-- `_write`. -/
def writeOps (file : RecordFile) (body : AttemptBody ι φ) : List (RecordOp ι φ) :=
  [.create file, .write file body, .fsync file, .syncDirectory]

/-- `_replace`. -/
def replaceOps (body : AttemptBody ι φ) : List (RecordOp ι φ) :=
  writeOps .following body ++ [.replace, .syncDirectory]

namespace AttemptDisk

/-- Exclusive creation refuses a file that is there, and a rename needs one. -/
def allows (disk : AttemptDisk ι φ) : RecordOp ι φ → Bool
  | .create .path => disk.path.isNone
  | .create .following => disk.following.isNone
  | .replace => disk.following.isSome
  | _ => true

def apply (disk : AttemptDisk ι φ) : RecordOp ι φ → AttemptDisk ι φ
  | .create .path => { disk with path := some .torn }
  | .create .following => { disk with following := some .torn }
  | .write .path body => { disk with path := some (.whole body) }
  | .write .following body => { disk with following := some (.whole body) }
  | .fsync _ => disk
  | .replace => { disk with path := disk.following, following := none }
  | .syncDirectory => { disk with kept := disk.path }

end AttemptDisk

/-- How the system answers an operation: an error may come after the operation took effect. -/
inductive OpAnswer where
  | returned
  | raised (took : Bool)
  deriving DecidableEq

namespace AttemptDisk

def succeeds (disk : AttemptDisk ι φ) (op : RecordOp ι φ) (answer : OpAnswer) : Bool :=
  disk.allows op && answer == .returned

def perform (disk : AttemptDisk ι φ) (op : RecordOp ι φ) (answer : OpAnswer) : AttemptDisk ι φ :=
  if disk.allows op ∧ answer ≠ .raised false then disk.apply op else disk

end AttemptDisk

/-! ## The handles -/

inductive Purpose where
  | reserve
  | enable
  | intend
  | observe
  | complete
  deriving DecidableEq

structure RecordWrite (ι φ : Type) where
  purpose : Purpose
  body : AttemptBody ι φ
  ops : List (RecordOp ι φ)

/-- A process on its way through one acquisition; `sent` is the conversation's `turn_sent`. -/
inductive Attempt (ι φ : Type) where
  | idle
  | writing (record : AttemptRecord ι) (sent : Bool) (write : RecordWrite ι φ)
  /-- The handle exists and did not execute yet. -/
  | ready (record : AttemptRecord ι)
  | conversing (record : AttemptRecord ι) (sent : Bool)
  /-- `_intend` let `turn/start` pass: its write comes next. -/
  | granted (record : AttemptRecord ι) (sent : Bool)
  | gone

inductive AttemptEvent where
  /-- `reserve` returned. -/
  | reserved
  /-- The write of `turn/start` began. -/
  | began
  /-- The exchange was accepted as `ExecutorSuccess`. -/
  | accepted
  deriving DecidableEq

/-- What a handle does besides its file operations; which of them come, and when, is up to the
conversation. -/
inductive AttemptAct (ι φ : Type) where
  | reserve (identity : ι)
  /-- `_converse` starts; callbacks are observed for a contained workspace. -/
  | execute (callbacks : Bool)
  | requestTurn
  | sendTurn
  /-- A budget, an expiry or a fence refuses the turn after its intent was recorded. -/
  | refuseTurn
  | observe (observation : CallbackObservation)
  /-- `_converse` ended; `success` when its outcome is an `ExecutorSuccess`. -/
  | settle (success : Bool) (facts : φ)
  | die

namespace Attempt

/-- `_settle_attempt`'s classification. -/
def dispatchOf (sent success : Bool) : Dispatch :=
  if sent then if success then .completed else .possiblyDispatched else .notDispatched

/-- The start of a write of `body`. -/
def replacing (record : AttemptRecord ι) (sent : Bool) (purpose : Purpose) (body : AttemptBody ι φ) :
    Attempt ι φ :=
  .writing record sent { purpose := purpose, body := body, ops := replaceOps body }

def reserve (identity : ι) : Attempt ι φ :=
  let record : AttemptRecord ι := { identity := identity }
  .writing record false
    { purpose := .reserve, body := record.body .acquired, ops := writeOps .path (record.body .acquired) }

def execute (record : AttemptRecord ι) (callbacks : Bool) : Attempt ι φ :=
  if callbacks then
    record.enableCallbacks.elim (.conversing record false)
      fun enabled => replacing enabled false .enable (enabled.body enabled.phase)
  else .conversing record false

/-- `complete`, which leaves the record alone once an observation could not be retained. -/
def settle (record : AttemptRecord ι) (sent success : Bool) (facts : φ) : Attempt ι φ :=
  if record.callbackFailed then .gone
  else replacing record sent .complete (record.body .outcome (some (dispatchOf sent success, facts)))

def observe (record : AttemptRecord ι) (sent : Bool) (observation : CallbackObservation) : Attempt ι φ :=
  (record.observeCallbacks observation).elim (.conversing record sent)
    fun observed => replacing observed sent .observe (observed.body observed.phase)

def act : Attempt ι φ → AttemptAct ι φ → Attempt ι φ × List AttemptEvent
  | .idle, .reserve identity => (reserve identity, [])
  | .ready record, .execute callbacks => (execute record callbacks, [])
  | .conversing record sent, .requestTurn =>
    (replacing record sent .intend (record.body .intent), [])
  | .granted record _, .sendTurn => (.conversing record true, [.began])
  | .granted record sent, .refuseTurn => (.conversing record sent, [])
  | .conversing record sent, .observe observation => (observe record sent observation, [])
  | .conversing record sent, .settle success facts =>
    (settle record sent success facts, if success then [.accepted] else [])
  | _, .die => (.gone, [])
  | attempt, _ => (attempt, [])

def written (record : AttemptRecord ι) (sent : Bool) : Purpose → Attempt ι φ × List AttemptEvent
  | .reserve => (.ready record, [.reserved])
  | .enable => (.conversing record sent, [])
  | .intend => (.granted { record with phase := .intent } sent, [])
  | .observe => (.conversing record sent, [])
  | .complete => (.gone, [])

/-- An operation of a write failed. `enable_callbacks` raises out of `_converse`, and what is left to
settle then leaves the record alone. -/
def unwritten (record : AttemptRecord ι) (sent : Bool) : Purpose → Attempt ι φ
  | .reserve => .gone
  | .enable => .gone
  | .intend => .conversing record.intendFailed sent
  | .observe => .conversing { record with callbackFailed := true } sent
  | .complete => .gone

/-- The operation before `ops` was answered. -/
def answered (record : AttemptRecord ι) (sent : Bool) (w : RecordWrite ι φ) (ops : List (RecordOp ι φ))
    (success : Bool) : Attempt ι φ × List AttemptEvent :=
  if success then
    if ops.isEmpty then written record sent w.purpose
    else (.writing record sent { w with ops := ops }, [])
  else (unwritten record sent w.purpose, [])

/-- What the end of the machine leaves of a process: those that come later are still idle. -/
def lost : Attempt ι φ → Attempt ι φ
  | .idle => .idle
  | _ => .gone

end Attempt

/-! ## The machine -/

structure AttemptWorld (ι φ : Type) where
  disk : AttemptDisk ι φ := {}
  attempts : ℕ → Attempt ι φ := fun _ => .idle
  log : List AttemptEvent := []

inductive AttemptAction (ι φ : Type) where
  /-- Process `p` does something other than a file operation. -/
  | act (p : ℕ) (act : AttemptAct ι φ)
  /-- The next file operation of process `p` is answered. -/
  | step (p : ℕ) (answer : OpAnswer)
  /-- The system writes the directory back on its own. -/
  | flush
  | powerLoss

namespace AttemptWorld

/-- Process `p` goes on as `after`, and `events` happened. -/
def goOn (w : AttemptWorld ι φ) (p : ℕ) (after : Attempt ι φ × List AttemptEvent)
    (disk : AttemptDisk ι φ) : AttemptWorld ι φ where
  disk := disk
  attempts := Function.update w.attempts p after.1
  log := w.log ++ after.2

def operate (w : AttemptWorld ι φ) (p : ℕ) (answer : OpAnswer) : Attempt ι φ → AttemptWorld ι φ
  | .writing record sent { purpose, body, ops := op :: ops } =>
    w.goOn p (Attempt.answered record sent { purpose, body, ops := op :: ops } ops
      (w.disk.succeeds op answer)) (w.disk.perform op answer)
  | _ => w

def step (w : AttemptWorld ι φ) : AttemptAction ι φ → AttemptWorld ι φ
  | .act p act => w.goOn p ((w.attempts p).act act) w.disk
  | .step p answer => w.operate p answer (w.attempts p)
  | .flush => { w with disk := { w.disk with kept := w.disk.path } }
  | .powerLoss =>
    { w with
      disk := { w.disk with path := w.disk.kept, following := none }
      attempts := fun p => (w.attempts p).lost }

def run (acts : List (AttemptAction ι φ)) : AttemptWorld ι φ :=
  acts.foldl step {}

end AttemptWorld

/-! ## What one content shows after another -/

structure AttemptBody.Precedes (a b : AttemptBody ι φ) : Prop where
  phase : a.phase.rank ≤ b.phase.rank
  callbacks : ∀ before ∈ a.callbacks, ∃ after ∈ b.callbacks,
    before.admittedStarted ≤ after.admittedStarted ∧ before.admittedCompleted ≤ after.admittedCompleted

theorem AttemptBody.Precedes.refl (a : AttemptBody ι φ) : a.Precedes a where
  phase := le_refl _
  callbacks before held := ⟨before, held, le_refl _, le_refl _⟩

theorem AttemptBody.Precedes.trans {a b c : AttemptBody ι φ} (ab : a.Precedes b) (bc : b.Precedes c) :
    a.Precedes c where
  phase := ab.phase.trans bc.phase
  callbacks before held := by
    obtain ⟨middle, there, started, completed⟩ := ab.callbacks before held
    obtain ⟨after, here, started', completed'⟩ := bc.callbacks middle there
    exact ⟨after, here, started.trans started', completed.trans completed'⟩

/-- A file's content after another: nothing there, a part of a text, and the bodies in their order. -/
def AttemptFile.Precedes : Option (AttemptFile ι φ) → Option (AttemptFile ι φ) → Prop
  | none, _ => True
  | some .torn, file => file ≠ none
  | some (.whole a), file => ∃ b, file = some (.whole b) ∧ a.Precedes b

namespace AttemptFile

theorem Precedes.refl (file : Option (AttemptFile ι φ)) : Precedes file file := by
  cases file with
  | none => trivial
  | some content =>
    cases content with
    | torn => simp [Precedes]
    | whole a => exact ⟨a, rfl, .refl a⟩

theorem Precedes.trans {f g h : Option (AttemptFile ι φ)} (fg : Precedes f g) (gh : Precedes g h) :
    Precedes f h := by
  cases f with
  | none => trivial
  | some content =>
    cases content with
    | torn =>
      intro gone
      subst gone
      cases g with
      | none => exact fg rfl
      | some middle =>
        cases middle with
        | torn => exact gh rfl
        | whole b =>
          obtain ⟨c, found, -⟩ := gh
          cases found
    | whole a =>
      obtain ⟨b, rfl, ab⟩ := fg
      obtain ⟨c, rfl, bc⟩ := gh
      exact ⟨c, rfl, ab.trans bc⟩

theorem Precedes.whole {a : AttemptBody ι φ} {b : AttemptBody ι φ} (ab : a.Precedes b) :
    Precedes (some (.whole a)) (some (.whole b)) :=
  ⟨b, rfl, ab⟩

theorem Precedes.none_left {f : Option (AttemptFile ι φ)} (before : Precedes f none) : f = none := by
  cases f with
  | none => rfl
  | some content =>
    cases content with
    | torn => exact absurd rfl before
    | whole a =>
      obtain ⟨b, found, -⟩ := before
      cases found

end AttemptFile

open AttemptFile (Precedes)

/-! ## What a content tells -/

structure AttemptBody.Truthful (log : List AttemptEvent) (body : AttemptBody ι φ) : Prop where
  formed : body.outcome ≠ none → body.phase = .outcome
  acquired : body.phase = .acquired → .began ∉ log
  settled : ∀ facts, body.outcome = some (.notDispatched, facts) → .began ∉ log
  completed : ∀ facts, body.outcome = some (.completed, facts) → .accepted ∈ log

theorem AttemptBody.Truthful.more {log : List AttemptEvent} {body : AttemptBody ι φ}
    (truthful : body.Truthful log) {events : List AttemptEvent} (other : .began ∉ events) :
    body.Truthful (log ++ events) where
  formed := truthful.formed
  acquired phase := by
    rw [List.mem_append]
    exact not_or.mpr ⟨truthful.acquired phase, other⟩
  settled facts outcome := by
    rw [List.mem_append]
    exact not_or.mpr ⟨truthful.settled facts outcome, other⟩
  completed facts outcome := List.mem_append_left _ (truthful.completed facts outcome)

theorem AttemptBody.Truthful.ofIntent {log : List AttemptEvent} {body : AttemptBody ι φ}
    (phase : body.phase = .intent) (outcome : body.outcome = none) : body.Truthful log where
  formed settled := absurd outcome settled
  acquired acquired := by simp [phase] at acquired
  settled facts settled := by simp [outcome] at settled
  completed facts settled := by simp [outcome] at settled

def Tells (log : List AttemptEvent) (file : Option (AttemptFile ι φ)) : Prop :=
  ∀ body, file = some (.whole body) → body.Truthful log

/-! ## The invariant -/

/-- What can follow in a write of `body`, and what the files hold meanwhile. -/
inductive Remaining (body : AttemptBody ι φ) (disk : AttemptDisk ι φ) : List (RecordOp ι φ) → Prop where
  | create : Remaining body disk (replaceOps body)
  | write : Remaining body disk
      [.write .following body, .fsync .following, .syncDirectory, .replace, .syncDirectory]
  | fsync (filled : disk.following = some (.whole body)) :
      Remaining body disk [.fsync .following, .syncDirectory, .replace, .syncDirectory]
  | persist (filled : disk.following = some (.whole body)) :
      Remaining body disk [.syncDirectory, .replace, .syncDirectory]
  | replace (filled : disk.following = some (.whole body)) :
      Remaining body disk [.replace, .syncDirectory]
  | last (shown : disk.path = some (.whole body)) : Remaining body disk [.syncDirectory]
  | reserve : Remaining body disk [.write .path body, .fsync .path, .syncDirectory]
  | reserved (shown : disk.path = some (.whole body)) :
      Remaining body disk [.fsync .path, .syncDirectory]

def Intended (disk : AttemptDisk ι φ) : Prop :=
  ∃ body, disk.kept = some (.whole body) ∧ body.phase ≠ .acquired

structure Talks (disk : AttemptDisk ι φ) (log : List AttemptEvent) (record : AttemptRecord ι)
    (sent : Bool) : Prop where
  shown : Precedes disk.path (some (.whole (record.body .intent)))
  intended : record.phase = .intent → Intended disk
  dispatched : sent = true → record.phase = .intent
  began : .began ∈ log → sent = true
  reserved : .reserved ∈ log

structure Writes (disk : AttemptDisk ι φ) (log : List AttemptEvent) (record : AttemptRecord ι)
    (sent : Bool) (write : RecordWrite ι φ) : Prop where
  bounded : Precedes disk.path (some (.whole write.body))
  truthful : write.body.Truthful log
  remaining : Remaining write.body disk write.ops
  reserving : write.purpose = .reserve → log = [] ∧ sent = false ∧ record.phase = .acquired ∧
    record.callbacks = none ∧ write.body = record.body .acquired
  talking : write.purpose = .enable ∨ write.purpose = .intend ∨ write.purpose = .observe →
    Talks disk log record sent ∧ write.body.Precedes (record.body .intent)
  intending : write.purpose = .intend → write.body.phase = .intent

inductive Standing (disk : AttemptDisk ι φ) (log : List AttemptEvent) : Attempt ι φ → Prop where
  | gone : Standing disk log .gone
  | ready {record : AttemptRecord ι} (talks : Talks disk log record false)
      (acquired : record.phase = .acquired) (fresh : record.callbacks = none)
      (shown : Precedes disk.path (some (.whole (record.body .acquired)))) :
      Standing disk log (.ready record)
  | conversing {record : AttemptRecord ι} {sent : Bool} (talks : Talks disk log record sent) :
      Standing disk log (.conversing record sent)
  | granted {record : AttemptRecord ι} {sent : Bool} (talks : Talks disk log record sent)
      (intent : record.phase = .intent) : Standing disk log (.granted record sent)
  | writing {record : AttemptRecord ι} {sent : Bool} {write : RecordWrite ι φ}
      (writes : Writes disk log record sent write) : Standing disk log (.writing record sent write)

def Outside (attempt : Attempt ι φ) : Prop :=
  attempt = .idle ∨ attempt = .gone ∨ ∃ identity, attempt = .reserve identity

inductive RecordCustody (w : AttemptWorld ι φ) : Prop where
  | vacant (absent : w.disk.path = none) (outside : ∀ q, Outside (w.attempts q))
  | owned (p : ℕ) (present : w.disk.path ≠ none) (standing : Standing w.disk w.log (w.attempts p))
      (outside : ∀ q, q ≠ p → Outside (w.attempts q))

structure AttemptWorld.Sound (w : AttemptWorld ι φ) : Prop where
  order : Precedes w.disk.kept w.disk.path
  path : Tells w.log w.disk.path
  kept : Tells w.log w.disk.kept
  once : w.log.count .reserved ≤ 1
  durable : w.log ≠ [] → ∃ body, w.disk.kept = some (.whole body)
  custody : RecordCustody w

/-! ## The files over one operation -/

/-- How the files may go on: what is shown and what is kept only grow. -/
structure Grown (disk disk' : AttemptDisk ι φ) : Prop where
  path : Precedes disk.path disk'.path
  kept : Precedes disk.kept disk'.kept

theorem Intended.grown {disk disk' : AttemptDisk ι φ} (intended : Intended disk)
    (kept : Precedes disk.kept disk'.kept) : Intended disk' := by
  obtain ⟨body, found, intent⟩ := intended
  rw [found] at kept
  obtain ⟨body', found', precedes⟩ := kept
  refine ⟨body', found', ?_⟩
  intro acquired
  have rank := precedes.phase
  rw [acquired] at rank
  cases phase : body.phase with
  | acquired => exact intent phase
  | intent => simp [phase, AttemptPhase.rank] at rank
  | outcome => simp [phase, AttemptPhase.rank] at rank

/-- What an operation of a write makes of the path and of what is kept of it. -/
structure RecordMoves (body : AttemptBody ι φ) (disk disk' : AttemptDisk ι φ) : Prop where
  path : disk'.path = disk.path ∨ disk'.path = some (.whole body)
  kept : disk'.kept = disk.kept ∨ disk'.kept = disk.path

variable {body : AttemptBody ι φ} {disk : AttemptDisk ι φ} {op : RecordOp ι φ} {ops : List (RecordOp ι φ)}

theorem Remaining.moves (remaining : Remaining body disk (op :: ops)) (allowed : disk.allows op) :
    RecordMoves body disk (disk.apply op) := by
  cases remaining with
  | create => exact ⟨.inl rfl, .inl rfl⟩
  | write => exact ⟨.inl rfl, .inl rfl⟩
  | fsync filled => exact ⟨.inl rfl, .inl rfl⟩
  | persist filled => exact ⟨.inl rfl, .inr rfl⟩
  | replace filled => exact ⟨.inr filled, .inl rfl⟩
  | last shown => exact ⟨.inl rfl, .inr rfl⟩
  | reserve => exact ⟨.inr rfl, .inl rfl⟩
  | reserved shown => exact ⟨.inl rfl, .inl rfl⟩

theorem Remaining.performs (remaining : Remaining body disk (op :: ops)) (answer : OpAnswer) :
    RecordMoves body disk (disk.perform op answer) := by
  unfold AttemptDisk.perform
  split
  case isTrue took => exact remaining.moves took.1
  case isFalse => exact ⟨.inl rfl, .inl rfl⟩

theorem Remaining.next (remaining : Remaining body disk (op :: ops)) {answer : OpAnswer}
    (success : disk.succeeds op answer = true) :
    if ops.isEmpty then (disk.perform op answer).kept = some (.whole body)
    else Remaining body (disk.perform op answer) ops := by
  obtain ⟨allowed, returned⟩ : disk.allows op = true ∧ answer = .returned := by
    simpa [AttemptDisk.succeeds] using success
  subst returned
  have applied : disk.perform op .returned = disk.apply op := by simp [AttemptDisk.perform, allowed]
  rw [applied]
  cases remaining with
  | create => exact .write
  | write => exact .fsync rfl
  | fsync filled => exact .persist filled
  | persist filled => exact .replace filled
  | replace filled => exact .last filled
  | last shown => exact shown
  | reserve => exact .reserved rfl
  | reserved shown => exact .last shown

theorem RecordMoves.grown {disk' : AttemptDisk ι φ} (moves : RecordMoves body disk disk')
    (order : Precedes disk.kept disk.path) (bounded : Precedes disk.path (some (.whole body))) :
    Grown disk disk' where
  path := by
    rcases moves.path with same | shown
    · rw [same]
      exact .refl _
    · rw [shown]
      exact bounded
  kept := by
    rcases moves.kept with same | shown
    · rw [same]
      exact .refl _
    · rw [shown]
      exact order

theorem RecordMoves.order {disk' : AttemptDisk ι φ} (moves : RecordMoves body disk disk')
    (order : Precedes disk.kept disk.path) (bounded : Precedes disk.path (some (.whole body))) :
    Precedes disk'.kept disk'.path := by
  have path := (moves.grown order bounded).path
  rcases moves.kept with same | shown
  · rw [same]
    exact order.trans path
  · rw [shown]
    exact path

theorem RecordMoves.bounded {disk' : AttemptDisk ι φ} (moves : RecordMoves body disk disk')
    (bounded : Precedes disk.path (some (.whole body))) : Precedes disk'.path (some (.whole body)) := by
  rcases moves.path with same | shown
  · rw [same]
    exact bounded
  · rw [shown]
    exact .refl _

/-! ## A handle over one step -/

variable {log : List AttemptEvent} {record : AttemptRecord ι} {sent : Bool}

theorem Talks.moved {disk' : AttemptDisk ι φ} (talks : Talks disk log record sent)
    (moves : RecordMoves body disk disk') (order : Precedes disk.kept disk.path)
    (bounded : Precedes disk.path (some (.whole body))) (below : body.Precedes (record.body .intent)) :
    Talks disk' log record sent where
  shown := (moves.bounded bounded).trans (.whole below)
  intended intent := (talks.intended intent).grown (moves.grown order bounded).kept
  dispatched := talks.dispatched
  began := talks.began
  reserved := talks.reserved

theorem Talks.failed (talks : Talks disk log record sent) (failed : Bool) :
    Talks disk log { record with callbackFailed := failed } sent where
  shown := talks.shown
  intended := talks.intended
  dispatched := talks.dispatched
  began := talks.began
  reserved := talks.reserved

theorem Writes.unwritten {write : RecordWrite ι φ} {disk' : AttemptDisk ι φ}
    (writes : Writes disk log record sent write) (moves : RecordMoves write.body disk disk')
    (order : Precedes disk.kept disk.path) :
    Standing disk' log (Attempt.unwritten record sent write.purpose) := by
  have talks : write.purpose = .enable ∨ write.purpose = .intend ∨ write.purpose = .observe →
      Talks disk' log record sent := by
    intro purpose
    obtain ⟨talks, below⟩ := writes.talking purpose
    exact talks.moved moves order writes.bounded below
  cases purpose : write.purpose with
  | reserve => exact .gone
  | enable => exact .gone
  | intend => exact .conversing ((talks (by simp [purpose])).failed _)
  | observe => exact .conversing ((talks (by simp [purpose])).failed _)
  | complete => exact .gone

structure Reached (disk : AttemptDisk ι φ) (log : List AttemptEvent)
    (after : Attempt ι φ × List AttemptEvent) : Prop where
  standing : Standing disk (log ++ after.2) after.1
  once : (log ++ after.2).count .reserved ≤ 1
  durable : log ++ after.2 ≠ [] → ∃ body, disk.kept = some (.whole body)
  path : Tells (log ++ after.2) disk.path
  kept : Tells (log ++ after.2) disk.kept

theorem Reached.quiet {attempt : Attempt ι φ} (standing : Standing disk log attempt)
    (once : log.count .reserved ≤ 1) (durable : log ≠ [] → ∃ body, disk.kept = some (.whole body))
    (path : Tells log disk.path) (kept : Tells log disk.kept) : Reached disk log (attempt, []) where
  standing := by rwa [List.append_nil]
  once := by rwa [List.append_nil]
  durable := by rwa [List.append_nil]
  path := by rwa [List.append_nil]
  kept := by rwa [List.append_nil]

theorem Writes.written {write : RecordWrite ι φ} {disk' : AttemptDisk ι φ}
    (writes : Writes disk log record sent write) (moves : RecordMoves write.body disk disk')
    (order : Precedes disk.kept disk.path) (whole : disk'.kept = some (.whole write.body))
    (once : log.count .reserved ≤ 1) (path : Tells log disk'.path) (kept : Tells log disk'.kept) :
    Reached disk' log (Attempt.written record sent write.purpose) := by
  have durable : ∀ events : List AttemptEvent, log ++ events ≠ [] → ∃ body, disk'.kept = some (.whole body) :=
    fun _ _ => ⟨_, whole⟩
  have talks : write.purpose = .enable ∨ write.purpose = .intend ∨ write.purpose = .observe →
      Talks disk' log record sent := by
    intro purpose
    obtain ⟨talks, below⟩ := writes.talking purpose
    exact talks.moved moves order writes.bounded below
  cases purpose : write.purpose with
  | reserve =>
    obtain ⟨rfl, rfl, acquired, fresh, body⟩ := writes.reserving purpose
    have shown := moves.bounded writes.bounded
    rw [body] at shown
    have above : (record.body (φ := φ) .acquired).Precedes (record.body .intent) :=
      ⟨by simp [AttemptRecord.body, AttemptPhase.rank], fun before held => ⟨before, held, le_refl _, le_refl _⟩⟩
    exact {
      standing := .ready
        { shown := shown.trans (.whole above)
          intended := fun intent => by simp [acquired] at intent
          dispatched := fun sent => by cases sent
          began := fun began => by simp [Attempt.written] at began
          reserved := by simp [Attempt.written] }
        acquired fresh shown
      once := by simp [Attempt.written]
      durable := durable _
      path := fun body found => (path body found).more (by simp [Attempt.written])
      kept := fun body found => (kept body found).more (by simp [Attempt.written]) }
  | enable => exact .quiet (.conversing (talks (by simp [purpose]))) once (fun _ => ⟨_, whole⟩) path kept
  | intend =>
    have talking := talks (by simp [purpose])
    refine .quiet (.granted ?_ rfl) once (fun _ => ⟨_, whole⟩) path kept
    exact {
      shown := talking.shown
      intended := fun _ => ⟨write.body, whole, by simp [writes.intending purpose]⟩
      dispatched := fun _ => rfl
      began := talking.began
      reserved := talking.reserved }
  | observe => exact .quiet (.conversing (talks (by simp [purpose]))) once (fun _ => ⟨_, whole⟩) path kept
  | complete => exact .quiet .gone once (fun _ => ⟨_, whole⟩) path kept

theorem Writes.next {write : RecordWrite ι φ} {disk' : AttemptDisk ι φ}
    (writes : Writes disk log record sent write) (moves : RecordMoves write.body disk disk')
    (order : Precedes disk.kept disk.path) (remaining : Remaining write.body disk' ops) :
    Writes disk' log record sent { write with ops := ops } where
  bounded := moves.bounded writes.bounded
  truthful := writes.truthful
  remaining := remaining
  reserving := writes.reserving
  talking purpose := by
    obtain ⟨talks, below⟩ := writes.talking purpose
    exact ⟨talks.moved moves order writes.bounded below, below⟩
  intending := writes.intending

theorem RecordMoves.tells {disk' : AttemptDisk ι φ} (moves : RecordMoves body disk disk')
    (truthful : body.Truthful log) (path : Tells log disk.path) (kept : Tells log disk.kept) :
    Tells log disk'.path ∧ Tells log disk'.kept := by
  constructor
  · rcases moves.path with same | shown
    · rwa [same]
    · rw [shown]
      rintro body' ⟨⟩
      exact truthful
  · rcases moves.kept with same | shown
    · rwa [same]
    · rwa [shown]

theorem Writes.answered {write : RecordWrite ι φ} (writes : Writes disk log record sent write)
    (first : write.ops = op :: ops) (answer : OpAnswer) (order : Precedes disk.kept disk.path)
    (once : log.count .reserved ≤ 1) (durable : log ≠ [] → ∃ body, disk.kept = some (.whole body))
    (path : Tells log disk.path) (kept : Tells log disk.kept) :
    Reached (disk.perform op answer) log
      (Attempt.answered record sent write ops (disk.succeeds op answer)) := by
  have remaining := writes.remaining
  rw [first] at remaining
  have moves := remaining.performs answer
  have grown := moves.grown order writes.bounded
  obtain ⟨path', kept'⟩ := moves.tells writes.truthful path kept
  have durable' : log ≠ [] → ∃ body, (disk.perform op answer).kept = some (.whole body) := by
    intro told
    obtain ⟨body, found⟩ := durable told
    have kept := grown.kept
    rw [found] at kept
    obtain ⟨body', found', -⟩ := kept
    exact ⟨body', found'⟩
  unfold Attempt.answered
  cases success : disk.succeeds op answer with
  | false => exact .quiet (writes.unwritten moves order) once durable' path' kept'
  | true =>
    have next := remaining.next success
    by_cases last : ops.isEmpty = true
    · rw [if_pos last] at next
      rw [if_pos rfl, if_pos last]
      exact writes.written moves order next once path' kept'
    · rw [if_neg last] at next
      rw [if_pos rfl, if_neg last]
      exact .quiet (.writing (writes.next moves order next)) once durable' path' kept'

theorem Talks.intents (talks : Talks disk log record sent) (intent : record.phase = .intent)
    {file : Option (AttemptFile ι φ)}
    (after : Precedes disk.kept file) (before : Precedes file disk.path) {body : AttemptBody ι φ}
    (found : file = some (.whole body)) : body.phase = .intent := by
  obtain ⟨first, held, begun⟩ := talks.intended intent
  rw [held, found] at after
  obtain ⟨body', same, above⟩ := after
  cases same
  have below := before.trans talks.shown
  rw [found] at below
  obtain ⟨last, same, under⟩ := below
  cases same
  have low := above.phase
  have high := under.phase
  cases phase : body.phase with
  | acquired =>
    rw [phase] at low
    cases start : first.phase with
    | acquired => exact absurd start begun
    | intent => simp [start, AttemptPhase.rank] at low
    | outcome => simp [start, AttemptPhase.rank] at low
  | intent => rfl
  | outcome => simp [phase, AttemptRecord.body, AttemptPhase.rank] at high

theorem Talks.told (talks : Talks disk log record sent) (sent' : Bool) {events : List AttemptEvent}
    (dispatched : sent' = true → record.phase = .intent) (began : .began ∈ log ++ events → sent' = true) :
    Talks disk (log ++ events) record sent' where
  shown := talks.shown
  intended := talks.intended
  dispatched := dispatched
  began := began
  reserved := List.mem_append_left _ talks.reserved

theorem observe_body {observation : CallbackObservation} {record' : AttemptRecord ι}
    (observed : record.observe observation = some record') :
    record' = { record with callbacks := some observation } := by
  unfold AttemptRecord.observe at observed
  split at observed
  case isTrue => cases observed
  case isFalse => exact (Option.some.inj observed).symm

theorem enable_body {record' : AttemptRecord ι} (enabled : record.enableCallbacks = some record') :
    record.callbacks = none ∧ record.phase = .acquired ∧
      record' = { record with callbacks := some .zero } := by
  unfold AttemptRecord.enableCallbacks at enabled
  split at enabled
  case isTrue => cases enabled
  case isFalse fresh =>
    obtain ⟨none, acquired⟩ := not_or.mp fresh
    exact ⟨by simpa using none, not_not.mp acquired, observe_body enabled⟩

theorem observed_body {observation : CallbackObservation} {record' : AttemptRecord ι}
    (observed : record.observeCallbacks observation = some record') :
    record.phase = .intent ∧ record' = { record with callbacks := some observation } ∧
      ∀ before ∈ record.callbacks, before.Extends observation := by
  unfold AttemptRecord.observeCallbacks at observed
  obtain ⟨previous, held, observed⟩ := Option.bind_eq_some_iff.mp observed
  split at observed
  case isTrue => cases observed
  case isFalse accepted =>
    obtain ⟨intent, extends'⟩ := not_or.mp accepted
    refine ⟨not_not.mp intent, observe_body observed, ?_⟩
    intro before found
    rw [held] at found
    cases found
    exact not_not.mp extends'

theorem body_precedes {phase phase' : AttemptPhase} {outcome outcome' : Option (Dispatch × φ)}
    (rank : phase.rank ≤ phase'.rank) :
    (record.body phase outcome).Precedes (record.body phase' outcome') where
  phase := rank
  callbacks before held := ⟨before, held, le_refl _, le_refl _⟩

/-- `execute` on a fresh handle. -/
theorem standing_execute (talks : Talks disk log record false) (acquired : record.phase = .acquired)
    (fresh : record.callbacks = none) (shown : Precedes disk.path (some (.whole (record.body .acquired))))
    (callbacks : Bool) : Standing disk log (Attempt.execute record callbacks) := by
  unfold Attempt.execute
  cases callbacks with
  | false => exact .conversing talks
  | true =>
    rw [if_pos rfl]
    cases enabled : record.enableCallbacks with
    | none => exact .conversing talks
    | some record' =>
      obtain ⟨-, -, rfl⟩ := enable_body enabled
      have grows : (record.body (φ := φ) .acquired).Precedes
          (({ record with callbacks := some .zero } : AttemptRecord ι).body .acquired) :=
        ⟨le_refl _, fun before held => by simp [AttemptRecord.body, fresh] at held⟩
      have above := shown.trans (.whole grows)
      have intent : (({ record with callbacks := some .zero } : AttemptRecord ι).body (φ := φ)
          record.phase).Precedes
          (({ record with callbacks := some .zero } : AttemptRecord ι).body .intent) :=
        body_precedes (by simp [acquired, AttemptPhase.rank])
      refine .writing
        { bounded := ?_
          truthful := ?_
          remaining := .create
          reserving := fun purpose => by cases purpose
          talking := fun _ => ⟨?_, intent⟩
          intending := fun purpose => by cases purpose }
      · rwa [acquired]
      · exact {
          formed := fun settled => absurd rfl settled
          acquired := fun _ began => by simpa using talks.began began
          settled := fun facts settled => by cases settled
          completed := fun facts settled => by cases settled }
      · exact {
          shown := above.trans (.whole (body_precedes (by simp [AttemptPhase.rank])))
          intended := talks.intended
          dispatched := talks.dispatched
          began := talks.began
          reserved := talks.reserved }

theorem standing_requestTurn (talks : Talks disk log record sent) :
    Standing disk log (Attempt.replacing record sent .intend (record.body .intent)) := by
  refine .writing
    { bounded := talks.shown
      truthful := .ofIntent rfl rfl
      remaining := .create
      reserving := fun purpose => by cases purpose
      talking := fun _ => ⟨talks, .refl _⟩
      intending := fun _ => rfl }

theorem standing_observe (talks : Talks disk log record sent) (observation : CallbackObservation) :
    Standing disk log (Attempt.observe record sent observation) := by
  unfold Attempt.observe
  cases observed : record.observeCallbacks observation with
  | none => exact .conversing talks
  | some record' =>
    obtain ⟨intent, rfl, accepted⟩ := observed_body observed
    have grows : (record.body (φ := φ) .intent).Precedes
        (({ record with callbacks := some observation } : AttemptRecord ι).body .intent) :=
      ⟨le_refl _, fun before held =>
        ⟨observation, rfl, (accepted before held).1, (accepted before held).2.1⟩⟩
    have above := talks.shown.trans (.whole grows)
    refine .writing
      { bounded := ?_
        truthful := .ofIntent intent rfl
        remaining := .create
        reserving := fun purpose => by cases purpose
        talking := fun _ => ⟨?_, body_precedes (by simp [intent, AttemptPhase.rank])⟩
        intending := fun purpose => by cases purpose }
    · change Precedes disk.path
        (some (.whole (({ record with callbacks := some observation } : AttemptRecord ι).body record.phase)))
      rwa [intent]
    · exact {
        shown := above
        intended := talks.intended
        dispatched := talks.dispatched
        began := talks.began
        reserved := talks.reserved }

theorem standing_settle (talks : Talks disk log record sent) (success : Bool) (facts : φ) :
    Standing disk (log ++ if success then [.accepted] else [])
      (Attempt.settle record sent success facts) := by
  unfold Attempt.settle
  by_cases failed : record.callbackFailed = true
  · rw [if_pos failed]
    exact .gone
  rw [if_neg failed]
  have began : .began ∈ log ++ (if success then [AttemptEvent.accepted] else []) → sent = true := by
    intro told
    rcases List.mem_append.mp told with before | now
    · exact talks.began before
    · cases success
      · simp at now
      · simp at now
  refine .writing
    { bounded := talks.shown.trans (.whole (body_precedes (by simp [AttemptPhase.rank])))
      truthful := ?_
      remaining := .create
      reserving := fun purpose => by cases purpose
      talking := fun purpose => by rcases purpose with purpose | purpose | purpose <;> cases purpose
      intending := fun purpose => by cases purpose }
  exact {
    formed := fun _ => rfl
    acquired := fun acquired => by cases acquired
    settled := by
      intro facts' settled told
      rw [began told] at settled
      cases success
      · simp [AttemptRecord.body, Attempt.dispatchOf] at settled
      · simp [AttemptRecord.body, Attempt.dispatchOf] at settled
    completed := by
      intro facts' settled
      cases success
      · cases sent
        · simp [AttemptRecord.body, Attempt.dispatchOf] at settled
        · simp [AttemptRecord.body, Attempt.dispatchOf] at settled
      · simp }

theorem Standing.act {attempt : Attempt ι φ} (standing : Standing disk log attempt) (act : AttemptAct ι φ)
    (order : Precedes disk.kept disk.path) (once : log.count .reserved ≤ 1)
    (durable : log ≠ [] → ∃ body, disk.kept = some (.whole body)) (path : Tells log disk.path)
    (kept : Tells log disk.kept) : Reached disk log (attempt.act act) := by
  have quiet : ∀ next : Attempt ι φ, Standing disk log next → Reached disk log (next, []) :=
    fun next standing => .quiet standing once durable path kept
  cases standing with
  | gone => cases act <;> exact quiet _ .gone
  | writing writes =>
    cases act with
    | die => exact quiet _ .gone
    | _ => exact quiet _ (.writing writes)
  | ready talks acquired fresh shown =>
    cases act with
    | execute callbacks => exact quiet _ (standing_execute talks acquired fresh shown callbacks)
    | die => exact quiet _ .gone
    | _ => exact quiet _ (.ready talks acquired fresh shown)
  | @granted record sent talks intent =>
    cases act with
    | sendTurn =>
      have formed : ∀ file, Tells log file → Precedes disk.kept file → Precedes file disk.path →
          Tells (log ++ [.began]) file := by
        intro file tells after before body found
        have phase := talks.intents intent after before found
        refine .ofIntent phase ?_
        by_contra outcome
        have settled := (tells body found).formed outcome
        simp [phase] at settled
      exact {
        standing := .conversing (talks.told true (fun _ => intent) (fun _ => rfl))
        once := by simpa [Attempt.act] using once
        durable := fun _ => durable (List.ne_nil_of_mem talks.reserved)
        path := formed disk.path path order (.refl _)
        kept := formed disk.kept kept (.refl _) order }
    | refuseTurn => exact quiet _ (.conversing talks)
    | die => exact quiet _ .gone
    | _ => exact quiet _ (.granted talks intent)
  | @conversing record sent talks =>
    cases act with
    | requestTurn => exact quiet _ (standing_requestTurn talks)
    | observe observation => exact quiet _ (standing_observe talks observation)
    | settle success facts =>
      have other : AttemptEvent.began ∉ (if success then [AttemptEvent.accepted] else []) := by
        cases success
        · simp
        · simp
      exact {
        standing := standing_settle talks success facts
        once := by
          cases success
          · simpa [Attempt.act] using once
          · simpa [Attempt.act] using once
        durable := fun _ => durable (List.ne_nil_of_mem talks.reserved)
        path := fun body found => (path body found).more other
        kept := fun body found => (kept body found).more other }
    | die => exact quiet _ .gone
    | _ => exact quiet _ (.conversing talks)

theorem Standing.flushed {attempt : Attempt ι φ} (standing : Standing disk log attempt)
    (order : Precedes disk.kept disk.path) : Standing { disk with kept := disk.path } log attempt := by
  have talking : ∀ {record : AttemptRecord ι} {sent : Bool}, Talks disk log record sent →
      Talks { disk with kept := disk.path } log record sent := by
    intro record sent talks
    exact {
      shown := talks.shown
      intended := fun intent => (talks.intended intent).grown order
      dispatched := talks.dispatched
      began := talks.began
      reserved := talks.reserved }
  cases standing with
  | gone => exact .gone
  | ready talks acquired fresh shown => exact .ready (talking talks) acquired fresh shown
  | conversing talks => exact .conversing (talking talks)
  | granted talks intent => exact .granted (talking talks) intent
  | writing writes =>
    refine .writing
      { bounded := writes.bounded
        truthful := writes.truthful
        remaining := ?_
        reserving := writes.reserving
        talking := fun purpose => ⟨talking (writes.talking purpose).1, (writes.talking purpose).2⟩
        intending := writes.intending }
    generalize first : RecordWrite.ops _ = ops
    have remaining := writes.remaining
    rw [first] at remaining
    cases remaining with
    | create => exact .create
    | write => exact .write
    | fsync filled => exact .fsync filled
    | persist filled => exact .persist filled
    | replace filled => exact .replace filled
    | last shown => exact .last shown
    | reserve => exact .reserve
    | reserved shown => exact .reserved shown

/-! ## Processes that have not created the record -/

theorem outside_act {attempt : Attempt ι φ} (outside : Outside attempt) (act : AttemptAct ι φ) :
    Outside (attempt.act act).1 ∧ (attempt.act act).2 = [] := by
  rcases outside with rfl | rfl | ⟨identity, rfl⟩
  · cases act with
    | reserve identity => exact ⟨.inr (.inr ⟨identity, rfl⟩), rfl⟩
    | die => exact ⟨.inr (.inl rfl), rfl⟩
    | _ => exact ⟨.inl rfl, rfl⟩
  · cases act <;> exact ⟨.inr (.inl rfl), rfl⟩
  · cases act with
    | die => exact ⟨.inr (.inl rfl), rfl⟩
    | _ => exact ⟨.inr (.inr ⟨identity, rfl⟩), rfl⟩

theorem outside_lost (attempt : Attempt ι φ) : Outside attempt.lost := by
  cases attempt with
  | idle => exact .inl rfl
  | _ => exact .inr (.inl rfl)

theorem Standing.lost {attempt : Attempt ι φ} (standing : Standing disk log attempt)
    (disk' : AttemptDisk ι φ) : Standing disk' log attempt.lost := by
  cases standing with
  | _ => exact .gone

/-! ## The machine over one step and over a run -/

namespace AttemptWorld

variable {w : AttemptWorld ι φ}

theorem Sound.fresh (sound : w.Sound) (absent : w.disk.path = none) : w.log = [] := by
  by_contra told
  obtain ⟨body, found⟩ := sound.durable told
  have order := sound.order
  rw [absent] at order
  rw [order.none_left] at found
  cases found

theorem sound_goOn {p : ℕ} {disk' : AttemptDisk ι φ} {after : Attempt ι φ × List AttemptEvent}
    (order : Precedes disk'.kept disk'.path) (present : disk'.path ≠ none)
    (outside : ∀ q, q ≠ p → Outside (w.attempts q)) (reached : Reached disk' w.log after) :
    (w.goOn p after disk').Sound where
  order := order
  path := reached.path
  kept := reached.kept
  once := reached.once
  durable := reached.durable
  custody := by
    refine .owned p present ?_ ?_
    · simpa [AttemptWorld.goOn] using reached.standing
    · intro q other
      simpa [AttemptWorld.goOn, Function.update_of_ne other] using outside q other

theorem outside_update {p q : ℕ} {attempt : Attempt ι φ} (after : Outside attempt)
    (outside : q ≠ p → Outside (w.attempts q)) : Outside (Function.update w.attempts p attempt q) := by
  by_cases same : q = p
  · subst same
    simpa using after
  · rw [Function.update_of_ne same]
    exact outside same

theorem custody_vacant {p : ℕ} {attempt : Attempt ι φ} (absent : w.disk.path = none)
    (outside : ∀ q, Outside (w.attempts q)) (after : Outside attempt) :
    RecordCustody (w.goOn p (attempt, []) w.disk) :=
  .vacant absent fun q => outside_update after fun _ => outside q

theorem custody_owned {p o : ℕ} {attempt : Attempt ι φ} (present : w.disk.path ≠ none)
    (standing : Standing w.disk w.log (w.attempts o)) (outside : ∀ q, q ≠ o → Outside (w.attempts q))
    (other : o ≠ p) (after : Outside attempt) : RecordCustody (w.goOn p (attempt, []) w.disk) := by
  refine .owned o present ?_ fun q rest => outside_update after fun _ => outside q rest
  simpa [AttemptWorld.goOn, Function.update_of_ne other] using standing

theorem Sound.besides (sound : w.Sound) {p : ℕ} {attempt : Attempt ι φ}
    (custody : RecordCustody (w.goOn p (attempt, []) w.disk)) : (w.goOn p (attempt, []) w.disk).Sound where
  order := sound.order
  path := by simpa [AttemptWorld.goOn] using sound.path
  kept := by simpa [AttemptWorld.goOn] using sound.kept
  once := by simpa [AttemptWorld.goOn] using sound.once
  durable := by simpa [AttemptWorld.goOn] using sound.durable
  custody := custody

structure Follows (w w' : AttemptWorld ι φ) (lost : Prop) : Prop where
  sound : w'.Sound
  kept : Precedes w.disk.kept w'.disk.kept
  path : ¬lost → Precedes w.disk.path w'.disk.path

theorem Follows.unmoved {w' : AttemptWorld ι φ} {lost : Prop} (sound : w'.Sound)
    (same : w'.disk = w.disk) : Follows w w' lost where
  sound := sound
  kept := by
    rw [same]
    exact .refl _
  path _ := by
    rw [same]
    exact .refl _

theorem follows_act (sound : w.Sound) (p : ℕ) (act : AttemptAct ι φ) :
    Follows w (w.step (.act p act)) False := by
  have besides : Outside (w.attempts p) →
      (∀ attempt, Outside attempt → RecordCustody (w.goOn p (attempt, []) w.disk)) →
      (w.step (.act p act)).Sound := by
    intro outside custody
    obtain ⟨after, silent⟩ := outside_act outside act
    have whole : (w.attempts p).act act = (((w.attempts p).act act).1, []) := by rw [← silent]
    change (w.goOn p ((w.attempts p).act act) w.disk).Sound
    rw [whole]
    exact sound.besides (custody _ after)
  refine .unmoved ?_ rfl
  cases sound.custody with
  | vacant absent outside => exact besides (outside p) fun _ after => custody_vacant absent outside after
  | owned o present standing outside =>
    by_cases same : o = p
    · subst same
      exact sound_goOn sound.order present outside
        (standing.act act sound.order sound.once sound.durable sound.path sound.kept)
    · exact besides (outside p (Ne.symm same)) fun _ after => custody_owned present standing outside same after

theorem writes_created (disk : AttemptDisk ι φ) (identity : ι) :
    Writes { disk with path := some .torn } [] { identity := identity } false
      { purpose := .reserve
        body := ({ identity := identity } : AttemptRecord ι).body (φ := φ) .acquired
        ops := (writeOps .path (({ identity := identity } : AttemptRecord ι).body .acquired)).tail } where
  bounded := by simp [Precedes]
  truthful :=
    { formed := fun settled => absurd rfl settled
      acquired := fun _ => List.not_mem_nil
      settled := fun _ _ => List.not_mem_nil
      completed := fun facts settled => by cases settled }
  remaining := .reserve
  reserving _ := ⟨rfl, rfl, rfl, rfl, rfl⟩
  talking purpose := by rcases purpose with purpose | purpose | purpose <;> cases purpose
  intending purpose := by cases purpose

theorem follows_create (sound : w.Sound) {p : ℕ} {identity : ι}
    (reserving : w.attempts p = Attempt.reserve identity)
    (custody : ∀ attempt, Outside attempt → RecordCustody (w.goOn p (attempt, []) w.disk))
    (vacant : w.disk.path = none → ∀ q, Outside (w.attempts q)) (answer : OpAnswer) :
    Follows w (w.step (.step p answer)) False := by
  have stepped : w.step (.step p answer) = w.operate p answer (Attempt.reserve identity) := by
    rw [← reserving]
    rfl
  rw [stepped]
  simp only [Attempt.reserve, writeOps, AttemptWorld.operate]
  by_cases took : w.disk.allows (.create .path) = true ∧ answer ≠ .raised false
  · have absent : w.disk.path = none := by simpa [AttemptDisk.allows] using took.1
    have fresh := sound.fresh absent
    have nothing : w.disk.kept = none := by
      have order := sound.order
      rw [absent] at order
      exact order.none_left
    have performed : w.disk.perform (.create .path) answer = { w.disk with path := some .torn } := by
      rw [AttemptDisk.perform, if_pos took]
      rfl
    have reached : ∀ attempt, Standing { w.disk with path := some .torn } [] attempt →
        Reached { w.disk with path := some .torn } w.log (attempt, []) := by
      intro attempt standing
      rw [fresh]
      refine .quiet standing (by simp) (by simp) ?_ ?_
      · rintro body ⟨⟩
      · intro body found
        rw [nothing] at found
        cases found
    rw [performed]
    refine { sound := sound_goOn ?_ (by simp) (fun q _ => vacant absent q) ?_, kept := .refl _, path := ?_ }
    · rw [nothing]
      trivial
    · cases answer with
      | returned =>
        rw [show w.disk.succeeds (.create .path) .returned = true by simp [AttemptDisk.succeeds, took.1]]
        exact reached _ (.writing (writes_created w.disk identity))
      | raised took' =>
        rw [show w.disk.succeeds (.create .path) (.raised took') = false by simp [AttemptDisk.succeeds]]
        exact reached _ .gone
    · intro _
      rw [absent]
      trivial
  · have performed : w.disk.perform (.create .path) answer = w.disk := by
      rw [AttemptDisk.perform, if_neg took]
    have failed : w.disk.succeeds (.create .path) answer = false := by
      by_contra success
      obtain ⟨allowed, returned⟩ : w.disk.allows (.create .path) = true ∧ answer = .returned := by
        simpa [AttemptDisk.succeeds] using success
      exact took ⟨allowed, by simp [returned]⟩
    rw [performed, failed]
    exact .unmoved (sound.besides (custody _ (.inr (.inl rfl)))) rfl

theorem follows_operate (sound : w.Sound) {o : ℕ} {attempt : Attempt ι φ}
    (standing : Standing w.disk w.log attempt) (present : w.disk.path ≠ none)
    (outside : ∀ q, q ≠ o → Outside (w.attempts q)) (answer : OpAnswer) :
    Follows w (w.operate o answer attempt) False := by
  cases standing with
  | @writing record sent write writes =>
    obtain ⟨purpose, body, ops⟩ := write
    cases ops with
    | nil => exact .unmoved sound rfl
    | cons op ops =>
      have moves := writes.remaining.performs answer
      have grown := moves.grown sound.order writes.bounded
      have reached := writes.answered rfl answer sound.order sound.once sound.durable sound.path sound.kept
      have still : (w.disk.perform op answer).path ≠ none := by
        intro absent
        have path := grown.path
        rw [absent] at path
        exact present path.none_left
      exact {
        sound := sound_goOn (moves.order sound.order writes.bounded) still outside reached
        kept := grown.kept
        path := fun _ => grown.path }
  | _ => exact .unmoved sound rfl

theorem follows_step (sound : w.Sound) (p : ℕ) (answer : OpAnswer) :
    Follows w (w.step (.step p answer)) False := by
  have besides : Outside (w.attempts p) →
      (∀ attempt, Outside attempt → RecordCustody (w.goOn p (attempt, []) w.disk)) →
      (w.disk.path = none → ∀ q, Outside (w.attempts q)) → Follows w (w.step (.step p answer)) False := by
    intro outside custody vacant
    rcases outside with idle | gone | ⟨identity, reserving⟩
    · have still : w.step (.step p answer) = w := by simp [AttemptWorld.step, idle, AttemptWorld.operate]
      rw [still]
      exact .unmoved sound rfl
    · have still : w.step (.step p answer) = w := by simp [AttemptWorld.step, gone, AttemptWorld.operate]
      rw [still]
      exact .unmoved sound rfl
    · exact follows_create sound reserving custody vacant answer
  cases sound.custody with
  | vacant absent outside =>
    exact besides (outside p) (fun _ after => custody_vacant absent outside after) fun _ => outside
  | owned o present standing outside =>
    by_cases same : o = p
    · subst same
      exact follows_operate sound standing present outside answer
    · exact besides (outside p (Ne.symm same)) (fun _ after => custody_owned present standing outside same after)
        fun absent => absurd absent present

theorem follows_flush (sound : w.Sound) : Follows w (w.step .flush) False where
  sound :=
    { order := .refl _
      path := sound.path
      kept := sound.path
      once := sound.once
      durable := by
        intro told
        obtain ⟨body, found⟩ := sound.durable told
        have order := sound.order
        rw [found] at order
        obtain ⟨body', found', -⟩ := order
        exact ⟨body', found'⟩
      custody := by
        cases sound.custody with
        | vacant absent outside => exact .vacant absent outside
        | owned o present standing outside =>
          exact .owned o present (standing.flushed sound.order) outside }
  kept := sound.order
  path _ := .refl _

theorem follows_powerLoss (sound : w.Sound) : Follows w (w.step .powerLoss) True where
  sound :=
    { order := .refl _
      path := sound.kept
      kept := sound.kept
      once := sound.once
      durable := sound.durable
      custody := by
        by_cases present : w.disk.kept = none
        · exact .vacant present fun q => outside_lost (w.attempts q)
        · cases sound.custody with
          | vacant absent outside =>
            have order := sound.order
            rw [absent] at order
            exact absurd order.none_left present
          | owned o _ standing outside =>
            exact .owned o present (standing.lost _) fun q _ => outside_lost (w.attempts q) }
  kept := .refl _
  path kept := absurd trivial kept

theorem follows_any (sound : w.Sound) (action : AttemptAction ι φ) :
    Follows w (w.step action) (action = .powerLoss) := by
  have weaken : Follows w (w.step action) False → Follows w (w.step action) (action = .powerLoss) :=
    fun follows => ⟨follows.sound, follows.kept, fun _ => follows.path id⟩
  cases action with
  | act p act => exact weaken (follows_act sound p act)
  | step p answer => exact weaken (follows_step sound p answer)
  | flush => exact weaken (follows_flush sound)
  | powerLoss =>
    have follows := follows_powerLoss sound
    exact ⟨follows.sound, follows.kept, fun kept => absurd rfl kept⟩

theorem sound_initial : ({} : AttemptWorld ι φ).Sound where
  order := .refl _
  path body found := by cases found
  kept body found := by cases found
  once := Nat.zero_le 1
  durable told := absurd rfl told
  custody := .vacant rfl fun _ => .inl rfl

theorem run_snoc (acts : List (AttemptAction ι φ)) (action : AttemptAction ι φ) :
    run (acts ++ [action]) = (run acts).step action := by
  simp [run]

theorem run_sound (acts : List (AttemptAction ι φ)) : (run acts).Sound := by
  induction acts using List.reverseRecOn with
  | nil => exact sound_initial
  | append_singleton acts action ih =>
    rw [run_snoc]
    exact (follows_any ih action).sound

theorem run_follows (acts more : List (AttemptAction ι φ)) :
    Follows (run acts) (run (acts ++ more)) (.powerLoss ∈ more) := by
  induction more using List.reverseRecOn with
  | nil =>
    rw [List.append_nil]
    exact .unmoved (run_sound acts) rfl
  | append_singleton more action ih =>
    rw [← List.append_assoc, run_snoc]
    have follows := follows_any ih.sound action
    refine ⟨follows.sound, ih.kept.trans follows.kept, ?_⟩
    intro powered
    rw [List.mem_append, List.mem_singleton, not_or] at powered
    exact (ih.path powered.1).trans (follows.path fun loss => powered.2 loss.symm)

/-- What can be read of the record: its path, or what a loss of power leaves of it. -/
def Reads (w : AttemptWorld ι φ) (body : AttemptBody ι φ) : Prop :=
  w.disk.path = some (.whole body) ∨ w.disk.kept = some (.whole body)

/-- The record reads `a`, and later it reads `b`: durably, or with no loss of power between. -/
def ReadsThen (acts more : List (AttemptAction ι φ)) (a b : AttemptBody ι φ) : Prop :=
  ((run acts).disk.kept = some (.whole a) ∧ (run (acts ++ more)).disk.kept = some (.whole b)) ∨
    (.powerLoss ∉ more ∧ (run acts).disk.path = some (.whole a) ∧
      (run (acts ++ more)).disk.path = some (.whole b))

theorem readsThen_precedes {acts more : List (AttemptAction ι φ)} {a b : AttemptBody ι φ}
    (reads : ReadsThen acts more a b) : a.Precedes b := by
  have follows := run_follows acts more
  rcases reads with ⟨before, after⟩ | ⟨powered, before, after⟩
  · have kept := follows.kept
    rw [before, after] at kept
    obtain ⟨b', same, precedes⟩ := kept
    cases same
    exact precedes
  · have path := follows.path powered
    rw [before, after] at path
    obtain ⟨b', same, precedes⟩ := path
    cases same
    exact precedes

theorem reads_truthful {acts : List (AttemptAction ι φ)} {body : AttemptBody ι φ}
    (reads : (run acts).Reads body) : body.Truthful (run acts).log := by
  have sound := run_sound acts
  rcases reads with shown | held
  · exact sound.path body shown
  · exact sound.kept body held

end AttemptWorld

/-- An attempt where nothing fails. -/
example :
    (AttemptWorld.run (ι := Unit) (φ := Unit)
      ([.act 0 (.reserve ())] ++ List.replicate 4 (.step 0 .returned) ++
        [.act 0 (.execute false), .act 0 .requestTurn] ++ List.replicate 6 (.step 0 .returned) ++
        [.act 0 .sendTurn, .act 0 (.settle true ())] ++ List.replicate 6 (.step 0 .returned))).log =
      [.reserved, .began, .accepted] := by
  rfl

end Constructicon
