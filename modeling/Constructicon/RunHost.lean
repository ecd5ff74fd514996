import Constructicon.Journal
import Constructicon.Library.Keyset
import Mathlib.Data.Prod.Lex
import Mathlib.Data.String.Basic
import Mathlib.Data.Finset.Basic

/-!
# The run host

The host of one process: the queue of launch intents, the table of its worker tasks,
and the pump that fills its capacity from the queue and from recovery. What it reads
in the journal is a `Sight`; a task that is not yet done stands in `live`. Deadlines
the pump sleeps until are left out: it may wake at any time.
-/

namespace Constructicon

/-- `_LaunchIntent` -/
structure LaunchIntent where
  expectedEventSeq : Option ℕ
  allowedStatuses : Finset RunStatus
  cause : Option AttemptCause
deriving DecidableEq

/-- `RESUMABLE_RUN_STATUSES` -/
def resumableRunStatuses : Finset RunStatus := {.pending, .running, .failed, .parked}

/-- `_RECOVERY_STATUSES` -/
def recoveryStatuses : Finset RunStatus := {.pending, .running}

/-- `_supersedes`: attempt-bound intent in order, never weakened by an unbound retry. -/
def supersedes (incoming existing : LaunchIntent) : Bool :=
  if incoming = existing then false
  else
    match incoming.expectedEventSeq, existing.expectedEventSeq with
    | none, none => existing.allowedStatuses ⊂ incoming.allowedStatuses
    | none, some _ => false
    | some _, none => true
    | some n, some m =>
      if n ≠ m then m < n
      else if incoming.cause ≠ existing.cause then incoming.cause.isSome && existing.cause.isNone
      else existing.allowedStatuses ⊂ incoming.allowedStatuses

/-- The projection of a run the host reads; `created_at` never changes and is kept apart. -/
structure RunRecord where
  runId : RunId
  status : RunStatus
  ownerId : Option String
  leaseExpiresAt : Option Instant
deriving DecidableEq, Repr

structure RunTable where
  records : List RunRecord
  distinct : (records.map RunRecord.runId).Nodup

/-- A worker task: its number, its run and the intent it was started with. -/
structure Worker where
  task : ℕ
  run : RunId
  intent : LaunchIntent
deriving DecidableEq

/-- How `_run` ends. `died` is a hard-death signal, seen by the callback only. -/
inductive Exit where
  | returned
  | superseded
  | ownershipLost (now : Instant)
  | failed
  | cancelled
  | died
deriving DecidableEq, Repr

instance (entry : Worker × Exit) (ended : List (Worker × Exit)) : Decidable (entry ∈ ended) :=
  List.instDecidableMemOfLawfulBEq entry ended

structure Host where
  tasks : Dict RunId ℕ
  requested : Dict RunId LaunchIntent
  explicitTasks : Dict RunId LaunchIntent
  claimRetryAt : Dict RunId Instant
  deferred : Finset RunId
  closed : Bool
  /-- the tasks that are not yet done -/
  live : List Worker
  /-- the tasks that are done and whose callback has not run -/
  ended : List (Worker × Exit)
  nextTask : ℕ

def Host.empty : Host := ⟨.empty, .empty, .empty, .empty, ∅, false, [], [], 0⟩

structure Sight where
  now : Instant
  record : RunId → Option RunRecord
  named : ∀ run, ∀ r ∈ record run, r.runId = run
  maxEventSeq : RunId → ℕ
  /-- `latest_run_key` over the recovery statuses -/
  through : Option (String ×ₗ String)
  /-- the run table, at each page the recovery reads -/
  tables : List RunTable

/-- The settings of a host, and the creation time of every run. -/
structure HostConfig where
  maxConcurrency : ℕ
  recoveryPageSize : ℕ
  claimRetry : ℤ
  created : RunId → String
  positive : 0 < maxConcurrency ∧ 0 < recoveryPageSize

section Host

variable (cfg : HostConfig)

def HostConfig.key (r : RunRecord) : String ×ₗ String := toLex (cfg.created r.runId, r.runId)

def Host.Live (h : Host) (task : ℕ) : Prop := ∃ worker ∈ h.live, worker.task = task

instance (h : Host) (task : ℕ) : Decidable (h.Live task) :=
  inferInstanceAs (Decidable (∃ worker ∈ h.live, worker.task = task))

inductive LaunchDisposition where
  | queued
  | coalescedExact
  | superseded
deriving DecidableEq, Repr

/-- New intent is queued; the run is no longer deferred nor waiting to retry its claim. -/
def Host.accept (h : Host) (run : RunId) (intent : LaunchIntent) : Host :=
  { h with
    requested := h.requested.insert run intent
    deferred := h.deferred.erase run
    claimRetryAt := h.claimRetryAt.erase run }

/-- `launch` of an open host. -/
def Host.launch (h : Host) (run : RunId) (intent : LaunchIntent) : LaunchDisposition × Host :=
  match h.requested.get? run with
  | some queued =>
    if queued = intent then (.coalescedExact, h)
    else if supersedes intent queued then (.queued, h.accept run intent)
    else (.superseded, h)
  | none =>
    if (h.tasks.get? run).any (fun t => h.Live t) then
      match h.explicitTasks.get? run with
      | none => (.queued, h.accept run intent)
      | some inflight =>
        if inflight = intent then (.coalescedExact, h)
        else if supersedes intent inflight then (.queued, h.accept run intent)
        else (.superseded, h)
    else (.queued, h.accept run intent)

def Host.launched (h : Host) (run : RunId) (intent : LaunchIntent) : Host :=
  if h.closed then h else (h.launch run intent).2

/-- `_start` -/
def Host.start (h : Host) (run : RunId) (intent : LaunchIntent) (explicit : Bool) : Host :=
  { h with
    tasks := h.tasks.insert run h.nextTask
    requested := h.requested.erase run
    explicitTasks := if explicit then h.explicitTasks.insert run intent else h.explicitTasks
    live := h.live ++ [⟨h.nextTask, run, intent⟩]
    nextTask := h.nextTask + 1 }

/-- `_ready_at` names a deadline still to come. -/
def Host.Waits (h : Host) (record : RunRecord) (now : Instant) : Prop :=
  (∃ t ∈ h.claimRetryAt.get? record.runId, now < t) ∨
    record.ownerId ≠ none ∧ ∃ t ∈ record.leaseExpiresAt, now < t

instance (h : Host) (record : RunRecord) (now : Instant) : Decidable (h.Waits record now) :=
  inferInstanceAs (Decidable ((∃ t ∈ h.claimRetryAt.get? record.runId, now < t) ∨
    record.ownerId ≠ none ∧ ∃ t ∈ record.leaseExpiresAt, now < t))

inductive Verdict where
  | drop
  | wait
  | start
deriving DecidableEq, Repr

def Host.verdict (h : Host) (sight : Sight) (run : RunId) (intent : LaunchIntent) : Verdict :=
  match sight.record run with
  | none => .drop
  | some record =>
    if record.status ∉ intent.allowedStatuses then .drop
    else if ∃ n ∈ intent.expectedEventSeq, sight.maxEventSeq run ≠ n then .drop
    else if h.Waits record sight.now then .wait
    else .start

def Host.forget (h : Host) (run : RunId) : Host :=
  { h with requested := h.requested.erase run, claimRetryAt := h.claimRetryAt.erase run }

/-- The queue, in the order of its run ids; stops when the capacity is spent. -/
def Host.fillRequested (sight : Sight) : List (RunId × LaunchIntent) → Host → ℕ → Host × ℕ
  | [], h, capacity => (h, capacity)
  | (run, intent) :: rest, h, capacity =>
    match h.verdict sight run intent with
    | .drop => fillRequested sight rest (h.forget run) capacity
    | .wait => fillRequested sight rest h capacity
    | .start =>
      let h := { h with claimRetryAt := h.claimRetryAt.erase run }.start run intent true
      if capacity = 1 then (h, 0) else fillRequested sight rest h (capacity - 1)

def Host.Known (h : Host) (run : RunId) : Prop :=
  (h.tasks.get? run).isSome ∨ (h.requested.get? run).isSome ∨ run ∈ h.deferred

instance (h : Host) (run : RunId) : Decidable (h.Known run) :=
  inferInstanceAs (Decidable (_ ∨ _ ∨ _))

def recoveryIntent (seq : ℕ) : LaunchIntent := ⟨some seq, recoveryStatuses, none⟩

/-- The records of one page: selected runs and the forgotten retries, up to the limit. -/
def Host.selectPage (sight : Sight) (limit : ℕ) :
    List RunRecord → Host → List (RunId × LaunchIntent) → Host × List (RunId × LaunchIntent)
  | [], h, selected => (h, selected)
  | record :: rest, h, selected =>
    if h.Known record.runId ∨ h.Waits record sight.now then selectPage sight limit rest h selected
    else
      let h := { h with claimRetryAt := h.claimRetryAt.erase record.runId }
      let selected :=
        selected ++ [(record.runId, recoveryIntent (sight.maxEventSeq record.runId))]
      if selected.length = limit then (h, selected) else selectPage sight limit rest h selected

/-- The pages of `_recoverable_batch`. -/
def Host.selectPages (sight : Sight) (through : String ×ₗ String) (limit : ℕ) :
    List RunTable → Option (String ×ₗ String) → Host → List (RunId × LaunchIntent) →
      Host × List (RunId × LaunchIntent)
  | [], _, h, selected => (h, selected)
  | table :: tables, after, h, selected =>
    if limit ≤ selected.length then (h, selected)
    else
      let records := Keyset.page cfg.key
        (table.records.filter (fun r => r.status ∈ recoveryStatuses)) after through
        cfg.recoveryPageSize
      match records.getLast? with
      | none => (h, selected)
      | some last =>
        let next := h.selectPage sight limit records selected
        if records.length < cfg.recoveryPageSize then next
        else selectPages sight through limit tables (some (cfg.key last)) next.1 next.2

/-- `_recoverable_batch` and the starts that follow it. -/
def Host.recover (h : Host) (sight : Sight) (limit : ℕ) : Host :=
  match sight.through with
  | none => h
  | some through =>
    let batch := h.selectPages cfg sight through limit sight.tables none []
    batch.2.foldl (fun h entry => h.start entry.1 entry.2 false) batch.1

/-- `sorted(self._requested.items())` -/
def Host.queue (h : Host) : List (RunId × LaunchIntent) :=
  h.requested.entries.insertionSort (fun a b => a.1 ≤ b.1)

/-- `_fill_capacity` -/
def Host.fillCapacity (h : Host) (sight : Sight) : Host :=
  let capacity := cfg.maxConcurrency - h.tasks.entries.length
  if capacity = 0 then h
  else
    let filled := Host.fillRequested sight h.queue h capacity
    if filled.2 = 0 then filled.1 else filled.1.recover cfg sight filled.2

/-- The handlers of `_run`: what a worker leaves when it ends. -/
def Host.leave (h : Host) (run : RunId) : Exit → Host
  | .ownershipLost now =>
    let h := { h with claimRetryAt := h.claimRetryAt.insert run (now + cfg.claimRetry) }
    if h.closed then h
    else
      match h.explicitTasks.get? run with
      | none => h
      | some intent =>
        if (h.requested.get? run).all (fun queued => supersedes intent queued) then
          { h with requested := h.requested.insert run intent }
        else h
  | .failed => { h with deferred := insert run h.deferred }
  | _ => h

def Host.worker (h : Host) (task : ℕ) : Option Worker := h.live.find? (fun x => x.task = task)

def Host.ends (h : Host) (task : ℕ) (exit : Exit) : Host :=
  match h.worker task with
  | none => h
  | some worker =>
    let h := h.leave cfg worker.run exit
    { h with
      live := h.live.filter (fun x => x.task ≠ task)
      ended := h.ended ++ [(worker, exit)] }

/-- `_finished`: only the worker still recorded retires its run. -/
def Host.finished (h : Host) (entry : Worker × Exit) : Host :=
  let h := { h with ended := h.ended.erase entry }
  let h :=
    if h.tasks.get? entry.1.run = some entry.1.task then
      { h with
        tasks := h.tasks.erase entry.1.run
        explicitTasks := h.explicitTasks.erase entry.1.run }
    else h
  if entry.2 = .died then { h with deferred := insert entry.1.run h.deferred } else h

/-- `shutdown`: the recorded tasks are cancelled and awaited, and local state is dropped. -/
def Host.shutdown (h : Host) : Host :=
  { Host.empty with
    closed := true
    live := h.live.filter (fun x => h.tasks.get? x.run ≠ some x.task)
    ended := h.ended
    nextTask := h.nextTask }

/-- Everything that happens to a host. `launch` is a caller's; the scans launch what
they find in the journal. -/
inductive HostEvent where
  | launch (run : RunId) (intent : LaunchIntent)
  /-- `_scan_committed_resumes`: the decoded commands it launches -/
  | resumes (found : List (RunId × ℕ × String))
  /-- `_scan_answered_waits`: the answered waits it launches -/
  | waits (found : List (RunId × ℕ × Digest))
  | fill (sight : Sight)
  | ends (task : ℕ) (exit : Exit)
  | finished (entry : Worker × Exit)
  | shutdown

def resumeIntent (found : RunId × ℕ × String) : LaunchIntent :=
  ⟨some found.2.1, resumableRunStatuses, some ⟨.resumeCommand, found.2.2⟩⟩

def waitIntent (found : RunId × ℕ × Digest) : LaunchIntent :=
  ⟨some found.2.1, {.parked}, some ⟨.channelReply, found.2.2⟩⟩

def Host.step (h : Host) : HostEvent → Host
  | .launch run intent => h.launched run intent
  | .resumes found => found.foldl (fun h x => h.launched x.1 (resumeIntent x)) h
  | .waits found => found.foldl (fun h x => h.launched x.1 (waitIntent x)) h
  | .fill sight => if h.closed then h else h.fillCapacity cfg sight
  | .ends task exit => h.ends cfg task exit
  | .finished entry => if entry ∈ h.ended then h.finished entry else h
  | .shutdown => h.shutdown

end Host

end Constructicon
