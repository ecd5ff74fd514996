import Mathlib.Tactic

/-!
# The lifecycle of a control plane

Startup and shutdown of a `ControlPlane` are one task each, shielded from the callers that wait for
it; mutations are admitted once it has started and are counted until they are released. A caller runs
from one await to the next: waiting for the lifecycle lock, for a task or in its own operation. The
lock is never held across an await, so a critical section is one step; at any await a caller may be
overtaken, or cancelled.
-/

namespace Constructicon

namespace ControlLifecycle

/-- `_lifecycle_state` -/
inductive Lifecycle where
  | new
  | starting
  | started
  | stopping
  | stopped
deriving DecidableEq

/-- Where `_startup_once` stands: not begun, in `RunHost.startup`, in `abort_startup`, at the lock of either end,
or done. -/
inductive StartupPc where
  | created
  | hostStartup
  | aborting
  | failing
  | finishing
  | done (ok : Bool)
deriving DecidableEq

/-- Where `_shutdown_once` stands; a task that waits for the idle event is woken once it was set. -/
inductive ShutdownPc where
  | created
  | awaitingStartup (task : ℕ)
  | awaitingIdle (woken : Bool)
  | hostShutdown
  | finishing
  | done (ok : Bool)
deriving DecidableEq

inductive CallerPc where
  /-- `startup`: at the lock, and behind the task -/
  | startupLock
  | startupWait (task : ℕ)
  /-- `shutdown`: at the lock, and behind the task -/
  | shutdownLock
  | shutdownWait
  /-- a mutation: at the lock of `_require_mutations_open`, at that of its `startup`, behind the task, and at that
  of `_admit_mutation` -/
  | openLock
  | mutationLock
  | mutationWait (task : ℕ)
  | admitLock
  /-- admitted, in its operation -/
  | operating
  | ended
deriving DecidableEq

structure Plane where
  state : Lifecycle
  startupTask : Option ℕ
  shutdownTask : Option ShutdownPc
  active : ℕ
  /-- `_mutations_idle` is set -/
  idle : Bool
  /-- every startup task so far, by number -/
  startups : List StartupPc
  callers : List CallerPc
  /-- `RunHost._closed` -/
  hostClosed : Bool
  /-- the calls of `RunHost.shutdown` -/
  hostShutdowns : ℕ
  /-- a release raised the accounting underflow -/
  underflow : Bool

def Plane.fresh : Plane := ⟨.new, none, none, 0, true, [], [], false, 0, false⟩

def StartupPc.isDone : StartupPc → Bool
  | .done _ => true
  | _ => false

def Lifecycle.isClosing (s : Lifecycle) : Bool := s = .stopping || s = .stopped

def Plane.startupDone (p : Plane) (task : ℕ) : Bool := (p.startups[task]?).any StartupPc.isDone

def Plane.setStartup (p : Plane) (task : ℕ) (pc : StartupPc) : Plane := { p with startups := p.startups.set task pc }

def Plane.setCaller (p : Plane) (i : ℕ) (pc : CallerPc) : Plane := { p with callers := p.callers.set i pc }

/-! ## The tasks -/

/-- `abort_startup` of a closed host raises; of an open one it abandons the local state. -/
def Plane.abort (p : Plane) (task : ℕ) : Plane :=
  if p.hostClosed then p.setStartup task (.done false) else p.setStartup task .aborting

/-- `_startup_once`, from one await to the next; `ok` is the outcome of what it awaited. -/
def Plane.startupStep (p : Plane) (task : ℕ) (ok : Bool) : Plane :=
  match p.startups[task]? with
  | some .created => if p.hostClosed then p.abort task else p.setStartup task .hostStartup
  | some .hostStartup => if ok then p.setStartup task .finishing else p.abort task
  | some .aborting => p.setStartup task .failing
  | some .failing =>
    if p.state ≠ .stopping then { p.setStartup task (.done false) with state := .new, startupTask := none }
    else p.setStartup task (.done false)
  | some .finishing =>
    if p.state = .starting then { p.setStartup task (.done true) with state := .started }
    else p.setStartup task (.done true)
  | _ => p

/-- The call of `RunHost.shutdown`. -/
def Plane.closeHost (p : Plane) : Plane :=
  { p with hostClosed := true, hostShutdowns := p.hostShutdowns + 1, shutdownTask := some .hostShutdown }

/-- `await self._mutations_idle.wait()`, and the call behind it. -/
def Plane.awaitIdle (p : Plane) : Plane :=
  if p.idle then p.closeHost else { p with shutdownTask := some (.awaitingIdle false) }

/-- `_shutdown_once`, from one await to the next. -/
def Plane.shutdownStep (p : Plane) (ok : Bool) : Plane :=
  match p.shutdownTask with
  | some .created =>
    match p.startupTask with
    | some task => if p.startupDone task then p.awaitIdle else { p with shutdownTask := some (.awaitingStartup task) }
    | none => p.awaitIdle
  | some (.awaitingStartup task) => if p.startupDone task then p.awaitIdle else p
  | some (.awaitingIdle woken) => if woken then p.closeHost else p
  | some .hostShutdown => { p with shutdownTask := some (if ok then .finishing else .done false) }
  | some .finishing => { p with state := .stopped, shutdownTask := some (.done true) }
  | _ => p

/-! ## The callers -/

/-- The critical section of `startup`: the caller ends, goes on, or waits for the task. -/
def Plane.enterStartup (p : Plane) (i : ℕ) (goesOn : CallerPc) (waits : ℕ → CallerPc) : Plane :=
  if p.state = .started then p.setCaller i goesOn
  else if p.state.isClosing then p.setCaller i .ended
  else
    match p.startupTask with
    | some task => p.setCaller i (waits task)
    | none =>
      { p.setCaller i (waits p.startups.length) with
        state := .starting
        startups := p.startups ++ [.created]
        startupTask := some p.startups.length }

/-- The critical section of `shutdown`. -/
def Plane.enterShutdown (p : Plane) (i : ℕ) : Plane :=
  if p.state = .stopped then p.setCaller i .ended
  else if p.shutdownTask = none then
    { p.setCaller i .shutdownWait with state := .stopping, shutdownTask := some .created }
  else p.setCaller i .shutdownWait

/-- The critical section of `_admit_mutation`. -/
def Plane.enterAdmission (p : Plane) (i : ℕ) : Plane :=
  if p.state ≠ .started then p.setCaller i .ended
  else { p.setCaller i .operating with active := p.active + 1, idle := false }

/-- `_mutations_idle.set()` -/
def Plane.setIdle (p : Plane) : Plane :=
  { p with
    idle := true
    shutdownTask := if p.shutdownTask = some (.awaitingIdle false) then some (.awaitingIdle true) else p.shutdownTask }

/-- `_release_mutation` -/
def Plane.release (p : Plane) : Plane :=
  if p.active = 0 then { p with underflow := true }
  else if p.active - 1 = 0 then { p with active := p.active - 1 }.setIdle
  else { p with active := p.active - 1 }

/-- A call runs to its next await; `authorized` says whether a mutation is. -/
def Plane.callerStep (p : Plane) (i : ℕ) (authorized : Bool) : Plane :=
  match p.callers[i]? with
  | some .startupLock => p.enterStartup i .ended .startupWait
  | some (.startupWait task) => if p.startupDone task then p.setCaller i .ended else p
  | some .shutdownLock => p.enterShutdown i
  | some .shutdownWait =>
    match p.shutdownTask with
    | some (.done _) => p.setCaller i .ended
    | _ => p
  | some .openLock =>
    if p.state.isClosing then p.setCaller i .ended
    else if authorized then p.setCaller i .mutationLock
    else p.setCaller i .ended
  | some .mutationLock => p.enterStartup i .admitLock .mutationWait
  | some (.mutationWait task) =>
    match p.startups[task]? with
    | some (.done true) => p.setCaller i .admitLock
    | some (.done false) => p.setCaller i .ended
    | _ => p
  | some .admitLock => p.enterAdmission i
  | some .operating => (p.setCaller i .ended).release
  | _ => p

/-- A call is cancelled at its await. One that was admitted is released all the same. -/
def Plane.cancel (p : Plane) (i : ℕ) : Plane :=
  match p.callers[i]? with
  | some .operating => (p.setCaller i .ended).release
  | some _ => p.setCaller i .ended
  | none => p

inductive Event where
  | callStartup
  | callShutdown
  | callMutation
  | caller (i : ℕ) (authorized : Bool)
  | cancel (i : ℕ)
  | startup (task : ℕ) (ok : Bool)
  | shutdown (ok : Bool)
deriving DecidableEq

def Plane.step (p : Plane) : Event → Plane
  | .callStartup => { p with callers := p.callers ++ [.startupLock] }
  | .callShutdown => { p with callers := p.callers ++ [.shutdownLock] }
  | .callMutation => { p with callers := p.callers ++ [.openLock] }
  | .caller i authorized => p.callerStep i authorized
  | .cancel i => p.cancel i
  | .startup task ok => p.startupStep task ok
  | .shutdown ok => p.shutdownStep ok

def Plane.after (events : List Event) : Plane := events.foldl Plane.step .fresh

def Plane.operating (p : Plane) : ℕ := p.callers.countP (· = .operating)

/-! ## The invariant -/

/-- `RunHost.shutdown` was called. -/
def ShutdownPc.called : ShutdownPc → Bool
  | .hostShutdown => true
  | .finishing => true
  | .done _ => true
  | _ => false

def Plane.Quiet (p : Plane) : Prop := ∀ pc ∈ p.startups, pc.isDone = true

structure Plane.Inv (p : Plane) : Prop where
  counted : p.active = p.operating
  idle : p.idle = true ↔ p.active = 0
  underflow : p.underflow = false
  current : ∀ task pc, p.startups[task]? = some pc → pc.isDone = false →
    p.startupTask = some task ∧ (p.state = .starting ∨ p.state = .stopping)
  latest : ∀ task, p.startupTask = some task → task + 1 = p.startups.length
  starting : p.state = .starting → ∃ task pc, p.startupTask = some task ∧ p.startups[task]? = some pc ∧ pc.isDone = false
  started : p.state = .started → p.startups.getLast? = some (.done true)
  fresh : p.state = .new → p.startupTask = none
  closing : p.shutdownTask = none ↔ p.state.isClosing = false
  stopped : p.state = .stopped → p.shutdownTask.any ShutdownPc.called = true
  awaitingStartup : ∀ task, p.shutdownTask = some (.awaitingStartup task) → p.startupTask = some task
  awaitingIdle : ∀ woken, p.shutdownTask = some (.awaitingIdle woken) → p.Quiet ∧ (woken = true → p.active = 0)
  uncalled : p.shutdownTask.any ShutdownPc.called = false → p.hostShutdowns = 0 ∧ p.hostClosed = false
  called : p.shutdownTask.any ShutdownPc.called = true → p.hostShutdowns = 1 ∧ p.active = 0 ∧ p.Quiet

section

variable {p : Plane} {i task : ℕ}

theorem inv_fresh : Plane.fresh.Inv := by
  refine ⟨rfl, by decide, rfl, ?_, ?_, ?_, ?_, fun _ => rfl, by decide, ?_, ?_, ?_, fun _ => ⟨rfl, rfl⟩, ?_⟩
  all_goals simp [Plane.fresh]

theorem operating_set {c : CallerPc} (pc : CallerPc) (found : p.callers[i]? = some c) :
    (p.setCaller i pc).operating + (if c = .operating then 1 else 0) = p.operating + if pc = .operating then 1 else 0 := by
  obtain ⟨inside, at_i⟩ := List.getElem?_eq_some_iff.mp found
  unfold Plane.operating Plane.setCaller
  dsimp only
  rw [List.countP_set inside, at_i]
  have counted : (if c = .operating then 1 else 0) ≤ p.callers.countP (· = .operating) := by
    split_ifs with operates
    · exact List.countP_pos_iff.mpr ⟨c, List.mem_of_getElem? found, by simpa using operates⟩
    · exact Nat.zero_le _
  simp only [decide_eq_true_eq]
  omega

theorem Plane.Inv.setCaller (h : p.Inv) {c pc : CallerPc} (found : p.callers[i]? = some c) (before : c ≠ .operating)
    (after : pc ≠ .operating) : (p.setCaller i pc).Inv := by
  have same := operating_set pc found
  rw [if_neg before, if_neg after] at same
  exact ⟨h.counted.trans same.symm, h.idle, h.underflow, h.current, h.latest, h.starting, h.started, h.fresh, h.closing,
    h.stopped, h.awaitingStartup, h.awaitingIdle, h.uncalled, h.called⟩

theorem Plane.Inv.call (h : p.Inv) {c : CallerPc} (waiting : c ≠ .operating) :
    Plane.Inv { p with callers := p.callers ++ [c] } := by
  have same : (p.callers ++ [c]).countP (· = .operating) = p.callers.countP (· = .operating) := by
    rw [List.countP_append, List.countP_singleton, if_neg (by simpa using waiting)]
    rfl
  exact ⟨h.counted.trans same.symm, h.idle, h.underflow, h.current, h.latest, h.starting, h.started, h.fresh, h.closing,
    h.stopped, h.awaitingStartup, h.awaitingIdle, h.uncalled, h.called⟩

/-! ## The startup task -/

theorem startups_set {pc : StartupPc} {task' : ℕ} {pc' : StartupPc}
    (found : (p.setStartup task pc).startups[task']? = some pc') :
    (task' = task ∧ pc' = pc) ∨ (task' ≠ task ∧ p.startups[task']? = some pc') := by
  change (p.startups.set task pc)[task']? = some pc' at found
  rw [List.getElem?_set] at found
  split_ifs at found with same inside
  · exact .inl ⟨same.symm, (Option.some.inj found).symm⟩
  · exact .inr ⟨Ne.symm same, found⟩

theorem Plane.Inv.busy (h : p.Inv) {pc : StartupPc} (found : p.startups[task]? = some pc) (going : pc.isDone = false) :
    p.shutdownTask.any ShutdownPc.called = false ∧ (∀ woken, p.shutdownTask ≠ some (.awaitingIdle woken)) ∧
      ∀ task' pc', p.startups[task']? = some pc' → task' ≠ task → pc'.isDone = true := by
  have noisy : ¬p.Quiet := by
    intro quiet
    rw [quiet pc (List.mem_of_getElem? found)] at going
    cases going
  refine ⟨?_, fun woken waits => noisy (h.awaitingIdle woken waits).1, fun task' pc' found' other => ?_⟩
  · by_contra called
    exact noisy (h.called (Bool.eq_true_of_not_eq_false called)).2.2
  · by_contra going'
    have first := (h.current task pc found going).1
    have second := (h.current task' pc' found' (Bool.eq_false_iff.mpr going')).1
    rw [first] at second
    exact other (Option.some.inj second).symm

theorem Plane.Inv.advance (h : p.Inv) {pc pc' : StartupPc} (found : p.startups[task]? = some pc)
    (going : pc.isDone = false) (going' : pc'.isDone = false) : (p.setStartup task pc').Inv := by
  obtain ⟨uncalled, unwaited, others⟩ := h.busy found going
  obtain ⟨mine, state⟩ := h.current task pc found going
  obtain ⟨inside, -⟩ := List.getElem?_eq_some_iff.mp found
  refine ⟨h.counted, h.idle, h.underflow, ?_, ?_, ?_, ?_, h.fresh, h.closing, h.stopped, h.awaitingStartup, ?_, h.uncalled, ?_⟩
  · intro task' pc'' found' _
    rcases startups_set found' with ⟨rfl, -⟩ | ⟨other, found'⟩
    · exact ⟨mine, state⟩
    · rename_i going''
      rw [others task' pc'' found' other] at going''
      cases going''
  · intro task' current
    rw [h.latest task' current]
    exact List.length_set.symm
  · intro _
    exact ⟨task, pc', mine, List.getElem?_set_self inside, going'⟩
  · intro started
    change p.state = .started at started
    rw [started] at state
    rcases state with state | state <;> cases state
  · exact fun woken waits => absurd waits (unwaited woken)
  · intro called
    change p.shutdownTask.any ShutdownPc.called = true at called
    rw [uncalled] at called
    cases called

theorem Plane.Inv.complete (h : p.Inv) {pc : StartupPc} (found : p.startups[task]? = some pc) (going : pc.isDone = false)
    (ok : Bool) (state' : Lifecycle) (startupTask' : Option ℕ)
    (ends : (p.state = .starting ∧ state' = .new ∧ startupTask' = none) ∨
      (p.state = .starting ∧ state' = .started ∧ startupTask' = p.startupTask ∧ ok = true) ∨
      (p.state = .stopping ∧ state' = .stopping ∧ startupTask' = p.startupTask)) :
    Plane.Inv { p.setStartup task (.done ok) with state := state', startupTask := startupTask' } := by
  obtain ⟨uncalled, unwaited, others⟩ := h.busy found going
  obtain ⟨mine, -⟩ := h.current task pc found going
  obtain ⟨inside, -⟩ := List.getElem?_eq_some_iff.mp found
  have last := h.latest task mine
  have kept : startupTask' = none ∨ startupTask' = p.startupTask := by
    rcases ends with ⟨-, -, none⟩ | ⟨-, -, same, -⟩ | ⟨-, -, same⟩
    · exact .inl none
    · exact .inr same
    · exact .inr same
  refine ⟨h.counted, h.idle, h.underflow, ?_, ?_, ?_, ?_, ?_, ?_, ?_, ?_, ?_, h.uncalled, ?_⟩
  · intro task' pc' found' going'
    rcases startups_set found' with ⟨-, rfl⟩ | ⟨other, found'⟩
    · cases going'
    · rw [others task' pc' found' other] at going'
      cases going'
  · intro task' current
    change task' + 1 = (p.startups.set task _).length
    rw [List.length_set]
    rcases kept with none | same
    · rw [none] at current
      cases current
    · rw [same] at current
      exact h.latest task' current
  · rintro rfl
    rcases ends with ⟨-, state, -⟩ | ⟨-, state, -⟩ | ⟨-, state, -⟩ <;> cases state
  · rintro rfl
    rcases ends with ⟨-, state, -⟩ | ⟨-, -, -, rfl⟩ | ⟨-, state, -⟩
    · cases state
    · change (p.startups.set task _).getLast? = _
      rw [List.getLast?_eq_getElem?, List.length_set, ← last, Nat.add_sub_cancel]
      exact List.getElem?_set_self inside
    · cases state
  · rintro rfl
    rcases ends with ⟨-, -, none⟩ | ⟨-, state, -⟩ | ⟨-, state, -⟩
    · exact none
    · cases state
    · cases state
  · change p.shutdownTask = none ↔ state'.isClosing = false
    rw [h.closing]
    rcases ends with ⟨before, rfl, -⟩ | ⟨before, rfl, -⟩ | ⟨before, rfl, -⟩
    all_goals simp [before, Lifecycle.isClosing]
  · rintro rfl
    rcases ends with ⟨-, state, -⟩ | ⟨-, state, -⟩ | ⟨-, state, -⟩ <;> cases state
  · intro task' waits
    rcases ends with ⟨before, -, -⟩ | ⟨before, -, -⟩ | ⟨-, -, same⟩
    · have open' : p.shutdownTask = none := h.closing.mpr (by rw [before]; decide)
      change p.shutdownTask = _ at waits
      rw [open'] at waits
      cases waits
    · have open' : p.shutdownTask = none := h.closing.mpr (by rw [before]; decide)
      change p.shutdownTask = _ at waits
      rw [open'] at waits
      cases waits
    · exact same.trans (h.awaitingStartup task' waits)
  · exact fun woken waits => absurd waits (unwaited woken)
  · intro called
    change p.shutdownTask.any ShutdownPc.called = true at called
    rw [uncalled] at called
    cases called

theorem Plane.Inv.abort (h : p.Inv) {pc : StartupPc} (found : p.startups[task]? = some pc) (going : pc.isDone = false) :
    (p.abort task).Inv := by
  have closed := (h.uncalled (h.busy found going).1).2
  unfold Plane.abort
  rw [closed]
  exact h.advance found going rfl

theorem Plane.Inv.startupStep (h : p.Inv) (task : ℕ) (ok : Bool) : (p.startupStep task ok).Inv := by
  unfold Plane.startupStep
  cases found : p.startups[task]? with
  | none => exact h
  | some pc =>
    cases pc with
    | created =>
      dsimp only
      split_ifs
      · exact h.abort found rfl
      · exact h.advance found rfl rfl
    | hostStartup =>
      dsimp only
      split_ifs
      · exact h.advance found rfl rfl
      · exact h.abort found rfl
    | aborting => exact h.advance found rfl rfl
    | failing =>
      obtain ⟨mine, state⟩ := h.current task _ found rfl
      dsimp only
      split_ifs with stopping
      · exact h.complete found rfl false .new none (.inl ⟨state.resolve_right stopping, rfl, rfl⟩)
      · have stopping := not_not.mp stopping
        have ended := h.complete found rfl false .stopping p.startupTask (.inr (.inr ⟨stopping, rfl, rfl⟩))
        rwa [← stopping] at ended
    | finishing =>
      obtain ⟨mine, state⟩ := h.current task _ found rfl
      dsimp only
      split_ifs with starting
      · exact h.complete found rfl true .started p.startupTask (.inr (.inl ⟨starting, rfl, rfl, rfl⟩))
      · have stopping := state.resolve_left starting
        have ended := h.complete found rfl true .stopping p.startupTask (.inr (.inr ⟨stopping, rfl, rfl⟩))
        rwa [← stopping] at ended
    | done _ => exact h

/-! ## The shutdown task -/

theorem quiet_of_startupDone (h : p.Inv) (current : p.startupTask = some task) (done : p.startupDone task = true) :
    p.Quiet := by
  intro pc mem
  obtain ⟨task', found⟩ := List.mem_iff_getElem?.mp mem
  by_contra going
  have mine := (h.current task' pc found (Bool.eq_false_iff.mpr going)).1
  rw [current] at mine
  cases mine
  unfold Plane.startupDone at done
  rw [found] at done
  exact going done

theorem Plane.Inv.closeHost (h : p.Inv) (begun : p.shutdownTask ≠ none) (uncalled : p.shutdownTask.any ShutdownPc.called = false)
    (idle : p.active = 0) (quiet : p.Quiet) : p.closeHost.Inv := by
  obtain ⟨none, -⟩ := h.uncalled uncalled
  refine ⟨h.counted, h.idle, h.underflow, h.current, h.latest, h.starting, h.started, h.fresh, ?_, fun _ => rfl, ?_, ?_, ?_, ?_⟩
  · exact iff_of_false (by simp [Plane.closeHost]) fun open' => begun (h.closing.mpr open')
  · exact fun _ waits => by cases waits
  · exact fun _ waits => by cases waits
  · exact fun none => by cases none
  · exact fun _ => ⟨by change p.hostShutdowns + 1 = 1; rw [none], idle, quiet⟩

theorem Plane.Inv.waits (h : p.Inv) {pc : ShutdownPc} (begun : p.shutdownTask ≠ none)
    (uncalled : p.shutdownTask.any ShutdownPc.called = false) (later : pc.called = false)
    (startup : ∀ task, pc = .awaitingStartup task → p.startupTask = some task)
    (idle : ∀ woken, pc = .awaitingIdle woken → p.Quiet ∧ (woken = true → p.active = 0)) :
    Plane.Inv { p with shutdownTask := some pc } := by
  refine ⟨h.counted, h.idle, h.underflow, h.current, h.latest, h.starting, h.started, h.fresh, ?_, ?_, ?_, ?_, ?_, ?_⟩
  · exact iff_of_false (by simp) fun open' => begun (h.closing.mpr open')
  · intro stopped
    have called := h.stopped stopped
    rw [uncalled] at called
    cases called
  · exact fun task waits => startup task (Option.some.inj waits)
  · exact fun woken waits => idle woken (Option.some.inj waits)
  · exact fun _ => h.uncalled uncalled
  · intro called
    change pc.called = true at called
    rw [later] at called
    cases called

theorem Plane.Inv.awaitIdle (h : p.Inv) (begun : p.shutdownTask ≠ none)
    (uncalled : p.shutdownTask.any ShutdownPc.called = false) (quiet : p.Quiet) : p.awaitIdle.Inv := by
  unfold Plane.awaitIdle
  split_ifs with idle
  · exact h.closeHost begun uncalled (h.idle.mp idle) quiet
  · refine h.waits begun uncalled rfl (fun _ waits => by cases waits) fun woken waits => ⟨quiet, ?_⟩
    cases waits
    exact fun woken => by cases woken

theorem Plane.Inv.closes (h : p.Inv) {pc : ShutdownPc} {state' : Lifecycle} (called : p.shutdownTask.any ShutdownPc.called = true)
    (later : pc.called = true) (state : state' = p.state ∨ state' = .stopped) :
    Plane.Inv { p with state := state', shutdownTask := some pc } := by
  have begun : p.shutdownTask ≠ none := by
    rintro none
    rw [none] at called
    cases called
  have closing : state'.isClosing = true := by
    rcases state with rfl | rfl
    · exact Bool.eq_true_of_not_eq_false fun open' => begun (h.closing.mpr open')
    · rfl
  have quiet := (h.called called).2.2
  refine ⟨h.counted, h.idle, h.underflow, ?_, h.latest, ?_, ?_, ?_, ?_, ?_, ?_, ?_, ?_, fun _ => h.called called⟩
  · intro task pc found going
    rw [quiet pc (List.mem_of_getElem? found)] at going
    cases going
  · rintro rfl
    cases closing
  · rintro rfl
    cases closing
  · rintro rfl
    cases closing
  · exact iff_of_false (by simp) (by rw [closing]; decide)
  · exact fun _ => later
  · rintro task waits
    cases Option.some.inj waits
    cases later
  · rintro woken waits
    cases Option.some.inj waits
    cases later
  · intro uncalled
    change pc.called = false at uncalled
    rw [later] at uncalled
    cases uncalled

theorem Plane.Inv.shutdownStep (h : p.Inv) (ok : Bool) : (p.shutdownStep ok).Inv := by
  unfold Plane.shutdownStep
  cases found : p.shutdownTask with
  | none => exact h
  | some pc =>
    have begun : p.shutdownTask ≠ none := by
      rw [found]
      exact Option.some_ne_none pc
    cases pc with
    | created =>
      have uncalled : p.shutdownTask.any ShutdownPc.called = false := by rw [found]; rfl
      dsimp only
      cases current : p.startupTask with
      | none =>
        apply h.awaitIdle begun uncalled
        intro pc mem
        obtain ⟨task, found⟩ := List.mem_iff_getElem?.mp mem
        by_contra going
        have mine := (h.current task pc found (Bool.eq_false_iff.mpr going)).1
        rw [current] at mine
        cases mine
      | some task =>
        dsimp only
        split_ifs with done
        · exact h.awaitIdle begun uncalled (quiet_of_startupDone h current done)
        · rw [← current]
          apply h.waits begun uncalled
          · rfl
          · exact fun task' waits => ShutdownPc.awaitingStartup.inj waits ▸ current
          · exact fun _ waits => by cases waits
    | awaitingStartup task =>
      have uncalled : p.shutdownTask.any ShutdownPc.called = false := by rw [found]; rfl
      dsimp only
      split_ifs with done
      · exact h.awaitIdle begun uncalled (quiet_of_startupDone h (h.awaitingStartup task found) done)
      · exact h
    | awaitingIdle woken =>
      have uncalled : p.shutdownTask.any ShutdownPc.called = false := by rw [found]; rfl
      obtain ⟨quiet, idle⟩ := h.awaitingIdle woken found
      dsimp only
      split_ifs with woke
      · exact h.closeHost begun uncalled (idle woke) quiet
      · exact h
    | hostShutdown =>
      have called : p.shutdownTask.any ShutdownPc.called = true := by rw [found]; rfl
      exact h.closes called (by cases ok <;> rfl) (.inl rfl)
    | finishing =>
      have called : p.shutdownTask.any ShutdownPc.called = true := by rw [found]; rfl
      exact h.closes called rfl (.inr rfl)
    | done _ => exact h

/-! ## The calls -/

theorem Plane.Inv.begins (h : p.Inv) (open' : p.state.isClosing = false)
    (none : p.startupTask = none) :
    Plane.Inv { p with
      state := .starting
      startups := p.startups ++ [.created]
      startupTask := some p.startups.length } := by
  have unbegun := h.closing.mpr open'
  refine ⟨h.counted, h.idle, h.underflow, ?_, ?_, ?_, (fun started => by cases started), (fun new => by cases new), ?_,
    (fun stopped => by cases stopped), ?_, ?_, h.uncalled, ?_⟩
  · intro task pc found going
    dsimp only at found
    rw [List.getElem?_append] at found
    split_ifs at found with before
    · have mine := (h.current task pc found going).1
      rw [none] at mine
      cases mine
    · obtain ⟨inside, -⟩ := List.getElem?_eq_some_iff.mp found
      rw [List.length_singleton] at inside
      exact ⟨congrArg some (by omega), .inl rfl⟩
  · intro task current
    cases current
    simp
  · exact fun _ => ⟨p.startups.length, .created, rfl, by simp, rfl⟩
  · exact iff_of_true unbegun rfl
  · intro task waits
    change p.shutdownTask = _ at waits
    rw [unbegun] at waits
    cases waits
  · intro woken waits
    change p.shutdownTask = _ at waits
    rw [unbegun] at waits
    cases waits
  · intro called
    change p.shutdownTask.any ShutdownPc.called = true at called
    rw [unbegun] at called
    cases called

theorem Plane.Inv.enterStartup (h : p.Inv) {c goesOn : CallerPc} {waits : ℕ → CallerPc}
    (found : p.callers[i]? = some c) (before : c ≠ .operating) (after : goesOn ≠ .operating)
    (waiting : ∀ task, waits task ≠ .operating) : (p.enterStartup i goesOn waits).Inv := by
  unfold Plane.enterStartup
  split_ifs with started closing
  · exact h.setCaller found before after
  · exact h.setCaller found before (by decide)
  · cases current : p.startupTask with
    | some task => exact h.setCaller found before (waiting task)
    | none => exact (h.begins (Bool.eq_false_iff.mpr closing) current).setCaller found before (waiting _)

theorem Plane.Inv.beginsShutdown (h : p.Inv) (unbegun : p.shutdownTask = none) :
    Plane.Inv { p with state := .stopping, shutdownTask := some .created } := by
  have uncalled : p.shutdownTask.any ShutdownPc.called = false := by rw [unbegun]; rfl
  refine ⟨h.counted, h.idle, h.underflow, ?_, h.latest, (fun starting => by cases starting), (fun started => by cases started),
    (fun new => by cases new), ?_, (fun stopped => by cases stopped), (fun _ waits => by cases waits),
    (fun _ waits => by cases waits), fun _ => h.uncalled uncalled, fun called => by cases called⟩
  · exact fun task pc found going => ⟨(h.current task pc found going).1, .inr rfl⟩
  · exact iff_of_false (by simp) (by simp [Lifecycle.isClosing])

theorem Plane.Inv.enterShutdown (h : p.Inv) {c : CallerPc} (found : p.callers[i]? = some c) (before : c ≠ .operating) :
    (p.enterShutdown i).Inv := by
  unfold Plane.enterShutdown
  split_ifs with stopped unbegun
  · exact h.setCaller found before (by decide)
  · exact (h.beginsShutdown unbegun).setCaller found before (by decide)
  · exact h.setCaller found before (by decide)

theorem Plane.Inv.enterAdmission (h : p.Inv) {c : CallerPc} (found : p.callers[i]? = some c) (before : c ≠ .operating) :
    (p.enterAdmission i).Inv := by
  unfold Plane.enterAdmission
  split_ifs with unstarted
  · exact h.setCaller found before (by decide)
  · have started := not_not.mp unstarted
    have unbegun : p.shutdownTask = none := h.closing.mpr (by rw [started]; decide)
    have more := operating_set .operating found
    rw [if_neg before, if_pos rfl] at more
    refine ⟨?_, ?_, h.underflow, h.current, h.latest, h.starting, h.started, h.fresh, h.closing, h.stopped,
      h.awaitingStartup, ?_, h.uncalled, ?_⟩
    · change p.active + 1 = (p.setCaller i .operating).operating
      have counted := h.counted
      omega
    · exact iff_of_false (by simp) (Nat.succ_ne_zero _)
    · intro woken waits
      change p.shutdownTask = _ at waits
      rw [unbegun] at waits
      cases waits
    · intro called
      change p.shutdownTask.any ShutdownPc.called = true at called
      rw [unbegun] at called
      cases called

theorem setIdle_waits (pc : ShutdownPc) (other : ∀ woken, pc ≠ .awaitingIdle woken) :
    p.setIdle.shutdownTask = some pc ↔ p.shutdownTask = some pc := by
  change (if p.shutdownTask = some (.awaitingIdle false) then some (.awaitingIdle true) else p.shutdownTask) = some pc ↔ _
  split_ifs with waits
  · rw [waits]
    exact iff_of_false (fun same => other true (Option.some.inj same).symm) fun same => other false (Option.some.inj same).symm
  · exact Iff.rfl

theorem called_setIdle : p.setIdle.shutdownTask.any ShutdownPc.called = p.shutdownTask.any ShutdownPc.called := by
  change (if p.shutdownTask = some (.awaitingIdle false) then some (.awaitingIdle true) else p.shutdownTask).any _ = _
  split_ifs with waits
  · rw [waits]
    rfl
  · rfl

theorem Plane.Inv.release (h : p.Inv) (found : p.callers[i]? = some .operating) :
    ((p.setCaller i .ended).release).Inv := by
  have fewer := operating_set .ended found
  rw [if_pos rfl, if_neg (by decide)] at fewer
  have counted := h.counted
  have active : p.active ≠ 0 := by omega
  have idle : p.idle = false := by
    rw [← Bool.not_eq_true, h.idle]
    exact active
  unfold Plane.release
  split_ifs with none last
  · exact absurd none active
  · refine ⟨?_, ?_, h.underflow, h.current, h.latest, h.starting, h.started, h.fresh, ?_, ?_, ?_, ?_, ?_, ?_⟩
    · change p.active - 1 = (p.setCaller i .ended).operating
      omega
    · exact iff_of_true rfl last
    · change (if p.shutdownTask = some (.awaitingIdle false) then some (.awaitingIdle true) else p.shutdownTask) =
        Option.none ↔ p.state.isClosing = false
      rw [← h.closing]
      split_ifs with waits
      · rw [waits]
        exact iff_of_false (by simp) (by simp)
      · exact Iff.rfl
    · intro stopped
      rw [called_setIdle]
      exact h.stopped stopped
    · intro task waits
      rw [setIdle_waits _ (by simp)] at waits
      exact h.awaitingStartup task waits
    · intro woken waits
      refine ⟨?_, fun _ => last⟩
      change (if p.shutdownTask = some (.awaitingIdle false) then some (.awaitingIdle true) else p.shutdownTask) = _ at waits
      split_ifs at waits with slept
      · exact (h.awaitingIdle false slept).1
      · exact (h.awaitingIdle woken waits).1
    · rw [called_setIdle]
      exact h.uncalled
    · rw [called_setIdle]
      exact fun called => absurd (h.called called).2.1 active
  · refine ⟨?_, ?_, h.underflow, h.current, h.latest, h.starting, h.started, h.fresh, h.closing, h.stopped,
      h.awaitingStartup, ?_, h.uncalled, fun called => absurd (h.called called).2.1 active⟩
    · change p.active - 1 = (p.setCaller i .ended).operating
      omega
    · change p.idle = true ↔ p.active - 1 = 0
      rw [idle]
      exact iff_of_false (by simp) last
    · exact fun woken waits => ⟨(h.awaitingIdle woken waits).1, fun woke => absurd ((h.awaitingIdle woken waits).2 woke) active⟩

theorem Plane.Inv.callerStep (h : p.Inv) (i : ℕ) (authorized : Bool) : (p.callerStep i authorized).Inv := by
  unfold Plane.callerStep
  cases found : p.callers[i]? with
  | none => exact h
  | some c =>
    cases c with
    | startupLock => exact h.enterStartup found (by decide) (by decide) (by simp)
    | startupWait task =>
      dsimp only
      split_ifs
      · exact h.setCaller found (by simp) (by decide)
      · exact h
    | shutdownLock => exact h.enterShutdown found (by decide)
    | shutdownWait =>
      dsimp only
      split
      · exact h.setCaller found (by decide) (by decide)
      · exact h
    | openLock =>
      dsimp only
      split_ifs
      · exact h.setCaller found (by decide) (by decide)
      · exact h.setCaller found (by decide) (by decide)
      · exact h.setCaller found (by decide) (by decide)
    | mutationLock => exact h.enterStartup found (by decide) (by decide) (by simp)
    | mutationWait task =>
      dsimp only
      split
      · exact h.setCaller found (by simp) (by decide)
      · exact h.setCaller found (by simp) (by decide)
      · exact h
    | admitLock => exact h.enterAdmission found (by decide)
    | operating => exact h.release found
    | ended => exact h

theorem Plane.Inv.cancel (h : p.Inv) (i : ℕ) : (p.cancel i).Inv := by
  unfold Plane.cancel
  cases found : p.callers[i]? with
  | none => exact h
  | some c =>
    by_cases operates : c = .operating
    · subst operates
      exact h.release found
    · have ended : (p.setCaller i .ended).Inv := h.setCaller found operates (by decide)
      cases c with
      | operating => exact absurd rfl operates
      | _ => exact ended

theorem Plane.Inv.step (h : p.Inv) (event : Event) : (p.step event).Inv := by
  cases event with
  | callStartup => exact h.call (by decide)
  | callShutdown => exact h.call (by decide)
  | callMutation => exact h.call (by decide)
  | caller i authorized => exact h.callerStep i authorized
  | cancel i => exact h.cancel i
  | startup task ok => exact h.startupStep task ok
  | shutdown ok => exact h.shutdownStep ok

theorem inv_after (events : List Event) : (Plane.after events).Inv := by
  unfold Plane.after
  generalize start : Plane.fresh = p
  have h : p.Inv := start ▸ inv_fresh
  clear start
  induction events generalizing p with
  | nil => exact h
  | cons event events ih => exact ih _ (h.step event)

/-! ## After a shutdown has begun -/

theorem operating_of_setCaller {j : ℕ} {pc : CallerPc} (after : pc ≠ .operating)
    (found : (p.setCaller j pc).callers[i]? = some .operating) : p.callers[i]? = some .operating := by
  change (p.callers.set j pc)[i]? = some .operating at found
  rw [List.getElem?_set] at found
  split_ifs at found with same inside
  · exact absurd (Option.some.inj found) after
  · exact found

theorem callers_release (p : Plane) : p.release.callers = p.callers ∧ p.release.state = p.state := by
  unfold Plane.release
  split_ifs <;> exact ⟨rfl, rfl⟩

theorem callers_startupStep (p : Plane) (task : ℕ) (ok : Bool) : (p.startupStep task ok).callers = p.callers := by
  unfold Plane.startupStep Plane.abort
  repeat' split
  all_goals rfl

theorem callers_shutdownStep (p : Plane) (ok : Bool) : (p.shutdownStep ok).callers = p.callers := by
  unfold Plane.shutdownStep Plane.awaitIdle
  repeat' split
  all_goals rfl

/-- The later plane is closing, and has no mutation in its operation that the earlier one has not. -/
def Plane.Closes (p p' : Plane) : Prop :=
  p'.state.isClosing = true ∧ ∀ i : ℕ, p'.callers[i]? = some CallerPc.operating → p.callers[i]? = some CallerPc.operating

theorem closes_setCaller (closing : p.state.isClosing = true) (j : ℕ) {pc : CallerPc} (after : pc ≠ .operating) :
    p.Closes (p.setCaller j pc) := ⟨closing, fun _ => operating_of_setCaller after⟩

theorem closes_release (closing : p.state.isClosing = true) (j : ℕ) : p.Closes (p.setCaller j .ended).release := by
  obtain ⟨callers, state⟩ := callers_release (p.setCaller j .ended)
  unfold Plane.Closes
  rw [callers, state]
  exact closes_setCaller closing j (by decide)

theorem closes_call (closing : p.state.isClosing = true) {c : CallerPc} (waiting : c ≠ .operating) :
    p.Closes { p with callers := p.callers ++ [c] } := by
  refine ⟨closing, fun i found => ?_⟩
  dsimp only at found
  rw [List.getElem?_append] at found
  split_ifs at found with before
  · exact found
  · have last := List.mem_of_getElem? found
    exact absurd (List.mem_singleton.mp last).symm waiting

theorem closes_startupStep (h : p.Inv) (closing : p.state.isClosing = true) (task : ℕ) (ok : Bool) :
    p.Closes (p.startupStep task ok) := by
  refine ⟨?_, fun i found => by rwa [callers_startupStep] at found⟩
  unfold Plane.startupStep
  cases found : p.startups[task]? with
  | none => exact closing
  | some pc =>
    cases pc with
    | created =>
      unfold Plane.abort
      dsimp only
      split_ifs <;> exact closing
    | hostStartup =>
      unfold Plane.abort
      dsimp only
      split_ifs <;> exact closing
    | aborting => exact closing
    | failing =>
      have stopping : p.state = .stopping := by
        refine (h.current task _ found rfl).2.resolve_left fun starting => ?_
        rw [starting] at closing
        cases closing
      dsimp only
      rw [if_neg (not_not.mpr stopping)]
      exact closing
    | finishing =>
      dsimp only
      split_ifs with starting
      · rw [starting] at closing
        cases closing
      · exact closing
    | done _ => exact closing

theorem closes_shutdownStep (closing : p.state.isClosing = true) (ok : Bool) : p.Closes (p.shutdownStep ok) := by
  refine ⟨?_, fun i found => by rwa [callers_shutdownStep] at found⟩
  unfold Plane.shutdownStep Plane.awaitIdle
  repeat' split
  all_goals first | exact closing | rfl

theorem closes_callerStep (closing : p.state.isClosing = true) (j : ℕ) (authorized : Bool) :
    p.Closes (p.callerStep j authorized) := by
  have unstarted : p.state ≠ .started := by
    intro started
    rw [started] at closing
    cases closing
  have startup : ∀ (goesOn : CallerPc) (waits : ℕ → CallerPc), p.enterStartup j goesOn waits = p.setCaller j .ended := by
    intro goesOn waits
    rw [Plane.enterStartup, if_neg unstarted, if_pos closing]
  have here : p.Closes p := ⟨closing, fun _ found => found⟩
  have ends : p.Closes (p.setCaller j .ended) := closes_setCaller closing j (by decide)
  unfold Plane.callerStep
  cases p.callers[j]? with
  | none => exact here
  | some c =>
    cases c with
    | startupLock =>
      dsimp only
      rw [startup]
      exact ends
    | mutationLock =>
      dsimp only
      rw [startup]
      exact ends
    | startupWait task =>
      dsimp only
      split_ifs
      · exact ends
      · exact here
    | shutdownLock =>
      dsimp only
      unfold Plane.enterShutdown
      split_ifs
      · exact ends
      · exact ⟨rfl, fun _ => operating_of_setCaller (by decide)⟩
      · exact closes_setCaller closing j (by decide)
    | shutdownWait =>
      dsimp only
      split
      · exact ends
      · exact here
    | openLock =>
      dsimp only
      rw [if_pos closing]
      exact ends
    | mutationWait task =>
      dsimp only
      split
      · exact closes_setCaller closing j (by decide)
      · exact ends
      · exact here
    | admitLock =>
      dsimp only
      rw [Plane.enterAdmission, if_pos unstarted]
      exact ends
    | operating => exact closes_release closing j
    | ended => exact here

theorem closes_step (h : p.Inv) (closing : p.state.isClosing = true) (event : Event) : p.Closes (p.step event) := by
  cases event with
  | callStartup => exact closes_call closing (by decide)
  | callShutdown => exact closes_call closing (by decide)
  | callMutation => exact closes_call closing (by decide)
  | startup task ok => exact closes_startupStep h closing task ok
  | shutdown ok => exact closes_shutdownStep closing ok
  | caller j authorized => exact closes_callerStep closing j authorized
  | cancel j =>
    change p.Closes (p.cancel j)
    unfold Plane.cancel
    split
    · exact closes_release closing j
    · exact closes_setCaller closing j (by decide)
    · exact ⟨closing, fun _ found => found⟩

theorem closes_run (h : p.Inv) (closing : p.state.isClosing = true) (events : List Event) :
    p.Closes (events.foldl Plane.step p) := by
  induction events generalizing p with
  | nil => exact ⟨closing, fun _ found => found⟩
  | cons event events ih =>
    obtain ⟨closing', admitted⟩ := closes_step h closing event
    obtain ⟨closing'', admitted'⟩ := ih (h.step event) closing'
    exact ⟨closing'', fun i found => admitted i (admitted' i found)⟩

theorem Plane.Inv.startsAgain (h : p.Inv) (unbegun : p.shutdownTask = none)
    (failed : p.startups.getLast? = some (.done false)) : p.state = .new ∧ p.startupTask = none := by
  have open' := h.closing.mp unbegun
  have new : p.state = .new := by
    cases state : p.state with
    | new => rfl
    | starting =>
      obtain ⟨task, pc, current, found, going⟩ := h.starting state
      rw [List.getLast?_eq_getElem?, ← h.latest task current, Nat.add_sub_cancel, found] at failed
      cases failed
      cases going
    | started =>
      rw [h.started state] at failed
      cases failed
    | stopping =>
      rw [state] at open'
      cases open'
    | stopped =>
      rw [state] at open'
      cases open'
  exact ⟨new, h.fresh new⟩

end

/-- Whatever the order of steps and cancellations: once a shutdown has begun nothing is admitted; the host is shut
down at most once, and from then on no mutation is active and no startup in progress; after a failed startup the
next call of `startup` starts anew unless a shutdown has begun; and the count of active mutations is exact, so
that its underflow is unreachable and the idle event is set exactly while it is zero. -/
theorem lifecycle_safe (events : List Event) :
    ((Plane.after events).state.isClosing = true → ∀ (later : List Event) (i : ℕ),
      (Plane.after (events ++ later)).callers[i]? = some CallerPc.operating →
        (Plane.after events).callers[i]? = some CallerPc.operating) ∧
    (Plane.after events).hostShutdowns ≤ 1 ∧
    ((Plane.after events).hostShutdowns ≠ 0 →
      (Plane.after events).active = 0 ∧ (Plane.after events).operating = 0 ∧ (Plane.after events).Quiet) ∧
    ((Plane.after events).shutdownTask = none → (Plane.after events).startups.getLast? = some (.done false) →
      ∀ (i : ℕ) (authorized : Bool), (Plane.after events).callers[i]? = some CallerPc.startupLock ∨
          (Plane.after events).callers[i]? = some CallerPc.mutationLock →
        ((Plane.after events).step (.caller i authorized)).startups = (Plane.after events).startups ++ [.created]) ∧
    (Plane.after events).active = (Plane.after events).operating ∧ (Plane.after events).underflow = false ∧
    ((Plane.after events).idle = true ↔ (Plane.after events).operating = 0) := by
  have h := inv_after events
  refine ⟨fun closing later i found => ?_, ?_, fun some_call => ?_, fun unbegun failed i authorized waits => ?_, h.counted,
    h.underflow, by rw [h.idle, h.counted]⟩
  · rw [Plane.after, List.foldl_append] at found
    exact (closes_run h closing later).2 i found
  · cases called : (Plane.after events).shutdownTask.any ShutdownPc.called with
    | false =>
      rw [(h.uncalled called).1]
      exact Nat.zero_le 1
    | true => exact (h.called called).1.le
  · have called : (Plane.after events).shutdownTask.any ShutdownPc.called = true := by
      by_contra uncalled
      exact some_call (h.uncalled (Bool.eq_false_iff.mpr uncalled)).1
    obtain ⟨-, active, quiet⟩ := h.called called
    exact ⟨active, h.counted ▸ active, quiet⟩
  · obtain ⟨new, none⟩ := h.startsAgain unbegun failed
    change ((Plane.after events).callerStep i authorized).startups = _
    unfold Plane.callerStep
    rcases waits with waits | waits
    · rw [waits]
      simp [Plane.enterStartup, new, none, Lifecycle.isClosing]
    · rw [waits]
      simp [Plane.enterStartup, new, none, Lifecycle.isClosing]

end ControlLifecycle

end Constructicon
