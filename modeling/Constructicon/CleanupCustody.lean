import Mathlib.Tactic

/-!
# Custody at the end of an invocation

`_close_acquired` closes the acquisitions of an invocation one after another, each with the row of
its lease, and hands to `relinquish` what it may no longer close. Every call it makes may succeed,
fail, be cancelled or observe that a successor owns the run. The world decides how each call ends
from all that happened before it; a run is the list of the calls with their ends.
-/

namespace Constructicon.Cleanup

/-! ## Exceptions -/

inductive ExcKind where
  /-- `OwnershipLost` -/
  | ownershipLost
  /-- another `Exception` -/
  | ordinary
  /-- `CancelledError` -/
  | cancelled
  /-- a `BaseException` that is neither -/
  | death
deriving DecidableEq, Repr

inductive Exc where
  | leaf (kind : ExcKind) (id : ℕ)
  | group (first : Exc) (others : List Exc)

mutual

def Exc.leaves : Exc → List (ExcKind × ℕ)
  | .leaf kind id => [(kind, id)]
  | .group first others => first.leaves ++ Exc.leavesOf others

def Exc.leavesOf : List Exc → List (ExcKind × ℕ)
  | [] => []
  | e :: others => e.leaves ++ Exc.leavesOf others

end

/-- `_is_hard_death` -/
def Exc.isHardDeath (e : Exc) : Bool := e.leaves.any fun l => l.1 = .death

/-- `except Exception` catches it: a group of exceptions is an `ExceptionGroup`. -/
def Exc.isException (e : Exc) : Bool := e.leaves.all fun l => l.1 = .ownershipLost ∨ l.1 = .ordinary

/-- The identity of an `OwnershipLost`. -/
def Exc.loss? : Exc → Option ℕ
  | .leaf .ownershipLost id => some id
  | _ => none

def distinctLeaves (errors : List Exc) : List (ExcKind × ℕ) :=
  (errors.flatMap Exc.leaves).foldl (fun unique l => if l ∈ unique then unique else unique ++ [l]) []

/-- `_cleanup_error` -/
def cleanupError (errors : List Exc) : Option Exc :=
  match distinctLeaves errors with
  | [] => none
  | [l] => some (.leaf l.1 l.2)
  | l :: next :: others =>
    some (.group (.leaf l.1 l.2) ((next :: others).map fun l => .leaf l.1 l.2))

/-! ## Acquisitions and the calls on them -/

inductive CloseDisposition where
  | release
  | discard
deriving DecidableEq, Repr

structure Holding where
  leaseId : String
  /-- The capability is a `RelinquishingCapability`. -/
  relinquishing : Bool
deriving DecidableEq

/-- A call and how it ended; an acquisition is named by its place in the list. -/
inductive CleanupEvent where
  /-- `lost` was read and holds this loss. -/
  | latched (loss : ℕ)
  | heartbeat (outcome : Except Exc Unit)
  | close (index : ℕ) (disposition : CloseDisposition) (outcome : Except Exc CloseDisposition)
  /-- `transition_capability_lease`, from `active` to `closed` -/
  | transition (index : ℕ) (leaseId : String) (disposition : CloseDisposition) (outcome : Except Exc Unit)
  | relinquish (index : ℕ) (outcome : Except Exc Unit)

/-- How each call ends, and what `lost` holds when it is read, after all that happened before. -/
structure CleanupWorld where
  lost : List CleanupEvent → Option ℕ
  /-- `lost` only grows, and its first entry stays. -/
  latches : ∀ past more loss, lost past = some loss → lost (past ++ more) = some loss
  heartbeat : List CleanupEvent → Except Exc Unit
  close : List CleanupEvent → ℕ → CloseDisposition → Except Exc CloseDisposition
  transition : List CleanupEvent → ℕ → String → CloseDisposition → Except Exc Unit
  relinquish : List CleanupEvent → ℕ → Except Exc Unit
  /-- The cancellation that reached `_finish_cleanup` while it waited. -/
  cancellation : List CleanupEvent → Option Exc

inductive CleanupEnd where
  | returned
  | ownershipLost (loss : ℕ) (cause : Option Exc)
  /-- `_CleanupFailure` -/
  | failure (error : Exc) (nodeError cancellation : Option Exc)
  | raised (e : Exc)

/-- The arguments of `_close_acquired` besides the list. -/
structure CleanupCall where
  disposition : CloseDisposition
  nodeError : Option Exc := none
  priorError : Option Exc := none
  cancellation : Option Exc := none

/-- A `CancelledError` of the node counts as the cancellation. -/
def cancellationOf (nodeError cancellation : Option Exc) : Option Exc :=
  cancellation.or (nodeError.bind fun e =>
    match e with
    | .leaf .cancelled _ => some e
    | _ => none)

/-- `raise _CleanupFailure(error, node_error, cancellation)` for these errors; it is an assertion that
there is one. -/
def CleanupCall.fail (call : CleanupCall) (errors : List Exc) : CleanupEnd :=
  match cleanupError errors with
  | some error => .failure error call.nodeError (cancellationOf call.nodeError call.cancellation)
  | none => .returned

abbrev Outcome (α : Type) := α × List CleanupEvent

section

variable (w : CleanupWorld) (call : CleanupCall)

/-- `relinquish_all`: the errors of a batch, whose members all support it. -/
def relinquishAll (loss : Option ℕ) :
    List (Holding × ℕ) → List Exc → List CleanupEvent → Outcome (Except Exc (List Exc))
  | [], errors, _ => (.ok errors, [])
  | (_, index) :: rest, errors, past =>
    let outcome := w.relinquish past index
    let event := CleanupEvent.relinquish index outcome
    match outcome with
    | .ok () =>
      let r := relinquishAll loss rest errors (past ++ [event])
      (r.1, event :: r.2)
    | .error e =>
      if loss = none ∧ e.isHardDeath then (.error e, [event])
      else
        let r := relinquishAll loss rest (errors ++ [e]) (past ++ [event])
        (r.1, event :: r.2)

/-- `_relinquish_acquired` -/
def relinquishAcquired (acquired : List (Holding × ℕ)) (loss : Option ℕ) (past : List CleanupEvent) :
    Outcome (Except Exc (Option Exc)) :=
  let r := relinquishAll w loss (acquired.filter fun h => h.1.relinquishing) [] past
  (r.1.map cleanupError, r.2)

/-- `lost[0] if lost else None` -/
def readLost (past : List CleanupEvent) : Outcome (Option ℕ) :=
  match w.lost past with
  | some loss => (some loss, [.latched loss])
  | none => (none, [])

/-- Reads `lost`, then renews the lease of the run. -/
def observe (past : List CleanupEvent) : Outcome (Except Exc Unit) :=
  match w.lost past with
  | some loss => (.error (.leaf .ownershipLost loss), [.latched loss])
  | none => (w.heartbeat past, [.heartbeat (w.heartbeat past)])

/-- Relinquish the remaining acquisitions and end with the errors so far. -/
def leave (remaining : List (Holding × ℕ)) (loss : Option ℕ) (errors : List Exc) (last : List Exc → CleanupEnd)
    (past : List CleanupEvent) : Outcome CleanupEnd :=
  let r := relinquishAcquired w remaining loss past
  match r.1 with
  | .error death => (.raised death, r.2)
  | .ok failure => (last (errors ++ failure.toList), r.2)

def leaveLost (remaining : List (Holding × ℕ)) (loss : ℕ) (errors : List Exc) (past : List CleanupEvent) :
    Outcome CleanupEnd :=
  leave w remaining (some loss) errors (fun errors => .ownershipLost loss (cleanupError errors)) past

/-- Observe ownership before going on: on a loss or a failure the remaining acquisitions are relinquished. -/
def guarded (remaining : List (Holding × ℕ)) (errors : List Exc) (go : List CleanupEvent → Outcome CleanupEnd)
    (past : List CleanupEvent) : Outcome CleanupEnd :=
  let o := observe w past
  match o.1 with
  | .ok () =>
    let r := go (past ++ o.2)
    (r.1, o.2 ++ r.2)
  | .error e =>
    match e.loss? with
    | some loss =>
      let r := leaveLost w remaining loss errors (past ++ o.2)
      (r.1, o.2 ++ r.2)
    | none =>
      if e.isException then
        let r := leave w remaining none (errors ++ [e]) call.fail (past ++ o.2)
        (r.1, o.2 ++ r.2)
      else (.raised e, o.2)

/-- The close of one acquisition and the write of its row; a failure tells whether the close was done. -/
def closeOne (h : Holding) (index : ℕ) (past : List CleanupEvent) : Outcome (Except (Bool × Exc) Unit) :=
  let closing := w.close past index call.disposition
  let closeEvent := CleanupEvent.close index call.disposition closing
  match closing with
  | .error e => (.error (false, e), [closeEvent])
  | .ok closure =>
    let written := w.transition (past ++ [closeEvent]) index h.leaseId closure
    (written.mapError (true, ·), [closeEvent, .transition index h.leaseId closure written])

/-- The close or the row of an acquisition failed after the events `c`, with no loss and no death: it is
relinquished, which changes no row, and ownership is observed before the loop goes on. -/
def afterFailure (h : Holding) (index : ℕ) (rest : List (Holding × ℕ))
    (closeRest : List Exc → List CleanupEvent → Outcome CleanupEnd) (e : Exc) (errors : List Exc)
    (past c : List CleanupEvent) : Outcome CleanupEnd :=
  let l := readLost w (past ++ c)
  let freed := relinquishAcquired w [(h, index)] l.1 (past ++ c ++ l.2)
  match freed.1 with
  | .error death => (.raised death, c ++ l.2 ++ freed.2)
  | .ok failure =>
    let r := guarded w call rest (errors ++ [e] ++ failure.toList)
      (closeRest (errors ++ [e] ++ failure.toList)) (past ++ c ++ l.2 ++ freed.2)
    (r.1, c ++ l.2 ++ freed.2 ++ r.2)

/-- A turn of `close_all` after ownership was observed; `closeRest` is the loop on the rest. -/
def closeNext (h : Holding) (index : ℕ) (rest : List (Holding × ℕ))
    (closeRest : List Exc → List CleanupEvent → Outcome CleanupEnd) (errors : List Exc) (past : List CleanupEvent) :
    Outcome CleanupEnd :=
  let c := closeOne w call h index past
  match c.1 with
  | .ok () =>
    let r := closeRest errors (past ++ c.2)
    (r.1, c.2 ++ r.2)
  | .error (closed, e) =>
    match e.loss? with
    | some loss =>
      -- a successor owns the remaining rows
      let r := leaveLost w (if closed then rest else (h, index) :: rest) loss errors (past ++ c.2)
      (r.1, c.2 ++ r.2)
    | none =>
      if e.isHardDeath then (.raised e, c.2)
      else afterFailure w call h index rest closeRest e errors past c.2

/-- `close_all` -/
def closeAll : List (Holding × ℕ) → List Exc → List CleanupEvent → Outcome CleanupEnd
  | [], errors, _ => (call.fail errors, [])
  | (h, index) :: rest, errors, past =>
    guarded w call ((h, index) :: rest) errors (closeNext w call h index rest (closeAll rest) errors) past

/-- `_finish_cleanup`: the end of the batch, and the cancellation that arrived meanwhile. -/
def finishCleanup (cancellation : Option Exc) : CleanupEnd → CleanupEnd
  | .returned => cancellation.elim .returned .raised
  | .ownershipLost loss cause => .ownershipLost loss cause
  | .failure error nodeError own => .failure error nodeError (cancellation.or own)
  | .raised e => if e.isHardDeath then .raised e else .failure e none cancellation

/-- `_close_acquired` -/
def closeAcquired (acquired : List Holding) : Outcome CleanupEnd :=
  if acquired = [] then
    (call.priorError.elim .returned fun error =>
      .failure error call.nodeError (cancellationOf call.nodeError call.cancellation), [])
  else
    let r := closeAll w call acquired.zipIdx call.priorError.toList []
    (finishCleanup (w.cancellation r.2) r.1, r.2)

end

/-! ## What a run can be -/

def CleanupEvent.observes : CleanupEvent → Bool
  | .latched _ => true
  | .heartbeat (.error e) => e.loss?.isSome
  | .close _ _ (.error e) => e.loss?.isSome
  | .transition _ _ _ (.error e) => e.loss?.isSome
  | _ => false

def CleanupEvent.durable : CleanupEvent → Bool
  | .heartbeat _ => true
  | .close _ _ _ => true
  | .transition _ _ _ _ => true
  | _ => false

def CleanupEvent.closing? : CleanupEvent → Option ℕ
  | .close index _ _ => some index
  | _ => none

/-- No call raised a hard death, and the heartbeat, which nothing can cancel, no cancellation. -/
def CleanupEvent.Mild : CleanupEvent → Prop
  | .latched _ => True
  | .heartbeat outcome => ∀ e, outcome = .error e → e.isException = true
  | .close _ _ outcome => ∀ e, outcome = .error e → e.isHardDeath = false
  | .transition _ _ _ outcome => ∀ e, outcome = .error e → e.isHardDeath = false
  | .relinquish _ outcome => ∀ e, outcome = .error e → e.isHardDeath = false

/-- The events relinquish acquisitions, every one of these unless a hard death stopped the batch. -/
structure Freed (acquired : List (Holding × ℕ)) (s : List CleanupEvent) : Prop where
  only : ∀ e ∈ s, ∃ index outcome, e = .relinquish index outcome
  each : (∀ e ∈ s, e.Mild) → ∀ p ∈ acquired, p.1.relinquishing = true → ∃ outcome, .relinquish p.2 outcome ∈ s

/-- An observation that ends the run: a loss or a failure, after which the remaining acquisitions are relinquished. -/
inductive Stops (remaining : List (Holding × ℕ)) (s : List CleanupEvent) : Prop
  | latched {loss : ℕ} {f : List CleanupEvent} (freed : Freed remaining f) (shape : s = .latched loss :: f)
  | lost {e : Exc} {f : List CleanupEvent} (loss : e.loss?.isSome = true) (freed : Freed remaining f)
      (shape : s = .heartbeat (.error e) :: f)
  | failed {e : Exc} {f : List CleanupEvent} (other : e.loss? = none) (freed : Freed remaining f)
      (shape : s = .heartbeat (.error e) :: f)
  | escaped {e : Exc} (wild : e.isException = false) (shape : s = [.heartbeat (.error e)])

inductive Failing (call : CleanupCall) (h : Holding) (index : ℕ) : Bool → Exc → List CleanupEvent → Prop
  | close (e : Exc) : Failing call h index false e [.close index call.disposition (.error e)]
  | row (d : CloseDisposition) (e : Exc) : Failing call h index true e
      [.close index call.disposition (.ok d), .transition index h.leaseId d (.error e)]

/-- The runs of `close_all`. -/
inductive CleanupRun (call : CleanupCall) :
    List (Holding × ℕ) → List Exc → CleanupEnd → List CleanupEvent → Prop
  | nil (errors : List Exc) : CleanupRun call [] errors (call.fail errors) []
  | stops {p : Holding × ℕ} {rest : List (Holding × ℕ)} {errors : List Exc} {last : CleanupEnd} {s : List CleanupEvent}
      (stops : Stops (p :: rest) s) (goes : last ≠ .returned) : CleanupRun call (p :: rest) errors last s
  | closed {h : Holding} {index : ℕ} {rest : List (Holding × ℕ)} {errors : List Exc} {last : CleanupEnd}
      {d : CloseDisposition} {s : List CleanupEvent} (run : CleanupRun call rest errors last s) :
      CleanupRun call ((h, index) :: rest) errors last (.heartbeat (.ok ()) ::
        .close index call.disposition (.ok d) :: .transition index h.leaseId d (.ok ()) :: s)
  | lost {h : Holding} {index : ℕ} {rest : List (Holding × ℕ)} {errors : List Exc} {last : CleanupEnd} {done : Bool}
      {e : Exc} {c f : List CleanupEvent} (failing : Failing call h index done e c) (loss : e.loss?.isSome = true)
      (freed : Freed (if done then rest else (h, index) :: rest) f) (goes : last ≠ .returned) :
      CleanupRun call ((h, index) :: rest) errors last (.heartbeat (.ok ()) :: (c ++ f))
  | died {h : Holding} {index : ℕ} {rest : List (Holding × ℕ)} {errors : List Exc} {done : Bool} {e death : Exc}
      {c s : List CleanupEvent} (failing : Failing call h index done e c)
      (quiet : ∀ x ∈ s, x.durable = false) (fatal : ¬ ∀ x ∈ c ++ s, x.Mild) :
      CleanupRun call ((h, index) :: rest) errors (.raised death) (.heartbeat (.ok ()) :: (c ++ s))
  | failedStops {h : Holding} {index : ℕ} {rest : List (Holding × ℕ)} {errors : List Exc} {last : CleanupEnd}
      {done : Bool} {e : Exc} {c l f s : List CleanupEvent} (failing : Failing call h index done e c)
      (other : e.loss? = none) (read : l = [] ∨ (∃ loss, l = [.latched loss]) ∧ ∀ x ∈ s, x.durable = false)
      (freed : Freed [(h, index)] f) (stops : Stops rest s) (goes : last ≠ .returned) :
      CleanupRun call ((h, index) :: rest) errors last (.heartbeat (.ok ()) :: (c ++ l ++ f ++ s))
  | failedGoes {h : Holding} {index : ℕ} {rest : List (Holding × ℕ)} {errors errors' : List Exc} {last : CleanupEnd}
      {done : Bool} {e : Exc} {c f s : List CleanupEvent} (failing : Failing call h index done e c)
      (other : e.loss? = none) (freed : Freed [(h, index)] f) (grown : errors' ≠ [])
      (run : CleanupRun call rest errors' last s) :
      CleanupRun call ((h, index) :: rest) errors last
        (.heartbeat (.ok ()) :: (c ++ f ++ .heartbeat (.ok ()) :: s))

/-! ## Every run is one of these -/

theorem leaves_ne_nil (e : Exc) : e.leaves ≠ [] := by
  cases e with
  | leaf kind id => simp [Exc.leaves]
  | group first others =>
    rw [Exc.leaves]
    intro empty
    exact leaves_ne_nil first (List.append_eq_nil_iff.mp empty).1
termination_by sizeOf e

theorem cleanupError_eq_none {errors : List Exc} : cleanupError errors = none ↔ errors = [] := by
  have kept : ∀ (l unique : List (ExcKind × ℕ)), unique ⊆
      l.foldl (fun unique l => if l ∈ unique then unique else unique ++ [l]) unique := by
    intro l
    induction l with
    | nil => exact fun unique => List.Subset.refl _
    | cons x l ih =>
      intro unique
      rw [List.foldl_cons]
      refine List.Subset.trans ?_ (ih _)
      split_ifs
      · exact List.Subset.refl _
      · exact List.subset_append_left _ _
  constructor
  · intro none
    have empty : distinctLeaves errors = [] := by
      unfold cleanupError at none
      split at none
      · assumption
      · cases none
      · cases none
    by_contra some_error
    obtain ⟨e, others, rfl⟩ := List.exists_cons_of_ne_nil some_error
    obtain ⟨x, l, leaves⟩ := List.exists_cons_of_ne_nil (leaves_ne_nil e)
    rw [distinctLeaves, List.flatMap_cons, leaves, List.cons_append, List.foldl_cons] at empty
    have inside : x ∈ (if x ∈ ([] : List (ExcKind × ℕ)) then [] else [] ++ [x]) := by simp
    have later := kept (l ++ others.flatMap Exc.leaves) _ inside
    rw [empty] at later
    cases later
  · rintro rfl
    rfl

theorem fail_ne_returned (call : CleanupCall) {errors : List Exc} (some_error : errors ≠ []) :
    call.fail errors ≠ .returned := by
  unfold CleanupCall.fail
  cases error : cleanupError errors with
  | none => exact absurd (cleanupError_eq_none.mp error) some_error
  | some e => simp

section

variable {w : CleanupWorld} {call : CleanupCall}

/-- A batch answers, and relinquishes all its members, unless it meets a hard death. -/
structure Batch (acquired : List (Holding × ℕ)) (r : Outcome (Except Exc (List Exc))) : Prop where
  only : ∀ e ∈ r.2, ∃ index outcome, e = .relinquish index outcome
  ends : (∀ e ∈ r.2, e.Mild) → ∃ errors, r.1 = .ok errors
  each : (∀ e ∈ r.2, e.Mild) → ∀ p ∈ acquired, ∃ outcome, .relinquish p.2 outcome ∈ r.2

theorem Batch.cons {rest : List (Holding × ℕ)} {r : Outcome (Except Exc (List Exc))} (batch : Batch rest r)
    (h : Holding) (index : ℕ) (outcome : Except Exc Unit) :
    Batch ((h, index) :: rest) (r.1, .relinquish index outcome :: r.2) := by
  refine ⟨?_, fun mild => batch.ends fun e mem => mild e (List.mem_cons_of_mem _ mem), fun mild p mem => ?_⟩
  · intro e mem
    rcases List.mem_cons.mp mem with rfl | mem
    · exact ⟨_, _, rfl⟩
    · exact batch.only e mem
  · rcases List.mem_cons.mp mem with rfl | mem
    · exact ⟨_, List.mem_cons_self⟩
    · obtain ⟨found, inside⟩ := batch.each (fun e mem => mild e (List.mem_cons_of_mem _ mem)) p mem
      exact ⟨found, List.mem_cons_of_mem _ inside⟩

theorem relinquishAll_batch (loss : Option ℕ) (acquired : List (Holding × ℕ)) (errors : List Exc)
    (past : List CleanupEvent) : Batch acquired (relinquishAll w loss acquired errors past) := by
  induction acquired generalizing errors past with
  | nil => exact ⟨by simp [relinquishAll], fun _ => ⟨errors, rfl⟩, by simp⟩
  | cons p rest ih =>
    obtain ⟨h, index⟩ := p
    cases outcome : w.relinquish past index with
    | ok u =>
      have goes := (ih errors (past ++ [.relinquish index (.ok u)])).cons h index (.ok u)
      simpa only [relinquishAll, outcome] using goes
    | error e =>
      by_cases fatal : loss = none ∧ e.isHardDeath = true
      · have ends : relinquishAll w loss ((h, index) :: rest) errors past = (.error e, [.relinquish index (.error e)]) := by
          simp only [relinquishAll, outcome, if_pos fatal]
        have wild : ¬ ∀ x ∈ [CleanupEvent.relinquish index (.error e)], x.Mild := by
          intro mild
          have calm := mild _ (List.mem_singleton_self _) e rfl
          rw [fatal.2] at calm
          cases calm
        rw [ends]
        exact ⟨by simp, fun mild => absurd mild wild, fun mild => absurd mild wild⟩
      · have goes := (ih (errors ++ [e]) (past ++ [.relinquish index (.error e)])).cons h index
          (.error e)
        simpa only [relinquishAll, outcome, if_neg fatal] using goes

theorem relinquishAcquired_freed (acquired : List (Holding × ℕ)) (loss : Option ℕ) (past : List CleanupEvent) :
    Freed acquired (relinquishAcquired w acquired loss past).2 := by
  have batch := relinquishAll_batch (w := w) loss (acquired.filter fun h => h.1.relinquishing) [] past
  exact ⟨batch.only, fun mild p mem supports => batch.each mild p (List.mem_filter.mpr ⟨mem, supports⟩)⟩

theorem relinquishAcquired_death {acquired : List (Holding × ℕ)} {loss : Option ℕ} {past : List CleanupEvent}
    {death : Exc} (raised : (relinquishAcquired w acquired loss past).1 = .error death) :
    ¬ ∀ e ∈ (relinquishAcquired w acquired loss past).2, e.Mild := by
  intro mild
  obtain ⟨errors, fine⟩ :=
    (relinquishAll_batch (w := w) loss (acquired.filter fun h => h.1.relinquishing) [] past).ends mild
  simp only [relinquishAcquired, fine, Except.map] at raised
  cases raised

theorem leave_freed (remaining : List (Holding × ℕ)) (loss : Option ℕ) (errors : List Exc)
    (last : List Exc → CleanupEnd) (past : List CleanupEvent) :
    Freed remaining (leave w remaining loss errors last past).2 := by
  have freed := relinquishAcquired_freed (w := w) remaining loss past
  unfold leave
  dsimp only
  cases (relinquishAcquired w remaining loss past).1 with
  | error death => exact freed
  | ok failure => exact freed

theorem leave_ne_returned (remaining : List (Holding × ℕ)) (loss : Option ℕ) (errors : List Exc)
    {last : List Exc → CleanupEnd} (past : List CleanupEvent) (ends : ∀ more, last (errors ++ more) ≠ .returned) :
    (leave w remaining loss errors last past).1 ≠ .returned := by
  unfold leave
  dsimp only
  cases (relinquishAcquired w remaining loss past).1 with
  | error death => simp
  | ok failure => exact ends failure.toList

theorem Freed.quiet {acquired : List (Holding × ℕ)} {s : List CleanupEvent} (freed : Freed acquired s) :
    ∀ x ∈ s, x.durable = false := by
  intro x mem
  obtain ⟨index, outcome, rfl⟩ := freed.only x mem
  rfl

variable (w call) in
theorem guarded_cases (remaining : List (Holding × ℕ)) (errors : List Exc)
    (go : List CleanupEvent → Outcome CleanupEnd) (past : List CleanupEvent) :
    (w.lost past = none ∧ guarded w call remaining errors go past =
        ((go (past ++ [.heartbeat (.ok ())])).1, .heartbeat (.ok ()) :: (go (past ++ [.heartbeat (.ok ())])).2)) ∨
      ((guarded w call remaining errors go past).1 ≠ .returned ∧
        Stops remaining (guarded w call remaining errors go past).2 ∧
        (w.lost past ≠ none → ∀ x ∈ (guarded w call remaining errors go past).2, x.durable = false)) := by
  have lost_ends : ∀ (loss : ℕ) (past : List CleanupEvent),
      (leaveLost w remaining loss errors past).1 ≠ .returned :=
    fun loss past => leave_ne_returned _ _ _ _ fun more => by simp
  unfold guarded observe
  cases seen : w.lost past with
  | some loss =>
    right
    refine ⟨lost_ends loss _, .latched (leave_freed ..) rfl, fun _ x mem => ?_⟩
    rcases List.mem_cons.mp mem with rfl | mem
    · rfl
    · exact (leave_freed (w := w) ..).quiet x mem
  | none =>
    dsimp only
    cases outcome : w.heartbeat past with
    | ok u => exact .inl ⟨rfl, rfl⟩
    | error e =>
      right
      dsimp only
      cases loss : e.loss? with
      | some id =>
        exact ⟨lost_ends id _, .lost (by rw [loss]; rfl) (leave_freed ..) rfl, fun h => absurd rfl h⟩
      | none =>
        dsimp only
        by_cases caught : e.isException = true
        · rw [if_pos caught]
          refine ⟨leave_ne_returned _ _ _ _ fun more => fail_ne_returned call (by simp), ?_, fun h => absurd rfl h⟩
          exact .failed loss (leave_freed ..) rfl
        · rw [if_neg caught]
          exact ⟨by simp, .escaped (Bool.eq_false_iff.mpr caught) rfl, fun h => absurd rfl h⟩

variable (w call) in
theorem closeOne_cases (h : Holding) (index : ℕ) (past : List CleanupEvent) :
    (∃ d, closeOne w call h index past = (.ok (), [.close index call.disposition (.ok d),
        .transition index h.leaseId d (.ok ())])) ∨
      ∃ done e, (closeOne w call h index past).1 = .error (done, e) ∧
        Failing call h index done e (closeOne w call h index past).2 := by
  unfold closeOne
  cases closing : w.close past index call.disposition with
  | error e => exact .inr ⟨false, e, rfl, .close e⟩
  | ok d =>
    dsimp only
    cases written : w.transition (past ++ [.close index call.disposition (.ok d)]) index h.leaseId d with
    | ok u => exact .inl ⟨d, rfl⟩
    | error e => exact .inr ⟨true, e, rfl, .row d e⟩

theorem Failing.not_mild {h : Holding} {index : ℕ} {done : Bool} {e : Exc} {c : List CleanupEvent}
    (failing : Failing call h index done e c) (fatal : e.isHardDeath = true) : ¬ ∀ x ∈ c, x.Mild := by
  intro mild
  have calm : e.isHardDeath = false := by
    cases failing with
    | close => exact mild (.close index call.disposition (.error e)) (by simp) e rfl
    | row d => exact mild (.transition index h.leaseId d (.error e)) (by simp) e rfl
  rw [fatal] at calm
  cases calm

theorem readLost_cases (past : List CleanupEvent) :
    (w.lost past = none ∧ readLost w past = (none, [])) ∨
      ∃ loss, w.lost past = some loss ∧ readLost w past = (some loss, [.latched loss]) := by
  unfold readLost
  cases w.lost past with
  | none => exact .inl ⟨rfl, rfl⟩
  | some loss => exact .inr ⟨loss, rfl, rfl⟩

theorem afterFailure_run {h : Holding} {index : ℕ} {rest : List (Holding × ℕ)} {done : Bool} {e : Exc}
    {c : List CleanupEvent} {closeRest : List Exc → List CleanupEvent → Outcome CleanupEnd}
    (run : ∀ errors past, CleanupRun call rest errors (closeRest errors past).1 (closeRest errors past).2)
    (failing : Failing call h index done e c) (other : e.loss? = none) (errors : List Exc) (past : List CleanupEvent) :
    CleanupRun call ((h, index) :: rest) errors (afterFailure w call h index rest closeRest e errors past c).1
      (.heartbeat (.ok ()) :: (afterFailure w call h index rest closeRest e errors past c).2) := by
  unfold afterFailure
  dsimp only
  have read := readLost_cases (w := w) (past ++ c)
  generalize readLost w (past ++ c) = l at read ⊢
  have freed := relinquishAcquired_freed (w := w) [(h, index)] l.1 (past ++ c ++ l.2)
  have death := fun death => @relinquishAcquired_death w [(h, index)] l.1 (past ++ c ++ l.2) death
  generalize relinquishAcquired w [(h, index)] l.1 (past ++ c ++ l.2) = f at freed death ⊢
  obtain ⟨result, f⟩ := f
  dsimp only at freed death ⊢
  cases result with
  | error fatal =>
    dsimp only
    rw [List.append_assoc]
    refine .died failing ?_ fun mild => death fatal rfl fun x mem => mild x ?_
    · intro x mem
      rcases List.mem_append.mp mem with mem | mem
      · rcases read with ⟨-, rfl⟩ | ⟨loss, -, rfl⟩
        · cases mem
        · rw [List.mem_singleton.mp mem]
          rfl
      · exact freed.quiet x mem
    · exact List.mem_append_right _ (List.mem_append_right _ mem)
  | ok failure =>
    dsimp only
    rcases guarded_cases w call rest (errors ++ [e] ++ failure.toList)
      (closeRest (errors ++ [e] ++ failure.toList)) (past ++ c ++ l.2 ++ f) with ⟨free, goes⟩ | ⟨ends, stops, quiet⟩
    · rcases read with ⟨-, rfl⟩ | ⟨loss, latched, rfl⟩
      · rw [goes]
        dsimp only
        rw [List.append_nil c]
        exact .failedGoes failing other freed (by simp) (run (errors ++ [e] ++ failure.toList) _)
      · rw [List.append_assoc (past ++ c), w.latches _ _ _ latched] at free
        cases free
    · refine .failedStops failing other ?_ freed stops ends
      rcases read with ⟨-, rfl⟩ | ⟨loss, latched, rfl⟩
      · exact .inl rfl
      · refine .inr ⟨⟨loss, rfl⟩, quiet ?_⟩
        rw [List.append_assoc (past ++ c), w.latches _ _ _ latched]
        simp

theorem closeNext_run {h : Holding} {index : ℕ} {rest : List (Holding × ℕ)}
    {closeRest : List Exc → List CleanupEvent → Outcome CleanupEnd}
    (run : ∀ errors past, CleanupRun call rest errors (closeRest errors past).1 (closeRest errors past).2)
    (errors : List Exc) (past : List CleanupEvent) :
    CleanupRun call ((h, index) :: rest) errors (closeNext w call h index rest closeRest errors past).1
      (.heartbeat (.ok ()) :: (closeNext w call h index rest closeRest errors past).2) := by
  unfold closeNext
  rcases closeOne_cases w call h index past with ⟨d, ends⟩ | ⟨done, e, raised, failing⟩
  · rw [ends]
    exact .closed (run _ _)
  · generalize closeOne w call h index past = c at raised failing ⊢
    dsimp only
    rw [raised]
    dsimp only
    cases loss : e.loss? with
    | some id =>
      exact .lost failing (by rw [loss]; rfl) (leave_freed ..) (leave_ne_returned _ _ _ _ fun more => by simp)
    | none =>
      dsimp only
      by_cases fatal : e.isHardDeath = true
      · rw [if_pos fatal]
        have died : CleanupRun call ((h, index) :: rest) errors (.raised e) (.heartbeat (.ok ()) :: (c.2 ++ [])) :=
          .died failing (by simp) (by rw [List.append_nil]; exact failing.not_mild fatal)
        rwa [List.append_nil] at died
      · rw [if_neg fatal]
        exact afterFailure_run run failing loss errors past

theorem closeAll_run (acquired : List (Holding × ℕ)) (errors : List Exc) (past : List CleanupEvent) :
    CleanupRun call acquired errors (closeAll w call acquired errors past).1 (closeAll w call acquired errors past).2 := by
  induction acquired generalizing errors past with
  | nil => exact .nil errors
  | cons p rest ih =>
    obtain ⟨h, index⟩ := p
    rw [closeAll]
    rcases guarded_cases w call ((h, index) :: rest) errors
      (closeNext w call h index rest (closeAll w call rest) errors) past with ⟨-, goes⟩ | ⟨ends, stops, -⟩
    · rw [goes]
      exact closeNext_run ih errors _
    · exact .stops stops ends

end

/-! ## What every run keeps -/

/-- The acquisition is closed and its row moved to `closed`. -/
def Recorded (s : List CleanupEvent) (h : Holding) (index : ℕ) : Prop :=
  ∃ asked d, .close index asked (.ok d) ∈ s ∧ .transition index h.leaseId d (.ok ()) ∈ s

/-- The acquisition is closed, and the write of its row observed that a successor owns it. -/
def ClosedAtLoss (s : List CleanupEvent) (h : Holding) (index : ℕ) : Prop :=
  ∃ asked d e, .close index asked (.ok d) ∈ s ∧ .transition index h.leaseId d (.error e) ∈ s ∧ e.loss?.isSome = true

def HandedOver (s : List CleanupEvent) (index : ℕ) : Prop := ∃ outcome, .relinquish index outcome ∈ s

def SettledIn (s : List CleanupEvent) (h : Holding) (index : ℕ) : Prop :=
  Recorded s h index ∨ ClosedAtLoss s h index ∨ (h.relinquishing = true → HandedOver s index)

theorem SettledIn.mono {s t : List CleanupEvent} {h : Holding} {index : ℕ} (settled : SettledIn s h index)
    (sub : s ⊆ t) : SettledIn t h index := by
  rcases settled with ⟨asked, d, closed, written⟩ | ⟨asked, d, e, closed, refused, loss⟩ | handed
  · exact .inl ⟨asked, d, sub closed, sub written⟩
  · exact .inr (.inl ⟨asked, d, e, sub closed, sub refused, loss⟩)
  · refine .inr (.inr fun supports => ?_)
    obtain ⟨outcome, mem⟩ := handed supports
    exact ⟨outcome, sub mem⟩

theorem Freed.settled {acquired : List (Holding × ℕ)} {s : List CleanupEvent} (freed : Freed acquired s)
    (mild : ∀ e ∈ s, e.Mild) : ∀ p ∈ acquired, SettledIn s p.1 p.2 :=
  fun p mem => .inr (.inr (freed.each mild p mem))

theorem Stops.settled {remaining : List (Holding × ℕ)} {s : List CleanupEvent} (stops : Stops remaining s)
    (mild : ∀ e ∈ s, e.Mild) : ∀ p ∈ remaining, SettledIn s p.1 p.2 := by
  have later : ∀ {x : CleanupEvent} {f : List CleanupEvent}, Freed remaining f → s = x :: f →
      ∀ p ∈ remaining, SettledIn s p.1 p.2 := by
    rintro x f freed rfl p mem
    exact (freed.settled (fun e inside => mild e (List.mem_cons_of_mem _ inside)) p mem).mono
      (List.subset_cons_self _ _)
  cases stops with
  | latched freed shape => exact later freed shape
  | lost loss freed shape => exact later freed shape
  | failed other freed shape => exact later freed shape
  | @escaped e wild shape =>
    have caught := mild (.heartbeat (.error e)) (by simp [shape]) e rfl
    rw [wild] at caught
    cases caught

section

variable {call : CleanupCall} {acquired : List (Holding × ℕ)} {errors : List Exc} {last : CleanupEnd}
  {s : List CleanupEvent}

theorem CleanupRun.settled (run : CleanupRun call acquired errors last s) (mild : ∀ e ∈ s, e.Mild) :
    ∀ p ∈ acquired, SettledIn s p.1 p.2 := by
  induction run with
  | nil errors => simp
  | stops stops _ => exact stops.settled mild
  | @closed h index rest errors last d s run ih =>
    have sub : s ⊆ .heartbeat (.ok ()) :: .close index call.disposition (.ok d) ::
        .transition index h.leaseId d (.ok ()) :: s := by
      intro x mem
      simp [mem]
    intro p mem
    rcases List.mem_cons.mp mem with rfl | mem
    · exact .inl ⟨call.disposition, d, by simp, by simp⟩
    · exact (ih (fun x inside => mild x (sub inside)) p mem).mono sub
  | @lost h index rest errors last done e c f failing loss freed _ =>
    have sub : f ⊆ .heartbeat (.ok ()) :: (c ++ f) := by
      intro x mem
      simp [mem]
    have calm : ∀ x ∈ f, x.Mild := fun x inside => mild x (sub inside)
    cases failing with
    | close => exact fun p mem => (freed.settled calm p mem).mono sub
    | row d =>
      intro p mem
      rcases List.mem_cons.mp mem with rfl | mem
      · exact .inr (.inl ⟨call.disposition, d, e, by simp, by simp, loss⟩)
      · exact (freed.settled calm p mem).mono sub
  | @died h index rest errors done e death c s failing _ fatal =>
    exact absurd (fun x inside => mild x (List.mem_cons_of_mem _ inside)) fatal
  | @failedStops h index rest errors last done e c l f s failing other read freed stops _ =>
    have sub : f ⊆ .heartbeat (.ok ()) :: (c ++ l ++ f ++ s) := by
      intro x mem
      simp [mem]
    have sub' : s ⊆ .heartbeat (.ok ()) :: (c ++ l ++ f ++ s) := by
      intro x mem
      simp [mem]
    intro p mem
    rcases List.mem_cons.mp mem with rfl | mem
    · exact (freed.settled (fun x inside => mild x (sub inside)) _ (List.mem_singleton_self _)).mono sub
    · exact (stops.settled (fun x inside => mild x (sub' inside)) p mem).mono sub'
  | @failedGoes h index rest errors errors' last done e c f s failing other freed _ run ih =>
    have sub : f ⊆ .heartbeat (.ok ()) :: (c ++ f ++ .heartbeat (.ok ()) :: s) := by
      intro x mem
      simp [mem]
    have sub' : s ⊆ .heartbeat (.ok ()) :: (c ++ f ++ .heartbeat (.ok ()) :: s) := by
      intro x mem
      simp [mem]
    intro p mem
    rcases List.mem_cons.mp mem with rfl | mem
    · exact (freed.settled (fun x inside => mild x (sub inside)) _ (List.mem_singleton_self _)).mono sub
    · exact (ih (fun x inside => mild x (sub' inside)) p mem).mono sub'

/-- Nothing is closed and no row is written after a loss was observed. -/
def Orderly (s : List CleanupEvent) : Prop := s.Pairwise fun e x => e.observes = true → x.durable = false

theorem orderly_append (front : List CleanupEvent) {back : List CleanupEvent} (silent : ∀ x ∈ front, x.observes = false)
    (orderly : Orderly back) : Orderly (front ++ back) := by
  apply List.pairwise_append.mpr
  refine ⟨?_, orderly, ?_⟩
  · apply List.pairwise_of_forall_mem_list
    intro e mem x _ observes
    rw [silent e mem] at observes
    cases observes
  · intro e mem x _ observes
    rw [silent e mem] at observes
    cases observes

theorem orderly_cons {e : CleanupEvent} {back : List CleanupEvent} (quiet : ∀ x ∈ back, x.durable = false) :
    Orderly (e :: back) := by
  apply List.pairwise_cons.mpr
  refine ⟨fun x mem _ => quiet x mem, ?_⟩
  apply List.pairwise_of_forall_mem_list
  exact fun _ _ x mem _ => quiet x mem

theorem Freed.silent (freed : Freed acquired s) : ∀ x ∈ s, x.observes = false := by
  intro x mem
  obtain ⟨index, outcome, rfl⟩ := freed.only x mem
  rfl

theorem Stops.orderly (stops : Stops acquired s) : Orderly s := by
  cases stops with
  | latched freed shape => exact shape ▸ orderly_cons freed.quiet
  | lost _ freed shape => exact shape ▸ orderly_cons freed.quiet
  | failed _ freed shape => exact shape ▸ orderly_cons freed.quiet
  | escaped _ shape => exact shape ▸ orderly_cons (by simp)

theorem Failing.silent {h : Holding} {index : ℕ} {done : Bool} {e : Exc} {c : List CleanupEvent}
    (failing : Failing call h index done e c) (other : e.loss? = none) : ∀ x ∈ c, x.observes = false := by
  cases failing with
  | close => simp [CleanupEvent.observes, other]
  | row d => simp [CleanupEvent.observes, other]

theorem Failing.orderly {h : Holding} {index : ℕ} {done : Bool} {e : Exc} {c f : List CleanupEvent}
    (failing : Failing call h index done e c) (quiet : ∀ x ∈ f, x.durable = false) :
    Orderly (.heartbeat (.ok ()) :: (c ++ f)) := by
  cases failing with
  | close => exact orderly_append [.heartbeat (.ok ())] (by simp [CleanupEvent.observes]) (orderly_cons quiet)
  | row d =>
    exact orderly_append [.heartbeat (.ok ()), .close index call.disposition (.ok d)]
      (by simp [CleanupEvent.observes]) (orderly_cons quiet)

theorem CleanupRun.orderly (run : CleanupRun call acquired errors last s) : Orderly s := by
  induction run with
  | nil errors => exact List.Pairwise.nil
  | stops stops _ => exact stops.orderly
  | @closed h index rest errors last d s run ih =>
    exact orderly_append [.heartbeat (.ok ()), .close index call.disposition (.ok d),
      .transition index h.leaseId d (.ok ())] (by simp [CleanupEvent.observes]) ih
  | lost failing _ freed _ => exact failing.orderly freed.quiet
  | died failing quiet _ => exact failing.orderly quiet
  | @failedStops h index rest errors last done e c l f s failing other read freed stops _ =>
    rcases read with rfl | ⟨⟨loss, rfl⟩, quiet⟩
    · rw [List.append_nil, ← List.cons_append]
      apply orderly_append _ ?_ stops.orderly
      intro x mem
      rcases List.mem_cons.mp mem with rfl | mem
      · rfl
      · rcases List.mem_append.mp mem with mem | mem
        · exact failing.silent other x mem
        · exact freed.silent x mem
    · have shape : CleanupEvent.heartbeat (.ok ()) :: (c ++ [.latched loss] ++ f ++ s) =
          (.heartbeat (.ok ()) :: c) ++ .latched loss :: (f ++ s) := by simp
      rw [shape]
      apply orderly_append _ ?_ (orderly_cons ?_)
      · intro x mem
        rcases List.mem_cons.mp mem with rfl | mem
        · rfl
        · exact failing.silent other x mem
      · intro x mem
        rcases List.mem_append.mp mem with mem | mem
        · exact freed.quiet x mem
        · exact quiet x mem
  | @failedGoes h index rest errors errors' last done e c f s failing other freed _ run ih =>
    have shape : CleanupEvent.heartbeat (.ok ()) :: (c ++ f ++ .heartbeat (.ok ()) :: s) =
        (.heartbeat (.ok ()) :: (c ++ f ++ [.heartbeat (.ok ())])) ++ s := by simp
    rw [shape]
    apply orderly_append _ ?_ ih
    intro x mem
    simp only [List.mem_cons, List.mem_append, List.not_mem_nil, or_false] at mem
    rcases mem with rfl | (mem | mem) | rfl
    · rfl
    · exact failing.silent other x mem
    · exact freed.silent x mem
    · rfl

theorem Freed.closes (freed : Freed acquired s) : s.filterMap CleanupEvent.closing? = [] := by
  apply List.filterMap_eq_nil_iff.mpr
  intro x mem
  obtain ⟨index, outcome, rfl⟩ := freed.only x mem
  rfl

theorem Stops.closes (stops : Stops acquired s) : s.filterMap CleanupEvent.closing? = [] := by
  cases stops with
  | latched freed shape => rw [shape, List.filterMap_cons_none rfl, freed.closes]
  | lost _ freed shape => rw [shape, List.filterMap_cons_none rfl, freed.closes]
  | failed _ freed shape => rw [shape, List.filterMap_cons_none rfl, freed.closes]
  | escaped _ shape => rw [shape, List.filterMap_cons_none rfl, List.filterMap_nil]

theorem Failing.closes {h : Holding} {index : ℕ} {done : Bool} {e : Exc} {c : List CleanupEvent}
    (failing : Failing call h index done e c) : c.filterMap CleanupEvent.closing? = [index] := by
  cases failing with
  | close => rfl
  | row d => rfl

theorem closes_quiet {s : List CleanupEvent} (quiet : ∀ x ∈ s, x.durable = false) :
    s.filterMap CleanupEvent.closing? = [] := by
  apply List.filterMap_eq_nil_iff.mpr
  intro x mem
  have light := quiet x mem
  cases x with
  | close => cases light
  | _ => rfl

theorem CleanupRun.closes (run : CleanupRun call acquired errors last s) :
    (s.filterMap CleanupEvent.closing?).Sublist (acquired.map Prod.snd) := by
  induction run with
  | nil errors => exact List.Sublist.slnil
  | stops stops _ =>
    rw [stops.closes]
    exact List.nil_sublist _
  | @closed h index rest errors last d s run ih => exact ih.cons_cons index
  | @lost h index rest errors last done e c f failing _ freed _ =>
    rw [List.filterMap_cons_none rfl, List.filterMap_append, failing.closes, freed.closes]
    exact (List.nil_sublist _).cons_cons index
  | @died h index rest errors done e death c s failing quiet _ =>
    rw [List.filterMap_cons_none rfl, List.filterMap_append, failing.closes, closes_quiet quiet]
    exact (List.nil_sublist _).cons_cons index
  | @failedStops h index rest errors last done e c l f s failing other read freed stops _ =>
    have latch : l.filterMap CleanupEvent.closing? = [] := by
      rcases read with rfl | ⟨⟨loss, rfl⟩, -⟩
      · rfl
      · rfl
    rw [List.filterMap_cons_none rfl, List.filterMap_append, List.filterMap_append, List.filterMap_append,
      failing.closes, latch, freed.closes, stops.closes]
    exact (List.nil_sublist _).cons_cons index
  | @failedGoes h index rest errors errors' last done e c f s failing other freed _ run ih =>
    rw [List.filterMap_cons_none rfl, List.filterMap_append, List.filterMap_append, failing.closes, freed.closes,
      List.filterMap_cons_none rfl]
    exact ih.cons_cons index

theorem CleanupRun.returned (run : CleanupRun call acquired errors last s) (ends : last = .returned) :
    errors = [] ∧ ∀ p ∈ acquired, Recorded s p.1 p.2 := by
  induction run with
  | nil errors =>
    refine ⟨?_, by simp⟩
    by_contra some_error
    exact fail_ne_returned call some_error ends
  | stops _ goes => exact absurd ends goes
  | @closed h index rest errors last d s run ih =>
    obtain ⟨none, recorded⟩ := ih ends
    refine ⟨none, fun p mem => ?_⟩
    rcases List.mem_cons.mp mem with rfl | mem
    · exact ⟨call.disposition, d, by simp, by simp⟩
    · obtain ⟨asked, closure, closed, written⟩ := recorded p mem
      exact ⟨asked, closure, by simp [closed], by simp [written]⟩
  | lost _ _ _ goes => exact absurd ends goes
  | died _ _ _ => cases ends
  | failedStops _ _ _ _ _ goes => exact absurd ends goes
  | failedGoes _ _ _ grown _ ih => exact absurd (ih ends).1 grown

end

/-! ## Custody -/

/-- What `_close_acquired` owes: custody of every acquisition is settled, nothing durable happens after a
loss, nothing is closed twice, and a normal return means that all is closed and recorded. -/
structure Custody (call : CleanupCall) (acquired : List Holding) (r : Outcome CleanupEnd) : Prop where
  settled : (∀ e ∈ r.2, e.Mild) → ∀ p ∈ acquired.zipIdx, SettledIn r.2 p.1 p.2
  orderly : Orderly r.2
  once : (r.2.filterMap CleanupEvent.closing?).Nodup
  returned : r.1 = .returned → call.priorError = none ∧ ∀ p ∈ acquired.zipIdx, Recorded r.2 p.1 p.2

theorem finishCleanup_returned {cancellation : Option Exc} {last : CleanupEnd}
    (returned : finishCleanup cancellation last = .returned) : last = .returned := by
  cases last with
  | returned => rfl
  | ownershipLost loss cause => cases returned
  | failure error nodeError own => cases returned
  | raised e =>
    rw [finishCleanup] at returned
    split_ifs at returned

/-- For every list of acquisitions, every call and however the calls end. -/
theorem cleanup_custody (w : CleanupWorld) (call : CleanupCall) (acquired : List Holding) :
    Custody call acquired (closeAcquired w call acquired) := by
  unfold closeAcquired
  split_ifs with empty
  · subst empty
    refine ⟨by simp, List.Pairwise.nil, List.nodup_nil, fun returned => ⟨?_, by simp⟩⟩
    cases prior : call.priorError with
    | none => rfl
    | some error =>
      rw [prior] at returned
      cases returned
  · have run := @closeAll_run w call acquired.zipIdx call.priorError.toList []
    generalize closeAll w call acquired.zipIdx call.priorError.toList [] = r at run
    have places : (acquired.zipIdx.map Prod.snd).Nodup := by
      rw [List.zipIdx_map_snd]
      exact List.nodup_range'
    refine ⟨run.settled, run.orderly, run.closes.nodup places, fun returned => ?_⟩
    obtain ⟨free, recorded⟩ := run.returned (finishCleanup_returned returned)
    exact ⟨Option.toList_eq_nil_iff.mp free, recorded⟩

def steadyWorld : CleanupWorld where
  lost _ := none
  latches _ _ _ held := by cases held
  heartbeat _ := .ok ()
  close _ _ asked := .ok asked
  transition _ _ _ _ := .ok ()
  relinquish _ _ := .ok ()
  cancellation _ := none

def refusedWorld : CleanupWorld := { steadyWorld with transition := fun _ _ _ _ => .error (.leaf .ownershipLost 7) }

/-- The first close fails and its capability raises a loss when it is relinquished. -/
def stalledWorld : CleanupWorld :=
  { steadyWorld with
    close := fun _ index asked => if index = 0 then .error (.leaf .ordinary 1) else .ok asked
    relinquish := fun _ _ => .error (.leaf .ownershipLost 2) }

def cancelledWorld : CleanupWorld := { steadyWorld with heartbeat := fun _ => .error (.leaf .cancelled 3) }

/-- A row write refused for a loss leaves the acquisition closed, its row active and nothing relinquished;
a loss raised by `relinquish` does not stop the closes; and a cancellation out of the heartbeat would strand
what is left. -/
theorem closed_without_row :
    ¬ ((∀ (w : CleanupWorld) (acquired : List Holding), (∀ e ∈ (closeAcquired w ⟨.release, none, none, none⟩ acquired).2,
          e.Mild) → ∀ p ∈ acquired.zipIdx, Recorded (closeAcquired w ⟨.release, none, none, none⟩ acquired).2 p.1 p.2 ∨
        (p.1.relinquishing = true → HandedOver (closeAcquired w ⟨.release, none, none, none⟩ acquired).2 p.2))) ∧
      (closeAcquired stalledWorld ⟨.release, none, none, none⟩ [⟨"a", true⟩, ⟨"b", true⟩]).2 =
        [.heartbeat (.ok ()), .close 0 .release (.error (.leaf .ordinary 1)),
          .relinquish 0 (.error (.leaf .ownershipLost 2)), .heartbeat (.ok ()), .heartbeat (.ok ()),
          .close 1 .release (.ok .release), .transition 1 "b" .release (.ok ())] ∧
      (closeAcquired cancelledWorld ⟨.release, none, none, none⟩ [⟨"a", true⟩]).2 =
        [.heartbeat (.error (.leaf .cancelled 3))] := by
  refine ⟨fun claimed => ?_, rfl, rfl⟩
  have calls : (closeAcquired refusedWorld ⟨.release, none, none, none⟩ [⟨"a", true⟩]).2 =
      [.heartbeat (.ok ()), .close 0 .release (.ok .release),
        .transition 0 "a" .release (.error (.leaf .ownershipLost 7))] := rfl
  have settled := claimed refusedWorld [⟨"a", true⟩]
  rw [calls] at settled
  have mild : ∀ e ∈ [CleanupEvent.heartbeat (.ok ()), .close 0 .release (.ok .release),
      .transition 0 "a" .release (.error (.leaf .ownershipLost 7))], e.Mild := by
    simp [CleanupEvent.Mild, Exc.isHardDeath, Exc.leaves]
  rcases settled mild (⟨"a", true⟩, 0) (by simp) with ⟨asked, d, closed, written⟩ | handed
  · simp at written
  · obtain ⟨outcome, mem⟩ := handed rfl
    simp at mem

end Constructicon.Cleanup
