import Mathlib.Tactic

/-!
# Programs that change one state under a lock

A program asks for one atomic operation at a time and goes on with the answer, which may
be a failure. The programs of several tasks interleave over one state. A task that takes
the lock keeps it until it is closed, also when it has crashed; a restart ends every task.
What a program may do is a law on single operations: under the lock the program has to
obey it from the state it is in (`Held`), outside it has to leave the state alone
(`Waits`). Then every step of every interleaving obeys the law of the task that made it
(`custody_run`, `step_lawful`).
-/

namespace Locked

/-- A program over the operations `ι`, which answers `Except ε α`. -/
inductive Program {ι : Type} (ρ : ι → Type) (ε α : Type) where
  | done (r : Except ε α)
  | ask (i : ι) (k : Except ε (ρ i) → Program ρ ε α)
  | lock (k : Bool → Program ρ ε α)

variable {ι : Type} {ρ : ι → Type} {ε α β : Type}

namespace Program

/-- Go on with `f`, whether `p` answers or raises. -/
def after (p : Program ρ ε α) (f : Except ε α → Program ρ ε β) : Program ρ ε β :=
  match p with
  | .done r => f r
  | .ask i k => .ask i (fun r => (k r).after f)
  | .lock k => .lock (fun got => (k got).after f)

/-- Go on with `f` unless there was a failure. -/
def follow (f : α → Program ρ ε β) : Except ε α → Program ρ ε β
  | .ok a => f a
  | .error e => .done (.error e)

instance : Monad (Program ρ ε) where
  pure a := .done (.ok a)
  bind p f := p.after (follow f)

def lift (x : Except ε α) : Program ρ ε α := .done x

def raise (e : ε) : Program ρ ε α := .done (.error e)

def request (i : ι) : Program ρ ε (ρ i) := .ask i .done

/-- The answer of `p` once `cleanup` has run, which may raise instead. -/
def finish (cleanup : Program ρ ε Unit) (r : Except ε α) : Program ρ ε α :=
  cleanup.after (follow (fun _ => .done r))

/-- `try p finally cleanup` -/
def finallyDo (p : Program ρ ε α) (cleanup : Program ρ ε Unit) : Program ρ ε α :=
  p.after (finish cleanup)

def handle (f : ε → Program ρ ε α) : Except ε α → Program ρ ε α
  | .ok a => .done (.ok a)
  | .error e => f e

/-- `try p except` -/
def rescue (p : Program ρ ε α) (f : ε → Program ρ ε α) : Program ρ ε α := p.after (handle f)

/-- Try for the lock up to `waits + 1` times; `e` when it stays held. -/
def take (e : ε) : ℕ → Program ρ ε Unit
  | 0 => .lock (fun got => if got then .done (.ok ()) else .done (.error e))
  | waits + 1 => .lock (fun got => if got then .done (.ok ()) else take e waits)

@[simp] theorem pure_eq (a : α) : (pure a : Program ρ ε α) = .done (.ok a) := rfl

@[simp] theorem bind_eq (p : Program ρ ε α) (f : α → Program ρ ε β) : p >>= f = p.after (follow f) := rfl

@[simp] theorem follow_ok (f : α → Program ρ ε β) (a : α) : follow f (.ok a) = f a := rfl

@[simp] theorem follow_error (f : α → Program ρ ε β) (e : ε) : follow f (.error e) = .done (.error e) := rfl

@[simp] theorem handle_ok (f : ε → Program ρ ε α) (a : α) : handle f (.ok a) = .done (.ok a) := rfl

@[simp] theorem handle_error (f : ε → Program ρ ε α) (e : ε) : handle f (.error e) = f e := rfl

@[simp] theorem after_done (r : Except ε α) (f : Except ε α → Program ρ ε β) : (done r).after f = f r := rfl

end Program

open Program

/-! ## What a program may ask for -/

section Laws

variable {σ χ : Type} (perform : (i : ι) → σ → χ → σ × Except ε (ρ i))
  (law : (i : ι) → σ → Except ε (ρ i) → σ → Prop)

/-- Under the lock and from the state `s`, the program obeys the law at every operation
and ends in `post`, however the operations are answered. -/
def Held (post : Except ε α → σ → Prop) : Program ρ ε α → σ → Prop
  | .done r, s => post r s
  | .ask i k, s => ∀ c, law i s (perform i s c).2 (perform i s c).1 ∧
      Held post (k (perform i s c).2) (perform i s c).1
  | .lock k, s => Held post (k false) s

variable {perform law}

theorem Held.mono {post post' : Except ε α → σ → Prop} {p : Program ρ ε α} {s : σ}
    (weaker : ∀ r s, post r s → post' r s) (held : Held perform law post p s) :
    Held perform law post' p s := by
  induction p generalizing s with
  | done r => exact weaker r s held
  | ask i k ih =>
    intro c
    exact ⟨(held c).1, ih _ (held c).2⟩
  | lock k ih => exact ih false held

theorem held_after {post : Except ε β → σ → Prop} {p : Program ρ ε α}
    {f : Except ε α → Program ρ ε β} {s : σ} :
    Held perform law post (p.after f) s ↔
      Held perform law (fun r t => Held perform law post (f r) t) p s := by
  induction p generalizing s with
  | done r => rfl
  | ask i k ih => exact forall_congr' (fun c => and_congr_right (fun _ => ih _))
  | lock k ih => exact ih false

theorem Held.then {Q : Except ε α → σ → Prop} {post : Except ε β → σ → Prop} {p : Program ρ ε α}
    {f : Except ε α → Program ρ ε β} {s : σ} (held : Held perform law Q p s)
    (rest : ∀ r t, Q r t → Held perform law post (f r) t) : Held perform law post (p.after f) s :=
  held_after.mpr (held.mono rest)

/-- The program only asks for operations of the kind `quiet`. -/
def Reads (quiet : ι → Prop) : Program ρ ε α → Prop
  | .done _ => True
  | .ask i k => quiet i ∧ ∀ r, Reads quiet (k r)
  | .lock _ => False

theorem Reads.after {quiet : ι → Prop} {p : Program ρ ε α} {f : Except ε α → Program ρ ε β}
    (reads : Reads quiet p) (rest : ∀ r, Reads quiet (f r)) : Reads quiet (p.after f) := by
  induction p with
  | done r => exact rest r
  | ask i k ih => exact ⟨reads.1, fun r => ih r (reads.2 r)⟩
  | lock k ih => exact reads.elim

theorem Reads.follow {quiet : ι → Prop} {f : α → Program ρ ε β} (rest : ∀ a, Reads quiet (f a)) :
    ∀ r, Reads quiet (follow f r)
  | .ok a => rest a
  | .error _ => trivial

theorem Reads.held {quiet : ι → Prop} (still : ∀ i, quiet i → ∀ s c, (perform i s c).1 = s)
    (free : ∀ i, quiet i → ∀ s r, law i s r s) {post : Except ε α → σ → Prop} {p : Program ρ ε α} {s : σ}
    (reads : Reads quiet p) (ends : ∀ r, post r s) : Held perform law post p s := by
  induction p with
  | done r => exact ends r
  | ask i k ih =>
    intro c
    rw [still i reads.1 s c]
    exact ⟨free i reads.1 s _, ih _ (reads.2 _)⟩
  | lock k ih => exact reads.elim

variable (perform law)

/-- Outside the lock the program only reads, and it obeys the law from every state in
which it may find itself holding the lock. -/
def Waits (quiet : ι → Prop) (sound : σ → Prop) : Program ρ ε α → Prop
  | .done _ => True
  | .ask i k => quiet i ∧ ∀ r, Waits quiet sound (k r)
  | .lock k => Waits quiet sound (k false) ∧
      ∀ s, sound s → Held perform law (fun _ _ => True) (k true) s

variable {perform law}

theorem Waits.after {quiet : ι → Prop} {sound : σ → Prop} {p : Program ρ ε α}
    {f : Except ε α → Program ρ ε β} (reads : Reads quiet p)
    (rest : ∀ r, Waits perform law quiet sound (f r)) : Waits perform law quiet sound (p.after f) := by
  induction p with
  | done r => exact rest r
  | ask i k ih => exact ⟨reads.1, fun r => ih r (reads.2 r)⟩
  | lock k ih => exact reads.elim

theorem Waits.take {quiet : ι → Prop} {sound : σ → Prop} {e : ε} {f : Except ε Unit → Program ρ ε β}
    (refused : Waits perform law quiet sound (f (.error e)))
    (taken : ∀ s, sound s → Held perform law (fun _ _ => True) (f (.ok ())) s) (waits : ℕ) :
    Waits perform law quiet sound ((take e waits).after f) := by
  induction waits with
  | zero => exact ⟨refused, taken⟩
  | succ waits ih => exact ⟨ih, taken⟩

end Laws

/-! ## Interleavings -/

structure Task {ι : Type} (κ : Type) (ρ : ι → Type) (ε α : Type) where
  call : κ
  program : Program ρ ε α
  alive : Bool

/-- The state, the task that holds the lock, and every task so far. -/
structure Site {ι : Type} (σ κ : Type) (ρ : ι → Type) (ε α : Type) where
  state : σ
  holder : Option ℕ
  tasks : List (Task κ ρ ε α)

inductive Action (κ χ η : Type) where
  | start (call : κ)
  /-- Task `p` performs its next operation, which is answered by the choice `c`. -/
  | step (p : ℕ) (c : χ)
  | crash (p : ℕ)
  /-- The last descriptor of the ended task `p` is closed. -/
  | close (p : ℕ)
  /-- The machine restarts. -/
  | restart (e : η)

def Program.answered : Program ρ ε α → Bool
  | .done _ => true
  | .ask _ _ => false
  | .lock _ => false

def Task.ended {κ : Type} (task : Task κ ρ ε α) : Bool := !task.alive || task.program.answered

def Task.crashed {κ : Type} (task : Task κ ρ ε α) : Task κ ρ ε α := { task with alive := false }

section Interleavings

variable {σ κ χ η : Type} (perform : (i : ι) → σ → χ → σ × Except ε (ρ i))
  (program : κ → Program ρ ε α) (restart : η → σ → σ)

def advance (site : Site σ κ ρ ε α) (p : ℕ) (c : χ) (task : Task κ ρ ε α) : Site σ κ ρ ε α :=
  match task.program with
  | .done _ => site
  | .ask i k =>
    { site with
      state := (perform i site.state c).1
      tasks := site.tasks.set p { task with program := k (perform i site.state c).2 } }
  | .lock k =>
    if site.holder = none then
      { site with holder := some p, tasks := site.tasks.set p { task with program := k true } }
    else { site with tasks := site.tasks.set p { task with program := k false } }

def step (site : Site σ κ ρ ε α) : Action κ χ η → Site σ κ ρ ε α
  | .start call => { site with tasks := site.tasks ++ [⟨call, program call, true⟩] }
  | .step p c =>
    match site.tasks[p]? with
    | none => site
    | some task => if task.alive then advance perform site p c task else site
  | .crash p => { site with tasks := site.tasks.modify p Task.crashed }
  | .close p =>
    if site.holder = some p ∧ (site.tasks[p]?).all Task.ended then { site with holder := none } else site
  | .restart e =>
    { state := restart e site.state, holder := none,
      tasks := site.tasks.map Task.crashed }

def start (s : σ) : Site σ κ ρ ε α := { state := s, holder := none, tasks := [] }

def run (s : σ) (acts : List (Action κ χ η)) : Site σ κ ρ ε α :=
  acts.foldl (step perform program restart) (start s)

theorem run_append (s : σ) (acts more : List (Action κ χ η)) :
    run perform program restart s (acts ++ more) =
      more.foldl (step perform program restart) (run perform program restart s acts) :=
  List.foldl_append

theorem run_snoc (s : σ) (acts : List (Action κ χ η)) (a : Action κ χ η) :
    run perform program restart s (acts ++ [a]) =
      step perform program restart (run perform program restart s acts) a := by
  rw [run_append]
  rfl

/-- What the lock guarantees: the state is sound, and every live task obeys its law, the
holder from the state as it is and the others from any sound state. -/
structure Custody (law : κ → (i : ι) → σ → Except ε (ρ i) → σ → Prop) (quiet : ι → Prop)
    (sound : σ → Prop) (site : Site σ κ ρ ε α) : Prop where
  state : sound site.state
  held : ∀ p task, site.tasks[p]? = some task → task.alive = true → site.holder = some p →
    Held perform (law task.call) (fun _ _ => True) task.program site.state
  waits : ∀ p task, site.tasks[p]? = some task → task.alive = true → site.holder ≠ some p →
    Waits perform (law task.call) quiet sound task.program
  holder : ∀ p, site.holder = some p → p < site.tasks.length

/-- What a program may do is a matter of its law, and the law keeps states sound. -/
structure Lawful (law : κ → (i : ι) → σ → Except ε (ρ i) → σ → Prop) (quiet : ι → Prop)
    (sound : σ → Prop) : Prop where
  still : ∀ i, quiet i → ∀ s c, (perform i s c).1 = s
  free : ∀ call i, quiet i → ∀ s r, law call i s r s
  kept : ∀ call i s r t, sound s → law call i s r t → sound t
  restarts : ∀ e s, sound s → sound (restart e s)
  starts : ∀ call, Waits perform (law call) quiet sound (program call)

variable {perform program restart}
variable {law : κ → (i : ι) → σ → Except ε (ρ i) → σ → Prop} {quiet : ι → Prop} {sound : σ → Prop}

/-- One task performs an operation that is answered by `c`. -/
structure Performs (perform : (i : ι) → σ → χ → σ × Except ε (ρ i)) (site : Site σ κ ρ ε α)
    (a : Action κ χ η) (p : ℕ) (c : χ) (task : Task κ ρ ε α) (i : ι)
    (k : Except ε (ρ i) → Program ρ ε α) : Prop where
  action : a = .step p c
  found : site.tasks[p]? = some task
  alive : task.alive = true
  program : task.program = .ask i k

variable (perform program restart) in
theorem step_cases (site : Site σ κ ρ ε α) (a : Action κ χ η) :
    (step perform program restart site a).state = site.state ∨
    (∃ e, a = .restart e ∧ (step perform program restart site a).state = restart e site.state) ∨
    ∃ p c task i k, Performs perform site a p c task i k ∧
      (step perform program restart site a).state = (perform i site.state c).1 := by
  cases a with
  | start call => exact .inl rfl
  | crash p => exact .inl rfl
  | restart e => exact .inr (.inl ⟨e, rfl, rfl⟩)
  | close p =>
    left
    rw [step]
    split <;> rfl
  | step p c =>
    rw [step.eq_2]
    cases found : site.tasks[p]? with
    | none => exact .inl rfl
    | some task =>
      by_cases alive : task.alive = true
      · simp only [if_pos alive]
        cases asked : task.program with
        | done r =>
          left
          rw [advance, asked]
        | lock k =>
          left
          rw [advance, asked]
          dsimp only
          split <;> rfl
        | ask i k =>
          refine .inr (.inr ⟨p, c, task, i, k, ⟨rfl, found, alive, asked⟩, ?_⟩)
          rw [advance, asked]
      · left
        simp only [if_neg alive]

theorem Performs.obeys (lawful : Lawful perform program restart law quiet sound)
    {site : Site σ κ ρ ε α} (custody : Custody perform law quiet sound site) {a : Action κ χ η} {p : ℕ}
    {c : χ} {task : Task κ ρ ε α} {i : ι} {k : Except ε (ρ i) → Program ρ ε α}
    (performs : Performs perform site a p c task i k) :
    law task.call i site.state (perform i site.state c).2 (perform i site.state c).1 := by
  by_cases holds : site.holder = some p
  · have held := custody.held p task performs.found performs.alive holds
    rw [performs.program] at held
    exact (held c).1
  · have waits := custody.waits p task performs.found performs.alive holds
    rw [performs.program] at waits
    rw [lawful.still i waits.1]
    exact lawful.free _ i waits.1 _ _

/-- One running task goes on with `next`, which is held or waits as the lock has it. -/
theorem Custody.goesOn {site site' : Site σ κ ρ ε α} (custody : Custody perform law quiet sound site)
    {p : ℕ} {task : Task κ ρ ε α} {next : Program ρ ε α} (found : site.tasks[p]? = some task)
    (tasks : site'.tasks = site.tasks.set p { task with program := next }) (kept : sound site'.state)
    (holder : ∀ q, site'.holder = some q → site.holder = some q ∨ q = p)
    (others : ∀ q, q ≠ p → site.holder = some q → site'.state = site.state ∧ site'.holder = some q)
    (held : site'.holder = some p → Held perform (law task.call) (fun _ _ => True) next site'.state)
    (waits : site'.holder ≠ some p → Waits perform (law task.call) quiet sound next) :
    Custody perform law quiet sound site' := by
  have inside : p < site.tasks.length := (List.getElem?_eq_some_iff.mp found).1
  have same : ∀ q, q ≠ p → site'.tasks[q]? = site.tasks[q]? := by
    intro q other
    rw [tasks, List.getElem?_set_ne (Ne.symm other)]
  have own : site'.tasks[p]? = some { task with program := next } := by
    rw [tasks, List.getElem?_set_self inside]
  refine ⟨kept, ?_, ?_, ?_⟩
  · intro q other at' alive holds
    by_cases mine : q = p
    · subst mine
      rw [own] at at'
      cases at'
      exact held holds
    · rw [same q mine] at at'
      have before : site.holder = some q := (holder q holds).resolve_right mine
      rw [(others q mine before).1]
      exact custody.held q other at' alive before
  · intro q other at' alive holds
    by_cases mine : q = p
    · subst mine
      rw [own] at at'
      cases at'
      exact waits holds
    · rw [same q mine] at at'
      exact custody.waits q other at' alive (fun before => holds (others q mine before).2)
  · intro q holds
    rw [tasks, List.length_set]
    rcases holder q holds with before | rfl
    · exact custody.holder q before
    · exact inside

theorem custody_advance (lawful : Lawful perform program restart law quiet sound)
    {site : Site σ κ ρ ε α} (custody : Custody perform law quiet sound site) {p : ℕ} {c : χ}
    {task : Task κ ρ ε α} (found : site.tasks[p]? = some task) (alive : task.alive = true) :
    Custody perform law quiet sound (advance perform site p c task) := by
  have held := custody.held p task found alive
  have waits := custody.waits p task found alive
  rw [advance]
  cases asked : task.program with
  | done r => exact custody
  | ask i k =>
    rw [asked] at held waits
    by_cases holds : site.holder = some p
    · refine custody.goesOn found rfl (lawful.kept _ i _ _ _ custody.state (held holds c).1)
        (fun _ => .inl) ?_ (fun _ => (held holds c).2) (fun loose => absurd holds loose)
      intro q other before
      rw [holds, Option.some.injEq] at before
      exact absurd before.symm other
    · have quietly : (perform i site.state c).1 = site.state := lawful.still i (waits holds).1 _ c
      refine custody.goesOn found rfl ?_ (fun _ => .inl) (fun _ _ before => ⟨quietly, before⟩)
        (fun taken => absurd taken holds) (fun _ => (waits holds).2 _)
      dsimp only
      rw [quietly]
      exact custody.state
  | lock k =>
    rw [asked] at held waits
    by_cases free : site.holder = none
    · simp only [if_pos free]
      have unheld : site.holder ≠ some p := by simp [free]
      refine custody.goesOn found rfl custody.state ?_ ?_ (fun _ => (waits unheld).2 _ custody.state)
        (fun loose => absurd rfl loose)
      · intro q holds
        exact .inr (Option.some.inj holds).symm
      · intro q _ before
        rw [free] at before
        cases before
    · simp only [if_neg free]
      exact custody.goesOn found rfl custody.state (fun _ => .inl) (fun _ _ before => ⟨rfl, before⟩) held
        (fun loose => (waits loose).1)

theorem Task.ended_alive {task : Task κ ρ ε α} (ended : task.ended = true) (alive : task.alive = true) :
    ∃ r, task.program = .done r := by
  rw [Task.ended, alive] at ended
  cases program : task.program with
  | done r => exact ⟨r, rfl⟩
  | ask i k =>
    rw [program] at ended
    cases ended
  | lock k =>
    rw [program] at ended
    cases ended

theorem custody_step (lawful : Lawful perform program restart law quiet sound)
    {site : Site σ κ ρ ε α} (custody : Custody perform law quiet sound site) (a : Action κ χ η) :
    Custody perform law quiet sound (step perform program restart site a) := by
  cases a with
  | start call =>
    have cases_of : ∀ (q : ℕ) (task : Task κ ρ ε α), (site.tasks ++ [⟨call, program call, true⟩])[q]? = some task →
        site.tasks[q]? = some task ∨ q = site.tasks.length ∧ task = ⟨call, program call, true⟩ := by
      intro q task at'
      rw [List.getElem?_append] at at'
      split at at'
      · exact .inl at'
      · rw [List.getElem?_singleton] at at'
        split at at'
        · exact .inr ⟨by omega, (Option.some.inj at').symm⟩
        · cases at'
    refine ⟨custody.state, ?_, ?_, ?_⟩
    · intro q task at' alive holds
      rcases cases_of q task at' with before | ⟨rfl, -⟩
      · exact custody.held q task before alive holds
      · exact absurd (custody.holder _ holds) (lt_irrefl _)
    · intro q task at' alive holds
      rcases cases_of q task at' with before | ⟨-, rfl⟩
      · exact custody.waits q task before alive holds
      · exact lawful.starts call
    · intro q holds
      have before := custody.holder q holds
      simp only [step, List.length_append]
      omega
  | step p c =>
    rw [step.eq_2]
    cases found : site.tasks[p]? with
    | none => exact custody
    | some task =>
      by_cases alive : task.alive = true
      · simp only [if_pos alive]
        exact custody_advance lawful custody found alive
      · simp only [if_neg alive]
        exact custody
  | crash p =>
    have before_of : ∀ (q : ℕ) (task : Task κ ρ ε α), (site.tasks.modify p Task.crashed)[q]? = some task →
        task.alive = true → site.tasks[q]? = some task := by
      intro q task at' alive
      rw [List.getElem?_modify] at at'
      split at at'
      · obtain ⟨before, -, rfl⟩ := Option.map_eq_some_iff.mp at'
        cases alive
      · simpa using at'
    refine ⟨custody.state, ?_, ?_, ?_⟩
    · intro q task at' alive holds
      exact custody.held q task (before_of q task at' alive) alive holds
    · intro q task at' alive holds
      exact custody.waits q task (before_of q task at' alive) alive holds
    · intro q holds
      rw [step, List.length_modify]
      exact custody.holder q holds
  | close p =>
    rw [step]
    split
    · rename_i closed
      refine ⟨custody.state, ?_, ?_, ?_⟩
      · intro q task _ _ holds
        cases holds
      · intro q task at' alive _
        by_cases mine : q = p
        · subst mine
          have ended := closed.2
          dsimp only at at'
          rw [at', Option.all_some] at ended
          obtain ⟨r, answered⟩ := Task.ended_alive ended alive
          rw [answered]
          trivial
        · refine custody.waits q task at' alive ?_
          rw [closed.1, ne_eq, Option.some.injEq]
          exact fun same => mine same.symm
      · intro q holds
        cases holds
    · exact custody
  | restart e =>
    have dead : ∀ (q : ℕ) (task : Task κ ρ ε α), (site.tasks.map Task.crashed)[q]? = some task →
        task.alive = false := by
      intro q task at'
      rw [List.getElem?_map] at at'
      obtain ⟨before, -, rfl⟩ := Option.map_eq_some_iff.mp at'
      rfl
    refine ⟨lawful.restarts e _ custody.state, ?_, ?_, ?_⟩
    · intro q task at' alive _
      rw [dead q task at'] at alive
      cases alive
    · intro q task at' alive _
      rw [dead q task at'] at alive
      cases alive
    · intro q holds
      cases holds

theorem custody_start {s : σ} (initial : sound s) :
    Custody perform law quiet sound (start s : Site σ κ ρ ε α) where
  state := initial
  held p task found := by simp [start] at found
  waits p task found := by simp [start] at found
  holder p holds := by cases holds

theorem custody_run (lawful : Lawful perform program restart law quiet sound) {s : σ} (initial : sound s)
    (acts : List (Action κ χ η)) : Custody perform law quiet sound (run perform program restart s acts) := by
  induction acts using List.reverseRecOn with
  | nil => exact custody_start initial
  | append_singleton acts a ih =>
    rw [run_snoc]
    exact custody_step lawful ih a

end Interleavings

/-! ## What an answer has been through -/

/-- The program cannot answer without an operation that `mark` holds of. -/
def Passes (mark : (i : ι) → Except ε (ρ i) → Prop) : Program ρ ε α → Prop
  | .done (.ok _) => False
  | .done (.error _) => True
  | .ask i k => ∀ r, mark i r ∨ Passes mark (k r)
  | .lock k => ∀ got, Passes mark (k got)

section Marks

variable {mark : (i : ι) → Except ε (ρ i) → Prop}

theorem Passes.after {p : Program ρ ε α} {f : Except ε α → Program ρ ε β}
    (rest : ∀ r, Passes mark (f r)) : Passes mark (p.after f) := by
  induction p with
  | done r => exact rest r
  | ask i k ih => exact fun r => .inr (ih r)
  | lock k ih => exact fun got => ih got

theorem Passes.follow {f : α → Program ρ ε β} (rest : ∀ a, Passes mark (f a)) :
    ∀ r, Passes mark (follow f r)
  | .ok a => rest a
  | .error _ => trivial

theorem Passes.first {p : Program ρ ε α} {f : Except ε α → Program ρ ε β} (passes : Passes mark p)
    (failed : ∀ e, Passes mark (f (.error e))) : Passes mark (p.after f) := by
  induction p with
  | done r =>
    cases r with
    | ok a => exact passes.elim
    | error e => exact failed e
  | ask i k ih =>
    intro r
    rcases passes r with now | later
    · exact .inl now
    · exact .inr (ih r later)
  | lock k ih => exact fun got => ih got (passes got)

variable {σ κ χ η : Type} {perform : (i : ι) → σ → χ → σ × Except ε (ρ i)}
  {program : κ → Program ρ ε α} {restart : η → σ → σ}

variable (perform program restart) in
/-- Task `p` of `call` performed a marked operation with the last of the actions `acts`. -/
def Marked (mark : (i : ι) → Except ε (ρ i) → Prop) (s : σ) (call : κ) (p : ℕ)
    (acts : List (Action κ χ η)) (a : Action κ χ η) : Prop :=
  ∃ c task i k, Performs perform (run perform program restart s acts) a p c task i k ∧ task.call = call ∧
    mark i (perform i (run perform program restart s acts).state c).2

theorem task_cases {site : Site σ κ ρ ε α} {a : Action κ χ η} {p : ℕ} {task : Task κ ρ ε α}
    (found : (step perform program restart site a).tasks[p]? = some task) :
    (∃ before, site.tasks[p]? = some before ∧ before.call = task.call ∧ before.program = task.program) ∨
    task.program = program task.call ∨
    (∃ c before i k, Performs perform site a p c before i k ∧ before.call = task.call ∧
      task.program = k (perform i site.state c).2) ∨
    ∃ before k got, site.tasks[p]? = some before ∧ before.call = task.call ∧ before.program = .lock k ∧
      task.program = k got := by
  cases a with
  | start call =>
    simp only [step, List.getElem?_append] at found
    split at found
    · exact .inl ⟨task, found, rfl, rfl⟩
    · rw [List.getElem?_singleton] at found
      split at found
      · cases found
        exact .inr (.inl rfl)
      · cases found
  | crash q =>
    simp only [step, List.getElem?_modify] at found
    split at found
    · obtain ⟨before, at', rfl⟩ := Option.map_eq_some_iff.mp found
      exact .inl ⟨before, at', rfl, rfl⟩
    · left
      exact ⟨task, by simpa using found, rfl, rfl⟩
  | close q =>
    rw [step] at found
    split at found
    · exact .inl ⟨task, found, rfl, rfl⟩
    · exact .inl ⟨task, found, rfl, rfl⟩
  | restart e =>
    simp only [step, List.getElem?_map] at found
    obtain ⟨before, at', rfl⟩ := Option.map_eq_some_iff.mp found
    exact .inl ⟨before, at', rfl, rfl⟩
  | step q c =>
    rw [step.eq_2] at found
    cases running : site.tasks[q]? with
    | none =>
      rw [running] at found
      exact .inl ⟨task, found, rfl, rfl⟩
    | some before =>
      rw [running] at found
      have inside : q < site.tasks.length := (List.getElem?_eq_some_iff.mp running).1
      by_cases alive : before.alive = true
      · simp only [if_pos alive] at found
        cases asked : before.program with
        | done r =>
          rw [advance, asked] at found
          exact .inl ⟨task, found, rfl, rfl⟩
        | ask i k =>
          rw [advance, asked] at found
          by_cases mine : q = p
          · subst mine
            rw [List.getElem?_set_self inside] at found
            cases found
            exact .inr (.inr (.inl ⟨c, before, i, k, ⟨rfl, running, alive, asked⟩, rfl, rfl⟩))
          · rw [List.getElem?_set_ne mine] at found
            exact .inl ⟨task, found, rfl, rfl⟩
        | lock k =>
          rw [advance, asked] at found
          by_cases mine : q = p
          · subst mine
            right; right; right
            by_cases free : site.holder = none
            · simp only [if_pos free, List.getElem?_set_self inside] at found
              cases found
              exact ⟨before, k, true, running, rfl, asked, rfl⟩
            · simp only [if_neg free, List.getElem?_set_self inside] at found
              cases found
              exact ⟨before, k, false, running, rfl, asked, rfl⟩
          · left
            by_cases free : site.holder = none
            · simp only [if_pos free, List.getElem?_set_ne mine] at found
              exact ⟨task, found, rfl, rfl⟩
            · simp only [if_neg free, List.getElem?_set_ne mine] at found
              exact ⟨task, found, rfl, rfl⟩
      · simp only [if_neg alive] at found
        exact .inl ⟨task, found, rfl, rfl⟩

theorem marked_of_answer (mark : κ → (i : ι) → Except ε (ρ i) → Prop) {s : σ} {marks : κ → Prop}
    (passes : ∀ call, marks call → Passes (mark call) (program call)) (acts : List (Action κ χ η)) {p : ℕ}
    {task : Task κ ρ ε α} (found : (run perform program restart s acts).tasks[p]? = some task)
    (marked : marks task.call) :
    Passes (mark task.call) task.program ∨
      ∃ xs a ys, acts = xs ++ a :: ys ∧
        Marked perform program restart (mark task.call) s task.call p xs a := by
  induction acts using List.reverseRecOn generalizing task with
  | nil => simp [run, start] at found
  | append_singleton acts a ih =>
    have earlier : ∀ before, (run perform program restart s acts).tasks[p]? = some before →
        before.call = task.call → Passes (mark task.call) before.program ∨
          ∃ xs b ys, acts ++ [a] = xs ++ b :: ys ∧
            Marked perform program restart (mark task.call) s task.call p xs b := by
      intro before at' same
      rcases ih at' (by rwa [same]) with still | ⟨xs, b, ys, rfl, at''⟩
      · exact .inl (same ▸ still)
      · exact .inr ⟨xs, b, ys ++ [a], by simp, same ▸ at''⟩
    rw [run_snoc] at found
    rcases task_cases found with ⟨before, at', same, left⟩ | new | ⟨c, before, i, k, performs, same, left⟩ |
      ⟨before, k, got, at', same, asked, left⟩
    · rw [← left]
      exact earlier before at' same
    · rw [new]
      exact .inl (passes _ marked)
    · rcases earlier before performs.found same with still | done
      · rw [performs.program] at still
        rcases still (perform i _ c).2 with now | later
        · exact .inr ⟨acts, a, [], rfl, c, before, i, k, performs, same, now⟩
        · rw [left]
          exact .inl later
      · exact .inr done
    · rcases earlier before at' same with still | done
      · rw [asked] at still
        rw [left]
        exact .inl (still got)
      · exact .inr done

end Marks

end Locked
