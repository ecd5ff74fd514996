import Constructicon.JournalChange
import Constructicon.WalkerRun
import Constructicon.WalkerValues

/-!
# What a run remembers

The memory of a run is its recorded completions. Of all the walker does only
`record_completion` changes it, and only where there was no completion before; each
function of an attempt has one triple that says so, over everything of the attempt but
the rest of the journal and the number of the step.
-/

namespace Constructicon

open Transaction

/-- The recorded completion of every invocation of a run. -/
abbrev Memory := ExecutionPath → Option Checkpoint

def Journal.memory (run : RunId) (s : Journal) : Memory := fun path =>
  s.checkpoints.find? (fun k => k.runId = run ∧ k.path = path)

def Memory.record (M : Memory) (path : ExecutionPath) (k : Checkpoint) : Memory := Function.update M path (some k)

@[simp] theorem Memory.record_self (M : Memory) (path : ExecutionPath) (k : Checkpoint) :
    M.record path k path = some k := by
  simp [Memory.record]

theorem Memory.record_ne (M : Memory) {path other : ExecutionPath} (k : Checkpoint) (h : other ≠ path) :
    M.record path k other = M other := by
  simp [Memory.record, h]

/-! ## The journal's own calls -/

section Calls

variable {w : Wire} {b : Beside} {now : Instant} {s s' : Journal} {lease : RunLease} {run : RunId}

theorem memory_of_checkpoints (same : s'.checkpoints = s.checkpoints) : s'.memory run = s.memory run := by
  unfold Journal.memory
  rw [same]

theorem memory_of_appendEvent {kind : String} {path : Option ExecutionPath} {payload : Option Json} {u : Unit}
    (done : appendEvent w b now s lease kind path payload = .ok (u, s')) : s'.memory run = s.memory run := by
  cases (appendEvent_change done).1 with
  | none => rfl
  | append _ _ _ _ row s' found running held inserted => exact memory_of_checkpoints inserted.checkpoints

theorem memory_of_transitionRun {expected : List RunStatus} {target : RunStatus} {kind : String}
    {payload : Option Json} {u : Unit} (done : transitionRun w b now s lease expected target kind payload = .ok (u, s')) :
    s'.memory run = s.memory run := by
  cases (transitionRun_change done).1 with
  | none => rfl
  | transition _ _ _ _ _ row s' found status held idle inserted => exact memory_of_checkpoints inserted.checkpoints

theorem memory_of_storedCheckpointFor {path : ExecutionPath} {found : Option Checkpoint}
    (read : storedCheckpointFor w b s run path = .ok found) : s.memory run path = found := by
  have head : s.memory run path = (s.checkpoints.filter (fun k => k.runId = run ∧ k.path = path)).head? := by
    rw [Journal.memory, List.head?_filter]
  rw [head]
  simp only [storedCheckpointFor, bind_eq_ok] at read
  obtain ⟨sealed, -, read⟩ := read
  split at read
  · next none _ =>
    rw [none]
    simp only [bind_eq_ok] at read
    obtain ⟨-, -, same⟩ := read
    cases same
    rfl
  · next k e one _ =>
    rw [one]
    simp only [bind_eq_ok] at read
    obtain ⟨-, -, -, -, same⟩ := read
    cases same
    rfl
  · cases read

theorem memory_of_recordCompletion {k : Checkpoint} {u : Unit} (mine : k.runId = run)
    (done : recordCompletion w b now s lease k = .ok (u, s')) (absent : s.memory run k.path = none) :
    s'.memory run = (s.memory run).record k.path k := by
  simp only [recordCompletion, bind_eq_ok, mine] at done
  obtain ⟨-, -, found, read, done⟩ := done
  obtain rfl : none = found := absent.symm.trans (memory_of_storedCheckpointFor read)
  simp only [bind_eq_ok] at done
  obtain ⟨row, -, seals, -, s₁, inserted, same⟩ := done
  cases same
  funext path
  rw [Journal.memory, (insertEvent_ok inserted).2.checkpoints, List.find?_append]
  by_cases here : path = k.path
  · subst here
    rw [show s.checkpoints.find? (fun k' => k'.runId = run ∧ k'.path = k.path) = none from absent,
      Memory.record_self]
    simp [mine]
  · rw [Memory.record_ne _ _ here, Journal.memory]
    simp [Ne.symm here]

end Calls

namespace Walker

/-! ## What an attempt shows -/

/-- Everything of an attempt that its own steps decide. -/
structure View where
  memory : Memory
  failures : Dict String String
  blocked : List DependencyReport
  parked : List ParkedUnit
  calls : List (ExecutionPath × Dict String Json)

def Attempt.view (run : RunId) (s : Attempt) : View where
  memory := s.journal.memory run
  failures := s.failures
  blocked := s.blocked
  parked := s.parked
  calls := s.calls

def Seen (run : RunId) (v : View) (s : Attempt) : Prop := s.view run = v

/-- Nobody else records completions of the run while the attempt lasts. -/
def World.Quiet (w : World) (run : RunId) : Prop := ∀ k s, (w.others k s).memory run = s.memory run

/-- An exception that the walker's checks of the manifest and the memory did not raise. -/
def Raised.Outside : Raised → Prop
  | .damage _ => False
  | _ => True

section Steps

variable {α : Type} {c : Context} {run : RunId} {v : View}

/-- What an exception leaves behind when nothing of the view has changed. -/
def Undone (run : RunId) (v : View) (e : Raised) (s : Attempt) : Prop := Seen run v s ∧ e.Outside

theorem begins_view {w : World} (quiet : w.Quiet run) (s : Attempt) : (s.begins w).view run = s.view run := by
  simp [Attempt.view, Attempt.begins, quiet s.tick s.journal]

theorem access_spec {w : World} (quiet : w.Quiet run) {op : Beside → Instant → Journal → Except StoreError (α × Journal)}
    {R : α → Memory → Prop}
    (kept : ∀ b now s a s', s.memory run = v.memory → op b now s = .ok (a, s') → R a (s'.memory run)) :
    Proc.Triple (Seen run v) (access w op) (fun a s => ∃ M, Seen run { v with memory := M } s ∧ R a M)
      (Undone run v) := by
  intro s seen
  have begun : Seen run v (s.begins w) := (begins_view quiet s).trans seen
  have memory : (s.begins w).journal.memory run = v.memory := congrArg View.memory begun
  unfold access
  by_cases dies : w.dies s.tick = true
  · rw [if_pos dies]
    constructor
    · intro a same
      cases same
    · intro e same
      cases same
      exact ⟨begun, trivial⟩
  · rw [if_neg dies]
    cases called : op (w.beside s.tick) (w.clock s.tick) (s.begins w).journal with
    | ok r =>
      obtain ⟨a, journal⟩ := r
      constructor
      · intro a' same
        cases same
        refine ⟨journal.memory run, ?_, kept _ _ _ _ _ memory called⟩
        rw [Seen, ← begun]
        rfl
      · intro e same
        cases same
    | error e =>
      constructor
      · intro a same
        cases same
      · intro e' same
        cases same
        exact ⟨begun, trivial⟩

theorem access_keeps {w : World} (quiet : w.Quiet run) {op : Beside → Instant → Journal → Except StoreError (α × Journal)}
    {R : α → Prop}
    (kept : ∀ b now s a s', s.memory run = v.memory → op b now s = .ok (a, s') →
      s'.memory run = v.memory ∧ R a) :
    Proc.Triple (Seen run v) (access w op) (fun a s => Seen run v s ∧ R a) (Undone run v) := by
  refine (access_spec quiet (R := fun a M => M = v.memory ∧ R a) kept).strengthen ?_
  rintro a s ⟨M, seen, rfl, right⟩
  exact ⟨seen, right⟩

theorem ask_spec (f : ℕ → α) {E : Raised → Attempt → Prop} :
    Proc.Triple (Seen run v) (ask f) (fun _ => Seen run v) E := by
  intro s seen
  constructor
  · intro a same
    cases same
    exact seen
  · intro e same
    cases same

theorem raise_spec {Q : α → Attempt → Prop} (e : Foreign) :
    Proc.Triple (Seen run v) (raise e : Walk α) Q (Undone run v) :=
  Proc.Triple.fail fun _ seen => ⟨seen, trivial⟩

theorem checked_spec {x : Except Damage α} {a : α} (ok : x = .ok a) {E : Raised → Attempt → Prop} :
    Proc.Triple (Seen run v) (checked x) (fun b s => b = a ∧ Seen run v s) E := by
  subst ok
  exact Proc.Triple.answer fun _ seen => ⟨rfl, seen⟩

variable (quiet : c.world.Quiet run)

include quiet

theorem notice_spec (n : Notice) : Proc.Triple (Seen run v) (notice c n) (fun _ => Seen run v) (Undone run v) := by
  refine (access_keeps quiet (R := fun _ => True) ?_).strengthen fun _ _ => And.left
  intro b now s u s' memory done
  exact ⟨(memory_of_appendEvent done).trans memory, trivial⟩

theorem turn_spec (t : Turn) : Proc.Triple (Seen run v) (turn c t) (fun _ => Seen run v) (Undone run v) := by
  refine (access_keeps quiet (R := fun _ => True) ?_).strengthen fun _ _ => And.left
  intro b now s u s' memory done
  exact ⟨(memory_of_transitionRun done).trans memory, trivial⟩

omit quiet in
theorem pause_spec : Proc.Triple (Seen run v) (pause c) (fun _ => Seen run v) (Undone run v) := by
  refine Proc.Triple.bind (ask_spec _) fun cancelled => ?_
  exact Proc.Triple.ite (fun _ => raise_spec _) fun _ => Proc.Triple.answer fun _ => id

theorem checkRunControl_spec :
    Proc.Triple (Seen run v) (checkRunControl c) (fun _ => Seen run v) (Undone run v) := by
  refine Proc.Triple.bind (ask_spec _) fun lost => ?_
  refine Proc.Triple.ite (fun _ => raise_spec _) fun _ => ?_
  refine Proc.Triple.bind (access_keeps quiet (R := fun _ => True) ?_) fun requested => ?_
  · intro b now s a s' memory done
    cases done
    exact ⟨memory, trivial⟩
  · exact Proc.Triple.ite (fun _ => (raise_spec _).weaken fun _ => And.left)
      fun _ => Proc.Triple.answer fun _ => And.left

end Steps

/-! ## One invocation -/

/-- What an implementation may return for its inputs. -/
abbrev Conduct := Instance → Dict String Json → Dict String Json → Prop

def World.Obeys (w : World) (conduct : Conduct) : Prop :=
  ∀ tick path i inputs returned outputs, w.implementation tick path i inputs = .ok returned →
    declaredOutputs i returned = .ok outputs → conduct i inputs outputs

/-- The completion of an invocation: made from its inputs, with outputs its
implementation may return, all of the declared ones. -/
structure Completes (hash : Dict String Json → Digest) (conduct : Conduct) (i : Instance)
    (inputs : Dict String Json) (k : Checkpoint) : Prop where
  hash : k.inputHash = hash inputs
  version : k.resolvedVersion = some i.version
  conduct : conduct i inputs (payloads k)
  declared : ∀ p ∈ i.definition.outputs, ∃ x, (payloads k).get? p.name = some x

theorem get?_declaredOutputs {i : Instance} {r : Returned} {outputs : Dict String Json}
    (ok : declaredOutputs i r = .ok outputs) :
    outputs.keys.Nodup ∧ ∀ p ∈ i.definition.outputs, ∃ x, outputs.get? p.name = some x := by
  cases r with
  | other type => cases ok
  | mapping values =>
    rw [declaredOutputs] at ok
    split_ifs at ok
    rw [map_ok_iff] at ok
    obtain ⟨entries, read, rfl⟩ := ok
    have pairs := forall₂_of_mapM read
    have names : entries.map Prod.fst = declaredNames i := by
      have same := pairs.imp (S := fun name e => name = e.1) fun name e h => by
        obtain ⟨value, -, rfl⟩ := map_ok_iff.mp h
        rfl
      clear read pairs
      generalize declaredNames i = declared at same
      induction same with
      | nil => rfl
      | cons here _ ih => rw [List.map_cons, ih, here]
    have distinct : (Dict.mk entries).keys.Nodup := by
      rw [Dict.keys, names]
      exact List.nodup_dedup _
    refine ⟨distinct, fun p declared => ?_⟩
    have mem : p.name ∈ entries.map Prod.fst := by
      rw [names, declaredNames, List.mem_dedup]
      exact List.mem_map_of_mem declared
    obtain ⟨e, found, name⟩ := List.mem_map.mp mem
    exact ⟨e.2, Dict.get?_of_mem distinct (name ▸ found)⟩

theorem declaredOutputs_error {i : Instance} {r : Returned} {d : Damage} (refused : declaredOutputs i r = .error d) :
    d.handling = .fails := by
  cases r with
  | other type =>
    cases refused
    rfl
  | mapping values =>
    rw [declaredOutputs] at refused
    split_ifs at refused
    · cases refused
      rfl
    · obtain ⟨name, -, refused⟩ := mapM_error (map_eq_error.mp refused)
      obtain ⟨-, rfl⟩ := expect_eq_error.mp (map_eq_error.mp refused)
      rfl

theorem payloads_completion (c : Context) {path : ExecutionPath} {i : Instance} {inputs outputs : Dict String Json}
    {rest : String → Json} (distinct : outputs.keys.Nodup) :
    payloads (completion c path i inputs outputs rest) = outputs := by
  rw [payloads, completion, List.map_map]
  have same : ((fun o : String × Json × Json => (o.1, o.2.1)) ∘ fun e : String × Json => (e.1, e.2, rest e.1)) = id :=
    rfl
  rw [same, List.map_id]
  exact congrArg Dict.mk (Dict.ofList_entries distinct)

section Invocation

variable {c : Context} {conduct : Conduct} {v : View} {path : ExecutionPath} {i : Instance}
  {inputs : Dict String Json}

/-- The view after a call of the implementation. -/
def View.called (v : View) (path : ExecutionPath) (inputs : Dict String Json) : View :=
  { v with calls := v.calls ++ [(path, inputs)] }

def View.completed (v : View) (path : ExecutionPath) (inputs : Dict String Json) (k : Checkpoint) : View :=
  { v.called path inputs with memory := v.memory.record path k }

/-- An exception of an invocation: the walker's own ones are those of a failing node. -/
def Raised.OfNode : Raised → Prop
  | .damage d => d.handling = .fails
  | _ => True

theorem Raised.Outside.ofNode {e : Raised} (outside : e.Outside) : e.OfNode := by
  cases e with
  | damage d => exact outside.elim
  | foreign e => trivial
  | cleanup error node cancelled => trivial

variable (quiet : c.world.Quiet c.lease.runId)

include quiet

theorem checkpoint_spec (path : ExecutionPath) :
    Proc.Triple (Seen c.lease.runId v) (checkpoint c path)
      (fun found s => Seen c.lease.runId v s ∧ found = v.memory path) (Undone c.lease.runId v) := by
  refine access_keeps quiet ?_
  intro b now s found s' memory done
  obtain ⟨stored, read, same⟩ := map_ok_iff.mp done
  cases same
  exact ⟨memory, by rw [← memory, memory_of_storedCheckpointFor read]⟩

theorem complete_spec {k : Checkpoint} (mine : k.runId = c.lease.runId) (absent : v.memory k.path = none) :
    Proc.Triple (Seen c.lease.runId v) (complete c k)
      (fun _ => Seen c.lease.runId { v with memory := v.memory.record k.path k }) (Undone c.lease.runId v) := by
  refine (access_spec quiet (R := fun _ M => M = v.memory.record k.path k) ?_).strengthen ?_
  · intro b now s u s' memory done
    rw [memory_of_recordCompletion mine done (by rw [memory]; exact absent), memory]
  · rintro u s ⟨M, seen, rfl⟩
    exact seen

omit quiet in
theorem closeAcquired_spec (node : Option Raised) :
    Proc.Triple (Seen c.lease.runId v) (closeAcquired c node) (fun _ => Seen c.lease.runId v)
      (fun e s => Undone c.lease.runId v e s ∧ e.handling = .passes) := by
  refine Proc.Triple.bind (ask_spec _) fun closing => ?_
  cases closing with
  | clean => exact Proc.Triple.answer fun _ => id
  | dies => exact Proc.Triple.fail fun _ seen => ⟨⟨seen, trivial⟩, rfl⟩
  | lost => exact Proc.Triple.fail fun _ seen => ⟨⟨seen, trivial⟩, rfl⟩
  | fails error namesNode cancelled => exact Proc.Triple.fail fun _ seen => ⟨⟨seen, trivial⟩, rfl⟩

theorem perform_spec (obeys : c.world.Obeys conduct) (absent : v.memory path = none) :
    Proc.Triple (Seen c.lease.runId v) (perform c path i inputs)
      (fun outputs s => ∃ k, Seen c.lease.runId (v.completed path inputs k) s ∧ Completes (inputHash c) conduct i inputs k ∧
        outputs = payloads k)
      (fun e s => Seen c.lease.runId (v.called path inputs) s ∧ e.OfNode) := by
  have called : Proc.Triple (Seen c.lease.runId v) (call c path i inputs)
      (fun returned s => (∀ outputs, declaredOutputs i returned = .ok outputs → conduct i inputs outputs) ∧
        Seen c.lease.runId (v.called path inputs) s)
      (fun e s => Seen c.lease.runId (v.called path inputs) s ∧ e.OfNode) := by
    intro s seen
    have next : Seen c.lease.runId (v.called path inputs)
        { s with tick := s.tick + 1, calls := s.calls ++ [(path, inputs)] } := by
      rw [Seen, ← seen]
      rfl
    unfold call
    cases answered : c.world.implementation s.tick path i inputs with
    | ok returned =>
      constructor
      · intro r same
        cases same
        exact ⟨fun outputs => obeys _ _ _ _ _ _ answered, next⟩
      · intro e same
        cases same
    | error e =>
      constructor
      · intro r same
        cases same
      · intro e' same
        cases same
        exact ⟨next, trivial⟩
  refine Proc.Triple.bind called fun returned => Proc.Triple.pure_left fun allowed => ?_
  cases ok : declaredOutputs i returned with
  | error d =>
    refine Proc.Triple.bind (Q := fun _ _ => False) (Proc.Triple.fail fun _ seen => ?_) fun _ _ => False.elim
    exact ⟨seen, declaredOutputs_error ok⟩
  | ok outputs =>
    obtain ⟨distinct, declared⟩ := get?_declaredOutputs ok
    refine Proc.Triple.bind (checked_spec rfl) fun outputs' => Proc.Triple.pure_left fun same => ?_
    subst same
    refine Proc.Triple.bind (ask_spec _) fun rest => ?_
    have same : payloads (completion c path i inputs outputs' rest) = outputs' := payloads_completion c distinct
    have recorded := complete_spec quiet (v := v.called path inputs)
      (k := completion c path i inputs outputs' rest) rfl absent
    refine Proc.Triple.bind (recorded.relax fun e s undone => ⟨undone.1, undone.2.ofNode⟩) fun _ => ?_
    refine Proc.Triple.answer fun s seen => ⟨_, seen, ⟨rfl, rfl, ?_, ?_⟩, same.symm⟩
    · rw [same]
      exact allowed _ ok
    · rw [same]
      exact declared

omit quiet in
theorem afterRaise_spec (e : Raised) :
    Proc.Triple (Seen c.lease.runId v) (afterRaise c e) (fun _ => Seen c.lease.runId v) (Undone c.lease.runId v) := by
  have closes : Proc.Triple (Seen c.lease.runId v) (closeAcquired c (some e)) (fun _ => Seen c.lease.runId v)
      (Undone c.lease.runId v) := (closeAcquired_spec _).relax fun _ _ => And.left
  have cancels : Proc.Triple (Seen c.lease.runId v)
      (do let lost ← ask c.world.lost; if lost then raise .lost else closeAcquired c (some e))
      (fun _ => Seen c.lease.runId v) (Undone c.lease.runId v) :=
    Proc.Triple.bind (ask_spec _) fun lost => Proc.Triple.ite (fun _ => raise_spec _) fun _ => closes
  have stays : Proc.Triple (Seen c.lease.runId v) (pure () : Walk Unit) (fun _ => Seen c.lease.runId v)
      (Undone c.lease.runId v) := Proc.Triple.answer fun _ => id
  unfold afterRaise
  split
  · exact stays
  · exact stays
  · exact stays
  · exact cancels
  · exact cancels
  · exact closes

/-- What an invocation that raised `e` leaves: either nothing is recorded, or its
completion is and `e` ends the attempt. -/
inductive Broken (c : Context) (conduct : Conduct) (v : View) (path : ExecutionPath) (i : Instance)
    (inputs : Dict String Json) (e : Raised) (s : Attempt) : Prop
  | before (seen : Seen c.lease.runId v s) (node : e.OfNode)
  | within (seen : Seen c.lease.runId (v.called path inputs) s) (node : e.OfNode)
  | after (k : Checkpoint) (seen : Seen c.lease.runId (v.completed path inputs k) s)
      (completes : Completes (inputHash c) conduct i inputs k) (outside : e.Outside) (passes : e.handling = .passes)

theorem invoke_spec (obeys : c.world.Obeys conduct) (absent : v.memory path = none) :
    Proc.Triple (Seen c.lease.runId v) (invoke c path i inputs)
      (fun outputs s => ∃ k, Seen c.lease.runId (v.completed path inputs k) s ∧ Completes (inputHash c) conduct i inputs k ∧
        outputs = payloads k)
      (Broken c conduct v path i inputs) := by
  refine Proc.Triple.bind ((notice_spec quiet _).relax fun e s undone => .before undone.1 undone.2.ofNode) fun _ => ?_
  refine Proc.Triple.ite (fun _ => Proc.Triple.fail fun s seen => .before seen rfl) fun _ => ?_
  refine Proc.Triple.bind (Proc.Triple.tried (perform_spec quiet obeys absent)) fun outcome => ?_
  cases outcome with
  | ok outputs =>
    refine (?_ : Proc.Triple (fun s => ∃ k, Seen c.lease.runId (v.completed path inputs k) s ∧
      Completes (inputHash c) conduct i inputs k ∧ outputs = payloads k) _ _ _).weaken fun s known => known.1 outputs rfl
    refine Proc.Triple.exists_left fun k => Proc.Triple.pure_right fun ⟨completes, same⟩ => ?_
    have closes := (closeAcquired_spec (c := c) (v := v.completed path inputs k) none).relax
      fun e s undone => (.after k undone.1.1 completes undone.1.2 undone.2 : Broken c conduct v path i inputs e s)
    exact Proc.Triple.bind closes fun _ => Proc.Triple.answer fun s seen => ⟨k, seen, completes, same⟩
  | error e =>
    refine (?_ : Proc.Triple (fun s => Seen c.lease.runId (v.called path inputs) s ∧ e.OfNode) _ _ _).weaken
      fun s known => known.2 e rfl
    refine Proc.Triple.pure_right fun node => ?_
    have closes := (afterRaise_spec (c := c) (v := v.called path inputs) e).relax
      fun e s undone => (.within undone.1 undone.2.ofNode : Broken c conduct v path i inputs e s)
    exact Proc.Triple.bind closes fun _ => Proc.Triple.fail fun s seen => .within seen node

def UnitOutcome.Stopped (path : ExecutionPath) : UnitOutcome → Prop
  | .completed => False
  | .parked u => u.path = path
  | .failed _ => True

theorem settleRaised_spec {e : Raised} (node : e.OfNode) :
    Proc.Triple (Seen c.lease.runId v) (settleRaised c path e e.handling)
      (fun outcome s => Seen c.lease.runId v s ∧ outcome.Stopped path) (Undone c.lease.runId v) := by
  cases handled : e.handling with
  | passes =>
    refine Proc.Triple.fail fun s seen => ⟨seen, ?_⟩
    cases e with
    | damage d => exact absurd (node.symm.trans handled) (by simp)
    | foreign e => trivial
    | cleanup error node cancelled => trivial
  | waits request reason =>
    exact Proc.Triple.bind (notice_spec quiet _) fun _ => Proc.Triple.answer fun s seen => ⟨seen, rfl⟩
  | fails => exact Proc.Triple.bind (notice_spec quiet _) fun _ => Proc.Triple.answer fun s seen => ⟨seen, trivial⟩

theorem cleanup_spec (error : Foreign) (node : Raised) (cancelled : Bool) {Q : UnitOutcome → Attempt → Prop} :
    Proc.Triple (Seen c.lease.runId v) (settleInvocation c path (.cleanup error (some node) cancelled)) Q
      (Undone c.lease.runId v) := by
  rw [settleInvocation]
  refine Proc.Triple.ite (fun _ => ?_) fun _ => Proc.Triple.fail fun s seen => ⟨seen, trivial⟩
  refine Proc.Triple.bind (Proc.Triple.tried (notice_spec quiet _)) fun noted => ?_
  have passed : Proc.Triple (Seen c.lease.runId v) (passCleanup error node cancelled noted) Q
      (Undone c.lease.runId v) := by
    unfold passCleanup
    split
    · exact Proc.Triple.ite (fun _ => raise_spec _) fun _ => Proc.Triple.fail fun s seen => ⟨seen, trivial⟩
    · exact Proc.Triple.fail fun s seen => ⟨seen, trivial⟩
  refine passed.weaken fun s known => ?_
  cases noted with
  | ok u => exact known.1 u rfl
  | error e => exact (known.2 e rfl).1

theorem settleInvocation_spec {e : Raised} (node : e.OfNode) :
    Proc.Triple (Seen c.lease.runId v) (settleInvocation c path e)
      (fun outcome s => Seen c.lease.runId v s ∧ outcome.Stopped path) (Undone c.lease.runId v) := by
  by_cases cleanup : ∃ error behind cancelled, e = .cleanup error (some behind) cancelled
  · obtain ⟨error, behind, cancelled, rfl⟩ := cleanup
    exact cleanup_spec quiet error behind cancelled
  · have same : settleInvocation c path e = settleRaised c path e e.handling := by
      unfold settleInvocation
      split
      · next error behind cancelled => exact absurd ⟨error, behind, cancelled, rfl⟩ cleanup
      · rfl
    rw [same]
    exact settleRaised_spec quiet node

theorem settleInvocation_passes {e : Raised} (outside : e.Outside) (passes : e.handling = .passes)
    {Q : UnitOutcome → Attempt → Prop} :
    Proc.Triple (Seen c.lease.runId v) (settleInvocation c path e) Q (Undone c.lease.runId v) := by
  by_cases cleanup : ∃ error behind cancelled, e = .cleanup error (some behind) cancelled
  · obtain ⟨error, behind, cancelled, rfl⟩ := cleanup
    exact cleanup_spec quiet error behind cancelled
  · have same : settleInvocation c path e = Proc.fail e := by
      unfold settleInvocation
      split
      · next error behind cancelled => exact absurd ⟨error, behind, cancelled, rfl⟩ cleanup
      · rw [passes]
        rfl
    rw [same]
    exact Proc.Triple.fail fun s seen => ⟨seen, outside⟩

end Invocation

/-! ## One unit -/

/-- The outcome of a unit with the values it publishes, and what is left of it. -/
inductive Executed (c : Context) (conduct : Conduct) (v : View) (path : ExecutionPath) (i : Instance)
    (inputs : Dict String Json) (values : Values) : UnitOutcome × Values → Attempt → Prop
  | restored {s : Attempt} {values' : Values} (k : Checkpoint) (known : v.memory path = some k)
      (published : publishAtomicOutputs i (payloads k) values = .ok values') (seen : Seen c.lease.runId v s) :
      Executed c conduct v path i inputs values (.completed, values') s
  | completed {s : Attempt} {values' : Values} (k : Checkpoint) (absent : v.memory path = none)
      (completes : Completes (inputHash c) conduct i inputs k)
      (published : publishAtomicOutputs i (payloads k) values = .ok values')
      (seen : Seen c.lease.runId (v.completed path inputs k) s) :
      Executed c conduct v path i inputs values (.completed, values') s
  | stopped {s : Attempt} {outcome : UnitOutcome} (absent : v.memory path = none) (stop : outcome.Stopped path)
      (seen : Seen c.lease.runId v s ∨ Seen c.lease.runId (v.called path inputs) s) :
      Executed c conduct v path i inputs values (outcome, values) s

/-- What is left of a unit whose exception ends the attempt. -/
structure Interrupted (c : Context) (conduct : Conduct) (v : View) (path : ExecutionPath) (i : Instance)
    (inputs : Dict String Json) (e : Raised) (s : Attempt) : Prop where
  outside : e.Outside
  left : Seen c.lease.runId v s ∨ v.memory path = none ∧ (Seen c.lease.runId (v.called path inputs) s ∨
    ∃ k, Seen c.lease.runId (v.completed path inputs k) s ∧ Completes (inputHash c) conduct i inputs k)

section Units

variable {c : Context} {conduct : Conduct} {v : View} {path : ExecutionPath} {i : Instance}
  {inputs : Dict String Json} {values : Values}

theorem Undone.interrupted {e : Raised} {s : Attempt} (h : Undone c.lease.runId v e s) :
    Interrupted c conduct v path i inputs e s := ⟨h.2, .inl h.1⟩

variable (quiet : c.world.Quiet c.lease.runId)

include quiet

theorem restore_spec {k : Checkpoint} {values' : Values} (known : v.memory path = some k)
    (hash : k.inputHash = inputHash c inputs) (version : k.resolvedVersion = some i.version)
    (published : publishAtomicOutputs i (payloads k) values = .ok values') :
    Proc.Triple (Seen c.lease.runId v) (restore c path i values inputs k)
      (Executed c conduct v path i inputs values) (Interrupted c conduct v path i inputs) := by
  refine Proc.Triple.ite (fun wrong => absurd wrong (by simp [hash, version])) fun _ => ?_
  refine Proc.Triple.bind ((notice_spec quiet _).relax fun _ _ => Undone.interrupted) fun _ => ?_
  refine Proc.Triple.bind (checked_spec published) fun values'' => Proc.Triple.pure_left fun same => ?_
  subst same
  exact Proc.Triple.answer fun s seen => .restored k known published seen

theorem anew_spec (obeys : c.world.Obeys conduct) (absent : v.memory path = none) :
    Proc.Triple (Seen c.lease.runId v) (restoreOrInvoke c path i values inputs none)
      (Executed c conduct v path i inputs values) (Interrupted c conduct v path i inputs) := by
  -- the exceptions of settling leave the view `v'` that the invocation left
  have settles {v' : View} {e : Raised} (node : e.OfNode)
      (left : ∀ s, Seen c.lease.runId v' s → Seen c.lease.runId v s ∨ Seen c.lease.runId (v.called path inputs) s) :
      Proc.Triple (Seen c.lease.runId v') (settleOutcome c path i values (.error e))
        (Executed c conduct v path i inputs values) (Interrupted c conduct v path i inputs) := by
    refine Proc.Triple.bind ((settleInvocation_spec quiet node).relax fun e s undone => ?_) fun outcome => ?_
    · exact ⟨undone.2, (left s undone.1).imp_right fun seen => ⟨absent, .inl seen⟩⟩
    · exact Proc.Triple.answer fun s settled => .stopped absent settled.2 (left s settled.1)
  refine Proc.Triple.bind (Proc.Triple.tried (invoke_spec quiet obeys absent)) fun outcome => ?_
  cases outcome with
  | ok outputs =>
    refine (?_ : Proc.Triple (fun s => ∃ k, Seen c.lease.runId (v.completed path inputs k) s ∧
      Completes (inputHash c) conduct i inputs k ∧ outputs = payloads k) _ _ _).weaken fun s known => known.1 outputs rfl
    refine Proc.Triple.exists_left fun k => Proc.Triple.pure_right fun ⟨completes, same⟩ => ?_
    subst same
    obtain ⟨values', published⟩ := publishAtomicOutputs_ok completes.declared values
    refine Proc.Triple.bind (checked_spec published) fun values'' => Proc.Triple.pure_left fun same => ?_
    subst same
    exact Proc.Triple.answer fun s seen => .completed k absent completes published seen
  | error e =>
    refine (?_ : Proc.Triple (Broken c conduct v path i inputs e) _ _ _).weaken fun s known => known.2 e rfl
    intro s broken
    cases broken with
    | before seen node => exact settles node (fun s seen => .inl seen) s seen
    | within seen node => exact settles node (fun s seen => .inr seen) s seen
    | after k seen completes outside passes =>
      refine Proc.Triple.bind (Q := fun _ _ => False) ?_ (fun _ _ => False.elim) s seen
      refine (settleInvocation_passes quiet outside passes).relax fun e s undone => ⟨undone.2, .inr ⟨absent, .inr ?_⟩⟩
      exact ⟨k, undone.1, completes⟩

theorem executeOrRestore_spec (obeys : c.world.Obeys conduct) (ready : nodeInputs c.bindings values i = .ok inputs)
    (explained : ∀ k, v.memory path = some k → k.inputHash = inputHash c inputs ∧
      k.resolvedVersion = some i.version ∧ ∃ values', publishAtomicOutputs i (payloads k) values = .ok values') :
    Proc.Triple (Seen c.lease.runId v) (executeOrRestore c path i values)
      (Executed c conduct v path i inputs values) (Interrupted c conduct v path i inputs) := by
  refine Proc.Triple.bind (checked_spec ready) fun inputs' => Proc.Triple.pure_left fun same => ?_
  subst same
  refine Proc.Triple.bind ((checkpoint_spec quiet path).relax fun _ _ => Undone.interrupted) fun found => ?_
  refine Proc.Triple.pure_right fun same => ?_
  cases known : v.memory path with
  | some k =>
    obtain rfl := same.trans known
    obtain ⟨hash, version, values', published⟩ := explained k known
    exact restore_spec quiet known hash version published
  | none =>
    obtain rfl := same.trans known
    exact anew_spec quiet obeys known

end Units

end Walker

end Constructicon
