import Constructicon.WalkerRecovery

/-!
# Walkers that were overtaken

A walker may still be at work when another has claimed its run. It announces every
invocation and every end in the journal before anything follows from it, and there the
fence refuses it: from then on it calls for nothing and writes nothing.
-/

namespace Constructicon.Walker

open Transaction

/-- What others alone make of a journal. -/
def World.Passes (w : World) : Journal → Journal → Prop := Relation.ReflTransGen fun s s' => ∃ k, s' = w.others k s

/-- The lease is superseded, and since `s₀` the walker has called nothing and written nothing. -/
structure Overtaken (c : Context) (s₀ s : Attempt) : Prop where
  superseded : s.journal.Superseded c.lease
  calls : s.calls = s₀.calls
  journal : c.world.Passes s₀.journal s.journal

section Fence

variable {α β : Type}

abbrev Harmless (c : Context) (s₀ : Attempt) (m : Walk α) : Prop :=
  Proc.Triple (Overtaken c s₀) m (fun _ => Overtaken c s₀) (fun _ => Overtaken c s₀)

/-- An overtaken walker comes no further than this. -/
abbrev Halts (c : Context) (s₀ : Attempt) (m : Walk α) : Prop :=
  Proc.Triple (Overtaken c s₀) m (fun _ _ => False) (fun _ => Overtaken c s₀)

variable {c : Context} {s₀ : Attempt} {m : Walk α}

theorem Halts.harmless (h : Halts c s₀ m) : Harmless c s₀ m := h.strengthen fun _ _ => False.elim

theorem Halts.first (h : Halts c s₀ m) (f : α → Walk β) : Halts c s₀ (m >>= f) :=
  Proc.Triple.bind h fun _ _ => False.elim

theorem idle_harmless (a : α) : Harmless c s₀ (pure a) := Proc.Triple.answer fun _ => id

theorem fail_halts (e : Raised) : Halts c s₀ (Proc.fail e : Walk α) := Proc.Triple.fail fun _ => id

theorem ask_harmless (f : ℕ → α) : Harmless c s₀ (ask f) := by
  intro s out
  constructor
  · intro a same
    cases same
    exact ⟨out.superseded, out.calls, out.journal⟩
  · intro e same
    cases same

theorem checked_harmless (x : Except Damage α) : Harmless c s₀ (checked x) := by
  cases x with
  | ok a => exact idle_harmless a
  | error d => exact (fail_halts _).harmless

/-- Collecting a result touches neither the journal nor the calls. -/
theorem update_harmless {g : Attempt → Attempt} (journal : ∀ s, (g s).journal = s.journal)
    (calls : ∀ s, (g s).calls = s.calls) : Harmless c s₀ (Proc.update g) :=
  Proc.Triple.update fun s out =>
    ⟨(journal s).symm ▸ out.superseded, (calls s).trans out.calls, (journal s).symm ▸ out.journal⟩

theorem pause_harmless : Harmless c s₀ (pause c) :=
  Proc.Triple.bind (ask_harmless _) fun _ => Proc.Triple.ite (fun _ => (fail_halts _).harmless) fun _ => idle_harmless ()

variable (later : ∀ k (s : Journal), s.Later (c.world.others k s))

include later

theorem access_overtaken {op : Beside → Instant → Journal → Except StoreError (α × Journal)} {Q : α → Prop}
    (kept : ∀ b now s a s', s.Superseded c.lease → op b now s = .ok (a, s') → s' = s ∧ Q a) :
    Proc.Triple (Overtaken c s₀) (access c.world op) (fun a s => Q a ∧ Overtaken c s₀ s) (fun _ => Overtaken c s₀) := by
  intro s out
  have begun : Overtaken c s₀ (s.begins c.world) :=
    ⟨out.superseded.later (later _ _), out.calls, out.journal.tail ⟨_, rfl⟩⟩
  unfold access
  by_cases dies : c.world.dies s.tick = true
  · rw [if_pos dies]
    exact ⟨fun a same => (by cases same), fun e same => begun⟩
  · rw [if_neg dies]
    cases called : op (c.world.beside s.tick) (c.world.clock s.tick) (s.begins c.world).journal with
    | error e => exact ⟨fun a same => (by cases same), fun e same => begun⟩
    | ok r =>
      obtain ⟨a, journal⟩ := r
      obtain ⟨rfl, known⟩ := kept _ _ _ _ _ begun.superseded called
      constructor
      · intro a' same
        cases same
        exact ⟨known, begun⟩
      · intro e same
        cases same

theorem reads_harmless {op : Beside → Instant → Journal → Except StoreError (α × Journal)}
    (kept : ∀ b now s a s', op b now s = .ok (a, s') → s' = s) : Harmless c s₀ (access c.world op) :=
  (access_overtaken later (Q := fun _ => True) fun b now s a s' _ done => ⟨kept b now s a s' done, trivial⟩).strengthen
    fun _ _ => And.right

theorem found_harmless (f : Beside → Instant → Journal → Except StoreError α) :
    Harmless c s₀ (access c.world (fun b now s => (f b now s).map (fun found => (found, s)))) := by
  refine reads_harmless later fun b now s a s' done => ?_
  obtain ⟨found, -, same⟩ := map_ok_iff.mp done
  exact (Prod.mk.inj same).2.symm

theorem writes_halt {op : Beside → Instant → Journal → Except StoreError (α × Journal)}
    (fenced : ∀ b now s r, op b now s = .ok r → s.Holds c.lease) : Halts c s₀ (access c.world op) :=
  (access_overtaken later (Q := fun _ => False) fun b now s _ _ out done => (out.out (fenced b now s _ done)).elim).strengthen
    fun _ _ => And.left

theorem notice_halts (n : Notice) : Halts c s₀ (notice c n) :=
  writes_halt later fun _ _ _ _ done => (appendEvent_change done).2

theorem turn_halts (t : Turn) : Halts c s₀ (turn c t) :=
  writes_halt later fun _ _ _ _ done => (transitionRun_change done).2

theorem checkpoint_harmless (path : ExecutionPath) : Harmless c s₀ (checkpoint c path) := found_harmless later _

theorem checkRunControl_harmless : Harmless c s₀ (checkRunControl c) := by
  refine Proc.Triple.bind (ask_harmless _) fun lost => Proc.Triple.ite (fun _ => (fail_halts _).harmless) fun _ => ?_
  refine Proc.Triple.bind (reads_harmless later ?_) fun requested =>
    Proc.Triple.ite (fun _ => (fail_halts _).harmless) fun _ => idle_harmless ()
  intro b now s a s' done
  cases done
  rfl

/-! ## One invocation -/

variable {path : ExecutionPath} {i : Instance} {inputs : Dict String Json} {values : Values}

theorem invoke_halts : Halts c s₀ (invoke c path i inputs) := (notice_halts later _).first _

theorem settleRaised_halts (e : Raised) (h : Handling) : Halts c s₀ (settleRaised c path e h) := by
  cases h with
  | passes => exact fail_halts e
  | waits request reason => exact (notice_halts later _).first _
  | fails => exact (notice_halts later _).first _

theorem settleInvocation_halts (e : Raised) : Halts c s₀ (settleInvocation c path e) := by
  unfold settleInvocation
  split
  · next error node cancelled =>
    refine Proc.Triple.ite (fun _ => ?_) fun _ => fail_halts _
    refine Proc.Triple.bind (Proc.Triple.tried (notice_halts later _)) fun noted => ?_
    have passed : Halts c s₀ (passCleanup error node cancelled noted) := by
      unfold passCleanup
      split
      · exact Proc.Triple.ite (fun _ => fail_halts _) fun _ => fail_halts _
      · exact fail_halts _
    refine passed.weaken fun s known => ?_
    cases noted with
    | ok u => exact (known.1 u rfl).elim
    | error e => exact known.2 e rfl
  · exact settleRaised_halts later _ _

theorem executeOrRestore_halts : Halts c s₀ (executeOrRestore c path i values) := by
  refine Proc.Triple.bind (checked_harmless _) fun inputs => Proc.Triple.bind (checkpoint_harmless later path) fun found => ?_
  cases found with
  | some k => exact Proc.Triple.ite (fun _ => fail_halts _) fun _ => (notice_halts later _).first _
  | none =>
    refine Proc.Triple.bind (Proc.Triple.tried (invoke_halts later)) fun outcome => ?_
    cases outcome with
    | ok outputs => exact fun s known => (known.1 outputs rfl).elim
    | error e => exact ((settleInvocation_halts later e).first _).weaken fun s known => known.2 e rfl

/-! ## Loops and units -/

variable {l : LoopResolution} {producers : Dict String Instance} {outer : Values}

theorem block_halts (loop : Bool) (r : DependencyReport) : Halts c s₀ (block c loop r) :=
  Proc.Triple.bind (update_harmless (fun _ => rfl) fun _ => rfl) fun _ => notice_halts later _

theorem runMember_halts {index : ℕ} {member : ScopePath} {it : Iteration} :
    Halts c s₀ (runMember c l producers index member it) := by
  refine Proc.Triple.bind pause_harmless fun _ => Proc.Triple.bind (checkRunControl_harmless later) fun _ => ?_
  refine Proc.Triple.bind (checked_harmless _) fun i => ?_
  refine Proc.Triple.ite (fun _ => ?_) fun _ => Proc.Triple.ite (fun _ => ?_) fun _ => ?_
  · exact Proc.Triple.ite (fun _ => (block_halts later _ _).first _) fun _ => (notice_halts later _).first _
  · exact (block_halts later _ _).first _
  · exact Proc.Triple.bind (checkpoint_harmless later _) fun had => (executeOrRestore_halts later).first _

theorem runMembers_harmless {index : ℕ} (members : List ScopePath) (it : Iteration) :
    Harmless c s₀ (runMembers c l producers index members it) := by
  cases members with
  | nil => exact idle_harmless _
  | cons member rest => exact ((runMember_halts later).first _).harmless

theorem decideLoop_halts {index : ℕ} {it : Iteration} {next : Walk (InvocationStatus × Values)}
    (decision : Except Damage Bool) : Halts c s₀ (decideLoop c l index outer it next decision) := by
  cases decision with
  | ok again => exact (notice_halts later _).first _
  | error d =>
    exact Proc.Triple.bind (update_harmless (fun _ => rfl) fun _ => rfl) fun _ => (notice_halts later _).first _

theorem runIterations_harmless (remaining index : ℕ) (previous : Option Values) (executedAny : Bool) :
    Harmless c s₀ (runIterations c l producers outer remaining index previous executedAny) := by
  cases remaining with
  | zero =>
    exact Proc.Triple.bind (update_harmless (fun _ => rfl) fun _ => rfl) fun _ => ((notice_halts later _).first _).harmless
  | succ remaining =>
    refine Proc.Triple.bind pause_harmless fun _ => Proc.Triple.bind (checkRunControl_harmless later) fun _ => ?_
    refine Proc.Triple.bind (checked_harmless _) fun seeded => Proc.Triple.bind (runMembers_harmless later _ _) fun ended => ?_
    cases ended with
    | none => exact idle_harmless _
    | some it => exact Proc.Triple.ite (fun _ => idle_harmless _) fun _ => (decideLoop_halts later _).harmless

theorem readMatrix_harmless (matrix : List (List ExecutionPath)) : Harmless c s₀ (readMatrix c matrix) := by
  have row (paths : List ExecutionPath) : Harmless c s₀ (readRow c paths) := by
    induction paths with
    | nil => exact idle_harmless _
    | cons path rest ih =>
      exact Proc.Triple.bind (checkpoint_harmless later path) fun _ => Proc.Triple.bind ih fun _ => idle_harmless _
  induction matrix with
  | nil => exact idle_harmless _
  | cons paths rest ih => exact Proc.Triple.bind (row paths) fun _ => Proc.Triple.bind ih fun _ => idle_harmless _

theorem executeLoop_harmless : Harmless c s₀ (executeLoop c l outer) := by
  refine Proc.Triple.bind (Proc.Triple.bind (readMatrix_harmless later _) fun _ => checked_harmless _) fun _ => ?_
  exact Proc.Triple.bind (checked_harmless _) fun found => runIterations_harmless later _ _ _ _

theorem runUnits_harmless (units : List RootUnit) (p : Progress) : Harmless c s₀ (runUnits c units p) := by
  induction units generalizing p with
  | nil => exact idle_harmless p
  | cons u rest ih =>
    refine Proc.Triple.bind ?_ ih
    refine Proc.Triple.bind pause_harmless fun _ => Proc.Triple.bind (checkRunControl_harmless later) fun _ => ?_
    refine Proc.Triple.ite (fun _ => ((block_halts later _ _).first _).harmless) fun _ => ?_
    cases u with
    | atomic i => exact ((executeOrRestore_halts later).first _).harmless
    | loop l => exact Proc.Triple.bind (executeLoop_harmless later) fun _ => idle_harmless _

/-! ## Whole attempts -/

variable {δ : Type} {m : ExecutionManifest δ}

theorem settle_halts (ended : Except Raised Progress) : Halts c s₀ (settle c m ended) := by
  unfold settle
  split
  · refine Proc.Triple.look fun s out => Proc.Triple.weaken ?_ fun s' same => same ▸ out
    refine Proc.Triple.ite (fun _ => (turn_halts later _).first _) fun _ => ?_
    refine Proc.Triple.ite (fun _ => (turn_halts later _).first _) fun _ => Proc.Triple.ite (fun _ => fail_halts _) fun _ => ?_
    exact Proc.Triple.bind (checked_harmless _) fun outputs => (turn_halts later _).first _
  · exact (turn_halts later _).first _
  · exact fail_halts _

theorem execute_halts (units : List RootUnit) (inputs : Dict String Json) (cause : Option AttemptCause) :
    Halts c s₀ (execute c m units inputs cause) := by
  refine Proc.Triple.bind (Proc.Triple.bind (found_harmless later _) fun row => checked_harmless _) fun status => ?_
  refine Halts.first ?_ _
  cases status with
  | pending => exact turn_halts later _
  | failed => exact turn_halts later _
  | parked => exact turn_halts later _
  | running => exact notice_halts later _
  | succeeded => exact notice_halts later _
  | cancelled => exact notice_halts later _

/-- How a walker goes on from a point of its work: it calls for nothing, writes nothing, settles
no run and begins no attempt. -/
structure Silenced (c : Context) (m : ExecutionManifest δ) (s : Attempt) : Prop where
  members : ∀ l producers index members it, Overtaken c s (runMembers c l producers index members it s).2
  iterations : ∀ l producers outer remaining index previous executedAny,
    Overtaken c s (runIterations c l producers outer remaining index previous executedAny s).2
  units : ∀ units p, Overtaken c s (runUnits c units p s).2
  settles : ∀ ended, Overtaken c s (settle c m ended s).2 ∧ ∃ e, (settle c m ended s).1 = .error e
  attempts : ∀ units inputs cause, Overtaken c s (execute c m units inputs cause s).2 ∧
    ∃ e, (execute c m units inputs cause s).1 = .error e

/-- A walker whose lease was superseded is silent from then on, wherever in its work it was. -/
theorem overtaken_silenced {s : Attempt} (superseded : s.journal.Superseded c.lease) : Silenced c m s := by
  have start : Overtaken c s s := ⟨superseded, rfl, .refl⟩
  have harmless {α : Type} {m : Walk α} (h : Harmless c s m) : Overtaken c s (m s).2 := by
    cases ended : (m s).1 with
    | ok a => exact (h s start).1 a ended
    | error e => exact (h s start).2 e ended
  have halts {α : Type} {m : Walk α} (h : Halts c s m) : Overtaken c s (m s).2 ∧ ∃ e, (m s).1 = .error e := by
    refine ⟨harmless h.harmless, ?_⟩
    cases ended : (m s).1 with
    | ok a => exact ((h s start).1 a ended).elim
    | error e => exact ⟨e, rfl⟩
  constructor
  · exact fun l producers index members it => harmless (runMembers_harmless later members it)
  · exact fun l producers outer remaining index previous executedAny => harmless (runIterations_harmless later _ _ _ _)
  · exact fun units p => harmless (runUnits_harmless later units p)
  · exact fun ended => halts (settle_halts later ended)
  · exact fun units inputs cause => halts (execute_halts later units inputs cause)

end Fence

def overtakenJournal : Journal := claimedJournal.step plainWire calm 20 (.claim "r" "b" 10 none none)

theorem overtakenJournal_superseded : overtakenJournal.Superseded firstLease := ⟨_, rfl, by decide, by decide⟩

theorem overtaken_silenced_counter :
    Silenced (Context.of (calmWorld .null) firstLease counterManifest (counterAdmission.snapshot.instances counterManifest))
      counterManifest { journal := overtakenJournal } :=
  overtaken_silenced (fun _ s => .refl s) overtakenJournal_superseded

end Constructicon.Walker
