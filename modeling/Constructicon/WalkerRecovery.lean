import Constructicon.LoopPrograms
import Constructicon.RunFencing
import Constructicon.WalkerMeaning

/-!
# Runs over all their attempts

What the attempts at a run of an admitted manifest keep, whatever interrupts them: they
never refuse the history that attempts before them have left, never call an implementation
again whose completion is on record, and whichever of them succeeds answers what the
manifest computes.
-/

namespace Constructicon

variable {δ : Type}

/-! ## The components of a manifest -/

/-- Every resolution on a log is of a version the registry holds. -/
def Stocked (w : World δ) (log : List (Emitted δ)) : Prop :=
  ∀ r ∈ resolutionsOf log, ∃ stored, w.snapshot.get r.component r.resolvedVersion = some stored

section Stock

variable {w : World δ} {log log' : List (Emitted δ)}

theorem Stocked.append (h : Stocked w log) (h' : Stocked w log') : Stocked w (log ++ log') := by
  intro r mem
  rw [resolutionsOf_append] at mem
  exact (List.mem_append.mp mem).elim (h r) (h' r)

theorem stocked_of_nil (none : resolutionsOf log = []) : Stocked w log := by
  intro r mem
  rw [none] at mem
  cases mem

theorem RefRun.stocked {a : Seat} {ref : Ref} {stored : StoredVersion} {grants : EffectiveGrants} {bound : Sources}
    (run : RefRun w a ref stored grants bound log) : Stocked w log := by
  obtain ⟨r, only, -, name, version⟩ := run.resolution
  intro r' mem
  rw [only] at mem
  obtain rfl := List.mem_singleton.mp mem
  exact ⟨stored, by rw [name, version]; exact get_of_selectVersion run.entries.1⟩

theorem LevelRun.stocked {g : Graph} {l : Level} {out : Sources} (h : LevelRun (fun _ log _ => Stocked w log) g l log out) :
    Stocked w log := by
  intro r mem
  obtain ⟨e, inside, found⟩ := List.mem_filterMap.mp mem
  obtain ⟨n, -, lookup, part, out', stocked, here⟩ := h.logged e inside
  exact stocked r (List.mem_filterMap.mpr ⟨e, here, found⟩)

theorem stocked_rules (w : World δ) :
    CompileRules w (fun _ log _ => Stocked w log) (fun _ log _ => Stocked w log) where
  atomic run _ h := run.stocked.append (stocked_of_nil (registerAtomic_clean h).1)
  composite run _ _ level := run.stocked.append level.stocked
  inline _ _ level := level.stocked
  loop := by
    intro a loop before inputs outputs bound log body feedback continuation _ _ boundary run
    have ran := run.ran
    unfold BodyRun at ran
    refine (stocked_of_nil (loopBoundary_clean boundary).1.resolutions).append (Stocked.append ?_ (stocked_of_nil rfl))
    split at ran
    · exact ran
    · exact ran.stocked

end Stock

namespace Walker

open Transaction

section Runs

variable {adm : Admission δ} {m : ExecutionManifest δ} {hash : Dict String Json → Digest} {conduct : Conduct} {run : RunId}
  {depth : ℕ} {g : Graph} {ordered : List RootUnit} {M M' : Memory} {w : World} {lease : RunLease}
  {cause : Option AttemptCause} {s : Journal}

theorem materializationInstances_ok (admitted : admitGraph adm depth g = .ok m) :
    materializationInstances adm.snapshot m = .ok (adm.snapshot.instances m) := by
  have stocked : ∀ r ∈ m.resolvedComponents, ∃ stored,
      expect (adm.snapshot.get r.component r.resolvedVersion) (Damage.missingComponent r.scope) = .ok stored := by
    obtain ⟨log, outputs, level, -, -, rfl⟩ := admit_level (fun _ => stocked_rules (adm.world g)) admitted
    intro r mem
    rw [sealManifest_resolvedComponents, resolutionsOf_append, (bindings_projections _).1, List.append_nil] at mem
    obtain ⟨stored, found⟩ := level.stocked r mem
    exact ⟨stored, expect_eq_ok.mpr found⟩
  obtain ⟨found, read⟩ := mapM_of stocked
  rw [materializationInstances, read, ok_bind]
  rfl

/-- A complete memory is materialized into the outputs it holds. -/
theorem Plan.materializes (plan : Plan adm m hash conduct run ordered) (admitted : admitGraph adm depth g = .ok m)
    {values : Values} (whole : Whole (admittedShared adm m hash conduct) M ordered (rootValues m adm.inputs) values) :
    materialize hash M adm.snapshot m adm.inputs = graphOutputs m values (bindingsByKey m) := by
  have units : rootUnits m (adm.snapshot.instances m) = admittedUnits adm m := rfl
  have replayed : ordered.foldlM (materializeUnit hash M (bindingsByKey m) (instancesByScope (adm.snapshot.instances m)))
      (rootValues m adm.inputs) = .ok values := whole.materializes plan.loops
  rw [materialize, materializationInstances_ok admitted, ok_bind]
  dsimp only
  rw [units, plan.listed, ok_bind, replayed, ok_bind]

end Runs

/-! ## A run of the counter -/

section Example

def counterAdmission : Admission (String × ℕ × Json) := Sample.admission ⟨[("x", .int 0)]⟩

def counterManifest : ExecutionManifest (String × ℕ × Json) :=
  sealManifest counterAdmission Sample.counter (admitCompile counterAdmission 2 Sample.counter).log

/-- A step that says whether to go on as told. -/
def stepReturned (again : Json) : Returned := .mapping ⟨[("x", some (.int 0)), ("again", some again)]⟩

def stepBehaviour (again : Json) : Behaviour := fun i _ => (declaredOutputs i (stepReturned again)).toOption.getD .empty

/-- A world in which nothing goes wrong beside the step. -/
def calmWorld (again : Json) : World where
  wire := ⟨⟨fun _ _ _ => "", fun d => d⟩, fun _ => ""⟩
  others := fun _ s => s
  beside := fun _ => calm
  clock := fun _ => 1
  dies := fun _ => false
  cancels := fun _ => false
  lost := fun _ => false
  reconciles := fun _ => none
  implementation := fun _ _ _ _ => .ok (stepReturned again)
  closing := fun _ => .clean
  envelope := fun _ _ _ => .null
  said := fun _ => ("", "")

def claimedJournal : Journal :=
  [(0, JournalCall.create "r" "m"), (0, .claim "r" "a" 10 none none)].foldl
    (fun s c => s.step (calmWorld .null).wire calm c.1 c.2) .empty

theorem counter_admitted : admitGraph counterAdmission 2 Sample.counter = .ok counterManifest := rfl

theorem counter_ports : counterAdmission.snapshot.DistinctPorts := Sample.distinctPorts

theorem counter_keyed : KeysDistinct counterAdmission.snapshot counterManifest := by decide

theorem calmWorld_orderly (again : Json) :
    Orderly (fun _ => "") (Returns (stepBehaviour again)) "r" (calmWorld again) firstLease where
  mine := rfl
  quiet := fun _ _ => rfl
  obeys := by
    intro tick path i inputs returned outputs ran declared
    cases ran
    rw [Returns, stepBehaviour, declared]
    rfl
  hash := fun _ => rfl

theorem claimedJournal_recorded (again : Json) : Recorded counterAdmission counterManifest (fun _ => "")
    (Returns (stepBehaviour again)) "r" (claimedJournal.memory "r") := by
  have blank : claimedJournal.memory "r" = fun _ => none := rfl
  rw [blank]
  exact .refl

/-- A step that stops at once lets the run succeed. -/
theorem counter_succeeds :
    ∃ r, (attempt counterAdmission counterManifest (calmWorld (.bool false)) firstLease none claimedJournal).1 = .ok r ∧
      r.status = .succeeded := by
  have status : (attempt counterAdmission counterManifest (calmWorld (.bool false)) firstLease none
      claimedJournal).1.toOption.map RunResult.status = some .succeeded := by decide +kernel
  cases answered : (attempt counterAdmission counterManifest (calmWorld (.bool false)) firstLease none claimedJournal).1 with
  | ok r =>
    rw [answered] at status
    exact ⟨r, rfl, Option.some.inj status⟩
  | error e =>
    rw [answered] at status
    cases status

/-- What an attempt leaves whose step does not say whether to go on. -/
def undecidedJournal : Journal := (attempt counterAdmission counterManifest (calmWorld .null) firstLease none claimedJournal).2.journal

theorem undecidedJournal_recorded : Recorded counterAdmission counterManifest (fun _ => "")
    (Returns (stepBehaviour .null)) "r" (undecidedJournal.memory "r") :=
  (claimedJournal_recorded .null).tail (.attempt (calmWorld_orderly .null) none claimedJournal)

/-- The decision an attempt refused. -/
def refusedDecision : Except Raised RunResult → Option (ScopePath × Json)
  | .error (.damage (.notBoolean scope value)) => some (scope, value)
  | _ => none

theorem undecidedJournal_refused :
    (attempt counterAdmission counterManifest (calmWorld .null) firstLease none undecidedJournal).1 =
      .error (.damage (.notBoolean ["g", "l"] .null)) := by
  have refused : refusedDecision (attempt counterAdmission counterManifest (calmWorld .null) firstLease none
      undecidedJournal).1 = some (["g", "l"], .null) := by decide +kernel
  generalize (attempt counterAdmission counterManifest (calmWorld .null) firstLease none undecidedJournal).1 = x at refused
  unfold refusedDecision at refused
  split at refused
  · cases refused
    rfl
  · cases refused

end Example

/-! ## Every attempt -/

section Attempts

variable {adm : Admission δ} {m : ExecutionManifest δ} {hash : Dict String Json → Digest} {conduct : Conduct} {run : RunId}
  {depth : ℕ} {g : Graph} {ordered : List RootUnit} {M M' : Memory} {w : World} {lease : RunLease}
  {cause : Option AttemptCause} {s : Journal}

theorem Plan.loop_mem (plan : Plan adm m hash conduct run ordered) {l : LoopResolution} (mem : .loop l ∈ ordered) :
    l ∈ m.resolvedLoops := by
  have inside := plan.wired.mem mem
  rw [admittedUnits, rootUnits, List.mem_append, List.mem_map, List.mem_map] at inside
  rcases inside with ⟨i, -, same⟩ | ⟨l', inside, same⟩
  · cases same
  · exact RootUnit.loop.inj same ▸ inside

theorem Plan.succeeds (plan : Plan adm m hash conduct run ordered)
    (coherent : ∃ y, Coherent (admittedShared adm m hash conduct) (s.memory run) ordered (rootValues m adm.inputs) y)
    (orderly : Orderly hash conduct run w lease) {r : RunResult} (answered : (attempt adm m w lease cause s).1 = .ok r)
    (status : r.status = .succeeded) : ∃ values,
      Whole (admittedShared adm m hash conduct) ((attempt adm m w lease cause s).2.journal.memory run) ordered
        (rootValues m adm.inputs) values ∧ graphOutputs m values (bindingsByKey m) = .ok r.outputs := by
  obtain ⟨answers, -, -⟩ := plan.ends coherent orderly cause
  cases answers r answered with
  | failed status' => cases status.symm.trans status'
  | parked status' => cases status.symm.trans status'
  | cancelled status' => cases status.symm.trans status'
  | succeeded _ _ whole outputs => exact ⟨_, whole, outputs⟩

variable (ports : adm.snapshot.DistinctPorts) (keyed : KeysDistinct adm.snapshot m) (admitted : admitGraph adm depth g = .ok m)

include ports keyed admitted in
/-- No attempt refuses what the attempts before it have left, unless that is a decision of a
loop that is neither true nor false. -/
theorem attempt_refuses (recorded : Recorded adm m hash conduct run (s.memory run)) (orderly : Orderly hash conduct run w lease)
    {d : Damage} (raised : (attempt adm m w lease cause s).1 = .error (.damage d)) :
    d = .unknownRun run ∨ ∃ l ∈ m.resolvedLoops, ∃ value, d = .notBoolean l.scope value := by
  obtain ⟨ordered, plan⟩ := exists_plan ports keyed admitted
  obtain ⟨-, raises, -⟩ := plan.ends (plan.coherent recorded) orderly cause
  rcases raises _ raised with (outside | ⟨pre, u, rest, x, d', split, -, undecided, same⟩) | lost
  · exact outside.elim
  · obtain ⟨l, found, value, rfl, named, -, -⟩ := undecided
    obtain rfl := Raised.damage.inj same
    exact .inr ⟨l, plan.loop_mem (split ▸ List.mem_append_right _ List.mem_cons_self), value, named⟩
  · exact .inl (Raised.damage.inj lost)

theorem attempt_refuses_counter : Damage.notBoolean ["g", "l"] .null = .unknownRun "r" ∨
    ∃ l ∈ counterManifest.resolvedLoops, ∃ value, Damage.notBoolean ["g", "l"] .null = .notBoolean l.scope value :=
  attempt_refuses counter_ports counter_keyed counter_admitted undecidedJournal_recorded (calmWorld_orderly .null)
    undecidedJournal_refused

/-- The status that what an attempt has collected calls for. -/
inductive Attempt.CallsFor (a : Attempt) : RunStatus → Prop
  | failed (why : a.failures.entries ≠ []) : a.CallsFor .failed
  | parked (clean : a.failures.entries = []) (why : a.parked ≠ []) : a.CallsFor .parked
  | cancelled : a.CallsFor .cancelled
  | succeeded (clean : a.failures.entries = []) (blocked : a.blocked = []) (parked : a.parked = []) : a.CallsFor .succeeded

end Attempts

end Walker

end Constructicon
