import Constructicon.Commands
import Constructicon.Library.Transaction

/-!
# Installing a merge

`install` moves the target and creates the marker of its key in one ref transaction, and
after a failed one reads both again, one after the other; `reconcile_install` asks for the
marker and then for ancestry. Other workers act between any two reads. The two agree as
long as the target, whenever `install` reads it again, is the merge commit or does not
contain it: `install` compares, where `reconcile_install` asks for ancestry.
-/

namespace Constructicon

open Transaction

abbrev GitSha := String

structure MergeSubject where
  repository : String
  targetRef : String
  candidate : GitSha
  expectedBase : GitSha
  mergeCommit : GitSha
  testedTree : GitSha
deriving DecidableEq, Repr

/-- The commits of one authority repository. An idempotency key digests its subject, and the
parents of a merge commit were verified before it is installed. -/
structure Commits where
  Ancestor : GitSha → GitSha → Prop
  decidable : DecidableRel Ancestor
  refl : ∀ a, Ancestor a a
  trans : ∀ {a b c}, Ancestor a b → Ancestor b c → Ancestor a c
  subject : Digest → MergeSubject
  based : ∀ key, Ancestor (subject key).expectedBase (subject key).mergeCommit

/-- Branch heads, and the marker of each idempotency key. -/
structure Refs where
  targets : String → Option GitSha
  markers : Digest → Option GitSha

inductive InstallPhase where
  | transact (second : Bool)
  | readMarker (second : Bool)
  | readTarget (second : Bool)
  | restore
deriving DecidableEq, Repr

inductive ReconcilePhase where
  | readMarker
  | readTarget
  | askAncestor
  | restore
deriving DecidableEq, Repr

/-- A call in progress, before its next command to git. -/
inductive AuthorityCall where
  | install (key : Digest) (phase : InstallPhase)
  | reconcile (key : Digest) (phase : ReconcilePhase)
deriving DecidableEq, Repr

inductive CallOutcome where
  | installed
  | notInstalled (foundBase : Option GitSha)
  | committed
  | absent
  | damaged
deriving DecidableEq, Repr

/-- What a call returned, and the refs at that moment. -/
structure Report where
  key : Digest
  outcome : CallOutcome
  refs : Refs

structure Authority where
  refs : Refs
  calls : ℕ → Option AuthorityCall
  reports : List Report

def Authority.start (targets : String → Option GitSha) : Authority :=
  ⟨⟨targets, fun _ => none⟩, fun _ => none, []⟩

section Authority

variable (c : Commits)

instance : DecidableRel c.Ancestor := c.decidable

/-- `is_ancestor(merge_commit, target_ref)` -/
def Commits.Contains (refs : Refs) (subject : MergeSubject) : Prop :=
  ∃ head ∈ refs.targets subject.targetRef, c.Ancestor subject.mergeCommit head

instance (refs : Refs) (subject : MergeSubject) : Decidable (c.Contains refs subject) :=
  inferInstanceAs (Decidable (∃ head ∈ refs.targets subject.targetRef, _))

def Refs.mark (refs : Refs) (key : Digest) (commit : GitSha) : Refs :=
  { refs with markers := Function.update refs.markers key (some commit) }

def Refs.move (refs : Refs) (ref : String) (commit : GitSha) : Refs :=
  { refs with targets := Function.update refs.targets ref (some commit) }

/-- `_ref_transaction` of `install`: move the target and create the marker, or neither. -/
def Commits.transaction (refs : Refs) (key : Digest) : Option Refs :=
  let subject := c.subject key
  if refs.targets subject.targetRef = some subject.expectedBase ∧ refs.markers key = none then
    some ((refs.move subject.targetRef subject.mergeCommit).mark key subject.mergeCommit)
  else none

/-- `reconcile_install`, undisturbed. -/
def Commits.reconcileInstall (refs : Refs) (key : Digest) : CallOutcome :=
  match refs.markers key with
  | some marker => if marker = (c.subject key).mergeCommit then .committed else .damaged
  | none => if c.Contains refs (c.subject key) then .committed else .absent

def Authority.goOn (a : Authority) (worker : ℕ) (call : AuthorityCall) : Authority :=
  { a with calls := Function.update a.calls worker (some call) }

def Authority.report (a : Authority) (worker : ℕ) (key : Digest) (outcome : CallOutcome) : Authority :=
  { a with
    calls := Function.update a.calls worker none
    reports := a.reports ++ [⟨key, outcome, a.refs⟩] }

/-- `update-ref marker merge_commit`; git may refuse it. -/
def Authority.restore (a : Authority) (key : Digest) (refused : Bool) : Authority :=
  if refused then a else { a with refs := a.refs.mark key (c.subject key).mergeCommit }

/-- One command of `install`. -/
def Authority.install (a : Authority) (worker : ℕ) (key : Digest) (refused : Bool) :
    InstallPhase → Authority
  | .transact second =>
    match if refused then none else c.transaction a.refs key with
    | some refs => { a with refs := refs }.report worker key .installed
    | none => a.goOn worker (.install key (.readMarker second))
  | .readMarker second =>
    if a.refs.markers key = some (c.subject key).mergeCommit then a.report worker key .installed
    else a.goOn worker (.install key (.readTarget second))
  | .readTarget second =>
    let current := a.refs.targets (c.subject key).targetRef
    if current = some (c.subject key).mergeCommit then a.goOn worker (.install key .restore)
    else if current ≠ some (c.subject key).expectedBase then
      a.report worker key (.notInstalled current)
    else if second then a.report worker key .damaged
    else a.goOn worker (.install key (.transact true))
  | .restore => (a.restore c key refused).report worker key .installed

/-- One command of `reconcile_install`. -/
def Authority.reconcile (a : Authority) (worker : ℕ) (key : Digest) (refused : Bool) :
    ReconcilePhase → Authority
  | .readMarker =>
    match a.refs.markers key with
    | some marker =>
      a.report worker key (if marker = (c.subject key).mergeCommit then .committed else .damaged)
    | none => a.goOn worker (.reconcile key .readTarget)
  | .readTarget =>
    match a.refs.targets (c.subject key).targetRef with
    | none => a.report worker key .absent
    | some head =>
      if head = (c.subject key).mergeCommit then a.goOn worker (.reconcile key .restore)
      else a.goOn worker (.reconcile key .askAncestor)
  | .askAncestor =>
    if c.Contains a.refs (c.subject key) then a.goOn worker (.reconcile key .restore)
    else a.report worker key .absent
  | .restore => (a.restore c key refused).report worker key .committed

inductive AuthorityEvent where
  | beginInstall (worker : ℕ) (key : Digest)
  | beginReconcile (worker : ℕ) (key : Digest)
  | act (worker : ℕ) (refused : Bool)
  /-- any other fast-forward of a branch -/
  | advance (ref : String) (head : GitSha)

def Authority.step (a : Authority) : AuthorityEvent → Authority
  | .beginInstall worker key =>
    if a.calls worker = none then a.goOn worker (.install key (.transact false)) else a
  | .beginReconcile worker key =>
    if a.calls worker = none then a.goOn worker (.reconcile key .readMarker) else a
  | .act worker refused =>
    match a.calls worker with
    | some (.install key phase) => a.install c worker key refused phase
    | some (.reconcile key phase) => a.reconcile c worker key refused phase
    | none => a
  | .advance ref head =>
    if ∀ old ∈ a.refs.targets ref, c.Ancestor old head then { a with refs := a.refs.move ref head }
    else a

/-- `install` reads a target that is the merge commit or does not contain it, and git
refuses no marker. -/
def Authority.Plain (a : Authority) : AuthorityEvent → Prop
  | .act worker refused =>
    match a.calls worker with
    | some (.install key (.readTarget _)) =>
      a.refs.targets (c.subject key).targetRef = some (c.subject key).mergeCommit ∨
        ¬c.Contains a.refs (c.subject key)
    | some (.install _ .restore) => refused = false
    | some (.reconcile _ .restore) => refused = false
    | _ => True
  | _ => True

end Authority

/-! ## Agreement -/

section Sound

variable {c : Commits} {a : Authority} {refs refs' : Refs} {worker : ℕ} {key : Digest}

structure Refs.Grows (c : Commits) (refs refs' : Refs) : Prop where
  heads : ∀ ref head, refs.targets ref = some head →
    ∃ head', refs'.targets ref = some head' ∧ c.Ancestor head head'
  markers : ∀ key m, refs.markers key = some m → refs'.markers key = some m

theorem Refs.Grows.contains (grows : refs.Grows c refs') {subject : MergeSubject}
    (h : c.Contains refs subject) : c.Contains refs' subject := by
  obtain ⟨head, found, below⟩ := h
  obtain ⟨head', found', further⟩ := grows.heads _ head found
  exact ⟨head', found', c.trans below further⟩

theorem Refs.contains_of_eq {subject : MergeSubject}
    (found : refs.targets subject.targetRef = some subject.mergeCommit) : c.Contains refs subject :=
  ⟨subject.mergeCommit, found, c.refl _⟩

/-- Every marker is its subject's merge commit, which the target contains; so is what a call
is about to mark. Reports told the truth. -/
structure Authority.Sound (c : Commits) (a : Authority) : Prop where
  marked : ∀ key m, a.refs.markers key = some m →
    m = (c.subject key).mergeCommit ∧ c.Contains a.refs (c.subject key)
  restoring : ∀ worker key, a.calls worker = some (.install key .restore) ∨
    a.calls worker = some (.reconcile key .restore) → c.Contains a.refs (c.subject key)
  accepted : ∀ r ∈ a.reports, r.outcome = .installed ∨ r.outcome = .committed →
    a.refs.markers r.key = some (c.subject r.key).mergeCommit
  rejected : ∀ r ∈ a.reports, ∀ found, r.outcome = .notInstalled found →
    ¬c.Contains r.refs (c.subject r.key) ∧ c.reconcileInstall r.refs r.key = .absent

theorem Authority.Sound.goOn (hs : a.Sound c) {call : AuthorityCall}
    (ready : ∀ key, call = .install key .restore ∨ call = .reconcile key .restore →
      c.Contains a.refs (c.subject key)) : (a.goOn worker call).Sound c := by
  refine ⟨hs.marked, ?_, hs.accepted, hs.rejected⟩
  intro worker' key calls
  change Function.update a.calls worker (some call) worker' = _ ∨
    Function.update a.calls worker (some call) worker' = _ at calls
  by_cases same : worker' = worker
  · subst same
    simp only [Function.update_self, Option.some.injEq] at calls
    exact ready key calls
  · simp only [Function.update_of_ne same] at calls
    exact hs.restoring worker' key calls

theorem Authority.Sound.report (hs : a.Sound c) {outcome : CallOutcome}
    (accepted : outcome = .installed ∨ outcome = .committed →
      a.refs.markers key = some (c.subject key).mergeCommit)
    (rejected : ∀ found, outcome = .notInstalled found →
      ¬c.Contains a.refs (c.subject key) ∧ c.reconcileInstall a.refs key = .absent) :
    (a.report worker key outcome).Sound c := by
  refine ⟨hs.marked, ?_, ?_, ?_⟩
  · intro worker' key calls
    change Function.update a.calls worker none worker' = _ ∨
      Function.update a.calls worker none worker' = _ at calls
    by_cases same : worker' = worker
    · subst same
      simp at calls
    · simp only [Function.update_of_ne same] at calls
      exact hs.restoring worker' key calls
  · intro r hr ok
    rcases List.mem_append.mp hr with old | new
    · exact hs.accepted r old ok
    · rw [List.mem_singleton.mp new] at ok ⊢
      exact accepted ok
  · intro r hr found not
    rcases List.mem_append.mp hr with old | new
    · exact hs.rejected r old found not
    · rw [List.mem_singleton.mp new] at not ⊢
      exact rejected found not

theorem Authority.Sound.grow (hs : a.Sound c) (grows : a.refs.Grows c refs')
    (marked : ∀ key m, refs'.markers key = some m → a.refs.markers key ≠ some m →
      m = (c.subject key).mergeCommit ∧ c.Contains refs' (c.subject key)) :
    Authority.Sound c { a with refs := refs' } := by
  refine ⟨?_, ?_, ?_, hs.rejected⟩
  · intro key m found
    by_cases old : a.refs.markers key = some m
    · obtain ⟨same, contained⟩ := hs.marked key m old
      exact ⟨same, grows.contains contained⟩
    · exact marked key m found old
  · intro worker key calls
    exact grows.contains (hs.restoring worker key calls)
  · intro r hr ok
    exact grows.markers _ _ (hs.accepted r hr ok)

theorem Refs.grows_mark (hs : a.Sound c) (key : Digest) :
    a.refs.Grows c (a.refs.mark key (c.subject key).mergeCommit) := by
  refine ⟨fun ref head found => ⟨head, found, c.refl _⟩, ?_⟩
  intro key' m found
  change Function.update a.refs.markers key _ key' = some m
  by_cases same : key' = key
  · subst same
    rw [Function.update_self, (hs.marked key' m found).1]
  · rw [Function.update_of_ne same]
    exact found

theorem Refs.grows_move {ref : String} {head : GitSha}
    (forward : ∀ old ∈ refs.targets ref, c.Ancestor old head) : refs.Grows c (refs.move ref head) := by
  refine ⟨?_, fun key m found => found⟩
  intro ref' old found
  change ∃ head', Function.update refs.targets ref (some head) ref' = some head' ∧ _
  by_cases same : ref' = ref
  · subst same
    exact ⟨head, Function.update_self .., forward old found⟩
  · rw [Function.update_of_ne same]
    exact ⟨old, found, c.refl _⟩

theorem Authority.Sound.mark (hs : a.Sound c) (contained : c.Contains a.refs (c.subject key)) :
    Authority.Sound c { a with refs := a.refs.mark key (c.subject key).mergeCommit } := by
  apply hs.grow (Refs.grows_mark hs key)
  intro key' m found new
  change Function.update a.refs.markers key _ key' = some m at found
  by_cases same : key' = key
  · subst same
    rw [Function.update_self] at found
    exact ⟨(Option.some.inj found).symm, contained⟩
  · rw [Function.update_of_ne same] at found
    exact absurd found new

theorem Refs.mark_self (refs : Refs) (key : Digest) (commit : GitSha) :
    (refs.mark key commit).markers key = some commit := Function.update_self ..

theorem Authority.Sound.transaction (hs : a.Sound c) (done : c.transaction a.refs key = some refs') :
    Authority.Sound c { a with refs := refs' } ∧
      refs'.markers key = some (c.subject key).mergeCommit := by
  unfold Commits.transaction at done
  dsimp only at done
  split_ifs at done with free
  cases done
  refine ⟨?_, Refs.mark_self _ _ _⟩
  have forward : ∀ old ∈ a.refs.targets (c.subject key).targetRef,
      c.Ancestor old (c.subject key).mergeCommit := by
    intro old found
    rw [free.1] at found
    cases found
    exact c.based key
  have moved : Authority.Sound c
      { a with refs := a.refs.move (c.subject key).targetRef (c.subject key).mergeCommit } := by
    apply hs.grow (Refs.grows_move forward)
    exact fun key' m found new => absurd found new
  apply moved.mark
  exact Refs.contains_of_eq (Function.update_self ..)

/-- Where the target does not contain the merge commit, `reconcile_install` finds nothing. -/
theorem Authority.Sound.absent (hs : a.Sound c) (out : ¬c.Contains a.refs (c.subject key)) :
    c.reconcileInstall a.refs key = .absent := by
  unfold Commits.reconcileInstall
  cases found : a.refs.markers key with
  | some m => exact absurd (hs.marked key m found).2 out
  | none => simp [out]

theorem Authority.Sound.install (hs : a.Sound c) (refused : Bool) (phase : InstallPhase)
    (calls : a.calls worker = some (.install key phase)) (plain : a.Plain c (.act worker refused)) :
    (a.install c worker key refused phase).Sound c := by
  cases phase with
  | transact second =>
    unfold Authority.install
    dsimp only
    split
    · rename_i refs' done
      have done : c.transaction a.refs key = some refs' := by
        split_ifs at done
        exact done
      obtain ⟨sound, marked⟩ := hs.transaction done
      exact sound.report (fun _ => marked) (by simp)
    · exact hs.goOn (by simp)
  | readMarker second =>
    unfold Authority.install
    dsimp only
    split_ifs with marked
    · exact hs.report (fun _ => marked) (by simp)
    · exact hs.goOn (by simp)
  | readTarget second =>
    simp only [Authority.Plain, calls] at plain
    unfold Authority.install
    dsimp only
    split_ifs with merged moved last
    · apply hs.goOn
      intro key' same
      simp only [AuthorityCall.install.injEq, reduceCtorEq, or_false, and_true] at same
      subst same
      exact Refs.contains_of_eq merged
    · have out : ¬c.Contains a.refs (c.subject key) := plain.resolve_left merged
      exact hs.report (by simp) (fun _ _ => ⟨out, hs.absent out⟩)
    · exact hs.report (by simp) (by simp)
    · exact hs.goOn (by simp)
  | restore =>
    simp only [Authority.Plain, calls] at plain
    subst plain
    have contained := hs.restoring worker key (.inl calls)
    exact (hs.mark contained).report (fun _ => Refs.mark_self _ _ _) (by simp)

theorem Authority.Sound.reconcile (hs : a.Sound c) (refused : Bool) (phase : ReconcilePhase)
    (calls : a.calls worker = some (.reconcile key phase)) (plain : a.Plain c (.act worker refused)) :
    (a.reconcile c worker key refused phase).Sound c := by
  have ready : c.Contains a.refs (c.subject key) →
      (a.goOn worker (.reconcile key .restore)).Sound c := by
    intro contained
    apply hs.goOn
    intro key' same
    simp only [reduceCtorEq, AuthorityCall.reconcile.injEq, false_or, and_true] at same
    exact same ▸ contained
  cases phase with
  | readMarker =>
    unfold Authority.reconcile
    cases found : a.refs.markers key with
    | some m =>
      have same := (hs.marked key m found).1
      dsimp only
      rw [if_pos same]
      exact hs.report (fun _ => same ▸ found) (by simp)
    | none => exact hs.goOn (by simp)
  | readTarget =>
    unfold Authority.reconcile
    cases found : a.refs.targets (c.subject key).targetRef with
    | none => exact hs.report (by simp) (by simp)
    | some head =>
      dsimp only
      split_ifs with merged
      · exact ready (Refs.contains_of_eq (merged ▸ found))
      · exact hs.goOn (by simp)
  | askAncestor =>
    unfold Authority.reconcile
    dsimp only
    split_ifs with contained
    · exact ready contained
    · exact hs.report (by simp) (by simp)
  | restore =>
    simp only [Authority.Plain, calls] at plain
    subst plain
    have contained := hs.restoring worker key (.inr calls)
    exact (hs.mark contained).report (fun _ => Refs.mark_self _ _ _) (by simp)

theorem Authority.Sound.step (hs : a.Sound c) (event : AuthorityEvent) (plain : a.Plain c event) :
    (a.step c event).Sound c := by
  cases event with
  | beginInstall worker key =>
    unfold Authority.step
    dsimp only
    split_ifs
    · exact hs.goOn (by simp)
    · exact hs
  | beginReconcile worker key =>
    unfold Authority.step
    dsimp only
    split_ifs
    · exact hs.goOn (by simp)
    · exact hs
  | act worker refused =>
    unfold Authority.step
    cases calls : a.calls worker with
    | none => simpa only [calls] using hs
    | some call =>
      cases call with
      | install key phase => simpa only [calls] using hs.install refused phase calls plain
      | reconcile key phase => simpa only [calls] using hs.reconcile refused phase calls plain
  | advance ref head =>
    unfold Authority.step
    dsimp only
    split_ifs with forward
    · exact hs.grow (Refs.grows_move forward) (fun key m found new => absurd found new)
    · exact hs

theorem Refs.Grows.refl (refs : Refs) : refs.Grows c refs :=
  ⟨fun _ head found => ⟨head, found, c.refl _⟩, fun _ _ found => found⟩

theorem Authority.Sound.grows_restore (hs : a.Sound c) (key : Digest) (refused : Bool) :
    a.refs.Grows c (a.restore c key refused).refs := by
  unfold Authority.restore
  split_ifs
  · exact .refl _
  · exact Refs.grows_mark hs key

theorem Authority.Sound.grows_transaction (hs : a.Sound c)
    (done : c.transaction a.refs key = some refs') : a.refs.Grows c refs' := by
  unfold Commits.transaction at done
  dsimp only at done
  split_ifs at done with free
  cases done
  have forward : ∀ old ∈ a.refs.targets (c.subject key).targetRef,
      c.Ancestor old (c.subject key).mergeCommit := by
    intro old found
    rw [free.1] at found
    cases found
    exact c.based key
  exact ⟨(Refs.grows_move forward).heads, (Refs.grows_mark hs key).markers⟩

theorem Authority.Sound.grows_install (hs : a.Sound c) (refused : Bool) (phase : InstallPhase) :
    a.refs.Grows c (a.install c worker key refused phase).refs := by
  cases phase with
  | transact second =>
    unfold Authority.install
    dsimp only
    split
    · rename_i refs' done
      split_ifs at done
      exact hs.grows_transaction done
    · exact .refl _
  | readMarker second =>
    unfold Authority.install
    dsimp only
    split_ifs <;> exact .refl _
  | readTarget second =>
    unfold Authority.install
    dsimp only
    split_ifs <;> exact .refl _
  | restore => exact hs.grows_restore key refused

theorem Authority.Sound.grows_reconcile (hs : a.Sound c) (refused : Bool) (phase : ReconcilePhase) :
    a.refs.Grows c (a.reconcile c worker key refused phase).refs := by
  cases phase with
  | readMarker =>
    unfold Authority.reconcile
    dsimp only
    split <;> exact .refl _
  | readTarget =>
    unfold Authority.reconcile
    dsimp only
    split
    · exact .refl _
    · split_ifs <;> exact .refl _
  | askAncestor =>
    unfold Authority.reconcile
    dsimp only
    split_ifs <;> exact .refl _
  | restore => exact hs.grows_restore key refused

theorem Authority.Sound.grows (hs : a.Sound c) (event : AuthorityEvent) :
    a.refs.Grows c (a.step c event).refs := by
  cases event with
  | beginInstall worker key =>
    unfold Authority.step
    dsimp only
    split_ifs <;> exact .refl _
  | beginReconcile worker key =>
    unfold Authority.step
    dsimp only
    split_ifs <;> exact .refl _
  | act worker refused =>
    unfold Authority.step
    dsimp only
    split
    · exact hs.grows_install refused _
    · exact hs.grows_reconcile refused _
    · exact .refl _
  | advance ref head =>
    unfold Authority.step
    dsimp only
    split_ifs with forward
    · exact Refs.grows_move forward
    · exact .refl _

theorem Authority.sound_start (c : Commits) (targets : String → Option GitSha) :
    (Authority.start targets).Sound c where
  marked := fun key m found => by simp [Authority.start] at found
  restoring := fun worker key calls => by simp [Authority.start] at calls
  accepted := fun r hr => by simp [Authority.start] at hr
  rejected := fun r hr => by simp [Authority.start] at hr

end Sound

/-- In every history in which `install` reads again only a target that is the merge commit or
does not contain it, and git refuses no marker: a rejected install is no part of the target
and reconciles as absent, an accepted one is marked, and a marker is its merge commit and
stays. -/
theorem install_reconcile_agree (c : Commits) (targets : String → Option GitSha) {a : Authority}
    (history : Guarded (Authority.Plain c) (Authority.step c) (.start targets) a) :
    (∀ r ∈ a.reports, ∀ found, r.outcome = .notInstalled found →
      ¬c.Contains r.refs (c.subject r.key) ∧ c.reconcileInstall r.refs r.key ≠ .committed) ∧
    (∀ r ∈ a.reports, r.outcome = .installed ∨ r.outcome = .committed →
      a.refs.markers r.key = some (c.subject r.key).mergeCommit) ∧
    ∀ key m, a.refs.markers key = some m → m = (c.subject key).mergeCommit ∧
      ∀ event, (a.step c event).refs.markers key = some m := by
  have hs : a.Sound c :=
    history.invariant (fun a event plain hs => Authority.Sound.step hs event plain)
      (Authority.sound_start c targets)
  refine ⟨?_, hs.accepted, ?_⟩
  · intro r hr found not
    obtain ⟨out, absent⟩ := hs.rejected r hr found not
    exact ⟨out, by simp [absent]⟩
  · intro key m found
    exact ⟨(hs.marked key m found).1, fun event => (hs.grows event).markers key m found⟩

section Overtaken

/-- One base, its merge, and a commit on top of the merge. -/
def threeCommits : Commits where
  Ancestor := fun a b => a = b ∨ a = "base" ∨ a = "merge" ∧ b = "top"
  decidable := fun _ _ => inferInstance
  refl := fun _ => .inl rfl
  trans := by
    rintro a b c (rfl | rfl | ⟨rfl, rfl⟩) (rfl | h | ⟨h, rfl⟩)
    all_goals simp_all
  subject := fun _ => ⟨"repository", "refs/heads/main", "candidate", "base", "merge", "tree"⟩
  based := fun _ => .inr (.inl rfl)

/-- One worker installs the merge, the target goes on, and a second worker installs the same
merge under another key. -/
def overtaken : List AuthorityEvent :=
  [.beginInstall 0 "k", .act 0 false, .advance "refs/heads/main" "top", .beginInstall 1 "l",
    .act 1 false, .act 1 false, .act 1 false]

def mainAtBase : Authority :=
  .start (fun ref => if ref = "refs/heads/main" then some "base" else none)

/-- One worker installs and another reconciles the same key. -/
theorem installed_marked :
    (mainAtBase.step threeCommits (.beginInstall 0 "k")).reports = [] ∧
      ∀ r ∈ ((mainAtBase.step threeCommits (.beginInstall 0 "k")).step threeCommits
        (.act 0 false)).reports, r.outcome = .installed ∨ r.outcome = .committed →
        ((mainAtBase.step threeCommits (.beginInstall 0 "k")).step threeCommits
          (.act 0 false)).refs.markers r.key = some "merge" := by
  have begun : Guarded (Authority.Plain threeCommits) (Authority.step threeCommits) mainAtBase
      (mainAtBase.step threeCommits (.beginInstall 0 "k")) := .call _ .refl trivial
  have installed := begun.call (AuthorityEvent.act 0 false) trivial
  exact ⟨rfl, (install_reconcile_agree threeCommits _ installed).2.1⟩

/-- A rejected install whose merge commit the target contains, and which reconciles as
committed. -/
theorem rejected_installed :
    ∃ r ∈ (overtaken.foldl (Authority.step threeCommits) mainAtBase).reports,
      r.outcome = .notInstalled (some "top") ∧
        threeCommits.Contains r.refs (threeCommits.subject r.key) ∧
        threeCommits.reconcileInstall r.refs r.key = .committed := by
  refine ⟨_, List.mem_of_getElem? (i := 1) rfl, rfl, ?_, ?_⟩
  · decide
  · decide

end Overtaken

end Constructicon
