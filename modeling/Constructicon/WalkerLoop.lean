import Constructicon.WalkerSteps

/-!
# A loop of an attempt

In one iteration the members run up to the first that does not complete; in a loop the
iterations follow one another until one decides to stop. Wherever an attempt leaves a
loop, the next one finds its history in order.
-/

namespace Constructicon.Walker

open Transaction

/-! ## Reports -/

section Reports

variable {producer : String → Option ScopePath} {iterations : List IterationFrame}
  {statuses : Dict ScopePath InvocationStatus} {bound : List ResolvedPortBinding} {destination : ExecutionPath}

theorem waits_iff : (DependencyReport.mk destination (reportProducers producer iterations statuses bound)).waits = true ↔
    ∃ b ∈ bound, ∃ a ∈ b.sources, ∃ scope, producer (addressKey a) = some scope ∧
      statuses.getD scope .queued ≠ .completed := by
  unfold DependencyReport.waits reportProducers
  rw [List.any_eq_true]
  constructor
  · rintro ⟨status, mem, waits⟩
    obtain ⟨scope, listed, rfl⟩ := List.mem_map.mp mem
    obtain ⟨a, source, found⟩ := List.mem_filterMap.mp (List.mem_eraseDups.mp listed)
    obtain ⟨b, inside, source⟩ := List.mem_flatMap.mp source
    exact ⟨b, inside, a, source, scope, found, of_decide_eq_true waits⟩
  · rintro ⟨b, inside, a, source, scope, found, waits⟩
    refine ⟨⟨⟨scope, iterations⟩, statuses.getD scope .queued⟩, List.mem_map.mpr ⟨scope, ?_, rfl⟩, decide_eq_true waits⟩
    exact List.mem_eraseDups.mpr (List.mem_filterMap.mpr ⟨a, List.mem_flatMap.mpr ⟨b, inside, source⟩, found⟩)

end Reports

/-! ## The attempt's own notes -/

section Notes

variable {run : RunId} {v : View} {E : Raised → Attempt → Prop}

theorem addFailure_spec (unit error : String) : Proc.Triple (Seen run v) (addFailure unit error)
    (fun _ => Seen run { v with failures := v.failures.insert unit error }) E := by
  refine Proc.Triple.update fun s seen => ?_
  rw [Seen, ← seen]
  rfl

theorem addParked_spec (u : ParkedUnit) : Proc.Triple (Seen run v) (addParked u)
    (fun _ => Seen run { v with parked := v.parked ++ [u] }) E := by
  refine Proc.Triple.update fun s seen => ?_
  rw [Seen, ← seen]
  rfl

theorem block_spec {c : Context} (quiet : c.world.Quiet run) (loop : Bool) (r : DependencyReport) :
    Proc.Triple (Seen run v) (block c loop r) (fun _ => Seen run { v with blocked := v.blocked ++ [r] })
      (Undone run { v with blocked := v.blocked ++ [r] }) := by
  refine Proc.Triple.bind (Q := fun _ => Seen run { v with blocked := v.blocked ++ [r] }) ?_ fun _ => notice_spec quiet _
  refine Proc.Triple.update fun s seen => ?_
  rw [Seen, ← seen]
  rfl

theorem troubled_failure (v : View) (unit error : String) :
    Troubled { v with failures := v.failures.insert unit error } := by
  left
  intro empty
  have found := Dict.mem_of_get? (Dict.get?_insert_self v.failures unit error)
  rw [empty] at found
  cases found

theorem troubled_parked (v : View) (u : ParkedUnit) : Troubled { v with parked := v.parked ++ [u] } :=
  .inr (by simp)

end Notes

/-- At most reports of blocked units have been added. -/
structure Idle (v v' : View) : Prop where
  memory : v'.memory = v.memory
  calls : v'.calls = v.calls
  failures : v'.failures = v.failures
  parked : v'.parked = v.parked

theorem Idle.refl (v : View) : Idle v v := ⟨rfl, rfl, rfl, rfl⟩

theorem Idle.trans {v v' v'' : View} (h : Idle v v') (h' : Idle v' v'') : Idle v v'' :=
  ⟨h'.memory.trans h.memory, h'.calls.trans h.calls, h'.failures.trans h.failures, h'.parked.trans h.parked⟩

theorem Idle.blocked (v : View) (r : DependencyReport) : Idle v { v with blocked := v.blocked ++ [r] } :=
  ⟨rfl, rfl, rfl, rfl⟩

theorem Idle.troubled {v v' : View} (h : Idle v v') (troubled : Troubled v) : Troubled v' := by
  rw [Troubled, h.failures, h.parked]
  exact troubled

/-! ## One member -/

section Members

variable {c : Context} {conduct : Conduct} {v : View} {l : LoopResolution} {producers : Dict String Instance}
  {index : ℕ} {it : Iteration} {i : Instance}

/-- How a member of a live iteration leaves it. -/
inductive MemberRun (p : Shared) (l : LoopResolution) (index : ℕ) (i : Instance) (it : Iteration) (v : View) :
    Option Iteration → View → Prop
  | through {k : Checkpoint} {it' : Iteration} {v' : View} (known : v'.memory (iterationPath l i.scope index) = some k)
      (explained : Explained p i k it.values it'.values) (grew : Grew {iterationPath l i.scope index} v v')
      (ledger : v'.ledger = v.ledger) (live : it'.failed = false)
      (marked : it'.statuses = it.statuses.insert i.scope .completed) : MemberRun p l index i it v (some it') v'
  | broken {o : Option Iteration} {v' : View} (dead : ∀ it', o = some it' → it'.failed = true)
      (was : v.memory (iterationPath l i.scope index) = none) (absent : v'.memory (iterationPath l i.scope index) = none)
      (grew : Grew {iterationPath l i.scope index} v v') (troubled : Troubled v') : MemberRun p l index i it v o v'

variable (quiet : c.world.Quiet c.lease.runId)

include quiet

theorem turn_begins {α : Type} {next : Walk α} {Q : α → Attempt → Prop} {E : Raised → View → Prop}
    (struck : ∀ e : Raised, e.Outside → E e v)
    (h : Proc.Triple (Seen c.lease.runId v) next Q fun e s => E e (s.view c.lease.runId)) :
    Proc.Triple (Seen c.lease.runId v) (do pause c; checkRunControl c; next) Q
      fun e s => E e (s.view c.lease.runId) := by
  have undone : ∀ e s, Undone c.lease.runId v e s → E e (s.view c.lease.runId) := by
    rintro e s ⟨seen, outside⟩
    exact seen.view (P := E e) (struck e outside)
  exact Proc.Triple.bind (pause_spec.relax undone) fun _ =>
    Proc.Triple.bind ((checkRunControl_spec quiet).relax undone) fun _ => h

theorem settleMember_run {x x' : Values} {outcome : UnitOutcome} {w : View} (live : it.failed = false)
    (came : Came (c.shared conduct) i (iterationPath l i.scope index) x v outcome x' w) (start : Iteration)
    (from_ : start.values = x) (same : it.values = x') (statuses : it.statuses = start.statuses) :
    Proc.Triple (Seen c.lease.runId w) (settleMember c l index i.scope it outcome)
      (fun o s => MemberRun (c.shared conduct) l index i start v o (s.view c.lease.runId))
      (fun e s => e.Outside ∧ Struck (c.shared conduct) i (iterationPath l i.scope index) x v (s.view c.lease.runId)) := by
  cases came with
  | through known explained grew ledger =>
    subst from_ same
    refine Proc.Triple.answer fun s seen => seen.view (P := MemberRun (c.shared conduct) l index i start v _) ?_
    exact .through known explained grew ledger live (by rw [← statuses]; rfl)
  | stopped was absent stop grew ledger =>
    cases outcome with
    | completed => exact stop.elim
    | parked u =>
      refine Proc.Triple.bind (addParked_spec u) fun _ => ?_
      refine Proc.Triple.bind ((notice_spec quiet _).relax ?_) fun _ => ?_
      · rintro e s ⟨seen, outside⟩
        refine ⟨outside, seen.view (P := Struck (c.shared conduct) i _ _ v) ⟨grew.before rfl rfl, ?_⟩⟩
        exact fun k known => absurd (absent.symm.trans known) (by simp)
      · refine Proc.Triple.answer fun s seen => seen.view (P := MemberRun (c.shared conduct) l index i start v none) ?_
        exact .broken (fun _ same => by cases same) was absent (grew.before rfl rfl) (troubled_parked w u)
    | failed error =>
      refine Proc.Triple.bind (addFailure_spec _ _) fun _ => Proc.Triple.answer fun s seen => ?_
      refine seen.view (P := MemberRun (c.shared conduct) l index i start v _) ?_
      refine .broken (fun it' same => ?_) was absent (grew.before rfl rfl) (troubled_failure w _ error)
      cases same
      rfl

theorem runMember_run (obeys : c.world.Obeys conduct) (known : c.byScope.get? i.scope = some i)
    (live : it.failed = false)
    (ready : (memberDependencyReport c.bindings producers ⟨l.scope, index⟩ it.statuses i).waits = false)
    {inputs : Dict String Json} (inputs_ok : nodeInputs c.bindings it.values i = .ok inputs)
    (explained : ∀ k, v.memory (iterationPath l i.scope index) = some k →
      ∃ x', Explained (c.shared conduct) i k it.values x') :
    Proc.Triple (Seen c.lease.runId v) (runMember c l producers index i.scope it)
      (fun o s => MemberRun (c.shared conduct) l index i it v o (s.view c.lease.runId))
      (fun e s => e.Outside ∧
        Struck (c.shared conduct) i (iterationPath l i.scope index) it.values v (s.view c.lease.runId)) := by
  have still : Struck (c.shared conduct) i (iterationPath l i.scope index) it.values v v := ⟨.refl, explained⟩
  refine turn_begins quiet (E := fun e w => e.Outside ∧
    Struck (c.shared conduct) i (iterationPath l i.scope index) it.values v w) (fun e outside => ⟨outside, still⟩) ?_
  refine Proc.Triple.bind (checked_spec (expect_eq_ok.mpr known)) fun i' => Proc.Triple.pure_left fun same => ?_
  subst same
  refine Proc.Triple.ite (fun dead => absurd (live.symm.trans dead) Bool.false_ne_true) fun _ => ?_
  refine Proc.Triple.ite (fun waits => absurd (ready.symm.trans waits) Bool.false_ne_true) fun _ => ?_
  refine Proc.Triple.bind ((checkpoint_spec quiet _).relax ?_) fun had => Proc.Triple.pure_right fun _ => ?_
  · rintro e s ⟨seen, outside⟩
    exact ⟨outside, seen.view (P := Struck (c.shared conduct) i' _ _ v) still⟩
  refine Proc.Triple.bind (executeOrRestore_came quiet obeys inputs_ok explained) fun outcome => ?_
  refine triple_of_view (P := fun w => Came (c.shared conduct) i' _ it.values v outcome.1 outcome.2 w) fun w came => ?_
  have live' : ({ it with values := outcome.2, restoredOnly := it.restoredOnly && had.isSome,
                          executedAny := it.executedAny || !had.isSome } : Iteration).failed = false := live
  exact settleMember_run quiet live' came it rfl rfl rfl

theorem runMember_dead (known : c.byScope.get? i.scope = some i) (dead : it.failed = true) :
    Proc.Triple (Seen c.lease.runId v) (runMember c l producers index i.scope it)
      (fun o s => (∃ it', o = some it' ∧ it'.failed = true) ∧ Idle v (s.view c.lease.runId))
      (fun e s => e.Outside ∧ Idle v (s.view c.lease.runId)) := by
  refine turn_begins quiet (E := fun e w => e.Outside ∧ Idle v w) (fun e outside => ⟨outside, .refl v⟩) ?_
  refine Proc.Triple.bind (checked_spec (expect_eq_ok.mpr known)) fun i' => Proc.Triple.pure_left fun same => ?_
  subst same
  refine Proc.Triple.ite (fun _ => ?_) fun live => absurd dead live
  refine Proc.Triple.ite (fun _ => ?_) fun _ => ?_
  · refine Proc.Triple.bind ((block_spec quiet false _).relax ?_) fun _ => Proc.Triple.answer fun s seen => ?_
    · rintro e s ⟨seen, outside⟩
      exact ⟨outside, seen.view (P := Idle v) (.blocked v _)⟩
    · exact ⟨⟨_, rfl, dead⟩, seen.view (P := Idle v) (.blocked v _)⟩
  · refine Proc.Triple.bind ((notice_spec quiet _).relax ?_) fun _ => Proc.Triple.answer fun s seen => ?_
    · rintro e s ⟨seen, outside⟩
      exact ⟨outside, seen.view (P := Idle v) (.refl v)⟩
    · exact ⟨⟨_, rfl, dead⟩, seen.view (P := Idle v) (.refl v)⟩

end Members

/-! ## One iteration -/

theorem iterationPath_inj {l : LoopResolution} {scope scope' : ScopePath} {index index' : ℕ} :
    iterationPath l scope index = iterationPath l scope' index' ↔ scope = scope' ∧ index = index' := by
  simp [iterationPath]

/-- The invocations of some members in one iteration. -/
def rowPaths (l : LoopResolution) (index : ℕ) (found : List Instance) : Set ExecutionPath :=
  {path | ∃ i ∈ found, path = iterationPath l i.scope index}

/-- How a live iteration is left by the rest of its members. -/
inductive RowRun (p : Shared) (l : LoopResolution) (index : ℕ) (rest : List Instance) (x : Values) (v : View) :
    Option Iteration → View → Prop
  | through {it : Iteration} {v' : View} (live : it.failed = false)
      (row : RowState p (rowOf v'.memory l index) rest x (some it.values)) (grew : Grew (rowPaths l index rest) v v')
      (ledger : v'.ledger = v.ledger) : RowRun p l index rest x v (some it) v'
  | broken {o : Option Iteration} {v' : View} (dead : ∀ it, o = some it → it.failed = true)
      (row : RowState p (rowOf v'.memory l index) rest x none) (grew : Grew (rowPaths l index rest) v v')
      (troubled : Troubled v') : RowRun p l index rest x v o v'

structure RowCut (p : Shared) (l : LoopResolution) (index : ℕ) (rest : List Instance) (x : Values) (v v' : View) :
    Prop where
  grew : Grew (rowPaths l index rest) v v'
  row : ∃ final, RowState p (rowOf v'.memory l index) rest x final

section Rows

variable {p : Shared} {l : LoopResolution} {index : ℕ} {i : Instance} {rest : List Instance} {x x' : Values} {v v' v'' : View}

theorem row_tail {row row' : ScopePath → Option Checkpoint} {final : Option Values} {k : Checkpoint}
    (h : RowState p row (i :: rest) x final) (known : row' i.scope = some k) (explained : Explained p i k x x')
    (kept : ∀ k, row i.scope = some k → row' i.scope = some k) (same : ∀ j ∈ rest, row' j.scope = row j.scope) :
    ∃ final, RowState p row' rest x' final := by
  cases h with
  | stops absent =>
    cases rest with
    | nil => exact ⟨_, .complete x'⟩
    | cons j rest =>
      exact ⟨none, .stops fun j' mem => (same j' mem).trans (absent j' (List.mem_cons_of_mem _ mem))⟩
  | plays known' explained' later =>
    obtain rfl := Option.some.inj ((kept _ known').symm.trans known)
    obtain rfl := explained'.unique explained
    exact ⟨_, later.frame same⟩

theorem row_rests {row row' : ScopePath → Option Checkpoint} {final : Option Values}
    (h : RowState p row (i :: rest) x final) (was : row i.scope = none) (absent : row' i.scope = none)
    (same : ∀ j ∈ rest, row' j.scope = row j.scope) : RowState p row' (i :: rest) x none := by
  cases h with
  | stops blank =>
    refine .stops fun j mem => ?_
    rcases List.mem_cons.mp mem with rfl | mem
    · exact absent
    · exact (same j mem).trans (blank j (List.mem_cons_of_mem _ mem))
  | plays known => cases was.symm.trans known

theorem Grew.row_same (h : Grew {iterationPath l i.scope index} v v') (other : i.scope ∉ rest.map Instance.scope) :
    ∀ j ∈ rest, rowOf v'.memory l index j.scope = rowOf v.memory l index j.scope := by
  intro j mem
  refine h.elsewhere _ fun same => other ?_
  rw [← (iterationPath_inj.mp same).1]
  exact List.mem_map_of_mem mem

theorem Grew.row_cons (h : Grew {iterationPath l i.scope index} v v') (h' : Grew (rowPaths l index rest) v' v'')
    (other : i.scope ∉ rest.map Instance.scope) : Grew (rowPaths l index (i :: rest)) v v'' := by
  refine (h.trans h' ?_).mono ?_
  · rw [Set.disjoint_singleton_left]
    rintro ⟨j, mem, same⟩
    exact other ((iterationPath_inj.mp same).1 ▸ List.mem_map_of_mem mem)
  · rintro path (rfl | ⟨j, mem, rfl⟩)
    · exact ⟨i, List.mem_cons_self, rfl⟩
    · exact ⟨j, List.mem_cons_of_mem _ mem, rfl⟩

theorem Grew.row_head (h : Grew {iterationPath l i.scope index} v v') : Grew (rowPaths l index (i :: rest)) v v' :=
  h.mono (by rintro path rfl; exact ⟨i, List.mem_cons_self, rfl⟩)

end Rows

section Iterations

variable {c : Context} {conduct : Conduct} {l : LoopResolution} {index : ℕ} {found : List Instance}

variable (quiet : c.world.Quiet c.lease.runId)

include quiet

theorem runMembers_dead {producers : Dict String Instance} {rest : List Instance}
    (known : ∀ i ∈ rest, c.byScope.get? i.scope = some i) {it : Iteration} {v : View} (dead : it.failed = true) :
    Proc.Triple (Seen c.lease.runId v) (runMembers c l producers index (rest.map Instance.scope) it)
      (fun o s => (∃ it', o = some it' ∧ it'.failed = true) ∧ Idle v (s.view c.lease.runId))
      (fun e s => e.Outside ∧ Idle v (s.view c.lease.runId)) := by
  induction rest generalizing it v with
  | nil => exact Proc.Triple.answer fun s seen => ⟨⟨it, rfl, dead⟩, seen.view (P := Idle v) (.refl v)⟩
  | cons i rest ih =>
    refine Proc.Triple.bind (runMember_dead quiet (known i List.mem_cons_self) dead) fun o => ?_
    refine Proc.Triple.pure_left fun still => triple_of_view (P := Idle v) fun w idle => ?_
    obtain ⟨it', rfl, dead'⟩ := still
    refine ((ih (fun j mem => known j (List.mem_cons_of_mem _ mem)) dead').strengthen ?_).relax ?_
    · exact fun o s ended => ⟨ended.1, idle.trans ended.2⟩
    · exact fun e s ended => ⟨ended.1, idle.trans ended.2⟩

omit quiet in
theorem member_ready (wired : LoopWired (c.shared conduct) l found) {pre rest : List Instance} {i : Instance}
    (split : found = pre ++ i :: rest) {it : Iteration}
    (completed : ∀ j ∈ pre, it.statuses.get? j.scope = some .completed) :
    (memberDependencyReport c.bindings (memberProducerIndex found) ⟨l.scope, index⟩ it.statuses i).waits = false := by
  rw [← Bool.not_eq_true]
  intro waits
  obtain ⟨b, bound, a, source, scope, produced, waiting⟩ := waits_iff.mp waits
  obtain ⟨w, indexed, rfl⟩ := Option.map_eq_some_iff.mp produced
  rw [Dict.getD, completed w (wired.behind pre i rest split b bound a source w indexed)] at waiting
  exact waiting rfl

theorem runMembers_run (obeys : c.world.Obeys conduct) (wired : LoopWired (c.shared conduct) l found)
    {rest pre : List Instance} (split : found = pre ++ rest) {it : Iteration} {v : View} {final : Option Values}
    (live : it.failed = false) (row : RowState (c.shared conduct) (rowOf v.memory l index) rest it.values final)
    (held : Holding it.values (seedKeys l ++ pre.flatMap outputKeys))
    (completed : ∀ j ∈ pre, it.statuses.get? j.scope = some .completed) :
    Proc.Triple (Seen c.lease.runId v) (runMembers c l (memberProducerIndex found) index (rest.map Instance.scope) it)
      (fun o s => RowRun (c.shared conduct) l index rest it.values v o (s.view c.lease.runId))
      (fun e s => e.Outside ∧ RowCut (c.shared conduct) l index rest it.values v (s.view c.lease.runId)) := by
  induction rest generalizing pre it v final with
  | nil =>
    refine Proc.Triple.answer fun s seen => seen.view (P := RowRun _ l index [] it.values v (some it)) ?_
    exact .through live (.complete _) .refl rfl
  | cons i rest ih =>
    have mem : i ∈ found := split ▸ List.mem_append_right _ List.mem_cons_self
    have other : i.scope ∉ rest.map Instance.scope := by
      have distinct := wired.distinct
      rw [← wired.members.order, split, List.map_append, List.map_cons, List.nodup_append] at distinct
      exact (List.nodup_cons.mp distinct.2.1).1
    have knowns : ∀ j ∈ rest, c.byScope.get? j.scope = some j := fun j inside =>
      wired.members.known j (split ▸ List.mem_append_right _ (List.mem_cons_of_mem _ inside))
    have explained : ∀ k, v.memory (iterationPath l i.scope index) = some k →
        ∃ x', Explained (c.shared conduct) i k it.values x' := by
      intro k known
      cases row with
      | stops absent => cases (absent i List.mem_cons_self).symm.trans known
      | plays known' explained _ =>
        obtain rfl := Option.some.inj (known'.symm.trans known)
        exact ⟨_, explained⟩
    obtain ⟨inputs, ready⟩ := nodeInputs_ok (wired.shaped i mem) fun b bound =>
      held.available (wired.body pre i rest split b bound)
    refine Proc.Triple.bind ((runMember_run quiet obeys (wired.members.known i mem) live
      (member_ready wired split completed) ready explained).relax ?_) fun o =>
        triple_of_view (P := MemberRun (c.shared conduct) l index i it v o) fun w ran => ?_
    · -- the exception of a member
      rintro e s ⟨outside, struck⟩
      refine ⟨outside, struck.grew.row_head, ?_⟩
      have same := struck.grew.row_same other
      cases recorded : (s.view c.lease.runId).memory (iterationPath l i.scope index) with
      | none =>
        have was : v.memory (iterationPath l i.scope index) = none := by
          by_contra known
          obtain ⟨k, known⟩ := Option.ne_none_iff_exists'.mp known
          cases (struck.grew.kept _ _ known).symm.trans recorded
        exact ⟨none, row_rests row was recorded same⟩
      | some k =>
        obtain ⟨x', clear⟩ := struck.explained k recorded
        obtain ⟨final', tail⟩ := row_tail row recorded clear (fun k known => struck.grew.kept _ k known) same
        exact ⟨final', .plays recorded clear tail⟩
    · cases ran with
      | @through k it' w known clear grew ledger live' marked =>
        obtain ⟨final', tail⟩ := row_tail row known clear (fun k known => grew.kept _ k known) (grew.row_same other)
        have held' : Holding it'.values (seedKeys l ++ (pre ++ [i]).flatMap outputKeys) := by
          have published := held.published (publishes_atomic clear.published)
          rw [List.append_assoc] at published
          rw [List.flatMap_append, List.flatMap_singleton]
          exact published
        have completed' : ∀ j ∈ pre ++ [i], it'.statuses.get? j.scope = some .completed := by
          intro j inside
          rw [marked, Dict.get?_insert]
          split_ifs with here
          · rfl
          · rcases List.mem_append.mp inside with inside | last
            · exact completed j inside
            · exact absurd (congrArg Instance.scope (List.mem_singleton.mp last)).symm here
        refine ((ih (by rw [split, List.append_assoc]; rfl) live' tail held' completed').strengthen ?_).relax ?_
        · intro o s ended
          cases ended with
          | through live'' row' grew' ledger' =>
            refine .through live'' (.plays (grew'.kept _ _ known) clear row') (grew.row_cons grew' other) ?_
            exact ledger'.trans ledger
          | broken dead row' grew' troubled =>
            exact .broken dead (.plays (grew'.kept _ _ known) clear row') (grew.row_cons grew' other) troubled
        · rintro e s ⟨outside, cut⟩
          obtain ⟨final'', row'⟩ := cut.row
          exact ⟨outside, grew.row_cons cut.grew other, final'', .plays (cut.grew.kept _ _ known) clear row'⟩
      | broken dead was absent grew troubled =>
        have rests := row_rests row was absent (grew.row_same other)
        cases o with
        | none =>
          refine Proc.Triple.answer fun s seen => seen.view (P := RowRun _ l index (i :: rest) it.values v none) ?_
          exact .broken (fun _ same => by cases same) rests grew.row_head troubled
        | some it' =>
          refine ((runMembers_dead quiet knowns (dead it' rfl)).strengthen ?_).relax ?_
          · rintro o s ⟨⟨it'', rfl, dead'⟩, idle⟩
            refine .broken (fun _ same => by cases same; exact dead') ?_ (grew.row_head.before idle.memory idle.calls)
              (idle.troubled troubled)
            rw [idle.memory]
            exact rests
          · rintro e s ⟨outside, idle⟩
            refine ⟨outside, grew.row_head.before idle.memory idle.calls, none, ?_⟩
            rw [idle.memory]
            exact rests

end Iterations

/-! ## The iterations -/

/-- The invocations of a loop from iteration `index` on. -/
def fromPaths (l : LoopResolution) (found : List Instance) (index : ℕ) : Set ExecutionPath :=
  {path | ∃ i ∈ found, ∃ later ≥ index, path = iterationPath l i.scope later}

/-- How a loop is left by its iterations from `index` on. -/
inductive LoopRun (p : Shared) (l : LoopResolution) (found : List Instance) (outer : Values) (remaining index : ℕ)
    (previous : Option Values) (v : View) : InvocationStatus → Values → View → Prop
  | through {final outer' : Values} {v' : View}
      (state : LoopState p v'.memory l found outer remaining index previous (.done final))
      (published : publishLoopExports l final outer = .ok outer') (grew : Grew (fromPaths l found index) v v')
      (ledger : v'.ledger = v.ledger) : LoopRun p l found outer remaining index previous v .completed outer' v'
  | stopped {status : InvocationStatus} {e : LoopEnd} {v' : View} (other : status ≠ .completed)
      (state : LoopState p v'.memory l found outer remaining index previous e) (unfinished : ∀ final, e ≠ .done final)
      (grew : Grew (fromPaths l found index) v v') (troubled : Troubled v') :
      LoopRun p l found outer remaining index previous v status outer v'

structure LoopCut (p : Shared) (l : LoopResolution) (found : List Instance) (outer : Values) (remaining index : ℕ)
    (previous : Option Values) (v v' : View) : Prop where
  grew : Grew (fromPaths l found index) v v'
  state : ∃ e, LoopState p v'.memory l found outer remaining index previous e

section Growing

variable {p : Shared} {l : LoopResolution} {found : List Instance} {outer x : Values} {remaining index : ℕ}
  {v v' v'' : View}

theorem Grew.row (h : Grew (rowPaths l index found) v v') : Grew (fromPaths l found index) v v' :=
  h.mono (by rintro path ⟨i, mem, rfl⟩; exact ⟨i, mem, index, le_rfl, rfl⟩)

theorem Grew.rows (h : Grew (rowPaths l index found) v v') (h' : Grew (fromPaths l found (index + 1)) v' v'') :
    Grew (fromPaths l found index) v v'' := by
  refine (h.trans h' ?_).mono ?_
  · refine Set.disjoint_left.mpr ?_
    rintro path ⟨i, -, rfl⟩ ⟨j, -, later, from_, same⟩
    have := (iterationPath_inj.mp same).2
    omega
  · rintro path (⟨i, mem, rfl⟩ | ⟨i, mem, later, from_, rfl⟩)
    · exact ⟨i, mem, index, le_rfl, rfl⟩
    · exact ⟨i, mem, later, Nat.le_of_succ_le from_, rfl⟩

theorem Grew.beyond (h : Grew (rowPaths l index found) v v') :
    ∀ later ≥ index + 1, ∀ i ∈ found, rowOf v'.memory l later i.scope = rowOf v.memory l later i.scope := by
  intro later from_ i _
  refine h.elsewhere _ ?_
  rintro ⟨j, -, same⟩
  have := (iterationPath_inj.mp same).2
  omega

theorem Grew.earlier (h : Grew (fromPaths l found (index + 1)) v v') :
    ∀ i ∈ found, rowOf v'.memory l index i.scope = rowOf v.memory l index i.scope := by
  intro i _
  refine h.elsewhere _ ?_
  rintro ⟨j, -, later, from_, same⟩
  have := (iterationPath_inj.mp same).2
  omega

theorem Blank.state {M : Memory} {previous : Option Values} (h : Blank M l found index) :
    ∃ e, LoopState p M l found outer remaining index previous e := by
  cases remaining with
  | zero => exact ⟨_, .exhausted⟩
  | succ remaining => exact ⟨_, .blank h⟩

theorem Behind.grown {final final' : Option Values} {e : LoopEnd}
    (h : Behind p v.memory l found outer remaining index final e) (row : RowState p (rowOf v.memory l index) found x final)
    (grew : Grew (rowPaths l index found) v v') (row' : RowState p (rowOf v'.memory l index) found x final') :
    ∃ e', Behind p v'.memory l found outer remaining index final' e' := by
  have stays : ∀ f, final = some f → final' = some f := by
    rintro f rfl
    exact row'.unique (row.grow fun scope k => grew.kept _ k)
  cases h with
  | rests blank =>
    have blank' := blank.frame grew.beyond
    cases final' with
    | none => exact ⟨_, .rests blank'⟩
    | some f =>
      cases decision : loopDecision l f with
      | error d => exact ⟨_, .undecided decision blank'⟩
      | ok goes =>
        cases goes with
        | true =>
          obtain ⟨e, state⟩ : ∃ e, LoopState p v'.memory l found outer remaining (index + 1) (some f) e := blank'.state
          exact ⟨e, .goes decision state⟩
        | false => exact ⟨_, .done decision blank'⟩
  | @undecided f d decision blank =>
    obtain rfl := stays f rfl
    exact ⟨_, .undecided decision (blank.frame grew.beyond)⟩
  | @goes f e decision later =>
    obtain rfl := stays f rfl
    exact ⟨e, .goes decision (later.frame grew.beyond)⟩
  | @done f decision blank =>
    obtain rfl := stays f rfl
    exact ⟨_, .done decision (blank.frame grew.beyond)⟩

end Growing

section Loops

variable {c : Context} {conduct : Conduct} {l : LoopResolution} {found : List Instance} {outer : Values}

variable (quiet : c.world.Quiet c.lease.runId)

include quiet

theorem finishLoop_run (wired : LoopWired (c.shared conduct) l found) {remaining index : ℕ} {previous : Option Values}
    {v w : View} {it : Iteration} (held : Holding it.values (innerKeys l found))
    (state : LoopState (c.shared conduct) w.memory l found outer remaining index previous (.done it.values))
    (grew : Grew (fromPaths l found index) v w) (ledger : w.ledger = v.ledger) (n : ℕ) :
    Proc.Triple (Seen c.lease.runId w) (finishLoop c l n it outer)
      (fun o s => LoopRun (c.shared conduct) l found outer remaining index previous v o.1 o.2 (s.view c.lease.runId))
      (fun e s => e.Outside ∧ LoopCut (c.shared conduct) l found outer remaining index previous v (s.view c.lease.runId)) := by
  obtain ⟨outer', published⟩ := publishLoopExports_ok
    (fun e mem => ⟨held.available (wired.exports e mem).2, (wired.exports e mem).1⟩) outer
  refine Proc.Triple.bind (checked_spec published) fun outer'' => Proc.Triple.pure_left fun same => ?_
  subst same
  refine Proc.Triple.bind ((notice_spec quiet _).relax ?_) fun _ => Proc.Triple.answer fun s seen => ?_
  · rintro e s ⟨seen, outside⟩
    exact ⟨outside, seen.view (P := LoopCut _ l found outer remaining index previous v) ⟨grew, _, state⟩⟩
  · exact seen.view (P := LoopRun _ l found outer remaining index previous v .completed outer'')
      (.through state published grew ledger)

theorem stopLoop_run {remaining index : ℕ} {previous : Option Values} {v w : View} {e : LoopEnd}
    (state : LoopState (c.shared conduct) w.memory l found outer remaining index previous e)
    (unfinished : ∀ final, e ≠ .done final) (grew : Grew (fromPaths l found index) v w) {note : Walk Unit}
    {status : InvocationStatus} (other : status ≠ .completed) {n : Notice} {w' : View}
    (noted : Proc.Triple (Seen c.lease.runId w) note (fun _ => Seen c.lease.runId w') fun _ _ => False)
    (memory : w'.memory = w.memory) (calls : w'.calls = w.calls) (troubled : Troubled w') :
    Proc.Triple (Seen c.lease.runId w) (do note; notice c n; pure (status, outer))
      (fun o s => LoopRun (c.shared conduct) l found outer remaining index previous v o.1 o.2 (s.view c.lease.runId))
      (fun e s => e.Outside ∧ LoopCut (c.shared conduct) l found outer remaining index previous v (s.view c.lease.runId)) := by
  have state' : LoopState (c.shared conduct) w'.memory l found outer remaining index previous e := by
    rw [memory]
    exact state
  have grew' := grew.before memory calls
  refine Proc.Triple.bind (noted.relax fun _ _ => False.elim) fun _ => ?_
  refine Proc.Triple.bind ((notice_spec quiet _).relax ?_) fun _ => Proc.Triple.answer fun s seen => ?_
  · rintro e s ⟨seen, outside⟩
    exact ⟨outside, seen.view (P := LoopCut _ l found outer remaining index previous v) ⟨grew', _, state'⟩⟩
  · exact seen.view (P := LoopRun _ l found outer remaining index previous v status outer)
      (.stopped other state' unfinished grew' troubled)

theorem runIterations_run (obeys : c.world.Obeys conduct) (wired : LoopWired (c.shared conduct) l found)
    (ready : ∀ b ∈ l.initialBindings, Available outer b.sources) {remaining index : ℕ} {previous : Option Values}
    {executedAny : Bool} {v : View} {e : LoopEnd}
    (fed : 0 < index → ∃ x, previous = some x ∧ Holding x (innerKeys l found))
    (state : LoopState (c.shared conduct) v.memory l found outer remaining index previous e) :
    Proc.Triple (Seen c.lease.runId v)
      (runIterations c l (memberProducerIndex found) outer remaining index previous executedAny)
      (fun o s => LoopRun (c.shared conduct) l found outer remaining index previous v o.1 o.2 (s.view c.lease.runId))
      (fun e s => e.Outside ∧ LoopCut (c.shared conduct) l found outer remaining index previous v (s.view c.lease.runId)) := by
  induction remaining generalizing index previous executedAny v e with
  | zero =>
    refine stopLoop_run quiet (e := .exhausted) .exhausted (fun _ same => by cases same) .refl (by simp)
      (addParked_spec _) rfl rfl (troubled_parked v _)
  | succ remaining ih =>
    refine turn_begins quiet (E := fun e w => e.Outside ∧
      LoopCut (c.shared conduct) l found outer (remaining + 1) index previous v w)
      (fun e' outside => ⟨outside, .refl, _, state⟩) ?_
    obtain ⟨x, seeded, seeds⟩ := seedLoopIteration_ok ready fed wired
    refine Proc.Triple.bind (checked_spec seeded) fun x' => Proc.Triple.pure_left fun same => ?_
    subst same
    obtain ⟨final, row, behind⟩ := state.behind wired.some seeded
    rw [← wired.members.order]
    refine Proc.Triple.bind ((runMembers_run quiet obeys wired (List.nil_append found).symm rfl row (by simpa using seeds)
      (by simp)).relax ?_) fun o => triple_of_view (P := RowRun (c.shared conduct) l index found x' v o) fun w ran => ?_
    · rintro e' s ⟨outside, cut⟩
      obtain ⟨final', row'⟩ := cut.row
      obtain ⟨e'', behind'⟩ := behind.grown row cut.grew row'
      exact ⟨outside, cut.grew.row, e'', behind'.state seeded row'⟩
    · cases ran with
      | @through it w live row' grew ledger =>
        have held : Holding it.values (innerKeys l found) := row'.holding seeds
        obtain ⟨e', behind'⟩ := behind.grown row grew row'
        refine Proc.Triple.ite (fun dead => absurd (live.symm.trans dead) Bool.false_ne_true) fun _ => ?_
        have state' := behind'.state seeded row'
        cases behind' with
        | undecided decision blank =>
          rw [decision]
          exact stopLoop_run quiet state' (fun _ same => by cases same) grew.row (by simp) (addFailure_spec _ _) rfl rfl
            (troubled_failure w _ _)
        | goes decision later =>
          rw [decision]
          refine Proc.Triple.bind ((notice_spec quiet _).relax ?_) fun _ => ?_
          · rintro e'' s ⟨seen, outside⟩
            exact ⟨outside, seen.view (P := LoopCut _ l found outer (remaining + 1) index previous v)
              ⟨grew.row, _, state'⟩⟩
          · have onward {M : Memory} {e : LoopEnd} (h : LoopState (c.shared conduct) M l found outer remaining (index + 1)
                (some it.values) e) (same : ∀ i ∈ found, rowOf M l index i.scope = rowOf w.memory l index i.scope) :
                LoopState (c.shared conduct) M l found outer (remaining + 1) index previous e :=
              .goes seeded (row'.frame same) decision h
            refine ((ih (fun _ => ⟨it.values, rfl, held⟩) later).strengthen ?_).relax ?_
            · rintro ⟨status, outer'⟩ s ended
              cases ended with
              | through state published grew' ledger' =>
                exact .through (onward state grew'.earlier) published (grew.rows grew') (ledger'.trans ledger)
              | stopped other state unfinished grew' troubled =>
                exact .stopped other (onward state grew'.earlier) unfinished (grew.rows grew') troubled
            · rintro e'' s ⟨outside, cut⟩
              obtain ⟨later', state⟩ := cut.state
              exact ⟨outside, grew.rows cut.grew, later', onward state cut.grew.earlier⟩
        | done decision blank =>
          rw [decision]
          refine Proc.Triple.bind ((notice_spec quiet _).relax ?_) fun _ => ?_
          · rintro e'' s ⟨seen, outside⟩
            exact ⟨outside, seen.view (P := LoopCut _ l found outer (remaining + 1) index previous v)
              ⟨grew.row, _, state'⟩⟩
          · exact finishLoop_run quiet wired held state' grew.row ledger index
      | @broken o w dead row' grew troubled =>
        obtain ⟨e', behind'⟩ := behind.grown row grew row'
        have state' := behind'.state seeded row'
        cases behind' with
        | rests blank =>
          have left (status : InvocationStatus) (other : status ≠ .completed) :
              Proc.Triple (Seen c.lease.runId w) (pure (status, outer) : Walk (InvocationStatus × Values))
                (fun o s => LoopRun (c.shared conduct) l found outer (remaining + 1) index previous v o.1 o.2
                  (s.view c.lease.runId))
                (fun e s => e.Outside ∧ LoopCut (c.shared conduct) l found outer (remaining + 1) index previous v
                  (s.view c.lease.runId)) :=
            Proc.Triple.answer fun s seen =>
              seen.view (P := LoopRun _ l found outer (remaining + 1) index previous v status outer)
                (.stopped other state' (fun _ same => by cases same) grew.row troubled)
          cases o with
          | none => exact left .parked (by simp)
          | some it => exact Proc.Triple.ite (fun _ => left .failed (by simp)) fun live => absurd (dead it rfl) live

end Loops

end Constructicon.Walker
