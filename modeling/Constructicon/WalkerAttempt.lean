import Constructicon.WalkerLoop

/-!
# A whole attempt

An attempt passes every unit once. Whatever it meets, it leaves a coherent memory, and
apart from a loop whose recorded decision is none it raises nothing on its own account;
when it succeeds, its outputs are those that its checkpoints alone give.
-/

namespace Constructicon.Walker

open Transaction

/-! ## Loops as units -/

section Loop

variable {c : Context} {conduct : Conduct} {l : LoopResolution} {found : List Instance} {outer : Values} {v : View}

theorem Members.read {p : Shared} (h : Members p l found) : members p.byScope l = .ok found := by
  refine mapM_of_forall₂ ?_
  rw [← h.order, List.forall₂_map_left_iff]
  have known := h.known
  clear h
  induction found with
  | nil => exact .nil
  | cons i rest ih =>
    refine .cons ?_ (ih fun j mem => known j (List.mem_cons_of_mem _ mem))
    rw [expect_eq_ok]
    exact known i List.mem_cons_self

variable (quiet : c.world.Quiet c.lease.runId)

include quiet

theorem readRow_spec (paths : List ExecutionPath) : Proc.Triple (Seen c.lease.runId v) (readRow c paths)
    (fun row s => Seen c.lease.runId v s ∧ row = paths.map v.memory) (Undone c.lease.runId v) := by
  induction paths with
  | nil => exact Proc.Triple.answer fun s seen => ⟨seen, rfl⟩
  | cons path paths ih =>
    refine Proc.Triple.bind (checkpoint_spec quiet path) fun found => Proc.Triple.pure_right fun same => ?_
    refine Proc.Triple.bind ih fun row => Proc.Triple.pure_right fun rest => Proc.Triple.answer fun s seen => ?_
    rw [same, rest]
    exact ⟨seen, rfl⟩

theorem readMatrix_spec (paths : List (List ExecutionPath)) : Proc.Triple (Seen c.lease.runId v) (readMatrix c paths)
    (fun rows s => Seen c.lease.runId v s ∧ rows = paths.map (fun row => row.map v.memory)) (Undone c.lease.runId v) := by
  induction paths with
  | nil => exact Proc.Triple.answer fun s seen => ⟨seen, rfl⟩
  | cons row paths ih =>
    refine Proc.Triple.bind (readRow_spec quiet row) fun cells => Proc.Triple.pure_right fun same => ?_
    refine Proc.Triple.bind ih fun rows => Proc.Triple.pure_right fun rest => Proc.Triple.answer fun s seen => ?_
    rw [same, rest]
    exact ⟨seen, rfl⟩

theorem executeLoop_run (obeys : c.world.Obeys conduct) (wired : LoopWired (c.shared conduct) l found)
    (ready : ∀ b ∈ l.initialBindings, Available outer b.sources) {e : LoopEnd}
    (state : LoopState (c.shared conduct) v.memory l found outer l.maxIterations 0 none e) :
    Proc.Triple (Seen c.lease.runId v) (executeLoop c l outer)
      (fun o s => LoopRun (c.shared conduct) l found outer l.maxIterations 0 none v o.1 o.2 (s.view c.lease.runId))
      (fun r s => LoopCut (c.shared conduct) l found outer l.maxIterations 0 none v (s.view c.lease.runId) ∧
        (r.Outside ∨ ∃ d, e = .undecided d ∧ r = .damage d)) := by
  refine Proc.Triple.bind (Q := fun _ => Seen c.lease.runId v) ?_ fun _ => ?_
  · refine Proc.Triple.bind ((readMatrix_spec quiet _).relax ?_) fun rows => Proc.Triple.pure_right fun same => ?_
    · rintro r s ⟨seen, outside⟩
      exact ⟨seen.view (P := LoopCut _ l found outer _ 0 none v) ⟨.refl, e, state⟩, .inl outside⟩
    · have read : rows = rowsFrom v.memory l found l.maxIterations 0 := by
        rw [same, ← recordedRows_eq wired.members]
        rfl
      rcases state.inspect wired.members wired.some with ⟨d, undecided, refused⟩ | ⟨-, history, ok⟩
      · rw [read]
        change Proc.Triple _ (checked (inspectRows (c.shared conduct).hash (c.shared conduct).bindings
          (c.shared conduct).byScope l outer false _ 0 none)) _ _
        rw [refused]
        refine Proc.Triple.fail fun s seen => ⟨?_, .inr ⟨d, undecided, rfl⟩⟩
        exact seen.view (P := LoopCut _ l found outer _ 0 none v) ⟨.refl, e, state⟩
      · rw [read]
        exact (checked_spec ok).strengthen fun _ _ => And.right
  · refine Proc.Triple.bind (checked_spec wired.members.read) fun found' => Proc.Triple.pure_left fun same => ?_
    subst same
    refine (runIterations_run quiet obeys wired ready (fun later => absurd later (lt_irrefl 0)) state).relax ?_
    exact fun r s cut => ⟨cut.2, .inl cut.1⟩

end Loop

/-! ## One unit -/

inductive Ended (p : Shared) (u : RootUnit) (x : Values) (v : View) : InvocationStatus → Values → View → Prop
  | completed {x' : Values} {v' : View} (state : UnitState p v'.memory u x (some x')) (grew : Grew {path | u.Owns path} v v')
      (ledger : v'.ledger = v.ledger) : Ended p u x v .completed x' v'
  | stopped {status : InvocationStatus} {v' : View} (other : status ≠ .completed)
      (state : UnitState p v'.memory u x none) (grew : Grew {path | u.Owns path} v v') (troubled : Troubled v') :
      Ended p u x v status x v'

/-- A loop has a complete iteration on record whose decision is none. -/
def Undecided (p : Shared) (M : Memory) (u : RootUnit) (x : Values) (d : Damage) : Prop :=
  ∃ l found value, u = .loop l ∧ d = .notBoolean l.scope value ∧ Members p l found ∧
    LoopState p M l found x l.maxIterations 0 none (.undecided d)

structure Halted (p : Shared) (u : RootUnit) (x : Values) (v v' : View) : Prop where
  grew : Grew {path | u.Owns path} v v'
  state : ∃ r, UnitState p v'.memory u x r

section Unit

variable {c : Context} {conduct : Conduct} {v : View} {u : RootUnit} {pr : Progress} {r : Option Values}

theorem owns_atomic (i : Instance) : {path | (RootUnit.atomic i).Owns path} = {⟨i.scope, []⟩} := rfl

theorem Grew.loop {p : Shared} {l : LoopResolution} {found : List Instance} {v v' : View} (members : Members p l found)
    (h : Grew (fromPaths l found 0) v v') : Grew {path | (RootUnit.loop l).Owns path} v v' :=
  h.mono (by rintro path ⟨i, mem, later, -, rfl⟩; exact members.owns later mem)

theorem LoopState.unit {p : Shared} {M : Memory} {l : LoopResolution} {found : List Instance} {x : Values} {e : LoopEnd}
    (wired : LoopWired p l found) (h : LoopState p M l found x l.maxIterations 0 none e)
    (published : ∀ final, e = .done final → ∃ x', publishLoopExports l final x = .ok x') :
    ∃ r, UnitState p M (.loop l) x r := by
  cases e with
  | done final =>
    obtain ⟨x', published⟩ := published final rfl
    exact ⟨_, .left wired.members h published⟩
  | rests => exact ⟨none, .within wired.members h fun _ same => by cases same⟩
  | exhausted => exact ⟨none, .within wired.members h fun _ same => by cases same⟩
  | undecided d => exact ⟨none, .within wired.members h fun _ same => by cases same⟩

theorem LoopState.holding {p : Shared} {M : Memory} {l : LoopResolution} {found : List Instance} {x : Values}
    {remaining index : ℕ} {previous : Option Values} {e : LoopEnd} (wired : LoopWired p l found)
    (ready : ∀ b ∈ l.initialBindings, Available x b.sources)
    (fed : 0 < index → ∃ y, previous = some y ∧ Holding y (innerKeys l found))
    (h : LoopState p M l found x remaining index previous e) :
    (∀ final, e = .done final → Holding final (innerKeys l found)) ∧
      ∀ d, e = .undecided d → ∃ value, d = .notBoolean l.scope value := by
  have held {index : ℕ} {previous : Option Values} {v v' : Values}
      (fed : 0 < index → ∃ y, previous = some y ∧ Holding y (innerKeys l found))
      (seeded : seedLoopIteration l index x previous = .ok v) (row : RowState p (rowOf M l index) found v (some v')) :
      Holding v' (innerKeys l found) := by
    obtain ⟨w, again, seeds⟩ := seedLoopIteration_ok ready fed wired
    obtain rfl := Except.ok.inj (seeded.symm.trans again)
    exact row.holding seeds
  induction h with
  | exhausted => exact ⟨fun _ same => (by cases same), fun _ same => by cases same⟩
  | blank => exact ⟨fun _ same => (by cases same), fun _ same => by cases same⟩
  | stops => exact ⟨fun _ same => (by cases same), fun _ same => by cases same⟩
  | undecided seeded row decision _ =>
    refine ⟨fun _ same => (by cases same), fun d same => ?_⟩
    cases same
    exact loopDecision_error (held fed seeded row _ wired.continuation) decision
  | goes seeded row _ _ ih => exact ih fun _ => ⟨_, rfl, held fed seeded row⟩
  | done seeded row _ _ =>
    refine ⟨fun final same => ?_, fun _ same => by cases same⟩
    cases same
    exact held fed seeded row

variable (quiet : c.world.Quiet c.lease.runId)

include quiet

theorem startUnit_run (obeys : c.world.Obeys conduct)
    (shaped : ∀ i, u = .atomic i → Shaped c.bindings i)
    (loops : ∀ l, u = .loop l → ∃ found, LoopWired (c.shared conduct) l found)
    (ready : ∀ b ∈ unitInputBindings c.bindings u, Available pr.values b.sources)
    (state : UnitState (c.shared conduct) v.memory u pr.values r) :
    Proc.Triple (Seen c.lease.runId v) (startUnit c pr u)
      (fun pr' s => ∃ status, pr'.statuses = pr.statuses.insert u.scope status ∧
        Ended (c.shared conduct) u pr.values v status pr'.values (s.view c.lease.runId))
      (fun e s => Halted (c.shared conduct) u pr.values v (s.view c.lease.runId) ∧
        (e.Outside ∨ ∃ d, Undecided (c.shared conduct) v.memory u pr.values d ∧ e = .damage d)) := by
  cases u with
  | atomic i =>
    obtain ⟨inputs, inputs_ok⟩ := nodeInputs_ok (shaped i rfl) ready
    have explained : ∀ k, v.memory ⟨i.scope, []⟩ = some k → ∃ x', Explained (c.shared conduct) i k pr.values x' := by
      intro k known
      cases state with
      | absent absent => cases absent.symm.trans known
      | played known' explained =>
        obtain rfl := Option.some.inj (known'.symm.trans known)
        exact ⟨_, explained⟩
    refine Proc.Triple.bind ((executeOrRestore_came quiet obeys inputs_ok explained).relax ?_) fun o =>
      triple_of_view (P := fun w => Came (c.shared conduct) i ⟨i.scope, []⟩ pr.values v o.1 o.2 w) fun w came => ?_
    · rintro e s ⟨outside, struck⟩
      refine ⟨⟨struck.grew, ?_⟩, .inl outside⟩
      cases recorded : (s.view c.lease.runId).memory ⟨i.scope, []⟩ with
      | none => exact ⟨none, .absent recorded⟩
      | some k =>
        obtain ⟨x', clear⟩ := struck.explained k recorded
        exact ⟨some x', .played recorded clear⟩
    · obtain ⟨outcome, x'⟩ := o
      cases came with
      | through known explained grew ledger =>
        refine Proc.Triple.answer fun s seen => ⟨.completed, rfl, ?_⟩
        exact seen.view (P := Ended _ (.atomic i) pr.values v .completed x') (.completed (.played known explained) grew ledger)
      | stopped was absent stop grew ledger =>
        cases outcome with
        | completed => exact stop.elim
        | parked unit =>
          refine Proc.Triple.bind (addParked_spec unit) fun _ => Proc.Triple.answer fun s seen => ⟨.parked, rfl, ?_⟩
          exact seen.view (P := Ended _ (.atomic i) pr.values v .parked pr.values)
            (.stopped (by simp) (.absent absent) (grew.before rfl rfl) (troubled_parked w unit))
        | failed error =>
          refine Proc.Triple.bind (addFailure_spec _ error) fun _ => Proc.Triple.answer fun s seen => ⟨.failed, rfl, ?_⟩
          exact seen.view (P := Ended _ (.atomic i) pr.values v .failed pr.values)
            (.stopped (by simp) (.absent absent) (grew.before rfl rfl) (troubled_failure w _ error))
  | loop l =>
    obtain ⟨found, wired⟩ := loops l rfl
    have publishes {M : Memory} {final : Values}
        (h : LoopState (c.shared conduct) M l found pr.values l.maxIterations 0 none (.done final)) :
        ∃ x', publishLoopExports l final pr.values = .ok x' := by
      have held := (h.holding wired ready fun later => absurd later (lt_irrefl 0)).1 final rfl
      exact publishLoopExports_ok (fun e mem => ⟨held.available (wired.exports e mem).2, (wired.exports e mem).1⟩) _
    have inside : ∃ e, LoopState (c.shared conduct) v.memory l found pr.values l.maxIterations 0 none e := by
      cases state with
      | within members state _ =>
        obtain rfl := members.unique wired.members
        exact ⟨_, state⟩
      | left members state _ =>
        obtain rfl := members.unique wired.members
        exact ⟨_, state⟩
    obtain ⟨e, inside⟩ := inside
    refine Proc.Triple.bind ((executeLoop_run quiet obeys wired ready inside).relax ?_) fun o =>
      Proc.Triple.answer fun s ran => ?_
    · rintro r s ⟨cut, why⟩
      obtain ⟨e', state'⟩ := cut.state
      refine ⟨⟨cut.grew.loop wired.members, state'.unit wired fun final same => ?_⟩, why.imp_right ?_⟩
      · subst same
        exact publishes state'
      · rintro ⟨d, rfl, raised⟩
        obtain ⟨value, named⟩ := (inside.holding wired ready fun later => absurd later (lt_irrefl 0)).2 d rfl
        exact ⟨d, ⟨l, found, value, rfl, named, wired.members, inside⟩, raised⟩
    · obtain ⟨status, x'⟩ := o
      refine ⟨status, rfl, ?_⟩
      cases ran with
      | through state' published grew ledger =>
        exact .completed (.left wired.members state' published) (grew.loop wired.members) ledger
      | stopped other state' unfinished grew troubled =>
        exact .stopped other (.within wired.members state' unfinished) (grew.loop wired.members) troubled

end Unit

/-! ## The units behind and before -/

section States

variable {p : Shared} {M M' : Memory} {u : RootUnit} {x : Values}

theorem UnitState.available {x' : Values} (loops : ∀ l, u = .loop l → ∃ found, LoopWired p l found)
    (h : UnitState p M u x (some x')) : ∀ b ∈ unitInputBindings p.bindings u, Available x b.sources := by
  cases h with
  | played known explained =>
    obtain ⟨inputs, ready, -⟩ := explained.inputs
    exact nodeInputs_available ready
  | left members state published =>
    obtain ⟨found, wired⟩ := loops _ rfl
    obtain rfl := members.unique wired.members
    generalize same : LoopEnd.done _ = e at state
    generalize ((_ : ℕ+) : ℕ) = remaining at state
    cases state with
    | exhausted => cases same
    | blank => cases same
    | stops => cases same
    | undecided => cases same
    | goes seeded => exact seeded_available wired seeded
    | done seeded => exact seeded_available wired seeded

theorem UnitState.publishes {x' : Values} (h : UnitState p M u x (some x')) :
    ∃ publish, Publishes publish u.keys x x' := by
  cases h with
  | played known explained =>
    rw [keys_atomic]
    exact ⟨_, publishes_atomic explained.published⟩
  | left members state published => exact ⟨_, publishes_loop published⟩

theorem Coherent.onward {rest : List RootUnit} {r r' : Option Values} {y : Values} {v v' : View}
    (loops : ∀ l, u = .loop l → ∃ found, LoopWired p l found) (here : UnitState p v.memory u x r)
    (later : Coherent p v.memory rest (r.getD x) y) (grew : Grew {path | u.Owns path} v v')
    (now : UnitState p v'.memory u x r') (silent : ∀ k ∈ u.keys, x.get? k = none)
    (apart : ∀ w ∈ rest, ∀ path, w.Owns path → ¬u.Owns path) : ∃ y', Coherent p v'.memory rest (r'.getD x) y' := by
  have below : (r.getD x).Below (r'.getD x) := by
    cases r with
    | some y =>
      obtain rfl := here.stays loops now fun path k => grew.kept path k
      exact .refl _
    | none =>
      cases r' with
      | none => exact .refl x
      | some y =>
        obtain ⟨publish, publishes⟩ := now.publishes
        exact publishes.below silent
  have same : ∀ w ∈ rest, ∀ path, w.Owns path → v'.memory path = v.memory path :=
    fun w mem path mine => grew.elsewhere path (apart w mem path mine)
  have framed := later.frame same
  obtain ⟨y', larger, -⟩ := framed.mono below
  exact ⟨y', larger⟩

end States

/-- The units passed so far and what they have left. -/
structure Reached (p : Shared) (ordered : List RootUnit) (roots : Values) (v₀ : View) (pre : List RootUnit)
    (pr : Progress) (v : View) : Prop where
  grew : Grew {path | ∃ u ∈ pre, u.Owns path} v₀ v
  before : Coherent p v.memory pre roots pr.values
  above : roots.Below pr.values
  published : ∀ w ∈ pre, pr.statuses.get? w.scope = some .completed → Holding pr.values w.keys
  silent : ∀ w ∈ ordered, pr.statuses.get? w.scope ≠ some .completed → ∀ k ∈ w.keys, pr.values.get? k = none
  marked : ∀ w ∈ ordered, pr.statuses.get? w.scope = some .completed → w ∈ pre
  whole : (∀ w ∈ pre, pr.statuses.get? w.scope = some .completed) →
    Whole p v.memory pre roots pr.values ∧ v.ledger = v₀.ledger
  troubled : (∃ w ∈ pre, pr.statuses.get? w.scope ≠ some .completed) → Troubled v

section Run

variable {p : Shared} {units ordered pre rest : List RootUnit} {roots : Values} {v₀ v v' : View} {pr pr' : Progress}
  {u : RootUnit}

theorem Wired.apart_of_split (wired : Wired p units roots ordered) (split : ordered = pre ++ u :: rest) :
    (∀ w ∈ pre, ∀ path, w.Owns path → ¬u.Owns path) ∧ (∀ w ∈ rest, ∀ path, w.Owns path → ¬u.Owns path) ∧
      u ∉ pre ∧ ∀ w ∈ pre ++ rest, w.scope ≠ u.scope := by
  have distinct : (ordered.map RootUnit.scope).Nodup := (wired.order.perm.map RootUnit.scope).nodup_iff.mpr wired.scopes
  rw [split, List.map_append, List.map_cons, List.nodup_middle, List.nodup_cons, ← List.map_append] at distinct
  have other : ∀ w ∈ pre ++ rest, w.scope ≠ u.scope := fun w mem same =>
    distinct.1 (same ▸ List.mem_map_of_mem mem)
  refine ⟨fun w mem path mine theirs => ?_, fun w mem path mine theirs => ?_, fun mem => ?_, other⟩
  · exact other w (List.mem_append_left _ mem) (owns_scope mine theirs)
  · exact other w (List.mem_append_right _ mem) (owns_scope mine theirs)
  · exact other u (List.mem_append_left _ mem) rfl

theorem Reached.step (wired : Wired p units roots ordered) (split : ordered = pre ++ u :: rest)
    (h : Reached p ordered roots v₀ pre pr v) {r : Option Values} {status : InvocationStatus}
    (loops : ∀ l, u = .loop l → ∃ found, LoopWired p l found)
    (state : UnitState p v'.memory u pr.values r) (grew : Grew {path | u.Owns path} v v')
    (values : pr'.values = r.getD pr.values) (statuses : pr'.statuses = pr.statuses.insert u.scope status)
    (exact_ : status = .completed ↔ r.isSome) (ledger : status = .completed → v'.ledger = v.ledger)
    (troubled : status ≠ .completed → Troubled v') : Reached p ordered roots v₀ (pre ++ [u]) pr' v' := by
  obtain ⟨apart, -, new, -⟩ := wired.apart_of_split split
  have u_mem : u ∈ ordered := split ▸ List.mem_append_right _ List.mem_cons_self
  have here : pr'.statuses.get? u.scope = some status := by rw [statuses, Dict.get?_insert_self]
  have elsewhere : ∀ w ∈ ordered, w ≠ u → pr'.statuses.get? w.scope = pr.statuses.get? w.scope := by
    intro w mem ne
    rw [statuses, Dict.get?_insert_ne]
    exact fun same => ne (List.inj_on_of_nodup_map wired.scopes (wired.mem mem) (wired.mem u_mem) same.symm)
  have pre_mem : ∀ w ∈ pre, w ∈ ordered := fun w mem => split ▸ List.mem_append_left _ mem
  have pre_same : ∀ w ∈ pre, pr'.statuses.get? w.scope = pr.statuses.get? w.scope := fun w mem =>
    elsewhere w (pre_mem w mem) fun same => new (same ▸ mem)
  have was : pr.statuses.get? u.scope ≠ some .completed := fun done => new (h.marked u u_mem done)
  have silent := h.silent u u_mem was
  have below : pr.values.Below pr'.values := by
    rw [values]
    cases r with
    | none => exact .refl _
    | some y =>
      obtain ⟨publish, publishes⟩ := state.publishes
      exact publishes.below silent
  have framed : ∀ w ∈ pre, ∀ path, w.Owns path → v'.memory path = v.memory path := fun w mem path mine =>
    grew.elsewhere path (apart w mem path mine)
  refine ⟨?_, ?_, h.above.trans below, ?_, ?_, ?_, ?_, ?_⟩
  · refine (h.grew.trans grew ?_).mono ?_
    · refine Set.disjoint_left.mpr ?_
      rintro path ⟨w, mem, mine⟩
      exact apart w mem path mine
    · rintro path (⟨w, mem, mine⟩ | mine)
      · exact ⟨w, List.mem_append_left _ mem, mine⟩
      · exact ⟨u, List.mem_append_right _ List.mem_cons_self, mine⟩
  · refine (h.before.frame framed).append ?_
    rw [values]
    exact .cons state (.nil _)
  · intro w mem done
    rcases List.mem_append.mp mem with mem | last
    · intro k key
      exact below.isSome (h.published w mem (pre_same w mem ▸ done) k key)
    · obtain rfl := List.mem_singleton.mp last
      obtain rfl := Option.some.inj (here.symm.trans done)
      obtain ⟨y, rfl⟩ := Option.isSome_iff_exists.mp (exact_.mp rfl)
      obtain ⟨publish, publishes⟩ := state.publishes
      rw [values]
      exact fun k key => publishes.isSome_iff.mpr (.inr key)
  · intro w mem undone k key
    by_cases same : w = u
    · subst same
      have unpublished : r = none := by
        cases r with
        | none => rfl
        | some y => exact absurd (here.trans (congrArg some (exact_.mpr rfl))) undone
      rw [values, unpublished]
      exact silent k key
    · have still : pr.values.get? k = none := h.silent w mem (elsewhere w mem same ▸ undone) k key
      rw [values]
      cases r with
      | none => exact still
      | some y =>
        obtain ⟨publish, publishes⟩ := state.publishes
        by_contra found
        rcases publishes.isSome_iff.mp (Option.isSome_iff_ne_none.mpr found) with early | mine
        · rw [still] at early
          cases early
        · exact same (wired.keys w (wired.mem mem) u (wired.mem u_mem) k key mine)
  · intro w mem done
    by_cases same : w = u
    · exact List.mem_append_right _ (List.mem_singleton.mpr same)
    · exact List.mem_append_left _ (h.marked w mem (elsewhere w mem same ▸ done))
  · intro all
    obtain ⟨whole, same⟩ := h.whole fun w mem => pre_same w mem ▸ all w (List.mem_append_left _ mem)
    have done : status = .completed := Option.some.inj (here.symm.trans
      (all u (List.mem_append_right _ List.mem_cons_self)))
    obtain ⟨y, rfl⟩ := Option.isSome_iff_exists.mp (exact_.mp done)
    rw [values]
    exact ⟨(whole.frame framed).append (.cons state (.nil _)), (ledger done).trans same⟩
  · rintro ⟨w, mem, undone⟩
    rcases List.mem_append.mp mem with mem | last
    · have before := h.troubled ⟨w, mem, pre_same w mem ▸ undone⟩
      by_cases done : status = .completed
      · exact before.of_ledger (ledger done)
      · exact troubled done
    · obtain rfl := List.mem_singleton.mp last
      exact troubled fun done => undone (here.trans (congrArg some done))

end Run

/-! ## All units -/

structure Fallen (p : Shared) (ordered : List RootUnit) (roots : Values) (v₀ v : View) : Prop where
  grew : Grew {path | ∃ u ∈ ordered, u.Owns path} v₀ v
  coherent : ∃ y, Coherent p v.memory ordered roots y

/-- What an attempt raises: either nothing of its own, or the complaint about a decision
that was on record when it began. -/
def Excused (p : Shared) (ordered : List RootUnit) (roots : Values) (v₀ v : View) (e : Raised) : Prop :=
  e.Outside ∨ ∃ pre u rest x d, ordered = pre ++ u :: rest ∧ Coherent p v.memory pre roots x ∧
    Undecided p v₀.memory u x d ∧ e = .damage d

theorem getD_queued {statuses : Dict ScopePath InvocationStatus} {scope : ScopePath} :
    statuses.getD scope .queued ≠ .completed ↔ statuses.get? scope ≠ some .completed := by
  rw [Dict.getD]
  cases statuses.get? scope with
  | none => simp
  | some status => simp

section Turns

variable {c : Context} {conduct : Conduct} {units ordered pre rest : List RootUnit} {roots : Values} {v₀ v : View}
  {pr : Progress} {u : RootUnit}

theorem Reached.ready (wired : Wired (c.shared conduct) units roots ordered) (producers : c.producers = unitProducerIndex units)
    (mem : u ∈ ordered) (h : Reached (c.shared conduct) ordered roots v₀ pre pr v)
    (goes : (unitDependencyReport c.bindings c.producers pr.statuses u).waits = false) :
    ∀ b ∈ unitInputBindings c.bindings u, Available pr.values b.sources := by
  intro b bound a source
  rcases wired.sources u (wired.mem mem) b bound a source with root | ⟨w, indexed⟩
  · exact h.above.isSome root
  · have inside := wired.order.perm.mem_iff.mpr (unitProducerIndex_spec indexed).1
    have done : pr.statuses.get? w.scope = some .completed := by
      by_contra undone
      have produced : (c.producers.get? (addressKey a)).map RootUnit.scope = some w.scope := by
        rw [producers, indexed]
        rfl
      have waits : (unitDependencyReport c.bindings c.producers pr.statuses u).waits = true :=
        waits_iff.mpr ⟨b, bound, a, source, w.scope, produced, getD_queued.mpr undone⟩
      exact absurd (goes.symm.trans waits) Bool.false_ne_true
    exact h.published w (h.marked w inside done) done _ (unitProducerIndex_spec indexed).2

theorem Reached.waiting (wired : Wired (c.shared conduct) units roots ordered)
    (producers : c.producers = unitProducerIndex units) (split : ordered = pre ++ u :: rest)
    (h : Reached (c.shared conduct) ordered roots v₀ pre pr v)
    (loops : ∀ l, u = .loop l → ∃ found, LoopWired (c.shared conduct) l found)
    (waits : (unitDependencyReport c.bindings c.producers pr.statuses u).waits = true) {r : Option Values}
    (state : UnitState (c.shared conduct) v.memory u pr.values r) : r = none ∧ Troubled v := by
  obtain ⟨b, bound, a, source, scope, produced, undone⟩ := waits_iff.mp waits
  rw [producers] at produced
  obtain ⟨w, indexed, rfl⟩ := Option.map_eq_some_iff.mp produced
  have undone' := getD_queued.mp undone
  have mem : u ∈ ordered := split ▸ List.mem_append_right _ List.mem_cons_self
  obtain ⟨inside, key⟩ := unitProducerIndex_spec indexed
  refine ⟨?_, h.troubled ⟨w, wired.order.before pre u rest split w ⟨wired.mem mem, b, bound, a, source, indexed⟩, undone'⟩⟩
  cases r with
  | none => rfl
  | some x =>
    have found := state.available loops b bound a source
    rw [h.silent w (wired.order.perm.mem_iff.mpr inside) undone' _ key] at found
    cases found

variable (quiet : c.world.Quiet c.lease.runId)

include quiet

theorem runUnit_run (obeys : c.world.Obeys conduct) (wired : Wired (c.shared conduct) units roots ordered)
    (producers : c.producers = unitProducerIndex units) (split : ordered = pre ++ u :: rest)
    (reached : Reached (c.shared conduct) ordered roots v₀ pre pr v) {y : Values}
    (behind : Coherent (c.shared conduct) v.memory (u :: rest) pr.values y) :
    Proc.Triple (Seen c.lease.runId v) (runUnit c pr u)
      (fun pr' s => Reached (c.shared conduct) ordered roots v₀ (pre ++ [u]) pr' (s.view c.lease.runId) ∧
        ∃ y, Coherent (c.shared conduct) (s.view c.lease.runId).memory rest pr'.values y)
      (fun e s => Fallen (c.shared conduct) ordered roots v₀ (s.view c.lease.runId) ∧
        Excused (c.shared conduct) ordered roots v₀ (s.view c.lease.runId) e) := by
  have mem : u ∈ ordered := split ▸ List.mem_append_right _ List.mem_cons_self
  have loops : ∀ l, u = .loop l → ∃ found, LoopWired (c.shared conduct) l found := by
    rintro l rfl
    exact wired.loops l (wired.mem mem)
  obtain ⟨apart, apart', new, -⟩ := wired.apart_of_split split
  have was : pr.statuses.get? u.scope ≠ some .completed := fun done => new (reached.marked u mem done)
  have silent := reached.silent u mem was
  cases behind with
  | @cons _ _ _ _ r here later =>
    -- whatever the unit has come to, the others are as they were
    have fallen {w : View} (grew : Grew {path | u.Owns path} v w) {r' : Option Values}
        (now : UnitState (c.shared conduct) w.memory u pr.values r') :
        Fallen (c.shared conduct) ordered roots v₀ w := by
      obtain ⟨y', after⟩ := later.onward loops here grew now silent apart'
      refine ⟨(reached.grew.trans grew ?_).mono ?_, y', ?_⟩
      · refine Set.disjoint_left.mpr ?_
        rintro path ⟨w, inside, mine⟩
        exact apart w inside path mine
      · rintro path (⟨w, inside, mine⟩ | mine)
        · exact ⟨w, split ▸ List.mem_append_left _ inside, mine⟩
        · exact ⟨u, mem, mine⟩
      · rw [split]
        exact (reached.before.frame fun w inside path mine => grew.elsewhere path (apart w inside path mine)).append
          (.cons now after)
    refine turn_begins quiet (E := fun e w => Fallen (c.shared conduct) ordered roots v₀ w ∧
      Excused (c.shared conduct) ordered roots v₀ w e) (fun e outside => ⟨fallen .refl here, .inl outside⟩) ?_
    refine Proc.Triple.ite (fun waits => ?_) fun goes => ?_
    · obtain ⟨rfl, troubled⟩ := reached.waiting wired producers split loops waits here
      refine Proc.Triple.bind ((block_spec quiet _ _).relax ?_) fun _ => Proc.Triple.answer fun s seen => ?_
      · rintro e s ⟨seen, outside⟩
        refine ⟨seen.view (P := Fallen (c.shared conduct) ordered roots v₀) ?_, .inl outside⟩
        exact fallen (.still rfl rfl) here
      · refine seen.view (P := fun w => Reached (c.shared conduct) ordered roots v₀ (pre ++ [u]) _ w ∧
          ∃ y, Coherent (c.shared conduct) w.memory rest _ y) ⟨?_, y, later⟩
        exact reached.step wired split loops here (.still rfl rfl) rfl rfl (by simp) (by simp) fun _ => troubled
    · have ready := reached.ready wired producers mem (by simpa using goes)
      refine ((startUnit_run quiet obeys (fun i same => wired.atomic i (same ▸ wired.mem mem)) loops ready here).strengthen
        ?_).relax ?_
      · rintro pr' s ⟨status, statuses, ended⟩
        generalize s.view c.lease.runId = w at ended
        generalize values : pr'.values = x' at ended
        cases ended with
        | completed state grew ledger =>
          obtain ⟨y', after⟩ := later.onward loops here grew state silent apart'
          refine ⟨?_, y', after⟩
          exact reached.step wired split loops state grew values statuses (by simp) (fun _ => ledger) (by simp)
        | stopped other state grew troubled =>
          obtain ⟨y', after⟩ := later.onward loops here grew state silent apart'
          refine ⟨?_, y', after⟩
          exact reached.step wired split loops state grew values statuses (by simpa using other)
            (fun done => absurd done other) fun _ => troubled
      · rintro e s ⟨halted, why⟩
        obtain ⟨r', state⟩ := halted.state
        refine ⟨fallen halted.grew state, why.imp_right ?_⟩
        rintro ⟨d, ⟨l, found, value, rfl, named, members, undecided⟩, raised⟩
        refine ⟨pre, .loop l, rest, pr.values, d, split, ?_, ⟨l, found, value, rfl, named, members, undecided.frame ?_⟩,
          raised⟩
        · exact reached.before.frame fun w inside path mine => halted.grew.elsewhere path (apart w inside path mine)
        · intro index _ i inside
          refine (reached.grew.elsewhere _ ?_).symm
          rintro ⟨w, early, mine⟩
          exact apart w early _ mine (members.owns index inside)

theorem runUnits_run (obeys : c.world.Obeys conduct) (wired : Wired (c.shared conduct) units roots ordered)
    (producers : c.producers = unitProducerIndex units) (split : ordered = pre ++ rest)
    (reached : Reached (c.shared conduct) ordered roots v₀ pre pr v) {y : Values}
    (behind : Coherent (c.shared conduct) v.memory rest pr.values y) :
    Proc.Triple (Seen c.lease.runId v) (runUnits c rest pr)
      (fun pr' s => Reached (c.shared conduct) ordered roots v₀ ordered pr' (s.view c.lease.runId))
      (fun e s => Fallen (c.shared conduct) ordered roots v₀ (s.view c.lease.runId) ∧
        Excused (c.shared conduct) ordered roots v₀ (s.view c.lease.runId) e) := by
  induction rest generalizing pre pr v y with
  | nil =>
    rw [List.append_nil] at split
    subst split
    exact Proc.Triple.answer fun s seen => seen.view (P := Reached (c.shared conduct) ordered roots v₀ ordered pr) reached
  | cons u rest ih =>
    refine Proc.Triple.bind (runUnit_run quiet obeys wired producers split reached behind) fun pr' =>
      triple_of_view (P := fun w => Reached (c.shared conduct) ordered roots v₀ (pre ++ [u]) pr' w ∧
        ∃ y, Coherent (c.shared conduct) w.memory rest pr'.values y) fun w ⟨reached', y', after⟩ => ?_
    exact ih (by rw [split, List.append_assoc]; rfl) reached' after

end Turns

end Constructicon.Walker
