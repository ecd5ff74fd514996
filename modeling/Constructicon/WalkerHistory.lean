import Constructicon.WalkerWired

/-!
# Reading a coherent memory back

What is recorded as complete stays so in every larger memory, with the same values;
`_inspect_loop_history` accepts the history of every loop whose last decision is one, and
`_materialize` finds what the units published.
-/

namespace Constructicon.Walker

open Transaction

variable {p : Shared} {M M' : Memory}

/-! ## Rows -/

section Rows

variable {row row' : ScopePath → Option Checkpoint} {found : List Instance} {v : Values}

theorem Explained.unique {i : Instance} {k : Checkpoint} {v' w' : Values} (h : Explained p i k v v')
    (h' : Explained p i k v w') : v' = w' := Except.ok.inj (h.published.symm.trans h'.published)

theorem RowState.unique {a b : Option Values} (h : RowState p row found v a) (h' : RowState p row found v b) : a = b := by
  induction h generalizing b with
  | complete v =>
    cases h'
    rfl
  | @stops i rest v absent =>
    cases h' with
    | stops => rfl
    | plays known => cases (absent i List.mem_cons_self).symm.trans known
  | @plays i rest k v v' final known explained _ ih =>
    cases h' with
    | stops absent => cases (absent i List.mem_cons_self).symm.trans known
    | plays known' explained' later' =>
      obtain rfl := Option.some.inj (known.symm.trans known')
      obtain rfl := explained.unique explained'
      exact ih later'

theorem RowState.grow {f : Values} (h : RowState p row found v (some f))
    (kept : ∀ scope k, row scope = some k → row' scope = some k) : RowState p row' found v (some f) := by
  generalize same : some f = final at h
  induction h with
  | complete v => exact .complete v
  | stops => cases same
  | plays known explained _ ih => exact .plays (kept _ _ known) explained (ih same)

theorem Explained.restores {i : Instance} {k : Checkpoint} {v' : Values} (h : Explained p i k v v') :
    restoreCheckedCheckpoint p.hash p.bindings i k v = .ok v' := by
  obtain ⟨inputs, ready, completes⟩ := h.inputs
  unfold restoreCheckedCheckpoint
  rw [ready, ok_bind, if_neg (by simp [completes.hash, completes.version])]
  exact h.published

theorem RowState.restores {l : LoopResolution} {final : Option Values} (h : RowState p row found v final)
    (known : ∀ i ∈ found, p.byScope.get? i.scope = some i) :
    ∃ v', restoreRow p.hash p.bindings p.byScope l (found.map (fun i => (i.scope, row i.scope))) v = .ok v' ∧
      ∀ f, final = some f → v' = f := by
  induction h with
  | complete v =>
    refine ⟨v, rfl, fun f same => ?_⟩
    cases same
    rfl
  | @stops i rest v absent =>
    refine ⟨v, ?_, fun f same => by cases same⟩
    rw [List.map_cons, absent i List.mem_cons_self]
    rfl
  | @plays i rest k v v' final here explained _ ih =>
    obtain ⟨last, restored, same⟩ := ih fun j mem => known j (List.mem_cons_of_mem _ mem)
    refine ⟨last, ?_, same⟩
    rw [List.map_cons, here, restoreRow, known i List.mem_cons_self, expect_some, ok_bind, explained.restores, ok_bind]
    exact restored

def cells (row : ScopePath → Option Checkpoint) (found : List Instance) : Row := found.map (fun i => row i.scope)

theorem cells_blank (absent : ∀ i ∈ found, row i.scope = none) : (cells row found).any Option.isSome = false := by
  rw [List.any_eq_false]
  intro cell mem
  obtain ⟨i, inside, rfl⟩ := List.mem_map.mp mem
  rw [absent i inside]
  exact Bool.false_ne_true

theorem RowState.cells_gapped {final : Option Values} (h : RowState p row found v final) :
    gapped (cells row found) = false := by
  induction h with
  | complete v => rfl
  | @stops i rest v absent =>
    have none_ := cells_blank absent
    unfold gapped
    rw [cells, List.map_cons, absent i List.mem_cons_self] at none_ ⊢
    exact none_
  | @plays i rest k v v' final here _ _ ih =>
    unfold gapped at ih ⊢
    rw [cells, List.map_cons, here]
    exact ih

theorem RowState.cells_all {final : Option Values} (h : RowState p row found v final) :
    (cells row found).all Option.isSome = final.isSome := by
  induction h with
  | complete v => rfl
  | @stops i rest v absent =>
    rw [cells, List.map_cons, absent i List.mem_cons_self]
    rfl
  | @plays i rest k v v' final here _ _ ih =>
    rw [cells, List.map_cons, here]
    exact ih

end Rows

/-! ## Histories -/

section Histories

variable {l : LoopResolution} {found : List Instance} {outer : Values}

/-- The rows of a loop from iteration `index` on. -/
def rowsFrom (M : Memory) (l : LoopResolution) (found : List Instance) : ℕ → ℕ → List Row
  | 0, _ => []
  | remaining + 1, index => cells (rowOf M l index) found :: rowsFrom M l found remaining (index + 1)

theorem Blank.anyPresent {index : ℕ} (h : Blank M l found index) (remaining : ℕ) :
    anyPresent (rowsFrom M l found remaining index) = false := by
  induction remaining generalizing index with
  | zero => rfl
  | succ remaining ih =>
    have here := cells_blank (h index le_rfl)
    have beyond : Blank M l found (index + 1) := fun later from_ => h later (Nat.le_of_succ_le from_)
    have later := ih beyond
    unfold Walker.anyPresent at later ⊢
    rw [rowsFrom, List.any_cons, here, later]
    rfl

theorem replayIteration_ok (members : Members p l found) {index : ℕ} {previous final : Option Values} {v : Values}
    (seeded : seedLoopIteration l index outer previous = .ok v) (row : RowState p (rowOf M l index) found v final) :
    ∃ v', replayIteration p.hash p.bindings p.byScope l outer previous index (cells (rowOf M l index) found) = .ok v' ∧
      ∀ f, final = some f → v' = f := by
  obtain ⟨v', restored, same⟩ := row.restores (l := l) members.known
  refine ⟨v', ?_, same⟩
  have zipped : l.memberOrder.zip (cells (rowOf M l index) found) =
      found.map (fun i => (i.scope, rowOf M l index i.scope)) := by
    rw [← members.order, cells, List.zip_map']
  rw [replayIteration, seeded, ok_bind, zipped]
  exact restored

theorem inspect_whole (members : Members p l found) (some_ : found ≠ []) (requireTerminal : Bool) {index : ℕ}
    {previous : Option Values} {v v' : Values} (seeded : seedLoopIteration l index outer previous = .ok v)
    (row : RowState p (rowOf M l index) found v (some v')) (later : List Row) :
    inspectRows p.hash p.bindings p.byScope l outer requireTerminal (cells (rowOf M l index) found :: later) index previous =
      (loopDecision l v' >>= fun decision =>
        if decision then inspectRows p.hash p.bindings p.byScope l outer requireTerminal later (index + 1) (some v')
        else if anyPresent later then .error (.afterTerminal l.scope index)
        else .ok ⟨index + 1, some index, false, some v'⟩) := by
  obtain ⟨w, replayed, same⟩ := replayIteration_ok members seeded row
  obtain rfl := same v' rfl
  have all := row.cells_all
  have any : (cells (rowOf M l index) found).any Option.isSome = true := by
    obtain ⟨i, rest, rfl⟩ := List.exists_cons_of_ne_nil some_
    rw [cells, List.map_cons, List.all_cons, Option.isSome_some, Bool.and_eq_true] at all
    rw [cells, List.map_cons, List.any_cons, all.1]
    rfl
  rw [inspectRows, if_neg (by simp [any]), row.cells_gapped, if_neg Bool.false_ne_true, if_neg (by simp [all]), replayed]
  rfl

theorem inspect_blank {index : ℕ} (blank : Blank M l found index) (remaining : ℕ) (previous : Option Values) :
    inspectRows p.hash p.bindings p.byScope l outer false (rowsFrom M l found (remaining + 1) index) index previous =
      .ok ⟨index, none, false, previous⟩ := by
  have here := cells_blank (blank index le_rfl)
  have beyond : Blank M l found (index + 1) := fun later from_ => blank later (Nat.le_of_succ_le from_)
  have later := beyond.anyPresent remaining
  rw [rowsFrom, inspectRows, if_pos here, later]
  rfl

theorem LoopState.inspect (members : Members p l found) (some_ : found ≠ []) {remaining index : ℕ}
    {previous : Option Values} {e : LoopEnd} (h : LoopState p M l found outer remaining index previous e) :
    (∃ d, e = .undecided d ∧ inspectRows p.hash p.bindings p.byScope l outer false
      (rowsFrom M l found remaining index) index previous = .error d) ∨
    ((∀ d, e ≠ .undecided d) ∧ ∃ history, inspectRows p.hash p.bindings p.byScope l outer false
      (rowsFrom M l found remaining index) index previous = .ok history) := by
  induction h with
  | exhausted =>
    right
    exact ⟨fun d same => (by cases same), _, rfl⟩
  | @blank remaining index previous blank =>
    right
    exact ⟨fun d same => (by cases same), _, inspect_blank blank remaining previous⟩
  | @stops remaining index previous v seeded row later =>
    right
    refine ⟨fun d same => (by cases same), ?_⟩
    obtain ⟨v', replayed, -⟩ := replayIteration_ok members seeded row
    by_cases any : (cells (rowOf M l index) found).any Option.isSome = false
    · rw [rowsFrom, inspectRows, if_pos any, later.anyPresent]
      exact ⟨_, rfl⟩
    · rw [rowsFrom, inspectRows, if_neg any, row.cells_gapped, if_neg Bool.false_ne_true, row.cells_all, if_pos Option.isSome_none,
        later.anyPresent, replayed]
      exact ⟨_, rfl⟩
  | @undecided remaining index previous v v' d seeded row decision later =>
    left
    refine ⟨d, rfl, ?_⟩
    rw [rowsFrom, inspect_whole members some_ false seeded row, decision]
    rfl
  | @goes remaining index previous v v' e seeded row decision later ih =>
    rw [rowsFrom, inspect_whole members some_ false seeded row, decision]
    exact ih
  | @done remaining index previous v v' seeded row decision later =>
    right
    refine ⟨fun d same => (by cases same), ?_⟩
    rw [rowsFrom, inspect_whole members some_ false seeded row, decision, ok_bind, later.anyPresent]
    exact ⟨_, rfl⟩

theorem LoopState.terminal (members : Members p l found) (some_ : found ≠ []) {remaining index : ℕ}
    {previous : Option Values} {f : Values} (h : LoopState p M l found outer remaining index previous (.done f)) :
    ∃ history, inspectRows p.hash p.bindings p.byScope l outer true (rowsFrom M l found remaining index) index previous =
      .ok history ∧ history.finalValues = some f := by
  generalize same : LoopEnd.done f = e at h
  induction h with
  | exhausted => cases same
  | blank => cases same
  | stops => cases same
  | undecided => cases same
  | @goes remaining index previous v v' e seeded row decision later ih =>
    rw [rowsFrom, inspect_whole members some_ true seeded row, decision]
    exact ih same
  | @done remaining index previous v v' seeded row decision later =>
    cases same
    rw [rowsFrom, inspect_whole members some_ true seeded row, decision, ok_bind, later.anyPresent]
    exact ⟨_, rfl, rfl⟩

/-- What stands behind an iteration that leaves `final`. -/
inductive Behind (p : Shared) (M : Memory) (l : LoopResolution) (found : List Instance) (outer : Values)
    (remaining index : ℕ) : Option Values → LoopEnd → Prop
  | rests (blank : Blank M l found (index + 1)) : Behind p M l found outer remaining index none .rests
  | undecided {f : Values} {d : Damage} (decision : loopDecision l f = .error d) (blank : Blank M l found (index + 1)) :
      Behind p M l found outer remaining index (some f) (.undecided d)
  | goes {f : Values} {e : LoopEnd} (decision : loopDecision l f = .ok true)
      (later : LoopState p M l found outer remaining (index + 1) (some f) e) :
      Behind p M l found outer remaining index (some f) e
  | done {f : Values} (decision : loopDecision l f = .ok false) (blank : Blank M l found (index + 1)) :
      Behind p M l found outer remaining index (some f) (.done f)

section Iteration

variable {remaining index : ℕ} {previous : Option Values} {v : Values}

theorem Behind.state {final : Option Values} {e : LoopEnd} (h : Behind p M l found outer remaining index final e)
    (seeded : seedLoopIteration l index outer previous = .ok v) (row : RowState p (rowOf M l index) found v final) :
    LoopState p M l found outer (remaining + 1) index previous e := by
  cases h with
  | rests blank => exact .stops seeded row blank
  | undecided decision blank => exact .undecided seeded row decision blank
  | goes decision later => exact .goes seeded row decision later
  | done decision blank => exact .done seeded row decision blank

theorem LoopState.behind (some_ : found ≠ []) {e : LoopEnd}
    (h : LoopState p M l found outer (remaining + 1) index previous e)
    (seeded : seedLoopIteration l index outer previous = .ok v) :
    ∃ final, RowState p (rowOf M l index) found v final ∧ Behind p M l found outer remaining index final e := by
  cases h with
  | blank blank =>
    obtain ⟨i, rest, rfl⟩ := List.exists_cons_of_ne_nil some_
    exact ⟨none, .stops (blank index le_rfl), .rests fun later from_ => blank later (Nat.le_of_succ_le from_)⟩
  | stops seeded' row blank =>
    obtain rfl := Except.ok.inj (seeded.symm.trans seeded')
    exact ⟨none, row, .rests blank⟩
  | undecided seeded' row decision blank =>
    obtain rfl := Except.ok.inj (seeded.symm.trans seeded')
    exact ⟨_, row, .undecided decision blank⟩
  | goes seeded' row decision later =>
    obtain rfl := Except.ok.inj (seeded.symm.trans seeded')
    exact ⟨_, row, .goes decision later⟩
  | done seeded' row decision blank =>
    obtain rfl := Except.ok.inj (seeded.symm.trans seeded')
    exact ⟨_, row, .done decision blank⟩

end Iteration

/-- Only a loop that rests can go on. -/
theorem LoopState.stays {remaining index : ℕ} {previous : Option Values} {e₀ e : LoopEnd} (some_ : found ≠ [])
    (h : LoopState p M l found outer remaining index previous e₀) (ended : e₀ ≠ .rests)
    (h' : LoopState p M' l found outer remaining index previous e)
    (kept : ∀ path k, M path = some k → M' path = some k) : e = e₀ := by
  have again {index : ℕ} {v f : Values} {final : Option Values} (row : RowState p (rowOf M l index) found v (some f))
      (row' : RowState p (rowOf M' l index) found v final) : final = some f :=
    row'.unique (row.grow fun scope k => kept _ k)
  induction h with
  | exhausted =>
    cases h'
    rfl
  | blank => exact absurd rfl ended
  | stops => exact absurd rfl ended
  | undecided seeded row decision _ =>
    obtain ⟨final, row', behind⟩ := h'.behind some_ seeded
    obtain rfl := again row row'
    cases behind with
    | undecided decision' => rw [Except.error.inj (decision'.symm.trans decision)]
    | goes decision' => cases decision.symm.trans decision'
    | done decision' => cases decision.symm.trans decision'
  | goes seeded row decision _ ih =>
    obtain ⟨final, row', behind⟩ := h'.behind some_ seeded
    obtain rfl := again row row'
    cases behind with
    | undecided decision' => cases decision.symm.trans decision'
    | goes _ later' => exact ih ended later'
    | done decision' => cases decision.symm.trans decision'
  | done seeded row decision _ =>
    obtain ⟨final, row', behind⟩ := h'.behind some_ seeded
    obtain rfl := again row row'
    cases behind with
    | undecided decision' => cases decision.symm.trans decision'
    | goes decision' => cases decision.symm.trans decision'
    | done => rfl

end Histories

/-! ## Units -/

section Units

variable {u : RootUnit} {v : Values}

theorem Members.unique {l : LoopResolution} {found found' : List Instance} (h : Members p l found)
    (h' : Members p l found') : found = found' := by
  have same : List.Forall₂ (fun i j : Instance => i.scope = j.scope) found found' := by
    rw [← List.forall₂_map_left_iff (f := Instance.scope) (R := fun s (j : Instance) => s = j.scope),
      ← List.forall₂_map_right_iff (f := Instance.scope) (R := fun s t : ScopePath => s = t), h.order, h'.order]
    exact List.forall₂_refl _
  have known := h.known
  have known' := h'.known
  clear h h'
  induction same with
  | nil => rfl
  | @cons i j rest rest' here _ ih =>
    have head := known i List.mem_cons_self
    rw [here, known' j List.mem_cons_self] at head
    rw [Option.some.inj head, ih (fun x mem => known x (List.mem_cons_of_mem _ mem))
      fun x mem => known' x (List.mem_cons_of_mem _ mem)]

theorem UnitState.stays {x : Values} {r : Option Values} (some_ : ∀ l, u = .loop l → ∃ found, LoopWired p l found)
    (h : UnitState p M u v (some x)) (h' : UnitState p M' u v r)
    (kept : ∀ path k, M path = some k → M' path = some k) : r = some x := by
  cases h with
  | played known explained =>
    cases h' with
    | absent absent => cases (kept _ _ known).symm.trans absent
    | played known' explained' =>
      obtain rfl := Option.some.inj ((kept _ _ known).symm.trans known')
      rw [explained.unique explained']
  | left members state published =>
    obtain ⟨found, wired⟩ := some_ _ rfl
    obtain rfl := members.unique wired.members
    cases h' with
    | within members' state' unfinished =>
      obtain rfl := members'.unique wired.members
      exact absurd (state.stays wired.some (by simp) state' kept) (unfinished _)
    | left members' state' published' =>
      obtain rfl := members'.unique wired.members
      obtain rfl := LoopEnd.done.inj (state.stays wired.some (by simp) state' kept)
      rw [Except.ok.inj (published.symm.trans published')]

theorem recordedRows_eq {l : LoopResolution} {found : List Instance} (members : Members p l found) :
    recordedRows M l = rowsFrom M l found l.maxIterations 0 := by
  have rows : ∀ remaining index, ((List.range' index remaining).map (fun index =>
      (l.memberOrder.map (fun member => iterationPath l member index)).map M)) = rowsFrom M l found remaining index := by
    intro remaining
    induction remaining with
    | zero => exact fun index => rfl
    | succ remaining ih =>
      intro index
      rw [List.range'_succ, List.map_cons, ih (index + 1), rowsFrom, cells, ← members.order, List.map_map, List.map_map]
      rfl
  rw [recordedRows, loopPaths, List.map_map, List.range_eq_range']
  exact rows _ _

/-- Materialization finds what a completed unit published. -/
theorem UnitState.materializes {x : Values} (some_ : ∀ l, u = .loop l → ∃ found, LoopWired p l found)
    (h : UnitState p M u v (some x)) : materializeUnit p.hash M p.bindings p.byScope v u = .ok x := by
  cases h with
  | played known explained =>
    rw [materializeUnit, known, expect_some, ok_bind]
    exact explained.restores
  | left members state published =>
    obtain ⟨found, wired⟩ := some_ _ rfl
    obtain rfl := members.unique wired.members
    obtain ⟨history, read, final⟩ := state.terminal members wired.some
    rw [materializeUnit, recordedRows_eq members, read, ok_bind, final, expect_some, ok_bind]
    exact published

/-- Materialization reads the unit's own invocations only. -/
theorem Whole.materializes {us : List RootUnit} {x : Values} (loops : ∀ l, .loop l ∈ us → ∃ found, LoopWired p l found)
    (h : Whole p M us v x) : us.foldlM (materializeUnit p.hash M p.bindings p.byScope) v = .ok x := by
  induction h with
  | nil v => rfl
  | cons here _ ih =>
    rw [List.foldlM_cons, here.materializes fun l same => loops l (same ▸ List.mem_cons_self), ok_bind]
    exact ih fun l mem => loops l (List.mem_cons_of_mem _ mem)

/-- A completed run stays as it is in every larger memory. -/
theorem Whole.stays {us : List RootUnit} {x y : Values} (loops : ∀ l, .loop l ∈ us → ∃ found, LoopWired p l found)
    (h : Whole p M us v x) (h' : Coherent p M' us v y) (kept : ∀ path k, M path = some k → M' path = some k) :
    Whole p M' us v x := by
  induction h with
  | nil v => exact .nil v
  | cons here _ ih =>
    cases h' with
    | cons here' later' =>
      obtain rfl := here.stays (fun l same => loops l (same ▸ List.mem_cons_self)) here' kept
      exact .cons here' (ih (fun l mem => loops l (List.mem_cons_of_mem _ mem)) later')

end Units

end Constructicon.Walker
