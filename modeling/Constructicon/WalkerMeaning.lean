import Constructicon.WalkerAdmitted

/-!
# What a manifest computes

Without a journal a manifest is a program: its units run one after the other over the
values so far, and a loop repeats its members until it decides to stop. A memory that is
complete holds one run of this program, however many attempts have written it.
-/

namespace Constructicon.Walker

open Transaction

/-- What implementations return, where that depends on their inputs alone. -/
abbrev Behaviour := Instance → Dict String Json → Dict String Json

section Evaluation

variable (f : Behaviour) (bindings : Dict String ResolvedPortBinding) (byScope : Dict ScopePath Instance)

def evaluateInstance (values : Values) (i : Instance) : Except Damage Values := do
  let inputs ← nodeInputs bindings values i
  publishAtomicOutputs i (f i inputs) values

/-- The values behind the last iteration of a loop, which begins with iteration `index`. -/
def evaluateIterations (l : LoopResolution) (found : List Instance) (outer : Values) :
    ℕ → ℕ → Option Values → Except Damage Values
  | 0, _, _ => .error (.exhausted l.scope)
  | remaining + 1, index, previous => do
    let seeded ← seedLoopIteration l index outer previous
    let final ← found.foldlM (evaluateInstance f bindings) seeded
    let again ← loopDecision l final
    if again then evaluateIterations l found outer remaining (index + 1) (some final) else .ok final

def evaluateUnit (values : Values) : RootUnit → Except Damage Values
  | .atomic i => evaluateInstance f bindings values i
  | .loop l => do
    let found ← members byScope l
    let final ← evaluateIterations f bindings l found values l.maxIterations 0 none
    publishLoopExports l final values

end Evaluation

/-- The outputs a manifest computes from inputs. -/
def evaluate {δ : Type} (f : Behaviour) (m : ExecutionManifest δ) (instances : List Instance) (inputs : Dict String Json) :
    Except Damage (Dict String Json) := do
  let units := rootUnits m instances
  let ordered ← orderedUnits units (bindingsByKey m) (unitProducerIndex units)
  let values ← ordered.foldlM (evaluateUnit f (bindingsByKey m) (instancesByScope instances)) (rootValues m inputs)
  graphOutputs m values (bindingsByKey m)

/-- Implementations that return what `f` returns, if they return. -/
def Returns (f : Behaviour) : Conduct := fun i inputs outputs => outputs = f i inputs

section Meaning

variable {f : Behaviour} {p : Shared} {M M' : Memory} {v : Values}

theorem Explained.evaluates (returns : p.conduct = Returns f) {i : Instance} {k : Checkpoint} {v' : Values}
    (h : Explained p i k v v') : evaluateInstance f p.bindings v i = .ok v' := by
  obtain ⟨inputs, ready, completes⟩ := h.inputs
  have same : payloads k = f i inputs := by
    have conduct := completes.conduct
    rw [returns] at conduct
    exact conduct
  rw [evaluateInstance, ready, ok_bind, ← same]
  exact h.published

theorem RowState.evaluates (returns : p.conduct = Returns f) {row : ScopePath → Option Checkpoint} {found : List Instance}
    {v' : Values} (h : RowState p row found v (some v')) : found.foldlM (evaluateInstance f p.bindings) v = .ok v' := by
  generalize same : some v' = final at h
  induction h with
  | complete v =>
    cases same
    rfl
  | stops => cases same
  | plays known explained _ ih =>
    rw [List.foldlM_cons, explained.evaluates returns, ok_bind]
    exact ih same

theorem LoopState.evaluates (returns : p.conduct = Returns f) {l : LoopResolution} {found : List Instance}
    {remaining index : ℕ} {previous : Option Values} {final : Values}
    (h : LoopState p M l found v remaining index previous (.done final)) :
    evaluateIterations f p.bindings l found v remaining index previous = .ok final := by
  generalize same : LoopEnd.done final = e at h
  induction h with
  | exhausted => cases same
  | blank => cases same
  | stops => cases same
  | undecided => cases same
  | goes seeded row decision _ ih =>
    rw [evaluateIterations, seeded, ok_bind, row.evaluates returns, ok_bind, decision, ok_bind, if_pos rfl]
    exact ih same
  | done seeded row decision _ =>
    cases same
    rw [evaluateIterations, seeded, ok_bind, row.evaluates returns, ok_bind, decision, ok_bind,
      if_neg Bool.false_ne_true]

theorem UnitState.evaluates (returns : p.conduct = Returns f) {u : RootUnit} {x : Values}
    (h : UnitState p M u v (some x)) : evaluateUnit f p.bindings p.byScope v u = .ok x := by
  cases h with
  | played known explained => exact explained.evaluates returns
  | left members state published =>
    rw [evaluateUnit, members.read, ok_bind, state.evaluates returns, ok_bind]
    exact published

theorem Whole.evaluates (returns : p.conduct = Returns f) {us : List RootUnit} {x : Values} (h : Whole p M us v x) :
    us.foldlM (evaluateUnit f p.bindings p.byScope) v = .ok x := by
  induction h with
  | nil v => rfl
  | cons here _ ih =>
    rw [List.foldlM_cons, here.evaluates returns, ok_bind]
    exact ih

/-! ## Values grow with the memory -/

theorem Whole.split {pre rest : List RootUnit} {u : RootUnit} {z : Values} (h : Whole p M (pre ++ u :: rest) v z) :
    ∃ x x', Coherent p M pre v x ∧ UnitState p M u x (some x') := by
  induction pre generalizing v with
  | nil =>
    cases h with
    | cons here _ => exact ⟨v, _, .nil v, here⟩
  | cons w pre ih =>
    cases h with
    | cons here later =>
      obtain ⟨x, x', before, unit⟩ := ih later
      exact ⟨x, x', .cons here before, unit⟩

/-- A larger memory explains larger values. -/
theorem Coherent.grows {us : List RootUnit} {w x y : Values} (loops : ∀ l, .loop l ∈ us → ∃ found, LoopWired p l found)
    (h : Coherent p M us v x) (h' : Coherent p M' us w y) (kept : ∀ path k, M path = some k → M' path = some k)
    (below : v.Below w) (apart : us.Pairwise fun u u' => ∀ k ∈ u.keys, k ∉ u'.keys)
    (silent : ∀ u ∈ us, ∀ k ∈ u.keys, w.get? k = none) : x.Below y := by
  induction h generalizing w with
  | nil v =>
    cases h'
    exact below
  | @cons u rest v x r here later ih =>
    cases h' with
    | @cons _ _ _ _ r' here' later' =>
      have mine : ∀ l, u = .loop l → ∃ found, LoopWired p l found := fun l same => loops l (same ▸ List.mem_cons_self)
      obtain ⟨first, apart⟩ := List.pairwise_cons.mp apart
      refine ih (fun l mem => loops l (List.mem_cons_of_mem _ mem)) later' ?_ apart ?_
      · cases r with
        | some a =>
          obtain ⟨r'', again, larger⟩ := here.mono below
          cases larger with
          | some larger =>
            obtain rfl := again.stays mine here' kept
            exact larger
        | none =>
          cases r' with
          | none => exact below
          | some b =>
            obtain ⟨publish, publishes⟩ := here'.publishes
            exact below.trans (publishes.below (silent u List.mem_cons_self))
      · intro u' mem k key
        have still := silent u' (List.mem_cons_of_mem _ mem) k key
        cases r' with
        | none => exact still
        | some b =>
          obtain ⟨publish, publishes⟩ := here'.publishes
          by_contra found
          rcases publishes.isSome_iff.mp (Option.isSome_iff_ne_none.mpr found) with early | late
          · rw [still] at early
            cases early
          · exact first u' mem k late key

theorem Wired.keys_apart {units ordered : List RootUnit} {roots : Values} (wired : Wired p units roots ordered) :
    ordered.Pairwise fun u u' => ∀ k ∈ u.keys, k ∉ u'.keys := by
  have nodup : ordered.Nodup :=
    List.Nodup.of_map RootUnit.scope ((wired.order.perm.map RootUnit.scope).nodup_iff.mpr wired.scopes)
  refine nodup.pairwise_of_forall_ne fun u mem u' mem' ne k mine theirs => ne ?_
  exact wired.keys u (wired.mem mem) u' (wired.mem mem') k mine theirs

/-- A loop with a decision on record that is none never completes. -/
theorem Undecided.stuck {units pre rest : List RootUnit} {u : RootUnit} {roots x z : Values} {d : Damage}
    (wired : Wired p units roots (pre ++ u :: rest)) {M₀ : Memory} (h : Undecided p M₀ u x d) (before : Coherent p M pre roots x)
    (early : ∀ path k, M₀ path = some k → M path = some k) (kept : ∀ path k, M path = some k → M' path = some k) :
    ¬Whole p M' (pre ++ u :: rest) roots z := by
  intro whole
  obtain ⟨l, found, value, rfl, -, members, undecided⟩ := h
  obtain ⟨y, y', before', unit⟩ := whole.split
  have inside : ∀ w ∈ pre, w ∈ pre ++ .loop l :: rest := fun w mem => List.mem_append_left _ mem
  have larger : x.Below y := before.grows (fun l mem => wired.loops l (wired.mem (inside _ mem))) before' kept (.refl _)
    (wired.keys_apart.sublist (List.sublist_append_left _ _))
    fun w mem => wired.fresh w (wired.mem (inside w mem))
  obtain ⟨found', looped⟩ := wired.loops l (wired.mem (List.mem_append_right _ List.mem_cons_self))
  obtain rfl := members.unique looped.members
  cases unit with
  | left members' state _ =>
    obtain rfl := members'.unique looped.members
    cases (undecided.mono larger).stays looped.some (by simp) state fun path k known => kept path k (early path k known)

end Meaning

end Constructicon.Walker
