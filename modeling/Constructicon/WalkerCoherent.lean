import Constructicon.WalkerExecute
import Constructicon.WalkerMemory

/-!
# Memories that a run can explain

A memory is coherent when reading the units in order explains all that it holds: every
completion was made from the values the completions before it publish, by an
implementation that may answer so, and a loop has gone through its iterations one after
the other. What a coherent memory holds is found in order again, whatever has been added
elsewhere.
-/

namespace Constructicon.Walker

open Transaction

structure Shared where
  hash : Dict String Json → Digest
  bindings : Dict String ResolvedPortBinding
  byScope : Dict ScopePath Instance
  conduct : Conduct

/-- A completion on record and what its instance publishes, among the values it found. -/
structure Explained (p : Shared) (i : Instance) (k : Checkpoint) (v v' : Values) : Prop where
  inputs : ∃ inputs, nodeInputs p.bindings v i = .ok inputs ∧ Completes p.hash p.conduct i inputs k
  published : publishAtomicOutputs i (payloads k) v = .ok v'

/-- The completions of some instances in a row: those of the first ones, each explained
by the values before it. The last argument holds the values behind a whole row. -/
inductive RowState (p : Shared) (row : ScopePath → Option Checkpoint) :
    List Instance → Values → Option Values → Prop
  | complete (v : Values) : RowState p row [] v (some v)
  | stops {i : Instance} {rest : List Instance} {v : Values} (absent : ∀ j ∈ i :: rest, row j.scope = none) :
      RowState p row (i :: rest) v none
  | plays {i : Instance} {rest : List Instance} {k : Checkpoint} {v v' : Values} {final : Option Values}
      (known : row i.scope = some k) (explained : Explained p i k v v') (later : RowState p row rest v' final) :
      RowState p row (i :: rest) v final

inductive LoopEnd where
  | rests
  | exhausted
  | undecided (d : Damage)
  | done (final : Values)

def rowOf (M : Memory) (l : LoopResolution) (index : ℕ) : ScopePath → Option Checkpoint :=
  fun scope => M (iterationPath l scope index)

/-- Nothing is recorded from iteration `index` on. -/
def Blank (M : Memory) (l : LoopResolution) (found : List Instance) (index : ℕ) : Prop :=
  ∀ later ≥ index, ∀ i ∈ found, rowOf M l later i.scope = none

/-- The iterations of a loop from `index` on, when `remaining` of them are allowed. -/
inductive LoopState (p : Shared) (M : Memory) (l : LoopResolution) (found : List Instance) (outer : Values) :
    ℕ → ℕ → Option Values → LoopEnd → Prop
  | exhausted {index : ℕ} {previous : Option Values} : LoopState p M l found outer 0 index previous .exhausted
  | blank {remaining index : ℕ} {previous : Option Values} (blank : Blank M l found index) :
      LoopState p M l found outer (remaining + 1) index previous .rests
  | stops {remaining index : ℕ} {previous : Option Values} {v : Values}
      (seeded : seedLoopIteration l index outer previous = .ok v)
      (row : RowState p (rowOf M l index) found v none) (later : Blank M l found (index + 1)) :
      LoopState p M l found outer (remaining + 1) index previous .rests
  | undecided {remaining index : ℕ} {previous : Option Values} {v v' : Values} {d : Damage}
      (seeded : seedLoopIteration l index outer previous = .ok v)
      (row : RowState p (rowOf M l index) found v (some v')) (decision : loopDecision l v' = .error d)
      (later : Blank M l found (index + 1)) :
      LoopState p M l found outer (remaining + 1) index previous (.undecided d)
  | goes {remaining index : ℕ} {previous : Option Values} {v v' : Values} {e : LoopEnd}
      (seeded : seedLoopIteration l index outer previous = .ok v)
      (row : RowState p (rowOf M l index) found v (some v')) (decision : loopDecision l v' = .ok true)
      (later : LoopState p M l found outer remaining (index + 1) (some v') e) :
      LoopState p M l found outer (remaining + 1) index previous e
  | done {remaining index : ℕ} {previous : Option Values} {v v' : Values}
      (seeded : seedLoopIteration l index outer previous = .ok v)
      (row : RowState p (rowOf M l index) found v (some v')) (decision : loopDecision l v' = .ok false)
      (later : Blank M l found (index + 1)) :
      LoopState p M l found outer (remaining + 1) index previous (.done v')

structure Members (p : Shared) (l : LoopResolution) (found : List Instance) : Prop where
  order : found.map Instance.scope = l.memberOrder
  known : ∀ i ∈ found, p.byScope.get? i.scope = some i

/-- What a memory holds of one unit; the last argument holds the values behind a completed
one. -/
inductive UnitState (p : Shared) (M : Memory) : RootUnit → Values → Option Values → Prop
  | absent {i : Instance} {v : Values} (absent : M ⟨i.scope, []⟩ = none) : UnitState p M (.atomic i) v none
  | played {i : Instance} {k : Checkpoint} {v v' : Values} (known : M ⟨i.scope, []⟩ = some k)
      (explained : Explained p i k v v') : UnitState p M (.atomic i) v (some v')
  | within {l : LoopResolution} {found : List Instance} {v : Values} {e : LoopEnd} (members : Members p l found)
      (state : LoopState p M l found v l.maxIterations 0 none e) (unfinished : ∀ final, e ≠ .done final) :
      UnitState p M (.loop l) v none
  | left {l : LoopResolution} {found : List Instance} {v v' final : Values} (members : Members p l found)
      (state : LoopState p M l found v l.maxIterations 0 none (.done final))
      (published : publishLoopExports l final v = .ok v') : UnitState p M (.loop l) v (some v')

/-- A memory explained unit by unit, from the values before the units to those behind
them. -/
inductive Coherent (p : Shared) (M : Memory) : List RootUnit → Values → Values → Prop
  | nil (v : Values) : Coherent p M [] v v
  | cons {u : RootUnit} {rest : List RootUnit} {v w : Values} {r : Option Values} (here : UnitState p M u v r)
      (later : Coherent p M rest (r.getD v) w) : Coherent p M (u :: rest) v w

/-- A memory that explains the units as completed, one and all. -/
inductive Whole (p : Shared) (M : Memory) : List RootUnit → Values → Values → Prop
  | nil (v : Values) : Whole p M [] v v
  | cons {u : RootUnit} {rest : List RootUnit} {v w x : Values} (here : UnitState p M u v (some w))
      (later : Whole p M rest w x) : Whole p M (u :: rest) v x

/-! ## Larger values -/

section Mono

variable {p : Shared} {M M' : Memory} {v w : Values}

theorem Explained.mono {i : Instance} {k : Checkpoint} {v' : Values} (h : Explained p i k v v') (below : v.Below w) :
    ∃ w', Explained p i k w w' ∧ v'.Below w' := by
  obtain ⟨inputs, ready, completes⟩ := h.inputs
  obtain ⟨w', publishes, larger⟩ := (publishes_atomic h.published).mono below
  exact ⟨w', ⟨⟨inputs, nodeInputs_mono below ready, completes⟩, publishes.here⟩, larger⟩

theorem LoopState.mono {l : LoopResolution} {found : List Instance} {remaining index : ℕ} {previous : Option Values}
    {e : LoopEnd} (h : LoopState p M l found v remaining index previous e) (below : v.Below w) :
    LoopState p M l found w remaining index previous e := by
  induction h with
  | exhausted => exact .exhausted
  | blank blank => exact .blank blank
  | stops seeded row later => exact .stops (seedLoopIteration_mono below seeded) row later
  | undecided seeded row decision later => exact .undecided (seedLoopIteration_mono below seeded) row decision later
  | goes seeded row decision _ ih => exact .goes (seedLoopIteration_mono below seeded) row decision ih
  | done seeded row decision later => exact .done (seedLoopIteration_mono below seeded) row decision later

theorem UnitState.mono {u : RootUnit} {r : Option Values} (h : UnitState p M u v r) (below : v.Below w) :
    ∃ r', UnitState p M u w r' ∧ Option.Rel Dict.Below r r' := by
  cases h with
  | absent absent => exact ⟨none, .absent absent, .none⟩
  | played known explained =>
    obtain ⟨w', again, larger⟩ := explained.mono below
    exact ⟨some w', .played known again, .some larger⟩
  | within members state unfinished => exact ⟨none, .within members (state.mono below) unfinished, .none⟩
  | left members state published =>
    obtain ⟨w', publishes, larger⟩ := (publishes_loop published).mono below
    exact ⟨some w', .left members (state.mono below) publishes.here, .some larger⟩

theorem Coherent.mono {us : List RootUnit} {x : Values} (h : Coherent p M us v x) (below : v.Below w) :
    ∃ y, Coherent p M us w y ∧ x.Below y := by
  induction h generalizing w with
  | nil v => exact ⟨w, .nil w, below⟩
  | @cons u rest v x r here _ ih =>
    obtain ⟨r', again, larger⟩ := here.mono below
    have next : (r.getD v).Below (r'.getD w) := by
      cases larger with
      | none => exact below
      | some larger => exact larger
    obtain ⟨y, later, above⟩ := ih next
    exact ⟨y, .cons again later, above⟩

end Mono

/-! ## Other memories -/

def RootUnit.Owns : RootUnit → ExecutionPath → Prop
  | .atomic i, path => path = ⟨i.scope, []⟩
  | .loop l, path => ∃ member ∈ l.memberOrder, ∃ index, path = iterationPath l member index

section Frame

variable {p : Shared} {M M' : Memory} {v : Values}

theorem RowState.frame {row row' : ScopePath → Option Checkpoint} {found : List Instance} {final : Option Values}
    (h : RowState p row found v final) (same : ∀ i ∈ found, row' i.scope = row i.scope) :
    RowState p row' found v final := by
  induction h with
  | complete v => exact .complete v
  | stops absent => exact .stops fun j mem => (same j mem).trans (absent j mem)
  | plays known explained _ ih =>
    exact .plays ((same _ List.mem_cons_self).trans known) explained
      (ih fun i mem => same i (List.mem_cons_of_mem _ mem))

theorem Blank.frame {l : LoopResolution} {found : List Instance} {index : ℕ} (h : Blank M l found index)
    (same : ∀ later ≥ index, ∀ i ∈ found, rowOf M' l later i.scope = rowOf M l later i.scope) :
    Blank M' l found index := fun later from_ i mem => (same later from_ i mem).trans (h later from_ i mem)

theorem LoopState.frame {l : LoopResolution} {found : List Instance} {remaining index : ℕ} {previous : Option Values}
    {e : LoopEnd} (h : LoopState p M l found v remaining index previous e)
    (same : ∀ later ≥ index, ∀ i ∈ found, rowOf M' l later i.scope = rowOf M l later i.scope) :
    LoopState p M' l found v remaining index previous e := by
  have beyond {index : ℕ} (same : ∀ later ≥ index, ∀ i ∈ found, rowOf M' l later i.scope = rowOf M l later i.scope) :
      ∀ later ≥ index + 1, ∀ i ∈ found, rowOf M' l later i.scope = rowOf M l later i.scope :=
    fun later from_ => same later (Nat.le_of_succ_le from_)
  induction h with
  | exhausted => exact .exhausted
  | blank blank => exact .blank (blank.frame same)
  | stops seeded row later => exact .stops seeded (row.frame (same _ le_rfl)) (later.frame (beyond same))
  | undecided seeded row decision later =>
    exact .undecided seeded (row.frame (same _ le_rfl)) decision (later.frame (beyond same))
  | goes seeded row decision _ ih => exact .goes seeded (row.frame (same _ le_rfl)) decision (ih (beyond same))
  | done seeded row decision later => exact .done seeded (row.frame (same _ le_rfl)) decision (later.frame (beyond same))

theorem Members.owns {l : LoopResolution} {found : List Instance} (h : Members p l found) (index : ℕ) {i : Instance}
    (mem : i ∈ found) : (RootUnit.loop l).Owns (iterationPath l i.scope index) :=
  ⟨i.scope, h.order ▸ List.mem_map_of_mem mem, index, rfl⟩

theorem UnitState.frame {u : RootUnit} {r : Option Values} (h : UnitState p M u v r)
    (same : ∀ path, u.Owns path → M' path = M path) : UnitState p M' u v r := by
  cases h with
  | absent absent => exact .absent ((same _ rfl).trans absent)
  | played known explained => exact .played ((same _ rfl).trans known) explained
  | within members state unfinished =>
    exact .within members (state.frame fun later _ i mem => same _ (members.owns later mem)) unfinished
  | left members state published =>
    exact .left members (state.frame fun later _ i mem => same _ (members.owns later mem)) published

theorem Coherent.frame {us : List RootUnit} {x : Values} (h : Coherent p M us v x)
    (same : ∀ u ∈ us, ∀ path, u.Owns path → M' path = M path) : Coherent p M' us v x := by
  induction h with
  | nil v => exact .nil v
  | cons here _ ih =>
    exact .cons (here.frame (same _ List.mem_cons_self)) (ih fun u mem => same u (List.mem_cons_of_mem _ mem))

theorem Whole.frame {us : List RootUnit} {x : Values} (h : Whole p M us v x)
    (same : ∀ u ∈ us, ∀ path, u.Owns path → M' path = M path) : Whole p M' us v x := by
  induction h with
  | nil v => exact .nil v
  | cons here _ ih =>
    exact .cons (here.frame (same _ List.mem_cons_self)) (ih fun u mem => same u (List.mem_cons_of_mem _ mem))

theorem Whole.append {us us' : List RootUnit} {x y : Values} (h : Whole p M us v x) (h' : Whole p M us' x y) :
    Whole p M (us ++ us') v y := by
  induction h with
  | nil v => exact h'
  | cons here _ ih => exact .cons here (ih h')

theorem Coherent.append {us us' : List RootUnit} {x y : Values} (h : Coherent p M us v x)
    (h' : Coherent p M us' x y) : Coherent p M (us ++ us') v y := by
  induction h with
  | nil v => exact h'
  | cons here _ ih => exact .cons here (ih h')

end Frame

end Constructicon.Walker
