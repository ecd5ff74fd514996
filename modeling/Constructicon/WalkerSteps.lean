import Constructicon.WalkerHistory
import Mathlib.Order.CompletePartialOrder

/-!
# One unit of an attempt

An attempt adds completions only where there were none, calls each implementation at most
once and only for what is not on record, and whatever ends it leaves a memory that the
values explain.
-/

namespace Constructicon.Walker

open Transaction

/-! ## What an attempt changes -/

/-- A view and a later one of the same attempt: everything recorded is kept, and what is
new stands under `owns` and was called for. -/
structure Grew (owns : Set ExecutionPath) (v v' : View) : Prop where
  kept : ∀ path k, v.memory path = some k → v'.memory path = some k
  elsewhere : ∀ path, path ∉ owns → v'.memory path = v.memory path
  calls : ∃ new : List (ExecutionPath × Dict String Json), v'.calls = v.calls ++ new ∧ (new.map Prod.fst).Nodup ∧
    (∀ path ∈ new.map Prod.fst, path ∈ owns ∧ v.memory path = none) ∧
    ∀ path, v'.memory path ≠ v.memory path → path ∈ new.map Prod.fst

namespace Grew

variable {A B : Set ExecutionPath} {v v' v'' : View}

theorem still (memory : v'.memory = v.memory) (calls : v'.calls = v.calls) : Grew A v v' := by
  refine ⟨fun path k known => memory ▸ known, fun path _ => congrFun memory path, [], ?_⟩
  rw [calls, List.append_nil]
  exact ⟨rfl, List.nodup_nil, by simp, fun path changed => absurd (congrFun memory path) changed⟩

theorem refl : Grew A v v := still rfl rfl

theorem mono (h : Grew A v v') (sub : A ⊆ B) : Grew B v v' := by
  obtain ⟨new, calls, distinct, called, recorded⟩ := h.calls
  exact ⟨h.kept, fun path out => h.elsewhere path fun inside => out (sub inside), new, calls, distinct,
    fun path mem => ⟨sub (called path mem).1, (called path mem).2⟩, recorded⟩

theorem trans (h : Grew A v v') (h' : Grew B v' v'') (apart : Disjoint A B) : Grew (A ∪ B) v v'' := by
  obtain ⟨new, calls, distinct, called, recorded⟩ := h.calls
  obtain ⟨new', calls', distinct', called', recorded'⟩ := h'.calls
  refine ⟨fun path k known => h'.kept path k (h.kept path k known), ?_, new ++ new', ?_, ?_, ?_, ?_⟩
  · intro path out
    rw [Set.mem_union, not_or] at out
    exact (h'.elsewhere path out.2).trans (h.elsewhere path out.1)
  · rw [calls', calls, List.append_assoc]
  · rw [List.map_append, List.nodup_append]
    refine ⟨distinct, distinct', ?_⟩
    rintro path early _ late rfl
    exact Set.disjoint_left.mp apart (called path early).1 (called' path late).1
  · intro path mem
    rw [List.map_append, List.mem_append] at mem
    rcases mem with early | late
    · exact ⟨.inl (called path early).1, (called path early).2⟩
    · obtain ⟨inside, absent⟩ := called' path late
      refine ⟨.inr inside, ?_⟩
      by_contra known
      obtain ⟨k, known⟩ := Option.ne_none_iff_exists'.mp known
      cases (h.kept path k known).symm.trans absent
  · intro path changed
    rw [List.map_append, List.mem_append]
    by_cases first : v'.memory path = v.memory path
    · exact .inr (recorded' path fun same => changed (same.trans first))
    · exact .inl (recorded path first)

theorem before (h : Grew A v v') (memory : v''.memory = v'.memory) (calls : v''.calls = v'.calls) : Grew A v v'' := by
  have both := h.trans (still (A := ∅) memory calls) (Set.disjoint_empty A)
  rwa [Set.union_empty] at both

end Grew

/-- What an attempt has collected of failed, blocked and waiting units. -/
def View.ledger (v : View) : Dict String String × List DependencyReport × List ParkedUnit := (v.failures, v.blocked, v.parked)

def Troubled (v : View) : Prop := v.failures.entries ≠ [] ∨ v.parked ≠ []

theorem Troubled.of_ledger {v v' : View} (h : Troubled v) (same : v'.ledger = v.ledger) : Troubled v' := by
  obtain ⟨failures, -, parked⟩ : v'.failures = v.failures ∧ v'.blocked = v.blocked ∧ v'.parked = v.parked := by
    simpa [View.ledger] using same
  rw [Troubled, failures, parked]
  exact h

/-- What all attempts of a run share, as one of them has it. -/
def Context.shared (c : Context) (conduct : Conduct) : Shared := ⟨inputHash c, c.bindings, c.byScope, conduct⟩

/-! ## An instance -/

/-- How an instance that was restored or invoked leaves the attempt. -/
inductive Came (p : Shared) (i : Instance) (path : ExecutionPath) (x : Values) (v : View) : UnitOutcome → Values → View → Prop
  | through {k : Checkpoint} {x' : Values} {v' : View} (known : v'.memory path = some k)
      (explained : Explained p i k x x') (grew : Grew {path} v v') (ledger : v'.ledger = v.ledger) :
      Came p i path x v .completed x' v'
  | stopped {outcome : UnitOutcome} {v' : View} (was : v.memory path = none) (absent : v'.memory path = none)
      (stop : outcome.Stopped path) (grew : Grew {path} v v') (ledger : v'.ledger = v.ledger) :
      Came p i path x v outcome x v'

structure Struck (p : Shared) (i : Instance) (path : ExecutionPath) (x : Values) (v v' : View) : Prop where
  grew : Grew {path} v v'
  explained : ∀ k, v'.memory path = some k → ∃ x', Explained p i k x x'

section Views

variable {α : Type} {run : RunId} {m : Walk α} {Q : α → Attempt → Prop} {E : Raised → Attempt → Prop} {P : View → Prop}

theorem triple_of_view (h : ∀ v, P v → Proc.Triple (Seen run v) m Q E) :
    Proc.Triple (fun s => P (s.view run)) m Q E := fun s held => h (s.view run) held s rfl

theorem Seen.view {v : View} {s : Attempt} (seen : Seen run v s) (h : P v) : P (s.view run) := by
  rw [show s.view run = v from seen]
  exact h

end Views

section Instances

variable {c : Context} {conduct : Conduct} {v : View} {path : ExecutionPath} {i : Instance} {x : Values}

theorem grew_called (inputs : Dict String Json) (absent : v.memory path = none) :
    Grew {path} v (v.called path inputs) := by
  refine ⟨fun _ _ => id, fun _ _ => rfl, [(path, inputs)], rfl, List.nodup_singleton _, ?_, fun _ changed => absurd rfl changed⟩
  intro other mem
  rw [List.map_singleton, List.mem_singleton] at mem
  subst mem
  exact ⟨rfl, absent⟩

theorem grew_completed (inputs : Dict String Json) (k : Checkpoint) (absent : v.memory path = none) :
    Grew {path} v (v.completed path inputs k) := by
  refine ⟨?_, ?_, [(path, inputs)], rfl, List.nodup_singleton _, ?_, ?_⟩
  · intro other k' known
    have ne : other ≠ path := by
      rintro rfl
      cases absent.symm.trans known
    exact (Memory.record_ne _ _ ne).trans known
  · exact fun other out => Memory.record_ne _ _ out
  · intro other mem
    rw [List.map_singleton, List.mem_singleton] at mem
    subst mem
    exact ⟨rfl, absent⟩
  · intro other changed
    by_contra out
    rw [List.map_singleton, List.mem_singleton] at out
    exact changed (Memory.record_ne _ _ out)

theorem executeOrRestore_came (quiet : c.world.Quiet c.lease.runId) (obeys : c.world.Obeys conduct)
    {inputs : Dict String Json} (ready : nodeInputs c.bindings x i = .ok inputs)
    (explained : ∀ k, v.memory path = some k → ∃ x', Explained (c.shared conduct) i k x x') :
    Proc.Triple (Seen c.lease.runId v) (executeOrRestore c path i x)
      (fun o s => Came (c.shared conduct) i path x v o.1 o.2 (s.view c.lease.runId))
      (fun e s => e.Outside ∧ Struck (c.shared conduct) i path x v (s.view c.lease.runId)) := by
  have facts : ∀ k, v.memory path = some k → k.inputHash = inputHash c inputs ∧ k.resolvedVersion = some i.version ∧
      ∃ x', publishAtomicOutputs i (payloads k) x = .ok x' := by
    intro k known
    obtain ⟨x', clear⟩ := explained k known
    obtain ⟨inputs', ready', completes⟩ := clear.inputs
    obtain rfl := Except.ok.inj (ready.symm.trans ready')
    exact ⟨completes.hash, completes.version, x', clear.published⟩
  refine ((executeOrRestore_spec quiet obeys ready facts).strengthen ?_).relax ?_
  · rintro ⟨outcome, x'⟩ s executed
    cases executed with
    | restored k known published seen =>
      obtain ⟨x'', clear⟩ := explained k known
      obtain rfl := Except.ok.inj (published.symm.trans clear.published)
      exact seen.view (P := Came (c.shared conduct) i path x v .completed x') (.through known clear .refl rfl)
    | completed k absent completes published seen =>
      refine seen.view (P := Came (c.shared conduct) i path x v .completed x') ?_
      exact .through (Memory.record_self _ _ _) ⟨⟨inputs, ready, completes⟩, published⟩ (grew_completed inputs k absent) rfl
    | stopped absent stop seen =>
      rcases seen with seen | seen
      · exact seen.view (P := Came (c.shared conduct) i path x v outcome x) (.stopped absent absent stop .refl rfl)
      · refine seen.view (P := Came (c.shared conduct) i path x v outcome x) ?_
        exact .stopped absent absent stop (grew_called inputs absent) rfl
  · rintro e s ⟨outside, left⟩
    refine ⟨outside, ?_⟩
    rcases left with seen | ⟨absent, seen | ⟨k, seen, completes⟩⟩
    · exact seen.view (P := Struck (c.shared conduct) i path x v) ⟨.refl, explained⟩
    · refine seen.view (P := Struck (c.shared conduct) i path x v) ⟨grew_called inputs absent, ?_⟩
      exact fun k known => absurd (absent.symm.trans known) (by simp)
    · refine seen.view (P := Struck (c.shared conduct) i path x v) ⟨grew_completed inputs k absent, ?_⟩
      intro k' known
      obtain rfl := Option.some.inj ((Memory.record_self _ _ _).symm.trans known)
      obtain ⟨x', published⟩ := publishAtomicOutputs_ok completes.declared x
      exact ⟨x', ⟨inputs, ready, completes⟩, published⟩

end Instances

end Constructicon.Walker
