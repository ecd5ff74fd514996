import Mathlib.Tactic

/-!
# Procedures that may raise

A procedure changes a state and then answers or raises; what it has changed before it raises stays
changed. A triple says what holds of the state after an answer and what holds of it after an
exception, and one rule for each way to compose procedures derives it from the triples of the parts.
-/

/-- A procedure on states `σ` that answers with `α` or raises `ε`. -/
def Proc (ε σ α : Type) : Type := σ → Except ε α × σ

namespace Proc

variable {ε σ α β : Type}

def answer (a : α) : Proc ε σ α := fun s => (.ok a, s)

def fail (e : ε) : Proc ε σ α := fun s => (.error e, s)

def look : Proc ε σ σ := fun s => (.ok s, s)

def update (f : σ → σ) : Proc ε σ Unit := fun s => (.ok (), f s)

/-- Go on with the answer, or stop where an exception was raised. -/
def andThen (m : Proc ε σ α) (f : α → Proc ε σ β) : Proc ε σ β := fun s =>
  match (m s).1 with
  | .ok a => f a (m s).2
  | .error e => (.error e, (m s).2)

instance : Monad (Proc ε σ) where
  pure := answer
  bind := andThen

/-- Raise `e` when `c` holds. -/
def failIf (c : Prop) [Decidable c] (e : ε) : Proc ε σ Unit := if c then fail e else answer ()

/-- Run `m`; an exception it raises is an answer. -/
def tried (m : Proc ε σ α) : Proc ε σ (Except ε α) := fun s => (.ok (m s).1, (m s).2)

/-! ## Triples -/

/-- From every state with `P`, an answer leaves `Q` and an exception leaves `E`. -/
def Triple (P : σ → Prop) (m : Proc ε σ α) (Q : α → σ → Prop) (E : ε → σ → Prop) : Prop :=
  ∀ s, P s → (∀ a, (m s).1 = .ok a → Q a (m s).2) ∧ ∀ e, (m s).1 = .error e → E e (m s).2

variable {P P' : σ → Prop} {m m' : Proc ε σ α} {f : α → Proc ε σ β} {Q : α → σ → Prop} {R : β → σ → Prop}
  {E : ε → σ → Prop}

theorem Triple.answer {a : α} (h : ∀ s, P s → Q a s) : Triple P (Pure.pure a : Proc ε σ α) Q E := by
  intro s held
  constructor
  · intro b same
    cases same
    exact h s held
  · intro e same
    cases same

theorem Triple.fail {e : ε} (h : ∀ s, P s → E e s) : Triple P (Proc.fail e : Proc ε σ α) Q E := by
  intro s held
  constructor
  · intro b same
    cases same
  · intro e' same
    cases same
    exact h s held

theorem Triple.update {g : σ → σ} {Q : Unit → σ → Prop} (h : ∀ s, P s → Q () (g s)) :
    Triple P (Proc.update g : Proc ε σ Unit) Q E := by
  intro s held
  constructor
  · intro b same
    cases same
    exact h s held
  · intro e same
    cases same

theorem Triple.bind (first : Triple P m Q E) (next : ∀ a, Triple (Q a) (f a) R E) : Triple P (m >>= f) R E := by
  intro s held
  obtain ⟨answered, raised⟩ := first s held
  change (∀ b, (andThen m f s).1 = .ok b → R b (andThen m f s).2) ∧
    ∀ e, (andThen m f s).1 = .error e → E e (andThen m f s).2
  unfold andThen
  cases run : (m s).1 with
  | ok a => exact next a _ (answered a run)
  | error e =>
    constructor
    · intro b same
      cases same
    · intro e' same
      cases same
      exact raised _ run

theorem Triple.look {f : σ → Proc ε σ β} (next : ∀ s, P s → Triple (fun s' => s' = s) (f s) R E) :
    Triple P (look >>= f) R E := fun s held => next s held s rfl

theorem Triple.updated {g : σ → σ} {f : Unit → Proc ε σ β} {I : σ → Prop} (h : ∀ s, P s → I (g s))
    (next : Triple I (f ()) R E) : Triple P (Proc.update g >>= f) R E :=
  Triple.bind (Triple.update (Q := fun _ => I) h) fun _ => next

theorem Triple.weaken (h : Triple P' m Q E) (weaker : ∀ s, P s → P' s) : Triple P m Q E :=
  fun s held => h s (weaker s held)

theorem Triple.strengthen {Q' : α → σ → Prop} (h : Triple P m Q' E) (stronger : ∀ a s, Q' a s → Q a s) :
    Triple P m Q E := fun s held =>
  ⟨fun a run => stronger a _ ((h s held).1 a run), (h s held).2⟩

theorem Triple.relax {E' : ε → σ → Prop} (h : Triple P m Q E) (weaker : ∀ e s, E e s → E' e s) :
    Triple P m Q E' := fun s held => ⟨(h s held).1, fun e run => weaker e _ ((h s held).2 e run)⟩

theorem Triple.ite {c : Prop} [Decidable c] (yes : c → Triple P m Q E) (no : ¬c → Triple P m' Q E) :
    Triple P (if c then m else m') Q E := by
  by_cases holds : c
  · rw [if_pos holds]
    exact yes holds
  · rw [if_neg holds]
    exact no holds

theorem Triple.failIf {c : Prop} [Decidable c] {e : ε} {Q : Unit → σ → Prop} (raised : c → ∀ s, P s → E e s)
    (passed : ¬c → ∀ s, P s → Q () s) : Triple P (Proc.failIf c e : Proc ε σ Unit) Q E :=
  Triple.ite (fun holds => Triple.fail (raised holds)) fun fails => Triple.answer (passed fails)

theorem Triple.pure_left {c : Prop} (h : c → Triple P m Q E) : Triple (fun s => c ∧ P s) m Q E :=
  fun s held => h held.1 s held.2

theorem Triple.pure_right {c : Prop} (h : c → Triple P m Q E) : Triple (fun s => P s ∧ c) m Q E :=
  fun s held => h held.2 s held.1

theorem Triple.exists_left {κ : Type} {P : κ → σ → Prop} (h : ∀ k, Triple (P k) m Q E) :
    Triple (fun s => ∃ k, P k s) m Q E := fun s ⟨k, held⟩ => h k s held

theorem Triple.tried {E' : ε → σ → Prop} (h : Triple P m Q E) :
    Triple P (Proc.tried m) (fun r s => (∀ a, r = .ok a → Q a s) ∧ ∀ e, r = .error e → E e s) E' := by
  intro s held
  constructor
  · intro r same
    cases same
    exact h s held
  · intro e same
    cases same

end Proc
