import Constructicon.Validator

/-!
# Compilations without faults

Admission succeeds only when the whole compilation returns and logs no fault.
`Clean x l a` says that of one computation: it returns `a`, its log is `l`, and no
entry of `l` is a fault. It distributes over binds, so a clean compilation is
clean in every part.
-/

namespace Constructicon

variable {δ α β : Type}

section Logs

@[simp] theorem faultsOf_append (l l' : List (Emitted δ)) :
    faultsOf (l ++ l') = faultsOf l ++ faultsOf l' := List.filterMap_append

@[simp] theorem resolutionsOf_append (l l' : List (Emitted δ)) :
    resolutionsOf (l ++ l') = resolutionsOf l ++ resolutionsOf l' := List.filterMap_append

@[simp] theorem bindingsOf_append (l l' : List (Emitted δ)) :
    bindingsOf (l ++ l') = bindingsOf l ++ bindingsOf l' := List.filterMap_append

@[simp] theorem capabilitiesOf_append (l l' : List (Emitted δ)) :
    capabilitiesOf (l ++ l') = capabilitiesOf l ++ capabilitiesOf l' := List.filterMap_append

@[simp] theorem loopsOf_append (l l' : List (Emitted δ)) :
    loopsOf (l ++ l') = loopsOf l ++ loopsOf l' := List.filterMap_append

@[simp] theorem atomicsOf_append (l l' : List (Emitted δ)) :
    atomicsOf (l ++ l') = atomicsOf l ++ atomicsOf l' := List.filterMap_append

@[simp] theorem pinsOf_append (l l' : List (Emitted δ)) :
    pinsOf (l ++ l') = pinsOf l ++ pinsOf l' := List.filterMap_append

end Logs

/-- `x` returns `a`, and its log `l` holds no fault. -/
def Clean (x : Compile δ α) (l : List (Emitted δ)) (a : α) : Prop :=
  x.Returns l a ∧ faultsOf l = []

@[simp] theorem clean_pure {a b : α} {l : List (Emitted δ)} :
    Clean (pure a : Compile δ α) l b ↔ l = [] ∧ a = b := by
  simp only [Clean, Emit.pure_returns]
  constructor
  · exact fun h => h.1
  · rintro ⟨rfl, rfl⟩
    exact ⟨⟨rfl, rfl⟩, rfl⟩

theorem clean_bind {x : Compile δ α} {f : α → Compile δ β} {l : List (Emitted δ)} {b : β} :
    Clean (x >>= f) l b ↔ ∃ l₁ a l₂, Clean x l₁ a ∧ Clean (f a) l₂ b ∧ l = l₁ ++ l₂ := by
  simp only [Clean, Emit.bind_returns]
  constructor
  · rintro ⟨⟨l₁, a, l₂, hx, hf, rfl⟩, hl⟩
    rw [faultsOf_append, List.append_eq_nil_iff] at hl
    exact ⟨l₁, a, l₂, ⟨hx, hl.1⟩, ⟨hf, hl.2⟩, rfl⟩
  · rintro ⟨l₁, a, l₂, ⟨hx, h₁⟩, ⟨hf, h₂⟩, rfl⟩
    exact ⟨⟨l₁, a, l₂, hx, hf, rfl⟩, by simp [h₁, h₂]⟩

@[simp] theorem not_clean_fault {f : Fault} {l : List (Emitted δ)} {u : Unit} :
    ¬ Clean (fault f : Compile δ Unit) l u := by
  rintro ⟨h, hl⟩
  rw [fault, Emit.tell_returns] at h
  subst h
  simp [faultsOf, Emitted.fault?] at hl

@[simp] theorem not_clean_raise {e : Raised} {l : List (Emitted δ)} {a : α} :
    ¬ Clean (Emit.raise e : Compile δ α) l a := fun h => Emit.raise_returns h.1

@[simp] theorem clean_tell {e : Emitted δ} {l : List (Emitted δ)} {u : Unit} :
    Clean (Emit.tell e : Compile δ Unit) l u ↔ l = [e] ∧ e.fault? = none := by
  simp only [Clean, Emit.tell_returns]
  constructor
  · rintro ⟨rfl, h⟩
    refine ⟨rfl, ?_⟩
    cases he : e.fault? with
    | none => rfl
    | some f => simp [faultsOf, he] at h
  · rintro ⟨rfl, h⟩
    exact ⟨rfl, by simp [faultsOf, h]⟩

@[simp] theorem clean_emitFaults {fs : List Fault} {l : List (Emitted δ)} {u : Unit} :
    Clean (emitFaults fs : Compile δ Unit) l u ↔ fs = [] ∧ l = [] := by
  simp only [Clean, emitFaults, Emit.tellAll_returns]
  constructor
  · rintro ⟨rfl, h⟩
    cases fs with
    | nil => exact ⟨rfl, rfl⟩
    | cons f fs => simp [faultsOf, Emitted.fault?] at h
  · rintro ⟨rfl, rfl⟩
    exact ⟨rfl, rfl⟩

theorem clean_listen {x : Compile δ α} {l l' : List (Emitted δ)} {a : α} :
    Clean (Emit.listen x) l (a, l') ↔ Clean x l a ∧ l' = l := by
  simp only [Clean, Emit.listen_returns]
  tauto

theorem clean_fault_bind {f : Fault} {k : Unit → Compile δ α} {l : List (Emitted δ)} {a : α} :
    ¬ Clean (fault f >>= k) l a := by
  rw [clean_bind]
  rintro ⟨_, _, _, h, -⟩
  exact not_clean_fault h

end Constructicon
