import Mathlib.Tactic

/-!
# Computations that log and may raise

`Emit ε ω α` is a computation that appends entries of type `ω` to a log and then
returns an `α` or raises an `ε`. Raising keeps what was logged. Reading a
successful computation backwards splits its log at every bind (`bind_eq_ok`).
-/

structure Emit (ε ω α : Type) where
  log : List ω
  result : Except ε α

namespace Emit

variable {ε ω α β γ : Type}

protected def pure (a : α) : Emit ε ω α := ⟨[], .ok a⟩

protected def bind (x : Emit ε ω α) (f : α → Emit ε ω β) : Emit ε ω β :=
  match x.result with
  | .error e => ⟨x.log, .error e⟩
  | .ok a => ⟨x.log ++ (f a).log, (f a).result⟩

instance : Monad (Emit ε ω) where
  pure := Emit.pure
  bind := Emit.bind

def tell (w : ω) : Emit ε ω Unit := ⟨[w], .ok ()⟩

def tellAll (ws : List ω) : Emit ε ω Unit := ⟨ws, .ok ()⟩

def raise (e : ε) : Emit ε ω α := ⟨[], .error e⟩

def lift (x : Except ε α) : Emit ε ω α := ⟨[], x⟩

/-- The computation `x` together with the entries it logged. -/
def listen (x : Emit ε ω α) : Emit ε ω (α × List ω) :=
  match x.result with
  | .error e => ⟨x.log, .error e⟩
  | .ok a => ⟨x.log, .ok (a, x.log)⟩

/-- `x` returns `a` after logging `l`. -/
def Returns (x : Emit ε ω α) (l : List ω) (a : α) : Prop := x = ⟨l, .ok a⟩

theorem Returns.result {x : Emit ε ω α} {l : List ω} {a : α} (h : x.Returns l a) : x.result = .ok a :=
  congrArg Emit.result h

theorem returns_of_result {x : Emit ε ω α} {a : α} (h : x.result = .ok a) : x.Returns x.log a := by
  obtain ⟨log, result⟩ := x
  cases h
  rfl

@[simp] theorem pure_returns {a b : α} {l : List ω} :
    (pure a : Emit ε ω α).Returns l b ↔ l = [] ∧ a = b := by
  change (⟨[], .ok a⟩ : Emit ε ω α) = ⟨l, .ok b⟩ ↔ _
  simp [eq_comm]

@[simp] theorem tell_returns {w : ω} {l : List ω} {u : Unit} :
    (tell w : Emit ε ω Unit).Returns l u ↔ l = [w] := by
  simp [Returns, tell, eq_comm]

@[simp] theorem tellAll_returns {ws : List ω} {l : List ω} {u : Unit} :
    (tellAll ws : Emit ε ω Unit).Returns l u ↔ l = ws := by
  simp [Returns, tellAll, eq_comm]

@[simp] theorem raise_returns {e : ε} {l : List ω} {a : α} :
    ¬ (raise e : Emit ε ω α).Returns l a := by simp [Returns, raise]

@[simp] theorem pure_bind (a : α) (f : α → Emit ε ω β) : (pure a >>= f) = f a := rfl

theorem bind_returns {x : Emit ε ω α} {f : α → Emit ε ω β} {l : List ω} {b : β} :
    (x >>= f).Returns l b ↔
      ∃ l₁ a l₂, x.Returns l₁ a ∧ (f a).Returns l₂ b ∧ l = l₁ ++ l₂ := by
  obtain ⟨lx, r⟩ := x
  change (Emit.bind ⟨lx, r⟩ f).Returns l b ↔ _
  cases r with
  | error e => simp [Emit.bind, Returns]
  | ok a =>
    obtain ⟨lf, rf⟩ : Emit ε ω β := f a
    constructor
    · intro h
      cases hf : f a with
      | mk lf rf =>
        simp only [Emit.bind, Returns, hf, Emit.mk.injEq] at h
        exact ⟨lx, a, lf, rfl, by rw [Returns, hf, h.2], h.1.symm⟩
    · rintro ⟨l₁, a', l₂, ha, hf, rfl⟩
      simp only [Returns, Emit.mk.injEq, Except.ok.injEq] at ha
      obtain ⟨rfl, rfl⟩ := ha
      simp only [Returns] at hf
      simp [Emit.bind, Returns, hf]

@[simp] theorem listen_returns {x : Emit ε ω α} {l l' : List ω} {a : α} :
    (listen x).Returns l (a, l') ↔ x.Returns l a ∧ l' = l := by
  obtain ⟨lx, r⟩ := x
  cases r with
  | error e => simp [listen, Returns]
  | ok b =>
    simp only [listen, Returns, Emit.mk.injEq, Except.ok.injEq, Prod.mk.injEq]
    constructor
    · rintro ⟨rfl, rfl, rfl⟩; exact ⟨⟨rfl, rfl⟩, rfl⟩
    · rintro ⟨⟨rfl, rfl⟩, rfl⟩; exact ⟨rfl, rfl, rfl⟩

@[simp] theorem log_lift (x : Except ε α) : (lift x : Emit ε ω α).log = [] := rfl

@[simp] theorem result_lift (x : Except ε α) : (lift x : Emit ε ω α).result = x := rfl

@[simp] theorem log_tell (w : ω) : (tell w : Emit ε ω Unit).log = [w] := rfl

@[simp] theorem result_tell (w : ω) : (tell w : Emit ε ω Unit).result = .ok () := rfl

@[simp] theorem result_bind (x : Emit ε ω α) (f : α → Emit ε ω β) :
    (x >>= f).result = x.result >>= fun a => (f a).result := by
  obtain ⟨log, result⟩ := x
  cases result <;> rfl

theorem result_bind_ok {x : Emit ε ω α} {a : α} (h : x.result = .ok a) (f : α → Emit ε ω β) :
    (x >>= f).result = (f a).result := by
  rw [result_bind, h]
  rfl

theorem result_bind_eq_ok {x : Emit ε ω α} {f : α → Emit ε ω β} {b : β} (h : (x >>= f).result = .ok b) :
    ∃ a, x.result = .ok a ∧ (f a).result = .ok b := by
  cases first : x.result with
  | error e =>
    rw [result_bind, first] at h
    cases h
  | ok a =>
    rw [result_bind_ok first] at h
    exact ⟨a, rfl, h⟩

theorem result_bind_congr {x y : Emit ε ω α} {f g : α → Emit ε ω β} (hx : x.result = y.result)
    (hf : ∀ a, (f a).result = (g a).result) : (x >>= f).result = (y >>= g).result := by
  rw [result_bind, result_bind, hx]
  congr 1
  funext a
  exact hf a

theorem result_listen_congr {x y : Emit ε ω α} {f g : α × List ω → Emit ε ω β} (hx : x.result = y.result)
    (hf : ∀ a l l', (f (a, l)).result = (g (a, l')).result) :
    (listen x >>= f).result = (listen y >>= g).result := by
  obtain ⟨lx, rx⟩ := x
  obtain ⟨ly, ry⟩ := y
  cases hx
  cases rx with
  | error e => rfl
  | ok a => exact hf a lx ly

@[simp] theorem result_pure (a : α) : (pure a : Emit ε ω α).result = .ok a := rfl

@[simp] theorem log_pure (a : α) : (pure a : Emit ε ω α).log = [] := rfl

theorem lift_ok_bind (a : α) (f : α → Emit ε ω β) : (lift (.ok a) >>= f) = f a := rfl

theorem log_tell_bind (w : ω) (f : Unit → Emit ε ω β) : (tell w >>= f).log = w :: (f ()).log := rfl

theorem log_bind_ok {x : Emit ε ω α} {a : α} (h : x.result = .ok a) (f : α → Emit ε ω β) :
    (x >>= f).log = x.log ++ (f a).log := by
  obtain ⟨log, result⟩ := x
  cases h
  rfl

theorem log_bind_error {x : Emit ε ω α} {e : ε} (h : x.result = .error e) (f : α → Emit ε ω β) :
    (x >>= f).log = x.log := by
  obtain ⟨log, result⟩ := x
  cases h
  rfl

theorem forall_log_bind {P : ω → Prop} {x : Emit ε ω α} {f : α → Emit ε ω β} (hx : ∀ w ∈ x.log, P w)
    (hf : ∀ a, ∀ w ∈ (f a).log, P w) : ∀ w ∈ (x >>= f).log, P w := by
  cases done : x.result with
  | error e =>
    rw [log_bind_error done]
    exact hx
  | ok a =>
    rw [log_bind_ok done]
    exact List.forall_mem_append.mpr ⟨hx, hf a⟩

theorem forall_log_lift_bind {P : ω → Prop} {x : Except ε α} {f : α → Emit ε ω β}
    (hf : ∀ a, ∀ w ∈ (f a).log, P w) : ∀ w ∈ (lift x >>= f).log, P w :=
  forall_log_bind (fun _ hw => absurd hw List.not_mem_nil) hf

theorem forall_log_tell_bind {P : ω → Prop} {w : ω} {f : Unit → Emit ε ω β} (hw : P w)
    (hf : ∀ v ∈ (f ()).log, P v) : ∀ v ∈ (tell w >>= f).log, P v := by
  rw [log_tell_bind]
  exact List.forall_mem_cons.mpr ⟨hw, hf⟩

end Emit
