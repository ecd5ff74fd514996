import Mathlib.Logic.Relation
import Mathlib.Tactic

/-!
# Transactions and the runs they make

A transaction reads a store and either refuses or answers with a value and the
store it leaves behind; a refusal leaves the store it found. A run applies one
call after another, whoever makes it, so what holds of every run is what every
single call keeps.
-/

namespace Transaction

variable {σ ι ε α β : Type}

/-- Go on when `c` holds, refuse with `e` otherwise. -/
def require (c : Prop) [Decidable c] (e : ε) : Except ε Unit :=
  if c then .ok () else .error e

@[simp] theorem require_eq_ok {c : Prop} [Decidable c] {e : ε} {u : Unit} :
    require c e = .ok u ↔ c := by
  by_cases h : c <;> simp [require, h]

theorem require_of {c : Prop} [Decidable c] {e : ε} (h : c) : require c e = .ok () := by
  simp [require, h]

theorem require_of_not {c : Prop} [Decidable c] {e : ε} (h : ¬c) : require c e = .error e := by
  simp [require, h]

def expect (o : Option α) (e : ε) : Except ε α :=
  match o with
  | some a => .ok a
  | none => .error e

@[simp] theorem expect_some (a : α) (e : ε) : expect (some a) e = .ok a := rfl

@[simp] theorem expect_none (e : ε) : expect (none : Option α) e = .error e := rfl

@[simp] theorem expect_eq_ok {o : Option α} {e : ε} {a : α} : expect o e = .ok a ↔ o = some a := by
  cases o <;> simp [expect]

@[simp] theorem bind_eq_ok {x : Except ε α} {f : α → Except ε β} {b : β} :
    (x >>= f) = .ok b ↔ ∃ a, x = .ok a ∧ f a = .ok b := by
  cases x <;> simp [bind, Except.bind]

theorem bind_eq_error {x : Except ε α} {f : α → Except ε β} {e : ε} :
    (x >>= f) = .error e ↔ x = .error e ∨ ∃ a, x = .ok a ∧ f a = .error e := by
  cases x <;> simp [bind, Except.bind]

theorem require_eq_error {c : Prop} [Decidable c] {e e' : ε} : require c e = .error e' ↔ ¬c ∧ e = e' := by
  by_cases h : c <;> simp [require, h]

theorem expect_eq_error {o : Option α} {e e' : ε} : expect o e = .error e' ↔ o = none ∧ e = e' := by
  cases o <;> simp [expect]

@[simp] theorem ok_bind (a : α) (f : α → Except ε β) : (Except.ok a >>= f) = f a := rfl

@[simp] theorem error_bind (e : ε) (f : α → Except ε β) : (Except.error e >>= f) = .error e := rfl

theorem map_ok_iff {x : Except ε α} {f : α → β} {b : β} : x.map f = .ok b ↔ ∃ a, x = .ok a ∧ f a = b := by
  cases x <;> simp [Except.map]

theorem map_eq_error {x : Except ε α} {f : α → β} {e : ε} : x.map f = .error e ↔ x = .error e := by
  cases x <;> simp [Except.map]

@[simp] theorem mapError_eq_ok {ε' : Type} {x : Except ε α} {f : ε → ε'} {a : α} :
    x.mapError f = .ok a ↔ x = .ok a := by
  cases x <;> simp [Except.mapError]

/-- Two sequences agree up to `g` when their first parts agree up to `p` and the rest does after each. -/
theorem map_bind_eq {γ δ : Type} {x : Except ε α} {y : Except ε β} {p : α → β} {f : α → Except ε γ}
    {h : β → Except ε δ} {g : γ → δ} (first : x.map p = y)
    (next : ∀ a, x = .ok a → (f a).map g = h (p a)) : (x >>= f).map g = y >>= h := by
  subst first
  cases x with
  | error e => rfl
  | ok a => exact next a rfl

theorem map_bind_same {γ δ : Type} {x : Except ε α} {f : α → Except ε γ} {h : α → Except ε δ} {g : γ → δ}
    (next : ∀ a, x = .ok a → (f a).map g = h a) : (x >>= f).map g = x >>= h := by
  cases x with
  | error e => rfl
  | ok a => exact next a rfl

theorem mapM_ok {f : α → Except ε β} {l : List α} {r : List β} (h : l.mapM f = .ok r) :
    ∀ a ∈ l, ∃ b ∈ r, f a = .ok b := by
  induction l generalizing r with
  | nil => simp
  | cons a l ih =>
    rw [List.mapM_cons, bind_eq_ok] at h
    obtain ⟨b, hb, h⟩ := h
    rw [bind_eq_ok] at h
    obtain ⟨bs, hbs, h⟩ := h
    cases h
    intro a' ha'
    rcases List.mem_cons.mp ha' with rfl | ha'
    · exact ⟨b, List.mem_cons_self, hb⟩
    · obtain ⟨b', hb', e⟩ := ih hbs a' ha'
      exact ⟨b', List.mem_cons_of_mem _ hb', e⟩

theorem mapM_error {f : α → Except ε β} {l : List α} {e : ε} (h : l.mapM f = .error e) :
    ∃ a ∈ l, f a = .error e := by
  induction l with
  | nil => cases h
  | cons a l ih =>
    rw [List.mapM_cons] at h
    rcases bind_eq_error.mp h with here | ⟨b, -, h⟩
    · exact ⟨a, List.mem_cons_self, here⟩
    · rcases bind_eq_error.mp h with later | ⟨bs, -, h⟩
      · obtain ⟨a', mem, same⟩ := ih later
        exact ⟨a', List.mem_cons_of_mem _ mem, same⟩
      · cases h

theorem mapM_of {f : α → Except ε β} {l : List α} (h : ∀ a ∈ l, ∃ b, f a = .ok b) :
    ∃ r, l.mapM f = .ok r := by
  induction l with
  | nil => exact ⟨[], rfl⟩
  | cons a l ih =>
    obtain ⟨b, hb⟩ := h a List.mem_cons_self
    obtain ⟨bs, hbs⟩ := ih fun a' ha' => h a' (List.mem_cons_of_mem _ ha')
    exact ⟨b :: bs, by rw [List.mapM_cons, hb, ok_bind, hbs]; rfl⟩

theorem mapM_eq_map {f : α → Except ε β} {g : α → β} {l : List α} (h : ∀ a ∈ l, f a = .ok (g a)) :
    l.mapM f = .ok (l.map g) := by
  induction l with
  | nil => rfl
  | cons a l ih =>
    rw [List.mapM_cons, h a List.mem_cons_self, ok_bind, ih fun a' ha' => h a' (List.mem_cons_of_mem _ ha')]
    rfl

theorem forall₂_of_mapM {f : α → Except ε β} {l : List α} {r : List β} (h : l.mapM f = .ok r) :
    List.Forall₂ (fun a b => f a = .ok b) l r := by
  induction l generalizing r with
  | nil =>
    cases h
    exact .nil
  | cons a l ih =>
    simp only [List.mapM_cons, bind_eq_ok] at h
    obtain ⟨b, hb, bs, hbs, same⟩ := h
    cases same
    exact .cons hb (ih hbs)

theorem mapM_mem {f : α → Except ε β} {l : List α} {r : List β} (h : l.mapM f = .ok r) {b : β} (mem : b ∈ r) :
    ∃ a ∈ l, f a = .ok b := by
  have pairs := forall₂_of_mapM h
  clear h
  induction pairs with
  | nil => cases mem
  | @cons a b' l r here _ ih =>
    rcases List.mem_cons.mp mem with rfl | later
    · exact ⟨a, List.mem_cons_self, here⟩
    · obtain ⟨a', held, read⟩ := ih later
      exact ⟨a', List.mem_cons_of_mem _ held, read⟩

theorem mapM_of_forall₂ {f : α → Except ε β} {l : List α} {r : List β}
    (h : List.Forall₂ (fun a b => f a = .ok b) l r) : l.mapM f = .ok r := by
  induction h with
  | nil => rfl
  | cons head _ ih =>
    rw [List.mapM_cons, head, ok_bind, ih]
    rfl

theorem forM_of {f : α → Except ε Unit} {l : List α} (h : ∀ a ∈ l, f a = .ok ()) :
    l.forM f = .ok () := by
  induction l with
  | nil => rfl
  | cons a l ih =>
    rw [List.forM_eq_forM, List.forM_cons, h a List.mem_cons_self, ok_bind]
    exact ih fun a' ha' => h a' (List.mem_cons_of_mem _ ha')

theorem foldlM_keeps {f : σ → α → Except ε σ} {P : σ → Prop} {l : List α} {s t : σ}
    (kept : ∀ s a s', P s → f s a = .ok s' → P s') (h : l.foldlM f s = .ok t) (start : P s) :
    P t := by
  induction l generalizing s with
  | nil =>
    cases h
    exact start
  | cons a l ih =>
    rw [List.foldlM_cons, bind_eq_ok] at h
    obtain ⟨s', hs', h⟩ := h
    exact ih h (kept s a s' start hs')

theorem foldlM_of {f g : σ → α → Except ε σ} {l : List α} {s t : σ}
    (same : ∀ s a s', f s a = .ok s' → g s a = .ok s') (h : l.foldlM f s = .ok t) : l.foldlM g s = .ok t := by
  induction l generalizing s with
  | nil => exact h
  | cons a l ih =>
    rw [List.foldlM_cons, bind_eq_ok] at h
    obtain ⟨s', round, h⟩ := h
    rw [List.foldlM_cons, same s a s' round]
    exact ih h

theorem foldlM_total {f : σ → α → Except ε σ} {l : List α} (h : ∀ a ∈ l, ∀ s, ∃ t, f s a = .ok t)
    (s : σ) : ∃ t, l.foldlM f s = .ok t := by
  induction l generalizing s with
  | nil => exact ⟨s, rfl⟩
  | cons a l ih =>
    obtain ⟨t, round⟩ := h a List.mem_cons_self s
    rw [List.foldlM_cons, round]
    exact ih (fun b mem => h b (List.mem_cons_of_mem _ mem)) t

theorem foldlM_append {f : List β → α → Except ε (List β)} {g : α → Option β} {l : List α}
    (h : ∀ acc, ∀ a ∈ l, f acc a = .ok (acc ++ (g a).toList)) (acc : List β) :
    l.foldlM f acc = .ok (acc ++ l.filterMap g) := by
  induction l generalizing acc with
  | nil =>
    rw [List.filterMap_nil, List.append_nil]
    rfl
  | cons a l ih =>
    rw [List.foldlM_cons, h acc a List.mem_cons_self, ok_bind,
      ih (fun acc b hb => h acc b (List.mem_cons_of_mem _ hb)), List.append_assoc]
    cases hg : g a with
    | none => rw [List.filterMap_cons_none hg, Option.toList_none, List.nil_append]
    | some b => rw [List.filterMap_cons_some hg, Option.toList_some, List.singleton_append]

/-- The store after a transaction: what it wrote, or what it found when it refused. -/
def settle (s : σ) (t : Except ε (α × σ)) : σ :=
  match t with
  | .ok (_, s') => s'
  | .error _ => s

@[simp] theorem settle_ok (s s' : σ) (a : α) : settle s (.ok (a, s') : Except ε (α × σ)) = s' := rfl

@[simp] theorem settle_error (s : σ) (e : ε) : settle s (.error e : Except ε (α × σ)) = s := rfl

theorem settle_cases {s : σ} {t : Except ε (α × σ)} {P : σ → Prop} (found : P s)
    (wrote : ∀ a s', t = .ok (a, s') → P s') : P (settle s t) := by
  cases t with
  | error e => exact found
  | ok r => exact wrote r.1 r.2 rfl

@[simp] theorem settle_map (s : σ) (t : Except ε (α × σ)) (f : α → β) :
    settle s (t.map (Prod.map f id)) = settle s t := by
  cases t <;> rfl

/-- What a list of calls is answered: a value for each that is accepted. -/
def replies (call : σ → ι → Except ε (α × σ)) : σ → List ι → List (Option α)
  | _, [] => []
  | s, c :: calls => ((call s c).toOption.map Prod.fst) :: replies call (settle s (call s c)) calls

def after (call : σ → ι → Except ε (α × σ)) (s : σ) (calls : List ι) : σ :=
  calls.foldl (fun s c => settle s (call s c)) s

theorem after_append (call : σ → ι → Except ε (α × σ)) (s : σ) (calls more : List ι) :
    after call s (calls ++ more) = after call (after call s calls) more := List.foldl_append

theorem foldlM_same {f g : σ → α → Except ε σ} {l : List α} (h : ∀ s, ∀ a ∈ l, f s a = g s a) (s : σ) :
    l.foldlM f s = l.foldlM g s := by
  induction l generalizing s with
  | nil => rfl
  | cons a l ih =>
    rw [List.foldlM_cons, List.foldlM_cons, h s a List.mem_cons_self]
    cases g s a with
    | error e => rfl
    | ok t => exact ih (fun s b mem => h s b (List.mem_cons_of_mem _ mem)) t

theorem bind_toOption {x y : Except ε α} {f : α → Except ε β} (h : x.toOption = y.toOption) :
    (x >>= f).toOption = (y >>= f).toOption := by
  cases x with
  | error e =>
    cases y with
    | error e' => rfl
    | ok b => exact absurd h (by simp [Except.toOption])
  | ok a =>
    cases y with
    | error e' => exact absurd h (by simp [Except.toOption])
    | ok b =>
      cases Option.some.inj h
      rfl

theorem foldlM_toOption {f g : σ → α → Except ε σ} (h : ∀ s a, (f s a).toOption = (g s a).toOption)
    (l : List α) (s : σ) : (l.foldlM f s).toOption = (l.foldlM g s).toOption := by
  induction l generalizing s with
  | nil => rfl
  | cons a l ih =>
    have here := h s a
    rw [List.foldlM_cons, List.foldlM_cons]
    cases hf : f s a with
    | error e =>
      cases hg : g s a with
      | error e' => rfl
      | ok t =>
        rw [hf, hg] at here
        exact absurd here (by simp [Except.toOption])
    | ok t =>
      cases hg : g s a with
      | error e' =>
        rw [hf, hg] at here
        exact absurd here (by simp [Except.toOption])
      | ok t' =>
        rw [hf, hg] at here
        cases Option.some.inj here
        exact ih t

/-- A transaction answers as its abstraction does and leaves stores that are related. -/
inductive Agrees {τ : Type} (R : σ → τ → Prop) : Except ε (α × σ) → Option (α × τ) → Prop
  | accept {a : α} {s : σ} {t : τ} (h : R s t) : Agrees R (.ok (a, s)) (some (a, t))
  | refuse {e : ε} : Agrees R (.error e) none

/-- `t` comes from `s` by some list of calls. -/
def Reaches (step : σ → ι → σ) (s t : σ) : Prop := ∃ calls : List ι, calls.foldl step s = t

namespace Reaches

variable {step : σ → ι → σ} {s t u : σ}

theorem refl (s : σ) : Reaches step s s := ⟨[], rfl⟩

theorem single (s : σ) (c : ι) : Reaches step s (step s c) := ⟨[c], rfl⟩

theorem trans (h : Reaches step s t) (h' : Reaches step t u) : Reaches step s u := by
  obtain ⟨calls, rfl⟩ := h
  obtain ⟨calls', rfl⟩ := h'
  exact ⟨calls ++ calls', by rw [List.foldl_append]⟩

theorem invariant {I : σ → Prop} (kept : ∀ s c, I s → I (step s c)) (h : Reaches step s t)
    (start : I s) : I t := by
  obtain ⟨calls, rfl⟩ := h
  induction calls generalizing s with
  | nil => exact start
  | cons c calls ih => exact ih (kept s c start)

theorem relates {I : σ → Prop} {R : σ → σ → Prop} (rfl' : ∀ s, R s s)
    (chain : ∀ {a b c}, R a b → R b c → R a c) (kept : ∀ s c, I s → I (step s c))
    (moves : ∀ s c, I s → R s (step s c)) (h : Reaches step s t) (start : I s) : R s t := by
  obtain ⟨calls, rfl⟩ := h
  induction calls generalizing s with
  | nil => exact rfl' s
  | cons c calls ih => exact chain (moves s c start) (ih (kept s c start))

end Reaches

/-- `t` comes from `s` by calls that were each admissible where they were made. -/
inductive Guarded (ok : σ → ι → Prop) (step : σ → ι → σ) (s : σ) : σ → Prop
  | refl : Guarded ok step s s
  | call {t : σ} (c : ι) (h : Guarded ok step s t) (here : ok t c) : Guarded ok step s (step t c)

theorem Guarded.invariant {ok : σ → ι → Prop} {step : σ → ι → σ} {I : σ → Prop} {s t : σ}
    (kept : ∀ s c, ok s c → I s → I (step s c)) (h : Guarded ok step s t) (start : I s) : I t := by
  induction h with
  | refl => exact start
  | call c h here ih => exact kept _ c here ih

end Transaction
