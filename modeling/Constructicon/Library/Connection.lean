import Mathlib.Tactic

/-!
# Connections to one transactional store

A script is what one connection does to a store, a statement at a time. Outside a
transaction a statement acts on the durable state; between `begin_` and `commit` it acts
on a working copy, and the connection holds the one write lock. A connection that ends or
is lost gives the lock back and its working copy is gone.

What a script may do is a guarantee on the durable state: `Allowed l s t` for a commit of
the transaction `l` from `s` to `t`, `Allowed none s t` for a statement of its own. If
every script keeps the guarantee while the others move the store along `Onward`, then the
guarantee holds of every step of every interleaving (`Sound`, `run_sound`).
-/

namespace Connection

/-- A script over the states `σ` that names its transactions by `ℓ`. -/
inductive Script (ℓ σ ε α : Type) where
  | done (a : α)
  | fail (e : ε)
  | read (next : σ → Script ℓ σ ε α)
  | write (change : σ → σ) (next : σ → Script ℓ σ ε α)
  | begin_ (l : ℓ) (next : Script ℓ σ ε α)
  | commit (next : Script ℓ σ ε α)
  | rollback (next : Script ℓ σ ε α)

variable {ℓ σ ε α β ι : Type}

namespace Script

def bind (p : Script ℓ σ ε α) (k : α → Script ℓ σ ε β) : Script ℓ σ ε β :=
  match p with
  | .done a => k a
  | .fail e => .fail e
  | .read next => .read (fun s => (next s).bind k)
  | .write change next => .write change (fun s => (next s).bind k)
  | .begin_ l next => .begin_ l (next.bind k)
  | .commit next => .commit (next.bind k)
  | .rollback next => .rollback (next.bind k)

instance : Monad (Script ℓ σ ε) where
  pure := .done
  bind := bind

def lift : Except ε α → Script ℓ σ ε α
  | .ok a => .done a
  | .error e => .fail e

def query (f : σ → Except ε α) : Script ℓ σ ε α := .read (fun s => lift (f s))

def execute (change : σ → σ) : Script ℓ σ ε Unit := .write change (fun _ => .done ())

/-- `p` where `c` holds. -/
def onlyIf (c : Prop) [Decidable c] (p : Script ℓ σ ε Unit) : Script ℓ σ ε Unit :=
  if c then p else .done ()

/-- Stop with `e` where `c` holds. -/
def refuse (c : Prop) [Decidable c] (e : ε) : Script ℓ σ ε Unit :=
  if c then .fail e else .done ()

/-- `p` at every item in turn. -/
def each (items : List β) (p : β → Script ℓ σ ε Unit) : Script ℓ σ ε Unit :=
  match items with
  | [] => .done ()
  | b :: rest => (p b).bind (fun _ => each rest p)

@[simp] theorem pure_eq (a : α) : (pure a : Script ℓ σ ε α) = .done a := rfl

@[simp] theorem bind_eq (p : Script ℓ σ ε α) (k : α → Script ℓ σ ε β) : p >>= k = p.bind k := rfl

theorem bind_assoc {γ : Type} (p : Script ℓ σ ε α) (f : α → Script ℓ σ ε β) (g : β → Script ℓ σ ε γ) :
    (p.bind f).bind g = p.bind (fun a => (f a).bind g) := by
  induction p with
  | done a => rfl
  | fail e => rfl
  | read next ih =>
    change Script.read _ = Script.read _
    congr 1
    funext s
    exact ih s
  | write change next ih =>
    change Script.write _ _ = Script.write _ _
    congr 1
    funext s
    exact ih s
  | begin_ l next ih =>
    change Script.begin_ _ _ = Script.begin_ _ _
    rw [ih]
  | commit next ih =>
    change Script.commit _ = Script.commit _
    rw [ih]
  | rollback next ih =>
    change Script.rollback _ = Script.rollback _
    rw [ih]

def result : Script ℓ σ ε α → Option α
  | .done a => some a
  | _ => none

end Script

open Script

/-! ## Scripts in a transaction

Nobody else changes the working copy, so a script without transaction statements is
followed from the one state it starts in. -/

/-- From the working copy `s` the script stops, or answers in a state of `post`. -/
def Leads (post : α → σ → Prop) : Script ℓ σ ε α → σ → Prop
  | .done a, s => post a s
  | .fail _, _ => True
  | .read next, s => Leads post (next s) s
  | .write change next, s => Leads post (next s) (change s)
  | .begin_ _ _, _ => False
  | .commit _, _ => False
  | .rollback _, _ => False

theorem Leads.mono {post post' : α → σ → Prop} {p : Script ℓ σ ε α} {s : σ}
    (weaker : ∀ a t, post a t → post' a t) (h : Leads post p s) : Leads post' p s := by
  induction p generalizing s with
  | done a => exact weaker a s h
  | fail e => trivial
  | read next ih => exact ih s h
  | write change next ih => exact ih s h
  | begin_ l next ih => exact h.elim
  | commit next ih => exact h.elim
  | rollback next ih => exact h.elim

theorem leads_bind {post : β → σ → Prop} {p : Script ℓ σ ε α} {k : α → Script ℓ σ ε β} {s : σ}
    (h : Leads (fun a t => Leads post (k a) t) p s) : Leads post (p.bind k) s := by
  induction p generalizing s with
  | done a => exact h
  | fail e => trivial
  | read next ih => exact ih s h
  | write change next ih => exact ih s h
  | begin_ l next ih => exact h.elim
  | commit next ih => exact h.elim
  | rollback next ih => exact h.elim

theorem leads_lift {post : α → σ → Prop} {x : Except ε α} {s : σ} (h : ∀ a, x = .ok a → post a s) :
    Leads post (lift x : Script ℓ σ ε α) s := by
  cases x with
  | ok a => exact h a rfl
  | error e => trivial

theorem leads_query {post : α → σ → Prop} {f : σ → Except ε α} {s : σ}
    (h : ∀ a, f s = .ok a → post a s) : Leads post (query f : Script ℓ σ ε α) s :=
  leads_lift h

theorem leads_execute {post : Unit → σ → Prop} {change : σ → σ} {s : σ} (h : post () (change s)) :
    Leads post (execute change : Script ℓ σ ε Unit) s := h

theorem leads_onlyIf {I : σ → Prop} {c : Prop} [Decidable c] {p : Script ℓ σ ε Unit} {s : σ}
    (held : I s) (h : c → Leads (fun _ => I) p s) : Leads (fun _ => I) (onlyIf c p) s := by
  unfold onlyIf
  split_ifs with hc
  · exact h hc
  · exact held

theorem leads_refuse {I : σ → Prop} {c : Prop} [Decidable c] {e : ε} {s : σ} (held : ¬ c → I s) :
    Leads (fun _ => I) (refuse c e : Script ℓ σ ε Unit) s := by
  unfold refuse
  split_ifs with hc
  · trivial
  · exact held hc

theorem leads_refuse_bind {post : β → σ → Prop} {c : Prop} [Decidable c] {e : ε} {k : Unit → Script ℓ σ ε β} {s : σ}
    (h : ¬ c → Leads post (k ()) s) : Leads post ((refuse c e : Script ℓ σ ε Unit).bind k) s := by
  unfold refuse
  split_ifs with hc
  · trivial
  · exact h hc

theorem leads_each {I : σ → Prop} {items : List β} {p : β → Script ℓ σ ε Unit} {s : σ} (held : I s)
    (pass : ∀ b ∈ items, ∀ t, I t → Leads (fun _ => I) (p b) t) :
    Leads (fun _ => I) (each items p) s := by
  induction items generalizing s with
  | nil => exact held
  | cons b rest ih =>
    apply leads_bind
    apply (pass b List.mem_cons_self s held).mono
    intro _ t ht
    exact ih ht (fun b hb => pass b (List.mem_cons_of_mem _ hb))

/-! ## Scripts and their guarantee -/

section Guarantees

variable (Allowed : Option ℓ → σ → σ → Prop) (Onward : σ → σ → Prop) (Post : α → σ → Prop)

/-- The script keeps the guarantee from the durable state `d`, with the working copy
`work` when it is in a transaction, and answers outside any transaction in `Post`. -/
def Meets : Script ℓ σ ε α → Option (ℓ × σ) → σ → Prop
  | .done a, none, d => Post a d
  | .done _, some _, _ => False
  | .fail _, _, _ => True
  | .read next, none, d => ∀ d', Onward d d' → Meets (next d') none d'
  | .read next, some (l, w), d => Meets (next w) (some (l, w)) d
  | .write change next, none, d =>
      ∀ d', Onward d d' → Allowed none d' (change d') ∧ Meets (next d') none (change d')
  | .write change next, some (l, w), d => Meets (next w) (some (l, change w)) d
  | .begin_ l next, none, d => ∀ d', Onward d d' → Meets next (some (l, d')) d'
  | .begin_ _ _, some _, _ => False
  | .commit next, none, d => ∀ d', Onward d d' → Meets next none d'
  | .commit next, some (l, w), d => Allowed (some l) d w ∧ Meets next none w
  | .rollback next, none, d => ∀ d', Onward d d' → Meets next none d'
  | .rollback next, some _, d => Meets next none d

/-- A script without transaction statements that, from any state, changes the durable
state only as it may. -/
def Calm : Script ℓ σ ε α → Prop
  | .done _ => True
  | .fail _ => True
  | .read next => ∀ s, Calm (next s)
  | .write change next => ∀ s, Allowed none s (change s) ∧ Calm (next s)
  | .begin_ _ _ => False
  | .commit next => Calm next
  | .rollback _ => False

variable {Allowed Onward Post}

theorem Meets.later (trans : ∀ ⦃s t u : σ⦄, Onward s t → Onward t u → Onward s u)
    {p : Script ℓ σ ε α} {d d' : σ} (going : p.result = none) (on : Onward d d')
    (h : Meets Allowed Onward Post p none d) : Meets Allowed Onward Post p none d' := by
  cases p with
  | done a => exact absurd going (Option.some_ne_none a)
  | fail e => trivial
  | read next => exact fun t ht => h t (trans on ht)
  | write change next => exact fun t ht => h t (trans on ht)
  | begin_ l next => exact fun t ht => h t (trans on ht)
  | commit next => exact fun t ht => h t (trans on ht)
  | rollback next => exact fun t ht => h t (trans on ht)

theorem meets_of_leads {p : Script ℓ σ ε α} {k : α → Script ℓ σ ε β} {Post : β → σ → Prop} {l : ℓ} {w d : σ}
    (h : Leads (fun a t => Meets Allowed Onward Post (k a) (some (l, t)) d) p w) :
    Meets Allowed Onward Post (p.bind k) (some (l, w)) d := by
  induction p generalizing w with
  | done a => exact h
  | fail e => trivial
  | read next ih => exact ih w h
  | write change next ih => exact ih w h
  | begin_ l next ih => exact h.elim
  | commit next ih => exact h.elim
  | rollback next ih => exact h.elim

theorem meets_of_calm (trans : ∀ ⦃s t u : σ⦄, Onward s t → Onward t u → Onward s u)
    (refl : ∀ s, Onward s s) (grows : ∀ {s t : σ}, Allowed none s t → Onward s t)
    {p : Script ℓ σ ε α} {k : α → Script ℓ σ ε β} {Post : β → σ → Prop} {d : σ} (h : Calm Allowed p)
    (rest : ∀ a d', Onward d d' → Meets Allowed Onward Post (k a) none d') :
    Meets Allowed Onward Post (p.bind k) none d := by
  induction p generalizing d with
  | done a => exact rest a d (refl d)
  | fail e => trivial
  | read next ih =>
    intro d' on
    exact ih d' (h d') (fun a t ht => rest a t (trans on ht))
  | write change next ih =>
    intro d' on
    obtain ⟨may, calm⟩ := h d'
    exact ⟨may, ih d' calm (fun a t ht => rest a t (trans on (trans (grows may) ht)))⟩
  | begin_ l next ih => exact h.elim
  | commit next ih =>
    intro d' on
    exact ih h (fun a t ht => rest a t (trans on ht))
  | rollback next ih => exact h.elim

theorem meets_query {f : σ → Except ε α} {k : α → Script ℓ σ ε β} {Post : β → σ → Prop} {d : σ}
    (h : ∀ d', Onward d d' → ∀ a, f d' = .ok a → Meets Allowed Onward Post (k a) none d') :
    Meets Allowed Onward Post ((query f).bind k) none d := by
  intro d' on
  change Meets Allowed Onward Post ((lift (f d')).bind k) none d'
  cases hf : f d' with
  | ok a => exact h d' on a hf
  | error e => trivial

theorem calm_bind {p : Script ℓ σ ε α} {k : α → Script ℓ σ ε β} (h : Calm Allowed p)
    (rest : ∀ a, Calm Allowed (k a)) : Calm Allowed (p.bind k) := by
  induction p with
  | done a => exact rest a
  | fail e => trivial
  | read next ih => exact fun s => ih s (h s)
  | write change next ih => exact fun s => ⟨(h s).1, ih s (h s).2⟩
  | begin_ l next ih => exact h.elim
  | commit next ih => exact ih h
  | rollback next ih => exact h.elim

theorem calm_lift (x : Except ε α) : Calm Allowed (lift x : Script ℓ σ ε α) := by
  cases x <;> trivial

theorem calm_query (f : σ → Except ε α) : Calm Allowed (query f : Script ℓ σ ε α) :=
  fun s => calm_lift (f s)

theorem calm_execute {change : σ → σ} (h : ∀ s, Allowed none s (change s)) :
    Calm Allowed (execute change : Script ℓ σ ε Unit) :=
  fun s => ⟨h s, trivial⟩

theorem calm_onlyIf {c : Prop} [Decidable c] {p : Script ℓ σ ε Unit} (h : c → Calm Allowed p) :
    Calm Allowed (onlyIf c p) := by
  unfold onlyIf
  split_ifs with hc
  · exact h hc
  · trivial

theorem calm_refuse {c : Prop} [Decidable c] {e : ε} : Calm Allowed (refuse c e : Script ℓ σ ε Unit) := by
  unfold refuse
  split_ifs <;> trivial

theorem calm_refuse_bind {c : Prop} [Decidable c] {e : ε} {k : Unit → Script ℓ σ ε β}
    (h : ¬ c → Calm Allowed (k ())) : Calm Allowed ((refuse c e : Script ℓ σ ε Unit).bind k) := by
  unfold refuse
  split_ifs with hc
  · trivial
  · exact h hc

theorem meets_refuse {c : Prop} [Decidable c] {e : ε} {k : Unit → Script ℓ σ ε β} {Post : β → σ → Prop} {d : σ}
    (h : ¬ c → Meets Allowed Onward Post (k ()) none d) :
    Meets Allowed Onward Post ((refuse c e : Script ℓ σ ε Unit).bind k) none d := by
  unfold refuse
  split_ifs with hc
  · trivial
  · exact h hc

theorem calm_each {items : List β} {p : β → Script ℓ σ ε Unit} (pass : ∀ b ∈ items, Calm Allowed (p b)) :
    Calm Allowed (each items p) := by
  induction items with
  | nil => trivial
  | cons b rest ih =>
    apply calm_bind (pass b List.mem_cons_self)
    intro _
    exact ih (fun b hb => pass b (List.mem_cons_of_mem _ hb))

end Guarantees

/-! ## Connections that interleave -/

/-- The write lock in use: whose it is, for which transaction, the durable state it was
taken in, and the working copy. -/
structure Hold (ι ℓ σ : Type) where
  opener : ι
  label : ℓ
  base : σ
  work : σ

structure System (ι ℓ σ ε α : Type) where
  durable : σ
  holder : Option (Hold ι ℓ σ)
  scripts : ι → Script ℓ σ ε α

/-- How a step ends: a statement, a transaction begun, published, or given up. -/
inductive Kind where
  | statement
  | began
  | committed
  | abandoned
deriving DecidableEq

/-- What one step of a connection did: the durable state before and after, for a
transaction given up the one in which it began, and the answer if the script ended. -/
structure Event (ι ℓ σ α : Type) where
  opener : ι
  label : Option ℓ
  kind : Kind
  before : σ
  after : σ
  answer : Option α

variable [DecidableEq ι]

/-- Script `i` goes on as `p`. -/
def turn (scripts : ι → Script ℓ σ ε α) (i : ι) (p : Script ℓ σ ε α) : ι → Script ℓ σ ε α :=
  Function.update scripts i p

/-- One step of connection `i`. -/
inductive Step : System ι ℓ σ ε α → Event ι ℓ σ α → System ι ℓ σ ε α → Prop
  | read {s : System ι ℓ σ ε α} {i : ι} {next : σ → Script ℓ σ ε α} (at_ : s.scripts i = .read next)
      (free : ∀ h, s.holder = some h → h.opener ≠ i) :
      Step s ⟨i, none, .statement, s.durable, s.durable, (next s.durable).result⟩
        { s with scripts := turn s.scripts i (next s.durable) }
  | readWork {s : System ι ℓ σ ε α} {i : ι} {next : σ → Script ℓ σ ε α} {h : Hold ι ℓ σ}
      (at_ : s.scripts i = .read next) (held : s.holder = some h) (mine : h.opener = i) :
      Step s ⟨i, some h.label, .statement, s.durable, s.durable, (next h.work).result⟩
        { s with scripts := turn s.scripts i (next h.work) }
  | write {s : System ι ℓ σ ε α} {i : ι} {change : σ → σ} {next : σ → Script ℓ σ ε α}
      (at_ : s.scripts i = .write change next) (free : s.holder = none) :
      Step s ⟨i, none, .statement, s.durable, change s.durable, (next s.durable).result⟩
        { s with durable := change s.durable, scripts := turn s.scripts i (next s.durable) }
  /-- A statement that finds nothing to change needs no lock. -/
  | writeNothing {s : System ι ℓ σ ε α} {i : ι} {change : σ → σ} {next : σ → Script ℓ σ ε α}
      (at_ : s.scripts i = .write change next) (free : ∀ h, s.holder = some h → h.opener ≠ i)
      (same : change s.durable = s.durable) :
      Step s ⟨i, none, .statement, s.durable, s.durable, (next s.durable).result⟩
        { s with scripts := turn s.scripts i (next s.durable) }
  | writeWork {s : System ι ℓ σ ε α} {i : ι} {change : σ → σ} {next : σ → Script ℓ σ ε α} {h : Hold ι ℓ σ}
      (at_ : s.scripts i = .write change next) (held : s.holder = some h) (mine : h.opener = i) :
      Step s ⟨i, some h.label, .statement, s.durable, s.durable, (next h.work).result⟩
        { s with holder := some { h with work := change h.work }, scripts := turn s.scripts i (next h.work) }
  | begin_ {s : System ι ℓ σ ε α} {i : ι} {l : ℓ} {next : Script ℓ σ ε α} (at_ : s.scripts i = .begin_ l next)
      (free : s.holder = none) :
      Step s ⟨i, some l, .began, s.durable, s.durable, next.result⟩
        { s with holder := some ⟨i, l, s.durable, s.durable⟩, scripts := turn s.scripts i next }
  | commit {s : System ι ℓ σ ε α} {i : ι} {next : Script ℓ σ ε α} {h : Hold ι ℓ σ}
      (at_ : s.scripts i = .commit next) (held : s.holder = some h) (mine : h.opener = i) :
      Step s ⟨i, some h.label, .committed, s.durable, h.work, next.result⟩
        ⟨h.work, none, turn s.scripts i next⟩
  | commitNothing {s : System ι ℓ σ ε α} {i : ι} {next : Script ℓ σ ε α} (at_ : s.scripts i = .commit next)
      (free : ∀ h, s.holder = some h → h.opener ≠ i) :
      Step s ⟨i, none, .statement, s.durable, s.durable, next.result⟩
        { s with scripts := turn s.scripts i next }
  | rollback {s : System ι ℓ σ ε α} {i : ι} {next : Script ℓ σ ε α} {h : Hold ι ℓ σ}
      (at_ : s.scripts i = .rollback next) (held : s.holder = some h) (mine : h.opener = i) :
      Step s ⟨i, some h.label, .abandoned, h.base, s.durable, next.result⟩
        { s with holder := none, scripts := turn s.scripts i next }
  | rollbackNothing {s : System ι ℓ σ ε α} {i : ι} {next : Script ℓ σ ε α} (at_ : s.scripts i = .rollback next)
      (free : ∀ h, s.holder = some h → h.opener ≠ i) :
      Step s ⟨i, none, .statement, s.durable, s.durable, next.result⟩
        { s with scripts := turn s.scripts i next }
  /-- A failed script is closed, with the transaction it is in. -/
  | close {s : System ι ℓ σ ε α} {i : ι} {e : ε} {h : Hold ι ℓ σ} (at_ : s.scripts i = .fail e)
      (held : s.holder = some h) (mine : h.opener = i) :
      Step s ⟨i, some h.label, .abandoned, h.base, s.durable, none⟩ { s with holder := none }
  /-- A crash, or an exception from below, at any point of a script that has not ended. -/
  | lost {s : System ι ℓ σ ε α} {i : ι} (e : ε) (going : (s.scripts i).result = none) :
      Step s ⟨i, none, .statement, s.durable, s.durable, none⟩
        { s with scripts := turn s.scripts i (.fail e) }

/-- A run from `s`: its events in order, and where it got to. -/
inductive Run (s : System ι ℓ σ ε α) : List (Event ι ℓ σ α) → System ι ℓ σ ε α → Prop
  | start : Run s [] s
  | step {trace : List (Event ι ℓ σ α)} {t u : System ι ℓ σ ε α} {e : Event ι ℓ σ α}
      (run : Run s trace t) (next : Step t e u) : Run s (trace ++ [e]) u

def opened (d : σ) (p : Script ℓ σ ε α) : System ι ℓ σ ε α := ⟨d, none, fun _ => p⟩

/-! ## A connection on its own -/

/-- The transaction connection `i` is in. -/
def mine (s : System ι ℓ σ ε α) (i : ι) : Option (Hold ι ℓ σ) := s.holder.filter (fun h => h.opener = i)

theorem mine_some {s : System ι ℓ σ ε α} {i : ι} {h : Hold ι ℓ σ} (found : mine s i = some h) :
    s.holder = some h ∧ h.opener = i := by
  obtain ⟨held, opener⟩ := Option.filter_eq_some_iff.mp found
  exact ⟨held, by simpa using opener⟩

theorem mine_none {s : System ι ℓ σ ε α} {i : ι} (found : mine s i = none) :
    ∀ h, s.holder = some h → h.opener ≠ i := by
  intro h held opener
  simp [mine, held, opener] at found

/-- The next step of connection `i`, if it has one without waiting. -/
def advance (s : System ι ℓ σ ε α) (i : ι) : Option (Event ι ℓ σ α × System ι ℓ σ ε α) :=
  match s.scripts i, mine s i, s.holder with
  | .done _, _, _ => none
  | .fail _, none, _ => none
  | .fail _, some h, _ => some (⟨i, some h.label, .abandoned, h.base, s.durable, none⟩, { s with holder := none })
  | .read next, none, _ =>
    some (⟨i, none, .statement, s.durable, s.durable, (next s.durable).result⟩,
      { s with scripts := turn s.scripts i (next s.durable) })
  | .read next, some h, _ =>
    some (⟨i, some h.label, .statement, s.durable, s.durable, (next h.work).result⟩,
      { s with scripts := turn s.scripts i (next h.work) })
  | .write change next, some h, _ =>
    some (⟨i, some h.label, .statement, s.durable, s.durable, (next h.work).result⟩,
      { s with holder := some { h with work := change h.work }, scripts := turn s.scripts i (next h.work) })
  | .write change next, none, none =>
    some (⟨i, none, .statement, s.durable, change s.durable, (next s.durable).result⟩,
      { s with durable := change s.durable, scripts := turn s.scripts i (next s.durable) })
  | .write _ _, none, some _ => none
  | .begin_ l next, _, none =>
    some (⟨i, some l, .began, s.durable, s.durable, next.result⟩,
      { s with holder := some ⟨i, l, s.durable, s.durable⟩, scripts := turn s.scripts i next })
  | .begin_ _ _, _, some _ => none
  | .commit next, some h, _ =>
    some (⟨i, some h.label, .committed, s.durable, h.work, next.result⟩, ⟨h.work, none, turn s.scripts i next⟩)
  | .commit next, none, _ =>
    some (⟨i, none, .statement, s.durable, s.durable, next.result⟩, { s with scripts := turn s.scripts i next })
  | .rollback next, some h, _ =>
    some (⟨i, some h.label, .abandoned, h.base, s.durable, next.result⟩,
      { s with holder := none, scripts := turn s.scripts i next })
  | .rollback next, none, _ =>
    some (⟨i, none, .statement, s.durable, s.durable, next.result⟩, { s with scripts := turn s.scripts i next })

theorem step_of_advance {s u : System ι ℓ σ ε α} {i : ι} {e : Event ι ℓ σ α} (h : advance s i = some (e, u)) :
    Step s e u := by
  cases at_ : s.scripts i with
  | done a => simp [advance, at_] at h
  | fail err =>
    cases own : mine s i with
    | none => simp [advance, at_, own] at h
    | some k =>
      simp only [advance, at_, own, Option.some.injEq, Prod.mk.injEq] at h
      obtain ⟨rfl, rfl⟩ := h
      exact .close at_ (mine_some own).1 (mine_some own).2
  | read next =>
    cases own : mine s i with
    | none =>
      simp only [advance, at_, own, Option.some.injEq, Prod.mk.injEq] at h
      obtain ⟨rfl, rfl⟩ := h
      exact .read at_ (mine_none own)
    | some k =>
      simp only [advance, at_, own, Option.some.injEq, Prod.mk.injEq] at h
      obtain ⟨rfl, rfl⟩ := h
      exact .readWork at_ (mine_some own).1 (mine_some own).2
  | write change next =>
    cases own : mine s i with
    | none =>
      cases free : s.holder with
      | none =>
        simp only [advance, at_, own, free, Option.some.injEq, Prod.mk.injEq] at h
        obtain ⟨rfl, rfl⟩ := h
        have step := Step.write at_ free
        rwa [free] at step
      | some k => simp [advance, at_, own, free] at h
    | some k =>
      simp only [advance, at_, own, Option.some.injEq, Prod.mk.injEq] at h
      obtain ⟨rfl, rfl⟩ := h
      exact .writeWork at_ (mine_some own).1 (mine_some own).2
  | begin_ l next =>
    cases free : s.holder with
    | none =>
      simp only [advance, at_, free, Option.some.injEq, Prod.mk.injEq] at h
      obtain ⟨rfl, rfl⟩ := h
      exact .begin_ at_ free
    | some k => simp [advance, at_, free] at h
  | commit next =>
    cases own : mine s i with
    | none =>
      simp only [advance, at_, own, Option.some.injEq, Prod.mk.injEq] at h
      obtain ⟨rfl, rfl⟩ := h
      exact .commitNothing at_ (mine_none own)
    | some k =>
      simp only [advance, at_, own, Option.some.injEq, Prod.mk.injEq] at h
      obtain ⟨rfl, rfl⟩ := h
      exact .commit at_ (mine_some own).1 (mine_some own).2
  | rollback next =>
    cases own : mine s i with
    | none =>
      simp only [advance, at_, own, Option.some.injEq, Prod.mk.injEq] at h
      obtain ⟨rfl, rfl⟩ := h
      exact .rollbackNothing at_ (mine_none own)
    | some k =>
      simp only [advance, at_, own, Option.some.injEq, Prod.mk.injEq] at h
      obtain ⟨rfl, rfl⟩ := h
      exact .rollback at_ (mine_some own).1 (mine_some own).2

/-- Up to `n` steps of connection `i`, with what they did. -/
def alone (i : ι) : ℕ → System ι ℓ σ ε α → List (Event ι ℓ σ α) × System ι ℓ σ ε α
  | 0, s => ([], s)
  | n + 1, s => (advance s i).elim ([], s) (fun p => (p.1 :: (alone i n p.2).1, (alone i n p.2).2))

theorem Run.cons {s t u : System ι ℓ σ ε α} {e : Event ι ℓ σ α} {trace : List (Event ι ℓ σ α)} (first : Step s e t)
    (run : Run t trace u) : Run s (e :: trace) u := by
  induction run with
  | start => exact .step .start first
  | step _ next ih => exact .step ih next

theorem alone_run (i : ι) (n : ℕ) (s : System ι ℓ σ ε α) : Run s (alone i n s).1 (alone i n s).2 := by
  induction n generalizing s with
  | zero => exact .start
  | succ n ih =>
    unfold alone
    cases next : advance s i with
    | none => exact .start
    | some p => exact Run.cons (step_of_advance next) (ih p.2)

/-! ## What holds of every interleaving -/

section Traces

omit [DecidableEq ι]

/-- The events lead from one durable state to the other without a gap. -/
def Linked : σ → List (Event ι ℓ σ α) → σ → Prop
  | d, [], d' => d = d'
  | d, e :: rest, d' => e.before = d ∧ Linked e.after rest d'

theorem linked_snoc {trace : List (Event ι ℓ σ α)} {d d' : σ} {e : Event ι ℓ σ α} (h : Linked d trace d')
    (meets : e.before = d') : Linked d (trace ++ [e]) e.after := by
  induction trace generalizing d with
  | nil =>
    cases h
    exact ⟨meets, rfl⟩
  | cons a rest ih => exact ⟨h.1, ih h.2⟩

/-- Along a trace that never lowers `rank`, at most one event takes it past `k`. -/
theorem Linked.atMostOnce {rank : σ → ℤ} {k : ℤ} {P : Event ι ℓ σ α → Bool} {trace : List (Event ι ℓ σ α)}
    {d d' : σ} (h : Linked d trace d') (mono : ∀ e ∈ trace, rank e.before ≤ rank e.after)
    (past : ∀ e ∈ trace, P e = true → rank e.before ≤ k ∧ k < rank e.after) : trace.countP P ≤ 1 := by
  have none_after : ∀ {l : List (Event ι ℓ σ α)} {x : σ}, Linked x l d' → k < rank x →
      (∀ e ∈ l, rank e.before ≤ rank e.after) → (∀ e ∈ l, P e = true → rank e.before ≤ k ∧ k < rank e.after) →
      l.countP P = 0 := by
    intro l
    induction l with
    | nil => intros; rfl
    | cons e rest ih =>
      intro x linked high mono past
      have before : k < rank e.before := linked.1 ▸ high
      have quiet : ¬ P e = true := by
        intro hp
        have := (past e List.mem_cons_self hp).1
        omega
      have after : k < rank e.after := lt_of_lt_of_le before (mono e List.mem_cons_self)
      rw [List.countP_cons_of_neg quiet]
      exact ih linked.2 after (fun a ha => mono a (List.mem_cons_of_mem _ ha))
        (fun a ha => past a (List.mem_cons_of_mem _ ha))
  induction trace generalizing d with
  | nil => simp
  | cons e rest ih =>
    by_cases hp : P e = true
    · rw [List.countP_cons_of_pos hp]
      have later := none_after h.2 (past e List.mem_cons_self hp).2
        (fun a ha => mono a (List.mem_cons_of_mem _ ha)) (fun a ha => past a (List.mem_cons_of_mem _ ha))
      omega
    · rw [List.countP_cons_of_neg hp]
      exact ih h.2 (fun a ha => mono a (List.mem_cons_of_mem _ ha))
        (fun a ha => past a (List.mem_cons_of_mem _ ha))

end Traces

/-- The working copy of connection `i`. -/
def copy (s : System ι ℓ σ ε α) (i : ι) : Option (ℓ × σ) :=
  s.holder.bind (fun h => if h.opener = i then some (h.label, h.work) else none)

theorem copy_none {s : System ι ℓ σ ε α} {i : ι} (free : ∀ h, s.holder = some h → h.opener ≠ i) :
    copy s i = none := by
  unfold copy
  cases hs : s.holder with
  | none => rfl
  | some h => simp [free h hs]

theorem copy_mine {s : System ι ℓ σ ε α} {i : ι} {h : Hold ι ℓ σ} (held : s.holder = some h)
    (mine : h.opener = i) : copy s i = some (h.label, h.work) := by
  simp [copy, held, mine]

section Soundness

variable (Allowed : Option ℓ → σ → σ → Prop) (Onward : σ → σ → Prop) (Post : α → σ → Prop)

/-- An event that keeps the guarantee: only a commit publishes a transaction, and an
answer is given in `Post`. -/
structure Lawful (e : Event ι ℓ σ α) : Prop where
  onward : Onward e.before e.after
  published : e.kind = .committed → ∃ l, e.label = some l ∧ Allowed (some l) e.before e.after
  otherwise : e.kind ≠ .committed → e.after = e.before ∨ e.label = none ∧ Allowed none e.before e.after
  answered : ∀ a, e.answer = some a → Post a e.after

structure Sound (d : σ) (trace : List (Event ι ℓ σ α)) (s : System ι ℓ σ ε α) : Prop where
  held : ∀ h, s.holder = some h → h.base = s.durable
  linked : Linked d trace s.durable
  lawful : ∀ e ∈ trace, Lawful Allowed Onward Post e
  meets : ∀ i, (s.scripts i).result = none → Meets Allowed Onward Post (s.scripts i) (copy s i) s.durable
  answers : ∀ i a, (s.scripts i).result = some a → ∃ e ∈ trace, e.opener = i ∧ e.answer = some a

variable {Allowed Onward Post} {d : σ} {trace : List (Event ι ℓ σ α)} {s u : System ι ℓ σ ε α}

theorem Sound.turned (trans : ∀ ⦃s t u : σ⦄, Onward s t → Onward t u → Onward s u)
    (sound : Sound Allowed Onward Post d trace s) {e : Event ι ℓ σ α} {i : ι} {p : Script ℓ σ ε α}
    (scripts : u.scripts = turn s.scripts i p) (opener : e.opener = i) (begins : e.before = s.durable)
    (ends : e.after = u.durable) (answer : e.answer = p.result) (held : ∀ h, u.holder = some h → h.base = u.durable)
    (others : ∀ j, j ≠ i → copy u j = copy s j ∧ (copy s j = none ∨ u.durable = s.durable))
    (now : Meets Allowed Onward Post p (copy u i) u.durable) (onward : Onward s.durable u.durable)
    (published : e.kind = .committed → ∃ l, e.label = some l ∧ Allowed (some l) e.before e.after)
    (otherwise : e.kind ≠ .committed → e.after = e.before ∨ e.label = none ∧ Allowed none e.before e.after) :
    Sound Allowed Onward Post d (trace ++ [e]) u := by
  have same : ∀ j, j ≠ i → u.scripts j = s.scripts j := by
    intro j hj
    rw [scripts, turn, Function.update_of_ne hj]
  have turned : u.scripts i = p := by rw [scripts, turn, Function.update_self]
  have lawful : Lawful Allowed Onward Post e := by
    refine ⟨?_, published, otherwise, ?_⟩
    · rw [begins, ends]
      exact onward
    · intro a ha
      rw [answer] at ha
      rw [ends]
      cases p with
      | done b =>
        cases ha
        cases hc : copy u i with
        | none => rwa [hc] at now
        | some w =>
          rw [hc] at now
          exact now.elim
      | _ => cases ha
  constructor
  · exact held
  · rw [← ends]
    exact linked_snoc sound.linked begins
  · intro e' he'
    rcases List.mem_append.mp he' with h | h
    · exact sound.lawful e' h
    · rw [List.mem_singleton.mp h]
      exact lawful
  · intro j going
    by_cases hj : j = i
    · rw [hj, turned]
      exact now
    · rw [same j hj] at going ⊢
      have meets := sound.meets j going
      obtain ⟨kept, still⟩ := others j hj
      rw [kept]
      rcases still with free | still
      · rw [free] at meets ⊢
        exact meets.later trans going onward
      · rwa [still]
  · intro j a ended
    by_cases hj : j = i
    · rw [hj, turned, ← answer] at ended
      exact ⟨e, List.mem_append_right _ List.mem_cons_self, hj ▸ opener, ended⟩
    · rw [same j hj] at ended
      obtain ⟨e', mem, found⟩ := sound.answers j a ended
      exact ⟨e', List.mem_append_left _ mem, found⟩

theorem copy_other {i j : ι} {h : Hold ι ℓ σ} (hj : j ≠ i) (held : s.holder = some h) (mine : h.opener = i) :
    copy s j = none := by
  apply copy_none
  intro h' held'
  cases held.symm.trans held'
  rw [mine]
  exact Ne.symm hj

theorem Sound.step (trans : ∀ ⦃s t u : σ⦄, Onward s t → Onward t u → Onward s u) (refl : ∀ s, Onward s s)
    (grows : ∀ l s t, Allowed l s t → Onward s t) (sound : Sound Allowed Onward Post d trace s)
    {e : Event ι ℓ σ α} (next : Step s e u) : Sound Allowed Onward Post d (trace ++ [e]) u := by
  have live : ∀ {i : ι} {p : Script ℓ σ ε α}, s.scripts i = p → p.result = none →
      Meets Allowed Onward Post p (copy s i) s.durable := by
    intro i p at_ going
    subst at_
    exact sound.meets i going
  cases next with
  | @read i next at_ free =>
    have meets := live at_ rfl
    rw [copy_none free] at meets
    refine sound.turned trans rfl rfl rfl rfl rfl sound.held (fun j _ => ⟨rfl, .inr rfl⟩) ?_ (refl _)
      (fun h => by cases h) (fun _ => .inl rfl)
    change Meets Allowed Onward Post (next s.durable) (copy s i) s.durable
    rw [copy_none free]
    exact meets _ (refl _)
  | @readWork i next h at_ held mine =>
    have meets := live at_ rfl
    rw [copy_mine held mine] at meets
    refine sound.turned trans rfl rfl rfl rfl rfl sound.held (fun j _ => ⟨rfl, .inr rfl⟩) ?_ (refl _)
      (fun h => by cases h) (fun _ => .inl rfl)
    change Meets Allowed Onward Post (next h.work) (copy s i) s.durable
    rw [copy_mine held mine]
    exact meets
  | @write i change next at_ free =>
    have idle : ∀ j, copy s j = none := fun j => copy_none (fun h held => by rw [free] at held; cases held)
    have meets := live at_ rfl
    rw [idle i] at meets
    obtain ⟨may, after⟩ := meets _ (refl _)
    refine sound.turned trans rfl rfl rfl rfl rfl ?_ (fun j _ => ⟨rfl, .inl (idle j)⟩) ?_ (grows _ _ _ may)
      (fun h => by cases h) (fun _ => .inr ⟨rfl, may⟩)
    · intro h held
      rw [show s.holder = some h from held] at free
      cases free
    · rw [show copy { s with durable := change s.durable, scripts := turn s.scripts i (next s.durable) } i = none
        from idle i]
      exact after
  | @writeNothing i change next at_ free same =>
    have meets := live at_ rfl
    rw [copy_none free] at meets
    have after := (meets _ (refl _)).2
    rw [same] at after
    refine sound.turned trans rfl rfl rfl rfl rfl sound.held (fun j _ => ⟨rfl, .inr rfl⟩) ?_ (refl _)
      (fun h => by cases h) (fun _ => .inl rfl)
    change Meets Allowed Onward Post (next s.durable) (copy s i) s.durable
    rw [copy_none free]
    exact after
  | @writeWork i change next h at_ held mine =>
    have meets := live at_ rfl
    rw [copy_mine held mine] at meets
    refine sound.turned trans rfl rfl rfl rfl rfl ?_ (fun j hj => ⟨?_, .inr rfl⟩) ?_ (refl _)
      (fun h => by cases h) (fun _ => .inl rfl)
    · intro h' held'
      cases held'
      exact sound.held h held
    · rw [copy_other hj held mine]
      exact copy_other hj rfl mine
    · have own : copy { s with
          holder := some { h with work := change h.work }, scripts := turn s.scripts i (next h.work) } i =
            some (h.label, change h.work) := by simp [copy, mine]
      rw [own]
      exact meets
  | @begin_ i l next at_ free =>
    have idle : ∀ j, copy s j = none := fun j => copy_none (fun h held => by rw [free] at held; cases held)
    have meets := live at_ rfl
    rw [idle i] at meets
    refine sound.turned trans rfl rfl rfl rfl rfl ?_ (fun j hj => ⟨?_, .inr rfl⟩) ?_ (refl _)
      (fun h => by cases h) (fun _ => .inl rfl)
    · intro h held
      cases held
      rfl
    · rw [idle j]
      exact copy_other hj rfl rfl
    · have own : copy { s with
          holder := some ⟨i, l, s.durable, s.durable⟩, scripts := turn s.scripts i next } i =
            some (l, s.durable) := by simp [copy]
      rw [own]
      exact meets _ (refl _)
  | @commit i next h at_ held mine =>
    have meets := live at_ rfl
    rw [copy_mine held mine] at meets
    refine sound.turned trans rfl rfl rfl rfl rfl (fun h held => by cases held)
      (fun j hj => ⟨?_, .inl (copy_other hj held mine)⟩) meets.2 (grows _ _ _ meets.1)
      (fun _ => ⟨h.label, rfl, meets.1⟩) (fun h => absurd rfl h)
    rw [copy_other hj held mine]
    rfl
  | @commitNothing i next at_ free =>
    have meets := live at_ rfl
    rw [copy_none free] at meets
    refine sound.turned trans rfl rfl rfl rfl rfl sound.held (fun j _ => ⟨rfl, .inr rfl⟩) ?_ (refl _)
      (fun h => by cases h) (fun _ => .inl rfl)
    change Meets Allowed Onward Post next (copy s i) s.durable
    rw [copy_none free]
    exact meets _ (refl _)
  | @rollback i next h at_ held mine =>
    have meets := live at_ rfl
    rw [copy_mine held mine] at meets
    have base := sound.held h held
    refine sound.turned trans rfl rfl base rfl rfl (fun h held => by cases held)
      (fun j hj => ⟨?_, .inr rfl⟩) meets (refl _) (fun h => by cases h) (fun _ => .inl base.symm)
    rw [copy_other hj held mine]
    rfl
  | @rollbackNothing i next at_ free =>
    have meets := live at_ rfl
    rw [copy_none free] at meets
    refine sound.turned trans rfl rfl rfl rfl rfl sound.held (fun j _ => ⟨rfl, .inr rfl⟩) ?_ (refl _)
      (fun h => by cases h) (fun _ => .inl rfl)
    change Meets Allowed Onward Post next (copy s i) s.durable
    rw [copy_none free]
    exact meets _ (refl _)
  | @close i e h at_ held mine =>
    have base := sound.held h held
    refine sound.turned (p := .fail e) trans ?_ rfl base rfl rfl (fun h held => by cases held)
      (fun j hj => ⟨?_, .inr rfl⟩) ?_ (refl _) (fun h => by cases h) (fun _ => .inl base.symm)
    · rw [← at_]
      exact (Function.update_eq_self i s.scripts).symm
    · rw [copy_other hj held mine]
      rfl
    · trivial
  | @lost i e going =>
    refine sound.turned trans rfl rfl rfl rfl rfl sound.held (fun j _ => ⟨rfl, .inr rfl⟩) ?_ (refl _)
      (fun h => by cases h) (fun _ => .inl rfl)
    trivial

theorem run_sound (trans : ∀ ⦃s t u : σ⦄, Onward s t → Onward t u → Onward s u) (refl : ∀ s, Onward s s)
    (grows : ∀ l s t, Allowed l s t → Onward s t) {p : Script ℓ σ ε α} (going : p.result = none)
    (meets : Meets Allowed Onward Post p none d) (run : Run (opened d p : System ι ℓ σ ε α) trace s) :
    Sound Allowed Onward Post d trace s := by
  induction run with
  | start =>
    refine ⟨fun h held => (by cases held), rfl, fun e he => (by cases he), fun i _ => meets, ?_⟩
    intro i a ended
    rw [show (opened d p : System ι ℓ σ ε α).scripts i = p from rfl, going] at ended
    cases ended
  | step run next ih => exact ih.step trans refl grows next

end Soundness

end Connection
