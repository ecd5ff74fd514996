import Mathlib.Tactic
import Mathlib.Data.List.Nodup

/-!
# Depth-first placement

`placeAll known deps fuel ks` lists every key of `ks` with all that it depends on,
dependencies first. The result has no repetition and is closed under earlier
dependencies (`Placed`); it exists whenever the dependencies strictly decrease
some rank below the fuel.
-/

namespace Place

variable {κ : Type} [DecidableEq κ]

inductive Fault (κ : Type) where
  | unknown (k : κ)
  | cycle (trail : List κ) (k : κ)
  | depth
deriving DecidableEq

/-- Place `k` after its dependencies, unless it is placed already. -/
def place (known : κ → Bool) (deps : κ → List κ) : ℕ → List κ → List κ → κ →
    Except (Fault κ) (List κ)
  | 0, _, _, _ => .error .depth
  | fuel + 1, trail, placed, k =>
    if k ∈ placed then .ok placed
    else if known k = false then .error (.unknown k)
    else if k ∈ trail then .error (.cycle trail k)
    else do
      let placed ← (deps k).foldlM (place known deps fuel (trail ++ [k])) placed
      .ok (placed ++ [k])

def placeAll (known : κ → Bool) (deps : κ → List κ) (fuel : ℕ) (ks : List κ) :
    Except (Fault κ) (List κ) :=
  ks.foldlM (place known deps fuel []) []

/-- Repetition-free, and every element's dependencies stand before it. -/
structure Placed (deps : κ → List κ) (l : List κ) : Prop where
  nodup : l.Nodup
  closed : ∀ pre k post, l = pre ++ k :: post → deps k ⊆ pre

omit [DecidableEq κ] in
theorem Placed.nil (deps : κ → List κ) : Placed deps ([] : List κ) :=
  ⟨List.nodup_nil, by simp⟩

omit [DecidableEq κ] in
theorem Placed.snoc {deps : κ → List κ} {l : List κ} {k : κ} (h : Placed deps l) (hk : k ∉ l)
    (hd : deps k ⊆ l) : Placed deps (l ++ [k]) := by
  refine ⟨?_, ?_⟩
  · exact List.nodup_append.mpr ⟨h.nodup, List.nodup_singleton k, by
      rintro a ha b hb rfl
      rw [List.mem_singleton] at hb
      exact hk (hb ▸ ha)⟩
  · intro pre k' post he
    rcases List.eq_nil_or_concat post with rfl | ⟨post', z, rfl⟩
    · obtain ⟨rfl, rfl⟩ : l = pre ∧ k = k' := by simpa using he
      exact hd
    · have he' : l ++ [k] = (pre ++ k' :: post') ++ [z] := by simpa using he
      exact h.closed pre k' post' (List.append_inj' he' rfl).1

/-- What placing below `trail` adds: a longer list that still satisfies `Placed`,
without a key of the trail. -/
structure Extends (deps : κ → List κ) (trail placed placed' : List κ) : Prop where
  isPrefix : placed <+: placed'
  fresh : ∀ x ∈ placed', x ∈ placed ∨ x ∉ trail
  keeps : Placed deps placed → Placed deps placed'

omit [DecidableEq κ] in
theorem Extends.refl (deps : κ → List κ) (trail l : List κ) : Extends deps trail l l :=
  ⟨List.prefix_refl l, fun _ hx => .inl hx, id⟩

omit [DecidableEq κ] in
theorem Extends.trans {deps : κ → List κ} {trail l₁ l₂ l₃ : List κ}
    (h : Extends deps trail l₁ l₂) (h' : Extends deps trail l₂ l₃) : Extends deps trail l₁ l₃ := by
  refine ⟨h.isPrefix.trans h'.isPrefix, ?_, fun hp => h'.keeps (h.keeps hp)⟩
  intro x hx
  rcases h'.fresh x hx with hx | hx
  · exact h.fresh x hx
  · exact .inr hx

omit [DecidableEq κ] in
theorem foldlM_extends {deps : κ → List κ} {trail : List κ}
    {f : List κ → κ → Except (Fault κ) (List κ)}
    (hf : ∀ l k l', f l k = .ok l' → Extends deps trail l l' ∧ k ∈ l') :
    ∀ (ks : List κ) (l l' : List κ), ks.foldlM f l = .ok l' →
      Extends deps trail l l' ∧ ks ⊆ l' := by
  intro ks
  induction ks with
  | nil =>
    intro l l' h
    cases h
    exact ⟨Extends.refl deps trail l, by simp⟩
  | cons k ks ih =>
    intro l l' h
    rw [List.foldlM_cons] at h
    cases hk : f l k with
    | error e => rw [hk] at h; cases h
    | ok l₁ =>
      rw [hk] at h
      obtain ⟨he, hm⟩ := hf l k l₁ hk
      obtain ⟨he', hm'⟩ := ih l₁ l' h
      refine ⟨he.trans he', ?_⟩
      intro x hx
      rcases List.mem_cons.mp hx with rfl | hx
      · exact he'.isPrefix.subset hm
      · exact hm' hx

theorem place_extends (known : κ → Bool) (deps : κ → List κ) (fuel : ℕ) :
    ∀ (trail placed : List κ) (k : κ) (placed' : List κ),
      place known deps fuel trail placed k = .ok placed' →
        Extends deps trail placed placed' ∧ k ∈ placed' := by
  induction fuel with
  | zero => intro trail placed k placed' h; cases h
  | succ fuel ih =>
    intro trail placed k placed' h
    rw [place] at h
    split_ifs at h with hk hknown ht
    · cases h
      exact ⟨Extends.refl deps trail placed, hk⟩
    · cases hf : (deps k).foldlM (place known deps fuel (trail ++ [k])) placed with
      | error e => rw [hf] at h; cases h
      | ok mid =>
        rw [hf] at h
        cases h
        obtain ⟨he, hs⟩ := foldlM_extends (ih (trail ++ [k])) (deps k) placed mid hf
        have hmid : k ∉ mid := fun hm => by
          rcases he.fresh k hm with hp | hn
          · exact hk hp
          · exact hn (by simp)
        refine ⟨⟨he.isPrefix.trans (List.prefix_append mid [k]), ?_,
          fun hp => (he.keeps hp).snoc hmid hs⟩, by simp⟩
        intro x hx
        rcases List.mem_append.mp hx with hx | hx
        · exact (he.fresh x hx).imp_right fun hn hm => hn (List.mem_append_left _ hm)
        · rw [List.mem_singleton] at hx
          exact .inr (hx ▸ ht)

theorem placeAll_placed {known : κ → Bool} {deps : κ → List κ} {fuel : ℕ} {ks l : List κ}
    (h : placeAll known deps fuel ks = .ok l) : Placed deps l ∧ ks ⊆ l := by
  obtain ⟨he, hs⟩ := foldlM_extends (place_extends known deps fuel []) ks [] l h
  exact ⟨he.keeps (Placed.nil deps), hs⟩

section Acyclic

variable {known : κ → Bool} {deps : κ → List κ} {rank : κ → ℕ}

theorem place_ok (hknown : ∀ k, known k = true → ∀ d ∈ deps k, known d = true)
    (hrank : ∀ k, known k = true → ∀ d ∈ deps k, rank d < rank k) (fuel : ℕ) :
    ∀ (trail placed : List κ) (k : κ), known k = true → rank k < fuel →
      (∀ t ∈ trail, rank k < rank t) →
        ∃ placed', place known deps fuel trail placed k = .ok placed' := by
  induction fuel with
  | zero => intro trail placed k _ h; omega
  | succ fuel ih =>
    intro trail placed k hk hf ht
    have htrail : k ∉ trail := fun hm => (ht k hm).false
    have hfold : ∀ (ds placed : List κ), ds ⊆ deps k →
        ∃ p, ds.foldlM (place known deps fuel (trail ++ [k])) placed = .ok p := by
      intro ds
      induction ds with
      | nil => exact fun placed _ => ⟨placed, rfl⟩
      | cons d ds ihd =>
        intro placed hs
        have hd : d ∈ deps k := hs List.mem_cons_self
        have hlt : rank d < rank k := hrank k hk d hd
        obtain ⟨p, hp⟩ := ih (trail ++ [k]) placed d (hknown k hk d hd) (by omega) (by
          intro t hm
          rcases List.mem_append.mp hm with hm | hm
          · exact hlt.trans (ht t hm)
          · rw [List.mem_singleton] at hm
            exact hm ▸ hlt)
        obtain ⟨p', hp'⟩ := ihd p fun x hx => hs (List.mem_cons_of_mem _ hx)
        exact ⟨p', by rw [List.foldlM_cons, hp]; exact hp'⟩
    obtain ⟨mid, hmid⟩ := hfold (deps k) placed (List.Subset.refl _)
    by_cases hp : k ∈ placed
    · exact ⟨placed, by simp [place, hp]⟩
    · exact ⟨mid ++ [k], by simp [place, hp, hk, htrail, hmid]; rfl⟩

theorem placeAll_ok (hknown : ∀ k, known k = true → ∀ d ∈ deps k, known d = true)
    (hrank : ∀ k, known k = true → ∀ d ∈ deps k, rank d < rank k) {fuel : ℕ} {ks : List κ}
    (hks : ∀ k ∈ ks, known k = true ∧ rank k < fuel) :
    ∃ l, placeAll known deps fuel ks = .ok l := by
  suffices h : ∀ placed, ∃ l, ks.foldlM (place known deps fuel []) placed = .ok l from h []
  induction ks with
  | nil => exact fun placed => ⟨placed, rfl⟩
  | cons k ks ih =>
    intro placed
    obtain ⟨hk, hf⟩ := hks k List.mem_cons_self
    obtain ⟨p, hp⟩ := place_ok hknown hrank fuel [] placed k hk hf (by simp)
    obtain ⟨l, hl⟩ := ih (fun k' hk' => hks k' (List.mem_cons_of_mem _ hk')) p
    exact ⟨l, by rw [List.foldlM_cons, hp]; exact hl⟩

end Acyclic

/-! ## Cycles -/

section Cycles

open Relation

variable {deps : κ → List κ} {l : List κ}

/-- `k` depends on `d` directly. -/
def Needs (deps : κ → List κ) (k d : κ) : Prop := d ∈ deps k

theorem place_within {P : κ → Prop} {known : κ → Bool} (closed : ∀ k, P k → ∀ d ∈ deps k, P d) (fuel : ℕ) :
    ∀ (trail placed : List κ) (k : κ) (placed' : List κ), P k → (∀ x ∈ placed, P x) →
      place known deps fuel trail placed k = .ok placed' → ∀ x ∈ placed', P x := by
  induction fuel with
  | zero =>
    intro trail placed k placed' _ _ h
    cases h
  | succ fuel ih =>
    intro trail placed k placed' own within h
    rw [place] at h
    split_ifs at h
    · cases h
      exact within
    · have fold : ∀ (ds placed mid : List κ), (∀ d ∈ ds, P d) → (∀ x ∈ placed, P x) →
          ds.foldlM (place known deps fuel (trail ++ [k])) placed = .ok mid → ∀ x ∈ mid, P x := by
        intro ds
        induction ds with
        | nil =>
          intro placed mid _ within h
          cases h
          exact within
        | cons d ds ihd =>
          intro placed mid inside within h
          rw [List.foldlM_cons] at h
          cases first : place known deps fuel (trail ++ [k]) placed d with
          | error e => rw [first] at h; cases h
          | ok next =>
            rw [first] at h
            exact ihd next mid (fun x mem => inside x (List.mem_cons_of_mem _ mem))
              (ih _ _ _ _ (inside d List.mem_cons_self) within first) h
      cases hf : (deps k).foldlM (place known deps fuel (trail ++ [k])) placed with
      | error e => rw [hf] at h; cases h
      | ok mid =>
        rw [hf] at h
        cases h
        intro x mem
        rcases List.mem_append.mp mem with mem | mem
        · exact fold _ _ _ (closed k own) within hf x mem
        · rw [List.mem_singleton.mp mem]
          exact own

theorem placeAll_within {P : κ → Prop} {known : κ → Bool} {fuel : ℕ} {ks : List κ}
    (closed : ∀ k, P k → ∀ d ∈ deps k, P d) (inside : ∀ k ∈ ks, P k) (h : placeAll known deps fuel ks = .ok l) :
    ∀ k ∈ l, P k := by
  have fold : ∀ (ks placed : List κ), (∀ k ∈ ks, P k) → (∀ x ∈ placed, P x) →
      ks.foldlM (place known deps fuel []) placed = .ok l → ∀ x ∈ l, P x := by
    intro ks
    induction ks with
    | nil =>
      intro placed _ within h
      cases h
      exact within
    | cons k ks ih =>
      intro placed inside within h
      rw [List.foldlM_cons] at h
      cases first : place known deps fuel [] placed k with
      | error e => rw [first] at h; cases h
      | ok next =>
        rw [first] at h
        exact ih next (fun x mem => inside x (List.mem_cons_of_mem _ mem))
          (place_within closed fuel _ _ _ _ (inside k List.mem_cons_self) within first) h
  exact fold ks [] inside (by simp) h

theorem place_error {S : List κ} (closed : ∀ k ∈ S, ∀ d ∈ deps k, d ∈ S) (fuel : ℕ) :
    ∀ (trail placed : List κ) (k : κ) (e : Fault κ), k ∈ S → trail ⊆ S → trail.Nodup →
      S.length < fuel + trail.length → (∀ t ∈ trail, TransGen (Needs deps) t k) →
        place (fun _ => true) deps fuel trail placed k = .error e → ∃ c ∈ S, TransGen (Needs deps) c c := by
  induction fuel with
  | zero =>
    intro trail placed k e _ inside distinct long _ _
    have short := distinct.length_le_of_subset inside
    omega
  | succ fuel ih =>
    intro trail placed k e own inside distinct long leads h
    rw [place] at h
    split_ifs at h with placedBefore unknown closes
    · cases unknown
    · exact ⟨k, own, leads k closes⟩
    · have fold : ∀ (ds placed : List κ), ds ⊆ deps k →
          ds.foldlM (place (fun _ => true) deps fuel (trail ++ [k])) placed = .error e →
            ∃ c ∈ S, TransGen (Needs deps) c c := by
        intro ds
        induction ds with
        | nil =>
          intro placed _ h
          cases h
        | cons d ds ihd =>
          intro placed sub h
          have needed : d ∈ deps k := sub List.mem_cons_self
          rw [List.foldlM_cons] at h
          cases first : place (fun _ => true) deps fuel (trail ++ [k]) placed d with
          | ok next =>
            rw [first] at h
            exact ihd next (fun x mem => sub (List.mem_cons_of_mem _ mem)) h
          | error e' =>
            refine ih (trail ++ [k]) placed d e' (closed k own d needed) ?_ ?_ ?_ ?_ first
            · intro x mem
              rcases List.mem_append.mp mem with mem | mem
              · exact inside mem
              · rw [List.mem_singleton.mp mem]
                exact own
            · refine List.nodup_append.mpr ⟨distinct, List.nodup_singleton k, ?_⟩
              rintro x mem y last rfl
              exact closes (List.mem_singleton.mp last ▸ mem)
            · rw [List.length_append, List.length_singleton]
              omega
            · intro t mem
              rcases List.mem_append.mp mem with mem | mem
              · exact (leads t mem).tail needed
              · rw [List.mem_singleton.mp mem]
                exact .single needed
      cases hf : (deps k).foldlM (place (fun _ => true) deps fuel (trail ++ [k])) placed with
      | error e' => exact fold (deps k) placed (List.Subset.refl _) (by rw [hf] at h; cases h; exact hf)
      | ok mid => rw [hf] at h; cases h

theorem Placed.idxOf_lt (h : Placed deps l) {k d : κ} (mem : k ∈ l) (needs : TransGen (Needs deps) k d) :
    d ∈ l ∧ l.idxOf d < l.idxOf k := by
  have step : ∀ {k d : κ}, k ∈ l → Needs deps k d → d ∈ l ∧ l.idxOf d < l.idxOf k := by
    intro k d mem needs
    obtain ⟨pre, post, rfl⟩ := List.append_of_mem mem
    have before : d ∈ pre := h.closed pre k post rfl needs
    have late : k ∉ pre := fun early =>
      (List.nodup_append.mp h.nodup).2.2 k early k List.mem_cons_self rfl
    refine ⟨List.mem_append_left _ before, ?_⟩
    rw [List.idxOf_append_of_mem before, List.idxOf_append_of_notMem late]
    have := List.idxOf_lt_length_of_mem before
    omega
  induction needs with
  | single needs => exact step mem needs
  | tail _ needs ih =>
    obtain ⟨inside, lower⟩ := ih
    obtain ⟨inside', lower'⟩ := step inside needs
    exact ⟨inside', lower'.trans lower⟩

theorem placeAll_ok_iff {ks : List κ} {fuel : ℕ} (closed : ∀ k ∈ ks, ∀ d ∈ deps k, d ∈ ks) (enough : ks.length < fuel) :
    (∃ l, placeAll (fun _ => true) deps fuel ks = .ok l) ↔ ∀ k ∈ ks, ¬TransGen (Needs deps) k k := by
  constructor
  · rintro ⟨l, ok⟩ k mem cycle
    obtain ⟨placed, all⟩ := placeAll_placed ok
    exact (placed.idxOf_lt (all mem) cycle).2.false
  · intro acyclic
    have fold : ∀ (more placed : List κ), more ⊆ ks → ∃ l, more.foldlM (place (fun _ => true) deps fuel []) placed = .ok l := by
      intro more
      induction more with
      | nil => exact fun placed _ => ⟨placed, rfl⟩
      | cons k more ih =>
        intro placed sub
        cases first : place (fun _ => true) deps fuel [] placed k with
        | error e =>
          obtain ⟨c, inside, cycle⟩ := place_error closed fuel [] placed k e (sub List.mem_cons_self)
            (List.nil_subset _) List.nodup_nil (by simpa using enough) (by simp) first
          exact absurd cycle (acyclic c inside)
        | ok next =>
          obtain ⟨l, rest⟩ := ih next fun x mem => sub (List.mem_cons_of_mem _ mem)
          refine ⟨l, ?_⟩
          rw [List.foldlM_cons, first]
          exact rest
    exact fold ks [] (List.Subset.refl _)

end Cycles

end Place
