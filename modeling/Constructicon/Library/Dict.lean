import Mathlib.Tactic
import Mathlib.Data.List.Nodup

/-!
# Insertion-ordered dictionaries

A dictionary is its list of entries in insertion order. Writing an existing key
replaces the value in place, writing a new key appends; iteration follows the
list. A dictionary built only by `insert` has distinct keys.
-/

/-- A mapping that iterates in insertion order. -/
structure Dict (κ ν : Type) where
  entries : List (κ × ν)
deriving DecidableEq

namespace Dict

variable {κ ν : Type}

def empty : Dict κ ν := ⟨[]⟩

def keys (d : Dict κ ν) : List κ := d.entries.map Prod.fst

def values (d : Dict κ ν) : List ν := d.entries.map Prod.snd

@[simp] theorem entries_empty : (empty : Dict κ ν).entries = [] := rfl

@[simp] theorem keys_empty : (empty : Dict κ ν).keys = [] := rfl

@[simp] theorem values_empty : (empty : Dict κ ν).values = [] := rfl

theorem mem_keys {d : Dict κ ν} {k : κ} : k ∈ d.keys ↔ ∃ v, (k, v) ∈ d.entries := by
  simp [keys]

theorem mem_values {d : Dict κ ν} {v : ν} : v ∈ d.values ↔ ∃ k, (k, v) ∈ d.entries := by
  simp [values]

variable [DecidableEq κ]

/-- The first entry of `k`. -/
def find : List (κ × ν) → κ → Option ν
  | [], _ => none
  | (k', v) :: l, k => if k' = k then some v else find l k

/-- Replace the first entry of `k`, or append one. -/
def upsert : List (κ × ν) → κ → ν → List (κ × ν)
  | [], k, v => [(k, v)]
  | (k', v') :: l, k, v => if k' = k then (k, v) :: l else (k', v') :: upsert l k v

def get? (d : Dict κ ν) (k : κ) : Option ν := find d.entries k

def getD (d : Dict κ ν) (k : κ) (default : ν) : ν := (d.get? k).getD default

def contains (d : Dict κ ν) (k : κ) : Bool := (d.get? k).isSome

def insert (d : Dict κ ν) (k : κ) (v : ν) : Dict κ ν := ⟨upsert d.entries k v⟩

/-- `d.setdefault(k, v)` for its effect on `d`: an existing entry wins. -/
def setDefault (d : Dict κ ν) (k : κ) (v : ν) : Dict κ ν :=
  if d.contains k then d else d.insert k v

/-- A dictionary display or comprehension: later entries overwrite earlier ones. -/
def ofList (l : List (κ × ν)) : Dict κ ν := l.foldl (fun d p => d.insert p.1 p.2) empty

@[simp] theorem get?_empty (k : κ) : (empty : Dict κ ν).get? k = none := rfl

@[simp] theorem get?_mk_nil (k : κ) : (⟨[]⟩ : Dict κ ν).get? k = none := rfl

theorem find_upsert (l : List (κ × ν)) (k k' : κ) (v : ν) :
    find (upsert l k v) k' = if k = k' then some v else find l k' := by
  induction l with
  | nil => simp [upsert, find]
  | cons p l ih =>
    obtain ⟨k₀, v₀⟩ := p
    by_cases h₀ : k₀ = k
    · subst h₀
      by_cases h : k₀ = k' <;> simp [upsert, find, h]
    · by_cases h : k₀ = k'
      · subst h
        have hk : k ≠ k₀ := fun hk => h₀ hk.symm
        simp [upsert, find, h₀, hk]
      · simpa [upsert, find, h₀, h] using ih

theorem get?_insert (d : Dict κ ν) (k k' : κ) (v : ν) :
    (d.insert k v).get? k' = if k = k' then some v else d.get? k' :=
  find_upsert d.entries k k' v

@[simp] theorem get?_insert_self (d : Dict κ ν) (k : κ) (v : ν) :
    (d.insert k v).get? k = some v := by simp [get?_insert]

theorem get?_insert_ne (d : Dict κ ν) {k k' : κ} (v : ν) (h : k ≠ k') :
    (d.insert k v).get? k' = d.get? k' := by simp [get?_insert, h]

theorem mem_of_find {l : List (κ × ν)} {k : κ} {v : ν} (h : find l k = some v) : (k, v) ∈ l := by
  induction l with
  | nil => simp [find] at h
  | cons p l ih =>
    obtain ⟨k₀, v₀⟩ := p
    simp only [find] at h
    split_ifs at h with h₀
    · cases h
      subst h₀
      exact List.mem_cons_self
    · exact List.mem_cons_of_mem _ (ih h)

theorem mem_of_get? {d : Dict κ ν} {k : κ} {v : ν} (h : d.get? k = some v) :
    (k, v) ∈ d.entries :=
  mem_of_find h

theorem find_of_mem {l : List (κ × ν)} {k : κ} {v : ν} (hl : (l.map Prod.fst).Nodup)
    (h : (k, v) ∈ l) : find l k = some v := by
  induction l with
  | nil => cases h
  | cons p l ih =>
    obtain ⟨k₀, v₀⟩ := p
    obtain ⟨hk, hl⟩ := List.nodup_cons.mp hl
    rcases List.mem_cons.mp h with he | he
    · cases he
      simp [find]
    · have hne : k₀ ≠ k := by
        rintro rfl
        exact hk (List.mem_map.mpr ⟨_, he, rfl⟩)
      simpa [find, hne] using ih hl he

theorem get?_of_mem {d : Dict κ ν} {k : κ} {v : ν} (hd : d.keys.Nodup)
    (h : (k, v) ∈ d.entries) : d.get? k = some v :=
  find_of_mem hd h

theorem get?_ne_none_of_mem {d : Dict κ ν} {k : κ} {v : ν} (h : (k, v) ∈ d.entries) :
    d.get? k ≠ none := by
  obtain ⟨l⟩ := d
  have key : find l k ≠ none := by
    induction l with
    | nil => cases h
    | cons p l ih =>
      obtain ⟨k₀, v₀⟩ := p
      by_cases same : k₀ = k
      · simp [find, same]
      · have rest : (k, v) ∈ l := by
          rcases List.mem_cons.mp h with he | he
          · cases he
            exact absurd rfl same
          · exact he
        simpa [find, same] using ih rest
  exact key

theorem mem_upsert {l : List (κ × ν)} {k : κ} {v : ν} {p : κ × ν} (h : p ∈ upsert l k v) :
    p = (k, v) ∨ p ∈ l := by
  induction l with
  | nil => exact .inl (by simpa [upsert] using h)
  | cons q l ih =>
    simp only [upsert] at h
    split_ifs at h
    · rcases List.mem_cons.mp h with he | he
      · exact .inl he
      · exact .inr (List.mem_cons_of_mem _ he)
    · rcases List.mem_cons.mp h with he | he
      · exact .inr (he ▸ List.mem_cons_self)
      · exact (ih he).imp_right (List.mem_cons_of_mem _)

theorem mem_insert {d : Dict κ ν} {k : κ} {v : ν} {p : κ × ν} (h : p ∈ (d.insert k v).entries) :
    p = (k, v) ∨ p ∈ d.entries :=
  mem_upsert h

theorem mem_keys_upsert {l : List (κ × ν)} {k k' : κ} {v : ν} :
    k' ∈ (upsert l k v).map Prod.fst ↔ k' = k ∨ k' ∈ l.map Prod.fst := by
  induction l with
  | nil => simp [upsert]
  | cons p l ih =>
    obtain ⟨k₀, v₀⟩ := p
    simp only [upsert]
    split_ifs with h₀
    · subst h₀
      simp
    · rw [List.map_cons, List.mem_cons, ih]
      simp only [List.map_cons, List.mem_cons]
      tauto

theorem nodup_upsert {l : List (κ × ν)} (hl : (l.map Prod.fst).Nodup) (k : κ) (v : ν) :
    ((upsert l k v).map Prod.fst).Nodup := by
  induction l with
  | nil => simp [upsert]
  | cons p l ih =>
    obtain ⟨k₀, v₀⟩ := p
    obtain ⟨hk, hl⟩ := List.nodup_cons.mp hl
    simp only [upsert]
    split_ifs with h₀
    · subst h₀
      exact List.nodup_cons.mpr ⟨hk, hl⟩
    · refine List.nodup_cons.mpr ⟨fun hm => ?_, ih hl⟩
      rcases mem_keys_upsert.mp hm with he | he
      · exact h₀ he
      · exact hk he

theorem nodup_insert {d : Dict κ ν} (hd : d.keys.Nodup) (k : κ) (v : ν) :
    (d.insert k v).keys.Nodup :=
  nodup_upsert hd k v

theorem mem_iff_get? {d : Dict κ ν} (hd : d.keys.Nodup) {k : κ} {v : ν} :
    (k, v) ∈ d.entries ↔ d.get? k = some v :=
  ⟨get?_of_mem hd, mem_of_get?⟩

theorem filter_key {d : Dict κ ν} (hd : d.keys.Nodup) (k : κ) :
    d.entries.filter (fun e => e.1 = k) = (d.get? k).toList.map (fun v => (k, v)) := by
  obtain ⟨l⟩ := d
  have hl : (l.map Prod.fst).Nodup := hd
  have key : l.filter (fun e => e.1 = k) = (find l k).toList.map (fun v => (k, v)) := by
    clear hd
    induction l with
    | nil => rfl
    | cons p l ih =>
      obtain ⟨k₀, v₀⟩ := p
      obtain ⟨hk, hl⟩ := List.nodup_cons.mp hl
      by_cases h₀ : k₀ = k
      · subst h₀
        have hrest : l.filter (fun e => e.1 = k₀) = [] := by
          rw [List.filter_eq_nil_iff]
          intro e he heq
          exact hk (List.mem_map.mpr ⟨e, he, by simpa using heq⟩)
        simp [find, hrest]
      · simpa [find, h₀] using ih hl
  exact key

theorem nodup_ofList (l : List (κ × ν)) : (ofList l).keys.Nodup := by
  suffices h : ∀ d : Dict κ ν, d.keys.Nodup →
      (l.foldl (fun d p => d.insert p.1 p.2) d).keys.Nodup from h empty List.nodup_nil
  induction l with
  | nil => exact fun d hd => hd
  | cons p l ih => exact fun d hd => ih _ (nodup_insert hd _ _)

theorem mem_ofList {l : List (κ × ν)} {p : κ × ν} (h : p ∈ (ofList l).entries) : p ∈ l := by
  suffices hs : ∀ d : Dict κ ν, p ∈ (l.foldl (fun d p => d.insert p.1 p.2) d).entries →
      p ∈ d.entries ∨ p ∈ l by
    simpa using hs empty h
  clear h
  induction l with
  | nil => exact fun d hd => .inl hd
  | cons q l ih =>
    intro d hd
    rcases ih _ hd with h | h
    · rcases mem_insert h with rfl | h
      · exact .inr List.mem_cons_self
      · exact .inl h
    · exact .inr (List.mem_cons_of_mem _ h)

theorem upsert_of_notMem {l : List (κ × ν)} {k : κ} (h : k ∉ l.map Prod.fst) (v : ν) :
    upsert l k v = l ++ [(k, v)] := by
  induction l with
  | nil => rfl
  | cons p l ih =>
    obtain ⟨k₀, v₀⟩ := p
    have h₀ : k₀ ≠ k := fun he => h (by simp [he])
    have ht : k ∉ l.map Prod.fst := fun hm => h (List.mem_cons_of_mem _ hm)
    simp [upsert, h₀, ih ht]

theorem entries_insert_new {d : Dict κ ν} {k : κ} (h : k ∉ d.keys) (v : ν) :
    (d.insert k v).entries = d.entries ++ [(k, v)] :=
  upsert_of_notMem h v

theorem keys_insert_new {d : Dict κ ν} {k : κ} (h : k ∉ d.keys) (v : ν) :
    (d.insert k v).keys = d.keys ++ [k] := by
  simp [keys, entries_insert_new h]

theorem values_insert_new {d : Dict κ ν} {k : κ} (h : k ∉ d.keys) (v : ν) :
    (d.insert k v).values = d.values ++ [v] := by
  simp [values, entries_insert_new h]

theorem notMem_keys_iff {d : Dict κ ν} {k : κ} : k ∉ d.keys ↔ d.get? k = none := by
  constructor
  · intro h
    cases found : d.get? k with
    | none => rfl
    | some v => exact absurd (mem_keys.mpr ⟨v, mem_of_get? found⟩) h
  · intro none mem
    obtain ⟨v, hv⟩ := mem_keys.mp mem
    exact get?_ne_none_of_mem hv none

theorem ofList_entries {l : List (κ × ν)} (h : (l.map Prod.fst).Nodup) :
    (ofList l).entries = l := by
  suffices hs : ∀ d : Dict κ ν, (d.keys ++ l.map Prod.fst).Nodup →
      (l.foldl (fun d p => d.insert p.1 p.2) d).entries = d.entries ++ l by
    simpa [ofList] using hs empty (by simpa [keys] using h)
  clear h
  induction l with
  | nil => simp
  | cons p l ih =>
    intro d hd
    have hp : p.1 ∉ d.entries.map Prod.fst := by
      intro hm
      exact (List.nodup_append.mp hd).2.2 _ hm _ (by simp) rfl
    have he : (d.insert p.1 p.2).entries = d.entries ++ [p] := upsert_of_notMem hp p.2
    have hkeys : (d.insert p.1 p.2).keys = d.keys ++ [p.1] := by simp [keys, he]
    rw [List.foldl_cons, ih _ (by simpa [hkeys] using hd), he]
    simp

/-! ## Removing a key -/

section Erase

/-- `d.pop(k, None)` for its effect on `d`. -/
def erase (d : Dict κ ν) (k : κ) : Dict κ ν := ⟨d.entries.filter (fun e => e.1 ≠ k)⟩

theorem get?_erase (d : Dict κ ν) (k k' : κ) :
    (d.erase k).get? k' = if k = k' then none else d.get? k' := by
  obtain ⟨l⟩ := d
  have key : find (l.filter (fun e => e.1 ≠ k)) k' = if k = k' then none else find l k' := by
    induction l with
    | nil => simp [find]
    | cons p l ih =>
      obtain ⟨k₀, v₀⟩ := p
      by_cases h₀ : k₀ = k
      · subst h₀
        by_cases h : k₀ = k'
        · simpa [h] using ih
        · simpa [find, h] using ih
      · by_cases h : k₀ = k'
        · subst h
          have hk : k ≠ k₀ := fun hk => h₀ hk.symm
          simp [find, h₀, hk]
        · simpa [find, h₀, h] using ih
  exact key

@[simp] theorem get?_erase_self (d : Dict κ ν) (k : κ) : (d.erase k).get? k = none := by
  simp [get?_erase]

theorem get?_erase_ne (d : Dict κ ν) {k k' : κ} (h : k ≠ k') : (d.erase k).get? k' = d.get? k' := by
  simp [get?_erase, h]

theorem nodup_erase {d : Dict κ ν} (hd : d.keys.Nodup) (k : κ) : (d.erase k).keys.Nodup :=
  hd.sublist (List.filter_sublist.map Prod.fst)

theorem length_erase_le (d : Dict κ ν) (k : κ) : (d.erase k).entries.length ≤ d.entries.length :=
  List.length_filter_le _ _

theorem length_insert_le (d : Dict κ ν) (k : κ) (v : ν) :
    (d.insert k v).entries.length ≤ d.entries.length + 1 := by
  obtain ⟨l⟩ := d
  have key : (upsert l k v).length ≤ l.length + 1 := by
    induction l with
    | nil => simp [upsert]
    | cons p l ih =>
      simp only [upsert]
      split_ifs
      · simp
      · simpa using ih
  exact key

end Erase

/-! ## Lists with distinct keys -/

section Distinct

variable {α : Type} {f : α → κ} {l : List α} {x : α}

omit [DecidableEq κ] in
theorem eq_of_nodup_map (hl : (l.map f).Nodup) {x y : α} (hx : x ∈ l) (hy : y ∈ l)
    (h : f x = f y) : x = y :=
  List.inj_on_of_nodup_map hl hx hy h

omit [DecidableEq κ] in
theorem filter_unique (hl : (l.map f).Nodup) (hx : x ∈ l) {P : α → Prop} [DecidablePred P]
    (own : P x) (only : ∀ y ∈ l, P y → f y = f x) : l.filter (fun y => P y) = [x] := by
  induction l with
  | nil => cases hx
  | cons y l ih =>
    obtain ⟨hy, hl⟩ := List.nodup_cons.mp hl
    rcases List.mem_cons.mp hx with rfl | hx
    · have rest : l.filter (fun y => P y) = [] := by
        rw [List.filter_eq_nil_iff]
        intro z hz hP
        have same := only z (List.mem_cons_of_mem _ hz) (by simpa using hP)
        exact hy (List.mem_map.mpr ⟨z, hz, same⟩)
      simp [own, rest]
    · have out : ¬P y := by
        intro hP
        have same := only y List.mem_cons_self hP
        exact hy (List.mem_map.mpr ⟨x, hx, same.symm⟩)
      have rest := ih hl hx fun z hz => only z (List.mem_cons_of_mem _ hz)
      simp [out, rest]

omit [DecidableEq κ] in
theorem find?_unique (hl : (l.map f).Nodup) (hx : x ∈ l) {P : α → Prop} [DecidablePred P]
    (own : P x) (only : ∀ y ∈ l, P y → f y = f x) : l.find? (fun y => P y) = some x := by
  rw [← List.head?_filter, filter_unique hl hx own only]
  rfl

omit [DecidableEq κ] in
theorem nodup_map_append (hl : (l.map f).Nodup) (new : ∀ y ∈ l, f y ≠ f x) :
    ((l ++ [x]).map f).Nodup := by
  rw [List.map_append, List.nodup_append]
  refine ⟨hl, List.nodup_singleton _, ?_⟩
  rintro k old k' last rfl
  obtain ⟨y, hy, rfl⟩ := List.mem_map.mp old
  exact new y hy (List.mem_singleton.mp last)

theorem filter_same (hl : (l.map f).Nodup) (hx : x ∈ l) :
    l.filter (fun y => f y = f x) = [x] :=
  filter_unique (P := fun y => f y = f x) hl hx rfl fun _ _ same => same

theorem find?_same (hl : (l.map f).Nodup) (hx : x ∈ l) :
    l.find? (fun y => f y = f x) = some x :=
  find?_unique (P := fun y => f y = f x) hl hx rfl fun _ _ same => same

end Distinct

/-! ## Dictionaries below one another -/

section Below

/-- Every entry of `d` stands in `d'`. -/
def Below (d d' : Dict κ ν) : Prop := ∀ k v, d.get? k = some v → d'.get? k = some v

variable {d d' d'' : Dict κ ν}

theorem Below.refl (d : Dict κ ν) : d.Below d := fun _ _ => id

theorem Below.trans (h : d.Below d') (h' : d'.Below d'') : d.Below d'' := fun k v found => h' k v (h k v found)

theorem Below.isSome (h : d.Below d') {k : κ} (found : (d.get? k).isSome) : (d'.get? k).isSome := by
  obtain ⟨v, found⟩ := Option.isSome_iff_exists.mp found
  rw [h k v found]
  rfl

theorem Below.insert (h : d.Below d') (k : κ) (v : ν) : (d.insert k v).Below (d'.insert k v) := by
  intro k' v' found
  rw [get?_insert] at found ⊢
  split_ifs at found ⊢ with same
  · exact found
  · exact h k' v' found

theorem below_insert {k : κ} (new : d.get? k = none) (v : ν) : d.Below (d.insert k v) := by
  intro k' v' found
  have other : k ≠ k' := by
    rintro rfl
    cases new.symm.trans found
  rw [get?_insert_ne d v other]
  exact found

def insertAll (d : Dict κ ν) (l : List (κ × ν)) : Dict κ ν := l.foldl (fun d p => d.insert p.1 p.2) d

theorem Below.insertAll (h : d.Below d') (l : List (κ × ν)) : (d.insertAll l).Below (d'.insertAll l) := by
  induction l generalizing d d' with
  | nil => exact h
  | cons p l ih => exact ih (h.insert p.1 p.2)

theorem get?_insertAll_of_notMem {l : List (κ × ν)} {k : κ} (h : k ∉ l.map Prod.fst) :
    (d.insertAll l).get? k = d.get? k := by
  induction l generalizing d with
  | nil => rfl
  | cons p l ih =>
    rw [List.map_cons, List.mem_cons, not_or] at h
    obtain ⟨other, rest⟩ := h
    exact (ih rest).trans (get?_insert_ne d p.2 (Ne.symm other))

theorem below_insertAll {l : List (κ × ν)} (new : ∀ k ∈ l.map Prod.fst, d.get? k = none) :
    d.Below (d.insertAll l) := by
  intro k v found
  rw [get?_insertAll_of_notMem fun mem => by cases (new k mem).symm.trans found]
  exact found

theorem isSome_insertAll {l : List (κ × ν)} {k : κ} :
    ((d.insertAll l).get? k).isSome ↔ (d.get? k).isSome ∨ k ∈ l.map Prod.fst := by
  induction l generalizing d with
  | nil => simp [Dict.insertAll]
  | cons p l ih =>
    have step : ((d.insertAll (p :: l)).get? k).isSome ↔
        ((d.insert p.1 p.2).get? k).isSome ∨ k ∈ l.map Prod.fst := ih
    rw [step, get?_insert, List.map_cons, List.mem_cons]
    by_cases same : p.1 = k
    · simp [same]
    · simp [same, Ne.symm same]

theorem isSome_ofList {l : List (κ × ν)} {k : κ} : ((ofList l).get? k).isSome ↔ k ∈ l.map Prod.fst :=
  (isSome_insertAll (d := empty)).trans (by simp)

theorem mem_of_get?_ofList {l : List (κ × ν)} {k : κ} {v : ν} (h : (ofList l).get? k = some v) : (k, v) ∈ l :=
  mem_ofList (mem_of_get? h)

end Below

/-! ## Mapping the values -/

section MapValues

variable {μ : Type}

def mapValues (f : ν → μ) (d : Dict κ ν) : Dict κ μ := ⟨d.entries.map (fun p => (p.1, f p.2))⟩

omit [DecidableEq κ] in
@[simp] theorem mapValues_empty (f : ν → μ) : (empty : Dict κ ν).mapValues f = empty := rfl

omit [DecidableEq κ] in
theorem values_mapValues (f : ν → μ) (d : Dict κ ν) : (d.mapValues f).values = d.values.map f := by
  simp [mapValues, values, Function.comp_def]

theorem get?_mapValues (f : ν → μ) (d : Dict κ ν) (k : κ) :
    (d.mapValues f).get? k = (d.get? k).map f := by
  obtain ⟨l⟩ := d
  change find (l.map (fun p => (p.1, f p.2))) k = (find l k).map f
  induction l with
  | nil => rfl
  | cons p l ih =>
    by_cases h : p.1 = k
    · simp [find, h]
    · simpa [find, h] using ih

theorem getD_mapValues (f : ν → μ) (d : Dict κ ν) (k : κ) (v : ν) :
    (d.mapValues f).getD k (f v) = f (d.getD k v) := by
  rw [getD, getD, get?_mapValues, Option.getD_map]

theorem contains_mapValues (f : ν → μ) (d : Dict κ ν) (k : κ) :
    (d.mapValues f).contains k = d.contains k := by
  simp [contains, get?_mapValues]

theorem mapValues_insert (f : ν → μ) (d : Dict κ ν) (k : κ) (v : ν) :
    (d.insert k v).mapValues f = (d.mapValues f).insert k (f v) := by
  obtain ⟨l⟩ := d
  have hl : (upsert l k v).map (fun p => (p.1, f p.2)) =
      upsert (l.map (fun p => (p.1, f p.2))) k (f v) := by
    induction l with
    | nil => rfl
    | cons p l ih =>
      by_cases h : p.1 = k
      · simp [upsert, h]
      · simpa [upsert, h] using ih
  exact congrArg Dict.mk hl

theorem mapValues_setDefault (f : ν → μ) (d : Dict κ ν) (k : κ) (v : ν) :
    (d.setDefault k v).mapValues f = (d.mapValues f).setDefault k (f v) := by
  rw [setDefault, setDefault, contains_mapValues]
  split_ifs
  · rfl
  · exact mapValues_insert f d k v

theorem mapValues_ofList (f : ν → μ) (l : List (κ × ν)) :
    (ofList l).mapValues f = ofList (l.map (fun p => (p.1, f p.2))) := by
  suffices h : ∀ d : Dict κ ν, (l.foldl (fun d p => d.insert p.1 p.2) d).mapValues f =
      (l.map (fun p => (p.1, f p.2))).foldl (fun d p => d.insert p.1 p.2) (d.mapValues f) from h empty
  induction l with
  | nil => exact fun d => rfl
  | cons p l ih =>
    intro d
    rw [List.foldl_cons, ih, mapValues_insert]
    rfl

end MapValues

end Dict
