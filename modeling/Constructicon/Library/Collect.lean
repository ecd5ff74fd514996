import Constructicon.Library.Dict
import Constructicon.Library.Transaction

/-!
# Filing items under their keys

`Dict.collect` files one item after another under its key, folding the items of a key together
and keeping the keys in the order of their first items. What it holds is known from the keys and
from the items of each key (`entries_collect`), so items may be filed one key after another
instead of in their own order (`collect_regroup`), as long as the keys come in the same order.
-/

namespace Dict

variable {κ α β γ : Type} [DecidableEq κ]

def file (f : β → α → β) (start : β) (d : Dict κ β) (item : κ × α) : Dict κ β :=
  d.insert item.1 (f (d.getD item.1 start) item.2)

def collect (f : β → α → β) (start : β) (items : List (κ × α)) : Dict κ β :=
  items.foldl (file f start) empty

def itemsOf (items : List (κ × α)) (k : κ) : List α :=
  (items.filter (fun item => item.1 = k)).map Prod.snd

@[simp] theorem itemsOf_nil (k : κ) : itemsOf ([] : List (κ × α)) k = [] := rfl

theorem itemsOf_append (items more : List (κ × α)) (k : κ) :
    itemsOf (items ++ more) k = itemsOf items k ++ itemsOf more k := by
  simp [itemsOf]

theorem itemsOf_singleton (item : κ × α) (k : κ) :
    itemsOf [item] k = if item.1 = k then [item.2] else [] := by
  by_cases same : item.1 = k <;> simp [itemsOf, same]

theorem itemsOf_eq_nil {items : List (κ × α)} {k : κ} : itemsOf items k = [] ↔ k ∉ items.map Prod.fst := by
  rw [itemsOf, List.map_eq_nil_iff, List.filter_eq_nil_iff]
  constructor
  · intro none mem
    obtain ⟨item, inside, same⟩ := List.mem_map.mp mem
    exact none item inside (decide_eq_true same)
  · intro none item inside same
    exact none (List.mem_map.mpr ⟨item, inside, of_decide_eq_true same⟩)

theorem keys_insert (d : Dict κ β) (k : κ) (v : β) :
    (d.insert k v).keys = if k ∈ d.keys then d.keys else d.keys ++ [k] := by
  split_ifs with known
  · obtain ⟨l⟩ := d
    unfold keys insert at *
    dsimp only at *
    induction l with
    | nil => exact absurd known List.not_mem_nil
    | cons p l ih =>
      obtain ⟨k', v'⟩ := p
      by_cases same : k' = k
      · simp [upsert, same]
      · have later : k ∈ l.map Prod.fst := by
          rcases List.mem_cons.mp known with here | later
          · exact absurd here.symm same
          · exact later
        rw [upsert, if_neg same, List.map_cons, List.map_cons, ih later]
  · exact keys_insert_new known v

theorem collect_append_singleton (f : β → α → β) (start : β) (items : List (κ × α)) (item : κ × α) :
    collect f start (items ++ [item]) = file f start (collect f start items) item := by
  simp [collect]

theorem nodup_collect (f : β → α → β) (start : β) (items : List (κ × α)) :
    (collect f start items).keys.Nodup := by
  induction items using List.reverseRecOn with
  | nil => exact List.nodup_nil
  | append_singleton items item ih =>
    rw [collect_append_singleton]
    exact nodup_insert ih _ _

theorem get?_collect (f : β → α → β) (start : β) (items : List (κ × α)) (k : κ) :
    (collect f start items).get? k =
      if k ∈ items.map Prod.fst then some ((itemsOf items k).foldl f start) else none := by
  induction items using List.reverseRecOn with
  | nil => rfl
  | append_singleton items item ih =>
    rw [collect_append_singleton, file, get?_insert, itemsOf_append, itemsOf_singleton, List.map_append,
      List.map_singleton]
    by_cases same : item.1 = k
    · subst same
      rw [if_pos rfl, if_pos rfl, if_pos (List.mem_append_right _ (List.mem_singleton_self _)),
        List.foldl_append, getD, ih]
      split_ifs with known
      · rfl
      · rw [itemsOf_eq_nil.mpr known]
        rfl
    · have later : k ∈ items.map Prod.fst ++ [item.1] ↔ k ∈ items.map Prod.fst := by
        rw [List.mem_append, List.mem_singleton]
        exact ⟨fun h => h.resolve_right (Ne.symm same), .inl⟩
      rw [if_neg same, if_neg same, List.append_nil, ih]
      simp only [later]

theorem mem_keys_collect {f : β → α → β} {start : β} {items : List (κ × α)} {k : κ} :
    k ∈ (collect f start items).keys ↔ k ∈ items.map Prod.fst := by
  have known := notMem_keys_iff (d := collect f start items) (k := k)
  rw [get?_collect] at known
  by_cases mem : k ∈ items.map Prod.fst
  · simp only [if_pos mem, reduceCtorEq, iff_false, not_not] at known
    simp [known, mem]
  · simp only [if_neg mem, iff_true] at known
    simp [known, mem]

theorem keys_collect (f : β → α → β) (start : β) (g : γ → α → γ) (start' : γ) (items : List (κ × α)) :
    (collect f start items).keys = (collect g start' items).keys := by
  induction items using List.reverseRecOn with
  | nil => rfl
  | append_singleton items item ih =>
    rw [collect_append_singleton, collect_append_singleton, file, file, keys_insert, keys_insert, ih]

theorem keys_collect_front (f : β → α → β) (start : β) (items more : List (κ × α)) :
    (collect f start items).keys <+: (collect f start (items ++ more)).keys := by
  induction more using List.reverseRecOn with
  | nil => rw [List.append_nil]
  | append_singleton more item ih =>
    rw [← List.append_assoc, collect_append_singleton, file, keys_insert]
    split_ifs with known
    · exact ih
    · exact ih.trans (List.prefix_append _ _)

theorem entries_eq {d : Dict κ β} (hd : d.keys.Nodup) {g : κ → β} (h : ∀ k ∈ d.keys, d.get? k = some (g k)) :
    d.entries = d.keys.map (fun k => (k, g k)) := by
  unfold keys
  rw [List.map_map]
  refine (List.map_id' d.entries).symm.trans (List.map_congr_left fun p mem => ?_)
  have key : p.1 ∈ d.keys := List.mem_map_of_mem mem
  have value := get?_of_mem hd (k := p.1) (v := p.2) mem
  rw [h p.1 key] at value
  exact Prod.ext rfl (Option.some.inj value).symm

theorem entries_collect (f : β → α → β) (start : β) (items : List (κ × α)) :
    (collect f start items).entries =
      (collect f start items).keys.map (fun k => (k, (itemsOf items k).foldl f start)) := by
  apply entries_eq (nodup_collect f start items)
  intro k mem
  rw [get?_collect, if_pos (mem_keys_collect.mp mem)]

/-- The items of one key after another, the keys being `names`. -/
def regrouped (names : List κ) (rows : κ → List α) : List (κ × α) :=
  names.flatMap (fun n => (rows n).map (Prod.mk n))

theorem itemsOf_regrouped {names : List κ} (nodup : names.Nodup) (rows : κ → List α) {n : κ} (mem : n ∈ names) :
    itemsOf (regrouped names rows) n = rows n := by
  induction names with
  | nil => exact absurd mem List.not_mem_nil
  | cons n' names ih =>
    obtain ⟨new, nodup⟩ := List.nodup_cons.mp nodup
    have here : itemsOf ((rows n').map (Prod.mk n')) n = if n' = n then rows n' else [] := by
      split_ifs with same <;> simp [itemsOf, List.filter_map, Function.comp_def, same]
    have split : regrouped (n' :: names) rows = (rows n').map (Prod.mk n') ++ regrouped names rows := by
      rw [regrouped, List.flatMap_cons]
      rfl
    rw [split, itemsOf_append, here]
    by_cases same : n' = n
    · have none : itemsOf (regrouped names rows) n = [] := by
        rw [itemsOf_eq_nil]
        intro found
        obtain ⟨item, inside, rfl⟩ := List.mem_map.mp found
        obtain ⟨name, mem', inside⟩ := List.mem_flatMap.mp inside
        obtain ⟨row, -, rfl⟩ := List.mem_map.mp inside
        exact new (same ▸ mem')
      rw [if_pos same, none, List.append_nil, same]
    · rw [if_neg same, List.nil_append]
      rcases List.mem_cons.mp mem with here | later
      · exact absurd here.symm same
      · exact ih nodup later

theorem keys_file_all (f : β → α → β) (start : β) (d : Dict κ β) (k : κ) (rows : List α) (new : k ∉ d.keys) :
    ((rows.map (Prod.mk k)).foldl (file f start) d).keys = if rows = [] then d.keys else d.keys ++ [k] := by
  induction rows using List.reverseRecOn with
  | nil => rfl
  | append_singleton rows row ih =>
    have some : rows ++ [row] ≠ [] := by simp
    rw [List.map_append, List.foldl_append, List.map_singleton, List.foldl_cons, List.foldl_nil, file,
      keys_insert, ih, if_neg some]
    dsimp only
    by_cases none : rows = []
    · simp only [if_pos none, if_neg new]
    · simp only [if_neg none]
      rw [if_pos (List.mem_append_right _ (List.mem_singleton_self k))]

omit [DecidableEq κ] in
theorem regrouped_append (names more : List κ) (rows : κ → List α) :
    regrouped (names ++ more) rows = regrouped names rows ++ regrouped more rows :=
  List.flatMap_append

theorem keys_regrouped (f : β → α → β) (start : β) {names : List κ} (nodup : names.Nodup) (rows : κ → List α) :
    (collect f start (regrouped names rows)).keys = names.filter (fun n => rows n ≠ []) := by
  induction names using List.reverseRecOn with
  | nil => rfl
  | append_singleton names n ih =>
    obtain ⟨nodup, -, apart⟩ := List.nodup_append.mp nodup
    have new : n ∉ (collect f start (regrouped names rows)).keys := by
      rw [ih nodup]
      intro mem
      exact apart n (List.mem_of_mem_filter mem) n (List.mem_singleton_self n) rfl
    have single : regrouped [n] rows = (rows n).map (Prod.mk n) := by simp [regrouped]
    rw [regrouped_append, single, collect, List.foldl_append]
    change ((rows n).map (Prod.mk n) |>.foldl (file f start) (collect f start (regrouped names rows))).keys = _
    rw [keys_file_all f start _ n _ new, ih nodup, List.filter_append]
    by_cases none : rows n = []
    · simp [none]
    · simp [none]

/-- Filing a beginning of `all` one key after another, the keys in the order of `all`, is filing it
in its own order. -/
theorem collect_regroup (f : β → α → β) (start : β) (items more : List (κ × α)) (g : γ → α → γ) (start' : γ) :
    collect f start (regrouped (collect g start' (items ++ more)).keys (itemsOf items)) =
      collect f start items := by
  have nodup := nodup_collect g start' (items ++ more)
  obtain ⟨rest, names⟩ := keys_collect_front g start' items more
  have same : (collect f start (regrouped (collect g start' (items ++ more)).keys (itemsOf items))).keys =
      (collect f start items).keys := by
    rw [keys_regrouped f start nodup, keys_collect f start g start', ← names, List.filter_append]
    have all : (collect g start' items).keys.filter (fun n => itemsOf items n ≠ []) =
        (collect g start' items).keys := by
      rw [List.filter_eq_self]
      intro n mem
      have some : itemsOf items n ≠ [] := fun none => itemsOf_eq_nil.mp none (mem_keys_collect.mp mem)
      exact decide_eq_true some
    have none : rest.filter (fun n => itemsOf items n ≠ []) = [] := by
      rw [List.filter_eq_nil_iff]
      intro n mem some
      rw [← names] at nodup
      have known : n ∈ (collect g start' items).keys := by
        rw [mem_keys_collect]
        by_contra missing
        exact of_decide_eq_true some (itemsOf_eq_nil.mpr missing)
      exact (List.nodup_append.mp nodup).2.2 n known n mem rfl
    rw [all, none, List.append_nil]
  have entries : (collect f start (regrouped (collect g start' (items ++ more)).keys (itemsOf items))).entries =
      (collect f start items).entries := by
    rw [entries_collect, entries_collect, same]
    refine List.map_congr_left fun n mem => ?_
    rw [itemsOf_regrouped nodup]
    rw [keys_collect f start g start'] at mem
    exact (keys_collect_front g start' items more).subset mem
  exact congrArg Dict.mk entries

/-! ## Filing what is read -/

section Reading

open Transaction

variable {ε ν : Type} {g : α → Except ε ν} {key : α → κ} {l : List α}

def fileRead (g : α → Except ε ν) (key : α → κ) (d : Dict κ ν) (a : α) : Except ε (Dict κ ν) := do
  let x ← g a
  pure (d.insert (key a) x)

theorem fileRead_ok {d d' : Dict κ ν} (h : l.foldlM (fileRead g key) d = .ok d') :
    ∃ e : List (κ × ν), e.map Prod.fst = l.map key ∧ ∀ w, l.foldlM (fileRead g key) w = .ok (w.insertAll e) := by
  induction l generalizing d with
  | nil => exact ⟨[], rfl, fun w => rfl⟩
  | cons a l ih =>
    rw [List.foldlM_cons, bind_eq_ok] at h
    obtain ⟨d₁, filed, h⟩ := h
    obtain ⟨e, names, files⟩ := ih h
    unfold fileRead at filed
    rw [bind_eq_ok] at filed
    obtain ⟨x, read, -⟩ := filed
    refine ⟨(key a, x) :: e, by rw [List.map_cons, List.map_cons, names], fun w => ?_⟩
    have here : fileRead g key w a = .ok (w.insert (key a) x) := by
      unfold fileRead
      rw [read]
      rfl
    rw [List.foldlM_cons, here]
    exact files _

theorem fileRead_of (h : ∀ a ∈ l, ∃ x, g a = .ok x) (d : Dict κ ν) : ∃ d', l.foldlM (fileRead g key) d = .ok d' := by
  induction l generalizing d with
  | nil => exact ⟨d, rfl⟩
  | cons a l ih =>
    obtain ⟨x, read⟩ := h a List.mem_cons_self
    have here : fileRead g key d a = .ok (d.insert (key a) x) := by
      unfold fileRead
      rw [read]
      rfl
    rw [List.foldlM_cons, here]
    exact ih (fun b mem => h b (List.mem_cons_of_mem _ mem)) _

end Reading

end Dict
