import Constructicon.Library.PyJson
import Constructicon.CanonicalForm

/-!
# The wire normalizer and the identity law

`json_value` turns what a component returns into a wire value, `canonical_json` prints it
with sorted keys and no blanks, `parse_json_value` reads a durable text back without
collapsing a repeated key, and `digest` hashes the text behind its domain and version. A
wire value is a `Json` that `json_value` can answer with. The canonical text of one is read
back as its canonical form, so the text says the value up to key order, and the material of
a digest says domain, version and value.
-/

namespace Constructicon

open PyJson Transaction

variable {φ : Type} (F : FloatText φ)

/-- Why a value does not cross the wire, or a text is not durable. -/
inductive WireFault where
  | malformed
  | repeatsKey (key : PyStr)
  | notScalar
  | notFinite
  | keyNotString
  | notWire
deriving DecidableEq

/-! ## Normalizing -/

/-- `_unicode_scalar`: the text when every code point is a Unicode scalar value. -/
def unicodeScalar (value : PyStr) : Except WireFault String :=
  if ∀ c ∈ value, c.isValidChar then .ok (String.ofList (value.map Char.ofNat))
  else .error .notScalar

mutual

/-- `json_value` -/
def jsonValue : PyValue φ → Except WireFault Json
  | .boxed value => jsonValue value
  | .str s => do
    let text ← unicodeScalar s
    return .str text
  | .none => .ok .null
  | .bool b => .ok (.bool b)
  | .int n => .ok (.int n)
  | .float none => .error .notFinite
  | .float (some f) => .ok (.float (F.repr f))
  | .dict entries => do
    let normalized ← jsonMembers Dict.empty entries
    return .obj normalized.entries
  | .list items => do
    let items ← jsonItems items
    return .arr items
  | .tuple items => do
    let items ← jsonItems items
    return .arr items
  | .other => .error .notWire

def jsonItems : List (PyValue φ) → Except WireFault (List Json)
  | [] => .ok []
  | item :: items => do
    let item ← jsonValue item
    let items ← jsonItems items
    return item :: items

def jsonMembers (normalized : Dict String Json) :
    List (PyValue φ × PyValue φ) → Except WireFault (Dict String Json)
  | [] => .ok normalized
  | (.str key, item) :: entries => do
    let value ← jsonValue item
    let key ← unicodeScalar key
    jsonMembers (normalized.insert key value) entries
  | _ :: _ => .error .keyNotString

end

/-! ## Printing and reading -/

mutual

/-- `json.dumps` with `separators=(",", ":")` and `ensure_ascii=False`. -/
def dumps : Json → PyStr
  | .null => [110, 117, 108, 108]
  | .bool true => [116, 114, 117, 101]
  | .bool false => [102, 97, 108, 115, 101]
  | .int n => integer n
  | .float token => points token
  | .str s => quote (points s)
  | .arr items => 91 :: (dumpsItems items ++ [93])
  | .obj entries => 123 :: (dumpsMembers entries ++ [125])

def dumpsItems : List Json → PyStr
  | [] => []
  | [item] => dumps item
  | item :: next :: items => dumps item ++ 44 :: dumpsItems (next :: items)

def dumpsMembers : List (String × Json) → PyStr
  | [] => []
  | [(key, value)] => quote (points key) ++ 58 :: dumps value
  | (key, value) :: next :: entries =>
    quote (points key) ++ 58 :: (dumps value ++ 44 :: dumpsMembers (next :: entries))

end

/-- The text of a wire value, with sorted keys. -/
def canonicalText (value : Json) : PyStr := dumps value.canonical

/-- `canonical_json` -/
def canonicalJson (payload : PyValue φ) : Except WireFault PyStr := do
  let normalized ← jsonValue F payload
  return canonicalText normalized

/-- One pair of an object into the dictionary of the pairs before it. -/
def uniqueRound (result : Dict PyStr (PyValue φ)) (p : PyStr × PyValue φ) :
    Except WireFault (Dict PyStr (PyValue φ)) := do
  require (result.contains p.1 = false) (.repeatsKey p.1)
  return result.insert p.1 p.2

/-- `unique_object` -/
def uniqueObject (pairs : List (PyStr × PyValue φ)) : Except WireFault (PyValue φ) := do
  let result ← pairs.foldlM uniqueRound Dict.empty
  return .dict (result.entries.map (fun p => (.str p.1, p.2)))

/-- `parse_json_value` -/
def parseJsonValue (payload : PyStr) : Except WireFault Json := do
  let value ← loads F .malformed uniqueObject payload
  jsonValue F value

/-- What `digest` hashes. -/
def digestMaterial (domain : PyStr) (version : ℤ) (payload : PyValue φ) : Except WireFault PyStr := do
  let text ← canonicalJson F payload
  return points "constructicon" ++ 0 :: (domain ++ 0 :: (integer version ++ 0 :: text))

/-! ## Wire values -/

/-- What `json_value` can answer with: objects without repeated keys over floats that print. -/
inductive WireValue : Json → Prop
  | null : WireValue .null
  | bool (b : Bool) : WireValue (.bool b)
  | int (n : ℤ) : WireValue (.int n)
  | float (f : φ) : WireValue (.float (F.repr f))
  | str (s : String) : WireValue (.str s)
  | arr {items : List Json} (wired : ∀ j ∈ items, WireValue j) : WireValue (.arr items)
  | obj {entries : List (String × Json)} (keys : (entries.map Prod.fst).Nodup)
      (wired : ∀ e ∈ entries, WireValue e.2) : WireValue (.obj entries)

mutual

theorem jsonValue_wire : ∀ (v : PyValue φ) {j : Json}, jsonValue F v = .ok j → WireValue F j
  | .boxed v, j, h => by
    rw [jsonValue] at h
    exact jsonValue_wire v h
  | .str s, j, h => by
    simp only [jsonValue, bind_eq_ok] at h
    obtain ⟨text, -, h⟩ := h
    cases h
    exact .str text
  | .none, j, h => by
    cases h
    exact .null
  | .bool b, j, h => by
    cases h
    exact .bool b
  | .int n, j, h => by
    cases h
    exact .int n
  | .float none, j, h => by
    cases h
  | .float (some f), j, h => by
    cases h
    exact .float f
  | .dict entries, j, h => by
    simp only [jsonValue, bind_eq_ok] at h
    obtain ⟨normalized, read, h⟩ := h
    cases h
    obtain ⟨keys, wired⟩ := jsonMembers_wire entries read List.nodup_nil
      (fun e he => (List.not_mem_nil he).elim)
    exact .obj keys wired
  | .list items, j, h => by
    simp only [jsonValue, bind_eq_ok] at h
    obtain ⟨normalized, read, h⟩ := h
    cases h
    exact .arr (jsonItems_wire items read)
  | .tuple items, j, h => by
    simp only [jsonValue, bind_eq_ok] at h
    obtain ⟨normalized, read, h⟩ := h
    cases h
    exact .arr (jsonItems_wire items read)
  | .other, j, h => by
    cases h

theorem jsonItems_wire : ∀ (items : List (PyValue φ)) {js : List Json},
    jsonItems F items = .ok js → ∀ j ∈ js, WireValue F j
  | [], js, h => by
    cases h
    intro j hj
    cases hj
  | item :: items, js, h => by
    simp only [jsonItems, bind_eq_ok] at h
    obtain ⟨j, first, js', rest, h⟩ := h
    cases h
    exact List.forall_mem_cons.mpr ⟨jsonValue_wire item first, jsonItems_wire items rest⟩

theorem jsonMembers_wire : ∀ (entries : List (PyValue φ × PyValue φ)) {d d' : Dict String Json},
    jsonMembers F d entries = .ok d' → d.keys.Nodup → (∀ e ∈ d.entries, WireValue F e.2) →
      d'.keys.Nodup ∧ ∀ e ∈ d'.entries, WireValue F e.2
  | [], d, d', h, keys, wired => by
    cases h
    exact ⟨keys, wired⟩
  | (key, item) :: entries, d, d', h, keys, wired => by
    cases key with
    | str key =>
      simp only [jsonMembers, bind_eq_ok] at h
      obtain ⟨value, first, key', -, rest⟩ := h
      refine jsonMembers_wire entries rest (Dict.nodup_insert keys _ _) ?_
      intro e he
      rcases Dict.mem_insert he with rfl | old
      · exact jsonValue_wire item first
      · exact wired e old
    | _ => simp [jsonMembers] at h

end

theorem WireValue.canonical {j : Json} (wire : WireValue F j) : WireValue F j.canonical := by
  induction wire with
  | arr wired ih =>
    rw [Json.canonical_arr]
    refine .arr fun j hj => ?_
    obtain ⟨i, hi, rfl⟩ := List.mem_map.mp hj
    exact ih i hi
  | obj keys wired ih =>
    rw [Json.canonical_obj]
    refine .obj ?_ fun e he => ?_
    · rw [((Json.sortKeys_perm _).map Prod.fst).nodup_iff, List.map_map]
      exact keys
    · obtain ⟨p, hp, rfl⟩ := List.mem_map.mp ((Json.sortKeys_perm _).mem_iff.mp he)
      exact ih p hp
  | null => exact .null
  | bool b => exact .bool b
  | int n => exact .int n
  | float f => exact .float f
  | str s => exact .str s

/-! ## Reading a printed value -/

theorem unicodeScalar_points (s : String) : unicodeScalar (points s) = .ok s := by
  have valid : ∀ c ∈ points s, c.isValidChar := by
    intro c hc
    obtain ⟨d, -, rfl⟩ := List.mem_map.mp hc
    exact d.valid
  unfold unicodeScalar
  rw [if_pos valid, points, List.map_map]
  have back : Char.ofNat ∘ Char.toNat = id := funext Char.ofNat_toNat
  rw [back, List.map_id, String.ofList_toList]

theorem points_injective : Function.Injective points := by
  intro s t same
  have read := unicodeScalar_points s
  rw [same, unicodeScalar_points] at read
  exact (Except.ok.inj read).symm

/-- The text of `j` scans as `v` whatever follows, and `v` normalizes to `j`. -/
def ReadAs (j : Json) (v : PyValue φ) : Prop :=
  jsonValue F v = .ok j ∧
    ∀ rest, Clear numberPart rest → ∀ m, 4 * (dumps j ++ rest).length ≤ m →
      scanOnce F .malformed uniqueObject m (dumps j ++ rest) = .ok (v, rest)

/-- A value begins with no blank, no closing bracket and no byte order mark. -/
def opens (c : ℕ) : Bool := !isBlank c && c != 93 && c != 0xfeff

theorem WireValue.opens {j : Json} (wire : WireValue F j) : ∃ c t, dumps j = c :: t ∧ opens c = true := by
  have number : ∀ {s : PyStr} {r : PyStr × PyStr}, scanIntegral s = some r →
      ∃ c t, s = c :: t ∧ Constructicon.opens c = true := by
    intro s r h
    obtain ⟨c, t, same, shape⟩ := scanIntegral_cons h
    refine ⟨c, t, same, ?_⟩
    rcases shape with digit | ⟨rfl, -⟩
    · simp only [isDigit, Bool.and_eq_true, decide_eq_true_eq] at digit
      simp only [Constructicon.opens, isBlank, Bool.and_eq_true, Bool.not_eq_true', Bool.or_eq_false_iff,
        beq_eq_false_iff_ne, bne_iff_ne]
      omega
    · rfl
  cases wire with
  | null => exact ⟨_, _, rfl, rfl⟩
  | bool b => cases b <;> exact ⟨_, _, rfl, rfl⟩
  | int n => exact number (scanIntegral_integer n)
  | float f =>
    obtain ⟨integral, fraction, exponent, same, hi, -, -, -⟩ := F.literal f
    obtain ⟨c, t, rfl, first⟩ := number hi
    exact ⟨c, _, by rw [dumps, same]; rfl, first⟩
  | str s => exact ⟨_, _, rfl, rfl⟩
  | arr wired => exact ⟨_, _, rfl, rfl⟩
  | obj keys wired => exact ⟨_, _, rfl, rfl⟩

theorem skipBlanks_opens {s : PyStr} {c : ℕ} {t : PyStr} (same : s = c :: t) (first : opens c = true) :
    skipBlanks s = s := by
  subst same
  refine skipBlanks_clear (Clear.cons ?_ t)
  simp only [opens, Bool.and_eq_true, Bool.not_eq_true'] at first
  exact first.1.1

theorem readItems {items : List Json} (wired : ∀ j ∈ items, WireValue F j)
    (read : ∀ j ∈ items, ∃ v, ReadAs F j v) (some : items ≠ []) :
    ∃ values, jsonItems F values = .ok items ∧
      (∃ c t, dumpsItems items = c :: t ∧ opens c = true) ∧
      ∀ rest m, 4 * (dumpsItems items ++ 93 :: rest).length + 1 ≤ m →
        scanItems F .malformed uniqueObject m (dumpsItems items ++ 93 :: rest) = .ok (values, rest) := by
  induction items with
  | nil => exact absurd rfl some
  | cons j items ih =>
    obtain ⟨v, normal, scanned⟩ := read j List.mem_cons_self
    obtain ⟨c, t, begins, first⟩ := (wired j List.mem_cons_self).opens
    cases items with
    | nil =>
      refine ⟨[v], ?_, ⟨c, t, begins, first⟩, fun rest m enough => ?_⟩
      · simp only [jsonItems, normal, ok_bind]
        rfl
      · cases m with
        | zero => omega
        | succ m =>
          rw [dumpsItems] at enough ⊢
          exact scanItems_last (scanned (93 :: rest) (Clear.cons rfl rest) m (by omega))
    | cons i items =>
      obtain ⟨values, normals, ⟨d, u, begins', first'⟩, scans⟩ :=
        ih (fun j hj => wired j (List.mem_cons_of_mem _ hj))
          (fun j hj => read j (List.mem_cons_of_mem _ hj)) (List.cons_ne_nil _ _)
      refine ⟨v :: values, ?_, ⟨c, _, by rw [dumpsItems, begins]; rfl, first⟩, fun rest m enough => ?_⟩
      · rw [jsonItems, normal, ok_bind, normals]
        rfl
      · cases m with
        | zero => omega
        | succ m =>
          rw [dumpsItems, List.append_assoc, List.cons_append] at enough ⊢
          have blanks : skipBlanks (dumpsItems (i :: items) ++ 93 :: rest) =
              dumpsItems (i :: items) ++ 93 :: rest :=
            skipBlanks_opens (by rw [begins']; rfl) first'
          have shorter : (dumpsItems (i :: items) ++ 93 :: rest).length + 1 ≤
              (dumps j ++ 44 :: (dumpsItems (i :: items) ++ 93 :: rest)).length := by
            simp only [List.length_append, List.length_cons]
            omega
          refine scanItems_more (scanned _ (Clear.cons rfl _) m (by omega)) ?_
          rw [blanks]
          exact scans rest m (by omega)

theorem scanString_key (key : String) (rest : PyStr) :
    quote (points key) ++ rest = 34 :: ((points key).flatMap escape ++ 34 :: rest) := by
  rw [quote, List.cons_append, List.append_assoc]
  rfl

theorem readMembers {entries : List (String × Json)} (wired : ∀ e ∈ entries, WireValue F e.2)
    (read : ∀ e ∈ entries, ∃ v, ReadAs F e.2 v) (some : entries ≠ []) :
    ∃ pairs : List (PyStr × PyValue φ), pairs.map Prod.fst = entries.map (fun e => points e.1) ∧
      (∀ d : Dict String Json, (d.keys ++ entries.map Prod.fst).Nodup →
        jsonMembers F d (pairs.map (fun p => (.str p.1, p.2))) = .ok ⟨d.entries ++ entries⟩) ∧
      (∃ t, dumpsMembers entries = 34 :: t) ∧
      ∀ rest m, 4 * (dumpsMembers entries ++ 125 :: rest).length + 1 ≤ m →
        scanMembers F .malformed uniqueObject m (dumpsMembers entries ++ 125 :: rest) =
          .ok (pairs, rest) := by
  induction entries with
  | nil => exact absurd rfl some
  | cons e entries ih =>
    obtain ⟨key, j⟩ := e
    obtain ⟨v, normal, scanned⟩ := read (key, j) List.mem_cons_self
    dsimp only at normal scanned
    obtain ⟨c, t, begins, first⟩ := (wired (key, j) List.mem_cons_self).opens
    have value : ∀ rest, skipBlanks (dumps j ++ rest) = dumps j ++ rest := fun rest =>
      skipBlanks_opens (by rw [begins]; rfl) first
    have fresh : ∀ {d : Dict String Json} {keys : List String}, (d.keys ++ key :: keys).Nodup →
        key ∉ d.keys := by
      intro d keys nodup mem
      exact (List.nodup_append.mp nodup).2.2 key mem key List.mem_cons_self rfl
    cases entries with
    | nil =>
      refine ⟨[(points key, v)], rfl, fun d nodup => ?_, ⟨_, rfl⟩, fun rest m enough => ?_⟩
      · simp only [List.map_cons, List.map_nil, jsonMembers, normal, ok_bind, unicodeScalar_points]
        rw [← Dict.entries_insert_new (fresh nodup) j]
      · cases m with
        | zero => omega
        | succ m =>
          rw [dumpsMembers, List.append_assoc, List.cons_append] at enough ⊢
          rw [scanString_key] at enough ⊢
          have shorter : (dumps j ++ 125 :: rest).length + 1 ≤
              (34 :: ((points key).flatMap escape ++ 34 :: 58 :: (dumps j ++ 125 :: rest))).length := by
            simp only [List.length_append, List.length_cons]
            omega
          refine scanMembers_last (scanString_quoted _ _) ?_
          rw [value]
          exact scanned (125 :: rest) (Clear.cons rfl rest) m (by omega)
    | cons e entries =>
      obtain ⟨pairs, names, normals, ⟨u, begins'⟩, scans⟩ :=
        ih (fun e he => wired e (List.mem_cons_of_mem _ he))
          (fun e he => read e (List.mem_cons_of_mem _ he)) (List.cons_ne_nil _ _)
      refine ⟨(points key, v) :: pairs, by rw [List.map_cons, names]; rfl, fun d nodup => ?_, ⟨_, rfl⟩,
        fun rest m enough => ?_⟩
      · have grown := Dict.entries_insert_new (fresh nodup) j
        have keys := Dict.keys_insert_new (fresh nodup) j
        rw [List.map_cons, jsonMembers, normal, ok_bind, unicodeScalar_points, ok_bind, normals, grown,
          List.append_assoc]
        · rfl
        · rw [keys, List.append_assoc]
          exact nodup
      · cases m with
        | zero => omega
        | succ m =>
          rw [dumpsMembers, List.append_assoc, List.cons_append, List.append_assoc, List.cons_append]
            at enough ⊢
          rw [scanString_key] at enough ⊢
          have shorter : (dumps j ++ 44 :: (dumpsMembers (e :: entries) ++ 125 :: rest)).length + 1 ≤
              (34 :: ((points key).flatMap escape ++
                34 :: 58 :: (dumps j ++ 44 :: (dumpsMembers (e :: entries) ++ 125 :: rest)))).length := by
            simp only [List.length_append, List.length_cons]
            omega
          have blanks : skipBlanks (dumpsMembers (e :: entries) ++ 125 :: rest) =
              dumpsMembers (e :: entries) ++ 125 :: rest := by
            rw [begins']
            exact skipBlanks_clear (Clear.cons rfl _)
          have later : (dumpsMembers (e :: entries) ++ 125 :: rest).length + 1 ≤
              (dumps j ++ 44 :: (dumpsMembers (e :: entries) ++ 125 :: rest)).length := by
            simp only [List.length_append, List.length_cons]
            omega
          have first := scanned (44 :: (dumpsMembers (e :: entries) ++ 125 :: rest))
            (Clear.cons rfl _) m (by omega)
          rw [← value] at first
          refine scanMembers_more (scanString_quoted _ _) first ?_
          rw [blanks]
          exact scans rest m (by omega)

/-- The round of `unique_object`. -/
theorem unique_rounds {pairs : List (PyStr × PyValue φ)} {d d' : Dict PyStr (PyValue φ)}
    (h : pairs.foldlM uniqueRound d = .ok d') (keys : d.keys.Nodup) :
    (d.keys ++ pairs.map Prod.fst).Nodup ∧ d'.entries = d.entries ++ pairs := by
  induction pairs generalizing d with
  | nil =>
    cases h
    simpa using keys
  | cons p pairs ih =>
    simp only [List.foldlM_cons, uniqueRound, bind_eq_ok, require_eq_ok] at h
    obtain ⟨next, ⟨_, new, same⟩, rest⟩ := h
    cases same
    have fresh : p.1 ∉ d.keys := by
      rw [Dict.notMem_keys_iff]
      simpa [Dict.contains] using new
    obtain ⟨nodup, entries⟩ := ih rest (Dict.nodup_insert keys _ _)
    rw [Dict.keys_insert_new fresh, List.append_assoc] at nodup
    rw [Dict.entries_insert_new fresh, List.append_assoc] at entries
    exact ⟨nodup, entries⟩

theorem uniqueObject_ok {pairs : List (PyStr × PyValue φ)} {v : PyValue φ}
    (h : uniqueObject pairs = .ok v) :
    (pairs.map Prod.fst).Nodup ∧ v = .dict (pairs.map (fun p => (.str p.1, p.2))) := by
  simp only [uniqueObject, bind_eq_ok] at h
  obtain ⟨result, rounds, same⟩ := h
  cases same
  obtain ⟨nodup, entries⟩ := unique_rounds rounds List.nodup_nil
  exact ⟨nodup, by rw [entries]; rfl⟩

theorem uniqueObject_of {pairs : List (PyStr × PyValue φ)} (nodup : (pairs.map Prod.fst).Nodup) :
    uniqueObject pairs = .ok (.dict (pairs.map (fun p => (.str p.1, p.2)))) := by
  suffices rounds : ∀ d : Dict PyStr (PyValue φ), (d.keys ++ pairs.map Prod.fst).Nodup →
      pairs.foldlM uniqueRound d = .ok ⟨d.entries ++ pairs⟩ by
    rw [uniqueObject, rounds Dict.empty nodup]
    rfl
  clear nodup
  induction pairs with
  | nil =>
    intro d _
    rw [List.append_nil]
    rfl
  | cons p pairs ih =>
    intro d nodup
    have fresh : p.1 ∉ d.keys := fun mem =>
      (List.nodup_append.mp nodup).2.2 p.1 mem p.1 List.mem_cons_self rfl
    have new : d.contains p.1 = false := by
      rw [Dict.contains, Dict.notMem_keys_iff.mp fresh]
      rfl
    have round : uniqueRound d p = .ok (d.insert p.1 p.2) := by
      rw [uniqueRound, require_of new]
      rfl
    rw [List.foldlM_cons, round, ok_bind, ih, Dict.entries_insert_new fresh, List.append_assoc]
    · rfl
    · rw [Dict.keys_insert_new fresh, List.append_assoc]
      exact nodup

theorem readAs_word {j : Json} {v : PyValue φ} {c : ℕ} {word : PyStr} (normal : jsonValue F v = .ok j)
    (printed : dumps j = c :: word) (plain : c ≠ 34 ∧ c ≠ 123 ∧ c ≠ 91)
    (scanned : ∀ rest, scanConstant (c :: word ++ rest) = some (v, rest)) : ReadAs F j v := by
  refine ⟨normal, fun rest _ m enough => ?_⟩
  rw [printed] at enough ⊢
  cases m with
  | zero => simp at enough
  | succ m =>
    have constant := scanned rest
    rw [List.cons_append] at constant ⊢
    rw [scanOnce, if_neg plain.1, if_neg plain.2.1, if_neg plain.2.2, constant]

theorem readAs_number {j : Json} {v : PyValue φ} (normal : jsonValue F v = .ok j)
    (scanned : ∀ rest, Clear numberPart rest → scanNumber F (dumps j ++ rest) = some (v, rest)) :
    ReadAs F j v := by
  refine ⟨normal, fun rest clear m enough => ?_⟩
  have read := scanned rest clear
  have shorter := scanNumber_length F read
  cases m with
  | zero => omega
  | succ m => exact scanOnce_number read m

theorem readAs_arr {items : List Json} (wired : ∀ j ∈ items, WireValue F j)
    (read : ∀ j ∈ items, ∃ v, ReadAs F j v) : ∃ v, ReadAs F (.arr items) v := by
  by_cases empty : items = []
  · subst empty
    refine ⟨.list [], rfl, fun rest _ m enough => ?_⟩
    rw [dumps, List.cons_append] at enough ⊢
    rw [List.length_cons] at enough
    obtain ⟨m, rfl⟩ : ∃ k, m = k + 2 := ⟨m - 2, by omega⟩
    exact scanOnce_list rfl
  · obtain ⟨values, normals, ⟨c, t, begins, first⟩, scans⟩ := readItems F wired read empty
    refine ⟨.list values, by rw [jsonValue, normals]; rfl, fun rest _ m enough => ?_⟩
    rw [dumps, List.cons_append, List.append_assoc, List.singleton_append] at enough ⊢
    rw [List.length_cons] at enough
    obtain ⟨m, rfl⟩ : ∃ k, m = k + 2 := ⟨m - 2, by omega⟩
    have other : c ≠ 93 := by
      rintro rfl
      cases first
    have scanned := scans rest m (by omega)
    apply scanOnce_list
    rw [skipBlanks_opens (by rw [begins]; rfl) first]
    rw [begins, List.cons_append] at scanned ⊢
    rw [scanArray_items other, scanned]

theorem readAs_obj {entries : List (String × Json)} (keys : (entries.map Prod.fst).Nodup)
    (wired : ∀ e ∈ entries, WireValue F e.2) (read : ∀ e ∈ entries, ∃ v, ReadAs F e.2 v) :
    ∃ v, ReadAs F (.obj entries) v := by
  by_cases empty : entries = []
  · subst empty
    refine ⟨.dict [], rfl, fun rest _ m enough => ?_⟩
    rw [dumps, List.cons_append] at enough ⊢
    rw [List.length_cons] at enough
    obtain ⟨m, rfl⟩ : ∃ k, m = k + 2 := ⟨m - 2, by omega⟩
    exact scanOnce_object rfl rfl
  · obtain ⟨pairs, names, normals, ⟨t, begins⟩, scans⟩ := readMembers F wired read empty
    have normal := normals Dict.empty keys
    have nodup : (pairs.map Prod.fst).Nodup := by
      have both : entries.map (fun e => points e.1) = (entries.map Prod.fst).map points := by
        rw [List.map_map]
        rfl
      rw [names, both]
      exact keys.map points_injective
    refine ⟨.dict (pairs.map (fun p => (.str p.1, p.2))), by rw [jsonValue, normal]; rfl,
      fun rest _ m enough => ?_⟩
    rw [dumps, List.cons_append, List.append_assoc, List.singleton_append] at enough ⊢
    rw [List.length_cons] at enough
    obtain ⟨m, rfl⟩ : ∃ k, m = k + 2 := ⟨m - 2, by omega⟩
    have scanned := scans rest m (by omega)
    rw [begins, List.cons_append] at scanned ⊢
    refine scanOnce_object ?_ (uniqueObject_of nodup)
    rw [skipBlanks_clear (Clear.cons rfl _)]
    exact scanned

theorem WireValue.readAs {j : Json} (wire : WireValue F j) : ∃ v, ReadAs F j v := by
  induction wire with
  | null => exact ⟨.none, readAs_word F rfl rfl (by decide) fun rest => rfl⟩
  | bool b =>
    cases b with
    | false => exact ⟨.bool false, readAs_word F rfl rfl (by decide) fun rest => rfl⟩
    | true => exact ⟨.bool true, readAs_word F rfl rfl (by decide) fun rest => rfl⟩
  | int n => exact ⟨.int n, readAs_number F rfl fun rest clear => scanNumber_integer F n clear⟩
  | float f => exact ⟨.float (some f), readAs_number F rfl fun rest clear => scanNumber_float F f clear⟩
  | str s =>
    refine ⟨.str (points s), by rw [jsonValue, unicodeScalar_points]; rfl, fun rest _ m enough => ?_⟩
    rw [dumps, scanString_key] at enough ⊢
    cases m with
    | zero => simp at enough
    | succ m =>
      rw [scanOnce, if_pos rfl, scanString_quoted]
      rfl
  | arr wired ih => exact readAs_arr F wired ih
  | obj keys wired ih => exact readAs_obj F keys wired ih

theorem parseJsonValue_dumps {j : Json} (wire : WireValue F j) : parseJsonValue F (dumps j) = .ok j := by
  obtain ⟨v, normal, scanned⟩ := wire.readAs
  obtain ⟨c, t, begins, first⟩ := wire.opens
  have read := scanned [] (fun c hc => by cases hc) _ le_rfl
  rw [List.append_nil] at read
  have start : (dumps j).head? ≠ some 0xfeff := by
    intro mark
    rw [begins] at mark
    cases mark
    cases first
  rw [parseJsonValue, loads_of_scan start (by rw [skipBlanks_opens begins first]; exact read) rfl, ok_bind,
    normal]

theorem dumps_injective {a b : Json} (ha : WireValue F a) (hb : WireValue F b) (same : dumps a = dumps b) :
    a = b := by
  have read := parseJsonValue_dumps F ha
  rw [same, parseJsonValue_dumps F hb] at read
  exact (Except.ok.inj read).symm

/-! ## Equal up to key order -/

mutual

/-- Python's `==` of two wire values with `True`, `1` and `1.0` kept apart: the items of
lists in their order, the entries of objects by their keys. -/
def sameValue : Json → Json → Bool
  | .null, .null => true
  | .bool a, .bool b => a == b
  | .int a, .int b => a == b
  | .float a, .float b => a == b
  | .str a, .str b => a == b
  | .arr a, .arr b => sameItems a b
  | .obj a, .obj b => a.length == b.length && sameMembers a b
  | _, _ => false

def sameItems : List Json → List Json → Bool
  | [], [] => true
  | a :: as, b :: bs => sameValue a b && sameItems as bs
  | _, _ => false

/-- Every entry stands under its key among the others. -/
def sameMembers : List (String × Json) → List (String × Json) → Bool
  | [], _ => true
  | (key, a) :: entries, others =>
    match Dict.find others key with
    | some b => sameValue a b && sameMembers entries others
    | none => false

end

theorem sortKeys_eq_iff {ν : Type} {a b : List (String × ν)} (ha : (a.map Prod.fst).Nodup) :
    Json.sortKeys a = Json.sortKeys b ↔ a.length = b.length ∧ ∀ p ∈ a, p ∈ b := by
  constructor
  · intro same
    have perm : a.Perm b := (Json.sortKeys_perm a).symm.trans (same ▸ Json.sortKeys_perm b)
    exact ⟨perm.length_eq, fun p hp => perm.mem_iff.mp hp⟩
  · rintro ⟨size, held⟩
    have perm : a.Perm b :=
      ((List.Nodup.of_map Prod.fst ha).subperm held).perm_of_length_le size.ge
    have sorted : (Json.sortKeys a).Perm (Json.sortKeys b) :=
      (Json.sortKeys_perm a).trans (perm.trans (Json.sortKeys_perm b).symm)
    have total : Std.Total (fun a b : String × ν => a.1 ≤ b.1) := ⟨fun a b => String.le_total a.1 b.1⟩
    have trans : IsTrans (String × ν) (fun a b => a.1 ≤ b.1) := ⟨fun _ _ _ => String.le_trans⟩
    refine sorted.eq_of_pairwise ?_ (List.pairwise_insertionSort _ a) (List.pairwise_insertionSort _ b)
    intro p q hp hq le ge
    have memA := (Json.sortKeys_perm a).mem_iff.mp hp
    have memB := perm.mem_iff.mpr ((Json.sortKeys_perm b).mem_iff.mp hq)
    exact List.inj_on_of_nodup_map ha memA memB (String.le_antisymm le ge)

theorem sameItems_iff {as bs : List Json} (ih : ∀ a ∈ as, ∀ b, WireValue F b →
      (a.canonical = b.canonical ↔ sameValue a b = true)) (wired : ∀ b ∈ bs, WireValue F b) :
    as.map Json.canonical = bs.map Json.canonical ↔ sameItems as bs = true := by
  induction as generalizing bs with
  | nil => cases bs <;> simp [sameItems]
  | cons a as tail =>
    cases bs with
    | nil => simp [sameItems]
    | cons b bs =>
      have head := ih a List.mem_cons_self b (wired b List.mem_cons_self)
      have rest := tail (fun a ha => ih a (List.mem_cons_of_mem _ ha))
        (fun b hb => wired b (List.mem_cons_of_mem _ hb))
      simp only [List.map_cons, List.cons.injEq, sameItems, Bool.and_eq_true, head, rest]

theorem sameMembers_iff {as bs : List (String × Json)} (ih : ∀ a ∈ as, ∀ b, WireValue F b →
      (a.2.canonical = b.canonical ↔ sameValue a.2 b = true)) (keys : (bs.map Prod.fst).Nodup)
    (wired : ∀ b ∈ bs, WireValue F b.2) :
    (∀ p ∈ as.map (fun p => (p.1, p.2.canonical)), p ∈ bs.map (fun p => (p.1, p.2.canonical))) ↔
      sameMembers as bs = true := by
  induction as with
  | nil => simp [sameMembers]
  | cons a as tail =>
    obtain ⟨key, a⟩ := a
    have rest := tail (fun a ha => ih a (List.mem_cons_of_mem _ ha))
    rw [List.map_cons, List.forall_mem_cons, rest, sameMembers]
    cases found : Dict.find bs key with
    | none =>
      refine ⟨fun h => ?_, fun h => by cases h⟩
      obtain ⟨⟨k, b⟩, hb, same⟩ := List.mem_map.mp h.1
      simp only [Prod.mk.injEq] at same
      obtain ⟨rfl, -⟩ := same
      rw [Dict.find_of_mem keys hb] at found
      cases found
    | some b =>
      have mem := Dict.mem_of_find found
      have head := ih (key, a) List.mem_cons_self b (wired _ mem)
      simp only [Bool.and_eq_true, ← head]
      refine and_congr_left fun _ => ⟨fun h => ?_, fun h => List.mem_map.mpr ⟨_, mem, ?_⟩⟩
      · obtain ⟨⟨k, c⟩, hc, same⟩ := List.mem_map.mp h
        simp only [Prod.mk.injEq] at same
        obtain ⟨rfl, same⟩ := same
        rw [Dict.find_of_mem keys hc] at found
        cases found
        exact same.symm
      · rw [← h]

theorem WireValue.canonical_iff {a b : Json} (ha : WireValue F a) (hb : WireValue F b) :
    a.canonical = b.canonical ↔ sameValue a b = true := by
  induction ha generalizing b with
  | @arr items wired ih =>
    cases hb with
    | @arr others wired' =>
      rw [Json.canonical_arr, Json.canonical_arr, Json.arr.injEq, sameValue]
      exact sameItems_iff F (fun a ha b hb => ih a ha hb) wired'
    | _ => simp [Json.canonical, sameValue]
  | @obj entries keys wired ih =>
    cases hb with
    | @obj others keys' wired' =>
      have names : ∀ {l : List (String × Json)}, (l.map Prod.fst).Nodup →
          ((l.map (fun p => (p.1, p.2.canonical))).map Prod.fst).Nodup := by
        intro l nodup
        rw [List.map_map]
        exact nodup
      rw [Json.canonical_obj, Json.canonical_obj, Json.obj.injEq, sortKeys_eq_iff (names keys),
        sameMembers_iff F (fun a ha b hb => ih a ha hb) keys' wired', sameValue, Bool.and_eq_true,
        List.length_map, List.length_map, beq_iff_eq]
    | _ => simp [Json.canonical, sameValue]
  | _ => cases hb <;> simp [Json.canonical, sameValue]

/-! ## What a durable text cannot say -/

def RepeatsKey (tree : PyValue φ) : Prop :=
  ∃ entries, Part (.dict entries) tree ∧ ¬(entries.map Prod.fst).Nodup

def NotFinite (tree : PyValue φ) : Prop := Part (.float none) tree

/-- A text of the value has half of a surrogate pair. -/
def LoneSurrogate (tree : PyValue φ) : Prop :=
  ∃ s, Part (.str s) tree ∧ ∃ c ∈ s, HighSurrogate c ∨ LowSurrogate c

def keepPairs (pairs : List (PyStr × PyValue φ)) : Except WireFault (PyValue φ) :=
  .ok (.dict (pairs.map (fun p => (.str p.1, p.2))))

theorem jsonItems_item {items : List (PyValue φ)} {js : List Json} (h : jsonItems F items = .ok js)
    {v : PyValue φ} (mem : v ∈ items) : ∃ j, jsonValue F v = .ok j := by
  induction items generalizing js with
  | nil => cases mem
  | cons item items ih =>
    simp only [jsonItems, bind_eq_ok] at h
    obtain ⟨j, first, js', rest, -⟩ := h
    rcases List.mem_cons.mp mem with rfl | mem
    · exact ⟨j, first⟩
    · exact ih rest mem

theorem jsonMembers_member {entries : List (PyValue φ × PyValue φ)} {d d' : Dict String Json}
    (h : jsonMembers F d entries = .ok d') {e : PyValue φ × PyValue φ} (mem : e ∈ entries) :
    (∃ j, jsonValue F e.1 = .ok j) ∧ ∃ j, jsonValue F e.2 = .ok j := by
  induction entries generalizing d with
  | nil => cases mem
  | cons first entries ih =>
    obtain ⟨key, item⟩ := first
    cases key with
    | str key =>
      simp only [jsonMembers, bind_eq_ok] at h
      obtain ⟨value, read, name, scalar, rest⟩ := h
      rcases List.mem_cons.mp mem with rfl | mem
      · exact ⟨⟨.str name, by rw [jsonValue, scalar]; rfl⟩, value, read⟩
      · exact ih rest mem
    | _ => simp [jsonMembers] at h

theorem jsonValue_part {part v : PyValue φ} (occurs : Part part v) {j : Json}
    (h : jsonValue F v = .ok j) : ∃ j', jsonValue F part = .ok j' := by
  induction occurs generalizing j with
  | whole => exact ⟨j, h⟩
  | item mem occurs ih =>
    simp only [jsonValue, bind_eq_ok] at h
    obtain ⟨js, read, -⟩ := h
    obtain ⟨j', read'⟩ := jsonItems_item F read mem
    exact ih read'
  | member mem occurs ih =>
    simp only [jsonValue, bind_eq_ok] at h
    obtain ⟨js, read, -⟩ := h
    obtain ⟨j', read'⟩ := jsonItems_item F read mem
    exact ih read'
  | key mem occurs ih =>
    simp only [jsonValue, bind_eq_ok] at h
    obtain ⟨d, read, -⟩ := h
    obtain ⟨⟨j', read'⟩, -⟩ := jsonMembers_member F read mem
    exact ih read'
  | value mem occurs ih =>
    simp only [jsonValue, bind_eq_ok] at h
    obtain ⟨d, read, -⟩ := h
    obtain ⟨-, j', read'⟩ := jsonMembers_member F read mem
    exact ih read'
  | boxed occurs ih =>
    rw [jsonValue] at h
    exact ih h

theorem notFinite_refused {v : PyValue φ} {j : Json} (h : jsonValue F v = .ok j) : ¬NotFinite v := by
  intro occurs
  obtain ⟨j', read⟩ := jsonValue_part F occurs h
  cases read

theorem loneSurrogate_refused {v : PyValue φ} {j : Json} (h : jsonValue F v = .ok j) :
    ¬LoneSurrogate v := by
  rintro ⟨s, occurs, c, hc, half⟩
  obtain ⟨j', read⟩ := jsonValue_part F occurs h
  simp only [jsonValue, unicodeScalar, bind_eq_ok] at read
  obtain ⟨text, scalar, -⟩ := read
  split_ifs at scalar with valid
  have scalarValue := valid c hc
  unfold HighSurrogate LowSurrogate at half
  unfold Nat.isValidChar at scalarValue
  omega

/-- What `unique_object` lets through repeats no key, and lists the same pairs. -/
theorem unique_keeps {text : PyStr} {v : PyValue φ}
    (h : loads F WireFault.malformed uniqueObject text = .ok v) :
    ¬RepeatsKey v ∧ loads F WireFault.malformed keepPairs text = .ok v := by
  suffices kept : (∀ entries, Part (.dict entries) v → (entries.map Prod.fst).Nodup) ∧
      loads F WireFault.malformed keepPairs text = .ok v by
    refine ⟨?_, kept.2⟩
    rintro ⟨entries, occurs, repeats⟩
    exact repeats (kept.1 entries occurs)
  refine loads_keeps (P := fun v => ∀ entries, Part (.dict entries) v → (entries.map Prod.fst).Nodup)
    ?_ ?_ ?_ h
  · intro v atomic entries occurs
    cases occurs <;> cases atomic
  · intro items held entries occurs
    cases occurs with
    | item mem occurs => exact held _ mem entries occurs
  · intro pairs v held hooked
    obtain ⟨nodup, rfl⟩ := uniqueObject_ok hooked
    refine ⟨fun entries occurs => ?_, rfl⟩
    cases occurs with
    | whole =>
      have names : (pairs.map (fun p => (PyValue.str p.1, p.2))).map Prod.fst =
          (pairs.map Prod.fst).map (PyValue.str (φ := φ)) := by
        rw [List.map_map, List.map_map]
        rfl
      rw [names]
      exact nodup.map fun a b same => PyValue.str.inj same
    | key mem occurs =>
      obtain ⟨p, hp, rfl⟩ := List.mem_map.mp mem
      cases occurs
    | value mem occurs =>
      obtain ⟨p, hp, rfl⟩ := List.mem_map.mp mem
      exact held p hp entries occurs

theorem parseJsonValue_refuses {text : PyStr} {tree : PyValue φ}
    (read : loads F WireFault.malformed keepPairs text = .ok tree)
    (fault : RepeatsKey tree ∨ NotFinite tree ∨ LoneSurrogate tree) :
    ∃ e, parseJsonValue F text = .error e := by
  cases h : parseJsonValue F text with
  | error e => exact ⟨e, rfl⟩
  | ok j =>
    simp only [parseJsonValue, bind_eq_ok] at h
    obtain ⟨v, unique, normal⟩ := h
    obtain ⟨once, kept⟩ := unique_keeps F unique
    rw [kept] at read
    cases read
    rcases fault with fault | fault | fault
    · exact absurd fault once
    · exact absurd fault (notFinite_refused F normal)
    · exact absurd fault (loneSurrogate_refused F normal)

def quarter : FloatText Unit where
  repr _ := "0.25"
  read s := if s = points "0.25" then some () else none
  read_repr _ := rfl
  literal _ := ⟨[48], [46, 50, 53], [], by decide, rfl, rfl, rfl, by decide⟩

example : parseJsonValue quarter (points "\x7b\"a\": [1, 0.25], \"a\": 2\x7d") =
    .error (.repeatsKey (points "a")) := by decide +kernel

example : parseJsonValue quarter (points "[\"\\ud83d\\ude00\", 0.25]") =
    .ok (.arr [.str "😀", .float "0.25"]) := by decide +kernel

/-! ## The codec and the identity law -/

theorem canonicalJson_reads {v : PyValue φ} {j : Json} (h : jsonValue F v = .ok j) :
    canonicalJson F v = .ok (canonicalText j) ∧
      parseJsonValue F (canonicalText j) = .ok j.canonical ∧ sameValue j j.canonical = true := by
  have wire := jsonValue_wire F v h
  refine ⟨by rw [canonicalJson, h]; rfl, parseJsonValue_dumps F wire.canonical, ?_⟩
  rw [← WireValue.canonical_iff F wire wire.canonical, Json.canonical_canonical]

theorem canonicalJson_iff {v v' : PyValue φ} {j j' : Json} (h : jsonValue F v = .ok j)
    (h' : jsonValue F v' = .ok j') :
    canonicalJson F v = canonicalJson F v' ↔ sameValue j j' = true := by
  obtain ⟨text, read, -⟩ := canonicalJson_reads F h
  obtain ⟨text', read', -⟩ := canonicalJson_reads F h'
  rw [← WireValue.canonical_iff F (jsonValue_wire F v h) (jsonValue_wire F v' h'), text, text',
    Except.ok.injEq]
  constructor
  · intro same
    rw [same, read'] at read
    exact (Except.ok.inj read).symm
  · intro same
    rw [canonicalText, canonicalText, same]

theorem split_at_nul {a b s t : PyStr} (ha : 0 ∉ a) (hb : 0 ∉ b) (same : a ++ 0 :: s = b ++ 0 :: t) :
    a = b ∧ s = t := by
  induction a generalizing b with
  | nil =>
    cases b with
    | nil => exact ⟨rfl, (List.cons.inj same).2⟩
    | cons c b =>
      rw [List.nil_append, List.cons_append, List.cons.injEq] at same
      exact absurd (same.1 ▸ List.mem_cons_self) hb
  | cons c a ih =>
    cases b with
    | nil =>
      rw [List.nil_append, List.cons_append, List.cons.injEq] at same
      exact absurd (same.1 ▸ List.mem_cons_self) ha
    | cons d b =>
      rw [List.cons_append, List.cons_append, List.cons.injEq] at same
      obtain ⟨rfl, same⟩ := same
      obtain ⟨rfl, rest⟩ := ih (fun mem => ha (List.mem_cons_of_mem _ mem))
        (fun mem => hb (List.mem_cons_of_mem _ mem)) same
      exact ⟨rfl, rest⟩

theorem nul_integer (n : ℤ) : 0 ∉ integer n := by
  intro mem
  have digits : ∀ n, 0 ∉ decimal n := by
    intro n mem
    have digit := decimal_digits n 0 mem
    cases digit
  cases n with
  | ofNat n => exact digits n mem
  | negSucc n =>
    rcases List.mem_cons.mp mem with minus | mem
    · cases minus
    · exact digits (n + 1) mem

theorem digestMaterial_injective {domain domain' : PyStr} {version version' : ℤ}
    {payload payload' : PyValue φ} {m : PyStr} (nul : 0 ∉ domain) (nul' : 0 ∉ domain')
    (h : digestMaterial F domain version payload = .ok m)
    (h' : digestMaterial F domain' version' payload' = .ok m) :
    domain = domain' ∧ version = version' ∧ canonicalJson F payload = canonicalJson F payload' := by
  simp only [digestMaterial, bind_eq_ok] at h h'
  obtain ⟨text, read, h⟩ := h
  obtain ⟨text', read', h'⟩ := h'
  cases h
  have same := (Except.ok.inj h').symm
  rw [List.append_cancel_left_eq, List.cons.injEq] at same
  obtain ⟨rfl, rest⟩ := split_at_nul nul nul' same.2
  obtain ⟨number, rfl⟩ := split_at_nul (nul_integer _) (nul_integer _) rest
  have version_eq := congrArg ofInteger number
  rw [ofInteger_integer, ofInteger_integer] at version_eq
  exact ⟨rfl, version_eq, by rw [read, read']⟩

end Constructicon
