import Constructicon.Identity
import Constructicon.Library.JsonNesting

/-!
# Reading canonical JSON with `json.loads`

Without a hook `json.loads` keeps of two equal keys the later one. A value printed by `canonical_json`
has no equal keys and is read as it was, and reading it goes exactly as deep as the value nests.
-/

namespace Constructicon

open PyJson Transaction

variable {φ : Type}

/-- The dictionary `json.loads` makes of the pairs of an object. -/
def dictOfPairs (pairs : List (PyStr × PyValue φ)) : Except WireFault (PyValue φ) :=
  .ok (.dict ((Dict.ofList pairs).entries.map (fun p => (.str p.1, p.2))))

/-- The entries of a JSON object under their names. -/
def textEntries (entries : List (PyValue φ × PyValue φ)) : Dict PyStr (PyValue φ) :=
  ⟨entries.filterMap (fun e =>
    match e.1 with
    | .str key => some (key, e.2)
    | _ => none)⟩

def asText : PyValue φ → Option PyStr
  | .str s => some s
  | _ => none

mutual

/-- What `json.loads` makes of a value without floats. -/
def ofJson : Json → PyValue φ
  | .null => .none
  | .bool b => .bool b
  | .int n => .int n
  | .float _ => .other
  | .str s => .str (points s)
  | .arr items => .list (ofJsonItems items)
  | .obj entries => .dict (ofJsonMembers entries)

def ofJsonItems : List Json → List (PyValue φ)
  | [] => []
  | j :: js => ofJson j :: ofJsonItems js

def ofJsonMembers : List (String × Json) → List (PyValue φ × PyValue φ)
  | [] => []
  | (k, j) :: es => (.str (points k), ofJson j) :: ofJsonMembers es

end

theorem ofJsonMembers_eq (entries : List (String × Json)) :
    ofJsonMembers (φ := φ) entries = entries.map (fun e => (.str (points e.1), ofJson e.2)) := by
  induction entries with
  | nil => rfl
  | cons e entries ih => rw [ofJsonMembers, ih, List.map_cons]

theorem ofJsonItems_eq (items : List Json) : ofJsonItems (φ := φ) items = items.map ofJson := by
  induction items with
  | nil => rfl
  | cons j items ih => rw [ofJsonItems, ih, List.map_cons]

/-- At most `n` lists and objects stand inside one another. -/
inductive Nests : ℕ → Json → Prop
  | null {n : ℕ} : Nests n .null
  | bool {n : ℕ} (b : Bool) : Nests n (.bool b)
  | int {n : ℕ} (i : ℤ) : Nests n (.int i)
  | float {n : ℕ} (token : String) : Nests n (.float token)
  | str {n : ℕ} (s : String) : Nests n (.str s)
  | arr {n : ℕ} {items : List Json} (each : ∀ j ∈ items, Nests n j) : Nests (n + 1) (.arr items)
  | obj {n : ℕ} {entries : List (String × Json)} (each : ∀ e ∈ entries, Nests n e.2) : Nests (n + 1) (.obj entries)

/-- A value that a text can say: texts, lists and dictionaries of them with distinct texts as keys. -/
inductive Plain : PyValue φ → Prop
  | atomic {v : PyValue φ} (h : v.Atomic) : Plain v
  | list {items : List (PyValue φ)} (each : ∀ v ∈ items, Plain v) : Plain (.list items)
  | dict {pairs : List (PyStr × PyValue φ)} (distinct : (pairs.map Prod.fst).Nodup) (each : ∀ p ∈ pairs, Plain p.2) :
      Plain (.dict (pairs.map (fun p => (.str p.1, p.2))))

variable (F : FloatText φ)

theorem dictOfPairs_distinct {pairs : List (PyStr × PyValue φ)} (distinct : (pairs.map Prod.fst).Nodup) :
    dictOfPairs pairs = .ok (.dict (pairs.map (fun p => (.str p.1, p.2)))) := by
  rw [dictOfPairs, Dict.ofList_entries distinct]

theorem plain_read {j : Json} (wire : WireValue F j) : ∃ v, Plain v ∧ jsonValue F v = .ok j ∧
    ∀ rest, Clear numberPart rest → ∀ m, 4 * (dumps j ++ rest).length ≤ m →
      scanOnce F .malformed dictOfPairs m (dumps j ++ rest) = .ok (v, rest) := by
  obtain ⟨v, normal, scanned⟩ := wire.readAs
  have kept : ∀ n, KeepsOnce F .malformed uniqueObject dictOfPairs Plain n := by
    intro n
    refine scan_keeps (fun v atomic => .atomic atomic) (fun items each => .list each) ?_ n
    intro pairs v each hooked
    obtain ⟨distinct, rfl⟩ := uniqueObject_ok hooked
    exact ⟨.dict distinct each, dictOfPairs_distinct distinct⟩
  obtain ⟨plain, -, -⟩ := kept _ _ _ _ (scanned [] (fun c hc => by cases hc) _ le_rfl)
  refine ⟨v, plain, normal, fun rest clear m enough => ?_⟩
  obtain ⟨-, -, more⟩ := kept _ _ _ _ (scanned rest clear _ le_rfl)
  exact more m (by omega)

theorem toNat_ofNat {c : ℕ} (valid : c.isValidChar) : (Char.ofNat c).toNat = c := by
  unfold Char.ofNat
  rw [dif_pos valid]
  rfl

theorem points_of_scalar {s : PyStr} {t : String} (h : unicodeScalar s = .ok t) : points t = s := by
  unfold unicodeScalar at h
  split_ifs at h with valid
  cases h
  rw [points, String.toList_ofList, List.map_map]
  refine (List.map_congr_left fun c hc => ?_).trans (List.map_id s)
  exact toNat_ofNat (valid c hc)

theorem WireValue.not_float {j : Json} (wire : WireValue noFloats j) (token : String) : j ≠ .float token := by
  rintro rfl
  generalize same : Json.float token = j at wire
  cases wire with
  | float f => exact f.elim
  | _ => cases same

theorem ofJsonItems_read {items : List (PyValue φ)} {js : List Json}
    (each : ∀ v ∈ items, ∀ {j}, jsonValue F v = .ok j → WireValue noFloats j → v = ofJson j)
    (wired : ∀ j ∈ js, WireValue noFloats j) (h : jsonItems F items = .ok js) : items = ofJsonItems js := by
  induction items generalizing js with
  | nil =>
    cases h
    rfl
  | cons v items ih =>
    simp only [jsonItems, bind_eq_ok] at h
    obtain ⟨j, first, js', rest, same⟩ := h
    cases same
    obtain ⟨here, later⟩ := List.forall_mem_cons.mp wired
    rw [ofJsonItems, each v List.mem_cons_self first here,
      ih (fun v hv => each v (List.mem_cons_of_mem _ hv)) later rest]

theorem ofJsonMembers_read {pairs : List (PyStr × PyValue φ)} {d d' : Dict String Json}
    (each : ∀ p ∈ pairs, ∀ {j}, jsonValue F p.2 = .ok j → WireValue noFloats j → p.2 = ofJson j)
    (distinct : (pairs.map Prod.fst).Nodup) (fresh : ∀ p ∈ pairs, ∀ k ∈ d.keys, points k ≠ p.1)
    (wired : ∀ e ∈ d'.entries, WireValue noFloats e.2)
    (h : jsonMembers F d (pairs.map (fun p => (.str p.1, p.2))) = .ok d') :
    ∃ added, d'.entries = d.entries ++ added ∧ pairs.map (fun p => (PyValue.str p.1, p.2)) = ofJsonMembers added := by
  induction pairs generalizing d with
  | nil =>
    cases h
    exact ⟨[], by rw [List.append_nil], rfl⟩
  | cons p pairs ih =>
    obtain ⟨key, v⟩ := p
    simp only [List.map_cons, jsonMembers, bind_eq_ok] at h
    obtain ⟨j, value, name, scalar, rest⟩ := h
    have spelled := points_of_scalar scalar
    rw [List.map_cons, List.nodup_cons] at distinct
    have new : name ∉ d.keys := fun mem => fresh _ List.mem_cons_self name mem spelled
    obtain ⟨added, grown, same⟩ := ih (fun p hp => each p (List.mem_cons_of_mem _ hp)) distinct.2
      (by
        intro p hp k hk
        rw [Dict.keys_insert_new new] at hk
        rcases List.mem_append.mp hk with hk | hk
        · exact fresh p (List.mem_cons_of_mem _ hp) k hk
        · rintro same
          rw [List.mem_singleton.mp hk, spelled] at same
          exact distinct.1 (List.mem_map.mpr ⟨p, hp, same.symm⟩)) rest
    rw [Dict.entries_insert_new new, List.append_assoc] at grown
    refine ⟨(name, j) :: added, grown, ?_⟩
    have wire : WireValue noFloats j := wired (name, j) (by rw [grown]; simp)
    rw [List.map_cons, ofJsonMembers, same, spelled, each _ List.mem_cons_self value wire]

theorem Plain.eq_ofJson {v : PyValue φ} (plain : Plain v) {j : Json} (h : jsonValue F v = .ok j)
    (wire : WireValue noFloats j) : v = ofJson j := by
  induction plain generalizing j with
  | @atomic v atomic =>
    cases v with
    | none =>
      cases h
      rfl
    | bool b =>
      cases h
      rfl
    | int n =>
      cases h
      rfl
    | float f =>
      cases f with
      | none => cases h
      | some f =>
        cases h
        exact absurd rfl (wire.not_float _)
    | str s =>
      simp only [jsonValue, bind_eq_ok] at h
      obtain ⟨text, scalar, same⟩ := h
      cases same
      rw [ofJson, points_of_scalar scalar]
    | list _ => cases atomic
    | tuple _ => cases atomic
    | dict _ => cases atomic
    | boxed _ => cases atomic
    | other => cases atomic
  | list each ih =>
    simp only [jsonValue, bind_eq_ok] at h
    obtain ⟨js, items, same⟩ := h
    cases same
    cases wire with
    | arr wired => rw [ofJson, ofJsonItems_read F (fun v hv _ normal wire => ih v hv normal wire) wired items]
  | dict distinct each ih =>
    simp only [jsonValue, bind_eq_ok] at h
    obtain ⟨d, members, same⟩ := h
    cases same
    cases wire with
    | obj keys wired =>
      obtain ⟨added, grown, same⟩ := ofJsonMembers_read F (fun p hp _ normal wire => ih p hp normal wire) distinct
        (fun p hp k hk => absurd hk List.not_mem_nil) wired members
      rw [ofJson, same, grown]
      rfl

theorem scan_rest {j : Json} (wire : WireValue F j) {rest : PyStr} (clear : Clear numberPart rest) {m : ℕ}
    {v : PyValue φ} {r : PyStr} (h : scanOnce F .malformed dictOfPairs m (dumps j ++ rest) = .ok (v, r)) :
    r = rest := by
  obtain ⟨w, -, -, scanned⟩ := plain_read F wire
  have kept : KeepsOnce F .malformed dictOfPairs dictOfPairs (fun _ => True) m :=
    scan_keeps (fun _ _ => trivial) (fun _ _ => trivial) (fun _ _ _ hooked => ⟨trivial, hooked⟩) m
  obtain ⟨-, -, enough⟩ := kept _ _ _ h
  have more := enough (4 * (dumps j ++ rest).length) le_rfl
  rw [scanned rest clear _ le_rfl] at more
  cases more
  rfl

theorem nestOnce_shallow {c : ℕ} (plain : c ≠ 123 ∧ c ≠ 91) (s : PyStr) (m : ℕ) :
    nestOnce F .malformed dictOfPairs m (c :: s) = 0 := by
  cases m with
  | zero => rfl
  | succ m => rw [nestOnce, if_neg plain.1, if_neg plain.2]

theorem nestItems_none (rest : PyStr) (m : ℕ) : nestItems F .malformed dictOfPairs m (93 :: rest) = 0 := by
  cases m with
  | zero => rfl
  | succ m =>
    have refused : ∃ e, scanOnce F .malformed dictOfPairs m (93 :: rest) = .error e := by
      cases m with
      | zero => exact ⟨_, rfl⟩
      | succ m => exact ⟨_, rfl⟩
    obtain ⟨e, refused⟩ := refused
    rw [nestItems, nestOnce_shallow F (by decide), refused]
    rfl

theorem nestMembers_none (rest : PyStr) (m : ℕ) : nestMembers F .malformed dictOfPairs m (125 :: rest) = 0 := by
  cases m with
  | zero => rfl
  | succ m => simp [nestMembers]

theorem nest_items {items : List Json} (wired : ∀ j ∈ items, WireValue F j) {n : ℕ}
    (each : ∀ j ∈ items, ∀ rest, Clear numberPart rest → ∀ m,
      nestOnce F .malformed dictOfPairs m (dumps j ++ rest) ≤ n) (rest : PyStr) (m : ℕ) :
    nestItems F .malformed dictOfPairs m (dumpsItems items ++ 93 :: rest) ≤ n := by
  induction items generalizing m with
  | nil =>
    have none := nestItems_none F rest m
    rw [dumpsItems, List.nil_append, none]
    exact Nat.zero_le n
  | cons j items ih =>
    obtain ⟨wire, wires⟩ := List.forall_mem_cons.mp wired
    obtain ⟨here, later⟩ := List.forall_mem_cons.mp each
    cases m with
    | zero => exact Nat.zero_le n
    | succ m =>
      cases items with
      | nil =>
        rw [dumpsItems, nestItems]
        refine max_le (here _ (Clear.cons rfl rest) m) ?_
        split
        · next v s read =>
          cases scan_rest F wire (Clear.cons rfl rest) read
          exact Nat.zero_le n
        · exact Nat.zero_le n
      | cons i items =>
        obtain ⟨c, t, begins, first⟩ := (wires i List.mem_cons_self).opens
        have whole : dumpsItems (j :: i :: items) ++ 93 :: rest =
            dumps j ++ 44 :: (dumpsItems (i :: items) ++ 93 :: rest) := by
          rw [dumpsItems, List.append_assoc, List.cons_append]
        have blanks : skipBlanks (dumpsItems (i :: items) ++ 93 :: rest) = dumpsItems (i :: items) ++ 93 :: rest := by
          cases items with
          | nil => exact skipBlanks_opens (by rw [dumpsItems, begins]; rfl) first
          | cons k items => exact skipBlanks_opens (by rw [dumpsItems, begins]; rfl) first
        rw [whole, nestItems]
        refine max_le (here _ (Clear.cons rfl _) m) ?_
        split
        · next v s read =>
          cases scan_rest F wire (Clear.cons rfl _) read
          change nestItems F .malformed dictOfPairs m (skipBlanks _) ≤ n
          rw [blanks]
          exact ih wires later m
        · exact Nat.zero_le n

theorem nest_members {entries : List (String × Json)} (wired : ∀ e ∈ entries, WireValue F e.2) {n : ℕ}
    (each : ∀ e ∈ entries, ∀ rest, Clear numberPart rest → ∀ m,
      nestOnce F .malformed dictOfPairs m (dumps e.2 ++ rest) ≤ n) (rest : PyStr) (m : ℕ) :
    nestMembers F .malformed dictOfPairs m (dumpsMembers entries ++ 125 :: rest) ≤ n := by
  induction entries generalizing m with
  | nil =>
    have none := nestMembers_none F rest m
    rw [dumpsMembers, List.nil_append, none]
    exact Nat.zero_le n
  | cons e entries ih =>
    obtain ⟨key, j⟩ := e
    obtain ⟨wire, wires⟩ := List.forall_mem_cons.mp wired
    obtain ⟨here, later⟩ := List.forall_mem_cons.mp each
    obtain ⟨c, t, begins, first⟩ := wire.opens
    have value : ∀ rest, skipBlanks (dumps j ++ rest) = dumps j ++ rest := fun rest =>
      skipBlanks_opens (by rw [begins]; rfl) first
    cases m with
    | zero => exact Nat.zero_le n
    | succ m =>
      cases entries with
      | nil =>
        have whole : dumpsMembers [(key, j)] ++ 125 :: rest =
            34 :: ((points key).flatMap escape ++ 34 :: 58 :: (dumps j ++ 125 :: rest)) := by
          rw [dumpsMembers, List.append_assoc, List.cons_append, scanString_key]
        rw [whole, nestMembers, scanString_quoted]
        change max (nestOnce F .malformed dictOfPairs m (skipBlanks _)) _ ≤ n
        refine max_le ?_ ?_
        · rw [value]
          exact here _ (Clear.cons rfl rest) m
        · split
          · next v s read =>
            rw [value] at read
            cases scan_rest F wire (Clear.cons rfl rest) read
            exact Nat.zero_le n
          · exact Nat.zero_le n
      | cons e entries =>
        have whole : dumpsMembers ((key, j) :: e :: entries) ++ 125 :: rest =
            34 :: ((points key).flatMap escape ++ 34 :: 58 ::
              (dumps j ++ 44 :: (dumpsMembers (e :: entries) ++ 125 :: rest))) := by
          rw [dumpsMembers, List.append_assoc, List.cons_append, List.append_assoc, List.cons_append, scanString_key]
        have blanks : skipBlanks (dumpsMembers (e :: entries) ++ 125 :: rest) =
            dumpsMembers (e :: entries) ++ 125 :: rest := by
          cases entries with
          | nil => exact skipBlanks_clear (Clear.cons rfl _)
          | cons f entries => exact skipBlanks_clear (Clear.cons rfl _)
        rw [whole, nestMembers, scanString_quoted]
        change max (nestOnce F .malformed dictOfPairs m (skipBlanks _)) _ ≤ n
        refine max_le ?_ ?_
        · rw [value]
          exact here _ (Clear.cons rfl _) m
        · split
          · next v s read =>
            rw [value] at read
            cases scan_rest F wire (Clear.cons rfl _) read
            change nestMembers F .malformed dictOfPairs m (skipBlanks _) ≤ n
            rw [blanks]
            exact ih wires later m
          · exact Nat.zero_le n

theorem nest_shallow {s : PyStr} (begins : ∃ c t, s = c :: t ∧ c ≠ 123 ∧ c ≠ 91) (rest : PyStr) (m n : ℕ) :
    nestOnce F .malformed dictOfPairs m (s ++ rest) ≤ n := by
  obtain ⟨c, t, rfl, plain⟩ := begins
  have none := nestOnce_shallow F plain (t ++ rest) m
  rw [List.cons_append, none]
  exact Nat.zero_le n

theorem nest_printed {j : Json} (wire : WireValue noFloats j) (wireF : WireValue F j) {n : ℕ} (nests : Nests n j)
    (rest : PyStr) (clear : Clear numberPart rest) (m : ℕ) :
    nestOnce F .malformed dictOfPairs m (dumps j ++ rest) ≤ n := by
  induction nests generalizing rest m with
  | null => exact nest_shallow F ⟨_, _, rfl, by decide⟩ rest m _
  | bool b => cases b <;> exact nest_shallow F ⟨_, _, rfl, by decide⟩ rest m _
  | int i =>
    obtain ⟨c, t, same, shape⟩ := scanIntegral_cons (scanIntegral_integer i)
    refine nest_shallow F ⟨c, t, same, ?_⟩ rest m _
    rcases shape with digit | ⟨rfl, -⟩
    · constructor <;> rintro rfl <;> cases digit
    · decide
  | float token => exact absurd rfl (wire.not_float token)
  | str s => exact nest_shallow F ⟨_, _, rfl, by decide⟩ rest m _
  | @arr n items each ih =>
    cases wire with
    | arr wired =>
      cases wireF with
      | arr wiredF =>
        have inner : ∀ j ∈ items, ∀ rest, Clear numberPart rest → ∀ m,
            nestOnce F .malformed dictOfPairs m (dumps j ++ rest) ≤ n := by
          intro j hj rest clear m
          exact ih j hj (wired j hj) (wiredF j hj) rest clear m
        cases m with
        | zero => exact Nat.zero_le _
        | succ m =>
          have whole : dumps (.arr items) ++ rest = 91 :: (dumpsItems items ++ 93 :: rest) := by
            rw [dumps, List.cons_append, List.append_assoc, List.singleton_append]
          have blanks : skipBlanks (dumpsItems items ++ 93 :: rest) = dumpsItems items ++ 93 :: rest := by
            cases items with
            | nil => exact skipBlanks_clear (Clear.cons rfl _)
            | cons i items =>
              obtain ⟨c, t, begins, first⟩ := (wiredF i List.mem_cons_self).opens
              cases items with
              | nil => exact skipBlanks_opens (by rw [dumpsItems, begins]; rfl) first
              | cons k items => exact skipBlanks_opens (by rw [dumpsItems, begins]; rfl) first
          have deep := nest_items F wiredF inner rest m
          rw [whole, nestOnce, if_neg (by decide), if_pos rfl, blanks]
          omega
  | @obj n entries each ih =>
    cases wire with
    | obj keys wired =>
      cases wireF with
      | obj keysF wiredF =>
        have inner : ∀ e ∈ entries, ∀ rest, Clear numberPart rest → ∀ m,
            nestOnce F .malformed dictOfPairs m (dumps e.2 ++ rest) ≤ n := by
          intro e he rest clear m
          exact ih e he (wired e he) (wiredF e he) rest clear m
        cases m with
        | zero => exact Nat.zero_le _
        | succ m =>
          have whole : dumps (.obj entries) ++ rest = 123 :: (dumpsMembers entries ++ 125 :: rest) := by
            rw [dumps, List.cons_append, List.append_assoc, List.singleton_append]
          have blanks : skipBlanks (dumpsMembers entries ++ 125 :: rest) = dumpsMembers entries ++ 125 :: rest := by
            cases entries with
            | nil => exact skipBlanks_clear (Clear.cons rfl _)
            | cons e entries =>
              cases entries with
              | nil => exact skipBlanks_clear (Clear.cons rfl _)
              | cons f entries => exact skipBlanks_clear (Clear.cons rfl _)
          have deep := nest_members F wiredF inner rest m
          rw [whole, nestOnce, if_pos rfl, blanks]
          omega

theorem WireValue.anyFloats {j : Json} (wire : WireValue noFloats j) : WireValue F j := by
  induction wire with
  | null => exact .null
  | bool b => exact .bool b
  | int n => exact .int n
  | float f => exact f.elim
  | str s => exact .str s
  | arr wired ih => exact .arr ih
  | obj keys wired ih => exact .obj keys ih

/-- `json.loads` reads a printed value that nests no deeper than there is room for. -/
theorem loadsWithin_dumps {j : Json} (wire : WireValue noFloats j) {n room : ℕ} (nests : Nests n j) (fits : n ≤ room) :
    loadsWithin F .malformed dictOfPairs room (dumps j) = .ok (ofJson j) := by
  have wireF := wire.anyFloats F
  obtain ⟨v, plain, normal, scanned⟩ := plain_read F wireF
  obtain ⟨c, t, begins, first⟩ := wireF.opens
  have clear : Clear numberPart [] := fun c hc => by cases hc
  have blanks : skipBlanks (dumps j) = dumps j := skipBlanks_opens begins first
  have start : (dumps j).head? ≠ some 0xfeff := by
    intro mark
    rw [begins] at mark
    cases mark
    cases first
  have shallow : ¬room < nesting F .malformed dictOfPairs (dumps j) := by
    have deep := nest_printed F wire wireF nests [] clear (4 * (dumps j).length + 4)
    rw [List.append_nil] at deep
    rw [nesting, if_neg start, blanks]
    omega
  have read := scanned [] clear _ le_rfl
  rw [List.append_nil] at read
  rw [loadsWithin, if_neg shallow, loads_of_scan start (by rw [blanks]; exact read) rfl, plain.eq_ofJson F normal wire]
  rfl

/-! ## No control character is printed -/

def Legible (s : PyStr) : Prop := ∀ c ∈ s, 32 ≤ c

theorem Legible.append {s t : PyStr} (h : Legible s) (h' : Legible t) : Legible (s ++ t) :=
  List.forall_mem_append.mpr ⟨h, h'⟩

theorem Legible.cons {c : ℕ} {s : PyStr} (h : 32 ≤ c) (h' : Legible s) : Legible (c :: s) :=
  List.forall_mem_cons.mpr ⟨h, h'⟩

theorem legible_escape (c : ℕ) : Legible (escape c) := by
  have hex : ∀ n, 32 ≤ hexChar n := by
    intro n
    unfold hexChar
    split_ifs <;> omega
  unfold escape Legible
  split_ifs <;> simp [hex] <;> omega

theorem legible_quote (s : PyStr) : Legible (quote s) := by
  refine Legible.cons (by decide) (Legible.append ?_ (Legible.cons (by decide) (fun c hc => by cases hc)))
  intro c hc
  obtain ⟨d, -, hc⟩ := List.mem_flatMap.mp hc
  exact legible_escape d c hc

theorem legible_integer (n : ℤ) : Legible (integer n) := by
  have digits : ∀ n, Legible (decimal n) := by
    intro n c hc
    have digit := decimal_digits n c hc
    simp only [isDigit, Bool.and_eq_true, decide_eq_true_eq] at digit
    omega
  cases n with
  | ofNat n => exact digits n
  | negSucc n => exact Legible.cons (by decide) (digits _)

theorem legible_items {items : List Json} (each : ∀ j ∈ items, Legible (dumps j)) : Legible (dumpsItems items) := by
  induction items with
  | nil => exact fun c hc => by cases hc
  | cons j items ih =>
    obtain ⟨here, later⟩ := List.forall_mem_cons.mp each
    cases items with
    | nil => exact here
    | cons i items => exact here.append (Legible.cons (by decide) (ih later))

theorem legible_members {entries : List (String × Json)} (each : ∀ e ∈ entries, Legible (dumps e.2)) :
    Legible (dumpsMembers entries) := by
  induction entries with
  | nil => exact fun c hc => by cases hc
  | cons e entries ih =>
    obtain ⟨here, later⟩ := List.forall_mem_cons.mp each
    cases entries with
    | nil => exact (legible_quote _).append (Legible.cons (by decide) here)
    | cons f entries =>
      exact (legible_quote _).append (Legible.cons (by decide) (here.append (Legible.cons (by decide) (ih later))))

theorem legible_dumps {j : Json} (wire : WireValue noFloats j) : Legible (dumps j) := by
  have closed : ∀ {s : PyStr} {a b : ℕ}, 32 ≤ a → 32 ≤ b → Legible s → Legible (a :: (s ++ [b])) :=
    fun ha hb h => Legible.cons ha (h.append (Legible.cons hb (fun c hc => by cases hc)))
  induction wire with
  | null => simp [Legible, dumps]
  | bool b => cases b <;> simp [Legible, dumps]
  | int n => exact legible_integer n
  | float f => exact f.elim
  | str s => exact legible_quote _
  | arr _ ih => exact closed (by decide) (by decide) (legible_items ih)
  | obj _ _ ih => exact closed (by decide) (by decide) (legible_members ih)

theorem Nests.canonical {n : ℕ} {j : Json} (nests : Nests n j) : Nests n j.canonical := by
  induction nests with
  | null => exact .null
  | bool b => exact .bool b
  | int i => exact .int i
  | float token => exact .float token
  | str s => exact .str s
  | @arr n items _ ih =>
    refine @Nests.arr n (Json.canonicalItems items) (fun j hj => ?_)
    rw [Json.canonicalItems_eq_map] at hj
    obtain ⟨i, mem, rfl⟩ := List.mem_map.mp hj
    exact ih i mem
  | @obj n entries _ ih =>
    refine @Nests.obj n (Json.sortKeys (Json.canonicalEntries entries)) (fun e he => ?_)
    rw [Json.sortKeys, List.mem_insertionSort, Json.canonicalEntries_eq_map] at he
    obtain ⟨e', mem, rfl⟩ := List.mem_map.mp he
    exact ih e' mem

end Constructicon
