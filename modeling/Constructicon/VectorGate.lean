import Constructicon.VectorCodec

/-!
# The second gate of the vectors

`_validated` prints what `parse_vectors` read, and reads the print. The print is the shortest text of the
value that was read, so it fits wherever the value fitted; it nests as deep, and is read as that value.
-/

namespace Constructicon

open PyJson Transaction

variable {φ : Type} (F : FloatText φ)

/-! ## The print is read -/

theorem toNat_dumps (j : Json) : ((dumps j).map Char.ofNat).map Char.toNat = dumps j := by
  rw [List.map_map]
  refine (List.map_congr_left fun c mem => ?_).trans (List.map_id _)
  exact toNat_ofNat (valid_json j c mem)

/-- What `json.loads` reads without repeated keys is plain. -/
theorem plain_loads {text : PyStr} {v : PyValue φ} (read : loads F .malformed uniqueObject text = .ok v) :
    Plain v := by
  have kept : Plain v ∧ loads F .malformed dictOfPairs text = .ok v := by
    refine loads_keeps (fun v atomic => .atomic atomic) (fun items each => .list each) ?_ read
    intro pairs v each hooked
    obtain ⟨distinct, rfl⟩ := uniqueObject_ok hooked
    exact ⟨.dict distinct each, dictOfPairs_distinct distinct⟩
  exact kept.1

theorem loads_dumps {j : Json} (wire : WireValue noFloats j) :
    loads F .malformed uniqueObject (dumps j) = .ok (ofJson j) := by
  obtain ⟨v, normal, scanned⟩ := (wire.anyFloats F).readAs
  obtain ⟨c, t, begins, first⟩ := (wire.anyFloats F).opens
  have start : (dumps j).head? ≠ some 0xfeff := by
    intro mark
    rw [begins] at mark
    cases mark
    cases first
  have read := scanned [] (fun c hc => by cases hc) _ le_rfl
  rw [List.append_nil] at read
  have whole : loads F .malformed uniqueObject (dumps j) = .ok v :=
    loads_of_scan start (by rw [skipBlanks_opens begins first]; exact read) rfl
  rw [whole, (plain_loads F whole).eq_ofJson F normal wire]

theorem finite_ofJson {j : Json} (wire : WireValue noFloats j) : ¬Unbounded (ofJson (φ := φ) j) := by
  induction wire with
  | float f => exact f.elim
  | null =>
    intro part
    cases part
  | bool b =>
    intro part
    cases part
  | int n =>
    intro part
    cases part
  | str s =>
    intro part
    cases part
  | arr wired ih =>
    intro part
    rw [ofJson, ofJsonItems_eq] at part
    cases part with
    | item mem inner =>
      obtain ⟨j, held, rfl⟩ := List.mem_map.mp mem
      exact ih j held inner
  | obj keys wired ih =>
    intro part
    rw [ofJson, ofJsonMembers_eq] at part
    cases part with
    | key mem inner =>
      obtain ⟨e, held, rfl⟩ := List.mem_map.mp mem
      cases inner
    | value mem inner =>
      obtain ⟨e, held, rfl⟩ := List.mem_map.mp mem
      exact ih e held inner

theorem unique_part {pairs : List (PyStr × PyValue φ)} {v : PyValue φ} (hooked : uniqueObject pairs = .ok v)
    {p : PyStr × PyValue φ} (mem : p ∈ pairs) (part : Unbounded p.2) : Unbounded v := by
  obtain ⟨-, rfl⟩ := uniqueObject_ok hooked
  exact .value (List.mem_map.mpr ⟨p, mem, rfl⟩) part

theorem loadVectors_dumps {j : Json} (wire : WireValue noFloats j) : loadVectors F (dumps j) = .ok (ofJson j) := by
  have read : loadsFinite F .malformed uniqueObject .notFinite (dumps j) = .ok (ofJson j) :=
    loadsFinite_of (fun _ _ hooked _ mem part => unique_part hooked mem part) (loads_dumps F wire) (finite_ofJson wire)
  rw [loadVectors, read]
  rfl

/-- What nests no more than four deep passes `_check_depth`. -/
theorem checkDepth_dumps {j : Json} (wire : WireValue noFloats j) {n : ℕ} (nests : Nests n j) (fits : n ≤ 4) :
    checkDepth (dumps j) = .ok () := by
  have within := loadsWithin_dumps noFloats wire nests fits
  unfold loadsWithin at within
  split_ifs at within with deep
  have read : loads noFloats .malformed dictOfPairs (dumps j) = .ok (ofJson j) := by
    cases loaded : loads noFloats .malformed dictOfPairs (dumps j) with
    | error e =>
      rw [loaded] at within
      cases within
    | ok v =>
      rw [loaded] at within
      cases within
      rfl
  have reached := peak_le_nesting read
  unfold checkDepth
  rw [Scan.foldlM_step (by decide), if_neg (by omega)]

/-! ## The print is the shortest -/

theorem width_toNat (c : Char) : width c.toNat = (String.utf8EncodeChar c).length := by
  have number : c.val.toNat = c.toNat := rfl
  unfold width String.utf8EncodeChar
  dsimp only
  rw [number]
  split_ifs <;> first | rfl | omega

theorem length_encode (text : List Char) : (Utf8.encode text).length = weight (text.map Char.toNat) := by
  induction text with
  | nil => rfl
  | cons c text ih => rw [Utf8.encode_cons, List.length_append, ih, List.map_cons, weight_cons, width_toNat]

theorem weight_integer (n : ℤ) : weight (integer n) = (integer n).length := by
  have digits : ∀ n, weight (decimal n) = (decimal n).length := by
    intro n
    refine weight_numeric fun c hc => ?_
    rw [numeric, numberPart, decimal_digits n c hc]
    rfl
  cases n with
  | ofNat n => exact digits n
  | negSucc n =>
    change weight (45 :: decimal (n + 1)) = (45 :: decimal (n + 1)).length
    rw [weight_cons, digits, List.length_cons, Nat.add_comm]
    rfl

theorem weight_quote (s : PyStr) : weight (quote s) = 2 + quotedBytes s := by
  rw [quote, weight_cons, weight_append, quotedBytes]
  change 1 + (_ + 1) = _
  omega

theorem weight_items {items : List Json} (each : ∀ j ∈ items, weight (dumps j) = (ofJson (φ := φ) j).bytes) :
    weight (dumpsItems items) + 1 = max 1 (itemsBytes (ofJsonItems (φ := φ) items)) := by
  induction items with
  | nil => rfl
  | cons j items ih =>
    obtain ⟨here, later⟩ := List.forall_mem_cons.mp each
    have rest := ih later
    cases items with
    | nil =>
      rw [dumpsItems, here]
      simp only [ofJsonItems, itemsBytes]
      omega
    | cons i items =>
      rw [dumpsItems, weight_append, weight_cons, here, ofJsonItems, itemsBytes]
      have some : 1 ≤ itemsBytes (ofJsonItems (φ := φ) (i :: items)) := by
        rw [ofJsonItems, itemsBytes]
        omega
      change _ + (1 + _) + 1 = _
      omega

theorem weight_members {entries : List (String × Json)}
    (each : ∀ e ∈ entries, weight (dumps e.2) = (ofJson (φ := φ) e.2).bytes) :
    weight (dumpsMembers entries) + 1 = max 1 (membersBytes (ofJsonMembers (φ := φ) entries)) := by
  induction entries with
  | nil => rfl
  | cons e entries ih =>
    obtain ⟨key, j⟩ := e
    obtain ⟨here, later⟩ := List.forall_mem_cons.mp each
    have rest := ih later
    dsimp only at here
    cases entries with
    | nil =>
      rw [dumpsMembers, weight_append, weight_cons, here, weight_quote]
      simp only [ofJsonMembers, membersBytes]
      change _ + (1 + _) + 1 = max 1 (2 + _ + _ + _ + _ + _)
      omega
    | cons f entries =>
      obtain ⟨key', j'⟩ := f
      rw [dumpsMembers, weight_append, weight_cons, weight_append, weight_cons, here, weight_quote, ofJsonMembers,
        membersBytes]
      have some : 1 ≤ membersBytes (ofJsonMembers (φ := φ) ((key', j') :: entries)) := by
        rw [ofJsonMembers, membersBytes]
        omega
      change _ + (1 + (_ + (1 + _))) + 1 = max 1 (2 + _ + _ + _ + _ + _)
      omega

theorem weight_dumps {j : Json} (wire : WireValue noFloats j) : weight (dumps j) = (ofJson (φ := φ) j).bytes := by
  induction wire with
  | float f => exact f.elim
  | null => rfl
  | bool b => cases b <;> rfl
  | int n => exact weight_integer n
  | str s => exact weight_quote _
  | arr wired ih =>
    rw [dumps, weight_cons, weight_append, ofJson, PyValue.bytes, ← weight_items ih]
    change 1 + (_ + 1) = _
    omega
  | obj keys wired ih =>
    rw [dumps, weight_cons, weight_append, ofJson, PyValue.bytes, ← weight_members ih]
    change 1 + (_ + 1) = _
    omega

theorem membersBytes_pairs (pairs : List (PyStr × PyValue φ)) :
    membersBytes (pairs.map (fun p => (.str p.1, p.2))) = pairsBytes pairs := by
  induction pairs with
  | nil => rfl
  | cons p pairs ih =>
    rw [List.map_cons, membersBytes, ih, pairsBytes, pairsBytes, List.map_cons, List.sum_cons]
    rfl

theorem unique_bytes {pairs : List (PyStr × PyValue φ)} {v : PyValue φ} (hooked : uniqueObject pairs = .ok v) :
    v.bytes ≤ 1 + max 1 (pairsBytes pairs) := by
  obtain ⟨-, rfl⟩ := uniqueObject_ok hooked
  rw [PyValue.bytes, membersBytes_pairs]

/-! ## What is read is written -/

theorem textEntries_pairs (pairs : List (PyStr × PyValue φ)) :
    textEntries (pairs.map (fun p => (.str p.1, p.2))) = ⟨pairs⟩ := by
  induction pairs with
  | nil => rfl
  | cons p pairs ih => exact congrArg (fun d => Dict.mk (p :: d.entries)) ih

theorem bind_asText {o : Option (PyValue φ)} {s : PyStr} (h : o.bind asText = some s) : o = some (.str s) := by
  rw [Option.bind_eq_some_iff] at h
  obtain ⟨v, rfl, text⟩ := h
  cases v with
  | str t =>
    cases text
    rfl
  | _ => cases text

theorem pairs_of_keys {pairs : List (PyStr × PyValue φ)} (distinct : (pairs.map Prod.fst).Nodup) {a b : String}
    (other : a ≠ b) (keys : keysAre ⟨pairs⟩ [a, b] = true) {x y : PyValue φ}
    (first : Dict.get? ⟨pairs⟩ (points a) = some x) (second : Dict.get? ⟨pairs⟩ (points b) = some y) :
    pairs.Perm [(points a, x), (points b, y)] := by
  have differ : points a ≠ points b := fun same => other (points_injective same)
  have unique : [(points a, x), (points b, y)].Nodup := by simp [differ]
  rw [List.perm_ext_iff_of_nodup distinct.of_map unique]
  rintro ⟨k, v⟩
  simp only [List.mem_cons, List.not_mem_nil, or_false, Prod.mk.injEq]
  constructor
  · intro mem
    have found : Dict.get? ⟨pairs⟩ k = some v := Dict.get?_of_mem distinct mem
    have known := List.all_eq_true.mp (Bool.and_eq_true_iff.mp keys).1 k (List.mem_map.mpr ⟨(k, v), mem, rfl⟩)
    have named : k = points a ∨ k = points b := by simpa using known
    rcases named with rfl | rfl
    · exact .inl ⟨rfl, Option.some.inj (found.symm.trans first)⟩
    · exact .inr ⟨rfl, Option.some.inj (found.symm.trans second)⟩
  · rintro (⟨rfl, rfl⟩ | ⟨rfl, rfl⟩)
    · exact Dict.mem_of_get? first
    · exact Dict.mem_of_get? second

theorem bytes_of_keys {pairs : List (PyStr × PyValue φ)} (distinct : (pairs.map Prod.fst).Nodup) {a b : String}
    (other : a ≠ b) (keys : keysAre ⟨pairs⟩ [a, b] = true) {x y : PyValue φ}
    (first : Dict.get? ⟨pairs⟩ (points a) = some x) (second : Dict.get? ⟨pairs⟩ (points b) = some y) :
    (PyValue.dict (pairs.map (fun p => (.str p.1, p.2)))).bytes =
      (PyValue.dict [(.str (points a), x), (.str (points b), y)]).bytes := by
  have reordered := pairs_of_keys distinct other keys first second
  have same : pairsBytes pairs = pairsBytes [(points a, x), (points b, y)] := (reordered.map _).sum_eq
  have both := membersBytes_pairs [(points a, x), (points b, y)]
  rw [PyValue.bytes, PyValue.bytes, membersBytes_pairs, same, ← both]
  rfl

theorem pathCase_ok {index : ℕ} {o : Option (PyValue φ)} {c : VectorCase} (read : pathCase index o = .ok c) :
    ∃ path, o = some (.str path) ∧ c = .planPath path ∧ c.InDomain := by
  unfold pathCase at read
  split at read
  · next path =>
    split_ifs at read with refused
    cases read
    simp only [not_or, not_lt, Bool.not_eq_false] at refused
    exact ⟨path, rfl, rfl, refused⟩
  · cases read

theorem entriesCase_ok {index : ℕ} {o : Option (PyValue φ)} {c : VectorCase} (read : entriesCase index o = .ok c) :
    ∃ blob, o = some (.str (toHex blob)) ∧ c = .entries blob ∧ c.InDomain := by
  unfold entriesCase at read
  split at read
  · next encoded =>
    split_ifs at read with refused
    simp only [not_or, not_lt, Bool.not_eq_false, ne_eq, not_not, List.all_eq_true] at refused
    obtain ⟨short, even, digits⟩ := refused
    have printed := toHex_fromHex even digits
    obtain ⟨rfl, ascii⟩ := blobCase_ok.mp read
    exact ⟨fromHex encoded, by rw [printed], rfl, by rw [printed]; exact short, ascii⟩
  · cases read

theorem readCase_ok {index : ℕ} {value : PyValue φ} (plain : Plain value) {c : VectorCase}
    (read : readCase index value = .ok c) : c.InDomain ∧ (c.value (φ := φ)).bytes = value.bytes := by
  cases plain with
  | atomic atomic => cases value <;> first | cases read | cases atomic
  | list each => cases read
  | @dict pairs distinct each =>
    rw [readCase, textEntries_pairs] at read
    split_ifs at read with path entries
    · obtain ⟨kind, keys⟩ := path
      obtain ⟨path, found, rfl, fits⟩ := pathCase_ok read
      exact ⟨fits, (bytes_of_keys distinct (by decide) keys (bind_asText kind) found).symm⟩
    · obtain ⟨kind, keys⟩ := entries
      obtain ⟨blob, found, rfl, fits⟩ := entriesCase_ok read
      exact ⟨fits, (bytes_of_keys distinct (by decide) keys (bind_asText kind) found).symm⟩

theorem readCases_ok {index : ℕ} {values : List (PyValue φ)} (plain : ∀ v ∈ values, Plain v)
    {vectors : PlanManifestVectors} (read : readCases index values = .ok vectors) :
    vectors.length = values.length ∧ (∀ c ∈ vectors, c.InDomain) ∧
      itemsBytes (vectors.map (VectorCase.value (φ := φ))) = itemsBytes values := by
  induction values generalizing index vectors with
  | nil =>
    cases read
    exact ⟨rfl, List.forall_mem_nil _, rfl⟩
  | cons v values ih =>
    obtain ⟨first, others⟩ := List.forall_mem_cons.mp plain
    simp only [readCases, bind_eq_ok] at read
    obtain ⟨c, here, rest, later, same⟩ := read
    cases same
    obtain ⟨fits, bytes⟩ := readCase_ok first here
    obtain ⟨length, fit, sum⟩ := ih others later
    refine ⟨by rw [List.length_cons, List.length_cons, length], List.forall_mem_cons.mpr ⟨fits, fit⟩, ?_⟩
    rw [List.map_cons, itemsBytes, itemsBytes, bytes, sum]

theorem isOne_iff {o : Option (PyValue φ)} (h : isOne o = true) : o = some (.int 1) := by
  unfold isOne at h
  split at h
  · next n =>
    rw [decide_eq_true_eq] at h
    rw [h]
  · cases h

theorem vectorsOf_ok {value : PyValue φ} (plain : Plain value) {vectors : PlanManifestVectors}
    (read : vectorsOf value = .ok vectors) :
    Acceptable vectors ∧ (documentValue (φ := φ) vectors).bytes = value.bytes := by
  cases plain with
  | atomic atomic => cases value <;> first | cases read | cases atomic
  | list each => cases read
  | @dict pairs distinct each =>
    rw [vectorsOf, textEntries_pairs] at read
    split_ifs at read with shaped
    obtain ⟨keys, version⟩ := shaped
    unfold countedCases at read
    split at read
    · next cases' found =>
      split_ifs at read with counted
      have held := Dict.mem_of_get? found
      have inner : ∀ v ∈ cases', Plain v := by
        have list := each _ held
        dsimp only at list
        cases list with
        | atomic atomic => cases atomic
        | list each => exact each
      obtain ⟨length, fits, sum⟩ := readCases_ok inner read
      refine ⟨⟨by omega, by omega, fits⟩, ?_⟩
      rw [bytes_of_keys distinct (by decide) keys (isOne_iff version) found, documentValue]
      simp only [PyValue.bytes, membersBytes, sum]
    · cases read

theorem wireCases_of {vectors : PlanManifestVectors} (fits : ∀ c ∈ vectors, c.InDomain) :
    ∃ js, wireCases vectors = .ok js := by
  have each : ∀ c : VectorCase, c.InDomain → ∃ j, wireCase c = .ok j := by
    intro c fits
    cases c with
    | entries blob => exact ⟨_, rfl⟩
    | planPath path =>
      have valid : ∀ c ∈ path, c.isValidChar := by
        intro c mem
        have small := List.all_eq_true.mp fits.2 c mem
        rw [decide_eq_true_eq] at small
        exact .inl (by omega)
      rw [wireCase, unicodeScalar, if_pos valid]
      exact ⟨_, rfl⟩
  induction vectors with
  | nil => exact ⟨[], rfl⟩
  | cons c vectors ih =>
    obtain ⟨here, later⟩ := List.forall_mem_cons.mp fits
    obtain ⟨j, first⟩ := each c here
    obtain ⟨js, rest⟩ := ih later
    rw [wireCases, first, ok_bind, rest]
    exact ⟨_, rfl⟩

/-! ## The two gates -/

variable {F} in
theorem parseVectors_ok {blob : List UInt8} {vectors : PlanManifestVectors} (read : parseVectors F blob = .ok vectors) :
    blob.length ≤ 32768 ∧ ∃ text value, loads F .malformed uniqueObject text = .ok value ∧
      weight text = blob.length ∧ vectorsOf value = .ok vectors := by
  unfold parseVectors at read
  split_ifs at read with long
  split at read
  · cases read
  · next text decoded =>
    simp only [readVectors, bind_eq_ok] at read
    obtain ⟨_, -, value, loaded, read⟩ := read
    refine ⟨not_lt.mp long, text.map Char.toNat, value, ?_, ?_, read⟩
    · unfold loadVectors loadsFinite at loaded
      split_ifs at loaded
      · cases loaded
      · cases whole : loads F .malformed uniqueObject (text.map Char.toNat) with
        | error e =>
          rw [whole] at loaded
          cases loaded
        | ok v =>
          rw [whole] at loaded
          cases loaded
          rfl
    · rw [← length_encode, Utf8.decode_eq_some.mp decoded]

/-- The print of vectors is read as what `parse_vectors` makes of their document. -/
theorem parseVectors_encode {vectors : PlanManifestVectors} {js : List Json} (written : wireCases vectors = .ok js)
    {encoded : List UInt8} (print : encoded = Utf8.encode ((dumps (wireDocument js)).map Char.ofNat)) :
    parseVectors F encoded =
      if 32768 < encoded.length then .error { code := .wireBound } else vectorsOf (documentValue (φ := φ) vectors) := by
  obtain ⟨wire, nests, value⟩ := document_value (φ := φ) written
  subst print
  rw [parseVectors, Utf8.decode_encode]
  dsimp only
  rw [toNat_dumps, readVectors, checkDepth_dumps wire nests (by decide), ok_bind, loadVectors_dumps F wire,
    ok_bind, value]

theorem length_print {vectors : PlanManifestVectors} {js : List Json} (written : wireCases vectors = .ok js) :
    (Utf8.encode ((dumps (wireDocument js)).map Char.ofNat)).length = (documentValue (φ := φ) vectors).bytes := by
  obtain ⟨wire, -, value⟩ := document_value (φ := φ) written
  rw [length_encode, toNat_dumps, weight_dumps (φ := φ) wire, value]

/-- What `parse_vectors` accepts passes `_validated` as it is, in no more bytes than it came in; and what
`_validated` accepts it returns, and some bytes are parsed to it. -/
theorem vectors_round_trip :
    (∀ blob vectors, parseVectors F blob = .ok vectors → validated F vectors = .ok vectors ∧
      ∃ encoded, encodeVectors vectors = .ok encoded ∧ encoded.length ≤ blob.length) ∧
    ∀ vectors vectors', validated F vectors = .ok vectors' →
      vectors' = vectors ∧ ∃ blob, parseVectors F blob = .ok vectors := by
  constructor
  · intro blob vectors read
    obtain ⟨bound, text, value, loaded, size, read⟩ := parseVectors_ok read
    obtain ⟨accepted, bytes⟩ := vectorsOf_ok (plain_loads F loaded) read
    obtain ⟨js, written⟩ := wireCases_of accepted.2.2
    have encoded : encodeVectors vectors = .ok (Utf8.encode ((dumps (wireDocument js)).map Char.ofNat)) := by
      rw [encodeVectors, written]
      rfl
    have print := length_print (φ := φ) written
    have shortest := bytes_le_weight (fun _ _ hooked => unique_bytes hooked) loaded
    have short : (Utf8.encode ((dumps (wireDocument js)).map Char.ofNat)).length ≤ blob.length := by omega
    refine ⟨?_, _, encoded, short⟩
    rw [validated, encoded, ok_bind, parseVectors_encode F written rfl, if_neg (by omega)]
    exact vectorsOf_value.mpr ⟨rfl, accepted⟩
  · intro vectors vectors' passed
    simp only [validated, encodeVectors, bind_eq_ok] at passed
    obtain ⟨encoded, ⟨js, written, print⟩, read⟩ := passed
    have same := read
    rw [parseVectors_encode F written (Except.ok.inj print).symm] at same
    split_ifs at same
    obtain ⟨rfl, -⟩ := vectorsOf_value.mp same
    exact ⟨rfl, encoded, read⟩

def spelledVectors : String := "\x7b\"cases\": [ \x7b \"path\" : \"\\u0061\", \"kind\":\"plan_path\"\x7d ],\"version\":1\x7d"

theorem spelledVectors_read : ∃ text, spelledVectors.toList = text ∧ weight (text.map Char.toNat) ≤ 32768 ∧
    readVectors noFloats (text.map Char.toNat) = .ok [.planPath [97]] :=
  ⟨_, String.toList_ofList, by decide, by decide⟩

theorem vectors_round_trip_spelled :
    validated noFloats [.planPath [97]] = .ok [.planPath [97]] ∧
      (∃ encoded, encodeVectors [.planPath [97]] = .ok encoded ∧
        encoded.length ≤ (Utf8.encode spelledVectors.toList).length) ∧
      ∃ blob, parseVectors noFloats blob = .ok [.planPath [97]] := by
  have read : parseVectors noFloats (Utf8.encode spelledVectors.toList) = .ok [.planPath [97]] := by
    obtain ⟨text, same, short, read⟩ := spelledVectors_read
    rw [parseVectors, same, length_encode, if_neg (not_lt.mpr short), Utf8.decode_encode]
    exact read
  obtain ⟨passed, shorter⟩ := (vectors_round_trip noFloats).1 _ _ read
  exact ⟨passed, shorter, ((vectors_round_trip noFloats).2 _ _ passed).2⟩

end Constructicon
