import Constructicon.DetailChunks
import Constructicon.JsonFrames
import Constructicon.Library.DepthGuard
import Constructicon.Library.JsonFinite
import Constructicon.Library.JsonSize
import Constructicon.Library.Utf8

/-!
# Test vectors on the wire

`parse_vectors` reads the cases of the plan-manifest exam from bounded JSON; `_validated` writes cases
compactly and reads them again. The compact text is the shortest, so cases that came over the wire pass
the second gate, and what passes it is what it was.
-/

namespace Constructicon

open PyJson Transaction

variable {φ : Type}

/-! ## Refusals and cases -/

inductive VectorCode where
  | wireBound
  | jsonDepth
  | duplicateKey
  | nonfinite
  | jsonInvalid
  | wireShape
  | caseCount
  | caseShape
  | pathDomain
  | blobDomain
deriving DecidableEq

def VectorCode.text : VectorCode → String
  | .wireBound => "wire_bound"
  | .jsonDepth => "json_depth"
  | .duplicateKey => "duplicate_key"
  | .nonfinite => "nonfinite"
  | .jsonInvalid => "json_invalid"
  | .wireShape => "wire_shape"
  | .caseCount => "case_count"
  | .caseShape => "case_shape"
  | .pathDomain => "path_domain"
  | .blobDomain => "blob_domain"

/-- `VectorRefusal` -/
structure VectorRefusal where
  code : VectorCode
  caseIndex : Option ℕ := none
deriving DecidableEq

/-- `str(refusal)` -/
def VectorRefusal.text (r : VectorRefusal) : String :=
  r.caseIndex.elim r.code.text (fun index => r.code.text ++ ":" ++ toString index)

/-- `PlanPathCase`, `EntriesCase` -/
inductive VectorCase where
  | planPath (path : PyStr)
  | entries (blob : List UInt8)
deriving DecidableEq

/-- The cases of `PlanManifestVectors`. -/
abbrev PlanManifestVectors := List VectorCase

/-! ## Reading -/

/-- `_check_depth` -/
def checkDepth (text : PyStr) : Except VectorRefusal Unit :=
  match text.foldlM (Scan.step 4) (.outside 0) with
  | none => .error { code := .jsonDepth }
  | some _ => .ok ()

/-- What `_pairs`, `_nonfinite` and `json.loads` raise, the last as "json_invalid". -/
def vectorRefusal : WireFault → VectorRefusal
  | .repeatsKey _ => { code := .duplicateKey }
  | .notFinite => { code := .nonfinite }
  | _ => { code := .jsonInvalid }

/-- `s.isascii()` -/
def isAscii (s : PyStr) : Bool := s.all (· < 128)

/-- `set(d) == set(names)` -/
def keysAre (d : Dict PyStr (PyValue φ)) (names : List String) : Bool :=
  d.keys.all (fun k => names.any (fun name => k = points name)) && names.all (fun name => d.contains (points name))

/-- `char in "0123456789abcdef"` -/
def isHexDigit (c : ℕ) : Bool := (48 ≤ c && c ≤ 57) || (97 ≤ c && c ≤ 102)

def hexValue (c : ℕ) : ℕ := if c ≤ 57 then c - 48 else c - 87

/-- `bytes.fromhex(text)` of pairs of digits. -/
def fromHex : PyStr → List UInt8
  | high :: low :: text => UInt8.ofNat (16 * hexValue high + hexValue low) :: fromHex text
  | _ => []

/-- `blob.hex()` -/
def toHex (blob : List UInt8) : PyStr := blob.flatMap (fun b => [hexChar (b.toNat / 16), hexChar (b.toNat % 16)])

def pathCase (index : ℕ) : Option (PyValue φ) → Except VectorRefusal VectorCase
  | some (.str path) =>
    if 256 < path.length ∨ isAscii path = false then .error ⟨.pathDomain, some index⟩ else .ok (.planPath path)
  | _ => .error ⟨.pathDomain, some index⟩

def blobCase (index : ℕ) (content : List UInt8) : Except VectorRefusal VectorCase :=
  match Utf8.decode content with
  | some decoded =>
    if decoded.all (fun c => c.toNat < 128) then .ok (.entries content) else .error ⟨.blobDomain, some index⟩
  | none => .ok (.entries content)

def entriesCase (index : ℕ) : Option (PyValue φ) → Except VectorRefusal VectorCase
  | some (.str encoded) =>
    if 2048 < encoded.length ∨ encoded.length % 2 ≠ 0 ∨ encoded.all isHexDigit = false then
      .error ⟨.blobDomain, some index⟩
    else blobCase index (fromHex encoded)
  | _ => .error ⟨.blobDomain, some index⟩

def readCase (index : ℕ) : PyValue φ → Except VectorRefusal VectorCase
  | .dict entries =>
    let case := textEntries entries
    let kind := (case.get? (points "kind")).bind asText
    if kind = some (points "plan_path") ∧ keysAre case ["kind", "path"] then
      pathCase index (case.get? (points "path"))
    else if kind = some (points "entries") ∧ keysAre case ["kind", "blob_hex"] then
      entriesCase index (case.get? (points "blob_hex"))
    else .error ⟨.caseShape, some index⟩
  | _ => .error ⟨.caseShape, some index⟩

def readCases (index : ℕ) : List (PyValue φ) → Except VectorRefusal PlanManifestVectors
  | [] => .ok []
  | case :: cases => do
    let case ← readCase index case
    let cases ← readCases (index + 1) cases
    return case :: cases

/-- `type(v) is int and v == 1` -/
def isOne : Option (PyValue φ) → Bool
  | some (.int n) => n = 1
  | _ => false

def countedCases : Option (PyValue φ) → Except VectorRefusal PlanManifestVectors
  | some (.list cases) =>
    if 1 ≤ cases.length ∧ cases.length ≤ 64 then readCases 0 cases else .error { code := .caseCount }
  | _ => .error { code := .caseCount }

/-- What `parse_vectors` makes of a JSON value. -/
def vectorsOf : PyValue φ → Except VectorRefusal PlanManifestVectors
  | .dict entries =>
    let value := textEntries entries
    if keysAre value ["version", "cases"] ∧ isOne (value.get? (points "version")) then
      countedCases (value.get? (points "cases"))
    else .error { code := .wireShape }
  | _ => .error { code := .wireShape }

variable (F : FloatText φ)

/-- `json.loads` with `_pairs` and `_nonfinite`. -/
def loadVectors (text : PyStr) : Except VectorRefusal (PyValue φ) :=
  (loadsFinite F .malformed uniqueObject .notFinite text).mapError vectorRefusal

def readVectors (text : PyStr) : Except VectorRefusal PlanManifestVectors := do
  checkDepth text
  let value ← loadVectors F text
  vectorsOf value

/-- `parse_vectors`. The parser cannot run out of stack within the depth. -/
def parseVectors (blob : List UInt8) : Except VectorRefusal PlanManifestVectors :=
  if 32768 < blob.length then .error { code := .wireBound }
  else
    match Utf8.decode blob with
    | none => .error { code := .jsonInvalid }
    | some text => readVectors F (text.map Char.toNat)

/-! ## Writing -/

def wireCase : VectorCase → Except VectorRefusal Json
  | .planPath path => do
    let path ← (unicodeScalar path).mapError (fun _ => { code := .pathDomain })
    return .obj [("kind", .str "plan_path"), ("path", .str path)]
  | .entries blob =>
    .ok (.obj [("kind", .str "entries"), ("blob_hex", .str (String.ofList ((toHex blob).map Char.ofNat)))])

def wireCases : PlanManifestVectors → Except VectorRefusal (List Json)
  | [] => .ok []
  | case :: cases => do
    let case ← wireCase case
    let cases ← wireCases cases
    return case :: cases

def wireDocument (cases : List Json) : Json := .obj [("version", .int 1), ("cases", .arr cases)]

/-- The compact encoding of `_validated`. -/
def encodeVectors (vectors : PlanManifestVectors) : Except VectorRefusal (List UInt8) := do
  let wire ← wireCases vectors
  return Utf8.encode ((dumps (wireDocument wire)).map Char.ofNat)

/-- `_validated` -/
def validated (vectors : PlanManifestVectors) : Except VectorRefusal PlanManifestVectors := do
  let encoded ← encodeVectors vectors
  parseVectors F encoded

/-! ## Hexadecimal digits -/

theorem hexValue_hexChar : ∀ n < 16, hexValue (hexChar n) = n ∧ isHexDigit (hexChar n) = true := by decide

theorem hexChar_hexValue {c : ℕ} (digit : isHexDigit c = true) : hexValue c < 16 ∧ hexChar (hexValue c) = c := by
  simp only [isHexDigit, Bool.or_eq_true, Bool.and_eq_true, decide_eq_true_eq] at digit
  unfold hexValue hexChar
  split_ifs <;> omega

theorem fromHex_toHex (blob : List UInt8) : fromHex (toHex blob) = blob := by
  induction blob with
  | nil => rfl
  | cons b blob ih =>
    have small := b.toNat_lt
    have high := (hexValue_hexChar (b.toNat / 16) (by omega)).1
    have low := (hexValue_hexChar (b.toNat % 16) (by omega)).1
    change UInt8.ofNat (16 * hexValue (hexChar (b.toNat / 16)) + hexValue (hexChar (b.toNat % 16))) ::
      fromHex (toHex blob) = _
    rw [ih, high, low, Nat.div_add_mod, UInt8.ofNat_toNat]

theorem toHex_digits (blob : List UInt8) : ∀ c ∈ toHex blob, isHexDigit c = true := by
  intro c mem
  obtain ⟨b, -, mem⟩ := List.mem_flatMap.mp mem
  have small := b.toNat_lt
  simp only [List.mem_cons, List.not_mem_nil, or_false] at mem
  rcases mem with rfl | rfl
  · exact (hexValue_hexChar (b.toNat / 16) (by omega)).2
  · exact (hexValue_hexChar (b.toNat % 16) (by omega)).2

theorem length_toHex (blob : List UInt8) : (toHex blob).length = 2 * blob.length := by
  induction blob with
  | nil => rfl
  | cons b blob ih =>
    rw [toHex, List.flatMap_cons, List.length_append]
    change 2 + (toHex blob).length = _
    rw [ih, List.length_cons]
    omega

theorem toHex_fromHex {text : PyStr} (even : text.length % 2 = 0) (digits : ∀ c ∈ text, isHexDigit c = true) :
    toHex (fromHex text) = text := by
  induction text using fromHex.induct with
  | case1 high low text ih =>
    obtain ⟨first, second, later⟩ : isHexDigit high = true ∧ isHexDigit low = true ∧
        ∀ c ∈ text, isHexDigit c = true := by simpa using digits
    obtain ⟨small, same⟩ := hexChar_hexValue first
    obtain ⟨small', same'⟩ := hexChar_hexValue second
    have byte : (UInt8.ofNat (16 * hexValue high + hexValue low)).toNat = 16 * hexValue high + hexValue low := by
      rw [UInt8.toNat_ofNat', Nat.mod_eq_of_lt (by omega)]
    have upper : (16 * hexValue high + hexValue low) / 16 = hexValue high := by omega
    have lower : (16 * hexValue high + hexValue low) % 16 = hexValue low := by omega
    rw [List.length_cons, List.length_cons] at even
    have rest := ih (by omega) later
    rw [fromHex, toHex, List.flatMap_cons, byte, upper, lower, same, same']
    exact congrArg (fun t => high :: low :: t) rest
  | case2 text short =>
    cases text with
    | nil => rfl
    | cons c text =>
      cases text with
      | nil => simp at even
      | cons d text => exact absurd rfl (short c d text)

/-! ## What a case is read from -/

/-- A case that `parse_vectors` accepts. -/
def VectorCase.InDomain : VectorCase → Prop
  | .planPath path => path.length ≤ 256 ∧ isAscii path = true
  | .entries blob =>
    (toHex blob).length ≤ 2048 ∧ ∀ text, Utf8.decode blob = some text → text.all (fun c => c.toNat < 128) = true

def VectorCase.value : VectorCase → PyValue φ
  | .planPath path =>
    .dict [(.str (points "kind"), .str (points "plan_path")), (.str (points "path"), .str path)]
  | .entries blob =>
    .dict [(.str (points "kind"), .str (points "entries")), (.str (points "blob_hex"), .str (toHex blob))]

def documentValue (vectors : PlanManifestVectors) : PyValue φ :=
  .dict [(.str (points "version"), .int 1), (.str (points "cases"), .list (vectors.map VectorCase.value))]

def pairDict (a b : String) (x y : PyValue φ) : Dict PyStr (PyValue φ) := ⟨[(points a, x), (points b, y)]⟩

theorem pairDict_first (a b : String) (x y : PyValue φ) : (pairDict a b x y).get? (points a) = some x := by
  simp [pairDict, Dict.get?, Dict.find]

theorem pairDict_second {a b : String} (other : a ≠ b) (x y : PyValue φ) :
    (pairDict a b x y).get? (points b) = some y := by
  have distinct : points a ≠ points b := fun same => other (points_injective same)
  simp [pairDict, Dict.get?, Dict.find, distinct]

theorem pairDict_keys {a b : String} (other : a ≠ b) (x y : PyValue φ) : keysAre (pairDict a b x y) [a, b] = true := by
  have first := pairDict_first a b x y
  have second := pairDict_second other x y
  simp only [keysAre, Dict.contains, List.all_cons, List.all_nil, first, second, Option.isSome_some, Bool.and_true]
  simp [pairDict, Dict.keys]

theorem kinds_differ : points "entries" ≠ points "plan_path" :=
  fun same => absurd (points_injective same) (by decide)

theorem blobCase_ok {index : ℕ} {blob : List UInt8} {c : VectorCase} :
    blobCase index blob = .ok c ↔
      c = .entries blob ∧ ∀ text, Utf8.decode blob = some text → text.all (fun c => c.toNat < 128) = true := by
  unfold blobCase
  cases read : Utf8.decode blob with
  | none => exact ⟨fun h => ⟨(Except.ok.inj h).symm, fun text h => (by cases h)⟩, fun h => by rw [h.1]⟩
  | some text =>
    dsimp only
    split_ifs with ascii
    · refine ⟨fun h => ⟨(Except.ok.inj h).symm, fun text h => ?_⟩, fun h => by rw [h.1]⟩
      cases h
      exact ascii
    · exact ⟨fun h => (by cases h), fun h => absurd (h.2 text rfl) ascii⟩

theorem readCase_value {index : ℕ} {c c' : VectorCase} :
    readCase (φ := φ) index c.value = .ok c' ↔ c' = c ∧ c.InDomain := by
  cases c with
  | planPath path =>
    have kind := pairDict_first (φ := φ) "kind" "path" (.str (points "plan_path")) (.str path)
    have found := pairDict_second (φ := φ) (show "kind" ≠ "path" by decide) (.str (points "plan_path")) (.str path)
    have keys := pairDict_keys (φ := φ) (show "kind" ≠ "path" by decide) (.str (points "plan_path")) (.str path)
    have named : ((pairDict (φ := φ) "kind" "path" (.str (points "plan_path")) (.str path)).get? (points "kind")).bind
        asText = some (points "plan_path") := by rw [kind]; rfl
    have entries : textEntries (φ := φ) [(.str (points "kind"), .str (points "plan_path")),
        (.str (points "path"), .str path)] = pairDict "kind" "path" (.str (points "plan_path")) (.str path) := rfl
    rw [VectorCase.value, readCase, entries, if_pos ⟨named, keys⟩, found, pathCase]
    split_ifs with refused
    · refine ⟨fun h => (by cases h), fun h => ?_⟩
      obtain ⟨-, short, ascii⟩ := h
      rcases refused with long | wide
      · omega
      · cases ascii.symm.trans wide
    · simp only [not_or, not_lt, Bool.not_eq_false] at refused
      exact ⟨fun h => ⟨(Except.ok.inj h).symm, refused⟩, fun h => by rw [h.1]⟩
  | entries blob =>
    have kind := pairDict_first (φ := φ) "kind" "blob_hex" (.str (points "entries")) (.str (toHex blob))
    have found := pairDict_second (φ := φ) (show "kind" ≠ "blob_hex" by decide) (.str (points "entries"))
      (.str (toHex blob))
    have keys := pairDict_keys (φ := φ) (show "kind" ≠ "blob_hex" by decide) (.str (points "entries"))
      (.str (toHex blob))
    have named : ((pairDict (φ := φ) "kind" "blob_hex" (.str (points "entries")) (.str (toHex blob))).get?
        (points "kind")).bind asText = some (points "entries") := by rw [kind]; rfl
    have other : ¬(((pairDict (φ := φ) "kind" "blob_hex" (.str (points "entries")) (.str (toHex blob))).get?
        (points "kind")).bind asText = some (points "plan_path") ∧
          keysAre (pairDict (φ := φ) "kind" "blob_hex" (.str (points "entries")) (.str (toHex blob))) ["kind", "path"]) := by
      rw [named]
      exact fun h => kinds_differ (Option.some.inj h.1)
    have entries : textEntries (φ := φ) [(.str (points "kind"), .str (points "entries")),
        (.str (points "blob_hex"), .str (toHex blob))] =
          pairDict "kind" "blob_hex" (.str (points "entries")) (.str (toHex blob)) := rfl
    have even : (toHex blob).length % 2 = 0 := by rw [length_toHex]; omega
    have digits : (toHex blob).all isHexDigit = true := List.all_eq_true.mpr (toHex_digits blob)
    rw [VectorCase.value, readCase, entries, if_neg other, if_pos ⟨named, keys⟩, found, entriesCase]
    split_ifs with refused
    · refine ⟨fun h => (by cases h), fun h => ?_⟩
      obtain ⟨-, short, -⟩ := h
      rcases refused with long | odd | wrong
      · omega
      · exact absurd even odd
      · cases digits.symm.trans wrong
    · have short : (toHex blob).length ≤ 2048 := by
        by_contra long
        exact refused (.inl (not_le.mp long))
      rw [fromHex_toHex, blobCase_ok]
      exact ⟨fun h => ⟨h.1, short, h.2⟩, fun h => ⟨h.1, h.2.2⟩⟩

theorem readCases_value {index : ℕ} {vectors vectors' : PlanManifestVectors} :
    readCases (φ := φ) index (vectors.map VectorCase.value) = .ok vectors' ↔
      vectors' = vectors ∧ ∀ c ∈ vectors, c.InDomain := by
  induction vectors generalizing index vectors' with
  | nil => exact ⟨fun h => ⟨(Except.ok.inj h).symm, List.forall_mem_nil _⟩, fun h => by rw [h.1]; rfl⟩
  | cons c vectors ih =>
    rw [List.map_cons, readCases]
    simp only [bind_eq_ok, readCase_value, ih, List.forall_mem_cons]
    constructor
    · rintro ⟨c', ⟨rfl, here⟩, rest, ⟨rfl, later⟩, same⟩
      exact ⟨(Except.ok.inj same).symm, here, later⟩
    · rintro ⟨rfl, here, later⟩
      exact ⟨c, ⟨rfl, here⟩, vectors, ⟨rfl, later⟩, rfl⟩

/-- Vectors that `parse_vectors` accepts. -/
def Acceptable (vectors : PlanManifestVectors) : Prop :=
  1 ≤ vectors.length ∧ vectors.length ≤ 64 ∧ ∀ c ∈ vectors, c.InDomain

theorem vectorsOf_value {vectors vectors' : PlanManifestVectors} :
    vectorsOf (φ := φ) (documentValue vectors) = .ok vectors' ↔ vectors' = vectors ∧ Acceptable vectors := by
  have one := pairDict_first (φ := φ) "version" "cases" (.int 1) (.list (vectors.map VectorCase.value))
  have found := pairDict_second (φ := φ) (show "version" ≠ "cases" by decide) (.int 1)
    (.list (vectors.map VectorCase.value))
  have keys := pairDict_keys (φ := φ) (show "version" ≠ "cases" by decide) (.int 1)
    (.list (vectors.map VectorCase.value))
  have first : isOne ((pairDict (φ := φ) "version" "cases" (.int 1) (.list (vectors.map VectorCase.value))).get?
      (points "version")) = true := by rw [one]; rfl
  have entries : textEntries (φ := φ) [(.str (points "version"), .int 1),
      (.str (points "cases"), .list (vectors.map VectorCase.value))] =
        pairDict "version" "cases" (.int 1) (.list (vectors.map VectorCase.value)) := rfl
  rw [documentValue, vectorsOf, entries, if_pos ⟨keys, first⟩, found, countedCases, List.length_map]
  split_ifs with counted
  · rw [readCases_value]
    exact ⟨fun h => ⟨h.1, counted.1, counted.2, h.2⟩, fun h => ⟨h.1, h.2.2.2⟩⟩
  · exact ⟨fun h => (by cases h), fun h => absurd ⟨h.2.1, h.2.2.1⟩ counted⟩

/-! ## What is written -/

theorem points_toHex (blob : List UInt8) : points (String.ofList ((toHex blob).map Char.ofNat)) = toHex blob := by
  rw [points, String.toList_ofList, List.map_map]
  refine (List.map_congr_left fun c mem => ?_).trans (List.map_id _)
  have digit := toHex_digits blob c mem
  simp only [isHexDigit, Bool.or_eq_true, Bool.and_eq_true, decide_eq_true_eq] at digit
  exact toNat_ofNat (.inl (by omega))

theorem wireCase_value {c : VectorCase} {j : Json} (written : wireCase c = .ok j) :
    WireValue noFloats j ∧ Nests 1 j ∧ ofJson (φ := φ) j = c.value := by
  have pair : ∀ {a b s t : String}, a ≠ b → WireValue noFloats (.obj [(a, .str s), (b, .str t)]) ∧
      Nests 1 (.obj [(a, .str s), (b, .str t)]) := by
    intro a b s t other
    have each : ∀ e ∈ [(a, Json.str s), (b, Json.str t)], WireValue noFloats e.2 ∧ Nests 0 e.2 := by
      intro e mem
      simp only [List.mem_cons, List.not_mem_nil, or_false] at mem
      rcases mem with rfl | rfl
      · exact ⟨.str s, .str s⟩
      · exact ⟨.str t, .str t⟩
    exact ⟨.obj (by simpa using other) (fun e mem => (each e mem).1), .obj (fun e mem => (each e mem).2)⟩
  cases c with
  | planPath path =>
    simp only [wireCase, bind_eq_ok] at written
    obtain ⟨text, scalar, same⟩ := written
    cases same
    have whole : points text = path := by
      cases read : unicodeScalar path with
      | error e =>
        rw [read] at scalar
        cases scalar
      | ok text' =>
        rw [read] at scalar
        cases scalar
        exact points_of_scalar read
    obtain ⟨wire, nests⟩ := pair (s := "plan_path") (t := text) (show "kind" ≠ "path" by decide)
    refine ⟨wire, nests, ?_⟩
    simp only [ofJson, ofJsonMembers, VectorCase.value, whole]
  | entries blob =>
    cases written
    obtain ⟨wire, nests⟩ := pair (s := "entries") (t := String.ofList ((toHex blob).map Char.ofNat))
      (show "kind" ≠ "blob_hex" by decide)
    refine ⟨wire, nests, ?_⟩
    simp only [ofJson, ofJsonMembers, VectorCase.value, points_toHex]

theorem wireCases_value {vectors : PlanManifestVectors} {js : List Json} (written : wireCases vectors = .ok js) :
    (∀ j ∈ js, WireValue noFloats j ∧ Nests 1 j) ∧ js.map (ofJson (φ := φ)) = vectors.map VectorCase.value := by
  induction vectors generalizing js with
  | nil =>
    cases written
    exact ⟨List.forall_mem_nil _, rfl⟩
  | cons c vectors ih =>
    simp only [wireCases, bind_eq_ok] at written
    obtain ⟨j, here, rest, later, same⟩ := written
    cases same
    obtain ⟨wire, nests, value⟩ := wireCase_value (φ := φ) here
    obtain ⟨each, values⟩ := ih later
    exact ⟨List.forall_mem_cons.mpr ⟨⟨wire, nests⟩, each⟩, by rw [List.map_cons, List.map_cons, value, values]⟩

theorem document_value {vectors : PlanManifestVectors} {js : List Json} (written : wireCases vectors = .ok js) :
    WireValue noFloats (wireDocument js) ∧ Nests 3 (wireDocument js) ∧
      ofJson (φ := φ) (wireDocument js) = documentValue vectors := by
  obtain ⟨each, values⟩ := wireCases_value (φ := φ) written
  have members : ∀ e ∈ [("version", Json.int 1), ("cases", Json.arr js)], WireValue noFloats e.2 ∧ Nests 2 e.2 := by
    intro e mem
    simp only [List.mem_cons, List.not_mem_nil, or_false] at mem
    rcases mem with rfl | rfl
    · exact ⟨.int 1, .int 1⟩
    · exact ⟨.arr (fun j mem => (each j mem).1), .arr (fun j mem => (each j mem).2)⟩
  refine ⟨.obj (by simp) (fun e mem => (members e mem).1), .obj (fun e mem => (members e mem).2), ?_⟩
  simp only [wireDocument, ofJson, ofJsonMembers, ofJsonItems_eq, values, documentValue]

end Constructicon
