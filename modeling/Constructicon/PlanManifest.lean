import Mathlib.Tactic
import Mathlib.Data.List.DropRight
import Constructicon.Commands
import Constructicon.Library.Dict
import Constructicon.Library.PosixPath
import Constructicon.Library.Utf8

/-!
# The plan manifest and its oracle

`plan_path` and `entries` read the manifest of the frozen plans with the path, line and whitespace rules
of the library. `reference_path` and `reference_entries` say the same lexically, for the exam that
generates tests of the former. On short ASCII texts, and on bytes that are no text, the two agree.
-/

namespace Constructicon.PlanManifest

open PosixPath

-- A condition on the members of a list is decided along the list.
local instance (priority := 2000) linesDecidable {α : Type} (p : α → Prop) [DecidablePred p] (l : List α) :
    Decidable (∀ x ∈ l, p x) := List.decidableBAll p l

local instance (priority := 2000) digitsDecidable {α : Type} (p : α → Prop) [DecidablePred p] (l : List α) :
    Decidable (∃ x ∈ l, p x) := List.decidableBEx p l

inductive ManifestError where
  /-- `UnicodeDecodeError` -/
  | unicodeDecode
  | valueError (text : List Char)
  /-- `VectorRefusal`, with its code -/
  | refusal (code : String)
deriving DecidableEq

abbrev Digests := Dict (List Char) (List Char)

/-- `MARKERS` -/
def markers : List (List Char) :=
  [List.replicate 7 '<', List.replicate 7 '|', List.replicate 7 '=', List.replicate 7 '>']

def startsWithMarker (line : List Char) : Bool := markers.any (·.isPrefixOf line)

/-! ## The target -/

/-- `str.splitlines`: the lines, of which `line` is read so far. -/
def linesFrom (line : List Char) : List Char → List (List Char)
  | [] => if line = [] then [] else [line]
  | '\r' :: '\n' :: rest => line :: linesFrom [] rest
  | c :: rest =>
    if c ∈ ['\n', '\r', '\x0b', '\x0c', '\x1c', '\x1d', '\x1e', '\u0085', '\u2028', '\u2029'] then
      line :: linesFrom [] rest
    else linesFrom (line ++ [c]) rest

def splitlines (text : List Char) : List (List Char) := linesFrom [] text

/-- `str.strip` -/
def strip (text : List Char) : List Char := (text.dropWhile isSpace).rdropWhile isSpace

/-- `line.split("  ", 1)`, when there are two parts. -/
def splitDelimiter : List Char → Option (List Char × List Char)
  | ' ' :: ' ' :: rest => some ([], rest)
  | c :: rest => (splitDelimiter rest).map fun parts => (c :: parts.1, parts.2)
  | [] => none

/-- `[0-9a-f]` -/
def isDigestChar (c : Char) : Bool := ('0' ≤ c ∧ c ≤ '9') ∨ ('a' ≤ c ∧ c ≤ 'f')

/-- `plan_path` -/
def planPath (path : List Char) : Bool :=
  ¬ isAbsolute path ∧ asPosix path = path ∧ ['.', '.'] ∉ parts path ∧ '\\' ∉ path ∧ ':' ∉ path ∧
    '\n' ∉ path ∧ '\r' ∉ path ∧ suffix path = ['.', 'm', 'd']

def addEntry (found : Digests) (line digest path : List Char) : Except ManifestError Digests :=
  if ¬ (digest.length = 64 ∧ digest.all isDigestChar) ∨ ¬ planPath path then
    .error (.valueError ("invalid manifest entry: ".toList ++ line))
  else if found.contains path then .error (.valueError ("duplicate manifest entry: ".toList ++ path))
  else .ok (found.insert path digest)

/-- A turn of the loop of `entries`. -/
def entriesLine (found : Digests) (line : List Char) : Except ManifestError Digests :=
  if startsWithMarker line then .error (.valueError "resolve manifest conflicts explicitly before refresh".toList)
  else if strip line = [] then .ok found
  else
    match splitDelimiter line with
    | none => .error (.valueError "not enough values to unpack (expected 2, got 1)".toList)
    | some (digest, path) => addEntry found line digest path

/-- `entries` -/
def entries (blob : List UInt8) : Except ManifestError Digests :=
  match Utf8.decode blob with
  | none => .error .unicodeDecode
  | some text => (splitlines text).foldlM entriesLine .empty

/-! ## The oracle -/

def isAscii (text : List Char) : Bool := text.all fun c => c.toNat < 128

/-- `_path_lexical` -/
def pathLexical (path : List Char) : Bool :=
  let segments := path.splitOn '/'
  let last := segments.getLast?.getD []
  path ≠ [] ∧ path.head? ≠ some '/' ∧ (∀ c ∈ ['\\', ':', '\n', '\r'], c ∉ path) ∧
    (∀ part ∈ segments, part ∉ [[], ['.'], ['.', '.']]) ∧
    ['.', 'm', 'd'].isSuffixOf last ∧ ∃ i ∈ rfind last '.', 0 < i

/-- `reference_path` -/
def referencePath (path : List Char) : Except ManifestError Bool :=
  if path.length > 256 ∨ ¬ isAscii path then .error (.refusal "path_domain") else .ok (pathLexical path)

def endsLine (c : Char) : Bool := c ∈ ['\n', '\r', '\x0b', '\x0c', '\x1c', '\x1d', '\x1e']

/-- The loop of `_ascii_lines`. -/
def asciiLinesLoop (text : List Char) (start index : ℕ) (lines : List (List Char)) : List (List Char) :=
  if inside : index < text.length then
    if endsLine text[index] then
      let last := if (text.drop index).take 2 = ['\r', '\n'] then index + 1 else index
      asciiLinesLoop text (last + 1) (last + 1) (lines ++ [(text.take index).drop start])
    else asciiLinesLoop text start (index + 1) lines
  else if start < text.length then lines ++ [text.drop start]
  else lines
termination_by text.length - index
decreasing_by
  · split_ifs <;> omega
  · omega

/-- `_ascii_lines` -/
def asciiLines (text : List Char) : List (List Char) := asciiLinesLoop text 0 0 []

def isBlank (line : List Char) : Bool :=
  line.all fun c => c ∈ [' ', '\t', '\n', '\r', '\x0b', '\x0c', '\x1c', '\x1d', '\x1e', '\x1f']

/-- `line.find("  ")` -/
def findDelimiter : List Char → Option ℕ
  | ' ' :: ' ' :: _ => some 0
  | _ :: rest => (findDelimiter rest).map (· + 1)
  | [] => none

def hexDigits : List Char := ['0', '1', '2', '3', '4', '5', '6', '7', '8', '9', 'a', 'b', 'c', 'd', 'e', 'f']

/-- A turn of the loop of `reference_entries`. -/
def referenceLine (found : Digests) (line : List Char) : Except ManifestError Digests :=
  if startsWithMarker line then .error (.valueError "manifest conflict".toList)
  else if isBlank line then .ok found
  else
    match findDelimiter line with
    | none => .error (.valueError "manifest delimiter".toList)
    | some delimiter =>
      let digest := line.take delimiter
      let path := line.drop (delimiter + 2)
      if digest.length ≠ 64 ∨ (∃ c ∈ digest, c ∉ hexDigits) ∨ ¬ pathLexical path ∨ found.contains path then
        .error (.valueError "manifest entry".toList)
      else .ok (found.insert path digest)

/-- What `reference_entries` makes of the text. -/
def referenceText (text : List Char) : Except ManifestError Digests :=
  if ¬ isAscii text then .error (.refusal "blob_domain")
  else
    match (asciiLines text).foldlM referenceLine .empty with
    | .error e => .error e
    | .ok found => if found.entries.length > 16 then .error (.refusal "entries_bound") else .ok found

/-- `reference_entries` -/
def referenceEntries (blob : List UInt8) : Except ManifestError Digests :=
  if blob.length > 1024 then .error (.refusal "blob_domain")
  else
    match Utf8.decode blob with
    | none => .error .unicodeDecode
    | some text => referenceText text

/-! ## Paths -/

theorem kept_of_plain {part : List Char} (plain : part ∉ [[], ['.'], ['.', '.']]) : kept part = true := by
  simp only [List.mem_cons, List.not_mem_nil, or_false, not_or] at plain
  simpa only [kept, decide_eq_true_eq] using ⟨plain.1, plain.2.1⟩

theorem segments_of_kept {path : List Char} (relative : root path = [])
    (all : ∀ part ∈ path.splitOn '/', kept part = true) : segments path = path.splitOn '/' := by
  rw [segments_relative relative, List.filter_eq_self.mpr all]

theorem planPath_eq (path : List Char) : planPath path = pathLexical path := by
  rw [Bool.eq_iff_iff]
  simp only [planPath, pathLexical, decide_eq_true_eq]
  constructor
  · rintro ⟨relative, same, parents, slash, colon, newline, carriage, md⟩
    have rootless : root path = [] := by simpa [isAbsolute] using relative
    have some_segment : segments path ≠ [] := by
      intro none
      rw [suffix, name, none] at md
      cases md
    have all := (asPosix_eq_self rootless some_segment).mp same
    have whole := segments_of_kept rootless all
    rw [parts, if_pos rootless, whole] at parents
    rw [suffix, name, whole] at md
    have extended := (extension_eq (by simp) (by decide)).mp md
    refine ⟨?_, root_eq_nil.mp rootless, by simp [slash, colon, newline, carriage], ?_, extended⟩
    · rintro rfl
      have empty := all [] (by simp)
      simp [kept] at empty
    · intro part mem
      have good := all part mem
      simp only [kept, decide_eq_true_eq] at good
      have inner : part ≠ ['.', '.'] := fun dots => parents (dots ▸ mem)
      simp [good.1, good.2, inner]
  · rintro ⟨-, head, characters, plain, extended⟩
    have rootless := root_eq_nil.mpr head
    have all : ∀ part ∈ path.splitOn '/', kept part = true := fun part mem => kept_of_plain (plain part mem)
    have whole := segments_of_kept rootless all
    have some_segment : segments path ≠ [] := by
      rw [whole]
      exact List.splitOn_ne_nil '/' path
    refine ⟨by simp [isAbsolute, rootless], (asPosix_eq_self rootless some_segment).mpr all, ?_, characters _ (by simp),
      characters _ (by simp), characters _ (by simp), characters _ (by simp), ?_⟩
    · rw [parts, if_pos rootless, whole]
      intro dots
      exact plain _ dots (by simp)
    · rw [suffix, name, whole]
      exact (extension_eq (by simp) (by decide)).mpr extended

/-! ## Characters -/

theorem ascii_cases {P : Char → Prop} (all : ∀ n : Fin 128, P (Char.ofNat n)) {c : Char} (ascii : c.toNat < 128) :
    P c := by
  have holds := all ⟨c.toNat, ascii⟩
  rwa [Char.ofNat_toNat] at holds

theorem endsLine_eq {c : Char} (ascii : c.toNat < 128) :
    endsLine c = decide (c ∈ ['\n', '\r', '\x0b', '\x0c', '\x1c', '\x1d', '\x1e', '\u0085', '\u2028', '\u2029']) := by
  revert ascii
  apply ascii_cases
  decide

theorem isSpace_eq {c : Char} (ascii : c.toNat < 128) :
    isSpace c = decide (c ∈ [' ', '\t', '\n', '\r', '\x0b', '\x0c', '\x1c', '\x1d', '\x1e', '\x1f']) := by
  revert ascii
  apply ascii_cases
  decide

theorem isDigestChar_eq {c : Char} (ascii : c.toNat < 128) : isDigestChar c = decide (c ∈ hexDigits) := by
  revert ascii
  apply ascii_cases
  decide

theorem strip_eq_nil {text : List Char} : strip text = [] ↔ ∀ c ∈ text, isSpace c = true := by
  have inner : text.dropWhile isSpace = [] ↔ ∀ c ∈ text, isSpace c = true := List.dropWhile_eq_nil_iff
  rw [← inner, strip, List.rdropWhile_eq_nil_iff]
  constructor
  · intro all
    by_contra some_char
    have first := List.dropWhile_get_zero_not isSpace text (List.length_pos_of_ne_nil some_char)
    exact first (all _ (List.getElem_mem _))
  · intro empty
    rw [empty]
    simp

/-! ## Lines -/

theorem linesFrom_cons {line : List Char} {c : Char} {rest : List Char} (single : ¬ (c = '\r' ∧ rest.head? = some '\n')) :
    linesFrom line (c :: rest) =
      if c ∈ ['\n', '\r', '\x0b', '\x0c', '\x1c', '\x1d', '\x1e', '\u0085', '\u2028', '\u2029'] then
        line :: linesFrom [] rest
      else linesFrom (line ++ [c]) rest := by
  rw [linesFrom]
  rintro tail rfl rfl
  exact single ⟨rfl, rfl⟩

theorem asciiLinesLoop_eq {text : List Char} (ascii : isAscii text = true) (start index : ℕ)
    (lines : List (List Char)) (order : start ≤ index) (bound : index ≤ text.length) :
    asciiLinesLoop text start index lines =
      lines ++ linesFrom ((text.take index).drop start) (text.drop index) := by
  induction start, index, lines using asciiLinesLoop.induct text with
  | case1 start index lines inside ends last ih =>
    rw [asciiLinesLoop, dif_pos inside, if_pos ends]
    have here : text.drop index = text[index] :: text.drop (index + 1) := List.drop_eq_getElem_cons inside
    have blank : ∀ place, (text.take place).drop place = [] := fun place => by simp
    by_cases pair : (text.drop index).take 2 = ['\r', '\n']
    · have next : last = index + 1 := if_pos pair
      have length := congrArg List.length pair
      simp only [List.length_take, List.length_drop, List.length_cons, List.length_nil] at length
      have both : text.drop index = '\r' :: '\n' :: text.drop (index + 1 + 1) := by
        have halves := List.take_append_drop 2 (text.drop index)
        rw [pair, List.drop_drop] at halves
        exact halves.symm
      rw [next] at ih
      rw [if_pos pair, ih le_rfl (by omega), blank, both, linesFrom, List.append_assoc]
      rfl
    · have next : last = index := if_neg pair
      have single : ¬ (text[index] = '\r' ∧ (text.drop (index + 1)).head? = some '\n') := by
        rintro ⟨carriage, newline⟩
        obtain ⟨tail, rest⟩ := List.head?_eq_some_iff.mp newline
        rw [here, carriage, rest] at pair
        exact pair rfl
      have boundary := ends
      rw [endsLine_eq (of_decide_eq_true (List.all_eq_true.mp ascii _ (List.getElem_mem inside))),
        decide_eq_true_eq] at boundary
      rw [next] at ih
      rw [if_neg pair, ih le_rfl (by omega), blank, here, linesFrom_cons single, if_pos boundary, List.append_assoc]
      rfl
  | case2 start index lines inside inner ih =>
    have here : text.drop index = text[index] :: text.drop (index + 1) := List.drop_eq_getElem_cons inside
    have other := inner
    rw [endsLine_eq (of_decide_eq_true (List.all_eq_true.mp ascii _ (List.getElem_mem inside))),
      decide_eq_true_eq] at other
    have single : ¬ (text[index] = '\r' ∧ (text.drop (index + 1)).head? = some '\n') := by
      rintro ⟨carriage, -⟩
      rw [carriage] at other
      exact other (by simp)
    have grown : (text.take (index + 1)).drop start = (text.take index).drop start ++ [text[index]] := by
      rw [List.take_succ_eq_append_getElem inside, List.drop_append_of_le_length]
      simp only [List.length_take]
      omega
    rw [asciiLinesLoop, dif_pos inside, if_neg inner, ih (by omega) (by omega), grown, here, linesFrom_cons single,
      if_neg other]
  | case3 start index lines outside more =>
    have all : index = text.length := by omega
    rw [asciiLinesLoop, dif_neg outside, if_pos more, all, List.take_length, List.drop_length, linesFrom, if_neg]
    intro none
    have short := List.drop_eq_nil_iff.mp none
    omega
  | case4 start index lines outside done =>
    have all : index = text.length := by omega
    rw [asciiLinesLoop, dif_neg outside, if_neg done, all, List.take_length, List.drop_length, linesFrom,
      if_pos (List.drop_eq_nil_iff.mpr (by omega)), List.append_nil]

/-- The oracle reads the lines of an ASCII text as `splitlines` does. -/
theorem asciiLines_eq {text : List Char} (ascii : isAscii text = true) : asciiLines text = splitlines text := by
  rw [asciiLines, asciiLinesLoop_eq ascii 0 0 [] le_rfl (Nat.zero_le _)]
  rfl

theorem mem_linesFrom {line text : List Char} {l : List Char} (mem : l ∈ linesFrom line text) {c : Char} (has : c ∈ l) :
    c ∈ line ∨ c ∈ text := by
  induction line, text using linesFrom.induct with
  | case1 => simp [linesFrom] at mem
  | case2 line some_char =>
    rw [linesFrom, if_neg some_char, List.mem_singleton] at mem
    exact .inl (mem ▸ has)
  | case3 line rest ih =>
    rw [linesFrom] at mem
    rcases List.mem_cons.mp mem with rfl | mem
    · exact .inl has
    · rcases ih mem with inside | inside
      · cases inside
      · exact .inr (by simp [inside])
  | case4 line c' rest single boundary ih =>
    rw [linesFrom, if_pos boundary] at mem
    rcases List.mem_cons.mp mem with rfl | mem
    · exact .inl has
    · rcases ih mem with inside | inside
      · cases inside
      · exact .inr (List.mem_cons_of_mem _ inside)
    · exact single
  | case5 line c' rest single inner ih =>
    rw [linesFrom, if_neg inner] at mem
    rcases ih mem with inside | inside
    · rcases List.mem_append.mp inside with inside | inside
      · exact .inl inside
      · exact .inr (List.mem_singleton.mp inside ▸ List.mem_cons_self)
    · exact .inr (List.mem_cons_of_mem _ inside)
    · exact single

theorem length_linesFrom (line text : List Char) :
    ((linesFrom line text).map List.length).sum ≤ line.length + text.length := by
  induction line, text using linesFrom.induct with
  | case1 => simp [linesFrom]
  | case2 line some_char => simp [linesFrom, some_char]
  | case3 line rest ih =>
    rw [linesFrom, List.map_cons, List.sum_cons, List.length_cons, List.length_cons]
    rw [List.length_nil] at ih
    omega
  | case4 line c' rest single boundary ih =>
    rw [linesFrom, if_pos boundary, List.map_cons, List.sum_cons, List.length_cons]
    · rw [List.length_nil] at ih
      omega
    · exact single
  | case5 line c' rest single inner ih =>
    rw [linesFrom, if_neg inner, List.length_cons]
    · rw [List.length_append, List.length_singleton] at ih
      omega
    · exact single

/-! ## Entries -/

/-- The two return the same, or both raise an ordinary `ValueError`. -/
inductive Agree : Except ManifestError Digests → Except ManifestError Digests → Prop
  | returned (found : Digests) : Agree (.ok found) (.ok found)
  | raised (text text' : List Char) : Agree (.error (.valueError text)) (.error (.valueError text'))

theorem findDelimiter_split (line : List Char) :
    splitDelimiter line = (findDelimiter line).map fun i => (line.take i, line.drop (i + 2)) := by
  induction line using splitDelimiter.induct with
  | case1 rest => rfl
  | case2 c rest single ih =>
    rw [splitDelimiter, findDelimiter, ih, Option.map_map, Option.map_map]
    · rfl
    · exact single
    · exact single
  | case3 => rfl

theorem digest_eq {digest : List Char} (ascii : ∀ c ∈ digest, c.toNat < 128) :
    digest.all isDigestChar = true ↔ ¬ ∃ c ∈ digest, c ∉ hexDigits := by
  rw [List.all_eq_true]
  push Not
  apply forall₂_congr
  intro c mem
  rw [isDigestChar_eq (ascii c mem), decide_eq_true_eq]

theorem addEntry_agree (found : Digests) (line : List Char) {digest path : List Char}
    (ascii : ∀ c ∈ digest, c.toNat < 128) :
    Agree (addEntry found line digest path)
      (if digest.length ≠ 64 ∨ (∃ c ∈ digest, c ∉ hexDigits) ∨ ¬ pathLexical path ∨ found.contains path then
        .error (.valueError "manifest entry".toList)
      else .ok (found.insert path digest)) := by
  have digits := digest_eq ascii
  unfold addEntry
  rw [planPath_eq]
  by_cases entry : (digest.length = 64 ∧ digest.all isDigestChar = true) ∧ pathLexical path = true
  · rw [if_neg (not_or.mpr ⟨not_not.mpr entry.1, not_not.mpr entry.2⟩)]
    by_cases twice : found.contains path = true
    · rw [if_pos twice, if_pos (.inr (.inr (.inr twice)))]
      exact .raised _ _
    · rw [if_neg twice, if_neg]
      · exact .returned _
      · rintro (short | wrong | outside | again)
        · exact short entry.1.1
        · exact digits.mp entry.1.2 wrong
        · exact outside entry.2
        · exact twice again
  · rw [if_pos (Decidable.not_and_iff_not_or_not.mp entry), if_pos]
    · exact .raised _ _
    · by_contra fine
      simp only [not_or, not_not, ne_eq] at fine
      exact entry ⟨⟨fine.1, digits.mpr fine.2.1⟩, fine.2.2.1⟩

theorem isBlank_eq {line : List Char} (ascii : ∀ c ∈ line, c.toNat < 128) : isBlank line = true ↔ strip line = [] := by
  rw [strip_eq_nil, isBlank, List.all_eq_true]
  apply forall₂_congr
  intro c mem
  rw [isSpace_eq (ascii c mem)]

theorem line_agree (found : Digests) {line : List Char} (ascii : ∀ c ∈ line, c.toNat < 128) :
    Agree (entriesLine found line) (referenceLine found line) := by
  unfold entriesLine referenceLine
  by_cases marked : startsWithMarker line = true
  · rw [if_pos marked, if_pos marked]
    exact .raised _ _
  · rw [if_neg marked, if_neg marked]
    by_cases blank : isBlank line = true
    · rw [if_pos blank, if_pos ((isBlank_eq ascii).mp blank)]
      exact .returned _
    · rw [if_neg blank, if_neg (fun empty => blank ((isBlank_eq ascii).mpr empty)), findDelimiter_split]
      cases findDelimiter line with
      | none => exact .raised _ _
      | some delimiter => exact addEntry_agree found line fun c mem => ascii c (List.mem_of_mem_take mem)

theorem lines_agree {lines : List (List Char)} (ascii : ∀ line ∈ lines, ∀ c ∈ line, c.toNat < 128) (found : Digests) :
    Agree (lines.foldlM entriesLine found) (lines.foldlM referenceLine found) := by
  induction lines generalizing found with
  | nil => exact .returned found
  | cons line lines ih =>
    rw [List.foldlM_cons, List.foldlM_cons]
    have turn := line_agree found (ascii line List.mem_cons_self)
    generalize entriesLine found line = a at turn ⊢
    generalize referenceLine found line = b at turn ⊢
    cases turn with
    | returned found => exact ih (fun l mem => ascii l (List.mem_cons_of_mem _ mem)) found
    | raised text text' => exact .raised text text'

theorem findDelimiter_lt {line : List Char} {i : ℕ} (place : findDelimiter line = some i) : i + 2 ≤ line.length := by
  induction line using findDelimiter.induct generalizing i with
  | case1 rest =>
    rw [findDelimiter] at place
    obtain rfl := Option.some.inj place
    simp
  | case2 c rest single ih =>
    rw [findDelimiter] at place
    · obtain ⟨j, inner, rfl⟩ := Option.map_eq_some_iff.mp place
      have bound := ih inner
      rw [List.length_cons]
      omega
    · exact single
  | case3 => cases place

theorem referenceLine_size {found next : Digests} {line : List Char} (goes : referenceLine found line = .ok next) :
    66 * next.entries.length ≤ 66 * found.entries.length + line.length := by
  unfold referenceLine at goes
  split_ifs at goes with marked blank
  · cases goes
    omega
  · cases place : findDelimiter line with
    | none =>
      rw [place] at goes
      cases goes
    | some delimiter =>
      rw [place] at goes
      dsimp only at goes
      split_ifs at goes with wrong
      cases goes
      simp only [not_or, not_not, ne_eq] at wrong
      have long := findDelimiter_lt place
      have digits := wrong.1
      rw [List.length_take] at digits
      have fresh : line.drop (delimiter + 2) ∉ found.keys := by
        rw [Dict.notMem_keys_iff]
        simpa [Dict.contains] using wrong.2.2.2
      rw [Dict.entries_insert_new fresh, List.length_append, List.length_singleton]
      omega

theorem lines_size {lines : List (List Char)} {found next : Digests} (goes : lines.foldlM referenceLine found = .ok next) :
    66 * next.entries.length ≤ 66 * found.entries.length + (lines.map List.length).sum := by
  induction lines generalizing found with
  | nil =>
    cases goes
    exact Nat.le_add_right _ _
  | cons line lines ih =>
    rw [List.foldlM_cons] at goes
    cases turn : referenceLine found line with
    | error e =>
      rw [turn] at goes
      cases goes
    | ok middle =>
      rw [turn] at goes
      have first := referenceLine_size turn
      have others := ih goes
      rw [List.map_cons, List.sum_cons]
      omega

theorem text_agree {text : List Char} (ascii : ∀ c ∈ text, c.toNat < 128) (short : text.length ≤ 1024) :
    Agree ((splitlines text).foldlM entriesLine .empty) (referenceText text) := by
  have plain : isAscii text = true := by simpa [isAscii] using ascii
  have agree : Agree ((splitlines text).foldlM entriesLine .empty) ((splitlines text).foldlM referenceLine .empty) := by
    apply lines_agree
    intro line mem c has
    rcases mem_linesFrom mem has with inside | inside
    · cases inside
    · exact ascii c inside
  have few := @lines_size (splitlines text) .empty
  rw [referenceText, if_neg (by simp [plain]), asciiLines_eq plain]
  generalize (splitlines text).foldlM entriesLine Dict.empty = a at agree ⊢
  generalize (splitlines text).foldlM referenceLine Dict.empty = b at agree few ⊢
  cases agree with
  | raised text text' => exact .raised text text'
  | returned found =>
    have size := few rfl
    have total := length_linesFrom [] text
    rw [← splitlines] at total
    rw [Dict.entries_empty, List.length_nil] at size
    rw [List.length_nil] at total
    dsimp only
    rw [if_neg (by omega)]
    exact .returned found

/-! ## The exam -/

inductive VectorCase where
  /-- `PlanPathCase` -/
  | planPath (path : List Char)
  /-- `EntriesCase` -/
  | entries (blob : List UInt8)

inductive Expected where
  | raises (name : String)
  | accepts (answer : Bool)
  | returns (found : Digests)
deriving DecidableEq

def expectedError : ManifestError → Except ManifestError Expected
  | .unicodeDecode => .ok (.raises "UnicodeDecodeError")
  | .refusal code => .error (.refusal code)
  | .valueError _ => .ok (.raises "ValueError")

/-- `_expected` -/
def expected : VectorCase → Except ManifestError Expected
  | .planPath path =>
    match referencePath path with
    | .ok answer => .ok (.accepts answer)
    | .error e => expectedError e
  | .entries blob =>
    match referenceEntries blob with
    | .ok found => .ok (.returns found)
    | .error e => expectedError e

def observed : VectorCase → Except ManifestError Expected
  | .planPath path => .ok (.accepts (planPath path))
  | .entries blob =>
    match entries blob with
    | .ok found => .ok (.returns found)
    | .error e => expectedError e

def VectorCase.InDomain : VectorCase → Prop
  | .planPath path => path.length ≤ 256 ∧ ∀ c ∈ path, c.toNat < 128
  | .entries blob => blob.length ≤ 1024 ∧ ((∀ b ∈ blob, b < 128) ∨ Utf8.decode blob = none)

theorem referencePath_eq {path : List Char} (short : path.length ≤ 256) (ascii : ∀ c ∈ path, c.toNat < 128) :
    referencePath path = .ok (planPath path) := by
  have plain : isAscii path = true := by simpa [isAscii] using ascii
  rw [referencePath, if_neg (by simp only [plain]; simp; omega), planPath_eq]

/-- The oracle raises a `UnicodeDecodeError` with the target, or agrees with it. -/
theorem referenceEntries_agree {blob : List UInt8} (short : blob.length ≤ 1024)
    (text : (∀ b ∈ blob, b < 128) ∨ Utf8.decode blob = none) :
    (entries blob = .error .unicodeDecode ∧ referenceEntries blob = .error .unicodeDecode) ∨
      Agree (entries blob) (referenceEntries blob) := by
  rw [referenceEntries, if_neg (by omega), entries]
  cases read : Utf8.decode blob with
  | none => exact .inl ⟨rfl, rfl⟩
  | some decoded =>
    right
    have bytes := Utf8.decode_eq_some.mp read
    have ascii : ∀ c ∈ decoded, c.toNat < 128 := by
      rcases text with ascii | broken
      · exact Utf8.ascii_of_encode (bytes ▸ ascii)
      · rw [read] at broken
        cases broken
    have size := Utf8.length_le_encode decoded
    rw [bytes] at size
    exact text_agree ascii (by omega)

theorem expected_observed {c : VectorCase} (domain : c.InDomain) :
    ∃ outcome, expected c = .ok outcome ∧ observed c = .ok outcome := by
  cases c with
  | planPath path => exact ⟨.accepts (planPath path), by rw [expected, referencePath_eq domain.1 domain.2], rfl⟩
  | entries blob =>
    rcases referenceEntries_agree domain.1 domain.2 with ⟨target, oracle⟩ | agree
    · exact ⟨.raises "UnicodeDecodeError", by rw [expected, oracle]; rfl, by rw [observed, target]; rfl⟩
    · simp only [expected, observed]
      generalize entries blob = a at agree ⊢
      generalize referenceEntries blob = b at agree ⊢
      cases agree with
      | returned found => exact ⟨.returns found, rfl, rfl⟩
      | raised text text' => exact ⟨.raises "ValueError", rfl, rfl⟩

/-- The oracle is the target: on every short ASCII path, and on every short blob that is ASCII or no text, where
nothing is refused. -/
theorem oracle_is_target :
    (∀ path : List Char, path.length ≤ 256 → (∀ c ∈ path, c.toNat < 128) → referencePath path = .ok (planPath path)) ∧
      ∀ blob : List UInt8, blob.length ≤ 1024 → ((∀ b ∈ blob, b < 128) ∨ Utf8.decode blob = none) →
        (∃ found, entries blob = .ok found ∧ referenceEntries blob = .ok found) ∨
          (entries blob = .error .unicodeDecode ∧ referenceEntries blob = .error .unicodeDecode) ∨
          ∃ text text', entries blob = .error (.valueError text) ∧ referenceEntries blob = .error (.valueError text') := by
  refine ⟨fun path short ascii => referencePath_eq short ascii, fun blob short text => ?_⟩
  rcases referenceEntries_agree short text with both | agree
  · exact .inr (.inl both)
  · generalize entries blob = a at agree ⊢
    generalize referenceEntries blob = b at agree ⊢
    cases agree with
    | returned found => exact .inl ⟨found, rfl, rfl⟩
    | raised text text' => exact .inr (.inr ⟨text, text', rfl, rfl⟩)

/-- A relative Markdown path, and an empty manifest. -/
theorem oracle_is_target_sample :
    referencePath "handoffs/NEW.md".toList = .ok (planPath "handoffs/NEW.md".toList) ∧
      ((∃ found, entries [10] = .ok found ∧ referenceEntries [10] = .ok found) ∨
        (entries [10] = .error .unicodeDecode ∧ referenceEntries [10] = .error .unicodeDecode) ∨
        ∃ text text', entries [10] = .error (.valueError text) ∧ referenceEntries [10] = .error (.valueError text')) :=
  ⟨oracle_is_target.1 "handoffs/NEW.md".toList (by decide) (by decide),
    oracle_is_target.2 [10] (by decide) (.inl (by decide))⟩

end Constructicon.PlanManifest
