import Mathlib.Tactic

/-!
# Pure POSIX paths

`PurePosixPath` of a text: its root, and its segments without the empty ones and the single dots. A
relative text is the spelling of its own path exactly when no segment of it was dropped.
-/

namespace PosixPath

/-- The root: two leading slashes are a root of their own, any other number is one slash. -/
def root (path : List Char) : List Char :=
  match (path.takeWhile (· = '/')).length with
  | 0 => []
  | 2 => ['/', '/']
  | _ => ['/']

def kept (segment : List Char) : Bool := segment ≠ [] ∧ segment ≠ ['.']

def segments (path : List Char) : List (List Char) := ((path.dropWhile (· = '/')).splitOn '/').filter kept

def isAbsolute (path : List Char) : Bool := root path ≠ []

def parts (path : List Char) : List (List Char) :=
  if root path = [] then segments path else root path :: segments path

def asPosix (path : List Char) : List Char :=
  let text := root path ++ ['/'].intercalate (segments path)
  if text = [] then ['.'] else text

def name (path : List Char) : List Char := (segments path).getLast?.getD []

def rfind (text : List Char) (c : Char) : Option ℕ := (text.reverse.idxOf? c).map fun i => text.length - 1 - i

/-- The extension of a name: from its last dot, which neither begins nor ends it. -/
def extension (name : List Char) : List Char :=
  match rfind name '.' with
  | some i => if 0 < i ∧ i < name.length - 1 then name.drop i else []
  | none => []

def suffix (path : List Char) : List Char := extension (name path)

example : asPosix "a//b/./c.md".toList = "a/b/c.md".toList ∧ parts "//a".toList = ["//".toList, "a".toList] ∧
    suffix "a/b.tar.md".toList = ".md".toList ∧ suffix "a/.md".toList = [] := by decide

/-! ## Relative paths -/

theorem root_eq_nil {path : List Char} : root path = [] ↔ path.head? ≠ some '/' := by
  cases path with
  | nil => simp [root]
  | cons c rest =>
    by_cases slash : c = '/'
    · subst slash
      simp only [root, List.takeWhile_cons, decide_true, if_true, List.length_cons, List.head?_cons, ne_eq,
        not_true_eq_false, iff_false]
      split
      · omega
      · simp
      · simp
    · simp [root, slash]

theorem segments_relative {path : List Char} (relative : root path = []) :
    segments path = (path.splitOn '/').filter kept := by
  have head := root_eq_nil.mp relative
  unfold segments
  cases path with
  | nil => rfl
  | cons c rest =>
    have other : c ≠ '/' := fun slash => head (by rw [slash]; rfl)
    rw [List.dropWhile_cons_of_neg (by simpa using other)]

theorem not_mem_of_mem_splitOn {c : Char} {text part : List Char} (mem : part ∈ text.splitOn c) : c ∉ part := by
  induction text generalizing part with
  | nil =>
    rw [List.splitOn_nil, List.mem_singleton] at mem
    subst mem
    exact List.not_mem_nil
  | cons x rest ih =>
    rw [List.splitOn_cons_eq_if_modifyHead] at mem
    split_ifs at mem with separator
    · rcases List.mem_cons.mp mem with rfl | mem
      · exact List.not_mem_nil
      · exact ih mem
    · obtain ⟨first, others, split⟩ := List.exists_cons_of_ne_nil (List.splitOn_ne_nil c rest)
      rw [split, List.modifyHead_cons] at mem
      rcases List.mem_cons.mp mem with rfl | mem
      · intro inside
        rcases List.mem_cons.mp inside with rfl | inside
        · simp at separator
        · exact ih (by rw [split]; exact List.mem_cons_self) inside
      · exact ih (by rw [split]; exact List.mem_cons_of_mem _ mem)

theorem asPosix_eq_self {path : List Char} (relative : root path = []) (some_segment : segments path ≠ []) :
    asPosix path = path ↔ ∀ part ∈ path.splitOn '/', kept part = true := by
  have kept_segments := segments_relative relative
  have some_text : ['/'].intercalate (segments path) ≠ [] := by
    obtain ⟨first, others, split⟩ := List.exists_cons_of_ne_nil some_segment
    have inside : first ∈ (path.splitOn '/').filter kept := by
      rw [← kept_segments, split]
      exact List.mem_cons_self
    have holds : first ≠ [] := by
      have good := List.of_mem_filter inside
      simp only [kept, decide_eq_true_eq] at good
      exact good.1
    rw [split]
    cases others with
    | nil => simpa using holds
    | cons second others => simp
  simp only [asPosix, relative, List.nil_append, if_neg some_text]
  rw [kept_segments]
  constructor
  · intro same part mem
    have dropped : (path.splitOn '/').filter kept = path.splitOn '/' := by
      have whole := List.splitOn_intercalate '/'
        (fun l inside => not_mem_of_mem_splitOn (List.mem_of_mem_filter inside)) (kept_segments ▸ some_segment)
      rw [same] at whole
      exact whole.symm
    exact List.filter_eq_self.mp dropped part mem
  · intro all
    rw [List.filter_eq_self.mpr all]
    exact List.intercalate_splitOn '/'

/-! ## Extensions -/

theorem rfind_append {c : Char} (front : List Char) {back : List Char} (last : c ∉ back) :
    rfind (front ++ c :: back) c = some front.length := by
  have place : (front ++ c :: back).reverse.idxOf? c = some back.length := by
    rw [List.reverse_append, List.reverse_cons, List.append_assoc]
    apply List.idxOf?_eq_some_iff.mpr
    refine ⟨by simp, by simp, ?_⟩
    intro j short
    have inside : j < back.reverse.length := by simpa using short
    rw [List.getElem_append_left inside]
    intro same
    exact last (List.mem_reverse.mp (same ▸ List.getElem_mem inside))
  rw [rfind, place, Option.map_some]
  simp

/-- A name has the extension `.ext` when it ends with it and begins before it. -/
theorem extension_eq {name ext : List Char} (some_ext : ext ≠ []) (undotted : '.' ∉ ext) :
    extension name = '.' :: ext ↔ ('.' :: ext).isSuffixOf name = true ∧ ∃ i, rfind name '.' = some i ∧ 0 < i := by
  have long := List.length_pos_of_ne_nil some_ext
  constructor
  · intro found
    unfold extension at found
    cases place : rfind name '.' with
    | none =>
      rw [place] at found
      cases found
    | some i =>
      rw [place] at found
      dsimp only at found
      split_ifs at found with inner
      exact ⟨List.isSuffixOf_iff_suffix.mpr (found ▸ List.drop_suffix i name), i, rfl, inner.1⟩
  · rintro ⟨ends, i, place, begins⟩
    obtain ⟨front, rfl⟩ := List.isSuffixOf_iff_suffix.mp ends
    rw [rfind_append front undotted] at place
    obtain rfl := Option.some.inj place
    rw [extension, rfind_append front undotted]
    dsimp only
    rw [if_pos ⟨begins, by simp only [List.length_append, List.length_cons]; omega⟩, List.drop_left]

end PosixPath
