import Constructicon.OperatorStore

/-!
# Store generations only move forward

What stands in the files under their own names changes in four ways: an anchor is
written, the next descriptor is linked into the inventory, a maintenance withdraws every
generation there is, and an activation selects one above the floor of the withdrawal it
finds. The lock makes each of these a step from the files its helper has read, whatever
the other helpers do and wherever one of them crashes.
-/

namespace Constructicon

open PyJson Transaction Locked Locked.Program

variable {φ : Type} (F : FloatText φ)

/-! ## Names -/

def Pending (name : PyStr) : Prop := points ".pending-" <+: name

theorem head_pending {name : PyStr} (pending : Pending name) : name.head? = some 46 := by
  obtain ⟨rest, rfl⟩ := pending
  rfl

theorem decimal_first {g : ℕ} (positive : 1 ≤ g) :
    ∃ d s, decimal g = d :: s ∧ d ≠ 48 ∧ isDigit d = true := by
  cases printed : decimal g with
  | nil =>
    have scanned := scanDigits_decimal g
    rw [printed] at scanned
    cases scanned
  | cons d s =>
    refine ⟨d, s, rfl, ?_, decimal_digits g d (by rw [printed]; exact List.mem_cons_self)⟩
    rintro rfl
    have scanned := scanDigits_decimal g
    rw [printed, scanDigits, if_pos rfl] at scanned
    simp only [Option.some.injEq, Prod.mk.injEq] at scanned
    have value := ofDigits_decimal g
    rw [printed, scanned.2] at value
    simp only [ofDigits, List.foldl_cons, List.foldl_nil] at value
    omega

theorem dot_not_digit : Clear isDigit (points ".json") := by
  intro c first
  cases first
  rfl

theorem takeWhile_generation (g : ℕ) : (generationFile g).takeWhile isDigit = decimal g := by
  rw [generationFile, List.takeWhile_append_of_pos (decimal_digits g), takeWhile_clear dot_not_digit,
    List.append_nil]

theorem dropWhile_generation (g : ℕ) : (generationFile g).dropWhile isDigit = points ".json" := by
  rw [generationFile, List.dropWhile_append_of_pos (decimal_digits g), dropWhile_clear dot_not_digit]

theorem generationOf_file (g : ℕ) : generationOf (generationFile g) = g := by
  rw [generationOf, takeWhile_generation, ofDigits_decimal]

theorem generationFile_injective {g g' : ℕ} (same : generationFile g = generationFile g') : g = g' := by
  have read := congrArg generationOf same
  rwa [generationOf_file, generationOf_file] at read

theorem isGeneration_file {g : ℕ} (positive : 1 ≤ g) : isGeneration (generationFile g) = true := by
  obtain ⟨d, s, printed, other, -⟩ := decimal_first positive
  have first : (generationFile g).head? = some d := by
    rw [generationFile, printed]
    rfl
  rw [isGeneration, first, takeWhile_generation, dropWhile_generation, printed]
  simp [other]

theorem not_pending_generation {g : ℕ} (positive : 1 ≤ g) : ¬Pending (generationFile g) := by
  intro pending
  obtain ⟨d, s, printed, -, digit⟩ := decimal_first positive
  have first := head_pending pending
  rw [generationFile, printed] at first
  cases first
  cases digit

theorem not_pending_of_isGeneration {name : PyStr} (generation : isGeneration name = true) :
    ¬Pending name := by
  intro pending
  have first := head_pending pending
  cases name with
  | nil => cases first
  | cons c rest =>
    cases first
    simp [isGeneration, isDigit] at generation

theorem not_pending_active : ¬Pending activeName := by
  intro pending
  have first := head_pending pending
  cases first

theorem pendingFile_pending (token : PyStr) : Pending (pendingFile token) := ⟨token, rfl⟩

/-! ## Directories -/

namespace Directory

structure Whole (d : Directory) : Prop where
  keys : d.entries.keys.Nodup
  inodes : ∀ e ∈ d.entries.entries, e.2 < d.blobs.length

variable {d : Directory}

theorem Whole.bound (whole : d.Whole) {name : PyStr} {ino : ℕ} (found : d.entries.get? name = some ino) :
    ino < d.blobs.length :=
  whole.inodes _ (Dict.mem_of_get? found)

theorem Whole.text?_isSome (whole : d.Whole) {name : PyStr} :
    (d.text? name).isSome ↔ name ∈ d.entries.keys := by
  constructor
  · intro some'
    cases found : d.entries.get? name with
    | none =>
      rw [text?, found] at some'
      cases some'
    | some ino => exact Dict.mem_keys.mpr ⟨ino, Dict.mem_of_get? found⟩
  · intro mem
    obtain ⟨ino, mem⟩ := Dict.mem_keys.mp mem
    have found := Dict.get?_of_mem whole.keys mem
    rw [text?, found, Option.bind_some, List.getElem?_eq_getElem (whole.bound found)]
    rfl

theorem whole_empty : Directory.empty.Whole := ⟨List.nodup_nil, by simp [Directory.empty, Dict.empty]⟩

theorem whole_create (whole : d.Whole) (name : PyStr) : (d.create name).Whole := by
  refine ⟨Dict.nodup_insert whole.keys _ _, ?_⟩
  intro e mem
  rw [create, List.length_append, List.length_singleton]
  rcases Dict.mem_insert mem with rfl | old
  · exact Nat.lt_succ_self _
  · exact Nat.lt_succ_of_lt (whole.inodes e old)

theorem whole_write (whole : d.Whole) (fd : ℕ) (part : PyStr) : (d.write fd part).Whole := by
  refine ⟨whole.keys, ?_⟩
  intro e mem
  rw [write, List.length_modify]
  exact whole.inodes e mem

theorem whole_link (whole : d.Whole) {ino : ℕ} (inside : ino < d.blobs.length) (name : PyStr) :
    (d.link ino name).Whole := by
  refine ⟨Dict.nodup_insert whole.keys _ _, ?_⟩
  intro e mem
  rcases Dict.mem_insert mem with rfl | old
  · exact inside
  · exact whole.inodes e old

theorem whole_unlink (whole : d.Whole) (name : PyStr) : (d.unlink name).Whole :=
  ⟨Dict.nodup_erase whole.keys name, fun e mem => whole.inodes e (List.mem_of_mem_filter mem)⟩

theorem text?_link (d : Directory) (ino : ℕ) (name other : PyStr) :
    (d.link ino name).text? other = if other = name then d.blobs[ino]? else d.text? other := by
  rw [text?, link, Dict.get?_insert]
  by_cases same : other = name
  · simp [same]
  · simp [same, text?, Ne.symm same]

theorem text?_unlink (d : Directory) {name other : PyStr} (ne : other ≠ name) :
    (d.unlink name).text? other = d.text? other := by
  rw [text?, unlink, Dict.get?_erase_ne _ (Ne.symm ne)]
  rfl

theorem text?_create (whole : d.Whole) {name other : PyStr} (ne : other ≠ name) :
    (d.create name).text? other = d.text? other := by
  rw [text?, create, Dict.get?_insert_ne _ _ (Ne.symm ne), text?]
  cases found : d.entries.get? other with
  | none => rfl
  | some ino =>
    rw [Option.bind_some, Option.bind_some, List.getElem?_append_left (whole.bound found)]

theorem text?_write (d : Directory) {fd : ℕ} {other : PyStr} (part : PyStr)
    (apart : d.entries.get? other ≠ some fd) : (d.write fd part).text? other = d.text? other := by
  rw [text?, write, text?]
  cases found : d.entries.get? other with
  | none => rfl
  | some ino =>
    rw [Option.bind_some, Option.bind_some, List.getElem?_modify_ne]
    rintro rfl
    exact apart found

end Directory

namespace StoreBundle

@[simp] theorem dir_setDir (s : StoreBundle) (p : Place) (d : Directory) : (s.setDir p d).dir p = d := by
  cases p <;> rfl

theorem dir_setDir_ne (s : StoreBundle) {p q : Place} (d : Directory) (ne : q ≠ p) :
    (s.setDir p d).dir q = s.dir q := by
  cases p <;> cases q <;> first | rfl | exact absurd rfl ne

end StoreBundle

def WholeBundle (s : StoreBundle) : Prop := ∀ p, (s.dir p).Whole

theorem WholeBundle.setDir {s : StoreBundle} (whole : WholeBundle s) {p : Place} {d : Directory}
    (new : d.Whole) : WholeBundle (s.setDir p d) := by
  intro q
  by_cases same : q = p
  · rw [same, StoreBundle.dir_setDir]
    exact new
  · rw [StoreBundle.dir_setDir_ne s d same]
    exact whole q

/-! ## What stands under its own name -/

def Undisturbed (s t : StoreBundle) : Prop :=
  ∀ p name, ¬Pending name → (t.dir p).text? name = (s.dir p).text? name

/-- One file holds `raw` now, and nothing else has changed. -/
def Written (p : Place) (name raw : PyStr) (s t : StoreBundle) : Prop :=
  ∀ q other, ¬Pending other →
    (t.dir q).text? other = if q = p ∧ other = name then some raw else (s.dir q).text? other

theorem Undisturbed.refl (s : StoreBundle) : Undisturbed s s := fun _ _ _ => rfl

theorem Undisturbed.trans {s t u : StoreBundle} (h : Undisturbed s t) (h' : Undisturbed t u) : Undisturbed s u :=
  fun p name own => (h' p name own).trans (h p name own)

theorem Undisturbed.symm {s t : StoreBundle} (h : Undisturbed s t) : Undisturbed t s :=
  fun p name own => (h p name own).symm

theorem Undisturbed.written {s t u : StoreBundle} {p : Place} {name raw : PyStr} (h : Undisturbed s t)
    (h' : Written p name raw t u) : Written p name raw s u := by
  intro q other own
  rw [h' q other own, h q other own]

theorem Written.quiet {s t u : StoreBundle} {p : Place} {name raw : PyStr} (h : Written p name raw s t)
    (h' : Undisturbed t u) : Written p name raw s u :=
  fun q other own => (h' q other own).trans (h q other own)

theorem Written.same {s t : StoreBundle} {p : Place} {name raw : PyStr} (h : Written p name raw s t)
    (own : ¬Pending name) : (t.dir p).text? name = some raw := by
  rw [h p name own, if_pos ⟨rfl, rfl⟩]

theorem Written.other {s t : StoreBundle} {p q : Place} {name raw other : PyStr} (h : Written p name raw s t)
    (own : ¬Pending other) (ne : ¬(q = p ∧ other = name)) :
    (t.dir q).text? other = (s.dir q).text? other := by
  rw [h q other own, if_neg ne]

theorem Written.inventory {s t : StoreBundle} {name raw other : PyStr} (h : Written .bundle name raw s t)
    (own : ¬Pending other) : t.descriptors.text? other = s.descriptors.text? other :=
  h.other (q := .descriptors) own (fun both => by cases both.1)

theorem undisturbed_setDir {s : StoreBundle} {p : Place} {d : Directory}
    (same : ∀ name, ¬Pending name → d.text? name = (s.dir p).text? name) : Undisturbed s (s.setDir p d) := by
  intro q name own
  by_cases here : q = p
  · rw [here, StoreBundle.dir_setDir]
    exact same name own
  · rw [StoreBundle.dir_setDir_ne s d here]

theorem written_setDir {s : StoreBundle} {p : Place} {d : Directory} {name raw : PyStr}
    (same : ∀ other, ¬Pending other → d.text? other = if other = name then some raw else (s.dir p).text? other) :
    Written p name raw s (s.setDir p d) := by
  intro q other own
  by_cases here : q = p
  · subst here
    rw [StoreBundle.dir_setDir, same other own]
    simp
  · rw [StoreBundle.dir_setDir_ne s d here, if_neg (fun both => here both.1)]

/-- A temporary file in the making: only its own name leads to what it holds. -/
structure Writing (s t : StoreBundle) (p : Place) (temporary : PyStr) (fd : ℕ) (held : PyStr) : Prop where
  quiet : Undisturbed s t
  whole : WholeBundle t
  named : (t.dir p).entries.get? temporary = some fd
  alone : ∀ name, ¬Pending name → (t.dir p).entries.get? name ≠ some fd
  holds : (t.dir p).blobs[fd]? = some held

theorem pending_ne {name temporary : PyStr} (own : ¬Pending name) (pending : Pending temporary) :
    name ≠ temporary := by
  rintro rfl
  exact own pending

theorem writing_create {s : StoreBundle} (whole : WholeBundle s) (p : Place) {temporary : PyStr}
    (pending : Pending temporary) :
    Writing s (s.setDir p ((s.dir p).create temporary)) p temporary (s.dir p).blobs.length [] where
  quiet := undisturbed_setDir (fun _ own => Directory.text?_create (whole p) (pending_ne own pending))
  whole := whole.setDir (Directory.whole_create (whole p) temporary)
  named := by
    rw [StoreBundle.dir_setDir, Directory.create, Dict.get?_insert, if_pos rfl]
  alone := by
    intro name own
    rw [StoreBundle.dir_setDir, Directory.create, Dict.get?_insert_ne _ _ (pending_ne own pending).symm]
    intro found
    exact absurd ((whole p).bound found) (lt_irrefl _)
  holds := by
    rw [StoreBundle.dir_setDir, Directory.create, List.getElem?_concat_length]

variable {s t : StoreBundle} {p : Place} {temporary held : PyStr} {fd : ℕ}

theorem Writing.write (writing : Writing s t p temporary fd held) (part : PyStr) :
    Writing s (t.setDir p ((t.dir p).write fd part)) p temporary fd (held ++ part) where
  quiet := writing.quiet.trans
    (undisturbed_setDir (fun name own => Directory.text?_write _ part (writing.alone name own)))
  whole := writing.whole.setDir (Directory.whole_write (writing.whole p) fd part)
  named := by
    rw [StoreBundle.dir_setDir]
    exact writing.named
  alone := by
    intro name own
    rw [StoreBundle.dir_setDir]
    exact writing.alone name own
  holds := by
    rw [StoreBundle.dir_setDir, Directory.write, List.getElem?_modify_eq, writing.holds]
    rfl

theorem Writing.link (writing : Writing s t p temporary fd held) (name : PyStr) :
    Written p name held t (t.setDir p ((t.dir p).link fd name)) ∧
      WholeBundle (t.setDir p ((t.dir p).link fd name)) := by
  refine ⟨written_setDir ?_, writing.whole.setDir
    (Directory.whole_link (writing.whole p) ((writing.whole p).bound writing.named) name)⟩
  intro other own
  rw [Directory.text?_link, writing.holds]

theorem Writing.replace (writing : Writing s t p temporary fd held) (pending : Pending temporary)
    (name : PyStr) :
    Written p name held t (t.setDir p (((t.dir p).unlink temporary).link fd name)) ∧
      WholeBundle (t.setDir p (((t.dir p).unlink temporary).link fd name)) := by
  refine ⟨written_setDir ?_, writing.whole.setDir (Directory.whole_link
    (Directory.whole_unlink (writing.whole p) temporary) ((writing.whole p).bound writing.named) name)⟩
  intro other own
  rw [Directory.text?_link, Directory.text?_unlink _ (pending_ne own pending)]
  have holds : ((t.dir p).unlink temporary).blobs[fd]? = some held := writing.holds
  rw [holds]

theorem undisturbed_unlink (whole : WholeBundle t) (p : Place) (pending : Pending temporary) :
    Undisturbed t (t.setDir p ((t.dir p).unlink temporary)) ∧
      WholeBundle (t.setDir p ((t.dir p).unlink temporary)) :=
  ⟨undisturbed_setDir (fun _ own => Directory.text?_unlink _ (pending_ne own pending)),
    whole.setDir (Directory.whole_unlink (whole p) temporary)⟩

/-! ## Sound bundles -/

/-- The descriptors are the files of the generations `1..n`. -/
def Inventory (s : StoreBundle) (n : ℕ) : Prop :=
  ∀ name, ¬Pending name →
    ((s.descriptors.text? name).isSome ↔ ∃ g, 1 ≤ g ∧ g ≤ n ∧ name = generationFile g)

/-- The active file is a withdrawal or a selection, of generations up to `n`. -/
def ActiveWithin (s : StoreBundle) (n : ℕ) : Prop :=
  ∀ raw, s.bundle.text? activeName = some raw →
    (∃ w, readWithdrawal F raw = .ok w ∧ w.generationFloor ≤ n) ∨
    ∃ a, readActive F raw = .ok a ∧ a.generation ≤ n

structure SoundBundle (s : StoreBundle) : Prop where
  whole : WholeBundle s
  inventory : ∃ n, Inventory s n ∧ ActiveWithin F s n

theorem Inventory.unique {s : StoreBundle} {n m : ℕ} (h : Inventory s n) (h' : Inventory s m) : n = m := by
  have le : ∀ {a b : ℕ}, Inventory s a → Inventory s b → a ≤ b := by
    intro a b ha hb
    by_cases zero : a = 0
    · omega
    · have own : ¬Pending (generationFile a) := not_pending_generation (by omega)
      obtain ⟨g, -, bound, same⟩ := (hb _ own).mp ((ha _ own).mpr ⟨a, by omega, le_rfl, rfl⟩)
      rw [generationFile_injective same]
      exact bound
  exact le_antisymm (le h h') (le h' h)

theorem Inventory.congr {s t : StoreBundle} {n : ℕ} (inventory : Inventory s n)
    (same : ∀ name, ¬Pending name → t.descriptors.text? name = s.descriptors.text? name) : Inventory t n := by
  intro name own
  rw [same name own]
  exact inventory name own

theorem Inventory.published {s t : StoreBundle} {n : ℕ} {raw : PyStr} (inventory : Inventory s n)
    (written : Written .descriptors (generationFile (n + 1)) raw s t) : Inventory t (n + 1) := by
  intro name own
  have at' := written .descriptors name own
  simp only [StoreBundle.dir, true_and] at at'
  rw [at']
  by_cases new : name = generationFile (n + 1)
  · rw [if_pos new]
    exact ⟨fun _ => ⟨n + 1, by omega, le_rfl, new⟩, fun _ => rfl⟩
  · rw [if_neg new, inventory name own]
    constructor
    · rintro ⟨g, low, high, rfl⟩
      exact ⟨g, low, by omega, rfl⟩
    · rintro ⟨g, low, high, rfl⟩
      refine ⟨g, low, ?_, rfl⟩
      have other : g ≠ n + 1 := by
        rintro rfl
        exact new rfl
      omega

theorem ActiveWithin.congr {s t : StoreBundle} {n m : ℕ} (active : ActiveWithin F s n) (more : n ≤ m)
    (same : t.bundle.text? activeName = s.bundle.text? activeName) : ActiveWithin F t m := by
  intro raw found
  rw [same] at found
  rcases active raw found with ⟨w, read, bound⟩ | ⟨a, read, bound⟩
  · exact .inl ⟨w, read, bound.trans more⟩
  · exact .inr ⟨a, read, bound.trans more⟩

/-! ## The four changes -/

inductive StoreMove (s t : StoreBundle) : Prop where
  | undisturbed (same : Undisturbed s t)
  | anchored {raw : PyStr} (written : Written .bundle anchorName raw s t)
  | published {n : ℕ} {raw : PyStr} (inventory : Inventory s n)
      (written : Written .descriptors (generationFile (n + 1)) raw s t)
  | withdrew {n : ℕ} {raw : PyStr} {w : Withdrawal} (inventory : Inventory s n)
      (written : Written .bundle activeName raw s t) (read : readWithdrawal F raw = .ok w)
      (floor : w.generationFloor = n)
  | selected {n g : ℕ} {raw : PyStr} {a : ActiveSelection} {before : PyStr} {w : Withdrawal}
      (inventory : Inventory s n) (present : 1 ≤ g ∧ g ≤ n)
      (current : s.bundle.text? activeName = some before) (withdrawn : readWithdrawal F before = .ok w)
      (above : w.generationFloor < g) (written : Written .bundle activeName raw s t)
      (read : readActive F raw = .ok a) (names : a.generation = g)

theorem StoreMove.sound {s t : StoreBundle} (move : StoreMove F s t) (whole : WholeBundle t) (sound : SoundBundle F s) :
    SoundBundle F t := by
  obtain ⟨n, inventory, active⟩ := sound.inventory
  refine ⟨whole, ?_⟩
  cases move with
  | undisturbed same =>
    exact ⟨n, inventory.congr (same .descriptors), active.congr F le_rfl (same .bundle _ not_pending_active)⟩
  | anchored written =>
    refine ⟨n, inventory.congr (fun _ own => written.inventory own),
      active.congr F le_rfl (written.other (q := .bundle) not_pending_active ?_)⟩
    rintro ⟨-, same⟩
    exact absurd same (by decide)
  | published inventory' written =>
    cases inventory.unique inventory'
    exact ⟨n + 1, inventory.published written, active.congr F (Nat.le_succ n)
      (written.other (q := .bundle) not_pending_active (fun both => by cases both.1))⟩
  | withdrew inventory' written read floor =>
    cases inventory.unique inventory'
    refine ⟨n, inventory.congr (fun _ own => written.inventory own), ?_⟩
    intro raw found
    have same : t.bundle.text? activeName = some _ := written.same not_pending_active
    rw [same] at found
    cases found
    exact .inl ⟨_, read, floor.le⟩
  | selected inventory' present current withdrawn above written read names =>
    cases inventory.unique inventory'
    refine ⟨n, inventory.congr (fun _ own => written.inventory own), ?_⟩
    intro raw found
    have same : t.bundle.text? activeName = some _ := written.same not_pending_active
    rw [same] at found
    cases found
    exact .inr ⟨_, read, names.le.trans present.2⟩

theorem StoreMove.descriptors {s t : StoreBundle} (move : StoreMove F s t) {name raw : PyStr} (own : ¬Pending name)
    (found : s.descriptors.text? name = some raw) : t.descriptors.text? name = some raw := by
  have kept : ∀ {file text : PyStr}, Written .bundle file text s t →
      t.descriptors.text? name = some raw := by
    intro file text written
    rw [written.inventory own, found]
  cases move with
  | undisturbed same => exact (same .descriptors name own).trans found
  | anchored written => exact kept written
  | withdrew inventory written read floor => exact kept written
  | selected inventory present current withdrawn above written read names => exact kept written
  | @published n text inventory written =>
    by_cases new : name = generationFile (n + 1)
    · have there : (s.descriptors.text? name).isSome := by rw [found]; rfl
      obtain ⟨g, -, high, same⟩ := (inventory name own).mp there
      have equal := generationFile_injective (new.symm.trans same)
      omega
    · have same : t.descriptors.text? name = s.descriptors.text? name :=
        written.other (q := .descriptors) own (fun both => new both.2)
      rw [same, found]

/-! ## The law of each call -/

inductive Renamed (s t : StoreBundle) : CustodyCall → PyStr → Prop
  | anchored {call : CustodyCall} {raw : PyStr} (written : Written .bundle anchorName raw s t) :
      Renamed s t call anchorName
  | withdrew {waits n : ℕ} {raw : PyStr} {w : Withdrawal} (inventory : Inventory s n)
      (written : Written .bundle activeName raw s t) (read : readWithdrawal F raw = .ok w)
      (floor : w.generationFloor = n) : Renamed s t (.maintain waits) activeName
  | selected {waits n g : ℕ} {qualified : SealedStore} {raw : PyStr} {a : ActiveSelection} {before : PyStr}
      {w : Withdrawal} (inventory : Inventory s n) (present : 1 ≤ g ∧ g ≤ n)
      (current : s.bundle.text? activeName = some before) (withdrawn : readWithdrawal F before = .ok w)
      (above : w.generationFloor < g) (written : Written .bundle activeName raw s t)
      (read : readActive F raw = .ok a) (names : a.generation = g) :
      Renamed s t (.activate g qualified waits) activeName

theorem Renamed.move {s t : StoreBundle} {call : CustodyCall} {name : PyStr} (renamed : Renamed F s t call name) :
    StoreMove F s t := by
  cases renamed with
  | anchored written => exact .anchored written
  | withdrew inventory written read floor => exact .withdrew inventory written read floor
  | selected inventory present current withdrawn above written read names =>
    exact .selected inventory present current withdrawn above written read names

theorem Renamed.ofActivate {s t : StoreBundle} {call : CustodyCall} {name : PyStr} {g waits : ℕ}
    {qualified : SealedStore} (renamed : Renamed F s t call name) (activates : call = .activate g qualified waits)
    (active : name = activeName) :
    ∃ n raw a before w, Inventory s n ∧ (1 ≤ g ∧ g ≤ n) ∧ s.bundle.text? activeName = some before ∧
      readWithdrawal F before = .ok w ∧ w.generationFloor < g ∧ Written .bundle activeName raw s t ∧
      readActive F raw = .ok a ∧ a.generation = g := by
  cases renamed with
  | anchored written => exact absurd active (by decide)
  | withdrew inventory written read floor => cases activates
  | selected inventory present current withdrawn above written read names =>
    cases activates
    exact ⟨_, _, _, _, _, inventory, present, current, withdrawn, above, written, read, names⟩

theorem Renamed.ofMaintain {s t : StoreBundle} {call : CustodyCall} {name : PyStr} {waits : ℕ}
    (renamed : Renamed F s t call name) (maintains : call = .maintain waits) (active : name = activeName) :
    ∃ n raw w, Inventory s n ∧ Written .bundle activeName raw s t ∧ readWithdrawal F raw = .ok w ∧
      w.generationFloor = n := by
  cases renamed with
  | anchored written => exact absurd active (by decide)
  | withdrew inventory written read floor => exact ⟨_, _, _, inventory, written, read, floor⟩
  | selected inventory present current withdrawn above written read names => cases maintains

/-- The answer of a rename: it was done as the call may do it, or nothing was. -/
def RenameLaw (call : CustodyCall) (name : PyStr) (s : StoreBundle) (r : Except StoreFault Unit)
    (t : StoreBundle) : Prop :=
  match r with
  | .ok _ => Renamed F s t call name
  | .error _ => Undisturbed s t

def LinkLaw (s t : StoreBundle) : Prop :=
  StoreMove F s t ∧ t.bundle.text? activeName = s.bundle.text? activeName

def OpLaw (call : CustodyCall) (i : FileOp) (s : StoreBundle) (r : Except StoreFault (FileAnswer i))
    (t : StoreBundle) : Prop :=
  match i, r with
  | .replace _ _ name, r => RenameLaw F call name s r t
  | .link _ _ _, _ => LinkLaw F s t
  | .provision _, _ => Undisturbed s t
  | .openBundle, _ => Undisturbed s t
  | .read _, _ => Undisturbed s t
  | .scan, _ => Undisturbed s t
  | .token, _ => Undisturbed s t
  | .create _ _, _ => Undisturbed s t
  | .write _ _ _, _ => Undisturbed s t
  | .upkeep, _ => Undisturbed s t
  | .unlink _ _, _ => Undisturbed s t
  | .lane, _ => Undisturbed s t

/-- The law of a call: every operation moves the files as the call may, and keeps directories whole. -/
def CustodyLaw (call : CustodyCall) (i : FileOp) (s : StoreBundle) (r : Except StoreFault (FileAnswer i))
    (t : StoreBundle) : Prop :=
  OpLaw F call i s r t ∧ (WholeBundle s → WholeBundle t)

theorem OpLaw.move {call : CustodyCall} {i : FileOp} {s t : StoreBundle} {r : Except StoreFault (FileAnswer i)}
    (law : OpLaw F call i s r t) : StoreMove F s t := by
  cases i with
  | replace p temporary name =>
    cases r with
    | ok u => exact Renamed.move F law
    | error e => exact .undisturbed law
  | link p temporary name => exact law.1
  | provision presence => exact .undisturbed law
  | openBundle => exact .undisturbed law
  | read name => exact .undisturbed law
  | scan => exact .undisturbed law
  | token => exact .undisturbed law
  | create p name => exact .undisturbed law
  | write p fd part => exact .undisturbed law
  | upkeep => exact .undisturbed law
  | unlink p name => exact .undisturbed law
  | lane => exact .undisturbed law

inductive ReadOnly : FileOp → Prop
  | provision (presence : BundlePresence) : ReadOnly (.provision presence)
  | openBundle : ReadOnly .openBundle
  | read (name : PyStr) : ReadOnly (.read name)
  | scan : ReadOnly .scan
  | token : ReadOnly .token
  | upkeep : ReadOnly .upkeep
  | lane : ReadOnly .lane

theorem readOnly_still {i : FileOp} (reads : ReadOnly i) (s : StoreBundle) (c : FileChoice) :
    (performFile i s c).1 = s := by
  rw [performFile]
  cases c.refused with
  | some e => rfl
  | none => cases reads <;> rfl

theorem readOnly_free (call : CustodyCall) {i : FileOp} (reads : ReadOnly i) (s : StoreBundle)
    (r : Except StoreFault (FileAnswer i)) : CustodyLaw F call i s r s := by
  refine ⟨?_, id⟩
  cases reads <;> exact Undisturbed.refl s

/-! ## Rules for programs of file operations -/

section Rules

variable {call : CustodyCall} {α β : Type} {post : Except StoreFault β → StoreBundle → Prop}

@[simp] theorem askFile_after (i : FileOp) (f : Except StoreFault (FileAnswer i) → FileProgram α) :
    (askFile i).after f = .ask i f := rfl

@[simp] theorem lift_after (x : Except StoreFault α) (f : Except StoreFault α → FileProgram β) :
    (lift x : FileProgram α).after f = f x := rfl

theorem after_after {γ : Type} (p : FileProgram α) (f : Except StoreFault α → FileProgram β)
    (g : Except StoreFault β → FileProgram γ) : (p.after f).after g = p.after (fun r => (f r).after g) := by
  induction p with
  | done r => rfl
  | ask i k ih => exact congrArg (Program.ask i) (funext (fun r => ih r))
  | lock k ih => exact congrArg Program.lock (funext (fun got => ih got))

abbrev KeepsLaw (call : CustodyCall) (post : Except StoreFault α → StoreBundle → Prop) :
    FileProgram α → StoreBundle → Prop :=
  Locked.Held performFile (CustodyLaw F call) post

theorem keeps_follow {f : α → FileProgram β} {x : Except StoreFault α} {s : StoreBundle}
    (failed : ∀ e, post (.error e) s) (goes : ∀ a, x = .ok a → KeepsLaw F call post (f a) s) :
    KeepsLaw F call post (follow f x) s := by
  cases x with
  | ok a => exact goes a rfl
  | error e => exact failed e

theorem keeps_ask {i : FileOp} (reads : ReadOnly i) {f : FileAnswer i → FileProgram β} {s : StoreBundle}
    (failed : ∀ e, post (.error e) s)
    (goes : ∀ a c, (performFile i s c).2 = .ok a → KeepsLaw F call post (f a) s) :
    KeepsLaw F call post (askFile i >>= f) s := by
  intro c
  rw [readOnly_still reads s c]
  refine ⟨readOnly_free F call reads s _, ?_⟩
  exact keeps_follow F failed (fun a same => goes a c same)

theorem keeps_lift {f : α → FileProgram β} {x : Except StoreFault α} {s : StoreBundle}
    (failed : ∀ e, post (.error e) s) (goes : ∀ a, x = .ok a → KeepsLaw F call post (f a) s) :
    KeepsLaw F call post (lift x >>= f) s :=
  keeps_follow F failed goes

theorem keeps_reads {p : FileProgram α} (reads : Reads ReadOnly p) {f : α → FileProgram β} {s : StoreBundle}
    (failed : ∀ e, post (.error e) s) (goes : ∀ a, KeepsLaw F call post (f a) s) :
    KeepsLaw F call post (p >>= f) s := by
  refine Locked.Held.then (Q := fun _ t => t = s)
    (reads.held (fun i quiet s c => readOnly_still quiet s c) (fun i quiet s r => readOnly_free F call quiet s r)
      (fun _ => rfl)) ?_
  rintro r t rfl
  exact keeps_follow F failed (fun a _ => goes a)

theorem keeps_part {Q : Except StoreFault α → StoreBundle → Prop} {p : FileProgram α}
    {f : α → FileProgram β} {s : StoreBundle} (part : KeepsLaw F call Q p s)
    (failed : ∀ e t, Q (.error e) t → post (.error e) t)
    (goes : ∀ a t, Q (.ok a) t → KeepsLaw F call post (f a) t) : KeepsLaw F call post (p >>= f) s := by
  refine Locked.Held.then part ?_
  intro r t after
  cases r with
  | ok a => exact goes a t after
  | error e => exact failed e t after

end Rules

/-! ## What the writers of one file do -/

section Writers

variable {call : CustodyCall} {s t : StoreBundle} {p : Place} {temporary held raw name : PyStr} {fd : ℕ}

theorem Writing.undisturbed {u : StoreBundle} {held' : PyStr} (writing : Writing s t p temporary fd held)
    (after : Writing s u p temporary fd held') : Undisturbed t u :=
  writing.quiet.symm.trans after.quiet

theorem keeps_writeAll (fuel : ℕ) (rest : PyStr) (writing : Writing s t p temporary fd held) :
    KeepsLaw F call (fun r u => ∃ held', Writing s u p temporary fd held' ∧
      (r = .ok () → held' = held ++ rest)) (writeAll p fd fuel rest) t := by
  induction fuel generalizing t held rest with
  | zero =>
    cases rest with
    | nil => exact ⟨held, writing, fun _ => (List.append_nil held).symm⟩
    | cons c cs => exact ⟨held, writing, fun answered => by cases answered⟩
  | succ fuel ih =>
    cases rest with
    | nil => exact ⟨held, writing, fun _ => (List.append_nil held).symm⟩
    | cons c cs =>
      intro choice
      have failed : ∀ e, (Except.error e : Except StoreFault Unit) = .ok () → held = held ++ c :: cs := by
        intro e answered
        cases answered
      rw [performFile]
      cases refused : choice.refused with
      | some e => exact ⟨⟨Undisturbed.refl t, id⟩, held, writing, failed e⟩
      | none =>
        have next := writing.write ((c :: cs).take choice.count)
        refine ⟨⟨writing.undisturbed next, fun _ => next.whole⟩, ?_⟩
        change KeepsLaw F call _ (if ((c :: cs).take choice.count).length = 0 then raise .os
          else writeAll p fd fuel ((c :: cs).drop ((c :: cs).take choice.count).length)) _
        split
        · exact ⟨_, next, fun answered => by cases answered⟩
        · refine Locked.Held.mono ?_ (ih ((c :: cs).drop ((c :: cs).take choice.count).length) next)
          rintro r u ⟨held', after, whole⟩
          refine ⟨held', after, fun answered => ?_⟩
          rw [whole answered, List.append_assoc, List.length_take]
          congr 1
          conv_rhs => rw [← List.take_append_drop choice.count (c :: cs)]
          congr 1
          rcases Nat.le_total choice.count (c :: cs).length with le | ge
          · rw [Nat.min_eq_left le]
          · rw [Nat.min_eq_right ge, List.drop_length, List.drop_eq_nil_of_le ge]

theorem reads_upkeep : Reads ReadOnly (askFile .upkeep) := ⟨.upkeep, fun _ => trivial⟩

theorem keeps_fillTemporary (writing : Writing s t p temporary fd []) :
    KeepsLaw F call (fun r u => ∃ held', Writing s u p temporary fd held' ∧ (r = .ok () → held' = raw))
      (fillTemporary p fd raw) t := by
  have filled : KeepsLaw F call (fun r u => ∃ held', Writing s u p temporary fd held' ∧
      (r = .ok () → held' = raw)) (do
        writeAll p fd raw.length raw
        askFile .upkeep
        askFile .upkeep) t := by
    refine keeps_part F (keeps_writeAll F raw.length raw writing) ?_ ?_
    · rintro e u ⟨held', after, -⟩
      exact ⟨held', after, fun answered => by cases answered⟩
    · rintro a u ⟨held', after, whole⟩
      have same : held' = raw := whole rfl
      refine keeps_reads F reads_upkeep (fun e => ⟨held', after, fun _ => same⟩) ?_
      intro _
      exact reads_upkeep.held (fun i quiet s c => readOnly_still quiet s c)
        (fun i quiet s r => readOnly_free F call quiet s r) (fun r => ⟨held', after, fun _ => same⟩)
  refine Locked.Held.then filled ?_
  rintro r u ⟨held', after, whole⟩
  refine keeps_reads F reads_upkeep (fun e => ⟨held', after, fun answered => by cases answered⟩) ?_
  intro _
  exact ⟨held', after, whole⟩

def Done (s : StoreBundle) (p : Place) (name raw : PyStr) (t : StoreBundle) : Prop :=
  WholeBundle t ∧ (Undisturbed s t ∨ Written p name raw s t)

theorem Done.undisturbed {u : StoreBundle} (done : Done s p name raw t) (same : Undisturbed t u)
    (whole : WholeBundle u) : Done s p name raw u := by
  refine ⟨whole, ?_⟩
  rcases done.2 with before | before
  · exact .inl (before.trans same)
  · exact .inr (before.quiet same)

theorem keeps_unlink (pending : Pending temporary) (whole : WholeBundle t)
    {Q : Except StoreFault Unit → StoreBundle → Prop}
    (ends : ∀ r u, Undisturbed t u → WholeBundle u → Q r u) :
    KeepsLaw F call Q (askFile (.unlink p temporary)) t := by
  intro choice
  rw [performFile]
  cases refused : choice.refused with
  | some e => exact ⟨⟨Undisturbed.refl t, id⟩, ends _ t (Undisturbed.refl t) whole⟩
  | none =>
    dsimp only [performOp, unlinkFile]
    split
    · obtain ⟨same, whole'⟩ := undisturbed_unlink whole p pending
      exact ⟨⟨same, fun _ => whole'⟩, ends _ _ same whole'⟩
    · exact ⟨⟨Undisturbed.refl t, id⟩, ends _ t (Undisturbed.refl t) whole⟩

theorem keeps_retire (pending : Pending temporary) (done : Done s p name raw t) (r : Except StoreFault Unit) :
    KeepsLaw F call (fun _ u => Done s p name raw u) (finish (retire p temporary) r) t := by
  refine Locked.Held.then (Q := fun _ u => Done s p name raw u) ?_ ?_
  · refine keeps_part F (keeps_unlink F pending done.1 (fun _ u same whole => done.undisturbed same whole))
      (fun _ _ after => after) ?_
    intro _ u after
    exact reads_upkeep.held (fun i quiet s c => readOnly_still quiet s c)
      (fun i quiet s r => readOnly_free F call quiet s r) (fun _ => after)
  · intro r' u after
    exact keeps_follow F (fun _ => after) (fun _ _ => after)

theorem keeps_discardFile (pending : Pending temporary) (done : Done s p name raw t)
    (r : Except StoreFault Unit) :
    KeepsLaw F call (fun _ u => Done s p name raw u) (finish (discardFile p temporary) r) t := by
  refine Locked.Held.then (Q := fun _ u => Done s p name raw u) ?_ ?_
  · refine Locked.Held.then
      (keeps_unlink F pending done.1 (Q := fun _ u => Done s p name raw u)
        (fun _ u same whole => done.undisturbed same whole)) ?_
    intro r' u after
    cases r' with
    | ok a => exact after
    | error e =>
      rw [handle_error]
      split
      · exact after
      · exact after
  · intro r' u after
    exact keeps_follow F (fun _ => after) (fun _ _ => after)

theorem keeps_create {β : Type} {post : Except StoreFault β → StoreBundle → Prop} {f : ℕ → FileProgram β}
    (pending : Pending temporary) (whole : WholeBundle s) (failed : ∀ e, post (.error e) s)
    (goes : ∀ fd t, Writing s t p temporary fd [] → KeepsLaw F call post (f fd) t) :
    KeepsLaw F call post (askFile (.create p temporary) >>= f) s := by
  intro choice
  rw [performFile]
  cases refused : choice.refused with
  | some e => exact ⟨⟨Undisturbed.refl s, id⟩, failed e⟩
  | none =>
    dsimp only [performOp, createFile]
    split
    · exact ⟨⟨Undisturbed.refl s, id⟩, failed .fileExists⟩
    · have writing := writing_create whole p pending
      exact ⟨⟨writing.quiet, fun _ => writing.whole⟩, goes _ _ writing⟩

theorem keeps_link (writing : Writing s t p temporary fd raw)
    (allowed : ∀ u v, Undisturbed s u → Written p name raw u v → LinkLaw F u v) :
    KeepsLaw F call (fun _ u => Done s p name raw u)
      (rescue (askFile (.link p temporary name)) (fun e => raise (linkFault e))) t := by
  have before : Done s p name raw t := ⟨writing.whole, .inl writing.quiet⟩
  intro choice
  rw [performFile]
  cases refused : choice.refused with
  | some e => exact ⟨⟨⟨.undisturbed (Undisturbed.refl t), rfl⟩, id⟩, before⟩
  | none =>
    dsimp only [performOp, linkFile]
    rw [writing.named]
    dsimp only
    split
    · exact ⟨⟨⟨.undisturbed (Undisturbed.refl t), rfl⟩, id⟩, before⟩
    · obtain ⟨written, whole⟩ := writing.link name
      exact ⟨⟨allowed t _ writing.quiet written, fun _ => whole⟩, whole, .inr (writing.quiet.written written)⟩

/-- `_publish_new` changes the file or nothing. -/
theorem keeps_publishNew (whole : WholeBundle s)
    (allowed : ∀ u v, Undisturbed s u → Written p name raw u v → LinkLaw F u v) :
    KeepsLaw F call (fun _ t => Done s p name raw t) (publishNew p name raw) s := by
  have before : Done s p name raw s := ⟨whole, .inl (Undisturbed.refl s)⟩
  refine keeps_ask F .token (fun _ => before) ?_
  intro token _ _
  refine keeps_create F (pendingFile_pending token) whole (fun _ => before) ?_
  intro fd t writing
  refine Locked.Held.then (Q := fun _ u => Done s p name raw u) ?_
    (fun r u after => keeps_retire F (pendingFile_pending token) after r)
  refine keeps_part F (keeps_fillTemporary F writing) ?_ ?_
  · rintro e u ⟨held', after, -⟩
    exact ⟨after.whole, .inl after.quiet⟩
  · rintro a u ⟨held', after, filled⟩
    rw [filled rfl] at after
    exact keeps_link F after allowed

theorem keeps_replace (writing : Writing s t p temporary fd raw) (pending : Pending temporary)
    (allowed : ∀ u v, Undisturbed s u → Written p name raw u v → Renamed F u v call name) :
    KeepsLaw F call (fun _ u => Done s p name raw u) (askFile (.replace p temporary name)) t := by
  have before : Done s p name raw t := ⟨writing.whole, .inl writing.quiet⟩
  intro choice
  rw [performFile]
  cases refused : choice.refused with
  | some e => exact ⟨⟨Undisturbed.refl t, id⟩, before⟩
  | none =>
    dsimp only [performOp, replaceFile]
    rw [writing.named]
    obtain ⟨written, whole⟩ := writing.replace pending name
    exact ⟨⟨allowed t _ writing.quiet written, fun _ => whole⟩, whole, .inr (writing.quiet.written written)⟩

/-- `_replace_metadata` changes the file or nothing. -/
theorem keeps_replaceMetadata (whole : WholeBundle s)
    (allowed : ∀ u v, Undisturbed s u → Written p name raw u v → Renamed F u v call name) :
    KeepsLaw F call (fun _ t => Done s p name raw t) (replaceMetadata p name raw) s := by
  have before : Done s p name raw s := ⟨whole, .inl (Undisturbed.refl s)⟩
  refine keeps_ask F .token (fun _ => before) ?_
  intro token _ _
  refine keeps_create F (pendingFile_pending token) whole (fun _ => before) ?_
  intro fd t writing
  refine keeps_part F (Q := fun _ u => Done s p name raw u) ?_ (fun _ _ after => after) ?_
  · refine Locked.Held.then (Q := fun _ u => Done s p name raw u) ?_ ?_
    · refine keeps_part F (keeps_fillTemporary F writing) ?_ ?_
      · rintro e u ⟨held', after, -⟩
        exact ⟨after.whole, .inl after.quiet⟩
      · rintro a u ⟨held', after, filled⟩
        rw [filled rfl] at after
        exact keeps_replace F after (pendingFile_pending token) allowed
    · intro r u after
      cases r with
      | ok a => exact after
      | error e => exact keeps_discardFile F (pendingFile_pending token) after (.error e)
  · intro _ u after
    exact reads_upkeep.held (fun i quiet s c => readOnly_still quiet s c)
      (fun i quiet s r => readOnly_free F call quiet s r) (fun _ => after)

end Writers

/-! ## What the helpers read -/

theorem reads_bind {α β : Type} {p : FileProgram α} {f : α → FileProgram β} (reads : Reads ReadOnly p)
    (rest : ∀ a, Reads ReadOnly (f a)) : Reads ReadOnly (p >>= f) :=
  reads.after (Reads.follow rest)

theorem reads_ask {i : FileOp} (quiet : ReadOnly i) : Reads ReadOnly (askFile i) := ⟨quiet, fun _ => trivial⟩

theorem reads_lift {α : Type} (x : Except StoreFault α) : Reads ReadOnly (lift x : FileProgram α) := trivial

theorem reads_descriptorNames : Reads ReadOnly descriptorNames :=
  reads_bind (reads_ask .scan) (fun found => reads_bind (reads_lift (found.foldlM nameRound [])) (fun _ => trivial))

theorem reads_checkHistory (descriptor : StoreDescriptor) (names : List PyStr) :
    Reads ReadOnly (checkHistory F descriptor names) := by
  induction names with
  | nil => trivial
  | cons name names ih =>
    exact reads_bind (reads_ask (.read name)) (fun raw => reads_bind (reads_lift (readDescriptor F raw))
      (fun _ => reads_bind (reads_lift _) (fun _ => ih)))

theorem reads_checkDescriptor (law : StoreLaw) (opened : OpenedBundle) (d : StoreDescriptor) (key : String)
    (generation : ℕ) (sealed : SealedStore) :
    Reads ReadOnly (checkDescriptor F law opened d key generation sealed) :=
  reads_bind (reads_lift _) (fun _ => reads_bind (reads_lift _) (fun _ => reads_bind (reads_lift _)
    (fun _ => reads_bind reads_descriptorNames (fun names => reads_checkHistory F d names))))

theorem reads_anchorIsCurrent (opened : OpenedBundle) (key : String) (afterReboot : Bool) :
    Reads ReadOnly (anchorIsCurrent F opened key afterReboot) :=
  reads_bind (reads_ask (.read anchorName)) (fun raw => reads_bind (reads_lift (readAnchor F raw))
    (fun _ => reads_lift _))

theorem reads_findOffline (key : String) (afterReboot : Bool) :
    Reads ReadOnly (findOffline F key afterReboot) :=
  reads_bind (reads_lift _) (fun _ => reads_bind (reads_ask .openBundle)
    (fun opened => reads_bind (reads_anchorIsCurrent F opened key afterReboot) (fun _ => trivial)))

theorem reads_requirePresence (presence : BundlePresence) : Reads ReadOnly (requirePresence presence) := by
  cases presence with
  | either => trivial
  | fresh => trivial
  | existing => exact reads_bind (reads_ask .openBundle) (fun _ => trivial)

theorem performFile_ok {i : FileOp} {s : StoreBundle} {c : FileChoice} {a : FileAnswer i}
    (answered : (performFile i s c).2 = .ok a) : (performOp i s c).2 = .ok a := by
  rw [performFile] at answered
  cases refused : c.refused with
  | some e =>
    rw [refused] at answered
    cases answered
  | none =>
    rw [refused] at answered
    exact answered

theorem readFile_ok {s : StoreBundle} {name raw : PyStr} (h : readFile s name = .ok raw) :
    ∃ p, placeOf name = some p ∧ (s.dir p).text? name = some raw := by
  simp only [readFile, bind_eq_ok, expect_eq_ok] at h
  obtain ⟨p, place, ino, found, text, holds, -, -, h⟩ := h
  cases h
  refine ⟨p, place, ?_⟩
  rw [Directory.text?, found]
  exact holds

theorem placeOf_active : placeOf activeName = some .bundle := by decide

theorem placeOf_generation {g : ℕ} (positive : 1 ≤ g) : placeOf (generationFile g) = some .descriptors := by
  have generation := isGeneration_file positive
  rw [placeOf, if_neg, if_pos generation]
  rintro (same | same)
  · rw [same] at generation
    revert generation
    decide
  · rw [same] at generation
    revert generation
    decide

theorem nameRounds {found acc names : List PyStr} (h : found.foldlM nameRound acc = .ok names) :
    names = acc ++ found ∧ ∀ name ∈ found, isGeneration name = true := by
  induction found generalizing acc with
  | nil =>
    cases h
    exact ⟨(List.append_nil _).symm, by simp⟩
  | cons name found ih =>
    simp only [List.foldlM_cons, nameRound, bind_eq_ok, require_eq_ok] at h
    obtain ⟨next, ⟨-, ⟨-, generation⟩, joined⟩, h⟩ := h
    cases joined
    obtain ⟨rfl, rest⟩ := ih h
    refine ⟨by simp, ?_⟩
    intro other mem
    rcases List.mem_cons.mp mem with rfl | mem
    · exact generation
    · exact rest other mem

theorem highest_inventory {s : StoreBundle} {n : ℕ} {names : List PyStr} (whole : WholeBundle s)
    (inventory : Inventory s n) (h : s.descriptors.entries.keys.foldlM nameRound [] = .ok names) :
    highest (names.insertionSort (fun a b => generationOf a ≤ generationOf b)) = n := by
  obtain ⟨rfl, generations⟩ := nameRounds h
  rw [List.nil_append]
  have listed : ∀ name, name ∈ s.descriptors.entries.keys ↔ ∃ g, 1 ≤ g ∧ g ≤ n ∧ name = generationFile g := by
    intro name
    constructor
    · intro mem
      exact (inventory name (not_pending_of_isGeneration (generations name mem))).mp
        ((whole .descriptors).text?_isSome.mpr mem)
    · rintro ⟨g, low, high, rfl⟩
      exact (whole .descriptors).text?_isSome.mp
        ((inventory _ (not_pending_generation low)).mpr ⟨g, low, high, rfl⟩)
  have total : Std.Total (fun a b : PyStr => generationOf a ≤ generationOf b) :=
    ⟨fun a b => Nat.le_total _ _⟩
  have trans : IsTrans PyStr (fun a b => generationOf a ≤ generationOf b) := ⟨fun _ _ _ => Nat.le_trans⟩
  have sorted := List.pairwise_insertionSort (fun a b : PyStr => generationOf a ≤ generationOf b)
    s.descriptors.entries.keys
  have perm := List.perm_insertionSort (fun a b : PyStr => generationOf a ≤ generationOf b)
    s.descriptors.entries.keys
  cases last : (s.descriptors.entries.keys.insertionSort
      (fun a b => generationOf a ≤ generationOf b)).getLast? with
  | none =>
    rw [highest, last]
    dsimp only
    rw [List.getLast?_eq_none_iff] at last
    by_contra positive
    have mem := (listed (generationFile n)).mpr ⟨n, by omega, le_rfl, rfl⟩
    rw [← perm.mem_iff, last] at mem
    cases mem
  | some name =>
    rw [highest, last]
    obtain ⟨front, shape⟩ := List.getLast?_eq_some_iff.mp last
    have mem : name ∈ s.descriptors.entries.keys := by
      rw [← perm.mem_iff, shape]
      simp
    obtain ⟨g, low, high, rfl⟩ := (listed name).mp mem
    dsimp only
    rw [generationOf_file]
    have top := (listed (generationFile n)).mpr ⟨n, by omega, le_rfl, rfl⟩
    rw [← perm.mem_iff, shape, List.mem_append, List.mem_singleton] at top
    rcases top with before | same
    · rw [shape, List.pairwise_append] at sorted
      have below := sorted.2.2 _ before _ (List.mem_singleton_self _)
      rw [generationOf_file, generationOf_file] at below
      omega
    · exact (generationFile_injective same).symm

section Readers

variable {call : CustodyCall} {s : StoreBundle} {n : ℕ}

theorem keeps_descriptorNames (whole : WholeBundle s) (inventory : Inventory s n) :
    KeepsLaw F call (fun r t => t = s ∧ ∀ names, r = .ok names → highest names = n) descriptorNames s := by
  refine keeps_ask F .scan (fun _ => ⟨rfl, fun _ answered => by cases answered⟩) ?_
  intro found c answered
  have same : found = s.descriptors.entries.keys := (Except.ok.inj (performFile_ok answered)).symm
  subst same
  refine keeps_lift F (fun _ => ⟨rfl, fun _ answered => by cases answered⟩) ?_
  intro names listed
  refine ⟨rfl, ?_⟩
  intro sorted answered
  cases answered
  exact highest_inventory whole inventory listed

theorem keeps_currentWithdrawal (key : String) :
    KeepsLaw F call (fun r t => t = s ∧ ∀ w, r = .ok w → ∃ raw, s.bundle.text? activeName = some raw ∧
      readWithdrawal F raw = .ok w) (currentWithdrawal F key) s := by
  refine keeps_ask F (.read activeName) (fun _ => ⟨rfl, fun _ answered => by cases answered⟩) ?_
  intro raw c answered
  obtain ⟨p, place, text⟩ := readFile_ok (performFile_ok answered)
  rw [placeOf_active] at place
  cases place
  refine keeps_lift F (fun _ => ⟨rfl, fun _ answered => by cases answered⟩) ?_
  intro w read
  refine keeps_lift F (fun _ => ⟨rfl, fun _ answered => by cases answered⟩) ?_
  intro _ _
  refine ⟨rfl, ?_⟩
  intro w' answered
  cases answered
  exact ⟨raw, text, read⟩

end Readers

/-! ## What the helpers change -/

section Helpers

attribute [local irreducible] readAnchor readDescriptor readWithdrawal readActive canonicalText

variable {s : StoreBundle}

/-- Whatever happened before, the rest of a helper may only be asked to keep the law. -/
abbrev KeepsAll (call : CustodyCall) {α : Type} (p : FileProgram α) (s : StoreBundle) : Prop :=
  KeepsLaw F call (fun _ _ => True) p s

theorem lawful_settleAnchor (call : CustodyCall) (whole : WholeBundle s) (opened : OpenedBundle) (key : String)
    (raw : PyStr) :
    KeepsLaw F call (fun _ t => Done s .bundle anchorName raw t)
      ((askFile (.read anchorName)).after (settleAnchor F opened key raw)) s := by
  have before : Done s .bundle anchorName raw s := ⟨whole, .inl (Undisturbed.refl s)⟩
  intro c
  rw [readOnly_still (.read anchorName) s c]
  refine ⟨readOnly_free F call (.read anchorName) s _, ?_⟩
  cases (performFile (.read anchorName) s c).2 with
  | ok found =>
    refine keeps_lift F (fun _ => before) ?_
    intro anchor _
    cases require (anchor = ⟨key, opened.bundle⟩) StoreFault.contract <;> exact before
  | error e =>
    cases e with
    | notFound =>
      refine keeps_publishNew F whole ?_
      intro u v _ written
      exact ⟨.anchored written, written.other (q := .bundle) not_pending_active (fun both => absurd both.2 (by decide))⟩
    | fileExists => exact before
    | os => exact before
    | contract => exact before

theorem lawful_publishHeld (law : StoreLaw) (key : String) (call : CustodyCall) (generation : ℕ)
    (adapterRevision conformanceRevision : String) (opened : OpenedBundle) (sound : SoundBundle F s) :
    KeepsAll F call (publishHeld F law key generation adapterRevision conformanceRevision true opened) s := by
  unfold publishHeld
  refine keeps_lift F (fun _ => trivial) ?_
  intro sealed _
  extract_lets anchorRaw descriptor
  refine keeps_lift F (fun _ => trivial) ?_
  intro _ _
  refine keeps_lift F (fun _ => trivial) ?_
  intro _ _
  refine keeps_part F (lawful_settleAnchor F call sound.whole opened key _) (fun _ _ _ => trivial) ?_
  intro _ t done
  obtain ⟨n, inventory, -⟩ := sound.inventory
  have kept : Inventory t n := by
    rcases done.2 with same | written
    · exact inventory.congr (same .descriptors)
    · exact inventory.congr (fun _ own => written.inventory own)
  refine keeps_part F (keeps_descriptorNames F done.1 kept) (fun _ _ _ => trivial) ?_
  rintro names u ⟨rfl, top⟩
  refine keeps_lift F (fun _ => trivial) ?_
  intro _ next
  rw [require_eq_ok, top names rfl] at next
  have number : generation = n + 1 := next rfl
  refine keeps_reads F (reads_checkHistory F _ names) (fun _ => trivial) ?_
  intro _
  refine keeps_part F (keeps_publishNew F done.1 ?_) (fun _ _ _ => trivial) (fun _ _ _ => trivial)
  intro v w same written
  rw [number] at written
  exact ⟨.published (kept.congr (same .descriptors)) written,
    written.other (q := .bundle) not_pending_active (fun both => by cases both.1)⟩

theorem lawful_maintainHeld (key : String) (waits : ℕ) (opened : OpenedBundle) (sound : SoundBundle F s) :
    KeepsAll F (.maintain waits) (maintainHeld F key opened) s := by
  unfold maintainHeld
  refine keeps_reads F (reads_anchorIsCurrent F opened key true) (fun _ => trivial) ?_
  intro anchored
  obtain ⟨n, inventory, -⟩ := sound.inventory
  refine keeps_part F (keeps_descriptorNames F sound.whole inventory) (fun _ _ _ => trivial) ?_
  rintro names u ⟨rfl, top⟩
  refine keeps_lift F (fun _ => trivial) ?_
  intro w read
  have floor : w.generationFloor = n := (readWithdrawal_printed F read).trans (top names rfl)
  refine keeps_part F (keeps_replaceMetadata F sound.whole ?_) (fun _ _ _ => trivial) ?_
  · intro v t same written
    exact .withdrew (inventory.congr (same .descriptors)) written read floor
  · intro _ t done
    split
    · exact keeps_reads F (reads_ask .lane) (fun _ => trivial) (fun _ => trivial)
    · refine keeps_lift F (fun _ => trivial) ?_
      intro _ _
      refine keeps_part F (keeps_replaceMetadata F done.1 (fun _ _ _ written => .anchored written))
        (fun _ _ _ => trivial) ?_
      intro _ u _
      exact keeps_reads F (reads_ask .lane) (fun _ => trivial) (fun _ => trivial)

theorem lawful_activateHeld (law : StoreLaw) (key : String) (generation waits : ℕ) (qualified : SealedStore)
    (opened : OpenedBundle) (sound : SoundBundle F s) :
    KeepsAll F (.activate generation qualified waits) (activateHeld F law key generation qualified opened) s := by
  unfold activateHeld
  refine keeps_part F (keeps_currentWithdrawal F key) (fun _ _ _ => trivial) ?_
  rintro w t ⟨rfl, found⟩
  obtain ⟨before, current, withdrawn⟩ := found w rfl
  refine keeps_lift F (fun _ => trivial) ?_
  intro _ above
  rw [require_eq_ok] at above
  have positive : 1 ≤ generation := by omega
  refine keeps_ask F (.read (generationFile generation)) (fun _ => trivial) ?_
  intro raw c answered
  obtain ⟨p, place, text⟩ := readFile_ok (performFile_ok answered)
  rw [placeOf_generation positive] at place
  cases place
  obtain ⟨n, inventory, -⟩ := sound.inventory
  have there : (t.descriptors.text? (generationFile generation)).isSome := by
    have text' : t.descriptors.text? (generationFile generation) = some raw := text
    rw [text']
    rfl
  obtain ⟨g, low, high, same⟩ := (inventory _ (not_pending_generation positive)).mp there
  cases generationFile_injective same
  refine keeps_lift F (fun _ => trivial) ?_
  intro descriptor _
  refine keeps_reads F (reads_checkDescriptor F law opened descriptor key generation qualified)
    (fun _ => trivial) ?_
  intro _
  refine keeps_lift F (fun _ => trivial) ?_
  intro a read
  refine Locked.Held.mono (fun _ _ _ => trivial) (keeps_replaceMetadata F sound.whole ?_)
  intro u v quiet written
  exact .selected (inventory.congr (quiet .descriptors)) ⟨low, high⟩
    ((quiet .bundle _ not_pending_active).trans current) withdrawn above written read
    (readActive_printed F read)

end Helpers

/-! ## Outside the lock -/

section Outside

variable {α β : Type} {call : CustodyCall} {tail : Except StoreFault β → FileProgram α}

abbrev WaitsLaw (call : CustodyCall) (p : FileProgram α) : Prop :=
  Waits performFile (CustodyLaw F call) ReadOnly (SoundBundle F) p

theorem waits_reads {γ : Type} {p : FileProgram γ} {f : γ → FileProgram β} (reads : Reads ReadOnly p)
    (failed : ∀ e, WaitsLaw F call (tail (.error e))) (goes : ∀ a, WaitsLaw F call ((f a).after tail)) :
    WaitsLaw F call ((p >>= f).after tail) := by
  rw [bind_eq, after_after]
  refine Waits.after reads ?_
  intro r
  cases r with
  | ok a => exact goes a
  | error e => exact failed e

theorem waits_hold {opened : OpenedBundle} {waits : ℕ} {f : Unit → FileProgram β}
    (failed : ∀ e, WaitsLaw F call (tail (.error e))) (ends : ∀ r s, KeepsAll F call (tail r) s)
    (taken : ∀ s, SoundBundle F s → KeepsAll F call (f ()) s) :
    WaitsLaw F call ((holdOffline opened waits >>= f).after tail) := by
  rw [bind_eq, holdOffline, bind_eq, after_after, after_after]
  refine Waits.take (failed .contract) ?_ waits
  intro s sound
  rw [← after_after]
  refine Locked.Held.then (Q := fun _ _ => True) ?_ (fun r t _ => ends r t)
  refine keeps_reads F (reads_bind (reads_ask .openBundle) (fun current => reads_lift (requireSameObjects current opened)))
    (fun _ => trivial) ?_
  intro _
  exact taken s sound

end Outside

section Programs

variable (law : StoreLaw) (key : String)

theorem waits_program (call : CustodyCall) : WaitsLaw F call (custodyProgram F law key call) := by
  cases call with
  | publish generation adapterRevision conformanceRevision presence waits =>
    rw [custodyProgram, bind_eq, publishDescriptorOffline, rescue, after_after]
    have failed : ∀ e, WaitsLaw F (.publish generation adapterRevision conformanceRevision presence waits)
        ((handle (fun _ => raise .contract) (Except.error e)).after
          (follow (fun sealed => pure (CustodyReceipt.published sealed)))) := fun _ => trivial
    refine waits_reads F (reads_lift _) failed ?_
    intro _
    refine waits_reads F (reads_lift _) failed ?_
    intro _
    refine waits_reads F (reads_requirePresence presence) failed ?_
    intro _
    refine waits_reads F (reads_ask (.provision presence)) failed ?_
    intro _
    refine waits_reads F (reads_ask .openBundle) failed ?_
    intro opened
    refine waits_hold F failed ?_ (fun s sound => lawful_publishHeld F law key _ generation adapterRevision
      conformanceRevision opened sound)
    intro r s
    cases r <;> trivial
  | maintain waits =>
    rw [custodyProgram, bind_eq, maintainOffline, rescue, after_after]
    have failed : ∀ e, WaitsLaw F (.maintain waits) ((handle (fun _ => raise .contract) (Except.error e)).after
          (follow (fun floor => pure (CustodyReceipt.maintained floor)))) := fun _ => trivial
    refine waits_reads F (reads_findOffline F key true) failed ?_
    intro opened
    refine waits_hold F failed ?_ (fun s sound => lawful_maintainHeld F key waits opened sound)
    intro r s
    cases r <;> trivial
  | activate generation qualified waits =>
    rw [custodyProgram, bind_eq, activateOffline, rescue, after_after]
    have failed : ∀ e, WaitsLaw F (.activate generation qualified waits)
        ((handle (fun _ => raise .contract) (Except.error e : Except StoreFault Unit)).after
          (follow (fun _ => pure CustodyReceipt.activated))) := fun _ => trivial
    refine waits_reads F (reads_lift _) failed ?_
    intro _
    refine waits_reads F (reads_findOffline F key false) failed ?_
    intro opened
    refine waits_hold F failed ?_ (fun s sound => lawful_activateHeld F law key generation waits qualified
      opened sound)
    intro r s
    cases r <;> trivial
  | retain waits =>
    rw [custodyProgram, bind_eq]
    exact Waits.take (f := follow (fun _ => pure CustodyReceipt.retained)) trivial (fun _ _ => trivial) waits

theorem sound_rebooted (live : OpenedBundle) {s : StoreBundle} (sound : SoundBundle F s) :
    SoundBundle F (rebooted live s) := by
  refine StoreMove.sound F (.undisturbed ?_) ?_ sound
  · intro p name _
    cases p <;> rfl
  · intro p
    cases p with
    | bundle => exact sound.whole .bundle
    | descriptors => exact sound.whole .descriptors

theorem sound_fresh (live : OpenedBundle) : SoundBundle F (StoreBundle.fresh live) := by
  refine ⟨fun p => ?_, 0, ?_, ?_⟩
  · cases p <;> exact Directory.whole_empty
  · intro name _
    constructor
    · intro there
      cases there
    · rintro ⟨g, low, high, -⟩
      omega
  · intro raw found
    cases found

theorem custody_lawful :
    Lawful performFile (custodyProgram F law key) rebooted (CustodyLaw F) ReadOnly (SoundBundle F) where
  still _ quiet s c := readOnly_still quiet s c
  free call _ quiet s r := readOnly_free F call quiet s r
  kept _ _ _ _ _ sound obeyed := (OpLaw.move F obeyed.1).sound F (obeyed.2 sound.whole) sound
  restarts live _ sound := sound_rebooted F live sound
  starts call := waits_program F law key call

end Programs

/-! ## What a successful activation has done -/

inductive RenamesActive : (i : FileOp) → Except StoreFault (FileAnswer i) → Prop
  | renamed (temporary : PyStr) : RenamesActive (.replace .bundle temporary activeName) (.ok ())

theorem passes_discardFile (temporary : PyStr) (e : StoreFault) :
    Passes RenamesActive (finish (discardFile .bundle temporary) (.error e) : FileProgram Unit) :=
  Passes.after (Passes.follow (fun _ => trivial))

theorem passes_replaceMetadata (raw : PyStr) :
    Passes RenamesActive (replaceMetadata .bundle activeName raw) := by
  refine Passes.after (Passes.follow ?_)
  intro token
  refine Passes.after (Passes.follow ?_)
  intro fd
  refine Passes.first ?_ (fun _ => trivial)
  rw [rescue, bind_eq, after_after]
  refine Passes.after ?_
  intro r
  cases r with
  | error e => exact passes_discardFile (pendingFile token) e
  | ok u =>
    intro r
    cases r with
    | ok u => exact .inl (.renamed (pendingFile token))
    | error e => exact .inr (passes_discardFile (pendingFile token) e)

theorem passes_activate (law : StoreLaw) (key : String) (generation waits : ℕ) (qualified : SealedStore) :
    Passes RenamesActive (custodyProgram F law key (.activate generation qualified waits)) := by
  refine Passes.first ?_ (fun _ => trivial)
  refine Passes.first ?_ (fun _ => trivial)
  refine Passes.after (Passes.follow (fun _ => ?_))
  refine Passes.after (Passes.follow (fun opened => ?_))
  refine Passes.after (Passes.follow (fun _ => ?_))
  refine Passes.after (Passes.follow (fun withdrawal => ?_))
  refine Passes.after (Passes.follow (fun _ => ?_))
  refine Passes.after (Passes.follow (fun found => ?_))
  refine Passes.after (Passes.follow (fun descriptor => ?_))
  refine Passes.after (Passes.follow (fun _ => ?_))
  refine Passes.after (Passes.follow (fun _ => ?_))
  exact passes_replaceMetadata _

/-! ## Over a run -/

def selectedGeneration (s : StoreBundle) : Option ℕ :=
  (s.bundle.text? activeName).bind (fun raw => (readActive F raw).toOption.map ActiveSelection.generation)

theorem selectedGeneration_iff {s : StoreBundle} {g : ℕ} :
    selectedGeneration F s = some g ↔
      ∃ raw a, s.bundle.text? activeName = some raw ∧ readActive F raw = .ok a ∧ a.generation = g := by
  rw [selectedGeneration, Option.bind_eq_some_iff]
  constructor
  · rintro ⟨raw, text, selected⟩
    cases read : readActive F raw with
    | error e =>
      rw [read] at selected
      cases selected
    | ok a =>
      rw [read] at selected
      exact ⟨raw, a, text, read, Option.some.inj selected⟩
  · rintro ⟨raw, a, text, read, rfl⟩
    refine ⟨raw, text, ?_⟩
    rw [read]
    rfl

/-- There are `f` generations, and the active file withdraws `f` or more, or selects `k` or later. -/
def Beyond (f k : ℕ) (s : StoreBundle) : Prop :=
  (∃ n, Inventory s n ∧ f ≤ n) ∧
  ∀ raw, s.bundle.text? activeName = some raw →
    (∀ w, readWithdrawal F raw = .ok w → f ≤ w.generationFloor) ∧
    ∀ a, readActive F raw = .ok a → k ≤ a.generation

/-- A new withdrawal of `f` or more. -/
theorem Beyond.withdrawn {s t : StoreBundle} {f k n : ℕ} {raw : PyStr} {w : Withdrawal}
    (written : Written .bundle activeName raw s t) (inventory : Inventory t n) (bound : f ≤ n)
    (read : readWithdrawal F raw = .ok w) (floor : f ≤ w.generationFloor) : Beyond F f k t := by
  refine ⟨⟨n, inventory, bound⟩, ?_⟩
  intro text there
  have here : t.bundle.text? activeName = some raw := written.same not_pending_active
  cases here.symm.trans there
  refine ⟨?_, fun a again => (active_not_withdrawal F again read).elim⟩
  intro w' again
  cases read.symm.trans again
  exact floor

/-- A new selection of `k` or later. -/
theorem Beyond.selected {s t : StoreBundle} {f k n : ℕ} {raw : PyStr} {a : ActiveSelection}
    (written : Written .bundle activeName raw s t) (inventory : Inventory t n) (bound : f ≤ n)
    (read : readActive F raw = .ok a) (names : k ≤ a.generation) : Beyond F f k t := by
  refine ⟨⟨n, inventory, bound⟩, ?_⟩
  intro text there
  have here : t.bundle.text? activeName = some raw := written.same not_pending_active
  cases here.symm.trans there
  refine ⟨fun w again => (active_not_withdrawal F read again).elim, ?_⟩
  intro a' again
  cases read.symm.trans again
  exact names

theorem StoreMove.beyond {s t : StoreBundle} {f k : ℕ} (move : StoreMove F s t) (le : k ≤ f + 1)
    (beyond : Beyond F f k s) : Beyond F f k t := by
  obtain ⟨⟨n, inventory, bound⟩, active⟩ := beyond
  cases move with
  | undisturbed same =>
    refine ⟨⟨n, inventory.congr (same .descriptors), bound⟩, ?_⟩
    intro raw text
    exact active raw ((same .bundle _ not_pending_active).symm.trans text)
  | anchored written =>
    refine ⟨⟨n, inventory.congr (fun _ own => written.inventory own), bound⟩, ?_⟩
    intro raw text
    have same : t.bundle.text? activeName = s.bundle.text? activeName :=
      written.other (q := .bundle) not_pending_active (fun both => absurd both.2 (by decide))
    exact active raw (same.symm.trans text)
  | published inventory' written =>
    cases inventory.unique inventory'
    refine ⟨⟨n + 1, inventory.published written, by omega⟩, ?_⟩
    intro raw text
    have same : t.bundle.text? activeName = s.bundle.text? activeName :=
      written.other (q := .bundle) not_pending_active (fun both => by cases both.1)
    exact active raw (same.symm.trans text)
  | withdrew inventory' written read floor =>
    cases inventory.unique inventory'
    exact .withdrawn F written (inventory.congr (fun _ own => written.inventory own)) bound read (by omega)
  | selected inventory' present current withdrawn above written read names =>
    cases inventory.unique inventory'
    have floor := (active _ current).1 _ withdrawn
    exact .selected F written (inventory.congr (fun _ own => written.inventory own)) bound read (by omega)

section Runs

variable (law : StoreLaw) (key : String) (live : OpenedBundle)

/-- With the action `a` after `acts`, the call `p` to activate `g` replaces the active file. -/
def Activates (acts : List CustodyAction) (a : CustodyAction) (g p : ℕ) : Prop :=
  ∃ qualified waits, Marked performFile (custodyProgram F law key) rebooted RenamesActive
    (StoreBundle.fresh live) (.activate g qualified waits) p acts a

/-- With the action `a` after `acts`, a maintenance replaces the active file. -/
def Withdraws (acts : List CustodyAction) (a : CustodyAction) : Prop :=
  ∃ waits p, Marked performFile (custodyProgram F law key) rebooted RenamesActive
    (StoreBundle.fresh live) (.maintain waits) p acts a

theorem custodyRun_sound (acts : List CustodyAction) : SoundBundle F (custodyRun F law key live acts).state :=
  (custody_run (custody_lawful F law key) (sound_fresh F live) acts).state

theorem custodyRun_snoc (acts : List CustodyAction) (a : CustodyAction) :
    custodyRun F law key live (acts ++ [a]) =
      Locked.step performFile (custodyProgram F law key) rebooted (custodyRun F law key live acts) a :=
  run_snoc _ _ _ _ _ _

theorem renamed_of_marked {call : CustodyCall} {acts : List CustodyAction} {a : CustodyAction} {p : ℕ}
    (marked : Marked performFile (custodyProgram F law key) rebooted RenamesActive
      (StoreBundle.fresh live) call p acts a) :
    Renamed F (custodyRun F law key live acts).state (custodyRun F law key live (acts ++ [a])).state call
      activeName := by
  obtain ⟨c, task, i, k, performs, rfl, renames⟩ := marked
  have custody := custody_run (custody_lawful F law key) (sound_fresh F live) acts
  have obeyed := (performs.obeys (custody_lawful F law key) custody).1
  have moves : (custodyRun F law key live (acts ++ [a])).state =
      (performFile i (custodyRun F law key live acts).state c).1 := by
    have inside : task.alive = true := performs.alive
    rw [custodyRun_snoc, performs.action, step.eq_2]
    have found : (custodyRun F law key live acts).tasks[p]? = some task := performs.found
    rw [found]
    simp only [if_pos inside, advance, performs.program]
  rw [moves]
  change OpLaw F task.call i (custodyRun F law key live acts).state
    (performFile i (custodyRun F law key live acts).state c).2
    (performFile i (custodyRun F law key live acts).state c).1 at obeyed
  change RenamesActive i (performFile i (custodyRun F law key live acts).state c).2 at renames
  generalize performFile i (custodyRun F law key live acts).state c = result at obeyed renames
  obtain ⟨t, r⟩ := result
  cases renames
  exact obeyed

theorem custodyRun_move (acts : List CustodyAction) (a : CustodyAction) :
    StoreMove F (custodyRun F law key live acts).state (custodyRun F law key live (acts ++ [a])).state := by
  have custody := custody_run (custody_lawful F law key) (sound_fresh F live) acts
  rw [custodyRun_snoc]
  rcases step_cases performFile (custodyProgram F law key) rebooted
      (custodyRun F law key live acts) a with same | ⟨live', -, same⟩ | ⟨p, c, task, i, k, performs, same⟩
  · rw [same]
    exact .undisturbed (Undisturbed.refl _)
  · rw [same]
    refine .undisturbed ?_
    intro q name _
    cases q <;> rfl
  · rw [same]
    exact OpLaw.move F (performs.obeys (custody_lawful F law key) custody).1

theorem custodyRun_keeps {R : StoreBundle → Prop} (kept : ∀ s t, StoreMove F s t → R s → R t)
    (acts more : List CustodyAction) (holds : R (custodyRun F law key live acts).state) :
    R (custodyRun F law key live (acts ++ more)).state := by
  induction more using List.reverseRecOn with
  | nil => rwa [List.append_nil]
  | append_singleton more a ih =>
    rw [← List.append_assoc]
    exact kept _ _ (custodyRun_move F law key live (acts ++ more) a) ih

theorem activates_spec {acts : List CustodyAction} {a : CustodyAction} {g p : ℕ}
    (activates : Activates F law key live acts a g p) :
    (∃ raw w, (custodyRun F law key live acts).state.bundle.text? activeName = some raw ∧
      readWithdrawal F raw = .ok w ∧ w.generationFloor < g) ∧
    ((custodyRun F law key live acts).state.descriptors.text? (generationFile g)).isSome = true ∧
    selectedGeneration F (custodyRun F law key live (acts ++ [a])).state = some g := by
  obtain ⟨qualified, waits, marked⟩ := activates
  obtain ⟨n, raw, a', before, w, inventory, present, current, withdrawn, above, written, read, names⟩ :=
    (renamed_of_marked F law key live marked).ofActivate F rfl rfl
  exact ⟨⟨before, w, current, withdrawn, above⟩,
    (inventory _ (not_pending_generation present.1)).mpr ⟨g, present.1, present.2, rfl⟩,
    (selectedGeneration_iff F).mpr ⟨raw, a', written.same not_pending_active, read, names⟩⟩

theorem activates_increase {acts more : List CustodyAction} {a b : CustodyAction} {g g' p q : ℕ}
    (first : Activates F law key live acts a g p)
    (second : Activates F law key live (acts ++ a :: more) b g' q) : g < g' := by
  obtain ⟨qualified, waits, marked⟩ := first
  have after : Beyond F g g (custodyRun F law key live (acts ++ [a])).state := by
    obtain ⟨n, raw, a', before, w, inventory, present, -, -, -, written, read, names⟩ :=
      (renamed_of_marked F law key live marked).ofActivate F rfl rfl
    exact Beyond.selected F written (inventory.congr (fun _ own => written.inventory own)) present.2 read names.ge
  have later := custodyRun_keeps F law key live
    (fun s t move before => StoreMove.beyond F move (Nat.le_succ g) before) (acts ++ [a]) more after
  rw [List.append_assoc, List.singleton_append] at later
  obtain ⟨⟨raw, w, current, withdrawn, above⟩, -, -⟩ := activates_spec F law key live second
  have floor := (later.2 raw current).1 w withdrawn
  omega

theorem withdrawn_never_selected {acts more : List CustodyAction} {a : CustodyAction} {g : ℕ}
    (withdraws : Withdraws F law key live acts a)
    (selected : selectedGeneration F (custodyRun F law key live (acts ++ a :: more)).state = some g) :
    (custodyRun F law key live acts).state.descriptors.text? (generationFile g) = none := by
  obtain ⟨waits, p, marked⟩ := withdraws
  obtain ⟨n, raw, w, inventory, written, read, floor⟩ :=
    (renamed_of_marked F law key live marked).ofMaintain F rfl rfl
  have after : Beyond F n (n + 1) (custodyRun F law key live (acts ++ [a])).state :=
    Beyond.withdrawn F written (inventory.congr (fun _ own => written.inventory own)) le_rfl read floor.ge
  have later := custodyRun_keeps F law key live
    (fun s t move before => StoreMove.beyond F move le_rfl before) (acts ++ [a]) more after
  rw [List.append_assoc, List.singleton_append] at later
  obtain ⟨text, a', there, read', names⟩ := (selectedGeneration_iff F).mp selected
  have high := (later.2 text there).2 a' read'
  by_contra present
  have isSome := Option.isSome_iff_ne_none.mpr present
  have positive : 1 ≤ g := by omega
  obtain ⟨g', -, bound, same⟩ := (inventory _ (not_pending_generation positive)).mp isSome
  cases generationFile_injective same
  omega

theorem activated_of_success {acts : List CustodyAction} {p g waits : ℕ} {qualified : SealedStore}
    {task : Locked.Task CustodyCall FileAnswer StoreFault CustodyReceipt} {receipt : CustodyReceipt}
    (found : (custodyRun F law key live acts).tasks[p]? = some task)
    (call : task.call = .activate g qualified waits) (answered : task.program = .done (.ok receipt)) :
    ∃ xs a ys, acts = xs ++ a :: ys ∧ Activates F law key live xs a g p := by
  have passes : ∀ call', (∃ g' q w, call' = CustodyCall.activate g' q w) →
      Passes RenamesActive (custodyProgram F law key call') := by
    rintro call' ⟨g', q, w, rfl⟩
    exact passes_activate F law key g' w q
  rcases marked_of_answer (fun _ => RenamesActive) passes acts found ⟨g, qualified, waits, call⟩ with
    still | ⟨xs, a, ys, split, marked⟩
  · rw [answered] at still
    exact still.elim
  · rw [call] at marked
    exact ⟨xs, a, ys, split, qualified, waits, marked⟩

theorem activates_task {acts : List CustodyAction} {a : CustodyAction} {g g' p q : ℕ}
    (first : Activates F law key live acts a g p) (second : Activates F law key live acts a g' q) : p = q := by
  obtain ⟨_, _, c, _, _, _, performs, _⟩ := first
  obtain ⟨_, _, c', _, _, _, performs', _⟩ := second
  have same := performs.action.symm.trans performs'.action
  cases same
  rfl

theorem activations_differ {acts : List CustodyAction} {p q g g' : ℕ}
    (first : ∃ xs a ys, acts = xs ++ a :: ys ∧ Activates F law key live xs a g p)
    (second : ∃ xs a ys, acts = xs ++ a :: ys ∧ Activates F law key live xs a g' q) (ne : p ≠ q) : g ≠ g' := by
  obtain ⟨xs, a, ys, rfl, activates⟩ := first
  obtain ⟨xs', a', ys', split, activates'⟩ := second
  rcases List.append_eq_append_iff.mp split with ⟨more, rfl, rest⟩ | ⟨more, rfl, rest⟩
  · cases more with
    | nil =>
      rw [List.append_nil] at activates'
      cases rest
      exact absurd (activates_task F law key live activates activates') ne
    | cons b more =>
      cases rest
      exact (activates_increase F law key live activates activates').ne
  · cases more with
    | nil =>
      rw [List.append_nil] at activates
      cases rest
      exact absurd (activates_task F law key live activates activates') ne
    | cons b more =>
      cases rest
      exact (activates_increase F law key live activates' activates).ne'

/-- Store generations only move forward. -/
theorem store_generations :
    (∀ (acts more : List CustodyAction) (name raw : PyStr), ¬Pending name →
      (custodyRun F law key live acts).state.descriptors.text? name = some raw →
        (custodyRun F law key live (acts ++ more)).state.descriptors.text? name = some raw) ∧
    (∀ acts : List CustodyAction, ∃ n, ∀ name, ¬Pending name →
      (name ∈ (custodyRun F law key live acts).state.descriptors.entries.keys ↔
        ∃ g, 1 ≤ g ∧ g ≤ n ∧ name = generationFile g)) ∧
    (∀ (acts : List CustodyAction) (raw : PyStr),
      (custodyRun F law key live acts).state.bundle.text? activeName = some raw →
        Xor (∃ w, readWithdrawal F raw = .ok w) (∃ a, readActive F raw = .ok a)) ∧
    (∀ (acts : List CustodyAction) (p g waits : ℕ) (qualified : SealedStore)
      (task : Locked.Task CustodyCall FileAnswer StoreFault CustodyReceipt) (receipt : CustodyReceipt),
      (custodyRun F law key live acts).tasks[p]? = some task → task.call = .activate g qualified waits →
        task.program = .done (.ok receipt) →
          ∃ xs a ys, acts = xs ++ a :: ys ∧ Activates F law key live xs a g p) ∧
    (∀ (acts : List CustodyAction) (a : CustodyAction) (g p : ℕ), Activates F law key live acts a g p →
      (∃ raw w, (custodyRun F law key live acts).state.bundle.text? activeName = some raw ∧
        readWithdrawal F raw = .ok w ∧ w.generationFloor < g) ∧
      ((custodyRun F law key live acts).state.descriptors.text? (generationFile g)).isSome = true ∧
      selectedGeneration F (custodyRun F law key live (acts ++ [a])).state = some g) ∧
    (∀ (acts : List CustodyAction) (p q g g' : ℕ),
      (∃ xs a ys, acts = xs ++ a :: ys ∧ Activates F law key live xs a g p) →
        (∃ xs a ys, acts = xs ++ a :: ys ∧ Activates F law key live xs a g' q) → p ≠ q → g ≠ g') ∧
    (∀ (acts more : List CustodyAction) (a b : CustodyAction) (g g' p q : ℕ),
      Activates F law key live acts a g p → Activates F law key live (acts ++ a :: more) b g' q → g < g') ∧
    ∀ (acts more : List CustodyAction) (a : CustodyAction) (g : ℕ), Withdraws F law key live acts a →
      selectedGeneration F (custodyRun F law key live (acts ++ a :: more)).state = some g →
        (custodyRun F law key live acts).state.descriptors.text? (generationFile g) = none := by
  refine ⟨?_, ?_, ?_, fun acts p g waits qualified task receipt => activated_of_success F law key live,
    fun acts a g p => activates_spec F law key live, fun acts p q g g' => activations_differ F law key live,
    fun acts more a b g g' p q => activates_increase F law key live,
    fun acts more a g => withdrawn_never_selected F law key live⟩
  · intro acts more name raw own found
    exact custodyRun_keeps F law key live (R := fun s => s.descriptors.text? name = some raw)
      (fun s t move before => StoreMove.descriptors F move own before) acts more found
  · intro acts
    have sound := custodyRun_sound F law key live acts
    obtain ⟨n, inventory, -⟩ := sound.inventory
    refine ⟨n, ?_⟩
    intro name own
    rw [← inventory name own]
    exact (sound.whole .descriptors).text?_isSome.symm
  · intro acts raw found
    obtain ⟨n, -, active⟩ := (custodyRun_sound F law key live acts).inventory
    rcases active raw found with ⟨w, read, -⟩ | ⟨a, read, -⟩
    · exact .inl ⟨⟨w, read⟩, fun selects => active_not_withdrawal F selects.choose_spec read⟩
    · exact .inr ⟨⟨a, read⟩, fun withdraws => active_not_withdrawal F read withdraws.choose_spec⟩

end Runs

end Constructicon
