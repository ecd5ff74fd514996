import Constructicon.Closedness
import Constructicon.Library.Separated

/-!
# Store keys

The walker files values under the text `addressKey` of a port address, in one
dictionary for the root and one for each loop iteration. Names may contain the
separators of that text, so distinct addresses can be filed under one key:
`addressKey_eq_iff` says exactly when, in terms of the names alone.
-/

namespace Constructicon

variable {δ : Type}

/-- `_address_key` -/
def addressKey : PortAddress → String
  | .nodePort scope node port => "node:" ++ "/".intercalate scope ++ ":" ++ node ++ ":" ++ port
  | .graphInput scope port => "in:" ++ "/".intercalate scope ++ ":" ++ port
  | .graphOutput scope port => "out:" ++ "/".intercalate scope ++ ":" ++ port

inductive AddressKind where
  | node
  | graphInput
  | graphOutput
deriving DecidableEq

def AddressKind.tag : AddressKind → String
  | .node => "node:"
  | .graphInput => "in:"
  | .graphOutput => "out:"

def PortAddress.kind : PortAddress → AddressKind
  | .nodePort .. => .node
  | .graphInput .. => .graphInput
  | .graphOutput .. => .graphOutput

/-- The segments of a scope as words: `/` between them, `:` after the last. -/
def scopeWords : ScopePath → List (List Char × Char)
  | [] => [([], ':')]
  | [segment] => [(segment.toList, ':')]
  | segment :: scope => (segment.toList, '/') :: scopeWords scope

/-- The names of an address, in the order they are written down. -/
def PortAddress.text : PortAddress → Separated.Text Char
  | .nodePort scope node port => ⟨scopeWords scope ++ [(node.toList, ':')], port.toList⟩
  | .graphInput scope port => ⟨scopeWords scope, port.toList⟩
  | .graphOutput scope port => ⟨scopeWords scope, port.toList⟩

/-- Two addresses of one kind whose names can be read as one another's: somewhere a
name of one spells out a name of the other, the separator after it and the beginning
of what follows. -/
def Blurs (a b : PortAddress) : Prop := a.kind = b.kind ∧ Separated.Blends a.text b.text

theorem spell_scopeWords (scope : ScopePath) (rest : List (List Char × Char)) (last : List Char) :
    Separated.spell ⟨scopeWords scope ++ rest, last⟩ =
      ("/".intercalate scope).toList ++ ':' :: Separated.spell ⟨rest, last⟩ := by
  induction scope with
  | nil => rfl
  | cons segment scope ih =>
    cases scope with
    | nil => simp [scopeWords]
    | cons next scope =>
      rw [scopeWords, List.cons_append, Separated.spell_cons, ih, String.intercalate_cons_cons]
      · simp
      · simp

theorem addressKey_toList (a : PortAddress) :
    (addressKey a).toList = a.kind.tag.toList ++ Separated.spell a.text := by
  cases a with
  | nodePort scope node port =>
    simp only [addressKey, PortAddress.kind, PortAddress.text, spell_scopeWords, AddressKind.tag,
      String.toList_append, Separated.spell_cons, Separated.spell_nil]
    simp
  | graphInput scope port =>
    have h := spell_scopeWords scope [] port.toList
    rw [List.append_nil] at h
    simp only [addressKey, PortAddress.kind, PortAddress.text, h, AddressKind.tag,
      String.toList_append, Separated.spell_nil]
    simp
  | graphOutput scope port =>
    have h := spell_scopeWords scope [] port.toList
    rw [List.append_nil] at h
    simp only [addressKey, PortAddress.kind, PortAddress.text, h, AddressKind.tag,
      String.toList_append, Separated.spell_nil]
    simp

theorem kind_eq_of_tag_append {k k' : AddressKind} {x y : List Char}
    (h : k.tag.toList ++ x = k'.tag.toList ++ y) : k = k' := by
  cases k <;> cases k' <;> first | rfl | (simp [AddressKind.tag] at h)

theorem addressKey_eq_iff {a b : PortAddress} : addressKey a = addressKey b ↔ Blurs a b := by
  rw [← String.toList_inj, addressKey_toList, addressKey_toList, Blurs, Separated.blends_iff]
  constructor
  · intro h
    have hk := kind_eq_of_tag_append h
    rw [hk] at h
    exact ⟨hk, List.append_cancel_left h⟩
  · rintro ⟨hk, ht⟩
    rw [hk, ht]

/-! ## The stores of a run -/

/-- One dictionary of values: the root's, or that of one iteration of a loop. -/
abbrev Frame := Option (ScopePath × ℕ)

def Holds (s : RegistrySnapshot) (m : ExecutionManifest δ) : Frame → PortAddress → Prop
  | none, a => ∃ q, Declares s m none a q
  | some (scope, index), a => ∃ l ∈ m.resolvedLoops, l.scope = scope ∧ index < l.maxIterations ∧
      ∃ q, Declares s m (some l) a q

/-- Distinct value addresses have distinct store keys, and publishing one value keeps
every other. -/
structure KeysSeparate (s : RegistrySnapshot) (m : ExecutionManifest δ) : Prop where
  keys : ∀ {f f' : Frame} {a b : PortAddress}, Holds s m f a → Holds s m f' b →
    (f, addressKey a) = (f', addressKey b) → f = f' ∧ a = b
  publishing : ∀ {f : Frame} {a b : PortAddress}, Holds s m f a → Holds s m f b → a ≠ b →
    ∀ (values : Dict String Json) (v : Json),
      (values.insert (addressKey a) v).get? (addressKey b) = values.get? (addressKey b)

/-- Some frame holds two addresses whose names blur. -/
def BlurredFrame (s : RegistrySnapshot) (m : ExecutionManifest δ) : Prop :=
  ∃ f a b, Holds s m f a ∧ Holds s m f b ∧ a ≠ b ∧ Blurs a b

/-- The keys of a manifest are separate exactly when no frame holds blurred names. -/
theorem keysSeparate_iff (s : RegistrySnapshot) (m : ExecutionManifest δ) :
    KeysSeparate s m ↔ ¬ BlurredFrame s m := by
  constructor
  · rintro h ⟨f, a, b, ha, hb, hne, hblur⟩
    exact hne (h.keys ha hb (by rw [addressKey_eq_iff.mpr hblur])).2
  · intro h
    have hinj : ∀ {f : Frame} {a b : PortAddress}, Holds s m f a → Holds s m f b →
        addressKey a = addressKey b → a = b := by
      intro f a b ha hb he
      by_contra hne
      exact h ⟨f, a, b, ha, hb, hne, addressKey_eq_iff.mp he⟩
    refine ⟨?_, ?_⟩
    · intro f f' a b ha hb he
      obtain ⟨rfl, hk⟩ := Prod.mk.inj he
      exact ⟨rfl, hinj ha hb hk⟩
    · intro f a b ha hb hne values v
      exact Dict.get?_insert_ne values v fun he => hne (hinj ha hb he)

namespace Sample

/-- A node `a/b` beside a node `a` that has a node `b`: both hold a node `c`. -/
def slashed : Graph where
  name := "g"
  nodes := [⟨"a/b", .graph ⟨"n", [⟨"c", .ref { component := "pair" }⟩], [], [], []⟩⟩,
    ⟨"a", .graph ⟨"n", [⟨"b", .graph ⟨"n", [⟨"c", .ref { component := "pair" }⟩], [], [], []⟩⟩],
      [], [], []⟩⟩]

def slashedManifest : ExecutionManifest (String × ℕ × Json) :=
  sealManifest (admission .empty) slashed (admitCompile (admission .empty) 3 slashed).log

end Sample

/-- An admitted manifest whose instances `g/a/b:c` and `g/a:b/c` share every key. -/
theorem slashed_keys_collide :
    admitGraph (Sample.admission .empty) 3 Sample.slashed = .ok Sample.slashedManifest ∧
      ¬ KeysSeparate Sample.snapshot Sample.slashedManifest := by
  refine ⟨rfl, fun h => ?_⟩
  have hinst : Sample.snapshot.instances Sample.slashedManifest =
      [(Sample.atomic "pair" [] [Sample.value "x", Sample.value "y"]).instanceAt ["g", "a/b", "c"],
        (Sample.atomic "pair" [] [Sample.value "x", Sample.value "y"]).instanceAt
          ["g", "a", "b", "c"]] := rfl
  have hroot : ∀ i, InRegion Sample.slashedManifest i none := fun i l hl => by cases hl
  have hout : ∀ i ∈ Sample.snapshot.instances Sample.slashedManifest,
      Sample.value "x" ∈ i.definition.outputs →
        Holds Sample.snapshot Sample.slashedManifest none (i.port "x") :=
    fun i hi hp => ⟨_, .output hi (hroot i) hp⟩
  have ha := hout _ (by rw [hinst]; exact List.mem_cons_self) List.mem_cons_self
  have hb := hout _ (by rw [hinst]; exact List.mem_cons_of_mem _ List.mem_cons_self) List.mem_cons_self
  have hkey : addressKey (.nodePort ["g", "a/b"] "c" "x") =
      addressKey (.nodePort ["g", "a", "b"] "c" "x") := by decide
  have he := (h.keys ha hb (by exact congrArg (Prod.mk none) hkey)).2
  revert he
  decide

end Constructicon
