import Mathlib.Tactic
import Mathlib.Data.List.Sort
import Constructicon.Library.Dict

/-!
# JSON values and the identity law

`Json` is the wire form of every value; an object keeps its keys in insertion
order, and a float is an opaque finite token. `canonical` sorts the keys of every
object, so two values have one canonical form exactly when they differ only in
the insertion order of keys. Every identity of the system is
`digest domain version payload`, a function of the canonical payload alone; the
hash itself is a parameter.
-/

namespace Constructicon

inductive Json where
  | null
  | bool (b : Bool)
  | int (n : ℤ)
  | float (token : String)
  | str (s : String)
  | arr (items : List Json)
  | obj (entries : List (String × Json))
deriving Repr

namespace Json

mutual

def beq : Json → Json → Bool
  | .null, .null => true
  | .bool a, .bool b => a == b
  | .int a, .int b => a == b
  | .float a, .float b => a == b
  | .str a, .str b => a == b
  | .arr a, .arr b => beqItems a b
  | .obj a, .obj b => beqEntries a b
  | _, _ => false

def beqItems : List Json → List Json → Bool
  | [], [] => true
  | a :: as, b :: bs => beq a b && beqItems as bs
  | _, _ => false

def beqEntries : List (String × Json) → List (String × Json) → Bool
  | [], [] => true
  | (k, a) :: as, (l, b) :: bs => k == l && beq a b && beqEntries as bs
  | _, _ => false

end

mutual

theorem beq_iff : ∀ a b : Json, beq a b = true ↔ a = b
  | .null, b => by cases b <;> simp [beq]
  | .bool a, b => by cases b <;> simp [beq]
  | .int a, b => by cases b <;> simp [beq]
  | .float a, b => by cases b <;> simp [beq]
  | .str a, b => by cases b <;> simp [beq]
  | .arr a, b => by
    cases b with
    | arr b => simp [beq, beqItems_iff a b]
    | _ => simp [beq]
  | .obj a, b => by
    cases b with
    | obj b => simp [beq, beqEntries_iff a b]
    | _ => simp [beq]

theorem beqItems_iff : ∀ a b : List Json, beqItems a b = true ↔ a = b
  | [], b => by cases b <;> simp [beqItems]
  | a :: as, b => by
    cases b with
    | nil => simp [beqItems]
    | cons b bs => simp [beqItems, beq_iff a b, beqItems_iff as bs]

theorem beqEntries_iff : ∀ a b : List (String × Json), beqEntries a b = true ↔ a = b
  | [], b => by cases b <;> simp [beqEntries]
  | (k, a) :: as, b => by
    cases b with
    | nil => simp [beqEntries]
    | cons b bs =>
      obtain ⟨l, b⟩ := b
      simp [beqEntries, beq_iff a b, beqEntries_iff as bs]

end

instance : DecidableEq Json := fun a b => decidable_of_iff _ (beq_iff a b)

/-- Sort entries by key, keeping the order of equal keys. -/
def sortKeys {ν : Type} (entries : List (String × ν)) : List (String × ν) :=
  entries.insertionSort (fun a b => a.1 ≤ b.1)

mutual

/-- The form `canonical_json` prints: every object's keys in sorted order. -/
def canonical : Json → Json
  | .arr items => .arr (canonicalItems items)
  | .obj entries => .obj (sortKeys (canonicalEntries entries))
  | .null => .null
  | .bool b => .bool b
  | .int n => .int n
  | .float t => .float t
  | .str s => .str s

def canonicalItems : List Json → List Json
  | [] => []
  | j :: js => canonical j :: canonicalItems js

def canonicalEntries : List (String × Json) → List (String × Json)
  | [] => []
  | (k, j) :: es => (k, canonical j) :: canonicalEntries es

end

theorem canonicalItems_eq_map (l : List Json) : canonicalItems l = l.map canonical := by
  induction l with
  | nil => rfl
  | cons j js ih => simp [canonicalItems, ih]

theorem canonicalEntries_eq_map (l : List (String × Json)) :
    canonicalEntries l = l.map (fun p => (p.1, canonical p.2)) := by
  induction l with
  | nil => rfl
  | cons p l ih => simp [canonicalEntries, ih]

theorem sortKeys_map {ν μ : Type} (f : ν → μ) (es : List (String × ν)) :
    sortKeys (es.map (fun p => (p.1, f p.2))) = (sortKeys es).map (fun p => (p.1, f p.2)) :=
  (List.map_insertionSort _ _ (fun p : String × ν => (p.1, f p.2)) es (fun _ _ _ _ => Iff.rfl)).symm

theorem sortKeys_sortKeys {ν : Type} (es : List (String × ν)) :
    sortKeys (sortKeys es) = sortKeys es := by
  have total : Std.Total (fun a b : String × ν => a.1 ≤ b.1) := ⟨fun a b => String.le_total a.1 b.1⟩
  have trans : IsTrans (String × ν) (fun a b => a.1 ≤ b.1) := ⟨fun _ _ _ => String.le_trans⟩
  exact (List.pairwise_insertionSort _ es).insertionSort_eq

theorem canonical_obj (es : List (String × Json)) :
    (obj es).canonical = obj (sortKeys (es.map (fun p => (p.1, p.2.canonical)))) := by
  rw [canonical, canonicalEntries_eq_map]

theorem canonical_arr (items : List Json) : (arr items).canonical = arr (items.map canonical) := by
  rw [canonical, canonicalItems_eq_map]

mutual

theorem canonical_canonical : ∀ j : Json, j.canonical.canonical = j.canonical
  | .null => rfl
  | .bool _ => rfl
  | .int _ => rfl
  | .float _ => rfl
  | .str _ => rfl
  | .arr items => by
    rw [canonical_arr, canonical_arr, canonical_canonicalItems items]
  | .obj entries => by
    rw [canonical_obj, canonical_obj, ← sortKeys_map, sortKeys_sortKeys,
      canonical_canonicalEntries entries]

theorem canonical_canonicalItems : ∀ items : List Json,
    (items.map canonical).map canonical = items.map canonical
  | [] => rfl
  | j :: js => by
    simp only [List.map_cons, canonical_canonical j]
    rw [canonical_canonicalItems js]

theorem canonical_canonicalEntries : ∀ es : List (String × Json),
    (es.map (fun p => (p.1, p.2.canonical))).map (fun p => (p.1, p.2.canonical)) =
      es.map (fun p => (p.1, p.2.canonical))
  | [] => rfl
  | (k, j) :: es => by
    simp only [List.map_cons, canonical_canonical j]
    rw [canonical_canonicalEntries es]

end

end Json

/-- `digest(domain, schema_version, payload)` up to the choice of hash. The hash
sees the canonical payload only; `text` is the printed form of a digest. -/
structure Hashing (δ : Type) where
  hash : String → ℕ → Json → δ
  text : δ → String

namespace Hashing

variable {δ : Type}

def digest (h : Hashing δ) (domain : String) (version : ℕ) (payload : Json) : δ :=
  h.hash domain version payload.canonical

/-- The hash separates distinct canonical payloads. -/
def CollisionFree (h : Hashing δ) : Prop :=
  ∀ d v p q, h.hash d v p = h.hash d v q → p = q

end Hashing

end Constructicon
