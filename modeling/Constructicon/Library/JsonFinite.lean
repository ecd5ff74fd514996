import Constructicon.Library.PyJson

/-!
# `parse_constant`

`json.loads` hands `NaN`, `Infinity` and `-Infinity` to a hook of their own. A hook that raises ends the
scan there, before any defect that a later character shows. `meets` says whether the scan gets to such a
constant; a text that is read with one has it in its value.
-/

namespace PyJson

open Transaction

variable {φ ε : Type} (F : FloatText φ) (bad : ε) (hook : List (PyStr × PyValue φ) → Except ε (PyValue φ))

def PyValue.notFinite : PyValue φ → Bool
  | .float Option.none => true
  | _ => false

mutual

/-- Whether `scanOnce` meets a constant that is no JSON. -/
def meetsOnce : ℕ → PyStr → Bool
  | 0, _ => false
  | _ + 1, [] => false
  | fuel + 1, c :: s =>
    if c = 34 then false
    else if c = 123 then meetsObject fuel (skipBlanks s)
    else if c = 91 then meetsArray fuel (skipBlanks s)
    else (scanConstant (φ := φ) (c :: s)).any (fun r => r.1.notFinite)

def meetsArray : ℕ → PyStr → Bool
  | 0, _ => false
  | fuel + 1, s =>
    match s with
    | 93 :: _ => false
    | s => meetsItems fuel s

def meetsItems : ℕ → PyStr → Bool
  | 0, _ => false
  | fuel + 1, s =>
    meetsOnce fuel s || match scanOnce F bad hook fuel s with
      | .ok (_, s) =>
        match skipBlanks s with
        | 44 :: s => meetsItems fuel (skipBlanks s)
        | _ => false
      | .error _ => false

def meetsObject : ℕ → PyStr → Bool
  | 0, _ => false
  | fuel + 1, s =>
    match s with
    | 125 :: _ => false
    | s => meetsMembers fuel s

def meetsMembers : ℕ → PyStr → Bool
  | fuel + 1, 34 :: s =>
    match scanString s with
    | some (_, s) =>
      match skipBlanks s with
      | 58 :: s =>
        meetsOnce fuel (skipBlanks s) || match scanOnce F bad hook fuel (skipBlanks s) with
          | .ok (_, s) =>
            match skipBlanks s with
            | 44 :: s => meetsMembers fuel (skipBlanks s)
            | _ => false
          | .error _ => false
      | _ => false
    | none => false
  | _, _ => false

end

/-- Whether `json.loads` meets a constant that is no JSON. -/
def meets (text : PyStr) : Bool :=
  text.head? ≠ some 0xfeff && meetsOnce F bad hook (4 * text.length + 4) (skipBlanks text)

/-- `json.loads` with a `parse_constant` that raises. -/
def loadsFinite (constant : ε) (text : PyStr) : Except ε (PyValue φ) :=
  if meets F bad hook text then .error constant else loads F bad hook text

def Unbounded (v : PyValue φ) : Prop := Part (.float none) v

/-- What `n` fuel reads has the constants that it meets. -/
structure Meets (n : ℕ) : Prop where
  once : ∀ {s r v}, scanOnce F bad hook n s = .ok (v, r) → meetsOnce F bad hook n s = true → Unbounded v
  array : ∀ {s r l}, scanArray F bad hook n s = .ok (l, r) → meetsArray F bad hook n s = true → ∃ v ∈ l, Unbounded v
  items : ∀ {s r l}, scanItems F bad hook n s = .ok (l, r) → meetsItems F bad hook n s = true → ∃ v ∈ l, Unbounded v
  object : ∀ {s r l}, scanObject F bad hook n s = .ok (l, r) → meetsObject F bad hook n s = true →
    ∃ p ∈ l, Unbounded p.2
  members : ∀ {s r l}, scanMembers F bad hook n s = .ok (l, r) → meetsMembers F bad hook n s = true →
    ∃ p ∈ l, Unbounded p.2

variable {F bad hook}

theorem meets_items {n : ℕ} (h : Meets F bad hook n) {s r : PyStr} {l : List (PyValue φ)}
    (read : scanItems F bad hook (n + 1) s = .ok (l, r)) (met : meetsItems F bad hook (n + 1) s = true) :
    ∃ v ∈ l, Unbounded v := by
  simp only [scanItems, bind_eq_ok] at read
  obtain ⟨⟨v, s'⟩, item, read⟩ := read
  rw [meetsItems, item, Bool.or_eq_true] at met
  have first := h.once item
  dsimp only at read met
  split at read
  · next rest close =>
    cases read
    rw [close] at met
    rcases met with met | met
    · exact ⟨v, List.mem_cons_self, first met⟩
    · cases met
  · next rest comma =>
    simp only [bind_eq_ok] at read
    obtain ⟨⟨l', r'⟩, more, same⟩ := read
    cases same
    rw [comma] at met
    rcases met with met | met
    · exact ⟨v, List.mem_cons_self, first met⟩
    · obtain ⟨w, mem, unbounded⟩ := h.items more met
      exact ⟨w, List.mem_cons_of_mem _ mem, unbounded⟩
  · cases read

theorem meets_members {n : ℕ} (h : Meets F bad hook n) {s r : PyStr} {l : List (PyStr × PyValue φ)}
    (read : scanMembers F bad hook (n + 1) s = .ok (l, r)) (met : meetsMembers F bad hook (n + 1) s = true) :
    ∃ p ∈ l, Unbounded p.2 := by
  cases s with
  | nil => simp [scanMembers] at read
  | cons c s =>
    by_cases quoted : c = 34
    · subst quoted
      simp only [scanMembers, bind_eq_ok, expect_eq_ok] at read
      obtain ⟨⟨key, s₁⟩, name, read⟩ := read
      rw [meetsMembers, name] at met
      dsimp only at read met
      split at read
      · next s₂ colon =>
        simp only [bind_eq_ok] at read
        obtain ⟨⟨v, s₃⟩, value, read⟩ := read
        have first := h.once value
        simp only [colon, value, Bool.or_eq_true] at met
        dsimp only at read
        split at read
        · next rest close =>
          cases read
          rw [close] at met
          rcases met with met | met
          · exact ⟨_, List.mem_cons_self, first met⟩
          · cases met
        · next rest comma =>
          simp only [bind_eq_ok] at read
          obtain ⟨⟨l', r'⟩, more, same⟩ := read
          cases same
          rw [comma] at met
          rcases met with met | met
          · exact ⟨_, List.mem_cons_self, first met⟩
          · obtain ⟨p, mem, unbounded⟩ := h.members more met
            exact ⟨p, List.mem_cons_of_mem _ mem, unbounded⟩
        · cases read
      · cases read
    · simp [scanMembers, quoted] at read

variable (kept : ∀ pairs v, hook pairs = .ok v → ∀ p ∈ pairs, Unbounded p.2 → Unbounded v)

include kept

theorem meets_once {n : ℕ} (h : Meets F bad hook n) {s r : PyStr} {v : PyValue φ}
    (read : scanOnce F bad hook (n + 1) s = .ok (v, r)) (met : meetsOnce F bad hook (n + 1) s = true) :
    Unbounded v := by
  cases s with
  | nil => cases read
  | cons c s =>
    rw [scanOnce] at read
    rw [meetsOnce] at met
    split_ifs at read met with quoted braced bracketed
    · simp only [bind_eq_ok] at read
      obtain ⟨⟨pairs, s'⟩, object, value, hooked, same⟩ := read
      cases same
      obtain ⟨p, mem, unbounded⟩ := h.object object met
      exact kept pairs _ hooked p mem unbounded
    · simp only [bind_eq_ok] at read
      obtain ⟨⟨items, s'⟩, array, same⟩ := read
      cases same
      obtain ⟨w, mem, unbounded⟩ := h.array array met
      exact .item mem unbounded
    · obtain ⟨x, constant, unbounded⟩ := Option.any_eq_true _ _ |>.mp met
      rw [constant] at read
      cases read
      dsimp only at unbounded
      unfold PyValue.notFinite at unbounded
      split at unbounded
      · exact .whole
      · cases unbounded

theorem scan_meets (n : ℕ) : Meets F bad hook n := by
  induction n with
  | zero =>
    constructor <;> intro s r x read
    · simp [scanOnce] at read
    · simp [scanArray] at read
    · simp [scanItems] at read
    · simp [scanObject] at read
    · simp [scanMembers] at read
  | succ n ih =>
    constructor
    · intro s r v read met
      exact meets_once kept ih read met
    · intro s r l read met
      rw [scanArray.eq_def] at read
      rw [meetsArray.eq_def] at met
      dsimp only at read met
      split at read
      · cases met
      · next other =>
        split at met
        · cases met
        · exact ih.items read met
    · intro s r l read met
      exact meets_items ih read met
    · intro s r l read met
      rw [scanObject.eq_def] at read
      rw [meetsObject.eq_def] at met
      dsimp only at read met
      split at read
      · cases met
      · split at met
        · cases met
        · exact ih.members read met
    · intro s r l read met
      exact meets_members ih read met

theorem loadsFinite_of {constant : ε} {text : PyStr} {v : PyValue φ} (read : loads F bad hook text = .ok v)
    (finite : ¬Unbounded v) : loadsFinite F bad hook constant text = .ok v := by
  have passed : meets F bad hook text = false := by
    by_contra met
    rw [Bool.not_eq_false, meets, Bool.and_eq_true] at met
    have scanned := read
    unfold loads at scanned
    simp only [bind_eq_ok, require_eq_ok] at scanned
    obtain ⟨_, -, ⟨w, r⟩, scanned, _, -, same⟩ := scanned
    cases same
    exact finite ((scan_meets kept _).once scanned met.2)
  rw [loadsFinite, passed]
  exact read

end PyJson
