import Constructicon.Library.JsonNesting

/-!
# A depth scan in front of a JSON parser

A scan that knows nothing of the grammar counts brackets outside strings, up and down. What a parser
consumes of a text leaves the count where it was, so the count reaches at least as high as the parser
goes deep, whatever surrounds the brackets; on a text that is consumed whole it reaches just as high.
-/

namespace PyJson

open Transaction

/-- Where a scan stands: the count of open brackets, in a string or not, after a backslash or not. -/
structure Scan where
  depth : ℤ
  quoted : Bool
  escaped : Bool

def Scan.outside (depth : ℤ) : Scan := ⟨depth, false, false⟩

def Scan.inside (depth : ℤ) : Scan := ⟨depth, true, false⟩

def Scan.next (g : Scan) (c : ℕ) : Scan :=
  if g.quoted then
    if g.escaped then { g with escaped := false }
    else if c = 92 then { g with escaped := true }
    else if c = 34 then { g with quoted := false }
    else g
  else if c = 34 then { g with quoted := true }
  else if c = 91 ∨ c = 123 then { g with depth := g.depth + 1 }
  else if c = 93 ∨ c = 125 then { g with depth := g.depth - 1 }
  else g

def Scan.walk (g : Scan) (s : PyStr) : Scan := s.foldl Scan.next g

def Scan.peak : Scan → PyStr → ℤ
  | g, [] => g.depth
  | g, c :: s => max g.depth ((g.next c).peak s)

def Scan.step (limit : ℤ) (g : Scan) (c : ℕ) : Option Scan :=
  if limit < (g.next c).depth then none else some (g.next c)

theorem Scan.depth_le_peak (g : Scan) (s : PyStr) : g.depth ≤ g.peak s := by
  cases s with
  | nil => exact le_rfl
  | cons c s => exact le_max_left _ _

theorem Scan.le_peak (d : ℤ) (s : PyStr) : d ≤ (outside d).peak s := depth_le_peak (outside d) s

theorem Scan.walk_append (g : Scan) (s t : PyStr) : g.walk (s ++ t) = (g.walk s).walk t := List.foldl_append

theorem Scan.peak_append (g : Scan) (s t : PyStr) : g.peak (s ++ t) = max (g.peak s) ((g.walk s).peak t) := by
  induction s generalizing g with
  | nil => exact (max_eq_right (depth_le_peak g t)).symm
  | cons c s ih =>
    rw [List.cons_append, peak, peak, ih, max_assoc]
    rfl

theorem Scan.foldlM_step {limit : ℤ} {g : Scan} (low : g.depth ≤ limit) (s : PyStr) :
    s.foldlM (Scan.step limit) g = if limit < g.peak s then none else some (g.walk s) := by
  induction s generalizing g with
  | nil => rw [peak, if_neg (not_lt.mpr low)]; rfl
  | cons c s ih =>
    rw [List.foldlM_cons, step, peak, walk, List.foldl_cons]
    split_ifs with above high high
    · rfl
    · have reached := depth_le_peak (g.next c) s
      exact absurd (lt_max_of_lt_right (lt_of_lt_of_le above reached)) high
    · have later := (lt_max_iff.mp high).resolve_left (not_lt.mpr low)
      change s.foldlM (Scan.step limit) (g.next c) = none
      rw [ih (not_lt.mp above), if_pos later]
    · have later : ¬limit < (g.next c).peak s := fun h => high (lt_max_of_lt_right h)
      change s.foldlM (Scan.step limit) (g.next c) = _
      rw [ih (not_lt.mp above), if_neg later]
      rfl

/-! ## What a parser consumes -/

/-- A scan of `t` comes to `g'` and never counts higher than `top`. -/
structure Scan.Passes (g : Scan) (t : PyStr) (g' : Scan) (top : ℤ) : Prop where
  walk : g.walk t = g'
  peak : g.peak t ≤ top

theorem Scan.Passes.nil {g : Scan} {top : ℤ} (low : g.depth ≤ top) : g.Passes [] g top := ⟨rfl, low⟩

theorem Scan.Passes.cons {g g' : Scan} {c : ℕ} {t : PyStr} {top : ℤ} (low : g.depth ≤ top)
    (rest : (g.next c).Passes t g' top) : g.Passes (c :: t) g' top := ⟨rest.walk, max_le low rest.peak⟩

theorem Scan.Passes.append {g g' g'' : Scan} {s t : PyStr} {top : ℤ} (front : g.Passes s g' top)
    (back : g'.Passes t g'' top) : g.Passes (s ++ t) g'' top := by
  refine ⟨?_, ?_⟩
  · rw [walk_append, front.walk, back.walk]
  · rw [peak_append, front.walk]
    exact max_le front.peak back.peak

def Neutral (c : ℕ) : Prop := c ≠ 34 ∧ c ≠ 91 ∧ c ≠ 93 ∧ c ≠ 123 ∧ c ≠ 125

theorem Scan.next_neutral {c : ℕ} (neutral : Neutral c) (d : ℤ) : (Scan.outside d).next c = .outside d := by
  obtain ⟨quote, bracket, bracket', brace, brace'⟩ := neutral
  simp [Scan.next, Scan.outside, quote, bracket, bracket', brace, brace']

theorem Scan.passes_neutral {t : PyStr} (neutral : ∀ c ∈ t, Neutral c) {d top : ℤ} (low : d ≤ top) :
    (Scan.outside d).Passes t (.outside d) top := by
  induction t with
  | nil => exact .nil low
  | cons c t ih =>
    obtain ⟨here, later⟩ := List.forall_mem_cons.mp neutral
    refine .cons low ?_
    rw [next_neutral here]
    exact ih later

theorem neutral_blank {c : ℕ} (blank : isBlank c = true) : Neutral c := by
  simp only [isBlank, Bool.or_eq_true, beq_iff_eq] at blank
  unfold Neutral
  omega

theorem neutral_numeric {c : ℕ} (number : numeric c = true) : Neutral c := by
  simp only [numeric, numberPart, isDigit, Bool.or_eq_true, Bool.and_eq_true, beq_iff_eq, decide_eq_true_eq] at number
  unfold Neutral
  omega

theorem Scan.peak_skipBlanks (d : ℤ) (s : PyStr) : (Scan.outside d).peak (skipBlanks s) ≤ (Scan.outside d).peak s := by
  obtain ⟨b, blank, split⟩ := skipBlanks_split s
  have passes : (Scan.outside d).Passes b (.outside d) d := passes_neutral (fun c hc => neutral_blank (blank c hc)) le_rfl
  conv_rhs => rw [split, peak_append, passes.walk]
  exact le_max_right _ _

theorem ne_special_of_hexDigit {c n : ℕ} (h : hexDigit c = some n) : c ≠ 34 ∧ c ≠ 92 := by
  unfold hexDigit at h
  split_ifs at h <;> omega

theorem Scan.passes_hex {a b c d u : ℕ} (digits : hex4 a b c d = some u) {n : ℤ} {t : PyStr} {g : Scan} {top : ℤ}
    (low : n ≤ top) (rest : (Scan.inside n).Passes t g top) :
    (Scan.inside n).Passes (92 :: 117 :: a :: b :: c :: d :: t) g top := by
  unfold hex4 at digits
  simp only [Option.bind_eq_bind, Option.bind_eq_some_iff] at digits
  obtain ⟨w, first, x, second, y, third, z, fourth, -⟩ := digits
  have plain : ∀ {e v : ℕ}, hexDigit e = some v → (Scan.inside n).next e = .inside n := by
    intro e v digit
    obtain ⟨quote, slash⟩ := ne_special_of_hexDigit digit
    simp [Scan.next, Scan.inside, quote, slash]
  refine .cons low (.cons low ?_)
  change (Scan.inside n).Passes _ _ _
  refine .cons low ?_
  rw [plain first]
  refine .cons low ?_
  rw [plain second]
  refine .cons low ?_
  rw [plain third]
  refine .cons low ?_
  rw [plain fourth]
  exact rest

theorem Scan.passes_units {s r : PyStr} {units : List StrUnit} (h : scanUnits s = some (units, r)) :
    ∃ t, s = t ++ r ∧ ∀ {d top : ℤ}, d ≤ top → (Scan.inside d).Passes t (.outside d) top := by
  have unit : ∀ {u : StrUnit} {s : PyStr} {units : List StrUnit} {r : PyStr},
      (∀ units r, scanUnits s = some (units, r) →
        ∃ t, s = t ++ r ∧ ∀ {d top : ℤ}, d ≤ top → (Scan.inside d).Passes t (.outside d) top) →
      consUnit u (scanUnits s) = some (units, r) →
        ∃ t, s = t ++ r ∧ ∀ {d top : ℤ}, d ≤ top → (Scan.inside d).Passes t (.outside d) top := by
    intro u s units r ih h
    unfold consUnit at h
    rw [Option.map_eq_some_iff] at h
    obtain ⟨⟨units', r'⟩, found, same⟩ := h
    cases same
    exact ih _ _ found
  induction s using scanUnits.induct generalizing units r with
  | case1 => simp [scanUnits] at h
  | case2 s =>
    simp only [scanUnits, Option.some.injEq, Prod.mk.injEq] at h
    obtain ⟨-, rfl⟩ := h
    exact ⟨[34], rfl, fun low => .cons low (.nil low)⟩
  | case3 a b c d s ih =>
    rw [scanUnits, Option.bind_eq_some_iff] at h
    obtain ⟨u, digits, h⟩ := h
    obtain ⟨t, rfl, passes⟩ := unit (fun units r read => ih read) h
    exact ⟨92 :: 117 :: a :: b :: c :: d :: t, rfl, fun low => passes_hex digits low (passes low)⟩
  | case4 e s other ih =>
    rw [scanUnits.eq_4 _ _ other, Option.bind_eq_some_iff] at h
    obtain ⟨u, -, h⟩ := h
    obtain ⟨t, rfl, passes⟩ := unit (fun units r read => ih read) h
    exact ⟨92 :: e :: t, rfl, fun low => .cons low (.cons low (passes low))⟩
  | case5 c s h₁ h₂ h₃ illegal =>
    rw [scanUnits.eq_5 _ _ h₁ h₂ h₃, if_pos illegal] at h
    cases h
  | case6 c s h₁ h₂ h₃ legal ih =>
    rw [scanUnits.eq_5 _ _ h₁ h₂ h₃, if_neg legal] at h
    obtain ⟨t, rfl, passes⟩ := unit (fun units r read => ih read) h
    refine ⟨c :: t, rfl, fun low => .cons low ?_⟩
    have quote : c ≠ 34 := by
      rintro rfl
      exact h₁ rfl
    have slash : c ≠ 92 := fun same => legal (.inr same)
    have same : ∀ d, (Scan.inside d).next c = .inside d := by
      intro d
      simp [Scan.next, Scan.inside, quote, slash]
    rw [same]
    exact passes low

theorem Scan.Passes.mono {g g' : Scan} {t : PyStr} {top top' : ℤ} (h : g.Passes t g' top) (le : top ≤ top') :
    g.Passes t g' top' := ⟨h.walk, h.peak.trans le⟩

theorem Scan.passes_blank {b : PyStr} (blank : Blank b) {d top : ℤ} (low : d ≤ top) :
    (Scan.outside d).Passes b (.outside d) top := passes_neutral (fun c hc => neutral_blank (blank c hc)) low

variable {φ ε : Type} {F : FloatText φ} {bad : ε} {hook : List (PyStr × PyValue φ) → Except ε (PyValue φ)}

theorem neutral_constant {c : PyStr × PyValue φ} (mem : c ∈ constants) : ∀ d ∈ c.1, Neutral d := by
  have each : ∀ word ∈ [[116, 114, 117, 101], [102, 97, 108, 115, 101], [110, 117, 108, 108], [78, 97, 78],
      [73, 110, 102, 105, 110, 105, 116, 121], [45, 73, 110, 102, 105, 110, 105, 116, 121]],
      ∀ d ∈ word, d ≠ 34 ∧ d ≠ 91 ∧ d ≠ 93 ∧ d ≠ 123 ∧ d ≠ 125 := by decide
  refine each c.1 ?_
  unfold constants at mem
  simp only [List.mem_cons, List.not_mem_nil, or_false] at mem ⊢
  rcases mem with rfl | rfl | rfl | rfl | rfl | rfl <;> simp

theorem scanConstant_neutral {s r : PyStr} {v : PyValue φ} (h : scanConstant s = some (v, r)) :
    ∃ t, s = t ++ r ∧ ∀ c ∈ t, Neutral c := by
  unfold scanConstant at h
  obtain ⟨c, mem, found⟩ := List.exists_of_findSome?_eq_some h
  rw [Option.map_eq_some_iff] at found
  obtain ⟨rest, read, same⟩ := found
  cases same
  exact ⟨c.1, after_split read, neutral_constant mem⟩

variable (F bad hook) in
theorem nestOnce_le_items (m : ℕ) (s : PyStr) : nestOnce F bad hook m s ≤ nestItems F bad hook (m + 1) s := by
  rw [nestItems]
  exact le_max_left _ _

theorem nestItems_comma {m : ℕ} {s s' rest : PyStr} {v : PyValue φ} (item : scanOnce F bad hook m s = .ok (v, s'))
    (comma : skipBlanks s' = 44 :: rest) : nestItems F bad hook (m + 1) s =
      max (nestOnce F bad hook m s) (nestItems F bad hook m (skipBlanks rest)) := by
  rw [nestItems]
  simp only [item, comma]

theorem nestMembers_value {m : ℕ} {key s s' rest : PyStr} (name : scanString s = some (key, s'))
    (colon : skipBlanks s' = 58 :: rest) :
    nestOnce F bad hook m (skipBlanks rest) ≤ nestMembers F bad hook (m + 1) (34 :: s) := by
  rw [nestMembers]
  simp only [name, colon]
  exact le_max_left _ _

theorem nestMembers_comma {m : ℕ} {key s s' rest s'' rest' : PyStr} {v : PyValue φ}
    (name : scanString s = some (key, s')) (colon : skipBlanks s' = 58 :: rest)
    (value : scanOnce F bad hook m (skipBlanks rest) = .ok (v, s'')) (comma : skipBlanks s'' = 44 :: rest') :
    nestMembers F bad hook (m + 1) (34 :: s) =
      max (nestOnce F bad hook m (skipBlanks rest)) (nestMembers F bad hook m (skipBlanks rest')) := by
  rw [nestMembers]
  simp only [name, colon, value, comma]

theorem scanOnce_enough {n m : ℕ} {s r : PyStr} {v : PyValue φ} (read : scanOnce F bad hook n s = .ok (v, r))
    (enough : 4 * s.length ≤ m) : r.length < s.length ∧ scanOnce F bad hook m s = .ok (v, r) := by
  have kept : KeepsOnce F bad hook hook (fun _ => True) n :=
    scan_keeps (fun _ _ => trivial) (fun _ _ => trivial) (fun _ _ _ hooked => ⟨trivial, hooked⟩) n
  obtain ⟨-, shorter, more⟩ := kept _ _ _ read
  exact ⟨shorter, more m enough⟩

variable (F bad hook) in
/-- What `n` fuel consumes leaves the count as it was, or one lower with the bracket that closes, and
raises it no higher than the parser goes deep. -/
structure Scan.Tracks (n : ℕ) : Prop where
  once : ∀ {s r v}, scanOnce F bad hook n s = .ok (v, r) → ∃ t, s = t ++ r ∧
    ∀ {m}, 4 * s.length ≤ m → ∀ d : ℤ, (outside d).Passes t (outside d) (d + nestOnce F bad hook m s)
  array : ∀ {s r l}, scanArray F bad hook n s = .ok (l, r) → ∃ t, s = t ++ r ∧
    ∀ {m}, 4 * s.length + 1 ≤ m → ∀ d : ℤ, (outside d).Passes t (outside (d - 1)) (d + nestItems F bad hook m s)
  items : ∀ {s r l}, scanItems F bad hook n s = .ok (l, r) → ∃ t, s = t ++ r ∧
    ∀ {m}, 4 * s.length + 1 ≤ m → ∀ d : ℤ, (outside d).Passes t (outside (d - 1)) (d + nestItems F bad hook m s)
  object : ∀ {s r l}, scanObject F bad hook n s = .ok (l, r) → ∃ t, s = t ++ r ∧
    ∀ {m}, 4 * s.length + 1 ≤ m → ∀ d : ℤ, (outside d).Passes t (outside (d - 1)) (d + nestMembers F bad hook m s)
  members : ∀ {s r l}, scanMembers F bad hook n s = .ok (l, r) → ∃ t, s = t ++ r ∧
    ∀ {m}, 4 * s.length + 1 ≤ m → ∀ d : ℤ, (outside d).Passes t (outside (d - 1)) (d + nestMembers F bad hook m s)

theorem Scan.passes_close {c : ℕ} (closes : c = 93 ∨ c = 125) {d top : ℤ} (low : d ≤ top) :
    (Scan.outside d).Passes [c] (.outside (d - 1)) top := by
  have next : (Scan.outside d).next c = .outside (d - 1) := by
    rcases closes with rfl | rfl <;> rfl
  refine .cons low ?_
  rw [next]
  exact .nil (by change d - 1 ≤ top; omega)

theorem Scan.passes_closed {s r : PyStr} {c : ℕ} (closes : c = 93 ∨ c = 125) (found : skipBlanks s = c :: r) :
    ∃ t, s = t ++ r ∧ ∀ {d top : ℤ}, d ≤ top → (Scan.outside d).Passes t (.outside (d - 1)) top := by
  obtain ⟨b, blank, split⟩ := skipBlanks_split s
  refine ⟨b ++ [c], ?_, fun low => (passes_blank blank low).append (passes_close closes low)⟩
  rw [split, found, List.append_assoc]
  rfl

theorem Scan.passes_mark {s rest : PyStr} {c : ℕ} (neutral : Neutral c) (found : skipBlanks s = c :: rest) :
    ∃ t, s = t ++ skipBlanks rest ∧ ∀ {d top : ℤ}, d ≤ top → (Scan.outside d).Passes t (.outside d) top := by
  obtain ⟨b, blank, split⟩ := skipBlanks_split s
  obtain ⟨b', blank', split'⟩ := skipBlanks_split rest
  refine ⟨b ++ c :: b', ?_, fun low => (passes_blank blank low).append (.cons low ?_)⟩
  · rw [split, found, List.append_assoc, List.cons_append, ← split']
  · rw [next_neutral neutral]
    exact passes_blank blank' low

theorem Scan.tracks_items {n : ℕ} (h : Scan.Tracks F bad hook n) {s r : PyStr} {l : List (PyValue φ)}
    (read : scanItems F bad hook (n + 1) s = .ok (l, r)) : ∃ t, s = t ++ r ∧ ∀ {m}, 4 * s.length + 1 ≤ m →
      ∀ d : ℤ, (outside d).Passes t (outside (d - 1)) (d + nestItems F bad hook m s) := by
  simp only [scanItems, bind_eq_ok] at read
  obtain ⟨⟨v, s'⟩, item, read⟩ := read
  obtain ⟨t, split, passes⟩ := h.once item
  dsimp only at read
  split at read
  · next rest close =>
    cases read
    obtain ⟨u, split', closed⟩ := passes_closed (.inl rfl) close
    refine ⟨t ++ u, by rw [split, split', List.append_assoc], ?_⟩
    intro m enough d
    obtain ⟨k, rfl⟩ : ∃ k, m = k + 1 := ⟨m - 1, by omega⟩
    have inner := nestOnce_le_items F bad hook k s
    exact ((@passes k (by omega) d).mono (by omega)).append (closed (by omega))
  · next rest comma =>
    simp only [bind_eq_ok] at read
    obtain ⟨⟨l', r'⟩, more, same⟩ := read
    cases same
    obtain ⟨u, split', marked⟩ := passes_mark (by unfold Neutral; omega) comma
    obtain ⟨w, split'', later⟩ := h.items more
    refine ⟨t ++ (u ++ w), by rw [split, split', split'', List.append_assoc, List.append_assoc], ?_⟩
    intro m enough d
    obtain ⟨k, rfl⟩ : ∃ k, m = k + 1 := ⟨m - 1, by omega⟩
    obtain ⟨shorter, item'⟩ := @scanOnce_enough _ _ F bad hook n k _ _ _ item (by omega)
    have step := nestItems_comma item' comma
    have blanks := length_skipBlanks s'
    have blanks' := length_skipBlanks rest
    rw [comma, List.length_cons] at blanks
    have here := (@passes k (by omega) d).mono
      (show d + nestOnce F bad hook k s ≤ d + nestItems F bad hook (k + 1) s by omega)
    have there := (@later k (by omega) d).mono
      (show d + nestItems F bad hook k (skipBlanks rest) ≤ d + nestItems F bad hook (k + 1) s by omega)
    exact here.append ((marked (by omega)).append there)
  · cases read

theorem Scan.passes_string {s r key : PyStr} (h : scanString s = some (key, r)) : ∃ t, s = t ++ r ∧
    ∀ {d top : ℤ}, d ≤ top → (Scan.outside d).Passes (34 :: t) (.outside d) top := by
  unfold scanString at h
  rw [Option.map_eq_some_iff] at h
  obtain ⟨⟨units, r'⟩, read, same⟩ := h
  cases same
  obtain ⟨t, split, passes⟩ := passes_units read
  exact ⟨t, split, fun low => .cons low (passes low)⟩

theorem Scan.tracks_members {n : ℕ} (h : Scan.Tracks F bad hook n) {s r : PyStr} {l : List (PyStr × PyValue φ)}
    (read : scanMembers F bad hook (n + 1) s = .ok (l, r)) : ∃ t, s = t ++ r ∧ ∀ {m}, 4 * s.length + 1 ≤ m →
      ∀ d : ℤ, (outside d).Passes t (outside (d - 1)) (d + nestMembers F bad hook m s) := by
  cases s with
  | nil => simp [scanMembers] at read
  | cons c s =>
    by_cases quoted : c = 34
    · subst quoted
      simp only [scanMembers, bind_eq_ok, expect_eq_ok] at read
      obtain ⟨⟨key, s₁⟩, name, read⟩ := read
      obtain ⟨k, split, keyed⟩ := passes_string name
      have named := scanString_length name
      dsimp only at read
      split at read
      · next s₂ colon =>
        simp only [bind_eq_ok] at read
        obtain ⟨⟨v, s₃⟩, value, read⟩ := read
        obtain ⟨b, split₁, coloned⟩ := passes_mark (by unfold Neutral; omega) colon
        obtain ⟨t, split₂, passes⟩ := h.once value
        have blanks₁ := length_skipBlanks s₁
        have blanks₂ := length_skipBlanks s₂
        rw [colon, List.length_cons] at blanks₁
        dsimp only at read
        split at read
        · next rest close =>
          cases read
          obtain ⟨u, split₃, closed⟩ := passes_closed (.inr rfl) close
          refine ⟨34 :: k ++ (b ++ (t ++ u)), ?_, ?_⟩
          · rw [split, split₁, split₂, split₃]
            simp only [List.append_assoc, List.cons_append]
          · intro m enough d
            rw [List.length_cons] at enough
            obtain ⟨m, rfl⟩ : ∃ k, m = k + 1 := ⟨m - 1, by omega⟩
            have inner := @nestMembers_value _ _ F bad hook m _ _ _ _ name colon
            exact (keyed (by omega)).append ((coloned (by omega)).append
              (((@passes m (by omega) d).mono (by omega)).append (closed (by omega))))
        · next rest comma =>
          simp only [bind_eq_ok] at read
          obtain ⟨⟨l', r'⟩, more, same⟩ := read
          cases same
          obtain ⟨u, split₃, marked⟩ := passes_mark (by unfold Neutral; omega) comma
          obtain ⟨w, split₄, later⟩ := h.members more
          refine ⟨34 :: k ++ (b ++ (t ++ (u ++ w))), ?_, ?_⟩
          · rw [split, split₁, split₂, split₃, split₄]
            simp only [List.append_assoc, List.cons_append]
          · intro m enough d
            rw [List.length_cons] at enough
            obtain ⟨m, rfl⟩ : ∃ k, m = k + 1 := ⟨m - 1, by omega⟩
            obtain ⟨shorter, value'⟩ := @scanOnce_enough _ _ F bad hook n m _ _ _ value (by omega)
            have step := nestMembers_comma name colon value' comma
            have blanks₃ := length_skipBlanks s₃
            have blanks₄ := length_skipBlanks rest
            rw [comma, List.length_cons] at blanks₃
            have here := (@passes m (by omega) d).mono (show d + nestOnce F bad hook m (skipBlanks s₂) ≤
              d + nestMembers F bad hook (m + 1) (34 :: s) by omega)
            have there := (@later m (by omega) d).mono (show d + nestMembers F bad hook m (skipBlanks rest) ≤
              d + nestMembers F bad hook (m + 1) (34 :: s) by omega)
            exact (keyed (by omega)).append ((coloned (by omega)).append (here.append ((marked (by omega)).append there)))
        · cases read
      · cases read
    · simp [scanMembers, quoted] at read

theorem Scan.tracks_once {n : ℕ} (h : Scan.Tracks F bad hook n) {s r : PyStr} {v : PyValue φ}
    (read : scanOnce F bad hook (n + 1) s = .ok (v, r)) : ∃ t, s = t ++ r ∧ ∀ {m}, 4 * s.length ≤ m →
      ∀ d : ℤ, (outside d).Passes t (outside d) (d + nestOnce F bad hook m s) := by
  cases s with
  | nil => cases read
  | cons c s =>
    have blanks := length_skipBlanks s
    obtain ⟨b, blank, split⟩ := skipBlanks_split s
    rw [scanOnce] at read
    split_ifs at read with quoted braced bracketed
    · simp only [bind_eq_ok, expect_eq_ok] at read
      obtain ⟨⟨text, s'⟩, string, same⟩ := read
      cases same
      obtain ⟨t, split, passes⟩ := passes_string string
      subst quoted
      exact ⟨34 :: t, by rw [split]; rfl, fun _ d => passes (by omega)⟩
    · simp only [bind_eq_ok] at read
      obtain ⟨⟨pairs, s'⟩, object, value, -, same⟩ := read
      cases same
      obtain ⟨t, split', passes⟩ := h.object object
      refine ⟨c :: (b ++ t), by rw [List.cons_append, List.append_assoc, ← split', ← split], ?_⟩
      intro m enough d
      rw [List.length_cons] at enough
      obtain ⟨m, rfl⟩ : ∃ k, m = k + 1 := ⟨m - 1, by omega⟩
      subst braced
      rw [nestOnce, if_pos rfl]
      have inner := @passes m (by omega) (d + 1)
      rw [add_sub_cancel_right] at inner
      refine .cons (by change d ≤ _; omega) ?_
      change (outside (d + 1)).Passes _ _ _
      exact (passes_blank blank (by omega)).append (inner.mono (by omega))
    · simp only [bind_eq_ok] at read
      obtain ⟨⟨items, s'⟩, array, same⟩ := read
      cases same
      obtain ⟨t, split', passes⟩ := h.array array
      refine ⟨c :: (b ++ t), by rw [List.cons_append, List.append_assoc, ← split', ← split], ?_⟩
      intro m enough d
      rw [List.length_cons] at enough
      obtain ⟨m, rfl⟩ : ∃ k, m = k + 1 := ⟨m - 1, by omega⟩
      subst bracketed
      rw [nestOnce, if_neg (by decide), if_pos rfl]
      have inner := @passes m (by omega) (d + 1)
      rw [add_sub_cancel_right] at inner
      refine .cons (by change d ≤ _; omega) ?_
      change (outside (d + 1)).Passes _ _ _
      exact (passes_blank blank (by omega)).append (inner.mono (by omega))
    · cases constant : scanConstant (φ := φ) (c :: s) with
      | some x =>
        rw [constant] at read
        cases read
        obtain ⟨t, split, neutral⟩ := scanConstant_neutral constant
        exact ⟨t, split, fun _ d => passes_neutral neutral (by omega)⟩
      | none =>
        rw [constant] at read
        obtain ⟨t, split, -, number⟩ := scanNumber_takes (expect_eq_ok.mp read)
        exact ⟨t, split, fun _ d => passes_neutral (fun c hc => neutral_numeric (number c hc)) (by omega)⟩

variable (F bad hook) in
theorem Scan.tracks (n : ℕ) : Scan.Tracks F bad hook n := by
  induction n with
  | zero =>
    constructor <;> intro s r x read
    · simp [scanOnce] at read
    · simp [scanArray] at read
    · simp [scanItems] at read
    · simp [scanObject] at read
    · simp [scanMembers] at read
  | succ n ih =>
    constructor
    · intro s r v read
      exact tracks_once ih read
    · intro s r l read
      rw [scanArray.eq_def] at read
      dsimp only at read
      split at read
      · next rest =>
        cases read
        exact ⟨[93], rfl, fun _ d => passes_close (.inl rfl) (by omega)⟩
      · exact ih.items read
    · intro s r l read
      exact tracks_items ih read
    · intro s r l read
      rw [scanObject.eq_def] at read
      dsimp only at read
      split at read
      · next rest =>
        cases read
        exact ⟨[125], rfl, fun _ d => passes_close (.inr rfl) (by omega)⟩
      · exact ih.members read
    · intro s r l read
      exact tracks_members ih read

/-! ## How high the count reaches -/

theorem Scan.Passes.peak_le {g g' : Scan} {t : PyStr} {top : ℤ} (h : g.Passes t g' top) (s : PyStr) :
    g'.peak s ≤ g.peak (t ++ s) := by
  rw [peak_append, h.walk]
  exact le_max_right _ _

variable (F bad hook) in
/-- With `m` fuel the count reaches at least as high as the parser goes deep. -/
structure Scan.Reaches (m : ℕ) : Prop where
  once : ∀ (s : PyStr) (d : ℤ), d + nestOnce F bad hook m s ≤ (outside d).peak s
  items : ∀ (s : PyStr) (d : ℤ), d + nestItems F bad hook m s ≤ (outside d).peak s
  members : ∀ (s : PyStr) (d : ℤ), d + nestMembers F bad hook m s ≤ (outside d).peak s

theorem Scan.reaches_items {m : ℕ} (h : Scan.Reaches F bad hook m) (s : PyStr) (d : ℤ) :
    d + nestItems F bad hook (m + 1) s ≤ (outside d).peak s := by
  have first := h.once s d
  have low := le_peak d s
  rw [nestItems]
  split
  · next v s' read =>
    obtain ⟨t, split', passes⟩ := (tracks F bad hook m).once read
    have after := (passes le_rfl d).peak_le s'
    rw [← split'] at after
    split
    · next rest comma =>
      obtain ⟨u, split'', marked⟩ := passes_mark (by unfold Neutral; omega) comma
      have more := (marked (le_refl d)).peak_le (skipBlanks rest)
      have later := h.items (skipBlanks rest) d
      rw [← split''] at more
      omega
    · omega
  · omega

theorem Scan.reaches_members {m : ℕ} (h : Scan.Reaches F bad hook m) (s : PyStr) (d : ℤ) :
    d + nestMembers F bad hook (m + 1) s ≤ (outside d).peak s := by
  have low := le_peak d s
  cases s with
  | nil => simpa [nestMembers] using low
  | cons c s =>
    by_cases quoted : c = 34
    · subst quoted
      rw [nestMembers]
      split
      · next key s₁ name =>
        obtain ⟨k, split₁, keyed⟩ := passes_string name
        have one := (keyed (le_refl d)).peak_le s₁
        rw [List.cons_append, ← split₁] at one
        split
        · next s₂ colon =>
          obtain ⟨b, split₂, coloned⟩ := passes_mark (by unfold Neutral; omega) colon
          have two := (coloned (le_refl d)).peak_le (skipBlanks s₂)
          have first := h.once (skipBlanks s₂) d
          rw [← split₂] at two
          split
          · next v s₃ value =>
            obtain ⟨t, split₃, passes⟩ := (tracks F bad hook m).once value
            have three := (passes le_rfl d).peak_le s₃
            rw [← split₃] at three
            split
            · next rest comma =>
              obtain ⟨u, split₄, marked⟩ := passes_mark (by unfold Neutral; omega) comma
              have four := (marked (le_refl d)).peak_le (skipBlanks rest)
              have later := h.members (skipBlanks rest) d
              rw [← split₄] at four
              omega
            · omega
          · omega
        · omega
      · omega
    · simpa [nestMembers, quoted] using low

theorem Scan.reaches_once {m : ℕ} (h : Scan.Reaches F bad hook m) (s : PyStr) (d : ℤ) :
    d + nestOnce F bad hook (m + 1) s ≤ (outside d).peak s := by
  have low := le_peak d s
  cases s with
  | nil => simpa [nestOnce] using low
  | cons c s =>
    have blanks := peak_skipBlanks (d + 1) s
    have opens : c = 91 ∨ c = 123 → (outside (d + 1)).peak s ≤ (outside d).peak (c :: s) := by
      intro bracket
      have next : (outside d).next c = outside (d + 1) := by
        rcases bracket with rfl | rfl <;> rfl
      rw [peak, next]
      exact le_max_right _ _
    rw [nestOnce]
    split_ifs with brace bracket
    · have inner := h.members (skipBlanks s) (d + 1)
      have opened := opens (.inr brace)
      omega
    · have inner := h.items (skipBlanks s) (d + 1)
      have opened := opens (.inl bracket)
      omega
    · omega

variable (F bad hook) in
theorem Scan.reaches (m : ℕ) : Scan.Reaches F bad hook m := by
  induction m with
  | zero =>
    constructor <;> intro s d
    · simpa [nestOnce] using le_peak d s
    · simpa [nestItems] using le_peak d s
    · simpa [nestMembers] using le_peak d s
  | succ m ih => exact ⟨reaches_once ih, reaches_items ih, reaches_members ih⟩

variable (F bad hook) in
/-- In every text the count reaches at least as high as `json.loads` goes deep. -/
theorem nesting_le_peak (text : PyStr) : nesting F bad hook text ≤ (Scan.outside 0).peak text := by
  unfold nesting
  split_ifs
  · exact Scan.le_peak 0 text
  · have reached := (Scan.reaches F bad hook (4 * text.length + 4)).once (skipBlanks text) 0
    have blanks := Scan.peak_skipBlanks 0 text
    omega

theorem peak_le_nesting {text : PyStr} {v : PyValue φ} (read : loads F bad hook text = .ok v) :
    (Scan.outside 0).peak text ≤ nesting F bad hook text := by
  unfold loads at read
  simp only [bind_eq_ok, require_eq_ok] at read
  obtain ⟨_, start, ⟨w, r⟩, scanned, _, done, -⟩ := read
  obtain ⟨t, split, passes⟩ := (Scan.tracks F bad hook _).once scanned
  obtain ⟨b, blank, before⟩ := skipBlanks_split text
  obtain ⟨b', blank', behind⟩ := skipBlanks_split r
  have blanks := length_skipBlanks text
  rw [done, List.append_nil] at behind
  have inner := passes (show 4 * (skipBlanks text).length ≤ 4 * text.length + 4 by omega) 0
  have whole : (Scan.outside 0).Passes (b ++ (t ++ b')) (.outside 0) (0 + nesting F bad hook text) := by
    rw [nesting, if_neg start]
    exact (Scan.passes_blank blank (by omega)).append (inner.append (Scan.passes_blank blank' (by omega)))
  rw [← behind, ← split, ← before] at whole
  have reached := whole.peak
  omega

end PyJson
