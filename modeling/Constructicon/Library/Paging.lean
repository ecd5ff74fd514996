import Constructicon.Library.Keyset

/-!
# Pages

A query answers with a page of items and, where there is more, with a cursor to go on from. The store may be
written between the pages. Two laws of such a query: pages of one list, told by an offset, enumerate the list;
pages of what matches now, told by the last key, go up and miss nothing that matches all along.
-/

namespace Paging

structure Page (ι κ : Type) where
  items : List ι
  next : Option κ

/-- The store a page was asked of, and the answer. -/
structure Visit (σ ι κ ε : Type) where
  store : σ
  answer : Except ε (Page ι κ)

variable {σ ι κ ε ω : Type}

def Visit.items (v : Visit σ ι κ ε) : List ι := v.answer.toOption.elim [] Page.items

def Visit.next (v : Visit σ ι κ ε) : Option κ := v.answer.toOption.bind Page.next

def itemsOf (visits : List (Visit σ ι κ ε)) : List ι := visits.flatMap Visit.items

def Ended (visits : List (Visit σ ι κ ε)) : Prop := ∃ v ∈ visits.getLast?, v.next = none

section

variable (ask : σ → Option κ → ℕ → Except ε (Page ι κ)) (write : σ → ω → σ)

/-- The pages that follow each other: in each round the store is written, and a page of this limit is
asked for. -/
def follow : σ → Option κ → List (List ω × ℕ) → List (Visit σ ι κ ε)
  | _, _, [] => []
  | s, cursor, (writes, limit) :: rounds =>
    let store := writes.foldl write s
    let visit : Visit σ ι κ ε := ⟨store, ask store cursor limit⟩
    visit :: visit.next.elim [] fun c => follow store (some c) rounds

end

variable {ask : σ → Option κ → ℕ → Except ε (Page ι κ)} {write : σ → ω → σ}

theorem follow_cons (s : σ) (cursor : Option κ) (writes : List ω) (limit : ℕ) (rounds : List (List ω × ℕ))
    {page : Page ι κ} (answered : ask (writes.foldl write s) cursor limit = .ok page) :
    follow ask write s cursor ((writes, limit) :: rounds) =
      ⟨writes.foldl write s, .ok page⟩ ::
        page.next.elim [] fun c => follow ask write (writes.foldl write s) (some c) rounds := by
  rw [follow, answered]
  rfl

theorem itemsOf_ok (s : σ) (page : Page ι κ) (visits : List (Visit σ ι κ ε)) :
    itemsOf (⟨s, .ok page⟩ :: visits) = page.items ++ itemsOf visits := rfl

theorem itemsOf_single (s : σ) (page : Page ι κ) :
    itemsOf [(⟨s, .ok page⟩ : Visit σ ι κ ε)] = page.items :=
  List.append_nil _

theorem ended_single (s : σ) {page : Page ι κ} (last : page.next = none) :
    Ended [(⟨s, .ok page⟩ : Visit σ ι κ ε)] := ⟨_, rfl, last⟩

theorem ended_cons {s : σ} {page : Page ι κ} {c : κ} (next : page.next = some c)
    {visits : List (Visit σ ι κ ε)} : Ended (⟨s, .ok page⟩ :: visits) ↔ Ended visits := by
  cases visits with
  | nil =>
    constructor
    · rintro ⟨v, last, stops⟩
      rw [List.getLast?_singleton] at last
      cases last
      change page.next = none at stops
      rw [next] at stops
      cases stops
    · rintro ⟨v, last, -⟩
      cases last
  | cons w visits =>
    unfold Ended
    rw [List.getLast?_cons_cons]

theorem keeps_writes {Good : σ → Prop} (keeps : ∀ s w, Good s → Good (write s w)) {s : σ} (good : Good s)
    (writes : List ω) : Good (writes.foldl write s) := by
  induction writes generalizing s with
  | nil => exact good
  | cons w writes ih => exact ih (keeps s w good)

def written (write : σ → ω → σ) (s : σ) (rounds : List (List ω × ℕ)) : σ :=
  rounds.foldl (fun s round => round.1.foldl write s) s

theorem written_eq (s : σ) (rounds : List (List ω × ℕ)) :
    written write s rounds = (rounds.flatMap Prod.fst).foldl write s := by
  rw [List.foldl_flatMap]
  rfl

theorem follow_between {R : σ → σ → Prop} (refl : ∀ s, R s s) (trans : ∀ {s t u}, R s t → R t u → R s u)
    (step : ∀ s w, R s (write s w)) {s : σ} {cursor : Option κ} {rounds : List (List ω × ℕ)}
    {v : Visit σ ι κ ε} (h : v ∈ follow ask write s cursor rounds) : R v.store (written write s rounds) := by
  have writes : ∀ s (l : List ω), R s (l.foldl write s) := by
    intro s l
    induction l generalizing s with
    | nil => exact refl s
    | cons w l ih => exact trans (step s w) (ih (write s w))
  have all : ∀ s (rounds : List (List ω × ℕ)), R s (written write s rounds) := by
    intro s rounds
    induction rounds generalizing s with
    | nil => exact refl s
    | cons round rounds ih => exact trans (writes s round.1) (ih _)
  induction rounds generalizing s cursor with
  | nil => exact absurd h List.not_mem_nil
  | cons round rounds ih =>
    rw [follow] at h
    rcases List.mem_cons.mp h with rfl | later
    · exact all _ rounds
    · cases next : Visit.next ⟨round.1.foldl write s, ask (round.1.foldl write s) cursor round.2⟩ with
      | none =>
        rw [next] at later
        exact absurd later List.not_mem_nil
      | some c =>
        rw [next] at later
        exact ih later

/-! ## One list and an offset -/

/-- The page of a list from an offset on; `At c o` when the cursor `c` tells the offset `o`. -/
structure Slice (items : List ι) (At : κ → ℕ → Prop) (offset limit : ℕ) (page : Page ι κ) : Prop where
  shown : page.items = (items.drop offset).take limit
  more : ∀ c ∈ page.next, At c (offset + limit) ∧ offset + limit < items.length
  last : page.next = none → items.length ≤ offset + limit

/-- What the pages of a list come to: none is refused, they show it in order, they end, and once they have
ended they have shown it whole. -/
structure Enumerates (items : List ι) (rounds : ℕ) (visits : List (Visit σ ι κ ε)) : Prop where
  answered : ∀ v ∈ visits, ∃ page, v.answer = .ok page
  order : itemsOf visits <+: items
  whole : Ended visits → itemsOf visits = items
  ends : items.length < rounds → Ended visits

section Offset

variable {items : List ι} {At : κ → ℕ → Prop} {Good : σ → Prop} {Admitted : ℕ → Prop}

theorem enumerates_slice {offset limit : ℕ} {page : Page ι κ} (slice : Slice items At offset limit page)
    (positive : 0 < limit) (rounds : ℕ) (s : σ) (rest : List (Visit σ ι κ ε))
    (stops : page.next = none → rest = [])
    (goes : ∀ c ∈ page.next, Enumerates (items.drop (offset + limit)) rounds rest) :
    Enumerates (items.drop offset) (rounds + 1) (⟨s, .ok page⟩ :: rest) := by
  have split : items.drop offset = page.items ++ items.drop (offset + limit) := by
    rw [slice.shown, ← List.drop_drop, List.take_append_drop]
  cases next : page.next with
  | none =>
    obtain rfl := stops next
    have nothing : items.drop (offset + limit) = [] := List.drop_eq_nil_of_le (slice.last next)
    rw [nothing, List.append_nil] at split
    refine ⟨?_, ?_, ?_, ?_⟩
    · intro v held
      rw [List.mem_singleton.mp held]
      exact ⟨page, rfl⟩
    · rw [itemsOf_single, split]
    · intro _
      rw [itemsOf_single, split]
    · intro _
      exact ended_single s next
  | some c =>
    obtain ⟨answered, order, whole, ends⟩ := goes c next
    obtain ⟨-, inside⟩ := slice.more c next
    refine ⟨?_, ?_, ?_, ?_⟩
    · intro v held
      rcases List.mem_cons.mp held with rfl | later
      · exact ⟨page, rfl⟩
      · exact answered v later
    · rw [itemsOf_ok, split]
      exact (List.prefix_append_right_inj _).mpr order
    · intro ended
      rw [itemsOf_ok, split, whole ((ended_cons next).mp ended)]
    · intro enough
      apply (ended_cons next).mpr
      apply ends
      rw [List.length_drop] at enough ⊢
      omega

theorem follow_offset (keeps : ∀ s w, Good s → Good (write s w))
    (serves : ∀ s c offset limit, Good s → At c offset → offset ≤ items.length → Admitted limit →
      ∃ page, ask s (some c) limit = .ok page ∧ Slice items At offset limit page)
    (positive : ∀ limit, Admitted limit → 0 < limit) {s : σ} (good : Good s) {c : κ} {offset : ℕ}
    (told : At c offset) (inside : offset ≤ items.length) (rounds : List (List ω × ℕ))
    (admitted : ∀ r ∈ rounds, Admitted r.2) :
    Enumerates (items.drop offset) rounds.length (follow ask write s (some c) rounds) := by
  induction rounds generalizing s c offset with
  | nil =>
    refine ⟨by simp [follow], List.nil_prefix, ?_, by simp⟩
    rintro ⟨v, last, -⟩
    cases last
  | cons round rounds ih =>
    obtain ⟨writes, limit⟩ := round
    have after := keeps_writes keeps good writes
    have here := admitted (writes, limit) List.mem_cons_self
    obtain ⟨page, answer, slice⟩ := serves _ c offset limit after told inside here
    rw [follow_cons s (some c) writes limit rounds answer, List.length_cons]
    refine enumerates_slice slice (positive limit here) _ _ _ (fun none => by rw [none]; rfl) ?_
    intro c' next
    obtain ⟨told', inside'⟩ := slice.more c' next
    rw [Option.mem_def.mp next]
    exact ih after told' (by omega) fun r held => admitted r (List.mem_cons_of_mem _ held)

theorem follow_list (keeps : ∀ s w, Good s → Good (write s w))
    (serves : ∀ s c offset limit, Good s → At c offset → offset ≤ items.length → Admitted limit →
      ∃ page, ask s (some c) limit = .ok page ∧ Slice items At offset limit page)
    (positive : ∀ limit, Admitted limit → 0 < limit)
    {s first : σ} {writes : List ω} (reached : writes.foldl write s = first) (good : Good first) {limit : ℕ}
    (here : Admitted limit) {page : Page ι κ} (answer : ask first none limit = .ok page)
    (slice : Slice items At 0 limit page) {rounds : List (List ω × ℕ)} (admitted : ∀ r ∈ rounds, Admitted r.2) :
    Enumerates items (rounds.length + 1) (follow ask write s none ((writes, limit) :: rounds)) := by
  subst reached
  rw [follow_cons s none writes limit rounds answer]
  have whole : Enumerates (items.drop 0) (rounds.length + 1) _ :=
    enumerates_slice slice (positive limit here) rounds.length (writes.foldl write s)
      (page.next.elim [] fun c => follow ask write (writes.foldl write s) (some c) rounds)
      (fun none => by rw [none]; rfl) fun c next => by
        obtain ⟨told, inside⟩ := slice.more c next
        rw [Option.mem_def.mp next]
        exact follow_offset keeps serves positive good told (by omega) rounds admitted
  exact whole

end Offset

/-! ## What matches now, and the last key -/

section Keys

open Keyset

variable {K : Type} [LinearOrder K] {key : ι → K} {matched : σ → List ι} {At : κ → K → Prop}
  {Good : σ → Prop} {Admitted : ℕ → Prop} {upper : K}

/-- The page of what matches past a key; `At c a` when the cursor `c` tells the key `a`. -/
structure Window (key : ι → K) (rows : List ι) (At : κ → K → Prop) (after : Option K) (upper : K) (limit : ℕ)
    (page : Page ι κ) : Prop where
  distinct : (rows.map key).Nodup
  shown : page.items = Keyset.page key rows after upper limit
  more : ∀ c ∈ page.next, ∃ last ∈ page.items.getLast?, At c (key last)
  last : page.next = none → (window key rows after upper).length ≤ limit

/-- What pages past a key come to: none is refused, the keys go up, what matches at every page is shown once
they have ended, and every page that gave a cursor has an item. -/
structure Climbs (key : ι → K) (matched : σ → List ι) (after : Option K) (upper : K) (rounds : ℕ)
    (visits : List (Visit σ ι κ ε)) : Prop where
  answered : ∀ v ∈ visits, ∃ page, v.answer = .ok page
  order : ((itemsOf visits).map key).Pairwise (· < ·)
  within : ∀ r ∈ itemsOf visits, Beyond after (key r) ∧ key r ≤ upper
  source : ∀ v ∈ visits, ∀ r ∈ v.items, r ∈ matched v.store
  complete : Ended visits → ∀ k, Beyond after k → k ≤ upper →
    (∀ v ∈ visits, k ∈ (matched v.store).map key) → k ∈ (itemsOf visits).map key
  ends : (itemsOf visits).length < rounds → Ended visits

theorem climbs_window {after : Option K} {limit : ℕ} {page : Page ι κ} {s : σ}
    (win : Window key (matched s) At after upper limit page) (rounds : ℕ) (rest : List (Visit σ ι κ ε))
    (stops : page.next = none → rest = [])
    (goes : ∀ c ∈ page.next, ∀ last ∈ page.items.getLast?, At c (key last) →
      Climbs key matched (some (key last)) upper rounds rest) :
    Climbs key matched after upper (rounds + 1) (⟨s, .ok page⟩ :: rest) := by
  have own : ∀ r ∈ page.items, r ∈ matched s ∧ Beyond after (key r) ∧ key r ≤ upper := by
    intro r held
    rw [win.shown] at held
    exact mem_window.mp (window_of_mem_page held)
  have inOrder : (page.items.map key).Pairwise (· < ·) := by
    rw [win.shown]
    exact List.pairwise_map.mpr (page_increasing win.distinct)
  cases next : page.next with
  | none =>
    obtain rfl := stops next
    refine ⟨?_, ?_, ?_, ?_, ?_, fun _ => ended_single s next⟩
    · intro v held
      rw [List.mem_singleton.mp held]
      exact ⟨page, rfl⟩
    · rwa [itemsOf_single]
    · intro r held
      rw [itemsOf_single] at held
      exact (own r held).2
    · intro v held r shown
      rw [List.mem_singleton.mp held] at shown ⊢
      exact (own r shown).1
    · intro _ k past inside matches'
      obtain ⟨r, there, rfl⟩ := List.mem_map.mp (matches' _ List.mem_cons_self)
      have held : r ∈ Keyset.page key (matched s) after upper limit := by
        apply mem_page_of_whole
        · rw [length_page]
          have few := win.last next
          omega
        · exact mem_window.mpr ⟨there, past, inside⟩
      rw [itemsOf_single, win.shown]
      exact List.mem_map_of_mem held
  | some c =>
    obtain ⟨last, ending, told⟩ := win.more c next
    obtain ⟨answered, order, within, source, complete, ends⟩ := goes c next last ending told
    have held := List.mem_of_getLast? ending
    refine ⟨?_, ?_, ?_, ?_, ?_, ?_⟩
    · intro v held
      rcases List.mem_cons.mp held with rfl | later
      · exact ⟨page, rfl⟩
      · exact answered v later
    · rw [itemsOf_ok, List.map_append, List.pairwise_append]
      refine ⟨inOrder, order, ?_⟩
      intro a first b second
      obtain ⟨q, shown, rfl⟩ := List.mem_map.mp first
      obtain ⟨r, later, rfl⟩ := List.mem_map.mp second
      rw [win.shown] at shown ending
      exact lt_of_le_of_lt (page_le_last shown ending) ((within r later).1 _ rfl)
    · intro r shown
      rw [itemsOf_ok, List.mem_append] at shown
      rcases shown with first | later
      · exact (own r first).2
      · have past := within r later
        have before := (own last held).2
        exact ⟨fun a told' => (before.1 a told').trans (past.1 _ rfl), past.2⟩
    · intro v visited r shown
      rcases List.mem_cons.mp visited with rfl | later
      · exact (own r shown).1
      · exact source v later r shown
    · intro ended k past inside matches'
      rw [itemsOf_ok, List.map_append, List.mem_append]
      obtain ⟨r, there, rfl⟩ := List.mem_map.mp (matches' _ List.mem_cons_self)
      by_cases first : r ∈ page.items
      · exact .inl (List.mem_map_of_mem first)
      · rw [win.shown] at first held
        have after' := page_le_of_not_mem (mem_window.mpr ⟨there, past, inside⟩) first held
        by_cases same : key last = key r
        · left
          rw [← same]
          exact List.mem_map_of_mem (List.mem_of_getLast? ending)
        · refine .inr (complete ((ended_cons next).mp ended) _ (fun a told' => ?_) inside
            fun v later => matches' v (List.mem_cons_of_mem _ later))
          cases told'
          exact lt_of_le_of_ne after' same
    · intro enough
      have shown := List.length_pos_of_mem held
      rw [itemsOf_ok, List.length_append] at enough
      exact (ended_cons next).mpr (ends (by omega))

theorem follow_keys (keeps : ∀ s w, Good s → Good (write s w))
    (serves : ∀ s c a limit, Good s → At c a → a ≤ upper → Admitted limit →
      ∃ page, ask s (some c) limit = .ok page ∧ Window key (matched s) At (some a) upper limit page)
    {s : σ} (good : Good s) {c : κ} {a : K} (told : At c a) (below : a ≤ upper) (rounds : List (List ω × ℕ))
    (admitted : ∀ r ∈ rounds, Admitted r.2) :
    Climbs key matched (some a) upper rounds.length (follow ask write s (some c) rounds) := by
  induction rounds generalizing s c a with
  | nil =>
    refine ⟨by simp [follow], List.Pairwise.nil, by simp [follow, itemsOf], by simp [follow], ?_, by simp⟩
    rintro ⟨v, last, -⟩
    cases last
  | cons round rounds ih =>
    obtain ⟨writes, limit⟩ := round
    have after := keeps_writes keeps good writes
    obtain ⟨page, answer, win⟩ := serves _ c a limit after told below (admitted (writes, limit) List.mem_cons_self)
    rw [follow_cons s (some c) writes limit rounds answer, List.length_cons]
    refine climbs_window win _ _ (fun none => by rw [none]; rfl) ?_
    intro c' next last ending told'
    rw [Option.mem_def.mp next]
    have held := List.mem_of_getLast? ending
    rw [win.shown] at held
    have inside := (mem_window.mp (window_of_mem_page held)).2.2
    exact ih after told' inside fun r shown => admitted r (List.mem_cons_of_mem _ shown)

theorem follow_matching (keeps : ∀ s w, Good s → Good (write s w))
    (serves : ∀ s c a limit, Good s → At c a → a ≤ upper → Admitted limit →
      ∃ page, ask s (some c) limit = .ok page ∧ Window key (matched s) At (some a) upper limit page)
    {s first : σ} {writes : List ω} (reached : writes.foldl write s = first) (good : Good first) {limit : ℕ}
    {page : Page ι κ} (answer : ask first none limit = .ok page)
    (win : Window key (matched first) At none upper limit page) {rounds : List (List ω × ℕ)}
    (admitted : ∀ r ∈ rounds, Admitted r.2) :
    Climbs key matched none upper (rounds.length + 1) (follow ask write s none ((writes, limit) :: rounds)) := by
  subst reached
  rw [follow_cons s none writes limit rounds answer]
  refine climbs_window win _ _ (fun none => by rw [none]; rfl) ?_
  intro c next last ending told
  rw [Option.mem_def.mp next]
  have held := List.mem_of_getLast? ending
  rw [win.shown] at held
  have inside := (mem_window.mp (window_of_mem_page held)).2.2
  exact follow_keys keeps serves good told inside rounds admitted

end Keys

end Paging
