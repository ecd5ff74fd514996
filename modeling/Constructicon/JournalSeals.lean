import Constructicon.CanonicalForm
import Constructicon.JournalChange

/-!
# Facts and their seals

Every event, every checkpoint has exactly one seal, and no seal stands without its
fact. Inserting an event keeps this, so a reader that proves a row against its seal
accepts it.
-/

namespace Constructicon

open Transaction

/-! ## Paths as they are written -/

theorem ScopePath.dump_injective {p q : ScopePath} (h : ScopePath.dump p = ScopePath.dump q) :
    p = q := by
  have strs : Json.strs p = Json.strs q := by simpa [ScopePath.dump] using h
  exact Json.strs_injective strs

theorem IterationFrame.dump_injective : Function.Injective IterationFrame.dump := by
  rintro ⟨loop, index⟩ ⟨loop', index'⟩ h
  have fields : (index : ℤ) = index' ∧ ScopePath.dump loop = ScopePath.dump loop' := by
    simpa [IterationFrame.dump] using h
  obtain ⟨index, loop⟩ := fields
  rw [ScopePath.dump_injective loop, Int.ofNat.inj index]

theorem ExecutionPath.dump_injective {p q : ExecutionPath} (h : p.dump = q.dump) : p = q := by
  obtain ⟨scope, frames⟩ := p
  obtain ⟨scope', frames'⟩ := q
  have fields : frames.map IterationFrame.dump = frames'.map IterationFrame.dump ∧
      ScopePath.dump scope = ScopePath.dump scope' := by
    simpa [ExecutionPath.dump] using h
  rw [ScopePath.dump_injective fields.2,
    List.map_injective_iff.mpr IterationFrame.dump_injective fields.1]

/-! ## Families of seals -/

/-- The seals of a family are those of the listed facts, at distinct positions. -/
structure SealedBy {α π : Type} (seals : List FactSeal) (family : SealFamily) (facts : List α)
    (sealOf : α → FactSeal) (position : α → π) : Prop where
  inventory : seals.filter (fun x => x.family = family) = facts.map sealOf
  distinct : (facts.map position).Nodup

section Inventory

variable {α π : Type} {w : Wire} {seals seals' : List FactSeal} {family : SealFamily}
  {facts : List α} {sealOf : α → FactSeal} {position : α → π} {key selector : Json} {fact : Digest}

theorem SealedBy.matching (hs : SealedBy seals family facts sealOf position)
    (key selector : Option Json) :
    seals.filter (fun x => x.family = family ∧ (some x.key = key ∨ some x.selector = selector)) =
      (facts.filter (fun a => some (sealOf a).key = key ∨ some (sealOf a).selector = selector)).map
        sealOf := by
  have both : seals.filter (fun x => x.family = family ∧
        (some x.key = key ∨ some x.selector = selector)) =
      (seals.filter (fun x => x.family = family)).filter
        (fun x => some x.key = key ∨ some x.selector = selector) := by
    rw [List.filter_filter]
    apply List.filter_congr
    intro x _
    simp [Bool.and_comm]
  rw [both, hs.inventory, List.filter_map]
  rfl

theorem SealedBy.absent (hs : SealedBy seals family facts sealOf position)
    (none' : ∀ a ∈ facts, ¬((sealOf a).key = key ∨ (sealOf a).selector = selector)) :
    durableFactSeal seals family (some key) (some selector) = .ok none := by
  have empty : facts.filter (fun a => some (sealOf a).key = some key ∨
      some (sealOf a).selector = some selector) = [] := by
    rw [List.filter_eq_nil_iff]
    exact fun a ha => by simpa using none' a ha
  rw [durableFactSeal, hs.matching, empty]
  rfl

theorem SealedBy.found (hs : SealedBy seals family facts sealOf position) {a : α} (ha : a ∈ facts)
    (only : ∀ c ∈ facts, (sealOf c).key = (sealOf a).key ∨ (sealOf c).selector = (sealOf a).selector →
      position c = position a) :
    durableFactSeal seals family (some (sealOf a).key) (some (sealOf a).selector) =
      .ok (some (sealOf a)) := by
  classical
  have one : facts.filter (fun c => some (sealOf c).key = some (sealOf a).key ∨
      some (sealOf c).selector = some (sealOf a).selector) = [a] := by
    apply Dict.filter_unique hs.distinct ha (Or.inl rfl)
    intro c hc h
    exact only c hc (by simpa using h)
  rw [durableFactSeal, hs.matching, one]
  simp [require]

theorem SealedBy.required (hs : SealedBy seals family facts sealOf position) {a : α} (ha : a ∈ facts)
    (own : sealOf a = factSeal w family key selector fact)
    (only : ∀ c ∈ facts, (sealOf c).key = key ∨ (sealOf c).selector = selector →
      position c = position a) :
    requireDurableFactSeal w seals family key selector fact = .ok () := by
  have found := hs.found ha (by rwa [own])
  rw [own] at found
  change durableFactSeal seals family (some key) (some selector) = _ at found
  simp [requireDurableFactSeal, found, factSeal, require]

theorem storeDurableFactSeal_absent
    (h : storeDurableFactSeal w seals family key selector fact = .ok seals')
    (absent : durableFactSeal seals family (some key) (some selector) = .ok none) :
    seals' = seals ++ [factSeal w family key selector fact] := by
  rw [storeDurableFactSeal, absent] at h
  exact (Except.ok.inj h).symm

theorem SealedBy.append (hs : SealedBy seals family facts sealOf position) {a : α}
    (fresh : ∀ c ∈ facts, position c ≠ position a)
    (inventory : seals'.filter (fun x => x.family = family) =
      seals.filter (fun x => x.family = family) ++ [sealOf a]) :
    SealedBy seals' family (facts ++ [a]) sealOf position := by
  refine ⟨by simp [inventory, hs.inventory], ?_⟩
  rw [List.map_append, List.map_singleton, List.nodup_append]
  refine ⟨hs.distinct, List.nodup_singleton _, ?_⟩
  intro p hp q hq
  obtain ⟨c, hc, rfl⟩ := List.mem_map.mp hp
  rw [List.mem_singleton.mp hq]
  exact fresh c hc

theorem SealedBy.other (hs : SealedBy seals family facts sealOf position)
    (inventory : seals'.filter (fun x => x.family = family) =
      seals.filter (fun x => x.family = family)) : SealedBy seals' family facts sealOf position :=
  ⟨inventory.trans hs.inventory, hs.distinct⟩

theorem filter_append_seal (seals : List FactSeal) {x : FactSeal} (h : x.family ≠ family) :
    (seals ++ [x]).filter (fun x => x.family = family) =
      seals.filter (fun x => x.family = family) := by
  simp [h]

end Inventory

/-! ## Events -/

def EventRow.position (e : EventRow) : RunId × ℕ := (e.runId, e.seq)

def EventRow.NamesCommand (e : EventRow) : Prop :=
  ∃ cause id, AttemptCause.fromPayload e.payload = .ok cause ∧ resumeCause cause = some id

/-- Events and their seals; a relation to a command belongs to an event that names it. -/
structure EventLaw (w : Wire) (events : List EventRow) (seals : List FactSeal) : Prop where
  sealed : SealedBy seals .event events (eventSeal w) EventRow.position
  attempts : ∀ x ∈ seals, x.family = .resumeAttempt → ∃ e ∈ events,
    x.selector = eventFactKey e.runId e.seq ∧ e.NamesCommand

section Events

variable {w : Wire} {b : Beside} {s s' : Journal} {e e' : EventRow} {events : List EventRow}
  {seals : List FactSeal}

theorem eventFactKey_injective {run run' : RunId} {seq seq' : ℕ}
    (h : eventFactKey run seq = eventFactKey run' seq') : run = run' ∧ seq = seq' := by
  simpa [eventFactKey] using h

theorem eventSelector_injective {run run' : RunId} {seq seq' : ℕ}
    (h : eventSelector run seq = eventSelector run' seq') : run = run' ∧ seq = seq' := by
  simpa [eventSelector, eventFactKey] using h

theorem eventSeal_position
    (h : (eventSeal w e).key = eventFactKey e'.runId e'.seq ∨
      (eventSeal w e).selector = eventSelector e'.runId e'.seq) : e.position = e'.position := by
  have same : e.runId = e'.runId ∧ e.seq = e'.seq := by
    rcases h with h | h
    · exact eventFactKey_injective h
    · exact eventSelector_injective h
  exact Prod.ext same.1 same.2

theorem EventLaw.empty (w : Wire) : EventLaw w [] [] :=
  ⟨⟨rfl, List.nodup_nil⟩, fun x hx => by simp at hx⟩

theorem EventLaw.row (hs : EventLaw w s.events s.seals) (he : e ∈ s.events) :
    storedEventWithoutRelationship w s e = .ok () :=
  hs.sealed.required he rfl fun _ _ h => eventSeal_position h

theorem EventLaw.stored (hs : EventLaw w s.events s.seals) (he : e ∈ s.events)
    {cause : Option AttemptCause} (read : AttemptCause.fromPayload e.payload = .ok cause)
    (plain : resumeCause cause = none)
    (kind : ¬(e.kind = disposalEvent ∨ e.Lost ∨ e.kind = meteringEvent)) (b : Beside) :
    storedEventFromRow w b s e = .ok () := by
  have orphan : durableFactSeal s.seals .resumeAttempt none (some (eventFactKey e.runId e.seq)) =
      .ok none := by
    have empty : s.seals.filter (fun x => x.family = .resumeAttempt ∧ (some x.key = none ∨
        some x.selector = some (eventFactKey e.runId e.seq))) = [] := by
      rw [List.filter_eq_nil_iff]
      intro x hx h
      have hx' : x.family = .resumeAttempt ∧ x.selector = eventFactKey e.runId e.seq := by
        simpa using h
      obtain ⟨e', he', selector, cause', id, read', names⟩ := hs.attempts x hx hx'.1
      have same := eventFactKey_injective (selector.symm.trans hx'.2)
      have equal : e' = e :=
        Dict.eq_of_nodup_map hs.sealed.distinct he' he (Prod.ext same.1 same.2)
      rw [equal, read] at read'
      cases read'
      rw [plain] at names
      cases names
    rw [durableFactSeal, empty]
  rw [storedEventFromRow, hs.row he]
  simp [requireResumeAttemptRelationship, read, plain, orphan, kind, require]

theorem EventLaw.alongside (hs : EventLaw w events seals) {x : FactSeal} (event : x.family ≠ .event)
    (attempt : x.family ≠ .resumeAttempt) : EventLaw w events (seals ++ [x]) := by
  refine ⟨hs.sealed.other (filter_append_seal seals event), fun y hy family => ?_⟩
  rcases List.mem_append.mp hy with hy | hy
  · exact hs.attempts y hy family
  · rw [List.mem_singleton.mp hy] at family
    exact absurd family attempt

theorem Inserted.seal_absent (h : Inserted w b s e s') (hs : EventLaw w s.events s.seals) :
    durableFactSeal s.seals .event (some (eventFactKey e.runId e.seq))
      (some (eventSelector e.runId e.seq)) = .ok none := by
  apply hs.sealed.absent
  intro e' he' same
  have position := eventSeal_position same
  exact h.fresh e' he' (Prod.mk.injEq .. ▸ position)

theorem Inserted.seals_eq (h : Inserted w b s e s') (hs : EventLaw w s.events s.seals) :
    s'.seals = s.seals ++ [eventSeal w e] ∨
      e.NamesCommand ∧ (s'.seals = s.seals ++ [eventSeal w e] ∨
        ∃ x : FactSeal, x.family = .resumeAttempt ∧ x.selector = eventFactKey e.runId e.seq ∧
          s'.seals = s.seals ++ [eventSeal w e] ++ [x]) := by
  obtain ⟨seals, cause, stored, read, related⟩ := h.seals
  have first : seals = s.seals ++ [eventSeal w e] :=
    storeDurableFactSeal_absent stored (h.seal_absent hs)
  rcases related with ⟨-, same⟩ | ⟨id, fact, names, related⟩
  · exact .inl (same.trans first)
  · refine .inr ⟨⟨cause, id, read, names⟩, ?_⟩
    rw [storeDurableFactSeal, bind_eq_ok] at related
    obtain ⟨o, ho, related⟩ := related
    cases o with
    | some prior =>
      simp only [bind_eq_ok] at related
      obtain ⟨-, -, related⟩ := related
      exact .inl ((Except.ok.inj related).symm.trans first)
    | none =>
      refine .inr ⟨factSeal w .resumeAttempt (.str id) (eventFactKey e.runId e.seq) fact, rfl, rfl, ?_⟩
      rw [← first]
      exact (Except.ok.inj related).symm

theorem Inserted.eventLaw (h : Inserted w b s e s') (hs : EventLaw w s.events s.seals) :
    EventLaw w s'.events s'.seals := by
  have fresh : ∀ e' ∈ s.events, e'.position ≠ e.position := by
    intro e' he' same
    exact h.fresh e' he' (Prod.mk.injEq .. ▸ same)
  have one : EventLaw w (s.events ++ [e]) (s.seals ++ [eventSeal w e]) := by
    refine ⟨hs.sealed.append fresh (by simp [eventSeal, factSeal]), fun x hx family => ?_⟩
    rcases List.mem_append.mp hx with hx | hx
    · obtain ⟨e', he', found⟩ := hs.attempts x hx family
      exact ⟨e', List.mem_append_left _ he', found⟩
    · rw [List.mem_singleton.mp hx] at family
      cases family
  rw [h.events]
  rcases h.seals_eq hs with seals | ⟨names, seals | ⟨x, family, selector, seals⟩⟩
  · rwa [seals]
  · rwa [seals]
  · rw [seals]
    refine ⟨one.sealed.other (filter_append_seal _ (by simp [family])), fun y hy attempt => ?_⟩
    rcases List.mem_append.mp hy with hy | hy
    · exact one.attempts y hy attempt
    · rw [List.mem_singleton.mp hy]
      exact ⟨e, by simp, selector, names⟩

theorem Inserted.other_seals (h : Inserted w b s e s') (hs : EventLaw w s.events s.seals)
    {family : SealFamily} (event : family ≠ .event) (attempt : family ≠ .resumeAttempt) :
    s'.seals.filter (fun x => x.family = family) = s.seals.filter (fun x => x.family = family) := by
  have one := filter_append_seal s.seals (x := eventSeal w e) event.symm
  rcases h.seals_eq hs with seals | ⟨names, seals | ⟨x, hx, selector, seals⟩⟩
  · rw [seals, one]
  · rw [seals, one]
  · rw [seals, filter_append_seal _ (by rw [hx]; exact attempt.symm), one]

end Events

end Constructicon
