import Constructicon.EffectBoundary

/-!
# One effect, one request, one receipt

Over every interleaving: the first preparation of a key is the request of every call,
the first receipt stays, an execution follows its own reading of an absent effect, and
a call that begins after a committed or rejected receipt never reaches the adapter.
-/

namespace Constructicon

open Transaction

/-! ## Effects of a journal only grow -/

def Journal.EffectsLater (s s' : Journal) : Prop :=
  ∀ key row, s.effects.get? key = some row → ∃ row', s'.effects.get? key = some row' ∧
    row'.request = row.request ∧ ∀ receipt, row.receipt = some receipt → row'.receipt = some receipt

section Effects

variable {w : Wire} {b : Beside} {now : Instant} {s s' : Journal} {call : JournalCall}
  {lease : RunLease} {request : EffectRequest} {receipt : EffectReceipt} {key : Digest}

theorem Journal.EffectsLater.of_eq (h : s'.effects = s.effects) : s.EffectsLater s' := by
  intro key row found
  exact ⟨row, by rwa [h], rfl, fun _ hr => hr⟩

theorem dispose_effects {run : RunId} {entries : List ((String × ℕ) × ℕ)}
    (h : entries.foldlM (disposeOne w b now run) s = .ok s') : s'.effects = s.effects :=
  foldlM_keeps (P := fun s₁ => s₁.effects = s.effects)
    (fun _ _ _ same hs₁ => by
      obtain ⟨held, -, -, -, -, inserted⟩ := disposeOne_ok hs₁
      exact inserted.effects.trans same) h rfl

theorem Journal.Change.effects_of_other (hc : s.Change w b now call s')
    (other : ∀ lease request receipt kind,
      call ≠ .prepare lease request ∧ call ≠ .outcome lease request receipt kind) :
    s'.effects = s.effects := by
  cases hc with
  | prepare lease request =>
    exact absurd rfl (other lease request ⟨"", .unknown, Option.none, Option.none⟩ "").1
  | outcome lease request receipt kind => exact absurd rfl (other lease request receipt kind).2
  | transition lease expected target kind payload row s' found status held idle inserted =>
    exact inserted.effects
  | append lease kind path payload row s' found running held inserted => exact inserted.effects
  | complete lease checkpoint row seals s' mine absent found running held sealed inserted =>
    exact inserted.effects
  | acquire lease capability row s' mine absent found running held inserted =>
    exact inserted.effects
  | move lease key expected target disposition acquired row s' stored named mine status found
      running held inserted => exact inserted.effects
  | meter lease key phase acquired row s' stored found running held inserted =>
    exact inserted.effects
  | dispose commandId plan row s₁ s' found running idle fence nodup lost inserted =>
    have kept := dispose_effects lost
    exact inserted.effects.trans kept
  | _ => rfl

theorem effectRow_none_get? (h : effectRow w s key = .ok none) : s.effects.get? key = none := by
  unfold effectRow at h
  split at h
  · rename_i none'
    cases found : s.effects.get? key with
    | none => rfl
    | some row =>
      rw [List.filter_eq_nil_iff] at none'
      exact absurd (by simp) (none' (key, row) (Dict.mem_of_get? found))
  · cases h
  · cases h

theorem effectRow_get? (kept : s.Kept w) {entry : Digest × EffectRow} {stored : EffectRequest}
    (h : effectRow w s key = .ok (some entry))
    (read : effectRequestFromRow w b s entry.1 entry.2 = .ok stored) :
    entry.1 = key ∧ s.effects.get? key = some entry.2 ∧ stored.idempotencyKey = key ∧
      stored.idempotencyKey = stored.derivedKey w := by
  have mem := effectRow_some h
  have same := effectRequestFromRow_ok read
  subst same
  have identity : entry.2.request.idempotencyKey = entry.1 ∧
      entry.2.request.idempotencyKey = entry.2.request.derivedKey w := by
    simp only [effectRequestFromRow, bind_eq_ok, require_eq_ok] at read
    obtain ⟨-, -, o, -, run, -, -, -, -, identity, -⟩ := read
    exact ⟨identity.1, identity.2.2⟩
  have own : entry.1 = key := by
    unfold effectRow at h
    split at h
    · simp only [bind_eq_ok] at h
      obtain ⟨-, -, -, -, -, -, h⟩ := h
      cases h
    · cases h
      rename_i rows
      have listed : entry ∈ s.effects.entries.filter
          (fun e => e.1 = key ∨ e.2.request.derivedKey w = key) := by
        rw [rows]
        exact List.mem_singleton_self entry
      have selected : entry.1 = key ∨ entry.2.request.derivedKey w = key := by
        simpa using (List.mem_filter.mp listed).2
      rcases selected with same | same
      · exact same
      · rw [← same, ← identity.2, identity.1]
    · cases h
  refine ⟨own, ?_, identity.1.trans own, identity.2⟩
  rw [← own]
  exact Dict.get?_of_mem kept.effects.keys mem

/-- What `receipt_for` answers is the receipt of the row. -/
theorem receiptFor_ok (kept : s.Kept w) {seen : Option EffectReceipt}
    (h : receiptFor w b s key = .ok seen) :
    seen = (s.effects.get? key).bind EffectRow.receipt := by
  simp only [receiptFor, bind_eq_ok] at h
  obtain ⟨o, ho, h⟩ := h
  cases o with
  | none =>
    cases h
    rw [effectRow_none_get? ho]
    rfl
  | some entry =>
    simp only [bind_eq_ok] at h
    obtain ⟨stored, read, -, -, h⟩ := h
    obtain ⟨-, found, -, -⟩ := effectRow_get? kept ho read
    rw [found]
    exact effectReceiptFromRow_ok h

theorem recordEffectPrepared_row (kept : s.Kept w)
    {proposed : EffectRequest}
    (h : recordEffectPrepared w b now s lease proposed = .ok (request, s')) :
    s.EffectsLater s' ∧
      (∀ key receipt, (∃ row, s'.effects.get? key = some row ∧ row.receipt = some receipt) ↔
        ∃ row, s.effects.get? key = some row ∧ row.receipt = some receipt) ∧
      (∃ row, s'.effects.get? proposed.idempotencyKey = some row ∧ row.request = request) ∧
      request.idempotencyKey = proposed.idempotencyKey ∧
      request.idempotencyKey = request.derivedKey w := by
  simp only [recordEffectPrepared, bind_eq_ok, require_eq_ok] at h
  obtain ⟨-, mine, row, -, -, -, o, ho, h⟩ := h
  cases o with
  | some entry =>
    simp only [bind_eq_ok] at h
    obtain ⟨stored, read, h⟩ := h
    cases h
    obtain ⟨-, found, key, derived⟩ := effectRow_get? kept ho read
    have same := effectRequestFromRow_ok read
    exact ⟨.of_eq rfl, fun _ _ => Iff.rfl, ⟨entry.2, found, same.symm⟩, key, derived⟩
  | none =>
    simp only [bind_eq_ok] at h
    obtain ⟨-, -, seals, -, stored, read, -, -, h⟩ := h
    cases h
    have same := effectRequestFromRow_ok read
    change request = proposed at same
    subst same
    have fresh := effectRow_none_get? ho
    have other : ∀ {key row}, s.effects.get? key = some row → request.idempotencyKey ≠ key := by
      rintro key row found rfl
      rw [fresh] at found
      cases found
    refine ⟨fun key row found => ?_, fun key receipt => ⟨?_, ?_⟩, ?_, rfl, mine.2⟩
    · exact ⟨row, by rwa [Dict.get?_insert_ne _ _ (other found)], rfl, fun _ hr => hr⟩
    · rintro ⟨row, found, hr⟩
      by_cases heq : request.idempotencyKey = key
      · subst heq
        rw [Dict.get?_insert_self] at found
        cases found
        cases hr
      · rw [Dict.get?_insert_ne _ _ heq] at found
        exact ⟨row, found, hr⟩
    · rintro ⟨row, found, hr⟩
      exact ⟨row, by rwa [Dict.get?_insert_ne _ _ (other found)], hr⟩
    · exact ⟨_, Dict.get?_insert_self _ _ _, rfl⟩

theorem recordEffectOutcome_recorded (kept : s.Kept w) {kind : String}
    (h : recordEffectOutcome w b now s lease request receipt kind = .ok (.recorded, s')) :
    ∃ row row', s.effects.get? request.idempotencyKey = some row ∧ row.receipt = none ∧
      row'.request = row.request ∧ row'.receipt = some receipt ∧
      s'.effects = s.effects.insert request.idempotencyKey row' := by
  simp only [recordEffectOutcome, bind_eq_ok, require_eq_ok, expect_eq_ok] at h
  obtain ⟨-, -, -, -, o, ho, entry, rfl, stored, read, -, -, r, hr, h⟩ := h
  obtain ⟨own, found, -, -⟩ := effectRow_get? kept ho read
  have hreceipt := effectReceiptFromRow_ok hr
  cases r with
  | some prior =>
    simp only [bind_eq_ok] at h
    obtain ⟨-, -, h⟩ := h
    cases h
  | none =>
    simp only [bind_eq_ok] at h
    obtain ⟨row, -, s₁, hs₁, h⟩ := h
    cases h
    have inserted := (insertEvent_ok hs₁).2.effects
    change s'.effects = s.effects.insert entry.1 _ at inserted
    rw [own] at inserted
    exact ⟨entry.2, ⟨entry.2.runId, entry.2.request, entry.2.preparedAt, some receipt, some now,
      some (lease.runId, row.nextEventSeq + 1)⟩, found, hreceipt.symm, rfl, rfl, inserted⟩

theorem recordEffectOutcome_already {kind : String}
    (h : recordEffectOutcome w b now s lease request receipt kind = .ok (.alreadyRecorded, s')) :
    s' = s := by
  simp only [recordEffectOutcome, bind_eq_ok, expect_eq_ok] at h
  obtain ⟨-, -, -, -, o, -, entry, -, stored, -, -, -, r, -, h⟩ := h
  cases r with
  | some prior =>
    simp only [bind_eq_ok] at h
    obtain ⟨-, -, h⟩ := h
    cases h
    rfl
  | none =>
    simp only [bind_eq_ok] at h
    obtain ⟨row, -, s₁, -, h⟩ := h
    cases h

theorem recordEffectOutcome_other {kind : String} {prior : EffectReceipt} {row : EffectRow}
    (kept : s.Kept w) (found : s.effects.get? request.idempotencyKey = some row)
    (closed : row.receipt = some prior) (differs : prior.canonical ≠ receipt.canonical) :
    ∃ e, recordEffectOutcome w b now s lease request receipt kind = .error e := by
  cases h : recordEffectOutcome w b now s lease request receipt kind with
  | error e => exact ⟨e, rfl⟩
  | ok res =>
    exfalso
    simp only [recordEffectOutcome, bind_eq_ok, require_eq_ok, expect_eq_ok] at h
    obtain ⟨-, -, -, -, o, ho, entry, rfl, stored, read, -, -, r, hr, h⟩ := h
    obtain ⟨own, found', -, -⟩ := effectRow_get? kept ho read
    cases found.symm.trans found'
    rw [effectReceiptFromRow_ok hr, closed] at h
    simp only [bind_eq_ok, require_eq_ok] at h
    obtain ⟨-, equal, -⟩ := h
    exact differs equal

end Effects

/-! ## Lawful exchanges -/

def Touch.Lawful : Touch → List Touch → Prop
  | .prepared _ _, _ => True
  | .reread i request seen, older => .prepared i request ∈ older ∧
      ∀ receipt, seen = some receipt ↔ .recorded request.idempotencyKey receipt ∈ older
  | .reconciled i request _, older => ∃ seen, .reread i request seen ∈ older ∧
      ∀ receipt, seen = some receipt → ¬EffectMode.live.Ends receipt
  | .executed i request, older => .reconciled i request (.ok none) ∈ older
  | .simulated i request, older => .prepared i request ∈ older
  | .recorded key _, older => ∀ receipt, .recorded key receipt ∉ older

def TraceLawful : List Touch → Prop
  | [] => True
  | t :: older => t.Lawful older ∧ TraceLawful older

structure Held (w : Wire) (trace : List Touch) (i : ℕ) (c : Boundary) (request : EffectRequest) :
    Prop where
  prepared : .prepared i request ∈ trace
  key : request.idempotencyKey = c.key w
  derived : request.idempotencyKey = request.derivedKey w

def PhaseLawful (w : Wire) (trace : List Touch) (i : ℕ) (c : Boundary) : Phase → Prop
  | .reread request => Held w trace i c request
  | .reconcile request => Held w trace i c request ∧ c.mode = .live ∧
      ∃ seen, .reread i request seen ∈ trace ∧
        ∀ receipt, seen = some receipt → ¬EffectMode.live.Ends receipt
  | .perform request => Held w trace i c request ∧
      (c.mode = .live → .reconciled i request (.ok none) ∈ trace)
  | .record request receipt _ => Held w trace i c request ∧
      (c.mode = .simulated → receipt.status = .simulated)
  | _ => True

def Touch.live : Touch → Option ℕ
  | .reconciled i _ _ => some i
  | .executed i _ => some i
  | _ => none

structure Exchange.Lawful (w : Wire) (x : Exchange) : Prop where
  reachable : x.journal.Reachable w
  prepared : ∀ i request, .prepared i request ∈ x.trace →
    ∃ row, x.journal.effects.get? request.idempotencyKey = some row ∧ row.request = request
  recorded : ∀ key receipt, .recorded key receipt ∈ x.trace ↔
    ∃ row, x.journal.effects.get? key = some row ∧ row.receipt = some receipt
  live : ∀ t ∈ x.trace, ∀ i, t.live = some i →
    ∃ c phase, x.calls[i]? = some (c, phase) ∧ c.mode = .live
  phases : ∀ i c phase, x.calls[i]? = some (c, phase) → PhaseLawful w x.trace i c phase
  trace : TraceLawful x.trace

def Exchange.Counterfactual (x : Exchange) : Prop :=
  ∀ key row receipt, x.journal.effects.get? key = some row →
    row.request.mode = .simulated → row.receipt = some receipt → receipt.status = .simulated

def Wire.Separated (w : Wire) : Prop :=
  ∀ p q, w.hashing.hash "idempotency" 1 p ≠ w.hashing.hash "idempotency-simulated" 1 q

section Lawful

variable {w : Wire} {x : Exchange} {i : ℕ} {c : Boundary} {phase : Phase} {env : Surroundings}
  {request : EffectRequest} {receipt : EffectReceipt}

theorem Exchange.lawful_start (w : Wire) : Exchange.start.Lawful w where
  reachable := Reaches.refl _
  prepared := fun i request h => by simp [Exchange.start] at h
  recorded := fun key receipt => by simp [Exchange.start, Journal.empty]
  live := fun t ht => by simp [Exchange.start] at ht
  phases := fun i c phase h => by simp [Exchange.start] at h
  trace := trivial

theorem Held.mono {trace : List Touch} (h : Held w trace i c request) (new : List Touch) :
    Held w (new ++ trace) i c request :=
  ⟨List.mem_append_right _ h.prepared, h.key, h.derived⟩

theorem PhaseLawful.mono {trace : List Touch} (h : PhaseLawful w trace i c phase)
    (new : List Touch) : PhaseLawful w (new ++ trace) i c phase := by
  cases phase with
  | reread request => exact Held.mono h new
  | reconcile request =>
    obtain ⟨held, live, seen, hseen, open'⟩ := h
    exact ⟨held.mono new, live, seen, List.mem_append_right _ hseen, open'⟩
  | perform request => exact ⟨h.1.mono new, fun live => List.mem_append_right _ (h.2 live)⟩
  | record request receipt kind => exact ⟨h.1.mono new, h.2⟩
  | _ => trivial

theorem Exchange.Lawful.advance (hx : x.Lawful w) (found : x.calls[i]? = some (c, phase))
    (a : Action) (reachable : a.journal.Reachable w) (later : x.journal.EffectsLater a.journal)
    (recorded : ∀ key receipt, .recorded key receipt ∈ a.touches ++ x.trace ↔
      ∃ row, a.journal.effects.get? key = some row ∧ row.receipt = some receipt)
    (prepared : ∀ j request, .prepared j request ∈ a.touches →
      ∃ row, a.journal.effects.get? request.idempotencyKey = some row ∧ row.request = request)
    (live : ∀ t ∈ a.touches, ∀ j, t.live = some j → j = i ∧ c.mode = .live)
    (own : PhaseLawful w (a.touches ++ x.trace) i c a.phase)
    (trace : TraceLawful (a.touches ++ x.trace)) :
    Exchange.Lawful w ⟨a.journal, x.calls.set i (c, a.phase), a.touches ++ x.trace⟩ := by
  have bound : i < x.calls.length := by
    by_contra out
    rw [List.getElem?_eq_none (by omega)] at found
    cases found
  refine ⟨reachable, ?_, recorded, ?_, ?_, trace⟩
  · intro j request h
    rcases List.mem_append.mp h with h | h
    · exact prepared j request h
    · obtain ⟨row, hrow, same⟩ := hx.prepared j request h
      obtain ⟨row', hrow', same', -⟩ := later _ row hrow
      exact ⟨row', hrow', same'.trans same⟩
  · intro t ht j hj
    rcases List.mem_append.mp ht with ht | ht
    · obtain ⟨rfl, hlive⟩ := live t ht j hj
      exact ⟨c, a.phase, by simp [bound], hlive⟩
    · obtain ⟨c', phase', hc', hlive⟩ := hx.live t ht j hj
      by_cases same : i = j
      · subst same
        cases found.symm.trans hc'
        exact ⟨c, a.phase, by simp [bound], hlive⟩
      · exact ⟨c', phase', by simpa [List.getElem?_set_ne same] using hc', hlive⟩
  · intro j c' phase' h
    by_cases same : i = j
    · subst same
      have here : (c, a.phase) = (c', phase') := by simpa [bound] using h
      cases here
      exact own
    · have old : x.calls[j]? = some (c', phase') := by simpa [List.getElem?_set_ne same] using h
      exact (hx.phases j c' phase' old).mono a.touches

theorem Exchange.Lawful.quiet (hx : x.Lawful w) (found : x.calls[i]? = some (c, phase))
    (a : Action) (reachable : a.journal.Reachable w)
    (effects : a.journal.effects = x.journal.effects)
    (touches : ∀ t ∈ a.touches, (∀ key receipt, t ≠ .recorded key receipt) ∧
      (∀ j request, t ≠ .prepared j request) ∧ ∀ j, t.live = some j → j = i ∧ c.mode = .live)
    (own : PhaseLawful w (a.touches ++ x.trace) i c a.phase)
    (trace : TraceLawful (a.touches ++ x.trace)) :
    Exchange.Lawful w ⟨a.journal, x.calls.set i (c, a.phase), a.touches ++ x.trace⟩ := by
  refine hx.advance found a reachable (.of_eq effects) ?_ ?_ ?_ own trace
  · intro key receipt
    rw [effects, ← hx.recorded key receipt, List.mem_append]
    constructor
    · rintro (h | h)
      · exact absurd rfl ((touches _ h).1 key receipt)
      · exact h
    · exact .inr
  · exact fun j request h => absurd rfl ((touches _ h).2.1 j request)
  · exact fun t ht j hj => (touches t ht).2.2 j hj

/-- The exchange after call `i` took an action. -/
def Exchange.after (x : Exchange) (i : ℕ) (c : Boundary) (a : Action) : Exchange :=
  ⟨a.journal, x.calls.set i (c, a.phase), a.touches ++ x.trace⟩

theorem Exchange.Lawful.still (hx : x.Lawful w) (found : x.calls[i]? = some (c, phase))
    {phase' : Phase} (own : PhaseLawful w x.trace i c phase') :
    (x.after i c ⟨x.journal, phase', []⟩).Lawful w :=
  hx.quiet found ⟨x.journal, phase', []⟩ hx.reachable rfl (fun t ht => by simp at ht) own hx.trace

theorem Exchange.Lawful.raise (hx : x.Lawful w) (found : x.calls[i]? = some (c, phase))
    (e : BoundaryError) : (x.after i c (.raise x.journal e)).Lawful w := hx.still found trivial

theorem Exchange.Lawful.look (hx : x.Lawful w) (found : x.calls[i]? = some (c, phase)) :
    (x.after i c (lookAction w env x.journal c)).Lawful w := by
  unfold lookAction
  split
  · exact hx.raise found _
  split
  · exact hx.raise found _
  split
  · exact hx.still found trivial
  split_ifs
  · exact hx.still found trivial
  · exact hx.raise found _

theorem Journal.Reachable.call {s s' : Journal} (h : s.Reachable w) (made : MadeCall)
    (step : s.step w made.beside made.now made.call = s') : s'.Reachable w := by
  subst step
  exact h.trans (Reaches.single _ made)

theorem Exchange.Lawful.prepare (hx : x.Lawful w) (found : x.calls[i]? = some (c, phase)) :
    (x.after i c (prepareAction w env x.journal i c)).Lawful w := by
  unfold prepareAction
  split
  · exact hx.raise found _
  split
  · exact hx.raise found _
  rename_i request s' ok
  have kept := hx.reachable.kept.2
  obtain ⟨later, receipts, ⟨row, stored, same⟩, key, derived⟩ := recordEffectPrepared_row kept ok
  have reachable : s'.Reachable w := by
    refine hx.reachable.call ⟨env.beside, env.now, _, .prepare c.lease (c.proposed w)⟩ ?_
    rw [Journal.step, ok]
    rfl
  refine hx.advance found ⟨s', .reread request, [.prepared i request]⟩ reachable later
    ?_ ?_ ?_ ⟨by simp, key, derived⟩ ⟨trivial, hx.trace⟩
  · intro key receipt
    rw [receipts, ← hx.recorded]
    simp
  · intro j request' h
    obtain ⟨rfl, rfl⟩ : j = i ∧ request' = request := by simpa using h
    exact ⟨row, by rwa [key], same⟩
  · intro t ht j hj
    rw [List.mem_singleton.mp ht] at hj
    cases hj

theorem filter_none_not_ends {mode : EffectMode} {seen : Option EffectReceipt}
    (h : seen.filter (fun r => mode.Ends r) = none) :
    ∀ receipt, seen = some receipt → ¬mode.Ends receipt := by
  rintro receipt rfl ends
  simp [Option.filter, ends] at h

theorem Exchange.Lawful.reread (hx : x.Lawful w) (found : x.calls[i]? = some (c, .reread request)) :
    (x.after i c (rereadAction w env x.journal i c request)).Lawful w := by
  have held : Held w x.trace i c request := hx.phases i c _ found
  unfold rereadAction
  split
  · exact hx.raise found _
  rename_i seen ok
  have visible := receiptFor_ok hx.reachable.kept.2 ok
  have lawful : (Touch.reread i request seen).Lawful x.trace := by
    refine ⟨held.prepared, fun receipt => ?_⟩
    rw [hx.recorded, visible, held.key, Option.bind_eq_some_iff]
  have quiet : ∀ phase', PhaseLawful w (.reread i request seen :: x.trace) i c phase' →
      (x.after i c ⟨x.journal, phase', [.reread i request seen]⟩).Lawful w := by
    intro phase' own
    refine hx.quiet found ⟨x.journal, phase', [.reread i request seen]⟩ hx.reachable rfl ?_ own
      ⟨lawful, hx.trace⟩
    intro t ht
    rw [List.mem_singleton.mp ht]
    exact ⟨by simp, by simp, fun j hj => by cases hj⟩
  split
  · exact quiet _ trivial
  rename_i open'
  apply quiet
  split_ifs with live
  · refine ⟨held.mono [_], live, seen, by simp, ?_⟩
    rw [live] at open'
    exact filter_none_not_ends open'
  · exact ⟨held.mono [_], fun h => absurd h live⟩

theorem Exchange.Lawful.reconcile (hx : x.Lawful w)
    (found : x.calls[i]? = some (c, .reconcile request)) :
    (x.after i c (reconcileAction env x.journal i request)).Lawful w := by
  obtain ⟨held, live, read⟩ := hx.phases i c _ found
  have quiet : ∀ answer phase', PhaseLawful w (.reconciled i request answer :: x.trace) i c phase' →
      (x.after i c ⟨x.journal, phase', [.reconciled i request answer]⟩).Lawful w := by
    intro answer phase' own
    refine hx.quiet found ⟨x.journal, phase', [.reconciled i request answer]⟩ hx.reachable rfl ?_
      own ⟨read, hx.trace⟩
    intro t ht
    rw [List.mem_singleton.mp ht]
    exact ⟨by simp, by simp, fun j hj => ⟨by simpa [Touch.live] using hj.symm, live⟩⟩
  unfold reconcileAction
  split
  · exact quiet _ _ trivial
  · exact quiet _ _ ⟨held.mono [_], fun _ => by simp⟩
  · exact quiet _ _ ⟨held.mono [_], fun mode => by simp [live] at mode⟩

theorem Exchange.Lawful.perform (hx : x.Lawful w)
    (found : x.calls[i]? = some (c, .perform request)) :
    (x.after i c (performAction env x.journal i c request)).Lawful w := by
  obtain ⟨held, absent⟩ := hx.phases i c _ found
  unfold performAction
  split
  · exact hx.raise found _
  split
  · rename_i mode
    split_ifs
    · have quiet : ∀ phase', PhaseLawful w (.simulated i request :: x.trace) i c phase' →
          (x.after i c ⟨x.journal, phase', [.simulated i request]⟩).Lawful w := by
        intro phase' own
        refine hx.quiet found ⟨x.journal, phase', [.simulated i request]⟩ hx.reachable rfl ?_ own
          ⟨held.prepared, hx.trace⟩
        intro t ht
        rw [List.mem_singleton.mp ht]
        exact ⟨by simp, by simp, fun j hj => by cases hj⟩
      unfold answered
      split
      · exact quiet _ trivial
      · rename_i receipt ok
        exact quiet _ ⟨held.mono [_], fun _ => env.counterfactual receipt ok⟩
    · exact hx.raise found _
  · rename_i mode
    have quiet : ∀ phase', PhaseLawful w (.executed i request :: x.trace) i c phase' →
        (x.after i c ⟨x.journal, phase', [.executed i request]⟩).Lawful w := by
      intro phase' own
      refine hx.quiet found ⟨x.journal, phase', [.executed i request]⟩ hx.reachable rfl ?_ own
        ⟨absent mode, hx.trace⟩
      intro t ht
      rw [List.mem_singleton.mp ht]
      exact ⟨by simp, by simp, fun j hj => ⟨by simpa [Touch.live] using hj.symm, mode⟩⟩
    unfold answered
    split
    · exact quiet _ trivial
    · exact quiet _ ⟨held.mono [_], fun simulated => by simp [mode] at simulated⟩

theorem Held.mode (separated : w.Separated) {trace : List Touch} (h : Held w trace i c request) :
    request.mode = c.mode := by
  have same : request.derivedKey w = c.key w := h.derived.symm.trans h.key
  cases hr : request.mode <;> cases hc : c.mode
  · rfl
  · rw [EffectRequest.derivedKey, Boundary.key, hr, hc] at same
    exact absurd same (separated _ _)
  · rw [EffectRequest.derivedKey, Boundary.key, hr, hc] at same
    exact absurd same.symm (separated _ _)
  · rfl

theorem Exchange.Lawful.record {kind : String} (hx : x.Lawful w)
    (found : x.calls[i]? = some (c, .record request receipt kind)) :
    (x.after i c (recordAction w env x.journal c request receipt kind)).Lawful w := by
  obtain ⟨held, simulated⟩ := hx.phases i c _ found
  have kept := hx.reachable.kept.2
  unfold recordAction
  split
  · exact hx.raise found _
  · rename_i s' ok
    obtain ⟨row, row', old, open', sameRequest, closed, effects⟩ :=
      recordEffectOutcome_recorded kept ok
    have reachable : s'.Reachable w := by
      refine hx.reachable.call ⟨env.beside, env.now, _, .outcome c.lease request receipt kind⟩ ?_
      rw [Journal.step, ok]
      rfl
    have unrecorded : ∀ receipt', .recorded request.idempotencyKey receipt' ∉ x.trace := by
      intro receipt' h
      obtain ⟨row₁, found₁, some'⟩ := (hx.recorded _ _).mp h
      cases old.symm.trans found₁
      rw [open'] at some'
      cases some'
    have later : x.journal.EffectsLater s' := by
      intro key row₁ found₁
      rw [effects]
      by_cases same : request.idempotencyKey = key
      · subst same
        cases old.symm.trans found₁
        exact ⟨row', Dict.get?_insert_self _ _ _, sameRequest, fun r hr => by simp [open'] at hr⟩
      · exact ⟨row₁, by rwa [Dict.get?_insert_ne _ _ same], rfl, fun _ hr => hr⟩
    refine hx.advance found ⟨s', .returned receipt, [.recorded request.idempotencyKey receipt]⟩
      reachable later ?_ ?_ ?_ trivial ⟨unrecorded, hx.trace⟩
    · intro key receipt'
      rw [effects]
      by_cases same : request.idempotencyKey = key
      · subst same
        have none' := unrecorded receipt'
        simp [none', closed, eq_comm]
      · have ne : key ≠ request.idempotencyKey := fun h => same h.symm
        rw [Dict.get?_insert_ne _ _ same, ← hx.recorded]
        simp [ne]
    · exact fun j request' h => by simp at h
    · intro t ht j hj
      rw [List.mem_singleton.mp ht] at hj
      cases hj
  · rename_i s' ok
    rw [recordEffectOutcome_already ok]
    exact hx.still found trivial

theorem Exchange.Lawful.note (hx : x.Lawful w) (found : x.calls[i]? = some (c, phase)) :
    (x.after i c (noteAction w env x.journal c receipt)).Lawful w := by
  unfold noteAction
  dsimp only
  split
  · exact hx.raise found _
  · rename_i s' ok
    have change := (appendEvent_change ok).1
    have effects : s'.effects = x.journal.effects :=
      change.effects_of_other fun _ _ _ _ => ⟨by simp, by simp⟩
    have reachable : s'.Reachable w := by
      refine hx.reachable.call
        ⟨env.beside, env.now, _, .notice c.lease (.effectDeduplicated c.path c.kind)⟩ ?_
      rw [Journal.step, ok]
      rfl
    exact hx.quiet found ⟨s', .returned receipt, []⟩ reachable effects (fun t ht => by simp at ht)
      trivial hx.trace

theorem Exchange.Lawful.act (hx : x.Lawful w) (i : ℕ)
    (env : Surroundings) : (x.act w i env).Lawful w := by
  unfold Exchange.act
  split
  · exact hx
  · rename_i c phase found
    cases phase with
    | look => exact hx.look found
    | prepare => exact hx.prepare found
    | reread request => exact hx.reread found
    | reconcile request => exact hx.reconcile found
    | perform request => exact hx.perform found
    | record request receipt kind => exact hx.record found
    | note receipt => exact hx.note found
    | returned receipt => exact hx.still found trivial
    | raised e => exact hx.still found trivial

@[simp] theorem Exchange.begin_calls (w : Wire) (x : Exchange) (c : Boundary) :
    (x.step w (.begin c)).calls = x.calls ++ [(c, .look)] := rfl

theorem Exchange.Lawful.step (hx : x.Lawful w) (m : Move) :
    (x.step w m).Lawful w := by
  cases m with
  | begin c =>
    refine ⟨hx.reachable, hx.prepared, hx.recorded, ?_, ?_, hx.trace⟩
    · intro t ht j hj
      obtain ⟨c', phase', h, live⟩ := hx.live t ht j hj
      have bound := (List.getElem?_eq_some_iff.mp h).1
      exact ⟨c', phase', by rw [Exchange.begin_calls, List.getElem?_append_left bound, h], live⟩
    · intro j c' phase' h
      rw [Exchange.begin_calls] at h
      rcases lt_or_ge j x.calls.length with old | new
      · exact hx.phases j c' phase' (by rwa [List.getElem?_append_left old] at h)
      · rw [List.getElem?_append_right new] at h
        have here : (c, Phase.look) = (c', phase') := by
          simpa using (List.getElem?_eq_some_iff.mp h).2
        cases here
        trivial
  | act i env => exact hx.act i env
  | crash i =>
    change (x.crash i).Lawful w
    unfold Exchange.crash
    split
    · exact hx
    · rename_i c phase found
      exact hx.still found trivial
  | other c =>
    have effects := (x.journal.step_change w c.beside c.now c.call).effects_of_other c.other
    refine ⟨hx.reachable.call c.toMadeCall rfl, ?_, ?_, hx.live, hx.phases, hx.trace⟩
    · intro j request h
      change ∃ row, (x.journal.step w c.beside c.now c.call).effects.get? _ = _ ∧ _
      rw [effects]
      exact hx.prepared j request h
    · intro key receipt
      change _ ↔ ∃ row, (x.journal.step w c.beside c.now c.call).effects.get? _ = _ ∧ _
      rw [effects]
      exact hx.recorded key receipt

theorem Exchange.lawful_of_reaches (h : Reaches (Exchange.step w) .start x) : x.Lawful w :=
  Reaches.invariant (fun _ m hx => hx.step m) h (Exchange.lawful_start w)

theorem boundaryAction_effects (s : Journal) (prepare : phase ≠ .prepare)
    (record : ∀ request receipt kind, phase ≠ .record request receipt kind) :
    (boundaryAction w env s i c phase).journal.effects = s.effects := by
  cases phase with
  | look =>
    change (lookAction w env s c).journal.effects = _
    unfold lookAction
    repeat' split
    all_goals rfl
  | prepare => exact absurd rfl prepare
  | reread request =>
    change (rereadAction w env s i c request).journal.effects = _
    unfold rereadAction
    repeat' split
    all_goals rfl
  | reconcile request =>
    change (reconcileAction env s i request).journal.effects = _
    unfold reconcileAction
    repeat' split
    all_goals rfl
  | perform request =>
    change (performAction env s i c request).journal.effects = _
    unfold performAction answered
    repeat' split
    all_goals rfl
  | record request receipt kind => exact absurd rfl (record request receipt kind)
  | note receipt =>
    change (noteAction w env s c receipt).journal.effects = _
    unfold noteAction
    dsimp only
    split
    · rfl
    · rename_i s' ok
      exact (appendEvent_change ok).1.effects_of_other fun _ _ _ _ => ⟨by simp, by simp⟩
  | returned receipt => rfl
  | raised e => rfl

theorem prepareAction_effects (kept : x.journal.Kept w) :
    x.journal.EffectsLater (prepareAction w env x.journal i c).journal ∧ ∀ key receipt,
      (∃ row, (prepareAction w env x.journal i c).journal.effects.get? key = some row ∧
        row.receipt = some receipt) ↔
      ∃ row, x.journal.effects.get? key = some row ∧ row.receipt = some receipt := by
  unfold prepareAction
  split
  · exact ⟨.of_eq rfl, fun _ _ => Iff.rfl⟩
  split
  · exact ⟨.of_eq rfl, fun _ _ => Iff.rfl⟩
  · rename_i request s' ok
    obtain ⟨later, receipts, -⟩ := recordEffectPrepared_row kept ok
    exact ⟨later, receipts⟩

theorem recordAction_effects (kept : x.journal.Kept w) {kind : String} :
    (recordAction w env x.journal c request receipt kind).journal.effects = x.journal.effects ∨
      ∃ row row', x.journal.effects.get? request.idempotencyKey = some row ∧ row.receipt = none ∧
        row'.request = row.request ∧ row'.receipt = some receipt ∧
        (recordAction w env x.journal c request receipt kind).journal.effects =
          x.journal.effects.insert request.idempotencyKey row' := by
  unfold recordAction
  split
  · exact .inl rfl
  · rename_i s' ok
    exact .inr (recordEffectOutcome_recorded kept ok)
  · rename_i s' ok
    exact .inl (by rw [recordEffectOutcome_already ok])

theorem EffectsLater_of_close {s s' : Journal} {key : Digest} {row row' : EffectRow}
    (found : s.effects.get? key = some row) (open' : row.receipt = none)
    (same : row'.request = row.request) (effects : s'.effects = s.effects.insert key row') :
    s.EffectsLater s' := by
  intro key' row₁ found₁
  rw [effects]
  by_cases heq : key = key'
  · subst heq
    cases found.symm.trans found₁
    exact ⟨row', Dict.get?_insert_self _ _ _, same, fun r hr => by simp [open'] at hr⟩
  · exact ⟨row₁, by rwa [Dict.get?_insert_ne _ _ heq], rfl, fun _ hr => hr⟩

theorem Exchange.Lawful.later (hx : x.Lawful w) (m : Move) :
    x.journal.EffectsLater (x.step w m).journal := by
  have kept := hx.reachable.kept.2
  cases m with
  | begin c => exact .of_eq rfl
  | act i env =>
    change x.journal.EffectsLater (x.act w i env).journal
    unfold Exchange.act
    split
    · exact .of_eq rfl
    · rename_i c phase found
      by_cases prepare : phase = .prepare
      · subst prepare
        exact (prepareAction_effects kept).1
      by_cases record : ∃ request receipt kind, phase = .record request receipt kind
      · obtain ⟨request, receipt, kind, rfl⟩ := record
        have writes : (recordAction w env x.journal c request receipt kind).journal.effects =
            x.journal.effects ∨ _ := recordAction_effects kept
        rcases writes with same | closed
        · exact .of_eq same
        · obtain ⟨row, row', found', open', same, -, effects⟩ := closed
          exact EffectsLater_of_close found' open' same effects
      · apply Journal.EffectsLater.of_eq
        exact boundaryAction_effects x.journal prepare fun r rc k h => record ⟨r, rc, k, h⟩
  | crash i =>
    change x.journal.EffectsLater (x.crash i).journal
    unfold Exchange.crash
    split <;> exact .of_eq rfl
  | other c =>
    exact .of_eq ((x.journal.step_change w c.beside c.now c.call).effects_of_other c.other)

def Journal.Derived (w : Wire) (s : Journal) : Prop :=
  ∀ key row, s.effects.get? key = some row → row.request.derivedKey w = key

theorem Journal.Derived.insert {s s' : Journal} {key : Digest} {row : EffectRow} (hs : s.Derived w)
    (effects : s'.effects = s.effects.insert key row) (own : row.request.derivedKey w = key) :
    s'.Derived w := by
  intro key' row' found
  rw [effects] at found
  by_cases same : key = key'
  · subst same
    rw [Dict.get?_insert_self] at found
    cases found
    exact own
  · rw [Dict.get?_insert_ne _ _ same] at found
    exact hs key' row' found

theorem Journal.Change.derived {b : Beside} {now : Instant} {s s' : Journal} {call : JournalCall}
    (hc : s.Change w b now call s') (kept : s.Kept w) (hs : s.Derived w) : s'.Derived w := by
  by_cases other : ∀ lease request receipt kind,
      call ≠ .prepare lease request ∧ call ≠ .outcome lease request receipt kind
  · intro key row found
    rw [hc.effects_of_other other] at found
    exact hs key row found
  cases hc with
  | prepare lease request row seals mine found held manifest absent sealed =>
    exact hs.insert rfl mine.2.symm
  | outcome lease request receipt kind row key effect s' mine allowed prepared read same open'
      found running held inserted =>
    have mem := effectRow_some prepared
    have stored := Dict.get?_of_mem kept.effects.keys mem
    exact hs.insert inserted.effects (hs key effect stored)
  | none => exact hs
  | _ => exact absurd (fun _ _ _ _ => ⟨by simp, by simp⟩) other

theorem Journal.Reachable.derived {s : Journal} (h : s.Reachable w) : s.Derived w := by
  have both : (s.Owned ∧ s.Kept w) ∧ s.Derived w := by
    refine Reaches.invariant (I := fun s => (s.Owned ∧ s.Kept w) ∧ s.Derived w) ?_ h
      ⟨⟨?_, Journal.kept_empty w⟩, ?_⟩
    · intro s c hs
      have change := s.step_change w c.beside c.now c.call
      exact ⟨⟨change.owned hs.1.1, change.kept c.made hs.1.1 hs.1.2⟩, change.derived hs.1.2 hs.2⟩
    · exact fun run row hr => by simp [Journal.empty] at hr
    · exact fun key row hr => by simp [Journal.empty] at hr
  exact both.2

theorem Exchange.Counterfactual.step (separated : w.Separated) (hx : x.Lawful w)
    (hc : x.Counterfactual) (m : Move) : (x.step w m).Counterfactual := by
  have kept := hx.reachable.kept.2
  have same : ∀ x' : Exchange, x'.journal.effects = x.journal.effects → x'.Counterfactual := by
    intro x' effects key row receipt found
    rw [effects] at found
    exact hc key row receipt found
  cases m with
  | begin c => exact same _ rfl
  | act i env =>
    change (x.act w i env).Counterfactual
    unfold Exchange.act
    split
    · exact hc
    rename_i c phase found
    by_cases prepare : phase = .prepare
    · subst prepare
      obtain ⟨later, receipts⟩ :
          x.journal.EffectsLater (prepareAction w env x.journal i c).journal ∧ _ :=
        prepareAction_effects kept
      intro key row receipt hrow mode hr
      obtain ⟨old, hold, oldReceipt⟩ := (receipts key receipt).mp ⟨row, hrow, hr⟩
      obtain ⟨row', hrow', same', -⟩ := later key old hold
      cases hrow.symm.trans hrow'
      exact hc key old receipt hold (by rwa [← same']) oldReceipt
    by_cases record : ∃ request receipt kind, phase = .record request receipt kind
    · obtain ⟨request, receipt, kind, rfl⟩ := record
      have writes : (recordAction w env x.journal c request receipt kind).journal.effects =
          x.journal.effects ∨ _ := recordAction_effects kept
      rcases writes with unchanged | ⟨row, row', old, -, sameRequest, closed, effects⟩
      · exact same _ unchanged
      obtain ⟨held, simulated⟩ := hx.phases i c _ found
      obtain ⟨row₀, stored, prepared⟩ := hx.prepared i request held.prepared
      cases old.symm.trans stored
      intro key row₁ receipt' found₁ mode hr
      have at' : (x.journal.effects.insert request.idempotencyKey row').get? key = some row₁ := by
        rw [← effects]
        exact found₁
      by_cases heq : request.idempotencyKey = key
      · subst heq
        rw [Dict.get?_insert_self] at at'
        cases at'
        cases closed.symm.trans hr
        rw [sameRequest, prepared, held.mode separated] at mode
        exact simulated mode
      · rw [Dict.get?_insert_ne _ _ heq] at at'
        exact hc key row₁ receipt' at' mode hr
    · apply same
      exact boundaryAction_effects x.journal prepare fun r rc k h => record ⟨r, rc, k, h⟩
  | crash i =>
    change (x.crash i).Counterfactual
    unfold Exchange.crash
    split
    · exact hc
    · exact same _ rfl
  | other c =>
    exact same _ ((x.journal.step_change w c.beside c.now c.call).effects_of_other c.other)

def Touch.adapter : Touch → Option (ℕ × EffectRequest)
  | .reconciled i request _ => some (i, request)
  | .executed i request => some (i, request)
  | .simulated i request => some (i, request)
  | _ => none

/-- An action of call `i` reaches the adapter in three phases only, with its own request. -/
theorem boundaryAction_adapter (s : Journal) {t : Touch} {j : ℕ}
    (ht : t ∈ (boundaryAction w env s i c phase).touches) (adapter : t.adapter = some (j, request)) :
    j = i ∧ (phase = .reconcile request ∨ phase = .perform request) := by
  cases phase with
  | look =>
    change t ∈ (lookAction w env s c).touches at ht
    unfold lookAction at ht
    repeat' split at ht
    all_goals simp [Action.raise] at ht
  | prepare =>
    change t ∈ (prepareAction w env s i c).touches at ht
    unfold prepareAction at ht
    repeat' split at ht
    all_goals simp [Action.raise] at ht
    subst ht
    cases adapter
  | reread request' =>
    change t ∈ (rereadAction w env s i c request').touches at ht
    unfold rereadAction at ht
    repeat' split at ht
    all_goals simp [Action.raise] at ht
    all_goals
      subst ht
      cases adapter
  | reconcile request' =>
    change t ∈ (reconcileAction env s i request').touches at ht
    unfold reconcileAction at ht
    repeat' split at ht
    all_goals
      rw [List.mem_singleton.mp ht] at adapter
      cases adapter
      exact ⟨rfl, .inl rfl⟩
  | perform request' =>
    change t ∈ (performAction env s i c request').touches at ht
    unfold performAction answered at ht
    repeat' split at ht
    all_goals
      simp [Action.raise] at ht
    all_goals
      subst ht
      cases adapter
      exact ⟨rfl, .inr rfl⟩
  | record request' receipt kind =>
    change t ∈ (recordAction w env s c request' receipt kind).touches at ht
    unfold recordAction at ht
    repeat' split at ht
    all_goals simp [Action.raise] at ht
    subst ht
    cases adapter
  | note receipt =>
    change t ∈ (noteAction w env s c receipt).touches at ht
    unfold noteAction at ht
    dsimp only at ht
    repeat' split at ht
    all_goals simp [Action.raise] at ht
  | returned receipt => cases ht
  | raised e => cases ht

/-! ## Calls that come too late -/

def Phase.Idle : Phase → Prop
  | .look => True
  | .note _ => True
  | .returned _ => True
  | .raised _ => True
  | _ => False

def Exchange.Bounded (x : Exchange) : Prop :=
  ∀ t ∈ x.trace, ∀ j request, t.adapter = some (j, request) → j < x.calls.length

/-- The key is settled, and no call from the `n`-th on does more than read it. -/
structure Exchange.Settled (w : Wire) (key : Digest) (n : ℕ) (x : Exchange) : Prop where
  closed : ∃ row receipt, x.journal.effects.get? key = some row ∧ row.receipt = some receipt ∧
    EffectMode.live.Ends receipt
  idle : ∀ j c phase, n ≤ j → x.calls[j]? = some (c, phase) → c.key w = key → phase.Idle
  untouched : ∀ t ∈ x.trace, ∀ j request, t.adapter = some (j, request) → n ≤ j →
    request.idempotencyKey ≠ key

theorem Exchange.Bounded.step (hx : x.Bounded) (m : Move) : (x.step w m).Bounded := by
  cases m with
  | begin c =>
    intro t ht j request adapter
    have old := hx t ht j request adapter
    rw [Exchange.begin_calls, List.length_append]
    omega
  | act i env =>
    change (x.act w i env).Bounded
    unfold Exchange.act
    split
    · exact hx
    · rename_i c phase found
      intro t ht j request adapter
      have bound := (List.getElem?_eq_some_iff.mp found).1
      simp only [List.length_set]
      rcases List.mem_append.mp ht with new | old
      · obtain ⟨rfl, -⟩ := boundaryAction_adapter x.journal new adapter
        exact bound
      · exact hx t old j request adapter
  | crash i =>
    change (x.crash i).Bounded
    unfold Exchange.crash
    split
    · exact hx
    · intro t ht j request adapter
      simp only [List.length_set]
      exact hx t ht j request adapter
  | other c => exact hx

theorem lookAction_idle (separated : w.Separated) (hx : x.Lawful w) (hc : x.Counterfactual)
    {row : EffectRow} (found : x.journal.effects.get? (c.key w) = some row)
    (closed : row.receipt = some receipt) (ends : EffectMode.live.Ends receipt) :
    (lookAction w env x.journal c).phase.Idle := by
  have derived := hx.reachable.derived _ row found
  have live : c.mode = .live := by
    cases hr : row.request.mode with
    | simulated =>
      have status := hc _ row receipt found hr closed
      simp [EffectMode.Ends, EffectMode.terminalStatuses, status] at ends
    | live =>
      cases hm : c.mode with
      | live => rfl
      | simulated =>
        rw [EffectRequest.derivedKey, Boundary.key, hr, hm] at derived
        exact absurd derived (separated _ _)
  unfold lookAction
  split
  · trivial
  split
  · trivial
  · rename_i seen ok
    have visible := receiptFor_ok hx.reachable.kept.2 ok
    rw [found, Option.bind_some, closed] at visible
    subst visible
    rw [live]
    simp [Option.filter, ends, Phase.Idle]

theorem boundaryAction_idle (separated : w.Separated) (hx : x.Lawful w) (hc : x.Counterfactual)
    {row : EffectRow} (found : x.journal.effects.get? (c.key w) = some row)
    (closed : row.receipt = some receipt) (ends : EffectMode.live.Ends receipt)
    (idle : phase.Idle) : (boundaryAction w env x.journal i c phase).phase.Idle := by
  cases phase with
  | look => exact lookAction_idle separated hx hc found closed ends
  | note receipt =>
    change (noteAction w env x.journal c receipt).phase.Idle
    unfold noteAction
    dsimp only
    split <;> trivial
  | returned receipt => trivial
  | raised e => trivial
  | _ => exact absurd idle (by simp [Phase.Idle])

theorem Exchange.Settled.step {key : Digest} {n : ℕ} (separated : w.Separated) (hx : x.Lawful w)
    (hc : x.Counterfactual) (hs : x.Settled w key n) (m : Move) : (x.step w m).Settled w key n := by
  obtain ⟨row, receipt, stored, closed, ends⟩ := hs.closed
  obtain ⟨row', stored', -, keep⟩ := hx.later m key row stored
  refine ⟨⟨row', receipt, stored', keep receipt closed, ends⟩, ?_, ?_⟩
  · intro j c phase late found mine
    cases m with
    | begin c' =>
      rw [Exchange.begin_calls] at found
      rcases lt_or_ge j x.calls.length with old | new
      · rw [List.getElem?_append_left old] at found
        exact hs.idle j c phase late found mine
      · rw [List.getElem?_append_right new] at found
        have here : (c', Phase.look) = (c, phase) := by
          simpa using (List.getElem?_eq_some_iff.mp found).2
        cases here
        trivial
    | act i env =>
      change (x.act w i env).calls[j]? = _ at found
      unfold Exchange.act at found
      split at found
      · exact hs.idle j c phase late found mine
      · rename_i c' phase' found'
        by_cases same : i = j
        · subst same
          have bound := (List.getElem?_eq_some_iff.mp found').1
          have here : (c', (boundaryAction w env x.journal i c' phase').phase) = (c, phase) := by
            simpa [bound] using found
          cases here
          have idle := hs.idle i c phase' late found' mine
          rw [← mine] at stored
          exact boundaryAction_idle separated hx hc stored closed ends idle
        · rw [List.getElem?_set_ne same] at found
          exact hs.idle j c phase late found mine
    | crash i =>
      change (x.crash i).calls[j]? = _ at found
      unfold Exchange.crash at found
      split at found
      · exact hs.idle j c phase late found mine
      · rename_i c' phase' found'
        by_cases same : i = j
        · subst same
          have bound := (List.getElem?_eq_some_iff.mp found').1
          have here : (c', Phase.raised .crashed) = (c, phase) := by simpa [bound] using found
          cases here
          trivial
        · have old : x.calls[j]? = some (c, phase) := by
            simpa [List.getElem?_set_ne same] using found
          exact hs.idle j c phase late old mine
    | other c' => exact hs.idle j c phase late found mine
  · intro t ht j request adapter late
    cases m with
    | begin c' => exact hs.untouched t ht j request adapter late
    | act i env =>
      change t ∈ (x.act w i env).trace at ht
      unfold Exchange.act at ht
      split at ht
      · exact hs.untouched t ht j request adapter late
      · rename_i c phase found
        rcases List.mem_append.mp ht with new | old
        · obtain ⟨rfl, phases⟩ := boundaryAction_adapter x.journal new adapter
          intro same
          have own := hx.phases j c phase found
          rcases phases with rfl | rfl
          · exact absurd (hs.idle j c _ late found (own.1.key.symm.trans same)) (by simp [Phase.Idle])
          · exact absurd (hs.idle j c _ late found (own.1.key.symm.trans same)) (by simp [Phase.Idle])
        · exact hs.untouched t old j request adapter late
    | crash i =>
      change t ∈ (x.crash i).trace at ht
      unfold Exchange.crash at ht
      split at ht
      · exact hs.untouched t ht j request adapter late
      · exact hs.untouched t ht j request adapter late
    | other c' => exact hs.untouched t ht j request adapter late

theorem TraceLawful.split {later older : List Touch} {t : Touch}
    (h : TraceLawful (later ++ t :: older)) : t.Lawful older ∧ TraceLawful older := by
  induction later with
  | nil => exact h
  | cons t' later ih => exact ih h.2

structure Exchange.Sound (w : Wire) (x : Exchange) : Prop where
  lawful : x.Lawful w
  counterfactual : x.Counterfactual
  bounded : x.Bounded

theorem Exchange.Sound.step (separated : w.Separated) (hx : x.Sound w) (m : Move) :
    (x.step w m).Sound w :=
  ⟨hx.lawful.step m, hx.counterfactual.step separated hx.lawful m, hx.bounded.step m⟩

theorem Exchange.sound_of_reaches (separated : w.Separated)
    (h : Reaches (Exchange.step w) .start x) : x.Sound w := by
  refine Reaches.invariant (fun _ m hx => hx.step separated m) h ⟨Exchange.lawful_start w, ?_, ?_⟩
  · exact fun key row receipt found => by simp [Exchange.start, Journal.empty] at found
  · exact fun t ht => by simp [Exchange.start] at ht

theorem Exchange.Sound.settled {x' : Exchange} {key : Digest} {row : EffectRow}
    (separated : w.Separated) (hx : x.Sound w) (stored : x.journal.effects.get? key = some row)
    (closed : row.receipt = some receipt) (ends : EffectMode.live.Ends receipt)
    (h : Reaches (Exchange.step w) x x') : x'.Settled w key x.calls.length := by
  have start : x.Settled w key x.calls.length := by
    refine ⟨⟨row, receipt, stored, closed, ends⟩, ?_, ?_⟩
    · intro j c phase late found
      rw [List.getElem?_eq_none late] at found
      cases found
    · intro t ht j request adapter late
      have early := hx.bounded t ht j request adapter
      omega
  have both : x'.Sound w ∧ x'.Settled w key x.calls.length := by
    refine Reaches.invariant (I := fun x₁ => x₁.Sound w ∧ x₁.Settled w key x.calls.length)
      (fun x₁ m h₁ => ⟨h₁.1.step separated m, ?_⟩) h ⟨hx, start⟩
    exact h₁.2.step separated h₁.1.lawful h₁.1.counterfactual m
  exact both.2

/-- Exactly one request and at most one receipt for every key; an execution only after its
own reconciliation found the effect absent and its own reading, after the preparation,
no terminal receipt; no call of a settled key reaches the adapter if it began later; and
a simulated call never executes or reconciles. -/
theorem effect_exactly_once (w : Wire) (separated : w.Separated) (x : Exchange)
    (h : Reaches (Exchange.step w) .start x) :
    (∀ i j request request', .prepared i request ∈ x.trace → .prepared j request' ∈ x.trace →
      request.idempotencyKey = request'.idempotencyKey → request = request') ∧
    (∀ i request, .prepared i request ∈ x.trace →
      ∃ row, x.journal.effects.get? request.idempotencyKey = some row ∧ row.request = request) ∧
    (∀ later older key receipt, x.trace = later ++ .recorded key receipt :: older →
      ∀ receipt', .recorded key receipt' ∉ older) ∧
    (∀ key receipt, .recorded key receipt ∈ x.trace ↔
      ∃ row, x.journal.effects.get? key = some row ∧ row.receipt = some receipt) ∧
    (∀ later older i request, x.trace = later ++ .executed i request :: older →
      ∃ mid before, older = mid ++ .reconciled i request (.ok none) :: before ∧
        ∃ mid' before' seen, before = mid' ++ .reread i request seen :: before' ∧
          .prepared i request ∈ before' ∧
          (∀ receipt, seen = some receipt ↔ .recorded request.idempotencyKey receipt ∈ before') ∧
          ∀ receipt, seen = some receipt →
            receipt.status ≠ .committed ∧ receipt.status ≠ .rejected) ∧
    (∀ key row receipt, x.journal.effects.get? key = some row → row.receipt = some receipt →
      receipt.status = .committed ∨ receipt.status = .rejected →
      ∀ x', Reaches (Exchange.step w) x x' → ∀ t ∈ x'.trace, ∀ i request,
        t.adapter = some (i, request) → x.calls.length ≤ i → request.idempotencyKey ≠ key) ∧
    (∀ i c phase, x.calls[i]? = some (c, phase) → c.mode = .simulated →
      ∀ t ∈ x.trace, t.live ≠ some i) := by
  have sound := Exchange.sound_of_reaches separated h
  have lawful := sound.lawful
  refine ⟨?_, lawful.prepared, ?_, lawful.recorded, ?_, ?_, ?_⟩
  · intro i j request request' hi hj same
    obtain ⟨row, found, own⟩ := lawful.prepared i request hi
    obtain ⟨row', found', own'⟩ := lawful.prepared j request' hj
    rw [same] at found
    cases found.symm.trans found'
    exact own.symm.trans own'
  · intro later older key receipt split
    have trace := lawful.trace
    rw [split] at trace
    exact trace.split.1
  · intro later older i request split
    have trace := lawful.trace
    rw [split] at trace
    obtain ⟨absent, older'⟩ := trace.split
    obtain ⟨mid, before, rfl⟩ := List.append_of_mem absent
    obtain ⟨⟨seen, read, open'⟩, rest⟩ := older'.split
    obtain ⟨mid', before', rfl⟩ := List.append_of_mem read
    obtain ⟨⟨prepared, visible⟩, -⟩ := rest.split
    refine ⟨mid, _, rfl, mid', before', seen, rfl, prepared, visible, fun receipt hseen => ?_⟩
    have not_ends := open' receipt hseen
    simpa [EffectMode.Ends, EffectMode.terminalStatuses] using not_ends
  · intro key row receipt stored closed status x' later t ht i request adapter late
    have ends : EffectMode.live.Ends receipt := by
      simpa [EffectMode.Ends, EffectMode.terminalStatuses] using status
    exact (sound.settled separated stored closed ends later).untouched t ht i request adapter late
  · intro i c phase found simulated t ht live
    obtain ⟨c', phase', found', mode⟩ := lawful.live t ht i live
    cases found.symm.trans found'
    rw [simulated] at mode
    cases mode

end Lawful

section Example

theorem plainWire_separated : plainWire.Separated := by
  intro p q
  simp [plainWire, domainHashing]

def calmly (reconciled : Except BoundaryError (Option EffectReceipt))
    (executed : Except BoundaryError EffectReceipt) : Surroundings where
  beside := calm
  now := 5
  control := .ok ()
  assembled := true
  simulation := false
  reconciled := reconciled
  executed := executed
  simulated := .error .adapter
  counterfactual := fun receipt h => by cases h

def sendBy (run owner : String) : Boundary where
  lease := ⟨run, owner, 1, 10⟩
  manifestHash := "m"
  path := ⟨["g", "n"], []⟩
  kind := "send"
  subject := .obj []
  attestationId := none
  mode := .live

def sent (status : ReceiptStatus) : EffectReceipt :=
  ⟨effectRequestHash plainWire ((sendBy "r" "a").proposed plainWire), status, none, none⟩

def beginRun (run owner : String) : List Move :=
  [.other ⟨⟨calm, 0, _, .create run "m"⟩, by simp⟩,
    .other ⟨⟨calm, 0, _, .claim run owner 10 none none⟩, by simp⟩,
    .other ⟨⟨calm, 1, _, .turn ⟨run, owner, 1, 10⟩ (.started .null none)⟩, by simp⟩]

/-- Two runs of one manifest: both find the effect absent, the second executes and
records, and then the first executes. -/
def racing : List Move :=
  beginRun "r" "a" ++ beginRun "q" "b" ++
    [.begin (sendBy "r" "a"), .begin (sendBy "q" "b")] ++
    List.replicate 4 (.act 0 (calmly (.ok none) (.error .adapter))) ++
    List.replicate 6 (.act 1 (calmly (.ok none) (.ok (sent .committed)))) ++
    [.act 0 (calmly (.ok none) (.ok (sent .committed)))]

def raced : Exchange := racing.foldl (Exchange.step plainWire) .start

/-- The first run executes although the receipt of the second is on record. -/
theorem executed_after_commit :
    Reaches (Exchange.step plainWire) .start raced ∧
      raced.trace.head? = some (.executed 0 ((sendBy "r" "a").proposed plainWire)) ∧
      .recorded ((sendBy "r" "a").key plainWire) (sent .committed) ∈ raced.trace.tail :=
  ⟨⟨racing, rfl⟩, by decide, by decide⟩

/-- Both runs hold the request of the first. -/
theorem raced_exactly_once :
    .prepared 1 ((sendBy "r" "a").proposed plainWire) ∈ raced.trace ∧
      ∃ row, raced.journal.effects.get? ((sendBy "r" "a").proposed plainWire).idempotencyKey =
        some row ∧ row.request = (sendBy "r" "a").proposed plainWire := by
  have held : .prepared 1 ((sendBy "r" "a").proposed plainWire) ∈ raced.trace := by decide
  exact ⟨held, (effect_exactly_once plainWire plainWire_separated raced ⟨racing, rfl⟩).2.1 1 _ held⟩

end Example

end Constructicon
