import Constructicon.ExactlyOnce

/-!
# An unresolved effect

The boundary tries an `unknown` effect again, and the journal keeps the first receipt of
a key for ever. So whatever a later call learns, it cannot record it.
-/

namespace Constructicon

open Transaction

def Phase.Unsettled : Phase → Prop
  | .note receipt => ¬EffectMode.live.Ends receipt
  | .returned receipt => ¬EffectMode.live.Ends receipt
  | _ => True

/-- The key has this receipt, and no call from the `n`-th on ends better. -/
structure Exchange.Stuck (w : Wire) (key : Digest) (prior : EffectReceipt) (n : ℕ) (x : Exchange) :
    Prop where
  stored : ∃ row, x.journal.effects.get? key = some row ∧ row.receipt = some prior
  unsettled : ∀ j c phase, n ≤ j → x.calls[j]? = some (c, phase) → c.key w = key → phase.Unsettled

section Stuck

variable {w : Wire} {x : Exchange} {i : ℕ} {c : Boundary} {phase : Phase} {env : Surroundings}
  {request : EffectRequest} {receipt prior : EffectReceipt} {key : Digest} {row : EffectRow}

theorem not_ends_of_unknown (unknown : prior.status = .unknown)
    (same : prior.canonical = receipt.canonical) : ¬EffectMode.live.Ends receipt := by
  have status : prior.canonical.status = receipt.canonical.status := by rw [same]
  change prior.status = receipt.status at status
  simp [EffectMode.Ends, EffectMode.terminalStatuses, ← status, unknown]

theorem recordEffectOutcome_repeats {b : Beside} {now : Instant} {s s' : Journal} {lease : RunLease}
    {kind : String} (kept : s.Kept w)
    (h : recordEffectOutcome w b now s lease request receipt kind = .ok (.alreadyRecorded, s'))
    (stored : s.effects.get? request.idempotencyKey = some row) (closed : row.receipt = some prior) :
    prior.canonical = receipt.canonical := by
  by_contra differs
  have refused : ∃ e, recordEffectOutcome w b now s lease request receipt kind = .error e :=
    recordEffectOutcome_other kept stored closed differs
  rw [h] at refused
  obtain ⟨e, refused⟩ := refused
  cases refused

theorem filter_ends {mode : EffectMode} {seen : Option EffectReceipt}
    (h : seen.filter (fun r => mode.Ends r) = some receipt) : seen = some receipt := by
  cases seen with
  | none => cases h
  | some r =>
    by_cases ends : mode.Ends r
    · simpa [Option.filter, ends] using h
    · simp [Option.filter, ends] at h

theorem boundaryAction_unsettled (hx : x.Lawful w) (found : x.calls[i]? = some (c, phase))
    (stored : x.journal.effects.get? (c.key w) = some row) (closed : row.receipt = some prior)
    (unknown : prior.status = .unknown) (unsettled : phase.Unsettled) :
    (boundaryAction w env x.journal i c phase).phase.Unsettled := by
  have kept := hx.reachable.kept.2
  have visible : ∀ {seen}, receiptFor w env.beside x.journal (c.key w) = .ok seen →
      ∀ {r}, seen.filter (fun r => c.mode.Ends r) = some r → ¬EffectMode.live.Ends r := by
    intro seen ok r ends
    have same := receiptFor_ok kept ok
    rw [stored, Option.bind_some, closed, filter_ends ends] at same
    cases same
    exact not_ends_of_unknown unknown rfl
  cases phase with
  | look =>
    change (lookAction w env x.journal c).phase.Unsettled
    unfold lookAction
    split
    · trivial
    split
    · trivial
    rename_i seen ok
    split
    · rename_i r ends
      exact visible ok ends
    · split_ifs <;> trivial
  | prepare =>
    change (prepareAction w env x.journal i c).phase.Unsettled
    unfold prepareAction
    split
    · trivial
    · split <;> trivial
  | reread request =>
    change (rereadAction w env x.journal i c request).phase.Unsettled
    unfold rereadAction
    split
    · trivial
    rename_i seen ok
    split
    · rename_i r ends
      exact visible ok ends
    · dsimp only
      split_ifs <;> trivial
  | reconcile request =>
    change (reconcileAction env x.journal i request).phase.Unsettled
    unfold reconcileAction
    split <;> trivial
  | perform request =>
    change (performAction env x.journal i c request).phase.Unsettled
    unfold performAction answered
    repeat' split
    all_goals trivial
  | record request receipt kind =>
    obtain ⟨held, -⟩ := hx.phases i c _ found
    rw [← held.key] at stored
    change (recordAction w env x.journal c request receipt kind).phase.Unsettled
    unfold recordAction
    split
    · trivial
    · rename_i s' ok
      obtain ⟨row', -, found', open', -⟩ := recordEffectOutcome_recorded kept ok
      cases stored.symm.trans found'
      rw [open'] at closed
      cases closed
    · rename_i s' ok
      exact not_ends_of_unknown unknown (recordEffectOutcome_repeats kept ok stored closed)
  | note receipt =>
    change (noteAction w env x.journal c receipt).phase.Unsettled
    unfold noteAction
    dsimp only
    split
    · trivial
    · exact unsettled
  | returned receipt => exact unsettled
  | raised e => trivial

theorem Exchange.Stuck.step {n : ℕ} (hx : x.Lawful w) (unknown : prior.status = .unknown)
    (hs : x.Stuck w key prior n) (m : Move) : (x.step w m).Stuck w key prior n := by
  obtain ⟨row, stored, closed⟩ := hs.stored
  obtain ⟨row', stored', -, keep⟩ := hx.later m key row stored
  refine ⟨⟨row', stored', keep prior closed⟩, ?_⟩
  intro j c phase late found mine
  cases m with
  | begin c' =>
    rw [Exchange.begin_calls] at found
    rcases lt_or_ge j x.calls.length with old | new
    · rw [List.getElem?_append_left old] at found
      exact hs.unsettled j c phase late found mine
    · rw [List.getElem?_append_right new] at found
      have here : (c', Phase.look) = (c, phase) := by
        simpa using (List.getElem?_eq_some_iff.mp found).2
      cases here
      trivial
  | act i env =>
    change (x.act w i env).calls[j]? = _ at found
    unfold Exchange.act at found
    split at found
    · exact hs.unsettled j c phase late found mine
    · rename_i c' phase' found'
      by_cases same : i = j
      · subst same
        have bound := (List.getElem?_eq_some_iff.mp found').1
        have here : (c', (boundaryAction w env x.journal i c' phase').phase) = (c, phase) := by
          simpa [bound] using found
        cases here
        have before := hs.unsettled i c phase' late found' mine
        rw [← mine] at stored
        exact boundaryAction_unsettled hx found' stored closed unknown before
      · rw [List.getElem?_set_ne same] at found
        exact hs.unsettled j c phase late found mine
  | crash i =>
    change (x.crash i).calls[j]? = _ at found
    unfold Exchange.crash at found
    split at found
    · exact hs.unsettled j c phase late found mine
    · rename_i c' phase' found'
      by_cases same : i = j
      · subst same
        have bound := (List.getElem?_eq_some_iff.mp found').1
        have here : (c', Phase.raised .crashed) = (c, phase) := by simpa [bound] using found
        cases here
        trivial
      · have old : x.calls[j]? = some (c, phase) := by
          simpa [List.getElem?_set_ne same] using found
        exact hs.unsettled j c phase late old mine
  | other c' => exact hs.unsettled j c phase late found mine

theorem Exchange.Lawful.record_refused {kind : String} (hx : x.Lawful w)
    (found : x.calls[i]? = some (c, .record request receipt kind))
    (stored : x.journal.effects.get? request.idempotencyKey = some row)
    (closed : row.receipt = some prior) (differs : prior.canonical ≠ receipt.canonical)
    (env : Surroundings) :
    ∃ e, (x.act w i env).calls[i]? = some (c, .raised (.store e)) ∧
      (x.act w i env).journal = x.journal := by
  have refused : ∃ e, recordEffectOutcome w env.beside env.now x.journal c.lease request receipt
      kind = .error e := recordEffectOutcome_other hx.reachable.kept.2 stored closed differs
  obtain ⟨e, refused⟩ := refused
  have bound := (List.getElem?_eq_some_iff.mp found).1
  have acted : x.act w i env = ⟨x.journal, x.calls.set i (c, .raised (.store e)), x.trace⟩ := by
    rw [Exchange.act, found]
    simp only [boundaryAction, recordAction, refused]
    rfl
  refine ⟨e, ?_, by rw [acted]⟩
  rw [acted]
  simp [bound]

/-- An `unknown` receipt is the last of its key: in every continuation the row keeps it, a
call that learnt a committed or rejected outcome raises where it would record it, and no
call that begins later returns one. -/
theorem unresolved_stays (w : Wire) (x : Exchange) (h : Reaches (Exchange.step w) .start x)
    (key : Digest) (row : EffectRow) (prior : EffectReceipt)
    (stored : x.journal.effects.get? key = some row) (closed : row.receipt = some prior)
    (unknown : prior.status = .unknown) (x' : Exchange) (later : Reaches (Exchange.step w) x x') :
    (∃ row', x'.journal.effects.get? key = some row' ∧ row'.receipt = some prior) ∧
    (∀ i c request receipt kind env, x'.calls[i]? = some (c, .record request receipt kind) →
      request.idempotencyKey = key → receipt.status = .committed ∨ receipt.status = .rejected →
      ∃ e, (x'.act w i env).calls[i]? = some (c, .raised (.store e)) ∧
        (x'.act w i env).journal = x'.journal) ∧
    (∀ i c receipt, x.calls.length ≤ i → x'.calls[i]? = some (c, .returned receipt) →
      c.key w = key → receipt.status ≠ .committed ∧ receipt.status ≠ .rejected) := by
  have start : x.Stuck w key prior x.calls.length := by
    refine ⟨⟨row, stored, closed⟩, fun j c phase late found => ?_⟩
    rw [List.getElem?_eq_none late] at found
    cases found
  have both : x'.Lawful w ∧ x'.Stuck w key prior x.calls.length := by
    refine Reaches.invariant (I := fun x₁ => x₁.Lawful w ∧ x₁.Stuck w key prior x.calls.length)
      ?_ later ⟨Exchange.lawful_of_reaches h, start⟩
    exact fun x₁ m h₁ => ⟨h₁.1.step m, h₁.2.step h₁.1 unknown m⟩
  obtain ⟨lawful, stuck⟩ := both
  refine ⟨stuck.stored, ?_, ?_⟩
  · intro i c request receipt kind env found mine status
    obtain ⟨row', stored', closed'⟩ := stuck.stored
    rw [← mine] at stored'
    refine lawful.record_refused found stored' closed' (fun same => ?_) env
    have open' := not_ends_of_unknown unknown same
    simp only [EffectMode.Ends, EffectMode.terminalStatuses, List.mem_cons, List.not_mem_nil,
      or_false] at open'
    exact open' status
  · intro i c receipt late found mine
    have unsettled : ¬EffectMode.live.Ends receipt := stuck.unsettled i c _ late found mine
    simpa [EffectMode.Ends, EffectMode.terminalStatuses] using unsettled

end Stuck

section Example

/-- An execution of unknown outcome, recorded; a retry reconciles it as committed. -/
def unknownSent : List Move :=
  beginRun "r" "a" ++ [.begin (sendBy "r" "a")] ++
    List.replicate 6 (.act 0 (calmly (.ok none) (.ok (sent .unknown))))

def retrying : List Move :=
  .begin (sendBy "r" "a") ::
    List.replicate 4 (.act 1 (calmly (.ok (some (sent .committed))) (.error .adapter)))

def unresolved : Exchange := unknownSent.foldl (Exchange.step plainWire) .start

def retried : Exchange := retrying.foldl (Exchange.step plainWire) unresolved

theorem retry_fails :
    (unresolved.journal.effects.get? ((sendBy "r" "a").key plainWire)).bind EffectRow.receipt =
      some (sent .unknown) ∧
    .reconciled 1 ((sendBy "r" "a").proposed plainWire) (.ok (some (sent .committed))) ∈
      retried.trace ∧
    (retried.calls[1]?).map Prod.snd =
      some (.record ((sendBy "r" "a").proposed plainWire) (sent .committed) "EffectReconciled") ∧
    ((retried.act plainWire 1 (calmly (.ok none) (.error .adapter))).calls[1]?).map Prod.snd =
      some (.raised (.store .journalDamaged)) :=
  ⟨by decide, by decide, by decide, by decide⟩

def unresolvedRow : EffectRow :=
  ⟨"r", (sendBy "r" "a").proposed plainWire, 5, some (sent .unknown), some 5, some ("r", 2)⟩

theorem retried_stays :
    ∃ row, retried.journal.effects.get? ((sendBy "r" "a").key plainWire) = some row ∧
      row.receipt = some (sent .unknown) :=
  (unresolved_stays plainWire unresolved ⟨unknownSent, rfl⟩ _ unresolvedRow (sent .unknown)
    (by decide) rfl rfl retried ⟨retrying, rfl⟩).1

end Example

end Constructicon
