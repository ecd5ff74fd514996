import Constructicon.Commands

/-!
# The command law

Any workers, any clock readings: a command keeps the request of its first claim,
its epoch grows by one with each takeover, its plan and its terminal response are
written once and by the holder of the current epoch, and a terminal command
answers every repetition with the response it stored. One lemma says what each
transaction can do; the law is read off them and carried along runs.
-/

namespace Constructicon

open Transaction

/-- One transaction of some worker, or a run moving its fence. -/
inductive CommandCall where
  | claim (now : Instant) (q : ClaimRequest)
  | plan (now : Instant) (claim : CommandClaim) (plan : Json)
  | complete (owned : CommandRecord → Except StoreError (Option String)) (now : Instant)
      (claim : CommandClaim) (response : Json)
  | reject (owned : CommandRecord → Except StoreError (Option String)) (now : Instant)
      (claim : CommandClaim) (response : Json)
  | dispose (intact : Bool) (claim : CommandClaim)
  | advance (run : RunId) (epochs events : ℕ)

section

variable (h : Hashing Digest) (codec : Codec)

/-- The ledger after one call; a refused call leaves it as it was. -/
def Ledger.step (s : Ledger) : CommandCall → Ledger
  | .claim now q => settle s (claimCommand h codec now s q)
  | .plan now claim plan => settle s (storeCommandPlan h codec now s claim plan)
  | .complete owned now claim response =>
    settle s (completeCommand h codec owned now s claim response)
  | .reject owned now claim response =>
    settle s (rejectCommand h codec owned now s claim response)
  | .dispose intact claim => settle s (capabilityDisposalApply h codec intact s claim)
  | .advance run epochs events => s.advance run epochs events

/-- The ledgers a store reaches from an empty one. -/
def Ledger.Reachable (s : Ledger) : Prop := Reaches (Ledger.step h codec) .empty s

/-- Every row stands under its own derived identity, in a lawful shape that the
disposal receipts and the run fences bear out. -/
structure Ledger.Sound (s : Ledger) : Prop where
  nodup : s.commands.keys.Nodup
  lawful : ∀ id r, s.commands.get? id = some r → r.commandId = id ∧ r.Lawful h
  disposal : ∀ id r, s.commands.get? id = some r → requireDisposalCommand codec s r = .ok ()

end

/-! ## Reading a sound ledger -/

section Reading

variable {h : Hashing Digest} {codec : Codec} {s : Ledger} {id : String} {claim : CommandClaim}
  {r : CommandRecord}

theorem Ledger.Sound.selected (hs : s.Sound h codec) (id : String) :
    s.commands.entries.filter (fun e => e.1 = id ∨ e.2.derivedId h = id) =
      (s.commands.get? id).toList.map (fun r => (id, r)) := by
  rw [← Dict.filter_key hs.nodup id]
  apply List.filter_congr
  intro e he
  obtain ⟨hid, -, -, hderived, -⟩ := hs.lawful e.1 e.2 (Dict.get?_of_mem hs.nodup he)
  simp [← hderived, hid]

theorem Ledger.Sound.commandForId (hs : s.Sound h codec) (id : String) :
    commandForId h codec s id = .ok (s.commands.get? id) := by
  unfold Constructicon.commandForId
  rw [hs.selected]
  cases hr : s.commands.get? id with
  | none => rfl
  | some r =>
    obtain ⟨hid, hlawful⟩ := hs.lawful id r hr
    simp only [Option.toList_some, List.map_cons, List.map_nil, sealedCommandFromRow,
      require_of hlawful, hs.disposal id r hr, ok_bind]
    simp [require_of hid]

/-- The claim is the current, unfinished fence of the command. -/
structure CommandRecord.Held (r : CommandRecord) (claim : CommandClaim) : Prop where
  identity : r.actor.actorId = claim.actorId ∧ r.operation = claim.operation
  prepared : r.state = .prepared
  owner : r.ownerId = some claim.ownerId
  epoch : r.ownerEpoch = claim.epoch

theorem commandFenced_ok (hs : s.Sound h codec) (e : commandFenced h codec s claim = .ok r) :
    s.commands.get? claim.commandId = some r ∧ r.Held claim := by
  simp only [commandFenced, hs.commandForId, ok_bind, bind_eq_ok, expect_eq_ok,
    require_eq_ok] at e
  obtain ⟨r', hr', -, hid, -, ⟨hstate, howner, hepoch⟩, e⟩ := e
  cases e
  exact ⟨hr', hid, hstate, howner, hepoch⟩

end Reading

/-! ## What a call may do -/

section Change

variable (h : Hashing Digest) (codec : Codec)

/-- The receipt of a disposal and the fence it leaves. -/
def Ledger.disposed (s : Ledger) (id : String) (plan : CapabilityDisposalPlan) : Ledger :=
  { s with
    disposals := s.disposals.insert id (plan.receipt id)
    fences := s.fences.insert plan.runId
      ⟨plan.ownerEpoch, (plan.receipt id).auditEventSeq⟩ }

/-- Everything a call may do to a sound ledger. -/
inductive Ledger.Change (s : Ledger) : CommandCall → Ledger → Prop
  | none (call : CommandCall) : Change s call s
  | fresh (now : Instant) (q : ClaimRequest) (valid : q.Valid h)
      (absent : s.commands.get? (q.commandId h) = Option.none) :
      Change s (.claim now q) (s.write (q.commandId h) (q.freshRecord h now))
  | reclaim (now : Instant) (q : ClaimRequest) (r : CommandRecord)
      (found : s.commands.get? (q.commandId h) = some r) (same : ¬r.Conflicts q)
      (prepared : r.state = .prepared) (expired : ¬r.Leased now) :
      Change s (.claim now q) (s.write (q.commandId h) (r.reclaimed q now))
  | plan (now : Instant) (claim : CommandClaim) (plan : Json) (r : CommandRecord)
      (found : s.commands.get? claim.commandId = some r) (held : r.Held claim)
      (unplanned : r.plan = Option.none)
      (disposal : requireDisposalCommand codec s (r.planned plan now) = .ok ()) :
      Change s (.plan now claim plan) (s.write claim.commandId (r.planned plan now))
  | complete (owned : CommandRecord → Except StoreError (Option String)) (now : Instant)
      (claim : CommandClaim) (response : Json) (r : CommandRecord)
      (found : s.commands.get? claim.commandId = some r) (held : r.Held claim)
      (lawful : (r.terminated .committed response now).Lawful h)
      (disposal : requireDisposalCommand codec s (r.terminated .committed response now) = .ok ()) :
      Change s (.complete owned now claim response)
        (s.write claim.commandId (r.terminated .committed response now))
  | reject (owned : CommandRecord → Except StoreError (Option String)) (now : Instant)
      (claim : CommandClaim) (response : Json) (r : CommandRecord)
      (found : s.commands.get? claim.commandId = some r) (held : r.Held claim)
      (lawful : (r.terminated .rejected response now).Lawful h)
      (disposal : requireDisposalCommand codec s (r.terminated .rejected response now) = .ok ()) :
      Change s (.reject owned now claim response)
        (s.write claim.commandId (r.terminated .rejected response now))
  | dispose (intact : Bool) (claim : CommandClaim) (r : CommandRecord) (raw : Json)
      (plan : CapabilityDisposalPlan) (found : s.commands.get? claim.commandId = some r)
      (held : r.Held claim) (planned : r.plan = some raw) (decoded : codec.planOf r raw = some plan)
      (absent : s.disposals.get? r.commandId = Option.none)
      (fence : s.fences.get? plan.runId = some plan.fence) :
      Change s (.dispose intact claim) (s.disposed r.commandId plan)
  | advance (run : RunId) (epochs events : ℕ) :
      Change s (.advance run epochs events) (s.advance run epochs events)

end Change

section Inversion

variable {h : Hashing Digest} {codec : Codec} {now : Instant} {s s' : Ledger}
  {claim : CommandClaim} {q : ClaimRequest}

theorem claimCommand_change {res : CommandClaimResult} (hs : s.Sound h codec)
    (e : claimCommand h codec now s q = .ok (res, s')) :
    s.Change h codec (.claim now q) s' := by
  simp only [claimCommand, hs.commandForId, ok_bind, bind_eq_ok, require_eq_ok] at e
  obtain ⟨-, valid, e⟩ := e
  cases hr : s.commands.get? (q.commandId h) with
  | none =>
    rw [hr] at e
    cases e
    exact .fresh now q valid hr
  | some r =>
    simp only [hr] at e
    split_ifs at e with conflict terminal leased
    · cases e
      exact .none _
    · cases e
      exact .none _
    · cases e
      exact .none _
    · cases e
      exact .reclaim now q r hr conflict (not_not.mp terminal) leased

theorem storeCommandPlan_change {plan : Json} {u : Unit} (hs : s.Sound h codec)
    (e : storeCommandPlan h codec now s claim plan = .ok (u, s')) :
    s.Change h codec (.plan now claim plan) s' := by
  simp only [storeCommandPlan, bind_eq_ok, require_eq_ok] at e
  obtain ⟨-, -, r, hr, e⟩ := e
  obtain ⟨found, held⟩ := commandFenced_ok hs hr
  cases hp : r.plan with
  | some stored =>
    simp only [hp, bind_eq_ok] at e
    obtain ⟨-, -, e⟩ := e
    cases e
    exact .none _
  | none =>
    simp only [hp, bind_eq_ok] at e
    obtain ⟨-, -, ⟨⟩, disposal, e⟩ := e
    cases e
    exact .plan now claim plan r found held hp disposal

theorem terminalCommand_cases {owned : CommandRecord → Except StoreError (Option String)}
    {state : CommandState} {response : Json} {res : CommandRecord} (hs : s.Sound h codec)
    (e : terminalCommand h codec owned now s claim response state = .ok (res, s')) :
    s' = s ∨ ∃ r, s.commands.get? claim.commandId = some r ∧ r.Held claim ∧
      (r.terminated state response now).Lawful h ∧
      requireDisposalCommand codec s (r.terminated state response now) = .ok () ∧
      s' = s.write claim.commandId (r.terminated state response now) := by
  simp only [terminalCommand, bind_eq_ok, require_eq_ok, expect_eq_ok] at e
  obtain ⟨-, -, o, -, existing, -, -, -, e⟩ := e
  split_ifs at e with terminal
  · simp only [bind_eq_ok] at e
    obtain ⟨-, -, e⟩ := e
    cases e
    exact .inl rfl
  · simp only [bind_eq_ok, sealedCommandFromRow, require_eq_ok] at e
    obtain ⟨r, hr, -, -, updated, ⟨-, lawful, ⟨⟩, disposal, hu⟩, e⟩ := e
    cases hu
    cases e
    obtain ⟨found, held⟩ := commandFenced_ok hs hr
    exact .inr ⟨r, found, held, lawful, disposal, rfl⟩

theorem rejectCommand_cases {owned : CommandRecord → Except StoreError (Option String)}
    {response : Json} {res : CommandRecord} (hs : s.Sound h codec)
    (e : rejectCommand h codec owned now s claim response = .ok (res, s')) :
    s' = s ∨ ∃ r, s.commands.get? claim.commandId = some r ∧ owned r = .ok none ∧
      s' = s.write claim.commandId (r.terminated .rejected response now) := by
  rcases terminalCommand_cases hs e with same | ⟨r, found, -, -, -, written⟩
  · exact .inl same
  · simp only [rejectCommand, terminalCommand, bind_eq_ok, expect_eq_ok, hs.commandForId] at e
    obtain ⟨_, -, o, read, existing, same, _, unowned, -⟩ := e
    cases read
    rw [found] at same
    cases same
    simp only [refuseOwnedFact, if_pos, bind_eq_ok, require_eq_ok] at unowned
    obtain ⟨fact, answer, absent⟩ := unowned
    exact .inr ⟨r, found, absent ▸ answer, written⟩

theorem capabilityDisposalApply_change {intact : Bool} {res : DisposalOutcome}
    (hs : s.Sound h codec) (e : capabilityDisposalApply h codec intact s claim = .ok (res, s')) :
    s.Change h codec (.dispose intact claim) s' := by
  simp only [capabilityDisposalApply, bind_eq_ok, require_eq_ok, expect_eq_ok] at e
  obtain ⟨r, hr, -, -, raw, planned, plan, decoded, e⟩ := e
  obtain ⟨found, held⟩ := commandFenced_ok hs hr
  cases hd : s.disposals.get? r.commandId with
  | some previous =>
    rw [hd] at e
    cases e
    exact .none _
  | none =>
    simp only [hd, bind_eq_ok, expect_eq_ok] at e
    obtain ⟨fence, hfence, -, -, e⟩ := e
    split_ifs at e with moved
    · cases e
      exact .none _
    · simp only [bind_eq_ok] at e
      obtain ⟨-, -, e⟩ := e
      cases e
      rw [not_not.mp moved] at hfence
      exact .dispose intact claim r raw plan found held planned decoded hd hfence

theorem Ledger.step_change (hs : s.Sound h codec) (call : CommandCall) :
    s.Change h codec call (s.step h codec call) := by
  cases call with
  | claim now q => exact settle_cases (.none _) fun res s' e => claimCommand_change hs e
  | plan now claim plan => exact settle_cases (.none _) fun u s' e => storeCommandPlan_change hs e
  | complete owned now claim response =>
    refine settle_cases (.none _) fun res s' e => ?_
    rcases terminalCommand_cases hs e with rfl | ⟨r, found, held, lawful, disposal, rfl⟩
    · exact .none _
    · exact .complete owned now claim response r found held lawful disposal
  | reject owned now claim response =>
    refine settle_cases (.none _) fun res s' e => ?_
    rcases terminalCommand_cases hs e with rfl | ⟨r, found, held, lawful, disposal, rfl⟩
    · exact .none _
    · exact .reject owned now claim response r found held lawful disposal
  | dispose intact claim =>
    exact settle_cases (.none _) fun res s' e => capabilityDisposalApply_change hs e
  | advance run epochs events => exact .advance run epochs events

end Inversion

/-! ## Soundness -/

section Soundness

variable {h : Hashing Digest} {codec : Codec} {now : Instant} {s s' : Ledger}
  {call : CommandCall} {q : ClaimRequest} {r : CommandRecord}

theorem RunFence.Past.onward {f g g' : RunFence} (past : g.Past f)
    (epoch : g.ownerEpoch ≤ g'.ownerEpoch) (seq : g.nextEventSeq ≤ g'.nextEventSeq) :
    g'.Past f := by
  obtain ⟨hepoch, hseq, hne⟩ := past
  refine ⟨hepoch.trans epoch, hseq.trans seq, ?_⟩
  rintro rfl
  apply hne
  cases g
  cases g'
  simp only [RunFence.mk.injEq] at *
  omega

def Ledger.Onward (s s' : Ledger) : Prop :=
  ∀ run f, s.fences.get? run = some f → ∃ f', s'.fences.get? run = some f' ∧
    f.ownerEpoch ≤ f'.ownerEpoch ∧ f.nextEventSeq ≤ f'.nextEventSeq

theorem Ledger.Onward.of_insert {run : RunId} {f' : RunFence}
    (fences : s'.fences = s.fences.insert run f')
    (moved : ∀ f, s.fences.get? run = some f →
      f.ownerEpoch ≤ f'.ownerEpoch ∧ f.nextEventSeq ≤ f'.nextEventSeq) :
    s.Onward s' := by
  intro run' f hf
  rw [fences]
  by_cases heq : run = run'
  · subst heq
    exact ⟨f', by simp, moved f hf⟩
  · exact ⟨f, by simpa [Dict.get?_insert_ne _ _ heq] using hf, le_rfl, le_rfl⟩

theorem Ledger.onward_advance (s : Ledger) (run : RunId) (epochs events : ℕ) :
    s.Onward (s.advance run epochs events) := by
  apply Ledger.Onward.of_insert rfl
  intro f hf
  simp [Dict.getD, hf, RunFence.advance]

theorem requireDisposalCommand_onward
    (receipt : s'.disposals.get? r.commandId = s.disposals.get? r.commandId)
    (onward : s.Onward s') (passed : requireDisposalCommand codec s r = .ok ()) :
    requireDisposalCommand codec s' r = .ok () := by
  unfold requireDisposalCommand at passed ⊢
  by_cases other : r.operation ≠ disposeOperation
  · rw [if_pos other]
  rw [if_neg other] at passed ⊢
  cases hplan : r.plan with
  | none => rfl
  | some raw =>
    simp only [hplan] at passed ⊢
    by_cases refusal : planKind raw = some "control_reject"
    · rw [if_pos refusal] at passed ⊢
      rwa [receipt]
    rw [if_neg refusal] at passed ⊢
    simp only [bind_eq_ok, expect_eq_ok] at passed ⊢
    obtain ⟨plan, decoded, passed⟩ := passed
    refine ⟨plan, decoded, ?_⟩
    unfold disposalOutcome at passed ⊢
    cases hstate : r.state with
    | prepared => rfl
    | committed =>
      simp only [hstate] at passed ⊢
      rwa [receipt]
    | rejected =>
      simp only [hstate, bind_eq_ok, expect_eq_ok, require_eq_ok] at passed ⊢
      obtain ⟨fence, hfence, ⟨⟩, none, ⟨⟩, past, same⟩ := passed
      obtain ⟨fence', hfence', epoch, seq⟩ := onward plan.runId fence hfence
      exact ⟨fence', hfence', (), receipt.trans none, (), past.onward epoch seq, same⟩

theorem Ledger.sound_empty : Ledger.empty.Sound h codec :=
  ⟨List.nodup_nil, fun id r hr => by simp [Ledger.empty] at hr,
    fun id r hr => by simp [Ledger.empty] at hr⟩

theorem Ledger.Sound.write {id : String} (hs : s.Sound h codec) (lawful : r.Lawful h)
    (hid : r.commandId = id) (disposal : requireDisposalCommand codec s r = .ok ()) :
    (s.write id r).Sound h codec := by
  have row : ∀ id' r', (s.write id r).commands.get? id' = some r' →
      id = id' ∧ r = r' ∨ s.commands.get? id' = some r' := by
    intro id' r' hr'
    simp only [Ledger.write, Dict.get?_insert] at hr'
    split_ifs at hr' with heq
    · cases hr'
      exact .inl ⟨heq, rfl⟩
    · exact .inr hr'
  refine ⟨Dict.nodup_insert hs.nodup id r, fun id' r' hr' => ?_, fun id' r' hr' => ?_⟩
  · rcases row id' r' hr' with ⟨rfl, rfl⟩ | hr'
    · exact ⟨hid, lawful⟩
    · exact hs.lawful id' r' hr'
  · rcases row id' r' hr' with ⟨rfl, rfl⟩ | hr'
    · exact disposal
    · exact hs.disposal id' r' hr'

theorem ClaimRequest.freshRecord_lawful (valid : q.Valid h) : (q.freshRecord h now).Lawful h := by
  refine ⟨by simp [CommandRecord.LifecycleLawful, freshRecord], valid.1, rfl, ?_⟩
  have canonical : commandRequestHash h q.request.canonical = commandRequestHash h q.request := by
    simp [commandRequestHash, Hashing.digest, Json.canonical_canonical]
  exact valid.2.trans canonical.symm

theorem ClaimRequest.freshRecord_disposal :
    requireDisposalCommand codec s (q.freshRecord h now) = .ok () := by
  unfold requireDisposalCommand
  split_ifs
  · rfl
  · rfl

theorem CommandRecord.reclaimed_lawful (hr : r.Lawful h) (prepared : r.state = .prepared) :
    (r.reclaimed q now).Lawful h := by
  obtain ⟨lifecycle, key, hid, hash⟩ := hr
  simp only [LifecycleLawful, prepared, if_true] at lifecycle
  exact ⟨by simp [LifecycleLawful, reclaimed, prepared, lifecycle.1, lifecycle.2.1], key, hid, hash⟩

theorem CommandRecord.planned_lawful {plan : Json} (hr : r.Lawful h)
    (prepared : r.state = .prepared) : (r.planned plan now).Lawful h := by
  obtain ⟨lifecycle, key, hid, hash⟩ := hr
  simp only [LifecycleLawful, prepared, if_true] at lifecycle
  exact ⟨by simpa [LifecycleLawful, planned, prepared] using lifecycle, key, hid, hash⟩

theorem Ledger.onward_disposed {plan : CapabilityDisposalPlan} (id : String)
    (fence : s.fences.get? plan.runId = some plan.fence) : s.Onward (s.disposed id plan) := by
  apply Ledger.Onward.of_insert rfl
  intro f hf
  cases fence.symm.trans hf
  simp only [CapabilityDisposalPlan.fence, CapabilityDisposalPlan.receipt]
  omega

theorem Ledger.Sound.disposed {id : String} {raw : Json} {plan : CapabilityDisposalPlan}
    (hs : s.Sound h codec) (found : s.commands.get? id = some r)
    (prepared : r.state = .prepared) (planned : r.plan = some raw)
    (decoded : codec.planOf r raw = some plan)
    (fence : s.fences.get? plan.runId = some plan.fence) :
    (s.disposed r.commandId plan).Sound h codec := by
  refine ⟨hs.nodup, hs.lawful, fun id' r' hr' => ?_⟩
  by_cases heq : r.commandId = r'.commandId
  · have hid : id' = id := by rw [← (hs.lawful id' r' hr').1, ← heq, (hs.lawful id r found).1]
    subst hid
    cases found.symm.trans hr'
    have notRefusal : planKind raw ≠ some "control_reject" := by
      intro refusal
      have nothing := codec.refusal_no_disposal r.commandId r.actor r.requestHash r.request raw
        refusal
      rw [Codec.planOf, nothing] at decoded
      cases decoded
    unfold requireDisposalCommand
    rw [planned]
    simp [notRefusal, decoded, disposalOutcome, prepared]
  · refine requireDisposalCommand_onward ?_ (onward_disposed r.commandId fence)
      (hs.disposal id' r' hr')
    exact Dict.get?_insert_ne s.disposals _ heq

theorem Ledger.Change.sound (hs : s.Sound h codec) (hc : s.Change h codec call s') :
    s'.Sound h codec := by
  cases hc with
  | none => exact hs
  | fresh now q valid absent =>
    exact hs.write (q.freshRecord_lawful valid) rfl q.freshRecord_disposal
  | reclaim now q r found same prepared expired =>
    obtain ⟨hid, hr⟩ := hs.lawful _ r found
    exact hs.write (r.reclaimed_lawful hr prepared) hid (hs.disposal _ r found)
  | plan now claim plan r found held unplanned disposal =>
    obtain ⟨hid, hr⟩ := hs.lawful _ r found
    exact hs.write (r.planned_lawful hr held.prepared) hid disposal
  | complete owned now claim response r found held lawful disposal =>
    exact hs.write lawful (hs.lawful _ r found).1 disposal
  | reject owned now claim response r found held lawful disposal =>
    exact hs.write lawful (hs.lawful _ r found).1 disposal
  | dispose intact claim r raw plan found held planned decoded absent fence =>
    exact hs.disposed found held.prepared planned decoded fence
  | advance run epochs events =>
    refine ⟨hs.nodup, hs.lawful, fun id r hr => ?_⟩
    exact requireDisposalCommand_onward (s := s) rfl (s.onward_advance run epochs events)
      (hs.disposal id r hr)

theorem Ledger.step_sound (hs : s.Sound h codec) (call : CommandCall) :
    (s.step h codec call).Sound h codec :=
  (Ledger.step_change hs call).sound hs

theorem Ledger.Reachable.sound (hr : s.Reachable h codec) : s.Sound h codec :=
  Reaches.invariant (fun _ call hs => Ledger.step_sound hs call) hr Ledger.sound_empty

end Soundness

/-! ## What a call may change -/

section Law

variable (h : Hashing Digest) (codec : Codec)

structure CommandRecord.Continues (r r' : CommandRecord) : Prop where
  identity : r'.commandId = r.commandId ∧ r'.actor = r.actor ∧ r'.operation = r.operation ∧
    r'.idempotencyKey = r.idempotencyKey ∧ r'.createdAt = r.createdAt
  request : r'.requestHash = r.requestHash ∧ r'.request = r.request
  epoch : r.ownerEpoch ≤ r'.ownerEpoch
  plan : ∀ p, r.plan = some p → r'.plan = some p
  terminal : r.state ≠ .prepared → r' = r

def Ledger.Grows (s s' : Ledger) : Prop :=
  ∀ id r, s.commands.get? id = some r → ∃ r', s'.commands.get? id = some r' ∧ r.Continues r'

/-- Who may change which column of a command in one call. -/
structure CommandRecord.StepLaw (call : CommandCall) (id : String) (r r' : CommandRecord) :
    Prop where
  epoch : r'.ownerEpoch = r.ownerEpoch ∨ ∃ now q, call = .claim now q ∧ q.commandId h = id ∧
    ¬r.Conflicts q ∧ r.state = .prepared ∧ r'.ownerEpoch = r.ownerEpoch + 1
  owner : r'.ownerId = r.ownerId ∨ r'.ownerEpoch = r.ownerEpoch + 1 ∨ r'.state ≠ .prepared
  plan : r'.plan = r.plan ∨ ∃ now claim p, call = .plan now claim p ∧ claim.commandId = id ∧
    r.Held claim ∧ r.plan = none ∧ r'.plan = some p.canonical
  response : r'.state = r.state ∧ r'.response = r.response ∨
    ∃ owned now claim p, (call = .complete owned now claim p ∧ r'.state = .committed ∨
        call = .reject owned now claim p ∧ r'.state = .rejected) ∧
      claim.commandId = id ∧ r.Held claim ∧ r'.response = some p.canonical

/-- One call: a row appears by its first claim, and every other row changes by its law. -/
structure Ledger.StepLaw (s : Ledger) (call : CommandCall) (s' : Ledger) : Prop where
  appears : ∀ id r', s.commands.get? id = none → s'.commands.get? id = some r' →
    ∃ now q, call = .claim now q ∧ q.commandId h = id ∧ r' = q.freshRecord h now
  moves : ∀ id r r', s.commands.get? id = some r → s'.commands.get? id = some r' →
    r.StepLaw h call id r'

def ClaimRequest.Addresses (q : ClaimRequest) (r : CommandRecord) : Prop :=
  q.actor.actorId = r.actor.actorId ∧ q.operation = r.operation ∧
    q.idempotencyKey = r.idempotencyKey

/-- What a claim of a stored command is answered. -/
structure Ledger.AnswerLaw (s : Ledger) (r : CommandRecord) (now : Instant) (q : ClaimRequest) :
    Prop where
  conflict : q.requestHash ≠ r.requestHash → s.step h codec (.claim now q) = s ∧
    (q.Valid h → claimCommand h codec now s q = .ok ({ status := .conflict, record := some r }, s))
  replay : r.state ≠ .prepared → q.Valid h → q.request.canonical = r.request.canonical →
    claimCommand h codec now s q = .ok ({ status := .replayed, record := some r }, s)
  takeover : ∀ res s', claimCommand h codec now s q = .ok (res, s') → res.status = .claimed →
    ∃ claim r', res.claim = some claim ∧ claim.epoch = r.ownerEpoch + 1 ∧
      s'.commands.get? r.commandId = some r' ∧ r'.Held claim

end Law

section Growth

variable {h : Hashing Digest} {codec : Codec} {now : Instant} {s s' : Ledger}
  {call : CommandCall} {q : ClaimRequest} {r r' r'' : CommandRecord}

theorem CommandRecord.Continues.refl (r : CommandRecord) : r.Continues r :=
  ⟨⟨rfl, rfl, rfl, rfl, rfl⟩, ⟨rfl, rfl⟩, le_rfl, fun _ hp => hp, fun _ => rfl⟩

theorem CommandRecord.Continues.trans (h₁ : r.Continues r') (h₂ : r'.Continues r'') :
    r.Continues r'' := by
  obtain ⟨⟨hid, hactor, hop, hkey, hcreated⟩, ⟨hhash, hreq⟩, hepoch, hplan, hterm⟩ := h₁
  obtain ⟨⟨hid', hactor', hop', hkey', hcreated'⟩, ⟨hhash', hreq'⟩, hepoch', hplan', hterm'⟩ := h₂
  refine ⟨⟨hid'.trans hid, hactor'.trans hactor, hop'.trans hop, hkey'.trans hkey,
    hcreated'.trans hcreated⟩, ⟨hhash'.trans hhash, hreq'.trans hreq⟩, hepoch.trans hepoch',
    fun p hp => hplan' p (hplan p hp), fun ht => ?_⟩
  have heq := hterm ht
  subst heq
  exact hterm' ht

theorem Ledger.Grows.refl (s : Ledger) : s.Grows s := fun _ r hr => ⟨r, hr, .refl r⟩

theorem Ledger.Grows.trans {s'' : Ledger} (h₁ : s.Grows s') (h₂ : s'.Grows s'') :
    s.Grows s'' := by
  intro id r hr
  obtain ⟨r', hr', hc⟩ := h₁ id r hr
  obtain ⟨r'', hr'', hc'⟩ := h₂ id r' hr'
  exact ⟨r'', hr'', hc.trans hc'⟩

theorem Ledger.Grows.write {id : String}
    (found : ∀ r₀, s.commands.get? id = some r₀ → r₀.Continues r) : s.Grows (s.write id r) := by
  intro id' r₀ hr₀
  by_cases heq : id = id'
  · subst heq
    exact ⟨r, by simp [Ledger.write], found r₀ hr₀⟩
  · exact ⟨r₀, by rwa [Ledger.write, Dict.get?_insert_ne s.commands r heq], .refl r₀⟩

theorem CommandRecord.reclaimed_continues (prepared : r.state = .prepared) :
    r.Continues (r.reclaimed q now) :=
  ⟨⟨rfl, rfl, rfl, rfl, rfl⟩, ⟨rfl, rfl⟩, Nat.le_succ _, fun _ hp => hp,
    fun ht => absurd prepared ht⟩

theorem CommandRecord.planned_continues {plan : Json} (prepared : r.state = .prepared)
    (unplanned : r.plan = none) : r.Continues (r.planned plan now) :=
  ⟨⟨rfl, rfl, rfl, rfl, rfl⟩, ⟨rfl, rfl⟩, le_rfl, fun p hp => by simp [unplanned] at hp,
    fun ht => absurd prepared ht⟩

theorem CommandRecord.terminated_continues {state : CommandState} {response : Json}
    (prepared : r.state = .prepared) : r.Continues (r.terminated state response now) :=
  ⟨⟨rfl, rfl, rfl, rfl, rfl⟩, ⟨rfl, rfl⟩, le_rfl, fun _ hp => hp, fun ht => absurd prepared ht⟩

theorem Ledger.Change.grows (hc : s.Change h codec call s') : s.Grows s' := by
  cases hc with
  | none => exact .refl s
  | fresh now q valid absent => exact .write fun r₀ hr₀ => by simp [absent] at hr₀
  | reclaim now q r found same prepared expired =>
    refine .write fun r₀ hr₀ => ?_
    cases found.symm.trans hr₀
    exact r.reclaimed_continues prepared
  | plan now claim plan r found held unplanned =>
    refine .write fun r₀ hr₀ => ?_
    cases found.symm.trans hr₀
    exact r.planned_continues held.prepared unplanned
  | complete owned now claim response r found held lawful =>
    refine .write fun r₀ hr₀ => ?_
    cases found.symm.trans hr₀
    exact r.terminated_continues held.prepared
  | reject owned now claim response r found held lawful =>
    refine .write fun r₀ hr₀ => ?_
    cases found.symm.trans hr₀
    exact r.terminated_continues held.prepared
  | dispose => exact .refl s
  | advance => exact .refl s

theorem Ledger.Sound.grows (hs : s.Sound h codec) (later : Reaches (Ledger.step h codec) s s') :
    s.Grows s' :=
  Reaches.relates Ledger.Grows.refl Ledger.Grows.trans (fun _ call hs => step_sound hs call)
    (fun _ call hs => (step_change hs call).grows) later hs

theorem CommandRecord.StepLaw.refl (call : CommandCall) (id : String) (r : CommandRecord) :
    r.StepLaw h call id r :=
  ⟨.inl rfl, .inl rfl, .inl rfl, .inl ⟨rfl, rfl⟩⟩

theorem Ledger.StepLaw.of_commands (same : s'.commands = s.commands) : s.StepLaw h call s' := by
  refine ⟨fun id r' absent hr' => ?_, fun id r r' hr hr' => ?_⟩
  · rw [same, absent] at hr'
    cases hr'
  · rw [same] at hr'
    cases hr.symm.trans hr'
    exact .refl call id r

theorem Ledger.StepLaw.write {id : String} {r₀ : CommandRecord}
    (found : s.commands.get? id = some r₀) (row : r₀.StepLaw h call id r) :
    s.StepLaw h call (s.write id r) := by
  refine ⟨fun id' r' absent hr' => ?_, fun id' r₁ r' hr₁ hr' => ?_⟩
  · rw [Ledger.write, Dict.get?_insert] at hr'
    split_ifs at hr' with heq
    · subst heq
      simp [found] at absent
    · simp [absent] at hr'
  · rw [Ledger.write, Dict.get?_insert] at hr'
    split_ifs at hr' with heq
    · subst heq
      cases hr'
      cases found.symm.trans hr₁
      exact row
    · cases hr₁.symm.trans hr'
      exact .refl call id' r₁

theorem Ledger.StepLaw.fresh (absent : s.commands.get? (q.commandId h) = none) :
    s.StepLaw h (.claim now q) (s.write (q.commandId h) (q.freshRecord h now)) := by
  refine ⟨fun id r' hnone hr' => ?_, fun id r r' hr hr' => ?_⟩
  · rw [Ledger.write, Dict.get?_insert] at hr'
    split_ifs at hr' with heq
    · cases hr'
      exact ⟨now, q, rfl, heq, rfl⟩
    · simp [hnone] at hr'
  · have hne : q.commandId h ≠ id := by
      rintro rfl
      simp [absent] at hr
    rw [Ledger.write, Dict.get?_insert_ne s.commands _ hne] at hr'
    cases hr.symm.trans hr'
    exact .refl _ id r

theorem Ledger.Change.stepLaw (hc : s.Change h codec call s') : s.StepLaw h call s' := by
  cases hc with
  | none => exact .of_commands rfl
  | fresh now q valid absent => exact .fresh absent
  | reclaim now q r found same prepared expired =>
    exact .write found ⟨.inr ⟨now, q, rfl, rfl, same, prepared, rfl⟩, .inr (.inl rfl), .inl rfl,
      .inl ⟨rfl, rfl⟩⟩
  | plan now claim plan r found held unplanned =>
    exact .write found ⟨.inl rfl, .inl rfl, .inr ⟨now, claim, plan, rfl, rfl, held, unplanned, rfl⟩,
      .inl ⟨rfl, rfl⟩⟩
  | complete owned now claim response r found held lawful =>
    refine .write found ⟨.inl rfl, .inr (.inr ?_), .inl rfl, ?_⟩
    · simp [CommandRecord.terminated]
    · exact .inr ⟨owned, now, claim, response, .inl ⟨rfl, rfl⟩, rfl, held, rfl⟩
  | reject owned now claim response r found held lawful =>
    refine .write found ⟨.inl rfl, .inr (.inr ?_), .inl rfl, ?_⟩
    · simp [CommandRecord.terminated]
    · exact .inr ⟨owned, now, claim, response, .inr ⟨rfl, rfl⟩, rfl, held, rfl⟩
  | dispose => exact .of_commands rfl
  | advance => exact .of_commands rfl

end Growth

/-! ## What a claim answers -/

section Answers

variable {h : Hashing Digest} {codec : Codec} {now : Instant} {s s' : Ledger}
  {q : ClaimRequest} {r r' : CommandRecord}

theorem Ledger.Sound.unique (hs : s.Sound h codec) {id id' : String}
    (hr : s.commands.get? id = some r) (hr' : s.commands.get? id' = some r')
    (actor : r.actor.actorId = r'.actor.actorId) (operation : r.operation = r'.operation)
    (key : r.idempotencyKey = r'.idempotencyKey) : id = id' ∧ r = r' := by
  obtain ⟨hid, -, -, hderived, -⟩ := hs.lawful id r hr
  obtain ⟨hid', -, -, hderived', -⟩ := hs.lawful id' r' hr'
  have same : id = id' :=
    calc id = r.derivedId h := hid.symm.trans hderived
      _ = r'.derivedId h := by
        rw [CommandRecord.derivedId, CommandRecord.derivedId, actor, operation, key]
      _ = id' := hderived'.symm.trans hid'
  subst same
  exact ⟨rfl, Option.some.inj (hr.symm.trans hr')⟩

theorem Ledger.Sound.addressed (hs : s.Sound h codec) {id : String}
    (hr : s.commands.get? id = some r) (names : q.Addresses r) : q.commandId h = id := by
  obtain ⟨hid, -, -, hderived, -⟩ := hs.lawful id r hr
  obtain ⟨actor, operation, key⟩ := names
  rw [← hid, hderived, ClaimRequest.commandId, actor, operation, key]
  rfl

theorem claimCommand_of_found (hs : s.Sound h codec) (valid : q.Valid h)
    (found : s.commands.get? (q.commandId h) = some r) :
    claimCommand h codec now s q =
      if r.Conflicts q then .ok ({ status := .conflict, record := some r }, s)
      else if r.state ≠ .prepared then .ok ({ status := .replayed, record := some r }, s)
      else if r.Leased now then .ok ({ status := .inProgress, record := some r }, s)
      else .ok ({ status := .claimed, claim := some (q.claimAt h now (r.ownerEpoch + 1)),
                  record := some r },
        s.write (q.commandId h) (r.reclaimed q now)) := by
  unfold claimCommand
  rw [require_of valid, ok_bind, hs.commandForId, found]
  rfl

theorem claimCommand_of_absent (hs : s.Sound h codec) (valid : q.Valid h)
    (absent : s.commands.get? (q.commandId h) = none) :
    claimCommand h codec now s q =
      .ok ({ status := .claimed, claim := some (q.claimAt h now 1) },
        s.write (q.commandId h) (q.freshRecord h now)) := by
  unfold claimCommand
  rw [require_of valid, ok_bind, hs.commandForId, absent]
  rfl

theorem claimCommand_of_invalid (invalid : ¬q.Valid h) :
    claimCommand h codec now s q = .error .valueError := by
  unfold claimCommand
  rw [require_of_not invalid, error_bind]

theorem claimCommand_of_conflict (hs : s.Sound h codec) (valid : q.Valid h)
    (found : s.commands.get? (q.commandId h) = some r) (differs : q.requestHash ≠ r.requestHash) :
    claimCommand h codec now s q = .ok ({ status := .conflict, record := some r }, s) := by
  have conflict : r.Conflicts q := .inr (.inr (.inr (.inl differs.symm)))
  rw [claimCommand_of_found hs valid found, if_pos conflict]

theorem CommandRecord.Lawful.not_conflicts (lawful : r.Lawful h) (valid : q.Valid h)
    (names : q.Addresses r) (same : q.request.canonical = r.request.canonical) :
    ¬r.Conflicts q := by
  obtain ⟨actor, operation, key⟩ := names
  have hash : r.requestHash = q.requestHash := by
    rw [lawful.2.2.2, valid.2, commandRequestHash, commandRequestHash, Hashing.digest,
      Hashing.digest, same]
  simp [Conflicts, actor, operation, key, hash, same]

theorem Ledger.Sound.answerLaw (hs : s.Sound h codec) {id : String}
    (hr : s.commands.get? id = some r) (now : Instant) (names : q.Addresses r) :
    s.AnswerLaw h codec r now q := by
  have hid := hs.addressed hr names
  obtain ⟨hself, lawful⟩ := hs.lawful id r hr
  subst hid
  refine ⟨fun differs => ⟨?_, fun valid => claimCommand_of_conflict hs valid hr differs⟩, ?_, ?_⟩
  · by_cases valid : q.Valid h
    · rw [Ledger.step, claimCommand_of_conflict hs valid hr differs, settle_ok]
    · rw [Ledger.step, claimCommand_of_invalid valid, settle_error]
  · intro terminal valid same
    rw [claimCommand_of_found hs valid hr, if_neg (lawful.not_conflicts valid names same),
      if_pos terminal]
  · intro res s' e claimed
    by_cases valid : q.Valid h
    · rw [claimCommand_of_found hs valid hr] at e
      split_ifs at e with conflict terminal leased
      · cases e
        cases claimed
      · cases e
        cases claimed
      · cases e
        cases claimed
      · cases e
        refine ⟨_, r.reclaimed q now, rfl, rfl, by simp [hself, Ledger.write], ?_⟩
        exact ⟨⟨names.1.symm, names.2.1.symm⟩, not_not.mp terminal, rfl, rfl⟩
    · rw [claimCommand_of_invalid valid] at e
      cases e

/-- The command law: one command for each actor, operation and key; every call changes
a command only as its law says; nothing that is fixed changes in any later run; and the
claims of a stored command are answered from what it stores. -/
theorem command_law (hr : s.Reachable h codec) :
    (∀ id id' r r', s.commands.get? id = some r → s.commands.get? id' = some r' →
      r.actor.actorId = r'.actor.actorId → r.operation = r'.operation →
      r.idempotencyKey = r'.idempotencyKey → id = id' ∧ r = r') ∧
    (∀ call, s.StepLaw h call (s.step h codec call)) ∧
    (∀ s', Reaches (Ledger.step h codec) s s' → s.Grows s') ∧
    (∀ id r now q, s.commands.get? id = some r → q.Addresses r → s.AnswerLaw h codec r now q) := by
  have hs := hr.sound
  refine ⟨fun id id' r r' => hs.unique, fun call => (Ledger.step_change hs call).stepLaw,
    fun s' later => hs.grows later, fun id r now q found names => hs.answerLaw found now names⟩

end Answers

section Example

def domainHashing : Hashing Digest := ⟨fun domain _ _ => "sha256:" ++ domain, id⟩

def plainCodec : Codec where
  disposalPlan := fun _ _ _ _ _ => none
  disposalResponse := fun _ _ _ => false
  newPlan := fun _ => .ok ()
  refusal_no_disposal := fun _ _ _ _ _ _ => rfl

def cancelRequest : ClaimRequest where
  actor := { actorId := "ada", authMethod := .static, scopes := ∅ }
  operation := "runs_cancel"
  idempotencyKey := "k"
  requestHash := "sha256:control-request"
  request := .null
  ownerId := "w"
  ttl := 30

/-- After one claim the key is taken: another request under it is a conflict. -/
theorem command_law_cancel :
    (Ledger.empty.step domainHashing plainCodec (.claim 0 cancelRequest)).Reachable
      domainHashing plainCodec ∧
    (Ledger.empty.step domainHashing plainCodec (.claim 0 cancelRequest)).AnswerLaw
      domainHashing plainCodec (cancelRequest.freshRecord domainHashing 0) 40 cancelRequest := by
  have reachable : (Ledger.empty.step domainHashing plainCodec (.claim 0 cancelRequest)).Reachable
      domainHashing plainCodec := Reaches.single _ _
  have found : (Ledger.empty.step domainHashing plainCodec (.claim 0 cancelRequest)).commands.get?
      (cancelRequest.commandId domainHashing) = some (cancelRequest.freshRecord domainHashing 0) := by
    decide
  exact ⟨reachable, (command_law reachable).2.2.2 _ _ 40 cancelRequest found ⟨rfl, rfl, rfl⟩⟩

end Example

end Constructicon
