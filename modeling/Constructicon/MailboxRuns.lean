import Constructicon.MailboxWrites

/-!
# Every transaction of the store

Approvals, commands and the facts they own: whatever transaction a worker commits, the
mailbox stays in order and only grows.
-/

namespace Constructicon

open Transaction

namespace Mailbox

variable {w : MailWire} {m m' : Mailbox} {row q : MessageRow} {command : CommandRecord}
  {a : AckRow} {p : ApprovalRow} {approval : ApprovalRecord}

/-! ## Approvals -/

theorem writeApproval_ok (hl : m.ledger.Sound w.hashing w.ledger)
    (h : m.writeApproval w command approval = .ok m') :
    (m' = m ∧ ∃ p ∈ m.approvals, p.approval = approval ∧ p.commandId = command.commandId) ∨
      (m' = { m with approvals := m.approvals ++ [⟨approval, command.commandId⟩] } ∧
        (∀ x ∈ m.approvals, x.approval.approvalId ≠ approval.approvalId) ∧
        ∀ x ∈ m.approvals, x.commandId ≠ command.commandId) := by
  unfold writeApproval at h
  simp only [bind_eq_ok] at h
  obtain ⟨o, selected, h⟩ := h
  cases o with
  | some x =>
    have hx : x ∈ m.approvals := by
      apply List.mem_of_mem_filter
      rw [single_some selected]
      exact List.mem_singleton_self _
    simp only [bind_eq_ok, require_eq_ok, storedApprovalFact, commandInTransaction_iff hl] at h
    obtain ⟨fact, ⟨owner, found, plan, -, read⟩, _, ⟨-, same⟩, _, equal, h⟩ := h
    cases read
    cases h
    exact .inl ⟨rfl, x, hx, equal, (hl.lawful _ _ found).1.symm.trans same⟩
  | none =>
    simp only [bind_eq_ok] at h
    obtain ⟨_, -, h⟩ := h
    cases h
    have absent := single_none selected
    rw [List.filter_eq_nil_iff] at absent
    refine .inr ⟨rfl, ?_, ?_⟩
    · exact fun x hx same => absent x hx (decide_eq_true (.inl same))
    · exact fun x hx same => absent x hx (decide_eq_true (.inr same))

theorem Sound.storeApproval (hs : m.Sound w) {claim : CommandClaim} {r : ApprovalRecord}
    (h : m.storeApproval w claim approval = .ok (r, m')) : m'.Sound w ∧ m.Grows m' := by
  unfold Mailbox.storeApproval validatedStandaloneCommandApproval at h
  simp only [bind_eq_ok, mapError_eq_ok] at h
  obtain ⟨command, fenced, m₁, ⟨_, ⟨plan, valid, standalone⟩, written⟩, h⟩ := h
  cases h
  obtain ⟨found, -⟩ := commandFenced_ok hs.ledger fenced
  have id : command.commandId = claim.commandId := hs.commandId found
  rw [← id] at found
  cases plan with
  | channel p => cases standalone
  | standalone approved =>
    rcases writeApproval_ok hs.ledger written with ⟨rfl, -⟩ | ⟨rfl, fresh, unowned⟩
    · exact ⟨hs, .refl hs⟩
    · have new := hs.addApproval (p := ⟨approval, command.commandId⟩) found valid fresh unowned
      have grown := hs.grows_add [] [] [⟨approval, command.commandId⟩]
      simp only [add, List.append_nil] at new grown
      exact ⟨new, grown⟩

theorem approvalRequest_coherent {request : ChannelMessage} {subject : Json}
    (h : validatedApprovalRequest w.human request = .ok subject) :
    ClaimsApprovalExchange request ∧ ∃ contract, request.replyContract = some contract ∧
      ¬exchangeRefused request.contract contract request.interaction := by
  unfold validatedApprovalRequest at h
  simp only [bind_eq_ok, require_eq_ok] at h
  obtain ⟨_, ⟨-, interaction, contract, replyContract, -⟩, -⟩ := h
  refine ⟨.inl interaction, approvalReplyContract, replyContract, ?_⟩
  rw [interaction, contract]
  decide

theorem Sound.approvalExchange (hs : m.Sound w)
    (found : m.ledger.commands.get? command.commandId = some command) {channelId : String}
    {requestId : Digest} {payload : Json} {now : Option Instant} {reply : ChannelMessage}
    (h : m.approvalExchange w command approval channelId requestId payload now = .ok (reply, m')) :
    m'.Sound w ∧ m.Grows m' := by
  unfold Mailbox.approvalExchange at h
  simp only [bind_eq_ok, require_eq_ok] at h
  obtain ⟨⟨request, port⟩, read, plan, planned, _, -, stored, replied, _, race, ⟨reply', m₁⟩, written,
    _, valid, m₂, approved, h⟩ := h
  cases h
  rcases hs.replyInTransaction written with ⟨rfl, again⟩ |
    ⟨q, hq, port', t, acks, absent, read', fresh, made, implies, rfl⟩
  · rw [again] at replied
    cases replied
    rcases writeApproval_ok hs.ledger approved with ⟨rfl, -⟩ | ⟨-, unapproved, -⟩
    · exact ⟨hs, .refl hs⟩
    · obtain ⟨x, hx, same⟩ := race.mpr rfl
      exact absurd same (unapproved x hx)
  · rw [read] at read'
    cases read'
    rw [absent] at replied
    cases replied
    have carried := validatedChannelApprovalExchange_carried valid
    obtain ⟨-, plan', bound, exchange⟩ := validatedChannelApprovalExchange_ok valid
    unfold validatedApprovalReply at carried
    simp only [bind_eq_ok] at carried
    obtain ⟨_, -, subject, isRequest, -⟩ := carried
    obtain ⟨claims, coherent⟩ := approvalRequest_coherent isRequest
    have actor : approval.actor.actorId = command.actor.actorId := by rw [exchange.bound.actor]
    rw [actor] at made implies
    rcases writeApproval_ok
        (m := m.add [⟨reply', none, some command.commandId⟩] acks []) hs.ledger approved with
      ⟨-, x, hx, same, -⟩ | ⟨rfl, unapproved, unowned⟩
    · have old : x ∈ m.approvals := by simpa [add] using hx
      exact absurd (race.mp ⟨x, old, by rw [same]⟩) (by simp)
    · have new := hs.addReply [⟨approval, command.commandId⟩] hq found fresh made implies coherent
        (.approval claims ⟨approval, command.commandId⟩ (List.mem_append_right _ (List.mem_singleton_self _))
          rfl valid) (Dict.nodup_map_append hs.approvalIds (by simpa [add] using unapproved))
        (Dict.nodup_map_append hs.approvalOwners (by simpa [add] using unowned)) (by
          intro p hp
          rw [List.mem_singleton.mp hp]
          exact ⟨rfl, _, bound⟩)
      have grown := hs.grows_add [⟨reply', none, some command.commandId⟩] acks
        [⟨approval, command.commandId⟩]
      simp only [add, List.append_nil] at new grown ⊢
      exact ⟨new, grown⟩

theorem Sound.storeApprovalExchange (hs : m.Sound w) {claim : CommandClaim} {channelId : String}
    {requestId : Digest} {payload : Json} {now : Option Instant} {reply : ChannelMessage}
    (h : m.storeApprovalExchange w claim approval channelId requestId payload now =
      .ok (reply, m')) : m'.Sound w ∧ m.Grows m' := by
  unfold Mailbox.storeApprovalExchange at h
  simp only [bind_eq_ok, mapError_eq_ok] at h
  obtain ⟨command, fenced, h⟩ := h
  obtain ⟨found, -⟩ := commandFenced_ok hs.ledger fenced
  have id : command.commandId = claim.commandId := hs.commandId found
  rw [← id] at found
  exact hs.approvalExchange found h

/-! ## Commands -/

theorem Sound.owner_found (hs : m.Sound w) {id : String} (owns : m.Owns id) :
    ∃ r, m.ledger.commands.get? id = some r := by
  rcases owns with ⟨x, hx, owner⟩ | ⟨a, ha, rfl⟩ | ⟨p, hp, rfl⟩
  · cases kind : x.message.kind with
    | request =>
      have lawful := hs.lawful hx
      unfold MessageRow.Lawful at lawful
      rw [kind] at lawful
      rw [lawful.2] at owner
      cases owner
    | reply =>
      obtain ⟨q, command, exchanged⟩ := hs.replies x hx kind
      have same := exchanged.writer
      rw [owner] at same
      cases same
      exact ⟨command, exchanged.found⟩
  · obtain ⟨q, command, observed⟩ := hs.acks a ha
    exact ⟨command, observed.found⟩
  · obtain ⟨command, plan, minted⟩ := hs.approvals p hp
    exact ⟨command, minted.found⟩

theorem linked_false {α β : Type} {named : Bool} {o : Option α} {read : α → Except ChannelError β}
    (h : linked named o read = .ok false) : o = none := by
  cases o with
  | none => rfl
  | some x =>
    unfold linked at h
    cases named with
    | true => cases h
    | false =>
      simp only [Bool.false_eq_true, if_false, bind_eq_ok] at h
      obtain ⟨_, -, h⟩ := h
      cases h

theorem not_owns {resumed : Bool} (h : m.domainFactOwnedBy w resumed command = .ok none) :
    ¬m.Owns command.commandId := by
  unfold domainFactOwnedBy at h
  by_cases disposal : command.operation = disposeOperation ∧
      (m.ledger.disposals.get? command.commandId).isSome
  · rw [if_pos disposal] at h
    cases h
  rw [if_neg disposal] at h
  simp only [bind_eq_ok] at h
  obtain ⟨plan, -, named, -, facts, -, approval, happroval, reply, hreply, ack, hack, h⟩ := h
  cases approval <;> cases reply <;> cases ack <;> try cases h
  have noApproval := List.find?_eq_none.mp (linked_false happroval)
  have noReply := List.find?_eq_none.mp (linked_false hreply)
  have noAck := List.find?_eq_none.mp (linked_false hack)
  rintro (⟨x, hx, owner⟩ | ⟨a, ha, owner⟩ | ⟨p, hp, owner⟩)
  · exact noReply x hx (decide_eq_true owner)
  · exact noAck a ha (decide_eq_true owner)
  · exact noApproval p hp (decide_eq_true owner)

theorem Sound.live_step (hs : m.Sound w) (call : CommandCall)
    (refused : ∀ owned now claim response, call = .reject owned now claim response →
      ∀ r, owned r = .ok none → ¬m.Owns r.commandId)
    {id : String} {r' : CommandRecord} (owns : m.Owns id)
    (found' : (m.ledger.step w.hashing w.ledger call).commands.get? id = some r') :
    r'.state ≠ .rejected := by
  obtain ⟨r, found⟩ := hs.owner_found owns
  have live := hs.live owns found
  have law := (Ledger.step_change hs.ledger call).stepLaw.moves id r r' found found'
  rcases law.response with ⟨state, -⟩ | ⟨owned, now, claim, response, ⟨-, state⟩ | ⟨rfl, state⟩, -, -, -⟩
  · rwa [state]
  · rw [state]
    decide
  · change (settle m.ledger (rejectCommand w.hashing w.ledger owned now m.ledger claim response)
      ).commands.get? id = some r' at found'
    cases e : rejectCommand w.hashing w.ledger owned now m.ledger claim response with
    | error err =>
      rw [e, settle_error] at found'
      exact hs.live owns found'
    | ok res =>
      obtain ⟨res, s'⟩ := res
      rw [e, settle_ok] at found'
      rcases rejectCommand_cases hs.ledger e with rfl | ⟨r₁, found₁, unowned, rfl⟩
      · exact hs.live owns found'
      · have other : claim.commandId ≠ id := by
          rintro rfl
          apply refused owned now claim response rfl r₁ unowned
          rwa [hs.commandId found₁]
        rw [Ledger.write, Dict.get?_insert_ne _ _ other] at found'
        exact hs.live owns found'

theorem Sound.beside (hs : m.Sound w) (g : m.Grows m')
    (ledger : m'.ledger.Sound w.hashing w.ledger) (messages : m'.messages = m.messages)
    (acks : m'.acks = m.acks) (approvals : m'.approvals = m.approvals) : m'.Sound w := by
  apply hs.grows g ledger
  case nodup => exact messages ▸ hs.nodup
  case attested => exact messages ▸ hs.attested
  case ackKeys => exact acks ▸ hs.ackKeys
  case ackOwners => exact acks ▸ hs.ackOwners
  case approvalIds => exact approvals ▸ hs.approvalIds
  case approvalOwners => exact approvals ▸ hs.approvalOwners
  case requests => exact fun x hx old => absurd (messages ▸ hx) old
  case replies => exact fun x hx old => absurd (messages ▸ hx) old
  case acks => exact fun x hx old => absurd (acks ▸ hx) old
  case approvals => exact fun x hx old => absurd (approvals ▸ hx) old

theorem Sound.ledgerStep (hs : m.Sound w) (call : CommandCall)
    (refused : ∀ owned now claim response, call = .reject owned now claim response →
      ∀ r, owned r = .ok none → ¬m.Owns r.commandId) :
    ({ m with ledger := m.ledger.step w.hashing w.ledger call } : Mailbox).Sound w ∧
      m.Grows { m with ledger := m.ledger.step w.hashing w.ledger call } := by
  have grown : m.Grows { m with ledger := m.ledger.step w.hashing w.ledger call } :=
    ⟨List.prefix_rfl, List.prefix_rfl, List.prefix_rfl, (Ledger.step_change hs.ledger call).grows,
      fun _ _ h => h, fun _ _ h => h, fun _ _ owns found => hs.live_step call refused owns found⟩
  exact ⟨hs.beside grown (Ledger.step_sound hs.ledger call) rfl rfl rfl, grown⟩

theorem Sound.startRun (hs : m.Sound w) (run : RunId) (manifest : Digest)
    (absent : m.runs.get? run = none) :
    ({ m with runs := m.runs.insert run manifest } : Mailbox).Sound w ∧
      m.Grows { m with runs := m.runs.insert run manifest } := by
  have kept : ∀ id d, m.runs.get? id = some d → (m.runs.insert run manifest).get? id = some d := by
    intro id d found
    have other : run ≠ id := by
      rintro rfl
      rw [absent] at found
      cases found
    rwa [Dict.get?_insert_ne _ _ other]
  have grown : m.Grows { m with runs := m.runs.insert run manifest } :=
    ⟨List.prefix_rfl, List.prefix_rfl, List.prefix_rfl, .refl _, fun _ _ h => h, kept,
      fun _ _ owns found => hs.live owns found⟩
  exact ⟨hs.beside grown hs.ledger rfl rfl rfl, grown⟩

theorem Sound.attest (hs : m.Sound w) (attestation : Attestation)
    (absent : m.attestations.get? attestation.attestationId = none) :
    ({ m with attestations := m.attestations.insert attestation.attestationId attestation }
        : Mailbox).Sound w ∧
      m.Grows { m with attestations := m.attestations.insert attestation.attestationId attestation } := by
  have kept : ∀ id a, m.attestations.get? id = some a →
      (m.attestations.insert attestation.attestationId attestation).get? id = some a := by
    intro id a found
    have other : attestation.attestationId ≠ id := by
      rintro rfl
      rw [absent] at found
      cases found
    rwa [Dict.get?_insert_ne _ _ other]
  have grown : m.Grows
      { m with attestations := m.attestations.insert attestation.attestationId attestation } :=
    ⟨List.prefix_rfl, List.prefix_rfl, List.prefix_rfl, .refl _, kept, fun _ _ h => h,
      fun _ _ owns found => hs.live owns found⟩
  exact ⟨hs.beside grown hs.ledger rfl rfl rfl, grown⟩

/-! ## Runs -/

theorem Sound.settle {ε α : Type} (hs : m.Sound w) {t : Except ε (α × Mailbox)}
    (wrote : ∀ x m', t = .ok (x, m') → m'.Sound w ∧ m.Grows m') :
    (settle m t).Sound w ∧ m.Grows (Transaction.settle m t) := by
  cases t with
  | error e => exact ⟨hs, .refl hs⟩
  | ok r => exact wrote r.1 r.2 rfl

theorem Sound.step (hs : m.Sound w) (call : MailCall) :
    (m.step w call).Sound w ∧ m.Grows (m.step w call) := by
  have same : m.Sound w ∧ m.Grows m := ⟨hs, .refl hs⟩
  cases call with
  | claim now q => exact hs.ledgerStep (.claim now q) (by intros; contradiction)
  | plan now claim plan => exact hs.ledgerStep (.plan now claim plan) (by intros; contradiction)
  | complete now claim response =>
    exact hs.ledgerStep (.complete _ now claim response) (by intros; contradiction)
  | dispose intact claim => exact hs.ledgerStep (.dispose intact claim) (by intros; contradiction)
  | advance run epochs events =>
    exact hs.ledgerStep (.advance run epochs events) (by intros; contradiction)
  | reject resumed now claim response =>
    apply hs.ledgerStep
    intro owned now' claim' response' e r unowned
    cases e
    rw [mapError_eq_ok] at unowned
    exact not_owns unowned
  | startRun run manifest =>
    simp only [Mailbox.step]
    split_ifs with found
    · exact same
    · exact hs.startRun run manifest (by simpa using found)
  | attest a =>
    simp only [Mailbox.step]
    split_ifs with found
    · exact same
    · exact hs.attest a (by simpa using found)
  | appendRequest channelId intent attestationId now =>
    exact hs.settle fun _ _ h => hs.appendRequest h
  | reply channelId requestId actorId payload commandId now =>
    exact hs.settle fun _ _ h => hs.reply h
  | acknowledge channelId messageId actorId commandId now =>
    exact hs.settle fun _ _ h => hs.acknowledge h
  | storeApproval claim approval =>
    exact hs.settle fun _ _ h => hs.storeApproval h
  | storeApprovalExchange claim approval channelId requestId payload now =>
    exact hs.settle fun _ _ h => hs.storeApprovalExchange h

theorem Sound.run (hs : m.Sound w) (run : Reaches (Mailbox.step w) m m') :
    m'.Sound w ∧ m.Grows m' := by
  obtain ⟨calls, rfl⟩ := run
  induction calls generalizing m with
  | nil => exact ⟨hs, .refl hs⟩
  | cons call calls ih =>
    obtain ⟨sound, grown⟩ := hs.step call
    obtain ⟨sound', grown'⟩ := ih sound
    exact ⟨sound', grown.trans grown'⟩

theorem reachable_sound (run : Reaches (Mailbox.step w) empty m) : m.Sound w :=
  ((sound_empty w).run run).1

end Mailbox

end Constructicon
