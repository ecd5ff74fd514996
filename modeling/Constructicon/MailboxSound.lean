import Constructicon.Decisions

/-!
# What the mailbox retains

Every request stands under its own attestation; every reply beside its request, its
writer, the acknowledgement of its sender and, where the request claims approval
semantics, the approval of that writer; every acknowledgement beside the command that
planned it or the reply that implied it. In such a store every reader succeeds.
-/

namespace Constructicon

open Transaction

/-! ## Selections -/

section Single

variable {α : Type} {l : List α} {x : α}

theorem single_none (h : single l = .ok none) : l = [] := by
  cases l with
  | nil => rfl
  | cons a l => cases l <;> cases h

theorem single_some (h : single l = .ok (some x)) : l = [x] := by
  cases l with
  | nil => cases h
  | cons a l =>
    cases l with
    | nil =>
      cases h
      rfl
    | cons b l => cases h

end Single

namespace Mailbox

variable (w : MailWire) (m : Mailbox)

/-- How a reply decides its request: as the answer its command planned, or as the decision
its command stored. -/
inductive Decides (command : CommandRecord) (request reply : ChannelMessage) : Prop
  | advice (plain : ¬ClaimsApprovalExchange request)
      (valid : validatedChannelCommandReply w.ids w.human command request reply = .ok ())
  | approval (claims : ClaimsApprovalExchange request) (row : ApprovalRow) (stored : row ∈ m.approvals)
      (owner : row.commandId = command.commandId)
      (valid : validatedChannelApprovalExchange w.ids w.human command row.approval request reply =
        .ok ())

/-- A reply beside everything its reader asks for. -/
structure Exchanged (row request : MessageRow) (command : CommandRecord) : Prop where
  unattested : row.attestationId = none
  writer : row.commandId = some command.commandId
  found : m.ledger.commands.get? command.commandId = some command
  stored : request ∈ m.messages
  made : validatedReply w.ids request.message row.message = .ok row.message
  coherent : ∃ contract, request.message.replyContract = some contract ∧
    ¬exchangeRefused request.message.contract contract request.message.interaction
  acked : ∃ a ∈ m.acks, row.message.senderActorId = some a.ack.actorId ∧
    a.ack.messageId = request.message.messageId
  decides : m.Decides w command request.message row.message

/-- An acknowledgement beside its command: an observation of its own, or one its reply
implied. -/
structure Observed (a : AckRow) (request : MessageRow) (command : CommandRecord) : Prop where
  found : m.ledger.commands.get? a.commandId = some command
  actor : command.actor.actorId = a.ack.actorId
  stored : request ∈ m.messages
  kind : request.message.kind = .request
  message : a.ack.messageId = request.message.messageId
  source : validatedChannelCommandAck w.human command request.message = .ok () ∨
    ∃ r ∈ m.messages, r.commandId = some a.commandId ∧
      r.message.replyTo = some request.message.messageId ∧
      r.message.senderActorId = some a.ack.actorId ∧ a.ack.ackedAt = r.message.envelope.createdAt

/-- An approval beside its command, and beside its reply when it is request-bound. -/
structure Minted (row : ApprovalRow) (command : CommandRecord) (plan : ApprovalCommandPlan) :
    Prop where
  found : m.ledger.commands.get? row.commandId = some command
  valid : validatedCommandApprovalPlan w.ids w.human command row.approval = .ok plan
  replied : ∀ p, plan = .channel p → ∃ r ∈ m.messages, r.commandId = some row.commandId

structure Sound : Prop where
  ledger : m.ledger.Sound w.hashing w.ledger
  nodup : (m.messages.map (fun row => row.message.messageId)).Nodup
  attested : (m.messages.filterMap MessageRow.attestationId).Nodup
  requests : ∀ row ∈ m.messages, row.message.kind = .request →
    m.storedRequestFact w row = .ok row.message
  replies : ∀ row ∈ m.messages, row.message.kind = .reply →
    ∃ request command, m.Exchanged w row request command
  ackKeys : (m.acks.map (fun a => a.ack.key)).Nodup
  ackOwners : (m.acks.map AckRow.commandId).Nodup
  acks : ∀ a ∈ m.acks, ∃ request command, m.Observed w a request command
  approvalIds : (m.approvals.map (fun p => p.approval.approvalId)).Nodup
  approvalOwners : (m.approvals.map ApprovalRow.commandId).Nodup
  approvals : ∀ p ∈ m.approvals, ∃ command plan, m.Minted w p command plan

theorem sound_empty : empty.Sound w := by
  constructor
  case ledger => exact Ledger.sound_empty
  all_goals simp [empty]

variable {w m} {row request : MessageRow} {command : CommandRecord} {a : AckRow}

/-! ## Reading rows -/

theorem messageRow_none {id : Digest} (h : m.messageRow id = .ok none) :
    ∀ row ∈ m.messages, row.message.messageId ≠ id := by
  have none := single_none h
  rw [List.filter_eq_nil_iff] at none
  intro row hr same
  exact none row hr (decide_eq_true same)

theorem messageRow_some {id : Digest} (h : m.messageRow id = .ok (some row)) :
    row ∈ m.messages ∧ row.message.messageId = id := by
  have found : row ∈ m.messages.filter (fun row => row.message.messageId = id) := by
    rw [single_some h]
    exact List.mem_singleton_self _
  rw [List.mem_filter] at found
  exact ⟨found.1, of_decide_eq_true found.2⟩

theorem messageRow_absent {id : Digest} (h : ∀ row ∈ m.messages, row.message.messageId ≠ id) :
    m.messageRow id = .ok none := by
  unfold messageRow
  rw [List.filter_eq_nil_iff.mpr]
  · rfl
  · intro row hr same
    exact h row hr (of_decide_eq_true same)

theorem Sound.messageRow (hs : m.Sound w) (hr : row ∈ m.messages) :
    m.messageRow row.message.messageId = .ok (some row) := by
  unfold Mailbox.messageRow
  rw [Dict.filter_same (f := fun row : MessageRow => row.message.messageId) hs.nodup hr]
  rfl

theorem Sound.unique (hs : m.Sound w) {row' : MessageRow} (hr : row ∈ m.messages)
    (hr' : row' ∈ m.messages) (same : row.message.messageId = row'.message.messageId) : row = row' :=
  Dict.eq_of_nodup_map hs.nodup hr hr' same

theorem commandInTransaction_iff (hl : m.ledger.Sound w.hashing w.ledger) {id : String}
    {r : CommandRecord} :
    m.commandInTransaction w id = .ok r ↔ m.ledger.commands.get? id = some r := by
  unfold Mailbox.commandInTransaction
  rw [hl.commandForId]
  cases m.ledger.commands.get? id <;> simp

theorem Sound.commandInTransaction (hs : m.Sound w) {id : String} {r : CommandRecord} :
    m.commandInTransaction w id = .ok r ↔ m.ledger.commands.get? id = some r :=
  commandInTransaction_iff hs.ledger

theorem Sound.commandId (hs : m.Sound w) {id : String} {r : CommandRecord}
    (found : m.ledger.commands.get? id = some r) : r.commandId = id :=
  (hs.ledger.lawful id r found).1

theorem decodedAck_iff (hl : m.ledger.Sound w.hashing w.ledger) : m.decodedAck w a = .ok command ↔
    m.ledger.commands.get? a.commandId = some command ∧ command.actor.actorId = a.ack.actorId := by
  unfold Mailbox.decodedAck
  simp only [bind_eq_ok, commandInTransaction_iff hl, require_eq_ok]
  constructor
  · rintro ⟨r, found, -, actor, h⟩
    cases h
    exact ⟨found, actor⟩
  · rintro ⟨found, actor⟩
    exact ⟨command, found, (), actor, rfl⟩

theorem ackRow_none {id : Digest} {actor : ActorId} (h : m.ackRow w id actor = .ok none) :
    ∀ a ∈ m.acks, a.ack.key ≠ (id, actor) := by
  unfold Mailbox.ackRow at h
  simp only [bind_eq_ok] at h
  obtain ⟨-, -, h⟩ := h
  have none := single_none h
  rw [List.filter_filter, List.filter_eq_nil_iff] at none
  intro a ha same
  apply none a ha
  cases same
  simp

theorem ackRow_some {id : Digest} {actor : ActorId} (h : m.ackRow w id actor = .ok (some a)) :
    a ∈ m.acks ∧ a.ack.key = (id, actor) := by
  unfold Mailbox.ackRow at h
  simp only [bind_eq_ok] at h
  obtain ⟨-, -, h⟩ := h
  have found : a ∈ (m.acks.filter (fun row => row.ack.messageId = id)).filter
      (fun row => row.ack.actorId = actor) := by
    rw [single_some h]
    exact List.mem_singleton_self _
  simp only [List.mem_filter, decide_eq_true_eq] at found
  obtain ⟨⟨ha, rfl⟩, rfl⟩ := found
  exact ⟨ha, rfl⟩

theorem Sound.ackRow (hs : m.Sound w) (id : Digest) (actor : ActorId) :
    m.ackRow w id actor = .ok (m.acks.find? (fun a => a.ack.key = (id, actor))) := by
  unfold Mailbox.ackRow
  have decoded : ∃ r, (m.acks.filter (fun row => row.ack.messageId = id)).mapM (m.decodedAck w) =
      .ok r := by
    apply mapM_of
    intro a ha
    obtain ⟨request, command, observed⟩ := hs.acks a (List.mem_of_mem_filter ha)
    exact ⟨command, (decodedAck_iff hs.ledger).mpr ⟨observed.found, observed.actor⟩⟩
  obtain ⟨r, hr⟩ := decoded
  have keys : (m.acks.filter (fun row => row.ack.messageId = id)).filter
      (fun row => row.ack.actorId = actor) = m.acks.filter (fun a => a.ack.key = (id, actor)) := by
    rw [List.filter_filter]
    apply List.filter_congr
    intro a ha
    simp only [ChannelAck.key, Prod.ext_iff, Bool.decide_and, Bool.and_comm]
  simp only [hr, ok_bind, keys]
  cases hf : m.acks.find? (fun a => a.ack.key = (id, actor)) with
  | none =>
    rw [List.filter_eq_nil_iff.mpr]
    · rfl
    · exact fun a ha => List.find?_eq_none.mp hf a ha
  | some a =>
    have own : a.ack.key = (id, actor) := by simpa using List.find?_some hf
    rw [← own, Dict.filter_same (f := fun a : AckRow => a.ack.key) hs.ackKeys
      (List.mem_of_find?_eq_some hf)]
    rfl

theorem Sound.ackRow_of (hs : m.Sound w) (ha : a ∈ m.acks) :
    m.ackRow w a.ack.messageId a.ack.actorId = .ok (some a) := by
  rw [hs.ackRow]
  exact congrArg _ (Dict.find?_same (f := fun a : AckRow => a.ack.key) hs.ackKeys ha)

theorem Sound.approvalOf (hs : m.Sound w) {p : ApprovalRow} (hp : p ∈ m.approvals)
    (found : m.ledger.commands.get? p.commandId = some command) :
    m.approvalOf w p.commandId = .ok (some (command, p.approval)) := by
  obtain ⟨command', plan, minted⟩ := hs.approvals p hp
  have same : command' = command := by
    rw [minted.found] at found
    exact Option.some.inj found
  subst same
  unfold Mailbox.approvalOf storedApprovalFact
  rw [Dict.find?_same hs.approvalOwners hp]
  dsimp only
  rw [hs.commandInTransaction.mpr minted.found, ok_bind, minted.valid]
  rfl

/-! ## Complete facts -/

theorem authority_ok {id : String} {run : RunId} {attestation : Attestation} {manifest : Digest} :
    m.authority id run = .ok (attestation, manifest) ↔ m.attestations.get? id = some attestation ∧
      attestation.attestationId = id ∧ m.runs.get? run = some manifest := by
  unfold authority
  simp only [bind_eq_ok, expect_eq_ok, require_eq_ok]
  constructor
  · rintro ⟨a, ha, -, named, d, hd, h⟩
    cases h
    exact ⟨ha, named, hd⟩
  · rintro ⟨ha, named, hd⟩
    exact ⟨attestation, ha, (), named, manifest, hd, rfl⟩

theorem storedRequestFact_ok {q : ChannelMessage} (h : m.storedRequestFact w row = .ok q) :
    q = row.message ∧ row.Lawful ∧ row.message.kind = .request ∧
      ∃ id attestation manifest intent, row.attestationId = some id ∧
        m.authority id row.message.envelope.runId = .ok (attestation, manifest) ∧
        AuthorizesSend w.payloadDigest attestation intent manifest ∧
        messageForIntent w.ids intent row.message.envelope.createdAt = .ok row.message := by
  unfold storedRequestFact at h
  simp only [bind_eq_ok, expect_eq_ok, require_eq_ok] at h
  obtain ⟨_, lawful, _, kind, id, hid, found, authority, h⟩ := h
  obtain ⟨same, -, intent, authorized, made⟩ := validatedAttestedChannelRequest_ok h
  exact ⟨same, lawful, kind, id, found.1, found.2, intent, hid, authority, authorized, made⟩

theorem Sound.lawful (hs : m.Sound w) (hr : row ∈ m.messages) : row.Lawful := by
  cases kind : row.message.kind with
  | request =>
    exact (storedRequestFact_ok (hs.requests row hr kind)).2.1
  | reply =>
    obtain ⟨request, command, exchanged⟩ := hs.replies row hr kind
    unfold MessageRow.Lawful
    rw [kind]
    exact exchanged.unattested

theorem Exchanged.kinds (h : m.Exchanged w row request command) :
    request.message.kind = .request ∧ row.message.kind = .reply ∧
      row.message.replyTo = some request.message.messageId := by
  obtain ⟨-, kind, sender, -, replyTo, made⟩ := validatedReply_ok h.made
  exact ⟨(messageForReply_ok made).1, kind, replyTo⟩

theorem Exchanged.messageId (h : m.Exchanged w row request command) :
    ∃ port, request.message.replyPort = some port ∧
      row.message.messageId = w.ids.reply request.message.messageId port := by
  obtain ⟨-, -, sender, -, -, made⟩ := validatedReply_ok h.made
  exact (messageForReply_ok made).2.2.2.2.2.2.2.1

theorem Sound.kind_of_replyTo (hs : m.Sound w) (hr : row ∈ m.messages) {id : Digest}
    (replyTo : row.message.replyTo = some id) : row.message.kind = .reply := by
  cases kind : row.message.kind with
  | reply => rfl
  | request =>
    obtain ⟨-, -, -, id, attestation, manifest, intent, -, -, -, made⟩ :=
      storedRequestFact_ok (hs.requests row hr kind)
    rw [(messageForIntent_ok made).2.2.2.1] at replyTo
    cases replyTo

theorem Sound.reply_unique (hs : m.Sound w) {row' : MessageRow} (hr : row ∈ m.messages)
    (hr' : row' ∈ m.messages) {id : Digest}
    (answers : row.message.replyTo = some id) (answers' : row'.message.replyTo = some id) : row = row' := by
  obtain ⟨q, command, exchanged⟩ := hs.replies row hr (hs.kind_of_replyTo hr answers)
  obtain ⟨q', command', exchanged'⟩ := hs.replies row' hr' (hs.kind_of_replyTo hr' answers')
  have qid : q.message.messageId = id := by
    rw [exchanged.kinds.2.2] at answers
    exact Option.some.inj answers
  have qid' : q'.message.messageId = id := by
    rw [exchanged'.kinds.2.2] at answers'
    exact Option.some.inj answers'
  have same : q = q' := hs.unique exchanged.stored exchanged'.stored (qid.trans qid'.symm)
  subst same
  obtain ⟨port, hport, mid⟩ := exchanged.messageId
  obtain ⟨port', hport', mid'⟩ := exchanged'.messageId
  rw [hport] at hport'
  cases hport'
  exact hs.unique hr hr' (mid.trans mid'.symm)

theorem Decides.bound {request reply : ChannelMessage} (h : m.Decides w command request reply) :
    command.state ≠ .rejected ∧
      (command.operation = replyOperation ∨ command.operation = approveOperation) ∧
      reply.senderActorId = some command.actor.actorId ∧
      ChannelAuthorityHolder request command.actor := by
  cases h with
  | advice plain valid =>
    have bound := validatedChannelCommandReply_ok valid
    exact ⟨bound.live, .inl bound.operation, bound.sender, bound.holder⟩
  | approval claims row stored owner valid =>
    obtain ⟨-, plan, -, bound⟩ := validatedChannelApprovalExchange_ok valid
    have actor := bound.bound.actor
    exact ⟨bound.bound.live, .inr bound.bound.operation, actor ▸ bound.sender, actor ▸ bound.holder⟩

theorem Sound.exchange_of (hs : m.Sound w) (hr : row ∈ m.messages) (hq : request ∈ m.messages)
    (answers : row.message.replyTo = some request.message.messageId) :
    ∃ command, m.Exchanged w row request command := by
  obtain ⟨q, command, exchanged⟩ := hs.replies row hr (hs.kind_of_replyTo hr answers)
  have same : q = request := by
    apply hs.unique exchanged.stored hq
    rw [exchanged.kinds.2.2] at answers
    exact Option.some.inj answers
  exact ⟨command, same ▸ exchanged⟩

theorem Sound.observed_of (hs : m.Sound w) (ha : a ∈ m.acks) (hq : request ∈ m.messages)
    (message : a.ack.messageId = request.message.messageId) :
    ∃ command, m.Observed w a request command := by
  obtain ⟨q, command, observed⟩ := hs.acks a ha
  have same : q = request := hs.unique observed.stored hq (observed.message.symm.trans message)
  exact ⟨command, same ▸ observed⟩

theorem Sound.provenance (hs : m.Sound w) (observed : m.Observed w a request command)
    {reply : Option (ChannelMessage × String)} {approval : Option ApprovalRecord}
    (replied : ∀ r ∈ m.messages, r.message.replyTo = some request.message.messageId →
      r.commandId = some a.commandId → m.Decides w command request.message r.message →
      reply = some (r.message, a.commandId) ∧ (ClaimsApprovalExchange request.message →
        ∀ p ∈ m.approvals, p.commandId = a.commandId → approval = some p.approval)) :
    validatedChannelAckProvenance w.ids w.human command a.ack a.commandId request.message reply
      approval = .ok () := by
  have id : command.commandId = a.commandId := hs.commandId observed.found
  unfold validatedChannelAckProvenance
  rw [require_of ⟨id.symm, observed.message, observed.actor.symm⟩, ok_bind]
  rcases observed.source with valid | ⟨r, hr, writer, answers, sender, created⟩
  · rw [if_pos (validatedChannelCommandAck_ok valid).operation, valid]
  · obtain ⟨command', exchanged⟩ := hs.exchange_of hr observed.stored answers
    have same : command' = command := by
      have owner := exchanged.writer
      rw [writer] at owner
      have found := exchanged.found
      rw [← Option.some.inj owner, observed.found] at found
      exact (Option.some.inj found).symm
    subst same
    obtain ⟨read, approved⟩ := replied r hr answers writer exchanged.decides
    rw [read]
    cases exchanged.decides with
    | advice plain valid =>
      have operation := (validatedChannelCommandReply_ok valid).operation
      rw [if_neg (by rw [operation]; decide), expect_some, ok_bind]
      dsimp only
      rw [require_of id.symm, ok_bind, require_of created, ok_bind, if_pos operation, valid]
    | approval claims p stored owner valid =>
      obtain ⟨-, plan, -, bound⟩ := validatedChannelApprovalExchange_ok valid
      have operation := bound.bound.operation
      rw [if_neg (by rw [operation]; decide), expect_some, ok_bind]
      dsimp only
      rw [require_of id.symm, ok_bind, require_of created, ok_bind,
        if_neg (by rw [operation]; decide), if_pos operation, approved claims p stored (owner.trans id),
        expect_some, ok_bind, valid]

theorem Sound.senderAck (hs : m.Sound w) (exchanged : m.Exchanged w row request command) :
    ∃ a ackCommand, a ∈ m.acks ∧ m.Observed w a request ackCommand ∧
      m.senderAck w request.message row.message = .ok (some (a, ackCommand)) := by
  obtain ⟨a, ha, sender, message⟩ := exchanged.acked
  obtain ⟨ackCommand, observed⟩ := hs.observed_of ha exchanged.stored message
  refine ⟨a, ackCommand, ha, observed, ?_⟩
  unfold Mailbox.senderAck
  rw [sender]
  dsimp only
  rw [← message, hs.ackRow_of ha, ok_bind]
  dsimp only
  rw [(decodedAck_iff hs.ledger).mpr ⟨observed.found, observed.actor⟩]
  rfl

theorem Sound.validatedStoredReplyFact (hs : m.Sound w)
    (exchanged : m.Exchanged w row request command) :
    ∃ approval, m.claimedApproval w request.message command.commandId = .ok approval ∧
      validatedStoredReplyFact w request.message row.message command approval = .ok () ∧
      (ClaimsApprovalExchange request.message → ∀ p ∈ m.approvals,
        p.commandId = command.commandId → approval.map Prod.snd = some p.approval) := by
  obtain ⟨kind, isReply, answers⟩ := exchanged.kinds
  obtain ⟨contract, hcontract, coherent⟩ := exchanged.coherent
  unfold Mailbox.validatedStoredReplyFact Mailbox.claimedApproval approvalRecordForReply
  rw [require_of kind, ok_bind, hcontract, expect_some, ok_bind, require_of coherent, ok_bind]
  cases exchanged.decides with
  | advice plain valid =>
    refine ⟨none, if_neg plain, ?_, fun claims => absurd claims plain⟩
    rw [if_neg plain, exchanged.made]
    exact valid
  | approval claims p stored owner valid =>
    have found : m.ledger.commands.get? p.commandId = some command := owner ▸ exchanged.found
    have approval := hs.approvalOf stored found
    rw [owner] at approval
    refine ⟨some (command, p.approval), by rw [if_pos claims, approval], ?_, ?_⟩
    · rw [if_pos claims, validatedChannelApprovalExchange_carried valid]
      change (do
        require (p.approval = p.approval) ChannelError.journalDamaged
        validatedChannelApprovalExchange w.ids w.human command p.approval request.message
          row.message) = _
      rw [require_of rfl, ok_bind, valid]
    · intro _ p' stored' owner'
      have same : p' = p := Dict.eq_of_nodup_map hs.approvalOwners stored' stored
        (owner'.trans owner.symm)
      rw [same]
      rfl

theorem Sound.storedReplyFact (hs : m.Sound w) (hr : row ∈ m.messages)
    (exchanged : m.Exchanged w row request command) :
    m.storedReplyFact w request.message row = .ok (row.message, command.commandId) := by
  obtain ⟨a, ackCommand, ha, observed, acked⟩ := hs.senderAck exchanged
  obtain ⟨approval, claimed, valid, approved⟩ := hs.validatedStoredReplyFact exchanged
  obtain ⟨-, isReply, answers⟩ := exchanged.kinds
  have provenance : validatedChannelAckProvenance w.ids w.human ackCommand a.ack a.commandId
      request.message (some (row.message, command.commandId)) (approval.map Prod.snd) = .ok () := by
    apply hs.provenance observed
    intro r hr' answers' writer _
    have same : r = row := hs.reply_unique hr' hr answers' answers
    subst same
    have id : command.commandId = a.commandId := by
      rw [exchanged.writer] at writer
      exact Option.some.inj writer
    rw [id] at approved ⊢
    exact ⟨rfl, approved⟩
  unfold Mailbox.storedReplyFact
  rw [require_of (hs.lawful hr), ok_bind, acked, ok_bind, require_of isReply, ok_bind,
    exchanged.writer, expect_some, ok_bind, hs.commandInTransaction.mpr exchanged.found, ok_bind,
    claimed, ok_bind, expect_some, ok_bind]
  dsimp only
  rw [valid, ok_bind, provenance]
  rfl

theorem Exchanged.channel (h : m.Exchanged w row request command) :
    row.message.channelId = request.message.channelId := by
  obtain ⟨-, -, sender, -, -, made⟩ := validatedReply_ok h.made
  exact messageForReply_channel made

theorem Sound.replyTo (hs : m.Sound w) (hq : request ∈ m.messages) (fallback : String) :
    ∃ o, m.replyTo request.message fallback = .ok o ∧ ∀ r ∈ m.messages,
      r.message.replyTo = some request.message.messageId → ∀ writer, r.commandId = some writer →
        o = some (r.message, writer) := by
  unfold Mailbox.replyTo
  cases hf : m.messages.find? (fun row => row.message.replyTo = some request.message.messageId ∧
      row.message.channelId = request.message.channelId) with
  | none =>
    refine ⟨none, rfl, ?_⟩
    intro r hr answers
    obtain ⟨command, exchanged⟩ := hs.exchange_of hr hq answers
    exact absurd (decide_eq_true ⟨answers, exchanged.channel⟩) (List.find?_eq_none.mp hf r hr)
  | some r₀ =>
    have hr₀ := List.mem_of_find?_eq_some hf
    have answers₀ : r₀.message.replyTo = some request.message.messageId ∧
        r₀.message.channelId = request.message.channelId := by simpa using List.find?_some hf
    refine ⟨some (r₀.message, r₀.commandId.getD fallback), ?_, ?_⟩
    · dsimp only
      rw [require_of (hs.lawful hr₀)]
      rfl
    · intro r hr answers writer owner
      rw [hs.reply_unique hr hr₀ answers answers₀.1] at owner ⊢
      rw [owner]
      rfl

theorem Sound.approvalOf_ok (hs : m.Sound w) (id : String) :
    ∃ o, m.approvalOf w id = .ok o ∧ ∀ p ∈ m.approvals, p.commandId = id →
      o.map Prod.snd = some p.approval := by
  by_cases owned : ∃ p ∈ m.approvals, p.commandId = id
  · obtain ⟨p, hp, rfl⟩ := owned
    obtain ⟨command, plan, minted⟩ := hs.approvals p hp
    refine ⟨_, hs.approvalOf hp minted.found, ?_⟩
    intro p' hp' same
    rw [Dict.eq_of_nodup_map hs.approvalOwners hp' hp same]
    rfl
  · refine ⟨none, ?_, fun p hp same => absurd ⟨p, hp, same⟩ owned⟩
    unfold Mailbox.approvalOf
    rw [List.find?_eq_none.mpr]
    intro p hp same
    exact owned ⟨p, hp, of_decide_eq_true same⟩

theorem Sound.ackSources (hs : m.Sound w) (observed : m.Observed w a request command) :
    ∃ x, m.ackSources w request.message command = .ok x ∧ ∀ r ∈ m.messages,
      r.message.replyTo = some request.message.messageId → r.commandId = some a.commandId →
      m.Decides w command request.message r.message →
      x.1 = some (r.message, a.commandId) ∧ (ClaimsApprovalExchange request.message →
        ∀ p ∈ m.approvals, p.commandId = a.commandId → x.2 = some p.approval) := by
  obtain ⟨reply, read, replied⟩ := hs.replyTo observed.stored command.commandId
  obtain ⟨approval, approved, minted⟩ := hs.approvalOf_ok command.commandId
  have id : command.commandId = a.commandId := hs.commandId observed.found
  unfold Mailbox.ackSources
  rw [read, approved]
  by_cases approve : command.operation = approveOperation
  · rw [if_pos approve]
    refine ⟨(reply, approval.map Prod.snd), rfl, ?_⟩
    intro r hr answers writer _
    exact ⟨replied r hr answers _ writer, fun _ p hp owner => minted p hp (owner.trans id.symm)⟩
  · rw [if_neg approve]
    by_cases isReply : command.operation = replyOperation
    · rw [if_pos isReply]
      refine ⟨(reply, none), rfl, ?_⟩
      intro r hr answers writer decides
      refine ⟨replied r hr answers _ writer, ?_⟩
      cases decides with
      | advice plain valid => exact fun claims => absurd claims plain
      | approval claims row stored owner valid =>
        obtain ⟨-, plan, -, bound⟩ := validatedChannelApprovalExchange_ok valid
        exact absurd bound.bound.operation approve
    · rw [if_neg isReply]
      refine ⟨(none, none), rfl, ?_⟩
      intro r hr answers writer decides
      rcases decides.bound.2.1 with op | op
      · exact absurd op isReply
      · exact absurd op approve

theorem Sound.storedAckOf (hs : m.Sound w) (observed : m.Observed w a request command) :
    m.storedAckOf w request.message a = .ok a := by
  obtain ⟨x, sources, replied⟩ := hs.ackSources observed
  unfold Mailbox.storedAckOf
  rw [(decodedAck_iff hs.ledger).mpr ⟨observed.found, observed.actor⟩, ok_bind, sources, ok_bind]
  dsimp only
  rw [hs.provenance observed replied]
  rfl

theorem Sound.storedMessageFact (hs : m.Sound w) (hr : row ∈ m.messages) :
    m.storedMessageFact w row = .ok row.message := by
  unfold Mailbox.storedMessageFact
  rw [require_of (hs.lawful hr), ok_bind]
  cases kind : row.message.kind with
  | request => rw [if_pos rfl, hs.requests row hr kind]
  | reply =>
    obtain ⟨q, command, exchanged⟩ := hs.replies row hr kind
    obtain ⟨isRequest, -, answers⟩ := exchanged.kinds
    rw [if_neg (by decide), answers, expect_some, ok_bind, hs.messageRow exchanged.stored, ok_bind,
      expect_some, ok_bind, hs.requests q exchanged.stored isRequest, ok_bind,
      require_of exchanged.channel.symm, ok_bind, hs.storedReplyFact hr exchanged]
    rfl

end Mailbox

end Constructicon
