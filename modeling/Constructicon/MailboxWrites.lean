import Constructicon.MailboxGrowth

/-!
# What a transaction of the mailbox writes

A transaction that commits found its fact already stored, or added a request under its
attestation, an acknowledgement its command planned, or a reply with the acknowledgement
and the approval it brings.
-/

namespace Constructicon

open Transaction

namespace Mailbox

variable {w : MailWire} {m m' : Mailbox} {row q : MessageRow} {command : CommandRecord}
  {a : AckRow} {p : ApprovalRow}

/-! ## Adding rows -/

def add (m : Mailbox) (messages : List MessageRow) (acks : List AckRow)
    (approvals : List ApprovalRow) : Mailbox :=
  { m with
    messages := m.messages ++ messages
    acks := m.acks ++ acks
    approvals := m.approvals ++ approvals }

theorem Sound.grows_add (hs : m.Sound w) (messages : List MessageRow) (acks : List AckRow)
    (approvals : List ApprovalRow) : m.Grows (m.add messages acks approvals) :=
  ⟨List.prefix_append _ _, List.prefix_append _ _, List.prefix_append _ _, .refl _, fun _ _ h => h,
    fun _ _ h => h, fun _ _ owns found => hs.live owns found⟩

theorem Sound.addRequest (hs : m.Sound w) (fact : m.storedRequestFact w row = .ok row.message)
    (fresh : ∀ x ∈ m.messages, x.message.messageId ≠ row.message.messageId)
    (unused : ∀ x ∈ m.messages, x.attestationId ≠ row.attestationId) :
    (m.add [row] [] []).Sound w := by
  have g := hs.grows_add [row] [] []
  obtain ⟨-, -, kind, id, -, -, -, hid, -⟩ := storedRequestFact_ok fact
  have isNew : ∀ x ∈ (m.add [row] [] []).messages, x ∉ m.messages → x = row := by
    intro x hx old
    rcases List.mem_append.mp hx with h | h
    · exact absurd h old
    · exact List.mem_singleton.mp h
  apply hs.grows g hs.ledger
  case nodup => exact Dict.nodup_map_append hs.nodup fresh
  case attested =>
    change ((m.messages ++ [row]).filterMap MessageRow.attestationId).Nodup
    rw [List.filterMap_append, List.nodup_append]
    refine ⟨hs.attested, ?_, ?_⟩
    · simp [hid]
    · rintro x old y last rfl
      obtain ⟨r, hr, used⟩ := List.mem_filterMap.mp old
      have same : row.attestationId = some x := by simpa using last
      exact unused r hr (used.trans same.symm)
  case ackKeys => simpa [add] using hs.ackKeys
  case ackOwners => simpa [add] using hs.ackOwners
  case approvalIds => simpa [add] using hs.approvalIds
  case approvalOwners => simpa [add] using hs.approvalOwners
  case requests =>
    intro x hx old _
    rw [isNew x hx old]
    exact g.storedRequestFact fact
  case replies =>
    intro x hx old isReply
    rw [isNew x hx old, kind] at isReply
    cases isReply
  case acks =>
    intro a ha old
    exact absurd (by simpa [add] using ha) old
  case approvals =>
    intro p hp old
    exact absurd (by simpa [add] using hp) old

theorem Sound.addAck (hs : m.Sound w) (hq : q ∈ m.messages) (kind : q.message.kind = .request)
    (message : a.ack.messageId = q.message.messageId)
    (found : m.ledger.commands.get? a.commandId = some command)
    (actor : command.actor.actorId = a.ack.actorId)
    (valid : validatedChannelCommandAck w.human command q.message = .ok ())
    (fresh : ∀ x ∈ m.acks, x.ack.key ≠ a.ack.key) (unowned : ∀ x ∈ m.acks, x.commandId ≠ a.commandId) :
    (m.add [] [a] []).Sound w := by
  have g := hs.grows_add [] [a] []
  apply hs.grows g hs.ledger
  case nodup => simpa [add] using hs.nodup
  case attested => simpa [add] using hs.attested
  case ackKeys => exact Dict.nodup_map_append hs.ackKeys fresh
  case ackOwners => exact Dict.nodup_map_append hs.ackOwners unowned
  case approvalIds => simpa [add] using hs.approvalIds
  case approvalOwners => simpa [add] using hs.approvalOwners
  case requests =>
    intro x hx old
    exact absurd (by simpa [add] using hx) old
  case replies =>
    intro x hx old
    exact absurd (by simpa [add] using hx) old
  case acks =>
    intro x hx old
    have same : x = a := by
      rcases List.mem_append.mp hx with h | h
      · exact absurd h old
      · exact List.mem_singleton.mp h
    subst same
    exact ⟨q, command, found, actor, g.messages.mem hq, kind, message, .inl valid⟩
  case approvals =>
    intro p hp old
    exact absurd (by simpa [add] using hp) old

theorem Sound.addApproval (hs : m.Sound w) (found : m.ledger.commands.get? p.commandId = some command)
    {approval : ApprovalRecord}
    (valid : validatedCommandApprovalPlan w.ids w.human command p.approval = .ok (.standalone approval))
    (fresh : ∀ x ∈ m.approvals, x.approval.approvalId ≠ p.approval.approvalId)
    (unowned : ∀ x ∈ m.approvals, x.commandId ≠ p.commandId) : (m.add [] [] [p]).Sound w := by
  have g := hs.grows_add [] [] [p]
  apply hs.grows g hs.ledger
  case nodup => simpa [add] using hs.nodup
  case attested => simpa [add] using hs.attested
  case ackKeys => simpa [add] using hs.ackKeys
  case ackOwners => simpa [add] using hs.ackOwners
  case approvalIds => exact Dict.nodup_map_append hs.approvalIds fresh
  case approvalOwners => exact Dict.nodup_map_append hs.approvalOwners unowned
  case requests =>
    intro x hx old
    exact absurd (by simpa [add] using hx) old
  case replies =>
    intro x hx old
    exact absurd (by simpa [add] using hx) old
  case acks =>
    intro x hx old
    exact absurd (by simpa [add] using hx) old
  case approvals =>
    intro x hx old
    have same : x = p := by
      rcases List.mem_append.mp hx with h | h
      · exact absurd h old
      · exact List.mem_singleton.mp h
    subst same
    refine ⟨command, _, found, valid, ?_⟩
    intro q bound
    cases bound

/-- The acknowledgement a reply brings: none when its actor has one of the request, else one
of its own command. -/
structure Implies (m : Mailbox) (requestId : Digest) (actorId : ActorId) (at' : Instant)
    (commandId : String) (acks : List AckRow) : Prop where
  acked : ∃ a ∈ m.acks ++ acks, a.ack.key = (requestId, actorId)
  keys : ((m.acks ++ acks).map (fun a => a.ack.key)).Nodup
  owners : ((m.acks ++ acks).map AckRow.commandId).Nodup
  own : ∀ a ∈ acks, a = ⟨⟨requestId, actorId, at'⟩, commandId⟩

theorem Sound.addReply (hs : m.Sound w) {reply : ChannelMessage} {payload : Json} {at' : Instant}
    {acks : List AckRow} (approvals : List ApprovalRow) (hq : q ∈ m.messages)
    (found : m.ledger.commands.get? command.commandId = some command)
    (fresh : ∀ x ∈ m.messages, x.message.messageId ≠ reply.messageId)
    (made : messageForReply w.ids q.message command.actor.actorId payload at' = .ok reply)
    (implies : m.Implies q.message.messageId command.actor.actorId at' command.commandId acks)
    (coherent : ∃ contract, q.message.replyContract = some contract ∧
      ¬exchangeRefused q.message.contract contract q.message.interaction)
    (decides : (m.add [⟨reply, none, some command.commandId⟩] acks approvals).Decides w command
      q.message reply)
    (approvalIds : ((m.approvals ++ approvals).map (fun p => p.approval.approvalId)).Nodup)
    (approvalOwners : ((m.approvals ++ approvals).map ApprovalRow.commandId).Nodup)
    (minted : ∀ p ∈ approvals, p.commandId = command.commandId ∧
      ∃ plan, validatedCommandApprovalPlan w.ids w.human command p.approval = .ok plan) :
    (m.add [⟨reply, none, some command.commandId⟩] acks approvals).Sound w := by
  have g := hs.grows_add [⟨reply, none, some command.commandId⟩] acks approvals
  have isNew : ∀ x ∈ (m.add [⟨reply, none, some command.commandId⟩] acks approvals).messages,
      x ∉ m.messages → x = ⟨reply, none, some command.commandId⟩ := by
    intro x hx old
    rcases List.mem_append.mp hx with h | h
    · exact absurd h old
    · exact List.mem_singleton.mp h
  have self : (⟨reply, none, some command.commandId⟩ : MessageRow) ∈
      (m.add [⟨reply, none, some command.commandId⟩] acks approvals).messages :=
    List.mem_append_right _ (List.mem_singleton_self _)
  obtain ⟨kind, isReply, answers, sender, -, -, created, -, -⟩ := messageForReply_ok made
  apply hs.grows g hs.ledger
  case nodup => exact Dict.nodup_map_append hs.nodup fresh
  case attested => simpa [add] using hs.attested
  case ackKeys => exact implies.keys
  case ackOwners => exact implies.owners
  case approvalIds => exact approvalIds
  case approvalOwners => exact approvalOwners
  case requests =>
    intro x hx old isRequest
    rw [isNew x hx old, isReply] at isRequest
    cases isRequest
  case replies =>
    intro x hx old _
    rw [isNew x hx old]
    obtain ⟨a, ha, key⟩ := implies.acked
    refine ⟨q, command, rfl, rfl, found, g.messages.mem hq, validatedReply_of made, coherent,
      ⟨a, ha, ?_, congrArg Prod.fst key⟩, decides⟩
    rw [sender]
    exact congrArg some (congrArg Prod.snd key).symm
  case acks =>
    intro a ha old
    have same : a = ⟨⟨q.message.messageId, command.actor.actorId, at'⟩, command.commandId⟩ := by
      rcases List.mem_append.mp ha with h | h
      · exact absurd h old
      · exact implies.own a h
    subst same
    exact ⟨q, command, found, rfl, g.messages.mem hq, kind, rfl,
      .inr ⟨_, self, rfl, answers, sender, created.symm⟩⟩
  case approvals =>
    intro p hp old
    have new : p ∈ approvals := by
      rcases List.mem_append.mp hp with h | h
      · exact absurd h old
      · exact h
    obtain ⟨owner, plan, valid⟩ := minted p new
    refine ⟨command, plan, owner.symm ▸ found, valid, ?_⟩
    intro _ _
    exact ⟨_, self, by rw [owner]⟩

/-! ## Requests and acknowledgements -/

theorem Sound.appendRequest (hs : m.Sound w) {channelId attestationId : String}
    {intent : ChannelSendIntent} {now : Option Instant} {r : ChannelMessage}
    (h : m.channelAppendRequest w channelId intent attestationId now = .ok (r, m')) :
    m'.Sound w ∧ m.Grows m' := by
  unfold channelAppendRequest at h
  simp only [bind_eq_ok] at h
  obtain ⟨_, -, found, selected, h⟩ := h
  cases found with
  | some row =>
    simp only [bind_eq_ok] at h
    obtain ⟨stored, -, expected, -, _, -, h⟩ := h
    cases h
    exact ⟨hs, .refl hs⟩
  | none =>
    simp only [bind_eq_ok, require_eq_ok, expect_eq_ok] at h
    obtain ⟨x, authority, _, authorized, t, -, message, made, m₁, inserted, h⟩ := h
    unfold insertMessage at inserted
    simp only [bind_eq_ok, require_eq_ok] at inserted
    obtain ⟨_, lawful, inserted⟩ := inserted
    cases inserted
    cases h
    obtain ⟨-, id, kind, -⟩ := messageForIntent_ok made
    have none := single_none selected
    rw [List.filter_eq_nil_iff] at none
    have run : r.envelope.runId = intent.runId ∧ r.envelope.createdAt = t := by
      unfold messageForIntent at made
      simp only [bind_eq_ok] at made
      obtain ⟨_, -, made⟩ := made
      cases made
      exact ⟨rfl, rfl⟩
    have fact : m.storedRequestFact w ⟨r, some attestationId, Option.none⟩ = .ok r := by
      unfold storedRequestFact
      rw [require_of lawful, ok_bind, require_of kind, ok_bind, expect_some, ok_bind, run.1,
        authority, ok_bind]
      exact validatedAttestedChannelRequest_of authorized made
    have new := hs.addRequest fact
      (fun x hx same => none x hx (decide_eq_true (.inl (same.trans id))))
      (fun x hx same => none x hx (decide_eq_true (.inr same)))
    have grown := hs.grows_add [⟨r, some attestationId, Option.none⟩] [] []
    simp only [add, List.append_nil] at new grown
    exact ⟨new, grown⟩

theorem insertAck_ok (hl : m.ledger.Sound w.hashing w.ledger) (h : m.insertAck w a = .ok m') :
    m' = { m with acks := m.acks ++ [a] } ∧ ∃ command,
      m.ledger.commands.get? a.commandId = some command ∧ command.state = .prepared ∧
      command.actor.actorId = a.ack.actorId := by
  unfold insertAck at h
  simp only [bind_eq_ok, require_eq_ok, commandInTransaction_iff hl, decodedAck_iff hl] at h
  obtain ⟨command, found, _, prepared, _, -, command', ⟨found', actor⟩, h⟩ := h
  cases h
  rw [found] at found'
  cases found'
  exact ⟨rfl, command, found, prepared, actor⟩

theorem storedAck_none {id : Digest} {actor : ActorId} {commandId : String}
    (h : m.storedAck w id actor commandId = .ok none) :
    (∀ x ∈ m.acks, x.ack.key ≠ (id, actor)) ∧ ∀ x ∈ m.acks, x.commandId ≠ commandId := by
  unfold storedAck at h
  simp only [bind_eq_ok, require_eq_ok] at h
  obtain ⟨_, -, _, owner, o, read, h⟩ := h
  cases o with
  | some x =>
    simp only [bind_eq_ok] at h
    obtain ⟨y, -, h⟩ := h
    cases h
  | none =>
    have fresh := ackRow_none read
    refine ⟨fresh, ?_⟩
    intro x hx same
    cases hf : m.acks.find? (fun row : AckRow => row.commandId = commandId) with
    | none => exact absurd (decide_eq_true same) (List.find?_eq_none.mp hf x hx)
    | some y => exact fresh y (List.mem_of_find?_eq_some hf) (owner y hf)

theorem storedAckRecord_ok {r : AckRow} (h : m.storedAckRecord w a = .ok r) : r = a := by
  unfold storedAckRecord storedAckOf at h
  simp only [bind_eq_ok] at h
  obtain ⟨_, -, _, -, _, -, _, -, _, -, _, -, _, -, h⟩ := h
  exact (Except.ok.inj h).symm

theorem storedAck_some {id : Digest} {actor : ActorId} {commandId : String}
    (h : m.storedAck w id actor commandId = .ok (some a)) : a ∈ m.acks ∧ a.ack.key = (id, actor) := by
  unfold storedAck at h
  simp only [bind_eq_ok] at h
  obtain ⟨_, -, _, -, o, read, h⟩ := h
  cases o with
  | none => cases h
  | some x =>
    simp only [bind_eq_ok] at h
    obtain ⟨y, record, h⟩ := h
    cases h
    rw [storedAckRecord_ok record]
    exact ackRow_some read

theorem Sound.claimAcknowledgement (hs : m.Sound w) (hq : q ∈ m.messages) {actorId : ActorId}
    {commandId : String} {now : Option Instant} {ack : ChannelAck}
    (h : m.claimAcknowledgement w q.message actorId commandId now = .ok (ack, m')) :
    m'.Sound w ∧ m.Grows m' := by
  unfold Mailbox.claimAcknowledgement at h
  simp only [bind_eq_ok] at h
  obtain ⟨o, read, h⟩ := h
  cases o with
  | some stored =>
    simp only [bind_eq_ok] at h
    obtain ⟨_, -, h⟩ := h
    cases h
    exact ⟨hs, .refl hs⟩
  | none =>
    simp only [bind_eq_ok, expect_eq_ok, hs.commandInTransaction] at h
    obtain ⟨command, found, _, valid, t, -, m₁, inserted, h⟩ := h
    cases h
    obtain ⟨fresh, unowned⟩ := storedAck_none read
    obtain ⟨rfl, command', found', -, actor⟩ := insertAck_ok hs.ledger inserted
    have same : command' = command := by
      rw [found] at found'
      exact (Option.some.inj found').symm
    subst same
    have new := hs.addAck (a := ⟨⟨q.message.messageId, actorId, t⟩, commandId⟩) hq
      (validatedChannelCommandAck_ok valid).kind rfl found actor valid fresh unowned
    have grown := hs.grows_add [] [⟨⟨q.message.messageId, actorId, t⟩, commandId⟩] []
    simp only [add, List.append_nil] at new grown
    exact ⟨new, grown⟩

theorem Sound.acknowledge (hs : m.Sound w) {channelId : String} {messageId : Digest}
    {actorId : ActorId} {commandId : String} {now : Option Instant} {ack : ChannelAck}
    (h : m.channelAcknowledge w channelId messageId actorId commandId now = .ok (ack, m')) :
    m'.Sound w ∧ m.Grows m' := by
  unfold channelAcknowledge at h
  simp only [bind_eq_ok, expect_eq_ok] at h
  obtain ⟨o, read, row, rfl, message, fact, _, -, h⟩ := h
  obtain ⟨hr, -⟩ := messageRow_some read
  rw [hs.storedMessageFact hr] at fact
  cases fact
  split_ifs at h with kind
  · simp only [bind_eq_ok] at h
    obtain ⟨_, -, h⟩ := h
    exact hs.claimAcknowledgement hr h
  · exact hs.claimAcknowledgement hr h

/-! ## Replies and approvals -/

theorem requestInTransaction_ok {channelId : String} {requestId : Digest} {request : ChannelMessage}
    {port : String} (h : m.requestInTransaction w channelId requestId = .ok (request, port)) :
    ∃ q ∈ m.messages, q.message = request ∧ request.messageId = requestId ∧
      request.channelId = channelId ∧ request.kind = .request ∧ request.replyPort = some port := by
  unfold requestInTransaction at h
  simp only [bind_eq_ok, expect_eq_ok, require_eq_ok] at h
  obtain ⟨o, read, q, rfl, request', fact, _, ⟨channel, kind⟩, port', hport, h⟩ := h
  cases h
  obtain ⟨hq, id⟩ := messageRow_some read
  have same := (storedRequestFact_ok fact).1
  exact ⟨q, hq, same.symm, same ▸ id, channel, kind, hport⟩

theorem storedReplyInTransaction_none {channelId : String} {requestId : Digest}
    {request : ChannelMessage} {port : String}
    (read : m.requestInTransaction w channelId requestId = .ok (request, port))
    (h : m.storedReplyInTransaction w channelId requestId = .ok none) :
    ∀ x ∈ m.messages, x.message.messageId ≠ w.ids.reply request.messageId port := by
  unfold storedReplyInTransaction at h
  rw [read, ok_bind] at h
  simp only [bind_eq_ok] at h
  obtain ⟨o, row, h⟩ := h
  cases o with
  | none => exact messageRow_none row
  | some x =>
    simp only [bind_eq_ok] at h
    obtain ⟨_, -, h⟩ := h
    cases h

theorem implyAcknowledgement_ok (hl : m.ledger.Sound w.hashing w.ledger)
    (keys : (m.acks.map (fun a => a.ack.key)).Nodup) (owners : (m.acks.map AckRow.commandId).Nodup)
    {id : Digest} {actor : ActorId} {commandId : String} {t : Instant}
    (h : m.implyAcknowledgement w id actor commandId t = .ok m') :
    ∃ acks, m.Implies id actor t commandId acks ∧ m' = m.add [] acks [] := by
  unfold implyAcknowledgement at h
  simp only [bind_eq_ok] at h
  obtain ⟨o, read, h⟩ := h
  cases o with
  | some stored =>
    cases h
    obtain ⟨ha, key⟩ := storedAck_some read
    refine ⟨[], ⟨⟨stored, List.mem_append_left _ ha, key⟩, ?_, ?_, fun a ha => ?_⟩, ?_⟩
    · rwa [List.append_nil]
    · rwa [List.append_nil]
    · cases ha
    · simp [add]
  | none =>
    obtain ⟨fresh, unowned⟩ := storedAck_none read
    obtain ⟨rfl, -⟩ := insertAck_ok hl h
    refine ⟨[⟨⟨id, actor, t⟩, commandId⟩], ⟨⟨_, List.mem_append_right _ (List.mem_singleton_self _),
      rfl⟩, ?_, ?_, fun a ha => List.mem_singleton.mp ha⟩, ?_⟩
    · exact Dict.nodup_map_append keys fresh
    · exact Dict.nodup_map_append owners unowned
    · simp [add]

theorem Sound.replyInTransaction (hs : m.Sound w) {channelId : String} {requestId : Digest}
    {actorId : ActorId} {payload : Json} {commandId : String} {now : Option Instant}
    {reply : ChannelMessage}
    (h : m.replyInTransaction w channelId requestId actorId payload commandId now = .ok (reply, m')) :
    (m' = m ∧ m.storedReplyInTransaction w channelId requestId = .ok (some (reply, commandId))) ∨
    ∃ q ∈ m.messages, ∃ port t acks,
      m.storedReplyInTransaction w channelId requestId = .ok none ∧
      m.requestInTransaction w channelId requestId = .ok (q.message, port) ∧
      (∀ x ∈ m.messages, x.message.messageId ≠ reply.messageId) ∧
      messageForReply w.ids q.message actorId payload t = .ok reply ∧
      m.Implies q.message.messageId actorId t commandId acks ∧
      m' = m.add [⟨reply, none, some commandId⟩] acks [] := by
  unfold Mailbox.replyInTransaction at h
  simp only [bind_eq_ok] at h
  obtain ⟨⟨request, port⟩, read, owned, -, _, -, o, stored, h⟩ := h
  cases o with
  | some fact =>
    obtain ⟨stored', writer⟩ := fact
    simp only [bind_eq_ok, require_eq_ok] at h
    obtain ⟨_, rfl, candidate, -, _, -, h⟩ := h
    cases h
    exact .inl ⟨rfl, stored⟩
  | none =>
    simp only [bind_eq_ok, expect_eq_ok] at h
    obtain ⟨existing, -, _, -, t, -, reply', made, m₁, inserted, m₂, implied, h⟩ := h
    cases h
    unfold insertMessage at inserted
    simp only [bind_eq_ok] at inserted
    obtain ⟨_, -, inserted⟩ := inserted
    cases inserted
    obtain ⟨q, hq, rfl, -, -, -, hport⟩ := requestInTransaction_ok read
    have fresh := storedReplyInTransaction_none read stored
    obtain ⟨port', hport', id⟩ := (messageForReply_ok made).2.2.2.2.2.2.2.1
    rw [hport] at hport'
    cases hport'
    have grown := implyAcknowledgement_ok
      (m := { m with messages := m.messages ++ [⟨reply, none, some commandId⟩] }) hs.ledger hs.ackKeys
      hs.ackOwners implied
    obtain ⟨acks, implies, rfl⟩ := grown
    refine .inr ⟨q, hq, port, t, acks, stored, read, ?_, made, ⟨implies.acked, implies.keys,
      implies.owners, implies.own⟩, ?_⟩
    · rw [id]
      exact fresh
    · simp [add]

theorem messageRow_add (row : MessageRow)
    (fresh : ∀ x ∈ m.messages, x.message.messageId ≠ row.message.messageId) (acks : List AckRow) (approvals : List ApprovalRow) :
    (m.add [row] acks approvals).messageRow row.message.messageId = .ok (some row) := by
  unfold messageRow add
  dsimp only
  rw [List.filter_append, List.filter_eq_nil_iff.mpr fun x hx same => fresh x hx (of_decide_eq_true same)]
  simp [single]

theorem checkReplyPlan_new (hl : m.ledger.Sound w.hashing w.ledger) {request reply : ChannelMessage}
    {commandId : String} {u : Unit}
    (stored : m.messageRow reply.messageId = .ok (some row)) (owned : row.commandId ≠ none)
    (h : m.checkReplyPlan w false request reply commandId = .ok u) :
    ∃ command, m.ledger.commands.get? commandId = some command ∧
      validatedChannelCommandReply w.ids w.human command request reply = .ok () := by
  unfold checkReplyPlan validatedNewChannelCommandReply at h
  simp only [bind_eq_ok, expect_eq_ok, stored] at h
  obtain ⟨o, read, row', same, _, -, h⟩ := h
  cases read
  cases same
  rw [if_neg owned] at h
  simp only [bind_eq_ok, commandInTransaction_iff hl] at h
  obtain ⟨command, found, h⟩ := h
  simp only [Bool.false_eq_true, if_false, bind_eq_ok] at h
  obtain ⟨_, -, h⟩ := h
  exact ⟨command, found, h⟩

theorem Sound.reply (hs : m.Sound w) {channelId : String} {requestId : Digest} {actorId : ActorId}
    {payload : Json} {commandId : String} {now : Option Instant} {reply : ChannelMessage}
    (h : m.channelReply w channelId requestId actorId payload commandId now = .ok (reply, m')) :
    m'.Sound w ∧ m.Grows m' := by
  unfold channelReply at h
  simp only [bind_eq_ok, require_eq_ok, expect_eq_ok] at h
  obtain ⟨⟨request, port⟩, read, _, advice, contract, hcontract, _, coherent, existed, before,
    ⟨reply', m₁⟩, replied, _, check, h⟩ := h
  cases h
  rcases hs.replyInTransaction replied with ⟨rfl, -⟩ |
    ⟨q, hq, port', t, acks, -, read', fresh, made, implies, rfl⟩
  · exact ⟨hs, .refl hs⟩
  · rw [read] at read'
    cases read'
    have absent : existed = none := by
      obtain ⟨-, -, -, -, -, hport⟩ := requestInTransaction_ok read
      obtain ⟨port'', hport', id⟩ := (messageForReply_ok made).2.2.2.2.2.2.2.1
      rw [hport.2] at hport'
      cases hport'
      rw [id] at fresh
      rw [messageRow_absent fresh] at before
      exact (Except.ok.inj before).symm
    subst absent
    have stored := messageRow_add ⟨reply', none, some commandId⟩ fresh acks []
    obtain ⟨command, found, valid⟩ := checkReplyPlan_new
      (m := m.add [⟨reply', none, some commandId⟩] acks []) hs.ledger stored (by simp) check
    have id : command.commandId = commandId := hs.commandId found
    have bound := validatedChannelCommandReply_ok valid
    have actor : actorId = command.actor.actorId := by
      have sender := (messageForReply_ok made).2.2.2.1
      rw [bound.sender] at sender
      exact (Option.some.inj sender).symm
    subst actor
    subst id
    have plain := not_claimsApprovalExchange bound.advice hcontract coherent
    refine ⟨hs.addReply [] hq found fresh made implies ⟨contract, hcontract, coherent⟩
      (.advice plain valid) ?_ ?_ ?_, hs.grows_add _ _ _⟩
    · simpa using hs.approvalIds
    · simpa using hs.approvalOwners
    · intro p hp
      cases hp

end Mailbox

end Constructicon
