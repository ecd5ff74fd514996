import Constructicon.InProcessCalls
import Constructicon.MailboxRuns

/-!
# One indivisible exchange

A human decision is a reply, the acknowledgement of its sender and, when its request claims
approval semantics, one approval, all of the one command that decided. Whatever commands
race for a request, a command that lost has no fact of its own.
-/

namespace Constructicon

open Transaction

namespace Mailbox

variable (w : MailWire) (m : Mailbox)

def PlansApproval (command : CommandRecord) (plan : ChannelApprovalPlan) : Prop :=
  m.ledger.commands.get? command.commandId = some command ∧ command.operation = approveOperation ∧
    ∃ raw, command.plan = some raw ∧ w.human.approvalPlan raw = some (.channel plan)

def PlansReply (command : CommandRecord) (plan : ChannelReplyPlan) : Prop :=
  m.ledger.commands.get? command.commandId = some command ∧ command.operation = replyOperation ∧
    ∃ raw, command.plan = some raw ∧ w.human.replyPlan raw = some plan

def Decider (command : CommandRecord) (requestId : Digest) : Prop :=
  (∃ plan, m.PlansApproval w command plan ∧ plan.requestId = requestId) ∨
    ∃ plan, m.PlansReply w command plan ∧ plan.requestId = requestId

/-- The request, the approval, the reply and the plan of one decision are one fact. -/
structure OneFact (command : CommandRecord) (plan : ChannelApprovalPlan) (request : ChannelMessage)
    (approval : ApprovalRecord) (reply : ChannelMessage) : Prop where
  answers : plan.requestId = request.messageId ∧ reply.replyTo = some request.messageId ∧
    reply.messageId = plan.replyId
  planned : plan.approval = approval
  carried : w.human.decision reply.envelope.payload = some approval
  payload : reply.envelope.payload = w.human.decisionPayload approval ∧
    plan.payload = reply.envelope.payload
  subject : w.human.pinnedSubject request.envelope.payload = some approval.subject
  run : approval.runId = request.envelope.runId ∧ plan.runId = request.envelope.runId ∧
    reply.envelope.runId = request.envelope.runId
  actor : command.actor = approval.actor ∧ reply.senderActorId = some approval.actor.actorId ∧
    plan.ackActorId = approval.actor.actorId
  acked : ∃ a ∈ m.acks, a.ack.key = (request.messageId, approval.actor.actorId)

structure ExchangeLaw : Prop where
  oneReply : ∀ r ∈ m.messages, ∀ r' ∈ m.messages, ∀ id, r.message.replyTo = some id →
    r'.message.replyTo = some id → r = r'
  answered : ∀ r ∈ m.messages, ∀ id, r.message.replyTo = some id →
    ∃ q ∈ m.messages, q.message.messageId = id ∧ ∃ command, r.commandId = some command.commandId ∧
      m.ledger.commands.get? command.commandId = some command ∧
      (ClaimsApprovalExchange q.message → command.operation = approveOperation) ∧
      (¬ClaimsApprovalExchange q.message → command.operation = replyOperation)
  whole : ∀ command plan, m.PlansApproval w command plan →
    ((∃ p ∈ m.approvals, p.commandId = command.commandId) ↔
      ∃ r ∈ m.messages, r.commandId = some command.commandId)
  agree : ∀ command plan, m.PlansApproval w command plan → ∀ p ∈ m.approvals,
    p.commandId = command.commandId → ∃ q ∈ m.messages, ∃ r ∈ m.messages,
      r.commandId = some command.commandId ∧
        m.OneFact w command plan q.message p.approval r.message
  lost : ∀ command id, m.Decider w command id → ∀ r ∈ m.messages, r.message.replyTo = some id →
    r.commandId ≠ some command.commandId → ¬m.Owns command.commandId
  refused : ∀ id r, m.ledger.commands.get? id = some r → r.state = .rejected → ¬m.Owns id

variable {w m} {command : CommandRecord} {plan : ChannelApprovalPlan} {row request : MessageRow}

/-! ## The facts of one command -/

theorem Sound.exchanged (hs : m.Sound w) (hr : row ∈ m.messages)
    (owner : row.commandId = some command.commandId)
    (found : m.ledger.commands.get? command.commandId = some command) :
    ∃ request, m.Exchanged w row request command := by
  have kind : row.message.kind = .reply := by
    have lawful := hs.lawful hr
    unfold MessageRow.Lawful at lawful
    cases kind : row.message.kind with
    | reply => rfl
    | request =>
      rw [kind] at lawful
      rw [lawful.2] at owner
      cases owner
  obtain ⟨request, command', exchanged⟩ := hs.replies row hr kind
  have same : command' = command := by
    have id := exchanged.writer
    rw [owner] at id
    have found' := exchanged.found
    rw [← Option.some.inj id, found] at found'
    exact (Option.some.inj found').symm
  exact ⟨request, same ▸ exchanged⟩

theorem Sound.approval_of_reply (hs : m.Sound w) (plans : m.PlansApproval w command plan)
    (hr : row ∈ m.messages) (owner : row.commandId = some command.commandId) :
    ∃ request, m.Exchanged w row request command ∧ ∃ p ∈ m.approvals,
      p.commandId = command.commandId ∧
      ExchangeBound w.human command p.approval request.message row.message plan := by
  obtain ⟨found, operation, raw, hraw, decoded⟩ := plans
  obtain ⟨request, exchanged⟩ := hs.exchanged hr owner found
  refine ⟨request, exchanged, ?_⟩
  cases exchanged.decides with
  | advice plain valid =>
    have reply := (validatedChannelCommandReply_ok valid).operation
    rw [operation] at reply
    exact absurd reply (by decide)
  | approval claims p stored own valid =>
    obtain ⟨-, plan', -, bound⟩ := validatedChannelApprovalExchange_ok valid
    obtain ⟨raw', hraw', decoded'⟩ := bound.bound.planned
    rw [hraw] at hraw'
    cases hraw'
    rw [decoded] at decoded'
    cases decoded'
    exact ⟨p, stored, own, bound⟩

theorem Sound.reply_of_approval (hs : m.Sound w) (plans : m.PlansApproval w command plan)
    {p : ApprovalRow} (hp : p ∈ m.approvals) (owner : p.commandId = command.commandId) :
    ∃ r ∈ m.messages, r.commandId = some command.commandId := by
  obtain ⟨found, -, raw, hraw, decoded⟩ := plans
  obtain ⟨command', plan', minted⟩ := hs.approvals p hp
  have same := minted.found
  rw [owner, found] at same
  cases same
  obtain ⟨raw', hraw', decoded'⟩ := (validatedCommandApprovalPlan_ok minted.valid).planned
  rw [hraw] at hraw'
  cases hraw'
  rw [decoded] at decoded'
  cases decoded'
  rw [← owner]
  exact minted.replied plan rfl

theorem Exchanged.run (h : m.Exchanged w row request command) :
    row.message.envelope.runId = request.message.envelope.runId := by
  obtain ⟨-, -, sender, -, -, made⟩ := validatedReply_ok h.made
  unfold messageForReply at made
  simp only [bind_eq_ok] at made
  obtain ⟨_, -, contract, -, port, -, _, -, made⟩ := made
  rw [← Except.ok.inj made]

theorem Exchanged.oneFact (h : m.Exchanged w row request command) {p : ApprovalRow}
    (bound : ExchangeBound w.human command p.approval request.message row.message plan) :
    m.OneFact w command plan request.message p.approval row.message where
  answers := ⟨bound.requestId, h.kinds.2.2, bound.replyId.symm⟩
  planned := bound.bound.approval
  carried := bound.carried
  payload := ⟨bound.payload, bound.planPayload.trans bound.payload.symm⟩
  subject := bound.pinned
  run := ⟨bound.run, bound.planRun, h.run⟩
  actor := ⟨bound.bound.actor, bound.sender, bound.ackActor⟩
  acked := by
    obtain ⟨a, ha, sender, message⟩ := h.acked
    rw [bound.sender] at sender
    exact ⟨a, ha, Prod.ext message (Option.some.inj sender).symm⟩

/-! ## Losers -/

theorem Sound.decider_answers (hs : m.Sound w) {id : Digest} (decider : m.Decider w command id)
    (hr : row ∈ m.messages) (owner : row.commandId = some command.commandId) :
    row.message.replyTo = some id := by
  rcases decider with ⟨plan, plans, rfl⟩ | ⟨plan, ⟨found, operation, raw, hraw, decoded⟩, rfl⟩
  · obtain ⟨request, exchanged, p, -, -, bound⟩ := hs.approval_of_reply plans hr owner
    rw [exchanged.kinds.2.2, bound.requestId]
  · obtain ⟨request, exchanged⟩ := hs.exchanged hr owner found
    cases exchanged.decides with
    | advice plain valid =>
      obtain ⟨raw', plan', hraw', decoded', requestId, -⟩ :=
        (validatedChannelCommandReply_ok valid).planned
      rw [hraw] at hraw'
      cases hraw'
      rw [decoded] at decoded'
      cases decoded'
      rw [exchanged.kinds.2.2, requestId]
    | approval claims p stored own valid =>
      obtain ⟨-, plan', -, bound⟩ := validatedChannelApprovalExchange_ok valid
      have approve := bound.bound.operation
      rw [operation] at approve
      exact absurd approve (by decide)

theorem Sound.decider_replied (hs : m.Sound w) {id : Digest} (decider : m.Decider w command id)
    (owns : m.Owns command.commandId) : ∃ r ∈ m.messages, r.commandId = some command.commandId := by
  rcases owns with replied | ⟨a, ha, owner⟩ | ⟨p, hp, owner⟩
  · exact replied
  · obtain ⟨request, command', observed⟩ := hs.acks a ha
    rcases observed.source with valid | ⟨r, hr, writer, -⟩
    · have ack := (validatedChannelCommandAck_ok valid).operation
      have found := observed.found
      rcases decider with ⟨plan, plans, -⟩ | ⟨plan, plans, -⟩
      · rw [owner, plans.1] at found
        cases found
        rw [plans.2.1] at ack
        exact absurd ack (by decide)
      · rw [owner, plans.1] at found
        cases found
        rw [plans.2.1] at ack
        exact absurd ack (by decide)
    · exact ⟨r, hr, owner ▸ writer⟩
  · rcases decider with ⟨plan, plans, -⟩ | ⟨plan, plans, -⟩
    · exact hs.reply_of_approval plans hp owner
    · obtain ⟨command', plan', minted⟩ := hs.approvals p hp
      have found := minted.found
      rw [owner, plans.1] at found
      cases found
      have approve := (validatedCommandApprovalPlan_ok minted.valid).operation
      rw [plans.2.1] at approve
      exact absurd approve (by decide)

theorem Sound.exchangeLaw (hs : m.Sound w) : m.ExchangeLaw w where
  oneReply := fun r hr r' hr' id => hs.reply_unique hr hr'
  answered := by
    intro r hr id answers
    obtain ⟨q, command, exchanged⟩ := hs.replies r hr (hs.kind_of_replyTo hr answers)
    have qid := exchanged.kinds.2.2
    rw [answers] at qid
    refine ⟨q, exchanged.stored, (Option.some.inj qid).symm, command, exchanged.writer,
      exchanged.found, ?_⟩
    cases exchanged.decides with
    | advice plain valid =>
      exact ⟨fun claims => absurd claims plain,
        fun _ => (validatedChannelCommandReply_ok valid).operation⟩
    | approval claims p stored own valid =>
      obtain ⟨-, plan', -, bound⟩ := validatedChannelApprovalExchange_ok valid
      exact ⟨fun _ => bound.bound.operation, fun plain => absurd claims plain⟩
  whole := by
    intro command plan plans
    constructor
    · rintro ⟨p, hp, owner⟩
      exact hs.reply_of_approval plans hp owner
    · rintro ⟨r, hr, owner⟩
      obtain ⟨-, -, p, hp, own, -⟩ := hs.approval_of_reply plans hr owner
      exact ⟨p, hp, own⟩
  agree := by
    intro command plan plans p hp own
    obtain ⟨r, hr, owner⟩ := hs.reply_of_approval plans hp own
    obtain ⟨q, exchanged, p', hp', own', bound⟩ := hs.approval_of_reply plans hr owner
    have same : p' = p := Dict.eq_of_nodup_map hs.approvalOwners hp' hp (own'.trans own.symm)
    subst same
    exact ⟨q, exchanged.stored, r, hr, owner, exchanged.oneFact bound⟩
  lost := by
    intro command id decider r hr answers other owns
    obtain ⟨r', hr', owner⟩ := hs.decider_replied decider owns
    have same := hs.reply_unique hr hr' answers (hs.decider_answers decider hr' owner)
    rw [same] at other
    exact other owner
  refused := fun _ _ found rejected owns => hs.live owns found rejected

end Mailbox

/-- Whatever transactions commit, in whatever order, decisions are whole. -/
theorem decisions_are_whole {w : MailWire} {m : Mailbox}
    (run : Reaches (Mailbox.step w) Mailbox.empty m) : m.ExchangeLaw w :=
  (Mailbox.reachable_sound run).exchangeLaw

section Example

def alice : AuthenticatedActor where
  actorId := "alice"
  authMethod := .static
  scopes := {approveScope}

def gitSubject : Json :=
  .obj [("base", .null), ("commit", .str "c0ffee"), ("kind", .str "git"), ("repository", .str "repo"),
    ("tested_tree", .null)]

def approvalIntent : ChannelSendIntent where
  messageId := "qask"
  channelId := "channel"
  channelRevision := "1"
  lane := "lane"
  interaction := .approval
  recipientActorId := none
  contract := approvalRequestContract
  replyContract := approvalReplyContract
  runId := "run"
  path := ⟨[], []⟩
  port := "ask"
  replyPort := "decision"
  payload := .obj [("schema_version", .int 1), ("subject", gitSubject)]

def sendAttestation : Attestation where
  action := .send
  subject := .send (channelSendSubject (fun _ => "sha256:payload") approvalIntent)
  checks := [.of "channel" .passed "" "0"]
  checkSetHash := "sha256:checks"
  manifestHash := "sha256:manifest"
  attestationId := "attestation"
  createdByRun := some "run"
  createdAt := 0

def approveRequest : ClaimRequest where
  actor := alice
  operation := approveOperation
  idempotencyKey := "k"
  requestHash := "sha256:control-request"
  request := .obj [("decision", .str "approved"), ("reason", .null),
    ("request_message_id", .str "qask"), ("run_id", .str "run"), ("subject", gitSubject)]
  ownerId := "worker"
  ttl := 30

def aliceApproval : ApprovalRecord where
  approvalId := "approval-" ++ approveRequest.commandId domainHashing
  subject := gitSubject
  decision := .approved
  reason := none
  actor := alice
  runId := "run"
  createdAt := 2

def approvalDump (a : ApprovalRecord) : Json :=
  .obj [("actor", .obj [("actor_id", .str a.actor.actorId), ("auth_method", .str "static"),
      ("client_id", .null), ("display_name", .null), ("issuer", .null),
      ("scopes", .arr [.str approveScope]), ("subject", .null)]),
    ("approval_id", .str a.approvalId), ("created_at", .str "1970-01-01T00:00:00.000002Z"),
    ("decision", .str a.decision.text), ("reason", .null), ("run_id", .str a.runId),
    ("subject", a.subject)]

def alicePlan : ChannelApprovalPlan where
  approval := aliceApproval
  channelId := "channel"
  requestId := "qask"
  replyId := "rqask"
  replyPort := "decision"
  payload := .obj [("approval", approvalDump aliceApproval), ("schema_version", .int 1)]
  ackActorId := "alice"
  runId := "run"
  parkedEventSeq := 4

def alicePlanDump : Json :=
  .obj [("plan", .obj [("ack_actor_id", .str "alice"), ("approval", approvalDump aliceApproval),
      ("channel_id", .str "channel"), ("kind", .str "channel_approval"), ("parked_event_seq", .int 4),
      ("payload", alicePlan.payload), ("reply_id", .str "rqask"), ("reply_port", .str "decision"),
      ("request_id", .str "qask"), ("run_id", .str "run")]),
    ("schema_version", .int 1)]

def aliceCodec : HumanCodec where
  approvalPlan := fun raw => if raw = alicePlanDump then some (.channel alicePlan) else none
  replyPlan := fun _ => none
  ackPlan := fun _ => none
  pinnedSubject := fun payload => payload.field "subject"
  decision := fun payload => if payload = alicePlan.payload then some aliceApproval else none
  decisionPayload := fun a => .obj [("approval", approvalDump a), ("schema_version", .int 1)]
  approvalId := fun command _ => "approval-" ++ command

def aliceWire : MailWire := ⟨domainHashing, plainCodec, aliceCodec, plainIds, fun _ => "sha256:payload"⟩

def decisionCalls : List MailCall :=
  [.startRun "run" "sha256:manifest", .attest sendAttestation,
    .appendRequest "channel" approvalIntent "attestation" (some 1), .claim 2 approveRequest,
    .plan 3 (approveRequest.claimAt domainHashing 2 1) alicePlanDump,
    .storeApprovalExchange (approveRequest.claimAt domainHashing 2 1) aliceApproval "channel" "qask"
      alicePlan.payload (some 4)]

def decided : Mailbox := decisionCalls.foldl (Mailbox.step aliceWire) .empty

theorem decision_is_whole :
    decided.messages.length = 2 ∧ decided.acks.length = 1 ∧ decided.approvals.length = 1 ∧
      decided.ExchangeLaw aliceWire :=
  ⟨by decide, by decide, by decide, decisions_are_whole ⟨decisionCalls, rfl⟩⟩

end Example

end Constructicon
