import Constructicon.Attestation
import Constructicon.CommandLaw

/-!
# Human decisions

Three commands answer a request: a reply, an acknowledgement and an approval. Their plans
are sealed on the command, and the laws below bind a stored fact to its command, its plan
and its request. A `HumanCodec` reads stored JSON; what is compared is in canonical form,
so that equality is the bytes law.
-/

namespace Constructicon

open Transaction

def adviseScope : String := "constructicon:advise"
def approveScope : String := "constructicon:approve"
def adminScope : String := "constructicon:admin"

def AuthenticatedActor.Allows (actor : AuthenticatedActor) (scope : String) : Prop :=
  adminScope ∈ actor.scopes ∨ scope ∈ actor.scopes

instance (actor : AuthenticatedActor) (scope : String) : Decidable (actor.Allows scope) :=
  inferInstanceAs (Decidable (_ ∨ _))

/-- `INTERACTION_SCOPES` -/
def interactionScope : ChannelInteraction → String
  | .advice => adviseScope
  | .approval => approveScope

/-- Who may act on a request: the scope its interaction names, and its recipient if it has
one. -/
def ChannelAuthorityHolder (request : ChannelMessage) (actor : AuthenticatedActor) : Prop :=
  actor.Allows (interactionScope request.interaction) ∧
    ∀ recipient ∈ request.recipientActorId, recipient = actor.actorId

instance (request : ChannelMessage) (actor : AuthenticatedActor) :
    Decidable (ChannelAuthorityHolder request actor) :=
  inferInstanceAs (Decidable (_ ∧ _))

def replyOperation : String := "channels_reply"
def ackOperation : String := "channels_ack"
def approveOperation : String := "runs_approve"

/-! ## Decisions and plans -/

inductive ApprovalVerdict where
  | approved
  | rejected
deriving DecidableEq, Repr

def ApprovalVerdict.text : ApprovalVerdict → String
  | .approved => "approved"
  | .rejected => "rejected"

/-- One authenticated human decision. The subject is its dump. -/
structure ApprovalRecord where
  approvalId : String
  subject : Json
  decision : ApprovalVerdict
  reason : Option String
  actor : AuthenticatedActor
  runId : RunId
  createdAt : Instant
deriving DecidableEq

structure ChannelReplyPlan extends ChannelReplyProof where
  parkedEventSeq : ℕ
deriving DecidableEq

structure ChannelAckPlan where
  channelId : String
  messageId : Digest
  interaction : ChannelInteraction
  actorId : ActorId
deriving DecidableEq

structure ChannelApprovalPlan where
  approval : ApprovalRecord
  channelId : String
  requestId : Digest
  replyId : Digest
  replyPort : String
  payload : Json
  ackActorId : ActorId
  runId : RunId
  parkedEventSeq : ℕ
deriving DecidableEq

inductive ApprovalCommandPlan where
  | standalone (approval : ApprovalRecord)
  | channel (plan : ChannelApprovalPlan)
deriving DecidableEq

def ApprovalCommandPlan.approval : ApprovalCommandPlan → ApprovalRecord
  | .standalone approval => approval
  | .channel plan => plan.approval

inductive HumanCommandPlan where
  | approval (plan : ApprovalCommandPlan)
  | reply (plan : ChannelReplyPlan)
  | ack (plan : ChannelAckPlan)
deriving DecidableEq

/-- The models stored JSON is read through: each plan from its exact envelope, the subject
an approval request pins, the record an approval reply carries; and the payload and the
approval id derived from a decision. -/
structure HumanCodec where
  approvalPlan : Json → Option ApprovalCommandPlan
  replyPlan : Json → Option ChannelReplyPlan
  ackPlan : Json → Option ChannelAckPlan
  pinnedSubject : Json → Option Json
  decision : Json → Option ApprovalRecord
  decisionPayload : ApprovalRecord → Json
  approvalId : String → Json → String

/-- `set(raw)` of an object. -/
def Json.keySet : Json → Option (Finset String)
  | .obj entries => some (entries.map Prod.fst).toFinset
  | _ => none

/-- `plan_records_a_refusal` -/
def planRecordsARefusal (plan : Json) : Bool :=
  (plan.field "rejection").isSome || planKind plan == some "admission_reject" ||
    planKind plan == some "control_reject"

/-- The stamp of the canonical advice exchange; any other reply is what was answered. -/
def sealedReplyPayload (request : ChannelMessage) (answer : Json) (actorId : ActorId)
    (replyId : Digest) : Json :=
  if request.replyContract = some adviceReplyContract then
    .obj [("actor_id", .str actorId), ("advice", answer), ("message_id", .str replyId),
      ("schema_version", .int 1)]
  else answer

section Laws

variable (ids : ChannelIds) (codec : HumanCodec)

/-- `decoded_human_command_plan` -/
def decodedHumanCommandPlan (command : CommandRecord) :
    Except ChannelError (Option HumanCommandPlan) :=
  if command.operation ∉ [approveOperation, replyOperation, ackOperation] then .ok none
  else match command.plan with
    | none => .error .journalDamaged
    | some raw =>
      if planRecordsARefusal raw then .ok none
      else if command.operation = approveOperation then do
        return some (.approval (← expect (codec.approvalPlan raw) .journalDamaged))
      else if command.operation = replyOperation then do
        return some (.reply (← expect (codec.replyPlan raw) .journalDamaged))
      else do
        return some (.ack (← expect (codec.ackPlan raw) .journalDamaged))

/-! ## Replies -/

/-- Bind a reply plan to its command and the sealed request. -/
def validatedChannelReplyPlan (command : CommandRecord) (plan : ChannelReplyPlan)
    (request : ChannelMessage) : Except ChannelError Unit := do
  require (command.operation = replyOperation ∧ request.interaction = .advice ∧
      ChannelAuthorityHolder request command.actor ∧
      command.request.keySet = some {"message_id", "payload"} ∧
      command.request.field "message_id" = some (.str request.messageId))
    ChannelError.journalDamaged
  let replyPort ← expect request.replyPort .journalDamaged
  let answer ← expect (command.request.field "payload") .journalDamaged
  let replyId := ids.reply request.messageId replyPort
  require (plan.toChannelReplyProof =
      { channelId := request.channelId
        requestId := request.messageId
        interaction := request.interaction
        actorId := command.actor.actorId
        replyId := replyId
        replyPort := replyPort
        payload := sealedReplyPayload request answer command.actor.actorId replyId
        runId := request.envelope.runId })
    ChannelError.journalDamaged

/-- Project one durable reply only through its command plan. -/
def validatedChannelCommandReply (command : CommandRecord) (request reply : ChannelMessage) :
    Except ChannelError Unit := do
  require (command.state ≠ .rejected) ChannelError.journalDamaged
  let raw ← expect command.plan .journalDamaged
  let plan ← expect (codec.replyPlan raw) .journalDamaged
  validatedChannelReplyPlan ids command plan request
  validatedChannelReplyProof ids plan.toChannelReplyProof request reply

/-- A first write comes from a command that is not terminal. -/
def validatedNewChannelCommandReply (command : CommandRecord) (request reply : ChannelMessage) :
    Except ChannelError Unit := do
  require (command.state = .prepared) ChannelError.journalDamaged
  validatedChannelCommandReply ids codec command request reply

/-! ## Acknowledgements -/

/-- `validated_channel_command_ack`, with the plan law it ends in. -/
def validatedChannelCommandAck (command : CommandRecord) (request : ChannelMessage) :
    Except ChannelError Unit := do
  require (command.state ≠ .rejected) ChannelError.journalDamaged
  let raw ← expect command.plan .journalDamaged
  let plan ← expect (codec.ackPlan raw) .journalDamaged
  require (command.operation = ackOperation ∧ request.kind = .request ∧
      request.interaction ∈ ackConsumes ∧ ChannelAuthorityHolder request command.actor ∧
      command.request.keySet = some {"message_id"} ∧
      command.request.field "message_id" = some (.str request.messageId) ∧
      plan = ⟨request.channelId, request.messageId, request.interaction, command.actor.actorId⟩)
    ChannelError.journalDamaged

/-! ## Approvals -/

/-- `_approval_plan_for`: the exact immutable plan that is evidence for one approval. -/
def approvalPlanFor (command : CommandRecord) (approval : ApprovalRecord) :
    Except ChannelError ApprovalCommandPlan := do
  let raw ← expect command.plan .journalDamaged
  let plan ← expect (codec.approvalPlan raw) .journalDamaged
  require (plan.approval = approval) ChannelError.journalDamaged
  return plan

def approvalKeys : Finset String := {"run_id", "subject", "decision", "reason"}

/-- A command that names a request has a request-bound plan, any other a standalone one. -/
def requestBoundPlan (requestId : Option Json) (approval : ApprovalRecord) :
    ApprovalCommandPlan → Except ChannelError Unit
  | .standalone _ => require (requestId = none) .journalDamaged
  | .channel p =>
    require (requestId = some (.str p.requestId) ∧ p.runId = approval.runId ∧
        p.ackActorId = approval.actor.actorId ∧ p.replyId = ids.reply p.requestId p.replyPort ∧
        p.payload = codec.decisionPayload approval)
      .journalDamaged

/-- Bind one governance fact to the lawful command that authored it. -/
def validatedCommandApprovalPlan (command : CommandRecord) (approval : ApprovalRecord) :
    Except ChannelError ApprovalCommandPlan := do
  require (approval.approvalId = codec.approvalId command.commandId approval.subject)
    ChannelError.journalDamaged
  require (command.operation = approveOperation) ChannelError.journalDamaged
  require (command.actor = approval.actor) ChannelError.journalDamaged
  require (command.request.keySet = some approvalKeys ∨
      command.request.keySet = some (insert "request_message_id" approvalKeys))
    ChannelError.journalDamaged
  require (command.request.field "run_id" = some (.str approval.runId) ∧
      command.request.field "subject" = some approval.subject ∧
      command.request.field "decision" = some (.str approval.decision.text) ∧
      command.request.field "reason" = some (approval.reason.elim .null .str))
    ChannelError.journalDamaged
  let plan ← approvalPlanFor codec command approval
  requestBoundPlan ids codec (command.request.field "request_message_id") approval plan
  require (command.state ≠ .rejected) ChannelError.journalDamaged
  return plan

/-- The standalone writer owns a standalone plan. -/
def validatedStandaloneCommandApproval (command : CommandRecord) (approval : ApprovalRecord) :
    Except ChannelError Unit := do
  match ← validatedCommandApprovalPlan ids codec command approval with
  | .standalone _ => pure ()
  | .channel _ => .error .journalDamaged

/-- `_validated_approval_request`: the subject a canonical approval request pins. -/
def validatedApprovalRequest (request : ChannelMessage) : Except ChannelError Json := do
  require (request.kind = .request ∧ request.interaction = .approval ∧
      request.contract = approvalRequestContract ∧
      request.replyContract = some approvalReplyContract ∧ request.replyPort ≠ none)
    ChannelError.journalDamaged
  expect (codec.pinnedSubject request.envelope.payload) .journalDamaged

/-- Bind one typed approval plan to the sealed request it claims. -/
def validatedChannelApprovalPlan (plan : ChannelApprovalPlan) (approval : ApprovalRecord)
    (request : ChannelMessage) : Except ChannelError Unit := do
  let pinned ← validatedApprovalRequest codec request
  require (plan.approval = approval ∧ plan.channelId = request.channelId ∧
      plan.requestId = request.messageId ∧ request.replyPort = some plan.replyPort ∧
      plan.replyId = ids.reply plan.requestId plan.replyPort ∧
      plan.runId = request.envelope.runId ∧ plan.ackActorId = approval.actor.actorId ∧
      plan.payload = codec.decisionPayload approval ∧
      ChannelAuthorityHolder request approval.actor ∧ pinned = approval.subject)
    ChannelError.journalDamaged

/-- Decode a request-bound command plan and bind it to its sealed request. -/
def validatedChannelCommandApproval (command : CommandRecord) (approval : ApprovalRecord)
    (request : ChannelMessage) : Except ChannelError ChannelApprovalPlan := do
  match ← validatedCommandApprovalPlan ids codec command approval with
  | .standalone _ => .error .journalDamaged
  | .channel plan =>
    validatedChannelApprovalPlan ids codec plan approval request
    return plan

/-- The governance record one canonical approval exchange proves. -/
def validatedApprovalReply (request reply : ChannelMessage) : Except ChannelError ApprovalRecord := do
  let _ ← validatedReply ids request reply
  let pinned ← validatedApprovalRequest codec request
  let carried ← expect (codec.decision reply.envelope.payload) .journalDamaged
  require (carried.runId = request.envelope.runId ∧
      reply.senderActorId = some carried.actor.actorId ∧ carried.subject = pinned)
    ChannelError.journalDamaged
  return carried

/-- One command plan, approval, sealed request and reply are one fact. -/
def validatedChannelApprovalExchange (command : CommandRecord) (approval : ApprovalRecord)
    (request reply : ChannelMessage) : Except ChannelError Unit := do
  let plan ← validatedChannelCommandApproval ids codec command approval request
  let carried ← validatedApprovalReply ids codec request reply
  require (carried = approval ∧ plan.replyId = reply.messageId ∧
      reply.senderActorId = some plan.ackActorId ∧ plan.payload = reply.envelope.payload)
    ChannelError.journalDamaged

/-- Whether any sealed request field claims approval semantics. -/
def ClaimsApprovalExchange (request : ChannelMessage) : Prop :=
  request.interaction = .approval ∨ request.contract = approvalRequestContract ∨
    request.replyContract = some approvalReplyContract

instance (request : ChannelMessage) : Decidable (ClaimsApprovalExchange request) :=
  inferInstanceAs (Decidable (_ ∨ _ ∨ _))

/-- `approval_record_for_reply` of a reply that names its command. -/
def approvalRecordForReply (request reply : ChannelMessage) :
    Except ChannelError (Option ApprovalRecord) := do
  require (request.kind = .request) ChannelError.journalDamaged
  let replyContract ← expect request.replyContract .journalDamaged
  require (¬exchangeRefused request.contract replyContract request.interaction)
    ChannelError.journalDamaged
  if ClaimsApprovalExchange request then
    return some (← validatedApprovalReply ids codec request reply)
  else do
    let _ ← validatedReply ids request reply
    return none

/-- Bind one delivery fact to the exchange that produced it. -/
def validatedChannelAckProvenance (command : CommandRecord) (ack : ChannelAck) (commandId : String)
    (request : ChannelMessage) (reply : Option (ChannelMessage × String))
    (approval : Option ApprovalRecord) : Except ChannelError Unit := do
  require (commandId = command.commandId ∧ ack.messageId = request.messageId ∧
      ack.actorId = command.actor.actorId) ChannelError.journalDamaged
  if command.operation = ackOperation then
    validatedChannelCommandAck codec command request
  else do
    let (reply, writer) ← expect reply .journalDamaged
    require (writer = command.commandId) ChannelError.journalDamaged
    require (ack.ackedAt = reply.envelope.createdAt) ChannelError.journalDamaged
    if command.operation = replyOperation then
      validatedChannelCommandReply ids codec command request reply
    else if command.operation = approveOperation then do
      let approval ← expect approval .journalDamaged
      validatedChannelApprovalExchange ids codec command approval request reply
    else .error .journalDamaged

end Laws

/-! ## What the laws bind -/

theorem not_claimsApprovalExchange {request : ChannelMessage} {contract : Contract}
    (advice : request.interaction = .advice) (hcontract : request.replyContract = some contract)
    (coherent : ¬exchangeRefused request.contract contract request.interaction) :
    ¬ClaimsApprovalExchange request := by
  have different : approvalRequestContract ≠ adviceRequestContract ∧
      approvalReplyContract ≠ adviceReplyContract := by decide
  intro claims
  apply coherent
  unfold exchangeRefused canonicalExchanges
  by_cases first : request.contract = adviceRequestContract ∨ contract = adviceReplyContract
  · rw [List.find?_cons_of_pos (by simpa using first)]
    rcases claims with h | h | h
    · rw [advice] at h
      cases h
    · simp [h, different.1]
    · rw [hcontract] at h
      simp [Option.some.inj h, different.2]
  · rw [List.find?_cons_of_neg (by simpa using first)]
    have second : request.contract = approvalRequestContract ∨ contract = approvalReplyContract := by
      rcases claims with h | h | h
      · rw [advice] at h
        cases h
      · exact .inl h
      · rw [hcontract] at h
        exact .inr (Option.some.inj h)
    rw [List.find?_cons_of_pos (by simpa using second)]
    simp [advice]

section Bound

variable {ids : ChannelIds} {codec : HumanCodec} {command command' : CommandRecord}
  {request reply m : ChannelMessage} {approval : ApprovalRecord} {u : Unit}

theorem channelReplyProof_ok {proof : ChannelReplyProof}
    (h : channelReplyProof ids request reply = .ok proof) :
    validatedReply ids request reply = .ok reply ∧ proof.requestId = request.messageId ∧
      proof.replyId = reply.messageId ∧ reply.senderActorId = some proof.actorId ∧
      proof.payload = reply.envelope.payload := by
  unfold channelReplyProof at h
  simp only [bind_eq_ok, expect_eq_ok] at h
  obtain ⟨v, valid, port, -, sender, hsender, h⟩ := h
  cases h
  have same := (validatedReply_ok valid).1
  exact ⟨same ▸ valid, rfl, rfl, hsender, rfl⟩

/-- A stored reply was planned by a reply command of its sender, which holds the authority of
an advice request. -/
structure ReplyBound (codec : HumanCodec) (command : CommandRecord) (request reply : ChannelMessage) :
    Prop where
  live : command.state ≠ .rejected
  operation : command.operation = replyOperation
  advice : request.interaction = .advice
  holder : ChannelAuthorityHolder request command.actor
  planned : ∃ raw plan, command.plan = some raw ∧ codec.replyPlan raw = some plan ∧
    plan.requestId = request.messageId ∧ plan.replyId = reply.messageId ∧
    plan.actorId = command.actor.actorId ∧ plan.payload = reply.envelope.payload
  sender : reply.senderActorId = some command.actor.actorId

theorem validatedChannelCommandReply_ok
    (h : validatedChannelCommandReply ids codec command request reply = .ok u) :
    ReplyBound codec command request reply := by
  unfold validatedChannelCommandReply validatedChannelReplyPlan validatedChannelReplyProof at h
  simp only [bind_eq_ok, expect_eq_ok, require_eq_ok] at h
  obtain ⟨-, live, raw, hraw, plan, decoded, -, ⟨-, ⟨operation, advice, holder, -, -⟩, port, -,
    answer, -, exact⟩, proof, proved, same⟩ := h
  obtain ⟨-, requestId, replyId, sender, payload⟩ := channelReplyProof_ok proved
  rw [← same] at requestId replyId sender payload
  have actor : plan.actorId = command.actor.actorId := congrArg ChannelReplyProof.actorId exact
  rw [actor] at sender
  exact ⟨live, operation, advice, holder, ⟨raw, plan, hraw, decoded, requestId, replyId, actor,
    payload⟩, sender⟩

/-- An acknowledgement was planned by an acknowledgement command that holds the authority of
its request. -/
structure AckBound (codec : HumanCodec) (command : CommandRecord) (request : ChannelMessage) :
    Prop where
  live : command.state ≠ .rejected
  operation : command.operation = ackOperation
  kind : request.kind = .request
  holder : ChannelAuthorityHolder request command.actor
  planned : ∃ raw plan, command.plan = some raw ∧ codec.ackPlan raw = some plan ∧
    plan.messageId = request.messageId ∧ plan.actorId = command.actor.actorId

theorem validatedChannelCommandAck_ok
    (h : validatedChannelCommandAck codec command request = .ok u) :
    AckBound codec command request := by
  unfold validatedChannelCommandAck at h
  simp only [bind_eq_ok, expect_eq_ok, require_eq_ok] at h
  obtain ⟨-, live, raw, hraw, plan, decoded, operation, kind, -, holder, -, -, exact⟩ := h
  subst exact
  exact ⟨live, operation, kind, holder, ⟨raw, _, hraw, decoded, rfl, rfl⟩⟩

/-- What a stored approval says of its command. -/
structure ApprovalBound (codec : HumanCodec) (command : CommandRecord) (approval : ApprovalRecord)
    (plan : ApprovalCommandPlan) : Prop where
  live : command.state ≠ .rejected
  operation : command.operation = approveOperation
  actor : command.actor = approval.actor
  id : approval.approvalId = codec.approvalId command.commandId approval.subject
  planned : ∃ raw, command.plan = some raw ∧ codec.approvalPlan raw = some plan
  approval : plan.approval = approval

theorem validatedCommandApprovalPlan_ok {plan : ApprovalCommandPlan}
    (h : validatedCommandApprovalPlan ids codec command approval = .ok plan) :
    ApprovalBound codec command approval plan := by
  unfold validatedCommandApprovalPlan approvalPlanFor at h
  simp only [bind_eq_ok, expect_eq_ok, require_eq_ok] at h
  obtain ⟨-, id, -, operation, -, actor, -, -, -, -, plan', ⟨raw, hraw, plan'', decoded, -, same, e⟩,
    -, -, -, live, h⟩ := h
  cases e
  cases h
  exact ⟨live, operation, actor, id, ⟨raw, hraw, decoded⟩, same⟩

/-- The plan, the approval and the reply of one decision agree with its request. -/
structure ExchangeBound (codec : HumanCodec) (command : CommandRecord) (approval : ApprovalRecord)
    (request reply : ChannelMessage) (plan : ChannelApprovalPlan) : Prop where
  bound : ApprovalBound codec command approval (.channel plan)
  interaction : request.interaction = .approval
  pinned : codec.pinnedSubject request.envelope.payload = some approval.subject
  run : approval.runId = request.envelope.runId
  planRun : plan.runId = request.envelope.runId
  requestId : plan.requestId = request.messageId
  replyId : plan.replyId = reply.messageId
  payload : reply.envelope.payload = codec.decisionPayload approval
  planPayload : plan.payload = codec.decisionPayload approval
  carried : codec.decision reply.envelope.payload = some approval
  sender : reply.senderActorId = some approval.actor.actorId
  ackActor : plan.ackActorId = approval.actor.actorId
  holder : ChannelAuthorityHolder request approval.actor

theorem validatedChannelApprovalExchange_ok
    (h : validatedChannelApprovalExchange ids codec command approval request reply = .ok u) :
    validatedReply ids request reply = .ok reply ∧
      ∃ plan, validatedCommandApprovalPlan ids codec command approval = .ok (.channel plan) ∧
        ExchangeBound codec command approval request reply plan := by
  unfold validatedChannelApprovalExchange validatedChannelCommandApproval validatedApprovalReply at h
  simp only [bind_eq_ok, expect_eq_ok, require_eq_ok] at h
  obtain ⟨plan, ⟨plan', valid, split⟩, carried, ⟨v, isReply, pinned, request', carried', decoded, -,
    ⟨run, sender, subject⟩, e⟩, same, replyId, ackActor, payload⟩ := h
  cases e
  subst same
  cases plan' with
  | standalone a => cases split
  | channel p =>
    simp only [bind_eq_ok] at split
    obtain ⟨_, boundTo, e⟩ := split
    cases e
    unfold validatedChannelApprovalPlan validatedApprovalRequest at boundTo
    unfold validatedApprovalRequest at request'
    simp only [bind_eq_ok, expect_eq_ok, require_eq_ok] at boundTo request'
    obtain ⟨-, ⟨-, interaction, -⟩, pinned'⟩ := request'
    obtain ⟨pinned'', ⟨-, -, found⟩, -, -, requestId, -, -, planRun, ack, planPayload, holder, -⟩ :=
      boundTo
    have isReply' := (validatedReply_ok isReply).1
    exact ⟨isReply' ▸ isReply, plan, valid, validatedCommandApprovalPlan_ok valid, interaction,
      subject ▸ pinned', run, planRun, requestId, replyId, payload.symm.trans planPayload,
      planPayload, decoded, sender, ack, holder⟩

theorem validatedChannelApprovalExchange_carried
    (h : validatedChannelApprovalExchange ids codec command approval request reply = .ok u) :
    validatedApprovalReply ids codec request reply = .ok approval := by
  unfold validatedChannelApprovalExchange at h
  simp only [bind_eq_ok, require_eq_ok] at h
  obtain ⟨-, -, carried, h, same, -⟩ := h
  rw [h, same]

end Bound

/-! ## A command that goes on -/

section Continues

variable {ids : ChannelIds} {codec : HumanCodec} {command command' : CommandRecord}
  {request reply : ChannelMessage} {approval : ApprovalRecord} {u : Unit}

theorem validatedChannelCommandReply_continues (c : command.Continues command')
    (live : command'.state ≠ .rejected)
    (h : validatedChannelCommandReply ids codec command request reply = .ok u) :
    validatedChannelCommandReply ids codec command' request reply = .ok u := by
  obtain ⟨-, actor, operation, -, -⟩ := c.identity
  unfold validatedChannelCommandReply validatedChannelReplyPlan at h ⊢
  simp only [bind_eq_ok, expect_eq_ok] at h ⊢
  obtain ⟨-, -, raw, hraw, rest⟩ := h
  refine ⟨(), require_of live, raw, c.plan raw hraw, ?_⟩
  rw [actor, operation, c.request.2]
  exact rest

theorem validatedChannelCommandAck_continues (c : command.Continues command')
    (live : command'.state ≠ .rejected)
    (h : validatedChannelCommandAck codec command request = .ok u) :
    validatedChannelCommandAck codec command' request = .ok u := by
  obtain ⟨-, actor, operation, -, -⟩ := c.identity
  unfold validatedChannelCommandAck at h ⊢
  simp only [bind_eq_ok, expect_eq_ok] at h ⊢
  obtain ⟨-, -, raw, hraw, rest⟩ := h
  refine ⟨(), require_of live, raw, c.plan raw hraw, ?_⟩
  rw [actor, operation, c.request.2]
  exact rest

theorem validatedCommandApprovalPlan_continues {plan : ApprovalCommandPlan}
    (c : command.Continues command') (live : command'.state ≠ .rejected)
    (h : validatedCommandApprovalPlan ids codec command approval = .ok plan) :
    validatedCommandApprovalPlan ids codec command' approval = .ok plan := by
  obtain ⟨id, actor, operation, -, -⟩ := c.identity
  unfold validatedCommandApprovalPlan approvalPlanFor at h ⊢
  rw [id, actor, operation, c.request.2]
  simp only [bind_eq_ok, expect_eq_ok] at h ⊢
  obtain ⟨_, h₁, _, h₂, _, h₃, _, h₄, _, h₅, plan', ⟨raw, hraw, rest⟩, _, h₆, _, _, e⟩ := h
  exact ⟨(), h₁, (), h₂, (), h₃, (), h₄, (), h₅, plan', ⟨raw, c.plan raw hraw, rest⟩, (), h₆, (),
    require_of live, e⟩

theorem validatedChannelApprovalExchange_continues (c : command.Continues command')
    (live : command'.state ≠ .rejected)
    (h : validatedChannelApprovalExchange ids codec command approval request reply = .ok u) :
    validatedChannelApprovalExchange ids codec command' approval request reply = .ok u := by
  unfold validatedChannelApprovalExchange validatedChannelCommandApproval at h ⊢
  simp only [bind_eq_ok] at h ⊢
  obtain ⟨plan, ⟨plan', valid, split⟩, rest⟩ := h
  exact ⟨plan, ⟨plan', validatedCommandApprovalPlan_continues c live valid, split⟩, rest⟩

end Continues

end Constructicon
