import Constructicon.Atomic
import Constructicon.Journal

/-!
# Channel messages

One exact request from a sealed invocation to a participant, and one authenticated reply
back. Identities are derived: `ChannelIds` stands for the two digest laws, which do not
collide. Payloads are in canonical form, so that equality of messages is the bytes law of
`same_message`.
-/

namespace Constructicon

open Transaction

abbrev ActorId := String

inductive ChannelMessageKind where
  | request
  | reply
deriving DecidableEq, Repr

structure Envelope where
  runId : RunId
  path : ExecutionPath
  port : String
  createdAt : Instant
  payload : Json
deriving DecidableEq

structure ChannelSendIntent where
  messageId : Digest
  channelId : String
  channelRevision : String
  lane : String
  interaction : ChannelInteraction
  recipientActorId : Option ActorId
  contract : Contract
  replyContract : Contract
  runId : RunId
  path : ExecutionPath
  port : String
  replyPort : String
  payload : Json
deriving DecidableEq

structure ChannelMessage where
  messageId : Digest
  channelId : String
  lane : String
  interaction : ChannelInteraction
  kind : ChannelMessageKind
  replyTo : Option Digest
  recipientActorId : Option ActorId
  senderActorId : Option ActorId
  contract : Contract
  replyContract : Option Contract
  replyPort : Option String
  envelope : Envelope
deriving DecidableEq

structure ChannelAck where
  messageId : Digest
  actorId : ActorId
  ackedAt : Instant
deriving DecidableEq, Repr

def ChannelAck.key (a : ChannelAck) : Digest × ActorId := (a.messageId, a.actorId)

instance (key : Digest × ActorId) (keys : List (Digest × ActorId)) : Decidable (key ∈ keys) :=
  List.instDecidableMemOfLawfulBEq key keys

structure ChannelRevision where
  messageSeq : ℕ
  ackSeq : ℕ
deriving DecidableEq, Repr

structure ChannelDelivery where
  messageSeq : ℕ
  message : ChannelMessage
  acknowledged : Bool
deriving DecidableEq

inductive ChannelError where
  | contractViolation
  | journalDamaged
  | replyConflict
  | ackConflict
  | invalidRevision
  | valueError
  | clockFailure
deriving DecidableEq, Repr

/-- `request_message_id` and `reply_message_id`: digests of two families, without collisions. -/
structure ChannelIds where
  request : ChannelSendIntent → Digest
  reply : Digest → String → Digest
  apart : ∀ intent id port, reply id port ≠ request intent
  injective : ∀ {request request' : Digest} {port port' : String},
    reply request port = reply request' port' → request = request'

/-- `REPLY_CONSUMES` -/
def replyConsumes : List ChannelInteraction := [.advice]

/-- `ACK_CONSUMES` -/
def ackConsumes : List ChannelInteraction := [.advice, .approval]

section Messages

variable (ids : ChannelIds)

def messageForIntent (intent : ChannelSendIntent) (createdAt : Instant) :
    Except ChannelError ChannelMessage := do
  require (ids.request intent = intent.messageId) ChannelError.contractViolation
  return {
    messageId := intent.messageId
    channelId := intent.channelId
    lane := intent.lane
    interaction := intent.interaction
    kind := .request
    replyTo := none
    recipientActorId := intent.recipientActorId
    senderActorId := none
    contract := intent.contract
    replyContract := some intent.replyContract
    replyPort := some intent.replyPort
    envelope := ⟨intent.runId, intent.path, intent.port, createdAt, intent.payload⟩ }

def messageForReply (request : ChannelMessage) (actorId : ActorId) (payload : Json)
    (createdAt : Instant) : Except ChannelError ChannelMessage := do
  require (request.kind = .request) ChannelError.contractViolation
  let replyContract ← expect request.replyContract .contractViolation
  let replyPort ← expect request.replyPort .contractViolation
  require (∀ recipient ∈ request.recipientActorId, actorId = recipient) ChannelError.contractViolation
  return {
    messageId := ids.reply request.messageId replyPort
    channelId := request.channelId
    lane := request.lane
    interaction := request.interaction
    kind := .reply
    replyTo := some request.messageId
    recipientActorId := none
    senderActorId := some actorId
    contract := replyContract
    replyContract := none
    replyPort := none
    envelope := ⟨request.envelope.runId, request.envelope.path, replyPort, createdAt, payload⟩ }

/-- Refuse a stored reply that is not the one this request admits. -/
def validatedReply (request reply : ChannelMessage) : Except ChannelError ChannelMessage := do
  require (reply.kind = .reply) ChannelError.journalDamaged
  let sender ← expect reply.senderActorId .journalDamaged
  require (reply.replyTo = some request.messageId) ChannelError.journalDamaged
  let expected ← messageForReply ids request sender reply.envelope.payload reply.envelope.createdAt
  require (reply = expected) ChannelError.journalDamaged
  return reply

/-- The reply-shaped fact retained beside its evidence. -/
structure ChannelReplyProof where
  channelId : String
  requestId : Digest
  interaction : ChannelInteraction
  actorId : ActorId
  replyId : Digest
  replyPort : String
  payload : Json
  runId : RunId
deriving DecidableEq

def channelReplyProof (request reply : ChannelMessage) : Except ChannelError ChannelReplyProof := do
  let _ ← validatedReply ids request reply
  let replyPort ← expect request.replyPort .journalDamaged
  let sender ← expect reply.senderActorId .journalDamaged
  return {
    channelId := request.channelId
    requestId := request.messageId
    interaction := request.interaction
    actorId := sender
    replyId := reply.messageId
    replyPort := replyPort
    payload := reply.envelope.payload
    runId := request.envelope.runId }

def validatedChannelReplyProof (proof : ChannelReplyProof) (request reply : ChannelMessage) :
    Except ChannelError Unit := do
  let expected ← channelReplyProof ids request reply
  require (proof = expected) ChannelError.journalDamaged

end Messages

/-- Whether this actor may find this message in an inbox. -/
def DiscoverableBy (message : ChannelMessage) (actorId : ActorId) : Prop :=
  match message.recipientActorId with
  | some recipient => recipient = actorId
  | none => message.kind = .request

instance (message : ChannelMessage) (actorId : ActorId) : Decidable (DiscoverableBy message actorId) :=
  decidable_of_iff
    ((∃ r ∈ message.recipientActorId, r = actorId) ∨
      message.recipientActorId = none ∧ message.kind = .request) <| by
    unfold DiscoverableBy
    cases message.recipientActorId <;> simp

/-! ## What a message is -/

section Shapes

variable {ids : ChannelIds} {intent : ChannelSendIntent} {request reply m : ChannelMessage}
  {actorId : ActorId} {payload : Json} {at' : Instant}

theorem messageForIntent_ok (h : messageForIntent ids intent at' = .ok m) :
    ids.request intent = intent.messageId ∧ m.messageId = intent.messageId ∧ m.kind = .request ∧
      m.replyTo = none ∧ m.senderActorId = none ∧ m.replyPort = some intent.replyPort ∧
      m.replyContract = some intent.replyContract ∧ m.channelId = intent.channelId ∧
      m.envelope.createdAt = at' := by
  unfold messageForIntent at h
  simp only [bind_eq_ok, require_eq_ok] at h
  obtain ⟨_, derived, h⟩ := h
  cases h
  exact ⟨derived, rfl, rfl, rfl, rfl, rfl, rfl, rfl, rfl⟩

theorem messageForReply_ok (h : messageForReply ids request actorId payload at' = .ok m) :
    request.kind = .request ∧ m.kind = .reply ∧ m.replyTo = some request.messageId ∧
      m.senderActorId = some actorId ∧ m.recipientActorId = none ∧
      m.envelope.payload = payload ∧ m.envelope.createdAt = at' ∧
      (∃ port, request.replyPort = some port ∧ m.messageId = ids.reply request.messageId port) ∧
      ∀ recipient ∈ request.recipientActorId, actorId = recipient := by
  unfold messageForReply at h
  simp only [bind_eq_ok, require_eq_ok, expect_eq_ok] at h
  obtain ⟨-, kind, contract, -, port, hport, -, recipient, h⟩ := h
  cases h
  exact ⟨kind, rfl, rfl, rfl, rfl, rfl, rfl, ⟨port, hport, rfl⟩, recipient⟩

theorem messageForReply_channel (h : messageForReply ids request actorId payload at' = .ok m) :
    m.channelId = request.channelId := by
  unfold messageForReply at h
  simp only [bind_eq_ok] at h
  obtain ⟨_, _, contract, _, port, _, _, _, h⟩ := h
  cases h
  rfl

theorem validatedReply_of (h : messageForReply ids request actorId payload at' = .ok m) :
    validatedReply ids request m = .ok m := by
  obtain ⟨-, kind, replyTo, sender, -, hpayload, created, -, -⟩ := messageForReply_ok h
  unfold validatedReply
  simp only [bind_eq_ok, require_eq_ok, expect_eq_ok]
  rw [hpayload, created]
  exact ⟨(), kind, actorId, sender, (), replyTo, m, h, (), rfl, rfl⟩

theorem validatedReply_ok (h : validatedReply ids request reply = .ok m) :
    m = reply ∧ reply.kind = .reply ∧ ∃ sender, reply.senderActorId = some sender ∧
      reply.replyTo = some request.messageId ∧
      messageForReply ids request sender reply.envelope.payload reply.envelope.createdAt =
        .ok reply := by
  unfold validatedReply at h
  simp only [bind_eq_ok, require_eq_ok, expect_eq_ok] at h
  obtain ⟨-, kind, sender, hsender, -, replyTo, expected, made, -, same, h⟩ := h
  cases h
  subst same
  exact ⟨rfl, kind, sender, hsender, replyTo, made⟩

end Shapes

end Constructicon
