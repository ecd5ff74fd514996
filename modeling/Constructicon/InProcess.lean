import Constructicon.Channel
import Mathlib.Data.Prod.Lex
import Mathlib.Data.String.Basic

/-!
# The in-process channel

Append-only history for one process: two lists and the indices beside them. A call first
reads everything it needs, where it may raise, and then writes; what it reads is an
`Except`, what it writes is a new channel. `now` is the reading of the clock, `none` a
clock that raises.
-/

namespace Constructicon

open Transaction

structure InProcessChannel where
  channelId : String
  maxBatch : ℕ
  messages : List ChannelMessage
  acks : List ChannelAck
  byId : Dict Digest ChannelMessage
  seqById : Dict Digest ℕ
  attestations : Dict Digest String
  requestIntentByMessage : Dict Digest ChannelSendIntent
  ackByKey : Dict (Digest × ActorId) ChannelAck
  ackCommands : Dict String (Digest × ActorId)
  replyCommandByMessage : Dict Digest String
  replyMessageByCommand : Dict String Digest
  replyProofByMessage : Dict Digest ChannelReplyProof

namespace InProcessChannel

def new (channelId : String) (maxBatch : ℕ) : InProcessChannel :=
  ⟨channelId, maxBatch, [], [], .empty, .empty, .empty, .empty, .empty, .empty, .empty, .empty, .empty⟩

variable (ids : ChannelIds) (ch : InProcessChannel)

/-! ## `_validate_history` -/

def SameSet {κ : Type} (a b : List κ) : Prop := (∀ k ∈ a, k ∈ b) ∧ ∀ k ∈ b, k ∈ a

instance {κ : Type} [DecidableEq κ] (a b : List κ) : Decidable (SameSet a b) :=
  inferInstanceAs (Decidable (_ ∧ _))

def messageIds : List Digest := ch.messages.map ChannelMessage.messageId

def requestIds : List Digest :=
  (ch.messages.filter (fun m => m.kind = .request)).map ChannelMessage.messageId

def replyIds : List Digest := ch.messageIds.filter (fun k => k ∉ ch.requestIds)

def ackKeys : List (Digest × ActorId) := ch.acks.map ChannelAck.key

def MessagesValid : Prop :=
  ch.messageIds.Nodup ∧ SameSet ch.messageIds ch.byId.keys ∧ SameSet ch.messageIds ch.seqById.keys ∧
    ∀ p ∈ ch.messages.zipIdx 1,
      ch.byId.get? p.1.messageId = some p.1 ∧ ch.seqById.get? p.1.messageId = some p.2

def RequestsValid : Prop :=
  SameSet ch.requestIds ch.attestations.keys ∧ SameSet ch.requestIds ch.requestIntentByMessage.keys

def RepliesValid : Prop :=
  SameSet ch.replyIds ch.replyCommandByMessage.keys ∧
    SameSet ch.replyIds ch.replyProofByMessage.keys ∧
    SameSet ch.replyIds ch.replyMessageByCommand.values ∧
    ch.replyMessageByCommand.entries.length = ch.replyIds.length ∧
    ∀ e ∈ ch.replyCommandByMessage.entries, ch.replyMessageByCommand.get? e.2 = some e.1

def AcksValid : Prop :=
  ch.ackKeys.Nodup ∧ SameSet ch.ackKeys ch.ackByKey.keys ∧ SameSet ch.ackKeys ch.ackCommands.values ∧
    ch.ackCommands.entries.length = ch.ackKeys.length ∧
    ∀ a ∈ ch.acks, ch.ackByKey.get? a.key = some a ∧ a.messageId ∈ ch.byId.keys

def ValidHistory : Prop :=
  ch.MessagesValid ∧ ch.RequestsValid ∧ ch.RepliesValid ∧ ch.AcksValid

instance : Decidable ch.MessagesValid := inferInstanceAs (Decidable (_ ∧ _ ∧ _ ∧ _))

instance : Decidable ch.RequestsValid := inferInstanceAs (Decidable (_ ∧ _))

instance : Decidable ch.RepliesValid := inferInstanceAs (Decidable (_ ∧ _ ∧ _ ∧ _ ∧ _))

instance : Decidable ch.AcksValid := inferInstanceAs (Decidable (_ ∧ _ ∧ _ ∧ _ ∧ _))

instance : Decidable ch.ValidHistory := inferInstanceAs (Decidable (_ ∧ _ ∧ _ ∧ _))

def validateHistory : Except ChannelError Unit := require ch.ValidHistory .journalDamaged

/-! ## Complete facts -/

/-- Project one request only beside its independent intent snapshot. -/
def completeRequest (request : ChannelMessage) : Except ChannelError ChannelMessage := do
  require (request.kind = .request) ChannelError.journalDamaged
  let proof ← expect (ch.requestIntentByMessage.get? request.messageId) .journalDamaged
  let expected ← messageForIntent ids proof request.envelope.createdAt
  require (request = expected) ChannelError.journalDamaged
  return request

/-- Return one reply only when its atomic acknowledgement is present. -/
def completeReply (request reply : ChannelMessage) : Except ChannelError ChannelMessage := do
  let request ← ch.completeRequest ids request
  let validated ← validatedReply ids request reply
  let sender ← expect validated.senderActorId .journalDamaged
  require ((ch.ackByKey.get? (request.messageId, sender)).isSome) ChannelError.journalDamaged
  let proof ← expect (ch.replyProofByMessage.get? validated.messageId) .journalDamaged
  validatedChannelReplyProof ids proof request validated
  return validated

def completeMessage (message : ChannelMessage) : Except ChannelError ChannelMessage :=
  if message.kind = .request then ch.completeRequest ids message
  else do
    let replyTo ← expect message.replyTo .journalDamaged
    let request ← expect (ch.byId.get? replyTo) .journalDamaged
    ch.completeReply ids request message

/-! ## Sending a request -/

/-- `_append` -/
def append (message : ChannelMessage) : InProcessChannel :=
  { ch with
    messages := ch.messages ++ [message]
    byId := ch.byId.insert message.messageId message
    seqById := ch.seqById.insert message.messageId (ch.messages.length + 1) }

/-- What is found of a message: the stored fact, or the fact to store. -/
inductive Found (α : Type) where
  | stored (fact : α)
  | fresh (fact : α)
deriving DecidableEq

/-- The reading part of `append_request`. -/
def findRequest (intent : ChannelSendIntent) (attestationId : String) (now : Option Instant) :
    Except ChannelError (Found ChannelMessage) := do
  require (intent.channelId = ch.channelId) ChannelError.contractViolation
  ch.validateHistory
  match ch.byId.get? intent.messageId with
  | some stored => do
    let stored ← ch.completeRequest ids stored
    let expected ← messageForIntent ids intent stored.envelope.createdAt
    require (stored = expected ∧ ch.attestations.get? intent.messageId = some attestationId)
      ChannelError.journalDamaged
    return .stored stored
  | none => do
    let now ← expect now .clockFailure
    let message ← messageForIntent ids intent now
    return .fresh message

def storeRequest (message : ChannelMessage) (intent : ChannelSendIntent) (attestationId : String) :
    InProcessChannel :=
  { ch.append message with
    attestations := ch.attestations.insert message.messageId attestationId
    requestIntentByMessage := ch.requestIntentByMessage.insert message.messageId intent }

def appendRequest (intent : ChannelSendIntent) (attestationId : String) (now : Option Instant) :
    Except ChannelError ChannelMessage × InProcessChannel :=
  match ch.findRequest ids intent attestationId now with
  | .error e => (.error e, ch)
  | .ok (.stored message) => (.ok message, ch)
  | .ok (.fresh message) => (.ok message, ch.storeRequest message intent attestationId)

/-! ## Acknowledging -/

def ackKey (messageId : Digest) (actorId : ActorId) (commandId : String) :
    Except ChannelError (Digest × ActorId) := do
  require ((ch.byId.get? messageId).isSome) ChannelError.contractViolation
  match ch.replyMessageByCommand.get? commandId with
  | some replyId => do
    let reply ← expect (ch.byId.get? replyId) .journalDamaged
    let replyTo ← expect reply.replyTo .journalDamaged
    let sender ← expect reply.senderActorId .journalDamaged
    require ((replyTo, sender) = (messageId, actorId)) ChannelError.journalDamaged
  | none => pure ()
  require (∀ owned ∈ ch.ackCommands.get? commandId, owned = (messageId, actorId))
    ChannelError.journalDamaged
  return (messageId, actorId)

/-- `_append_ack` -/
def appendAck (ack : ChannelAck) (commandId : String) : InProcessChannel :=
  { ch with
    acks := ch.acks ++ [ack]
    ackByKey := ch.ackByKey.insert ack.key ack
    ackCommands := ch.ackCommands.insert commandId ack.key }

def findAck (messageId : Digest) (actorId : ActorId) (commandId : String) (now : Option Instant) :
    Except ChannelError (Found ChannelAck) := do
  let key ← ch.ackKey messageId actorId commandId
  match ch.ackByKey.get? key with
  | some stored => do
    require (ch.ackCommands.get? commandId = some key) ChannelError.ackConflict
    return .stored stored
  | none => do
    let now ← expect now .clockFailure
    return .fresh ⟨messageId, actorId, now⟩

/-- The stored reply of a request that an acknowledgement observes must be complete. -/
def checkReply (messageId : Digest) : Except ChannelError Unit :=
  match ch.byId.get? messageId with
  | some message =>
    if message.kind = .request then do
      let request ← ch.completeRequest ids message
      let replyPort ← expect request.replyPort .journalDamaged
      match ch.byId.get? (ids.reply request.messageId replyPort) with
      | some reply => do
        let _ ← ch.completeReply ids request reply
        return ()
      | none => return ()
    else return ()
  | none => return ()

def acknowledge (messageId : Digest) (actorId : ActorId) (commandId : String) (now : Option Instant) :
    Except ChannelError ChannelAck × InProcessChannel :=
  match (do
    ch.validateHistory
    ch.checkReply ids messageId
    ch.findAck messageId actorId commandId now : Except ChannelError (Found ChannelAck)) with
  | .error e => (.error e, ch)
  | .ok (.stored ack) => (.ok ack, ch)
  | .ok (.fresh ack) => (.ok ack, ch.appendAck ack commandId)

/-! ## Replying -/

/-- A reply to store: the message, its proof, and the acknowledgement it implies. -/
structure ReplyWrite where
  reply : ChannelMessage
  proof : ChannelReplyProof
  impliedAck : Option ChannelAck

/-- The request a reply answers, once it is known to be answerable. -/
def answerable (requestId : Digest) : Except ChannelError (ChannelMessage × String) := do
  let request ← expect (ch.byId.get? requestId) .contractViolation
  let request ← ch.completeRequest ids request
  let replyPort ← expect request.replyPort .contractViolation
  let replyContract ← expect request.replyContract .contractViolation
  require (request.interaction ∈ replyConsumes) ChannelError.contractViolation
  require (¬exchangeRefused request.contract replyContract request.interaction)
    ChannelError.contractViolation
  return (request, replyPort)

/-- The reading part of `reply`. -/
def findReply (requestId : Digest) (actorId : ActorId) (payload : Json) (commandId : String)
    (now : Option Instant) : Except ChannelError (ChannelMessage ⊕ ReplyWrite) := do
  ch.validateHistory
  let (request, replyPort) ← ch.answerable ids requestId
  let replyId := ids.reply request.messageId replyPort
  require (∀ owned ∈ ch.replyMessageByCommand.get? commandId, owned = replyId)
    ChannelError.journalDamaged
  match ch.byId.get? replyId with
  | some stored => do
    let complete ← ch.completeReply ids request stored
    require (ch.replyCommandByMessage.get? replyId = some commandId) ChannelError.replyConflict
    let candidate ← messageForReply ids request actorId payload stored.envelope.createdAt
    require (stored = candidate) ChannelError.replyConflict
    return .inl complete
  | none => do
    let ackKey := (request.messageId, actorId)
    require (¬((ch.ackByKey.get? ackKey).isSome ∧ ch.ackCommands.get? commandId = some ackKey))
      ChannelError.journalDamaged
    let key ← ch.ackKey request.messageId actorId commandId
    let observedAt ← expect now .clockFailure
    let reply ← messageForReply ids request actorId payload observedAt
    let proof ← channelReplyProof ids request reply
    let impliedAck :=
      if (ch.ackByKey.get? key).isSome then none else some ⟨request.messageId, actorId, observedAt⟩
    return .inr ⟨reply, proof, impliedAck⟩

def storeReply (write : ReplyWrite) (commandId : String) : InProcessChannel :=
  let ch :=
    { ch.append write.reply with
      replyCommandByMessage := ch.replyCommandByMessage.insert write.reply.messageId commandId
      replyMessageByCommand := ch.replyMessageByCommand.insert commandId write.reply.messageId
      replyProofByMessage := ch.replyProofByMessage.insert write.reply.messageId write.proof }
  match write.impliedAck with
  | some ack => ch.appendAck ack commandId
  | none => ch

def reply (requestId : Digest) (actorId : ActorId) (payload : Json) (commandId : String)
    (now : Option Instant) : Except ChannelError ChannelMessage × InProcessChannel :=
  match ch.findReply ids requestId actorId payload commandId now with
  | .error e => (.error e, ch)
  | .ok (.inl stored) => (.ok stored, ch)
  | .ok (.inr write) => (.ok write.reply, ch.storeReply write commandId)

/-! ## Reading -/

def message (messageId : Digest) : Except ChannelError (Option ChannelMessage) := do
  ch.validateHistory
  match ch.byId.get? messageId with
  | some stored => do
    let complete ← ch.completeMessage ids stored
    return some complete
  | none => return none

def replyFor (requestId : Digest) : Except ChannelError (Option ChannelMessage) := do
  ch.validateHistory
  match ch.byId.get? requestId with
  | none => return none
  | some request => do
    let request ← ch.completeRequest ids request
    let replyPort ← expect request.replyPort .journalDamaged
    match ch.byId.get? (ids.reply request.messageId replyPort) with
    | none => return none
    | some stored => do
      let complete ← ch.completeReply ids request stored
      return some complete

def latestRevision : Except ChannelError ChannelRevision := do
  ch.validateHistory
  return ⟨ch.messages.length, ch.acks.length⟩

abbrev InboxKey := ℕ ×ₗ String

/-- The loop of `inbox` over the messages inside the cut. -/
def inboxPage (acknowledged : List (Digest × ActorId)) (actorId : ActorId) (after : Option InboxKey)
    (limit : ℕ) : List (ChannelMessage × ℕ) → List ChannelDelivery →
      Except ChannelError (List ChannelDelivery)
  | [], page => .ok page
  | (message, seq) :: rest, page => do
    let message ← ch.completeMessage ids message
    if ¬DiscoverableBy message actorId then inboxPage acknowledged actorId after limit rest page
    else if ∃ a ∈ after, toLex (seq, message.messageId) ≤ a then
      inboxPage acknowledged actorId after limit rest page
    else
      let page := page ++ [⟨seq, message, (message.messageId, actorId) ∈ acknowledged⟩]
      if page.length = limit then return page
      else inboxPage acknowledged actorId after limit rest page

def inbox (actorId : ActorId) (revision : ChannelRevision) (after : Option InboxKey) (limit : ℕ) :
    Except ChannelError (List ChannelDelivery) := do
  require (0 < limit) ChannelError.valueError
  require (limit ≤ ch.maxBatch) ChannelError.valueError
  ch.validateHistory
  require (revision.messageSeq ≤ ch.messages.length ∧ revision.ackSeq ≤ ch.acks.length)
    ChannelError.invalidRevision
  require (∀ a ∈ ch.acks.take revision.ackSeq,
      ∀ seq ∈ ch.seqById.get? a.messageId, seq ≤ revision.messageSeq) ChannelError.invalidRevision
  ch.inboxPage ids ((ch.acks.take revision.ackSeq).map ChannelAck.key) actorId after limit
    ((ch.messages.take revision.messageSeq).zipIdx 1) []

end InProcessChannel

end Constructicon
