import Constructicon.Human
import Mathlib.Data.Prod.Lex
import Mathlib.Data.String.Basic

/-!
# The durable mailbox

The channel tables of the SQLite store, beside the commands that write them. Rows are in
the order of their sequence numbers, which start at one; every row is of the current era,
and its seal, written with it, is left out. A transaction reads each fact it meets through
its provenance, and either raises or answers with the store it commits. `now` is the
reading of the clock, `none` a clock that raises.
-/

namespace Constructicon

open Transaction

structure MessageRow where
  message : ChannelMessage
  attestationId : Option String
  commandId : Option String
deriving DecidableEq

structure AckRow where
  ack : ChannelAck
  commandId : String
deriving DecidableEq

structure ApprovalRow where
  approval : ApprovalRecord
  commandId : String
deriving DecidableEq

/-- The digests and decoders of one build of the store. -/
structure MailWire where
  hashing : Hashing Digest
  ledger : Codec
  human : HumanCodec
  ids : ChannelIds
  payloadDigest : Json → Digest

/-- `runs` is the manifest hash of each admitted world. -/
structure Mailbox where
  ledger : Ledger
  runs : Dict RunId Digest
  attestations : Dict String Attestation
  messages : List MessageRow
  acks : List AckRow
  approvals : List ApprovalRow

/-- A request names its attestation, a reply the command that wrote it. -/
def MessageRow.Lawful (row : MessageRow) : Prop :=
  match row.message.kind with
  | .request => row.attestationId ≠ none ∧ row.commandId = none
  | .reply => row.attestationId = none

instance (row : MessageRow) : Decidable row.Lawful :=
  decidable_of_iff
    (row.message.kind = .request ∧ row.attestationId ≠ none ∧ row.commandId = none ∨
      row.message.kind = .reply ∧ row.attestationId = none) <| by
    unfold MessageRow.Lawful
    cases row.message.kind <;> simp

/-- The rows a selection finds, where two would be damage. -/
def single {α : Type} : List α → Except ChannelError (Option α)
  | [] => .ok none
  | [row] => .ok (some row)
  | _ => .error .journalDamaged

namespace Mailbox

def empty : Mailbox := ⟨.empty, .empty, .empty, [], [], []⟩

variable (w : MailWire) (m : Mailbox)

/-! ## Reading facts -/

/-- `_channel_message_row` -/
def messageRow (messageId : Digest) : Except ChannelError (Option MessageRow) :=
  single (m.messages.filter (fun row => row.message.messageId = messageId))

/-- `_command_in_transaction` -/
def commandInTransaction (commandId : String) : Except ChannelError CommandRecord :=
  match commandForId w.hashing w.ledger m.ledger commandId with
  | .ok (some command) => .ok command
  | _ => .error .journalDamaged

/-- Load the attestation and the admitted world a request needs. -/
def authority (attestationId : String) (runId : RunId) :
    Except ChannelError (Attestation × Digest) := do
  let attestation ← expect (m.attestations.get? attestationId) .journalDamaged
  require (attestation.attestationId = attestationId) ChannelError.journalDamaged
  let manifestHash ← expect (m.runs.get? runId) .journalDamaged
  return (attestation, manifestHash)

/-- Project one request beside the exact send authority that admitted it. -/
def storedRequestFact (row : MessageRow) : Except ChannelError ChannelMessage := do
  require row.Lawful ChannelError.journalDamaged
  require (row.message.kind = .request) ChannelError.journalDamaged
  let attestationId ← expect row.attestationId .journalDamaged
  let (attestation, manifestHash) ← m.authority attestationId row.message.envelope.runId
  validatedAttestedChannelRequest w.ids w.payloadDigest attestation row.message manifestHash

/-- `_decoded_stored_ack_record`: the row beside its command. -/
def decodedAck (row : AckRow) : Except ChannelError CommandRecord := do
  let command ← m.commandInTransaction w row.commandId
  require (command.actor.actorId = row.ack.actorId) ChannelError.journalDamaged
  return command

/-- `_ack_row` -/
def ackRow (messageId : Digest) (actorId : ActorId) : Except ChannelError (Option AckRow) := do
  let rows := m.acks.filter (fun row => row.ack.messageId = messageId)
  let _ ← rows.mapM (m.decodedAck w)
  single (rows.filter (fun row => row.ack.actorId = actorId))

/-- `stored_approval_fact_from_row` -/
def storedApprovalFact (row : ApprovalRow) : Except ChannelError (CommandRecord × ApprovalRecord) := do
  let command ← m.commandInTransaction w row.commandId
  let _ ← validatedCommandApprovalPlan w.ids w.human command row.approval
  return (command, row.approval)

/-- The approval a command wrote, if it wrote one. -/
def approvalOf (commandId : String) : Except ChannelError (Option (CommandRecord × ApprovalRecord)) :=
  match m.approvals.find? (fun row => row.commandId = commandId) with
  | none => .ok none
  | some row => some <$> m.storedApprovalFact w row

/-- `_request_in_transaction` -/
def requestInTransaction (channelId : String) (requestId : Digest) :
    Except ChannelError (ChannelMessage × String) := do
  let row ← expect (← m.messageRow requestId) .contractViolation
  let request ← m.storedRequestFact w row
  require (request.channelId = channelId ∧ request.kind = .request) ChannelError.contractViolation
  let replyPort ← expect request.replyPort .contractViolation
  return (request, replyPort)

/-- The acknowledgement of a reply's sender, beside its command. -/
def senderAck (request reply : ChannelMessage) :
    Except ChannelError (Option (AckRow × CommandRecord)) :=
  match reply.senderActorId with
  | none => .ok none
  | some sender => do
    match ← m.ackRow w request.messageId sender with
    | none => return none
    | some row =>
      let command ← m.decodedAck w row
      return some (row, command)

/-- The approval its writer stored, of a reply whose request claims approval semantics. -/
def claimedApproval (request : ChannelMessage) (writer : String) :
    Except ChannelError (Option (CommandRecord × ApprovalRecord)) :=
  if ClaimsApprovalExchange request then m.approvalOf w writer else .ok none

/-- `_validated_stored_reply_fact`: a decision with the record its command wrote, any other
reply through its command's plan. -/
def validatedStoredReplyFact (request reply : ChannelMessage) (command : CommandRecord)
    (approval : Option (CommandRecord × ApprovalRecord)) : Except ChannelError Unit := do
  match ← approvalRecordForReply w.ids w.human request reply with
  | some carried => do
    let (approvalCommand, stored) ← expect approval .journalDamaged
    require (stored = carried) ChannelError.journalDamaged
    validatedChannelApprovalExchange w.ids w.human approvalCommand stored request reply
  | none => validatedChannelCommandReply w.ids w.human command request reply

/-- `_stored_reply_fact`: a reply with its writer and the acknowledgement of its sender. -/
def storedReplyFact (request : ChannelMessage) (row : MessageRow) :
    Except ChannelError (ChannelMessage × String) := do
  require row.Lawful ChannelError.journalDamaged
  let acknowledgement ← m.senderAck w request row.message
  require (row.message.kind = .reply) ChannelError.journalDamaged
  let writer ← expect row.commandId .journalDamaged
  let command ← m.commandInTransaction w writer
  let approval ← m.claimedApproval w request writer
  let (ack, ackCommand) ← expect acknowledgement .journalDamaged
  validatedStoredReplyFact w request row.message command approval
  validatedChannelAckProvenance w.ids w.human ackCommand ack.ack ack.commandId request
    (some (row.message, writer)) (approval.map Prod.snd)
  return (row.message, writer)

/-- `stored_reply_in_transaction` -/
def storedReplyInTransaction (channelId : String) (requestId : Digest) :
    Except ChannelError (Option (ChannelMessage × String)) := do
  let (request, replyPort) ← m.requestInTransaction w channelId requestId
  match ← m.messageRow (w.ids.reply request.messageId replyPort) with
  | none => return none
  | some row => do
    let fact ← m.storedReplyFact w request row
    return some fact

/-- `_stored_message_fact` -/
def storedMessageFact (row : MessageRow) : Except ChannelError ChannelMessage := do
  require row.Lawful ChannelError.journalDamaged
  if row.message.kind = .request then m.storedRequestFact w row
  else do
    let replyTo ← expect row.message.replyTo .journalDamaged
    let requestRow ← expect (← m.messageRow replyTo) .journalDamaged
    let request ← m.storedRequestFact w requestRow
    require (request.channelId = row.message.channelId) ChannelError.journalDamaged
    let (reply, _) ← m.storedReplyFact w request row
    return reply

/-- The reply to a request with its writer, `fallback` when the row names none. -/
def replyTo (request : ChannelMessage) (fallback : String) :
    Except ChannelError (Option (ChannelMessage × String)) :=
  match m.messages.find? (fun row =>
      row.message.replyTo = some request.messageId ∧ row.message.channelId = request.channelId) with
  | none => .ok none
  | some row => do
    require row.Lawful ChannelError.journalDamaged
    return some (row.message, row.commandId.getD fallback)

/-- The reply and the approval an acknowledgement may come from, by the operation of its
command. -/
def ackSources (request : ChannelMessage) (command : CommandRecord) :
    Except ChannelError (Option (ChannelMessage × String) × Option ApprovalRecord) :=
  if command.operation = approveOperation then do
    let reply ← m.replyTo request command.commandId
    let approval ← m.approvalOf w command.commandId
    return (reply, approval.map Prod.snd)
  else if command.operation = replyOperation then do
    let reply ← m.replyTo request command.commandId
    return (reply, none)
  else .ok (none, none)

/-- `_stored_ack_record` of an acknowledgement of this request. -/
def storedAckOf (request : ChannelMessage) (row : AckRow) : Except ChannelError AckRow := do
  let command ← m.decodedAck w row
  let (reply, approval) ← m.ackSources w request command
  validatedChannelAckProvenance w.ids w.human command row.ack row.commandId request reply approval
  return row

/-- `_stored_ack_record` -/
def storedAckRecord (row : AckRow) : Except ChannelError AckRow := do
  let _ ← m.decodedAck w row
  let requestRow ← expect (← m.messageRow row.ack.messageId) .journalDamaged
  let request ← m.storedRequestFact w requestRow
  m.storedAckOf w request row

/-! ## Writing facts -/

/-- `_reply_owned_by_command` -/
def replyOwnedByCommand (commandId : String) : Except ChannelError (Option ChannelMessage) :=
  match m.messages.find? (fun row => row.commandId = some commandId) with
  | none => .ok none
  | some row => do
    require row.Lawful ChannelError.journalDamaged
    require (row.message.kind = .reply) ChannelError.journalDamaged
    return some row.message

/-- The reply of this command, if it owns one, implies this delivery key. -/
def requireReplyKey (messageId : Digest) (actorId : ActorId) (commandId : String) :
    Except ChannelError Unit := do
  match ← m.replyOwnedByCommand commandId with
  | none => return ()
  | some reply => do
    let replyTo ← expect reply.replyTo .journalDamaged
    let sender ← expect reply.senderActorId .journalDamaged
    require ((replyTo, sender) = (messageId, actorId)) ChannelError.journalDamaged

/-- `_stored_ack`: the delivery fact of this key, when the command owns no other. -/
def storedAck (messageId : Digest) (actorId : ActorId) (commandId : String) :
    Except ChannelError (Option AckRow) := do
  m.requireReplyKey messageId actorId commandId
  require (∀ owner ∈ m.acks.find? (fun row : AckRow => row.commandId = commandId),
      owner.ack.key = (messageId, actorId)) ChannelError.journalDamaged
  match ← m.ackRow w messageId actorId with
  | none => return none
  | some row => do
    let record ← m.storedAckRecord w row
    return some record

/-- `_insert_message`, which decodes the row it sealed. -/
def insertMessage (row : MessageRow) : Except ChannelError Mailbox := do
  require row.Lawful ChannelError.journalDamaged
  return { m with messages := m.messages ++ [row] }

/-- `_insert_ack`, which decodes the row it sealed. -/
def insertAck (row : AckRow) : Except ChannelError Mailbox := do
  let command ← m.commandInTransaction w row.commandId
  require (command.state = .prepared) ChannelError.journalDamaged
  require (command.plan ≠ none) ChannelError.journalDamaged
  let _ ← m.decodedAck w row
  return { m with acks := m.acks ++ [row] }

/-- `_claim_acknowledgement`: one delivery fact, claimed by one command. -/
def claimAcknowledgement (request : ChannelMessage) (actorId : ActorId) (commandId : String)
    (now : Option Instant) : Except ChannelError (ChannelAck × Mailbox) := do
  match ← m.storedAck w request.messageId actorId commandId with
  | some stored => do
    require (stored.commandId = commandId) ChannelError.ackConflict
    return (stored.ack, m)
  | none => do
    let command ← m.commandInTransaction w commandId
    validatedChannelCommandAck w.human command request
    let now ← expect now .clockFailure
    let ack : ChannelAck := ⟨request.messageId, actorId, now⟩
    let m' ← m.insertAck w ⟨ack, commandId⟩
    return (ack, m')

/-- `_imply_acknowledgement`: the request is acknowledged for this actor, whoever first
recorded it. -/
def implyAcknowledgement (messageId : Digest) (actorId : ActorId) (commandId : String)
    (ackedAt : Instant) : Except ChannelError Mailbox := do
  match ← m.storedAck w messageId actorId commandId with
  | some _ => return m
  | none => m.insertAck w ⟨⟨messageId, actorId, ackedAt⟩, commandId⟩

/-- `reply_in_transaction`: the reply and its request's acknowledgement, inside a transaction
someone else owns. -/
def replyInTransaction (channelId : String) (requestId : Digest) (actorId : ActorId) (payload : Json)
    (commandId : String) (now : Option Instant) : Except ChannelError (ChannelMessage × Mailbox) := do
  let (request, replyPort) ← m.requestInTransaction w channelId requestId
  let replyId := w.ids.reply request.messageId replyPort
  let owned ← m.replyOwnedByCommand commandId
  require (∀ reply ∈ owned, reply.messageId = replyId) ChannelError.journalDamaged
  match ← m.storedReplyInTransaction w channelId requestId with
  | some (stored, writer) => do
    require (writer = commandId) ChannelError.replyConflict
    let candidate ← messageForReply w.ids request actorId payload stored.envelope.createdAt
    require (stored = candidate) ChannelError.replyConflict
    return (stored, m)
  | none => do
    let existing ← m.ackRow w request.messageId actorId
    require (∀ row ∈ existing, row.commandId ≠ commandId) ChannelError.journalDamaged
    let observedAt ← expect now .clockFailure
    let reply ← messageForReply w.ids request actorId payload observedAt
    let m' ← m.insertMessage ⟨reply, none, some commandId⟩
    let m'' ← m'.implyAcknowledgement w request.messageId actorId commandId observedAt
    return (reply, m'')

/-! ## The transport -/

/-- `channel_append_request` -/
def channelAppendRequest (channelId : String) (intent : ChannelSendIntent) (attestationId : String)
    (now : Option Instant) : Except ChannelError (ChannelMessage × Mailbox) := do
  require (intent.channelId = channelId) ChannelError.contractViolation
  let found ← single (m.messages.filter (fun row =>
    row.message.messageId = intent.messageId ∨ row.attestationId = some attestationId))
  match found with
  | some row => do
    let stored ← m.storedRequestFact w row
    let expected ← messageForIntent w.ids intent stored.envelope.createdAt
    require (stored = expected ∧ row.attestationId = some attestationId) ChannelError.journalDamaged
    return (stored, m)
  | none => do
    let (attestation, manifestHash) ← m.authority attestationId intent.runId
    require (AuthorizesSend w.payloadDigest attestation intent manifestHash)
      ChannelError.journalDamaged
    let now ← expect now .clockFailure
    let message ← messageForIntent w.ids intent now
    let m' ← m.insertMessage ⟨message, some attestationId, none⟩
    return (message, m')

/-- The end of `channel_reply`: the stored reply agrees with its command's plan, and a new
one with a command that is not terminal. -/
def checkReplyPlan (existed : Bool) (request reply : ChannelMessage) (commandId : String) :
    Except ChannelError Unit := do
  let row ← expect (← m.messageRow reply.messageId) .journalDamaged
  require row.Lawful ChannelError.journalDamaged
  if row.commandId = none then return ()
  else do
    let command ← m.commandInTransaction w commandId
    if existed then validatedChannelCommandReply w.ids w.human command request reply
    else validatedNewChannelCommandReply w.ids w.human command request reply

/-- `channel_reply` -/
def channelReply (channelId : String) (requestId : Digest) (actorId : ActorId) (payload : Json)
    (commandId : String) (now : Option Instant) : Except ChannelError (ChannelMessage × Mailbox) := do
  let (request, replyPort) ← m.requestInTransaction w channelId requestId
  require (request.interaction ∈ replyConsumes) ChannelError.contractViolation
  let replyContract ← expect request.replyContract .contractViolation
  require (¬exchangeRefused request.contract replyContract request.interaction)
    ChannelError.contractViolation
  let existed ← m.messageRow (w.ids.reply request.messageId replyPort)
  let (reply, m') ← m.replyInTransaction w channelId requestId actorId payload commandId now
  m'.checkReplyPlan w existed.isSome request reply commandId
  return (reply, m')

/-- `channel_acknowledge` -/
def channelAcknowledge (channelId : String) (messageId : Digest) (actorId : ActorId)
    (commandId : String) (now : Option Instant) : Except ChannelError (ChannelAck × Mailbox) := do
  let row ← expect (← m.messageRow messageId) .contractViolation
  let message ← m.storedMessageFact w row
  require (message.channelId = channelId) ChannelError.contractViolation
  if message.kind = .request then do
    let _ ← m.storedReplyInTransaction w message.channelId message.messageId
  m.claimAcknowledgement w message actorId commandId now

/-- `channel_message` -/
def channelMessage (channelId : String) (messageId : Digest) :
    Except ChannelError (Option ChannelMessage) := do
  match ← m.messageRow messageId with
  | none => return none
  | some row => do
    let message ← m.storedMessageFact w row
    return if message.channelId = channelId then some message else none

/-- `channel_reply_for` -/
def channelReplyFor (channelId : String) (requestId : Digest) :
    Except ChannelError (Option ChannelMessage) := do
  match ← m.messageRow requestId with
  | none => return none
  | some row => do
    let request ← m.storedRequestFact w row
    match request.replyPort with
    | none => return none
    | some replyPort =>
      if request.channelId ≠ channelId then return none
      else do
        let replyId := w.ids.reply request.messageId replyPort
        let reply ← m.messageRow replyId
        match m.messages.find? (fun row =>
            row.message.replyTo = some request.messageId ∧ row.message.messageId ≠ replyId) with
        | some row => do
          let _ ← m.storedReplyFact w request row
          throw .journalDamaged
        | none => pure ()
        match reply with
        | none => return none
        | some row => do
          let (reply, _) ← m.storedReplyFact w request row
          return some reply

/-! ## Revisions and the inbox -/

/-- The rows of a table with their sequence numbers. -/
def numbered {α : Type} (rows : List α) : List (α × ℕ) := rows.zipIdx 1

/-- `COALESCE(MAX(seq), 0)` -/
def highest {α : Type} (rows : List (α × ℕ)) : ℕ := (rows.map Prod.snd).foldl max 0

/-- The channel of a message is this one; `none` spans all channels. -/
def InScope (channelId : Option String) (message : ChannelMessage) : Prop :=
  ∀ channel ∈ channelId, message.channelId = channel

instance (channelId : Option String) (message : ChannelMessage) :
    Decidable (InScope channelId message) :=
  inferInstanceAs (Decidable (∀ channel ∈ channelId, _))

/-- The acknowledgement is of a message that satisfies `p`. -/
def AckJoins (p : MessageRow × ℕ → Prop) (row : AckRow) : Prop :=
  ∃ x ∈ numbered m.messages, x.1.message.messageId = row.ack.messageId ∧ p x

instance (p : MessageRow × ℕ → Prop) [DecidablePred p] (row : AckRow) :
    Decidable (m.AckJoins p row) :=
  inferInstanceAs (Decidable (∃ x ∈ numbered m.messages, _))

/-- `_current_revision`: the cut of one channel, or of all retained history. -/
def currentRevision (channelId : Option String) : Except ChannelError ChannelRevision := do
  require (∀ row ∈ m.acks, m.AckJoins (fun _ => True) row) ChannelError.journalDamaged
  return {
    messageSeq := highest ((numbered m.messages).filter (fun x => InScope channelId x.1.message))
    ackSeq := highest ((numbered m.acks).filter (fun x =>
      m.AckJoins (fun y => InScope channelId y.1.message) x.1)) }

abbrev DeliveryKey := ℕ ×ₗ String

/-- `visible`: the discoverability rule as one SQL predicate, with the scope of the query. -/
def Visible (channelId : Option String) (actorId : ActorId)
    (interactions : Option (List ChannelInteraction)) (after : Option DeliveryKey)
    (x : MessageRow × ℕ) : Prop :=
  InScope channelId x.1.message ∧
    (x.1.message.recipientActorId = some actorId ∨
      x.1.message.kind = .request ∧ x.1.message.recipientActorId = none) ∧
    (∀ wanted ∈ interactions, x.1.message.interaction ∈ wanted) ∧
    ∀ a ∈ after, a < toLex (x.2, x.1.message.messageId)

instance (channelId : Option String) (actorId : ActorId)
    (interactions : Option (List ChannelInteraction)) (after : Option DeliveryKey)
    (x : MessageRow × ℕ) : Decidable (Visible channelId actorId interactions after x) :=
  inferInstanceAs (Decidable (_ ∧ _ ∧ _ ∧ _))

/-- `_INVALID_INBOX_ROUTING` -/
def InvalidRouting (row : MessageRow) : Prop :=
  row.message.kind = .request ∧ row.attestationId = none ∨
    row.message.kind = .reply ∧ (row.message.replyTo = none ∨ row.message.senderActorId = none ∨
      row.message.recipientActorId ≠ none ∨ row.attestationId ≠ none)

instance (row : MessageRow) : Decidable (InvalidRouting row) :=
  inferInstanceAs (Decidable (_ ∨ _))

/-- `constructicon_channel_request_routing_matches` -/
def RoutingMatches (row : MessageRow) (attestation : Attestation) : Prop :=
  attestation.action = .send ∧ attestation.Ok ∧ row.message.kind = .request ∧
    match attestation.subject with
    | .send subject => subject.messageId = row.message.messageId ∧
        subject.channelId = row.message.channelId ∧ subject.interaction = row.message.interaction ∧
        subject.recipientActorId = row.message.recipientActorId
    | _ => False

instance (row : MessageRow) (attestation : Attestation) : Decidable (RoutingMatches row attestation) :=
  @instDecidableAnd _ _ _ (@instDecidableAnd _ _ _ (@instDecidableAnd _ _ _ (by
    cases attestation.subject <;> dsimp only <;> infer_instance)))

/-- `_INBOX_REQUEST_PROOF_MISMATCH` -/
def ProofMismatch (row : MessageRow) : Prop :=
  ∃ attestationId ∈ row.attestationId,
    ¬∃ attestation ∈ m.attestations.get? attestationId, RoutingMatches row attestation

instance (row : MessageRow) : Decidable (m.ProofMismatch row) :=
  inferInstanceAs (Decidable (∃ attestationId ∈ row.attestationId, _))

/-- `_stored_request_facts`: every row a request, under its own attestation. -/
def storedRequestFacts (rows : List (MessageRow × ℕ)) :
    Except ChannelError (List (ChannelMessage × ℕ)) := do
  require (∀ x ∈ rows, x.1.Lawful ∧ x.1.message.kind = .request ∧ x.1.attestationId ≠ none)
    ChannelError.journalDamaged
  require (rows.map (fun x => x.1.attestationId)).Nodup ChannelError.journalDamaged
  rows.mapM (fun x => do
    let message ← m.storedRequestFact w x.1
    return (message, x.2))

/-- The acknowledgements of a page at or below the cut, each read beside its request. -/
def pageAcks (ackSeq : ℕ) (page : List (ChannelMessage × ℕ)) : Except ChannelError (List AckRow) :=
  (m.acks.take ackSeq).foldlM (fun (acc : List AckRow) row =>
    match page.find? (fun p => p.1.messageId = row.ack.messageId) with
    | none => return acc
    | some p => do
      let record ← m.storedAckOf w p.1 row
      return acc ++ [record]) []

/-- `_inbox` -/
def inboxPage (channelId : Option String) (actorId : ActorId) (revision : ChannelRevision)
    (interactions : Option (List ChannelInteraction)) (after : Option DeliveryKey) (limit : ℕ) :
    Except ChannelError (List ChannelDelivery) := do
  require (0 < limit) ChannelError.valueError
  let current ← m.currentRevision channelId
  require (revision.messageSeq ≤ current.messageSeq ∧ revision.ackSeq ≤ current.ackSeq)
    ChannelError.invalidRevision
  require (∀ row ∈ m.acks.take revision.ackSeq,
      ¬m.AckJoins (fun y => revision.messageSeq < y.2 ∧ InScope channelId y.1.message) row)
    ChannelError.invalidRevision
  let rows := ((numbered m.messages).filter (fun x => x.2 ≤ revision.messageSeq ∧
    (Visible channelId actorId interactions after x ∨ InvalidRouting x.1 ∨
      m.ProofMismatch x.1))).take limit
  let paged ← m.storedRequestFacts w rows
  let acks ← m.pageAcks w revision.ackSeq paged
  require (∀ p ∈ paged, DiscoverableBy p.1 actorId) ChannelError.journalDamaged
  return paged.map (fun p => ⟨p.2, p.1, (p.1.messageId, actorId) ∈ acks.map (fun a => a.ack.key)⟩)

/-- `channel_revision` -/
def channelRevision (channelId : String) : Except ChannelError ChannelRevision :=
  m.currentRevision (some channelId)

/-- `channel_actor_revision` -/
def channelActorRevision : Except ChannelError ChannelRevision := m.currentRevision none

/-- `inbox` of a mailbox channel. -/
def channelInbox (maxBatch : ℕ) (channelId : String) (actorId : ActorId) (revision : ChannelRevision)
    (after : Option DeliveryKey) (limit : ℕ) : Except ChannelError (List ChannelDelivery) := do
  require (limit ≤ maxBatch) ChannelError.valueError
  m.inboxPage w (some channelId) actorId revision none after limit

/-- `channel_actor_inbox` -/
def channelActorInbox (actorId : ActorId) (revision : ChannelRevision)
    (interactions : List ChannelInteraction) (after : Option DeliveryKey) (limit : ℕ) :
    Except ChannelError (List ChannelDelivery) :=
  if interactions = [] then .ok []
  else m.inboxPage w none actorId revision (some interactions) after limit

end Mailbox

end Constructicon
