import Constructicon.Mailbox

/-!
# Approvals and the store's transactions

A request-bound approval commits its record, its reply and its acknowledgement in one
transaction, a standalone one its record alone. A command is not recorded as refused once
a fact of its own is stored. `MailCall` is every transaction that touches a human decision,
with whatever arguments a worker passes: what a control operation does is a sequence of
them, and a crash is the end of such a sequence.
-/

namespace Constructicon

open Transaction

/-- The error a channel fact raises inside a transaction of the command store. The last two
are raised by no such read. -/
def ChannelError.store : ChannelError → StoreError
  | .contractViolation => .contractViolation
  | .journalDamaged => .journalDamaged
  | .replyConflict => .channelReplyConflict
  | .ackConflict => .channelAckConflict
  | .valueError => .valueError
  | .invalidRevision => .valueError
  | .clockFailure => .valueError

namespace Mailbox

variable (w : MailWire) (m : Mailbox)

/-! ## Approvals -/

/-- `_write_approval`: by approval or command identity, one record. -/
def writeApproval (command : CommandRecord) (approval : ApprovalRecord) :
    Except ChannelError Mailbox := do
  let found ← single (m.approvals.filter (fun row =>
    row.approval.approvalId = approval.approvalId ∨ row.commandId = command.commandId))
  match found with
  | some row => do
    let (owner, existing) ← m.storedApprovalFact w row
    require (existing.approvalId = approval.approvalId ∧ owner.commandId = command.commandId)
      ChannelError.journalDamaged
    require (existing = approval) ChannelError.journalDamaged
    return m
  | none => do
    let row : ApprovalRow := ⟨approval, command.commandId⟩
    let _ ← m.storedApprovalFact w row
    return { m with approvals := m.approvals ++ [row] }

/-- `store_approval` -/
def storeApproval (claim : CommandClaim) (approval : ApprovalRecord) :
    Except StoreError (ApprovalRecord × Mailbox) := do
  let command ← commandFenced w.hashing w.ledger m.ledger claim
  let m' ← (do
    validatedStandaloneCommandApproval w.ids w.human command approval
    m.writeApproval w command approval : Except ChannelError Mailbox).mapError ChannelError.store
  return (approval, m')

/-- The body of `store_approval_exchange`, once its command is fenced. -/
def approvalExchange (command : CommandRecord) (approval : ApprovalRecord) (channelId : String)
    (requestId : Digest) (payload : Json) (now : Option Instant) :
    Except ChannelError (ChannelMessage × Mailbox) := do
  let (request, _) ← m.requestInTransaction w channelId requestId
  let plan ← validatedChannelCommandApproval w.ids w.human command approval request
  require (plan.channelId = channelId ∧ plan.requestId = requestId ∧ plan.payload = payload)
    ChannelError.journalDamaged
  let approved := ∃ row ∈ m.approvals, row.approval.approvalId = approval.approvalId
  let stored ← m.storedReplyInTransaction w channelId requestId
  -- the loser of the race goes on to the conflict that `reply_in_transaction` raises
  require (approved ↔ stored.map Prod.snd = some command.commandId) ChannelError.journalDamaged
  let (reply, m') ← m.replyInTransaction w channelId requestId approval.actor.actorId payload
    command.commandId now
  validatedChannelApprovalExchange w.ids w.human command approval request reply
  let m'' ← m'.writeApproval w command approval
  return (reply, m'')

/-- `store_approval_exchange`: one decision, its approval, reply and delivery fact. -/
def storeApprovalExchange (claim : CommandClaim) (approval : ApprovalRecord) (channelId : String)
    (requestId : Digest) (payload : Json) (now : Option Instant) :
    Except StoreError (ChannelMessage × Mailbox) := do
  let command ← commandFenced w.hashing w.ledger m.ledger claim
  (m.approvalExchange w command approval channelId requestId payload now).mapError ChannelError.store

/-! ## What a command wrote -/

def plannedApproval (command : CommandRecord) (plan : Option HumanCommandPlan) :
    Except ChannelError Bool :=
  match plan with
  | some (.approval p) => do
    let found ← single (m.approvals.filter (fun row =>
      row.approval.approvalId = p.approval.approvalId ∨ row.commandId = command.commandId))
    match found with
    | none => return false
    | some row => do
      require (row.commandId = command.commandId) ChannelError.journalDamaged
      let _ ← validatedCommandApprovalPlan w.ids w.human command row.approval
      return true
  | _ => .ok false

/-- The channel, request and actor a plan names, and the reply it writes. -/
def plannedExchange : Option HumanCommandPlan → Option (String × Digest × ActorId × Option Digest)
  | some (.approval (.channel p)) => some (p.channelId, p.requestId, p.ackActorId, some p.replyId)
  | some (.reply p) => some (p.channelId, p.requestId, p.actorId, some p.replyId)
  | some (.ack p) => some (p.channelId, p.messageId, p.actorId, none)
  | _ => none

/-- The reply a plan names, when the command wrote it. -/
def plannedReply (command : CommandRecord) (channelId : String) (requestId : Digest)
    (replyId : Option Digest) : Except ChannelError Bool :=
  match replyId with
  | none => .ok false
  | some replyId =>
    if (m.messages.find? (fun row => row.message.messageId = replyId ∨
        row.commandId = some command.commandId)).isNone then .ok false
    else do
      let (_, writer) ← expect (← m.storedReplyInTransaction w channelId requestId) .journalDamaged
      return writer = command.commandId

/-- The acknowledgement a plan names, when the command wrote it. -/
def plannedAck (command : CommandRecord) (channelId : String) (requestId : Digest)
    (actorId : ActorId) : Except ChannelError Bool := do
  match ← m.ackRow w requestId actorId with
  | none => return false
  | some row => do
    let (request, _) ← m.requestInTransaction w channelId requestId
    let record ← m.storedAckOf w request row
    return record.commandId = command.commandId

/-- The reply and the acknowledgement a plan names, when the command wrote them. -/
def plannedFacts (command : CommandRecord) (plan : Option HumanCommandPlan) :
    Except ChannelError (Bool × Bool) :=
  match plannedExchange plan with
  | none => .ok (false, false)
  | some (channelId, requestId, actorId, replyId) => do
    let reply ← m.plannedReply w command channelId requestId replyId
    let ack ← m.plannedAck w command channelId requestId actorId
    return (reply, ack)

/-- A fact linked to a command by its owner column is read, unless the plan named it. -/
def linked {α β : Type} (named : Bool) (row : Option α) (read : α → Except ChannelError β) :
    Except ChannelError Bool :=
  match row with
  | none => .ok named
  | some row =>
    if named then .ok true
    else do
      let _ ← read row
      return true

/-- `_domain_fact_owned_by`; `resumed` is what `resume_attempt_owned_by` answers. -/
def domainFactOwnedBy (resumed : Bool) (command : CommandRecord) :
    Except ChannelError (Option String) :=
  if command.operation = disposeOperation ∧ (m.ledger.disposals.get? command.commandId).isSome then
    .ok (some "a capability disposal")
  else do
    let plan ← decodedHumanCommandPlan w.human command
    let approval ← m.plannedApproval w command plan
    let (reply, ack) ← m.plannedFacts w command plan
    let approval ← linked approval (m.approvals.find? (fun row => row.commandId = command.commandId))
      (m.storedApprovalFact w)
    let reply ← linked reply (m.messages.find? (fun row => row.commandId = some command.commandId))
      (m.storedMessageFact w)
    let ack ← linked ack (m.acks.find? (fun row => row.commandId = command.commandId))
      (m.storedAckRecord w)
    return if approval then some "an approval"
      else if reply then some "a channel reply"
      else if ack then some "a channel acknowledgement"
      else if resumed then some "a resume attempt"
      else none

end Mailbox

/-! ## Transactions -/

inductive MailCall where
  | claim (now : Instant) (q : ClaimRequest)
  | plan (now : Instant) (claim : CommandClaim) (plan : Json)
  | complete (now : Instant) (claim : CommandClaim) (response : Json)
  | reject (resumed : Bool) (now : Instant) (claim : CommandClaim) (response : Json)
  | dispose (intact : Bool) (claim : CommandClaim)
  | advance (run : RunId) (epochs events : ℕ)
  | startRun (runId : RunId) (manifestHash : Digest)
  | attest (attestation : Attestation)
  | appendRequest (channelId : String) (intent : ChannelSendIntent) (attestationId : String)
      (now : Option Instant)
  | reply (channelId : String) (requestId : Digest) (actorId : ActorId) (payload : Json)
      (commandId : String) (now : Option Instant)
  | acknowledge (channelId : String) (messageId : Digest) (actorId : ActorId) (commandId : String)
      (now : Option Instant)
  | storeApproval (claim : CommandClaim) (approval : ApprovalRecord)
  | storeApprovalExchange (claim : CommandClaim) (approval : ApprovalRecord) (channelId : String)
      (requestId : Digest) (payload : Json) (now : Option Instant)

namespace Mailbox

variable (w : MailWire)

/-- The transaction of the command store a call is, if it is one. -/
def ledgerCall (m : Mailbox) : MailCall → Option CommandCall
  | .claim now q => some (.claim now q)
  | .plan now claim plan => some (.plan now claim plan)
  | .complete now claim response => some (.complete (fun _ => .ok none) now claim response)
  | .reject resumed now claim response =>
    some (.reject (fun r => (m.domainFactOwnedBy w resumed r).mapError ChannelError.store) now claim
      response)
  | .dispose intact claim => some (.dispose intact claim)
  | .advance run epochs events => some (.advance run epochs events)
  | _ => none

/-- The store after one call; a call that raises leaves it as it was. A world is admitted and
an attestation minted once. -/
def step (m : Mailbox) : MailCall → Mailbox
  | .startRun runId manifestHash =>
    if (m.runs.get? runId).isSome then m else { m with runs := m.runs.insert runId manifestHash }
  | .attest a =>
    if (m.attestations.get? a.attestationId).isSome then m
    else { m with attestations := m.attestations.insert a.attestationId a }
  | .appendRequest channelId intent attestationId now =>
    settle m (m.channelAppendRequest w channelId intent attestationId now)
  | .reply channelId requestId actorId payload commandId now =>
    settle m (m.channelReply w channelId requestId actorId payload commandId now)
  | .acknowledge channelId messageId actorId commandId now =>
    settle m (m.channelAcknowledge w channelId messageId actorId commandId now)
  | .storeApproval claim approval => settle m (m.storeApproval w claim approval)
  | .storeApprovalExchange claim approval channelId requestId payload now =>
    settle m (m.storeApprovalExchange w claim approval channelId requestId payload now)
  | call =>
    match m.ledgerCall w call with
    | some c => { m with ledger := m.ledger.step w.hashing w.ledger c }
    | none => m

end Mailbox

end Constructicon
