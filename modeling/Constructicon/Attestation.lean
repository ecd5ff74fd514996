import Constructicon.Channel
import Constructicon.MergeInstall

/-!
# Attestations

A check result is built with its two fields in lockstep, whatever it is decoded from. An
attestation binds results to one exact subject; a send attestation admits one request
message, whose payload it knows by digest.
-/

namespace Constructicon

open Transaction

inductive CheckStatus where
  | passed
  | failed
  | conflict
  | timeout
  | cancelled
  | infrastructureError
deriving DecidableEq, Repr

structure CheckResult where
  name : String
  status : CheckStatus
  ok : Bool
  detail : String
  elapsed : String
  lockstep : ok = decide (status = .passed)
deriving DecidableEq

/-- The mapping a check result is validated from; `elapsed` is the token of a float. -/
structure CheckData where
  name : String
  status : Option CheckStatus
  ok : Option Json
  detail : String
  elapsed : String

/-- A check result of this status, the other field left to the validator. -/
def CheckResult.of (name : String) (status : CheckStatus) (detail elapsed : String) : CheckResult :=
  ⟨name, status, decide (status = .passed), detail, elapsed, rfl⟩

/-- `_sync_status_and_ok`, and the validation of the fields after it; `coerce` is the lax
reading of a bool. -/
def CheckData.validated (coerce : Json → Option Bool) (d : CheckData) : Option CheckResult :=
  match d.status, d.ok with
  | none, none => none
  | some status, none => some (.of d.name status d.detail d.elapsed)
  | none, some raw => do
    let ok ← coerce raw
    return .of d.name (if ok then .passed else .failed) d.detail d.elapsed
  | some status, some raw => do
    let ok ← coerce raw
    if same : ok = decide (status = .passed) then
      return ⟨d.name, status, ok, d.detail, d.elapsed, same⟩
    else none

/-- `model_dump` of a result. -/
def CheckResult.dump (c : CheckResult) : CheckData :=
  ⟨c.name, some c.status, some (.bool c.ok), c.detail, c.elapsed⟩

inductive EffectAction where
  | merge
  | promote
  | send
deriving DecidableEq, Repr

/-- Every value a channel adapter could otherwise redirect or substitute. -/
structure ChannelSendSubject where
  messageId : Digest
  channelId : String
  channelRevision : String
  lane : String
  interaction : ChannelInteraction
  recipientActorId : Option ActorId
  runId : RunId
  path : ExecutionPath
  port : String
  contract : Contract
  replyPort : String
  replyContract : Contract
  payloadDigest : Digest
deriving DecidableEq

inductive AttestationSubject where
  | merge (subject : MergeSubject)
  | component (component : String) (version : Digest) (baselineVersion : Option Digest)
  | send (subject : ChannelSendSubject)
  | git (repository : String) (commit : GitSha) (base testedTree : Option GitSha)
deriving DecidableEq

/-- Code crosses as commits, other evidence by its content. -/
inductive EvidenceRef where
  | artifact (digest : Digest) (mediaType : String) (size : ℕ) (locator : Option String)
  | git (repository : String) (commit : GitSha) (paths : List String) (diffAgainst : Option GitSha)
deriving DecidableEq

structure AttestationDraft where
  action : EffectAction
  subject : AttestationSubject
  checks : List CheckResult
  checkSetHash : Digest
  evidence : List EvidenceRef := []
  manifestHash : Digest
  workspaceId : Option String := none
deriving DecidableEq

structure Attestation extends AttestationDraft where
  attestationId : String
  createdByRun : Option RunId
  createdAt : Instant
deriving DecidableEq

def AttestationDraft.Ok (a : AttestationDraft) : Prop := a.checks ≠ [] ∧ ∀ c ∈ a.checks, c.ok

instance (a : AttestationDraft) : Decidable a.Ok := inferInstanceAs (Decidable (_ ∧ _))

section Send

variable (ids : ChannelIds) (payloadDigest : Json → Digest)

def channelSendSubject (intent : ChannelSendIntent) : ChannelSendSubject where
  messageId := intent.messageId
  channelId := intent.channelId
  channelRevision := intent.channelRevision
  lane := intent.lane
  interaction := intent.interaction
  recipientActorId := intent.recipientActorId
  runId := intent.runId
  path := intent.path
  port := intent.port
  contract := intent.contract
  replyPort := intent.replyPort
  replyContract := intent.replyContract
  payloadDigest := payloadDigest intent.payload

/-- The intent a subject seals, with the payload it knows only by digest. -/
def ChannelSendSubject.intent (subject : ChannelSendSubject) (payload : Json) : ChannelSendIntent where
  messageId := subject.messageId
  channelId := subject.channelId
  channelRevision := subject.channelRevision
  lane := subject.lane
  interaction := subject.interaction
  recipientActorId := subject.recipientActorId
  contract := subject.contract
  replyContract := subject.replyContract
  runId := subject.runId
  path := subject.path
  port := subject.port
  replyPort := subject.replyPort
  payload := payload

/-- `validated_channel_send_attestation` holds: one run-world attestation authorizes one
exact send intent. -/
def AuthorizesSend (attestation : Attestation) (intent : ChannelSendIntent)
    (manifestHash : Digest) : Prop :=
  attestation.action = .send ∧ attestation.Ok ∧ attestation.createdByRun = some intent.runId ∧
    attestation.manifestHash = manifestHash ∧
    attestation.subject = .send (channelSendSubject payloadDigest intent)

instance (attestation : Attestation) (intent : ChannelSendIntent) (manifestHash : Digest) :
    Decidable (AuthorizesSend payloadDigest attestation intent manifestHash) :=
  inferInstanceAs (Decidable (_ ∧ _ ∧ _ ∧ _ ∧ _))

/-- Bind one retained request to the exact send authority that admitted it. The caller
turns every refusal into damage. -/
def validatedAttestedChannelRequest (attestation : Attestation) (request : ChannelMessage)
    (manifestHash : Digest) : Except ChannelError ChannelMessage :=
  match attestation.subject with
  | .send subject => do
    require (request.kind = .request) ChannelError.journalDamaged
    let intent := subject.intent request.envelope.payload
    require (AuthorizesSend payloadDigest attestation intent manifestHash)
      ChannelError.journalDamaged
    require (messageForIntent ids intent request.envelope.createdAt = .ok request)
      ChannelError.journalDamaged
    return request
  | _ => .error .journalDamaged

end Send

section Lemmas

variable {ids : ChannelIds} {payloadDigest : Json → Digest} {attestation : Attestation}
  {intent : ChannelSendIntent} {manifestHash : Digest} {request m : ChannelMessage} {at' : Instant}

theorem CheckResult.ok_iff (c : CheckResult) : c.ok = true ↔ c.status = .passed := by
  rw [c.lockstep]
  simp

theorem CheckResult.validated_dump {coerce : Json → Option Bool}
    (bools : ∀ b, coerce (.bool b) = some b) (c : CheckResult) :
    c.dump.validated coerce = some c := by
  unfold CheckResult.dump CheckData.validated
  dsimp only
  rw [bools, Option.bind_eq_bind, Option.bind_some, dif_pos c.lockstep]
  rfl

theorem channelSendSubject_intent (intent : ChannelSendIntent) :
    (channelSendSubject payloadDigest intent).intent intent.payload = intent := rfl

theorem validatedAttestedChannelRequest_of
    (authorized : AuthorizesSend payloadDigest attestation intent manifestHash)
    (made : messageForIntent ids intent at' = .ok m) :
    validatedAttestedChannelRequest ids payloadDigest attestation m manifestHash = .ok m := by
  have payload : m.envelope.payload = intent.payload ∧ m.envelope.createdAt = at' := by
    unfold messageForIntent at made
    simp only [bind_eq_ok, require_eq_ok] at made
    obtain ⟨_, -, made⟩ := made
    cases made
    exact ⟨rfl, rfl⟩
  have kind := (messageForIntent_ok made).2.2.1
  have subject := authorized.2.2.2.2
  unfold validatedAttestedChannelRequest
  rw [subject]
  dsimp only
  rw [payload.1, payload.2, channelSendSubject_intent, require_of kind, ok_bind,
    require_of authorized, ok_bind, require_of made]
  rfl

theorem validatedAttestedChannelRequest_ok
    (h : validatedAttestedChannelRequest ids payloadDigest attestation request manifestHash = .ok m) :
    m = request ∧ request.kind = .request ∧ ∃ intent,
      AuthorizesSend payloadDigest attestation intent manifestHash ∧
      messageForIntent ids intent request.envelope.createdAt = .ok request := by
  unfold validatedAttestedChannelRequest at h
  cases subject : attestation.subject with
  | merge s =>
    rw [subject] at h
    cases h
  | component c v b =>
    rw [subject] at h
    cases h
  | git r c b t =>
    rw [subject] at h
    cases h
  | send s =>
    rw [subject] at h
    simp only [bind_eq_ok, require_eq_ok] at h
    obtain ⟨-, kind, -, authorized, -, made, h⟩ := h
    cases h
    exact ⟨rfl, kind, _, authorized, made⟩

end Lemmas

end Constructicon
