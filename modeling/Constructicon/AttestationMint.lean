import Constructicon.Attestation
import Constructicon.Panel

/-!
# Minting attestations

An attestation is identified by what it proves: a policy proof by its draft, the proof of a run by its draft and
the run. A call looks for the proof it minted before under every identity the proof can have, and mints one when
there is none. Rows of earlier eras are retained: the identity of a run's proof was once that of its draft alone,
and before that it was anything.
-/

namespace Constructicon

open Transaction PyJson

/-! ## What is hashed -/

def EffectAction.text : EffectAction → String
  | .merge => "merge"
  | .promote => "promote"
  | .send => "send"

def CheckStatus.text : CheckStatus → String
  | .passed => "passed"
  | .failed => "failed"
  | .conflict => "conflict"
  | .timeout => "timeout"
  | .cancelled => "cancelled"
  | .infrastructureError => "infrastructure_error"

def CheckResult.json (c : CheckResult) : Json :=
  .obj [("name", .str c.name), ("status", .str c.status.text), ("ok", .bool c.ok), ("detail", .str c.detail),
    ("elapsed_s", .float c.elapsed)]

def EvidenceRef.json : EvidenceRef → Json
  | .artifact digest mediaType size locator =>
    .obj [("digest", .str digest), ("media_type", .str mediaType), ("size", .int size),
      ("locator", Json.optStr locator)]
  | .git repository commit paths diffAgainst =>
    .obj [("repository", .str repository), ("commit", .str commit), ("paths", Json.strs paths),
      ("diff_against", Json.optStr diffAgainst)]

def ChannelSendSubject.json (s : ChannelSendSubject) : Json :=
  .obj [("kind", .str "channel_send"), ("message_id", .str s.messageId), ("channel_id", .str s.channelId),
    ("channel_revision", .str s.channelRevision), ("lane", .str s.lane),
    ("interaction", .str s.interaction.text), ("recipient_actor_id", Json.optStr s.recipientActorId),
    ("run_id", .str s.runId), ("path", s.path.dump), ("port", .str s.port), ("contract", s.contract.dump),
    ("reply_port", .str s.replyPort), ("reply_contract", s.replyContract.dump),
    ("payload_digest", .str s.payloadDigest)]

def MergeSubject.json (s : MergeSubject) : Json :=
  .obj [("kind", .str "git_merge"), ("repository", .str s.repository), ("target_ref", .str s.targetRef),
    ("candidate", .str s.candidate), ("expected_base", .str s.expectedBase),
    ("merge_commit", .str s.mergeCommit), ("tested_tree", .str s.testedTree)]

def AttestationSubject.json : AttestationSubject → Json
  | .merge subject => subject.json
  | .component name version baselineVersion =>
    .obj [("kind", .str "component"), ("component", .str name), ("version", .str version),
      ("baseline_version", Json.optStr baselineVersion)]
  | .send subject => subject.json
  | .git repository commit base testedTree =>
    .obj [("kind", .str "git"), ("repository", .str repository), ("commit", .str commit),
      ("base", Json.optStr base), ("tested_tree", Json.optStr testedTree)]

/-- `draft.model_dump(mode="json")` -/
def AttestationDraft.json (draft : AttestationDraft) : Json :=
  .obj [("action", .str draft.action.text), ("subject", draft.subject.json),
    ("checks", .arr (draft.checks.map CheckResult.json)), ("check_set_hash", .str draft.checkSetHash),
    ("evidence", .arr (draft.evidence.map EvidenceRef.json)), ("manifest_hash", .str draft.manifestHash),
    ("workspace_id", Json.optStr draft.workspaceId)]

/-- What the digest of the domain `attestation` hashes. -/
def attestationMaterial (version : ℤ) (payload : Json) : PyStr :=
  points "constructicon" ++ 0 :: (points "attestation" ++ 0 :: (integer version ++ 0 :: canonicalText payload))

section Identity

/- `sha` is the hexadecimal SHA-256 of a text. -/
variable (sha : PyStr → String)

def attestationIdFor (draft : AttestationDraft) : String :=
  "att-" ++ sha (attestationMaterial 1 draft.json)

def attestationIdForRun (draft : AttestationDraft) (runId : RunId) : String :=
  "att-" ++ sha (attestationMaterial 2 (.obj [("draft", draft.json), ("created_by_run", .str runId)]))

/-- The identity under which a new proof is minted: of a run, or of a policy. -/
def mintIdentity (draft : AttestationDraft) (creator : Option RunId) : String :=
  creator.elim (attestationIdFor sha draft) (attestationIdForRun sha draft)

end Identity

/-! ## The rows -/

/-- A draft as it can be built: its subject is a current one, and its floats are finite. -/
structure ProofDraft {φ : Type} (F : FloatText φ) extends AttestationDraft where
  current : ∀ repository commit base testedTree, subject ≠ .git repository commit base testedTree
  finite : ∀ c ∈ checks, ∃ f, c.elapsed = F.repr f

/-- One row; `bare` when its checks carry no status, as the first eras wrote them. -/
structure AttestationRow where
  attestation : Attestation
  bare : Bool := false
deriving DecidableEq

/-- The law under which a row was written. A proof of a run under the identity of its draft alone is
from before the identities of runs. -/
inductive AttestationProvenance where
  | m1m2
  | policyV1
  | runV2
  | runV1
deriving DecidableEq

inductive MintFault where
  | ownershipLost
  | contradictsManifest
  | sendNamesAnotherRun
  | policyOnly
  | journalDamaged
  | ownedByHistory
deriving DecidableEq

def AttestationSubject.Legacy : AttestationSubject → Bool
  | .component _ _ _ => true
  | .git _ _ _ _ => true
  | _ => false

def AttestationSubject.Historical : AttestationSubject → Bool
  | .git _ _ _ _ => true
  | _ => false

def AttestationSubject.OfComponent : AttestationSubject → Bool
  | .component _ _ _ => true
  | _ => false

structure MintStore where
  rows : List AttestationRow
  /-- Who owns each run. -/
  owners : RunId → Option (String × ℕ)
  /-- The attestations that promotions, messages and effects name. -/
  named : List String

section Minting

variable (sha : PyStr → String)

def AttestationRow.DraftNamed (row : AttestationRow) : Prop :=
  row.attestation.subject.Historical = false ∧
    attestationIdFor sha row.attestation.toAttestationDraft = row.attestation.attestationId

instance (row : AttestationRow) : Decidable (row.DraftNamed sha) := inferInstanceAs (Decidable (_ ∧ _))

def AttestationRow.RunNamed (row : AttestationRow) : Prop :=
  row.attestation.subject.Historical = false ∧ row.attestation.createdByRun.any fun run =>
    attestationIdForRun sha row.attestation.toAttestationDraft run = row.attestation.attestationId

instance (row : AttestationRow) : Decidable (row.RunNamed sha) := inferInstanceAs (Decidable (_ ∧ _))

/-- `_stored_attestation_from_json`: the law a row was written under, or damage. -/
def AttestationRow.provenance (row : AttestationRow) : Except MintFault AttestationProvenance :=
  let a := row.attestation
  let legacy := (a.action = .merge ∨ a.action = .promote) ∧ a.subject.Legacy
  if row.bare then if legacy then .ok .m1m2 else .error .journalDamaged
  else if row.DraftNamed sha then
    if a.createdByRun = none then
      if a.action = .promote ∧ a.subject.OfComponent then .ok .policyV1 else .error .journalDamaged
    else .ok .runV1
  else if row.RunNamed sha then .ok .runV2
  else if a.checks = [] ∧ legacy then .ok .m1m2 else .error .journalDamaged

/- `manifests` is the manifest hash of each retained run. -/
variable (manifests : RunId → Option Digest)

/-- `_require_current_creator`: the run that a proof names has the proof's manifest. -/
def AttestationRow.CreatorHolds (row : AttestationRow) (provenance : AttestationProvenance) : Prop :=
  provenance = .m1m2 ∨ ∀ run ∈ row.attestation.createdByRun, manifests run = some row.attestation.manifestHash

instance (row : AttestationRow) (provenance : AttestationProvenance) :
    Decidable (row.CreatorHolds manifests provenance) := inferInstanceAs (Decidable (_ ∨ _))

/-- `require_attestation_seal`, the seals left aside. -/
def AttestationRow.stored (row : AttestationRow) : Except MintFault AttestationProvenance := do
  let provenance ← row.provenance sha
  require (row.CreatorHolds manifests provenance) MintFault.journalDamaged
  return provenance

/-- The rows that a query for an identity meets: those that have it, and those that cannot be read. -/
def AttestationRow.Selected (id : String) (row : AttestationRow) : Bool :=
  row.attestation.attestationId = id ∨ ¬(row.provenance sha).isOk

/-- `stored_attestation_for_id` -/
def storedAttestationForId (s : MintStore) (id : String) :
    Except MintFault (Option (Attestation × AttestationProvenance)) :=
  match s.rows.filter (AttestationRow.Selected sha id) with
  | [] => if id ∈ s.named then .error .journalDamaged else .ok none
  | [row] => do
    require (row.attestation.attestationId = id) MintFault.journalDamaged
    let provenance ← row.stored sha manifests
    return some (row.attestation, provenance)
  | _ => .error .journalDamaged

/-- One round of `_stored_attestation_for_draft`, over a row that was found. -/
def judgeStored (draft : AttestationDraft) (creator : Option RunId) (id : String)
    (stored : Attestation × AttestationProvenance) : Except MintFault (Option Attestation) := do
  let proof := stored.1
  let expected : Attestation :=
    { draft with attestationId := id, createdByRun := proof.createdByRun, createdAt := proof.createdAt }
  require (proof = expected) MintFault.journalDamaged
  if proof.createdByRun = creator then return some proof else
    require (¬(creator = none ∧ stored.2 = .runV1)) MintFault.ownedByHistory
    require (id = attestationIdFor sha draft) MintFault.journalDamaged
    return none

/-- The loop of `_stored_attestation_for_draft`. -/
def seekStored (s : MintStore) (draft : AttestationDraft) (creator : Option RunId) :
    List String → Except MintFault (Option Attestation)
  | [] => .ok none
  | id :: ids => do
    let stored ← storedAttestationForId sha manifests s id
    let found ← stored.elim (.ok none) (judgeStored sha draft creator id)
    found.elim (seekStored s draft creator ids) fun proof => .ok (some proof)

/-- `_stored_attestation_for_draft` -/
def storedAttestationForDraft (s : MintStore) (draft : AttestationDraft) (creator : Option RunId) :
    Except MintFault (Option Attestation) :=
  seekStored sha manifests s draft creator
    (creator.elim [attestationIdFor sha draft]
      fun run => [attestationIdForRun sha draft run, attestationIdFor sha draft])

/-- `_insert_attestation`, with `seal_attestation`. -/
def insertAttestation (s : MintStore) (attestation : Attestation) : Except MintFault MintStore := do
  let prior ← storedAttestationForId sha manifests s attestation.attestationId
  match prior with
  | some stored =>
    require ({ stored.1 with createdAt := attestation.createdAt } = attestation) MintFault.journalDamaged
    return s
  | none =>
    let row : AttestationRow := { attestation := attestation }
    let provenance ← row.provenance sha
    require (provenance ≠ .runV1) MintFault.journalDamaged
    require (row.CreatorHolds manifests provenance) MintFault.journalDamaged
    return { s with rows := s.rows ++ [row] }

def mintStored (s : MintStore) (draft : AttestationDraft) (creator : Option RunId) (now : Instant) :
    Except MintFault (Attestation × MintStore) := do
  let stored ← storedAttestationForDraft sha manifests s draft creator
  match stored with
  | some attestation => return (attestation, s)
  | none =>
    let attestation : Attestation :=
      { draft with
        attestationId := mintIdentity sha draft creator
        createdByRun := creator
        createdAt := now }
    let s' ← insertAttestation sha manifests s attestation
    return (attestation, s')

def AttestationSubject.SentBy (run : RunId) : AttestationSubject → Bool
  | .send subject => subject.runId = run
  | _ => false

def mintAttestation (s : MintStore) (lease : RunLease) (draft : AttestationDraft) (now : Instant) :
    Except MintFault (Attestation × MintStore) := do
  require (s.owners lease.runId = some (lease.ownerId, lease.epoch)) MintFault.ownershipLost
  require (manifests lease.runId = some draft.manifestHash) MintFault.contradictsManifest
  require (draft.action = .send → draft.subject.SentBy lease.runId) MintFault.sendNamesAnotherRun
  mintStored sha manifests s draft (some lease.runId) now

def mintPolicyAttestation (s : MintStore) (draft : AttestationDraft) (now : Instant) :
    Except MintFault (Attestation × MintStore) := do
  require (draft.action = .promote ∧ draft.subject.OfComponent) MintFault.policyOnly
  mintStored sha manifests s draft none now

/-! ## Runs of calls -/

variable {φ : Type} (F : FloatText φ)

inductive MintCall where
  | attestation (lease : RunLease) (draft : ProofDraft F) (now : Instant)
  | policy (draft : ProofDraft F) (now : Instant)

variable {F}

namespace MintCall

def draft : MintCall F → AttestationDraft
  | .attestation _ draft _ => draft.toAttestationDraft
  | .policy draft _ => draft.toAttestationDraft

def creator : MintCall F → Option RunId
  | .attestation lease _ _ => some lease.runId
  | .policy _ _ => none

def answer (s : MintStore) : MintCall F → Except MintFault (Attestation × MintStore)
  | .attestation lease draft now => mintAttestation sha manifests s lease draft.toAttestationDraft now
  | .policy draft now => mintPolicyAttestation sha manifests s draft.toAttestationDraft now

end MintCall

variable (F) in
/-- A call, a change of owner, or a fact that names an attestation that is there. -/
inductive MintAction where
  | call (call : MintCall F)
  | own (run : RunId) (owner : Option (String × ℕ))
  | name (id : String)

namespace MintStore

def step (s : MintStore) : MintAction F → MintStore
  | .call call => ((call.answer sha manifests s).map Prod.snd).toOption.getD s
  | .own run owner => { s with owners := Function.update s.owners run owner }
  | .name id =>
    if id ∈ s.rows.map (·.attestation.attestationId) then { s with named := id :: s.named } else s

def run (s : MintStore) (acts : List (MintAction F)) : MintStore :=
  acts.foldl (step sha manifests) s

/-- A store as any era left it: one readable row to an identity, and no name without its row. -/
structure Sound (s : MintStore) : Prop where
  unique : (s.rows.map (·.attestation.attestationId)).Nodup
  readable : ∀ row ∈ s.rows, ∃ provenance, row.stored sha manifests = .ok provenance
  named : ∀ id ∈ s.named, id ∈ s.rows.map (·.attestation.attestationId)

end MintStore

end Minting

/-! ## The identity of a draft -/

theorem EffectAction.text_injective : Function.Injective EffectAction.text := by
  intro a b same
  cases a <;> cases b <;> first | rfl | simp [EffectAction.text] at same

theorem CheckStatus.text_injective : Function.Injective CheckStatus.text := by
  intro a b same
  cases a <;> cases b <;> first | rfl | simp [CheckStatus.text] at same

theorem CheckResult.eq_of_canonical {c c' : CheckResult} (same : c.json.canonical = c'.json.canonical) :
    c = c' := by
  have entries := Json.entries_of_canonical (by rfl) same
  simp only [List.map_cons, List.map_nil, List.cons.injEq, Prod.mk.injEq, Json.canonical, Json.str.injEq,
    Json.bool.injEq, Json.float.injEq, true_and, and_true] at entries
  obtain ⟨name, status, ok, detail, elapsed⟩ := entries
  cases c
  cases c'
  simp only [CheckResult.mk.injEq]
  exact ⟨name, CheckStatus.text_injective status, ok, detail, elapsed⟩

theorem EvidenceRef.eq_of_canonical {e e' : EvidenceRef} (same : e.json.canonical = e'.json.canonical) :
    e = e' := by
  cases e with
  | artifact digest mediaType size locator =>
    cases e' with
    | artifact digest' mediaType' size' locator' =>
      have entries := Json.entries_of_canonical (by rfl) same
      simp only [List.map_cons, List.map_nil, List.cons.injEq, Prod.mk.injEq, Json.canonical_str,
        Json.canonical_int, Json.canonical_optStr, Json.str.injEq, Json.int.injEq, true_and, and_true] at entries
      obtain ⟨rfl, rfl, size, locator⟩ := entries
      rw [Int.ofNat.inj size, Json.optStr_injective locator]
    | git repository commit paths diffAgainst =>
      have key := Json.mem_keysOf_of_canonical (k := "digest") same (by simp [EvidenceRef.json, Json.keysOf])
      simp [EvidenceRef.json, Json.keysOf] at key
  | git repository commit paths diffAgainst =>
    cases e' with
    | artifact digest mediaType size locator =>
      have key := Json.mem_keysOf_of_canonical (k := "commit") same (by simp [EvidenceRef.json, Json.keysOf])
      simp [EvidenceRef.json, Json.keysOf] at key
    | git repository' commit' paths' diffAgainst' =>
      have entries := Json.entries_of_canonical (by rfl) same
      simp only [List.map_cons, List.map_nil, List.cons.injEq, Prod.mk.injEq, Json.canonical_str,
        Json.canonical_strs, Json.canonical_optStr, Json.str.injEq, true_and, and_true] at entries
      obtain ⟨rfl, rfl, paths, diff⟩ := entries
      rw [Json.strs_injective paths, Json.optStr_injective diff]

def AttestationSubject.ownKey : AttestationSubject → String
  | .merge _ => "target_ref"
  | .component _ _ _ => "component"
  | .send _ => "channel_id"
  | .git _ _ _ _ => "commit"

theorem AttestationSubject.ownKey_mem (s s' : AttestationSubject) :
    s.ownKey ∈ s'.json.keysOf ↔ s.ownKey = s'.ownKey := by
  cases s <;> cases s' <;>
    simp [AttestationSubject.ownKey, AttestationSubject.json, Json.keysOf, MergeSubject.json,
      ChannelSendSubject.json]

theorem MergeSubject.eq_of_canonical {s s' : MergeSubject} (same : s.json.canonical = s'.json.canonical) :
    s = s' := by
  have entries := Json.entries_of_canonical (by rfl) same
  simp only [List.map_cons, List.map_nil, List.cons.injEq, Prod.mk.injEq, Json.canonical_str,
    Json.str.injEq, true_and, and_true] at entries
  cases s
  cases s'
  simpa only [MergeSubject.mk.injEq] using entries

theorem Contract.eq_of_canonical {c c' : Contract} (same : c.dump.canonical = c'.dump.canonical) : c = c' := by
  have entries := Json.entries_of_canonical (by rfl) same
  simp only [List.map_cons, List.map_nil, List.cons.injEq, Prod.mk.injEq, Json.canonical_str,
    Json.str.injEq, true_and, and_true] at entries
  cases c
  cases c'
  simpa only [Contract.mk.injEq] using entries

theorem ChannelSendSubject.eq_of_canonical {s s' : ChannelSendSubject}
    (same : s.json.canonical = s'.json.canonical) : s = s' := by
  have entries := Json.entries_of_canonical (by rfl) same
  simp only [List.map_cons, List.map_nil, List.cons.injEq, Prod.mk.injEq, Json.canonical_str,
    Json.canonical_optStr, ExecutionPath.canonical_dump, Json.str.injEq, true_and, and_true] at entries
  obtain ⟨message, channel, revision, lane, interaction, recipient, run, path, port, contract, replyPort,
    replyContract, payload⟩ := entries
  have interaction' : s.interaction = s'.interaction := by
    cases hs : s.interaction <;> cases hs' : s'.interaction <;>
      first | rfl | simp [hs, hs', ChannelInteraction.text] at interaction
  cases s
  cases s'
  simp only [ChannelSendSubject.mk.injEq]
  exact ⟨message, channel, revision, lane, interaction', Json.optStr_injective recipient, run,
    ExecutionPath.dump_injective path, port, Contract.eq_of_canonical contract, replyPort,
    Contract.eq_of_canonical replyContract, payload⟩

theorem AttestationSubject.eq_of_canonical {s s' : AttestationSubject}
    (same : s.json.canonical = s'.json.canonical) : s = s' := by
  have kind : s.ownKey = s'.ownKey :=
    (ownKey_mem s s').mp (Json.mem_keysOf_of_canonical same ((ownKey_mem s s).mpr rfl))
  cases s with
  | merge subject =>
    cases s' with
    | merge subject' => rw [MergeSubject.eq_of_canonical same]
    | _ => simp [ownKey] at kind
  | component name version baseline =>
    cases s' with
    | component name' version' baseline' =>
      have entries := Json.entries_of_canonical (by rfl) same
      simp only [List.map_cons, List.map_nil, List.cons.injEq, Prod.mk.injEq, Json.canonical_str,
        Json.canonical_optStr, Json.str.injEq, true_and, and_true] at entries
      obtain ⟨rfl, rfl, baseline⟩ := entries
      rw [Json.optStr_injective baseline]
    | _ => simp [ownKey] at kind
  | send subject =>
    cases s' with
    | send subject' => rw [ChannelSendSubject.eq_of_canonical same]
    | _ => simp [ownKey] at kind
  | git repository commit base tree =>
    cases s' with
    | git repository' commit' base' tree' =>
      have entries := Json.entries_of_canonical (by rfl) same
      simp only [List.map_cons, List.map_nil, List.cons.injEq, Prod.mk.injEq, Json.canonical_str,
        Json.canonical_optStr, Json.str.injEq, true_and, and_true] at entries
      obtain ⟨rfl, rfl, base, tree⟩ := entries
      rw [Json.optStr_injective base, Json.optStr_injective tree]
    | _ => simp [ownKey] at kind

theorem AttestationDraft.eq_of_canonical {d d' : AttestationDraft}
    (same : d.json.canonical = d'.json.canonical) : d = d' := by
  have entries := Json.entries_of_canonical (by rfl) same
  simp only [List.map_cons, List.map_nil, List.cons.injEq, Prod.mk.injEq, Json.canonical_str,
    Json.canonical_optStr, Json.canonical_arr, Json.str.injEq, Json.arr.injEq, List.map_map, true_and,
    and_true] at entries
  obtain ⟨action, subject, checks, checkSet, evidence, manifest, workspace⟩ := entries
  have checked : Function.Injective (Json.canonical ∘ CheckResult.json) := fun _ _ => CheckResult.eq_of_canonical
  have evident : Function.Injective (Json.canonical ∘ EvidenceRef.json) := fun _ _ => EvidenceRef.eq_of_canonical
  cases d
  cases d'
  simp only [AttestationDraft.mk.injEq]
  exact ⟨EffectAction.text_injective action, AttestationSubject.eq_of_canonical subject,
    List.map_injective_iff.mpr checked checks, checkSet, List.map_injective_iff.mpr evident evidence, manifest,
    Json.optStr_injective workspace⟩

section Wire

variable {φ : Type} (F : FloatText φ)

theorem wire_optStr (o : Option String) : WireValue F (Json.optStr o) := by
  cases o with
  | none => exact .null
  | some s => exact .str s

theorem wire_contract (c : Contract) : WireValue F c.dump := by
  refine .obj (by simp) ?_
  simp only [List.forall_mem_cons, List.not_mem_nil, false_imp_iff, implies_true, and_true]
  exact ⟨.str _, .str _⟩

theorem wire_check {c : CheckResult} (finite : ∃ f, c.elapsed = F.repr f) : WireValue F c.json := by
  obtain ⟨f, printed⟩ := finite
  refine .obj (by simp) ?_
  simp only [List.forall_mem_cons, List.not_mem_nil, false_imp_iff, implies_true, and_true]
  rw [printed]
  exact ⟨.str _, .str _, .bool _, .str _, .float f⟩

theorem wire_evidence (e : EvidenceRef) : WireValue F e.json := by
  cases e with
  | artifact digest mediaType size locator =>
    refine .obj (by simp) ?_
    simp only [List.forall_mem_cons, List.not_mem_nil, false_imp_iff, implies_true, and_true]
    exact ⟨.str _, .str _, .int _, wire_optStr F _⟩
  | git repository commit paths diffAgainst =>
    refine .obj (by simp) ?_
    simp only [List.forall_mem_cons, List.not_mem_nil, false_imp_iff, implies_true, and_true]
    exact ⟨.str _, .str _, wire_strs F _, wire_optStr F _⟩

theorem wire_subject (s : AttestationSubject) : WireValue F s.json := by
  cases s with
  | merge subject =>
    refine .obj (by simp) ?_
    simp only [List.forall_mem_cons, List.not_mem_nil, false_imp_iff, implies_true, and_true]
    exact ⟨.str _, .str _, .str _, .str _, .str _, .str _, .str _⟩
  | component name version baseline =>
    refine .obj (by simp) ?_
    simp only [List.forall_mem_cons, List.not_mem_nil, false_imp_iff, implies_true, and_true]
    exact ⟨.str _, .str _, .str _, wire_optStr F _⟩
  | send subject =>
    refine .obj (by simp) ?_
    simp only [List.forall_mem_cons, List.not_mem_nil, false_imp_iff, implies_true, and_true]
    exact ⟨.str _, .str _, .str _, .str _, .str _, .str _, wire_optStr F _, .str _, wire_path F _, .str _,
      wire_contract F _, .str _, wire_contract F _, .str _⟩
  | git repository commit base tree =>
    refine .obj (by simp) ?_
    simp only [List.forall_mem_cons, List.not_mem_nil, false_imp_iff, implies_true, and_true]
    exact ⟨.str _, .str _, .str _, wire_optStr F _, wire_optStr F _⟩

variable {F}

theorem wire_draft (d : ProofDraft F) : WireValue F d.json := by
  refine .obj (by simp) ?_
  simp only [List.forall_mem_cons, List.not_mem_nil, false_imp_iff, implies_true, and_true]
  refine ⟨.str _, wire_subject F _, .arr ?_, .str _, .arr ?_, .str _, wire_optStr F _⟩
  · intro j found
    obtain ⟨c, held, rfl⟩ := List.mem_map.mp found
    exact wire_check F (d.finite c held)
  · intro j found
    obtain ⟨e, -, rfl⟩ := List.mem_map.mp found
    exact wire_evidence F e

theorem wire_scoped (d : ProofDraft F) (run : RunId) :
    WireValue F (.obj [("draft", d.json), ("created_by_run", .str run)]) := by
  refine .obj (by simp) ?_
  simp only [List.forall_mem_cons, List.not_mem_nil, false_imp_iff, implies_true, and_true]
  exact ⟨wire_draft d, .str _⟩

theorem attestationMaterial_injective {v v' : ℤ} {p p' : Json} (wire : WireValue F p) (wire' : WireValue F p')
    (same : attestationMaterial v p = attestationMaterial v' p') : v = v' ∧ p.canonical = p'.canonical := by
  unfold attestationMaterial at same
  rw [List.append_cancel_left_eq, List.cons.injEq] at same
  obtain ⟨-, rest⟩ := split_at_nul (by decide) (by decide) same.2
  obtain ⟨number, text⟩ := split_at_nul (nul_integer _) (nul_integer _) rest
  have version := congrArg ofInteger number
  rw [ofInteger_integer, ofInteger_integer] at version
  exact ⟨version, dumps_injective F wire.canonical wire'.canonical text⟩

theorem attestation_text {a b : String} (same : "att-" ++ a = "att-" ++ b) : a = b := by
  have lists := congrArg String.toList same
  rw [String.toList_append, String.toList_append, List.append_cancel_left_eq] at lists
  exact String.toList_inj.mp lists

theorem mintIdentity_injective {sha : PyStr → String} (injective : Function.Injective sha) {d d' : ProofDraft F}
    {c c' : Option RunId}
    (same : mintIdentity sha d.toAttestationDraft c = mintIdentity sha d'.toAttestationDraft c') :
    d.toAttestationDraft = d'.toAttestationDraft ∧ c = c' := by
  cases c with
  | none =>
    cases c' with
    | none =>
      obtain ⟨-, payload⟩ :=
        attestationMaterial_injective (wire_draft d) (wire_draft d') (injective (attestation_text same))
      exact ⟨AttestationDraft.eq_of_canonical payload, rfl⟩
    | some run' =>
      obtain ⟨version, -⟩ :=
        attestationMaterial_injective (wire_draft d) (wire_scoped d' run') (injective (attestation_text same))
      cases version
  | some run =>
    cases c' with
    | none =>
      obtain ⟨version, -⟩ :=
        attestationMaterial_injective (wire_scoped d run) (wire_draft d') (injective (attestation_text same))
      cases version
    | some run' =>
      obtain ⟨-, payload⟩ :=
        attestationMaterial_injective (wire_scoped d run) (wire_scoped d' run') (injective (attestation_text same))
      have entries := Json.entries_of_canonical (by rfl) payload
      simp only [List.map_cons, List.map_nil, List.cons.injEq, Prod.mk.injEq, Json.canonical_str, Json.str.injEq,
        true_and, and_true] at entries
      exact ⟨AttestationDraft.eq_of_canonical entries.1, congrArg some entries.2⟩

end Wire

/-! ## What a lookup finds -/

section Lookup

variable {sha : PyStr → String} {manifests : RunId → Option Digest} {s : MintStore} {draft : AttestationDraft}
  {creator : Option RunId} {a : Attestation} {id : String}

def MintStore.ids (s : MintStore) : List String := s.rows.map (·.attestation.attestationId)

theorem stored_provenance {row : AttestationRow} {p : AttestationProvenance}
    (stored : row.stored sha manifests = .ok p) : row.provenance sha = .ok p ∧ row.CreatorHolds manifests p := by
  unfold AttestationRow.stored at stored
  simp only [bind_eq_ok, require_eq_ok] at stored
  obtain ⟨p', read, _, holds, same⟩ := stored
  cases same
  exact ⟨read, holds⟩

theorem select_sound (sound : s.Sound sha manifests) (id : String) :
    s.rows.filter (AttestationRow.Selected sha id) = s.rows.filter fun row => row.attestation.attestationId = id := by
  apply List.filter_congr
  intro row held
  obtain ⟨p, stored⟩ := sound.readable row held
  simp [AttestationRow.Selected, (stored_provenance stored).1, Except.isOk, Except.toBool]

theorem filter_unique {rows : List AttestationRow} (unique : (rows.map (·.attestation.attestationId)).Nodup)
    {row : AttestationRow} (held : row ∈ rows) :
    (rows.filter fun other => other.attestation.attestationId = row.attestation.attestationId) = [row] := by
  induction rows with
  | nil => cases held
  | cons first rest ih =>
    rw [List.map_cons, List.nodup_cons] at unique
    rcases List.mem_cons.mp held with rfl | later
    · rw [List.filter_cons_of_pos (by simp), List.filter_eq_nil_iff.mpr ?_]
      intro other found
      have distinct := fun same => unique.1 (List.mem_map.mpr ⟨other, found, same⟩)
      simpa using distinct
    · rw [List.filter_cons_of_neg ?_, ih unique.2 later]
      have distinct := fun same => unique.1 (List.mem_map.mpr ⟨row, later, same⟩)
      simpa using fun same => distinct same.symm

theorem storedForId_found (sound : s.Sound sha manifests) {row : AttestationRow} (held : row ∈ s.rows) :
    ∃ p, row.stored sha manifests = .ok p ∧
      storedAttestationForId sha manifests s row.attestation.attestationId = .ok (some (row.attestation, p)) := by
  obtain ⟨p, stored⟩ := sound.readable row held
  refine ⟨p, stored, ?_⟩
  unfold storedAttestationForId
  rw [select_sound sound, filter_unique sound.unique held]
  dsimp only
  rw [require_of rfl, ok_bind, stored]
  rfl

theorem storedForId_absent (sound : s.Sound sha manifests) (absent : id ∉ s.ids) :
    storedAttestationForId sha manifests s id = .ok none := by
  have nothing : (s.rows.filter fun row => row.attestation.attestationId = id) = [] := by
    rw [List.filter_eq_nil_iff]
    intro row held same
    exact absent (List.mem_map.mpr ⟨row, held, by simpa using same⟩)
  unfold storedAttestationForId
  rw [select_sound sound, nothing]
  exact if_neg fun named => absent (sound.named id named)

theorem storedForId_ok {found : Option (Attestation × AttestationProvenance)}
    (read : storedAttestationForId sha manifests s id = .ok found) :
    (found = none ∧ id ∉ s.ids) ∨
      ∃ row ∈ s.rows, ∃ p, found = some (row.attestation, p) ∧ row.attestation.attestationId = id := by
  unfold storedAttestationForId at read
  split at read
  case h_1 nothing =>
    split at read
    case isTrue => cases read
    case isFalse =>
      cases read
      refine .inl ⟨rfl, ?_⟩
      intro listed
      obtain ⟨row, held, same⟩ := List.mem_map.mp listed
      have unselected := List.filter_eq_nil_iff.mp nothing row held
      exact unselected (by simp [AttestationRow.Selected, same])
  case h_2 row single =>
    simp only [bind_eq_ok, require_eq_ok] at read
    obtain ⟨_, same, p, -, answer⟩ := read
    cases answer
    have held : row ∈ s.rows.filter (AttestationRow.Selected sha id) := by
      rw [single]
      exact List.mem_singleton_self row
    exact .inr ⟨row, (List.mem_filter.mp held).1, p, rfl, same⟩
  case h_3 => cases read

theorem judgeStored_some {stored : Attestation × AttestationProvenance}
    (judged : judgeStored sha draft creator id stored = .ok (some a)) :
    a = stored.1 ∧ a.toAttestationDraft = draft ∧ a.createdByRun = creator := by
  unfold judgeStored at judged
  simp only [bind_eq_ok, require_eq_ok] at judged
  obtain ⟨_, expected, judged⟩ := judged
  split at judged
  case isTrue own =>
    cases judged
    refine ⟨rfl, ?_, own⟩
    rw [expected]
  case isFalse =>
    simp only [bind_eq_ok] at judged
    obtain ⟨_, -, _, -, judged⟩ := judged
    cases judged

theorem judgeStored_none {stored : Attestation × AttestationProvenance}
    (judged : judgeStored sha draft creator id stored = .ok none) :
    stored.1.createdByRun ≠ creator ∧ id = attestationIdFor sha draft := by
  unfold judgeStored at judged
  simp only [bind_eq_ok, require_eq_ok] at judged
  obtain ⟨_, -, judged⟩ := judged
  split at judged
  case isTrue => cases judged
  case isFalse other =>
    simp only [bind_eq_ok, require_eq_ok] at judged
    obtain ⟨_, -, _, same, -⟩ := judged
    exact ⟨other, same⟩

theorem judgeStored_own {stored : Attestation × AttestationProvenance}
    (own : stored.1.toAttestationDraft = draft) (by' : stored.1.createdByRun = creator)
    (same : stored.1.attestationId = id) : judgeStored sha draft creator id stored = .ok (some stored.1) := by
  obtain ⟨proof, p⟩ := stored
  dsimp only at own by' same
  subst own by' same
  unfold judgeStored
  dsimp only
  rw [require_of rfl, ok_bind, if_pos rfl]
  rfl

theorem seekStored_cons {ids : List String} {found : Option Attestation}
    (sought : seekStored sha manifests s draft creator (id :: ids) = .ok found) :
    (∃ row ∈ s.rows, row.attestation.attestationId = id ∧ found = some row.attestation ∧
        row.attestation.toAttestationDraft = draft ∧ row.attestation.createdByRun = creator) ∨
      ((id ∉ s.ids ∨ id = attestationIdFor sha draft ∧
          ∃ row ∈ s.rows, row.attestation.attestationId = id ∧ row.attestation.createdByRun ≠ creator) ∧
        seekStored sha manifests s draft creator ids = .ok found) := by
  rw [seekStored] at sought
  simp only [bind_eq_ok] at sought
  obtain ⟨stored, read, judged, verdict, next⟩ := sought
  rcases storedForId_ok read with ⟨rfl, absent⟩ | ⟨row, held, p, rfl, same⟩
  · cases verdict
    exact .inr ⟨.inl absent, next⟩
  · cases judged with
    | none =>
      obtain ⟨other, own⟩ := judgeStored_none verdict
      exact .inr ⟨.inr ⟨own, row, held, same, other⟩, next⟩
    | some proof =>
      obtain ⟨rfl, drafted, by'⟩ := judgeStored_some verdict
      exact .inl ⟨row, held, same, (Except.ok.inj next).symm, drafted, by'⟩

/-- A proof that a store has for a draft and a creator: under the identity of both, or, where there
is none, under that of the draft alone. -/
structure Resolved (sha : PyStr → String) (s : MintStore) (draft : AttestationDraft) (creator : Option RunId)
    (a : Attestation) : Prop where
  held : ∃ row ∈ s.rows, row.attestation = a
  drafted : a.toAttestationDraft = draft
  minter : a.createdByRun = creator
  identity : a.attestationId = mintIdentity sha draft creator ∨
    a.attestationId = attestationIdFor sha draft ∧ creator ≠ none ∧ mintIdentity sha draft creator ∉ s.ids

theorem resolved_of_ok (distinct : ∀ run ∈ creator, attestationIdForRun sha draft run ≠ attestationIdFor sha draft)
    (stored : storedAttestationForDraft sha manifests s draft creator = .ok (some a)) :
    Resolved sha s draft creator a := by
  cases creator with
  | none =>
    rcases seekStored_cons stored with ⟨row, held, same, found, drafted, by'⟩ | ⟨-, next⟩
    · cases found
      exact ⟨⟨row, held, rfl⟩, drafted, by', .inl same⟩
    · cases next
  | some run =>
    rcases seekStored_cons stored with ⟨row, held, same, found, drafted, by'⟩ | ⟨passed, next⟩
    · cases found
      exact ⟨⟨row, held, rfl⟩, drafted, by', .inl same⟩
    · have absent : attestationIdForRun sha draft run ∉ s.ids := by
        rcases passed with absent | ⟨same, -⟩
        · exact absent
        · exact absurd same (distinct run rfl)
      rcases seekStored_cons next with ⟨row, held, same, found, drafted, by'⟩ | ⟨-, next⟩
      · cases found
        exact ⟨⟨row, held, rfl⟩, drafted, by', .inr ⟨same, by simp, absent⟩⟩
      · cases next

theorem seekStored_stops (sound : s.Sound sha manifests) {row : AttestationRow} (held : row ∈ s.rows)
    (ids : List String) :
    seekStored sha manifests s row.attestation.toAttestationDraft row.attestation.createdByRun
      (row.attestation.attestationId :: ids) = .ok (some row.attestation) := by
  obtain ⟨p, -, found⟩ := storedForId_found sound held
  have judged : judgeStored sha row.attestation.toAttestationDraft row.attestation.createdByRun
      row.attestation.attestationId (row.attestation, p) = .ok (some row.attestation) :=
    judgeStored_own rfl rfl rfl
  rw [seekStored, found, ok_bind, Option.elim_some, judged, ok_bind]
  rfl

theorem seekStored_skips (sound : s.Sound sha manifests) (absent : id ∉ s.ids) (ids : List String) :
    seekStored sha manifests s draft creator (id :: ids) = seekStored sha manifests s draft creator ids := by
  rw [seekStored, storedForId_absent sound absent, ok_bind, Option.elim_none, ok_bind]
  rfl

theorem ok_of_resolved (sound : s.Sound sha manifests) (resolved : Resolved sha s draft creator a) :
    storedAttestationForDraft sha manifests s draft creator = .ok (some a) := by
  obtain ⟨⟨row, held, rfl⟩, rfl, rfl, identity⟩ := resolved
  unfold storedAttestationForDraft
  cases creator : row.attestation.createdByRun with
  | none =>
    rw [creator] at identity
    rcases identity with own | ⟨-, some', -⟩
    · have stops := seekStored_stops sound held []
      rw [creator, own] at stops
      exact stops
    · exact absurd rfl some'
  | some run =>
    rw [creator] at identity
    rcases identity with own | ⟨old, -, absent⟩
    · have stops := seekStored_stops sound held
        [attestationIdFor sha row.attestation.toAttestationDraft]
      rw [creator, own] at stops
      exact stops
    · have stops := seekStored_stops sound held []
      rw [creator, old] at stops
      have skips : attestationIdForRun sha row.attestation.toAttestationDraft run ∉ s.ids := absent
      rw [Option.elim_some, seekStored_skips sound skips]
      exact stops

end Lookup

/-! ## What a call does -/

section Calls

variable {sha : PyStr → String} {manifests : RunId → Option Digest} {s s' : MintStore} {draft : AttestationDraft}
  {creator : Option RunId} {a : Attestation} {now : Instant}

def MintStore.more (s : MintStore) (a : Attestation) : MintStore :=
  { s with rows := s.rows ++ [{ attestation := a }] }

theorem insert_cases (inserted : insertAttestation sha manifests s a = .ok s') :
    (s' = s ∧ ∃ row ∈ s.rows, { row.attestation with createdAt := a.createdAt } = a) ∨
      (s' = s.more a ∧ a.attestationId ∉ s.ids ∧
        ∃ p, AttestationRow.stored sha manifests { attestation := a } = .ok p) := by
  unfold insertAttestation at inserted
  simp only [bind_eq_ok] at inserted
  obtain ⟨prior, read, inserted⟩ := inserted
  rcases storedForId_ok read with ⟨rfl, absent⟩ | ⟨row, held, p, rfl, same⟩
  · simp only [bind_eq_ok, require_eq_ok] at inserted
    obtain ⟨p, provenance, _, -, _, holds, answer⟩ := inserted
    cases answer
    refine .inr ⟨rfl, absent, p, ?_⟩
    unfold AttestationRow.stored
    rw [provenance, ok_bind, require_of holds]
    rfl
  · simp only [bind_eq_ok, require_eq_ok] at inserted
    obtain ⟨_, same, answer⟩ := inserted
    cases answer
    exact .inl ⟨rfl, row, held, same⟩

theorem mint_cases (sound : s.Sound sha manifests) (minted : mintStored sha manifests s draft creator now = .ok (a, s')) :
    (s' = s ∧ storedAttestationForDraft sha manifests s draft creator = .ok (some a)) ∨
      (s' = s.more a ∧ storedAttestationForDraft sha manifests s draft creator = .ok none ∧
        a.toAttestationDraft = draft ∧ a.createdByRun = creator ∧
        a.attestationId = mintIdentity sha draft creator ∧ a.attestationId ∉ s.ids ∧
        ∃ p, AttestationRow.stored sha manifests { attestation := a } = .ok p) := by
  unfold mintStored at minted
  simp only [bind_eq_ok] at minted
  obtain ⟨stored, sought, minted⟩ := minted
  cases stored with
  | some proof =>
    cases minted
    exact .inl ⟨rfl, sought⟩
  | none =>
    simp only [bind_eq_ok] at minted
    obtain ⟨store, inserted, answer⟩ := minted
    cases answer
    rcases insert_cases inserted with ⟨-, row, held, same⟩ | ⟨rfl, absent, stored⟩
    · -- the identity was there: then the lookup had found it
      have resolved : Resolved sha s draft creator row.attestation := by
        have drafted := congrArg Attestation.toAttestationDraft same
        have by' := congrArg Attestation.createdByRun same
        have identity := congrArg Attestation.attestationId same
        exact ⟨⟨row, held, rfl⟩, drafted, by', .inl identity⟩
      rw [ok_of_resolved sound resolved] at sought
      cases sought
    · exact .inr ⟨rfl, sought, rfl, rfl, rfl, absent, stored⟩

theorem more_sound (sound : s.Sound sha manifests) (absent : a.attestationId ∉ s.ids)
    (stored : ∃ p, AttestationRow.stored sha manifests { attestation := a } = .ok p) :
    (s.more a).Sound sha manifests where
  unique := by
    simp only [MintStore.more, List.map_append, List.map_cons, List.map_nil]
    exact List.nodup_append.mpr ⟨sound.unique, List.nodup_singleton _, fun id listed id' own same =>
      absent (by rw [← List.mem_singleton.mp own, ← same]; exact listed)⟩
  readable := by
    intro row held
    rcases List.mem_append.mp held with before | new
    · exact sound.readable row before
    · rw [List.mem_singleton.mp new]
      exact stored
  named := by
    intro id named
    simp only [MintStore.more, List.map_append, List.mem_append]
    exact .inl (sound.named id named)

variable {φ : Type} {F : FloatText φ}

theorem answer_mints {call : MintCall F} (answered : call.answer sha manifests s = .ok (a, s')) :
    ∃ now, mintStored sha manifests s call.draft call.creator now = .ok (a, s') := by
  cases call with
  | attestation lease draft now =>
    unfold MintCall.answer mintAttestation at answered
    simp only [bind_eq_ok] at answered
    obtain ⟨_, -, _, -, _, -, minted⟩ := answered
    exact ⟨now, minted⟩
  | policy draft now =>
    unfold MintCall.answer mintPolicyAttestation at answered
    simp only [bind_eq_ok] at answered
    obtain ⟨_, -, minted⟩ := answered
    exact ⟨now, minted⟩

def MintCall.proof : MintCall F → ProofDraft F
  | .attestation _ draft _ => draft
  | .policy draft _ => draft

theorem MintCall.proof_draft (call : MintCall F) : call.proof.toAttestationDraft = call.draft := by
  cases call <;> rfl

theorem call_distinct (injective : Function.Injective sha) (call : MintCall F) :
    ∀ run ∈ call.creator, attestationIdForRun sha call.draft run ≠ attestationIdFor sha call.draft := by
  intro run _ same
  rw [← call.proof_draft] at same
  have two : mintIdentity sha call.proof.toAttestationDraft (some run) =
      mintIdentity sha call.proof.toAttestationDraft none := same
  cases (mintIdentity_injective injective two).2

theorem answer_resolved (injective : Function.Injective sha) (sound : s.Sound sha manifests) {call : MintCall F}
    (answered : call.answer sha manifests s = .ok (a, s')) :
    s'.Sound sha manifests ∧ Resolved sha s' call.draft call.creator a := by
  obtain ⟨now, minted⟩ := answer_mints answered
  rcases mint_cases sound minted with ⟨rfl, stored⟩ | ⟨rfl, -, drafted, by', identity, absent, stored⟩
  · exact ⟨sound, resolved_of_ok (call_distinct injective call) stored⟩
  · refine ⟨more_sound sound absent stored, ?_, drafted, by', .inl identity⟩
    exact ⟨{ attestation := a }, List.mem_append_right _ (List.mem_singleton_self _), rfl⟩

variable (sha manifests s) in
theorem step_call (call : MintCall F) :
    (s.step sha manifests (.call call) = s ∧ ∃ e, call.answer sha manifests s = .error e) ∨
      ∃ b, call.answer sha manifests s = .ok (b, s.step sha manifests (.call call)) := by
  have stepped : s.step sha manifests (.call call) =
      ((call.answer sha manifests s).map Prod.snd).toOption.getD s := rfl
  rw [stepped]
  cases answered : call.answer sha manifests s with
  | error e => exact .inl ⟨rfl, e, rfl⟩
  | ok answer => exact .inr ⟨answer.1, rfl⟩

variable (F sha manifests s) in
theorem step_name (id : String) :
    s.step sha manifests (MintAction.name (F := F) id) = s ∨
      id ∈ s.ids ∧ s.step sha manifests (MintAction.name (F := F) id) = { s with named := id :: s.named } := by
  by_cases there : id ∈ s.ids
  · exact .inr ⟨there, if_pos there⟩
  · exact .inl (if_neg there)

theorem step_sound (injective : Function.Injective sha) (sound : s.Sound sha manifests) (act : MintAction F) :
    (s.step sha manifests act).Sound sha manifests := by
  cases act with
  | call call =>
    rcases step_call sha manifests s call with ⟨same, -⟩ | ⟨b, answered⟩
    · rwa [same]
    · exact (answer_resolved injective sound answered).1
  | own run owner => exact ⟨sound.unique, sound.readable, sound.named⟩
  | name id =>
    rcases step_name sha manifests s F id with same | ⟨there, same⟩
    · rwa [same]
    · rw [same]
      refine ⟨sound.unique, sound.readable, ?_⟩
      intro id' named
      rcases List.mem_cons.mp named with rfl | before
      · exact there
      · exact sound.named id' before

theorem step_resolved (injective : Function.Injective sha) (sound : s.Sound sha manifests) (act : MintAction F)
    {call : MintCall F} (resolved : Resolved sha s call.draft call.creator a) :
    Resolved sha (s.step sha manifests act) call.draft call.creator a := by
  have unmoved : ∀ t : MintStore, t.rows = s.rows → Resolved sha t call.draft call.creator a := by
    intro t rows
    obtain ⟨held, drafted, minter, identity⟩ := resolved
    refine ⟨by rwa [rows], drafted, minter, ?_⟩
    unfold MintStore.ids
    rwa [rows]
  cases act with
  | own run owner => exact unmoved _ rfl
  | name id =>
    rcases step_name sha manifests s F id with same | ⟨-, same⟩
    · rwa [same]
    · rw [same]
      exact unmoved _ rfl
  | call other =>
    rcases step_call sha manifests s other with ⟨same, -⟩ | ⟨b, answered⟩
    · rwa [same]
    · obtain ⟨now, minted⟩ := answer_mints answered
      rcases mint_cases sound minted with ⟨same, -⟩ | ⟨grown, sought, -, -, identity, -, -⟩
      · rwa [same]
      rw [grown]
      obtain ⟨⟨row, held, found⟩, drafted, minter, own⟩ := resolved
      refine ⟨⟨row, List.mem_append_left _ held, found⟩, drafted, minter, ?_⟩
      rcases own with own | ⟨old, some', absent⟩
      · exact .inl own
      refine .inr ⟨old, some', ?_⟩
      intro listed
      simp only [MintStore.ids, MintStore.more, List.map_append, List.mem_append, List.map_cons, List.map_nil,
        List.mem_singleton] at listed
      rcases listed with before | new
      · exact absent before
      · -- then the other call was for the same draft and run, which had its proof
        rw [identity, ← call.proof_draft, ← other.proof_draft] at new
        obtain ⟨same, by'⟩ := mintIdentity_injective injective new
        rw [call.proof_draft, other.proof_draft] at same
        have there : Resolved sha s other.draft other.creator a := by
          rw [← same, ← by']
          exact ⟨⟨row, held, found⟩, drafted, minter, .inr ⟨old, some', absent⟩⟩
        rw [ok_of_resolved sound there] at sought
        cases sought

theorem run_sound (injective : Function.Injective sha) (sound : s.Sound sha manifests) (acts : List (MintAction F)) :
    (s.run sha manifests acts).Sound sha manifests := by
  induction acts generalizing s with
  | nil => exact sound
  | cons act acts ih => exact ih (step_sound injective sound act)

theorem run_resolved (injective : Function.Injective sha) (sound : s.Sound sha manifests)
    (acts : List (MintAction F)) {call : MintCall F} (resolved : Resolved sha s call.draft call.creator a) :
    Resolved sha (s.run sha manifests acts) call.draft call.creator a := by
  induction acts generalizing s with
  | nil => exact resolved
  | cons act acts ih => exact ih (step_sound injective sound act) (step_resolved injective sound act resolved)

theorem mintPolicy_guard (answered : mintPolicyAttestation sha manifests s draft now = .ok (a, s')) :
    draft.action = .promote ∧ draft.subject.OfComponent := by
  unfold mintPolicyAttestation at answered
  simp only [bind_eq_ok, require_eq_ok] at answered
  obtain ⟨_, component, -⟩ := answered
  exact component

theorem mintPolicy_eq (component : draft.action = .promote ∧ draft.subject.OfComponent) (now : Instant) :
    mintPolicyAttestation sha manifests s draft now = mintStored sha manifests s draft none now := by
  unfold mintPolicyAttestation
  rw [require_of component, ok_bind]

theorem mintAttestation_guard {lease : RunLease}
    (answered : mintAttestation sha manifests s lease draft now = .ok (a, s')) :
    manifests lease.runId = some draft.manifestHash ∧
      (draft.action = .send → draft.subject.SentBy lease.runId) := by
  unfold mintAttestation at answered
  simp only [bind_eq_ok, require_eq_ok] at answered
  obtain ⟨_, -, _, manifest, _, sends, -⟩ := answered
  exact ⟨manifest, sends⟩

theorem mintAttestation_eq {lease : RunLease}
    (guarded : manifests lease.runId = some draft.manifestHash ∧
      (draft.action = .send → draft.subject.SentBy lease.runId)) (now : Instant) :
    mintAttestation sha manifests s lease draft now =
        mintStored sha manifests s draft (some lease.runId) now ∨
      mintAttestation sha manifests s lease draft now = .error .ownershipLost := by
  unfold mintAttestation
  by_cases owned : s.owners lease.runId = some (lease.ownerId, lease.epoch)
  · rw [require_of owned, ok_bind, require_of guarded.1, ok_bind, require_of guarded.2, ok_bind]
    exact .inl rfl
  · rw [require_of_not owned]
    exact .inr rfl

theorem answer_again (sound : s.Sound sha manifests) {call call' : MintCall F} {t t' : MintStore}
    {b : Attestation} (earlier : call.answer sha manifests t = .ok (b, t')) (drafts : call'.draft = call.draft)
    (creators : call'.creator = call.creator) (resolved : Resolved sha s call.draft call.creator a) :
    call'.answer sha manifests s = .ok (a, s) ∨ call'.answer sha manifests s = .error .ownershipLost := by
  have stored := ok_of_resolved sound resolved
  rw [← drafts, ← creators] at stored
  have again : ∀ now, mintStored sha manifests s call'.draft call'.creator now = .ok (a, s) := by
    intro now
    unfold mintStored
    rw [stored]
    rfl
  cases call with
  | policy draft now =>
    cases call' with
    | attestation lease' draft' now' => cases creators
    | policy draft' now' =>
      have entered : mintPolicyAttestation sha manifests t draft.toAttestationDraft now = .ok (b, t') := earlier
      have guarded := mintPolicy_guard entered
      rw [← show draft'.toAttestationDraft = draft.toAttestationDraft from drafts] at guarded
      exact .inl ((mintPolicy_eq guarded now').trans (again now'))
  | attestation lease draft now =>
    cases call' with
    | policy draft' now' => cases creators
    | attestation lease' draft' now' =>
      have entered : mintAttestation sha manifests t lease draft.toAttestationDraft now = .ok (b, t') := earlier
      have guarded := mintAttestation_guard entered
      rw [← show draft'.toAttestationDraft = draft.toAttestationDraft from drafts,
        ← show lease'.runId = lease.runId from Option.some.inj creators] at guarded
      rcases mintAttestation_eq (s := s) guarded now' with same | lost
      · exact .inl (same.trans (again now'))
      · exact .inr lost

theorem mintPolicy_new (sound : s.Sound sha manifests)
    (component : draft.action = .promote ∧ draft.subject.OfComponent) (absent : attestationIdFor sha draft ∉ s.ids)
    (now : Instant) : ∃ a, mintPolicyAttestation sha manifests s draft now = .ok (a, s.more a) := by
  let minted : Attestation :=
    { draft with attestationId := attestationIdFor sha draft, createdByRun := none, createdAt := now }
  refine ⟨minted, ?_⟩
  have unsought : storedAttestationForDraft sha manifests s draft none = .ok none :=
    seekStored_skips sound absent []
  have current : draft.subject.Historical = false := by
    cases subject : draft.subject <;> simp [subject, AttestationSubject.OfComponent] at component
    rfl
  have provenance : AttestationRow.provenance sha { attestation := minted } = .ok .policyV1 := by
    unfold AttestationRow.provenance
    dsimp only
    rw [if_neg (by simp), if_pos ⟨current, rfl⟩, if_pos rfl, if_pos component]
  have holds : AttestationRow.CreatorHolds manifests { attestation := minted } .policyV1 :=
    .inr fun run created => by cases created
  have inserted : insertAttestation sha manifests s minted = .ok (s.more minted) := by
    unfold insertAttestation
    rw [storedForId_absent sound absent, ok_bind]
    dsimp only
    rw [provenance, ok_bind, require_of (by decide), ok_bind, require_of holds, ok_bind]
    rfl
  rw [mintPolicy_eq component, mintStored, unsought, ok_bind]
  change (insertAttestation sha manifests s minted >>= fun s' => pure (minted, s')) = _
  rw [inserted]
  rfl

/-- **Attestations are minted once and never alias.** Over a store of any era and any interleaving, the proof
a call answers with is its draft's, field by field, and its creator's; the same draft for the same run is answered
with it again and adds nothing; and neither another draft, another run nor the other kind is ever answered with a
proof of its identity, whose law already keeps them apart. -/
theorem attestations_minted_once (injective : Function.Injective sha) (sound : s.Sound sha manifests)
    (acts : List (MintAction F)) (call : MintCall F)
    (minted : call.answer sha manifests (s.run sha manifests acts) = .ok (a, s')) :
    a.toAttestationDraft = call.draft ∧ a.createdByRun = call.creator ∧
      (∀ (more : List (MintAction F)) (call' : MintCall F),
        (call'.draft = call.draft → call'.creator = call.creator →
          call'.answer sha manifests (s'.run sha manifests more) = .ok (a, s'.run sha manifests more) ∨
            call'.answer sha manifests (s'.run sha manifests more) = .error .ownershipLost) ∧
        ∀ b t, call'.answer sha manifests (s'.run sha manifests more) = .ok (b, t) →
          b.attestationId = a.attestationId → call'.draft = call.draft ∧ call'.creator = call.creator) ∧
      ∀ call' : MintCall F, mintIdentity sha call'.draft call'.creator = mintIdentity sha call.draft call.creator →
        call'.draft = call.draft ∧ call'.creator = call.creator := by
  obtain ⟨sound', resolved⟩ := answer_resolved injective (run_sound injective sound acts) minted
  refine ⟨resolved.drafted, resolved.minter, ?_, ?_⟩
  · intro more call'
    have later := run_sound injective sound' more
    have kept := run_resolved injective sound' more resolved
    refine ⟨fun drafts creators => answer_again later minted drafts creators kept, ?_⟩
    intro b t answered same
    obtain ⟨soundest, own⟩ := answer_resolved injective later answered
    have still : Resolved sha t call.draft call.creator a := by
      have stepped := step_resolved injective later (.call call') kept
      have step : (s'.run sha manifests more).step sha manifests (.call call') = t := by
        simp [MintStore.step, answered, Except.map, Except.toOption]
      rwa [step] at stepped
    obtain ⟨row, held, rfl⟩ := still.held
    obtain ⟨row', held', rfl⟩ := own.held
    have one : row' = row := List.inj_on_of_nodup_map soundest.unique held' held same
    subst one
    exact ⟨own.drafted.symm.trans still.drafted, own.minter.symm.trans still.minter⟩
  · intro call' same
    rw [← call.proof_draft, ← call'.proof_draft] at same ⊢
    exact mintIdentity_injective injective same

end Calls

/-! ## A first policy proof -/

namespace MintSample

def unary (text : PyStr) : String :=
  String.ofList (text.flatMap fun n => List.replicate n 'a' ++ ['b'])

theorem unary_cancel {n m : ℕ} {x y : List Char}
    (same : List.replicate n 'a' ++ 'b' :: x = List.replicate m 'a' ++ 'b' :: y) : n = m ∧ x = y := by
  induction n generalizing m with
  | zero =>
    cases m with
    | zero => exact ⟨rfl, (List.cons.inj same).2⟩
    | succ m => simp [List.replicate_succ] at same
  | succ n ih =>
    cases m with
    | zero => simp [List.replicate_succ] at same
    | succ m =>
      rw [List.replicate_succ, List.replicate_succ, List.cons_append, List.cons_append, List.cons.injEq] at same
      obtain ⟨rfl, rest⟩ := ih same.2
      exact ⟨rfl, rest⟩

theorem unary_injective : Function.Injective unary := by
  intro text text' same
  have lists := String.ofList_injective same
  induction text generalizing text' with
  | nil =>
    cases text' with
    | nil => rfl
    | cons m rest => simp at lists
  | cons n text ih =>
    cases text' with
    | nil => simp at lists
    | cons m rest =>
      simp only [List.flatMap_cons, List.append_assoc, List.singleton_append] at lists
      obtain ⟨rfl, tails⟩ := unary_cancel lists
      rw [ih (congrArg String.ofList tails) tails]

def empty : MintStore where
  rows := []
  owners _ := none
  named := []

theorem empty_sound : empty.Sound unary (fun _ => none) where
  unique := List.nodup_nil
  readable row held := by cases held
  named id named := by cases named

def draft : ProofDraft quarter where
  action := .promote
  subject := .component "coder" "v1" none
  checks := [.of "policy" .passed "rollback" "0.25"]
  checkSetHash := "checks"
  manifestHash := "policy"
  current _ _ _ _ same := by cases same
  finite c held := ⟨(), by rw [List.mem_singleton.mp held]; rfl⟩

end MintSample

theorem attestations_minted_once_sample :
    ∃ a : Attestation, a.toAttestationDraft = MintSample.draft.toAttestationDraft := by
  have component : MintSample.draft.action = .promote ∧ MintSample.draft.subject.OfComponent := ⟨rfl, rfl⟩
  obtain ⟨a, minted⟩ :=
    mintPolicy_new MintSample.empty_sound component (by simp [MintSample.empty, MintStore.ids]) 0
  exact ⟨a, (attestations_minted_once MintSample.unary_injective MintSample.empty_sound []
    (MintCall.policy MintSample.draft 0) minted).1⟩

end Constructicon
