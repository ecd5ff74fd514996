import Constructicon.MailboxSound

/-!
# How the mailbox grows

The tables grow at their ends, commands go on, and a command that owns a fact is never
recorded as refused. So whatever stood beside a fact stays beside it, and a transaction has
to answer only for the rows it adds.
-/

namespace Constructicon

open Transaction

namespace Mailbox

/-- The command owns a reply, an acknowledgement or an approval. -/
def Owns (m : Mailbox) (id : String) : Prop :=
  (∃ r ∈ m.messages, r.commandId = some id) ∨ (∃ a ∈ m.acks, a.commandId = id) ∨
    ∃ p ∈ m.approvals, p.commandId = id

structure Grows (m m' : Mailbox) : Prop where
  messages : m.messages <+: m'.messages
  acks : m.acks <+: m'.acks
  approvals : m.approvals <+: m'.approvals
  ledger : m.ledger.Grows m'.ledger
  attestations : ∀ id a, m.attestations.get? id = some a → m'.attestations.get? id = some a
  runs : ∀ id d, m.runs.get? id = some d → m'.runs.get? id = some d
  live : ∀ id r, m.Owns id → m'.ledger.commands.get? id = some r → r.state ≠ .rejected

variable {w : MailWire} {m m' m'' : Mailbox} {row request : MessageRow} {command : CommandRecord}
  {a : AckRow} {p : ApprovalRow}

theorem Sound.live (hs : m.Sound w) {id : String} {r : CommandRecord} (owns : m.Owns id)
    (found : m.ledger.commands.get? id = some r) : r.state ≠ .rejected := by
  have ofReply : ∀ x ∈ m.messages, x.commandId = some id → r.state ≠ .rejected := by
    intro x hx owner
    have kind : x.message.kind = .reply := by
      have lawful := hs.lawful hx
      unfold MessageRow.Lawful at lawful
      cases kind : x.message.kind with
      | reply => rfl
      | request =>
        rw [kind] at lawful
        rw [lawful.2] at owner
        cases owner
    obtain ⟨q, command, exchanged⟩ := hs.replies x hx kind
    have same : command.commandId = id := by
      rw [exchanged.writer] at owner
      exact Option.some.inj owner
    have found' := exchanged.found
    rw [same, found] at found'
    cases found'
    exact exchanged.decides.bound.1
  rcases owns with ⟨x, hx, owner⟩ | ⟨a, ha, rfl⟩ | ⟨p, hp, rfl⟩
  · exact ofReply x hx owner
  · obtain ⟨q, command, observed⟩ := hs.acks a ha
    have found' := observed.found
    rw [found] at found'
    cases found'
    rcases observed.source with valid | ⟨x, hx, owner, -⟩
    · exact (validatedChannelCommandAck_ok valid).live
    · exact ofReply x hx owner
  · obtain ⟨command, plan, minted⟩ := hs.approvals p hp
    have found' := minted.found
    rw [found] at found'
    cases found'
    exact (validatedCommandApprovalPlan_ok minted.valid).live

theorem Grows.refl (hs : m.Sound w) : m.Grows m :=
  ⟨List.prefix_rfl, List.prefix_rfl, List.prefix_rfl, .refl _, fun _ _ h => h, fun _ _ h => h,
    fun _ _ owns found => hs.live owns found⟩

theorem Grows.owns (g : m.Grows m') {id : String} (owns : m.Owns id) : m'.Owns id := by
  rcases owns with ⟨r, hr, owner⟩ | ⟨a, ha, owner⟩ | ⟨p, hp, owner⟩
  · exact .inl ⟨r, g.messages.mem hr, owner⟩
  · exact .inr (.inl ⟨a, g.acks.mem ha, owner⟩)
  · exact .inr (.inr ⟨p, g.approvals.mem hp, owner⟩)

theorem Grows.trans (g : m.Grows m') (g' : m'.Grows m'') : m.Grows m'' where
  messages := g.messages.trans g'.messages
  acks := g.acks.trans g'.acks
  approvals := g.approvals.trans g'.approvals
  ledger := g.ledger.trans g'.ledger
  attestations := fun id a h => g'.attestations id a (g.attestations id a h)
  runs := fun id d h => g'.runs id d (g.runs id d h)
  live := fun id r owns found => g'.live id r (g.owns owns) found

/-! ## What stood beside a fact stays -/

theorem Grows.storedRequestFact (g : m.Grows m') {q : ChannelMessage}
    (h : m.storedRequestFact w row = .ok q) : m'.storedRequestFact w row = .ok q := by
  have ⟨same, lawful, kind, id, attestation, manifest, intent, hid, found, authorized, made⟩ :=
    storedRequestFact_ok h
  obtain ⟨ha, named, hd⟩ := authority_ok.mp found
  have found' := authority_ok.mpr ⟨g.attestations id _ ha, named, g.runs _ _ hd⟩
  unfold Mailbox.storedRequestFact
  rw [require_of lawful, ok_bind, require_of kind, ok_bind, hid, expect_some, ok_bind, found',
    ok_bind, same]
  exact validatedAttestedChannelRequest_of authorized made

theorem Grows.owner (g : m.Grows m') {id : String} (owns : m.Owns id)
    (found : m.ledger.commands.get? id = some command) :
    ∃ command', m'.ledger.commands.get? id = some command' ∧ command.Continues command' ∧
      command'.state ≠ .rejected := by
  obtain ⟨command', found', continues⟩ := g.ledger id command found
  exact ⟨command', found', continues, g.live id command' owns found'⟩

theorem Exchanged.grows (h : m.Exchanged w row request command) (hr : row ∈ m.messages)
    (g : m.Grows m') : ∃ command', m'.Exchanged w row request command' := by
  obtain ⟨command', found', continues, live⟩ := g.owner (.inl ⟨row, hr, h.writer⟩) h.found
  obtain ⟨a, ha, acked⟩ := h.acked
  have id : command'.commandId = command.commandId := continues.identity.1
  refine ⟨command', h.unattested, id ▸ h.writer, id.symm ▸ found', g.messages.mem h.stored, h.made,
    h.coherent, ⟨a, g.acks.mem ha, acked⟩, ?_⟩
  cases h.decides with
  | advice plain valid =>
    exact .advice plain (validatedChannelCommandReply_continues continues live valid)
  | approval claims p stored owner valid =>
    exact .approval claims p (g.approvals.mem stored) (owner.trans id.symm)
      (validatedChannelApprovalExchange_continues continues live valid)

theorem Observed.grows (h : m.Observed w a request command) (ha : a ∈ m.acks)
    (g : m.Grows m') : ∃ command', m'.Observed w a request command' := by
  obtain ⟨command', found', continues, live⟩ := g.owner (.inr (.inl ⟨a, ha, rfl⟩)) h.found
  refine ⟨command', found', continues.identity.2.1 ▸ h.actor, g.messages.mem h.stored, h.kind,
    h.message, ?_⟩
  rcases h.source with valid | ⟨r, hr, rest⟩
  · exact .inl (validatedChannelCommandAck_continues continues live valid)
  · exact .inr ⟨r, g.messages.mem hr, rest⟩

theorem Minted.grows {plan : ApprovalCommandPlan} (h : m.Minted w p command plan)
    (hp : p ∈ m.approvals) (g : m.Grows m') : ∃ command', m'.Minted w p command' plan := by
  obtain ⟨command', found', continues, live⟩ := g.owner (.inr (.inr ⟨p, hp, rfl⟩)) h.found
  refine ⟨command', found', validatedCommandApprovalPlan_continues continues live h.valid, ?_⟩
  intro q bound
  obtain ⟨r, hr, owner⟩ := h.replied q bound
  exact ⟨r, g.messages.mem hr, owner⟩

theorem Sound.grows (hs : m.Sound w) (g : m.Grows m')
    (ledger : m'.ledger.Sound w.hashing w.ledger)
    (nodup : (m'.messages.map (fun row => row.message.messageId)).Nodup)
    (attested : (m'.messages.filterMap MessageRow.attestationId).Nodup)
    (ackKeys : (m'.acks.map (fun a => a.ack.key)).Nodup)
    (ackOwners : (m'.acks.map AckRow.commandId).Nodup)
    (approvalIds : (m'.approvals.map (fun p => p.approval.approvalId)).Nodup)
    (approvalOwners : (m'.approvals.map ApprovalRow.commandId).Nodup)
    (requests : ∀ row ∈ m'.messages, row ∉ m.messages → row.message.kind = .request →
      m'.storedRequestFact w row = .ok row.message)
    (replies : ∀ row ∈ m'.messages, row ∉ m.messages → row.message.kind = .reply →
      ∃ request command, m'.Exchanged w row request command)
    (acks : ∀ a ∈ m'.acks, a ∉ m.acks → ∃ request command, m'.Observed w a request command)
    (approvals : ∀ p ∈ m'.approvals, p ∉ m.approvals → ∃ command plan, m'.Minted w p command plan) :
    m'.Sound w where
  ledger := ledger
  nodup := nodup
  attested := attested
  ackKeys := ackKeys
  ackOwners := ackOwners
  approvalIds := approvalIds
  approvalOwners := approvalOwners
  requests := by
    intro row hr kind
    by_cases old : row ∈ m.messages
    · exact g.storedRequestFact (hs.requests row old kind)
    · exact requests row hr old kind
  replies := by
    intro row hr kind
    by_cases old : row ∈ m.messages
    · obtain ⟨q, command, exchanged⟩ := hs.replies row old kind
      obtain ⟨command', exchanged'⟩ := exchanged.grows old g
      exact ⟨q, command', exchanged'⟩
    · exact replies row hr old kind
  acks := by
    intro a ha
    by_cases old : a ∈ m.acks
    · obtain ⟨q, command, observed⟩ := hs.acks a old
      obtain ⟨command', observed'⟩ := observed.grows old g
      exact ⟨q, command', observed'⟩
    · exact acks a ha old
  approvals := by
    intro p hp
    by_cases old : p ∈ m.approvals
    · obtain ⟨command, plan, minted⟩ := hs.approvals p old
      obtain ⟨command', minted'⟩ := minted.grows old g
      exact ⟨command', plan, minted'⟩
    · exact approvals p hp old

end Mailbox

end Constructicon
