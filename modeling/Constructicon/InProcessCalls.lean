import Constructicon.InProcessHistory

/-!
# The calls of an in-process channel

One lemma for each call says what it answers and what it writes; the history stays
intact over any sequence of calls, and a call that succeeded answers the same for ever.
-/

namespace Constructicon

open Transaction

inductive ChannelCall where
  | appendRequest (intent : ChannelSendIntent) (attestationId : String)
  | reply (requestId : Digest) (actorId : ActorId) (payload : Json) (commandId : String)
  | acknowledge (messageId : Digest) (actorId : ActorId) (commandId : String)
deriving DecidableEq

inductive ChannelFact where
  | message (m : ChannelMessage)
  | ack (a : ChannelAck)
deriving DecidableEq

namespace InProcessChannel

def call (ids : ChannelIds) (ch : InProcessChannel) (c : ChannelCall) (now : Option Instant) :
    Except ChannelError ChannelFact × InProcessChannel :=
  match c with
  | .appendRequest intent attestationId =>
    let r := ch.appendRequest ids intent attestationId now
    (r.1.map ChannelFact.message, r.2)
  | .reply requestId actorId payload commandId =>
    let r := ch.reply ids requestId actorId payload commandId now
    (r.1.map ChannelFact.message, r.2)
  | .acknowledge messageId actorId commandId =>
    let r := ch.acknowledge ids messageId actorId commandId now
    (r.1.map ChannelFact.ack, r.2)

variable {ids : ChannelIds} {ch ch' ch'' : InProcessChannel}

/-! ## One lemma for each call -/

section Specs

variable {intent : ChannelSendIntent} {attestationId commandId : String} {now : Option Instant}
  {requestId messageId : Digest} {actorId : ActorId} {payload : Json}

/-- The request is stored beside this attestation and equals what the intent becomes. -/
def HasRequest (ids : ChannelIds) (ch : InProcessChannel) (intent : ChannelSendIntent)
    (attestationId : String) (m : ChannelMessage) : Prop :=
  intent.channelId = ch.channelId ∧ m ∈ ch.messages ∧
    messageForIntent ids intent m.envelope.createdAt = .ok m ∧
    ch.attestations.get? intent.messageId = some attestationId

theorem findRequest_stored (h : ch.Intact ids) {m : ChannelMessage}
    (found : ch.findRequest ids intent attestationId now = .ok (.stored m)) :
    HasRequest ids ch intent attestationId m := by
  unfold findRequest at found
  simp only [bind_eq_ok, require_eq_ok] at found
  obtain ⟨-, channel, -, -, found⟩ := found
  cases stored : ch.byId.get? intent.messageId with
  | none =>
    rw [stored] at found
    simp only [bind_eq_ok] at found
    obtain ⟨t, -, m', -, found⟩ := found
    cases found
  | some m' =>
    rw [stored] at found
    simp only [bind_eq_ok, require_eq_ok] at found
    obtain ⟨complete, completed, expected, made, -, ⟨same, attested⟩, found⟩ := found
    cases found
    have mem : m ∈ ch.messages := by
      unfold completeRequest at completed
      simp only [bind_eq_ok] at completed
      obtain ⟨-, -, -, -, -, -, -, -, completed⟩ := completed
      cases completed
      exact (h.get?_byId.mp stored).1
    exact ⟨channel, mem, same ▸ made, attested⟩

theorem findRequest_fresh (h : ch.Intact ids) {m : ChannelMessage}
    (found : ch.findRequest ids intent attestationId now = .ok (.fresh m)) :
    intent.channelId = ch.channelId ∧ m.messageId ∉ ch.messageIds ∧
      messageForIntent ids intent m.envelope.createdAt = .ok m := by
  unfold findRequest at found
  simp only [bind_eq_ok, require_eq_ok] at found
  obtain ⟨-, channel, -, -, found⟩ := found
  cases stored : ch.byId.get? intent.messageId with
  | none =>
    rw [stored] at found
    simp only [bind_eq_ok] at found
    obtain ⟨t, -, m', made, found⟩ := found
    cases found
    have shape := messageForIntent_ok made
    refine ⟨channel, ?_, ?_⟩
    · rw [shape.2.1]
      exact h.byId_none.mp stored
    · rw [shape.2.2.2.2.2.2.2.2]
      exact made
  | some m' =>
    rw [stored] at found
    simp only [bind_eq_ok] at found
    obtain ⟨_, _, _, _, _, _, found⟩ := found
    cases found

theorem findRequest_of (h : ch.Intact ids) {m : ChannelMessage}
    (has : HasRequest ids ch intent attestationId m) :
    ch.findRequest ids intent attestationId now = .ok (.stored m) := by
  obtain ⟨channel, hm, made, attested⟩ := has
  obtain ⟨-, id, kind, -⟩ := messageForIntent_ok made
  have stored : ch.byId.get? intent.messageId = some m := h.get?_byId.mpr ⟨hm, id⟩
  unfold findRequest
  rw [require_of channel, ok_bind, h.validated, ok_bind, stored]
  simp only [h.completeRequest hm kind, ok_bind, made]
  rw [require_of ⟨trivial, attested⟩]
  rfl

def HasAck (ch : InProcessChannel) (messageId : Digest) (actorId : ActorId) (commandId : String)
    (a : ChannelAck) : Prop :=
  a ∈ ch.acks ∧ a.key = (messageId, actorId) ∧
    ch.ackCommands.get? commandId = some (messageId, actorId)

theorem ackKey_ok {key : Digest × ActorId}
    (found : ch.ackKey messageId actorId commandId = .ok key) :
    key = (messageId, actorId) ∧ (ch.byId.get? messageId).isSome ∧
      (∀ owned ∈ ch.ackCommands.get? commandId, owned = (messageId, actorId)) ∧
      ∀ replyId, ch.replyMessageByCommand.get? commandId = some replyId →
        ∃ m, ch.byId.get? replyId = some m ∧ m.replyTo = some messageId ∧
          m.senderActorId = some actorId := by
  unfold ackKey at found
  cases replied : ch.replyMessageByCommand.get? commandId with
  | none =>
    rw [replied] at found
    simp only [bind_eq_ok, require_eq_ok] at found
    obtain ⟨-, known, -, owned, found⟩ := found
    cases found
    exact ⟨rfl, known, owned, by simp⟩
  | some replyId =>
    rw [replied] at found
    simp only [bind_eq_ok, require_eq_ok, expect_eq_ok] at found
    obtain ⟨-, known, m, hm, replyTo, hreplyTo, sender, hsender, -, same, -, owned, found⟩ := found
    cases found
    refine ⟨rfl, known, owned, ?_⟩
    intro replyId' own
    cases own
    obtain ⟨rfl, rfl⟩ := Prod.mk.injEq .. ▸ same
    exact ⟨m, hm, hreplyTo, hsender⟩

theorem findAck_stored (h : ch.Intact ids) {a : ChannelAck}
    (found : ch.findAck messageId actorId commandId now = .ok (.stored a)) :
    HasAck ch messageId actorId commandId a := by
  unfold findAck at found
  simp only [bind_eq_ok] at found
  obtain ⟨key, keyed, found⟩ := found
  obtain ⟨rfl, -⟩ := ackKey_ok keyed
  cases stored : ch.ackByKey.get? (messageId, actorId) with
  | none =>
    rw [stored] at found
    simp only [bind_eq_ok] at found
    obtain ⟨_, _, found⟩ := found
    cases found
  | some a' =>
    rw [stored] at found
    simp only [bind_eq_ok, require_eq_ok] at found
    obtain ⟨-, owned, found⟩ := found
    cases found
    have mem := Dict.mem_of_get? stored
    rw [h.ackByKey, List.mem_map] at mem
    obtain ⟨x, hx, same⟩ := mem
    cases same
    exact ⟨hx, rfl, owned⟩

theorem findAck_fresh (h : ch.Intact ids) {a : ChannelAck}
    (found : ch.findAck messageId actorId commandId now = .ok (.fresh a)) :
    a.key = (messageId, actorId) ∧ (messageId, actorId) ∉ ch.ackKeys ∧
      messageId ∈ ch.messageIds ∧ ch.ackCommands.get? commandId = none ∧
      ∀ replyId, ch.replyMessageByCommand.get? commandId = some replyId →
        ∃ m ∈ ch.messages, m.messageId = replyId ∧ m.replyTo = some messageId ∧
          m.senderActorId = some actorId := by
  unfold findAck at found
  simp only [bind_eq_ok] at found
  obtain ⟨key, keyed, found⟩ := found
  obtain ⟨rfl, known, owned, replied⟩ := ackKey_ok keyed
  cases stored : ch.ackByKey.get? (messageId, actorId) with
  | some a' =>
    rw [stored] at found
    simp only [bind_eq_ok] at found
    obtain ⟨_, _, found⟩ := found
    cases found
  | none =>
    rw [stored] at found
    simp only [bind_eq_ok] at found
    obtain ⟨t, _, found⟩ := found
    cases found
    have new : (messageId, actorId) ∉ ch.ackKeys := by
      rw [← h.isSome_ackByKey, stored]
      simp
    refine ⟨rfl, new, ?_, ?_, ?_⟩
    · obtain ⟨m, hm⟩ := Option.isSome_iff_exists.mp known
      obtain ⟨mem, id⟩ := h.get?_byId.mp hm
      exact mem_messageIds.mpr ⟨m, mem, id⟩
    · cases own : ch.ackCommands.get? commandId with
      | none => rfl
      | some key =>
        have same := owned key own
        subst same
        have mem : (messageId, actorId) ∈ ch.ackCommands.values :=
          Dict.mem_values.mpr ⟨commandId, Dict.mem_of_get? own⟩
        rw [h.ackCommands] at mem
        exact absurd mem new
    · intro replyId own
      obtain ⟨m, hm, rest⟩ := replied replyId own
      obtain ⟨mem, id⟩ := h.get?_byId.mp hm
      exact ⟨m, mem, id, rest⟩

theorem Intact.ackKey (h : ch.Intact ids) {a : ChannelAck}
    (has : HasAck ch messageId actorId commandId a) :
    ch.ackKey messageId actorId commandId = .ok (messageId, actorId) := by
  obtain ⟨ha, key, owned⟩ := has
  have known : (ch.byId.get? messageId).isSome := by
    have mem := h.acked a ha
    obtain ⟨m, hm, id⟩ := mem_messageIds.mp mem
    have same : m.messageId = messageId := id.trans (congrArg Prod.fst key)
    rw [h.get?_byId.mpr ⟨hm, same⟩]
    rfl
  have same : ∀ own ∈ ch.ackCommands.get? commandId, own = (messageId, actorId) := by
    intro own mem
    rw [owned] at mem
    exact (Option.some.inj mem).symm
  unfold InProcessChannel.ackKey
  rw [require_of known, ok_bind]
  cases replied : ch.replyMessageByCommand.get? commandId with
  | none =>
    rw [require_of same]
    rfl
  | some replyId =>
    obtain ⟨m, hm, id, replyTo, sender⟩ := h.owners commandId replyId _ replied owned
    simp only [h.get?_byId.mpr ⟨hm, id⟩, replyTo, sender, expect_some, ok_bind]
    rw [require_of trivial, ok_bind, require_of same]
    rfl

theorem findAck_of (h : ch.Intact ids) {a : ChannelAck}
    (has : HasAck ch messageId actorId commandId a) :
    ch.findAck messageId actorId commandId now = .ok (.stored a) := by
  have nodup : ch.ackByKey.keys.Nodup := h.ackByKey_keys ▸ h.ackKeys
  have ⟨ha, key, owned⟩ := has
  have stored : ch.ackByKey.get? (messageId, actorId) = some a := by
    apply Dict.get?_of_mem nodup
    rw [h.ackByKey, List.mem_map]
    exact ⟨a, ha, by rw [key]⟩
  unfold findAck
  rw [h.ackKey has, ok_bind, stored]
  simp only [require_of owned, ok_bind]
  rfl

theorem answerable_ok (h : ch.Intact ids) {request : ChannelMessage} {port : String}
    (found : ch.answerable ids requestId = .ok (request, port)) :
    request ∈ ch.messages ∧ request.messageId = requestId ∧ request.kind = .request ∧
      request.replyPort = some port := by
  unfold answerable at found
  simp only [bind_eq_ok, expect_eq_ok] at found
  obtain ⟨m, stored, complete, completed, port', hport, _, _, _, _, _, _, found⟩ := found
  cases found
  unfold completeRequest at completed
  simp only [bind_eq_ok, require_eq_ok] at completed
  obtain ⟨_, kind, _, _, _, _, _, _, completed⟩ := completed
  cases completed
  obtain ⟨mem, id⟩ := h.get?_byId.mp stored
  exact ⟨mem, id, kind, hport⟩

/-- The reply is stored under this command and answers this request. -/
def HasReply (ids : ChannelIds) (ch : InProcessChannel) (requestId : Digest) (actorId : ActorId)
    (payload : Json) (commandId : String) (m : ChannelMessage) : Prop :=
  ∃ request port, ch.answerable ids requestId = .ok (request, port) ∧ m ∈ ch.messages ∧
    messageForReply ids request actorId payload m.envelope.createdAt = .ok m ∧
    ch.replyCommandByMessage.get? m.messageId = some commandId

theorem findReply_stored (h : ch.Intact ids) {m : ChannelMessage}
    (found : ch.findReply ids requestId actorId payload commandId now = .ok (.inl m)) :
    HasReply ids ch requestId actorId payload commandId m := by
  unfold findReply at found
  simp only [bind_eq_ok, require_eq_ok] at found
  obtain ⟨_, -, ⟨request, port⟩, answerable, -, -, found⟩ := found
  cases stored : ch.byId.get? (ids.reply request.messageId port) with
  | none =>
    simp only [stored, bind_eq_ok, require_eq_ok] at found
    obtain ⟨_, _, _, _, _, _, _, _, _, _, found⟩ := found
    cases found
  | some m' =>
    simp only [stored, bind_eq_ok, require_eq_ok] at found
    obtain ⟨complete, completed, _, written, candidate, made, _, same, found⟩ := found
    cases found
    have equal : m = m' := by
      unfold completeReply at completed
      simp only [bind_eq_ok, require_eq_ok, expect_eq_ok] at completed
      obtain ⟨_, _, validated, valid, _, _, _, _, _, _, _, _, completed⟩ := completed
      cases completed
      exact (validatedReply_ok valid).1
    subst equal
    obtain ⟨mem, id⟩ := h.get?_byId.mp stored
    exact ⟨request, port, answerable, mem, same ▸ made, id ▸ written⟩

theorem findReply_fresh (h : ch.Intact ids) {write : ReplyWrite}
    (found : ch.findReply ids requestId actorId payload commandId now = .ok (.inr write)) :
    ∃ request port t, ch.answerable ids requestId = .ok (request, port) ∧
      write.reply.messageId ∉ ch.messageIds ∧
      messageForReply ids request actorId payload t = .ok write.reply ∧
      channelReplyProof ids request write.reply = .ok write.proof ∧
      ch.replyMessageByCommand.get? commandId = none ∧
      (∀ key, ch.ackCommands.get? commandId = some key → False) ∧
      write.impliedAck = (if (request.messageId, actorId) ∈ ch.ackKeys then none
        else some ⟨request.messageId, actorId, t⟩) := by
  unfold findReply at found
  simp only [bind_eq_ok, require_eq_ok] at found
  obtain ⟨_, -, ⟨request, port⟩, answerable, -, owned, found⟩ := found
  cases stored : ch.byId.get? (ids.reply request.messageId port) with
  | some m' =>
    simp only [stored, bind_eq_ok, require_eq_ok] at found
    obtain ⟨_, _, _, _, _, _, _, _, found⟩ := found
    cases found
  | none =>
    simp only [stored, bind_eq_ok, require_eq_ok, expect_eq_ok] at found
    obtain ⟨_, orphan, key, keyed, t, -, reply, made, proof, proved, found⟩ := found
    cases found
    obtain ⟨rfl, -, acks, replied⟩ := ackKey_ok keyed
    obtain ⟨-, -, -, -, -, -, -, ⟨port', hport, id⟩, -⟩ := messageForReply_ok made
    obtain ⟨-, -, -, hport'⟩ := answerable_ok h answerable
    rw [hport'] at hport
    cases hport
    have new : reply.messageId ∉ ch.messageIds := by
      rw [id]
      exact h.byId_none.mp stored
    refine ⟨request, port, t, answerable, new, made, proved, ?_, ?_, ?_⟩
    · -- the command's own reply would be the stored one
      cases own : ch.replyMessageByCommand.get? commandId with
      | none => rfl
      | some replyId =>
        have same := owned replyId own
        obtain ⟨m, hm, -⟩ := replied replyId own
        rw [same, stored] at hm
        cases hm
    · intro key own
      have same := acks key own
      subst same
      have mem : (request.messageId, actorId) ∈ ch.ackCommands.values :=
        Dict.mem_values.mpr ⟨commandId, Dict.mem_of_get? own⟩
      rw [h.ackCommands, ← h.isSome_ackByKey] at mem
      exact orphan ⟨mem, own⟩
    · simp only [h.isSome_ackByKey]

theorem Intact.mem_replyMessages (h : ch.Intact ids) {id : Digest} {command : String}
    (nodup : ch.replyCommandByMessage.keys.Nodup) :
    ch.replyCommandByMessage.get? id = some command ↔
      ch.replyMessageByCommand.get? command = some id := by
  rw [← Dict.mem_iff_get? nodup, ← Dict.mem_iff_get? h.commands, h.replyMessages, List.mem_map]
  constructor
  · intro mem
    exact ⟨_, mem, rfl⟩
  · rintro ⟨e, mem, same⟩
    obtain ⟨rfl, rfl⟩ := Prod.mk.injEq .. ▸ same
    exact mem

theorem Intact.nodup_replyIds (h : ch.Intact ids) : ch.replyIds.Nodup := h.nodup.filter _

theorem findReply_of (h : ch.Intact ids) {m : ChannelMessage}
    (has : HasReply ids ch requestId actorId payload commandId m) :
    ch.findReply ids requestId actorId payload commandId now = .ok (.inl m) := by
  obtain ⟨request, port, answerable, hm, made, written⟩ := has
  obtain ⟨hr, -, -, hport⟩ := answerable_ok h answerable
  obtain ⟨-, kind, replyTo, -⟩ := messageForReply_ok made
  have answers := h.answers hr hm kind replyTo
  have id := answers.messageId hport
  have stored : ch.byId.get? (ids.reply request.messageId port) = some m :=
    h.get?_byId.mpr ⟨hm, id⟩
  have owned := (h.mem_replyMessages (h.replyCommands ▸ h.nodup_replyIds)).mp written
  have own : ∀ owned ∈ ch.replyMessageByCommand.get? commandId,
      owned = ids.reply request.messageId port := by
    intro replyId mem
    rw [owned] at mem
    exact (Option.some.inj mem).symm.trans id
  unfold findReply
  rw [h.validated, ok_bind, answerable, ok_bind]
  dsimp only
  rw [require_of own, ok_bind, stored]
  dsimp only
  rw [h.completeReply answers, ok_bind, require_of (id ▸ written), ok_bind, made, ok_bind,
    require_of rfl]
  rfl

theorem Intact.answers_at (h : ch.Intact ids) {request m : ChannelMessage} {port : String}
    (hr : request ∈ ch.messages)
    (stored : ch.byId.get? (ids.reply request.messageId port) = some m) : Answers ids ch request m := by
  obtain ⟨hm, id⟩ := h.get?_byId.mp stored
  cases kind : m.kind with
  | request =>
    obtain ⟨intent, -, made⟩ := h.requests m hm kind
    obtain ⟨derived, same, -⟩ := messageForIntent_ok made
    rw [same, ← derived] at id
    exact absurd id.symm (ids.apart intent _ _)
  | reply =>
    obtain ⟨request', answers⟩ := h.replies m hm kind
    have ⟨hr', sender, made, _⟩ := answers
    obtain ⟨-, -, -, -, -, -, -, ⟨port', -, id'⟩, -⟩ := messageForReply_ok made
    rw [id'] at id
    have same : request' = request := h.unique hr' hr (ids.injective id)
    exact same ▸ answers

theorem Intact.checkReply (h : ch.Intact ids) (messageId : Digest) :
    ch.checkReply ids messageId = .ok () := by
  unfold InProcessChannel.checkReply
  cases stored : ch.byId.get? messageId with
  | none => rfl
  | some message =>
    obtain ⟨hm, -⟩ := h.get?_byId.mp stored
    dsimp only
    split_ifs with kind
    · obtain ⟨intent, -, made⟩ := h.requests message hm kind
      obtain ⟨-, -, -, -, -, hport, -⟩ := messageForIntent_ok made
      rw [h.completeRequest hm kind, ok_bind, hport, expect_some, ok_bind]
      cases replied : ch.byId.get? (ids.reply message.messageId intent.replyPort) with
      | none => rfl
      | some reply =>
        dsimp only
        rw [h.completeReply (h.answers_at hm replied)]
        rfl
    · rfl

end Specs

/-! ## What grows -/

section Growth

structure Grows (ch ch' : InProcessChannel) : Prop where
  channelId : ch'.channelId = ch.channelId
  messages : ∃ more, ch'.messages = ch.messages ++ more
  acks : ∃ more, ch'.acks = ch.acks ++ more
  attestations : ∀ id v, ch.attestations.get? id = some v → ch'.attestations.get? id = some v
  replyCommands : ∀ id v, ch.replyCommandByMessage.get? id = some v →
    ch'.replyCommandByMessage.get? id = some v
  ackCommands : ∀ id v, ch.ackCommands.get? id = some v → ch'.ackCommands.get? id = some v

theorem Grows.refl (ch : InProcessChannel) : Grows ch ch :=
  ⟨rfl, ⟨[], by simp⟩, ⟨[], by simp⟩, fun _ _ h => h, fun _ _ h => h, fun _ _ h => h⟩

theorem Grows.trans (a : Grows ch ch') (b : Grows ch' ch'') : Grows ch ch'' := by
  obtain ⟨m, hm⟩ := a.messages
  obtain ⟨m', hm'⟩ := b.messages
  obtain ⟨k, hk⟩ := a.acks
  obtain ⟨k', hk'⟩ := b.acks
  refine ⟨b.channelId.trans a.channelId, ⟨m ++ m', ?_⟩, ⟨k ++ k', ?_⟩, ?_, ?_, ?_⟩
  · rw [hm', hm, List.append_assoc]
  · rw [hk', hk, List.append_assoc]
  · exact fun id v h => b.attestations id v (a.attestations id v h)
  · exact fun id v h => b.replyCommands id v (a.replyCommands id v h)
  · exact fun id v h => b.ackCommands id v (a.ackCommands id v h)

theorem Grows.mem_messages (g : Grows ch ch') {m : ChannelMessage} (h : m ∈ ch.messages) :
    m ∈ ch'.messages := by
  obtain ⟨more, same⟩ := g.messages
  rw [same]
  exact List.mem_append_left _ h

theorem Grows.mem_acks (g : Grows ch ch') {a : ChannelAck} (h : a ∈ ch.acks) : a ∈ ch'.acks := by
  obtain ⟨more, same⟩ := g.acks
  rw [same]
  exact List.mem_append_left _ h

theorem get?_insert_of_new {κ ν : Type} [DecidableEq κ] {d : Dict κ ν} {k : κ} (new : d.get? k = none)
    (v : ν) (k' : κ) (v' : ν) (h : d.get? k' = some v') : (d.insert k v).get? k' = some v' := by
  have ne : k ≠ k' := by
    rintro rfl
    rw [new] at h
    cases h
  rw [Dict.get?_insert_ne _ _ ne]
  exact h

theorem Intact.grows_storeRequest (h : ch.Intact ids) {m : ChannelMessage}
    (fresh : m.messageId ∉ ch.messageIds) (intent : ChannelSendIntent) (attestationId : String) :
    Grows ch (ch.storeRequest m intent attestationId) := by
  have notRequest : m.messageId ∉ ch.requestIds := by
    intro mem
    obtain ⟨m', hm', -, same⟩ := mem_requestIds.mp mem
    exact fresh (mem_messageIds.mpr ⟨m', hm', same⟩)
  have new := Dict.notMem_keys_iff.mp (h.attestations ▸ notRequest)
  exact ⟨rfl, ⟨[m], rfl⟩, ⟨[], (List.append_nil _).symm⟩, get?_insert_of_new new _, fun _ _ h => h,
    fun _ _ h => h⟩

theorem grows_appendAck {command : String} (unowned : ch.ackCommands.get? command = none)
    (ack : ChannelAck) : Grows ch (ch.appendAck ack command) :=
  ⟨rfl, ⟨[], (List.append_nil _).symm⟩, ⟨[ack], rfl⟩, fun _ _ h => h, fun _ _ h => h,
    get?_insert_of_new unowned _⟩

theorem Intact.grows_storeReply (h : ch.Intact ids) {reply : ChannelMessage}
    (fresh : reply.messageId ∉ ch.messageIds) (proof : ChannelReplyProof) (command : String) :
    Grows ch (ch.storeReply ⟨reply, proof, none⟩ command) := by
  have notReply : reply.messageId ∉ ch.replyIds := fun mem => fresh (List.mem_of_mem_filter mem)
  have new := Dict.notMem_keys_iff.mp (h.replyCommands ▸ notReply)
  exact ⟨rfl, ⟨[reply], rfl⟩, ⟨[], (List.append_nil _).symm⟩, fun _ _ h => h,
    get?_insert_of_new new _, fun _ _ h => h⟩

def Holds (ids : ChannelIds) (ch : InProcessChannel) : ChannelCall → ChannelFact → Prop
  | .appendRequest intent attestationId, .message m => HasRequest ids ch intent attestationId m
  | .reply requestId actorId payload commandId, .message m =>
    HasReply ids ch requestId actorId payload commandId m
  | .acknowledge messageId actorId commandId, .ack a => HasAck ch messageId actorId commandId a
  | _, _ => False

theorem answerable_grows (h : ch.Intact ids) (h' : ch'.Intact ids) (g : Grows ch ch')
    {requestId : Digest} {request : ChannelMessage} {port : String}
    (found : ch.answerable ids requestId = .ok (request, port)) :
    ch'.answerable ids requestId = .ok (request, port) := by
  obtain ⟨mem, id, kind, hport⟩ := answerable_ok h found
  have stored : ch.byId.get? requestId = some request := h.get?_byId.mpr ⟨mem, id⟩
  have stored' : ch'.byId.get? requestId = some request :=
    h'.get?_byId.mpr ⟨g.mem_messages mem, id⟩
  unfold answerable at found ⊢
  rw [stored, expect_some, ok_bind, h.completeRequest mem kind] at found
  rw [stored', expect_some, ok_bind, h'.completeRequest (g.mem_messages mem) kind]
  exact found

theorem Holds.grows (h : ch.Intact ids) (h' : ch'.Intact ids) (g : Grows ch ch') {c : ChannelCall}
    {fact : ChannelFact} (holds : Holds ids ch c fact) : Holds ids ch' c fact := by
  cases c with
  | appendRequest intent attestationId =>
    cases fact with
    | ack a => exact holds
    | message m =>
      obtain ⟨channel, mem, made, attested⟩ := holds
      exact ⟨channel.trans g.channelId.symm, g.mem_messages mem, made, g.attestations _ _ attested⟩
  | reply requestId actorId payload commandId =>
    cases fact with
    | ack a => exact holds
    | message m =>
      obtain ⟨request, port, answerable, mem, made, written⟩ := holds
      exact ⟨request, port, answerable_grows h h' g answerable, g.mem_messages mem, made,
        g.replyCommands _ _ written⟩
  | acknowledge messageId actorId commandId =>
    cases fact with
    | message m => exact holds
    | ack a =>
      obtain ⟨mem, key, owned⟩ := holds
      exact ⟨g.mem_acks mem, key, g.ackCommands _ _ owned⟩

end Growth

/-! ## Every call -/

section Calls

variable {c : ChannelCall} {fact : ChannelFact}

theorem Holds.call (h : ch.Intact ids) (holds : Holds ids ch c fact) (now : Option Instant) :
    ch.call ids c now = (.ok fact, ch) := by
  cases c with
  | appendRequest intent attestationId =>
    cases fact with
    | ack a => exact holds.elim
    | message m =>
      simp only [InProcessChannel.call, InProcessChannel.appendRequest, findRequest_of h holds]
      rfl
  | reply requestId actorId payload commandId =>
    cases fact with
    | ack a => exact holds.elim
    | message m =>
      simp only [InProcessChannel.call, InProcessChannel.reply, findReply_of h holds]
      rfl
  | acknowledge messageId actorId commandId =>
    cases fact with
    | message m => exact holds.elim
    | ack a =>
      simp only [InProcessChannel.call, InProcessChannel.acknowledge, h.validated, ok_bind,
        h.checkReply, findAck_of h holds]
      rfl

/-- A call raises and writes nothing, finds its fact and writes nothing, or writes it. -/
inductive Outcome (ids : ChannelIds) (ch : InProcessChannel) (c : ChannelCall) :
    Except ChannelError ChannelFact × InProcessChannel → Prop
  | raised (e : ChannelError) : Outcome ids ch c (.error e, ch)
  | wrote {ch' : InProcessChannel} {fact : ChannelFact} (intact : ch'.Intact ids)
    (grows : Grows ch ch') (holds : Holds ids ch' c fact) : Outcome ids ch c (.ok fact, ch')

theorem Outcome.found (h : ch.Intact ids) (holds : Holds ids ch c fact) :
    Outcome ids ch c (.ok fact, ch) := .wrote h (.refl ch) holds

theorem Intact.outcome_appendRequest (h : ch.Intact ids) (intent : ChannelSendIntent)
    (attestationId : String) (now : Option Instant) :
    Outcome ids ch (.appendRequest intent attestationId)
      (ch.call ids (.appendRequest intent attestationId) now) := by
  unfold InProcessChannel.call InProcessChannel.appendRequest
  dsimp only
  cases found : ch.findRequest ids intent attestationId now with
  | error e => exact .raised e
  | ok r =>
    cases r with
    | stored m => exact .found h (findRequest_stored h found)
    | fresh m =>
      obtain ⟨channel, fresh, made⟩ := findRequest_fresh h found
      have id := (messageForIntent_ok made).2.1
      refine .wrote (h.storeRequest fresh made attestationId)
        (h.grows_storeRequest fresh intent attestationId) ⟨channel, ?_, made, ?_⟩
      · exact List.mem_append_right _ (List.mem_singleton_self _)
      · rw [← id]
        exact Dict.get?_insert_self _ _ _

theorem Intact.outcome_acknowledge (h : ch.Intact ids) (messageId : Digest) (actorId : ActorId)
    (commandId : String) (now : Option Instant) :
    Outcome ids ch (.acknowledge messageId actorId commandId)
      (ch.call ids (.acknowledge messageId actorId commandId) now) := by
  unfold InProcessChannel.call InProcessChannel.acknowledge
  simp only [h.validated, ok_bind, h.checkReply]
  cases found : ch.findAck messageId actorId commandId now with
  | error e => exact .raised e
  | ok r =>
    cases r with
    | stored a => exact .found h (findAck_stored h found)
    | fresh a =>
      obtain ⟨key, new, known, unowned, own⟩ := findAck_fresh h found
      have message : a.messageId = messageId := congrArg Prod.fst key
      have actor : a.actorId = actorId := congrArg Prod.snd key
      rw [← message, ← actor] at own
      refine .wrote         (h.appendAck (key ▸ new) (message ▸ known) unowned own) (grows_appendAck unowned a)
        ⟨List.mem_append_right _ (List.mem_singleton_self _), key, ?_⟩
      rw [← key]
      exact Dict.get?_insert_self _ _ _

theorem storeReply_implied (ch : InProcessChannel) (reply : ChannelMessage) (proof : ChannelReplyProof)
    (ack : ChannelAck) (commandId : String) :
    ch.storeReply ⟨reply, proof, some ack⟩ commandId =
      (ch.appendAck ack commandId).storeReply ⟨reply, proof, none⟩ commandId := rfl

theorem Intact.outcome_reply (h : ch.Intact ids) (requestId : Digest) (actorId : ActorId)
    (payload : Json) (commandId : String) (now : Option Instant) :
    Outcome ids ch (.reply requestId actorId payload commandId)
      (ch.call ids (.reply requestId actorId payload commandId) now) := by
  unfold InProcessChannel.call InProcessChannel.reply
  dsimp only
  cases found : ch.findReply ids requestId actorId payload commandId now with
  | error e => exact .raised e
  | ok r =>
    cases r with
    | inl m => exact .found h (findReply_stored h found)
    | inr write =>
      obtain ⟨request, port, t, answerable, fresh, made, proved, unreplied, unacked, implied⟩ :=
        findReply_fresh h found
      obtain ⟨reply, proof, impliedAck⟩ := write
      dsimp only at fresh made proved implied ⊢
      obtain ⟨hr, id, -, hport⟩ := answerable_ok h answerable
      obtain ⟨-, -, -, -, -, hpayload, created, -⟩ := messageForReply_ok made
      rw [← created, ← hpayload] at made
      have holds : ∀ {ch' : InProcessChannel}, ch'.Intact ids → Grows ch ch' →
          reply ∈ ch'.messages → ch'.replyCommandByMessage.get? reply.messageId = some commandId →
          Holds ids ch' (.reply requestId actorId payload commandId) (.message reply) := by
        intro ch' h' g mem written
        rw [hpayload] at made
        exact ⟨request, port, answerable_grows h h' g answerable, mem, made, written⟩
      by_cases acked : (request.messageId, actorId) ∈ ch.ackKeys
      · rw [if_pos acked] at implied
        subst implied
        have stored := h.storeReply hr fresh made proved acked unreplied
          (fun key own => (unacked key own).elim)
        have grown := h.grows_storeReply fresh proof commandId
        exact .wrote stored grown (holds stored grown
          (List.mem_append_right _ (List.mem_singleton_self _)) (Dict.get?_insert_self _ _ _))
      · rw [if_neg acked] at implied
        subst implied
        have unowned : ch.ackCommands.get? commandId = none := by
          cases own : ch.ackCommands.get? commandId with
          | none => rfl
          | some key => exact (unacked key own).elim
        have known : request.messageId ∈ ch.messageIds := mem_messageIds.mpr ⟨request, hr, rfl⟩
        have unacked' : (⟨request.messageId, actorId, t⟩ : ChannelAck).key ∉ ch.ackKeys := acked
        have acknowledged : (ch.appendAck ⟨request.messageId, actorId, t⟩ commandId).Intact ids := by
          apply h.appendAck unacked' known unowned
          intro replyId own
          rw [unreplied] at own
          cases own
        have grown := grows_appendAck unowned (⟨request.messageId, actorId, t⟩ : ChannelAck)
        have implied : (request.messageId, actorId) ∈
            (ch.appendAck ⟨request.messageId, actorId, t⟩ commandId).ackKeys :=
          List.mem_map.mpr ⟨_, List.mem_append_right _ (List.mem_singleton_self _), rfl⟩
        have own : ∀ key,
            (ch.appendAck ⟨request.messageId, actorId, t⟩ commandId).ackCommands.get? commandId =
              some key → key = (request.messageId, actorId) := by
          intro key own
          change (ch.ackCommands.insert commandId _).get? commandId = some key at own
          rw [Dict.get?_insert_self] at own
          exact (Option.some.inj own).symm
        have stored := acknowledged.storeReply hr fresh made proved implied unreplied own
        have grown' := grown.trans (acknowledged.grows_storeReply fresh proof commandId)
        rw [storeReply_implied]
        exact .wrote stored grown' (holds stored grown'
          (List.mem_append_right _ (List.mem_singleton_self _)) (Dict.get?_insert_self _ _ _))

theorem Intact.outcome (h : ch.Intact ids) (c : ChannelCall) (now : Option Instant) :
    Outcome ids ch c (ch.call ids c now) := by
  cases c with
  | appendRequest intent attestationId => exact h.outcome_appendRequest intent attestationId now
  | reply requestId actorId payload commandId =>
    exact h.outcome_reply requestId actorId payload commandId now
  | acknowledge messageId actorId commandId =>
    exact h.outcome_acknowledge messageId actorId commandId now

def after (ids : ChannelIds) (ch : InProcessChannel) (x : ChannelCall × Option Instant) :
    InProcessChannel :=
  (ch.call ids x.1 x.2).2

theorem Outcome.after {r : Except ChannelError ChannelFact × InProcessChannel} (h : ch.Intact ids)
    (o : Outcome ids ch c r) : r.2.Intact ids ∧ Grows ch r.2 := by
  cases o with
  | raised e => exact ⟨h, .refl ch⟩
  | wrote intact grows holds => exact ⟨intact, grows⟩

theorem Intact.run (h : ch.Intact ids) (run : Reaches (after ids) ch ch') : ch'.Intact ids :=
  run.invariant (fun _ x h => ((Intact.outcome h x.1 x.2).after h).1) h

theorem Intact.grows_run (h : ch.Intact ids) (run : Reaches (after ids) ch ch') : Grows ch ch' :=
  run.relates (I := Intact ids) Grows.refl (fun a b => a.trans b)
    (fun _ x h => ((Intact.outcome h x.1 x.2).after h).1)
    (fun _ x h => ((Intact.outcome h x.1 x.2).after h).2) h

theorem Intact.repeats (h : ch.Intact ids) {now : Option Instant}
    (ok : (ch.call ids c now).1 = .ok fact) (run : Reaches (after ids) (ch.call ids c now).2 ch')
    (now' : Option Instant) : ch'.call ids c now' = (.ok fact, ch') := by
  have outcome := h.outcome c now
  generalize ch.call ids c now = r at ok run outcome
  cases outcome with
  | raised e => cases ok
  | wrote intact grows holds =>
    cases ok
    exact (holds.grows intact (intact.run run) (intact.grows_run run)).call (intact.run run) now'

theorem Intact.reply_unique (h : ch.Intact ids) {request r r' : ChannelMessage}
    (hm : request ∈ ch.messages) (hr : r ∈ ch.messages) (hr' : r' ∈ ch.messages)
    (to' : r.replyTo = some request.messageId) (to'' : r'.replyTo = some request.messageId) :
    r = r' := by
  have isReply : ∀ r ∈ ch.messages, r.replyTo = some request.messageId → r.kind = .reply := by
    intro r hr replyTo
    cases kind : r.kind with
    | reply => rfl
    | request =>
      obtain ⟨intent, -, made⟩ := h.requests r hr kind
      obtain ⟨-, -, -, none, -⟩ := messageForIntent_ok made
      rw [none] at replyTo
      cases replyTo
  have answers := h.answers hm hr (isReply r hr to') to'
  have answers' := h.answers hm hr' (isReply r' hr' to'') to''
  have ⟨_, _, made, _⟩ := answers
  obtain ⟨-, -, -, -, -, -, -, ⟨port, hport, -⟩, -⟩ := messageForReply_ok made
  apply h.unique hr hr'
  rw [answers.messageId hport, answers'.messageId hport]

theorem Intact.reply_acked (h : ch.Intact ids) {reply : ChannelMessage} (hm : reply ∈ ch.messages)
    (kind : reply.kind = .reply) :
    ∃ request ∈ ch.messages, reply.replyTo = some request.messageId ∧
      ∃ sender, reply.senderActorId = some sender ∧
        ∃ a ∈ ch.acks, a.key = (request.messageId, sender) := by
  obtain ⟨request, hr, sender, made, acked, -⟩ := h.replies reply hm kind
  obtain ⟨-, -, replyTo, hsender, -⟩ := messageForReply_ok made
  obtain ⟨a, ha, key⟩ := List.mem_map.mp acked
  exact ⟨request, hr, replyTo, sender, hsender, a, ha, key⟩

theorem Intact.one_reply (h : ch.Intact ids) {id id' : Digest} {command : String}
    (written : ch.replyCommandByMessage.get? id = some command)
    (written' : ch.replyCommandByMessage.get? id' = some command) : id = id' := by
  have nodup := h.replyCommands ▸ h.nodup_replyIds
  have owned := (h.mem_replyMessages nodup).mp written
  have owned' := (h.mem_replyMessages nodup).mp written'
  rw [owned] at owned'
  exact Option.some.inj owned'

end Calls

end InProcessChannel

open InProcessChannel

/-- Over every sequence of calls the history validates, a request has one reply, whose sender
acknowledged it, a command owns one reply and one acknowledgement, a call that succeeded
answers the same ever after and appends nothing, and a call that raises changes nothing. -/
theorem in_process_history (ids : ChannelIds) (channelId : String) (maxBatch : ℕ)
    {ch : InProcessChannel} (run : Reaches (after ids) (new channelId maxBatch) ch) :
    ch.ValidHistory ∧
    (∀ request ∈ ch.messages, ∀ r ∈ ch.messages, ∀ r' ∈ ch.messages,
      r.replyTo = some request.messageId → r'.replyTo = some request.messageId → r = r') ∧
    (∀ reply ∈ ch.messages, reply.kind = .reply →
      ∃ request ∈ ch.messages, reply.replyTo = some request.messageId ∧
        ∃ sender, reply.senderActorId = some sender ∧
          ∃ a ∈ ch.acks, a.key = (request.messageId, sender)) ∧
    (∀ id id' command, ch.replyCommandByMessage.get? id = some command →
      ch.replyCommandByMessage.get? id' = some command → id = id') ∧
    (∀ command key key', (command, key) ∈ ch.ackCommands.entries →
      (command, key') ∈ ch.ackCommands.entries → key = key') ∧
    (∀ c now fact, (ch.call ids c now).1 = .ok fact →
      ∀ ch', Reaches (after ids) (ch.call ids c now).2 ch' →
        ∀ now', ch'.call ids c now' = (.ok fact, ch')) ∧
    ∀ c now e, (ch.call ids c now).1 = .error e → (ch.call ids c now).2 = ch := by
  have h : ch.Intact ids := (intact_new ids channelId maxBatch).run run
  refine ⟨h.validHistory, ?_, ?_, ?_, ?_, ?_, ?_⟩
  · exact fun request hm r hr r' hr' => h.reply_unique hm hr hr'
  · exact fun reply hm kind => h.reply_acked hm kind
  · exact fun id id' command => h.one_reply
  · intro command key key' own own'
    have same := Dict.get?_of_mem h.ackOwners own
    rw [Dict.get?_of_mem h.ackOwners own'] at same
    exact (Option.some.inj same).symm
  · exact fun c now fact ok ch' run' now' => h.repeats ok run' now'
  · intro c now e raised
    have outcome := h.outcome c now
    generalize ch.call ids c now = r at raised outcome ⊢
    cases outcome with
    | raised e => rfl
    | wrote intact grows holds => cases raised

section Example

def plainIds : ChannelIds where
  request := fun intent => "q" ++ intent.port
  reply := fun id _ => "r" ++ id
  apart := by
    intro intent id port same
    have lists := congrArg String.toList same
    simp at lists
  injective := by
    intro id id' port port' same
    have lists := congrArg String.toList same
    simp only [String.toList_append, List.append_cancel_left_eq] at lists
    exact String.toList_inj.mp lists

def adviceIntent : ChannelSendIntent where
  messageId := "qask"
  channelId := "channel"
  channelRevision := "1"
  lane := "lane"
  interaction := .advice
  recipientActorId := none
  contract := ⟨"Question", "1"⟩
  replyContract := ⟨"Answer", "1"⟩
  runId := "run"
  path := ⟨[], []⟩
  port := "ask"
  replyPort := "answer"
  payload := .null

/-- A request, its acknowledgement, and its reply under another command. -/
def adviceCalls : List (ChannelCall × Option Instant) :=
  [(.appendRequest adviceIntent "attestation", some 1), (.acknowledge "qask" "alice" "seen", some 2),
    (.reply "qask" "alice" .null "answer", some 3)]

theorem advice_history :
    (adviceCalls.foldl (after plainIds) (new "channel" 10)).messages.length = 2 ∧
      (adviceCalls.foldl (after plainIds) (new "channel" 10)).ValidHistory :=
  ⟨by decide, (in_process_history plainIds "channel" 10 ⟨adviceCalls, rfl⟩).1⟩

end Example

end Constructicon
