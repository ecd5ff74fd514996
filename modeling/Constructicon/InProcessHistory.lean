import Constructicon.InProcess

/-!
# What an in-process channel retains

The nine indices are laid out beside the two lists: each grows at its end, in step with
them. Every request stands beside the intent it came from, every reply beside its proof,
its request and the acknowledgement of its sender.
-/

namespace Constructicon

open Transaction

namespace InProcessChannel

variable {ids : ChannelIds} {ch : InProcessChannel}

/-- The reply was made from a stored request, by an actor that acknowledged it. -/
def Answers (ids : ChannelIds) (ch : InProcessChannel) (request reply : ChannelMessage) : Prop :=
  request ∈ ch.messages ∧ ∃ sender,
    messageForReply ids request sender reply.envelope.payload reply.envelope.createdAt = .ok reply ∧
    (request.messageId, sender) ∈ ch.ackKeys ∧
    ∃ proof, ch.replyProofByMessage.get? reply.messageId = some proof ∧
      channelReplyProof ids request reply = .ok proof

/-- The layout of the indices, and what each message stands beside. -/
structure Intact (ids : ChannelIds) (ch : InProcessChannel) : Prop where
  nodup : ch.messageIds.Nodup
  byId : ch.byId.entries = ch.messages.map (fun m => (m.messageId, m))
  seqById : ch.seqById.entries = (ch.messages.zipIdx 1).map (fun p => (p.1.messageId, p.2))
  attestations : ch.attestations.keys = ch.requestIds
  intents : ch.requestIntentByMessage.keys = ch.requestIds
  replyCommands : ch.replyCommandByMessage.keys = ch.replyIds
  replyProofs : ch.replyProofByMessage.keys = ch.replyIds
  replyMessages : ch.replyMessageByCommand.entries = ch.replyCommandByMessage.entries.map Prod.swap
  commands : ch.replyMessageByCommand.keys.Nodup
  ackByKey : ch.ackByKey.entries = ch.acks.map (fun a => (a.key, a))
  ackKeys : ch.ackKeys.Nodup
  ackCommands : ch.ackCommands.values = ch.ackKeys
  ackOwners : ch.ackCommands.keys.Nodup
  acked : ∀ a ∈ ch.acks, a.messageId ∈ ch.messageIds
  requests : ∀ m ∈ ch.messages, m.kind = .request →
    ∃ intent, ch.requestIntentByMessage.get? m.messageId = some intent ∧
      messageForIntent ids intent m.envelope.createdAt = .ok m
  replies : ∀ m ∈ ch.messages, m.kind = .reply → ∃ request, Answers ids ch request m
  owners : ∀ command replyId key, ch.replyMessageByCommand.get? command = some replyId →
    ch.ackCommands.get? command = some key →
    ∃ m ∈ ch.messages, m.messageId = replyId ∧ m.replyTo = some key.1 ∧ m.senderActorId = some key.2

theorem intact_new (ids : ChannelIds) (channelId : String) (maxBatch : ℕ) :
    (new channelId maxBatch).Intact ids := by
  constructor <;> simp [new, messageIds, requestIds, replyIds, InProcessChannel.ackKeys]

/-! ## What the layout gives -/

section Layout

theorem Intact.byId_keys (h : ch.Intact ids) : ch.byId.keys = ch.messageIds := by
  unfold Dict.keys messageIds
  rw [h.byId, List.map_map]
  rfl

theorem Intact.seqById_keys (h : ch.Intact ids) : ch.seqById.keys = ch.messageIds := by
  unfold Dict.keys messageIds
  rw [h.seqById, List.map_map]
  calc (ch.messages.zipIdx 1).map (Prod.fst ∘ fun p => (p.1.messageId, p.2))
      = ((ch.messages.zipIdx 1).map Prod.fst).map ChannelMessage.messageId := by
        rw [List.map_map]
        rfl
    _ = ch.messages.map ChannelMessage.messageId := by rw [List.zipIdx_map_fst]

theorem Intact.ackByKey_keys (h : ch.Intact ids) : ch.ackByKey.keys = ch.ackKeys := by
  unfold Dict.keys InProcessChannel.ackKeys
  rw [h.ackByKey, List.map_map]
  rfl

theorem Intact.get?_byId (h : ch.Intact ids) {id : Digest} {m : ChannelMessage} :
    ch.byId.get? id = some m ↔ m ∈ ch.messages ∧ m.messageId = id := by
  have nodup : ch.byId.keys.Nodup := h.byId_keys ▸ h.nodup
  rw [← Dict.mem_iff_get? nodup, h.byId, List.mem_map]
  constructor
  · rintro ⟨x, hx, same⟩
    cases same
    exact ⟨hx, rfl⟩
  · rintro ⟨hm, rfl⟩
    exact ⟨m, hm, rfl⟩

theorem Intact.byId_none (h : ch.Intact ids) {id : Digest} :
    ch.byId.get? id = none ↔ id ∉ ch.messageIds := by
  rw [← Dict.notMem_keys_iff, h.byId_keys]

theorem Intact.isSome_ackByKey (h : ch.Intact ids) {key : Digest × ActorId} :
    (ch.ackByKey.get? key).isSome ↔ key ∈ ch.ackKeys := by
  rw [← h.ackByKey_keys, ← not_iff_not, Dict.notMem_keys_iff, Option.not_isSome_iff_eq_none]

theorem mem_messageIds {id : Digest} :
    id ∈ ch.messageIds ↔ ∃ m ∈ ch.messages, m.messageId = id := List.mem_map

theorem mem_requestIds {id : Digest} :
    id ∈ ch.requestIds ↔ ∃ m ∈ ch.messages, m.kind = .request ∧ m.messageId = id := by
  simp [requestIds, and_assoc]

theorem replyIds_eq (nodup : ch.messageIds.Nodup) :
    ch.replyIds = (ch.messages.filter (fun m => m.kind = .reply)).map ChannelMessage.messageId := by
  unfold replyIds messageIds
  rw [List.filter_map]
  congr 1
  apply List.filter_congr
  intro m hm
  rw [Function.comp_apply, decide_eq_decide, mem_requestIds]
  constructor
  · intro out
    cases kind : m.kind with
    | request => exact absurd ⟨m, hm, kind, rfl⟩ out
    | reply => rfl
  · rintro kind ⟨m', hm', request, same⟩
    have equal : m' = m := List.inj_on_of_nodup_map nodup hm' hm same
    rw [equal, kind] at request
    cases request

theorem Intact.unique (h : ch.Intact ids) {m m' : ChannelMessage} (hm : m ∈ ch.messages)
    (hm' : m' ∈ ch.messages) (same : m.messageId = m'.messageId) : m = m' :=
  List.inj_on_of_nodup_map h.nodup hm hm' same

theorem sameSet_refl {κ : Type} (l : List κ) : SameSet l l := ⟨fun _ h => h, fun _ h => h⟩

theorem Intact.validHistory (h : ch.Intact ids) : ch.ValidHistory := by
  have nodupById : ch.byId.keys.Nodup := h.byId_keys ▸ h.nodup
  have nodupSeq : ch.seqById.keys.Nodup := h.seqById_keys ▸ h.nodup
  have nodupAcks : ch.ackByKey.keys.Nodup := h.ackByKey_keys ▸ h.ackKeys
  have values : ch.replyMessageByCommand.values = ch.replyIds := by
    rw [← h.replyCommands]
    unfold Dict.values Dict.keys
    rw [h.replyMessages, List.map_map]
    rfl
  have lengths : ch.replyMessageByCommand.entries.length = ch.replyIds.length := by
    rw [← values]
    simp [Dict.values]
  have ackLengths : ch.ackCommands.entries.length = ch.ackKeys.length := by
    rw [← h.ackCommands]
    simp [Dict.values]
  refine ⟨⟨h.nodup, ?_, ?_, ?_⟩, ⟨?_, ?_⟩, ⟨?_, ?_, ?_, lengths, ?_⟩, ⟨h.ackKeys, ?_, ?_, ackLengths, ?_⟩⟩
  · exact h.byId_keys ▸ sameSet_refl _
  · exact h.seqById_keys ▸ sameSet_refl _
  · intro p hp
    have hm : p.1 ∈ ch.messages := List.fst_mem_of_mem_zipIdx hp
    refine ⟨h.get?_byId.mpr ⟨hm, rfl⟩, Dict.get?_of_mem nodupSeq ?_⟩
    rw [h.seqById]
    exact List.mem_map.mpr ⟨p, hp, rfl⟩
  · exact h.attestations ▸ sameSet_refl _
  · exact h.intents ▸ sameSet_refl _
  · exact h.replyCommands ▸ sameSet_refl _
  · exact h.replyProofs ▸ sameSet_refl _
  · exact values ▸ sameSet_refl _
  · intro e he
    apply Dict.get?_of_mem h.commands
    rw [h.replyMessages]
    exact List.mem_map.mpr ⟨e, he, rfl⟩
  · exact h.ackByKey_keys ▸ sameSet_refl _
  · exact h.ackCommands ▸ sameSet_refl _
  · intro a ha
    refine ⟨Dict.get?_of_mem nodupAcks ?_, h.byId_keys ▸ h.acked a ha⟩
    rw [h.ackByKey]
    exact List.mem_map.mpr ⟨a, ha, rfl⟩

theorem Intact.validated (h : ch.Intact ids) : ch.validateHistory = .ok () :=
  require_of h.validHistory

theorem Intact.completeRequest (h : ch.Intact ids) {m : ChannelMessage} (hm : m ∈ ch.messages)
    (kind : m.kind = .request) : ch.completeRequest ids m = .ok m := by
  obtain ⟨intent, found, made⟩ := h.requests m hm kind
  unfold InProcessChannel.completeRequest
  rw [require_of kind, ok_bind, found, expect_some, ok_bind, made, ok_bind, require_of rfl]
  rfl

theorem Intact.completeReply (h : ch.Intact ids) {request reply : ChannelMessage}
    (answers : Answers ids ch request reply) : ch.completeReply ids request reply = .ok reply := by
  obtain ⟨hm, sender, made, acked, proof, found, proved⟩ := answers
  obtain ⟨kind, -, -, hsender, -⟩ := messageForReply_ok made
  unfold InProcessChannel.completeReply
  rw [h.completeRequest hm kind, ok_bind, validatedReply_of made, ok_bind, hsender, expect_some,
    ok_bind, require_of (h.isSome_ackByKey.mpr acked), ok_bind, found, expect_some, ok_bind]
  unfold validatedChannelReplyProof
  rw [proved, ok_bind, require_of rfl]
  rfl

theorem Intact.answers (h : ch.Intact ids) {request reply : ChannelMessage} (hr : request ∈ ch.messages)
    (hm : reply ∈ ch.messages) (kind : reply.kind = .reply)
    (replyTo : reply.replyTo = some request.messageId) : Answers ids ch request reply := by
  obtain ⟨request', answers⟩ := h.replies reply hm kind
  have ⟨hr', sender, made, _⟩ := answers
  obtain ⟨-, -, replyTo', -⟩ := messageForReply_ok made
  have same : request' = request := by
    apply h.unique hr' hr
    rw [replyTo'] at replyTo
    exact Option.some.inj replyTo
  exact same ▸ answers

theorem Answers.messageId {request reply : ChannelMessage} {port : String}
    (answers : Answers ids ch request reply) (hport : request.replyPort = some port) :
    reply.messageId = ids.reply request.messageId port := by
  obtain ⟨-, sender, made, -⟩ := answers
  obtain ⟨-, -, -, -, -, -, -, ⟨port', hport', id⟩, -⟩ := messageForReply_ok made
  rw [hport'] at hport
  cases hport
  exact id

end Layout

/-! ## What a write leaves -/

section Writes

variable {message : ChannelMessage} {intent : ChannelSendIntent}

theorem messageIds_append (ch : InProcessChannel) (message : ChannelMessage) :
    (ch.append message).messageIds = ch.messageIds ++ [message.messageId] := by
  simp [messageIds, append]

theorem nodup_append (nodup : ch.messageIds.Nodup) (fresh : message.messageId ∉ ch.messageIds) :
    (ch.append message).messageIds.Nodup := by
  rw [messageIds_append, List.nodup_append]
  refine ⟨nodup, List.nodup_singleton _, ?_⟩
  rintro id old id' new rfl
  exact fresh (List.mem_singleton.mp new ▸ old)

theorem requestIds_append (ch : InProcessChannel) (message : ChannelMessage) :
    (ch.append message).requestIds =
      ch.requestIds ++ (if message.kind = .request then [message.messageId] else []) := by
  unfold requestIds append
  rw [List.filter_append, List.map_append]
  split_ifs with kind
  · simp [kind]
  · simp [kind]

theorem replyIds_append (nodup : ch.messageIds.Nodup) (fresh : message.messageId ∉ ch.messageIds) :
    (ch.append message).replyIds =
      ch.replyIds ++ (if message.kind = .reply then [message.messageId] else []) := by
  rw [replyIds_eq (nodup_append nodup fresh), replyIds_eq nodup]
  unfold append
  rw [List.filter_append, List.map_append]
  split_ifs with kind
  · simp [kind]
  · simp [kind]

theorem Intact.append_byId (h : ch.Intact ids) (fresh : message.messageId ∉ ch.messageIds) :
    (ch.append message).byId.entries = (ch.append message).messages.map (fun m => (m.messageId, m)) := by
  change (ch.byId.insert _ _).entries = (ch.messages ++ [message]).map _
  rw [Dict.entries_insert_new (h.byId_keys ▸ fresh), h.byId, List.map_append]
  rfl

theorem Intact.append_seqById (h : ch.Intact ids) (fresh : message.messageId ∉ ch.messageIds) :
    (ch.append message).seqById.entries =
      ((ch.append message).messages.zipIdx 1).map (fun p => (p.1.messageId, p.2)) := by
  change (ch.seqById.insert _ _).entries = ((ch.messages ++ [message]).zipIdx 1).map _
  rw [Dict.entries_insert_new (h.seqById_keys ▸ fresh), h.seqById, List.zipIdx_append,
    List.map_append, Nat.add_comm 1]
  rfl

theorem Answers.append {ch' : InProcessChannel} {request reply : ChannelMessage}
    (answers : Answers ids ch request reply) (messages : ∀ m ∈ ch.messages, m ∈ ch'.messages)
    (acks : ∀ key ∈ ch.ackKeys, key ∈ ch'.ackKeys)
    (proofs : ∀ id proof, ch.replyProofByMessage.get? id = some proof →
      ch'.replyProofByMessage.get? id = some proof) : Answers ids ch' request reply := by
  obtain ⟨hr, sender, made, acked, proof, found, proved⟩ := answers
  exact ⟨messages _ hr, sender, made, acks _ acked, proof, proofs _ _ found, proved⟩

theorem Intact.storeRequest (h : ch.Intact ids) (fresh : message.messageId ∉ ch.messageIds)
    (made : messageForIntent ids intent message.envelope.createdAt = .ok message)
    (attestationId : String) : (ch.storeRequest message intent attestationId).Intact ids := by
  obtain ⟨-, -, kind, -⟩ := messageForIntent_ok made
  have notRequest : message.messageId ∉ ch.requestIds := by
    intro mem
    obtain ⟨m, hm, -, same⟩ := mem_requestIds.mp mem
    exact fresh (mem_messageIds.mpr ⟨m, hm, same⟩)
  have requestIds : (ch.append message).requestIds = ch.requestIds ++ [message.messageId] := by
    rw [requestIds_append, if_pos kind]
  have replyIds : (ch.append message).replyIds = ch.replyIds := by
    rw [replyIds_append h.nodup fresh, if_neg (by rw [kind]; decide), List.append_nil]
  constructor
  case nodup => exact nodup_append h.nodup fresh
  case byId => exact h.append_byId fresh
  case seqById => exact h.append_seqById fresh
  case attestations =>
    change (ch.attestations.insert _ _).keys = (ch.append message).requestIds
    rw [Dict.keys_insert_new (h.attestations ▸ notRequest), h.attestations, requestIds]
  case intents =>
    change (ch.requestIntentByMessage.insert _ _).keys = (ch.append message).requestIds
    rw [Dict.keys_insert_new (h.intents ▸ notRequest), h.intents, requestIds]
  case replyCommands => exact h.replyCommands.trans replyIds.symm
  case replyProofs => exact h.replyProofs.trans replyIds.symm
  case replyMessages => exact h.replyMessages
  case commands => exact h.commands
  case ackByKey => exact h.ackByKey
  case ackKeys => exact h.ackKeys
  case ackCommands => exact h.ackCommands
  case ackOwners => exact h.ackOwners
  case acked =>
    intro a ha
    change a.messageId ∈ (ch.append message).messageIds
    rw [messageIds_append]
    exact List.mem_append_left _ (h.acked a ha)
  case requests =>
    intro m hm request
    change ∃ intent', (ch.requestIntentByMessage.insert message.messageId intent).get? m.messageId =
      some intent' ∧ _
    rcases List.mem_append.mp hm with old | new
    · obtain ⟨intent', found, made'⟩ := h.requests m old request
      have ne : message.messageId ≠ m.messageId := fun same =>
        fresh (mem_messageIds.mpr ⟨m, old, same.symm⟩)
      rw [Dict.get?_insert_ne _ _ ne]
      exact ⟨intent', found, made'⟩
    · rw [List.mem_singleton.mp new, Dict.get?_insert_self]
      exact ⟨intent, rfl, made⟩
  case replies =>
    intro m hm reply
    rcases List.mem_append.mp hm with old | new
    · obtain ⟨request, answers⟩ := h.replies m old reply
      exact ⟨request, answers.append (fun m hm => List.mem_append_left _ hm) (fun _ hk => hk)
        (fun _ _ found => found)⟩
    · rw [List.mem_singleton.mp new, kind] at reply
      cases reply
  case owners =>
    intro command replyId key replied owned
    obtain ⟨m, hm, rest⟩ := h.owners command replyId key replied owned
    exact ⟨m, List.mem_append_left _ hm, rest⟩

theorem Intact.appendAck (h : ch.Intact ids) {ack : ChannelAck} {command : String}
    (fresh : ack.key ∉ ch.ackKeys) (known : ack.messageId ∈ ch.messageIds)
    (unowned : ch.ackCommands.get? command = none)
    (own : ∀ replyId, ch.replyMessageByCommand.get? command = some replyId →
      ∃ m ∈ ch.messages, m.messageId = replyId ∧ m.replyTo = some ack.messageId ∧
        m.senderActorId = some ack.actorId) : (ch.appendAck ack command).Intact ids := by
  have unowned' : command ∉ ch.ackCommands.keys := Dict.notMem_keys_iff.mpr unowned
  have keys : (ch.appendAck ack command).ackKeys = ch.ackKeys ++ [ack.key] := by
    simp [InProcessChannel.ackKeys, InProcessChannel.appendAck]
  constructor
  case nodup => exact h.nodup
  case byId => exact h.byId
  case seqById => exact h.seqById
  case attestations => exact h.attestations
  case intents => exact h.intents
  case replyCommands => exact h.replyCommands
  case replyProofs => exact h.replyProofs
  case replyMessages => exact h.replyMessages
  case commands => exact h.commands
  case ackByKey =>
    change (ch.ackByKey.insert _ _).entries = (ch.acks ++ [ack]).map _
    rw [Dict.entries_insert_new (h.ackByKey_keys ▸ fresh), h.ackByKey, List.map_append]
    rfl
  case ackKeys =>
    rw [keys, List.nodup_append]
    refine ⟨h.ackKeys, List.nodup_singleton _, ?_⟩
    rintro key old key' new rfl
    exact fresh (List.mem_singleton.mp new ▸ old)
  case ackCommands =>
    change (ch.ackCommands.insert _ _).values = _
    rw [Dict.values_insert_new unowned', h.ackCommands, keys]
  case ackOwners => exact Dict.nodup_insert h.ackOwners _ _
  case acked =>
    intro a ha
    rcases List.mem_append.mp ha with old | new
    · exact h.acked a old
    · rw [List.mem_singleton.mp new]
      exact known
  case requests => exact h.requests
  case replies =>
    intro m hm reply
    obtain ⟨request, answers⟩ := h.replies m hm reply
    refine ⟨request, answers.append (fun _ hm => hm) ?_ (fun _ _ found => found)⟩
    intro key mem
    rw [keys]
    exact List.mem_append_left _ mem
  case owners =>
    intro command' replyId key replied owned
    change (ch.ackCommands.insert command ack.key).get? command' = some key at owned
    by_cases same : command = command'
    · subst same
      rw [Dict.get?_insert_self] at owned
      cases owned
      exact own replyId replied
    · rw [Dict.get?_insert_ne _ _ same] at owned
      exact h.owners command' replyId key replied owned

theorem Intact.storeReply (h : ch.Intact ids) {request reply : ChannelMessage} {sender : ActorId}
    {proof : ChannelReplyProof} {command : String} (hr : request ∈ ch.messages)
    (fresh : reply.messageId ∉ ch.messageIds)
    (made : messageForReply ids request sender reply.envelope.payload reply.envelope.createdAt =
      .ok reply)
    (proved : channelReplyProof ids request reply = .ok proof)
    (acked : (request.messageId, sender) ∈ ch.ackKeys)
    (unowned : ch.replyMessageByCommand.get? command = none)
    (own : ∀ key, ch.ackCommands.get? command = some key → key = (request.messageId, sender)) :
    (ch.storeReply ⟨reply, proof, none⟩ command).Intact ids := by
  obtain ⟨-, kind, replyTo, hsender, -⟩ := messageForReply_ok made
  have unowned' : command ∉ ch.replyMessageByCommand.keys := Dict.notMem_keys_iff.mpr unowned
  have notReply : reply.messageId ∉ ch.replyIds := by
    intro mem
    exact fresh (List.mem_of_mem_filter mem)
  have requestIds : (ch.append reply).requestIds = ch.requestIds := by
    rw [requestIds_append, if_neg (by rw [kind]; decide), List.append_nil]
  have replyIds : (ch.append reply).replyIds = ch.replyIds ++ [reply.messageId] := by
    rw [replyIds_append h.nodup fresh, if_pos kind]
  constructor
  case nodup => exact nodup_append h.nodup fresh
  case byId => exact h.append_byId fresh
  case seqById => exact h.append_seqById fresh
  case attestations => exact h.attestations.trans requestIds.symm
  case intents => exact h.intents.trans requestIds.symm
  case replyCommands =>
    change (ch.replyCommandByMessage.insert _ _).keys = (ch.append reply).replyIds
    rw [Dict.keys_insert_new (h.replyCommands ▸ notReply), h.replyCommands, replyIds]
  case replyProofs =>
    change (ch.replyProofByMessage.insert _ _).keys = (ch.append reply).replyIds
    rw [Dict.keys_insert_new (h.replyProofs ▸ notReply), h.replyProofs, replyIds]
  case replyMessages =>
    change (ch.replyMessageByCommand.insert _ _).entries =
      (ch.replyCommandByMessage.insert _ _).entries.map Prod.swap
    rw [Dict.entries_insert_new unowned', Dict.entries_insert_new (h.replyCommands ▸ notReply),
      h.replyMessages, List.map_append]
    rfl
  case commands => exact Dict.nodup_insert h.commands _ _
  case ackByKey => exact h.ackByKey
  case ackKeys => exact h.ackKeys
  case ackCommands => exact h.ackCommands
  case ackOwners => exact h.ackOwners
  case acked =>
    intro a ha
    change a.messageId ∈ (ch.append reply).messageIds
    rw [messageIds_append]
    exact List.mem_append_left _ (h.acked a ha)
  case requests =>
    intro m hm isRequest
    rcases List.mem_append.mp hm with old | new
    · exact h.requests m old isRequest
    · rw [List.mem_singleton.mp new, kind] at isRequest
      cases isRequest
  case replies =>
    intro m hm isReply
    have proofs : ∀ id proof', ch.replyProofByMessage.get? id = some proof' →
        (ch.replyProofByMessage.insert reply.messageId proof).get? id = some proof' := by
      intro id proof' found
      have ne : reply.messageId ≠ id := by
        rintro rfl
        have none := Dict.notMem_keys_iff.mp (h.replyProofs ▸ notReply)
        rw [none] at found
        cases found
      rw [Dict.get?_insert_ne _ _ ne]
      exact found
    rcases List.mem_append.mp hm with old | new
    · obtain ⟨request', answers⟩ := h.replies m old isReply
      exact ⟨request', answers.append (fun m hm => List.mem_append_left _ hm) (fun _ hk => hk) proofs⟩
    · rw [List.mem_singleton.mp new]
      exact ⟨request, List.mem_append_left _ hr, sender, made, acked, proof,
        Dict.get?_insert_self _ _ _, proved⟩
  case owners =>
    intro command' replyId key replied owned
    change (ch.replyMessageByCommand.insert command reply.messageId).get? command' = some replyId
      at replied
    by_cases same : command = command'
    · subst same
      rw [Dict.get?_insert_self] at replied
      cases replied
      rw [own key owned]
      exact ⟨reply, List.mem_append_right _ (List.mem_singleton_self _), rfl, replyTo, hsender⟩
    · rw [Dict.get?_insert_ne _ _ same] at replied
      obtain ⟨m, hm, rest⟩ := h.owners command' replyId key replied owned
      exact ⟨m, List.mem_append_left _ hm, rest⟩

end Writes

end InProcessChannel

end Constructicon
