import Constructicon.HumanExchange
import Constructicon.InProcessCalls
import Constructicon.Library.Keyset
import Mathlib.Data.List.Fold

/-!
# Inbox pages at a cut

A revision cuts the messages and the acknowledgements of a channel. What the cut delivers
to an actor is one list in the order of its keys, fixed when the revision was read; every
page of it, read at any later moment, is a page of that list.
-/

namespace Constructicon

open Transaction

def ChannelDelivery.key (d : ChannelDelivery) : ℕ ×ₗ String :=
  toLex (d.messageSeq, d.message.messageId)

section Deliveries

variable (actorId : ActorId) (acks : List ChannelAck)

/-- The delivery of a numbered message, acknowledged when the actor did so inside the cut. -/
def deliver (x : ChannelMessage × ℕ) : ChannelDelivery :=
  ⟨x.2, x.1, (x.1.messageId, actorId) ∈ acks.map ChannelAck.key⟩

def deliveries (admits : ChannelMessage → Prop) [DecidablePred admits]
    (messages : List ChannelMessage) : List ChannelDelivery :=
  ((messages.zipIdx 1).filter (fun x => admits x.1)).map (deliver actorId acks)

variable {actorId acks} {admits : ChannelMessage → Prop} [DecidablePred admits]
  {messages : List ChannelMessage}

theorem deliveries_increasing :
    (deliveries actorId acks admits messages).Pairwise (fun a b => a.key < b.key) := by
  have numbers : (messages.zipIdx 1).Pairwise (fun x y => x.2 < y.2) := by
    rw [← List.pairwise_map (f := Prod.snd), List.zipIdx_map_snd]
    exact List.pairwise_lt_range'
  unfold deliveries
  rw [List.pairwise_map]
  refine (numbers.filter _).imp ?_
  intro x y less
  exact Prod.Lex.toLex_lt_toLex.mpr (.inl less)

theorem next_deliveries (after : Option (ℕ ×ₗ String)) (limit : ℕ) :
    Keyset.next ChannelDelivery.key (deliveries actorId acks admits messages) after limit =
      (((messages.zipIdx 1).filter (fun x => admits x.1 ∧
        Keyset.Beyond after (toLex (x.2, x.1.messageId)))).take limit).map (deliver actorId acks) := by
  unfold Keyset.next deliveries
  rw [List.filter_map, List.map_take, List.filter_filter]
  congr 3
  funext x
  simp [ChannelDelivery.key, deliver, Bool.and_comm]

end Deliveries

section Numbers

variable {α : Type} {l l' : List α} {x : α × ℕ}

theorem zipIdx_mono (h : l <+: l') (hx : x ∈ l.zipIdx 1) : x ∈ l'.zipIdx 1 := by
  obtain ⟨more, rfl⟩ := h
  rw [List.zipIdx_append]
  exact List.mem_append_left _ hx

theorem mem_zipIdx_of_mem {a : α} (h : a ∈ l) : ∃ n, (a, n) ∈ l.zipIdx 1 := by
  rw [← List.zipIdx_map_fst 1 l] at h
  obtain ⟨⟨b, n⟩, hb, rfl⟩ := List.mem_map.mp h
  exact ⟨n, hb⟩

theorem le_length_of_mem_zipIdx (hx : x ∈ l.zipIdx 1) : x.2 ≤ l.length := by
  have h := List.snd_lt_add_of_mem_zipIdx hx
  omega

theorem filter_zipIdx (p : α × ℕ → Prop) [DecidablePred p] (l : List α) (n : ℕ) :
    (l.zipIdx 1).filter (fun x => x.2 ≤ n ∧ p x) = ((l.take n).zipIdx 1).filter p := by
  have within : (l.take n).zipIdx 1 = (l.zipIdx 1).filter (fun x => x.2 ≤ n) := by
    have split : l.zipIdx 1 =
        (l.take n).zipIdx 1 ++ (l.drop n).zipIdx (1 + (l.take n).length) := by
      rw [← List.zipIdx_append, List.take_append_drop]
    have below : ((l.take n).zipIdx 1).filter (fun x => x.2 ≤ n) = (l.take n).zipIdx 1 := by
      rw [List.filter_eq_self]
      intro x hx
      have h := le_length_of_mem_zipIdx hx
      rw [List.length_take] at h
      exact decide_eq_true (by omega)
    have above : ((l.drop n).zipIdx (1 + (l.take n).length)).filter (fun x => x.2 ≤ n) = [] := by
      rw [List.filter_eq_nil_iff]
      intro x hx
      have start := List.le_snd_of_mem_zipIdx hx
      have finish := List.snd_lt_add_of_mem_zipIdx hx
      rw [List.length_take] at start finish
      rw [List.length_drop] at finish
      simp only [decide_eq_true_eq]
      omega
    rw [split, List.filter_append, below, above, List.append_nil]
  rw [within, List.filter_filter]
  apply List.filter_congr
  intro x _
  simp [Bool.and_comm]

end Numbers

/-! ## The in-process channel -/

namespace InProcessChannel

variable {ids : ChannelIds} {ch ch' : InProcessChannel} {actorId : ActorId} {limit : ℕ}
  {after : Option InboxKey}

def atCut (ch : InProcessChannel) (actorId : ActorId) (revision : ChannelRevision) :
    List ChannelDelivery :=
  deliveries actorId (ch.acks.take revision.ackSeq) (fun m => DiscoverableBy m actorId)
    (ch.messages.take revision.messageSeq)

theorem Intact.completeMessage (h : ch.Intact ids) {m : ChannelMessage} (hm : m ∈ ch.messages) :
    ch.completeMessage ids m = .ok m := by
  unfold InProcessChannel.completeMessage
  cases kind : m.kind with
  | request => rw [if_pos rfl, h.completeRequest hm kind]
  | reply =>
    obtain ⟨request, answers⟩ := h.replies m hm kind
    have ⟨hr, sender, made, _⟩ := answers
    rw [if_neg (by decide), (messageForReply_ok made).2.2.1, expect_some, ok_bind,
      h.get?_byId.mpr ⟨hr, rfl⟩, expect_some, ok_bind, h.completeReply answers]

/-- The loop of `inbox` collects the admitted messages until the page is full. -/
theorem Intact.inboxPage (h : ch.Intact ids) {acks : List ChannelAck}
    {rows : List (ChannelMessage × ℕ)} (stored : ∀ x ∈ rows, x.1 ∈ ch.messages)
    {page : List ChannelDelivery} (room : page.length < limit) :
    ch.inboxPage ids (acks.map ChannelAck.key) actorId after limit rows page =
      .ok (page ++ ((rows.filter (fun x => DiscoverableBy x.1 actorId ∧
        Keyset.Beyond after (toLex (x.2, x.1.messageId)))).take (limit - page.length)).map
          (deliver actorId acks)) := by
  induction rows generalizing page with
  | nil => simp [InProcessChannel.inboxPage]
  | cons x rows ih =>
    obtain ⟨message, seq⟩ := x
    have rest := fun y hy => stored y (List.mem_cons_of_mem _ hy)
    unfold InProcessChannel.inboxPage
    rw [h.completeMessage (stored _ List.mem_cons_self), ok_bind]
    by_cases found : DiscoverableBy message actorId
    · rw [if_neg (not_not.mpr found)]
      by_cases beyond : Keyset.Beyond after (toLex (seq, message.messageId))
      · have ahead : ¬∃ a ∈ after, toLex (seq, message.messageId) ≤ a := by
          rintro ⟨a, ha, le⟩
          exact absurd (beyond a ha) (not_lt.mpr le)
        rw [if_neg ahead, List.filter_cons_of_pos (by simp [found, beyond])]
        dsimp only
        have more : limit - page.length = (limit - (page.length + 1)) + 1 := by omega
        rw [more, List.take_succ_cons, List.map_cons, List.length_append, List.length_singleton]
        by_cases full : page.length + 1 = limit
        · rw [if_pos full, full, Nat.sub_self, List.take_zero]
          rfl
        · rw [if_neg full, ih rest (by rw [List.length_append, List.length_singleton]; omega),
            List.length_append, List.length_singleton, List.append_assoc]
          rfl
      · have behind : ∃ a ∈ after, toLex (seq, message.messageId) ≤ a := by
          unfold Keyset.Beyond at beyond
          push Not at beyond
          exact beyond
        rw [if_pos behind, ih rest room, List.filter_cons_of_neg (by simp [beyond])]
    · rw [if_pos found, ih rest room, List.filter_cons_of_neg (by simp [found])]

theorem Intact.seq_le (h : ch.Intact ids) (h' : ch'.Intact ids) (g : Grows ch ch') {a : ChannelAck}
    (ha : a ∈ ch.acks) {seq : ℕ} (found : ch'.seqById.get? a.messageId = some seq) :
    seq ≤ ch.messages.length := by
  obtain ⟨m, hm, id⟩ := List.mem_map.mp (h.acked a ha)
  obtain ⟨n, hn⟩ := mem_zipIdx_of_mem hm
  obtain ⟨more, grown⟩ := g.messages
  have later : (m, n) ∈ ch'.messages.zipIdx 1 := zipIdx_mono ⟨more, grown.symm⟩ hn
  have entry : (a.messageId, n) ∈ ch'.seqById.entries := by
    rw [h'.seqById]
    exact List.mem_map.mpr ⟨(m, n), later, by rw [← id]⟩
  have nodup : ch'.seqById.keys.Nodup := h'.seqById_keys ▸ h'.nodup
  rw [Dict.get?_of_mem nodup entry] at found
  cases found
  exact le_length_of_mem_zipIdx hn

theorem Intact.inbox (h : ch.Intact ids) (h' : ch'.Intact ids) (g : Grows ch ch')
    (positive : 0 < limit) (batch : limit ≤ ch'.maxBatch) :
    ch'.inbox ids actorId ⟨ch.messages.length, ch.acks.length⟩ after limit =
      .ok (Keyset.next ChannelDelivery.key
        (ch.atCut actorId ⟨ch.messages.length, ch.acks.length⟩) after limit) := by
  obtain ⟨messages, grownMessages⟩ := g.messages
  obtain ⟨acks, grownAcks⟩ := g.acks
  have sameMessages : ch'.messages.take ch.messages.length = ch.messages := by
    rw [grownMessages, List.take_left]
  have sameAcks : ch'.acks.take ch.acks.length = ch.acks := by
    rw [grownAcks, List.take_left]
  have retained : ch.messages.length ≤ ch'.messages.length ∧ ch.acks.length ≤ ch'.acks.length := by
    rw [grownMessages, grownAcks, List.length_append, List.length_append]
    omega
  have coherent : ∀ a ∈ ch.acks, ∀ seq ∈ ch'.seqById.get? a.messageId, seq ≤ ch.messages.length :=
    fun a ha seq found => h.seq_le h' g ha found
  unfold InProcessChannel.inbox atCut
  rw [require_of positive, ok_bind, require_of batch, ok_bind, h'.validated, ok_bind,
    require_of retained, ok_bind]
  dsimp only
  rw [sameMessages, sameAcks, List.take_length, List.take_length, next_deliveries,
    require_of coherent, ok_bind,
    h'.inboxPage (fun x hx => g.mem_messages (List.fst_mem_of_mem_zipIdx hx)) positive]
  rfl

theorem maxBatch_after (ch : InProcessChannel) (x : ChannelCall × Option Instant) :
    (InProcessChannel.after ids ch x).maxBatch = ch.maxBatch := by
  obtain ⟨c, now⟩ := x
  unfold InProcessChannel.after InProcessChannel.call
  cases c with
  | appendRequest intent attestationId =>
    dsimp only [appendRequest]
    split <;> rfl
  | acknowledge messageId actorId commandId =>
    dsimp only [acknowledge]
    split <;> rfl
  | reply requestId actorId payload commandId =>
    dsimp only [reply]
    split
    · rfl
    · rfl
    · dsimp only [storeReply]
      split <;> rfl

theorem maxBatch_run (run : Reaches (InProcessChannel.after ids) ch ch') :
    ch'.maxBatch = ch.maxBatch :=
  run.invariant (I := fun c => c.maxBatch = ch.maxBatch) (fun _ x h => (maxBatch_after _ x).trans h) rfl

theorem Intact.latestRevision (h : ch.Intact ids) :
    ch.latestRevision = .ok ⟨ch.messages.length, ch.acks.length⟩ := by
  unfold InProcessChannel.latestRevision
  rw [h.validated]
  rfl

end InProcessChannel

/-! ## The durable mailbox -/

namespace Mailbox

variable {w : MailWire} {m m' : Mailbox} {channelId : Option String} {actorId : ActorId}
  {interactions : Option (List ChannelInteraction)} {revision : ChannelRevision} {limit : ℕ}
  {after : Option DeliveryKey}

def Wanted (channelId : Option String) (actorId : ActorId)
    (interactions : Option (List ChannelInteraction)) (message : ChannelMessage) : Prop :=
  InScope channelId message ∧ DiscoverableBy message actorId ∧
    ∀ wanted ∈ interactions, message.interaction ∈ wanted

instance (message : ChannelMessage) : Decidable (Wanted channelId actorId interactions message) :=
  inferInstanceAs (Decidable (_ ∧ _ ∧ _))

def atCut (m : Mailbox) (channelId : Option String) (actorId : ActorId)
    (interactions : Option (List ChannelInteraction)) (revision : ChannelRevision) :
    List ChannelDelivery :=
  deliveries actorId ((m.acks.take revision.ackSeq).map AckRow.ack)
    (Wanted channelId actorId interactions)
    ((m.messages.take revision.messageSeq).map MessageRow.message)

section Highest

variable {α : Type} {rows rows' : List (α × ℕ)} {x : α × ℕ}

theorem le_highest (h : x ∈ rows) : x.2 ≤ highest rows := by
  unfold highest
  rw [List.foldl_eq_foldr]
  exact List.le_max_of_le' 0 (List.mem_map.mpr ⟨x, h, rfl⟩) le_rfl

theorem highest_le {n : ℕ} (h : ∀ x ∈ rows, x.2 ≤ n) : highest rows ≤ n := by
  unfold highest
  rw [List.foldl_eq_foldr]
  apply List.max_le_of_forall_le
  intro k hk
  obtain ⟨x, hx, rfl⟩ := List.mem_map.mp hk
  exact h x hx

theorem highest_mono (h : ∀ x ∈ rows, x ∈ rows') : highest rows ≤ highest rows' :=
  highest_le fun x hx => le_highest (h x hx)

end Highest

def cutOf (m : Mailbox) (channelId : Option String) : ChannelRevision where
  messageSeq := highest ((numbered m.messages).filter (fun x => InScope channelId x.1.message))
  ackSeq := highest ((numbered m.acks).filter (fun x =>
    m.AckJoins (fun y => InScope channelId y.1.message) x.1))

theorem cutOf_le (m : Mailbox) (channelId : Option String) :
    (m.cutOf channelId).messageSeq ≤ m.messages.length ∧
      (m.cutOf channelId).ackSeq ≤ m.acks.length := by
  constructor
  · exact highest_le fun x hx => le_length_of_mem_zipIdx (List.mem_of_mem_filter hx)
  · exact highest_le fun x hx => le_length_of_mem_zipIdx (List.mem_of_mem_filter hx)

theorem Sound.joins (hs : m.Sound w) {a : AckRow} (ha : a ∈ m.acks) :
    ∃ x ∈ numbered m.messages, x.1.message.messageId = a.ack.messageId := by
  obtain ⟨request, command, observed⟩ := hs.acks a ha
  obtain ⟨n, hn⟩ := mem_zipIdx_of_mem observed.stored
  exact ⟨(request, n), hn, observed.message.symm⟩

theorem Sound.currentRevision (hs : m.Sound w) (channelId : Option String) :
    m.currentRevision channelId = .ok (m.cutOf channelId) := by
  have joined : ∀ row ∈ m.acks, m.AckJoins (fun _ => True) row := by
    intro a ha
    obtain ⟨x, hx, same⟩ := hs.joins ha
    exact ⟨x, hx, same, trivial⟩
  unfold Mailbox.currentRevision
  rw [require_of joined]
  rfl

theorem Grows.cutOf_mono (g : m.Grows m') (channelId : Option String) :
    (m.cutOf channelId).messageSeq ≤ (m'.cutOf channelId).messageSeq ∧
      (m.cutOf channelId).ackSeq ≤ (m'.cutOf channelId).ackSeq := by
  constructor
  · apply highest_mono
    intro x hx
    rw [List.mem_filter] at hx ⊢
    exact ⟨zipIdx_mono g.messages hx.1, hx.2⟩
  · apply highest_mono
    intro x hx
    simp only [List.mem_filter, decide_eq_true_eq] at hx ⊢
    obtain ⟨hx, y, hy, joins⟩ := hx
    exact ⟨zipIdx_mono g.acks hx, y, zipIdx_mono g.messages hy, joins⟩

theorem Sound.numbered_unique (hs : m.Sound w) {x y : MessageRow × ℕ} (hx : x ∈ numbered m.messages)
    (hy : y ∈ numbered m.messages) (same : x.1.message.messageId = y.1.message.messageId) : x = y := by
  have nodup : ((numbered m.messages).map (fun x => x.1.message.messageId)).Nodup := by
    have ids := hs.nodup
    rw [← List.zipIdx_map_fst 1 m.messages, List.map_map] at ids
    exact ids
  exact Dict.eq_of_nodup_map nodup hx hy same

theorem Grows.take_messages (g : m.Grows m') {n : ℕ} (h : n ≤ m.messages.length) :
    m'.messages.take n = m.messages.take n := by
  obtain ⟨more, same⟩ := g.messages
  rw [← same, List.take_append_of_le_length h]

theorem Grows.take_acks (g : m.Grows m') {n : ℕ} (h : n ≤ m.acks.length) :
    m'.acks.take n = m.acks.take n := by
  obtain ⟨more, same⟩ := g.acks
  rw [← same, List.take_append_of_le_length h]

theorem Sound.coherent (hs : m.Sound w) (hs' : m'.Sound w) (g : m.Grows m')
    (channelId : Option String) : ∀ row ∈ m'.acks.take (m.cutOf channelId).ackSeq,
      ¬m'.AckJoins (fun y => (m.cutOf channelId).messageSeq < y.2 ∧ InScope channelId y.1.message)
        row := by
  rintro a ha ⟨y, hy, same, later, scope⟩
  rw [g.take_acks (m.cutOf_le channelId).2] at ha
  obtain ⟨x, hx, named⟩ := hs.joins (List.mem_of_mem_take ha)
  have one : y = x := hs'.numbered_unique hy (zipIdx_mono g.messages hx) (same.trans named.symm)
  subst one
  have included : y.2 ≤ (m.cutOf channelId).messageSeq :=
    le_highest (List.mem_filter.mpr ⟨hx, decide_eq_true scope⟩)
  omega

/-! ## One page -/

theorem visible_iff {x : MessageRow × ℕ} : Visible channelId actorId interactions after x ↔
    Wanted channelId actorId interactions x.1.message ∧
      Keyset.Beyond after (toLex (x.2, x.1.message.messageId)) := by
  have rule : (x.1.message.recipientActorId = some actorId ∨
      x.1.message.kind = .request ∧ x.1.message.recipientActorId = none) ↔
        DiscoverableBy x.1.message actorId := by
    unfold DiscoverableBy
    cases x.1.message.recipientActorId <;> simp
  unfold Visible Wanted Keyset.Beyond
  rw [rule]
  simp only [and_assoc]

theorem Sound.routed (hs : m.Sound w) {row : MessageRow} (hr : row ∈ m.messages) :
    ¬InvalidRouting row ∧ ¬m.ProofMismatch row := by
  cases kind : row.message.kind with
  | request =>
    obtain ⟨-, -, -, id, attestation, manifest, intent, hid, found, authorized, made⟩ :=
      storedRequestFact_ok (hs.requests row hr kind)
    constructor
    · simp [InvalidRouting, kind, hid]
    · rintro ⟨id', hid', mismatch⟩
      apply mismatch
      rw [hid] at hid'
      cases hid'
      refine ⟨attestation, (authority_ok.mp found).1, authorized.1, authorized.2.1, kind, ?_⟩
      have subject := authorized.2.2.2.2
      unfold messageForIntent at made
      simp only [bind_eq_ok] at made
      obtain ⟨_, -, made⟩ := made
      rw [subject, ← Except.ok.inj made]
      exact ⟨rfl, rfl, rfl, rfl⟩
  | reply =>
    obtain ⟨request, command, exchanged⟩ := hs.replies row hr kind
    obtain ⟨-, -, sender, hsender, answers, made⟩ := validatedReply_ok exchanged.made
    have recipient := (messageForReply_ok made).2.2.2.2.1
    constructor
    · simp [InvalidRouting, kind, answers, hsender, recipient, exchanged.unattested]
    · rintro ⟨id, hid, -⟩
      rw [exchanged.unattested] at hid
      cases hid

theorem Sound.request_of_discoverable (hs : m.Sound w) {row : MessageRow} (hr : row ∈ m.messages)
    (found : DiscoverableBy row.message actorId) : row.message.kind = .request := by
  cases kind : row.message.kind with
  | request => rfl
  | reply =>
    obtain ⟨request, command, exchanged⟩ := hs.replies row hr kind
    obtain ⟨-, -, sender, -, -, made⟩ := validatedReply_ok exchanged.made
    unfold DiscoverableBy at found
    rw [(messageForReply_ok made).2.2.2.2.1, kind] at found
    cases found

theorem Sound.storedRequestFacts (hs : m.Sound w) {rows : List (MessageRow × ℕ)}
    (within : (rows.map Prod.fst).Sublist m.messages)
    (requests : ∀ x ∈ rows, x.1.message.kind = .request) :
    m.storedRequestFacts w rows = .ok (rows.map (fun x => (x.1.message, x.2))) := by
  have stored : ∀ x ∈ rows, x.1 ∈ m.messages := fun x hx =>
    within.subset (List.mem_map_of_mem hx)
  have attested : ∀ x ∈ rows, ∃ id, x.1.attestationId = some id := by
    intro x hx
    obtain ⟨-, -, -, id, -, -, -, hid, -⟩ :=
      storedRequestFact_ok (hs.requests x.1 (stored x hx) (requests x hx))
    exact ⟨id, hid⟩
  have own : ((rows.map Prod.fst).filterMap MessageRow.attestationId).Nodup :=
    hs.attested.sublist (within.filterMap _)
  have distinct : (rows.map (fun x => x.1.attestationId)).Nodup := by
    have all : rows.map (fun x => x.1.attestationId) =
        ((rows.map Prod.fst).filterMap MessageRow.attestationId).map some := by
      clear own within stored requests
      induction rows with
      | nil => rfl
      | cons x rows ih =>
        obtain ⟨id, hid⟩ := attested x List.mem_cons_self
        have rest := ih fun y hy => attested y (List.mem_cons_of_mem _ hy)
        simp only [List.map_cons, hid, List.filterMap_cons, rest]
    rw [all]
    exact own.map (Option.some_injective _)
  have shape : ∀ x ∈ rows, x.1.Lawful ∧ x.1.message.kind = .request ∧ x.1.attestationId ≠ none := by
    intro x hx
    obtain ⟨id, hid⟩ := attested x hx
    refine ⟨hs.lawful (stored x hx), requests x hx, ?_⟩
    rw [hid]
    exact Option.some_ne_none id
  unfold Mailbox.storedRequestFacts
  rw [require_of shape, ok_bind, require_of distinct, ok_bind]
  apply mapM_eq_map
  intro x hx
  rw [hs.requests x.1 (stored x hx) (requests x hx)]
  rfl

theorem Sound.pageAcks (hs : m.Sound w) {page : List (ChannelMessage × ℕ)} (n : ℕ)
    (stored : ∀ p ∈ page, ∃ q ∈ m.messages, q.message = p.1) :
    m.pageAcks w n page = .ok ((m.acks.take n).filter (fun row =>
      (page.find? (fun p => p.1.messageId = row.ack.messageId)).isSome)) := by
  unfold Mailbox.pageAcks
  rw [foldlM_append (g := Option.guard (fun row =>
    (page.find? (fun p => p.1.messageId = row.ack.messageId)).isSome)), List.nil_append,
    List.filterMap_eq_filter]
  intro acc a ha
  cases hf : page.find? (fun p => p.1.messageId = a.ack.messageId) with
  | none =>
    rw [Option.guard_eq_none_iff.mpr (by simp [hf]), Option.toList_none, List.append_nil]
    rfl
  | some p =>
    have id : p.1.messageId = a.ack.messageId := by simpa using List.find?_some hf
    obtain ⟨q, hq, same⟩ := stored p (List.mem_of_find?_eq_some hf)
    obtain ⟨command, observed⟩ := hs.observed_of (List.mem_of_mem_take ha) hq (by rw [same, id])
    have read := hs.storedAckOf observed
    rw [same] at read
    rw [Option.guard_pos (by simp [hf]), Option.toList_some]
    dsimp only
    rw [read]
    rfl

def cutRows (m : Mailbox) (channelId : Option String) (actorId : ActorId)
    (interactions : Option (List ChannelInteraction)) (messageSeq : ℕ) (after : Option DeliveryKey)
    (limit : ℕ) : List (MessageRow × ℕ) :=
  (((m.messages.take messageSeq).zipIdx 1).filter (fun x =>
    Wanted channelId actorId interactions x.1.message ∧
      Keyset.Beyond after (toLex (x.2, x.1.message.messageId)))).take limit

theorem next_atCut :
    Keyset.next ChannelDelivery.key (m.atCut channelId actorId interactions revision) after limit =
      (m.cutRows channelId actorId interactions revision.messageSeq after limit).map (fun x =>
        deliver actorId ((m.acks.take revision.ackSeq).map AckRow.ack) (x.1.message, x.2)) := by
  unfold atCut
  rw [next_deliveries, List.zipIdx_map, List.filter_map, ← List.map_take, List.map_map]
  rfl

theorem mem_cutRows {x : MessageRow × ℕ} {n : ℕ}
    (h : x ∈ m.cutRows channelId actorId interactions n after limit) :
    x.1 ∈ m.messages ∧ Wanted channelId actorId interactions x.1.message := by
  obtain ⟨row, admitted⟩ := List.mem_filter.mp (List.mem_of_mem_take h)
  exact ⟨List.mem_of_mem_take (List.fst_mem_of_mem_zipIdx row), (of_decide_eq_true admitted).1⟩

theorem cutRows_sublist (n : ℕ) :
    ((m.cutRows channelId actorId interactions n after limit).map Prod.fst).Sublist m.messages := by
  have rows : (m.cutRows channelId actorId interactions n after limit).Sublist
      ((m.messages.take n).zipIdx 1) := (List.take_sublist _ _).trans List.filter_sublist
  have firsts := rows.map Prod.fst
  rw [List.zipIdx_map_fst] at firsts
  exact firsts.trans (List.take_sublist _ _)

theorem Sound.selected (hs' : m'.Sound w) (g : m.Grows m') {n : ℕ} (most : n ≤ m.messages.length) :
    ((numbered m'.messages).filter (fun x => x.2 ≤ n ∧
      (Visible channelId actorId interactions after x ∨ InvalidRouting x.1 ∨
        m'.ProofMismatch x.1))).take limit =
      m.cutRows channelId actorId interactions n after limit := by
  unfold cutRows
  rw [← g.take_messages most, ← filter_zipIdx]
  congr 1
  apply List.filter_congr
  intro x hx
  obtain ⟨valid, matched⟩ := hs'.routed (List.fst_mem_of_mem_zipIdx hx)
  simp only [visible_iff, valid, matched, or_false]

theorem Sound.inboxPage (hs : m.Sound w) (hs' : m'.Sound w) (g : m.Grows m')
    (channelId : Option String) (positive : 0 < limit) :
    m'.inboxPage w channelId actorId (m.cutOf channelId) interactions after limit =
      .ok (Keyset.next ChannelDelivery.key
        (m.atCut channelId actorId interactions (m.cutOf channelId)) after limit) := by
  obtain ⟨mostMessages, mostAcks⟩ := m.cutOf_le channelId
  have held := g.cutOf_mono channelId
  have coherent := hs.coherent hs' g channelId
  rw [next_atCut]
  unfold Mailbox.inboxPage
  rw [require_of positive, ok_bind, hs'.currentRevision, ok_bind, require_of held, ok_bind,
    require_of coherent, ok_bind]
  dsimp only
  rw [hs'.selected g mostMessages]
  generalize hrows : m.cutRows channelId actorId interactions (m.cutOf channelId).messageSeq after
    limit = rows
  have wanted : ∀ x ∈ rows, x.1 ∈ m.messages ∧ Wanted channelId actorId interactions x.1.message :=
    fun x hx => mem_cutRows (hrows ▸ hx)
  have within : (rows.map Prod.fst).Sublist m'.messages := by
    rw [← hrows]
    exact (cutRows_sublist _).trans g.messages.sublist
  have facts := hs'.storedRequestFacts within fun x hx =>
    hs.request_of_discoverable (wanted x hx).1 (wanted x hx).2.2.1
  have stored : ∀ p ∈ rows.map (fun x => (x.1.message, x.2)), ∃ q ∈ m'.messages,
      q.message = p.1 := by
    intro p hp
    obtain ⟨x, hx, rfl⟩ := List.mem_map.mp hp
    exact ⟨x.1, g.messages.mem (wanted x hx).1, rfl⟩
  have discovered : ∀ p ∈ rows.map (fun x => (x.1.message, x.2)), DiscoverableBy p.1 actorId := by
    intro p hp
    obtain ⟨x, hx, rfl⟩ := List.mem_map.mp hp
    exact (wanted x hx).2.2.1
  rw [facts, ok_bind, hs'.pageAcks _ stored, ok_bind, require_of discovered, ok_bind]
  change Except.ok _ = Except.ok _
  congr 1
  rw [List.map_map, g.take_acks mostAcks]
  apply List.map_congr_left
  intro x hx
  unfold deliver
  dsimp only [Function.comp_apply]
  congr 1
  rw [decide_eq_decide, List.map_map]
  simp only [List.mem_map, List.mem_filter, Function.comp_apply]
  constructor
  · rintro ⟨a, ⟨ha, -⟩, key⟩
    exact ⟨a, ha, key⟩
  · rintro ⟨a, ha, key⟩
    refine ⟨a, ⟨ha, ?_⟩, key⟩
    rw [List.find?_isSome]
    refine ⟨(x.1.message, x.2), List.mem_map.mpr ⟨x, hx, rfl⟩, ?_⟩
    exact decide_eq_true (congrArg Prod.fst key).symm

end Mailbox

/-! ## Following the pages -/

/-- Every page read at one of these states is a page of the whole, and following the pages
from state to state reads it whole, once and in order. -/
structure Pages {σ : Type} (read : σ → Option (ℕ ×ₗ String) → Except ChannelError (List ChannelDelivery))
    (limit : ℕ) (states : List σ) (whole : List ChannelDelivery) : Prop where
  increasing : whole.Pairwise (fun a b => a.key < b.key)
  page : ∀ s ∈ states, ∀ after, read s after = .ok (Keyset.next ChannelDelivery.key whole after limit)
  followed : whole.length < states.length →
    Keyset.follow ChannelDelivery.key read limit states none = .ok whole

theorem pages_of {σ : Type}
    {read : σ → Option (ℕ ×ₗ String) → Except ChannelError (List ChannelDelivery)} {limit : ℕ}
    {states : List σ} {whole : List ChannelDelivery}
    (increasing : whole.Pairwise (fun a b => a.key < b.key)) (positive : 0 < limit)
    (page : ∀ s ∈ states, ∀ after,
      read s after = .ok (Keyset.next ChannelDelivery.key whole after limit)) :
    Pages read limit states whole :=
  ⟨increasing, page, fun enough => Keyset.follow_eq increasing positive states enough page⟩

/-- The pages of a cut are exact and stable, in the process, in a channel of the store and
across its channels: the cut is what the store held when its revision was read. -/
theorem inbox_exact :
    (∀ (ids : ChannelIds) (name : String) (maxBatch : ℕ) (ch : InProcessChannel),
      Reaches (InProcessChannel.after ids) (.new name maxBatch) ch →
      ∃ revision, ch.latestRevision = .ok revision ∧ ∀ actorId limit, 0 < limit → limit ≤ maxBatch →
        ∀ states, (∀ s ∈ states, Reaches (InProcessChannel.after ids) ch s) →
          Pages (fun s after => s.inbox ids actorId revision after limit) limit states
            (ch.atCut actorId revision)) ∧
    (∀ (w : MailWire) (maxBatch : ℕ) (m : Mailbox) (channel : String),
      Reaches (Mailbox.step w) .empty m →
      ∃ revision, m.channelRevision channel = .ok revision ∧ ∀ actorId limit, 0 < limit →
        limit ≤ maxBatch → ∀ states, (∀ s ∈ states, Reaches (Mailbox.step w) m s) →
          Pages (fun s after => s.channelInbox w maxBatch channel actorId revision after limit) limit
            states (m.atCut (some channel) actorId none revision)) ∧
    ∀ (w : MailWire) (m : Mailbox), Reaches (Mailbox.step w) .empty m →
      ∃ revision, m.channelActorRevision = .ok revision ∧ ∀ actorId interactions limit, 0 < limit →
        ∀ states, (∀ s ∈ states, Reaches (Mailbox.step w) m s) →
          Pages (fun s after => s.channelActorInbox w actorId revision interactions after limit) limit
            states (m.atCut none actorId (some interactions) revision) := by
  refine ⟨?_, ?_, ?_⟩
  · intro ids name maxBatch ch run
    have h : ch.Intact ids := (InProcessChannel.intact_new ids name maxBatch).run run
    refine ⟨_, h.latestRevision, ?_⟩
    intro actorId limit positive batch states later
    apply pages_of deliveries_increasing positive
    intro s hs after
    have run' := later s hs
    apply h.inbox (h.run run') (h.grows_run run') positive
    rw [InProcessChannel.maxBatch_run run', InProcessChannel.maxBatch_run run]
    exact batch
  · intro w maxBatch m channel run
    have h := Mailbox.reachable_sound run
    refine ⟨_, h.currentRevision (some channel), ?_⟩
    intro actorId limit positive batch states later
    apply pages_of deliveries_increasing positive
    intro s hs after
    obtain ⟨h', g⟩ := h.run (later s hs)
    unfold Mailbox.channelInbox
    rw [require_of batch, ok_bind]
    exact h.inboxPage h' g (some channel) positive
  · intro w m run
    have h := Mailbox.reachable_sound run
    refine ⟨_, h.currentRevision none, ?_⟩
    intro actorId interactions limit positive states later
    apply pages_of deliveries_increasing positive
    intro s hs after
    obtain ⟨h', g⟩ := h.run (later s hs)
    unfold Mailbox.channelActorInbox
    by_cases nothing : interactions = []
    · have empty : m.atCut none actorId (some interactions) (m.cutOf none) = [] := by
        unfold Mailbox.atCut deliveries
        rw [List.map_eq_nil_iff, List.filter_eq_nil_iff]
        intro x _ wanted
        have member := (of_decide_eq_true wanted).2.2 interactions rfl
        rw [nothing] at member
        cases member
      rw [if_pos nothing]
      change Except.ok [] = Except.ok (Keyset.next ChannelDelivery.key
        (m.atCut none actorId (some interactions) (m.cutOf none)) after limit)
      rw [empty]
      simp [Keyset.next]
    · rw [if_neg nothing]
      exact h.inboxPage h' g none positive

/-- The two messages of the advice channel, read by an actor one delivery at a time while the
channel grows; and the request of a store that holds a decision. -/
theorem inbox_exact_advice :
    (∃ revision, ((adviceCalls.take 1).foldl (InProcessChannel.after plainIds)
        (.new "channel" 10)).latestRevision = .ok revision ∧
      Pages (fun s after => InProcessChannel.inbox plainIds s "alice" revision after 1) 1
        [adviceCalls.foldl (InProcessChannel.after plainIds) (.new "channel" 10)]
        (((adviceCalls.take 1).foldl (InProcessChannel.after plainIds)
          (.new "channel" 10)).atCut "alice" revision)) ∧
    (∃ revision, decided.channelRevision "channel" = .ok revision ∧
      Pages (fun s after => s.channelInbox aliceWire 10 "channel" "alice" revision after 1) 1 [decided]
        (decided.atCut (some "channel") "alice" none revision)) ∧
    ∃ revision, decided.channelActorRevision = .ok revision ∧
      Pages (fun s after => s.channelActorInbox aliceWire "alice" revision [.approval] after 1) 1
        [decided] (decided.atCut none "alice" (some [.approval]) revision) := by
  obtain ⟨inProcess, channel, across⟩ := inbox_exact
  refine ⟨?_, ?_, ?_⟩
  · obtain ⟨revision, read, pages⟩ := inProcess plainIds "channel" 10 _ ⟨adviceCalls.take 1, rfl⟩
    refine ⟨revision, read, pages "alice" 1 (by decide) (by decide) _ ?_⟩
    intro s hs
    rw [List.mem_singleton.mp hs]
    exact ⟨adviceCalls.drop 1, rfl⟩
  · obtain ⟨revision, read, pages⟩ := channel aliceWire 10 decided "channel" ⟨decisionCalls, rfl⟩
    refine ⟨revision, read, pages "alice" 1 (by decide) (by decide) _ ?_⟩
    intro s hs
    rw [List.mem_singleton.mp hs]
    exact .refl decided
  · obtain ⟨revision, read, pages⟩ := across aliceWire decided ⟨decisionCalls, rfl⟩
    refine ⟨revision, read, pages "alice" [.approval] 1 (by decide) _ ?_⟩
    intro s hs
    rw [List.mem_singleton.mp hs]
    exact .refl decided

end Constructicon
