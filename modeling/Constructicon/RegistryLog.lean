import Constructicon.Library.Numbered
import Constructicon.RegistryStores

/-!
# The registry as an append-only log

What both stores are for: a list of registrations and a list of promotions that only grow. A
version is filed once under its name and content hash; a promotion is a move from the stable
version of its component, so the moves of a component form one chain. A revision names the
beginnings of the two lists, and what it shows never changes.
-/

namespace Constructicon

open Transaction Numbered

variable {δ : Type}

structure RegistryLog (δ : Type) where
  registrations : List (Registration δ) := []
  promotions : List PromotionRecord := []

/-- The name and content hash a version is filed under. -/
def DefinitionCodec.key (codec : DefinitionCodec δ) (v : Registration δ) : String × Digest :=
  (codec.name v.definition, v.contentHash)

/-- Each promotion starts where the one before it ended. -/
def Linked : Option Digest → List PromotionRecord → Prop
  | _, [] => True
  | start, r :: rest => r.fromVersion = start ∧ Linked (some r.toVersion) rest

def ending (moves : List PromotionRecord) : Option Digest := moves.getLast?.map PromotionRecord.toVersion

@[simp] theorem ending_append_singleton (moves : List PromotionRecord) (r : PromotionRecord) :
    ending (moves ++ [r]) = some r.toVersion := by
  simp [ending]

theorem linked_append_singleton {start : Option Digest} {moves : List PromotionRecord} {r : PromotionRecord} :
    Linked start (moves ++ [r]) ↔
      Linked start moves ∧ r.fromVersion = if moves = [] then start else ending moves := by
  induction moves generalizing start with
  | nil => simp [Linked]
  | cons m moves ih =>
    rw [List.cons_append, Linked, Linked, ih, if_neg (List.cons_ne_nil m moves), and_assoc]
    by_cases last : moves = []
    · simp [last, ending]
    · have same : ending (m :: moves) = ending moves := by
        rw [ending, ending, List.getLast?_cons_of_ne_nil last]
      rw [if_neg last, same]

/-- The later cut shows all that the earlier one shows, where it shows it. -/
structure RegistryCut.Extends (later earlier : RegistryCut δ) : Prop where
  versions : ∀ name contentHash v, (earlier.versions.getD name .empty).get? contentHash = some v →
    (later.versions.getD name .empty).get? contentHash = some v
  order : ∀ name, earlier.order.getD name [] <+: later.order.getD name []
  history : ∀ name, earlier.history.getD name [] <+: later.history.getD name []

namespace RegistryLog

variable (codec : DefinitionCodec δ) (log : RegistryLog δ)

/-- The registrations with what they are filed under. -/
def filed (registrations : List (Registration δ)) : List (String × Digest × Registration δ) :=
  registrations.map fun v => (codec.name v.definition, v.contentHash, v)

def version (name : String) (contentHash : Digest) : Option (Registration δ) :=
  log.registrations.find? (fun v => codec.key v = (name, contentHash))

def moves (component : String) : List PromotionRecord :=
  log.promotions.filter (fun r => r.component = component)

def stableVersion (component : String) : Option Digest := ending (log.moves component)

def promotionFor (attestationId : String) : Option PromotionRecord :=
  log.promotions.find? (fun r => r.attestationId = attestationId)

def revision : RegistryRevision := ⟨log.registrations.length, log.promotions.length⟩

def cut (revision : RegistryRevision) (incoherence : RegistryFault) : Except RegistryFault (RegistryCut δ) := do
  let read := (filed codec (log.registrations.take revision.registrationSeq)).foldl readVersion
    (.empty, .empty)
  let moves ← (log.promotions.take revision.promotionSeq).foldlM (readPromotion read.1 incoherence)
    (.empty, .empty)
  pure ⟨revision, read.1, read.2, moves.1, moves.2⟩

def snapshot (revision : Option RegistryRevision) (incoherence : RegistryFault) :
    Except RegistryFault (RegistryCut δ) := do
  let selected ← selectRevision log.revision revision
  log.cut codec selected incoherence

def storeVersion (v : Registration δ) : Option (RegistryLog δ) :=
  match log.version codec (codec.name v.definition) v.contentHash with
  | some existing => if codec.SameDefinition existing.definition v.definition then some log else none
  | none => some { log with registrations := log.registrations ++ [v] }

def storePromotion (record : PromotionRecord) : Option (PromotionRecord × RegistryLog δ) :=
  if record.channel ≠ "stable" then none
  else match log.promotionFor record.attestationId with
    | some prior => if prior.SameIdentityAs record then some (prior, log) else none
    | none =>
      if log.stableVersion record.component = record.fromVersion ∧
          (log.version codec record.component record.toVersion).isSome then
        some (record, { log with promotions := log.promotions ++ [record] })
      else none

structure Coherent : Prop where
  filed_once : (log.registrations.map codec.key).Nodup
  used_once : (log.promotions.map PromotionRecord.attestationId).Nodup
  stable : ∀ r ∈ log.promotions, r.channel = "stable"
  linked : ∀ component, Linked none (log.moves component)
  retained : ∀ r ∈ log.promotions, (log.version codec r.component r.toVersion).isSome ∧
    ∀ before ∈ r.fromVersion, (log.version codec r.component before).isSome

variable {codec log}

theorem version_eq_some {name : String} {contentHash : Digest} {v : Registration δ}
    (h : log.version codec name contentHash = some v) :
    v ∈ log.registrations ∧ codec.name v.definition = name ∧ v.contentHash = contentHash := by
  unfold version at h
  have found := List.find?_some h
  have same := Prod.mk.inj (of_decide_eq_true found)
  exact ⟨List.mem_of_find?_eq_some h, same.1, same.2⟩

theorem version_of_mem (once : (log.registrations.map codec.key).Nodup) {v : Registration δ}
    (h : v ∈ log.registrations) : log.version codec (codec.name v.definition) v.contentHash = some v :=
  Dict.find?_same once h

theorem version_eq_none {name : String} {contentHash : Digest} :
    log.version codec name contentHash = none ↔ ∀ v ∈ log.registrations, codec.key v ≠ (name, contentHash) := by
  rw [version, List.find?_eq_none]
  simp

theorem version_grows {name : String} {contentHash : Digest} {v w : Registration δ}
    (h : log.version codec name contentHash = some v) :
    ({ log with registrations := log.registrations ++ [w] } : RegistryLog δ).version codec name contentHash =
      some v := by
  unfold version at h ⊢
  rw [List.find?_append, h]
  rfl

theorem moves_append (r : PromotionRecord) (component : String) :
    ({ log with promotions := log.promotions ++ [r] } : RegistryLog δ).moves component =
      log.moves component ++ if r.component = component then [r] else [] := by
  unfold moves
  rw [List.filter_append, List.filter_singleton]
  by_cases same : r.component = component <;> simp [same]

theorem storeVersion_eq_some {v : Registration δ} {log' : RegistryLog δ}
    (h : log.storeVersion codec v = some log') :
    log' = log ∨ log' = { log with registrations := log.registrations ++ [v] } ∧
      log.version codec (codec.name v.definition) v.contentHash = none := by
  unfold storeVersion at h
  split at h
  · split_ifs at h
    exact .inl (Option.some.inj h).symm
  · rename_i missing
    exact .inr ⟨(Option.some.inj h).symm, missing⟩

theorem storePromotion_eq_some {record stored : PromotionRecord} {log' : RegistryLog δ}
    (h : log.storePromotion codec record = some (stored, log')) :
    (log' = log ∧ log.promotionFor record.attestationId = some stored ∧ stored.SameIdentityAs record) ∨
      (log' = { log with promotions := log.promotions ++ [record] } ∧ stored = record ∧
        record.channel = "stable" ∧ log.promotionFor record.attestationId = none ∧
        log.stableVersion record.component = record.fromVersion ∧
        (log.version codec record.component record.toVersion).isSome) := by
  unfold storePromotion at h
  by_cases channel : record.channel = "stable"
  · rw [if_neg (not_not.mpr channel)] at h
    cases prior : log.promotionFor record.attestationId with
    | some r =>
      simp only [prior] at h
      split_ifs at h with same
      cases h
      exact .inl ⟨rfl, rfl, same⟩
    | none =>
      simp only [prior] at h
      split_ifs at h with moved
      cases h
      exact .inr ⟨rfl, rfl, channel, rfl, moved.1, moved.2⟩
  · rw [if_pos channel] at h
    exact absurd h (by simp)

theorem Coherent.empty : ({} : RegistryLog δ).Coherent codec where
  filed_once := List.nodup_nil
  used_once := List.nodup_nil
  stable _ mem := absurd mem List.not_mem_nil
  linked _ := trivial
  retained _ mem := absurd mem List.not_mem_nil

theorem Coherent.storeVersion {v : Registration δ} {log' : RegistryLog δ} (h : log.Coherent codec)
    (stored : log.storeVersion codec v = some log') : log'.Coherent codec := by
  rcases storeVersion_eq_some stored with rfl | ⟨rfl, new⟩
  · exact h
  · have kept : ∀ name contentHash, (log.version codec name contentHash).isSome →
        (({ log with registrations := log.registrations ++ [v] } : RegistryLog δ).version codec name
          contentHash).isSome := by
      intro name contentHash some
      obtain ⟨w, found⟩ := Option.isSome_iff_exists.mp some
      rw [version_grows found]
      rfl
    constructor
    · exact Dict.nodup_map_append h.filed_once (version_eq_none.mp new)
    · exact h.used_once
    · exact h.stable
    · exact h.linked
    · intro r mem
      obtain ⟨target, before⟩ := h.retained r mem
      exact ⟨kept _ _ target, fun b hb => kept _ _ (before b hb)⟩

theorem Coherent.stable_retained (h : log.Coherent codec) {component : String} {b : Digest}
    (current : log.stableVersion component = some b) : (log.version codec component b).isSome := by
  obtain ⟨last, found, rfl⟩ := Option.map_eq_some_iff.mp current
  obtain ⟨inside, same⟩ := List.mem_filter.mp (List.mem_of_getLast? found)
  rw [← of_decide_eq_true same]
  exact (h.retained last inside).1

theorem Coherent.storePromotion {record stored : PromotionRecord} {log' : RegistryLog δ} (h : log.Coherent codec)
    (moved : log.storePromotion codec record = some (stored, log')) : log'.Coherent codec := by
  rcases storePromotion_eq_some moved with ⟨rfl, -⟩ | ⟨rfl, rfl, channel, unused, current, target⟩
  · exact h
  · have before : ∀ b ∈ stored.fromVersion, (log.version codec stored.component b).isSome := by
      intro b hb
      rw [← current] at hb
      exact h.stable_retained hb
    constructor
    · exact h.filed_once
    · refine Dict.nodup_map_append h.used_once fun r mem => ?_
      have none := List.find?_eq_none.mp unused r mem
      exact fun same => none (decide_eq_true same)
    · intro r mem
      rcases List.mem_append.mp mem with old | new
      · exact h.stable r old
      · rw [List.mem_singleton.mp new]
        exact channel
    · intro component
      rw [moves_append]
      split_ifs with same
      · rw [linked_append_singleton]
        refine ⟨h.linked component, ?_⟩
        rw [← current, RegistryLog.stableVersion, same]
        split_ifs with first
        · rw [first]
          rfl
        · rfl
      · rw [List.append_nil]
        exact h.linked component
    · intro r mem
      rcases List.mem_append.mp mem with old | new
      · exact h.retained r old
      · rw [List.mem_singleton.mp new]
        exact ⟨target, before⟩

/-! ## Cuts -/

section

variable {versions : Dict String (Dict Digest (Registration δ))} {incoherence : RegistryFault}
  {rs : List PromotionRecord} {moves : Dict String Digest × Dict String (List (Option Digest × Digest))}

def movesOf (rs : List PromotionRecord) (component : String) : List PromotionRecord :=
  rs.filter (fun r => r.component = component)

def pairs (rs : List PromotionRecord) : List (String × Option Digest × Digest) :=
  rs.map fun r => (r.component, r.fromVersion, r.toVersion)

theorem readPromotion_eq_ok {read read' : Dict String Digest × Dict String (List (Option Digest × Digest))}
    {r : PromotionRecord} (h : readPromotion versions incoherence read r = .ok read') :
    read'.1 = read.1.insert r.component r.toVersion ∧
      read'.2 = Dict.file (fun pairs pair => pairs ++ [pair]) [] read.2
        (r.component, r.fromVersion, r.toVersion) ∧
      ((versions.getD r.component .empty).contains r.toVersion ∧
        ∀ before ∈ r.fromVersion, (versions.getD r.component .empty).contains before) ∧
      read.1.get? r.component = r.fromVersion := by
  unfold readPromotion at h
  simp only [bind_eq_ok, require_eq_ok, exists_const] at h
  obtain ⟨retained, current, same⟩ := h
  cases same
  exact ⟨rfl, rfl, retained, current⟩

theorem movesOf_append (r : PromotionRecord) (component : String) :
    movesOf (rs ++ [r]) component = movesOf rs component ++ if r.component = component then [r] else [] := by
  unfold movesOf
  rw [List.filter_append, List.filter_singleton]
  by_cases same : r.component = component <;> simp [same]

theorem readPromotions_ok
    (h : rs.foldlM (readPromotion versions incoherence) (.empty, .empty) = .ok moves) :
    (∀ component, moves.1.get? component = ending (movesOf rs component)) ∧
      moves.2 = Dict.collect (fun pairs pair => pairs ++ [pair]) [] (pairs rs) := by
  induction rs using List.reverseRecOn generalizing moves with
  | nil =>
    cases h
    exact ⟨fun component => rfl, rfl⟩
  | append_singleton rs r ih =>
    rw [List.foldlM_append, bind_eq_ok] at h
    obtain ⟨read, before, last⟩ := h
    rw [List.foldlM_cons, bind_eq_ok] at last
    obtain ⟨read', last, same⟩ := last
    cases same
    obtain ⟨stable, history⟩ := ih before
    obtain ⟨moved, filed, -, -⟩ := readPromotion_eq_ok last
    constructor
    · intro component
      rw [moved, Dict.get?_insert, movesOf_append]
      split_ifs with same
      · rw [ending_append_singleton]
      · rw [List.append_nil]
        exact stable component
    · have split : pairs (rs ++ [r]) = pairs rs ++ [(r.component, r.fromVersion, r.toVersion)] := by
        simp [pairs]
      rw [filed, history, split, Dict.collect_append_singleton]

theorem readPromotions_pass
    (retained : ∀ r ∈ rs, (versions.getD r.component .empty).contains r.toVersion ∧
      ∀ before ∈ r.fromVersion, (versions.getD r.component .empty).contains before)
    (linked : ∀ component, Linked none (movesOf rs component)) :
    ∃ moves, rs.foldlM (readPromotion versions incoherence) (.empty, .empty) = .ok moves := by
  induction rs using List.reverseRecOn with
  | nil => exact ⟨_, rfl⟩
  | append_singleton rs r ih =>
    have chain := linked r.component
    rw [movesOf_append, if_pos rfl, linked_append_singleton] at chain
    have earlier : ∀ component, Linked none (movesOf rs component) := by
      intro component
      have whole := linked component
      rw [movesOf_append] at whole
      split_ifs at whole
      · exact (linked_append_singleton.mp whole).1
      · rw [List.append_nil] at whole
        exact whole
    obtain ⟨read, before⟩ := ih (fun r' mem => retained r' (List.mem_append_left _ mem)) earlier
    obtain ⟨stable, -⟩ := readPromotions_ok before
    have current : read.1.get? r.component = r.fromVersion := by
      rw [stable, chain.2]
      split_ifs with first
      · rw [first]
        rfl
      · rfl
    have here := retained r (List.mem_append_right _ (List.mem_singleton_self r))
    have passed : ∃ moves, readPromotion versions incoherence read r = .ok moves := by
      unfold readPromotion
      dsimp only
      rw [require_of here, ok_bind, require_of current]
      exact ⟨_, rfl⟩
    obtain ⟨moves, last⟩ := passed
    refine ⟨moves, ?_⟩
    rw [List.foldlM_append, before, ok_bind, List.foldlM_cons, last]
    rfl

theorem readVersions_eq (items : List (String × Digest × Registration δ)) :
    items.foldl readVersion (.empty, .empty) =
      (Dict.collect fileVersion .empty items, Dict.collect fileHash [] items) := by
  induction items using List.reverseRecOn with
  | nil => rfl
  | append_singleton items item ih =>
    rw [List.foldl_append, ih, Dict.collect_append_singleton, Dict.collect_append_singleton]
    rfl

theorem foldl_fileHash (items : List (Digest × Registration δ)) (hashes : List Digest) :
    items.foldl fileHash hashes = hashes ++ items.map Prod.fst := by
  induction items generalizing hashes with
  | nil => rw [List.map_nil, List.append_nil, List.foldl_nil]
  | cons item items ih =>
    rw [List.foldl_cons, ih, fileHash, List.append_assoc, List.map_cons, List.singleton_append]

end

section

variable {codec : DefinitionCodec δ} {registrations : List (Registration δ)}

theorem mem_itemsOf_filed {name : String} {item : Digest × Registration δ} :
    item ∈ Dict.itemsOf (filed codec registrations) name ↔
      item.2 ∈ registrations ∧ codec.key item.2 = (name, item.1) := by
  obtain ⟨contentHash, v⟩ := item
  unfold Dict.itemsOf filed
  rw [List.mem_map]
  constructor
  · rintro ⟨⟨name', contentHash', w⟩, mem, same⟩
    cases same
    obtain ⟨inside, named⟩ := List.mem_filter.mp mem
    obtain ⟨w, retained, same⟩ := List.mem_map.mp inside
    cases same
    exact ⟨retained, Prod.ext (of_decide_eq_true named) rfl⟩
  · rintro ⟨mem, key⟩
    obtain ⟨named, hashed⟩ := Prod.mk.inj key
    refine ⟨(name, contentHash, v), List.mem_filter.mpr ⟨?_, decide_eq_true rfl⟩, rfl⟩
    exact List.mem_map.mpr ⟨v, mem, by rw [named, hashed]⟩

theorem nodup_itemsOf_filed (once : (registrations.map codec.key).Nodup) (name : String) :
    ((Dict.itemsOf (filed codec registrations) name).map Prod.fst).Nodup := by
  have split : (Dict.itemsOf (filed codec registrations) name).map Prod.fst =
      ((registrations.map codec.key).filter (fun k => k.1 = name)).map Prod.snd := by
    simp [Dict.itemsOf, filed, DefinitionCodec.key, List.filter_map, Function.comp_def]
    rfl
  rw [split]
  refine List.Nodup.map_on ?_ (once.filter _)
  intro k mem k' mem' same
  have named := of_decide_eq_true (List.mem_filter.mp mem).2
  have named' := of_decide_eq_true (List.mem_filter.mp mem').2
  exact Prod.ext (named.trans named'.symm) same

theorem get?_versions (once : (registrations.map codec.key).Nodup) (name : String) (contentHash : Digest) :
    ((Dict.collect fileVersion .empty (filed codec registrations)).getD name .empty).get? contentHash =
      registrations.find? (fun v => codec.key v = (name, contentHash)) := by
  have row : (Dict.collect fileVersion .empty (filed codec registrations)).getD name .empty =
      Dict.ofList (Dict.itemsOf (filed codec registrations) name) := by
    rw [Dict.getD, Dict.get?_collect]
    split_ifs with known
    · rfl
    · rw [Dict.itemsOf_eq_nil.mpr known]
      rfl
  have entries := Dict.ofList_entries (nodup_itemsOf_filed once name)
  have nodup := Dict.nodup_ofList (Dict.itemsOf (filed codec registrations) name)
  rw [row]
  cases found : registrations.find? (fun v => codec.key v = (name, contentHash)) with
  | some v =>
    have key := List.find?_some found
    refine Dict.get?_of_mem nodup ?_
    rw [entries]
    exact mem_itemsOf_filed.mpr ⟨List.mem_of_find?_eq_some found, of_decide_eq_true key⟩
  | none =>
    by_contra some
    obtain ⟨v, got⟩ := Option.ne_none_iff_exists'.mp some
    have mem := Dict.mem_of_get? got
    rw [entries] at mem
    obtain ⟨inside, key⟩ := mem_itemsOf_filed.mp mem
    exact List.find?_eq_none.mp found v inside (decide_eq_true key)

theorem getD_order (name : String) :
    (Dict.collect fileHash [] (filed codec registrations)).getD name [] =
      (Dict.itemsOf (filed codec registrations) name).map Prod.fst := by
  rw [Dict.getD, Dict.get?_collect]
  split_ifs with known
  · rw [foldl_fileHash, List.nil_append]
    rfl
  · rw [Dict.itemsOf_eq_nil.mpr known]
    rfl

end

/-! ## What later calls leave alone -/

section

variable {codec : DefinitionCodec δ} {log log' : RegistryLog δ} {revision revision' : RegistryRevision}
  {incoherence incoherence' : RegistryFault} {shown shown' : RegistryCut δ}

/-- The first `n` registrations, as they are read. -/
def filedUpto (codec : DefinitionCodec δ) (log : RegistryLog δ) (n : ℕ) :
    List (String × Digest × Registration δ) :=
  filed codec (log.registrations.take n)

theorem filed_split (n : ℕ) :
    filed codec log.registrations = filedUpto codec log n ++ filed codec (log.registrations.drop n) := by
  unfold filedUpto filed
  rw [← List.map_append, List.take_append_drop]

theorem cut_ok (h : log.cut codec revision incoherence = .ok shown) :
    shown.revision = revision ∧
      shown.versions = Dict.collect fileVersion .empty (filedUpto codec log revision.registrationSeq) ∧
      shown.order = Dict.collect fileHash [] (filedUpto codec log revision.registrationSeq) ∧
      (∀ component, shown.stable.get? component =
        ending (movesOf (log.promotions.take revision.promotionSeq) component)) ∧
      shown.history = Dict.collect (fun pairs pair => pairs ++ [pair]) []
        (pairs (log.promotions.take revision.promotionSeq)) := by
  unfold RegistryLog.cut at h
  rw [readVersions_eq, bind_eq_ok] at h
  obtain ⟨moves, read, same⟩ := h
  cases same
  obtain ⟨stable, history⟩ := readPromotions_ok read
  exact ⟨rfl, rfl, rfl, stable, history⟩

theorem cut_eq_of_take (registrations : log.registrations.take revision.registrationSeq =
      log'.registrations.take revision.registrationSeq)
    (promotions : log.promotions.take revision.promotionSeq = log'.promotions.take revision.promotionSeq) :
    log.cut codec revision incoherence = log'.cut codec revision incoherence := by
  unfold RegistryLog.cut
  rw [registrations, promotions]

theorem snapshot_of_le {revision : Option RegistryRevision}
    (h : (revision.getD log.revision).registrationSeq ≤ log.revision.registrationSeq ∧
      (revision.getD log.revision).promotionSeq ≤ log.revision.promotionSeq) :
    log.snapshot codec revision incoherence = log.cut codec (revision.getD log.revision) incoherence := by
  unfold RegistryLog.snapshot selectRevision
  dsimp only
  rw [require_of h]
  rfl

/-- The log `log'` has come from `log` by calls. -/
structure Grown (log log' : RegistryLog δ) : Prop where
  registrations : log.registrations <+: log'.registrations
  promotions : log.promotions <+: log'.promotions

theorem Grown.refl (log : RegistryLog δ) : Grown log log := ⟨List.prefix_rfl, List.prefix_rfl⟩

theorem Grown.trans {log'' : RegistryLog δ} (h : Grown log log') (h' : Grown log' log'') : Grown log log'' :=
  ⟨h.registrations.trans h'.registrations, h.promotions.trans h'.promotions⟩

theorem Grown.cut (grown : Grown log log') (registered : revision.registrationSeq ≤ log.registrations.length)
    (promoted : revision.promotionSeq ≤ log.promotions.length) :
    log'.cut codec revision incoherence = log.cut codec revision incoherence := by
  obtain ⟨more, registrations⟩ := grown.registrations
  obtain ⟨moves, promotions⟩ := grown.promotions
  apply cut_eq_of_take
  · rw [← registrations, List.take_append_of_le_length registered]
  · rw [← promotions, List.take_append_of_le_length promoted]

theorem take_prefix_take {α : Type} (l : List α) {m n : ℕ} (h : m ≤ n) : l.take m <+: l.take n := by
  have split : l.take m = (l.take n).take m := by rw [List.take_take, Nat.min_eq_left h]
  rw [split]
  exact List.take_prefix _ _

theorem getD_history (rs : List PromotionRecord) (name : String) :
    (Dict.collect (fun pairs pair => pairs ++ [pair]) [] (pairs rs)).getD name [] =
      Dict.itemsOf (pairs rs) name := by
  have fold : ∀ (items start : List (Option Digest × Digest)),
      items.foldl (fun pairs pair => pairs ++ [pair]) start = start ++ items := by
    intro items
    induction items with
    | nil => intro start; rw [List.foldl_nil, List.append_nil]
    | cons item items ih =>
      intro start
      rw [List.foldl_cons, ih, List.append_assoc, List.singleton_append]
  rw [Dict.getD, Dict.get?_collect]
  split_ifs with known
  · rw [fold, List.nil_append]
    rfl
  · rw [Dict.itemsOf_eq_nil.mpr known]
    rfl

theorem Coherent.extends (h : log.Coherent codec) (registered : revision.registrationSeq ≤ revision'.registrationSeq)
    (promoted : revision.promotionSeq ≤ revision'.promotionSeq)
    (earlier : log.cut codec revision incoherence = .ok shown)
    (later : log.cut codec revision' incoherence' = .ok shown') : shown'.Extends shown := by
  obtain ⟨-, versions, order, -, history⟩ := cut_ok earlier
  obtain ⟨-, versions', order', -, history'⟩ := cut_ok later
  obtain ⟨more, registrations⟩ := take_prefix_take log.registrations registered
  obtain ⟨moves, promotions⟩ := take_prefix_take log.promotions promoted
  have once : ∀ n, ((log.registrations.take n).map codec.key).Nodup := by
    intro n
    rw [List.map_take]
    exact h.filed_once.take
  constructor
  · intro name contentHash v found
    rw [versions, filedUpto, get?_versions (once _)] at found
    rw [versions', filedUpto, get?_versions (once _), ← registrations, List.find?_append, found]
    rfl
  · intro name
    rw [order, order', filedUpto, filedUpto, getD_order, getD_order, ← registrations, filed, filed,
      List.map_append, Dict.itemsOf_append, List.map_append]
    exact List.prefix_append _ _
  · intro name
    rw [history, history', getD_history, getD_history, ← promotions, pairs, pairs, List.map_append,
      Dict.itemsOf_append]
    exact List.prefix_append _ _

theorem Coherent.current (h : log.Coherent codec) : ∃ cut, log.snapshot codec none incoherence = .ok cut := by
  have passed : ∃ moves, log.promotions.foldlM
      (readPromotion (Dict.collect fileVersion .empty (filed codec log.registrations)) incoherence)
      (.empty, .empty) = .ok moves := by
    apply readPromotions_pass
    · intro r mem
      obtain ⟨target, before⟩ := h.retained r mem
      have shown : ∀ contentHash, (log.version codec r.component contentHash).isSome →
          ((Dict.collect fileVersion .empty (filed codec log.registrations)).getD r.component .empty).contains
            contentHash := by
        intro contentHash some
        rw [Dict.contains, get?_versions h.filed_once]
        exact some
      exact ⟨shown _ target, fun b hb => shown _ (before b hb)⟩
    · exact h.linked
  obtain ⟨moves, read⟩ := passed
  have latest : log.snapshot codec none incoherence = log.cut codec log.revision incoherence :=
    snapshot_of_le ⟨le_refl _, le_refl _⟩
  have whole : log.cut codec log.revision incoherence =
      .ok ⟨log.revision, Dict.collect fileVersion .empty (filed codec log.registrations),
        Dict.collect fileHash [] (filed codec log.registrations), moves.1, moves.2⟩ := by
    unfold RegistryLog.cut
    rw [readVersions_eq]
    dsimp only [RegistryLog.revision]
    rw [List.take_length, List.take_length, read]
    rfl
  exact ⟨_, latest.trans whole⟩

end

end RegistryLog

end Constructicon
