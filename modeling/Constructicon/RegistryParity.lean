import Constructicon.RegistryLog

/-!
# The two stores are one registry

Each store holds a log. The in-memory store accepts exactly what the log accepts; the durable
store accepts of it what reads back from its rows and, for a new promotion, what a minted
attestation authorizes. On such calls the two answer alike.
-/

namespace Constructicon

open Transaction Numbered

variable {δ : Type}

/-! ## Calls -/

/-- A call of a store, or a minting of the journal between calls. -/
inductive RegistryCall (δ : Type) where
  | version (v : Registration δ)
  | promotion (record : PromotionRecord)
  | snapshot (revision : Option RegistryRevision)
  | mint (attestation : Attestation)

inductive RegistryAnswer (δ : Type) where
  | done
  | moved (record : PromotionRecord)
  | shown (cut : RegistryCut δ)

def MemoryRegistry.call (codec : DefinitionCodec δ) (m : MemoryRegistry δ) :
    RegistryCall δ → Except RegistryFault (RegistryAnswer δ × MemoryRegistry δ)
  | .version v => (m.storeVersion codec v).map fun m' => (.done, m')
  | .promotion record => (m.storePromotion record).map fun r => (.moved r.1, r.2)
  | .snapshot revision => (m.snapshot revision).map fun cut => (.shown cut, m)
  | .mint _ => .ok (.done, m)

def SqliteRegistry.call [DecidableEq δ] (codec : DefinitionCodec δ) (s : SqliteRegistry) :
    RegistryCall δ → Except RegistryFault (RegistryAnswer δ × SqliteRegistry)
  | .version v => (s.storeVersion codec v).map fun s' => (.done, s')
  | .promotion record => (s.storePromotion codec record).map fun r => (.moved r.1, r.2)
  | .snapshot revision => (s.snapshot codec revision).map fun cut => (.shown cut, s)
  | .mint a => .ok (.done, { s with attestations := s.attestations.setDefault a.attestationId a })

def RegistryLog.call (codec : DefinitionCodec δ) (log : RegistryLog δ) :
    RegistryCall δ → Option (RegistryAnswer δ × RegistryLog δ)
  | .version v => (log.storeVersion codec v).map fun log' => (.done, log')
  | .promotion record => (log.storePromotion codec record).map fun r => (.moved r.1, r.2)
  | .snapshot revision =>
    (log.snapshot codec revision .invalidRegistryRevision).toOption.map fun cut => (.shown cut, log)
  | .mint _ => some (.done, log)

namespace RegistryLog

variable {codec : DefinitionCodec δ} {log log' : RegistryLog δ} {a : RegistryAnswer δ} {c : RegistryCall δ}

theorem Grown.call (called : log.call codec c = some (a, log')) : Grown log log' := by
  cases c with
  | version v =>
    obtain ⟨next, stored, same⟩ := Option.map_eq_some_iff.mp called
    cases same
    rcases storeVersion_eq_some stored with rfl | ⟨rfl, -⟩
    · exact .refl _
    · exact ⟨List.prefix_append _ _, List.prefix_rfl⟩
  | promotion record =>
    obtain ⟨⟨r, next⟩, moved, same⟩ := Option.map_eq_some_iff.mp called
    cases same
    rcases storePromotion_eq_some moved with ⟨rfl, -⟩ | ⟨rfl, -⟩
    · exact .refl _
    · exact ⟨List.prefix_rfl, List.prefix_append _ _⟩
  | snapshot revision =>
    obtain ⟨cut, -, same⟩ := Option.map_eq_some_iff.mp called
    cases same
    exact .refl _
  | mint attestation =>
    cases called
    exact .refl _

theorem cut_toOption (revision : RegistryRevision) (e e' : RegistryFault) :
    (log.cut codec revision e).toOption = (log.cut codec revision e').toOption := by
  have rounds : ∀ versions read r, (readPromotion (δ := δ) versions e read r).toOption =
      (readPromotion versions e' read r).toOption := by
    intro versions read r
    unfold readPromotion
    dsimp only
    by_cases retained : (versions.getD r.component Dict.empty).contains r.toVersion ∧
        ∀ before ∈ r.fromVersion, (versions.getD r.component Dict.empty).contains before
    · rw [require_of retained, require_of retained, ok_bind, ok_bind]
      by_cases current : read.1.get? r.component = r.fromVersion
      · rw [require_of current, require_of current]
      · rw [require_of_not current, require_of_not current]
        rfl
    · rw [require_of_not retained, require_of_not retained]
      rfl
  unfold RegistryLog.cut
  exact bind_toOption (foldlM_toOption (rounds _) _ _)

theorem snapshot_toOption (revision : Option RegistryRevision) (e e' : RegistryFault) :
    (log.snapshot codec revision e).toOption = (log.snapshot codec revision e').toOption := by
  unfold RegistryLog.snapshot
  cases selectRevision log.revision revision with
  | error fault => rfl
  | ok selected => exact cut_toOption selected e e'

theorem toOption_eq_some {ε α : Type} {x : Except ε α} {a : α} : x.toOption = some a ↔ x = .ok a := by
  cases x <;> simp [Except.toOption]

theorem snapshot_ok {revision : Option RegistryRevision} {e : RegistryFault} {shown : RegistryCut δ}
    (h : log.snapshot codec revision e = .ok shown) :
    shown.revision = revision.getD log.revision ∧
      shown.revision.registrationSeq ≤ log.registrations.length ∧
        shown.revision.promotionSeq ≤ log.promotions.length ∧
          log.cut codec shown.revision e = .ok shown := by
  unfold RegistryLog.snapshot selectRevision at h
  simp only [bind_eq_ok, require_eq_ok, exists_const] at h
  obtain ⟨selected, ⟨within, same⟩, cut⟩ := h
  cases same
  have own := (cut_ok cut).1
  rw [own]
  exact ⟨rfl, within.1, within.2, cut⟩

end RegistryLog

/-! ## The in-memory store -/

namespace MemoryRegistry

structure Holds (codec : DefinitionCodec δ) (m : MemoryRegistry δ) (log : RegistryLog δ) : Prop where
  coherent : log.Coherent codec
  order : m.order = Dict.collect fileHash [] (RegistryLog.filed codec log.registrations)
  version : ∀ name contentHash, m.version name contentHash = log.version codec name contentHash
  numbers : ∀ n v, (n, v) ∈ numbered log.registrations → m.versionSeq.get? (codec.key v) = some n
  promotions : m.promotions = numbered log.promotions
  registrationSeq : m.registrationSeq = log.registrations.length
  promotionSeq : m.promotionSeq = log.promotions.length

variable {codec : DefinitionCodec δ} {m : MemoryRegistry δ} {log : RegistryLog δ}

theorem Holds.empty : Holds codec ({} : MemoryRegistry δ) {} where
  coherent := .empty
  order := rfl
  version _ _ := rfl
  numbers _ _ mem := absurd mem List.not_mem_nil
  promotions := rfl
  registrationSeq := rfl
  promotionSeq := rfl

theorem mem_of_numbered {l : List (Registration δ)} {v : Registration δ} (h : v ∈ l) : ∃ n, (n, v) ∈ numbered l := by
  rw [← map_snd_numbered l] at h
  obtain ⟨⟨n, w⟩, mem, rfl⟩ := List.mem_map.mp h
  exact ⟨n, mem⟩

/-- A version of the first `n` has a number up to `n`, and no other has. -/
theorem Holds.number_le (h : Holds codec m log) (n : ℕ) {v : Registration δ} (mem : v ∈ log.registrations) :
    m.versionSeq.getD (codec.key v) 0 ≤ n ↔ v ∈ log.registrations.take n := by
  obtain ⟨k, found⟩ := mem_of_numbered mem
  rw [Dict.getD, h.numbers k v found, Option.getD_some]
  constructor
  · intro within
    have kept : (k, v) ∈ (numbered log.registrations).filter (fun p => p.1 ≤ n) :=
      List.mem_filter.mpr ⟨found, decide_eq_true within⟩
    rw [filter_numbered] at kept
    rw [← map_snd_numbered (log.registrations.take n)]
    exact List.mem_map_of_mem kept
  · intro early
    obtain ⟨k', found'⟩ := mem_of_numbered early
    rw [← filter_numbered] at found'
    obtain ⟨whole, within⟩ := List.mem_filter.mp found'
    have same := Option.some.inj ((h.numbers k v found).symm.trans (h.numbers k' v whole))
    rw [same]
    exact of_decide_eq_true within

theorem Holds.row (h : Holds codec m log) (n : ℕ) (name : String) :
    (((Dict.itemsOf (RegistryLog.filed codec log.registrations) name).map Prod.fst).filter
      (fun key => m.versionSeq.getD (name, key) 0 ≤ n)).filterMap
        (fun key => (m.version name key).map fun v => (name, key, v)) =
      (Dict.itemsOf (RegistryLog.filedUpto codec log n) name).map (Prod.mk name) := by
  have apart : ∀ v ∈ log.registrations.drop n, v ∉ log.registrations.take n := by
    intro v late early
    have once := h.coherent.filed_once.of_map
    rw [← List.take_append_drop n log.registrations] at once
    exact (List.nodup_append.mp once).2.2 v early v late rfl
  have before : ∀ item ∈ Dict.itemsOf (RegistryLog.filedUpto codec log n) name,
      m.versionSeq.getD (name, item.1) 0 ≤ n ∧ m.version name item.1 = some item.2 := by
    intro item mem
    obtain ⟨early, key⟩ := RegistryLog.mem_itemsOf_filed.mp mem
    have retained := List.mem_of_mem_take early
    rw [← key]
    refine ⟨(h.number_le n retained).mpr early, ?_⟩
    have found := RegistryLog.version_of_mem h.coherent.filed_once retained
    obtain ⟨named, hashed⟩ := Prod.mk.inj key
    rw [h.version, ← named, ← hashed]
    exact found
  have beyond : ∀ item ∈ Dict.itemsOf (RegistryLog.filed codec (log.registrations.drop n)) name,
      ¬ m.versionSeq.getD (name, item.1) 0 ≤ n := by
    intro item mem
    obtain ⟨late, key⟩ := RegistryLog.mem_itemsOf_filed.mp mem
    rw [← key, h.number_le n (List.mem_of_mem_drop late)]
    exact apart _ late
  rw [RegistryLog.filed_split n, Dict.itemsOf_append, List.map_append, List.filter_append, List.filterMap_append]
  have none : ((Dict.itemsOf (RegistryLog.filed codec (log.registrations.drop n)) name).map Prod.fst).filter
      (fun key => m.versionSeq.getD (name, key) 0 ≤ n) = [] := by
    rw [List.filter_eq_nil_iff]
    intro key mem within
    obtain ⟨item, inside, rfl⟩ := List.mem_map.mp mem
    exact beyond item inside (of_decide_eq_true within)
  have all : ((Dict.itemsOf (RegistryLog.filedUpto codec log n) name).map Prod.fst).filter
      (fun key => m.versionSeq.getD (name, key) 0 ≤ n) =
        (Dict.itemsOf (RegistryLog.filedUpto codec log n) name).map Prod.fst := by
    rw [List.filter_eq_self]
    intro key mem
    obtain ⟨item, inside, rfl⟩ := List.mem_map.mp mem
    exact decide_eq_true (before item inside).1
  rw [none, all, List.filterMap_nil, List.append_nil, List.filterMap_map]
  have each : ∀ item ∈ Dict.itemsOf (RegistryLog.filedUpto codec log n) name,
      ((fun key => (m.version name key).map fun v => (name, key, v)) ∘ Prod.fst) item =
        some (Prod.mk name item) := by
    intro item mem
    rw [Function.comp_apply, (before item mem).2]
    rfl
  rw [List.filterMap_congr each]
  exact congrFun List.filterMap_eq_map _

theorem Holds.registered (h : Holds codec m log) (n : ℕ) :
    (m.registered n).foldl readVersion (.empty, .empty) =
      (RegistryLog.filedUpto codec log n).foldl readVersion (.empty, .empty) := by
  have rows : m.registered n = Dict.regrouped
      (Dict.collect fileHash [] (RegistryLog.filed codec log.registrations)).keys
      (Dict.itemsOf (RegistryLog.filedUpto codec log n)) := by
    unfold MemoryRegistry.registered Dict.regrouped
    rw [h.order, Dict.entries_collect, List.flatMap_map]
    refine List.flatMap_congr fun name mem => ?_
    dsimp only
    rw [RegistryLog.foldl_fileHash, List.nil_append]
    exact h.row n name
  rw [rows, RegistryLog.readVersions_eq, RegistryLog.readVersions_eq, RegistryLog.filed_split n, Dict.collect_regroup,
    Dict.collect_regroup]

theorem Holds.snapshot (h : Holds codec m log) (revision : Option RegistryRevision) :
    m.snapshot revision = log.snapshot codec revision .invalidRegistryRevision := by
  have promoted : ∀ n, m.promoted n = log.promotions.take n := by
    intro n
    have stable : (numbered log.promotions).filter (fun row => row.1 ≤ n ∧ row.2.channel = "stable") =
        (numbered log.promotions).filter (fun row => row.1 ≤ n) := by
      refine List.filter_congr fun row mem => ?_
      have inside : row.2 ∈ log.promotions := by
        rw [← map_snd_numbered log.promotions]
        exact List.mem_map_of_mem mem
      simp [h.coherent.stable row.2 inside]
    rw [MemoryRegistry.promoted, h.promotions, stable, filter_numbered, map_snd_numbered]
  unfold MemoryRegistry.snapshot RegistryLog.snapshot RegistryLog.cut
  rw [h.registrationSeq, h.promotionSeq]
  simp only [h.registered, promoted]
  rfl

theorem Holds.version_insert (h : Holds codec m log) {v : Registration δ}
    (new : log.version codec (codec.name v.definition) v.contentHash = none) (name : String) (contentHash : Digest) :
    ((m.versions.insert (codec.name v.definition)
        ((m.versions.getD (codec.name v.definition) .empty).insert v.contentHash v)).getD name .empty).get?
          contentHash =
      ({ log with registrations := log.registrations ++ [v] } : RegistryLog δ).version codec name contentHash := by
  have old := h.version name contentHash
  rw [MemoryRegistry.version] at old
  rw [RegistryLog.version, List.find?_append]
  change _ = (log.version codec name contentHash).or _
  rw [Dict.getD, Dict.get?_insert]
  by_cases named : codec.name v.definition = name
  · subst named
    rw [if_pos rfl, Option.getD_some, Dict.get?_insert]
    by_cases hashed : v.contentHash = contentHash
    · subst hashed
      rw [if_pos rfl, new, Option.none_or]
      simp [DefinitionCodec.key]
    · rw [if_neg hashed, old]
      simp [DefinitionCodec.key, hashed]
  · rw [if_neg named, ← Dict.getD, old]
    simp [DefinitionCodec.key, named]

theorem Holds.storeVersion (h : Holds codec m log) (v : Registration δ) :
    Agrees (Holds codec) (m.call codec (.version v)) (log.call codec (.version v)) := by
  have found := h.version (codec.name v.definition) v.contentHash
  unfold MemoryRegistry.call RegistryLog.call MemoryRegistry.storeVersion RegistryLog.storeVersion
  dsimp only
  rw [found]
  cases existing : log.version codec (codec.name v.definition) v.contentHash with
  | some w =>
    dsimp only
    by_cases same : codec.SameDefinition w.definition v.definition
    · rw [require_of same, if_pos same]
      exact .accept h
    · rw [require_of_not same, if_neg same]
      exact .refuse
  | none =>
    refine .accept ⟨?_, ?_, h.version_insert existing, ?_, h.promotions, ?_, h.promotionSeq⟩
    · exact h.coherent.storeVersion (v := v) (by unfold RegistryLog.storeVersion; rw [existing])
    · dsimp only
      rw [RegistryLog.filed, List.map_append, List.map_singleton, Dict.collect_append_singleton, h.order]
      rfl
    · intro n w mem
      rw [numbered_append_singleton] at mem
      dsimp only
      rcases List.mem_append.mp mem with old | new
      · have retained : w ∈ log.registrations := by
          rw [← map_snd_numbered log.registrations]
          exact List.mem_map_of_mem old
        have other := RegistryLog.version_eq_none.mp existing w retained
        rw [Dict.get?_insert_ne _ _ (Ne.symm other)]
        exact h.numbers n w old
      · cases List.mem_singleton.mp new
        rw [h.registrationSeq]
        exact Dict.get?_insert_self _ _ _
    · dsimp only
      rw [h.registrationSeq, List.length_append, List.length_singleton]

theorem Holds.storePromotion (h : Holds codec m log) (record : PromotionRecord) :
    Agrees (Holds codec) (m.call codec (.promotion record)) (log.call codec (.promotion record)) := by
  have prior : m.promotionForAttestation record.attestationId = log.promotionFor record.attestationId := by
    unfold MemoryRegistry.promotionForAttestation
    rw [h.promotions, find?_snd_numbered (P := fun r : PromotionRecord => r.attestationId = record.attestationId)]
    rfl
  have current : m.current record.component = log.stableVersion record.component := by
    have stable : log.promotions.filter (fun r => r.component = record.component ∧ r.channel = "stable") =
        log.moves record.component := by
      refine List.filter_congr fun r mem => ?_
      simp [h.coherent.stable r mem]
    have last := getLast?_snd_numbered log.promotions
      (fun r => r.component = record.component ∧ r.channel = "stable")
    unfold MemoryRegistry.current RegistryLog.stableVersion ending
    rw [h.promotions, ← stable, ← last, Option.map_map]
    rfl
  have target := h.version record.component record.toVersion
  unfold MemoryRegistry.call RegistryLog.call MemoryRegistry.storePromotion RegistryLog.storePromotion
  dsimp only
  by_cases channel : record.channel = "stable"
  · rw [require_of channel, ok_bind, if_neg (not_not.mpr channel), prior]
    cases used : log.promotionFor record.attestationId with
    | some r =>
      dsimp only
      by_cases same : r.SameIdentityAs record
      · rw [require_of same, if_pos same]
        exact .accept h
      · rw [require_of_not same, if_neg same]
        exact .refuse
    | none =>
      dsimp only
      rw [current, target]
      by_cases moved : log.stableVersion record.component = record.fromVersion
      · by_cases retained : (log.version codec record.component record.toVersion).isSome
        · have accepted : log.storePromotion codec record =
              some (record, { log with promotions := log.promotions ++ [record] }) := by
            unfold RegistryLog.storePromotion
            rw [if_neg (not_not.mpr channel), used]
            exact if_pos ⟨moved, retained⟩
          rw [require_of moved, require_of retained, if_pos ⟨moved, retained⟩]
          refine .accept ⟨h.coherent.storePromotion accepted, h.order, h.version, h.numbers, ?_,
            h.registrationSeq, ?_⟩
          · dsimp only
            rw [h.promotionSeq, h.promotions, numbered_append_singleton]
          · dsimp only
            rw [h.promotionSeq, List.length_append, List.length_singleton]
        · rw [require_of moved, require_of_not retained, if_neg (fun both => retained both.2)]
          exact .refuse
      · rw [require_of_not moved, if_neg (fun both => moved both.1)]
        exact .refuse
  · rw [require_of_not channel, if_pos channel]
    exact .refuse

theorem Holds.call (h : Holds codec m log) (c : RegistryCall δ) :
    Agrees (Holds codec) (m.call codec c) (log.call codec c) := by
  cases c with
  | version v => exact h.storeVersion v
  | promotion record => exact h.storePromotion record
  | snapshot revision =>
    unfold MemoryRegistry.call RegistryLog.call
    dsimp only
    rw [h.snapshot revision]
    cases log.snapshot codec revision .invalidRegistryRevision with
    | error e => exact .refuse
    | ok shown => exact .accept h
  | mint a => exact .accept h

end MemoryRegistry

/-! ## The durable store -/

namespace SqliteRegistry

def componentRow (codec : DefinitionCodec δ) (p : ℕ × Registration δ) : ComponentRow :=
  ⟨p.1, codec.name p.2.definition, p.2.contentHash, codec.dump p.2.definition, p.2.registeredAt⟩

/-- The text of the definition reads back as it, with the content hash it is stored under. -/
def Readable (codec : DefinitionCodec δ) (v : Registration δ) : Prop :=
  codec.load (codec.dump v.definition) = some (v.definition, v.contentHash)

/-- A minted attestation authorizes the promotion. -/
def Authorized (attestations : Dict String Attestation) (r : PromotionRecord) : Prop :=
  ∃ a, attestations.get? r.attestationId = some a ∧ a.AuthorizesEdge r

structure Holds (codec : DefinitionCodec δ) (s : SqliteRegistry) (log : RegistryLog δ) : Prop where
  coherent : log.Coherent codec
  components : s.components = (numbered log.registrations).map (componentRow codec)
  componentsHigh : s.componentsHigh = log.registrations.length
  readable : ∀ v ∈ log.registrations, Readable codec v
  promotions : s.promotions = (numbered log.promotions).map fun p => ⟨p.1, p.2⟩
  promotionsHigh : s.promotionsHigh = log.promotions.length
  authorized : ∀ r ∈ log.promotions, Authorized s.attestations r

variable {codec : DefinitionCodec δ} {s : SqliteRegistry} {log : RegistryLog δ}

theorem Holds.empty : Holds codec ({} : SqliteRegistry) {} where
  coherent := .empty
  components := rfl
  componentsHigh := rfl
  readable _ mem := absurd mem List.not_mem_nil
  promotions := rfl
  promotionsHigh := rfl
  authorized _ mem := absurd mem List.not_mem_nil

theorem sequenceMax_numbered {α : Type} (l : List α) :
    sequenceMax ((numbered l).map Prod.fst) l.length = .ok l.length := by
  have positive : ∀ seq ∈ (numbered l).map Prod.fst, 0 < seq := by
    intro seq mem
    obtain ⟨p, inside, rfl⟩ := List.mem_map.mp mem
    exact (mem_numbered (n := p.1) (a := p.2) inside).1
  unfold sequenceMax
  dsimp only
  rw [require_of positive, ok_bind, max_numbered, require_of ⟨rfl, by simp⟩]
  rfl

theorem Holds.currentRevision (h : Holds codec s log) : s.currentRevision = .ok log.revision := by
  have registrations : s.components.map ComponentRow.registrationSeq =
      (numbered log.registrations).map Prod.fst := by
    rw [h.components, List.map_map]
    rfl
  have promotions : s.promotions.map PromotionRow.promotionSeq = (numbered log.promotions).map Prod.fst := by
    rw [h.promotions, List.map_map]
    rfl
  unfold SqliteRegistry.currentRevision
  rw [registrations, promotions, h.componentsHigh, h.promotionsHigh, sequenceMax_numbered, ok_bind,
    sequenceMax_numbered]
  rfl

theorem storedVersion_row {v : Registration δ} (readable : Readable codec v) {n : ℕ} (positive : 0 < n) :
    storedVersionFromRow codec (componentRow codec (n, v)) = .ok v := by
  unfold storedVersionFromRow componentRow
  dsimp only
  rw [require_of positive, ok_bind, readable, expect_some, ok_bind, require_of rfl, ok_bind, require_of rfl]
  rfl

theorem Holds.componentForVersion (h : Holds codec s log) (name : String) (contentHash : Digest) :
    s.componentForVersion codec name contentHash = .ok (log.version codec name contentHash) := by
  have selects : ∀ p ∈ numbered log.registrations,
      (Selects codec name contentHash (componentRow codec p) ↔ codec.key p.2 = (name, contentHash)) := by
    intro p mem
    have inside : p.2 ∈ log.registrations := by
      rw [← map_snd_numbered log.registrations]
      exact List.mem_map_of_mem mem
    have read : codec.load (codec.dump p.2.definition) = some (p.2.definition, p.2.contentHash) :=
      h.readable p.2 inside
    simp [Selects, componentRow, read, DefinitionCodec.key]
  have rows : s.components.filter (fun row => Selects codec name contentHash row) =
      ((numbered log.registrations).filter (fun p => codec.key p.2 = (name, contentHash))).map
        (componentRow codec) := by
    rw [h.components, List.filter_map]
    refine congrArg _ (List.filter_congr fun p mem => ?_)
    exact decide_eq_decide.mpr (selects p mem)
  have once : ((numbered log.registrations).map (fun p => codec.key p.2)).Nodup := by
    rw [map_numbered]
    exact h.coherent.filed_once
  unfold SqliteRegistry.componentForVersion
  rw [rows]
  cases found : log.version codec name contentHash with
  | none =>
    have none : (numbered log.registrations).filter (fun p => codec.key p.2 = (name, contentHash)) = [] := by
      rw [List.filter_eq_nil_iff]
      intro p mem same
      have inside : p.2 ∈ log.registrations := by
        rw [← map_snd_numbered log.registrations]
        exact List.mem_map_of_mem mem
      exact RegistryLog.version_eq_none.mp found p.2 inside (of_decide_eq_true same)
    rw [none]
    rfl
  | some v =>
    obtain ⟨mem, named, hashed⟩ := RegistryLog.version_eq_some found
    obtain ⟨n, numbered_v⟩ := MemoryRegistry.mem_of_numbered mem
    have key : codec.key v = (name, contentHash) := Prod.ext named hashed
    have single := Dict.filter_same once numbered_v
    rw [key] at single
    have positive := (mem_numbered numbered_v).1
    rw [single, List.map_singleton]
    dsimp only
    rw [storedVersion_row (h.readable v mem) positive, ok_bind, require_of ⟨named, hashed⟩]
    rfl

theorem promotionFromRow_of {r : PromotionRecord} {n : ℕ} (positive : 0 < n) (stable : r.channel = "stable")
    (authorized : Authorized s.attestations r) : s.promotionFromRow ⟨n, r⟩ = .ok r := by
  obtain ⟨a, minted, authorizes⟩ := authorized
  unfold SqliteRegistry.promotionFromRow validatePromotionAuthority
  dsimp only
  rw [require_of positive, ok_bind, require_of stable, ok_bind, minted, expect_some, ok_bind,
    require_of authorizes]
  rfl

theorem Holds.promotionFromRow (h : Holds codec s log) {n : ℕ} {r : PromotionRecord}
    (mem : (n, r) ∈ numbered log.promotions) : s.promotionFromRow ⟨n, r⟩ = .ok r := by
  have inside : r ∈ log.promotions := by
    rw [← map_snd_numbered log.promotions]
    exact List.mem_map_of_mem mem
  exact promotionFromRow_of (mem_numbered mem).1 (h.coherent.stable r inside) (h.authorized r inside)

theorem Holds.promotionForAttestation (h : Holds codec s log) (attestationId : String) :
    s.promotionForAttestation attestationId = .ok (log.promotionFor attestationId) := by
  have rows : s.promotions.filter (fun row => row.record.attestationId = attestationId) =
      ((numbered log.promotions).filter (fun p => p.2.attestationId = attestationId)).map
        (fun p => ⟨p.1, p.2⟩) := by
    rw [h.promotions, List.filter_map]
    rfl
  have once : ((numbered log.promotions).map (fun p => p.2.attestationId)).Nodup := by
    rw [map_numbered]
    exact h.coherent.used_once
  have found := find?_snd_numbered log.promotions (fun r => r.attestationId = attestationId)
  unfold SqliteRegistry.promotionForAttestation RegistryLog.promotionFor
  rw [rows, ← found, ← List.head?_filter]
  cases selected : (numbered log.promotions).filter (fun p => p.2.attestationId = attestationId) with
  | nil => rfl
  | cons p rest =>
    have mem : p ∈ numbered log.promotions := List.mem_of_mem_filter (selected ▸ List.mem_cons_self)
    have same : p.2.attestationId = attestationId :=
      of_decide_eq_true (List.mem_filter.mp (selected ▸ List.mem_cons_self : p ∈ _)).2
    have single := Dict.filter_same once mem
    rw [same, selected] at single
    rw [single, List.map_singleton]
    dsimp only
    rw [h.promotionFromRow (n := p.1) (r := p.2) mem]
    rfl

theorem Holds.currentStable (h : Holds codec s log) (component : String) :
    s.currentStable component = .ok (log.stableVersion component) := by
  have rows : s.promotions.filter (fun row => row.record.component = component ∧ row.record.channel = "stable") =
      ((numbered log.promotions).filter (fun p => p.2.component = component)).map (fun p => ⟨p.1, p.2⟩) := by
    rw [h.promotions, List.filter_map]
    refine congrArg _ (List.filter_congr fun p mem => ?_)
    have inside : p.2 ∈ log.promotions := by
      rw [← map_snd_numbered log.promotions]
      exact List.mem_map_of_mem mem
    simp [h.coherent.stable p.2 inside]
  have last := getLast?_snd_numbered log.promotions (fun r => r.component = component)
  unfold SqliteRegistry.currentStable RegistryLog.stableVersion ending RegistryLog.moves
  rw [rows, ← last, List.getLast?_map]
  cases found : ((numbered log.promotions).filter (fun p => p.2.component = component)).getLast? with
  | none => rfl
  | some p =>
    have mem : p ∈ numbered log.promotions := List.mem_of_mem_filter (List.mem_of_getLast? found)
    dsimp only [Option.map_some]
    rw [h.promotionFromRow (n := p.1) (r := p.2) mem]
    rfl

theorem Holds.snapshotAt (h : Holds codec s log) (revision : RegistryRevision) (incoherence : RegistryFault) :
    s.snapshotAt codec revision incoherence = log.cut codec revision incoherence := by
  have rows : s.components.filter (fun row => row.registrationSeq ≤ revision.registrationSeq) =
      (numbered (log.registrations.take revision.registrationSeq)).map (componentRow codec) := by
    rw [h.components, List.filter_map, ← filter_numbered]
    rfl
  have stored : (s.components.filter (fun row => row.registrationSeq ≤ revision.registrationSeq)).mapM
      (storedVersionFromRow codec) = .ok (log.registrations.take revision.registrationSeq) := by
    rw [rows, List.mapM_map, mapM_eq_map (g := Prod.snd), map_snd_numbered]
    intro p mem
    have inside : p.2 ∈ log.registrations.take revision.registrationSeq := by
      rw [← map_snd_numbered (log.registrations.take revision.registrationSeq)]
      exact List.mem_map_of_mem mem
    have positive := (mem_numbered (n := p.1) (a := p.2) mem).1
    exact storedVersion_row (h.readable p.2 (List.mem_of_mem_take inside)) positive
  have promoted : s.promotions.filter (fun row => row.promotionSeq ≤ revision.promotionSeq) =
      (numbered (log.promotions.take revision.promotionSeq)).map (fun p => ⟨p.1, p.2⟩) := by
    rw [h.promotions, List.filter_map, ← filter_numbered]
    rfl
  have moves : ∀ versions read, (s.promotions.filter
      (fun row => row.promotionSeq ≤ revision.promotionSeq)).foldlM
        (fun moves row => s.promotionFromRow row >>= readPromotion (δ := δ) versions incoherence moves) read =
      (log.promotions.take revision.promotionSeq).foldlM (readPromotion versions incoherence) read := by
    intro versions read
    have all := map_snd_numbered (log.promotions.take revision.promotionSeq)
    rw [promoted, List.foldlM_map]
    conv_rhs => rw [← all, List.foldlM_map]
    refine foldlM_same (fun read p mem => ?_) read
    rw [← filter_numbered] at mem
    rw [h.promotionFromRow (n := p.1) (r := p.2) (List.mem_of_mem_filter mem), ok_bind]
  unfold SqliteRegistry.snapshotAt RegistryLog.cut
  rw [stored, ok_bind]
  dsimp only
  rw [moves]
  rfl

theorem Holds.snapshot (h : Holds codec s log) (revision : Option RegistryRevision) :
    s.snapshot codec revision = log.snapshot codec revision
      (if revision.isSome then .invalidRegistryRevision else .journalDamaged) := by
  unfold SqliteRegistry.snapshot RegistryLog.snapshot
  rw [h.currentRevision, ok_bind]
  simp only [h.snapshotAt]

/-- What the durable store asks of a call and the in-memory store leaves to its caller: a new version
reads back as it is stored, and a new promotion is the edge a minted attestation authorizes. -/
def Endorsed (codec : DefinitionCodec δ) (s : SqliteRegistry) : RegistryCall δ → Prop
  | .version v => (∃ row ∈ s.components, row.name = codec.name v.definition ∧ row.contentHash = v.contentHash) ∨
      Readable codec v
  | .promotion record => record.channel ≠ "stable" ∨
      (∃ row ∈ s.promotions, row.record.attestationId = record.attestationId) ∨
      Authorized s.attestations record
  | .snapshot _ => True
  | .mint _ => True

theorem Holds.version_retained (h : Holds codec s log) {v : Registration δ}
    (row : ∃ row ∈ s.components, row.name = codec.name v.definition ∧ row.contentHash = v.contentHash) :
    log.version codec (codec.name v.definition) v.contentHash ≠ none := by
  obtain ⟨row, mem, named, hashed⟩ := row
  rw [h.components] at mem
  obtain ⟨p, inside, rfl⟩ := List.mem_map.mp mem
  have retained : p.2 ∈ log.registrations := by
    rw [← map_snd_numbered log.registrations]
    exact List.mem_map_of_mem inside
  exact fun none => RegistryLog.version_eq_none.mp none p.2 retained (Prod.ext named hashed)

theorem Holds.promotion_retained (h : Holds codec s log) {record : PromotionRecord}
    (row : ∃ row ∈ s.promotions, row.record.attestationId = record.attestationId) :
    log.promotionFor record.attestationId ≠ none := by
  obtain ⟨row, mem, same⟩ := row
  rw [h.promotions] at mem
  obtain ⟨p, inside, rfl⟩ := List.mem_map.mp mem
  have retained : p.2 ∈ log.promotions := by
    rw [← map_snd_numbered log.promotions]
    exact List.mem_map_of_mem inside
  exact fun none => List.find?_eq_none.mp none p.2 retained (decide_eq_true same)

section

variable [DecidableEq δ]

theorem Holds.storeVersion (h : Holds codec s log) {v : Registration δ} (endorsed : Endorsed codec s (.version v)) :
    Agrees (Holds codec) (s.call codec (.version v)) (log.call codec (.version v)) := by
  unfold SqliteRegistry.call RegistryLog.call SqliteRegistry.storeVersion RegistryLog.storeVersion
  dsimp only
  rw [h.currentRevision, ok_bind, h.componentForVersion, ok_bind]
  cases existing : log.version codec (codec.name v.definition) v.contentHash with
  | some w =>
    dsimp only
    by_cases same : codec.SameDefinition w.definition v.definition
    · rw [require_of same, if_pos same]
      exact .accept h
    · rw [require_of_not same, if_neg same]
      exact .refuse
  | none =>
    have readable : Readable codec v := by
      rcases endorsed with retained | readable
      · exact absurd existing (h.version_retained retained)
      · exact readable
    have stored := storedVersion_row readable (Nat.succ_pos s.componentsHigh)
    unfold componentRow at stored
    dsimp only at stored ⊢
    rw [stored, ok_bind, require_of rfl, ok_bind]
    refine .accept ⟨?_, ?_, ?_, ?_, h.promotions, h.promotionsHigh, h.authorized⟩
    · exact h.coherent.storeVersion (v := v) (by unfold RegistryLog.storeVersion; rw [existing])
    · rw [numbered_append_singleton, List.map_append, h.components, h.componentsHigh]
      rfl
    · rw [h.componentsHigh, List.length_append, List.length_singleton]
    · intro w mem
      rcases List.mem_append.mp mem with old | new
      · exact h.readable w old
      · rw [List.mem_singleton.mp new]
        exact readable

theorem Holds.storePromotion (h : Holds codec s log) {record : PromotionRecord}
    (endorsed : Endorsed codec s (.promotion record)) :
    Agrees (Holds codec) (s.call codec (.promotion record)) (log.call codec (.promotion record)) := by
  unfold SqliteRegistry.call RegistryLog.call SqliteRegistry.storePromotion RegistryLog.storePromotion
  dsimp only
  by_cases channel : record.channel = "stable"
  · rw [require_of channel, ok_bind, h.currentRevision, ok_bind, h.promotionForAttestation, ok_bind,
      if_neg (not_not.mpr channel)]
    cases used : log.promotionFor record.attestationId with
    | some r =>
      dsimp only
      by_cases same : r.SameIdentityAs record
      · rw [require_of same, if_pos same]
        exact .accept h
      · rw [require_of_not same, if_neg same]
        exact .refuse
    | none =>
      have authorized : Authorized s.attestations record := by
        rcases endorsed with other | retained | authorized
        · exact absurd channel other
        · exact absurd used (h.promotion_retained retained)
        · exact authorized
      have authority : s.validatePromotionAuthority record = .ok () := by
        obtain ⟨a, minted, authorizes⟩ := authorized
        unfold validatePromotionAuthority
        rw [minted, expect_some, ok_bind, require_of authorizes]
      dsimp only
      rw [authority, ok_bind, h.componentForVersion, ok_bind]
      by_cases retained : (log.version codec record.component record.toVersion).isSome
      · have before : record.fromVersion.mapM (s.componentForVersion codec record.component) =
            .ok (record.fromVersion.map (log.version codec record.component)) := by
          cases record.fromVersion with
          | none => rfl
          | some b =>
            change (do
              let found ← s.componentForVersion codec record.component b
              pure (some found)) = _
            rw [h.componentForVersion]
            rfl
        rw [require_of retained, ok_bind, before, ok_bind]
        by_cases moved : log.stableVersion record.component = record.fromVersion
        · have ends : ∀ found ∈ record.fromVersion.map (log.version codec record.component), found.isSome := by
            intro found mem
            obtain ⟨b, from_b, rfl⟩ := Option.map_eq_some_iff.mp mem
            exact h.coherent.stable_retained (moved.trans from_b)
          have accepted : log.storePromotion codec record =
              some (record, { log with promotions := log.promotions ++ [record] }) := by
            unfold RegistryLog.storePromotion
            rw [if_neg (not_not.mpr channel), used]
            exact if_pos ⟨moved, retained⟩
          rw [require_of ends, ok_bind, h.currentStable, ok_bind, require_of moved, ok_bind,
            promotionFromRow_of (Nat.succ_pos _) channel authorized, ok_bind,
            require_of ⟨rfl, rfl, rfl, rfl, rfl, rfl⟩, if_pos ⟨moved, retained⟩]
          refine .accept ⟨h.coherent.storePromotion accepted, h.components, h.componentsHigh, h.readable,
            ?_, ?_, ?_⟩
          · dsimp only
            rw [numbered_append_singleton, List.map_append, h.promotions, h.promotionsHigh]
            rfl
          · dsimp only
            rw [h.promotionsHigh, List.length_append, List.length_singleton]
          · intro r mem
            rcases List.mem_append.mp mem with old | new
            · exact h.authorized r old
            · rw [List.mem_singleton.mp new]
              exact authorized
        · rw [if_neg (fun both => moved both.1)]
          by_cases ends : ∀ found ∈ record.fromVersion.map (log.version codec record.component), found.isSome
          · rw [require_of ends, ok_bind, h.currentStable, ok_bind, require_of_not moved]
            exact .refuse
          · rw [require_of_not ends]
            exact .refuse
      · rw [require_of_not retained, if_neg (fun both => retained both.2)]
        exact .refuse
  · rw [require_of_not channel, if_pos channel]
    exact .refuse

theorem authorized_mint {attestations : Dict String Attestation} {r : PromotionRecord} (a : Attestation)
    (h : Authorized attestations r) : Authorized (attestations.setDefault a.attestationId a) r := by
  obtain ⟨b, minted, authorizes⟩ := h
  refine ⟨b, ?_, authorizes⟩
  unfold Dict.setDefault
  split_ifs with known
  · exact minted
  · rw [Dict.get?_insert]
    split_ifs with same
    · rw [Dict.contains, same, minted] at known
      exact absurd rfl known
    · exact minted

theorem Holds.call (h : Holds codec s log) {c : RegistryCall δ} (endorsed : Endorsed codec s c) :
    Agrees (Holds codec) (s.call codec c) (log.call codec c) := by
  cases c with
  | version v => exact h.storeVersion endorsed
  | promotion record => exact h.storePromotion endorsed
  | snapshot revision =>
    unfold SqliteRegistry.call RegistryLog.call
    dsimp only
    have same : (log.snapshot codec revision .invalidRegistryRevision).toOption =
        (log.snapshot codec revision
          (if revision.isSome then .invalidRegistryRevision else .journalDamaged)).toOption :=
      RegistryLog.snapshot_toOption revision _ _
    rw [h.snapshot revision, same]
    cases log.snapshot codec revision (if revision.isSome then .invalidRegistryRevision else .journalDamaged) with
    | error e => exact .refuse
    | ok shown => exact .accept h
  | mint a =>
    exact .accept ⟨h.coherent, h.components, h.componentsHigh, h.readable, h.promotions, h.promotionsHigh,
      fun r mem => authorized_mint a (h.authorized r mem)⟩

theorem Holds.endorsed (h : Holds codec s log) {c : RegistryCall δ} {a : RegistryAnswer δ} {s' : SqliteRegistry}
    (called : s.call codec c = .ok (a, s')) : Endorsed codec s c := by
  cases c with
  | version v =>
    unfold SqliteRegistry.call SqliteRegistry.storeVersion at called
    dsimp only at called
    rw [h.currentRevision, ok_bind, h.componentForVersion, ok_bind] at called
    cases existing : log.version codec (codec.name v.definition) v.contentHash with
    | some w =>
      obtain ⟨mem, named, hashed⟩ := RegistryLog.version_eq_some existing
      obtain ⟨n, found⟩ := MemoryRegistry.mem_of_numbered mem
      refine .inl ⟨componentRow codec (n, w), ?_, named, hashed⟩
      rw [h.components]
      exact List.mem_map_of_mem found
    | none =>
      right
      rw [existing] at called
      unfold storedVersionFromRow at called
      simp only [map_ok_iff, bind_eq_ok, require_eq_ok, expect_eq_ok, exists_const] at called
      obtain ⟨-, ⟨stored, ⟨-, parsed, read, -, hashed, same⟩, kept, -⟩, -⟩ := called
      cases same
      have definition := congrArg Registration.definition kept
      exact read.trans (congrArg some (Prod.ext definition hashed))
  | promotion record =>
    by_cases channel : record.channel = "stable"
    · right
      unfold SqliteRegistry.call SqliteRegistry.storePromotion at called
      dsimp only at called
      rw [require_of channel, ok_bind, h.currentRevision, ok_bind, h.promotionForAttestation, ok_bind] at called
      cases used : log.promotionFor record.attestationId with
      | some r =>
        have mem := List.mem_of_find?_eq_some used
        have same := List.find?_some used
        rw [← map_snd_numbered log.promotions] at mem
        obtain ⟨p, inside, rfl⟩ := List.mem_map.mp mem
        refine .inl ⟨⟨p.1, p.2⟩, ?_, of_decide_eq_true same⟩
        rw [h.promotions]
        exact List.mem_map_of_mem inside
      | none =>
        rw [used] at called
        unfold validatePromotionAuthority at called
        simp only [map_ok_iff, bind_eq_ok, require_eq_ok, expect_eq_ok] at called
        obtain ⟨-, ⟨-, ⟨attestation, minted, authorizes⟩, -⟩, -⟩ := called
        exact .inr ⟨attestation, minted, authorizes⟩
    · exact .inl channel
  | snapshot revision => trivial
  | mint a => trivial

theorem Holds.settle (h : Holds codec s log) (c : RegistryCall δ) :
    ∃ log', Holds codec (settle s (s.call codec c)) log' ∧ RegistryLog.Grown log log' := by
  cases called : s.call codec c with
  | error e => exact ⟨log, h, .refl log⟩
  | ok r =>
    obtain ⟨a, s'⟩ := r
    have agrees := h.call (h.endorsed called)
    rw [called] at agrees
    generalize answered : log.call codec c = answer at agrees
    cases agrees with
    | accept held => exact ⟨_, held, RegistryLog.Grown.call answered⟩

end

end SqliteRegistry

theorem MemoryRegistry.Holds.settle {codec : DefinitionCodec δ} {m : MemoryRegistry δ} {log : RegistryLog δ}
    (h : MemoryRegistry.Holds codec m log) (c : RegistryCall δ) :
    ∃ log', MemoryRegistry.Holds codec (settle m (m.call codec c)) log' ∧ RegistryLog.Grown log log' := by
  have agrees := h.call c
  generalize answered : log.call codec c = answer at agrees
  generalize m.call codec c = reply at agrees
  cases agrees with
  | accept held => exact ⟨_, held, RegistryLog.Grown.call answered⟩
  | refuse => exact ⟨log, h, .refl log⟩

/-! ## Runs -/

section

variable [DecidableEq δ] {codec : DefinitionCodec δ}

/-- Every call of the run is endorsed where the durable store meets it. -/
def EndorsedRun (codec : DefinitionCodec δ) : SqliteRegistry → List (RegistryCall δ) → Prop
  | _, [] => True
  | s, c :: calls => s.Endorsed codec c ∧ EndorsedRun codec (settle s (s.call codec c)) calls

theorem replies_alike {s : SqliteRegistry} {m : MemoryRegistry δ} {log : RegistryLog δ}
    {calls : List (RegistryCall δ)} (durable : s.Holds codec log) (memory : MemoryRegistry.Holds codec m log)
    (endorsed : EndorsedRun codec s calls) :
    replies (SqliteRegistry.call codec) s calls = replies (MemoryRegistry.call codec) m calls := by
  induction calls generalizing s m log with
  | nil => rfl
  | cons c calls ih =>
    have left := durable.call endorsed.1
    have right := memory.call c
    have rest := endorsed.2
    unfold replies
    generalize s.call codec c = durableReply at left rest ⊢
    generalize m.call codec c = memoryReply at right ⊢
    generalize log.call codec c = answer at left right
    cases left with
    | accept held =>
      cases right with
      | accept held' => exact congrArg _ (ih held held' rest)
    | refuse =>
      cases right with
      | refuse => exact congrArg _ (ih durable memory rest)

theorem durable_run {s : SqliteRegistry} {log : RegistryLog δ} (h : s.Holds codec log)
    (calls : List (RegistryCall δ)) :
    ∃ log', (after (SqliteRegistry.call codec) s calls).Holds codec log' ∧ RegistryLog.Grown log log' := by
  induction calls generalizing s log with
  | nil => exact ⟨log, h, .refl log⟩
  | cons c calls ih =>
    obtain ⟨next, held, grown⟩ := h.settle c
    obtain ⟨last, held', grown'⟩ := ih held
    exact ⟨last, held', grown.trans grown'⟩

omit [DecidableEq δ] in
theorem memory_run {m : MemoryRegistry δ} {log : RegistryLog δ} (h : MemoryRegistry.Holds codec m log)
    (calls : List (RegistryCall δ)) :
    ∃ log', MemoryRegistry.Holds codec (after (MemoryRegistry.call codec) m calls) log' ∧
      RegistryLog.Grown log log' := by
  induction calls generalizing m log with
  | nil => exact ⟨log, h, .refl log⟩
  | cons c calls ih =>
    obtain ⟨next, held, grown⟩ := h.settle c
    obtain ⟨last, held', grown'⟩ := ih held
    exact ⟨last, held', grown.trans grown'⟩

/-- What a snapshot shows is a cut: asked for again by its revision after later calls it is the same,
the current snapshot can be taken, and it shows all that the earlier one does. -/
structure CutLaw (earlier later : Option RegistryRevision → Except RegistryFault (RegistryCut δ)) : Prop where
  same : ∀ revision shown, earlier revision = .ok shown → later (some shown.revision) = .ok shown
  current : ∃ shown, later none = .ok shown
  grown : ∀ revision shown shown', earlier revision = .ok shown → later none = .ok shown' →
    shown'.Extends shown

omit [DecidableEq δ] in
theorem cutLaw_of_logs {log log' : RegistryLog δ}
    {earlier later : Option RegistryRevision → Except RegistryFault (RegistryCut δ)}
    (e e' : Option RegistryRevision → RegistryFault) (coherent : log'.Coherent codec)
    (before : ∀ revision, earlier revision = log.snapshot codec revision (e revision))
    (now : ∀ revision, later revision = log'.snapshot codec revision (e' revision))
    (grown : RegistryLog.Grown log log') : CutLaw earlier later := by
  have registered := grown.registrations.length_le
  have promoted := grown.promotions.length_le
  constructor
  · intro revision shown taken
    rw [before] at taken
    obtain ⟨-, registrations, promotions, cut⟩ := RegistryLog.snapshot_ok taken
    have within : shown.revision.registrationSeq ≤ log'.revision.registrationSeq ∧
        shown.revision.promotionSeq ≤ log'.revision.promotionSeq :=
      ⟨registrations.trans registered, promotions.trans promoted⟩
    have shows : log'.snapshot codec (some shown.revision) (e' (some shown.revision)) =
        log'.cut codec shown.revision (e' (some shown.revision)) := RegistryLog.snapshot_of_le within
    rw [now, shows, grown.cut registrations promotions, ← RegistryLog.toOption_eq_some,
      RegistryLog.cut_toOption _ _ (e revision), cut]
    rfl
  · obtain ⟨shown, taken⟩ : ∃ shown, log'.snapshot codec none (e' none) = .ok shown := coherent.current
    exact ⟨shown, (now none).trans taken⟩
  · intro revision shown shown' taken taken'
    rw [before] at taken
    rw [now] at taken'
    obtain ⟨-, registrations, promotions, cut⟩ := RegistryLog.snapshot_ok taken
    obtain ⟨own, -, -, cut'⟩ := RegistryLog.snapshot_ok taken'
    rw [← grown.cut registrations promotions] at cut
    refine coherent.extends ?_ ?_ cut cut'
    · rw [own]
      exact registrations.trans registered
    · rw [own]
      exact promotions.trans promoted

/-- The two stores agree, and snapshots are cuts. Over a run of calls that the durable store endorses
(each new version reads back as it is stored, each new promotion is the edge a minted attestation
authorizes), the stores accept the same calls and return equal values, snapshots among them. Over
any run of either store, a snapshot once taken can be taken again by its revision, unchanged, and
every later current snapshot shows all that it shows. -/
theorem registry_stores_agree (codec : DefinitionCodec δ) :
    (∀ calls, EndorsedRun codec {} calls →
      replies (SqliteRegistry.call codec) {} calls = replies (MemoryRegistry.call codec) {} calls) ∧
    (∀ calls more : List (RegistryCall δ),
      CutLaw ((after (SqliteRegistry.call codec) {} calls).snapshot codec)
        ((after (SqliteRegistry.call codec) {} (calls ++ more)).snapshot codec)) ∧
    (∀ calls more : List (RegistryCall δ),
      CutLaw (after (MemoryRegistry.call codec) {} calls).snapshot
        (after (MemoryRegistry.call codec) {} (calls ++ more)).snapshot) := by
  refine ⟨?_, ?_, ?_⟩
  · intro calls endorsed
    exact replies_alike .empty .empty endorsed
  · intro calls more
    have start : SqliteRegistry.Holds codec {} {} := .empty
    obtain ⟨log, held, -⟩ := durable_run start calls
    obtain ⟨log', held', grown⟩ := durable_run held more
    rw [after_append]
    exact cutLaw_of_logs _ _ held'.coherent held.snapshot held'.snapshot grown
  · intro calls more
    have start : MemoryRegistry.Holds codec {} {} := .empty
    obtain ⟨log, held, -⟩ := memory_run start calls
    obtain ⟨log', held', grown⟩ := memory_run held more
    rw [after_append]
    exact cutLaw_of_logs (fun _ => .invalidRegistryRevision) (fun _ => .invalidRegistryRevision)
      held'.coherent held.snapshot held'.snapshot grown

end

/-- One definition, of the component `c`, whose content hash is `h`. -/
def unitCodec : DefinitionCodec Unit where
  name _ := "c"
  canonical _ := ""
  dump _ := ""
  load _ := some ((), "h")

/-- The first promotion of `c`, by the attestation `att`. -/
def firstPromotion : PromotionRecord := ⟨"c", "stable", none, "h", "att", "operator", none, 0⟩

def firstAttestation : Attestation where
  action := .promote
  subject := .component "c" "h" none
  checks := [.of "bootstrap-initial" .passed "" "0.0"]
  checkSetHash := ""
  manifestHash := ""
  attestationId := "att"
  createdByRun := none
  createdAt := 0

/-- The in-memory store takes a promotion that no attestation authorizes. -/
theorem registry_stores_disagree :
    ¬ ∀ calls, replies (SqliteRegistry.call unitCodec) {} calls = replies (MemoryRegistry.call unitCodec) {} calls := by
  intro same
  have accepted := congrArg (List.map Option.isSome) (same [.version ⟨(), "h", 0⟩, .promotion firstPromotion])
  exact absurd accepted (by decide)

theorem registry_stores_agree_first :
    replies (SqliteRegistry.call unitCodec) {}
        [.version ⟨(), "h", 0⟩, .mint firstAttestation, .promotion firstPromotion] =
      replies (MemoryRegistry.call unitCodec) {}
        [.version ⟨(), "h", 0⟩, .mint firstAttestation, .promotion firstPromotion] := by
  apply (registry_stores_agree unitCodec).1
  exact ⟨.inr rfl, trivial, .inr (.inr ⟨firstAttestation, rfl, by decide⟩), trivial⟩

end Constructicon
