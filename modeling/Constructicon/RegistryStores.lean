import Constructicon.Attestation
import Constructicon.Library.Collect
import Constructicon.Registry

/-!
# The two registry stores

The in-memory store keeps dictionaries and counters, the durable store keeps rows and rebuilds
order, promotion chain and stable pointer from them, checking each row as it is read. Both file
versions once, move stable pointers by compare-and-swap and answer for any earlier revision.
-/

namespace Constructicon

open Transaction

/-- `RegistryRevision` -/
structure RegistryRevision where
  registrationSeq : ℕ
  promotionSeq : ℕ
deriving DecidableEq, Repr

/-- `StoredVersion`, with the time of its registration. -/
structure Registration (δ : Type) where
  definition : δ
  contentHash : Digest
  registeredAt : Instant
deriving DecidableEq

structure PromotionRecord where
  component : String
  channel : String
  fromVersion : Option Digest
  toVersion : Digest
  attestationId : String
  actor : String
  sourceRun : Option RunId
  createdAt : Instant
deriving DecidableEq, Repr

/-- `PromotionRecord.same_identity_as` -/
def PromotionRecord.SameIdentityAs (r s : PromotionRecord) : Prop :=
  r.component = s.component ∧ r.channel = s.channel ∧ r.fromVersion = s.fromVersion ∧
    r.toVersion = s.toVersion ∧ r.attestationId = s.attestationId ∧ r.sourceRun = s.sourceRun

instance (r s : PromotionRecord) : Decidable (r.SameIdentityAs s) :=
  inferInstanceAs (Decidable (_ ∧ _ ∧ _ ∧ _ ∧ _ ∧ _))

/-- What the stores do with a definition: its name, its canonical text, the text of a row and the
definition and content hash a row's text is read back as. -/
structure DefinitionCodec (δ : Type) where
  name : δ → String
  canonical : δ → String
  dump : δ → String
  load : String → Option (δ × Digest)

/-- `same_definition` -/
def DefinitionCodec.SameDefinition {δ : Type} (codec : DefinitionCodec δ) (left right : δ) : Prop :=
  codec.canonical left = codec.canonical right

instance {δ : Type} (codec : DefinitionCodec δ) (left right : δ) :
    Decidable (codec.SameDefinition left right) :=
  inferInstanceAs (Decidable (_ = _))

/-- The refusals of a store: damage, an admission error, or a revision it cannot show. -/
inductive RegistryFault where
  | journalDamaged
  | admissionError
  | invalidRegistryRevision
deriving DecidableEq, Repr

/-- `RegistrySnapshot`, with its revision and its history. -/
structure RegistryCut (δ : Type) where
  revision : RegistryRevision
  versions : Dict String (Dict Digest (Registration δ))
  order : Dict String (List Digest)
  stable : Dict String Digest
  history : Dict String (List (Option Digest × Digest))

section

variable {δ : Type}

/-! ## Assembling a cut -/

/-- The versions of one component, one more filed. -/
def fileVersion (row : Dict Digest (Registration δ)) (v : Digest × Registration δ) :
    Dict Digest (Registration δ) :=
  row.insert v.1 v.2

/-- The registration order of one component, one more filed. -/
def fileHash (hashes : List Digest) (v : Digest × Registration δ) : List Digest := hashes ++ [v.1]

/-- `versions` and `order` after a version is read, by its name and content hash. -/
def readVersion (read : Dict String (Dict Digest (Registration δ)) × Dict String (List Digest))
    (v : String × Digest × Registration δ) :
    Dict String (Dict Digest (Registration δ)) × Dict String (List Digest) :=
  (Dict.file fileVersion .empty read.1 v, Dict.file fileHash [] read.2 v)

def readPromotion (versions : Dict String (Dict Digest (Registration δ))) (incoherence : RegistryFault)
    (read : Dict String Digest × Dict String (List (Option Digest × Digest))) (record : PromotionRecord) :
    Except RegistryFault (Dict String Digest × Dict String (List (Option Digest × Digest))) := do
  let retained := versions.getD record.component .empty
  require (retained.contains record.toVersion ∧ ∀ before ∈ record.fromVersion, retained.contains before)
    incoherence
  require (read.1.get? record.component = record.fromVersion) incoherence
  pure (read.1.insert record.component record.toVersion,
    Dict.file (fun pairs pair => pairs ++ [pair]) [] read.2
      (record.component, (record.fromVersion, record.toVersion)))

/-- The revision asked for, or the current one; a future one is refused. -/
def selectRevision (current : RegistryRevision) (revision : Option RegistryRevision) :
    Except RegistryFault RegistryRevision := do
  let selected := revision.getD current
  require (selected.registrationSeq ≤ current.registrationSeq ∧ selected.promotionSeq ≤ current.promotionSeq)
    .invalidRegistryRevision
  pure selected

/-! ## The in-memory store -/

/-- `InMemoryRegistryStore` -/
structure MemoryRegistry (δ : Type) where
  versions : Dict String (Dict Digest (Registration δ)) := .empty
  order : Dict String (List Digest) := .empty
  versionSeq : Dict (String × Digest) ℕ := .empty
  promotions : List (ℕ × PromotionRecord) := []
  registrationSeq : ℕ := 0
  promotionSeq : ℕ := 0

namespace MemoryRegistry

variable (m : MemoryRegistry δ)

/-- `_versions.get(name, {}).get(key)` -/
def version (name : String) (key : Digest) : Option (Registration δ) :=
  (m.versions.getD name .empty).get? key

/-- The versions up to a sequence number, one component after another. -/
def registered (upto : ℕ) : List (String × Digest × Registration δ) :=
  m.order.entries.flatMap fun row =>
    (row.2.filter (fun key => m.versionSeq.getD (row.1, key) 0 ≤ upto)).filterMap fun key =>
      (m.version row.1 key).map fun v => (row.1, key, v)

/-- The stable promotions up to a sequence number. -/
def promoted (upto : ℕ) : List PromotionRecord :=
  (m.promotions.filter (fun row => row.1 ≤ upto ∧ row.2.channel = "stable")).map Prod.snd

def snapshot (revision : Option RegistryRevision) : Except RegistryFault (RegistryCut δ) := do
  let selected ← selectRevision ⟨m.registrationSeq, m.promotionSeq⟩ revision
  let read := (m.registered selected.registrationSeq).foldl readVersion (.empty, .empty)
  let moves ← (m.promoted selected.promotionSeq).foldlM (readPromotion read.1 .invalidRegistryRevision)
    (.empty, .empty)
  pure ⟨selected, read.1, read.2, moves.1, moves.2⟩

def storeVersion (codec : DefinitionCodec δ) (v : Registration δ) : Except RegistryFault (MemoryRegistry δ) :=
  let name := codec.name v.definition
  match m.version name v.contentHash with
  | some existing => do
    require (codec.SameDefinition existing.definition v.definition) .journalDamaged
    pure m
  | none => .ok
      { m with
        registrationSeq := m.registrationSeq + 1
        versions := m.versions.insert name ((m.versions.getD name .empty).insert v.contentHash v)
        order := m.order.insert name (m.order.getD name [] ++ [v.contentHash])
        versionSeq := m.versionSeq.insert (name, v.contentHash) (m.registrationSeq + 1) }

/-- The stable version of a component, by the last of its promotions. -/
def current (component : String) : Option Digest :=
  ((m.promotions.filter (fun row => row.2.component = component ∧ row.2.channel = "stable")).getLast?).map
    (fun row => row.2.toVersion)

def promotionForAttestation (attestationId : String) : Option PromotionRecord :=
  (m.promotions.find? (fun row => row.2.attestationId = attestationId)).map Prod.snd

def storePromotion (record : PromotionRecord) :
    Except RegistryFault (PromotionRecord × MemoryRegistry δ) := do
  require (record.channel = "stable") .journalDamaged
  match m.promotionForAttestation record.attestationId with
  | some prior => do
    require (prior.SameIdentityAs record) .journalDamaged
    pure (prior, m)
  | none => do
    require (m.current record.component = record.fromVersion) .admissionError
    require (m.version record.component record.toVersion).isSome .journalDamaged
    pure (record,
      { m with
        promotionSeq := m.promotionSeq + 1
        promotions := m.promotions ++ [(m.promotionSeq + 1, record)] })

end MemoryRegistry

/-! ## The durable store -/

/-- A row of `components`. -/
structure ComponentRow where
  registrationSeq : ℕ
  name : String
  contentHash : Digest
  definitionJson : String
  registeredAt : Instant
deriving DecidableEq

/-- A row of `promotions`. -/
structure PromotionRow where
  promotionSeq : ℕ
  record : PromotionRecord
deriving DecidableEq

/-- The tables a registry call reads and writes, with the high-water marks of `sqlite_sequence`. -/
structure SqliteRegistry where
  components : List ComponentRow := []
  componentsHigh : ℕ := 0
  promotions : List PromotionRow := []
  promotionsHigh : ℕ := 0
  attestations : Dict String Attestation := .empty

/-- `promotion_attestation_faults` finds none, between the attestation and the edge it is to authorize. -/
def Attestation.AuthorizesEdge (a : Attestation) (r : PromotionRecord) : Prop :=
  a.action = .promote ∧ a.subject = .component r.component r.toVersion r.fromVersion ∧ a.Ok ∧
    a.createdByRun = r.sourceRun

instance (a : Attestation) (r : PromotionRecord) : Decidable (a.AuthorizesEdge r) :=
  inferInstanceAs (Decidable (_ ∧ _ ∧ _ ∧ _))

namespace SqliteRegistry

variable (codec : DefinitionCodec δ) (s : SqliteRegistry)

/-- `_registry_sequence_max`: the greatest sequence number of an append-only table. -/
def sequenceMax (rows : List ℕ) (highWater : ℕ) : Except RegistryFault ℕ := do
  require (∀ seq ∈ rows, 0 < seq) .journalDamaged
  let maximum := rows.foldl max 0
  require (maximum = highWater ∧ rows.length = maximum) .journalDamaged
  pure maximum

/-- `_current_registry_revision` -/
def currentRevision : Except RegistryFault RegistryRevision := do
  let registrationSeq ← sequenceMax (s.components.map ComponentRow.registrationSeq) s.componentsHigh
  let promotionSeq ← sequenceMax (s.promotions.map PromotionRow.promotionSeq) s.promotionsHigh
  pure ⟨registrationSeq, promotionSeq⟩

/-- `_stored_version_from_row` -/
def storedVersionFromRow (row : ComponentRow) : Except RegistryFault (Registration δ) := do
  require (0 < row.registrationSeq) .journalDamaged
  let parsed ← expect (codec.load row.definitionJson) .journalDamaged
  require (codec.name parsed.1 = row.name) .journalDamaged
  require (parsed.2 = row.contentHash) .journalDamaged
  pure ⟨parsed.1, row.contentHash, row.registeredAt⟩

/-- The row is selected for a version by its columns or by what its text names, or names nothing. -/
def Selects (name : String) (contentHash : Digest) (row : ComponentRow) : Prop :=
  (row.name = name ∧ row.contentHash = contentHash) ∨
    ∀ parsed ∈ codec.load row.definitionJson, codec.name parsed.1 = name ∧ parsed.2 = contentHash

instance (name : String) (contentHash : Digest) (row : ComponentRow) :
    Decidable (Selects codec name contentHash row) :=
  inferInstanceAs (Decidable ((_ ∧ _) ∨ ∀ parsed ∈ codec.load row.definitionJson, _ ∧ _))

/-- `_component_row_for_version`, with the version its row reads back as. -/
def componentForVersion (name : String) (contentHash : Digest) :
    Except RegistryFault (Option (Registration δ)) :=
  match s.components.filter (fun row => Selects codec name contentHash row) with
  | [] => .ok none
  | [row] => do
    let stored ← storedVersionFromRow codec row
    require (codec.name stored.definition = name ∧ stored.contentHash = contentHash) .journalDamaged
    pure (some stored)
  | _ => .error .journalDamaged

/-- `_validate_promotion_authority` -/
def validatePromotionAuthority (record : PromotionRecord) : Except RegistryFault Unit := do
  let attestation ← expect (s.attestations.get? record.attestationId) .journalDamaged
  require (attestation.AuthorizesEdge record) .journalDamaged

/-- `_promotion_from_row` -/
def promotionFromRow (row : PromotionRow) : Except RegistryFault PromotionRecord := do
  require (0 < row.promotionSeq) .journalDamaged
  require (row.record.channel = "stable") .journalDamaged
  s.validatePromotionAuthority row.record
  pure row.record

/-- `_promotion_row_for_attestation` and the record of its row -/
def promotionForAttestation (attestationId : String) : Except RegistryFault (Option PromotionRecord) :=
  match s.promotions.filter (fun row => row.record.attestationId = attestationId) with
  | [] => .ok none
  | [row] => (s.promotionFromRow row).map some
  | _ => .error .journalDamaged

/-- `_registry_snapshot_at_revision` -/
def snapshotAt (revision : RegistryRevision) (incoherence : RegistryFault) :
    Except RegistryFault (RegistryCut δ) := do
  let stored ← (s.components.filter (fun row => row.registrationSeq ≤ revision.registrationSeq)).mapM
    (storedVersionFromRow codec)
  let read := (stored.map fun v => (codec.name v.definition, v.contentHash, v)).foldl readVersion
    (.empty, .empty)
  let moves ← (s.promotions.filter (fun row => row.promotionSeq ≤ revision.promotionSeq)).foldlM
    (fun moves row => s.promotionFromRow row >>= readPromotion read.1 incoherence moves) (.empty, .empty)
  pure ⟨revision, read.1, read.2, moves.1, moves.2⟩

def snapshot (revision : Option RegistryRevision) : Except RegistryFault (RegistryCut δ) := do
  let current ← s.currentRevision
  let selected ← selectRevision current revision
  s.snapshotAt codec selected (if revision.isSome then .invalidRegistryRevision else .journalDamaged)

def storeVersion [DecidableEq δ] (v : Registration δ) : Except RegistryFault SqliteRegistry := do
  let _ ← s.currentRevision
  let existing ← s.componentForVersion codec (codec.name v.definition) v.contentHash
  match existing with
  | some retained => do
    require (codec.SameDefinition retained.definition v.definition) .journalDamaged
    pure s
  | none => do
    let row : ComponentRow :=
      ⟨s.componentsHigh + 1, codec.name v.definition, v.contentHash, codec.dump v.definition, v.registeredAt⟩
    let stored ← storedVersionFromRow codec row
    require (stored = v) .journalDamaged
    pure { s with components := s.components ++ [row], componentsHigh := s.componentsHigh + 1 }

/-- The stable version of a component, by the greatest of its promotions. -/
def currentStable (component : String) : Except RegistryFault (Option Digest) :=
  match (s.promotions.filter (fun row => row.record.component = component ∧
      row.record.channel = "stable")).getLast? with
  | none => .ok none
  | some row => (s.promotionFromRow row).map fun record => some record.toVersion

def storePromotion (record : PromotionRecord) : Except RegistryFault (PromotionRecord × SqliteRegistry) := do
  require (record.channel = "stable") .journalDamaged
  let _ ← s.currentRevision
  let prior ← s.promotionForAttestation record.attestationId
  match prior with
  | some existing => do
    require (existing.SameIdentityAs record) .journalDamaged
    pure (existing, s)
  | none => do
    s.validatePromotionAuthority record
    let target ← s.componentForVersion codec record.component record.toVersion
    require target.isSome .journalDamaged
    let before ← record.fromVersion.mapM (s.componentForVersion codec record.component)
    require (∀ found ∈ before, found.isSome) .journalDamaged
    let stable ← s.currentStable record.component
    require (stable = record.fromVersion) .admissionError
    let row : PromotionRow := ⟨s.promotionsHigh + 1, record⟩
    let stored ← s.promotionFromRow row
    require (stored.SameIdentityAs record) .journalDamaged
    pure (stored, { s with promotions := s.promotions ++ [row], promotionsHigh := s.promotionsHigh + 1 })

end SqliteRegistry

end

end Constructicon
