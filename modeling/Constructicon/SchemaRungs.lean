import Constructicon.Json
import Constructicon.Library.Connection
import Constructicon.Library.Relational

/-!
# The migration ladder

Opening a journal reads the schema version of its database, climbs one rung after another to
the current version and validates what it finds there. Several processes may open one
database at once, so a rung takes the write lock and reads the version again before it
changes anything.

What the rungs store about retained facts is computed by the modules that own those facts;
here a sealing function is given by the seals it stores, in order, and a validation by its
answer.
-/

open Connection Connection.Script

namespace Constructicon.Schema

open Relational

def SCHEMA_VERSION : ℤ := 11

inductive Rung where
  | create
  | m1ToM2
  | m2ToM3
  | m3ToM4
  | m4ToM5
  | m5ToM6
  | m6ToM7
  | m7ToM8
  | m8ToM9
  | m9ToM10
  | m10ToM11
deriving DecidableEq

def Rung.source : Rung → ℤ
  | .create | .m1ToM2 => 0
  | .m2ToM3 => 2
  | .m3ToM4 => 3
  | .m4ToM5 => 4
  | .m5ToM6 => 5
  | .m6ToM7 => 6
  | .m7ToM8 => 7
  | .m8ToM9 => 8
  | .m9ToM10 => 9
  | .m10ToM11 => 10

def Rung.target : Rung → ℤ
  | .create => SCHEMA_VERSION
  | .m1ToM2 => 2
  | .m2ToM3 => 3
  | .m3ToM4 => 4
  | .m4ToM5 => 5
  | .m5ToM6 => 6
  | .m6ToM7 => 7
  | .m7ToM8 => 8
  | .m8ToM9 => 9
  | .m9ToM10 => 10
  | .m10ToM11 => 11

inductive OpenFault where
  /-- `JournalDamaged` -/
  | damaged (message : String)
  /-- an error of the database -/
  | operational (message : String)
  /-- the process is gone -/
  | lost
deriving DecidableEq

abbrev Opener := Script Rung Store OpenFault

/-! ## Tables -/

/-- `_SCHEMA` -/
def baseSchema : List (String × List String) :=
  [("runs", ["run_id", "manifest_hash", "input_hash", "inputs_json", "status", "created_at", "owner_id",
      "owner_epoch", "owner_pid", "heartbeat_at", "lease_expires_at", "next_event_seq", "cancel_requested",
      "creation_command_id"]),
    ("events", ["run_id", "seq", "kind", "path_json", "payload", "created_at"]),
    ("checkpoints", ["run_id", "path_key", "identity", "checkpoint_json"]),
    ("manifests", ["manifest_hash", "manifest_json"]),
    ("attestations", ["attestation_id", "attestation_json"]),
    ("effects", ["idempotency_key", "run_id", "request_json", "receipt_json", "prepared_at", "receipted_at",
      "outcome_run_id", "outcome_event_seq"]),
    ("components", ["registration_seq", "name", "content_hash", "definition_json", "registered_at"]),
    ("promotions", ["promotion_seq", "component", "channel", "from_version", "to_version", "attestation_id",
      "actor", "source_run", "created_at"]),
    ("capability_leases", ["lease_id", "acquisition_epoch", "run_id", "binding_id", "scope_json", "lifetime",
      "state", "disposition", "resource_ref", "created_at", "updated_at"])]

/-- `_V5_SCHEMA` -/
def v5Schema : List (String × List String) :=
  [("commands", ["command_id", "actor_id", "actor_json", "operation", "idempotency_key", "request_hash",
      "request_json", "plan_json", "state", "response_json", "owner_id", "owner_epoch", "lease_expires_at",
      "created_at", "updated_at", "completed_at"]),
    ("approvals", ["approval_id", "run_id", "subject_json", "decision", "reason", "actor_json", "command_id",
      "created_at"]),
    ("run_origins", ["run_id", "origin_json"])]

/-- `_V6_SCHEMA` -/
def v6Schema : List (String × List String) :=
  [("channel_messages", ["message_seq", "message_id", "channel_id", "lane", "interaction", "kind", "reply_to",
      "recipient_actor_id", "sender_actor_id", "run_id", "path_json", "port", "type_id", "schema_hash",
      "reply_port", "reply_type_id", "reply_schema_hash", "envelope_json", "attestation_id"]),
    ("channel_acks", ["ack_seq", "message_id", "actor_id", "command_id", "acked_at"])]

/-- The columns of `ERA_DDL`. -/
def eraColumns : List String := ["run_id", "world_hash", "source", "floor", "inventory_hash"]

/-- `_CURRENT_V7_TABLES` -/
def currentV7Tables : List String :=
  ["approvals", "attestations", "capability_leases", "channel_acks", "channel_messages", "channel_provenance",
    "checkpoints", "commands", "components", "durable_fact_seals", "effects", "events",
    "legacy_capability_lease_seals", "legacy_effect_seals", "manifests", "promotions", "run_origins", "runs"]

/-! ## Facts of other modules -/

/-- A seal to store: `store_durable_fact_seal` hashes the fact with the rest. -/
structure FactSeal where
  family : String
  factKey : String
  selector : String
  factHash : String
deriving DecidableEq

/-- What a provenance mint writes: an accounting era with its seal, or a seal. -/
inductive Mint where
  | era (row : Row) (s : FactSeal)
  | fact (s : FactSeal)

abbrev RowSeals := Store → Row → Except OpenFault (List FactSeal)

abbrev StoreSeals := Store → Except OpenFault (List FactSeal)

/-- The functions of other modules that opening calls; `η` are the lease histories that
`_validate_v7_fact_inventory` answers. -/
structure Facts (η : Type) where
  validate : (pre_v10 capability_provenance : Bool) → Store → Except OpenFault η
  legacyEffectInventory : Store → Except OpenFault Unit
  legacyLeaseInventory : Store → Except OpenFault Unit
  disposalInventory : Store → Except OpenFault ℕ
  sealedFactHash : FactSeal → String
  checkpointIdentity : Cell → Except OpenFault String
  durableJson : Cell → Except OpenFault Json
  canonicalJson : Json → String
  executionPath : Json → Except OpenFault Json
  scopePath : Json → Except OpenFault Json
  originCommand : String → Except OpenFault String
  runIdForCommand : String → String
  legacyEffectSeal : Row → Except OpenFault String
  legacyLeaseBaseHash : Row → Except OpenFault String
  legacyLeaseInitialLifecycle : Row → Except OpenFault String
  sealCommandClaim : RowSeals
  sealCommandPhases : RowSeals
  sealResumePlanEras : StoreSeals
  sealDomainPlanEras : StoreSeals
  sealManifest : RowSeals
  sealRunWorld : RowSeals
  sealAttestation : RowSeals
  sealApproval : RowSeals
  sealComponentRegistration : RowSeals
  sealPromotion : RowSeals
  sealEffectPreparation : RowSeals
  sealEvent : RowSeals
  sealLegacyEffectOutcomes : StoreSeals
  sealMigratedResumeAttempts : StoreSeals
  sealCheckpoint : RowSeals
  sealChannelProvenance : StoreSeals
  sealChannelMessage : RowSeals
  sealChannelAck : RowSeals
  mintCapabilityProvenance : η → Store → Except OpenFault (List Mint)
  mintAttestationWitnesses : StoreSeals
  mintMeteringEra : Row → FactSeal

/-! ## Statements -/

def readVersion : Opener ℤ := query (fun s => .ok s.user_version)

def hasTable (name : String) : Opener Bool := query (fun s => .ok (s.hasTable name))

/-- `_has_legacy_runs_table` -/
def hasLegacyRunsTable : Opener Bool := hasTable "runs"

/-- `PRAGMA table_info` -/
def tableInfo (name : String) : Opener (List String) := query (fun s => .ok (s.columns name))

def rowsOf (name : String) (s : Store) : Except OpenFault (List Row) :=
  (s.rows? name).elim (.error (.operational ("no such table: " ++ name))) .ok

/-- `SELECT * FROM name` -/
def select (name : String) : Opener (List Row) := query (rowsOf name)

def createTables (schema : List (String × List String)) : Opener Unit :=
  each schema (fun p => execute (Store.createTable p.1 p.2))

def cell (r : Row) (column : String) : Except OpenFault Cell :=
  (r.get? column).elim (.error (.operational ("no such column: " ++ column))) .ok

/-- `_durable_text` -/
def durableText (fact : String) : Cell → Except OpenFault String
  | .text s => .ok s
  | _ => .error (.damaged (fact ++ " is not valid durable text"))

/-- `_durable_sequence` -/
def durableSequence (fact : String) : Cell → Except OpenFault ℤ
  | .int n => if n < 1 then .error (.damaged (fact ++ " is not a valid durable sequence")) else .ok n
  | _ => .error (.damaged (fact ++ " is not a valid durable sequence"))

def textOf (r : Row) (column fact : String) : Except OpenFault String := (cell r column).bind (durableText fact)

/-- The greatest sequence number, `0` of no row. -/
def sequenceMax (column damage : String) (rows : List Row) : Except OpenFault ℤ :=
  rows.foldlM (fun most r => (cell r column).bind (fun c =>
    (durableSequence column c).toOption.elim (.error (.damaged damage)) (fun n => .ok (max most n)))) 0

/-- `_channel_ack_sequence_max` -/
def channelAckSequenceMax : Opener ℤ :=
  query (fun s => (rowsOf "channel_acks" s).bind
    (sequenceMax "ack_seq" "channel acknowledgement sequence history is damaged"))

/-- `_channel_message_sequence_max` -/
def channelMessageSequenceMax : Opener ℤ :=
  query (fun s => (rowsOf "channel_messages" s).bind
    (sequenceMax "message_seq" "channel message sequence history is damaged"))

def faultProbe (_name : String) : Opener Unit := query (fun _ => .ok ())

/-- `_pre_v10_attestation_reader`, on entry. -/
def preV10Reader : Opener Unit :=
  query (fun s =>
    if 0 ≤ s.user_version ∧ s.user_version < 10 then .ok ()
    else .error (.damaged "pre-10 attestation reader requires a checked pre-10 schema"))

/-! ## Schema 7 -/

inductive Mode where
  | fresh
  | migrate
  | current
deriving DecidableEq

variable {η : Type}

/-- `durable_fact_seal`: the stored hash of the one seal with the key or the selector. -/
def durableFactSeal (wanted : FactSeal) (s : Store) : Except OpenFault (Option String) :=
  (rowsOf "durable_fact_seals" s).bind (fun rows => found (rows.filter (fun r =>
    r.get? "family" = some (.text wanted.family) ∧
      (r.get? "fact_key" = some (.text wanted.factKey) ∨ r.get? "selector" = some (.text wanted.selector)))))
where
  found : List Row → Except OpenFault (Option String)
    | [] => .ok none
    | [r] =>
      (textOf r "fact_key" "durable fact seal key").bind (fun key =>
        (textOf r "selector" "durable fact seal selector").bind (fun selector =>
          if key ≠ wanted.factKey then .error (.damaged "durable fact selector contradicts its key")
          else if selector ≠ wanted.selector then .error (.damaged "durable fact key contradicts its selector")
          else (textOf r "fact_hash" "durable fact seal hash").map some))
    | _ :: _ :: _ => .error (.damaged "durable fact has contradictory key/selector seals")

def sealColumns (wanted : FactSeal) (hash : String) : Row :=
  ⟨[("family", .text wanted.family), ("fact_key", .text wanted.factKey), ("selector", .text wanted.selector),
    ("fact_hash", .text hash)]⟩

/-- `store_durable_fact_seal` -/
def storeDurableFactSeal (facts : Facts η) (wanted : FactSeal) : Opener Unit := do
  let prior ← query (durableFactSeal wanted)
  prior.elim (execute (Store.insert "durable_fact_seals" (sealColumns wanted (facts.sealedFactHash wanted))))
    (fun hash => refuse (hash ≠ facts.sealedFactHash wanted) (.damaged "durable fact was sealed contradictorily"))

def sealFacts (facts : Facts η) (f : StoreSeals) : Opener Unit := do
  let seals ← query f
  each seals (storeDurableFactSeal facts)

/-- Seal the rows of a table one after another, by each of `fs` in turn. -/
def sealRows (facts : Facts η) (table : String) (order : List Row → List Row) (fs : List RowSeals) :
    Opener Unit := do
  let rows ← select table
  each (order rows) (fun r => each fs (fun f => sealFacts facts (fun s => f s r)))

def provenanceColumns : List String := ["singleton", "legacy_ack_through", "legacy_message_through"]

def replyIndex : String := "channel_reply_command_unique"

/-- The cutoff a migration gives is added to the cutoffs of an earlier climb. -/
def addMessageCutoff (mode : Mode) (legacyMessageThrough : Option ℤ) : Opener Unit := do
  refuse (mode = .current) (.damaged "schema 7 channel provenance cutoff is missing")
  execute (Store.addColumn "channel_provenance" "legacy_message_through" .null)
  legacyMessageThrough.elim (.fail (.damaged "schema 7 channel messages have no provenance cutoff"))
    (fun n => execute (Store.update "channel_provenance" (fun _ => true) [("legacy_message_through", .int n)]))

def isCutoff (legacy : Option ℤ) : Cell → Bool
  | .int n => decide (0 ≤ n) && legacy.all (fun m => decide (m = n))
  | _ => false

def cutoffsAgree (legacyAckThrough legacyMessageThrough : Option ℤ) (r : Row) : Bool :=
  decide (r.get? "singleton" = some (.int 1)) &&
    ((r.get? "legacy_ack_through").any (isCutoff legacyAckThrough) &&
      (r.get? "legacy_message_through").any (isCutoff legacyMessageThrough))

def insertCutoffs (mode : Mode) (legacyAckThrough legacyMessageThrough : Option ℤ) : Opener Unit := do
  refuse (mode = .current) (.damaged "schema 7 channel provenance cutoff is missing")
  let maximumAck ← channelAckSequenceMax
  let maximumMessage ← channelMessageSequenceMax
  refuse (legacyAckThrough = none ∧ maximumAck ≠ 0)
    (.damaged "schema 7 channel acknowledgements have no provenance cutoff")
  refuse (legacyMessageThrough = none ∧ maximumMessage ≠ 0)
    (.damaged "schema 7 channel messages have no provenance cutoff")
  execute (Store.insert "channel_provenance" ⟨[("singleton", .int 1),
    ("legacy_ack_through", .int (legacyAckThrough.getD 0)),
    ("legacy_message_through", .int (legacyMessageThrough.getD 0))]⟩)

def settleCutoffs (mode : Mode) (legacyAckThrough legacyMessageThrough : Option ℤ) : List Row → Opener Unit
  | [] => insertCutoffs mode legacyAckThrough legacyMessageThrough
  | [r] => refuse (cutoffsAgree legacyAckThrough legacyMessageThrough r = false)
      (.damaged "channel provenance cutoff is invalid")
  | _ :: _ :: _ => .fail (.damaged "channel provenance cutoff is invalid")

def isNull (r : Row) (column : String) : Bool := ((r.get? column).getD .null) = .null

/-- `CREATE UNIQUE INDEX`, refused where two rows share a command. -/
def createReplyIndex : Opener Unit := do
  let rows ← select "channel_messages"
  refuse (¬ ((rows.filterMap (fun r => r.get? "command_id")).filter (fun c => c ≠ .null)).Nodup)
    (.damaged "one channel command wrote more than one reply")
  execute (Store.createIndex replyIndex
    ⟨"channel_messages", ["command_id"], true, some "command_id IS NOT NULL"⟩)

def replyIndexValid (index : Option Index) : Bool :=
  index = some ⟨"channel_messages", ["command_id"], true, some "command_id IS NOT NULL"⟩

/-- `_ensure_v7_channel_schema` -/
def ensureV7ChannelSchema (mode : Mode) (legacyAckThrough legacyMessageThrough : Option ℤ) : Opener Unit := do
  let columns ← tableInfo "channel_messages"
  let ackColumns ← tableInfo "channel_acks"
  let hasProvenanceTable ← hasTable "channel_provenance"
  refuse (mode = .current ∧ (("command_id" ∉ columns ∨ "reply_provenance_version" ∉ columns) ∨
      "ack_provenance_version" ∉ ackColumns ∨ hasProvenanceTable = false))
    (.damaged "schema 7 channel provenance structure is missing")
  onlyIf ("command_id" ∉ columns) (execute (Store.addColumn "channel_messages" "command_id" .null))
  onlyIf ("reply_provenance_version" ∉ columns)
    (execute (Store.addColumn "channel_messages" "reply_provenance_version" .null))
  onlyIf ("ack_provenance_version" ∉ ackColumns)
    (execute (Store.addColumn "channel_acks" "ack_provenance_version" .null))
  execute (Store.createTable "channel_provenance" provenanceColumns)
  let retained ← tableInfo "channel_provenance"
  refuse (mode = .current ∧ ∃ c ∈ provenanceColumns, c ∉ retained)
    (.damaged "schema 7 channel provenance cutoff is missing")
  onlyIf ("legacy_message_through" ∉ retained) (addMessageCutoff mode legacyMessageThrough)
  let provenance ← select "channel_provenance"
  settleCutoffs mode legacyAckThrough legacyMessageThrough provenance
  onlyIf (mode = .migrate) (do
    let messages ← select "channel_messages"
    refuse (∃ r ∈ messages, isNull r "command_id" = false ∨ isNull r "reply_provenance_version" = false)
      (.damaged "schema 6 channel reply carries current provenance"))
  let index ← query (fun s => .ok (s.indexes.get? replyIndex))
  refuse (mode = .current ∧ index = none) (.damaged "schema 7 channel reply provenance index is missing")
  onlyIf (index = none) createReplyIndex
  let index ← query (fun s => .ok (s.indexes.get? replyIndex))
  refuse (replyIndexValid index = false) (.damaged "schema 7 channel reply provenance index is invalid")

def storeLegacySeal (table : String) (key : Row → Bool) (row : Row) (contradictory : String) : Opener Unit := do
  let prior ← query (fun s => (rowsOf table s).map (List.find? key))
  prior.elim (execute (Store.insert table row)) (fun r => refuse (r ≠ row) (.damaged contradictory))

def sealLegacyEffect (facts : Facts η) (row : Row) : Opener Unit := do
  refuse (isNull row "receipt_json" ≠ isNull row "receipted_at") (.damaged "legacy effect has a torn terminal fact")
  refuse (isNull row "outcome_run_id" = false ∨ isNull row "outcome_event_seq" = false)
    (.damaged "legacy effect carries current provenance")
  onlyIf (isNull row "receipt_json" = false) (do
    let s ← lift (facts.legacyEffectSeal row)
    let key ← lift (textOf row "idempotency_key" "legacy effect row identity")
    storeLegacySeal "legacy_effect_seals" (fun r => r.get? "idempotency_key" = some (.text key))
      ⟨[("idempotency_key", .text key), ("terminal_fact_hash", .text s)]⟩ "legacy effect seal is contradictory")

def requireCount (table : String) (count : ℕ) (damage : String) : Opener Unit := do
  let seals ← select table
  refuse (seals.length ≠ count) (.damaged damage)

def sealLegacyEffects (facts : Facts η) : Opener Unit := do
  let rows ← select "effects"
  each rows (sealLegacyEffect facts)
  requireCount "legacy_effect_seals" (rows.countP (fun r => !isNull r "receipt_json"))
    "legacy effect seal inventory has an orphan or ineligible primary fact"
  query facts.legacyEffectInventory

/-- `_ensure_v7_effect_schema` -/
def ensureV7EffectSchema (facts : Facts η) (mode : Mode) : Opener Unit := do
  let columns ← tableInfo "effects"
  let hadSealTable ← hasTable "legacy_effect_seals"
  if mode = .current then do
    refuse ("outcome_run_id" ∉ columns ∨ "outcome_event_seq" ∉ columns)
      (.damaged "schema 7 effect outcome provenance is missing")
    refuse (hadSealTable = false) (.damaged "schema 7 legacy effect seals are missing")
    query facts.legacyEffectInventory
  else do
    onlyIf ("outcome_run_id" ∉ columns) (execute (Store.addColumn "effects" "outcome_run_id" .null))
    onlyIf ("outcome_event_seq" ∉ columns) (execute (Store.addColumn "effects" "outcome_event_seq" .null))
    execute (Store.createTable "legacy_effect_seals" ["idempotency_key", "terminal_fact_hash"])
    onlyIf (mode = .migrate) (sealLegacyEffects facts)

def sealLegacyLease (facts : Facts η) (row : Row) : Opener Unit := do
  let leaseId ← lift (textOf row "lease_id" "legacy capability lease identity")
  let epoch ← lift ((cell row "acquisition_epoch").bind
    (durableSequence "legacy capability lease acquisition epoch"))
  let base ← lift (facts.legacyLeaseBaseHash row)
  let lifecycle ← lift (facts.legacyLeaseInitialLifecycle row)
  let runId ← lift (textOf row "run_id" "legacy capability lease run identity")
  storeLegacySeal "legacy_capability_lease_seals"
    (fun r => r.get? "lease_id" = some (.text leaseId) ∧ r.get? "acquisition_epoch" = some (.int epoch))
    ⟨[("lease_id", .text leaseId), ("acquisition_epoch", .int epoch), ("run_id", .text runId),
      ("base_hash", .text base), ("initial_lifecycle_json", .text lifecycle)]⟩
    "legacy capability lease seal is contradictory"

/-- `_ensure_v7_lease_schema` -/
def ensureV7LeaseSchema (facts : Facts η) (mode : Mode) : Opener Unit := do
  let hadSealTable ← hasTable "legacy_capability_lease_seals"
  refuse (mode = .current ∧ hadSealTable = false) (.damaged "schema 7 capability lease seals are missing")
  execute (Store.createTable "legacy_capability_lease_seals"
    ["lease_id", "acquisition_epoch", "run_id", "base_hash", "initial_lifecycle_json"])
  onlyIf (mode = .current) (query facts.legacyLeaseInventory)
  onlyIf (mode = .migrate) (do
    let rows ← select "capability_leases"
    each rows (sealLegacyLease facts)
    requireCount "legacy_capability_lease_seals" rows.length
      "legacy capability lease seal inventory has an orphan primary fact"
    query facts.legacyLeaseInventory)

/-- `runs LEFT JOIN run_origins`: each run with its origin, `NULL` of none. -/
def runsWithOrigins (s : Store) : Except OpenFault (List (Row × Cell)) :=
  (rowsOf "runs" s).bind (fun runs => (rowsOf "run_origins" s).map (fun origins => runs.map (fun r =>
    (r, ((origins.find? (fun o => o.get? "run_id" = r.get? "run_id")).bind (fun o => o.get? "origin_json")).getD
      .null))))

def claimOrigin (facts : Facts η) (mode : Mode) (p : Row × Cell) : Opener Unit := do
  let runId ← lift (textOf p.1 "run_id" "run identity")
  let marker ← lift (cell p.1 "creation_command_id")
  if p.2 = .null then
    refuse (marker ≠ .null) (.damaged "run names a creation command without an origin")
  else do
    let text ← lift (durableText "run origin" p.2)
    let command ← lift (facts.originCommand text)
    refuse (facts.runIdForCommand command ≠ runId) (.damaged "run origin has a non-derived creation command")
    if marker = .null then do
      refuse (mode ≠ .migrate) (.damaged "run origin has no creation command marker")
      execute (Store.update "runs" (fun r => r.get? "run_id" = some (.text runId))
        [("creation_command_id", .text command)])
    else do
      let named ← lift (durableText "run creation command identity" marker)
      refuse (named ≠ command) (.damaged "run origin contradicts its creation command marker")

/-- `_ensure_v7_run_schema` -/
def ensureV7RunSchema (facts : Facts η) (mode : Mode) : Opener Unit := do
  let columns ← tableInfo "runs"
  refuse ("creation_command_id" ∉ columns ∧ mode = .current)
    (.damaged "schema 7 runs have no creation-command provenance column")
  onlyIf ("creation_command_id" ∉ columns) (execute (Store.addColumn "runs" "creation_command_id" .null))
  let origins ← query runsWithOrigins
  each origins (claimOrigin facts mode)

/-- Seal in dependency order: later facts may prove their authority through the canonical
projection of an earlier durable world. -/
def sealRetainedFacts (facts : Facts η) : Opener Unit := do
  sealRows facts "commands" id [facts.sealCommandClaim, facts.sealCommandPhases]
  sealFacts facts facts.sealResumePlanEras
  sealFacts facts facts.sealDomainPlanEras
  sealRows facts "manifests" id [facts.sealManifest]
  sealRows facts "runs" id [facts.sealRunWorld]
  sealRows facts "attestations" id [facts.sealAttestation]
  sealRows facts "approvals" id [facts.sealApproval]
  sealRows facts "components" id [facts.sealComponentRegistration]
  sealRows facts "promotions" id [facts.sealPromotion]
  sealRows facts "effects" id [facts.sealEffectPreparation]
  sealRows facts "events" id [facts.sealEvent]
  sealFacts facts facts.sealLegacyEffectOutcomes
  sealFacts facts facts.sealMigratedResumeAttempts
  sealRows facts "checkpoints" id [facts.sealCheckpoint]
  -- The row-era cut is evidence for every migrated acknowledgement and reply, so it is first.
  sealFacts facts facts.sealChannelProvenance
  sealRows facts "channel_messages" (orderBy "message_seq") [facts.sealChannelMessage]
  sealRows facts "channel_acks" (orderBy "ack_seq") [facts.sealChannelAck]

/-- `_ensure_v7_fact_seal_schema` -/
def ensureV7FactSealSchema (facts : Facts η) (mode : Mode) : Opener Unit := do
  let hadSealTable ← hasTable "durable_fact_seals"
  refuse (mode = .current ∧ hadSealTable = false) (.damaged "schema 7 durable fact seals are missing")
  execute (Store.createTable "durable_fact_seals" ["family", "fact_key", "selector", "fact_hash"])
  onlyIf (mode = .migrate) (sealRetainedFacts facts)
  onlyIf (mode = .fresh) (sealFacts facts facts.sealChannelProvenance)

/-- `_require_current_v7_tables` -/
def requireCurrentV7Tables : Opener Unit :=
  query (fun s =>
    if ∀ name ∈ currentV7Tables, s.hasTable name = true then .ok ()
    else .error (.damaged "schema 7 durable tables are missing"))

/-- `_require_current_v8_tables` -/
def requireCurrentV8Tables : Opener Unit := do
  let present ← hasTable "capability_accounting_eras"
  refuse (present = false) (.damaged "schema 8 capability accounting eras table is missing")
  let columns ← tableInfo "capability_accounting_eras"
  refuse (¬ ((∀ c ∈ columns, c ∈ eraColumns) ∧ ∀ c ∈ eraColumns, c ∈ columns))
    (.damaged "schema 8 capability accounting eras table has changed columns")

/-- `ERA_DDL`, which does not expect the table. -/
def createEras : Opener Unit := do
  let present ← hasTable "capability_accounting_eras"
  refuse (present = true) (.operational "table capability_accounting_eras already exists")
  execute (Store.createTable "capability_accounting_eras" eraColumns)

/-- `_validate_v7_fact_inventory` -/
def validateV7FactInventory (facts : Facts η) (pre_v10 capability_provenance : Bool) : Opener η :=
  query (facts.validate pre_v10 capability_provenance)

def storeMint (facts : Facts η) : Mint → Opener Unit
  | .era row s => do
    execute (Store.insert "capability_accounting_eras" row)
    storeDurableFactSeal facts s
  | .fact s => storeDurableFactSeal facts s

/-! ## The rungs -/

/-- `_begin_rung`, the body and the commit: whether the rung was ours. Re-reading the version
under the lock is what makes a rung chosen from a stale reading do nothing. A body that fails
leaves the working copy behind. -/
def climb (r : Rung) (body : Opener Unit) : Opener Bool :=
  .begin_ r (do
    let version ← readVersion
    if version ≠ r.source then .rollback (.done false)
    else do
      body
      .commit (.done true))

def climbProbed (r : Rung) (probe : String) (body : Opener Unit) : Opener Unit := do
  let ours ← climb r body
  onlyIf (ours = true) (faultProbe probe)

def publish (version : ℤ) : Opener Unit := execute (Store.setVersion version)

def m1RunColumns : List (String × Cell) :=
  [("inputs_json", .text "\x7b\x7d"), ("owner_id", .null), ("owner_epoch", .int 0), ("owner_pid", .null),
    ("heartbeat_at", .null), ("lease_expires_at", .null), ("next_event_seq", .int 0), ("cancel_requested", .int 0)]

def isRow (columns : List String) (r r' : Row) : Bool := columns.all (fun c => r'.get? c = r.get? c)

def identifyCheckpoint (facts : Facts η) (r : Row) : Opener Unit := do
  let json ← lift (cell r "checkpoint_json")
  let identity ← lift (facts.checkpointIdentity json)
  execute (Store.update "checkpoints" (isRow ["run_id", "path_key"] r) [("identity", .text identity)])

def objectOf : Json → Option (List (String × Json))
  | .obj entries => some entries
  | _ => none

/-- The inputs that a `RunStarted` event carries, as a text, if they are an object. -/
def startedInputs (facts : Facts η) (payload : Cell) : Except OpenFault (Option String) :=
  if payload = .null then .ok none
  else (facts.durableJson payload).bind (fun json =>
    (objectOf json).elim (.error (.damaged "RunStarted event carries a non-object payload")) (fun entries =>
      .ok ((Dict.find entries.reverse "inputs").bind (fun inputs =>
        (objectOf inputs).map (fun _ => facts.canonicalJson inputs)))))

def firstStarted (runId : String) (s : Store) : Except OpenFault (Option Row) :=
  (rowsOf "events" s).map (fun rows => ((orderBy "seq" rows).filter (fun r =>
    r.get? "run_id" = some (.text runId) ∧ r.get? "kind" = some (.text "RunStarted"))).head?)

def eventsOf (runId : String) (s : Store) : Except OpenFault (List Row) :=
  (rowsOf "events" s).map (List.filter (fun r => r.get? "run_id" = some (.text runId)))

/-- Durable inputs and the event counter of one run, from its events. -/
def backfillRun (facts : Facts η) (r : Row) : Opener Unit := do
  let runId ← lift (textOf r "run_id" "M1 run identity")
  let event ← query (firstStarted runId)
  let inputs ← lift (event.elim (.ok none) (fun e => (cell e "payload").bind (startedInputs facts)))
  inputs.elim (.done ()) (fun text =>
    execute (Store.update "runs" (fun r => r.get? "run_id" = some (.text runId)) [("inputs_json", .text text)]))
  let maximum ← query (fun s => (eventsOf runId s).bind
    (sequenceMax "seq" "M1 run contains an invalid durable event sequence"))
  execute (Store.update "runs" (fun r => r.get? "run_id" = some (.text runId)) [("next_event_seq", .int maximum)])

/-- `_migrate_m1_to_m2` -/
def migrateM1ToM2 (facts : Facts η) : Opener Bool :=
  climb .m1ToM2 (do
    let runColumns ← tableInfo "runs"
    each m1RunColumns (fun p => onlyIf (p.1 ∉ runColumns) (execute (Store.addColumn "runs" p.1 p.2)))
    let checkpointColumns ← tableInfo "checkpoints"
    onlyIf ("identity" ∉ checkpointColumns) (do
      execute (Store.addColumn "checkpoints" "identity" (.text ""))
      let checkpoints ← select "checkpoints"
      each checkpoints (identifyCheckpoint facts))
    createTables baseSchema
    let runs ← select "runs"
    each runs (backfillRun facts)
    publish 2)

/-- `_migrate_m2_to_m3` -/
def migrateM2ToM3 : Opener Bool :=
  climb .m2ToM3 (do
    execute (Store.createTable "capability_leases" ["lease_id", "acquisition_epoch", "run_id", "binding_id",
      "scope_json", "lifetime", "state", "disposition", "resource_ref", "created_at", "updated_at"])
    publish 3)

def hasScope (json : Json) : Bool := (objectOf json).any (fun entries => (Dict.find entries "scope").isSome)

def rewriteLease (facts : Facts η) (r : Row) : Opener Unit := do
  let scope ← lift (cell r "scope_json")
  let payload ← lift (facts.durableJson scope)
  let path ← lift (if hasScope payload then facts.executionPath payload else facts.scopePath payload)
  let state ← lift (cell r "state")
  let disposition ← lift (cell r "disposition")
  execute (Store.update "capability_leases" (isRow ["lease_id", "acquisition_epoch"] r)
    [("scope_json", .text (facts.canonicalJson path)), ("lifetime", .text "invocation"),
      ("state", if state = .text "suspended" then .text "closed" else state),
      ("disposition", if disposition = .text "retained" then .text "released" else disposition)])

/-- `_migrate_m3_to_m4` -/
def migrateM3ToM4 (facts : Facts η) : Opener Bool :=
  climb .m3ToM4 (do
    let rows ← select "capability_leases"
    each rows (rewriteLease facts)
    publish 4)

/-- `_migrate_m4_to_m5` -/
def migrateM4ToM5 : Opener Bool :=
  climb .m4ToM5 (do
    createTables v5Schema
    publish 5)

/-- `_migrate_m5_to_m6` -/
def migrateM5ToM6 : Opener Bool :=
  climb .m5ToM6 (do
    createTables v6Schema
    publish 6)

/-- `_migrate_m6_to_m7` -/
def migrateM6ToM7 (facts : Facts η) : Opener Bool :=
  climb .m6ToM7 (do
    preV10Reader
    let legacyAckThrough ← channelAckSequenceMax
    let legacyMessageThrough ← channelMessageSequenceMax
    ensureV7ChannelSchema .migrate (some legacyAckThrough) (some legacyMessageThrough)
    let acks ← select "channel_acks"
    refuse (∃ r ∈ acks, isNull r "ack_provenance_version" = false ∧ r.get? "ack_provenance_version" ≠ some (.int 0))
      (.damaged "partly migrated schema-6 acknowledgements carry current provenance")
    execute (Store.update "channel_acks" (fun r => isNull r "ack_provenance_version")
      [("ack_provenance_version", .int 0)])
    ensureV7EffectSchema facts .migrate
    ensureV7RunSchema facts .migrate
    ensureV7FactSealSchema facts .migrate
    -- Lease classification reads its acquisition events through their seals.
    ensureV7LeaseSchema facts .migrate
    let _ ← validateV7FactInventory facts true false
    publish 7)

/-- `_migrate_m7_to_m8` -/
def migrateM7ToM8 (facts : Facts η) : Opener Unit :=
  climbProbed .m7ToM8 "capability_migration.after_commit" (do
    preV10Reader
    requireCurrentV7Tables
    let present ← hasTable "capability_accounting_eras"
    refuse (present = true) (.damaged "schema 7 already carries current capability accounting structure")
    let histories ← validateV7FactInventory facts true false
    createEras
    let mints ← query (facts.mintCapabilityProvenance histories)
    each mints (storeMint facts)
    faultProbe "capability_migration.before_version"
    let _ ← validateV7FactInventory facts true true
    publish 8)

def DISPOSAL_EVENT : String := "CapabilityDisposalRecorded"

def DISPOSAL_FAMILY : String := "capability_disposal"

def baselineDisposals (s : Store) : Except OpenFault ℕ :=
  (rowsOf "events" s).bind (fun events => (rowsOf "durable_fact_seals" s).map (fun seals =>
    events.countP (fun r => r.get? "kind" = some (.text DISPOSAL_EVENT)) +
      seals.countP (fun r => r.get? "family" = some (.text DISPOSAL_FAMILY))))

/-- `_migrate_m8_to_m9` -/
def migrateM8ToM9 (facts : Facts η) : Opener Unit :=
  climbProbed .m8ToM9 "capability_disposal_migration.after_commit" (do
    preV10Reader
    requireCurrentV7Tables
    requireCurrentV8Tables
    let _ ← validateV7FactInventory facts true true
    let disposals ← query baselineDisposals
    refuse (disposals ≠ 0) (.damaged "schema 8 baseline already contains administrative disposal")
    publish 9
    let disposed ← query facts.disposalInventory
    refuse (disposed ≠ 0) (.damaged "schema 9 migration did not establish empty disposal inventory")
    faultProbe "capability_disposal_migration.before_commit"
    let _ ← validateV7FactInventory facts true true)

/-- `_migrate_m9_to_m10` -/
def migrateM9ToM10 (facts : Facts η) : Opener Unit :=
  climbProbed .m9ToM10 "attestation_identity_migration.after_commit" (do
    requireCurrentV7Tables
    requireCurrentV8Tables
    preV10Reader
    let _ ← validateV7FactInventory facts true true
    sealFacts facts facts.mintAttestationWitnesses
    -- Compatibility ends before the strict validation: no current projection may infer
    -- historical authority.
    let _ ← validateV7FactInventory facts false true
    faultProbe "attestation_identity_migration.before_version"
    publish 10
    faultProbe "attestation_identity_migration.before_commit")

/-- `_migrate_m10_to_m11` -/
def migrateM10ToM11 (facts : Facts η) : Opener Unit :=
  climbProbed .m10ToM11 "metering_migration.after_commit" (do
    let _ ← validateV7FactInventory facts false true
    let runs ← select "runs"
    each runs (fun r => storeDurableFactSeal facts (facts.mintMeteringEra r))
    publish 11
    let _ ← validateV7FactInventory facts false true
    faultProbe "metering_migration.before_commit")

/-- `_create_current_schema`: tables and version are published by one transaction. -/
def createCurrentSchema (facts : Facts η) : Opener Bool :=
  .begin_ .create (do
    let version ← readVersion
    let hasRuns ← hasLegacyRunsTable
    if version ≠ 0 ∨ hasRuns = true then .rollback (.done false)
    else do
      createTables (baseSchema ++ v5Schema ++ v6Schema)
      ensureV7ChannelSchema .fresh none none
      ensureV7EffectSchema facts .fresh
      ensureV7LeaseSchema facts .fresh
      ensureV7RunSchema facts .fresh
      ensureV7FactSealSchema facts .fresh
      createEras
      let _ ← validateV7FactInventory facts false true
      publish SCHEMA_VERSION
      .commit (.done true))

/-! ## Opening -/

/-- Climb when the version chose this rung, and go on from the version after it. -/
def ascend {α : Type} (chosen : Prop) [Decidable chosen] (rung : Opener α) (after : Opener ℤ) (version : ℤ) :
    Opener ℤ :=
  if chosen then rung.bind (fun _ => after) else .done version

/-- Make sure of the current structure and validate what is stored, in one snapshot. -/
def validateCurrent (facts : Facts η) : Opener Unit := do
  .commit (createTables baseSchema)
  .commit (createTables v5Schema)
  .commit (createTables v6Schema)
  ensureV7ChannelSchema .current none none
  ensureV7EffectSchema facts .current
  ensureV7LeaseSchema facts .current
  ensureV7RunSchema facts .current
  ensureV7FactSealSchema facts .current
  .commit (.done ())
  let _ ← validateV7FactInventory facts false true

def climbFrom (facts : Facts η) (hasRuns : Bool) (version : ℤ) : Opener Unit := do
  let version ← ascend (version = 0 ∧ hasRuns = true) (migrateM1ToM2 facts) (.done 2) version
  let version ← ascend (version = 2) migrateM2ToM3 (.done 3) version
  let version ← ascend (version = 3) (migrateM3ToM4 facts) (.done 4) version
  let version ← ascend (version = 4) migrateM4ToM5 (.done 5) version
  let version ← ascend (version = 5) migrateM5ToM6 (.done 6) version
  let version ← ascend (version = 6) (migrateM6ToM7 facts) (.done 7) version
  let version ← ascend (version = 7) (migrateM7ToM8 facts) readVersion version
  let version ← ascend (version = 8) (migrateM8ToM9 facts) readVersion version
  let version ← ascend (version = 9) (migrateM9ToM10 facts) readVersion version
  let version ← ascend (version = 10) (migrateM10ToM11 facts) readVersion version
  onlyIf (version = SCHEMA_VERSION) (validateCurrent facts)

/-- After a creation: nothing more if it was ours, else what the winner left behind. -/
def afterCreation (facts : Facts η) (created : Bool) : Opener Unit :=
  if created = true then .done ()
  else do
    let version ← readVersion
    let hasRuns ← hasLegacyRunsTable
    climbFrom facts hasRuns version

def newerVersion (version : ℤ) : String :=
  "database schema version " ++ toString version ++ " is newer than this build understands (" ++
    toString SCHEMA_VERSION ++ "); refusing to touch it"

/-- `_migrate` -/
def migrate (facts : Facts η) : Opener Unit := do
  -- Refuse before any pragma writes: journal_mode is itself a durable change.
  let version ← readVersion
  refuse (SCHEMA_VERSION < version) (.damaged (newerVersion version))
  onlyIf (version = SCHEMA_VERSION) requireCurrentV7Tables
  onlyIf (8 ≤ version) requireCurrentV8Tables
  execute Store.setWal
  let hasRuns ← hasLegacyRunsTable
  if version = 0 ∧ hasRuns = false then (createCurrentSchema facts).bind (afterCreation facts)
  else climbFrom facts hasRuns version

end Constructicon.Schema
