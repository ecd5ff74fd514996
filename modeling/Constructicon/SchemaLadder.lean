import Constructicon.SchemaRungs

/-!
# Openers of one database

Every rung commits its changes with its version, or nothing. From version 4 on a rung keeps
every cell it finds, but for two provenance markers. The version an opener works with is
never ahead of the database, so an opener that gets to its end has climbed, or has seen
climbed, the whole ladder and has validated what is there.
-/

open Connection Connection.Script

namespace Constructicon.Schema

open Relational

variable {η : Type} {facts : Facts η}

def marks : Spares := fun name c _ _ =>
  name = "channel_acks" ∧ c = "ack_provenance_version" ∨ name = "runs" ∧ c = "creation_command_id"

def anything : Spares := fun _ _ _ _ => True

def nothing : Spares := fun _ _ _ _ => False

def spared : Rung → Spares
  | .m1ToM2 | .m2ToM3 | .m3ToM4 => anything
  | _ => marks

theorem composes_marks : Composes marks := fun _ _ _ _ _ h _ => h

/-! ## What a rung keeps -/

section Kept

variable (spares : Spares) (k : ℤ) (base : Store)

/-- The working copy still has what the rung found, under the old version. -/
def Within (w : Store) : Prop := w.user_version = k ∧ Keeps spares base w

structure Kept {α : Type} (p : Opener α) : Prop where
  leads : ∀ w, Within spares k base w → Leads (fun _ => Within spares k base) p w

variable {spares k base} {α β : Type}

theorem kept_done (a : α) : Kept spares k base (.done a : Opener α) := ⟨fun _ held => held⟩

theorem kept_bind {p : Opener α} {f : α → Opener β} (h : Kept spares k base p)
    (rest : ∀ a, Kept spares k base (f a)) : Kept spares k base (p >>= f) := by
  constructor
  intro w held
  apply leads_bind
  exact (h.leads w held).mono (fun a t ht => (rest a).leads t ht)

theorem kept_lift (x : Except OpenFault α) : Kept spares k base (lift x : Opener α) := by
  constructor
  intro w held
  exact leads_lift (fun _ _ => held)

theorem kept_query (f : Store → Except OpenFault α) : Kept spares k base (query f : Opener α) := by
  constructor
  intro w held
  exact leads_query (fun _ _ => held)

theorem kept_onlyIf {c : Prop} [Decidable c] {p : Opener Unit} (h : Kept spares k base p) :
    Kept spares k base (onlyIf c p) :=
  ⟨fun w held => leads_onlyIf held (fun _ => h.leads w held)⟩

theorem kept_refuse (c : Prop) [Decidable c] (e : OpenFault) : Kept spares k base (refuse c e : Opener Unit) :=
  ⟨fun _ held => leads_refuse (fun _ => held)⟩

theorem kept_each {items : List β} {p : β → Opener Unit} (h : ∀ b, Kept spares k base (p b)) :
    Kept spares k base (each items p) :=
  ⟨fun _ held => leads_each held (fun b _ => (h b).leads)⟩

theorem kept_execute {change : Store → Store} (h : ∀ w, Within spares k base w → Within spares k base (change w)) :
    Kept spares k base (execute change : Opener Unit) :=
  ⟨fun w held => leads_execute (h w held)⟩

theorem kept_createTable (name : String) (columns : List String) :
    Kept spares k base (execute (Store.createTable name columns) : Opener Unit) := by
  apply kept_execute
  intro w held
  exact ⟨by simpa using held.1, held.2.createTable name columns⟩

theorem kept_insert (name : String) (row : Row) :
    Kept spares k base (execute (Store.insert name row) : Opener Unit) := by
  apply kept_execute
  intro w held
  exact ⟨by simpa using held.1, held.2.insert name row⟩

theorem kept_addColumn (name column : String) (default : Cell) :
    Kept spares k base (execute (Store.addColumn name column default) : Opener Unit) := by
  apply kept_execute
  intro w held
  exact ⟨by simpa using held.1, held.2.addColumn name column default⟩

theorem kept_update (composes : Composes spares) (name : String) (choose : Row → Bool) (column : String) (v : Cell)
    (free : ∀ x y, spares name column x y) :
    Kept spares k base (execute (Store.update name choose [(column, v)]) : Opener Unit) := by
  apply kept_execute
  intro w held
  exact ⟨by simpa using held.1, held.2.update composes name choose column v (.inl (fun _ _ => free _ _))⟩

theorem kept_createTables (schema : List (String × List String)) : Kept spares k base (createTables schema) :=
  kept_each (fun p => kept_createTable p.1 p.2)

theorem kept_storeDurableFactSeal (wanted : FactSeal) : Kept spares k base (storeDurableFactSeal facts wanted) := by
  apply kept_bind (kept_query _)
  intro prior
  cases prior with
  | none => exact kept_insert _ _
  | some hash => exact kept_refuse _ _

theorem kept_sealFacts (f : StoreSeals) : Kept spares k base (sealFacts facts f) :=
  kept_bind (kept_query f) (fun _ => kept_each kept_storeDurableFactSeal)

theorem kept_sealRows (table : String) (order : List Row → List Row) (fs : List RowSeals) :
    Kept spares k base (sealRows facts table order fs) :=
  kept_bind (kept_query _) (fun _ => kept_each (fun _ => kept_each (fun _ => kept_sealFacts _)))

theorem kept_storeLegacySeal (table : String) (key : Row → Bool) (row : Row) (contradictory : String) :
    Kept spares k base (storeLegacySeal table key row contradictory) := by
  apply kept_bind (kept_query _)
  intro prior
  cases prior with
  | none => exact kept_insert _ _
  | some r => exact kept_refuse _ _

theorem kept_requireCount (table : String) (count : ℕ) (damage : String) :
    Kept spares k base (requireCount table count damage) :=
  kept_bind (kept_query _) (fun _ => kept_refuse _ _)

end Kept

/-! ## The climb to schema 7 -/

section Ensure

variable {k : ℤ} {base : Store}

theorem kept_insertCutoffs {spares : Spares} (mode : Mode) (ack message : Option ℤ) :
    Kept spares k base (insertCutoffs mode ack message) := by
  apply kept_bind (kept_refuse _ _)
  intro _
  apply kept_bind (kept_query _)
  intro _
  apply kept_bind (kept_query _)
  intro _
  apply kept_bind (kept_refuse _ _)
  intro _
  apply kept_bind (kept_refuse _ _)
  intro _
  exact kept_insert _ _

theorem kept_settleCutoffs {spares : Spares} (mode : Mode) (ack message : Option ℤ) (rows : List Row) :
    Kept spares k base (settleCutoffs mode ack message rows) := by
  match rows with
  | [] => exact kept_insertCutoffs mode ack message
  | [r] => exact kept_refuse _ _
  | _ :: _ :: _ => exact ⟨fun _ _ => trivial⟩

theorem leads_addMessageCutoff {spares : Spares} (composes : Composes spares) (mode : Mode) (message : Option ℤ)
    {w : Store} (held : Within spares k base w) (lacks : "legacy_message_through" ∉ w.columns "channel_provenance") :
    Leads (fun _ => Within spares k base) (addMessageCutoff mode message) w := by
  have absent : ∀ x, base.tables.get? "channel_provenance" = some x → "legacy_message_through" ∉ x.columns := by
    intro x hx has
    obtain ⟨y, hy, keeps⟩ := held.2 _ x hx
    apply lacks
    rw [Store.columns, hy]
    exact keeps.columns _ has
  apply leads_refuse_bind
  intro _
  apply leads_bind
  apply leads_execute
  have added : Within spares k base (w.addColumn "channel_provenance" "legacy_message_through" .null) :=
    ⟨by simpa using held.1, held.2.addColumn _ _ _⟩
  cases message with
  | none => trivial
  | some n =>
    apply leads_execute
    exact ⟨by simpa using added.1, added.2.update composes _ _ _ _ (.inr absent)⟩

theorem kept_createReplyIndex {spares : Spares} : Kept spares k base createReplyIndex := by
  apply kept_bind (kept_query _)
  intro _
  apply kept_bind (kept_refuse _ _)
  intro _
  apply kept_execute
  intro w held
  exact ⟨held.1, held.2.sameTables rfl⟩

theorem kept_ensureV7ChannelSchema {spares : Spares} (composes : Composes spares) (mode : Mode)
    (ack message : Option ℤ) : Kept spares k base (ensureV7ChannelSchema mode ack message) := by
  apply kept_bind (kept_query _)
  intro columns
  apply kept_bind (kept_query _)
  intro ackColumns
  apply kept_bind (kept_query _)
  intro hasProvenanceTable
  apply kept_bind (kept_refuse _ _)
  intro _
  apply kept_bind (kept_onlyIf (kept_addColumn _ _ _))
  intro _
  apply kept_bind (kept_onlyIf (kept_addColumn _ _ _))
  intro _
  apply kept_bind (kept_onlyIf (kept_addColumn _ _ _))
  intro _
  apply kept_bind (kept_createTable _ _)
  intro _
  constructor
  intro w held
  -- the columns are read in the state in which the cutoff may be added
  apply leads_bind
  apply leads_query
  intro retained read
  cases read
  apply leads_refuse_bind
  intro _
  apply leads_bind
  refine (leads_onlyIf held (leads_addMessageCutoff composes mode message held)).mono ?_
  intro _ t held
  refine (kept_bind (kept_query _) (fun provenance => ?_)).leads t held
  apply kept_bind (kept_settleCutoffs _ _ _ _)
  intro _
  apply kept_bind (kept_onlyIf (kept_bind (kept_query _) (fun _ => kept_refuse _ _)))
  intro _
  apply kept_bind (kept_query _)
  intro index
  apply kept_bind (kept_refuse _ _)
  intro _
  apply kept_bind (kept_onlyIf kept_createReplyIndex)
  intro _
  exact kept_bind (kept_query _) (fun _ => kept_refuse _ _)

theorem kept_sealLegacyEffect {spares : Spares} (row : Row) : Kept spares k base (sealLegacyEffect facts row) := by
  apply kept_bind (kept_refuse _ _)
  intro _
  apply kept_bind (kept_refuse _ _)
  intro _
  apply kept_onlyIf
  apply kept_bind (kept_lift _)
  intro _
  apply kept_bind (kept_lift _)
  intro _
  exact kept_storeLegacySeal _ _ _ _

theorem kept_sealLegacyEffects {spares : Spares} : Kept spares k base (sealLegacyEffects facts) := by
  apply kept_bind (kept_query _)
  intro rows
  apply kept_bind (kept_each kept_sealLegacyEffect)
  intro _
  exact kept_bind (kept_requireCount _ _ _) (fun _ => kept_query _)

theorem kept_ensureV7EffectSchema {spares : Spares} (mode : Mode) :
    Kept spares k base (ensureV7EffectSchema facts mode) := by
  apply kept_bind (kept_query _)
  intro columns
  apply kept_bind (kept_query _)
  intro hadSealTable
  split_ifs
  · apply kept_bind (kept_refuse _ _)
    intro _
    exact kept_bind (kept_refuse _ _) (fun _ => kept_query _)
  · apply kept_bind (kept_onlyIf (kept_addColumn _ _ _))
    intro _
    apply kept_bind (kept_onlyIf (kept_addColumn _ _ _))
    intro _
    exact kept_bind (kept_createTable _ _) (fun _ => kept_onlyIf kept_sealLegacyEffects)

theorem kept_sealLegacyLease {spares : Spares} (row : Row) : Kept spares k base (sealLegacyLease facts row) := by
  apply kept_bind (kept_lift _)
  intro _
  apply kept_bind (kept_lift _)
  intro _
  apply kept_bind (kept_lift _)
  intro _
  apply kept_bind (kept_lift _)
  intro _
  apply kept_bind (kept_lift _)
  intro _
  exact kept_storeLegacySeal _ _ _ _

theorem kept_ensureV7LeaseSchema {spares : Spares} (mode : Mode) :
    Kept spares k base (ensureV7LeaseSchema facts mode) := by
  apply kept_bind (kept_query _)
  intro hadSealTable
  apply kept_bind (kept_refuse _ _)
  intro _
  apply kept_bind (kept_createTable _ _)
  intro _
  apply kept_bind (kept_onlyIf (kept_query _))
  intro _
  apply kept_onlyIf
  apply kept_bind (kept_query _)
  intro rows
  apply kept_bind (kept_each kept_sealLegacyLease)
  intro _
  exact kept_bind (kept_requireCount _ _ _) (fun _ => kept_query _)

theorem kept_claimOrigin (mode : Mode) (p : Row × Cell) : Kept marks k base (claimOrigin facts mode p) := by
  apply kept_bind (kept_lift _)
  intro runId
  apply kept_bind (kept_lift _)
  intro marker
  split_ifs
  · exact kept_refuse _ _
  · apply kept_bind (kept_lift _)
    intro text
    apply kept_bind (kept_lift _)
    intro command
    apply kept_bind (kept_refuse _ _)
    intro _
    exact kept_bind (kept_refuse _ _) (fun _ =>
      kept_update composes_marks _ _ _ _ (fun _ _ => .inr ⟨rfl, rfl⟩))
  · apply kept_bind (kept_lift _)
    intro text
    apply kept_bind (kept_lift _)
    intro command
    apply kept_bind (kept_refuse _ _)
    intro _
    exact kept_bind (kept_lift _) (fun _ => kept_refuse _ _)

theorem kept_ensureV7RunSchema (mode : Mode) : Kept marks k base (ensureV7RunSchema facts mode) := by
  apply kept_bind (kept_query _)
  intro columns
  apply kept_bind (kept_refuse _ _)
  intro _
  apply kept_bind (kept_onlyIf (kept_addColumn _ _ _))
  intro _
  exact kept_bind (kept_query _) (fun _ => kept_each (kept_claimOrigin mode))

theorem kept_sealRetainedFacts {spares : Spares} : Kept spares k base (sealRetainedFacts facts) := by
  have rows : ∀ table order fs, Kept spares k base (sealRows facts table order fs) := kept_sealRows
  have whole : ∀ f, Kept spares k base (sealFacts facts f) := kept_sealFacts
  exact kept_bind (rows _ _ _) fun _ => kept_bind (whole _) fun _ => kept_bind (whole _) fun _ =>
    kept_bind (rows _ _ _) fun _ => kept_bind (rows _ _ _) fun _ => kept_bind (rows _ _ _) fun _ =>
    kept_bind (rows _ _ _) fun _ => kept_bind (rows _ _ _) fun _ => kept_bind (rows _ _ _) fun _ =>
    kept_bind (rows _ _ _) fun _ => kept_bind (rows _ _ _) fun _ => kept_bind (whole _) fun _ =>
    kept_bind (whole _) fun _ => kept_bind (rows _ _ _) fun _ => kept_bind (whole _) fun _ =>
    kept_bind (rows _ _ _) fun _ => rows _ _ _

theorem kept_ensureV7FactSealSchema {spares : Spares} (mode : Mode) :
    Kept spares k base (ensureV7FactSealSchema facts mode) := by
  apply kept_bind (kept_query _)
  intro hadSealTable
  apply kept_bind (kept_refuse _ _)
  intro _
  apply kept_bind (kept_createTable _ _)
  intro _
  exact kept_bind (kept_onlyIf kept_sealRetainedFacts) (fun _ => kept_onlyIf (kept_sealFacts _))

theorem kept_validate {spares : Spares} (pre_v10 capability_provenance : Bool) :
    Kept spares k base (validateV7FactInventory facts pre_v10 capability_provenance) := kept_query _

theorem kept_requireCurrentV8Tables {spares : Spares} : Kept spares k base requireCurrentV8Tables := by
  apply kept_bind (kept_query _)
  intro _
  apply kept_bind (kept_refuse _ _)
  intro _
  exact kept_bind (kept_query _) (fun _ => kept_refuse _ _)

theorem kept_createEras {spares : Spares} : Kept spares k base createEras := by
  apply kept_bind (kept_query _)
  intro _
  exact kept_bind (kept_refuse _ _) (fun _ => kept_createTable _ _)

theorem kept_storeMint {spares : Spares} (m : Mint) : Kept spares k base (storeMint facts m) := by
  cases m with
  | era row s => exact kept_bind (kept_insert _ _) (fun _ => kept_storeDurableFactSeal _)
  | fact s => exact kept_storeDurableFactSeal _

end Ensure

/-! ## The bodies of the rungs -/

section Bodies

/-- From what the rung found the script gets to the version it publishes. -/
structure Rises (r : Rung) (base : Store) (p : Opener Unit) : Prop where
  leads : ∀ w, Within (spared r) r.source base w → Leads (fun _ => Within (spared r) r.target base) p w

variable {r : Rung} {base : Store} {α : Type}

theorem rises_bind {p : Opener α} {f : α → Opener Unit} (h : Kept (spared r) r.source base p)
    (rest : ∀ a, Rises r base (f a)) : Rises r base (p >>= f) := by
  constructor
  intro w held
  apply leads_bind
  exact (h.leads w held).mono (fun a t ht => (rest a).leads t ht)

theorem rises_publish {version : ℤ} (target : version = r.target) : Rises r base (publish version) := by
  constructor
  intro w held
  exact leads_execute ⟨target, held.2.sameTables rfl⟩

theorem rises_then {p : Opener Unit} {f : Unit → Opener Unit} (h : Rises r base p)
    (rest : Kept (spared r) r.target base (f ())) : Rises r base (p >>= f) := by
  constructor
  intro w held
  apply leads_bind
  exact (h.leads w held).mono (fun _ t ht => rest.leads t ht)

theorem kept_updateFreely {k : ℤ} (name : String) (choose : Row → Bool) (assign : List (String × Cell)) :
    Kept anything k base (execute (Store.update name choose assign) : Opener Unit) := by
  apply kept_execute
  intro w held
  exact ⟨by simpa using held.1, held.2.updateFreely (fun _ _ _ => trivial) choose assign⟩

theorem kept_backfillRun {k : ℤ} (row : Row) : Kept anything k base (backfillRun facts row) := by
  apply kept_bind (kept_lift _)
  intro runId
  apply kept_bind (kept_query _)
  intro event
  apply kept_bind (kept_lift _)
  intro inputs
  have recorded : Kept anything k base (inputs.elim (.done ()) (fun text =>
      (execute (Store.update "runs" (fun r => r.get? "run_id" = some (.text runId)) [("inputs_json", .text text)]) :
        Opener Unit))) := by
    cases inputs with
    | none => exact kept_done ()
    | some text => exact kept_updateFreely _ _ _
  apply kept_bind recorded
  intro _
  exact kept_bind (kept_query _) (fun _ => kept_updateFreely _ _ _)

theorem kept_identifyCheckpoint {k : ℤ} (row : Row) : Kept anything k base (identifyCheckpoint facts row) :=
  kept_bind (kept_lift _) (fun _ => kept_bind (kept_lift _) (fun _ => kept_updateFreely _ _ _))

theorem kept_rewriteLease {k : ℤ} (row : Row) : Kept anything k base (rewriteLease facts row) := by
  apply kept_bind (kept_lift _)
  intro scope
  apply kept_bind (kept_lift _)
  intro payload
  apply kept_bind (kept_lift _)
  intro path
  exact kept_bind (kept_lift _) (fun _ => kept_bind (kept_lift _) (fun _ => kept_updateFreely _ _ _))

end Bodies

/-! ## What an opener may do to the database -/

/-- A commit of a rung publishes its version and keeps what it has to keep; any other
statement keeps the version and every cell. -/
def Allowed : Option Rung → Store → Store → Prop
  | some r, s, t => s.user_version = r.source ∧ t.user_version = r.target ∧ Keeps (spared r) s t
  | none, s, t => t.user_version = s.user_version ∧ Keeps nothing s t

/-- How the database moves: up the ladder, which has no version 1, or not at all. -/
def Onward (s t : Store) : Prop :=
  (s.user_version = t.user_version ∨
    0 ≤ s.user_version ∧ s.user_version ≠ 1 ∧ s.user_version < t.user_version ∧ t.user_version ≠ 1 ∧
      t.user_version ≤ SCHEMA_VERSION) ∧
    (s.hasTable "runs" = true → t.hasTable "runs" = true)

/-- The inventory was found valid, when an empty store is created before its version is set. -/
def Validated (facts : Facts η) (s : Store) : Prop :=
  (∃ h, facts.validate false true s = .ok h) ∨ ∃ h, facts.validate false true (s.setVersion 0) = .ok h

/-- Where an opener returns: at the current version, unless the database is at a version no
rung starts from. -/
def Returned (facts : Facts η) (_ : Unit) (s : Store) : Prop :=
  s.user_version = SCHEMA_VERSION ∧ Validated facts s ∨ s.user_version = 1 ∨ s.user_version < 0

theorem onward_refl (s : Store) : Onward s s := ⟨.inl rfl, id⟩

theorem onward_trans ⦃s t u : Store⦄ (h : Onward s t) (h' : Onward t u) : Onward s u := by
  obtain ⟨up, runs⟩ := h
  obtain ⟨up', runs'⟩ := h'
  refine ⟨?_, fun has => runs' (runs has)⟩
  omega

theorem Rung.climbs (r : Rung) : 0 ≤ r.source ∧ r.source ≠ 1 ∧ r.source < r.target ∧ r.target ≠ 1 ∧
    r.target ≤ SCHEMA_VERSION := by
  cases r <;> decide

theorem onward_of_allowed (l : Option Rung) (s t : Store) (h : Allowed l s t) : Onward s t := by
  cases l with
  | none => exact ⟨.inl h.1.symm, h.2.hasTable⟩
  | some r =>
    obtain ⟨source, target, keeps⟩ := h
    refine ⟨.inr ?_, keeps.hasTable⟩
    rw [source, target]
    exact r.climbs

structure Below (v : ℤ) (d : Store) : Prop where
  behind : v ≤ d.user_version
  known : d.user_version ≤ SCHEMA_VERSION
  stuck : v = 1 ∨ v < 0 → d.user_version = v
  skips : v = 0 → d.user_version ≠ 1

theorem Below.later {v : ℤ} {d d' : Store} (below : Below v d) (on : Onward d d') : Below v d' := by
  obtain ⟨behind, known, stuck, skips⟩ := below
  obtain ⟨up, -⟩ := on
  exact ⟨by omega, by omega, fun h => by have := stuck h; omega, fun h => by have := skips h; omega⟩

theorem below_self {d : Store} (known : d.user_version ≤ SCHEMA_VERSION) : Below d.user_version d :=
  ⟨le_refl _, known, fun _ => rfl, fun h => by omega⟩

theorem Onward.le {d d' : Store} (on : Onward d d') : d.user_version ≤ d'.user_version := by
  obtain ⟨up, -⟩ := on
  omega

structure Safe (facts : Facts η) (p : Opener Unit) (work : Option (Rung × Store)) (d : Store) : Prop where
  meets : Meets Allowed Onward (Returned facts) p work d

/-- From version `v` on, the script leaves the database past version `v`. -/
def Clears (facts : Facts η) (v : ℤ) {α : Type} (p : Opener α) : Prop :=
  ∀ (f : α → Opener Unit) (d : Store), v ≤ d.user_version →
    (∀ a d', Onward d d' → v < d'.user_version → Safe facts (f a) none d') →
    Safe facts (p.bind f) none d

theorem clears_climb {r : Rung} {body : Opener Unit} (h : ∀ base, Rises r base body) :
    Clears facts r.source (climb r body) := by
  intro f d at_ rest
  constructor
  intro d' on
  have still := on.le
  change Meets Allowed Onward (Returned facts) (Script.bind (if d'.user_version ≠ r.source then _ else _) f)
    (some (r, d')) d'
  split_ifs with other
  · exact (rest false d' on (lt_of_le_of_ne (at_.trans still) (Ne.symm other))).meets
  · have source : d'.user_version = r.source := not_not.mp other
    rw [bind_eq, bind_assoc]
    apply meets_of_leads
    apply ((h d').leads d' ⟨source, .refl d'⟩).mono
    intro _ w held
    have may : Allowed (some r) d' w := ⟨source, held.1, held.2⟩
    refine ⟨may, (rest true w (onward_trans on (onward_of_allowed _ _ _ may)) ?_).meets⟩
    rw [held.1]
    exact r.climbs.2.2.1

theorem safe_calm {α : Type} {p : Opener α} {f : α → Opener Unit} {d : Store} (calm : Calm Allowed p)
    (rest : ∀ a d', Onward d d' → Safe facts (f a) none d') : Safe facts (p.bind f) none d :=
  ⟨meets_of_calm onward_trans onward_refl (onward_of_allowed none _ _) calm (fun a d' on => (rest a d' on).meets)⟩

theorem clears_climbProbed {r : Rung} {body : Opener Unit} (probe : String) (h : ∀ base, Rises r base body) :
    Clears facts r.source (climbProbed r probe body) := by
  intro f d at_ rest
  change Safe facts (Script.bind (Script.bind (climb r body) _) f) none d
  rw [bind_assoc]
  apply clears_climb h _ _ at_
  intro ours d' on past
  apply safe_calm (calm_onlyIf (fun _ => calm_query _))
  intro _ t later
  exact rest _ t (onward_trans on later) (past.trans_le later.le)

/-! ## Each rung -/

theorem clears_m1ToM2 : Clears facts 0 (migrateM1ToM2 facts) := by
  apply clears_climb (r := .m1ToM2)
  intro base
  apply rises_bind (kept_query _)
  intro runColumns
  apply rises_bind (kept_each (fun p => kept_onlyIf (kept_addColumn _ _ _)))
  intro _
  apply rises_bind (kept_query _)
  intro checkpointColumns
  apply rises_bind
  · apply kept_onlyIf
    apply kept_bind (kept_addColumn _ _ _)
    intro _
    exact kept_bind (kept_query _) (fun _ => kept_each kept_identifyCheckpoint)
  intro _
  apply rises_bind (kept_createTables _)
  intro _
  apply rises_bind (kept_query _)
  intro runs
  exact rises_bind (kept_each kept_backfillRun) (fun _ => rises_publish rfl)

theorem clears_m2ToM3 : Clears facts 2 migrateM2ToM3 := by
  apply clears_climb (r := .m2ToM3)
  intro base
  exact rises_bind (kept_createTable _ _) (fun _ => rises_publish rfl)

theorem clears_m3ToM4 : Clears facts 3 (migrateM3ToM4 facts) := by
  apply clears_climb (r := .m3ToM4)
  intro base
  apply rises_bind (kept_query _)
  intro rows
  exact rises_bind (kept_each kept_rewriteLease) (fun _ => rises_publish rfl)

theorem clears_m4ToM5 : Clears facts 4 migrateM4ToM5 := by
  apply clears_climb (r := .m4ToM5)
  intro base
  exact rises_bind (kept_createTables _) (fun _ => rises_publish rfl)

theorem clears_m5ToM6 : Clears facts 5 migrateM5ToM6 := by
  apply clears_climb (r := .m5ToM6)
  intro base
  exact rises_bind (kept_createTables _) (fun _ => rises_publish rfl)

theorem clears_m6ToM7 : Clears facts 6 (migrateM6ToM7 facts) := by
  apply clears_climb (r := .m6ToM7)
  intro base
  apply rises_bind (kept_query _)
  intro _
  apply rises_bind (kept_query _)
  intro legacyAckThrough
  apply rises_bind (kept_query _)
  intro legacyMessageThrough
  apply rises_bind (r := .m6ToM7) (kept_ensureV7ChannelSchema composes_marks _ _ _)
  intro _
  apply rises_bind (kept_query _)
  intro acks
  apply rises_bind (kept_refuse _ _)
  intro _
  apply rises_bind (r := .m6ToM7) (kept_update composes_marks _ _ _ _ (fun _ _ => .inl ⟨rfl, rfl⟩))
  intro _
  apply rises_bind (kept_ensureV7EffectSchema _)
  intro _
  apply rises_bind (r := .m6ToM7) (kept_ensureV7RunSchema _)
  intro _
  apply rises_bind (kept_ensureV7FactSealSchema _)
  intro _
  apply rises_bind (kept_ensureV7LeaseSchema _)
  intro _
  exact rises_bind (kept_validate _ _) (fun _ => rises_publish rfl)

theorem clears_m7ToM8 : Clears facts 7 (migrateM7ToM8 facts) := by
  apply clears_climbProbed (r := .m7ToM8)
  intro base
  apply rises_bind (kept_query _)
  intro _
  apply rises_bind (kept_query _)
  intro _
  apply rises_bind (kept_query _)
  intro present
  apply rises_bind (kept_refuse _ _)
  intro _
  apply rises_bind (kept_validate _ _)
  intro histories
  apply rises_bind kept_createEras
  intro _
  apply rises_bind (kept_query _)
  intro mints
  apply rises_bind (kept_each kept_storeMint)
  intro _
  apply rises_bind (kept_query _)
  intro _
  exact rises_bind (kept_validate _ _) (fun _ => rises_publish rfl)

theorem clears_m8ToM9 : Clears facts 8 (migrateM8ToM9 facts) := by
  apply clears_climbProbed (r := .m8ToM9)
  intro base
  apply rises_bind (kept_query _)
  intro _
  apply rises_bind (kept_query _)
  intro _
  apply rises_bind kept_requireCurrentV8Tables
  intro _
  apply rises_bind (kept_validate _ _)
  intro _
  apply rises_bind (kept_query _)
  intro disposals
  apply rises_bind (kept_refuse _ _)
  intro _
  apply rises_then (rises_publish rfl)
  apply kept_bind (kept_query _)
  intro disposed
  apply kept_bind (kept_refuse _ _)
  intro _
  apply kept_bind (kept_query _)
  intro _
  exact kept_bind (kept_validate _ _) (fun _ => kept_done ())

theorem clears_m9ToM10 : Clears facts 9 (migrateM9ToM10 facts) := by
  apply clears_climbProbed (r := .m9ToM10)
  intro base
  apply rises_bind (kept_query _)
  intro _
  apply rises_bind kept_requireCurrentV8Tables
  intro _
  apply rises_bind (kept_query _)
  intro _
  apply rises_bind (kept_validate _ _)
  intro _
  apply rises_bind (kept_sealFacts _)
  intro _
  apply rises_bind (kept_validate _ _)
  intro _
  apply rises_bind (kept_query _)
  intro _
  exact rises_then (rises_publish rfl) (kept_query _)

theorem clears_m10ToM11 : Clears facts 10 (migrateM10ToM11 facts) := by
  apply clears_climbProbed (r := .m10ToM11)
  intro base
  apply rises_bind (kept_validate _ _)
  intro _
  apply rises_bind (kept_query _)
  intro runs
  apply rises_bind (kept_each (fun _ => kept_storeDurableFactSeal _))
  intro _
  apply rises_then (rises_publish rfl)
  exact kept_bind (kept_validate _ _) (fun _ => kept_query _)

theorem safe_kept {spares : Spares} {k : ℤ} {base w d : Store} {l : Rung} {α : Type} {p : Opener α}
    {f : α → Opener Unit} (kept : Kept spares k base p) (held : Within spares k base w)
    (rest : ∀ a t, Within spares k base t → Safe facts (f a) (some (l, t)) d) :
    Safe facts (p.bind f) (some (l, w)) d :=
  ⟨meets_of_leads ((kept.leads w held).mono (fun a t ht => (rest a t ht).meets))⟩

theorem safe_create {f : Bool → Opener Unit} {d : Store}
    (taken : ∀ d', Onward d d' → d'.user_version ≠ 0 ∨ d'.hasTable "runs" = true → Safe facts (f false) none d')
    (ours : ∀ d', d'.user_version = SCHEMA_VERSION → Validated facts d' → Safe facts (f true) none d') :
    Safe facts ((createCurrentSchema facts).bind f) none d := by
  constructor
  intro d' on
  change Meets Allowed Onward (Returned facts)
    (Script.bind (if d'.user_version ≠ 0 ∨ d'.hasTable "runs" = true then _ else _) f) (some (.create, d')) d'
  split_ifs with there
  · exact (taken d' on there).meets
  · have source : d'.user_version = 0 := by
      by_contra other
      exact there (.inl other)
    simp only [bind_eq, bind_assoc]
    refine Safe.meets ?_
    apply safe_kept (kept_createTables _) (⟨source, .refl d'⟩ : Within marks 0 d' d')
    intro _ t held
    apply safe_kept (kept_ensureV7ChannelSchema composes_marks _ _ _) held
    intro _ t held
    apply safe_kept (kept_ensureV7EffectSchema _) held
    intro _ t held
    apply safe_kept (kept_ensureV7LeaseSchema _) held
    intro _ t held
    apply safe_kept (kept_ensureV7RunSchema _) held
    intro _ t held
    apply safe_kept (kept_ensureV7FactSealSchema _) held
    intro _ t held
    apply safe_kept kept_createEras held
    intro _ t held
    constructor
    apply meets_of_leads
    apply leads_query
    intro histories valid
    apply meets_of_leads
    apply leads_execute
    refine ⟨⟨source, rfl, held.2.sameTables rfl⟩, (ours _ rfl (.inr ⟨histories, ?_⟩)).meets⟩
    rw [← valid, show (t.setVersion SCHEMA_VERSION).setVersion 0 = t from by rw [← held.1]; rfl]

/-! ## The last pass -/

theorem calm_createTable (name : String) (columns : List String) :
    Calm Allowed (execute (Store.createTable name columns) : Opener Unit) :=
  calm_execute (fun s => ⟨by simp, (Keeps.refl s).createTable name columns⟩)

theorem calm_createTables (schema : List (String × List String)) : Calm Allowed (createTables schema) :=
  calm_each (fun p _ => calm_createTable p.1 p.2)

theorem calm_settleCutoffs (ack message : Option ℤ) (rows : List Row) :
    Calm Allowed (settleCutoffs .current ack message rows) := by
  match rows with
  | [] => exact calm_refuse_bind (fun h => absurd rfl h)
  | [r] => exact calm_refuse
  | _ :: _ :: _ => trivial

theorem calm_channel : Calm Allowed (ensureV7ChannelSchema .current none none) := by
  apply calm_bind (calm_query _)
  intro columns
  apply calm_bind (calm_query _)
  intro ackColumns
  apply calm_bind (calm_query _)
  intro hasProvenanceTable
  apply calm_refuse_bind
  intro whole
  apply calm_bind
  · exact calm_onlyIf (fun h => absurd ⟨rfl, .inl (.inl h)⟩ whole)
  intro _
  apply calm_bind
  · exact calm_onlyIf (fun h => absurd ⟨rfl, .inl (.inr h)⟩ whole)
  intro _
  apply calm_bind
  · exact calm_onlyIf (fun h => absurd ⟨rfl, .inr (.inl h)⟩ whole)
  intro _
  apply calm_bind (calm_createTable _ _)
  intro _
  apply calm_bind (calm_query _)
  intro retained
  apply calm_refuse_bind
  intro whole
  apply calm_bind
  · exact calm_onlyIf (fun h => absurd ⟨rfl, _, by simp [provenanceColumns], h⟩ whole)
  intro _
  apply calm_bind (calm_query _)
  intro provenance
  apply calm_bind (calm_settleCutoffs _ _ _)
  intro _
  apply calm_bind
  · exact calm_onlyIf (fun h => by cases h)
  intro _
  apply calm_bind (calm_query _)
  intro index
  apply calm_refuse_bind
  intro indexed
  apply calm_bind
  · exact calm_onlyIf (fun h => absurd ⟨rfl, h⟩ indexed)
  intro _
  exact calm_bind (calm_query _) (fun _ => calm_refuse)

theorem calm_effects : Calm Allowed (ensureV7EffectSchema facts .current) := by
  apply calm_bind (calm_query _)
  intro columns
  apply calm_bind (calm_query _)
  intro hadSealTable
  rw [if_pos rfl]
  apply calm_bind calm_refuse
  intro _
  exact calm_bind calm_refuse (fun _ => calm_query _)

theorem calm_leases : Calm Allowed (ensureV7LeaseSchema facts .current) := by
  apply calm_bind (calm_query _)
  intro hadSealTable
  apply calm_bind calm_refuse
  intro _
  apply calm_bind (calm_createTable _ _)
  intro _
  apply calm_bind (calm_onlyIf (fun _ => calm_query _))
  intro _
  exact calm_onlyIf (fun h => by cases h)

theorem calm_claimOrigin (p : Row × Cell) : Calm Allowed (claimOrigin facts .current p) := by
  apply calm_bind (calm_lift _)
  intro runId
  apply calm_bind (calm_lift _)
  intro marker
  split_ifs
  · exact calm_refuse
  · apply calm_bind (calm_lift _)
    intro text
    apply calm_bind (calm_lift _)
    intro command
    apply calm_bind calm_refuse
    intro _
    exact calm_refuse_bind (fun h => absurd (fun same => by cases same) h)
  · apply calm_bind (calm_lift _)
    intro text
    apply calm_bind (calm_lift _)
    intro command
    apply calm_bind calm_refuse
    intro _
    exact calm_bind (calm_lift _) (fun _ => calm_refuse)

theorem calm_runs : Calm Allowed (ensureV7RunSchema facts .current) := by
  apply calm_bind (calm_query _)
  intro columns
  apply calm_refuse_bind
  intro whole
  apply calm_bind
  · exact calm_onlyIf (fun h => absurd ⟨h, rfl⟩ whole)
  intro _
  exact calm_bind (calm_query _) (fun _ => calm_each (fun p _ => calm_claimOrigin p))

theorem calm_seals : Calm Allowed (ensureV7FactSealSchema facts .current) := by
  apply calm_bind (calm_query _)
  intro hadSealTable
  apply calm_bind calm_refuse
  intro _
  apply calm_bind (calm_createTable _ _)
  intro _
  apply calm_bind (calm_onlyIf (fun h => by cases h))
  intro _
  exact calm_onlyIf (fun h => by cases h)

theorem safe_validateCurrent {d : Store} (current : d.user_version = SCHEMA_VERSION) :
    Safe facts (validateCurrent facts) none d := by
  have stays : ∀ {d'}, Onward d d' → d'.user_version = SCHEMA_VERSION := by
    intro d' on
    obtain ⟨up, -⟩ := on
    omega
  unfold validateCurrent
  simp only [bind_eq]
  apply safe_calm (p := .commit (createTables baseSchema)) (calm_createTables _)
  intro _ _ on
  apply safe_calm (p := .commit (createTables v5Schema)) (calm_createTables _)
  intro _ _ on'
  apply safe_calm (p := .commit (createTables v6Schema)) (calm_createTables _)
  intro _ _ on''
  replace on := onward_trans on (onward_trans on' on'')
  apply safe_calm calm_channel
  intro _ _ on'
  apply safe_calm calm_effects
  intro _ _ on''
  replace on := onward_trans on (onward_trans on' on'')
  apply safe_calm calm_leases
  intro _ _ on'
  apply safe_calm calm_runs
  intro _ _ on''
  replace on := onward_trans on (onward_trans on' on'')
  apply safe_calm calm_seals
  intro _ _ on'
  apply safe_calm (p := .commit (.done ())) trivial
  intro _ _ on''
  replace on := onward_trans on (onward_trans on' on'')
  constructor
  apply meets_query
  intro d' on' histories valid
  exact .inl ⟨stays (onward_trans on on'), .inl ⟨histories, valid⟩⟩

/-! ## The whole climb -/

/-- The version is past every rung below `k`. -/
def Cleared (k v : ℤ) : Prop := v = 1 ∨ v < 0 ∨ k ≤ v

theorem safe_query {α : Type} {q : Store → Except OpenFault α} {f : α → Opener Unit} {d : Store}
    (h : ∀ d', Onward d d' → ∀ a, q d' = .ok a → Safe facts (f a) none d') :
    Safe facts ((query q).bind f) none d :=
  ⟨meets_query (fun d' on a ha => (h d' on a ha).meets)⟩

theorem safe_refuse {c : Prop} [Decidable c] {e : OpenFault} {f : Unit → Opener Unit} {d : Store}
    (h : ¬ c → Safe facts (f ()) none d) : Safe facts ((refuse c e : Opener Unit).bind f) none d :=
  ⟨meets_refuse (fun hc => (h hc).meets)⟩

theorem safe_rung {α : Type} {rung : Opener α} {k next v : ℤ} {d : Store} {f : ℤ → Opener Unit} {chosen : Prop}
    [Decidable chosen] (clears : Clears facts k rung) (choice : chosen → v = k)
    (step : 2 ≤ k ∧ k + 1 = next ∨ k = 0 ∧ next = 2)
    (sure : ¬ chosen → Cleared next v) (below : Below v d)
    (rest : ∀ v' d', Onward d d' → Cleared next v' → Below v' d' → Safe facts (f v') none d') :
    Safe facts ((ascend chosen rung (.done next) v).bind f) none d := by
  unfold ascend
  split_ifs with hc
  · rw [bind_assoc]
    have same := choice hc
    have behind := below.behind
    apply clears _ _ (by omega)
    intro _ d' on past
    have later := below.later on
    obtain ⟨behind', known', stuck', skips'⟩ := later
    refine rest next d' on (.inr (.inr (le_refl _))) ⟨?_, known', fun h => ?_, fun h => ?_⟩
    · have := skips'
      omega
    · omega
    · omega
  · exact rest v d (onward_refl d) (sure hc) below

theorem safe_rungRead {α : Type} {rung : Opener α} {k v : ℤ} {d : Store} {f : ℤ → Opener Unit} {chosen : Prop}
    [Decidable chosen] (clears : Clears facts k rung) (choice : chosen → v = k)
    (sure : ¬ chosen → Cleared (k + 1) v) (below : Below v d)
    (rest : ∀ v' d', Onward d d' → Cleared (k + 1) v' → Below v' d' → Safe facts (f v') none d') :
    Safe facts ((ascend chosen rung readVersion v).bind f) none d := by
  unfold ascend
  split_ifs with hc
  · rw [bind_assoc]
    have same := choice hc
    have behind := below.behind
    apply clears _ _ (by omega)
    intro _ d' on past
    apply safe_query
    intro d'' on' v' read
    cases read
    have on'' := onward_trans on on'
    have still := on'.le
    exact rest _ d'' on'' (.inr (.inr (by omega))) (below_self (below.later on'').known)
  · exact rest v d (onward_refl d) (sure hc) below

theorem cleared_next {k v : ℤ} (h : Cleared k v) (other : ¬ v = k) : Cleared (k + 1) v := by
  unfold Cleared at h ⊢
  omega

theorem safe_climbFrom {hasRuns : Bool} {v : ℤ} {d : Store} (below : Below v d) (runs : v = 0 → hasRuns = true) :
    Safe facts (climbFrom facts hasRuns v) none d := by
  have start : ¬ (v = 0 ∧ hasRuns = true) → Cleared 2 v := by
    intro h
    have : v ≠ 0 := fun zero => h ⟨zero, runs zero⟩
    unfold Cleared
    omega
  unfold climbFrom
  simp only [bind_eq]
  apply safe_rung clears_m1ToM2 (fun h => h.1) (.inr ⟨rfl, rfl⟩) start below
  intro v d _ cleared below
  apply safe_rung clears_m2ToM3 id (.inl (by decide)) (cleared_next cleared) below
  intro v d _ cleared below
  apply safe_rung clears_m3ToM4 id (.inl (by decide)) (cleared_next cleared) below
  intro v d _ cleared below
  apply safe_rung clears_m4ToM5 id (.inl (by decide)) (cleared_next cleared) below
  intro v d _ cleared below
  apply safe_rung clears_m5ToM6 id (.inl (by decide)) (cleared_next cleared) below
  intro v d _ cleared below
  apply safe_rung clears_m6ToM7 id (.inl (by decide)) (cleared_next cleared) below
  intro v d _ cleared below
  apply safe_rungRead clears_m7ToM8 id (cleared_next cleared) below
  intro v d _ cleared below
  apply safe_rungRead clears_m8ToM9 id (cleared_next cleared) below
  intro v d _ cleared below
  apply safe_rungRead clears_m9ToM10 id (cleared_next cleared) below
  intro v d _ cleared below
  apply safe_rungRead clears_m10ToM11 id (cleared_next cleared) below
  intro v d _ cleared below
  obtain ⟨behind, known, stuck, -⟩ := below
  unfold onlyIf
  split_ifs with current
  · apply safe_validateCurrent
    omega
  · constructor
    -- no rung starts from this version, and the opener has nothing to do
    unfold Cleared at cleared
    unfold SCHEMA_VERSION at current known
    have low : v = 1 ∨ v < 0 := by omega
    have same := stuck low
    rcases low with one | negative
    · exact .inr (.inl (same.trans one))
    · exact .inr (.inr (by omega))

theorem safe_migrate (d : Store) : Safe facts (migrate facts) none d := by
  unfold migrate
  simp only [bind_eq]
  apply safe_query
  intro d on version read
  cases read
  apply safe_refuse
  intro understood
  have below := below_self (not_lt.mp understood)
  apply safe_calm (calm_onlyIf (fun _ => calm_query _))
  intro _ d₁ on₁
  apply safe_calm
  · apply calm_onlyIf
    intro _
    apply calm_bind (calm_query _)
    intro _
    exact calm_bind calm_refuse (fun _ => calm_bind (calm_query _) (fun _ => calm_refuse))
  intro _ d₂ on₂
  apply safe_calm (p := execute Store.setWal) (calm_execute (fun s => ⟨rfl, keeps_of_tables rfl⟩))
  intro _ d₃ on₃
  apply safe_query
  intro d₄ on₄ hasRuns read
  cases read
  replace below := below.later (onward_trans on₁ (onward_trans on₂ (onward_trans on₃ on₄)))
  split_ifs with fresh
  · apply safe_create
    · intro d₅ on₅ taken
      change Safe facts ((readVersion).bind _) none d₅
      apply safe_query
      intro d₆ on₆ version read
      cases read
      apply safe_query
      intro d₇ on₇ hasRuns read
      cases read
      have known := (below.later (onward_trans on₅ on₆)).known
      apply safe_climbFrom ((below_self known).later on₇)
      intro zero
      -- the version was not 0 under the lock, or the table is there to stay
      rcases taken with moved | has
      · obtain ⟨up, -⟩ := on₆
        omega
      · exact (onward_trans on₆ on₇).2 has
    · intro d₅ current valid
      exact ⟨.inl ⟨current, valid⟩⟩
  · apply safe_climbFrom below
    intro zero
    have := fun none => fresh ⟨zero, none⟩
    simpa using this

/-! ## Any number of openers -/

variable {ι : Type} [DecidableEq ι]

abbrev Opened (ι : Type) := System ι Rung Store OpenFault Unit

/-- The rung of version `k` was committed. -/
def commitsFrom (k : ℤ) (e : Event ι Rung Store Unit) : Bool :=
  decide (e.kind = .committed ∧ e.label.map Rung.source = some k)

/-- What holds of a run of openers that began at `start`. -/
structure Climbed (facts : Facts η) (start : Store) (trace : List (Event ι Rung Store Unit)) (s : Opened ι) :
    Prop where
  /-- The version never decreases, from one event to the next. -/
  linked : Connection.Linked start trace s.durable
  never_down : ∀ e ∈ trace, e.before.user_version ≤ e.after.user_version
  /-- Changes of a rung are committed once at most, with its version, or not at all. -/
  once : ∀ k, trace.countP (commitsFrom k) ≤ 1
  with_version : ∀ e ∈ trace, e.kind = .committed →
    ∃ r, e.label = some r ∧ e.before.user_version = r.source ∧ e.after.user_version = r.target
  otherwise_same : ∀ e ∈ trace, e.label ≠ none → e.kind ≠ .committed → e.after = e.before
  stale_same : ∀ e ∈ trace, ∀ r, e.label = some r → e.before.user_version ≠ r.source → e.after = e.before
  /-- From version 4 on every cell stays, but for the two markers. -/
  keeps : ∀ e ∈ trace, ∀ r, e.label = some r → 4 ≤ r.source → Keeps marks e.before e.after
  /-- Who returns has validated the current version, and it stays the current one. -/
  returned : start.user_version = 0 ∨ 2 ≤ start.user_version → ∀ i, s.scripts i = .done () →
    s.durable.user_version = SCHEMA_VERSION ∧
      ∃ e ∈ trace, e.opener = i ∧ e.answer = some () ∧ e.after.user_version = SCHEMA_VERSION ∧
        Validated facts e.after

theorem run_climbs {start : Store} {trace : List (Event ι Rung Store Unit)} {s : Opened ι}
    (run : Run (opened start (migrate facts) : Opened ι) trace s) :
    Sound Allowed Onward (Returned facts) start trace s :=
  run_sound onward_trans onward_refl onward_of_allowed rfl (safe_migrate start).meets run

omit [DecidableEq ι] in
theorem linked_onward {start d : Store} {trace : List (Event ι Rung Store Unit)} (linked : Connection.Linked start trace d)
    (onward : ∀ e ∈ trace, Onward e.before e.after) :
    Onward start d ∧ ∀ e ∈ trace, Onward start e.after ∧ Onward e.after d := by
  induction trace generalizing start with
  | nil =>
    cases linked
    exact ⟨onward_refl _, fun e he => by cases he⟩
  | cons e rest ih =>
    obtain ⟨begins, linked⟩ := linked
    have first := onward e List.mem_cons_self
    rw [begins] at first
    obtain ⟨whole, each⟩ := ih linked (fun a ha => onward a (List.mem_cons_of_mem _ ha))
    refine ⟨onward_trans first whole, ?_⟩
    intro a ha
    rcases List.mem_cons.mp ha with rfl | ha
    · exact ⟨first, whole⟩
    · exact ⟨onward_trans first (each a ha).1, (each a ha).2⟩

/-- Openers of one database in any number, interleaved at will, each failing or crashing
anywhere. -/
theorem migration_ladder (facts : Facts η) (start : Store) {trace : List (Event ι Rung Store Unit)} {s : Opened ι}
    (run : Run (opened start (migrate facts) : Opened ι) trace s) : Climbed facts start trace s := by
  have sound := run_climbs run
  have onward : ∀ e ∈ trace, Onward e.before e.after := fun e he => (sound.lawful e he).onward
  have published : ∀ e ∈ trace, e.kind = .committed → ∃ r, e.label = some r ∧ e.before.user_version = r.source ∧
      e.after.user_version = r.target ∧ Keeps (spared r) e.before e.after := by
    intro e he kind
    obtain ⟨r, label, may⟩ := (sound.lawful e he).published kind
    exact ⟨r, label, may⟩
  have same : ∀ e ∈ trace, e.label ≠ none → e.kind ≠ .committed → e.after = e.before := by
    intro e he label kind
    rcases (sound.lawful e he).otherwise kind with same | ⟨none, -⟩
    · exact same
    · exact absurd none label
  have named : ∀ e : Event ι Rung Store Unit, ∀ r, e.label = some r → e.label ≠ none := by
    intro e r label none
    cases label.symm.trans none
  have never_down : ∀ e ∈ trace, e.before.user_version ≤ e.after.user_version := fun e he => (onward e he).le
  refine ⟨sound.linked, never_down, ?_, ?_, same, ?_, ?_, ?_⟩
  · intro k
    apply sound.linked.atMostOnce (k := k) never_down
    intro e he commits
    obtain ⟨kind, label⟩ := of_decide_eq_true commits
    obtain ⟨r, found, source, target, -⟩ := published e he kind
    rw [found] at label
    have from_ : r.source = k := Option.some.inj label
    have up := r.climbs.2.2.1
    omega
  · intro e he kind
    obtain ⟨r, label, source, target, -⟩ := published e he kind
    exact ⟨r, label, source, target⟩
  · intro e he r label stale
    apply same e he (named e r label)
    intro kind
    obtain ⟨r', label', source, -⟩ := published e he kind
    cases label.symm.trans label'
    exact stale source
  · intro e he r label high
    by_cases kind : e.kind = .committed
    · obtain ⟨r', label', -, -, keeps⟩ := published e he kind
      cases label.symm.trans label'
      cases r with
      | create | m1ToM2 | m2ToM3 | m3ToM4 => exact absurd high (by decide)
      | _ => exact keeps
    · rw [same e he (named e r label) kind]
      exact .refl _
  · intro from_ i ended
    obtain ⟨e, he, opener, answer⟩ := sound.answers i () (by rw [ended]; rfl)
    obtain ⟨-, each⟩ := linked_onward sound.linked onward
    obtain ⟨⟨up, -⟩, ⟨on, -⟩⟩ := each e he
    rcases (sound.lawful e he).answered () answer with ⟨current, valid⟩ | one | negative
    · exact ⟨by omega, e, he, opener, answer, current, valid⟩
    · omega
    · omega

/-! ## Two runs -/

def sampleSeals (family column : String) : RowSeals := fun _ r =>
  (textOf r column family).map (fun key => [⟨family, key, key, family ++ key⟩])

def sampleFacts : Facts Unit where
  validate _ _ _ := .ok ()
  legacyEffectInventory _ := .ok ()
  legacyLeaseInventory _ := .ok ()
  disposalInventory _ := .ok 0
  sealedFactHash s := "sha256:" ++ s.factHash
  checkpointIdentity _ := .ok "identity"
  durableJson _ := .ok (.obj [])
  canonicalJson _ := "canonical"
  executionPath := .ok
  scopePath := .ok
  originCommand := .ok
  runIdForCommand c := "run-" ++ c
  legacyEffectSeal _ := .ok "sha256:effect"
  legacyLeaseBaseHash _ := .ok "sha256:base"
  legacyLeaseInitialLifecycle _ := .ok "lifecycle"
  sealCommandClaim := sampleSeals "command_claim" "command_id"
  sealCommandPhases _ _ := .ok []
  sealResumePlanEras _ := .ok []
  sealDomainPlanEras _ := .ok []
  sealManifest := sampleSeals "manifest" "manifest_hash"
  sealRunWorld := sampleSeals "run_world" "run_id"
  sealAttestation := sampleSeals "attestation" "attestation_id"
  sealApproval := sampleSeals "approval" "approval_id"
  sealComponentRegistration := sampleSeals "component_registration" "name"
  sealPromotion := sampleSeals "promotion" "attestation_id"
  sealEffectPreparation := sampleSeals "effect_preparation" "idempotency_key"
  sealEvent := sampleSeals "event" "kind"
  sealLegacyEffectOutcomes _ := .ok []
  sealMigratedResumeAttempts _ := .ok []
  sealCheckpoint := sampleSeals "checkpoint" "path_key"
  sealChannelProvenance _ := .ok [⟨"channel_provenance", "1", "1", "cutoffs"⟩]
  sealChannelMessage := sampleSeals "channel_message" "message_id"
  sealChannelAck := sampleSeals "channel_ack" "message_id"
  mintCapabilityProvenance _ _ := .ok []
  mintAttestationWitnesses _ := .ok []
  mintMeteringEra r := ⟨"executor_metering_era", (textOf r "run_id" "run").toOption.getD "", "legacy", "era"⟩

/-- A schema 6 store that has the creation-command column already, with one run. -/
def partlyClimbed : Store where
  tables := ⟨(baseSchema ++ v5Schema ++ v6Schema).map (fun p => (p.1, ⟨p.2,
    if p.1 = "runs" then [⟨p.2.map (fun c => (c, if c = "run_id" then .text "run-1" else .null))⟩]
    else if p.1 = "run_origins" then [⟨[("run_id", .text "run-1"), ("origin_json", .text "1")]⟩]
    else []⟩))⟩
  indexes := .empty
  user_version := 6
  wal := true

def aloneFrom (start : Store) : List (Event Unit Rung Store Unit) × Opened Unit :=
  alone () 400 (opened start (migrate sampleFacts))

theorem migration_ladder_sample : Climbed sampleFacts .empty (aloneFrom .empty).1 (aloneFrom .empty).2 ∧
    (aloneFrom .empty).2.durable.user_version = SCHEMA_VERSION :=
  ⟨migration_ladder sampleFacts .empty (alone_run () 400 _), by decide⟩

def ackMarker : Spares := fun name c _ _ => name = "channel_acks" ∧ c = "ack_provenance_version"

/-- The climb to schema 7 also fills in the creation command of a run with an origin. -/
theorem creation_marker_rewritten :
    ¬ ∀ (facts : Facts Unit) (start : Store) (trace : List (Event Unit Rung Store Unit)) (s : Opened Unit),
      Run (opened start (migrate facts)) trace s →
        ∀ e ∈ trace, ∀ r, e.label = some r → 4 ≤ r.source → Keeps ackMarker e.before e.after := by
  intro claim
  have keeps := claim sampleFacts partlyClimbed _ _ (alone_run () 400 _)
  have found : (aloneFrom partlyClimbed).1.any (fun e => decide (e.label = some .m6ToM7 ∧
      "creation_command_id" ∈ e.before.columns "runs" ∧
      e.before.headCell "runs" "creation_command_id" = some .null ∧
      e.after.headCell "runs" "creation_command_id" = some (.text "1"))) = true := by decide
  obtain ⟨e, he, what⟩ := List.any_eq_true.mp found
  obtain ⟨label, has, before, after⟩ := of_decide_eq_true what
  rcases (keeps e he .m6ToM7 label (by decide)).headCell has before with same | ⟨_, _, name, -⟩
  · rw [after] at same
    cases same
  · exact absurd name (by decide)

end Constructicon.Schema
