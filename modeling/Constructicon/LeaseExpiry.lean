import Constructicon.JournalWriters
import Constructicon.Library.Calendar
import Mathlib.Data.List.Sort
import Mathlib.Data.Prod.Lex

/-!
# When a lease has run out

Three tests say whether the lease of a run has run out: `claim_run` compares texts in SQL, `recoverable_runs`
compares microseconds that a function of SQL makes of the texts, and `_run_state_fields` compares times. They
agree on every row that a writer leaves, so a run is offered for recovery exactly when it can be claimed.
-/

namespace Constructicon

open IsoTime Transaction

/-! ## Rows -/

/-- `_durable_datetime`, of the texts that a clock in UTC prints. -/
def durableDatetime (raw : String) : Except StoreError Datetime := expect (fromIsoformat raw) .journalDamaged

/-- `_utc_microseconds` -/
def utcMicroseconds (t : Datetime) : ℤ := t.sinceEpoch

/-- `_sqlite_utc_microseconds` -/
def sqliteUtcMicroseconds (raw : String) : Option ℤ :=
  match durableDatetime raw with
  | .ok t => some (utcMicroseconds t)
  | .error _ => none

/-- A row of `runs`, with its times as texts; a writer prints them from times in UTC. -/
structure StoredRun where
  runId : RunId
  manifestHash : Digest
  status : RunStatus
  createdAt : String
  ownerId : Option String
  ownerEpoch : ℕ
  heartbeatAt : Option String
  leaseExpiresAt : Option String
  nextEventSeq : ℕ
  cancelRequested : Bool
  created : ∃ t : Datetime, t.isoformat = createdAt
  leased : ∀ raw ∈ leaseExpiresAt, ∃ t : Datetime, t.isoformat = raw

def StoredRun.durable (row : StoredRun) : RunRow where
  manifestHash := row.manifestHash
  status := row.status
  ownerId := row.ownerId
  ownerEpoch := row.ownerEpoch
  leaseExpiresAt := row.leaseExpiresAt.bind sqliteUtcMicroseconds
  heartbeatAt := row.heartbeatAt.bind sqliteUtcMicroseconds
  nextEventSeq := row.nextEventSeq
  cancelRequested := row.cancelRequested

/-- `_DurableRunFields` -/
structure DurableRunFields where
  runId : RunId
  status : RunStatus
  createdAt : Datetime
  ownerId : Option String
  leaseExpiresAt : Option Datetime
  cancelRequested : Bool

def durableLease : Option String → Except StoreError (Option Datetime)
  | none => .ok none
  | some raw => do
    let t ← durableDatetime raw
    return some t

/-- `_durable_run_fields` -/
def durableRunFields (row : StoredRun) : Except StoreError DurableRunFields := do
  let createdAt ← durableDatetime row.createdAt
  let leaseExpiresAt ← durableLease row.leaseExpiresAt
  return ⟨row.runId, row.status, createdAt, row.ownerId, leaseExpiresAt, row.cancelRequested⟩

/-! ## Three tests -/

inductive Liveness where
  | notApplicable
  | live
  | lost
deriving DecidableEq

/-- The liveness of a row at a reading of the clock. Times in UTC compare by their fields. -/
def livenessOf (fields : DurableRunFields) (now : Datetime) : Liveness :=
  if fields.status ≠ .running then .notApplicable
  else
    match fields.ownerId, fields.leaseExpiresAt with
    | some _, some expires => if now.fields < expires.fields then .live else .lost
    | _, _ => .lost

/-- `_RunStateFields` -/
structure RunStateFields extends DurableRunFields where
  liveness : Liveness

/-- `_run_state_fields` -/
def runStateFields (row : StoredRun) (now : Datetime) : Except StoreError RunStateFields := do
  let fields ← durableRunFields row
  return ⟨fields, livenessOf fields now⟩

/-- The `WHERE` of the update in `claim_run`; texts compare as SQLite compares them. -/
def StoredRun.claimable (row : StoredRun) (now : Datetime) : Bool :=
  row.status ∈ [RunStatus.pending, .running, .failed, .parked] &&
    (row.ownerId.isNone || row.leaseExpiresAt.isNone || row.leaseExpiresAt.any (fun raw => raw ≤ now.isoformat))

/-- The arguments of `claim_run`, and the time its lease will run out. -/
structure ClaimAttempt where
  ownerId : String
  expires : Datetime
  expectedEventSeq : Option ℕ := none
  expectedStatuses : Option (List RunStatus) := none

def ClaimAttempt.Expects (attempt : ClaimAttempt) (row : StoredRun) : Prop :=
  (∀ n ∈ attempt.expectedEventSeq, row.nextEventSeq = n) ∧ ∀ l ∈ attempt.expectedStatuses, row.status ∈ l

instance (attempt : ClaimAttempt) (row : StoredRun) : Decidable (attempt.Expects row) :=
  inferInstanceAs (Decidable (_ ∧ _))

def StoredRun.claimed (row : StoredRun) (attempt : ClaimAttempt) (now : Datetime) : StoredRun where
  runId := row.runId
  manifestHash := row.manifestHash
  status := row.status
  createdAt := row.createdAt
  ownerId := some attempt.ownerId
  ownerEpoch := row.ownerEpoch + 1
  heartbeatAt := some now.isoformat
  leaseExpiresAt := some attempt.expires.isoformat
  nextEventSeq := row.nextEventSeq
  cancelRequested := row.cancelRequested
  created := row.created
  leased := fun _ held => ⟨attempt.expires, Option.some.inj held⟩

/-- `claim_run`, of a row that `_run_mutation_row` has proven. -/
def claimStored (attempt : ClaimAttempt) (now : Datetime) (row : StoredRun) : Except StoreError StoredRun := do
  let fields ← durableRunFields row
  require (attempt.Expects row) .runAttemptSuperseded
  require (fields.status ≠ .succeeded ∧ fields.status ≠ .cancelled) .contractViolation
  require (row.claimable now = true) .ownershipLost
  return row.claimed attempt now

/-- The table `runs`. -/
structure StoredRuns where
  rows : List StoredRun
  /-- The primary key. -/
  unique : (rows.map StoredRun.runId).Nodup

structure RunGuards where
  /-- `RUN_CHILD_ORPHAN_ANOMALY` -/
  childOrphan : StoredRun → Bool
  /-- `RUN_IMMUTABLE_ANOMALY` -/
  immutable : StoredRun → Bool
  /-- `RUN_LIFECYCLE_ANOMALY` -/
  lifecycle : StoredRun → Bool
  /-- What `_validated_run_projection` proves beside the fields of the row. -/
  proven : StoredRun → Except StoreError Unit
  /-- `validate_no_orphan_run_facts` -/
  noOrphans : Except StoreError Unit

/-- `_RECOVERABLE_RUN_SCALAR_ANOMALY`, of columns with their types. -/
def scalarAnomaly (row : StoredRun) : Bool :=
  row.status ∈ [RunStatus.pending, .running] && ((sqliteUtcMicroseconds row.createdAt).isNone ||
    row.leaseExpiresAt.any (fun raw => (sqliteUtcMicroseconds raw).isNone))

/-- The `WHERE` of `recoverable_runs`. -/
def RunGuards.selects (g : RunGuards) (observedAt : Datetime) (row : StoredRun) : Bool :=
  row.status = .pending ||
    (row.status = .running && (row.ownerId.isNone || row.leaseExpiresAt.isNone ||
      (row.leaseExpiresAt.bind sqliteUtcMicroseconds).any (fun t => t ≤ utcMicroseconds observedAt))) ||
    scalarAnomaly row || g.lifecycle row || g.immutable row || g.childOrphan row

/-- The key of the `ORDER BY`: anomalies first, then the oldest. -/
def RunGuards.key (g : RunGuards) (row : StoredRun) : Bool ×ₗ Bool ×ₗ Bool ×ₗ Bool ×ₗ WithBot ℤ ×ₗ RunId :=
  toLex (!g.childOrphan row, toLex (!g.immutable row, toLex (!g.lifecycle row, toLex (!scalarAnomaly row,
    toLex (sqliteUtcMicroseconds row.createdAt, row.runId)))))

/-- The rows of the query before its `LIMIT`. -/
def RunGuards.candidates (g : RunGuards) (observedAt : Datetime) (runs : StoredRuns) : List StoredRun :=
  (runs.rows.filter (g.selects observedAt)).insertionSort (fun a b => g.key a ≤ g.key b)

/-- `_validated_run_projection`; the clock is read again for every row. -/
def RunGuards.project (g : RunGuards) (observe : StoredRun → Datetime) (row : StoredRun) :
    Except StoreError RunStateFields := do
  g.proven row
  runStateFields row (observe row)

def RunStateFields.recoverable (fields : RunStateFields) : Bool :=
  fields.status = .pending || (fields.status = .running && fields.liveness = .lost)

/-- An answer without rows is proven against the facts of other tables. -/
def RunGuards.provenEmpty (g : RunGuards) (selected : List StoredRun) : Except StoreError Unit :=
  if selected.isEmpty then g.noOrphans else .ok ()

/-- `recoverable_runs` -/
def recoverableRuns (g : RunGuards) (observedAt : Datetime) (observe : StoredRun → Datetime) (limit : ℤ)
    (runs : StoredRuns) : Except StoreError (List RunId) := do
  require (0 < limit) .valueError
  let selected := (g.candidates observedAt runs).take limit.toNat
  g.provenEmpty selected
  let records ← selected.mapM (g.project observe)
  return (records.filter RunStateFields.recoverable).map (fun fields => fields.runId)

/-! ## What the writers leave is read -/

theorem durableDatetime_isoformat (t : Datetime) : durableDatetime t.isoformat = .ok t := by
  rw [durableDatetime, fromIsoformat_iff.mpr rfl]
  rfl

theorem sqliteUtcMicroseconds_isoformat (t : Datetime) : sqliteUtcMicroseconds t.isoformat = some (utcMicroseconds t) := by
  rw [sqliteUtcMicroseconds, durableDatetime_isoformat]

theorem StoredRun.lease_cases (row : StoredRun) :
    row.leaseExpiresAt = none ∨ ∃ t : Datetime, row.leaseExpiresAt = some t.isoformat := by
  cases held : row.leaseExpiresAt with
  | none => exact .inl rfl
  | some raw =>
    obtain ⟨t, same⟩ := row.leased raw held
    exact .inr ⟨t, by rw [same]⟩

theorem durableLease_map (lease : Option Datetime) :
    durableLease (lease.map (fun t => t.isoformat)) = .ok lease := by
  cases lease with
  | none => rfl
  | some t =>
    rw [Option.map_some, durableLease, durableDatetime_isoformat]
    rfl

theorem durableRunFields_stored (row : StoredRun) : ∃ fields, durableRunFields row = .ok fields ∧
    fields.runId = row.runId ∧ fields.status = row.status ∧ fields.ownerId = row.ownerId ∧
      row.leaseExpiresAt = fields.leaseExpiresAt.map (fun t => t.isoformat) := by
  obtain ⟨created, same⟩ := row.created
  have readable : ∃ lease : Option Datetime, row.leaseExpiresAt = lease.map (fun t => t.isoformat) := by
    rcases row.lease_cases with missing | ⟨t, held⟩
    · exact ⟨none, missing⟩
    · exact ⟨some t, held⟩
  obtain ⟨lease, held⟩ := readable
  refine ⟨⟨row.runId, row.status, created, row.ownerId, lease, row.cancelRequested⟩, ?_, rfl, rfl, rfl, held⟩
  rw [durableRunFields, ← same, durableDatetime_isoformat, ok_bind, held, durableLease_map]
  rfl

/-! ## The tests agree -/

theorem StoredRun.durable_free (row : StoredRun) (now : Datetime) : row.durable.Free (utcMicroseconds now) ↔
    row.ownerId = none ∨ ∀ t : Datetime, row.leaseExpiresAt = some t.isoformat → t.sinceEpoch ≤ now.sinceEpoch := by
  have instants : (∀ expires ∈ row.durable.leaseExpiresAt, expires ≤ utcMicroseconds now) ↔
      ∀ t : Datetime, row.leaseExpiresAt = some t.isoformat → t.sinceEpoch ≤ now.sinceEpoch := by
    change (∀ expires ∈ row.leaseExpiresAt.bind sqliteUtcMicroseconds, _) ↔ _
    rcases row.lease_cases with missing | ⟨u, held⟩
    · simp [missing]
    · rw [held, Option.bind_some, sqliteUtcMicroseconds_isoformat]
      constructor
      · intro expired t same
        obtain rfl := Datetime.isoformat_inj (Option.some.inj same)
        exact expired _ rfl
      · intro expired expires same
        rw [← Option.some.inj same]
        exact expired u rfl
  exact or_congr Iff.rfl instants

theorem StoredRun.claimable_iff (row : StoredRun) (now : Datetime) : row.claimable now = true ↔
    row.status ∈ [RunStatus.pending, .running, .failed, .parked] ∧ row.durable.Free (utcMicroseconds now) := by
  rw [claimable, durable_free, Bool.and_eq_true, decide_eq_true_eq]
  refine and_congr_right fun _ => ?_
  rcases row.lease_cases with missing | ⟨t, held⟩
  · simp [missing]
  · simp only [held, Option.isNone_some, Option.any_some, Bool.or_false, Bool.or_eq_true, Option.isNone_iff_eq_none,
      decide_eq_true_eq, Datetime.isoformat_le]
    refine or_congr Iff.rfl ⟨fun expired u same => ?_, fun expired => expired t rfl⟩
    obtain rfl := Datetime.isoformat_inj (Option.some.inj same)
    exact expired

theorem livenessOf_iff {row : StoredRun} {fields : DurableRunFields} (read : durableRunFields row = .ok fields)
    (now : Datetime) :
    livenessOf fields now = .lost ↔ row.status = .running ∧ row.durable.Free (utcMicroseconds now) := by
  obtain ⟨fields', read', -, status, owner, lease⟩ := durableRunFields_stored row
  obtain rfl : fields' = fields := Except.ok.inj (read'.symm.trans read)
  rw [StoredRun.durable_free, ← status, ← owner, lease, livenessOf]
  split_ifs with other
  · exact ⟨fun h => (by cases h), fun h => absurd h.1 other⟩
  · rw [not_not] at other
    rw [and_iff_right other]
    cases held : fields'.ownerId with
    | none => simp
    | some owner =>
      cases expiry : fields'.leaseExpiresAt with
      | none => simp
      | some expires =>
        simp only [Option.map_some, reduceCtorEq, false_or]
        have same : ∀ t : Datetime, some expires.isoformat = some t.isoformat → expires = t :=
          fun t equal => Datetime.isoformat_inj (Option.some.inj equal)
        split_ifs with later
        · refine ⟨fun h => (by cases h), fun expired => ?_⟩
          exact absurd later (Datetime.fields_le.mpr (expired expires rfl))
        · refine ⟨fun _ t equal => ?_, fun _ => rfl⟩
          rw [← same t equal]
          exact Datetime.fields_le.mp later

theorem runStateFields_lost (row : StoredRun) (now : Datetime) :
    (runStateFields row now).map RunStateFields.liveness = .ok .lost ↔
      row.status = .running ∧ row.durable.Free (utcMicroseconds now) := by
  obtain ⟨fields, read, -⟩ := durableRunFields_stored row
  rw [← livenessOf_iff read now, runStateFields, read]
  exact ⟨fun h => Except.ok.inj h, fun h => congrArg Except.ok h⟩

theorem claimStored_refused {row : StoredRun} {now : Datetime} {attempt : ClaimAttempt} (expected : attempt.Expects row)
    (ongoing : row.status ∈ [RunStatus.pending, .running, .failed, .parked]) :
    claimStored attempt now row = .error .ownershipLost ↔ ¬row.durable.Free (utcMicroseconds now) := by
  obtain ⟨fields, read, -, status, -⟩ := durableRunFields_stored row
  have going : fields.status ≠ .succeeded ∧ fields.status ≠ .cancelled := by
    rw [status]
    constructor <;> intro ended <;> rw [ended] at ongoing <;> simp at ongoing
  rw [claimStored, read, ok_bind, require_of expected, ok_bind, require_of going, ok_bind]
  have claimable := row.claimable_iff now
  rw [and_iff_right ongoing] at claimable
  by_cases free : row.durable.Free (utcMicroseconds now)
  · rw [require_of (claimable.mpr free), ok_bind]
    exact ⟨fun h => (by cases h), fun h => absurd free h⟩
  · rw [require_of_not (fun h => free (claimable.mp h))]
    exact ⟨fun _ => free, fun _ => rfl⟩

theorem selects_free (g : RunGuards) {row : StoredRun} {now : Datetime} (running : row.status = .running)
    (free : row.durable.Free (utcMicroseconds now)) : g.selects now row = true := by
  have lapsed : (row.ownerId.isNone || row.leaseExpiresAt.isNone ||
      (row.leaseExpiresAt.bind sqliteUtcMicroseconds).any (fun t => t ≤ utcMicroseconds now)) = true := by
    rcases free with unowned | expired
    · rw [show row.ownerId = none from unowned]
      rfl
    · rcases row.lease_cases with missing | ⟨t, held⟩
      · simp [missing]
      · have instant : row.leaseExpiresAt.bind sqliteUtcMicroseconds = some (utcMicroseconds t) := by
          rw [held, Option.bind_some, sqliteUtcMicroseconds_isoformat]
        rw [instant]
        simp only [Option.any_some, Bool.or_eq_true, decide_eq_true_eq]
        exact .inr (expired _ instant)
  rw [RunGuards.selects, lapsed, running]
  simp

/-! ## Recovery and claims -/

theorem recoverableRuns_mem {g : RunGuards} {now : Datetime} {limit : ℤ} {runs : StoredRuns} {offered : List RunId}
    (answered : recoverableRuns g now (fun _ => now) limit runs = .ok offered) {row : StoredRun} (stored : row ∈ runs.rows)
    (running : row.status = .running) :
    row.runId ∈ offered ↔
      row.durable.Free (utcMicroseconds now) ∧ row ∈ (g.candidates now runs).take limit.toNat := by
  simp only [recoverableRuns, bind_eq_ok] at answered
  obtain ⟨_, -, _, -, records, projected, same⟩ := answered
  cases same
  have decoded : ∀ {r : StoredRun} {fields : RunStateFields}, g.project (fun _ => now) r = .ok fields →
      fields.runId = r.runId ∧ fields.status = r.status ∧
        (fields.liveness = .lost ↔ r.status = .running ∧ r.durable.Free (utcMicroseconds now)) := by
    intro r fields read
    obtain ⟨fields', read', runId, status, -⟩ := durableRunFields_stored r
    simp only [RunGuards.project, runStateFields, bind_eq_ok, read'] at read
    obtain ⟨_, -, _, same, read⟩ := read
    cases same
    cases read
    exact ⟨runId, status, livenessOf_iff read' now⟩
  have known : ∀ r ∈ (g.candidates now runs).take limit.toNat, r ∈ runs.rows := by
    intro r mem
    have candidate := List.mem_of_mem_take mem
    rw [RunGuards.candidates, List.mem_insertionSort] at candidate
    exact List.mem_of_mem_filter candidate
  rw [List.mem_map]
  constructor
  · rintro ⟨fields, mem, name⟩
    obtain ⟨mem, recoverable⟩ := List.mem_filter.mp mem
    obtain ⟨r, taken, read⟩ := mapM_mem projected mem
    obtain ⟨runId, status, lost⟩ := decoded read
    have itself : r = row := List.inj_on_of_nodup_map runs.unique (known r taken) stored (runId.symm.trans name)
    subst itself
    rw [RunStateFields.recoverable, status, running] at recoverable
    have lapsed : fields.liveness = .lost := by simpa using recoverable
    exact ⟨(lost.mp lapsed).2, taken⟩
  · rintro ⟨free, taken⟩
    obtain ⟨fields, mem, read⟩ := mapM_ok projected row taken
    obtain ⟨runId, status, lost⟩ := decoded read
    refine ⟨fields, List.mem_filter.mpr ⟨mem, ?_⟩, runId⟩
    rw [RunStateFields.recoverable, status, running, lost.mpr ⟨running, free⟩]
    rfl

/-- The texts of times in UTC are ordered as their microseconds. So a stored run that is running is lost, at any
reading of the clock, exactly when a claim at that reading is not refused for its lease; and it is offered for
recovery exactly then, unless the limit is reached before it. -/
theorem expiry_agrees :
    (∀ t u : Datetime, t.isoformat ≤ u.isoformat ↔ utcMicroseconds t ≤ utcMicroseconds u) ∧
    ∀ (row : StoredRun) (now : Datetime) (attempt : ClaimAttempt), row.status = .running → attempt.Expects row →
      ((runStateFields row now).map RunStateFields.liveness = .ok .lost ↔
        claimStored attempt now row ≠ .error .ownershipLost) ∧
      ∀ (g : RunGuards) (limit : ℤ) (runs : StoredRuns) (offered : List RunId), row ∈ runs.rows →
        recoverableRuns g now (fun _ => now) limit runs = .ok offered →
          (row.runId ∈ offered ↔ claimStored attempt now row ≠ .error .ownershipLost ∧
            row ∈ (g.candidates now runs).take limit.toNat) ∧
          ((g.candidates now runs).length ≤ limit →
            (row.runId ∈ offered ↔ claimStored attempt now row ≠ .error .ownershipLost)) := by
  refine ⟨fun t u => Datetime.isoformat_le, fun row now attempt running expected => ?_⟩
  have claims : claimStored attempt now row ≠ .error .ownershipLost ↔ row.durable.Free (utcMicroseconds now) :=
    (claimStored_refused expected (by simp [running])).not.trans not_not
  constructor
  · rw [claims, runStateFields_lost, and_iff_right running]
  · intro g limit runs offered stored answered
    have offer := recoverableRuns_mem answered stored running
    rw [claims]
    refine ⟨offer, fun fits => offer.trans ⟨And.left, fun free => ⟨free, ?_⟩⟩⟩
    rw [List.take_of_length_le (by omega), RunGuards.candidates, List.mem_insertionSort, List.mem_filter]
    exact ⟨stored, selects_free g running free⟩

theorem pastNine_reads : (datetime? 2025 1 31 9 0 0 250).isSome = true := by decide

def pastNine : Datetime := (datetime? 2025 1 31 9 0 0 250).get pastNine_reads

theorem nine_reads : (datetime? 2025 1 31 9 0 0 0).isSome = true := by decide

def nine : Datetime := (datetime? 2025 1 31 9 0 0 0).get nine_reads

def lapsedRun : StoredRun where
  runId := "run"
  manifestHash := "manifest"
  status := .running
  createdAt := nine.isoformat
  ownerId := some "worker"
  ownerEpoch := 1
  heartbeatAt := some nine.isoformat
  leaseExpiresAt := some nine.isoformat
  nextEventSeq := 1
  cancelRequested := false
  created := ⟨nine, rfl⟩
  leased := fun _ held => ⟨nine, Option.some.inj held⟩

def lapsedRuns : StoredRuns := ⟨[lapsedRun], List.nodup_singleton _⟩

def soundRuns : RunGuards := ⟨fun _ => false, fun _ => false, fun _ => false, fun _ => .ok (), .ok ()⟩

theorem expiry_agrees_fraction :
    claimStored ⟨"other", pastNine, none, none⟩ pastNine lapsedRun ≠ .error .ownershipLost ∧
      (runStateFields lapsedRun pastNine).map RunStateFields.liveness = .ok .lost := by
  have offered : recoverableRuns soundRuns pastNine (fun _ => pastNine) 100 lapsedRuns = .ok ["run"] := by
    decide
  have few : ((soundRuns.candidates pastNine lapsedRuns).length : ℤ) ≤ 100 := by decide
  obtain ⟨lost, offers⟩ := expiry_agrees.2 lapsedRun pastNine ⟨"other", pastNine, none, none⟩ rfl (by decide)
  have claimed := ((offers soundRuns 100 lapsedRuns ["run"] List.mem_cons_self offered).2 few).mp List.mem_cons_self
  exact ⟨claimed, lost.mpr claimed⟩

theorem durable_claimed {row : StoredRun} {attempt : ClaimAttempt} {now : Datetime} {ttl : ℤ}
    (expires : utcMicroseconds attempt.expires = utcMicroseconds now + ttl) :
    (row.claimed attempt now).durable = row.durable.claimed attempt.ownerId (utcMicroseconds now) ttl := by
  simp only [StoredRun.claimed, StoredRun.durable, RunRow.claimed, Option.bind_some, sqliteUtcMicroseconds_isoformat,
    expires]

/-- A claim of a row is `claim_run` on the instants of the row. -/
theorem claimRun_stored (w : Wire) {b : Beside} {s : Journal} {row : StoredRun} {attempt : ClaimAttempt} {now : Datetime}
    {ttl : ℤ} (proven : runMutationRow w b s row.runId = .ok (some row.durable))
    (expires : utcMicroseconds attempt.expires = utcMicroseconds now + ttl) :
    claimRun w b (utcMicroseconds now) s row.runId attempt.ownerId ttl attempt.expectedEventSeq
        attempt.expectedStatuses =
      (claimStored attempt now row).map (fun next =>
        (⟨row.runId, attempt.ownerId, row.ownerEpoch + 1, utcMicroseconds attempt.expires⟩,
          s.setRun row.runId next.durable)) := by
  obtain ⟨fields, read, -, status, -⟩ := durableRunFields_stored row
  rw [claimRun, proven, ok_bind, claimStored, read, ok_bind, status, expect_some, ok_bind]
  by_cases expected : attempt.Expects row
  · have expected' : (∀ n ∈ attempt.expectedEventSeq, row.durable.nextEventSeq = n) ∧
        ∀ l ∈ attempt.expectedStatuses, row.durable.status ∈ l := expected
    rw [require_of expected, ok_bind, require_of expected', ok_bind]
    by_cases going : row.status ≠ .succeeded ∧ row.status ≠ .cancelled
    · have going' : row.durable.status ≠ .succeeded ∧ row.durable.status ≠ .cancelled := going
      have ongoing : row.status ∈ [RunStatus.pending, .running, .failed, .parked] := by
        cases status' : row.status <;> simp_all
      have claimable := row.claimable_iff now
      rw [and_iff_right ongoing] at claimable
      rw [require_of going, ok_bind, require_of going', ok_bind]
      by_cases free : row.durable.Free (utcMicroseconds now)
      · rw [require_of free, ok_bind, require_of (claimable.mpr free), ok_bind, ← expires]
        rw [← durable_claimed expires]
        rfl
      · rw [require_of_not free, require_of_not (fun h => free (claimable.mp h))]
        rfl
    · have going' : ¬(row.durable.status ≠ .succeeded ∧ row.durable.status ≠ .cancelled) := going
      rw [require_of_not going, require_of_not going']
      rfl
  · have expected' : ¬((∀ n ∈ attempt.expectedEventSeq, row.durable.nextEventSeq = n) ∧
        ∀ l ∈ attempt.expectedStatuses, row.durable.status ∈ l) := expected
    rw [require_of_not expected, require_of_not expected']
    rfl

end Constructicon
