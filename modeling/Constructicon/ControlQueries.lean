import Constructicon.Cursor
import Constructicon.Human
import Constructicon.RegistryParity
import Constructicon.Library.IsoTime
import Constructicon.Library.Paging

/-!
# Paged control queries

The runs, the events of a run, and the versions and reverse dependencies of a component, page by page.
Each query makes its cut again on every page, from its cursor, while the store is written.
-/

namespace Constructicon

open Transaction Paging IsoTime

/-- What the queries read of a row of `runs`. -/
structure RunEntry where
  runId : RunId
  createdAt : UtcTime
  status : RunStatus
deriving DecidableEq

structure ControlStore where
  runs : List RunEntry := []
  events : List EventRow := []
  registry : SqliteRegistry := {}

/-- `RunStatus.value` -/
def RunStatus.text : RunStatus → String
  | .pending => "pending"
  | .running => "running"
  | .succeeded => "succeeded"
  | .failed => "failed"
  | .cancelled => "cancelled"
  | .parked => "parked"

/-! ## Writes -/

inductive ControlWrite (δ : Type) where
  | createRun (run : RunEntry)
  | changeStatus (runId : RunId) (status : RunStatus)
  | appendEvent (runId : RunId) (kind : String) (path : Option ExecutionPath) (payload : Option Json)
      (createdAt : Instant)
  | registry (call : RegistryCall δ)

namespace ControlStore

def eventsOf (s : ControlStore) (runId : RunId) : List EventRow := s.events.filter (fun e => e.runId = runId)

def runIds (s : ControlStore) : List RunId := s.runs.map RunEntry.runId

variable {δ : Type} [DecidableEq δ]

def write (codec : DefinitionCodec δ) (s : ControlStore) : ControlWrite δ → ControlStore
  | .createRun run => if run.runId ∈ s.runIds then s else { s with runs := s.runs ++ [run] }
  | .changeStatus runId status =>
    { s with runs := s.runs.map fun r => if r.runId = runId then { r with status := status } else r }
  | .appendEvent runId kind path payload createdAt =>
    if runId ∈ s.runIds then
      { s with events := s.events ++ [⟨runId, (s.eventsOf runId).length + 1, kind, path, payload, createdAt⟩] }
    else s
  | .registry call => { s with registry := settle s.registry (s.registry.call codec call) }

end ControlStore

/-! ## What the queries share -/

inductive QueryFault where
  /-- `AUTH_REQUIRED_SCOPE` -/
  | authRequiredScope
  /-- `REQUEST_INVALID` -/
  | requestInvalid
  /-- `RUN_UNKNOWN` -/
  | runUnknown
  /-- `REGISTRY_VERSION_UNKNOWN` -/
  | registryVersionUnknown
  | cursor (fault : CursorFault)
  /-- An error of the store, raised. -/
  | damaged (fault : RegistryFault)
  /-- `KeyError`, raised. -/
  | keyError
deriving DecidableEq

def readScope : String := "constructicon:read"

def maxPageSize : ℕ := 100

def AdmittedLimit (limit : ℕ) : Prop := 1 ≤ limit ∧ limit ≤ maxPageSize

instance (limit : ℕ) : Decidable (AdmittedLimit limit) := inferInstanceAs (Decidable (_ ∧ _))

/-- `_authorize` and `_limit_fault` -/
def admitQuery (actor : AuthenticatedActor) (limit : ℕ) : Except QueryFault Unit := do
  require (actor.Allows readScope) .authRequiredScope
  require (AdmittedLimit limit) .requestInvalid

/-- `_cursor_shape_fault` -/
def cursorShapeFault : QueryFault := .cursor .cursorInvalid

def Json.integer : Json → Option ℤ
  | .int n => some n
  | _ => none

def Json.index (j : Json) : Option ℕ := j.integer.bind fun n => if 0 ≤ n then some n.toNat else none

section

variable (sha : Sha256) (reader : JsonReader)

/-- `_decode_cursor` -/
def decodeCursor (actor : AuthenticatedActor) (cursor kind : String) (query : Json) :
    Except QueryFault CursorPayload :=
  (CursorCodec.decode sha reader cursor actor.actorId kind query).mapError .cursor

def nextCursor (actor : AuthenticatedActor) (kind : String) (query upperBound lastKey : Json) : String :=
  CursorCodec.encode sha actor.actorId kind query upperBound lastKey

/-! ## `runs_events` -/

/-- `max_event_seq` -/
def ControlStore.maxEventSeq (s : ControlStore) (runId : RunId) : ℕ :=
  ((s.eventsOf runId).map EventRow.seq).foldl max 0

/-- `events`: after a sequence number, in order, at most `limit`. -/
def ControlStore.eventsAfter (s : ControlStore) (runId : RunId) (afterSeq : ℤ) (limit : ℕ) : List EventRow :=
  (((s.eventsOf runId).filter (fun e => afterSeq < e.seq)).insertionSort (fun e f => e.seq ≤ f.seq)).take limit

structure EventPage extends Page EventRow String where
  throughSeq : ℤ

def eventsQuery (runId : RunId) : Json := .obj [("run_id", .str runId)]

/-- How far the events go, and after which one the page starts, as a cursor tells it. -/
def eventsCursor (actor : AuthenticatedActor) (runId : RunId) (s : ControlStore) (cursor : String) :
    Except QueryFault (ℤ × ℤ) := do
  let decoded ← decodeCursor sha reader actor cursor "run-events" (eventsQuery runId)
  let through ← expect decoded.upperBound.integer cursorShapeFault
  let afterSeq ← expect decoded.lastKey.integer cursorShapeFault
  require (0 ≤ afterSeq ∧ afterSeq ≤ through ∧ through ≤ s.maxEventSeq runId) cursorShapeFault
  return (through, afterSeq)

def eventsPage (actor : AuthenticatedActor) (runId : RunId) (s : ControlStore) (limit : ℕ) (span : ℤ × ℤ) :
    EventPage :=
  let events := (s.eventsAfter runId span.2 (limit + 1)).filter (fun e => (e.seq : ℤ) ≤ span.1)
  let visible := events.take limit
  let next := if limit < events.length then
      visible.getLast?.map fun last =>
        nextCursor sha actor "run-events" (eventsQuery runId) (.int span.1) (.int last.seq)
    else none
  ⟨⟨visible, next⟩, span.1⟩

def runsEvents (actor : AuthenticatedActor) (runId : RunId) (s : ControlStore) (cursor : Option String)
    (limit : ℕ) : Except QueryFault EventPage := do
  admitQuery actor limit
  require (runId ∈ s.runIds) .runUnknown
  let span ← cursor.elim (.ok (↑(s.maxEventSeq runId), 0)) (eventsCursor sha reader actor runId s)
  return eventsPage sha actor runId s limit span

/-! ## `runs_list` -/

/-- The status filter of the query; no filter and an empty one match every run. -/
def MatchesStatus (statuses : Option (List RunStatus)) (status : RunStatus) : Prop :=
  statuses.getD [] = [] ∨ status ∈ statuses.getD []

instance (statuses : Option (List RunStatus)) (status : RunStatus) : Decidable (MatchesStatus statuses status) :=
  inferInstanceAs (Decidable (_ ∨ _))

def RunEntry.key (r : RunEntry) : String ×ₗ String := toLex (r.createdAt.isoformat, r.runId)

def ControlStore.matching (s : ControlStore) (statuses : Option (List RunStatus)) : List RunEntry :=
  s.runs.filter (fun r => MatchesStatus statuses r.status)

/-- `latest_run_key` -/
def ControlStore.latestRunKey (s : ControlStore) (statuses : Option (List RunStatus)) :
    Option (String ×ₗ String) :=
  ((s.matching statuses).insertionSort (fun a b => b.key ≤ a.key)).head?.map RunEntry.key

/-- `run_records` between two keys -/
def ControlStore.runRecords (s : ControlStore) (statuses : Option (List RunStatus))
    (after : Option (String ×ₗ String)) (through : String ×ₗ String) (limit : ℕ) : List RunEntry :=
  Keyset.page RunEntry.key (s.matching statuses) after through limit

def runsQuery (statuses : Option (List RunStatus)) : Json :=
  .obj [("statuses", if statuses.getD [] = [] then .null
    else .arr ((statuses.getD []).map fun status => .str status.text))]

def keyJson (key : String ×ₗ String) : Json := .arr [.str (ofLex key).1, .str (ofLex key).2]

/-- `_pair` -/
def Json.pair : Json → Option (String ×ₗ String)
  | .arr [.str a, .str b] => some (toLex (a, b))
  | _ => none

/-- The last key of the first page's runs and the key a page starts after, as a cursor tells them. -/
def runsCursor (actor : AuthenticatedActor) (statuses : Option (List RunStatus)) (s : ControlStore)
    (cursor : String) : Except QueryFault (Option (String ×ₗ String) × Option (String ×ₗ String)) := do
  let decoded ← decodeCursor sha reader actor cursor "runs" (runsQuery statuses)
  let upper ← expect decoded.upperBound.pair cursorShapeFault
  let after ← expect decoded.lastKey.pair cursorShapeFault
  let currentMax ← expect (s.latestRunKey none) cursorShapeFault
  require (¬upper < after ∧ ¬currentMax < upper) cursorShapeFault
  return (some upper, some after)

def runsPage (actor : AuthenticatedActor) (statuses : Option (List RunStatus)) (s : ControlStore)
    (after : Option (String ×ₗ String)) (limit : ℕ) (upper : String ×ₗ String) : Page RunEntry String :=
  let records := s.runRecords statuses after upper (limit + 1)
  let visible := records.take limit
  ⟨visible, if limit < records.length then
      visible.getLast?.map fun last => nextCursor sha actor "runs" (runsQuery statuses) (keyJson upper) (keyJson last.key)
    else none⟩

def runsList (actor : AuthenticatedActor) (statuses : Option (List RunStatus)) (s : ControlStore)
    (cursor : Option String) (limit : ℕ) : Except QueryFault (Page RunEntry String) := do
  admitQuery actor limit
  let span ← cursor.elim (.ok (s.latestRunKey statuses, none)) (runsCursor sha reader actor statuses s)
  return span.1.elim ⟨[], none⟩ (runsPage sha actor statuses s span.2 limit)

/-! ## `registry_versions` and `registry_rdeps` -/

section Registry

variable {δ : Type} (codec : DefinitionCodec δ)

/-- `revision.model_dump(mode="json")` -/
def RegistryRevision.json (r : RegistryRevision) : Json :=
  .obj [("registration_seq", .int r.registrationSeq), ("promotion_seq", .int r.promotionSeq)]

/-- `RegistryRevision.model_validate` -/
def RegistryRevision.validate : Json → Option RegistryRevision
  | .obj body => do
    guard (hasKeys body ["registration_seq", "promotion_seq"])
    let registrationSeq ← (member body "registration_seq").index
    let promotionSeq ← (member body "promotion_seq").index
    return ⟨registrationSeq, promotionSeq⟩
  | _ => none

/-- How the error of a snapshot by revision leaves `_registry_cursor_snapshot`. -/
def snapshotFault : RegistryFault → QueryFault
  | .invalidRegistryRevision => cursorShapeFault
  | fault => .damaged fault

/-- The snapshot and the offset of a page, as a cursor tells them. -/
def registryCursor (actor : AuthenticatedActor) (kind : String) (query : Json) (s : ControlStore)
    (cursor : String) : Except QueryFault (RegistryCut δ × ℕ) := do
  let decoded ← decodeCursor sha reader actor cursor kind query
  let revision ← expect (RegistryRevision.validate decoded.upperBound) cursorShapeFault
  let cut ← (s.registry.snapshot codec (some revision)).mapError snapshotFault
  let offset ← expect decoded.lastKey.index cursorShapeFault
  return (cut, offset)

def registryCut (actor : AuthenticatedActor) (kind : String) (query : Json) (s : ControlStore) :
    Option String → Except QueryFault (RegistryCut δ × ℕ)
  | none => do
    let cut ← (s.registry.snapshot codec none).mapError .damaged
    return (cut, 0)
  | some cursor => registryCursor sha reader codec actor kind query s cursor

def offsetPage {ι : Type} (actor : AuthenticatedActor) (kind : String) (query : Json) (cut : RegistryCut δ)
    (items : List ι) (offset limit : ℕ) : Except QueryFault (Page ι String) := do
  require (offset ≤ items.length) cursorShapeFault
  let visible := (items.drop offset).take limit
  let nextOffset := offset + visible.length
  return ⟨visible, if nextOffset < items.length then
      some (nextCursor sha actor kind query cut.revision.json (.int nextOffset))
    else none⟩

structure VersionSummary where
  component : String
  version : Digest
  stable : Bool
  registeredAt : Instant
deriving DecidableEq

def versionsQuery (component : String) (candidatesOnly : Bool) : Json :=
  .obj [("component", .str component), ("candidates_only", .bool candidatesOnly)]

def RegistryCut.listed (cut : RegistryCut δ) (component : String) (candidatesOnly : Bool) : List Digest :=
  if candidatesOnly then
    (cut.order.getD component []).filter (fun version => cut.stable.get? component ≠ some version)
  else cut.order.getD component []

def RegistryCut.summary (cut : RegistryCut δ) (component : String) (version : Digest) :
    Except QueryFault VersionSummary := do
  let stored ← expect ((cut.versions.getD component .empty).get? version) .keyError
  return ⟨component, version, cut.stable.get? component = some version, stored.registeredAt⟩

def registryVersions (actor : AuthenticatedActor) (component : String) (candidatesOnly : Bool) (s : ControlStore)
    (cursor : Option String) (limit : ℕ) : Except QueryFault (Page VersionSummary String) := do
  admitQuery actor limit
  let query := versionsQuery component candidatesOnly
  let read ← registryCut sha reader codec actor "registry-versions" query s cursor
  require (read.1.versions.contains component) .registryVersionUnknown
  let page ← offsetPage sha actor "registry-versions" query read.1 (read.1.listed component candidatesOnly)
    read.2 limit
  let items ← page.items.mapM (read.1.summary component)
  return ⟨items, page.next⟩

def registryCandidates (actor : AuthenticatedActor) (component : String) (s : ControlStore)
    (cursor : Option String) (limit : ℕ) : Except QueryFault (Page VersionSummary String) :=
  registryVersions sha reader codec actor component true s cursor limit

end Registry

end

/-! ## Reverse dependencies -/

mutual

def refsOfBody : Body → List String
  | .ref r => [r.component]
  | .graph g => refsIn g
  | .loop ⟨.inl r, _, _, _⟩ => [r.component]
  | .loop ⟨.inr g, _, _, _⟩ => refsIn g

/-- `_refs_in` -/
def refsIn : GraphOf Body → List String
  | ⟨_, nodes, _, _, _⟩ => refsOfNodes nodes

def refsOfNodes : List (NodeOf Body) → List String
  | [] => []
  | ⟨_, body⟩ :: nodes => refsOfBody body ++ refsOfNodes nodes

end

section Rdeps

variable {δ : Type} (graphOf : δ → Option Graph)

/-- The set `direct[name]`: whose versions refer to a component. -/
def RegistryCut.dependents (cut : RegistryCut δ) (name : String) : List String :=
  ((cut.versions.entries.filter fun row => row.2.values.any fun stored =>
    (graphOf stored.definition).elim false fun g => (refsIn g).contains name).map Prod.fst).dedup

def unseen (owners seen : List String) : ℕ := (owners.filter (fun owner => owner ∉ seen)).length

theorem unseen_append {owners new : List String} (seen : List String) (distinct : new.Nodup)
    (inside : ∀ n ∈ new, n ∈ owners ∧ n ∉ seen) : unseen owners (seen ++ new) + new.length ≤ unseen owners seen := by
  have sub : new ⊆ owners.filter (fun owner => owner ∉ seen) := by
    intro n held
    exact List.mem_filter.mpr ⟨(inside n held).1, decide_eq_true (inside n held).2⟩
  obtain ⟨front, same, sublist⟩ := distinct.subperm sub
  obtain ⟨rest, perm⟩ := sublist.exists_perm_append
  replace perm := perm.trans (same.append_right rest)
  have split := perm.length_eq
  have left : unseen owners (seen ++ new) ≤ rest.length := by
    have kept : owners.filter (fun owner => owner ∉ seen ++ new) =
        (owners.filter (fun owner => owner ∉ seen)).filter (fun owner => owner ∉ new) := by
      rw [List.filter_filter]
      apply List.filter_congr
      intro owner _
      simp [not_or, and_comm]
    unfold unseen
    rw [kept, (perm.filter _).length_eq, List.filter_append, List.length_append]
    have none : new.filter (fun owner => owner ∉ new) = [] := by
      rw [List.filter_eq_nil_iff]
      intro n held
      simpa using held
    rw [none]
    simpa using List.length_filter_le _ rest
  rw [List.length_append] at split
  unfold unseen at left ⊢
  omega

variable (cut : RegistryCut δ)

def RegistryCut.fresh (name : String) (seen : List String) : List String :=
  (cut.dependents graphOf name).filter (fun dependent => dependent ∉ seen)

theorem RegistryCut.nodup_fresh (name : String) (seen : List String) : (cut.fresh graphOf name seen).Nodup :=
  (List.nodup_dedup _).filter _

theorem RegistryCut.mem_fresh {name : String} {seen : List String} {dependent : String}
    (h : dependent ∈ cut.fresh graphOf name seen) : dependent ∈ cut.versions.keys ∧ dependent ∉ seen := by
  obtain ⟨inside, new⟩ := List.mem_filter.mp h
  obtain ⟨row, held, rfl⟩ := List.mem_map.mp (List.mem_dedup.mp inside)
  exact ⟨List.mem_map_of_mem (List.mem_of_mem_filter held), of_decide_eq_true new⟩

/-- The loop of `rdeps`; the last name of the frontier stands first. -/
def RegistryCut.seen : List String → List String → List String
  | [], seen => seen
  | current :: frontier, seen =>
    RegistryCut.seen ((cut.fresh graphOf current seen).reverse ++ frontier) (seen ++ cut.fresh graphOf current seen)
termination_by frontier seen => 2 * unseen cut.versions.keys seen + frontier.length
decreasing_by
  have less : unseen cut.versions.keys (seen ++ cut.fresh graphOf current seen) +
      (cut.fresh graphOf current seen).length ≤ unseen cut.versions.keys seen :=
    unseen_append seen (cut.nodup_fresh graphOf current seen) fun _ held => cut.mem_fresh graphOf held
  simp only [List.length_append, List.length_reverse, List.length_cons]
  omega

/-- `rdeps` -/
def RegistryCut.rdeps (name : String) : List String :=
  (cut.seen graphOf [name] []).insertionSort (fun a b => a ≤ b)

def rdepsQuery (component : String) : Json := .obj [("component", .str component)]

def registryRdeps (sha : Sha256) (reader : JsonReader) (codec : DefinitionCodec δ) (actor : AuthenticatedActor)
    (component : String) (s : ControlStore) (cursor : Option String) (limit : ℕ) :
    Except QueryFault (Page String String) := do
  admitQuery actor limit
  let read ← registryCut sha reader codec actor "registry-rdeps" (rdepsQuery component) s cursor
  offsetPage sha actor "registry-rdeps" (rdepsQuery component) read.1 (read.1.rdeps graphOf component) read.2 limit

end Rdeps

end Constructicon
