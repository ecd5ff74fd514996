import Constructicon.ControlQueries

/-!
# What the pages enumerate

However the store is written between the pages, the pages of the events of a run, and of the versions or the
reverse dependencies of a component, show the list of the first page's cut; the pages of the runs go up, and
show once each run that matches all along.
-/

namespace Constructicon

open Transaction Paging IsoTime PyJson Numbered

variable {δ : Type} {codec : DefinitionCodec δ}

/-! ## The store between the pages -/

namespace ControlStore

structure Sound (codec : DefinitionCodec δ) (s : ControlStore) : Prop where
  distinct : s.runIds.Nodup
  counted : ∀ runId, Counted EventRow.seq 0 (s.eventsOf runId)
  registry : ∃ log, s.registry.Holds codec log

structure Grown (codec : DefinitionCodec δ) (s s' : ControlStore) : Prop where
  runs : ∀ r ∈ s.runs, ∃ r' ∈ s'.runs, r'.runId = r.runId ∧ r'.createdAt = r.createdAt
  events : ∀ runId, s.eventsOf runId <+: s'.eventsOf runId
  registry : ∀ log, s.registry.Holds codec log → ∃ log', s'.registry.Holds codec log' ∧ RegistryLog.Grown log log'

theorem Sound.empty : ({} : ControlStore).Sound codec where
  distinct := List.nodup_nil
  counted _ := rfl
  registry := ⟨{}, .empty⟩

theorem Grown.refl (s : ControlStore) : Grown codec s s where
  runs r held := ⟨r, held, rfl, rfl⟩
  events _ := List.prefix_rfl
  registry log held := ⟨log, held, .refl log⟩

theorem Grown.trans {s s' s'' : ControlStore} (h : Grown codec s s') (h' : Grown codec s' s'') :
    Grown codec s s'' where
  runs r held := by
    obtain ⟨r', held', id, at'⟩ := h.runs r held
    obtain ⟨r'', held'', id', at''⟩ := h'.runs r' held'
    exact ⟨r'', held'', id'.trans id, at''.trans at'⟩
  events runId := (h.events runId).trans (h'.events runId)
  registry log held := by
    obtain ⟨log', held', grown⟩ := h.registry log held
    obtain ⟨log'', held'', grown'⟩ := h'.registry log' held'
    exact ⟨log'', held'', grown.trans grown'⟩

def changed (runId : RunId) (status : RunStatus) (r : RunEntry) : RunEntry :=
  if r.runId = runId then { r with status := status } else r

theorem changed_runId (runId : RunId) (status : RunStatus) (r : RunEntry) :
    (changed runId status r).runId = r.runId := by
  unfold changed
  split_ifs <;> rfl

theorem changed_createdAt (runId : RunId) (status : RunStatus) (r : RunEntry) :
    (changed runId status r).createdAt = r.createdAt := by
  unfold changed
  split_ifs <;> rfl

theorem eventsOf_append (s : ControlStore) (e : EventRow) (runId : RunId) :
    ({ s with events := s.events ++ [e] } : ControlStore).eventsOf runId =
      s.eventsOf runId ++ if e.runId = runId then [e] else [] := by
  unfold eventsOf
  rw [List.filter_append, List.filter_singleton]
  by_cases same : e.runId = runId <;> simp [same]

variable [DecidableEq δ]

theorem sound_write {s : ControlStore} (sound : s.Sound codec) (w : ControlWrite δ) :
    (s.write codec w).Sound codec := by
  cases w with
  | createRun run =>
    unfold write
    dsimp only
    split_ifs with known
    · exact sound
    · refine ⟨?_, sound.counted, sound.registry⟩
      have split : ({ s with runs := s.runs ++ [run] } : ControlStore).runIds = s.runIds ++ [run.runId] := by
        simp [runIds]
      rw [split]
      exact List.nodup_append.mpr ⟨sound.distinct, List.nodup_singleton _, fun a held b new same => by
        rw [List.mem_singleton.mp new] at same
        exact known (same ▸ held)⟩
  | changeStatus runId status =>
    refine ⟨?_, sound.counted, sound.registry⟩
    have same : (s.write codec (.changeStatus runId status)).runIds = s.runIds := by
      change (s.runs.map (changed runId status)).map RunEntry.runId = _
      rw [List.map_map]
      exact List.map_congr_left fun r _ => changed_runId runId status r
    rw [same]
    exact sound.distinct
  | appendEvent runId kind path payload createdAt =>
    unfold write
    dsimp only
    split_ifs with known
    · refine ⟨sound.distinct, fun run => ?_, sound.registry⟩
      rw [eventsOf_append]
      by_cases same : runId = run
      · subst same
        rw [if_pos rfl]
        exact counted_append_singleton.mpr ⟨sound.counted runId, by simp⟩
      · rw [if_neg same, List.append_nil]
        exact sound.counted run
    · exact sound
  | registry call =>
    obtain ⟨log, held⟩ := sound.registry
    obtain ⟨log', held', -⟩ := held.settle call
    exact ⟨sound.distinct, sound.counted, log', held'⟩

theorem grown_write (s : ControlStore) (w : ControlWrite δ) : Grown codec s (s.write codec w) := by
  have same : Grown codec s s := .refl s
  cases w with
  | createRun run =>
    unfold write
    dsimp only
    split_ifs with known
    · exact same
    · exact ⟨fun r held => ⟨r, List.mem_append_left _ held, rfl, rfl⟩, same.events, same.registry⟩
  | changeStatus runId status =>
    refine ⟨fun r held => ?_, same.events, same.registry⟩
    exact ⟨changed runId status r, List.mem_map_of_mem held, changed_runId .., changed_createdAt ..⟩
  | appendEvent runId kind path payload createdAt =>
    unfold write
    dsimp only
    split_ifs with known
    · refine ⟨same.runs, fun run => ?_, same.registry⟩
      rw [eventsOf_append]
      exact List.prefix_append _ _
    · exact same
  | registry call => exact ⟨same.runs, same.events, fun log held => held.settle call⟩

theorem sound_writes {s : ControlStore} (sound : s.Sound codec) (writes : List (ControlWrite δ)) :
    (writes.foldl (write codec) s).Sound codec := by
  have keeps : ∀ (s : ControlStore) (w : ControlWrite δ), s.Sound codec → (s.write codec w).Sound codec :=
    fun _ w kept => sound_write kept w
  exact keeps_writes keeps sound writes

/-- The store of a later page: still sound, and grown from the first page's. -/
def After (codec : DefinitionCodec δ) (s s' : ControlStore) : Prop := s'.Sound codec ∧ Grown codec s s'

theorem after_write (first : ControlStore) (s : ControlStore) (w : ControlWrite δ) (after : After codec first s) :
    After codec first (s.write codec w) :=
  ⟨sound_write after.1 w, after.2.trans (grown_write s w)⟩

end ControlStore

/-! ## What the queries share -/

section

variable {sha : Sha256} {reader : JsonReader} {actor : AuthenticatedActor} {limit : ℕ}

theorem admitQuery_eq_ok : admitQuery actor limit = .ok () ↔ actor.Allows readScope ∧ AdmittedLimit limit := by
  simp [admitQuery]

theorem decodeCursor_next (kind : String) (query : Json) {upperBound lastKey : Json}
    (upper : WireValue noFloats upperBound) (last : WireValue noFloats lastKey) :
    decodeCursor sha reader actor (nextCursor sha actor kind query upperBound lastKey) kind query =
      .ok (CursorCodec.canonical (CursorCodec.payload sha actor.actorId kind query upperBound lastKey)) := by
  unfold decodeCursor nextCursor
  rw [CursorCodec.decode_encode actor.actorId kind query upper last]
  rfl

/-! ## Events -/

section Events

variable {s : ControlStore} {runId : RunId} {items : List EventRow}

theorem maxEventSeq_eq (sound : s.Sound codec) (runId : RunId) :
    s.maxEventSeq runId = (s.eventsOf runId).length :=
  (sound.counted runId).max

theorem eventsAfter_eq (sound : s.Sound codec) (runId : RunId) (offset limit : ℕ) :
    s.eventsAfter runId offset limit = ((s.eventsOf runId).drop offset).take limit := by
  have past := (sound.counted runId).after offset
  have same : (s.eventsOf runId).filter (fun e => (offset : ℤ) < e.seq) = (s.eventsOf runId).drop offset := by
    rw [← past]
    apply List.filter_congr
    intro e _
    simp
  have sorted : ((s.eventsOf runId).drop offset).Pairwise (fun e f => e.seq ≤ f.seq) :=
    (sound.counted runId).sorted.sublist (List.drop_sublist _ _)
  unfold ControlStore.eventsAfter
  rw [same, sorted.insertionSort_eq]

theorem eventsAfter_upto (sound : s.Sound codec) (grown : items <+: s.eventsOf runId) {offset : ℕ}
    (inside : offset ≤ items.length) (limit : ℕ) :
    (s.eventsAfter runId offset limit).filter (fun e => (e.seq : ℤ) ≤ items.length) =
      (items.drop offset).take limit := by
  have within := grown.length_le
  have counted := ((sound.counted runId).drop (n := offset) (by omega)).front
    (List.take_prefix limit ((s.eventsOf runId).drop offset))
  have upto := counted.upto (items.length - offset)
  have same : 0 + offset + (items.length - offset) = items.length := by omega
  rw [same] at upto
  rw [eventsAfter_eq sound]
  have cast : (((s.eventsOf runId).drop offset).take limit).filter (fun e => (e.seq : ℤ) ≤ items.length) =
      (((s.eventsOf runId).drop offset).take limit).filter (fun e => e.seq ≤ items.length) := by
    apply List.filter_congr
    intro e _
    simp
  rw [cast, upto]
  obtain ⟨rest, split⟩ := grown
  rw [← split, List.take_take, List.drop_append_of_le_length inside, Nat.min_comm, ← List.take_take,
    List.take_append_of_le_length (by rw [List.length_drop])]
  rw [List.take_of_length_le (l := items.drop offset) (by rw [List.length_drop])]

/-- What a cursor of the events tells, when the first page went up to `through`. -/
def EventsAt (sha : Sha256) (actor : AuthenticatedActor) (runId : RunId) (through : ℕ) (cursor : String)
    (offset : ℕ) : Prop :=
  cursor = nextCursor sha actor "run-events" (eventsQuery runId) (.int through) (.int offset)

theorem eventsPage_slice (sound : s.Sound codec) (grown : items <+: s.eventsOf runId) {offset : ℕ}
    (inside : offset ≤ items.length) (positive : 0 < limit) :
    Slice items (EventsAt sha actor runId items.length) offset limit
      (eventsPage sha actor runId s limit (items.length, offset)).toPage := by
  have cut := eventsAfter_upto sound grown inside (limit + 1)
  have counted : Counted EventRow.seq (0 + offset) (items.drop offset) :=
    ((sound.counted runId).front grown).drop inside
  have visible : ((items.drop offset).take (limit + 1)).take limit = (items.drop offset).take limit := by
    rw [List.take_take, Nat.min_eq_left (by omega)]
  unfold eventsPage
  dsimp only
  rw [cut, visible]
  constructor
  · rfl
  · intro c next
    split_ifs at next with more
    · rw [List.length_take, List.length_drop] at more
      obtain ⟨last, ending, rfl⟩ := Option.map_eq_some_iff.mp next
      have number := (counted.front (List.take_prefix limit _)).last ending
      rw [List.length_take, List.length_drop] at number
      have same : last.seq = offset + limit := by omega
      refine ⟨?_, by omega⟩
      rw [EventsAt, same]
    · cases next
  · intro none
    split_ifs at none with more
    · rw [List.length_take, List.length_drop] at more
      rw [Option.map_eq_none_iff, List.getLast?_eq_none_iff, List.take_eq_nil_iff, List.drop_eq_nil_iff] at none
      omega
    · rw [List.length_take, List.length_drop] at more
      omega

theorem runsEvents_next {first : ControlStore} (after : ControlStore.After codec first s)
    (allowed : actor.Allows readScope) (known : runId ∈ first.runIds) {cursor : String} {offset : ℕ}
    (told : EventsAt sha actor runId (first.eventsOf runId).length cursor offset)
    (inside : offset ≤ (first.eventsOf runId).length) (admitted : AdmittedLimit limit) :
    ∃ page, (runsEvents sha reader actor runId s (some cursor) limit).map EventPage.toPage = .ok page ∧
      Slice (first.eventsOf runId) (EventsAt sha actor runId (first.eventsOf runId).length) offset limit page := by
  obtain ⟨sound, grown⟩ := after
  have still : runId ∈ s.runIds := by
    obtain ⟨r, held, rfl⟩ := List.mem_map.mp known
    obtain ⟨r', held', same, -⟩ := grown.runs r held
    exact List.mem_map.mpr ⟨r', held', same⟩
  have within := (grown.events runId).length_le
  have span : eventsCursor sha reader actor runId s cursor = .ok (↑(first.eventsOf runId).length, ↑offset) := by
    rw [told, eventsCursor, decodeCursor_next "run-events" (eventsQuery runId) (.int _) (.int _), ok_bind]
    change (require _ _ >>= fun _ => _) = _
    rw [require_of, ok_bind]
    · rfl
    · rw [maxEventSeq_eq sound]
      omega
  refine ⟨_, ?_, eventsPage_slice sound (grown.events runId) inside admitted.1⟩
  rw [runsEvents, admitQuery_eq_ok.mpr ⟨allowed, admitted⟩, ok_bind, require_of still, ok_bind, Option.elim_some,
    span]
  rfl

/-- The pages of `runs_events`. -/
def followEvents [DecidableEq δ] (codec : DefinitionCodec δ) (sha : Sha256) (reader : JsonReader)
    (actor : AuthenticatedActor) (runId : RunId) (rounds : List (List (ControlWrite δ) × ℕ)) :
    List (Visit ControlStore EventRow String QueryFault) :=
  follow (fun s cursor limit => (runsEvents sha reader actor runId s cursor limit).map EventPage.toPage)
    (ControlStore.write codec) {} none rounds

theorem runsEvents_enumerates [DecidableEq δ] {history : List (ControlWrite δ)} {first : ControlStore}
    (reached : history.foldl (ControlStore.write codec) {} = first) {page : EventPage}
    (answer : runsEvents sha reader actor runId first none limit = .ok page)
    {rounds : List (List (ControlWrite δ) × ℕ)} (admitted : ∀ r ∈ rounds, AdmittedLimit r.2) :
    Counted EventRow.seq 0 (first.eventsOf runId) ∧ page.throughSeq = (first.eventsOf runId).length ∧
      Enumerates (first.eventsOf runId) (rounds.length + 1)
        (followEvents codec sha reader actor runId ((history, limit) :: rounds)) := by
  have sound : first.Sound codec := reached ▸ ControlStore.sound_writes .empty history
  have shown : (runsEvents sha reader actor runId first none limit).map EventPage.toPage = .ok page.toPage := by
    rw [answer]
    rfl
  simp only [runsEvents, bind_eq_ok, require_eq_ok, exists_const, Option.elim_none] at answer
  obtain ⟨⟨⟩, allowed, known, span, spans, same⟩ := answer
  obtain ⟨allowed, here⟩ := admitQuery_eq_ok.mp allowed
  have whole := maxEventSeq_eq sound runId
  rw [whole] at spans
  cases spans
  cases same
  refine ⟨sound.counted runId, rfl, ?_⟩
  have slice : Slice (first.eventsOf runId) (EventsAt sha actor runId (first.eventsOf runId).length) 0 limit
      (eventsPage sha actor runId first limit ((first.eventsOf runId).length, (0 : ℕ))).toPage :=
    eventsPage_slice sound (List.prefix_refl _) (Nat.zero_le _) here.1
  have after : ControlStore.After codec first first := ⟨sound, .refl first⟩
  exact follow_list (ControlStore.after_write first)
    (fun s c offset limit good told inside admitted => runsEvents_next good allowed known told inside admitted)
    (fun limit admitted => admitted.1) reached after here shown slice admitted

end Events

/-! ## Lists of a snapshot -/

section Snapshots

variable {s first : ControlStore} {shown : RegistryCut δ} {kind : String} {query : Json}

theorem validate_json (r : RegistryRevision) : RegistryRevision.validate r.json.canonical = some r := by
  have keys : ([("registration_seq", Json.int r.registrationSeq), ("promotion_seq", Json.int r.promotionSeq)].map
      Prod.fst).Nodup := by
    change ["registration_seq", "promotion_seq"].Nodup
    decide
  have all : hasKeys (Json.sortKeys ([("registration_seq", Json.int r.registrationSeq),
      ("promotion_seq", Json.int r.promotionSeq)].map fun e => (e.1, e.2.canonical)))
        ["registration_seq", "promotion_seq"] = true :=
    hasKeys_of_perm ((Json.sortKeys_perm _).map Prod.fst)
  unfold RegistryRevision.json
  rw [Json.canonical_obj]
  unfold RegistryRevision.validate
  dsimp only
  rw [all, member, find_canonical keys List.mem_cons_self, member,
    find_canonical keys (List.mem_cons_of_mem _ List.mem_cons_self)]
  simp [Json.canonical, Json.index, Json.integer]

/-- What the cursor of a page of a list tells: the revision of the snapshot, and an offset. -/
def ListAt (sha : Sha256) (actor : AuthenticatedActor) (kind : String) (query : Json) (shown : RegistryCut δ)
    (cursor : String) (offset : ℕ) : Prop :=
  cursor = nextCursor sha actor kind query shown.revision.json (.int offset)

theorem snapshot_again (sound : first.Sound codec) (after : ControlStore.After codec first s)
    (taken : first.registry.snapshot codec none = .ok shown) :
    s.registry.snapshot codec (some shown.revision) = .ok shown := by
  obtain ⟨log, held⟩ := sound.registry
  obtain ⟨log', held', grown⟩ := after.2.registry log held
  exact (cutLaw_of_logs _ _ held'.coherent held.snapshot held'.snapshot grown).same none shown taken

theorem registryCut_next (sound : first.Sound codec) (after : ControlStore.After codec first s)
    (taken : first.registry.snapshot codec none = .ok shown) {cursor : String} {offset : ℕ}
    (told : ListAt sha actor kind query shown cursor offset) :
    registryCut sha reader codec actor kind query s (some cursor) = .ok (shown, offset) := by
  have wire : WireValue noFloats shown.revision.json := by
    refine .obj ?_ ?_
    · change ["registration_seq", "promotion_seq"].Nodup
      decide
    · intro e held
      simp only [List.mem_cons, List.not_mem_nil, or_false] at held
      rcases held with rfl | rfl
      · exact .int _
      · exact .int _
  rw [told, registryCut, registryCursor, decodeCursor_next kind query wire (.int _), ok_bind]
  change (expect (RegistryRevision.validate shown.revision.json.canonical) _ >>= fun _ => _) = _
  rw [validate_json, expect_some, ok_bind, snapshot_again sound after taken]
  rfl

theorem offsetPage_slice {ι : Type} {items : List ι} {offset : ℕ} (inside : offset ≤ items.length) :
    ∃ page, offsetPage sha actor kind query shown items offset limit = .ok page ∧
      Slice items (ListAt sha actor kind query shown) offset limit page := by
  unfold offsetPage
  rw [require_of inside, ok_bind]
  refine ⟨_, rfl, rfl, ?_, ?_⟩
  · intro c next
    dsimp only at next
    rw [List.length_take, List.length_drop] at next
    split_ifs at next with more
    have whole : min limit (items.length - offset) = limit := by omega
    rw [whole] at next more
    · exact ⟨(Option.some.inj next).symm, more⟩
    · cases next
  · intro none
    dsimp only at none
    rw [List.length_take, List.length_drop] at none
    split_ifs at none with more
    omega

theorem order_registered (sound : first.Sound codec) (taken : first.registry.snapshot codec none = .ok shown)
    (component : String) :
    (shown.order.getD component []).Nodup ∧
      ∀ version ∈ shown.order.getD component [], ∃ stored,
        (shown.versions.getD component .empty).get? version = some stored := by
  obtain ⟨log, held⟩ := sound.registry
  rw [held.snapshot] at taken
  obtain ⟨-, -, -, cut⟩ := RegistryLog.snapshot_ok taken
  obtain ⟨-, versions, order, -, -⟩ := RegistryLog.cut_ok cut
  have once : ((log.registrations.take shown.revision.registrationSeq).map codec.key).Nodup := by
    rw [List.map_take]
    exact held.coherent.filed_once.take
  rw [order, versions, RegistryLog.filedUpto, RegistryLog.getD_order]
  refine ⟨RegistryLog.nodup_itemsOf_filed once component, fun version listed => ?_⟩
  obtain ⟨item, inside, rfl⟩ := List.mem_map.mp listed
  obtain ⟨registered, key⟩ := RegistryLog.mem_itemsOf_filed.mp inside
  rw [RegistryLog.get?_versions once]
  apply Option.isSome_iff_exists.mp
  rw [List.find?_isSome]
  exact ⟨item.2, registered, by simpa using key⟩

theorem listed_sublist (component : String) (candidatesOnly : Bool) :
    (shown.listed component candidatesOnly).Sublist (shown.order.getD component []) := by
  unfold RegistryCut.listed
  split_ifs
  · exact List.filter_sublist
  · exact List.Sublist.refl _

theorem summaries_exist (sound : first.Sound codec) (taken : first.registry.snapshot codec none = .ok shown)
    (component : String) (candidatesOnly : Bool) :
    ∃ summaries, (shown.listed component candidatesOnly).mapM (shown.summary component) = .ok summaries := by
  apply mapM_of
  intro version listed
  obtain ⟨stored, found⟩ := (order_registered sound taken component).2 version
    ((listed_sublist component candidatesOnly).subset listed)
  unfold RegistryCut.summary
  rw [found]
  exact ⟨_, rfl⟩

theorem summary_version {component version : String} {summary : VersionSummary}
    (h : shown.summary component version = .ok summary) : summary.version = version := by
  unfold RegistryCut.summary at h
  rw [bind_eq_ok] at h
  obtain ⟨stored, -, same⟩ := h
  cases same
  rfl

theorem summaries_versions {component : String} {versions : List Digest} {summaries : List VersionSummary}
    (h : versions.mapM (shown.summary component) = .ok summaries) :
    summaries.map VersionSummary.version = versions := by
  have pairs := forall₂_of_mapM h
  clear h
  induction pairs with
  | nil => rfl
  | cons head _ ih => rw [List.map_cons, summary_version head, ih]

theorem slice_mapM {ι κ : Type} {items : List ι} {readings : List κ} {f : ι → Except QueryFault κ}
    {At : String → ℕ → Prop} {offset : ℕ} (read : items.mapM f = .ok readings) {page : Page ι String}
    (slice : Slice items At offset limit page) :
    ∃ shown, page.items.mapM f = .ok shown ∧ Slice readings At offset limit ⟨shown, page.next⟩ := by
  have pairs := forall₂_of_mapM read
  have same := pairs.length_eq
  refine ⟨(readings.drop offset).take limit, ?_, rfl, ?_, ?_⟩
  · rw [slice.shown]
    exact mapM_of_forall₂ (List.forall₂_take limit (List.forall₂_drop offset pairs))
  · intro c next
    rw [← same]
    exact slice.more c next
  · intro none
    rw [← same]
    exact slice.last none

theorem registryVersions_read {component : String} {candidatesOnly : Bool} {cursor : Option String} {offset : ℕ}
    (allowed : actor.Allows readScope) (admitted : AdmittedLimit limit)
    (read : registryCut sha reader codec actor "registry-versions" (versionsQuery component candidatesOnly) s
      cursor = .ok (shown, offset))
    (known : shown.versions.contains component)
    {summaries : List VersionSummary}
    (whole : (shown.listed component candidatesOnly).mapM (shown.summary component) = .ok summaries)
    (inside : offset ≤ summaries.length) :
    ∃ page, registryVersions sha reader codec actor component candidatesOnly s cursor limit = .ok page ∧
      Slice summaries (ListAt sha actor "registry-versions" (versionsQuery component candidatesOnly) shown)
        offset limit page := by
  have same := (forall₂_of_mapM whole).length_eq
  have within : offset ≤ (shown.listed component candidatesOnly).length := same ▸ inside
  obtain ⟨page, answer, slice⟩ : ∃ page, offsetPage sha actor "registry-versions"
      (versionsQuery component candidatesOnly) shown (shown.listed component candidatesOnly) offset limit = .ok page ∧
        Slice (shown.listed component candidatesOnly)
          (ListAt sha actor "registry-versions" (versionsQuery component candidatesOnly) shown) offset limit page :=
    offsetPage_slice within
  obtain ⟨items, summed, slice⟩ := slice_mapM whole slice
  refine ⟨⟨items, page.next⟩, ?_, slice⟩
  unfold registryVersions
  rw [admitQuery_eq_ok.mpr ⟨allowed, admitted⟩, ok_bind]
  dsimp only
  rw [read, ok_bind, require_of known, ok_bind, answer, ok_bind, summed]
  rfl

/-- The pages of `registry_versions`. -/
def followVersions [DecidableEq δ] (codec : DefinitionCodec δ) (sha : Sha256) (reader : JsonReader)
    (actor : AuthenticatedActor) (component : String) (candidatesOnly : Bool)
    (rounds : List (List (ControlWrite δ) × ℕ)) : List (Visit ControlStore VersionSummary String QueryFault) :=
  follow (registryVersions sha reader codec actor component candidatesOnly) (ControlStore.write codec) {} none rounds

theorem registryVersions_enumerates [DecidableEq δ] {history : List (ControlWrite δ)}
    (reached : history.foldl (ControlStore.write codec) {} = first) {component : String} {candidatesOnly : Bool}
    {page : Page VersionSummary String}
    (answer : registryVersions sha reader codec actor component candidatesOnly first none limit = .ok page)
    {rounds : List (List (ControlWrite δ) × ℕ)} (admitted : ∀ r ∈ rounds, AdmittedLimit r.2) :
    ∃ shown summaries, first.registry.snapshot codec none = .ok shown ∧
      (shown.listed component candidatesOnly).mapM (shown.summary component) = .ok summaries ∧
      summaries.map VersionSummary.version = shown.listed component candidatesOnly ∧
      (shown.listed component candidatesOnly).Nodup ∧
      Enumerates summaries (rounds.length + 1)
        (followVersions codec sha reader actor component candidatesOnly ((history, limit) :: rounds)) := by
  have sound : first.Sound codec := reached ▸ ControlStore.sound_writes .empty history
  have answered := answer
  simp only [registryVersions, bind_eq_ok, require_eq_ok, exists_const] at answered
  obtain ⟨⟨⟩, allowed, read, cut, known, -⟩ := answered
  obtain ⟨allowed, here⟩ := admitQuery_eq_ok.mp allowed
  simp only [registryCut, bind_eq_ok, mapError_eq_ok] at cut
  obtain ⟨shown, taken, same⟩ := cut
  cases same
  obtain ⟨summaries, whole⟩ := summaries_exist sound taken component candidatesOnly
  have distinct := (order_registered sound taken component).1.sublist (listed_sublist component candidatesOnly)
  refine ⟨shown, summaries, taken, whole, summaries_versions whole, distinct, ?_⟩
  have start : registryCut sha reader codec actor "registry-versions" (versionsQuery component candidatesOnly)
      first none = .ok (shown, 0) := by
    rw [registryCut, taken]
    rfl
  obtain ⟨page', answer', slice⟩ := registryVersions_read allowed here start known whole (Nat.zero_le _)
  have after : ControlStore.After codec first first := ⟨sound, .refl first⟩
  exact follow_list (ControlStore.after_write first)
    (fun s c offset limit good told inside admitted =>
      registryVersions_read allowed admitted (registryCut_next sound good taken told) known whole inside)
    (fun limit admitted => admitted.1) reached after here answer' slice admitted

/-! ### Reverse dependencies -/

theorem nodup_seen (graphOf : δ → Option Graph) (frontier seen : List String) (distinct : seen.Nodup) :
    (shown.seen graphOf frontier seen).Nodup := by
  induction frontier, seen using RegistryCut.seen.induct graphOf shown with
  | case1 seen =>
    rw [RegistryCut.seen]
    exact distinct
  | case2 current frontier seen ih =>
    rw [RegistryCut.seen]
    apply ih
    refine List.nodup_append.mpr ⟨distinct, shown.nodup_fresh graphOf current seen, ?_⟩
    intro a old b new same
    exact (shown.mem_fresh graphOf new).2 (same ▸ old)

theorem nodup_rdeps (graphOf : δ → Option Graph) (name : String) : (shown.rdeps graphOf name).Nodup := by
  unfold RegistryCut.rdeps
  rw [(List.perm_insertionSort _ _).nodup_iff]
  exact nodup_seen graphOf [name] [] List.nodup_nil

theorem registryRdeps_read {graphOf : δ → Option Graph} {component : String} {cursor : Option String} {offset : ℕ}
    (allowed : actor.Allows readScope) (admitted : AdmittedLimit limit)
    (read : registryCut sha reader codec actor "registry-rdeps" (rdepsQuery component) s cursor =
      .ok (shown, offset))
    (inside : offset ≤ (shown.rdeps graphOf component).length) :
    ∃ page, registryRdeps graphOf sha reader codec actor component s cursor limit = .ok page ∧
      Slice (shown.rdeps graphOf component) (ListAt sha actor "registry-rdeps" (rdepsQuery component) shown)
        offset limit page := by
  unfold registryRdeps
  rw [admitQuery_eq_ok.mpr ⟨allowed, admitted⟩, ok_bind, read, ok_bind]
  exact offsetPage_slice inside

/-- The pages of `registry_rdeps`. -/
def followRdeps [DecidableEq δ] (graphOf : δ → Option Graph) (codec : DefinitionCodec δ) (sha : Sha256)
    (reader : JsonReader) (actor : AuthenticatedActor) (component : String)
    (rounds : List (List (ControlWrite δ) × ℕ)) : List (Visit ControlStore String String QueryFault) :=
  follow (registryRdeps graphOf sha reader codec actor component) (ControlStore.write codec) {} none rounds

theorem registryRdeps_enumerates [DecidableEq δ] {graphOf : δ → Option Graph} {history : List (ControlWrite δ)}
    (reached : history.foldl (ControlStore.write codec) {} = first) {component : String} {page : Page String String}
    (answer : registryRdeps graphOf sha reader codec actor component first none limit = .ok page)
    {rounds : List (List (ControlWrite δ) × ℕ)} (admitted : ∀ r ∈ rounds, AdmittedLimit r.2) :
    ∃ shown, first.registry.snapshot codec none = .ok shown ∧ (shown.rdeps graphOf component).Nodup ∧
      Enumerates (shown.rdeps graphOf component) (rounds.length + 1)
        (followRdeps graphOf codec sha reader actor component ((history, limit) :: rounds)) := by
  have sound : first.Sound codec := reached ▸ ControlStore.sound_writes .empty history
  have answered := answer
  simp only [registryRdeps, bind_eq_ok] at answered
  obtain ⟨⟨⟩, allowed, read, cut, -⟩ := answered
  obtain ⟨allowed, here⟩ := admitQuery_eq_ok.mp allowed
  simp only [registryCut, bind_eq_ok, mapError_eq_ok] at cut
  obtain ⟨shown, taken, same⟩ := cut
  cases same
  refine ⟨shown, taken, nodup_rdeps graphOf component, ?_⟩
  have start : registryCut sha reader codec actor "registry-rdeps" (rdepsQuery component) first none =
      .ok (shown, 0) := by
    rw [registryCut, taken]
    rfl
  have inside : 0 ≤ (shown.rdeps graphOf component).length := Nat.zero_le _
  obtain ⟨page', answer', slice⟩ := registryRdeps_read allowed here start inside
  have after : ControlStore.After codec first first := ⟨sound, .refl first⟩
  exact follow_list (ControlStore.after_write first)
    (fun s c offset limit good told inside admitted =>
      registryRdeps_read allowed admitted (registryCut_next sound good taken told) inside)
    (fun limit admitted => admitted.1) reached after here answer' slice admitted

end Snapshots

/-! ## Runs -/

section Runs

variable {s first : ControlStore} {statuses : Option (List RunStatus)} {upper : String ×ₗ String}

theorem mem_matching {r : RunEntry} : r ∈ s.matching statuses ↔ r ∈ s.runs ∧ MatchesStatus statuses r.status := by
  simp [ControlStore.matching]

theorem distinct_keys (sound : s.Sound codec) : ((s.matching statuses).map RunEntry.key).Nodup := by
  have ids : ((s.matching statuses).map RunEntry.runId).Nodup :=
    sound.distinct.sublist (List.filter_sublist.map RunEntry.runId)
  have second : (s.matching statuses).map RunEntry.runId =
      ((s.matching statuses).map RunEntry.key).map fun key => (ofLex key).2 := by
    rw [List.map_map]
    rfl
  rw [second] at ids
  exact List.Nodup.of_map _ ids

theorem latestRunKey_some (h : s.latestRunKey statuses = some upper) :
    (∃ r ∈ s.matching statuses, r.key = upper) ∧ ∀ r ∈ s.matching statuses, r.key ≤ upper := by
  obtain ⟨last, ending, rfl⟩ := Option.map_eq_some_iff.mp h
  have perm := List.perm_insertionSort (fun a b : RunEntry => b.key ≤ a.key) (s.matching statuses)
  have total : Std.Total (fun a b : RunEntry => b.key ≤ a.key) := ⟨fun a b => le_total _ _⟩
  have trans : IsTrans RunEntry (fun a b => b.key ≤ a.key) := ⟨fun _ _ _ h h' => le_trans h' h⟩
  have sorted := List.pairwise_insertionSort (fun a b : RunEntry => b.key ≤ a.key) (s.matching statuses)
  obtain ⟨rest, split⟩ := List.head?_eq_some_iff.mp ending
  rw [split] at perm sorted
  refine ⟨⟨last, perm.mem_iff.mp List.mem_cons_self, rfl⟩, fun r held => ?_⟩
  rcases List.mem_cons.mp (perm.mem_iff.mpr held) with rfl | later
  · exact le_refl _
  · exact (List.pairwise_cons.mp sorted).1 r later

theorem latestRunKey_none (h : s.latestRunKey statuses = none) : s.matching statuses = [] := by
  have empty := List.head?_eq_none_iff.mp (Option.map_eq_none_iff.mp h)
  have perm := List.perm_insertionSort (fun a b : RunEntry => b.key ≤ a.key) (s.matching statuses)
  rw [empty] at perm
  exact perm.symm.eq_nil

/-- What a cursor of the runs tells, when the first page went up to `upper`. -/
def RunsAt (sha : Sha256) (actor : AuthenticatedActor) (statuses : Option (List RunStatus))
    (upper : String ×ₗ String) (cursor : String) (after : String ×ₗ String) : Prop :=
  cursor = nextCursor sha actor "runs" (runsQuery statuses) (keyJson upper) (keyJson after)

theorem runsPage_window (sound : s.Sound codec) (after : Option (String ×ₗ String)) (positive : 0 < limit) :
    Window RunEntry.key (s.matching statuses) (RunsAt sha actor statuses upper) after upper limit
      (runsPage sha actor statuses s after limit upper) := by
  have visible : (s.runRecords statuses after upper (limit + 1)).take limit =
      Keyset.page RunEntry.key (s.matching statuses) after upper limit := by
    unfold ControlStore.runRecords Keyset.page
    rw [List.take_take, Nat.min_eq_left (by omega)]
  have length : (s.runRecords statuses after upper (limit + 1)).length =
      min (limit + 1) (Keyset.window RunEntry.key (s.matching statuses) after upper).length := Keyset.length_page
  unfold runsPage
  dsimp only
  rw [visible, length]
  refine ⟨distinct_keys sound, rfl, ?_, ?_⟩
  · intro c next
    dsimp only at next
    split_ifs at next
    · obtain ⟨last, ending, rfl⟩ := Option.map_eq_some_iff.mp next
      exact ⟨last, ending, rfl⟩
    · cases next
  · intro none
    dsimp only at none
    split_ifs at none with more
    · have empty := List.getLast?_eq_none_iff.mp (Option.map_eq_none_iff.mp none)
      have zero : (Keyset.page RunEntry.key (s.matching statuses) after upper limit).length = 0 := by
        rw [empty]
        rfl
      rw [Keyset.length_page] at zero
      omega
    · omega

theorem wire_key (key : String ×ₗ String) : WireValue noFloats (keyJson key) := by
  refine .arr fun j held => ?_
  simp only [List.mem_cons, List.not_mem_nil, or_false] at held
  rcases held with rfl | rfl
  · exact .str _
  · exact .str _

theorem pair_key (key : String ×ₗ String) : (keyJson key).canonical.pair = some key := rfl

theorem runsList_next (after : ControlStore.After codec first s) (allowed : actor.Allows readScope)
    (known : ∃ r ∈ first.runs, r.key = upper) {cursor : String} {a : String ×ₗ String}
    (told : RunsAt sha actor statuses upper cursor a) (below : a ≤ upper) (admitted : AdmittedLimit limit) :
    ∃ page, runsList sha reader actor statuses s (some cursor) limit = .ok page ∧
      Window RunEntry.key (s.matching statuses) (RunsAt sha actor statuses upper) (some a) upper limit page := by
  obtain ⟨sound, grown⟩ := after
  obtain ⟨r, held, rfl⟩ := known
  obtain ⟨r', held', id, at'⟩ := grown.runs r held
  have same : r'.key = r.key := by
    unfold RunEntry.key
    rw [id, at']
  have every : r' ∈ s.matching none := mem_matching.mpr ⟨held', .inl rfl⟩
  obtain ⟨latest, found⟩ : ∃ latest, s.latestRunKey none = some latest := by
    cases found : s.latestRunKey none with
    | none =>
      rw [latestRunKey_none found] at every
      exact absurd every List.not_mem_nil
    | some latest => exact ⟨latest, rfl⟩
  have reached : r.key ≤ latest := same ▸ (latestRunKey_some found).2 r' every
  have span : runsCursor sha reader actor statuses s cursor = .ok (some r.key, some a) := by
    rw [told, runsCursor, decodeCursor_next "runs" (runsQuery statuses) (wire_key _) (wire_key _), ok_bind]
    change (expect (keyJson r.key).canonical.pair _ >>= fun _ =>
      expect (keyJson a).canonical.pair _ >>= fun _ => _) = _
    rw [pair_key, pair_key, expect_some, ok_bind, expect_some, ok_bind, found, expect_some, ok_bind,
      require_of ⟨not_lt_of_ge below, not_lt_of_ge reached⟩]
    rfl
  refine ⟨_, ?_, runsPage_window sound (some a) admitted.1⟩
  rw [runsList, admitQuery_eq_ok.mpr ⟨allowed, admitted⟩, ok_bind, Option.elim_some, span]
  rfl

/-- Two runs in the order of `created_at` and `run_id`. -/
def RunEntry.Before (a b : RunEntry) : Prop :=
  a.createdAt < b.createdAt ∨ a.createdAt = b.createdAt ∧ a.runId < b.runId

theorem before_of_key {a b : RunEntry} (h : a.key < b.key) : a.Before b := by
  rcases Prod.Lex.toLex_lt_toLex.mp h with earlier | ⟨same, ids⟩
  · exact .inl (isoformat_lt.mp earlier)
  · exact .inr ⟨isoformat_injective same, ids⟩

/-- What the pages of the runs come to: none is refused, the runs go up and each is shown once, as it matched
in the store its page was asked of; a run that matches at every page is shown once they have ended; and they
end, unless there are as many pages as runs. -/
structure RunsListed (statuses : Option (List RunStatus)) (rounds : ℕ) (final : ControlStore)
    (visits : List (Visit ControlStore RunEntry String QueryFault)) : Prop where
  answered : ∀ v ∈ visits, ∃ page, v.answer = .ok page
  order : (itemsOf visits).Pairwise RunEntry.Before
  once : ((itemsOf visits).map RunEntry.runId).Nodup
  source : ∀ v ∈ visits, ∀ r ∈ v.items, r ∈ v.store.runs ∧ MatchesStatus statuses r.status
  complete : Ended visits → ∀ runId,
    (∀ v ∈ visits, ∃ r ∈ v.store.runs, r.runId = runId ∧ MatchesStatus statuses r.status) →
      ((itemsOf visits).map RunEntry.runId).count runId = 1
  ends : final.runs.length < rounds → Ended visits

theorem key_of_grown {t final : ControlStore} (sound : final.Sound codec)
    (before : ControlStore.Grown codec s final) (before' : ControlStore.Grown codec t final) {r r' : RunEntry}
    (held : r ∈ s.runs) (held' : r' ∈ t.runs) (same : r.runId = r'.runId) : r.key = r'.key := by
  obtain ⟨q, inside, id, at'⟩ := before.runs r held
  obtain ⟨q', inside', id', at''⟩ := before'.runs r' held'
  have equal : q = q' := Dict.eq_of_nodup_map sound.distinct inside inside' (id.trans (same.trans id'.symm))
  unfold RunEntry.key
  rw [same, ← at', equal, at'']

theorem listed_of_climbs {rounds : ℕ} {final : ControlStore}
    {visits : List (Visit ControlStore RunEntry String QueryFault)} (sound : final.Sound codec)
    (grown : ∀ v ∈ visits, ControlStore.Grown codec v.store final)
    (climbs : Climbs RunEntry.key (fun s => s.matching statuses) none upper rounds visits)
    {v : Visit ControlStore RunEntry String QueryFault} (visited : v ∈ visits)
    (latest : v.store.latestRunKey statuses = some upper) : RunsListed statuses rounds final visits := by
  have source : ∀ v ∈ visits, ∀ r ∈ v.items, r ∈ v.store.runs ∧ MatchesStatus statuses r.status :=
    fun v held r shown => mem_matching.mp (climbs.source v held r shown)
  have origin : ∀ r ∈ itemsOf visits, ∃ v ∈ visits, r ∈ v.store.runs := by
    intro r shown
    obtain ⟨v, held, inside⟩ := List.mem_flatMap.mp shown
    exact ⟨v, held, (source v held r inside).1⟩
  have keys : ∀ r ∈ itemsOf visits, ∀ r' ∈ itemsOf visits, r.runId = r'.runId → r.key = r'.key := by
    intro r shown r' shown' same
    obtain ⟨v, held, inside⟩ := origin r shown
    obtain ⟨v', held', inside'⟩ := origin r' shown'
    exact key_of_grown sound (grown v held) (grown v' held') inside inside' same
  have ascending : (itemsOf visits).Pairwise (fun a b => a.key < b.key) := List.pairwise_map.mp climbs.order
  have once : ((itemsOf visits).map RunEntry.runId).Nodup := by
    refine List.pairwise_map.mpr (ascending.imp_of_mem ?_)
    intro a b shown shown' less same
    exact absurd (keys a shown b shown' same) (ne_of_lt less)
  refine ⟨climbs.answered, ascending.imp before_of_key, once, source, ?_, ?_⟩
  · intro ended runId matches'
    rw [List.count_eq_one_of_mem once]
    obtain ⟨r, held, rfl, status⟩ := matches' v visited
    have below := (latestRunKey_some latest).2 r (mem_matching.mpr ⟨held, status⟩)
    have all : ∀ w ∈ visits, r.key ∈ (w.store.matching statuses).map RunEntry.key := by
      intro w visited'
      obtain ⟨r', held', id, status'⟩ := matches' w visited'
      rw [key_of_grown sound (grown v visited) (grown w visited') held held' id.symm]
      exact List.mem_map_of_mem (mem_matching.mpr ⟨held', status'⟩)
    obtain ⟨shown, inside, same⟩ := List.mem_map.mp (climbs.complete ended r.key (by simp [Keyset.Beyond]) below all)
    have ids : shown.runId = r.runId := congrArg (fun key : String ×ₗ String => (ofLex key).2) same
    exact ids ▸ List.mem_map_of_mem inside
  · intro enough
    apply climbs.ends
    have inside : (itemsOf visits).map RunEntry.runId ⊆ final.runIds := by
      intro id shown
      obtain ⟨r, held, rfl⟩ := List.mem_map.mp shown
      obtain ⟨v, visited, there⟩ := origin r held
      obtain ⟨r', last, same, -⟩ := (grown v visited).runs r there
      exact List.mem_map.mpr ⟨r', last, same⟩
    have few := (once.subperm inside).length_le
    unfold ControlStore.runIds at few
    rw [List.length_map, List.length_map] at few
    omega

/-- The pages of `runs_list`. -/
def followRuns [DecidableEq δ] (codec : DefinitionCodec δ) (sha : Sha256) (reader : JsonReader)
    (actor : AuthenticatedActor) (statuses : Option (List RunStatus)) (rounds : List (List (ControlWrite δ) × ℕ)) :
    List (Visit ControlStore RunEntry String QueryFault) :=
  follow (runsList sha reader actor statuses) (ControlStore.write codec) {} none rounds

theorem runsList_listed [DecidableEq δ] {history : List (ControlWrite δ)}
    (reached : history.foldl (ControlStore.write codec) {} = first) {page : Page RunEntry String}
    (answer : runsList sha reader actor statuses first none limit = .ok page)
    {rounds : List (List (ControlWrite δ) × ℕ)} (admitted : ∀ r ∈ rounds, AdmittedLimit r.2) :
    RunsListed statuses (rounds.length + 1)
      (written (ControlStore.write codec) {} ((history, limit) :: rounds))
      (followRuns codec sha reader actor statuses ((history, limit) :: rounds)) := by
  have sound : first.Sound codec := reached ▸ ControlStore.sound_writes .empty history
  have after : ControlStore.After codec first first := ⟨sound, .refl first⟩
  have visits : followRuns codec sha reader actor statuses ((history, limit) :: rounds) =
      ⟨first, .ok page⟩ :: page.next.elim [] fun c =>
        follow (runsList sha reader actor statuses) (ControlStore.write codec) first (some c) rounds := by
    subst reached
    exact follow_cons ({} : ControlStore) none history limit rounds answer
  have answered := answer
  simp only [runsList, bind_eq_ok, Option.elim_none] at answered
  obtain ⟨⟨⟩, allowed, span, spans, same⟩ := answered
  obtain ⟨allowed, here⟩ := admitQuery_eq_ok.mp allowed
  cases spans
  cases latest : first.latestRunKey statuses with
  | none =>
    rw [latest] at same
    cases same
    have nobody := latestRunKey_none latest
    rw [visits]
    refine ⟨?_, List.Pairwise.nil, List.nodup_nil, ?_, ?_, fun _ => ended_single first rfl⟩
    · intro v held
      rw [List.mem_singleton.mp held]
      exact ⟨_, rfl⟩
    · intro v held r shown
      rw [List.mem_singleton.mp held] at shown
      exact absurd shown List.not_mem_nil
    · intro _ runId matches'
      obtain ⟨r, held, -, status⟩ := matches' _ List.mem_cons_self
      have inside := mem_matching.mpr ⟨held, status⟩
      rw [nobody] at inside
      exact absurd inside List.not_mem_nil
  | some upper =>
    rw [latest] at same
    have shown : page = runsPage sha actor statuses first none limit upper := by
      cases same
      rfl
    have win : Window RunEntry.key (first.matching statuses) (RunsAt sha actor statuses upper) none upper limit page :=
      shown ▸ runsPage_window sound none here.1
    obtain ⟨r, held, key⟩ := (latestRunKey_some latest).1
    have known : ∃ r ∈ first.runs, r.key = upper := ⟨r, (mem_matching.mp held).1, key⟩
    have climbs : Climbs RunEntry.key (fun s => s.matching statuses) none upper (rounds.length + 1)
        (followRuns codec sha reader actor statuses ((history, limit) :: rounds)) :=
      follow_matching (ControlStore.after_write first)
        (fun s c a limit good told below admitted => runsList_next good allowed known told below admitted)
        reached after answer win admitted
    have last : (written (ControlStore.write codec) {} ((history, limit) :: rounds)).Sound codec := by
      rw [written_eq]
      exact ControlStore.sound_writes .empty _
    have visited : ⟨first, .ok page⟩ ∈ followRuns codec sha reader actor statuses ((history, limit) :: rounds) := by
      rw [visits]
      exact List.mem_cons_self
    exact listed_of_climbs last
      (fun v held => follow_between ControlStore.Grown.refl ControlStore.Grown.trans ControlStore.grown_write held)
      climbs visited latest

end Runs

end

/-- Paged control queries enumerate one cut. Start from any store that writes lead to, ask for a first page, and
follow the cursors, with limits that may differ from page to page and whatever writes between the pages. The
pages of the events of a run show the events numbered up to the first page's `through_seq`; the pages of the
versions and of the reverse dependencies of a component show the list that the first page's snapshot gives; no
page is refused, and they end. The pages of the runs go up by `created_at` and `run_id`, and show each run that
matches all along once. -/
theorem paged_queries_enumerate [DecidableEq δ] (codec : DefinitionCodec δ) (graphOf : δ → Option Graph)
    (sha : Sha256) (reader : JsonReader) (actor : AuthenticatedActor) {history : List (ControlWrite δ)}
    {first : ControlStore} (reached : history.foldl (ControlStore.write codec) {} = first) (limit : ℕ)
    {rounds : List (List (ControlWrite δ) × ℕ)} (admitted : ∀ r ∈ rounds, AdmittedLimit r.2) :
    (∀ runId page, runsEvents sha reader actor runId first none limit = .ok page →
      Counted EventRow.seq 0 (first.eventsOf runId) ∧ page.throughSeq = (first.eventsOf runId).length ∧
        Enumerates (first.eventsOf runId) (rounds.length + 1)
          (followEvents codec sha reader actor runId ((history, limit) :: rounds))) ∧
    (∀ component candidatesOnly page,
      registryVersions sha reader codec actor component candidatesOnly first none limit = .ok page →
        ∃ shown summaries, first.registry.snapshot codec none = .ok shown ∧
          (shown.listed component candidatesOnly).mapM (shown.summary component) = .ok summaries ∧
          summaries.map VersionSummary.version = shown.listed component candidatesOnly ∧
          (shown.listed component candidatesOnly).Nodup ∧
          Enumerates summaries (rounds.length + 1)
            (followVersions codec sha reader actor component candidatesOnly ((history, limit) :: rounds))) ∧
    (∀ component page, registryRdeps graphOf sha reader codec actor component first none limit = .ok page →
      ∃ shown, first.registry.snapshot codec none = .ok shown ∧ (shown.rdeps graphOf component).Nodup ∧
        Enumerates (shown.rdeps graphOf component) (rounds.length + 1)
          (followRdeps graphOf codec sha reader actor component ((history, limit) :: rounds))) ∧
    (∀ statuses page, runsList sha reader actor statuses first none limit = .ok page →
      RunsListed statuses (rounds.length + 1)
        (written (ControlStore.write codec) {} ((history, limit) :: rounds))
        (followRuns codec sha reader actor statuses ((history, limit) :: rounds))) := by
  refine ⟨?_, ?_, ?_, ?_⟩
  · intro runId page answer
    exact runsEvents_enumerates reached answer admitted
  · intro component candidatesOnly page answer
    exact registryVersions_enumerates reached answer admitted
  · intro component page answer
    exact registryRdeps_enumerates reached answer admitted
  · intro statuses page answer
    exact runsList_listed reached answer admitted

namespace PagedSample

def sha : Sha256 where
  hex _ := String.ofList (List.replicate 64 '0')
  width _ := by simp
  digits _ c held := by
    rw [String.toList_ofList] at held
    rw [List.eq_of_mem_replicate held]
    decide

def reader : AuthenticatedActor where
  actorId := "static:reader"
  authMethod := .static
  scopes := {readScope}

def midnight : UtcTime := ⟨2025, 1, 31, 0, 0, 0, 0, by decide, by decide, by decide, by decide, by decide,
  by decide, by decide⟩

def history : List (ControlWrite Unit) :=
  [.createRun ⟨"a", midnight, .pending⟩, .createRun ⟨"b", midnight, .pending⟩,
    .appendEvent "a" "RunStarted" none none 0, .registry (.version ⟨(), "h", 0⟩)]

def rounds : List (List (ControlWrite Unit) × ℕ) := [([.changeStatus "a" .running], 1), ([], 2)]

end PagedSample

section

open PagedSample

theorem paged_queries_enumerate_sample :
    RunsListed none 3 (written (ControlStore.write unitCodec) {} ((history, 1) :: rounds))
        (followRuns unitCodec sha jsonReader PagedSample.reader none ((history, 1) :: rounds)) ∧
      Enumerates ((history.foldl (ControlStore.write unitCodec) {}).eventsOf "a") 3
        (followEvents unitCodec sha jsonReader PagedSample.reader "a" ((history, 1) :: rounds)) ∧
      ∃ summaries : List VersionSummary, summaries.map VersionSummary.version = ["h"] ∧
        Enumerates summaries 3
          (followVersions unitCodec sha jsonReader PagedSample.reader "c" false ((history, 1) :: rounds)) := by
  have allowed : admitQuery PagedSample.reader 1 = .ok () := by decide
  have law := paged_queries_enumerate unitCodec (fun _ => none) sha jsonReader PagedSample.reader
    (rfl : history.foldl (ControlStore.write unitCodec) {} = _) 1 (show ∀ r ∈ rounds, AdmittedLimit r.2 by decide)
  have events : ∃ page, runsEvents sha jsonReader PagedSample.reader "a"
      (history.foldl (ControlStore.write unitCodec) {}) none 1 = .ok page := by
    unfold runsEvents
    rw [allowed]
    exact ⟨_, rfl⟩
  have versions : ∃ page, registryVersions sha jsonReader unitCodec PagedSample.reader "c" false
      (history.foldl (ControlStore.write unitCodec) {}) none 1 = .ok page := by
    unfold registryVersions
    rw [allowed]
    exact ⟨_, rfl⟩
  refine ⟨?_, ?_, ?_⟩
  · apply law.2.2.2
    unfold runsList
    rw [allowed]
    rfl
  · obtain ⟨page, answer⟩ := events
    exact (law.1 "a" page answer).2.2
  · obtain ⟨page, answer⟩ := versions
    obtain ⟨shown, summaries, taken, -, same, -, pages⟩ := law.2.1 "c" false page answer
    refine ⟨summaries, ?_, pages⟩
    cases taken
    exact same

end

end Constructicon
