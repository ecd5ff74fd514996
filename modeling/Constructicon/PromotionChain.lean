import Constructicon.RegistryParity

/-!
# Promotions and rollbacks by many callers

A promotion or a rollback is a sequence of transactions: it reads a snapshot, looks for a prior
receipt, loads or mints its attestation and commits, and other callers run between any two of
them. Each component's promotions still form one chain, every attestation is used once, and a
rollback commits only to a version that an earlier promotion of its component moved away from.
-/

namespace Constructicon

open Transaction Numbered

inductive PromotionFault where
  | store (fault : RegistryFault)
  | registryError
  | rollbackProofConsumed
deriving DecidableEq, Repr

/-- `attestation_id_for`, and the two hashes of a policy. -/
structure PolicyIds where
  attestationIdFor : AttestationDraft → String
  checkSetHash : String → Digest
  manifestHash : String → Digest

/-- `_policy_attestation_draft` -/
def policyAttestationDraft (ids : PolicyIds) (component : String) (version : Digest) (baseline : Option Digest)
    (policy detail : String) : AttestationDraft where
  action := .promote
  subject := .component component version baseline
  checks := [.of policy .passed detail "0.0"]
  checkSetHash := ids.checkSetHash policy
  manifestHash := ids.manifestHash policy

structure PlannedPolicyPromotion where
  component : String
  baseline : Option Digest
  target : Digest
  draft : AttestationDraft
  attestationId : String

/-- The arguments of `promote`. -/
structure PromoteRequest where
  component : String
  version : Digest
  attestationId : String
  actor : String
  sourceRun : Option RunId := none

inductive PromotionTask where
  | planRollback (component : String) (expectedStable : Option Digest)
  | planRollbackEdge (component : String) (baseline target : Digest)
  | proveRollback (planned : PlannedPolicyPromotion)
  | planInitial (component : String) (version : Digest)
  | mintPolicy (component : String) (target : Digest) (draft : AttestationDraft)
  | promote (request : PromoteRequest)
  | seekPrior (request : PromoteRequest) (stable : Option Digest)
  | loadAttestation (request : PromoteRequest) (stable : Option Digest)
  | commit (record : PromotionRecord)
  | finished (result : Except PromotionFault (Option PromotionRecord))

section

variable {δ : Type} (ids : PolicyIds) (codec : DefinitionCodec δ)

def PromotionTask.after (next : Except PromotionFault PromotionTask) : PromotionTask :=
  match next with
  | .ok task => task
  | .error fault => .finished (.error fault)

def ofStore {α : Type} (x : Except RegistryFault α) : Except PromotionFault α := x.mapError .store

/-- The first transaction of `plan_rollback`: the last promotion to the stable version. -/
def planRollback (s : SqliteRegistry) (component : String) (expectedStable : Option Digest) :
    Except PromotionFault PromotionTask := do
  let snapshot ← ofStore (s.snapshot codec none)
  let current := snapshot.stable.get? component
  require (expectedStable.isSome → current = expectedStable) (.store .admissionError)
  let stable ← expect current .registryError
  let edge ← expect ((snapshot.history.getD component []).reverse.find? (fun pair => pair.2 = stable))
    .registryError
  let previous ← expect edge.1 .registryError
  pure (.planRollbackEdge component stable previous)

/-- `plan_rollback_edge` -/
def planRollbackEdge (s : SqliteRegistry) (component : String) (baseline target : Digest) :
    Except PromotionFault PromotionTask := do
  let snapshot ← ofStore (s.snapshot codec none)
  require ((snapshot.versions.getD component .empty).get? target).isSome .registryError
  let draft := policyAttestationDraft ids component target (some baseline) "rollback"
    ("pointer move back from " ++ baseline ++ " to retained " ++ target)
  pure (.proveRollback ⟨component, some baseline, target, draft, ids.attestationIdFor draft⟩)

/-- The last transaction of `plan_rollback`: the proof of the edge is unused. -/
def proveRollback (s : SqliteRegistry) (planned : PlannedPolicyPromotion) :
    Except PromotionFault PromotionTask := do
  let prior ← ofStore (s.promotionForAttestation planned.attestationId)
  match prior with
  | some prior => do
    require (prior.component = planned.component ∧ prior.channel = "stable" ∧
      prior.fromVersion = planned.baseline ∧ prior.toVersion = planned.target ∧ prior.sourceRun = none)
      (.store .journalDamaged)
    .error .rollbackProofConsumed
  | none => pure (.mintPolicy planned.component planned.target planned.draft)

/-- `promote_initial`, up to its attestation -/
def planInitial (s : SqliteRegistry) (component : String) (version : Digest) :
    Except PromotionFault PromotionTask := do
  let snapshot ← ofStore (s.snapshot codec none)
  match snapshot.stable.get? component with
  | some stable =>
    if stable = version then pure (.finished (.ok none)) else .error (.store .admissionError)
  | none => pure (.mintPolicy component version (policyAttestationDraft ids component version none
      "bootstrap-initial" "freshly registered version with a validated contract"))

/-- The snapshot of `promote`. -/
def beginPromote (s : SqliteRegistry) (request : PromoteRequest) : Except PromotionFault PromotionTask := do
  let snapshot ← ofStore (s.snapshot codec none)
  require ((snapshot.versions.getD request.component .empty).get? request.version).isSome .registryError
  pure (.seekPrior request (snapshot.stable.get? request.component))

/-- The prior receipt of `promote`. -/
def seekPrior (s : SqliteRegistry) (request : PromoteRequest) (stable : Option Digest) :
    Except PromotionFault PromotionTask := do
  let prior ← ofStore (s.promotionForAttestation request.attestationId)
  match prior with
  | some prior => do
    require (prior.component = request.component ∧ prior.toVersion = request.version) (.store .admissionError)
    pure (.finished (.ok (some prior)))
  | none => pure (.loadAttestation request stable)

/-- The attestation of `promote`, and the record it authorizes. -/
def loadAttestation (now : Instant) (s : SqliteRegistry) (request : PromoteRequest) (stable : Option Digest) :
    Except PromotionFault PromotionTask := do
  let attestation ← expect (s.attestations.get? request.attestationId) (.store .admissionError)
  let record : PromotionRecord := ⟨request.component, "stable", stable, request.version,
    request.attestationId, request.actor, attestation.createdByRun, now⟩
  require (attestation.AuthorizesEdge record ∧
    (request.sourceRun.isSome → request.sourceRun = attestation.createdByRun)) (.store .admissionError)
  pure (.commit record)

def PromotionTask.act (now : Instant) (actor : String) (s : SqliteRegistry) :
    PromotionTask → PromotionTask × SqliteRegistry
  | .planRollback component expectedStable => (.after (Constructicon.planRollback codec s component expectedStable), s)
  | .planRollbackEdge component baseline target =>
    (.after (Constructicon.planRollbackEdge ids codec s component baseline target), s)
  | .proveRollback planned => (.after (Constructicon.proveRollback s planned), s)
  | .planInitial component version => (.after (Constructicon.planInitial ids codec s component version), s)
  | .mintPolicy component target draft =>
    let attestation : Attestation := ⟨draft, ids.attestationIdFor draft, none, now⟩
    (.promote { component, version := target, attestationId := attestation.attestationId, actor },
      { s with attestations := s.attestations.setDefault attestation.attestationId attestation })
  | .promote request => (.after (beginPromote codec s request), s)
  | .seekPrior request stable => (.after (Constructicon.seekPrior s request stable), s)
  | .loadAttestation request stable => (.after (Constructicon.loadAttestation now s request stable), s)
  | .commit record =>
    match s.storePromotion codec record with
    | .ok r => (.finished (.ok (some r.1)), r.2)
    | .error fault => (.finished (.error (.store fault)), s)
  | .finished result => (.finished result, s)

/-! ## Worlds -/

structure PromotionCaller where
  rollback : Bool
  task : PromotionTask

/-- The durable store and everyone who is promoting or rolling back over it. -/
structure PromotionWorld where
  store : SqliteRegistry := {}
  callers : List PromotionCaller := []

/-- A new caller, a transaction of the `i`-th caller, or a registration or a minting by others. -/
inductive PromotionAction (δ : Type) where
  | rollback (component : String) (expectedStable : Option Digest)
  | promote (request : PromoteRequest)
  | promoteInitial (component : String) (version : Digest)
  | act (i : ℕ) (now : Instant) (actor : String)
  | register (v : Registration δ)
  | mint (attestation : Attestation)

variable [DecidableEq δ]

def PromotionWorld.step (w : PromotionWorld) : PromotionAction δ → PromotionWorld
  | .rollback component expectedStable =>
    { w with callers := w.callers ++ [⟨true, .planRollback component expectedStable⟩] }
  | .promote request => { w with callers := w.callers ++ [⟨false, .promote request⟩] }
  | .promoteInitial component version =>
    { w with callers := w.callers ++ [⟨false, .planInitial component version⟩] }
  | .act i now actor =>
    match w.callers[i]? with
    | some caller =>
      let next := caller.task.act ids codec now actor w.store
      ⟨next.2, w.callers.set i ⟨caller.rollback, next.1⟩⟩
    | none => w
  | .register v => { w with store := settle w.store (w.store.call codec (.version v)) }
  | .mint attestation => { w with store := settle w.store (w.store.call codec (.mint attestation)) }

/-- The world after these actions, from an empty store without callers. -/
def PromotionWorld.run (actions : List (PromotionAction δ)) : PromotionWorld :=
  actions.foldl (PromotionWorld.step ids codec) {}

end

def SqliteRegistry.records (s : SqliteRegistry) : List PromotionRecord := s.promotions.map PromotionRow.record

/-! ## Evidence -/

/-- An earlier promotion of the component moved away from `v`. -/
def Evidence (ps : List PromotionRecord) (component : String) (v : Digest) : Prop :=
  ∃ p ∈ ps, p.component = component ∧ p.fromVersion = some v

def Proven (ps : List PromotionRecord) (attestationId component : String) (v : Digest) : Prop :=
  ∃ before rest, ps = before ++ rest ∧ Evidence before component v ∧ ∀ p ∈ before, p.attestationId ≠ attestationId

theorem Evidence.mono {ps ps' : List PromotionRecord} {component : String} {v : Digest} (grown : ps <+: ps')
    (h : Evidence ps component v) : Evidence ps' component v := by
  obtain ⟨p, mem, same⟩ := h
  exact ⟨p, grown.subset mem, same⟩

theorem Proven.mono {ps ps' : List PromotionRecord} {attestationId component : String} {v : Digest}
    (grown : ps <+: ps') (h : Proven ps attestationId component v) : Proven ps' attestationId component v := by
  obtain ⟨before, rest, rfl, evidence, unused⟩ := h
  obtain ⟨more, rfl⟩ := grown
  exact ⟨before, rest ++ more, List.append_assoc _ _ _, evidence, unused⟩

theorem Proven.split {ps : List PromotionRecord} {r : PromotionRecord}
    (h : Proven ps r.attestationId r.component r.toVersion) (mem : r ∈ ps) :
    ∃ before rest, ps = before ++ r :: rest ∧ Evidence before r.component r.toVersion := by
  obtain ⟨before, rest, rfl, evidence, unused⟩ := h
  rcases List.mem_append.mp mem with early | late
  · exact absurd rfl (unused r early)
  · obtain ⟨more, last, rfl⟩ := List.append_of_mem late
    exact ⟨before ++ more, last, (List.append_assoc _ _ _).symm, evidence.mono (List.prefix_append _ _)⟩

def Justified (ids : PolicyIds) (ps : List PromotionRecord) : PromotionTask → Prop
  | .planRollback _ _ => True
  | .planRollbackEdge component _ target => Evidence ps component target
  | .proveRollback planned => Evidence ps planned.component planned.target ∧
      planned.attestationId = ids.attestationIdFor planned.draft
  | .planInitial _ _ => False
  | .mintPolicy component target draft => Proven ps (ids.attestationIdFor draft) component target
  | .promote request => Proven ps request.attestationId request.component request.version
  | .seekPrior request _ => Proven ps request.attestationId request.component request.version
  | .loadAttestation request _ => Proven ps request.attestationId request.component request.version
  | .commit record => Proven ps record.attestationId record.component record.toVersion
  | .finished (.ok (some r)) => r ∈ ps ∧ Proven ps r.attestationId r.component r.toVersion
  | .finished _ => True

theorem Justified.mono {ids : PolicyIds} {ps ps' : List PromotionRecord} {task : PromotionTask}
    (grown : ps <+: ps') (h : Justified ids ps task) : Justified ids ps' task := by
  cases task with
  | planRollback component expected => trivial
  | planRollbackEdge component baseline target => exact Evidence.mono grown h
  | proveRollback planned => exact ⟨Evidence.mono grown h.1, h.2⟩
  | planInitial component version => exact h
  | mintPolicy component target draft => exact Proven.mono grown h
  | promote request => exact Proven.mono grown h
  | seekPrior request stable => exact Proven.mono grown h
  | loadAttestation request stable => exact Proven.mono grown h
  | commit record => exact Proven.mono grown h
  | finished result =>
    match result with
    | .ok (some r) => exact ⟨grown.subset h.1, Proven.mono grown h.2⟩
    | .ok none => trivial
    | .error fault => trivial

theorem justified_after {ids : PolicyIds} {ps : List PromotionRecord}
    {next : Except PromotionFault PromotionTask} (h : ∀ task, next = .ok task → Justified ids ps task) :
    Justified ids ps (.after next) := by
  cases next with
  | ok task => exact h task rfl
  | error fault => trivial

/-! ## One transaction -/

section

variable {δ : Type} {ids : PolicyIds} {codec : DefinitionCodec δ} {s : SqliteRegistry} {log : RegistryLog δ}

theorem SqliteRegistry.Holds.records (h : s.Holds codec log) : s.records = log.promotions := by
  unfold SqliteRegistry.records
  rw [h.promotions, List.map_map]
  exact map_snd_numbered log.promotions

theorem SqliteRegistry.Holds.shown (h : s.Holds codec log) {shown : RegistryCut δ}
    (taken : s.snapshot codec none = .ok shown) :
    (∀ component, shown.stable.get? component = ending (RegistryLog.movesOf log.promotions component)) ∧
      ∀ component, shown.history.getD component [] =
        Dict.itemsOf (RegistryLog.pairs log.promotions) component := by
  rw [h.snapshot] at taken
  obtain ⟨own, -, -, cut⟩ := RegistryLog.snapshot_ok taken
  obtain ⟨-, -, -, stable, history⟩ := RegistryLog.cut_ok cut
  have whole : log.promotions.take shown.revision.promotionSeq = log.promotions := by
    rw [own]
    exact List.take_length
  rw [whole] at stable history
  exact ⟨stable, fun component => by rw [history, RegistryLog.getD_history]⟩

theorem planRollback_ok (h : s.Holds codec log) {component : String} {expected : Option Digest}
    {task : PromotionTask} (planned : planRollback codec s component expected = .ok task) :
    Justified ids log.promotions task := by
  unfold planRollback ofStore at planned
  simp only [bind_eq_ok, mapError_eq_ok, require_eq_ok, expect_eq_ok, exists_const] at planned
  obtain ⟨shown, taken, -, stable, -, edge, found, previous, from_previous, same⟩ := planned
  cases same
  have mem := List.mem_reverse.mp (List.mem_of_find?_eq_some found)
  rw [(h.shown taken).2] at mem
  obtain ⟨item, inside, rfl⟩ := List.mem_map.mp mem
  obtain ⟨inside, named⟩ := List.mem_filter.mp inside
  obtain ⟨r, retained, rfl⟩ := List.mem_map.mp inside
  exact ⟨r, retained, of_decide_eq_true named, from_previous⟩

theorem planRollbackEdge_ok {ps : List PromotionRecord} {component : String} {baseline target : Digest}
    {task : PromotionTask} (evidence : Evidence ps component target)
    (planned : planRollbackEdge ids codec s component baseline target = .ok task) :
    Justified ids ps task := by
  unfold planRollbackEdge ofStore at planned
  simp only [bind_eq_ok, mapError_eq_ok, require_eq_ok, exists_const] at planned
  obtain ⟨shown, -, -, same⟩ := planned
  cases same
  exact ⟨evidence, rfl⟩

theorem proveRollback_ok (h : s.Holds codec log) {planned : PlannedPolicyPromotion} {task : PromotionTask}
    (evidence : Evidence log.promotions planned.component planned.target)
    (own : planned.attestationId = ids.attestationIdFor planned.draft)
    (proved : proveRollback s planned = .ok task) : Justified ids log.promotions task := by
  unfold proveRollback ofStore at proved
  rw [h.promotionForAttestation] at proved
  cases prior : log.promotionFor planned.attestationId with
  | some r =>
    rw [prior] at proved
    obtain ⟨found, same, rest⟩ := bind_eq_ok.mp proved
    cases same
    obtain ⟨-, -, refused⟩ := bind_eq_ok.mp rest
    exact absurd refused (by simp)
  | none =>
    rw [prior] at proved
    cases proved
    refine ⟨log.promotions, [], (List.append_nil _).symm, evidence, fun p mem => ?_⟩
    rw [← own]
    exact fun same => List.find?_eq_none.mp prior p mem (decide_eq_true same)

theorem beginPromote_ok {ps : List PromotionRecord} {request : PromoteRequest} {task : PromotionTask}
    (proven : Proven ps request.attestationId request.component request.version)
    (begun : beginPromote codec s request = .ok task) : Justified ids ps task := by
  unfold beginPromote ofStore at begun
  simp only [bind_eq_ok, mapError_eq_ok, require_eq_ok, exists_const] at begun
  obtain ⟨shown, -, -, same⟩ := begun
  cases same
  exact proven

theorem seekPrior_ok (h : s.Holds codec log) {request : PromoteRequest} {stable : Option Digest}
    {task : PromotionTask} (proven : Proven log.promotions request.attestationId request.component request.version)
    (sought : seekPrior s request stable = .ok task) : Justified ids log.promotions task := by
  unfold seekPrior ofStore at sought
  rw [h.promotionForAttestation] at sought
  cases prior : log.promotionFor request.attestationId with
  | some r =>
    rw [prior] at sought
    obtain ⟨found, same, rest⟩ := bind_eq_ok.mp sought
    cases same
    obtain ⟨_, matched, done⟩ := bind_eq_ok.mp rest
    obtain ⟨component, version⟩ := require_eq_ok.mp matched
    cases done
    unfold RegistryLog.promotionFor at prior
    have found := List.find?_some prior
    have id := of_decide_eq_true found
    refine ⟨List.mem_of_find?_eq_some prior, ?_⟩
    rw [id, component, version]
    exact proven
  | none =>
    rw [prior] at sought
    cases sought
    exact proven

theorem loadAttestation_ok {ps : List PromotionRecord} {now : Instant} {request : PromoteRequest}
    {stable : Option Digest} {task : PromotionTask}
    (proven : Proven ps request.attestationId request.component request.version)
    (loaded : loadAttestation now s request stable = .ok task) : Justified ids ps task := by
  unfold loadAttestation at loaded
  simp only [bind_eq_ok, require_eq_ok, expect_eq_ok, exists_const] at loaded
  obtain ⟨attestation, -, -, same⟩ := loaded
  cases same
  exact proven

theorem storePromotion_ok [DecidableEq δ] (h : s.Holds codec log) {record stored : PromotionRecord} {s' : SqliteRegistry}
    (committed : s.storePromotion codec record = .ok (stored, s')) :
    ∃ log', s'.Holds codec log' ∧ log.storePromotion codec record = some (stored, log') := by
  have called : s.call codec (.promotion record) = .ok (.moved stored, s') := by
    unfold SqliteRegistry.call
    dsimp only
    rw [committed]
    rfl
  have agrees := h.call (h.endorsed called)
  rw [called] at agrees
  generalize answered : log.call codec (.promotion record) = answer at agrees
  cases agrees with
  | accept held =>
    obtain ⟨⟨r, next⟩, moved, same⟩ := Option.map_eq_some_iff.mp answered
    cases same
    exact ⟨_, held, moved⟩

theorem act_sound [DecidableEq δ] (h : s.Holds codec log) (now : Instant) (actor : String) (task : PromotionTask) :
    ∃ log', (task.act ids codec now actor s).2.Holds codec log' ∧ RegistryLog.Grown log log' ∧
      (Justified ids log.promotions task → Justified ids log'.promotions (task.act ids codec now actor s).1) := by
  cases task with
  | planRollback component expected =>
    exact ⟨log, h, .refl log, fun _ => justified_after fun task planned => planRollback_ok h planned⟩
  | planRollbackEdge component baseline target =>
    exact ⟨log, h, .refl log, fun evidence => justified_after fun task planned =>
      planRollbackEdge_ok evidence planned⟩
  | proveRollback planned =>
    exact ⟨log, h, .refl log, fun evidence => justified_after fun task proved =>
      proveRollback_ok h evidence.1 evidence.2 proved⟩
  | planInitial component version =>
    exact ⟨log, h, .refl log, fun never => absurd never id⟩
  | mintPolicy component target draft =>
    have minted := h.call (c := .mint ⟨draft, ids.attestationIdFor draft, none, now⟩) trivial
    cases minted with
    | accept held => exact ⟨log, held, .refl log, fun proven => proven⟩
  | promote request =>
    exact ⟨log, h, .refl log, fun proven => justified_after fun task begun => beginPromote_ok proven begun⟩
  | seekPrior request stable =>
    exact ⟨log, h, .refl log, fun proven => justified_after fun task sought => seekPrior_ok h proven sought⟩
  | loadAttestation request stable =>
    exact ⟨log, h, .refl log, fun proven => justified_after fun task loaded => loadAttestation_ok proven loaded⟩
  | commit record =>
    unfold PromotionTask.act
    dsimp only
    cases committed : s.storePromotion codec record with
    | error fault => exact ⟨log, h, .refl log, fun _ => trivial⟩
    | ok r =>
      obtain ⟨stored, s'⟩ := r
      obtain ⟨log', held, moved⟩ := storePromotion_ok h committed
      refine ⟨log', held, ?_, fun proven => ?_⟩
      · rcases RegistryLog.storePromotion_eq_some moved with ⟨rfl, -⟩ | ⟨rfl, -⟩
        · exact .refl _
        · exact ⟨List.prefix_rfl, List.prefix_append _ _⟩
      · rcases RegistryLog.storePromotion_eq_some moved with ⟨rfl, found, same⟩ | ⟨rfl, rfl, -⟩
        · obtain ⟨component, -, -, version, id, -⟩ := same
          refine ⟨List.mem_of_find?_eq_some found, ?_⟩
          rw [id, component, version]
          exact proven
        · exact ⟨List.mem_append_right _ (List.mem_singleton_self _), Proven.mono (List.prefix_append _ _) proven⟩
  | finished result => exact ⟨log, h, .refl log, fun done => done⟩

end

/-! ## Runs -/

section

variable {δ : Type} [DecidableEq δ] {ids : PolicyIds} {codec : DefinitionCodec δ} {w : PromotionWorld}
  {log : RegistryLog δ}

structure PromotionWorld.Sound (ids : PolicyIds) (codec : DefinitionCodec δ) (w : PromotionWorld)
    (log : RegistryLog δ) : Prop where
  held : w.store.Holds codec log
  justified : ∀ caller ∈ w.callers, caller.rollback → Justified ids log.promotions caller.task

theorem PromotionWorld.Sound.step (h : w.Sound ids codec log) (action : PromotionAction δ) :
    ∃ log', (w.step ids codec action).Sound ids codec log' ∧ RegistryLog.Grown log log' := by
  have joined : ∀ caller : PromotionCaller, (caller.rollback → Justified ids log.promotions caller.task) →
      PromotionWorld.Sound ids codec { w with callers := w.callers ++ [caller] } log := by
    intro caller own
    refine ⟨h.held, fun c mem rollback => ?_⟩
    rcases List.mem_append.mp mem with old | new
    · exact h.justified c old rollback
    · rw [List.mem_singleton.mp new] at rollback ⊢
      exact own rollback
  have settled : ∀ c : RegistryCall δ, ∃ log',
      PromotionWorld.Sound ids codec { w with store := settle w.store (w.store.call codec c) } log' ∧
        RegistryLog.Grown log log' := by
    intro c
    obtain ⟨log', held, grown⟩ := h.held.settle c
    exact ⟨log', ⟨held, fun c mem rollback => (h.justified c mem rollback).mono grown.promotions⟩, grown⟩
  cases action with
  | rollback component expected => exact ⟨log, joined _ (fun _ => trivial), .refl log⟩
  | promote request => exact ⟨log, joined _ (fun rollback => absurd rollback (by simp)), .refl log⟩
  | promoteInitial component version => exact ⟨log, joined _ (fun rollback => absurd rollback (by simp)), .refl log⟩
  | register v => exact settled (.version v)
  | mint attestation => exact settled (.mint attestation)
  | act i now actor =>
    unfold PromotionWorld.step
    dsimp only
    cases found : w.callers[i]? with
    | none => exact ⟨log, h, .refl log⟩
    | some caller =>
      obtain ⟨log', held, grown, kept⟩ := act_sound h.held now actor caller.task
      refine ⟨log', ⟨held, fun c mem rollback => ?_⟩, grown⟩
      rcases List.mem_or_eq_of_mem_set mem with old | rfl
      · exact (h.justified c old rollback).mono grown.promotions
      · exact kept (h.justified caller (List.mem_of_getElem? found) rollback)

theorem PromotionWorld.Sound.run (h : w.Sound ids codec log) (actions : List (PromotionAction δ)) :
    ∃ log', (actions.foldl (PromotionWorld.step ids codec) w).Sound ids codec log' ∧
      RegistryLog.Grown log log' := by
  induction actions generalizing w log with
  | nil => exact ⟨log, h, .refl log⟩
  | cons action actions ih =>
    obtain ⟨next, sound, grown⟩ := h.step action
    obtain ⟨last, sound', grown'⟩ := ih sound
    exact ⟨last, sound', grown.trans grown'⟩

omit [DecidableEq δ] in
theorem PromotionWorld.Sound.empty : PromotionWorld.Sound ids codec {} {} :=
  ⟨.empty, fun _ mem => absurd mem List.not_mem_nil⟩

/-- Promotions and rollbacks of any number of callers, in any interleaving. The stored promotions of a
component form one chain, whose end is its stable version; a commit is refused unless it starts at
that end, or it is the retry of a commit made before; an attestation authorizes at most one move;
and a rollback that commits has, before its own promotion, an earlier one of the component that
moved away from its target. Nothing stored is ever lost. -/
theorem promotion_chain (ids : PolicyIds) (codec : DefinitionCodec δ) (actions more : List (PromotionAction δ)) :
    let w := PromotionWorld.run ids codec actions
    (∀ component, Linked none (RegistryLog.movesOf w.store.records component)) ∧
    (∃ shown, w.store.snapshot codec none = .ok shown ∧ ∀ component,
      shown.stable.get? component = ending (RegistryLog.movesOf w.store.records component)) ∧
    (∀ record stored s', w.store.storePromotion codec record = .ok (stored, s') →
      (s'.records = w.store.records ∧ stored ∈ w.store.records ∧ stored.SameIdentityAs record) ∨
        (record.fromVersion = ending (RegistryLog.movesOf w.store.records record.component) ∧
          s'.records = w.store.records ++ [record])) ∧
    (w.store.records.map PromotionRecord.attestationId).Nodup ∧
    (∀ r ∈ w.store.records, SqliteRegistry.Authorized w.store.attestations r) ∧
    (∀ caller ∈ w.callers, caller.rollback → ∀ r, caller.task = .finished (.ok (some r)) →
      ∃ before rest, w.store.records = before ++ r :: rest ∧ Evidence before r.component r.toVersion) ∧
    w.store.records <+: (PromotionWorld.run ids codec (actions ++ more)).store.records := by
  intro w
  have start : PromotionWorld.Sound ids codec {} {} := .empty
  obtain ⟨log, sound, -⟩ := start.run actions
  obtain ⟨log', sound', grown⟩ := sound.run more
  change w.Sound ids codec log at sound
  have records := sound.held.records
  have later : (PromotionWorld.run ids codec (actions ++ more)).store.records = log'.promotions := by
    unfold PromotionWorld.run
    rw [List.foldl_append]
    exact sound'.held.records
  rw [records, later]
  refine ⟨sound.held.coherent.linked, ?_, ?_, sound.held.coherent.used_once, sound.held.authorized, ?_,
    grown.promotions⟩
  · obtain ⟨shown, taken⟩ := sound.held.coherent.current
    have current : w.store.snapshot codec none = .ok shown := (sound.held.snapshot none).trans taken
    exact ⟨shown, current, (sound.held.shown current).1⟩
  · intro record stored s' committed
    obtain ⟨next, held, moved⟩ := storePromotion_ok sound.held committed
    rw [held.records]
    rcases RegistryLog.storePromotion_eq_some moved with ⟨rfl, found, same⟩ | ⟨rfl, rfl, -, -, current, -⟩
    · exact .inl ⟨rfl, List.mem_of_find?_eq_some found, same⟩
    · exact .inr ⟨current.symm, rfl⟩
  · intro caller mem rollback r done
    have justified := sound.justified caller mem rollback
    rw [done] at justified
    exact justified.2.split justified.1

end

end Constructicon
