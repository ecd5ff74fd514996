import Constructicon.LoopPrograms

/-!
# Admission under a resolution lock

A manifest's own resolutions, pinned by scope, are a lock. Admitting the same graph under it
against a registry that still holds those versions compiles the same program entry by entry,
but for the pins it consumes; a lock is exact authority, so no stable pointer is read. Only a
provider that was excused by a qualification authorization is refused: locks excuse nobody.
-/

namespace Constructicon

variable {δ : Type}

/-! ## Locks -/

/-- The pins `_resolution_lock_for` takes from a manifest and its overrides. -/
def resolutionPins (m : ExecutionManifest δ) (overrides : Dict String String) : List ResolutionPin :=
  m.resolvedComponents.map (fun r =>
    ⟨r.scope, r.component, overrides.getD r.component r.resolvedVersion⟩)

/-- `_unique_scopes`: the pins in scope order, refused when two share a scope. -/
def uniqueScopes (pins : List ResolutionPin) : Option (List ResolutionPin) :=
  let ordered := pins.insertionSort (fun a b => ScopePath.le a.scope b.scope)
  if (ordered.map ResolutionPin.scope).Nodup then some ordered else none

/-- `_resolution_lock_for`, as the compiler holds the lock. -/
def resolutionLockFor (m : ExecutionManifest δ) (overrides : Dict String String) :
    Option ResolutionLock :=
  (uniqueScopes (resolutionPins m overrides)).map ResolutionLock.ofPins

/-- Every stored version of `s` is still stored. -/
def RegistrySnapshot.Retains (s s' : RegistrySnapshot) : Prop :=
  ∀ name version stored, s.get name version = some stored → s'.get name version = some stored

def World.relocked (w : World δ) (s : RegistrySnapshot) (lock : ResolutionLock) : World δ :=
  { w with snapshot := s, resolutionLock := some lock }

theorem name_of_selectVersion {s : RegistrySnapshot} {ref : Ref} {scope : ScopePath}
    {lock : Option ResolutionLock} {stored : StoredVersion}
    (h : selectVersion s ref scope lock = some stored) : stored.definition.name = ref.component := by
  unfold selectVersion at h
  split at h
  · split at h
    · cases h
    next pin _ =>
      split_ifs at h with differs
      rw [(RegistrySnapshot.get_filed h).1]
      exact not_not.mp differs
  · split at h
    · exact (RegistrySnapshot.get_filed h).1
    · split at h
      · exact (RegistrySnapshot.get_filed h).1
      · cases h

theorem resolveRef_pinned {w : World δ} {s : RegistrySnapshot} {lock : ResolutionLock} {ref : Ref}
    {scope : ScopePath} {stored : StoredVersion}
    (pinned : lock.get? scope = some ⟨scope, stored.definition.name, stored.contentHash⟩)
    (name : stored.definition.name = ref.component)
    (held : s.get stored.definition.name stored.contentHash = some stored) :
    Clean (resolveRef (w.relocked s lock) ref scope) [.pin scope] (some stored) := by
  have selected : selectVersion s ref scope (some lock) = some stored := by
    simp only [selectVersion, pinned]
    rw [if_neg (not_not.mpr name)]
    exact held
  simp only [resolveRef, World.relocked, pinned, selected]
  refine clean_bind.mpr ⟨_, (), [], clean_tell.mpr ⟨rfl, rfl⟩, ?_, rfl⟩
  rw [if_neg (not_not.mpr name)]
  exact clean_pure.mpr ⟨rfl, rfl⟩

/-! ## Capabilities -/

def Available (w : World δ) (c : CapabilityBinding) : Prop :=
  ∀ d, w.assembly.catalog.get? c.capabilityId = some d → w.assembly.executorUnavailability d = []

theorem capabilityFaults_relocked {w : World δ} {s : RegistrySnapshot} {lock : ResolutionLock}
    {scope : ScopePath} {grants : EffectiveGrants} {aliasName capabilityId : String}
    {d : CapabilityDescriptor} (h : capabilityFaults w scope grants aliasName capabilityId d = [])
    (available : w.assembly.executorUnavailability d = []) :
    capabilityFaults (w.relocked s lock) scope grants aliasName capabilityId d = [] := by
  have same : admittedUnavailability (w.relocked s lock) d capabilityId =
      admittedUnavailability w d capabilityId := by
    simp [admittedUnavailability, World.relocked, available]
  rw [← h]
  simp only [capabilityFaults, same]

theorem bindCapabilities_relocked {w : World δ} {s : RegistrySnapshot} {lock : ResolutionLock}
    {d : ComponentDef} {scope : ScopePath} {grants : EffectiveGrants} {entries : List (String × String)}
    {log : List (Emitted δ)} (h : Clean (bindCapabilities w d scope grants entries) log ())
    (available : ∀ c ∈ capabilitiesOf log, Available w c) :
    Clean (bindCapabilities (w.relocked s lock) d scope grants entries) log () := by
  induction entries generalizing log with
  | nil => exact h
  | cons entry entries ih =>
    obtain ⟨aliasName, capabilityId⟩ := entry
    rw [bindCapabilities] at h ⊢
    cases found : w.assembly.catalog.get? capabilityId with
    | none =>
      simp only [found] at h
      exact absurd h clean_fault_bind
    | some descriptor =>
      have found' : (w.relocked s lock).assembly.catalog.get? capabilityId = some descriptor := found
      simp only [found] at h
      simp only [found']
      obtain ⟨l₁, _, l₂, hf, h₁, rfl⟩ := clean_bind.mp h
      obtain ⟨faultless, rfl⟩ := clean_emitFaults.mp hf
      obtain ⟨l₃, channel, l₄, hc, h₂, rfl⟩ := clean_bind.mp h₁
      obtain rfl := compiledChannel_clean hc
      obtain ⟨l₅, _, l₆, ht, hrest, rfl⟩ := clean_bind.mp h₂
      obtain ⟨rfl, -⟩ := clean_tell.mp ht
      have here := available _ List.mem_cons_self descriptor found
      have kept : Clean (emitFaults (capabilityFaults (w.relocked s lock) scope grants aliasName
          capabilityId descriptor) : Compile δ Unit) [] () :=
        clean_emitFaults.mpr ⟨capabilityFaults_relocked faultless here, rfl⟩
      have rest := ih hrest fun c hc => available c (List.mem_cons_of_mem _ hc)
      refine clean_bind.mpr ⟨[], (), _, kept, ?_, rfl⟩
      refine clean_bind.mpr ⟨[], channel, _, hc, ?_, rfl⟩
      exact clean_bind.mpr ⟨_, (), _, clean_tell.mpr ⟨rfl, rfl⟩, rest, rfl⟩

theorem registerAtomic_relocked {w : World δ} {s : RegistrySnapshot} {lock : ResolutionLock} {a : Seat}
    {d : ComponentDef} {bound out : Sources} {ref : Ref} {grants : EffectiveGrants}
    {log : List (Emitted δ)} (h : Clean (registerAtomic w a d bound ref grants) log out)
    (available : ∀ c ∈ capabilitiesOf log, Available w c) :
    Clean (registerAtomic (w.relocked s lock) a d bound ref grants) log out := by
  obtain ⟨l₁, u₁, l₂, hb, h₁, rfl⟩ := clean_bind.mp h
  obtain ⟨l₃, u₃, l₄, hself, h₂, rfl⟩ := clean_bind.mp h₁
  obtain ⟨l₅, u₅, l₆, hcaps, hrest, rfl⟩ := clean_bind.mp h₂
  have relocked : Clean (bindCapabilities (w.relocked s lock) d a.scope grants
      (Json.sortKeys ref.bind.entries)) l₅ () := by
    apply bindCapabilities_relocked hcaps
    intro c hc
    apply available
    simp only [capabilitiesOf_append]
    exact List.mem_append_right _ (List.mem_append_right _ (List.mem_append_left _ hc))
  refine clean_bind.mpr ⟨_, u₁, _, hb, ?_, rfl⟩
  refine clean_bind.mpr ⟨_, u₃, _, hself, ?_, rfl⟩
  exact clean_bind.mpr ⟨_, u₅, _, relocked, hrest, rfl⟩

/-! ## Replayed logs -/

def unpinned (log : List (Emitted δ)) : List (Emitted δ) := log.filter (fun e => e.pin?.isNone)

@[simp] theorem unpinned_append (l l' : List (Emitted δ)) : unpinned (l ++ l') = unpinned l ++ unpinned l' :=
  List.filter_append ..

theorem filterMap_unpinned {β : Type} {f : Emitted δ → Option β} (skips : ∀ x, f (.pin x) = none)
    (log : List (Emitted δ)) : (unpinned log).filterMap f = log.filterMap f := by
  induction log with
  | nil => rfl
  | cons e log ih =>
    cases e with
    | pin x =>
      rw [List.filterMap_cons_none (skips x)]
      exact ih
    | _ =>
      change List.filterMap f (_ :: unpinned log) = _
      rw [List.filterMap_cons, List.filterMap_cons, ih]

def resolvedScopes (log : List (Emitted δ)) : List ScopePath :=
  (resolutionsOf log).map ComponentResolution.scope

@[simp] theorem resolvedScopes_append (l l' : List (Emitted δ)) :
    resolvedScopes (l ++ l') = resolvedScopes l ++ resolvedScopes l' := by
  simp [resolvedScopes]

/-- `log'` is `log` with a pin for every scope it resolves, and no other. -/
structure Replays (log log' : List (Emitted δ)) : Prop where
  entries : unpinned log' = log
  pins : ∀ x, x ∈ pinsOf log' ↔ x ∈ resolvedScopes log

theorem Replays.nil : Replays ([] : List (Emitted δ)) [] :=
  ⟨rfl, fun x => by simp [pinsOf, resolvedScopes, resolutionsOf]⟩

theorem Replays.append {l l' k k' : List (Emitted δ)} (h : Replays l l') (h' : Replays k k') :
    Replays (l ++ k) (l' ++ k') := by
  refine ⟨by rw [unpinned_append, h.entries, h'.entries], fun x => ?_⟩
  rw [pinsOf_append, resolvedScopes_append, List.mem_append, List.mem_append, h.pins, h'.pins]

theorem unpinned_of_pins {log : List (Emitted δ)} (h : pinsOf log = []) : unpinned log = log := by
  rw [unpinned, List.filter_eq_self]
  intro e he
  cases pinned : e.pin? with
  | none => rfl
  | some x =>
    have mem : x ∈ pinsOf log := List.mem_filterMap.mpr ⟨e, he, pinned⟩
    rw [h] at mem
    cases mem

theorem Replays.self {log : List (Emitted δ)} (pins : pinsOf log = []) (quiet : resolutionsOf log = []) :
    Replays log log :=
  ⟨unpinned_of_pins pins, fun x => by rw [pins, resolvedScopes, quiet, List.map_nil]⟩

theorem registerAtomic_pins {w : World δ} {a : Seat} {d : ComponentDef} {bound out : Sources} {ref : Ref}
    {grants : EffectiveGrants} {log : List (Emitted δ)}
    (h : Clean (registerAtomic w a d bound ref grants) log out) : pinsOf log = [] := by
  obtain ⟨-, capabilities, all, rfl⟩ := registerAtomic_entries h
  rw [pinsOf, List.filterMap_eq_nil_iff]
  intro e he
  rcases List.mem_append.mp he with bindings | he
  · obtain ⟨b, -, rfl⟩ := List.mem_map.mp bindings
    rfl
  · rcases List.mem_append.mp he with inside | last
    · obtain ⟨c, rfl, -⟩ := all e inside
      rfl
    · rw [List.mem_singleton.mp last]
      rfl

theorem Replays.filterMap {log log' : List (Emitted δ)} (h : Replays log log') {β : Type}
    {f : Emitted δ → Option β} (skips : ∀ x, f (.pin x) = none) : log'.filterMap f = log.filterMap f := by
  rw [← filterMap_unpinned skips log', h.entries]

/-- What a lock must hold to replay a log, and what its providers must grant. -/
structure Covered (w : World δ) (lock : ResolutionLock) (log : List (Emitted δ)) : Prop where
  pinned : ∀ r ∈ resolutionsOf log, lock.get? r.scope = some ⟨r.scope, r.component, r.resolvedVersion⟩
  available : ∀ c ∈ capabilitiesOf log, Available w c

theorem Covered.split {w : World δ} {lock : ResolutionLock} {l l' : List (Emitted δ)}
    (h : Covered w lock (l ++ l')) : Covered w lock l ∧ Covered w lock l' := by
  have pinned := h.pinned
  have available := h.available
  simp only [resolutionsOf_append, capabilitiesOf_append, List.mem_append] at pinned available
  exact ⟨⟨fun r hr => pinned r (.inl hr), fun c hc => available c (.inl hc)⟩,
    ⟨fun r hr => pinned r (.inr hr), fun c hc => available c (.inr hc)⟩⟩

/-! ## Nodes under a lock -/

/-- The node compiles to the same under the lock, by `rec`, and a reference resolves at its
own scope. -/
structure NodeReplays (w : World δ) (lock : ResolutionLock) (rec : Seat → Compile δ Sources) (a : Seat)
    (log : List (Emitted δ)) (out : Sources) : Prop where
  replays : Covered w lock log → ∃ log', Clean (rec a) log' out ∧ Replays log log'
  resolved : ∀ ref, a.node.body = .ref ref →
    ∀ stored, selectVersion w.snapshot ref a.scope w.resolutionLock = some stored →
      ∃ r ∈ resolutionsOf log, r.scope = a.scope ∧ r.component = stored.definition.name ∧
        r.resolvedVersion = stored.contentHash

section

variable {w : World δ} {s : RegistrySnapshot} {lock : ResolutionLock} {rec : Seat → Compile δ Sources}

theorem nodesRun_replays {g : Graph} {l : Level} {upstream : Dict String (List String)}
    {nodes : List GraphNode} {lookup last : NodeLookup} {log : List (Emitted δ)}
    (h : NodesRun (NodeReplays w lock rec) g l upstream nodes lookup log last)
    (covered : Covered w lock log) :
    ∃ log', NodesRun (Compiles rec) g l upstream nodes lookup log' last ∧ Replays log log' := by
  induction h with
  | nil lookup => exact ⟨[], .nil lookup, Replays.nil⟩
  | cons head tail ih =>
    obtain ⟨here, there⟩ := covered.split
    obtain ⟨first, compiles, replays⟩ := head.replays here
    obtain ⟨rest, runs, follows⟩ := ih there
    exact ⟨first ++ rest, .cons compiles runs, replays.append follows⟩

theorem levelRun_replays {g : Graph} {l : Level} {log : List (Emitted δ)} {out : Sources}
    (h : LevelRun (NodeReplays w lock rec) g l log out) (covered : Covered w lock log) :
    ∃ log', LevelRun (Compiles rec) g l log' out ∧ Replays log log' := by
  obtain ⟨endpoints, acyclic, inputs, outputs, order, nodes, bound⟩ := h
  obtain ⟨log', runs, replays⟩ := nodesRun_replays nodes covered
  exact ⟨log', ⟨endpoints, acyclic, inputs, outputs, order, runs, bound⟩, replays⟩

theorem bodyRun_replays {a : Seat} {loop : Loop} {boundary : Sources} {log : List (Emitted δ)}
    {out : Sources} (h : BodyRun (NodeReplays w lock rec) a loop boundary log out)
    (covered : Covered w lock log) :
    ∃ log', BodyRun (Compiles rec) a loop boundary log' out ∧ Replays log log' := by
  unfold BodyRun at h ⊢
  cases hbody : loop.body with
  | inl ref =>
    simp only [hbody] at h ⊢
    exact h.replays covered
  | inr g =>
    simp only [hbody] at h ⊢
    exact levelRun_replays h covered

theorem RefRun.resolves {a : Seat} {ref : Ref} {stored : StoredVersion} {grants : EffectiveGrants}
    {bound : Sources} {before : List (Emitted δ)} (h : RefRun w a ref stored grants bound before)
    (log : List (Emitted δ)) : ∀ ref', a.node.body = .ref ref' →
      ∀ stored', selectVersion w.snapshot ref' a.scope w.resolutionLock = some stored' →
        ∃ r ∈ resolutionsOf (before ++ log), r.scope = a.scope ∧
          r.component = stored'.definition.name ∧ r.resolvedVersion = stored'.contentHash := by
  intro ref' body stored' selected
  obtain rfl := Body.ref.inj (h.node.symm.trans body)
  obtain rfl := Option.some.inj (h.entries.1.symm.trans selected)
  obtain ⟨r, resolution, facts⟩ := h.resolution
  refine ⟨r, ?_, facts⟩
  rw [resolutionsOf_append, resolution]
  exact List.mem_cons_self

theorem RefRun.relocked {a : Seat} {ref : Ref} {stored : StoredVersion} {grants : EffectiveGrants}
    {bound : Sources} {log : List (Emitted δ)} (h : RefRun w a ref stored grants bound log)
    (unlocked : w.resolutionLock = none) (retains : w.snapshot.Retains s)
    (covered : Covered w lock log) :
    ∃ log', RefRun (w.relocked s lock) a ref stored grants bound log' ∧ Replays log log' := by
  have selected := h.entries.1
  obtain ⟨r, resolution, scope, name, version⟩ := h.resolution
  obtain ⟨resolved, recorded, rfl, hr, hrecord⟩ := h.resolved
  have pins : resolved = [] := by
    rw [resolveRef_entries hr, pinEntries, unlocked]
    rfl
  subst pins
  obtain ⟨rfl, -⟩ := clean_tell.mp hrecord
  have pinned := covered.pinned r (by rw [resolution]; exact List.mem_singleton_self r)
  rw [scope, name, version] at pinned
  have held := retains _ _ _ (get_of_selectVersion selected)
  have again := resolveRef_pinned (w := w) pinned (name_of_selectVersion selected) held
  refine ⟨_, ⟨h.node, ⟨_, _, rfl, again, hrecord⟩, h.granted, h.bound⟩, rfl, fun x => ?_⟩
  simp only [resolvedScopes, resolution]
  simp [pinsOf, Emitted.pin?, scope]

theorem loopBoundary_relocked {a : Seat} {loop : Loop} {boundary body : Sources}
    {before log : List (Emitted δ)} {inputs outputs : List Port}
    (h : Clean (loopBoundary w loop (a.scope.child loopBodySegment)) before (some (inputs, outputs)))
    (ran : BodyRun (NodeReplays w lock rec) a loop boundary log body)
    (unlocked : w.resolutionLock = none) (retains : w.snapshot.Retains s)
    (covered : Covered w lock log) :
    before = [] ∧ ∃ pins, Clean (loopBoundary (w.relocked s lock) loop (a.scope.child loopBodySegment))
      pins (some (inputs, outputs)) ∧ unpinned pins = [] ∧ ∀ x ∈ pinsOf pins, x ∈ resolvedScopes log := by
  have none : pinEntries w ((a.scope.child loopBodySegment).child "$body") = [] := by
    rw [pinEntries, unlocked]
    rfl
  refine ⟨(loopBoundary_entries h).elim id (·.trans none), ?_⟩
  rw [loopBoundary] at h
  unfold loopBoundary
  unfold BodyRun at ran
  cases hb : loop.body with
  | inr g =>
    simp only [hb] at h ⊢
    obtain ⟨-, same⟩ := clean_pure.mp h
    exact ⟨[], clean_pure.mpr ⟨rfl, same⟩, rfl, fun x hx => absurd hx List.not_mem_nil⟩
  | inl ref =>
    simp only [hb] at h ran ⊢
    obtain ⟨l₁, resolved, l₂, hr, htail, rfl⟩ := clean_bind.mp h
    obtain ⟨-, stored, rfl, selected⟩ := resolveRef_clean hr
    obtain ⟨r, logged, scope, name, version⟩ := ran.resolved ref rfl stored selected
    have here : r.scope = (a.scope.child loopBodySegment).child "$body" := scope
    have pinned := covered.pinned r logged
    rw [here, name, version] at pinned
    have held := retains _ _ _ (get_of_selectVersion selected)
    have again := resolveRef_pinned (w := w) pinned (name_of_selectVersion selected) held
    have quiet : l₂ = [] := by
      dsimp only at htail
      split at htail
      · exact absurd htail clean_fault_bind
      · exact (clean_pure.mp htail).1
    subst quiet
    refine ⟨_, clean_bind.mpr ⟨_, some stored, [], again, htail, rfl⟩, rfl, fun x hx => ?_⟩
    obtain rfl : x = r.scope := by
      rw [here]
      exact List.mem_singleton.mp hx
    exact List.mem_map.mpr ⟨r, logged, rfl⟩

theorem loop_relocked {a : Seat} {loop : Loop} {inputs outputs : List Port} {bound body : Sources}
    {log : List (Emitted δ)} {feedback : List ResolvedPortBinding} {continuation : PortAddress}
    (run : LoopRun (NodeReplays w lock rec) w a loop inputs outputs bound log body feedback continuation)
    (covered : Covered w lock log) :
    ∃ log', LoopRun (Compiles rec) (w.relocked s lock) a loop inputs outputs bound log' body feedback
      continuation ∧ Replays log log' := by
  obtain ⟨log', ran, replays⟩ := bodyRun_replays run.ran covered
  have members : atomicsOf log' = atomicsOf log := replays.filterMap fun _ => rfl
  exact ⟨log', { run with ran := ran, nonempty := members ▸ run.nonempty }, replays⟩

theorem replay_rules (unlocked : w.resolutionLock = none) (retains : w.snapshot.Retains s) :
    CompileRules w (NodeReplays w lock rec)
      (NodeReplays w lock (compileNodeWith (w.relocked s lock) rec)) where
  atomic := by
    intro a ref stored grants bound before p log out run opens h
    refine ⟨fun covered => ?_, run.resolves log⟩
    obtain ⟨here, there⟩ := covered.split
    obtain ⟨before', pinned, replays⟩ := run.relocked unlocked retains here
    have again : Clean (registerAtomic (w.relocked s lock) a stored.definition bound ref grants) log out :=
      registerAtomic_relocked h there.available
    have same := Replays.self (registerAtomic_pins h) (registerAtomic_clean h).1
    exact ⟨before' ++ log, clean_of_atomic pinned opens again, replays.append same⟩
  composite := by
    intro a ref stored grants bound before g log out run opens honest level
    refine ⟨fun covered => ?_, run.resolves log⟩
    obtain ⟨here, there⟩ := covered.split
    obtain ⟨before', pinned, replays⟩ := run.relocked unlocked retains here
    obtain ⟨log', again, follows⟩ := levelRun_replays level there
    exact ⟨before' ++ log', clean_of_composite pinned opens honest again, replays.append follows⟩
  inline := by
    intro a g bound log out node inputs level
    refine ⟨fun covered => ?_, fun ref body => absurd (node.symm.trans body) (by simp)⟩
    obtain ⟨log', again, replays⟩ := levelRun_replays level covered
    exact ⟨log', clean_of_inline node inputs again, replays⟩
  loop := by
    intro a loop before inputs outputs bound log body feedback continuation node top boundary run
    refine ⟨fun covered => ?_, fun ref other => absurd (node.symm.trans other) (by simp)⟩
    obtain ⟨-, inner⟩ := covered.split
    obtain ⟨inner, -⟩ := inner.split
    obtain ⟨rfl, pins, reopened, silent, within⟩ :=
      loopBoundary_relocked boundary run.ran unlocked retains inner
    obtain ⟨log', again, replays⟩ := loop_relocked (s := s) run inner
    have members : atomicsOf log' = atomicsOf log := replays.filterMap fun _ => rfl
    have compiled := clean_of_loop node top reopened again
    rw [members] at compiled
    refine ⟨_, compiled, ?_, fun x => ?_⟩
    · rw [unpinned_append, silent, unpinned_append, replays.entries]
      rfl
    · simp only [pinsOf_append, List.mem_append, List.nil_append, resolvedScopes_append, replays.pins x]
      constructor
      · rintro (early | inside | last)
        · exact .inl (within x early)
        · exact .inl inside
        · cases last
      · rintro (inside | last)
        · exact .inr (.inl inside)
        · cases last

end

/-! ## One resolution for each scope -/

/-- The scopes a log resolves are distinct and stand below one scope. -/
structure ResolvesBelow (scope : ScopePath) (log : List (Emitted δ)) : Prop where
  under : ∀ x ∈ resolvedScopes log, scope <+: x
  distinct : (resolvedScopes log).Nodup

theorem resolvesBelow_nodes {g : Graph} {l : Level} {upstream : Dict String (List String)}
    {nodes : List GraphNode} {lookup last : NodeLookup} {log : List (Emitted δ)}
    (h : NodesRun (fun a log _ => ResolvesBelow a.scope log) g l upstream nodes lookup log last)
    (ids : (nodes.map NodeOf.id).Nodup) :
    (resolvedScopes log).Nodup ∧ ∀ x ∈ resolvedScopes log, BelowOne l.scope nodes x := by
  induction h with
  | nil => exact ⟨List.nodup_nil, fun x hx => absurd hx List.not_mem_nil⟩
  | @cons node nodes lookup last log rest out head tail ih =>
    obtain ⟨fresh, ids⟩ := List.nodup_cons.mp ids
    obtain ⟨distinct, below⟩ := ih ids
    rw [resolvedScopes_append]
    constructor
    · refine List.nodup_append.mpr ⟨head.distinct, distinct, fun x hx y hy same => ?_⟩
      have apart := apart_of_below fresh (head.under x hx) (below y hy) (List.prefix_refl x)
      exact apart (same ▸ List.prefix_refl x)
    · intro x hx
      rcases List.mem_append.mp hx with hx | hx
      · exact ⟨node, List.mem_cons_self, head.under x hx⟩
      · obtain ⟨n, hn, hx⟩ := below x hx
        exact ⟨n, List.mem_cons_of_mem _ hn, hx⟩

theorem resolvesBelow_level {g : Graph} {l : Level} {log : List (Emitted δ)} {out : Sources}
    (h : LevelRun (fun a log _ => ResolvesBelow a.scope log) g l log out) :
    ResolvesBelow l.scope log ∧ l.scope ∉ resolvedScopes log := by
  obtain ⟨-, -, -, -, order, nodes, -⟩ := h
  obtain ⟨distinct, below⟩ := resolvesBelow_nodes nodes (orderedNodes_nodup order)
  refine ⟨⟨fun x hx => ?_, distinct⟩, fun here => ?_⟩
  · obtain ⟨n, -, hx⟩ := below x hx
    exact (List.prefix_append l.scope [n.id]).trans hx
  · obtain ⟨n, -, inside⟩ := below l.scope here
    exact not_child_prefix l.scope n.id inside

theorem resolves_rules (w : World δ) :
    CompileRules w (fun a log _ => ResolvesBelow a.scope log) (fun a log _ => ResolvesBelow a.scope log) where
  atomic := by
    intro a ref stored grants bound before p log out run opens h
    obtain ⟨r, resolution, scope, -⟩ := run.resolution
    have one : resolvedScopes (before ++ log) = [a.scope] := by
      rw [resolvedScopes_append, resolvedScopes, resolvedScopes, resolution, (registerAtomic_clean h).1,
        ← scope]
      rfl
    refine ⟨fun x hx => ?_, one ▸ List.nodup_singleton a.scope⟩
    rw [one, List.mem_singleton] at hx
    exact hx ▸ List.prefix_refl x
  composite := by
    intro a ref stored grants bound before g log out run opens _ level
    obtain ⟨r, resolution, scope, -⟩ := run.resolution
    obtain ⟨inner, absent⟩ := resolvesBelow_level level
    have first : resolvedScopes (before ++ log) = a.scope :: resolvedScopes log := by
      rw [resolvedScopes_append, resolvedScopes, resolution, ← scope]
      rfl
    refine ⟨fun x hx => ?_, first ▸ List.nodup_cons.mpr ⟨absent, inner.distinct⟩⟩
    rw [first] at hx
    rcases List.mem_cons.mp hx with rfl | hx
    · exact List.prefix_refl a.scope
    · exact inner.under x hx
  inline _ _ level := (resolvesBelow_level level).1
  loop := by
    intro a loop before inputs outputs bound log body feedback continuation _ _ boundary run
    have silent : resolvedScopes before = [] := by
      rcases loopBoundary_entries boundary with rfl | rfl
      · rfl
      · have none : resolutionsOf (pinEntries w ((a.scope.child loopBodySegment).child "$body")) = [] :=
          filterMap_pinEntries (fun _ => rfl) w _
        rw [resolvedScopes, none, List.map_nil]
    have inside : a.scope <+: a.scope.child loopBodySegment := List.prefix_append _ _
    have inner : ResolvesBelow (a.scope.child loopBodySegment) log := by
      have ran := run.ran
      unfold BodyRun at ran
      cases hb : loop.body with
      | inl ref =>
        rw [hb] at ran
        exact ⟨fun x hx => (List.prefix_append _ _).trans (ran.under x hx), ran.distinct⟩
      | inr g =>
        rw [hb] at ran
        exact (resolvesBelow_level ran).1
    have same : ∀ l : LoopResolution, resolvedScopes (before ++ (log ++ [.loop l])) = resolvedScopes log := by
      intro l
      rw [resolvedScopes_append, silent, resolvedScopes_append]
      exact List.append_nil _
    refine ⟨fun x hx => ?_, same _ ▸ inner.distinct⟩
    rw [same] at hx
    exact inside.trans (inner.under x hx)

/-! ## The lock of a manifest -/

theorem resolutionLockFor_pins {m : ExecutionManifest δ}
    (distinct : (m.resolvedComponents.map ComponentResolution.scope).Nodup) :
    ∃ lock, resolutionLockFor m .empty = some lock ∧
      (∀ r ∈ m.resolvedComponents, lock.get? r.scope = some ⟨r.scope, r.component, r.resolvedVersion⟩) ∧
      ∀ p ∈ lock.entries, p.1 ∈ m.resolvedComponents.map ComponentResolution.scope := by
  let sorted := (resolutionPins m .empty).insertionSort (fun a b => ScopePath.le a.scope b.scope)
  have perm : sorted.Perm (resolutionPins m .empty) := List.perm_insertionSort _ _
  have scopes : (resolutionPins m .empty).map ResolutionPin.scope =
      m.resolvedComponents.map ComponentResolution.scope := by
    simp [resolutionPins, Function.comp_def]
  have nodup : (sorted.map ResolutionPin.scope).Nodup := by
    rw [(perm.map _).nodup_iff, scopes]
    exact distinct
  have keys : (sorted.map (fun pin => (pin.scope, pin))).map Prod.fst = sorted.map ResolutionPin.scope := by
    simp [Function.comp_def]
  have entries : (ResolutionLock.ofPins sorted).entries = sorted.map (fun pin => (pin.scope, pin)) :=
    Dict.ofList_entries (keys ▸ nodup)
  refine ⟨ResolutionLock.ofPins sorted, ?_, fun r hr => ?_, fun p hp => ?_⟩
  · have unique : uniqueScopes (resolutionPins m .empty) = some sorted := by
      rw [uniqueScopes]
      exact if_pos nodup
    rw [resolutionLockFor, unique]
    rfl
  · apply Dict.get?_of_mem
    · rw [Dict.keys, entries, keys]
      exact nodup
    · rw [entries]
      refine List.mem_map.mpr ⟨⟨r.scope, r.component, r.resolvedVersion⟩, ?_, rfl⟩
      exact perm.mem_iff.mpr (List.mem_map.mpr ⟨r, hr, rfl⟩)
  · rw [entries] at hp
    obtain ⟨pin, hpin, rfl⟩ := List.mem_map.mp hp
    rw [← scopes]
    exact List.mem_map.mpr ⟨pin, perm.mem_iff.mp hpin, rfl⟩

theorem unusedPinFaults_nil {lock : ResolutionLock} {consumed : List ScopePath}
    (h : ∀ p ∈ lock.entries, p.1 ∈ consumed) : unusedPinFaults (some lock) consumed = [] := by
  have none : lock.entries.filter (fun p => p.1 ∉ consumed) = [] := by
    rw [List.filter_eq_nil_iff]
    intro p hp unused
    exact of_decide_eq_true unused (h p hp)
  simp only [unusedPinFaults, none]
  rfl

theorem sealManifest_congr (adm : Admission δ) (g : Graph) {log log' : List (Emitted δ)}
    (resolutions : resolutionsOf log' = resolutionsOf log) (bindings : bindingsOf log' = bindingsOf log)
    (capabilities : capabilitiesOf log' = capabilitiesOf log) (loops : loopsOf log' = loopsOf log) :
    sealManifest adm g log' = sealManifest adm g log := by
  simp only [sealManifest, resolutions, bindings, capabilities, loops]

def Admission.relocked (adm : Admission δ) (s : RegistrySnapshot) (lock : ResolutionLock) : Admission δ :=
  { adm with snapshot := s, resolutionLock := some lock }

theorem root_relocked {adm : Admission δ} {depth : ℕ} {g : Graph} {log : List (Emitted δ)}
    {outputs : Sources} {s : RegistrySnapshot} {lock : ResolutionLock}
    (h : Clean (compileGraph (adm.world g) depth g (rootLevel adm g)) log outputs)
    (unlocked : adm.resolutionLock = none) (retains : adm.snapshot.Retains s)
    (covered : Covered (adm.world g) lock log) :
    ∃ log', Clean (compileGraph ((adm.relocked s lock).world g) depth g (rootLevel (adm.relocked s lock) g))
      log' outputs ∧ Replays log log' := by
  have rules : ∀ depth, CompileRules (adm.world g)
      (NodeReplays (adm.world g) lock (compileNode ((adm.world g).relocked s lock) depth))
      (NodeReplays (adm.world g) lock (compileNode ((adm.world g).relocked s lock) (depth + 1))) :=
    fun _ => replay_rules unlocked retains
  have level := compileGraph_rules
    (P := fun depth => NodeReplays (adm.world g) lock (compileNode ((adm.world g).relocked s lock) depth))
    rules h
  obtain ⟨log', again, replays⟩ := levelRun_replays level covered
  exact ⟨log', clean_of_levelRun again, replays⟩

theorem root_distinct {adm : Admission δ} {depth : ℕ} {g : Graph} {log : List (Emitted δ)}
    {outputs : Sources} (h : Clean (compileGraph (adm.world g) depth g (rootLevel adm g)) log outputs) :
    (resolvedScopes log).Nodup := by
  have level := compileGraph_rules (P := fun _ a log _ => ResolvesBelow a.scope log)
    (fun _ => resolves_rules (adm.world g)) h
  exact (resolvesBelow_level level).1.distinct

section Outputs

variable (g : Graph) (outputs : Sources) (log : List (Emitted δ))

theorem resolutionsOf_outputs :
    resolutionsOf (log ++ (outputBindings g outputs).map .binding) = resolutionsOf log := by
  rw [resolutionsOf_append, (bindings_projections (outputBindings g outputs)).1, List.append_nil]

theorem filterMap_outputs {β : Type} {f : Emitted δ → Option β} (skips : ∀ b, f (.binding b) = none) :
    (log ++ (outputBindings g outputs).map Emitted.binding).filterMap f = log.filterMap f := by
  have none : ((outputBindings g outputs).map Emitted.binding).filterMap f = [] := by
    rw [List.filterMap_map, List.filterMap_eq_nil_iff]
    exact fun b _ => skips b
  rw [List.filterMap_append, none, List.append_nil]

end Outputs

theorem admit_reproduces {adm : Admission δ} {depth : ℕ} {g : Graph} {m : ExecutionManifest δ}
    {s : RegistrySnapshot} (h : admitGraph adm depth g = .ok m) (unlocked : adm.resolutionLock = none)
    (retains : adm.snapshot.Retains s)
    (available : ∀ c ∈ m.capabilityBindings, Available (adm.world g) c) :
    ∃ lock, resolutionLockFor m .empty = some lock ∧ admitGraph (adm.relocked s lock) depth g = .ok m := by
  obtain ⟨log, clean, sealed⟩ := clean_of_admit h
  obtain ⟨rootLog, outputs, root, inputs, -, rfl⟩ := admitCompile_clean clean
  have components : m.resolvedComponents = resolutionsOf rootLog := by
    rw [sealed, sealManifest_resolvedComponents, resolutionsOf_outputs]
  have bindings : m.capabilityBindings = capabilitiesOf rootLog := by
    rw [sealed]
    exact filterMap_outputs g outputs rootLog (f := Emitted.capability?) fun _ => rfl
  have distinct : (m.resolvedComponents.map ComponentResolution.scope).Nodup :=
    components ▸ root_distinct root
  obtain ⟨lock, locked, pinned, keys⟩ := resolutionLockFor_pins distinct
  rw [components] at pinned keys
  rw [bindings] at available
  obtain ⟨log', again, replays⟩ := root_relocked root unlocked retains ⟨pinned, available⟩
  refine ⟨lock, locked, ?_⟩
  have used : unusedPinFaults (some lock) (pinsOf log') = [] :=
    unusedPinFaults_nil fun p hp => (replays.pins p.1).mpr (keys p hp)
  obtain ⟨-, -, inputNames, outputNames, -, -, -⟩ := compileGraph_rules
    (P := fun _ a log _ => ResolvesBelow a.scope log) (fun _ => resolves_rules (adm.world g)) root
  have relocked := admit_of_clean (clean_admitCompile inputNames outputNames again inputs used)
  rw [relocked, sealed]
  have resolutions : resolutionsOf log' = resolutionsOf rootLog := replays.filterMap fun _ => rfl
  have connections : bindingsOf log' = bindingsOf rootLog := replays.filterMap fun _ => rfl
  have capabilities : capabilitiesOf log' = capabilitiesOf rootLog := replays.filterMap fun _ => rfl
  have loops : loopsOf log' = loopsOf rootLog := replays.filterMap fun _ => rfl
  refine congrArg Except.ok (sealManifest_congr adm g ?_ ?_ ?_ ?_)
  · rw [resolutionsOf_append, resolutionsOf_append, resolutions]
  · rw [bindingsOf_append, bindingsOf_append, connections]
  · rw [capabilitiesOf_append, capabilitiesOf_append, capabilities]
  · rw [loopsOf_append, loopsOf_append, loops]

/-! ## Locked admissions -/

/-- A log resolves each scope to its pin and consumes those pins only. -/
structure PinnedLog (lock : ResolutionLock) (log : List (Emitted δ)) : Prop where
  exact : ∀ r ∈ resolutionsOf log, ∃ pin, lock.get? r.scope = some pin ∧ pin.component = r.component ∧
    pin.version = r.resolvedVersion
  consumed : ∀ x, x ∈ pinsOf log ↔ x ∈ resolvedScopes log

/-- What a node logs under a lock; a reference resolves at its own scope. -/
structure Pinned (lock : ResolutionLock) (a : Seat) (log : List (Emitted δ)) : Prop where
  entries : PinnedLog lock log
  here : ∀ ref, a.node.body = .ref ref → a.scope ∈ resolvedScopes log

theorem pin_of_selectVersion {s : RegistrySnapshot} {ref : Ref} {scope : ScopePath}
    {lock : ResolutionLock} {stored : StoredVersion}
    (h : selectVersion s ref scope (some lock) = some stored) :
    ∃ pin, lock.get? scope = some pin ∧ pin.component = stored.definition.name ∧
      pin.version = stored.contentHash := by
  simp only [selectVersion] at h
  cases found : lock.get? scope with
  | none => simp [found] at h
  | some pin =>
    simp only [found] at h
    split_ifs at h
    obtain ⟨name, version⟩ := RegistrySnapshot.get_filed h
    exact ⟨pin, rfl, name.symm, version.symm⟩

section

variable {w : World δ} {lock : ResolutionLock}

theorem PinnedLog.of_quiet {log : List (Emitted δ)} (pins : pinsOf log = [])
    (resolutions : resolutionsOf log = []) : PinnedLog lock log := by
  constructor
  · intro r hr
    rw [resolutions] at hr
    cases hr
  · intro x
    rw [pins, resolvedScopes, resolutions, List.map_nil]

theorem PinnedLog.append {l l' : List (Emitted δ)} (h : PinnedLog lock l) (h' : PinnedLog lock l') :
    PinnedLog lock (l ++ l') := by
  constructor
  · intro r hr
    rw [resolutionsOf_append] at hr
    exact (List.mem_append.mp hr).elim (h.exact r) (h'.exact r)
  · intro x
    rw [pinsOf_append, resolvedScopes_append, List.mem_append, List.mem_append, h.consumed, h'.consumed]

theorem RefRun.pinned {a : Seat} {ref : Ref} {stored : StoredVersion} {grants : EffectiveGrants}
    {bound : Sources} {before log : List (Emitted δ)} (h : RefRun w a ref stored grants bound before)
    (locked : w.resolutionLock = some lock) (inner : PinnedLog lock log) :
    Pinned lock a (before ++ log) := by
  obtain ⟨selected, r, rfl, scope, name, version⟩ := h.entries
  rw [locked] at selected
  have pins : pinEntries w a.scope = [.pin a.scope] := by
    rw [pinEntries, locked]
    rfl
  rw [pins]
  have first : PinnedLog lock ([.pin a.scope] ++ [.resolution r]) := by
    constructor
    · intro r' hr'
      obtain rfl := List.mem_singleton.mp hr'
      rw [scope, name, version]
      exact pin_of_selectVersion selected
    · intro x
      change x ∈ [a.scope] ↔ x ∈ [r.scope]
      rw [scope]
  refine ⟨first.append inner, fun _ _ => ?_⟩
  rw [resolvedScopes_append]
  refine List.mem_append_left _ ?_
  change a.scope ∈ [r.scope]
  rw [scope]
  exact List.mem_singleton_self a.scope

theorem pinned_nodes {g : Graph} {l : Level} {upstream : Dict String (List String)}
    {nodes : List GraphNode} {lookup last : NodeLookup} {log : List (Emitted δ)}
    (h : NodesRun (fun a log _ => Pinned lock a log) g l upstream nodes lookup log last) :
    PinnedLog lock log := by
  induction h with
  | nil => exact .of_quiet rfl rfl
  | cons head tail ih => exact head.entries.append ih

theorem pinned_level {g : Graph} {l : Level} {log : List (Emitted δ)} {out : Sources}
    (h : LevelRun (fun a log _ => Pinned lock a log) g l log out) : PinnedLog lock log := by
  obtain ⟨-, -, -, -, -, nodes, -⟩ := h
  exact pinned_nodes nodes

theorem boundary_pins {a : Seat} {loop : Loop} {boundary body : Sources} {before log : List (Emitted δ)}
    {r : Option (List Port × List Port)}
    (h : Clean (loopBoundary w loop (a.scope.child loopBodySegment)) before r)
    (ran : BodyRun (fun a log _ => Pinned lock a log) a loop boundary log body) :
    resolutionsOf before = [] ∧ PinnedLog lock log ∧ ∀ x ∈ pinsOf before, x ∈ resolvedScopes log := by
  have silent : resolutionsOf before = [] := by
    rcases loopBoundary_entries h with rfl | rfl
    · rfl
    · exact filterMap_pinEntries (fun _ => rfl) w _
  refine ⟨silent, ?_⟩
  unfold BodyRun at ran
  cases hb : loop.body with
  | inl ref =>
    rw [hb] at ran
    refine ⟨ran.entries, fun x hx => ?_⟩
    have one : x = (a.scope.child loopBodySegment).child "$body" := by
      rcases loopBoundary_entries h with rfl | rfl
      · cases hx
      · unfold pinEntries at hx
        split_ifs at hx
        · exact List.mem_singleton.mp hx
        · cases hx
    exact one ▸ ran.here ref rfl
  | inr g =>
    rw [hb] at ran
    rw [loopBoundary, hb] at h
    obtain ⟨rfl, -⟩ := clean_pure.mp h
    exact ⟨pinned_level ran, fun x hx => absurd hx List.not_mem_nil⟩

theorem pinned_loop {a : Seat} {loop : Loop} {boundary body : Sources} {before log : List (Emitted δ)}
    {r : Option (List Port × List Port)} (l : LoopResolution)
    (h : Clean (loopBoundary w loop (a.scope.child loopBodySegment)) before r)
    (ran : BodyRun (fun a log _ => Pinned lock a log) a loop boundary log body) :
    PinnedLog lock (before ++ (log ++ [.loop l])) := by
  obtain ⟨silent, inner, early⟩ := boundary_pins h ran
  have grown : PinnedLog lock (log ++ [.loop l]) := inner.append (.of_quiet rfl rfl)
  constructor
  · intro r hr
    rw [resolutionsOf_append, silent, List.nil_append] at hr
    exact grown.exact r hr
  · intro x
    have none : resolvedScopes before = [] := by rw [resolvedScopes, silent, List.map_nil]
    rw [pinsOf_append, resolvedScopes_append, none, List.nil_append, List.mem_append, grown.consumed]
    refine ⟨fun hx => hx.elim (fun first => ?_) id, .inr⟩
    rw [resolvedScopes_append]
    exact List.mem_append_left _ (early x first)

theorem pinned_rules (locked : w.resolutionLock = some lock) :
    CompileRules w (fun a log _ => Pinned lock a log) (fun a log _ => Pinned lock a log) where
  atomic run _ h := run.pinned locked (.of_quiet (registerAtomic_pins h) (registerAtomic_clean h).1)
  composite run _ _ level := run.pinned locked (pinned_level level)
  inline node _ level := ⟨pinned_level level, fun ref other => absurd (node.symm.trans other) (by simp)⟩
  loop node _ boundary run :=
    ⟨pinned_loop _ boundary run.ran, fun ref other => absurd (node.symm.trans other) (by simp)⟩

end

/-! ## No stable pointer under a lock -/

def RegistrySnapshot.restable (s : RegistrySnapshot) (stable : Dict String String) : RegistrySnapshot :=
  { s with stable := stable }

def World.restable (w : World δ) (stable : Dict String String) : World δ :=
  { w with snapshot := w.snapshot.restable stable }

theorem resolveRef_restable {w : World δ} {lock : ResolutionLock} (locked : w.resolutionLock = some lock)
    (stable : Dict String String) (ref : Ref) (scope : ScopePath) :
    resolveRef (w.restable stable) ref scope = resolveRef w ref scope := by
  have locked' : (w.restable stable).resolutionLock = some lock := locked
  have same : selectVersion (w.restable stable).snapshot ref scope (some lock) =
      selectVersion w.snapshot ref scope (some lock) := rfl
  unfold resolveRef
  simp only [locked, locked', same]

theorem bindCapabilities_restable (w : World δ) (stable : Dict String String) (d : ComponentDef)
    (scope : ScopePath) (grants : EffectiveGrants) (entries : List (String × String)) :
    bindCapabilities (w.restable stable) d scope grants entries = bindCapabilities w d scope grants entries := by
  induction entries with
  | nil => rfl
  | cons entry entries ih =>
    obtain ⟨aliasName, capabilityId⟩ := entry
    rw [bindCapabilities, bindCapabilities, ih]
    rfl

theorem compileStored_restable (w : World δ) (stable : Dict String String) (rec : Seat → Compile δ Sources)
    (a : Seat) (ref : Ref) (stored : StoredVersion) :
    compileStored (w.restable stable) rec a ref stored = compileStored w rec a ref stored := by
  unfold compileStored registerAtomic
  simp only [bindCapabilities_restable]
  rfl

theorem compileNode_restable {w : World δ} {lock : ResolutionLock} (locked : w.resolutionLock = some lock)
    (stable : Dict String String) (depth : ℕ) : compileNode (w.restable stable) depth = compileNode w depth := by
  induction depth with
  | zero => rfl
  | succ depth ih =>
    funext a
    have resolve := resolveRef_restable locked stable
    change compileNodeWith (w.restable stable) (compileNode (w.restable stable) depth) a =
      compileNodeWith w (compileNode w depth) a
    rw [ih]
    have bounded : compileBounded (w.restable stable) (compileNode w depth) =
        compileBounded w (compileNode w depth) := rfl
    unfold compileNodeWith compileLoop loopBoundary compileRef
    simp only [resolve, compileStored_restable, bounded]
    rfl

theorem keys_of_unusedPinFaults {lock : ResolutionLock} {consumed : List ScopePath}
    (h : unusedPinFaults (some lock) consumed = []) : ∀ p ∈ lock.entries, p.1 ∈ consumed := by
  intro p hp
  by_contra unused
  have kept : p ∈ lock.entries.filter (fun p => p.1 ∉ consumed) :=
    List.mem_filter.mpr ⟨hp, decide_eq_true unused⟩
  rw [unusedPinFaults, List.map_eq_nil_iff] at h
  have sorted := (List.perm_insertionSort (fun a b => ScopePath.le a.1 b.1) _).mem_iff.mpr kept
  rw [h] at sorted
  cases sorted

theorem locked_log {adm : Admission δ} {depth : ℕ} {g : Graph} {m : ExecutionManifest δ}
    {lock : ResolutionLock} (h : admitGraph adm depth g = .ok m) (locked : adm.resolutionLock = some lock) :
    PinnedLog lock (admitCompile adm depth g).log ∧
      m.resolvedComponents = resolutionsOf (admitCompile adm depth g).log ∧
      ∀ p ∈ lock.entries, p.1 ∈ pinsOf (admitCompile adm depth g).log := by
  obtain ⟨log, clean, rfl⟩ := clean_of_admit h
  have same : (admitCompile adm depth g).log = log := congrArg Emit.log clean.1
  obtain ⟨rootLog, outputs, root, -, used, rfl⟩ := admitCompile_clean clean
  rw [same]
  have level := compileGraph_rules (P := fun _ a log _ => Pinned lock a log)
    (fun _ => pinned_rules locked) root
  have pins : pinsOf (rootLog ++ (outputBindings g outputs).map .binding) = pinsOf rootLog :=
    filterMap_outputs g outputs rootLog (f := Emitted.pin?) fun _ => rfl
  have noPin : pinsOf ((outputBindings g outputs).map (Emitted.binding (δ := δ))) = [] := by
    rw [pinsOf, List.filterMap_map, List.filterMap_eq_nil_iff]
    exact fun _ _ => rfl
  have noResolution := (bindings_projections (δ := δ) (outputBindings g outputs)).1
  refine ⟨(pinned_level level).append (.of_quiet noPin noResolution), rfl, ?_⟩
  rw [locked] at used
  rw [pins]
  exact keys_of_unusedPinFaults used

/-- Locks reproduce the admission they were taken from, and bind every admission they are
given to. -/
theorem locks_reproduce {adm : Admission δ} {depth : ℕ} {g : Graph} {m : ExecutionManifest δ}
    (h : admitGraph adm depth g = .ok m) :
    (adm.resolutionLock = none → ∀ s, adm.snapshot.Retains s →
      (∀ c ∈ m.capabilityBindings, Available (adm.world g) c) →
        ∃ lock, resolutionLockFor m .empty = some lock ∧
          admitGraph (adm.relocked s lock) depth g = .ok m) ∧
    ∀ lock, adm.resolutionLock = some lock →
      (∀ x, x ∈ pinsOf (admitCompile adm depth g).log ↔ x ∈ lock.keys) ∧
      (∀ r ∈ m.resolvedComponents, ∃ pin, lock.get? r.scope = some pin ∧
        pin.component = r.component ∧ pin.version = r.resolvedVersion) ∧
      (∀ x ∈ lock.keys, ∃ r ∈ m.resolvedComponents, r.scope = x) ∧
      ∀ stable, admitGraph { adm with snapshot := adm.snapshot.restable stable } depth g = .ok m := by
  refine ⟨fun unlocked s retains available => admit_reproduces h unlocked retains available, ?_⟩
  intro lock locked
  obtain ⟨pinned, components, used⟩ := locked_log h locked
  have consumed : ∀ x ∈ lock.keys, x ∈ pinsOf (admitCompile adm depth g).log := by
    intro x hx
    obtain ⟨p, hp, rfl⟩ := List.mem_map.mp hx
    exact used p hp
  refine ⟨fun x => ⟨fun hx => ?_, consumed x⟩, ?_, fun x hx => ?_, fun stable => ?_⟩
  · obtain ⟨r, hr, rfl⟩ := List.mem_map.mp ((pinned.consumed x).mp hx)
    obtain ⟨pin, found, -⟩ := pinned.exact r hr
    exact List.mem_map.mpr ⟨_, Dict.mem_of_get? found, rfl⟩
  · rw [components]
    exact pinned.exact
  · rw [components]
    obtain ⟨r, hr, rfl⟩ := List.mem_map.mp ((pinned.consumed x).mp (consumed x hx))
    exact ⟨r, hr, rfl⟩
  · have same : compileNode ((adm.world g).restable stable) depth = compileNode (adm.world g) depth :=
      compileNode_restable locked stable depth
    rw [← h]
    have world : compileGraph ((adm.world g).restable stable) depth g (rootLevel adm g) =
        compileGraph (adm.world g) depth g (rootLevel adm g) := by
      rw [compileGraph, compileGraph, same]
    have compiled : admitCompile { adm with snapshot := adm.snapshot.restable stable } depth g =
        admitCompile adm depth g := by
      unfold admitCompile
      rw [← world]
      rfl
    unfold admitGraph
    rw [compiled]
    rfl

/-- The loop of the sample is reproduced when its component has no stable version any more. -/
theorem locks_reproduce_counter :
    ∃ m, admitGraph (Sample.admission ⟨[("x", .int 0)]⟩) 2 Sample.counter = .ok m ∧
      ∃ lock, resolutionLockFor m .empty = some lock ∧
        admitGraph ((Sample.admission ⟨[("x", .int 0)]⟩).relocked (Sample.snapshot.restable .empty) lock) 2
          Sample.counter = .ok m := by
  obtain ⟨m, hm, catalog⟩ : ∃ m,
      admitGraph (Sample.admission ⟨[("x", .int 0)]⟩) 2 Sample.counter = .ok m ∧
        ∀ c ∈ m.capabilityBindings,
          Available ((Sample.admission ⟨[("x", .int 0)]⟩).world Sample.counter) c :=
    ⟨_, rfl, fun _ _ _ found => absurd found (by simp [Sample.admission, Sample.assembly,
      Admission.world])⟩
  exact ⟨m, hm, (locks_reproduce hm).1 rfl _ (fun _ _ _ held => held) catalog⟩

namespace Sample

/-- `pair` bound to an executor. -/
def leased : Graph where
  name := "g"
  nodes := [⟨"s", .ref { component := "pair", bind := ⟨[("run", "exec")]⟩ }⟩]

/-- An admission whose only executor is offline but authorized for every graph. -/
def excused : Admission (String × ℕ × Json) :=
  { admission .empty with
    assembly :=
      { assembly with
        catalog := ⟨[("exec", { capabilityId := "exec", kind := "executor", revision := "1" })]⟩
        executorUnavailability := fun _ => ["offline"]
        authorizesAdmission := fun _ _ => true } }

end Sample

/-- An authorized provider is excused once, and never under the lock of its own manifest. -/
theorem excused_not_reproduced :
    ∃ m lock, admitGraph Sample.excused 1 Sample.leased = .ok m ∧
      resolutionLockFor m .empty = some lock ∧
        ∀ m', admitGraph (Sample.excused.relocked Sample.snapshot lock) 1 Sample.leased ≠ .ok m' := by
  refine ⟨_, _, rfl, rfl, fun m' h => ?_⟩
  cases h

end Constructicon
