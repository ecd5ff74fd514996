import Constructicon.Closedness
import Constructicon.CompileRules

/-!
# Instances and loop programs

A compilation appends to one log, and a loop keeps the slice of it that its body wrote. Every
entry of a node stands under the node's scope, siblings share no scope, and a binding stands
after the units its sources belong to and before the instance it feeds. So the members of a
loop are exactly the instances under its body, in an order their inputs allow, and no two
loops share one.
-/

namespace Constructicon

variable {δ : Type}

/-- The scope of the unit an address belongs to; a graph port belongs to none. -/
def PortAddress.unit? : PortAddress → Option ScopePath
  | .nodePort scope node _ => some (scope.child node)
  | _ => none

def Emitted.unit? : Emitted δ → Option ScopePath
  | .atomic scope => some scope
  | .loop l => some l.scope
  | _ => none

/-- The scopes of instances and loops, in the order they were added. -/
def unitsOf (log : List (Emitted δ)) : List ScopePath := log.filterMap Emitted.unit?

@[simp] theorem unitsOf_append (l l' : List (Emitted δ)) : unitsOf (l ++ l') = unitsOf l ++ unitsOf l' :=
  List.filterMap_append

theorem atomicsOf_sublist (log : List (Emitted δ)) : (atomicsOf log).Sublist (unitsOf log) := by
  induction log with
  | nil => exact List.Sublist.slnil
  | cons e log ih =>
    cases e with
    | atomic scope => exact ih.cons_cons scope
    | loop l => exact ih.cons l.scope
    | _ => exact ih

theorem loopScopes_sublist (log : List (Emitted δ)) :
    ((loopsOf log).map LoopResolution.scope).Sublist (unitsOf log) := by
  induction log with
  | nil => exact List.Sublist.slnil
  | cons e log ih =>
    cases e with
    | atomic scope => exact ih.cons scope
    | loop l => exact ih.cons_cons l.scope
    | _ => exact ih

theorem mem_unitsOf {log : List (Emitted δ)} {x : ScopePath} :
    x ∈ unitsOf log ↔ x ∈ atomicsOf log ∨ ∃ l ∈ loopsOf log, l.scope = x := by
  induction log with
  | nil => simp [unitsOf, atomicsOf, loopsOf]
  | cons e log ih =>
    cases e with
    | atomic scope =>
      change x ∈ scope :: unitsOf log ↔ x ∈ scope :: atomicsOf log ∨ ∃ l ∈ loopsOf log, l.scope = x
      rw [List.mem_cons, List.mem_cons, ih, or_assoc]
    | loop l =>
      change x ∈ l.scope :: unitsOf log ↔ x ∈ atomicsOf log ∨ ∃ k ∈ l :: loopsOf log, k.scope = x
      rw [List.mem_cons, ih, List.exists_mem_cons_iff, @eq_comm _ x]
      tauto
    | _ => exact ih

theorem unitsOf_flat {log : List (Emitted δ)} (h : loopsOf log = []) : unitsOf log = atomicsOf log := by
  induction log with
  | nil => rfl
  | cons e log ih =>
    cases e with
    | atomic scope =>
      have tail : unitsOf log = atomicsOf log := ih h
      exact congrArg (scope :: ·) tail
    | loop l => cases h
    | _ => exact ih h

theorem loops_of_units {log : List (Emitted δ)} (h : unitsOf log = []) : loopsOf log = [] := by
  rw [List.eq_nil_iff_forall_not_mem]
  intro l hl
  have unit : l.scope ∈ unitsOf log := mem_unitsOf.mpr (.inr ⟨l, hl, rfl⟩)
  rw [h] at unit
  cases unit

theorem atomics_of_units {log : List (Emitted δ)} (h : unitsOf log = []) : atomicsOf log = [] :=
  List.eq_nil_of_sublist_nil (h ▸ atomicsOf_sublist log)

/-! ## Bindings between units -/

/-- A source that belongs to a unit of `env`, or to none. -/
def Source.Within (env : Set ScopePath) (s : Source) : Prop := ∀ x, s.address.unit? = some x → x ∈ env

theorem Source.Within.mono {env env' : Set ScopePath} (h : env ⊆ env') {s : Source} (hs : s.Within env) :
    s.Within env' := fun x hx => h (hs x hx)

/-- Every binding stands after the units of its sources and before its own instance. -/
def Sequenced (env : Set ScopePath) (log : List (Emitted δ)) : Prop :=
  ∀ before b after, log = before ++ .binding b :: after →
    (∀ x, b.destination.unit? = some x → x ∈ atomicsOf after) ∧
      ∀ source ∈ b.sources, ∀ y, source.unit? = some y → y ∈ env ∨ y ∈ unitsOf before

theorem Sequenced.append {env : Set ScopePath} {l l' : List (Emitted δ)} (h : Sequenced env l)
    (h' : Sequenced (env ∪ {x | x ∈ unitsOf l}) l') : Sequenced env (l ++ l') := by
  intro before b after split
  rcases List.append_eq_append_iff.mp split with ⟨mid, rfl, tail⟩ | ⟨mid, rfl, tail⟩
  · obtain ⟨announced, sources⟩ := h' mid b after tail
    refine ⟨announced, fun source hs y hy => ?_⟩
    rw [unitsOf_append, List.mem_append, ← or_assoc]
    exact sources source hs y hy
  · cases mid with
    | nil =>
      obtain ⟨announced, sources⟩ := h' [] b after tail.symm
      refine ⟨announced, fun source hs y hy => ?_⟩
      simpa [unitsOf] using sources source hs y hy
    | cons e mid =>
      obtain ⟨rfl, rfl⟩ := List.cons.inj tail
      obtain ⟨announced, sources⟩ := h before b mid rfl
      refine ⟨fun x hx => ?_, sources⟩
      change x ∈ atomicsOf (mid ++ l')
      rw [atomicsOf_append]
      exact List.mem_append_left _ (announced x hx)

theorem Sequenced.of_quiet {env : Set ScopePath} {log : List (Emitted δ)} (h : bindingsOf log = []) :
    Sequenced env log := by
  rintro before b after rfl
  rw [bindingsOf_append, List.append_eq_nil_iff] at h
  cases h.2

theorem Sequenced.prepend {env : Set ScopePath} {before log : List (Emitted δ)} (h : Sequenced env log)
    (units : unitsOf before = []) (bindings : bindingsOf before = []) : Sequenced env (before ++ log) := by
  apply (Sequenced.of_quiet bindings).append
  have same : env ∪ {x | x ∈ unitsOf before} = env := by simp [units]
  rw [same]
  exact h

/-! ## Scopes -/

structure Shaped (s : RegistrySnapshot) (scope : ScopePath) (loopDepth : ℕ) (log : List (Emitted δ)) :
    Prop where
  under : ∀ x ∈ unitsOf log, scope <+: x
  distinct : (unitsOf log).Nodup
  bodies : ∀ l ∈ loopsOf log, l.bodyScope = l.scope.child loopBodySegment
  members : ∀ l ∈ loopsOf log, l.memberOrder = (atomicsOf log).filter (fun x => l.bodyScope <+: x)
  unnested : ∀ l ∈ loopsOf log, ∀ k ∈ loopsOf log, ¬ l.bodyScope <+: k.scope
  flat : loopDepth ≠ 0 → loopsOf log = []
  instances : ((resolutionsOf log).filterMap s.instanceOf).map Instance.scope = atomicsOf log

/-- No scope stands below a unit of the one log and a unit of the other. -/
def Apart (log log' : List (Emitted δ)) : Prop :=
  ∀ x ∈ unitsOf log, ∀ y ∈ unitsOf log', ∀ z, x <+: z → ¬ y <+: z

theorem Apart.symm {log log' : List (Emitted δ)} (h : Apart log log') : Apart log' log :=
  fun x hx y hy z below below' => h y hy x hx z below' below

section

variable {s : RegistrySnapshot} {scope : ScopePath} {loopDepth : ℕ} {log log' : List (Emitted δ)}

theorem Shaped.body_under (h : Shaped s scope loopDepth log) {l : LoopResolution} (hl : l ∈ loopsOf log)
    {x : ScopePath} (below : l.bodyScope <+: x) : l.scope <+: x := by
  rw [h.bodies l hl] at below
  exact (List.prefix_append l.scope [loopBodySegment]).trans below

theorem Shaped.filter_apart (h : Shaped s scope loopDepth log) (apart : Apart log log')
    {l : LoopResolution} (hl : l ∈ loopsOf log) :
    (atomicsOf log').filter (fun x => l.bodyScope <+: x) = [] := by
  rw [List.filter_eq_nil_iff]
  intro y hy below
  have unit : l.scope ∈ unitsOf log := mem_unitsOf.mpr (.inr ⟨l, hl, rfl⟩)
  have unit' : y ∈ unitsOf log' := (atomicsOf_sublist log').subset hy
  exact apart l.scope unit y unit' y (h.body_under hl (of_decide_eq_true below)) (List.prefix_refl y)

theorem Shaped.append (h : Shaped s scope loopDepth log) (h' : Shaped s scope loopDepth log')
    (apart : Apart log log') : Shaped s scope loopDepth (log ++ log') where
  under x hx := by
    rw [unitsOf_append] at hx
    exact (List.mem_append.mp hx).elim (h.under x) (h'.under x)
  distinct := by
    rw [unitsOf_append, List.nodup_append]
    refine ⟨h.distinct, h'.distinct, fun x hx y hy same => ?_⟩
    exact apart x hx y hy y (same ▸ List.prefix_refl x) (List.prefix_refl y)
  bodies l hl := by
    rw [loopsOf_append] at hl
    exact (List.mem_append.mp hl).elim (h.bodies l) (h'.bodies l)
  members l hl := by
    rw [loopsOf_append] at hl
    rw [atomicsOf_append, List.filter_append]
    rcases List.mem_append.mp hl with hl | hl
    · rw [h.filter_apart apart hl, List.append_nil, h.members l hl]
    · rw [h'.filter_apart apart.symm hl, List.nil_append, h'.members l hl]
  unnested l hl k hk below := by
    rw [loopsOf_append] at hl hk
    have unit : ∀ {log : List (Emitted δ)} {l}, l ∈ loopsOf log → l.scope ∈ unitsOf log :=
      fun hl => mem_unitsOf.mpr (.inr ⟨_, hl, rfl⟩)
    rcases List.mem_append.mp hl with hl | hl <;> rcases List.mem_append.mp hk with hk | hk
    · exact h.unnested l hl k hk below
    · exact apart _ (unit hl) _ (unit hk) _ (h.body_under hl below) (List.prefix_refl _)
    · exact apart.symm _ (unit hl) _ (unit hk) _ (h'.body_under hl below) (List.prefix_refl _)
    · exact h'.unnested l hl k hk below
  flat deep := by
    rw [loopsOf_append, h.flat deep, h'.flat deep]
    rfl
  instances := by
    rw [resolutionsOf_append, List.filterMap_append, List.map_append, atomicsOf_append, h.instances,
      h'.instances]

theorem Shaped.mono (h : Shaped s scope loopDepth log) {outer : ScopePath} (inside : outer <+: scope)
    {depth : ℕ} (deep : depth ≠ 0 → loopDepth ≠ 0) : Shaped s outer depth log :=
  { h with
    under := fun x hx => inside.trans (h.under x hx)
    flat := fun hd => h.flat (deep hd) }

theorem Shaped.prepend (h : Shaped s scope loopDepth log) {before : List (Emitted δ)}
    (units : unitsOf before = []) (resolutions : (resolutionsOf before).filterMap s.instanceOf = []) :
    Shaped s scope loopDepth (before ++ log) := by
  have atomics := atomics_of_units units
  have loops := loops_of_units units
  have quiet : Shaped s scope loopDepth before := by
    constructor
    all_goals simp [units, atomics, loops, resolutions]
  apply quiet.append h
  intro x hx
  rw [units] at hx
  cases hx

end

/-! ## Nodes and levels -/

def following (env : Set ScopePath) (log : List (Emitted δ)) : Set ScopePath :=
  env ∪ {x | x ∈ unitsOf log}

theorem following_append (env : Set ScopePath) (log log' : List (Emitted δ)) :
    following env (log ++ log') = following (following env log) log' := by
  ext x
  simp [following, or_assoc]

theorem subset_following (env : Set ScopePath) (log : List (Emitted δ)) : env ⊆ following env log :=
  Set.subset_union_left

structure NodeUnits (w : World δ) (a : Seat) (log : List (Emitted δ)) (out : Sources) : Prop where
  shaped : Shaped w.snapshot a.scope a.loopDepth log
  sequenced : ∀ env : Set ScopePath, (∀ s, a.Sees s → s.Within env) →
    Sequenced env log ∧ ∀ s ∈ allSources out, s.Within (following env log)

structure LevelUnits (w : World δ) (l : Level) (log : List (Emitted δ)) (out : Sources) : Prop where
  shaped : Shaped w.snapshot l.scope l.loopDepth log
  sequenced : ∀ env : Set ScopePath, (∀ s ∈ allSources l.inputSources, s.Within env) →
    Sequenced env log ∧ ∀ s ∈ allSources out, s.Within (following env log)

def BelowOne (scope : ScopePath) (nodes : List GraphNode) (x : ScopePath) : Prop :=
  ∃ n ∈ nodes, scope.child n.id <+: x

theorem apart_of_below {scope : ScopePath} {node : GraphNode} {nodes : List GraphNode}
    (fresh : node.id ∉ nodes.map NodeOf.id) {x y z : ScopePath} (under : scope.child node.id <+: x)
    (below : BelowOne scope nodes y) (hx : x <+: z) : ¬ y <+: z := by
  intro hy
  obtain ⟨n, hn, hny⟩ := below
  have same : node.id = n.id := child_inj_of_prefix (under.trans hx) (hny.trans hy)
  exact fresh (List.mem_map.mpr ⟨n, hn, same.symm⟩)

theorem shaped_of_nodesRun {w : World δ} {g : Graph} {l : Level} {upstream : Dict String (List String)}
    {nodes : List GraphNode} {lookup last : NodeLookup} {log : List (Emitted δ)}
    (h : NodesRun (NodeUnits w) g l upstream nodes lookup log last)
    (ids : (nodes.map NodeOf.id).Nodup) :
    Shaped w.snapshot l.scope l.loopDepth log ∧ ∀ x ∈ unitsOf log, BelowOne l.scope nodes x := by
  induction h with
  | nil lookup =>
    have none : ∀ x ∈ unitsOf ([] : List (Emitted δ)), BelowOne l.scope [] x := fun x hx => absurd hx List.not_mem_nil
    refine ⟨?_, none⟩
    constructor
    all_goals simp [unitsOf, atomicsOf, loopsOf, resolutionsOf]
  | @cons node nodes lookup last log rest out head tail ih =>
    obtain ⟨fresh, ids⟩ := List.nodup_cons.mp ids
    obtain ⟨shaped, below⟩ := ih ids
    have under : ∀ x ∈ unitsOf log, l.scope.child node.id <+: x := head.shaped.under
    have apart : Apart log rest :=
      fun x hx y hy z below' => apart_of_below fresh (under x hx) (below y hy) below'
    have inside : l.scope <+: l.scope.child node.id := List.prefix_append _ _
    have first : Shaped w.snapshot l.scope l.loopDepth log := head.shaped.mono inside id
    refine ⟨first.append shaped apart, fun x hx => ?_⟩
    rw [unitsOf_append] at hx
    rcases List.mem_append.mp hx with hx | hx
    · exact ⟨node, List.mem_cons_self, under x hx⟩
    · obtain ⟨n, hn, hx⟩ := below x hx
      exact ⟨n, List.mem_cons_of_mem _ hn, hx⟩

theorem sequenced_of_nodesRun {w : World δ} {g : Graph} {l : Level}
    {upstream : Dict String (List String)} {nodes : List GraphNode} {lookup last : NodeLookup}
    {log : List (Emitted δ)} (h : NodesRun (NodeUnits w) g l upstream nodes lookup log last)
    {env : Set ScopePath} (inputs : ∀ s ∈ allSources l.inputSources, s.Within env)
    (outputs : ∀ o ∈ lookup.values, ∀ s ∈ allSources o, s.Within env) :
    Sequenced env log ∧ ∀ o ∈ last.values, ∀ s ∈ allSources o, s.Within (following env log) := by
  induction h generalizing env with
  | nil lookup =>
    refine ⟨Sequenced.of_quiet rfl, fun o ho s hs => ?_⟩
    exact (outputs o ho s hs).mono (subset_following env [])
  | @cons node nodes lookup last log rest out head tail ih =>
    have sees := sees_of_level inputs outputs g upstream node
    obtain ⟨first, offered⟩ := head.sequenced env sees
    have grown := subset_following env log
    have held : ∀ o ∈ lookup.values, ∀ s ∈ allSources o, s.Within (following env log) :=
      fun o ho s hs => (outputs o ho s hs).mono grown
    obtain ⟨more, offers⟩ := ih (fun s hs => (inputs s hs).mono grown)
      (forall_values_insert held offered)
    rw [following_append]
    exact ⟨first.append more, offers⟩

theorem levelUnits_of_run {w : World δ} {g : Graph} {l : Level} {log : List (Emitted δ)}
    {out : Sources} (h : LevelRun (NodeUnits w) g l log out) : LevelUnits w l log out := by
  obtain ⟨-, -, -, -, order, nodes, bound⟩ := h
  obtain ⟨shaped, -⟩ := shaped_of_nodesRun nodes (orderedNodes_nodup order)
  refine ⟨shaped, fun env inputs => ?_⟩
  obtain ⟨sequenced, outputs⟩ := sequenced_of_nodesRun nodes inputs
    (fun o ho => absurd ho (by simp [Dict.values, Dict.empty]))
  refine ⟨sequenced, ?_⟩
  have addresses := bindOutputs_addresses
    (Q := fun address => ∀ x, address.unit? = some x → x ∈ following env log)
    (fun s hs => ?_) (fun s hs => ?_) bound (by simp [allSources, Dict.values, Dict.empty])
  · exact addresses.2
  · obtain ⟨o, ho, hs⟩ := List.mem_flatMap.mp hs
    exact outputs o ho s hs
  · exact (inputs s hs).mono (subset_following env log)

/-! ## The four kinds of nodes -/

theorem sequenced_of_bindings {env : Set ScopePath} {bindings : List ResolvedPortBinding}
    {rest : List (Emitted δ)} (quiet : bindingsOf rest = [])
    (announced : ∀ b ∈ bindings, ∀ x, b.destination.unit? = some x → x ∈ atomicsOf rest)
    (fed : ∀ b ∈ bindings, ∀ source ∈ b.sources, ∀ y, source.unit? = some y → y ∈ env) :
    Sequenced env (bindings.map .binding ++ rest) := by
  have absent : ∀ {mid : List (Emitted δ)} {b after}, rest ≠ mid ++ .binding b :: after := by
    rintro mid b after rfl
    rw [bindingsOf_append, List.append_eq_nil_iff] at quiet
    cases quiet.2
  intro before b after split
  rcases List.append_eq_append_iff.mp split with ⟨mid, rfl, tail⟩ | ⟨mid, front, tail⟩
  · exact absurd tail absent
  · cases mid with
    | nil =>
      have whole : rest = [] ++ .binding b :: after := tail.symm
      exact absurd whole absent
    | cons e mid =>
      obtain ⟨rfl, rfl⟩ := List.cons.inj tail
      have mem : .binding b ∈ bindings.map (Emitted.binding : _ → Emitted δ) := by
        rw [front]
        exact List.mem_append_right _ List.mem_cons_self
      obtain ⟨b', hb, same⟩ := List.mem_map.mp mem
      obtain rfl := Emitted.binding.inj same
      refine ⟨fun x hx => ?_, fun source hs y hy => .inl (fed b' hb source hs y hy)⟩
      change x ∈ atomicsOf (mid ++ rest)
      rw [atomicsOf_append]
      exact List.mem_append_right _ (announced b' hb x hx)

theorem mem_retag {inputs : List Port} {bound : Sources} {s : Source}
    (h : s ∈ allSources (retag inputs bound)) : ∃ t ∈ allSources bound, s.address = t.address := by
  obtain ⟨name, ss, he, hm⟩ := mem_allSources.mp h
  obtain ⟨⟨name', sources⟩, he', hq⟩ := List.mem_map.mp he
  obtain ⟨rfl, rfl⟩ := Prod.mk.inj hq
  obtain ⟨t, ht, rfl⟩ := List.mem_map.mp hm
  exact ⟨t, mem_allSources.mpr ⟨name', sources, he', ht⟩, rfl⟩

theorem RefRun.quiet {w : World δ} {a : Seat} {ref : Ref} {stored : StoredVersion}
    {grants : EffectiveGrants} {bound : Sources} {log : List (Emitted δ)}
    (h : RefRun w a ref stored grants bound log) : unitsOf log = [] ∧ bindingsOf log = [] := by
  obtain ⟨-, r, rfl, -⟩ := h.entries
  have units : unitsOf (pinEntries w a.scope) = [] := filterMap_pinEntries (fun _ => rfl) w a.scope
  have bindings : bindingsOf (pinEntries w a.scope) = [] :=
    filterMap_pinEntries (fun _ => rfl) w a.scope
  rw [unitsOf_append, bindingsOf_append, units, bindings]
  exact ⟨rfl, rfl⟩

theorem RefRun.resolution {w : World δ} {a : Seat} {ref : Ref} {stored : StoredVersion}
    {grants : EffectiveGrants} {bound : Sources} {log : List (Emitted δ)}
    (h : RefRun w a ref stored grants bound log) :
    ∃ r : ComponentResolution δ, resolutionsOf log = [r] ∧ r.scope = a.scope ∧
      r.component = stored.definition.name ∧ r.resolvedVersion = stored.contentHash := by
  obtain ⟨-, r, rfl, facts⟩ := h.entries
  have pins : resolutionsOf (pinEntries w a.scope) = [] := filterMap_pinEntries (fun _ => rfl) w a.scope
  refine ⟨r, ?_, facts⟩
  rw [resolutionsOf_append, pins]
  rfl

theorem instanceOf_atomic {s : RegistrySnapshot} {r : ComponentResolution δ} {stored : StoredVersion}
    {p : PythonRef} (filed : s.get stored.definition.name stored.contentHash = some stored)
    (body : stored.definition.body = .python p) (name : r.component = stored.definition.name)
    (version : r.resolvedVersion = stored.contentHash) :
    s.instanceOf r = some ⟨r.scope, r.component, r.resolvedVersion, stored.definition⟩ := by
  simp [RegistrySnapshot.instanceOf, name, version, filed, body]

theorem instanceOf_composite {s : RegistrySnapshot} {r : ComponentResolution δ} {stored : StoredVersion}
    {g : Graph} (filed : s.get stored.definition.name stored.contentHash = some stored)
    (body : stored.definition.body = .graph g) (name : r.component = stored.definition.name)
    (version : r.resolvedVersion = stored.contentHash) : s.instanceOf r = none := by
  simp [RegistrySnapshot.instanceOf, name, version, filed, body]

theorem Shaped.single {s : RegistrySnapshot} {scope : ScopePath} {loopDepth : ℕ} {log : List (Emitted δ)}
    (loops : loopsOf log = []) (atomics : atomicsOf log = [scope])
    (instances : ((resolutionsOf log).filterMap s.instanceOf).map Instance.scope = [scope]) :
    Shaped s scope loopDepth log := by
  have units : unitsOf log = [scope] := (unitsOf_flat loops).trans atomics
  constructor
  · intro x hx
    rw [units, List.mem_singleton] at hx
    exact hx ▸ List.prefix_refl x
  · rw [units]
    exact List.nodup_singleton scope
  · simp [loops]
  · simp [loops]
  · simp [loops]
  · exact fun _ => loops
  · rw [instances, atomics]

theorem atomicUnits {w : World δ} {a : Seat} {ref : Ref} {stored : StoredVersion}
    {grants : EffectiveGrants} {bound out : Sources} {before log : List (Emitted δ)} {p : PythonRef}
    (run : RefRun w a ref stored grants bound before) (body : stored.definition.body = .python p)
    (h : Clean (registerAtomic w a stored.definition bound ref grants) log out) :
    NodeUnits w a (before ++ log) out := by
  have filed := get_of_selectVersion run.entries.1
  obtain ⟨r, resolved, scope, name, version⟩ := run.resolution
  obtain ⟨units, bindings⟩ := run.quiet
  obtain ⟨resolutions, -, loops, atomics, rfl⟩ := registerAtomic_clean h
  constructor
  · apply Shaped.single
    · rw [loopsOf_append, loops_of_units units, loops]
      rfl
    · rw [atomicsOf_append, atomics_of_units units, atomics]
      rfl
    · have here := instanceOf_atomic filed body name version
      rw [resolutionsOf_append, resolved, resolutions, List.append_nil,
        List.filterMap_cons_some here, ← scope]
      rfl
  · intro env sees
    obtain ⟨-, seen⟩ := bindNodeInputs_sees run.bound
    obtain ⟨-, capabilities, all, rfl⟩ := registerAtomic_entries h
    have here : a.scope ∈ atomicsOf (capabilities ++ [.atomic a.scope]) := by
      rw [atomicsOf_append]
      exact List.mem_append_right _ (List.mem_singleton_self _)
    constructor
    · apply Sequenced.prepend _ units bindings
      apply sequenced_of_bindings
      · have none : bindingsOf capabilities = [] := by
          rw [bindingsOf, List.filterMap_eq_nil_iff]
          intro e he
          obtain ⟨c, rfl, -⟩ := all e he
          rfl
        rw [bindingsOf_append, none]
        rfl
      · intro b hb x hx
        obtain ⟨entry, -, rfl⟩ := List.mem_map.mp hb
        obtain rfl := Option.some.inj hx
        exact here
      · intro b hb source hs y hy
        obtain ⟨⟨port, sources⟩, he, rfl⟩ := List.mem_map.mp hb
        obtain ⟨t, ht, rfl⟩ := List.mem_map.mp hs
        exact sees t (seen t (mem_allSources.mpr ⟨port, sources, he, ht⟩)) y hy
    · intro s hs x hx
      obtain ⟨name, ss, he, hs⟩ := mem_allSources.mp hs
      obtain ⟨q, -, same⟩ := List.mem_map.mp (Dict.mem_ofList he)
      obtain ⟨rfl, rfl⟩ := Prod.mk.inj same
      obtain rfl := List.mem_singleton.mp hs
      obtain rfl := Option.some.inj hx
      refine .inr ?_
      change a.scope ∈ unitsOf _
      rw [unitsOf_append, unitsOf_append]
      exact List.mem_append_right _ (List.mem_append_right _ ((atomicsOf_sublist _).subset here))

theorem compositeUnits {w : World δ} {a : Seat} {ref : Ref} {stored : StoredVersion}
    {grants : EffectiveGrants} {bound out : Sources} {before log : List (Emitted δ)} {g : Graph}
    (run : RefRun w a ref stored grants bound before) (body : stored.definition.body = .graph g)
    (level : LevelUnits w (levelOfComposite a stored bound grants) log out) :
    NodeUnits w a (before ++ log) out := by
  obtain ⟨r, resolved, -, name, version⟩ := run.resolution
  obtain ⟨units, bindings⟩ := run.quiet
  have silent := instanceOf_composite (get_of_selectVersion run.entries.1) body name version
  constructor
  · apply level.shaped.prepend units
    rw [resolved, List.filterMap_cons_none silent]
    rfl
  · intro env sees
    obtain ⟨-, seen⟩ := bindNodeInputs_sees run.bound
    obtain ⟨sequenced, offered⟩ := level.sequenced env fun s hs => by
      obtain ⟨t, ht, same⟩ := mem_retag hs
      intro x hx
      exact sees t (seen t ht) x (same ▸ hx)
    refine ⟨sequenced.prepend units bindings, fun s hs => ?_⟩
    rw [following_append]
    exact (offered s hs).mono (Set.union_subset_union_left _ (subset_following env before))

theorem inlineUnits {w : World δ} {a : Seat} {g : Graph} {bound out : Sources} {log : List (Emitted δ)}
    (inputs : Clean (bindNodeInputs a g.inputs : Compile δ Sources) [] bound)
    (level : LevelUnits w (levelOfInline a bound) log out) : NodeUnits w a log out := by
  obtain ⟨-, seen⟩ := bindNodeInputs_sees inputs
  exact ⟨level.shaped, fun env sees => level.sequenced env fun s hs => sees s (seen s hs)⟩

theorem boundary_within {a : Seat} {inputs : List Port} {bound : Sources} {env : Set ScopePath} :
    ∀ s ∈ allSources (loopBoundarySources a inputs bound), s.Within env := by
  intro s hs
  obtain ⟨name, ss, he, hs⟩ := mem_allSources.mp hs
  obtain ⟨⟨b, entry⟩, hm, rfl⟩ := List.mem_map.mp (Dict.mem_ofList he)
  obtain ⟨p, -, found⟩ := List.mem_filterMap.mp hm
  obtain ⟨selected, -, same⟩ := Option.map_eq_some_iff.mp found
  cases same
  obtain rfl := List.mem_singleton.mp hs
  intro x hx
  cases hx

theorem bodyUnits {w : World δ} {a : Seat} {loop : Loop} {inputs : List Port} {bound body : Sources}
    {log : List (Emitted δ)}
    (h : BodyRun (NodeUnits w) a loop (loopBoundarySources a inputs bound) log body) :
    Shaped w.snapshot (a.scope.child loopBodySegment) 1 log ∧ ∀ env, Sequenced env log := by
  unfold BodyRun at h
  cases hb : loop.body with
  | inl ref =>
    rw [hb] at h
    refine ⟨h.shaped.mono (List.prefix_append _ _) id, fun env => (h.sequenced env ?_).1⟩
    rintro s (hs | hs | ⟨outputs, ho, -⟩)
    · exact boundary_within s hs
    · exact boundary_within s hs
    · cases ho
  | inr g =>
    rw [hb] at h
    have level := levelUnits_of_run h
    exact ⟨level.shaped, fun env => (level.sequenced env boundary_within).1⟩

theorem not_child_prefix (scope : ScopePath) (name : String) : ¬ scope.child name <+: scope := by
  intro below
  have length := below.length_le
  simp [ScopePath.child] at length

theorem Shaped.loop {s : RegistrySnapshot} {scope : ScopePath} {log : List (Emitted δ)}
    (h : Shaped s (scope.child loopBodySegment) 1 log) {l : LoopResolution} (at_scope : l.scope = scope)
    (body : l.bodyScope = scope.child loopBodySegment) (members : l.memberOrder = atomicsOf log) :
    Shaped s scope 0 (log ++ [.loop l]) := by
  have flat : loopsOf log = [] := h.flat one_ne_zero
  have units : unitsOf (log ++ [.loop l]) = atomicsOf log ++ [scope] := by
    rw [unitsOf_append, unitsOf_flat flat, ← at_scope]
    rfl
  have loops : loopsOf (log ++ [.loop l]) = [l] := by
    rw [loopsOf_append, flat]
    rfl
  have atomics : atomicsOf (log ++ [.loop l]) = atomicsOf log := by
    rw [atomicsOf_append]
    exact List.append_nil _
  have inside : ∀ x ∈ atomicsOf log, scope.child loopBodySegment <+: x :=
    fun x hx => h.under x ((atomicsOf_sublist log).subset hx)
  constructor
  · intro x hx
    rw [units] at hx
    rcases List.mem_append.mp hx with hx | hx
    · exact (List.prefix_append scope [loopBodySegment]).trans (inside x hx)
    · exact List.mem_singleton.mp hx ▸ List.prefix_refl scope
  · rw [units, List.nodup_append]
    refine ⟨(atomicsOf_sublist log).nodup h.distinct, List.nodup_singleton scope, ?_⟩
    intro x hx y hy same
    obtain rfl := List.mem_singleton.mp hy
    exact not_child_prefix y loopBodySegment (same ▸ inside x hx)
  · intro k hk
    rw [loops, List.mem_singleton] at hk
    rw [hk, body, at_scope]
  · intro k hk
    rw [loops, List.mem_singleton] at hk
    rw [hk, members, body, atomics, eq_comm, List.filter_eq_self]
    exact fun x hx => decide_eq_true (inside x hx)
  · intro k hk k' hk'
    rw [loops, List.mem_singleton] at hk hk'
    rw [hk, hk', body, at_scope]
    exact not_child_prefix scope loopBodySegment
  · exact fun deep => absurd rfl deep
  · rw [atomics, resolutionsOf_append, ← h.instances]
    change ((resolutionsOf log ++ []).filterMap s.instanceOf).map Instance.scope = _
    rw [List.append_nil]

theorem loopUnits {w : World δ} {a : Seat} {loop : Loop} {inputs outputs : List Port}
    {bound body : Sources} {before log : List (Emitted δ)} {feedback : List ResolvedPortBinding}
    {continuation : PortAddress} (top : a.loopDepth = 0)
    (boundary : Clean (loopBoundary w loop (a.scope.child loopBodySegment)) before (some (inputs, outputs)))
    (run : LoopRun (NodeUnits w) w a loop inputs outputs bound log body feedback continuation) :
    NodeUnits w a (before ++ (log ++ [.loop (loopResolution a loop inputs outputs bound body (atomicsOf log)
      feedback continuation)])) (exportedSources (loopExports a.levelScope a.node.id outputs body
        loop.continueFrom)) := by
  obtain ⟨shaped, sequenced⟩ := bodyUnits run.ran
  have quiet : ∀ {β : Type} {f : Emitted δ → Option β}, (∀ s, f (.pin s) = none) →
      before.filterMap f = [] := by
    intro β f skips
    rcases loopBoundary_entries boundary with rfl | rfl
    · rfl
    · exact filterMap_pinEntries skips w _
  have units : unitsOf before = [] := quiet fun _ => rfl
  have bindings : bindingsOf before = [] := quiet fun _ => rfl
  have resolutions : resolutionsOf before = [] := quiet fun _ => rfl
  constructor
  · rw [top]
    apply (shaped.loop rfl rfl rfl).prepend units
    rw [resolutions]
    rfl
  · intro env _
    constructor
    · apply Sequenced.prepend _ units bindings
      exact (sequenced env).append (Sequenced.of_quiet rfl)
    · intro s hs x hx
      obtain ⟨name, ss, he, hs⟩ := mem_allSources.mp hs
      obtain ⟨e, hm, same⟩ := List.mem_map.mp (Dict.mem_ofList he)
      cases same
      obtain rfl := List.mem_singleton.mp hs
      obtain ⟨port, -, sources, -, rfl⟩ := mem_loopExports hm
      obtain rfl := Option.some.inj hx
      refine .inr ?_
      change a.scope ∈ unitsOf _
      rw [unitsOf_append, unitsOf_append]
      exact List.mem_append_right _ (List.mem_append_right _ (List.mem_singleton_self _))

theorem units_rules (w : World δ) : CompileRules w (NodeUnits w) (NodeUnits w) where
  atomic run body h := atomicUnits run body h
  composite run body _ level := compositeUnits run body (levelUnits_of_run level)
  inline _ inputs level := inlineUnits inputs (levelUnits_of_run level)
  loop _ top boundary run := loopUnits top boundary run

/-! ## Admitted manifests -/

def FedBy (m : ExecutionManifest δ) (x y : ScopePath) : Prop :=
  ∃ b ∈ m.resolvedConnections, b.destination.unit? = some x ∧
    ∃ source ∈ b.sources, source.unit? = some y

/-- The instances of a manifest and the programs of its loops. -/
structure ProgramsWellFormed (s : RegistrySnapshot) (m : ExecutionManifest δ) : Prop where
  distinct : ((s.instances m).map Instance.scope).Nodup
  members : ∀ l ∈ m.resolvedLoops, l.memberOrder.Nodup ∧
    ∀ x, x ∈ l.memberOrder ↔ l.bodyScope <+: x ∧ ∃ i ∈ s.instances m, i.scope = x
  ordered : ∀ l ∈ m.resolvedLoops, ∀ before x after, l.memberOrder = before ++ x :: after →
    ∀ y ∈ l.memberOrder, Relation.TransGen (FedBy m) x y → y ∈ before
  disjoint : m.resolvedLoops.Pairwise (fun l k => ∀ x ∈ l.memberOrder, x ∉ k.memberOrder)
  unnested : ∀ l ∈ m.resolvedLoops, ∀ k ∈ m.resolvedLoops, ¬ l.bodyScope <+: k.scope

theorem Shaped.members_disjoint {s : RegistrySnapshot} {scope : ScopePath} {loopDepth : ℕ}
    {log : List (Emitted δ)} (h : Shaped s scope loopDepth log) {l k : LoopResolution}
    (hl : l ∈ loopsOf log) (hk : k ∈ loopsOf log) (apart : l.scope ≠ k.scope) :
    ∀ x ∈ l.memberOrder, x ∉ k.memberOrder := by
  intro x hxl hxk
  rw [h.members l hl] at hxl
  rw [h.members k hk] at hxk
  have belowL : l.bodyScope <+: x := of_decide_eq_true (List.mem_filter.mp hxl).2
  have belowK : k.bodyScope <+: x := of_decide_eq_true (List.mem_filter.mp hxk).2
  -- the shorter of the two bodies is a proper ancestor of the other, so it holds the other loop
  have nested : ∀ {l k : LoopResolution}, l ∈ loopsOf log → k ∈ loopsOf log → l.scope ≠ k.scope →
      l.bodyScope <+: k.bodyScope → False := by
    intro l k hl hk apart below
    rw [h.bodies k hk, ScopePath.child, List.prefix_concat_iff] at below
    rcases below with same | below
    · rw [h.bodies l hl, ScopePath.child] at same
      exact apart (List.append_inj_left' same rfl)
    · exact h.unnested l hl k hk below
  rcases List.prefix_or_prefix_of_prefix belowL belowK with below | below
  · exact nested hl hk apart below
  · exact nested hk hl apart.symm below

theorem idxOf_lt_of_split {xs before after : List ScopePath} {x y : ScopePath} (nodup : xs.Nodup)
    (split : xs = before ++ after) (hy : y ∈ before) (hx : x ∈ after) : xs.idxOf y < xs.idxOf x := by
  subst split
  have absent : x ∉ before := fun mem => (List.nodup_append.mp nodup).2.2 x mem x hx rfl
  rw [List.idxOf_append_of_mem hy, List.idxOf_append_of_notMem absent]
  have early := List.idxOf_lt_length_of_mem hy
  omega

theorem idxOf_lt_of_fed {log : List (Emitted δ)} {m : ExecutionManifest δ}
    (sequenced : Sequenced ∅ log) (nodup : (unitsOf log).Nodup)
    (connections : ∀ b ∈ m.resolvedConnections, b.destination.unit? ≠ none → .binding b ∈ log)
    {x y : ScopePath} (fed : Relation.TransGen (FedBy m) x y) :
    (unitsOf log).idxOf y < (unitsOf log).idxOf x := by
  have step : ∀ {x y}, FedBy m x y → (unitsOf log).idxOf y < (unitsOf log).idxOf x := by
    rintro x y ⟨b, hb, here, source, hs, there⟩
    obtain ⟨before, after, split⟩ := List.append_of_mem (connections b hb (by simp [here]))
    obtain ⟨announced, sources⟩ := sequenced before b after split
    have units : unitsOf log = unitsOf before ++ unitsOf after := by
      rw [split, unitsOf_append]
      rfl
    have early : y ∈ unitsOf before := (sources source hs y there).resolve_left id
    exact idxOf_lt_of_split nodup units early ((atomicsOf_sublist after).subset (announced x here))
  induction fed with
  | single fed => exact step fed
  | tail _ fed ih => exact (step fed).trans ih

theorem pairwise_idxOf {xs : List ScopePath} (nodup : xs.Nodup) :
    xs.Pairwise (fun x y => xs.idxOf x < xs.idxOf y) := by
  rw [List.pairwise_iff_getElem]
  intro i j hi hj lt
  rw [nodup.idxOf_getElem i hi, nodup.idxOf_getElem j hj]
  exact lt

/-- Instances and loop programs of an admitted manifest are well formed. -/
theorem admit_programs {adm : Admission δ} {depth : ℕ} {g : Graph} {m : ExecutionManifest δ}
    (h : admitGraph adm depth g = .ok m) : ProgramsWellFormed adm.snapshot m := by
  obtain ⟨log, outputs, level, -, -, rfl⟩ := admit_level (fun _ => units_rules (adm.world g)) h
  obtain ⟨shaped, sequences⟩ := levelUnits_of_run level
  obtain ⟨sequenced, -⟩ := sequences ∅ fun s hs x hx => by
    obtain ⟨name, ss, he, hs⟩ := mem_allSources.mp hs
    obtain ⟨p, -, same⟩ := List.mem_map.mp (Dict.mem_ofList he)
    cases same
    obtain rfl := List.mem_singleton.mp hs
    cases hx
  obtain ⟨resolutions, bindings, loops, -⟩ := bindings_projections (δ := δ) (outputBindings g outputs)
  have instances : (adm.snapshot.instances (sealManifest adm g
      (log ++ (outputBindings g outputs).map .binding))).map Instance.scope = atomicsOf log := by
    rw [RegistrySnapshot.instances, sealManifest_resolvedComponents, resolutionsOf_append, resolutions,
      List.append_nil]
    exact shaped.instances
  have programs : (sealManifest adm g (log ++ (outputBindings g outputs).map .binding)).resolvedLoops =
      loopsOf log := by
    rw [sealManifest_resolvedLoops, loopsOf_append, loops, List.append_nil]
  have nodup := shaped.distinct
  have atomic : (atomicsOf log).Nodup := (atomicsOf_sublist log).nodup nodup
  constructor
  · exact instances.symm ▸ atomic
  · intro l hl
    rw [programs] at hl
    rw [shaped.members l hl]
    refine ⟨atomic.filter _, fun x => ?_⟩
    rw [List.mem_filter, ← instances, List.mem_map, decide_eq_true_iff, and_comm]
  · intro l hl before x after split y hy fed
    rw [programs] at hl
    have connections : ∀ b ∈ (sealManifest adm g
        (log ++ (outputBindings g outputs).map .binding)).resolvedConnections,
        b.destination.unit? ≠ none → .binding b ∈ log := by
      intro b hb placed
      rw [sealManifest_resolvedConnections, bindingsOf_append, bindings] at hb
      rcases List.mem_append.mp hb with hb | hb
      · obtain ⟨e, he, found⟩ := List.mem_filterMap.mp hb
        cases e with
        | binding c =>
          obtain rfl := Option.some.inj found
          exact he
        | _ => cases found
      · rw [outputBindings_eq] at hb
        obtain ⟨entry, -, rfl⟩ := List.mem_map.mp hb
        exact absurd rfl placed
    have earlier := idxOf_lt_of_fed sequenced nodup connections fed
    have sublist : l.memberOrder.Sublist (unitsOf log) := by
      rw [shaped.members l hl]
      exact List.filter_sublist.trans (atomicsOf_sublist log)
    have increasing := (pairwise_idxOf nodup).sublist sublist
    rw [split] at increasing hy
    rcases List.mem_append.mp hy with hy | hy
    · exact hy
    · rcases List.mem_cons.mp hy with rfl | hy
      · omega
      · have later := (List.pairwise_cons.mp (List.pairwise_append.mp increasing).2.1).1 y hy
        omega
  · rw [programs]
    have scopes : ((loopsOf log).map LoopResolution.scope).Nodup := (loopScopes_sublist log).nodup nodup
    exact (List.pairwise_map.mp scopes).imp_of_mem fun hl hk apart => shaped.members_disjoint hl hk apart
  · intro l hl k hk
    rw [programs] at hl hk
    exact shaped.unnested l hl k hk

theorem admit_programs_counter :
    ∃ m, admitGraph (Sample.admission ⟨[("x", .int 0)]⟩) 2 Sample.counter = .ok m ∧
      m.resolvedLoops.map LoopResolution.memberOrder = [[["g", "l", loopBodySegment, "$body"]]] ∧
        ProgramsWellFormed Sample.snapshot m := by
  obtain ⟨m, hm, members⟩ : ∃ m,
      admitGraph (Sample.admission ⟨[("x", .int 0)]⟩) 2 Sample.counter = .ok m ∧
        m.resolvedLoops.map LoopResolution.memberOrder = [[["g", "l", loopBodySegment, "$body"]]] :=
    ⟨_, rfl, rfl⟩
  exact ⟨m, hm, members, admit_programs hm⟩

end Constructicon
