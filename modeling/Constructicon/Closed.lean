import Constructicon.CleanBinding

/-!
# A clean compilation is a typed program

The invariant of the compiler's recursive environment. Compiling a node over
sound sources cleanly yields a program below the node's own scope, typed in the
environment it was compiled in, and returns outputs that are sound once the
program's own offers are added. Each clause is proved for one turn of the
recursion and then for every depth.
-/

namespace Constructicon

variable {δ : Type}

/-- The log of a clean compilation below `scope` is the flattening of `units`. -/
structure Compiled (w : World δ) (env : Set Offer) (scope : ScopePath) (loopDepth : ℕ)
    (log : List (Emitted δ)) (units : List CompiledUnit) : Prop where
  tracks : Tracks w.snapshot log units
  typed : Threaded (CompiledUnit.Typed w.hashing) CompiledUnit.offers env units
  within : ∀ u ∈ units, ∀ s ∈ u.scopes, scope <+: s
  distinct : (units.flatMap CompiledUnit.scopes).Nodup
  flat : loopDepth ≠ 0 → ∀ u ∈ units, u.loop? = none

abbrev after (env : Set Offer) (units : List CompiledUnit) : Set Offer :=
  env ∪ Threaded.offered CompiledUnit.offers units

theorem Compiled.nil (w : World δ) (env : Set Offer) (scope : ScopePath) (loopDepth : ℕ) :
    Compiled w env scope loopDepth [] [] :=
  ⟨Silent.nil.tracks, threaded_nil, by simp, by simp, by simp⟩

theorem Compiled.prepend {w : World δ} {env : Set Offer} {scope : ScopePath} {loopDepth : ℕ}
    {silent log : List (Emitted δ)} {units : List CompiledUnit}
    (h : Compiled w env scope loopDepth log units) (hs : Tracks w.snapshot silent []) :
    Compiled w env scope loopDepth (silent ++ log) units :=
  { h with tracks := by simpa using hs.append h.tracks }

/-! ## Parts that log nothing about the program -/

theorem resolveRef_clean {w : World δ} {ref : Ref} {scope : ScopePath} {l : List (Emitted δ)}
    {r : Option StoredVersion} (h : Clean (resolveRef w ref scope) l r) :
    Silent l ∧
      ∃ stored, r = some stored ∧ selectVersion w.snapshot ref scope w.resolutionLock = some stored := by
  rw [resolveRef] at h
  cases hlock : w.resolutionLock with
  | some lock =>
    simp only [hlock] at h
    cases hpin : lock.get? scope with
    | none =>
      simp only [hpin] at h
      exact absurd h clean_fault_bind
    | some pin =>
      simp only [hpin] at h
      obtain ⟨l₁, _, l₂, ht, htail, rfl⟩ := clean_bind.mp h
      obtain ⟨rfl, -⟩ := clean_tell.mp ht
      split_ifs at htail with hc
      · exact absurd htail clean_fault_bind
      · cases hsel : selectVersion w.snapshot ref scope (some lock) with
        | none =>
          simp only [hsel] at htail
          exact absurd htail clean_fault_bind
        | some stored =>
          simp only [hsel] at htail
          obtain ⟨rfl, rfl⟩ := clean_pure.mp htail
          exact ⟨⟨rfl, rfl, rfl, rfl⟩, stored, rfl, rfl⟩
  | none =>
    simp only [hlock] at h
    split_ifs at h with hc
    · exact absurd h clean_fault_bind
    · cases hsel : selectVersion w.snapshot ref scope none with
      | none =>
        simp only [hsel] at h
        split at h
        · split at h
          · exact absurd h clean_fault_bind
          · exact absurd h clean_fault_bind
        · exact absurd h clean_fault_bind
      | some stored =>
        simp only [hsel] at h
        split at h
        · split at h
          · exact absurd h clean_fault_bind
          · obtain ⟨rfl, rfl⟩ := clean_pure.mp h
            exact ⟨Silent.nil, stored, rfl, rfl⟩
        · obtain ⟨rfl, rfl⟩ := clean_pure.mp h
          exact ⟨Silent.nil, stored, rfl, rfl⟩

theorem get_of_selectVersion {s : RegistrySnapshot} {ref : Ref} {scope : ScopePath}
    {lock : Option ResolutionLock} {stored : StoredVersion}
    (h : selectVersion s ref scope lock = some stored) :
    s.get stored.definition.name stored.contentHash = some stored := by
  have hrow : ∃ name version, s.get name version = some stored := by
    unfold selectVersion at h
    split at h
    · split at h
      · cases h
      · split_ifs at h
        exact ⟨_, _, h⟩
    · split at h
      · exact ⟨_, _, h⟩
      · split at h
        · exact ⟨_, _, h⟩
        · cases h
  obtain ⟨name, version, hg⟩ := hrow
  obtain ⟨rfl, rfl⟩ := RegistrySnapshot.get_filed hg
  exact hg

theorem compileGrants_clean {parent : EffectiveGrants} {request : Option GrantRequest}
    {scope : ScopePath} {l : List (Emitted δ)} {grants : EffectiveGrants}
    (h : Clean (compileGrants parent request scope) l grants) : l = [] := by
  cases request with
  | none => exact (clean_pure.mp h).1
  | some request =>
    obtain ⟨l₁, _, l₂, hf, htail, rfl⟩ := clean_bind.mp h
    obtain ⟨hnil, rfl⟩ := clean_emitFaults.mp hf
    rw [if_pos hnil] at htail
    exact (clean_pure.mp htail).1

theorem compiledChannel_clean {w : World δ} {d : ComponentDef} {scope : ScopePath}
    {aliasName : String} {descriptor : CapabilityDescriptor} {l : List (Emitted δ)}
    {r : Option ChannelBinding} (h : Clean (compiledChannel w d scope aliasName descriptor) l r) :
    l = [] := by
  rw [compiledChannel] at h
  split at h
  · exact absurd h clean_fault_bind
  · split_ifs at h
    · exact (clean_pure.mp h).1
    · split at h
      · exact absurd h clean_fault_bind
      · split at h
        · split_ifs at h
          · exact absurd h clean_fault_bind
          · exact (clean_pure.mp h).1
        · exact absurd h clean_fault_bind

theorem bindCapabilities_clean {w : World δ} {d : ComponentDef} {scope : ScopePath}
    {grants : EffectiveGrants} : ∀ {entries : List (String × String)} {l : List (Emitted δ)}
    {u : Unit}, Clean (bindCapabilities w d scope grants entries) l u → Silent l := by
  intro entries
  induction entries with
  | nil =>
    intro l u h
    obtain ⟨rfl, -⟩ := clean_pure.mp h
    exact Silent.nil
  | cons entry entries ih =>
    obtain ⟨aliasName, capabilityId⟩ := entry
    intro l u h
    rw [bindCapabilities] at h
    split at h
    · exact absurd h clean_fault_bind
    · obtain ⟨l₁, _, l₂, hf, hrest, rfl⟩ := clean_bind.mp h
      obtain ⟨-, rfl⟩ := clean_emitFaults.mp hf
      obtain ⟨l₃, channel, l₄, hc, htell, rfl⟩ := clean_bind.mp hrest
      obtain rfl := compiledChannel_clean hc
      obtain ⟨l₅, _, l₆, ht, htail, rfl⟩ := clean_bind.mp htell
      obtain ⟨rfl, -⟩ := clean_tell.mp ht
      exact (Silent.capability _).append (ih htail)

theorem nodup_of_validateUniquePorts {site : PortsSite} {ports : List Port} {l : List (Emitted δ)}
    {u : Unit} (h : Clean (validateUniquePorts site ports) l u) :
    l = [] ∧ (ports.map Port.name).Nodup := by
  rw [validateUniquePorts] at h
  split_ifs at h with hd
  · refine ⟨(clean_pure.mp h).1, ?_⟩
    rw [duplicateNames, List.dedup_eq_nil, List.filter_eq_nil_iff] at hd
    rw [List.nodup_iff_count_le_one]
    intro name
    by_cases hm : name ∈ ports.map Port.name
    · simpa using hd name hm
    · simp [List.count_eq_zero_of_not_mem hm]
  · exact absurd h not_clean_fault

/-! ## Atomic instances -/

/-- The instance a stored atomic version is registered as. -/
def StoredVersion.instanceAt (stored : StoredVersion) (scope : ScopePath) : Instance :=
  ⟨scope, stored.definition.name, stored.contentHash, stored.definition⟩

@[simp] theorem port_instanceAt (a : Seat) (stored : StoredVersion) (name : String) :
    (stored.instanceAt a.scope).port name = .nodePort a.levelScope a.node.id name := by
  simp [Instance.port, Instance.level, Instance.node, StoredVersion.instanceAt, Seat.scope,
    ScopePath.child]

def Seat.cell (a : Seat) (stored : StoredVersion) (bound : Sources) : Cell :=
  ⟨stored.instanceAt a.scope, addressed bound⟩

theorem bindings_cell (a : Seat) (stored : StoredVersion) (bound : Sources) :
    (a.cell stored bound).bindings = inputBindings a.levelScope a.node.id bound := by
  simp [Cell.bindings, Seat.cell, addressed, inputBindings]

theorem bindings_projections (bs : List ResolvedPortBinding) :
    let log : List (Emitted δ) := bs.map .binding
    resolutionsOf log = [] ∧ bindingsOf log = bs ∧ loopsOf log = [] ∧ atomicsOf log = [] := by
  simp [resolutionsOf, bindingsOf, loopsOf, atomicsOf, List.filterMap_map, Function.comp_def,
    Emitted.resolution?, Emitted.binding?, Emitted.loop?, Emitted.atomic?]

theorem registerAtomic_clean {w : World δ} {a : Seat} {stored : StoredVersion} {bound : Sources}
    {ref : Ref} {grants : EffectiveGrants} {l : List (Emitted δ)} {o : Sources}
    (h : Clean (registerAtomic w a stored.definition bound ref grants) l o) :
    resolutionsOf l = [] ∧ bindingsOf l = (a.cell stored bound).bindings ∧ loopsOf l = [] ∧
      atomicsOf l = [a.scope] ∧ o = atomicOutputs a.levelScope a.node.id stored.definition.outputs := by
  obtain ⟨l₁, _, l₂, hb, h₂, rfl⟩ := clean_bind.mp h
  obtain ⟨l₃, _, l₄, hcap, h₃, rfl⟩ := clean_bind.mp h₂
  obtain ⟨l₅, _, l₆, hcaps, h₄, rfl⟩ := clean_bind.mp h₃
  obtain ⟨l₇, _, l₈, hat, hret, rfl⟩ := clean_bind.mp h₄
  obtain ⟨rfl, rfl⟩ := clean_pure.mp hret
  obtain ⟨rfl, -⟩ := clean_tell.mp hcap
  obtain ⟨rfl, -⟩ := clean_tell.mp hat
  obtain rfl := Emit.tellAll_returns.mp hb.1
  have hs := bindCapabilities_clean hcaps
  obtain ⟨hbr, hbb, hbl, hba⟩ :=
    bindings_projections (δ := δ) (inputBindings a.levelScope a.node.id bound)
  refine ⟨?_, ?_, ?_, ?_, rfl⟩
  · simp only [resolutionsOf_append, hbr, hs.resolutions]
    rfl
  · simp only [bindingsOf_append, hbb, hs.bindings, bindings_cell]
    exact List.append_nil _
  · simp only [loopsOf_append, hbl, hs.loops]
    rfl
  · simp only [atomicsOf_append, hba, hs.atomics]
    rfl

/-- What a node compiler keeps. Over sound sources a clean node is a typed program
below its own scope, its outputs are sound after it, and a reference answers to the
outputs its definition declares. -/
structure NodeOutcome (w : World δ) (a : Seat) (env : Set Offer) (log : List (Emitted δ))
    (outputs : Sources) (units : List CompiledUnit) : Prop where
  compiled : Compiled w env a.scope a.loopDepth log units
  sound : ∀ s ∈ allSources outputs, s.Sound (after env units)
  answers : ∀ ref, a.node.body = .ref ref → ∀ stored,
    selectVersion w.snapshot ref a.scope w.resolutionLock = some stored →
      Answers (after env units) stored.definition.outputs outputs

def NodeSound (w : World δ) (rec : Seat → Compile δ Sources) : Prop :=
  ∀ {a : Seat} {env : Set Offer} {log : List (Emitted δ)} {outputs : Sources},
    (∀ s, a.Sees s → s.Sound env) → Clean (rec a) log outputs →
      ∃ units, NodeOutcome w a env log outputs units

theorem atomic_compiled {w : World δ} {a : Seat} {env : Set Offer} {stored : StoredVersion}
    {p : PythonRef} (hbody : stored.definition.body = .python p)
    (hget : w.snapshot.get stored.definition.name stored.contentHash = some stored)
    {bound : Sources} (hbound : BoundPorts env stored.definition.inputs (addressed bound))
    {r : ComponentResolution δ} (hscope : r.scope = a.scope)
    (hname : r.component = stored.definition.name) (hversion : r.resolvedVersion = stored.contentHash)
    {ref : Ref} {grants : EffectiveGrants} {l : List (Emitted δ)} {o : Sources}
    (h : Clean (registerAtomic w a stored.definition bound ref grants) l o) :
    Compiled w env a.scope a.loopDepth (.resolution r :: l) [.atomic (a.cell stored bound)] := by
  obtain ⟨hres, hbind, hloop, hatom, -⟩ := registerAtomic_clean h
  have hinst : w.snapshot.instanceOf r = some (stored.instanceAt a.scope) := by
    simp [RegistrySnapshot.instanceOf, hname, hversion, hget, hbody, hscope, StoredVersion.instanceAt]
  refine ⟨⟨?_, ?_, ?_, ?_⟩, ⟨hbound, trivial⟩, ?_, ?_, ?_⟩
  · have hcons : resolutionsOf (.resolution r :: l) = r :: resolutionsOf l := rfl
    rw [hcons, hres, List.filterMap_cons_some hinst]
    rfl
  · have hcons : bindingsOf (.resolution r :: l) = bindingsOf l := rfl
    rw [hcons, hbind]
    simp [CompiledUnit.cells]
  · exact hloop
  · exact hatom
  · intro u hu s hs
    rw [List.mem_singleton] at hu
    subst hu
    rw [CompiledUnit.scopes, List.mem_singleton] at hs
    exact hs ▸ List.prefix_refl _
  · simp [CompiledUnit.scopes]
  · intro _ u hu
    rw [List.mem_singleton] at hu
    subst hu
    rfl

theorem atomicOutputs_answers (a : Seat) (env : Set Offer) (bound : Sources)
    {stored : StoredVersion} (hn : (stored.definition.outputs.map Port.name).Nodup) :
    let outputs := atomicOutputs a.levelScope a.node.id stored.definition.outputs
    let units := [CompiledUnit.atomic (a.cell stored bound)]
    Answers (after env units) stored.definition.outputs outputs ∧
      ∀ s ∈ allSources outputs, s.Sound (after env units) := by
  intro outputs units
  have hoffer : ∀ q ∈ stored.definition.outputs,
      (PortAddress.nodePort a.levelScope a.node.id q.name, q) ∈ after env units := by
    intro q hq
    refine .inr ⟨_, List.mem_singleton_self _, q, hq, ?_⟩
    simp [Seat.cell]
  have hentry : ∀ e ∈ outputs.entries, ∃ q ∈ stored.definition.outputs,
      e = (q.name, [⟨.nodePort a.levelScope a.node.id q.name, q⟩]) := by
    intro e he
    obtain ⟨q, hq, rfl⟩ := List.mem_map.mp (Dict.mem_ofList he)
    exact ⟨q, hq, rfl⟩
  constructor
  · intro p hp sources hm
    obtain ⟨q, hq, he⟩ := hentry _ hm
    obtain ⟨hname, rfl⟩ := Prod.mk.inj he
    obtain rfl : p = q := List.inj_on_of_nodup_map hn hp hq hname
    refine ⟨by simp, by simp, ?_, by simp⟩
    intro s hs
    rw [List.mem_singleton] at hs
    exact ⟨p, hs ▸ hoffer p hp, by rw [hs]⟩
  · intro s hs
    obtain ⟨name, ss, hm, hs⟩ := mem_allSources.mp hs
    obtain ⟨q, hq, he⟩ := hentry _ hm
    obtain ⟨rfl, rfl⟩ := Prod.mk.inj he
    rw [List.mem_singleton] at hs
    exact ⟨q, hs ▸ hoffer q hq, by rw [hs]⟩

/-! ## Levels -/

theorem nodeOrder_placed {graph : String} {ids order : List String}
    {upstream : Dict String (List String)} (h : nodeOrder graph ids upstream = .ok order) :
    Place.Placed (fun name => upstream.getD name []) order ∧ ids ⊆ order := by
  rw [nodeOrder] at h
  split_ifs at h
  split at h
  next hplace =>
    cases h
    exact Place.placeAll_placed hplace
  all_goals cases h

theorem orderedNodes_nodup {g : Graph} {upstream : Dict String (List String)}
    {ordered : List GraphNode} (h : orderedNodes g upstream = .ok ordered) :
    (ordered.map NodeOf.id).Nodup := by
  have hid : ∀ name n, (nodesById g).get? name = some n → n.id = name := by
    intro name n hn
    obtain ⟨m, -, he⟩ := List.mem_map.mp (Dict.mem_ofList (Dict.mem_of_get? hn))
    obtain ⟨rfl, rfl⟩ := Prod.mk.inj he
    rfl
  have hsub : ∀ order : List String,
      ((order.filterMap (nodesById g).get?).map NodeOf.id).Sublist order := by
    intro order
    induction order with
    | nil => simp
    | cons name order ih =>
      cases hn : (nodesById g).get? name with
      | none =>
        rw [List.filterMap_cons_none hn]
        exact ih.cons _
      | some n =>
        rw [List.filterMap_cons_some hn, List.map_cons, hid name n hn]
        exact ih.cons_cons _
  cases ho : nodeOrder g.name (nodeIds g) upstream with
  | error e => simp [orderedNodes, ho, Except.map] at h
  | ok order =>
    obtain rfl : order.filterMap (nodesById g).get? = ordered := by
      simpa [orderedNodes, ho, Except.map] using h
    exact (hsub order).nodup (nodeOrder_placed ho).1.nodup

theorem child_inj_of_prefix {scope s : ScopePath} {x y : String}
    (hx : scope.child x <+: s) (hy : scope.child y <+: s) : x = y := by
  have hlen : (scope.child x).length = (scope.child y).length := by simp [ScopePath.child]
  have he := (List.prefix_of_prefix_length_le hx hy hlen.le).eq_of_length hlen
  simpa [ScopePath.child] using he

/-- The sources a level offers to its nodes are sound. -/
structure LevelSound (env : Set Offer) (inputs : Sources) (nodeOutputs : NodeLookup) : Prop where
  inputs : ∀ s ∈ allSources inputs, s.Sound env
  nodes : ∀ outputs ∈ nodeOutputs.values, ∀ s ∈ allSources outputs, s.Sound env

theorem sees_of_level {Q : Source → Prop} {l : Level} {nodeOutputs : NodeLookup}
    (inputs : ∀ s ∈ allSources l.inputSources, Q s)
    (nodes : ∀ outputs ∈ nodeOutputs.values, ∀ s ∈ allSources outputs, Q s) (g : Graph)
    (upstream : Dict String (List String)) (node : GraphNode) :
    ∀ s, (seatOf g l upstream nodeOutputs node).Sees s → Q s := by
  have hvis : ∀ s, Visible nodeOutputs l.inputSources s → Q s := by
    rintro s (hs | ⟨outputs, ho, hs⟩)
    · exact inputs s hs
    · exact nodes outputs ho s hs
  rintro s (hs | hs)
  · rcases List.mem_append.mp hs with hs | hs
    · obtain ⟨name, -, hs⟩ := List.mem_flatMap.mp hs
      cases hg : nodeOutputs.get? name with
      | none => simp [Dict.getD, hg, allSources] at hs
      | some outputs =>
        rw [Dict.getD, hg, Option.getD_some] at hs
        exact nodes outputs (Dict.mem_values.mpr ⟨name, Dict.mem_of_get? hg⟩) s hs
    · exact inputs s hs
  · exact hvis s hs

theorem forall_values_insert {Q : Source → Prop} {nodeOutputs : NodeLookup} {name : String}
    {outputs : Sources} (nodes : ∀ outputs ∈ nodeOutputs.values, ∀ s ∈ allSources outputs, Q s)
    (ho : ∀ s ∈ allSources outputs, Q s) :
    ∀ outputs' ∈ (nodeOutputs.insert name outputs).values, ∀ s ∈ allSources outputs', Q s := by
  intro outputs' hm s hs
  obtain ⟨k, hk⟩ := Dict.mem_values.mp hm
  rcases Dict.mem_insert hk with heq | hk
  · cases heq
    exact ho s hs
  · exact nodes outputs' (Dict.mem_values.mpr ⟨k, hk⟩) s hs

theorem LevelSound.sees {env : Set Offer} {l : Level} {nodeOutputs : NodeLookup}
    (h : LevelSound env l.inputSources nodeOutputs) (g : Graph)
    (upstream : Dict String (List String)) (node : GraphNode) :
    ∀ s, (seatOf g l upstream nodeOutputs node).Sees s → s.Sound env :=
  sees_of_level h.inputs h.nodes g upstream node

theorem LevelSound.insert {env env' : Set Offer} {inputs : Sources} {nodeOutputs : NodeLookup}
    (h : LevelSound env inputs nodeOutputs) (he : env ⊆ env') {name : String} {outputs : Sources}
    (ho : ∀ s ∈ allSources outputs, s.Sound env') :
    LevelSound env' inputs (nodeOutputs.insert name outputs) :=
  ⟨fun s hs => (h.inputs s hs).mono he,
    forall_values_insert (fun outputs hm s hs => (h.nodes outputs hm s hs).mono he) ho⟩

theorem after_append (env : Set Offer) (us vs : List CompiledUnit) :
    after env (us ++ vs) = after (after env us) vs := by
  simp [after, Set.union_assoc]

theorem compileNodes_clean {w : World δ} {rec : Seat → Compile δ Sources} (hrec : NodeSound w rec)
    {g : Graph} {l : Level} {upstream : Dict String (List String)} :
    ∀ {nodes : List GraphNode} {env : Set Offer} {nodeOutputs r : NodeLookup}
      {log : List (Emitted δ)}, Clean (compileNodes rec g l upstream nodes nodeOutputs) log r →
      (nodes.map NodeOf.id).Nodup → LevelSound env l.inputSources nodeOutputs →
        ∃ units, Compiled w env l.scope l.loopDepth log units ∧
          LevelSound (after env units) l.inputSources r ∧
          ∀ u ∈ units, ∀ s ∈ u.scopes, ∃ n ∈ nodes, l.scope.child n.id <+: s := by
  intro nodes
  induction nodes with
  | nil =>
    intro env nodeOutputs r log h _ hs
    obtain ⟨rfl, rfl⟩ := clean_pure.mp h
    exact ⟨[], Compiled.nil w env l.scope l.loopDepth, by simpa [after] using hs, by simp⟩
  | cons node nodes ih =>
    intro env nodeOutputs r log h hn hs
    obtain ⟨hnode, hn⟩ := List.nodup_cons.mp hn
    obtain ⟨l₁, outputs, l₂, hhead, htail, rfl⟩ := clean_bind.mp h
    obtain ⟨us, hus⟩ := hrec (hs.sees g upstream node) hhead
    obtain ⟨vs, hvs, hsound, hbelow⟩ :=
      ih htail hn (hs.insert Set.subset_union_left hus.sound)
    have hscope : ∀ u ∈ us, ∀ s ∈ u.scopes, l.scope.child node.id <+: s := hus.compiled.within
    refine ⟨us ++ vs, ⟨hus.compiled.tracks.append hvs.tracks, ?_, ?_, ?_, ?_⟩, ?_, ?_⟩
    · exact threaded_append.mpr ⟨hus.compiled.typed, hvs.typed⟩
    · intro u hu s hsu
      rcases List.mem_append.mp hu with hu | hu
      · exact (List.prefix_append l.scope [node.id]).trans (hscope u hu s hsu)
      · exact hvs.within u hu s hsu
    · rw [List.flatMap_append, List.nodup_append]
      refine ⟨hus.compiled.distinct, hvs.distinct, ?_⟩
      rintro s hs₁ s' hs₂ rfl
      obtain ⟨u, hu, hsu⟩ := List.mem_flatMap.mp hs₁
      obtain ⟨v, hv, hsv⟩ := List.mem_flatMap.mp hs₂
      obtain ⟨n, hmem, hpre⟩ := hbelow v hv s hsv
      have hid := child_inj_of_prefix (hscope u hu s hsu) hpre
      exact hnode (List.mem_map.mpr ⟨n, hmem, hid.symm⟩)
    · intro hd u hu
      rcases List.mem_append.mp hu with hu | hu
      · exact hus.compiled.flat hd u hu
      · exact hvs.flat hd u hu
    · rw [after_append]
      exact hsound
    · intro u hu s hsu
      rcases List.mem_append.mp hu with hu | hu
      · exact ⟨node, List.mem_cons_self, hscope u hu s hsu⟩
      · obtain ⟨n, hmem, hpre⟩ := hbelow u hu s hsu
        exact ⟨n, List.mem_cons_of_mem _ hmem, hpre⟩

theorem refuseOn_clean {faults : List Fault} {l : List (Emitted δ)} {u : Unit}
    (h : Clean (refuseOn faults : Compile δ Unit) l u) : faults = [] ∧ l = [] := by
  rw [refuseOn] at h
  split_ifs at h with hf
  · exact ⟨hf, (clean_pure.mp h).1⟩
  · obtain ⟨_, _, _, _, hr, -⟩ := clean_bind.mp h
    exact absurd hr not_clean_raise

theorem ofExcept_clean {α : Type} {x : Except Raised α} {l : List (Emitted δ)} {a : α}
    (h : Clean (ofExcept x : Compile δ α) l a) : x = .ok a ∧ l = [] := by
  obtain ⟨hr, -⟩ := h
  rw [Emit.Returns, ofExcept, Emit.mk.injEq] at hr
  exact ⟨hr.2, hr.1.symm⟩

theorem inputs_nodup_of_clean {rec : Seat → Compile δ Sources} {g : Graph} {l : Level}
    {log : List (Emitted δ)} {outputs : Sources}
    (h : Clean (compileGraphWith rec g l) log outputs) : (g.inputs.map Port.name).Nodup := by
  obtain ⟨_, _, _, -, h₁, -⟩ := clean_bind.mp h
  obtain ⟨_, _, _, -, h₂, -⟩ := clean_bind.mp h₁
  obtain ⟨_, _, _, hui, -, -⟩ := clean_bind.mp h₂
  exact (nodup_of_validateUniquePorts hui).2

theorem compileGraphWith_clean {w : World δ} {rec : Seat → Compile δ Sources}
    (hrec : NodeSound w rec) {g : Graph} {l : Level} {env : Set Offer} {log : List (Emitted δ)}
    {outputs : Sources} (h : Clean (compileGraphWith rec g l) log outputs)
    (hin : ∀ s ∈ allSources l.inputSources, s.Sound env) :
    ∃ units, Compiled w env l.scope l.loopDepth log units ∧ (g.outputs.map Port.name).Nodup ∧
      BoundPorts (after env units) g.outputs (addressed outputs) ∧ Tagged g.outputs outputs := by
  obtain ⟨l₁, _, _, he, h₁, rfl⟩ := clean_bind.mp h
  obtain ⟨l₂, _, _, hc, h₂, rfl⟩ := clean_bind.mp h₁
  obtain ⟨l₃, _, _, hui, h₃, rfl⟩ := clean_bind.mp h₂
  obtain ⟨l₄, _, _, huo, h₄, rfl⟩ := clean_bind.mp h₃
  obtain ⟨l₅, ordered, _, hord, h₅, rfl⟩ := clean_bind.mp h₄
  obtain ⟨l₆, nodeOutputs, l₇, hnodes, hout, rfl⟩ := clean_bind.mp h₅
  obtain ⟨-, rfl⟩ := refuseOn_clean he
  obtain ⟨-, rfl⟩ := refuseOn_clean hc
  obtain ⟨rfl, -⟩ := nodup_of_validateUniquePorts hui
  obtain ⟨rfl, hno⟩ := nodup_of_validateUniquePorts huo
  obtain ⟨horder, rfl⟩ := ofExcept_clean hord
  obtain ⟨units, hunits, hsound, -⟩ := compileNodes_clean hrec hnodes (orderedNodes_nodup horder)
    ⟨hin, by simp⟩
  have hzip : g.outputs.zipIdx.map Prod.fst = g.outputs := List.zipIdx_map_fst 0 g.outputs
  have hnode : ∀ s ∈ nodeOutputs.values.flatMap allSources, s.Sound (after env units) := by
    intro s hs
    obtain ⟨outputs', hm, hs⟩ := List.mem_flatMap.mp hs
    exact hsound.nodes outputs' hm s hs
  obtain ⟨rfl, hb, ht⟩ := bindOutputs_clean hnode hsound.inputs hout
    (by simpa [hzip] using hno) (BoundPorts.nil _) (by simp [Tagged])
  rw [List.nil_append, hzip] at hb ht
  exact ⟨units, by simpa using hunits, hno, hb, ht⟩

end Constructicon
