import Constructicon.Sealed

/-!
# The rules of a clean compilation

What a clean compilation of one node went through: a reference registered as an atomic
instance, a composite compiled over its re-tagged boundary, an inline graph, or a loop. A
property of seats, logs and outputs that the four rules keep holds of every clean node, at
every depth of the recursion. Binding inputs and outputs logs nothing and invents no source.
-/

namespace Constructicon

variable {δ : Type}

/-! ## Binding -/

theorem bindPorts_sees {a : Seat} {byPort : Dict String (Dict String MapEntry)} {feedback : List String}
    {Q : Source → Prop} (seen : ∀ s, a.Sees s → Q s) {ports : List Port} {bound r : Sources}
    {l : List (Emitted δ)} (h : Clean (bindPorts a byPort feedback ports bound) l r)
    (start : ∀ s ∈ allSources bound, Q s) : l = [] ∧ ∀ s ∈ allSources r, Q s := by
  induction ports generalizing bound l with
  | nil =>
    obtain ⟨rfl, rfl⟩ := clean_pure.mp h
    exact ⟨rfl, start⟩
  | cons port ports ih =>
    obtain ⟨l₁, outcome, l₂, hport, htail, rfl⟩ := clean_bind.mp h
    obtain ⟨rfl, ho⟩ := bindNodePort_clean hport
    rw [List.nil_append]
    cases outcome with
    | none => exact ih htail start
    | some sources =>
      refine ih htail fun s hs => ?_
      rcases mem_allSources_insert hs with hs | hs
      · exact seen s (ho.visible s hs)
      · exact start s hs

theorem bindNodeInputs_sees {a : Seat} {inputs : List Port} {feedback : List String}
    {l : List (Emitted δ)} {bound : Sources} (h : Clean (bindNodeInputs a inputs feedback) l bound) :
    l = [] ∧ ∀ s ∈ allSources bound, a.Sees s := by
  obtain ⟨l₁, byPort, l₂, hg, hb, rfl⟩ := clean_bind.mp h
  obtain rfl := groupMaps_clean hg
  exact bindPorts_sees (fun _ seen => seen) hb (by simp [allSources])

theorem bindOutputs_addresses {level : Level} {nodeSources inputSources : List Source}
    {Q : PortAddress → Prop} (node : ∀ s ∈ nodeSources, Q s.address)
    (input : ∀ s ∈ inputSources, Q s.address) {ports : List (Port × ℕ)} {outputs r : Sources}
    {l : List (Emitted δ)} (h : Clean (bindOutputs level nodeSources inputSources ports outputs) l r)
    (start : ∀ s ∈ allSources outputs, Q s.address) : l = [] ∧ ∀ s ∈ allSources r, Q s.address := by
  induction ports generalizing outputs l with
  | nil =>
    obtain ⟨rfl, rfl⟩ := clean_pure.mp h
    exact ⟨rfl, start⟩
  | cons entry ports ih =>
    obtain ⟨port, index⟩ := entry
    obtain ⟨l₁, outcome, l₂, hport, htail, rfl⟩ := clean_bind.mp h
    obtain ⟨rfl, ho⟩ := bindPort_clean hport
    rw [List.nil_append]
    cases outcome with
    | none => exact ih htail start
    | some sources =>
      refine ih htail fun s hs => ?_
      rcases mem_allSources_insert hs with hs | hs
      · obtain ⟨t, ht, rfl⟩ := List.mem_map.mp hs
        have pooled := ho.visible t ht
        split_ifs at pooled
        · exact node t pooled
        · exact input t pooled
      · exact start s hs

/-! ## Entries of the log -/

/-- A reference consumes the pin of its scope when there is a lock. -/
def pinEntries (w : World δ) (scope : ScopePath) : List (Emitted δ) :=
  if w.resolutionLock.isSome then [.pin scope] else []

theorem filterMap_pinEntries {β : Type} {f : Emitted δ → Option β} (skips : ∀ s, f (.pin s) = none)
    (w : World δ) (scope : ScopePath) : (pinEntries w scope).filterMap f = [] := by
  unfold pinEntries
  split_ifs
  · rw [List.filterMap_cons_none (skips scope)]
    rfl
  · rfl

theorem resolveRef_entries {w : World δ} {ref : Ref} {scope : ScopePath} {l : List (Emitted δ)}
    {r : Option StoredVersion} (h : Clean (resolveRef w ref scope) l r) : l = pinEntries w scope := by
  rw [resolveRef] at h
  unfold pinEntries
  cases hlock : w.resolutionLock with
  | some lock =>
    simp only [hlock] at h
    split at h
    · exact absurd h clean_fault_bind
    · obtain ⟨l₁, _, l₂, ht, htail, rfl⟩ := clean_bind.mp h
      obtain ⟨rfl, -⟩ := clean_tell.mp ht
      split_ifs at htail
      · exact absurd htail clean_fault_bind
      · split at htail
        · exact absurd htail clean_fault_bind
        · obtain ⟨rfl, -⟩ := clean_pure.mp htail
          rfl
  | none =>
    simp only [hlock] at h
    split_ifs at h
    · exact absurd h clean_fault_bind
    · split at h
      · split at h
        · exact absurd h clean_fault_bind
        · split at h
          · exact absurd h clean_fault_bind
          · exact (clean_pure.mp h).1
      · split at h
        · exact absurd h clean_fault_bind
        · exact (clean_pure.mp h).1

theorem loopBoundary_entries {w : World δ} {loop : Loop} {bodyScope : ScopePath}
    {l : List (Emitted δ)} {r : Option (List Port × List Port)}
    (h : Clean (loopBoundary w loop bodyScope) l r) :
    l = [] ∨ l = pinEntries w (bodyScope.child "$body") := by
  rw [loopBoundary] at h
  cases hb : loop.body with
  | inr g =>
    simp only [hb] at h
    exact .inl (clean_pure.mp h).1
  | inl ref =>
    simp only [hb] at h
    obtain ⟨l₁, resolved, l₂, hr, htail, rfl⟩ := clean_bind.mp h
    obtain rfl := resolveRef_entries hr
    split at htail
    · obtain ⟨rfl, -⟩ := clean_pure.mp htail
      exact .inr (List.append_nil _)
    · split at htail
      · exact absurd htail clean_fault_bind
      · obtain ⟨rfl, -⟩ := clean_pure.mp htail
        exact .inr (List.append_nil _)

theorem bindCapabilities_entries {w : World δ} {d : ComponentDef} {scope : ScopePath}
    {grants : EffectiveGrants} {entries : List (String × String)} {l : List (Emitted δ)} {u : Unit}
    (h : Clean (bindCapabilities w d scope grants entries) l u) :
    ∀ e ∈ l, ∃ c : CapabilityBinding, e = .capability c ∧ c.scope = scope ∧ c.effectiveGrants = grants := by
  induction entries generalizing l with
  | nil =>
    obtain ⟨rfl, -⟩ := clean_pure.mp h
    intro e he
    cases he
  | cons entry entries ih =>
    obtain ⟨aliasName, capabilityId⟩ := entry
    rw [bindCapabilities] at h
    split at h
    · exact absurd h clean_fault_bind
    · obtain ⟨l₁, _, l₂, hf, hrest, rfl⟩ := clean_bind.mp h
      obtain ⟨-, rfl⟩ := clean_emitFaults.mp hf
      obtain ⟨l₃, channel, l₄, hc, htell, rfl⟩ := clean_bind.mp hrest
      obtain rfl := compiledChannel_clean hc
      obtain ⟨l₅, _, l₆, ht, htail, rfl⟩ := clean_bind.mp htell
      obtain ⟨rfl, -⟩ := clean_tell.mp ht
      intro e he
      rcases List.mem_cons.mp he with rfl | he
      · exact ⟨_, rfl, rfl, rfl⟩
      · exact ih htail e he

theorem registerAtomic_entries {w : World δ} {a : Seat} {d : ComponentDef} {bound : Sources} {ref : Ref}
    {grants : EffectiveGrants} {l : List (Emitted δ)} {o : Sources}
    (h : Clean (registerAtomic w a d bound ref grants) l o) :
    o = atomicOutputs a.levelScope a.node.id d.outputs ∧ ∃ capabilities : List (Emitted δ),
      (∀ e ∈ capabilities, ∃ c : CapabilityBinding, e = .capability c ∧ c.scope = a.scope ∧
        c.effectiveGrants = grants) ∧
      l = (inputBindings a.levelScope a.node.id bound).map .binding ++
        (capabilities ++ [.atomic a.scope]) := by
  obtain ⟨l₁, _, l₂, hb, h₂, rfl⟩ := clean_bind.mp h
  obtain ⟨l₃, _, l₄, hcap, h₃, rfl⟩ := clean_bind.mp h₂
  obtain ⟨l₅, _, l₆, hcaps, h₄, rfl⟩ := clean_bind.mp h₃
  obtain ⟨l₇, _, l₈, hat, hret, rfl⟩ := clean_bind.mp h₄
  obtain ⟨rfl, rfl⟩ := clean_pure.mp hret
  obtain ⟨rfl, -⟩ := clean_tell.mp hcap
  obtain ⟨rfl, -⟩ := clean_tell.mp hat
  obtain rfl := Emit.tellAll_returns.mp hb.1
  refine ⟨rfl, _ :: l₅, List.forall_mem_cons.mpr ⟨⟨_, rfl, rfl, rfl⟩, bindCapabilities_entries hcaps⟩, rfl⟩

theorem mem_of_orderedNodes {g : Graph} {upstream : Dict String (List String)} {ordered : List GraphNode}
    (h : orderedNodes g upstream = .ok ordered) : ∀ n ∈ ordered, n ∈ g.nodes := by
  intro n hn
  cases ho : nodeOrder g.name (nodeIds g) upstream with
  | error e => simp [orderedNodes, ho, Except.map] at h
  | ok order =>
    obtain rfl : order.filterMap (nodesById g).get? = ordered := by
      simpa [orderedNodes, ho, Except.map] using h
    obtain ⟨name, -, found⟩ := List.mem_filterMap.mp hn
    obtain ⟨m, mem, same⟩ := List.mem_map.mp (Dict.mem_ofList (Dict.mem_of_get? found))
    obtain ⟨-, rfl⟩ := Prod.mk.inj same
    exact mem

theorem mem_orderedNodes {g : Graph} {upstream : Dict String (List String)} {ordered : List GraphNode}
    (h : orderedNodes g upstream = .ok ordered) : ∀ n ∈ g.nodes, n ∈ ordered := by
  intro n hn
  cases ho : nodeOrder g.name (nodeIds g) upstream with
  | error e => simp [orderedNodes, ho, Except.map] at h
  | ok order =>
    obtain rfl : order.filterMap (nodesById g).get? = ordered := by
      simpa [orderedNodes, ho, Except.map] using h
    have ids : (nodeIds g).Nodup := by
      rw [nodeOrder] at ho
      split_ifs at ho with nodup
      exact nodup
    have placed : n.id ∈ order := (nodeOrder_placed ho).2 (List.mem_map.mpr ⟨n, hn, rfl⟩)
    have keys : (g.nodes.map (fun n => (n.id, n))).map Prod.fst = nodeIds g := by
      simp [nodeIds, Function.comp_def]
    have entries : (nodesById g).entries = g.nodes.map (fun n => (n.id, n)) :=
      Dict.ofList_entries (keys ▸ ids)
    have distinct : (nodesById g).keys.Nodup := by
      rw [Dict.keys, entries, keys]
      exact ids
    have row : (n.id, n) ∈ (nodesById g).entries := by
      rw [entries]
      exact List.mem_map.mpr ⟨n, hn, rfl⟩
    exact List.mem_filterMap.mpr ⟨n.id, placed, Dict.get?_of_mem distinct row⟩

/-! ## Levels and loops -/

def levelOfComposite (a : Seat) (stored : StoredVersion) (bound : Sources) (grants : EffectiveGrants) :
    Level where
  scope := a.scope
  inputSources := retag stored.definition.inputs bound
  grants := grants
  loopDepth := a.loopDepth
  location := ⟨[.inl "body"], some (stored.definition.name, stored.contentHash)⟩

def levelOfInline (a : Seat) (bound : Sources) : Level where
  scope := a.scope
  inputSources := bound
  grants := a.grants
  loopDepth := a.loopDepth
  location := a.location

def levelOfBody (a : Seat) (boundary : Sources) : Level where
  scope := a.scope.child loopBodySegment
  inputSources := boundary
  grants := a.grants
  loopDepth := 1
  location := a.location.child [.inl "body"]

def loopBoundarySources (a : Seat) (inputs : List Port) (bound : Sources) : Sources :=
  Dict.ofList ((loopSeeds (a.scope.child loopBodySegment) inputs bound).map Prod.snd)

section Runs

variable (P : Seat → List (Emitted δ) → Sources → Prop)

/-- The nodes of a level one after another, each as `P` says. -/
inductive NodesRun (g : Graph) (l : Level) (upstream : Dict String (List String)) :
    List GraphNode → NodeLookup → List (Emitted δ) → NodeLookup → Prop
  | nil (lookup : NodeLookup) : NodesRun g l upstream [] lookup [] lookup
  | cons {node : GraphNode} {nodes : List GraphNode} {lookup last : NodeLookup}
      {log rest : List (Emitted δ)} {out : Sources}
      (head : P (seatOf g l upstream lookup node) log out)
      (tail : NodesRun g l upstream nodes (lookup.insert node.id out) rest last) :
      NodesRun g l upstream (node :: nodes) lookup (log ++ rest) last

abbrev upstreamOf (g : Graph) : Dict String (List String) :=
  upstreamClosure (nodeIds g) (connectionEdges g)

inductive LevelRun (g : Graph) (l : Level) : List (Emitted δ) → Sources → Prop
  | intro {ordered : List GraphNode} {lookup : NodeLookup} {log : List (Emitted δ)} {out : Sources}
      (endpoints : endpointFaults g l.scope l.location = [])
      (acyclic : cycleFaults g l.scope l.location = [])
      (inputs : (g.inputs.map Port.name).Nodup) (outputs : (g.outputs.map Port.name).Nodup)
      (order : orderedNodes g (upstreamOf g) = .ok ordered)
      (nodes : NodesRun P g l (upstreamOf g) ordered .empty log lookup)
      (bound : Clean (bindOutputs l (lookup.values.flatMap allSources) (allSources l.inputSources)
        g.outputs.zipIdx .empty : Compile δ Sources) [] out) : LevelRun g l log out

variable {P}

theorem NodesRun.each {g : Graph} {l : Level} {upstream : Dict String (List String)}
    {nodes : List GraphNode} {lookup last : NodeLookup} {log : List (Emitted δ)}
    (h : NodesRun P g l upstream nodes lookup log last) :
    ∀ n ∈ nodes, ∃ lookup log out, P (seatOf g l upstream lookup n) log out := by
  induction h with
  | nil =>
    intro n hn
    cases hn
  | cons head tail ih =>
    intro n hn
    rcases List.mem_cons.mp hn with rfl | hn
    · exact ⟨_, _, _, head⟩
    · exact ih n hn

theorem NodesRun.logged {g : Graph} {l : Level} {upstream : Dict String (List String)}
    {nodes : List GraphNode} {lookup last : NodeLookup} {log : List (Emitted δ)}
    (h : NodesRun P g l upstream nodes lookup log last) :
    ∀ e ∈ log, ∃ n ∈ nodes, ∃ lookup log out, P (seatOf g l upstream lookup n) log out ∧ e ∈ log := by
  induction h with
  | nil =>
    intro e he
    cases he
  | cons head tail ih =>
    intro e he
    rcases List.mem_append.mp he with he | he
    · exact ⟨_, List.mem_cons_self, _, _, _, head, he⟩
    · obtain ⟨n, hn, rest⟩ := ih e he
      exact ⟨n, List.mem_cons_of_mem _ hn, rest⟩

theorem LevelRun.each {g : Graph} {l : Level} {log : List (Emitted δ)} {out : Sources}
    (h : LevelRun P g l log out) :
    ∀ n ∈ g.nodes, ∃ lookup log out, P (seatOf g l (upstreamOf g) lookup n) log out := by
  obtain ⟨-, -, -, -, order, nodes, -⟩ := h
  exact fun n hn => nodes.each n (mem_orderedNodes order n hn)

theorem LevelRun.logged {g : Graph} {l : Level} {log : List (Emitted δ)} {out : Sources}
    (h : LevelRun P g l log out) :
    ∀ e ∈ log, ∃ n ∈ g.nodes, ∃ lookup log out,
      P (seatOf g l (upstreamOf g) lookup n) log out ∧ e ∈ log := by
  obtain ⟨-, -, -, -, order, nodes, -⟩ := h
  intro e he
  obtain ⟨n, hn, rest⟩ := nodes.logged e he
  exact ⟨n, mem_of_orderedNodes order n hn, rest⟩

variable (P)

def BodyRun (a : Seat) (loop : Loop) (boundary : Sources) (log : List (Emitted δ)) (out : Sources) :
    Prop :=
  match loop.body with
  | .inl ref => P (bodySeat a ref (a.scope.child loopBodySegment) boundary) log out
  | .inr g => LevelRun P g (levelOfBody a boundary) log out

/-- A loop of known boundary, into its sealed program. -/
structure LoopRun (w : World δ) (a : Seat) (loop : Loop) (inputs outputs : List Port)
    (bound : Sources) (log : List (Emitted δ)) (body : Sources) (feedback : List ResolvedPortBinding)
    (continuation : PortAddress) : Prop where
  inputNames : (inputs.map Port.name).Nodup
  outputNames : (outputs.map Port.name).Nodup
  lawful : loop.feedback.entries.flatMap
    (feedbackFaults a.scope (portsByName inputs) (portsByName outputs)) = []
  continues : continueFaults w.hashing a.scope (portsByName outputs) loop.continueFrom = []
  seeded : Clean (bindNodeInputs a inputs loop.feedback.keys : Compile δ Sources) [] bound
  ran : BodyRun P a loop (loopBoundarySources a inputs bound) log body
  nonempty : atomicsOf log ≠ []
  fedBack : Clean (feedbackBindings a.scope (a.scope.child loopBodySegment) (portsByName inputs)
    (portsByName outputs) body loop.feedback.entries : Compile δ (List ResolvedPortBinding)) [] feedback
  continued : Clean (continueSource a.scope (a.scope.child loopBodySegment) (portsByName outputs)
    body loop.continueFrom : Compile δ PortAddress) [] continuation

end Runs

/-- A reference resolved, granted, recorded and bound. -/
structure RefRun (w : World δ) (a : Seat) (ref : Ref) (stored : StoredVersion)
    (grants : EffectiveGrants) (bound : Sources) (log : List (Emitted δ)) : Prop where
  node : a.node.body = .ref ref
  resolved : ∃ resolved recorded, log = resolved ++ recorded ∧
    Clean (resolveRef w ref a.scope) resolved (some stored) ∧
      Clean (recordResolution w stored ref a.scope) recorded ()
  granted : Clean (compileGrants a.grants ref.grants a.scope : Compile δ EffectiveGrants) [] grants
  bound : Clean (bindNodeInputs a stored.definition.inputs : Compile δ Sources) [] bound

theorem RefRun.entries {w : World δ} {a : Seat} {ref : Ref} {stored : StoredVersion}
    {grants : EffectiveGrants} {bound : Sources} {log : List (Emitted δ)}
    (h : RefRun w a ref stored grants bound log) :
    selectVersion w.snapshot ref a.scope w.resolutionLock = some stored ∧
      ∃ r : ComponentResolution δ, log = pinEntries w a.scope ++ [.resolution r] ∧ r.scope = a.scope ∧
        r.component = stored.definition.name ∧ r.resolvedVersion = stored.contentHash := by
  obtain ⟨resolved, recorded, rfl, hr, hrecord⟩ := h.resolved
  obtain ⟨-, stored', found, selected⟩ := resolveRef_clean hr
  obtain rfl := Option.some.inj found
  obtain rfl := resolveRef_entries hr
  obtain ⟨rfl, -⟩ := clean_tell.mp hrecord
  exact ⟨selected, _, rfl, rfl, rfl, rfl⟩

/-- `Q` holds of a node when `P` holds of the nodes inside it. -/
structure CompileRules (w : World δ) (P Q : Seat → List (Emitted δ) → Sources → Prop) : Prop where
  atomic : ∀ {a ref stored grants bound before p log out}, RefRun w a ref stored grants bound before →
    stored.definition.body = .python p →
      Clean (registerAtomic w a stored.definition bound ref grants) log out → Q a (before ++ log) out
  composite : ∀ {a ref stored grants bound before g log out},
    RefRun w a ref stored grants bound before → stored.definition.body = .graph g →
      boundaryLie w.hashing stored a.scope = none →
        LevelRun P g (levelOfComposite a stored bound grants) log out → Q a (before ++ log) out
  inline : ∀ {a g bound log out}, a.node.body = .graph g →
    Clean (bindNodeInputs a g.inputs : Compile δ Sources) [] bound →
      LevelRun P g (levelOfInline a bound) log out → Q a log out
  loop : ∀ {a loop before inputs outputs bound log body feedback continuation},
    a.node.body = .loop loop → a.loopDepth = 0 →
      Clean (loopBoundary w loop (a.scope.child loopBodySegment)) before (some (inputs, outputs)) →
        LoopRun P w a loop inputs outputs bound log body feedback continuation →
          Q a (before ++ (log ++ [.loop (loopResolution a loop inputs outputs bound body (atomicsOf log)
            feedback continuation)]))
            (exportedSources (loopExports a.levelScope a.node.id outputs body loop.continueFrom))

/-! ## Every clean compilation went through the rules -/

section Inversion

variable {w : World δ} {rec : Seat → Compile δ Sources} {P : Seat → List (Emitted δ) → Sources → Prop}

theorem nodesRun_of_clean (inner : ∀ a log out, Clean (rec a) log out → P a log out) {g : Graph}
    {l : Level} {upstream : Dict String (List String)} {nodes : List GraphNode} {lookup last : NodeLookup}
    {log : List (Emitted δ)} (h : Clean (compileNodes rec g l upstream nodes lookup) log last) :
    NodesRun P g l upstream nodes lookup log last := by
  induction nodes generalizing lookup log with
  | nil =>
    obtain ⟨rfl, rfl⟩ := clean_pure.mp h
    exact .nil _
  | cons node nodes ih =>
    obtain ⟨l₁, out, l₂, hhead, htail, rfl⟩ := clean_bind.mp h
    exact .cons (inner _ _ _ hhead) (ih htail)

theorem levelRun_of_clean (inner : ∀ a log out, Clean (rec a) log out → P a log out) {g : Graph}
    {l : Level} {log : List (Emitted δ)} {out : Sources}
    (h : Clean (compileGraphWith rec g l) log out) : LevelRun P g l log out := by
  obtain ⟨_, _, _, he, h₁, rfl⟩ := clean_bind.mp h
  obtain ⟨_, _, _, hc, h₂, rfl⟩ := clean_bind.mp h₁
  obtain ⟨_, _, _, hui, h₃, rfl⟩ := clean_bind.mp h₂
  obtain ⟨_, _, _, huo, h₄, rfl⟩ := clean_bind.mp h₃
  obtain ⟨_, ordered, _, hord, h₅, rfl⟩ := clean_bind.mp h₄
  obtain ⟨log, lookup, _, hnodes, hout, rfl⟩ := clean_bind.mp h₅
  obtain ⟨endpoints, rfl⟩ := refuseOn_clean he
  obtain ⟨acyclic, rfl⟩ := refuseOn_clean hc
  obtain ⟨rfl, inputs⟩ := nodup_of_validateUniquePorts hui
  obtain ⟨rfl, outputs⟩ := nodup_of_validateUniquePorts huo
  obtain ⟨order, rfl⟩ := ofExcept_clean hord
  obtain ⟨rfl, -⟩ := bindOutputs_addresses (Q := fun _ => True) (fun _ _ => trivial)
    (fun _ _ => trivial) hout (fun _ _ => trivial)
  have nodes := nodesRun_of_clean inner hnodes
  simpa using LevelRun.intro endpoints acyclic inputs outputs order nodes hout

theorem bodyRun_of_clean (inner : ∀ a log out, Clean (rec a) log out → P a log out) {a : Seat}
    {loop : Loop} {boundary : Sources} {log : List (Emitted δ)} {out : Sources}
    (h : Clean (compileBody rec a loop (a.scope.child loopBodySegment) boundary) log out) :
    BodyRun P a loop boundary log out := by
  unfold compileBody at h
  unfold BodyRun
  cases hbody : loop.body with
  | inl ref =>
    rw [hbody] at h
    exact inner _ _ _ h
  | inr g =>
    rw [hbody] at h
    exact levelRun_of_clean inner h

/-- The fallback of `continueSource` faults when the port is declared. -/
theorem loopRun_of_clean (inner : ∀ a log out, Clean (rec a) log out → P a log out) {a : Seat}
    {loop : Loop} {inputs outputs : List Port} {log : List (Emitted δ)} {out : Sources}
    (h : Clean (compileBounded w rec a loop inputs outputs) log out) :
    ∃ bound bodyLog body feedback continuation,
      LoopRun P w a loop inputs outputs bound bodyLog body feedback continuation ∧
        log = bodyLog ++ [.loop (loopResolution a loop inputs outputs bound body (atomicsOf bodyLog)
          feedback continuation)] ∧
        out = exportedSources (loopExports a.levelScope a.node.id outputs body loop.continueFrom) := by
  obtain ⟨_, _, _, hui, h₁, rfl⟩ := clean_bind.mp h
  obtain ⟨rfl, hni⟩ := nodup_of_validateUniquePorts hui
  obtain ⟨_, _, _, huo, h₂, rfl⟩ := clean_bind.mp h₁
  obtain ⟨rfl, hno⟩ := nodup_of_validateUniquePorts huo
  obtain ⟨_, _, _, hff, h₃, rfl⟩ := clean_bind.mp h₂
  obtain ⟨hfeedback, rfl⟩ := clean_emitFaults.mp hff
  obtain ⟨_, _, _, hcf, h₄, rfl⟩ := clean_bind.mp h₃
  obtain ⟨hcontinue, rfl⟩ := clean_emitFaults.mp hcf
  obtain ⟨port, hport, -⟩ := continueFaults_nil hcontinue
  obtain ⟨_, bound, _, hbind, h₅, rfl⟩ := clean_bind.mp h₄
  obtain ⟨rfl, -⟩ := bindNodeInputs_sees hbind
  obtain ⟨_, ⟨body, bodyLog⟩, _, hlisten, h₆, rfl⟩ := clean_bind.mp h₅
  obtain ⟨hbody, hlog⟩ := clean_listen.mp hlisten
  subst hlog
  obtain ⟨_, _, _, hempty, h₇, rfl⟩ := clean_bind.mp h₆
  obtain ⟨hnonempty, rfl⟩ := clean_emitFaults.mp hempty
  obtain ⟨_, feedback, _, hfb, h₈, rfl⟩ := clean_bind.mp h₇
  obtain ⟨rfl, -⟩ := feedbackBindings_clean hfb
  obtain ⟨_, continuation, _, hcs, h₉, rfl⟩ := clean_bind.mp h₈
  obtain ⟨rfl, -⟩ := continueSource_clean hport hcs
  obtain ⟨_, _, _, htell, hret, rfl⟩ := clean_bind.mp h₉
  obtain ⟨rfl, -⟩ := clean_tell.mp htell
  obtain ⟨rfl, rfl⟩ := clean_pure.mp hret
  refine ⟨bound, bodyLog, body, feedback, continuation, ⟨hni, hno, hfeedback, hcontinue, hbind,
    bodyRun_of_clean inner hbody, ?_, hfb, hcs⟩, by simp, rfl⟩
  intro none
  rw [if_pos none] at hnonempty
  cases hnonempty

theorem CompileRules.turn {Q : Seat → List (Emitted δ) → Sources → Prop} (rules : CompileRules w P Q)
    (inner : ∀ a log out, Clean (rec a) log out → P a log out) {a : Seat} {log : List (Emitted δ)}
    {out : Sources} (h : Clean (compileNodeWith w rec a) log out) : Q a log out := by
  rw [compileNodeWith] at h
  cases hbody : a.node.body with
  | loop loop =>
    simp only [hbody] at h
    split_ifs at h with hd
    · exact absurd h clean_fault_bind
    · obtain ⟨l₁, boundary, l₂, hb, htail, rfl⟩ := clean_bind.mp h
      obtain ⟨-, inputs, outputs, rfl, -⟩ := loopBoundary_clean hb
      obtain ⟨bound, bodyLog, body, feedback, continuation, run, rfl, rfl⟩ := loopRun_of_clean inner htail
      exact rules.loop hbody (not_not.mp hd) hb run
  | ref ref =>
    simp only [hbody] at h
    obtain ⟨l₁, resolved, l₂, hr, htail, rfl⟩ := clean_bind.mp h
    obtain ⟨-, stored, rfl, -⟩ := resolveRef_clean hr
    obtain ⟨_, grants, _, hg, h₁, rfl⟩ := clean_bind.mp htail
    obtain rfl := compileGrants_clean hg
    obtain ⟨recorded, _, _, hrecord, h₂, rfl⟩ := clean_bind.mp h₁
    obtain ⟨_, bound, tail, hb, h₃, rfl⟩ := clean_bind.mp h₂
    obtain ⟨rfl, -⟩ := bindNodeInputs_sees hb
    have run : RefRun w a ref stored grants bound (l₁ ++ recorded) :=
      ⟨hbody, ⟨l₁, recorded, rfl, hr, hrecord⟩, hg, hb⟩
    have shape : l₁ ++ ([] ++ (recorded ++ ([] ++ tail))) = (l₁ ++ recorded) ++ tail := by simp
    rw [shape]
    cases hstored : stored.definition.body with
    | python p =>
      simp only [hstored] at h₃
      exact rules.atomic run hstored h₃
    | graph g =>
      simp only [hstored] at h₃
      rw [compileComposite] at h₃
      split at h₃
      next => exact absurd h₃ clean_fault_bind
      next hlie => exact rules.composite run hstored hlie (levelRun_of_clean inner h₃)
  | graph g =>
    simp only [hbody] at h
    obtain ⟨_, bound, tail, hb, hg, rfl⟩ := clean_bind.mp h
    obtain ⟨rfl, -⟩ := bindNodeInputs_sees hb
    exact rules.inline hbody hb (levelRun_of_clean inner hg)

end Inversion

/-! ## What went through the rules is a clean compilation -/

section Assembly

variable {w : World δ} {rec : Seat → Compile δ Sources}

/-- `rec` compiles the seat cleanly. -/
def Compiles (rec : Seat → Compile δ Sources) (a : Seat) (log : List (Emitted δ)) (out : Sources) :
    Prop := Clean (rec a) log out

theorem refuseOn_nil : Clean (refuseOn [] : Compile δ Unit) [] () := by
  rw [refuseOn, if_pos rfl]
  exact clean_pure.mpr ⟨rfl, rfl⟩

theorem validateUniquePorts_nodup {site : PortsSite} {ports : List Port}
    (h : (ports.map Port.name).Nodup) : Clean (validateUniquePorts site ports : Compile δ Unit) [] () := by
  have none : duplicateNames ports = [] := by
    rw [duplicateNames, List.dedup_eq_nil, List.filter_eq_nil_iff]
    intro name _ twice
    have once := List.nodup_iff_count_le_one.mp h name
    have more := of_decide_eq_true twice
    omega
  rw [validateUniquePorts, if_pos none]
  exact clean_pure.mpr ⟨rfl, rfl⟩

theorem clean_of_nodesRun {g : Graph} {l : Level} {upstream : Dict String (List String)}
    {nodes : List GraphNode} {lookup last : NodeLookup} {log : List (Emitted δ)}
    (h : NodesRun (Compiles rec) g l upstream nodes lookup log last) :
    Clean (compileNodes rec g l upstream nodes lookup) log last := by
  induction h with
  | nil lookup => exact clean_pure.mpr ⟨rfl, rfl⟩
  | cons head tail ih => exact clean_bind.mpr ⟨_, _, _, head, ih, rfl⟩

theorem clean_of_levelRun {g : Graph} {l : Level} {log : List (Emitted δ)} {out : Sources}
    (h : LevelRun (Compiles rec) g l log out) : Clean (compileGraphWith rec g l) log out := by
  obtain ⟨endpoints, acyclic, inputs, outputs, order, nodes, bound⟩ := h
  have ordered : Clean (ofExcept (orderedNodes g (upstreamOf g)) : Compile δ (List GraphNode)) [] _ :=
    ⟨congrArg (Emit.mk []) order, rfl⟩
  rw [compileGraphWith, endpoints, acyclic]
  refine clean_bind.mpr ⟨_, _, _, refuseOn_nil, ?_, (List.nil_append _).symm⟩
  refine clean_bind.mpr ⟨_, _, _, refuseOn_nil, ?_, (List.nil_append _).symm⟩
  refine clean_bind.mpr ⟨_, _, _, validateUniquePorts_nodup inputs, ?_, (List.nil_append _).symm⟩
  refine clean_bind.mpr ⟨_, _, _, validateUniquePorts_nodup outputs, ?_, (List.nil_append _).symm⟩
  refine clean_bind.mpr ⟨_, _, _, ordered, ?_, (List.nil_append _).symm⟩
  exact clean_bind.mpr ⟨_, _, _, clean_of_nodesRun nodes, bound, (List.append_nil _).symm⟩

theorem clean_of_bodyRun {a : Seat} {loop : Loop} {boundary : Sources} {log : List (Emitted δ)}
    {out : Sources} (h : BodyRun (Compiles rec) a loop boundary log out) :
    Clean (compileBody rec a loop (a.scope.child loopBodySegment) boundary) log out := by
  unfold BodyRun at h
  unfold compileBody
  cases hbody : loop.body with
  | inl ref =>
    rw [hbody] at h
    exact h
  | inr g =>
    rw [hbody] at h
    exact clean_of_levelRun h

theorem clean_of_loopRun {a : Seat} {loop : Loop} {inputs outputs : List Port} {bound body : Sources}
    {log : List (Emitted δ)} {feedback : List ResolvedPortBinding} {continuation : PortAddress}
    (h : LoopRun (Compiles rec) w a loop inputs outputs bound log body feedback continuation) :
    Clean (compileBounded w rec a loop inputs outputs)
      (log ++ [.loop (loopResolution a loop inputs outputs bound body (atomicsOf log) feedback continuation)])
      (exportedSources (loopExports a.levelScope a.node.id outputs body loop.continueFrom)) := by
  have lawful : Clean (emitFaults (loop.feedback.entries.flatMap
      (feedbackFaults a.scope (portsByName inputs) (portsByName outputs))) : Compile δ Unit) [] () :=
    clean_emitFaults.mpr ⟨h.lawful, rfl⟩
  have continues : Clean (emitFaults (continueFaults w.hashing a.scope (portsByName outputs)
      loop.continueFrom) : Compile δ Unit) [] () := clean_emitFaults.mpr ⟨h.continues, rfl⟩
  have nonempty : Clean (emitFaults (if atomicsOf log = [] then [Fault.emptyLoop a.scope] else []) :
      Compile δ Unit) [] () := by
    rw [if_neg h.nonempty]
    exact clean_emitFaults.mpr ⟨rfl, rfl⟩
  refine clean_bind.mpr ⟨_, _, _, validateUniquePorts_nodup h.inputNames, ?_, (List.nil_append _).symm⟩
  refine clean_bind.mpr ⟨_, _, _, validateUniquePorts_nodup h.outputNames, ?_, (List.nil_append _).symm⟩
  refine clean_bind.mpr ⟨_, _, _, lawful, ?_, (List.nil_append _).symm⟩
  refine clean_bind.mpr ⟨_, _, _, continues, ?_, (List.nil_append _).symm⟩
  refine clean_bind.mpr ⟨_, _, _, h.seeded, ?_, (List.nil_append _).symm⟩
  refine clean_bind.mpr ⟨_, (body, log), _, clean_listen.mpr ⟨clean_of_bodyRun h.ran, rfl⟩, ?_, rfl⟩
  refine clean_bind.mpr ⟨_, _, _, nonempty, ?_, (List.nil_append _).symm⟩
  refine clean_bind.mpr ⟨_, _, _, h.fedBack, ?_, (List.nil_append _).symm⟩
  refine clean_bind.mpr ⟨_, _, _, h.continued, ?_, (List.nil_append _).symm⟩
  refine clean_bind.mpr ⟨_, (), [], clean_tell.mpr ⟨rfl, rfl⟩, ?_, rfl⟩
  exact clean_pure.mpr ⟨rfl, rfl⟩

theorem clean_of_atomic {a : Seat} {ref : Ref} {stored : StoredVersion} {grants : EffectiveGrants}
    {bound out : Sources} {before log : List (Emitted δ)} {p : PythonRef}
    (run : RefRun w a ref stored grants bound before) (opens : stored.definition.body = .python p)
    (h : Clean (registerAtomic w a stored.definition bound ref grants) log out) :
    Clean (compileNodeWith w rec a) (before ++ log) out := by
  obtain ⟨resolved, recorded, rfl, hr, hrecord⟩ := run.resolved
  rw [compileNodeWith, List.append_assoc]
  simp only [run.node]
  refine clean_bind.mpr ⟨resolved, some stored, recorded ++ log, hr, ?_, rfl⟩
  refine clean_bind.mpr ⟨[], grants, _, run.granted, ?_, (List.nil_append _).symm⟩
  refine clean_bind.mpr ⟨recorded, (), _, hrecord, ?_, rfl⟩
  refine clean_bind.mpr ⟨[], bound, _, run.bound, ?_, (List.nil_append _).symm⟩
  simp only [opens]
  exact h

theorem clean_of_composite {a : Seat} {ref : Ref} {stored : StoredVersion} {grants : EffectiveGrants}
    {bound out : Sources} {before log : List (Emitted δ)} {g : Graph}
    (run : RefRun w a ref stored grants bound before) (opens : stored.definition.body = .graph g)
    (honest : boundaryLie w.hashing stored a.scope = none)
    (h : LevelRun (Compiles rec) g (levelOfComposite a stored bound grants) log out) :
    Clean (compileNodeWith w rec a) (before ++ log) out := by
  obtain ⟨resolved, recorded, rfl, hr, hrecord⟩ := run.resolved
  rw [compileNodeWith, List.append_assoc]
  simp only [run.node]
  refine clean_bind.mpr ⟨resolved, some stored, recorded ++ log, hr, ?_, rfl⟩
  refine clean_bind.mpr ⟨[], grants, _, run.granted, ?_, (List.nil_append _).symm⟩
  refine clean_bind.mpr ⟨recorded, (), _, hrecord, ?_, rfl⟩
  refine clean_bind.mpr ⟨[], bound, _, run.bound, ?_, (List.nil_append _).symm⟩
  simp only [opens, compileComposite, honest]
  exact clean_of_levelRun h

theorem clean_of_inline {a : Seat} {g : Graph} {bound out : Sources} {log : List (Emitted δ)}
    (node : a.node.body = .graph g)
    (inputs : Clean (bindNodeInputs a g.inputs : Compile δ Sources) [] bound)
    (h : LevelRun (Compiles rec) g (levelOfInline a bound) log out) :
    Clean (compileNodeWith w rec a) log out := by
  rw [compileNodeWith]
  simp only [node]
  exact clean_bind.mpr ⟨[], bound, _, inputs, clean_of_levelRun h, (List.nil_append _).symm⟩

theorem clean_of_loop {a : Seat} {loop : Loop} {before : List (Emitted δ)} {inputs outputs : List Port}
    {bound body : Sources} {log : List (Emitted δ)} {feedback : List ResolvedPortBinding}
    {continuation : PortAddress} (node : a.node.body = .loop loop) (top : a.loopDepth = 0)
    (boundary : Clean (loopBoundary w loop (a.scope.child loopBodySegment)) before (some (inputs, outputs)))
    (h : LoopRun (Compiles rec) w a loop inputs outputs bound log body feedback continuation) :
    Clean (compileNodeWith w rec a) (before ++ (log ++ [.loop (loopResolution a loop inputs outputs bound
      body (atomicsOf log) feedback continuation)]))
      (exportedSources (loopExports a.levelScope a.node.id outputs body loop.continueFrom)) := by
  rw [compileNodeWith]
  simp only [node]
  rw [if_neg (not_not.mpr top)]
  exact clean_bind.mpr ⟨before, some (inputs, outputs), _, boundary, clean_of_loopRun h, rfl⟩

end Assembly

theorem compileNode_rules {w : World δ} {P : ℕ → Seat → List (Emitted δ) → Sources → Prop}
    (rules : ∀ depth, CompileRules w (P depth) (P (depth + 1))) (depth : ℕ) {a : Seat}
    {log : List (Emitted δ)} {out : Sources} (h : Clean (compileNode w depth a) log out) :
    P depth a log out := by
  induction depth generalizing a log out with
  | zero => exact absurd h not_clean_raise
  | succ depth ih => exact (rules depth).turn (fun _ _ _ inner => ih inner) h

theorem compileGraph_rules {w : World δ} {P : ℕ → Seat → List (Emitted δ) → Sources → Prop}
    (rules : ∀ depth, CompileRules w (P depth) (P (depth + 1))) {depth : ℕ} {g : Graph} {l : Level}
    {log : List (Emitted δ)} {out : Sources} (h : Clean (compileGraph w depth g l) log out) :
    LevelRun (P depth) g l log out := by
  have inner : ∀ a log out, Clean (compileNode w depth a) log out → P depth a log out :=
    fun _ _ _ inner => compileNode_rules rules depth inner
  exact levelRun_of_clean inner h

theorem admitCompile_clean {adm : Admission δ} {depth : ℕ} {g : Graph} {log : List (Emitted δ)}
    (h : Clean (admitCompile adm depth g) log ()) :
    ∃ rootLog outputs, Clean (compileGraph (adm.world g) depth g (rootLevel adm g)) rootLog outputs ∧
      inputFaults g adm.inputs = [] ∧ unusedPinFaults adm.resolutionLock (pinsOf rootLog) = [] ∧
      log = rootLog ++ (outputBindings g outputs).map .binding := by
  obtain ⟨_, _, _, hui, h₁, rfl⟩ := clean_bind.mp h
  obtain ⟨rfl, -⟩ := nodup_of_validateUniquePorts hui
  obtain ⟨_, _, _, huo, h₂, rfl⟩ := clean_bind.mp h₁
  obtain ⟨rfl, -⟩ := nodup_of_validateUniquePorts huo
  obtain ⟨_, _, _, hif, h₃, rfl⟩ := clean_bind.mp h₂
  obtain ⟨inputs, rfl⟩ := clean_emitFaults.mp hif
  obtain ⟨_, ⟨outputs, rootLog⟩, _, hroot, h₄, rfl⟩ := clean_bind.mp h₃
  obtain ⟨hgraph, hlog⟩ := clean_listen.mp hroot
  subst hlog
  obtain ⟨_, _, _, hbind, hpins, rfl⟩ := clean_bind.mp h₄
  obtain rfl := Emit.tellAll_returns.mp hbind.1
  obtain ⟨pins, rfl⟩ := clean_emitFaults.mp hpins
  exact ⟨rootLog, outputs, hgraph, inputs, pins, by rw [List.append_nil]; rfl⟩

theorem clean_admitCompile {adm : Admission δ} {depth : ℕ} {g : Graph} {log : List (Emitted δ)}
    {outputs : Sources} (inputNames : (g.inputs.map Port.name).Nodup)
    (outputNames : (g.outputs.map Port.name).Nodup)
    (h : Clean (compileGraph (adm.world g) depth g (rootLevel adm g)) log outputs)
    (inputs : inputFaults g adm.inputs = [])
    (pins : unusedPinFaults adm.resolutionLock (pinsOf log) = []) :
    Clean (admitCompile adm depth g) (log ++ (outputBindings g outputs).map .binding) () := by
  have noInput : Clean (emitFaults (inputFaults g adm.inputs) : Compile δ Unit) [] () :=
    clean_emitFaults.mpr ⟨inputs, rfl⟩
  have noPin : Clean (emitFaults (unusedPinFaults adm.resolutionLock (pinsOf log)) : Compile δ Unit) [] () :=
    clean_emitFaults.mpr ⟨pins, rfl⟩
  have bound : Clean (Emit.tellAll ((outputBindings g outputs).map .binding) : Compile δ Unit)
      ((outputBindings g outputs).map .binding) () := by
    refine ⟨rfl, ?_⟩
    rw [faultsOf, List.filterMap_map, List.filterMap_eq_nil_iff]
    exact fun _ _ => rfl
  refine clean_bind.mpr ⟨[], (), _, validateUniquePorts_nodup inputNames, ?_, rfl⟩
  refine clean_bind.mpr ⟨[], (), _, validateUniquePorts_nodup outputNames, ?_, rfl⟩
  refine clean_bind.mpr ⟨[], (), _, noInput, ?_, rfl⟩
  refine clean_bind.mpr ⟨log, (outputs, log), _, clean_listen.mpr ⟨h, rfl⟩, ?_, rfl⟩
  exact clean_bind.mpr ⟨_, (), [], bound, noPin, (List.append_nil _).symm⟩

theorem admit_level {adm : Admission δ} {depth : ℕ} {g : Graph} {m : ExecutionManifest δ}
    {P : ℕ → Seat → List (Emitted δ) → Sources → Prop}
    (rules : ∀ depth, CompileRules (adm.world g) (P depth) (P (depth + 1)))
    (h : admitGraph adm depth g = .ok m) :
    ∃ log outputs, LevelRun (P depth) g (rootLevel adm g) log outputs ∧
      inputFaults g adm.inputs = [] ∧ unusedPinFaults adm.resolutionLock (pinsOf log) = [] ∧
      m = sealManifest adm g (log ++ (outputBindings g outputs).map .binding) := by
  obtain ⟨log, clean, rfl⟩ := clean_of_admit h
  obtain ⟨rootLog, outputs, root, inputs, pins, same⟩ := admitCompile_clean clean
  exact ⟨rootLog, outputs, compileGraph_rules rules root, inputs, pins, by rw [same]⟩

end Constructicon
