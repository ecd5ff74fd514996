import Constructicon.Closedness
import Constructicon.CompileRules

/-!
# Authority only narrows

Every reference recomputes the grants of what it names from the grants around it. A request
that is not refused stays inside its parent (`Narrower`), and a clean compilation refuses
none, so along every descent through references, inline graphs and loops each level stands
inside all the levels around it, and every capability binding inside the root.
-/

namespace Constructicon

variable {δ : Type}

/-- `child` allows nothing that `parent` does not. -/
structure Narrower (child parent : EffectiveGrants) : Prop where
  posture : child.posture = .write → parent.posture = .write
  tools : child.allowedTools ⊆ parent.allowedTools
  environment : child.envAllowlist ⊆ parent.envAllowlist
  network : child.network = .allow → parent.network = .allow
  timeout : child.timeoutS ≤ parent.timeoutS

theorem Narrower.refl (g : EffectiveGrants) : Narrower g g :=
  ⟨id, List.Subset.refl _, List.Subset.refl _, id, le_rfl⟩

theorem Narrower.trans {a b c : EffectiveGrants} (h : Narrower a b) (h' : Narrower b c) :
    Narrower a c where
  posture write := h'.posture (h.posture write)
  tools := List.Subset.trans h.tools h'.tools
  environment := List.Subset.trans h.environment h'.environment
  network allow := h'.network (h.network allow)
  timeout := h.timeout.trans h'.timeout

theorem subset_of_filter_nil {requested held : List String}
    (h : requested.filter (· ∉ held) = []) : requested ⊆ held := by
  intro x hx
  by_contra out
  have kept : x ∈ requested.filter (· ∉ held) := List.mem_filter.mpr ⟨hx, by simpa using out⟩
  rw [h] at kept
  cases kept

theorem unguarded {p : Prop} [Decidable p] {f : Fault} (h : (if p then [f] else []) = []) : ¬ p := by
  intro hp
  rw [if_pos hp] at h
  cases h

theorem narrowedGrants_narrower {parent : EffectiveGrants} {request : GrantRequest} {scope : ScopePath}
    (h : wideningFaults parent request scope = []) : Narrower (narrowedGrants parent request) parent := by
  simp only [wideningFaults, List.append_eq_nil_iff] at h
  obtain ⟨⟨⟨⟨posture, tools⟩, environment⟩, network⟩, timeout⟩ := h
  constructor
  · intro write
    have kept := unguarded posture
    cases hp : parent.posture with
    | read => exact absurd ⟨write, hp⟩ kept
    | write => rfl
  · exact subset_of_filter_nil (not_not.mp (unguarded tools))
  · exact subset_of_filter_nil (not_not.mp (unguarded environment))
  · intro allow
    have kept := unguarded network
    cases hp : parent.network with
    | allow => rfl
    | none =>
      cases hr : request.network with
      | inherit =>
        simp only [narrowedGrants, hr] at allow
        exact absurd (hp.symm.trans allow) (by simp)
      | mode m =>
        simp only [narrowedGrants, hr] at allow
        exact absurd ⟨by rw [hr, allow], hp⟩ kept
  · cases ht : request.timeoutS with
    | none => simp [narrowedGrants, ht]
    | some t =>
      simp only [ht] at timeout
      simpa [narrowedGrants, ht] using unguarded timeout

def narrowBy (parent : EffectiveGrants) (ref : Ref) : EffectiveGrants :=
  match ref.grants with
  | none => parent
  | some request => narrowedGrants parent request

theorem compileGrants_narrows {parent : EffectiveGrants} {ref : Ref} {scope : ScopePath}
    {l : List (Emitted δ)} {grants : EffectiveGrants}
    (h : Clean (compileGrants parent ref.grants scope) l grants) :
    grants = narrowBy parent ref ∧ Narrower grants parent := by
  unfold narrowBy
  cases hr : ref.grants with
  | none =>
    rw [hr] at h
    obtain ⟨-, rfl⟩ := clean_pure.mp h
    exact ⟨rfl, Narrower.refl _⟩
  | some request =>
    rw [hr] at h
    obtain ⟨l₁, _, l₂, hf, htail, rfl⟩ := clean_bind.mp h
    obtain ⟨none, rfl⟩ := clean_emitFaults.mp hf
    rw [if_pos none] at htail
    obtain ⟨-, rfl⟩ := clean_pure.mp htail
    exact ⟨rfl, narrowedGrants_narrower none⟩

/-! ## Paths of enclosing references -/

/-- References one inside another, outermost first, each with the scope it compiles at. -/
abbrev RefPath := List (ScopePath × Ref)

inductive Descent (w : World δ) : ScopePath → GraphNode → RefPath → Prop
  | ref {scope : ScopePath} {n : GraphNode} {ref : Ref} (body : n.body = .ref ref) :
      Descent w scope n [(scope.child n.id, ref)]
  | composite {scope : ScopePath} {n m : GraphNode} {ref : Ref} {stored : StoredVersion} {g : Graph}
      {path : RefPath} (body : n.body = .ref ref)
      (selected : selectVersion w.snapshot ref (scope.child n.id) w.resolutionLock = some stored)
      (opens : stored.definition.body = .graph g) (node : m ∈ g.nodes)
      (inner : Descent w (scope.child n.id) m path) : Descent w scope n ((scope.child n.id, ref) :: path)
  | inline {scope : ScopePath} {n m : GraphNode} {g : Graph} {path : RefPath} (body : n.body = .graph g)
      (node : m ∈ g.nodes) (inner : Descent w (scope.child n.id) m path) : Descent w scope n path
  | loopGraph {scope : ScopePath} {n m : GraphNode} {loop : Loop} {g : Graph} {path : RefPath}
      (body : n.body = .loop loop) (opens : loop.body = .inr g) (node : m ∈ g.nodes)
      (inner : Descent w ((scope.child n.id).child loopBodySegment) m path) : Descent w scope n path
  | loopRef {scope : ScopePath} {n : GraphNode} {loop : Loop} {ref : Ref} {path : RefPath}
      (body : n.body = .loop loop) (opens : loop.body = .inl ref)
      (inner : Descent w ((scope.child n.id).child loopBodySegment) ⟨"$body", .ref ref⟩ path) :
      Descent w scope n path

section Inversion

variable {w : World δ} {scope : ScopePath} {n : GraphNode} {path : RefPath}

theorem Descent.of_ref {ref : Ref} (h : Descent w scope n path) (body : n.body = .ref ref) :
    path = [(scope.child n.id, ref)] ∨ ∃ stored g inner,
      selectVersion w.snapshot ref (scope.child n.id) w.resolutionLock = some stored ∧
        stored.definition.body = .graph g ∧ path = (scope.child n.id, ref) :: inner ∧
          ∃ m ∈ g.nodes, Descent w (scope.child n.id) m inner := by
  cases h with
  | ref other =>
    obtain rfl := Body.ref.inj (body.symm.trans other)
    exact .inl rfl
  | composite other selected opens node inner =>
    obtain rfl := Body.ref.inj (body.symm.trans other)
    exact .inr ⟨_, _, _, selected, opens, rfl, _, node, inner⟩
  | inline other => exact absurd (body.symm.trans other) (by simp)
  | loopGraph other => exact absurd (body.symm.trans other) (by simp)
  | loopRef other => exact absurd (body.symm.trans other) (by simp)

theorem Descent.of_graph {g : Graph} (h : Descent w scope n path) (body : n.body = .graph g) :
    ∃ m ∈ g.nodes, Descent w (scope.child n.id) m path := by
  cases h with
  | inline other node inner =>
    obtain rfl := Body.graph.inj (body.symm.trans other)
    exact ⟨_, node, inner⟩
  | ref other => exact absurd (body.symm.trans other) (by simp)
  | composite other => exact absurd (body.symm.trans other) (by simp)
  | loopGraph other => exact absurd (body.symm.trans other) (by simp)
  | loopRef other => exact absurd (body.symm.trans other) (by simp)

theorem Descent.of_loop {loop : Loop} (h : Descent w scope n path) (body : n.body = .loop loop) :
    (∀ g, loop.body = .inr g →
      ∃ m ∈ g.nodes, Descent w ((scope.child n.id).child loopBodySegment) m path) ∧
    ∀ ref, loop.body = .inl ref →
      Descent w ((scope.child n.id).child loopBodySegment) ⟨"$body", .ref ref⟩ path := by
  cases h with
  | loopGraph other opens node inner =>
    obtain rfl := Body.loop.inj (body.symm.trans other)
    refine ⟨fun g here => ?_, fun ref here => absurd (opens.symm.trans here) (by simp)⟩
    obtain rfl := Sum.inr.inj (opens.symm.trans here)
    exact ⟨_, node, inner⟩
  | loopRef other opens inner =>
    obtain rfl := Body.loop.inj (body.symm.trans other)
    refine ⟨fun g here => absurd (opens.symm.trans here) (by simp), fun ref here => ?_⟩
    obtain rfl := Sum.inl.inj (opens.symm.trans here)
    exact inner
  | ref other => exact absurd (body.symm.trans other) (by simp)
  | composite other => exact absurd (body.symm.trans other) (by simp)
  | inline other => exact absurd (body.symm.trans other) (by simp)

end Inversion

def PathIn (w : World δ) (g : Graph) (path : RefPath) : Prop :=
  ∃ n ∈ g.nodes, Descent w [g.name] n path

def grantsAlong (root : EffectiveGrants) (path : RefPath) : EffectiveGrants :=
  path.foldl (fun grants step => narrowBy grants step.2) root

@[simp] theorem grantsAlong_nil (root : EffectiveGrants) : grantsAlong root [] = root := rfl

@[simp] theorem grantsAlong_cons (root : EffectiveGrants) (step : ScopePath × Ref) (path : RefPath) :
    grantsAlong root (step :: path) = grantsAlong (narrowBy root step.2) path := rfl

def Descends (root : EffectiveGrants) (path : RefPath) : Prop :=
  ∀ outer inner, path = outer ++ inner → Narrower (grantsAlong root path) (grantsAlong root outer)

theorem Descends.nil (root : EffectiveGrants) : Descends root [] := by
  intro outer inner split
  obtain ⟨rfl, -⟩ := List.append_eq_nil_iff.mp split.symm
  exact Narrower.refl _

theorem Descends.cons {root : EffectiveGrants} {step : ScopePath × Ref} {path : RefPath}
    (h : Narrower (narrowBy root step.2) root) (tail : Descends (narrowBy root step.2) path) :
    Descends root (step :: path) := by
  intro outer inner split
  rw [grantsAlong_cons]
  cases outer with
  | nil => exact (tail [] path rfl).trans h
  | cons first outer =>
    obtain ⟨rfl, rest⟩ := List.cons.inj split
    exact tail outer inner rest

def GrantedBy (root : EffectiveGrants) (c : CapabilityBinding) (path : RefPath) : Prop :=
  path.getLast?.map Prod.fst = some c.scope ∧ c.effectiveGrants = grantsAlong root path

theorem GrantedBy.cons {root : EffectiveGrants} {c : CapabilityBinding} {step : ScopePath × Ref}
    {path : RefPath} (h : GrantedBy (narrowBy root step.2) c path) : GrantedBy root c (step :: path) := by
  refine ⟨?_, h.2⟩
  cases path with
  | nil => cases h.1
  | cons next path =>
    rw [List.getLast?_cons_cons]
    exact h.1

/-! ## Every clean node -/

structure NodeGrants (w : World δ) (a : Seat) (log : List (Emitted δ)) : Prop where
  descends : ∀ path, Descent w a.levelScope a.node path → Descends a.grants path
  granted : ∀ c ∈ capabilitiesOf log, ∃ path, Descent w a.levelScope a.node path ∧
    GrantedBy a.grants c path

structure LevelGrants (w : World δ) (g : Graph) (l : Level) (log : List (Emitted δ)) : Prop where
  descends : ∀ n ∈ g.nodes, ∀ path, Descent w l.scope n path → Descends l.grants path
  granted : ∀ c ∈ capabilitiesOf log, ∃ n ∈ g.nodes, ∃ path, Descent w l.scope n path ∧
    GrantedBy l.grants c path

theorem mem_capabilitiesOf {log : List (Emitted δ)} {c : CapabilityBinding} :
    c ∈ capabilitiesOf log ↔ .capability c ∈ log := by
  unfold capabilitiesOf
  rw [List.mem_filterMap]
  constructor
  · rintro ⟨e, he, found⟩
    cases e with
    | capability d =>
      obtain rfl := Option.some.inj found
      exact he
    | _ => cases found
  · exact fun h => ⟨_, h, rfl⟩

theorem levelGrants_of_run {w : World δ} {g : Graph} {l : Level} {log : List (Emitted δ)}
    {out : Sources} (h : LevelRun (fun a log _ => NodeGrants w a log) g l log out) :
    LevelGrants w g l log := by
  constructor
  · intro n hn
    obtain ⟨lookup, log, out, node⟩ := h.each n hn
    exact node.descends
  · intro c hc
    obtain ⟨n, hn, lookup, inner, out, node, logged⟩ := h.logged _ (mem_capabilitiesOf.mp hc)
    obtain ⟨path, descent, granted⟩ := node.granted c (mem_capabilitiesOf.mpr logged)
    exact ⟨n, hn, path, descent, granted⟩

theorem RefRun.narrows {w : World δ} {a : Seat} {ref : Ref} {stored : StoredVersion}
    {grants : EffectiveGrants} {bound : Sources} {log : List (Emitted δ)}
    (h : RefRun w a ref stored grants bound log) :
    grants = narrowBy a.grants ref ∧ Narrower grants a.grants ∧ capabilitiesOf log = [] ∧
      selectVersion w.snapshot ref a.scope w.resolutionLock = some stored := by
  obtain ⟨same, narrower⟩ := compileGrants_narrows h.granted
  obtain ⟨selected, r, rfl, -⟩ := h.entries
  refine ⟨same, narrower, ?_, selected⟩
  have pins : capabilitiesOf (pinEntries w a.scope) = [] := filterMap_pinEntries (fun _ => rfl) w a.scope
  rw [capabilitiesOf_append, pins]
  rfl

theorem grants_rules (w : World δ) :
    CompileRules w (fun a log _ => NodeGrants w a log) (fun a log _ => NodeGrants w a log) where
  atomic := by
    intro a ref stored grants bound before p log out run opens h
    obtain ⟨rfl, narrower, quiet, selected⟩ := run.narrows
    constructor
    · intro path descent
      rcases descent.of_ref run.node with rfl | ⟨other, g, inner, found, composite, -⟩
      · exact .cons narrower (.nil _)
      · obtain rfl := Option.some.inj (selected.symm.trans found)
        exact absurd (opens.symm.trans composite) (by simp)
    · intro c hc
      obtain ⟨-, capabilities, all, rfl⟩ := registerAtomic_entries h
      have logged := mem_capabilitiesOf.mp hc
      rcases List.mem_append.mp logged with early | logged
      · rw [← mem_capabilitiesOf, quiet] at early
        cases early
      · rcases List.mem_append.mp logged with bindings | logged
        · obtain ⟨b, -, other⟩ := List.mem_map.mp bindings
          cases other
        · rcases List.mem_append.mp logged with logged | last
          · obtain ⟨d, same, scope, granted⟩ := all _ logged
            obtain rfl := Emitted.capability.inj same
            exact ⟨_, .ref run.node, by simp [scope, Seat.scope], granted⟩
          · cases List.mem_singleton.mp last
  composite := by
    intro a ref stored grants bound before g log out run opens _ level
    obtain ⟨rfl, narrower, quiet, selected⟩ := run.narrows
    have inner := levelGrants_of_run level
    constructor
    · intro path descent
      rcases descent.of_ref run.node with rfl | ⟨other, h, path, found, composite, rfl, m, node, below⟩
      · exact .cons narrower (.nil _)
      · obtain rfl := Option.some.inj (selected.symm.trans found)
        obtain rfl := ComponentBody.graph.inj (opens.symm.trans composite)
        exact .cons narrower (inner.descends m node path below)
    · intro c hc
      rw [capabilitiesOf_append, quiet, List.nil_append] at hc
      obtain ⟨m, node, path, descent, granted⟩ := inner.granted c hc
      have narrowed : GrantedBy (narrowBy a.grants ref) c path := granted
      exact ⟨_, .composite run.node selected opens node descent, narrowed.cons⟩
  inline := by
    intro a g bound log out opens _ level
    have inner := levelGrants_of_run level
    constructor
    · intro path descent
      obtain ⟨m, node, below⟩ := descent.of_graph opens
      exact inner.descends m node path below
    · intro c hc
      obtain ⟨m, node, path, descent, granted⟩ := inner.granted c hc
      exact ⟨path, .inline opens node descent, granted⟩
  loop := by
    intro a loop before inputs outputs bound log body feedback continuation opens _ boundary run
    have quiet : capabilitiesOf before = [] := by
      rcases loopBoundary_entries boundary with rfl | rfl
      · rfl
      · exact filterMap_pinEntries (fun _ => rfl) w _
    have ran := run.ran
    unfold BodyRun at ran
    cases hb : loop.body with
    | inl ref =>
      rw [hb] at ran
      constructor
      · intro path descent
        exact ran.descends path ((descent.of_loop opens).2 ref hb)
      · intro c hc
        rw [capabilitiesOf_append, quiet, List.nil_append, capabilitiesOf_append] at hc
        rcases List.mem_append.mp hc with hc | hc
        · obtain ⟨path, descent, granted⟩ := ran.granted c hc
          exact ⟨path, .loopRef opens hb descent, granted⟩
        · cases hc
    | inr g =>
      rw [hb] at ran
      have inner := levelGrants_of_run ran
      constructor
      · intro path descent
        obtain ⟨m, node, below⟩ := (descent.of_loop opens).1 g hb
        exact inner.descends m node path below
      · intro c hc
        rw [capabilitiesOf_append, quiet, List.nil_append, capabilitiesOf_append] at hc
        rcases List.mem_append.mp hc with hc | hc
        · obtain ⟨m, node, path, descent, granted⟩ := inner.granted c hc
          exact ⟨path, .loopGraph opens hb node descent, granted⟩
        · cases hc

/-- In an admitted graph each level stands inside all the levels around it, and every
capability binding inside the root. -/
theorem authority_narrows {adm : Admission δ} {depth : ℕ} {g : Graph} {m : ExecutionManifest δ}
    (h : admitGraph adm depth g = .ok m) :
    (∀ path, PathIn (adm.world g) g path → ∀ outer inner, path = outer ++ inner →
      Narrower (grantsAlong adm.rootGrants path) (grantsAlong adm.rootGrants outer)) ∧
    ∀ c ∈ m.capabilityBindings, Narrower c.effectiveGrants adm.rootGrants ∧
      ∃ path, PathIn (adm.world g) g path ∧ GrantedBy adm.rootGrants c path := by
  obtain ⟨log, outputs, level, -, -, rfl⟩ := admit_level (fun _ => grants_rules (adm.world g)) h
  have inner := levelGrants_of_run level
  have narrows : ∀ path, PathIn (adm.world g) g path → Descends adm.rootGrants path := by
    rintro path ⟨n, node, descent⟩
    exact inner.descends n node path descent
  refine ⟨narrows, fun c hc => ?_⟩
  have logged : c ∈ capabilitiesOf log := by
    have mem := mem_capabilitiesOf.mp hc
    rcases List.mem_append.mp mem with mem | mem
    · exact mem_capabilitiesOf.mpr mem
    · obtain ⟨b, -, other⟩ := List.mem_map.mp mem
      cases other
  obtain ⟨n, node, path, descent, granted⟩ := inner.granted c logged
  refine ⟨?_, path, ⟨n, node, descent⟩, granted⟩
  rw [granted.2]
  exact narrows path ⟨n, node, descent⟩ [] path rfl

namespace Sample

/-- A loop around `step` that allows it less time than its surroundings. -/
def hurried : Graph where
  name := "g"
  nodes := [⟨"l", .loop ⟨.inl { component := "step", grants := some { timeoutS := some 2 } },
    ⟨[("x", "x")]⟩, "again", 2⟩⟩]
  inputs := [value "x"]
  outputs := [value "x"]

def patient : Admission (String × ℕ × Json) :=
  { admission ⟨[("x", .int 0)]⟩ with rootGrants := { grants with timeoutS := 5 } }

end Sample

theorem authority_narrows_hurried :
    ∃ m, admitGraph Sample.patient 2 Sample.hurried = .ok m ∧
      m.capabilityBindings.map (fun c => c.effectiveGrants.timeoutS) = [2] ∧
        ∀ c ∈ m.capabilityBindings, Narrower c.effectiveGrants Sample.patient.rootGrants := by
  obtain ⟨m, hm, times⟩ : ∃ m, admitGraph Sample.patient 2 Sample.hurried = .ok m ∧
      m.capabilityBindings.map (fun c => c.effectiveGrants.timeoutS) = [2] := ⟨_, rfl, rfl⟩
  exact ⟨m, hm, times, fun c hc => ((authority_narrows hm).2 c hc).1⟩

end Constructicon
