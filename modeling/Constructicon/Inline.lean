import Constructicon.ContentOrder

/-!
# A nested graph inline and by reference

The two ways to place one graph take different branches of `_compile_node`. A reference
re-tags the sources bound at its boundary with the declared ports; an inline graph
forwards them under the names their producers gave them, and binding inside goes by
those names. The forms are the same program where the sources bound at the seat already
carry the names and cardinalities of the boundary ports (`Aligned`).
-/

namespace Constructicon

variable {δ : Type}

/-! ## Placing a body -/

def mapNode (id : String) (f : Body → Body) (g : Graph) : Graph :=
  { g with nodes := g.nodes.map (fun n => if n.id = id then ⟨n.id, f n.body⟩ else n) }

/-- Put `b` at a path of node ids, descending through inline graphs and the inline
bodies of loops. -/
def placeBody (b : Body) : List String → Body → Body
  | [], _ => b
  | id :: path, .graph g => .graph (mapNode id (placeBody b path) g)
  | id :: path, .loop ⟨.inr g, feedback, continueFrom, maxIterations⟩ =>
    .loop ⟨.inr (mapNode id (placeBody b path) g), feedback, continueFrom, maxIterations⟩
  | _ :: _, body => body

/-- The graph `g` with `b` at the node `id`, or below it at `path`. -/
def place (g : Graph) (id : String) (path : List String) (b : Body) : Graph :=
  mapNode id (placeBody b path) g

theorem mapNode_alike (id : String) (f f' : Body → Body) (g : Graph) :
    GraphAlike (mapNode id f g) (mapNode id f' g) := by
  have hids : ∀ f : Body → Body, nodeIds (mapNode id f g) = nodeIds g := by
    intro f
    simp only [nodeIds, mapNode, List.map_map]
    refine List.map_congr_left fun n _ => ?_
    rw [Function.comp_apply]
    split_ifs <;> rfl
  exact ⟨rfl, by rw [hids f, hids f'], rfl, rfl, rfl⟩

theorem mem_nodePairs_mapNode {id : String} {f f' : Body → Body} {g : Graph}
    {p : GraphNode × GraphNode} (h : p ∈ nodePairs (mapNode id f g) (mapNode id f' g)) :
    p.1 = p.2 ∨ ∃ body, p = (⟨id, f body⟩, ⟨id, f' body⟩) := by
  rw [nodePairs, mapNode, mapNode, List.zip_map', List.mem_map] at h
  obtain ⟨n, -, rfl⟩ := h
  split_ifs with hn
  · exact .inr ⟨n.body, by rw [hn]⟩
  · exact .inl rfl

/-! ## The seats a placement is reached at -/

def inlineLevel (a : Seat) (bound : Sources) : Level where
  scope := a.scope
  inputSources := bound
  grants := a.grants
  loopDepth := a.loopDepth
  location := a.location

def bodyLevel (a : Seat) (ins : List Port) (bound : Sources) : Level where
  scope := a.scope.child loopBodySegment
  inputSources := boundaryOf a ins bound
  grants := a.grants
  loopDepth := 1
  location := a.location.child [.inl "body"]

/-- The seats below `a` at which the nodes of its inline graph or loop body compile. -/
inductive Visits (rec : Seat → Compile δ Sources) (a : Seat) : Seat → Prop where
  | inline {g : Graph} (hbody : a.node.body = .graph g) {log : List (Emitted δ)} {bound : Sources}
      (hbound : (bindNodeInputs a g.inputs).Returns log bound) {b : Seat}
      (h : LevelVisits rec g (inlineLevel a bound) b) : Visits rec a b
  | loop {g : Graph} {feedback : Dict String String} {continueFrom : String} {maxIterations : ℕ+}
      (hbody : a.node.body = .loop ⟨.inr g, feedback, continueFrom, maxIterations⟩)
      {log : List (Emitted δ)} {bound : Sources}
      (hbound : (bindNodeInputs a g.inputs feedback.keys).Returns log bound) {b : Seat}
      (h : LevelVisits rec g (bodyLevel a g.inputs bound) b) : Visits rec a b

/-- `Q` holds at the seat reached from `a` along a path of node ids. -/
def AtPath (w : World δ) (Q : Seat → Prop) : ℕ → List String → Seat → Prop
  | _, [], a => Q a
  | 0, _ :: _, _ => True
  | depth + 1, id :: path, a =>
    ∀ b, Visits (compileNode w depth) a b → b.node.id = id → AtPath w Q depth path b

/-- Every source bound at the boundary of `g` carries the name and cardinality of the
port it is bound to. -/
def Aligned (δ : Type) (g : Graph) (a : Seat) : Prop :=
  ∀ (log : List (Emitted δ)) bound, Clean (bindNodeInputs a g.inputs) log bound →
    ∀ e ∈ bound.entries, ∀ s ∈ e.2, ∀ p ∈ g.inputs, p.name = e.1 →
      s.port.name = p.name ∧ s.port.cardinality = p.cardinality

/-! ## The two branches of one node -/

/-- A reference without grants of its own to a registered composite of graph `g`. -/
structure RegisteredAs (adm : Admission δ) (ref : Ref) (g : Graph) (stored : StoredVersion) : Prop where
  selected : selectVersion adm.snapshot ref [] none = some stored
  body : stored.definition.body = .graph g
  schemas : embeddedSchemaFaults adm.hashing stored.definition = []
  inputs : sameBoundary stored.definition.inputs g.inputs = true
  outputs : sameBoundary stored.definition.outputs g.outputs = true
  bind : ref.bind = .empty
  grants : ref.grants = none

def bindingRel (δ : Type) : LogRel δ where
  Rel := fun _ l l' => bindingsOf l = bindingsOf l' ∧ atomicsOf l = atomicsOf l'
  nil := ⟨rfl, rfl⟩
  append := fun h h' => by simp [h.1, h.2, h'.1, h'.2]
  entry := fun _ => ⟨rfl, rfl⟩
  loop := fun _ => ⟨rfl, rfl⟩
  atomics := And.right

def BothWays (x y : Compile δ Sources) : Prop :=
  Sim ((bindingRel δ).Rel True) OutputsAlike x y ∧ Sim ((bindingRel δ).Rel True) OutputsAlike y x

theorem Sim.reindex {α β : Type} {P Q : Prop} {A : α → β → Prop} {x : Compile δ α} {y : Compile δ β}
    (h : Sim ((bindingRel δ).Rel P) A x y) : Sim ((bindingRel δ).Rel Q) A x y :=
  h.mono (fun _ _ hl => hl) fun _ _ => id

theorem BothWays.tell {x y : Compile δ Sources} (h : BothWays x y) {e : Emitted δ}
    (he : e.fault? = none) (hb : e.binding? = none) (ha : e.atomic? = none) :
    BothWays x (Emit.tell e >>= fun _ => y) := by
  have hnil : bindingsOf [e] = [] ∧ atomicsOf [e] = [] := by simp [bindingsOf, atomicsOf, hb, ha]
  constructor
  · intro l o hx
    obtain ⟨l', o', hy, hl, ho⟩ := h.1 l o hx
    refine ⟨[e] ++ l', o', clean_bind.mpr ⟨[e], (), l', clean_tell.mpr ⟨rfl, he⟩, hy, rfl⟩, ?_, ho⟩
    exact ⟨by rw [bindingsOf_append, hnil.1]; exact hl.1, by rw [atomicsOf_append, hnil.2]; exact hl.2⟩
  · intro l o hy
    obtain ⟨l₁, _, l₂, ht, htail, rfl⟩ := clean_bind.mp hy
    obtain ⟨rfl, -⟩ := clean_tell.mp ht
    obtain ⟨l', o', hx, hl, ho⟩ := h.2 l₂ o htail
    refine ⟨l', o', hx, ?_, ho⟩
    exact ⟨by rw [bindingsOf_append, hnil.1]; exact hl.1, by rw [atomicsOf_append, hnil.2]; exact hl.2⟩

theorem bindPorts_contract {a : Seat} {byPort : Dict String (Dict String MapEntry)}
    {feedback : List String} {ports : List Port} {bound r : Sources} {l : List (Emitted δ)}
    {all : List Port} (h : Clean (bindPorts a byPort feedback ports bound) l r) (hsub : ports ⊆ all)
    (hb : ∀ e ∈ bound.entries, ∃ p ∈ all, p.name = e.1 ∧ ∀ s ∈ e.2, s.port.contract = p.contract) :
    ∀ e ∈ r.entries, ∃ p ∈ all, p.name = e.1 ∧ ∀ s ∈ e.2, s.port.contract = p.contract := by
  induction ports generalizing bound l with
  | nil =>
    obtain ⟨-, rfl⟩ := clean_pure.mp h
    exact hb
  | cons port ports ih =>
    obtain ⟨l₁, outcome, l₂, hport, htail, rfl⟩ := clean_bind.mp h
    obtain ⟨-, ho⟩ := bindNodePort_clean hport
    obtain ⟨hmem, hsub⟩ := List.cons_subset.mp hsub
    cases outcome with
    | none => exact ih htail hsub hb
    | some sources =>
      refine ih htail hsub fun e he => ?_
      rcases Dict.mem_insert he with rfl | he
      · exact ⟨port, hmem, rfl, ho.contract⟩
      · exact hb e he

theorem bindNodeInputs_contract {a : Seat} {inputs : List Port} {bound : Sources}
    {l : List (Emitted δ)} (h : Clean (bindNodeInputs a inputs) l bound) :
    ∀ e ∈ bound.entries, ∃ p ∈ inputs, p.name = e.1 ∧ ∀ s ∈ e.2, s.port.contract = p.contract := by
  obtain ⟨_, _, _, -, hb, -⟩ := clean_bind.mp h
  exact bindPorts_contract hb (List.Subset.refl _) (by simp)

theorem retag_aligned {g : Graph} (hn : (g.inputs.map Port.name).Nodup) {a : Seat}
    (ha : Aligned δ g a) {bound : Sources} {l : List (Emitted δ)}
    (h : Clean (bindNodeInputs a g.inputs) l bound) {declared : List Port}
    (hd : declared.map normPort = g.inputs.map normPort) :
    OutputsAlike (retag declared bound) bound := by
  have hentry : ∀ e ∈ bound.entries, e.2.map (fun s =>
      (⟨s.address, (((portsByName declared).get? e.1).getD s.port).bare⟩ : Source)) =
        e.2.map Source.bare := by
    intro e he
    obtain ⟨p, hp, hname, hcontract⟩ := bindNodeInputs_contract h e he
    refine List.map_congr_left fun s hs => ?_
    obtain ⟨hsn, hsc⟩ := ha l bound h e he s hs p hp hname
    have hbare : s.port.bare = p.bare := by
      have hc := hcontract s hs
      simp only [Port.contract, Contract.mk.injEq] at hc
      exact Port.bare_eq_iff.mpr ⟨hsn, hc.1, hc.2, hsc⟩
    cases hg : (portsByName declared).get? e.1 with
    | none => rfl
    | some q =>
      obtain ⟨hq, hqn⟩ := get?_portsByName hg
      have hm : normPort q ∈ g.inputs.map normPort := hd ▸ List.mem_map.mpr ⟨q, hq, rfl⟩
      obtain ⟨p', hp', he'⟩ := List.mem_map.mp hm
      have hpq := bare_of_norm he'
      have hpp : p' = p := by
        refine List.inj_on_of_nodup_map hn hp' hp ?_
        rw [(Port.bare_eq_iff.mp hpq).1, hqn, hname]
      subst hpp
      rw [Option.getD_some, Source.bare, hbare, hpq]
  unfold OutputsAlike bareSources retag Dict.mapValues
  simp only [List.map_map, Dict.mk.injEq]
  refine List.map_congr_left fun e he => ?_
  simp only [Function.comp_apply, Prod.mk.injEq, true_and]
  rw [← hentry e he, List.map_map]
  rfl

section Placement

variable {adm : Admission δ} {ref : Ref} {g : Graph} {stored : StoredVersion} {w w' : World δ}

theorem selectVersion_of_registered (h : RegisteredAs adm ref g stored) (scope : ScopePath) :
    selectVersion adm.snapshot ref scope none = some stored := h.selected

theorem resolveRef_registered (h : RegisteredAs adm ref g stored) (hs : w.snapshot = adm.snapshot)
    (hl : w.resolutionLock = none) (scope : ScopePath) :
    resolveRef w ref scope = pure (some stored) := by
  have hsel := selectVersion_of_registered h scope
  have hcontains : adm.snapshot.versions.contains ref.component = true := by
    by_contra hc
    have hnone : ∀ version, adm.snapshot.get ref.component version = none := by
      intro version
      simp only [Dict.contains, Bool.not_eq_true, Option.isSome_eq_false_iff,
        Option.isNone_iff_eq_none] at hc
      simp [RegistrySnapshot.get, Dict.getD, hc]
    simp only [selectVersion, hnone] at hsel
    split at hsel
    · cases hsel
    · split at hsel <;> cases hsel
  have hstable : ref.version = none → ∃ stable, adm.snapshot.stableVersion ref.component = some stable := by
    intro hv
    cases hst : adm.snapshot.stableVersion ref.component with
    | some stable => exact ⟨stable, rfl⟩
    | none => simp [selectVersion, hv, hst] at hsel
  simp only [resolveRef, hs, hl, hsel, hcontains]
  cases hv : ref.version with
  | some version => rfl
  | none =>
    obtain ⟨stable, hst⟩ := hstable hv
    simp only [hst]
    rfl

theorem boundaryLie_registered (h : RegisteredAs adm ref g stored) (scope : ScopePath) :
    boundaryLie adm.hashing stored scope = none := by
  simp [boundaryLie, h.body, h.schemas, h.inputs, h.outputs]

def compositeLevel (a : Seat) (stored : StoredVersion) (bound : Sources) : Level where
  scope := a.scope
  inputSources := retag stored.definition.inputs bound
  grants := a.grants
  loopDepth := a.loopDepth
  location := ⟨[.inl "body"], some (stored.definition.name, stored.contentHash)⟩

theorem compileRef_registered (h : RegisteredAs adm ref g stored) (hs : w.snapshot = adm.snapshot)
    (hh : w.hashing = adm.hashing) (hl : w.resolutionLock = none) (rec : Seat → Compile δ Sources)
    (a : Seat) : compileRef w rec a ref = (recordResolution w stored ref a.scope >>= fun _ =>
      (bindNodeInputs a stored.definition.inputs >>= fun bound =>
        compileGraphWith rec g (compositeLevel a stored bound))) := by
  rw [compileRef, resolveRef_registered h hs hl, Emit.pure_bind]
  simp only [compileStored, compileGrants, h.grants, h.body, compileComposite, hh,
    boundaryLie_registered h, Emit.pure_bind]
  rfl

theorem swap_bothWays (h : RegisteredAs adm ref g stored) (hw : WorldAlike w w')
    (hs : w'.snapshot = adm.snapshot) (hh : w'.hashing = adm.hashing) (hl : w'.resolutionLock = none)
    {a a' : Seat} (ha : SeatAlike a a') (haligned : Aligned δ g a) (depth : ℕ) :
    BothWays (compileInline (compileNode w depth) a g) (compileRef w' (compileNode w' depth) a' ref) := by
  have hin := norm_of_sameBoundary h.inputs
  have hlevel : ∀ {log : List (Emitted δ)} {bound bound' : Sources}, (g.inputs.map Port.name).Nodup →
      Clean (bindNodeInputs a g.inputs) log bound → OutputsAlike bound bound' →
        LevelAlike (inlineLevel a bound) (compositeLevel a' stored bound') := by
    intro log bound bound' hn hc hb
    refine ⟨ha.scope, ?_, ha.grants, ha.loopDepth⟩
    exact (retag_aligned hn haligned hc hin).symm.trans (retag_alike stored.definition.inputs hb)
  rw [compileRef_registered h hs hh hl]
  refine BothWays.tell ⟨?_, ?_⟩ rfl rfl rfl
  · refine Quiet.bind (Sim.clean (bindNodeInputs_alike ha (map_bare_of_norm hin.symm) fun _ => Iff.rfl)) ?_
    rintro bound bound' ⟨hb, ⟨log, hc⟩, -⟩ l o hx
    exact (compileNode_alike (bindingRel δ) hw depth).sameLevel g
      (hlevel (inputs_nodup_of_clean hx) hc hb) l o hx
  · refine Quiet.bind (Sim.clean (bindNodeInputs_alike ha.symm (map_bare_of_norm hin) fun _ => Iff.rfl)) ?_
    rintro bound' bound ⟨hb, -, ⟨log, hc⟩⟩ l o hx
    exact (compileNode_alike (bindingRel δ) hw.symm depth).sameLevel g
      (hlevel (inputs_nodup_of_clean hx) hc hb.symm).symm l o hx

theorem level_bothWays {rec rec' : Seat → Compile δ Sources} {g₁ g₂ : Graph} (hg : GraphAlike g₁ g₂)
    {l l' : Level} (hl : LevelAlike l l')
    (hrec : ∀ b b', LevelVisits rec g₁ l b → SeatAlike b b' → (b.node, b'.node) ∈ nodePairs g₁ g₂ →
      BothWays (rec b) (rec' b')) :
    BothWays (compileGraphWith rec g₁ l) (compileGraphWith rec' g₂ l') := by
  constructor
  · refine (compileGraphWith_alike (R := bindingRel δ) (I := fun _ _ => True) hg hl ?_).reindex
    exact fun b b' hv _ hs hm => (hrec b b' hv hs hm).1
  · refine (compileGraphWith_alike (R := bindingRel δ) (I := fun _ _ => True) hg.symm hl.symm ?_).reindex
    intro b' b _ hv hs hm
    refine (hrec b b' hv hs.symm ?_).2
    have hswap : (b.node, b'.node) ∈ (g₂.nodes.zip g₁.nodes).map Prod.swap :=
      List.mem_map.mpr ⟨_, hm, rfl⟩
    rwa [List.zip_swap] at hswap

theorem same_bothWays (hw : WorldAlike w w') {a a' : Seat} (ha : SeatAlike a a')
    (hb : a.node.body = a'.node.body) (depth : ℕ) :
    BothWays (compileNode w depth a) (compileNode w' depth a') := by
  constructor
  · refine (compileNode_alike (bindingRel δ) hw depth a a' ha ?_).reindex
    rw [BodyAlike, hb]
  · refine (compileNode_alike (bindingRel δ) hw.symm depth a' a ha.symm ?_).reindex
    rw [BodyAlike, hb]

theorem placed_level {id : String} {path : List String} {G : Graph} {l l' : Level}
    (hl : LevelAlike l l') (hw : WorldAlike w w') {depth : ℕ}
    (hrec : ∀ b b' body, LevelVisits (compileNode w depth) (mapNode id (placeBody (.graph g) path) G) l b →
      b.node.id = id → SeatAlike b b' → b.node.body = placeBody (.graph g) path body →
      b'.node.body = placeBody (.ref ref) path body →
        BothWays (compileNode w depth b) (compileNode w' depth b')) :
    BothWays (compileGraphWith (compileNode w depth) (mapNode id (placeBody (.graph g) path) G) l)
      (compileGraphWith (compileNode w' depth) (mapNode id (placeBody (.ref ref) path) G) l') := by
  refine level_bothWays (mapNode_alike id _ _ G) hl fun b b' hv hs hm => ?_
  rcases mem_nodePairs_mapNode hm with he | ⟨body, he⟩
  · exact same_bothWays hw hs (congrArg NodeOf.body he) depth
  · obtain ⟨hb, hb'⟩ := Prod.mk.inj he
    exact hrec b b' body hv (by rw [hb]) hs (by rw [hb]) (by rw [hb'])

theorem placed_loop {id : String} {path : List String} {G : Graph} {feedback : Dict String String}
    {continueFrom : String} {maxIterations : ℕ+} (hw : WorldAlike w w') {a a' : Seat}
    (ha : SeatAlike a a') {depth : ℕ}
    (hlevel : ∀ (log : List (Emitted δ)) bound l l',
      Clean (bindNodeInputs a G.inputs feedback.keys) log bound → l = bodyLevel a G.inputs bound →
        LevelAlike l l' →
        BothWays (compileGraphWith (compileNode w depth) (mapNode id (placeBody (.graph g) path) G) l)
          (compileGraphWith (compileNode w' depth) (mapNode id (placeBody (.ref ref) path) G) l')) :
    BothWays (compileLoop w (compileNode w depth) a
        ⟨.inr (mapNode id (placeBody (.graph g) path) G), feedback, continueFrom, maxIterations⟩)
      (compileLoop w' (compileNode w' depth) a'
        ⟨.inr (mapNode id (placeBody (.ref ref) path) G), feedback, continueFrom, maxIterations⟩) := by
  have hbody : ∀ {log : List (Emitted δ)} {bound bound' : Sources},
      Clean (bindNodeInputs a G.inputs feedback.keys) log bound → OutputsAlike bound bound' →
        BothWays
          (compileGraphWith (compileNode w depth) (mapNode id (placeBody (.graph g) path) G)
            (bodyLevel a G.inputs bound))
          (compileGraphWith (compileNode w' depth) (mapNode id (placeBody (.ref ref) path) G)
            (bodyLevel a' G.inputs bound')) := by
    intro log bound bound' hc hb
    refine hlevel log bound _ _ hc rfl ⟨by simp only [bodyLevel, ha.scope], ?_, ha.grants, rfl⟩
    simp only [bodyLevel, boundaryOf, ← ha.scope]
    exact (loopSeeds_alike (a.scope.child loopBodySegment) rfl hb).2
  simp only [compileLoop, loopBoundary, Emit.pure_bind]
  constructor
  · refine Sim.reindex (P := True ∧ feedback.keys = feedback.keys) ?_
    refine compileBounded_alike hw.hashing ha ?_ ?_ ?_ ?_ ?_ ?_
    iterate 5 rfl
    intro log log' bound bound' hc _ hb
    refine (Sim.clean (hbody hc hb).1).mono (fun _ _ h => h) ?_
    rintro o o' ⟨ho, ⟨_, hclean⟩, -⟩
    exact ⟨ho, compileGraphWith_complete hclean⟩
  · refine Sim.reindex (P := True ∧ feedback.keys = feedback.keys) ?_
    refine compileBounded_alike hw.hashing.symm ha.symm ?_ ?_ ?_ ?_ ?_ ?_
    iterate 5 rfl
    intro log log' bound' bound _ hc hb
    refine (Sim.clean (hbody hc hb.symm).2).mono (fun _ _ h => h) ?_
    rintro o o' ⟨ho, ⟨_, hclean⟩, -⟩
    exact ⟨ho, compileGraphWith_complete hclean⟩

theorem placed_bothWays (h : RegisteredAs adm ref g stored) (hw : WorldAlike w w')
    (hs : w'.snapshot = adm.snapshot) (hh : w'.hashing = adm.hashing) (hl : w'.resolutionLock = none)
    (depth : ℕ) : ∀ {path : List String} {a a' : Seat} {body : Body}, SeatAlike a a' →
      a.node.body = placeBody (.graph g) path body → a'.node.body = placeBody (.ref ref) path body →
      AtPath w (Aligned δ g) depth path a → BothWays (compileNode w depth a) (compileNode w' depth a') := by
  induction depth with
  | zero =>
    intro path a a' body _ _ _ _
    exact ⟨fun _ _ hc => absurd hc not_clean_raise, fun _ _ hc => absurd hc not_clean_raise⟩
  | succ depth ih =>
    intro path a a' body ha hb hb' hat
    cases path with
    | nil =>
      rw [compileNode, compileNode, compileNodeWith, compileNodeWith, hb, hb']
      exact swap_bothWays h hw hs hh hl ha hat depth
    | cons id path =>
      cases body with
      | ref r => exact same_bothWays hw ha (hb.trans hb'.symm) (depth + 1)
      | graph G =>
        rw [compileNode, compileNode, compileNodeWith, compileNodeWith, hb, hb']
        simp only [placeBody]
        have hlevel : ∀ {log : List (Emitted δ)} {bound bound' : Sources},
            Clean (bindNodeInputs a G.inputs) log bound → OutputsAlike bound bound' →
              BothWays
                (compileGraphWith (compileNode w depth) (mapNode id (placeBody (.graph g) path) G)
                  (inlineLevel a bound))
                (compileGraphWith (compileNode w' depth) (mapNode id (placeBody (.ref ref) path) G)
                  (inlineLevel a' bound')) := by
          intro log bound bound' hc hbound
          refine placed_level ⟨ha.scope, hbound, ha.grants, ha.loopDepth⟩ hw ?_
          intro b b' inner hv hid hseat hb₁ hb₂
          exact ih hseat hb₁ hb₂ (hat b (.inline hb hc.1 hv) hid)
        constructor
        · refine Quiet.bind (Sim.clean (bindNodeInputs_alike ha rfl fun _ => Iff.rfl)) ?_
          rintro bound bound' ⟨hbound, ⟨log, hc⟩, -⟩
          exact (hlevel hc hbound).1
        · refine Quiet.bind (Sim.clean (bindNodeInputs_alike ha.symm rfl fun _ => Iff.rfl)) ?_
          rintro bound' bound ⟨hbound, -, ⟨log, hc⟩⟩
          exact (hlevel hc hbound.symm).2
      | loop loop =>
        obtain ⟨G, feedback, continueFrom, maxIterations⟩ := loop
        cases G with
        | inl r => exact same_bothWays hw ha (hb.trans hb'.symm) (depth + 1)
        | inr G =>
          rw [compileNode, compileNode, compileNodeWith, compileNodeWith, hb, hb']
          simp only [placeBody, ha.loopDepth]
          split_ifs with hdepth
          · exact ⟨Sim.fault, Sim.fault⟩
          · refine placed_loop hw ha fun log bound l l' hc hlv hlevel => ?_
            subst hlv
            refine placed_level hlevel hw fun b b' inner hv hid hseat hb₁ hb₂ => ?_
            exact ih hseat hb₁ hb₂ (hat b (.loop hb hc.1 hv) hid)

end Placement

/-! ## The two forms of one program -/

def AuthorizedAlike (adm : Admission δ) (G G' : Graph) : Prop :=
  adm.assembly.authorizesAdmission (sourceGraphHashFor adm.hashing G) =
    adm.assembly.authorizesAdmission (sourceGraphHashFor adm.hashing G')

theorem world_alike {adm : Admission δ} {G G' : Graph} (h : AuthorizedAlike adm G G') :
    WorldAlike (adm.world G) (adm.world G') := by
  refine ⟨rfl, rfl, rfl, rfl, ?_⟩
  funext descriptor capability
  have hcap : (adm.world G).assembly.authorizesAdmission (adm.world G).sourceGraphHash capability =
      (adm.world G').assembly.authorizesAdmission (adm.world G').sourceGraphHash capability :=
    congrFun h capability
  simp only [admittedUnavailability, hcap]
  rfl

/-- The seat at which the inline form compiles the placed graph binds aligned sources. -/
def AlignedAt (adm : Admission δ) (depth : ℕ) (G : Graph) (id : String) (path : List String)
    (g : Graph) : Prop :=
  ∀ b, LevelVisits (compileNode (adm.world (place G id path (.graph g))) depth)
      (place G id path (.graph g)) (rootLevel adm (place G id path (.graph g))) b → b.node.id = id →
    AtPath (adm.world (place G id path (.graph g))) (Aligned δ g) depth path b

theorem Progress.length_le {rec : Seat → Compile δ Sources} {g : Graph} {l : Level}
    {nodes ordered : List GraphNode} {o : NodeLookup} (h : Progress rec g l nodes o)
    (ho : orderedNodes g (upstreamClosure (nodeIds g) (connectionEdges g)) = .ok ordered) :
    nodes.length ≤ ordered.length := by
  induction h with
  | start h =>
    rw [ho] at h
    cases h
    exact le_refl _
  | step _ _ ih => exact (Nat.le_succ _).trans ih

theorem Progress.eq_start {rec : Seat → Compile δ Sources} {g : Graph} {l : Level}
    {nodes ordered : List GraphNode} {o : NodeLookup} (h : Progress rec g l nodes o)
    (ho : orderedNodes g (upstreamClosure (nodeIds g) (connectionEdges g)) = .ok ordered)
    (hlen : ordered.length ≤ nodes.length) : nodes = ordered ∧ o = .empty := by
  cases h with
  | start h =>
    rw [ho] at h
    cases h
    exact ⟨rfl, rfl⟩
  | step h _ =>
    have hle := h.length_le ho
    rw [List.length_cons] at hle
    omega

namespace Sample

/-- A graph that hands its two inputs to `join`. -/
def joined : Graph where
  name := "j"
  nodes := [⟨"c", .ref { component := "join" }⟩]
  inputs := [value "x", value "y"]
  outputs := [value "z"]

/-- The samples together with the composite of `joined`. -/
def registered : RegistrySnapshot where
  versions := ⟨snapshot.versions.entries ++ [("joined", ⟨[("v1", composite "joined" joined)]⟩)]⟩
  stable := ⟨snapshot.stable.entries ++ [("joined", "v1")]⟩

def registry (inputs : Dict String Json) : Admission (String × ℕ × Json) :=
  { admission inputs with snapshot := registered }

theorem joined_registered (inputs : Dict String Json) :
    RegisteredAs (registry inputs) { component := "joined" } joined (composite "joined" joined) where
  selected := rfl
  body := rfl
  schemas := rfl
  inputs := by decide
  outputs := by decide
  bind := rfl
  grants := rfl

def outer : Graph where
  name := "g"
  nodes := [⟨"n", .ref { component := "joined" }⟩]
  inputs := [value "x", value "y"]
  outputs := [value "z"]

/-- A producer of two values whose ports feed the node's boundary crosswise. -/
def crossed : Graph where
  name := "g"
  nodes := [⟨"p", .ref { component := "pair" }⟩, ⟨"n", .ref { component := "joined" }⟩]
  connections := [⟨"p", "n", ⟨[("x", "p.y"), ("y", "p.x")]⟩⟩]

def bothSupplied : Dict String Json := ⟨[("x", .int 0), ("y", .int 1)]⟩

theorem outer_aligned : AlignedAt (registry bothSupplied) 2 outer "n" [] joined := by
  rintro b ⟨nodes, o, hprogress, hb⟩ -
  have hordered : orderedNodes (place outer "n" [] (.graph joined))
      (upstreamClosure ["n"] []) = .ok [⟨"n", .graph joined⟩] := rfl
  obtain ⟨hnodes, rfl⟩ := hprogress.eq_start hordered (by simp)
  obtain ⟨hnode, -⟩ := List.cons.inj hnodes
  rw [hnode] at hb
  intro log bound hclean e he s hs p hp hname
  subst hb
  have hbound : bound = ⟨[("x", [⟨.graphInput ["g"] "x", value "x"⟩]),
      ("y", [⟨.graphInput ["g"] "y", value "y"⟩])]⟩ :=
    (Except.ok.inj (congrArg Emit.result hclean.1)).symm
  subst hbound
  simp only [List.mem_cons, List.not_mem_nil, or_false] at he
  rcases he with rfl | rfl <;> simp only [List.mem_cons, List.not_mem_nil, or_false] at hs <;> subst hs <;>
    simp only [joined, List.mem_cons, List.not_mem_nil, or_false] at hp <;>
    rcases hp with rfl | rfl <;> simp_all [value]

end Sample

end Constructicon
