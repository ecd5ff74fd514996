import Constructicon.Clean

/-!
# What binding reads

The nominal rules read of a port its name, contract and cardinality, and of a map
entry its destination port and its selector. Erasing the rest (`bare`) changes no
clean outcome: two seats with the same bare sources bind alike. `Sim` compares two
compilations this way: whenever the first is clean so is the second, with a related
log and a related result.
-/

namespace Constructicon

variable {δ α β α' β' : Type}

/-! ## Comparing compilations -/

/-- Whenever `x` is clean so is `y`, with logs related by `S` and results by `R`. -/
def Sim (S : List (Emitted δ) → List (Emitted δ) → Prop) (R : α → β → Prop)
    (x : Compile δ α) (y : Compile δ β) : Prop :=
  ∀ l a, Clean x l a → ∃ l' b, Clean y l' b ∧ S l l' ∧ R a b

/-- Two parts that log nothing when they are clean. -/
abbrev Quiet (R : α → β → Prop) (x : Compile δ α) (y : Compile δ β) : Prop :=
  Sim (fun l l' => l = [] ∧ l' = []) R x y

section Rules

variable {S S₁ S₂ : List (Emitted δ) → List (Emitted δ) → Prop} {Q : α → β → Prop}
  {R : α' → β' → Prop} {x : Compile δ α} {y : Compile δ β} {f : α → Compile δ α'}
  {g : β → Compile δ β'}

theorem Sim.pure {a : α} {b : β} (hS : S [] []) (h : Q a b) :
    Sim S Q (Pure.pure a : Compile δ α) (Pure.pure b) := by
  intro l a' hx
  obtain ⟨rfl, rfl⟩ := clean_pure.mp hx
  exact ⟨[], b, clean_pure.mpr ⟨rfl, rfl⟩, hS, h⟩

theorem Sim.bind (hx : Sim S₁ Q x y) (hf : ∀ a b, Q a b → Sim S₂ R (f a) (g b))
    (happ : ∀ l l' m m', S₁ l l' → S₂ m m' → S (l ++ m) (l' ++ m')) :
    Sim S R (x >>= f) (y >>= g) := by
  intro l b h
  obtain ⟨l₁, a, l₂, ha, hb, rfl⟩ := clean_bind.mp h
  obtain ⟨l₁', a', ha', hS₁, hQ⟩ := hx l₁ a ha
  obtain ⟨l₂', b', hb', hS₂, hR⟩ := hf a a' hQ l₂ b hb
  exact ⟨l₁' ++ l₂', b', clean_bind.mpr ⟨l₁', a', l₂', ha', hb', rfl⟩, happ _ _ _ _ hS₁ hS₂, hR⟩

theorem Quiet.bind (hx : Quiet Q x y) (hf : ∀ a b, Q a b → Sim S R (f a) (g b)) :
    Sim S R (x >>= f) (y >>= g) := by
  refine Sim.bind hx hf ?_
  rintro l l' m m' ⟨rfl, rfl⟩ hS
  exact hS

theorem Sim.fault {F : Fault} {k : Unit → Compile δ α} : Sim S Q (Constructicon.fault F >>= k) y :=
  fun _ _ h => absurd h clean_fault_bind

theorem Sim.mono {Q' : α → β → Prop} (h : Sim S₁ Q x y) (hS : ∀ l l', S₁ l l' → S l l')
    (hQ : ∀ a b, Q a b → Q' a b) : Sim S Q' x y := by
  intro l a hx
  obtain ⟨l', b, hy, hs, hq⟩ := h l a hx
  exact ⟨l', b, hy, hS l l' hs, hQ a b hq⟩

theorem Sim.clean (h : Sim S Q x y) :
    Sim S (fun a b => Q a b ∧ (∃ l, Clean x l a) ∧ ∃ l, Clean y l b) x y := by
  intro l a hx
  obtain ⟨l', b, hy, hs, hq⟩ := h l a hx
  exact ⟨l', b, hy, hs, hq, ⟨l, hx⟩, ⟨l', hy⟩⟩

theorem Sim.refl {S : List (Emitted δ) → List (Emitted δ) → Prop} (x : Compile δ α)
    (hS : ∀ l a, Clean x l a → S l l) : Sim S (· = ·) x x :=
  fun l a hx => ⟨l, a, hx, hS l a hx, rfl⟩

theorem Quiet.emitFaults {fs fs' : List Fault} (h : fs = [] → fs' = []) :
    Quiet (fun _ _ => True) (Constructicon.emitFaults fs : Compile δ Unit)
      (Constructicon.emitFaults fs') := by
  intro l u hx
  obtain ⟨hfs, rfl⟩ := clean_emitFaults.mp hx
  exact ⟨[], (), clean_emitFaults.mpr ⟨h hfs, rfl⟩, ⟨rfl, rfl⟩, trivial⟩

theorem Sim.listen (h : Sim S Q x y) :
    Sim S (fun p q => Q p.1 q.1 ∧ S p.2 q.2) (Emit.listen x) (Emit.listen y) := by
  rintro l ⟨a, m⟩ hx
  obtain ⟨ha, rfl⟩ := clean_listen.mp hx
  obtain ⟨l', b, hb, hs, hq⟩ := h m a ha
  exact ⟨l', (b, l'), clean_listen.mpr ⟨hb, rfl⟩, hs, hq, hs⟩

end Rules

/-! ## Bare ports, sources and entries -/

def Port.bare (p : Port) : Port := { p with jsonSchema := none }

def Source.bare (s : Source) : Source := ⟨s.address, s.port.bare⟩

def bareSources (s : Sources) : Sources := s.mapValues (List.map Source.bare)

def bareLookup (d : NodeLookup) : NodeLookup := d.mapValues bareSources

/-- The destination port and the selector of a map entry. -/
def MapEntry.bare (e : MapEntry) : String × String := (e.destinationPort, e.selector)

theorem Port.bare_eq_iff {p q : Port} :
    p.bare = q.bare ↔ p.name = q.name ∧ p.typeId = q.typeId ∧ p.schemaHash = q.schemaHash ∧
      p.cardinality = q.cardinality := by
  simp [Port.bare]

theorem Source.bare_eq_iff {s t : Source} :
    s.bare = t.bare ↔ s.address = t.address ∧ s.port.bare = t.port.bare := by
  simp [Source.bare]

theorem Source.matches_bare {p q : Port} (h : p.bare = q.bare) (s : Source) :
    s.bare.matches q = s.matches p := by
  obtain ⟨-, ht, hh, -⟩ := Port.bare_eq_iff.mp h
  rw [Source.matches, Source.matches, ht, hh]
  rfl

theorem map_address_of_bare {l l' : List Source} (h : l.map Source.bare = l'.map Source.bare) :
    l.map Source.address = l'.map Source.address := by
  have hmap : ∀ l : List Source, l.map Source.address = (l.map Source.bare).map Source.address := by
    simp [Function.comp_def, Source.bare]
  rw [hmap l, hmap l', h]

theorem filter_bare {f f' : Source → Bool} (hf : ∀ s, f s = f' s.bare) {l l' : List Source}
    (hf' : ∀ s, f' s = f' s.bare) (h : l.map Source.bare = l'.map Source.bare) :
    (l.filter f).map Source.bare = (l'.filter f').map Source.bare := by
  have hl : (l.filter f).map Source.bare = (l.map Source.bare).filter f' := by
    rw [List.filter_map]
    congr 2
    exact funext hf
  have hl' : (l'.filter f').map Source.bare = (l'.map Source.bare).filter f' := by
    rw [List.filter_map]
    congr 2
    exact funext hf'
  rw [hl, hl', h]

/-- Optional choices of sources, up to what binding reads. -/
def OutcomeAlike (r r' : Option (List Source)) : Prop :=
  r.map (List.map Source.bare) = r'.map (List.map Source.bare)

theorem OutcomeAlike.cases {r r' : Option (List Source)} (h : OutcomeAlike r r') :
    (r = none ∧ r' = none) ∨
      ∃ s s', r = some s ∧ r' = some s' ∧ s.map Source.bare = s'.map Source.bare := by
  cases r with
  | none =>
    cases r' with
    | none => exact .inl ⟨rfl, rfl⟩
    | some s' => simp [OutcomeAlike] at h
  | some s =>
    cases r' with
    | none => simp [OutcomeAlike] at h
    | some s' => exact .inr ⟨s, s', rfl, rfl, by simpa [OutcomeAlike] using h⟩

theorem bindPort_alike {site site' : BindSite} {port port' : Port} {pool pool' : List Source}
    (hp : port.bare = port'.bare) (hpool : pool.map Source.bare = pool'.map Source.bare) :
    Quiet (δ := δ) OutcomeAlike (bindPort site port pool) (bindPort site' port' pool') := by
  obtain ⟨hname, -, -, hcard⟩ := Port.bare_eq_iff.mp hp
  have htyped : (pool.filter (fun s => s.matches port)).map Source.bare =
      (pool'.filter (fun s => s.matches port')).map Source.bare :=
    filter_bare (fun s => (Source.matches_bare hp s).symm)
      (fun s => (Source.matches_bare rfl s).symm) hpool
  have hnamed : ((pool.filter (fun s => s.matches port)).filter
        (fun s => s.port.name = port.name)).map Source.bare =
      ((pool'.filter (fun s => s.matches port')).filter
        (fun s => s.port.name = port'.name)).map Source.bare :=
    filter_bare (fun s => by rw [hname]; rfl) (fun s => rfl) htyped
  have hnil : pool.filter (fun s => s.matches port) = [] ↔
      pool'.filter (fun s => s.matches port') = [] := by
    rw [← List.map_eq_nil_iff, htyped, List.map_eq_nil_iff]
  have htl := congrArg List.length htyped
  have hnl := congrArg List.length hnamed
  rw [List.length_map, List.length_map] at htl hnl
  simp only [bindPort, hcard, hnil, htl, hnl]
  split_ifs
  · exact Sim.fault
  · exact Sim.pure ⟨rfl, rfl⟩ (congrArg some htyped)
  · exact Sim.pure ⟨rfl, rfl⟩ (congrArg some hnamed)
  · exact Sim.fault
  · exact Sim.pure ⟨rfl, rfl⟩ (congrArg some htyped)
  · exact Sim.fault
  · exact Sim.pure ⟨rfl, rfl⟩ rfl
  · exact Sim.fault

/-! ## Explicit maps -/

theorem getD_bareSources {s s' : Sources} (h : bareSources s = bareSources s') (name : String) :
    (s.getD name []).map Source.bare = (s'.getD name []).map Source.bare := by
  have hget : ∀ s : Sources, (s.getD name []).map Source.bare = (bareSources s).getD name [] :=
    fun s => (Dict.getD_mapValues (List.map Source.bare) s name []).symm
  rw [hget s, hget s', h]

theorem getD_bareLookup {d d' : NodeLookup} (h : bareLookup d = bareLookup d') (name : String) :
    bareSources (d.getD name .empty) = bareSources (d'.getD name .empty) := by
  have hget : ∀ d : NodeLookup, bareSources (d.getD name .empty) = (bareLookup d).getD name .empty :=
    fun d => (Dict.getD_mapValues bareSources d name .empty).symm
  rw [hget d, hget d', h]

theorem allSources_bare (s : Sources) :
    (allSources s).map Source.bare = (bareSources s).values.flatten := by
  rw [allSources, bareSources, Dict.values_mapValues, List.map_flatten]

theorem allSources_alike {s s' : Sources} (h : bareSources s = bareSources s') :
    (allSources s).map Source.bare = (allSources s').map Source.bare := by
  rw [allSources_bare, allSources_bare, h]

theorem selectedSources_alike {parts : String × String} {lookup lookup' : NodeLookup}
    {inputs inputs' : Sources} (hl : bareLookup lookup = bareLookup lookup')
    (hi : bareSources inputs = bareSources inputs') :
    (selectedSources parts lookup inputs).map Source.bare =
      (selectedSources parts lookup' inputs').map Source.bare := by
  rw [selectedSources, selectedSources]
  split_ifs
  · exact getD_bareSources hi parts.2
  · exact getD_bareSources (getD_bareLookup hl parts.1) parts.2

theorem resolveSelector_alike {entry entry' : MapEntry} {port port' : Port}
    {lookup lookup' : NodeLookup} {inputs inputs' : Sources} {scope scope' : ScopePath}
    (he : entry.bare = entry'.bare) (hp : port.bare = port'.bare)
    (hl : bareLookup lookup = bareLookup lookup') (hi : bareSources inputs = bareSources inputs') :
    Quiet (δ := δ) (fun s s' => s.map Source.bare = s'.map Source.bare)
      (resolveSelector entry port lookup inputs scope)
      (resolveSelector entry' port' lookup' inputs' scope') := by
  obtain ⟨-, hsel⟩ := Prod.mk.inj he
  have hs : (selectedSources (partitionDot entry'.selector) lookup inputs).map Source.bare =
      (selectedSources (partitionDot entry'.selector) lookup' inputs').map Source.bare :=
    selectedSources_alike hl hi
  unfold resolveSelector
  simp only [hsel]
  split_ifs
  · exact Sim.fault
  · match selectedSources (partitionDot entry'.selector) lookup inputs,
      selectedSources (partitionDot entry'.selector) lookup' inputs', hs with
    | [], _, _ => exact Sim.fault
    | [s], [s'], hs =>
      have hbare : s.bare = s'.bare := by simpa using hs
      obtain ⟨-, hport⟩ := Source.bare_eq_iff.mp hbare
      obtain ⟨-, -, -, hcard⟩ := Port.bare_eq_iff.mp hport
      have hmatch : s.matches port = s'.matches port' := by
        rw [← Source.matches_bare hp s, ← Source.matches_bare rfl s', hbare]
      simp only [hcard, hmatch]
      split_ifs
      · exact Sim.fault
      · exact Sim.fault
      · exact Sim.pure ⟨rfl, rfl⟩ (congrArg some hbare)
    | _ :: _ :: _, _, _ => exact Sim.fault
    | [_], [], hs => simp at hs
    | [_], _ :: _ :: _, hs => simp at hs

theorem resolveSelectors_alike {port port' : Port} {lookup lookup' : NodeLookup}
    {inputs inputs' : Sources} {scope scope' : ScopePath} (hp : port.bare = port'.bare)
    (hl : bareLookup lookup = bareLookup lookup') (hi : bareSources inputs = bareSources inputs') :
    ∀ {entries entries' : List MapEntry}, entries.map MapEntry.bare = entries'.map MapEntry.bare →
      Quiet (δ := δ) (fun r r' => r.map (Option.map Source.bare) = r'.map (Option.map Source.bare))
        (resolveSelectors port lookup inputs scope entries)
        (resolveSelectors port' lookup' inputs' scope' entries') := by
  intro entries
  induction entries with
  | nil =>
    intro entries' he
    obtain rfl : entries' = [] := by simpa using he.symm
    exact Sim.pure ⟨rfl, rfl⟩ rfl
  | cons entry entries ih =>
    intro entries' he
    cases entries' with
    | nil => simp at he
    | cons entry' entries' =>
      rw [List.map_cons, List.map_cons, List.cons.injEq] at he
      refine Quiet.bind (resolveSelector_alike he.1 hp hl hi) fun s s' hs => ?_
      refine Quiet.bind (ih he.2) fun ss ss' hss => ?_
      refine Sim.pure ⟨rfl, rfl⟩ ?_
      rw [List.map_cons, List.map_cons, hs, hss]

/-- Explicit entries by destination port and selector. -/
def bareMaps (byPort : Dict String (Dict String MapEntry)) :
    Dict String (Dict String (String × String)) :=
  byPort.mapValues (Dict.mapValues MapEntry.bare)

theorem getD_bareMaps (d : Dict String (Dict String MapEntry)) (name : String) :
    (d.getD name .empty).mapValues MapEntry.bare = (bareMaps d).getD name .empty :=
  (Dict.getD_mapValues (Dict.mapValues MapEntry.bare) d name .empty).symm

theorem bareMaps_file {entry entry' : MapEntry} {byPort byPort' : Dict String (Dict String MapEntry)}
    (he : entry.bare = entry'.bare) (h : bareMaps byPort = bareMaps byPort') :
    bareMaps (byPort.insert entry.destinationPort
        ((byPort.getD entry.destinationPort .empty).setDefault entry.selector entry)) =
      bareMaps (byPort'.insert entry'.destinationPort
        ((byPort'.getD entry'.destinationPort .empty).setDefault entry'.selector entry')) := by
  obtain ⟨hport, hsel⟩ := Prod.mk.inj he
  have hinsert : ∀ (d : Dict String (Dict String MapEntry)) (name : String) (row : Dict String MapEntry),
      bareMaps (d.insert name row) = (bareMaps d).insert name (row.mapValues MapEntry.bare) :=
    fun d name row => Dict.mapValues_insert (Dict.mapValues MapEntry.bare) d name row
  rw [hinsert, hinsert, Dict.mapValues_setDefault, Dict.mapValues_setDefault, getD_bareMaps,
    getD_bareMaps, h, hport, hsel, he]

theorem groupMaps_alike {scope scope' : ScopePath} {declared : List String} :
    ∀ {entries entries' : List MapEntry} {byPort byPort' : Dict String (Dict String MapEntry)},
      entries.map MapEntry.bare = entries'.map MapEntry.bare → bareMaps byPort = bareMaps byPort' →
        Quiet (δ := δ) (fun r r' => bareMaps r = bareMaps r')
          (groupMaps scope declared entries byPort) (groupMaps scope' declared entries' byPort') := by
  intro entries
  induction entries with
  | nil =>
    intro entries' byPort byPort' he h
    obtain rfl : entries' = [] := by simpa using he.symm
    exact Sim.pure ⟨rfl, rfl⟩ h
  | cons entry entries ih =>
    intro entries' byPort byPort' he h
    cases entries' with
    | nil => simp at he
    | cons entry' entries' =>
      rw [List.map_cons, List.map_cons, List.cons.injEq] at he
      have hport : entry.destinationPort = entry'.destinationPort := (Prod.mk.inj he.1).1
      rw [groupMaps, groupMaps, ← hport]
      split_ifs
      · exact ih he.2 (hport ▸ bareMaps_file he.1 h)
      · exact Sim.fault

/-! ## Seats -/

/-- Two seats that differ in nothing a clean compilation reads, their bodies apart. -/
structure SeatAlike (a a' : Seat) : Prop where
  id : a.node.id = a'.node.id
  levelScope : a.levelScope = a'.levelScope
  pool : a.pool.map Source.bare = a'.pool.map Source.bare
  explicit : a.explicit.map MapEntry.bare = a'.explicit.map MapEntry.bare
  nodeLookup : bareLookup a.nodeLookup = bareLookup a'.nodeLookup
  inputSources : bareSources a.inputSources = bareSources a'.inputSources
  grants : a.grants = a'.grants
  loopDepth : a.loopDepth = a'.loopDepth

namespace SeatAlike

theorem symm {a a' : Seat} (h : SeatAlike a a') : SeatAlike a' a :=
  ⟨h.id.symm, h.levelScope.symm, h.pool.symm, h.explicit.symm, h.nodeLookup.symm,
    h.inputSources.symm, h.grants.symm, h.loopDepth.symm⟩

theorem scope {a a' : Seat} (h : SeatAlike a a') : a.scope = a'.scope := by
  rw [Seat.scope, Seat.scope, h.levelScope, h.id]

end SeatAlike

theorem mapConflict_alike {port port' : Port} (hp : port.bare = port'.bare)
    {entries entries' : List MapEntry}
    (he : entries.map MapEntry.bare = entries'.map MapEntry.bare)
    (h : mapConflict port entries = none) : mapConflict port' entries' = none := by
  obtain ⟨-, -, -, hcard⟩ := Port.bare_eq_iff.mp hp
  match entries, entries', he with
  | [], [], _ => rfl
  | [_], [_], _ => rfl
  | _ :: _ :: _, _ :: _ :: _, _ => simpa [mapConflict, hcard] using h
  | [_], _ :: _ :: _, he => simp at he
  | _ :: _ :: _, [_], he => simp at he

theorem bindNodePort_alike {a a' : Seat} (ha : SeatAlike a a') {port port' : Port}
    (hp : port.bare = port'.bare) {byPort byPort' : Dict String (Dict String MapEntry)}
    (hmaps : bareMaps byPort = bareMaps byPort') {feedback feedback' : List String}
    (hf : ∀ name, name ∈ feedback ↔ name ∈ feedback') :
    Quiet (δ := δ) OutcomeAlike (bindNodePort a byPort feedback port)
      (bindNodePort a' byPort' feedback' port') := by
  obtain ⟨hname, -, -, hcard⟩ := Port.bare_eq_iff.mp hp
  have hentries : (byPort.getD port.name .empty).values.map MapEntry.bare =
      (byPort'.getD port'.name .empty).values.map MapEntry.bare := by
    have hget : ∀ (d : Dict String (Dict String MapEntry)) (name : String),
        (d.getD name .empty).values.map MapEntry.bare = ((bareMaps d).getD name .empty).values := by
      intro d name
      rw [← Dict.values_mapValues, getD_bareMaps]
    rw [hget byPort, hget byPort', hmaps, hname]
  have hnil : (byPort.getD port.name .empty).values = [] ↔
      (byPort'.getD port'.name .empty).values = [] := by
    rw [← List.map_eq_nil_iff, hentries, List.map_eq_nil_iff]
  have hmatch : a.pool.all (fun s => s.matches port = false) =
      a'.pool.all (fun s => s.matches port' = false) := by
    have hall : ∀ (pool : List Source) (q : Port), q.bare = port'.bare →
        pool.all (fun s => s.matches q = false) =
          (pool.map Source.bare).all (fun s => s.matches port' = false) := by
      intro pool q hq
      rw [List.all_map]
      congr 1
      funext s
      rw [Function.comp_apply, Source.matches_bare hq]
    rw [hall a.pool port hp, hall a'.pool port' rfl, ha.pool]
  rw [hname] at hentries hnil
  unfold bindNodePort
  simp only [ne_eq, hnil, hname, hf, hmatch]
  split_ifs
  · exact Sim.fault
  · exact bindPort_alike hp ha.pool
  · cases hc : mapConflict port (byPort.getD port'.name .empty).values with
    | some conflict => exact Sim.fault
    | none =>
      rw [mapConflict_alike hp hentries hc]
      refine Quiet.bind (resolveSelectors_alike hp ha.nodeLookup ha.inputSources hentries) ?_
      intro r r' hr
      have hall : ∀ r : List (Option Source),
          r.all Option.isSome = (r.map (Option.map Source.bare)).all Option.isSome := by
        intro r
        rw [List.all_map]
        congr 1
        funext s
        simp
      have hsome : ∀ r : List (Option Source),
          (r.filterMap id).map Source.bare = (r.map (Option.map Source.bare)).filterMap id := by
        intro r
        rw [List.filterMap_map, List.map_filterMap]
        rfl
      rw [hall r, hall r', hr]
      split_ifs
      · refine Sim.pure ⟨rfl, rfl⟩ ?_
        rw [OutcomeAlike, Option.map_some, Option.map_some, hsome, hsome, hr]
      · exact Sim.pure ⟨rfl, rfl⟩ rfl

theorem bareSources_insert {s s' : Sources} (h : bareSources s = bareSources s') {name name' : String}
    (hn : name = name') {l l' : List Source} (hl : l.map Source.bare = l'.map Source.bare) :
    bareSources (s.insert name l) = bareSources (s'.insert name' l') := by
  unfold bareSources at *
  rw [Dict.mapValues_insert, Dict.mapValues_insert, h, hn, hl]

theorem bindPorts_alike {a a' : Seat} (ha : SeatAlike a a')
    {byPort byPort' : Dict String (Dict String MapEntry)} (hmaps : bareMaps byPort = bareMaps byPort')
    {feedback feedback' : List String} (hf : ∀ name, name ∈ feedback ↔ name ∈ feedback') :
    ∀ {ports ports' : List Port} {bound bound' : Sources}, ports.map Port.bare = ports'.map Port.bare →
      bareSources bound = bareSources bound' →
        Quiet (δ := δ) (fun r r' => bareSources r = bareSources r')
          (bindPorts a byPort feedback ports bound) (bindPorts a' byPort' feedback' ports' bound') := by
  intro ports
  induction ports with
  | nil =>
    intro ports' bound bound' hp hb
    obtain rfl : ports' = [] := by simpa using hp.symm
    exact Sim.pure ⟨rfl, rfl⟩ hb
  | cons port ports ih =>
    intro ports' bound bound' hp hb
    cases ports' with
    | nil => simp at hp
    | cons port' ports' =>
      rw [List.map_cons, List.map_cons, List.cons.injEq] at hp
      refine Quiet.bind (bindNodePort_alike ha hp.1 hmaps hf) fun r r' hr => ?_
      obtain ⟨rfl, rfl⟩ | ⟨sources, sources', rfl, rfl, hs⟩ := hr.cases
      · exact ih hp.2 hb
      · exact ih hp.2 (bareSources_insert hb (Port.bare_eq_iff.mp hp.1).1 hs)

theorem map_name_of_bare {ports ports' : List Port} (h : ports.map Port.bare = ports'.map Port.bare) :
    ports.map Port.name = ports'.map Port.name := by
  have hmap : ∀ ports : List Port, ports.map Port.name = (ports.map Port.bare).map Port.name := by
    simp [Function.comp_def, Port.bare]
  rw [hmap ports, hmap ports', h]

/-- `_bind_node_inputs` of two seats alike. -/
theorem bindNodeInputs_alike {a a' : Seat} (ha : SeatAlike a a') {inputs inputs' : List Port}
    (hi : inputs.map Port.bare = inputs'.map Port.bare) {feedback feedback' : List String}
    (hf : ∀ name, name ∈ feedback ↔ name ∈ feedback') :
    Quiet (δ := δ) (fun r r' => bareSources r = bareSources r') (bindNodeInputs a inputs feedback)
      (bindNodeInputs a' inputs' feedback') := by
  unfold bindNodeInputs
  rw [map_name_of_bare hi]
  exact Quiet.bind (groupMaps_alike ha.explicit rfl) fun byPort byPort' hmaps =>
    bindPorts_alike ha hmaps hf hi rfl

end Constructicon
