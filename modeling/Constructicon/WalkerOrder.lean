import Constructicon.WalkerValues

/-!
# The order of the units

`_ordered_units` lists every unit of a run once, behind all the units it takes values
from, and it refuses exactly when a unit depends on itself.
-/

namespace Constructicon.Walker

open Transaction Relation

section Order

variable {units ordered : List RootUnit} {bindings : Dict String ResolvedPortBinding}

/-- `u` takes a value that `w` publishes. -/
def DependsOn (units : List RootUnit) (bindings : Dict String ResolvedPortBinding) (u w : RootUnit) : Prop :=
  u ∈ units ∧ ∃ b ∈ unitInputBindings bindings u, ∃ a ∈ b.sources, (unitProducerIndex units).get? (addressKey a) = some w

/-- Every unit once, each behind those it depends on. -/
structure Ordered (units : List RootUnit) (bindings : Dict String ResolvedPortBinding) (ordered : List RootUnit) :
    Prop where
  perm : ordered.Perm units
  before : ∀ pre u post, ordered = pre ++ u :: post → ∀ w, DependsOn units bindings u w → w ∈ pre

theorem unitProducerIndex_spec {key : String} {w : RootUnit} (found : (unitProducerIndex units).get? key = some w) :
    w ∈ units ∧ key ∈ w.keys := by
  obtain ⟨u, mem, entry⟩ := List.mem_flatMap.mp (Dict.mem_of_get?_ofList found)
  obtain ⟨a, offered, same⟩ := List.mem_map.mp entry
  cases same
  exact ⟨mem, List.mem_map_of_mem offered⟩

theorem mem_sortedScopes {scopes : List ScopePath} {scope : ScopePath} :
    scope ∈ sortedScopes scopes ↔ scope ∈ scopes := by
  rw [sortedScopes, List.mem_insertionSort, List.mem_dedup]

theorem mem_dependencies {scope d : ScopePath} :
    d ∈ dependencies units bindings (unitProducerIndex units) scope ↔
      ∃ u w, u.scope = scope ∧ w.scope = d ∧ DependsOn units bindings u w := by
  rw [dependencies, mem_sortedScopes, List.mem_flatMap]
  constructor
  · rintro ⟨u, mem, needed⟩
    obtain ⟨inside, same⟩ := List.mem_filter.mp mem
    obtain ⟨a, source, found⟩ := List.mem_filterMap.mp needed
    obtain ⟨b, bound, source⟩ := List.mem_flatMap.mp source
    obtain ⟨w, indexed, here⟩ := Option.map_eq_some_iff.mp found
    exact ⟨u, w, of_decide_eq_true same, here, inside, b, bound, a, source, indexed⟩
  · rintro ⟨u, w, same, rfl, inside, b, bound, a, source, indexed⟩
    refine ⟨u, List.mem_filter.mpr ⟨inside, decide_eq_true same⟩, List.mem_filterMap.mpr ⟨a, ?_, ?_⟩⟩
    · exact List.mem_flatMap.mpr ⟨b, bound, source⟩
    · rw [indexed]
      rfl

theorem mem_unitScopes {scope : ScopePath} :
    scope ∈ (units.map RootUnit.scope).insertionSort (fun a b => ScopePath.le a b = true) ↔ ∃ u ∈ units, u.scope = scope := by
  rw [List.mem_insertionSort, List.mem_map]

theorem dependencies_within : ∀ scope d, d ∈ dependencies units bindings (unitProducerIndex units) scope →
    ∃ u ∈ units, u.scope = d := by
  intro scope d mem
  obtain ⟨u, w, -, here, -, b, -, a, -, indexed⟩ := mem_dependencies.mp mem
  exact ⟨w, (unitProducerIndex_spec indexed).1, here⟩

variable (distinct : (units.map RootUnit.scope).Nodup)

include distinct

theorem get?_unitsByScope {scope : ScopePath} {u : RootUnit} :
    (Dict.ofList (units.map (fun u => (u.scope, u)))).get? scope = some u ↔ u ∈ units ∧ u.scope = scope := by
  have names : ((units.map (fun u => (u.scope, u))).map Prod.fst).Nodup := by
    rw [List.map_map]
    exact distinct
  constructor
  · intro found
    obtain ⟨w, mem, same⟩ := List.mem_map.mp (Dict.mem_of_get?_ofList found)
    cases same
    exact ⟨mem, rfl⟩
  · rintro ⟨mem, rfl⟩
    refine Dict.get?_of_mem (Dict.nodup_ofList _) ?_
    rw [Dict.ofList_entries names]
    exact List.mem_map.mpr ⟨u, mem, rfl⟩

theorem scopes_filterMap {order : List ScopePath} (known : ∀ scope ∈ order, ∃ u ∈ units, u.scope = scope) :
    (order.filterMap (Dict.ofList (units.map (fun u => (u.scope, u)))).get?).map RootUnit.scope = order := by
  induction order with
  | nil => rfl
  | cons scope order ih =>
    obtain ⟨u, mem, same⟩ := known scope List.mem_cons_self
    rw [List.filterMap_cons_some ((get?_unitsByScope distinct).mpr ⟨mem, same⟩), List.map_cons, same,
      ih fun other mem => known other (List.mem_cons_of_mem _ mem)]

theorem ordered_of_ok (ok : orderedUnits units bindings (unitProducerIndex units) = .ok ordered) :
    Ordered units bindings ordered := by
  unfold orderedUnits at ok
  cases placing : Place.placeAll (fun _ => true) (dependencies units bindings (unitProducerIndex units))
      (units.length + 2) ((units.map RootUnit.scope).insertionSort (fun a b => ScopePath.le a b = true)) with
  | error e => rw [placing] at ok; cases ok
  | ok order =>
    rw [placing] at ok
    cases ok
    obtain ⟨placed, all⟩ := Place.placeAll_placed placing
    have known : ∀ scope ∈ order, ∃ u ∈ units, u.scope = scope :=
      Place.placeAll_within (P := fun scope => ∃ u ∈ units, u.scope = scope)
        (fun scope _ => dependencies_within scope) (fun scope mem => mem_unitScopes.mp mem) placing
    have scopes := scopes_filterMap distinct known
    have mem_iff : ∀ u, u ∈ order.filterMap (Dict.ofList (units.map (fun u => (u.scope, u)))).get? ↔ u ∈ units := by
      intro u
      rw [List.mem_filterMap]
      constructor
      · rintro ⟨scope, -, found⟩
        exact ((get?_unitsByScope distinct).mp found).1
      · intro mem
        exact ⟨u.scope, all (mem_unitScopes.mpr ⟨u, mem, rfl⟩), (get?_unitsByScope distinct).mpr ⟨mem, rfl⟩⟩
    refine ⟨?_, ?_⟩
    · refine (List.perm_ext_iff_of_nodup (List.Nodup.of_map RootUnit.scope ?_) (List.Nodup.of_map _ distinct)).mpr mem_iff
      rw [scopes]
      exact placed.nodup
    · intro pre u post split w needs
      have cut : order = pre.map RootUnit.scope ++ u.scope :: post.map RootUnit.scope := by
        rw [← scopes, split, List.map_append, List.map_cons]
      have before : w.scope ∈ pre.map RootUnit.scope :=
        placed.closed _ _ _ cut (mem_dependencies.mpr ⟨u, w, rfl, rfl, needs⟩)
      obtain ⟨w', early, same⟩ := List.mem_map.mp before
      have mine : w' ∈ units := (mem_iff w').mp (by rw [split]; exact List.mem_append_left _ early)
      obtain ⟨-, b, -, a, -, indexed⟩ := needs
      rw [List.inj_on_of_nodup_map distinct (unitProducerIndex_spec indexed).1 mine same.symm]
      exact early

theorem transGen_scopes {u : RootUnit} (mem : u ∈ units) {d : ScopePath} :
    TransGen (Place.Needs (dependencies units bindings (unitProducerIndex units))) u.scope d ↔
      ∃ w ∈ units, w.scope = d ∧ TransGen (DependsOn units bindings) u w := by
  have step : ∀ {v : RootUnit} {d : ScopePath}, v ∈ units →
      Place.Needs (dependencies units bindings (unitProducerIndex units)) v.scope d →
        ∃ w ∈ units, w.scope = d ∧ DependsOn units bindings v w := by
    intro v d mem needs
    obtain ⟨u, w, same, here, depends⟩ := mem_dependencies.mp needs
    obtain ⟨inside, b, -, a, -, indexed⟩ := id depends
    obtain rfl := List.inj_on_of_nodup_map distinct inside mem same
    exact ⟨w, (unitProducerIndex_spec indexed).1, here, depends⟩
  constructor
  · intro needs
    induction needs with
    | single needs =>
      obtain ⟨w, inside, here, depends⟩ := step mem needs
      exact ⟨w, inside, here, .single depends⟩
    | tail _ needs ih =>
      obtain ⟨v, inside, rfl, chain⟩ := ih
      obtain ⟨w, inside', here, depends⟩ := step inside needs
      exact ⟨w, inside', here, chain.tail depends⟩
  · rintro ⟨w, -, rfl, chain⟩
    exact chain.lift RootUnit.scope fun u w depends => mem_dependencies.mpr ⟨u, w, rfl, rfl, depends⟩

theorem orderedUnits_ok : (∃ ordered, orderedUnits units bindings (unitProducerIndex units) = .ok ordered) ↔
    ∀ u ∈ units, ¬TransGen (DependsOn units bindings) u u := by
  let scopes := (units.map RootUnit.scope).insertionSort (fun a b => ScopePath.le a b = true)
  have closed : ∀ scope ∈ scopes, ∀ d ∈ dependencies units bindings (unitProducerIndex units) scope, d ∈ scopes :=
    fun scope _ d needed => mem_unitScopes.mpr (dependencies_within scope d needed)
  have enough : scopes.length < units.length + 2 := by
    rw [List.length_insertionSort, List.length_map]
    omega
  have placing := Place.placeAll_ok_iff closed enough
  have whole : (∃ ordered, orderedUnits units bindings (unitProducerIndex units) = .ok ordered) ↔
      ∃ order, Place.placeAll (fun _ => true) (dependencies units bindings (unitProducerIndex units))
        (units.length + 2) ((units.map RootUnit.scope).insertionSort (fun a b => ScopePath.le a b = true)) = .ok order := by
    unfold orderedUnits
    constructor
    · rintro ⟨ordered, ok⟩
      split at ok
      · next order placed => exact ⟨order, placed⟩
      · cases ok
    · rintro ⟨order, placed⟩
      rw [placed]
      exact ⟨_, rfl⟩
  rw [whole, placing]
  constructor
  · intro acyclic u mem cycle
    exact acyclic u.scope (mem_unitScopes.mpr ⟨u, mem, rfl⟩) ((transGen_scopes distinct mem).mpr ⟨u, mem, rfl, cycle⟩)
  · intro acyclic scope mem cycle
    obtain ⟨u, inside, rfl⟩ := mem_unitScopes.mp mem
    obtain ⟨w, inside', same, chain⟩ := (transGen_scopes distinct inside).mp cycle
    obtain rfl := List.inj_on_of_nodup_map distinct inside' inside same
    exact acyclic w inside chain

end Order

end Constructicon.Walker
