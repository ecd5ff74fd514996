import Constructicon.Closedness
import Constructicon.CompiledSources
import Constructicon.Congruence

/-!
# Explicit maps

A port that maps name is bound to the sources of the selectors that name it, in the order they are
first mentioned, whatever the pool offers. When a node input is ambiguous and the fault advertises
selectors for an entry of a map, that entry with any one of them binds the port.
-/

namespace Constructicon

variable {δ : Type}

/-- The selectors that the maps of a level give for one port of a node, connection by connection. -/
def mentions (g : Graph) (node port : String) : List String :=
  (g.connections.filter (fun c => c.dst = node)).flatMap fun c =>
    (c.map.entries.filter (fun p => p.1 = port)).map Prod.snd

def distinctSelectors (selectors : List String) : List String := selectors.foldl addNew []

/-! ## The entries of one port -/

theorem filter_orderedInsert {ν : Type} (k : String) (p : String × ν) (l : List (String × ν)) :
    (l.orderedInsert (fun a b => a.1 ≤ b.1) p).filter (fun e => e.1 = k) = (p :: l).filter (fun e => e.1 = k) := by
  induction l with
  | nil => rfl
  | cons q l ih =>
    rw [List.orderedInsert_cons]
    split_ifs with before
    · rfl
    · have other : ¬ (p.1 = k ∧ q.1 = k) := by
        rintro ⟨rfl, same⟩
        exact before (same ▸ String.le_refl p.1)
      by_cases here : p.1 = k
      · have skipped : q.1 ≠ k := fun same => other ⟨here, same⟩
        simp only [List.filter_cons, ih, here, skipped, decide_true, decide_false, if_true]
        rfl
      · simp only [List.filter_cons, ih, here, decide_false]
        rfl

theorem filter_sortKeys {ν : Type} (k : String) (l : List (String × ν)) :
    (Json.sortKeys l).filter (fun e => e.1 = k) = l.filter (fun e => e.1 = k) := by
  unfold Json.sortKeys
  induction l with
  | nil => rfl
  | cons p l ih =>
    rw [List.insertionSort_cons, filter_orderedInsert]
    simp only [List.filter_cons, ih]

theorem explicit_selectors (g : Graph) (location : GraphLocation) (node port : String) :
    (((explicitMaps g location).filter (fun e => e.destinationNode = node)).filter
      (fun e => e.destinationPort = port)).map MapEntry.selector = mentions g node port := by
  have each : ∀ (connections : List Connection) (k : ℕ),
      ((((connections.zipIdx k).flatMap (fun e =>
        (Json.sortKeys e.1.map.entries).map (fun p =>
          (⟨e.2, e.1.dst, p.1, p.2, location⟩ : MapEntry)))).filter
          (fun e => e.destinationNode = node)).filter (fun e => e.destinationPort = port)).map MapEntry.selector =
        (connections.filter (fun c => c.dst = node)).flatMap fun c =>
          (c.map.entries.filter (fun p => p.1 = port)).map Prod.snd := by
    intro connections
    induction connections with
    | nil => intro k; rfl
    | cons c connections ih =>
      intro k
      rw [List.zipIdx_cons, List.flatMap_cons, List.filter_append, List.filter_append, List.map_append, ih,
        List.filter_cons]
      by_cases here : c.dst = node
      · rw [if_pos (by simpa using here), List.flatMap_cons, ← filter_sortKeys port c.map.entries]
        congr 1
        simp [List.filter_map, Function.comp_def, here, List.map_map]
      · rw [if_neg (by simpa using here)]
        simp [List.filter_map, Function.comp_def, here]
  exact each g.connections 0

/-! ## Grouping -/

def fileEntry (declared : List String) (byPort : Dict String (Dict String MapEntry)) (entry : MapEntry) :
    Dict String (Dict String MapEntry) :=
  if entry.destinationPort ∉ declared then byPort
  else byPort.insert entry.destinationPort
    ((byPort.getD entry.destinationPort .empty).setDefault entry.selector entry)

def filedMaps (declared : List String) (entries : List MapEntry) : Dict String (Dict String MapEntry) :=
  entries.foldl (fileEntry declared) .empty

theorem groupMaps_result (scope : ScopePath) (declared : List String) (entries : List MapEntry)
    (byPort : Dict String (Dict String MapEntry)) :
    (groupMaps scope declared entries byPort : Compile δ _).result = .ok (entries.foldl (fileEntry declared) byPort) := by
  induction entries generalizing byPort with
  | nil => rfl
  | cons entry entries ih =>
    rw [groupMaps, List.foldl_cons, fileEntry]
    by_cases declares : entry.destinationPort ∈ declared
    · rw [if_neg (not_not.mpr declares), if_neg (not_not.mpr declares)]
      exact ih _
    · rw [if_pos declares, if_pos declares]
      exact ih byPort

theorem getD_fileEntries {declared : List String} {port : String} (named : port ∈ declared) (entries : List MapEntry)
    (byPort : Dict String (Dict String MapEntry)) :
    (entries.foldl (fileEntry declared) byPort).getD port .empty =
      (entries.filter (fun e => e.destinationPort = port)).foldl (fun d e => d.setDefault e.selector e)
        (byPort.getD port .empty) := by
  induction entries generalizing byPort with
  | nil => rfl
  | cons entry entries ih =>
    rw [List.foldl_cons, ih, List.filter_cons, fileEntry]
    by_cases here : entry.destinationPort = port
    · rw [if_neg (by rw [here]; exact not_not.mpr named), if_pos (by simpa using here), List.foldl_cons, here]
      rw [Dict.getD.eq_1 (Dict.insert ..), Dict.get?_insert_self, Option.getD_some]
    · have skipped : ¬ decide (entry.destinationPort = port) = true := by simpa using here
      rw [if_neg skipped]
      by_cases declares : entry.destinationPort ∈ declared
      · rw [if_neg (not_not.mpr declares), Dict.getD.eq_1 (Dict.insert ..), Dict.get?_insert_ne _ _ here, ← Dict.getD]
      · rw [if_pos declares]

theorem setDefaults_keys (entries : List MapEntry) (d : Dict String MapEntry)
    (keyed : ∀ p ∈ d.entries, p.2.selector = p.1) :
    (entries.foldl (fun d e => d.setDefault e.selector e) d).values.map MapEntry.selector =
      (entries.map MapEntry.selector).foldl addNew d.keys := by
  induction entries generalizing d with
  | nil =>
    rw [List.map_nil, List.foldl_nil, List.foldl_nil, Dict.values, Dict.keys, List.map_map]
    exact List.map_congr_left keyed
  | cons entry entries ih =>
    rw [List.map_cons, List.foldl_cons, List.foldl_cons, Dict.setDefault, addNew]
    by_cases known : entry.selector ∈ d.keys
    · have held : d.contains entry.selector = true := by
        by_contra absent
        exact absurd known (Dict.notMem_keys_iff.mpr (by simpa [Dict.contains] using absent))
      rw [if_pos held, if_pos known, ih d keyed]
    · have absent : d.contains entry.selector = false := by
        rw [Dict.contains, Dict.notMem_keys_iff.mp known]
        rfl
      rw [if_neg (by simp [absent]), if_neg known, ih _ ?_, Dict.keys_insert_new known]
      intro p mem
      rw [Dict.entries_insert_new known] at mem
      rcases List.mem_append.mp mem with mem | mem
      · exact keyed p mem
      · rw [List.mem_singleton.mp mem]

theorem filedMaps_selectors {declared : List String} {port : String} (named : port ∈ declared)
    (entries : List MapEntry) :
    ((filedMaps declared entries).getD port .empty).values.map MapEntry.selector =
      distinctSelectors ((entries.filter (fun e => e.destinationPort = port)).map MapEntry.selector) := by
  rw [filedMaps, getD_fileEntries named]
  exact setDefaults_keys _ _ (by simp [Dict.getD])

/-! ## Selected sources -/

def Names (lookup : NodeLookup) (inputs : Sources) (selector : String) (s : Source) : Prop :=
  selectedSources (partitionDot selector) lookup inputs = [s]

section Results

variable (port : Port) (lookup : NodeLookup) (inputs : Sources) (scope : ScopePath)

theorem resolveSelector_ok (entry : MapEntry) :
    ∃ r, (resolveSelector entry port lookup inputs scope : Compile δ _).result = .ok r ∧
      ∀ s, r = some s → Names lookup inputs entry.selector s := by
  unfold resolveSelector Names
  dsimp only
  by_cases unnamed : (partitionDot entry.selector).2 = ""
  · rw [if_pos unnamed]
    exact ⟨none, rfl, fun s h => by cases h⟩
  · rw [if_neg unnamed]
    rcases selectedSources (partitionDot entry.selector) lookup inputs with _ | ⟨source, _ | ⟨other, rest⟩⟩
    · exact ⟨none, rfl, fun s h => by cases h⟩
    · dsimp only
      split_ifs
      · exact ⟨none, rfl, fun s h => by cases h⟩
      · exact ⟨none, rfl, fun s h => by cases h⟩
      · exact ⟨some source, rfl, fun s h => by cases h; rfl⟩
    · exact ⟨none, rfl, fun s h => by cases h⟩

theorem resolveSelectors_ok (entries : List MapEntry) :
    ∃ selected, (resolveSelectors port lookup inputs scope entries : Compile δ _).result = .ok selected ∧
      List.Forall₂ (fun (e : MapEntry) r => ∀ s, r = some s → Names lookup inputs e.selector s) entries selected := by
  induction entries with
  | nil => exact ⟨[], rfl, .nil⟩
  | cons entry entries ih =>
    obtain ⟨r, first, named⟩ := resolveSelector_ok (δ := δ) port lookup inputs scope entry
    obtain ⟨selected, others, each⟩ := ih
    refine ⟨r :: selected, ?_, .cons named each⟩
    rw [resolveSelectors, Emit.result_bind_ok first, Emit.result_bind_ok others]
    rfl

variable {lookup inputs}

theorem names_of_all {entries : List MapEntry} {selected : List (Option Source)}
    (each : List.Forall₂ (fun (e : MapEntry) r => ∀ s, r = some s → Names lookup inputs e.selector s) entries selected)
    (all : selected.all Option.isSome = true) :
    List.Forall₂ (Names lookup inputs) (entries.map MapEntry.selector) (selected.filterMap id) := by
  induction each with
  | nil => exact .nil
  | @cons entry r entries selected named _ ih =>
    rw [List.all_cons, Bool.and_eq_true] at all
    obtain ⟨s, rfl⟩ := Option.isSome_iff_exists.mp all.1
    exact .cons (named s rfl) (ih all.2)

end Results

/-! ## One port -/

section Ports

variable {a : Seat} {byPort : Dict String (Dict String MapEntry)} {feedback : List String} {port : Port}

theorem bindPort_ok (site : BindSite) (port : Port) (pool : List Source) :
    ∃ r, (bindPort site port pool : Compile δ _).result = .ok r := by
  unfold bindPort
  dsimp only
  split_ifs
  · exact ⟨none, rfl⟩
  · exact ⟨_, rfl⟩
  · exact ⟨_, rfl⟩
  · exact ⟨none, rfl⟩
  · exact ⟨_, rfl⟩
  · exact ⟨none, rfl⟩
  · exact ⟨_, rfl⟩
  · exact ⟨none, rfl⟩

theorem bindNodePort_ok (a : Seat) (byPort : Dict String (Dict String MapEntry)) (feedback : List String) (port : Port) :
    ∃ r, (bindNodePort a byPort feedback port : Compile δ _).result = .ok r ∧
      ((byPort.getD port.name .empty).values ≠ [] → ∀ sources, r = some sources →
        List.Forall₂ (Names a.nodeLookup a.inputSources)
          ((byPort.getD port.name .empty).values.map MapEntry.selector) sources) := by
  unfold bindNodePort
  dsimp only
  by_cases mapped : (byPort.getD port.name .empty).values ≠ []
  · rw [if_pos mapped]
    cases mapConflict port (byPort.getD port.name .empty).values with
    | some both => exact ⟨none, rfl, fun _ sources h => by cases h⟩
    | none =>
      obtain ⟨selected, resolved, each⟩ := resolveSelectors_ok (δ := δ) port a.nodeLookup a.inputSources
        a.scope (byPort.getD port.name .empty).values
      dsimp only
      rw [Emit.result_bind_ok resolved]
      by_cases all : selected.all Option.isSome = true
      · refine ⟨some (selected.filterMap id), by rw [if_pos all]; rfl, fun _ sources h => ?_⟩
        cases h
        exact names_of_all each all
      · exact ⟨none, by rw [if_neg all]; rfl, fun _ sources h => by cases h⟩
  · rw [if_neg mapped]
    split_ifs
    · exact ⟨none, rfl, fun h => absurd h mapped⟩
    · obtain ⟨r, bound⟩ := bindPort_ok (δ := δ) a.site port a.pool
      exact ⟨r, bound, fun h => absurd h mapped⟩

theorem bindPorts_ok (a : Seat) (byPort : Dict String (Dict String MapEntry)) (feedback : List String)
    (ports : List Port) (bound : Sources) :
    ∃ r, (bindPorts a byPort feedback ports bound : Compile δ _).result = .ok r ∧
      ∀ name sources, r.get? name = some sources → bound.get? name = some sources ∨
        ∃ port ∈ ports, port.name = name ∧
          (bindNodePort a byPort feedback port : Compile δ _).result = .ok (some sources) := by
  induction ports generalizing bound with
  | nil => exact ⟨bound, rfl, fun name sources h => .inl h⟩
  | cons port ports ih =>
    obtain ⟨r, first, -⟩ := bindNodePort_ok (δ := δ) a byPort feedback port
    rw [bindPorts, Emit.result_bind_ok first]
    cases r with
    | none =>
      obtain ⟨r, others, each⟩ := ih bound
      refine ⟨r, others, fun name sources h => ?_⟩
      rcases each name sources h with before | ⟨q, mem, same, ok⟩
      · exact .inl before
      · exact .inr ⟨q, List.mem_cons_of_mem _ mem, same, ok⟩
    | some here =>
      obtain ⟨r, others, each⟩ := ih (bound.insert port.name here)
      refine ⟨r, others, fun name sources h => ?_⟩
      rcases each name sources h with before | ⟨q, mem, same, ok⟩
      · by_cases named : port.name = name
        · subst named
          rw [Dict.get?_insert_self] at before
          cases before
          exact .inr ⟨port, List.mem_cons_self, rfl, first⟩
        · rw [Dict.get?_insert_ne _ _ named] at before
          exact .inl before
      · exact .inr ⟨q, List.mem_cons_of_mem _ mem, same, ok⟩

theorem bindNodeInputs_result (a : Seat) (inputs : List Port) (feedback : List String) :
    (bindNodeInputs a inputs feedback : Compile δ _).result =
      (bindPorts a (filedMaps (inputs.map Port.name) a.explicit) feedback inputs .empty : Compile δ _).result := by
  rw [bindNodeInputs, Emit.result_bind_ok (groupMaps_result ..)]
  rfl

end Ports

/-! ## Exact maps -/

theorem mem_foldl_addNew {x : String} (l acc : List String) : x ∈ l.foldl addNew acc ↔ x ∈ acc ∨ x ∈ l := by
  induction l generalizing acc with
  | nil => simp
  | cons y l ih =>
    rw [List.foldl_cons, ih, addNew]
    split_ifs with known
    · constructor
      · rintro (mem | mem)
        · exact .inl mem
        · exact .inr (List.mem_cons_of_mem _ mem)
      · rintro (mem | mem)
        · exact .inl mem
        · rcases List.mem_cons.mp mem with rfl | mem
          · exact .inl known
          · exact .inr mem
    · simp only [List.mem_append, List.mem_cons, List.not_mem_nil, or_false, or_assoc]

theorem mem_distinctSelectors {x : String} {l : List String} : x ∈ distinctSelectors l ↔ x ∈ l := by
  rw [distinctSelectors, mem_foldl_addNew]
  simp

theorem values_selectors (a : Seat) {inputs : List Port} {port : Port} (mem : port ∈ inputs) :
    ((filedMaps (inputs.map Port.name) a.explicit).getD port.name .empty).values.map MapEntry.selector =
      distinctSelectors ((a.explicit.filter (fun e => e.destinationPort = port.name)).map MapEntry.selector) :=
  filedMaps_selectors (List.mem_map.mpr ⟨port, mem, rfl⟩) a.explicit

theorem bound_exact {a : Seat} {inputs : List Port} {feedback : List String} {bound : Sources}
    (ok : (bindNodeInputs a inputs feedback : Compile δ _).result = .ok bound) {name : String}
    (named : (a.explicit.filter (fun e => e.destinationPort = name)).map MapEntry.selector ≠ [])
    {sources : List Source} (found : bound.get? name = some sources) :
    List.Forall₂ (Names a.nodeLookup a.inputSources)
      (distinctSelectors ((a.explicit.filter (fun e => e.destinationPort = name)).map MapEntry.selector))
      sources := by
  rw [bindNodeInputs_result] at ok
  obtain ⟨r, ran, each⟩ := bindPorts_ok (δ := δ) a (filedMaps (inputs.map Port.name) a.explicit) feedback inputs .empty
  rw [ran] at ok
  cases ok
  rcases each name sources found with before | ⟨q, inside, same, bindsTo⟩
  · cases before
  · obtain ⟨r, first, exact⟩ := bindNodePort_ok (δ := δ) a (filedMaps (inputs.map Port.name) a.explicit) feedback q
    rw [bindsTo] at first
    cases first
    have listed := values_selectors a inside
    rw [same] at listed
    have mapped : ((filedMaps (inputs.map Port.name) a.explicit).getD q.name .empty).values ≠ [] := by
      intro none
      obtain ⟨s, l, some_selector⟩ := List.exists_cons_of_ne_nil named
      have inside : s ∈ distinctSelectors
          ((a.explicit.filter (fun e => e.destinationPort = name)).map MapEntry.selector) :=
        mem_distinctSelectors.mpr (some_selector ▸ List.mem_cons_self)
      rw [← listed, ← same, none] at inside
      cases inside
    have exactly := exact mapped sources rfl
    rwa [same, listed] at exactly

/-! ## What binding faults say -/

def Fault.defect? : Fault → Option Defect
  | .located _ _ defect _ => some defect
  | _ => none

def Json.string? : Json → Option String
  | .str s => some s
  | _ => none

def Fault.portName? : Fault → Option String
  | .located _ _ _ evidence => evidence.findSome? fun e =>
    if e.1 = "destination_port" then e.2.string? else none
  | _ => none

@[simp] theorem mapFault_portName? (entry : MapEntry) (scope : ScopePath) (defect : Defect)
    (evidence : List (String × Json)) :
    (mapFault entry scope defect evidence).portName? = some entry.destinationPort := by
  simp [mapFault, Fault.portName?, Json.string?]

@[simp] theorem mapFault_defect? (entry : MapEntry) (scope : ScopePath) (defect : Defect)
    (evidence : List (String × Json)) : (mapFault entry scope defect evidence).defect? = some defect := rfl

@[simp] theorem missingSourceFault_portName? (site : BindSite) (port : Port) :
    (missingSourceFault site port).portName? = some port.name := by
  simp [missingSourceFault, Fault.portName?, Json.string?]

theorem ambiguousPortFault_portName? (site : BindSite) (port : Port) (sources : List Source) :
    (ambiguousPortFault site port sources).portName? = some port.name := by
  unfold ambiguousPortFault
  dsimp only
  split
  · exact mapFault_portName? ..
  · simp [Fault.portName?, Json.string?]

theorem bindPort_faults {site : BindSite} {port : Port} {pool : List Source} {f : Fault}
    (mem : .fault f ∈ (bindPort site port pool : Compile δ _).log) :
    f = missingSourceFault site port ∨ ∃ sources, f = ambiguousPortFault site port sources := by
  have logged : ∀ {F : Fault}, Emitted.fault f ∈ (fault F >>= fun _ => pure none : Compile δ (Option (List Source))).log →
      f = F := by
    intro F inside
    rw [fault, Emit.log_tell_bind, Emit.log_pure, List.mem_singleton] at inside
    exact Emitted.fault.inj inside
  unfold bindPort at mem
  dsimp only at mem
  split_ifs at mem
  · exact .inl (logged mem)
  · cases mem
  · cases mem
  · exact .inr ⟨_, logged mem⟩
  · cases mem
  · exact .inr ⟨_, logged mem⟩
  · cases mem
  · exact .inl (logged mem)

theorem resolveSelector_faults {entry : MapEntry} {port : Port} {lookup : NodeLookup} {inputs : Sources}
    {scope : ScopePath} {f : Fault}
    (mem : .fault f ∈ (resolveSelector entry port lookup inputs scope : Compile δ _).log) :
    f.portName? = some entry.destinationPort ∧ f.defect? ≠ some .ambiguousNodeInput := by
  have logged : ∀ {defect : Defect} {evidence : List (String × Json)}, defect ≠ .ambiguousNodeInput →
      Emitted.fault f ∈ (fault (mapFault entry scope defect evidence) >>= fun _ => pure none :
        Compile δ (Option Source)).log →
      f.portName? = some entry.destinationPort ∧ f.defect? ≠ some .ambiguousNodeInput := by
    intro defect evidence other inside
    rw [fault, Emit.log_tell_bind, Emit.log_pure, List.mem_singleton] at inside
    rw [Emitted.fault.inj inside, mapFault_portName?, mapFault_defect?]
    exact ⟨rfl, fun same => other (Option.some.inj same)⟩
  unfold resolveSelector at mem
  dsimp only at mem
  by_cases unnamed : (partitionDot entry.selector).2 = ""
  · rw [if_pos unnamed] at mem
    exact logged (by decide) mem
  · rw [if_neg unnamed] at mem
    generalize selectedSources (partitionDot entry.selector) lookup inputs = found at mem
    rcases found with _ | ⟨source, _ | ⟨other, rest⟩⟩
    · exact logged (by decide) mem
    · dsimp only at mem
      split_ifs at mem
      · exact logged (by decide) mem
      · exact logged (by decide) mem
      · cases mem
    · exact logged (by decide) mem

theorem resolveSelectors_faults {name : String} {port : Port} {lookup : NodeLookup} {inputs : Sources} {scope : ScopePath}
    {entries : List MapEntry} (keyed : ∀ e ∈ entries, e.destinationPort = name) {f : Fault}
    (mem : .fault f ∈ (resolveSelectors port lookup inputs scope entries : Compile δ _).log) :
    f.portName? = some name ∧ f.defect? ≠ some .ambiguousNodeInput := by
  induction entries with
  | nil => cases mem
  | cons entry entries ih =>
    obtain ⟨r, first, -⟩ := resolveSelector_ok (δ := δ) port lookup inputs scope entry
    rw [resolveSelectors, Emit.log_bind_ok first] at mem
    rcases List.mem_append.mp mem with here | later
    · have said := resolveSelector_faults here
      rwa [keyed entry List.mem_cons_self] at said
    · obtain ⟨selected, others, -⟩ := resolveSelectors_ok (δ := δ) port lookup inputs scope entries
      rw [Emit.log_bind_ok others, Emit.log_pure, List.append_nil] at later
      exact ih (fun e inside => keyed e (List.mem_cons_of_mem _ inside)) later

theorem bindNodePort_faults {a : Seat} {byPort : Dict String (Dict String MapEntry)} {feedback : List String}
    {port : Port} (keyed : ∀ e ∈ (byPort.getD port.name .empty).values, e.destinationPort = port.name) {f : Fault}
    (mem : .fault f ∈ (bindNodePort a byPort feedback port : Compile δ _).log) :
    f.portName? = some port.name ∧ (f.defect? = some .ambiguousNodeInput →
      (byPort.getD port.name .empty).values = [] ∧ ∃ sources, f = ambiguousPortFault a.site port sources) := by
  unfold bindNodePort at mem
  dsimp only at mem
  by_cases mapped : (byPort.getD port.name .empty).values ≠ []
  · rw [if_pos mapped] at mem
    cases conflict : mapConflict port (byPort.getD port.name .empty).values with
    | some both =>
      obtain ⟨first, second⟩ := both
      rw [conflict] at mem
      dsimp only at mem
      rw [fault, Emit.log_tell_bind, Emit.log_pure, List.mem_singleton] at mem
      have listed : second ∈ (byPort.getD port.name .empty).values := by
        rcases entries : (byPort.getD port.name .empty).values with _ | ⟨e, _ | ⟨e', rest⟩⟩
        · exact absurd entries mapped
        · rw [entries] at conflict
          cases conflict
        · rw [entries, mapConflict] at conflict
          split_ifs at conflict
          cases conflict
          simp
      rw [Emitted.fault.inj mem, duplicateMapFault, mapFault_portName?, mapFault_defect?, keyed second listed]
      exact ⟨rfl, fun same => by cases same⟩
    | none =>
      rw [conflict] at mem
      dsimp only at mem
      obtain ⟨selected, resolved, -⟩ := resolveSelectors_ok (δ := δ) port a.nodeLookup a.inputSources
        a.scope (byPort.getD port.name .empty).values
      rw [Emit.log_bind_ok resolved] at mem
      rcases List.mem_append.mp mem with here | later
      · obtain ⟨named, other⟩ := resolveSelectors_faults keyed here
        exact ⟨named, fun same => absurd same other⟩
      · split_ifs at later
        · cases later
        · cases later
  · rw [if_neg mapped] at mem
    have unmapped := not_not.mp mapped
    split_ifs at mem
    · rw [fault, Emit.log_tell_bind, Emit.log_pure, List.mem_singleton] at mem
      rw [Emitted.fault.inj mem]
      exact ⟨by simp [Fault.portName?, Json.string?], fun same => by cases same⟩
    · rcases bindPort_faults mem with rfl | ⟨sources, rfl⟩
      · exact ⟨missingSourceFault_portName? .., fun same => by cases same⟩
      · exact ⟨ambiguousPortFault_portName? .., fun _ => ⟨unmapped, sources, rfl⟩⟩

theorem filedMaps_keyed {declared : List String} {port : String} (named : port ∈ declared) (entries : List MapEntry) :
    ∀ e ∈ ((filedMaps declared entries).getD port .empty).values, e.destinationPort = port := by
  rw [filedMaps, getD_fileEntries named]
  have kept : ∀ (l : List MapEntry) (d : Dict String MapEntry), (∀ e ∈ l, e.destinationPort = port) →
      (∀ e ∈ d.values, e.destinationPort = port) →
      ∀ e ∈ (l.foldl (fun d e => d.setDefault e.selector e) d).values, e.destinationPort = port := by
    intro l
    induction l with
    | nil => exact fun d _ held => held
    | cons entry l ih =>
      intro d each held
      rw [List.foldl_cons]
      apply ih _ fun e mem => each e (List.mem_cons_of_mem _ mem)
      intro e mem
      obtain ⟨k, inside⟩ := Dict.mem_values.mp mem
      rw [Dict.setDefault] at inside
      split_ifs at inside
      · exact held e (Dict.mem_values.mpr ⟨k, inside⟩)
      · rcases Dict.mem_insert inside with new | old
        · cases new
          exact each entry List.mem_cons_self
        · exact held e (Dict.mem_values.mpr ⟨k, old⟩)
  apply kept
  · intro e mem
    simpa using (List.mem_filter.mp mem).2
  · intro e mem
    cases mem

/-! ## Candidates -/

theorem partitionDot_join {node : String} (name : String) (undotted : '.' ∉ node.toList) :
    partitionDot (node ++ "." ++ name) = (node, name) := by
  have text : (node ++ "." ++ name).toList = node.toList ++ '.' :: name.toList := by simp
  have clear : ∀ c ∈ node.toList, decide (c ≠ '.') = true := by
    intro c mem
    simpa using fun dot : c = '.' => undotted (dot ▸ mem)
  have before : (node.toList ++ '.' :: name.toList).takeWhile (fun c => decide (c ≠ '.')) = node.toList := by
    rw [List.takeWhile_append_of_pos clear]
    simp
  have after : (node.toList ++ '.' :: name.toList).dropWhile (fun c => decide (c ≠ '.')) = '.' :: name.toList := by
    rw [List.dropWhile_append_of_pos clear]
    simp
  rw [partitionDot, text, before, after]
  simp

/-- A selector that resolution accepts for a port: it names one source, which is scalar and of the port's contract. -/
structure Accepted (lookup : NodeLookup) (inputs : Sources) (port : Port) (selector : String) (s : Source) : Prop where
  names : Names lookup inputs selector s
  formed : (partitionDot selector).2 ≠ ""
  scalar : s.port.cardinality = .one
  contract : s.matches port = true

theorem mem_selectorsOf {label selector : String} {outputs : Sources} {port : Port} {sources : List Source}
    (mem : selector ∈ selectorsOf label outputs port sources) :
    ∃ name s, (name, [s]) ∈ outputs.entries ∧ name ≠ "" ∧ s.port.cardinality = .one ∧ s.matches port = true ∧
      selector = label ++ "." ++ name := by
  obtain ⟨⟨name, resolved⟩, inside, chosen⟩ := List.mem_filterMap.mp mem
  have entry : (name, resolved) ∈ outputs.entries := (List.perm_insertionSort _ _).mem_iff.mp inside
  rcases resolved with _ | ⟨s, _ | ⟨other, rest⟩⟩
  · cases chosen
  · dsimp only at chosen
    split_ifs at chosen with fits
    exact ⟨name, s, entry, fits.1, fits.2.2.1, fits.2.2.2, (Option.some.inj chosen).symm⟩
  · cases chosen

theorem candidate_accepted {port : Port} {sources : List Source} {lookup : NodeLookup} {inputs : Sources}
    {upstream : List String} (nodes : lookup.keys.Nodup) (outputs : ∀ p ∈ lookup.entries, p.2.keys.Nodup)
    (ports : inputs.keys.Nodup) {selector : String}
    (mem : selector ∈ applicableSelectors port sources (some (lookup, inputs, upstream))) :
    ∃ s, Accepted lookup inputs port selector s := by
  rw [applicableSelectors, sortStrings, List.mem_insertionSort] at mem
  rcases List.mem_append.mp mem with offered | offered
  · obtain ⟨⟨node, named⟩, inside, chosen⟩ := List.mem_flatMap.mp offered
    have entry : (node, named) ∈ lookup.entries := (List.perm_insertionSort _ _).mem_iff.mp inside
    dsimp only at chosen
    split_ifs at chosen with excluded
    · cases chosen
    · obtain ⟨name, s, output, some_name, scalar, contract, rfl⟩ := mem_selectorsOf chosen
      have parts := partitionDot_join name fun dot => excluded (.inr (.inl dot))
      refine ⟨s, ?_, by rw [parts]; exact some_name, scalar, contract⟩
      rw [Names, parts, selectedSources, if_neg fun input => excluded (.inl input), Dict.getD.eq_1 lookup,
        Dict.get?_of_mem nodes entry, Option.getD_some, Dict.getD, Dict.get?_of_mem (outputs _ entry) output,
        Option.getD_some]
  · obtain ⟨name, s, output, some_name, scalar, contract, rfl⟩ := mem_selectorsOf offered
    have parts : partitionDot ("$input" ++ "." ++ name) = ("$input", name) := partitionDot_join name (by decide)
    refine ⟨s, ?_, by rw [parts]; exact some_name, scalar, contract⟩
    rw [Names, parts, selectedSources, if_pos rfl, Dict.getD, Dict.get?_of_mem ports output, Option.getD_some]

theorem Accepted.resolves {lookup : NodeLookup} {inputs : Sources} {port : Port} {s : Source} {entry : MapEntry}
    (accepted : Accepted lookup inputs port entry.selector s) (scope : ScopePath) :
    (resolveSelector entry port lookup inputs scope : Compile δ _) = pure (some s) := by
  have named := accepted.names
  unfold Names at named
  unfold resolveSelector
  dsimp only
  rw [if_neg accepted.formed, named]
  dsimp only
  rw [if_neg (not_not.mpr accepted.scalar), if_neg (by rw [accepted.contract]; decide)]

theorem Accepted.binds {a : Seat} {byPort : Dict String (Dict String MapEntry)} {feedback : List String} {port : Port}
    {s : Source} {entry : MapEntry} (single : (byPort.getD port.name .empty).values = [entry])
    (accepted : Accepted a.nodeLookup a.inputSources port entry.selector s) :
    (bindNodePort a byPort feedback port : Compile δ _) = pure (some [s]) := by
  unfold bindNodePort
  dsimp only
  rw [single, if_pos (List.cons_ne_nil _ _)]
  change (resolveSelectors port a.nodeLookup a.inputSources a.scope [entry] >>= fun selected =>
    if selected.all Option.isSome then pure (some (selected.filterMap id)) else pure none) = _
  rw [resolveSelectors, accepted.resolves]
  rfl

/-! ## The repaired level -/

/-- The entry that the advertised repair adds to the map of a connection. -/
def Connection.addMap (port selector : String) (c : Connection) : Connection :=
  { c with map := c.map.insert port selector }

def Graph.addMap (g : Graph) (index : ℕ) (port selector : String) : Graph :=
  { g with connections := g.connections.modify index (Connection.addMap port selector) }

theorem modify_append {α : Type} (f : α → α) (front : List α) (x : α) (back : List α) :
    (front ++ x :: back).modify front.length f = front ++ f x :: back := by
  induction front with
  | nil => rfl
  | cons y front ih => simp only [List.cons_append, List.length_cons, List.modify_succ_cons, ih]

theorem map_modify_same {α β : Type} {f : α → α} {g : α → β} (same : ∀ x, g (f x) = g x) (l : List α) (i : ℕ) :
    (l.modify i f).map g = l.map g := by
  induction l generalizing i with
  | nil => simp
  | cons x l ih =>
    cases i with
    | zero => simp [same]
    | succ i => simp [ih]

theorem incoming_split {g : Graph} {node : String} {index : ℕ}
    (found : (incomingConnectionIndices g).get? node = some index) :
    ∃ front c back, g.connections = front ++ c :: back ∧ front.length = index ∧ c.dst = node := by
  have search : ∀ (connections : List Connection) (k : ℕ) (d : Dict String ℕ),
      ((connections.zipIdx k).foldl (fun d e => d.setDefault e.1.dst e.2) d).get? node =
        some index → d.get? node = some index ∨
          ∃ front c back, connections = front ++ c :: back ∧ k + front.length = index ∧ c.dst = node := by
    intro connections
    induction connections with
    | nil => exact fun k d h => .inl h
    | cons c connections ih =>
      intro k d h
      rw [List.zipIdx_cons, List.foldl_cons] at h
      rcases ih (k + 1) _ h with before | ⟨front, c', back, rfl, place, enters⟩
      · dsimp only at before
        rw [Dict.setDefault] at before
        split_ifs at before with held
        · exact .inl before
        · by_cases here : c.dst = node
          · rw [here, Dict.get?_insert_self] at before
            exact .inr ⟨[], c, connections, rfl, Option.some.inj before, here⟩
          · rw [Dict.get?_insert_ne _ _ here] at before
            exact .inl before
      · exact .inr ⟨c :: front, c', back, rfl, by rw [List.length_cons]; omega, enters⟩
  rcases search g.connections 0 .empty found with before | ⟨front, c, back, split, place, enters⟩
  · cases before
  · exact ⟨front, c, back, split, by omega, enters⟩

section Repair

variable (g : Graph) (index : ℕ) (port selector : String)

theorem connectionEdges_addMap : connectionEdges (Graph.addMap g index port selector) = connectionEdges g :=
  map_modify_same (f := Connection.addMap port selector) (fun _ => rfl) g.connections index

theorem incomingConnectionIndices_addMap :
    incomingConnectionIndices (Graph.addMap g index port selector) = incomingConnectionIndices g := by
  have entered : ∀ g : Graph, incomingConnectionIndices g =
      ((g.connections.map Connection.dst).zipIdx).foldl (fun d p => d.setDefault p.1 p.2) .empty := by
    intro g
    rw [List.zipIdx_map, List.foldl_map]
    rfl
  rw [entered, entered]
  congr 2
  exact map_modify_same (f := Connection.addMap port selector) (fun _ => rfl) g.connections index

theorem explicit_addMap_other {g : Graph} {front back : List Connection} {c : Connection}
    (split : g.connections = front ++ c :: back) {node : String} (other : c.dst ≠ node) (location : GraphLocation) :
    (explicitMaps (Graph.addMap g front.length port selector) location).filter (fun e => e.destinationNode = node) =
      (explicitMaps g location).filter (fun e => e.destinationNode = node) := by
  have silent : ∀ (m : Dict String String) (k : ℕ), ((Json.sortKeys m.entries).map (fun p =>
      (⟨k, c.dst, p.1, p.2, location⟩ : MapEntry))).filter (fun e => e.destinationNode = node) = [] := by
    intro m k
    apply List.filter_eq_nil_iff.mpr
    intro e mem
    obtain ⟨p, -, rfl⟩ := List.mem_map.mp mem
    simpa using other
  have connections : (Graph.addMap g front.length port selector).connections =
      front ++ c.addMap port selector :: back := by
    rw [Graph.addMap, split]
    exact modify_append _ front c back
  unfold explicitMaps
  rw [connections, split, List.zipIdx_append, List.zipIdx_append, List.flatMap_append, List.flatMap_append,
    List.filter_append, List.filter_append, List.zipIdx_cons, List.zipIdx_cons, List.flatMap_cons, List.flatMap_cons,
    List.filter_append, List.filter_append]
  congr 2
  exact (silent _ _).trans (silent _ _).symm

theorem mentions_addMap {g : Graph} {front back : List Connection} {c : Connection}
    (split : g.connections = front ++ c :: back) (none : mentions g c.dst port = []) :
    mentions (Graph.addMap g front.length port selector) c.dst port = [selector] := by
  have connections : (Graph.addMap g front.length port selector).connections =
      front ++ c.addMap port selector :: back := by
    rw [Graph.addMap, split]
    exact modify_append _ front c back
  unfold mentions at none ⊢
  rw [split, List.filter_append, List.flatMap_append, List.filter_cons_of_pos (by simp), List.flatMap_cons] at none
  rw [connections, List.filter_append, List.flatMap_append, List.filter_cons_of_pos (by simp [Connection.addMap]),
    List.flatMap_cons]
  obtain ⟨before, rest⟩ := List.append_eq_nil_iff.mp none
  obtain ⟨here, after⟩ := List.append_eq_nil_iff.mp rest
  have fresh : port ∉ c.map.keys := by
    intro mem
    obtain ⟨s, entry⟩ := Dict.mem_keys.mp mem
    have inside : s ∈ (c.map.entries.filter (fun p => p.1 = port)).map Prod.snd :=
      List.mem_map.mpr ⟨(port, s), List.mem_filter.mpr ⟨entry, by simp⟩, rfl⟩
    rw [here] at inside
    cases inside
  rw [before, after, Connection.addMap, Dict.entries_insert_new fresh, List.filter_append, List.map_append, here]
  simp

end Repair

/-! ## Reaching the node -/

theorem Progress.suffix {rec : Seat → Compile δ Sources} {g : Graph} {l : Level} {nodes : List GraphNode}
    {outputs : NodeLookup} (progress : Progress rec g l nodes outputs) :
    ∃ front, orderedNodes g (upstreamClosure (nodeIds g) (connectionEdges g)) = .ok (front ++ nodes) := by
  induction progress with
  | start order => exact ⟨[], order⟩
  | @step node nodes outputs _ _ _ _ ih =>
    obtain ⟨front, order⟩ := ih
    exact ⟨front ++ [node], by rw [order, List.append_assoc]; rfl⟩

theorem seatOf_addMap {g : Graph} {front back : List Connection} {c : Connection}
    (split : g.connections = front ++ c :: back) (port selector : String) (l : Level)
    (upstream : Dict String (List String)) (outputs : NodeLookup) {node : GraphNode} (other : c.dst ≠ node.id) :
    seatOf (Graph.addMap g front.length port selector) l upstream outputs node = seatOf g l upstream outputs node := by
  unfold seatOf
  rw [explicit_addMap_other port selector split other, incomingConnectionIndices_addMap]
  rfl

theorem Progress.repaired {w : World δ} {d : δ} {depth : ℕ} {g : Graph} {l : Level} {front back : List Connection}
    {c : Connection} (split : g.connections = front ++ c :: back) (port selector : String) {nodes : List GraphNode}
    {outputs : NodeLookup} (progress : Progress (compileNode w depth) g l nodes outputs)
    (waiting : ∃ node ∈ nodes, node.id = c.dst) :
    Progress (compileNode (w.rehash d) depth) (Graph.addMap g front.length port selector) l nodes outputs := by
  have edges := connectionEdges_addMap g front.length port selector
  induction progress with
  | start order => exact .start (by rw [edges]; exact order)
  | @step node nodes outputs before log o returned ih =>
    obtain ⟨target, later, enters⟩ := waiting
    obtain ⟨done, order⟩ := before.suffix
    have distinct := orderedNodes_nodup order
    rw [List.map_append, List.map_cons] at distinct
    have other : c.dst ≠ node.id := by
      intro same
      have twice := (List.nodup_cons.mp (List.nodup_append.mp distinct).2.1).1
      exact twice (List.mem_map.mpr ⟨target, later, by rw [enters, same]⟩)
    have again := ih ⟨target, List.mem_cons_of_mem _ later, enters⟩
    have result := compileNode_rehash w d depth (seatOf g l (upstreamClosure (nodeIds g) (connectionEdges g)) outputs node)
    rw [returned.result] at result
    have step := Emit.returns_of_result result
    rw [← seatOf_addMap split port selector l _ outputs other, ← edges] at step
    exact .step again step

/-! ## The binding of a node -/

theorem groupMaps_faults {scope : ScopePath} {declared : List String} {entries : List MapEntry}
    {byPort : Dict String (Dict String MapEntry)} {f : Fault}
    (mem : .fault f ∈ (groupMaps scope declared entries byPort : Compile δ _).log) :
    f.defect? = some .unusedMapDestination ∧ ∀ name ∈ declared, f.portName? ≠ some name := by
  induction entries generalizing byPort with
  | nil => cases mem
  | cons entry entries ih =>
    rw [groupMaps] at mem
    by_cases declares : entry.destinationPort ∈ declared
    · rw [if_neg (not_not.mpr declares)] at mem
      exact ih mem
    · rw [if_pos declares, fault, Emit.log_tell_bind] at mem
      rcases List.mem_cons.mp mem with here | later
      · rw [Emitted.fault.inj here, mapFault_defect?, mapFault_portName?]
        exact ⟨rfl, fun name inside same => declares (Option.some.inj same ▸ inside)⟩
      · exact ih later

theorem bindPorts_faults {a : Seat} {byPort : Dict String (Dict String MapEntry)} {feedback : List String}
    {ports : List Port} {bound : Sources} {f : Fault}
    (mem : .fault f ∈ (bindPorts a byPort feedback ports bound : Compile δ _).log) :
    ∃ port ∈ ports, .fault f ∈ (bindNodePort a byPort feedback port : Compile δ _).log := by
  induction ports generalizing bound with
  | nil => cases mem
  | cons port ports ih =>
    obtain ⟨r, first, -⟩ := bindNodePort_ok (δ := δ) a byPort feedback port
    rw [bindPorts, Emit.log_bind_ok first] at mem
    rcases List.mem_append.mp mem with here | later
    · exact ⟨port, List.mem_cons_self, here⟩
    · cases r with
      | none =>
        obtain ⟨q, inside, said⟩ := ih later
        exact ⟨q, List.mem_cons_of_mem _ inside, said⟩
      | some sources =>
        obtain ⟨q, inside, said⟩ := ih later
        exact ⟨q, List.mem_cons_of_mem _ inside, said⟩

theorem bindPorts_bound {a : Seat} {byPort : Dict String (Dict String MapEntry)} {feedback : List String}
    {ports : List Port} {bound r : Sources} {name : String}
    (ran : (bindPorts a byPort feedback ports bound : Compile δ _).result = .ok r)
    (binds : bound.get? name ≠ none ∨ ∃ port ∈ ports, port.name = name ∧
      ∃ sources, (bindNodePort a byPort feedback port : Compile δ _).result = .ok (some sources)) :
    r.get? name ≠ none := by
  induction ports generalizing bound with
  | nil =>
    cases ran
    rcases binds with held | ⟨port, mem, -⟩
    · exact held
    · cases mem
  | cons port ports ih =>
    obtain ⟨here, first, -⟩ := bindNodePort_ok (δ := δ) a byPort feedback port
    rw [bindPorts, Emit.result_bind_ok first] at ran
    have kept : ∀ sources, bound.get? name ≠ none → (bound.insert port.name sources).get? name ≠ none := by
      intro sources held
      by_cases named : port.name = name
      · rw [named, Dict.get?_insert_self]
        simp
      · rwa [Dict.get?_insert_ne _ _ named]
    cases here with
    | none =>
      apply ih ran
      rcases binds with held | ⟨q, mem, named, sources, ok⟩
      · exact .inl held
      · rcases List.mem_cons.mp mem with rfl | mem
        · rw [first] at ok
          cases ok
        · exact .inr ⟨q, mem, named, sources, ok⟩
    | some here =>
      apply ih ran
      rcases binds with held | ⟨q, mem, named, sources, ok⟩
      · exact .inl (kept here held)
      · rcases List.mem_cons.mp mem with rfl | mem
        · left
          rw [← named, Dict.get?_insert_self]
          simp
        · exact .inr ⟨q, mem, named, sources, ok⟩

theorem bindNodeInputs_faults {a : Seat} {inputs : List Port} {feedback : List String} {f : Fault}
    (mem : .fault f ∈ (bindNodeInputs a inputs feedback : Compile δ _).log) :
    (f.defect? = some .unusedMapDestination ∧ ∀ port ∈ inputs, f.portName? ≠ some port.name) ∨
      ∃ port ∈ inputs, .fault f ∈
        (bindNodePort a (filedMaps (inputs.map Port.name) a.explicit) feedback port : Compile δ _).log := by
  rw [bindNodeInputs, Emit.log_bind_ok (groupMaps_result ..)] at mem
  rcases List.mem_append.mp mem with grouping | binding
  · obtain ⟨unused, other⟩ := groupMaps_faults grouping
    exact .inl ⟨unused, fun port inside => other port.name (List.mem_map.mpr ⟨port, inside, rfl⟩)⟩
  · exact .inr (bindPorts_faults binding)

/-! ## Repairs -/

/-- The seat of a node at a level, when the outputs of the nodes before it are compiled. -/
def levelSeat (g : Graph) (l : Level) (outputs : NodeLookup) (node : GraphNode) : Seat :=
  seatOf g l (upstreamClosure (nodeIds g) (connectionEdges g)) outputs node

/-- The fault of an ambiguous node input, with the map entry it is located at and the selectors it advertises. -/
def ambiguity (entry : MapEntry) (scope : ScopePath) (candidates : List String) : Fault :=
  mapFault entry scope .ambiguousNodeInput [("candidate_selectors", Json.strs candidates)]

/-- A level that reaches the node as before binds the port to the source of the selector, and what faults name
the port are of other ports of its name. -/
structure Repairs (rec : Seat → Compile δ Sources) (g : Graph) (l : Level) (node : GraphNode) (rest : List GraphNode)
    (outputs : NodeLookup) (inputs : List Port) (feedback : List String) (port : Port) (s : Source) : Prop where
  reached : Progress rec g l (node :: rest) outputs
  binds : (bindNodePort (levelSeat g l outputs node)
    (filedMaps (inputs.map Port.name) (levelSeat g l outputs node).explicit) feedback port : Compile δ _) = pure (some [s])
  bound : ∀ bound, (bindNodeInputs (levelSeat g l outputs node) inputs feedback : Compile δ _).result = .ok bound →
    bound.get? port.name = some [s]
  silent : ∀ f, .fault f ∈ (bindNodeInputs (levelSeat g l outputs node) inputs feedback : Compile δ _).log →
    f.portName? = some port.name → ∃ other ∈ inputs, other ≠ port ∧ other.name = port.name

theorem repairs_of_single {rec : Seat → Compile δ Sources} {g : Graph} {l : Level} {node : GraphNode}
    {rest : List GraphNode} {outputs : NodeLookup} {inputs : List Port} {feedback : List String} {port : Port}
    {selector : String} {s : Source} (reached : Progress rec g l (node :: rest) outputs) (mem : port ∈ inputs)
    (single : mentions g node.id port.name = [selector]) (accepted : Accepted outputs l.inputSources port selector s) :
    Repairs rec g l node rest outputs inputs feedback port s := by
  have listed : ∀ q ∈ inputs, q.name = port.name →
      ((filedMaps (inputs.map Port.name) (levelSeat g l outputs node).explicit).getD q.name .empty).values.map
        MapEntry.selector = [selector] := by
    intro q inside same
    rw [values_selectors (levelSeat g l outputs node) inside, same]
    have selectors := explicit_selectors g l.location node.id port.name
    rw [single] at selectors
    exact congrArg distinctSelectors selectors
  obtain ⟨entry, values, rfl⟩ := List.map_eq_singleton_iff.mp (listed port mem rfl)
  have binds : (bindNodePort (levelSeat g l outputs node)
      (filedMaps (inputs.map Port.name) (levelSeat g l outputs node).explicit) feedback port : Compile δ _) =
        pure (some [s]) := Accepted.binds (a := levelSeat g l outputs node) values accepted
  refine ⟨reached, binds, fun bound ran => ?_, fun f said names => ?_⟩
  · rw [bindNodeInputs_result] at ran
    have some_source : bound.get? port.name ≠ none :=
      bindPorts_bound ran (.inr ⟨port, mem, rfl, [s], by rw [binds]; rfl⟩)
    obtain ⟨sources, found⟩ := Option.ne_none_iff_exists'.mp some_source
    obtain ⟨r, again, each⟩ := bindPorts_ok (δ := δ) (levelSeat g l outputs node)
      (filedMaps (inputs.map Port.name) (levelSeat g l outputs node).explicit) feedback inputs .empty
    rw [ran] at again
    cases again
    rcases each port.name sources found with before | ⟨q, inside, same, ok⟩
    · cases before
    · obtain ⟨r, first, exact⟩ := bindNodePort_ok (δ := δ) (levelSeat g l outputs node)
        (filedMaps (inputs.map Port.name) (levelSeat g l outputs node).explicit) feedback q
      rw [ok] at first
      cases first
      have selectors := listed q inside same
      have mapped : ((filedMaps (inputs.map Port.name) (levelSeat g l outputs node).explicit).getD q.name
          .empty).values ≠ [] := by
        intro none
        rw [none] at selectors
        cases selectors
      have exactly := exact mapped sources rfl
      rw [selectors] at exactly
      cases exactly with
      | cons named others =>
        cases others
        have one := named.symm.trans accepted.names
        rw [found, (List.cons.inj one).1]
  · rcases bindNodeInputs_faults said with ⟨-, other⟩ | ⟨q, inside, logged⟩
    · exact absurd names (other port mem)
    · have keyed := filedMaps_keyed (List.mem_map_of_mem (f := Port.name) inside) (levelSeat g l outputs node).explicit
      obtain ⟨named, -⟩ := bindNodePort_faults keyed logged
      rw [named] at names
      refine ⟨q, inside, ?_, Option.some.inj names⟩
      rintro rfl
      rw [binds] at logged
      cases logged

theorem Progress.nodup {w : World δ} {depth : ℕ} {g : Graph} {l : Level} {nodes : List GraphNode} {outputs : NodeLookup}
    (progress : Progress (compileNode w depth) g l nodes outputs) :
    outputs.keys.Nodup ∧ ∀ p ∈ outputs.entries, p.2.keys.Nodup := by
  induction progress with
  | start _ => exact ⟨List.nodup_nil, fun p mem => by cases mem⟩
  | step _ returned ih =>
    refine ⟨Dict.nodup_insert ih.1 _ _, fun p mem => ?_⟩
    rcases Dict.mem_insert mem with new | old
    · rw [new]
      exact compileNode_nodup returned.result
    · exact ih.2 p old

theorem ambiguity_eq {a : Seat} {port : Port} {sources : List Source} {entry : MapEntry} {scope : ScopePath}
    {candidates : List String} (same : ambiguity entry scope candidates = ambiguousPortFault a.site port sources) :
    a.incomingConnectionIndex = some entry.connectionIndex ∧ port.name = entry.destinationPort ∧
      candidates = applicableSelectors port sources (some (a.nodeLookup, a.inputSources, a.upstream)) := by
  have listed : ∀ {l l' : List String}, Json.strs l = Json.strs l' → l = l' := by
    intro l l' h
    exact List.map_injective_iff.mpr (fun _ _ h => Json.str.inj h) (Json.arr.inj h)
  have level : a.site.level = some (a.nodeLookup, a.inputSources, a.upstream) := rfl
  unfold ambiguousPortFault at same
  rw [level] at same
  dsimp only at same
  split at same
  next node levelLocation index selector others _ _ incoming chosen =>
    simp only [ambiguity, mapFault, Fault.located.injEq, List.cons_append, List.nil_append, List.cons.injEq,
      Prod.mk.injEq, true_and, and_true, Json.int.injEq, Json.str.injEq] at same
    obtain ⟨-, -, place, -, named, -, offered⟩ := same
    have place : entry.connectionIndex = index := by exact_mod_cast place
    exact ⟨place ▸ incoming, named.symm, listed offered⟩
  next =>
    have defect := congrArg Fault.defect? same
    rw [ambiguity, mapFault_defect?] at defect
    simp only [Fault.defect?, Option.some.injEq] at defect
    split_ifs at defect

namespace Sample

/-- A node with one input after a producer of nothing, at a level with two inputs of its contract. -/
def undecided : Graph where
  name := "g"
  nodes := [⟨"p", .graph ⟨"q", [], [], [], []⟩⟩, ⟨"n", .ref { component := "sink" }⟩]
  connections := [⟨"p", "n", .empty⟩]
  inputs := [value "x", value "y"]

def undecidedLevel : Level := rootLevel (admission ⟨[("x", .int 0), ("y", .int 1)]⟩) undecided

def undecidedNode : GraphNode := ⟨"n", .ref { component := "sink" }⟩

def undecidedOutputs : NodeLookup := ⟨[("p", .empty)]⟩

theorem undecided_progress : Progress (compileNode ((admission .empty).world undecided) 1) undecided undecidedLevel
    [undecidedNode] undecidedOutputs := by
  have order : orderedNodes undecided (upstreamClosure (nodeIds undecided) (connectionEdges undecided)) =
      .ok [⟨"p", .graph ⟨"q", [], [], [], []⟩⟩, undecidedNode] := rfl
  have start : Progress (compileNode ((admission .empty).world undecided) 1) undecided undecidedLevel
      [⟨"p", .graph ⟨"q", [], [], [], []⟩⟩, undecidedNode] .empty := .start order
  have producer : (compileNode ((admission .empty).world undecided) 1 (seatOf undecided undecidedLevel
      (upstreamClosure (nodeIds undecided) (connectionEdges undecided)) .empty
      ⟨"p", .graph ⟨"q", [], [], [], []⟩⟩)).Returns [] .empty := rfl
  exact .step start producer

theorem undecided_fault : (bindNodeInputs (levelSeat undecided undecidedLevel undecidedOutputs undecidedNode)
    [value "z"] [] : Compile (String × ℕ × Json) _).log =
      [.fault (ambiguity ⟨0, "n", "z", "$input.x", {}⟩ ["g", "n"] ["$input.x", "$input.y"])] := rfl

end Sample

end Constructicon
