import Constructicon.Program

/-!
# What a clean binding gives

One specification for each binding function of the compiler: when it is clean it
logs nothing, an unbound port is optional, and the sources of a bound port were
visible from the seat and carry the port's contract.
-/

namespace Constructicon

variable {δ : Type}

/-- The sources a binding may choose for one port. -/
structure Chosen (visible : Source → Prop) (port : Port) (sources : List Source) : Prop where
  nonempty : sources ≠ []
  many : 1 < sources.length → port.cardinality = .many
  visible : ∀ s ∈ sources, visible s
  contract : ∀ s ∈ sources, s.port.contract = port.contract

/-- The outcome of binding one port: a choice, or nothing for an optional port. -/
def PortOutcome (visible : Source → Prop) (port : Port) : Option (List Source) → Prop
  | none => port.cardinality = .optional
  | some sources => Chosen visible port sources

theorem Source.contract_of_matches {s : Source} {port : Port} (h : s.matches port = true) :
    s.port.contract = port.contract := by
  simpa [Source.matches, Port.contract] using h

theorem bindPort_clean {site : BindSite} {port : Port} {pool : List Source}
    {l : List (Emitted δ)} {r : Option (List Source)} (h : Clean (bindPort site port pool) l r) :
    l = [] ∧ PortOutcome (· ∈ pool) port r := by
  have hvis : ∀ s ∈ pool.filter (fun s => s.matches port), s ∈ pool ∧ s.port.contract = port.contract :=
    fun s hs => ⟨List.mem_of_mem_filter hs, Source.contract_of_matches (by simpa using (List.mem_filter.mp hs).2)⟩
  simp only [bindPort] at h
  split_ifs at h with hm ht hn hn' ht' ht'' ho
  · exact absurd h clean_fault_bind
  · obtain ⟨rfl, rfl⟩ := clean_pure.mp h
    exact ⟨rfl, ht, fun _ => hm, fun s hs => (hvis s hs).1, fun s hs => (hvis s hs).2⟩
  · obtain ⟨rfl, rfl⟩ := clean_pure.mp h
    refine ⟨rfl, ?_, fun hl => by omega, fun s hs => (hvis s (List.mem_of_mem_filter hs)).1,
      fun s hs => (hvis s (List.mem_of_mem_filter hs)).2⟩
    exact fun he => by simp [he] at hn
  · exact absurd h clean_fault_bind
  · obtain ⟨rfl, rfl⟩ := clean_pure.mp h
    refine ⟨rfl, ?_, fun hl => by omega, fun s hs => (hvis s hs).1, fun s hs => (hvis s hs).2⟩
    exact fun he => by simp [he] at ht'
  · exact absurd h clean_fault_bind
  · obtain ⟨rfl, rfl⟩ := clean_pure.mp h
    exact ⟨rfl, ho⟩
  · exact absurd h clean_fault_bind

theorem mem_allSources {sources : Sources} {s : Source} :
    s ∈ allSources sources ↔ ∃ name ss, (name, ss) ∈ sources.entries ∧ s ∈ ss := by
  simp only [allSources, List.mem_flatten, Dict.mem_values]
  constructor
  · rintro ⟨ss, ⟨name, hn⟩, hs⟩
    exact ⟨name, ss, hn, hs⟩
  · rintro ⟨name, ss, hn, hs⟩
    exact ⟨ss, ⟨name, hn⟩, hs⟩

theorem mem_allSources_of_getD {sources : Sources} {name : String} {s : Source}
    (h : s ∈ sources.getD name []) : s ∈ allSources sources := by
  cases hg : sources.get? name with
  | none => simp [Dict.getD, hg] at h
  | some ss =>
    rw [Dict.getD, hg, Option.getD_some] at h
    exact mem_allSources.mpr ⟨name, ss, Dict.mem_of_get? hg, h⟩

/-- A source reachable from a level: one of its inputs or of its nodes' outputs. -/
def Visible (lookup : NodeLookup) (inputs : Sources) (s : Source) : Prop :=
  s ∈ allSources inputs ∨ ∃ outputs ∈ lookup.values, s ∈ allSources outputs

theorem visible_of_selected {parts : String × String} {lookup : NodeLookup} {inputs : Sources}
    {s : Source} (h : s ∈ selectedSources parts lookup inputs) : Visible lookup inputs s := by
  rw [selectedSources] at h
  split_ifs at h
  · exact .inl (mem_allSources_of_getD h)
  · cases hg : lookup.get? parts.1 with
    | none => simp [Dict.getD, hg] at h
    | some outputs =>
      rw [Dict.getD.eq_1 lookup, hg, Option.getD_some] at h
      exact .inr ⟨outputs, Dict.mem_values.mpr ⟨_, Dict.mem_of_get? hg⟩, mem_allSources_of_getD h⟩

theorem resolveSelector_clean {entry : MapEntry} {port : Port} {lookup : NodeLookup}
    {inputs : Sources} {scope : ScopePath} {l : List (Emitted δ)} {r : Option Source}
    (h : Clean (resolveSelector entry port lookup inputs scope) l r) :
    l = [] ∧ ∃ s, r = some s ∧ Visible lookup inputs s ∧ s.port.contract = port.contract := by
  rw [resolveSelector] at h
  split_ifs at h with hp
  · exact absurd h clean_fault_bind
  · split at h
    next source hs =>
      split_ifs at h with hc hm
      · exact absurd h clean_fault_bind
      · exact absurd h clean_fault_bind
      · obtain ⟨rfl, rfl⟩ := clean_pure.mp h
        refine ⟨rfl, source, rfl, ?_, Source.contract_of_matches (by simpa using hm)⟩
        exact visible_of_selected (by rw [hs]; exact List.mem_cons_self)
    next => exact absurd h clean_fault_bind

theorem resolveSelectors_clean {port : Port} {lookup : NodeLookup} {inputs : Sources}
    {scope : ScopePath} : ∀ {entries : List MapEntry} {l : List (Emitted δ)}
    {r : List (Option Source)}, Clean (resolveSelectors port lookup inputs scope entries) l r →
      l = [] ∧ r.length = entries.length ∧ r.all Option.isSome ∧
        ∀ s ∈ r.filterMap id, Visible lookup inputs s ∧ s.port.contract = port.contract := by
  intro entries
  induction entries with
  | nil =>
    intro l r h
    obtain ⟨rfl, rfl⟩ := clean_pure.mp h
    simp
  | cons entry entries ih =>
    intro l r h
    rw [resolveSelectors, clean_bind] at h
    obtain ⟨l₁, s, l₂, hs, htail, rfl⟩ := h
    obtain ⟨l₃, ss, l₄, hss, hret, rfl⟩ := clean_bind.mp htail
    obtain ⟨rfl, rfl⟩ := clean_pure.mp hret
    obtain ⟨rfl, s', rfl, hv⟩ := resolveSelector_clean hs
    obtain ⟨rfl, hl, ha, hvs⟩ := ih hss
    refine ⟨rfl, by simp [hl], by simpa using ha, ?_⟩
    intro t ht
    rw [List.filterMap_cons_some (by rfl)] at ht
    rcases List.mem_cons.mp ht with rfl | ht
    · exact hv
    · exact hvs t ht

theorem groupMaps_clean {scope : ScopePath} {declared : List String} :
    ∀ {entries : List MapEntry} {byPort r : Dict String (Dict String MapEntry)}
      {l : List (Emitted δ)}, Clean (groupMaps scope declared entries byPort) l r → l = [] := by
  intro entries
  induction entries with
  | nil =>
    intro byPort r l h
    exact (clean_pure.mp h).1
  | cons entry entries ih =>
    intro byPort r l h
    rw [groupMaps] at h
    split_ifs at h
    · exact ih h
    · exact absurd h clean_fault_bind

def Seat.Sees (a : Seat) (s : Source) : Prop := s ∈ a.pool ∨ Visible a.nodeLookup a.inputSources s

theorem PortOutcome.weaken {visible visible' : Source → Prop} {port : Port}
    {r : Option (List Source)} (h : ∀ s, visible s → visible' s) (hr : PortOutcome visible port r) :
    PortOutcome visible' port r := by
  cases r with
  | none => exact hr
  | some ss => exact ⟨hr.nonempty, hr.many, fun s hs => h s (hr.visible s hs), hr.contract⟩

theorem many_of_mapConflict {port : Port} {entries : List MapEntry}
    (h : mapConflict port entries = none) (hl : 1 < entries.length) : port.cardinality = .many := by
  match entries, hl with
  | first :: conflict :: _, _ => simpa [mapConflict] using h

theorem bindNodePort_clean {a : Seat} {byPort : Dict String (Dict String MapEntry)}
    {feedback : List String} {port : Port} {l : List (Emitted δ)} {r : Option (List Source)}
    (h : Clean (bindNodePort a byPort feedback port) l r) : l = [] ∧ PortOutcome a.Sees port r := by
  simp only [bindNodePort] at h
  split_ifs at h with he hf
  · split at h
    next => exact absurd h clean_fault_bind
    next hnone =>
      obtain ⟨l₁, selected, l₂, hs, hret, rfl⟩ := clean_bind.mp h
      obtain ⟨rfl, hlen, hall, hvis⟩ := resolveSelectors_clean hs
      rw [if_pos hall] at hret
      obtain ⟨rfl, rfl⟩ := clean_pure.mp hret
      have hl : (selected.filterMap id).length = (byPort.getD port.name .empty).values.length := by
        rw [← hlen, List.length_filterMap_eq_countP, List.countP_eq_length.mpr]
        exact fun s hs => (List.all_eq_true.mp hall) s hs
      refine ⟨rfl, ?_, fun hgt => many_of_mapConflict hnone (hl ▸ hgt),
        fun s hs => .inr (hvis s hs).1, fun s hs => (hvis s hs).2⟩
      intro hnil
      rw [hnil, List.length_nil] at hl
      exact he (List.length_eq_zero_iff.mp hl.symm)
  · exact absurd h clean_fault_bind
  · obtain ⟨hl, ho⟩ := bindPort_clean h
    exact ⟨hl, ho.weaken fun s hs => .inl hs⟩

/-! ## All ports of one node or level -/

/-- A source is offered at its address under the contract it is known by. -/
def Source.Sound (env : Set Offer) (s : Source) : Prop :=
  ∃ q, (s.address, q) ∈ env ∧ q.contract = s.port.contract

theorem Source.Sound.mono {env env' : Set Offer} {s : Source} (h : env ⊆ env') (hs : s.Sound env) :
    s.Sound env' := by
  obtain ⟨q, hq, hc⟩ := hs
  exact ⟨q, h hq, hc⟩

/-- The addresses of bound sources, by port name. -/
def addressed (bound : Sources) : Bound :=
  bound.entries.map (fun e => (e.1, e.2.map Source.address))

theorem addressed_names (bound : Sources) : (addressed bound).map Prod.fst = bound.keys := by
  simp [addressed, Dict.keys, Function.comp_def]

theorem addressed_insert {bound : Sources} {name : String} (h : name ∉ bound.keys)
    (sources : List Source) :
    addressed (bound.insert name sources) =
      addressed bound ++ [(name, sources.map Source.address)] := by
  simp [addressed, Dict.insert, Dict.upsert_of_notMem h]

theorem mem_allSources_insert {bound : Sources} {name : String} {sources : List Source} {s : Source}
    (h : s ∈ allSources (bound.insert name sources)) : s ∈ sources ∨ s ∈ allSources bound := by
  obtain ⟨n, ss, hm, hs⟩ := mem_allSources.mp h
  rcases Dict.mem_insert hm with he | hm
  · cases he
    exact .inl hs
  · exact .inr (mem_allSources.mpr ⟨n, ss, hm, hs⟩)

theorem Chosen.sourced {visible : Source → Prop} {env : Set Offer} {port : Port}
    {sources : List Source} (h : Chosen visible port sources)
    (hv : ∀ s, visible s → s.Sound env) : Sourced env port (sources.map Source.address) := by
  refine ⟨by simpa using h.nonempty, by simpa using h.many, ?_⟩
  intro address hm
  obtain ⟨s, hs, rfl⟩ := List.mem_map.mp hm
  obtain ⟨q, hq, hc⟩ := hv s (h.visible s hs)
  exact ⟨q, hq, hc.trans (h.contract s hs)⟩

section Accumulate

variable {env : Set Offer} {ports : List Port} {port : Port} {bound : Bound}

theorem BoundPorts.snoc {sources : List PortAddress} (h : BoundPorts env ports bound)
    (hp : port.name ∉ ports.map Port.name) (hs : Sourced env port sources) :
    BoundPorts env (ports ++ [port]) (bound ++ [(port.name, sources)]) := by
  have hfresh : ∀ b ∈ bound, b.1 ≠ port.name := by
    intro b hb he
    obtain ⟨p, hm, hn⟩ := h.declared b hb
    exact hp (List.mem_map.mpr ⟨p, hm, hn.trans he⟩)
  refine ⟨?_, ?_, ?_, ?_⟩
  · rw [List.map_append, List.nodup_append]
    refine ⟨h.nodup, by simp, ?_⟩
    intro n hn n' hn' he
    obtain ⟨b, hb, rfl⟩ := List.mem_map.mp hn
    exact hfresh b hb (by simpa using he.trans (by simpa using hn'))
  · intro b hb
    rcases List.mem_append.mp hb with hb | hb
    · obtain ⟨p, hm, hn⟩ := h.declared b hb
      exact ⟨p, List.mem_append_left _ hm, hn⟩
    · rw [List.mem_singleton] at hb
      exact ⟨port, by simp, by rw [hb]⟩
  · intro p hm ss hb
    rcases List.mem_append.mp hb with hb | hb
    · rcases List.mem_append.mp hm with hm | hm
      · exact h.sourced p hm ss hb
      · rw [List.mem_singleton] at hm
        exact absurd (by rw [hm]) (hfresh _ hb)
    · obtain ⟨hn, rfl⟩ : p.name = port.name ∧ ss = sources := by simpa using hb
      rcases List.mem_append.mp hm with hm | hm
      · exact absurd (List.mem_map.mpr ⟨p, hm, hn⟩) hp
      · rw [List.mem_singleton] at hm
        exact hm ▸ hs
  · intro p hm hc
    rcases List.mem_append.mp hm with hm | hm
    · obtain ⟨ss, hss⟩ := h.required p hm hc
      exact ⟨ss, List.mem_append_left _ hss⟩
    · rw [List.mem_singleton] at hm
      exact ⟨sources, by simp [hm]⟩

theorem BoundPorts.skip (h : BoundPorts env ports bound) (hp : port.name ∉ ports.map Port.name)
    (ho : port.cardinality = .optional) : BoundPorts env (ports ++ [port]) bound := by
  refine ⟨h.nodup, ?_, ?_, ?_⟩
  · intro b hb
    obtain ⟨p, hm, hn⟩ := h.declared b hb
    exact ⟨p, List.mem_append_left _ hm, hn⟩
  · intro p hm ss hb
    rcases List.mem_append.mp hm with hm | hm
    · exact h.sourced p hm ss hb
    · rw [List.mem_singleton] at hm
      obtain ⟨p', hm', hn⟩ := h.declared _ hb
      exact absurd (List.mem_map.mpr ⟨p', hm', by rw [hn, hm]⟩) hp
  · intro p hm hc
    rcases List.mem_append.mp hm with hm | hm
    · exact h.required p hm hc
    · rw [List.mem_singleton] at hm
      exact absurd (hm ▸ ho) hc

theorem BoundPorts.nil (env : Set Offer) : BoundPorts env [] [] :=
  ⟨List.nodup_nil, by simp, by simp, by simp⟩

theorem BoundPorts.notMem (h : BoundPorts env ports bound) (hp : port.name ∉ ports.map Port.name) :
    port.name ∉ bound.map Prod.fst := by
  intro hm
  obtain ⟨b, hb, he⟩ := List.mem_map.mp hm
  obtain ⟨p, hpm, hn⟩ := h.declared b hb
  exact hp (List.mem_map.mpr ⟨p, hpm, hn.trans he⟩)

end Accumulate

theorem bindPorts_clean {a : Seat} {byPort : Dict String (Dict String MapEntry)}
    {feedback : List String} {env : Set Offer} (hv : ∀ s, a.Sees s → s.Sound env) :
    ∀ {ports done : List Port} {bound r : Sources} {l : List (Emitted δ)},
      Clean (bindPorts a byPort feedback ports bound) l r →
      ((done ++ ports).map Port.name).Nodup → BoundPorts env done (addressed bound) →
      (∀ s ∈ allSources bound, s.Sound env) →
        l = [] ∧ BoundPorts env (done ++ ports) (addressed r) ∧ ∀ s ∈ allSources r, s.Sound env := by
  intro ports
  induction ports with
  | nil =>
    intro done bound r l h hn hb hs
    obtain ⟨rfl, rfl⟩ := clean_pure.mp h
    exact ⟨rfl, by simpa using hb, hs⟩
  | cons port ports ih =>
    intro done bound r l h hn hb hs
    obtain ⟨l₁, outcome, l₂, hport, htail, rfl⟩ := clean_bind.mp h
    obtain ⟨rfl, ho⟩ := bindNodePort_clean hport
    have hfresh : port.name ∉ done.map Port.name := by
      intro hm
      rw [List.map_append, List.nodup_append] at hn
      exact hn.2.2 _ hm _ (by simp) rfl
    have hn' : (((done ++ [port]) ++ ports).map Port.name).Nodup := by simpa using hn
    have hassoc : done ++ port :: ports = (done ++ [port]) ++ ports := by simp
    rw [List.nil_append, hassoc]
    cases outcome with
    | none => exact ih htail hn' (hb.skip hfresh ho) hs
    | some sources =>
      have hkeys : port.name ∉ bound.keys := by
        rw [← addressed_names]
        exact hb.notMem hfresh
      refine ih htail hn' ?_ ?_
      · rw [addressed_insert hkeys]
        exact hb.snoc hfresh (ho.sourced hv)
      · intro s hm
        rcases mem_allSources_insert hm with hm | hm
        · exact hv s (ho.visible s hm)
        · exact hs s hm

/-- `_bind_node_inputs` of a clean seat whose sources are sound. -/
theorem bindNodeInputs_clean {a : Seat} {inputs : List Port} {feedback : List String}
    {env : Set Offer} {l : List (Emitted δ)} {bound : Sources}
    (h : Clean (bindNodeInputs a inputs feedback) l bound) (hn : (inputs.map Port.name).Nodup)
    (hv : ∀ s, a.Sees s → s.Sound env) :
    l = [] ∧ BoundPorts env inputs (addressed bound) ∧ ∀ s ∈ allSources bound, s.Sound env := by
  obtain ⟨l₁, byPort, l₂, hg, hb, rfl⟩ := clean_bind.mp h
  obtain rfl := groupMaps_clean hg
  exact bindPorts_clean hv hb (by simpa using hn) (BoundPorts.nil env) (by simp [allSources])

/-- Every source is known by the declared port it is filed under. -/
def Tagged (ports : List Port) (outputs : Sources) : Prop :=
  ∀ e ∈ outputs.entries, ∀ s ∈ e.2, s.port ∈ ports ∧ s.port.name = e.1

theorem bindOutputs_clean {level : Level} {env : Set Offer} {nodeSources inputSources : List Source}
    (hnode : ∀ s ∈ nodeSources, s.Sound env) (hinput : ∀ s ∈ inputSources, s.Sound env) :
    ∀ {ports : List (Port × ℕ)} {done : List Port} {outputs r : Sources} {l : List (Emitted δ)},
      Clean (bindOutputs level nodeSources inputSources ports outputs) l r →
      ((done ++ ports.map Prod.fst).map Port.name).Nodup → BoundPorts env done (addressed outputs) →
      Tagged done outputs →
        l = [] ∧ BoundPorts env (done ++ ports.map Prod.fst) (addressed r) ∧
          Tagged (done ++ ports.map Prod.fst) r := by
  intro ports
  induction ports with
  | nil =>
    intro done outputs r l h hn hb ht
    obtain ⟨rfl, rfl⟩ := clean_pure.mp h
    exact ⟨rfl, by simpa using hb, by simpa using ht⟩
  | cons entry ports ih =>
    obtain ⟨port, index⟩ := entry
    intro done outputs r l h hn hb ht
    obtain ⟨l₁, outcome, l₂, hport, htail, rfl⟩ := clean_bind.mp h
    obtain ⟨rfl, ho⟩ := bindPort_clean hport
    have hpool : ∀ s ∈ (if nodeSources.any (fun s => portsSameContract s.port port) then nodeSources
        else inputSources), s.Sound env := by
      intro s hm
      split_ifs at hm
      · exact hnode s hm
      · exact hinput s hm
    have hfresh : port.name ∉ done.map Port.name := by
      intro hm
      rw [List.map_append, List.nodup_append] at hn
      exact hn.2.2 _ hm _ (by simp) rfl
    have hn' : (((done ++ [port]) ++ ports.map Prod.fst).map Port.name).Nodup := by simpa using hn
    have hassoc : done ++ List.map Prod.fst ((port, index) :: ports) =
        (done ++ [port]) ++ ports.map Prod.fst := by simp
    have hmono : Tagged (done ++ [port]) outputs := fun e he s hs =>
      ⟨List.mem_append_left _ (ht e he s hs).1, (ht e he s hs).2⟩
    rw [List.nil_append, hassoc]
    cases outcome with
    | none => exact ih htail hn' (hb.skip hfresh ho) hmono
    | some sources =>
      have hkeys : port.name ∉ outputs.keys := by
        rw [← addressed_names]
        exact hb.notMem hfresh
      refine ih htail hn' ?_ ?_
      · rw [addressed_insert hkeys]
        simpa [Function.comp_def] using hb.snoc hfresh (ho.sourced hpool)
      · intro e he s hs
        rcases Dict.mem_insert he with rfl | he
        · obtain ⟨t, -, rfl⟩ := List.mem_map.mp hs
          exact ⟨by simp, rfl⟩
        · exact hmono e he s hs

/-- Outputs that answer to the declared ports: each is a choice of sound sources. -/
def Answers (env : Set Offer) (ports : List Port) (outputs : Sources) : Prop :=
  ∀ p ∈ ports, ∀ sources, (p.name, sources) ∈ outputs.entries → Chosen (Source.Sound env) p sources

theorem BoundPorts.answers {env : Set Offer} {ports : List Port} {outputs : Sources}
    (h : BoundPorts env ports (addressed outputs)) (hn : (ports.map Port.name).Nodup)
    (ht : Tagged ports outputs) : Answers env ports outputs := by
  intro p hp sources hm
  have hs := h.sourced p hp (sources.map Source.address) (List.mem_map.mpr ⟨_, hm, rfl⟩)
  have htag : ∀ s ∈ sources, s.port = p := fun s hsm =>
    List.inj_on_of_nodup_map hn (ht _ hm s hsm).1 hp (ht _ hm s hsm).2
  refine ⟨by simpa using hs.nonempty, by simpa using hs.many, ?_, fun s hsm => by rw [htag s hsm]⟩
  intro s hsm
  obtain ⟨q, hq, hc⟩ := hs.typed s.address (List.mem_map.mpr ⟨s, hsm, rfl⟩)
  exact ⟨q, hq, by rw [htag s hsm, hc]⟩

theorem BoundPorts.sound {env : Set Offer} {ports : List Port} {outputs : Sources}
    (h : BoundPorts env ports (addressed outputs)) (hn : (ports.map Port.name).Nodup)
    (ht : Tagged ports outputs) : ∀ s ∈ allSources outputs, s.Sound env := by
  intro s hs
  obtain ⟨name, ss, hm, hs⟩ := mem_allSources.mp hs
  obtain ⟨p, hp, hname⟩ := h.declared (name, ss.map Source.address) (List.mem_map.mpr ⟨_, hm, rfl⟩)
  subst hname
  exact (h.answers hn ht p hp ss hm).visible s hs

end Constructicon
