import Constructicon.Library.Collect
import Constructicon.Walker

/-!
# Values as they accumulate

What can be collected from some values is collected alike from any larger ones, and a
unit files what it publishes under the keys of its own addresses, whatever else is
there.
-/

namespace Constructicon.Walker

open Transaction

/-! ## Collecting -/

def Available (v : Values) (sources : List PortAddress) : Prop := ∀ a ∈ sources, (v.get? (addressKey a)).isSome

/-- A port that does not gather has one source. -/
def Fits (p : Port) (sources : List PortAddress) : Prop := p.cardinality ≠ .many → sources.length = 1

section Collecting

variable {v w : Values} {sources : List PortAddress} {p : Port} {x : Json}

theorem collect_mono (below : v.Below w) (ok : collect v sources p = .ok x) : collect w sources p = .ok x := by
  simp only [collect, bind_eq_ok] at ok ⊢
  obtain ⟨resolved, read, gathered⟩ := ok
  refine ⟨resolved, mapM_of_forall₂ ((forall₂_of_mapM read).imp fun a y found => ?_), gathered⟩
  rw [expect_eq_ok] at found ⊢
  exact below _ _ found

theorem collect_available (ok : collect v sources p = .ok x) : Available v sources := by
  simp only [collect, bind_eq_ok] at ok
  obtain ⟨resolved, read, -⟩ := ok
  intro a mem
  obtain ⟨y, -, found⟩ := mapM_ok read a mem
  rw [expect_eq_ok.mp found]
  rfl

theorem gather_ok {resolved : List Json} (fits : p.cardinality ≠ .many → resolved.length = 1) :
    ∃ x, gather p resolved = .ok x := by
  unfold gather
  split_ifs with many
  · exact ⟨_, rfl⟩
  · obtain ⟨y, rfl⟩ := List.length_eq_one_iff.mp (fits many)
    exact ⟨y, rfl⟩

theorem collect_ok (available : Available v sources) (fits : Fits p sources) : ∃ x, collect v sources p = .ok x := by
  have reads : ∀ a ∈ sources, ∃ y, expect (v.get? (addressKey a)) (Damage.unavailable (addressKey a)) = .ok y := by
    intro a mem
    obtain ⟨y, found⟩ := Option.isSome_iff_exists.mp (available a mem)
    exact ⟨y, expect_eq_ok.mpr found⟩
  obtain ⟨resolved, read⟩ := mapM_of reads
  have one : p.cardinality ≠ .many → resolved.length = 1 := by
    intro notMany
    rw [← (forall₂_of_mapM read).length_eq]
    exact fits notMany
  obtain ⟨x, gathered⟩ := gather_ok one
  refine ⟨x, ?_⟩
  rw [collect, read]
  exact gathered

end Collecting

/-! ## The inputs of an instance -/

/-- Each input has the sources its cardinality asks for. -/
structure Shaped (bindings : Dict String ResolvedPortBinding) (i : Instance) : Prop where
  fits : ∀ p ∈ i.definition.inputs, ∀ b, bindings.get? (addressKey (i.port p.name)) = some b → Fits p b.sources
  unbound : ∀ p ∈ i.definition.inputs, bindings.get? (addressKey (i.port p.name)) = none → p.cardinality = .optional

section Inputs

variable {bindings : Dict String ResolvedPortBinding} {v w : Values} {i : Instance} {inputs : Dict String Json}

theorem mem_inputBindings {b : ResolvedPortBinding} :
    b ∈ inputBindings bindings i ↔ ∃ p ∈ i.definition.inputs, bindings.get? (addressKey (i.port p.name)) = some b :=
  List.mem_filterMap

theorem nodeInput_mono (below : v.Below w) {p : Port} {e : String × Json}
    (ok : nodeInput bindings v i p = .ok e) : nodeInput bindings w i p = .ok e := by
  unfold nodeInput at ok ⊢
  cases bound : bindings.get? (addressKey (i.port p.name)) with
  | none =>
    rw [bound] at ok
    exact ok
  | some b =>
    rw [bound] at ok
    obtain ⟨x, collected, same⟩ := map_ok_iff.mp ok
    exact map_ok_iff.mpr ⟨x, collect_mono below collected, same⟩

theorem nodeInputs_mono (below : v.Below w) (ok : nodeInputs bindings v i = .ok inputs) :
    nodeInputs bindings w i = .ok inputs := by
  obtain ⟨entries, read, same⟩ := map_ok_iff.mp ok
  exact map_ok_iff.mpr ⟨entries, mapM_of_forall₂ ((forall₂_of_mapM read).imp fun p e => nodeInput_mono below), same⟩

theorem nodeInputs_available (ok : nodeInputs bindings v i = .ok inputs) :
    ∀ b ∈ inputBindings bindings i, Available v b.sources := by
  obtain ⟨entries, read, -⟩ := map_ok_iff.mp ok
  intro b mem
  obtain ⟨p, declared, bound⟩ := mem_inputBindings.mp mem
  obtain ⟨e, -, ok⟩ := mapM_ok read p declared
  unfold nodeInput at ok
  rw [bound] at ok
  obtain ⟨x, collected, -⟩ := map_ok_iff.mp ok
  exact collect_available collected

theorem nodeInputs_ok (shaped : Shaped bindings i) (available : ∀ b ∈ inputBindings bindings i, Available v b.sources) :
    ∃ inputs, nodeInputs bindings v i = .ok inputs := by
  have reads : ∀ p ∈ i.definition.inputs, ∃ e, nodeInput bindings v i p = .ok e := by
    intro p declared
    unfold nodeInput
    cases bound : bindings.get? (addressKey (i.port p.name)) with
    | none => exact ⟨_, if_pos (shaped.unbound p declared bound)⟩
    | some b =>
      obtain ⟨x, collected⟩ := collect_ok (available b (mem_inputBindings.mpr ⟨p, declared, bound⟩))
        (shaped.fits p declared b bound)
      exact ⟨(p.name, x), map_ok_iff.mpr ⟨x, collected, rfl⟩⟩
  obtain ⟨entries, read⟩ := mapM_of reads
  exact ⟨Dict.ofList entries, map_ok_iff.mpr ⟨entries, read, rfl⟩⟩

end Inputs

/-! ## Publishing -/

/-- Values filed under some keys, the same whatever they are filed in. -/
structure Publishes (publish : Values → Except Damage Values) (keys : List String) (v v' : Values) : Prop where
  entries : ∃ e : List (String × Json), e.map Prod.fst = keys ∧ ∀ w, publish w = .ok (w.insertAll e)
  here : publish v = .ok v'

namespace Publishes

variable {publish : Values → Except Damage Values} {keys : List String} {v v' w : Values}

theorem of_fold {α : Type} {g : α → Except Damage Json} {key : α → String} {l : List α}
    (h : l.foldlM (Dict.fileRead g key) v = .ok v') : Publishes (l.foldlM (Dict.fileRead g key)) (l.map key) v v' :=
  ⟨Dict.fileRead_ok h, h⟩

theorem mono (h : Publishes publish keys v v') (below : v.Below w) :
    ∃ w', Publishes publish keys w w' ∧ v'.Below w' := by
  obtain ⟨e, names, files⟩ := h.entries
  obtain rfl : v.insertAll e = v' := Except.ok.inj ((files v).symm.trans h.here)
  exact ⟨w.insertAll e, ⟨⟨e, names, files⟩, files w⟩, below.insertAll e⟩

theorem isSome_iff (h : Publishes publish keys v v') {k : String} :
    (v'.get? k).isSome ↔ (v.get? k).isSome ∨ k ∈ keys := by
  obtain ⟨e, names, files⟩ := h.entries
  obtain rfl : v.insertAll e = v' := Except.ok.inj ((files v).symm.trans h.here)
  rw [Dict.isSome_insertAll, names]

theorem below (h : Publishes publish keys v v') (new : ∀ k ∈ keys, v.get? k = none) : v.Below v' := by
  obtain ⟨e, names, files⟩ := h.entries
  obtain rfl : v.insertAll e = v' := Except.ok.inj ((files v).symm.trans h.here)
  exact Dict.below_insertAll fun k mem => new k (names ▸ mem)

end Publishes

def RootUnit.keys (u : RootUnit) : List String := u.offered.map addressKey

def outputKeys (i : Instance) : List String := i.definition.outputs.map (fun p => addressKey (i.port p.name))

theorem keys_atomic (i : Instance) : (RootUnit.atomic i).keys = outputKeys i := by
  rw [RootUnit.keys, RootUnit.offered, outputKeys, List.map_map]
  rfl

theorem publishAtomicOutputs_eq (i : Instance) (outputs : Dict String Json) :
    publishAtomicOutputs i outputs = i.definition.outputs.foldlM
      (Dict.fileRead (fun p : Port => expect (outputs.get? p.name) (Damage.omits i.scope p.name))
        (fun p => addressKey (i.port p.name))) := rfl

theorem publishLoopExports_eq (l : LoopResolution) (final : Values) :
    publishLoopExports l final = l.exports.foldlM
      (Dict.fileRead (fun e : LoopExport => collect final e.sources e.port) (fun e => addressKey e.destination)) := rfl

theorem publishes_atomic {i : Instance} {outputs : Dict String Json} {v v' : Values}
    (ok : publishAtomicOutputs i outputs v = .ok v') :
    Publishes (publishAtomicOutputs i outputs) (outputKeys i) v v' := by
  rw [publishAtomicOutputs_eq] at ok ⊢
  exact Publishes.of_fold ok

theorem publishes_loop {l : LoopResolution} {final outer outer' : Values}
    (ok : publishLoopExports l final outer = .ok outer') :
    Publishes (publishLoopExports l final) (RootUnit.loop l).keys outer outer' := by
  have keys : (RootUnit.loop l).keys = l.exports.map (fun e => addressKey e.destination) := by
    rw [RootUnit.keys, RootUnit.offered, List.map_map]
    rfl
  rw [publishLoopExports_eq] at ok ⊢
  rw [keys]
  exact Publishes.of_fold ok

theorem publishAtomicOutputs_ok {i : Instance} {outputs : Dict String Json}
    (declared : ∀ p ∈ i.definition.outputs, ∃ x, outputs.get? p.name = some x) (v : Values) :
    ∃ v', publishAtomicOutputs i outputs v = .ok v' := by
  rw [publishAtomicOutputs_eq]
  refine Dict.fileRead_of (fun p mem => ?_) v
  obtain ⟨x, found⟩ := declared p mem
  exact ⟨x, expect_eq_ok.mpr found⟩

theorem publishLoopExports_ok {l : LoopResolution} {final : Values}
    (available : ∀ e ∈ l.exports, Available final e.sources ∧ Fits e.port e.sources) (outer : Values) :
    ∃ outer', publishLoopExports l final outer = .ok outer' := by
  rw [publishLoopExports_eq]
  exact Dict.fileRead_of (fun e mem => collect_ok (available e mem).1 (available e mem).2) outer

/-! ## Seeding an iteration -/

section Seeding

variable {l : LoopResolution} {index : ℕ} {outer outer' : Values} {previous : Option Values}

theorem seedPort_mono (below : outer.Below outer') {values values' : Values} {p : Port}
    (ok : seedPort l index outer previous values p = .ok values') :
    seedPort l index outer' previous values p = .ok values' := by
  unfold seedPort at ok ⊢
  split at ok
  · exact ok
  · next fed b _ =>
    simp only [bind_eq_ok] at ok ⊢
    obtain ⟨source, chosen, x, collected, same⟩ := ok
    cases fed with
    | true => exact ⟨source, chosen, x, collected, same⟩
    | false =>
      obtain rfl := Option.some.inj (expect_eq_ok.mp chosen)
      exact ⟨outer', rfl, x, collect_mono below collected, same⟩

theorem seedLoopIteration_mono (below : outer.Below outer') {values : Values}
    (ok : seedLoopIteration l index outer previous = .ok values) :
    seedLoopIteration l index outer' previous = .ok values :=
  foldlM_of (fun _ _ _ => seedPort_mono below) ok

end Seeding

end Constructicon.Walker
