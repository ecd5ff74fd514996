import Constructicon.WalkerSealed

/-!
# Attempts at an admitted run

An admitted manifest is wired for the walker, so what was shown of one attempt holds of
every attempt at its run, whatever happened to the attempts before it.
-/

namespace Constructicon

open Walker

variable {δ : Type}

namespace Sealed

variable {s : RegistrySnapshot} {h : Hashing δ} {supplied : String → Prop} {m : ExecutionManifest δ}
  {cus : List CompiledUnit} {outputs : Bound} {inputs : Dict String Json} {p : Shared} {ordered : List RootUnit}
  (hs : Sealed s h supplied m cus outputs) (keyed : KeysDistinct s m)
  (given : ∀ name, supplied name → inputs.contains name = true)

theorem rootValue {name : String} (given : inputs.contains name = true) :
    ((rootValues m inputs).get? (addressKey (.graphInput [m.sourceGraph.name] name))).isSome := by
  obtain ⟨x, found⟩ := Option.isSome_iff_exists.mp given
  exact Dict.isSome_ofList.mpr (List.mem_map.mpr ⟨_, List.mem_map_of_mem (Dict.mem_of_get? found), rfl⟩)

include hs keyed given

theorem wired (bindings : p.bindings = bindingsByKey m) (byScope : p.byScope = instancesByScope (s.instances m))
    (listed : orderedUnits (rootUnits m (s.instances m)) p.bindings
      (unitProducerIndex (rootUnits m (s.instances m))) = .ok ordered) :
    Wired p (rootUnits m (s.instances m)) (rootValues m inputs) ordered where
  order := ordered_of_ok hs.rootUnits_nodup listed
  scopes := hs.rootUnits_nodup
  keys := by
    intro u mem w mem' k mine theirs
    obtain ⟨cu, inside, rfl⟩ := hs.mem_rootUnits.mp mem
    obtain ⟨cw, inside', rfl⟩ := hs.mem_rootUnits.mp mem'
    rw [hs.keys_apart keyed inside inside' mine theirs]
  fresh := by
    intro u mem k key
    obtain ⟨cu, inside, rfl⟩ := hs.mem_rootUnits.mp mem
    obtain ⟨a, offered, rfl⟩ := List.mem_map.mp key
    by_contra held
    obtain ⟨x, found⟩ := Option.ne_none_iff_exists'.mp held
    obtain ⟨e, -, same⟩ := List.mem_map.mp (Dict.mem_of_get?_ofList found)
    cases (kind_of_addressKey (Prod.mk.inj same).1).trans (hs.offered_kind inside offered)
  sources := by
    intro u mem b bound a source
    obtain ⟨cu, inside, rfl⟩ := hs.mem_rootUnits.mp mem
    obtain ⟨pre, post, split⟩ := List.append_of_mem inside
    rw [bindings] at bound
    rcases hs.unit_sources keyed split bound source with ⟨q, -, supplied, rfl⟩ | ⟨cw, early, offered⟩
    · exact .inl (rootValue (given q.name supplied))
    · exact .inr ⟨cw.root, hs.index_of_offered keyed (split ▸ List.mem_append_left _ early) offered⟩
  atomic := by
    intro i mem
    obtain ⟨cu, inside, same⟩ := hs.mem_rootUnits.mp mem
    cases cu with
    | atomic c =>
      obtain rfl := RootUnit.atomic.inj same
      rw [bindings]
      exact hs.shaped_cell keyed inside List.mem_cons_self (hs.typed_of_mem inside)
    | loop l cells => cases same
  loops := by
    intro l mem
    obtain ⟨cu, inside, same⟩ := hs.mem_rootUnits.mp mem
    cases cu with
    | atomic c => cases same
    | loop l' cells =>
      obtain rfl := RootUnit.loop.inj same
      exact ⟨_, hs.loopWired keyed inside bindings byScope⟩

theorem outputsWired (bindings : p.bindings = bindingsByKey m) :
    OutputsWired p m (rootUnits m (s.instances m)) (rootValues m inputs) where
  fits := by
    intro q declared b bound
    rw [bindings] at bound
    exact (hs.bound.sourced q declared b.sources (hs.output_binding keyed declared bound)).fits
  sources := by
    intro q declared b bound a source
    rw [bindings] at bound
    obtain ⟨q', offer, -⟩ :=
      (hs.bound.sourced q declared b.sources (hs.output_binding keyed declared bound)).typed a source
    rcases offer with ⟨r, -, supplied, same⟩ | ⟨cu, inside, offer⟩
    · obtain ⟨rfl, -⟩ := Prod.mk.inj same
      exact .inl (rootValue (given r.name supplied))
    · exact .inr ⟨cu.root, hs.index_of_offered keyed inside (offers_offered offer)⟩

end Sealed

/-! ## Attempts -/

namespace Walker

section Attempts

variable (adm : Admission δ) (m : ExecutionManifest δ) (hash : Dict String Json → Digest) (conduct : Conduct) (run : RunId)

/-- The units of a manifest, over the registry it was admitted with. -/
def admittedUnits : List RootUnit := rootUnits m (adm.snapshot.instances m)

/-- One attempt at the run of a manifest, and what it leaves. -/
def attempt (w : World) (lease : RunLease) (cause : Option AttemptCause) (s : Journal) : Except Raised RunResult × Attempt :=
  execute (Context.of w lease m (adm.snapshot.instances m)) m (admittedUnits adm m) adm.inputs cause { journal := s }

/-- What all attempts at the run of a manifest share. -/
def admittedShared : Shared := ⟨hash, bindingsByKey m, instancesByScope (adm.snapshot.instances m), conduct⟩

/-- The surroundings the walker relies on: nobody else records completions of the run while
an attempt lasts, implementations return what they may, and all attempts hash alike. -/
structure Orderly (w : World) (lease : RunLease) : Prop where
  mine : lease.runId = run
  quiet : w.Quiet run
  obeys : w.Obeys conduct
  hash : ∀ inputs, w.wire.hashing.digest "inputs" 1 (.obj inputs.entries) = hash inputs

/-- One attempt turns the first memory of the run into the second. -/
inductive Tried : Memory → Memory → Prop
  | attempt {w : World} {lease : RunLease} (orderly : Orderly hash conduct run w lease) (cause : Option AttemptCause)
      (s : Journal) : Tried (s.memory run) ((attempt adm m w lease cause s).2.journal.memory run)

/-- What any number of attempts make of a memory, however each of them ends. -/
def Onward : Memory → Memory → Prop := Relation.ReflTransGen (Tried adm m hash conduct run)

/-- A memory that some attempts have left of a run that began with none. -/
def Recorded (M : Memory) : Prop := Onward adm m hash conduct run (fun _ => none) M

/-- How the attempts at a run go about its units. -/
structure Plan (ordered : List RootUnit) : Prop where
  listed : orderedUnits (admittedUnits adm m) (bindingsByKey m) (unitProducerIndex (admittedUnits adm m)) = .ok ordered
  wired : Wired (admittedShared adm m hash conduct) (admittedUnits adm m) (rootValues m adm.inputs) ordered
  prepared : ∀ w lease, Orderly hash conduct run w lease →
    Prepared (Context.of w lease m (adm.snapshot.instances m)) conduct m (admittedUnits adm m) ordered adm.inputs

end Attempts

section Runs

variable {adm : Admission δ} {m : ExecutionManifest δ} {hash : Dict String Json → Digest} {conduct : Conduct} {run : RunId}
  {depth : ℕ} {g : Graph} {ordered : List RootUnit} {M M' : Memory} {w : World} {lease : RunLease}
  {cause : Option AttemptCause} {s : Journal}

theorem Orderly.shared (orderly : Orderly hash conduct run w lease) :
    (Context.of w lease m (adm.snapshot.instances m)).shared conduct = admittedShared adm m hash conduct := by
  have same : inputHash (Context.of w lease m (adm.snapshot.instances m)) = hash := funext orderly.hash
  rw [Context.shared, same]
  rfl

/-- There is a plan for every admitted manifest whose keys are apart. -/
theorem exists_plan (ports : adm.snapshot.DistinctPorts) (keyed : KeysDistinct adm.snapshot m)
    (admitted : admitGraph adm depth g = .ok m) : ∃ ordered, Plan adm m hash conduct run ordered := by
  obtain ⟨-, cus, outputs, hs⟩ := sealed_of_admit ports admitted
  obtain ⟨ordered, listed⟩ := hs.listed keyed
  have given : ∀ name, adm.inputs.contains name = true → adm.inputs.contains name = true := fun _ => id
  refine ⟨ordered, listed, hs.wired keyed given rfl rfl listed, fun w lease orderly => ?_⟩
  constructor
  · exact orderly.mine ▸ orderly.quiet
  · exact orderly.obeys
  · rfl
  · exact listed
  · exact hs.wired keyed given rfl rfl listed
  · exact hs.outputsWired keyed given rfl

namespace Plan

variable (plan : Plan adm m hash conduct run ordered)

include plan

theorem loops : ∀ l, .loop l ∈ ordered → ∃ found, LoopWired (admittedShared adm m hash conduct) l found :=
  fun l mem => plan.wired.loops l (plan.wired.mem mem)

/-- How an attempt ends that finds a coherent memory. -/
theorem ends (coherent : ∃ y, Coherent (admittedShared adm m hash conduct) (s.memory run) ordered (rootValues m adm.inputs) y)
    (orderly : Orderly hash conduct run w lease) (cause : Option AttemptCause) :
    let v := (attempt adm m w lease cause s).2.view run
    (∀ r, (attempt adm m w lease cause s).1 = .ok r →
      Concluded (admittedShared adm m hash conduct) m ordered (rootValues m adm.inputs) r v) ∧
    (∀ e, (attempt adm m w lease cause s).1 = .error e →
      Excused (admittedShared adm m hash conduct) ordered (rootValues m adm.inputs) (Attempt.view run { journal := s }) v e ∨
        e = .damage (.unknownRun run)) ∧
    Fallen (admittedShared adm m hash conduct) ordered (rootValues m adm.inputs) (Attempt.view run { journal := s }) v := by
  obtain ⟨y, coherent⟩ := coherent
  obtain rfl := orderly.mine
  have ran := execute_run (plan.prepared w lease orderly) (fresh_view lease.runId s) (y := y)
    (by rw [orderly.shared]; exact coherent) cause { journal := s } rfl
  rw [orderly.shared] at ran
  refine ⟨fun r answered => (ran.1 r answered).1, fun e raised => (ran.2 e raised).1, ?_⟩
  cases ended : (attempt adm m w lease cause s).1 with
  | ok r => exact (ran.1 r ended).2
  | error e => exact (ran.2 e ended).2

theorem onward (h : Onward adm m hash conduct run M M')
    (coherent : ∃ y, Coherent (admittedShared adm m hash conduct) M ordered (rootValues m adm.inputs) y) :
    (∃ y, Coherent (admittedShared adm m hash conduct) M' ordered (rootValues m adm.inputs) y) ∧
      ∀ path k, M path = some k → M' path = some k := by
  induction h with
  | refl => exact ⟨coherent, fun _ _ => id⟩
  | tail _ h ih =>
    obtain ⟨orderly, cause, s⟩ := h
    obtain ⟨-, -, fallen⟩ := plan.ends ih.1 orderly cause
    exact ⟨fallen.coherent, fun path k known => fallen.grew.kept path k (ih.2 path k known)⟩

theorem coherent (h : Recorded adm m hash conduct run M) :
    ∃ y, Coherent (admittedShared adm m hash conduct) M ordered (rootValues m adm.inputs) y :=
  (plan.onward h ⟨_, coherent_empty plan.loops _⟩).1

end Plan

end Runs

end Walker

end Constructicon
