import Constructicon.Clean
import Constructicon.Library.Threaded

/-!
# The program a manifest seals

The lists of a manifest are the flattening of one ordered program: atomic cells
with their bound inputs, and loops with the cells of their body. A unit is typed
in an environment of offers (an address and the port declared there) when every
port it binds has sources of its own contract; a program is typed when each unit
is typed in what stands before it.
-/

namespace Constructicon

variable {δ : Type}

/-- One atomic instance, as the walker holds it. -/
structure Instance where
  scope : ScopePath
  component : String
  version : String
  definition : ComponentDef

namespace Instance

def level (i : Instance) : ScopePath := i.scope.dropLast

def node (i : Instance) : String := i.scope.getLastD ""

/-- The address of one of the instance's ports. -/
def port (i : Instance) (name : String) : PortAddress := .nodePort i.level i.node name

end Instance

/-- The atomic instance a resolution stands for; a composite has none. -/
def RegistrySnapshot.instanceOf (s : RegistrySnapshot) (r : ComponentResolution δ) :
    Option Instance :=
  match s.get r.component r.resolvedVersion with
  | none => none
  | some stored =>
    match stored.definition.body with
    | .graph _ => none
    | .python _ => some ⟨r.scope, r.component, r.resolvedVersion, stored.definition⟩

/-- The atomic instances of a manifest, in resolution order. -/
def RegistrySnapshot.instances (s : RegistrySnapshot) (m : ExecutionManifest δ) : List Instance :=
  m.resolvedComponents.filterMap s.instanceOf

/-! ## Typed bindings -/

/-- An address together with a port declared there. -/
abbrev Offer := PortAddress × Port

/-- `sources` may feed `port`: at least one, several only for a gathering port, each
offered under the port's own contract. -/
structure Sourced (env : Set Offer) (port : Port) (sources : List PortAddress) : Prop where
  nonempty : sources ≠ []
  many : 1 < sources.length → port.cardinality = .many
  typed : ∀ s ∈ sources, ∃ q, (s, q) ∈ env ∧ q.contract = port.contract

/-- Bindings by port name, as an instance or a loop boundary holds them. -/
abbrev Bound := List (String × List PortAddress)

/-- The declared ports are bound: every required one, each at most once, from sources
that may feed it. -/
structure BoundPorts (env : Set Offer) (ports : List Port) (bound : Bound) : Prop where
  nodup : (bound.map Prod.fst).Nodup
  declared : ∀ b ∈ bound, ∃ p ∈ ports, p.name = b.1
  sourced : ∀ p ∈ ports, ∀ sources, (p.name, sources) ∈ bound → Sourced env p sources
  required : ∀ p ∈ ports, p.cardinality ≠ .optional → ∃ sources, (p.name, sources) ∈ bound

theorem Sourced.mono {env env' : Set Offer} {port : Port} {sources : List PortAddress}
    (h : env ⊆ env') (hs : Sourced env port sources) : Sourced env' port sources := by
  refine ⟨hs.nonempty, hs.many, fun s hm => ?_⟩
  obtain ⟨q, hq, hc⟩ := hs.typed s hm
  exact ⟨q, h hq, hc⟩

theorem BoundPorts.mono {env env' : Set Offer} {ports : List Port} {bound : Bound}
    (h : env ⊆ env') (hb : BoundPorts env ports bound) : BoundPorts env' ports bound :=
  ⟨hb.nodup, hb.declared, fun p hp ss hs => (hb.sourced p hp ss hs).mono h, hb.required⟩

/-! ## Cells, loops and programs -/

structure Cell where
  inst : Instance
  bound : Bound

def Cell.bindings (c : Cell) : List ResolvedPortBinding :=
  c.bound.map (fun b => ⟨c.inst.port b.1, b.2⟩)

def Cell.offers (c : Cell) : Set Offer :=
  {o | ∃ q ∈ c.inst.definition.outputs, o = (c.inst.port q.name, q)}

def Cell.Typed (env : Set Offer) (c : Cell) : Prop :=
  BoundPorts env c.inst.definition.inputs c.bound

theorem Cell.typed_mono : Threaded.Mono Cell.Typed := fun _ _ _ => BoundPorts.mono

inductive CompiledUnit where
  | atomic (c : Cell)
  | loop (l : LoopResolution) (cells : List Cell)

/-- What a loop's boundary offers its body: every initially bound input. -/
def LoopResolution.boundary (l : LoopResolution) : Set Offer :=
  {o | ∃ p ∈ l.inputPorts, o = (.graphInput l.bodyScope p.name, p) ∧
    ∃ b ∈ l.initialBindings, b.destination = .graphInput l.bodyScope p.name}

def LoopResolution.offers (l : LoopResolution) : Set Offer :=
  {o | ∃ e ∈ l.exports, o = (e.destination, e.port)}

/-- The scope inside a loop body once all its cells have run. -/
def LoopResolution.inner (l : LoopResolution) (cells : List Cell) : Set Offer :=
  l.boundary ∪ Threaded.offered Cell.offers cells

/-- The ports a loop binds at its boundary, by name. -/
def LoopResolution.Initial (l : LoopResolution) (bound : Bound) : Prop :=
  l.initialBindings = bound.map (fun b => ⟨.graphInput l.bodyScope b.1, b.2⟩)

def continueContract (h : Hashing δ) : Contract := ⟨continueType, continueSchemaHash h⟩

/-- A loop is a closed program of its own over its boundary. -/
structure LoopTyped (h : Hashing δ) (env : Set Offer) (l : LoopResolution) (cells : List Cell) :
    Prop where
  bodyScope_eq : l.bodyScope = l.scope.child loopBodySegment
  inputs_nodup : (l.inputPorts.map Port.name).Nodup
  initial : ∃ bound, l.Initial bound ∧ BoundPorts env l.inputPorts bound
  feedback : ∀ b ∈ l.feedbackBindings, ∃ p ∈ l.inputPorts,
    b.destination = .graphInput l.bodyScope p.name ∧ p.cardinality = .one ∧
      Sourced (l.inner cells) p b.sources
  continuation : ∃ q, (l.continueSource, q) ∈ l.inner cells ∧ q.contract = continueContract h
  exports : ∀ e ∈ l.exports, e.destination = .nodePort l.scope.dropLast (l.scope.getLastD "")
      e.port.name ∧ Sourced (l.inner cells) e.port e.sources
  exports_nodup : (l.exports.map (fun e => e.port.name)).Nodup
  members : l.memberOrder = cells.map (fun c => c.inst.scope)
  members_ne : cells ≠ []
  body : Threaded Cell.Typed Cell.offers l.boundary cells

namespace CompiledUnit

def cells : CompiledUnit → List Cell
  | .atomic c => [c]
  | .loop _ cells => cells

def loop? : CompiledUnit → Option LoopResolution
  | .atomic _ => none
  | .loop l _ => some l

def scope : CompiledUnit → ScopePath
  | .atomic c => c.inst.scope
  | .loop l _ => l.scope

/-- Every scope a unit occupies: its own and those of its members. -/
def scopes : CompiledUnit → List ScopePath
  | .atomic c => [c.inst.scope]
  | .loop l cells => l.scope :: cells.map (fun c => c.inst.scope)

def offers : CompiledUnit → Set Offer
  | .atomic c => c.offers
  | .loop l _ => l.offers

def Typed (h : Hashing δ) (env : Set Offer) : CompiledUnit → Prop
  | .atomic c => c.Typed env
  | .loop l cells => LoopTyped h env l cells

theorem typed_mono (h : Hashing δ) : Threaded.Mono (Typed h) := by
  intro env env' u he hu
  cases u with
  | atomic c => exact BoundPorts.mono he hu
  | loop l cells =>
    obtain ⟨bound, hb, hp⟩ := hu.initial
    exact { hu with initial := ⟨bound, hb, hp.mono he⟩ }

end CompiledUnit

/-! ## Logs and programs -/

/-- The log of a compilation is the flattening of a program. -/
structure Tracks (s : RegistrySnapshot) (log : List (Emitted δ)) (units : List CompiledUnit) :
    Prop where
  instances : (resolutionsOf log).filterMap s.instanceOf =
    units.flatMap (fun u => u.cells.map Cell.inst)
  bindings : bindingsOf log = units.flatMap (fun u => u.cells.flatMap Cell.bindings)
  loops : loopsOf log = units.filterMap CompiledUnit.loop?
  atomics : atomicsOf log = units.flatMap (fun u => u.cells.map (fun c => c.inst.scope))

theorem Tracks.append {s : RegistrySnapshot} {l l' : List (Emitted δ)} {us us' : List CompiledUnit}
    (h : Tracks s l us) (h' : Tracks s l' us') : Tracks s (l ++ l') (us ++ us') := by
  constructor
  · rw [resolutionsOf_append, List.filterMap_append, h.instances, h'.instances, List.flatMap_append]
  · rw [bindingsOf_append, h.bindings, h'.bindings, List.flatMap_append]
  · rw [loopsOf_append, h.loops, h'.loops, List.filterMap_append]
  · rw [atomicsOf_append, h.atomics, h'.atomics, List.flatMap_append]

structure Silent (log : List (Emitted δ)) : Prop where
  resolutions : resolutionsOf log = []
  bindings : bindingsOf log = []
  loops : loopsOf log = []
  atomics : atomicsOf log = []

theorem Silent.nil : Silent ([] : List (Emitted δ)) := ⟨rfl, rfl, rfl, rfl⟩

theorem Silent.capability (c : CapabilityBinding) : Silent [(.capability c : Emitted δ)] :=
  ⟨rfl, rfl, rfl, rfl⟩

theorem Silent.append {l l' : List (Emitted δ)} (h : Silent l) (h' : Silent l') :
    Silent (l ++ l') := by
  refine ⟨?_, ?_, ?_, ?_⟩
  · rw [resolutionsOf_append, h.resolutions, h'.resolutions, List.append_nil]
  · rw [bindingsOf_append, h.bindings, h'.bindings, List.append_nil]
  · rw [loopsOf_append, h.loops, h'.loops, List.append_nil]
  · rw [atomicsOf_append, h.atomics, h'.atomics, List.append_nil]

theorem Silent.tracks {s : RegistrySnapshot} {l : List (Emitted δ)} (h : Silent l) :
    Tracks s l [] :=
  ⟨by simp [h.resolutions], by simp [h.bindings], by simp [h.loops], by simp [h.atomics]⟩

end Constructicon
