import Constructicon.Manifest
import Constructicon.Library.Emit
import Constructicon.Library.Place

/-!
# The compiler's state

A compilation only ever appends: faults, resolutions, bindings, capability
bindings, loop programs, atomic scopes and consumed pins. Its state is therefore
the log of what it appended, and each list of the source is a projection of that
log. A fault carries the data of its message; raising `AdmissionError` ends the
compilation with everything logged so far.
-/

namespace Constructicon

/-- An exact coordinate in the proposal or in one retained definition. -/
structure GraphLocation where
  path : List (String ⊕ ℕ) := []
  retained : Option (String × String) := none
deriving DecidableEq

def GraphLocation.child (l : GraphLocation) (parts : List (String ⊕ ℕ)) : GraphLocation :=
  { l with path := l.path ++ parts }

inductive Defect where
  | missingPortSource
  | missingFeedbackSeed
  | ambiguousNodeInput
  | ambiguousNodeInputUnmappable
  | ambiguousGraphOutput
  | unknownConnectionNode
  | graphCycle
  | unusedMapDestination
  | duplicateMapDestination
  | malformedSelector
  | explicitSourceContract
deriving DecidableEq, Repr

inductive PortsSite where
  | rootInputs (graph : String)
  | rootOutputs (graph : String)
  | graphInputs (scope : ScopePath)
  | graphOutputs (scope : ScopePath)
  | bodyInputs (scope : ScopePath)
  | bodyOutputs (scope : ScopePath)
deriving DecidableEq, Repr

inductive Fault where
  | duplicatePorts (site : PortsSite) (names : List String)
  | missingInputs (missing declared : List String)
  | extraInputs (extra declared : List String)
  | unusedPin (pin : ResolutionPin)
  | nestedLoop (scope : ScopePath)
  | unknownComponent (scope : ScopePath) (component : String) (registered : List String)
  | noStableVersion (scope : ScopePath) (component : String) (registered : List String)
  | danglingStable (scope : ScopePath) (component stable : String)
  | noVersion (scope : ScopePath) (component : String) (version : Option String)
      (registered : List String)
  | pinMissing (scope : ScopePath) (component : String)
  | pinMismatch (scope : ScopePath) (pinned component : String)
  | pinUnavailable (scope : ScopePath) (pin : ResolutionPin)
  | retainedComposite (scope : ScopePath) (component version : String)
      (schemaFaults : List (Bool × String × String × String)) (boundaryDiffers : Bool)
  | feedbackDestination (scope : ScopePath) (input : String) (available : List String)
  | feedbackSource (scope : ScopePath) (output : String) (available : List String)
  | feedbackCardinality (scope : ScopePath) (input output : String)
  | feedbackContract (scope : ScopePath) (input output : String) (found expected : Contract)
  | continueMissing (scope : ScopePath) (port : String) (available : List String)
  | continueContract (scope : ScopePath) (port : String)
  | emptyLoop (scope : ScopePath)
  | feedbackArity (scope : ScopePath) (output : String) (count : ℕ)
  | continueArity (scope : ScopePath) (port : String)
  | postureWidened (scope : ScopePath)
  | toolsWidened (scope : ScopePath) (widened : List String)
  | environmentWidened (scope : ScopePath) (widened : List String)
  | networkWidened (scope : ScopePath)
  | timeoutWidened (scope : ScopePath) (requested parent : ℕ+)
  | unknownCapability (scope : ScopePath) (aliasName capability : String) (catalog : List String)
  | executorUnavailable (scope : ScopePath) (capability aliasName reason : String)
  | executorGrants (scope : ScopePath) (capability aliasName reason : String)
  | postureNotOffered (scope : ScopePath) (capability : String) (posture : Posture)
  | postureNotEnforced (scope : ScopePath) (capability : String) (posture : Posture)
  | requiresWrite (scope : ScopePath) (capability : String) (posture : Posture)
  | channelIncoherent (scope : ScopePath) (aliasName capability reason : String)
  | channelWithoutEndpoint (scope : ScopePath) (aliasName capability : String)
  | channelPorts (scope : ScopePath) (aliasName capability component : String) (inputs outputs : ℕ)
  | channelExchange (scope : ScopePath) (aliasName capability : String)
  | located (location : GraphLocation) (scope : ScopePath) (defect : Defect)
      (evidence : List (String × Json))
  | duplicateNodeIds (graph : String)
  | unknownNode (graph node : String)
  | cycleOutsideLoop (trail : List String) (node : String)

inductive Emitted (δ : Type) where
  | fault (f : Fault)
  | resolution (r : ComponentResolution δ)
  | binding (b : ResolvedPortBinding)
  | capability (c : CapabilityBinding)
  | loop (l : LoopResolution)
  | atomic (scope : ScopePath)
  | pin (scope : ScopePath)

inductive Raised where
  /-- `AdmissionError(comp.faults)`: the faults are those logged so far -/
  | compFaults
  /-- `AdmissionError(faults)` -/
  | admissionError (faults : List Fault)
  /-- the interpreter's stack ran out -/
  | recursionError

abbrev Compile (δ α : Type) := Emit Raised (Emitted δ) α

section Projections

variable {δ : Type}

def Emitted.fault? : Emitted δ → Option Fault
  | .fault f => some f
  | _ => none

def Emitted.resolution? : Emitted δ → Option (ComponentResolution δ)
  | .resolution r => some r
  | _ => none

def Emitted.binding? : Emitted δ → Option ResolvedPortBinding
  | .binding b => some b
  | _ => none

def Emitted.capability? : Emitted δ → Option CapabilityBinding
  | .capability c => some c
  | _ => none

def Emitted.loop? : Emitted δ → Option LoopResolution
  | .loop l => some l
  | _ => none

def Emitted.atomic? : Emitted δ → Option ScopePath
  | .atomic s => some s
  | _ => none

def Emitted.pin? : Emitted δ → Option ScopePath
  | .pin s => some s
  | _ => none

def faultsOf (log : List (Emitted δ)) : List Fault := log.filterMap Emitted.fault?

def resolutionsOf (log : List (Emitted δ)) : List (ComponentResolution δ) :=
  log.filterMap Emitted.resolution?

def bindingsOf (log : List (Emitted δ)) : List ResolvedPortBinding :=
  log.filterMap Emitted.binding?

def capabilitiesOf (log : List (Emitted δ)) : List CapabilityBinding :=
  log.filterMap Emitted.capability?

def loopsOf (log : List (Emitted δ)) : List LoopResolution := log.filterMap Emitted.loop?

def atomicsOf (log : List (Emitted δ)) : List ScopePath := log.filterMap Emitted.atomic?

def pinsOf (log : List (Emitted δ)) : List ScopePath := log.filterMap Emitted.pin?

end Projections

/-- `comp.faults.append(f)` -/
def fault {δ : Type} (f : Fault) : Compile δ Unit := Emit.tell (.fault f)

def emitFaults {δ : Type} (fs : List Fault) : Compile δ Unit := Emit.tellAll (fs.map .fault)

/-- What a compilation reads and never changes. -/
structure World (δ : Type) where
  snapshot : RegistrySnapshot
  assembly : Assembly δ
  hashing : Hashing δ
  sourceGraphHash : δ
  resolutionLock : Option ResolutionLock

/-- A value source in scope, with the port whose name, contract and cardinality
it is known by. -/
structure Source where
  address : PortAddress
  port : Port
deriving DecidableEq, Repr

abbrev Sources := Dict String (List Source)

abbrev NodeLookup := Dict String Sources

structure MapEntry where
  connectionIndex : ℕ
  destinationNode : String
  destinationPort : String
  selector : String
  location : GraphLocation
deriving DecidableEq

def sortStrings (l : List String) : List String := l.insertionSort (· ≤ ·)

end Constructicon
