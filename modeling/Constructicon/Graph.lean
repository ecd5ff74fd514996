import Constructicon.Json

/-!
# Ports, addresses and the graph IR

The authored program: `Ref` (a registry name), `Graph` (composition) and `Loop`
(bounded feedback), with the ports, port addresses and grants they carry. A
dictionary of the source is a `Dict`, because its iteration order is observable.
-/

namespace Constructicon

/-- Static location of a component or node instance: its segments. -/
abbrev ScopePath := List String

def ScopePath.child (scope : ScopePath) (segment : String) : ScopePath := scope ++ [segment]

/-- The order of segment tuples: the first difference decides, a prefix comes first. -/
def ScopePath.le : List String → List String → Bool
  | [], _ => true
  | _ :: _, [] => false
  | a :: as, b :: bs => if a = b then ScopePath.le as bs else decide (a < b)

/-- `LOOP_BODY_SEGMENT`: the segment beneath a loop under which its body sits. -/
def loopBodySegment : String := "body"

inductive Cardinality where
  | one
  | optional
  | many
deriving DecidableEq, Repr

structure Port where
  name : String
  typeId : String
  schemaHash : String
  jsonSchema : Option Json := none
  cardinality : Cardinality := .one
deriving DecidableEq, Repr

/-- The nominal identity of a port: `type_id` and schema revision. -/
structure Contract where
  typeId : String
  schemaHash : String
deriving DecidableEq, Repr

def Port.contract (p : Port) : Contract := ⟨p.typeId, p.schemaHash⟩

inductive PortAddress where
  | graphInput (scope : ScopePath) (port : String)
  | nodePort (scope : ScopePath) (node : String) (port : String)
  | graphOutput (scope : ScopePath) (port : String)
deriving DecidableEq, Repr

inductive Posture where
  | read
  | write
deriving DecidableEq, Repr

inductive ModelSelection where
  | explicit (model : Option String)
  | backendDefault (model : Option String)
deriving DecidableEq, Repr

inductive NetworkMode where
  | none
  | allow
deriving DecidableEq, Repr

inductive NetworkRequest where
  | inherit
  | mode (m : NetworkMode)
deriving DecidableEq, Repr

structure GrantRequest where
  posture : Option Posture := none
  model : Option String := none
  effort : Option String := none
  allowedTools : Option (List String) := none
  envAllowlist : Option (List String) := none
  network : NetworkRequest := .inherit
  timeoutS : Option ℕ+ := none
deriving DecidableEq

structure EffectiveGrants where
  posture : Posture
  modelSelection : ModelSelection
  effort : Option String
  allowedTools : List String
  envAllowlist : List String
  network : NetworkMode
  timeoutS : ℕ+
deriving DecidableEq

structure Ref where
  component : String
  version : Option String := none
  bind : Dict String String := .empty
  grants : Option GrantRequest := none
deriving DecidableEq

structure Connection where
  src : String
  dst : String
  map : Dict String String := .empty
deriving DecidableEq

/-- A node of a graph whose bodies are of type `β`. -/
structure NodeOf (β : Type) where
  id : String
  body : β

structure GraphOf (β : Type) where
  name : String
  nodes : List (NodeOf β)
  connections : List Connection := []
  inputs : List Port := []
  outputs : List Port := []

structure LoopOf (β : Type) where
  body : Ref ⊕ GraphOf β
  feedback : Dict String String
  continueFrom : String
  maxIterations : ℕ+

/-- What a node holds: `Ref | Graph | Loop`. -/
inductive Body where
  | ref (r : Ref)
  | graph (g : GraphOf Body)
  | loop (l : LoopOf Body)

abbrev GraphNode := NodeOf Body
abbrev Graph := GraphOf Body
abbrev Loop := LoopOf Body

end Constructicon
