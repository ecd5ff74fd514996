import Constructicon.Graph

/-!
# Components, registry snapshots and version selection

One admission sees one immutable snapshot. `selectVersion` is the side-effect-free
choice shared by preflight and compilation: a resolution lock is exact authority,
an exact version is taken as written, and a bare reference follows the stable
pointer. Capability descriptors carry what admission reads of a capability; the
facts it observes on an injected live object are the fields of `Assembly`.
-/

namespace Constructicon

structure PythonRef where
  package : String
  module : String
  qualname : String
  contractHash : String
  sourceDigest : Option String

inductive ComponentBody where
  | python (ref : PythonRef)
  | graph (g : Graph)

structure CapabilityRequirement where
  aliasName : String
  kind : String
deriving DecidableEq

structure ComponentDef where
  name : String
  body : ComponentBody
  inputs : List Port
  outputs : List Port
  capabilityRequirements : Option (List CapabilityRequirement) := none

structure StoredVersion where
  definition : ComponentDef
  contentHash : String

def StoredVersion.isComposite (s : StoredVersion) : Bool :=
  match s.definition.body with
  | .graph _ => true
  | .python _ => false

/-- One immutable view of the registry. Both stores file a row under the name of its
definition and its own content hash. -/
structure RegistrySnapshot where
  versions : Dict String (Dict String StoredVersion)
  order : Dict String (List String) := .empty
  stable : Dict String String
  filed : ∀ row ∈ versions.entries, ∀ version ∈ row.2.entries,
    version.2.definition.name = row.1 ∧ version.2.contentHash = version.1 := by decide

namespace RegistrySnapshot

def stableVersion (s : RegistrySnapshot) (name : String) : Option String :=
  (s.stable.get? name).filter (fun v => v ≠ "")

def get (s : RegistrySnapshot) (name version : String) : Option StoredVersion :=
  (s.versions.getD name .empty).get? version

def names (s : RegistrySnapshot) : List String := s.versions.keys.insertionSort (· ≤ ·)

theorem get_filed {s : RegistrySnapshot} {name version : String} {stored : StoredVersion}
    (h : s.get name version = some stored) :
    stored.definition.name = name ∧ stored.contentHash = version := by
  cases hv : s.versions.get? name with
  | none => simp [get, Dict.getD, hv] at h
  | some row =>
    have hrow : row.get? version = some stored := by simpa [get, Dict.getD, hv] using h
    exact s.filed _ (Dict.mem_of_get? hv) _ (Dict.mem_of_get? hrow)

/-- The port names of every stored definition are pairwise distinct on each side. -/
def DistinctPorts (s : RegistrySnapshot) : Prop :=
  ∀ name version stored, s.get name version = some stored →
    (stored.definition.inputs.map Port.name).Nodup ∧
      (stored.definition.outputs.map Port.name).Nodup

theorem distinctPorts_of_rows {s : RegistrySnapshot}
    (h : ∀ row ∈ s.versions.entries, ∀ version ∈ row.2.entries,
      (version.2.definition.inputs.map Port.name).Nodup ∧
        (version.2.definition.outputs.map Port.name).Nodup) : s.DistinctPorts := by
  intro name version stored hg
  cases hv : s.versions.get? name with
  | none => simp [get, Dict.getD, hv] at hg
  | some row =>
    have hrow : row.get? version = some stored := by simpa [get, Dict.getD, hv] using hg
    exact h _ (Dict.mem_of_get? hv) _ (Dict.mem_of_get? hrow)

end RegistrySnapshot

structure ResolutionPin where
  scope : ScopePath
  component : String
  version : String
deriving DecidableEq

/-- A resolution lock as the compiler holds it: pins by scope. -/
abbrev ResolutionLock := Dict ScopePath ResolutionPin

/-- `resolution_lock.pins`, keyed by scope segments. -/
def ResolutionLock.ofPins (pins : List ResolutionPin) : ResolutionLock :=
  Dict.ofList (pins.map (fun pin => (pin.scope, pin)))

def selectVersion (s : RegistrySnapshot) (ref : Ref) (scope : ScopePath)
    (lock : Option ResolutionLock) : Option StoredVersion :=
  match lock with
  | some lock =>
    match lock.get? scope with
    | none => none
    | some pin => if pin.component ≠ ref.component then none else s.get pin.component pin.version
  | none =>
    match ref.version with
    | some version => s.get ref.component version
    | none =>
      match s.stableVersion ref.component with
      | some stable => s.get ref.component stable
      | none => none

inductive ChannelInteraction where
  | advice
  | approval
deriving DecidableEq, Repr

structure ChannelEndpoint where
  lane : String
  interaction : ChannelInteraction
  recipientActorId : Option String
deriving DecidableEq, Repr

structure ChannelBinding where
  endpoint : ChannelEndpoint
  port : String
  contract : Contract
  replyPort : String
  replyContract : Contract
deriving DecidableEq, Repr

structure IsolationProfile where
  filesystem : String
  processTreeOwned : Bool
  environmentAllowlisted : Bool
  networkEnforced : Bool
deriving DecidableEq, Repr

def IsolationProfile.satisfies (p : IsolationProfile) (posture : Posture) : Bool :=
  if ¬ (p.processTreeOwned ∧ p.environmentAllowlisted) then false
  else match posture with
    | .read => p.filesystem = "none" ∨ p.filesystem = "read_only_snapshot"
    | .write => p.filesystem = "workspace_only"

/-- What admission reads of an executor profile. `grantFaults` is the complete
grant policy's predicate when the profile carries one; `offers` is present for
the plain profile class, whose postures and isolation are checked directly. -/
structure ExecutorProfile where
  grantFaults : Option (EffectiveGrants → List String)
  offers : Option (List Posture × IsolationProfile)

structure CapabilityDescriptor where
  capabilityId : String
  kind : String
  revision : String
  executorProfile : Option ExecutorProfile := none
  isChannel : Bool := false
  endpoint : Option ChannelEndpoint := none
  leased : Bool := false
  requiresPosture : Option Posture := none

/-- The process assembly one admission runs in: the catalog, and what it observes
of the injected objects. -/
structure Assembly (δ : Type) where
  catalog : Dict String CapabilityDescriptor
  /-- `descriptor.executor_unavailability(provider)` -/
  executorUnavailability : CapabilityDescriptor → List String
  /-- `descriptor.executor_incoherence(provider) is not None` -/
  executorIncoherent : CapabilityDescriptor → Bool
  /-- the provider verifies a qualification authorization for this graph -/
  authorizesAdmission : δ → String → Bool
  /-- `descriptor.channel_incoherence(provider)` -/
  channelIncoherence : CapabilityDescriptor → Option String

end Constructicon
