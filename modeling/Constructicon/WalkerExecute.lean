import Constructicon.WalkerRun

/-!
# Loops and whole attempts

A loop first reads all the completions it has on record and refuses a history that no
walker leaves behind; then it runs its iterations from the first, restoring what is
recorded. An attempt runs every unit whose producers completed, and settles the run by
what failed and what waits.
-/

namespace Constructicon.Walker

open Transaction

/-! ## The history of a loop -/

structure LoopHistory where
  completedIterations : ℕ
  terminalIteration : Option ℕ
  exhausted : Bool
  finalValues : Option Values

/-- The recorded completions of one iteration, in member order. -/
abbrev Row := List (Option Checkpoint)

def anyPresent (rows : List Row) : Bool := rows.any (fun row => row.any Option.isSome)

def gapped (row : Row) : Bool := (row.dropWhile Option.isSome).any Option.isSome

def iterationPath (l : LoopResolution) (member : ScopePath) (index : ℕ) : ExecutionPath := ⟨member, [⟨l.scope, index⟩]⟩

section History

variable (hash : Dict String Json → Digest) (bindings : Dict String ResolvedPortBinding)

/-- `_restore_checked_checkpoint` -/
def restoreCheckedCheckpoint (i : Instance) (k : Checkpoint) (values : Values) : Except Damage Values := do
  let inputs ← nodeInputs bindings values i
  if k.inputHash ≠ hash inputs ∨ k.resolvedVersion ≠ some i.version then .error (.contradicts k.path)
  else publishAtomicOutputs i (payloads k) values

variable (byScope : Dict ScopePath Instance) (l : LoopResolution)

/-- Publish the completions of an iteration up to the first missing one. -/
def restoreRow : List (ScopePath × Option Checkpoint) → Values → Except Damage Values
  | [], values => .ok values
  | (_, none) :: _, values => .ok values
  | (scope, some k) :: rest, values => do
    let i ← expect (byScope.get? scope) (.missingMember l.scope scope)
    let values ← restoreCheckedCheckpoint hash bindings i k values
    restoreRow rest values

/-- The values of an iteration, as far as it is on record. -/
def replayIteration (outer : Values) (previous : Option Values) (index : ℕ) (row : Row) : Except Damage Values := do
  let values ← seedLoopIteration l index outer previous
  restoreRow hash bindings byScope l (l.memberOrder.zip row) values

/-- The loop of `_inspect_loop_history` over the rows from iteration `index` on. -/
def inspectRows (outer : Values) (requireTerminal : Bool) :
    List Row → ℕ → Option Values → Except Damage LoopHistory
  | [], index, previous =>
    if requireTerminal then .error (.exhausted l.scope) else .ok ⟨index, none, true, previous⟩
  | row :: later, index, previous =>
    if row.any Option.isSome = false then
      if anyPresent later then .error (.afterEmpty l.scope index)
      else if requireTerminal then .error (.incomplete l.scope index)
      else .ok ⟨index, none, false, previous⟩
    else if gapped row then .error (.afterMissing l.scope index)
    else if row.all Option.isSome = false then
      if anyPresent later then .error (.afterPartial l.scope index)
      else do
        let _ ← replayIteration hash bindings byScope l outer previous index row
        if requireTerminal then .error (.partialIteration l.scope index)
        else .ok ⟨index, none, false, previous⟩
    else do
      let values ← replayIteration hash bindings byScope l outer previous index row
      let decision ← loopDecision l values
      if decision then inspectRows outer requireTerminal later (index + 1) (some values)
      else if anyPresent later then .error (.afterTerminal l.scope index)
      else .ok ⟨index + 1, some index, false, some values⟩

end History

section Loops

variable (c : Context)

def readRow : List ExecutionPath → Walk Row
  | [] => pure []
  | path :: rest => do
    let found ← checkpoint c path
    let row ← readRow rest
    pure (found :: row)

def readMatrix : List (List ExecutionPath) → Walk (List Row)
  | [] => pure []
  | paths :: rest => do
    let row ← readRow c paths
    let rows ← readMatrix rest
    pure (row :: rows)

/-- The invocations of a loop, iteration by iteration. -/
def loopPaths (l : LoopResolution) : List (List ExecutionPath) :=
  (List.range l.maxIterations).map (fun index => l.memberOrder.map (fun member => iterationPath l member index))

/-- `_inspect_loop_history` -/
def inspectLoopHistory (l : LoopResolution) (outer : Values) (requireTerminal : Bool) : Walk LoopHistory := do
  let matrix ← readMatrix c (loopPaths l)
  checked (inspectRows (inputHash c) c.bindings c.byScope l outer requireTerminal matrix 0 none)

/-! ## Running a loop -/

structure Iteration where
  values : Values
  statuses : Dict ScopePath InvocationStatus := .empty
  failed : Bool := false
  restoredOnly : Bool := true
  executedAny : Bool

def Iteration.mark (it : Iteration) (member : ScopePath) (status : InvocationStatus) : Iteration :=
  { it with statuses := it.statuses.insert member status }

def addBlocked (r : DependencyReport) : Walk Unit := Proc.update fun s => { s with blocked := s.blocked ++ [r] }

def addParked (u : ParkedUnit) : Walk Unit := Proc.update fun s => { s with parked := s.parked ++ [u] }

def addFailure (unit error : String) : Walk Unit :=
  Proc.update fun s => { s with failures := s.failures.insert unit error }

/-- Record a blocked destination; `loop` tells a blocked loop from a blocked node. -/
def block (loop : Bool) (r : DependencyReport) : Walk Unit := do
  addBlocked r
  notice c (.blocked loop r.destination r.destination.dump (.arr (r.producers.map ProducerStatus.dump)))

/-- A member in an iteration that has failed already. -/
def passOver (l : LoopResolution) (index : ℕ) (member : ScopePath) (report : DependencyReport) (it : Iteration) :
    Walk (Option Iteration) :=
  if report.waits then do
    block c false report
    pure (some (it.mark member .blocked))
  else do
    notice c (.nodeSkipped (iterationPath l member index))
    pure (some (it.mark member .skipped))

/-- What the outcome of a member does to its iteration; a waiting member parks the loop. -/
def settleMember (l : LoopResolution) (index : ℕ) (member : ScopePath) (it : Iteration) :
    UnitOutcome → Walk (Option Iteration)
  | .completed => pure (some (it.mark member .completed))
  | .parked u => do
    addParked u
    notice c (.unitParked true ⟨l.scope, []⟩ u)
    pure none
  | .failed error => do
    addFailure (renderPath (iterationPath l member index)) error
    pure (some { it.mark member .failed with failed := true })

def runReady (l : LoopResolution) (index : ℕ) (member : ScopePath) (i : Instance) (it : Iteration) :
    Walk (Option Iteration) := do
  let had ← checkpoint c (iterationPath l member index)
  let outcome ← executeOrRestore c (iterationPath l member index) i it.values
  settleMember c l index member
    { it with values := outcome.2, restoredOnly := it.restoredOnly && had.isSome,
              executedAny := it.executedAny || !had.isSome } outcome.1

/-- One member of an iteration; `none` when the loop parks. -/
def runMember (l : LoopResolution) (producers : Dict String Instance) (index : ℕ) (member : ScopePath)
    (it : Iteration) : Walk (Option Iteration) := do
  pause c
  checkRunControl c
  let i ← checked (expect (c.byScope.get? member) (.missingMember l.scope member))
  let report := memberDependencyReport c.bindings producers ⟨l.scope, index⟩ it.statuses i
  if it.failed then passOver c l index member report it
  else if report.waits then do
    block c false report
    pure (some { it.mark member .blocked with failed := true })
  else runReady c l index member i it

/-- Go on with an iteration, unless its loop has parked. -/
def unlessParked {β : Type} (parked : Walk β) (next : Iteration → Walk β) : Option Iteration → Walk β
  | some it => next it
  | none => parked

def runMembers (l : LoopResolution) (producers : Dict String Instance) (index : ℕ) :
    List ScopePath → Iteration → Walk (Option Iteration)
  | [], it => pure (some it)
  | member :: rest, it => do
    let next ← runMember c l producers index member it
    unlessParked (pure none) (runMembers l producers index rest) next

/-- The loop ends with a decision that is not one: it fails. -/
def failDecision (l : LoopResolution) (index : ℕ) (d : Damage) (outer : Values) : Walk (InvocationStatus × Values) := do
  let said := c.world.said (.damage d)
  addFailure (renderPath ⟨l.scope, []⟩) (said.1 ++ ": " ++ said.2)
  notice c (.loopFailed ⟨l.scope, []⟩ said.2 index)
  pure (.failed, outer)

/-- The loop decides to stop: its exports are published. -/
def finishLoop (l : LoopResolution) (index : ℕ) (it : Iteration) (outer : Values) : Walk (InvocationStatus × Values) := do
  let outer ← checked (publishLoopExports l it.values outer)
  notice c (.loopEnded (!it.executedAny) ⟨l.scope, []⟩ (index + 1))
  pure (.completed, outer)

def exhaustLoop (l : LoopResolution) (executedAny : Bool) (outer : Values) : Walk (InvocationStatus × Values) := do
  let u : ParkedUnit := ⟨⟨l.scope, []⟩, "policy_exhausted", some l.maxIterations, none⟩
  addParked u
  notice c (.policyExhausted (!executedAny) ⟨l.scope, []⟩ u)
  pure (.parked, outer)

/-- The end of an iteration all of whose members completed; `next` runs the one after. -/
def decideLoop (l : LoopResolution) (index : ℕ) (outer : Values) (it : Iteration)
    (next : Walk (InvocationStatus × Values)) : Except Damage Bool → Walk (InvocationStatus × Values)
  | .error d => failDecision c l index d outer
  | .ok decision => do
    notice c (.loopIteration it.restoredOnly ⟨l.scope, [⟨l.scope, index⟩]⟩ decision)
    if decision then next else finishLoop c l index it outer

/-- The iterations from `index` on; `remaining` of them are left. -/
def runIterations (l : LoopResolution) (producers : Dict String Instance) (outer : Values) :
    ℕ → ℕ → Option Values → Bool → Walk (InvocationStatus × Values)
  | 0, _, _, executedAny => exhaustLoop c l executedAny outer
  | remaining + 1, index, previous, executedAny => do
    pause c
    checkRunControl c
    let seeded ← checked (seedLoopIteration l index outer previous)
    let ended ← runMembers c l producers index l.memberOrder { values := seeded, executedAny := executedAny }
    unlessParked (pure (.parked, outer)) (fun it =>
      if it.failed then pure (.failed, outer)
      else decideLoop c l index outer it
        (runIterations l producers outer remaining (index + 1) (some it.values) it.executedAny)
        (loopDecision l it.values)) ended

/-- `_execute_loop` -/
def executeLoop (l : LoopResolution) (outer : Values) : Walk (InvocationStatus × Values) := do
  let _ ← inspectLoopHistory c l outer false
  let found ← checked (members c.byScope l)
  runIterations c l (memberProducerIndex found) outer l.maxIterations 0 none false

/-! ## The units -/

/-- The values published so far and the status of every unit passed. -/
structure Progress where
  values : Values
  statuses : Dict ScopePath InvocationStatus := .empty

def Progress.mark (p : Progress) (u : RootUnit) (status : InvocationStatus) : Progress :=
  { p with statuses := p.statuses.insert u.scope status }

def settleUnit (u : RootUnit) (p : Progress) : UnitOutcome → Walk Progress
  | .completed => pure (p.mark u .completed)
  | .parked unit => do
    addParked unit
    pure (p.mark u .parked)
  | .failed error => do
    addFailure (renderScope u.scope) error
    pure (p.mark u .failed)

def startUnit (p : Progress) : RootUnit → Walk Progress
  | .atomic i => do
    let outcome ← executeOrRestore c ⟨i.scope, []⟩ i p.values
    settleUnit (.atomic i) { p with values := outcome.2 } outcome.1
  | .loop l => do
    let ended ← executeLoop c l p.values
    pure ({ p with values := ended.2 }.mark (.loop l) ended.1)

def isLoop : RootUnit → Bool
  | .atomic _ => false
  | .loop _ => true

def runUnit (p : Progress) (u : RootUnit) : Walk Progress := do
  pause c
  checkRunControl c
  let report := unitDependencyReport c.bindings c.producers p.statuses u
  if report.waits then do
    block c (isLoop u) report
    pure (p.mark u .blocked)
  else startUnit c p u

def runUnits : List RootUnit → Progress → Walk Progress
  | [], p => pure p
  | u :: rest, p => do
    let p ← runUnit c p u
    runUnits rest p

/-! ## The attempt -/

structure RunResult where
  status : RunStatus
  outputs : Dict String Json := .empty
  failures : Dict String String := .empty
  blocked : List DependencyReport := []
  parked : List ParkedUnit := []

/-- The result an attempt without outputs reports. -/
def Attempt.result (s : Attempt) (status : RunStatus) : RunResult where
  status := status
  failures := s.failures
  blocked := s.blocked
  parked := s.parked.insertionSort (fun u v => renderPath u.path ≤ renderPath v.path)

def RunResult.blockedPaths (r : RunResult) : Json :=
  .arr (r.blocked.map (fun report => .str (renderPath report.destination)))

def RunResult.parkedUnits (r : RunResult) : Json := .arr (r.parked.map ParkedUnit.dump)

/-- `run_state`, of a run that must be there. -/
def runStatus : Walk RunStatus := do
  let row ← access c.world (fun b _ s =>
    (runMutationRow c.world.wire b s c.lease.runId).map (fun row => (row, s)))
  checked ((expect row (.unknownRun c.lease.runId)).map RunRow.status)

def checkedForeign : Option Foreign → Walk Unit
  | some e => raise e
  | none => pure ()

def openAttempt (inputs : Dict String Json) (cause : Option AttemptCause) : RunStatus → Walk Unit
  | .pending => turn c (.started (.obj inputs.entries) cause)
  | .failed => turn c (.resumed cause)
  | .parked => turn c (.resumed cause)
  | _ => notice c (.runReclaimed cause)

/-- `_reconcile_stale_leases` -/
def reconcileStaleLeases : Walk Unit := do
  let raised ← ask c.world.reconciles
  checkedForeign raised

/-- Settle a run all of whose units were passed. -/
def settleRun {δ : Type} (m : ExecutionManifest δ) (p : Progress) (r : RunResult) : Walk RunResult :=
  if r.failures.entries ≠ [] then do
    turn c (.failed (Json.strs (sortStrings r.failures.keys)) r.blockedPaths r.parkedUnits)
    pure { r with status := .failed }
  else if r.parked ≠ [] then do
    turn c (.parked r.parkedUnits r.blockedPaths)
    pure { r with status := .parked }
  else if r.blocked ≠ [] then Proc.fail (.damage .blockedWithoutRoot)
  else do
    let outputs ← checked (graphOutputs m p.values c.bindings)
    turn c (.succeeded (Json.strs (sortStrings outputs.keys)))
    pure { status := .succeeded, outputs := outputs }

/-- What an attempt has collected, as a result. -/
def collected (status : RunStatus) : Walk RunResult := do
  let s ← Proc.look
  pure (s.result status)

/-- The end of `_execute`: a cancellation that was asked for settles the run too. -/
def settle {δ : Type} (m : ExecutionManifest δ) : Except Raised Progress → Walk RunResult
  | .ok p => do
    let r ← collected .running
    settleRun c m p r
  | .error (.foreign .cancelRequested) => do
    turn c (.cancelled "request")
    collected .cancelled
  | .error e => Proc.fail e

/-- `_execute` -/
def execute {δ : Type} (m : ExecutionManifest δ) (units : List RootUnit) (inputs : Dict String Json)
    (cause : Option AttemptCause) : Walk RunResult := do
  let status ← runStatus c
  openAttempt c inputs cause status
  reconcileStaleLeases c
  let ordered ← checked (orderedUnits units c.bindings c.producers)
  let ended ← Proc.tried (runUnits c ordered { values := rootValues m inputs })
  settle c m ended

end Loops

/-- The locals of `_execute`, of the instances a manifest was activated with. -/
def Context.of {δ : Type} (world : World) (lease : RunLease) (m : ExecutionManifest δ) (instances : List Instance) :
    Context where
  world := world
  lease := lease
  bindings := bindingsByKey m
  byScope := instancesByScope instances
  producers := unitProducerIndex (rootUnits m instances)
  granted := (m.capabilityBindings.filter (fun b => b.binding = selfBinding)).map CapabilityBinding.scope

/-! ## Materialization -/

section Materialize

variable {δ : Type} (hash : Dict String Json → Digest) (record : ExecutionPath → Option Checkpoint)

/-- `_materialization_instances`: the atomic versions, every one of which must be there. -/
def materializationInstances (s : RegistrySnapshot) (m : ExecutionManifest δ) : Except Damage (List Instance) := do
  let _ ← m.resolvedComponents.mapM (fun r => expect (s.get r.component r.resolvedVersion) (.missingComponent r.scope))
  pure (s.instances m)

def recordedRows (l : LoopResolution) : List Row := (loopPaths l).map (fun paths => paths.map record)

/-- One unit of `_materialize`. -/
def materializeUnit (bindings : Dict String ResolvedPortBinding) (byScope : Dict ScopePath Instance)
    (values : Values) : RootUnit → Except Damage Values
  | .atomic i => do
    let k ← expect (record ⟨i.scope, []⟩) (.lacksCheckpoint i.scope)
    restoreCheckedCheckpoint hash bindings i k values
  | .loop l => do
    let history ← inspectRows hash bindings byScope l values true (recordedRows record l) 0 none
    let final ← expect history.finalValues (.exhausted l.scope)
    publishLoopExports l final values

/-- `_materialize`: the outputs of a run from its checkpoints alone. -/
def materialize (s : RegistrySnapshot) (m : ExecutionManifest δ) (inputs : Dict String Json) :
    Except Damage (Dict String Json) := do
  let instances ← materializationInstances s m
  let units := rootUnits m instances
  let bindings := bindingsByKey m
  let ordered ← orderedUnits units bindings (unitProducerIndex units)
  let values ← ordered.foldlM (materializeUnit hash record bindings (instancesByScope instances)) (rootValues m inputs)
  graphOutputs m values bindings

end Materialize

end Constructicon.Walker
