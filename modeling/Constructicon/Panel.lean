import Constructicon.Identity
import Constructicon.JournalSeals
import Mathlib.Data.List.GetD
import Mathlib.Data.List.Lex

/-!
# The panel contracts

What a member of a panel reports and what the panel concludes. A member's seat is read off
the path it reports: the aggregator's parent scope, one segment of its own, and the
aggregator's loop frames. Votes are seated in the order of their canonical paths, so that
the conclusion depends on the set of reports alone, and a result names the members it was
concluded from and is checked against them.
-/

namespace Constructicon

open PyJson Transaction

inductive PanelMemberOutcome where
  | responded
  | declined
  | unavailable
  | timedOut
deriving DecidableEq, Repr

inductive PanelBallot where
  | approve
  | reject
  | abstain
deriving DecidableEq, Repr

inductive PanelOutcome where
  | approved
  | rejected
  | insufficientResponses
  | impossibleQuorum
deriving DecidableEq, Repr

structure PanelMemberResult where
  runId : RunId
  member : ExecutionPath
  outcome : PanelMemberOutcome
  ballot : Option PanelBallot := none
  rationale : Option Json := none
  actorId : Option String := none
  messageId : Option Digest := none
  /-- A responded member names a ballot; any other outcome names none. -/
  ballotIffResponded : outcome = .responded ↔ ballot.isSome = true
deriving DecidableEq

structure PanelQuorum where
  requiredApprovals : ℕ+
deriving DecidableEq

structure PanelTally where
  approve : ℕ := 0
  reject : ℕ := 0
  abstain : ℕ := 0
  declined : ℕ := 0
  unavailable : ℕ := 0
  timedOut : ℕ := 0
deriving DecidableEq, Repr

namespace PanelTally

def responded (t : PanelTally) : ℕ := t.approve + t.reject + t.abstain

def members (t : PanelTally) : ℕ := t.responded + t.declined + t.unavailable + t.timedOut

end PanelTally

structure PanelMemberSummary where
  node : String
  result : PanelMemberResult
deriving DecidableEq

inductive PanelRefusal where
  /-- a panel aggregator has a scope; the root is not one -/
  | rootAggregator
  /-- panel aggregator carries frames that do not enclose it -/
  | aggregatorFrames (aggregator : ExecutionPath)
  /-- panel member reports another run -/
  | otherRun (member : ExecutionPath) (reported expected : RunId)
  /-- panel member is not a sibling of the aggregator -/
  | notSibling (member aggregator : ExecutionPath)
  /-- panel member claims the aggregator's own seat -/
  | ownSeat (member : ExecutionPath)
  /-- panel member reported more than one result -/
  | seatTaken (node : String)
  /-- panel result contradicts the members it names -/
  | contradiction
deriving DecidableEq

/-- `panel_outcome` -/
def panelOutcome (tally : PanelTally) (quorum : PanelQuorum) : PanelOutcome :=
  if tally.members < quorum.requiredApprovals then .impossibleQuorum
  else if quorum.requiredApprovals ≤ tally.approve then .approved
  else if tally.responded < quorum.requiredApprovals then .insufficientResponses
  else .rejected

/-- `_member_key`: the complete structural path, canonically encoded. -/
def memberKey (result : PanelMemberResult) : PyStr := canonicalText result.member.dump

/-- `_frames_writable`: one frame at most, its loop directly above a `body` segment. -/
def FramesWritable (frames : List IterationFrame) (invocation : ScopePath) : Prop :=
  frames.length ≤ 1 ∧ ∀ frame ∈ frames, frame.loop ≠ [] ∧
    invocation.take frame.loop.length = frame.loop ∧
      (invocation.drop frame.loop.length).take 1 = [loopBodySegment]

instance (frames : List IterationFrame) (invocation : ScopePath) :
    Decidable (FramesWritable frames invocation) := inferInstanceAs (Decidable (_ ∧ _))

/-- The member sits beneath the aggregator's parent, in the aggregator's iteration, and every
further frame names a loop at or beneath its seat. -/
def Sibling (aggregator member : ExecutionPath) : Prop :=
  let parent := aggregator.scope.dropLast
  let depth := parent.length
  let segments := member.scope
  let frames := aggregator.iterations
  let seat := segments.take (depth + 1)
  segments.take depth = parent ∧ depth < segments.length ∧
    member.iterations.take frames.length = frames ∧ FramesWritable member.iterations segments ∧
      ∀ frame ∈ member.iterations.drop frames.length, frame.loop.take seat.length = seat

instance (aggregator member : ExecutionPath) : Decidable (Sibling aggregator member) :=
  inferInstanceAs (Decidable (_ ∧ _))

def seatNode (aggregator member : ExecutionPath) : String :=
  member.scope.getD (aggregator.scope.length - 1) ""

def seatsTaken (summaries : List PanelMemberSummary) : List String := summaries.map PanelMemberSummary.node

/-- One round of `_place`. -/
def seatMember (aggregator : ExecutionPath) (runId : RunId) (summaries : List PanelMemberSummary)
    (result : PanelMemberResult) : Except PanelRefusal (List PanelMemberSummary) := do
  require (result.runId = runId) (.otherRun result.member result.runId runId)
  require (Sibling aggregator result.member) (.notSibling result.member aggregator)
  let node := seatNode aggregator result.member
  require (node ≠ aggregator.scope.getLastD "") (.ownSeat result.member)
  require (node ∉ seatsTaken summaries) (.seatTaken node)
  return summaries ++ [⟨node, result⟩]

def inPathOrder (votes : List PanelMemberResult) : List PanelMemberResult :=
  votes.insertionSort (fun a b => memberKey a ≤ memberKey b)

/-- `_place` -/
def Panel.place (votes : List PanelMemberResult) (aggregator : ExecutionPath) (runId : RunId) :
    Except PanelRefusal (List PanelMemberSummary) := do
  require (aggregator.scope ≠ []) .rootAggregator
  require (FramesWritable aggregator.iterations aggregator.scope) (.aggregatorFrames aggregator)
  (inPathOrder votes).foldlM (seatMember aggregator runId) []

/-- A member counts for its ballot when it names one and for its outcome otherwise. The last
case is no member's. -/
def PanelTally.count (t : PanelTally) (result : PanelMemberResult) : PanelTally :=
  match result.ballot, result.outcome with
  | some .approve, _ => { t with approve := t.approve + 1 }
  | some .reject, _ => { t with reject := t.reject + 1 }
  | some .abstain, _ => { t with abstain := t.abstain + 1 }
  | none, .declined => { t with declined := t.declined + 1 }
  | none, .unavailable => { t with unavailable := t.unavailable + 1 }
  | none, .timedOut => { t with timedOut := t.timedOut + 1 }
  | none, .responded => t

/-- `_tally` -/
def tally (members : List PanelMemberSummary) : PanelTally :=
  members.foldl (fun counts summary => counts.count summary.result) {}

structure PanelFields where
  runId : RunId
  aggregator : ExecutionPath
  quorum : PanelQuorum
  outcome : PanelOutcome
  tally : PanelTally
  members : List PanelMemberSummary
deriving DecidableEq

/-- `_concluded_from_its_members` -/
def PanelFields.concludedFromItsMembers (f : PanelFields) : Except PanelRefusal Unit := do
  let placed ← Panel.place (f.members.map PanelMemberSummary.result) f.aggregator f.runId
  let counted := Constructicon.tally placed
  require (f.members = placed ∧ f.tally = counted ∧ f.outcome = panelOutcome counted f.quorum)
    .contradiction

structure PanelResult extends PanelFields where
  concluded : toPanelFields.concludedFromItsMembers = .ok ()

def PanelResult.validated (f : PanelFields) : Except PanelRefusal PanelResult :=
  match h : f.concludedFromItsMembers with
  | .ok () => .ok ⟨f, h⟩
  | .error e => .error e

/-- `aggregate_panel` -/
def aggregatePanel (votes : List PanelMemberResult) (quorum : PanelQuorum) (aggregator : ExecutionPath)
    (runId : RunId) : Except PanelRefusal PanelResult := do
  let members ← Panel.place votes aggregator runId
  let counted := tally members
  PanelResult.validated
    { runId, aggregator, quorum, outcome := panelOutcome counted quorum, tally := counted, members }

/-! ## The order of paths -/

variable {φ : Type} (F : FloatText φ)

theorem wire_strs (l : List String) : WireValue F (Json.strs l) := by
  refine .arr fun j hj => ?_
  obtain ⟨s, -, rfl⟩ := List.mem_map.mp hj
  exact .str s

theorem wire_scope (s : ScopePath) : WireValue F s.dump := by
  refine .obj (by simp) fun e he => ?_
  rw [List.mem_singleton.mp he]
  exact wire_strs F s

theorem wire_path (p : ExecutionPath) : WireValue F p.dump := by
  refine .obj (by simp) (List.forall_mem_cons.mpr ⟨.arr fun j hj => ?_,
    List.forall_mem_singleton.mpr (wire_scope F p.scope)⟩)
  obtain ⟨frame, -, rfl⟩ := List.mem_map.mp hj
  exact .obj (by simp) (List.forall_mem_cons.mpr ⟨.int _,
    List.forall_mem_singleton.mpr (wire_scope F frame.loop)⟩)

theorem ScopePath.canonical_dump (s : ScopePath) : (ScopePath.dump s).canonical = ScopePath.dump s := by
  rw [ScopePath.dump, Json.canonical_obj, List.map_cons, List.map_nil, Json.canonical_strs]
  rfl

theorem sortKeys_pair {k l : String} (h : k ≤ l) (a b : Json) :
    Json.sortKeys [(k, a), (l, b)] = [(k, a), (l, b)] := by
  simp [Json.sortKeys, h]

theorem ExecutionPath.canonical_dump (p : ExecutionPath) : p.dump.canonical = p.dump := by
  have frame : ∀ f : IterationFrame, f.dump.canonical = f.dump := by
    intro f
    have sorted : "index" ≤ "loop" := by decide
    rw [IterationFrame.dump, Json.canonical_obj, List.map_cons, List.map_cons, List.map_nil,
      Json.canonical_int, ScopePath.canonical_dump]
    exact congrArg Json.obj (sortKeys_pair sorted _ _)
  have frames : (p.iterations.map IterationFrame.dump).map Json.canonical =
      p.iterations.map IterationFrame.dump := by
    rw [List.map_map]
    exact List.map_congr_left fun f _ => frame f
  have sorted : "iterations" ≤ "scope" := by decide
  rw [ExecutionPath.dump, Json.canonical_obj, List.map_cons, List.map_cons, List.map_nil,
    Json.canonical_arr, frames, ScopePath.canonical_dump]
  exact congrArg Json.obj (sortKeys_pair sorted _ _)

theorem memberKey_injective {a b : PanelMemberResult} (same : memberKey a = memberKey b) :
    a.member = b.member := by
  unfold memberKey canonicalText at same
  rw [ExecutionPath.canonical_dump, ExecutionPath.canonical_dump] at same
  exact ExecutionPath.dump_injective
    (dumps_injective noFloats (wire_path noFloats a.member) (wire_path noFloats b.member) same)

theorem inPathOrder_perm (votes : List PanelMemberResult) : (inPathOrder votes).Perm votes :=
  List.perm_insertionSort _ _

theorem inPathOrder_eq {votes votes' : List PanelMemberResult} (perm : votes.Perm votes')
    (paths : (votes.map PanelMemberResult.member).Nodup) : inPathOrder votes = inPathOrder votes' := by
  have sorted : (inPathOrder votes).Perm (inPathOrder votes') :=
    (inPathOrder_perm votes).trans (perm.trans (inPathOrder_perm votes').symm)
  have total : Std.Total (fun a b : PanelMemberResult => memberKey a ≤ memberKey b) :=
    ⟨fun a b => le_total _ _⟩
  have trans : IsTrans PanelMemberResult (fun a b => memberKey a ≤ memberKey b) :=
    ⟨fun _ _ _ => le_trans⟩
  refine sorted.eq_of_pairwise ?_ (List.pairwise_insertionSort _ votes)
    (List.pairwise_insertionSort _ votes')
  intro a b ha hb le ge
  have memA := (inPathOrder_perm votes).mem_iff.mp ha
  have memB := perm.mem_iff.mpr ((inPathOrder_perm votes').mem_iff.mp hb)
  exact List.inj_on_of_nodup_map paths memA memB (memberKey_injective (le_antisymm le ge))

/-! ## Seating -/

/-- Every vote is of this run and this iteration, from a seat of its own beside the
aggregator's. -/
structure Seated (votes : List PanelMemberResult) (aggregator : ExecutionPath) (runId : RunId) :
    Prop where
  hasScope : aggregator.scope ≠ []
  writable : FramesWritable aggregator.iterations aggregator.scope
  run : ∀ v ∈ votes, v.runId = runId
  sibling : ∀ v ∈ votes, Sibling aggregator v.member
  others : ∀ v ∈ votes, seatNode aggregator v.member ≠ aggregator.scope.getLastD ""
  seats : (votes.map (fun v => seatNode aggregator v.member)).Nodup

def summaryOf (aggregator : ExecutionPath) (v : PanelMemberResult) : PanelMemberSummary :=
  ⟨seatNode aggregator v.member, v⟩

theorem seatMember_ok {aggregator : ExecutionPath} {runId : RunId}
    {summaries next : List PanelMemberSummary} {v : PanelMemberResult} :
    seatMember aggregator runId summaries v = .ok next ↔
      v.runId = runId ∧ Sibling aggregator v.member ∧
        seatNode aggregator v.member ≠ aggregator.scope.getLastD "" ∧
        seatNode aggregator v.member ∉ seatsTaken summaries ∧
        next = summaries ++ [summaryOf aggregator v] := by
  simp only [seatMember, bind_eq_ok, require_eq_ok]
  constructor
  · rintro ⟨_, run, _, sibling, _, other, _, free, same⟩
    exact ⟨run, sibling, other, free, (Except.ok.inj same).symm⟩
  · rintro ⟨run, sibling, other, free, rfl⟩
    exact ⟨(), run, (), sibling, (), other, (), free, rfl⟩

theorem seatMembers_ok {aggregator : ExecutionPath} {runId : RunId} {votes : List PanelMemberResult}
    {summaries placed : List PanelMemberSummary} (free : (seatsTaken summaries).Nodup) :
    votes.foldlM (seatMember aggregator runId) summaries = .ok placed ↔
      (∀ v ∈ votes, v.runId = runId) ∧ (∀ v ∈ votes, Sibling aggregator v.member) ∧
        (∀ v ∈ votes, seatNode aggregator v.member ≠ aggregator.scope.getLastD "") ∧
        (seatsTaken summaries ++ votes.map (fun v => seatNode aggregator v.member)).Nodup ∧
        placed = summaries ++ votes.map (summaryOf aggregator) := by
  induction votes generalizing summaries with
  | nil =>
    simp only [List.foldlM_nil, List.map_nil, List.append_nil, List.not_mem_nil, false_imp_iff,
      implies_true, true_and]
    exact ⟨fun h => ⟨free, (Except.ok.inj h).symm⟩, fun h => by rw [h.2]; rfl⟩
  | cons v votes ih =>
    have taken : seatsTaken (summaries ++ [summaryOf aggregator v]) =
        seatsTaken summaries ++ [seatNode aggregator v.member] := by
      rw [seatsTaken, List.map_append]
      rfl
    rw [List.foldlM_cons, bind_eq_ok]
    simp only [List.forall_mem_cons, List.map_cons]
    constructor
    · rintro ⟨next, first, rest⟩
      obtain ⟨run, sibling, other, new, rfl⟩ := seatMember_ok.mp first
      have grown : (seatsTaken (summaries ++ [summaryOf aggregator v])).Nodup := by
        rw [taken, ← List.concat_eq_append]
        exact free.concat new
      obtain ⟨runs, siblings, others, seats, rfl⟩ := (ih grown).mp rest
      rw [taken, List.append_assoc] at seats
      exact ⟨⟨run, runs⟩, ⟨sibling, siblings⟩, ⟨other, others⟩, seats, by rw [List.append_assoc]; rfl⟩
    · rintro ⟨⟨run, runs⟩, ⟨sibling, siblings⟩, ⟨other, others⟩, seats, rfl⟩
      have new : seatNode aggregator v.member ∉ seatsTaken summaries := fun mem =>
        (List.nodup_append.mp seats).2.2 _ mem _ List.mem_cons_self rfl
      have grown : (seatsTaken (summaries ++ [summaryOf aggregator v])).Nodup := by
        rw [taken, ← List.concat_eq_append]
        exact free.concat new
      refine ⟨_, seatMember_ok.mpr ⟨run, sibling, other, new, rfl⟩, (ih grown).mpr ?_⟩
      rw [taken, List.append_assoc, List.append_assoc]
      exact ⟨runs, siblings, others, seats, rfl⟩

/-- `_place` seats the votes in the order of their paths, or refuses. -/
theorem place_ok {votes : List PanelMemberResult} {aggregator : ExecutionPath} {runId : RunId}
    {placed : List PanelMemberSummary} :
    Panel.place votes aggregator runId = .ok placed ↔
      Seated votes aggregator runId ∧ placed = (inPathOrder votes).map (summaryOf aggregator) := by
  have perm := inPathOrder_perm votes
  have seats := (perm.map (fun v => seatNode aggregator v.member)).nodup_iff
  have mem : ∀ v, v ∈ inPathOrder votes ↔ v ∈ votes := fun v => perm.mem_iff
  have rounds : (inPathOrder votes).foldlM (seatMember aggregator runId) [] = .ok placed ↔ _ :=
    seatMembers_ok List.nodup_nil
  simp only [mem] at rounds
  simp only [Panel.place, bind_eq_ok, require_eq_ok]
  constructor
  · rintro ⟨_, root, _, writable, rest⟩
    obtain ⟨run, sibling, others, nodup, same⟩ := rounds.mp rest
    exact ⟨⟨root, writable, run, sibling, others, seats.mp nodup⟩, same⟩
  · rintro ⟨seated, same⟩
    exact ⟨(), seated.hasScope, (), seated.writable,
      rounds.mpr ⟨seated.run, seated.sibling, seated.others, seats.mpr seated.seats, same⟩⟩

theorem Seated.perm {votes votes' : List PanelMemberResult} {aggregator : ExecutionPath} {runId : RunId}
    (seated : Seated votes aggregator runId) (perm : votes.Perm votes') :
    Seated votes' aggregator runId where
  hasScope := seated.hasScope
  writable := seated.writable
  run v hv := seated.run v (perm.mem_iff.mpr hv)
  sibling v hv := seated.sibling v (perm.mem_iff.mpr hv)
  others v hv := seated.others v (perm.mem_iff.mpr hv)
  seats := (perm.map _).nodup_iff.mp seated.seats

theorem Seated.paths {votes : List PanelMemberResult} {aggregator : ExecutionPath} {runId : RunId}
    (seated : Seated votes aggregator runId) : (votes.map PanelMemberResult.member).Nodup := by
  have seats := seated.seats
  have split : votes.map (fun v => seatNode aggregator v.member) =
      (votes.map PanelMemberResult.member).map (seatNode aggregator) := by
    rw [List.map_map]
    rfl
  rw [split] at seats
  exact seats.of_map

/-! ## Counting -/

theorem PanelTally.count_members (t : PanelTally) (v : PanelMemberResult) :
    (t.count v).members = t.members + 1 := by
  have named := v.ballotIffResponded
  unfold PanelTally.count
  split <;> simp_all [PanelTally.members, PanelTally.responded] <;> omega

theorem PanelTally.count_approve (t : PanelTally) (v : PanelMemberResult) :
    (t.count v).approve = t.approve + if v.ballot = some .approve then 1 else 0 := by
  unfold PanelTally.count
  split <;> simp_all

theorem tally_members (members : List PanelMemberSummary) : (tally members).members = members.length := by
  suffices counted : ∀ t : PanelTally,
      (members.foldl (fun counts summary => counts.count summary.result) t).members =
        t.members + members.length by
    have start : PanelTally.members {} = 0 := rfl
    rw [tally, counted, start, Nat.zero_add]
  induction members with
  | nil => exact fun t => rfl
  | cons m members ih =>
    intro t
    rw [List.foldl_cons, ih, PanelTally.count_members, List.length_cons]
    omega

theorem tally_approve (members : List PanelMemberSummary) :
    (tally members).approve = (members.filter (fun m => m.result.ballot = some .approve)).length := by
  suffices counted : ∀ t : PanelTally,
      (members.foldl (fun counts summary => counts.count summary.result) t).approve =
        t.approve + (members.filter (fun m => m.result.ballot = some .approve)).length by
    rw [tally, counted, Nat.zero_add]
  induction members with
  | nil => exact fun t => rfl
  | cons m members ih =>
    intro t
    rw [List.foldl_cons, ih, PanelTally.count_approve]
    by_cases approves : m.result.ballot = some .approve
    · rw [if_pos approves, List.filter_cons_of_pos (by simpa using approves), List.length_cons]
      omega
    · rw [if_neg approves, List.filter_cons_of_neg (by simpa using approves)]
      rfl

/-! ## The conclusion -/

def concludes (votes : List PanelMemberResult) (quorum : PanelQuorum) (aggregator : ExecutionPath)
    (runId : RunId) : PanelFields :=
  let members := (inPathOrder votes).map (summaryOf aggregator)
  { runId, aggregator, quorum, outcome := panelOutcome (tally members) quorum,
    tally := tally members, members }

theorem concludes_results (votes : List PanelMemberResult) (quorum : PanelQuorum)
    (aggregator : ExecutionPath) (runId : RunId) :
    (concludes votes quorum aggregator runId).members.map PanelMemberSummary.result =
      inPathOrder votes := by
  have same : PanelMemberSummary.result ∘ summaryOf aggregator = id := rfl
  rw [concludes, List.map_map, same, List.map_id]

theorem concluded_iff {f : PanelFields} : f.concludedFromItsMembers = .ok () ↔
    Seated (f.members.map PanelMemberSummary.result) f.aggregator f.runId ∧
      f = concludes (f.members.map PanelMemberSummary.result) f.quorum f.aggregator f.runId := by
  simp only [PanelFields.concludedFromItsMembers, bind_eq_ok, require_eq_ok, place_ok]
  constructor
  · rintro ⟨placed, ⟨seated, same⟩, members, counted, outcome⟩
    refine ⟨seated, ?_⟩
    rw [concludes, ← same]
    cases f
    dsimp only at members counted outcome
    rw [← members, counted, outcome, members]
  · rintro ⟨seated, same⟩
    refine ⟨_, ⟨seated, rfl⟩, ?_, ?_, ?_⟩
    · exact congrArg PanelFields.members same
    · exact congrArg PanelFields.tally same
    · exact congrArg PanelFields.outcome same

theorem validated_ok {f : PanelFields} {r : PanelResult} :
    PanelResult.validated f = .ok r ↔ f.concludedFromItsMembers = .ok () ∧ r.toPanelFields = f := by
  unfold PanelResult.validated
  split
  · next concluded =>
    refine ⟨fun h => ?_, fun h => ?_⟩
    · cases h
      exact ⟨concluded, rfl⟩
    · obtain ⟨-, rfl⟩ := h
      rfl
  · next e refused =>
    refine ⟨fun h => ?_, fun h => ?_⟩
    · cases h
    · rw [h.1] at refused
      cases refused

theorem concludes_perm {votes votes' : List PanelMemberResult} {aggregator : ExecutionPath} {runId : RunId}
    (perm : votes.Perm votes') (seated : Seated votes aggregator runId) (quorum : PanelQuorum) :
    concludes votes quorum aggregator runId = concludes votes' quorum aggregator runId := by
  rw [concludes, inPathOrder_eq perm seated.paths]
  rfl

theorem Seated.concluded {votes : List PanelMemberResult} {aggregator : ExecutionPath} {runId : RunId}
    (seated : Seated votes aggregator runId) (quorum : PanelQuorum) :
    (concludes votes quorum aggregator runId).concludedFromItsMembers = .ok () := by
  have perm := (inPathOrder_perm votes).symm
  rw [concluded_iff, concludes_results]
  exact ⟨seated.perm perm, concludes_perm perm seated quorum⟩

theorem aggregatePanel_ok {votes : List PanelMemberResult} {quorum : PanelQuorum}
    {aggregator : ExecutionPath} {runId : RunId} {r : PanelResult} :
    aggregatePanel votes quorum aggregator runId = .ok r ↔
      Seated votes aggregator runId ∧ r.toPanelFields = concludes votes quorum aggregator runId := by
  simp only [aggregatePanel, bind_eq_ok, place_ok, validated_ok]
  constructor
  · rintro ⟨placed, ⟨seated, rfl⟩, -, same⟩
    exact ⟨seated, same⟩
  · rintro ⟨seated, same⟩
    exact ⟨_, ⟨seated, rfl⟩, seated.concluded quorum, same⟩

theorem aggregatePanel_perm {votes votes' : List PanelMemberResult} {quorum : PanelQuorum}
    {aggregator : ExecutionPath} {runId : RunId} {r : PanelResult} (perm : votes.Perm votes')
    (h : aggregatePanel votes quorum aggregator runId = .ok r) :
    aggregatePanel votes' quorum aggregator runId = .ok r := by
  obtain ⟨seated, same⟩ := aggregatePanel_ok.mp h
  rw [concludes_perm perm seated] at same
  exact aggregatePanel_ok.mpr ⟨seated.perm perm, same⟩

/-- `v` approves from the seat `seat` beside the aggregator, for its run and iteration. -/
structure Approves (aggregator : ExecutionPath) (runId : RunId) (seat : String) (v : PanelMemberResult) :
    Prop where
  beside : ∃ below, v.member.scope = aggregator.scope.dropLast ++ seat :: below
  iteration : ∃ inner, v.member.iterations = aggregator.iterations ++ inner ∧
    ∀ frame ∈ inner, ∃ below, frame.loop = aggregator.scope.dropLast ++ seat :: below
  run : v.runId = runId
  ballot : v.ballot = some .approve

theorem Sibling.beside {aggregator member : ExecutionPath} (sibling : Sibling aggregator member) :
    ∃ below, member.scope = aggregator.scope.dropLast ++ seatNode aggregator member :: below := by
  obtain ⟨parent, deep, -⟩ := sibling
  have depth : aggregator.scope.length - 1 = aggregator.scope.dropLast.length := by simp
  have node : seatNode aggregator member = member.scope[aggregator.scope.dropLast.length] := by
    rw [seatNode, depth, List.getD_eq_getElem _ _ deep]
  refine ⟨member.scope.drop (aggregator.scope.dropLast.length + 1), ?_⟩
  conv_lhs => rw [← List.take_append_drop aggregator.scope.dropLast.length member.scope]
  rw [parent, List.drop_eq_getElem_cons deep, ← node]

theorem Sibling.iteration {aggregator member : ExecutionPath} (sibling : Sibling aggregator member) :
    ∃ inner, member.iterations = aggregator.iterations ++ inner ∧ ∀ frame ∈ inner,
      ∃ below, frame.loop = aggregator.scope.dropLast ++ seatNode aggregator member :: below := by
  obtain ⟨below, scope⟩ := sibling.beside
  obtain ⟨-, -, frames, -, inner⟩ := sibling
  refine ⟨member.iterations.drop aggregator.iterations.length, ?_, fun frame mem => ?_⟩
  · conv_lhs => rw [← List.take_append_drop aggregator.iterations.length member.iterations]
    rw [frames]
  · have seat : member.scope.take (aggregator.scope.dropLast.length + 1) =
        aggregator.scope.dropLast ++ [seatNode aggregator member] := by
      rw [scope, List.take_append]
      simp
    have under := inner frame mem
    rw [seat] at under
    refine ⟨frame.loop.drop (aggregator.scope.dropLast ++ [seatNode aggregator member]).length, ?_⟩
    conv_lhs => rw [← List.take_append_drop
      (aggregator.scope.dropLast ++ [seatNode aggregator member]).length frame.loop]
    rw [under, List.append_assoc, List.singleton_append]

theorem panelOutcome_approved {t : PanelTally} {quorum : PanelQuorum}
    (h : panelOutcome t quorum = .approved) : quorum.requiredApprovals ≤ t.approve := by
  unfold panelOutcome at h
  split_ifs at h with impossible enough
  exact enough

theorem approved_seats {votes : List PanelMemberResult} {quorum : PanelQuorum}
    {aggregator : ExecutionPath} {runId : RunId} {r : PanelResult}
    (h : aggregatePanel votes quorum aggregator runId = .ok r) (approved : r.outcome = .approved) :
    ∃ seats : List String, seats.Nodup ∧ quorum.requiredApprovals ≤ seats.length ∧
      ∀ seat ∈ seats, seat ≠ aggregator.scope.getLastD "" ∧
        ∃ v ∈ votes, votes.filter (fun w => seatNode aggregator w.member = seat) = [v] ∧
          Approves aggregator runId seat v := by
  obtain ⟨seated, same⟩ := aggregatePanel_ok.mp h
  have enough : quorum.requiredApprovals ≤ (concludes votes quorum aggregator runId).tally.approve := by
    apply panelOutcome_approved
    rw [same] at approved
    exact approved
  have counted : (concludes votes quorum aggregator runId).tally.approve =
      (votes.filter (fun v => v.ballot = some .approve)).length := by
    rw [concludes, tally_approve, List.filter_map, List.length_map]
    exact ((inPathOrder_perm votes).filter _).length_eq
  refine ⟨(votes.filter (fun v => v.ballot = some .approve)).map (fun v => seatNode aggregator v.member),
    seated.seats.sublist (List.filter_sublist.map _), ?_, fun seat mem => ?_⟩
  · rw [List.length_map, ← counted]
    exact enough
  · obtain ⟨v, hv, rfl⟩ := List.mem_map.mp mem
    obtain ⟨voted, ballot⟩ := List.mem_filter.mp hv
    refine ⟨seated.others v voted, v, voted, ?_, ?_⟩
    · exact Dict.filter_same seated.seats voted
    · exact ⟨(seated.sibling v voted).beside, (seated.sibling v voted).iteration, seated.run v voted,
        by simpa using ballot⟩

/-- A panel concludes exactly what its members reported. -/
theorem panel_concludes (votes : List PanelMemberResult) (quorum : PanelQuorum)
    (aggregator : ExecutionPath) (runId : RunId) :
    (∀ votes', votes.Perm votes' → ∀ r, aggregatePanel votes quorum aggregator runId = .ok r ↔
      aggregatePanel votes' quorum aggregator runId = .ok r) ∧
    (∀ placed, Panel.place votes aggregator runId = .ok placed →
      ∃ r, aggregatePanel votes quorum aggregator runId = .ok r ∧ r.members = placed) ∧
    (∀ r, aggregatePanel votes quorum aggregator runId = .ok r →
      r.toPanelFields.concludedFromItsMembers = .ok () ∧ r.tally.members = votes.length ∧
        (r.outcome = .approved → ∃ seats : List String, seats.Nodup ∧
          quorum.requiredApprovals ≤ seats.length ∧ ∀ seat ∈ seats,
            seat ≠ aggregator.scope.getLastD "" ∧ ∃ v ∈ votes,
              votes.filter (fun w => seatNode aggregator w.member = seat) = [v] ∧
                Approves aggregator runId seat v)) ∧
    (∀ f : PanelFields, f.concludedFromItsMembers = .ok () →
      ∃ r, aggregatePanel (f.members.map PanelMemberSummary.result) f.quorum f.aggregator f.runId = .ok r ∧
        r.toPanelFields = f) := by
  refine ⟨fun votes' perm r => ⟨aggregatePanel_perm perm, aggregatePanel_perm perm.symm⟩, ?_, ?_, ?_⟩
  · intro placed h
    obtain ⟨seated, same⟩ := place_ok.mp h
    exact ⟨⟨_, seated.concluded quorum⟩, aggregatePanel_ok.mpr ⟨seated, rfl⟩, same.symm⟩
  · intro r h
    refine ⟨r.concluded, ?_, approved_seats h⟩
    obtain ⟨seated, same⟩ := aggregatePanel_ok.mp h
    rw [same, concludes, tally_members, List.length_map]
    exact (inPathOrder_perm votes).length_eq
  · intro f concluded
    obtain ⟨seated, same⟩ := concluded_iff.mp concluded
    exact ⟨⟨f, concluded⟩, aggregatePanel_ok.mpr ⟨seated, same⟩, rfl⟩

example : (aggregatePanel
      [{ runId := "r", member := { scope := ["panel", "bob", "ballot"] }, outcome := .declined,
         ballotIffResponded := by decide },
       { runId := "r", member := { scope := ["panel", "ann"] }, outcome := .responded,
         ballot := some .approve, ballotIffResponded := by decide }]
      { requiredApprovals := 1 } { scope := ["panel", "aggregate"] } "r").toOption.map
        (fun r => (r.outcome, r.members.map PanelMemberSummary.node)) =
    some (.approved, ["ann", "bob"]) := by
  decide +kernel

end Constructicon
