import Mathlib.Tactic

/-!
# The closure of an acquisition

Git holds two refs of an acquisition: the closure, a fixed empty-blob object that revokes
the acquisition for good, and the candidate it may have published. Publishers and closers
read the refs one at a time and then run one ref transaction whose `create`, `verify` and
`delete` lines state what they have read; a transaction that no longer applies is tried
again from the reads. Every call goes step by step here, and the steps of all calls
interleave.
-/

namespace Constructicon

/-- The two refs, `none` where a ref does not exist. -/
structure AcquisitionRefs (ω : Type) where
  closure : Option ω
  candidate : Option ω
deriving DecidableEq

inductive RefName where
  | closure
  | candidate
deriving DecidableEq

/-- A line of `update-ref --stdin`; `verify` against `none` is against the zero oid. -/
inductive RefLine (ω : Type) where
  | create (ref : RefName) (value : ω)
  | verify (ref : RefName) (value : Option ω)
  | delete (ref : RefName) (value : ω)

section Refs

variable {ω : Type} [DecidableEq ω]

namespace AcquisitionRefs

def read (refs : AcquisitionRefs ω) : RefName → Option ω
  | .closure => refs.closure
  | .candidate => refs.candidate

def write (refs : AcquisitionRefs ω) (ref : RefName) (value : Option ω) : AcquisitionRefs ω :=
  match ref with
  | .closure => { refs with closure := value }
  | .candidate => { refs with candidate := value }

end AcquisitionRefs

namespace RefLine

def expected : RefLine ω → RefName × Option ω
  | .create ref _ => (ref, none)
  | .verify ref value => (ref, value)
  | .delete ref value => (ref, some value)

def apply (refs : AcquisitionRefs ω) : RefLine ω → AcquisitionRefs ω
  | .create ref value => refs.write ref (some value)
  | .verify _ _ => refs
  | .delete ref _ => refs.write ref none

end RefLine

/-- `_ref_transaction`: all lines hold and are applied, or nothing happens. -/
def refTransaction (refs : AcquisitionRefs ω) (lines : List (RefLine ω)) : Option (AcquisitionRefs ω) :=
  if ∀ line ∈ lines, refs.read line.expected.1 = line.expected.2 then some (lines.foldl RefLine.apply refs)
  else none

/-! ## Calls -/

/-- `Disposition` of a workspace -/
inductive WorkspaceDisposition where
  | release
  | discard
deriving DecidableEq

inductive RefFault where
  /-- `acquisition is permanently closed` -/
  | closed
  /-- `candidate ref already pins a different commit` -/
  | pinned
  /-- `transaction did not converge` -/
  | notConverged
  /-- `GitAuthorityDamaged`, or Git could not be run. -/
  | damaged
deriving DecidableEq

inductive RefCall (ω : Type) where
  | publish (candidate : ω)
  /-- `commit`, with or without a candidate ref. -/
  | commit (named : Bool) (disposition : WorkspaceDisposition)
deriving DecidableEq

/-- Where a call stands: `left` counts the attempts after the present one. -/
inductive RefPhase (ω : Type) where
  /-- Before `hash-object`. -/
  | hashing
  /-- Before the closure is read. -/
  | closure (left : ℕ)
  /-- Before the candidate is read. -/
  | candidate (left : ℕ) (closed : Bool)
  /-- Before the transaction that rests on these readings. -/
  | transaction (left : ℕ) (closed : Bool) (observed : Option ω)
  /-- Before the last reading of a closure that was committed. -/
  | confirming
  | ended (result : Except RefFault Unit)

/-- `for _ in range(8)`, with `attempts` to go. -/
def again : ℕ → RefPhase ω
  | 0 => .ended (.error .notConverged)
  | left + 1 => .closure left

variable (sentinel : ω)

/-- `is_closed` -/
def isClosed (refs : AcquisitionRefs ω) : Except RefFault Bool :=
  match refs.closure with
  | none => .ok false
  | some value => if value = sentinel then .ok true else .error .damaged

namespace RefCall

def first : RefCall ω → RefPhase ω
  | .publish _ => again 8
  | .commit _ _ => .hashing

/-- `require_open` of a publisher, `exists` of a closer. -/
def sawClosure (left : ℕ) (closed : Bool) : RefCall ω → RefPhase ω
  | .publish _ => if closed then .ended (.error .closed) else .candidate left closed
  | .commit named _ => if named then .candidate left closed else .transaction left closed none

def sawCandidate (left : ℕ) (closed : Bool) (observed : Option ω) : RefCall ω → RefPhase ω
  | .publish candidate =>
    if observed ≠ none ∧ observed ≠ some candidate then .ended (.error .pinned)
    else .transaction left closed observed
  | .commit _ _ => .transaction left closed observed

def candidateLine (disposition : WorkspaceDisposition) : Option ω → RefLine ω
  | none => .verify .candidate none
  | some value => if disposition = .discard then .delete .candidate value else .verify .candidate (some value)

def lines (closed : Bool) (observed : Option ω) : RefCall ω → List (RefLine ω)
  | .publish candidate =>
    [.verify .closure none,
      if observed = none then .create .candidate candidate else .verify .candidate (some candidate)]
  | .commit named disposition =>
    (if closed then .verify .closure (some sentinel) else .create .closure sentinel) ::
      if named then [candidateLine disposition observed] else []

def committed : RefCall ω → RefPhase ω
  | .publish _ => .ended (.ok ())
  | .commit _ _ => .confirming

end RefCall

/-- The last reading of `commit`. -/
def confirmed : Except RefFault Bool → Except RefFault Unit
  | .ok true => .ok ()
  | .ok false => .error .damaged
  | .error e => .error e

def readClosure (call : RefCall ω) (left : ℕ) : Except RefFault Bool → RefPhase ω
  | .ok closed => call.sawClosure left closed
  | .error e => .ended (.error e)

def transacted (call : RefCall ω) (left : ℕ) (refs : AcquisitionRefs ω) :
    Option (AcquisitionRefs ω) → AcquisitionRefs ω × RefPhase ω
  | some after => (after, call.committed)
  | none => (refs, again left)

def RefCall.next (call : RefCall ω) (refs : AcquisitionRefs ω) :
    RefPhase ω → AcquisitionRefs ω × RefPhase ω
  | .hashing => (refs, again 8)
  | .closure left => (refs, readClosure call left (isClosed sentinel refs))
  | .candidate left closed => (refs, call.sawCandidate left closed refs.candidate)
  | .transaction left closed observed =>
    transacted call left refs (refTransaction refs (call.lines sentinel closed observed))
  | .confirming => (refs, .ended (confirmed (isClosed sentinel refs)))
  | .ended result => (refs, .ended result)

inductive GitAnswer where
  | done
  /-- It did not run, and its caller fails. -/
  | fails
  /-- It ran, and its caller fails. -/
  | lost
deriving DecidableEq

/-! ## Interleavings -/

structure RefSite (ω : Type) where
  refs : AcquisitionRefs ω
  calls : List (RefCall ω × RefPhase ω)

inductive RefAction (ω : Type) where
  | start (call : RefCall ω)
  /-- Call `p` runs its next command; a call that crashes runs none any more. -/
  | step (p : ℕ) (answer : GitAnswer)
deriving DecidableEq

def RefPhase.isOver : RefPhase ω → Bool
  | .ended _ => true
  | _ => false

def refAnswered (call : RefCall ω) (phase : RefPhase ω) (refs : AcquisitionRefs ω) :
    GitAnswer → AcquisitionRefs ω × RefPhase ω
  | .done => call.next sentinel refs phase
  | .fails => (refs, .ended (.error .damaged))
  | .lost => ((call.next sentinel refs phase).1, .ended (.error .damaged))

def RefSite.step (site : RefSite ω) : RefAction ω → RefSite ω
  | .start call => { site with calls := site.calls ++ [(call, call.first)] }
  | .step p answer =>
    match site.calls[p]? with
    | none => site
    | some c =>
      if c.2.isOver then site
      else
        { refs := (refAnswered sentinel c.1 c.2 site.refs answer).1
          calls := site.calls.set p (c.1, (refAnswered sentinel c.1 c.2 site.refs answer).2) }

def RefSite.run (acts : List (RefAction ω)) : RefSite ω :=
  acts.foldl (RefSite.step sentinel) ⟨⟨none, none⟩, []⟩

theorem refRun_snoc (acts : List (RefAction ω)) (a : RefAction ω) :
    RefSite.run sentinel (acts ++ [a]) = (RefSite.run sentinel acts).step sentinel a :=
  List.foldl_concat ..

/-! ## What one transaction does -/

theorem refTransaction_some {refs after : AcquisitionRefs ω} {lines : List (RefLine ω)} :
    refTransaction refs lines = some after ↔
      (∀ line ∈ lines, refs.read line.expected.1 = line.expected.2) ∧ lines.foldl RefLine.apply refs = after := by
  rw [refTransaction]
  split
  · rename_i holds
    rw [Option.some.injEq]
    exact ⟨fun same => ⟨holds, same⟩, fun both => both.2⟩
  · rename_i fails
    constructor
    · intro impossible
      cases impossible
    · rintro ⟨holds, -⟩
      exact absurd holds fails

theorem publish_transaction {refs after : AcquisitionRefs ω} {candidate : ω} {closed : Bool}
    {observed : Option ω}
    (h : refTransaction refs ((RefCall.publish candidate).lines sentinel closed observed) = some after) :
    refs.closure = none ∧ after.closure = none ∧
      (refs.candidate = none ∨ refs.candidate = some candidate) ∧ after.candidate = some candidate := by
  rw [refTransaction_some] at h
  obtain ⟨holds, rfl⟩ := h
  have open' : refs.closure = none := holds _ List.mem_cons_self
  have second := holds _ (List.mem_cons_of_mem _ List.mem_cons_self)
  by_cases absent : observed = none
  · simp only [if_pos absent] at second
    have free : refs.candidate = none := second
    refine ⟨open', ?_, .inl free, ?_⟩
    · simp only [RefCall.lines, if_pos absent]
      exact open'
    · simp only [RefCall.lines, if_pos absent]
      rfl
  · simp only [if_neg absent] at second
    have same : refs.candidate = some candidate := second
    refine ⟨open', ?_, .inr same, ?_⟩
    · simp only [RefCall.lines, if_neg absent]
      exact open'
    · simp only [RefCall.lines, if_neg absent]
      exact same

omit [DecidableEq ω] in
theorem closure_line {refs : AcquisitionRefs ω} {closed : Bool} {line : RefLine ω}
    (shape : line = if closed then .verify .closure (some sentinel) else .create .closure sentinel)
    (holds : refs.read line.expected.1 = line.expected.2) :
    refs.closure = (if closed then some sentinel else none) ∧ (line.apply refs).closure = some sentinel ∧
      (line.apply refs).candidate = refs.candidate := by
  cases closed with
  | true =>
    subst shape
    exact ⟨holds, holds, rfl⟩
  | false =>
    subst shape
    exact ⟨holds, rfl, rfl⟩

omit [DecidableEq ω] in
theorem candidate_line {refs : AcquisitionRefs ω} {disposition : WorkspaceDisposition} {observed : Option ω}
    (holds : refs.read (RefCall.candidateLine disposition observed).expected.1 =
      (RefCall.candidateLine disposition observed).expected.2) :
    refs.candidate = observed ∧
      ((RefCall.candidateLine disposition observed).apply refs).closure = refs.closure ∧
      ((RefCall.candidateLine disposition observed).apply refs).candidate =
        if disposition = .discard then none else observed := by
  cases observed with
  | none =>
    have absent : refs.candidate = none := holds
    refine ⟨absent, rfl, ?_⟩
    change refs.candidate = _
    rw [absent]
    split <;> rfl
  | some value =>
    by_cases discards : disposition = .discard
    · simp only [RefCall.candidateLine, if_pos discards] at holds ⊢
      exact ⟨holds, rfl, rfl⟩
    · simp only [RefCall.candidateLine, if_neg discards] at holds ⊢
      exact ⟨holds, rfl, holds⟩

theorem commit_transaction {refs after : AcquisitionRefs ω} {named closed : Bool} {disposition : WorkspaceDisposition}
    {observed : Option ω}
    (h : refTransaction refs ((RefCall.commit named disposition).lines sentinel closed observed) = some after) :
    refs.closure = (if closed then some sentinel else none) ∧ after.closure = some sentinel ∧
      after.candidate = if named = true ∧ disposition = .discard then none else refs.candidate := by
  rw [refTransaction_some] at h
  obtain ⟨holds, rfl⟩ := h
  obtain ⟨was, is, same⟩ := closure_line sentinel rfl (holds _ List.mem_cons_self)
  cases named with
  | false =>
    refine ⟨was, is, ?_⟩
    simp only [Bool.false_eq_true, false_and, if_false]
    exact same
  | true =>
    have second := holds (RefCall.candidateLine disposition observed)
      (List.mem_cons_of_mem _ List.mem_cons_self)
    obtain ⟨read, -, -⟩ := candidate_line second
    have again' : ((if closed then RefLine.verify .closure (some sentinel)
        else RefLine.create .closure sentinel).apply refs).read
          (RefCall.candidateLine disposition observed).expected.1 =
        (RefCall.candidateLine disposition observed).expected.2 := by
      have about : (RefCall.candidateLine disposition observed).expected = (RefName.candidate, observed) := by
        cases observed with
        | none => rfl
        | some value =>
          rw [RefCall.candidateLine]
          split <;> rfl
      rw [about]
      exact same.trans read
    obtain ⟨-, kept, left⟩ := candidate_line again'
    refine ⟨was, kept.trans is, left.trans ?_⟩
    rw [read]
    simp

/-! ## What stays -/

structure Later (refs after : AcquisitionRefs ω) : Prop where
  closure : ∀ value, refs.closure = some value → after.closure = some value
  pinned : ∀ value, refs.candidate = some value →
    after.candidate = some value ∨ after.candidate = none ∧ after.closure ≠ none
  gone : refs.closure ≠ none → refs.candidate = none → after.candidate = none

omit [DecidableEq ω] in
theorem Later.refl (refs : AcquisitionRefs ω) : Later refs refs :=
  ⟨fun _ h => h, fun _ h => .inl h, fun _ h => h⟩

omit [DecidableEq ω] in
theorem Later.closed {refs after : AcquisitionRefs ω} (later : Later refs after) (closed : refs.closure ≠ none) :
    after.closure ≠ none := by
  obtain ⟨value, found⟩ := Option.ne_none_iff_exists'.mp closed
  rw [later.closure value found]
  simp

omit [DecidableEq ω] in
theorem Later.trans {refs after last : AcquisitionRefs ω} (h : Later refs after) (h' : Later after last) :
    Later refs last where
  closure value found := h'.closure value (h.closure value found)
  pinned value found := by
    rcases h.pinned value found with same | ⟨absent, closed⟩
    · exact h'.pinned value same
    · exact .inr ⟨h'.gone closed absent, h'.closed closed⟩
  gone closed absent := h'.gone (h.closed closed) (h.gone closed absent)

def Literal (refs : AcquisitionRefs ω) : Prop := refs.closure = none ∨ refs.closure = some sentinel

theorem transaction_later {call : RefCall ω} {refs after : AcquisitionRefs ω} {closed : Bool}
    {observed : Option ω} (h : refTransaction refs (call.lines sentinel closed observed) = some after) :
    Later refs after ∧ (Literal sentinel refs → Literal sentinel after) := by
  cases call with
  | publish candidate =>
    obtain ⟨open', still, before, now⟩ := publish_transaction sentinel h
    refine ⟨⟨?_, ?_, ?_⟩, fun _ => .inl still⟩
    · intro value found
      rw [open'] at found
      cases found
    · intro value found
      rcases before with absent | same
      · rw [absent] at found
        cases found
      · rw [same] at found
        exact .inl (now.trans found)
    · intro closed
      exact absurd open' closed
  | commit named disposition =>
    obtain ⟨was, is, left⟩ := commit_transaction sentinel h
    refine ⟨⟨?_, ?_, ?_⟩, fun _ => .inr is⟩
    · intro value found
      rw [found] at was
      split at was
      · rw [is, was]
      · cases was
    · intro value found
      rw [found] at left
      split at left
      · exact .inr ⟨left, by simp [is]⟩
      · exact .inl left
    · intro _ absent
      rw [absent, ite_self] at left
      exact left

theorem next_later (call : RefCall ω) (phase : RefPhase ω) (refs : AcquisitionRefs ω) :
    Later refs (call.next sentinel refs phase).1 ∧
      (Literal sentinel refs → Literal sentinel (call.next sentinel refs phase).1) := by
  cases phase with
  | transaction left closed observed =>
    rw [RefCall.next]
    cases applied : refTransaction refs (call.lines sentinel closed observed) with
    | none => exact ⟨Later.refl refs, id⟩
    | some after => exact transaction_later sentinel applied
  | hashing => exact ⟨Later.refl refs, id⟩
  | closure left => exact ⟨Later.refl refs, id⟩
  | candidate left closed => exact ⟨Later.refl refs, id⟩
  | confirming => exact ⟨Later.refl refs, id⟩
  | ended result => exact ⟨Later.refl refs, id⟩

theorem answered_later (call : RefCall ω) (phase : RefPhase ω) (refs : AcquisitionRefs ω)
    (answer : GitAnswer) : Later refs (refAnswered sentinel call phase refs answer).1 ∧
      (Literal sentinel refs → Literal sentinel (refAnswered sentinel call phase refs answer).1) := by
  cases answer with
  | done => exact next_later sentinel call phase refs
  | fails => exact ⟨Later.refl refs, id⟩
  | lost => exact next_later sentinel call phase refs

structure Moves (site : RefSite ω) (a : RefAction ω) (p : ℕ) (answer : GitAnswer) (call : RefCall ω)
    (phase : RefPhase ω) : Prop where
  action : a = .step p answer
  found : site.calls[p]? = some (call, phase)
  running : phase.isOver = false

theorem refStep_cases (site : RefSite ω) (a : RefAction ω) :
    (∃ call, a = .start call ∧ site.step sentinel a = { site with calls := site.calls ++ [(call, call.first)] }) ∨
    site.step sentinel a = site ∨
    ∃ p answer call phase, Moves site a p answer call phase ∧
      site.step sentinel a =
        { refs := (refAnswered sentinel call phase site.refs answer).1
          calls := site.calls.set p (call, (refAnswered sentinel call phase site.refs answer).2) } := by
  cases a with
  | start call => exact .inl ⟨call, rfl, rfl⟩
  | step p answer =>
    rw [RefSite.step]
    cases found : site.calls[p]? with
    | none => exact .inr (.inl rfl)
    | some c =>
      by_cases ended : c.2.isOver = true
      · simp only [if_pos ended]
        exact .inr (.inl trivial)
      · simp only [if_neg ended]
        exact .inr (.inr ⟨p, answer, c.1, c.2, ⟨rfl, found, by simpa using ended⟩, rfl⟩)

theorem step_later (site : RefSite ω) (a : RefAction ω) :
    Later site.refs (site.step sentinel a).refs ∧
      (Literal sentinel site.refs → Literal sentinel (site.step sentinel a).refs) := by
  rcases refStep_cases sentinel site a with ⟨call, -, same⟩ | same | ⟨p, answer, call, phase, -, same⟩
  · rw [same]
    exact ⟨Later.refl _, id⟩
  · rw [same]
    exact ⟨Later.refl _, id⟩
  · rw [same]
    exact answered_later sentinel call phase site.refs answer

theorem run_later (acts more : List (RefAction ω)) :
    Later (RefSite.run sentinel acts).refs (RefSite.run sentinel (acts ++ more)).refs := by
  induction more using List.reverseRecOn with
  | nil =>
    rw [List.append_nil]
    exact Later.refl _
  | append_singleton more a ih =>
    rw [← List.append_assoc, refRun_snoc]
    exact ih.trans (step_later sentinel _ a).1

theorem run_literal (acts : List (RefAction ω)) : Literal sentinel (RefSite.run sentinel acts).refs := by
  induction acts using List.reverseRecOn with
  | nil => exact .inl rfl
  | append_singleton acts a ih =>
    rw [refRun_snoc]
    exact (step_later sentinel _ a).2 ih

theorem calls_cases {site : RefSite ω} {a : RefAction ω} {q : ℕ} {call : RefCall ω} {phase : RefPhase ω}
    (found : (site.step sentinel a).calls[q]? = some (call, phase)) :
    (site.calls[q]? = some (call, phase) ∧ ∀ answer, a = .step q answer → (site.step sentinel a).refs = site.refs) ∨
    (a = .start call ∧ phase = call.first) ∨
    ∃ answer before, Moves site a q answer call before ∧
      phase = (refAnswered sentinel call before site.refs answer).2 ∧
      (site.step sentinel a).refs = (refAnswered sentinel call before site.refs answer).1 := by
  rcases refStep_cases sentinel site a with ⟨new, rfl, same⟩ | same | ⟨p, answer, moved, before, moves, same⟩
  · rw [same] at found
    dsimp only at found
    rw [List.getElem?_append] at found
    split at found
    · exact .inl ⟨found, fun answer impossible => by cases impossible⟩
    · rw [List.getElem?_singleton] at found
      split at found
      · cases found
        exact .inr (.inl ⟨rfl, rfl⟩)
      · cases found
  · rw [same] at found
    exact .inl ⟨found, fun _ _ => by rw [same]⟩
  · rw [same] at found
    by_cases mine : p = q
    · subst mine
      have inside : p < site.calls.length := (List.getElem?_eq_some_iff.mp moves.found).1
      rw [List.getElem?_set_self inside] at found
      cases found
      exact .inr (.inr ⟨answer, before, moves, rfl, by rw [same]⟩)
    · rw [List.getElem?_set_ne mine] at found
      refine .inl ⟨found, ?_⟩
      intro answer' mine'
      rw [moves.action] at mine'
      cases mine'
      exact absurd rfl mine

theorem started {acts : List (RefAction ω)} {p : ℕ} {call : RefCall ω} {phase : RefPhase ω}
    (found : (RefSite.run sentinel acts).calls[p]? = some (call, phase)) : .start call ∈ acts := by
  induction acts using List.reverseRecOn generalizing phase with
  | nil => simp [RefSite.run] at found
  | append_singleton acts a ih =>
    rw [refRun_snoc] at found
    rcases calls_cases sentinel found with ⟨before, -⟩ | ⟨rfl, -⟩ | ⟨answer, before, moves, -, -⟩
    · exact List.mem_append_left _ (ih before)
    · simp
    · exact List.mem_append_left _ (ih moves.found)

/-! ## What a closer leaves -/

def Fenced (refs : AcquisitionRefs ω) : RefCall ω → Prop
  | .publish _ => True
  | .commit named disposition =>
    refs.closure = some sentinel ∧ (named = true ∧ disposition = .discard → refs.candidate = none)

omit [DecidableEq ω] in
theorem Fenced.later {call : RefCall ω} {refs after : AcquisitionRefs ω} (fenced : Fenced sentinel refs call)
    (later : Later refs after) : Fenced sentinel after call := by
  cases call with
  | publish candidate => trivial
  | commit named disposition =>
    refine ⟨later.closure sentinel fenced.1, ?_⟩
    intro discards
    exact later.gone (by simp [fenced.1]) (fenced.2 discards)

def RefPhase.isCommitted : RefPhase ω → Bool
  | .confirming => true
  | .ended (.ok _) => true
  | _ => false

omit [DecidableEq ω] in
theorem again_not_committed (left : ℕ) : (again left : RefPhase ω).isCommitted = false := by
  cases left <;> rfl

omit [DecidableEq ω] in
theorem first_not_committed (call : RefCall ω) : call.first.isCommitted = false := by
  cases call <;> rfl

theorem next_committed {call : RefCall ω} {phase : RefPhase ω} {refs : AcquisitionRefs ω}
    (before : phase.isCommitted = true → Fenced sentinel refs call)
    (committed : (call.next sentinel refs phase).2.isCommitted = true) :
    Fenced sentinel (call.next sentinel refs phase).1 call := by
  cases phase with
  | hashing => cases committed
  | confirming => exact before rfl
  | ended result => exact before committed
  | closure left =>
    rw [RefCall.next] at committed
    cases seen : isClosed sentinel refs with
    | error e =>
      rw [seen] at committed
      cases committed
    | ok closed =>
      rw [seen] at committed
      cases call with
      | publish candidate => cases closed <;> cases committed
      | commit named disposition => cases named <;> cases committed
  | candidate left closed =>
    rw [RefCall.next] at committed
    cases call with
    | commit named disposition => cases committed
    | publish candidate =>
      rw [RefCall.sawCandidate] at committed
      split at committed <;> cases committed
  | transaction left closed observed =>
    rw [RefCall.next] at committed ⊢
    cases applied : refTransaction refs (call.lines sentinel closed observed) with
    | none =>
      rw [applied, transacted, again_not_committed] at committed
      cases committed
    | some after =>
      cases call with
      | publish candidate => trivial
      | commit named disposition =>
        obtain ⟨-, is, left'⟩ := commit_transaction sentinel applied
        refine ⟨is, ?_⟩
        intro discards
        rw [if_pos discards] at left'
        exact left'

theorem committed_fenced {acts : List (RefAction ω)} {p : ℕ} {call : RefCall ω} {phase : RefPhase ω}
    (found : (RefSite.run sentinel acts).calls[p]? = some (call, phase)) (committed : phase.isCommitted = true) :
    Fenced sentinel (RefSite.run sentinel acts).refs call := by
  induction acts using List.reverseRecOn generalizing phase with
  | nil => simp [RefSite.run] at found
  | append_singleton acts a ih =>
    have later := (step_later sentinel (RefSite.run sentinel acts) a).1
    rw [refRun_snoc] at found ⊢
    rcases calls_cases sentinel found with ⟨before, -⟩ | ⟨-, rfl⟩ | ⟨answer, before, moves, rfl, same⟩
    · exact (ih before committed).later sentinel later
    · rw [first_not_committed] at committed
      cases committed
    · cases answer with
      | done =>
        rw [same]
        exact next_committed sentinel (fun was => ih moves.found was) committed
      | fails => cases committed
      | lost => cases committed

/-! ## What a release leaves -/

theorem step_candidate {site : RefSite ω} {a : RefAction ω}
    (kept : ∀ (p : ℕ) (call : RefCall ω) (phase : RefPhase ω), site.calls[p]? = some (call, phase) →
      call ≠ .commit true .discard)
    (closed : (site.step sentinel a).refs.closure ≠ none) :
    (site.step sentinel a).refs.candidate = site.refs.candidate := by
  have next_kept : ∀ (call : RefCall ω) phase, call ≠ .commit true .discard →
      (call.next sentinel site.refs phase).1.closure ≠ none →
        (call.next sentinel site.refs phase).1.candidate = site.refs.candidate := by
    intro call phase keeps fence
    cases phase with
    | transaction left closed' observed =>
      rw [RefCall.next] at fence ⊢
      cases applied : refTransaction site.refs (call.lines sentinel closed' observed) with
      | none => rfl
      | some after =>
        rw [applied] at fence
        cases call with
        | publish candidate => exact absurd (publish_transaction sentinel applied).2.1 fence
        | commit named disposition =>
          obtain ⟨-, -, left'⟩ := commit_transaction sentinel applied
          rw [if_neg] at left'
          · exact left'
          · rintro ⟨rfl, rfl⟩
            exact keeps rfl
    | hashing => rfl
    | closure left => rfl
    | candidate left closed' => rfl
    | confirming => rfl
    | ended result => rfl
  rcases refStep_cases sentinel site a with ⟨call, -, same⟩ | same | ⟨p, answer, call, phase, moves, same⟩
  · rw [same]
  · rw [same]
  · rw [same] at closed ⊢
    have keeps := kept p call phase moves.found
    cases answer with
    | done => exact next_kept call phase keeps closed
    | fails => rfl
    | lost => exact next_kept call phase keeps closed

theorem run_candidate {acts more : List (RefAction ω)} (kept : .start (.commit true .discard) ∉ acts ++ more)
    (closed : (RefSite.run sentinel acts).refs.closure ≠ none) :
    (RefSite.run sentinel (acts ++ more)).refs.candidate = (RefSite.run sentinel acts).refs.candidate := by
  induction more using List.reverseRecOn with
  | nil => rw [List.append_nil]
  | append_singleton more a ih =>
    rw [← List.append_assoc] at kept ⊢
    have kept' : .start (.commit true .discard) ∉ acts ++ more := fun mem => kept (List.mem_append_left _ mem)
    have fence := (run_later sentinel acts (more ++ [a])).closed closed
    rw [← List.append_assoc, refRun_snoc] at fence
    rw [refRun_snoc, step_candidate sentinel ?_ fence]
    · exact ih kept'
    · rintro p call phase found rfl
      exact kept' (started sentinel found)

theorem closing_transaction (acts : List (RefAction ω)) (closed : (RefSite.run sentinel acts).refs.closure ≠ none) :
    ∃ xs a ys, acts = xs ++ a :: ys ∧ (RefSite.run sentinel xs).refs.closure = none ∧
      (RefSite.run sentinel (xs ++ [a])).refs.closure = some sentinel := by
  induction acts using List.reverseRecOn with
  | nil => exact absurd rfl closed
  | append_singleton acts a ih =>
    by_cases before : (RefSite.run sentinel acts).refs.closure = none
    · refine ⟨acts, a, [], rfl, before, ?_⟩
      exact (run_literal sentinel (acts ++ [a])).resolve_left closed
    · obtain ⟨xs, b, ys, rfl, was, is⟩ := ih before
      exact ⟨xs, b, ys ++ [a], by simp, was, is⟩

/-! ## Lost transactions -/

/-- Since the actions `xs`, another call than `p` has changed the refs. -/
def Interfered (p : ℕ) (xs acts : List (RefAction ω)) : Prop :=
  ∃ us b vs, acts = xs ++ us ++ b :: vs ∧ (∀ answer, b ≠ .step p answer) ∧
    (RefSite.run sentinel (xs ++ us)).refs ≠ (RefSite.run sentinel (xs ++ us ++ [b])).refs

/-- With the action `a`, the call `p` runs a transaction that does not apply. -/
def Loses (p : ℕ) (acts : List (RefAction ω)) (a : RefAction ω) : Prop :=
  a = .step p .done ∧ ∃ call left closed observed,
    (RefSite.run sentinel acts).calls[p]? = some (call, .transaction left closed observed) ∧
      refTransaction (RefSite.run sentinel acts).refs (call.lines sentinel closed observed) = none

/-- The call `p` has lost `n` transactions one after the other, each to a change that another
call made since the transaction before it. -/
inductive Lost (p : ℕ) : ℕ → List (RefAction ω) → Prop
  | nothing (acts : List (RefAction ω)) : Lost p 0 acts
  | lose {n : ℕ} {xs acts : List (RefAction ω)} {a : RefAction ω} (before : Lost p n xs)
      (interfered : Interfered sentinel p xs acts) (loses : Loses sentinel p acts a) : Lost p (n + 1) (acts ++ [a])
  | idle {n : ℕ} {acts : List (RefAction ω)} {a : RefAction ω} (before : Lost p n acts) : Lost p n (acts ++ [a])

def Admits (closed : Bool) (observed : Option ω) : RefCall ω → Prop
  | .publish candidate => closed = false ∧ (observed = none ∨ observed = some candidate)
  | .commit named _ => named = false → observed = none

/-- The calls that read the candidate, and what they have seen of the closure then. -/
def Looks (closed : Bool) : RefCall ω → Prop
  | .publish _ => closed = false
  | .commit named _ => named = true

def AsRead (refs : AcquisitionRefs ω) (closed : Bool) (observed : Option ω) : RefCall ω → Prop
  | .publish _ => refs.closure = (if closed then some sentinel else none) ∧ refs.candidate = observed
  | .commit named _ => refs.closure = (if closed then some sentinel else none) ∧
      (named = true → refs.candidate = observed)

theorem transaction_applies {call : RefCall ω} {refs : AcquisitionRefs ω} {closed : Bool} {observed : Option ω}
    (admits : Admits closed observed call) (asRead : AsRead sentinel refs closed observed call) :
    refTransaction refs (call.lines sentinel closed observed) ≠ none := by
  have applies : ∀ line ∈ call.lines sentinel closed observed, refs.read line.expected.1 = line.expected.2 := by
    cases call with
    | publish candidate =>
      obtain ⟨rfl, shape⟩ := admits
      obtain ⟨open', same⟩ := asRead
      intro line mem
      simp only [RefCall.lines, List.mem_cons, List.not_mem_nil, or_false] at mem
      rcases mem with rfl | rfl
      · exact open'
      · rcases shape with rfl | rfl
        · exact same
        · exact same
    | commit named disposition =>
      obtain ⟨fence, same⟩ := asRead
      intro line mem
      rw [RefCall.lines, List.mem_cons] at mem
      rcases mem with rfl | mem
      · cases closed with
        | true => exact fence
        | false => exact fence
      · cases named with
        | false => cases mem
        | true =>
          have single : line = RefCall.candidateLine disposition observed := List.mem_singleton.mp mem
          subst single
          have read := same rfl
          cases observed with
          | none => exact read
          | some value =>
            rw [RefCall.candidateLine]
            split <;> exact read
  rw [refTransaction, if_pos applies]
  simp

/-- What the readings of a call say about the refs now, or who has changed them since. -/
def Tracked (p : ℕ) (acts : List (RefAction ω)) (call : RefCall ω) : RefPhase ω → Prop
  | .closure left => left ≤ 7 ∧ Lost sentinel p (7 - left) acts
  | .candidate left closed => left ≤ 7 ∧ Looks closed call ∧ ∃ xs ys, acts = xs ++ ys ∧
      Lost sentinel p (7 - left) xs ∧
        ((RefSite.run sentinel acts).refs.closure = (if closed then some sentinel else none) ∨
          Interfered sentinel p xs acts)
  | .transaction left closed observed => left ≤ 7 ∧ Admits closed observed call ∧ ∃ xs ys, acts = xs ++ ys ∧
      Lost sentinel p (7 - left) xs ∧
        (AsRead sentinel (RefSite.run sentinel acts).refs closed observed call ∨ Interfered sentinel p xs acts)
  | .ended (.error .notConverged) => Lost sentinel p 8 acts
  | .ended _ => True
  | .hashing => True
  | .confirming => True

theorem Interfered.later {p : ℕ} {xs acts : List (RefAction ω)} (interfered : Interfered sentinel p xs acts)
    (a : RefAction ω) : Interfered sentinel p xs (acts ++ [a]) := by
  obtain ⟨us, b, vs, rfl, other, changed⟩ := interfered
  exact ⟨us, b, vs ++ [a], by simp, other, changed⟩

theorem interferes (p : ℕ) (xs ys : List (RefAction ω)) {a : RefAction ω}
    (other : ∀ answer, a ≠ .step p answer) :
    (RefSite.run sentinel (xs ++ ys ++ [a])).refs = (RefSite.run sentinel (xs ++ ys)).refs ∨
      Interfered sentinel p xs (xs ++ ys ++ [a]) := by
  by_cases same : (RefSite.run sentinel (xs ++ ys ++ [a])).refs = (RefSite.run sentinel (xs ++ ys)).refs
  · exact .inl same
  · exact .inr ⟨ys, a, [], rfl, other, fun equal => same equal.symm⟩

theorem Tracked.other {p : ℕ} {acts : List (RefAction ω)} {call : RefCall ω} {phase : RefPhase ω}
    (tracked : Tracked sentinel p acts call phase) {a : RefAction ω}
    (quiet : ∀ answer, a = .step p answer →
      (RefSite.run sentinel (acts ++ [a])).refs = (RefSite.run sentinel acts).refs) :
    Tracked sentinel p (acts ++ [a]) call phase := by
  have shift : ∀ {xs ys : List (RefAction ω)} {P : AcquisitionRefs ω → Prop}, acts = xs ++ ys →
      (P (RefSite.run sentinel acts).refs ∨ Interfered sentinel p xs acts) →
        P (RefSite.run sentinel (acts ++ [a])).refs ∨ Interfered sentinel p xs (acts ++ [a]) := by
    intro xs ys P split either
    rcases either with holds | interfered
    · by_cases mine : ∃ answer, a = .step p answer
      · obtain ⟨answer, own⟩ := mine
        rw [quiet answer own]
        exact .inl holds
      · rw [split] at holds ⊢
        rcases interferes sentinel p xs ys
          (fun answer own => mine ⟨answer, own⟩) with same | interfered
        · rw [same]
          exact .inl holds
        · exact .inr interfered
    · exact .inr (interfered.later sentinel a)
  cases phase with
  | hashing => trivial
  | confirming => trivial
  | closure left => exact ⟨tracked.1, tracked.2.idle⟩
  | candidate left closed =>
    obtain ⟨bound, admits, xs, ys, split, lost, either⟩ := tracked
    exact ⟨bound, admits, xs, ys ++ [a], by rw [split, List.append_assoc], lost,
      shift (P := fun refs => refs.closure = if closed then some sentinel else none) split either⟩
  | transaction left closed observed =>
    obtain ⟨bound, admits, xs, ys, split, lost, either⟩ := tracked
    exact ⟨bound, admits, xs, ys ++ [a], by rw [split, List.append_assoc], lost,
      shift (P := fun refs => AsRead sentinel refs closed observed call) split either⟩
  | ended result =>
    cases result with
    | ok u => trivial
    | error e =>
      cases e with
      | notConverged => exact Lost.idle tracked
      | closed => trivial
      | pinned => trivial
      | damaged => trivial

theorem tracked_again {p left : ℕ} {acts : List (RefAction ω)} (call : RefCall ω) (bound : left ≤ 8)
    (lost : Lost sentinel p (8 - left) acts) : Tracked sentinel p acts call (again left) := by
  cases left with
  | zero => exact lost
  | succ left =>
    refine ⟨by omega, ?_⟩
    have same : 8 - (left + 1) = 7 - left := by omega
    rw [← same]
    exact lost

theorem isClosed_ok {refs : AcquisitionRefs ω} {closed : Bool} (h : isClosed sentinel refs = .ok closed) :
    refs.closure = if closed then some sentinel else none := by
  rw [isClosed] at h
  cases found : refs.closure with
  | none =>
    rw [found] at h
    cases h
    rfl
  | some value =>
    rw [found] at h
    dsimp only at h
    split at h
    · rename_i same
      cases h
      rw [same]
      rfl
    · cases h

theorem isClosed_error {refs : AcquisitionRefs ω} {e : RefFault} (h : isClosed sentinel refs = .error e) :
    e = .damaged := by
  rw [isClosed] at h
  cases found : refs.closure with
  | none =>
    rw [found] at h
    cases h
  | some value =>
    rw [found] at h
    dsimp only at h
    split at h
    · cases h
    · cases h
      rfl

theorem Tracked.next {p : ℕ} {acts : List (RefAction ω)} {call : RefCall ω} {phase : RefPhase ω}
    (tracked : Tracked sentinel p acts call phase)
    (found : (RefSite.run sentinel acts).calls[p]? = some (call, phase))
    (same : (RefSite.run sentinel (acts ++ [.step p .done])).refs =
      (call.next sentinel (RefSite.run sentinel acts).refs phase).1) :
    Tracked sentinel p (acts ++ [.step p .done]) call
      (call.next sentinel (RefSite.run sentinel acts).refs phase).2 := by
  cases phase with
  | hashing => exact tracked_again sentinel call le_rfl (.nothing _)
  | ended result => exact Tracked.other sentinel tracked (fun _ _ => same)
  | confirming =>
    rw [RefCall.next]
    cases seen : isClosed sentinel (RefSite.run sentinel acts).refs with
    | ok closed => cases closed <;> trivial
    | error e =>
      rw [isClosed_error sentinel seen]
      trivial
  | closure left =>
    obtain ⟨bound, lost⟩ := tracked
    rw [RefCall.next] at same ⊢
    cases seen : isClosed sentinel (RefSite.run sentinel acts).refs with
    | error e =>
      rw [isClosed_error sentinel seen]
      trivial
    | ok closed =>
      have fence := isClosed_ok sentinel seen
      dsimp only at same
      rw [← same] at fence
      cases call with
      | publish candidate =>
        cases closed with
        | true => trivial
        | false => exact ⟨bound, rfl, acts, _, rfl, lost, .inl fence⟩
      | commit named disposition =>
        cases named with
        | false =>
          refine ⟨bound, fun _ => rfl, acts, _, rfl, lost, .inl ⟨fence, fun named => by cases named⟩⟩
        | true => exact ⟨bound, rfl, acts, _, rfl, lost, .inl fence⟩
  | candidate left closed =>
    obtain ⟨bound, admits, xs, ys, split, lost, either⟩ := tracked
    rw [RefCall.next] at same ⊢
    dsimp only at same ⊢
    have prefix' : acts ++ [RefAction.step p .done] = xs ++ (ys ++ [.step p .done]) := by
      rw [split, List.append_assoc]
    have fence : (RefSite.run sentinel (acts ++ [.step p .done])).refs.closure =
        (if closed then some sentinel else none) ∨ Interfered sentinel p xs (acts ++ [.step p .done]) := by
      rcases either with holds | interfered
      · left
        rw [same]
        exact holds
      · exact .inr (interfered.later sentinel _)
    have read : (RefSite.run sentinel (acts ++ [.step p .done])).refs.candidate =
        (RefSite.run sentinel acts).refs.candidate := by rw [same]
    cases call with
    | publish candidate =>
      rw [RefCall.sawCandidate]
      split
      · trivial
      · rename_i agrees
        refine ⟨bound, ⟨admits, ?_⟩, xs, _, prefix', lost, fence.imp (fun holds => ⟨holds, read⟩) id⟩
        by_cases absent : (RefSite.run sentinel acts).refs.candidate = none
        · exact .inl absent
        · exact .inr (not_not.mp (fun other => agrees ⟨absent, other⟩))
    | commit named disposition =>
      refine ⟨bound, ?_, xs, _, prefix', lost, fence.imp (fun holds => ⟨holds, fun _ => read⟩) id⟩
      intro unnamed
      have named : named = true := admits
      rw [unnamed] at named
      cases named
  | transaction left closed observed =>
    obtain ⟨bound, admits, xs, ys, split, lost, either⟩ := tracked
    rw [RefCall.next]
    cases applied : refTransaction (RefSite.run sentinel acts).refs (call.lines sentinel closed observed) with
    | some after => cases call <;> trivial
    | none =>
      have interfered : Interfered sentinel p xs acts :=
        either.resolve_left (fun asRead => transaction_applies sentinel admits asRead applied)
      have next := Lost.lose lost interfered ⟨rfl, call, left, closed, observed, found, applied⟩
      refine tracked_again sentinel call (by omega) ?_
      have count : 8 - left = 7 - left + 1 := by omega
      rw [count]
      exact next

theorem tracked_run {acts : List (RefAction ω)} {p : ℕ} {call : RefCall ω} {phase : RefPhase ω}
    (found : (RefSite.run sentinel acts).calls[p]? = some (call, phase)) :
    Tracked sentinel p acts call phase := by
  induction acts using List.reverseRecOn generalizing phase with
  | nil => simp [RefSite.run] at found
  | append_singleton acts a ih =>
    have stepped := found
    rw [refRun_snoc] at stepped
    rcases calls_cases sentinel stepped with ⟨before, quiet⟩ | ⟨-, rfl⟩ | ⟨answer, before, moves, rfl, same⟩
    · refine (ih before).other sentinel ?_
      intro answer own
      rw [refRun_snoc]
      exact quiet answer own
    · cases call with
      | publish candidate => exact tracked_again sentinel _ le_rfl (.nothing _)
      | commit named disposition => trivial
    · cases answer with
      | done =>
        rw [moves.action] at same ⊢
        rw [← refRun_snoc] at same
        exact (ih moves.found).next sentinel moves.found same
      | fails => trivial
      | lost => trivial

def changesLeft (refs : AcquisitionRefs ω) : ℕ :=
  match refs.closure, refs.candidate with
  | none, none => 3
  | none, some _ => 2
  | some _, some _ => 1
  | some _, none => 0

omit [DecidableEq ω] in
theorem changesLeft_later {refs after : AcquisitionRefs ω} (later : Later refs after) :
    changesLeft after ≤ changesLeft refs := by
  obtain ⟨closure, candidate⟩ := refs
  obtain ⟨closure', candidate'⟩ := after
  cases closure with
  | none =>
    cases candidate with
    | none => cases closure' <;> cases candidate' <;> simp [changesLeft]
    | some value =>
      rcases later.pinned value rfl with same | ⟨absent, closed⟩
      · have same' : candidate' = some value := same
        subst same'
        cases closure' <;> simp [changesLeft]
      · have absent' : candidate' = none := absent
        have closed' : closure' ≠ none := closed
        obtain ⟨value', rfl⟩ := Option.ne_none_iff_exists'.mp closed'
        subst absent'
        simp [changesLeft]
  | some fence =>
    have fenced : closure' = some fence := later.closure fence rfl
    subst fenced
    cases candidate with
    | none =>
      have absent : candidate' = none := later.gone (by simp) rfl
      subst absent
      exact le_rfl
    | some value => cases candidate' <;> simp [changesLeft]

omit [DecidableEq ω] in
theorem changesLeft_lt {refs after : AcquisitionRefs ω} (later : Later refs after)
    (literal : Literal sentinel refs) (literal' : Literal sentinel after) (changed : refs ≠ after) :
    changesLeft after < changesLeft refs := by
  refine lt_of_le_of_ne (changesLeft_later later) ?_
  intro same
  apply changed
  obtain ⟨closure, candidate⟩ := refs
  obtain ⟨closure', candidate'⟩ := after
  have pinned := later.pinned
  rcases literal with rfl | rfl <;> rcases literal' with rfl | rfl <;> cases candidate <;> cases candidate' <;>
    simp_all [changesLeft]

theorem Lost.bound {p n : ℕ} {acts : List (RefAction ω)} (lost : Lost sentinel p n acts) :
    n + changesLeft (RefSite.run sentinel acts).refs ≤ 3 := by
  have fewer : ∀ acts more : List (RefAction ω),
      changesLeft (RefSite.run sentinel (acts ++ more)).refs ≤ changesLeft (RefSite.run sentinel acts).refs :=
    fun acts more => changesLeft_later (run_later sentinel acts more)
  induction lost with
  | nothing acts =>
    have start := fewer [] acts
    rw [List.nil_append] at start
    have most : changesLeft (RefSite.run sentinel []).refs = 3 := rfl
    omega
  | @lose n xs acts a before interfered loses ih =>
    obtain ⟨us, b, vs, rfl, -, changed⟩ := interfered
    have first := fewer xs us
    have last := fewer (xs ++ us ++ [b]) (vs ++ [a])
    have split : xs ++ us ++ b :: vs ++ [a] = xs ++ us ++ [b] ++ (vs ++ [a]) := by simp
    have strict := changesLeft_lt sentinel (run_later sentinel (xs ++ us) [b]) (run_literal sentinel _)
      (run_literal sentinel _) changed
    rw [split]
    omega
  | @idle n acts a before ih =>
    have last := fewer acts [a]
    omega

/-- Closing an acquisition fences it for good. -/
theorem acquisition_fence :
    (∀ (acts more : List (RefAction ω)) (value : ω), (RefSite.run sentinel acts).refs.closure = some value →
      (RefSite.run sentinel (acts ++ more)).refs.closure = some value) ∧
    (∀ (acts : List (RefAction ω)) (p left : ℕ) (candidate : ω) (closed : Bool) (observed : Option ω),
      (RefSite.run sentinel acts).calls[p]? = some (.publish candidate, .transaction left closed observed) →
        (RefSite.run sentinel acts).refs.closure ≠ none →
          refTransaction (RefSite.run sentinel acts).refs
            ((RefCall.publish candidate).lines sentinel closed observed) = none) ∧
    (∀ (acts more : List (RefAction ω)) (value value' : ω),
      (RefSite.run sentinel acts).refs.candidate = some value →
        (RefSite.run sentinel (acts ++ more)).refs.candidate = some value' → value' = value) ∧
    (∀ (acts more : List (RefAction ω)) (p : ℕ),
      (RefSite.run sentinel acts).calls[p]? = some (.commit true .discard, .ended (.ok ())) →
        (RefSite.run sentinel (acts ++ more)).refs.candidate = none) ∧
    (∀ (acts more : List (RefAction ω)) (p : ℕ) (named : Bool),
      (RefSite.run sentinel acts).calls[p]? = some (.commit named .release, .ended (.ok ())) →
        .start (.commit true .discard) ∉ acts ++ more →
          ∃ xs a ys, acts = xs ++ a :: ys ∧ (RefSite.run sentinel xs).refs.closure = none ∧
            (RefSite.run sentinel (xs ++ [a])).refs.closure = some sentinel ∧
            (RefSite.run sentinel (xs ++ [a])).refs.candidate = (RefSite.run sentinel xs).refs.candidate ∧
            (RefSite.run sentinel (acts ++ more)).refs.candidate =
              (RefSite.run sentinel (xs ++ [a])).refs.candidate) ∧
    ∀ (acts : List (RefAction ω)) (p : ℕ) (call : RefCall ω),
      (RefSite.run sentinel acts).calls[p]? = some (call, .ended (.error .notConverged)) →
        Lost sentinel p 8 acts := by
  refine ⟨fun acts more value => (run_later sentinel acts more).closure value, ?_, ?_, ?_, ?_,
    fun acts p call found => tracked_run sentinel found⟩
  · intro acts p left candidate closed observed _ fence
    cases applied : refTransaction (RefSite.run sentinel acts).refs
        ((RefCall.publish candidate).lines sentinel closed observed) with
    | none => rfl
    | some after => exact absurd (publish_transaction sentinel applied).1 fence
  · intro acts more value value' found found'
    rcases (run_later sentinel acts more).pinned value found with same | ⟨absent, -⟩
    · rw [same] at found'
      exact (Option.some.inj found').symm
    · rw [absent] at found'
      cases found'
  · intro acts more p found
    have fenced := committed_fenced sentinel found rfl
    exact (run_later sentinel acts more).gone (by simp [fenced.1]) (fenced.2 ⟨rfl, rfl⟩)
  · intro acts more p named found kept
    have fenced := committed_fenced sentinel found rfl
    obtain ⟨xs, a, ys, rfl, was, is⟩ := closing_transaction sentinel acts (by simp [fenced.1])
    refine ⟨xs, a, ys, rfl, was, is, ?_, ?_⟩
    · rw [refRun_snoc] at is ⊢
      refine step_candidate sentinel ?_ (by simp [is])
      rintro q call phase running rfl
      exact kept (by simp [started sentinel running])
    · have split : xs ++ a :: ys ++ more = xs ++ [a] ++ (ys ++ more) := by simp
      rw [split] at kept ⊢
      exact run_candidate sentinel kept (by simp [is])

end Refs

end Constructicon
