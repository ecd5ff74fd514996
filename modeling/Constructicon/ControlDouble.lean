import Constructicon.CommandLaw

/-!
# The in-memory control store

The test double keeps the command law in a dictionary. Run beside the SQLite store
on the same calls, it gives the same status, claim, error and stored command; only
the record a granted claim hands back differs, and it always does. What SQLite reads
beyond the ledger (the disposal law, the plan of a human command before a rejection)
is where the two may part otherwise.
-/

namespace Constructicon

open Transaction

structure InMemoryControlStore where
  commands : Commands
  approvalIdByCommand : Dict String String
deriving DecidableEq

namespace InMemoryControlStore

variable (h : Hashing Digest) (newPlan : CommandRecord → Except StoreError Unit)

def empty : InMemoryControlStore := ⟨Dict.empty, Dict.empty⟩

def write (m : InMemoryControlStore) (id : String) (r : CommandRecord) : InMemoryControlStore :=
  { m with commands := m.commands.insert id r }

/-- `_detached_command`: a terminal command has its plan. -/
def detachedCommand (r : CommandRecord) : Except StoreError CommandRecord := do
  require (r.state = .prepared ∨ r.plan ≠ none) .journalDamaged
  pure r

/-- `claim_command` -/
def claimCommand (now : Instant) (m : InMemoryControlStore) (q : ClaimRequest) :
    Except StoreError (CommandClaimResult × InMemoryControlStore) := do
  require (q.Valid h) .valueError
  match m.commands.get? (q.commandId h) with
  | some existing =>
    if existing.Conflicts q then do
      let record ← detachedCommand existing
      pure ({ status := .conflict, record := some record }, m)
    else if existing.state ≠ .prepared then do
      let record ← detachedCommand existing
      pure ({ status := .replayed, record := some record }, m)
    else if existing.Leased now then do
      let record ← detachedCommand existing
      pure ({ status := .inProgress, record := some record }, m)
    else do
      let record ← detachedCommand (existing.reclaimed q now)
      pure ({ status := .claimed, claim := some (q.claimAt h now (existing.ownerEpoch + 1)),
              record := some record },
        m.write (q.commandId h) (existing.reclaimed q now))
  | none => do
    let record ← detachedCommand (q.freshRecord h now)
    pure ({ status := .claimed, claim := some (q.claimAt h now 1), record := some record },
      m.write (q.commandId h) (q.freshRecord h now))

/-- `_fenced` -/
def fenced (m : InMemoryControlStore) (claim : CommandClaim) : Except StoreError CommandRecord := do
  let record ← expect (m.commands.get? claim.commandId) .journalDamaged
  require (record.actor.actorId = claim.actorId ∧ record.operation = claim.operation)
    .journalDamaged
  require (record.state = .prepared ∧ record.ownerId = some claim.ownerId ∧
    record.ownerEpoch = claim.epoch) .ownershipLost
  pure record

/-- `store_command_plan` -/
def storeCommandPlan (now : Instant) (m : InMemoryControlStore) (claim : CommandClaim)
    (plan : Json) : Except StoreError (Unit × InMemoryControlStore) := do
  require (plan ≠ .null) .valueError
  let record ← m.fenced claim
  match record.plan with
  | none =>
    newPlan (record.planned plan now)
    pure ((), m.write claim.commandId (record.planned plan now))
  | some stored =>
    require (stored.canonical = plan.canonical) .journalDamaged
    pure ((), m)

/-- `_terminal` -/
def terminal (now : Instant) (m : InMemoryControlStore) (claim : CommandClaim) (response : Json)
    (state : CommandState) : Except StoreError (CommandRecord × InMemoryControlStore) := do
  require (response ≠ .null) .valueError
  let record ← expect (m.commands.get? claim.commandId) .journalDamaged
  require (¬(state = .rejected ∧ m.approvalIdByCommand.contains claim.commandId)) .journalDamaged
  if record.state ≠ .prepared then do
    require (record.state = state ∧
      record.response.map Json.canonical = some response.canonical) .journalDamaged
    let record ← detachedCommand record
    pure (record, m)
  else do
    let record ← m.fenced claim
    require (record.plan ≠ none) .journalDamaged
    let updated := record.terminated state response now
    let record ← detachedCommand updated
    pure (record, m.write claim.commandId updated)

end InMemoryControlStore

/-! ## The two stores side by side -/

inductive StoreCall where
  | claim (now : Instant) (q : ClaimRequest)
  | plan (now : Instant) (claim : CommandClaim) (plan : Json)
  | complete (now : Instant) (claim : CommandClaim) (response : Json)
  | reject (now : Instant) (claim : CommandClaim) (response : Json)

inductive Reply where
  | claimed (result : CommandClaimResult)
  | planned
  | ended (record : CommandRecord)
deriving DecidableEq

def Reply.unrecorded : Reply → Reply
  | .claimed result =>
    .claimed (if result.status = .claimed then { result with record := none } else result)
  | .planned => .planned
  | .ended record => .ended record

section Sides

variable (h : Hashing Digest) (codec : Codec)
  (owned : CommandRecord → Except StoreError (Option String))

/-- A call on the SQLite store; `owned` is what it finds in the domain tables. -/
def Ledger.call (s : Ledger) : StoreCall → Except StoreError (Reply × Ledger)
  | .claim now q => (claimCommand h codec now s q).map (Prod.map .claimed id)
  | .plan now claim plan =>
    (storeCommandPlan h codec now s claim plan).map (Prod.map (fun _ => .planned) id)
  | .complete now claim response =>
    (completeCommand h codec owned now s claim response).map (Prod.map .ended id)
  | .reject now claim response =>
    (rejectCommand h codec owned now s claim response).map (Prod.map .ended id)

def InMemoryControlStore.call (m : InMemoryControlStore) :
    StoreCall → Except StoreError (Reply × InMemoryControlStore)
  | .claim now q => (m.claimCommand h now q).map (Prod.map .claimed id)
  | .plan now claim plan =>
    (m.storeCommandPlan codec.newPlan now claim plan).map (Prod.map (fun _ => .planned) id)
  | .complete now claim response =>
    (m.terminal now claim response .committed).map (Prod.map .ended id)
  | .reject now claim response =>
    (m.terminal now claim response .rejected).map (Prod.map .ended id)

/-- What is seen of a call: its error, or its reply under `view` and the commands it leaves. -/
def seen {σ : Type} (view : Reply → Reply) (commands : σ → Commands)
    (t : Except StoreError (Reply × σ)) : Except StoreError (Reply × Commands) :=
  t.map (Prod.map view commands)

/-- Call by call both stores show the same under `view`. -/
def AgreeUnder (view : Reply → Reply) (s : Ledger) (m : InMemoryControlStore) :
    List StoreCall → Prop
  | [] => True
  | c :: cs =>
    seen view Ledger.commands (s.call h codec owned c) =
      seen view InMemoryControlStore.commands (m.call h codec c) ∧
    AgreeUnder view (settle s (s.call h codec owned c)) (settle m (m.call h codec c)) cs

/-- Same status, claim, record, error and stored command at every call. -/
def Agree := AgreeUnder h codec owned id

/-- The claim is granted: its command is new, or prepared under an expired lease. -/
def StoreCall.Granted (s : Ledger) : StoreCall → Prop
  | .claim now q => q.Valid h ∧ ∀ r, s.commands.get? (q.commandId h) = some r →
      ¬r.Conflicts q ∧ r.state = .prepared ∧ ¬r.Leased now
  | _ => False

def Ungranted (s : Ledger) : List StoreCall → Prop
  | [] => True
  | c :: cs => ¬c.Granted h s ∧ Ungranted (settle s (s.call h codec owned c)) cs

def ReadableCall (s : Ledger) : StoreCall → Prop
  | .claim _ _ => True
  | .plan now claim plan => ∀ r, s.commands.get? claim.commandId = some r → r.Held claim →
      r.plan = none → requireDisposalCommand codec s (r.planned plan now) = .ok ()
  | .complete now claim response => ∀ r, s.commands.get? claim.commandId = some r →
      r.Held claim → requireDisposalCommand codec s (r.terminated .committed response now) = .ok ()
  | .reject now claim response => ∀ r, s.commands.get? claim.commandId = some r →
      owned r = .ok none ∧ (r.Held claim →
        requireDisposalCommand codec s (r.terminated .rejected response now) = .ok ())

def Readable (s : Ledger) : List StoreCall → Prop
  | [] => True
  | c :: cs => ReadableCall codec owned s c ∧ Readable (settle s (s.call h codec owned c)) cs

structure Corresponds (s : Ledger) (m : InMemoryControlStore) : Prop where
  sound : s.Sound h codec
  commands : m.commands = s.commands
  approvals : m.approvalIdByCommand = Dict.empty

end Sides

section Steps

variable {h : Hashing Digest} {codec : Codec}
  {owned : CommandRecord → Except StoreError (Option String)} {s : Ledger}
  {m : InMemoryControlStore} {now : Instant} {q : ClaimRequest} {claim : CommandClaim}
  {r : CommandRecord}

theorem CommandRecord.Lawful.detachedCommand (lawful : r.Lawful h) :
    InMemoryControlStore.detachedCommand r = .ok r := by
  have planned : r.state = .prepared ∨ r.plan ≠ none := by
    by_cases prepared : r.state = .prepared
    · exact .inl prepared
    · have lifecycle := lawful.1
      rw [CommandRecord.LifecycleLawful, if_neg prepared] at lifecycle
      exact .inr lifecycle.2.1
  simp [InMemoryControlStore.detachedCommand, require_of planned]

theorem Corresponds.fenced (hc : Corresponds h codec s m) (claim : CommandClaim) :
    m.fenced claim = commandFenced h codec s claim := by
  rw [InMemoryControlStore.fenced, commandFenced, hc.sound.commandForId, hc.commands]
  rfl

theorem Corresponds.claim_of_absent (hc : Corresponds h codec s m) (valid : q.Valid h)
    (absent : s.commands.get? (q.commandId h) = none) :
    m.claimCommand h now q =
      .ok ({ status := .claimed, claim := some (q.claimAt h now 1),
             record := some (q.freshRecord h now) },
        m.write (q.commandId h) (q.freshRecord h now)) := by
  rw [InMemoryControlStore.claimCommand, require_of valid, ok_bind, hc.commands, absent]
  have lawful : (q.freshRecord h now).Lawful h := q.freshRecord_lawful valid
  simp [lawful.detachedCommand]

theorem Corresponds.claim_of_found (hc : Corresponds h codec s m) (valid : q.Valid h)
    (found : s.commands.get? (q.commandId h) = some r) :
    m.claimCommand h now q =
      if r.Conflicts q then .ok ({ status := .conflict, record := some r }, m)
      else if r.state ≠ .prepared then .ok ({ status := .replayed, record := some r }, m)
      else if r.Leased now then .ok ({ status := .inProgress, record := some r }, m)
      else .ok ({ status := .claimed, claim := some (q.claimAt h now (r.ownerEpoch + 1)),
                  record := some (r.reclaimed q now) },
        m.write (q.commandId h) (r.reclaimed q now)) := by
  have lawful := (hc.sound.lawful _ r found).2
  rw [InMemoryControlStore.claimCommand, require_of valid, ok_bind, hc.commands, found]
  simp only [lawful.detachedCommand, ok_bind]
  split_ifs with conflict terminal leased
  · rfl
  · rfl
  · rfl
  · rw [(r.reclaimed_lawful lawful (not_not.mp terminal)).detachedCommand, ok_bind]
    rfl

theorem Corresponds.claim_of_invalid (invalid : ¬q.Valid h) :
    m.claimCommand h now q = .error .valueError := by
  rw [InMemoryControlStore.claimCommand, require_of_not invalid, error_bind]

theorem Corresponds.commands_write (hc : Corresponds h codec s m) (id : String)
    (r : CommandRecord) : (m.write id r).commands = (s.write id r).commands := by
  rw [InMemoryControlStore.write, Ledger.write, hc.commands]

theorem Corresponds.claim_unrecorded (hc : Corresponds h codec s m) :
    seen Reply.unrecorded Ledger.commands (s.call h codec owned (.claim now q)) =
      seen Reply.unrecorded InMemoryControlStore.commands (m.call h codec (.claim now q)) := by
  simp only [Ledger.call, InMemoryControlStore.call, seen]
  by_cases valid : q.Valid h
  · cases hr : s.commands.get? (q.commandId h) with
    | none =>
      rw [claimCommand_of_absent hc.sound valid hr, hc.claim_of_absent valid hr]
      simp [Except.map, Reply.unrecorded, hc.commands_write]
    | some r =>
      rw [claimCommand_of_found hc.sound valid hr, hc.claim_of_found valid hr]
      split_ifs
      · simp [Except.map, hc.commands]
      · simp [Except.map, hc.commands]
      · simp [Except.map, hc.commands]
      · simp [Except.map, Reply.unrecorded, hc.commands_write]
  · rw [claimCommand_of_invalid valid, Corresponds.claim_of_invalid valid]
    rfl

theorem Corresponds.claim_granted (hc : Corresponds h codec s m)
    (granted : (StoreCall.claim now q).Granted h s) :
    seen id Ledger.commands (s.call h codec owned (.claim now q)) ≠
      seen id InMemoryControlStore.commands (m.call h codec (.claim now q)) := by
  obtain ⟨valid, expired⟩ := granted
  simp only [Ledger.call, InMemoryControlStore.call, seen]
  cases hr : s.commands.get? (q.commandId h) with
  | none =>
    rw [claimCommand_of_absent hc.sound valid hr, hc.claim_of_absent valid hr]
    simp [Except.map]
  | some r =>
    obtain ⟨same, prepared, free⟩ := expired r hr
    have differs : r ≠ r.reclaimed q now := by
      intro heq
      have epoch := congrArg CommandRecord.ownerEpoch heq
      simp [CommandRecord.reclaimed] at epoch
    rw [claimCommand_of_found hc.sound valid hr, hc.claim_of_found valid hr, if_neg same,
      if_neg (not_not.mpr prepared), if_neg free, if_neg same, if_neg (not_not.mpr prepared),
      if_neg free]
    simp [Except.map, differs]

theorem Corresponds.claim_ungranted (hc : Corresponds h codec s m)
    (refused : ¬(StoreCall.claim now q).Granted h s) :
    seen id Ledger.commands (s.call h codec owned (.claim now q)) =
      seen id InMemoryControlStore.commands (m.call h codec (.claim now q)) := by
  simp only [Ledger.call, InMemoryControlStore.call, seen]
  by_cases valid : q.Valid h
  · cases hr : s.commands.get? (q.commandId h) with
    | none => exact absurd ⟨valid, fun r hr' => by simp [hr] at hr'⟩ refused
    | some r =>
      rw [claimCommand_of_found hc.sound valid hr, hc.claim_of_found valid hr]
      split_ifs with conflict terminal leased
      · simp [Except.map, hc.commands]
      · simp [Except.map, hc.commands]
      · simp [Except.map, hc.commands]
      · refine absurd ⟨valid, fun r' hr' => ?_⟩ refused
        cases hr.symm.trans hr'
        exact ⟨conflict, not_not.mp terminal, leased⟩
  · rw [claimCommand_of_invalid valid, Corresponds.claim_of_invalid valid]
    rfl

theorem Corresponds.plan_alike {plan : Json} (hc : Corresponds h codec s m)
    (readable : ReadableCall codec owned s (.plan now claim plan)) :
    seen id Ledger.commands (s.call h codec owned (.plan now claim plan)) =
      seen id InMemoryControlStore.commands (m.call h codec (.plan now claim plan)) := by
  simp only [Ledger.call, InMemoryControlStore.call, seen, storeCommandPlan,
    InMemoryControlStore.storeCommandPlan, hc.fenced]
  by_cases null : plan = .null
  · rw [require_of_not (not_not.mpr null)]
    rfl
  rw [require_of null, ok_bind, ok_bind]
  cases hf : commandFenced h codec s claim with
  | error e => rfl
  | ok r =>
    obtain ⟨found, held⟩ := commandFenced_ok hc.sound hf
    simp only [ok_bind]
    cases hp : r.plan with
    | some stored =>
      by_cases same : stored.canonical = plan.canonical
      · simp only [require_of same, ok_bind]
        simp [Except.map, pure, Except.pure, hc.commands]
      · simp only [require_of_not same]
        rfl
    | none =>
      simp only [readable r found held hp]
      cases codec.newPlan (r.planned plan now) with
      | error e => rfl
      | ok u => simp [Except.map, pure, Except.pure, hc.commands_write]

theorem Corresponds.terminal_alike {response : Json} {state : CommandState}
    (hc : Corresponds h codec s m)
    (unowned : ∀ r, s.commands.get? claim.commandId = some r →
      refuseOwnedFact owned state r = .ok ())
    (disposal : ∀ r, s.commands.get? claim.commandId = some r → r.Held claim →
      requireDisposalCommand codec s (r.terminated state response now) = .ok ())
    (ends : state ≠ .prepared) :
    (terminalCommand h codec owned now s claim response state).map (Prod.map id Ledger.commands) =
      (m.terminal now claim response state).map
        (Prod.map id InMemoryControlStore.commands) := by
  simp only [terminalCommand, InMemoryControlStore.terminal, hc.sound.commandForId, hc.commands,
    hc.approvals, ok_bind, hc.fenced]
  by_cases null : response = .null
  · rw [require_of_not (not_not.mpr null)]
    rfl
  rw [require_of null, ok_bind, ok_bind]
  cases hr : s.commands.get? claim.commandId with
  | none => rfl
  | some r =>
    have lawful := (hc.sound.lawful _ r hr).2
    have clear : ¬(state = .rejected ∧ (Dict.empty : Dict String String).contains claim.commandId) :=
      fun both => by simp [Dict.contains] at both
    simp only [expect_some, ok_bind, unowned r hr, require_of clear]
    by_cases terminal : r.state ≠ .prepared
    · rw [if_pos terminal, if_pos terminal]
      by_cases same : r.state = state ∧ r.response.map Json.canonical = some response.canonical
      · rw [require_of same, ok_bind, ok_bind, lawful.detachedCommand]
        simp [Except.map, pure, Except.pure, hc.commands]
      · rw [require_of_not same]
        rfl
    · rw [if_neg terminal, if_neg terminal]
      cases hf : commandFenced h codec s claim with
      | error e => rfl
      | ok r' =>
        obtain ⟨found, held⟩ := commandFenced_ok hc.sound hf
        cases hr.symm.trans found
        simp only [ok_bind]
        by_cases planned : r.plan ≠ none
        · have ended : (r.terminated state response now).Lawful h := by
            refine ⟨?_, lawful.2⟩
            simp [CommandRecord.LifecycleLawful, CommandRecord.terminated, ends, planned]
          rw [require_of planned, ok_bind, ok_bind, ended.detachedCommand, sealedCommandFromRow,
            require_of ended, ok_bind, disposal r hr held]
          simp [Except.map, pure, Except.pure, hc.commands_write]
        · rw [require_of_not planned]
          rfl

theorem seen_map {α σ : Type} (view : Reply → Reply) (commands : σ → Commands) (f : α → Reply)
    (t : Except StoreError (α × σ)) :
    seen view commands (t.map (Prod.map f id)) =
      (t.map (Prod.map id commands)).map (Prod.map (fun a => view (f a)) id) := by
  cases t <;> rfl

theorem seen_view {σ : Type} (view : Reply → Reply) (commands : σ → Commands)
    (t : Except StoreError (Reply × σ)) :
    seen view commands t = (seen id commands t).map (Prod.map view id) := by
  cases t <;> rfl

theorem Corresponds.call_alike {c : StoreCall} (hc : Corresponds h codec s m)
    (readable : ReadableCall codec owned s c) (refused : ¬c.Granted h s) :
    seen id Ledger.commands (s.call h codec owned c) =
      seen id InMemoryControlStore.commands (m.call h codec c) := by
  cases c with
  | claim now q => exact hc.claim_ungranted refused
  | plan now claim plan => exact hc.plan_alike readable
  | complete now claim response =>
    have unowned : ∀ r, s.commands.get? claim.commandId = some r →
        refuseOwnedFact owned .committed r = .ok () := fun r hr => rfl
    have same := hc.terminal_alike unowned readable (by decide)
    rw [Ledger.call, InMemoryControlStore.call, seen_map, seen_map, completeCommand, same]
  | reject now claim response =>
    have unowned : ∀ r, s.commands.get? claim.commandId = some r →
        refuseOwnedFact owned .rejected r = .ok () := by
      intro r hr
      simp [refuseOwnedFact, (readable r hr).1, require]
    have same := hc.terminal_alike unowned (fun r hr => (readable r hr).2) (by decide)
    rw [Ledger.call, InMemoryControlStore.call, seen_map, seen_map, rejectCommand, same]

theorem Corresponds.call_unrecorded {c : StoreCall} (hc : Corresponds h codec s m)
    (readable : ReadableCall codec owned s c) :
    seen Reply.unrecorded Ledger.commands (s.call h codec owned c) =
      seen Reply.unrecorded InMemoryControlStore.commands (m.call h codec c) := by
  by_cases granted : c.Granted h s
  · cases c with
    | claim now q => exact hc.claim_unrecorded
    | plan => exact granted.elim
    | complete => exact granted.elim
    | reject => exact granted.elim
  · rw [seen_view, hc.call_alike readable granted, ← seen_view]

def StoreCall.onLedger (owned : CommandRecord → Except StoreError (Option String)) :
    StoreCall → CommandCall
  | .claim now q => .claim now q
  | .plan now c p => .plan now c p
  | .complete now c response => .complete owned now c response
  | .reject now c response => .reject owned now c response

theorem Ledger.settle_call (c : StoreCall) :
    settle s (s.call h codec owned c) = s.step h codec (c.onLedger owned) := by
  cases c <;> simp [Ledger.call, Ledger.step, StoreCall.onLedger]

theorem InMemoryControlStore.terminal_approvals {response : Json} {state : CommandState}
    {res : CommandRecord} {m' : InMemoryControlStore}
    (e : m.terminal now claim response state = .ok (res, m')) :
    m'.approvalIdByCommand = m.approvalIdByCommand := by
  simp only [terminal, bind_eq_ok] at e
  obtain ⟨-, -, record, -, -, -, e⟩ := e
  split_ifs at e
  · simp only [bind_eq_ok] at e
    obtain ⟨-, -, record', -, e⟩ := e
    cases e
    rfl
  · simp only [bind_eq_ok] at e
    obtain ⟨record', -, -, -, detached, -, e⟩ := e
    cases e
    rfl

theorem InMemoryControlStore.claimCommand_approvals {res : CommandClaimResult}
    {m' : InMemoryControlStore} (e : m.claimCommand h now q = .ok (res, m')) :
    m'.approvalIdByCommand = m.approvalIdByCommand := by
  simp only [claimCommand, bind_eq_ok] at e
  obtain ⟨-, -, e⟩ := e
  cases hr : m.commands.get? (q.commandId h) with
  | none =>
    simp only [hr, bind_eq_ok] at e
    obtain ⟨record, -, e⟩ := e
    cases e
    rfl
  | some r =>
    simp only [hr] at e
    split_ifs at e <;>
    · simp only [bind_eq_ok] at e
      obtain ⟨record, -, e⟩ := e
      cases e
      rfl

theorem InMemoryControlStore.storeCommandPlan_approvals
    {newPlan : CommandRecord → Except StoreError Unit} {plan : Json} {u : Unit}
    {m' : InMemoryControlStore} (e : m.storeCommandPlan newPlan now claim plan = .ok (u, m')) :
    m'.approvalIdByCommand = m.approvalIdByCommand := by
  simp only [storeCommandPlan, bind_eq_ok] at e
  obtain ⟨-, -, r, -, e⟩ := e
  cases hp : r.plan with
  | none =>
    simp only [hp, bind_eq_ok] at e
    obtain ⟨-, -, e⟩ := e
    cases e
    rfl
  | some stored =>
    simp only [hp, bind_eq_ok] at e
    obtain ⟨-, -, e⟩ := e
    cases e
    rfl

theorem InMemoryControlStore.settle_approvals (c : StoreCall) :
    (settle m (m.call h codec c)).approvalIdByCommand = m.approvalIdByCommand := by
  let Kept := fun m' : InMemoryControlStore => m'.approvalIdByCommand = m.approvalIdByCommand
  cases c with
  | claim now q =>
    rw [call, settle_map]
    exact settle_cases (P := Kept) rfl fun res m' e => claimCommand_approvals e
  | plan now claim plan =>
    rw [call, settle_map]
    exact settle_cases (P := Kept) rfl fun res m' e => storeCommandPlan_approvals e
  | complete now claim response =>
    rw [call, settle_map]
    exact settle_cases (P := Kept) rfl fun res m' e => terminal_approvals e
  | reject now claim response =>
    rw [call, settle_map]
    exact settle_cases (P := Kept) rfl fun res m' e => terminal_approvals e

theorem Corresponds.after {view : Reply → Reply} {c : StoreCall} (hc : Corresponds h codec s m)
    (same : seen view Ledger.commands (s.call h codec owned c) =
      seen view InMemoryControlStore.commands (m.call h codec c)) :
    Corresponds h codec (settle s (s.call h codec owned c)) (settle m (m.call h codec c)) := by
  refine ⟨?_, ?_, (InMemoryControlStore.settle_approvals c).trans hc.approvals⟩
  · rw [Ledger.settle_call]
    exact Ledger.step_sound hc.sound _
  · cases ht : s.call h codec owned c with
    | error e =>
      cases hm : m.call h codec c with
      | error e' => exact hc.commands
      | ok p => simp [ht, hm, seen, Except.map] at same
    | ok p =>
      cases hm : m.call h codec c with
      | error e' => simp [ht, hm, seen, Except.map] at same
      | ok p' =>
        simp only [ht, hm, seen, Except.map, Except.ok.injEq] at same
        exact (congrArg Prod.snd same).symm

end Steps

section Runs

variable {h : Hashing Digest} {codec : Codec}
  {owned : CommandRecord → Except StoreError (Option String)} {s : Ledger}
  {m : InMemoryControlStore}

theorem Corresponds.ungranted_of_agree (calls : List StoreCall) (hc : Corresponds h codec s m)
    (agree : Agree h codec owned s m calls) : Ungranted h codec owned s calls := by
  induction calls generalizing s m with
  | nil => trivial
  | cons c cs ih =>
    obtain ⟨same, rest⟩ := agree
    refine ⟨fun granted => ?_, ih (hc.after same) rest⟩
    cases c with
    | claim now q => exact hc.claim_granted granted same
    | plan => exact granted
    | complete => exact granted
    | reject => exact granted

theorem Corresponds.agree_of_ungranted (calls : List StoreCall) (hc : Corresponds h codec s m)
    (readable : Readable h codec owned s calls) (refused : Ungranted h codec owned s calls) :
    Agree h codec owned s m calls := by
  induction calls generalizing s m with
  | nil => trivial
  | cons c cs ih =>
    have same := hc.call_alike readable.1 refused.1
    exact ⟨same, ih (hc.after same) readable.2 refused.2⟩

theorem Corresponds.agree_unrecorded (calls : List StoreCall) (hc : Corresponds h codec s m)
    (readable : Readable h codec owned s calls) :
    AgreeUnder h codec owned Reply.unrecorded s m calls := by
  induction calls generalizing s m with
  | nil => trivial
  | cons c cs ih =>
    have same := hc.call_unrecorded readable.1
    exact ⟨same, ih (hc.after same) readable.2⟩

theorem step_of_ungranted {c : StoreCall} (hs : s.Sound h codec)
    (bare : s.commands = Dict.empty) (refused : ¬c.Granted h s) :
    settle s (s.call h codec owned c) = s := by
  rw [Ledger.settle_call]
  have change := Ledger.step_change hs (c.onLedger owned)
  have nothing : ∀ id, s.commands.get? id = none := fun id => by rw [bare]; rfl
  generalize s.step h codec (c.onLedger owned) = s' at change
  cases c with
  | claim now q =>
    cases change with
    | none => rfl
    | fresh now q valid absent =>
      exact absurd ⟨valid, fun r found => by simp [absent] at found⟩ refused
    | reclaim now q r found => simp [nothing] at found
  | plan now claim plan =>
    cases change with
    | none => rfl
    | plan now claim plan r found => simp [nothing] at found
  | complete now claim response =>
    cases change with
    | none => rfl
    | complete owned now claim response r found => simp [nothing] at found
  | reject now claim response =>
    cases change with
    | none => rfl
    | reject owned now claim response r found => simp [nothing] at found

theorem readable_of_ungranted (calls : List StoreCall) (hs : s.Sound h codec)
    (bare : s.commands = Dict.empty) (refused : Ungranted h codec owned s calls) :
    Readable h codec owned s calls := by
  have nothing : ∀ id, s.commands.get? id = none := fun id => by rw [bare]; rfl
  induction calls with
  | nil => trivial
  | cons c cs ih =>
    obtain ⟨this, rest⟩ := refused
    have stays : settle s (s.call h codec owned c) = s := step_of_ungranted hs bare this
    rw [Readable, stays]
    rw [stays] at rest
    refine ⟨?_, ih rest⟩
    cases c with
    | claim => trivial
    | plan now claim plan => exact fun r found => by simp [nothing] at found
    | complete now claim response => exact fun r found => by simp [nothing] at found
    | reject now claim response => exact fun r found => by simp [nothing] at found

/-- The double is faithful exactly on the runs in which no claim is granted. From
corresponding stores, and as long as what SQLite alone reads raises nothing, all but the
record of a granted claim agrees on every run. -/
theorem double_agrees_iff (h : Hashing Digest) (codec : Codec)
    (owned : CommandRecord → Except StoreError (Option String)) :
    (∀ fences calls,
      Agree h codec owned { Ledger.empty with fences := fences } .empty calls ↔
        Ungranted h codec owned { Ledger.empty with fences := fences } calls) ∧
    ∀ s m calls, Corresponds h codec s m →
      (Agree h codec owned s m calls → Ungranted h codec owned s calls) ∧
      (Readable h codec owned s calls →
        (Ungranted h codec owned s calls → Agree h codec owned s m calls) ∧
        AgreeUnder h codec owned Reply.unrecorded s m calls) := by
  constructor
  · intro fences calls
    have start : Corresponds h codec { Ledger.empty with fences := fences } .empty := by
      refine ⟨⟨List.nodup_nil, ?_, ?_⟩, rfl, rfl⟩
      · exact fun id r hr => by simp [Ledger.empty] at hr
      · exact fun id r hr => by simp [Ledger.empty] at hr
    refine ⟨start.ungranted_of_agree calls, fun refused => ?_⟩
    exact start.agree_of_ungranted calls (readable_of_ungranted calls start.sound rfl refused)
      refused
  · intro s m calls hc
    refine ⟨hc.ungranted_of_agree calls, fun readable => ⟨?_, hc.agree_unrecorded calls readable⟩⟩
    exact hc.agree_of_ungranted calls readable

/-- The first claim of any key: SQLite answers without a record, the double with the row. -/
theorem first_claim_differs :
    ¬Agree domainHashing plainCodec (fun _ => .ok none) .empty .empty [.claim 0 cancelRequest] := by
  intro agree
  exact absurd agree.1 (by decide)

end Runs

end Constructicon
