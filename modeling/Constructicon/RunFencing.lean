import Constructicon.CommandLaw
import Constructicon.JournalChange

/-!
# The run fence

Whoever writes and whenever: the claim epoch of a run grows by one with each
successful claim and never falls, one pair of owner and epoch is accepted at a time,
and a write under any other leaves the journal as it was. It is refused, unless it
repeats a fact that is durable already.
-/

namespace Constructicon

open Transaction

def JournalCall.fence : JournalCall → Option RunLease
  | .heartbeat lease _ => some lease
  | .release lease => some lease
  | .cancel _ lease => lease
  | .transition lease _ _ _ _ => some lease
  | .append lease _ _ _ => some lease
  | .complete lease _ => some lease
  | .prepare lease _ => some lease
  | .outcome lease _ _ _ => some lease
  | .acquire lease _ => some lease
  | .move lease _ _ _ _ => some lease
  | .meter lease _ _ => some lease
  | _ => none

def Journal.answer (w : Wire) (b : Beside) (now : Instant) (s : Journal) :
    JournalCall → Except StoreError Unit
  | .create run manifestHash => (createRun b s run manifestHash).map (fun _ => ())
  | .claim run ownerId ttl seq statuses =>
    (claimRun w b now s run ownerId ttl seq statuses).map (fun _ => ())
  | .heartbeat lease ttl => (heartbeat w b now s lease ttl).map (fun _ => ())
  | .release lease => (releaseRun w b s lease).map (fun _ => ())
  | .cancel run lease => (requestCancel w b s run lease).map (fun _ => ())
  | .transition lease expected target kind payload =>
    (transitionRun w b now s lease expected target kind payload).map (fun _ => ())
  | .append lease kind path payload =>
    (appendEvent w b now s lease kind path payload).map (fun _ => ())
  | .complete lease checkpoint => (recordCompletion w b now s lease checkpoint).map (fun _ => ())
  | .prepare lease request => (recordEffectPrepared w b now s lease request).map (fun _ => ())
  | .outcome lease request receipt kind =>
    (recordEffectOutcome w b now s lease request receipt kind).map (fun _ => ())
  | .acquire lease capability =>
    (recordCapabilityLease w b now s lease capability).map (fun _ => ())
  | .move lease key expected target disposition =>
    (transitionCapabilityLease w b now s lease key expected target disposition).map (fun _ => ())
  | .meter lease key phase => (writeMeteringPhase w b now s lease key phase).map (fun _ => ())
  | .dispose commandId plan => (recordDisposal w b now s commandId plan).map (fun _ => ())

/-- Any call of any worker, with its clock and what it reads elsewhere. -/
def Journal.anyStep (w : Wire) (s : Journal) (c : Beside × Instant × JournalCall) : Journal :=
  s.step w c.1 c.2.1 c.2.2

def Journal.Superseded (s : Journal) (lease : RunLease) : Prop :=
  ∃ row, s.runs.get? lease.runId = some row ∧ lease.epoch ≤ row.ownerEpoch ∧ ¬row.HeldBy lease

/-- A run's row and what it may have become: a new owner only under a higher epoch. -/
structure RunRow.Later (row row' : RunRow) : Prop where
  epoch : row.ownerEpoch ≤ row'.ownerEpoch
  owner : row'.ownerEpoch = row.ownerEpoch → row'.ownerId = row.ownerId ∨ row'.ownerId = none

def Journal.Later (s s' : Journal) : Prop :=
  ∀ run row, s.runs.get? run = some row → ∃ row', s'.runs.get? run = some row' ∧ row.Later row'

section Fence

variable {w : Wire} {b : Beside} {now : Instant} {s s' s'' : Journal} {lease : RunLease}
  {call : JournalCall} {row row' : RunRow}

theorem RunRow.Later.refl (row : RunRow) : row.Later row := ⟨le_rfl, fun _ => .inl rfl⟩

theorem RunRow.Later.trans {row'' : RunRow} (h : row.Later row') (h' : row'.Later row'') :
    row.Later row'' := by
  refine ⟨h.epoch.trans h'.epoch, fun same => ?_⟩
  have e := h.epoch
  have e' := h'.epoch
  have mid : row'.ownerEpoch = row.ownerEpoch := by omega
  have last : row''.ownerEpoch = row'.ownerEpoch := by omega
  rcases h'.owner last with keep | gone
  · rw [keep]
    exact h.owner mid
  · exact .inr gone

theorem Journal.Later.refl (s : Journal) : s.Later s := fun _ row hr => ⟨row, hr, .refl row⟩

theorem Journal.Later.trans (h : s.Later s') (h' : s'.Later s'') : s.Later s'' := by
  intro run row hr
  obtain ⟨row', hr', l⟩ := h run row hr
  obtain ⟨row'', hr'', l'⟩ := h' run row' hr'
  exact ⟨row'', hr'', l.trans l'⟩

theorem Journal.Later.of_insert {run : RunId} (runs : s'.runs = s.runs.insert run row')
    (later : ∀ row, s.runs.get? run = some row → row.Later row') : s.Later s' := by
  intro run' row hr
  rw [runs]
  by_cases heq : run = run'
  · subst heq
    exact ⟨row', by simp, later row hr⟩
  · exact ⟨row, by rwa [Dict.get?_insert_ne s.runs row' heq], .refl row⟩

theorem Journal.Later.of_found {run : RunId} (runs : s'.runs = s.runs.insert run row')
    (found : s.runs.get? run = some row) (epoch : row'.ownerEpoch = row.ownerEpoch)
    (owner : row'.ownerId = row.ownerId ∨ row'.ownerId = none) : s.Later s' := by
  apply Journal.Later.of_insert runs
  intro row₀ hr
  cases found.symm.trans hr
  exact ⟨epoch.ge, fun _ => owner⟩

theorem Journal.Change.later (hc : s.Change w b now call s') : s.Later s' := by
  cases hc with
  | none => exact .refl s
  | create run manifestHash absent =>
    exact .of_insert rfl fun row hr => by simp [absent] at hr
  | claim run ownerId ttl seq statuses row found =>
    apply Journal.Later.of_insert rfl
    intro row₀ hr
    cases found.symm.trans hr
    refine ⟨Nat.le_succ _, fun same => ?_⟩
    simp [RunRow.claimed] at same
  | heartbeat lease ttl row found => exact .of_found rfl found rfl (.inl rfl)
  | release lease row found => exact .of_found rfl found rfl (.inr rfl)
  | cancel run lease row found => exact .of_found rfl found rfl (.inl rfl)
  | transition lease expected target kind payload row s' found status held idle inserted =>
    exact .of_found inserted.runs found rfl (.inl rfl)
  | append lease kind path payload row s' found running held inserted =>
    exact .of_found inserted.runs found rfl (.inl rfl)
  | complete lease checkpoint row seals s' mine absent found running held sealed inserted =>
    exact .of_found inserted.runs found rfl (.inl rfl)
  | prepare => exact .refl s
  | outcome lease request receipt kind row key effect s' mine allowed prepared read same open'
      found running held inserted =>
    exact .of_found inserted.runs found rfl (.inl rfl)
  | acquire lease capability row s' mine absent found running held inserted =>
    exact .of_found inserted.runs found rfl (.inl rfl)
  | move lease key expected target disposition acquired row s' stored named mine status found
      running held inserted =>
    exact .of_found inserted.runs found rfl (.inl rfl)
  | meter lease key phase acquired row s' stored found running held inserted =>
    exact .of_found inserted.runs found rfl (.inl rfl)
  | dispose commandId plan row s₁ s' found running idle fence nodup lost inserted =>
    exact .of_found (inserted.runs.trans (dispose_runs lost)) found rfl (.inl rfl)

theorem Journal.later_of_reaches (h : Reaches (Journal.anyStep w) s s') : s.Later s' :=
  Reaches.relates (I := fun _ => True) Journal.Later.refl Journal.Later.trans
    (fun _ _ _ => trivial) (fun s c _ => (s.step_change w c.1 c.2.1 c.2.2).later) h trivial

theorem Journal.Change.of_out (hc : s.Change w b now call s') (fence : call.fence = some lease)
    (out : ¬s.Holds lease) : s' = s := by
  cases hc with
  | none => rfl
  | create => cases fence
  | claim => cases fence
  | heartbeat l ttl row found held =>
    cases fence
    exact absurd ⟨row, found, held⟩ out
  | release l row found held =>
    cases fence
    exact absurd ⟨row, found, held⟩ out
  | cancel run l row found held =>
    obtain ⟨rfl, holds⟩ := held lease fence
    exact absurd ⟨row, found, holds⟩ out
  | transition l expected target kind payload row s' found status held =>
    cases fence
    exact absurd ⟨row, found, held⟩ out
  | append l kind path payload row s' found running held =>
    cases fence
    exact absurd ⟨row, found, held⟩ out
  | complete l checkpoint row seals s' mine absent found running held =>
    cases fence
    exact absurd ⟨row, found, held⟩ out
  | prepare l request row seals mine found held =>
    cases fence
    exact absurd ⟨row, found, held⟩ out
  | outcome l request receipt kind row key effect s' mine allowed prepared read same open' found
      running held =>
    cases fence
    exact absurd ⟨row, found, held⟩ out
  | acquire l capability row s' mine absent found running held =>
    cases fence
    exact absurd ⟨row, found, held⟩ out
  | move l key expected target disposition acquired row s' stored named mine status found running
      held =>
    cases fence
    exact absurd ⟨row, found, held⟩ out
  | meter l key phase acquired row s' stored found running held =>
    cases fence
    exact absurd ⟨row, found, held⟩ out
  | dispose => cases fence

theorem map_eq_ok {α β : Type} {t : Except StoreError α} {f : α → β} {c : β}
    (h : t.map f = .ok c) : ∃ a, t = .ok a := by
  cases t with
  | error e => cases h
  | ok a => exact ⟨a, rfl⟩

theorem Journal.answer_ok (fence : call.fence = some lease)
    (h : s.answer w b now call = .ok ()) : s.Holds lease ∨ s.Repeats w b call := by
  cases call with
  | create => cases fence
  | claim => cases fence
  | heartbeat l ttl =>
    obtain ⟨a, ha⟩ := map_eq_ok h
    cases fence
    exact .inl (heartbeat_change ha).2
  | release l =>
    obtain ⟨a, ha⟩ := map_eq_ok h
    cases fence
    have change : s.Change w b now (.release lease) a.2 ∧ s.Holds lease := releaseRun_change ha
    exact .inl change.2
  | cancel run l =>
    obtain ⟨a, ha⟩ := map_eq_ok h
    have change : s.Change w b now (.cancel run l) a.2 ∧ ∀ l' ∈ l, s.Holds l' :=
      requestCancel_change ha
    exact .inl (change.2 lease fence)
  | transition l expected target kind payload =>
    obtain ⟨a, ha⟩ := map_eq_ok h
    cases fence
    exact .inl (transitionRun_change ha).2
  | append l kind path payload =>
    obtain ⟨a, ha⟩ := map_eq_ok h
    cases fence
    exact .inl (appendEvent_change ha).2
  | complete l checkpoint =>
    obtain ⟨a, ha⟩ := map_eq_ok h
    cases fence
    exact (recordCompletion_change ha).2
  | prepare l request =>
    obtain ⟨a, ha⟩ := map_eq_ok h
    cases fence
    exact .inl (recordEffectPrepared_change ha).2
  | outcome l request receipt kind =>
    obtain ⟨a, ha⟩ := map_eq_ok h
    cases fence
    exact (recordEffectOutcome_change ha).2
  | acquire l capability =>
    obtain ⟨a, ha⟩ := map_eq_ok h
    cases fence
    exact (recordCapabilityLease_change ha).2
  | move l key expected target disposition =>
    obtain ⟨a, ha⟩ := map_eq_ok h
    cases fence
    exact (transitionCapabilityLease_change ha).2
  | meter l key phase =>
    obtain ⟨a, ha⟩ := map_eq_ok h
    cases fence
    exact .inl (writeMeteringPhase_change ha).2
  | dispose => cases fence

theorem Journal.Superseded.later (h : s.Superseded lease) (later : s.Later s') :
    s'.Superseded lease := by
  obtain ⟨row, hr, epoch, out⟩ := h
  obtain ⟨row', hr', l⟩ := later lease.runId row hr
  refine ⟨row', hr', epoch.trans l.epoch, fun held => out ?_⟩
  obtain ⟨owner, same⟩ := held
  have e := l.epoch
  have equal : row'.ownerEpoch = row.ownerEpoch := by omega
  rcases l.owner equal with keep | gone
  · exact ⟨keep.symm.trans owner, by omega⟩
  · rw [gone] at owner
    cases owner

theorem Journal.Superseded.out (h : s.Superseded lease) : ¬s.Holds lease := by
  rintro ⟨row, hr, held⟩
  obtain ⟨row', hr', -, out⟩ := h
  cases hr.symm.trans hr'
  exact out held

/-- The run fence, over every journal and every later run of any workers. -/
theorem run_fencing (w : Wire) (s : Journal) :
    (∀ b now run ownerId ttl seq statuses lease s',
      claimRun w b now s run ownerId ttl seq statuses = .ok (lease, s') →
      ∃ row, s.runs.get? run = some row ∧ lease.runId = run ∧ lease.ownerId = ownerId ∧
        lease.epoch = row.ownerEpoch + 1 ∧ s'.Holds lease) ∧
    (∀ s', Reaches (Journal.anyStep w) s s' → ∀ run row, s.runs.get? run = some row →
      ∃ row', s'.runs.get? run = some row' ∧ row.ownerEpoch ≤ row'.ownerEpoch) ∧
    (∀ lease lease', s.Holds lease → s.Holds lease' → lease.runId = lease'.runId →
      lease.ownerId = lease'.ownerId ∧ lease.epoch = lease'.epoch) ∧
    (∀ b now call lease, call.fence = some lease → ¬s.Holds lease →
      s.step w b now call = s ∧
        ((∃ e, s.answer w b now call = .error e) ∨ s.Repeats w b call)) ∧
    (∀ lease s', s.Superseded lease → Reaches (Journal.anyStep w) s s' → ¬s'.Holds lease) := by
  refine ⟨?_, ?_, ?_, ?_, ?_⟩
  · intro b now run ownerId ttl seq statuses lease s' h
    simp only [claimRun, bind_eq_ok, expect_eq_ok] at h
    obtain ⟨o, ho, row, rfl, -, -, -, -, -, -, h⟩ := h
    cases h
    refine ⟨row, runMutationRow_ok ho, rfl, rfl, rfl, row.claimed ownerId now ttl, ?_, rfl, rfl⟩
    simp [Journal.setRun]
  · intro s' h run row hr
    obtain ⟨row', hr', later⟩ := Journal.later_of_reaches h run row hr
    exact ⟨row', hr', later.epoch⟩
  · rintro lease lease' ⟨row, hr, owner, epoch⟩ ⟨row', hr', owner', epoch'⟩ same
    rw [same] at hr
    cases hr.symm.trans hr'
    exact ⟨Option.some.inj (owner.symm.trans owner'), epoch.symm.trans epoch'⟩
  · intro b now call lease fence out
    refine ⟨(s.step_change w b now call).of_out fence out, ?_⟩
    cases h : s.answer w b now call with
    | error e => exact .inl ⟨e, rfl⟩
    | ok u => exact .inr ((Journal.answer_ok fence h).resolve_left out)
  · intro lease s' h later
    exact (h.later (Journal.later_of_reaches later)).out

end Fence

section Example

def plainWire : Wire := ⟨domainHashing, fun _ => ""⟩

def calm : Beside where
  world := fun _ => .ok ()
  attempt := fun _ _ => .ok ""
  related := fun _ => .ok ()
  effect := fun _ => .ok ()
  provenance := fun _ => .ok ()
  disposed := fun _ => .ok ()
  metered := fun _ => .ok none

def firstLease : RunLease := ⟨"r", "a", 1, 10⟩

def firstCompletion : Checkpoint := ⟨"r", ⟨["g", "n"], []⟩, "in", none, []⟩

/-- A worker completes a node; another takes the run over. -/
def takenOver : Journal :=
  [(0, JournalCall.create "r" "m"), (0, .claim "r" "a" 10 none none),
    (1, .transition firstLease [.pending] .running "RunStarted" none),
    (2, .complete firstLease firstCompletion), (20, .claim "r" "b" 10 none none)].foldl
    (fun s c => s.step plainWire calm c.1 c.2) .empty

/-- The first worker repeats its completion and is told it is recorded. -/
theorem stale_repetition_answered :
    ¬takenOver.Holds firstLease ∧
      takenOver.answer plainWire calm 21 (.complete firstLease firstCompletion) = .ok () := by
  constructor
  · rintro ⟨row, found, held⟩
    have epoch : (takenOver.runs.get? "r").map RunRow.ownerEpoch = some 2 := by decide
    have current := held.2
    rw [show takenOver.runs.get? "r" = some row from found] at epoch
    simp [current, firstLease] at epoch
  · decide

end Example

end Constructicon
