import Constructicon.WalkerAttempt

/-!
# The end of an attempt

The status of a run follows from what an attempt has collected: it fails when a unit
failed, parks when one waits, and succeeds exactly when every unit completed. Each end
leaves a coherent memory, so the next attempt, however many there are, finds one.
-/

namespace Constructicon.Walker

open Transaction

variable {δ : Type}

/-- The outputs of the graph have the sources their cardinality asks for. -/
structure OutputsWired (p : Shared) (m : ExecutionManifest δ) (units : List RootUnit) (roots : Values) : Prop where
  fits : ∀ q ∈ m.sourceGraph.outputs, ∀ b,
    p.bindings.get? (addressKey (.graphOutput [m.sourceGraph.name] q.name)) = some b → Fits q b.sources
  sources : ∀ q ∈ m.sourceGraph.outputs, ∀ b,
    p.bindings.get? (addressKey (.graphOutput [m.sourceGraph.name] q.name)) = some b → ∀ a ∈ b.sources,
      (roots.get? (addressKey a)).isSome ∨ ∃ w, (unitProducerIndex units).get? (addressKey a) = some w

theorem graphOutputs_ok {m : ExecutionManifest δ} {values : Values} {bindings : Dict String ResolvedPortBinding}
    (ready : ∀ q ∈ m.sourceGraph.outputs, ∀ b,
      bindings.get? (addressKey (.graphOutput [m.sourceGraph.name] q.name)) = some b →
        Fits q b.sources ∧ Available values b.sources) : ∃ outputs, graphOutputs m values bindings = .ok outputs := by
  refine foldlM_total (fun q mem outputs => ?_) _
  split
  · next b bound =>
    obtain ⟨fits, available⟩ := ready q mem b bound
    obtain ⟨x, collected⟩ := collect_ok available fits
    exact ⟨outputs.insert q.name x, map_ok_iff.mpr ⟨x, collected, rfl⟩⟩
  · exact ⟨outputs, rfl⟩

structure Fresh (v : View) : Prop where
  failures : v.failures.entries = []
  blocked : v.blocked = []
  parked : v.parked = []

/-- What the result of an attempt says of what it has collected and of the memory. -/
inductive Concluded (p : Shared) (m : ExecutionManifest δ) (ordered : List RootUnit) (roots : Values) (r : RunResult)
    (v : View) : Prop
  | failed (status : r.status = .failed) (why : v.failures.entries ≠ [])
  | parked (status : r.status = .parked) (clean : v.failures.entries = []) (why : v.parked ≠ [])
  | cancelled (status : r.status = .cancelled)
  | succeeded {values : Values} (status : r.status = .succeeded) (clean : Fresh v)
      (whole : Whole p v.memory ordered roots values)
      (outputs : graphOutputs m values p.bindings = .ok r.outputs)

section Settling

variable {c : Context} {conduct : Conduct} {m : ExecutionManifest δ} {units ordered : List RootUnit} {roots : Values}
  {v₀ v : View} {pr : Progress} {inputs : Dict String Json}

theorem Reached.fallen {p : Shared} (h : Reached p ordered roots v₀ ordered pr v) : Fallen p ordered roots v₀ v :=
  ⟨h.grew, _, h.before⟩

theorem Reached.all {p : Shared} (fresh : Fresh v₀) (h : Reached p ordered roots v₀ ordered pr v)
    (calm : ¬Troubled v) : (∀ w ∈ ordered, pr.statuses.get? w.scope = some .completed) ∧ Fresh v := by
  have all : ∀ w ∈ ordered, pr.statuses.get? w.scope = some .completed := by
    intro w mem
    by_contra undone
    exact calm (h.troubled ⟨w, mem, undone⟩)
  obtain ⟨-, same⟩ := h.whole all
  obtain ⟨failures, blocked, parked⟩ : v.failures = v₀.failures ∧ v.blocked = v₀.blocked ∧ v.parked = v₀.parked := by
    simpa [View.ledger] using same
  exact ⟨all, by rw [failures]; exact fresh.failures, by rw [blocked]; exact fresh.blocked,
    by rw [parked]; exact fresh.parked⟩

variable (quiet : c.world.Quiet c.lease.runId)

include quiet

theorem settleRun_run (fresh : Fresh v₀) (order : ordered.Perm units) (wired : OutputsWired (c.shared conduct) m units roots)
    (reached : Reached (c.shared conduct) ordered roots v₀ ordered pr v) {r : RunResult}
    (failures : r.failures = v.failures) (blocked : r.blocked = v.blocked) (parked : r.parked = [] ↔ v.parked = []) :
    Proc.Triple (Seen c.lease.runId v) (settleRun c m pr r)
      (fun r s => Concluded (c.shared conduct) m ordered roots r (s.view c.lease.runId) ∧ Seen c.lease.runId v s)
      (Undone c.lease.runId v) := by
  refine Proc.Triple.ite (fun failed => ?_) fun sound => ?_
  · refine Proc.Triple.bind (turn_spec quiet _) fun _ => Proc.Triple.answer fun s seen => ⟨?_, seen⟩
    exact seen.view (P := Concluded (c.shared conduct) m ordered roots _) (.failed rfl (failures ▸ failed))
  have clean : v.failures.entries = [] := by
    rw [← failures]
    exact not_not.mp sound
  refine Proc.Triple.ite (fun waits => ?_) fun idle => ?_
  · refine Proc.Triple.bind (turn_spec quiet _) fun _ => Proc.Triple.answer fun s seen => ⟨?_, seen⟩
    exact seen.view (P := Concluded (c.shared conduct) m ordered roots _) (.parked rfl clean fun none_ => waits (parked.mpr none_))
  have calm : ¬Troubled v := by
    rintro (failed | waits)
    · exact failed clean
    · exact idle fun none_ => waits (parked.mp none_)
  obtain ⟨all, fresh'⟩ := reached.all fresh calm
  refine Proc.Triple.ite (fun stuck => absurd fresh'.blocked (blocked ▸ stuck)) fun _ => ?_
  have available : ∀ a, (roots.get? (addressKey a)).isSome ∨ (∃ w, (unitProducerIndex units).get? (addressKey a) = some w) →
      (pr.values.get? (addressKey a)).isSome := by
    rintro a (root | ⟨w, indexed⟩)
    · exact reached.above.isSome root
    · obtain ⟨inside, key⟩ := unitProducerIndex_spec indexed
      have mem := order.mem_iff.mpr inside
      exact reached.published w mem (all w mem) _ key
  have ready : ∀ q ∈ m.sourceGraph.outputs, ∀ b,
      c.bindings.get? (addressKey (.graphOutput [m.sourceGraph.name] q.name)) = some b →
        Fits q b.sources ∧ Available pr.values b.sources := fun q mem b bound =>
    ⟨wired.fits q mem b bound, fun a source => available a (wired.sources q mem b bound a source)⟩
  obtain ⟨outputs, found⟩ := graphOutputs_ok ready
  refine Proc.Triple.bind (checked_spec found) fun outputs' => Proc.Triple.pure_left fun same => ?_
  subst same
  refine Proc.Triple.bind (turn_spec quiet _) fun _ => Proc.Triple.answer fun s seen => ⟨?_, seen⟩
  exact seen.view (P := Concluded (c.shared conduct) m ordered roots _)
    (.succeeded rfl fresh' (reached.whole all).1 found)

theorem settle_run (fresh : Fresh v₀) (order : ordered.Perm units) (wired : OutputsWired (c.shared conduct) m units roots)
    {ended : Except Raised Progress} (known : (∀ pr, ended = .ok pr → Reached (c.shared conduct) ordered roots v₀ ordered pr v) ∧
      ∀ e, ended = .error e → Fallen (c.shared conduct) ordered roots v₀ v ∧
        Excused (c.shared conduct) ordered roots v₀ v e) :
    Proc.Triple (Seen c.lease.runId v) (settle c m ended)
      (fun r s => Concluded (c.shared conduct) m ordered roots r (s.view c.lease.runId) ∧
        Fallen (c.shared conduct) ordered roots v₀ (s.view c.lease.runId))
      (fun e s => Excused (c.shared conduct) ordered roots v₀ (s.view c.lease.runId) e ∧
        Fallen (c.shared conduct) ordered roots v₀ (s.view c.lease.runId)) := by
  cases ended with
  | ok pr =>
    have reached := known.1 pr rfl
    refine Proc.Triple.bind (Q := fun r s => Seen c.lease.runId v s ∧ r = s.result .running) ?_ fun r => ?_
    · refine Proc.Triple.look fun s seen => Proc.Triple.answer ?_
      rintro s' rfl
      exact ⟨seen, rfl⟩
    · intro s held
      obtain ⟨seen, rfl⟩ := held
      have shown : s.view c.lease.runId = v := seen
      have failures : (s.result .running).failures = v.failures := by rw [← shown]; rfl
      have blocked : (s.result .running).blocked = v.blocked := by rw [← shown]; rfl
      have parked : (s.result .running).parked = [] ↔ v.parked = [] := by
        rw [← shown]
        change s.parked.insertionSort _ = [] ↔ s.parked = []
        rw [← List.length_eq_zero_iff, List.length_insertionSort, List.length_eq_zero_iff]
      have settled : Proc.Triple (Seen c.lease.runId v) (settleRun c m pr (s.result .running))
          (fun r s => Concluded (c.shared conduct) m ordered roots r (s.view c.lease.runId) ∧
            Fallen (c.shared conduct) ordered roots v₀ (s.view c.lease.runId))
          (fun e s => Excused (c.shared conduct) ordered roots v₀ (s.view c.lease.runId) e ∧
            Fallen (c.shared conduct) ordered roots v₀ (s.view c.lease.runId)) := by
        refine ((settleRun_run quiet fresh order wired reached failures blocked parked).strengthen ?_).relax ?_
        · rintro r s ⟨concluded, seen⟩
          exact ⟨concluded, seen.view (P := Fallen _ ordered roots v₀) reached.fallen⟩
        · rintro e s ⟨seen, outside⟩
          exact ⟨.inl outside, seen.view (P := Fallen _ ordered roots v₀) reached.fallen⟩
      exact settled s seen
  | error e =>
    obtain ⟨fallen, excused⟩ := known.2 e rfl
    by_cases asked : e = .foreign .cancelRequested
    · subst asked
      refine Proc.Triple.bind ((turn_spec quiet _).relax ?_) fun _ => ?_
      · rintro e s ⟨seen, outside⟩
        exact ⟨.inl outside, seen.view (P := Fallen _ ordered roots v₀) fallen⟩
      · refine Proc.Triple.look fun s seen => Proc.Triple.answer ?_
        rintro s' rfl
        exact ⟨.cancelled rfl, Seen.view (P := Fallen _ ordered roots v₀) seen fallen⟩
    · have same : settle c m (.error e) = Proc.fail e := by
        unfold settle
        split
        · next h => cases h
        · next h =>
          cases h
          exact absurd rfl asked
        · next h =>
          cases h
          rfl
      rw [same]
      exact Proc.Triple.fail fun s seen => ⟨seen.view (P := fun w => Excused _ ordered roots v₀ w e) excused,
        seen.view (P := Fallen _ ordered roots v₀) fallen⟩

end Settling

/-! ## The whole attempt -/

/-- An attempt that keeps to a wired manifest, in a world where nobody else records
completions of the run. -/
structure Prepared (c : Context) (conduct : Conduct) (m : ExecutionManifest δ) (units ordered : List RootUnit)
    (inputs : Dict String Json) : Prop where
  quiet : c.world.Quiet c.lease.runId
  obeys : c.world.Obeys conduct
  producers : c.producers = unitProducerIndex units
  listed : orderedUnits units c.bindings c.producers = .ok ordered
  wired : Wired (c.shared conduct) units (rootValues m inputs) ordered
  outputs : OutputsWired (c.shared conduct) m units (rootValues m inputs)

section Execution

variable {c : Context} {conduct : Conduct} {m : ExecutionManifest δ} {units ordered : List RootUnit}
  {inputs : Dict String Json} {v₀ : View}

theorem Reached.start {p : Shared} {roots : Values} (wired : Wired p units roots ordered) :
    Reached p ordered roots v₀ [] { values := roots } v₀ where
  grew := .refl
  before := .nil roots
  above := .refl roots
  published := fun w mem => absurd mem List.not_mem_nil
  silent := fun w mem _ k key => wired.fresh w (wired.mem mem) k key
  marked := fun w _ done => by cases done
  whole := fun _ => ⟨.nil roots, rfl⟩
  troubled := fun ⟨w, mem, _⟩ => absurd mem List.not_mem_nil

def Lost (c : Context) (e : Raised) : Prop := e = .damage (.unknownRun c.lease.runId)

theorem runStatus_spec (quiet : c.world.Quiet c.lease.runId) :
    Proc.Triple (Seen c.lease.runId v₀) (runStatus c) (fun _ => Seen c.lease.runId v₀)
      (fun e s => Seen c.lease.runId v₀ s ∧ (e.Outside ∨ Lost c e)) := by
  refine Proc.Triple.bind (Q := fun _ => Seen c.lease.runId v₀) ?_ fun row => ?_
  · refine ((access_keeps quiet (R := fun _ => True) ?_).strengthen fun _ _ => And.left).relax ?_
    · intro b now s a s' memory done
      obtain ⟨row, -, same⟩ := map_ok_iff.mp done
      cases same
      exact ⟨memory, trivial⟩
    · exact fun e s undone => ⟨undone.1, .inl undone.2⟩
  · cases row with
    | none => exact Proc.Triple.fail fun s seen => ⟨seen, .inr rfl⟩
    | some row => exact Proc.Triple.answer fun s seen => seen

theorem openAttempt_spec (quiet : c.world.Quiet c.lease.runId) (cause : Option AttemptCause) (status : RunStatus) :
    Proc.Triple (Seen c.lease.runId v₀) (openAttempt c inputs cause status) (fun _ => Seen c.lease.runId v₀)
      (Undone c.lease.runId v₀) := by
  cases status with
  | pending => exact turn_spec quiet _
  | failed => exact turn_spec quiet _
  | parked => exact turn_spec quiet _
  | running => exact notice_spec quiet _
  | cancelled => exact notice_spec quiet _
  | succeeded => exact notice_spec quiet _

theorem reconcile_spec : Proc.Triple (Seen c.lease.runId v₀) (reconcileStaleLeases c) (fun _ => Seen c.lease.runId v₀)
    (Undone c.lease.runId v₀) := by
  refine Proc.Triple.bind (ask_spec _) fun raised => ?_
  cases raised with
  | none => exact Proc.Triple.answer fun s seen => seen
  | some e => exact raise_spec e

theorem execute_run (prep : Prepared c conduct m units ordered inputs) (fresh : Fresh v₀) {y : Values}
    (coherent : Coherent (c.shared conduct) v₀.memory ordered (rootValues m inputs) y) (cause : Option AttemptCause) :
    Proc.Triple (Seen c.lease.runId v₀) (execute c m units inputs cause)
      (fun r s => Concluded (c.shared conduct) m ordered (rootValues m inputs) r (s.view c.lease.runId) ∧
        Fallen (c.shared conduct) ordered (rootValues m inputs) v₀ (s.view c.lease.runId))
      (fun e s => (Excused (c.shared conduct) ordered (rootValues m inputs) v₀ (s.view c.lease.runId) e ∨ Lost c e) ∧
        Fallen (c.shared conduct) ordered (rootValues m inputs) v₀ (s.view c.lease.runId)) := by
  have begun : Fallen (c.shared conduct) ordered (rootValues m inputs) v₀ v₀ := ⟨.refl, y, coherent⟩
  have undone : ∀ (e : Raised) s, Undone c.lease.runId v₀ e s →
      (Excused (c.shared conduct) ordered (rootValues m inputs) v₀ (s.view c.lease.runId) e ∨ Lost c e) ∧
      Fallen (c.shared conduct) ordered (rootValues m inputs) v₀ (s.view c.lease.runId) := by
    rintro e s ⟨seen, outside⟩
    exact ⟨.inl (.inl outside), seen.view (P := Fallen _ ordered _ v₀) begun⟩
  refine Proc.Triple.bind ((runStatus_spec prep.quiet).relax ?_) fun status => ?_
  · rintro e s ⟨seen, why⟩
    exact ⟨why.imp_left .inl, seen.view (P := Fallen _ ordered _ v₀) begun⟩
  refine Proc.Triple.bind ((openAttempt_spec prep.quiet cause status).relax undone) fun _ => ?_
  refine Proc.Triple.bind (reconcile_spec.relax undone) fun _ => ?_
  refine Proc.Triple.bind (checked_spec prep.listed) fun ordered' => Proc.Triple.pure_left fun same => ?_
  subst same
  refine Proc.Triple.bind (Proc.Triple.tried (runUnits_run prep.quiet prep.obeys prep.wired prep.producers
    (List.nil_append ordered').symm (.start prep.wired) coherent)) fun ended => ?_
  refine triple_of_view (P := fun w => (∀ pr, ended = .ok pr → Reached (c.shared conduct) ordered' (rootValues m inputs)
    v₀ ordered' pr w) ∧ ∀ e, ended = .error e → Fallen (c.shared conduct) ordered' (rootValues m inputs) v₀ w ∧
      Excused (c.shared conduct) ordered' (rootValues m inputs) v₀ w e) fun w known => ?_
  exact (settle_run prep.quiet fresh prep.wired.order.perm prep.outputs known).relax
    fun e s left => ⟨.inl left.1, left.2⟩

end Execution

/-! ## The beginning -/

theorem fresh_view (run : RunId) (s : Journal) : Fresh (Attempt.view run { journal := s }) := ⟨rfl, rfl, rfl⟩

theorem coherent_empty {p : Shared} {ordered : List RootUnit} (loops : ∀ l, .loop l ∈ ordered → ∃ found, LoopWired p l found) (v : Values) :
    Coherent p (fun _ => none) ordered v v := by
  induction ordered with
  | nil => exact .nil v
  | cons u rest ih =>
    refine .cons (r := none) ?_ (ih fun l mem => loops l (List.mem_cons_of_mem _ mem))
    cases u with
    | atomic i => exact .absent rfl
    | loop l =>
      obtain ⟨found, wired⟩ := loops l List.mem_cons_self
      obtain ⟨remaining, many⟩ := Nat.exists_eq_succ_of_ne_zero l.maxIterations.ne_zero
      have state : LoopState p (fun _ => none) l found v l.maxIterations 0 none .rests := by
        rw [many]
        exact .blank fun _ _ _ _ => rfl
      exact .within wired.members state fun _ same => by cases same

end Constructicon.Walker
