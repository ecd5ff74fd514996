import Constructicon.WalkerCoherent
import Constructicon.WalkerOrder

/-!
# What an attempt needs of the manifest

Every value a unit takes is a value of the run's inputs or published by a unit that
stands before it, and in a loop every value a member takes is a seed of the iteration or
published by a member before it. From this alone the walker's own checks pass.
-/

namespace Constructicon.Walker

open Transaction

/-! ## A loop -/

/-- The keys the seeds of a loop are filed under. -/
def seedKeys (l : LoopResolution) : List String :=
  l.initialBindings.map (fun b => addressKey b.destination)

/-- The keys that have values at the end of an iteration. -/
def innerKeys (l : LoopResolution) (found : List Instance) : List String :=
  seedKeys l ++ found.flatMap outputKeys

structure LoopWired (p : Shared) (l : LoopResolution) (found : List Instance) : Prop where
  members : Members p l found
  distinct : l.memberOrder.Nodup
  some : found ≠ []
  /-- every input bound at first is bound in each iteration -/
  seeded : ∀ index, ∀ b ∈ l.initialBindings, ∃ q ∈ l.inputPorts, ∃ fed b',
    seedBinding l index q = (fed, .some b') ∧ addressKey b'.destination = addressKey b.destination
  initial : ∀ b ∈ l.initialBindings, ∃ q ∈ l.inputPorts, seedBinding l 0 q = (false, .some b)
  seeds : ∀ index, ∀ q ∈ l.inputPorts, ∀ fed b, seedBinding l index q = (fed, .some b) → Fits q b.sources ∧
    if fed then ∀ a ∈ b.sources, addressKey a ∈ innerKeys l found else b ∈ l.initialBindings
  shaped : ∀ i ∈ found, Shaped p.bindings i
  body : ∀ pre i post, found = pre ++ i :: post → ∀ b ∈ inputBindings p.bindings i, ∀ a ∈ b.sources,
    addressKey a ∈ seedKeys l ++ pre.flatMap outputKeys
  behind : ∀ pre i post, found = pre ++ i :: post → ∀ b ∈ inputBindings p.bindings i, ∀ a ∈ b.sources, ∀ w,
    (memberProducerIndex found).get? (addressKey a) = .some w → w ∈ pre
  continuation : addressKey l.continueSource ∈ innerKeys l found
  exports : ∀ e ∈ l.exports, Fits e.port e.sources ∧ ∀ a ∈ e.sources, addressKey a ∈ innerKeys l found

def Holding (v : Values) (keys : List String) : Prop := ∀ k ∈ keys, (v.get? k).isSome

section Loop

variable {p : Shared} {l : LoopResolution} {found : List Instance} {index : ℕ} {outer : Values}
  {previous : Option Values}

theorem Holding.available {v : Values} {keys : List String} (h : Holding v keys) {sources : List PortAddress}
    (inside : ∀ a ∈ sources, addressKey a ∈ keys) : Available v sources := fun a mem => h _ (inside a mem)

theorem Holding.published {publish : Values → Except Damage Values} {v v' : Values} {keys new : List String}
    (h : Holding v keys) (publishes : Publishes publish new v v') : Holding v' (keys ++ new) := by
  intro k mem
  rcases List.mem_append.mp mem with mem | mem
  · exact publishes.isSome_iff.mpr (.inl (h k mem))
  · exact publishes.isSome_iff.mpr (.inr mem)

theorem seedPort_ok (ready : ∀ b ∈ l.initialBindings, Available outer b.sources)
    (fed : 0 < index → ∃ v, previous = some v ∧ Holding v (innerKeys l found)) (wired : LoopWired p l found)
    {q : Port} (mem : q ∈ l.inputPorts) (values : Values) :
    ∃ values', seedPort l index outer previous values q = .ok values' ∧
      (∀ k, (values.get? k).isSome → (values'.get? k).isSome) ∧
      ∀ fed b, seedBinding l index q = (fed, some b) → (values'.get? (addressKey b.destination)).isSome := by
  unfold seedPort
  cases bound : seedBinding l index q with
  | mk again found? =>
    cases found? with
    | none =>
      refine ⟨values, rfl, fun k => id, ?_⟩
      intro fed b same
      cases same
    | some b =>
      obtain ⟨fits, from_⟩ := wired.seeds index q mem again b bound
      have source : ∃ source, expect (if again then previous else some outer) (Damage.noPrevious l.scope index) =
          .ok source ∧ Available source b.sources := by
        cases again with
        | false => exact ⟨outer, rfl, ready b from_⟩
        | true =>
          have later : 0 < index := by
            unfold seedBinding at bound
            dsimp only at bound
            split_ifs at bound with feeds
            · exact feeds.1
            · cases bound
          obtain ⟨v, rfl, holding⟩ := fed later
          exact ⟨v, rfl, holding.available from_⟩
      obtain ⟨source, chosen, available⟩ := source
      obtain ⟨x, collected⟩ := collect_ok available fits
      refine ⟨values.insert (addressKey b.destination) x, ?_, ?_, ?_⟩
      · simp only [chosen, ok_bind, collected]
        rfl
      · intro k held
        rw [Dict.get?_insert]
        split_ifs
        · rfl
        · exact held
      · intro fed b' same
        cases same
        rw [Dict.get?_insert_self]
        rfl

theorem seedLoopIteration_ok (ready : ∀ b ∈ l.initialBindings, Available outer b.sources)
    (fed : 0 < index → ∃ v, previous = some v ∧ Holding v (innerKeys l found)) (wired : LoopWired p l found) :
    ∃ v, seedLoopIteration l index outer previous = .ok v ∧ Holding v (seedKeys l) := by
  have fold : ∀ (ports : List Port) (values : Values), ports ⊆ l.inputPorts →
      ∃ values', ports.foldlM (seedPort l index outer previous) values = .ok values' ∧
        (∀ k, (values.get? k).isSome → (values'.get? k).isSome) ∧
        ∀ q ∈ ports, ∀ fed b, seedBinding l index q = (fed, some b) →
          (values'.get? (addressKey b.destination)).isSome := by
    intro ports
    induction ports with
    | nil => exact fun values _ => ⟨values, rfl, fun k => id, by simp⟩
    | cons q ports ih =>
      intro values sub
      obtain ⟨next, seeded, kept, here⟩ := seedPort_ok ready fed wired (sub List.mem_cons_self) values
      obtain ⟨last, rest, kept', later⟩ := ih next fun x mem => sub (List.mem_cons_of_mem _ mem)
      refine ⟨last, ?_, fun k held => kept' k (kept k held), ?_⟩
      · rw [List.foldlM_cons, seeded]
        exact rest
      · intro q' mem again b bound
        rcases List.mem_cons.mp mem with rfl | mem
        · exact kept' _ (here again b bound)
        · exact later q' mem again b bound
  obtain ⟨v, ok, -, held⟩ := fold l.inputPorts .empty (List.Subset.refl _)
  refine ⟨v, ok, ?_⟩
  intro k mem
  obtain ⟨b, initial, rfl⟩ := List.mem_map.mp mem
  obtain ⟨q, port, again, b', bound, same⟩ := wired.seeded index b initial
  rw [← same]
  exact held q port again b' bound

theorem seeded_available (wired : LoopWired p l found) {v : Values}
    (ok : seedLoopIteration l 0 outer previous = .ok v) : ∀ b ∈ l.initialBindings, Available outer b.sources := by
  have fold : ∀ (ports : List Port) (values values' : Values),
      ports.foldlM (seedPort l 0 outer previous) values = .ok values' → ∀ q ∈ ports, ∀ b,
        seedBinding l 0 q = (false, some b) → Available outer b.sources := by
    intro ports
    induction ports with
    | nil => exact fun _ _ _ q mem => absurd mem List.not_mem_nil
    | cons q ports ih =>
      intro values values' ok q' mem b bound
      rw [List.foldlM_cons, bind_eq_ok] at ok
      obtain ⟨next, here, rest⟩ := ok
      rcases List.mem_cons.mp mem with rfl | mem
      · unfold seedPort at here
        rw [bound] at here
        simp only [bind_eq_ok] at here
        obtain ⟨source, chosen, x, collected, -⟩ := here
        obtain rfl := Option.some.inj (expect_eq_ok.mp chosen)
        exact collect_available collected
      · exact ih next values' rest q' mem b bound
  intro b initial
  obtain ⟨q, port, bound⟩ := wired.initial b initial
  exact fold _ _ _ ok q port b bound

theorem RowState.holding {row : ScopePath → Option Checkpoint} {v v' : Values} {keys : List String}
    (h : RowState p row found v (some v')) (held : Holding v keys) :
    Holding v' (keys ++ found.flatMap outputKeys) := by
  generalize same : some v' = final at h
  induction h generalizing keys with
  | complete v =>
    cases same
    simpa using held
  | stops absent => cases same
  | @plays i rest k v v₁ final known explained _ ih =>
    have next := ih (held.published (publishes_atomic explained.published)) same
    simpa [List.append_assoc] using next

theorem loopDecision_error {v : Values} {d : Damage} (held : (v.get? (addressKey l.continueSource)).isSome)
    (error : loopDecision l v = .error d) : ∃ value, d = .notBoolean l.scope value := by
  unfold loopDecision at error
  split at error
  · cases error
  · next value _ _ =>
    cases error
    exact ⟨value, rfl⟩
  · next missing =>
    rw [missing] at held
    cases held

end Loop

/-! ## All units -/

/-- The units of a run, in the order of an attempt, over the values it starts from. -/
structure Wired (p : Shared) (units : List RootUnit) (roots : Values) (ordered : List RootUnit) : Prop where
  order : Ordered units p.bindings ordered
  scopes : (units.map RootUnit.scope).Nodup
  keys : ∀ u ∈ units, ∀ w ∈ units, ∀ k ∈ u.keys, k ∈ w.keys → u = w
  fresh : ∀ u ∈ units, ∀ k ∈ u.keys, roots.get? k = none
  sources : ∀ u ∈ units, ∀ b ∈ unitInputBindings p.bindings u, ∀ a ∈ b.sources,
    (roots.get? (addressKey a)).isSome ∨ ∃ w, (unitProducerIndex units).get? (addressKey a) = some w
  atomic : ∀ i, .atomic i ∈ units → Shaped p.bindings i
  loops : ∀ l, .loop l ∈ units → ∃ found, LoopWired p l found

section Units

variable {p : Shared} {units ordered : List RootUnit} {roots : Values}

theorem Wired.mem (h : Wired p units roots ordered) {u : RootUnit} (mem : u ∈ ordered) : u ∈ units :=
  h.order.perm.mem_iff.mp mem

theorem owns_scope {u w : RootUnit} {path : ExecutionPath} (mine : u.Owns path) (theirs : w.Owns path) :
    u.scope = w.scope := by
  cases u with
  | atomic i =>
    cases w with
    | atomic j =>
      obtain rfl : path = ⟨i.scope, []⟩ := mine
      exact congrArg ExecutionPath.scope theirs
    | loop l =>
      obtain ⟨member, -, index, same⟩ := theirs
      obtain rfl : path = ⟨i.scope, []⟩ := mine
      cases congrArg ExecutionPath.iterations same
  | loop l =>
    cases w with
    | atomic j =>
      obtain ⟨member, -, index, same⟩ := mine
      obtain rfl : path = ⟨j.scope, []⟩ := theirs
      cases congrArg ExecutionPath.iterations same
    | loop l' =>
      obtain ⟨member, -, index, rfl⟩ := mine
      obtain ⟨member', -, index', same⟩ := theirs
      have frames := congrArg ExecutionPath.iterations same
      injection frames with frame
      exact congrArg IterationFrame.loop frame

end Units

end Constructicon.Walker
