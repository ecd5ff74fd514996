import Constructicon.JournalSeals
import Constructicon.RunHistory

/-!
# What the writers leave, the readers accept

Completions, effects and acquisitions are each written by few writers; every other
event stands aside of them. The three laws below say what the strict readers
re-derive, and every call keeps them.
-/

namespace Constructicon

open Transaction

/-! ## Events that stand aside -/

/-- The kinds whose events prove a completion or an acquisition. -/
def reservedKinds : List String := ["NodeCompleted", "LeaseAcquired", "LeaseTransition"]

/-- The event proves no completion, no acquisition and no effect. -/
structure EventRow.Aside (e : EventRow) : Prop where
  kind : e.kind ∉ reservedKinds
  key : effectEventKey e = none

section Aside

variable {run : RunId} {seq : ℕ} {path : Option ExecutionPath} {now : Instant}

theorem effectEventKey_of_field {e : EventRow}
    (h : e.payload.bind (Json.field · "idempotency_key") = none) : effectEventKey e = none := by
  simp [effectEventKey, h]

theorem AttemptCause.field_key (c : AttemptCause) :
    (Json.obj c.payload).field "idempotency_key" = none := by
  obtain ⟨kind, id⟩ := c
  cases kind <;> simp [AttemptCause.payload, Json.field, Dict.find]

theorem ParkedUnit.field_key (u : ParkedUnit) : u.dump.field "idempotency_key" = none := by
  simp [ParkedUnit.dump, Json.field, Dict.find]

theorem Turn.aside (t : Turn) : (⟨run, seq, t.kind, path, t.payload, now⟩ : EventRow).Aside := by
  refine ⟨by cases t <;> simp [Turn.kind, reservedKinds], effectEventKey_of_field ?_⟩
  cases t with
  | started inputs cause =>
    cases cause with
    | none => simp [Turn.payload, AttemptCause.entries, Json.field, Dict.find]
    | some c => simpa [Turn.payload, AttemptCause.entries, Json.field, Dict.find] using c.field_key
  | resumed cause =>
    cases cause with
    | none => rfl
    | some c => exact c.field_key
  | _ => simp [Turn.payload, Json.field, Dict.find]

theorem Notice.aside (n : Notice) :
    (⟨run, seq, n.kind, path, n.payload, now⟩ : EventRow).Aside := by
  constructor
  · cases n with
    | blocked loop => cases loop <;> simp [Notice.kind, reservedKinds]
    | unitParked loop => cases loop <;> simp [Notice.kind, reservedKinds]
    | loopIteration restored => cases restored <;> simp [Notice.kind, reservedKinds]
    | loopEnded restored => cases restored <;> simp [Notice.kind, reservedKinds]
    | policyExhausted reobserved => cases reobserved <;> simp [Notice.kind, reservedKinds]
    | _ => simp [Notice.kind, reservedKinds]
  apply effectEventKey_of_field
  cases n with
  | runReclaimed cause =>
    cases cause with
    | none => rfl
    | some c => exact c.field_key
  | unitParked loop p unit => exact unit.field_key
  | policyExhausted reobserved p unit => exact unit.field_key
  | nodeStarted => rfl
  | nodeRestored => rfl
  | _ => simp [Notice.payload, Json.field, Dict.find]

theorem MeteringPhase.aside (phase : MeteringPhase) :
    (⟨run, seq, meteringEvent, path, some (phase.payload run), now⟩ : EventRow).Aside := by
  refine ⟨by simp [reservedKinds, meteringEvent], effectEventKey_of_field ?_⟩
  cases phase <;> simp [MeteringPhase.payload, Json.field, Dict.find]

theorem CapabilityDisposalRecorded.aside (r : CapabilityDisposalRecorded) :
    (⟨run, seq, disposalEvent, path, some r.dump, now⟩ : EventRow).Aside := by
  refine ⟨by simp [reservedKinds, disposalEvent], effectEventKey_of_field ?_⟩
  simp [CapabilityDisposalRecorded.dump, Json.field, Dict.find]

end Aside

/-! ## Completions -/

def completionPayload (inputHash : Digest) : Json := .obj [("input_hash", .str inputHash)]

def completionEvents (events : List EventRow) : List EventRow :=
  events.filter (fun e => e.kind = "NodeCompleted")

def Checkpoint.position (c : Checkpoint) : RunId × ExecutionPath := (c.runId, c.path)

/-- Checkpoints and completion events correspond one to one, in the order written. -/
structure CompletionLaw (w : Wire) (events : List EventRow) (checkpoints : List Checkpoint)
    (seals : List FactSeal) : Prop where
  sealed : SealedBy seals .checkpoint checkpoints (checkpointSeal w) Checkpoint.position
  paired : (completionEvents events).map (fun e => (e.runId, e.path)) =
    checkpoints.map (fun c => (c.runId, some c.path))
  plain : ∀ e ∈ completionEvents events, ∃ hash, e.payload = some (completionPayload hash)

section Completions

variable {w : Wire} {b : Beside} {s s' : Journal} {e : EventRow} {events : List EventRow}
  {checkpoints : List Checkpoint} {seals seals' : List FactSeal} {run : RunId} {path : ExecutionPath}

theorem checkpointSeal_position {c : Checkpoint}
    (h : (checkpointSeal w c).key = checkpointFactKey run path ∨
      (checkpointSeal w c).selector = checkpointPayloadSelector run path) :
    c.position = (run, path) := by
  have same : c.path.dump = path.dump ∧ c.runId = run := by
    rcases h with h | h
    · simpa [checkpointSeal, factSeal, checkpointFactKey, checkpointPosition] using h
    · simpa [checkpointSeal, factSeal, checkpointPayloadSelector, checkpointPosition] using h
  rw [Checkpoint.position, same.2, ExecutionPath.dump_injective same.1]

theorem completionEvents_append (events : List EventRow) (e : EventRow) :
    completionEvents (events ++ [e]) =
      completionEvents events ++ if e.kind = "NodeCompleted" then [e] else [] := by
  by_cases kind : e.kind = "NodeCompleted" <;> simp [completionEvents, kind]

theorem CompletionLaw.empty (w : Wire) : CompletionLaw w [] [] [] :=
  ⟨⟨rfl, List.nodup_nil⟩, rfl, fun e he => by simp [completionEvents] at he⟩

theorem CompletionLaw.aside (hs : CompletionLaw w events checkpoints seals)
    (kind : e.kind ≠ "NodeCompleted")
    (same : seals'.filter (fun x => x.family = .checkpoint) =
      seals.filter (fun x => x.family = .checkpoint)) :
    CompletionLaw w (events ++ [e]) checkpoints seals' := by
  have events' : completionEvents (events ++ [e]) = completionEvents events := by
    rw [completionEvents_append, if_neg kind, List.append_nil]
  exact ⟨hs.sealed.other same, by rw [events', hs.paired], by rw [events']; exact hs.plain⟩

theorem CompletionLaw.complete {c : Checkpoint} (hs : CompletionLaw w events checkpoints seals)
    (fresh : ∀ c' ∈ checkpoints, c'.position ≠ c.position) (kind : e.kind = "NodeCompleted")
    (own : e.runId = c.runId ∧ e.path = some c.path ∧ e.payload = some (completionPayload c.inputHash))
    (inventory : seals'.filter (fun x => x.family = .checkpoint) =
      seals.filter (fun x => x.family = .checkpoint) ++ [checkpointSeal w c]) :
    CompletionLaw w (events ++ [e]) (checkpoints ++ [c]) seals' := by
  have events' : completionEvents (events ++ [e]) = completionEvents events ++ [e] := by
    rw [completionEvents_append, if_pos kind]
  refine ⟨hs.sealed.append fresh inventory, ?_, ?_⟩
  · rw [events', List.map_append, hs.paired, List.map_append, List.map_singleton,
      List.map_singleton, own.1, own.2.1]
  · rw [events']
    intro e' he'
    rcases List.mem_append.mp he' with he' | he'
    · exact hs.plain e' he'
    · rw [List.mem_singleton.mp he']
      exact ⟨c.inputHash, own.2.2⟩

theorem storedCheckpointFor_none (h : storedCheckpointFor w b s run path = .ok none) :
    (∀ c ∈ s.checkpoints, c.position ≠ (run, path)) ∧
      durableFactSeal s.seals .checkpoint (some (checkpointFactKey run path))
        (some (checkpointPayloadSelector run path)) = .ok none := by
  simp only [storedCheckpointFor, bind_eq_ok] at h
  obtain ⟨found, hfound, h⟩ := h
  split at h
  · simp only [bind_eq_ok, require_eq_ok] at h
    obtain ⟨-, rfl, -⟩ := h
    rename_i rows _
    refine ⟨fun c hc same => ?_, hfound⟩
    rw [List.filter_eq_nil_iff] at rows
    have own := Prod.mk.inj same
    exact rows c hc (by simp [own.1, own.2])
  · simp only [bind_eq_ok] at h
    obtain ⟨-, -, -, -, h⟩ := h
    cases h
  · cases h

theorem CompletionLaw.distinct_events (hs : CompletionLaw w events checkpoints seals) :
    ((completionEvents events).map (fun e => (e.runId, e.path))).Nodup := by
  rw [hs.paired]
  have inj : Function.Injective (fun p : RunId × ExecutionPath => (p.1, some p.2)) := by
    rintro ⟨a, p⟩ ⟨a', p'⟩ h
    simpa using h
  have mapped := hs.sealed.distinct.map inj
  simpa [List.map_map, Function.comp_def, Checkpoint.position] using mapped

theorem completionPayload_cause (hash : Digest) :
    AttemptCause.fromPayload (some (completionPayload hash)) = .ok none := by
  simp [AttemptCause.fromPayload, completionPayload, Json.field, Dict.find]

theorem CompletionLaw.stored_event (hs : CompletionLaw w s.events s.checkpoints s.seals)
    (he : EventLaw w s.events s.seals) (hc : e ∈ completionEvents s.events) (b : Beside) :
    storedEventFromRow w b s e = .ok () := by
  have kind : e.kind = "NodeCompleted" := by simpa using (List.mem_filter.mp hc).2
  obtain ⟨hash, payload⟩ := hs.plain e hc
  have read : AttemptCause.fromPayload e.payload = .ok none := by
    rw [payload]
    exact completionPayload_cause hash
  refine he.stored (List.mem_filter.mp hc).1 read rfl ?_ b
  simp [kind, disposalEvent, meteringEvent, EventRow.Lost]

theorem CompletionLaw.stored (hs : CompletionLaw w s.events s.checkpoints s.seals)
    (he : EventLaw w s.events s.seals) (b : Beside) (run : RunId) (path : ExecutionPath) :
    storedCheckpointFor w b s run path =
      .ok (s.checkpoints.find? (fun c => c.runId = run ∧ c.path = path)) := by
  have selected : s.completionsAt run path =
      (completionEvents s.events).filter (fun e => e.runId = run ∧ e.path = some path) := by
    rw [Journal.completionsAt, completionEvents, List.filter_filter]
    apply List.filter_congr
    intro e _
    by_cases kind : e.kind = "NodeCompleted" <;> simp [kind]
  by_cases present : ∃ c ∈ s.checkpoints, c.position = (run, path)
  · obtain ⟨c, hc, same⟩ := present
    obtain ⟨rfl, rfl⟩ := Prod.mk.inj same
    have rows : s.checkpoints.filter (fun c' => c'.runId = c.runId ∧ c'.path = c.path) = [c] := by
      apply Dict.filter_unique hs.sealed.distinct hc (And.intro rfl rfl)
      intro c' _ same
      exact Prod.ext same.1 same.2
    have named : (c.runId, some c.path) ∈ (completionEvents s.events).map (fun e => (e.runId, e.path)) := by
      rw [hs.paired]
      exact List.mem_map.mpr ⟨c, hc, rfl⟩
    obtain ⟨e, hcompleted, position⟩ := List.mem_map.mp named
    obtain ⟨hrun, hpath⟩ := Prod.mk.inj position
    have events : s.completionsAt c.runId c.path = [e] := by
      rw [selected]
      apply Dict.filter_unique hs.distinct_events hcompleted (And.intro hrun hpath)
      intro e' _ same
      rw [same.1, same.2, hrun, hpath]
    have only : ∀ c' ∈ s.checkpoints, (checkpointSeal w c').key = checkpointFactKey c.runId c.path ∨
        (checkpointSeal w c').selector = checkpointPayloadSelector c.runId c.path →
        c'.position = c.position := fun _ _ h => checkpointSeal_position h
    have found := hs.sealed.found hc only
    change durableFactSeal s.seals .checkpoint (some (checkpointFactKey c.runId c.path))
      (some (checkpointPayloadSelector c.runId c.path)) = _ at found
    have required := hs.sealed.required (w := w) hc rfl only
    have first : s.checkpoints.find? (fun c' => c'.runId = c.runId ∧ c'.path = c.path) = some c := by
      rw [← List.head?_filter, rows]
      rfl
    rw [storedCheckpointFor, found, ok_bind, rows, events, first]
    simp only [required, hs.stored_event he hcompleted b, ok_bind]
    rfl
  · have none' : ∀ c ∈ s.checkpoints, c.position ≠ (run, path) :=
      fun c hc same => present ⟨c, hc, same⟩
    have rows : s.checkpoints.filter (fun c => c.runId = run ∧ c.path = path) = [] := by
      rw [List.filter_eq_nil_iff]
      intro c hc same
      have own : c.runId = run ∧ c.path = path := by simpa using same
      exact none' c hc (Prod.ext own.1 own.2)
    have events : s.completionsAt run path = [] := by
      rw [selected, List.filter_eq_nil_iff]
      intro e hcompleted same
      have own : e.runId = run ∧ e.path = some path := by simpa using same
      have named : (run, some path) ∈ s.checkpoints.map (fun c => (c.runId, some c.path)) := by
        rw [← hs.paired, ← own.1, ← own.2]
        exact List.mem_map.mpr ⟨e, hcompleted, rfl⟩
      obtain ⟨c, hc, position⟩ := List.mem_map.mp named
      have both : c.runId = run ∧ c.path = path := by simpa using position
      exact none' c hc (Prod.ext both.1 both.2)
    have absent : durableFactSeal s.seals .checkpoint (some (checkpointFactKey run path))
        (some (checkpointPayloadSelector run path)) = .ok none :=
      hs.sealed.absent fun c hc h => none' c hc (checkpointSeal_position h)
    have first : s.checkpoints.find? (fun c => c.runId = run ∧ c.path = path) = none := by
      rw [← List.head?_filter, rows]
      rfl
    rw [storedCheckpointFor, absent, ok_bind, rows, events, first]
    rfl

theorem CompletionLaw.inventory (hs : CompletionLaw w s.events s.checkpoints s.seals)
    (he : EventLaw w s.events s.seals) (b : Beside) :
    validateCheckpointSealInventory w b s = .ok () := by
  have rows : s.checkpoints.forM (fun c => do
      let _ ← storedCheckpointFor w b s c.runId c.path
      pure ()) = .ok () := by
    apply forM_of
    intro c _
    rw [hs.stored he b]
    rfl
  have proofs : (completionEvents s.events).forM (fun e => do
      storedEventFromRow w b s e
      require (e.path ≠ none) .journalDamaged) = .ok () := by
    apply forM_of
    intro e hc
    have named : (e.runId, e.path) ∈ s.checkpoints.map (fun c => (c.runId, some c.path)) := by
      rw [← hs.paired]
      exact List.mem_map.mpr ⟨e, hc, rfl⟩
    obtain ⟨c, -, position⟩ := List.mem_map.mp named
    have path : e.path ≠ none := by
      rw [← (Prod.mk.inj position).2]
      exact Option.some_ne_none _
    rw [hs.stored_event he hc b, ok_bind]
    exact require_of path
  have nodup := hs.distinct_events
  have paired := hs.paired
  change (do
    s.checkpoints.forM _
    (completionEvents s.events).forM _
    require _ _) = _
  rw [rows, ok_bind, proofs, ok_bind]
  apply require_of
  rw [completionEvents] at nodup paired
  rw [← paired]
  exact ⟨nodup, nodup, fun _ h => h, fun _ h => h⟩

end Completions

/-! ## Effects -/

structure EventRow.Closes (w : Wire) (e : EventRow) (row : EffectRow) (receipt : EffectReceipt) :
    Prop where
  pointer : row.outcome = some (e.runId, e.seq)
  observed : row.receiptedAt = some e.createdAt
  kind : e.kind = effectEventKind receipt.status ∨ e.kind = "EffectReconciled"
  path : e.path = some row.request.path
  payload : ∃ request : EffectRequest, request.canonical = row.request.canonical ∧
    e.payload = some (effectOutcomePayload w request receipt)

def effectEvents (events : List EventRow) (key : Digest) : List EventRow :=
  events.filter (fun e => effectEventKey e = some key)

/-- A prepared effect has no outcome event, a closed one has exactly its own. -/
structure EffectLaw (w : Wire) (events : List EventRow) (effects : Dict Digest EffectRow) :
    Prop where
  keys : effects.keys.Nodup
  named : ∀ entry ∈ effects.entries, entry.2.request.idempotencyKey = entry.1
  prepared : ∀ entry ∈ effects.entries, entry.2.receipt = none →
    entry.2.outcome = none ∧ effectEvents events entry.1 = []
  closed : ∀ entry ∈ effects.entries, ∀ receipt, entry.2.receipt = some receipt →
    ∃ e, effectEvents events entry.1 = [e] ∧ e.Closes w entry.2 receipt

section Effects

variable {w : Wire} {b : Beside} {s s' : Journal} {e : EventRow} {events : List EventRow}
  {effects : Dict Digest EffectRow} {key : Digest} {row : EffectRow} {request : EffectRequest}
  {receipt : EffectReceipt}

theorem EffectLaw.empty (w : Wire) : EffectLaw w [] Dict.empty :=
  ⟨List.nodup_nil, fun e he => by simp at he, fun e he => by simp at he,
    fun e he => by simp at he⟩

theorem effectEvents_append_ne (events : List EventRow) (h : effectEventKey e ≠ some key) :
    effectEvents (events ++ [e]) key = effectEvents events key := by
  simp [effectEvents, h]

theorem effectEvents_append_eq (events : List EventRow) (h : effectEventKey e = some key) :
    effectEvents (events ++ [e]) key = effectEvents events key ++ [e] := by
  simp [effectEvents, h]

theorem EffectLaw.aside (hs : EffectLaw w events effects) (h : effectEventKey e = none) :
    EffectLaw w (events ++ [e]) effects := by
  have same : ∀ key, effectEvents (events ++ [e]) key = effectEvents events key :=
    fun key => effectEvents_append_ne events (by simp [h])
  refine ⟨hs.keys, hs.named, fun entry he open' => ?_, fun entry he receipt closed => ?_⟩
  · rw [same]
    exact hs.prepared entry he open'
  · rw [same]
    exact hs.closed entry he receipt closed

theorem EffectLaw.prepare (hs : EffectLaw w events effects)
    (named : row.request.idempotencyKey = key) (open' : row.receipt = none ∧ row.outcome = none)
    (clear : effectEvents events key = []) : EffectLaw w events (effects.insert key row) := by
  refine ⟨Dict.nodup_insert hs.keys _ _, fun entry he => ?_, fun entry he none' => ?_,
    fun entry he receipt closed => ?_⟩
  · rcases Dict.mem_insert he with rfl | old
    · exact named
    · exact hs.named entry old
  · rcases Dict.mem_insert he with rfl | old
    · exact ⟨open'.2, clear⟩
    · exact hs.prepared entry old none'
  · rcases Dict.mem_insert he with rfl | old
    · rw [open'.1] at closed
      cases closed
    · exact hs.closed entry old receipt closed

theorem EffectLaw.close (hs : EffectLaw w events effects) (named : row.request.idempotencyKey = key)
    (own : effectEventKey e = some key) (closed : row.receipt = some receipt)
    (clear : effectEvents events key = []) (closes : e.Closes w row receipt) :
    EffectLaw w (events ++ [e]) (effects.insert key row) := by
  have distinct := Dict.nodup_insert hs.keys key row
  have other : ∀ entry ∈ (effects.insert key row).entries, entry ≠ (key, row) →
      entry ∈ effects.entries ∧ effectEvents (events ++ [e]) entry.1 = effectEvents events entry.1 := by
    intro entry he hne
    have hkey : key ≠ entry.1 := by
      intro same
      apply hne
      have found := Dict.get?_of_mem distinct he
      rw [← same, Dict.get?_insert_self] at found
      exact Prod.ext same.symm (Option.some.inj found).symm
    refine ⟨(Dict.mem_insert he).resolve_left hne, effectEvents_append_ne events ?_⟩
    rw [own]
    exact fun same => hkey (Option.some.inj same)
  refine ⟨distinct, fun entry he => ?_, fun entry he none' => ?_, fun entry he r hr => ?_⟩
  · rcases Dict.mem_insert he with rfl | old
    · exact named
    · exact hs.named entry old
  · by_cases heq : entry = (key, row)
    · rw [heq, closed] at none'
      cases none'
    · obtain ⟨old, same⟩ := other entry he heq
      rw [same]
      exact hs.prepared entry old none'
  · by_cases heq : entry = (key, row)
    · subst heq
      cases closed.symm.trans hr
      exact ⟨e, by rw [effectEvents_append_eq events own, clear]; rfl, closes⟩
    · obtain ⟨old, same⟩ := other entry he heq
      rw [same]
      exact hs.closed entry old r hr

theorem EffectRequest.dump_canonical {r r' : EffectRequest} (h : r.canonical = r'.canonical) :
    r.dump.canonical = r'.dump.canonical := by
  obtain ⟨run, manifest, path, kind, subject, key, attestation, mode⟩ := r
  obtain ⟨run', manifest', path', kind', subject', key', attestation', mode'⟩ := r'
  simp only [EffectRequest.canonical, EffectRequest.mk.injEq] at h
  obtain ⟨rfl, rfl, rfl, rfl, subject, rfl, rfl, rfl⟩ := h
  simp only [EffectRequest.dump, Json.canonical_obj, List.map_cons, List.map_nil, subject]

theorem effectOutcomePayload_congr {r r' : EffectRequest} (h : r.canonical = r'.canonical)
    (receipt : EffectReceipt) : effectOutcomePayload w r receipt = effectOutcomePayload w r' receipt := by
  have kind : r.canonical.kind = r'.canonical.kind := by rw [h]
  have key : r.canonical.idempotencyKey = r'.canonical.idempotencyKey := by rw [h]
  change r.kind = r'.kind at kind
  change r.idempotencyKey = r'.idempotencyKey at key
  have hash : effectRequestHash w r = effectRequestHash w r' := by
    rw [effectRequestHash, effectRequestHash, Hashing.digest, Hashing.digest,
      EffectRequest.dump_canonical h]
  rw [effectOutcomePayload, effectOutcomePayload, kind, key, hash]

theorem effectOutcomePayload_cause (request : EffectRequest) (receipt : EffectReceipt) :
    AttemptCause.fromPayload (some (effectOutcomePayload w request receipt)) = .ok none := by
  simp [AttemptCause.fromPayload, effectOutcomePayload, Json.field, Dict.find]

theorem effectEventKind_plain {status : ReceiptStatus} {kind : String}
    (allowed : kind = effectEventKind status ∨ kind = "EffectReconciled") :
    kind ∉ reservedKinds ∧ kind ≠ disposalEvent ∧ kind ≠ meteringEvent := by
  rcases allowed with rfl | rfl
  · cases status <;> simp [effectEventKind, reservedKinds, disposalEvent, meteringEvent]
  · simp [reservedKinds, disposalEvent, meteringEvent]

theorem EffectLaw.lifecycle (hs : EffectLaw w s.events s.effects) (he : EventLaw w s.events s.seals)
    (b : Beside) (hrow : (key, row) ∈ s.effects.entries) :
    validateEffectLifecycle w b s row = .ok () := by
  have named : row.request.idempotencyKey = key := hs.named _ hrow
  have rows : s.effectEventRows row.request.idempotencyKey = effectEvents s.events key := by
    rw [named]
    rfl
  cases hr : row.receipt with
  | none =>
    obtain ⟨outcome, clear⟩ := hs.prepared _ hrow hr
    simp only [validateEffectLifecycle, rows, hr]
    rw [clear, outcome]
    rfl
  | some receipt =>
    obtain ⟨e, one, closes⟩ := hs.closed _ hrow receipt hr
    have mem : e ∈ s.events := by
      have listed : e ∈ effectEvents s.events key := by
        rw [one]
        exact List.mem_singleton_self e
      exact (List.mem_filter.mp listed).1
    have at' : s.eventAt e.runId e.seq = some e := by
      have found : s.events.filter (fun e' => e'.runId = e.runId ∧ e'.seq = e.seq) = [e] := by
        apply Dict.filter_unique he.sealed.distinct mem (And.intro rfl rfl)
        exact fun e' _ same => Prod.ext same.1 same.2
      rw [Journal.eventAt, ← List.head?_filter, found]
      rfl
    obtain ⟨request, same, payload⟩ := closes.payload
    obtain ⟨reserved, disposal, metering⟩ := effectEventKind_plain closes.kind
    have stored : storedEventFromRow w b s e = .ok () := by
      have read : AttemptCause.fromPayload e.payload = .ok none := by
        rw [payload]
        exact effectOutcomePayload_cause request receipt
      refine he.stored mem read rfl ?_ b
      have lost : ¬e.Lost := by
        intro lost
        apply reserved
        simp [reservedKinds, lost.1]
      simp [disposal, metering, lost]
    simp only [validateEffectLifecycle, rows, hr]
    have content : e.payload.map Json.canonical =
        some (effectOutcomePayload w row.request receipt).canonical := by
      rw [payload, effectOutcomePayload_congr same]
      rfl
    rw [one, require_of (by simp), ok_bind, closes.pointer, expect_some, ok_bind, closes.observed,
      expect_some, ok_bind, at', expect_some, ok_bind, stored, ok_bind]
    exact require_of ⟨rfl, rfl, rfl, closes.kind, closes.path, rfl, content⟩

end Effects

/-! ## Acquisitions -/

structure LeaseRow.Follows (w : Wire) (row : LeaseRow) (acquired : EventRow)
    (rest : List EventRow) : Prop where
  mine : ∀ e ∈ acquired :: rest, e.runId = row.lease.runId
  kind : acquired.kind = "LeaseAcquired"
  path : acquired.path = none
  created : row.createdAt = acquired.createdAt
  payload : acquired.payload = some (acquiredPayload w row.lease acquired.createdAt)
  replay : rest.foldlM (leaseStep w row.lease) ⟨.active, none, acquired.createdAt⟩ =
    .ok ⟨row.lease.state, row.lease.disposition, row.updatedAt⟩

def leaseChain (events : List EventRow) (key : String × ℕ) : List EventRow :=
  events.filter (fun e => e.OfLease key)

structure LeaseLaw (w : Wire) (events : List EventRow) (leases : Dict (String × ℕ) LeaseRow) :
    Prop where
  keys : leases.keys.Nodup
  named : ∀ entry ∈ leases.entries, entry.2.lease.key = entry.1 ∧ 0 < entry.1.2
  chain : ∀ entry ∈ leases.entries, ∃ acquired rest,
    leaseChain events entry.1 = acquired :: rest ∧ entry.2.Follows w acquired rest

section Acquisitions

variable {w : Wire} {b : Beside} {s s' : Journal} {e : EventRow} {events : List EventRow}
  {leases : Dict (String × ℕ) LeaseRow} {key : String × ℕ} {row : LeaseRow} {now : Instant}
  {target : LeaseState} {disposition : Option Disposition}

theorem LeaseLaw.empty (w : Wire) : LeaseLaw w [] Dict.empty :=
  ⟨List.nodup_nil, fun e he => by simp at he, fun e he => by simp at he⟩

theorem leaseChain_append_ne (events : List EventRow) (h : ¬e.OfLease key) :
    leaseChain (events ++ [e]) key = leaseChain events key := by
  simp [leaseChain, h]

theorem leaseChain_append_eq (events : List EventRow) (h : e.OfLease key) :
    leaseChain (events ++ [e]) key = leaseChain events key ++ [e] := by
  simp [leaseChain, h]

theorem EventRow.not_ofLease (h : e.kind ∉ reservedKinds) (key : String × ℕ) : ¬e.OfLease key := by
  rintro ⟨kind, -⟩
  apply h
  rcases kind with kind | kind <;> simp [kind, reservedKinds]

theorem LeaseLaw.aside (hs : LeaseLaw w events leases) (h : ∀ key, ¬e.OfLease key) :
    LeaseLaw w (events ++ [e]) leases := by
  refine ⟨hs.keys, hs.named, fun entry he => ?_⟩
  rw [leaseChain_append_ne events (h entry.1)]
  exact hs.chain entry he

theorem LeaseLaw.write (hs : LeaseLaw w events leases) (named : row.lease.key = key ∧ 0 < key.2)
    (own : e.OfLease key) {acquired : EventRow} {rest : List EventRow}
    (chain : leaseChain events key ++ [e] = acquired :: rest) (follows : row.Follows w acquired rest) :
    LeaseLaw w (events ++ [e]) (leases.insert key row) := by
  have distinct := Dict.nodup_insert hs.keys key row
  refine ⟨distinct, fun entry he => ?_, fun entry he => ?_⟩
  · rcases Dict.mem_insert he with rfl | old
    · exact named
    · exact hs.named entry old
  · by_cases same : key = entry.1
    · have found := Dict.get?_of_mem distinct he
      rw [← same, Dict.get?_insert_self] at found
      have hrow : row = entry.2 := Option.some.inj found
      refine ⟨acquired, rest, ?_, hrow ▸ follows⟩
      rw [← same, leaseChain_append_eq events own, chain]
    · have old := (Dict.mem_insert he).resolve_left fun heq => same (by rw [heq])
      have other : ¬e.OfLease entry.1 := by
        intro also
        have both := own.2.symm.trans also.2
        exact same (Option.some.inj both)
      rw [leaseChain_append_ne events other]
      exact hs.chain entry old

theorem leaseEventIdentity_acquired (l : CapabilityLease) (positive : 0 < l.acquisitionEpoch)
    (at' : Instant) : leaseEventIdentity (some (acquiredPayload w l at')) = some l.key := by
  simp [leaseEventIdentity, acquiredPayload, Json.field, Dict.find, positive, CapabilityLease.key]

theorem leaseEventIdentity_transition (source : LeaseState) (positive : 0 < key.2) (at' : Instant) :
    leaseEventIdentity (some (transitionPayload w key source target disposition at')) = some key := by
  simp [leaseEventIdentity, transitionPayload, Json.field, Dict.find, positive]

theorem LeaseState.ofText_text (x : LeaseState) : LeaseState.ofText x.text = some x := by
  cases x <;> rfl

theorem Disposition.ofJson_toJson (d : Option Disposition) :
    Disposition.ofJson (Disposition.toJson d) = some d := by
  cases d with
  | none => rfl
  | some d => cases d <;> rfl

theorem leaseStep_transition {lease : CapabilityLease} {standing : LeaseStanding}
    (kind : e.kind = "LeaseTransition") (mine : e.runId = lease.runId) (path : e.path = none)
    (payload : e.payload =
      some (transitionPayload w lease.key standing.state target disposition e.createdAt)) :
    leaseStep w lease standing e = .ok ⟨target, disposition, e.createdAt⟩ := by
  have next : ((transitionPayload w lease.key standing.state target disposition e.createdAt).field
      "to").bind Json.text = some target.text := by
    simp [transitionPayload, Json.field, Dict.find, Json.text]
  have ending : ((transitionPayload w lease.key standing.state target disposition
      e.createdAt).field "disposition").getD .null = Disposition.toJson disposition := by
    simp [transitionPayload, Json.field, Dict.find]
  rw [leaseStep, require_of kind, ok_bind, payload, expect_some, ok_bind, next, Option.bind_some,
    LeaseState.ofText_text, expect_some, ok_bind, ending, Disposition.ofJson_toJson, expect_some,
    ok_bind, require_of ⟨mine, path, rfl⟩]
  rfl

theorem LeaseLaw.acquire {lease : CapabilityLease} (hs : LeaseLaw w events leases)
    (positive : 0 < lease.acquisitionEpoch) (state : lease.state = .active)
    (open' : lease.disposition = none) (clear : leaseChain events lease.key = [])
    (kind : e.kind = "LeaseAcquired") (mine : e.runId = lease.runId) (path : e.path = none)
    (payload : e.payload = some (acquiredPayload w lease e.createdAt)) :
    LeaseLaw w (events ++ [e]) (leases.insert lease.key ⟨lease, e.createdAt, e.createdAt⟩) := by
  have own : e.OfLease lease.key := by
    refine ⟨.inl kind, ?_⟩
    rw [payload, leaseEventIdentity_acquired lease positive]
  have chain : leaseChain events lease.key ++ [e] = e :: [] := by
    rw [clear]
    rfl
  refine hs.write ⟨rfl, positive⟩ own chain ⟨?_, kind, path, rfl, payload, ?_⟩
  · intro e' he'
    rw [List.mem_singleton.mp he']
    exact mine
  · simp [state, open']
    rfl

theorem LeaseLaw.move (hs : LeaseLaw w events leases) (stored : leases.get? key = some row)
    (kind : e.kind = "LeaseTransition") (mine : e.runId = row.lease.runId) (path : e.path = none)
    (payload : e.payload =
      some (transitionPayload w key row.lease.state target disposition e.createdAt)) :
    LeaseLaw w (events ++ [e]) (leases.insert key (row.moved target disposition e.createdAt)) := by
  have mem := Dict.mem_of_get? stored
  have named : row.lease.key = key := (hs.named _ mem).1
  have positive : 0 < key.2 := (hs.named _ mem).2
  obtain ⟨acquired, rest, chain, follows⟩ := hs.chain _ mem
  have own : e.OfLease key := by
    refine ⟨.inr kind, ?_⟩
    rw [payload, leaseEventIdentity_transition row.lease.state positive]
  have longer : leaseChain events key ++ [e] = acquired :: (rest ++ [e]) := by
    rw [chain]
    rfl
  refine hs.write ⟨named, positive⟩ own longer ⟨?_, follows.kind, follows.path, follows.created,
    follows.payload, ?_⟩
  · intro e' he'
    rcases List.mem_append.mp (List.cons_append .. ▸ he') with he' | he'
    · exact follows.mine e' he'
    · rw [List.mem_singleton.mp he']
      exact mine
  · change (rest ++ [e]).foldlM (leaseStep w row.lease) _ = _
    have here : e.payload =
        some (transitionPayload w row.lease.key row.lease.state target disposition e.createdAt) := by
      rw [payload, ← named]
    rw [List.foldlM_append, follows.replay, ok_bind, List.foldlM_cons,
      leaseStep_transition kind mine path here]
    rfl

theorem LeaseLaw.sorted (hs : LeaseLaw w s.events s.leases) (hc : s.Coherent)
    (hrow : (key, row) ∈ s.leases.entries) : s.leaseEvents key = leaseChain s.events key := by
  obtain ⟨acquired, rest, chain, follows⟩ := hs.chain _ hrow
  have mine : ∀ e ∈ leaseChain s.events key, e.runId = row.lease.runId := by
    intro e he
    rw [chain] at he
    exact follows.mine e he
  have part : leaseChain s.events key =
      (s.eventsOf row.lease.runId).filter (fun e => e.OfLease key) := by
    rw [leaseChain, Journal.eventsOf, List.filter_filter]
    apply List.filter_congr
    intro e he
    by_cases own : e.OfLease key
    · simp [own, mine e (List.mem_filter.mpr ⟨he, by simpa using own⟩)]
    · simp [own]
  have increasing : (s.eventsOf row.lease.runId).Pairwise (fun a b => a.seq ≤ b.seq) := by
    have seqs : ((s.eventsOf row.lease.runId).map EventRow.seq).Pairwise (· ≤ ·) := by
      rw [hc.seqs]
      exact List.pairwise_le_range'
    exact List.pairwise_map.mp seqs
  rw [Journal.leaseEvents]
  change (leaseChain s.events key).insertionSort _ = _
  rw [part]
  exact (increasing.filter _).insertionSort_eq

theorem LeaseLaw.history (hs : LeaseLaw w s.events s.leases) (he : EventLaw w s.events s.seals)
    (hc : s.Coherent) (hrow : (key, row) ∈ s.leases.entries) :
    validateCapabilityLeaseHistory w s row = .ok () := by
  have named : row.lease.key = key := (hs.named _ hrow).1
  obtain ⟨acquired, rest, chain, follows⟩ := hs.chain _ hrow
  have read : s.leaseEvents row.lease.key = acquired :: rest := by
    rw [named, hs.sorted hc hrow, chain]
  have rows : (acquired :: rest).forM (fun e => storedEventWithoutRelationship w s e) = .ok () := by
    apply forM_of
    intro e hm
    rw [← chain] at hm
    exact he.row (List.mem_filter.mp hm).1
  rw [validateCapabilityLeaseHistory, read, rows, ok_bind]
  dsimp only
  rw [require_of follows.kind, ok_bind,
    require_of ⟨follows.mine acquired List.mem_cons_self, follows.path, follows.created, by
      rw [follows.payload]
      rfl⟩,
    ok_bind, follows.replay, ok_bind]
  exact require_of ⟨rfl, rfl, rfl⟩

end Acquisitions

/-! ## Whole journals -/

/-- The three laws and the seals, for the tables of one journal. -/
structure Journal.Kept (w : Wire) (s : Journal) : Prop where
  events : EventLaw w s.events s.seals
  completions : CompletionLaw w s.events s.checkpoints s.seals
  effects : EffectLaw w s.events s.effects
  leases : LeaseLaw w s.events s.leases

def Journal.Owned (s : Journal) : Prop :=
  ∀ run row, s.runs.get? run = some row → row.ownerId ≠ none → 0 < row.ownerEpoch

section Journals

variable {w : Wire} {b : Beside} {now : Instant} {s s' : Journal} {call : JournalCall} {e : EventRow}
  {key : String × ℕ} {held : LeaseRow}

theorem Journal.kept_empty (w : Wire) : Journal.empty.Kept w :=
  ⟨EventLaw.empty w, CompletionLaw.empty w, EffectLaw.empty w, LeaseLaw.empty w⟩

theorem Journal.Kept.setRun (hs : s.Kept w) (run : RunId) (row : RunRow) :
    (s.setRun run row).Kept w := ⟨hs.events, hs.completions, hs.effects, hs.leases⟩

theorem Inserted.completionLaw {checkpoints : List Checkpoint} (h : Inserted w b s e s')
    (he : EventLaw w s.events s.seals) (kind : e.kind ≠ "NodeCompleted")
    (hs : CompletionLaw w s.events checkpoints s.seals) :
    CompletionLaw w s'.events checkpoints s'.seals := by
  rw [h.events]
  exact hs.aside kind (h.other_seals he (by simp) (by simp))

theorem Journal.Kept.aside (hs : s.Kept w) (h : Inserted w b s e s') (aside : e.Aside) :
    s'.Kept w := by
  have kind : e.kind ≠ "NodeCompleted" := fun same => aside.kind (by simp [same, reservedKinds])
  refine ⟨h.eventLaw hs.events, ?_, ?_, ?_⟩
  · rw [h.checkpoints]
    exact h.completionLaw hs.events kind hs.completions
  · rw [h.events, h.effects]
    exact hs.effects.aside aside.key
  · rw [h.events, h.leases]
    exact hs.leases.aside (EventRow.not_ofLease aside.kind)

theorem effectEventKey_outcome (run : RunId) (seq : ℕ) (kind : String) (path : Option ExecutionPath)
    (request : EffectRequest) (receipt : EffectReceipt) :
    effectEventKey ⟨run, seq, kind, path, some (effectOutcomePayload w request receipt), now⟩ =
      some request.idempotencyKey := by
  simp [effectEventKey, effectOutcomePayload, Json.field, Dict.find, Json.text]

theorem Journal.Kept.move {run : RunId} {seq : ℕ} {target : LeaseState}
    {disposition : Option Disposition} (hs : s.Kept w) (stored : s.leases.get? key = some held)
    (mine : held.lease.runId = run)
    (h : Inserted w b { s with leases := s.leases.insert key (held.moved target disposition now) }
      ⟨run, seq, "LeaseTransition", none,
        some (transitionPayload w key held.lease.state target disposition now), now⟩ s') :
    s'.Kept w := by
  refine ⟨h.eventLaw hs.events, ?_, ?_, ?_⟩
  · rw [h.checkpoints]
    exact h.completionLaw hs.events (by simp) hs.completions
  · rw [h.events, h.effects]
    refine hs.effects.aside (effectEventKey_of_field ?_)
    simp [transitionPayload, Json.field, Dict.find]
  · rw [h.events, h.leases]
    exact hs.leases.move stored rfl mine.symm rfl rfl

theorem Journal.Kept.dispose {run : RunId} {entries : List ((String × ℕ) × ℕ)} (hs : s.Kept w)
    (h : entries.foldlM (disposeOne w b now run) s = .ok s') : s'.Kept w := by
  refine foldlM_keeps (P := fun s₁ => s₁.Kept w) ?_ h hs
  intro s₁ entry s₂ kept hs₂
  obtain ⟨held, stored, mine, active, -, inserted⟩ := disposeOne_ok hs₂
  have moved : Inserted w b
      { s₁ with leases := s₁.leases.insert entry.1 (held.moved .lost none now) }
      ⟨run, entry.2, "LeaseTransition", none,
        some (transitionPayload w entry.1 held.lease.state .lost none now), now⟩ s₂ := by
    rw [active]
    exact inserted
  exact kept.move stored mine moved

theorem Journal.Kept.complete {c : Checkpoint} {seals : List FactSeal} {seq : ℕ} (hs : s.Kept w)
    (fresh : ∀ c' ∈ s.checkpoints, c'.position ≠ c.position)
    (absent : durableFactSeal s.seals .checkpoint (some (checkpointFactKey c.runId c.path))
      (some (checkpointPayloadSelector c.runId c.path)) = .ok none)
    (sealed : storeDurableFactSeal w s.seals .checkpoint (checkpointFactKey c.runId c.path)
      (checkpointPayloadSelector c.runId c.path) (checkpointFactHash w c) = .ok seals)
    (h : Inserted w b { s with checkpoints := s.checkpoints ++ [c], seals := seals }
      ⟨c.runId, seq, "NodeCompleted", some c.path,
        some (.obj [("input_hash", .str c.inputHash)]), now⟩ s') : s'.Kept w := by
  have appended : seals = s.seals ++ [checkpointSeal w c] :=
    storeDurableFactSeal_absent sealed absent
  have events : EventLaw w s.events seals := by
    rw [appended]
    exact hs.events.alongside (by simp [checkpointSeal, factSeal]) (by simp [checkpointSeal, factSeal])
  refine ⟨h.eventLaw events, ?_, ?_, ?_⟩
  · have inventory : s'.seals.filter (fun x => x.family = .checkpoint) =
        s.seals.filter (fun x => x.family = .checkpoint) ++ [checkpointSeal w c] := by
      rw [h.other_seals events (by simp) (by simp)]
      simp [appended, checkpointSeal, factSeal]
    rw [h.events, h.checkpoints]
    exact hs.completions.complete fresh rfl ⟨rfl, rfl, rfl⟩ inventory
  · rw [h.events, h.effects]
    refine hs.effects.aside (effectEventKey_of_field ?_)
    simp [Json.field, Dict.find]
  · rw [h.events, h.leases]
    apply hs.leases.aside
    rintro key ⟨kind, -⟩
    simp at kind

theorem effectRow_none {key : Digest} (h : effectRow w s key = .ok none) :
    effectEvents s.events key = [] ∧
      durableFactSeal s.seals .effectPreparation (some (.str key)) (some (.str key)) = .ok none := by
  unfold effectRow at h
  split at h
  · simp only [bind_eq_ok, require_eq_ok] at h
    obtain ⟨preparation, read, -, clear, -, rfl, -⟩ := h
    exact ⟨clear, read⟩
  · cases h
  · cases h

theorem effectRow_some {key : Digest} {entry : Digest × EffectRow}
    (h : effectRow w s key = .ok (some entry)) : entry ∈ s.effects.entries := by
  unfold effectRow at h
  split at h
  · simp only [bind_eq_ok] at h
    obtain ⟨-, -, -, -, -, -, h⟩ := h
    cases h
  · cases h
    rename_i rows
    have listed : entry ∈ s.effects.entries.filter
        (fun e => e.1 = key ∨ e.2.request.derivedKey w = key) := by
      rw [rows]
      exact List.mem_singleton_self entry
    exact (List.mem_filter.mp listed).1
  · cases h

theorem Journal.Kept.prepare {key : Digest} {row : EffectRow} {seals : List FactSeal} (hs : s.Kept w)
    (absent : effectRow w s key = .ok none) (named : row.request.idempotencyKey = key)
    (open' : row.receipt = none ∧ row.outcome = none)
    (sealed : storeDurableFactSeal w s.seals .effectPreparation (.str key) (.str key)
      (effectPreparationFactHash w key row) = .ok seals) :
    { s with effects := s.effects.insert key row, seals := seals }.Kept w := by
  obtain ⟨clear, none'⟩ := effectRow_none absent
  have appended : seals = s.seals ++ [effectPreparationSeal w key row] :=
    storeDurableFactSeal_absent sealed none'
  subst appended
  refine ⟨?_, ?_, hs.effects.prepare named open' clear, hs.leases⟩
  · exact hs.events.alongside (by simp [effectPreparationSeal, factSeal])
      (by simp [effectPreparationSeal, factSeal])
  · refine ⟨hs.completions.sealed.other ?_, hs.completions.paired, hs.completions.plain⟩
    exact filter_append_seal s.seals (by simp [effectPreparationSeal, factSeal])

theorem Journal.Kept.close {key : Digest} {row : EffectRow} {run : RunId} {seq : ℕ} {kind : String}
    {request : EffectRequest} {receipt : EffectReceipt} (hs : s.Kept w)
    (mem : (key, row) ∈ s.effects.entries) (open' : row.receipt = none)
    (same : row.request.canonical = request.canonical)
    (allowed : kind = effectEventKind receipt.status ∨ kind = "EffectReconciled")
    (h : Inserted w b { s with effects := s.effects.insert key { row with
        receipt := some receipt, receiptedAt := some now, outcome := some (run, seq) } }
      ⟨run, seq, kind, some request.path, some (effectOutcomePayload w request receipt), now⟩ s') :
    s'.Kept w := by
  have named : row.request.idempotencyKey = key := hs.effects.named _ mem
  have path : row.request.canonical.path = request.canonical.path := by rw [same]
  have keys : row.request.canonical.idempotencyKey = request.canonical.idempotencyKey := by rw [same]
  have own : request.idempotencyKey = key := keys.symm.trans named
  have clear := (hs.effects.prepared _ mem open').2
  obtain ⟨reserved, -, -⟩ := effectEventKind_plain allowed
  refine ⟨h.eventLaw hs.events, ?_, ?_, ?_⟩
  · rw [h.checkpoints]
    refine h.completionLaw hs.events (fun completed => reserved ?_) hs.completions
    change kind = "NodeCompleted" at completed
    simp [completed, reservedKinds]
  · rw [h.events, h.effects]
    refine hs.effects.close named ?_ rfl clear ⟨rfl, rfl, allowed, ?_, request, same.symm, rfl⟩
    · rw [effectEventKey_outcome, own]
    · exact congrArg some path.symm
  · rw [h.events, h.leases]
    exact hs.leases.aside (EventRow.not_ofLease reserved)

theorem Journal.Kept.acquire {lease : CapabilityLease} {seq : ℕ} (hs : s.Kept w)
    (positive : 0 < lease.acquisitionEpoch) (state : lease.state = .active)
    (open' : lease.disposition = none) (absent : capabilityLeaseRow s lease.key = .ok none)
    (h : Inserted w b { s with leases := s.leases.insert lease.key ⟨lease, now, now⟩ }
      ⟨lease.runId, seq, "LeaseAcquired", none, some (acquiredPayload w lease now), now⟩ s') :
    s'.Kept w := by
  refine ⟨h.eventLaw hs.events, ?_, ?_, ?_⟩
  · rw [h.checkpoints]
    exact h.completionLaw hs.events (by simp) hs.completions
  · rw [h.events, h.effects]
    refine hs.effects.aside (effectEventKey_of_field ?_)
    simp [acquiredPayload, Json.field, Dict.find]
  · rw [h.events, h.leases]
    exact hs.leases.acquire positive state open' (capabilityLeaseRow_none absent).2 rfl rfl rfl rfl

theorem Journal.Owned.of_insert {run : RunId} {row' : RunRow} (hs : s.Owned)
    (runs : s'.runs = s.runs.insert run row')
    (own : row'.ownerId ≠ none → 0 < row'.ownerEpoch) : s'.Owned := by
  intro run₀ row hr owner
  rw [runs] at hr
  by_cases same : run = run₀
  · subst same
    rw [Dict.get?_insert_self] at hr
    cases hr
    exact own owner
  · rw [Dict.get?_insert_ne _ _ same] at hr
    exact hs run₀ row hr owner

theorem Journal.Change.owned (hc : s.Change w b now call s') (hs : s.Owned) : s'.Owned := by
  cases hc with
  | none => exact hs
  | create run manifestHash absent => exact hs.of_insert rfl fun owner => absurd rfl owner
  | claim run ownerId ttl seq statuses row found =>
    exact hs.of_insert rfl fun _ => Nat.succ_pos _
  | heartbeat lease ttl row found => exact hs.of_insert rfl (hs _ row found)
  | release lease row found => exact hs.of_insert rfl fun owner => absurd rfl owner
  | cancel run lease row found => exact hs.of_insert rfl (hs _ row found)
  | transition lease expected target kind payload row s' found status held idle inserted =>
    exact hs.of_insert inserted.runs (hs _ row found)
  | append lease kind path payload row s' found running held inserted =>
    exact hs.of_insert inserted.runs (hs _ row found)
  | complete lease checkpoint row seals s' mine absent found running held sealed inserted =>
    exact hs.of_insert inserted.runs (hs _ row found)
  | prepare => exact hs
  | outcome lease request receipt kind row key effect s' mine allowed prepared read same open'
      found running held inserted =>
    exact hs.of_insert inserted.runs (hs _ row found)
  | acquire lease capability row s' mine absent found running held inserted =>
    exact hs.of_insert inserted.runs (hs _ row found)
  | move lease key expected target disposition acquired row s' stored named mine status found
      running held inserted =>
    exact hs.of_insert inserted.runs (hs _ row found)
  | meter lease key phase acquired row s' stored found running held inserted =>
    exact hs.of_insert inserted.runs (hs _ row found)
  | dispose commandId plan row s₁ s' found running idle fence nodup lost inserted =>
    exact hs.of_insert (inserted.runs.trans (dispose_runs lost)) (hs _ row found)

theorem Journal.Change.kept (hc : s.Change w b now call s') (made : call.Made) (owned : s.Owned)
    (hs : s.Kept w) : s'.Kept w := by
  cases hc with
  | none => exact hs
  | create run manifestHash => exact hs.setRun _ _
  | claim run ownerId ttl seq statuses row => exact hs.setRun _ _
  | heartbeat lease ttl row => exact hs.setRun _ _
  | release lease row => exact hs.setRun _ _
  | cancel run lease row => exact hs.setRun _ _
  | transition lease expected target kind payload row s' found status held idle inserted =>
    cases made with
    | turn _ t => exact (hs.setRun _ _).aside inserted t.aside
  | append lease kind path payload row s' found running held inserted =>
    cases made with
    | notice _ n => exact (hs.setRun _ _).aside inserted n.aside
  | complete lease checkpoint row seals s' mine absent found running held sealed inserted =>
    obtain ⟨fresh, none'⟩ := storedCheckpointFor_none absent
    exact (hs.setRun lease.runId row.allocated).complete fresh none' sealed inserted
  | prepare lease request row seals mine found held manifest absent sealed =>
    exact hs.prepare absent rfl ⟨rfl, rfl⟩ sealed
  | outcome lease request receipt kind row key effect s' mine allowed prepared read same open'
      found running held inserted =>
    exact (hs.setRun lease.runId row.allocated).close (effectRow_some prepared) open' same allowed
      inserted
  | acquire lease capability row s' mine absent found running held inserted =>
    obtain ⟨run, epoch, -, state, undisposed⟩ := mine
    have positive : 0 < capability.acquisitionEpoch := by
      rw [epoch, ← held.2]
      exact owned _ row found (by simp [held.1])
    have base := hs.setRun lease.runId row.allocated
    rw [← run] at inserted base
    exact base.acquire positive state undisposed absent inserted
  | move lease key expected target disposition acquired row s' stored named mine status found
      running held inserted =>
    exact (hs.setRun lease.runId row.allocated).move stored mine inserted
  | meter lease key phase acquired row s' stored found running held inserted =>
    exact (hs.setRun _ _).aside inserted phase.aside
  | dispose commandId plan row s₁ s' found running idle fence nodup lost inserted =>
    exact ((hs.setRun _ _).dispose lost).aside inserted (plan.receipt commandId).aside

theorem Journal.Reachable.kept (h : s.Reachable w) : s.Owned ∧ s.Kept w := by
  refine Reaches.invariant (I := fun s => s.Owned ∧ s.Kept w) ?_ h ⟨?_, Journal.kept_empty w⟩
  · intro s c hs
    have change := s.step_change w c.beside c.now c.call
    exact ⟨change.owned hs.1, change.kept c.made hs.1 hs.2⟩
  · exact fun run row hr => by simp [Journal.empty] at hr

theorem dispose_checkpoints {run : RunId} {entries : List ((String × ℕ) × ℕ)}
    (h : entries.foldlM (disposeOne w b now run) s = .ok s') : s'.checkpoints = s.checkpoints :=
  foldlM_keeps (P := fun s₁ => s₁.checkpoints = s.checkpoints)
    (fun _ _ _ same hs₁ => by
      obtain ⟨held, -, -, -, -, inserted⟩ := disposeOne_ok hs₁
      exact inserted.checkpoints.trans same) h rfl

theorem Journal.Change.checkpoints (hc : s.Change w b now call s') :
    ∃ more, s'.checkpoints = s.checkpoints ++ more := by
  have same : s'.checkpoints = s.checkpoints → ∃ more, s'.checkpoints = s.checkpoints ++ more :=
    fun equal => ⟨[], by rw [equal, List.append_nil]⟩
  cases hc with
  | complete lease checkpoint row seals s' mine absent found running held sealed inserted =>
    exact ⟨[checkpoint], inserted.checkpoints⟩
  | transition lease expected target kind payload row s' found status held idle inserted =>
    exact same inserted.checkpoints
  | append lease kind path payload row s' found running held inserted =>
    exact same inserted.checkpoints
  | outcome lease request receipt kind row key effect s' mine allowed prepared read same' open'
      found running held inserted =>
    exact same inserted.checkpoints
  | acquire lease capability row s' mine absent found running held inserted =>
    exact same inserted.checkpoints
  | move lease key expected target disposition acquired row s' stored named mine status found
      running held inserted =>
    exact same inserted.checkpoints
  | meter lease key phase acquired row s' stored found running held inserted =>
    exact same inserted.checkpoints
  | dispose commandId plan row s₁ s' found running idle fence nodup lost inserted =>
    have kept := dispose_checkpoints lost
    exact same (inserted.checkpoints.trans kept)
  | _ => exact same rfl

theorem Journal.checkpoints_of_reaches
    (h : Reaches (fun s (c : MadeCall) => s.step w c.beside c.now c.call) s s') :
    ∃ more, s'.checkpoints = s.checkpoints ++ more := by
  let Grows := fun s s' : Journal => ∃ more, s'.checkpoints = s.checkpoints ++ more
  refine Reaches.relates (I := fun _ => True) (R := Grows) (fun s => ⟨[], by simp⟩) ?_
    (fun _ _ _ => trivial) (fun s c _ => (s.step_change w c.beside c.now c.call).checkpoints) h
    trivial
  rintro a b c ⟨more, hb⟩ ⟨more', hc⟩
  exact ⟨more ++ more', by rw [hc, hb, List.append_assoc]⟩

/-- Every journal the program reaches is readable: effects, acquisitions, checkpoints
and their inventory, whatever the other tables answer. Checkpoints stand one to one
with completion events, and none changes later. -/
theorem readers_accept (w : Wire) (s : Journal) (h : s.Reachable w) :
    (∀ b, ∀ entry ∈ s.effects.entries, validateEffectLifecycle w b s entry.2 = .ok ()) ∧
    (∀ entry ∈ s.leases.entries, validateCapabilityLeaseHistory w s entry.2 = .ok ()) ∧
    (∀ b run path, storedCheckpointFor w b s run path =
      .ok (s.checkpoints.find? (fun c => c.runId = run ∧ c.path = path))) ∧
    (∀ b, validateCheckpointSealInventory w b s = .ok ()) ∧
    (s.checkpoints.map (fun c => (c.runId, some c.path))).Nodup ∧
    (s.events.filter (fun e => e.kind = "NodeCompleted")).map (fun e => (e.runId, e.path)) =
      s.checkpoints.map (fun c => (c.runId, some c.path)) ∧
    (∀ s', Reaches (fun s (c : MadeCall) => s.step w c.beside c.now c.call) s s' →
      ∃ more, s'.checkpoints = s.checkpoints ++ more) := by
  obtain ⟨-, kept⟩ := h.kept
  refine ⟨?_, ?_, ?_, ?_, ?_, ?_, ?_⟩
  · exact fun b entry he => kept.effects.lifecycle kept.events b he
  · exact fun entry he => kept.leases.history kept.events h.coherent he
  · exact fun b run path => kept.completions.stored kept.events b run path
  · exact fun b => kept.completions.inventory kept.events b
  · rw [← kept.completions.paired]
    exact kept.completions.distinct_events
  · exact kept.completions.paired
  · exact fun s' later => Journal.checkpoints_of_reaches later

end Journals

theorem finished_readable :
    finished.checkpoints = [firstCompletion] ∧
      validateCheckpointSealInventory plainWire calm finished = .ok () :=
  ⟨by decide, (readers_accept plainWire finished ⟨finishing, rfl⟩).2.2.2.1 calm⟩

end Constructicon
