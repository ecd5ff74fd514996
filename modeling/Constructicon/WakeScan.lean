import Constructicon.RunHost
import Constructicon.Library.Transaction

/-!
# The scan of answered waits

The pump reads the parked runs in pages up to a cut that persists across its ticks, and
launches those whose request has a reply. `parked_waits` reads the runs table twice: the
second read drops the candidates another host advanced in between, and the scan takes a
page that became short for the last one.
-/

namespace Constructicon

open Transaction

/-- A run with its latest parking event, as `parked_waits` projects it. -/
structure WaitRow where
  runId : RunId
  status : RunStatus
  eventSeq : ℕ
  requests : List Digest
deriving DecidableEq

structure WaitTable where
  rows : List WaitRow
  distinct : (rows.map WaitRow.runId).Nodup

def WaitTable.parked (table : WaitTable) : List WaitRow :=
  table.rows.filter (fun w => w.status = .parked)

def WaitTable.current (table : WaitTable) (run : RunId) : Option (RunStatus × ℕ) :=
  (table.rows.find? (fun w => w.runId = run)).map (fun w => (w.status, w.eventSeq))

structure PageReads where
  first : WaitTable
  second : WaitTable
  answered : Digest → Option Digest

/-- The scan's cut and cursor, with what it read, examined and launched since the cut opened. -/
structure Scan where
  through : Option (String ×ₗ String)
  after : Option (String ×ₗ String)
  reads : List PageReads
  examined : List RunId
  launched : List (RunId × ℕ × Digest)

def Scan.idle : Scan := ⟨none, none, [], [], []⟩

structure ClosedCut where
  through : String ×ₗ String
  reads : List PageReads
  examined : List RunId
  launched : List (RunId × ℕ × Digest)

section Scan

variable (cfg : HostConfig)

def HostConfig.waitKey (w : WaitRow) : String ×ₗ String := toLex (cfg.created w.runId, w.runId)

/-- `latest_run_key` of the parked runs. -/
def WaitTable.latestKey (table : WaitTable) : Option (String ×ₗ String) :=
  (table.parked.map cfg.waitKey).max?

def WaitTable.candidates (table : WaitTable) (after : Option (String ×ₗ String))
    (through : String ×ₗ String) : List WaitRow :=
  Keyset.page cfg.waitKey table.parked after through cfg.recoveryPageSize

/-- `parked_waits`; a run that disappeared is damage. -/
def parkedWaits (r : PageReads) (after : Option (String ×ₗ String)) (through : String ×ₗ String) :
    Option (List WaitRow) :=
  let waits := r.first.candidates cfg after through
  if ∀ w ∈ waits, (r.second.current w.runId).isSome then
    some (waits.filter (fun w => r.second.current w.runId = some (.parked, w.eventSeq)))
  else none

/-- One wait of the page: the cursor moves before anything is launched. -/
def Scan.visit (answered : Digest → Option Digest) (scan : Scan) (w : WaitRow) : Scan :=
  { scan with
    after := some (cfg.waitKey w)
    examined := scan.examined ++ [w.runId]
    launched :=
      match w.requests.findSome? answered with
      | none => scan.launched
      | some reply => scan.launched ++ [(w.runId, w.eventSeq, reply)] }

def Scan.page (through : String ×ₗ String) (r : PageReads) (scan : Scan) : Option (Scan × Bool) :=
  match parkedWaits cfg r scan.after through with
  | none => none
  | some waits =>
    let next := waits.foldl (Scan.visit cfg r.answered) { scan with reads := scan.reads ++ [r] }
    some (next, waits.length < cfg.recoveryPageSize ∨ ∃ a ∈ next.after, through ≤ a)

/-- The pages of one tick. A read that fails ends it, and so does the end of `reads`. -/
def Scan.pages (through : String ×ₗ String) : ℕ → List PageReads → Scan → Scan × Option ClosedCut
  | n + 1, r :: reads, scan =>
    match scan.page cfg through r with
    | none => (scan, none)
    | some (next, true) => (.idle, some ⟨through, next.reads, next.examined, next.launched⟩)
    | some (next, false) => pages through n reads next
  | _, _, scan => (scan, none)

def Scan.opened (opening : WaitTable) (scan : Scan) : Scan :=
  if scan.through = none then { Scan.idle with through := opening.latestKey cfg } else scan

/-- `_scan_answered_waits` -/
def Scan.tick (pagesPerTick : ℕ) (opening : WaitTable) (reads : List PageReads) (scan : Scan) :
    Scan × Option ClosedCut :=
  match (scan.opened cfg opening).through with
  | none => (scan.opened cfg opening, none)
  | some through => (scan.opened cfg opening).pages cfg through pagesPerTick reads

structure Wake where
  scan : Scan
  closed : List ClosedCut

inductive WakeEvent where
  | tick (opening : WaitTable) (reads : List PageReads)
  /-- `_abandon_local_state` -/
  | abandon

def Wake.step (pagesPerTick : ℕ) (w : Wake) : WakeEvent → Wake
  | .tick opening reads =>
    let ticked := w.scan.tick cfg pagesPerTick opening reads
    ⟨ticked.1, w.closed ++ ticked.2.toList⟩
  | .abandon => { w with scan := .idle }

/-- No page of the tick that leaves candidates behind it loses one to the second read. -/
def Scan.Steady (through : String ×ₗ String) : ℕ → List PageReads → Scan → Prop
  | n + 1, r :: reads, scan =>
    ((r.first.candidates cfg scan.after through).length <
        (Keyset.window cfg.waitKey r.first.parked scan.after through).length →
      ∀ w ∈ r.first.candidates cfg scan.after through,
        r.second.current w.runId = some (.parked, w.eventSeq)) ∧
    ∀ next, scan.page cfg through r = some (next, false) → Steady through n reads next
  | _, _, _ => True

def Wake.Steady (pagesPerTick : ℕ) (w : Wake) : WakeEvent → Prop
  | .tick opening reads => ∀ through ∈ (w.scan.opened cfg opening).through,
      (w.scan.opened cfg opening).Steady cfg through pagesPerTick reads
  | .abandon => True

end Scan

/-! ## Coverage -/

section Covered

variable {cfg : HostConfig} {scan next : Scan} {through : String ×ₗ String} {r : PageReads}

def WaitRow.Stays (w : WaitRow) (reads : List PageReads) : Prop :=
  w.status = .parked ∧ ∀ r ∈ reads, w ∈ r.first.rows ∧ w ∈ r.second.rows

def WaitRow.Answered (w : WaitRow) (reads : List PageReads) : Prop :=
  ∃ request ∈ w.requests, ∀ r ∈ reads, r.answered request ≠ none

def WaitRow.Seen (w : WaitRow) (reads : List PageReads) (examined : List RunId)
    (launched : List (RunId × ℕ × Digest)) : Prop :=
  w.runId ∈ examined ∧
    (w.Answered reads → ∃ reply, (w.runId, w.eventSeq, reply) ∈ launched)

def ClosedCut.Covered (cfg : HostConfig) (c : ClosedCut) : Prop :=
  ∀ w : WaitRow, cfg.waitKey w ≤ c.through → w.Stays c.reads →
    w.Seen c.reads c.examined c.launched

def Scan.Behind (cfg : HostConfig) (scan : Scan) : Prop :=
  ∀ w : WaitRow, ∀ a ∈ scan.after, cfg.waitKey w ≤ a → w.Stays scan.reads →
    w.Seen scan.reads scan.examined scan.launched

theorem WaitTable.current_of_mem {table : WaitTable} {w : WaitRow} (hw : w ∈ table.rows) :
    table.current w.runId = some (w.status, w.eventSeq) := by
  unfold WaitTable.current
  have found : table.rows.find? (fun x => x.runId = w.runId) = some w := by
    rw [List.find?_eq_some_iff_append]
    refine ⟨by simp, ?_⟩
    obtain ⟨before, after, split⟩ := List.append_of_mem hw
    refine ⟨before, after, split, ?_⟩
    intro x hx
    have distinct := table.distinct
    rw [split, List.map_append, List.nodup_append] at distinct
    have ne := distinct.2.2 x.runId (List.mem_map_of_mem hx) w.runId (by simp)
    simpa using ne
  rw [found]
  rfl

theorem Scan.visits (cfg : HostConfig) (answered : Digest → Option Digest) (waits : List WaitRow) (scan : Scan) :
    (waits.foldl (Scan.visit cfg answered) scan).through = scan.through ∧
      (waits.foldl (Scan.visit cfg answered) scan).reads = scan.reads ∧
      (waits.foldl (Scan.visit cfg answered) scan).after =
        ((waits.getLast?.map cfg.waitKey).or scan.after) ∧
      (∀ run, run ∈ scan.examined ∨ (∃ w ∈ waits, w.runId = run) →
        run ∈ (waits.foldl (Scan.visit cfg answered) scan).examined) ∧
      (∀ x ∈ scan.launched, x ∈ (waits.foldl (Scan.visit cfg answered) scan).launched) ∧
      ∀ w ∈ waits, ∀ reply, w.requests.findSome? answered = some reply →
        (w.runId, w.eventSeq, reply) ∈ (waits.foldl (Scan.visit cfg answered) scan).launched := by
  induction waits generalizing scan with
  | nil => simp
  | cons w waits ih =>
    obtain ⟨through, reads, after, examined, launched, replied⟩ := ih (scan.visit cfg answered w)
    have kept : ∀ x ∈ scan.launched, x ∈ (scan.visit cfg answered w).launched := by
      intro x hx
      simp only [Scan.visit]
      split
      · exact hx
      · exact List.mem_append_left _ hx
    rw [List.foldl_cons]
    refine ⟨through, reads, ?_, ?_, fun x hx => launched x (kept x hx), ?_⟩
    · rw [after]
      cases waits with
      | nil => rfl
      | cons w' waits => simp [List.getLast?_cons]
    · rintro run (old | ⟨w', mem, same⟩)
      · exact examined run (.inl (List.mem_append_left _ old))
      · rcases List.mem_cons.mp mem with rfl | mem
        · apply examined run
          left
          rw [← same]
          exact List.mem_append_right _ (List.mem_singleton_self _)
        · exact examined run (.inr ⟨w', mem, same⟩)
    · intro w' mem reply found
      rcases List.mem_cons.mp mem with rfl | mem
      · apply launched
        simp only [Scan.visit, found]
        exact List.mem_append_right _ (List.mem_singleton_self _)
      · exact replied w' mem reply found

theorem WaitRow.Answered.of_append {w : WaitRow} {reads more : List PageReads}
    (answered : w.Answered (reads ++ more)) : w.Answered reads := by
  obtain ⟨request, mem, all⟩ := answered
  exact ⟨request, mem, fun r hr => all r (List.mem_append_left _ hr)⟩

theorem WaitTable.mem_parked {table : WaitTable} {w : WaitRow} :
    w ∈ table.parked ↔ w ∈ table.rows ∧ w.status = .parked := by
  simp [WaitTable.parked]

theorem HostConfig.waitKey_runId {w x : WaitRow} (same : cfg.waitKey w = cfg.waitKey x) :
    w.runId = x.runId :=
  congrArg Prod.snd (toLex_inj.mp same)

section Page

variable {waits : List WaitRow} (read : parkedWaits cfg r scan.after through = some waits)
  (turned : next = waits.foldl (Scan.visit cfg r.answered) { scan with reads := scan.reads ++ [r] })

include read

theorem mem_waits {w : WaitRow} : w ∈ waits ↔ w ∈ r.first.candidates cfg scan.after through ∧
    r.second.current w.runId = some (.parked, w.eventSeq) := by
  unfold parkedWaits at read
  dsimp only at read
  split_ifs at read
  cases read
  simp

include turned

theorem Scan.candidate_seen {w : WaitRow} (hw : w ∈ r.first.candidates cfg scan.after through)
    (stays : w.Stays next.reads) : w.Seen next.reads next.examined next.launched := by
  obtain ⟨-, reads, -, examined, -, replied⟩ :=
    Scan.visits cfg r.answered waits { scan with reads := scan.reads ++ [r] }
  rw [← turned] at reads examined replied
  have own : r ∈ next.reads := by
    rw [reads]
    exact List.mem_append_right _ (List.mem_singleton_self _)
  have fence : r.second.current w.runId = some (.parked, w.eventSeq) := by
    rw [WaitTable.current_of_mem (stays.2 r own).2, stays.1]
  have kept : w ∈ waits := (mem_waits read).mpr ⟨hw, fence⟩
  refine ⟨examined w.runId (.inr ⟨w, kept, rfl⟩), ?_⟩
  rintro ⟨request, mem, answered⟩
  have found : w.requests.findSome? r.answered ≠ none := by
    intro none
    exact answered r own (List.findSome?_eq_none_iff.mp none request mem)
  obtain ⟨reply, found⟩ := Option.ne_none_iff_exists'.mp found
  exact ⟨reply, replied w kept reply found⟩

omit read in
theorem Scan.seen_before (behind : scan.Behind cfg) {w : WaitRow} {a : String ×ₗ String}
    (ha : a ∈ scan.after) (le : cfg.waitKey w ≤ a) (stays : w.Stays next.reads) :
    w.Seen next.reads next.examined next.launched := by
  obtain ⟨-, reads, -, examined, launched, -⟩ :=
    Scan.visits cfg r.answered waits { scan with reads := scan.reads ++ [r] }
  rw [← turned] at reads examined launched
  change next.reads = scan.reads ++ [r] at reads
  have earlier : w.Stays scan.reads := by
    refine ⟨stays.1, fun x hx => stays.2 x ?_⟩
    rw [reads]
    exact List.mem_append_left _ hx
  obtain ⟨seen, replied⟩ := behind w a ha le earlier
  refine ⟨examined w.runId (.inl seen), ?_⟩
  intro answered
  rw [reads] at answered
  obtain ⟨reply, mem⟩ := replied answered.of_append
  exact ⟨reply, launched _ mem⟩

theorem Scan.candidate_of_le_last {w last : WaitRow} (hl : waits.getLast? = some last)
    (beyond : Keyset.Beyond scan.after (cfg.waitKey w)) (le : cfg.waitKey w ≤ cfg.waitKey last)
    (stays : w.Stays next.reads) : w ∈ r.first.candidates cfg scan.after through := by
  have lastWait : last ∈ waits := List.mem_of_getLast? hl
  have hlast := ((mem_waits read).mp lastWait).1
  have lastWindow := Keyset.mem_window.mp (Keyset.window_of_mem_page hlast)
  have own : r ∈ next.reads := by
    have visits := Scan.visits cfg r.answered waits { scan with reads := scan.reads ++ [r] }
    rw [turned, visits.2.1]
    exact List.mem_append_right _ (List.mem_singleton_self _)
  have row := (stays.2 r own).1
  have mem : w ∈ Keyset.window cfg.waitKey r.first.parked scan.after through :=
    Keyset.mem_window.mpr ⟨WaitTable.mem_parked.mpr ⟨row, stays.1⟩, beyond, le.trans lastWindow.2.2⟩
  by_contra out
  have ge := Keyset.page_le_of_not_mem mem out hlast
  have same : w.runId = last.runId := HostConfig.waitKey_runId (le_antisymm le ge)
  have lastRow := (WaitTable.mem_parked.mp lastWindow.1).1
  have equal : w = last := Dict.eq_of_nodup_map r.first.distinct row lastRow same
  exact out (equal ▸ hlast)

theorem Scan.Behind.page (behind : scan.Behind cfg) : next.Behind cfg := by
  intro w a ha le stays
  by_cases before : ∃ b ∈ scan.after, cfg.waitKey w ≤ b
  · obtain ⟨b, hb, le⟩ := before
    exact Scan.seen_before turned behind hb le stays
  have beyond : Keyset.Beyond scan.after (cfg.waitKey w) := by
    intro b hb
    exact not_le.mp fun le => before ⟨b, hb, le⟩
  have visits := Scan.visits cfg r.answered waits { scan with reads := scan.reads ++ [r] }
  rw [turned, visits.2.2.1] at ha
  cases hl : waits.getLast? with
  | none =>
    rw [hl] at ha
    exact absurd ⟨a, ha, le⟩ before
  | some last =>
    rw [hl] at ha
    cases ha
    have candidate := Scan.candidate_of_le_last read turned hl beyond le stays
    exact Scan.candidate_seen read turned candidate stays

theorem Scan.Behind.close (behind : scan.Behind cfg)
    (steady : (r.first.candidates cfg scan.after through).length <
        (Keyset.window cfg.waitKey r.first.parked scan.after through).length →
      ∀ w ∈ r.first.candidates cfg scan.after through,
        r.second.current w.runId = some (.parked, w.eventSeq))
    (closes : waits.length < cfg.recoveryPageSize ∨ ∃ a ∈ next.after, through ≤ a) :
    ClosedCut.Covered cfg ⟨through, next.reads, next.examined, next.launched⟩ := by
  intro w le stays
  change cfg.waitKey w ≤ through at le
  change w.Stays next.reads at stays
  rcases closes with short | ⟨a, ha, past⟩
  · by_cases before : ∃ b ∈ scan.after, cfg.waitKey w ≤ b
    · obtain ⟨b, hb, le⟩ := before
      exact Scan.seen_before turned behind hb le stays
    have beyond : Keyset.Beyond scan.after (cfg.waitKey w) := by
      intro b hb
      exact not_le.mp fun le => before ⟨b, hb, le⟩
    have own : r ∈ next.reads := by
      have visits := Scan.visits cfg r.answered waits
        { scan with reads := scan.reads ++ [r] }
      rw [turned, visits.2.1]
      exact List.mem_append_right _ (List.mem_singleton_self _)
    have mem : w ∈ Keyset.window cfg.waitKey r.first.parked scan.after through :=
      Keyset.mem_window.mpr
        ⟨WaitTable.mem_parked.mpr ⟨(stays.2 r own).1, stays.1⟩, beyond, le⟩
    -- a short page of waits had all the candidates there were
    have whole : (Keyset.window cfg.waitKey r.first.parked scan.after through).length ≤
        (r.first.candidates cfg scan.after through).length := by
      by_contra more
      have all := steady (not_le.mp more)
      have length : (r.first.candidates cfg scan.after through).length = cfg.recoveryPageSize := by
        unfold WaitTable.candidates at more ⊢
        rw [Keyset.length_page] at more ⊢
        omega
      have same : waits = r.first.candidates cfg scan.after through := by
        unfold parkedWaits at read
        dsimp only at read
        split_ifs at read
        rw [← Option.some.inj read, List.filter_eq_self]
        exact fun x hx => by simpa using all x hx
      rw [same, length] at short
      omega
    exact Scan.candidate_seen read turned (Keyset.mem_page_of_whole whole mem) stays
  · exact behind.page read turned w a ha (le.trans past) stays

end Page

theorem Scan.behind_of_fresh (fresh : scan.after = none) : scan.Behind cfg := by
  intro w a ha
  rw [fresh] at ha
  cases ha

theorem Scan.Behind.pages (n : ℕ) (reads : List PageReads) (behind : scan.Behind cfg)
    (steady : scan.Steady cfg through n reads) :
    (scan.pages cfg through n reads).1.Behind cfg ∧
      ∀ c ∈ (scan.pages cfg through n reads).2, c.Covered cfg := by
  induction n generalizing scan reads with
  | zero => exact ⟨by simpa [Scan.pages] using behind, by simp [Scan.pages]⟩
  | succ n ih =>
    cases reads with
    | nil => exact ⟨by simpa [Scan.pages] using behind, by simp [Scan.pages]⟩
    | cons r reads =>
      obtain ⟨kept, later⟩ := steady
      unfold Scan.pages
      cases hp : scan.page cfg through r with
      | none => exact ⟨behind, by simp⟩
      | some turned =>
        obtain ⟨next, closes⟩ := turned
        have paged := hp
        unfold Scan.page at paged
        cases hr : parkedWaits cfg r scan.after through with
        | none =>
          rw [hr] at paged
          cases paged
        | some waits =>
          rw [hr] at paged
          obtain ⟨turned, decided⟩ := Prod.mk.injEq .. ▸ Option.some.inj paged
          cases closes with
          | true =>
            refine ⟨Scan.behind_of_fresh rfl, ?_⟩
            rintro c hc
            cases hc
            apply behind.close hr turned.symm kept
            rw [← turned]
            exact of_decide_eq_true decided
          | false => exact ih reads (behind.page hr turned.symm) (later next hp)

theorem Wake.covered_step (pagesPerTick : ℕ) (w : Wake) (event : WakeEvent)
    (steady : w.Steady cfg pagesPerTick event)
    (hw : w.scan.Behind cfg ∧ ∀ c ∈ w.closed, c.Covered cfg) :
    (w.step cfg pagesPerTick event).scan.Behind cfg ∧
      ∀ c ∈ (w.step cfg pagesPerTick event).closed, c.Covered cfg := by
  cases event with
  | abandon => exact ⟨Scan.behind_of_fresh rfl, hw.2⟩
  | tick opening reads =>
    have ticked : (w.scan.tick cfg pagesPerTick opening reads).1.Behind cfg ∧
        ∀ c ∈ (w.scan.tick cfg pagesPerTick opening reads).2, c.Covered cfg := by
      have behind : (w.scan.opened cfg opening).Behind cfg := by
        unfold Scan.opened
        split_ifs
        · exact Scan.behind_of_fresh rfl
        · exact hw.1
      unfold Scan.tick
      cases ht : (w.scan.opened cfg opening).through with
      | none => exact ⟨behind, by simp⟩
      | some through => exact behind.pages pagesPerTick reads (steady through ht)
    refine ⟨ticked.1, ?_⟩
    intro c hc
    rcases List.mem_append.mp hc with old | new
    · exact hw.2 c old
    · exact ticked.2 c (Option.mem_toList.mp new)

end Covered

/-- In every history whose pages lose no candidate while more are left, a closed cut has
examined every run that stayed parked below it, and launched the answered ones. -/
theorem closed_cut_covers (cfg : HostConfig) (pagesPerTick : ℕ) {w : Wake}
    (history : Guarded (Wake.Steady cfg pagesPerTick) (Wake.step cfg pagesPerTick) ⟨.idle, []⟩ w) :
    ∀ c ∈ w.closed, ∀ row : WaitRow, cfg.waitKey row ≤ c.through → row.Stays c.reads →
      row.runId ∈ c.examined ∧
        (row.Answered c.reads → ∃ reply, (row.runId, row.eventSeq, reply) ∈ c.launched) := by
  have covered : w.scan.Behind cfg ∧ ∀ c ∈ w.closed, c.Covered cfg :=
    history.invariant (I := fun w => w.scan.Behind cfg ∧ ∀ c ∈ w.closed, c.Covered cfg)
      (Wake.covered_step pagesPerTick) ⟨Scan.behind_of_fresh rfl, by simp⟩
  exact fun c hc row le stays => covered.2 c hc row le stays

section ShortPage

def threeParked : WaitTable :=
  ⟨[⟨"a", .parked, 1, []⟩, ⟨"b", .parked, 1, []⟩, ⟨"c", .parked, 1, ["q"]⟩], by decide⟩

def firstResumed : WaitTable :=
  ⟨[⟨"a", .running, 2, []⟩, ⟨"b", .parked, 1, []⟩, ⟨"c", .parked, 1, ["q"]⟩], by decide⟩

def pairPages : HostConfig := ⟨1, 2, 0, fun _ => "", by decide⟩

def replied : Digest → Option Digest := fun q => if q = "q" then some "reply" else none

theorem Scan.steady_of_same {cfg : HostConfig} {through : String ×ₗ String} (n : ℕ)
    (reads : List PageReads) (same : ∀ r ∈ reads, r.second = r.first) (scan : Scan) :
    scan.Steady cfg through n reads := by
  induction n generalizing reads scan with
  | zero => exact trivial
  | succ n ih =>
    cases reads with
    | nil => exact trivial
    | cons r reads =>
      refine ⟨fun _ w hw => ?_, fun next _ => ih reads (fun r hr => same r (.tail _ hr)) next⟩
      have window := Keyset.mem_window.mp (Keyset.window_of_mem_page hw)
      obtain ⟨row, parked⟩ := WaitTable.mem_parked.mp window.1
      rw [same r List.mem_cons_self, WaitTable.current_of_mem row, parked]

/-- Two pages read in peace: the cut closes after the third run, which is launched. -/
theorem third_examined :
    ∃ c ∈ (Wake.step pairPages 4 ⟨.idle, []⟩ (.tick threeParked
      [⟨threeParked, threeParked, replied⟩, ⟨threeParked, threeParked, replied⟩])).closed,
      c.reads.length = 2 ∧ "c" ∈ c.examined := by
  have ticked : Guarded (Wake.Steady pairPages 4) (Wake.step pairPages 4) ⟨.idle, []⟩
      (Wake.step pairPages 4 ⟨.idle, []⟩ (.tick threeParked
        [⟨threeParked, threeParked, replied⟩, ⟨threeParked, threeParked, replied⟩])) := by
    apply Guarded.call _ .refl
    intro through _
    apply Scan.steady_of_same
    intro r hr
    simp only [List.mem_cons, List.not_mem_nil, or_false, or_self] at hr
    rw [hr]
  have covers := closed_cut_covers pairPages 4 ticked
  refine ⟨_, List.mem_singleton_self _, rfl, ?_⟩
  apply (covers _ (List.mem_singleton_self _) ⟨"c", .parked, 1, ["q"]⟩ (by decide) _).1
  exact ⟨rfl, by decide⟩

/-- A full page that loses its first candidate closes the cut before the third run. -/
theorem answered_wait_missed :
    ∃ reads : PageReads,
      ∃ c ∈ (Wake.step pairPages 4 ⟨.idle, []⟩ (.tick threeParked [reads])).closed,
        ∃ row : WaitRow, pairPages.waitKey row ≤ c.through ∧ row.Stays c.reads ∧
          row.Answered c.reads ∧ row.runId ∉ c.examined ∧ c.launched = [] := by
  refine ⟨⟨threeParked, firstResumed, replied⟩, _, List.mem_singleton_self _,
    ⟨"c", .parked, 1, ["q"]⟩, by decide, ⟨rfl, by decide⟩, ⟨"q", by decide, by decide⟩, by decide,
    by decide⟩

end ShortPage

end Constructicon
