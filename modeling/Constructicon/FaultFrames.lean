import Constructicon.FaultText
import Constructicon.JsonFrames
import Constructicon.UpstreamOrder

/-!
# The details behind a fault's text

A fault that names its own defect ends with a separator and its details in canonical JSON. The
authoring boundary takes what follows the last separator of a message for the details, when it is a
JSON object with a known defect; a message without one is prose. Names stand in messages as they are,
separators included. No name makes details of its own, but one that nests lists deep enough ends the
reading with an exception that is not caught.
-/

namespace Constructicon

open PyJson Transaction

variable {φ δ : Type}

/-! ## Messages -/

/-- `FAULT_DETAILS_SEPARATOR` -/
def faultSeparator : ℕ := 0x1f

def Defect.text : Defect → String
  | .missingPortSource => "missing_port_source"
  | .missingFeedbackSeed => "missing_feedback_seed"
  | .ambiguousNodeInput => "ambiguous_node_input"
  | .ambiguousNodeInputUnmappable => "ambiguous_node_input_unmappable"
  | .ambiguousGraphOutput => "ambiguous_graph_output"
  | .unknownConnectionNode => "unknown_connection_node"
  | .graphCycle => "graph_cycle"
  | .unusedMapDestination => "unused_map_destination"
  | .duplicateMapDestination => "duplicate_map_destination"
  | .malformedSelector => "malformed_selector"
  | .explicitSourceContract => "explicit_source_contract"

def stepJson : String ⊕ ℕ → Json
  | .inl name => .str name
  | .inr index => .int index

/-- `list(location.path)` -/
def GraphLocation.steps (l : GraphLocation) : Json := .arr (l.path.map stepJson)

/-- The entries that place a located fault in the proposal, or in a retained definition. -/
def GraphLocation.place (l : GraphLocation) : List (String × Json) :=
  match l.retained with
  | none => [("path", l.steps)]
  | some (component, version) =>
    [("component", .str component), ("version", .str version), ("definition_path", l.steps)]

/-- The entries of a located fault's details, as `_located_fault` writes them. -/
def locatedEntries (location : GraphLocation) (scope : ScopePath) (defect : Defect) (evidence : List (String × Json)) :
    List (String × Json) :=
  [("defect", .str defect.text), ("scope", Json.strs scope)] ++ evidence ++ location.place

def Fault.details : Fault → Option (List (String × Json))
  | .located location scope defect evidence =>
    some (Dict.ofList (locatedEntries location scope defect evidence)).entries
  | .retainedComposite _ component version _ _ =>
    some [("defect", .str "retained_composite"), ("component", .str component), ("version", .str version)]
  | _ => none

def Fault.message (f : Fault) (prose : PyStr) : PyStr :=
  match f.details with
  | some details => prose ++ faultSeparator :: canonicalText (.obj details)
  | none => prose

/-- The compiler appends an `AdmissionFault` of its own for these, and a text for all others. -/
def Fault.isText : Fault → Bool
  | .executorUnavailable .. | .executorGrants .. => false
  | _ => true

/-- The prose a fault may have: its pieces, and where its data does not settle the words, any. -/
def Fault.Says (printable : ℕ → Bool) (continueHash : String) (f : Fault) (prose : PyStr) : Prop :=
  match f with
  | .located .. | .retainedComposite .. => True
  | .channelExchange .. =>
    ∃ reason, ExchangeReason reason ∧ prose = spell printable (f.pieces continueHash ++ reason)
  | _ => prose = spell printable (f.pieces continueHash)

/-! ## Frames -/

/-- `message.rpartition(separator)`: what precedes the last separator, and what follows it. -/
def rpartition (sep : ℕ) (s : PyStr) : Option (PyStr × PyStr) :=
  if sep ∈ s then
    some (((s.reverse.dropWhile (· ≠ sep)).drop 1).reverse, (s.reverse.takeWhile (· ≠ sep)).reverse)
  else none

def defects : List Defect :=
  [.missingPortSource, .missingFeedbackSeed, .ambiguousNodeInput, .ambiguousNodeInputUnmappable,
    .ambiguousGraphOutput, .unknownConnectionNode, .graphCycle, .unusedMapDestination,
    .duplicateMapDestination, .malformedSelector, .explicitSourceContract]

/-- The defect in `_LOCATED_FAULTS` that a text names. -/
def namedDefect (name : PyStr) : Option Defect := defects.find? (fun d => points d.text = name)

inductive FrameFailure where
  | recursionError
  | typeError
  | keyError
  | valueError
deriving DecidableEq

/-- Whether `carried.get("defect")` is a known defect; a list or a dictionary cannot be looked up. -/
def knownDefect : Option (PyValue φ) → Except FrameFailure Bool
  | some (.str name) => .ok (name = points "retained_composite" ∨ (namedDefect name).isSome)
  | some (.list _) | some (.dict _) => .error .typeError
  | _ => .ok false

variable (F : FloatText φ)

/-- `_framed_details` -/
def framedDetails (room : ℕ) (message : PyStr) : Except FrameFailure (Option (Dict PyStr (PyValue φ))) :=
  match rpartition faultSeparator message with
  | none => .ok none
  | some (_, suffix) =>
    match loadsWithin F .malformed dictOfPairs room suffix with
    | .error .valueError => .ok none
    | .error .recursionError => .error .recursionError
    | .ok (.dict entries) => do
      let known ← knownDefect ((textEntries entries).get? (points "defect"))
      return if known then some (textEntries entries) else none
    | .ok _ => .ok none

/-! ## Classification -/

inductive AdmissionCode where
  | graphSchemaInvalidJson
  | graphSchemaInvalidValue
  | graphProposalLimitExceeded
  | graphNodeDuplicate
  | graphNodeReservedId
  | graphReferenceUnknown
  | graphReferenceUnpromoted
  | graphPortMissingSource
  | graphPortAmbiguous
  | graphPortContractMismatch
  | graphCapabilityMissingBinding
  | graphCapabilityUndeclaredBinding
  | graphCapabilityUnknown
  | graphCapabilityKindMismatch
  | graphGrantWidening
  | graphLoopInvalid
  | graphCycle
  | graphInputInvalid
  | graphContractInvalid
  | legacyAdmission
deriving DecidableEq

/-- `_LOCATED_FAULTS` -/
def locatedFault : Defect → AdmissionCode × String
  | .missingPortSource => (.graphPortMissingSource, "connect a matching upstream output or graph input")
  | .missingFeedbackSeed => (.graphPortMissingSource, "connect a matching outer seed or add a per-port map override")
  | .ambiguousNodeInput => (.graphPortAmbiguous, "add a Connection.map override selecting one candidate")
  | .ambiguousNodeInputUnmappable =>
    (.graphPortAmbiguous, "add an incoming connection with a per-port map or compose a scalar adapter")
  | .ambiguousGraphOutput =>
    (.graphPortAmbiguous, "add an explicit adapter/selection node before this graph output")
  | .unknownConnectionNode =>
    (.graphContractInvalid, "name a declared node for each connection endpoint; repair the retained definition or pin a compatible version when definition_path is present")
  | .graphCycle =>
    (.graphCycle, "remove one connection of the cycle or express bounded feedback through Loop; repair the retained definition or pin a compatible version when definition_path is present")
  | .unusedMapDestination =>
    (.graphContractInvalid, "map a declared destination input; repair the retained definition or pin a compatible version when definition_path is present")
  | .duplicateMapDestination =>
    (.graphContractInvalid, "keep one distinct selector for this destination; repair the retained definition or pin a compatible version when definition_path is present")
  | .malformedSelector =>
    (.graphContractInvalid, "add a non-empty port segment using 'node.port' or '$input.port'")
  | .explicitSourceContract =>
    (.graphPortContractMismatch, "select exactly one one-cardinality source with the exact type_id and schema_hash; compose a scalar adapter for optional or many producers")

/-- `AdmissionFault` -/
structure TypedFault (φ : Type) where
  code : AdmissionCode
  message : PyStr
  path : List (PyValue φ) := []
  scope : Option (List PyStr) := none
  repair : String
  details : Dict PyStr (PyValue φ) := .empty

/-- What `_classify_fault` reads besides the message: the room on the stack, the bound on published
details, what it makes of prose, and the scope it finds in prose. -/
structure Classifier (φ : Type) where
  room : ℕ
  maxFaultDetailItems : ℕ
  ofProse : PyStr → TypedFault φ
  scopeFromMessage : PyStr → Option (List PyStr)

/-- `d.update(entries)` -/
def updated (d : Dict PyStr (PyValue φ)) (entries : List (String × PyValue φ)) : Dict PyStr (PyValue φ) :=
  entries.foldl (fun d e => d.insert (points e.1) e.2) d

/-- `tuple(v)` -/
def tupleOf : PyValue φ → Except FrameFailure (List (PyValue φ))
  | .list items => .ok items
  | .str s => .ok (s.map (fun c => .str [c]))
  | .dict entries => .ok (entries.map Prod.fst)
  | _ => .error .typeError

/-- The segments of a `ScopePath`, which are texts. -/
def segmentsOf (items : List (PyValue φ)) : Except FrameFailure (List PyStr) :=
  if items.all (fun v => (asText v).isSome) then .ok (items.filterMap asText) else .error .valueError

def checkedPath (items : List (PyValue φ)) : Except FrameFailure (List (PyValue φ)) :=
  if items.all (fun v => match v with
      | .str _ | .int _ | .bool _ => true
      | _ => false) then .ok items else .error .valueError

def cyclePreview (limit : ℕ) (defect : Defect) (cycle : Option (PyValue φ)) : List (String × PyValue φ) :=
  if defect = .graphCycle then
    match cycle with
    | some (.list items) =>
      [("cycle", .list (items.take limit)), ("cycle_total", .int items.length),
        ("truncated", .bool (decide ((items.take limit).length < items.length)))]
    | _ => []
  else []

def reframed (message : PyStr) (carried : Dict PyStr (PyValue φ)) (bounded : List (String × PyValue φ)) :
    Except FrameFailure PyStr :=
  if bounded.isEmpty then .ok message
  else do
    let framed ← (canonicalJson F (.dict ((updated carried bounded).entries.map (fun e => (.str e.1, e.2))))).mapError
      (fun _ => .valueError)
    return ((rpartition faultSeparator message).elim [] Prod.fst) ++ faultSeparator :: framed

def candidatesOf : Option (PyValue φ) → List PyStr
  | some (.list items) => items.filterMap asText
  | _ => []

/-- `map_example` -/
def mapExample (defect : Defect) (port : Option (PyValue φ)) (candidate : PyStr) : List (String × PyValue φ) :=
  if defect = .ambiguousNodeInput then
    match port with
    | some (.str port) => [("map_example", .dict [(.str port, .str candidate)])]
    | _ => []
  else []

def candidateDetails (limit : ℕ) (defect : Defect) (port : Option (PyValue φ)) :
    List PyStr → List (String × PyValue φ)
  | [] => []
  | first :: rest =>
    [("candidates", .list (((first :: rest).take limit).map .str)), ("candidate_total", .int (first :: rest).length),
      ("truncated", .bool (decide (((first :: rest).take limit).length < (first :: rest).length)))] ++
      mapExample defect port first

/-- `map_path` -/
def mapPath (defect : Defect) (path : Option (PyValue φ)) : List (String × PyValue φ) :=
  if defect = .ambiguousNodeInput then
    match path with
    | some (.list steps) => [("map_path", .list steps)]
    | _ => []
  else []

def locatedDetails (limit : ℕ) (carried : Dict PyStr (PyValue φ)) (defect : Defect) : Dict PyStr (PyValue φ) :=
  let hidden := [points "path", points "scope", points "candidate_selectors"]
  let kept : Dict PyStr (PyValue φ) := ⟨carried.entries.filter (fun e => e.1 ∉ hidden)⟩
  let candidates := candidatesOf (carried.get? (points "candidate_selectors"))
  updated kept (cyclePreview limit defect (carried.get? (points "cycle")) ++
    candidateDetails limit defect (carried.get? (points "destination_port")) candidates ++
    mapPath defect ((carried.get? (points "path")).or (carried.get? (points "definition_path"))))

def locatedRepair (carried : Dict PyStr (PyValue φ)) (defect : Defect) : String :=
  let (code, repair) := locatedFault defect
  if carried.contains (points "definition_path") ∧ (code = .graphPortMissingSource ∨ code = .graphPortAmbiguous) then
    repair ++ "; repair the retained definition or pin a compatible version"
  else repair

def classifyLocated (c : Classifier φ) (message : PyStr) (carried : Dict PyStr (PyValue φ)) (defect : Defect) :
    Except FrameFailure (TypedFault φ) := do
  let path ← tupleOf (carried.getD (points "path") (.list []))
  let message ← reframed F message carried
    (cyclePreview c.maxFaultDetailItems defect (carried.get? (points "cycle")))
  let scope ← expect (carried.get? (points "scope")) .keyError
  let scope ← tupleOf scope
  let segments ← segmentsOf scope
  let path ← checkedPath path
  return {
    code := (locatedFault defect).1
    message := message
    path := path
    scope := some segments
    repair := locatedRepair carried defect
    details := locatedDetails c.maxFaultDetailItems carried defect }

def classifyRetained (c : Classifier φ) (message : PyStr) (carried : Dict PyStr (PyValue φ)) : TypedFault φ where
  code := .graphContractInvalid
  message := message
  scope := c.scopeFromMessage ((rpartition faultSeparator message).elim [] Prod.fst)
  repair := "the retained definition is defective, not this graph: pin or promote a version whose declared boundary is its Graph's and whose embedded schemas are their declared revisions'"
  details := ⟨[points "component", points "version"].filterMap (fun key =>
    (carried.get? key).map (fun value => (key, value)))⟩

def classifyFramed (c : Classifier φ) (message : PyStr) (carried : Dict PyStr (PyValue φ)) :
    Except FrameFailure (TypedFault φ) :=
  match (((carried.get? (points "defect")).bind asText).bind namedDefect) with
  | some defect => classifyLocated F c message carried defect
  | none => .ok (classifyRetained c message carried)

/-- `_classify_fault`, of a message that is a text. -/
def classifyFault (c : Classifier φ) (message : PyStr) : Except FrameFailure (TypedFault φ) := do
  let framed ← framedDetails F c.room message
  match framed with
  | some carried => classifyFramed F c message carried
  | none => return c.ofProse message

/-! ## The last separator -/

theorem takeWhile_free {sep : ℕ} {tail : PyStr} (free : sep ∉ tail) (rest : PyStr) :
    (tail.reverse ++ rest).takeWhile (· ≠ sep) = tail.reverse ++ rest.takeWhile (· ≠ sep) := by
  apply List.takeWhile_append_of_pos
  intro c hc
  rw [List.mem_reverse] at hc
  exact decide_eq_true (fun same => free (same ▸ hc))

theorem rpartition_framed {sep : ℕ} {tail : PyStr} (free : sep ∉ tail) (prose : PyStr) :
    rpartition sep (prose ++ sep :: tail) = some (prose, tail) := by
  have reversed : (prose ++ sep :: tail).reverse = tail.reverse ++ sep :: prose.reverse := by
    rw [List.reverse_append, List.reverse_cons, List.append_assoc]
    rfl
  have taken := takeWhile_free free (sep :: prose.reverse)
  have dropped : (tail.reverse ++ sep :: prose.reverse).dropWhile (· ≠ sep) = sep :: prose.reverse := by
    have split := @List.takeWhile_append_dropWhile ℕ (· ≠ sep) (tail.reverse ++ sep :: prose.reverse)
    rw [taken, List.takeWhile_cons_of_neg (by simp), List.append_nil] at split
    exact List.append_cancel_left split
  rw [rpartition, if_pos (by simp), reversed, taken, dropped, List.takeWhile_cons_of_neg (by simp), List.append_nil,
    List.reverse_reverse, List.drop_succ_cons, List.drop_zero, List.reverse_reverse]

theorem rpartition_tail {sep : ℕ} {front tail head suffix : PyStr} (free : sep ∉ tail)
    (h : rpartition sep (front ++ tail) = some (head, suffix)) : ∃ rest, suffix = rest ++ tail := by
  unfold rpartition at h
  split_ifs at h
  cases h
  have taken := takeWhile_free free front.reverse
  rw [List.reverse_append, taken, List.reverse_append, List.reverse_reverse]
  exact ⟨_, rfl⟩

/-! ## Prose is no frame -/

def Solid (s : PyStr) : Prop := ∃ c, s.getLast? = some c ∧ c ≠ 125 ∧ c ≠ faultSeparator ∧ isBlank c = false

def FrameFree (s : PyStr) : Prop :=
  ∀ head suffix, rpartition faultSeparator s = some (head, suffix) →
    ∀ entries, loads F .malformed dictOfPairs suffix ≠ .ok (.dict entries)

theorem Solid.frameFree {s : PyStr} (solid : Solid s) : FrameFree F s := by
  obtain ⟨c, last, brace, separator, blank⟩ := solid
  intro head suffix split entries
  obtain ⟨front, d, rfl⟩ := List.eq_nil_or_concat s |>.resolve_left (by
    rintro rfl
    cases last)
  rw [List.concat_eq_append] at last split
  rw [List.getLast?_concat] at last
  cases last
  obtain ⟨rest, rfl⟩ := rpartition_tail (by simpa using Ne.symm separator) split
  exact not_object_of_last List.getLast?_concat brace blank entries

section

variable (printable : ℕ → Bool)

theorem solid_spell {pieces : List Piece} {last : Piece} (ends : pieces.getLast? = some last)
    (solid : Solid (last.spell printable)) : Solid (spell printable pieces) := by
  obtain ⟨front, piece, rfl⟩ := List.eq_nil_or_concat pieces |>.resolve_left (by
    rintro rfl
    cases ends)
  rw [List.concat_eq_append, List.getLast?_concat] at ends
  cases ends
  obtain ⟨c, last, char⟩ := solid
  refine ⟨c, ?_, char⟩
  rw [List.concat_eq_append, spell, List.flatMap_append, List.flatMap_singleton, List.getLast?_append, last]
  rfl

theorem solid_words (l : List Char) (last : (l.getLast?.any (fun c => c != '}' && c != '\x1f' && !isBlank c.toNat)) = true) :
    Solid (points (String.ofList l)) := by
  obtain ⟨c, found, char⟩ := Option.any_eq_true _ _ |>.mp last
  simp only [Bool.and_eq_true, bne_iff_ne, ne_eq, Bool.not_eq_true'] at char
  have other : ∀ d : Char, c ≠ d → c.toNat ≠ d.toNat := fun d ne same => ne (Char.toNat_inj.mp same)
  refine ⟨c.toNat, ?_, other '}' char.1.1, other '\x1f' char.1.2, char.2⟩
  rw [points, String.toList_ofList, List.getLast?_map, found]
  rfl

theorem solid_quoted (s : String) : Solid ((Piece.quoted s).spell printable) := by
  refine ⟨reprQuote (points s), ?_, ?_⟩
  · rw [Piece.spell, reprText, ← List.cons_append, List.getLast?_concat]
  · unfold reprQuote
    split_ifs <;> decide

theorem solid_names (l : List String) : Solid ((Piece.names l).spell printable) := by
  refine ⟨93, ?_, by decide⟩
  rw [Piece.spell, reprNames, ← List.cons_append, List.getLast?_concat]

theorem decimal_ne_nil (n : ℕ) : decimal n ≠ [] := (scanDigits_split (scanDigits_decimal n)).2.1

theorem solid_number (n : ℕ) : Solid ((Piece.number n).spell printable) := by
  obtain ⟨c, last⟩ := Option.isSome_iff_exists.mp (List.getLast?_isSome.mpr (decimal_ne_nil n))
  have digit := decimal_digits n c (List.mem_of_getLast? last)
  simp only [isDigit, Bool.and_eq_true, decide_eq_true_eq] at digit
  refine ⟨c, last, by omega, by simp only [faultSeparator]; omega, ?_⟩
  simp only [isBlank, Bool.or_eq_false_iff, beq_eq_false_iff_ne]
  omega

theorem key_words (l : List Char) (key : l.drop (l.length - 3) = ['\'', ':', ' ']) :
    ∃ front, points (String.ofList l) = front ++ [39, 58, 32] := by
  refine ⟨(l.take (l.length - 3)).map Char.toNat, ?_⟩
  have split := congrArg (List.map Char.toNat) (List.take_append_drop (l.length - 3) l)
  rw [List.map_append, key] at split
  rw [points, String.toList_ofList, ← split]
  rfl

theorem frameFree_profile (front : PyStr) (n : ℕ) :
    FrameFree F (front ++ 39 :: 58 :: 32 :: (decimal n ++ [125])) := by
  intro head suffix split entries
  have free : faultSeparator ∉ 39 :: 58 :: 32 :: (decimal n ++ [125]) := by
    have digits : faultSeparator ∉ decimal n := by
      intro mem
      cases decimal_digits n _ mem
    simp [faultSeparator] at digits ⊢
    exact digits
  obtain ⟨rest, rfl⟩ := rpartition_tail free split
  exact not_object_of_key (decimal_digits n) (decimal_ne_nil n) entries

/-- The evidence of a located fault is shallow, and no entry of it stands for another. -/
structure FaultEvidence (evidence : List (String × Json)) : Prop where
  distinct : (evidence.map Prod.fst).Nodup
  own : ∀ e ∈ evidence, e.1 ∉ ["defect", "scope", "path", "component", "version", "definition_path"]
  wire : ∀ e ∈ evidence, WireValue noFloats e.2
  nests : ∀ e ∈ evidence, Nests 1 e.2

def Fault.Proper : Fault → Prop
  | .located _ _ _ evidence => FaultEvidence evidence
  | .channelIncoherent _ _ _ reason => ∃ pieces, ChannelReason pieces ∧ points reason = spell printable pieces
  | .cycleOutsideLoop .. => False
  | _ => True

theorem spell_append (pieces more : List Piece) :
    spell printable (pieces ++ more) = spell printable pieces ++ spell printable more := by
  rw [spell, List.flatMap_append]
  rfl

theorem frameFree_incoherent {reason : List Piece} (said : ChannelReason reason) (pieces : List Piece) :
    FrameFree F (spell printable (pieces ++ reason)) := by
  have solid : ∀ {last : Piece}, reason.getLast? = some last → Solid (last.spell printable) →
      FrameFree F (spell printable (pieces ++ reason)) := by
    intro last ends solid
    exact (solid_spell printable (by rw [List.getLast?_append, ends]; rfl) solid).frameFree F
  cases said with
  | undescribed => exact solid rfl (solid_words _ (by decide))
  | noChannel => exact solid rfl (solid_words _ (by decide))
  | serves channel => exact solid rfl (solid_quoted printable channel)
  | profile durability declared batch maxBatch =>
    obtain ⟨front, key⟩ : ∃ front, points ", 'delivery': 'at_least_once', 'history': 'retained', 'max_batch': " =
        front ++ [39, 58, 32] := key_words _ rfl
    have brace : points "\x7d" = [125] := congrArg (List.map Char.toNat) (@String.toList_ofList ['}'])
    have cut : ∀ (first : List Piece) (words last : String) (n : ℕ),
        spell printable (first ++ [.words words, .number n, .words last]) =
          spell printable first ++ (points words ++ (decimal n ++ (points last ++ []))) := by
      intro first words last n
      rw [spell_append]
      rfl
    have ends := cut (pieces ++ [.words "its injected profile \x7b'durability': ", .quoted durability,
        .words ", 'delivery': 'at_least_once', 'history': 'retained', 'max_batch': ", .number batch,
        .words "\x7d differs from the descriptor profile \x7b'durability': ", .quoted declared])
      ", 'delivery': 'at_least_once', 'history': 'retained', 'max_batch': " "\x7d" maxBatch
    have free := frameFree_profile F (spell printable (pieces ++ [.words "its injected profile \x7b'durability': ",
        .quoted durability, .words ", 'delivery': 'at_least_once', 'history': 'retained', 'max_batch': ", .number batch,
        .words "\x7d differs from the descriptor profile \x7b'durability': ", .quoted declared]) ++ front) maxBatch
    rw [key, brace, List.append_nil, List.append_assoc pieces] at ends
    rw [List.append_assoc, ← List.append_assoc front] at ends
    simp only [List.append_assoc, List.cons_append, List.nil_append] at ends free ⊢
    rw [ends]
    exact free

theorem frameFree_exchange {reason : List Piece} (said : ExchangeReason reason) (pieces : List Piece) :
    FrameFree F (spell printable (pieces ++ reason)) := by
  have solid : ∀ {last : Piece}, reason.getLast? = some last → Solid (last.spell printable) →
      FrameFree F (spell printable (pieces ++ reason)) := by
    intro last ends solid
    exact (solid_spell printable (by rw [List.getLast?_append, ends]; rfl) solid).frameFree F
  cases said with
  | pairs => exact solid rfl (solid_quoted printable _)
  | interaction => exact solid rfl (solid_words _ (by decide))
  | approval => exact solid rfl (solid_quoted printable _)

set_option maxRecDepth 2000 in
theorem prose_frameFree {continueHash : String} {f : Fault} (proper : f.Proper printable) (text : f.isText = true)
    (unframed : f.details = none) {prose : PyStr} (spoken : f.Says printable continueHash prose) : FrameFree F prose := by
  have solid : ∀ {last : Piece}, (f.pieces continueHash).getLast? = some last → Solid (last.spell printable) →
      FrameFree F (spell printable (f.pieces continueHash)) := fun ends solid =>
    (solid_spell printable ends solid).frameFree F
  cases f with
  | located => cases unframed
  | retainedComposite => cases unframed
  | executorUnavailable => cases text
  | executorGrants => cases text
  | cycleOutsideLoop => exact proper.elim
  | channelIncoherent scope aliasName capability reason =>
    obtain ⟨pieces, said, same⟩ := proper
    cases spoken
    have spelled : spell printable (Fault.pieces continueHash (.channelIncoherent scope aliasName capability reason)) =
        spell printable ([.raw (renderScope scope), .words ": binding ", .quoted aliasName, .words " names capability ",
          .quoted capability, .words ", but "] ++ pieces) := by
      rw [spell_append, ← same]
      change spell printable ([_, _, _, _, _, _] ++ [.raw reason]) = _
      rw [spell_append]
      congr 1
      exact List.append_nil _
    rw [spelled]
    exact frameFree_incoherent F printable said _
  | channelExchange scope aliasName capability =>
    obtain ⟨reason, said, rfl⟩ := spoken
    exact frameFree_exchange F printable said _
  | duplicatePorts | unusedPin | nestedLoop | noStableVersion | danglingStable | pinMissing | pinMismatch |
      pinUnavailable | feedbackCardinality | continueContract | emptyLoop | continueArity | postureWidened |
      toolsWidened | environmentWidened | networkWidened | postureNotEnforced | requiresWrite |
      channelWithoutEndpoint | channelPorts | duplicateNodeIds =>
    cases spoken
    exact solid rfl (solid_words _ (by decide))
  | missingInputs | extraInputs | unknownComponent | noVersion | feedbackDestination | feedbackSource |
      continueMissing | unknownCapability =>
    cases spoken
    exact solid rfl (solid_names printable _)
  | feedbackArity | timeoutWidened =>
    cases spoken
    exact solid rfl (solid_number printable _)
  | feedbackContract | postureNotOffered | unknownNode =>
    cases spoken
    exact solid rfl (solid_quoted printable _)

end

theorem framedDetails_prose {prose : PyStr} (free : FrameFree F prose) (room : ℕ) :
    (framedDetails F room prose = .ok none ↔ ∀ head suffix, rpartition faultSeparator prose = some (head, suffix) →
        nesting F .malformed dictOfPairs suffix ≤ room) ∧
      ∀ carried, framedDetails F room prose ≠ .ok (some carried) := by
  cases split : rpartition faultSeparator prose with
  | none =>
    rw [framedDetails, split]
    exact ⟨⟨fun _ head suffix h => by (cases h), fun _ => rfl⟩, fun carried h => by cases h⟩
  | some parts =>
    obtain ⟨head, suffix⟩ := parts
    have object := free head suffix split
    rw [framedDetails, split]
    dsimp only
    by_cases deep : room < nesting F .malformed dictOfPairs suffix
    · have raised : loadsWithin F .malformed dictOfPairs room suffix = .error .recursionError := if_pos deep
      rw [raised]
      refine ⟨⟨fun h => (by cases h), fun all => ?_⟩, fun carried h => (by cases h)⟩
      have fits := all head suffix rfl
      omega
    · have shallow : ∀ h s, some (head, suffix) = some (h, s) → nesting F .malformed dictOfPairs s ≤ room := by
        intro h s same
        cases same
        omega
      have read : loadsWithin F .malformed dictOfPairs room suffix =
          (loads F .malformed dictOfPairs suffix).mapError (fun _ => .valueError) := if_neg deep
      rw [read]
      cases loaded : loads F .malformed dictOfPairs suffix with
      | error e => exact ⟨⟨fun _ => shallow, fun _ => rfl⟩, fun carried h => by cases h⟩
      | ok v =>
        cases v with
        | dict entries => exact absurd loaded (object entries)
        | _ => exact ⟨⟨fun _ => shallow, fun _ => rfl⟩, fun carried h => by cases h⟩

/-! ## Frames are read back -/

def carriedOf (details : List (String × Json)) : Dict PyStr (PyValue φ) :=
  ⟨(Json.sortKeys (Json.canonicalEntries details)).map (fun e => (points e.1, ofJson e.2))⟩

theorem textEntries_ofJson (entries : List (String × Json)) :
    textEntries (ofJsonMembers (φ := φ) entries) = ⟨entries.map (fun e => (points e.1, ofJson e.2))⟩ := by
  rw [textEntries, ofJsonMembers_eq, List.filterMap_map]
  congr 1
  exact congrFun (@List.filterMap_eq_map _ _ (fun e : String × Json => (points e.1, ofJson e.2))) entries

theorem keys_carriedOf {details : List (String × Json)} (distinct : (details.map Prod.fst).Nodup) :
    (carriedOf (φ := φ) details).keys.Nodup := by
  have names : (carriedOf (φ := φ) details).keys =
      ((Json.sortKeys (Json.canonicalEntries details)).map Prod.fst).map points := by
    rw [Dict.keys, carriedOf, List.map_map, List.map_map]
    rfl
  have perm := (List.perm_insertionSort (fun a b : String × Json => a.1 ≤ b.1) (Json.canonicalEntries details)).map Prod.fst
  have same : (Json.canonicalEntries details).map Prod.fst = details.map Prod.fst := by
    rw [Json.canonicalEntries_eq_map, List.map_map]
    rfl
  rw [names]
  exact (perm.nodup_iff.mpr (same ▸ distinct)).map points_injective

theorem get?_carriedOf {details : List (String × Json)} (distinct : (details.map Prod.fst).Nodup) {key : String}
    {j : Json} (mem : (key, j) ∈ details) : (carriedOf (φ := φ) details).get? (points key) = some (ofJson j.canonical) := by
  apply Dict.get?_of_mem (keys_carriedOf distinct)
  refine List.mem_map.mpr ⟨(key, j.canonical), ?_, rfl⟩
  rw [Json.sortKeys, List.mem_insertionSort, Json.canonicalEntries_eq_map]
  exact List.mem_map.mpr ⟨(key, j), mem, rfl⟩

theorem find?_distinct {α β : Type} [DecidableEq β] {f : α → β} {l : List α} (distinct : (l.map f).Nodup) {a : α}
    (mem : a ∈ l) : l.find? (fun b => f b = f a) = some a := by
  induction l with
  | nil => cases mem
  | cons b l ih =>
    rw [List.map_cons, List.nodup_cons] at distinct
    rcases List.mem_cons.mp mem with rfl | mem
    · rw [List.find?_cons_of_pos (by simp)]
    · have other : f b ≠ f a := fun same => distinct.1 (same ▸ List.mem_map_of_mem mem)
      rw [List.find?_cons_of_neg (by simpa using other)]
      exact ih distinct.2 mem

theorem defects_distinct : (defects.map Defect.text).Nodup := by decide

theorem namedDefect_text (d : Defect) : namedDefect (points d.text) = some d := by
  have mem : d ∈ defects := by cases d <;> decide
  have distinct : (defects.map (fun d => points d.text)).Nodup := by
    have names := defects_distinct.map points_injective
    rwa [List.map_map] at names
  exact find?_distinct distinct mem

theorem retained_notDefect : namedDefect (points "retained_composite") = none := by
  rw [namedDefect, List.find?_eq_none]
  intro d _ same
  have name := points_injective (of_decide_eq_true same)
  cases d <;> revert name <;> decide

structure Frameable (details : List (String × Json)) : Prop where
  distinct : (details.map Prod.fst).Nodup
  wire : ∀ e ∈ details, WireValue noFloats e.2
  nests : ∀ e ∈ details, Nests 1 e.2

theorem Frameable.json {details : List (String × Json)} (h : Frameable details) :
    WireValue noFloats (Json.obj details).canonical ∧ Nests 2 (Json.obj details).canonical :=
  ⟨WireValue.canonical noFloats (.obj h.distinct h.wire), (Nests.obj h.nests).canonical⟩

theorem framedDetails_framed {details : List (String × Json)} (h : Frameable details) {name : String}
    (defect : ("defect", .str name) ∈ details) (known : name = "retained_composite" ∨ (namedDefect (points name)).isSome)
    {room : ℕ} (enough : 2 ≤ room) (prose : PyStr) :
    framedDetails F room (prose ++ faultSeparator :: canonicalText (.obj details)) = .ok (some (carriedOf details)) := by
  obtain ⟨wire, nests⟩ := h.json
  have free : faultSeparator ∉ canonicalText (.obj details) := by
    intro mem
    have legible := legible_dumps wire faultSeparator mem
    rw [faultSeparator] at legible
    omega
  have read : loadsWithin F .malformed dictOfPairs room (canonicalText (.obj details)) =
      .ok (.dict (ofJsonMembers (Json.sortKeys (Json.canonicalEntries details)))) :=
    loadsWithin_dumps F wire nests enough
  have found : (carriedOf (φ := φ) details).get? (points "defect") = some (.str (points name)) :=
    get?_carriedOf h.distinct defect
  have recognized : knownDefect (some (PyValue.str (φ := φ) (points name))) = .ok true := by
    rw [knownDefect]
    congr 1
    refine decide_eq_true (known.imp ?_ id)
    rintro rfl
    rfl
  rw [framedDetails, rpartition_framed free]
  dsimp only
  rw [read]
  dsimp only
  rw [textEntries_ofJson]
  change (knownDefect ((carriedOf (φ := φ) details).get? (points "defect")) >>= fun known =>
    pure (if known = true then some (carriedOf details) else none)) = _
  rw [found, recognized]
  rfl

theorem place_wire (l : GraphLocation) : ∀ e ∈ l.place, WireValue noFloats e.2 ∧ Nests 1 e.2 := by
  have steps : WireValue noFloats l.steps ∧ Nests 1 l.steps := by
    have each : ∀ j ∈ l.path.map stepJson, WireValue noFloats j ∧ Nests 0 j := by
      intro j hj
      obtain ⟨step, -, rfl⟩ := List.mem_map.mp hj
      cases step with
      | inl name => exact ⟨.str name, .str name⟩
      | inr index => exact ⟨.int index, .int index⟩
    exact ⟨.arr (fun j hj => (each j hj).1), .arr (fun j hj => (each j hj).2)⟩
  intro e he
  cases retained : l.retained with
  | none =>
    rw [GraphLocation.place, retained] at he
    cases List.mem_singleton.mp he
    exact steps
  | some version =>
    rw [GraphLocation.place, retained] at he
    simp only [List.mem_cons, List.not_mem_nil, or_false] at he
    rcases he with rfl | rfl | rfl
    · exact ⟨.str _, .str _⟩
    · exact ⟨.str _, .str _⟩
    · exact steps

theorem located_details {location : GraphLocation} {scope : ScopePath} {defect : Defect}
    {evidence : List (String × Json)} (proper : FaultEvidence evidence) :
    (Fault.located location scope defect evidence).details = some (locatedEntries location scope defect evidence) ∧
      Frameable (locatedEntries location scope defect evidence) := by
  have places : location.place.map Prod.fst = ["path"] ∨
      location.place.map Prod.fst = ["component", "version", "definition_path"] := by
    unfold GraphLocation.place
    cases location.retained with
    | none => exact .inl rfl
    | some version => exact .inr rfl
  have own : ∀ k ∈ evidence.map Prod.fst,
      k ∉ ["defect", "scope", "path", "component", "version", "definition_path"] := by
    intro k hk
    obtain ⟨e, he, rfl⟩ := List.mem_map.mp hk
    exact proper.own e he
  have distinct : ((locatedEntries location scope defect evidence).map Prod.fst).Nodup := by
    rw [locatedEntries, List.map_append, List.map_append]
    have inner : (["defect", "scope"] ++ evidence.map Prod.fst).Nodup := by
      refine List.nodup_append.mpr ⟨by decide, proper.distinct, fun a ha b hb same => ?_⟩
      have other := own b hb
      simp only [List.mem_cons, List.not_mem_nil, or_false, not_or] at ha other
      rcases ha with rfl | rfl
      · exact other.1 same.symm
      · exact other.2.1 same.symm
    refine List.nodup_append.mpr ⟨inner, ?_, fun a ha b hb same => ?_⟩
    · rcases places with places | places <;> rw [places] <;> decide
    · have listed : b ∈ ["path", "component", "version", "definition_path"] := by
        rcases places with places | places <;> rw [places] at hb <;> simp at hb ⊢ <;> tauto
      rcases List.mem_append.mp ha with ha | ha
      · subst same
        simp only [List.map_cons, List.map_nil, List.mem_cons, List.not_mem_nil, or_false] at ha listed
        rcases ha with rfl | rfl <;> revert listed <;> decide
      · have other := own a ha
        subst same
        simp only [List.mem_cons, List.not_mem_nil, or_false, not_or] at listed other
        tauto
  have segments : WireValue noFloats (Json.strs scope) ∧ Nests 1 (Json.strs scope) := by
    have each : ∀ j ∈ scope.map Json.str, WireValue noFloats j ∧ Nests 0 j := by
      intro j hj
      obtain ⟨segment, -, rfl⟩ := List.mem_map.mp hj
      exact ⟨.str segment, .str segment⟩
    exact ⟨.arr (fun j hj => (each j hj).1), .arr (fun j hj => (each j hj).2)⟩
  have each : ∀ e ∈ locatedEntries location scope defect evidence, WireValue noFloats e.2 ∧ Nests 1 e.2 := by
    intro e he
    rcases List.mem_append.mp he with he | he
    · rcases List.mem_append.mp he with he | he
      · simp only [List.mem_cons, List.not_mem_nil, or_false] at he
        rcases he with rfl | rfl
        · exact ⟨.str _, .str _⟩
        · exact segments
      · exact ⟨proper.wire e he, proper.nests e he⟩
    · exact place_wire location e he
  refine ⟨?_, distinct, fun e he => (each e he).1, fun e he => (each e he).2⟩
  rw [Fault.details, Dict.ofList_entries distinct]

/-! ## A framed fault has the code of its defect -/

theorem mem_of_get?_carriedOf {details : List (String × Json)} {key : String} {v : PyValue φ}
    (found : (carriedOf details).get? (points key) = some v) : ∃ j, (key, j) ∈ details ∧ v = ofJson j.canonical := by
  obtain ⟨e, mem, same⟩ := List.mem_map.mp (Dict.mem_of_get? found)
  rw [Json.sortKeys, List.mem_insertionSort, Json.canonicalEntries_eq_map] at mem
  obtain ⟨⟨k, j⟩, inside, rfl⟩ := List.mem_map.mp mem
  obtain ⟨name, rfl⟩ := Prod.mk.inj same
  cases points_injective name
  exact ⟨j, inside, rfl⟩

theorem jsonValue_ofJson {j : Json} (wire : WireValue noFloats j) : jsonValue F (ofJson j) = .ok j := by
  obtain ⟨v, plain, normal, -⟩ := plain_read F (wire.anyFloats F)
  rw [← plain.eq_ofJson F normal wire]
  exact normal

theorem jsonItems_each {items : List (PyValue φ)} (each : ∀ v ∈ items, ∃ j, jsonValue F v = .ok j) :
    ∃ js, jsonItems F items = .ok js := by
  induction items with
  | nil => exact ⟨_, rfl⟩
  | cons v items ih =>
    obtain ⟨⟨j, here⟩, later⟩ := List.forall_mem_cons.mp each
    obtain ⟨js, later⟩ := ih later
    exact ⟨j :: js, by rw [jsonItems, here, ok_bind, later]; rfl⟩

theorem canonicalJson_texts {entries : List (PyStr × PyValue φ)}
    (each : ∀ e ∈ entries, (∃ name, e.1 = points name) ∧ ∃ j, jsonValue F e.2 = .ok j) :
    ∃ text, canonicalJson F (.dict (entries.map (fun e => (.str e.1, e.2)))) = .ok text := by
  have members : ∀ d : Dict String Json, ∃ d', jsonMembers F d (entries.map (fun e => (.str e.1, e.2))) = .ok d' := by
    induction entries with
    | nil => exact fun d => ⟨d, rfl⟩
    | cons e entries ih =>
      obtain ⟨⟨⟨name, key⟩, j, value⟩, later⟩ := List.forall_mem_cons.mp each
      intro d
      obtain ⟨d', rest⟩ := ih later (d.insert name j)
      refine ⟨d', ?_⟩
      rw [List.map_cons, jsonMembers, value, ok_bind, key, unicodeScalar_points, ok_bind, rest]
  obtain ⟨d, members⟩ := members Dict.empty
  exact ⟨canonicalText (.obj d.entries), by rw [canonicalJson, jsonValue, members]; rfl⟩

theorem carried_each {details : List (String × Json)} (h : Frameable details) :
    ∀ e ∈ (carriedOf (φ := φ) details).entries, (∃ name, e.1 = points name) ∧ ∃ j, jsonValue F e.2 = .ok j := by
  intro e he
  obtain ⟨⟨k, j⟩, mem, rfl⟩ := List.mem_map.mp he
  rw [Json.sortKeys, List.mem_insertionSort, Json.canonicalEntries_eq_map] at mem
  obtain ⟨⟨k', j'⟩, inside, same⟩ := List.mem_map.mp mem
  cases same
  exact ⟨⟨_, rfl⟩, _, jsonValue_ofJson F (WireValue.canonical noFloats (h.wire _ inside))⟩

theorem updated_each {P : PyStr × PyValue φ → Prop} {d : Dict PyStr (PyValue φ)} (first : ∀ e ∈ d.entries, P e)
    {entries : List (String × PyValue φ)} (more : ∀ e ∈ entries, P (points e.1, e.2)) :
    ∀ e ∈ (updated d entries).entries, P e := by
  unfold updated
  induction entries generalizing d with
  | nil => exact first
  | cons e entries ih =>
    obtain ⟨here, later⟩ := List.forall_mem_cons.mp more
    refine ih (fun p hp => ?_) later
    rcases Dict.mem_insert hp with rfl | hp
    · exact here
    · exact first p hp

theorem reframed_ok {details : List (String × Json)} (h : Frameable details) (limit : ℕ) (defect : Defect)
    (message : PyStr) : ∃ text, reframed F message (carriedOf details)
      (cyclePreview limit defect ((carriedOf details).get? (points "cycle"))) = .ok text := by
  unfold reframed
  split_ifs with none
  · exact ⟨message, rfl⟩
  · have each : ∀ e ∈ cyclePreview (φ := φ) limit defect ((carriedOf details).get? (points "cycle")),
        ∃ j, jsonValue F e.2 = .ok j := by
      intro e he
      unfold cyclePreview at he
      split_ifs at he
      · cases found : (carriedOf (φ := φ) details).get? (points "cycle") with
        | none =>
          rw [found] at he
          cases he
        | some v =>
          obtain ⟨-, j, normal⟩ := carried_each F h _ (Dict.mem_of_get? found)
          rw [found] at he
          cases v with
          | list items =>
            simp only [jsonValue, bind_eq_ok] at normal
            obtain ⟨js, normals, -⟩ := normal
            have taken : ∃ js, jsonItems F (items.take limit) = .ok js :=
              jsonItems_each F (fun v hv => jsonItems_item F normals (List.mem_of_mem_take hv))
            obtain ⟨js, taken⟩ := taken
            simp only [List.mem_cons, List.not_mem_nil, or_false] at he
            rcases he with rfl | rfl | rfl
            · exact ⟨.arr js, by rw [jsonValue, taken]; rfl⟩
            · exact ⟨_, rfl⟩
            · exact ⟨_, rfl⟩
          | _ => cases he
      · cases he
    obtain ⟨text, printed⟩ := canonicalJson_texts F
      (updated_each (carried_each F h) (fun e he => ⟨⟨e.1, rfl⟩, each e he⟩))
    exact ⟨_, by rw [printed]; rfl⟩

theorem ofJson_strs (l : List String) : ofJson (φ := φ) (Json.strs l) = .list (l.map (fun s => .str (points s))) := by
  rw [Json.strs, ofJson, ofJsonItems_eq, List.map_map]
  rfl

theorem ofJson_steps (l : GraphLocation) : ofJson (φ := φ) l.steps.canonical =
    .list (l.path.map (fun step => ofJson (stepJson step))) := by
  rw [GraphLocation.steps, Json.canonical, Json.canonicalItems_eq_map, ofJson, ofJsonItems_eq, List.map_map,
    List.map_map]
  congr 1
  refine List.map_congr_left fun step _ => ?_
  cases step <;> rfl

theorem path_ok {location : GraphLocation} {scope : ScopePath} {defect : Defect} {evidence : List (String × Json)}
    (proper : FaultEvidence evidence) :
    ∃ path, tupleOf ((carriedOf (φ := φ) (locatedEntries location scope defect evidence)).getD (points "path") (.list [])) =
      .ok path ∧ checkedPath path = .ok path := by
  cases found : (carriedOf (φ := φ) (locatedEntries location scope defect evidence)).get? (points "path") with
  | none =>
    rw [Dict.getD, found]
    exact ⟨[], rfl, rfl⟩
  | some v =>
    obtain ⟨j, mem, rfl⟩ := mem_of_get?_carriedOf found
    have steps : j = location.steps := by
      rcases List.mem_append.mp mem with mem | mem
      · rcases List.mem_append.mp mem with mem | mem
        · simp at mem
        · exact absurd (by simp) (proper.own _ mem)
      · cases retained : location.retained with
        | none =>
          rw [GraphLocation.place, retained] at mem
          cases List.mem_singleton.mp mem
          rfl
        | some version =>
          rw [GraphLocation.place, retained] at mem
          simp at mem
    rw [Dict.getD, found, steps, Option.getD_some, ofJson_steps]
    refine ⟨_, rfl, if_pos ?_⟩
    rw [List.all_map, List.all_eq_true]
    intro step _
    cases step <;> rfl

theorem classify_located (c : Classifier φ) (enough : 2 ≤ c.room) {location : GraphLocation} {scope : ScopePath}
    {defect : Defect} {evidence : List (String × Json)} (proper : FaultEvidence evidence) (prose : PyStr) :
    ∃ typed, classifyFault F c ((Fault.located location scope defect evidence).message prose) = .ok typed ∧
      typed.code = (locatedFault defect).1 := by
  obtain ⟨framed, frameable⟩ := @located_details location scope defect evidence proper
  have message : (Fault.located location scope defect evidence).message prose =
      prose ++ faultSeparator :: canonicalText (.obj (locatedEntries location scope defect evidence)) := by
    rw [Fault.message, framed]
  have named := namedDefect_text defect
  have known : ("defect", Json.str defect.text) ∈ locatedEntries location scope defect evidence := by
    simp [locatedEntries]
  have listed : ("scope", Json.strs scope) ∈ locatedEntries location scope defect evidence := by
    simp [locatedEntries]
  have read := framedDetails_framed F frameable known (.inr (by rw [named]; rfl)) enough prose
  have defects := get?_carriedOf (φ := φ) frameable.distinct known
  have scopes : (carriedOf (φ := φ) (locatedEntries location scope defect evidence)).get? (points "scope") =
      some (.list (scope.map (fun s => .str (points s)))) := by
    rw [get?_carriedOf frameable.distinct listed, Json.canonical_strs, ofJson_strs]
  have segments : segmentsOf (φ := φ) (scope.map (fun s => .str (points s))) = .ok (scope.map points) := by
    rw [segmentsOf, if_pos, List.filterMap_map]
    · congr 1
      exact congrFun (@List.filterMap_eq_map _ _ points) scope
    · rw [List.all_map, List.all_eq_true]
      exact fun s _ => rfl
  obtain ⟨path, tuple, checked⟩ := @path_ok φ location scope defect evidence proper
  obtain ⟨text, reframe⟩ := reframed_ok F frameable c.maxFaultDetailItems defect
    (prose ++ faultSeparator :: canonicalText (.obj (locatedEntries location scope defect evidence)))
  have entry : (((carriedOf (φ := φ) (locatedEntries location scope defect evidence)).get? (points "defect")).bind
      asText).bind namedDefect = some defect := by
    rw [defects]
    exact named
  rw [message, classifyFault, read, ok_bind]
  dsimp only
  rw [classifyFramed, entry]
  dsimp only
  rw [classifyLocated, tuple, ok_bind, reframe, ok_bind, scopes, expect_some, ok_bind, tupleOf, ok_bind, segments,
    ok_bind, checked, ok_bind]
  exact ⟨_, rfl, rfl⟩

theorem retained_frameable (component version : String) :
    Frameable [("defect", .str "retained_composite"), ("component", .str component), ("version", .str version)] where
  distinct := by simp
  wire := by
    intro e he
    simp only [List.mem_cons, List.not_mem_nil, or_false] at he
    rcases he with rfl | rfl | rfl <;> exact .str _
  nests := by
    intro e he
    simp only [List.mem_cons, List.not_mem_nil, or_false] at he
    rcases he with rfl | rfl | rfl <;> exact .str _

theorem classify_retained (c : Classifier φ) (enough : 2 ≤ c.room) (scope : ScopePath) (component version : String)
    (schemaFaults : List (Bool × String × String × String)) (differs : Bool) (prose : PyStr) :
    ∃ typed, classifyFault F c ((Fault.retainedComposite scope component version schemaFaults differs).message prose) =
      .ok typed ∧ typed.code = .graphContractInvalid := by
  have frameable := retained_frameable component version
  have read := framedDetails_framed F frameable List.mem_cons_self (.inl rfl) enough prose
  have defects := get?_carriedOf (φ := φ) frameable.distinct List.mem_cons_self
  have entry : (((carriedOf (φ := φ) [("defect", .str "retained_composite"), ("component", .str component),
      ("version", .str version)]).get? (points "defect")).bind asText).bind namedDefect = none := by
    have text : asText (ofJson (φ := φ) (Json.str "retained_composite").canonical) =
        some (points "retained_composite") := by rw [Json.canonical_str, ofJson, asText]
    rw [defects, Option.bind_some, text, Option.bind_some]
    exact retained_notDefect
  rw [Fault.message, Fault.details, classifyFault, read, ok_bind]
  dsimp only
  rw [classifyFramed, entry]
  exact ⟨classifyRetained c _ _, rfl, rfl⟩

end Constructicon
