import Constructicon.Identity
import Constructicon.Library.JsonNesting
import Constructicon.Validator

/-!
# The text of a fault

Most faults of an admission are texts: a scope as it stands, and words with names in their `repr`. A
fault that names its own defect carries the details of it after its prose, as canonical JSON behind a
separator. `spell` writes a text out; `Fault.Says` is the prose a fault may have.
-/

namespace Constructicon

open PyJson

inductive Piece where
  /-- words of the message -/
  | words (s : String)
  /-- inserted as it stands -/
  | raw (s : String)
  /-- `repr(s)` -/
  | quoted (s : String)
  /-- a list of texts -/
  | names (l : List String)
  | number (n : ℕ)

/-- The last `width` hexadecimal digits of a number. -/
def hexDigits (width n : ℕ) : PyStr := ((List.range width).map (fun i => hexChar (n / 16 ^ i % 16))).reverse

variable (printable : ℕ → Bool)

/-- How `repr` writes a character of a text in the quotes `q`; `printable` is the Unicode table of what
is printed beyond ASCII. -/
def reprUnit (q c : ℕ) : PyStr :=
  if c = q ∨ c = 92 then [92, c]
  else if c = 9 then [92, 116]
  else if c = 10 then [92, 110]
  else if c = 13 then [92, 114]
  else if c < 32 ∨ c = 127 then 92 :: 120 :: hexDigits 2 c
  else if c < 127 ∨ printable c then [c]
  else if c ≤ 0xff then 92 :: 120 :: hexDigits 2 c
  else if c ≤ 0xffff then 92 :: 117 :: hexDigits 4 c
  else 92 :: 85 :: hexDigits 8 c

/-- The quotes of a text: single ones, unless it holds such and no double ones. -/
def reprQuote (s : PyStr) : ℕ := if 39 ∈ s ∧ 34 ∉ s then 34 else 39

/-- `repr(s)` -/
def reprText (s : String) : PyStr :=
  reprQuote (points s) :: ((points s).flatMap (reprUnit printable (reprQuote (points s))) ++ [reprQuote (points s)])

/-- `repr` of a list of texts. -/
def reprNames (l : List String) : PyStr :=
  91 :: (List.intercalate [44, 32] (l.map (reprText printable)) ++ [93])

def Piece.spell : Piece → PyStr
  | .words s => points s
  | .raw s => points s
  | .quoted s => reprText printable s
  | .names l => reprNames printable l
  | .number n => decimal n

def spell (pieces : List Piece) : PyStr := pieces.flatMap (Piece.spell printable)

/-- `scope.render()` -/
def renderScope (scope : ScopePath) : String := if scope = [] then "<root>" else "/".intercalate scope

/-- `where` of `_validate_unique_ports` -/
def PortsSite.text : PortsSite → String
  | .rootInputs graph => graph ++ " graph inputs"
  | .rootOutputs graph => graph ++ " graph outputs"
  | .graphInputs scope => renderScope scope ++ " graph inputs"
  | .graphOutputs scope => renderScope scope ++ " graph outputs"
  | .bodyInputs scope => renderScope scope ++ " body inputs"
  | .bodyOutputs scope => renderScope scope ++ " body outputs"

/-- A reason of `channel_incoherence`. -/
inductive ChannelReason : List Piece → Prop
  | undescribed : ChannelReason [.words "the injected object implements Channel but its descriptor does not"]
  | noChannel : ChannelReason [.words "assembly injected no object implementing the Channel contract"]
  | serves (channel : String) : ChannelReason [.words "the injected transport serves ", .quoted channel]
  | profile (durability declared : String) (batch maxBatch : ℕ) : ChannelReason
      [.words "its injected profile \x7b'durability': ", .quoted durability,
        .words ", 'delivery': 'at_least_once', 'history': 'retained', 'max_batch': ", .number batch,
        .words "\x7d differs from the descriptor profile \x7b'durability': ", .quoted declared,
        .words ", 'delivery': 'at_least_once', 'history': 'retained', 'max_batch': ", .number maxBatch, .words "\x7d"]

/-- A reason of `canonical_exchange_fault`. -/
inductive ExchangeReason : List Piece → Prop
  | pairs (request reply required request' reply' : String) : ExchangeReason
      [.words "pairs ", .quoted request, .words " with ", .quoted reply, .words "; the canonical ", .raw required,
        .words " exchange pairs ", .quoted request', .words " with ", .quoted reply']
  | interaction (required interaction : String) : ExchangeReason
      [.words "is the canonical ", .raw required, .words " exchange, so its endpoint must seal interaction=",
        .quoted required, .words ", not ", .quoted interaction,
        .words " — otherwise the authority that answers it is not the authority it describes"]
  | approval (request reply : String) : ExchangeReason
      [.words "seals interaction='approval', whose sole consumer is request-bound runs_approve; that operation requires the canonical approval exchange ",
        .quoted request, .words " → ", .quoted reply]

/-- The message of a fault that is a text of its own; `continueHash` is `CONTINUE_SCHEMA_HASH`. -/
def Fault.pieces (continueHash : String) : Fault → List Piece
  | .duplicatePorts site names =>
    [.raw site.text, .words " declare duplicate port names ", .names names,
      .words "; port names are identities inside feedback and boundary maps"]
  | .missingInputs missing declared =>
    [.words "run inputs missing for graph input ports ", .names missing, .words "; declared inputs: ",
      .names declared]
  | .extraInputs extra declared =>
    [.words "run inputs ", .names extra, .words " match no declared graph input port; declared: ", .names declared]
  | .unusedPin pin =>
    [.raw ("/".intercalate pin.scope), .words ": counterfactual resolution lock pin ", .quoted pin.component,
      .words "@", .raw pin.version,
      .words " was not consumed — the override changed the source topology or removed a source scope"]
  | .nestedLoop scope =>
    [.raw (renderScope scope),
      .words ": nested Loop arrives with a later milestone; make the inner loop an ordinary bounded component or flatten the feedback for M4"]
  | .unknownComponent scope component registered =>
    [.raw (renderScope scope), .words ": unknown component ", .quoted component,
      .words "; registered components: ", .names registered]
  | .noStableVersion scope component registered =>
    [.raw (renderScope scope), .words ": component ", .quoted component,
      .words " has no stable version; registered versions: ", .names registered,
      .words " — promote one (registration never propagates; promotion does)"]
  | .danglingStable scope component stable =>
    [.raw (renderScope scope), .words ": component ", .quoted component, .words " stable pointer ", .quoted stable,
      .words " names no stored version — registry damage"]
  | .noVersion scope component version registered =>
    [.raw (renderScope scope), .words ": component ", .quoted component, .words " has no version ",
      version.elim (.words "None") .quoted, .words "; registered versions: ", .names registered]
  | .pinMissing scope component =>
    [.raw (renderScope scope), .words ": counterfactual resolution lock contains no pin for component ",
      .quoted component, .words " — topology-changing replay is refused"]
  | .pinMismatch scope pinned component =>
    [.raw (renderScope scope), .words ": resolution lock expects component ", .quoted pinned,
      .words ", graph resolves ", .quoted component, .words " — topology changed"]
  | .pinUnavailable scope pin =>
    [.raw (renderScope scope), .words ": resolution lock requires retained exact version ", .quoted pin.component,
      .words "@", .raw pin.version, .words ", but it is unavailable"]
  | .feedbackDestination scope input available =>
    [.raw (renderScope scope), .words ": feedback destination ", .quoted input,
      .words " is not a declared body input; available inputs: ", .names available]
  | .feedbackSource scope output available =>
    [.raw (renderScope scope), .words ": feedback source ", .quoted output,
      .words " is not a declared body output; available outputs: ", .names available]
  | .feedbackCardinality scope input output =>
    [.raw (renderScope scope), .words ": feedback ", .quoted input, .words " <- ", .quoted output,
      .words " requires cardinality 'one' on both ports; use an explicit adapter component before the feedback edge"]
  | .feedbackContract scope input output found expected =>
    [.raw (renderScope scope), .words ": feedback ", .quoted input, .words " <- ", .quoted output,
      .words " must preserve the exact nominal contract (type_id + schema_hash); found ", .quoted found.typeId,
      .words "@", .quoted found.schemaHash, .words " <- ", .quoted expected.typeId, .words "@",
      .quoted expected.schemaHash]
  | .continueMissing scope port available =>
    [.raw (renderScope scope), .words ": continue_from ", .quoted port,
      .words " is not a declared body output; available outputs: ", .names available]
  | .continueContract scope port =>
    [.raw (renderScope scope), .words ": continuation output ", .quoted port, .words " must be exactly ",
      .quoted continueType, .words "@", .quoted continueHash,
      .words " with cardinality 'one'; declare a boolean control port or add a deterministic adapter"]
  | .emptyLoop scope =>
    [.raw (renderScope scope),
      .words ": loop body contains no atomic component; M4 requires at least one checkpoint-owning invocation per iteration"]
  | .feedbackArity scope output count =>
    [.raw (renderScope scope), .words ": feedback source ", .quoted output,
      .words " must resolve to exactly one body source; found ", .number count]
  | .continueArity scope port =>
    [.raw (renderScope scope), .words ": continuation output ", .quoted port,
      .words " must resolve to exactly one body source"]
  | .postureWidened scope =>
    [.raw (renderScope scope), .words ": grant requests may only narrow — WRITE requested under a READ parent"]
  | .toolsWidened scope widened =>
    [.raw (renderScope scope), .words ": allowed_tools may only narrow; ", .names widened,
      .words " exceed the parent grant"]
  | .environmentWidened scope widened =>
    [.raw (renderScope scope), .words ": env_allowlist may only narrow; ", .names widened,
      .words " exceed the parent grant"]
  | .networkWidened scope =>
    [.raw (renderScope scope), .words ": network may only narrow — 'allow' requested under 'none'"]
  | .timeoutWidened scope requested parent =>
    [.raw (renderScope scope), .words ": timeout_s may only narrow; ", .number requested, .words " exceeds parent ",
      .number parent]
  | .unknownCapability scope aliasName capability catalog =>
    [.raw (renderScope scope), .words ": binding ", .quoted aliasName, .words " names unknown capability ",
      .quoted capability, .words "; catalog: ", .names catalog]
  | .postureNotOffered scope capability posture =>
    [.raw (renderScope scope), .words ": executor ", .quoted capability, .words " does not offer posture ",
      .quoted posture.text]
  | .postureNotEnforced scope capability posture =>
    [.raw (renderScope scope), .words ": executor ", .quoted capability, .words " cannot mechanically enforce posture ",
      .quoted posture.text, .words " — admission rejects, it never degrades (I1)"]
  | .requiresWrite scope capability posture =>
    [.raw (renderScope scope), .words ": capability ", .quoted capability,
      .words " requires WRITE posture; node grants are ", .quoted posture.text,
      .words " — isolation is admission logic, it never degrades (I1)"]
  | .channelIncoherent scope aliasName capability reason =>
    [.raw (renderScope scope), .words ": binding ", .quoted aliasName, .words " names capability ",
      .quoted capability, .words ", but ", .raw reason]
  | .channelWithoutEndpoint scope aliasName capability =>
    [.raw (renderScope scope), .words ": binding ", .quoted aliasName, .words " names channel ", .quoted capability,
      .words ", but assembly supplied no ChannelEndpoint — a channel-bound component requires sealed lane, interaction, and recipient"]
  | .channelPorts scope aliasName capability component inputs outputs =>
    [.raw (renderScope scope), .words ": binding ", .quoted aliasName, .words " addresses channel ",
      .quoted capability, .words ", so ", .quoted component,
      .words " must declare exactly one input (the request) and one output (the reply); it declares ", .number inputs,
      .words " and ", .number outputs, .words " — compose around a one-exchange component instead"]
  | .channelExchange scope aliasName capability =>
    [.raw (renderScope scope), .words ": binding ", .quoted aliasName, .words " to channel ", .quoted capability,
      .words " "]
  | .duplicateNodeIds graph => [.words "graph ", .quoted graph, .words " contains duplicate node ids"]
  | .unknownNode graph node =>
    [.words "graph ", .quoted graph, .words " references unknown node ", .quoted node]
  | .cycleOutsideLoop trail node =>
    [.words "cycle outside Loop involving ", .raw (" -> ".intercalate (trail ++ [node]))]
  | .retainedComposite .. | .executorUnavailable .. | .executorGrants .. | .located .. => []

end Constructicon
