import Constructicon.ClaudeProtocol
import Mathlib.Tactic

/-!
# The budgets of a Claude task transaction

The transaction writes to its peer out of one launcher budget, and accounts for it in three parts: what
is written before the turn, the replies to callbacks, and the observations after the result. A callback
is admitted only if the longest reply it can have still fits, because the worker may change its
workspace before it answers.

The records that arrive are the acts of a run: what the peer sends decides which write comes next, and
how much of the output has been captured at a callback.
-/

namespace Constructicon

namespace ReadTransaction

open PyJson Transaction ClaudeProtocol

/-! ## The recipe and its bounds -/

/-- `ClaudeNativeRecipe`, less `LOGIN`: the transaction is built for the other two only. -/
inductive Recipe where
  | streamJson
  | streamJsonWrite
deriving DecidableEq

namespace Recipe

def server : Recipe → String
  | .streamJsonWrite => "constructicon_write"
  | .streamJson => "constructicon_read"

def toolName : Recipe → String
  | .streamJsonWrite => "contained_python"
  | .streamJson => "read_file"

def argumentName : Recipe → String
  | .streamJsonWrite => "program"
  | .streamJson => "path"

def callLimit : Recipe → ℕ
  | .streamJsonWrite => 8
  | .streamJson => 1

def description : Recipe → String
  | .streamJsonWrite => "Execute bounded Python in the contained WRITE workspace."
  | .streamJson => "Read one relative workspace file."

def tool (recipe : Recipe) : Json :=
  .obj [("name", .str recipe.toolName), ("description", .str recipe.description),
    ("inputSchema", .obj [("type", .str "object"),
      ("properties", .obj [(recipe.argumentName, .obj [("type", .str "string")])]),
      ("required", .arr [.str recipe.argumentName]), ("additionalProperties", .bool false)])]

end Recipe

/-- `TEXT_BYTES` -/
def textBytes : ℕ := 64 * 1024

/-- `PATH_BYTES` -/
def pathBytes : ℕ := 1024

/-- `WRITE_PROGRAM_BYTES` -/
def writeProgramBytes : ℕ := 128 * 1024

/-- `WRITE_WORKER_LIMITS.stdout_bytes` -/
def writeOutputBytes : ℕ := 32 * 1024

/-- `STARTUP_INPUT_BYTES`, the `INPUT_BYTES` of the mode observation -/
def startupInputBytes : ℕ := 8 * 1024

/-- `MODE_OUTPUT_BYTES` -/
def modeOutputBytes : ℕ := 512 * 1024

/-- `_task_payload_bytes` -/
def taskPayloadBytes : Recipe → ℕ × ℕ
  | .streamJson => (pathBytes, textBytes)
  | .streamJsonWrite => (writeProgramBytes, writeOutputBytes)

def callbackReplyBytes (recipe : Recipe) : ℕ := recordBytes + 6 * (taskPayloadBytes recipe).2

/-- `_task_echo_bytes` -/
def taskEchoBytes (recipe : Recipe) : ℕ := recordBytes + 12 * (taskPayloadBytes recipe).2

/-! ## What is written -/

/-- `_observations`, the kinds in their order. -/
def observations : List String := ["initialize", "get_settings", "get_hooks_listing"]

/-- What `_control` writes to register the server of the task. -/
def registration (recipe : Recipe) (requestId : String) : List ℕ :=
  wire (.obj [("type", .str "control_request"), ("request_id", .str requestId),
    ("request", .obj [("subtype", .str "initialize"), ("sdkMcpServers", .arr [.str recipe.server])])])

/-- `POST_RESULT_INPUT_BYTES` -/
def postResultInputBytes : ℕ :=
  (observations.map fun kind => (request kind (String.ofList (List.replicate 32 '0'))).length).sum

def taskInputBytes (recipe : Recipe) : ℕ :=
  startupInputBytes + postResultInputBytes + recipe.callLimit * callbackReplyBytes recipe

/-- `_callback_response` -/
def callbackResponse (outer : String) (identifier result : Json) : List ℕ :=
  wire (.obj [("type", .str "control_response"), ("response", .obj [("subtype", .str "success"),
    ("request_id", .str outer), ("response", .obj [("mcp_response", .obj [("jsonrpc", .str "2.0"),
      ("id", identifier), ("result", result)])])])])

def toolResult (text : String) : Json :=
  .obj [("content", .arr [.obj [("type", .str "text"), ("text", .str text)]]), ("isError", .bool false)]

/-- The longest reply a callback can have: a text of zero bytes, each of which is printed with six. -/
def maximumReply (recipe : Recipe) (outer : String) (identifier : Json) : List ℕ :=
  callbackResponse outer identifier
    (toolResult (String.ofList (List.replicate (taskPayloadBytes recipe).2 (Char.ofNat 0))))

/-- `_text` -/
def isText (value : PyStr) (limit : ℕ) : Bool :=
  (unicodeScalar value).toBool && (utf8 value).length ≤ limit

/-- `_text` of a JSON value. -/
def isTextValue : Json → ℕ → Bool
  | .str s, limit => isText (points s) limit
  | _, _ => false

/-- `validate_read_path` -/
def validateReadPath : Json → Bool
  | .str s =>
    s.toList ≠ [] && s.toList.head? ≠ some '/' &&
      !(s.toList.any fun c => [Char.ofNat 92, Char.ofNat 58, Char.ofNat 0].contains c) &&
      (utf8 (points s)).length ≤ pathBytes &&
      (s.toList.splitOn '/').all fun part => !([[], ['.'], ['.', '.']].contains part)
  | _ => false

/-- `validate_write_program` -/
def validateWriteProgram (value : Json) : Bool := isTextValue value writeProgramBytes

def validateArgument : Recipe → Json → Bool
  | .streamJson => validateReadPath
  | .streamJsonWrite => validateWriteProgram

/-! ## The transaction -/

structure Task where
  recipe : Recipe
  inputLimit : ℕ
  outputLimit : ℕ
  userUuid : String
  instruction : String

/-- How far `_body` is: the observations asked for so far, before the turn or after its result. -/
inductive Stage where
  | observing (asked : ℕ)
  | registering
  | dispatched
  | checking (asked : ℕ)
deriving DecidableEq

def Stage.underWay : Stage → Bool
  | .dispatched => true
  | .checking _ => true
  | _ => false

structure State where
  stage : Stage
  inputBytes : ℕ
  startupBytes : ℕ
  postBytes : ℕ
  outerIds : List String
  rpcIds : List Json
  handshake : ℕ
  calls : ℕ
  callsCompleted : ℕ
  commandCompleted : Bool
  session : Option String
  terminalResultAccepted : Bool
  /-- The callback whose worker runs: its two ids. -/
  serving : Option (String × Json)

def State.new : State where
  stage := .observing 0
  inputBytes := 0
  startupBytes := 0
  postBytes := 0
  outerIds := []
  rpcIds := []
  handshake := 0
  calls := 0
  callsCompleted := 0
  commandCompleted := false
  session := none
  terminalResultAccepted := false
  serving := none

/-- `ClaudeReadRefusalCode`, as far as the modelled guards raise it. -/
inductive Refusal where
  | streamBound
  | mcpEnvelope
  | mcpHandshake
  | mcpCall
  | mcpArguments
  | lifecycle
  /-- not an act of the code at this stage -/
  | notNext
deriving DecidableEq

/-- What `_write` spends: a callback draws on the launcher budget alone, any other write on the budget of its
part too. -/
def spend (t : State) (raw : List ℕ) (callback : Bool) : State :=
  { t with
    inputBytes := t.inputBytes + raw.length
    postBytes := if callback = false ∧ t.terminalResultAccepted then t.postBytes + raw.length else t.postBytes
    startupBytes :=
      if callback = false ∧ t.terminalResultAccepted = false then t.startupBytes + raw.length else t.startupBytes }

def recordBound (k : Task) (callback : Bool) : ℕ := if callback then callbackReplyBytes k.recipe else recordBytes

/-- `_write`: what is written is spent before it is delivered. -/
def write (k : Task) (t : State) (raw : List ℕ) (callback : Bool) : Except Refusal State := do
  let t := spend t raw callback
  require (¬(k.inputLimit < t.inputBytes ∨ recordBound k callback < raw.length ∨ startupInputBytes < t.startupBytes ∨
    postResultInputBytes < t.postBytes)) .streamBound
  return t

/-- `message.get("params", {})` -/
def params (message : List (String × Json)) : Json := (Dict.find message "params").getD (.obj [])

def isIdentifier : Json → Bool
  | .int n => isText (integer n) 128
  | .str s => isText (points s) 128
  | _ => false

/-- What `_mcp` has read of a record: its two ids, the method and the message. -/
structure Envelope where
  outer : String
  identifier : Json
  method : Json
  message : List (String × Json)

/-- The names `_mcp` requires of the outer request. -/
def requested (k : Task) (t : State) (outer : String) (request : List (String × Json)) : Bool :=
  isText (points outer) 128 && outer ≠ "" && !t.outerIds.contains outer &&
    hasKeys request ["subtype", "server_name", "message"] &&
    member request "subtype" = .str "mcp_message" && member request "server_name" = .str k.recipe.server

/-- The ids of a message: an acknowledgement of the native notification is given under 0, and every other id
is used once. -/
def identify (t : State) (message : List (String × Json)) : Except Refusal (Json × State) :=
  if member message "method" = .str "notifications/initialized" then do
    require ((Dict.find message "id").isNone ∧ params message = .obj []) .mcpEnvelope
    return (.int 0, t)
  else do
    let identifier := member message "id"
    require (isIdentifier identifier ∧ identifier ∉ t.rpcIds) .mcpEnvelope
    return (identifier, { t with rpcIds := identifier :: t.rpcIds })

/-- The first half of `_mcp`: the envelope of a record. -/
def envelope (k : Task) (t : State) (value : Json) : Except Refusal (Envelope × State) := do
  let entries ← expect (members value) .mcpEnvelope
  require (hasKeys entries ["type", "request_id", "request"]) .mcpEnvelope
  let outer ← expect (member entries "request_id").text .mcpEnvelope
  let request ← expect (members (member entries "request")) .mcpEnvelope
  require (requested k t outer request) .mcpEnvelope
  let message ← expect (members (member request "message")) .mcpEnvelope
  require (member message "jsonrpc" = .str "2.0" ∧ keysWithin message ["jsonrpc", "id", "method", "params"])
    .mcpEnvelope
  let (identifier, t) ← identify { t with outerIds := outer :: t.outerIds } message
  return (⟨outer, identifier, member message "method", message⟩, t)

/-! ### The handshake -/

def clientKeys : List String := ["name", "version", "title", "description", "websiteUrl"]

/-- The parameters of the native `initialize`. -/
def handshakeParams (value : Json) : Bool :=
  match members value with
  | none => false
  | some entries =>
    hasKeys entries ["protocolVersion", "capabilities", "clientInfo"] &&
      member entries "protocolVersion" = .str "2025-11-25" && member entries "capabilities" = .obj [] &&
      match members (member entries "clientInfo") with
      | none => false
      | some client =>
        member client "name" = .str "claude-code" && member client "version" = .str "2.1.296" &&
          keysWithin client clientKeys && client.all fun e => isTextValue e.2 1024

def handshakeResult (k : Task) (t : State) (e : Envelope) : Except Refusal Json :=
  if t.handshake = 0 ∧ e.method = .str "initialize" then do
    require (handshakeParams (member e.message "params")) .mcpHandshake
    return .obj [("protocolVersion", .str "2025-11-25"), ("capabilities", .obj [("tools", .obj [])]),
      ("serverInfo", .obj [("name", .str k.recipe.server), ("version", .str "1")])]
  else if t.handshake = 1 ∧ e.method = .str "notifications/initialized" then .ok (.obj [])
  else if t.handshake = 2 ∧ e.method = .str "tools/list" then do
    require (params e.message = .obj []) .mcpHandshake
    return .obj [("tools", .arr [k.recipe.tool])]
  else .error .mcpHandshake

/-- `_mcp(value, handshake=True)` -/
def handshake (k : Task) (t : State) (value : Json) : Except Refusal State := do
  let (e, t) ← envelope k t value
  let result ← handshakeResult k t e
  write k { t with handshake := t.handshake + 1 } (callbackResponse e.outer e.identifier result) false

/-! ### A call -/

/-- What the barrier before a callback has found: the output captured so far, and whether a record before it
completed the command. -/
structure Barrier where
  captured : ℕ
  completed : Bool

def callArgument (k : Task) (message : List (String × Json)) : Except Refusal Json := do
  let entries ← expect (members (member message "params")) .mcpCall
  require ((hasKeys entries ["name", "arguments"] ∨
      hasKeys entries ["name", "arguments", "_meta"] ∧ (members (member entries "_meta")).isSome) ∧
    member entries "name" = .str k.recipe.toolName) .mcpCall
  let arguments ← expect (members (member entries "arguments")) .mcpArguments
  require (hasKeys arguments [k.recipe.argumentName]) .mcpArguments
  let argument := member arguments k.recipe.argumentName
  require (validateArgument k.recipe argument) .mcpArguments
  return argument

/-- The input half of the budget check: the longest reply and the observations after the result fit. -/
def replyReserved (k : Task) (t : State) (outer : String) (identifier : Json) : Prop :=
  t.inputBytes + (maximumReply k.recipe outer identifier).length + postResultInputBytes ≤ k.inputLimit

def replySized (k : Task) (outer : String) (identifier : Json) : Prop :=
  (maximumReply k.recipe outer identifier).length ≤ callbackReplyBytes k.recipe

def echoReserved (k : Task) (captured : ℕ) : Prop :=
  captured + taskEchoBytes k.recipe + modeOutputBytes ≤ k.outputLimit

instance (k : Task) (t : State) (outer : String) (identifier : Json) : Decidable (replyReserved k t outer identifier) :=
  inferInstanceAs (Decidable (_ ≤ _))

instance (k : Task) (outer : String) (identifier : Json) : Decidable (replySized k outer identifier) :=
  inferInstanceAs (Decidable (_ ≤ _))

instance (k : Task) (captured : ℕ) : Decidable (echoReserved k captured) := inferInstanceAs (Decidable (_ ≤ _))

/-- `_mcp(value)` up to the start of the worker: a call that passes is spent. -/
def call (k : Task) (t : State) (value : Json) (barrier : Barrier) : Except Refusal State := do
  let (e, t) ← envelope k t value
  require (t.commandCompleted = false) .lifecycle
  require (t.stage = .dispatched ∧ t.session.isSome ∧ e.method = .str "tools/call" ∧ t.calls < k.recipe.callLimit)
    .mcpCall
  let _ ← callArgument k e.message
  require (barrier.completed = false) .lifecycle
  require (replySized k e.outer e.identifier ∧ replyReserved k t e.outer e.identifier ∧ echoReserved k barrier.captured)
    .streamBound
  return { t with calls := t.calls + 1, serving := some (e.outer, e.identifier) }

/-- The rest of `_mcp`: the text of the worker is written back. -/
def reply (k : Task) (t : State) (text : PyStr) : Except Refusal State := do
  let (outer, identifier) ← expect t.serving .notNext
  require (isText text (taskPayloadBytes k.recipe).2) .mcpCall
  let t ← write k { t with serving := none }
    (callbackResponse outer identifier (toolResult (String.ofList (text.map Char.ofNat)))) true
  return { t with callsCompleted := t.callsCompleted + 1 }

/-! ### Runs -/

def userMessage (k : Task) : List ℕ :=
  wire (.obj [("type", .str "user"), ("uuid", .str k.userUuid),
    ("message", .obj [("role", .str "user"), ("content", .str k.instruction)]),
    ("parent_tool_use_id", .null), ("client_composed", .bool true)])

/-- What happens next in `_body`: a request of its own is written, or a record of the peer has been read that
is not refused and not a sideband. -/
inductive Act where
  | observe (token : Token)
  | register (token : Token)
  | handshake (value : Json)
  | user
  | init (session : String)
  | call (value : Json) (barrier : Barrier)
  | reply (text : PyStr)
  /-- a lifecycle record that completes the command -/
  | completed
  /-- the terminal result -/
  | result

/-- The next of `_observations`. -/
def observe (k : Task) (t : State) (token : Token) : Except Refusal State :=
  match t.stage with
  | .observing asked => do
    let kind ← expect observations[asked]? .notNext
    write k { t with stage := .observing (asked + 1) } (request kind token.text) false
  | .checking asked => do
    let kind ← expect observations[asked]? .notNext
    write k { t with stage := .checking (asked + 1) } (request kind token.text) false
  | _ => .error .notNext

def act (k : Task) (t : State) : Act → Except Refusal State
  | .observe token => do
    require t.serving.isNone .notNext
    observe k t token
  | .register token => do
    require (t.stage = .observing 3) .notNext
    write k { t with stage := .registering } (registration k.recipe token.text) false
  | .handshake value => do
    require (t.stage = .registering) .notNext
    handshake k t value
  | .user => do
    require (t.stage = .registering ∧ t.handshake = 3) .notNext
    write k { t with stage := .dispatched } (userMessage k) false
  | .init session => do
    require (t.stage = .dispatched ∧ t.serving.isNone ∧ t.session.isNone) .notNext
    return { t with session := some session }
  | .call value barrier => do
    require t.serving.isNone .notNext
    call k t value barrier
  | .reply text => reply k t text
  | .completed => do
    require (t.stage.underWay ∧ t.calls = t.callsCompleted) .lifecycle
    return { t with commandCompleted := true }
  | .result => do
    require (t.stage = .dispatched ∧ t.serving.isNone ∧ t.session.isSome) .notNext
    return { t with stage := .checking 0, terminalResultAccepted := true }

inductive Reachable (k : Task) : State → Prop
  | new : Reachable k .new
  | act {t u : State} {a : Act} (held : Reachable k t) (ran : act k t a = .ok u) : Reachable k u

/-! ## How long a printed text is -/

theorem utf8_append (a b : PyStr) : utf8 (a ++ b) = utf8 a ++ utf8 b := by
  simp [utf8]

theorem utf8_cons (c : ℕ) (a : PyStr) : utf8 (c :: a) = utf8 [c] ++ utf8 a := utf8_append [c] a

theorem size_point : ∀ c < 128, (utf8 [c]).length = 1 := by
  decide

theorem size_pos (c : ℕ) : 0 < (utf8 [c]).length := by
  have whole := Utf8.size_pos (Char.ofNat c)
  simpa [utf8] using whole

theorem size_ascii {text : PyStr} (small : ∀ c ∈ text, c < 128) : (utf8 text).length = text.length := by
  induction text with
  | nil => rfl
  | cons c text ih =>
    have rest := ih fun d held => small d (List.mem_cons_of_mem _ held)
    have one := size_point c (small c List.mem_cons_self)
    rw [utf8_cons, List.length_append, rest, one, List.length_cons]
    omega

theorem hexChar_small {n : ℕ} (digit : n < 16) : hexChar n < 128 := by
  unfold hexChar
  split_ifs <;> omega

theorem size_escape (c : ℕ) : (utf8 (escape c)).length ≤ 6 * (utf8 [c]).length := by
  have own := size_pos c
  by_cases control : c < 32
  · have low : ∀ d ∈ escape c, d < 128 := by
      intro d held
      have high := hexChar_small (n := c / 16) (by omega)
      have last := hexChar_small (n := c % 16) (by omega)
      unfold escape at held
      split_ifs at held <;> simp only [List.mem_cons, List.not_mem_nil, or_false] at held <;> omega
    have short : (escape c).length ≤ 6 := by
      unfold escape
      split_ifs <;> simp
    rw [size_ascii low]
    omega
  · unfold escape
    rw [if_neg (by omega : ¬c = 8), if_neg (by omega : ¬c = 9), if_neg (by omega : ¬c = 10),
      if_neg (by omega : ¬c = 12), if_neg (by omega : ¬c = 13), if_neg control]
    by_cases quoted : c = 34 ∨ c = 92
    · have low : ∀ d ∈ [92, c], d < 128 := by
        intro d held
        simp only [List.mem_cons, List.not_mem_nil, or_false] at held
        omega
      have two := size_ascii low
      rw [if_pos quoted, two]
      simp only [List.length_cons, List.length_nil]
      omega
    · rw [if_neg quoted]
      omega

theorem size_escaped (text : PyStr) : (utf8 (text.flatMap escape)).length ≤ 6 * (utf8 text).length := by
  induction text with
  | nil => simp [utf8]
  | cons c text ih =>
    have first := size_escape c
    rw [List.flatMap_cons, utf8_append, utf8_cons, List.length_append, List.length_append]
    omega

theorem size_quoted (text : PyStr) : (utf8 (quote text)).length = (utf8 (text.flatMap escape)).length + 2 := by
  have marks : (utf8 [34]).length = 1 := size_point 34 (by omega)
  have split : utf8 (quote text) = utf8 [34] ++ (utf8 (text.flatMap escape) ++ utf8 [34]) := by
    rw [quote, utf8_cons, utf8_append]
  rw [split, List.length_append, List.length_append, marks]
  omega

theorem size_quote (text : PyStr) : (utf8 (quote text)).length ≤ 6 * (utf8 text).length + 2 := by
  have inside := size_escaped text
  rw [size_quoted]
  omega

theorem size_zeros (count : ℕ) :
    (utf8 (quote (points (String.ofList (List.replicate count (Char.ofNat 0)))))).length = 6 * count + 2 := by
  have zeros : points (String.ofList (List.replicate count (Char.ofNat 0))) = List.replicate count 0 := by
    simp [points]
  have six : (utf8 (escape 0)).length = 6 := by decide
  have whole : ∀ n, (utf8 ((List.replicate n 0).flatMap escape)).length = 6 * n := by
    intro n
    induction n with
    | zero => rfl
    | succ n ih =>
      rw [List.replicate_succ, List.flatMap_cons, utf8_append, List.length_append, ih, six]
      omega
  rw [zeros, size_quoted, whole]

theorem size_cons (c : ℕ) (text : PyStr) :
    (utf8 (c :: text)).length = (String.utf8EncodeChar (Char.ofNat c)).length + (utf8 text).length := by
  simp [utf8]

theorem size_append (a b : PyStr) : (utf8 (a ++ b)).length = (utf8 a).length + (utf8 b).length := by
  rw [utf8_append, List.length_append]

theorem size_nil : (utf8 []).length = 0 := rfl

theorem length_callbackResponse (outer : String) (identifier result : Json) :
    (callbackResponse outer identifier result).length + (utf8 (quote [])).length + 2 * (utf8 (dumps .null)).length =
      (callbackResponse "" .null .null).length + (utf8 (quote (points outer))).length +
        (utf8 (dumps identifier)).length + (utf8 (dumps result)).length := by
  have empty : points "" = [] := rfl
  simp only [callbackResponse, wire, dumps, dumpsMembers, size_cons, size_append, size_nil, List.length_append, empty]
  omega

theorem length_toolResult (text : String) :
    (utf8 (dumps (toolResult text))).length + (utf8 (quote [])).length =
      (utf8 (dumps (toolResult ""))).length + (utf8 (quote (points text))).length := by
  have empty : points "" = [] := rfl
  simp only [toolResult, dumps, dumpsMembers, dumpsItems, size_cons, size_append, size_nil, empty]
  omega

theorem length_request (subtype requestId : String) :
    (request subtype requestId).length + (utf8 (quote [])).length =
      (request subtype "").length + (utf8 (quote (points requestId))).length := by
  have empty : points "" = [] := rfl
  simp only [request, wire, dumps, dumpsMembers, size_cons, size_append, size_nil, List.length_append, empty]
  omega

theorem utf8_written (text : PyStr) : utf8 (points (String.ofList (text.map Char.ofNat))) = utf8 text := by
  simp [utf8, points, Function.comp_def]

theorem size_of_isText {text : PyStr} {limit : ℕ} (short : isText text limit = true) :
    (utf8 text).length ≤ limit := by
  simp only [isText, Bool.and_eq_true, decide_eq_true_eq] at short
  exact short.2

theorem length_reply_le {recipe : Recipe} {text : PyStr} (outer : String) (identifier : Json)
    (short : isText text (taskPayloadBytes recipe).2 = true) :
    (callbackResponse outer identifier (toolResult (String.ofList (text.map Char.ofNat)))).length ≤
      (maximumReply recipe outer identifier).length := by
  have small := size_of_isText short
  have printed := size_quote (points (String.ofList (text.map Char.ofNat)))
  have longest := size_zeros (taskPayloadBytes recipe).2
  rw [utf8_written] at printed
  have own := length_toolResult (String.ofList (text.map Char.ofNat))
  have most := length_toolResult (String.ofList (List.replicate (taskPayloadBytes recipe).2 (Char.ofNat 0)))
  have reply := length_callbackResponse outer identifier (toolResult (String.ofList (text.map Char.ofNat)))
  have bound := length_callbackResponse outer identifier
    (toolResult (String.ofList (List.replicate (taskPayloadBytes recipe).2 (Char.ofNat 0))))
  unfold maximumReply
  omega

theorem size_identifier {identifier : Json} (legal : isIdentifier identifier = true) :
    (utf8 (dumps identifier)).length ≤ 6 * 128 + 2 := by
  cases identifier with
  | int n =>
    have short := @size_of_isText (integer n) _ legal
    change (utf8 (integer n)).length ≤ _
    omega
  | str s =>
    have short := @size_of_isText (points s) _ legal
    have printed := size_quote (points s)
    change (utf8 (quote (points s))).length ≤ _
    omega
  | null => cases legal
  | bool b => cases legal
  | float f => cases legal
  | arr items => cases legal
  | obj entries => cases legal

theorem length_frame : (callbackResponse "" .null .null).length + (utf8 (dumps (toolResult ""))).length ≤ 256 := by
  decide +kernel

theorem sized {k : Task} {outer : String} {identifier : Json} (short : isText (points outer) 128 = true)
    (legal : isIdentifier identifier = true) : replySized k outer identifier := by
  have name := size_of_isText short
  have printed := size_quote (points outer)
  have number := size_identifier legal
  have longest := size_zeros (taskPayloadBytes k.recipe).2
  have most := length_toolResult (String.ofList (List.replicate (taskPayloadBytes k.recipe).2 (Char.ofNat 0)))
  have bound := length_callbackResponse outer identifier
    (toolResult (String.ofList (List.replicate (taskPayloadBytes k.recipe).2 (Char.ofNat 0))))
  have frame := length_frame
  unfold replySized callbackReplyBytes recordBytes maximumReply
  omega

/-! ### Tokens -/

theorem escape_digit : ∀ c ∈ "0123456789abcdef".toList, escape c.toNat = [c.toNat] ∧ c.toNat < 128 := by
  have all : ("0123456789abcdef".toList.all fun c => escape c.toNat = [c.toNat] ∧ c.toNat < 128) = true := by
    decide
  intro c digit
  exact decide_eq_true_eq.mp (List.all_eq_true.mp all c digit)

theorem size_token (token : Token) : (utf8 (quote (points token.text))).length = 34 := by
  have plain : ∀ chars : List Char, (∀ c ∈ chars, c ∈ "0123456789abcdef".toList) →
      (utf8 ((chars.map Char.toNat).flatMap escape)).length = chars.length := by
    intro chars digits
    induction chars with
    | nil => rfl
    | cons c chars ih =>
      obtain ⟨own, small⟩ := escape_digit c (digits c List.mem_cons_self)
      have one := size_point c.toNat small
      have rest := ih fun d held => digits d (List.mem_cons_of_mem _ held)
      rw [List.map_cons, List.flatMap_cons, size_append, own, one, rest, List.length_cons]
      omega
  rw [size_quoted, points, plain token.text.toList token.digits, token.width]

theorem zeros_digits : ∀ c ∈ (String.ofList (List.replicate 32 '0')).toList, c ∈ "0123456789abcdef".toList := by
  have digit : "0123456789abcdef".toList.contains '0' = true := by decide
  intro c zero
  rw [String.toList_ofList] at zero
  rw [List.eq_of_mem_replicate zero]
  exact List.contains_iff_mem.mp digit

/-- The token `POST_RESULT_INPUT_BYTES` is counted with. -/
def zeroToken : Token where
  text := String.ofList (List.replicate 32 '0')
  width := by simp
  digits := zeros_digits

theorem length_request_token (subtype : String) (token : Token) :
    (request subtype token.text).length = (request subtype zeroToken.text).length := by
  have own := length_request subtype token.text
  have zero := length_request subtype zeroToken.text
  rw [size_token] at own zero
  omega

/-! ## The three budgets -/

def postDue : Stage → ℕ
  | .checking asked => ((observations.take asked).map fun kind => (request kind zeroToken.text).length).sum
  | _ => 0

/-- The account of a transaction: each part within its budget, one bound for each answered callback. -/
structure Within (k : Task) (t : State) : Prop where
  startup : t.startupBytes ≤ startupInputBytes
  spent : t.inputBytes ≤ t.startupBytes + t.postBytes + t.callsCompleted * callbackReplyBytes k.recipe
  counted : t.calls = t.callsCompleted + if t.serving.isSome then 1 else 0
  accepted : t.terminalResultAccepted = true ↔ ∃ asked, t.stage = .checking asked
  post : t.postBytes = postDue t.stage
  served : t.serving.isSome → t.stage = .dispatched

theorem Within.new (k : Task) : Within k .new where
  startup := Nat.zero_le _
  spent := Nat.zero_le _
  counted := rfl
  accepted := by simp [State.new]
  post := rfl
  served := by simp [State.new]

theorem write_eq_ok {k : Task} {t u : State} {raw : List ℕ} {callback : Bool} :
    write k t raw callback = .ok u ↔ u = spend t raw callback ∧ u.inputBytes ≤ k.inputLimit ∧
      raw.length ≤ recordBound k callback ∧ u.startupBytes ≤ startupInputBytes ∧ u.postBytes ≤ postResultInputBytes := by
  unfold write
  simp only [bind_eq_ok, require_eq_ok, not_or, not_lt]
  constructor
  · rintro ⟨-, ⟨input, record, startup, post⟩, same⟩
    cases same
    exact ⟨rfl, input, record, startup, post⟩
  · rintro ⟨rfl, input, record, startup, post⟩
    exact ⟨(), ⟨input, record, startup, post⟩, rfl⟩

theorem Within.startupWrite {k : Task} {t u : State} {raw : List ℕ} (held : Within k t)
    (before : t.terminalResultAccepted = false) (ran : write k t raw false = .ok u) : Within k u := by
  obtain ⟨rfl, -, -, startup, -⟩ := write_eq_ok.mp ran
  have spent := held.spent
  refine ⟨startup, ?_, held.counted, held.accepted, ?_, held.served⟩
  · simp only [spend, before, Bool.false_eq_true, and_false, if_false, and_self, if_true]
    omega
  · simp only [spend, before, Bool.false_eq_true, and_false, if_false]
    exact held.post

theorem Within.stage {k : Task} {t : State} (held : Within k t) (s : Stage) (idle : t.serving = none)
    (before : t.terminalResultAccepted = false) (early : ∀ asked, s ≠ .checking asked) :
    Within k { t with stage := s } := by
  have none_spent : postDue t.stage = 0 := by
    cases stage : t.stage with
    | checking asked =>
      have accepted := held.accepted.mpr ⟨asked, stage⟩
      rw [before] at accepted
      cases accepted
    | observing asked => rfl
    | registering => rfl
    | dispatched => rfl
  have due : postDue s = 0 := by
    cases s with
    | checking asked => exact absurd rfl (early asked)
    | observing asked => rfl
    | registering => rfl
    | dispatched => rfl
  refine ⟨held.startup, held.spent, held.counted, ?_, ?_, ?_⟩
  · constructor
    · intro accepted
      rw [before] at accepted
      cases accepted
    · rintro ⟨asked, same⟩
      exact absurd same (early asked)
  · have post := held.post
    rw [none_spent] at post
    rw [due]
    exact post
  · intro serving
    rw [idle] at serving
    cases serving

theorem Within.before {k : Task} {t : State} (held : Within k t) (early : ∀ asked, t.stage ≠ .checking asked) :
    t.terminalResultAccepted = false := by
  rw [← Bool.not_eq_true]
  intro accepted
  obtain ⟨asked, same⟩ := held.accepted.mp accepted
  exact early asked same

theorem Within.idle {k : Task} {t : State} (held : Within k t) (elsewhere : t.stage ≠ .dispatched) :
    t.serving = none := by
  by_contra busy
  exact elsewhere (held.served (Option.isSome_iff_ne_none.mpr busy))

/-! ### Envelopes -/

theorem identify_eq_ok {t u : State} {message : List (String × Json)} {identifier : Json}
    (read : identify t message = .ok (identifier, u)) :
    isIdentifier identifier = true ∧ ∃ ids, u = { t with rpcIds := ids } := by
  unfold identify at read
  split_ifs at read with native
  · obtain ⟨-, -, same⟩ := bind_eq_ok.mp read
    cases same
    exact ⟨by decide, t.rpcIds, rfl⟩
  · obtain ⟨⟨⟩, legal, same⟩ := bind_eq_ok.mp read
    cases same
    exact ⟨(require_eq_ok.mp legal).1, _, rfl⟩

theorem envelope_eq_ok {k : Task} {t u : State} {value : Json} {e : Envelope}
    (read : envelope k t value = .ok (e, u)) :
    isText (points e.outer) 128 = true ∧ isIdentifier e.identifier = true ∧
      ∃ outers ids, u = { t with outerIds := outers, rpcIds := ids } := by
  simp only [envelope, bind_eq_ok, expect_eq_ok, require_eq_ok] at read
  obtain ⟨entries, -, -, -, outer, -, asked, -, -, named, message, -, -, -, ⟨identifier, after⟩, ids, same⟩ := read
  cases same
  obtain ⟨legal, used, rfl⟩ := identify_eq_ok ids
  refine ⟨?_, legal, outer :: t.outerIds, used, rfl⟩
  simp only [requested, Bool.and_eq_true] at named
  exact named.1.1.1.1.1

theorem envelope_eq_error {k : Task} {t : State} {value : Json} {f : Refusal} (refused : envelope k t value = .error f) :
    f = .mcpEnvelope := by
  simp only [envelope, bind_eq_error, expect_eq_error, require_eq_error] at refused
  rcases refused with ⟨-, rfl⟩ | ⟨entries, -, ⟨-, rfl⟩ | ⟨-, -, ⟨-, rfl⟩ | ⟨outer, -, ⟨-, rfl⟩ | ⟨asked, -,
    ⟨-, rfl⟩ | ⟨-, -, ⟨-, rfl⟩ | ⟨message, -, ⟨-, rfl⟩ | ⟨-, -, refused | ⟨r, -, refused⟩⟩⟩⟩⟩⟩⟩⟩
  all_goals first | rfl | skip
  · unfold identify at refused
    split_ifs at refused
    · rcases bind_eq_error.mp refused with guarded | ⟨-, -, same⟩
      · exact (require_eq_error.mp guarded).2.symm
      · cases same
    · rcases bind_eq_error.mp refused with guarded | ⟨-, -, same⟩
      · exact (require_eq_error.mp guarded).2.symm
      · cases same
  · cases refused

theorem callArgument_eq_error {k : Task} {message : List (String × Json)} {f : Refusal}
    (refused : callArgument k message = .error f) : f = .mcpCall ∨ f = .mcpArguments := by
  simp only [callArgument, bind_eq_error, expect_eq_error, require_eq_error] at refused
  rcases refused with ⟨-, rfl⟩ | ⟨entries, -, ⟨-, rfl⟩ | ⟨-, -, ⟨-, rfl⟩ | ⟨arguments, -, ⟨-, rfl⟩ | ⟨-, -,
    ⟨-, rfl⟩ | ⟨-, -, same⟩⟩⟩⟩⟩
  all_goals first | exact Or.inl rfl | exact Or.inr rfl | cases same

/-! ### Calls -/

theorem call_eq_ok {k : Task} {t u : State} {value : Json} {barrier : Barrier}
    (ran : call k t value barrier = .ok u) :
    ∃ outer identifier outers ids, t.stage = .dispatched ∧ t.calls < k.recipe.callLimit ∧
      replySized k outer identifier ∧ replyReserved k t outer identifier ∧
      u = { t with outerIds := outers, rpcIds := ids, calls := t.calls + 1, serving := some (outer, identifier) } := by
  simp only [call, bind_eq_ok, require_eq_ok] at ran
  obtain ⟨⟨e, after⟩, read, -, -, -, ⟨stage, -, -, below⟩, -, -, -, -, -, ⟨sized, reserved, -⟩, same⟩ := ran
  cases same
  obtain ⟨-, -, outers, ids, rfl⟩ := envelope_eq_ok read
  exact ⟨e.outer, e.identifier, outers, ids, stage, below, sized, reserved, rfl⟩

theorem call_eq_streamBound {k : Task} {t : State} {value : Json} {barrier : Barrier}
    (refused : call k t value barrier = .error .streamBound) :
    ∃ outer identifier, isText (points outer) 128 = true ∧ isIdentifier identifier = true ∧
      t.stage = .dispatched ∧ t.calls < k.recipe.callLimit ∧
      ¬(replySized k outer identifier ∧ replyReserved k t outer identifier ∧ echoReserved k barrier.captured) := by
  unfold call at refused
  rcases bind_eq_error.mp refused with outside | ⟨⟨e, after⟩, read, refused⟩
  · cases envelope_eq_error outside
  obtain ⟨short, legal, outers, ids, rfl⟩ := envelope_eq_ok read
  rcases bind_eq_error.mp refused with outside | ⟨-, -, refused⟩
  · cases (require_eq_error.mp outside).2
  rcases bind_eq_error.mp refused with outside | ⟨⟨⟩, next, refused⟩
  · cases (require_eq_error.mp outside).2
  obtain ⟨stage, -, -, below⟩ := require_eq_ok.mp next
  rcases bind_eq_error.mp refused with outside | ⟨-, -, refused⟩
  · rcases callArgument_eq_error outside with other | other <;> cases other
  rcases bind_eq_error.mp refused with outside | ⟨-, -, refused⟩
  · cases (require_eq_error.mp outside).2
  rcases bind_eq_error.mp refused with bound | ⟨-, -, same⟩
  · exact ⟨e.outer, e.identifier, short, legal, stage, below, (require_eq_error.mp bound).1⟩
  · cases same

/-! ### One act -/

theorem Within.observe {k : Task} {t u : State} {token : Token} (held : Within k t) (idle : t.serving = none)
    (ran : observe k t token = .ok u) : Within k u := by
  unfold ReadTransaction.observe at ran
  split at ran
  · next asked stage =>
    have before : t.terminalResultAccepted = false := held.before (by simp [stage])
    obtain ⟨kind, -, ran⟩ := bind_eq_ok.mp ran
    exact (held.stage (.observing (asked + 1)) idle before (by simp)).startupWrite before ran
  · next asked stage =>
    have accepted : t.terminalResultAccepted = true := held.accepted.mpr ⟨asked, stage⟩
    obtain ⟨kind, found, ran⟩ := bind_eq_ok.mp ran
    obtain ⟨rfl, -, -, startup, -⟩ := write_eq_ok.mp ran
    have spent := held.spent
    have post := held.post
    rw [stage] at post
    have next : postDue (.checking (asked + 1)) = postDue (.checking asked) + (request kind zeroToken.text).length := by
      have kept := expect_eq_ok.mp found
      simp only [postDue, List.take_add_one, kept, Option.toList_some, List.map_append, List.map_cons, List.map_nil,
        List.sum_append, List.sum_cons, List.sum_nil]
      omega
    refine ⟨startup, ?_, held.counted, ?_, ?_, ?_⟩
    · simp only [spend, accepted, Bool.true_eq_false, and_false, if_false, and_self, if_true]
      omega
    · simp only [spend, accepted, true_iff]
      exact ⟨asked + 1, rfl⟩
    · simp only [spend, accepted, and_self, if_true]
      rw [next, post, length_request_token]
    · intro serving
      change t.serving.isSome at serving
      rw [idle] at serving
      cases serving
  · cases ran

theorem Within.act {k : Task} {t u : State} {a : Act} (held : Within k t) (ran : act k t a = .ok u) : Within k u := by
  cases a with
  | observe token =>
    obtain ⟨⟨⟩, idle, ran⟩ := bind_eq_ok.mp ran
    exact held.observe (Option.isNone_iff_eq_none.mp (require_eq_ok.mp idle)) ran
  | register token =>
    obtain ⟨⟨⟩, stage, ran⟩ := bind_eq_ok.mp ran
    have observing := require_eq_ok.mp stage
    have before : t.terminalResultAccepted = false := held.before (by simp [observing])
    have idle : t.serving = none := held.idle (by simp [observing])
    exact (held.stage .registering idle before (by simp)).startupWrite before ran
  | handshake value =>
    obtain ⟨⟨⟩, stage, ran⟩ := bind_eq_ok.mp ran
    have registering := require_eq_ok.mp stage
    have before : t.terminalResultAccepted = false := held.before (by simp [registering])
    obtain ⟨⟨e, after⟩, read, ran⟩ := bind_eq_ok.mp ran
    obtain ⟨-, -, outers, ids, rfl⟩ := envelope_eq_ok read
    obtain ⟨result, -, ran⟩ := bind_eq_ok.mp ran
    have same : Within k { t with outerIds := outers, rpcIds := ids, handshake := t.handshake + 1 } :=
      ⟨held.startup, held.spent, held.counted, held.accepted, held.post, held.served⟩
    exact same.startupWrite before ran
  | user =>
    obtain ⟨⟨⟩, stage, ran⟩ := bind_eq_ok.mp ran
    have registering := (require_eq_ok.mp stage).1
    have before : t.terminalResultAccepted = false := held.before (by simp [registering])
    have idle : t.serving = none := held.idle (by simp [registering])
    exact (held.stage .dispatched idle before (by simp)).startupWrite before ran
  | init session =>
    obtain ⟨-, -, same⟩ := bind_eq_ok.mp ran
    cases same
    exact ⟨held.startup, held.spent, held.counted, held.accepted, held.post, held.served⟩
  | call value barrier =>
    obtain ⟨⟨⟩, idle, ran⟩ := bind_eq_ok.mp ran
    have free := Option.isNone_iff_eq_none.mp (require_eq_ok.mp idle)
    obtain ⟨outer, identifier, outers, ids, stage, -, -, -, rfl⟩ := call_eq_ok ran
    have counted := held.counted
    rw [free] at counted
    refine ⟨held.startup, held.spent, ?_, held.accepted, held.post, fun _ => stage⟩
    simp only [Option.isSome_none, Bool.false_eq_true, if_false] at counted
    simp only [Option.isSome_some, if_true, counted]
  | reply text =>
    obtain ⟨⟨outer, identifier⟩, served, ran⟩ := bind_eq_ok.mp ran
    obtain ⟨⟨⟩, -, ran⟩ := bind_eq_ok.mp ran
    obtain ⟨after, written, same⟩ := bind_eq_ok.mp ran
    cases same
    obtain ⟨rfl, -, bound, -, -⟩ := write_eq_ok.mp written
    have spent := held.spent
    have counted := held.counted
    have serving := expect_eq_ok.mp served
    rw [serving] at counted
    have limit : recordBound k true = callbackReplyBytes k.recipe := rfl
    rw [limit] at bound
    refine ⟨held.startup, ?_, ?_, held.accepted, ?_, ?_⟩
    · simp only [spend, Bool.true_eq_false, false_and, if_false, Nat.add_mul, Nat.one_mul]
      omega
    · simpa [spend] using counted
    · simpa [spend] using held.post
    · intro still
      cases still
  | completed =>
    obtain ⟨-, -, same⟩ := bind_eq_ok.mp ran
    cases same
    exact ⟨held.startup, held.spent, held.counted, held.accepted, held.post, held.served⟩
  | result =>
    obtain ⟨⟨⟩, stage, same⟩ := bind_eq_ok.mp ran
    cases same
    obtain ⟨dispatched, idle, -⟩ := require_eq_ok.mp stage
    have post := held.post
    rw [dispatched] at post
    refine ⟨held.startup, held.spent, held.counted, ?_, post, ?_⟩
    · exact ⟨fun _ => ⟨0, rfl⟩, fun _ => rfl⟩
    · intro serving
      rw [Option.isNone_iff_eq_none.mp idle] at serving
      cases serving

theorem Reachable.within {k : Task} {t : State} (reached : Reachable k t) : Within k t := by
  induction reached with
  | new => exact Within.new k
  | act _ ran ih => exact ih.act ran

/-! ## An admitted callback can be answered -/

def Act.isCall : Act → Bool
  | .call _ _ => true
  | _ => false

inductive Quiet (k : Task) (t : State) : State → Prop
  | refl : Quiet k t t
  | act {u w : State} {a : Act} (run : Quiet k t u) (other : a.isCall = false) (ran : act k u a = .ok w) : Quiet k t w

/-- No callback is served, and what the observations still cost is left of the launcher budget. -/
structure Reserved (k : Task) (t : State) : Prop where
  idle : t.serving = none
  underWay : t.stage.underWay = true
  left : t.inputBytes + postResultInputBytes ≤ k.inputLimit + t.postBytes

theorem Reserved.act {k : Task} {t u : State} {a : Act} (account : Within k t) (held : Reserved k t)
    (other : a.isCall = false) (ran : act k t a = .ok u) : Reserved k u := by
  have way := held.underWay
  have left := held.left
  cases a with
  | observe token =>
    obtain ⟨⟨⟩, -, ran⟩ := bind_eq_ok.mp ran
    cases stage : t.stage with
    | checking asked =>
      have accepted : t.terminalResultAccepted = true := account.accepted.mpr ⟨asked, stage⟩
      simp only [observe, stage] at ran
      obtain ⟨kind, -, ran⟩ := bind_eq_ok.mp ran
      obtain ⟨rfl, -⟩ := write_eq_ok.mp ran
      refine ⟨held.idle, rfl, ?_⟩
      simp only [spend, accepted, and_self, if_true]
      omega
    | observing asked =>
      rw [stage] at way
      cases way
    | registering =>
      rw [stage] at way
      cases way
    | dispatched =>
      simp only [observe, stage] at ran
      cases ran
  | register token =>
    obtain ⟨⟨⟩, stage, -⟩ := bind_eq_ok.mp ran
    rw [require_eq_ok.mp stage] at way
    cases way
  | handshake value =>
    obtain ⟨⟨⟩, stage, -⟩ := bind_eq_ok.mp ran
    rw [require_eq_ok.mp stage] at way
    cases way
  | user =>
    obtain ⟨⟨⟩, stage, -⟩ := bind_eq_ok.mp ran
    rw [(require_eq_ok.mp stage).1] at way
    cases way
  | init session =>
    obtain ⟨-, -, same⟩ := bind_eq_ok.mp ran
    cases same
    exact ⟨held.idle, way, left⟩
  | call value barrier => cases other
  | reply text =>
    obtain ⟨served, found, -⟩ := bind_eq_ok.mp ran
    rw [held.idle] at found
    cases found
  | completed =>
    obtain ⟨-, -, same⟩ := bind_eq_ok.mp ran
    cases same
    exact ⟨held.idle, way, left⟩
  | result =>
    obtain ⟨-, -, same⟩ := bind_eq_ok.mp ran
    cases same
    exact ⟨held.idle, rfl, left⟩

theorem Quiet.reserved {k : Task} {t u : State} (account : Within k t) (held : Reserved k t) (run : Quiet k t u) :
    Within k u ∧ Reserved k u := by
  induction run with
  | refl => exact ⟨account, held⟩
  | act _ other ran ih => exact ⟨ih.1.act ran, ih.2.act ih.1 other ran⟩

theorem due_next {asked : ℕ} {kind : String} (next : observations[asked]? = some kind) :
    postDue (.checking asked) + (request kind zeroToken.text).length ≤ postResultInputBytes := by
  have whole : observations.take asked ++ kind :: observations.drop (asked + 1) = observations := by
    obtain ⟨inside, rfl⟩ := List.getElem?_eq_some_iff.mp next
    rw [← List.drop_eq_getElem_cons inside, List.take_append_drop]
  have total : postResultInputBytes =
      ((observations.take asked ++ kind :: observations.drop (asked + 1)).map
        fun kind => (request kind zeroToken.text).length).sum := by
    rw [whole]
    rfl
  rw [total]
  simp only [postDue, List.map_append, List.map_cons, List.sum_append, List.sum_cons]
  omega

theorem postResult_small : postResultInputBytes ≤ recordBytes := by
  decide +kernel

theorem Reserved.observed {k : Task} {t : State} {asked : ℕ} (account : Within k t) (held : Reserved k t)
    (stage : t.stage = .checking asked) (more : asked < 3) (token : Token) :
    ∃ u, ReadTransaction.act k t (.observe token) = .ok u := by
  obtain ⟨kind, next⟩ : ∃ kind, observations[asked]? = some kind := ⟨_, List.getElem?_eq_getElem more⟩
  have accepted : t.terminalResultAccepted = true := account.accepted.mpr ⟨asked, stage⟩
  have due := due_next next
  have small := postResult_small
  have post := account.post
  have startup := account.startup
  have left := held.left
  rw [stage] at post
  have cost := length_request_token kind token
  have written : write k { t with stage := .checking (asked + 1) } (request kind token.text) false =
      .ok (spend { t with stage := .checking (asked + 1) } (request kind token.text) false) := by
    apply write_eq_ok.mpr
    simp only [spend, accepted, and_self, if_true, Bool.true_eq_false, and_false, if_false, recordBound,
      Bool.false_eq_true, true_and]
    omega
  have idle : t.serving.isNone = true := by rw [held.idle]; rfl
  refine ⟨spend { t with stage := .checking (asked + 1) } (request kind token.text) false, ?_⟩
  apply bind_eq_ok.mpr
  refine ⟨(), require_of idle, ?_⟩
  simp only [observe, stage]
  rw [next, expect_some, ok_bind, written]

theorem reply_written {k : Task} {t u : State} {value : Json} {barrier : Barrier} (account : Within k t)
    (admitted : act k t (.call value barrier) = .ok u) {text : PyStr}
    (short : isText text (taskPayloadBytes k.recipe).2 = true) :
    ∃ w, act k u (.reply text) = .ok w ∧ Reserved k w := by
  obtain ⟨⟨⟩, -, ran⟩ := bind_eq_ok.mp admitted
  obtain ⟨outer, identifier, outers, ids, stage, -, sized, reserved, rfl⟩ := call_eq_ok ran
  have before : t.terminalResultAccepted = false := account.before (by simp [stage])
  have startup := account.startup
  have post := account.post
  have longest := length_reply_le outer identifier short
  rw [stage] at post
  unfold replySized at sized
  unfold replyReserved at reserved
  have none_spent : t.postBytes = 0 := post
  obtain ⟨w, written⟩ : ∃ w, write k { t with
      outerIds := outers, rpcIds := ids, calls := t.calls + 1, serving := none }
      (callbackResponse outer identifier (toolResult (String.ofList (text.map Char.ofNat)))) true = .ok w := by
    refine ⟨_, write_eq_ok.mpr ⟨rfl, ?_⟩⟩
    simp only [spend, Bool.true_eq_false, false_and, if_false, recordBound, if_true]
    omega
  refine ⟨{ w with callsCompleted := w.callsCompleted + 1 }, ?_, ?_⟩
  · apply bind_eq_ok.mpr
    refine ⟨(outer, identifier), rfl, bind_eq_ok.mpr ⟨(), require_of short, ?_⟩⟩
    exact bind_eq_ok.mpr ⟨w, written, rfl⟩
  · obtain ⟨rfl, -⟩ := write_eq_ok.mp written
    refine ⟨rfl, ?_, ?_⟩
    · simp only [spend, stage]
      rfl
    · simp only [spend, Bool.true_eq_false, false_and, if_false]
      omega

theorem Within.reserves {k : Task} {t : State} (account : Within k t) (enough : taskInputBytes k.recipe ≤ k.inputLimit)
    (stage : t.stage = .dispatched) (idle : t.serving = none) (more : t.calls < k.recipe.callLimit) {outer : String}
    {identifier : Json} (sized : replySized k outer identifier) : replyReserved k t outer identifier := by
  have startup := account.startup
  have spent := account.spent
  have counted := account.counted
  have post := account.post
  rw [stage] at post
  rw [idle] at counted
  have none_spent : t.postBytes = 0 := post
  have same : t.calls = t.callsCompleted := counted
  have room : (t.callsCompleted + 1) * callbackReplyBytes k.recipe ≤
      k.recipe.callLimit * callbackReplyBytes k.recipe := Nat.mul_le_mul_right _ (by omega)
  rw [Nat.add_mul, Nat.one_mul] at room
  unfold replySized at sized
  unfold taskInputBytes at enough
  unfold replyReserved
  omega

/-- An admitted callback can always be answered: its reply is written whatever text the worker gives within the
limit, and after it the observations that follow the result without a further call. With the input budget of
the task, none of the calls it allows is refused for its reply. -/
theorem callbacks_answered (k : Task) :
    (∀ t, Reachable k t → ∀ value barrier u, act k t (.call value barrier) = .ok u →
      ∀ text, isText text (taskPayloadBytes k.recipe).2 = true →
        ∃ w, act k u (.reply text) = .ok w ∧
          ∀ v, Quiet k w v → ∀ asked < 3, v.stage = .checking asked →
            ∀ token, ∃ x, act k v (.observe token) = .ok x) ∧
      (taskInputBytes k.recipe ≤ k.inputLimit → ∀ t, Reachable k t → t.stage = .dispatched → t.serving = none →
        t.calls < k.recipe.callLimit →
          (∀ outer identifier, isText (points outer) 128 = true → isIdentifier identifier = true →
            replySized k outer identifier ∧ replyReserved k t outer identifier) ∧
          ∀ value barrier, act k t (.call value barrier) = .error .streamBound →
            ¬echoReserved k barrier.captured) := by
  constructor
  · intro t reached value barrier u admitted text short
    have account := reached.within
    obtain ⟨w, replied, reserved⟩ := reply_written account admitted short
    refine ⟨w, replied, fun v run asked more stage token => ?_⟩
    have answered := (account.act admitted).act replied
    obtain ⟨later, kept⟩ := Quiet.reserved answered reserved run
    exact kept.observed later stage more token
  · intro enough t reached stage idle more
    have account := reached.within
    constructor
    · intro outer identifier short legal
      have size := sized (k := k) short legal
      exact ⟨size, account.reserves enough stage idle more size⟩
    · intro value barrier refused fits
      rcases bind_eq_error.mp refused with outside | ⟨-, -, refused⟩
      · cases (require_eq_error.mp outside).2
      · obtain ⟨outer, identifier, short, legal, -, -, failed⟩ := call_eq_streamBound refused
        have size := sized (k := k) short legal
        exact failed ⟨size, account.reserves enough stage idle more size, fits⟩

end ReadTransaction

end Constructicon
