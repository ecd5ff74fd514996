import Constructicon.Cursor
import Constructicon.Library.Utf8
import Constructicon.OperatorMetadata

/-!
# The control records of the Claude peer

The requests that are written to the peer, and what is made of its records: the reply to an initialize
request is classified, and a notification is inert or not. A classification is a verdict with a reason
and the categories of two account fields, and only coherent ones can be built.
-/

namespace Constructicon

namespace ClaudeProtocol

open PyJson Transaction

/-- `RECORD_BYTES` -/
def recordBytes : ℕ := 256 * 1024

/-! ## What is written -/

/-- `_wire` -/
def wire (value : Json) : List ℕ := utf8 (dumps value) ++ [10]

/-- The control requests: `initialize_request`, `settings_request` and `hooks_request` differ in the subtype. -/
def request (subtype requestId : String) : List ℕ :=
  wire (.obj [("type", .str "control_request"), ("request_id", .str requestId),
    ("request", .obj [("subtype", .str subtype)])])

/-- `secrets.token_hex(16)` -/
structure Token where
  text : String
  width : text.toList.length = 32
  digits : ∀ c ∈ text.toList, c ∈ "0123456789abcdef".toList

/-! ## Records -/

def members : Json → Option (List (String × Json))
  | .obj entries => some entries
  | _ => none

/-- `set(value) <= allowed` -/
def keysWithin (entries : List (String × Json)) (allowed : List String) : Bool :=
  entries.all fun e => allowed.contains e.1

/-- What is read of the bytes of a record, less its line feed: one durable JSON value. -/
def parseRecord {φ : Type} (F : FloatText φ) (raw : List UInt8) : Option Json := do
  let text ← Utf8.decode raw.dropLast
  (parseJsonValue F (text.map Char.toNat)).toOption

def isString : Json → Bool
  | .str _ => true
  | _ => false

def isList : Json → Bool
  | .arr _ => true
  | _ => false

/-! ## Notifications -/

/-- `exact_ui_invalidate` -/
def exactUiInvalidate (value : List (String × Json)) : Bool :=
  (hasKeys value ["type", "subtype", "event", "uuid", "session_id"] ||
      hasKeys value ["type", "subtype", "event", "uuid", "session_id", "instances"]) &&
    member value "type" = .str "system" && member value "subtype" = .str "ui_invalidate" &&
    member value "event" = .str "ui.render" && isString (member value "uuid") &&
    isString (member value "session_id") &&
    match Dict.find value "instances" with
    | none => true
    | some (.arr instances) => instances.all fun item =>
        match item with
        | .obj fields => hasKeys fields ["surface", "component", "instance_id"] && fields.all fun e => isString e.2
        | _ => false
    | some _ => false

def exactCommand : Json → Bool
  | .obj row =>
    ["name", "description", "argumentHint"].all (fun key => isString (member row key)) &&
      keysWithin row ["name", "description", "argumentHint", "aliases", "builtin"] &&
      (match Dict.find row "aliases" with
        | none => true
        | some (.arr aliases) => aliases.all isString
        | some _ => false) &&
      match Dict.find row "builtin" with
      | none => true
      | some (.bool _) => true
      | some _ => false
  | _ => false

/-- `exact_commands_changed` -/
def exactCommandsChanged (value : List (String × Json)) : Bool :=
  hasKeys value ["type", "subtype", "commands", "uuid", "session_id"] &&
    member value "type" = .str "system" && member value "subtype" = .str "commands_changed" &&
    isString (member value "uuid") && isString (member value "session_id") &&
    match member value "commands" with
    | .arr commands => commands.all exactCommand
    | _ => false

/-- `exact_inert_notification` -/
def exactInertNotification : Json → Bool
  | .obj value => exactUiInvalidate value || exactCommandsChanged value
  | _ => false

/-- `ClaudeSystemRecordCategory` -/
inductive SystemRecordCategory where
  | uiInvalidate
  | commandsChanged
  | uiPanes
  | status
  | backgroundTasksChanged
  | init
  | notification
  | apiRetry
  | modelRefusalNoFallback
  | modelRefusalFallback
  | memoryRecall
  | thinkingTokens
  | compactBoundary
  | modelFallback
  | modelConsentFallback
  | informational
  | missingSubtype
  | invalidSubtype
  | other
deriving DecidableEq

/-- `_SYSTEM_CATEGORIES` -/
def systemCategories : List (String × SystemRecordCategory) :=
  [("init", .init), ("notification", .notification), ("api_retry", .apiRetry),
    ("model_refusal_no_fallback", .modelRefusalNoFallback), ("model_refusal_fallback", .modelRefusalFallback),
    ("memory_recall", .memoryRecall), ("thinking_tokens", .thinkingTokens), ("compact_boundary", .compactBoundary),
    ("model_fallback", .modelFallback), ("model_consent_fallback", .modelConsentFallback),
    ("informational", .informational), ("ui_invalidate", .uiInvalidate), ("commands_changed", .commandsChanged),
    ("ui_panes", .uiPanes), ("status", .status), ("background_tasks_changed", .backgroundTasksChanged)]

/-- `value.get("type") == "system"` of an object. -/
def isSystem : Json → Bool
  | .obj value => member value "type" = .str "system"
  | _ => false

/-- `read_system_record_category` -/
def readSystemRecordCategory (value : Json) : SystemRecordCategory :=
  if isSystem value then
    match value.field "subtype" with
    | none => .missingSubtype
    | some (.str subtype) => (Dict.find systemCategories subtype).getD .other
    | some _ => .invalidSubtype
  else .other

/-- `system_record_category` -/
def systemRecordCategory (value : Json) : SystemRecordCategory :=
  let category := readSystemRecordCategory value
  if category ∈ [.uiInvalidate, .commandsChanged, .uiPanes, .status, .backgroundTasksChanged] then category
  else .other

/-! ## The classification of an initialize reply -/

/-- `ClaudeInitializeVerdict` -/
inductive InitializeVerdict where
  | modeMatch
  | recordInvalid
  | recordTooLarge
  | responseInvalid
  | requestMismatch
  | initializeError
  | initializeBusy
  | modeMismatch
deriving DecidableEq

/-- `ClaudeModeMismatchReason` -/
inductive ModeMismatchReason where
  | accountShape
  | unsupportedAccountField
  | credentialSourcePresent
  | accountValueType
  | providerMismatch
  | ambiguousApi
  | subscriptionMismatch
deriving DecidableEq

/-- `ClaudeTokenSourceCategory` -/
inductive TokenSourceCategory where
  | absent
  | null
  | nonString
  | unknown
  | none
  | authTokenEnv
  | oauthTokenEnv
  | oauthTokenFd
  | ccrOauthFile
  | apiKeyHelper
  | claudeAi
deriving DecidableEq

/-- `ClaudeApiKeySourceCategory` -/
inductive ApiKeySourceCategory where
  | absent
  | null
  | nonString
  | unknown
  | anthropicApiKey
  | apiKeyHelper
  | loginManagedKey
deriving DecidableEq

/-- `_TOKEN_SOURCES` -/
def tokenSources : List (String × TokenSourceCategory) :=
  [("none", .none), ("ANTHROPIC_AUTH_TOKEN", .authTokenEnv), ("CLAUDE_CODE_OAUTH_TOKEN", .oauthTokenEnv),
    ("CLAUDE_CODE_OAUTH_TOKEN_FILE_DESCRIPTOR", .oauthTokenFd), ("CCR_OAUTH_TOKEN_FILE", .ccrOauthFile),
    ("apiKeyHelper", .apiKeyHelper), ("claude.ai", .claudeAi)]

/-- `_API_KEY_SOURCES` -/
def apiKeySources : List (String × ApiKeySourceCategory) :=
  [("ANTHROPIC_API_KEY", .anthropicApiKey), ("apiKeyHelper", .apiKeyHelper), ("/login managed key", .loginManagedKey)]

/-- `initialize_diagnostics_valid` -/
def initializeDiagnosticsValid (verdict : Option InitializeVerdict) (reason : Option ModeMismatchReason)
    (token : Option TokenSourceCategory) (apiKey : Option ApiKeySourceCategory) : Bool :=
  if verdict = some .modeMatch then reason = none ∧ token = some .absent ∧ apiKey = some .absent
  else if verdict ≠ some .modeMismatch then reason = none ∧ token = none ∧ apiKey = none
  else if reason = none then false
  else if reason = some .accountShape then token = none ∧ apiKey = none
  else if token = none ∨ apiKey = none then false
  else
    let absent := token = some .absent ∧ apiKey = some .absent
    if reason = some .credentialSourcePresent then ¬absent else reason = some .unsupportedAccountField ∨ absent

/-- `ClaudeInitializeObservation`: only coherent diagnostics are one. -/
structure InitializeObservation where
  verdict : InitializeVerdict
  reason : Option ModeMismatchReason
  token : Option TokenSourceCategory
  apiKey : Option ApiKeySourceCategory
  valid : initializeDiagnosticsValid (some verdict) reason token apiKey = true

/-- What is built of four diagnostics; `none` where the constructor raises. -/
def InitializeObservation.make (verdict : InitializeVerdict) (reason : Option ModeMismatchReason)
    (token : Option TokenSourceCategory) (apiKey : Option ApiKeySourceCategory) : Option InitializeObservation :=
  if valid : initializeDiagnosticsValid (some verdict) reason token apiKey = true then
    some ⟨verdict, reason, token, apiKey, valid⟩
  else none

/-- `observed` of a verdict, before an account is looked at. -/
def unjudged (verdict : InitializeVerdict) : Option InitializeObservation :=
  InitializeObservation.make verdict none none none

def sourceCategory {κ : Type} (absent null nonString unknown : κ) (sources : List (String × κ)) : Option Json → κ
  | none => absent
  | some .null => null
  | some (.str source) => (Dict.find sources source).getD unknown
  | some _ => nonString

def tokenSourceCategory : Option Json → TokenSourceCategory :=
  sourceCategory .absent .null .nonString .unknown tokenSources

def apiKeySourceCategory : Option Json → ApiKeySourceCategory :=
  sourceCategory .absent .null .nonString .unknown apiKeySources

/-- `_subscription_display`; `alphanumeric` tells the categories of letters and numbers. -/
def subscriptionDisplay (alphanumeric : Char → Bool) : Json → Bool
  | .str value =>
    let name := value.toList.drop 7
    value.toList.take 7 = "Claude ".toList && 1 ≤ name.length && name.length ≤ 40 &&
      name.head?.any alphanumeric &&
      (name.length = 1 || name.getLast?.any fun c => alphanumeric c || c = '+') &&
      (name.drop 1).dropLast.all fun c => alphanumeric c || " .+-".toList.contains c
  | _ => false

def accountFields : List String :=
  ["apiProvider", "subscriptionType", "email", "organization", "tokenSource", "apiKeySource"]

/-- `_classify_initialize` from the account on. -/
def classifyAccount (alphanumeric : Char → Bool) : Json → Option InitializeObservation
  | .obj account =>
    let token := tokenSourceCategory (Dict.find account "tokenSource")
    let apiKey := apiKeySourceCategory (Dict.find account "apiKeySource")
    let mismatch (reason : ModeMismatchReason) :=
      InitializeObservation.make .modeMismatch (some reason) (some token) (some apiKey)
    if ¬keysWithin account accountFields then mismatch .unsupportedAccountField
    else if (Dict.find account "tokenSource").isSome ∨ (Dict.find account "apiKeySource").isSome then
      mismatch .credentialSourcePresent
    else if ¬account.all fun e => isString e.2 then mismatch .accountValueType
    else if member account "apiProvider" ≠ .str "firstParty" then mismatch .providerMismatch
    else if member account "subscriptionType" = .str "Claude API" then mismatch .ambiguousApi
    else if ¬subscriptionDisplay alphanumeric (member account "subscriptionType") then mismatch .subscriptionMismatch
    else InitializeObservation.make .modeMatch none (some token) (some apiKey)
  | _ => InitializeObservation.make .modeMismatch (some .accountShape) none none

/-- `CLAUDE_CODE_VERSION` -/
def claudeCodeVersion : String := "2.1.296"

/-- `_classify_initialize` from the body of a success on. -/
def classifyBody (alphanumeric : Char → Bool) : Json → Option InitializeObservation
  | .obj body =>
    if ¬["claude_code_version", "session_state", "account"].all fun key => (Dict.find body key).isSome then
      unjudged .responseInvalid
    else if member body "claude_code_version" ≠ .str claudeCodeVersion then unjudged .responseInvalid
    else if member body "session_state" ∉ [.str "idle", .str "running", .str "requires_action"] then
      unjudged .responseInvalid
    else if member body "session_state" ≠ .str "idle" then unjudged .initializeBusy
    else classifyAccount alphanumeric (member body "account")
  | _ => unjudged .responseInvalid

def pendingLists (envelope : List (String × Json)) : List Json :=
  ["pending_permission_requests", "pending_user_dialog_requests"].filterMap (Dict.find envelope)

/-- `_classify_initialize` from the envelope on. -/
def classifyEnvelope (alphanumeric : Char → Bool) (envelope : List (String × Json)) (expectedRequestId : String) :
    Option InitializeObservation :=
  if member envelope "subtype" ∉ [.str "success", .str "error"] then unjudged .responseInvalid
  else if ¬isString (member envelope "request_id") then unjudged .responseInvalid
  else if member envelope "request_id" ≠ .str expectedRequestId then unjudged .requestMismatch
  else if member envelope "subtype" = .str "error" then
    if ¬keysWithin envelope ["subtype", "request_id", "error", "error_code", "pending_permission_requests",
        "pending_user_dialog_requests"] ∨ ¬isString (member envelope "error") then unjudged .responseInvalid
    else if (Dict.find envelope "error_code").any (fun code => ¬isString code) then unjudged .responseInvalid
    else if ¬(pendingLists envelope).all isList then unjudged .responseInvalid
    else unjudged .initializeError
  else if ¬hasKeys envelope ["subtype", "request_id", "response", "pending_permission_requests",
      "pending_user_dialog_requests"] then unjudged .responseInvalid
  else if ¬(pendingLists envelope).all isList then unjudged .responseInvalid
  else if (pendingLists envelope).any (fun pending => pending ≠ .arr []) then unjudged .initializeBusy
  else classifyBody alphanumeric (member envelope "response")

/-- `b"\n"` -/
def lineFeed : UInt8 := 10

/-- `b"\r"` -/
def carriageReturn : UInt8 := 13

variable {φ : Type} (F : FloatText φ) (alphanumeric : Char → Bool)

/-- `observe_initialize`; `none` where the constructor of the observation raises. -/
def observeInitialize (record : List UInt8) (expectedRequestId : String) : Option InitializeObservation :=
  if recordBytes < record.length then unjudged .recordTooLarge
  else if record.getLast? ≠ some lineFeed ∨ lineFeed ∈ record.dropLast ∨ carriageReturn ∈ record then
    unjudged .recordInvalid
  else
    match parseRecord F record with
    | none => unjudged .recordInvalid
    | some (.obj value) =>
      if ¬hasKeys value ["type", "response"] then unjudged .responseInvalid
      else if member value "type" ≠ .str "control_response" then unjudged .responseInvalid
      else
        match member value "response" with
        | .obj envelope => classifyEnvelope alphanumeric envelope expectedRequestId
        | _ => unjudged .responseInvalid
    | some _ => unjudged .responseInvalid

/-! ## Every classification is coherent -/

theorem unjudged_isSome {verdict : InitializeVerdict} (settled : verdict ≠ .modeMatch) (judged : verdict ≠ .modeMismatch) :
    (unjudged verdict).isSome = true := by
  unfold unjudged InitializeObservation.make
  rw [dif_pos]
  · rfl
  · simp [initializeDiagnosticsValid, settled, judged]

theorem absent_of_sourceCategory {κ : Type} {absent null nonString unknown : κ} {sources : List (String × κ)}
    {field : Option Json} (other : absent ∉ null :: nonString :: unknown :: sources.map Prod.snd)
    (same : sourceCategory absent null nonString unknown sources field = absent) : field = none := by
  simp only [List.mem_cons, not_or] at other
  obtain ⟨notNull, notNonString, notUnknown, outside⟩ := other
  rcases field with _ | value
  · rfl
  cases value with
  | null => exact absurd same.symm notNull
  | str source =>
    cases found : Dict.find sources source with
    | none =>
      simp only [sourceCategory, found, Option.getD_none] at same
      exact absurd same.symm notUnknown
    | some category =>
      simp only [sourceCategory, found, Option.getD_some] at same
      rw [same] at found
      exact absurd (List.mem_map_of_mem (Dict.mem_of_find found)) outside
  | bool b => exact absurd same.symm notNonString
  | int n => exact absurd same.symm notNonString
  | float f => exact absurd same.symm notNonString
  | arr items => exact absurd same.symm notNonString
  | obj entries => exact absurd same.symm notNonString

theorem tokenSource_absent {field : Option Json} : tokenSourceCategory field = .absent ↔ field = none := by
  constructor
  · exact absent_of_sourceCategory (by decide)
  · rintro rfl
    rfl

theorem apiKeySource_absent {field : Option Json} : apiKeySourceCategory field = .absent ↔ field = none := by
  constructor
  · exact absent_of_sourceCategory (by decide)
  · rintro rfl
    rfl

theorem make_isSome {verdict : InitializeVerdict} {reason : Option ModeMismatchReason}
    {token : Option TokenSourceCategory} {apiKey : Option ApiKeySourceCategory}
    (valid : initializeDiagnosticsValid (some verdict) reason token apiKey = true) :
    (InitializeObservation.make verdict reason token apiKey).isSome = true := by
  unfold InitializeObservation.make
  rw [dif_pos valid]
  rfl

theorem classifyAccount_isSome (account : Json) : (classifyAccount alphanumeric account).isSome = true := by
  unfold classifyAccount
  split
  · next entries =>
    dsimp only
    by_cases keys : keysWithin entries accountFields = true
    · rw [if_neg (not_not.mpr keys)]
      by_cases sources : (Dict.find entries "tokenSource").isSome ∨ (Dict.find entries "apiKeySource").isSome
      · rw [if_pos sources]
        apply make_isSome
        have present : ¬(tokenSourceCategory (Dict.find entries "tokenSource") = .absent ∧
            apiKeySourceCategory (Dict.find entries "apiKeySource") = .absent) := by
          rw [tokenSource_absent, apiKeySource_absent]
          rintro ⟨noToken, noKey⟩
          rw [noToken, noKey] at sources
          simp at sources
        simpa [initializeDiagnosticsValid] using not_and_or.mp present
      · rw [if_neg sources]
        obtain ⟨noToken, noKey⟩ := not_or.mp sources
        rw [Option.not_isSome_iff_eq_none.mp noToken, Option.not_isSome_iff_eq_none.mp noKey]
        split_ifs <;> exact make_isSome (by decide)
    · rw [if_pos keys]
      exact make_isSome (by simp [initializeDiagnosticsValid])
  · exact make_isSome (by decide)

theorem classifyBody_isSome (body : Json) : (classifyBody alphanumeric body).isSome = true := by
  unfold classifyBody
  split
  · split_ifs
    all_goals first | exact unjudged_isSome (by decide) (by decide) | exact classifyAccount_isSome alphanumeric _
  · exact unjudged_isSome (by decide) (by decide)

theorem classifyEnvelope_isSome (envelope : List (String × Json)) (expectedRequestId : String) :
    (classifyEnvelope alphanumeric envelope expectedRequestId).isSome = true := by
  unfold classifyEnvelope
  split_ifs
  all_goals first | exact unjudged_isSome (by decide) (by decide) | exact classifyBody_isSome alphanumeric _

end ClaudeProtocol

end Constructicon
