import AstrLink.JsonTree
import AstrLink.Turns
import AstrLink.VisibleWords

/-!
The items of a request's history, one adapter for each protocol. `inspectItem`
reads an item once for everything that a summary needs of it; the other functions
of an adapter read it for one thing each and agree with it. Tool results and
blocks of the client are not the user's (`isUserTurn_quiet`).
-/
namespace AstrLink.RequestItems
open List
open JsonTree (Json)
open VisibleWords (joinVisible visibleText Helpers visibleText_helpers)
open Turns (clampCursorValue)

abbrev Text := List Char

abbrev Fields := List (Text × Json)

/-- The value of a member; the last one counts where a name is repeated. -/
def member? (fields : Fields) (name : String) : Option Json :=
  (fields.reverse.find? fun field => field.1 = name.toList).map (·.2)

def string? : Option Json → Option Text
  | some (.string value) => some value
  | _ => none

/-- A string, an empty one for every other value. -/
def text (json : Option Json) : Text := (string? json).getD []

def array? : Option Json → Option (List Json)
  | some (.array items) => some items
  | _ => none

def object? : Option Json → Option Fields
  | some (.object members) => some members
  | _ => none

def isTrue : Option Json → Bool
  | some (.bool value) => value
  | _ => false

/-- The ids under a name in those items that are objects with a string there. -/
def idOf (fields : Fields) (name : String) : List Text :=
  match string? (member? fields name) with
  | some id => if id = [] then [] else [id]
  | none => []

inductive Protocol where
  | openAIChat
  | openAIResponses
  | anthropicMessages
  | geminiGenerateContent

/-- What the digests and the identifiers of a request come from. -/
structure Outside where
  sha256 : List UInt8 → List UInt8
  explicitCursors : Protocol → Fields → List Text

structure RequestItem where
  user : Bool := false
  assistant : Bool := false
  toolResult : Bool := false
  declaresTools : Bool := false
  userText : Text := []
  echoIDs : List Text := []

/-- What the parts of a message hold. -/
structure Scan where
  texts : List Text := []
  hasMedia : Bool := false
  /-- Whether there is a tool result. -/
  skipped : Bool := false

def scanPart (textTypes skipTypes : List String) (scan : Scan) : Json → Scan
  | .object part =>
    let partType := text (member? part "type")
    if (skipTypes.map String.toList).contains partType then { scan with skipped := true }
    else if partType = [] || (textTypes.map String.toList).contains partType then
      match string? (member? part "text") with
      | some text => { scan with texts := scan.texts ++ [text] }
      | none => if partType = [] then scan else { scan with hasMedia := true }
    else { scan with hasMedia := true }
  | .string value => { scan with texts := scan.texts ++ [value] }
  | _ => scan

def scanTextParts (content : Option Json) (textTypes skipTypes : List String) : Scan :=
  match content with
  | some (.string value) => { texts := [value] }
  | some (.array items) => items.foldl (scanPart textTypes skipTypes) {}
  | _ => {}

def joinAll (parts : List Text) (separator : Text) : Text := separator.intercalate parts

/-- A message whose scan holds visible text or media is a user turn. -/
def Scan.userText (scan : Scan) : Text := joinVisible scan.texts ['\n']

def Scan.isUser (scan : Scan) : Bool := scan.hasMedia || scan.userText ≠ []

namespace OpenAIChat

def textTypes : List String := ["text", "input_text"]

def scan (message : Fields) : Scan := scanTextParts (member? message "content") textTypes []

def toolCallIDs (calls : Option Json) : List Text :=
  ((array? calls).getD []).flatMap fun call => ((object? (some call)).map (idOf · "id")).getD []

def inspectItem : Json → RequestItem
  | .object message =>
    let role := text (member? message "role")
    if role = "user".toList then { user := (scan message).isUser, userText := (scan message).userText }
    else if role = "tool".toList then
      { toolResult := true, echoIDs := (string? (member? message "tool_call_id")).toList }
    else if role = "assistant".toList then { assistant := true, echoIDs := toolCallIDs (member? message "tool_calls") }
    else {}
  | _ => {}

def isUserTurn : Json → Bool
  | .object message => text (member? message "role") = "user".toList && (scan message).isUser
  | _ => false

def isToolResult : Json → Bool
  | .object message => text (member? message "role") = "tool".toList
  | _ => false

def userText : Json → Text
  | .object message => if text (member? message "role") = "user".toList then (scan message).userText else []
  | _ => []

def assistantText : Json → Option Text
  | .object message => if text (member? message "role") = "assistant".toList then some (joinAll (scan message).texts []) else none
  | _ => none

end OpenAIChat

namespace OpenAIResponses

def textTypes : List String := ["input_text", "text"]

def scan (item : Fields) : Scan := scanTextParts (member? item "content") textTypes []

def isMessageOf (role : String) (item : Fields) : Bool :=
  let itemType := text (member? item "type")
  text (member? item "role") = role.toList && (itemType = [] || itemType = "message".toList)

def isToolOutput (itemType : Text) : Bool := "_call_output".toList.isSuffixOf itemType

def inspectItem : Json → RequestItem
  | .object item =>
    let itemType := text (member? item "type")
    let user := isMessageOf "user" item
    { user := user && (scan item).isUser
      assistant := isMessageOf "assistant" item
      toolResult := isToolOutput itemType
      declaresTools := itemType = "additional_tools".toList && ((array? (member? item "tools")).getD []).length > 0
      userText := if user then (scan item).userText else []
      echoIDs := idOf item "call_id" ++ if user then [] else idOf item "id" }
  | _ => {}

def isUserTurn : Json → Bool
  | .object item => isMessageOf "user" item && (scan item).isUser
  | _ => false

def isToolResult : Json → Bool
  | .object item => isToolOutput (text (member? item "type"))
  | _ => false

def userText : Json → Text
  | .object item => if isMessageOf "user" item then (scan item).userText else []
  | _ => []

def assistantText : Json → Option Text
  | .object item =>
    if isMessageOf "assistant" item then
      some (joinAll (scanTextParts (member? item "content") ["output_text", "text"] ["refusal"]).texts [])
    else none
  | _ => none

def isStateful (fields : Fields) : Bool :=
  match string? (member? fields "previous_response_id") with
  | some id => clampCursorValue id ≠ []
  | none => false

end OpenAIResponses

namespace Anthropic

def toolTypes : List String := ["tool_use", "server_tool_use", "mcp_tool_use"]

def scan (message : Fields) : Scan := scanTextParts (member? message "content") ["text"] ["tool_result"]

def blockIDs (block : Fields) : List Text :=
  let blockType := text (member? block "type")
  if blockType = "tool_result".toList then idOf block "tool_use_id"
  else if (toolTypes.map String.toList).contains blockType then idOf block "id"
  else []

def inboundEchoIDs (message : Fields) : List Text :=
  ((array? (member? message "content")).getD []).flatMap fun block => ((object? (some block)).map blockIDs).getD []

def inspectItem : Json → RequestItem
  | .object message =>
    let role := text (member? message "role")
    let result : RequestItem := { assistant := role = "assistant".toList, echoIDs := inboundEchoIDs message }
    if role = "user".toList then
      { result with
        user := (scan message).isUser, userText := (scan message).userText, toolResult := (scan message).skipped }
    else result
  | _ => {}

def isUserTurn : Json → Bool
  | .object message => text (member? message "role") = "user".toList && (scan message).isUser
  | _ => false

def hasToolResult (message : Fields) : Bool :=
  ((array? (member? message "content")).getD []).any fun block =>
    (object? (some block)).any fun block => text (member? block "type") = "tool_result".toList

def isToolResult : Json → Bool
  | .object message => text (member? message "role") = "user".toList && hasToolResult message
  | _ => false

def userText : Json → Text
  | .object message => if text (member? message "role") = "user".toList then (scan message).userText else []
  | _ => []

def assistantText : Json → Option Text
  | .object message =>
    if text (member? message "role") = "assistant".toList then some (joinAll (scan message).texts ['\n']) else none
  | _ => none

end Anthropic

namespace Gemini

def role (content : Fields) : Text :=
  match string? (member? content "role") with
  | some role => if role = [] then "user".toList else role
  | none => "user".toList

def scanPart (includeThoughts : Bool) (scan : Scan) : Json → Scan
  | .object part =>
    if (member? part "functionResponse").isSome then { scan with skipped := true }
    else if (member? part "functionCall").isSome then scan
    else
      match string? (member? part "text") with
      | some text =>
        if isTrue (member? part "thought") && !includeThoughts then scan
        else { scan with texts := scan.texts ++ [text] }
      | none =>
        if ["inlineData", "fileData", "inline_data", "file_data"].any fun name => (member? part name).isSome then
          { scan with hasMedia := true }
        else scan
  | _ => scan

def scanParts (content : Fields) (includeThoughts : Bool) : Scan :=
  match array? (member? content "parts") with
  | some parts => parts.foldl (scanPart includeThoughts) {}
  | none => {}

def hasFunctionResponse (content : Fields) : Bool :=
  ((array? (member? content "parts")).getD []).any fun part =>
    (object? (some part)).any fun part => (member? part "functionResponse").isSome

def hexDigit (value : Nat) : Char := Char.ofNat (if value < 10 then 0x30 + value else 0x57 + value)

def hex (bytes : List UInt8) : Text := bytes.flatMap fun byte => [hexDigit (byte.toNat / 16), hexDigit (byte.toNat % 16)]

def hashThoughtSignature (sha256 : List UInt8 → List UInt8) (signature : Text) : Text :=
  "ts_".toList ++ (hex (sha256 (signature.flatMap String.utf8EncodeChar))).take 32

def partIDs (sha256 : List UInt8 → List UInt8) (part : Fields) : List Text :=
  (["functionCall", "functionResponse"].flatMap fun name =>
    ((object? (member? part name)).map (idOf · "id")).getD []) ++
  ["thoughtSignature", "thought_signature"].flatMap fun name => (idOf part name).map (hashThoughtSignature sha256)

def inboundEchoIDs (sha256 : List UInt8 → List UInt8) (content : Fields) : List Text :=
  ((array? (member? content "parts")).getD []).flatMap fun part => ((object? (some part)).map (partIDs sha256)).getD []

def inspectItem (sha256 : List UInt8 → List UInt8) : Json → RequestItem
  | .object content =>
    let result : RequestItem :=
      { assistant := role content = "model".toList, echoIDs := inboundEchoIDs sha256 content }
    if role content = "user".toList then
      let scan := scanParts content false
      { result with user := scan.isUser, userText := scan.userText, toolResult := scan.skipped }
    else if role content ≠ "model".toList then { result with toolResult := hasFunctionResponse content }
    else result
  | _ => {}

def isUserTurn : Json → Bool
  | .object content => role content = "user".toList && (scanParts content false).isUser
  | _ => false

def isToolResult : Json → Bool
  | .object content => role content ≠ "model".toList && hasFunctionResponse content
  | _ => false

def userText : Json → Text
  | .object content => if role content = "user".toList then (scanParts content false).userText else []
  | _ => []

def assistantText : Json → Option Text
  | .object content =>
    if role content = "model".toList then some (joinAll (scanParts content false).texts []) else none
  | _ => none

end Gemini

namespace Protocol

def historyField : Protocol → String
  | .openAIChat => "messages"
  | .openAIResponses => "input"
  | .anthropicMessages => "messages"
  | .geminiGenerateContent => "contents"

def isStateful : Protocol → Fields → Bool
  | .openAIResponses, fields => OpenAIResponses.isStateful fields
  | _, _ => false

def inspectItem (outside : Outside) : Protocol → Json → RequestItem
  | .openAIChat => OpenAIChat.inspectItem
  | .openAIResponses => OpenAIResponses.inspectItem
  | .anthropicMessages => Anthropic.inspectItem
  | .geminiGenerateContent => Gemini.inspectItem outside.sha256

def isUserTurn : Protocol → Json → Bool
  | .openAIChat => OpenAIChat.isUserTurn
  | .openAIResponses => OpenAIResponses.isUserTurn
  | .anthropicMessages => Anthropic.isUserTurn
  | .geminiGenerateContent => Gemini.isUserTurn

def isToolResult : Protocol → Json → Bool
  | .openAIChat => OpenAIChat.isToolResult
  | .openAIResponses => OpenAIResponses.isToolResult
  | .anthropicMessages => Anthropic.isToolResult
  | .geminiGenerateContent => Gemini.isToolResult

def userText : Protocol → Json → Text
  | .openAIChat => OpenAIChat.userText
  | .openAIResponses => OpenAIResponses.userText
  | .anthropicMessages => Anthropic.userText
  | .geminiGenerateContent => Gemini.userText

def assistantText : Protocol → Json → Option Text
  | .openAIChat => OpenAIChat.assistantText
  | .openAIResponses => OpenAIResponses.assistantText
  | .anthropicMessages => Anthropic.assistantText
  | .geminiGenerateContent => Gemini.assistantText

end Protocol

/-! ### One reading of an item -/

section
variable (outside : Outside) (protocol : Protocol)

theorem inspectItem_user (item : Json) : (protocol.inspectItem outside item).user = protocol.isUserTurn item := by
  cases item with
  | object members =>
    cases protocol with
    | openAIChat =>
      simp only [Protocol.inspectItem, Protocol.isUserTurn, OpenAIChat.inspectItem, OpenAIChat.isUserTurn]
      split
      · next user => simp [user]
      · next other =>
        rw [decide_eq_false other, Bool.false_and]
        split
        · rfl
        · split <;> rfl
    | openAIResponses => rfl
    | anthropicMessages =>
      simp only [Protocol.inspectItem, Protocol.isUserTurn, Anthropic.inspectItem, Anthropic.isUserTurn]
      split
      · next user => simp [user]
      · next other =>
        rw [decide_eq_false other, Bool.false_and]
    | geminiGenerateContent =>
      simp only [Protocol.inspectItem, Protocol.isUserTurn, Gemini.inspectItem, Gemini.isUserTurn]
      split
      · next user => simp [user]
      · next other =>
        rw [decide_eq_false other, Bool.false_and]
        split <;> rfl
  | _ => cases protocol <;> rfl

theorem inspectItem_userText (item : Json) : (protocol.inspectItem outside item).userText = protocol.userText item := by
  cases item with
  | object members =>
    cases protocol with
    | openAIChat =>
      simp only [Protocol.inspectItem, Protocol.userText, OpenAIChat.inspectItem, OpenAIChat.userText]
      split
      · rfl
      · split
        · rfl
        · split <;> rfl
    | openAIResponses => rfl
    | anthropicMessages =>
      simp only [Protocol.inspectItem, Protocol.userText, Anthropic.inspectItem, Anthropic.userText]
      split <;> rfl
    | geminiGenerateContent =>
      simp only [Protocol.inspectItem, Protocol.userText, Gemini.inspectItem, Gemini.userText]
      split
      · rfl
      · split <;> rfl
  | _ => cases protocol <;> rfl

theorem inspectItem_assistant (item : Json) :
    (protocol.inspectItem outside item).assistant = (protocol.assistantText item).isSome := by
  cases item with
  | object members =>
    cases protocol with
    | openAIChat =>
      simp only [Protocol.inspectItem, Protocol.assistantText, OpenAIChat.inspectItem, OpenAIChat.assistantText]
      split
      · next user =>
        rw [if_neg (by rw [user]; decide)]
        rfl
      · split
        · next tool =>
          rw [if_neg (by rw [tool]; decide)]
          rfl
        · split <;> rfl
    | openAIResponses =>
      simp only [Protocol.inspectItem, Protocol.assistantText, OpenAIResponses.inspectItem, OpenAIResponses.assistantText]
      split
      · next assistant => rw [assistant]; rfl
      · next other => simpa using other
    | anthropicMessages =>
      simp only [Protocol.inspectItem, Protocol.assistantText, Anthropic.inspectItem, Anthropic.assistantText]
      split
      · next user => simp [user]
      · split <;> simp_all
    | geminiGenerateContent =>
      simp only [Protocol.inspectItem, Protocol.assistantText, Gemini.inspectItem, Gemini.assistantText]
      split
      · next user => simp [user]
      · split <;> simp_all
  | _ => cases protocol <;> rfl

theorem scanPart_skipped (textTypes skipTypes : List String) (scan : Scan) (part : Json) :
    (scanPart textTypes skipTypes scan part).skipped = (scan.skipped ||
      (object? (some part)).any fun part => (skipTypes.map String.toList).contains (text (member? part "type"))) := by
  cases part with
  | object part =>
    simp only [scanPart, object?, Option.any_some]
    split
    · next skips => rw [skips, Bool.or_true]
    · next other =>
      rw [Bool.not_eq_true] at other
      rw [other, Bool.or_false]
      split
      · split
        · rfl
        · split <;> rfl
      · rfl
  | _ => simp [scanPart, object?]

theorem scanParts_skipped (textTypes skipTypes : List String) (parts : List Json) (scan : Scan) :
    (parts.foldl (scanPart textTypes skipTypes) scan).skipped = (scan.skipped || parts.any fun part =>
      (object? (some part)).any fun part => (skipTypes.map String.toList).contains (text (member? part "type"))) := by
  induction parts generalizing scan with
  | nil => simp
  | cons part parts ih => rw [foldl_cons, ih, scanPart_skipped, any_cons, Bool.or_assoc]

theorem geminiPart_skipped (includeThoughts : Bool) (scan : Scan) (part : Json) :
    (Gemini.scanPart includeThoughts scan part).skipped = (scan.skipped ||
      (object? (some part)).any fun part => (member? part "functionResponse").isSome) := by
  cases part with
  | object part =>
    simp only [Gemini.scanPart, object?, Option.any_some]
    split
    · next answers => rw [answers, Bool.or_true]
    · next other =>
      rw [Bool.not_eq_true] at other
      rw [other, Bool.or_false]
      split
      · rfl
      · split
        · split <;> rfl
        · split <;> rfl
  | _ => simp [Gemini.scanPart, object?]

theorem geminiParts_skipped (includeThoughts : Bool) (parts : List Json) (scan : Scan) :
    (parts.foldl (Gemini.scanPart includeThoughts) scan).skipped = (scan.skipped || parts.any fun part =>
      (object? (some part)).any fun part => (member? part "functionResponse").isSome) := by
  induction parts generalizing scan with
  | nil => simp
  | cons part parts ih => rw [foldl_cons, ih, geminiPart_skipped, any_cons, Bool.or_assoc]

theorem anthropic_skipped (message : Fields) : (Anthropic.scan message).skipped = Anthropic.hasToolResult message := by
  simp only [Anthropic.scan, Anthropic.hasToolResult, scanTextParts]
  cases member? message "content" with
  | none => rfl
  | some content =>
    cases content with
    | array parts =>
      show (parts.foldl (scanPart ["text"] ["tool_result"]) {}).skipped = _
      have one (value : Text) : (["tool_result"].map String.toList).contains value =
          decide (value = "tool_result".toList) := by
        rw [contains_eq_mem, map_singleton]
        exact decide_eq_decide.mpr mem_singleton
      simp only [scanParts_skipped, one, Bool.false_or, array?, Option.getD_some]
    | _ => rfl

theorem gemini_skipped (content : Fields) :
    (Gemini.scanParts content false).skipped = Gemini.hasFunctionResponse content := by
  simp only [Gemini.scanParts, Gemini.hasFunctionResponse]
  cases array? (member? content "parts") with
  | none => rfl
  | some parts =>
    show (parts.foldl (Gemini.scanPart false) {}).skipped = _
    rw [geminiParts_skipped]
    simp

theorem inspectItem_toolResult (item : Json) :
    (protocol.inspectItem outside item).toolResult = protocol.isToolResult item := by
  cases item with
  | object members =>
    cases protocol with
    | openAIChat =>
      simp only [Protocol.inspectItem, Protocol.isToolResult, OpenAIChat.inspectItem, OpenAIChat.isToolResult]
      split
      · next user =>
        have other : text (member? members "role") ≠ "tool".toList := by
          rw [user]
          decide
        rw [decide_eq_false other]
      · split
        · next tool => rw [decide_eq_true tool]
        · next other =>
          rw [decide_eq_false other]
          split <;> rfl
    | openAIResponses => rfl
    | anthropicMessages =>
      simp only [Protocol.inspectItem, Protocol.isToolResult, Anthropic.inspectItem, Anthropic.isToolResult]
      split
      · next user =>
        rw [decide_eq_true user, Bool.true_and]
        exact anthropic_skipped members
      · next other => rw [decide_eq_false other, Bool.false_and]
    | geminiGenerateContent =>
      simp only [Protocol.inspectItem, Protocol.isToolResult, Gemini.inspectItem, Gemini.isToolResult]
      split
      · next user =>
        have speaks : Gemini.role members ≠ "model".toList := by
          rw [user]
          decide
        rw [decide_eq_true speaks, Bool.true_and]
        exact gemini_skipped members
      · split
        · next speaks => rw [decide_eq_true speaks, Bool.true_and]
        · next model => rw [decide_eq_false model, Bool.false_and]
  | _ => cases protocol <;> rfl

end

/-! ### What is not the user's -/

def textTypes : Protocol → List String
  | .openAIChat => OpenAIChat.textTypes
  | .openAIResponses => OpenAIResponses.textTypes
  | .anthropicMessages => ["text"]
  | .geminiGenerateContent => []

/-- A tool result, or text of nothing but dropped blocks. -/
inductive QuietPart : Protocol → Json → Prop where
  | plain {protocol : Protocol} {words : Text} (helpers : Helpers words) : QuietPart protocol (.string words)
  | typed {protocol : Protocol} {part : Fields} {words : Text}
      (text_part : text (member? part "type") = [] ∨
        text (member? part "type") ∈ (textTypes protocol).map String.toList)
      (shown : string? (member? part "text") = some words) (helpers : Helpers words) :
      QuietPart protocol (.object part)
  | untyped {part : Fields} {words : Text} (shown : string? (member? part "text") = some words)
      (helpers : Helpers words) : QuietPart .geminiGenerateContent (.object part)
  | toolResult {part : Fields} (answer : text (member? part "type") = "tool_result".toList) :
      QuietPart .anthropicMessages (.object part)
  | functionResponse {part : Fields} (answer : (member? part "functionResponse").isSome = true) :
      QuietPart .geminiGenerateContent (.object part)

/-- The name of the member that holds an item's content. -/
def contentField : Protocol → String
  | .geminiGenerateContent => "parts"
  | _ => "content"

/-- An item that answers a tool call or holds nothing but quiet parts. -/
inductive QuietItem : Protocol → Json → Prop where
  | words {protocol : Protocol} {message : Fields} {words : Text}
      (content : member? message (contentField protocol) = some (.string words)) (helpers : Helpers words) :
      QuietItem protocol (.object message)
  | parts {protocol : Protocol} {message : Fields} {parts : List Json}
      (content : member? message (contentField protocol) = some (.array parts))
      (quiet : ∀ part ∈ parts, QuietPart protocol part) : QuietItem protocol (.object message)
  | toolMessage {message : Fields} (answer : text (member? message "role") = "tool".toList) :
      QuietItem .openAIChat (.object message)
  | toolOutput {item : Fields} (answer : OpenAIResponses.isToolOutput (text (member? item "type")) = true) :
      QuietItem .openAIResponses (.object item)

/-- A scan that found nothing of the user's. -/
structure Scan.Quiet (scan : Scan) : Prop where
  no_media : scan.hasMedia = false
  no_words : ∀ words ∈ scan.texts, Helpers words

theorem Scan.quiet_nothing (skipped : Bool) : Scan.Quiet { skipped := skipped } :=
  ⟨rfl, fun _ listed => by cases listed⟩

theorem Scan.Quiet.add {scan : Scan} (quiet : scan.Quiet) {words : Text} (helpers : Helpers words) :
    Scan.Quiet { scan with texts := scan.texts ++ [words] } := by
  refine ⟨quiet.no_media, fun other listed => ?_⟩
  rcases mem_append.mp listed with before | here
  · exact quiet.no_words other before
  · rw [mem_singleton.mp here]
    exact helpers

theorem Scan.Quiet.userText {scan : Scan} (quiet : scan.Quiet) : scan.userText = [] := by
  have hidden : (scan.texts.map visibleText).filter (· ≠ []) = [] := by
    rw [filter_eq_nil_iff]
    intro shown listed
    obtain ⟨words, among, rfl⟩ := mem_map.mp listed
    simp [visibleText_helpers (quiet.no_words words among)]
  rw [Scan.userText, joinVisible, hidden]
  rfl

theorem Scan.Quiet.isUser {scan : Scan} (quiet : scan.Quiet) : scan.isUser = false := by
  rw [Scan.isUser, quiet.no_media, quiet.userText]
  rfl

variable {parts : List Json}

theorem quiet_fold {scanner : Scan → Json → Scan} {scan : Scan} (quiet : scan.Quiet)
    (step : ∀ part ∈ parts, ∀ scan : Scan, scan.Quiet → (scanner scan part).Quiet) :
    (parts.foldl scanner scan).Quiet := by
  induction parts generalizing scan with
  | nil => exact quiet
  | cons part parts ih =>
    exact ih (step part (mem_cons_self ..) scan quiet) fun other listed => step other (mem_cons_of_mem _ listed)

variable {skips : List String}

theorem scanPart_quiet {types : List String} {part : Fields} {words : Text}
    (text_part : text (member? part "type") = [] ∨ text (member? part "type") ∈ types.map String.toList)
    (shown : string? (member? part "text") = some words) (helpers : Helpers words) {scan : Scan} (quiet : scan.Quiet) :
    (scanPart types skips scan (.object part)).Quiet := by
  have typed : (decide (text (member? part "type") = []) ||
      (types.map String.toList).contains (text (member? part "type"))) = true := by
    rw [Bool.or_eq_true, decide_eq_true_eq, contains_iff_mem]
    exact text_part
  simp only [scanPart]
  split
  · exact ⟨quiet.no_media, quiet.no_words⟩
  · rw [shown]
    exact quiet.add helpers

variable {protocol : Protocol}

theorem scanTextParts_quiet (quiet : ∀ part ∈ parts, QuietPart protocol part)
    (types : protocol ≠ .geminiGenerateContent) (answers : protocol = .anthropicMessages → skips = ["tool_result"]) :
    (parts.foldl (scanPart (textTypes protocol) skips) {}).Quiet := by
  refine quiet_fold (Scan.quiet_nothing false) fun part listed scan so_far => ?_
  cases quiet part listed with
  | plain helpers => exact so_far.add helpers
  | typed text_part shown helpers => exact scanPart_quiet text_part shown helpers so_far
  | untyped shown helpers => exact absurd rfl types
  | @toolResult part answer =>
    have skipped : ((["tool_result"].map String.toList).contains (text (member? part "type"))) = true := by
      rw [answer]
      decide
    rw [answers rfl]
    simp only [scanPart]
    rw [if_pos skipped]
    exact ⟨so_far.no_media, so_far.no_words⟩
  | functionResponse answer => exact absurd rfl types

theorem geminiParts_quiet (quiet : ∀ part ∈ parts, QuietPart .geminiGenerateContent part) :
    (parts.foldl (Gemini.scanPart false) {}).Quiet := by
  have shows {part : Fields} {words : Text} (shown : string? (member? part "text") = some words)
      (helpers : Helpers words) {scan : Scan} (so_far : scan.Quiet) : (Gemini.scanPart false scan (.object part)).Quiet := by
    simp only [Gemini.scanPart, shown]
    split
    · exact ⟨so_far.no_media, so_far.no_words⟩
    · split
      · exact so_far
      · split
        · exact so_far
        · exact so_far.add helpers
  refine quiet_fold (Scan.quiet_nothing false) fun part listed scan so_far => ?_
  cases quiet part listed with
  | plain helpers => exact so_far
  | typed text_part shown helpers => exact shows shown helpers so_far
  | untyped shown helpers => exact shows shown helpers so_far
  | functionResponse answer =>
    simp only [Gemini.scanPart]
    rw [if_pos answer]
    exact ⟨so_far.no_media, so_far.no_words⟩

/-- The content of an item holds nothing but quiet parts. -/
def QuietContent (protocol : Protocol) (message : Fields) : Prop :=
  (∃ words, member? message (contentField protocol) = some (.string words) ∧ Helpers words) ∨
    ∃ parts, member? message (contentField protocol) = some (.array parts) ∧ ∀ part ∈ parts, QuietPart protocol part

theorem content_quiet {message : Fields} (types : protocol ≠ .geminiGenerateContent)
    (answers : protocol = .anthropicMessages → skips = ["tool_result"]) (quiet : QuietContent protocol message) :
    (scanTextParts (member? message (contentField protocol)) (textTypes protocol) skips).Quiet := by
  rcases quiet with ⟨words, content, helpers⟩ | ⟨parts, content, quiet⟩
  · rw [content]
    exact (Scan.quiet_nothing false).add helpers
  · rw [content]
    exact scanTextParts_quiet quiet types answers

def Protocol.scan : Protocol → Fields → Scan
  | .openAIChat, message => OpenAIChat.scan message
  | .openAIResponses, item => OpenAIResponses.scan item
  | .anthropicMessages, message => Anthropic.scan message
  | .geminiGenerateContent, content => Gemini.scanParts content false

theorem scan_quiet {message : Fields} (quiet : QuietContent protocol message) : (protocol.scan message).Quiet := by
  cases protocol with
  | openAIChat =>
    have no_skips : Protocol.openAIChat = .anthropicMessages → ([] : List String) = ["tool_result"] := nofun
    have parts : Protocol.openAIChat ≠ .geminiGenerateContent := nofun
    exact content_quiet parts no_skips quiet
  | openAIResponses =>
    have no_skips : Protocol.openAIResponses = .anthropicMessages → ([] : List String) = ["tool_result"] := nofun
    have parts : Protocol.openAIResponses ≠ .geminiGenerateContent := nofun
    exact content_quiet parts no_skips quiet
  | anthropicMessages =>
    have skips : Protocol.anthropicMessages = .anthropicMessages → ["tool_result"] = ["tool_result"] := fun _ => rfl
    have parts : Protocol.anthropicMessages ≠ .geminiGenerateContent := nofun
    exact content_quiet parts skips quiet
  | geminiGenerateContent =>
    simp only [Protocol.scan, Gemini.scanParts]
    rcases quiet with ⟨words, content, -⟩ | ⟨parts, content, quiet⟩
    · have none_there : array? (member? message "parts") = none := congrArg array? content
      rw [none_there]
      exact Scan.quiet_nothing false
    · have there : array? (member? message "parts") = some parts := congrArg array? content
      rw [there]
      exact geminiParts_quiet quiet

theorem isUserTurn_scan (protocol : Protocol) (message : Fields) :
    ∃ role, protocol.isUserTurn (.object message) = (role && (protocol.scan message).isUser) := by
  cases protocol <;> exact ⟨_, rfl⟩

theorem isUserTurn_quiet {item : Json} (quiet : QuietItem protocol item) : protocol.isUserTurn item = false := by
  have silent {protocol : Protocol} {message : Fields} (quiet : QuietContent protocol message) :
      protocol.isUserTurn (.object message) = false := by
    obtain ⟨role, same⟩ := isUserTurn_scan protocol message
    rw [same, (scan_quiet quiet).isUser, Bool.and_false]
  cases quiet with
  | words content helpers => exact silent (.inl ⟨_, content, helpers⟩)
  | parts content quiet => exact silent (.inr ⟨_, content, quiet⟩)
  | @toolMessage message answer =>
    have other : text (member? message "role") ≠ "user".toList := by
      rw [answer]
      decide
    show (decide _ && _) = false
    rw [decide_eq_false other, Bool.false_and]
  | @toolOutput item answer =>
    have other : OpenAIResponses.isMessageOf "user" item = false := by
      by_contra message
      rw [Bool.not_eq_false, OpenAIResponses.isMessageOf, Bool.and_eq_true_iff, Bool.or_eq_true, decide_eq_true_eq,
        decide_eq_true_eq] at message
      rcases message.2 with untyped | typed
      · rw [untyped] at answer
        cases answer
      · rw [of_decide_eq_true typed] at answer
        revert answer
        decide
    show (OpenAIResponses.isMessageOf "user" item && _) = false
    rw [other, Bool.false_and]

end AstrLink.RequestItems
