import AstrLink.JsonMembers
import AstrLink.Normalizing
import AstrLink.StandIns

/-!
What an upstream refused. `parseOpenAIReasoningError` reads an error, also one that a relay wrapped;
`refusalOf` tells from it which kinds of refusal it is, and which item, position and field it names.
-/
namespace AstrLink.UpstreamErrors
open JsonTree (Json)
open JsonMembers (Text Members)
open Normalizing (trimSpace)
open StandIns (contains)

/-- The reader of JSON texts: which are valid, and the value in front of a text. -/
structure Reader where
  valid : Text → Bool
  first : Text → Option Json

structure OpenAIReasoningError where
  code : Text
  message : Text
  param : Text

/-- Whether a letter is a lower-case one, whatever its case. -/
def folds (letter char : Char) : Bool :=
  char == letter || char == letter.toUpper || (letter == 's' && char.toNat == 0x17F) ||
    (letter == 'k' && char.toNat == 0x212A)

def equalFold : Text → Text → Bool
  | [], [] => true
  | letter :: word, char :: key => folds letter char && equalFold word key
  | _, _ => false

def lines : Text → List Text
  | [] => [[]]
  | char :: rest =>
    match lines rest with
    | [] => [[char]]
    | line :: more => if char = '\n' then [] :: line :: more else (char :: line) :: more

def cutLead (word text : Text) : Option Text := if word.isPrefixOf text then some (text.drop word.length) else none

/-- The text of an error, or of the first event of a stream that has one. -/
def reasoningErrorJSONBytes (reader : Reader) (body : Text) : Text :=
  let trimmed := trimSpace body
  if reader.valid trimmed then trimmed
  else
    let payloads := (lines trimmed).filterMap fun line => (cutLead "data:".toList (trimSpace line)).map trimSpace
    (payloads.find? reader.valid).getD trimmed

/-- A text is taken, null leaves what is there, and another value is refused. -/
def decodeField (current : OpenAIReasoningError) (key : Text) (value : Json) : Option OpenAIReasoningError :=
  match value with
  | .null => some current
  | .string text =>
    if equalFold "code".toList key then some { current with code := text }
    else if equalFold "message".toList key then some { current with message := text }
    else if equalFold "param".toList key then some { current with param := text }
    else some current
  | _ =>
    if equalFold "code".toList key || equalFold "message".toList key || equalFold "param".toList key then none
    else some current

def decodeMembers (current : OpenAIReasoningError) : Members → Option OpenAIReasoningError
  | [] => some current
  | (key, value) :: rest => (decodeField current key value).bind fun current => decodeMembers current rest

def decodeError (current : OpenAIReasoningError) : Json → Option OpenAIReasoningError
  | .null => some current
  | .object members => decodeMembers current members
  | _ => none

def envelopeError : Json → Option Json
  | .object members => members.foldl (fun found member => if equalFold "error".toList member.1 then some member.2 else found) none
  | _ => none

def decodeEnvelope (json : Json) : Option OpenAIReasoningError :=
  (decodeError ⟨[], [], []⟩ json).bind fun envelope =>
    match envelopeError json with
    | none => some envelope
    | some .null => some envelope
    | some error => decodeError envelope error

/-- The errors that are wrapped in messages, up to a depth. -/
def unwrap (reader : Reader) (outermost : Bool) (result : OpenAIReasoningError) (body : Text) : Nat → OpenAIReasoningError
  | 0 => result
  | depth + 1 =>
    match (reader.first body).bind decodeEnvelope with
    | none => result
    | some current =>
      let result := if outermost then current else result
      if current.code ≠ [] ∧ current.code ≠ "invalid_request_error".toList then current
      else
        let result := if current.message ≠ [] then current else result
        let body := trimSpace current.message
        if body.head? = some '{' then unwrap reader false result body depth else result

def parseOpenAIReasoningError (reader : Reader) (body : Text) : OpenAIReasoningError :=
  let body := reasoningErrorJSONBytes reader body
  if reader.valid body then unwrap reader true ⟨[], [], []⟩ body 3 else ⟨[], [], []⟩

def isDigit (char : Char) : Bool := '0' ≤ char && char ≤ '9'

def isWord (char : Char) : Bool := char.isAlphanum || char == '_'

def isQuote (char : Char) : Bool := char == '\x27' || char == '\x22' || char == '\x60'

/-- A word in front of a text, whatever the case of its letters, and what follows it. -/
def foldLead : Text → Text → Option Text
  | [], text => some text
  | letter :: word, char :: text => if folds letter char then foldLead word text else none
  | _ :: _, [] => none

def quoteMark : Text → Option Text
  | char :: rest => if isQuote char then some rest else none
  | [] => none

def run (inside : Char → Bool) (text : Text) : Option (Text × Text) :=
  match text.takeWhile inside with
  | [] => none
  | found => some (found, text.dropWhile inside)

/-- What a pattern finds first; it is told the character before. -/
def search {α : Type} (pattern : Option Char → Text → Option α) (before : Option Char) : Text → Option α
  | [] => pattern before []
  | char :: rest =>
    match pattern before (char :: rest) with
    | some found => some found
    | none => search pattern (some char) rest

def boundary (before : Option Char) : Bool := !before.any isWord

def isNameChar (char : Char) : Bool :=
  char.isAlphanum || char == '_' || char == '-' || char.toNat == 0x17F || char.toNat == 0x212A

/-- The digits of a position of the input, in brackets or after a dot. -/
def inputIndex (text : Text) : Option (Text × Text) :=
  match cutLead "input".toList text with
  | some ('[' :: rest) =>
    match run isDigit rest with
    | some (digits, ']' :: rest) => some (digits, rest)
    | _ => none
  | some ('.' :: rest) => run isDigit rest
  | _ => none

def fieldNames : List Text := ["encrypted_content".toList, "content".toList, "status".toList]

def openAIReasoningParam (text : Text) : Option (Text × Text) :=
  match inputIndex text with
  | some (digits, []) => some (digits, [])
  | some (digits, '.' :: field) => if fieldNames.any (· == field) then some (digits, field) else none
  | _ => none

def openAIReasoningMessageParam (_before : Option Char) (text : Text) : Option Text :=
  match inputIndex text with
  | some (_, '.' :: rest) =>
    (fieldNames.findSome? fun field => (cutLead field rest).bind fun after =>
      if after.head?.any isWord then none else some after).map fun after => text.take (text.length - after.length)
  | _ => none

def openAIOrphanReasoning (before : Option Char) (text : Text) : Option Text :=
  if boundary before then do
    let text ← foldLead "item ".toList text
    let (id, text) ← run (fun char => !isQuote char) (← quoteMark text)
    let text ← foldLead " of type ".toList (← quoteMark text)
    let text ← foldLead "reasoning".toList (← quoteMark text)
    let _ ← foldLead " was provided without its required following item".toList (← quoteMark text)
    return id
  else none

def dependentKinds : List Text := ["message".toList, "function_call".toList, "custom_tool_call".toList]

def openAIMissingReasoning (before : Option Char) (text : Text) : Option (Text × Text) :=
  if boundary before then do
    let text ← foldLead "item ".toList text
    let (id, text) ← run (fun char => !isQuote char) (← quoteMark text)
    let text ← quoteMark (← foldLead " of type ".toList (← quoteMark text))
    let after ← dependentKinds.findSome? fun kind => foldLead kind text
    let rest ← foldLead " was provided without its required ".toList (← quoteMark after)
    let rest ← foldLead "reasoning".toList (← quoteMark rest)
    let _ ← foldLead " item".toList (← quoteMark rest)
    return (id, text.take (text.length - after.length))
  else none

/-- The id of a reasoning item. -/
def reasoningID (text : Text) : Option (Text × Text) := do
  let rest ← foldLead "rs_".toList text
  let (name, after) ← run isNameChar rest
  return (text.take (text.length - rest.length) ++ name, after)

def openAIMissingReasoningID (before : Option Char) (text : Text) : Option Text :=
  if boundary before then do
    let text ← foldLead "item with id ".toList text
    let (id, after) ← reasoningID (← quoteMark text)
    let _ ← foldLead " not found".toList (← quoteMark after)
    return id
  else none

def openAIEncryptedItemID (_before : Option Char) (text : Text) : Option Text := do
  let rest ← foldLead "encrypted content for item ".toList text
  let (id, _) ← reasoningID ((quoteMark rest).getD rest)
  return id

structure OpenAIRepairScope where
  reasoning : Bool
  functionOutput : Bool

structure Refusal where
  code : Text
  message : Text
  param : Text
  functionOutputError : Bool
  encryptedError : Bool
  structuralError : Bool
  fieldError : Bool
  index : Nat
  field : Text
  indexed : Bool
  orphan : Option Text
  missing : Option (Text × Text)
  missingID : Option Text
  encryptedID : Option Text

def number (digits : Text) : Nat := digits.foldl (fun value digit => value * 10 + (digit.toNat - 48)) 0

def maxInt : Nat := 9223372036854775807

structure Position where
  index : Nat
  field : Text
  indexed : Bool

def reasoningErrorInputIndex (param : Text) : Position :=
  match openAIReasoningParam param with
  | none => ⟨0, [], false⟩
  | some (digits, field) => if number digits ≤ maxInt then ⟨number digits, field, true⟩ else ⟨maxInt, field, false⟩

def isEncryptedFunctionOutputError (code message : Text) : Bool :=
  contains message "encrypted function output".toList ||
    ((code == "invalid_encrypted_content".toList || code == [] || code == "invalid_request_error".toList) &&
      contains message "function output".toList &&
      (contains message "decrypt".toList || contains message "decode".toList || contains message "verified".toList))

def isEncryptedError (code message : Text) : Bool :=
  code == "invalid_encrypted_content".toList ||
    ((code == [] || code == "invalid_request_error".toList) &&
      (contains message "invalid_encrypted_content".toList ||
        (contains message "encrypted content".toList && contains message "could not be verified".toList) ||
        (contains message "encrypted_content".toList && contains message "could not decrypt".toList)))

def structuralCodes : List Text := [[], "invalid_request_error".toList, "invalid_value".toList, "item_not_found".toList]

def fieldCodes : List Text :=
  ["unknown_parameter".toList, "unsupported_parameter".toList, "invalid_type".toList, "array_above_max_length".toList,
    "invalid_request_error".toList, []]

def Refusal.structuralMatch (refusal : Refusal) : Bool :=
  refusal.structuralError && (refusal.orphan.isSome || refusal.missing.isSome || refusal.missingID.isSome)

def messageParam (failure : OpenAIReasoningError) : Text := (search openAIReasoningMessageParam none failure.message).getD []

def errorParam (failure : OpenAIReasoningError) : Text :=
  let param := trimSpace failure.param
  if param = [] then messageParam failure else param

/-- An error whose parameter and message do not name the same field. -/
def conflicting (failure : OpenAIReasoningError) : Bool :=
  let position := reasoningErrorInputIndex (errorParam failure)
  let messagePosition := reasoningErrorInputIndex (messageParam failure)
  errorParam failure != [] && messageParam failure != [] &&
    (!messagePosition.indexed || !position.indexed || messagePosition.index != position.index ||
      messagePosition.field != position.field)

def classify (lower : Char → Char) (failure : OpenAIReasoningError) : Refusal :=
  let code := (trimSpace failure.code).map lower
  let message := failure.message.map lower
  let functionOutputError := isEncryptedFunctionOutputError code message
  let encryptedError := !functionOutputError && isEncryptedError code message
  let position := reasoningErrorInputIndex (errorParam failure)
  { code, message, functionOutputError, encryptedError
    param := errorParam failure
    structuralError := structuralCodes.any (· == code)
    fieldError := position.indexed && (position.field == "content".toList || position.field == "status".toList) &&
      fieldCodes.any (· == code)
    index := position.index
    field := position.field
    indexed := position.indexed
    orphan := search openAIOrphanReasoning none failure.message
    missing := search openAIMissingReasoning none failure.message
    missingID := search openAIMissingReasoningID none failure.message
    encryptedID := if encryptedError then search openAIEncryptedItemID none failure.message else none }

def refusalOf (lower : Char → Char) (scope : OpenAIRepairScope) (failure : OpenAIReasoningError) : Option Refusal :=
  let refusal := classify lower failure
  if !scope.reasoning && !scope.functionOutput then none
  else if refusal.functionOutputError && !scope.functionOutput then none
  else if !refusal.functionOutputError && !scope.reasoning then none
  else if conflicting failure then none
  else if !refusal.functionOutputError && !refusal.encryptedError && !refusal.fieldError && !refusal.structuralMatch then none
  else some refusal

end AstrLink.UpstreamErrors
