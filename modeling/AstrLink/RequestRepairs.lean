import AstrLink.UpstreamErrors

/-!
The repair of a Responses request that an upstream refused. One pass over the input
(`repairInput`) takes from each item what the refusal names; a request whose references
would lose their item is not repaired.
-/
namespace AstrLink.RequestRepairs
open JsonTree (Json)
open JsonMembers
open Normalizing (trimSpace)
open UpstreamErrors

/-- The text of a value, none where it is no text. -/
def reasoningString : Option Json → Text
  | some (.string text) => text
  | _ => []

def isNull : Option Json → Bool
  | some .null => true
  | _ => false

/-- The text of a part, the last that it has; another value is refused. -/
def textOf (current : Text) : Members → Option Text
  | [] => some current
  | (key, value) :: rest =>
    if equalFold "text".toList key then
      match value with
      | .string text => textOf text rest
      | .null => textOf current rest
      | _ => none
    else textOf current rest

def partText : Json → Option Text
  | .null => some []
  | .object members => textOf [] members
  | _ => none

def hasReasoningText : Option Json → Bool
  | some (.string text) => trimSpace text != []
  | some (.array parts) =>
    match parts.mapM partText with
    | some texts => texts.any fun text => trimSpace text != []
    | none => false
  | _ => false

def standaloneReasoningDependentItem (item : Members) : Bool :=
  let kind := reasoningString (get item "type".toList)
  if kind = "message".toList then
    reasoningString (get item "role".toList) == "assistant".toList && hasReasoningText (get item "content".toList)
  else if kind = "function_call".toList then
    reasoningString (get item "call_id".toList) != [] && reasoningString (get item "name".toList) != [] &&
      reasoningString (get item "arguments".toList) != []
  else if kind = "custom_tool_call".toList then
    reasoningString (get item "call_id".toList) != [] && reasoningString (get item "name".toList) != [] &&
      reasoningString (get item "input".toList) != []
  else false

def isToolOutput (kind : Text) : Bool := kind == "function_call_output".toList || kind == "custom_tool_call_output".toList

def isCompaction (kind : Text) : Bool := kind == "compaction".toList || kind == "compaction_summary".toList

def plainParts (parts : List Json) : List Json :=
  parts.filter fun part => reasoningString (member part "type".toList) != "encrypted_content".toList

/-- A tool output without its encrypted parts and its id, none where it has no such parts. -/
def stripFunctionOutputCipher (item : Members) : Option Members :=
  if isToolOutput (reasoningString (get item "type".toList)) then
    let changed := (get item "encrypted_content".toList).isSome
    let stripped := if changed then delete item "encrypted_content".toList else item
    match get stripped "output".toList with
    | some (.array parts) =>
      let kept := plainParts parts
      if kept.length = parts.length then
        if changed then some (delete stripped "id".toList) else none
      else
        let output := if kept = [] then .string [] else .array kept
        some (delete (set stripped "output".toList output) "id".toList)
    | _ => if changed then some (delete stripped "id".toList) else none
  else none

def fieldRefused (refusal : Refusal) (value : Option Json) : Bool :=
  let unsupported := refusal.code == "unknown_parameter".toList || refusal.code == "unsupported_parameter".toList ||
    StandIns.contains refusal.message "unknown parameter".toList ||
    StandIns.contains refusal.message "unsupported parameter".toList
  let nullContent := refusal.field == "content".toList && isNull value && StandIns.contains refusal.message "null".toList &&
    (refusal.code == "invalid_type".toList || StandIns.contains refusal.message "invalid type".toList)
  let zeroContent := refusal.field == "content".toList && refusal.code == "array_above_max_length".toList &&
    StandIns.contains refusal.message "maximum length 0".toList
  unsupported || nullContent || zeroContent

/-- Whether the ciphertext at a position is refused. -/
def cipherRefused (refusal : Refusal) (i : Nat) : Bool :=
  let namedCipher := refusal.encryptedID.isSome
  let unscopedCipher := refusal.encryptedID.isNone && (!refusal.indexed || i == refusal.index)
  namedCipher || unscopedCipher

/-- A reasoning item without its ciphertext and id, and whether it goes. -/
def stripCipher (item : Members) : Members × Bool :=
  let item := delete (delete item "encrypted_content".toList) "id".toList
  let item := if isNull (get item "content".toList) then delete item "content".toList else item
  let drop := !hasReasoningText (get item "summary".toList) && !hasReasoningText (get item "content".toList)
  let bare := (get item "summary".toList).isNone || isNull (get item "summary".toList)
  (if !drop && bare then set item "summary".toList (.array []) else item, drop)

/-- What the refusal asks of an item, if anything. -/
def repairRefused (refusal : Refusal) (i : Nat) (kind id : Text) (item : Members) : Option (Members × Bool) :=
  if refusal.encryptedError && kind == "reasoning".toList && cipherRefused refusal i &&
      (get item "encrypted_content".toList).isSome then
    some (stripCipher item)
  else if !refusal.encryptedError && refusal.structuralError && kind == "reasoning".toList &&
      refusal.orphan == some id then
    some (item, true)
  else if !refusal.encryptedError && refusal.structuralError && kind == "reasoning".toList &&
      refusal.missingID == some id && reasoningString (get item "encrypted_content".toList) != [] then
    some (delete item "id".toList, false)
  else if !refusal.encryptedError && refusal.structuralError && refusal.missing == some (id, kind) &&
      standaloneReasoningDependentItem item then
    some (delete item "id".toList, false)
  else if !refusal.encryptedError && refusal.fieldError && i == refusal.index && kind == "reasoning".toList &&
      (get item refusal.field).isSome then
    if fieldRefused refusal (get item refusal.field) then some (delete item refusal.field, false) else none
  else none

/-- What becomes of an item and of the ids that are gone with it. -/
structure Step where
  outcome : Option Json
  changed : Bool
  detached : List Text
  detachFollowing : Bool

def repairStep (scope : OpenAIRepairScope) (refusal : Refusal) (i : Nat) (detachFollowing : Bool) (raw : Json) : Step :=
  match raw with
  | .object members =>
    let kind := reasoningString (get members "type".toList)
    let id := reasoningString (get members "id".toList)
    let detach := detachFollowing && standaloneReasoningDependentItem members && id != []
    let item := if detach then delete members "id".toList else members
    let repair := repairRefused refusal i kind id item
    let item := (repair.map (·.1)).getD item
    let drop := (repair.map (·.2)).getD false
    let strip := if scope.functionOutput && (refusal.functionOutputError || refusal.encryptedError) then
      stripFunctionOutputCipher item else none
    let item := strip.getD item
    let modified := detach || repair.isSome || strip.isSome
    let detached := (if detach then [id] else []) ++
      (if modified && id != [] && (drop || (get item "id".toList).isNone) then [id] else [])
    -- Only a named ciphertext that goes is known to be the predecessor of the next item.
    if drop then ⟨none, modified, detached, refusal.encryptedID.isSome⟩
    else ⟨some (if modified then .object item else raw), modified, detached, false⟩
  | _ => ⟨some raw, false, [], false⟩

def repairInput (scope : OpenAIRepairScope) (refusal : Refusal) (i : Nat) (detachFollowing : Bool) : List Json → List Step
  | [] => []
  | raw :: rest =>
    let step := repairStep scope refusal i detachFollowing raw
    step :: repairInput scope refusal (i + 1) step.detachFollowing rest

def kindOf (item : Json) : Text := reasoningString (member item "type".toList)

def idOf (item : Json) : Text := reasoningString (member item "id".toList)

/-- A named ciphertext is that of a reasoning item, at the position if one is named. -/
def namedRefused (refusal : Refusal) (input : List Json) (id : Text) : Bool :=
  input.any (fun item => idOf item == id && isCompaction (kindOf item)) ||
    !input.any (fun item => idOf item == id && kindOf item == "reasoning".toList &&
      (member item "encrypted_content".toList).isSome) ||
    (refusal.indexed && (input[refusal.index]?).any (fun item => idOf item != id))

/-- The requests that are not repaired, whatever their items. -/
def inputRefused (refusal : Refusal) (input : List Json) : Bool :=
  input.isEmpty || (refusal.indexed && decide (input.length ≤ refusal.index)) ||
    (refusal.encryptedError && refusal.param != [] && refusal.param != "input".toList &&
      (!refusal.indexed || (refusal.field != [] && refusal.field != "encrypted_content".toList))) ||
    (match refusal.encryptedID with
      | some id => namedRefused refusal input id
      | none => refusal.encryptedError && !refusal.indexed &&
          input.any (fun item => isCompaction (kindOf item) && (member item "encrypted_content".toList).isSome))

def recoveryReason (refusal : Refusal) : String :=
  if refusal.functionOutputError && !refusal.encryptedError && !refusal.fieldError && !refusal.structuralMatch then
    "openai_function_output_repair"
  else "openai_reasoning_repair"

def rectifyInput (scope : OpenAIRepairScope) (refusal : Refusal) (input : List Json) : Option (List Json) :=
  if inputRefused refusal input then none
  else
    let steps := repairInput scope refusal 0 false input
    let repaired := steps.filterMap (·.outcome)
    if !steps.any (·.changed) || repaired.isEmpty then none
    -- A reference cannot be made of an item that is gone.
    else if input.any fun item => kindOf item == "item_reference".toList &&
        (steps.flatMap (·.detached)).any (· == idOf item) then none
    else some repaired

def rectifyOpenAIRequest (reader : Reader) (lower : Char → Char) (body : Json) (errorBody : Text)
    (scope : OpenAIRepairScope) : Option (Json × String) :=
  (refusalOf lower scope (parseOpenAIReasoningError reader errorBody)).bind fun refusal =>
    match body with
    | .object document =>
      match get document "input".toList with
      | some (.array input) => (rectifyInput scope refusal input).map fun repaired =>
          (.object (set document "input".toList (.array repaired)), recoveryReason refusal)
      | _ => none
    | _ => none

end AstrLink.RequestRepairs
