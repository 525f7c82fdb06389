import AstrLink.JsonMembers
import AstrLink.Normalizing

/-!
The repair of a Messages request whose thinking an upstream refused. Thinking blocks of
the assistant become its text or go, and the settings of thinking go with them. What is
repaired has nothing left to repair (`rectifyThinkingSignature_again`).
-/
namespace AstrLink.ThinkingRepairs
open JsonTree (Json)
open JsonMembers
open Normalizing (trimSpace)

def isText (value : Option Json) (word : String) : Bool :=
  match value with
  | some (.string text) => text == word.toList
  | _ => false

def textBlock (text : Text) : Json := .object [("type".toList, .string "text".toList), ("text".toList, .string text)]

def omitted : Json := textBlock "(thinking omitted)".toList

inductive Block where
  | thinking (block : Json)
  | redacted
  | other

def blockOf (entry : Json) : Block :=
  if isText (member entry "type".toList) "thinking" then .thinking entry
  else if isText (member entry "type".toList) "redacted_thinking" then .redacted
  else .other

/-- What a thinking block says becomes text; a redacted one, and one that says nothing, goes. -/
def repairBlock (entry : Json) : List Json :=
  match blockOf entry with
  | .thinking block =>
    match member block "thinking".toList with
    | some (.string text) => if trimSpace text = [] then [] else [textBlock text]
    | _ => []
  | .redacted => []
  | .other => [entry]

def isThinking (entry : Json) : Bool :=
  match blockOf entry with
  | .other => false
  | _ => true

/-- The content of a message of the assistant, none where it has no thinking. -/
def repairContent (content : List Json) : Option (List Json) :=
  if content.any isThinking then
    let repaired := content.flatMap repairBlock
    some (if repaired.isEmpty then [omitted] else repaired)
  else none

/-- A message, none where it is not changed. -/
def repairMessage (entry : Json) : Option Json :=
  match entry with
  | .object message =>
    if isText (get message "role".toList) "assistant" then
      match get message "content".toList with
      | some (.array content) => (repairContent content).map fun repaired =>
          .object (set message "content".toList (.array repaired))
      | _ => none
    else none
  | _ => none

def clearsThinking (entry : Json) : Bool :=
  match member entry "type".toList with
  | some (.string kind) => "clear_thinking_".toList.isPrefixOf kind
  | _ => false

/-- The edits of the context that clear thinking go, and what is empty without them. -/
def repairManagement (document : Members) : Members :=
  match get document "context_management".toList with
  | some (.object management) =>
    match get management "edits".toList with
    | some (.array edits) =>
      let kept := edits.filter fun entry => !clearsThinking entry
      if kept.length = edits.length then document
      else
        let management := if kept.isEmpty then delete management "edits".toList
          else set management "edits".toList (.array kept)
        if management.isEmpty then delete document "context_management".toList
        else set document "context_management".toList (.object management)
    | _ => document
  | _ => document

/-- The repaired request, none where nothing is to repair. -/
def rectifyThinkingSignature (body : Json) : Option Json :=
  match body with
  | .object document =>
    match get document "messages".toList with
    | some (.array messages) =>
      if messages.isEmpty then none
      else
        let changed := messages.any fun entry => (repairMessage entry).isSome
        let repaired := messages.map fun entry => (repairMessage entry).getD entry
        let thinks := (get document "thinking".toList).isSome
        if !changed && !thinks then none
        else
          let document := if changed then set document "messages".toList (.array repaired) else document
          some (.object (repairManagement (delete document "thinking".toList)))
    | _ => none
  | _ => none

variable {entry : Json}

theorem repairBlock_plain {block : Json} (left : block ∈ repairBlock entry) :
    isThinking block = false ∧ (block = entry ∨ ∃ text, block = textBlock text ∧
      member entry "thinking".toList = some (.string text) ∧ isThinking entry = true) := by
  unfold repairBlock at left
  cases kind : blockOf entry with
  | thinking inner =>
    have same : inner = entry := by
      unfold blockOf at kind
      split at kind
      · cases kind
        rfl
      · split at kind <;> cases kind
    subst same
    rw [kind] at left
    dsimp only at left
    split at left
    case h_1 value text found =>
      split at left
      case isTrue => cases left
      case isFalse =>
        rw [List.mem_singleton] at left
        subst left
        exact ⟨rfl, .inr ⟨text, rfl, found, by rw [isThinking, kind]⟩⟩
    case h_2 => cases left
  | redacted =>
    rw [kind] at left
    cases left
  | other =>
    rw [kind] at left
    rw [List.mem_singleton] at left
    subst left
    exact ⟨by rw [isThinking, kind], .inl rfl⟩

theorem repairBlock_other (plain : isThinking entry = false) : repairBlock entry = [entry] := by
  unfold isThinking at plain
  unfold repairBlock
  cases kind : blockOf entry with
  | thinking inner => rw [kind] at plain; cases plain
  | redacted => rw [kind] at plain; cases plain
  | other => rfl

/-- The other blocks of a message in order, text for thinking, and never nothing. -/
structure Quieted (content repaired : List Json) : Prop where
  others : (content.filter fun entry => !isThinking entry).Sublist repaired
  only : ∀ block ∈ repaired, block ∈ content ∧ isThinking block = false ∨ block = omitted ∨
    ∃ entry ∈ content, isThinking entry = true ∧ ∃ text, block = textBlock text ∧
      member entry "thinking".toList = some (.string text)
  plain : ∀ block ∈ repaired, isThinking block = false
  filled : repaired ≠ []

variable {content : List Json}

theorem repairContent_quieted {repaired : List Json} (found : repairContent content = some repaired) :
    Quieted content repaired := by
  unfold repairContent at found
  split at found
  case isFalse => cases found
  case isTrue some_thinking =>
    have others : (content.filter fun entry => !isThinking entry).Sublist (content.flatMap repairBlock) := by
      clear found some_thinking
      induction content with
      | nil => exact List.nil_sublist _
      | cons entry rest ih =>
        rw [List.flatMap_cons]
        cases plain : isThinking entry with
        | true =>
          rw [List.filter_cons_of_neg (by rw [plain]; decide)]
          exact ih.trans (List.sublist_append_right _ _)
        | false =>
          rw [List.filter_cons_of_pos (by rw [plain]; rfl), repairBlock_other plain]
          exact ih.cons_cons entry
    dsimp only at found
    split at found
    case isTrue empty =>
      cases found
      rw [List.isEmpty_iff] at empty
      rw [empty] at others
      refine ⟨others.trans (List.nil_sublist _), ?_, ?_, List.cons_ne_nil _ _⟩
      · intro block member
        exact .inr (.inl (List.mem_singleton.mp member))
      · intro block member
        rw [List.mem_singleton.mp member]
        rfl
    case isFalse filled =>
      cases found
      refine ⟨others, ?_, ?_, fun empty => filled (List.isEmpty_iff.mpr empty)⟩
      · intro block member
        obtain ⟨entry, inside, left⟩ := List.mem_flatMap.mp member
        obtain ⟨plain, rfl | ⟨text, is_text, spoken, thinks⟩⟩ := repairBlock_plain left
        · exact .inl ⟨inside, plain⟩
        · exact .inr (.inr ⟨entry, inside, thinks, text, is_text, spoken⟩)
      · intro block member
        obtain ⟨entry, inside, left⟩ := List.mem_flatMap.mp member
        exact (repairBlock_plain left).1

/-- What a repair makes of a message. -/
structure Rectified (before after : Json) : Prop where
  others : isText (member before "role".toList) "assistant" = false → after = before
  frame : ∀ key, key ≠ "content".toList → member after key = member before key
  content : after = before ∨ ∃ content repaired, member before "content".toList = some (.array content) ∧
    member after "content".toList = some (.array repaired) ∧ Quieted content repaired
  plain : isText (member before "role".toList) "assistant" = true →
    ∀ content, member after "content".toList = some (.array content) → ∀ block ∈ content, isThinking block = false

theorem repairMessage_some {after : Json} (found : repairMessage entry = some after) :
    ∃ message content repaired, entry = .object message ∧ isText (get message "role".toList) "assistant" = true ∧
      get message "content".toList = some (.array content) ∧ repairContent content = some repaired ∧
      after = .object (set message "content".toList (.array repaired)) := by
  unfold repairMessage at found
  split at found
  case h_2 => cases found
  case h_1 message =>
    split at found
    case isFalse => cases found
    case isTrue assistant =>
      split at found
      case h_2 => cases found
      case h_1 value content array =>
        obtain ⟨repaired, quieted, rfl⟩ := Option.map_eq_some_iff.mp found
        exact ⟨message, content, repaired, rfl, assistant, array, quieted, rfl⟩

theorem repairContent_none (found : repairContent content = none) : ∀ block ∈ content, isThinking block = false := by
  unfold repairContent at found
  split at found
  case isTrue => cases found
  case isFalse no_thinking =>
    intro block member
    cases thinks : isThinking block with
    | false => rfl
    | true => exact absurd (List.any_eq_true.mpr ⟨block, member, thinks⟩) no_thinking

theorem repairContent_plain (plain : ∀ block ∈ content, isThinking block = false) : repairContent content = none := by
  unfold repairContent
  rw [if_neg]
  intro some_thinking
  obtain ⟨block, member, thinks⟩ := List.any_eq_true.mp some_thinking
  rw [plain block member] at thinks
  cases thinks

theorem repairMessage_rectified (entry : Json) : Rectified entry ((repairMessage entry).getD entry) := by
  cases found : repairMessage entry with
  | none =>
    rw [Option.getD_none]
    refine ⟨fun _ => rfl, fun _ _ => rfl, .inl rfl, fun assistant content array => ?_⟩
    cases entry with
    | object message =>
      change isText (get message "role".toList) "assistant" = true at assistant
      change get message "content".toList = some (.array content) at array
      simp only [repairMessage, assistant, array, if_true, Option.map_eq_none_iff] at found
      exact repairContent_none found
    | null => cases array
    | bool => cases array
    | number => cases array
    | string => cases array
    | array => cases array
  | some after =>
    obtain ⟨message, content, repaired, rfl, assistant, array, quieted, rfl⟩ := repairMessage_some found
    rw [Option.getD_some]
    have left := repairContent_quieted quieted
    refine ⟨fun other => ?_, fun key apart => get_set_other _ _ apart, .inr ⟨content, repaired, array, get_set_same _ _ _, left⟩,
      fun _ others array => ?_⟩
    · change isText (get message "role".toList) "assistant" = false at other
      rw [assistant] at other
      cases other
    · change get (set message "content".toList (.array repaired)) "content".toList = some (.array others) at array
      rw [get_set_same] at array
      cases array
      exact left.plain

theorem repairMessage_again (entry : Json) : repairMessage ((repairMessage entry).getD entry) = none := by
  cases found : repairMessage entry with
  | none => exact found
  | some after =>
    obtain ⟨message, content, repaired, rfl, assistant, array, quieted, rfl⟩ := repairMessage_some found
    rw [Option.getD_some]
    simp only [repairMessage, get_set_same, get_set_other _ _ (show "role".toList ≠ "content".toList by decide), assistant, if_true,
      repairContent_plain (repairContent_quieted quieted).plain, Option.map_none]

theorem repairManagement_other (document : Members) {key : Text} (apart : key ≠ "context_management".toList) :
    get (repairManagement document) key = get document key := by
  unfold repairManagement
  split
  case h_2 => rfl
  case h_1 =>
    split
    case h_2 => rfl
    case h_1 =>
      dsimp only
      split_ifs
      · rfl
      · exact get_delete_other _ apart
      · exact get_set_other _ _ apart
      · exact get_delete_other _ apart
      · exact get_set_other _ _ apart

/-- What a repair makes of a request. -/
structure ThinkingRepaired (body repaired : Json) : Prop where
  messages : ∃ before after, member body "messages".toList = some (.array before) ∧
    member repaired "messages".toList = some (.array after) ∧ List.Forall₂ Rectified before after
  frame : ∀ key, key ≠ "messages".toList → key ≠ "thinking".toList → key ≠ "context_management".toList →
    member repaired key = member body key
  settings : member repaired "thinking".toList = none

theorem rectified_all (messages : List Json) :
    List.Forall₂ Rectified messages (messages.map fun entry => (repairMessage entry).getD entry) := by
  induction messages with
  | nil => exact .nil
  | cons entry rest ih => exact .cons (repairMessage_rectified entry) ih

variable {body repaired : Json}

theorem rectifyThinkingSignature_some (found : rectifyThinkingSignature body = some repaired) :
    ∃ document rest messages, body = .object document ∧ get document "messages".toList = some (.array messages) ∧
      repaired = .object (repairManagement (delete rest "thinking".toList)) ∧
      get rest "messages".toList = some (.array (messages.map fun entry => (repairMessage entry).getD entry)) ∧
      ∀ key, key ≠ "messages".toList → get rest key = get document key := by
  unfold rectifyThinkingSignature at found
  split at found
  case h_2 => cases found
  case h_1 document =>
    split at found
    case h_2 => cases found
    case h_1 value messages array =>
      split at found
      case isTrue => cases found
      case isFalse =>
        dsimp only at found
        split at found
        case isTrue => cases found
        case isFalse =>
          cases found
          refine ⟨document, _, messages, rfl, array, rfl, ?_, ?_⟩
          · split
            case isTrue => exact get_set_same _ _ _
            case isFalse unchanged =>
              have same : (messages.map fun entry => (repairMessage entry).getD entry) = messages := by
                refine (List.map_congr_left (g := id) fun entry inside => ?_).trans (List.map_id messages)
                cases repair : repairMessage entry with
                | none => rfl
                | some after =>
                  exact absurd (List.any_eq_true.mpr ⟨entry, inside, by rw [repair]; rfl⟩) unchanged
              rw [array, same]
          · intro key apart
            split
            case isTrue => exact get_set_other _ _ apart
            case isFalse => rfl

theorem rectifyThinkingSignature_repaired (found : rectifyThinkingSignature body = some repaired) :
    ThinkingRepaired body repaired := by
  obtain ⟨document, rest, messages, rfl, array, rfl, after, others⟩ := rectifyThinkingSignature_some found
  refine ⟨⟨messages, _, array, ?_, rectified_all messages⟩, ?_, ?_⟩
  · change get _ _ = _
    rw [repairManagement_other _ (by decide), get_delete_other _ (by decide), after]
  · intro key on_messages on_thinking on_management
    change get _ _ = get _ _
    rw [repairManagement_other _ on_management, get_delete_other _ on_thinking, others key on_messages]
  · change get _ _ = _
    rw [repairManagement_other _ (by decide), get_delete_same]

theorem rectifyThinkingSignature_again (found : rectifyThinkingSignature body = some repaired) :
    rectifyThinkingSignature repaired = none := by
  obtain ⟨document, rest, messages, rfl, array, rfl, after, others⟩ := rectifyThinkingSignature_some found
  have kept : get (repairManagement (delete rest "thinking".toList)) "messages".toList =
      some (.array (messages.map fun entry => (repairMessage entry).getD entry)) := by
    rw [repairManagement_other _ (by decide), get_delete_other _ (by decide), after]
  have settled : get (repairManagement (delete rest "thinking".toList)) "thinking".toList = none := by
    rw [repairManagement_other _ (by decide), get_delete_same]
  have quiet : ((messages.map fun entry => (repairMessage entry).getD entry).any fun entry =>
      (repairMessage entry).isSome) = false := by
    rw [List.any_map, List.any_eq_false]
    intro entry _
    rw [Function.comp, repairMessage_again]
    decide
  unfold rectifyThinkingSignature
  dsimp only
  rw [kept]
  dsimp only
  rw [quiet, settled]
  split <;> rfl

end AstrLink.ThinkingRepairs
