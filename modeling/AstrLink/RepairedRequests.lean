import AstrLink.RepairedItems
import AstrLink.ThinkingRepairs

/-!
Repairs remove what the upstream refused. `request_repairs` puts together what the repair
of a Responses request leaves of its input (`Repairs`), item by item and as a
conversation, and what the repair of thinking leaves of a Messages request.
-/
namespace AstrLink.RepairedRequests
open JsonTree (Json)
open JsonMembers List
open UpstreamErrors
open RequestRepairs
open RepairedItems
open ThinkingRepairs (rectifyThinkingSignature ThinkingRepaired rectifyThinkingSignature_repaired
  rectifyThinkingSignature_again)

/-- Each item beside what became of it; the flag says whether the one before is gone. -/
def Within (scope : OpenAIRepairScope) (refusal : Refusal) : Nat → Bool → List (Json × Option Json) → Prop
  | _, _, [] => True
  | i, afterDropped, (raw, outcome) :: rest =>
    Repaired scope refusal i afterDropped raw outcome ∧ Within scope refusal (i + 1) outcome.isNone rest

def isDependent (item : Json) : Bool :=
  match item with
  | .object members => standaloneReasoningDependentItem members
  | _ => false

/-- What carries the conversation in an item: who speaks, the call and what is called. -/
def conversationKeys : List Text :=
  ["type".toList, "role".toList, "call_id".toList, "name".toList, "arguments".toList, "input".toList]

def conversation (items : List Json) : List (List (Option Json)) :=
  (items.filter fun item => kindOf item != "reasoning".toList).map fun item => conversationKeys.map (member item)

/-- What a repair leaves of an input. -/
structure Repairs (scope : OpenAIRepairScope) (refusal : Refusal) (trace : List (Json × Option Json)) : Prop where
  within : Within scope refusal 0 false trace
  others : ∀ entry ∈ trace, kindOf entry.1 ≠ "reasoning".toList → isToolOutput (kindOf entry.1) = false →
    isDependent entry.1 = false → entry.2 = some entry.1
  users : ∀ entry ∈ trace, kindOf entry.1 = "message".toList ∨ kindOf entry.1 = [] →
    reasoningString (member entry.1 "role".toList) = "user".toList → entry.2 = some entry.1
  compactions : ∀ entry ∈ trace, isCompaction (kindOf entry.1) = true → entry.2 = some entry.1
  /-- Every item that is no reasoning is there: each call, and each output with its call's id. -/
  kept : ∀ entry ∈ trace, kindOf entry.1 ≠ "reasoning".toList →
    ∃ after, entry.2 = some after ∧ ∀ key ∈ conversationKeys, member after key = member entry.1 key
  spoken : conversation (trace.filterMap Prod.snd) = conversation (trace.map Prod.fst)
  /-- An item that is referred to is there, with its id. -/
  references : ∀ reference ∈ trace.filterMap Prod.snd, kindOf reference = "item_reference".toList → idOf reference ≠ [] →
    ∀ entry ∈ trace, idOf entry.1 = idOf reference → ∃ after, entry.2 = some after ∧ idOf after = idOf reference

variable {scope : OpenAIRepairScope} {refusal : Refusal}

variable {i : Nat} {value : Option Json}
variable {item : Members}

theorem mayChange_mono {first second : Bool} {key : Text} (may : MayChange scope refusal i first item key value)
    (later : first = true → second = true) :
    MayChange scope refusal i second item key value := by
  cases may with
  | cipher reasoning refused here => exact .cipher reasoning refused here
  | cipherID reasoning refused here => exact .cipherID reasoning refused here
  | nullContent reasoning refused here null => exact .nullContent reasoning refused here null
  | emptySummary reasoning refused here bare visible => exact .emptySummary reasoning refused here bare visible
  | storedID reasoning named => exact .storedID reasoning named
  | field reasoning refused here value => exact .field reasoning refused here value
  | dependentID complete detached => exact .dependentID complete (detached.imp_left later)
  | outputCipher allowed output => exact .outputCipher allowed output
  | outputID allowed output encrypted => exact .outputID allowed output encrypted
  | outputParts allowed output found => exact .outputParts allowed output found

variable {raw : Json}

theorem repaired_mono {first second : Bool} {outcome : Option Json}
    (repaired : Repaired scope refusal i first raw outcome) (later : first = true → second = true) :
    Repaired scope refusal i second raw outcome := by
  cases outcome with
  | none => exact repaired
  | some after =>
    rcases repaired with same | ⟨item, changed, object, became, frame⟩
    · exact .inl same
    · exact .inr ⟨item, changed, object, became, fun key => (frame key).imp_right (mayChange_mono · later)⟩

variable {afterDropped : Bool}

theorem mayChange_spoken (sound : Sound refusal) {key : Text}
    (may : MayChange scope refusal i afterDropped item key value) : key ∉ conversationKeys := by
  cases may with
  | field _ refused _ _ => rcases sound.field refused with named | named <;> rw [named] <;> decide
  | _ => decide

theorem mayChange_id {key : Text} (may : MayChange scope refusal i afterDropped item key value)
    (id : key = "id".toList) :
    value = none := by
  cases may with
  | emptySummary => exact absurd id (by decide)
  | outputParts => exact absurd id (by decide)
  | _ => rfl

variable {after : Json}

section
variable (sound : Sound refusal)
include sound

theorem repaired_spoken (repaired : Repaired scope refusal i afterDropped raw (some after)) :
    ∀ key ∈ conversationKeys, member after key = member raw key := by
  rcases repaired with rfl | ⟨item, changed, rfl, rfl, frame⟩
  · exact fun _ _ => rfl
  · intro key carries
    rcases frame key with same | may
    · exact same
    · exact absurd carries (mayChange_spoken sound may)

theorem repaired_kind (repaired : Repaired scope refusal i afterDropped raw (some after)) :
    kindOf after = kindOf raw := by
  rw [kindOf, repaired_spoken sound repaired _ (by decide), kindOf]

theorem repairStep_repaired (i : Nat) (afterDropped : Bool) (raw : Json) :
    Repaired scope refusal i afterDropped raw (repairStep scope refusal i afterDropped raw).outcome := by
  cases raw with
  | object item => exact (repairStep_road scope sound i afterDropped item).repaired
  | null => exact .inl rfl
  | bool => exact .inl rfl
  | number => exact .inl rfl
  | string => exact .inl rfl
  | array => exact .inl rfl

theorem repairStep_following (i : Nat) (afterDropped : Bool) (raw : Json)
    (follows : (repairStep scope refusal i afterDropped raw).detachFollowing = true) :
    (repairStep scope refusal i afterDropped raw).outcome.isNone = true := by
  cases raw with
  | object item =>
    have road := repairStep_road scope sound i afterDropped item
    generalize repairStep scope refusal i afterDropped (.object item) = step at road follows
    cases road with
    | dropped => rfl
    | _ => cases follows
  | null => cases follows
  | bool => cases follows
  | number => cases follows
  | string => cases follows
  | array => cases follows

theorem repairStep_others (i : Nat) (afterDropped : Bool) (raw : Json)
    (no_reasoning : kindOf raw ≠ "reasoning".toList) (no_output : isToolOutput (kindOf raw) = false)
    (no_dependent : isDependent raw = false) : (repairStep scope refusal i afterDropped raw).outcome = some raw := by
  cases raw with
  | object item =>
    have road := repairStep_road scope sound i afterDropped item
    generalize repairStep scope refusal i afterDropped (.object item) = step at road
    change kindIn item ≠ _ at no_reasoning
    change isToolOutput (kindIn item) = false at no_output
    change standaloneReasoningDependentItem item = false at no_dependent
    cases road with
    | kept => rfl
    | reasoning kind => exact absurd kind no_reasoning
    | dropped kind => exact absurd kind no_reasoning
    | dependent complete =>
      rw [no_dependent] at complete
      cases complete
    | output _ kind =>
      rw [no_output] at kind
      cases kind
  | null => rfl
  | bool => rfl
  | number => rfl
  | string => rfl
  | array => rfl

theorem repairStep_detached (i : Nat) (afterDropped : Bool) (raw : Json) (named : idOf raw ≠ []) :
    (∃ after, (repairStep scope refusal i afterDropped raw).outcome = some after ∧ idOf after = idOf raw) ∨
      idOf raw ∈ (repairStep scope refusal i afterDropped raw).detached := by
  cases raw with
  | object item =>
    have road := repairStep_road scope sound i afterDropped item
    generalize repairStep scope refusal i afterDropped (.object item) = step at road
    change idIn item ≠ [] at named
    cases road with
    | kept => exact .inl ⟨_, rfl, rfl⟩
    | @reasoning changed kind asked detached gone =>
      rcases @Asked.frame scope _ _ _ _ _ afterDropped asked kind "id".toList with same | may
      · exact .inl ⟨_, rfl, congrArg reasoningString same⟩
      · exact .inr (gone named (mayChange_id may rfl))
    | dropped _ _ gone => exact .inr (gone named)
    | dependent _ _ _ gone => exact .inr (gone named)
    | output _ _ _ gone => exact .inr (gone named)
  | null => exact absurd rfl named
  | bool => exact absurd rfl named
  | number => exact absurd rfl named
  | string => exact absurd rfl named
  | array => exact absurd rfl named

end

/-- The items of an input, each with what became of it. -/
def traceOf (scope : OpenAIRepairScope) (refusal : Refusal) (i : Nat) (detachFollowing : Bool) :
    List Json → List (Json × Option Json)
  | [] => []
  | raw :: rest =>
    let step := repairStep scope refusal i detachFollowing raw
    (raw, step.outcome) :: traceOf scope refusal (i + 1) step.detachFollowing rest

theorem left_dropped (raw : Json) (rest : List (Json × Option Json)) :
    ((raw, none) :: rest).filterMap Prod.snd = rest.filterMap Prod.snd := rfl

theorem left_kept (raw after : Json) (rest : List (Json × Option Json)) :
    ((raw, some after) :: rest).filterMap Prod.snd = after :: rest.filterMap Prod.snd := rfl

theorem traceOf_before (i : Nat) (detachFollowing : Bool) (input : List Json) :
    (traceOf scope refusal i detachFollowing input).map Prod.fst = input := by
  induction input generalizing i detachFollowing with
  | nil => rfl
  | cons raw rest ih =>
    rw [traceOf, map_cons, ih]

theorem traceOf_after (i : Nat) (detachFollowing : Bool) (input : List Json) :
    (traceOf scope refusal i detachFollowing input).filterMap Prod.snd =
      (repairInput scope refusal i detachFollowing input).filterMap (·.outcome) := by
  induction input generalizing i detachFollowing with
  | nil => rfl
  | cons raw rest ih =>
    rw [traceOf, repairInput, filterMap_cons, filterMap_cons, ih]

variable {detachFollowing : Bool} {input : List Json}

theorem mem_traceOf {entry : Json × Option Json} (inside : entry ∈ traceOf scope refusal i detachFollowing input) :
    ∃ j follows, entry.2 = (repairStep scope refusal j follows entry.1).outcome ∧
      repairStep scope refusal j follows entry.1 ∈ repairInput scope refusal i detachFollowing input := by
  induction input generalizing i detachFollowing with
  | nil => cases inside
  | cons raw rest ih =>
    rcases mem_cons.mp inside with rfl | later
    · exact ⟨i, detachFollowing, rfl, mem_cons_self⟩
    · obtain ⟨j, follows, outcome, step⟩ := ih later
      exact ⟨j, follows, outcome, mem_cons_of_mem _ step⟩

theorem traceOf_within (sound : Sound refusal) (i : Nat) (later : detachFollowing = true → afterDropped = true)
    (input : List Json) :
    Within scope refusal i afterDropped (traceOf scope refusal i detachFollowing input) := by
  induction input generalizing i detachFollowing afterDropped with
  | nil => trivial
  | cons raw rest ih =>
    exact ⟨repaired_mono (repairStep_repaired sound i detachFollowing raw) later,
      ih (i + 1) (repairStep_following sound i detachFollowing raw)⟩

theorem traceOf_spoken (sound : Sound refusal) (i : Nat) (detachFollowing : Bool) (input : List Json) :
    conversation ((traceOf scope refusal i detachFollowing input).filterMap Prod.snd) = conversation input := by
  induction input generalizing i detachFollowing with
  | nil => rfl
  | cons raw rest ih =>
    have step := @repairStep_repaired scope _ sound i detachFollowing raw
    rw [traceOf]
    generalize repairStep scope refusal i detachFollowing raw = next at step ⊢
    have tail := ih (i + 1) next.detachFollowing
    unfold conversation at tail ⊢
    cases outcome : next.outcome with
    | none =>
      rw [outcome] at step
      obtain ⟨item, rfl, reasoning, -⟩ := step
      have kind : ¬ (kindOf (.object item) != "reasoning".toList) = true := by
        rw [bne_iff_ne]
        exact fun apart => apart reasoning
      rw [left_dropped, filter_cons, if_neg kind, tail]
    | some after =>
      rw [outcome] at step
      have kind := repaired_kind sound step
      have same : conversationKeys.map (member after) = conversationKeys.map (member raw) :=
        map_congr_left (repaired_spoken sound step)
      rw [left_kept, filter_cons, filter_cons, kind]
      split
      · rw [map_cons, map_cons, tail, same]
      · exact tail

theorem dependent_kind {item : Json} (dependent : isDependent item = true) :
    kindOf item = "message".toList ∨ kindOf item = "function_call".toList ∨ kindOf item = "custom_tool_call".toList := by
  cases item with
  | object members => exact standalone_kind dependent
  | null => cases dependent
  | bool => cases dependent
  | number => cases dependent
  | string => cases dependent
  | array => cases dependent

theorem dependent_role {item : Json} (dependent : isDependent item = true) (kind : kindOf item = "message".toList) :
    reasoningString (member item "role".toList) = "assistant".toList := by
  cases item with
  | object members =>
    change standaloneReasoningDependentItem members = true at dependent
    change reasoningString (get members "type".toList) = "message".toList at kind
    unfold standaloneReasoningDependentItem at dependent
    dsimp only at dependent
    rw [if_pos kind, Bool.and_eq_true, beq_iff_eq] at dependent
    exact dependent.1
  | null => cases dependent
  | bool => cases dependent
  | number => cases dependent
  | string => cases dependent
  | array => cases dependent

theorem rectifyInput_repairs (sound : Sound refusal) {repaired : List Json}
    (found : rectifyInput scope refusal input = some repaired) :
    repaired = (traceOf scope refusal 0 false input).filterMap Prod.snd ∧
      Repairs scope refusal (traceOf scope refusal 0 false input) := by
  have others : ∀ entry ∈ traceOf scope refusal 0 false input, kindOf entry.1 ≠ "reasoning".toList →
      isToolOutput (kindOf entry.1) = false → isDependent entry.1 = false → entry.2 = some entry.1 := by
    intro entry inside no_reasoning no_output no_dependent
    obtain ⟨j, follows, outcome, -⟩ := mem_traceOf inside
    rw [outcome]
    exact repairStep_others sound j follows entry.1 no_reasoning no_output no_dependent
  unfold rectifyInput at found
  split at found
  case isTrue => cases found
  case isFalse =>
    dsimp only at found
    split at found
    case isTrue => cases found
    case isFalse =>
      split at found
      case isTrue => cases found
      case isFalse unreferred =>
        cases found
        refine ⟨(traceOf_after 0 false input).symm, traceOf_within sound 0 (fun same => same) input, others,
          ?_, ?_, ?_, ?_, ?_⟩
        · intro entry inside kind user
          refine others entry inside ?_ ?_ ?_
          · rcases kind with kind | kind <;> rw [kind] <;> decide
          · rcases kind with kind | kind <;> rw [kind] <;> decide
          · cases dependent : isDependent entry.1 with
            | false => rfl
            | true =>
              rcases kind with kind | kind
              · rw [dependent_role dependent kind] at user
                exact absurd user (by decide)
              · rcases dependent_kind dependent with other | other | other <;> rw [kind] at other <;> cases other
        · intro entry inside compaction
          unfold isCompaction at compaction
          simp only [Bool.or_eq_true, beq_iff_eq] at compaction
          refine others entry inside ?_ ?_ ?_
          · rcases compaction with kind | kind <;> rw [kind] <;> decide
          · rcases compaction with kind | kind <;> rw [kind] <;> decide
          · cases dependent : isDependent entry.1 with
            | false => rfl
            | true =>
              rcases dependent_kind dependent with other | other | other <;> rw [other] at compaction <;>
                exact absurd compaction (by decide)
        · intro entry inside no_reasoning
          obtain ⟨j, follows, outcome, -⟩ := mem_traceOf inside
          have step := @repairStep_repaired scope _ sound j follows entry.1
          rw [← outcome] at step
          cases became : entry.2 with
          | none =>
            rw [became] at step
            obtain ⟨item, object, reasoning, -⟩ := step
            rw [object] at no_reasoning
            exact absurd reasoning no_reasoning
          | some after =>
            rw [became] at step
            exact ⟨after, rfl, repaired_spoken sound step⟩
        · rw [traceOf_spoken sound, traceOf_before]
        · intro reference kept refers named entry inside same
          -- The reference itself stays as it is, so it is an item of the input.
          obtain ⟨pair, pair_inside, became⟩ := mem_filterMap.mp kept
          obtain ⟨j, follows, outcome, -⟩ := mem_traceOf pair_inside
          have step := @repairStep_repaired scope _ sound j follows pair.1
          rw [← outcome, became] at step
          have kind : kindOf pair.1 = "item_reference".toList := by
            rw [← repaired_kind sound step]
            exact refers
          have untouched := others pair pair_inside (by rw [kind]; decide) (by rw [kind]; decide) (by
            cases dependent : isDependent pair.1 with
            | false => rfl
            | true => rcases dependent_kind dependent with other | other | other <;> rw [kind] at other <;> cases other)
          rw [became, Option.some.injEq] at untouched
          have in_input : pair.1 ∈ input := by
            rw [← @traceOf_before scope refusal 0 false input]
            exact mem_map_of_mem pair_inside
          obtain ⟨j, follows, outcome, step⟩ := mem_traceOf inside
          rcases @repairStep_detached scope _ sound j follows entry.1 (by rw [same]; exact named) with
            ⟨after, left, id⟩ | gone
          · exact ⟨after, outcome.trans left, id.trans same⟩
          · refine absurd (any_eq_true.mpr ⟨pair.1, in_input, ?_⟩) unreferred
            rw [Bool.and_eq_true, beq_iff_eq, any_eq_true]
            refine ⟨kind, idOf entry.1, mem_flatMap.mpr ⟨_, step, gone⟩, ?_⟩
            rw [beq_iff_eq, same, untouched]

theorem repairStep_quiet (sound : Sound refusal) {j : Nat} (steady : Steady refusal i j)
    (kept : (repairStep scope refusal i afterDropped raw).outcome = some after) : Quiet scope refusal j after := by
  cases raw with
  | object item => exact (repairStep_road scope sound i afterDropped item).quiet sound steady kept
  | null => cases kept; rintro _ ⟨⟩
  | bool => cases kept; rintro _ ⟨⟩
  | number => cases kept; rintro _ ⟨⟩
  | string => cases kept; rintro _ ⟨⟩
  | array => cases kept; rintro _ ⟨⟩

/-- Whether the positions of an error name what they named before, or it names none. -/
def StaysNamed (refusal : Refusal) (trace : List (Json × Option Json)) : Prop :=
  refusal.indexed = false ∨
    (∀ entry ∈ trace, entry.2.isSome = true) ∧ (refusal.fieldError && refusal.structuralMatch) = false

theorem repairInput_again (sound : Sound refusal) {j : Nat}
    (stays : StaysNamed refusal (traceOf scope refusal i detachFollowing input))
    (place : refusal.indexed = false ∨ j = i) :
    ∀ step ∈ repairInput scope refusal j false
      ((traceOf scope refusal i detachFollowing input).filterMap Prod.snd), step.changed = false := by
  induction input generalizing i j detachFollowing with
  | nil => intro step inside; cases inside
  | cons raw rest ih =>
    rw [traceOf] at stays ⊢
    have later : StaysNamed refusal (traceOf scope refusal (i + 1)
        (repairStep scope refusal i detachFollowing raw).detachFollowing rest) :=
      stays.imp_right fun kept => ⟨fun entry inside => kept.1 entry (mem_cons_of_mem _ inside), kept.2⟩
    cases outcome : (repairStep scope refusal i detachFollowing raw).outcome with
    | none =>
      rw [left_dropped]
      rcases stays with unnamed | ⟨kept, -⟩
      · exact ih later (.inl unnamed)
      · have here := kept _ mem_cons_self
        rw [outcome] at here
        cases here
    | some after =>
      rw [left_kept, repairInput]
      have steady : Steady refusal i j := by
        rcases stays with unnamed | ⟨-, apart⟩
        · exact .inl unnamed
        · exact place.imp_right fun same => ⟨same, apart⟩
      have quiet := (repairStep_quiet sound steady outcome).step
      rw [quiet]
      intro step inside
      rcases mem_cons.mp inside with rfl | inside
      · rfl
      · exact ih later (place.imp_right fun same => by rw [same]) step inside

theorem rectifyInput_again (sound : Sound refusal) (stays : StaysNamed refusal (traceOf scope refusal 0 false input)) :
    rectifyInput scope refusal ((traceOf scope refusal 0 false input).filterMap Prod.snd) = none := by
  have quiet : (repairInput scope refusal 0 false
      ((traceOf scope refusal 0 false input).filterMap Prod.snd)).any (·.changed) = false := by
    rw [any_eq_false]
    intro step inside
    rw [repairInput_again sound stays (.inr rfl) step inside]
    decide
  unfold rectifyInput
  split
  · rfl
  · dsimp only
    rw [quiet]
    rfl

/-- Every repaired Responses request has the items of the original, each as the refusal allows, and its conversation;
the same error asks for no other repair where what it names is still in its place. Every repaired Messages request has
the messages of the original without thinking, and is not repaired again. -/
theorem request_repairs (reader : Reader) (lower : Char → Char) :
    (∀ (body : Json) (errorBody : Text) (scope : OpenAIRepairScope) (repaired : Json) (reason : String),
      rectifyOpenAIRequest reader lower body errorBody scope = some (repaired, reason) →
        ∃ (refusal : Refusal) (document : Members) (input : List Json) (trace : List (Json × Option Json)),
          refusalOf lower scope (parseOpenAIReasoningError reader errorBody) = some refusal ∧
          body = .object document ∧ get document "input".toList = some (.array input) ∧
          trace.map Prod.fst = input ∧
          repaired = .object (set document "input".toList (.array (trace.filterMap Prod.snd))) ∧
          Repairs scope refusal trace ∧
          (StaysNamed refusal trace → rectifyOpenAIRequest reader lower repaired errorBody scope = none)) ∧
    (∀ body repaired : Json, rectifyThinkingSignature body = some repaired →
      ThinkingRepaired body repaired ∧ rectifyThinkingSignature repaired = none) := by
  refine ⟨?_, fun body repaired found =>
    ⟨rectifyThinkingSignature_repaired found, rectifyThinkingSignature_again found⟩⟩
  intro body errorBody scope repaired reason found
  unfold rectifyOpenAIRequest at found
  obtain ⟨refusal, read, found⟩ := Option.bind_eq_some_iff.mp found
  have sound := refusalOf_sound read
  split at found
  case h_2 => cases found
  case h_1 document found =>
    split at found
    case h_2 => cases found
    case h_1 input array =>
      obtain ⟨items, made, same⟩ := Option.map_eq_some_iff.mp found
      rw [Prod.mk.injEq] at same
      obtain ⟨rfl, repairs⟩ := rectifyInput_repairs sound made
      refine ⟨refusal, document, input, _, read, rfl, array, traceOf_before 0 false input, same.1.symm, repairs, fun stays => ?_⟩
      rw [← same.1, rectifyOpenAIRequest, read, Option.bind_some]
      dsimp only
      rw [get_set_same]
      dsimp only
      rw [rectifyInput_again sound stays, Option.map_none]

/-- An error that refuses a ciphertext, with the item or the position that it names. -/
def refusedCipher (message param : String) : Json :=
  .object [("error".toList, .object [("code".toList, .string "invalid_encrypted_content".toList),
    ("message".toList, .string message.toList), ("param".toList, .string param.toList)])]

def readerOf (text : Text) (json : Json) : Reader :=
  ⟨fun body => body == text, fun body => if body == text then some json else none⟩

def reasoningItem (id : String) (others : Members) : Json :=
  .object ([("type".toList, .string "reasoning".toList), ("id".toList, .string id.toList),
    ("encrypted_content".toList, .string "gAAA".toList)] ++ others)

def userItem : Json := .object [("role".toList, .string "user".toList), ("content".toList, .string "continue".toList)]

def callItem (others : Members) : Json :=
  .object ([("type".toList, .string "function_call".toList), ("call_id".toList, .string "call_1".toList),
    ("name".toList, .string "lookup".toList), ("arguments".toList, .string "1".toList)] ++ others)

def requestOf (input : List Json) : Json := .object [("input".toList, .array input)]

def signedThinking : Json :=
  .object [("messages".toList, .array [.object [("role".toList, .string "assistant".toList), ("content".toList,
    .array [.object [("type".toList, .string "thinking".toList), ("thinking".toList, .string "plan".toList)]])]])]

def plainThinking : Json :=
  .object [("messages".toList, .array [.object [("role".toList, .string "assistant".toList), ("content".toList,
    .array [ThinkingRepairs.textBlock "plan".toList])]])]

/-- A named ciphertext that goes with its item detaches the call behind it. -/
theorem request_repairs_sample :
    (∃ refusal trace, Repairs ⟨true, false⟩ refusal trace ∧
      trace.map Prod.fst = [userItem, reasoningItem "rs_bad" [], callItem [("id".toList, .string "fc_1".toList)]] ∧
      trace.filterMap Prod.snd = [userItem, callItem []]) ∧
    ThinkingRepaired signedThinking plainThinking ∧ rectifyThinkingSignature plainThinking = none := by
  refine ⟨?_, (request_repairs ⟨fun _ => false, fun _ => none⟩ id).2 signedThinking plainThinking rfl⟩
  obtain ⟨refusal, document, input, trace, -, body, array, before, after, repairs, -⟩ :=
    (request_repairs (readerOf "error".toList (refusedCipher "The encrypted content for item rs_bad could not be verified." ""))
      Char.toLower).1
      (requestOf [userItem, reasoningItem "rs_bad" [], callItem [("id".toList, .string "fc_1".toList)]]) "error".toList
      ⟨true, false⟩ (requestOf [userItem, callItem []]) "openai_reasoning_repair" rfl
  cases body
  cases array
  refine ⟨refusal, trace, repairs, before, ?_⟩
  have items := congrArg (fun request => member request "input".toList) after
  dsimp only [member] at items
  rw [get_set_same] at items
  injection items with items
  injection items with items
  exact items.symm

/-- A position names another item once the item there is gone, so that the same error repairs a request twice. A
reasoning item that is kept for its content gets a summary that it did not have. -/
theorem repaired_twice :
    (¬ ∀ (reader : Reader) (lower : Char → Char) (body : Json) (errorBody : Text) (scope : OpenAIRepairScope)
      (repaired : Json) (reason : String),
      rectifyOpenAIRequest reader lower body errorBody scope = some (repaired, reason) →
        rectifyOpenAIRequest reader lower repaired errorBody scope = none) ∧
    (¬ ∀ (reader : Reader) (lower : Char → Char) (input : List Json) (errorBody : Text) (scope : OpenAIRepairScope)
      (repaired : List Json) (reason : String),
      rectifyOpenAIRequest reader lower (requestOf input) errorBody scope = some (requestOf repaired, reason) →
        ∀ item ∈ repaired, (member item "summary".toList).isSome = true →
          ∃ raw ∈ input, (member raw "summary".toList).isSome = true) := by
  constructor
  · intro once
    have again := once
      (readerOf "error".toList (refusedCipher "The encrypted content could not be verified." "input[0].encrypted_content"))
      Char.toLower (requestOf [reasoningItem "rs_1" [], reasoningItem "rs_2" [], userItem]) "error".toList ⟨true, false⟩
      (requestOf [reasoningItem "rs_2" [], userItem]) "openai_reasoning_repair" rfl
    have twice : rectifyOpenAIRequest
        (readerOf "error".toList (refusedCipher "The encrypted content could not be verified." "input[0].encrypted_content"))
        Char.toLower (requestOf [reasoningItem "rs_2" [], userItem]) "error".toList ⟨true, false⟩ =
        some (requestOf [userItem], "openai_reasoning_repair") := rfl
    rw [twice] at again
    cases again
  · intro kept
    have item := kept
      (readerOf "error".toList (refusedCipher "The encrypted content could not be verified." ""))
      Char.toLower [reasoningItem "rs_1" [("content".toList, .string "visible".toList)]] "error".toList ⟨true, false⟩
      [.object [("type".toList, .string "reasoning".toList), ("content".toList, .string "visible".toList),
        ("summary".toList, .array [])]] "openai_reasoning_repair" rfl _ mem_cons_self rfl
    obtain ⟨raw, inside, held⟩ := item
    rw [mem_singleton.mp inside] at held
    cases held

end AstrLink.RepairedRequests
