import AstrLink.RequestRepairs

/-!
What the repair of a Responses request leaves: each item is kept, changed as the refusal allows (`MayChange`)
or dropped (`Repairs`), and asks for no other repair unless its position or its reasons differ (`Steady`).
-/
namespace AstrLink.RepairedItems
open JsonTree (Json)
open JsonMembers
open UpstreamErrors
open RequestRepairs
open Option (bind_eq_bind bind_eq_some_iff getD_none getD_some isSome_none isSome_some map_none map_some pure_def)
open Bool (and_eq_true false_eq_true not_eq_true')

/-- The ids of an error are no empty texts, and its fields are of a reasoning item. -/
structure Sound (refusal : Refusal) : Prop where
  field : refusal.fieldError = true → refusal.field = "content".toList ∨ refusal.field = "status".toList
  position : refusal.fieldError = true → refusal.indexed = true
  orphan : refusal.orphan ≠ some []
  missing : ∀ kind, refusal.missing ≠ some ([], kind)
  missingID : refusal.missingID ≠ some []

variable {text : Text}

theorem run_filled {inside : Char → Bool} {found rest : Text} (matched : run inside text = some (found, rest)) :
    found ≠ [] := by
  unfold run at matched
  cases taken : text.takeWhile inside with
  | nil => rw [taken] at matched; cases matched
  | cons char chars =>
    rw [taken] at matched
    cases matched
    exact List.cons_ne_nil _ _

variable {before : Option Char}

theorem search_found {α : Type} {pattern : Option Char → Text → Option α} {found : α}
    (matched : search pattern before text = some found) : ∃ before text, pattern before text = some found := by
  induction text generalizing before with
  | nil => exact ⟨before, [], matched⟩
  | cons char rest ih =>
    rw [search] at matched
    cases here : pattern before (char :: rest) with
    | none =>
      rw [here] at matched
      exact ih matched
    | some other =>
      rw [here] at matched
      cases matched
      exact ⟨before, char :: rest, here⟩

variable {id : Text}

theorem orphan_filled (matched : openAIOrphanReasoning before text = some id) :
    id ≠ [] := by
  unfold openAIOrphanReasoning at matched
  split at matched
  case isFalse => cases matched
  case isTrue =>
    simp only [bind_eq_bind, bind_eq_some_iff, pure_def, Option.some.injEq] at matched
    obtain ⟨_, _, _, _, ⟨found, rest⟩, ran, _, _, _, _, _, _, _, _, _, _, _, _, rfl⟩ := matched
    exact run_filled ran

variable {kind : Text}

theorem missing_filled :
    openAIMissingReasoning before text ≠ some ([], kind) := by
  intro matched
  unfold openAIMissingReasoning at matched
  split at matched
  case isFalse => cases matched
  case isTrue =>
    simp only [bind_eq_bind, bind_eq_some_iff, pure_def, Option.some.injEq, Prod.mk.injEq] at matched
    obtain ⟨_, _, _, _, ⟨found, rest⟩, ran, rest⟩ := matched
    have empty : found = [] := by
      obtain ⟨_, _, _, _, _, _, _, _, _, _, _, _, _, _, _, _, _, _, _, _, empty, _⟩ := rest
      exact empty
    exact run_filled ran empty

theorem reasoningID_filled {rest : Text} (matched : reasoningID text = some (id, rest)) : id ≠ [] := by
  unfold reasoningID at matched
  simp only [bind_eq_bind, bind_eq_some_iff, pure_def, Option.some.injEq, Prod.mk.injEq] at matched
  obtain ⟨_, _, ⟨name, _⟩, ran, rfl, _⟩ := matched
  exact fun empty => run_filled ran (List.append_eq_nil_iff.mp empty).2

theorem missingID_filled (matched : openAIMissingReasoningID before text = some id) :
    id ≠ [] := by
  unfold openAIMissingReasoningID at matched
  split at matched
  case isFalse => cases matched
  case isTrue =>
    simp only [bind_eq_bind, bind_eq_some_iff, pure_def, Option.some.injEq] at matched
    obtain ⟨_, _, _, _, ⟨found, rest⟩, ran, _, _, _, _, rfl⟩ := matched
    exact reasoningID_filled ran

theorem classify_sound (lower : Char → Char) (failure : OpenAIReasoningError) : Sound (classify lower failure) := by
  refine ⟨fun named => ?_, fun named => ?_, fun matched => ?_, fun kind matched => ?_, fun matched => ?_⟩
  · simp only [classify, and_eq_true, Bool.or_eq_true, beq_iff_eq] at named
    exact named.1.2
  · simp only [classify, and_eq_true] at named
    exact named.1.1
  · obtain ⟨before, text, found⟩ := search_found matched
    exact orphan_filled found rfl
  · obtain ⟨before, text, found⟩ := search_found matched
    exact missing_filled found
  · obtain ⟨before, text, found⟩ := search_found matched
    exact missingID_filled found rfl

variable {scope : OpenAIRepairScope} {refusal : Refusal}

theorem refusalOf_sound {lower : Char → Char} {failure : OpenAIReasoningError}
    (read : refusalOf lower scope failure = some refusal) : Sound refusal := by
  unfold refusalOf at read
  dsimp only at read
  split_ifs at read
  cases read
  exact classify_sound lower failure

/-! ### What a repair may change -/

def kindIn (item : Members) : Text := reasoningString (get item "type".toList)

def idIn (item : Members) : Text := reasoningString (get item "id".toList)

def hasCipher (item : Members) : Prop :=
  (get item "encrypted_content".toList).isSome = true ∨
    ∃ parts, get item "output".toList = some (.array parts) ∧ plainParts parts ≠ parts

inductive MayChange (scope : OpenAIRepairScope) (refusal : Refusal) (i : Nat) (afterDropped : Bool) (item : Members) :
    Text → Option Json → Prop where
  | cipher (reasoning : kindIn item = "reasoning".toList) (refused : refusal.encryptedError = true)
      (here : cipherRefused refusal i = true) :
      MayChange scope refusal i afterDropped item "encrypted_content".toList none
  | cipherID (reasoning : kindIn item = "reasoning".toList) (refused : refusal.encryptedError = true)
      (here : cipherRefused refusal i = true) :
      MayChange scope refusal i afterDropped item "id".toList none
  | nullContent (reasoning : kindIn item = "reasoning".toList) (refused : refusal.encryptedError = true)
      (here : cipherRefused refusal i = true) (null : get item "content".toList = some .null) :
      MayChange scope refusal i afterDropped item "content".toList none
  | emptySummary (reasoning : kindIn item = "reasoning".toList) (refused : refusal.encryptedError = true)
      (here : cipherRefused refusal i = true)
      (bare : get item "summary".toList = none ∨ get item "summary".toList = some .null)
      (visible : hasReasoningText (get item "content".toList) = true) :
      MayChange scope refusal i afterDropped item "summary".toList (some (.array []))
  | storedID (reasoning : kindIn item = "reasoning".toList) (named : refusal.missingID = some (idIn item)) :
      MayChange scope refusal i afterDropped item "id".toList none
  | field (reasoning : kindIn item = "reasoning".toList) (refused : refusal.fieldError = true) (here : i = refusal.index)
      (value : fieldRefused refusal (get item refusal.field) = true) :
      MayChange scope refusal i afterDropped item refusal.field none
  | dependentID (complete : standaloneReasoningDependentItem item = true)
      (detached : afterDropped = true ∨ refusal.missing = some (idIn item, kindIn item)) :
      MayChange scope refusal i afterDropped item "id".toList none
  | outputCipher (allowed : scope.functionOutput = true) (output : isToolOutput (kindIn item) = true) :
      MayChange scope refusal i afterDropped item "encrypted_content".toList none
  | outputID (allowed : scope.functionOutput = true) (output : isToolOutput (kindIn item) = true) (encrypted : hasCipher item) :
      MayChange scope refusal i afterDropped item "id".toList none
  | outputParts (allowed : scope.functionOutput = true) (output : isToolOutput (kindIn item) = true) {parts : List Json}
      (found : get item "output".toList = some (.array parts)) :
      MayChange scope refusal i afterDropped item "output".toList
        (some (if plainParts parts = [] then .string [] else .array (plainParts parts)))

/-- A reasoning item may go that is named without what follows it, or has no text left. -/
def MayDrop (refusal : Refusal) (i : Nat) (item : Members) : Prop :=
  kindIn item = "reasoning".toList ∧
    (refusal.orphan = some (idIn item) ∨
      refusal.encryptedError = true ∧ cipherRefused refusal i = true ∧
        (get item "encrypted_content".toList).isSome = true ∧
        hasReasoningText (get item "summary".toList) = false ∧ hasReasoningText (get item "content".toList) = false)

/-- What a repair makes of an item. -/
def Repaired (scope : OpenAIRepairScope) (refusal : Refusal) (i : Nat) (afterDropped : Bool) (raw : Json) : Option Json → Prop
  | none => ∃ item, raw = .object item ∧ MayDrop refusal i item
  | some after => after = raw ∨ ∃ item changed, raw = .object item ∧ after = .object changed ∧
      ∀ key, get changed key = get item key ∨ MayChange scope refusal i afterDropped item key (get changed key)

/-! ### The parts of a repair -/

inductive Asked (refusal : Refusal) (i : Nat) (kind id : Text) (item : Members) : Members → Bool → Prop where
  | cipher (refused : refusal.encryptedError = true) (reasoning : kind = "reasoning".toList)
      (here : cipherRefused refusal i = true) (held : (get item "encrypted_content".toList).isSome = true)
      {changed : Members} {drop : Bool} (stripped : stripCipher item = (changed, drop)) :
      Asked refusal i kind id item changed drop
  | orphan (other : refusal.encryptedError = false) (structural : refusal.structuralError = true)
      (reasoning : kind = "reasoning".toList) (named : refusal.orphan = some id) : Asked refusal i kind id item item true
  | stored (other : refusal.encryptedError = false) (structural : refusal.structuralError = true)
      (reasoning : kind = "reasoning".toList) (named : refusal.missingID = some id) :
      Asked refusal i kind id item (delete item "id".toList) false
  | dependent (other : refusal.encryptedError = false) (structural : refusal.structuralError = true)
      (named : refusal.missing = some (id, kind)) (complete : standaloneReasoningDependentItem item = true) :
      Asked refusal i kind id item (delete item "id".toList) false
  | field (other : refusal.encryptedError = false) (refused : refusal.fieldError = true) (here : i = refusal.index)
      (reasoning : kind = "reasoning".toList) (held : (get item refusal.field).isSome = true)
      (value : fieldRefused refusal (get item refusal.field) = true) :
      Asked refusal i kind id item (delete item refusal.field) false

variable {item changed : Members}

variable {i : Nat} {drop : Bool}

theorem repairRefused_asked (repaired : repairRefused refusal i kind id item = some (changed, drop)) :
    Asked refusal i kind id item changed drop := by
  unfold repairRefused at repaired
  split_ifs at repaired with cipher orphan stored dependent field value
  · simp only [and_eq_true, beq_iff_eq] at cipher
    exact .cipher cipher.1.1.1 cipher.1.1.2 cipher.1.2 cipher.2 (Option.some.inj repaired)
  · simp only [and_eq_true, not_eq_true', beq_iff_eq] at orphan
    cases repaired
    exact .orphan orphan.1.1.1 orphan.1.1.2 orphan.1.2 orphan.2
  · simp only [and_eq_true, not_eq_true', beq_iff_eq] at stored
    cases repaired
    exact .stored stored.1.1.1.1 stored.1.1.1.2 stored.1.1.2 stored.1.2
  · simp only [and_eq_true, not_eq_true', beq_iff_eq] at dependent
    cases repaired
    exact .dependent dependent.1.1.1 dependent.1.1.2 dependent.1.2 dependent.2
  · simp only [and_eq_true, not_eq_true', beq_iff_eq] at field
    cases repaired
    exact .field field.1.1.1.1 field.1.1.1.2 field.1.1.2 field.1.2 field.2 value

theorem repairRefused_position (sound : Sound refusal) {j : Nat} (same : refusal.indexed = false ∨ j = i) :
    repairRefused refusal j kind id item = repairRefused refusal i kind id item := by
  rcases same with unnamed | rfl
  · have no_field : refusal.fieldError = false := by
      cases named : refusal.fieldError with
      | false => rfl
      | true => exact absurd (sound.position named) (by simp [unnamed])
    have cipher : cipherRefused refusal j = cipherRefused refusal i := by
      simp only [cipherRefused, unnamed, Bool.not_false, Bool.true_or]
    simp only [repairRefused, cipher, no_field, Bool.and_false, Bool.false_and]
  · rfl

theorem isNull_iff {value : Option Json} : isNull value = true ↔ value = some .null := by
  unfold isNull
  split
  case h_1 => simp
  case h_2 apart => simpa using apart

def bared (item : Members) : Members :=
  let item := delete (delete item "encrypted_content".toList) "id".toList
  if isNull (get item "content".toList) then delete item "content".toList else item

theorem bared_get (item : Members) (key : Text) :
    get (bared item) key =
      if key = "encrypted_content".toList ∨ key = "id".toList ∨
        key = "content".toList ∧ isNull (get item "content".toList) = true then none
      else get item key := by
  have content : get (delete (delete item "encrypted_content".toList) "id".toList) "content".toList =
      get item "content".toList := by
    rw [get_delete_other _ (by decide), get_delete_other _ (by decide)]
  unfold bared
  dsimp only
  rw [content]
  by_cases null : isNull (get item "content".toList) = true
  · rw [if_pos null, get_delete, get_delete, get_delete]
    by_cases on_content : key = "content".toList
    · rw [if_pos on_content, if_pos (.inr (.inr ⟨on_content, null⟩))]
    · rw [if_neg on_content]
      by_cases on_id : key = "id".toList
      · rw [if_pos on_id, if_pos (.inr (.inl on_id))]
      · rw [if_neg on_id]
        by_cases on_cipher : key = "encrypted_content".toList
        · rw [if_pos on_cipher, if_pos (.inl on_cipher)]
        · rw [if_neg on_cipher, if_neg (by
            rintro (cipher | id | ⟨content, -⟩)
            exacts [on_cipher cipher, on_id id, on_content content])]
  · rw [if_neg null, get_delete, get_delete]
    by_cases on_id : key = "id".toList
    · rw [if_pos on_id, if_pos (.inr (.inl on_id))]
    · rw [if_neg on_id]
      by_cases on_cipher : key = "encrypted_content".toList
      · rw [if_pos on_cipher, if_pos (.inl on_cipher)]
      · rw [if_neg on_cipher, if_neg (by
          rintro (cipher | id | ⟨-, content⟩)
          exacts [on_cipher cipher, on_id id, null content])]

theorem bared_summary (item : Members) : get (bared item) "summary".toList = get item "summary".toList := by
  rw [bared_get, if_neg (by simp)]

theorem bared_text (item : Members) :
    hasReasoningText (get (bared item) "content".toList) = hasReasoningText (get item "content".toList) := by
  rw [bared_get]
  by_cases null : isNull (get item "content".toList) = true
  · rw [if_pos (.inr (.inr ⟨rfl, null⟩)), isNull_iff.mp null]
    rfl
  · rw [if_neg]
    rintro (cipher | id | ⟨-, content⟩)
    · exact absurd cipher (by decide)
    · exact absurd id (by decide)
    · exact null content

theorem stripCipher_eq (item : Members) :
    stripCipher item =
      (if (hasReasoningText (get item "summary".toList) || hasReasoningText (get item "content".toList)) &&
          ((get item "summary".toList).isNone || isNull (get item "summary".toList)) then
        set (bared item) "summary".toList (.array []) else bared item,
        !hasReasoningText (get item "summary".toList) && !hasReasoningText (get item "content".toList)) := by
  have summary := bared_summary item
  have text := bared_text item
  change (let drop := !hasReasoningText (get (bared item) "summary".toList) && !hasReasoningText (get (bared item) "content".toList)
    let bare := (get (bared item) "summary".toList).isNone || isNull (get (bared item) "summary".toList)
    (if !drop && bare then set (bared item) "summary".toList (.array []) else bared item, drop)) = _
  dsimp only
  rw [summary, text, Bool.not_and, Bool.not_not, Bool.not_not]

theorem stripCipher_get (item : Members) (key : Text) :
    get (stripCipher item).1 key = get item key ∨
      (key = "encrypted_content".toList ∧ get (stripCipher item).1 key = none) ∨
      (key = "id".toList ∧ get (stripCipher item).1 key = none) ∨
      (key = "content".toList ∧ get item "content".toList = some .null ∧ get (stripCipher item).1 key = none) ∨
      (key = "summary".toList ∧ (get item "summary".toList = none ∨ get item "summary".toList = some .null) ∧
        hasReasoningText (get item "content".toList) = true ∧ get (stripCipher item).1 key = some (.array [])) := by
  have kept : get (bared item) key = get item key ∨
      (key = "encrypted_content".toList ∧ get (bared item) key = none) ∨
      (key = "id".toList ∧ get (bared item) key = none) ∨
      (key = "content".toList ∧ get item "content".toList = some .null ∧ get (bared item) key = none) := by
    rw [bared_get]
    split
    case isTrue gone =>
      rcases gone with cipher | id | content
      · exact .inr (.inl ⟨cipher, rfl⟩)
      · exact .inr (.inr (.inl ⟨id, rfl⟩))
      · exact .inr (.inr (.inr ⟨content.1, isNull_iff.mp content.2, rfl⟩))
    case isFalse => exact .inl rfl
  rw [stripCipher_eq]
  dsimp only
  split
  case isFalse =>
    rcases kept with same | cipher | id | content
    · exact .inl same
    · exact .inr (.inl cipher)
    · exact .inr (.inr (.inl id))
    · exact .inr (.inr (.inr (.inl content)))
  case isTrue bare =>
    by_cases on_summary : key = "summary".toList
    · subst on_summary
      simp only [and_eq_true, Bool.or_eq_true, Option.isNone_iff_eq_none, isNull_iff] at bare
      refine .inr (.inr (.inr (.inr ⟨rfl, bare.2, ?_, get_set_same _ _ _⟩)))
      rcases bare.1 with summary | content
      · rcases bare.2 with none | null
        · rw [none] at summary
          cases summary
        · rw [null] at summary
          cases summary
      · exact content
    · rw [get_set_other _ _ on_summary]
      rcases kept with same | cipher | id | content
      · exact .inl same
      · exact .inr (.inl cipher)
      · exact .inr (.inr (.inl id))
      · exact .inr (.inr (.inr (.inl content)))

theorem stripCipher_cipher (item : Members) : get (stripCipher item).1 "encrypted_content".toList = none := by
  rw [stripCipher_eq]
  dsimp only
  split
  · rw [get_set_other _ _ (by decide), bared_get, if_pos (.inl rfl)]
  · rw [bared_get, if_pos (.inl rfl)]

/-- A tool output without its ciphertext. -/
def uncovered (item : Members) : Members :=
  if (get item "encrypted_content".toList).isSome then delete item "encrypted_content".toList else item

theorem uncovered_get (item : Members) (key : Text) :
    get (uncovered item) key = if key = "encrypted_content".toList then none else get item key := by
  unfold uncovered
  split
  case isTrue => rw [get_delete]
  case isFalse absent =>
    split
    case isTrue here =>
      rw [here]
      simpa using absent
    case isFalse => rfl

inductive Stripped (item : Members) : Members → Prop where
  | cipher (held : (get item "encrypted_content".toList).isSome = true)
      (plain : ∀ parts, get item "output".toList = some (.array parts) → plainParts parts = parts) :
      Stripped item (delete (uncovered item) "id".toList)
  | parts {parts : List Json} (found : get item "output".toList = some (.array parts)) (fewer : plainParts parts ≠ parts) :
      Stripped item (delete (set (uncovered item) "output".toList
        (if plainParts parts = [] then .string [] else .array (plainParts parts))) "id".toList)

theorem plainParts_length {parts : List Json} : (plainParts parts).length = parts.length ↔ plainParts parts = parts := by
  constructor
  · intro same
    exact List.filter_sublist.eq_of_length same
  · intro same
    rw [same]

variable {stripped : Members}

theorem stripFunctionOutputCipher_stripped (found : stripFunctionOutputCipher item = some stripped) :
    isToolOutput (kindIn item) = true ∧ Stripped item stripped := by
  have output : get (uncovered item) "output".toList = get item "output".toList := by
    rw [uncovered_get, if_neg (by decide)]
  have start : (if (get item "encrypted_content".toList).isSome = true then delete item "encrypted_content".toList else item) =
      uncovered item := rfl
  unfold stripFunctionOutputCipher at found
  dsimp only at found
  rw [start, output] at found
  split at found
  case isFalse => cases found
  case isTrue kind =>
    refine ⟨kind, ?_⟩
    split at found
    case h_1 value parts array =>
      split at found
      case isTrue same =>
        split at found
        case isFalse => cases found
        case isTrue held =>
          cases found
          refine .cipher held fun others found => ?_
          rw [array] at found
          cases found
          exact plainParts_length.mp same
      case isFalse fewer =>
        cases found
        exact .parts array fun same => fewer (plainParts_length.mpr same)
    case h_2 value other =>
      split at found
      case isFalse => cases found
      case isTrue held =>
        cases found
        exact .cipher held fun parts found => absurd found (other parts)

theorem Stripped.frame (left : Stripped item stripped) (key : Text) :
    get stripped key = get item key ∨
      (key = "encrypted_content".toList ∧ get stripped key = none) ∨
      (key = "id".toList ∧ get stripped key = none) ∨
      (key = "output".toList ∧ ∃ parts, get item "output".toList = some (.array parts) ∧
        get stripped key = some (if plainParts parts = [] then .string [] else .array (plainParts parts))) := by
  cases left with
  | cipher held plain =>
    rw [get_delete, uncovered_get]
    by_cases on_id : key = "id".toList
    · exact .inr (.inr (.inl ⟨on_id, if_pos on_id⟩))
    · rw [if_neg on_id]
      by_cases on_cipher : key = "encrypted_content".toList
      · exact .inr (.inl ⟨on_cipher, if_pos on_cipher⟩)
      · exact .inl (if_neg on_cipher)
  | @parts parts found fewer =>
    rw [get_delete]
    by_cases on_id : key = "id".toList
    · exact .inr (.inr (.inl ⟨on_id, if_pos on_id⟩))
    · rw [if_neg on_id]
      by_cases on_output : key = "output".toList
      · refine .inr (.inr (.inr ⟨on_output, parts, found, ?_⟩))
        rw [on_output, get_set_same]
      · rw [get_set_other _ _ on_output, uncovered_get]
        by_cases on_cipher : key = "encrypted_content".toList
        · exact .inr (.inl ⟨on_cipher, if_pos on_cipher⟩)
        · exact .inl (if_neg on_cipher)

theorem Stripped.hasCipher (left : Stripped item stripped) : hasCipher item := by
  cases left with
  | cipher held plain => exact .inl held
  | parts found fewer => exact .inr ⟨_, found, fewer⟩

theorem plainParts_again (parts : List Json) : plainParts (plainParts parts) = plainParts parts := by
  unfold plainParts
  rw [List.filter_filter]
  simp only [Bool.and_self]

theorem Stripped.again {other : Members} (left : Stripped item stripped) : ¬ Stripped stripped other := by
  have cipher : get stripped "encrypted_content".toList = none := by
    rcases left with ⟨held, plain⟩ | ⟨found, fewer⟩
    · rw [get_delete_other _ (by decide), uncovered_get, if_pos rfl]
    · rw [get_delete_other _ (by decide), get_set_other _ _ (by decide), uncovered_get, if_pos rfl]
  have plain : ∀ parts, get stripped "output".toList = some (.array parts) → plainParts parts = parts := by
    intro parts held
    cases left with
    | cipher _ plain =>
      rw [get_delete_other _ (by decide), uncovered_get, if_neg (by decide)] at held
      exact plain parts held
    | parts found fewer =>
      rw [get_delete_other _ (by decide), get_set_same] at held
      split at held
      case isTrue => cases held
      case isFalse =>
        cases held
        exact plainParts_again _
  intro again
  cases again with
  | cipher held _ =>
    rw [cipher] at held
    cases held
  | parts found fewer => exact fewer (plain _ found)

/-! ### One item -/

theorem standalone_kind (complete : standaloneReasoningDependentItem item = true) :
    kindIn item = "message".toList ∨ kindIn item = "function_call".toList ∨ kindIn item = "custom_tool_call".toList := by
  unfold standaloneReasoningDependentItem at complete
  dsimp only at complete
  unfold kindIn
  split_ifs at complete with message call custom
  · exact .inl message
  · exact .inr (.inl call)
  · exact .inr (.inr custom)

theorem standalone_apart (complete : standaloneReasoningDependentItem item = true) :
    kindIn item ≠ "reasoning".toList ∧ isToolOutput (kindIn item) = false := by
  rcases standalone_kind complete with kind | kind | kind <;> rw [kind] <;> exact ⟨by decide, by decide⟩

theorem reasoning_apart (reasoning : kindIn item = "reasoning".toList) :
    standaloneReasoningDependentItem item = false ∧ isToolOutput (kindIn item) = false := by
  refine ⟨?_, by rw [reasoning]; decide⟩
  cases complete : standaloneReasoningDependentItem item with
  | false => rfl
  | true => exact absurd reasoning (standalone_apart complete).1

inductive Road (scope : OpenAIRepairScope) (refusal : Refusal) (i : Nat) (afterDropped : Bool) (item : Members) : Step → Prop where
  | kept (not_asked : repairRefused refusal i (kindIn item) (idIn item) item = none)
      (not_stripped : scope.functionOutput = true → (refusal.functionOutputError || refusal.encryptedError) = true →
        stripFunctionOutputCipher item = none) :
      Road scope refusal i afterDropped item ⟨some (.object item), false, [], false⟩
  | reasoning {changed : Members} (kind : kindIn item = "reasoning".toList)
      (asked : Asked refusal i (kindIn item) (idIn item) item changed false) {detached : List Text}
      (gone : idIn item ≠ [] → get changed "id".toList = none → idIn item ∈ detached) :
      Road scope refusal i afterDropped item ⟨some (.object changed), true, detached, false⟩
  | dropped {changed : Members} (kind : kindIn item = "reasoning".toList)
      (asked : Asked refusal i (kindIn item) (idIn item) item changed true) {detached : List Text}
      (gone : idIn item ≠ [] → idIn item ∈ detached) :
      Road scope refusal i afterDropped item ⟨none, true, detached, refusal.encryptedID.isSome⟩
  | dependent {changed : Members} (complete : standaloneReasoningDependentItem item = true)
      (asked : afterDropped = true ∨ refusal.missing = some (idIn item, kindIn item))
      (bare : ∀ key, get changed key = if key = "id".toList then none else get item key) {detached : List Text}
      (gone : idIn item ≠ [] → idIn item ∈ detached) :
      Road scope refusal i afterDropped item ⟨some (.object changed), true, detached, false⟩
  | output {changed : Members} (allowed : scope.functionOutput = true) (kind : isToolOutput (kindIn item) = true)
      (stripped : Stripped item changed) {detached : List Text}
      (gone : idIn item ≠ [] → idIn item ∈ detached) :
      Road scope refusal i afterDropped item ⟨some (.object changed), true, detached, false⟩

theorem Stripped.no_id (left : Stripped item stripped) : get stripped "id".toList = none := by
  rcases left with ⟨held, plain⟩ | ⟨found, fewer⟩ <;> exact get_delete_same _ _

theorem strip_kind (kind : isToolOutput (kindIn item) = false) : stripFunctionOutputCipher item = none := by
  cases found : stripFunctionOutputCipher item with
  | none => rfl
  | some stripped => exact absurd (stripFunctionOutputCipher_stripped found).1 (by simp [kind])

theorem Asked.cases_kind (asked : Asked refusal i kind id item changed drop) :
    kind = "reasoning".toList ∨
      (drop = false ∧ changed = delete item "id".toList ∧ refusal.missing = some (id, kind) ∧
        standaloneReasoningDependentItem item = true) := by
  cases asked with
  | cipher _ reasoning => exact .inl reasoning
  | orphan _ _ reasoning => exact .inl reasoning
  | stored _ _ reasoning => exact .inl reasoning
  | dependent _ _ named complete => exact .inr ⟨rfl, rfl, named, complete⟩
  | field _ _ _ reasoning => exact .inl reasoning

theorem Asked.same_kind (sound : Sound refusal) (asked : Asked refusal i kind id item changed drop) :
    kindIn changed = kindIn item := by
  unfold kindIn
  cases asked with
  | cipher _ _ _ _ stripped =>
    have frame := stripCipher_get item "type".toList
    rw [stripped] at frame
    rcases frame with same | ⟨other, -⟩ | ⟨other, -⟩ | ⟨other, -⟩ | ⟨other, -⟩
    · rw [same]
    all_goals exact absurd other (by decide)
  | orphan _ _ _ _ => rfl
  | stored _ _ _ _ => rw [get_delete_other _ (by decide)]
  | dependent _ _ _ _ => rw [get_delete_other _ (by decide)]
  | field _ refused _ _ _ _ =>
    rcases sound.field refused with named | named <;> rw [named, get_delete_other _ (by decide)]

theorem repairStep_object (scope : OpenAIRepairScope) (refusal : Refusal) (i : Nat) (afterDropped : Bool) (item : Members) :
    repairStep scope refusal i afterDropped (.object item) =
      let detach := afterDropped && standaloneReasoningDependentItem item && idIn item != []
      let first := if detach then delete item "id".toList else item
      let repair := repairRefused refusal i (kindIn item) (idIn item) first
      let second := (repair.map (·.1)).getD first
      let drop := (repair.map (·.2)).getD false
      let strip := if scope.functionOutput && (refusal.functionOutputError || refusal.encryptedError) then
        stripFunctionOutputCipher second else none
      let third := strip.getD second
      let modified := detach || repair.isSome || strip.isSome
      let detached := (if detach then [idIn item] else []) ++
        (if modified && idIn item != [] && (drop || (get third "id".toList).isNone) then [idIn item] else [])
      if drop then ⟨none, modified, detached, refusal.encryptedID.isSome⟩
      else ⟨some (if modified then .object third else .object item), modified, detached, false⟩ := rfl

theorem repairStep_road (scope : OpenAIRepairScope) (sound : Sound refusal) (i : Nat) (afterDropped : Bool)
    (item : Members) :
    Road scope refusal i afterDropped item (repairStep scope refusal i afterDropped (.object item)) := by
  rw [repairStep_object]
  dsimp only
  cases detach : afterDropped && standaloneReasoningDependentItem item && idIn item != [] with
  | true =>
    simp only [and_eq_true, bne_iff_ne] at detach
    obtain ⟨⟨dropped, complete⟩, named⟩ := detach
    have apart := standalone_apart complete
    have plain : isToolOutput (kindIn (delete item "id".toList)) = false := by
      rw [kindIn, get_delete_other _ (by decide)]
      exact apart.2
    simp only [↓reduceIte]
    -- The item loses its id here, and once more where it is named as well.
    cases asked : repairRefused refusal i (kindIn item) (idIn item) (delete item "id".toList) with
    | none =>
      simp only [map_none, getD_none, strip_kind plain, ite_self, isSome_none, Bool.or_false,
        false_eq_true, ↓reduceIte]
      exact .dependent complete (.inl dropped) (fun key => get_delete _ _ _) fun _ => List.mem_append_left _ (List.mem_singleton.mpr rfl)
    | some repair =>
      obtain ⟨changed, drop⟩ := repair
      rcases (repairRefused_asked asked).cases_kind with reasoning | ⟨rfl, rfl, -, -⟩
      · exact absurd reasoning apart.1
      · have still : isToolOutput (kindIn (delete (delete item "id".toList) "id".toList)) = false := by
          rw [kindIn, get_delete_other _ (by decide)]
          exact plain
        simp only [map_some, getD_some, strip_kind still, ite_self, getD_none, isSome_some,
          Bool.or_true, Bool.true_or, false_eq_true, ↓reduceIte]
        refine .dependent complete (.inl dropped) (fun key => ?_) fun _ => List.mem_append_left _ (List.mem_singleton.mpr rfl)
        rw [get_delete, get_delete]
        split <;> rfl
  | false =>
    simp only [false_eq_true, if_false, Bool.false_or, List.nil_append]
    cases asked : repairRefused refusal i (kindIn item) (idIn item) item with
    | none =>
      simp only [map_none, getD_none, false_eq_true, if_false, isSome_none, Bool.false_or]
      cases allowed : scope.functionOutput && (refusal.functionOutputError || refusal.encryptedError) with
      | false =>
        simp only [false_eq_true, if_false, isSome_none, Bool.false_and]
        refine .kept asked fun functions refused => ?_
        rw [functions, refused] at allowed
        cases allowed
      | true =>
        simp only [if_pos]
        cases stripped : stripFunctionOutputCipher item with
        | none =>
          simp only [isSome_none, Bool.false_and, false_eq_true, if_false]
          exact .kept asked fun _ _ => stripped
        | some changed =>
          obtain ⟨kind, left⟩ := stripFunctionOutputCipher_stripped stripped
          simp only [isSome_some, Bool.true_and, getD_some, left.no_id, Option.isNone_none,
            Bool.and_true, if_pos]
          refine .output (by simp only [and_eq_true] at allowed; exact allowed.1) kind left fun named => ?_
          rw [if_pos (bne_iff_ne.mpr named)]
          exact List.mem_singleton.mpr rfl
    | some repair =>
      obtain ⟨changed, drop⟩ := repair
      have road := repairRefused_asked asked
      simp only [map_some, getD_some, isSome_some, Bool.true_or, Bool.true_and]
      rcases road.cases_kind with reasoning | ⟨rfl, rfl, named, complete⟩
      · have plain : isToolOutput (kindIn changed) = false := by
          rw [road.same_kind sound]
          exact (reasoning_apart reasoning).2
        simp only [strip_kind plain, ite_self, getD_none]
        cases drop with
        | true =>
          simp only [if_pos, Bool.true_or, Bool.and_true]
          refine .dropped reasoning road fun named => ?_
          rw [if_pos (bne_iff_ne.mpr named)]
          exact List.mem_singleton.mpr rfl
        | false =>
          simp only [false_eq_true, if_false, Bool.false_or, if_pos]
          refine .reasoning reasoning road fun named gone => ?_
          rw [gone, if_pos (by simp [named])]
          exact List.mem_singleton.mpr rfl
      · have plain : isToolOutput (kindIn (delete item "id".toList)) = false := by
          rw [kindIn, get_delete_other _ (by decide)]
          exact (standalone_apart complete).2
        simp only [strip_kind plain, ite_self, getD_none, false_eq_true, if_false, Bool.false_or, if_pos,
          get_delete_same, Option.isNone_none, Bool.and_true]
        refine .dependent complete (.inr named) (fun key => get_delete _ _ _) fun named => ?_
        rw [if_pos (bne_iff_ne.mpr named)]
        exact List.mem_singleton.mpr rfl

variable {afterDropped : Bool}

theorem Asked.frame (asked : Asked refusal i (kindIn item) (idIn item) item changed drop)
    (reasoning : kindIn item = "reasoning".toList) (key : Text) :
    get changed key = get item key ∨ MayChange scope refusal i afterDropped item key (get changed key) := by
  cases asked with
  | cipher refused _ here _ stripped =>
    have frame := stripCipher_get item key
    rw [stripped] at frame
    dsimp only at frame
    rcases frame with same | ⟨rfl, gone⟩ | ⟨rfl, gone⟩ | ⟨rfl, null, gone⟩ | ⟨rfl, bare, visible, empty⟩
    · exact .inl same
    · exact .inr (gone ▸ .cipher reasoning refused here)
    · exact .inr (gone ▸ .cipherID reasoning refused here)
    · exact .inr (gone ▸ .nullContent reasoning refused here null)
    · exact .inr (empty ▸ .emptySummary reasoning refused here bare visible)
  | orphan _ _ _ _ => exact .inl rfl
  | stored _ _ _ named =>
    rw [get_delete]
    by_cases here : key = "id".toList
    · rw [if_pos here, here]
      exact .inr (.storedID reasoning named)
    · rw [if_neg here]
      exact .inl rfl
  | dependent _ _ _ complete => exact absurd reasoning (standalone_apart complete).1
  | field _ refused here _ _ value =>
    rw [get_delete]
    by_cases named : key = refusal.field
    · rw [if_pos named, named]
      exact .inr (.field reasoning refused here value)
    · rw [if_neg named]
      exact .inl rfl

theorem Asked.mayDrop (asked : Asked refusal i (kindIn item) (idIn item) item changed true)
    (reasoning : kindIn item = "reasoning".toList) :
    MayDrop refusal i item := by
  refine ⟨reasoning, ?_⟩
  cases asked with
  | cipher refused _ here held stripped =>
    rw [stripCipher_eq, Prod.mk.injEq] at stripped
    have silent := stripped.2
    simp only [and_eq_true, not_eq_true'] at silent
    exact .inr ⟨refused, here, held, silent.1, silent.2⟩
  | orphan _ _ _ named => exact .inl named

theorem Road.repaired {step : Step} (road : Road scope refusal i afterDropped item step) :
    Repaired scope refusal i afterDropped (.object item) step.outcome := by
  cases road with
  | kept _ _ => exact .inl rfl
  | @reasoning changed kind asked _ _ => exact .inr ⟨item, changed, rfl, rfl, asked.frame kind⟩
  | dropped kind asked _ => exact ⟨item, rfl, asked.mayDrop kind⟩
  | @dependent changed complete asked bare _ _ =>
    refine .inr ⟨item, changed, rfl, rfl, fun key => ?_⟩
    rw [bare]
    by_cases here : key = "id".toList
    · rw [if_pos here, here]
      exact .inr (.dependentID complete asked)
    · rw [if_neg here]
      exact .inl rfl
  | @output changed allowed kind stripped _ _ =>
    refine .inr ⟨item, changed, rfl, rfl, fun key => ?_⟩
    rcases stripped.frame key with same | ⟨rfl, gone⟩ | ⟨rfl, gone⟩ | ⟨rfl, parts, found, left⟩
    · exact .inl same
    · exact .inr (gone ▸ .outputCipher allowed kind)
    · exact .inr (gone ▸ .outputID allowed kind stripped.hasCipher)
    · exact .inr (left ▸ .outputParts allowed kind found)

/-! ### A repaired item asks for no more -/

/-- Nothing asks for a repair of an item at a position. -/
def Quiet (scope : OpenAIRepairScope) (refusal : Refusal) (i : Nat) (raw : Json) : Prop :=
  ∀ item, raw = .object item → repairRefused refusal i (kindIn item) (idIn item) item = none ∧
    (scope.functionOutput = true → (refusal.functionOutputError || refusal.encryptedError) = true →
      stripFunctionOutputCipher item = none)

theorem Quiet.step {raw : Json} (quiet : Quiet scope refusal i raw) :
    repairStep scope refusal i false raw = ⟨some raw, false, [], false⟩ := by
  cases raw with
  | object item =>
    obtain ⟨not_asked, not_stripped⟩ := quiet item rfl
    have strip : (if scope.functionOutput && (refusal.functionOutputError || refusal.encryptedError) then
        stripFunctionOutputCipher item else none) = none := by
      split
      case isTrue allowed =>
        rw [and_eq_true] at allowed
        exact not_stripped allowed.1 allowed.2
      case isFalse => rfl
    rw [repairStep_object]
    simp only [Bool.false_and, false_eq_true, ↓reduceIte, not_asked, map_none, getD_none, strip,
      isSome_none, Bool.or_self, List.append_nil]
  | null => rfl
  | bool => rfl
  | number => rfl
  | string => rfl
  | array => rfl

/-- Where a position names an item still, and for one reason. -/
def Steady (refusal : Refusal) (i j : Nat) : Prop :=
  refusal.indexed = false ∨ j = i ∧ (refusal.fieldError && refusal.structuralMatch) = false

theorem Sound.no_field (sound : Sound refusal) (unnamed : refusal.indexed = false) :
    refusal.fieldError = false := by
  cases named : refusal.fieldError with
  | false => rfl
  | true =>
    rw [sound.position named] at unnamed
    cases unnamed

theorem Steady.apart (sound : Sound refusal) {j : Nat} (steady : Steady refusal i j)
    (refused : refusal.fieldError = true) (structural : refusal.structuralMatch = true) : False := by
  rcases steady with unnamed | ⟨-, apart⟩
  · rw [sound.no_field unnamed] at refused
    cases refused
  · rw [refused, structural] at apart
    cases apart

theorem structuralMatch_of (structural : refusal.structuralError = true)
    (named : refusal.orphan.isSome = true ∨ refusal.missing.isSome = true ∨ refusal.missingID.isSome = true) :
    refusal.structuralMatch = true := by
  unfold Refusal.structuralMatch
  rw [structural]
  rcases named with orphan | missing | stored
  · simp [orphan]
  · simp [missing]
  · simp [stored]

theorem Asked.unnamed (sound : Sound refusal) (asked : Asked refusal i kind [] item changed drop) :
    kind = "reasoning".toList ∧ (refusal.encryptedError = true ∧ (get item "encrypted_content".toList).isSome = true ∨
      refusal.encryptedError = false ∧ refusal.fieldError = true) := by
  cases asked with
  | cipher refused reasoning _ held _ => exact ⟨reasoning, .inl ⟨refused, held⟩⟩
  | orphan _ _ _ named => exact absurd named sound.orphan
  | stored _ _ _ named => exact absurd named sound.missingID
  | dependent _ _ named _ => exact absurd named (sound.missing kind)
  | field other refused _ reasoning _ _ => exact ⟨reasoning, .inr ⟨other, refused⟩⟩

theorem idIn_none (gone : get item "id".toList = none) : idIn item = [] := by
  rw [idIn, gone]
  rfl

theorem Asked.again (sound : Sound refusal) {j : Nat} (steady : Steady refusal i j) {other : Members}
    (reasoning : kindIn item = "reasoning".toList)
    (asked : Asked refusal i (kindIn item) (idIn item) item changed false) :
    ¬ Asked refusal j (kindIn changed) (idIn changed) changed other drop := by
  have kind := asked.same_kind sound
  intro again
  cases asked with
  | cipher refused _ _ _ stripped =>
    have bare := stripCipher_cipher item
    rw [stripped] at bare
    cases again with
    | cipher _ _ _ held _ =>
      rw [bare] at held
      cases held
    | orphan apart _ _ _ => rw [refused] at apart; cases apart
    | stored apart _ _ _ => rw [refused] at apart; cases apart
    | dependent apart _ _ _ => rw [refused] at apart; cases apart
    | field apart _ _ _ _ _ => rw [refused] at apart; cases apart
  | stored apart structural _ named =>
    rw [idIn_none (get_delete_same _ _)] at again
    rcases (again.unnamed sound).2 with ⟨refused, _⟩ | ⟨_, field⟩
    · rw [apart] at refused
      cases refused
    · exact steady.apart sound field (structuralMatch_of structural (.inr (.inr (by rw [named]; rfl))))
  | dependent _ _ _ complete => exact absurd reasoning (standalone_apart complete).1
  | field apart refused _ _ _ _ =>
    cases again with
    | cipher other _ _ _ _ => rw [apart] at other; cases other
    | orphan _ structural _ named =>
      exact steady.apart sound refused (structuralMatch_of structural (.inl (by rw [named]; rfl)))
    | stored _ structural _ named =>
      exact steady.apart sound refused (structuralMatch_of structural (.inr (.inr (by rw [named]; rfl))))
    | dependent _ structural named _ =>
      exact steady.apart sound refused (structuralMatch_of structural (.inr (.inl (by rw [named]; rfl))))
    | field _ _ _ _ held _ =>
      rw [get_delete_same] at held
      cases held

theorem not_asked_of (never : ∀ changed drop, ¬ Asked refusal i kind id item changed drop) :
    repairRefused refusal i kind id item = none := by
  cases asked : repairRefused refusal i kind id item with
  | none => rfl
  | some repair => exact absurd (repairRefused_asked asked) (never repair.1 repair.2)

theorem Road.quiet (sound : Sound refusal) {j : Nat} {step : Step}
    (road : Road scope refusal i afterDropped item step) (steady : Steady refusal i j) {after : Json}
    (kept : step.outcome = some after) : Quiet scope refusal j after := by
  cases road with
  | kept not_asked not_stripped =>
    cases kept
    rintro _ ⟨⟩
    refine ⟨?_, not_stripped⟩
    rw [repairRefused_position sound (steady.imp_right And.left)]
    exact not_asked
  | @reasoning changed kind asked _ _ =>
    cases kept
    rintro _ ⟨⟩
    refine ⟨not_asked_of fun other drop => asked.again sound steady kind, fun _ _ => strip_kind ?_⟩
    rw [asked.same_kind sound]
    exact (reasoning_apart kind).2
  | dropped _ _ _ => cases kept
  | @dependent changed complete asked bare _ _ =>
    cases kept
    rintro _ ⟨⟩
    have kind : kindIn changed = kindIn item := by
      rw [kindIn, bare, if_neg (by decide)]
      rfl
    have apart := standalone_apart complete
    refine ⟨not_asked_of fun other drop again => ?_, fun _ _ => strip_kind (by rw [kind]; exact apart.2)⟩
    rw [idIn_none (by rw [bare, if_pos rfl]), kind] at again
    exact apart.1 (again.unnamed sound).1
  | @output changed _ kind stripped _ _ =>
    cases kept
    rintro _ ⟨⟩
    have same : kindIn changed = kindIn item := by
      rcases stripped.frame "type".toList with same | ⟨other, -⟩ | ⟨other, -⟩ | ⟨other, -⟩
      · rw [kindIn, same]
        rfl
      all_goals exact absurd other (by decide)
    refine ⟨not_asked_of fun other drop again => ?_, fun _ _ => ?_⟩
    · rw [idIn_none stripped.no_id, same] at again
      have reasoning := (again.unnamed sound).1
      rw [reasoning] at kind
      exact absurd kind (by decide)
    · cases found : stripFunctionOutputCipher changed with
      | none => rfl
      | some other => exact absurd (stripFunctionOutputCipher_stripped found).2 stripped.again

end AstrLink.RepairedItems
