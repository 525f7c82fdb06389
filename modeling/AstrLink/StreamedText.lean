import AstrLink.Restoring

/-!
Text that arrives in chunks. What is emitted is the restored text as long as the text in front of each call
would have made no difference (`streamed_restores`); a marker that continues a word of the chunk before is
restored (`joined_word_restored`).
-/
namespace AstrLink.Restoring
open IPAddress StandIns Rewriting List

theorem equalASCII_take {left right : Text} {fold : Bool} (same : equalASCII left right fold = true) (length : Nat) :
    equalASCII (left.take length) (right.take length) fold = true := by
  unfold equalASCII at same ⊢
  cases fold with
  | false =>
    have equal : left = right := by simpa using same
    simp [equal]
  | true =>
    have equal : left.map Char.toLower = right.map Char.toLower := by simpa using same
    simp [map_take, equal]

variable {rest : Text}

theorem matchLiteral_extends {literal : Text} {fold : Bool} (more : Text)
    (whole : matchLiteral rest literal fold false ≠ .matchPartial) :
    matchLiteral (rest ++ more) literal fold true = matchLiteral rest literal fold false := by
  unfold matchLiteral at whole ⊢
  by_cases inside : literal.length ≤ rest.length
  · have longer : literal.length ≤ (rest ++ more).length := by simp; omega
    rw [if_pos inside, if_pos longer, take_append_of_le_length inside]
  · rw [if_neg inside] at whole ⊢
    have apart : equalASCII rest (literal.take rest.length) fold = false := by
      simpa using whole
    simp only [apart, Bool.and_false, Bool.not_true, Bool.false_and, Bool.false_eq_true, if_false]
    split
    · next longer =>
      split
      · next same =>
        have start := equalASCII_take same rest.length
        rw [take_take, Nat.min_eq_left (by omega), take_left] at start
        simp [start] at apart
      · rfl
    · rfl

/-- No alternative starts with another one. -/
def PrefixFree (literals : List Text) : Prop :=
  ∀ literal ∈ literals, ∀ other ∈ literals,
    literal.map Char.toLower <+: other.map Char.toLower → literal = other

instance (literals : List Text) : Decidable (PrefixFree literals) :=
  inferInstanceAs (Decidable (∀ literal ∈ literals, ∀ other ∈ literals, _ → _))

theorem PrefixFree.refused {literals : List Text} (free : PrefixFree literals) {literal other : Text}
    (listed : literal ∈ literals) (there : other ∈ literals) {length : Nat}
    (full : matchLiteral rest literal true false = .matchFull length) :
    matchLiteral rest other true false ≠ .matchPartial := by
  intro cut
  obtain ⟨rfl, inside, same⟩ := matchLiteral_full full
  unfold matchLiteral at cut
  split at cut
  · split at cut <;> cases cut
  · next short =>
    split at cut
    · next start =>
      have start : equalASCII rest (other.take rest.length) true = true := by simpa using start
      have first := equalASCII_take start literal.length
      rw [take_take, Nat.min_eq_left inside] at first
      have equal : literal.map Char.toLower = (other.map Char.toLower).take literal.length := by
        have one : (rest.take literal.length).map Char.toLower = literal.map Char.toLower := by
          simpa [equalASCII] using same
        have two : (rest.take literal.length).map Char.toLower = (other.take literal.length).map Char.toLower := by
          simpa [equalASCII] using first
        rw [← one, two, map_take]
      obtain rfl := free literal listed other there (equal ▸ take_prefix _ _)
      exact short inside
    · cases cut

theorem matchOneOf_extends {literals : List Text} (more : Text) (free : PrefixFree literals)
    (whole : matchOneOf rest literals false ≠ .matchPartial) :
    matchOneOf (rest ++ more) literals true = matchOneOf rest literals false := by
  induction literals with
  | nil => rfl
  | cons literal literals ih =>
    have fewer : PrefixFree literals :=
      fun first here second there => free first (mem_cons_of_mem _ here) second (mem_cons_of_mem _ there)
    rw [matchOneOf_cons] at whole
    rw [matchOneOf_cons, matchOneOf_cons]
    cases first : matchLiteral rest literal true false with
    | matchFull length =>
      rw [matchLiteral_extends more (by simp [first]), first]
    | matchPartial =>
      rw [first] at whole
      dsimp only at whole
      split at whole
      · next full =>
        cases later : matchOneOf rest literals false with
        | matchFull length =>
          obtain ⟨other, listed, matched⟩ := matchOneOf_full later
          exact absurd first (free.refused (mem_cons_of_mem _ listed) mem_cons_self matched)
        | matchNone => simp [later] at full
        | matchPartial => simp [later] at full
      · exact absurd rfl whole
    | matchNone =>
      rw [first] at whole
      rw [matchLiteral_extends more (by simp [first]), first]
      exact ih fewer whole

/-- The spelling's alternatives are told apart by their starts. -/
def RestoreSpelling.Unmixed : RestoreSpelling → Prop
  | .escapedMarkerSpelling escapes _ _ _ => PrefixFree escapes.opens ∧ PrefixFree escapes.closes
  | _ => True

theorem andThen_extends {first other : MatchStatus} {next later : Nat → MatchStatus} (same : first ≠ .matchPartial → other = first)
    (whole : first.andThen next ≠ .matchPartial)
    (follows : ∀ length, first = .matchFull length → next length ≠ .matchPartial → later length = next length) :
    other.andThen later = first.andThen next := by
  cases first with
  | matchNone =>
    rw [same (by simp)]
    rfl
  | matchPartial => exact absurd rfl whole
  | matchFull length =>
    rw [same (by simp)]
    exact follows length rfl whole

theorem shift_whole {status : MatchStatus} {length : Nat} (whole : status.shift length ≠ .matchPartial) :
    status ≠ .matchPartial := by
  rintro rfl
  exact whole rfl

variable {before : Text}

theorem status_extends {spelling : RestoreSpelling} (unmixed : spelling.Unmixed) (more : Text)
    (whole : spelling.status before rest false ≠ .matchPartial) :
    spelling.status before (rest ++ more) true = spelling.status before rest false := by
  cases spelling with
  | literalSpelling placeholder value => exact matchLiteral_extends more whole
  | bareMarkerSpelling body value =>
    simp only [RestoreSpelling.status] at whole ⊢
    split
    · rfl
    · next start =>
      rw [if_neg start] at whole
      refine andThen_extends (matchLiteral_extends more) whole fun length named ended => ?_
      obtain ⟨_, inside, _⟩ := matchLiteral_full named
      unfold matchWordEnd at ended ⊢
      cases next : rest[length]? with
      | none => simp [next] at ended
      | some char =>
        obtain ⟨bound, _⟩ := List.getElem?_eq_some_iff.mp next
        rw [getElem?_append_left bound, next]
  | escapedMarkerSpelling escapes body value backslash =>
    simp only [RestoreSpelling.status] at whole ⊢
    split
    · rfl
    · next start =>
      rw [if_neg start] at whole
      refine andThen_extends (matchOneOf_extends more unmixed.1) whole fun opened opening whole => ?_
      obtain ⟨_, _, opening⟩ := matchOneOf_full opening
      obtain ⟨_, inside, _⟩ := matchLiteral_full opening
      rw [drop_append_of_le_length inside]
      refine andThen_extends (fun held => by rw [matchLiteral_extends more (shift_whole held)]) whole
        fun named naming whole => ?_
      obtain ⟨length, spelled, rfl⟩ := shift_full naming
      obtain ⟨_, room, _⟩ := matchLiteral_full spelled
      rw [length_drop] at room
      rw [drop_append_of_le_length (by omega), matchOneOf_extends more unmixed.2 (shift_whole whole)]

theorem entryStatus_extends {entry : Text × RestoreSpelling} (unmixed : entry.2.Unmixed) (more : Text)
    (whole : entryStatus before rest false entry ≠ .matchPartial) :
    entryStatus before (rest ++ more) true entry = entryStatus before rest false entry := by
  unfold entryStatus at whole ⊢
  split
  · rfl
  · next allowed =>
    rw [if_neg allowed] at whole
    by_cases here : entry.1.isPrefixOf rest = true
    · have still : entry.1.isPrefixOf (rest ++ more) = true :=
        List.isPrefixOf_iff_prefix.mpr ((List.isPrefixOf_iff_prefix.mp here).trans (prefix_append _ _))
      rw [if_pos here] at whole ⊢
      rw [if_pos still]
      exact status_extends unmixed more whole
    · rw [if_neg here] at whole ⊢
      have apart : ¬ rest <+: entry.1 := by simpa using whole
      have never : ¬ entry.1 <+: rest ++ more := by
        intro longer
        rcases prefix_or_prefix_of_prefix longer (prefix_append rest more) with first | second
        · exact here (List.isPrefixOf_iff_prefix.mpr first)
        · exact apart second
      simp [never, apart]

variable {restorer : TextRestorer}

theorem anticipates (unmixed : ∀ spelling ∈ restorer.spellings, spelling.Unmixed) :
    Anticipates (restorer.rule false) (restorer.rule true) := by
  intro before rest more whole
  have none : (restorer.found before rest false).any (·.1 = .matchPartial) = false := by
    refine Bool.eq_false_iff.mpr fun cut => whole ?_
    exact if_pos cut
  have same : restorer.found before (rest ++ more) true = restorer.found before rest false := by
    refine map_congr_left fun entry listed => ?_
    obtain ⟨spelling, spelled, part⟩ := mem_flatMap.mp listed
    obtain ⟨start, _, rfl⟩ := mem_map.mp part
    rw [entryStatus_extends (unmixed spelling spelled) more]
    intro cut
    have there : (.matchPartial, spelling.value) ∈ restorer.found before rest false :=
      mem_map.mpr ⟨_, listed, by rw [cut]⟩
    rw [any_eq_false] at none
    simpa using none _ there
  show restorer.choose true before (rest ++ more) = restorer.choose false before rest
  rw [TextRestorer.choose, TextRestorer.choose, same]

theorem unmixed_request {redactions : List Redaction} {encoding : ValueEncoding} :
    ∀ spelling ∈ (newTextRestorer redactions encoding).spellings, spelling.Unmixed := by
  have escaped : ∀ escapes ∈ markerEscapes, PrefixFree escapes.opens ∧ PrefixFree escapes.closes := by decide +kernel
  intro spelling listed
  obtain ⟨redaction, _, listed⟩ := mem_flatMap.mp listed
  rcases mem_restoreSpellings listed with ⟨_, _, rfl⟩ | ⟨_, ⟨_, bare⟩ | ⟨escapes, known, _, _, marked⟩⟩
  · trivial
  · rw [bare]
    trivial
  · rw [marked]
    exact escaped escapes known

/-- What a chunk lets out, and what is held back for the next one. -/
def pushText (restorer : TextRestorer) (pending chunk : Text) : Text × Text :=
  let combined := pending ++ chunk
  let restored := restorer.restore combined false
  (restored.text, combined.drop (combined.length - restored.hold))

def finishText (restorer : TextRestorer) (pending : Text) : Text :=
  if pending = [] then [] else (restorer.restore pending true).text

def emitted (restorer : TextRestorer) (pending : Text) : List Text → Text
  | [] => finishText restorer pending
  | chunk :: rest =>
    let (restored, held) := pushText restorer pending chunk
    restored ++ emitted restorer held rest

/-- The text before a place makes no difference to what the spellings match from there on. -/
def SameMatches (restorer : TextRestorer) (before text : Text) : Prop :=
  ∀ left right, text = left ++ right →
    restorer.found left.reverse right true = restorer.found (left.reverse ++ before) right true

/-- Wherever a call resumes, the text before makes no difference. -/
def Sheltered (restorer : TextRestorer) (before pending : Text) : List Text → Prop
  | [] => SameMatches restorer before pending
  | chunk :: rest =>
    let held := (pushText restorer pending chunk).2
    let passed := (pending ++ chunk).take ((pending ++ chunk).length - held.length)
    SameMatches restorer before (pending ++ chunk ++ rest.flatten) ∧
      Sheltered restorer (passed.reverse ++ before) held rest

theorem SameMatches.choose {text : Text} (same : SameMatches restorer before text) (left right : Text)
    (split : text = left ++ right) :
    (restorer.rule true).choose (left.reverse ++ []) right = (restorer.rule true).choose (left.reverse ++ before) right := by
  rw [append_nil]
  show restorer.choose true left.reverse right = restorer.choose true (left.reverse ++ before) right
  rw [TextRestorer.choose, TextRestorer.choose, same left right split]

theorem split_back {front back whole : Text} (joined : front ++ back = whole) :
    whole.take (whole.length - back.length) = front ∧ whole.drop (whole.length - back.length) = back := by
  subst joined
  simp

theorem pushText_trace (restorer : TextRestorer) (pending chunk : Text) :
    ∃ pieces, Trace (restorer.rule false) [] (pending ++ chunk) pieces (pushText restorer pending chunk).2 ∧
      (pushText restorer pending chunk).1 = outputs pieces ∧
      sources pieces = (pending ++ chunk).take ((pending ++ chunk).length - (pushText restorer pending chunk).2.length) := by
  have trace : Trace (restorer.rule false) [] (pending ++ chunk) (restorer.pieces (pending ++ chunk) false) _ :=
    trace_scan [] (pending ++ chunk)
  obtain ⟨front, back⟩ := split_back trace.whole
  have held : (pushText restorer pending chunk).2 = (scan (restorer.rule false) 0 [] (pending ++ chunk)).2 := back
  refine ⟨restorer.pieces (pending ++ chunk) false, ?_, rfl, ?_⟩
  · rw [held]
    exact trace
  · rw [held]
    exact front.symm

theorem emitted_pieces (unmixed : ∀ spelling ∈ restorer.spellings, spelling.Unmixed) {pending : Text}
    {chunks : List Text} (sheltered : Sheltered restorer before pending chunks) :
    ∃ pieces, Trace (restorer.rule true) before (pending ++ chunks.flatten) pieces [] ∧
      emitted restorer pending chunks = outputs pieces := by
  induction chunks generalizing before pending with
  | nil =>
    have trace : Trace (restorer.rule true) [] pending (restorer.pieces pending true) _ := trace_scan [] pending
    have nothing := trace.unheld (TextRestorer.choose_final restorer)
    rw [nothing] at trace
    refine ⟨restorer.pieces pending true, ?_, ?_⟩
    · have moved := trace.relocated sheltered.choose
      simpa using moved
    · show finishText restorer pending = _
      unfold finishText
      split
      · next empty =>
        subst empty
        rfl
      · rfl
  | cons chunk rest ih =>
    obtain ⟨same, later⟩ := sheltered
    obtain ⟨first, trace, out, passed⟩ := pushText_trace restorer pending chunk
    rw [← passed] at later
    obtain ⟨pieces, following, ended⟩ := ih later
    -- The calls that follow see less of the text before, which makes no difference to them either.
    have unseen : Trace (restorer.rule true) ((sources first).reverse ++ []) ((pushText restorer pending chunk).2 ++ rest.flatten)
        pieces [] := by
      refine following.relocated fun left right split => ?_
      have moved := same.choose (sources first ++ left) right (by
        rw [← trace.whole, List.append_assoc, split, List.append_assoc])
      rw [reverse_append, List.append_assoc, List.append_assoc] at moved
      exact moved.symm
    have whole := trace.continued (anticipates unmixed) unseen
    have located := whole.relocated same.choose
    refine ⟨first ++ pieces, ?_, ?_⟩
    · rw [flatten_cons, ← List.append_assoc]
      exact located
    · show (pushText restorer pending chunk).1 ++ emitted restorer (pushText restorer pending chunk).2 rest = _
      rw [out, ended, outputs_append]

/-- Chunks are restored to the text that one call restores the whole to, wherever the text in front of each call makes
no difference. -/
theorem streamed_restores (redactions : List Redaction) (chunks : List Text)
    (sheltered : Sheltered (newTextRestorer redactions .plain) [] [] chunks) :
    emitted (newTextRestorer redactions .plain) [] chunks =
      ((newTextRestorer redactions .plain).restore chunks.flatten true).text := by
  obtain ⟨pieces, trace, out⟩ := emitted_pieces unmixed_request sheltered
  have own : Trace ((newTextRestorer redactions .plain).rule true) [] chunks.flatten
      ((newTextRestorer redactions .plain).pieces chunks.flatten true) _ := trace_scan [] chunks.flatten
  obtain ⟨same, _⟩ := trace.unique own
  rw [out, same]
  rfl

theorem sameMatches_iff {text : Text} :
    SameMatches restorer before text ↔ ∀ place ∈ List.range (text.length + 1),
      restorer.found (text.take place).reverse (text.drop place) true =
        restorer.found ((text.take place).reverse ++ before) (text.drop place) true := by
  constructor
  · intro same place _
    exact same _ _ (take_append_drop place text).symm
  · rintro same left right rfl
    have inside : left.length < (left ++ right).length + 1 := by
      rw [length_append]
      omega
    have here := same left.length (mem_range.mpr inside)
    rw [take_left, drop_left] at here
    exact here

instance (restorer : TextRestorer) (before text : Text) : Decidable (SameMatches restorer before text) :=
  decidable_of_iff _ sameMatches_iff.symm

instance decideSheltered (restorer : TextRestorer) : (before pending : Text) → (chunks : List Text) →
    Decidable (Sheltered restorer before pending chunks)
  | before, pending, [] => inferInstanceAs (Decidable (SameMatches restorer before pending))
  | before, pending, chunk :: rest =>
    have := decideSheltered restorer
      (((pending ++ chunk).take ((pending ++ chunk).length - (pushText restorer pending chunk).2.length)).reverse ++ before)
      (pushText restorer pending chunk).2 rest
    inferInstanceAs (Decidable (_ ∧ _))

def person : List Redaction :=
  [⟨"<PRIVATE_PERSON_6ad1158cae28c183>".toList, .person, "Ann".toList, .token⟩]

/-- A marker that is cut inside its name is held back and restored. -/
theorem cut_marker_restored :
    emitted (newTextRestorer person .plain) [] ["by &lt;PRIVATE_PER".toList, "SON_6ad1158cae28c183&gt;.".toList] =
        "by Ann.".toList ∧
      emitted (newTextRestorer person .plain) [] ["by &lt;PRIVATE_PER".toList, "SON_6ad1158cae28c183&gt;.".toList] =
        ((newTextRestorer person .plain).restore "by &lt;PRIVATE_PERSON_6ad1158cae28c183&gt;.".toList true).text :=
  ⟨by decide +kernel, streamed_restores person _ (by decide +kernel)⟩

/-- A chunk ends with the letter that a word goes on from. -/
theorem joined_word_restored : ¬ ∀ (redactions : List Redaction) (chunks : List Text),
    emitted (newTextRestorer redactions .plain) [] chunks =
      ((newTextRestorer redactions .plain).restore chunks.flatten true).text := by
  intro claim
  have same := claim person ["x".toList, "PRIVATE_PERSON_6ad1158cae28c183.".toList]
  revert same
  decide +kernel

end AstrLink.Restoring
