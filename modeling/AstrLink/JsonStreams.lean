import AstrLink.ValueEnds

/-!
A streamed body that is a sequence of JSON values, each handed on to the engine once it is complete; another
body is passed through. `hands_on` says which values have been handed on after any chunks.
-/
namespace AstrLink.JsonStreams
open JsonSyntax ValueEnds List

def maxQueuedRestoreBytes : Nat := 256 * 1024

inductive JSONKind where
  | jsonRestoreUnknown
  | jsonRestoreArray
  | jsonRestoreSequence
  | jsonRestoreDone

structure RestoreFrame where
  front : Bytes
  jsonData : Bytes

/-- The engine that the values are handed on to: each operation gives its state and the bytes to write. -/
structure Engine (σ : Type) where
  push : σ → RestoreFrame → σ × Bytes
  terminal : σ → Bytes → σ × Bytes
  finish : σ → σ × Bytes
  abort : σ → σ × Bytes
  /-- Counts a fallback. -/
  fallback : σ → σ
  queueBytes : σ → Nat

/-- The writer, with the frames that were handed on so far. -/
structure Writer (σ : Type) where
  streamRaw : Bool
  streamCarry : Bytes
  jsonKind : JSONKind
  engine : σ
  handed : List RestoreFrame

def Writer.initial {σ : Type} (engine : σ) : Writer σ := ⟨false, [], .jsonRestoreUnknown, engine, []⟩

section
variable {σ : Type} (engine : Engine σ)

def firstNonSpace (value : Bytes) : Option Nat := value.findIdx? fun byte => !isSpace byte

/-- What a turn of the loop comes to: it ends, goes on or gives the body up. -/
inductive Turn (σ : Type) where
  | halt (writer : Writer σ) (out : Bytes)
  | again (writer : Writer σ) (out : Bytes)
  | giveUp (writer : Writer σ)

def takeValue (writer : Writer σ) (start : Nat) : Turn σ :=
  match completeJSONValueEnd writer.streamCarry start with
  | .invalid => .giveUp writer
  | .incomplete => .halt writer []
  | .complete finish =>
    let frame : RestoreFrame := ⟨writer.streamCarry.take start, (writer.streamCarry.take finish).drop start⟩
    let (pushed, out) := engine.push writer.engine frame
    .again { writer with
      streamCarry := writer.streamCarry.drop finish, engine := pushed, handed := writer.handed ++ [frame] } out

def sequenceTurn (writer : Writer σ) : Turn σ :=
  match firstNonSpace writer.streamCarry with
  | none => .halt writer []
  | some start => takeValue engine writer start

def arrayTurn (writer : Writer σ) : Turn σ :=
  match firstNonSpace writer.streamCarry with
  | none => .halt writer []
  | some start =>
    if writer.streamCarry[start]? = some closeArray then
      let (closed, out) := engine.terminal writer.engine (writer.streamCarry.take (start + 1))
      .again { writer with
        streamCarry := writer.streamCarry.drop (start + 1), jsonKind := .jsonRestoreDone, engine := closed } out
    else if writer.streamCarry[start]? = some comma then
      match firstNonSpace (writer.streamCarry.drop (start + 1)) with
      | none => .halt writer []
      | some next =>
        if writer.streamCarry[start + 1 + next]? = some closeArray then .giveUp writer
        else takeValue engine writer (start + 1 + next)
    else takeValue engine writer start

def turn (writer : Writer σ) : Turn σ :=
  match writer.jsonKind with
  | .jsonRestoreDone => .halt { writer with streamCarry := [] } writer.streamCarry
  | .jsonRestoreArray => arrayTurn engine writer
  | .jsonRestoreSequence => sequenceTurn engine writer
  | .jsonRestoreUnknown =>
    match firstNonSpace writer.streamCarry with
    | none => .halt writer []
    | some start =>
      if writer.streamCarry[start]? = some openArray then
        .again { writer with streamCarry := writer.streamCarry.drop (start + 1), jsonKind := .jsonRestoreArray }
          (writer.streamCarry.take (start + 1))
      else if writer.streamCarry[start]? = some openObject then
        sequenceTurn engine { writer with jsonKind := .jsonRestoreSequence }
      else .giveUp writer

theorem firstNonSpace_inside {value : Bytes} {start : Nat} (found : firstNonSpace value = some start) :
    start < value.length := by
  obtain ⟨inside, _⟩ := findIdx?_eq_some_iff_getElem.mp found
  exact inside

variable {after : Writer σ} {out : Bytes}

theorem takeValue_shrinks {writer : Writer σ} {start : Nat} (again : takeValue engine writer start = .again after out) :
    after.streamCarry.length < writer.streamCarry.length := by
  unfold takeValue at again
  split at again
  · cases again
  · cases again
  · next finish found =>
    obtain ⟨later, inside⟩ := completeJSONValueEnd_after found
    obtain ⟨rfl, -⟩ := Turn.again.inj again
    simp only [length_drop]
    omega

theorem sequenceTurn_shrinks {writer : Writer σ} (again : sequenceTurn engine writer = .again after out) :
    after.streamCarry.length < writer.streamCarry.length := by
  unfold sequenceTurn at again
  split at again
  · cases again
  · exact takeValue_shrinks engine again

theorem arrayTurn_shrinks {writer : Writer σ} (again : arrayTurn engine writer = .again after out) :
    after.streamCarry.length < writer.streamCarry.length := by
  unfold arrayTurn at again
  split at again
  · cases again
  · next start found =>
    have inside := firstNonSpace_inside found
    split at again
    · obtain ⟨rfl, -⟩ := Turn.again.inj again
      simp only [length_drop]
      omega
    · split at again
      · split at again
        · cases again
        · split at again
          · cases again
          · exact takeValue_shrinks engine again
      · exact takeValue_shrinks engine again

theorem turn_shrinks {writer : Writer σ} (again : turn engine writer = .again after out) :
    after.streamCarry.length < writer.streamCarry.length := by
  unfold turn at again
  split at again
  · cases again
  · exact arrayTurn_shrinks engine again
  · exact sequenceTurn_shrinks engine again
  · split at again
    · cases again
    · next start found =>
      have inside := firstNonSpace_inside found
      split at again
      · obtain ⟨rfl, -⟩ := Turn.again.inj again
        simp only [length_drop]
        omega
      · split at again
        · have shrunk := sequenceTurn_shrinks engine again
          exact shrunk
        · cases again

/-- Passes what is left of the body through. -/
def fallbackJSONStream (writer : Writer σ) (out : Bytes) : Writer σ × Bytes :=
  let (aborted, queued) := engine.abort writer.engine
  ({ writer with streamRaw := true, streamCarry := [], engine := engine.fallback aborted }, out ++ queued ++ writer.streamCarry)

/-- The loop over what has come; none when it gives the body up. -/
def drain (writer : Writer σ) (out : Bytes) : Except (Writer σ × Bytes) (Writer σ × Bytes) :=
  match _ : turn engine writer with
  | .halt writer more => .ok (writer, out ++ more)
  | .giveUp writer => .error (fallbackJSONStream engine writer out)
  | .again after more => drain after (out ++ more)
termination_by writer.streamCarry.length
decreasing_by exact turn_shrinks engine (by assumption)

def pushJSONStream (writer : Writer σ) (chunk : Bytes) (final : Bool) : Writer σ × Bytes :=
  if writer.streamRaw then (writer, chunk)
  else
    match drain engine { writer with streamCarry := writer.streamCarry ++ chunk } [] with
    | .error given => given
    | .ok (writer, out) =>
      if maxQueuedRestoreBytes < writer.streamCarry.length + engine.queueBytes writer.engine then
        fallbackJSONStream engine writer out
      else if final then
        let (finished, queued) := engine.finish writer.engine
        let left := if (firstNonSpace writer.streamCarry).isSome then engine.fallback finished else finished
        ({ writer with engine := left, streamCarry := [] }, out ++ queued ++ writer.streamCarry)
      else (writer, out)

/-- Whether what is kept and queued after each chunk stays within the limit. -/
def roomy (writer : Writer σ) : List Bytes → Bool
  | [] => true
  | chunk :: rest =>
    (match drain engine { writer with streamCarry := writer.streamCarry ++ chunk } [] with
      | .error _ => true
      | .ok (after, _) => after.streamCarry.length + engine.queueBytes after.engine ≤ maxQueuedRestoreBytes) &&
      roomy (pushJSONStream engine writer chunk false).1 rest

def pushAll (writer : Writer σ) (chunks : List Bytes) : Writer σ :=
  chunks.foldl (fun writer chunk => (pushJSONStream engine writer chunk false).1) writer

end

/-- A value of a stream with what separates it from what comes before. -/
structure Item where
  front : Bytes
  value : Value

def Item.text (item : Item) : Bytes := item.front ++ item.value.text

def Item.frame (item : Item) : RestoreFrame := ⟨item.front, item.value.text⟩

def itemsText (items : List Item) : Bytes := items.flatMap Item.text

def elementItems (front : Bytes) : Elements → List Item
  | .last before value _ => [⟨front ++ before.text, value⟩]
  | .cons before value after rest => ⟨front ++ before.text, value⟩ :: elementItems (after.text ++ [comma]) rest

def lastBlank : Elements → Blank
  | .last _ _ after => after
  | .cons _ _ _ rest => lastBlank rest

/-- White space between two values, or a comma. -/
inductive Separator where
  | spaced (blank : Blank) (some : blank.text ≠ [])
  | commaSeparated (before after : Blank)

def Separator.text : Separator → Bytes
  | .spaced blank _ => blank.text
  | .commaSeparated before after => before.text ++ comma :: after.text

/-- A sequence of JSON values, as an array or one after another. -/
inductive JSONStream where
  | emptyArray (before inside after : Blank)
  | array (before : Blank) (elements : Elements) (after : Blank)
  | sequence (before : Blank) (first : Value) (rest : List (Separator × Value)) (after : Blank)

namespace JSONStream

def items : JSONStream → List Item
  | emptyArray .. => []
  | array _ elements _ => elementItems [] elements
  | sequence before first rest _ => ⟨before.text, first⟩ :: rest.map fun item => ⟨item.1.text, item.2⟩

/-- What stands in front of the values and is handed on with none of them. -/
def lead : JSONStream → Bytes
  | emptyArray before _ _ | array before _ _ => before.text ++ [openArray]
  | sequence .. => []

def tail : JSONStream → Bytes
  | emptyArray _ inside after => inside.text ++ closeArray :: after.text
  | array _ elements after => (lastBlank elements).text ++ closeArray :: after.text
  | sequence _ _ _ after => after.text

def text (stream : JSONStream) : Bytes := stream.lead ++ (itemsText stream.items ++ stream.tail)

/-- An array, or values with white space between them of which the first is an object. -/
def Readable : JSONStream → Prop
  | emptyArray .. | array .. => True
  | sequence _ first rest _ => first.text.head? = some openObject ∧ ∀ item ∈ rest, ∃ blank some, item.1 = .spaced blank some

end JSONStream

/-- The values handed on are the first ones, those that what has come holds all of. -/
def HandedOn (stream : JSONStream) (received : Bytes) (handed : List RestoreFrame) : Prop :=
  handed <+: stream.items.map Item.frame ∧
    ∀ before item after, stream.items = before ++ item :: after →
      (before.length < handed.length ↔
        (stream.lead ++ (itemsText before ++ item.front)).length + needed item.value ≤ received.length)

/-! ### The parts of a stream -/

/-- What may stand in front of a value. -/
def FrontOf (wrapped : Bool) (front : Bytes) : Prop :=
  (∃ blank : Blank, front = blank.text) ∨ wrapped = true ∧ ∃ before after : Blank, front = before.text ++ comma :: after.text

/-- What may stand behind the last value. -/
def TailOf (wrapped : Bool) (tail : Bytes) : Prop :=
  if wrapped then ∃ (inside : Blank) (rest : Bytes), tail = inside.text ++ closeArray :: rest
  else ∃ blank : Blank, tail = blank.text

/-- Values and a tail that the loop reads one after another. -/
inductive Laid (wrapped : Bool) (tail : Bytes) : List Item → Prop where
  | ended (ended : TailOf wrapped tail) : Laid wrapped tail []
  | item {item : Item} {rest : List Item} (front : FrontOf wrapped item.front)
      (followed : Followed item.value (itemsText rest ++ tail)) (later : Laid wrapped tail rest) :
      Laid wrapped tail (item :: rest)

def kindOf (wrapped : Bool) : JSONKind := if wrapped then .jsonRestoreArray else .jsonRestoreSequence

theorem firstNonSpace_blank {text : Bytes} (blank : ∀ byte ∈ text, isSpace byte = true) : firstNonSpace text = none := by
  rw [firstNonSpace, findIdx?_eq_none_iff]
  intro byte member
  rw [blank byte member]
  rfl

theorem firstNonSpace_after {text : Bytes} (blank : ∀ byte ∈ text, isSpace byte = true) {first : UInt8}
    (solid : isSpace first = false) (rest : Bytes) : firstNonSpace (text ++ first :: rest) = some text.length := by
  have none := firstNonSpace_blank blank
  rw [firstNonSpace] at none
  rw [firstNonSpace, findIdx?_append, none, findIdx?_cons, solid]
  simp

theorem part_cases {part front rest : Bytes} {first : UInt8} (shown : part <+: front ++ first :: rest) :
    part <+: front ∨ ∃ more, part = front ++ first :: more ∧ more <+: rest := by
  rcases Nat.lt_or_ge front.length part.length with longer | within
  · obtain ⟨tail, rfl⟩ : front <+: part := prefix_of_prefix_length_le (prefix_append _ _) shown (Nat.le_of_lt longer)
    have there := (prefix_append_right_inj front).mp shown
    cases tail with
    | nil => simp at longer
    | cons byte more =>
      obtain ⟨rfl, later⟩ := cons_prefix_cons.mp there
      exact .inr ⟨more, rfl, later⟩
  · exact .inl (prefix_of_prefix_length_le shown (prefix_append _ _) within)

theorem isSeparator_parts {byte : UInt8} (plain : isSeparator byte = false) :
    isSpace byte = false ∧ byte ≠ comma ∧ byte ≠ closeArray := by
  simpa [isSeparator, and_assoc] using plain

section
variable {σ : Type} {engine : Engine σ} {writer : Writer σ} {wrapped : Bool}

section
variable (kind : writer.jsonKind = kindOf wrapped)
include kind

theorem turn_reads :
    turn engine writer = if wrapped then arrayTurn engine writer else sequenceTurn engine writer := by
  cases wrapped <;> simp [turn, kind, kindOf]

theorem turn_value {front rest : Bytes} (fronts : FrontOf wrapped front) (value : Value)
    (shown : writer.streamCarry <+: front ++ (value.text ++ rest)) :
    turn engine writer =
      if front.length < writer.streamCarry.length then takeValue engine writer front.length else .halt writer [] := by
  obtain ⟨first, others, whole, plain⟩ := value_first value
  obtain ⟨solid, no_comma, no_close⟩ := isSeparator_parts plain
  rw [whole, cons_append] at shown
  rw [turn_reads kind]
  rcases fronts with ⟨blank, rfl⟩ | ⟨rfl, one, two, rfl⟩
  · rcases part_cases shown with inside | ⟨more, carry, _⟩
    · have none := firstNonSpace_blank fun byte member => blank.blank byte (inside.mem member)
      have within := inside.length_le
      rw [if_neg (Nat.not_lt.mpr within)]
      cases wrapped <;> simp [arrayTurn, sequenceTurn, none]
    · have found := firstNonSpace_after blank.blank solid more
      rw [← carry] at found
      have there : writer.streamCarry[blank.text.length]? = some first := by simp [carry]
      have longer : blank.text.length < writer.streamCarry.length := by simp [carry]
      rw [if_pos longer]
      cases wrapped <;> simp [arrayTurn, sequenceTurn, found, there, no_comma, no_close]
  · rw [List.append_assoc, cons_append] at shown
    rcases part_cases shown with inside | ⟨more, carry, there⟩
    · have none := firstNonSpace_blank fun byte member => one.blank byte (inside.mem member)
      have within := inside.length_le
      have short : ¬ (one.text ++ comma :: two.text).length < writer.streamCarry.length := by
        rw [length_append]
        omega
      rw [if_neg short]
      simp [arrayTurn, none]
    · have solid_comma : isSpace comma = false := rfl
      have found := firstNonSpace_after one.blank solid_comma more
      rw [← carry] at found
      have here : writer.streamCarry[one.text.length]? = some comma := by simp [carry]
      have open_end : ¬ comma = closeArray := by decide
      have behind : writer.streamCarry.drop (one.text.length + 1) = more := by simp [carry]
      rcases part_cases there with inside | ⟨last, rfl, _⟩
      · have none := firstNonSpace_blank fun byte member => two.blank byte (inside.mem member)
        have within := inside.length_le
        have short : ¬ (one.text ++ comma :: two.text).length < writer.streamCarry.length := by
          rw [carry]
          simp only [length_append, length_cons]
          omega
        rw [if_neg short]
        simp [arrayTurn, found, here, open_end, behind, none]
      · have next := firstNonSpace_after two.blank solid last
        have value_there : writer.streamCarry[one.text.length + 1 + two.text.length]? = some first := by
          rw [carry, getElem?_append_right (by omega)]
          have place : one.text.length + 1 + two.text.length - one.text.length = two.text.length + 1 := by omega
          rw [place]
          simp
        have longer : (one.text ++ comma :: two.text).length < writer.streamCarry.length := by
          rw [carry]
          simp only [length_append, length_cons]
          omega
        have place : (one.text ++ comma :: two.text).length = one.text.length + 1 + two.text.length := by
          rw [length_append, length_cons]
          omega
        rw [if_pos longer, place]
        simp [arrayTurn, found, here, open_end, behind, next, value_there, no_close]

def valueTaken (engine : Engine σ) (writer : Writer σ) (item : Item) : Writer σ :=
  { writer with
    streamCarry := writer.streamCarry.drop item.text.length
    engine := (engine.push writer.engine item.frame).1
    handed := writer.handed ++ [item.frame] }

theorem turn_item {item : Item} {rest : Bytes} (fronts : FrontOf wrapped item.front)
    (followed : Followed item.value rest) (shown : writer.streamCarry <+: item.text ++ rest) :
    turn engine writer =
      if item.front.length + needed item.value ≤ writer.streamCarry.length then
        .again (valueTaken engine writer item) (engine.push writer.engine item.frame).2
      else .halt writer [] := by
  rw [Item.text, List.append_assoc] at shown
  have ends := completeJSONValueEnd_stream followed shown
  have positive := needed_pos item.value
  rw [turn_value kind fronts item.value shown]
  by_cases complete : item.front.length + needed item.value ≤ writer.streamCarry.length
  · rw [if_pos complete] at ends ⊢
    rw [if_pos (by omega), takeValue, ends]
    have size : item.front.length + item.value.text.length ≤ writer.streamCarry.length := by
      have most := text_le_needed item.value
      omega
    rw [← List.append_assoc] at shown
    have whole : item.front ++ item.value.text <+: writer.streamCarry := by
      refine prefix_of_prefix_length_le (prefix_append _ _) shown ?_
      rwa [length_append]
    obtain ⟨more, carry⟩ := whole
    have frame : (⟨writer.streamCarry.take item.front.length,
        (writer.streamCarry.take (item.front.length + item.value.text.length)).drop item.front.length⟩ : RestoreFrame) =
        item.frame := by
      rw [← carry, ← length_append, take_left, drop_left, List.append_assoc, take_left]
      rfl
    dsimp only
    rw [frame]
    simp only [valueTaken, Item.text, length_append]
  · rw [if_neg complete] at ends ⊢
    split
    · rw [takeValue, ends]
    · rfl

theorem turn_tail {tail : Bytes} (ended : TailOf wrapped tail)
    (shown : writer.streamCarry <+: tail) :
    turn engine writer = .halt writer [] ∨
      ∃ after out, turn engine writer = .again after out ∧ after.jsonKind = .jsonRestoreDone ∧ after.handed = writer.handed ∧
        after.streamRaw = writer.streamRaw := by
  rw [turn_reads kind]
  cases wrapped with
  | false =>
    obtain ⟨blank, rfl⟩ := ended
    have none := firstNonSpace_blank fun byte member => blank.blank byte (shown.mem member)
    exact .inl (by simp [sequenceTurn, none])
  | true =>
    obtain ⟨inside, rest, rfl⟩ := ended
    rcases part_cases shown with within | ⟨more, carry, _⟩
    · have none := firstNonSpace_blank fun byte member => inside.blank byte (within.mem member)
      exact .inl (by simp [arrayTurn, none])
    · have solid_close : isSpace closeArray = false := rfl
      have found := firstNonSpace_after inside.blank solid_close more
      rw [← carry] at found
      have here : writer.streamCarry[inside.text.length]? = some closeArray := by simp [carry]
      let closed := engine.terminal writer.engine (writer.streamCarry.take (inside.text.length + 1))
      let after : Writer σ := { writer with
        streamCarry := writer.streamCarry.drop (inside.text.length + 1), jsonKind := .jsonRestoreDone, engine := closed.1 }
      exact .inr ⟨after, closed.2, by simp [arrayTurn, found, here, after, closed], rfl, rfl, rfl⟩

end

variable {after : Writer σ}

theorem drain_halt {more out : Bytes} (halts : turn engine writer = .halt after more) :
    drain engine writer out = .ok (after, out ++ more) := by
  rw [drain]
  split <;> simp_all

theorem drain_again {more out : Bytes} (again : turn engine writer = .again after more) :
    drain engine writer out = drain engine after (out ++ more) := by
  rw [drain]
  split <;> simp_all

theorem drain_giveUp {out : Bytes} (gives : turn engine writer = .giveUp after) :
    drain engine writer out = .error (fallbackJSONStream engine after out) := by
  rw [drain]
  split <;> simp_all

theorem drain_congr {other : Writer σ} (same : turn engine writer = turn engine other) (out : Bytes) :
    drain engine writer out = drain engine other out := by
  cases found : turn engine other with
  | halt after more => rw [drain_halt (same.trans found), drain_halt found]
  | again after more => rw [drain_again (same.trans found), drain_again found]
  | giveUp after => rw [drain_giveUp (same.trans found), drain_giveUp found]

theorem drain_done (kind : writer.jsonKind = .jsonRestoreDone) (out : Bytes) :
    drain engine writer out = .ok ({ writer with streamCarry := [] }, out ++ writer.streamCarry) :=
  drain_halt (by simp [turn, kind])

/-- What the loop makes of some values: those that are all there are handed on. -/
structure Drained (wrapped : Bool) (items : List Item) (writer after : Writer σ) (passed left : List Item) : Prop where
  split : items = passed ++ left
  raw : after.streamRaw = writer.streamRaw
  handed : after.handed = writer.handed ++ passed.map Item.frame
  place : after.jsonKind = kindOf wrapped ∧ writer.streamCarry = itemsText passed ++ after.streamCarry ∨
    left = [] ∧ after.jsonKind = .jsonRestoreDone ∧ after.streamCarry = []
  waiting : ∀ item rest, left = item :: rest →
    writer.streamCarry.length < (itemsText passed ++ item.front).length + needed item.value
  held : ∀ before item rest, passed = before ++ item :: rest →
    (itemsText before ++ item.front).length + needed item.value ≤ writer.streamCarry.length

theorem Drained.behind {items passed left : List Item} {item : Item} {more : Bytes}
    (drained : Drained wrapped items (valueTaken engine writer item) after passed left)
    (carry : item.text ++ more = writer.streamCarry) (behind : (valueTaken engine writer item).streamCarry = more)
    (complete : item.front.length + needed item.value ≤ writer.streamCarry.length) :
    Drained wrapped (item :: items) writer after (item :: passed) left := by
  have first : itemsText (item :: passed) = item.text ++ itemsText passed := rfl
  refine ⟨congrArg (item :: ·) drained.split, drained.raw, ?handed, ?place, ?waiting, ?held⟩
  case handed =>
    rw [drained.handed]
    simp [valueTaken]
  case place =>
    refine drained.place.imp_left fun ⟨kind, rest⟩ => ⟨kind, ?_⟩
    rw [← carry, first, List.append_assoc, ← rest, behind]
  case waiting =>
    intro other rest found
    have short := drained.waiting other rest found
    rw [behind] at short
    rw [← carry, first]
    simp only [length_append] at short ⊢
    omega
  case held =>
    intro before other rest found
    cases before with
    | nil =>
      obtain ⟨rfl, -⟩ := List.cons.inj found
      simpa [itemsText] using complete
    | cons own before =>
      obtain ⟨rfl, tail⟩ := List.cons.inj found
      have inside := drained.held before other rest tail
      have front : itemsText (item :: before) = item.text ++ itemsText before := rfl
      rw [behind] at inside
      rw [← carry, front]
      simp only [length_append] at inside ⊢
      omega

theorem drain_laid {tail : Bytes} {items : List Item} (laid : Laid wrapped tail items) (kind : writer.jsonKind = kindOf wrapped)
    (shown : writer.streamCarry <+: itemsText items ++ tail) (out : Bytes) :
    ∃ after given passed left, drain engine writer out = .ok (after, given) ∧ Drained wrapped items writer after passed left := by
  induction laid generalizing writer out with
  | ended ended =>
    rcases turn_tail kind ended shown with halts | ⟨after, more, again, done, handed, raw⟩
    · refine ⟨writer, _, [], [], drain_halt halts, rfl, rfl, by simp, .inl ⟨kind, rfl⟩, ?_, ?_⟩
      · intro item rest contra
        cases contra
      · intro before item rest contra
        simp at contra
    · have drains := (drain_again again).trans (drain_done done (out ++ more))
      refine ⟨_, _, [], [], drains, rfl, raw, by simp [handed], .inr ⟨rfl, done, rfl⟩, ?_, ?_⟩
      · intro item rest contra
        cases contra
      · intro before item rest contra
        simp at contra
  | @item item rest front followed later ih =>
    have whole : itemsText (item :: rest) ++ tail = item.text ++ (itemsText rest ++ tail) := List.append_assoc _ _ _
    rw [whole] at shown
    have read := @turn_item σ engine writer wrapped kind item _ front followed shown
    by_cases complete : item.front.length + needed item.value ≤ writer.streamCarry.length
    · rw [if_pos complete] at read
      have size : item.text.length ≤ writer.streamCarry.length := by
        have most := text_le_needed item.value
        rw [Item.text, length_append]
        omega
      obtain ⟨more, carry⟩ : item.text <+: writer.streamCarry :=
        prefix_of_prefix_length_le (prefix_append _ _) shown size
      have behind : (valueTaken engine writer item).streamCarry = more := by
        rw [valueTaken, ← carry]
        exact drop_left
      have there : (valueTaken engine writer item).streamCarry <+: itemsText rest ++ tail := by
        rw [behind]
        rw [← carry] at shown
        exact (prefix_append_right_inj _).mp shown
      obtain ⟨after, given, passed, left, drains, drained⟩ :=
        @ih (valueTaken engine writer item) kind there (out ++ (engine.push writer.engine item.frame).2)
      refine ⟨after, given, item :: passed, left, (drain_again read).trans drains, ?_⟩
      exact drained.behind carry behind complete
    · rw [if_neg complete] at read
      refine ⟨writer, _, [], item :: rest, drain_halt read, rfl, rfl, by simp, .inl ⟨kind, rfl⟩, ?_, ?_⟩
      · rintro _ _ ⟨⟩
        simpa [itemsText] using complete
      · intro before other rest contra
        simp at contra

end

/-! ### The layout of a stream -/

theorem followed_blank (value : Value) (blank : Blank) {rest : Bytes}
    (later : ∀ byte, rest.head? = some byte → isSeparator byte = true) : Followed value (blank.text ++ rest) := by
  intro _ byte head
  cases text : blank.text with
  | nil =>
    rw [text] at head
    exact later byte head
  | cons first others =>
    rw [text] at head
    have space := blank.blank byte (by rw [text, ← Option.some.inj head]; exact mem_cons_self)
    simp [isSeparator, space]

theorem elementItems_text (front : Bytes) (elements : Elements) : ∃ more, itemsText (elementItems front elements) = front ++ more := by
  cases elements with
  | last before value after => exact ⟨before.text ++ value.text, by simp [elementItems, itemsText, Item.text]⟩
  | cons before value after rest =>
    exact ⟨before.text ++ value.text ++ itemsText (elementItems (after.text ++ [comma]) rest), by
      simp [elementItems, itemsText, Item.text]⟩

theorem frontOf_elements {front : Bytes} (before : Blank) (fronts : front = [] ∨ ∃ blank : Blank, front = blank.text ++ [comma]) :
    FrontOf true (front ++ before.text) := by
  rcases fronts with rfl | ⟨blank, rfl⟩
  · exact .inl ⟨before, rfl⟩
  · exact .inr ⟨rfl, blank, before, by simp⟩

theorem laid_elements (after : Blank) : (elements : Elements) → (front : Bytes) →
    (front = [] ∨ ∃ blank : Blank, front = blank.text ++ [comma]) →
    Laid true ((lastBlank elements).text ++ closeArray :: after.text) (elementItems front elements)
  | .last before value last, front, fronts => by
    refine .item (frontOf_elements before fronts) ?_ (.ended ⟨last, _, rfl⟩)
    exact followed_blank value last fun byte head => by rw [← Option.some.inj head]; rfl
  | .cons before value behind rest, front, fronts => by
    refine .item (frontOf_elements before fronts) ?_ (laid_elements after rest _ (.inr ⟨behind, rfl⟩))
    obtain ⟨more, text⟩ := elementItems_text (behind.text ++ [comma]) rest
    rw [text, List.append_assoc, List.append_assoc]
    exact followed_blank value behind fun byte head => by rw [← Option.some.inj head]; rfl

theorem laid_sequence (after : Blank) {front : Bytes} (fronts : ∃ blank : Blank, front = blank.text) (first : Value)
    (rest : List (Separator × Value)) (spaced : ∀ item ∈ rest, ∃ blank some, item.1 = .spaced blank some) :
    Laid false after.text (⟨front, first⟩ :: rest.map fun item => ⟨item.1.text, item.2⟩) := by
  induction rest generalizing front first with
  | nil =>
    refine .item (.inl fronts) ?_ (.ended ⟨after, rfl⟩)
    have followed := @followed_blank first after [] fun byte head => by cases head
    rwa [append_nil] at followed
  | cons item rest ih =>
    obtain ⟨separator, value⟩ := item
    obtain ⟨blank, some, rfl⟩ := spaced (separator, value) mem_cons_self
    have later := ih ⟨blank, rfl⟩ value fun other listed => spaced other (mem_cons_of_mem _ listed)
    refine .item (.inl fronts) ?_ later
    intro _ byte head
    obtain ⟨space, others, text⟩ := exists_cons_of_ne_nil some
    have here : byte = space := by
      simp only [map_cons, itemsText, flatMap_cons, Item.text, Separator.text, text, cons_append,
        head?_cons, Option.some.injEq] at head
      exact head.symm
    have known := blank.blank space (by rw [text]; exact mem_cons_self)
    rw [here]
    simp [isSeparator, known]

namespace JSONStream

def wrapped : JSONStream → Bool
  | emptyArray .. | array .. => true
  | sequence .. => false

theorem laid {stream : JSONStream} (readable : stream.Readable) : Laid stream.wrapped stream.tail stream.items := by
  cases stream with
  | emptyArray before inside after => exact .ended ⟨inside, _, rfl⟩
  | array before elements after => exact laid_elements after elements [] (.inl rfl)
  | sequence before first rest after => exact laid_sequence after ⟨before, rfl⟩ first rest readable.2

end JSONStream

theorem Laid.suffix {wrapped : Bool} {tail : Bytes} {passed left : List Item} (laid : Laid wrapped tail (passed ++ left)) :
    Laid wrapped tail left := by
  induction passed with
  | nil => exact laid
  | cons item passed ih =>
    cases laid with
    | item _ _ later => exact ih later

/-! ### Chunks -/

section
variable {σ : Type} {engine : Engine σ} {stream : JSONStream} {received : Bytes} {writer : Writer σ} {passed left : List Item}

inductive Place (stream : JSONStream) (received : Bytes) (writer : Writer σ) (passed left : List Item) : Prop where
  | unknown (kind : writer.jsonKind = .jsonRestoreUnknown) (none : passed = []) (carry : writer.streamCarry = received)
  | reading (kind : writer.jsonKind = kindOf stream.wrapped)
      (carry : received = stream.lead ++ (itemsText passed ++ writer.streamCarry))
  | done (kind : writer.jsonKind = .jsonRestoreDone) (all : left = []) (carry : writer.streamCarry = [])

/-- The values of the stream that were handed on, and those that are left. -/
structure Progress (stream : JSONStream) (received : Bytes) (writer : Writer σ) (passed left : List Item) : Prop where
  split : stream.items = passed ++ left
  raw : writer.streamRaw = false
  handed : writer.handed = passed.map Item.frame
  place : Place stream received writer passed left
  waiting : ∀ item rest, left = item :: rest →
    received.length < (stream.lead ++ (itemsText passed ++ item.front)).length + needed item.value
  held : ∀ before item rest, passed = before ++ item :: rest →
    (stream.lead ++ (itemsText before ++ item.front)).length + needed item.value ≤ received.length

theorem Progress.handedOn (progress : Progress stream received writer passed left) : HandedOn stream received writer.handed := by
  refine ⟨?_, fun before item after split => ?_⟩
  · rw [progress.handed, progress.split, map_append]
    exact prefix_append _ _
  · rw [progress.handed, length_map]
    have same : passed ++ left = before ++ item :: after := progress.split.symm.trans split
    rcases append_eq_append_iff.mp same with ⟨skipped, rfl, rest⟩ | ⟨more, rfl, rest⟩
    · -- The value is among those that are left.
      have outside : ¬ (passed ++ skipped).length < passed.length := by
        rw [length_append]
        omega
      refine iff_of_false outside ?_
      have positive := needed_pos item.value
      cases skipped with
      | nil =>
        have short := progress.waiting item after rest
        simpa using short
      | cons next skipped =>
        have short := progress.waiting next (skipped ++ item :: after) rest
        have most : needed next.value ≤ next.value.text.length + 1 := by
          rw [needed]
          split <;> omega
        have through : itemsText (passed ++ next :: skipped) = itemsText passed ++ (next.front ++ next.value.text ++ itemsText skipped) := by
          simp [itemsText, Item.text]
        rw [through]
        simp only [length_append] at short ⊢
        omega
    · cases more with
      | nil =>
        have short := progress.waiting item after (by simpa using rest.symm)
        rw [append_nil] at short ⊢
        exact iff_of_false (Nat.lt_irrefl _) (Nat.not_le.mpr short)
      | cons own more =>
        obtain ⟨rfl, tail⟩ := List.cons.inj rest
        have whole := progress.held before item more rfl
        refine iff_of_true ?_ whole
        simp

theorem Progress.drained {start after : Writer σ} {more rest : List Item} (split : stream.items = passed ++ left)
    (handed : start.handed = passed.map Item.frame) (raw : start.streamRaw = false)
    (carry : received = stream.lead ++ (itemsText passed ++ start.streamCarry))
    (held : ∀ before item rest, passed = before ++ item :: rest →
      (stream.lead ++ (itemsText before ++ item.front)).length + needed item.value ≤ received.length)
    (drained : Drained stream.wrapped left start after more rest) : Progress stream received after (passed ++ more) rest := by
  have joined : ∀ items, itemsText (passed ++ items) = itemsText passed ++ itemsText items := fun items => flatMap_append
  refine ⟨?split, drained.raw.trans raw, ?handed, ?place, ?waiting, ?held⟩
  case split => rw [split, drained.split, List.append_assoc]
  case handed => rw [drained.handed, handed, map_append]
  case place =>
    rcases drained.place with ⟨kind, used⟩ | ⟨all, done, empty⟩
    · refine .reading kind ?_
      rw [carry, used, joined, List.append_assoc]
    · exact .done done all empty
  case waiting =>
    intro item behind found
    have short := drained.waiting item behind found
    rw [carry, joined]
    simp only [length_append] at short ⊢
    omega
  case held =>
    intro before item behind found
    rcases append_eq_append_iff.mp found with ⟨skipped, rfl, there⟩ | ⟨own, rfl, there⟩
    · have inside := drained.held skipped item behind there
      rw [carry, joined]
      simp only [length_append] at inside ⊢
      omega
    · cases own with
      | nil =>
        have inside := drained.held [] item behind (by simpa using there.symm)
        rw [carry]
        simp only [itemsText, flatMap_nil, nil_append, append_nil, length_append] at inside ⊢
        omega
      | cons other own =>
        obtain ⟨rfl, _⟩ := List.cons.inj there
        exact held before item own rfl

section
variable (readable : stream.Readable)
include readable

theorem stream_first : ∃ (blank : Blank) (first : UInt8) (rest : Bytes),
    stream.text = blank.text ++ first :: rest ∧
      (∀ item items, stream.items = item :: items → blank.text.length ≤ (stream.lead ++ item.front).length) ∧
      (stream.wrapped = true ∧ first = openArray ∧ stream.lead = blank.text ++ [openArray] ∨
        stream.wrapped = false ∧ first = openObject ∧ stream.lead = []) := by
  have enclosed : ∀ (before : Blank) (tail : Bytes), (before.text ++ [openArray]) ++ tail = before.text ++ openArray :: tail :=
    fun before tail => by simp
  cases stream with
  | emptyArray before inside after =>
    refine ⟨before, openArray, _, enclosed before _, fun item items contra => ?_, .inl ⟨rfl, rfl, rfl⟩⟩
    cases contra
  | array before elements after =>
    refine ⟨before, openArray, _, enclosed before _, fun item _ _ => ?_, .inl ⟨rfl, rfl, rfl⟩⟩
    simp only [JSONStream.lead, length_append]
    omega
  | sequence before first rest after =>
    obtain ⟨others, whole⟩ := head?_eq_some_iff.mp readable.1
    refine ⟨before, openObject, others ++ (itemsText (rest.map fun item => ⟨item.1.text, item.2⟩) ++ after.text), ?_, ?_,
      .inr ⟨rfl, rfl, rfl⟩⟩
    · simp [JSONStream.text, JSONStream.lead, JSONStream.items, JSONStream.tail, itemsText, Item.text, whole]
    · rintro item items ⟨⟩
      simp [JSONStream.lead]

section
variable (progress : Progress stream received writer passed left)
include progress

theorem Progress.step {chunk : Bytes}
    (shown : received ++ chunk <+: stream.text) :
    ∃ after given more rest, drain engine { writer with streamCarry := writer.streamCarry ++ chunk } [] = .ok (after, given) ∧
      Progress stream (received ++ chunk) after more rest := by
  have laid := JSONStream.laid readable
  have held : ∀ before item rest, passed = before ++ item :: rest →
      (stream.lead ++ (itemsText before ++ item.front)).length + needed item.value ≤ (received ++ chunk).length := by
    intro before item rest found
    have inside := progress.held before item rest found
    have longer : (received ++ chunk).length = received.length + chunk.length := length_append
    omega
  -- The values that are left are read on from a writer that has handed on the others.
  have reads : ∀ start : Writer σ, start.jsonKind = kindOf stream.wrapped → start.handed = passed.map Item.frame →
      start.streamRaw = false → received ++ chunk = stream.lead ++ (itemsText passed ++ start.streamCarry) → ∀ out,
      ∃ after given more rest, drain engine start out = .ok (after, given) ∧
        Progress stream (received ++ chunk) after more rest := by
    intro start kind handed raw carry out
    have joined : stream.text = stream.lead ++ (itemsText passed ++ (itemsText left ++ stream.tail)) := by
      rw [JSONStream.text, progress.split, itemsText, flatMap_append, List.append_assoc]
      rfl
    rw [carry, joined] at shown
    have there := (prefix_append_right_inj _).mp ((prefix_append_right_inj _).mp shown)
    rw [progress.split] at laid
    obtain ⟨after, given, more, rest, drains, drained⟩ := @drain_laid σ engine start _ _ _ laid.suffix kind there out
    exact ⟨after, given, passed ++ more, rest, drains, .drained progress.split handed raw carry held drained⟩
  cases progress.place with
  | reading kind carry =>
    have whole : received ++ chunk = stream.lead ++ (itemsText passed ++ (writer.streamCarry ++ chunk)) := by simp [carry]
    exact reads { writer with streamCarry := writer.streamCarry ++ chunk } kind progress.handed progress.raw whole []
  | done kind all empty =>
    have drains : drain engine { writer with streamCarry := writer.streamCarry ++ chunk } [] =
        .ok ({ writer with streamCarry := [] }, [] ++ (writer.streamCarry ++ chunk)) :=
      @drain_done σ engine { writer with streamCarry := writer.streamCarry ++ chunk } kind []
    refine ⟨_, _, passed, left, drains, progress.split, progress.raw, progress.handed, .done kind all rfl, ?_, held⟩
    intro item rest contra
    rw [all] at contra
    cases contra
  | unknown kind none carry =>
    subst none
    obtain ⟨blank, first, others, whole, fronts, start⟩ := stream_first readable
    rw [whole] at shown
    rw [carry]
    rcases part_cases shown with inside | ⟨more, past, _⟩
    · have nothing := firstNonSpace_blank fun byte member => blank.blank byte (inside.mem member)
      have halts : turn engine { writer with streamCarry := received ++ chunk } =
          .halt { writer with streamCarry := received ++ chunk } [] := by simp [turn, kind, nothing]
      refine ⟨_, _, [], left, drain_halt halts, progress.split, progress.raw, progress.handed, .unknown kind rfl rfl, ?_, held⟩
      intro item rest found
      have least := fronts item rest (progress.split.trans found)
      have most := inside.length_le
      have positive := needed_pos item.value
      simp only [itemsText, flatMap_nil, nil_append]
      omega
    · have solid : isSpace first = false := by
        rcases start with ⟨_, rfl, _⟩ | ⟨_, rfl, _⟩ <;> rfl
      have found := firstNonSpace_after blank.blank solid more
      have there : (blank.text ++ first :: more)[blank.text.length]? = some first := by simp
      rw [past]
      rcases start with ⟨wrapped, rfl, lead⟩ | ⟨plain, rfl, lead⟩
      · have again : turn engine { writer with streamCarry := blank.text ++ openArray :: more } =
            .again { writer with streamCarry := more, jsonKind := .jsonRestoreArray } (blank.text ++ [openArray]) := by
          have taken : (blank.text ++ openArray :: more).take (blank.text.length + 1) = blank.text ++ [openArray] := by
            rw [take_length_add_append]
            rfl
          simp [turn, kind, found, taken]
        have next := reads { writer with streamCarry := more, jsonKind := .jsonRestoreArray } (by rw [wrapped]; rfl)
          progress.handed progress.raw (by rw [past, lead]; simp [itemsText]) ([] ++ (blank.text ++ [openArray]))
        rw [drain_again again]
        rw [past] at next
        exact next
      · have distinct : ¬ openObject = openArray := by decide
        have same : turn engine { writer with streamCarry := blank.text ++ openObject :: more } =
            turn engine { writer with streamCarry := blank.text ++ openObject :: more, jsonKind := .jsonRestoreSequence } := by
          simp [turn, kind, found, distinct]
        have next := reads { writer with streamCarry := blank.text ++ openObject :: more, jsonKind := .jsonRestoreSequence }
          (by rw [plain]; rfl) progress.handed progress.raw (by rw [past, lead]; simp [itemsText]) []
        rw [drain_congr same]
        rw [past] at next
        exact next

theorem Progress.push {chunk : Bytes}
    {rest : List Bytes} (shown : received ++ chunk <+: stream.text) (room : roomy engine writer (chunk :: rest) = true) :
    ∃ more behind, Progress stream (received ++ chunk) (pushJSONStream engine writer chunk false).1 more behind ∧
      roomy engine (pushJSONStream engine writer chunk false).1 rest = true := by
  obtain ⟨after, given, more, behind, drains, progressed⟩ := @Progress.step σ engine stream received writer passed left readable
    progress chunk shown
  rw [roomy, drains, Bool.and_eq_true, decide_eq_true_iff] at room
  refine ⟨more, behind, ?_, room.2⟩
  have pushed : pushJSONStream engine writer chunk false = (after, given) := by
    have live : ¬ writer.streamRaw = true := by simp [progress.raw]
    rw [pushJSONStream, if_neg live, drains]
    simp [Nat.not_lt.mpr room.1]
  rw [pushed]
  exact progressed

theorem Progress.pushAll {chunks : List Bytes}
    (shown : received ++ chunks.flatten <+: stream.text) (room : roomy engine writer chunks = true) :
    ∃ more behind, Progress stream (received ++ chunks.flatten) (pushAll engine writer chunks) more behind := by
  induction chunks generalizing received writer passed left with
  | nil =>
    rw [flatten_nil, append_nil]
    exact ⟨passed, left, progress⟩
  | cons chunk chunks ih =>
    rw [flatten_cons, ← List.append_assoc] at shown ⊢
    obtain ⟨more, behind, progressed, roomed⟩ := progress.push readable ((prefix_append _ _).trans shown) room
    exact ih progressed shown roomed

theorem Progress.finished
    (shown : received <+: stream.text) : HandedOn stream received (pushJSONStream engine writer [] true).1.handed := by
  obtain ⟨after, given, more, behind, drains, progressed⟩ := @Progress.step σ engine stream received writer passed left readable
    progress [] (by rwa [append_nil])
  rw [append_nil] at progressed
  have kept : (pushJSONStream engine writer [] true).1.handed = after.handed := by
    have live : ¬ writer.streamRaw = true := by simp [progress.raw]
    rw [pushJSONStream, if_neg live, drains]
    simp only [if_true]
    split <;> rfl
  rw [kept]
  exact progressed.handedOn

end

end

theorem progress_initial (stream : JSONStream) (state : σ) : Progress stream [] (.initial state) [] stream.items := by
  refine ⟨rfl, rfl, rfl, .unknown rfl rfl rfl, ?_, ?_⟩
  · intro item rest _
    have positive := needed_pos item.value
    simp only [length_nil]
    omega
  · intro before item rest contra
    simp at contra

end

/-- On any part of a stream a value is found complete exactly when all of it is there, with its end, and is never found
invalid; so after any chunks that stay within the limit the values that came whole have been handed on, each once and in
order, and the end of the body adds none. -/
theorem hands_on :
    (∀ (front rest part : Bytes) (value : Value), Followed value rest → part <+: front ++ (value.text ++ rest) →
        completeJSONValueEnd part front.length =
          if front.length + needed value ≤ part.length then .complete (front.length + value.text.length) else .incomplete) ∧
      ∀ {σ : Type} (engine : Engine σ) (state : σ) (stream : JSONStream) (chunks : List Bytes), stream.Readable →
        chunks.flatten <+: stream.text → roomy engine (.initial state) chunks = true →
          HandedOn stream chunks.flatten (pushAll engine (.initial state) chunks).handed ∧
            HandedOn stream chunks.flatten (pushJSONStream engine (pushAll engine (.initial state) chunks) [] true).1.handed := by
  refine ⟨fun front rest part value followed shown => completeJSONValueEnd_stream followed shown, ?_⟩
  intro σ engine state stream chunks readable shown room
  obtain ⟨more, behind, progressed⟩ := (progress_initial stream state).pushAll readable shown room
  exact ⟨progressed.handedOn, progressed.finished readable shown⟩

/-! ### Streams that are given up -/

/-- An engine that writes every value as it is. -/
def idle : Engine Unit where
  push _ frame := ((), frame.front ++ frame.jsonData)
  terminal _ raw := ((), raw)
  finish _ := ((), [])
  abort _ := ((), [])
  fallback _ := ()
  queueBytes _ := 0

def noBlank : Blank := ⟨[], by simp⟩

def oneSpace : Blank := ⟨[0x20], by simp [isSpace]⟩

def digit (byte : UInt8) (digit : isDigit byte = true) : Value :=
  .number ⟨[], [byte], none, none, .inl rfl, by simp [digit], by simp⟩

def pair : JSONStream :=
  .array noBlank (.cons noBlank (.emptyObject noBlank) noBlank (.last oneSpace (digit 0x31 rfl) noBlank)) noBlank

theorem hands_on_pair : HandedOn pair pair.text (pushAll idle (.initial ()) [pair.text.take 3, pair.text.drop 3]).handed ∧
    completeJSONValueEnd pair.text 1 = .complete 3 := by
  constructor
  · have all : [pair.text.take 3, pair.text.drop 3].flatten = pair.text := by simp
    have given := (hands_on.2 idle () pair [pair.text.take 3, pair.text.drop 3] trivial
      (all ▸ prefix_refl _) (by decide +kernel)).1
    rwa [all] at given
  · exact hands_on.1 [openArray] (pair.text.drop 3) pair.text (.emptyObject noBlank) (fun contra => by cases contra)
      (by decide +kernel)

def numbers : JSONStream := .sequence noBlank (digit 0x31 rfl) [(.spaced oneSpace (by decide), digit 0x32 rfl)] noBlank

def commas : JSONStream :=
  .sequence noBlank (.emptyObject noBlank) [(.commaSeparated noBlank noBlank, .emptyObject noBlank)] noBlank

def longString (length : Nat) : JSONStream :=
  .array noBlank (.last noBlank (.string (List.replicate length (.plain 0x61 rfl))) noBlank) noBlank

/-- The text of the array, cut in front of the quote that closes the string. -/
def longChunks (length : Nat) : List Bytes :=
  [openArray :: quote :: List.replicate length 0x61, [quote, closeArray]]

theorem longContent (length : Nat) :
    contentText (List.replicate length (.plain 0x61 rfl)) = List.replicate length 0x61 := by
  simp [contentText, Piece.text, flatMap_replicate]

theorem longString_text (length : Nat) : (longChunks length).flatten = (longString length).text := by
  simp [longChunks, longString, JSONStream.text, JSONStream.lead, JSONStream.items, JSONStream.tail, elementItems, lastBlank,
    itemsText, Item.text, Value.text, stringText, longContent, noBlank]

theorem long_given_up {length : Nat} (long : maxQueuedRestoreBytes ≤ length) :
    ¬ HandedOn (longString length) (longString length).text (pushAll idle (.initial ()) (longChunks length)).handed := by
  let value : Value := .string (List.replicate length (.plain 0x61 rfl))
  let opened : Writer Unit := ⟨false, quote :: List.replicate length 0x61, .jsonRestoreArray, (), []⟩
  have text : value.text = quote :: (List.replicate length 0x61 ++ [quote]) := by
    rw [Value.text, stringText, longContent]
  have size : needed value = length + 2 := by simp [needed, scalarText, text, value]
  have first : turn idle { (Writer.initial () : Writer Unit) with streamCarry := openArray :: quote :: List.replicate length 0x61 } =
      .again opened [openArray] := by
    have none : firstNonSpace (openArray :: quote :: List.replicate length 0x61) = some 0 := by
      simp [firstNonSpace, findIdx?_cons, isSpace, openArray]
    simp [turn, Writer.initial, none, opened]
  have second : turn idle opened = .halt opened [] := by
    have shown : opened.streamCarry <+: (⟨[], value⟩ : Item).text ++ [closeArray] :=
      ⟨[quote, closeArray], by simp [opened, Item.text, text]⟩
    have followed : Followed value [closeArray] := fun contra => by cases contra
    have read := @turn_item Unit idle opened true rfl ⟨[], value⟩ [closeArray] (.inl ⟨noBlank, rfl⟩) followed shown
    rw [read, if_neg]
    simp [size, opened]
  have drains : drain idle { (Writer.initial () : Writer Unit) with
      streamCarry := openArray :: quote :: List.replicate length 0x61 } [] = .ok (opened, [openArray]) := by
    rw [drain_again first, drain_halt second]
    rfl
  have raw : (pushJSONStream idle (.initial ()) (openArray :: quote :: List.replicate length 0x61) false).1 =
      (fallbackJSONStream idle opened [openArray]).1 := by
    have live : ¬ (Writer.initial () : Writer Unit).streamRaw = true := by simp [Writer.initial]
    have beyond : maxQueuedRestoreBytes < opened.streamCarry.length + idle.queueBytes opened.engine := by
      simp only [opened, length_cons, length_replicate, idle]
      omega
    have start : (Writer.initial () : Writer Unit).streamCarry ++ openArray :: quote :: List.replicate length 0x61 =
        openArray :: quote :: List.replicate length 0x61 := rfl
    rw [pushJSONStream, if_neg live, start, drains]
    dsimp only
    rw [if_pos beyond]
  have none : (pushAll idle (.initial ()) (longChunks length)).handed = [] := by
    rw [pushAll, longChunks, foldl_cons, raw]
    rfl
  intro handed
  have held := handed.2 [] ⟨[], value⟩ [] rfl
  rw [none, ← longString_text] at held
  have whole : ((longString length).lead ++ (itemsText [] ++ ([] : Bytes))).length + needed value ≤ (longChunks length).flatten.length := by
    rw [size]
    simp only [longString, JSONStream.lead, noBlank, itemsText, longChunks, flatMap_nil, nil_append, length_append,
      length_cons, length_nil, flatten_cons, flatten_nil, append_nil, length_replicate]
    omega
  exact absurd (held.mpr whole) (Nat.lt_irrefl _)

theorem given_up :
    ¬ HandedOn numbers numbers.text (pushAll idle (.initial ()) [numbers.text]).handed ∧
      ¬ HandedOn commas commas.text (pushAll idle (.initial ()) [commas.text]).handed ∧
      ¬ HandedOn (longString maxQueuedRestoreBytes) (longChunks maxQueuedRestoreBytes).flatten
        (pushAll idle (.initial ()) (longChunks maxQueuedRestoreBytes)).handed := by
  refine ⟨?_, ?_, ?_⟩
  · intro handed
    have first := handed.2 [] _ _ rfl
    revert first
    decide +kernel
  · intro handed
    have second := handed.2 [⟨[], .emptyObject noBlank⟩] _ _ rfl
    revert second
    decide +kernel
  · rw [longString_text]
    exact long_given_up (Nat.le_refl _)

end AstrLink.JsonStreams
