import Mathlib.Data.List.DropRight
import AstrLink.DecodedPaths

/-!
The spans that are read off a path. On a path that keeps the tag rules no decoder reports an invalid one, and
spans come in the order of the tokens (`Reads.pairwise`).
-/
namespace AstrLink.TokenDecoder
open List
open Option (bind_eq_some_iff map_eq_some_iff some.inj)

theorem utf8Size_pos (character : Char) : 0 < character.utf8Size := Char.utf8Size_pos character

theorem byteLength_append (front back : List Char) : byteLength (front ++ back) = byteLength front + byteLength back := by
  induction front with
  | nil => rw [nil_append, byteLength, Nat.zero_add]
  | cons character front ih => rw [cons_append, byteLength, byteLength, ih, Nat.add_assoc]

variable {text : List Char}

theorem dropBytes_some {rest : List Char} :
    ∀ {count : Nat}, dropBytes count text = some rest → ∃ front, text = front ++ rest ∧ byteLength front = count := by
  induction text with
  | nil =>
    intro count found
    rw [dropBytes] at found
    split at found
    · rename_i none_left
      exact ⟨[], some.inj found, none_left.symm⟩
    · cases found
  | cons character text ih =>
    intro count found
    rw [dropBytes] at found
    split at found
    · rename_i none_left
      exact ⟨[], some.inj found, none_left.symm⟩
    · split at found
      · obtain ⟨front, rfl, counted⟩ := ih found
        refine ⟨character :: front, rfl, ?_⟩
        rw [byteLength, counted]
        omega
      · cases found

theorem takeBytes_some :
    ∀ {count : Nat} {value : List Char}, takeBytes count text = some value →
      ∃ rest, text = value ++ rest ∧ byteLength value = count := by
  induction text with
  | nil =>
    intro count value found
    rw [takeBytes] at found
    split at found
    · rename_i none_left
      rw [← some.inj found]
      exact ⟨[], rfl, none_left.symm⟩
    · cases found
  | cons character text ih =>
    intro count value found
    rw [takeBytes] at found
    split at found
    · rename_i none_left
      rw [← some.inj found]
      exact ⟨character :: text, rfl, none_left.symm⟩
    · split at found
      · obtain ⟨taken, below, rfl⟩ := map_eq_some_iff.mp found
        obtain ⟨rest, rfl, counted⟩ := ih below
        refine ⟨rest, rfl, ?_⟩
        rw [byteLength, counted]
        omega
      · cases found

/-- A slice that loses the blanks around it. -/
structure Trimmed (text : List Char) (start stop trimmedStart trimmedStop : Nat) : Prop where
  parts : ∃ before lead kept trail after, text = before ++ (lead ++ (kept ++ (trail ++ after))) ∧
    byteLength before = start ∧ trimmedStart = start + byteLength lead ∧ trimmedStop = trimmedStart + byteLength kept ∧
    stop = trimmedStop + byteLength trail ∧ (∀ character ∈ lead, isBlank character) ∧
    (∀ character ∈ trail, isBlank character) ∧ (∀ character ∈ kept.head?, ¬ isBlank character) ∧
    ∀ character ∈ kept.getLast?, ¬ isBlank character

variable {start stop trimmedStart trimmedStop : Nat}

theorem trimmedBounds_some (found : trimmedBounds text start stop = some (trimmedStart, trimmedStop)) :
    Trimmed text start stop trimmedStart trimmedStop := by
  unfold trimmedBounds at found
  obtain ⟨value, sliced, bounds⟩ := map_eq_some_iff.mp found
  unfold sliceBytes at sliced
  split at sliced
  · cases sliced
  · obtain ⟨rest, dropped, taken⟩ := bind_eq_some_iff.mp sliced
    obtain ⟨before, rfl, startCount⟩ := dropBytes_some dropped
    obtain ⟨after, rfl, valueCount⟩ := takeBytes_some taken
    dsimp only at bounds
    have leadSplit := takeWhile_append_dropWhile (p := isBlank) (l := value)
    have trailSplit : (value.dropWhile isBlank).rdropWhile isBlank ++ (value.dropWhile isBlank).rtakeWhile isBlank =
        value.dropWhile isBlank := rdropWhile_append_rtakeWhile
    have counted : byteLength value = byteLength (value.takeWhile isBlank) + byteLength (value.dropWhile isBlank) := by
      rw [← byteLength_append, leadSplit]
    have rest : byteLength (value.dropWhile isBlank) =
        byteLength ((value.dropWhile isBlank).rdropWhile isBlank) +
          byteLength ((value.dropWhile isBlank).rtakeWhile isBlank) := by
      rw [← byteLength_append, trailSplit]
    cases bounds
    refine ⟨before, value.takeWhile isBlank, (value.dropWhile isBlank).rdropWhile isBlank,
      (value.dropWhile isBlank).rtakeWhile isBlank, after, ?_, startCount, ?_, rfl, ?_, ?_, ?_, ?_, ?_⟩
    · rw [← List.append_assoc (List.rdropWhile _ _), trailSplit, ← List.append_assoc (List.takeWhile _ _), leadSplit]
    · omega
    · show stop = start + _ + byteLength ((value.dropWhile isBlank).rdropWhile isBlank) + _
      omega
    · intro character member
      exact mem_takeWhile_imp member
    · intro character member
      exact mem_rtakeWhile_imp member
    · intro character first blank
      have nonempty : (value.dropWhile isBlank).rdropWhile isBlank ≠ [] := by
        intro empty
        rw [empty] at first
        cases first
      have sameHead : (value.dropWhile isBlank).head? = some character := by
        rw [← trailSplit, head?_append_of_ne_nil _ nonempty]
        exact first
      have notBlank := head?_dropWhile_not isBlank value
      rw [sameHead] at notBlank
      dsimp only at notBlank
      rw [blank] at notBlank
      cases notBlank
    · intro character last blank
      have reversed : ((value.dropWhile isBlank).reverse.dropWhile isBlank).head? = some character := by
        rw [← getLast?_reverse]
        exact last
      have notBlank := head?_dropWhile_not isBlank (value.dropWhile isBlank).reverse
      rw [reversed] at notBlank
      dsimp only at notBlank
      rw [blank] at notBlank
      cases notBlank

theorem Trimmed.inside (trimmed : Trimmed text start stop trimmedStart trimmedStop) :
    start ≤ trimmedStart ∧ trimmedStop ≤ stop := by
  obtain ⟨_, _, _, _, _, _, _, startSame, _, stopSame, _⟩ := trimmed.parts
  omega

theorem blank_between {before middle after front back : List Char} {character : Char}
    (same : before ++ (middle ++ after) = front ++ character :: back)
    (blanks : ∀ other ∈ middle, isBlank other) (from_start : byteLength before < byteLength front + character.utf8Size)
    (to_stop : byteLength front < byteLength before + byteLength middle) : isBlank character := by
  rcases append_eq_append_iff.mp same with ⟨gap, rfl, rest⟩ | ⟨gap, rfl, rest⟩
  · rw [byteLength_append] at to_stop
    rcases append_eq_append_iff.mp rest with ⟨beyond, rfl, _⟩ | ⟨kept, rfl, tail⟩
    · rw [byteLength_append] at to_stop
      omega
    · cases kept with
      | nil => rw [append_nil] at to_stop; omega
      | cons first kept =>
        rw [cons_append] at tail
        rw [(List.cons.inj tail).1]
        exact blanks first (mem_append_right _ mem_cons_self)
  · cases gap with
    | nil =>
      rw [nil_append] at rest
      cases middle with
      | nil => rw [append_nil, byteLength] at to_stop; omega
      | cons first middle =>
        rw [cons_append] at rest
        rw [(List.cons.inj rest).1]
        exact blanks first mem_cons_self
    | cons first gap =>
      rw [cons_append] at rest
      rw [byteLength_append, byteLength, ← (List.cons.inj rest).1] at from_start
      omega

theorem Trimmed.ordered {otherStart otherStop otherTrimmedStart otherTrimmedStop : Nat}
    (first : Trimmed text start stop trimmedStart trimmedStop)
    (second : Trimmed text otherStart otherStop otherTrimmedStart otherTrimmedStop)
    (firstKept : trimmedStart < trimmedStop) (secondKept : otherTrimmedStart < otherTrimmedStop)
    (starts : start ≤ otherStart) (stops : stop ≤ otherStop) :
    trimmedStart ≤ otherTrimmedStart ∧ trimmedStop ≤ otherTrimmedStop := by
  obtain ⟨before, lead, kept, trail, after, textSame, startSame, leadCount, keptCount, trailCount, leadBlank, trailBlank,
    keptHead, keptLast⟩ := first.parts
  obtain ⟨before', lead', kept', trail', after', textSame', startSame', leadCount', keptCount', trailCount', leadBlank',
    trailBlank', keptHead', keptLast'⟩ := second.parts
  constructor
  · by_contra later
    cases kept' with
    | nil => rw [byteLength] at keptCount'; omega
    | cons character kept' =>
      apply keptHead' character rfl
      have place : before ++ (lead ++ (kept ++ (trail ++ after))) =
          (before' ++ lead') ++ character :: (kept' ++ (trail' ++ after')) := by
        rw [← textSame, textSame', List.append_assoc, cons_append]
      have positive := utf8Size_pos character
      apply blank_between place leadBlank
      · rw [byteLength_append]; omega
      · rw [byteLength_append]; omega
  · by_contra later
    rcases eq_nil_or_concat' kept with rfl | ⟨front, character, rfl⟩
    · rw [byteLength] at keptCount; omega
    · apply keptLast character getLast?_concat
      have positive := utf8Size_pos character
      have keptSize : byteLength (front ++ [character]) = byteLength front + character.utf8Size := by
        rw [byteLength_append, byteLength, byteLength, Nat.add_zero]
      have place : (before' ++ (lead' ++ kept')) ++ (trail' ++ after') =
          (before ++ (lead ++ front)) ++ character :: (trail ++ after) := by
        rw [List.append_assoc, List.append_assoc lead', ← textSame', textSame]
        simp only [List.append_assoc, cons_append, nil_append]
      apply blank_between place trailBlank'
      · rw [byteLength_append before, byteLength_append lead, byteLength_append before', byteLength_append lead']; omega
      · rw [byteLength_append before, byteLength_append lead, byteLength_append before', byteLength_append lead']; omega

/-- Spans that are bounded by tokens, each behind those of the spans before it. -/
inductive Reads {α : Type} (bounded : Nat × Nat → Nat × Nat → DetectedSpan α → Prop) :
    List (Nat × Nat) → List (DetectedSpan α) → Prop where
  | done (offsets : List (Nat × Nat)) : Reads bounded offsets []
  | skip (skipped : List (Nat × Nat)) {offsets : List (Nat × Nat)} {spans : List (DetectedSpan α)}
      (reads : Reads bounded offsets spans) : Reads bounded (skipped ++ offsets) spans
  | span {run offsets : List (Nat × Nat)} {spans : List (DetectedSpan α)} {first last : Nat × Nat}
      {span : DetectedSpan α} (firstListed : first ∈ run) (lastListed : last ∈ run) (bounds : bounded first last span)
      (reads : Reads bounded offsets spans) : Reads bounded (run ++ offsets) (span :: spans)

section
variable {α : Type} {bounded : Nat × Nat → Nat × Nat → DetectedSpan α → Prop}

theorem Reads.each {offsets : List (Nat × Nat)} {spans : List (DetectedSpan α)} (reads : Reads bounded offsets spans) :
    ∀ span ∈ spans, ∃ first ∈ offsets, ∃ last ∈ offsets, bounded first last span := by
  induction reads with
  | done => intro span member; cases member
  | skip skipped _ ih =>
    intro span member
    obtain ⟨first, firstListed, last, lastListed, bounds⟩ := ih span member
    exact ⟨first, mem_append_right _ firstListed, last, mem_append_right _ lastListed, bounds⟩
  | span firstListed lastListed bounds _ ih =>
    intro span member
    rcases mem_cons.mp member with rfl | later
    · exact ⟨_, mem_append_left _ firstListed, _, mem_append_left _ lastListed, bounds⟩
    · obtain ⟨first, firstListed, last, lastListed, bounds⟩ := ih span later
      exact ⟨first, mem_append_right _ firstListed, last, mem_append_right _ lastListed, bounds⟩

theorem Reads.pairwise {before : Nat × Nat → Nat × Nat → Prop} {ordered : DetectedSpan α → DetectedSpan α → Prop}
    (lift : ∀ {first last first' last' : Nat × Nat} {span span' : DetectedSpan α}, bounded first last span →
      bounded first' last' span' → before first first' → before last first' → before last last' → ordered span span')
    {offsets : List (Nat × Nat)} {spans : List (DetectedSpan α)} (reads : Reads bounded offsets spans) :
    offsets.Pairwise before → spans.Pairwise ordered := by
  induction reads with
  | done => exact fun _ => .nil
  | skip skipped _ ih => exact fun sorted => ih (pairwise_append.mp sorted).2.1
  | span firstListed lastListed bounds rest ih =>
    intro sorted
    obtain ⟨_, later, across⟩ := pairwise_append.mp sorted
    rw [pairwise_cons]
    refine ⟨?_, ih later⟩
    intro other member
    obtain ⟨first', firstListed', last', lastListed', bounds'⟩ := rest.each other member
    exact lift bounds bounds' (across _ firstListed _ firstListed') (across _ lastListed _ firstListed')
      (across _ lastListed _ lastListed')

end

/-! ### The rules of the tags -/

structure ValidTags (scheme : TagScheme) (follows : Tag → Tag → Prop) (tags : List Tag) : Prop where
  start : ∀ tag ∈ tags.head?, validStart scheme tag
  transitions : tags.IsChain follows
  finish : ∀ tag ∈ tags.getLast?, validEnd scheme tag

theorem ValidTags.rest {scheme : TagScheme} {follows : Tag → Tag → Prop} {front back : List Tag} {last : Tag}
    (valid : ValidTags scheme follows (front ++ back)) (isLast : front.getLast? = some last)
    (next : ∀ first ∈ back.head?, follows last first → validStart scheme first) : ValidTags scheme follows back := by
  obtain ⟨_, transitions, joined⟩ := isChain_append.mp valid.transitions
  refine ⟨?_, transitions, ?_⟩
  · intro first isFirst
    exact next first isFirst (joined last isLast first isFirst)
  · intro final isFinal
    apply valid.finish
    rw [getLast?_append, isFinal]
    rfl

def Open (source : String) : Tag → Prop
  | .begin entity | .inside entity => entity.source = source
  | _ => False

/-- No entity goes on after the tag. -/
def Closed : Tag → Prop
  | .outside | .ended _ | .single _ => True
  | _ => False

variable {previous : Tag}

section
variable {α : Type}

variable {decoder : Decoder α} {next : Tag}

theorem bio_outside (allowed : (decoder.bioTransitionBias .outside next).isSome) :
    validStart .bio next := by
  cases next with
  | outside => rfl
  | begin => rfl
  | inside => cases allowed
  | ended => cases allowed
  | single => cases allowed

theorem bio_open {source : String} (opened : Open source previous)
    (allowed : (decoder.bioTransitionBias previous next).isSome)
    (other : ∀ entity, next = .inside entity → entity.source ≠ source) : validStart .bio next := by
  cases next with
  | outside => rfl
  | begin => rfl
  | inside entity =>
    cases previous with
    | begin before | inside before =>
      rw [Decoder.bioTransitionBias] at allowed
      split at allowed
      · rename_i same
        exact absurd (same.symm.trans opened) (other entity rfl)
      · cases allowed
    | outside | ended | single => cases opened
  | ended => cases previous <;> cases allowed
  | single => cases previous <;> cases allowed

theorem bioes_closed (closed : Closed previous) (allowed : (decoder.bioesTransitionBias previous next).isSome) :
    validStart .bioes next := by
  cases next with
  | outside => rfl
  | begin => rfl
  | single => rfl
  | inside =>
    cases previous with
    | begin | inside => cases closed
    | outside | ended | single => cases allowed
  | ended =>
    cases previous with
    | begin | inside => cases closed
    | outside | ended | single => cases allowed

theorem bioes_open {source : String} (opened : Open source previous)
    (allowed : (decoder.bioesTransitionBias previous next).isSome) :
    ∃ entity, (next = .inside entity ∨ next = .ended entity) ∧ entity.source = source := by
  cases previous with
  | outside | ended | single => cases opened
  | begin before | inside before =>
    cases next with
    | outside | begin | single => cases allowed
    | inside entity =>
      rw [Decoder.bioesTransitionBias] at allowed
      split at allowed
      · rename_i same
        exact ⟨entity, .inl rfl, same.symm.trans opened⟩
      · cases allowed
    | ended entity =>
      rw [Decoder.bioesTransitionBias] at allowed
      split at allowed
      · rename_i same
        exact ⟨entity, .inr rfl, same.symm.trans opened⟩
      · cases allowed

end

variable {entity : Entity}
variable {α : Type} {token : Token α}

theorem continues_iff : continues entity token ↔ ∃ next, token.tag = .inside next ∧ next.source = entity.source := by
  unfold continues
  cases token.tag with
  | inside next =>
    constructor
    · intro same
      exact ⟨next, rfl, beq_iff_eq.mp same⟩
    · rintro ⟨_, tagged, same⟩
      cases tagged
      exact beq_iff_eq.mpr same
  | outside | begin | ended | single =>
    constructor
    · intro contra; cases contra
    · rintro ⟨_, contra, _⟩; cases contra

theorem finishes_iff : finishes entity token ↔ ∃ next, token.tag = .ended next ∧ next.source = entity.source := by
  unfold finishes
  cases token.tag with
  | ended next =>
    constructor
    · intro same
      exact ⟨next, rfl, beq_iff_eq.mp same⟩
    · rintro ⟨_, tagged, same⟩
      cases tagged
      exact beq_iff_eq.mpr same
  | outside | begin | inside | single =>
    constructor
    · intro contra; cases contra
    · rintro ⟨_, contra, _⟩; cases contra

theorem run_open (begun : token.tag = .begin entity) (rest : List (Token α)) :
    ∃ last, ((token :: rest.takeWhile (continues entity)).map Token.tag).getLast? = some last ∧
      Open entity.source last := by
  have each : ∀ tag ∈ (token :: rest.takeWhile (continues entity)).map Token.tag, Open entity.source tag := by
    intro tag member
    obtain ⟨other, listed, rfl⟩ := mem_map.mp member
    rcases mem_cons.mp listed with rfl | taken
    · rw [begun]
      exact rfl
    · obtain ⟨next, tagged, same⟩ := continues_iff.mp (mem_takeWhile_imp taken)
      rw [tagged]
      exact same
  cases found : ((token :: rest.takeWhile (continues entity)).map Token.tag).getLast? with
  | none =>
    rw [getLast?_eq_none_iff] at found
    cases found
  | some last => exact ⟨last, rfl, each last (mem_of_getLast? found)⟩

theorem run_stops {rest after : List (Token α)} {last : Token α}
    (following : rest.dropWhile (continues entity) = last :: after) : ¬ continues entity last := by
  have stops := head?_dropWhile_not (continues entity) rest
  rw [following] at stops
  intro contra
  rw [head?_cons] at stops
  dsimp only at stops
  rw [contra] at stops
  cases stops

/-! ### Spans of valid tags -/

def Exact {α : Type} (first last : Nat × Nat) (span : DetectedSpan α) : Prop :=
  span.start < span.stop ∧ span.start = first.1 ∧ span.stop = last.2

theorem spanBounds_some {offsets : List (Nat × Nat)} (found : spanBounds offsets = some (start, stop)) :
    start < stop ∧ ∃ first ∈ offsets, ∃ last ∈ offsets, start = first.1 ∧ stop = last.2 := by
  unfold spanBounds at found
  obtain ⟨first, firstFound, rest⟩ := bind_eq_some_iff.mp found
  obtain ⟨last, lastFound, guarded⟩ := bind_eq_some_iff.mp rest
  split at guarded
  · cases guarded
  · obtain ⟨rfl, rfl⟩ := Prod.mk.inj (some.inj guarded)
    refine ⟨by omega, first, mem_of_find?_eq_some firstFound, last, ?_, rfl, rfl⟩
    exact mem_reverse.mp (mem_of_find?_eq_some lastFound)

section
variable {α : Type} [Field α] [LinearOrder α]

theorem pushEntity_reads (functions : Elementary α) (textId : Nat) (calibration : Option (LanguageCalibration α))
    (entity : Entity) (tokens : List (Token α)) {offsets : List (Nat × Nat)} {spans : List (DetectedSpan α)}
    (reads : Reads Exact offsets spans) :
    Reads Exact (tokens.map Token.offset ++ offsets) (pushEntity functions textId calibration entity tokens ++ spans) := by
  unfold pushEntity
  cases found : entity.canonical.bind fun canonical => pushSpan functions textId entity canonical tokens calibration with
  | none => exact .skip _ reads
  | some span =>
    obtain ⟨canonical, _, pushed⟩ := bind_eq_some_iff.mp found
    unfold pushSpan at pushed
    obtain ⟨⟨start, stop⟩, bounds, guarded⟩ := bind_eq_some_iff.mp pushed
    dsimp only at guarded
    obtain ⟨_, same⟩ := Option.ite_none_left_eq_some.mp guarded
    obtain ⟨nonempty, first, firstListed, last, lastListed, startSame, stopSame⟩ := spanBounds_some bounds
    rw [← some.inj same]
    exact .span firstListed lastListed ⟨nonempty, startSame, stopSame⟩ reads

theorem decodeBio_reads (decoder : Decoder α) (functions : Elementary α) (textId : Nat)
    (calibration : Option (LanguageCalibration α)) (bound : Nat) :
    ∀ tokens : List (Token α), tokens.length ≤ bound →
      ValidTags .bio (fun previous next => (decoder.bioTransitionBias previous next).isSome) (tokens.map Token.tag) →
      ∃ spans, decodeBio functions textId calibration tokens = .ok spans ∧ Reads Exact (tokens.map Token.offset) spans := by
  induction bound with
  | zero =>
    intro tokens short _
    rw [eq_nil_of_length_eq_zero (Nat.le_zero.mp short), decodeBio]
    exact ⟨[], rfl, .done _⟩
  | succ bound ih =>
    intro tokens short valid
    cases tokens with
    | nil =>
      rw [decodeBio]
      exact ⟨[], rfl, .done _⟩
    | cons token rest =>
      rw [length_cons] at short
      rw [decodeBio]
      have starts := valid.start token.tag rfl
      cases tagged : token.tag with
      | outside =>
        rw [map_cons, ← singleton_append] at valid
        obtain ⟨spans, decoded, reads⟩ :=
          ih rest (by omega) (valid.rest rfl fun first _ allowed => bio_outside (by rw [tagged] at allowed; exact allowed))
        exact ⟨spans, decoded, .skip [token.offset] reads⟩
      | begin entity =>
        have split := takeWhile_append_dropWhile (p := continues entity) (l := rest)
        have shorter := (dropWhile_suffix (l := rest) (continues entity)).length_le
        obtain ⟨last, isLast, opened⟩ := run_open tagged rest
        have parts : (token :: rest.takeWhile (continues entity)).map Token.tag ++
            (rest.dropWhile (continues entity)).map Token.tag = (token :: rest).map Token.tag := by
          rw [← map_append, cons_append, split]
        rw [← parts] at valid
        obtain ⟨spans, decoded, reads⟩ := ih (rest.dropWhile (continues entity)) (by omega) (valid.rest isLast (by
          intro first isFirst allowed
          refine bio_open opened allowed ?_
          intro next inside same
          rw [head?_map] at isFirst
          obtain ⟨other, following, tag⟩ := map_eq_some_iff.mp isFirst
          obtain ⟨after, after_eq⟩ : ∃ after, rest.dropWhile (continues entity) = other :: after :=
            head?_eq_some_iff.mp following
          exact run_stops after_eq (continues_iff.mpr ⟨next, tag.trans inside, same⟩)))
        dsimp only
        rw [decoded]
        refine ⟨_, rfl, ?_⟩
        have offsets : (token :: rest).map Token.offset = (token :: rest.takeWhile (continues entity)).map Token.offset ++
            (rest.dropWhile (continues entity)).map Token.offset := by
          rw [← map_append, cons_append, split]
        rw [offsets]
        exact pushEntity_reads functions textId calibration entity _ reads
      | inside | ended | single => rw [tagged] at starts; cases starts

end

/-! ### Spans of tags with ends -/

section
variable {α : Type}

variable {token : Token α}

theorem bioes_after {decoder : Decoder α} {rest : List (Token α)} (closed : Closed token.tag)
    (valid : ValidTags .bioes (fun previous next => (decoder.bioesTransitionBias previous next).isSome)
      ((token :: rest).map Token.tag)) :
    ValidTags .bioes (fun previous next => (decoder.bioesTransitionBias previous next).isSome) (rest.map Token.tag) := by
  rw [map_cons, ← singleton_append] at valid
  exact valid.rest rfl fun first _ allowed => bioes_closed closed allowed

variable {entity : Entity}

theorem bioes_run {decoder : Decoder α} {rest : List (Token α)} (begun : token.tag = .begin entity)
    (valid : ValidTags .bioes (fun previous next => (decoder.bioesTransitionBias previous next).isSome)
      ((token :: rest).map Token.tag)) :
    ∃ last after, rest.dropWhile (continues entity) = last :: after ∧ finishes entity last ∧
      ValidTags .bioes (fun previous next => (decoder.bioesTransitionBias previous next).isSome)
        (after.map Token.tag) := by
  have split := takeWhile_append_dropWhile (p := continues entity) (l := rest)
  obtain ⟨open_tag, isLast, opened⟩ := run_open begun rest
  have parts : (token :: rest.takeWhile (continues entity)).map Token.tag ++
      (rest.dropWhile (continues entity)).map Token.tag = (token :: rest).map Token.tag := by
    rw [← map_append, cons_append, split]
  rw [← parts] at valid
  cases following : rest.dropWhile (continues entity) with
  | nil =>
    rw [following, map_nil, append_nil] at valid
    have ends := valid.finish open_tag isLast
    cases open_tag with
    | outside | ended | single => cases opened
    | begin | inside => cases ends
  | cons last after =>
    rw [following] at valid
    obtain ⟨_, _, joined⟩ := isChain_append.mp valid.transitions
    have allowed := joined open_tag isLast last.tag rfl
    obtain ⟨next, kind, same⟩ := bioes_open opened allowed
    rcases kind with inside | ended
    · exact absurd (continues_iff.mpr ⟨next, inside, same⟩) (run_stops following)
    · refine ⟨last, after, rfl, finishes_iff.mpr ⟨next, ended, same⟩, ?_⟩
      have closed : Closed last.tag := by rw [ended]; trivial
      have whole : (token :: rest.takeWhile (continues entity)).map Token.tag ++ (last :: after).map Token.tag =
          ((token :: rest.takeWhile (continues entity)).map Token.tag ++ [last.tag]) ++ after.map Token.tag := by
        rw [List.append_assoc, singleton_append]
        rfl
      rw [whole] at valid
      exact valid.rest getLast?_concat fun first _ step => bioes_closed closed step

theorem run_offsets {last : Token α} {rest after : List (Token α)}
    (following : rest.dropWhile (continues entity) = last :: after) :
    (token :: rest).map Token.offset =
      (token :: rest.takeWhile (continues entity) ++ [last]).map Token.offset ++ after.map Token.offset := by
  have split := takeWhile_append_dropWhile (p := continues entity) (l := rest)
  rw [following] at split
  rw [← map_append, List.append_assoc, singleton_append, cons_append, split]

theorem run_shorter {last : Token α} {rest after : List (Token α)}
    (following : rest.dropWhile (continues entity) = last :: after) : after.length < rest.length := by
  have shorter := (dropWhile_suffix (l := rest) (continues entity)).length_le
  rw [following, length_cons] at shorter
  omega

/-- A span from the first token of an entity to its last one. A text cuts the blanks around it. -/
def Cut {α : Type} (text : Option (List Char)) (first last : Nat × Nat) (span : DetectedSpan α) : Prop :=
  span.start < span.stop ∧
    match text with
    | none => span.start = first.1 ∧ span.stop = last.2
    | some text => Trimmed text first.1 last.2 span.start span.stop

theorem pplxSpan_cut [Field α] (functions : Elementary α) (textId : Nat) (text : Option (List Char)) (entity : Entity)
    (tokens : List (Token α)) (first last : Token α) :
    (pplxSpan functions textId text entity tokens first last = .error "invalid_tokenizer_output" ∧ text.isSome) ∨
      pplxSpan functions textId text entity tokens first last = .ok [] ∨
      ∃ span, pplxSpan functions textId text entity tokens first last = .ok [span] ∧
        Cut text first.offset last.offset span := by
  unfold pplxSpan Cut
  cases text with
  | none =>
    right
    cases entity.canonical with
    | none => exact .inl rfl
    | some canonical =>
      dsimp only [bind, Except.bind]
      split
      · rename_i nonempty
        exact .inr ⟨_, rfl, nonempty, rfl, rfl⟩
      · exact .inl rfl
  | some text =>
    dsimp only
    cases found : trimmedBounds text first.offset.1 last.offset.2 with
    | none => exact .inl ⟨rfl, rfl⟩
    | some bounds =>
      right
      obtain ⟨start, stop⟩ := bounds
      cases entity.canonical with
      | none => exact .inl rfl
      | some canonical =>
        dsimp only [bind, Except.bind]
        split
        · rename_i nonempty
          exact .inr ⟨_, rfl, nonempty, trimmedBounds_some found⟩
        · exact .inl rfl

variable [Field α]

theorem pplxSpans_reads (decoder : Decoder α) (functions : Elementary α) (textId : Nat) (text : Option (List Char))
    (bound : Nat) :
    ∀ tokens : List (Token α), tokens.length ≤ bound →
      ValidTags .bioes (fun previous next => (decoder.bioesTransitionBias previous next).isSome)
        (tokens.map Token.tag) →
      (∃ spans, pplxSpans functions textId text tokens = .ok spans ∧
        Reads (Cut text) (tokens.map Token.offset) spans) ∨
      (pplxSpans functions textId text tokens = .error "invalid_tokenizer_output" ∧ text.isSome) := by
  induction bound with
  | zero =>
    intro tokens short _
    rw [eq_nil_of_length_eq_zero (Nat.le_zero.mp short), pplxSpans]
    exact .inl ⟨[], rfl, .done _⟩
  | succ bound ih =>
    intro tokens short valid
    cases tokens with
    | nil =>
      rw [pplxSpans]
      exact .inl ⟨[], rfl, .done _⟩
    | cons token rest =>
      rw [length_cons] at short
      rw [pplxSpans]
      have starts := valid.start token.tag rfl
      cases tagged : token.tag with
      | outside =>
        have closed : Closed token.tag := by rw [tagged]; trivial
        rcases ih rest (by omega) (bioes_after closed valid) with ⟨spans, decoded, reads⟩ | failed
        · exact .inl ⟨spans, decoded, .skip [token.offset] reads⟩
        · exact .inr failed
      | single entity =>
        have closed : Closed token.tag := by rw [tagged]; trivial
        dsimp only
        rcases pplxSpan_cut functions textId text entity [token] token token with
          ⟨failed, given⟩ | empty | ⟨span, found, bounds⟩
        · rw [failed]
          exact .inr ⟨rfl, given⟩
        · rw [empty]
          rcases ih rest (by omega) (bioes_after closed valid) with ⟨spans, decoded, reads⟩ | ⟨failed, given⟩
          · rw [decoded]
            exact .inl ⟨_, rfl, .skip [token.offset] reads⟩
          · rw [failed]
            exact .inr ⟨rfl, given⟩
        · rw [found]
          rcases ih rest (by omega) (bioes_after closed valid) with ⟨spans, decoded, reads⟩ | ⟨failed, given⟩
          · rw [decoded]
            exact .inl ⟨_, rfl, .span (mem_singleton_self _) (mem_singleton_self _) bounds reads⟩
          · rw [failed]
            exact .inr ⟨rfl, given⟩
      | begin entity =>
        obtain ⟨last, after, following, finished, validAfter⟩ := bioes_run tagged valid
        have shorter := run_shorter following
        dsimp only
        split
        · rename_i missing
          rw [following] at missing
          cases missing
        · rename_i other others same
          rw [following] at same
          obtain ⟨rfl, rfl⟩ := List.cons.inj same
          rw [if_pos finished, run_offsets following]
          rcases pplxSpan_cut functions textId text entity (token :: rest.takeWhile (continues entity) ++ [last]) token last
            with ⟨failed, given⟩ | empty | ⟨span, found, bounds⟩
          · rw [failed]
            exact .inr ⟨rfl, given⟩
          · rw [empty]
            rcases ih after (by omega) validAfter with ⟨spans, decoded, reads⟩ | ⟨failed, given⟩
            · rw [decoded]
              exact .inl ⟨_, rfl, .skip _ reads⟩
            · rw [failed]
              exact .inr ⟨rfl, given⟩
          · rw [found]
            rcases ih after (by omega) validAfter with ⟨spans, decoded, reads⟩ | ⟨failed, given⟩
            · rw [decoded]
              refine .inl ⟨_, rfl, .span ?_ ?_ bounds reads⟩
              · exact mem_map_of_mem mem_cons_self
              · exact mem_map_of_mem (mem_append_right _ (mem_singleton_self _))
            · rw [failed]
              exact .inr ⟨rfl, given⟩
      | inside | ended => rw [tagged] at starts; cases starts

variable [LinearOrder α]

theorem decodeBioes_reads (decoder : Decoder α) (functions : Elementary α) (textId : Nat)
    (calibration : Option (LanguageCalibration α)) (bound : Nat) :
    ∀ tokens : List (Token α), tokens.length ≤ bound →
      ValidTags .bioes (fun previous next => (decoder.bioesTransitionBias previous next).isSome)
        (tokens.map Token.tag) →
      ∃ spans, decodeBioes functions textId calibration tokens = .ok spans ∧
        Reads Exact (tokens.map Token.offset) spans := by
  induction bound with
  | zero =>
    intro tokens short _
    rw [eq_nil_of_length_eq_zero (Nat.le_zero.mp short), decodeBioes]
    exact ⟨[], rfl, .done _⟩
  | succ bound ih =>
    intro tokens short valid
    cases tokens with
    | nil =>
      rw [decodeBioes]
      exact ⟨[], rfl, .done _⟩
    | cons token rest =>
      rw [length_cons] at short
      rw [decodeBioes]
      have starts := valid.start token.tag rfl
      cases tagged : token.tag with
      | outside =>
        have closed : Closed token.tag := by rw [tagged]; trivial
        obtain ⟨spans, decoded, reads⟩ := ih rest (by omega) (bioes_after closed valid)
        exact ⟨spans, decoded, .skip [token.offset] reads⟩
      | single entity =>
        have closed : Closed token.tag := by rw [tagged]; trivial
        obtain ⟨spans, decoded, reads⟩ := ih rest (by omega) (bioes_after closed valid)
        dsimp only
        rw [decoded]
        exact ⟨_, rfl, pushEntity_reads functions textId calibration entity [token] reads⟩
      | begin entity =>
        obtain ⟨last, after, following, finished, validAfter⟩ := bioes_run tagged valid
        have shorter := run_shorter following
        obtain ⟨spans, decoded, reads⟩ := ih after (by omega) validAfter
        dsimp only
        split
        · rename_i missing
          rw [following] at missing
          cases missing
        · rename_i other others found
          rw [following] at found
          obtain ⟨rfl, rfl⟩ := List.cons.inj found
          rw [if_pos finished, decoded, run_offsets following]
          exact ⟨_, rfl, pushEntity_reads functions textId calibration entity _ reads⟩
      | inside | ended => rw [tagged] at starts; cases starts

end

end AstrLink.TokenDecoder
