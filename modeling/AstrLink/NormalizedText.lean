import Mathlib.Data.List.DropRight
import AstrLink.Normalizing

/-!
What the normaliser makes of a text: chunks are consumed rune by rune as the whole text would be
(`writes_runes`), and what is written is the folded form without the block that the plain definition drops
(`undecided_settles`).
-/
namespace AstrLink.Normalizing
open Utf8Runes List

section
variable (normalizer : TextNormalizer)

/-- The same state with other bytes of an unfinished rune. -/
def holding (bytes : List UInt8) : TextNormalizer := { normalizer with partialRune := bytes }

@[simp] theorem holding_holding (first second : List UInt8) :
    holding (holding normalizer first) second = holding normalizer second := rfl

theorem emit_holding (rune : Rune) (bytes : List UInt8) :
    (holding normalizer bytes).emit rune = holding (normalizer.emit rune) bytes := by
  unfold TextNormalizer.emit TextNormalizer.writeSpace holding
  dsimp only
  split
  · split <;> rfl
  · split <;> rfl

theorem replay_nil : normalizer.replay [] = normalizer := by
  rw [TextNormalizer.replay, dif_neg (fun more => more rfl)]

theorem replay_rune {buffered : List UInt8} (more : buffered ≠ []) :
    normalizer.replay buffered =
      (normalizer.emit ⟨(decodeRune buffered).1, buffered.take (decodeRune buffered).2⟩).replay
        (buffered.drop (decodeRune buffered).2) := by
  rw [TextNormalizer.replay, dif_pos more]

theorem replay_holding (bytes : List UInt8) (buffered : List UInt8) :
    (holding normalizer bytes).replay buffered = holding (normalizer.replay buffered) bytes := by
  induction counted : buffered.length using Nat.strongRecOn generalizing normalizer buffered with
  | ind count ih =>
    cases buffered with
    | nil => rw [replay_nil, replay_nil]
    | cons first rest =>
      have more : first :: rest ≠ [] := cons_ne_nil _ _
      obtain ⟨positive, bounded⟩ := decodeRune_size more
      rw [replay_rune _ more, replay_rune _ more, emit_holding]
      refine ih _ ?_ _ _ rfl
      rw [length_drop]
      omega

theorem flushUndecided_holding (bytes : List UInt8) :
    (holding normalizer bytes).flushUndecided = holding normalizer.flushUndecided bytes :=
  replay_holding { normalizer with think := .off, thinkBuf := [] } bytes normalizer.thinkBuf

theorem consume_holding (rune : Rune) (bytes : List UInt8) :
    (holding normalizer bytes).consume rune = holding (normalizer.consume rune) bytes := by
  unfold TextNormalizer.consume
  have sameThink : (holding normalizer bytes).think = normalizer.think := rfl
  have sameBuffer : (holding normalizer bytes).thinkBuf = normalizer.thinkBuf := rfl
  rw [sameThink, sameBuffer]
  cases found : normalizer.think with
  | off => exact emit_holding normalizer rune bytes
  | inside =>
    dsimp only
    by_cases closes : thinkClose.isSuffixOf (normalizer.thinkBuf ++ rune.raw) = true
    · rw [if_pos closes, if_pos closes]
      rfl
    · rw [if_neg closes, if_neg closes]
      rfl
  | undecided =>
    dsimp only
    by_cases skips : normalizer.thinkBuf = [] ∧ isSpace rune.code = true
    · rw [if_pos skips, if_pos skips]
    · rw [if_neg skips, if_neg skips]
      by_cases opens : normalizer.thinkBuf ++ rune.raw = thinkOpen
      · rw [if_pos opens, if_pos opens]
        rfl
      · rw [if_neg opens, if_neg opens]
        by_cases waits : (normalizer.thinkBuf ++ rune.raw).isPrefixOf thinkOpen = true
        · rw [if_pos waits, if_pos waits]
          rfl
        · rw [if_neg waits, if_neg waits]
          exact flushUndecided_holding { normalizer with thinkBuf := normalizer.thinkBuf ++ rune.raw } bytes

end

variable (runes : List Rune)

theorem consumes_holding (bytes : List UInt8) :
    ∀ normalizer : TextNormalizer,
      runes.foldl TextNormalizer.consume (holding normalizer bytes) =
        holding (runes.foldl TextNormalizer.consume normalizer) bytes := by
  induction runes with
  | nil => intro normalizer; rfl
  | cons rune runes ih =>
    intro normalizer
    rw [foldl_cons, foldl_cons, consume_holding, ih]

theorem plainByte_iff {byte : UInt8} :
    plainByte byte = true ↔ byte.toNat < 0x80 ∧ isSpace byte.toNat = false := by
  unfold plainByte asciiWhitespace isSpace
  simp only [Bool.and_eq_true, decide_eq_true_eq, Bool.not_eq_true', Bool.or_eq_false_iff, Bool.and_eq_false_iff,
    decide_eq_false_iff_not, beq_eq_false_iff_ne]
  omega

theorem written_ascii (byte : UInt8) : written (asciiRune byte) = [byte] := by
  unfold written asciiRune runeError
  rw [if_neg]
  rintro ⟨same, _⟩
  have bound := byte.toNat_lt
  dsimp only at same
  omega

theorem writeSpace_pending (normalizer : TextNormalizer) : normalizer.writeSpace.pendingSpace = false := by
  unfold TextNormalizer.writeSpace
  split
  · rfl
  · rename_i quiet
    exact Bool.not_eq_true _ ▸ quiet

variable {normalizer : TextNormalizer}

theorem writeSpace_quiet (quiet : normalizer.pendingSpace = false) : normalizer.writeSpace = normalizer := by
  unfold TextNormalizer.writeSpace
  rw [quiet, if_neg Bool.false_ne_true]

theorem emitSpan_append (normalizer : TextNormalizer) (front back : List UInt8) :
    (normalizer.emitSpan front).emitSpan back = normalizer.emitSpan (front ++ back) := by
  have quiet : (normalizer.emitSpan front).writeSpace = normalizer.emitSpan front :=
    writeSpace_quiet (writeSpace_pending normalizer)
  have joined : (normalizer.emitSpan front).emitSpan back =
      { normalizer.emitSpan front with
        sink := (normalizer.emitSpan front).sink ++ back
        runes := (normalizer.emitSpan front).runes + back.length
        started := true } := by
    rw [TextNormalizer.emitSpan, quiet]
  rw [joined]
  unfold TextNormalizer.emitSpan
  rw [List.append_assoc, length_append, Nat.add_assoc]

theorem emitSpan_eq {span : List UInt8} (plain : ∀ byte ∈ span, plainByte byte = true) :
    ∀ {normalizer : TextNormalizer}, normalizer.think = .off → span ≠ [] →
      normalizer.emitSpan span = (span.map asciiRune).foldl TextNormalizer.consume normalizer := by
  induction span with
  | nil => intro normalizer _ some_byte; exact absurd rfl some_byte
  | cons byte span ih =>
    intro normalizer off _
    have visible := (plainByte_iff.mp (plain byte mem_cons_self)).2
    have first : normalizer.consume (asciiRune byte) = normalizer.emitSpan [byte] := by
      unfold TextNormalizer.consume
      rw [off]
      dsimp only
      unfold TextNormalizer.emit TextNormalizer.emitSpan
      rw [written_ascii]
      show (if isSpace byte.toNat = true then _ else _) = _
      rw [visible, if_neg Bool.false_ne_true]
      rfl
    rw [map_cons, foldl_cons, first]
    cases span with
    | nil => rfl
    | cons next span =>
      have offThen : (normalizer.emitSpan [byte]).think = .off := by
        unfold TextNormalizer.emitSpan TextNormalizer.writeSpace
        dsimp only
        split <;> exact off
      rw [← ih (fun other member => plain other (mem_cons_of_mem _ member)) offThen (cons_ne_nil _ _),
        emitSpan_append, singleton_append]

theorem holding_nil (none_held : normalizer.partialRune = []) : holding normalizer [] = normalizer := by
  cases normalizer
  cases none_held
  rfl

theorem consumes_partialRune (none_held : normalizer.partialRune = []) :
    (runes.foldl TextNormalizer.consume normalizer).partialRune = [] := by
  rw [← holding_nil none_held, consumes_holding]
  rfl

theorem writeBytes_runes (data : List UInt8) :
    ∀ {normalizer : TextNormalizer}, normalizer.partialRune = [] →
      normalizer.writeBytes data =
        holding ((completeRunes data).1.foldl TextNormalizer.consume normalizer) (completeRunes data).2 := by
  induction counted : data.length using Nat.strongRecOn generalizing data with
  | ind count ih =>
    intro normalizer none_held
    rw [TextNormalizer.writeBytes]
    by_cases plain : normalizer.think = .off ∧ data.takeWhile plainByte ≠ []
    · rw [dif_pos plain]
      have split := takeWhile_append_dropWhile (p := plainByte) (l := data)
      have lengths := congrArg List.length split
      rw [length_append] at lengths
      have positive := length_pos_iff.mpr plain.2
      have each : ∀ byte ∈ data.takeWhile plainByte, plainByte byte = true := fun byte member =>
        mem_takeWhile_imp member
      have read : completeRunes data =
          ((data.takeWhile plainByte).map asciiRune ++ (completeRunes (data.dropWhile plainByte)).1,
            (completeRunes (data.dropWhile plainByte)).2) := by
        rw [← completeRunes_ascii (fun byte member => (plainByte_iff.mp (each byte member)).1), split]
      rw [emitSpan_eq each plain.1 plain.2, ih _ (by omega) _ rfl (consumes_partialRune _ none_held), read,
        foldl_append]
    · rw [dif_neg plain]
      by_cases empty : data = []
      · rw [if_pos empty, empty, completeRunes_short rfl]
        exact (holding_nil none_held).symm
      · rw [if_neg empty]
        by_cases full : fullRune data = true
        · obtain ⟨positive, bounded⟩ := decodeRune_size empty
          rw [dif_pos full, completeRunes_full full, foldl_cons]
          refine ih _ ?_ _ rfl (consumes_partialRune [_] none_held)
          rw [length_drop]
          omega
        · rw [dif_neg full, completeRunes_short (Bool.not_eq_true _ ▸ full)]
          rfl

theorem write_runes (normalizer : TextNormalizer) (held chunk : List UInt8) (none_held : normalizer.partialRune = []) :
    (holding normalizer held).write chunk =
      holding ((completeRunes (held ++ chunk)).1.foldl TextNormalizer.consume normalizer)
        (completeRunes (held ++ chunk)).2 := by
  have cleared : { holding normalizer held with partialRune := [] } = normalizer := holding_nil none_held
  unfold TextNormalizer.write
  rw [cleared]
  exact writeBytes_runes _ none_held

theorem writes_runes (none_held : normalizer.partialRune = []) (chunks : List (List UInt8)) :
    ∀ seen : List UInt8,
      chunks.foldl TextNormalizer.write
          (holding ((completeRunes seen).1.foldl TextNormalizer.consume normalizer) (completeRunes seen).2) =
        holding ((completeRunes (seen ++ chunks.flatten)).1.foldl TextNormalizer.consume normalizer)
          (completeRunes (seen ++ chunks.flatten)).2 := by
  induction chunks with
  | nil => intro seen; rw [flatten_nil, append_nil, foldl_nil]
  | cons chunk chunks ih =>
    intro seen
    have step := completeRunes_append chunk seen
    rw [foldl_cons, write_runes _ _ _ (consumes_partialRune _ none_held), ← foldl_append, flatten_cons,
      ← List.append_assoc, ← ih (seen ++ chunk), step]

theorem finalize_runes (stripLeadingThink : Bool) (chunks : List (List UInt8)) :
    (chunks.foldl TextNormalizer.write (.new stripLeadingThink)).finalize =
      ((runesOf chunks.flatten).foldl TextNormalizer.consume (.new stripLeadingThink)).settle := by
  have fresh : (TextNormalizer.new stripLeadingThink).partialRune = [] := rfl
  have begins : TextNormalizer.new stripLeadingThink =
      holding ((completeRunes []).1.foldl TextNormalizer.consume (.new stripLeadingThink)) (completeRunes []).2 := by
    rw [completeRunes_short rfl]
    exact (holding_nil fresh).symm
  have all := writes_runes fresh chunks []
  rw [← begins, nil_append] at all
  rw [all, runesOf, foldl_append]
  have consumed := consumes_partialRune (completeRunes chunks.flatten).1 fresh
  unfold TextNormalizer.finalize
  cases held : (completeRunes chunks.flatten).2 with
  | nil =>
    show (holding _ []).settle = _
    rw [holding_nil consumed]
    rfl
  | cons first rest =>
    show ((holding _ []).consume _).settle = _
    rw [holding_holding, holding_nil consumed]
    rfl

/-! ### Folded text -/

/-- What is written of some runes after a visible one, perhaps with a space before the next. -/
def continued : Bool → List Rune → List Rune
  | _, [] => []
  | pending, rune :: runes =>
    if isSpace rune.code then continued true runes
    else (if pending then [asciiRune 0x20] else []) ++ rune :: continued false runes

/-- What is written of the first runes. -/
def folded (runes : List Rune) : List Rune :=
  match trimStart runes with
  | [] => []
  | rune :: rest => rune :: continued false rest

structure Wrote (normalizer : TextNormalizer) (before : TextNormalizer) (runes : List Rune) : Prop where
  sink : normalizer.sink = before.sink ++ encode runes
  runes : normalizer.runes = before.runes + runes.length
  think : normalizer.think = .off

theorem encode_cons (rune : Rune) (runes : List Rune) : encode (rune :: runes) = written rune ++ encode runes := rfl

theorem consume_off (off : normalizer.think = .off) (rune : Rune) :
    normalizer.consume rune = normalizer.emit rune := by
  unfold TextNormalizer.consume
  rw [off]

theorem writeSpace_wrote (off : normalizer.think = .off) :
    Wrote normalizer.writeSpace normalizer (if normalizer.pendingSpace then [asciiRune 0x20] else []) := by
  unfold TextNormalizer.writeSpace
  split
  · exact ⟨by rw [encode_cons, written_ascii]; rfl, rfl, off⟩
  · exact ⟨(append_nil _).symm, rfl, off⟩

variable {rune : Rune}

theorem emit_visible (off : normalizer.think = .off) (visible : isSpace rune.code = false) :
    Wrote (normalizer.emit rune) normalizer ((if normalizer.pendingSpace then [asciiRune 0x20] else []) ++ [rune]) ∧
      (normalizer.emit rune).started = true ∧ (normalizer.emit rune).pendingSpace = false := by
  have space := writeSpace_wrote off
  unfold TextNormalizer.emit
  rw [visible, if_neg Bool.false_ne_true]
  refine ⟨⟨?_, ?_, space.think⟩, rfl, writeSpace_pending normalizer⟩
  · show normalizer.writeSpace.sink ++ written rune = _
    rw [space.sink, encode, encode, flatMap_append, List.append_assoc, flatMap_singleton]
  · show normalizer.writeSpace.runes + 1 = _
    rw [space.runes, length_append, length_singleton, Nat.add_assoc]

theorem Wrote.trans {first second third : TextNormalizer} {front back : List Rune} (later : Wrote third second back)
    (earlier : Wrote second first front) : Wrote third first (front ++ back) := by
  refine ⟨?_, ?_, later.think⟩
  · rw [later.sink, earlier.sink, encode, encode, encode, flatMap_append, List.append_assoc]
  · rw [later.runes, earlier.runes, length_append, Nat.add_assoc]

theorem emits_continued :
    ∀ {normalizer : TextNormalizer}, normalizer.think = .off → normalizer.started = true →
      Wrote (runes.foldl TextNormalizer.consume normalizer) normalizer (continued normalizer.pendingSpace runes) := by
  induction runes with
  | nil => intro normalizer off _; exact ⟨(append_nil _).symm, rfl, off⟩
  | cons rune runes ih =>
    intro normalizer off started
    rw [foldl_cons, consume_off off, continued]
    cases visible : isSpace rune.code with
    | true =>
      have pends : normalizer.emit rune = { normalizer with pendingSpace := true } := by
        unfold TextNormalizer.emit
        rw [visible, if_pos rfl, started, if_pos rfl]
      have offThen : (normalizer.emit rune).think = .off := by rw [pends]; exact off
      have startedThen : (normalizer.emit rune).started = true := by rw [pends]; exact started
      have rest := ih offThen startedThen
      rw [pends] at rest
      rw [pends, if_pos rfl]
      exact ⟨rest.sink, rest.runes, rest.think⟩
    | false =>
      obtain ⟨wrote, startedThen, quiet⟩ := emit_visible off visible
      have rest := ih wrote.think startedThen
      rw [quiet] at rest
      rw [if_neg Bool.false_ne_true, append_cons]
      exact rest.trans wrote

theorem emits_folded :
    ∀ {normalizer : TextNormalizer}, normalizer.think = .off → normalizer.started = false →
      normalizer.pendingSpace = false →
      Wrote (runes.foldl TextNormalizer.consume normalizer) normalizer (folded runes) := by
  induction runes with
  | nil => intro normalizer off _ _; exact ⟨(append_nil _).symm, rfl, off⟩
  | cons rune runes ih =>
    intro normalizer off fresh quiet
    rw [foldl_cons, consume_off off, folded, trimStart, dropWhile_cons]
    cases visible : isSpace rune.code with
    | true =>
      have skips : normalizer.emit rune = normalizer := by
        unfold TextNormalizer.emit
        rw [visible, if_pos rfl, fresh, if_neg Bool.false_ne_true]
      rw [skips, if_pos rfl]
      exact ih off fresh quiet
    | false =>
      obtain ⟨wrote, startedThen, quietThen⟩ := emit_visible off visible
      have rest := emits_continued runes wrote.think startedThen
      rw [quietThen] at rest
      rw [quiet, if_neg Bool.false_ne_true, nil_append] at wrote
      rw [if_neg Bool.false_ne_true]
      exact rest.trans wrote

theorem trimEnd_cons (rune : Rune) (runes : List Rune) :
    trimEnd (rune :: runes) =
      if trimEnd runes = [] then (if isSpace rune.code then [] else [rune]) else rune :: trimEnd runes := by
  unfold trimEnd
  rw [reverse_cons, dropWhile_append]
  by_cases empty : runes.reverse.dropWhile (fun rune => isSpace rune.code) = []
  · rw [empty, isEmpty_nil, if_pos rfl, reverse_nil, if_pos rfl, dropWhile_cons, dropWhile_nil]
    split <;> rfl
  · have some_left : (runes.reverse.dropWhile fun rune => isSpace rune.code).isEmpty = false :=
      isEmpty_eq_false_iff.mpr empty
    have reversed : (runes.reverse.dropWhile fun rune => isSpace rune.code).reverse ≠ [] := fun contra =>
      empty (reverse_eq_nil_iff.mp contra)
    rw [some_left, if_neg Bool.false_ne_true, if_neg reversed, reverse_append]
    rfl

theorem trimEnd_visible (visible : isSpace rune.code = false) (runes : List Rune) :
    trimEnd (rune :: runes) = rune :: trimEnd runes := by
  rw [trimEnd_cons]
  split
  · rename_i empty
    rw [visible, if_neg Bool.false_ne_true, empty]
  · rfl

theorem collapse_visible (visible : isSpace rune.code = false) (runes : List Rune) :
    collapse (rune :: runes) = rune :: collapse runes := by
  rw [collapse, visible, if_neg Bool.false_ne_true]

theorem collapse_space {first second : Rune} (firstSpace : isSpace first.code = true)
    (secondSpace : isSpace second.code = true) (runes : List Rune) :
    collapse (first :: runes) = collapse (second :: runes) := by
  rw [collapse, collapse, firstSpace, secondSpace, if_pos rfl, if_pos rfl]

theorem isSpace_space : isSpace (asciiRune 0x20).code = true := by decide

theorem continued_eq :
    continued false runes = trimEnd (collapse runes) ∧
      continued true runes = trimEnd (collapse (asciiRune 0x20 :: runes)) := by
  induction runes with
  | nil => exact ⟨rfl, by decide⟩
  | cons rune runes ih =>
    obtain ⟨plain, pending⟩ := ih
    cases visible : isSpace rune.code with
    | true =>
      have twice : collapse (asciiRune 0x20 :: rune :: runes) = collapse (rune :: runes) := by
        rw [collapse, isSpace_space, if_pos rfl, head?_cons, Option.any_some, visible, if_pos rfl]
      rw [twice, collapse_space visible isSpace_space, continued, continued, visible, if_pos rfl, if_pos rfl]
      exact ⟨pending, pending⟩
    | false =>
      have spaced : collapse (asciiRune 0x20 :: rune :: runes) = asciiRune 0x20 :: rune :: collapse runes := by
        rw [collapse, isSpace_space, if_pos rfl, head?_cons, Option.any_some, visible,
          if_neg Bool.false_ne_true, collapse_visible visible]
      have shown := trimEnd_visible visible (collapse runes)
      rw [spaced, collapse_visible visible, continued, continued, visible, if_neg Bool.false_ne_true,
        if_neg Bool.false_ne_true, plain, shown]
      constructor
      · rfl
      · rw [trimEnd_cons, shown, if_neg (cons_ne_nil _ _)]
        rfl

theorem trimStart_collapse : trimStart (collapse runes) = collapse (trimStart runes) := by
  induction runes with
  | nil => rfl
  | cons rune runes ih =>
    cases visible : isSpace rune.code with
    | true =>
      have skipped : trimStart (rune :: runes) = trimStart runes := by
        rw [trimStart, dropWhile_cons, visible, if_pos rfl, trimStart]
      rw [skipped, ← ih, collapse, visible, if_pos rfl]
      split
      · rfl
      · rw [trimStart, dropWhile_cons, isSpace_space, if_pos rfl, trimStart]
    | false =>
      have kept : ∀ rest, trimStart (rune :: rest) = rune :: rest := fun rest => by
        rw [trimStart, dropWhile_cons, visible, if_neg Bool.false_ne_true]
      rw [kept, collapse_visible visible, kept]

theorem folded_eq : folded runes = trimEnd (trimStart (collapse runes)) := by
  rw [trimStart_collapse, folded]
  cases found : trimStart runes with
  | nil => rfl
  | cons rune rest =>
    have visible : isSpace rune.code = false := by
      have stops := head?_dropWhile_not (fun rune : Rune => isSpace rune.code) runes
      rw [← trimStart, found] at stops
      exact stops
    show rune :: continued false rest = _
    rw [collapse_visible visible, trimEnd_visible visible, (continued_eq rest).1]

theorem folded_trimStart : folded (trimStart runes) = folded runes := by
  have twice : trimStart (trimStart runes) = trimStart runes := dropWhile_idempotent _ _
  rw [folded, folded, twice]

theorem trimStart_visible (visible : isSpace rune.code = false) (runes : List Rune) :
    trimStart (rune :: runes) = rune :: runes := by
  rw [trimStart, dropWhile_cons, visible, if_neg Bool.false_ne_true]

/-! ### Where a pattern occurs -/

theorem snoc_suffix {α : Type} {pattern items : List α} {value item : α} :
    pattern ++ [value] <:+ items ++ [item] ↔ value = item ∧ pattern <:+ items := by
  rw [suffix_concat_iff]
  constructor
  · rintro (contra | ⟨front, same, within⟩)
    · exact absurd contra (append_ne_nil_of_right_ne_nil _ (cons_ne_nil _ _))
    · obtain ⟨rfl, single⟩ := append_inj' same rfl
      exact ⟨head_eq_of_cons_eq single, within⟩
  · rintro ⟨rfl, within⟩
    exact .inr ⟨pattern, rfl, within⟩

theorem asciiRune_inj {first second : UInt8} (same : asciiRune first = asciiRune second) : first = second :=
  head_eq_of_cons_eq (congrArg Rune.raw same)

theorem ascii_suffix :
    ∀ {pattern : List UInt8}, (∀ rune ∈ runes, Decoded rune) → (∀ byte ∈ pattern, byte.toNat < 0x80) →
      (pattern <:+ runes.flatMap Rune.raw ↔ pattern.map asciiRune <:+ runes) := by
  induction runes using List.reverseRecOn with
  | nil =>
    intro pattern _ _
    rw [flatMap_nil, suffix_nil, suffix_nil, map_eq_nil_iff]
  | append_singleton runes rune ih =>
    intro pattern decoded ascii
    have earlier : ∀ other ∈ runes, Decoded other := fun other member => decoded other (mem_append_left _ member)
    have last : Decoded rune := decoded rune (mem_append_right _ mem_cons_self)
    rw [flatMap_append, flatMap_singleton]
    rcases eq_nil_or_concat' pattern with rfl | ⟨front, byte, rfl⟩
    · exact ⟨fun _ => nil_suffix, fun _ => nil_suffix⟩
    · have small := ascii byte (mem_append_right _ mem_cons_self)
      have frontAscii : ∀ other ∈ front, other.toNat < 0x80 := fun other member =>
        ascii other (mem_append_left _ member)
      rw [map_append, map_singleton, snoc_suffix]
      rcases last.ascii_or_high with ⟨value, _, rfl⟩ | high
      · show front ++ [byte] <:+ runes.flatMap Rune.raw ++ [value] ↔ _
        rw [snoc_suffix, ih earlier frontAscii]
        exact and_congr_left fun _ => ⟨congrArg asciiRune, asciiRune_inj⟩
      · rcases eq_nil_or_concat' rune.raw with none_read | ⟨rest, final, read⟩
        · exact absurd none_read last.1
        · have bigger : 0x80 ≤ final.toNat := high final (by rw [read]; exact mem_append_right _ mem_cons_self)
          rw [read, ← List.append_assoc, snoc_suffix]
          constructor
          · rintro ⟨rfl, _⟩
            omega
          · rintro ⟨rfl, _⟩
            have same : [] ++ [byte] = rest ++ [final] := read
            have same : byte = final := head_eq_of_cons_eq (append_inj' same rfl).2
            rw [same] at small
            omega

variable {runes : List Rune}

theorem afterFirst_none {pattern : List Rune} (absent : ¬ pattern <:+: runes) :
    afterFirst pattern runes = none := by
  induction runes with
  | nil => rfl
  | cons rune runes ih =>
    obtain ⟨notHere, notLater⟩ := not_or.mp (mt infix_cons_iff.mpr absent)
    rw [afterFirst, if_neg (mt isPrefixOf_iff_prefix.mp notHere), ih notLater]

theorem afterFirst_ends {pattern : List Rune} (rest : List Rune) {seen : List Rune} (absent : ¬ pattern <:+: seen)
    (ends : pattern <:+ seen ++ [rune]) :
    afterFirst pattern (seen ++ rune :: rest) = some rest := by
  induction seen with
  | nil =>
    rcases suffix_cons_iff.mp ends with rfl | nothing
    · have begins : [rune].isPrefixOf (rune :: rest) = true := isPrefixOf_iff_prefix.mpr ⟨rest, rfl⟩
      rw [nil_append, afterFirst, if_pos begins]
      rfl
    · exact absurd nothing.isInfix absent
  | cons first seen ih =>
    obtain ⟨notHere, notLater⟩ := not_or.mp (mt infix_cons_iff.mpr absent)
    have whole : first :: seen ++ rune :: rest = (first :: seen ++ [rune]) ++ rest := by
      rw [List.append_assoc, singleton_append]
    rw [cons_append, afterFirst]
    rcases suffix_cons_iff.mp ends with all | later
    · obtain rfl : pattern = first :: (seen ++ [rune]) := all
      have begins : (first :: (seen ++ [rune])).isPrefixOf (first :: (seen ++ rune :: rest)) = true :=
        isPrefixOf_iff_prefix.mpr ⟨rest, whole.symm⟩
      rw [if_pos begins]
      show some ((first :: seen ++ rune :: rest).drop (first :: seen ++ [rune]).length) = _
      rw [whole, drop_left]
    · have notBegins : ¬ pattern.isPrefixOf (first :: (seen ++ rune :: rest)) = true := by
        intro contra
        have begins : pattern <+: (first :: seen) ++ rune :: rest := isPrefixOf_iff_prefix.mp contra
        have short : pattern.length ≤ (first :: seen).length := by
          have bound : pattern.length ≤ (seen ++ [rune]).length := later.length_le
          rw [length_append] at bound
          exact bound
        exact notHere (prefix_of_prefix_length_le begins (prefix_append _ _) short)
      rw [if_neg notBegins]
      exact ih notLater later

/-! ### A leading think block -/

/-- A normaliser has written these runes since the text began. -/
structure Holds (normalizer : TextNormalizer) (runes : List Rune) : Prop where
  sink : normalizer.sink = encode runes
  runes : normalizer.runes = runes.length

/-- A normaliser that holds the start of a tag that may be `<think>`. -/
def deciding (buffer : List UInt8) : TextNormalizer := { TextNormalizer.new true with thinkBuf := buffer }

/-- A normaliser in a think block that holds its last bytes. -/
def withinBlock (buffer : List UInt8) : TextNormalizer :=
  { TextNormalizer.new true with think := .inside, thinkBuf := buffer }

theorem consume_deciding (buffer : List UInt8) (rune : Rune) : (deciding buffer).consume rune =
    if buffer = [] ∧ isSpace rune.code = true then deciding buffer
    else if buffer ++ rune.raw = thinkOpen then withinBlock []
    else if (buffer ++ rune.raw).isPrefixOf thinkOpen = true then deciding (buffer ++ rune.raw)
    else (TextNormalizer.new false).replay (buffer ++ rune.raw) := rfl

theorem consume_withinBlock (buffer : List UInt8) (rune : Rune) : (withinBlock buffer).consume rune =
    if thinkClose.isSuffixOf (buffer ++ rune.raw) = true then .new false
    else withinBlock ((buffer ++ rune.raw).drop ((buffer ++ rune.raw).length - 7)) := rfl

theorem settle_off (off : normalizer.think = .off) : normalizer.settle = normalizer := by
  unfold TextNormalizer.settle
  rw [off]
  exact if_neg fun contra => by cases contra.1

theorem Wrote.holds (wrote : Wrote normalizer (.new false) runes) : Holds normalizer runes :=
  ⟨wrote.sink, wrote.runes.trans (Nat.zero_add _)⟩

theorem emitted_folded (runes : List Rune) :
    Holds (runes.foldl TextNormalizer.consume (.new false)).settle (folded runes) := by
  have wrote : Wrote (runes.foldl TextNormalizer.consume (.new false)) (.new false) (folded runes) :=
    emits_folded runes rfl rfl rfl
  rw [settle_off wrote.think]
  exact wrote.holds

theorem ascii_raw (bytes : List UInt8) : (bytes.map asciiRune).flatMap Rune.raw = bytes := by
  induction bytes with
  | nil => rfl
  | cons byte bytes ih => rw [map_cons, flatMap_cons, ih]; rfl

theorem thinkClose_ascii : ∀ byte ∈ thinkClose, byte.toNat < 0x80 := by
  have each : thinkClose.all (fun byte => decide (byte.toNat < 0x80)) = true := rfl
  exact fun byte member => of_decide_eq_true (all_eq_true.mp each byte member)

theorem window_suffix {bytes raw : List UInt8} (some_byte : raw ≠ []) :
    thinkClose <:+ bytes.drop (bytes.length - 7) ++ raw ↔ thinkClose <:+ bytes ++ raw := by
  have tail : bytes.drop (bytes.length - 7) ++ raw <:+ bytes ++ raw :=
    ⟨bytes.take (bytes.length - 7), by rw [← List.append_assoc, take_append_drop]⟩
  constructor
  · exact fun ends => ends.trans tail
  · intro ends
    apply suffix_of_suffix_length_le ends tail
    have whole := ends.length_le
    have positive := length_pos_iff.mpr some_byte
    have eight : thinkClose.length = 8 := rfl
    rw [length_append] at whole
    rw [length_append, length_drop]
    omega

theorem window_next (bytes raw : List UInt8) :
    (bytes.drop (bytes.length - 7) ++ raw).drop ((bytes.drop (bytes.length - 7) ++ raw).length - 7) =
      (bytes ++ raw).drop ((bytes ++ raw).length - 7) := by
  by_cases short : bytes.length ≤ 7
  · rw [Nat.sub_eq_zero_of_le short, drop_zero]
  · have split : bytes ++ raw = bytes.take (bytes.length - 7) ++ (bytes.drop (bytes.length - 7) ++ raw) := by
      rw [← List.append_assoc, take_append_drop]
    have places : (bytes ++ raw).length - 7 =
        (bytes.take (bytes.length - 7)).length + ((bytes.drop (bytes.length - 7) ++ raw).length - 7) := by
      rw [length_append, length_append, length_take, length_drop]
      omega
    rw [places, split, drop_length_add_append]

theorem inside_settles (runes : List Rune) :
    ∀ {seen : List Rune} {buffer : List UInt8}, (∀ rune ∈ seen ++ runes, Decoded rune) →
      ¬ thinkClose.map asciiRune <:+: seen →
      buffer = (seen.flatMap Rune.raw).drop ((seen.flatMap Rune.raw).length - 7) →
      Holds (runes.foldl TextNormalizer.consume (withinBlock buffer)).settle
        (folded ((afterFirst (thinkClose.map asciiRune) (seen ++ runes)).getD [])) := by
  induction runes with
  | nil =>
    intro seen buffer _ absent _
    rw [append_nil, afterFirst_none absent]
    exact ⟨rfl, rfl⟩
  | cons rune runes ih =>
    intro seen buffer decoded absent window
    have moved : seen ++ rune :: runes = (seen ++ [rune]) ++ runes := append_cons _ _ _
    have front : ∀ other ∈ seen ++ [rune], Decoded other := by
      rw [moved] at decoded
      exact fun other member => decoded other (mem_append_left _ member)
    have some_byte : rune.raw ≠ [] := (front rune (mem_append_right _ mem_cons_self)).1
    have joined : (seen ++ [rune]).flatMap Rune.raw = seen.flatMap Rune.raw ++ rune.raw := by
      rw [flatMap_append, flatMap_singleton]
    have ends_iff : thinkClose.isSuffixOf (buffer ++ rune.raw) = true ↔ thinkClose.map asciiRune <:+ seen ++ [rune] := by
      rw [isSuffixOf_iff_suffix, window, window_suffix some_byte, ← joined, ascii_suffix _ front thinkClose_ascii]
    rw [foldl_cons]
    by_cases ends : thinkClose.map asciiRune <:+ seen ++ [rune]
    · rw [consume_withinBlock, if_pos (ends_iff.mpr ends), afterFirst_ends runes absent ends]
      exact emitted_folded runes
    · have absentThen : ¬ thinkClose.map asciiRune <:+: seen ++ [rune] := by
        rw [infix_concat_iff]
        exact not_or.mpr ⟨ends, absent⟩
      rw [consume_withinBlock, if_neg (mt ends_iff.mp ends), moved]
      apply ih (by rw [← moved]; exact decoded) absentThen
      rw [joined, window, window_next]

theorem replay_decoded (decoded : Decoded rune) (normalizer : TextNormalizer) :
    normalizer.replay rune.raw = normalizer.emit rune := by
  rw [replay_rune normalizer decoded.1, decoded.2, take_length, drop_length, replay_nil]

theorem replay_ascii {bytes : List UInt8} (ascii : ∀ byte ∈ bytes, byte.toNat < 0x80) (raw : List UInt8) :
    ∀ normalizer : TextNormalizer,
      normalizer.replay (bytes ++ raw) = ((bytes.map asciiRune).foldl TextNormalizer.emit normalizer).replay raw := by
  induction bytes with
  | nil => intro normalizer; rfl
  | cons byte bytes ih =>
    intro normalizer
    rw [cons_append, replay_rune normalizer (cons_ne_nil _ _),
      decodeRune_ascii (ascii byte mem_cons_self), map_cons, foldl_cons]
    exact ih (fun other member => ascii other (mem_cons_of_mem _ member)) _

theorem emits_off :
    ∀ {normalizer : TextNormalizer}, normalizer.think = .off →
      runes.foldl TextNormalizer.emit normalizer = runes.foldl TextNormalizer.consume normalizer := by
  induction runes with
  | nil => intro normalizer _; rfl
  | cons rune runes ih =>
    intro normalizer off
    have still : (normalizer.emit rune).think = .off := by
      unfold TextNormalizer.emit TextNormalizer.writeSpace
      dsimp only
      split <;> split <;> exact off
    rw [foldl_cons, foldl_cons, consume_off off, ih still]

theorem thinkOpen_ascii : ∀ byte ∈ thinkOpen, byte.toNat < 0x80 := by
  have each : thinkOpen.all (fun byte => decide (byte.toNat < 0x80)) = true := rfl
  exact fun byte member => of_decide_eq_true (all_eq_true.mp each byte member)

theorem opening_rune {buffer : List UInt8} (decoded : Decoded rune) (begins : buffer ++ rune.raw <+: thinkOpen) :
    ∃ byte, rune = asciiRune byte := by
  rcases decoded.ascii_or_high with ⟨byte, _, same⟩ | high
  · exact ⟨byte, same⟩
  · obtain ⟨byte, member⟩ := exists_mem_of_ne_nil _ decoded.1
    have small := thinkOpen_ascii byte (begins.subset (mem_append_right _ member))
    have big := high byte member
    omega

theorem trimStart_buffered {buffer : List UInt8} (begins : buffer <+: thinkOpen)
    (visible : buffer ≠ [] ∨ ∀ rune ∈ runes.head?, isSpace rune.code = false) :
    trimStart (buffer.map asciiRune ++ runes) = buffer.map asciiRune ++ runes := by
  cases buffer with
  | nil =>
    cases runes with
    | nil => rfl
    | cons rune runes =>
      rcases visible with contra | visible
      · exact absurd rfl contra
      · exact trimStart_visible (visible rune rfl) runes
  | cons byte buffer =>
    obtain ⟨rest, all⟩ := begins
    obtain rfl : byte = 0x3C := head_eq_of_cons_eq all
    exact trimStart_visible (by decide) _

theorem undecided_settles (runes : List Rune) :
    ∀ {buffer : List UInt8}, (∀ rune ∈ runes, Decoded rune) → buffer <+: thinkOpen → buffer ≠ thinkOpen →
      Holds (runes.foldl TextNormalizer.consume (deciding buffer)).settle
        (folded (dropThink (trimStart (buffer.map asciiRune ++ runes)))) := by
  induction runes with
  | nil =>
    intro buffer _ begins partly
    have plain : dropThink (buffer.map asciiRune) = buffer.map asciiRune := by
      unfold dropThink
      apply if_neg
      intro contra
      have long := (List.isPrefixOf_iff_prefix.mp contra).length_le
      rw [length_map, length_map] at long
      exact partly (begins.eq_of_length_le long)
    rw [append_nil]
    by_cases empty : buffer = []
    · rw [empty]
      exact ⟨rfl, rfl⟩
    · have kept : trimStart (buffer.map asciiRune ++ []) = buffer.map asciiRune ++ [] :=
        trimStart_buffered begins (.inl empty)
      rw [append_nil] at kept
      rw [kept, plain]
      have flushed : (deciding buffer).settle = (buffer.map asciiRune).foldl TextNormalizer.consume (.new false) := by
        have replayed := replay_ascii (fun byte member => thinkOpen_ascii byte (begins.subset member)) []
          (TextNormalizer.new false)
        rw [append_nil, replay_nil, emits_off rfl] at replayed
        unfold TextNormalizer.settle
        rw [if_pos ⟨rfl, empty⟩]
        exact replayed
      rw [foldl_nil, flushed]
      exact (emits_folded _ rfl rfl rfl).holds
  | cons rune runes ih =>
    intro buffer decoded begins partly
    have first : Decoded rune := decoded rune mem_cons_self
    have later : ∀ other ∈ runes, Decoded other := fun other member => decoded other (mem_cons_of_mem _ member)
    have moved : buffer.map asciiRune ++ rune :: runes = (buffer.map asciiRune ++ [rune]) ++ runes :=
      append_cons _ _ _
    rw [foldl_cons, consume_deciding]
    by_cases skips : buffer = [] ∧ isSpace rune.code = true
    · obtain ⟨rfl, space⟩ := skips
      have skipped : trimStart (rune :: runes) = trimStart runes := by
        rw [trimStart, dropWhile_cons, space, if_pos rfl, trimStart]
      rw [if_pos ⟨rfl, space⟩, map_nil, nil_append, skipped]
      exact ih later begins partly
    have kept : trimStart (buffer.map asciiRune ++ rune :: runes) = buffer.map asciiRune ++ rune :: runes := by
      apply trimStart_buffered begins
      by_cases empty : buffer = []
      · refine .inr fun other isFirst => ?_
        rw [← Option.some.inj isFirst]
        exact Bool.not_eq_true _ ▸ fun space => skips ⟨empty, space⟩
      · exact .inl empty
    rw [if_neg skips, kept]
    by_cases opens : buffer ++ rune.raw = thinkOpen
    · obtain ⟨byte, rfl⟩ := opening_rune first ⟨[], by rw [append_nil]; exact opens⟩
      have tag : buffer.map asciiRune ++ [asciiRune byte] = thinkOpen.map asciiRune := by
        rw [← opens, map_append]
        rfl
      have begun : (thinkOpen.map asciiRune).isPrefixOf (thinkOpen.map asciiRune ++ runes) = true :=
        isPrefixOf_iff_prefix.mpr ⟨runes, rfl⟩
      have after : (thinkOpen.map asciiRune ++ runes).drop thinkOpen.length = runes :=
        drop_left' (length_map _)
      rw [if_pos opens, moved, tag, dropThink, if_pos begun, after]
      exact @inside_settles runes [] [] later (by decide) rfl
    rw [if_neg opens]
    by_cases waits : (buffer ++ rune.raw).isPrefixOf thinkOpen = true
    · have longer := isPrefixOf_iff_prefix.mp waits
      obtain ⟨byte, rfl⟩ := opening_rune first longer
      have read := ih later longer opens
      rw [trimStart_buffered longer (.inl (append_ne_nil_of_right_ne_nil _ first.1)), map_append] at read
      rw [if_pos waits, moved]
      exact read
    · have plain : dropThink (buffer.map asciiRune ++ rune :: runes) = buffer.map asciiRune ++ rune :: runes := by
        unfold dropThink
        apply if_neg
        intro contra
        have tag : thinkOpen.map asciiRune <+: (buffer.map asciiRune ++ [rune]) ++ runes := by
          rw [← moved]
          exact isPrefixOf_iff_prefix.mp contra
        have shorter : (buffer.map asciiRune ++ [rune]).length ≤ (thinkOpen.map asciiRune).length := by
          have within := begins.length_le
          have other : buffer.length ≠ thinkOpen.length := fun same => partly (begins.eq_of_length same)
          rw [length_append, length_map, length_map, length_singleton]
          omega
        obtain ⟨rest, starts⟩ := prefix_of_prefix_length_le (prefix_append _ _) tag shorter
        have bytes := congrArg (List.flatMap Rune.raw) starts
        rw [flatMap_append, flatMap_append, flatMap_singleton, ascii_raw, ascii_raw] at bytes
        exact waits (List.isPrefixOf_iff_prefix.mpr ⟨rest.flatMap Rune.raw, bytes⟩)
      have flushed : (TextNormalizer.new false).replay (buffer ++ rune.raw) =
          (buffer.map asciiRune ++ [rune]).foldl TextNormalizer.consume (.new false) := by
        rw [replay_ascii (fun byte member => thinkOpen_ascii byte (begins.subset member)), replay_decoded first,
          ← emits_off rfl, foldl_append, foldl_cons, foldl_nil]
      rw [if_neg waits, plain, flushed, ← foldl_append, ← moved]
      exact emitted_folded _

theorem finalize_holds (stripLeadingThink : Bool) (chunks : List (List UInt8)) :
    Holds (feed stripLeadingThink chunks).finalize (normalizedText stripLeadingThink chunks.flatten) := by
  unfold feed normalizedText normalized
  rw [finalize_runes, ← folded_eq]
  cases stripLeadingThink with
  | false =>
    rw [if_neg Bool.false_ne_true, id, folded_trimStart]
    exact emitted_folded _
  | true =>
    rw [if_pos rfl]
    exact undecided_settles _ (runesOf_decoded _) nil_prefix (by decide)

/-- Whatever the chunks of a text are, the normaliser counts and hashes what the whole text folds into. A leading
think block is dropped through its first closing tag, and to the end of the text when it is not finished. -/
theorem folds_text (stripLeadingThink : Bool) (chunks : List (List UInt8)) (sha256 : List UInt8 → List UInt8) :
    (feed stripLeadingThink chunks).runesSoFar = (normalizedText stripLeadingThink chunks.flatten).length ∧
      (feed stripLeadingThink chunks).digest sha256 =
        if normalizedText stripLeadingThink chunks.flatten = [] then none
        else some (sha256 (encode (normalizedText stripLeadingThink chunks.flatten))) := by
  have holds := finalize_holds stripLeadingThink chunks
  constructor
  · exact holds.runes
  · unfold TextNormalizer.digest
    rw [holds.runes, holds.sink]
    by_cases empty : normalizedText stripLeadingThink chunks.flatten = []
    · rw [if_pos empty, if_pos (length_eq_zero_iff.mpr empty)]
    · rw [if_neg empty, if_neg (mt length_eq_zero_iff.mp empty)]

/-- An unfinished think block counts for nothing, and is not kept as text. -/
theorem unfinished_block_dropped :
    ¬ ∀ (stripLeadingThink : Bool) (chunks : List (List UInt8)),
      (feed stripLeadingThink chunks).runesSoFar =
        (normalized (if stripLeadingThink then dropCompleteThink else id) chunks.flatten).length := by
  intro all
  exact absurd (all true [thinkOpen ++ [0x61]]) (by decide +kernel)

end AstrLink.Normalizing
