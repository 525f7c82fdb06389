import AstrLink.NormalizedText

/-!
Reading a normaliser while text still comes in. A read settles what only the end
of the text can settle, so it is felt later when the text goes on inside a rune
or a tag. `Harmless` says when it is not.
-/
namespace AstrLink.NormalizerReads
open Utf8Runes Normalizing List

inductive Call where
  | write (chunk : List UInt8)
  | runes
  | digest

/-- Both reading calls settle the end of the text before they answer. -/
def Call.run (normalizer : TextNormalizer) : Call → TextNormalizer
  | .write chunk => normalizer.write chunk
  | .runes => normalizer.finalize
  | .digest => normalizer.finalize

def bytesOf (calls : List Call) : List UInt8 :=
  calls.flatMap fun
    | .write chunk => chunk
    | .runes => []
    | .digest => []

def Call.isWrite : Call → Bool
  | .write _ => true
  | .runes => false
  | .digest => false

/-- The last answers of two normalisers are the same, whatever the hash. -/
structure Alike (first second : TextNormalizer) : Prop where
  runes : first.runesSoFar = second.runesSoFar
  digest : ∀ sha256, first.digest sha256 = second.digest sha256

/-- The reads among the calls are not felt at the end. -/
def Undisturbed (stripLeadingThink : Bool) (calls : List Call) : Prop :=
  Alike (calls.foldl Call.run (.new stripLeadingThink))
    ((calls.filter Call.isWrite).foldl Call.run (.new stripLeadingThink))

/-- The bytes that come later would not have changed what a read settles. -/
def Harmless (normalizer : TextNormalizer) (later : List UInt8) : Prop :=
  later = [] ∨ normalizer.think = .inside ∨
    ((normalizer.partialRune = [] ∨ ∃ first, normalizer.partialRune = [first] ∧
        fullRune (first :: later) = true ∧ (decodeRune (first :: later)).2 = 1) ∧
      (normalizer.think = .undecided → normalizer.thinkBuf ≠ [] →
        ¬ thinkOpen <+: normalizer.thinkBuf ++ normalizer.partialRune ++ later))

/-- Every read among the calls is harmless where it is made. -/
def AllHarmless : TextNormalizer → List Call → Prop
  | _, [] => True
  | normalizer, .write chunk :: rest => AllHarmless (normalizer.write chunk) rest
  | normalizer, .runes :: rest => Harmless normalizer (bytesOf rest) ∧ AllHarmless normalizer.finalize rest
  | normalizer, .digest :: rest => Harmless normalizer (bytesOf rest) ∧ AllHarmless normalizer.finalize rest

/-! ### The states of a run -/

inductive Phase : TextNormalizer → Prop where
  | off {normalizer : TextNormalizer} : normalizer.think = .off → normalizer.partialRune = [] → Phase normalizer
  | buffering {buffer : List UInt8} : buffer <+: thinkOpen → buffer ≠ thinkOpen → Phase (deciding buffer)
  | skipping {seen : List Rune} : (∀ rune ∈ seen, Decoded rune) → ¬ thinkClose.map asciiRune <:+: seen →
      Phase (withinBlock ((seen.flatMap Rune.raw).drop ((seen.flatMap Rune.raw).length - 7)))

/-- The state that consumes some more bytes to their end. -/
def result (normalizer : TextNormalizer) (bytes : List UInt8) : TextNormalizer :=
  ((runesOf bytes).foldl TextNormalizer.consume normalizer).settle

def Held (normalizer : TextNormalizer) : Prop :=
  ∃ core bytes, Phase core ∧ fullRune bytes = false ∧ normalizer = holding core bytes

section
variable {core normalizer : TextNormalizer} {rune : Rune} {bytes later : List UInt8}

theorem replay_think (bytes : List UInt8) : ∀ normalizer : TextNormalizer,
    (normalizer.replay bytes).think = normalizer.think ∧
      (normalizer.replay bytes).partialRune = normalizer.partialRune := by
  induction counted : bytes.length using Nat.strongRecOn generalizing bytes with
  | ind count ih =>
    intro normalizer
    cases bytes with
    | nil => rw [replay_nil]; exact ⟨rfl, rfl⟩
    | cons first rest =>
      have more : first :: rest ≠ [] := cons_ne_nil _ _
      obtain ⟨positive, bounded⟩ := decodeRune_size more
      have shorter : ((first :: rest).drop (decodeRune (first :: rest)).2).length < count := by
        rw [length_drop]
        omega
      rw [replay_rune _ more]
      obtain ⟨think, held⟩ := ih _ shorter _ rfl
        (normalizer.emit ⟨(decodeRune (first :: rest)).1, (first :: rest).take (decodeRune (first :: rest)).2⟩)
      rw [think, held]
      unfold TextNormalizer.emit TextNormalizer.writeSpace
      split <;> split <;> exact ⟨rfl, rfl⟩

theorem Phase.partialRune (phase : Phase core) : core.partialRune = [] := by
  cases phase with
  | off _ none_held => exact none_held
  | buffering => rfl
  | skipping => rfl

theorem Phase.new (stripLeadingThink : Bool) : Phase (.new stripLeadingThink) := by
  cases stripLeadingThink with
  | false => exact .off rfl rfl
  | true => exact @Phase.buffering [] nil_prefix (by decide)

theorem Phase.consume (phase : Phase core) (decoded : Decoded rune) : Phase (core.consume rune) := by
  cases phase with
  | off off none_held =>
    refine .off ?_ (consumes_partialRune [rune] none_held)
    rw [consume_off off]
    unfold TextNormalizer.emit TextNormalizer.writeSpace
    split <;> split <;> exact off
  | @buffering buffer begins partly =>
    rw [consume_deciding]
    split
    · exact .buffering begins partly
    split
    · exact @Phase.skipping [] (by simp) (by decide)
    rename_i opens
    split
    · rename_i waits
      exact .buffering (List.isPrefixOf_iff_prefix.mp waits) opens
    · obtain ⟨think, held⟩ := replay_think (buffer ++ rune.raw) (.new false)
      exact .off think held
  | @skipping seen decodedSeen absent =>
    have joined : (seen ++ [rune]).flatMap Rune.raw = seen.flatMap Rune.raw ++ rune.raw := by
      rw [flatMap_append, flatMap_singleton]
    have front : ∀ other ∈ seen ++ [rune], Decoded other := by
      intro other member
      rcases mem_append.mp member with earlier | last
      · exact decodedSeen other earlier
      · rw [mem_singleton.mp last]
        exact decoded
    rw [consume_withinBlock]
    split
    · exact .off rfl rfl
    · rename_i open_still
      rw [isSuffixOf_iff_suffix, window_suffix decoded.1, ← joined,
        ascii_suffix _ front thinkClose_ascii] at open_still
      rw [window_next, ← joined]
      exact .skipping front (by rw [infix_concat_iff]; exact not_or.mpr ⟨open_still, absent⟩)

theorem Phase.consumes (phase : Phase core) {runes : List Rune} (decoded : ∀ rune ∈ runes, Decoded rune) :
    Phase (runes.foldl TextNormalizer.consume core) := by
  induction runes generalizing core with
  | nil => exact phase
  | cons rune runes ih =>
    obtain ⟨first, others⟩ := forall_mem_cons.mp decoded
    exact ih (phase.consume first) others

theorem Phase.settle (phase : Phase core) : Phase core.settle := by
  cases phase with
  | off off none_held =>
    rw [settle_off off]
    exact .off off none_held
  | @buffering buffer begins partly =>
    unfold TextNormalizer.settle
    split
    · obtain ⟨think, held⟩ := replay_think buffer (.new false)
      exact .off think held
    · exact .buffering begins partly
  | skipping decoded absent => exact .skipping decoded absent

theorem Phase.result (phase : Phase core) (bytes : List UInt8) : Phase (result core bytes) :=
  (phase.consumes (runesOf_decoded bytes)).settle

/-! ### What a read leaves -/

/-- What the bytes of an unfinished rune are read as at the end. -/
def dangling (bytes : List UInt8) : List Rune := bytes.head?.toList.map fun first => ⟨runeError, [first]⟩

theorem runesOf_eq (bytes : List UInt8) : runesOf bytes = (completeRunes bytes).1 ++ dangling (completeRunes bytes).2 := by
  rw [runesOf]
  cases (completeRunes bytes).2 <;> rfl

theorem runesOf_short (short : fullRune bytes = false) : runesOf bytes = dangling bytes := by
  rw [runesOf_eq, completeRunes_short short, nil_append]

theorem runesOf_full (full : fullRune bytes = true) :
    runesOf bytes = ⟨(decodeRune bytes).1, bytes.take (decodeRune bytes).2⟩ :: runesOf (bytes.drop (decodeRune bytes).2) := by
  rw [runesOf, completeRunes_full full, runesOf]
  rfl

theorem finalize_result (phase : Phase core) (short : fullRune bytes = false) :
    (holding core bytes).finalize = result core bytes := by
  unfold TextNormalizer.finalize result
  rw [runesOf_short short]
  cases bytes with
  | nil =>
    show (holding core []).settle = core.settle
    rw [holding_nil phase.partialRune]
  | cons first rest =>
    show ((holding core []).consume _).settle = (core.consume _).settle
    rw [holding_nil phase.partialRune]

theorem write_finalize (phase : Phase core) (chunk : List UInt8) :
    ((holding core bytes).write chunk).finalize = result core (bytes ++ chunk) := by
  rw [write_runes _ _ _ phase.partialRune,
    finalize_result (phase.consumes (completeRunes_decoded _)) (completeRunes_left _)]
  unfold result
  rw [runesOf_short (completeRunes_left _), ← foldl_append, ← runesOf_eq]

theorem Held.new (stripLeadingThink : Bool) : Held (.new stripLeadingThink) :=
  ⟨.new stripLeadingThink, [], Phase.new stripLeadingThink, rfl, (holding_nil rfl).symm⟩

theorem Held.write (held : Held normalizer) (chunk : List UInt8) : Held (normalizer.write chunk) := by
  obtain ⟨core, bytes, phase, _, rfl⟩ := held
  exact ⟨_, _, phase.consumes (completeRunes_decoded _), completeRunes_left _, write_runes _ _ _ phase.partialRune⟩

theorem Held.finalize (held : Held normalizer) : Held normalizer.finalize := by
  obtain ⟨core, bytes, phase, short, rfl⟩ := held
  have settled := phase.result bytes
  rw [finalize_result phase short]
  exact ⟨_, [], settled, rfl, (holding_nil settled.partialRune).symm⟩

theorem finalize_write (phase : Phase core) (short : fullRune bytes = false) (chunk : List UInt8) :
    ((holding core bytes).finalize.write chunk).finalize = result (result core bytes) chunk := by
  have settled := phase.result bytes
  rw [finalize_result phase short, ← holding_nil settled.partialRune, write_finalize settled, nil_append,
    holding_nil settled.partialRune]

theorem Alike.of_holds {first second : TextNormalizer} {runes : List Rune} (left : Holds first.finalize runes)
    (right : Holds second.finalize runes) : Alike first second := by
  refine ⟨left.runes.trans right.runes.symm, fun sha256 => ?_⟩
  unfold TextNormalizer.digest
  rw [left.runes, left.sink, right.runes, right.sink]

theorem Alike.of_eq {first second : TextNormalizer} (same : first.finalize = second.finalize) : Alike first second := by
  refine ⟨congrArg TextNormalizer.runes same, fun sha256 => ?_⟩
  unfold TextNormalizer.digest
  rw [same]

theorem settle_settle (phase : Phase core) : core.settle.settle = core.settle := by
  cases phase with
  | off off _ => rw [settle_off off, settle_off off]
  | @buffering buffer begins partly =>
    by_cases empty : buffer = []
    · have kept : (deciding buffer).settle = deciding buffer := if_neg fun contra => contra.2 empty
      rw [kept, kept]
    · have flushed : (deciding buffer).settle = (deciding buffer).flushUndecided := if_pos ⟨rfl, empty⟩
      rw [flushed]
      exact settle_off (replay_think buffer (.new false)).1
  | skipping => rfl

/-! ### Harmless reads -/

theorem deciding_settles {buffer : List UInt8} (begins : buffer <+: thinkOpen) (some_byte : buffer ≠ [])
    (runes : List Rune) (decoded : ∀ rune ∈ runes, Decoded rune) (never : ¬ thinkOpen <+: buffer ++ runes.flatMap Rune.raw) :
    (runes.foldl TextNormalizer.consume (deciding buffer).settle).settle =
      (runes.foldl TextNormalizer.consume (deciding buffer)).settle := by
  have settled : ∀ {buffer : List UInt8}, buffer ≠ [] → (deciding buffer).settle = (TextNormalizer.new false).replay buffer :=
    fun some_byte => if_pos ⟨rfl, some_byte⟩
  induction runes generalizing buffer with
  | nil =>
    rw [foldl_nil, foldl_nil]
    exact settle_settle (.buffering begins (fun same => never ⟨[], by simp [same]⟩))
  | cons rune runes ih =>
    obtain ⟨first, later⟩ := forall_mem_cons.mp decoded
    have more : buffer ++ rune.raw ≠ [] := append_ne_nil_of_left_ne_nil some_byte _
    have emitted : (deciding buffer).settle.consume rune = (TextNormalizer.new false).replay (buffer ++ rune.raw) := by
      have ascii : ∀ byte ∈ buffer, byte.toNat < 0x80 := fun byte member => thinkOpen_ascii byte (begins.subset member)
      have alone := replay_ascii ascii [] (.new false)
      rw [append_nil, replay_nil] at alone
      rw [settled some_byte, replay_ascii ascii, replay_decoded first, ← alone,
        consume_off (replay_think buffer (.new false)).1]
    have further : ¬ thinkOpen <+: (buffer ++ rune.raw) ++ runes.flatMap Rune.raw := by
      rw [List.append_assoc]
      exact never
    rw [foldl_cons, foldl_cons, emitted, consume_deciding, if_neg (fun skips => some_byte skips.1)]
    split
    · rename_i opens
      exact absurd ⟨_, congrArg (· ++ runes.flatMap Rune.raw) opens.symm⟩ further
    split
    · rename_i waits
      rw [← settled more]
      exact ih (List.isPrefixOf_iff_prefix.mp waits) more later further
    · rfl

theorem flatMap_raw : ∀ bytes : List UInt8, (runesOf bytes).flatMap Rune.raw <+: bytes := by
  apply runes_induction
  · intro bytes short
    rw [runesOf_short short]
    cases bytes with
    | nil => exact nil_prefix
    | cons first rest => exact ⟨rest, rfl⟩
  · intro bytes full ih
    rw [runesOf_full full, flatMap_cons]
    obtain ⟨rest, same⟩ := ih
    refine ⟨rest, ?_⟩
    rw [List.append_assoc, same]
    exact take_append_drop _ _

/-- A byte that is read as a rune of its own, and as none that is known. -/
def badByte (byte : UInt8) : Rune := ⟨runeError, [byte]⟩

/-- A byte that goes on with a rune. -/
def Continues (byte : UInt8) : Prop := 0x80 ≤ byte.toNat ∧ byte.toNat ≤ 0xBF

theorem runesOf_continues {front : List UInt8} (continues : ∀ byte ∈ front, Continues byte) (rest : List UInt8) :
    runesOf (front ++ rest) = front.map badByte ++ runesOf rest := by
  induction front with
  | nil => rfl
  | cons byte front ih =>
    obtain ⟨⟨low, high⟩, others⟩ := forall_mem_cons.mp continues
    have alone : following byte = none := by
      unfold following
      dsimp only
      rw [if_neg (by omega), if_pos (by omega)]
    have full : fullRune (byte :: (front ++ rest)) = true := by rw [fullRune, alone]
    have read : decodeRune (byte :: (front ++ rest)) = (runeError, 1) := by rw [decodeRune, alone]
    rw [cons_append, runesOf_full full, read]
    exact congrArg (badByte byte :: ·) (ih others)

variable {first : UInt8} {ranges : List (Nat × Nat)}

theorem following_continues (found : following first = some ranges) :
    ∀ range ∈ ranges, 0x80 ≤ range.1 ∧ range.2 ≤ 0xBF := by
  unfold following at found
  dsimp only at found
  repeat' split at found
  all_goals first
    | rw [← Option.some.inj found]; decide
    | cases found

theorem scan_continues (inside : ∀ range ∈ ranges, 0x80 ≤ range.1 ∧ range.2 ≤ 0xBF) :
    ∀ rest : List UInt8, scan ranges rest ≠ .wrong → ∀ byte ∈ rest.take ranges.length, Continues byte := by
  induction ranges with
  | nil => intro rest _ byte member; rw [length_nil, take_zero] at member; cases member
  | cons range ranges ih =>
    obtain ⟨⟨low, high⟩, others⟩ := forall_mem_cons.mp inside
    intro rest right byte member
    cases rest with
    | nil => cases member
    | cons first rest =>
      rw [scan] at right
      split at right
      · rename_i within
        rw [length_cons, take_succ_cons] at member
        rcases mem_cons.mp member with rfl | later
        · exact ⟨low.trans within.1, within.2.trans high⟩
        · exact ih others rest right byte later
      · exact absurd rfl right

theorem scan_short :
    ∀ {rest : List UInt8}, scan ranges rest = .short → rest.length < ranges.length := by
  induction ranges with
  | nil => intro rest short; cases short
  | cons range ranges ih =>
    intro rest short
    cases rest with
    | nil => exact Nat.succ_pos _
    | cons first rest =>
      rw [scan] at short
      split at short
      · exact Nat.succ_lt_succ (ih short)
      · cases short

theorem high_apart {rest : List UInt8} (high : 0x80 ≤ first.toNat) (begins : rune.raw = first :: rest) :
    rune ∉ thinkClose.map asciiRune := by
  intro member
  obtain ⟨byte, listed, rfl⟩ := mem_map.mp member
  have small := thinkClose_ascii byte listed
  obtain ⟨rfl, _⟩ := List.cons.inj begins
  omega

theorem settled_runes {held : List UInt8} (short : fullRune (first :: held) = false) (later : List UInt8) :
    ∃ front back common, runesOf (first :: held ++ later) = front ++ common ∧
      badByte first :: runesOf later = back ++ common ∧ front ≠ [] ∧ back ≠ [] ∧
      ∀ rune ∈ front ++ back, rune ∉ thinkClose.map asciiRune := by
  rw [fullRune] at short
  cases found : following first with
  | none => rw [found] at short; cases short
  | some ranges =>
    rw [found] at short
    have short : scan ranges held = .short := by simpa using short
    have big : 0x80 ≤ first.toNat := by
      by_contra small
      rw [following_ascii (by omega)] at found
      rw [← Option.some.inj found] at short
      cases short
    have bad_apart : ∀ byte : UInt8, 0x80 ≤ byte.toNat → badByte byte ∉ thinkClose.map asciiRune :=
      fun byte high => high_apart high rfl
    have inside := following_continues found
    have heldShort := scan_short short
    have heldContinues : ∀ byte ∈ held, Continues byte := by
      have all := scan_continues inside held (by rw [short]; decide)
      rwa [take_of_length_le heldShort.le] at all
    have full_iff : fullRune (first :: (held ++ later)) = (scan ranges (held ++ later) != .short) := by rw [fullRune, found]
    cases scanned : scan ranges (held ++ later) with
    | short =>
      -- the rune is not finished by the end
      have laterShort := scan_short scanned
      have continues : ∀ byte ∈ held ++ later, Continues byte := by
        have all := scan_continues inside (held ++ later) (by rw [scanned]; decide)
        rwa [take_of_length_le laterShort.le] at all
      have read := @runesOf_continues later (fun byte member => continues byte (mem_append_right _ member)) []
      have nothing : runesOf [] = [] := runesOf_short rfl
      rw [append_nil, nothing, append_nil] at read
      refine ⟨[badByte first], badByte first :: later.map badByte, [], ?_, ?_, by simp, by simp, ?_⟩
      · rw [cons_append, runesOf_short (by rw [full_iff, scanned]; rfl)]
        rfl
      · rw [read, append_nil]
      · intro rune member
        simp only [mem_append, mem_cons, mem_map, not_mem_nil, or_false] at member
        rcases member with rfl | rfl | ⟨byte, listed, rfl⟩
        · exact bad_apart first big
        · exact bad_apart first big
        · exact bad_apart byte (continues byte (mem_append_right _ listed)).1
    | wrong =>
      -- the next byte does not go on with it
      have read : decodeRune (first :: (held ++ later)) = (runeError, 1) := by
        rw [decodeRune, found]
        dsimp only
        rw [scanned, if_neg (by decide)]
      refine ⟨badByte first :: held.map badByte, [badByte first], runesOf later, ?_, by simp, by simp, by simp, ?_⟩
      · rw [cons_append, runesOf_full (by rw [full_iff, scanned]; rfl), read]
        exact congrArg (badByte first :: ·) (runesOf_continues heldContinues later)
      · intro rune member
        simp only [mem_append, mem_cons, mem_map, not_mem_nil, or_false] at member
        rcases member with (rfl | ⟨byte, listed, rfl⟩) | rfl
        · exact bad_apart first big
        · exact bad_apart byte (heldContinues byte listed).1
        · exact bad_apart first big
    | complete =>
      -- the next bytes finish it
      have read : (decodeRune (first :: (held ++ later))).2 = ranges.length + 1 := by
        rw [decodeRune, found]
        dsimp only
        rw [scanned, if_pos rfl]
      have more : later = later.take (ranges.length - held.length) ++ later.drop (ranges.length - held.length) :=
        (take_append_drop _ _).symm
      have continues : ∀ byte ∈ later.take (ranges.length - held.length), Continues byte := by
        have all := scan_continues inside (held ++ later) (by rw [scanned]; decide)
        rw [take_append, take_of_length_le heldShort.le] at all
        exact fun byte member => all byte (mem_append_right _ member)
      have dropped : (first :: (held ++ later)).drop (ranges.length + 1) = later.drop (ranges.length - held.length) := by
        rw [drop_succ_cons, drop_append, drop_eq_nil_of_le heldShort.le, nil_append]
      refine ⟨[⟨(decodeRune (first :: (held ++ later))).1, first :: (held ++ later).take ranges.length⟩],
        badByte first :: (later.take (ranges.length - held.length)).map badByte,
        runesOf (later.drop (ranges.length - held.length)), ?_, ?_, by simp, by simp, ?_⟩
      · rw [cons_append, runesOf_full (by rw [full_iff, scanned]; rfl), read, dropped]
        rfl
      · rw [cons_append, ← runesOf_continues continues, ← more]
      · intro rune member
        simp only [mem_append, mem_cons, mem_map, not_mem_nil, or_false] at member
        rcases member with rfl | rfl | ⟨byte, listed, rfl⟩
        · exact high_apart big rfl
        · exact bad_apart first big
        · exact bad_apart byte (continues byte listed).1

theorem afterFirst_barrier {pattern front : List Rune} {barrier : Rune} (rest : List Rune)
    (apart : barrier ∉ pattern) (absent : ¬ pattern <:+: front) :
    afterFirst pattern (front ++ barrier :: rest) = afterFirst pattern rest := by
  have outside : ∀ front : List Rune, ¬ pattern <:+: front → ¬ pattern.isPrefixOf (front ++ barrier :: rest) = true := by
    intro front absent contra
    have begins := isPrefixOf_iff_prefix.mp contra
    by_cases shorter : pattern.length ≤ front.length
    · exact absent (prefix_of_prefix_length_le begins (prefix_append _ _) shorter).isInfix
    · have beyond : front ++ [barrier] <+: pattern := by
        refine prefix_of_prefix_length_le ?_ begins ?_
        · exact ⟨rest, by simp⟩
        · rw [length_append, length_singleton]
          omega
      exact apart (beyond.subset (mem_append_right _ mem_cons_self))
  induction front with
  | nil =>
    have notHere : ¬ pattern.isPrefixOf (barrier :: rest) = true := outside [] absent
    rw [nil_append, afterFirst, if_neg notHere]
  | cons rune front ih =>
    have notLater : ¬ pattern <:+: front := fun within => absent (within.trans (suffix_cons rune front).isInfix)
    have notHere : ¬ pattern.isPrefixOf (rune :: (front ++ barrier :: rest)) = true := outside (rune :: front) absent
    rw [cons_append, afterFirst, if_neg notHere, ih notLater]

theorem afterFirst_barriers {pattern front barriers : List Rune} (rest : List Rune) (some_rune : pattern ≠ [])
    (some_barrier : barriers ≠ []) (apart : ∀ barrier ∈ barriers, barrier ∉ pattern) (absent : ¬ pattern <:+: front) :
    afterFirst pattern (front ++ (barriers ++ rest)) = afterFirst pattern rest := by
  induction barriers generalizing front with
  | nil => exact absurd rfl some_barrier
  | cons barrier barriers ih =>
    obtain ⟨first, others⟩ := forall_mem_cons.mp apart
    rw [cons_append, afterFirst_barrier _ first absent]
    by_cases last : barriers = []
    · rw [last, nil_append]
    · exact @ih [] last others (fun within => some_rune (infix_nil.mp within))

theorem result_nil : result core [] = core.settle := by
  rw [result, runesOf_short rfl]
  rfl

theorem result_short {held : List UInt8} (short : fullRune (first :: held) = false) :
    result core (first :: held) = (core.consume (badByte first)).settle := by
  rw [result, runesOf_short short]
  rfl

theorem skipping_read {seen : List Rune} (decoded : ∀ rune ∈ seen, Decoded rune) (absent : ¬ thinkClose.map asciiRune <:+: seen)
    (skipping : core = withinBlock ((seen.flatMap Rune.raw).drop ((seen.flatMap Rune.raw).length - 7)))
    (short : fullRune bytes = false) :
    ∃ runes, Holds (result (result core bytes) later) runes ∧ Holds (result core (bytes ++ later)) runes := by
  have settles : ∀ runes : List Rune, (∀ rune ∈ runes, Decoded rune) →
      Holds (runes.foldl TextNormalizer.consume core).settle
        (folded ((afterFirst (thinkClose.map asciiRune) (seen ++ runes)).getD [])) := by
    intro runes all
    rw [skipping]
    refine inside_settles runes (fun rune member => ?_) absent rfl
    exact (mem_append.mp member).elim (decoded rune) (all rune)
  have whole := settles _ (runesOf_decoded (bytes ++ later))
  cases bytes with
  | nil =>
    have kept : result core [] = core := by
      rw [result_nil, skipping]
      rfl
    rw [kept]
    exact ⟨_, whole, whole⟩
  | cons first held =>
    have kept : result core (first :: held) = core.consume (badByte first) := by
      rw [result_short short, skipping]
      rw [consume_withinBlock]
      split <;> rfl
    have apart := settles (badByte first :: runesOf later)
      (forall_mem_cons.mpr ⟨unfinished_decoded short, runesOf_decoded later⟩)
    obtain ⟨front, back, common, read, readApart, some_front, some_back, outside⟩ := settled_runes short later
    rw [readApart, afterFirst_barriers common (by simp [thinkClose]) some_back
      (fun rune member => outside rune (mem_append_right _ member)) absent, ← readApart] at apart
    rw [read, afterFirst_barriers common (by simp [thinkClose]) some_front
      (fun rune member => outside rune (mem_append_left _ member)) absent, ← read] at whole
    refine ⟨_, ?_, whole⟩
    rw [kept]
    exact apart

theorem runesOf_alone (short : fullRune [first] = false) (full : fullRune (first :: later) = true)
    (alone : (decodeRune (first :: later)).2 = 1) : runesOf (first :: later) = badByte first :: runesOf later := by
  have read : decodeRune (first :: later) = (runeError, 1) := by
    rw [fullRune] at short
    rw [decodeRune] at alone ⊢
    cases found : following first with
    | none => rfl
    | some ranges =>
      rw [found] at short alone
      dsimp only at alone ⊢
      split
      · rename_i complete
        rw [if_pos complete] at alone
        have none_more : ranges = [] := eq_nil_of_length_eq_zero (by omega)
        rw [none_more] at short
        cases short
      · rfl
  rw [runesOf_full full, read]
  rfl

theorem bad_settled (phase : Phase core) (short : fullRune [first] = false) :
    (core.consume (badByte first)).settle = core.consume (badByte first) := by
  have big : 0x80 ≤ first.toNat := by
    by_contra small
    rw [fullRune_ascii (by omega)] at short
    cases short
  cases phase with
  | off off none_held =>
    rw [consume_off off]
    refine settle_off ?_
    unfold TextNormalizer.emit TextNormalizer.writeSpace
    split <;> split <;> exact off
  | @buffering buffer begins partly =>
    have apart : ¬ buffer ++ (badByte first).raw <+: thinkOpen := by
      intro begins
      have small := thinkOpen_ascii first (begins.subset (mem_append_right _ mem_cons_self))
      omega
    have visible : isSpace (badByte first).code = false := rfl
    rw [consume_deciding, if_neg (fun skips => Bool.eq_false_iff.mp visible skips.2),
      if_neg (fun same => apart ⟨[], by rw [append_nil, same]⟩), if_neg (mt isPrefixOf_iff_prefix.mp apart)]
    exact settle_off (replay_think _ _).1
  | @skipping seen decoded absent =>
    rw [consume_withinBlock]
    split <;> rfl

theorem harmless_read (phase : Phase core) (short : fullRune bytes = false) (harmless : Harmless (holding core bytes) later) :
    Alike ((holding core bytes).finalize.write later) ((holding core bytes).write later) := by
  have kept : ∀ {first : UInt8}, bytes = [first] → result core bytes = core.consume (badByte first) := by
    rintro first rfl
    rw [result_short short]
    exact bad_settled phase short
  rcases harmless with rfl | inside | ⟨held, untagged⟩
  · apply Alike.of_eq
    rw [finalize_write phase short, write_finalize phase, append_nil, result_nil]
    exact settle_settle (phase.consumes (runesOf_decoded bytes))
  · cases phase with
    | off off _ =>
      have contra := off.symm.trans inside
      cases contra
    | buffering _ _ => cases inside
    | @skipping seen decoded absent =>
      obtain ⟨runes, left, right⟩ := @skipping_read _ _ later _ decoded absent rfl short
      have phase : Phase (withinBlock ((seen.flatMap Rune.raw).drop ((seen.flatMap Rune.raw).length - 7))) :=
        .skipping decoded absent
      refine @Alike.of_holds _ _ runes ?_ ?_
      · rw [finalize_write phase short]
        exact left
      · rw [write_finalize phase]
        exact right
  · apply Alike.of_eq
    rw [finalize_write phase short, write_finalize phase]
    rcases held with none_held | ⟨first, one, full, alone⟩
    · have none_held : bytes = [] := none_held
      subst none_held
      rw [nil_append]
      cases phase with
      | off off none_held =>
        rw [result_nil, settle_off off]
      | @buffering buffer begins partly =>
        by_cases empty : buffer = []
        · have same : (deciding buffer).settle = deciding buffer := if_neg fun contra => contra.2 empty
          rw [result_nil, same]
        · rw [result_nil]
          refine deciding_settles begins empty _ (runesOf_decoded later) (fun opens => ?_)
          have never : ¬ thinkOpen <+: buffer ++ [] ++ later := untagged rfl empty
          rw [append_nil] at never
          exact never (opens.trans ((prefix_append_right_inj buffer).mpr (flatMap_raw later)))
      | skipping decoded absent =>
        rw [result_nil]
        rfl
    · have one : bytes = [first] := one
      rw [kept one]
      subst one
      rw [singleton_append, result, result, runesOf_alone short full alone, foldl_cons]

end

theorem Alike.trans {first second third : TextNormalizer} (one : Alike first second) (two : Alike second third) :
    Alike first third :=
  ⟨one.runes.trans two.runes, fun sha256 => (one.digest sha256).trans (two.digest sha256)⟩

theorem write_write {normalizer : TextNormalizer} (held : Held normalizer) (first second : List UInt8) :
    Alike ((normalizer.write first).write second) (normalizer.write (first ++ second)) := by
  obtain ⟨core, bytes, phase, _, rfl⟩ := held
  have none_held := phase.partialRune
  have step := completeRunes_append second (bytes ++ first)
  have joined : ((holding core bytes).write first).write second = (holding core bytes).write (first ++ second) := by
    rw [write_runes _ _ _ none_held, write_runes _ _ _ (consumes_partialRune _ none_held), write_runes _ _ _ none_held,
      ← foldl_append, ← List.append_assoc, step]
  rw [joined]
  exact ⟨rfl, fun _ => rfl⟩

variable (calls : List Call)

theorem calls_alike {normalizer : TextNormalizer} (held : Held normalizer) (harmless : AllHarmless normalizer calls) :
    Alike (calls.foldl Call.run normalizer) (normalizer.write (bytesOf calls)) := by
  have reads : ∀ {rest : List Call} {normalizer : TextNormalizer}, Held normalizer → Harmless normalizer (bytesOf rest) →
      Alike (normalizer.finalize.write (bytesOf rest)) (normalizer.write (bytesOf rest)) := by
    rintro rest normalizer ⟨core, bytes, phase, short, rfl⟩ harmless
    exact harmless_read phase short harmless
  induction calls generalizing normalizer with
  | nil =>
    obtain ⟨core, bytes, phase, short, rfl⟩ := held
    apply Alike.of_eq
    rw [write_finalize phase]
    exact (finalize_result phase short).trans (by rw [bytesOf, flatMap_nil, append_nil])
  | cons call rest ih =>
    cases call with
    | write chunk => exact (ih (held.write chunk) harmless).trans (write_write held chunk (bytesOf rest))
    | runes => exact (ih held.finalize harmless.2).trans (reads held harmless.1)
    | digest => exact (ih held.finalize harmless.2).trans (reads held harmless.1)

theorem bytesOf_writes : bytesOf (calls.filter Call.isWrite) = bytesOf calls := by
  induction calls with
  | nil => rfl
  | cons call rest ih =>
    cases call with
    | write chunk =>
      show chunk ++ bytesOf (rest.filter Call.isWrite) = chunk ++ bytesOf rest
      rw [ih]
    | runes => exact ih
    | digest => exact ih

theorem writes_harmless (normalizer : TextNormalizer) : AllHarmless normalizer (calls.filter Call.isWrite) := by
  induction calls generalizing normalizer with
  | nil => trivial
  | cons call rest ih =>
    cases call with
    | write chunk => exact ih (normalizer.write chunk)
    | runes => exact ih normalizer
    | digest => exact ih normalizer

/-- In a run whose reads are all harmless the last count and the last digest are those of the writes alone. -/
theorem reads_undisturbed (stripLeadingThink : Bool) (calls : List Call)
    (harmless : AllHarmless (.new stripLeadingThink) calls) : Undisturbed stripLeadingThink calls := by
  have fresh := Held.new stripLeadingThink
  have read := calls_alike calls fresh harmless
  have plain := calls_alike (calls.filter Call.isWrite) fresh (writes_harmless calls _)
  rw [bytesOf_writes] at plain
  exact ⟨read.runes.trans plain.runes.symm, fun sha256 => (read.digest sha256).trans (plain.digest sha256).symm⟩

/-- A read between two words, one before a tag that does not come, and one in a think block. -/
theorem reads_undisturbed_words :
    AllHarmless (.new true) [.write [0x3C, 0x74], .runes, .write [0x61], .digest, .write [0xE4, 0xB8, 0xAD]] ∧
      Undisturbed true [.write [0x3C, 0x74], .runes, .write [0x61], .digest, .write [0xE4, 0xB8, 0xAD]] :=
  have harmless : AllHarmless (.new true)
      [.write [0x3C, 0x74], .runes, .write [0x61], .digest, .write [0xE4, 0xB8, 0xAD]] :=
    ⟨.inr (.inr ⟨.inl (by decide +kernel), fun _ _ => by decide +kernel⟩),
      .inr (.inr ⟨.inl (by decide +kernel), fun undecided => absurd undecided (by decide +kernel)⟩), trivial⟩
  ⟨harmless, reads_undisturbed true _ harmless⟩

/-- A count that is asked for inside a rune or inside `<think>` changes the text. -/
theorem read_disturbs : ¬ ∀ (stripLeadingThink : Bool) (calls : List Call), Undisturbed stripLeadingThink calls := by
  intro all
  have counted := (all true [.write [0xE4], .runes, .write [0xB8, 0xAD]]).runes
  exact absurd counted (by decide +kernel)

end AstrLink.NormalizerReads
