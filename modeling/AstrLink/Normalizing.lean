import AstrLink.Utf8Runes

/-!
The normaliser that folds visible text into one canonical form while it comes in
chunks. `write` feeds it a chunk, `finalize` settles what only the end of the
text can settle, and `normalized` says what the whole text folds into.
-/
namespace AstrLink.Normalizing
open Utf8Runes List

/-- `<think>` -/
def thinkOpen : List UInt8 := [0x3C, 0x74, 0x68, 0x69, 0x6E, 0x6B, 0x3E]

/-- `</think>` -/
def thinkClose : List UInt8 := [0x3C, 0x2F, 0x74, 0x68, 0x69, 0x6E, 0x6B, 0x3E]

/-- The white space of Unicode. -/
def isSpace (code : Nat) : Bool :=
  (0x09 ≤ code && code ≤ 0x0D) || code == 0x20 || code == 0x85 || code == 0xA0 || code == 0x1680 ||
    (0x2000 ≤ code && code ≤ 0x200A) || code == 0x2028 || code == 0x2029 || code == 0x202F || code == 0x205F ||
    code == 0x3000

def trimSpace (text : List Char) : List Char :=
  let blank := fun (letter : Char) => isSpace letter.toNat
  ((text.dropWhile blank).reverse.dropWhile blank).reverse

theorem trimSpace_solid {text : List Char} (solid : ∀ letter ∈ text, isSpace letter.toNat = false) : trimSpace text = text := by
  have kept : ∀ {part : List Char}, (∀ letter ∈ part, isSpace letter.toNat = false) →
      part.dropWhile (fun letter => isSpace letter.toNat) = part := by
    intro part visible
    cases part with
    | nil => rfl
    | cons letter rest => rw [dropWhile_cons, visible letter mem_cons_self, if_neg Bool.false_ne_true]
  unfold trimSpace
  dsimp only
  rw [kept solid, kept fun letter member => solid letter (mem_reverse.mp member), reverse_reverse]

def asciiWhitespace (value : UInt8) : Bool := value.toNat == 0x20 || (0x09 ≤ value.toNat && value.toNat ≤ 0x0D)

def plainByte (value : UInt8) : Bool := value.toNat < 0x80 && !asciiWhitespace value

inductive ThinkState where
  | off
  | undecided
  | inside
deriving DecidableEq

structure TextNormalizer where
  sink : List UInt8
  runes : Nat
  started : Bool
  pendingSpace : Bool
  partialRune : List UInt8
  think : ThinkState
  thinkBuf : List UInt8

def written (rune : Rune) : List UInt8 :=
  if rune.code = runeError ∧ rune.raw.length = 1 then [0xEF, 0xBF, 0xBD] else rune.raw

namespace TextNormalizer

def new (stripLeadingThink : Bool) : TextNormalizer where
  sink := []
  runes := 0
  started := false
  pendingSpace := false
  partialRune := []
  think := if stripLeadingThink then .undecided else .off
  thinkBuf := []

def writeSpace (normalizer : TextNormalizer) : TextNormalizer :=
  if normalizer.pendingSpace then
    { normalizer with sink := normalizer.sink ++ [0x20], runes := normalizer.runes + 1, pendingSpace := false }
  else normalizer

def emit (normalizer : TextNormalizer) (rune : Rune) : TextNormalizer :=
  if isSpace rune.code then
    if normalizer.started then { normalizer with pendingSpace := true } else normalizer
  else
    { normalizer.writeSpace with
      sink := normalizer.writeSpace.sink ++ written rune
      runes := normalizer.writeSpace.runes + 1
      started := true }

/-- The bytes of a span of plain ones, written together. -/
def emitSpan (normalizer : TextNormalizer) (span : List UInt8) : TextNormalizer :=
  { normalizer.writeSpace with
    sink := normalizer.writeSpace.sink ++ span
    runes := normalizer.writeSpace.runes + span.length
    started := true }

def replay (normalizer : TextNormalizer) (buffered : List UInt8) : TextNormalizer :=
  if _more : buffered ≠ [] then
    (normalizer.emit ⟨(decodeRune buffered).1, buffered.take (decodeRune buffered).2⟩).replay
      (buffered.drop (decodeRune buffered).2)
  else normalizer
termination_by buffered.length
decreasing_by
  obtain ⟨positive, bounded⟩ := decodeRune_size _more
  rw [length_drop]
  omega

def flushUndecided (normalizer : TextNormalizer) : TextNormalizer :=
  { normalizer with think := .off, thinkBuf := [] }.replay normalizer.thinkBuf

def consume (normalizer : TextNormalizer) (rune : Rune) : TextNormalizer :=
  match normalizer.think with
  | .undecided =>
    if normalizer.thinkBuf = [] ∧ isSpace rune.code then normalizer
    else
      let buffer := normalizer.thinkBuf ++ rune.raw
      if buffer = thinkOpen then { normalizer with think := .inside, thinkBuf := [] }
      else if buffer.isPrefixOf thinkOpen then { normalizer with thinkBuf := buffer }
      else { normalizer with thinkBuf := buffer }.flushUndecided
  | .inside =>
    let buffer := normalizer.thinkBuf ++ rune.raw
    if thinkClose.isSuffixOf buffer then { normalizer with think := .off, thinkBuf := [] }
    else { normalizer with thinkBuf := buffer.drop (buffer.length - (thinkClose.length - 1)) }
  | .off => normalizer.emit rune

/-- The loop over the bytes of a chunk. -/
def writeBytes (normalizer : TextNormalizer) (data : List UInt8) : TextNormalizer :=
  if _plain : normalizer.think = .off ∧ data.takeWhile plainByte ≠ [] then
    (normalizer.emitSpan (data.takeWhile plainByte)).writeBytes (data.dropWhile plainByte)
  else if data = [] then normalizer
  else if _full : fullRune data = true then
    (normalizer.consume ⟨(decodeRune data).1, data.take (decodeRune data).2⟩).writeBytes
      (data.drop (decodeRune data).2)
  else { normalizer with partialRune := data }
termination_by data.length
decreasing_by
  · have positive := length_pos_iff.mpr _plain.2
    have split := congrArg List.length (takeWhile_append_dropWhile (p := plainByte) (l := data))
    rw [length_append] at split
    omega
  · have some_byte : data ≠ [] := by rintro rfl; cases _full
    obtain ⟨positive, bounded⟩ := decodeRune_size some_byte
    rw [length_drop]
    omega

def write (normalizer : TextNormalizer) (chunk : List UInt8) : TextNormalizer :=
  { normalizer with partialRune := [] }.writeBytes (normalizer.partialRune ++ chunk)

/-- A buffered start of a tag that never became one is ordinary text. -/
def settle (normalizer : TextNormalizer) : TextNormalizer :=
  if normalizer.think = .undecided ∧ normalizer.thinkBuf ≠ [] then normalizer.flushUndecided else normalizer

def finalize (normalizer : TextNormalizer) : TextNormalizer :=
  match normalizer.partialRune with
  | [] => normalizer.settle
  | first :: _ => ({ normalizer with partialRune := [] }.consume ⟨runeError, [first]⟩).settle

def runesSoFar (normalizer : TextNormalizer) : Nat := normalizer.finalize.runes

def digest (sha256 : List UInt8 → List UInt8) (normalizer : TextNormalizer) : Option (List UInt8) :=
  if normalizer.finalize.runes = 0 then none else some (sha256 normalizer.finalize.sink)

end TextNormalizer

def feed (stripLeadingThink : Bool) (chunks : List (List UInt8)) : TextNormalizer :=
  chunks.foldl TextNormalizer.write (.new stripLeadingThink)

/-- What comes after the first place where the pattern occurs. -/
def afterFirst (pattern : List Rune) : List Rune → Option (List Rune)
  | [] => none
  | rune :: runes =>
    if pattern.isPrefixOf (rune :: runes) then some ((rune :: runes).drop pattern.length) else afterFirst pattern runes

/-- A leading think block is dropped, up to the end when it is not finished. -/
def dropThink (runes : List Rune) : List Rune :=
  if (thinkOpen.map asciiRune).isPrefixOf runes then
    (afterFirst (thinkClose.map asciiRune) (runes.drop thinkOpen.length)).getD []
  else runes

def dropCompleteThink (runes : List Rune) : List Rune :=
  if (thinkOpen.map asciiRune).isPrefixOf runes then
    (afterFirst (thinkClose.map asciiRune) (runes.drop thinkOpen.length)).getD runes
  else runes

/-- Every run of white space becomes one space. -/
def collapse : List Rune → List Rune
  | [] => []
  | rune :: runes =>
    if isSpace rune.code then
      if runes.head?.any fun next => isSpace next.code then collapse runes else asciiRune 0x20 :: collapse runes
    else rune :: collapse runes

def trimStart (runes : List Rune) : List Rune := runes.dropWhile fun rune => isSpace rune.code

def trimEnd (runes : List Rune) : List Rune := (runes.reverse.dropWhile fun rune => isSpace rune.code).reverse

/-- The text that some bytes fold into, given how a leading think block is dropped. -/
def normalized (dropBlock : List Rune → List Rune) (text : List UInt8) : List Rune :=
  trimEnd (trimStart (collapse (dropBlock (trimStart (runesOf text)))))

/-- The text that some bytes fold into. -/
def normalizedText (stripLeadingThink : Bool) (text : List UInt8) : List Rune :=
  normalized (if stripLeadingThink then dropThink else id) text

/-- The bytes of a text, invalid ones as U+FFFD. -/
def encode (runes : List Rune) : List UInt8 := runes.flatMap written

end AstrLink.Normalizing
