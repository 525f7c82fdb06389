import AstrLink.Rewriting
import AstrLink.StandIns
import Mathlib.Data.List.Induction

/-!
Values put back in place of the placeholders of a request. At each place the longest full spelling wins, and
one that the end cuts short holds the rest back. A character of a text stands for a byte.
-/
namespace AstrLink.Restoring
open IPAddress StandIns Rewriting List

inductive ValueEncoding where
  | plain
  | jsonString

def htmlEscape : Char → Text
  | '&' => "&amp;".toList
  | '\x27' => "&#39;".toList
  | '<' => "&lt;".toList
  | '>' => "&gt;".toList
  | '\x22' => "&#34;".toList
  | char => [char]

def escapeString (value : Text) : Text := value.flatMap htmlEscape

def hexDigit (upper : Bool) (digit : Nat) : Char :=
  if digit < 10 then Char.ofNat ('0'.toNat + digit)
  else if upper then Char.ofNat ('A'.toNat + (digit - 10))
  else Char.ofNat ('a'.toNat + (digit - 10))

def isASCIIAlphanumeric (char : Char) : Bool := char.isAlphanum

def percentEncode (value : Text) : Text :=
  value.flatMap fun char =>
    if isASCIIAlphanumeric char || char ∈ "-_.~".toList then [char]
    else ['%', hexDigit true (char.toNat / 16), hexDigit true (char.toNat % 16)]

def between (low high : Nat) (char : Option Char) : Bool := char.any fun char => low ≤ char.toNat && char.toNat ≤ high

/-- The number of bytes of the UTF-8 character at the start of a text; 0 when there is none. -/
def runeLength (text : Text) : Nat :=
  let continues := fun index => between 0x80 0xBF text[index]?
  if between 0 0x7F text[0]? then 1
  else if between 0xC2 0xDF text[0]? then if continues 1 then 2 else 0
  else if between 0xE0 0xEF text[0]? then
    let low := if between 0xE0 0xE0 text[0]? then 0xA0 else 0x80
    let high := if between 0xED 0xED text[0]? then 0x9F else 0xBF
    if between low high text[1]? && continues 2 then 3 else 0
  else if between 0xF0 0xF4 text[0]? then
    let low := if between 0xF0 0xF0 text[0]? then 0x90 else 0x80
    let high := if between 0xF4 0xF4 text[0]? then 0x8F else 0xBF
    if between low high text[1]? && continues 2 && continues 3 then 4 else 0
  else 0

/-- The text is UTF-8 after the bytes that are skipped. -/
def validUTF8 : Nat → Text → Bool
  | _, [] => true
  | skip + 1, _ :: rest => validUTF8 skip rest
  | 0, char :: rest => runeLength (char :: rest) ≠ 0 && validUTF8 (runeLength (char :: rest) - 1) rest

def escapeJSONByte (char : Char) : Text :=
  if char = '\x22' || char = '\\' then ['\\', char]
  else if char.toNat = 8 then "\\b".toList
  else if char.toNat = 12 then "\\f".toList
  else if char = '\n' then "\\n".toList
  else if char = '\r' then "\\r".toList
  else if char = '\t' then "\\t".toList
  else if char.toNat < 32 then
    "\\u00".toList ++ [hexDigit false (char.toNat / 16), hexDigit false (char.toNat % 16)]
  else [char]

/-- The bytes of U+2028 and U+2029, which are escaped as well. -/
def lineSeparator : Text := [Char.ofNat 0xE2, Char.ofNat 0x80, Char.ofNat 0xA8]
def paragraphSeparator : Text := [Char.ofNat 0xE2, Char.ofNat 0x80, Char.ofNat 0xA9]

def escapeJSON : Nat → Text → Text
  | _, [] => []
  | skip + 1, _ :: rest => escapeJSON skip rest
  | 0, char :: rest =>
    if lineSeparator.isPrefixOf (char :: rest) then "\\u2028".toList ++ escapeJSON 2 rest
    else if paragraphSeparator.isPrefixOf (char :: rest) then "\\u2029".toList ++ escapeJSON 2 rest
    else escapeJSONByte char ++ escapeJSON 0 rest

/-- A value that is not UTF-8 does not survive the round trip and is refused. -/
def escapeJSONStringContent (value : Text) : Option Text := if validUTF8 0 value then some (escapeJSON 0 value) else none

def encodeRestoredValue (value : Text) : ValueEncoding → Option Text
  | .jsonString => escapeJSONStringContent value
  | .plain => some value

inductive MatchStatus where
  | matchNone
  | matchPartial
  | matchFull (length : Nat)
deriving DecidableEq

def equalASCII (left right : Text) (fold : Bool) : Bool :=
  if fold then left.map Char.toLower = right.map Char.toLower else left = right

def matchLiteral (rest literal : Text) (fold final : Bool) : MatchStatus :=
  if literal.length ≤ rest.length then
    if equalASCII (rest.take literal.length) literal fold then .matchFull literal.length else .matchNone
  else if !final && equalASCII rest (literal.take rest.length) fold then .matchPartial
  else .matchNone

/-- Matches the first full alternative. -/
def matchOneOf (rest : Text) (literals : List Text) (final : Bool) : MatchStatus :=
  literals.foldr
    (fun literal later =>
      match matchLiteral rest literal true final with
      | .matchFull length => .matchFull length
      | .matchPartial => if later matches .matchFull _ then later else .matchPartial
      | .matchNone => later)
    .matchNone

/-- Accepts a match unless an alphanumeric byte continues it. -/
def matchWordEnd (rest : Text) (length : Nat) (final : Bool) : MatchStatus :=
  match rest[length]? with
  | none => if final then .matchFull length else .matchPartial
  | some char => if isASCIIAlphanumeric char then .matchNone else .matchFull length

/-- The match that goes on behind a full one. -/
def MatchStatus.andThen (status : MatchStatus) (next : Nat → MatchStatus) : MatchStatus :=
  match status with
  | .matchFull length => next length
  | status => status

/-- A match at a place behind the start. -/
def MatchStatus.shift (status : MatchStatus) (length : Nat) : MatchStatus :=
  match status with
  | .matchFull more => .matchFull (length + more)
  | status => status

def caseVariants (opened : Text) : List Text :=
  opened.foldl
    (fun variants char =>
      let other := if char.isLower then char.toUpper else char.toLower
      variants.map (· ++ [char]) ++ if char.isAlpha then variants.map (· ++ [other]) else [])
    [[]]

structure MarkerEscapes where
  opens : List Text
  closes : List Text

def MarkerEscapes.prefixes (escapes : MarkerEscapes) : List Text := escapes.opens.flatMap caseVariants

def htmlMarkerEscapes : MarkerEscapes where
  opens := ["&lt;".toList, "&#60;".toList, "&#x3c;".toList]
  closes := ["&gt;".toList, "&#62;".toList, "&#x3e;".toList]

def unicodeMarkerEscapes : MarkerEscapes where
  opens := ["\\u003c".toList]
  closes := ["\\u003e".toList]

def percentMarkerEscapes : MarkerEscapes where
  opens := ["%3c".toList]
  closes := ["%3e".toList]

/-- A form in which a placeholder is recognised, and the value in the syntax of that form. -/
inductive RestoreSpelling where
  | literalSpelling (placeholder value : Text)
  | bareMarkerSpelling (body value : Text)
  | escapedMarkerSpelling (escapes : MarkerEscapes) (body value : Text) (backslash : Bool)

inductive RestoreGuard where
  | restoreUnrestricted
  | restoreWordStart
  | restoreUnescapedBackslash
deriving DecidableEq

def precedingBackslashes (before : Text) : Nat := (before.takeWhile (· = '\\')).length

/-- The text before the place is given from its end. -/
def RestoreGuard.allows (before : Text) : RestoreGuard → Bool
  | .restoreUnrestricted => true
  | .restoreWordStart => !before.head?.any isASCIIAlphanumeric
  | .restoreUnescapedBackslash => precedingBackslashes before % 2 = 0

def RestoreSpelling.guard : RestoreSpelling → RestoreGuard
  | .literalSpelling .. => .restoreUnrestricted
  | .bareMarkerSpelling .. => .restoreWordStart
  | .escapedMarkerSpelling _ _ _ backslash => if backslash then .restoreUnescapedBackslash else .restoreUnrestricted

def RestoreSpelling.value : RestoreSpelling → Text
  | .literalSpelling _ value | .bareMarkerSpelling _ value | .escapedMarkerSpelling _ _ value _ => value

/-- The part of the placeholder that every match of the spelling holds. -/
def RestoreSpelling.body : RestoreSpelling → Text
  | .literalSpelling body _ | .bareMarkerSpelling body _ | .escapedMarkerSpelling _ body _ _ => body

/-- What a match starts with. -/
def RestoreSpelling.prefixes : RestoreSpelling → List Text
  | .literalSpelling placeholder _ => [placeholder]
  | .bareMarkerSpelling body _ => [body]
  | .escapedMarkerSpelling escapes body _ _ => escapes.prefixes.map (· ++ body)

def RestoreSpelling.status (before rest : Text) (final : Bool) : RestoreSpelling → MatchStatus
  | .literalSpelling placeholder _ => matchLiteral rest placeholder false final
  | .bareMarkerSpelling body _ =>
    if before.head?.any isASCIIAlphanumeric then .matchNone
    else (matchLiteral rest body false final).andThen fun length => matchWordEnd rest length final
  | .escapedMarkerSpelling escapes body _ backslash =>
    if backslash && precedingBackslashes before % 2 = 1 then .matchNone
    else
      (matchOneOf rest escapes.opens final).andThen fun opened =>
        ((matchLiteral (rest.drop opened) body false final).shift opened).andThen fun named =>
          (matchOneOf (rest.drop named) escapes.closes final).shift named

/-- The spellings of a request's placeholders, in order; none is of an empty text. -/
structure TextRestorer where
  spellings : List RestoreSpelling
  mappings : Nat
  named : ∀ spelling ∈ spellings, spelling.body ≠ []

/-- A spelling with one of the texts it may start with, as the index holds them. -/
def TextRestorer.prefixes (restorer : TextRestorer) : List (Text × RestoreSpelling) :=
  restorer.spellings.flatMap fun spelling => spelling.prefixes.map (·, spelling)

/-- What the index makes of an entry: one that is cut short is partial. -/
def entryStatus (before rest : Text) (final : Bool) (entry : Text × RestoreSpelling) : MatchStatus :=
  if !entry.2.guard.allows before then .matchNone
  else if entry.1.isPrefixOf rest then entry.2.status before rest final
  else if !final && rest.isPrefixOf entry.1 then .matchPartial
  else .matchNone

/-- The longest full match; the first one of those. -/
def longest (found : List (MatchStatus × Text)) : Option (Nat × Text) :=
  found.foldl
    (fun best entry =>
      match entry.1, best with
      | .matchFull length, some (longer, value) => if longer < length then some (length, entry.2) else some (longer, value)
      | .matchFull length, none => some (length, entry.2)
      | _, best => best)
    none

def TextRestorer.found (restorer : TextRestorer) (before rest : Text) (final : Bool) : List (MatchStatus × Text) :=
  restorer.prefixes.map fun entry => (entryStatus before rest final entry, entry.2.value)

def TextRestorer.choose (restorer : TextRestorer) (final : Bool) (before rest : Text) : Choice Char :=
  if (restorer.found before rest final).any (·.1 = .matchPartial) then .hold
  else
    match longest (restorer.found before rest final) with
    | some (length, value) => .replace length value
    | none => .keep

/-! ### What a full match is -/

variable {length : Nat}

variable {rest : Text} {final : Bool}

theorem matchLiteral_full {literal : Text} {fold : Bool}
    (full : matchLiteral rest literal fold final = .matchFull length) :
    length = literal.length ∧ length ≤ rest.length ∧ equalASCII (rest.take length) literal fold = true := by
  unfold matchLiteral at full
  split at full
  · next inside =>
    split at full
    · next same =>
      obtain rfl := MatchStatus.matchFull.inj full
      exact ⟨rfl, inside, same⟩
    · cases full
  · split at full <;> cases full

theorem matchOneOf_cons (rest literal : Text) (literals : List Text) (final : Bool) :
    matchOneOf rest (literal :: literals) final =
      match matchLiteral rest literal true final with
      | .matchFull length => .matchFull length
      | .matchPartial => if matchOneOf rest literals final matches .matchFull _ then matchOneOf rest literals final
        else .matchPartial
      | .matchNone => matchOneOf rest literals final := rfl

theorem matchOneOf_full {literals : List Text} (full : matchOneOf rest literals final = .matchFull length) :
    ∃ literal ∈ literals, matchLiteral rest literal true final = .matchFull length := by
  induction literals with
  | nil => cases full
  | cons literal literals ih =>
    rw [matchOneOf_cons] at full
    cases first : matchLiteral rest literal true final with
    | matchFull other =>
      rw [first] at full
      obtain rfl := MatchStatus.matchFull.inj full
      exact ⟨literal, mem_cons_self, first⟩
    | matchPartial =>
      rw [first] at full
      dsimp only at full
      split at full
      · obtain ⟨other, listed, same⟩ := ih full
        exact ⟨other, mem_cons_of_mem _ listed, same⟩
      · cases full
    | matchNone =>
      rw [first] at full
      obtain ⟨other, listed, same⟩ := ih full
      exact ⟨other, mem_cons_of_mem _ listed, same⟩

variable {status : MatchStatus}

theorem andThen_full {next : Nat → MatchStatus} (full : status.andThen next = .matchFull length) :
    ∃ first, status = .matchFull first ∧ next first = .matchFull length := by
  cases status with
  | matchNone => cases full
  | matchPartial => cases full
  | matchFull first => exact ⟨first, rfl, full⟩

theorem shift_full {skipped : Nat} (full : status.shift skipped = .matchFull length) :
    ∃ more, status = .matchFull more ∧ length = skipped + more := by
  cases status with
  | matchNone => cases full
  | matchPartial => cases full
  | matchFull more => exact ⟨more, rfl, (MatchStatus.matchFull.inj full).symm⟩

theorem matchWordEnd_full {other : Nat} (full : matchWordEnd rest length final = .matchFull other) :
    other = length := by
  unfold matchWordEnd at full
  split at full <;> split at full
  · exact (MatchStatus.matchFull.inj full).symm
  · cases full
  · cases full
  · exact (MatchStatus.matchFull.inj full).symm

variable {before : Text}

theorem status_full {spelling : RestoreSpelling} (full : spelling.status before rest final = .matchFull length) :
    length ≤ rest.length ∧ ∃ skipped, skipped + spelling.body.length ≤ length ∧
      (rest.drop skipped).take spelling.body.length = spelling.body := by
  cases spelling with
  | literalSpelling placeholder value =>
    obtain ⟨rfl, inside, same⟩ := matchLiteral_full full
    exact ⟨inside, 0, by simp [RestoreSpelling.body], by simpa [equalASCII, RestoreSpelling.body] using same⟩
  | bareMarkerSpelling body value =>
    simp only [RestoreSpelling.status] at full
    split at full
    · cases full
    · obtain ⟨first, named, ended⟩ := andThen_full full
      obtain rfl := matchWordEnd_full ended
      obtain ⟨rfl, inside, same⟩ := matchLiteral_full named
      exact ⟨inside, 0, by simp [RestoreSpelling.body], by simpa [equalASCII, RestoreSpelling.body] using same⟩
  | escapedMarkerSpelling escapes body value backslash =>
    simp only [RestoreSpelling.status] at full
    split at full
    · cases full
    · obtain ⟨opened, opening, full⟩ := andThen_full full
      obtain ⟨named, there, full⟩ := andThen_full full
      obtain ⟨more, spelled, rfl⟩ := shift_full there
      obtain ⟨last, closed, rfl⟩ := shift_full full
      obtain ⟨_, _, opening⟩ := matchOneOf_full opening
      obtain ⟨_, begun, _⟩ := matchLiteral_full opening
      obtain ⟨_, _, closing⟩ := matchOneOf_full closed
      obtain ⟨rfl, room, same⟩ := matchLiteral_full spelled
      obtain ⟨_, inside, _⟩ := matchLiteral_full closing
      rw [length_drop] at room inside
      exact ⟨by omega, opened, by simp [RestoreSpelling.body], by simpa [equalASCII, RestoreSpelling.body] using same⟩

theorem longest_snoc (found : List (MatchStatus × Text)) (entry : MatchStatus × Text) :
    longest (found ++ [entry]) =
      match entry.1, longest found with
      | .matchFull length, some (longer, value) => if longer < length then some (length, entry.2) else some (longer, value)
      | .matchFull length, none => some (length, entry.2)
      | _, best => best := by
  rw [longest, foldl_append]
  rfl

theorem longest_mem {found : List (MatchStatus × Text)} {value : Text} (best : longest found = some (length, value)) :
    (.matchFull length, value) ∈ found := by
  induction found using List.reverseRecOn generalizing length value with
  | nil => cases best
  | append_singleton found entry ih =>
    rw [longest_snoc] at best
    obtain ⟨status, other⟩ := entry
    cases status with
    | matchFull more =>
      cases earlier : longest found with
      | none =>
        rw [earlier] at best
        obtain ⟨rfl, rfl⟩ := Prod.mk.inj (Option.some.inj best)
        simp
      | some pair =>
        obtain ⟨longer, before⟩ := pair
        rw [earlier] at best
        dsimp only at best
        split at best
        · obtain ⟨rfl, rfl⟩ := Prod.mk.inj (Option.some.inj best)
          simp
        · obtain ⟨rfl, rfl⟩ := Prod.mk.inj (Option.some.inj best)
          exact mem_append_left _ (ih earlier)
    | matchNone => exact mem_append_left _ (ih best)
    | matchPartial => exact mem_append_left _ (ih best)

theorem longest_ge {found : List (MatchStatus × Text)} {value : Text} (listed : (.matchFull length, value) ∈ found) :
    ∃ longer other, longest found = some (longer, other) ∧ length ≤ longer := by
  induction found using List.reverseRecOn with
  | nil => cases listed
  | append_singleton found entry ih =>
    rw [longest_snoc]
    obtain ⟨status, last⟩ := entry
    rcases mem_append.mp listed with earlier | own
    · obtain ⟨longer, other, best, least⟩ := ih earlier
      rw [best]
      cases status with
      | matchFull more =>
        by_cases longest : longer < more
        · exact ⟨more, last, by simp [longest], by omega⟩
        · exact ⟨longer, other, by simp [longest], least⟩
      | matchNone => exact ⟨longer, other, rfl, least⟩
      | matchPartial => exact ⟨longer, other, rfl, least⟩
    · obtain ⟨rfl, rfl⟩ := Prod.mk.inj (mem_singleton.mp own)
      cases best : longest found with
      | none => exact ⟨length, value, rfl, Nat.le_refl _⟩
      | some pair =>
        obtain ⟨longer, other⟩ := pair
        by_cases more : longer < length
        · exact ⟨length, value, by simp [more], Nat.le_refl _⟩
        · exact ⟨longer, other, by simp [more], by omega⟩

theorem TextRestorer.mem_found {restorer : TextRestorer} {value : Text} :
    (status, value) ∈ restorer.found before rest final ↔
      ∃ spelling ∈ restorer.spellings, ∃ start ∈ spelling.prefixes, spelling.value = value ∧
        entryStatus before rest final (start, spelling) = status := by
  simp only [TextRestorer.found, TextRestorer.prefixes, mem_map, mem_flatMap, Prod.mk.injEq]
  constructor
  · rintro ⟨_, ⟨spelling, listed, start, begins, rfl⟩, found, own⟩
    exact ⟨spelling, listed, start, begins, own, found⟩
  · rintro ⟨spelling, listed, start, begins, own, found⟩
    exact ⟨_, ⟨spelling, listed, start, begins, rfl⟩, found, own⟩

theorem entryStatus_full {entry : Text × RestoreSpelling}
    (full : entryStatus before rest final entry = .matchFull length) :
    entry.2.status before rest final = .matchFull length := by
  unfold entryStatus at full
  split at full
  · cases full
  · split at full
    · exact full
    · split at full <;> cases full

theorem TextRestorer.choose_replace {restorer : TextRestorer} {value : Text}
    (choice : restorer.choose final before rest = .replace length value) :
    (.matchFull length, value) ∈ restorer.found before rest final := by
  unfold TextRestorer.choose at choice
  split at choice
  · cases choice
  · split at choice
    · next best =>
      obtain ⟨rfl, rfl⟩ := Choice.replace.inj choice
      exact longest_mem best
    · cases choice

def TextRestorer.rule (restorer : TextRestorer) (final : Bool) : Rule Char where
  choose := restorer.choose final
  fits := by
    intro before rest length value choice
    obtain ⟨spelling, listed, start, _, _, full⟩ := TextRestorer.mem_found.mp (TextRestorer.choose_replace choice)
    obtain ⟨inside, skipped, room, _⟩ := status_full (entryStatus_full full)
    have named := length_pos_iff.mpr (restorer.named spelling listed)
    dsimp only at room
    exact ⟨by omega, inside⟩

structure Restored where
  text : Text
  count : Nat
  hold : Nat
deriving DecidableEq

def TextRestorer.pieces (restorer : TextRestorer) (input : Text) (final : Bool) : List (Piece Char) :=
  (scan (restorer.rule final) 0 [] input).1

/-- Replaces every recognised spelling; one that is cut short is held back. -/
def TextRestorer.restore (restorer : TextRestorer) (input : Text) (final : Bool) : Restored where
  text := outputs (restorer.pieces input final)
  count := replacements (restorer.pieces input final)
  hold := (scan (restorer.rule final) 0 [] input).2.length

theorem matchLiteral_final (rest literal : Text) (fold : Bool) : matchLiteral rest literal fold true ≠ .matchPartial := by
  unfold matchLiteral
  split
  · split <;> simp
  · simp

theorem matchOneOf_final (rest : Text) (literals : List Text) : matchOneOf rest literals true ≠ .matchPartial := by
  induction literals with
  | nil => simp [matchOneOf]
  | cons literal literals ih =>
    rw [matchOneOf, foldr_cons]
    split
    · simp
    · next cut => exact absurd cut (matchLiteral_final rest literal true)
    · exact ih

theorem andThen_final {next : Nat → MatchStatus} (first : status ≠ .matchPartial)
    (later : ∀ length, next length ≠ .matchPartial) : status.andThen next ≠ .matchPartial := by
  cases status with
  | matchNone => simp [MatchStatus.andThen]
  | matchPartial => exact absurd rfl first
  | matchFull length => exact later length

theorem shift_final (length : Nat) (whole : status ≠ .matchPartial) :
    status.shift length ≠ .matchPartial := by
  cases status with
  | matchNone => simp [MatchStatus.shift]
  | matchPartial => exact absurd rfl whole
  | matchFull more => simp [MatchStatus.shift]

theorem status_final (spelling : RestoreSpelling) (before rest : Text) :
    spelling.status before rest true ≠ .matchPartial := by
  cases spelling with
  | literalSpelling placeholder value => exact matchLiteral_final rest placeholder false
  | bareMarkerSpelling body value =>
    simp only [RestoreSpelling.status]
    split
    · simp
    · refine andThen_final (matchLiteral_final rest body false) fun length => ?_
      unfold matchWordEnd
      split
      · simp
      · split <;> simp
  | escapedMarkerSpelling escapes body value backslash =>
    simp only [RestoreSpelling.status]
    split
    · simp
    · refine andThen_final (matchOneOf_final rest escapes.opens) fun opened => ?_
      refine andThen_final (shift_final opened (matchLiteral_final _ body false)) fun named => ?_
      exact shift_final named (matchOneOf_final _ escapes.closes)

theorem TextRestorer.choose_final (restorer : TextRestorer) (before rest : Text) :
    restorer.choose true before rest ≠ .hold := by
  unfold TextRestorer.choose
  split
  · next cut =>
    obtain ⟨⟨status, value⟩, listed, same⟩ := any_eq_true.mp cut
    obtain rfl : status = .matchPartial := by simpa using same
    obtain ⟨spelling, _, start, _, _, found⟩ := TextRestorer.mem_found.mp listed
    unfold entryStatus at found
    split at found
    · cases found
    · split at found
      · exact absurd found (status_final spelling before rest)
      · simp at found
  · split <;> simp

/-! ### The spellings of a request -/

/-- The forms of a placeholder; none when its value cannot be written in the encoding. -/
def restoreSpellings (placeholder value : Text) (encoding : ValueEncoding) : Option (List RestoreSpelling) :=
  (encodeRestoredValue value encoding).map fun encoded =>
    .literalSpelling placeholder encoded ::
      match markerBody placeholder with
      | none => []
      | some body =>
        .bareMarkerSpelling body encoded ::
          ((encodeRestoredValue (escapeString value) encoding).map
              (.escapedMarkerSpelling htmlMarkerEscapes body · false)).toList ++
            ((escapeJSONStringContent value).map
              (.escapedMarkerSpelling unicodeMarkerEscapes body · true)).toList ++
            ((encodeRestoredValue (percentEncode value) encoding).map
              (.escapedMarkerSpelling percentMarkerEscapes body · false)).toList

/-- The redactions whose placeholder is not empty and was not listed before. -/
def distinct : List Text → List Redaction → List Redaction
  | _, [] => []
  | seen, redaction :: rest =>
    if redaction.placeholder = [] then distinct seen rest
    else if seen.contains redaction.placeholder then distinct seen rest
    else redaction :: distinct (redaction.placeholder :: seen) rest

theorem mem_distinct {seen : List Text} {redactions : List Redaction} {redaction : Redaction}
    (listed : redaction ∈ distinct seen redactions) : redaction ∈ redactions ∧ redaction.placeholder ≠ [] := by
  induction redactions generalizing seen with
  | nil => cases listed
  | cons first rest ih =>
    have later : ∀ seen, redaction ∈ distinct seen rest → redaction ∈ first :: rest ∧ redaction.placeholder ≠ [] := by
      intro seen there
      obtain ⟨later, named⟩ := ih there
      exact ⟨mem_cons_of_mem _ later, named⟩
    rw [distinct] at listed
    split at listed
    · exact later seen listed
    · next named =>
      split at listed
      · exact later seen listed
      · rcases mem_cons.mp listed with rfl | there
        · exact ⟨mem_cons_self, named⟩
        · exact later _ there

theorem mem_distinct_of_nodup {seen : List Text} {redactions : List Redaction} {redaction : Redaction}
    (nodup : (redactions.map (·.placeholder)).Nodup) (named : redaction.placeholder ≠ [])
    (fresh : redaction.placeholder ∉ seen) (listed : redaction ∈ redactions) : redaction ∈ distinct seen redactions := by
  induction redactions generalizing seen with
  | nil => cases listed
  | cons first rest ih =>
    obtain ⟨own, nodup⟩ := nodup_cons.mp nodup
    rw [distinct]
    rcases mem_cons.mp listed with rfl | later
    · rw [if_neg named, if_neg (by simpa using fresh)]
      exact mem_cons_self
    · split
      · exact ih nodup fresh later
      · split
        · exact ih nodup fresh later
        · refine mem_cons_of_mem _ (ih nodup ?_ later)
          intro there
          rcases mem_cons.mp there with same | there
          · exact own (mem_map.mpr ⟨redaction, later, same⟩)
          · exact fresh there

theorem markerBody_underscore {placeholder body : Text} (marker : markerBody placeholder = some body) : '_' ∈ body := by
  unfold markerBody at marker
  dsimp only at marker
  split at marker
  · next shape =>
    cases marker
    exact mem_of_mem_tail shape.2.2.2.1
  · cases marker

def markerEscapes : List MarkerEscapes := [htmlMarkerEscapes, unicodeMarkerEscapes, percentMarkerEscapes]

theorem mem_restoreSpellings {placeholder value : Text} {encoding : ValueEncoding} {spelling : RestoreSpelling}
    (listed : spelling ∈ (restoreSpellings placeholder value encoding).getD []) :
    (∃ encoded, encodeRestoredValue value encoding = some encoded ∧ spelling = .literalSpelling placeholder encoded) ∨
      (markerBody placeholder = some spelling.body ∧
        ((∃ encoded, spelling = .bareMarkerSpelling spelling.body encoded) ∨
          ∃ escapes ∈ markerEscapes, ∃ encoded backslash,
            spelling = .escapedMarkerSpelling escapes spelling.body encoded backslash)) := by
  unfold restoreSpellings at listed
  cases found : encodeRestoredValue value encoding with
  | none => simp [found] at listed
  | some encoded =>
    rw [found] at listed
    cases marker : markerBody placeholder with
    | none =>
      rw [marker] at listed
      exact .inl ⟨encoded, rfl, by simpa using listed⟩
    | some body =>
      rw [marker] at listed
      simp only [Option.map_some, Option.getD_some, mem_cons, mem_append, Option.mem_toList,
        Option.map_eq_some_iff] at listed
      rcases listed with rfl | ((rfl | ⟨_, _, rfl⟩) | ⟨_, _, rfl⟩) | ⟨_, _, rfl⟩
      · exact .inl ⟨encoded, rfl, rfl⟩
      · exact .inr ⟨rfl, .inl ⟨_, rfl⟩⟩
      · exact .inr ⟨rfl, .inr ⟨_, by simp [markerEscapes], _, _, rfl⟩⟩
      · exact .inr ⟨rfl, .inr ⟨_, by simp [markerEscapes], _, _, rfl⟩⟩
      · exact .inr ⟨rfl, .inr ⟨_, by simp [markerEscapes], _, _, rfl⟩⟩

def newTextRestorer (redactions : List Redaction) (encoding : ValueEncoding) : TextRestorer where
  spellings :=
    (distinct [] redactions).flatMap fun redaction =>
      (restoreSpellings redaction.placeholder redaction.value encoding).getD []
  mappings := (distinct [] redactions).length
  named := by
    intro spelling listed
    obtain ⟨redaction, kept, listed⟩ := mem_flatMap.mp listed
    rcases mem_restoreSpellings listed with ⟨_, _, rfl⟩ | ⟨marker, _⟩
    · exact (mem_distinct kept).2
    · exact ne_nil_of_mem (markerBody_underscore marker)

example : ((newTextRestorer [⟨"<PRIVATE_PERSON_6ad1158cae28c183>".toList, .person, "O'Neil & Co".toList, .token⟩]
    .plain).restore "&lt;PRIVATE_PERSON_6ad1158cae28c183&GT; \\u003cPRIVATE_PERSON_6ad1158cae28c183".toList false) =
    ⟨"O&#39;Neil &amp; Co ".toList, 1, 37⟩ := by decide +kernel

end AstrLink.Restoring
