import Mathlib.Algebra.Ring.Nat
import AstrLink.Normalizing
import AstrLink.StandIns

/-!
Which findings of a detector are left alone: what the policy does not ask for or allows, placeholders and
parts of markers, test cards and identifiers of the program. Lower case is a parameter.
-/
namespace AstrLink.Suppressing
open StandIns IPAddress
open Normalizing (trimSpace)

def index (part : Text) : Text → Option Nat
  | [] => if part = [] then some 0 else none
  | letter :: rest => if part.isPrefixOf (letter :: rest) then some 0 else (index part rest).map (· + 1)

def indexAny (letters text : Text) : Option Nat := text.findIdx? fun letter => letters.contains letter

def lastIndexAny (letters text : Text) : Option Nat :=
  (indexAny letters text.reverse).map fun place => text.length - 1 - place

def splitHostPort (text : Text) : Option Text :=
  match lastIndexAny [':'] text with
  | none => none
  | some colon =>
    if text.head? = some '[' then
      match indexAny [']'] text with
      | none => none
      | some close =>
        if close + 1 = colon ∧ '[' ∉ text.drop 1 ∧ ']' ∉ text.drop (close + 1) then some ((text.take close).drop 1)
        else none
    else if ':' ∉ text.take colon ∧ '[' ∉ text ∧ ']' ∉ text then some (text.take colon)
    else none

def placeholderURLHost (value : Text) : Text :=
  let trimmed := match index [':', '/', '/'] value with
    | some place => value.drop (place + 3)
    | none => value
  let trimmed := match indexAny ['/', '?', '#'] trimmed with
    | some place => trimmed.take place
    | none => trimmed
  let trimmed := match lastIndexAny ['@'] trimmed with
    | some place => trimmed.drop (place + 1)
    | none => trimmed
  (splitHostPort trimmed).getD trimmed

def trimSuffix (text suffix : Text) : Text := if suffix.isSuffixOf text then text.take (text.length - suffix.length) else text

/-- The bytes of an address, four when it has a form of four octets. -/
def addressBytes : Address → List Nat
  | .v4 octets => octets
  | .v6 groups =>
    let bytes := groups.flatMap fun group => [group / 256, group % 256]
    if (Address.v6 groups).to4 then bytes.drop 12 else bytes

structure Block where
  network : List Nat
  ones : Nat

def number (bytes : List Nat) : Nat := bytes.foldl (fun value byte => value * 256 + byte) 0

def Block.contains (block : Block) (address : Address) : Bool :=
  let bytes := addressBytes address
  let rest := 2 ^ (8 * bytes.length - block.ones)
  bytes.length = block.network.length && number bytes / rest = number block.network / rest

def reservedTestNetBlocks : List Block :=
  [⟨[192, 0, 2, 0], 24⟩, ⟨[198, 51, 100, 0], 24⟩, ⟨[203, 0, 113, 0], 24⟩,
    ⟨[0x20, 0x01, 0x0D, 0xB8, 0, 0, 0, 0, 0, 0, 0, 0, 0, 0, 0, 0], 32⟩]

def isReservedTestNetAddress (value : Text) : Bool :=
  (parse value).any fun address => reservedTestNetBlocks.any fun block => block.contains address

section
variable (lower : Char → Char)

def toLower (text : Text) : Text := text.map lower

def isReservedInvalidHost (host : Text) : Bool :=
  let host := toLower lower (trimSuffix host ['.'])
  host = naturalPlaceholderDomain || host = "invalid".toList || ".invalid".toList.isSuffixOf host

def isNaturalPlaceholder (kind : Kind) (value : Text) : Bool :=
  match kind with
  | .email =>
    match lastIndexAny ['@'] value with
    | some place => isReservedInvalidHost lower (value.drop (place + 1))
    | none => false
  | .url => isReservedInvalidHost lower (placeholderURLHost value)
  | .ipAddress => isReservedTestNetAddress value
  | _ => false

end

def isTokenPlaceholder (value : Text) : Bool :=
  let trimmed := trimSpace value
  let inner := trimmed.tail.dropLast
  trimmed.head? = some '<' && trimmed.getLast? = some '>' &&
    ("PRIVATE".toList.isPrefixOf inner || "SECRET".toList.isPrefixOf inner)

def privacyKinds : List Kind :=
  [.commonSecret, .paymentCard, .account, .email, .phone, .url, .ipAddress, .person, .address, .date]

/-- The name that a marker has between its brackets, without a derived suffix. -/
def markerName (marker : Text) : Text :=
  match markerBody marker with
  | some body => body.take (body.length - placeholderTokenHexLength - 1)
  | none => marker.tail.dropLast

def isMarkerName (name : Text) : Bool :=
  privacyKinds.any fun kind => name = (replacementFor kind).tail.dropLast

def brackets : Text := ['<', '>']

/-- The bracket that opens the marker around a place: the one there, or the last one before. -/
def openingOf (text : Text) (start : Nat) : Option Nat :=
  if text[start]? = some '<' then some start else lastIndexAny brackets (text.take start)

/-- Whether the brackets around a span are those of a token marker. -/
def isMarkerSpan (text : Text) (start finish : Nat) : Bool :=
  match openingOf text start with
  | none => false
  | some opening =>
    if text[opening]? ≠ some '<' then false
    else
      match indexAny brackets (text.drop (opening + 1)) with
      | none => false
      | some place =>
        let closing := place + opening + 1
        if text[closing]? ≠ some '>' ∨ closing + 1 < finish then false
        else
          let marker := (text.take (closing + 1)).drop opening
          if start = opening ∧ finish = closing + 1 then isTokenPlaceholder marker
          else isMarkerName (markerName marker)

/-- Whether a span, without the blanks around it, covers a token marker or a part of one. -/
def isTokenPlaceholderSpan (text : Text) (start finish : Nat) : Bool :=
  if text.length < finish ∨ finish ≤ start then false
  else
    let value := (text.take finish).drop start
    let trimmed := trimSpace value
    if trimmed = [] then false
    else
      let start := start + (index trimmed value).getD 0
      isMarkerSpan text start (start + trimmed.length)

def testCardNumbers : List String :=
  ["4242424242424242", "4000056655665556", "4111111111111111", "4012888888881881", "4222222222222", "4000002500003155",
    "4000000000000002", "4000000000009995", "5555555555554444", "2223003122003222", "5200828282828210",
    "5105105105105100", "5431111111111111", "5555341244441115", "378282246310005", "371449635398431",
    "378734493671000", "370000000000002", "6011111111111117", "6011000990139424", "6011601160116611",
    "3056930009020004", "36227206271667", "30569309025904", "38520000023237", "3566002020360505",
    "3530111333300000", "6200000000000005"]

def decimalDigits (value : Text) : Text := value.filter Char.isDigit

def isExampleValue (kind : Kind) (value : Text) : Bool :=
  kind = .paymentCard && (testCardNumbers.map String.toList).contains (decimalDigits value)

structure Allowlist where
  literals : List Text
  suffixes : List Text
  blocks : List Block

section
variable (lower : Char → Char)

def allowlistHost (kind : Kind) (value : Text) : Text :=
  match kind with
  | .url => toLower lower (trimSuffix (placeholderURLHost value) ['.'])
  | .email =>
    match lastIndexAny ['@'] value with
    | some place => toLower lower (trimSuffix (value.drop (place + 1)) ['.'])
    | none => []
  | _ => []

def allowlistAddress (kind : Kind) (value : Text) : Option Address :=
  match kind with
  | .ipAddress => parse (trimSpace value)
  | .url => parse (placeholderURLHost value)
  | _ => none

def Allowlist.allows (list : Allowlist) (kind : Kind) (value : Text) : Bool :=
  let host := allowlistHost lower kind value
  list.literals.contains (toLower lower (trimSpace value)) ||
    (host ≠ [] && list.suffixes.any fun suffix => host = suffix || ('.' :: suffix).isSuffixOf host) ||
    (allowlistAddress kind value).any fun address => list.blocks.any fun block => block.contains address

end

structure IdentifierShape where
  start : Text
  hexDigits : Nat

def astrlinkIdentifierShapes : List IdentifierShape :=
  [⟨"access_token_".toList, 32⟩, ⟨"classifier_".toList, 32⟩, ⟨"device_".toList, 32⟩, ⟨"model_".toList, 32⟩,
    ⟨"rawgrant_".toList, 16⟩, ⟨"req_".toList, 24⟩, ⟨"request_".toList, 24⟩, ⟨"session_".toList, 24⟩,
    ⟨"service_".toList, 16⟩, ⟨"service_".toList, 24⟩]

def isLowerHexDigit (letter : Char) : Bool := letter.isDigit || ('a' ≤ letter && letter ≤ 'f')

def isLowerHex (value : Text) : Bool := value ≠ [] && value.all isLowerHexDigit

def isAstrLinkIdentifier (value : Text) : Bool :=
  astrlinkIdentifierShapes.any fun shape =>
    value.length = shape.start.length + shape.hexDigits && shape.start.isPrefixOf value &&
      isLowerHex (value.drop shape.start.length)

def isIdentifierSpanPadding (letter : Char) : Bool :=
  [' ', '\t', '\n', '\r', '\x22', '\x27', '\x60', '\\'].contains letter

def isIdentifierWord (letter : Char) : Bool := letter.isAlphanum || letter = '_' || letter = '-'

/-- How many word letters come right before a place; that of an escape is none. -/
def wordBefore : Text → Nat
  | [] => 0
  | letter :: rest => if isIdentifierWord letter && rest.head? ≠ some '\\' then wordBefore rest + 1 else 0

def isAstrLinkIdentifierSpan (text : Text) (start finish : Nat) : Bool :=
  let covered := (text.take finish).drop start
  let start := start + (covered.takeWhile isIdentifierSpanPadding).length
  let word := ((covered.dropWhile isIdentifierSpanPadding).reverse.dropWhile isIdentifierSpanPadding).reverse
  let finish := start + word.length
  if word = [] ∨ word.all isIdentifierWord = false then false
  else
    let start := start - wordBefore (text.take start).reverse
    let finish := finish + ((text.drop finish).takeWhile isIdentifierWord).length
    isAstrLinkIdentifier ((text.take finish).drop start)

inductive SuppressionReason where
  | kindDisabled
  | lowConfidence
  | placeholder
  | allowlisted
  | exampleValue
  | astrLinkIdentifier
deriving DecidableEq

inductive Mode where
  | regex
  | localModel
deriving DecidableEq

structure KindRule where
  enabled : Bool
  style : Option PlaceholderStyle
  notify : Bool

structure Policy (Score : Type) where
  mode : Mode
  minConfidence : Score
  /-- None when there are no rules at all, and then every kind is redacted. -/
  kindRules : Option (Kind → Option KindRule)

def Policy.kindRule {Score : Type} (policy : Policy Score) (kind : Kind) : KindRule :=
  match policy.kindRules with
  | none => ⟨true, some .token, true⟩
  | some rules =>
    match rules kind with
    | none => ⟨false, none, false⟩
    | some rule => { rule with style := some (rule.style.getD .token) }

structure Segment where
  value : Text
  path : Text

structure Finding (Score : Type) where
  segment : Nat
  start : Nat
  finish : Nat
  kind : Kind
  confidence : Score
  suppression : Option SuppressionReason
  path : Text

section
variable (lower : Char → Char) {Score : Type} [LT Score] [DecidableLT Score]

def suppressionFor (policy : Policy Score) (list : Allowlist) (finding : Finding Score) (segments : List Segment) :
    Option SuppressionReason :=
  if (policy.kindRule finding.kind).enabled = false then some .kindDisabled
  else if policy.mode = .localModel ∧ finding.confidence < policy.minConfidence then some .lowConfidence
  else
    match segments[finding.segment]? with
    | none => none
    | some segment =>
      let text := segment.value
      let value := (text.take finding.finish).drop finding.start
      if isNaturalPlaceholder lower finding.kind value || isTokenPlaceholderSpan text finding.start finding.finish then
        some .placeholder
      else if list.allows lower finding.kind value then some .allowlisted
      else if isExampleValue finding.kind value then some .exampleValue
      else if isAstrLinkIdentifierSpan text finding.start finding.finish then some .astrLinkIdentifier
      else none

end

end AstrLink.Suppressing
