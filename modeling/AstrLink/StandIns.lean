import AstrLink.IPAddress
import AstrLink.Tables

/-!
The placeholders of a request. A value gets the first candidate that no other
value of the request took; an IPv4 stand-in is also granted by the ledger of
the conversation. The suffixes are cut from a keyed digest, which is a
parameter here: the digest of a kind, a value and a trial, in hexadecimal.
-/
namespace AstrLink.StandIns
open Tables IPAddress

inductive Kind where
  | email
  | phone
  | account
  | paymentCard
  | ipAddress
  | url
  | commonSecret
  | address
  | date
  | person
deriving DecidableEq

inductive PlaceholderStyle where
  | natural
  | token
deriving DecidableEq

structure Redaction where
  placeholder : Text
  kind : Kind
  value : Text
  style : PlaceholderStyle
deriving DecidableEq

/-- The digest of a kind, a value and a trial under the derivation key. -/
abbrev Digest := Kind → Text → Nat → Text

/-- A stand-in and the value that owns it, the value as its keyed fingerprint. -/
structure PrivacyStandIn where
  standIn : Text
  owner : Text

structure Ledger where
  loaded : Bool
  byOwner : Table Text Text
  byStandIn : Table Text Text
  unsaved : List PrivacyStandIn

def Ledger.fresh : Ledger where
  loaded := false
  byOwner := ∅
  byStandIn := ∅
  unsaved := []

/-- Reads the stored stand-ins once. -/
def Ledger.load (ledger : Ledger) (standIns : List PrivacyStandIn) : Ledger :=
  if ledger.loaded then ledger
  else
    { standIns.foldl
        (fun ledger row =>
          { ledger with
            byStandIn := ledger.byStandIn.insert row.standIn row.owner
            byOwner := ledger.byOwner.insert row.owner row.standIn })
        ledger with
      loaded := true }

/-- The stand-in the value was last issued. -/
def Ledger.standInOf (ledger : Ledger) (owner : Text) : Option Text := ledger.byOwner.lookup owner

/-- Issues the stand-in, unless it is another value's or is held unissued. -/
def Ledger.claim (ledger : Ledger) (standIn owner : Text) (held : Bool) : Bool × Ledger :=
  let current := (ledger.byStandIn.lookup standIn).getD []
  if current = owner then (true, { ledger with byOwner := ledger.byOwner.insert owner standIn })
  else if current = [] then
    if held then (false, ledger)
    else
      (true,
        { ledger with
          byStandIn := ledger.byStandIn.insert standIn owner
          unsaved := ledger.unsaved ++ [⟨standIn, owner⟩]
          byOwner := ledger.byOwner.insert owner standIn })
  else (false, ledger)

def placeholderTokenHexLength : Nat := 16
def placeholderNaturalHexLength : Nat := 12
def placeholderDerivationTrials : Nat := 64
def ownerHexLength : Nat := 64

def replacementFor : Kind → Text
  | .email => "<PRIVATE_EMAIL>".toList
  | .phone => "<PRIVATE_PHONE>".toList
  | .account => "<PRIVATE_ACCOUNT_NUMBER>".toList
  | .paymentCard => "<PRIVATE_PAYMENT_CARD>".toList
  | .ipAddress => "<PRIVATE_IP_ADDRESS>".toList
  | .url => "<PRIVATE_URL>".toList
  | .commonSecret => "<SECRET>".toList
  | .address => "<PRIVATE_ADDRESS>".toList
  | .date => "<PRIVATE_DATE>".toList
  | .person => "<PRIVATE_PERSON>".toList

def withPlaceholderSuffix (base suffix : Text) : Text :=
  if base.head? = some '<' ∧ base.getLast? = some '>' then base.dropLast ++ '_' :: (suffix ++ ['>'])
  else base ++ '_' :: suffix

def naturalPlaceholderDomain : Text := "private.invalid".toList

def testNetPrefixes : List Text := ["203.0.113.".toList, "192.0.2.".toList, "198.51.100.".toList]

def testNetHostsPerPrefix : Nat := 256

/-- The bytes that pairs of hexadecimal digits spell. -/
def decodeHex : Text → Option (List Nat)
  | [] => some []
  | [_] => none
  | high :: low :: rest =>
    (hexValue? high).bind fun high => (hexValue? low).bind fun low => (decodeHex rest).map ((high * 16 + low) :: ·)

/-- The first four bytes as a number, without its top bit. -/
def suffixIndex (suffix : Text) : Option Nat :=
  match decodeHex suffix with
  | some (first :: second :: third :: fourth :: _) =>
    some (first % 128 * 16777216 + second * 65536 + third * 256 + fourth)
  | _ => none

/-- The text in pieces of four characters. -/
def hextetGroups : Text → List Text
  | [] => []
  | first :: second :: third :: fourth :: rest => [first, second, third, fourth] :: hextetGroups rest
  | short => [short]

/-- The address at a place of the pool. -/
def testNetAddress (slot : Nat) : Text :=
  (testNetPrefixes[slot / testNetHostsPerPrefix]?).getD [] ++ Nat.toDigits 10 (slot % testNetHostsPerPrefix)

def naturalIPAddress (value suffix : Text) (trial : Nat) : Option Text :=
  let total := testNetPrefixes.length * testNetHostsPerPrefix
  if (parse value).any (!·.to4) then
    match parse ("2001:db8::".toList ++ ((hextetGroups suffix).intersperse [':']).flatten) with
    | some (.v6 groups) => some (formatIPv6 groups)
    | _ => none
  else
    (suffixIndex suffix).bind fun index =>
      if total ≤ trial then none else some (testNetAddress ((index + trial) % total))

/-- A candidate from a value, a suffix and a trial, for a kind with a natural form. -/
def naturalPlaceholderBuilders : Kind → Option (Text → Text → Nat → Option Text)
  | .email => some fun _ suffix _ => some ("redacted-".toList ++ suffix ++ '@' :: naturalPlaceholderDomain)
  | .url => some fun _ suffix _ =>
    some ("https://".toList ++ naturalPlaceholderDomain ++ "/r/".toList ++ suffix)
  | .ipAddress => some naturalIPAddress
  | _ => none

def markerBody (placeholder : Text) : Option Text :=
  let body := placeholder.tail.dropLast
  let suffix := (body.reverse.takeWhile (· ≠ '_')).reverse
  if 3 ≤ placeholder.length ∧ placeholder.head? = some '<' ∧ placeholder.getLast? = some '>' ∧ '_' ∈ body.tail ∧
      suffix.length = placeholderTokenHexLength ∧
      suffix.all (fun char => char.isDigit || ('a' ≤ char && char ≤ 'f')) then
    some body
  else none

def contains (text part : Text) : Bool := text.tails.any (part.isPrefixOf ·)

def restorableSpellingIn (placeholder body : Text) : Bool :=
  body ≠ [] && (contains body placeholder || (markerBody placeholder).any (contains body))

structure Allocator where
  resolve : Kind → PlaceholderStyle
  body : Text
  ledger : Option Ledger
  used : List Text
  exhausted : List Kind

def Allocator.take (allocator : Allocator) (candidate : Text) : Allocator :=
  { allocator with used := candidate :: allocator.used }

/-- Takes a candidate that is free; an IPv4 stand-in must be granted, or not occur in the body. -/
def Allocator.reserve (allocator : Allocator) (candidate owner : Text) : Bool × Allocator :=
  let held := restorableSpellingIn candidate allocator.body
  if candidate ∈ allocator.used then (false, allocator)
  else if isIPv4 candidate then
    if owner = [] then if held then (false, allocator) else (true, allocator.take candidate)
    else
      match allocator.ledger with
      | none => (false, allocator)
      | some ledger =>
        match ledger.claim candidate owner held with
        | (true, ledger) => (true, { allocator with ledger := some ledger }.take candidate)
        | (false, _) => (false, allocator)
  else (true, allocator.take candidate)

/-- The first candidate that can be reserved; none once a trial has no candidate. -/
def Allocator.firstFree (allocator : Allocator) (owner : Text) (candidate : Nat → Option Text) :
    List Nat → Option Text × Allocator
  | [] => (none, allocator)
  | trial :: rest =>
    match candidate trial with
    | none => (none, allocator)
    | some text =>
      match allocator.reserve text owner with
      | (true, next) => (some text, next)
      | (false, next) => next.firstFree owner candidate rest

section
variable (digest : Digest)

def derive (kind : Kind) (value : Text) (trial hexLength : Nat) : Text := (digest kind value trial).take hexLength

/-- The fingerprint under which the ledger records an address. -/
def ownerOf (value : Text) : Text := derive digest .ipAddress value 0 ownerHexLength

def trials : List Nat := List.range placeholderDerivationTrials

def Allocator.allocateToken (allocator : Allocator) (kind : Kind) (value : Text) :
    Option (Text × PlaceholderStyle) × Allocator :=
  match allocator.firstFree [] (fun trial =>
      some (withPlaceholderSuffix (replacementFor kind) (derive digest kind value trial placeholderTokenHexLength)))
      trials with
  | (some placeholder, next) => (some (placeholder, .token), next)
  | (none, next) => (none, next)

/-- None when the namespace of the kind is exhausted. -/
def Allocator.allocateNatural (allocator : Allocator) (kind : Kind) (value : Text) : Option Text × Allocator :=
  match naturalPlaceholderBuilders kind with
  | none => (none, allocator)
  | some builder =>
    let candidate := fun trial => builder value (derive digest kind value trial placeholderNaturalHexLength) trial
    match if kind = .ipAddress then allocator.ledger else none with
    | none => allocator.firstFree [] candidate trials
    | some ledger =>
      match ledger.standInOf (ownerOf digest value) with
      | none => allocator.firstFree (ownerOf digest value) candidate trials
      | some standIn =>
        match allocator.reserve standIn (ownerOf digest value) with
        | (true, next) => (some standIn, next)
        | (false, next) => next.firstFree (ownerOf digest value) candidate trials

/-- The placeholder of a value and the style it has; none when no token is free either. -/
def Allocator.allocate (allocator : Allocator) (kind : Kind) (value : Text) :
    Option (Text × PlaceholderStyle) × Allocator :=
  if allocator.resolve kind = .natural ∧ kind ∉ allocator.exhausted then
    match allocator.allocateNatural digest kind value with
    | (some placeholder, next) => (some (placeholder, .natural), next)
    | (none, next) => { next with exhausted := kind :: next.exhausted }.allocateToken digest kind value
  else allocator.allocateToken digest kind value

/-- Allocates a placeholder for each distinct kind and value, in the order they are met. -/
def Allocator.assign (allocator : Allocator) :
    List (Kind × Text) → List Redaction → Option (List Redaction) × Allocator
  | [], placed => (some placed, allocator)
  | (kind, value) :: rest, placed =>
    if placed.any (fun earlier => earlier.kind = kind && earlier.value = value) then allocator.assign rest placed
    else
      match allocator.allocate digest kind value with
      | (some (placeholder, style), next) => next.assign rest (placed ++ [⟨placeholder, kind, value, style⟩])
      | (none, next) => (none, next)

/-- A request that redacts: its policy's styles, its body and the values found, in order. -/
structure Request where
  resolve : Kind → PlaceholderStyle
  body : Text
  items : List (Kind × Text)

/-- The allocator of a request; the ledger is asked for only when an address was found. -/
def Request.allocator (request : Request) (ledger : Ledger) : Allocator where
  resolve := request.resolve
  body := request.body
  ledger := if request.items.any (·.1 = .ipAddress) then some ledger else none
  used := []
  exhausted := []

def Request.assign (request : Request) (ledger : Ledger) : Option (List Redaction) × Allocator :=
  (request.allocator ledger).assign digest request.items []

def Ledger.after (ledger : Ledger) (request : Request) : Ledger := ((request.assign digest ledger).2.ledger).getD ledger

def Ledger.afterAll (ledger : Ledger) (requests : List Request) : Ledger := requests.foldl (Ledger.after digest) ledger

end

end AstrLink.StandIns
