import Mathlib.Data.List.Sort
import AstrLink.Base64Url
import AstrLink.StoredTimes

/-!
The pages of the session list. The scan walks the roots newest first, keeps the first root of each session
after the cursor, and stops once the page is full and no tie is left.
-/
namespace AstrLink.SessionPages
open StoredTimes

def bytes (text : String) : Text := text.toList.map fun char => UInt8.ofNat char.toNat

/-- What the list reads of a row of `request_records`. -/
structure RequestRecord where
  id : Text
  sessionID : Option Text
  parentRequestID : Option Text
  startedAt : Text
  status : Text
  inputProtocol : Text
  requestedModel : Option Text
  /-- `$.to` of the model redirect -/
  redirectTo : Option Text
  recoveredModel : Option Text
  serviceID : Option Text
  localAccessTokenID : Option Text

structure RequestSessionListOptions where
  kind : Text
  limit : Int
  cursor : Text
  fromTime : Option Time
  toTime : Option Time
  protocol : Option Text
  serviceID : Option Text
  localAccessTokenIDs : List Text
  models : List Text
  status : Option Text

inductive StoreError where
  | invalidArgument (what : String)
  | invalidCursor (what : String)
  | invalidRecord (what : String)

/-- A session, by the stored time of its newest matching root. -/
structure SessionAggregate where
  id : Text
  lastStartedAt : Text
deriving DecidableEq

structure RequestSessionPage where
  items : List SessionAggregate
  nextCursor : Text

def defaultListLimit : Int := 50

def maxListLimit : Int := 200

def isIDByte (byte : UInt8) : Bool :=
  (97 ≤ byte.toNat && byte.toNat ≤ 122) || (48 ≤ byte.toNat && byte.toNat ≤ 57) || byte == 95 || byte == 45

/-- `^[a-z][a-z0-9_-]*$` of 3 to 96 bytes -/
def validateResourceID (id : Text) : Bool :=
  3 ≤ id.length && id.length ≤ 96 && match id with
    | [] => false
    | first :: rest => 97 ≤ first.toNat && first.toNat ≤ 122 && rest.all isIDByte

def encodeRequestRecordCursor (startedAt id : Text) : Text := Base64Url.encode (startedAt ++ 124 :: id)

section
-- How `time.Parse` reads a text that `parseUTC` does not, written again in UTC.
variable (other : Text → Option Text)

def decodeRequestRecordCursor (cursor : Text) : Except StoreError (Text × Text) :=
  if cursor = [] then .ok ([], [])
  else match Base64Url.decode cursor with
    | none => .error (.invalidCursor "request cursor encoding")
    | some decoded =>
      if Base64Url.encode decoded ≠ cursor then .error (.invalidCursor "request cursor encoding")
      else match decoded.span (· ≠ 124) with
        | (_, []) => .error (.invalidCursor "request cursor payload")
        | (startedAt, _ :: id) =>
          if (rewritten other startedAt).isNone then .error (.invalidCursor "request cursor timestamp")
          else if !validateResourceID id then .error (.invalidCursor "request cursor id")
          else .ok (startedAt, id)

def RequestRecord.session (record : RequestRecord) : Text := record.sessionID.getD record.id

def isDiscovery (record : RequestRecord) : Bool :=
  record.inputProtocol == bytes "openai.models" || record.inputProtocol == bytes "google.models"

def named (names : List Text) (name : Option Text) : Bool := name.any fun name => names.any (· == name)

/-- The roots that the options match. -/
def selects (options : RequestSessionListOptions) (record : RequestRecord) : Bool :=
  record.parentRequestID.isNone &&
  (options.kind == [] || (if options.kind = bytes "discovery" then isDiscovery record else !isDiscovery record)) &&
  options.fromTime.all (fun time => !before record.startedAt time.format) &&
  options.toTime.all (fun time => before record.startedAt time.format) &&
  (options.localAccessTokenIDs.isEmpty || named options.localAccessTokenIDs record.localAccessTokenID) &&
  (options.models.isEmpty || named options.models record.requestedModel || named options.models record.redirectTo ||
    named options.models record.recoveredModel) &&
  options.protocol.all (fun protocol => record.inputProtocol == protocol) &&
  options.serviceID.all (fun service => record.serviceID == some service) &&
  options.status.all (fun status => record.status == status)

/-- Newest first, then by descending id. -/
def inOrder (left right : SessionAggregate) : Bool :=
  before right.lastStartedAt left.lastStartedAt ||
    (right.lastStartedAt == left.lastStartedAt && !before left.id right.id)

/-- `ORDER BY started_at DESC, id DESC` -/
def newestFirst (record older : RequestRecord) : Bool :=
  inOrder ⟨record.id, record.startedAt⟩ ⟨older.id, older.startedAt⟩

def RequestRecord.aggregate (record : RequestRecord) : SessionAggregate := ⟨record.session, record.startedAt⟩

def requestSessionScan (records : List RequestRecord) (options : RequestSessionListOptions) : List SessionAggregate :=
  ((records.filter (selects options)).insertionSort fun record older => newestFirst record older).map RequestRecord.aggregate

/-- Whether earlier pages hold the session. -/
def isListed (cursor cursorStarted cursorID : Text) (item : SessionAggregate) : Bool :=
  cursor ≠ [] && (before cursorStarted item.lastStartedAt ||
    (item.lastStartedAt == cursorStarted && !before item.id cursorID))

def collect (limit : Nat) (listed : SessionAggregate → Bool) :
    List SessionAggregate → List Text → List SessionAggregate → List SessionAggregate
  | [], _, matched => matched
  | item :: rows, seen, matched =>
    if (matched[limit]?).any fun edge => before item.lastStartedAt edge.lastStartedAt then matched
    else if seen.any (· == item.id) then collect limit listed rows seen matched
    else if listed item then collect limit listed rows (item.id :: seen) matched
    else collect limit listed rows (item.id :: seen) (matched ++ [item])

/-- The page of the sorted sessions, one more than it holds telling that there are others. -/
def cutPage (limit : Nat) (matched : List SessionAggregate) : Except StoreError RequestSessionPage :=
  if limit < matched.length then
    let matched := matched.take limit
    match matched.getLast? with
    | none => .ok ⟨matched, []⟩
    | some last =>
      match rewritten other last.lastStartedAt with
      | none => .error (.invalidRecord "session cursor timestamp")
      | some lastStarted => .ok ⟨matched, encodeRequestRecordCursor lastStarted last.id⟩
  else .ok ⟨matched, []⟩

def listRequestSessions (records : List RequestRecord) (options : RequestSessionListOptions) :
    Except StoreError RequestSessionPage :=
  if options.kind ≠ [] ∧ options.kind ≠ bytes "inference" ∧ options.kind ≠ bytes "discovery" then
    .error (.invalidArgument "kind must be inference or discovery")
  else
    let limit := if options.limit = 0 then defaultListLimit else options.limit
    if limit < 1 ∨ maxListLimit < limit then .error (.invalidArgument "limit must be between 1 and 200")
    else do
      let (cursorStarted, cursorID) ← decodeRequestRecordCursor other options.cursor
      let rows := requestSessionScan records options
      let matched := collect limit.toNat (isListed options.cursor cursorStarted cursorID) rows [] []
      cutPage other limit.toNat ((matched.insertionSort fun left right => inOrder left right).take (limit.toNat + 1))

/-- The pages from a cursor on, each read with the cursor that the page before it gave. -/
def follow (records : List RequestRecord) (options : RequestSessionListOptions) : Nat → Text → Option (List RequestSessionPage)
  | 0, _ => none
  | fuel + 1, cursor =>
    match listRequestSessions other records { options with cursor := cursor } with
    | .error _ => none
    | .ok page =>
      if page.nextCursor = [] then some [page]
      else (follow records options fuel page.nextCursor).map fun rest => page :: rest

end

end AstrLink.SessionPages
