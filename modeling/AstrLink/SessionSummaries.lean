import AstrLink.Tables

/-!
The summary of a session, computed twice. A list folds the rows of many
sessions into one summary each (`loadSessionSummaries`); a detail computes it
from the loaded turns (`sessionFromTurns`). Both are given here as the store
computes them, and `list_shows_detail` says that they agree.
-/
namespace AstrLink.SessionSummaries
open Tables

inductive ClientType where
  | unknown
  | codex
  | claudeCode
  | cursor
  | grokCLI
  | geminiCLI
  | openCode
  | openClaw
  | cline
  | pi
  | deepSeekHarness
  | codewhale
  | reasonix
  | qwenCode
  | kimiCode
  | codeBuddy
  | copilot
  | droid
  | crush
  | kiloCode
  | rooCode
  | mistralVibe
  | zed
  | cherryStudio
  | goose

inductive RequestStatus where
  | pending
  | succeeded
  | failed
  | cancelled
  | blocked
deriving DecidableEq

inductive SessionStatus where
  | pending
  | succeeded
  | failed
  | cancelled
  | blocked
  | interrupted
deriving DecidableEq

inductive PrivacyDecision where
  | none
  | trusted
  | allow
  | warn
  | redact
  | block
  | failOpen
deriving DecidableEq

inductive OutputKind where
  | reasoning
  | text
  | tool

structure OutputActivity where
  kind : OutputKind
  tools : List String

structure RequestModelRedirect where
  source : String
  target : String

/-- What a record's row holds of it. Times count from the zero time. -/
structure Row where
  id : String
  sessionID : Option String
  startedAt : Nat
  completedAt : Option Nat
  status : RequestStatus
  inputProtocol : String
  requestedModel : Option String
  reasoningEffort : Option String
  serviceID : Option String
  localAccessTokenID : Option String
  httpStatus : Option Int
  turnIndex : Option Int
  inputPreview : Option String
  children : Nat
  modelRedirect : Option RequestModelRedirect
  clientType : Option ClientType
  privacyDecision : Option PrivacyDecision
  output : Option OutputActivity
  parentSessionID : Option String

def Row.key (row : Row) : String := row.sessionID.getD row.id

structure RequestRecord where
  clientType : Option ClientType
  id : String
  childCount : Nat
  startedAt : Nat
  completedAt : Option Nat
  status : RequestStatus
  inputProtocol : String
  requestedModel : Option String
  modelRedirect : Option RequestModelRedirect
  reasoningEffort : Option String
  serviceID : Option String
  localAccessTokenID : Option String
  httpStatus : Option Int
  output : Option OutputActivity
  privacyDecision : Option PrivacyDecision
  sessionID : Option String
  inputPreview : Option String
  turnIndex : Option Int
  parentSessionID : Option String

@[ext]
structure RequestSession where
  clientType : Option ClientType
  id : String
  title : String
  startedAt : Nat
  lastStartedAt : Nat
  completedAt : Option Nat
  turnCount : Nat
  callCount : Nat
  status : SessionStatus
  requestedModel : Option String
  modelRedirect : Option RequestModelRedirect
  output : Option OutputActivity
  reasoningEffort : Option String
  inputProtocol : String
  serviceID : Option String
  localAccessTokenID : Option String
  privacyWarned : Bool
  parentSessionID : Option String

def isIDChar (char : Char) : Bool :=
  char.isLower || char.isDigit || char == '_' || char == '-'

def validResourceID (id : String) : Bool :=
  3 ≤ id.utf8ByteSize && id.utf8ByteSize ≤ 96 && id.toList.head?.any Char.isLower && id.toList.all isIDChar

/-- Words of lower-case letters and digits, each one separated by one of `.`, `_` and `-`. -/
def protocolWords : List Char → Bool
  | [] => true
  | [char] => char.isLower || char.isDigit
  | char :: next :: rest =>
    if char.isLower || char.isDigit then protocolWords (next :: rest)
    else (next.isLower || next.isDigit) && protocolWords (next :: rest)

def validProtocolID (id : String) : Bool :=
  3 ≤ id.utf8ByteSize && id.utf8ByteSize ≤ 96 && id.toList.head?.any Char.isLower &&
    id.toList.all (fun char => char.isLower || char.isDigit || char == '.' || char == '_' || char == '-') &&
    protocolWords id.toList

/-- `validateBoundedText` -/
def boundedText (text : String) (maxRunes : Nat) (allowEmpty : Bool) : Bool :=
  if text = "" then allowEmpty
  else text.length ≤ maxRunes && text.toList.all fun char => 32 ≤ char.toNat || char == '\t'

def RequestModelRedirect.valid (redirect : RequestModelRedirect) : Bool :=
  boundedText redirect.source 256 false && boundedText redirect.target 256 false && redirect.source != redirect.target

def validModel (model : String) : Bool := model != "" && model.length ≤ 256

def OutputActivity.valid (output : OutputActivity) : Bool :=
  output.tools.length ≤ 8 && output.tools.all fun name => name.toList.any (!·.isWhitespace) && name.length ≤ 64

def validParent (parent own : Option String) : Bool :=
  parent.all fun parent => validResourceID parent && own.all (parent != ·)

def maxPreviewRunes : Nat := 80
def maxTitleRunes : Nat := 80

def RequestRecord.valid (record : RequestRecord) : Bool :=
  validResourceID record.id && record.startedAt != 0 && validProtocolID record.inputProtocol &&
    record.requestedModel.all validModel && record.modelRedirect.all RequestModelRedirect.valid &&
    record.reasoningEffort.all (boundedText · 32 false) && record.serviceID.all validResourceID &&
    record.localAccessTokenID.all validResourceID && record.httpStatus.all (fun code => 100 ≤ code && code ≤ 599) &&
    record.sessionID.all validResourceID && validParent record.parentSessionID record.sessionID &&
    record.inputPreview.all (boundedText · maxPreviewRunes false) && record.turnIndex.all (1 ≤ ·) &&
    record.output.all OutputActivity.valid

def RequestSession.valid (session : RequestSession) : Bool :=
  validResourceID session.id && validParent session.parentSessionID (some session.id) &&
    boundedText session.title maxTitleRunes true && session.startedAt != 0 && session.lastStartedAt != 0 &&
    1 ≤ session.turnCount && 1 ≤ session.callCount && validProtocolID session.inputProtocol &&
    session.requestedModel.all validModel && session.modelRedirect.all RequestModelRedirect.valid &&
    session.output.all OutputActivity.valid && session.reasoningEffort.all (boundedText · 32 false) &&
    session.serviceID.all validResourceID && session.localAccessTokenID.all validResourceID

def clampRunes (text : String) (maxRunes : Nat) : String :=
  if maxRunes = 0 ∨ text.length ≤ maxRunes then text else String.ofList (text.toList.take maxRunes)

def RequestRecord.effectiveStatus (record : RequestRecord) : RequestStatus :=
  if record.status = .succeeded && record.httpStatus.any (400 ≤ ·) then .failed else record.status

def sessionStatusFromRequest : RequestStatus → SessionStatus
  | .pending => .pending
  | .succeeded => .succeeded
  | .failed => .failed
  | .cancelled => .cancelled
  | .blocked => .blocked

/-- What the fold carries from row to row. -/
structure Carry where
  current : RequestSession
  previousTurn : Option Int
  hadSuccess : Bool
  latestOutput : Option OutputActivity
  result : Table String RequestSession

/-- A summary of which only the id is known. -/
def RequestSession.ofID (id : String) : RequestSession where
  clientType := none
  id
  title := ""
  startedAt := 0
  lastStartedAt := 0
  completedAt := none
  turnCount := 0
  callCount := 0
  status := .pending
  requestedModel := none
  modelRedirect := none
  output := none
  reasoningEffort := none
  inputProtocol := ""
  serviceID := none
  localAccessTokenID := none
  privacyWarned := false
  parentSessionID := none

/-- The summary of the current session, whose rows are all read. -/
def Carry.finished (carry : Carry) : RequestSession :=
  { carry.current with
    title :=
      match carry.current.requestedModel with
      | some model => if carry.current.title = "" then clampRunes model maxTitleRunes else carry.current.title
      | none => carry.current.title
    status := if carry.current.status = .cancelled && carry.hadSuccess then .interrupted else carry.current.status
    output := carry.latestOutput }

def Carry.finish (carry : Carry) : Except String Carry :=
  if carry.current.id = "" then .ok carry
  else if carry.finished.valid then
    .ok { carry with result := carry.result.insert carry.current.id carry.finished }
  else .error "session summary"

/-- The part of a record that the list reads. -/
def Row.summaryRecord (row : Row) : RequestRecord where
  clientType := row.clientType
  id := row.id
  childCount := 0
  startedAt := row.startedAt
  completedAt := row.completedAt
  status := row.status
  inputProtocol := row.inputProtocol
  requestedModel := row.requestedModel
  modelRedirect := row.modelRedirect
  reasoningEffort := row.reasoningEffort
  serviceID := row.serviceID
  localAccessTokenID := row.localAccessTokenID
  httpStatus := row.httpStatus
  output := none
  privacyDecision := row.privacyDecision
  sessionID := none
  inputPreview := row.inputPreview
  turnIndex := row.turnIndex
  parentSessionID := none

def Carry.add (carry : Carry) (row : Row) : Carry :=
  let record := row.summaryRecord
  let current := carry.current
  { carry with
    previousTurn := row.turnIndex
    hadSuccess := carry.hadSuccess || record.effectiveStatus = .succeeded
    latestOutput := row.output
    current :=
      { current with
        startedAt := if current.callCount = 0 then row.startedAt else current.startedAt
        turnCount :=
          if row.turnIndex = none ∨ carry.previousTurn = none ∨ row.turnIndex ≠ carry.previousTurn then
            current.turnCount + 1
          else current.turnCount
        callCount := current.callCount + (1 + row.children)
        title :=
          if current.title = "" ∧ row.inputPreview.getD "" ≠ "" then
            clampRunes (row.inputPreview.getD "") maxTitleRunes
          else current.title
        lastStartedAt := row.startedAt
        completedAt := record.completedAt
        status := sessionStatusFromRequest record.effectiveStatus
        inputProtocol := record.inputProtocol
        clientType := record.clientType
        requestedModel := row.requestedModel
        reasoningEffort := row.reasoningEffort
        serviceID := record.serviceID
        localAccessTokenID := record.localAccessTokenID
        modelRedirect := record.modelRedirect
        privacyWarned := current.privacyWarned || row.privacyDecision = some .warn
        parentSessionID :=
          if current.parentSessionID = none ∧ row.parentSessionID.getD "" ≠ "" ∧
              row.parentSessionID ≠ some row.key then
            row.parentSessionID
          else current.parentSessionID } }

/-- The carried state at the first row of a session. -/
def Carry.fresh (carry : Carry) (id : String) : Carry :=
  { carry with current := .ofID id, previousTurn := none, hadSuccess := false }

def Carry.read (carry : Carry) (row : Row) : Except String Carry :=
  (if carry.current.id ≠ row.key then carry.finish.map (·.fresh row.key) else .ok carry).bind fun carry =>
    if row.summaryRecord.valid then .ok (carry.add row) else .error "session call"

def Carry.start : Carry where
  current := .ofID ""
  previousTurn := none
  hadSuccess := false
  latestOutput := none
  result := ∅

def loadSessionSummaries (rows : List Row) : Except String (Table String RequestSession) :=
  ((rows.foldlM Carry.read Carry.start).bind Carry.finish).map (·.result)

def Row.record (row : Row) : RequestRecord where
  clientType := row.clientType
  id := row.id
  childCount := row.children
  startedAt := row.startedAt
  completedAt := row.completedAt
  status := row.status
  inputProtocol := row.inputProtocol
  requestedModel := row.requestedModel
  modelRedirect := row.modelRedirect
  reasoningEffort := row.reasoningEffort
  serviceID := row.serviceID
  localAccessTokenID := row.localAccessTokenID
  httpStatus := row.httpStatus
  output := row.output
  privacyDecision := row.privacyDecision
  sessionID := row.sessionID
  inputPreview := row.inputPreview
  turnIndex := row.turnIndex
  parentSessionID := row.parentSessionID.filter (· ≠ "")

def scanRequestRecord (row : Row) : Except String RequestRecord :=
  if row.record.valid then .ok row.record else .error "request"

def sessionStatus (turns : List RequestRecord) (latest : RequestRecord) : SessionStatus :=
  let status := sessionStatusFromRequest latest.effectiveStatus
  if status ≠ .cancelled then status
  else if turns.any (·.effectiveStatus = .succeeded) then .interrupted
  else status

def countTurn (counted : Nat × Option (Option Int)) (turn : RequestRecord) : Nat × Option (Option Int) :=
  match counted.2 with
  | some (some previous) =>
    (if turn.turnIndex = some previous then counted.1 else counted.1 + 1, some turn.turnIndex)
  | some none | none => (counted.1 + 1, some turn.turnIndex)

def countUserTurns (turns : List RequestRecord) : Nat := (turns.foldl countTurn (0, none)).1

def previewTitle (turns : List RequestRecord) : String :=
  match turns.find? (·.inputPreview.any (· ≠ "")) with
  | some turn => clampRunes (turn.inputPreview.getD "") maxTitleRunes
  | none => ""

def sessionOf (first latest : RequestRecord) (turns : List RequestRecord) : RequestSession :=
  let id := (latest.sessionID.or first.sessionID).getD latest.id
  let title := previewTitle turns
  { clientType := latest.clientType
    id
    title :=
      if title = "" then
        match latest.requestedModel with
        | some model => if model ≠ "" then clampRunes model maxTitleRunes else title
        | none => title
      else title
    startedAt := first.startedAt
    lastStartedAt := latest.startedAt
    completedAt := latest.completedAt
    turnCount := countUserTurns turns
    callCount := turns.foldl (fun count turn => count + (1 + turn.childCount)) 0
    status := sessionStatus turns latest
    requestedModel := latest.requestedModel
    modelRedirect := latest.modelRedirect
    output := latest.output
    reasoningEffort := latest.reasoningEffort
    inputProtocol := latest.inputProtocol
    serviceID := latest.serviceID
    localAccessTokenID := latest.localAccessTokenID
    privacyWarned := turns.any (·.privacyDecision = some .warn)
    parentSessionID := (turns.filterMap (·.parentSessionID)).find? (· ≠ id) }

def sessionFromTurns (turns : List RequestRecord) : Except String RequestSession :=
  match turns.head?, turns.getLast? with
  | some first, some latest =>
    if (sessionOf first latest turns).valid then .ok (sessionOf first latest turns) else .error "session"
  | _, _ => .error "empty session"

def detail (rows : List Row) : Except String RequestSession :=
  (rows.mapM scanRequestRecord).bind sessionFromTurns

end AstrLink.SessionSummaries
