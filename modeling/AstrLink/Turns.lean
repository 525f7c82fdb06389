import AstrLink.Normalizing

/-!
The turns of a conversation. `resolve` finds the earlier call that a request continues and places it in a
turn; in the system at the end a call is resolved when it arrives and stored when it has its response.
-/
namespace AstrLink.Turns

abbrev Text := List Char

inductive Kind where
  | explicit
  | echoID
  | fingerprint
deriving DecidableEq

inductive Direction where
  | inbound
  | outbound
deriving DecidableEq

structure Cursor where
  kind : Kind
  direction : Direction
  value : Text

structure TurnState where
  index : Int
  userMessages : Int
  lastUserFingerprint : Text
deriving DecidableEq

/-- A user message: how many were counted up to it, and the newest user text. -/
structure TurnPoint where
  userMessages : Int
  lastUserFingerprint : Text

structure Continuation where
  points : List TurnPoint
  some_point : points ≠ []

/-- Whether a turn ends at one of the points. -/
def Continuation.holds (continuation : Option Continuation) (turn : Option TurnState) : Bool :=
  match continuation, turn with
  | some continuation, some turn =>
    continuation.points.any fun point =>
      point.userMessages = turn.userMessages && point.lastUserFingerprint = turn.lastUserFingerprint
  | _, _ => false

structure Scope where
  samePrincipal : Bool
  /-- Zero when there is no bound. -/
  notBefore : Int
  continues : Option Continuation

def Scope.anywhere : Scope := ⟨false, 0, none⟩

structure Match where
  sessionID : Text
  kind : Option Kind
  value : Text
  turn : Option TurnState

/-- What the host answers to a query for any of some values. -/
abbrev Lookup (Failure : Type) := Kind → List Text → Scope → Except Failure (Option Match)

/-- A keyed digest, as the hex digits that a fingerprint keeps of it. -/
structure Fingerprinter where
  mac : List UInt8 → Text

/-- The cursor value of a digest, empty when there is no digest or no key. -/
def fingerprintOf (fp : Option Fingerprinter) (digest : List UInt8) : Text :=
  match fp with
  | none => []
  | some fingerprinter => if digest = [] then [] else ['f', 'p', '1', '_'] ++ fingerprinter.mac digest

structure RequestSummary where
  sessionCursor : Text
  explicitCursors : List Text
  stateful : Bool
  echoIDs : List Text
  userTurnCount : Int
  hasUserMessage : Bool
  assistantDigest : List UInt8
  lastUserDigest : List UInt8
  userDigests : List (List UInt8)
  hasTools : Bool
  sideCall : Bool
deriving DecidableEq

structure ResponseSummary where
  outputID : Text
  echoIDs : List Text
  assistantDigest : List UInt8

structure Policy where
  window : Int
  maxOutputEchoIDs : Int
  toolFreeHelpers : Bool

structure Decision where
  /-- The record that decides the session. -/
  found : Option Match
  turn : Option TurnState
  sideCall : Bool
  inbound : List Cursor

/-- Only the first explicit cursor is stored. -/
def Decision.persistentInbound (decision : Decision) : List Cursor :=
  (decision.inbound.find? fun cursor => cursor.kind = .explicit).toList

def maxCursorRunes : Nat := 256

def validCursorValue (value : Text) : Bool :=
  value ≠ [] && decide (value.length ≤ maxCursorRunes) &&
    value.all fun letter => !(decide (letter.toNat < 0x20) || letter.toNat == 0x7F)

def clampCursorValue (value : Text) : Text :=
  let value := Normalizing.trimSpace value
  if value = [] ∨ maxCursorRunes < value.length then []
  else if validCursorValue value then value
  else []

section
variable (policy : Policy) (summary : RequestSummary) (fp : Option Fingerprinter)

def maxOutputEchoIDs : Int := if policy.maxOutputEchoIDs > 0 then policy.maxOutputEchoIDs else 16

/-- The request's newest user messages as turn points. -/
def continuation : Option Continuation :=
  if fp.isNone || summary.stateful || summary.userDigests.isEmpty then none
  else
    let first := summary.userTurnCount - summary.userDigests.length + 1
    let points := (summary.userDigests.zipIdx.map fun entry =>
      TurnPoint.mk (first + entry.2) (fingerprintOf fp entry.1)).filter fun point => point.lastUserFingerprint ≠ []
    if some_point : points ≠ [] then some ⟨points, some_point⟩ else none

/-- Whether a history with so many user messages provably does not continue a record. -/
def leaves (continuation : Option Continuation) (turn : Option TurnState) (userTurnCount : Int) : Bool :=
  match continuation, turn with
  | some known, some turn =>
    if turn.userMessages < 1 || turn.lastUserFingerprint = [] then false
    else if turn.userMessages > userTurnCount then true
    else if turn.userMessages < (known.points.head known.some_point).userMessages then false
    else !Continuation.holds (some known) (some turn)
  | _, _ => false

def sideCallTurn (matched : Option Match) : Option TurnState :=
  match matched with
  | none => some ⟨1, 0, []⟩
  | some found => found.turn

def nextTurn (matched : Option Match) (userFingerprint : Text) : Option TurnState :=
  match matched.bind Match.turn with
  | none => if summary.hasUserMessage then some ⟨1, summary.userTurnCount, userFingerprint⟩ else none
  | some previous =>
    if previous.index < 1 then
      if summary.hasUserMessage then some ⟨1, summary.userTurnCount, userFingerprint⟩ else none
    -- A helper call opened the session: there is nothing to compare.
    else if previous.userMessages < 1 ∧ previous.lastUserFingerprint = [] then
      if summary.hasUserMessage then some ⟨previous.index, summary.userTurnCount, userFingerprint⟩
      else some ⟨previous.index, 0, []⟩
    else
      let newest := if userFingerprint ≠ [] then userFingerprint else previous.lastUserFingerprint
      if summary.stateful then
        if summary.hasUserMessage then
          some ⟨previous.index + 1, previous.userMessages + summary.userTurnCount, newest⟩
        else some previous
      else if ¬ summary.hasUserMessage then some previous
      else
        let progressed := summary.userTurnCount > previous.userMessages ∨
          (userFingerprint ≠ [] ∧ previous.lastUserFingerprint ≠ [] ∧ userFingerprint ≠ previous.lastUserFingerprint)
        some ⟨if progressed then previous.index + 1 else previous.index, summary.userTurnCount, newest⟩

structure Layer where
  kind : Kind
  values : List Text
  scope : Scope

/-- The session header first, then what the request names. -/
def explicitCursors : List Text :=
  let sessionCursor := clampCursorValue summary.sessionCursor
  if sessionCursor ≠ [] then sessionCursor :: summary.explicitCursors else summary.explicitCursors

def layers (now : Int) : List Layer :=
  let restricted : Scope := ⟨true, if policy.window > 0 then now - policy.window else 0, none⟩
  let fingerprint := fingerprintOf fp summary.assistantDigest
  [⟨.explicit, explicitCursors summary, .anywhere⟩, ⟨.echoID, summary.echoIDs, restricted⟩] ++
    if fingerprint ≠ [] then [⟨.fingerprint, [fingerprint], restricted⟩] else []

structure Search where
  inbound : List Cursor
  matched : Option Match

variable {Failure : Type} (lookup : Option (Lookup Failure))

def tryLayer (search : Search) (layer : Layer) : Except Failure Search :=
  if layer.values = [] then .ok search
  else
    let inbound := search.inbound ++ layer.values.map fun value => ⟨layer.kind, .inbound, value⟩
    match lookup with
    | none => .ok { search with inbound }
    | some answer =>
      if search.matched.isSome ∨ (layer.kind ≠ .explicit ∧ explicitCursors summary ≠ []) then .ok { search with inbound }
      else do
        let values := if layer.kind = .explicit then layer.values.take 1 else layer.values
        match ← answer layer.kind values layer.scope with
        | none => .ok { search with inbound }
        | some found =>
          if found.sessionID = [] then .ok { search with inbound }
          else .ok ⟨inbound, some { found with kind := some (found.kind.getD layer.kind) }⟩

/-- Within the session a stateful continuation is anchored at the response that it continues. -/
def anchored (matched : Option Match) : Except Failure (Option Match) :=
  match matched, lookup with
  | some found, some answer =>
    if clampCursorValue summary.sessionCursor ≠ [] ∧ summary.stateful ∧ summary.explicitCursors ≠ [] then do
      match ← answer .explicit (summary.explicitCursors.take 1) .anywhere with
      | none => .ok (some found)
      | some anchor => if anchor.sessionID = found.sessionID then .ok (some anchor) else .ok (some found)
    else .ok matched
  | _, _ => .ok matched

structure Placement where
  /-- The record that the request is placed after. -/
  continues : Option Match
  /-- The record that decides the session. -/
  found : Option Match
  sideCall : Bool

/-- The newest call that the history continues takes its place. -/
def place (continues found : Option Match) : Except Failure Placement :=
  match continues, lookup with
  | some newest, some answer =>
    if newest.kind = some .explicit ∧ summary.sideCall = false ∧
        leaves (continuation summary fp) newest.turn summary.userTurnCount then do
      let before ← answer .explicit ((explicitCursors summary).take 1) ⟨false, 0, continuation summary fp⟩
      match before with
      | some earlier =>
        if earlier.sessionID = newest.sessionID ∧ Continuation.holds (continuation summary fp) earlier.turn then
          let earlier := { earlier with kind := some (earlier.kind.getD .explicit) }
          .ok ⟨some earlier, some earlier, false⟩
        else .ok ⟨continues, found, policy.toolFreeHelpers && !summary.hasTools⟩
      | none => .ok ⟨continues, found, policy.toolFreeHelpers && !summary.hasTools⟩
    else .ok ⟨continues, found, summary.sideCall⟩
  | _, _ => .ok ⟨continues, found, summary.sideCall⟩

/-- The decision, with the record that the request is placed after. -/
def resolveAfter (now : Int) : Except Failure (Decision × Option Match) := do
  let search ← (layers policy summary fp now).foldlM (tryLayer summary lookup) ⟨[], none⟩
  let anchor ← anchored summary lookup search.matched
  let placement ← place policy summary fp lookup anchor search.matched
  let turn :=
    if placement.sideCall then sideCallTurn placement.continues
    else nextTurn summary placement.continues (fingerprintOf fp summary.lastUserDigest)
  .ok (⟨placement.found, turn, placement.sideCall, search.inbound⟩, placement.continues)

def resolve (now : Int) : Except Failure Decision :=
  (resolveAfter policy summary fp lookup now).map Prod.fst

end

def appendEchoIDs (limit : Int) (cursors : List Cursor) : List Text → List Cursor
  | [] => cursors
  | id :: ids =>
    if (cursors.length : Int) ≥ limit + 1 then cursors
    else
      let value := clampCursorValue id
      if value ≠ [] then appendEchoIDs limit (cursors ++ [⟨.echoID, .outbound, value⟩]) ids
      else appendEchoIDs limit cursors ids

def outputCursors (policy : Policy) (summary : ResponseSummary) (fp : Option Fingerprinter) : List Cursor :=
  let value := clampCursorValue summary.outputID
  let cursors := if value ≠ [] then [⟨.explicit, .outbound, value⟩] else []
  let fingerprint := fingerprintOf fp summary.assistantDigest
  appendEchoIDs (maxOutputEchoIDs policy) cursors summary.echoIDs ++
    if fingerprint ≠ [] then [⟨.fingerprint, .outbound, fingerprint⟩] else []

structure Record where
  sessionID : Text
  principal : Text
  turn : Option TurnState
  at_ : Int
  cursors : List Cursor

structure Stored where
  serial : Nat
  record : Record

structure Options where
  ttl : Int
  maxRecords : Int

structure Index where
  options : Options
  next : Nat
  records : List Stored
  byKey : Kind → Text → List Stored

namespace Index

def new (options : Options) : Index := ⟨options, 0, [], fun _ _ => []⟩

def expired (options : Options) (now : Int) (record : Record) : Bool :=
  decide (options.ttl > 0) && decide (now - record.at_ > options.ttl)

/-- The records to drop and those to keep, oldest first. -/
def evicted (options : Options) (now : Int) : List Stored → List Stored × List Stored
  | [] => ([], [])
  | stored :: rest =>
    if expired options now stored.record ∨ (options.maxRecords > 0 ∧ (rest.length + 1 : Int) > options.maxRecords) then
      (stored :: (evicted options now rest).1, (evicted options now rest).2)
    else ([], stored :: rest)

def addKey (stored : Stored) (byKey : Kind → Text → List Stored) (cursor : Cursor) : Kind → Text → List Stored :=
  fun kind value => if kind = cursor.kind ∧ value = cursor.value then byKey kind value ++ [stored] else byKey kind value

def dropKey (stored : Stored) (byKey : Kind → Text → List Stored) (cursor : Cursor) : Kind → Text → List Stored :=
  fun kind value =>
    if kind = cursor.kind ∧ value = cursor.value then
      (byKey kind value).filter fun candidate => candidate.serial ≠ stored.serial
    else byKey kind value

def evictLocked (index : Index) (now : Int) : Index :=
  let (dropped, kept) := evicted index.options now index.records
  { index with
    records := kept
    byKey := dropped.foldl (fun byKey stored => stored.record.cursors.foldl (dropKey stored) byKey) index.byKey }

def put (index : Index) (now : Int) (record : Record) : Index :=
  let stored : Stored := ⟨index.next, record⟩
  evictLocked
    { index with
      next := index.next + 1
      records := index.records ++ [stored]
      byKey := record.cursors.foldl (addKey stored) index.byKey }
    now

def recordHasCursor (record : Record) (kind : Kind) (direction : Direction) (value : Text) : Bool :=
  record.cursors.any fun cursor => cursor.kind = kind && cursor.direction = direction && cursor.value = value

def qualifies (principal : Text) (kind : Kind) (direction : Direction) (value : Text) (scope : Scope) (record : Record) :
    Bool :=
  !(scope.samePrincipal && record.principal ≠ principal) &&
    !(scope.notBefore ≠ 0 && decide (record.at_ < scope.notBefore)) &&
    (scope.continues.isNone || Continuation.holds scope.continues record.turn) &&
    recordHasCursor record kind direction value

/-- The newest so far, the first one of those that are as new. -/
def newer (best : Option (Record × Text)) (candidate : Record × Text) : Option (Record × Text) :=
  match best with
  | none => some candidate
  | some held => if candidate.1.at_ > held.1.at_ then some candidate else some held

def bestOf (index : Index) (principal : Text) (kind : Kind) (values : List Text) (scope : Scope)
    (direction : Direction) : Option (Record × Text) :=
  let candidates := values.flatMap fun value =>
    ((index.byKey kind value).filter fun stored => qualifies principal kind direction value scope stored.record).map
      fun stored => (stored.record, value)
  candidates.foldl newer none

def lookup (index : Index) (principal : Text) (kind : Kind) (values : List Text) (scope : Scope) : Option Match :=
  let directions := if kind = .explicit then [.outbound, .inbound] else [Direction.outbound]
  (directions.findSome? (bestOf index principal kind values scope)).map fun best =>
    ⟨best.1.sessionID, some kind, best.2, best.1.turn⟩

def lookupFor (index : Index) (principal : Text) : Lookup Empty :=
  fun kind values scope => .ok (index.lookup principal kind values scope)

end Index

structure Request where
  policy : Policy
  summary : RequestSummary
  fp : Option Fingerprinter
  principal : Text
  now : Int
  /-- The session it opens when it continues none. -/
  newSession : Text

/-- A resolved request. -/
structure Call where
  request : Request
  decision : Decision
  continues : Option Match

def Call.session (call : Call) : Text := (call.decision.found.map Match.sessionID).getD call.request.newSession

structure Answered where
  call : Call
  response : ResponseSummary

def Answered.record (answered : Answered) : Record where
  sessionID := answered.call.session
  principal := answered.call.request.principal
  turn := answered.call.decision.turn
  at_ := answered.call.request.now
  cursors := answered.call.decision.persistentInbound ++
    outputCursors answered.call.request.policy answered.response answered.call.request.fp

def handle (index : Index) (request : Request) : Option Call :=
  match resolveAfter request.policy request.summary request.fp (some (index.lookupFor request.principal)) request.now with
  | .ok (decision, continues) => some ⟨request, decision, continues⟩
  | .error _ => none

structure State where
  index : Index
  waiting : List Call
  /-- The calls in the order in which they were resolved. -/
  calls : List Call
  /-- What was stored, in order. -/
  answered : List Answered

def State.new (options : Options) : State := ⟨.new options, [], [], []⟩

inductive Act where
  | resolve (request : Request)
  | store (place : Nat) (response : ResponseSummary) (now : Int)

def step (state : State) : Act → Option State
  | .resolve request =>
    (handle state.index request).map fun call =>
      { state with waiting := state.waiting ++ [call], calls := state.calls ++ [call] }
  | .store place response now =>
    state.waiting[place]?.map fun call =>
      { state with
        index := state.index.put now (Answered.record ⟨call, response⟩)
        waiting := state.waiting.eraseIdx place
        answered := state.answered ++ [⟨call, response⟩] }

end AstrLink.Turns
