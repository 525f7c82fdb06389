import AstrLink.Runs
import AstrLink.StandIns

/-!
The ledgers of a process. A request gets the ledger of its conversation from a bounded memory, claims
stand-ins and hands new ones to the store. A ledger may leave the memory while a request still holds it.
-/
namespace AstrLink.StandInLedgers
open Runs StandIns IPAddress

def maxLedgerConversations : Nat := 1024

variable {Session : Type}

/-- A row of `privacy_stand_ins`: a stand-in that a conversation issued to an owner. -/
structure Issue (Session : Type) where
  session : Session
  standIn : Text
  owner : Text
deriving DecidableEq

/-- A ledger and the conversation it is of. -/
structure Held (Session : Type) where
  id : Session
  ledger : Ledger

/-- How far a request is, and the ledger it holds. -/
inductive Stage where
  | asked (ref : Nat)
  | holding (ref : Nat)
  | saving (ref : Nat) (unsaved : List PrivacyStandIn)
  | failed (ref : Nat) (unsaved : List PrivacyStandIn)
  | done

def Stage.ref? : Stage → Option Nat
  | .asked ref | .holding ref | .saving ref _ | .failed ref _ => some ref
  | .done => none

def Stage.unsaved : Stage → List PrivacyStandIn
  | .saving _ unsaved | .failed _ unsaved => unsaved
  | _ => []

/-- The store, every ledger, the memory, the requests and what was issued. -/
structure State (Session : Type) where
  rows : List (Issue Session)
  ledgers : List (Held Session)
  recent : List (Session × Nat)
  requests : List Stage
  issued : List (Issue Session)

inductive Act (Session : Type) where
  | entry (session : Session)
  | load (request : Nat)
  | claim (request : Nat) (standIn owner : Text) (held : Bool)
  | takeUnsaved (request : Nat)
  | remember (request : Nat) (stored : Bool)
  | requeue (request : Nat)
  | leave (request : Nat)

variable [DecidableEq Session]

/-- The stored stand-ins of a conversation, in the order of their issue. -/
def State.privacyStandIns (state : State Session) (session : Session) : List PrivacyStandIn :=
  (state.rows.filter (·.session = session)).map fun row => ⟨row.standIn, row.owner⟩

/-- A row whose conversation and stand-in are stored already is left out. -/
def rememberPrivacyStandIns (session : Session) (rows : List (Issue Session)) (standIns : List PrivacyStandIn) :
    List (Issue Session) :=
  standIns.foldl
    (fun rows standIn =>
      if rows.any (fun row => row.session = session && row.standIn = standIn.standIn) then rows
      else rows ++ [⟨session, standIn.standIn, standIn.owner⟩])
    rows

def State.at (state : State Session) (request : Nat) (stage : Stage) : State Session :=
  { state with requests := state.requests.set request stage }

def State.put (state : State Session) (ref : Nat) (held : Held Session) (ledger : Ledger) : State Session :=
  { state with ledgers := state.ledgers.set ref { held with ledger } }

/-- `entry`: the ledger in memory, or a new one that may push the least recent out. -/
def State.entry (state : State Session) (session : Session) : State Session :=
  match state.recent.find? (·.1 = session) with
  | some element =>
    { state with
      recent := element :: state.recent.erase element
      requests := state.requests ++ [.asked element.2] }
  | none =>
    let recent := (session, state.ledgers.length) :: state.recent
    { state with
      ledgers := state.ledgers ++ [⟨session, .fresh⟩]
      recent := if maxLedgerConversations < recent.length then recent.dropLast else recent
      requests := state.requests ++ [.asked state.ledgers.length] }

def step (state : State Session) : Act Session → Option (State Session)
  | .entry session => some (state.entry session)
  | .load request =>
    match state.requests[request]? with
    | some (.asked ref) =>
      state.ledgers[ref]?.map fun held =>
        (state.put ref held (held.ledger.load (state.privacyStandIns held.id))).at request (.holding ref)
    | _ => none
  | .claim request standIn owner occurs =>
    match state.requests[request]? with
    | some (.holding ref) =>
      if owner = [] then none
      else
        state.ledgers[ref]?.map fun held =>
          match held.ledger.claim standIn owner occurs with
          | (true, ledger) =>
            { state.put ref held ledger with issued := state.issued ++ [⟨held.id, standIn, owner⟩] }
          | (false, _) => state
    | _ => none
  | .takeUnsaved request =>
    match state.requests[request]? with
    | some (.holding ref) =>
      state.ledgers[ref]?.map fun held =>
        (state.put ref held { held.ledger with unsaved := [] }).at request
          (if held.ledger.unsaved = [] then .done else .saving ref held.ledger.unsaved)
    | _ => none
  | .remember request stored =>
    match state.requests[request]? with
    | some (.saving ref unsaved) =>
      state.ledgers[ref]?.map fun held =>
        if stored then
          { state with rows := rememberPrivacyStandIns held.id state.rows unsaved }.at request .done
        else state.at request (.failed ref unsaved)
    | _ => none
  | .requeue request =>
    match state.requests[request]? with
    | some (.failed ref unsaved) =>
      state.ledgers[ref]?.map fun held =>
        (state.put ref held { held.ledger with unsaved := unsaved ++ held.ledger.unsaved }).at request .done
    | _ => none
  | .leave request =>
    match state.requests[request]? with
    | some (.holding _) => some (state.at request .done)
    | _ => none

/-- What the store holds when a process starts: one owner for a stand-in of a conversation. -/
structure Stored (Session : Type) where
  rows : List (Issue Session)
  exclusive : ∀ first ∈ rows, ∀ second ∈ rows, first.session = second.session → first.standIn = second.standIn →
    first.owner = second.owner
  named : ∀ row ∈ rows, row.owner ≠ []

/-- A process that has just started. What is stored was issued before. -/
def start (stored : Stored Session) : State Session where
  rows := stored.rows
  ledgers := []
  recent := []
  requests := []
  issued := stored.rows

/-- No stand-in was issued in a conversation to two owners. -/
def Exclusive (issued : List (Issue Session)) : Prop :=
  ∀ first ∈ issued, ∀ second ∈ issued, first.session = second.session → first.standIn = second.standIn →
    first.owner = second.owner

/-- A ledger is made anew only when no request holds an earlier one, and the store took all of its stand-ins. -/
def Calm (state : State Session) : Act Session → Prop
  | .entry session =>
    state.recent.find? (·.1 = session) = none →
      (∀ held ∈ state.ledgers, held.id = session → held.ledger.unsaved = []) ∧
        ∀ stage ∈ state.requests, (stage.ref?.bind (state.ledgers[·]?)).map (·.id) ≠ some session
  | _ => True

end AstrLink.StandInLedgers
