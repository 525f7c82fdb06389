import AstrLink.Runs

/-!
The token source of an account. Its callers are cut at their store accesses, their call of the provider and
their critical sections. The provider rotates the refresh token on every use.
-/
namespace AstrLink.TokenSource
open Runs
open Function (update)

structure AccountTokens where
  accessToken : String
  refreshToken : String
  tokenType : String
  scope : String
  accountID : String
  projectID : String
  planType : String
  region : String
  expiresAt : Nat
  rawIDTokenClaims : String
deriving DecidableEq

/-- The refreshed tokens, with what the provider left out taken from the tokens they replace. -/
def AccountTokens.carried (refreshed current : AccountTokens) : AccountTokens :=
  { refreshed with
    refreshToken := if refreshed.refreshToken = "" then current.refreshToken else refreshed.refreshToken
    accountID := if refreshed.accountID = "" then current.accountID else refreshed.accountID
    projectID := current.projectID
    planType := current.planType
    region := if refreshed.region = "" then current.region else refreshed.region }

/-- The refresh tokens that the provider issued, and those of them that were not used yet. -/
structure Provider where
  issued : List String
  live : List String
  covered : ∀ token ∈ live, token ∈ issued

/-- How a refresh ends; the answer may be lost after the token was rotated. -/
inductive Answer where
  | rotated (tokens : AccountTokens)
  | invalidGrant
  | failed (rotated : Option String)

def Provider.issue (provider : Provider) (token : String) : Provider where
  issued := token :: provider.issued
  live := token :: provider.live
  covered := by
    intro other listed
    rcases List.mem_cons.mp listed with rfl | listed
    · exact List.mem_cons_self
    · exact List.mem_cons_of_mem token (provider.covered other listed)

/-- One refresh token is replaced by another. -/
def Provider.rotate (provider : Provider) (token next : String) : Provider :=
  issue
    { issued := provider.issued
      live := provider.live.filter (· ≠ token)
      covered := fun other listed => provider.covered other (List.mem_filter.mp listed).1 }
    next

/-- The provider after it answered so; none when it does not answer so. -/
def Provider.answer (provider : Provider) (token : String) : Answer → Option Provider
  | .rotated tokens =>
    if token ∈ provider.live ∧ tokens.refreshToken ∉ provider.issued ∧ tokens.refreshToken ≠ "" then
      some (provider.rotate token tokens.refreshToken)
    else none
  | .invalidGrant => if token ∈ provider.live then none else some provider
  | .failed none => some provider
  | .failed (some next) =>
    if token ∈ provider.live ∧ next ∉ provider.issued then some (provider.rotate token next) else none

inductive Failure where
  | inactive
  | invalidGrant
  | unavailable

structure TokenLifecycle where
  generation : Nat
  invalidated : Bool

/-- The next generation, which is not active. -/
def TokenLifecycle.retire (lifecycle : TokenLifecycle) : TokenLifecycle where
  generation := lifecycle.generation + 1
  invalidated := true

/-- A refresh that callers share. It has a result once it is done. -/
structure RefreshCall where
  generation : Nat
  result : Option (Except Failure AccountTokens)

inductive Request where
  | accessToken
  | refreshRejected (rejectedAccessToken : String)

structure Flight where
  call : Nat
  current : AccountTokens
  readAt : Nat

/-- What the caller that registered a refresh does next. -/
inductive Stage where
  | asking
  | refused
  | refreshed (tokens : AccountTokens)
  | persisting (tokens : AccountTokens)
  | stored (tokens : AccountTokens)
  | finishing (result : Except Failure AccountTokens)

inductive Phase where
  | idle
  | reading (request : Request)
  | read (request : Request) (tokens : AccountTokens) (readAt : Nat)
  | waiting (request : Request) (call : Nat)
  | refreshing (request : Request) (flight : Flight) (stage : Stage)
  | quiescing (generation : Nat) (call : Option Nat)

/-- What left the source. -/
inductive Event where
  | sent (refreshToken : String)
  | stored (readAt : Nat) (current : AccountTokens) (replaced : Option AccountTokens)
  | marked (readAt : Nat) (active good : Bool)
  | returned (readAt : Nat) (tokens : AccountTokens)
  /-- The `Invalidate` that began this generation returned. -/
  | quiesced (generation : Nat)
  | activated (generation : Nat)
deriving DecidableEq

structure State where
  now : Nat
  stored : Option AccountTokens
  provider : Provider
  lifecycle : TokenLifecycle
  inflight : Option Nat
  calls : Nat → RefreshCall
  nextCall : Nat
  callers : Nat → Phase
  log : List Event

def State.move (state : State) (caller : Nat) (phase : Phase) : State :=
  { state with callers := update state.callers caller phase }

def State.note (state : State) (event : Event) : State :=
  { state with log := state.log ++ [event] }

def State.good (state : State) : Bool :=
  state.stored.any fun tokens => state.provider.live.contains tokens.refreshToken

/-- The first check of an `AccessToken` or a `RefreshRejected`. -/
def State.begin (state : State) (caller : Nat) (request : Request) : Option State :=
  match state.callers caller with
  | .idle => some (if state.lifecycle.invalidated then state else state.move caller (.reading request))
  | _ => none

def State.get (state : State) (caller : Nat) (failed : Bool) : Option State :=
  match state.callers caller with
  | .reading request =>
    match state.stored, failed with
    | some tokens, false => some (state.move caller (.read request tokens state.lifecycle.generation))
    | _, _ => some (state.move caller .idle)
  | _ => none

/-- What becomes of a request once the stored tokens are known. -/
inductive Course where
  | give
  | leave
  | refresh

def State.course (state : State) (skew : Nat) (tokens : AccountTokens) : Request → Course
  | .accessToken => if state.now + skew < tokens.expiresAt then .give else .refresh
  | .refreshRejected rejected => if rejected = "" ∨ tokens.accessToken ≠ rejected then .leave else .refresh

/-- The answer to a request: only `AccessToken` returns tokens. -/
def State.reply (state : State) (caller : Nat) (request : Request) (readAt : Nat)
    (result : Except Failure AccountTokens) : State :=
  match request, result with
  | .accessToken, .ok tokens => (state.move caller .idle).note (.returned readAt tokens)
  | _, _ => state.move caller .idle

/-- The critical section of `refresh`: join the refresh in flight, or register one. -/
def State.refresh (state : State) (caller : Nat) (request : Request) (current : AccountTokens) (readAt : Nat) : State :=
  if state.lifecycle.invalidated then state.move caller .idle
  else
    match state.inflight with
    | some call => state.move caller (.waiting request call)
    | none =>
      { state.move caller (.refreshing request ⟨state.nextCall, current, readAt⟩ .asking) with
        inflight := some state.nextCall
        calls := update state.calls state.nextCall ⟨state.lifecycle.generation, none⟩
        nextCall := state.nextCall + 1 }

/-- The rest of the request, from the tokens it read. -/
def State.proceed (state : State) (skew caller : Nat) : Option State :=
  match state.callers caller with
  | .read request tokens readAt =>
    match state.course skew tokens request with
    | .give =>
      some (state.reply caller request readAt (if state.lifecycle.invalidated then .error .inactive else .ok tokens))
    | .leave => some (state.move caller .idle)
    | .refresh => some (state.refresh caller request tokens readAt)
  | _ => none

/-- `waitForRefresh` once the call is done. -/
def State.wake (state : State) (caller : Nat) : Option State :=
  match state.callers caller with
  | .waiting request call =>
    (state.calls call).result.map (state.reply caller request (state.calls call).generation)
  | _ => none

def State.giveUp (state : State) (caller : Nat) : Option State :=
  match state.callers caller with
  | .waiting _ _ => some (state.move caller .idle)
  | _ => none

def Answer.stage : Answer → Stage
  | .rotated tokens => .refreshed tokens
  | .invalidGrant => .refused
  | .failed _ => .finishing (.error .unavailable)

def State.refreshAccount (state : State) (caller : Nat) (answer : Answer) : Option State :=
  match state.callers caller with
  | .refreshing request flight .asking =>
    (state.provider.answer flight.current.refreshToken answer).map fun provider =>
      { (state.move caller (.refreshing request flight answer.stage)).note (.sent flight.current.refreshToken) with
        provider }
  | _ => none

def State.markInvalidated (state : State) (caller : Nat) : Option State :=
  match state.callers caller with
  | .refreshing request flight .refused =>
    some
      { (state.move caller (.refreshing request flight (.finishing (.error .invalidGrant)))).note
          (.marked flight.readAt (!state.lifecycle.invalidated) state.good) with
        lifecycle := state.lifecycle.retire }
  | _ => none

def State.canPersist (state : State) (call : Nat) : Bool :=
  !state.lifecycle.invalidated && state.lifecycle.generation == (state.calls call).generation &&
    state.inflight == some call

def State.refreshCanPersist (state : State) (caller : Nat) : Option State :=
  match state.callers caller with
  | .refreshing request flight (.refreshed tokens) =>
    some (state.move caller (.refreshing request flight
      (if state.canPersist flight.call then .persisting (tokens.carried flight.current)
        else .finishing (.error .inactive))))
  | _ => none

def State.put (state : State) (caller : Nat) (failed : Bool) : Option State :=
  match state.callers caller with
  | .refreshing request flight (.persisting tokens) =>
    some
      (if failed then state.move caller (.refreshing request flight (.finishing (.error .unavailable)))
        else
          { (state.move caller (.refreshing request flight (.stored tokens))).note
              (.stored flight.readAt flight.current state.stored) with
            stored := some tokens })
  | _ => none

def State.onRotated (state : State) (caller : Nat) (failed : Bool) : Option State :=
  match state.callers caller with
  | .refreshing request flight (.stored tokens) =>
    some (state.move caller (.refreshing request flight
      (.finishing (if failed then .error .unavailable else .ok tokens))))
  | _ => none

/-- The result that `finishRefresh` leaves in the call. -/
def State.finalResult (state : State) (call : Nat) : Except Failure AccountTokens → Except Failure AccountTokens
  | .ok tokens =>
    if state.lifecycle.invalidated || state.lifecycle.generation != (state.calls call).generation then .error .inactive
    else .ok tokens
  | .error failure => .error failure

def State.finishRefresh (state : State) (caller : Nat) : Option State :=
  match state.callers caller with
  | .refreshing request flight (.finishing result) =>
    let final := state.finalResult flight.call result
    let finished :=
      { state with
        calls := update state.calls flight.call { state.calls flight.call with result := some final }
        inflight := if state.inflight = some flight.call then none else state.inflight }
    some (finished.reply caller request flight.readAt final)
  | _ => none

def State.invalidate (state : State) (caller : Nat) : Option State :=
  match state.callers caller with
  | .idle =>
    some
      { state.move caller (.quiescing (state.lifecycle.generation + 1) state.inflight) with
        lifecycle := state.lifecycle.retire }
  | _ => none

/-- `Invalidate` returns once the refresh it found in flight is done. -/
def State.quiesce (state : State) (caller : Nat) : Option State :=
  match state.callers caller with
  | .quiescing generation call =>
    if call.all fun call => (state.calls call).result.isSome then
      some ((state.move caller .idle).note (.quiesced generation))
    else none
  | _ => none

def State.activate (state : State) : State :=
  { state.note (.activated (state.lifecycle.generation + 1)) with
    lifecycle := { generation := state.lifecycle.generation + 1, invalidated := false } }

def State.authorize (state : State) (tokens : AccountTokens) : Option State :=
  if tokens.refreshToken ∈ state.provider.issued then none
  else some { state with stored := some tokens, provider := state.provider.issue tokens.refreshToken }

inductive Act where
  | begin (caller : Nat) (request : Request)
  | get (caller : Nat) (failed : Bool)
  | proceed (caller : Nat)
  | wake (caller : Nat)
  | giveUp (caller : Nat)
  | refreshAccount (caller : Nat) (answer : Answer)
  | markInvalidated (caller : Nat)
  | refreshCanPersist (caller : Nat)
  | put (caller : Nat) (failed : Bool)
  | onRotated (caller : Nat) (failed : Bool)
  | finishRefresh (caller : Nat)
  | invalidate (caller : Nat)
  | quiesce (caller : Nat)
  | activate
  | authorize (tokens : AccountTokens)
  | delete
  | tick

def step (skew : Nat) (state : State) : Act → Option State
  | .begin caller request => state.begin caller request
  | .get caller failed => state.get caller failed
  | .proceed caller => state.proceed skew caller
  | .wake caller => state.wake caller
  | .giveUp caller => state.giveUp caller
  | .refreshAccount caller answer => state.refreshAccount caller answer
  | .markInvalidated caller => state.markInvalidated caller
  | .refreshCanPersist caller => state.refreshCanPersist caller
  | .put caller failed => state.put caller failed
  | .onRotated caller failed => state.onRotated caller failed
  | .finishRefresh caller => state.finishRefresh caller
  | .invalidate caller => state.invalidate caller
  | .quiesce caller => state.quiesce caller
  | .activate => some state.activate
  | .authorize tokens => state.authorize tokens
  | .delete => some { state with stored := none }
  | .tick => some { state with now := state.now + 1 }

def start (stored : Option AccountTokens) (good : Bool) : State where
  now := 0
  stored
  provider :=
    { issued := (stored.map AccountTokens.refreshToken).toList
      live := if good then (stored.map AccountTokens.refreshToken).toList else []
      covered := by cases good <;> simp }
  lifecycle := { generation := 0, invalidated := false }
  inflight := none
  calls _ := { generation := 0, result := none }
  nextCall := 0
  callers _ := .idle
  log := []

/-- A refresh token whose successor is stored is not sent again, a refresh replaces only the tokens it refreshed, and a
    refused one marks no account whose tokens are good or that was activated since its caller read them. Nothing that was
    read before a generation is stored or returned after the `Invalidate` that began the generation returned. -/
def Kept (before : List Event) : Event → Prop
  | .sent token => ∀ readAt current replaced, .stored readAt current replaced ∈ before → current.refreshToken ≠ token
  | .stored readAt current replaced =>
    replaced = some current ∧ ∀ generation, .quiesced generation ∈ before → generation ≤ readAt
  | .marked readAt active good =>
    good = false ∧ (active = true → ∀ generation, .activated generation ∈ before → generation ≤ readAt)
  | .returned readAt _ => ∀ generation, .quiesced generation ∈ before → generation ≤ readAt
  | .quiesced _ | .activated _ => True

/-- The tokens a caller goes on with are current, and stored when it registers a refresh. -/
def State.upToDate (state : State) (skew caller : Nat) : Bool :=
  match state.callers caller with
  | .read request tokens readAt =>
    match state.course skew tokens request with
    | .give => state.lifecycle.invalidated || readAt == state.lifecycle.generation
    | .leave => true
    | .refresh =>
      state.lifecycle.invalidated || state.inflight.isSome ||
        (readAt == state.lifecycle.generation && state.stored == some tokens)
  | _ => true

/-- A caller that waited gets the tokens of the call in the generation of the call. -/
def State.stillCurrent (state : State) (caller : Nat) : Bool :=
  match state.callers caller with
  | .waiting .accessToken call =>
    match (state.calls call).result with
    | some (.ok _) => state.lifecycle.generation == (state.calls call).generation
    | _ => true
  | _ => true

/-- A refused refresh marks the generation that it was read in, or one that is inactive already. -/
def State.sameGeneration (state : State) (caller : Nat) : Bool :=
  match state.callers caller with
  | .refreshing _ flight _ => state.lifecycle.invalidated || state.lifecycle.generation == flight.readAt
  | _ => true

/-- The steps after which the source keeps to what it promises. New credentials are stored, and old ones deleted, only
    while no refresh is in flight, which is what `Invalidate` is there for. -/
def orderly (skew : Nat) (state : State) : Act → Bool
  | .proceed caller => state.upToDate skew caller
  | .wake caller => state.stillCurrent caller
  | .markInvalidated caller => state.sameGeneration caller
  | .authorize _ | .delete => state.inflight.isNone
  | _ => true

end AstrLink.TokenSource
