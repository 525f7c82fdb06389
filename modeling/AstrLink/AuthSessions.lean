import AstrLink.TokenSource

/-!
Interactive sign-ins, at most one session per service. A callback, a pasted code or polling completes a
session, each cut at its critical sections, its exchange and the hook, so that any other call may come in
between.
-/
namespace AstrLink.AuthSessions
open TokenSource (AccountTokens)
open Function (update)

inductive Flow where
  | browser
  | deviceCode
  | code
deriving DecidableEq

inductive Status where
  | pending
  | completed
  | cancelled
  | expired
  | failed
deriving DecidableEq

structure SubscriptionError where
  code : String
  message : String

structure AuthorizationDeviceCode where
  verificationURL : String
  userCode : String

/-- The session document that is shown to the user. -/
structure AuthorizationSession where
  id : String
  status : Status
  flow : Flow
  authorizationURL : String
  deviceCode : Option AuthorizationDeviceCode
  serviceID : String
  expiresAt : Nat
  createdAt : Nat
  updatedAt : Nat
  error : Option SubscriptionError

structure SessionSecrets where
  state : String
  verifier : String
  redirectURI : String

structure TrackedSession where
  document : AuthorizationSession
  secrets : Option SessionSecrets
  completing : Bool
  exchanging : Bool
  /-- The completion that is under way, by the delivery that runs it. -/
  completionDone : Option Nat

def TrackedSession.isPending (session : TrackedSession) : Bool := session.document.status == .pending

def maxPendingAuthorizationSessions : Nat := 3

/-- Where the code of a session comes from. -/
inductive Source where
  | callback
  | pasted
  | polled

/-- What a delivery does next. A contested exchange overlapped another one of the same code. -/
inductive Stage where
  | exchanging (code : String)
  | refused (failure : SubscriptionError) (contested : Bool)
  | exchanged (tokens : AccountTokens)
  | hooking (tokens : AccountTokens)
  | hooked (succeeded : Bool)
  | failing
  | releasing

inductive Phase where
  | idle
  | requesting (service : String)
  | polling (id : String)
  | delivering (source : Source) (id : String) (stage : Stage)
  /-- A `CancelAllForService`, with the sessions that it found. -/
  | cancelling (service : String) (existing : List String) (completion : Nat)
  | done

inductive Event where
  | began (id service : String)
  | ended (id : String) (status : Status) (contested : Bool)
  | hookStarted (id : String)
  | hookSucceeded (id : String)
  /-- A `CancelAllForService` returned. -/
  | cancelledAll (existing : List String)
deriving DecidableEq

/-- An exchange with the provider that is under way. -/
structure Exchange where
  thread : Nat
  id : String
  code : String
  contested : Bool

structure State where
  now : Nat
  sessions : List TrackedSession
  byService : String → Option String
  /-- The callback handlers that were ever installed. -/
  handlers : String → Option SessionSecrets
  threads : Nat → Phase
  exchanges : List Exchange
  accepted : List String
  log : List Event

structure OAuthConfig where
  sessionTTL : Nat
  deviceCodeTTL : Nat
  issuerName : String

def State.move (state : State) (thread : Nat) (phase : Phase) : State :=
  { state with threads := update state.threads thread phase }

def State.note (state : State) (event : Event) : State :=
  { state with log := state.log ++ [event] }

def State.lookup (state : State) (id : String) : Option TrackedSession :=
  state.sessions.find? (·.document.id == id)

def State.modify (state : State) (id : String) (change : TrackedSession → TrackedSession) : State :=
  { state with
    sessions := state.sessions.map fun session => if session.document.id = id then change session else session }

/-- `shutdownLocked`, which leaves a session alone while it is completing. -/
def TrackedSession.shutdown (session : TrackedSession) (now : Nat) (status : Status) (failure : SubscriptionError) :
    TrackedSession :=
  if session.completing then session
  else
    { session with
      document :=
        { session.document with status, authorizationURL := "", deviceCode := none, error := some failure, updatedAt := now }
      secrets := none }

/-- A session that is pending and not completing is shut down. -/
def State.settle (state : State) (id : String) (status : Status) (failure : SubscriptionError) (contested : Bool) : State :=
  match state.lookup id with
  | some session =>
    if session.isPending && !session.completing then
      (state.modify id (·.shutdown state.now status failure)).note (.ended id status contested)
    else state
  | none => state

def sessionExpired : SubscriptionError := ⟨"oauth_session_expired", "authorization session expired"⟩
def sessionCancelled : SubscriptionError := ⟨"oauth_session_cancelled", "authorization cancelled"⟩
def providerError : SubscriptionError := ⟨"oauth_callback_failed", "authorization provider returned an error"⟩
def stateMismatch : SubscriptionError := ⟨"oauth_state_mismatch", "authorization state validation failed"⟩
def exchangeFailed : SubscriptionError := ⟨"oauth_callback_failed", "authorization code exchange failed"⟩
def storeUnavailable : SubscriptionError :=
  ⟨"account_credential_store_unavailable", "failed to persist connected account"⟩

def State.failSession (state : State) (id : String) (failure : SubscriptionError) (contested : Bool) : State :=
  state.settle id .failed failure contested

def State.cancelBySessionID (state : State) (id : String) : State :=
  state.settle id .cancelled sessionCancelled false

/-- The timer of a session. -/
def State.expireAfter (state : State) (id : String) : State :=
  state.settle id .expired sessionExpired false

def State.expireOne (state : State) (id : String) : State :=
  if ((state.lookup id).any fun session => session.document.expiresAt < state.now) then
    state.settle id .expired sessionExpired false
  else state

def State.expirePending (state : State) : State :=
  (state.sessions.map (·.document.id)).foldl State.expireOne state

def State.pendingCount (state : State) : Nat := state.sessions.countP (·.isPending)

def State.remove (state : State) (id : String) : State :=
  match state.lookup id with
  | some session =>
    { state with
      byService := update state.byService session.document.serviceID none
      sessions := state.sessions.filter (·.document.id ≠ id) }
  | none => state

/-- Whether a session may start for the service, once what is over was cleared away. -/
def State.canStart (state : State) (service : String) : State × Bool :=
  let state := state.expirePending
  match state.byService service with
  | some existing =>
    if (state.lookup existing).any (·.isPending) then (state, false)
    else
      let state := state.remove existing
      (state, state.pendingCount < maxPendingAuthorizationSessions)
  | none => (state, state.pendingCount < maxPendingAuthorizationSessions)

def State.add (state : State) (flow : Flow) (service id url : String) (device : Option AuthorizationDeviceCode)
    (secrets : SessionSecrets) (ttl : Nat) : State :=
  { state.note (.began id service) with
    sessions :=
      { document :=
          { id, status := .pending, flow, authorizationURL := url, deviceCode := device, serviceID := service,
            expiresAt := state.now + ttl, createdAt := state.now, updatedAt := state.now, error := none }
        secrets := some secrets
        completing := false
        exchanging := false
        completionDone := none } :: state.sessions
    byService := update state.byService service (some id) }

/-- The id is one that was not used before. -/
def State.unused (state : State) (id : String) : Bool :=
  state.log.all fun event => match event with
    | .began other _ => other != id
    | _ => true

/-- `beginBrowserAuthorization`, which installs the callback handler. -/
def State.beginBrowser (state : State) (config : OAuthConfig) (service id url : String) (secrets : SessionSecrets)
    (failed : Bool) : Option State :=
  if state.unused id then
    let (state, free) := state.canStart service
    if free && !failed then
      some
        { state.add .browser service id url none secrets config.sessionTTL with
          handlers := update state.handlers id (some secrets) }
    else some state
  else none

def State.beginCode (state : State) (config : OAuthConfig) (service id url : String) (secrets : SessionSecrets)
    (failed : Bool) : Option State :=
  if state.unused id then
    let (state, free) := state.canStart service
    if free && !failed then some (state.add .code service id url none secrets config.sessionTTL) else some state
  else none

/-- `beginDeviceCodeAuthorization` up to the request for a device code. -/
def State.requestDevice (state : State) (thread : Nat) (service : String) : Option State :=
  match state.threads thread with
  | .idle =>
    let (state, free) := state.canStart service
    some (state.move thread (if free then .requesting service else .done))
  | _ => none

/-- The second part of `beginDeviceCodeAuthorization`, which starts a thread that polls. -/
def State.beginDevice (state : State) (config : OAuthConfig) (thread poller : Nat) (id : String)
    (device : AuthorizationDeviceCode) (failed : Bool) : Option State :=
  match state.threads thread, state.threads poller with
  | .requesting service, .idle =>
    if state.unused id then
      let (state, free) := state.canStart service
      if free && !failed then
        some (((state.add .deviceCode service id "" (some device) ⟨"", "", ""⟩ config.deviceCodeTTL).move thread .done).move
          poller (.polling id))
      else some (state.move thread .done)
    else none
  | _, _ => none

def State.get (state : State) (service : String) : State :=
  let state := state.expirePending
  match state.byService service with
  | some id =>
    match state.lookup id with
    | some _ => state
    | none => { state with byService := update state.byService service none }
  | none => state

def State.cancel (state : State) (service : String) : State :=
  let state := state.expirePending
  match state.byService service with
  | some id =>
    match state.lookup id with
    | some _ => state.settle id .cancelled sessionCancelled false
    | none => { state with byService := update state.byService service none }
  | none => state

def State.cancelTurn (state : State) (thread : Nat) (service : String) (existing : List String) : State :=
  match state.byService service with
  | some id =>
    match state.lookup id with
    | some session =>
      match session.completing, session.completionDone with
      | true, some completion => state.move thread (.cancelling service existing completion)
      | _, _ =>
        ((state.settle id .cancelled sessionCancelled false).move thread .done).note (.cancelledAll existing)
    | none =>
      ({ state with byService := update state.byService service none }.move thread .done).note (.cancelledAll existing)
  | none => (state.move thread .done).note (.cancelledAll existing)

/-- The sessions of a service that were begun so far. -/
def State.begun (state : State) (service : String) : List String :=
  state.log.filterMap fun event => match event with
    | .began id other => if other = service then some id else none
    | _ => none

def State.cancelAll (state : State) (thread : Nat) (service : String) : Option State :=
  match state.threads thread with
  | .idle => some (state.cancelTurn thread service (state.begun service))
  | _ => none

/-- The completion that a thread runs has not recorded its outcome yet. -/
def Phase.completes : Phase → Bool
  | .delivering _ _ (.hooking _) | .delivering _ _ (.hooked _) => true
  | _ => false

/-- The loop of `CancelAllForService` goes on once the completion it waited for is done. -/
def State.cancelAgain (state : State) (thread : Nat) : Option State :=
  match state.threads thread with
  | .cancelling service existing completion =>
    if (state.threads completion).completes then none else some (state.cancelTurn thread service existing)
  | _ => none

structure Query where
  error : String
  state : String
  code : String

/-- A delivery sends its code, which contests other exchanges of it. -/
def State.exchange (state : State) (thread : Nat) (source : Source) (id code : String) : State :=
  let rival (other : Exchange) := other.id == id && other.code == code
  { state.move thread (.delivering source id (.exchanging code)) with
    exchanges :=
      state.exchanges.map (fun other => { other with contested := other.contested || rival other }) ++
        [{ thread, id, code, contested := state.exchanges.any rival }] }

/-- A request to the callback handler of a session. -/
def State.callback (state : State) (thread : Nat) (id : String) (query : Query) : Option State :=
  match state.handlers id, state.threads thread with
  | some secrets, .idle =>
    if query.error ≠ "" then some ((state.failSession id providerError false).move thread .done)
    else if query.code = "" ∨ query.state ≠ secrets.state then
      some ((state.failSession id stateMismatch false).move thread .done)
    else some (state.exchange thread .callback id query.code)
  | _, _ => none

def State.callbackCancel (state : State) (id : String) : Option State :=
  match state.handlers id with
  | some _ => some (state.cancelBySessionID id)
  | none => none

def isSpace (char : Char) : Bool :=
  [9, 10, 11, 12, 13, 32, 0x85, 0xA0, 0x1680, 0x2028, 0x2029, 0x202F, 0x205F, 0x3000].contains char.toNat ||
    (0x2000 ≤ char.toNat && char.toNat ≤ 0x200A)

/-- `strings.TrimSpace` -/
def trimSpace (text : String) : String :=
  String.ofList ((text.toList.dropWhile isSpace).reverse.dropWhile isSpace).reverse

/-- The parts before and after the first `#`. -/
def splitState (text : String) : Option (String × String) :=
  match text.toList.span (· ≠ '#') with
  | (code, _ :: rest) => some (String.ofList code, String.ofList rest)
  | (_, []) => none

/-- What `CompleteCode` takes: a code of bounded size that ends in the state of the session. -/
def accepts (secrets : SessionSecrets) (code : String) : Bool :=
  code.utf8ByteSize ≤ 8192 && (splitState (trimSpace code)).any fun (code, state) => code != "" && state == secrets.state

def State.completeCode (state : State) (thread : Nat) (service id code : String) : Option State :=
  match state.threads thread with
  | .idle =>
    let state := state.expirePending
    match state.lookup id with
    | some session =>
      match session.secrets with
      | some secrets =>
        if state.byService service = some id ∧ session.document.serviceID = service ∧ session.isPending = true ∧
            session.completing = false ∧ session.exchanging = false ∧ session.document.flow = .code ∧
            accepts secrets code = true then
          some ((state.modify id fun session => { session with exchanging := true }).exchange thread .pasted id
            (trimSpace code))
        else some (state.move thread .done)
      | none => some (state.move thread .done)
    | none => some (state.move thread .done)
  | _ => none

/-- What the provider, which accepts each code once, answers to an exchange. -/
inductive Answer where
  | tokens (tokens : AccountTokens)
  | failed

def State.answer (state : State) (thread : Nat) (answer : Answer) : Option State :=
  match state.threads thread with
  | .delivering source id (.exchanging code) =>
    let ended := { state with exchanges := state.exchanges.filter (·.thread ≠ thread) }
    match answer with
    | .tokens tokens =>
      if code ∈ state.accepted then none
      else
        some { ended.move thread (.delivering source id (.exchanged tokens)) with accepted := code :: state.accepted }
    | .failed =>
      let contested := state.exchanges.any fun exchange => exchange.thread == thread && exchange.contested
      some (ended.move thread (.delivering source id (.refused exchangeFailed contested)))
  | _ => none

inductive PollError where
  | copilotNotEntitled
  | droidNoOrganization
  | exchange
  | other

def devicePollFailure (issuerName : String) : PollError → SubscriptionError
  | .copilotNotEntitled => ⟨"copilot_not_entitled", "This GitHub account has no active Copilot plan"⟩
  | .droidNoOrganization => ⟨"factory_no_organization", "This Factory account belongs to no organization"⟩
  | .exchange => ⟨"oauth_device_code_poll_failed", "Device Code authorization exchange failed"⟩
  | .other => ⟨"oauth_device_code_poll_failed", "Device Code login failed while waiting for " ++ issuerName⟩

/-- What a poll of the device code gives. -/
inductive Poll where
  | pending
  | failed (error : PollError)
  | tokens (tokens : AccountTokens)

def State.poll (state : State) (config : OAuthConfig) (thread : Nat) (result : Poll) : Option State :=
  match state.threads thread with
  | .polling id =>
    match result with
    | .pending => some state
    | .failed error =>
      some (state.move thread (.delivering .polled id (.refused (devicePollFailure config.issuerName error) false)))
    | .tokens tokens => some (state.move thread (.delivering .polled id (.exchanged tokens)))
  | _ => none

/-- The first critical section of `completeSession`. -/
def State.complete (state : State) (thread : Nat) : Option State :=
  match state.threads thread with
  | .delivering source id (.exchanged tokens) =>
    let state := state.expirePending
    if (state.lookup id).any fun session => session.isPending && !session.completing then
      some (((state.modify id fun session => { session with completing := true, completionDone := some thread }).move
        thread (.delivering source id (.hooking tokens))).note (.hookStarted id))
    else some (state.move thread (.delivering source id .failing))
  | _ => none

def State.onComplete (state : State) (thread : Nat) (succeeds : Bool) : Option State :=
  match state.threads thread with
  | .delivering source id (.hooking _) =>
    let state := state.move thread (.delivering source id (.hooked succeeds))
    some (if succeeds then state.note (.hookSucceeded id) else state)
  | _ => none

/-- What a delivery does once its session has an outcome. -/
def Source.last (source : Source) (id : String) : Phase :=
  match source with
  | .pasted => .delivering .pasted id .releasing
  | .callback | .polled => .done

def TrackedSession.finish (session : TrackedSession) (now : Nat) (succeeded : Bool) : TrackedSession :=
  let session := { session with completing := false, completionDone := none }
  if succeeded then
    { session with
      document :=
        { session.document with
          status := .completed, authorizationURL := "", deviceCode := none, updatedAt := now, error := none }
      secrets := none }
  else session

/-- The second critical section of `completeSession`. -/
def State.finish (state : State) (thread : Nat) : Option State :=
  match state.threads thread with
  | .delivering source id (.hooked succeeded) =>
    if (state.lookup id).any fun session => session.completing && session.completionDone == some thread then
      let finished := state.modify id (·.finish state.now succeeded)
      some
        (if succeeded then (finished.move thread (source.last id)).note (.ended id .completed false)
          else finished.move thread (.delivering source id .failing))
    else some (state.move thread (.delivering source id .failing))
  | _ => none

/-- A delivery that was refused, or that could not complete its session, fails the session. -/
def State.fail (state : State) (thread : Nat) : Option State :=
  match state.threads thread with
  | .delivering source id (.refused failure contested) =>
    some ((state.failSession id failure contested).move thread (source.last id))
  | .delivering source id .failing =>
    some ((state.failSession id storeUnavailable false).move thread (source.last id))
  | _ => none

def State.release (state : State) (thread : Nat) : Option State :=
  match state.threads thread with
  | .delivering .pasted id .releasing =>
    some ((state.modify id fun session => { session with exchanging := false }).move thread .done)
  | _ => none

inductive Act where
  | beginBrowser (service id url : String) (secrets : SessionSecrets) (failed : Bool)
  | beginCode (service id url : String) (secrets : SessionSecrets) (failed : Bool)
  | requestDevice (thread : Nat) (service : String)
  | beginDevice (thread poller : Nat) (id : String) (device : AuthorizationDeviceCode) (failed : Bool)
  | get (service : String)
  | cancel (service : String)
  | cancelAll (thread : Nat) (service : String)
  | cancelAgain (thread : Nat)
  | callback (thread : Nat) (id : String) (query : Query)
  | callbackCancel (id : String)
  | completeCode (thread : Nat) (service id code : String)
  | answer (thread : Nat) (answer : Answer)
  | poll (thread : Nat) (result : Poll)
  | complete (thread : Nat)
  | onComplete (thread : Nat) (succeeds : Bool)
  | finish (thread : Nat)
  | fail (thread : Nat)
  | release (thread : Nat)
  | expire (id : String)
  | tick

def step (config : OAuthConfig) (state : State) : Act → Option State
  | .beginBrowser service id url secrets failed => state.beginBrowser config service id url secrets failed
  | .beginCode service id url secrets failed => state.beginCode config service id url secrets failed
  | .requestDevice thread service => state.requestDevice thread service
  | .beginDevice thread poller id device failed => state.beginDevice config thread poller id device failed
  | .get service => some (state.get service)
  | .cancel service => some (state.cancel service)
  | .cancelAll thread service => state.cancelAll thread service
  | .cancelAgain thread => state.cancelAgain thread
  | .callback thread id query => state.callback thread id query
  | .callbackCancel id => state.callbackCancel id
  | .completeCode thread service id code => state.completeCode thread service id code
  | .answer thread answer => state.answer thread answer
  | .poll thread result => state.poll config thread result
  | .complete thread => state.complete thread
  | .onComplete thread succeeds => state.onComplete thread succeeds
  | .finish thread => state.finish thread
  | .fail thread => state.fail thread
  | .release thread => state.release thread
  | .expire id => some (state.expireAfter id)
  | .tick => some { state with now := state.now + 1 }

def start : State where
  now := 0
  sessions := []
  byService _ := none
  handlers _ := none
  threads _ := .idle
  exchanges := []
  accepted := []
  log := []

/-- No service has two sessions, and no more are pending than may be. -/
structure Limits (state : State) : Prop where
  services : (state.sessions.map (·.document.serviceID)).Nodup
  pending : state.pendingCount ≤ maxPendingAuthorizationSessions

/-- A session ends once, its hook succeeds at most once, and nothing of it comes after its end or a
`CancelAllForService` that found it. -/
def Kept (before : List Event) : Event → Prop
  | .ended id _ _ => ∀ status contested, .ended id status contested ∉ before
  | .hookStarted id => (∀ status contested, .ended id status contested ∉ before) ∧
      ∀ existing, .cancelledAll existing ∈ before → id ∉ existing
  | .hookSucceeded id => .hookSucceeded id ∉ before ∧ ∀ existing, .cancelledAll existing ∈ before → id ∉ existing
  | .began _ _ | .cancelledAll _ => True

/-- No session was failed by one of two exchanges of the same code that overlapped. -/
def Uncontested (state : State) : Prop := ∀ id status, .ended id status true ∉ state.log

/-- A contested callback is refused only when that changes nothing. -/
def orderly (state : State) : Act → Bool
  | .fail thread =>
    match state.threads thread with
    | .delivering .callback id (.refused _ true) =>
      (state.lookup id).all fun session => !session.isPending || session.completing
    | _ => true
  | _ => true

end AstrLink.AuthSessions
