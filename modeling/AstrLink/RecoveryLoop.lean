import AstrLink.Recovery
import AstrLink.Runs

/-!
The loop that executes the candidates of one request. What the preparation, the upstream and the client do is
chosen by the acts; `log` records what happened, oldest first.
-/
namespace AstrLink.RecoveryLoop
open Recovery

/-- What happened to the request, a failure with the wait of its candidate. -/
inductive Event (n : Nat) where
  | selected (index : Fin n) (time : Nat)
  | started (index : Fin n) (time : Nat) (repairing : Bool)
  | excluded (index : Fin n)
  | repaired (index : Fin n)
  | failed (index : Fin n) (action : FailureAction) (time wait : Nat)
  /-- The schedule has no further candidate. -/
  | gaveUp
deriving DecidableEq

/-- Where the loop stands with a candidate. -/
inductive Phase (n : Nat) where
  | choosing
  | preparing (index : Fin n)
  | flying (index : Fin n)
  /-- The response goes to the client; `refused` once the schedule did not recover from it. -/
  | answering (index : Fin n) (refused : Bool)
  | done
deriving DecidableEq

structure Loop (n : Nat) where
  schedule : Schedule n
  repairedTargets : List (List String)
  replayable : Bool
  phase : Phase n
  now : Nat
  log : List (Event n)

structure Response where
  statusCode : Nat
  /-- The status that a refusal at the start of the stream stands for. -/
  startFailure : Option Nat
  /-- The Retry-After of the response, or the longer wait its error asks for. -/
  retryAfter : Nat
  /-- The error is a risk signal for the whole account. -/
  accountBlocked : Bool
  /-- The error is `claudeExtraUsageRejection`. -/
  extraUsage : Bool
  /-- The error is one that the candidate's policy lets the request be repaired for, and its body could be. -/
  repairable : Bool

inductive Failure where
  | network
  | timeout
  | conversion
deriving DecidableEq

/-- Why the loop returns without asking the schedule. -/
inductive Ending where
  /-- The response was delivered, or has begun to reach the client. -/
  | delivered
  /-- The client is gone. -/
  | cancelled
  /-- The privacy filter does not let the request out. -/
  | privacy
  /-- The body cannot be read again, or it is a WebSocket turn that was sent. -/
  | bodyNotReplayable

/-- What the environment does next; `later` and `late` let time pass. -/
inductive Act where
  | next (late : Nat) (cancelled : Bool)
  /-- The candidate fails its preparation: nothing reaches the network. -/
  | reject
  | observeOutbound (later : Nat)
  | respond (response : Response) (later jittered : Nat)
  | fail (failure : Failure) (later jittered : Nat)
  /-- The transport finds the target invalid after it has announced the attempt. -/
  | invalidTarget
  | finish (ending : Ending)

section
variable {n : Nat} (candidates : Fin n → Candidate)

def startLoop (replayable : Bool) : Loop n :=
  { schedule := newRecoverySchedule candidates replayable
    repairedTargets := [], replayable, phase := .choosing, now := 0, log := [] }

def Response.status (response : Response) : Nat :=
  response.startFailure.getD response.statusCode

/-- The routes that an error response removes from the request. -/
def Response.excludes (response : Response) (index : Fin n) (other : Fin n) : Bool :=
  (response.accountBlocked && (candidates other).service.id == (candidates index).service.id) ||
  (response.statusCode == 400 && (candidates index).service.kind == "claude_subscription" && response.extraUsage &&
    (candidates other).service.kind == "claude_subscription")

def excludedEvents (excluded : Fin n → Bool) : List (Event n) :=
  ((List.finRange n).filter excluded).map .excluded

def Loop.repairs (loop : Loop n) (index : Fin n) (response : Response) : Bool :=
  response.statusCode == 400 && !response.accountBlocked && response.repairable &&
    !loop.repairedTargets.contains (recoveryTargetKey (candidates index)) &&
    decide (loop.schedule.total < loop.schedule.policy.maxAttempts)

/-- Reports a failure of the current candidate. -/
def Loop.recover (loop : Loop n) (index : Fin n) (action : FailureAction) (retryAfter jittered : Nat)
    (refused : Phase n) : Loop n :=
  let wait := backoff (failurePolicy (candidates index)) (loop.schedule.counts index) jittered retryAfter
  let log := loop.log ++ [.failed index action loop.now wait]
  match loop.schedule.recover candidates index action retryAfter loop.now jittered with
  | (schedule, true) => { loop with schedule, log, phase := .choosing }
  | (schedule, false) => { loop with schedule, log := log ++ [.gaveUp], phase := refused }

def Loop.handleError (loop : Loop n) (index : Fin n) (response : Response) (jittered : Nat) : Loop n :=
  let policy := failurePolicy (candidates index)
  let action := if response.accountBlocked then .failover else policy.actionForStatus response.status
  let excluded := response.excludes candidates index
  let loop := { loop with
    schedule := loop.schedule.exclude excluded
    log := loop.log ++ excludedEvents excluded }
  if loop.repairs candidates index response && (loop.schedule.repair index).2 then
    { loop with
      schedule := (loop.schedule.repair index).1
      repairedTargets := recoveryTargetKey (candidates index) :: loop.repairedTargets
      log := loop.log ++ [.repaired index]
      phase := .choosing }
  else loop.recover candidates index action response.retryAfter jittered (.answering index true)

/-- The action for a failure found after the transport returned. -/
def Failure.action (policy : FailurePolicy) : Failure → FailureAction
  | .network => policy.networkError
  | .timeout => policy.responseTimeout
  | .conversion => .failover

def Loop.fail (loop : Loop n) (index : Fin n) (failure : Failure) (jittered : Nat) : Loop n :=
  loop.recover candidates index (failure.action (failurePolicy (candidates index))) 0 jittered .done

/-- Where the loop can return for the reason. -/
def Ending.ends : Ending → Phase n → Bool
  | .delivered, .answering _ _ => true
  | .cancelled, .preparing _ | .cancelled, .flying _ | .cancelled, .answering _ _ => true
  | .privacy, .preparing _ => true
  | .bodyNotReplayable, .preparing _ | .bodyNotReplayable, .flying _ | .bodyNotReplayable, .answering _ _ => true
  | _, _ => false

def Loop.step (loop : Loop n) : Act → Option (Loop n)
  | .next late cancelled =>
    match loop.phase with
    | .choosing =>
      match loop.schedule.next loop.now late cancelled with
      | (schedule, some (index, time)) => some { loop with
          schedule, now := time, log := loop.log ++ [.selected index time], phase := .preparing index }
      | (schedule, none) =>
        -- The wait was cancelled, or there is no candidate left.
        let log := if schedule.stopReason = "cancelled" then loop.log else loop.log ++ [.gaveUp]
        some { loop with schedule, log, phase := .done }
    | _ => none
  | .reject =>
    match loop.phase with
    | .preparing _ => some { loop with phase := .choosing }
    | _ => none
  | .observeOutbound later =>
    match loop.phase with
    | .preparing index =>
      let now := loop.now + later
      some { loop with
        schedule := loop.schedule.started index
        now
        log := loop.log ++ [.started index now loop.schedule.repairing]
        phase := .flying index }
    | _ => none
  | .respond response later jittered =>
    match loop.phase with
    | .flying index =>
      let loop := { loop with now := loop.now + later }
      if response.status < 400 then some { loop with phase := .answering index false }
      else some (loop.handleError candidates index response jittered)
    | _ => none
  | .fail failure later jittered =>
    let loop := { loop with now := loop.now + later }
    if loop.replayable then
      match loop.phase with
      | .flying index => if failure = .conversion then none else some (loop.fail candidates index failure jittered)
      | .answering index _ => some (loop.fail candidates index failure jittered)
      | _ => none
    else none
  | .invalidTarget =>
    match loop.phase with
    | .flying _ => some { loop with phase := .choosing }
    | _ => none
  | .finish ending => if ending.ends loop.phase then some { loop with phase := .done } else none

end

end AstrLink.RecoveryLoop
