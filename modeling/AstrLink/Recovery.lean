import Mathlib

/-!
The recovery schedule of one request: which candidate is attempted next, how
often each may be attempted, and how long it has to wait. Candidates are the
numbers below `n`, in the order of the resolver. Instants and durations are in
nanoseconds.
-/
namespace AstrLink.Recovery
open Function (update)

inductive FailureAction where
  | stop
  | retry
  | failover
  | retryAndFailover
deriving DecidableEq

def FailureAction.allowsRetry : FailureAction → Bool
  | .retry | .retryAndFailover => true
  | .stop | .failover => false

def FailureAction.allowsFailover : FailureAction → Bool
  | .failover | .retryAndFailover => true
  | .stop | .retry => false

/-- What the schedule and its loop read of a failure policy. -/
structure FailurePolicy where
  maxRetries : Nat
  initialDelayMS : Nat
  maxDelayMS : Nat
  networkError : FailureAction
  responseTimeout : FailureAction
  httpStatus : List (Nat × FailureAction)

def defaultFailurePolicy : FailurePolicy :=
  { maxRetries := 1, initialDelayMS := 500, maxDelayMS := 5000
    networkError := .retryAndFailover, responseTimeout := .retryAndFailover
    httpStatus := [(408, .retryAndFailover), (429, .retryAndFailover), (500, .retryAndFailover),
      (502, .retryAndFailover), (503, .retryAndFailover), (504, .retryAndFailover), (529, .retryAndFailover),
      (401, .failover), (403, .failover)] }

def FailurePolicy.actionForStatus (policy : FailurePolicy) (status : Nat) : FailureAction :=
  (policy.httpStatus.lookup status).getD .stop

inductive FailoverStrategy where
  | failoverOnly
  | retryFirst
  | failoverFirst
deriving DecidableEq

structure FailoverPolicy where
  enabled : Bool
  strategy : FailoverStrategy
  maxAttempts : Nat

def defaultFailoverPolicy : FailoverPolicy :=
  { enabled := true, strategy := .retryFirst, maxAttempts := 6 }

structure Service where
  id : String
  kind : String
  failurePolicy : Option FailurePolicy

/-- A resolved candidate, with its canonical service. -/
structure Candidate where
  service : Service
  failurePolicy : Option FailurePolicy
  failover : Option FailoverPolicy
  upstreamModel : String
  requestedModel : String
  upstreamProtocol : String
  planType : String
  mode : String

def failurePolicy (candidate : Candidate) : FailurePolicy :=
  (candidate.failurePolicy.or candidate.service.failurePolicy).getD defaultFailurePolicy

/-- The parts that `recoveryTargetKey` joins with NUL bytes. -/
def recoveryTargetKey (candidate : Candidate) : List String :=
  let model := if candidate.upstreamModel = "" then candidate.requestedModel else candidate.upstreamModel
  let plan := if candidate.planType = "" then candidate.mode else candidate.planType
  [candidate.service.id, model, candidate.upstreamProtocol, plan]

structure Schedule (n : Nat) where
  nextRepair : Bool
  repairing : Bool
  policy : FailoverPolicy
  selected : Fin n → Bool
  maySwitch : Bool
  /-- Ordinary attempts only; repairs still count toward the total. -/
  counts : Fin n → Nat
  retryable : Fin n → Bool
  excluded : Fin n → Bool
  readyAt : Fin n → Nat
  total : Nat
  nextIndex : Option (Fin n)
  stopReason : String
  delay : Nat

variable {n : Nat}

/-- The policy of the first candidate, with one attempt when the body cannot be sent again. -/
def requestPolicy (candidates : Fin n → Candidate) (replayable : Bool) : FailoverPolicy :=
  let policy := if any : 0 < n then (candidates ⟨0, any⟩).failover.getD defaultFailoverPolicy else defaultFailoverPolicy
  if replayable then policy else { policy with maxAttempts := 1, enabled := false }

def newRecoverySchedule (candidates : Fin n → Candidate) (replayable : Bool) : Schedule n :=
  let policy := requestPolicy candidates replayable
  { nextRepair := false, repairing := false, policy, selected := fun _ => false, maySwitch := policy.enabled
    counts := fun _ => 0, retryable := fun _ => false, excluded := fun _ => false, readyAt := fun _ => 0, total := 0
    nextIndex := if any : 0 < n then some ⟨0, any⟩ else none
    stopReason := "", delay := 0 }

def first (test : Fin n → Bool) : Option (Fin n) :=
  (List.finRange n).find? test

/-- Marks the candidate as selected, and chooses the one after it. -/
def Schedule.select (schedule : Schedule n) (index : Fin n) : Schedule n :=
  let selected := update schedule.selected index true
  let retryable := update schedule.retryable index false
  let revisited :=
    if schedule.policy.strategy = .failoverFirst ∨ schedule.policy.strategy = .failoverOnly then first retryable else none
  { schedule with
    repairing := schedule.nextRepair
    nextRepair := false
    selected
    retryable
    nextIndex := if schedule.maySwitch then (first (fun next => !selected next)).or revisited else none }

/-- The next candidate and when its wait is over; the timer is `late`, or the context ends first. -/
def Schedule.next (schedule : Schedule n) (now late : Nat) (cancelled : Bool) : Schedule n × Option (Fin n × Nat) :=
  match schedule.nextIndex with
  | none => (schedule, none)
  | some index =>
    if schedule.policy.maxAttempts ≤ schedule.total then (schedule, none)
    else if cancelled then ({ schedule with stopReason := "cancelled" }, none)
    else (schedule.select index, some (index, max now (schedule.readyAt index) + late))

/-- A network attempt at the candidate begins. -/
def Schedule.started (schedule : Schedule n) (index : Fin n) : Schedule n :=
  { schedule with
    retryable := if schedule.policy.strategy = .failoverOnly then fun _ => false else schedule.retryable
    total := schedule.total + 1
    counts := if schedule.repairing then schedule.counts else update schedule.counts index (schedule.counts index + 1) }

/-- Inserts an attempt at the same candidate, unless the attempt limit is reached. -/
def Schedule.repair (schedule : Schedule n) (index : Fin n) : Schedule n × Bool :=
  if schedule.policy.maxAttempts ≤ schedule.total then (schedule, false)
  else
    ({ schedule with
      nextIndex := some index
      nextRepair := true
      readyAt := update schedule.readyAt index 0
      delay := 0
      stopReason := "" }, true)

/-- Removes every route that passes the test from this request. -/
def Schedule.exclude (schedule : Schedule n) (excluded : Fin n → Bool) : Schedule n :=
  { schedule with
    selected := fun i => schedule.selected i || excluded i
    retryable := fun i => schedule.retryable i && !excluded i
    excluded := fun i => schedule.excluded i || excluded i }

def millisecond : Nat := 1000000

/-- How long a failed candidate waits; `jittered` replaces the delay unless it is zero. -/
def backoff (policy : FailurePolicy) (count jittered retryAfter : Nat) : Nat :=
  let delay := policy.initialDelayMS * millisecond * 2 ^ (count - 1)
  let delay := if 0 < delay then jittered else delay
  max (min delay (policy.maxDelayMS * millisecond)) retryAfter

/-- The bookkeeping of a failure below the attempt limit. -/
def Schedule.backOff (schedule : Schedule n) (candidates : Fin n → Candidate) (index : Fin n) (action : FailureAction)
    (retryAfter now jittered : Nat) : Schedule n :=
  let policy := failurePolicy (candidates index)
  let delay := backoff policy (schedule.counts index) jittered retryAfter
  let tooLong := policy.maxDelayMS * millisecond < delay
  { schedule with
    retryable := if tooLong then update schedule.retryable index false else schedule.retryable
    stopReason := if tooLong then "retry_after_limit" else schedule.stopReason
    readyAt := update schedule.readyAt index (now + delay)
    maySwitch := action.allowsFailover && schedule.policy.enabled }

/-- Which candidate follows one that failed. -/
def Schedule.target (schedule : Schedule n) (index : Fin n) : Option (Fin n) :=
  if schedule.retryable index && (!schedule.maySwitch || schedule.policy.strategy = .retryFirst) then some index
  else
    let other := if schedule.maySwitch then
        (first (fun next => next ≠ index && !schedule.selected next)).or
          (if schedule.policy.strategy = .failoverFirst then first schedule.retryable else none)
      else none
    other.or (if schedule.retryable index then some index else none)

/-- The bookkeeping of every failure: whether the candidate's own limit lets it be tried again. -/
def Schedule.markFailed (schedule : Schedule n) (candidates : Fin n → Candidate) (index : Fin n)
    (action : FailureAction) : Schedule n :=
  { schedule with
    nextIndex := none
    delay := 0
    stopReason := "error_rule"
    retryable := update schedule.retryable index (!schedule.excluded index && action.allowsRetry &&
      decide (schedule.counts index ≤ (failurePolicy (candidates index)).maxRetries)) }

/-- Why no candidate follows one that failed with the action. -/
def Schedule.exhaustedReason (schedule : Schedule n) (action : FailureAction) : String :=
  if schedule.stopReason = "retry_after_limit" then schedule.stopReason
  else if action = .stop then "error_rule"
  else if !schedule.policy.enabled && action.allowsFailover then "failover_disabled"
  else "targets_exhausted"

/-- A failure is reported: whether another attempt follows. -/
def Schedule.recover (schedule : Schedule n) (candidates : Fin n → Candidate) (index : Fin n) (action : FailureAction)
    (retryAfter now jittered : Nat) : Schedule n × Bool :=
  let failed := schedule.markFailed candidates index action
  if schedule.policy.maxAttempts ≤ schedule.total then ({ failed with stopReason := "attempt_limit" }, false)
  else
    let waiting := failed.backOff candidates index action retryAfter now jittered
    match waiting.target index with
    | some next => ({ waiting with
        nextIndex := some next, stopReason := "", delay := waiting.readyAt next - now }, true)
    | none => ({ waiting with stopReason := waiting.exhaustedReason action }, false)

theorem first_eq_some {test : Fin n → Bool} {i : Fin n} :
    first test = some i ↔ test i = true ∧ ∀ j < i, test j = false := by
  rw [first, List.find?_eq_some_iff_getElem]
  constructor
  · rintro ⟨found, position, inside, same, earlier⟩
    refine ⟨found, fun j before => ?_⟩
    have isAt : position = i.val := by
      rw [← same, List.getElem_finRange]
      rfl
    have skipped := earlier j.val (by omega)
    rw [List.getElem_finRange] at skipped
    simpa using skipped
  · rintro ⟨found, earlier⟩
    have inside : i.val < (List.finRange n).length := by simp
    refine ⟨found, i.val, inside, by rw [List.getElem_finRange]; rfl, fun position before => ?_⟩
    rw [List.getElem_finRange]
    have skipped := earlier ⟨position, by omega⟩ before
    simpa using skipped

theorem first_eq_none {test : Fin n → Bool} : first test = none ↔ ∀ i, test i = false := by
  simp [first, List.find?_eq_none]

/-- A candidate that follows was not selected yet, or may be tried again. -/
def Schedule.Follows (schedule : Schedule n) (next : Fin n) : Prop :=
  (schedule.selected next = false ∧ ∀ j < next, schedule.selected j = true) ∨ schedule.retryable next = true

variable (schedule : Schedule n)

@[simp] theorem select_selected (index : Fin n) :
    (schedule.select index).selected = update schedule.selected index true := rfl

@[simp] theorem select_retryable (index : Fin n) :
    (schedule.select index).retryable = update schedule.retryable index false := rfl

theorem next_cases (now late : Nat) (cancelled : Bool) :
    (schedule.next now late cancelled = (schedule, none) ∧
      (schedule.nextIndex = none ∨ schedule.policy.maxAttempts ≤ schedule.total)) ∨
    schedule.next now late cancelled = ({ schedule with stopReason := "cancelled" }, none) ∨
    ∃ index, schedule.nextIndex = some index ∧ schedule.total < schedule.policy.maxAttempts ∧
      schedule.next now late cancelled =
        (schedule.select index, some (index, max now (schedule.readyAt index) + late)) := by
  rw [Schedule.next]
  cases isNext : schedule.nextIndex with
  | none => exact .inl ⟨rfl, .inl rfl⟩
  | some index =>
    dsimp only
    split_ifs with limit
    · exact .inl ⟨rfl, .inr limit⟩
    · exact .inr (.inl rfl)
    · exact .inr (.inr ⟨index, rfl, by omega, rfl⟩)

variable {schedule : Schedule n} {index : Fin n}

theorem select_nextIndex {next : Fin n} (chosen : (schedule.select index).nextIndex = some next) :
    schedule.maySwitch = true ∧ (schedule.select index).Follows next := by
  simp only [Schedule.select] at chosen
  split at chosen
  · rename_i may
    refine ⟨may, ?_⟩
    rcases Option.or_eq_some_iff.mp chosen with fresh | ⟨-, revisited⟩
    · obtain ⟨unselected, earlier⟩ := first_eq_some.mp fresh
      exact .inl ⟨by simpa using unselected, fun j before => by simpa using earlier j before⟩
    · rw [← select_retryable] at revisited
      split at revisited
      · exact .inr (first_eq_some.mp revisited).1
      · simp at revisited
  · simp at chosen

theorem select_exhausted (may : schedule.maySwitch = true) (last : (schedule.select index).nextIndex = none)
    (i : Fin n) : (schedule.select index).selected i = true := by
  simp only [Schedule.select, may, if_true, Option.or_eq_none_iff] at last
  simpa using first_eq_none.mp last.1 i

theorem target_some {next : Fin n} (chosen : schedule.target index = some next)
    (tried : schedule.selected index = true) :
    schedule.Follows next ∧ (schedule.maySwitch = false → next = index) := by
  simp only [Schedule.target] at chosen
  split at chosen
  · rename_i again
    cases chosen
    simp only [Bool.and_eq_true] at again
    exact ⟨.inr again.1, fun _ => rfl⟩
  · rcases Option.or_eq_some_iff.mp chosen with other | ⟨-, again⟩
    · by_cases may : schedule.maySwitch = true
      · rw [if_pos may] at other
        refine ⟨?_, fun cannot => absurd may (by simp [cannot])⟩
        rcases Option.or_eq_some_iff.mp other with fresh | ⟨-, revisited⟩
        · obtain ⟨unselected, earlier⟩ := first_eq_some.mp fresh
          simp only [ne_eq, Bool.and_eq_true, Bool.not_eq_true'] at unselected
          refine .inl ⟨unselected.2, fun j before => ?_⟩
          by_cases same : j = index
          · rw [same]
            exact tried
          · simpa [same] using earlier j before
        · split at revisited
          · exact .inr (first_eq_some.mp revisited).1
          · simp at revisited
      · simp [may] at other
    · by_cases retryable : schedule.retryable index = true
      · simp only [retryable, if_true, Option.some.injEq] at again
        subst again
        exact ⟨.inr retryable, fun _ => rfl⟩
      · simp [retryable] at again

theorem target_none (last : schedule.target index = none) (tried : schedule.selected index = true)
    (may : schedule.maySwitch = true) (i : Fin n) :
    schedule.selected i = true := by
  simp only [Schedule.target] at last
  split at last
  · simp at last
  · simp only [Option.or_eq_none_iff] at last
    by_cases same : i = index
    · rw [same]
      exact tried
    · simpa [same] using first_eq_none.mp last.1.1 i

theorem repair_below (below : schedule.total < schedule.policy.maxAttempts) :
    (schedule.repair index).1 = { schedule with
      nextIndex := some index, nextRepair := true, readyAt := update schedule.readyAt index 0
      delay := 0, stopReason := "" } := by
  rw [Schedule.repair, if_neg (by omega)]

structure Recovered (candidates : Fin n → Candidate) (before : Schedule n) (index : Fin n) (action : FailureAction)
    (now wait : Nat) (after : Schedule n) (again : Bool) : Prop where
  policy : after.policy = before.policy
  selected : after.selected = before.selected
  counts : after.counts = before.counts
  excluded : after.excluded = before.excluded
  total : after.total = before.total
  nextRepair : after.nextRepair = before.nextRepair
  repairing : after.repairing = before.repairing
  others : ∀ i, i ≠ index → after.retryable i = before.retryable i
  retryable : after.retryable index = true → before.excluded index = false ∧ action.allowsRetry = true ∧
    before.counts index ≤ (failurePolicy (candidates index)).maxRetries
  readyAt : before.total < before.policy.maxAttempts → after.readyAt = update before.readyAt index (now + wait)
  maySwitch : before.total < before.policy.maxAttempts →
    after.maySwitch = (action.allowsFailover && before.policy.enabled)
  accepted : again = true → before.total < before.policy.maxAttempts ∧ ∃ next, after.nextIndex = some next ∧
    after.Follows next ∧ (after.maySwitch = false → next = index)
  refused : again = false → after.nextIndex = none ∧ (before.total < before.policy.maxAttempts →
    after.maySwitch = true → ∀ i, after.selected i = true)

theorem recover_recovered (candidates : Fin n → Candidate) (schedule : Schedule n) (index : Fin n)
    (action : FailureAction) (retryAfter now jittered : Nat) (tried : schedule.selected index = true) :
    Recovered candidates schedule index action now
      (backoff (failurePolicy (candidates index)) (schedule.counts index) jittered retryAfter)
      (schedule.recover candidates index action retryAfter now jittered).1
      (schedule.recover candidates index action retryAfter now jittered).2 := by
  have others : ∀ i, i ≠ index → (schedule.markFailed candidates index action).retryable i = schedule.retryable i :=
    fun i other => by simp [Schedule.markFailed, other]
  have retryable : (schedule.markFailed candidates index action).retryable index = true →
      schedule.excluded index = false ∧ action.allowsRetry = true ∧
        schedule.counts index ≤ (failurePolicy (candidates index)).maxRetries := by
    simp [Schedule.markFailed, and_assoc]
  by_cases limit : schedule.policy.maxAttempts ≤ schedule.total
  · rw [Schedule.recover, if_pos limit]
    exact {
      policy := rfl, selected := rfl, counts := rfl, excluded := rfl, total := rfl, nextRepair := rfl, repairing := rfl
      others, retryable
      readyAt := fun below => absurd limit (by omega)
      maySwitch := fun below => absurd limit (by omega)
      accepted := fun again => absurd again (by simp)
      refused := fun _ => ⟨rfl, fun below => absurd limit (by omega)⟩ }
  · have below : schedule.total < schedule.policy.maxAttempts := by omega
    rw [Schedule.recover, if_neg limit]
    have waitingOthers : ∀ i, i ≠ index → ((schedule.markFailed candidates index action).backOff candidates index action
        retryAfter now jittered).retryable i = schedule.retryable i := by
      intro i other
      rw [← others i other, Schedule.backOff]
      dsimp only
      split_ifs <;> simp [other]
    have waitingRetryable : ((schedule.markFailed candidates index action).backOff candidates index action
        retryAfter now jittered).retryable index = true → _ := fun again => retryable (by
      rw [Schedule.backOff] at again
      dsimp only at again
      split_ifs at again
      · simp at again
      · exact again)
    have waitingTried : ((schedule.markFailed candidates index action).backOff candidates index action retryAfter now
        jittered).selected index = true := tried
    cases chosen : ((schedule.markFailed candidates index action).backOff candidates index action retryAfter now
        jittered).target index with
    | some next =>
      simp only [chosen]
      exact {
        policy := rfl, selected := rfl, counts := rfl, excluded := rfl, total := rfl, nextRepair := rfl, repairing := rfl
        others := waitingOthers
        retryable := waitingRetryable
        readyAt := fun _ => rfl
        maySwitch := fun _ => rfl
        accepted := fun _ => ⟨below, next, rfl, target_some chosen waitingTried⟩
        refused := fun refused => absurd refused (by simp) }
    | none =>
      have exhausted := fun may => target_none chosen waitingTried may
      simp only [chosen]
      exact {
        policy := rfl, selected := rfl, counts := rfl, excluded := rfl, total := rfl, nextRepair := rfl, repairing := rfl
        others := waitingOthers
        retryable := waitingRetryable
        readyAt := fun _ => rfl
        maySwitch := fun _ => rfl
        accepted := fun again => absurd again (by simp)
        refused := fun _ => ⟨rfl, fun _ => exhausted⟩ }

end AstrLink.Recovery
