import AstrLink.RecoveryLoop

/-!
The pieces that the steps of the execution loop are made of. Every step is a
sequence of moves (`step_moves`), so an invariant of the loop is checked against
each move once. What the log says is read off with the counts and tests below.
-/
namespace AstrLink.RecoveryRuns
open Recovery RecoveryLoop Runs List
open Relation (ReflTransGen)

variable {n : Nat}

def isStart : Event n → Bool
  | .started _ _ _ => true
  | _ => false

def isSelection : Event n → Bool
  | .selected _ _ => true
  | _ => false

/-- An attempt at the candidate that is no repair. -/
def startsOrdinary (i : Fin n) : Event n → Bool
  | .started j _ repairing => j = i && !repairing
  | _ => false

def selects (i : Fin n) : Event n → Bool
  | .selected j _ => j = i
  | _ => false

def excludes (i : Fin n) : Event n → Bool
  | .excluded j => j = i
  | _ => false

def repairs (candidates : Fin n → Candidate) (target : List String) : Event n → Bool
  | .repaired j => recoveryTargetKey (candidates j) = target
  | _ => false

/-- The number of network attempts. -/
def attempts (log : List (Event n)) : Nat := log.countP isStart

def selections (log : List (Event n)) : Nat := log.countP isSelection

def ordinaryAttempts (i : Fin n) (log : List (Event n)) : Nat := log.countP (startsOrdinary i)

def repairsOf (candidates : Fin n → Candidate) (target : List String) (log : List (Event n)) : Nat :=
  log.countP (repairs candidates target)

def wasSelected (i : Fin n) (log : List (Event n)) : Bool := log.any (selects i)

def wasExcluded (i : Fin n) (log : List (Event n)) : Bool := log.any (excludes i)

/-- The time before which the candidate may not be started. -/
def waitsUntil (i : Fin n) (log : List (Event n)) : Nat :=
  log.foldl (fun earliest event => match event with
    | .failed j _ time wait => if j = i then time + wait else earliest
    | .repaired j => if j = i then 0 else earliest
    | _ => earliest) 0

def lastFailure (log : List (Event n)) : Option (Fin n × FailureAction) :=
  log.foldl (fun last event => match event with
    | .failed i action _ _ => some (i, action)
    | _ => last) none

def failureActions (log : List (Event n)) : List FailureAction :=
  log.filterMap fun event => match event with
    | .failed _ action _ _ => some action
    | _ => none

section
variable (log : List (Event n)) (event : Event n)

@[simp] theorem attempts_snoc : attempts (log ++ [event]) = attempts log + (isStart event).toNat := by
  cases started : isStart event <;> simp [attempts, started]

@[simp] theorem selections_snoc :
    selections (log ++ [event]) = selections log + (isSelection event).toNat := by
  cases selection : isSelection event <;> simp [selections, selection]

@[simp] theorem ordinaryAttempts_snoc (i : Fin n) :
    ordinaryAttempts i (log ++ [event]) = ordinaryAttempts i log + (startsOrdinary i event).toNat := by
  cases started : startsOrdinary i event <;> simp [ordinaryAttempts, started]

@[simp] theorem repairsOf_snoc (candidates : Fin n → Candidate) (target : List String) :
    repairsOf candidates target (log ++ [event]) =
      repairsOf candidates target log + (repairs candidates target event).toNat := by
  cases repairs : repairs candidates target event <;> simp [repairsOf, repairs]

@[simp] theorem wasSelected_snoc (i : Fin n) :
    wasSelected i (log ++ [event]) = (wasSelected i log || selects i event) := by
  simp [wasSelected]

@[simp] theorem wasExcluded_snoc (i : Fin n) :
    wasExcluded i (log ++ [event]) = (wasExcluded i log || excludes i event) := by
  simp [wasExcluded]

theorem waitsUntil_snoc (i : Fin n) : waitsUntil i (log ++ [event]) = match event with
    | .failed j _ time wait => if j = i then time + wait else waitsUntil i log
    | .repaired j => if j = i then 0 else waitsUntil i log
    | _ => waitsUntil i log := by
  rw [waitsUntil, foldl_append]
  rfl

theorem lastFailure_snoc : lastFailure (log ++ [event]) = match event with
    | .failed i action _ _ => some (i, action)
    | _ => lastFailure log := by
  rw [lastFailure, foldl_append]
  rfl

theorem failureActions_snoc : failureActions (log ++ [event]) = failureActions log ++ match event with
    | .failed _ action _ _ => [action]
    | _ => [] := by
  rw [failureActions, filterMap_append]
  cases event <;> rfl

end

section
variable (log : List (Event n)) (out : Fin n → Bool)

theorem read_excludedEvents {R : Type} (read : List (Event n) → R)
    (ignores : ∀ log i, read (log ++ [.excluded i]) = read log) : read (log ++ excludedEvents out) = read log := by
  have none : ∀ listed : List (Fin n), read (log ++ listed.map .excluded) = read log := by
    intro listed
    induction listed using List.reverseRecOn with
    | nil => simp
    | append_singleton listed last ih =>
      rw [map_append, ← List.append_assoc, map_singleton, ignores, ih]
  exact none _

@[simp] theorem attempts_excluded : attempts (log ++ excludedEvents out) = attempts log :=
  read_excludedEvents log out attempts (fun log i => attempts_snoc log (.excluded i))

@[simp] theorem selections_excluded : selections (log ++ excludedEvents out) = selections log :=
  read_excludedEvents log out selections (fun log i => selections_snoc log (.excluded i))

@[simp] theorem ordinaryAttempts_excluded (i : Fin n) :
    ordinaryAttempts i (log ++ excludedEvents out) = ordinaryAttempts i log :=
  read_excludedEvents log out (ordinaryAttempts i) (fun log j => ordinaryAttempts_snoc log (.excluded j) i)

@[simp] theorem repairsOf_excluded (candidates : Fin n → Candidate) (target : List String) :
    repairsOf candidates target (log ++ excludedEvents out) = repairsOf candidates target log :=
  read_excludedEvents log out (repairsOf candidates target)
    (fun log j => repairsOf_snoc log (.excluded j) candidates target)

@[simp] theorem wasSelected_excluded (i : Fin n) : wasSelected i (log ++ excludedEvents out) = wasSelected i log :=
  read_excludedEvents log out (wasSelected i) (fun log j => by simp [selects])

@[simp] theorem wasExcluded_excluded (i : Fin n) :
    wasExcluded i (log ++ excludedEvents out) = (wasExcluded i log || out i) := by
  have added : (excludedEvents out).any (excludes i) = out i := by
    rw [Bool.eq_iff_iff]
    simp [excludedEvents, excludes, any_map]
  rw [wasExcluded, any_append, added, ← wasExcluded]

@[simp] theorem waitsUntil_excluded (i : Fin n) : waitsUntil i (log ++ excludedEvents out) = waitsUntil i log :=
  read_excludedEvents log out (waitsUntil i) (fun log j => waitsUntil_snoc log (.excluded j) i)

@[simp] theorem lastFailure_excluded : lastFailure (log ++ excludedEvents out) = lastFailure log :=
  read_excludedEvents log out lastFailure (fun log j => lastFailure_snoc log (.excluded j))

@[simp] theorem failureActions_excluded : failureActions (log ++ excludedEvents out) = failureActions log :=
  read_excludedEvents log out failureActions (fun log j => by simp [failureActions])

theorem always_excluded {holds : List (Event n) → Event n → Prop} (always : Always holds log)
    (free : ∀ before i, holds before (.excluded i)) : Always holds (log ++ excludedEvents out) := by
  refine always.append _ (fun before event listed => ?_)
  obtain ⟨i, -, rfl⟩ := mem_map.mp listed
  exact free before i

end

variable (candidates : Fin n → Candidate)

/-- The candidate the loop is at. -/
def current : Phase n → Option (Fin n)
  | .preparing i | .flying i | .answering i _ => some i
  | .choosing | .done => none

/-- A piece of a step. `twice` allows a second failure of an attempt, `reopens` a repair for an excluded candidate. -/
inductive Move (twice reopens : Prop) : Loop n → Loop n → Prop where
  | tick (loop : Loop n) (later : Nat) : Move twice reopens loop { loop with now := loop.now + later }
  | choose (loop : Loop n) (index : Fin n) (late : Nat) (choosing : loop.phase = .choosing)
      (isNext : loop.schedule.nextIndex = some index)
      (below : loop.schedule.total < loop.schedule.policy.maxAttempts) :
      Move twice reopens loop { loop with
        schedule := loop.schedule.select index
        now := max loop.now (loop.schedule.readyAt index) + late
        log := loop.log ++ [.selected index (max loop.now (loop.schedule.readyAt index) + late)]
        phase := .preparing index }
  | giveUp (loop : Loop n)
      (last : loop.schedule.nextIndex = none ∨ loop.schedule.policy.maxAttempts ≤ loop.schedule.total) :
      Move twice reopens loop { loop with log := loop.log ++ [.gaveUp] }
  | reject (loop : Loop n) (index : Fin n) (preparing : loop.phase = .preparing index) :
      Move twice reopens loop { loop with phase := .choosing }
  | start (loop : Loop n) (index : Fin n) (preparing : loop.phase = .preparing index) :
      Move twice reopens loop { loop with
        schedule := loop.schedule.started index
        log := loop.log ++ [.started index loop.now loop.schedule.repairing]
        phase := .flying index }
  | answer (loop : Loop n) (index : Fin n) (flying : loop.phase = .flying index) :
      Move twice reopens loop { loop with phase := .answering index false }
  | exclude (loop : Loop n) (index : Fin n) (flying : loop.phase = .flying index) (excluded : Fin n → Bool) :
      Move twice reopens loop { loop with
        schedule := loop.schedule.exclude excluded
        log := loop.log ++ excludedEvents excluded }
  | repair (loop : Loop n) (index : Fin n) (flying : loop.phase = .flying index)
      (below : loop.schedule.total < loop.schedule.policy.maxAttempts)
      (unrepaired : recoveryTargetKey (candidates index) ∉ loop.repairedTargets)
      (admitted : loop.schedule.excluded index = false ∨ reopens) :
      Move twice reopens loop { loop with
        schedule := (loop.schedule.repair index).1
        repairedTargets := recoveryTargetKey (candidates index) :: loop.repairedTargets
        log := loop.log ++ [.repaired index]
        phase := .choosing }
  | recover (loop : Loop n) (index : Fin n) (refused : Bool)
      (reporting : loop.phase = .flying index ∨ loop.phase = .answering index refused) (once : refused = true → twice)
      (action : FailureAction) (wait : Nat) (after : Schedule n)
      (recovered : Recovered candidates loop.schedule index action loop.now wait after true) :
      Move twice reopens loop { loop with
        schedule := after
        log := loop.log ++ [.failed index action loop.now wait]
        phase := .choosing }
  | refuse (loop : Loop n) (index : Fin n) (refused : Bool)
      (reporting : loop.phase = .flying index ∨ loop.phase = .answering index refused) (once : refused = true → twice)
      (action : FailureAction) (wait : Nat) (after : Schedule n)
      (recovered : Recovered candidates loop.schedule index action loop.now wait after false)
      (phase : Phase n) (ended : phase = .answering index true ∨ phase = .done) :
      Move twice reopens loop { loop with
        schedule := after
        log := loop.log ++ [.failed index action loop.now wait]
        phase }
  | drop (loop : Loop n) (index : Fin n) (flying : loop.phase = .flying index)
      (admitted : ∀ i, loop.schedule.nextIndex = some i → loop.schedule.excluded i = false ∨ reopens) :
      Move twice reopens loop { loop with phase := .choosing }
  | leave (loop : Loop n) (reason : String) :
      Move twice reopens loop { loop with schedule := { loop.schedule with stopReason := reason }, phase := .done }

/-- A failure is reported of a response that was already refused. -/
def failsTwice (loop : Loop n) : Act → Bool
  | .fail _ _ _ =>
    match loop.phase with
    | .answering _ refused => refused
    | _ => false
  | _ => false

/-- The request is repaired for a candidate that is excluded, by the same response or before. -/
def repairsExcluded (loop : Loop n) : Act → Bool
  | .respond response _ _ =>
    match loop.phase with
    | .flying index => loop.repairs candidates index response &&
        (loop.schedule.excluded index || response.excludes candidates index index)
    | _ => false
  | _ => false

def Tried (loop : Loop n) : Prop :=
  ∀ index, current loop.phase = some index → loop.schedule.selected index = true

variable {candidates} {twice reopens : Prop}

theorem recover_moves (loop : Loop n) (index : Fin n) (refused : Bool)
    (reporting : loop.phase = .flying index ∨ loop.phase = .answering index refused) (once : refused = true → twice)
    (tried : loop.schedule.selected index = true) (action : FailureAction) (retryAfter jittered : Nat)
    {phase : Phase n} (ended : phase = .answering index true ∨ phase = .done) :
    ReflTransGen (Move candidates twice reopens) loop
      (loop.recover candidates index action retryAfter jittered phase) := by
  have recovered := recover_recovered candidates loop.schedule index action retryAfter loop.now jittered tried
  rw [Loop.recover]
  revert recovered
  generalize loop.schedule.recover candidates index action retryAfter loop.now jittered = outcome
  obtain ⟨after, again⟩ := outcome
  intro recovered
  cases again with
  | true => exact .single (.recover loop index refused reporting once action _ after recovered)
  | false =>
    exact .tail (.single (.refuse loop index refused reporting once action _ after recovered phase ended))
      (.giveUp _ (.inl (recovered.refused rfl).1))

theorem handleError_moves (loop : Loop n) (index : Fin n) (flying : loop.phase = .flying index)
    (tried : loop.schedule.selected index = true) (response : Response) (jittered : Nat)
    (reopening : loop.repairs candidates index response = true →
      (loop.schedule.excluded index || response.excludes candidates index index) = true → reopens) :
    ReflTransGen (Move candidates twice reopens) loop (loop.handleError candidates index response jittered) := by
  let excluded := response.excludes candidates index
  let without : Loop n :=
    { loop with schedule := loop.schedule.exclude excluded, log := loop.log ++ excludedEvents excluded }
  have removed : Move candidates twice reopens loop without := .exclude loop index flying excluded
  have stillTried : without.schedule.selected index = true := by simp [without, Schedule.exclude, tried]
  have reported : ∀ action, ReflTransGen (Move candidates twice reopens) loop
      (without.recover candidates index action response.retryAfter jittered (.answering index true)) := fun action =>
    (ReflTransGen.single removed).trans
      (recover_moves without index false (.inl flying) (by simp) stillTried action _ _ (.inl rfl))
  rw [Loop.handleError]
  dsimp only
  split_ifs with repaired
  · obtain ⟨repairs, -⟩ := (Bool.and_eq_true _ _).mp repaired
    obtain ⟨unrepaired, below⟩ : recoveryTargetKey (candidates index) ∉ loop.repairedTargets ∧
        without.schedule.total < without.schedule.policy.maxAttempts := by
      simp only [Loop.repairs, Bool.and_eq_true, Bool.not_eq_true', decide_eq_true_eq] at repairs
      exact ⟨by simpa using repairs.1.2, repairs.2⟩
    have admitted : without.schedule.excluded index = false ∨ reopens := by
      by_cases isExcluded : without.schedule.excluded index = true
      · exact .inr (reopening repairs isExcluded)
      · exact .inl (by simpa using isExcluded)
    exact .tail (.single removed) (.repair without index flying below unrepaired admitted)
  · exact reported .failover
  · exact reported _

theorem step_moves {loop next : Loop n} {act : Act} (tried : Tried loop)
    (admitted : ∀ index, loop.phase = .flying index →
      ∀ i, loop.schedule.nextIndex = some i → loop.schedule.excluded i = false ∨ reopens)
    (second : failsTwice loop act = true → twice) (reopening : repairsExcluded candidates loop act = true → reopens)
    (stepped : loop.step candidates act = some next) :
    ReflTransGen (Move candidates twice reopens) loop next := by
  obtain ⟨schedule, repairedTargets, replayable, phase, now, log⟩ := loop
  cases act with
  | next late cancelled =>
    cases phase with
    | choosing =>
      simp only [Loop.step] at stepped
      rcases next_cases schedule now late cancelled with
        ⟨outcome, last⟩ | outcome | ⟨index, isNext, below, outcome⟩ <;>
        rw [outcome] at stepped <;> obtain rfl := Option.some.inj stepped
      · split_ifs
        · exact .single (.leave _ schedule.stopReason)
        · exact .tail (.single (.giveUp _ last)) (.leave _ schedule.stopReason)
      · exact .single (.leave _ "cancelled")
      · exact .single (.choose _ index late rfl isNext below)
    | preparing _ | flying _ | answering _ _ | done => simp [Loop.step] at stepped
  | reject =>
    cases phase with
    | preparing index =>
      cases stepped
      exact .single (.reject _ index rfl)
    | choosing | flying _ | answering _ _ | done => simp [Loop.step] at stepped
  | observeOutbound later =>
    cases phase with
    | preparing index =>
      cases stepped
      exact .tail (.single (.tick _ later)) (.start _ index rfl)
    | choosing | flying _ | answering _ _ | done => simp [Loop.step] at stepped
  | respond response later jittered =>
    cases phase with
    | flying index =>
      simp only [Loop.step] at stepped
      split_ifs at stepped with served <;> obtain rfl := Option.some.inj stepped
      · exact .tail (.single (.tick _ later)) (.answer _ index rfl)
      · refine (ReflTransGen.single (.tick _ later)).trans
          (handleError_moves ⟨schedule, repairedTargets, replayable, .flying index, now + later, log⟩ index rfl
            (tried index rfl) response jittered ?_)
        exact fun repairs excluded => reopening ((Bool.and_eq_true _ _).mpr ⟨repairs, excluded⟩)
    | choosing | preparing _ | answering _ _ | done => simp [Loop.step] at stepped
  | fail failure later jittered =>
    cases phase with
    | flying index =>
      simp only [Loop.step] at stepped
      split_ifs at stepped
      cases stepped
      exact (ReflTransGen.single (.tick _ later)).trans
        (recover_moves ⟨schedule, repairedTargets, replayable, .flying index, now + later, log⟩ index false (.inl rfl)
          (by simp) (tried index rfl) _ _ _ (.inr rfl))
    | answering index refused =>
      simp only [Loop.step] at stepped
      split_ifs at stepped
      cases stepped
      have once : refused = true → twice := fun isRefused => second isRefused
      exact (ReflTransGen.single (.tick _ later)).trans
        (recover_moves ⟨schedule, repairedTargets, replayable, .answering index refused, now + later, log⟩ index refused
          (.inr rfl) once (tried index rfl) _ _ _ (.inr rfl))
    | choosing | preparing _ | done => simp [Loop.step] at stepped
  | invalidTarget =>
    cases phase with
    | flying index =>
      cases stepped
      exact .single (.drop _ index rfl (admitted index rfl))
    | choosing | preparing _ | answering _ _ | done => simp [Loop.step] at stepped
  | finish ending =>
    simp only [Loop.step] at stepped
    split_ifs at stepped
    cases stepped
    exact .single (.leave _ schedule.stopReason)

end AstrLink.RecoveryRuns
