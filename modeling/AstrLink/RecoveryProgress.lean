import AstrLink.RecoverySafety
import Mathlib.Algebra.BigOperators.Fin
import Mathlib.Algebra.Order.BigOperators.Group.Finset

/-!
How long the execution loop can go on, and when it gives up. A candidate is selected again only after an
attempt (`Spends`), and the schedule gives up only when every one was selected, unless a limit or a rule says
so (`Exhausts`).
-/
namespace AstrLink.RecoveryProgress
open Recovery RecoveryLoop RecoveryRuns RecoverySafety Runs List
open Function (update)

variable {n : Nat} {candidates : Fin n → Candidate} {twice reopens : Prop}

/-- An attempt at the candidate, a repair or not. -/
def startsAt (i : Fin n) : Event n → Bool
  | .started j _ _ => j = i
  | _ => false

/-- Since it was last selected, the candidate was attempted; or it was never selected. -/
def unspent (i : Fin n) (log : List (Event n)) : Bool :=
  log.foldl (fun unspent event => if selects i event then false else unspent || startsAt i event) true

@[simp] theorem unspent_snoc (i : Fin n) (log : List (Event n)) (event : Event n) :
    unspent i (log ++ [event]) = if selects i event then false else unspent i log || startsAt i event := by
  rw [unspent, foldl_append]
  rfl

@[simp] theorem unspent_excluded (i : Fin n) (log : List (Event n)) (out : Fin n → Bool) :
    unspent i (log ++ excludedEvents out) = unspent i log :=
  read_excludedEvents log out (unspent i) (fun log j => by simp [selects, startsAt])

variable {log : List (Event n)}

theorem unspent_of_fresh {i : Fin n} (fresh : wasSelected i log = false) :
    unspent i log = true := by
  induction log using List.reverseRecOn with
  | nil => rfl
  | append_singleton log event ih =>
    simp only [wasSelected_snoc, Bool.or_eq_false_iff] at fresh
    simp [fresh.2, ih fresh.1]

/-- A selection is the first of its candidate, or follows an attempt at it. -/
def Spends (before : List (Event n)) : Event n → Prop
  | .selected i _ => unspent i before = true
  | _ => True

/-- What the schedule keeps ready was attempted since it was last selected. -/
structure Spending (loop : Loop n) : Prop where
  retryable : ∀ i, loop.schedule.retryable i = true → unspent i loop.log = true
  next : ∀ i, loop.schedule.nextIndex = some i → unspent i loop.log = true
  attempted : ∀ i, loop.phase = .flying i ∨ (∃ refused, loop.phase = .answering i refused) → unspent i loop.log = true
  always : Always Spends loop.log

theorem Spending.start (candidates : Fin n → Candidate) (replayable : Bool) :
    Spending (startLoop candidates replayable) where
  retryable := fun _ _ => rfl
  next := fun _ _ => rfl
  attempted := fun _ _ => rfl
  always := always_nil _

theorem unspent_kept {event : Event n} (other : ∀ i, selects i event = false) {i : Fin n}
    (before : unspent i log = true) : unspent i (log ++ [event]) = true := by
  simp [other, before]

variable {loop next : Loop n}

theorem Spending.move {policy : FailoverPolicy} (spending : Spending loop) (logged : Logged candidates policy loop)
    (move : Move candidates twice reopens loop next) : Spending next := by
  obtain ⟨retryable, isNext, attempted, always⟩ := spending
  have unselected : ∀ i, loop.schedule.selected i = false → unspent i loop.log = true := by
    intro i fresh
    rw [logged.selected, Bool.or_eq_false_iff] at fresh
    exact unspent_of_fresh fresh.1
  have reported : ∀ {index : Fin n} {refused : Bool},
      loop.phase = .flying index ∨ loop.phase = .answering index refused → unspent index loop.log = true := by
    intro index refused reporting
    rcases reporting with phase | phase
    · exact attempted index (.inl phase)
    · exact attempted index (.inr ⟨refused, phase⟩)
  cases move with
  | tick later => exact ⟨retryable, isNext, attempted, always⟩
  | choose index late choosing chosen below =>
    have againKept : ∀ i, (loop.schedule.select index).retryable i = true →
        unspent i (loop.log ++ [.selected index (max loop.now (loop.schedule.readyAt index) + late)]) = true := by
      intro i again
      by_cases same : i = index
      · simp [same] at again
      · simp only [select_retryable, Function.update_of_ne same] at again
        simp [selects, startsAt, Ne.symm same, retryable i again]
    refine ⟨againKept, fun i follows => ?_, fun i phase => by simp at phase,
      always_snoc.mpr ⟨always, isNext index chosen⟩⟩
    rcases (select_nextIndex follows).2 with ⟨fresh, -⟩ | again
    · by_cases same : i = index
      · simp [same] at fresh
      · simp only [select_selected, Function.update_of_ne same] at fresh
        simp [selects, startsAt, Ne.symm same, unselected i fresh]
    · exact againKept i again
  | giveUp last =>
    exact ⟨fun i again => unspent_kept (fun _ => rfl) (retryable i again),
      fun i follows => unspent_kept (fun _ => rfl) (isNext i follows),
      fun i phase => unspent_kept (fun _ => rfl) (attempted i phase), always_snoc.mpr ⟨always, trivial⟩⟩
  | reject index preparing => exact ⟨retryable, isNext, fun i phase => by simp at phase, always⟩
  | start index preparing =>
    refine ⟨fun i again => unspent_kept (fun _ => rfl) (retryable i ?_),
      fun i follows => unspent_kept (fun _ => rfl) (isNext i follows), fun i phase => ?_,
      always_snoc.mpr ⟨always, trivial⟩⟩
    · simp only [Schedule.started] at again
      split_ifs at again
      exact again
    · obtain rfl : index = i := by simpa using phase
      simp [selects, startsAt]
  | answer index flying =>
    refine ⟨retryable, isNext, fun i phase => ?_, always⟩
    obtain rfl : index = i := by simpa using phase
    exact attempted index (.inl flying)
  | exclude index flying out =>
    refine ⟨fun i again => ?_, fun i follows => ?_, fun i phase => ?_, always_excluded _ _ always (fun _ _ => trivial)⟩
    · simp only [Schedule.exclude, Bool.and_eq_true] at again
      simpa using retryable i again.1
    · simpa using isNext i follows
    · simpa using attempted i phase
  | repair index flying below unrepaired admitted =>
    rw [repair_below below]
    refine ⟨fun i again => unspent_kept (fun _ => rfl) (retryable i again), fun i follows => ?_,
      fun i phase => by simp at phase, always_snoc.mpr ⟨always, trivial⟩⟩
    cases follows
    exact unspent_kept (fun _ => rfl) (attempted index (.inl flying))
  | recover index refused reporting once action wait after recovered =>
    have againKept : ∀ i, after.retryable i = true → unspent i (loop.log ++ [.failed index action loop.now wait]) = true := by
      intro i again
      refine unspent_kept (fun _ => rfl) ?_
      by_cases same : i = index
      · rw [same]
        exact reported reporting
      · exact retryable i (recovered.others i same ▸ again)
    refine ⟨againKept, fun i follows => ?_, fun i phase => by simp at phase, always_snoc.mpr ⟨always, trivial⟩⟩
    obtain ⟨-, next, chosen, following, -⟩ := recovered.accepted rfl
    obtain rfl := Option.some.inj (chosen.symm.trans follows)
    rcases following with ⟨fresh, -⟩ | again
    · rw [recovered.selected] at fresh
      exact unspent_kept (fun _ => rfl) (unselected next fresh)
    · exact againKept next again
  | refuse index refused reporting once action wait after recovered phase ended =>
    have kept : unspent index (loop.log ++ [.failed index action loop.now wait]) = true :=
      unspent_kept (fun _ => rfl) (reported reporting)
    refine ⟨fun i again => ?_, fun i follows => by simp [(recovered.refused rfl).1] at follows, fun i isPhase => ?_,
      always_snoc.mpr ⟨always, trivial⟩⟩
    · by_cases same : i = index
      · rw [same]
        exact kept
      · exact unspent_kept (fun _ => rfl) (retryable i (recovered.others i same ▸ again))
    · rcases ended with rfl | rfl
      · obtain rfl : index = i := by simpa using isPhase
        exact kept
      · simp at isPhase
  | drop index flying admitted => exact ⟨retryable, isNext, fun i phase => by simp at phase, always⟩
  | leave reason => exact ⟨retryable, isNext, fun i phase => by simp at phase, always⟩

def selectionsOf (i : Fin n) (log : List (Event n)) : Nat := log.countP (selects i)

def attemptsAt (i : Fin n) (log : List (Event n)) : Nat := log.countP (startsAt i)

theorem selectionsOf_le (always : Always Spends log) (i : Fin n) :
    selectionsOf i log ≤ attemptsAt i log + (!unspent i log).toNat := by
  induction log using List.reverseRecOn with
  | nil => exact Nat.zero_le _
  | append_singleton log event ih =>
    obtain ⟨always, spends⟩ := always_snoc.mp always
    have before := ih always
    rw [selectionsOf, attemptsAt, countP_append, countP_append, ← selectionsOf, ← attemptsAt, unspent_snoc]
    by_cases selected : selects i event = true
    · obtain ⟨j, time, rfl⟩ : ∃ j time, event = .selected j time := by
        cases event <;> simp_all [selects]
      obtain rfl : j = i := by simpa [selects] using selected
      rw [Spends] at spends
      simp only [spends, Bool.not_true, Bool.toNat_false] at before
      simp [selects, startsAt]
      omega
    · cases started : startsAt i event with
      | true =>
        have one := Bool.toNat_le (!unspent i log)
        simp [selected, started]
        omega
      | false => simpa [selected, started] using before

theorem countP_sum {about : Event n → Bool} {aboutOne : Fin n → Event n → Bool}
    (split : ∀ event, (if about event then 1 else 0) = ∑ i, if aboutOne i event then 1 else 0)
    (log : List (Event n)) : log.countP about = ∑ i, log.countP (aboutOne i) := by
  induction log with
  | nil => simp
  | cons event rest ih => simp only [countP_cons, Finset.sum_add_distrib, ih, split]

theorem selections_eq_sum (log : List (Event n)) : selections log = ∑ i, selectionsOf i log := by
  refine countP_sum (fun event => ?_) log
  cases event <;> simp [isSelection, selects]

theorem attempts_eq_sum (log : List (Event n)) : attempts log = ∑ i, attemptsAt i log := by
  refine countP_sum (fun event => ?_) log
  cases event <;> simp [isStart, startsAt]

theorem selections_le (always : Always Spends log) : selections log ≤ n + attempts log := by
  have each : ∀ i : Fin n, selectionsOf i log ≤ attemptsAt i log + 1 := fun i =>
    (selectionsOf_le always i).trans (Nat.add_le_add_left (Bool.toNat_le _) _)
  calc selections log = ∑ i, selectionsOf i log := selections_eq_sum log
    _ ≤ ∑ i, (attemptsAt i log + 1) := Finset.sum_le_sum (fun i _ => each i)
    _ = n + attempts log := by simp [Finset.sum_add_distrib, ← attempts_eq_sum, Nat.add_comm]

/-- The schedule gives up only when every candidate was selected or excluded, unless a limit or a rule says so. -/
def Exhausts (policy : FailoverPolicy) (before : List (Event n)) : Event n → Prop
  | .gaveUp => policy.enabled = true → attempts before < policy.maxAttempts →
      (∀ action ∈ failureActions before, action.allowsFailover = true) →
      ∀ i, wasSelected i before = true ∨ wasExcluded i before = true
  | _ => True

structure Progress (policy : FailoverPolicy) (loop : Loop n) : Prop where
  next : policy.enabled = true → loop.schedule.total < policy.maxAttempts →
    (∀ action ∈ failureActions loop.log, action.allowsFailover = true) → loop.schedule.maySwitch = true ∧
      (loop.schedule.nextIndex = none → ∀ i, loop.schedule.selected i = true)
  always : Always (Exhausts policy) loop.log

theorem Progress.start (candidates : Fin n → Candidate) (replayable : Bool) :
    Progress (requestPolicy candidates replayable) (startLoop candidates replayable) where
  next := fun enabled _ _ => by
    refine ⟨enabled, fun isNone i => ?_⟩
    have any : 0 < n := i.pos
    simp [startLoop, newRecoverySchedule, any] at isNone
  always := always_nil _

theorem Progress.move {policy : FailoverPolicy} (progress : Progress policy loop)
    (logged : Logged candidates policy loop) (move : Move candidates twice reopens loop next) :
    Progress policy next := by
  obtain ⟨ahead, always⟩ := progress
  cases move with
  | tick later => exact ⟨ahead, always⟩
  | choose index late choosing chosen below =>
    refine ⟨fun enabled limit allowed => ?_, always_snoc.mpr ⟨always, trivial⟩⟩
    rw [failureActions_snoc, append_nil] at allowed
    obtain ⟨may, -⟩ := ahead enabled limit allowed
    exact ⟨may, select_exhausted may⟩
  | giveUp last =>
    refine ⟨fun enabled limit allowed => ?_, always_snoc.mpr ⟨always, fun enabled limit allowed i => ?_⟩⟩
    · rw [failureActions_snoc, append_nil] at allowed
      exact ahead enabled limit allowed
    · rw [← logged.total] at limit
      have isNone : loop.schedule.nextIndex = none := last.resolve_right (by rw [logged.policy]; omega)
      have selected := (ahead enabled limit allowed).2 isNone i
      rw [logged.selected] at selected
      simpa using selected
  | reject index preparing => exact ⟨ahead, always⟩
  | start index preparing =>
    refine ⟨fun enabled limit allowed => ?_, always_snoc.mpr ⟨always, trivial⟩⟩
    rw [failureActions_snoc, append_nil] at allowed
    exact ahead enabled (Nat.lt_of_succ_lt limit) allowed
  | answer index flying => exact ⟨ahead, always⟩
  | exclude index flying out =>
    refine ⟨fun enabled limit allowed => ?_, always_excluded _ _ always (fun _ _ => trivial)⟩
    rw [failureActions_excluded] at allowed
    obtain ⟨may, exhausted⟩ := ahead enabled limit allowed
    exact ⟨may, fun isNone i => by simp [Schedule.exclude, exhausted isNone i]⟩
  | repair index flying below unrepaired admitted =>
    rw [repair_below below]
    refine ⟨fun enabled limit allowed => ?_, always_snoc.mpr ⟨always, trivial⟩⟩
    rw [failureActions_snoc, append_nil] at allowed
    exact ⟨(ahead enabled limit allowed).1, fun isNone => by simp at isNone⟩
  | recover index refused reporting once action wait after recovered =>
    refine ⟨fun enabled _ allowed => ?_, always_snoc.mpr ⟨always, trivial⟩⟩
    obtain ⟨below, other, chosen, -, -⟩ := recovered.accepted rfl
    have allows : action.allowsFailover = true := allowed action (by simp [failureActions_snoc])
    refine ⟨?_, fun isNone => by simp [chosen] at isNone⟩
    rw [recovered.maySwitch below, allows, logged.policy, enabled, Bool.true_and]
  | refuse index refused reporting once action wait after recovered phase ended =>
    refine ⟨fun enabled limit allowed => ?_, always_snoc.mpr ⟨always, trivial⟩⟩
    have below : loop.schedule.total < loop.schedule.policy.maxAttempts := by
      rw [recovered.total] at limit
      rwa [logged.policy]
    have allows : action.allowsFailover = true := allowed action (by simp [failureActions_snoc])
    have may : after.maySwitch = true := by
      rw [recovered.maySwitch below, allows, logged.policy, enabled, Bool.true_and]
    exact ⟨may, fun _ => (recovered.refused rfl).2 below may⟩
  | drop index flying admitted => exact ⟨ahead, always⟩
  | leave reason => exact ⟨ahead, always⟩

/-- How far the loop is with its candidate. -/
def phaseRank : Phase n → Nat
  | .preparing _ => 0
  | .flying _ => 1
  | .answering _ _ => 2
  | .choosing => 3
  | .done => 4

/-- Every step takes the loop further with its candidate, or selects one. -/
def rank (loop : Loop n) : Nat := 4 * selections loop.log + phaseRank loop.phase

theorem recover_selections (loop : Loop n) (index : Fin n) (action : FailureAction) (retryAfter jittered : Nat)
    (refused : Phase n) :
    selections (loop.recover candidates index action retryAfter jittered refused).log = selections loop.log := by
  rw [Loop.recover]
  generalize loop.schedule.recover candidates index action retryAfter loop.now jittered = outcome
  obtain ⟨after, again⟩ := outcome
  cases again <;> simp [selections, isSelection]

theorem recover_rank (loop : Loop n) (index : Fin n) (action : FailureAction) (retryAfter jittered : Nat)
    {refused : Phase n} {least : Nat} (further : least ≤ phaseRank refused) (choosing : least ≤ 3) :
    4 * selections loop.log + least ≤ rank (loop.recover candidates index action retryAfter jittered refused) := by
  rw [rank, recover_selections]
  rcases recover_phase loop index action retryAfter jittered refused with phase | phase <;> rw [phase]
  · exact Nat.add_le_add_left choosing _
  · exact Nat.add_le_add_left further _

theorem handleError_rank (loop : Loop n) (index : Fin n) (response : Response) (jittered : Nat) :
    4 * selections loop.log + 2 ≤ rank (loop.handleError candidates index response jittered) := by
  have reported : ∀ (other : Loop n) action, selections other.log = selections loop.log →
      4 * selections loop.log + 2 ≤
        rank (other.recover candidates index action response.retryAfter jittered (.answering index true)) := by
    intro other action same
    rw [← same]
    exact recover_rank other index action _ _ (Nat.le_refl 2) (by decide)
  rw [Loop.handleError]
  dsimp only
  split_ifs
  · dsimp only [rank, phaseRank]
    rw [selections_snoc, selections_excluded]
    simp [isSelection]
  · exact reported _ _ (by simp)
  · exact reported _ _ (by simp)

theorem step_rank {act : Act} (stepped : loop.step candidates act = some next) :
    rank loop < rank next := by
  obtain ⟨schedule, repairedTargets, replayable, phase, now, log⟩ := loop
  cases act with
  | next late cancelled =>
    cases phase with
    | choosing =>
      simp only [Loop.step] at stepped
      rcases next_cases schedule now late cancelled with ⟨outcome, -⟩ | outcome | ⟨index, -, -, outcome⟩ <;>
        rw [outcome] at stepped <;> obtain rfl := Option.some.inj stepped
      · split_ifs <;> simp [rank, phaseRank, isSelection]
      · simp [rank, phaseRank]
      · simp [rank, phaseRank, isSelection]
        omega
    | preparing _ | flying _ | answering _ _ | done => simp [Loop.step] at stepped
  | reject =>
    cases phase with
    | preparing index =>
      cases stepped
      simp [rank, phaseRank]
    | choosing | flying _ | answering _ _ | done => simp [Loop.step] at stepped
  | observeOutbound later =>
    cases phase with
    | preparing index =>
      cases stepped
      simp [rank, phaseRank, isSelection]
    | choosing | flying _ | answering _ _ | done => simp [Loop.step] at stepped
  | respond response later jittered =>
    cases phase with
    | flying index =>
      simp only [Loop.step] at stepped
      split_ifs at stepped <;> obtain rfl := Option.some.inj stepped
      · simp [rank, phaseRank]
      · exact Nat.lt_of_lt_of_le (by simp [rank, phaseRank]) (handleError_rank
          ⟨schedule, repairedTargets, replayable, .flying index, now + later, log⟩ index response jittered)
    | choosing | preparing _ | answering _ _ | done => simp [Loop.step] at stepped
  | fail failure later jittered =>
    have further : ∀ (other : Loop n) index, 4 * selections other.log + 3 ≤ rank (other.fail candidates index failure jittered) :=
      fun other index => recover_rank other index _ _ _ (Nat.le_succ 3) (Nat.le_refl 3)
    cases phase with
    | flying index =>
      simp only [Loop.step] at stepped
      split_ifs at stepped
      cases stepped
      exact Nat.lt_of_lt_of_le (by simp [rank, phaseRank]) (further _ index)
    | answering index refused =>
      simp only [Loop.step] at stepped
      split_ifs at stepped
      cases stepped
      exact Nat.lt_of_lt_of_le (by simp [rank, phaseRank]) (further _ index)
    | choosing | preparing _ | done => simp [Loop.step] at stepped
  | invalidTarget =>
    cases phase with
    | flying index =>
      cases stepped
      simp [rank, phaseRank]
    | choosing | preparing _ | answering _ _ | done => simp [Loop.step] at stepped
  | finish ending =>
    simp only [Loop.step] at stepped
    split_ifs at stepped with ends
    cases stepped
    cases phase with
    | preparing _ | flying _ | answering _ _ => simp [rank, phaseRank]
    | choosing | done => cases ending <;> simp [Ending.ends] at ends

def Returns (loop : Loop n) (act : Act) : Prop :=
  (∃ ending, act = .finish ending) ∨ loop.schedule.stopReason = "cancelled" ∨ .gaveUp ∈ loop.log

theorem step_returns {act : Act} (stepped : loop.step candidates act = some next) (returned : next.phase = .done) :
    Returns next act := by
  have gaveUp : ∀ (other : Loop n) index action retryAfter jittered refused,
      (other.recover candidates index action retryAfter jittered refused).phase = .done →
        .gaveUp ∈ (other.recover candidates index action retryAfter jittered refused).log := by
    intro other index action retryAfter jittered refused phase
    rw [Loop.recover] at phase ⊢
    revert phase
    generalize other.schedule.recover candidates index action retryAfter other.now jittered = outcome
    obtain ⟨after, again⟩ := outcome
    cases again <;> simp
  obtain ⟨schedule, repairedTargets, replayable, phase, now, log⟩ := loop
  cases act with
  | next late cancelled =>
    cases phase with
    | choosing =>
      simp only [Loop.step] at stepped
      rcases next_cases schedule now late cancelled with ⟨outcome, -⟩ | outcome | ⟨index, -, -, outcome⟩ <;>
        rw [outcome] at stepped <;> obtain rfl := Option.some.inj stepped
      · by_cases reason : schedule.stopReason = "cancelled"
        · exact .inr (.inl reason)
        · exact .inr (.inr (by simp [reason]))
      · exact .inr (.inl rfl)
      · simp at returned
    | preparing _ | flying _ | answering _ _ | done => simp [Loop.step] at stepped
  | reject => cases phase <;> simp [Loop.step] at stepped; simp [← stepped] at returned
  | observeOutbound later => cases phase <;> simp [Loop.step] at stepped; simp [← stepped] at returned
  | respond response later jittered =>
    cases phase with
    | flying index =>
      simp only [Loop.step] at stepped
      split_ifs at stepped <;> obtain rfl := Option.some.inj stepped
      · simp at returned
      · refine .inr (.inr ?_)
        rw [Loop.handleError] at returned ⊢
        dsimp only at returned ⊢
        split_ifs at returned ⊢
        · exact gaveUp _ _ _ _ _ _ returned
        · exact gaveUp _ _ _ _ _ _ returned
    | choosing | preparing _ | answering _ _ | done => simp [Loop.step] at stepped
  | fail failure later jittered =>
    cases phase with
    | flying index | answering index refused =>
      simp only [Loop.step] at stepped
      split_ifs at stepped
      cases stepped
      exact .inr (.inr (gaveUp _ _ _ _ _ _ returned))
    | choosing | preparing _ | done => simp [Loop.step] at stepped
  | invalidTarget => cases phase <;> simp [Loop.step] at stepped; simp [← stepped] at returned
  | finish ending => exact .inl ⟨ending, rfl⟩

/-- The loop ends: it takes no more steps, and selects no more candidates, than the candidates and the attempts that the
    limit allows; a candidate is selected again only after an attempt at it; and the schedule gives up early only for a
    limit or a rule. -/
theorem recovery_ends (candidates : Fin n → Candidate) (replayable : Bool) (acts : List Act) (loop : Loop n)
    (ran : runActs (Loop.step candidates) (startLoop candidates replayable) acts = some loop) :
    acts.length ≤ 4 * (n + (requestPolicy candidates replayable).maxAttempts) + 1 ∧
    selections loop.log ≤ n + (requestPolicy candidates replayable).maxAttempts ∧
    Always Spends loop.log ∧ Always (Exhausts (requestPolicy candidates replayable)) loop.log ∧
    ∀ act next, loop.step candidates act = some next → next.phase = .done → Returns next act := by
  have reached : LoopReaches candidates replayable (fun _ _ => True) loop :=
    Reaches.start.runActs (fun _ _ => trivial) ran
  obtain ⟨-, spending⟩ := run_keeps (Spending.start candidates replayable)
    (fun loop next logged spending move => spending.move logged move) reached
  obtain ⟨-, progress⟩ := run_keeps (Progress.start candidates replayable)
    (fun loop next logged progress move => progress.move logged move) reached
  have limit := (bounded_run candidates replayable reached).attempts
  have bounded : selections loop.log ≤ n + (requestPolicy candidates replayable).maxAttempts :=
    (selections_le spending.always).trans (Nat.add_le_add_left limit n)
  have steps := runActs_length rank (fun _ _ _ => step_rank) ran
  have last : phaseRank loop.phase ≤ 4 := by cases loop.phase <;> simp [phaseRank]
  refine ⟨?_, bounded, spending.always, progress.always, fun act next => step_returns⟩
  have first : rank (startLoop candidates replayable) = 3 := rfl
  rw [first, rank] at steps
  omega

/-- The run in which both candidates fail, the first twice, takes ten steps and three selections. -/
theorem failover_ends : ∃ loop, runActs (Loop.step (pair "openai")) (startLoop (pair "openai") true) failover = some loop ∧
    10 ≤ 4 * (2 + (requestPolicy (pair "openai") true).maxAttempts) + 1 ∧ Always Spends loop.log := by
  have possible : (runActs (Loop.step (pair "openai")) (startLoop (pair "openai") true) failover).isSome = true := by
    decide +kernel
  obtain ⟨loop, ran⟩ := Option.isSome_iff_exists.mp possible
  obtain ⟨steps, -, spends, -⟩ := recovery_ends (pair "openai") true failover loop ran
  exact ⟨loop, ran, steps, spends⟩

/-- A request that cannot be sent again ends at the first candidate, although no limit and no rule says so. -/
theorem ends_unselected : ∃ loop,
    runActs (Loop.step (pair "openai")) (startLoop (pair "openai") true)
      [.next 0 false, .observeOutbound 1, .finish .bodyNotReplayable] = some loop ∧ loop.phase = .done ∧
    (requestPolicy (pair "openai") true).enabled = true ∧
    attempts loop.log < (requestPolicy (pair "openai") true).maxAttempts ∧
    (∀ action ∈ failureActions loop.log, action.allowsFailover = true) ∧
    ¬ ∀ i, wasSelected i loop.log = true ∨ wasExcluded i loop.log = true := by
  have ended : (runActs (Loop.step (pair "openai")) (startLoop (pair "openai") true)
      [.next 0 false, .observeOutbound 1, .finish .bodyNotReplayable]).map (fun loop => (loop.phase, loop.log)) =
        some (.done, [.selected 0 0, .started 0 1 false]) := by
    decide +kernel
  obtain ⟨loop, ran, left⟩ := Option.map_eq_some_iff.mp ended
  obtain ⟨phase, isLog⟩ := Prod.mk.inj left
  refine ⟨loop, ran, phase, rfl, ?_, ?_, fun all => ?_⟩
  · rw [isLog]
    decide
  · rw [isLog]
    intro action listed
    simp [failureActions] at listed
  · have second := all 1
    rw [isLog] at second
    exact absurd second (by decide)

end AstrLink.RecoveryProgress
