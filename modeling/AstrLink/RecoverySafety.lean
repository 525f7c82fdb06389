import AstrLink.RecoveryRuns

/-!
What the recovery schedule keeps to over every run of the execution loop: the
attempt limit, the quota of each candidate, one repair for each target, the
waiting times, the order of the candidates, the exclusions, and what the failure
rules allow.
-/
namespace AstrLink.RecoverySafety
open Recovery RecoveryLoop RecoveryRuns Runs List
open Function (update)
open Option (some.inj)

variable {n : Nat} {candidates : Fin n → Candidate} {twice reopens : Prop}

/-- What the schedule keeps about the past is what the log says. -/
structure Logged (candidates : Fin n → Candidate) (policy : FailoverPolicy) (loop : Loop n) : Prop where
  policy : loop.schedule.policy = policy
  selected : ∀ i, loop.schedule.selected i = (wasSelected i loop.log || wasExcluded i loop.log)
  excluded : ∀ i, loop.schedule.excluded i = wasExcluded i loop.log
  total : loop.schedule.total = attempts loop.log
  counts : ∀ i, loop.schedule.counts i = ordinaryAttempts i loop.log
  repaired : ∀ target, repairsOf candidates target loop.log = if target ∈ loop.repairedTargets then 1 else 0
  tried : ∀ i, current loop.phase = some i → wasSelected i loop.log = true

theorem Logged.start (candidates : Fin n → Candidate) (replayable : Bool) :
    Logged candidates (requestPolicy candidates replayable) (startLoop candidates replayable) where
  policy := rfl
  selected := fun _ => rfl
  excluded := fun _ => rfl
  total := rfl
  counts := fun _ => rfl
  repaired := fun _ => rfl
  tried := fun i phase => by simp [startLoop, current] at phase

variable {policy : FailoverPolicy} {loop next : Loop n}

theorem Logged.move (logged : Logged candidates policy loop) (move : Move candidates twice reopens loop next) :
    Logged candidates policy next := by
  obtain ⟨isPolicy, selected, excluded, total, counts, repaired, tried⟩ := logged
  cases move with
  | tick later => exact ⟨isPolicy, selected, excluded, total, counts, repaired, tried⟩
  | choose index late choosing isNext below =>
    refine ⟨isPolicy, fun i => ?_, fun i => ?_, ?_, fun i => ?_, fun target => ?_, fun i phase => ?_⟩
    · by_cases same : i = index
      · subst same
        simp [selects]
      · simp [selected, same, selects, excludes, Ne.symm same]
    · simpa [Schedule.select, excludes] using excluded i
    · simpa [Schedule.select, isStart] using total
    · simpa [Schedule.select, startsOrdinary] using counts i
    · simpa [repairs] using repaired target
    · cases phase
      simp [selects]
  | giveUp last =>
    exact ⟨isPolicy, fun i => by simp [selected, selects, excludes], fun i => by simp [excluded, excludes],
      by simp [total, isStart], fun i => by simp [counts, startsOrdinary],
      fun target => by simp [repaired, repairs], fun i phase => by simp [selects, tried i phase]⟩
  | reject index preparing =>
    exact ⟨isPolicy, selected, excluded, total, counts, repaired, fun i phase => by simp [current] at phase⟩
  | start index preparing =>
    refine ⟨isPolicy, fun i => ?_, fun i => ?_, ?_, fun i => ?_, fun target => ?_, fun i phase => ?_⟩
    · simpa [Schedule.started, selects, excludes] using selected i
    · simpa [Schedule.started, excludes] using excluded i
    · simpa [Schedule.started, isStart] using total
    · cases repairing : loop.schedule.repairing with
      | true => simpa [Schedule.started, startsOrdinary, repairing] using counts i
      | false =>
        by_cases same : i = index
        · subst same
          simp [Schedule.started, startsOrdinary, repairing, counts]
        · simp [Schedule.started, startsOrdinary, repairing, counts, same, Ne.symm same]
    · simpa [repairs] using repaired target
    · cases phase
      simp [selects, tried index (by rw [preparing]; rfl)]
  | answer index flying =>
    refine ⟨isPolicy, selected, excluded, total, counts, repaired, fun i phase => ?_⟩
    cases phase
    exact tried index (by rw [flying]; rfl)
  | exclude index flying out =>
    refine ⟨isPolicy, fun i => ?_, fun i => ?_, ?_, fun i => ?_, fun target => ?_, fun i phase => ?_⟩
    · simp [Schedule.exclude, selected, Bool.or_assoc]
    · simp [Schedule.exclude, excluded]
    · simpa [Schedule.exclude] using total
    · simpa [Schedule.exclude] using counts i
    · simpa using repaired target
    · simpa using tried i phase
  | repair index flying below unrepaired admitted =>
    have isRepaired := @repair_below n loop.schedule index below
    refine ⟨by simpa [isRepaired] using isPolicy, fun i => by simp [isRepaired, selected, selects, excludes],
      fun i => by simp [isRepaired, excluded, excludes], by simp [isRepaired, total, isStart],
      fun i => by simp [isRepaired, counts, startsOrdinary], fun target => ?_, fun i phase => by simp [current] at phase⟩
    by_cases same : recoveryTargetKey (candidates index) = target
    · subst same
      simp [repaired, repairs, unrepaired]
    · simp [repaired, repairs, same, Ne.symm same]
  | recover index refused reporting once action wait after recovered =>
    exact ⟨recovered.policy.trans isPolicy, fun i => by simp [recovered.selected, selected, selects, excludes],
      fun i => by simp [recovered.excluded, excluded, excludes], by simp [recovered.total, total, isStart],
      fun i => by simp [recovered.counts, counts, startsOrdinary], fun target => by simp [repaired, repairs],
      fun i phase => by simp [current] at phase⟩
  | refuse index refused reporting once action wait after recovered phase ended =>
    refine ⟨recovered.policy.trans isPolicy, fun i => by simp [recovered.selected, selected, selects, excludes],
      fun i => by simp [recovered.excluded, excluded, excludes], by simp [recovered.total, total, isStart],
      fun i => by simp [recovered.counts, counts, startsOrdinary], fun target => by simp [repaired, repairs],
      fun i isCurrent => ?_⟩
    have isTried : wasSelected index loop.log = true := by
      apply tried
      rcases reporting with phase | phase <;> rw [phase] <;> rfl
    rcases ended with rfl | rfl
    · cases isCurrent
      simp [selects, isTried]
    · simp [current] at isCurrent
  | drop index flying admitted =>
    exact ⟨isPolicy, selected, excluded, total, counts, repaired, fun i phase => by simp [current] at phase⟩
  | leave reason =>
    exact ⟨isPolicy, selected, excluded, total, counts, repaired, fun i phase => by simp [current] at phase⟩

/-- The attempts so far and the ones the schedule still allows stay within the limits. -/
structure Budget (candidates : Fin n → Candidate) (loop : Loop n) : Prop where
  limit : loop.schedule.total ≤ loop.schedule.policy.maxAttempts
  quota : ∀ i, loop.schedule.counts i ≤ (failurePolicy (candidates i)).maxRetries + 1
  retryable : ∀ i, loop.schedule.retryable i = true →
    loop.schedule.counts i ≤ (failurePolicy (candidates i)).maxRetries ∧ loop.schedule.selected i = true
  unselected : ∀ i, loop.schedule.selected i = false → loop.schedule.counts i = 0
  pending : ∀ i, loop.schedule.nextIndex = some i →
    loop.schedule.nextRepair = true ∨ loop.schedule.counts i ≤ (failurePolicy (candidates i)).maxRetries
  ready : ∀ i, loop.phase = .preparing i → loop.schedule.total < loop.schedule.policy.maxAttempts ∧
    (loop.schedule.repairing = true ∨ loop.schedule.counts i ≤ (failurePolicy (candidates i)).maxRetries)
  tried : ∀ i, current loop.phase = some i → loop.schedule.selected i = true
  ahead : ∀ i, loop.phase = .preparing i ∨ loop.phase = .flying i →
    loop.schedule.retryable i = false ∧ loop.schedule.nextIndex ≠ some i

theorem Budget.start (candidates : Fin n → Candidate) (replayable : Bool) :
    Budget candidates (startLoop candidates replayable) where
  limit := Nat.zero_le _
  quota := fun _ => Nat.zero_le _
  retryable := fun _ again => absurd again (by simp [startLoop, newRecoverySchedule])
  unselected := fun _ _ => rfl
  pending := fun _ _ => .inr (Nat.zero_le _)
  ready := fun _ phase => by simp [startLoop] at phase
  tried := fun _ phase => by simp [startLoop, current] at phase
  ahead := fun _ phase => by simp [startLoop] at phase

variable {index : Fin n}

theorem current_reporting {refused : Bool}
    (reporting : loop.phase = .flying index ∨ loop.phase = .answering index refused) :
    current loop.phase = some index := by
  rcases reporting with phase | phase <;> rw [phase] <;> rfl

theorem Budget.recovered (budget : Budget candidates loop) {index : Fin n}
    (isCurrent : current loop.phase = some index) {action : FailureAction} {wait : Nat} {after : Schedule n}
    {again : Bool} (recovered : Recovered candidates loop.schedule index action loop.now wait after again) :
    (∀ i, after.retryable i = true →
      after.counts i ≤ (failurePolicy (candidates i)).maxRetries ∧ after.selected i = true) ∧
    (∀ i, after.Follows i → after.counts i ≤ (failurePolicy (candidates i)).maxRetries) := by
  have retryable : ∀ i, after.retryable i = true →
      after.counts i ≤ (failurePolicy (candidates i)).maxRetries ∧ after.selected i = true := by
    intro i again
    rw [recovered.counts, recovered.selected]
    by_cases same : i = index
    · subst same
      exact ⟨(recovered.retryable again).2.2, budget.tried i isCurrent⟩
    · exact budget.retryable i (recovered.others i same ▸ again)
  refine ⟨retryable, fun i chosen => ?_⟩
  rcases chosen with ⟨fresh, -⟩ | again
  · rw [recovered.selected] at fresh
    rw [recovered.counts, budget.unselected i fresh]
    exact Nat.zero_le _
  · exact (retryable i again).1

theorem Budget.move (budget : Budget candidates loop) (move : Move candidates twice reopens loop next) :
    Budget candidates next := by
  have whole := budget
  obtain ⟨limit, quota, retryable, unselected, pending, ready, tried, ahead⟩ := budget
  -- Whatever follows has attempts left: it was never selected, or it may be tried again.
  have follows : ∀ (schedule : Schedule n) (next : Fin n), schedule.counts = loop.schedule.counts →
      (schedule.selected next = false → loop.schedule.selected next = false) →
      (schedule.retryable next = true → loop.schedule.counts next ≤ (failurePolicy (candidates next)).maxRetries) →
      schedule.Follows next → schedule.counts next ≤ (failurePolicy (candidates next)).maxRetries := by
    intro schedule next counts fresh again chosen
    rw [counts]
    rcases chosen with ⟨isFresh, -⟩ | isAgain
    · rw [unselected next (fresh isFresh)]
      exact Nat.zero_le _
    · exact again isAgain
  cases move with
  | tick later => exact ⟨limit, quota, retryable, unselected, pending, ready, tried, ahead⟩
  | choose index late choosing isNext below =>
    have freshBefore : ∀ i, (loop.schedule.select index).selected i = false → loop.schedule.selected i = false := by
      intro i fresh
      by_cases same : i = index
      · simp [same] at fresh
      · simpa [same] using fresh
    have againBefore : ∀ i, (loop.schedule.select index).retryable i = true → i ≠ index ∧ loop.schedule.retryable i = true := by
      intro i again
      by_cases same : i = index
      · simp [same] at again
      · exact ⟨same, by simpa [same] using again⟩
    refine ⟨limit, quota, fun i again => ?_, fun i fresh => unselected i (freshBefore i fresh), fun i chosen => .inr ?_,
      fun i phase => ?_, fun i phase => ?_, fun i phase => ?_⟩
    · obtain ⟨other, again⟩ := againBefore i again
      exact ⟨(retryable i again).1, by simpa [other] using (retryable i again).2⟩
    · exact follows (loop.schedule.select index) i rfl (freshBefore i) (fun again => (retryable i (againBefore i again).2).1)
        (select_nextIndex chosen).2
    · obtain rfl := Phase.preparing.inj phase
      exact ⟨below, pending _ isNext⟩
    · cases phase
      simp
    · have same : i = index := by
        rcases phase with phase | phase
        · exact (Phase.preparing.inj phase).symm
        · cases phase
      subst same
      refine ⟨by simp, fun chosen => ?_⟩
      rcases (select_nextIndex chosen).2 with ⟨fresh, -⟩ | again
      · simp at fresh
      · simp at again
  | giveUp last => exact ⟨limit, quota, retryable, unselected, pending, ready, tried, ahead⟩
  | reject index preparing =>
    exact ⟨limit, quota, retryable, unselected, pending, fun i phase => by simp at phase,
      fun i phase => by simp [current] at phase, fun i phase => by simp at phase⟩
  | start index preparing =>
    obtain ⟨below, allowed⟩ := ready index preparing
    have isTried : loop.schedule.selected index = true := tried index (by rw [preparing]; rfl)
    obtain ⟨notAgain, notNext⟩ := ahead index (.inl preparing)
    have othersKept : ∀ i, i ≠ index → (loop.schedule.started index).counts i = loop.schedule.counts i := by
      intro i other
      cases repairing : loop.schedule.repairing <;> simp [Schedule.started, repairing, other]
    have againBefore : ∀ i, (loop.schedule.started index).retryable i = true → loop.schedule.retryable i = true := by
      intro i again
      simp only [Schedule.started] at again
      split_ifs at again
      exact again
    refine ⟨Nat.succ_le_of_lt below, fun i => ?_, fun i again => ?_, fun i fresh => ?_, fun i chosen => ?_,
      fun i phase => by simp at phase, fun i phase => ?_, fun i phase => ?_⟩
    · by_cases same : i = index
      · subst same
        cases repairing : loop.schedule.repairing with
        | true => simpa [Schedule.started, repairing] using quota i
        | false =>
          rw [repairing] at allowed
          simpa [Schedule.started, repairing] using allowed
      · rw [othersKept i same]
        exact quota i
    · have before := againBefore i again
      have other : i ≠ index := fun same => by simp [same, notAgain] at before
      rw [othersKept i other]
      exact retryable i before
    · have other : i ≠ index := fun same => by simp [Schedule.started, same, isTried] at fresh
      rw [othersKept i other]
      exact unselected i fresh
    · have other : i ≠ index := fun same => notNext (same ▸ chosen)
      rw [othersKept i other]
      exact pending i chosen
    · cases phase
      exact isTried
    · have same : i = index := by
        rcases phase with phase | phase
        · cases phase
        · exact (Phase.flying.inj phase).symm
      subst same
      refine ⟨?_, notNext⟩
      by_contra again
      exact absurd (againBefore i (by simpa using again)) (by simp [notAgain])
  | answer index flying =>
    refine ⟨limit, quota, retryable, unselected, pending, fun i phase => by simp at phase, fun i phase => ?_,
      fun i phase => by simp at phase⟩
    cases phase
    exact tried index (by rw [flying]; rfl)
  | exclude index flying out =>
    refine ⟨limit, quota, fun i again => ?_, fun i fresh => ?_, pending, fun i phase => by simp [flying] at phase,
      fun i phase => ?_, fun i phase => ?_⟩
    · simp only [Schedule.exclude, Bool.and_eq_true] at again
      exact ⟨(retryable i again.1).1, by simp [Schedule.exclude, (retryable i again.1).2]⟩
    · simp only [Schedule.exclude, Bool.or_eq_false_iff] at fresh
      exact unselected i fresh.1
    · simp [Schedule.exclude, tried i phase]
    · exact ⟨by simp [Schedule.exclude, (ahead i phase).1], (ahead i phase).2⟩
  | repair index flying below unrepaired admitted =>
    rw [repair_below below]
    exact ⟨limit, quota, retryable, unselected, fun i chosen => .inl rfl, fun i phase => by simp at phase,
      fun i phase => by simp [current] at phase, fun i phase => by simp at phase⟩
  | recover index refused reporting once action wait after recovered =>
    obtain ⟨again, chosen⟩ := whole.recovered (current_reporting reporting) recovered
    obtain ⟨-, next, isNext, following, -⟩ := recovered.accepted rfl
    refine ⟨by simpa only [recovered.total, recovered.policy] using limit,
      fun i => by simpa only [recovered.counts] using quota i, again, fun i fresh => ?_, fun i isPending => ?_,
      fun i phase => by simp at phase, fun i phase => by simp [current] at phase, fun i phase => by simp at phase⟩
    · simp only [recovered.selected] at fresh
      simpa only [recovered.counts] using unselected i fresh
    · obtain rfl := some.inj (isNext.symm.trans isPending)
      exact .inr (chosen next following)
  | refuse index refused reporting once action wait after recovered phase ended =>
    obtain ⟨again, -⟩ := whole.recovered (current_reporting reporting) recovered
    have noNext := (recovered.refused rfl).1
    refine ⟨by simpa only [recovered.total, recovered.policy] using limit,
      fun i => by simpa only [recovered.counts] using quota i, again, fun i fresh => ?_,
      fun i isPending => absurd isPending (by simp [noNext]), fun i isPhase => ?_, fun i isCurrent => ?_,
      fun i isPhase => ?_⟩
    · simp only [recovered.selected] at fresh
      simpa only [recovered.counts] using unselected i fresh
    · rcases ended with rfl | rfl <;> simp at isPhase
    · rcases ended with rfl | rfl
      · cases isCurrent
        simpa only [recovered.selected] using tried index (current_reporting reporting)
      · simp [current] at isCurrent
    · rcases ended with rfl | rfl <;> simp at isPhase
  | drop index flying admitted =>
    exact ⟨limit, quota, retryable, unselected, pending, fun i phase => by simp at phase,
      fun i phase => by simp [current] at phase, fun i phase => by simp at phase⟩
  | leave reason =>
    exact ⟨limit, quota, retryable, unselected, pending, fun i phase => by simp at phase,
      fun i phase => by simp [current] at phase, fun i phase => by simp at phase⟩

/-- A candidate is started once its waiting time has passed. -/
def Waited (before : List (Event n)) : Event n → Prop
  | .started i time _ => waitsUntil i before ≤ time
  | _ => True

structure Waits (loop : Loop n) : Prop where
  readyAt : loop.schedule.total < loop.schedule.policy.maxAttempts →
    ∀ i, waitsUntil i loop.log ≤ loop.schedule.readyAt i
  ready : ∀ i, loop.phase = .preparing i → waitsUntil i loop.log ≤ loop.now
  always : Always Waited loop.log

theorem Waits.start (candidates : Fin n → Candidate) (replayable : Bool) : Waits (startLoop candidates replayable) where
  readyAt := fun _ _ => Nat.zero_le _
  ready := fun _ phase => by simp [startLoop] at phase
  always := always_nil _

theorem recovered_readyAt
    (readyAt : loop.schedule.total < loop.schedule.policy.maxAttempts → ∀ i, waitsUntil i loop.log ≤ loop.schedule.readyAt i)
    {action : FailureAction} {wait : Nat} {after : Schedule n} {again : Bool}
    (recovered : Recovered candidates loop.schedule index action loop.now wait after again)
    (below : after.total < after.policy.maxAttempts) (i : Fin n) :
    waitsUntil i (loop.log ++ [.failed index action loop.now wait]) ≤ after.readyAt i := by
  rw [recovered.total, recovered.policy] at below
  rw [waitsUntil_snoc, recovered.readyAt below]
  by_cases same : index = i
  · subst same
    simp
  · simpa [same, Ne.symm same] using readyAt below i

theorem Waits.move (waits : Waits loop) (move : Move candidates twice reopens loop next) :
    Waits next := by
  obtain ⟨readyAt, ready, always⟩ := waits
  cases move with
  | tick later => exact ⟨readyAt, fun i phase => (ready i phase).trans (Nat.le_add_right _ _), always⟩
  | choose index late choosing isNext below =>
    refine ⟨fun _ i => ?_, fun i phase => ?_, always_snoc.mpr ⟨always, trivial⟩⟩
    · rw [waitsUntil_snoc]
      exact readyAt below i
    obtain rfl := Phase.preparing.inj phase
    rw [waitsUntil_snoc]
    exact (readyAt below index).trans ((Nat.le_max_right _ _).trans (Nat.le_add_right _ _))
  | giveUp last =>
    exact ⟨fun below i => by simpa only [waitsUntil_snoc] using readyAt below i,
      fun i phase => by simpa only [waitsUntil_snoc] using ready i phase, always_snoc.mpr ⟨always, trivial⟩⟩
  | reject index preparing => exact ⟨readyAt, fun i phase => by simp at phase, always⟩
  | start index preparing =>
    refine ⟨fun below i => ?_, fun i phase => by simp at phase, always_snoc.mpr ⟨always, ready index preparing⟩⟩
    rw [waitsUntil_snoc]
    exact readyAt (Nat.lt_of_succ_lt below) i
  | answer index flying => exact ⟨readyAt, fun i phase => by simp at phase, always⟩
  | exclude index flying out =>
    refine ⟨fun below i => ?_, fun i phase => by simp [flying] at phase,
      always_excluded _ _ always (fun _ _ => trivial)⟩
    rw [waitsUntil_excluded]
    exact readyAt below i
  | repair index flying below unrepaired admitted =>
    rw [repair_below below]
    refine ⟨fun _ i => ?_, fun i phase => by simp at phase, always_snoc.mpr ⟨always, trivial⟩⟩
    rw [waitsUntil_snoc]
    by_cases same : index = i
    · subst same
      simp
    · simpa [same, Ne.symm same] using readyAt below i
  | recover index refused reporting once action wait after recovered =>
    refine ⟨fun below i => ?_, fun i phase => by simp at phase, always_snoc.mpr ⟨always, trivial⟩⟩
    exact recovered_readyAt readyAt recovered below i
  | refuse index refused reporting once action wait after recovered phase ended =>
    refine ⟨fun below i => ?_, fun i isPhase => ?_, always_snoc.mpr ⟨always, trivial⟩⟩
    · exact recovered_readyAt readyAt recovered below i
    · rcases ended with rfl | rfl <;> simp at isPhase
  | drop index flying admitted => exact ⟨readyAt, fun i phase => by simp at phase, always⟩
  | leave reason => exact ⟨readyAt, fun i phase => by simp at phase, always⟩

/-! ### The order of the candidates -/

/-- A candidate that was never selected comes after all those before it in the list. -/
def InOrder (before : List (Event n)) : Event n → Prop
  | .selected i _ => wasSelected i before = true ∨ ∀ j < i, wasSelected j before = true ∨ wasExcluded j before = true
  | _ => True

structure Ordered (loop : Loop n) : Prop where
  retryable : ∀ i, loop.schedule.retryable i = true → wasSelected i loop.log = true
  next : ∀ i, loop.schedule.nextIndex = some i →
    wasSelected i loop.log = true ∨ ∀ j < i, loop.schedule.selected j = true
  always : Always InOrder loop.log

theorem Ordered.start (candidates : Fin n → Candidate) (replayable : Bool) :
    Ordered (startLoop candidates replayable) where
  retryable := fun _ again => absurd again (by simp [startLoop, newRecoverySchedule])
  next := fun i isNext => by
    simp only [startLoop, newRecoverySchedule] at isNext
    split at isNext
    · cases isNext
      exact .inr (fun j before => absurd before (Nat.not_lt_zero _))
    · simp at isNext
  always := always_nil _

theorem follows_inOrder {schedule : Schedule n} {next : Fin n} {log : List (Event n)} (follows : schedule.Follows next)
    (retryable : schedule.retryable next = true → wasSelected next log = true) :
    wasSelected next log = true ∨ ∀ j < next, schedule.selected j = true := by
  rcases follows with ⟨-, earlier⟩ | again
  · exact .inr earlier
  · exact .inl (retryable again)

theorem Ordered.move (ordered : Ordered loop) (logged : Logged candidates policy loop)
    (move : Move candidates twice reopens loop next) : Ordered next := by
  obtain ⟨retryable, isOrdered, always⟩ := ordered
  have afterFailure : ∀ {index : Fin n} {action : FailureAction} {wait : Nat} {after : Schedule n} {again : Bool},
      current loop.phase = some index →
      Recovered candidates loop.schedule index action loop.now wait after again →
      ∀ i, after.retryable i = true → wasSelected i (loop.log ++ [.failed index action loop.now wait]) = true := by
    intro index action wait after again isCurrent recovered i isAgain
    rw [wasSelected_snoc, Bool.or_eq_true]
    refine .inl ?_
    by_cases same : i = index
    · subst same
      exact logged.tried i isCurrent
    · exact retryable i (recovered.others i same ▸ isAgain)
  cases move with
  | tick later => exact ⟨retryable, isOrdered, always⟩
  | choose index late choosing isNext below =>
    have again : ∀ i, (loop.schedule.select index).retryable i = true → wasSelected i (loop.log ++
        [.selected index (max loop.now (loop.schedule.readyAt index) + late)]) = true := by
      intro i again
      by_cases same : i = index
      · simp [same] at again
      · simp [retryable i (by simpa [same] using again)]
    refine ⟨again, fun i chosen => follows_inOrder (select_nextIndex chosen).2 (again i), always_snoc.mpr ⟨always, ?_⟩⟩
    rcases isOrdered index isNext with selected | earlier
    · exact .inl selected
    · refine .inr (fun j before => ?_)
      have reached := earlier j before
      rwa [logged.selected, Bool.or_eq_true] at reached
  | giveUp last =>
    exact ⟨fun i again => by simp [retryable i again], fun i isNext => by simpa [selects] using isOrdered i isNext,
      always_snoc.mpr ⟨always, trivial⟩⟩
  | reject index preparing => exact ⟨retryable, isOrdered, always⟩
  | start index preparing =>
    refine ⟨fun i again => ?_, fun i isNext => by simpa [selects, Schedule.started] using isOrdered i isNext,
      always_snoc.mpr ⟨always, trivial⟩⟩
    simp only [Schedule.started] at again
    split_ifs at again
    simp [retryable i again]
  | answer index flying => exact ⟨retryable, isOrdered, always⟩
  | exclude index flying out =>
    refine ⟨fun i again => ?_, fun i isNext => ?_, always_excluded _ _ always (fun _ _ => trivial)⟩
    · simp only [Schedule.exclude, Bool.and_eq_true] at again
      simp [retryable i again.1]
    · rw [wasSelected_excluded]
      exact (isOrdered i isNext).imp_right (fun earlier j before => by simp [Schedule.exclude, earlier j before])
  | repair index flying below unrepaired admitted =>
    rw [repair_below below]
    refine ⟨fun i again => by simp [retryable i again], fun i isNext => ?_, always_snoc.mpr ⟨always, trivial⟩⟩
    cases isNext
    simp [logged.tried index (by rw [flying]; rfl)]
  | recover index refused reporting once action wait after recovered =>
    have again := afterFailure (current_reporting reporting) recovered
    obtain ⟨-, next, isNext, following, -⟩ := recovered.accepted rfl
    refine ⟨again, fun i isPending => ?_, always_snoc.mpr ⟨always, trivial⟩⟩
    obtain rfl := some.inj (isNext.symm.trans isPending)
    exact follows_inOrder following (again next)
  | refuse index refused reporting once action wait after recovered phase ended =>
    exact ⟨afterFailure (current_reporting reporting) recovered,
      fun i isPending => absurd isPending (by simp [(recovered.refused rfl).1]), always_snoc.mpr ⟨always, trivial⟩⟩
  | drop index flying admitted => exact ⟨retryable, isOrdered, always⟩
  | leave reason => exact ⟨retryable, isOrdered, always⟩

def NotExcluded (before : List (Event n)) : Event n → Prop
  | .selected i _ => wasExcluded i before = false
  | _ => True

/-- What the schedule keeps ready was not excluded. -/
structure Admits (loop : Loop n) : Prop where
  retryable : ∀ i, loop.schedule.retryable i = true → loop.schedule.excluded i = false
  next : loop.phase = .choosing ∨ (∃ index, loop.phase = .preparing index) →
    ∀ i, loop.schedule.nextIndex = some i → loop.schedule.excluded i = false
  always : Always NotExcluded loop.log

theorem Admits.start (candidates : Fin n → Candidate) (replayable : Bool) : Admits (startLoop candidates replayable) where
  retryable := fun _ _ => rfl
  next := fun _ _ _ => rfl
  always := always_nil _

theorem follows_admitted {schedule : Schedule n} {next : Fin n} (follows : schedule.Follows next)
    (retryable : schedule.retryable next = true → schedule.excluded next = false)
    (selected : schedule.excluded next = true → schedule.selected next = true) : schedule.excluded next = false := by
  rcases follows with ⟨fresh, -⟩ | again
  · by_contra isExcluded
    exact absurd (selected (by simpa using isExcluded)) (by simp [fresh])
  · exact retryable again

theorem Admits.move (admits : Admits loop) (logged : Logged candidates policy loop)
    (move : Move candidates twice False loop next) : Admits next := by
  have selected : ∀ i, loop.schedule.excluded i = true → loop.schedule.selected i = true := by
    intro i isExcluded
    rw [logged.selected, ← logged.excluded, isExcluded, Bool.or_true]
  obtain ⟨retryable, isAdmitted, always⟩ := admits
  have afterFailure : ∀ {index : Fin n} {action : FailureAction} {wait : Nat} {after : Schedule n} {again : Bool},
      Recovered candidates loop.schedule index action loop.now wait after again →
      ∀ i, after.retryable i = true → after.excluded i = false := by
    intro index action wait after again recovered i isAgain
    rw [recovered.excluded]
    by_cases same : i = index
    · subst same
      exact (recovered.retryable isAgain).1
    · exact retryable i (recovered.others i same ▸ isAgain)
  cases move with
  | tick later => exact ⟨retryable, isAdmitted, always⟩
  | choose index late choosing isNext below =>
    have again : ∀ i, (loop.schedule.select index).retryable i = true → loop.schedule.excluded i = false := by
      intro i isAgain
      by_cases same : i = index
      · simp [same] at isAgain
      · exact retryable i (by simpa [same] using isAgain)
    refine ⟨again, fun _ i chosen => follows_admitted (select_nextIndex chosen).2 (again i) (fun isExcluded => ?_),
      always_snoc.mpr ⟨always, ?_⟩⟩
    · by_cases same : i = index
      · simp [same]
      · simpa [same] using selected i isExcluded
    · rw [NotExcluded, ← logged.excluded]
      exact isAdmitted (.inl choosing) index isNext
  | giveUp last => exact ⟨retryable, isAdmitted, always_snoc.mpr ⟨always, trivial⟩⟩
  | reject index preparing => exact ⟨retryable, fun _ => isAdmitted (.inr ⟨index, preparing⟩), always⟩
  | start index preparing =>
    refine ⟨fun i again => ?_, fun phase => by simp at phase, always_snoc.mpr ⟨always, trivial⟩⟩
    simp only [Schedule.started] at again
    split_ifs at again
    exact retryable i again
  | answer index flying => exact ⟨retryable, fun phase => by simp at phase, always⟩
  | exclude index flying out =>
    refine ⟨fun i again => ?_, fun phase => by simp [flying] at phase, always_excluded _ _ always (fun _ _ => trivial)⟩
    simp only [Schedule.exclude, Bool.and_eq_true, Bool.not_eq_true'] at again
    simp [Schedule.exclude, retryable i again.1, again.2]
  | repair index flying below unrepaired admitted =>
    rw [repair_below below]
    refine ⟨retryable, fun _ i isNext => ?_, always_snoc.mpr ⟨always, trivial⟩⟩
    cases isNext
    exact admitted.resolve_right id
  | recover index refused reporting once action wait after recovered =>
    have again := afterFailure recovered
    obtain ⟨-, next, isNext, following, -⟩ := recovered.accepted rfl
    refine ⟨again, fun _ i isPending => ?_, always_snoc.mpr ⟨always, trivial⟩⟩
    obtain rfl := some.inj (isNext.symm.trans isPending)
    refine follows_admitted following (again next) (fun isExcluded => ?_)
    rw [recovered.selected]
    exact selected next (by rwa [recovered.excluded] at isExcluded)
  | refuse index refused reporting once action wait after recovered phase ended =>
    exact ⟨afterFailure recovered, fun _ i isPending => absurd isPending (by simp [(recovered.refused rfl).1]),
      always_snoc.mpr ⟨always, trivial⟩⟩
  | drop index flying admitted =>
    exact ⟨retryable, fun _ i isNext => (admitted i isNext).resolve_right id, always⟩
  | leave reason => exact ⟨retryable, fun phase => by simp at phase, always⟩

/-! ### The failure rules -/

/-- After a failure that allows neither retry nor failover nothing is selected, and after one without failover no
other candidate. -/
def Obeys (before : List (Event n)) : Event n → Prop
  | .selected j _ => (∀ action ∈ failureActions before, action.allowsRetry = true ∨ action.allowsFailover = true) ∧
      ∀ last ∈ lastFailure before, last.2.allowsFailover = true ∨ j = last.1
  | _ => True

structure Rules (loop : Loop n) : Prop where
  stopped : (∃ action ∈ failureActions loop.log, action.allowsRetry = false ∧ action.allowsFailover = false) →
    loop.phase = .done ∨ ∃ index, loop.phase = .answering index true
  only : ∀ last ∈ lastFailure loop.log, last.2.allowsFailover = false →
    loop.schedule.total < loop.schedule.policy.maxAttempts → loop.schedule.maySwitch = false ∧
      (∀ j, loop.schedule.nextIndex = some j → j = last.1) ∧ (∀ j, current loop.phase = some j → j = last.1)
  always : Always Obeys loop.log

theorem Rules.start (candidates : Fin n → Candidate) (replayable : Bool) : Rules (startLoop candidates replayable) where
  stopped := fun stop => by simp [startLoop, failureActions] at stop
  only := fun last isLast => by simp [startLoop, lastFailure] at isLast
  always := always_nil _

theorem Rules.move (rules : Rules loop) (logged : Logged candidates policy loop)
    (move : Move candidates False reopens loop next) : Rules next := by
  obtain ⟨stopped, only, always⟩ := rules
  -- The schedule is only asked to recover while no failure has stopped the request.
  have running : ∀ {index : Fin n} {refused : Bool},
      (loop.phase = .flying index ∨ loop.phase = .answering index refused) → (refused = true → False) →
      ¬ ∃ action ∈ failureActions loop.log, action.allowsRetry = false ∧ action.allowsFailover = false := by
    intro index refused reporting once stop
    rcases stopped stop with phase | ⟨other, phase⟩ <;> rw [phase] at reporting
    · simp at reporting
    · simp only [reduceCtorEq, Phase.answering.injEq, false_or] at reporting
      exact once reporting.2.symm
  cases move with
  | tick later => exact ⟨stopped, only, always⟩
  | choose index late choosing isNext below =>
    have noStop : ∀ action ∈ failureActions loop.log, action.allowsRetry = true ∨ action.allowsFailover = true := by
      intro action listed
      by_contra neither
      simp only [not_or, Bool.not_eq_true] at neither
      rcases stopped ⟨action, listed, neither⟩ with phase | ⟨other, phase⟩ <;> simp [choosing] at phase
    refine ⟨fun stop => ?_, fun last isLast rule _ => ?_, always_snoc.mpr ⟨always, noStop, fun last isLast => ?_⟩⟩
    · obtain ⟨action, listed, retry, failover⟩ := stop
      rw [failureActions_snoc, append_nil] at listed
      rcases noStop action listed with allowed | allowed
      · simp [allowed] at retry
      · simp [allowed] at failover
    · rw [lastFailure_snoc] at isLast
      obtain ⟨noSwitch, isOnly, -⟩ := only last isLast rule below
      refine ⟨noSwitch, fun j chosen => ?_, fun j phase => ?_⟩
      · exact absurd (select_nextIndex chosen).1 (by simp [noSwitch])
      · cases phase
        exact isOnly index isNext
    · by_cases rule : last.2.allowsFailover = true
      · exact .inl rule
      · exact .inr ((only last isLast (by simpa using rule) below).2.1 index isNext)
  | giveUp last =>
    refine ⟨fun stop => ?_, fun last isLast rule below => ?_, always_snoc.mpr ⟨always, trivial⟩⟩
    · rw [failureActions_snoc, append_nil] at stop
      exact stopped stop
    · rw [lastFailure_snoc] at isLast
      exact only last isLast rule below
  | reject index preparing =>
    refine ⟨fun stop => ?_, fun last isLast rule below => ?_, always⟩
    · rcases stopped stop with phase | ⟨other, phase⟩ <;> simp [preparing] at phase
    · obtain ⟨noSwitch, isOnly, -⟩ := only last isLast rule below
      exact ⟨noSwitch, isOnly, fun j phase => by simp [current] at phase⟩
  | start index preparing =>
    refine ⟨fun stop => ?_, fun last isLast rule below => ?_, always_snoc.mpr ⟨always, trivial⟩⟩
    · rw [failureActions_snoc, append_nil] at stop
      rcases stopped stop with phase | ⟨other, phase⟩ <;> simp [preparing] at phase
    · rw [lastFailure_snoc] at isLast
      obtain ⟨noSwitch, isOnly, isCurrent⟩ := only last isLast rule (Nat.lt_of_succ_lt below)
      refine ⟨noSwitch, isOnly, fun j phase => ?_⟩
      cases phase
      exact isCurrent index (by rw [preparing]; rfl)
  | answer index flying =>
    refine ⟨fun stop => absurd stop (running (.inl flying : _ ∨ loop.phase = .answering index false) (by simp)),
      fun last isLast rule below => ?_, always⟩
    obtain ⟨noSwitch, isOnly, isCurrent⟩ := only last isLast rule below
    refine ⟨noSwitch, isOnly, fun j phase => ?_⟩
    cases phase
    exact isCurrent index (by rw [flying]; rfl)
  | exclude index flying out =>
    refine ⟨fun stop => ?_, fun last isLast rule below => ?_, always_excluded _ _ always (fun _ _ => trivial)⟩
    · rw [failureActions_excluded] at stop
      exact stopped stop
    · rw [lastFailure_excluded] at isLast
      exact only last isLast rule below
  | repair index flying below unrepaired admitted =>
    rw [repair_below below]
    refine ⟨fun stop => ?_, fun last isLast rule _ => ?_, always_snoc.mpr ⟨always, trivial⟩⟩
    · rw [failureActions_snoc, append_nil] at stop
      exact absurd stop (running (.inl flying : _ ∨ loop.phase = .answering index false) (by simp))
    · rw [lastFailure_snoc] at isLast
      obtain ⟨noSwitch, -, isCurrent⟩ := only last isLast rule below
      refine ⟨noSwitch, fun j isNext => ?_, fun j phase => by simp [current] at phase⟩
      cases isNext
      exact isCurrent index (by rw [flying]; rfl)
  | recover index refused reporting once action wait after recovered =>
    obtain ⟨below, next, isNext, following, kept⟩ := recovered.accepted rfl
    refine ⟨fun stop => ?_, fun last isLast rule _ => ?_, always_snoc.mpr ⟨always, trivial⟩⟩
    · obtain ⟨stopAction, listed, retry, failover⟩ := stop
      rw [failureActions_snoc, mem_append, mem_singleton] at listed
      rcases listed with earlier | rfl
      · exact absurd ⟨stopAction, earlier, retry, failover⟩ (running reporting once)
      · -- A failure that allows nothing leaves no candidate to follow.
        have same := kept (by rw [recovered.maySwitch below, failover, Bool.false_and])
        subst same
        rcases following with ⟨fresh, -⟩ | again
        · rw [recovered.selected, logged.selected, logged.tried next (current_reporting reporting)] at fresh
          simp at fresh
        · exact absurd (recovered.retryable again).2.1 (by simp [retry])
    · rw [lastFailure_snoc] at isLast
      cases isLast
      have noSwitch : after.maySwitch = false := by
        rw [recovered.maySwitch below, rule, Bool.false_and]
      refine ⟨noSwitch, fun j isPending => ?_, fun j phase => by simp [current] at phase⟩
      obtain rfl := some.inj (isNext.symm.trans isPending)
      exact kept noSwitch
  | refuse index refused reporting once action wait after recovered phase ended =>
    have noNext := (recovered.refused rfl).1
    refine ⟨fun _ => ?_, fun last isLast rule below => ?_, always_snoc.mpr ⟨always, trivial⟩⟩
    · rcases ended with rfl | rfl
      · exact .inr ⟨index, rfl⟩
      · exact .inl rfl
    · rw [lastFailure_snoc] at isLast
      cases isLast
      rw [recovered.total, recovered.policy] at below
      refine ⟨by rw [recovered.maySwitch below, rule, Bool.false_and], fun j isPending => by simp [noNext] at isPending,
        fun j isCurrent => ?_⟩
      rcases ended with rfl | rfl
      · exact (some.inj isCurrent).symm
      · simp [current] at isCurrent
  | drop index flying admitted =>
    refine ⟨fun stop => absurd stop (running (.inl flying : _ ∨ loop.phase = .answering index false) (by simp)),
      fun last isLast rule below => ?_, always⟩
    obtain ⟨noSwitch, isOnly, -⟩ := only last isLast rule below
    exact ⟨noSwitch, isOnly, fun j phase => by simp [current] at phase⟩
  | leave reason =>
    refine ⟨fun _ => .inl rfl, fun last isLast rule below => ?_, always⟩
    obtain ⟨noSwitch, isOnly, -⟩ := only last isLast rule below
    exact ⟨noSwitch, isOnly, fun j phase => by simp [current] at phase⟩

abbrev LoopReaches (candidates : Fin n → Candidate) (replayable : Bool) (allowed : Loop n → Act → Prop) : Loop n → Prop :=
  Reaches (Loop.step candidates) allowed (startLoop candidates replayable)

/-- What the schedule keeps on every run. -/
structure Bounded (candidates : Fin n → Candidate) (policy : FailoverPolicy) (log : List (Event n)) : Prop where
  attempts : attempts log ≤ policy.maxAttempts
  ordinary : ∀ i, ordinaryAttempts i log ≤ (failurePolicy (candidates i)).maxRetries + 1
  repairs : ∀ target, repairsOf candidates target log ≤ 1
  waited : Always Waited log
  inOrder : Always InOrder log

theorem Logged.tried_of (logged : Logged candidates policy loop) : Tried loop := by
  intro index isCurrent
  rw [logged.selected, logged.tried index isCurrent, Bool.true_or]

theorem step_keeps {holds : Loop n → Prop}
    (kept : ∀ loop next, Logged candidates policy loop → holds loop → Move candidates twice reopens loop next → holds next)
    {act : Act} (logged : Logged candidates policy loop) (initially : holds loop)
    (admitted : ∀ index, loop.phase = .flying index → ∀ i, loop.schedule.nextIndex = some i → loop.schedule.excluded i = false ∨ reopens)
    (second : failsTwice loop act = true → twice) (reopening : repairsExcluded candidates loop act = true → reopens)
    (stepped : loop.step candidates act = some next) : Logged candidates policy next ∧ holds next := by
  have moves := step_moves logged.tried_of admitted second reopening stepped
  clear stepped
  induction moves with
  | refl => exact ⟨logged, initially⟩
  | tail _ move ih => exact ⟨ih.1.move move, kept _ _ ih.1 ih.2 move⟩

theorem run_keeps {holds : Loop n → Prop} {replayable : Bool} (initially : holds (startLoop candidates replayable))
    (kept : ∀ loop next, Logged candidates (requestPolicy candidates replayable) loop → holds loop → Move candidates True True loop next → holds next)
    (reached : LoopReaches candidates replayable (fun _ _ => True) loop) :
    Logged candidates (requestPolicy candidates replayable) loop ∧ holds loop := by
  refine reached.invariant (fun loop => Logged candidates (requestPolicy candidates replayable) loop ∧ holds loop)
    ⟨Logged.start candidates replayable, initially⟩ ?_
  rintro state act next ⟨logged, current⟩ - stepped
  exact step_keeps kept logged current (fun _ _ _ _ => .inr trivial) (fun _ => trivial) (fun _ => trivial) stepped

theorem bounded_run (candidates : Fin n → Candidate) (replayable : Bool)
    (reached : LoopReaches candidates replayable (fun _ _ => True) loop) :
    Bounded candidates (requestPolicy candidates replayable) loop.log := by
  obtain ⟨logged, budget⟩ := run_keeps (Budget.start candidates replayable)
    (fun loop next _ budget move => budget.move move) reached
  obtain ⟨-, waits⟩ := run_keeps (Waits.start candidates replayable) (fun loop next _ waits move => waits.move move) reached
  obtain ⟨-, ordered⟩ := run_keeps (Ordered.start candidates replayable)
    (fun loop next logged ordered move => ordered.move logged move) reached
  refine ⟨?_, fun i => ?_, fun target => ?_, waits.always, ordered.always⟩
  · rw [← logged.total, ← logged.policy]
    exact budget.limit
  · rw [← logged.counts]
    exact budget.quota i
  · rw [logged.repaired]
    split_ifs
    · exact Nat.le_refl _
    · exact Nat.zero_le _

theorem recover_phase (loop : Loop n) (index : Fin n) (action : FailureAction) (retryAfter jittered : Nat)
    (refused : Phase n) : (loop.recover candidates index action retryAfter jittered refused).phase = .choosing ∨
      (loop.recover candidates index action retryAfter jittered refused).phase = refused := by
  rw [Loop.recover]
  generalize loop.schedule.recover candidates index action retryAfter loop.now jittered = outcome
  obtain ⟨after, again⟩ := outcome
  cases again
  · exact .inr rfl
  · exact .inl rfl

theorem step_flying {act : Act} (stepped : loop.step candidates act = some next) (flying : next.phase = .flying index) :
    loop.phase = .preparing index ∧
      next.schedule.nextIndex = loop.schedule.nextIndex ∧ next.schedule.excluded = loop.schedule.excluded := by
  obtain ⟨schedule, repairedTargets, replayable, phase, now, log⟩ := loop
  cases act with
  | next late cancelled =>
    cases phase with
    | choosing =>
      simp only [Loop.step] at stepped
      rcases next_cases schedule now late cancelled with ⟨outcome, -⟩ | outcome | ⟨other, -, -, outcome⟩ <;>
        rw [outcome] at stepped <;> obtain rfl := some.inj stepped <;> simp at flying
    | preparing _ | flying _ | answering _ _ | done => simp [Loop.step] at stepped
  | reject => cases phase <;> simp [Loop.step] at stepped; simp [← stepped] at flying
  | observeOutbound later =>
    cases phase with
    | preparing other =>
      cases stepped
      obtain rfl := Phase.flying.inj flying
      exact ⟨rfl, rfl, rfl⟩
    | choosing | flying _ | answering _ _ | done => simp [Loop.step] at stepped
  | respond response later jittered =>
    cases phase with
    | flying other =>
      simp only [Loop.step] at stepped
      split_ifs at stepped <;> obtain rfl := some.inj stepped
      · simp at flying
      · rw [Loop.handleError] at flying
        split_ifs at flying
        all_goals rcases recover_phase _ _ _ _ _ _ with phase | phase <;> rw [phase] at flying <;> simp at flying
    | choosing | preparing _ | answering _ _ | done => simp [Loop.step] at stepped
  | fail failure later jittered =>
    have ended : ∀ other : Loop n, ∀ i, (other.fail candidates i failure jittered).phase ≠ .flying index := by
      intro other i isFlying
      rcases recover_phase other i (failure.action (failurePolicy (candidates i))) 0 jittered .done with
        phase | phase <;> rw [Loop.fail, phase] at isFlying <;> simp at isFlying
    cases phase <;> simp only [Loop.step] at stepped <;> split_ifs at stepped <;> obtain rfl := some.inj stepped <;>
      exact absurd flying (ended _ _)
  | invalidTarget => cases phase <;> simp [Loop.step] at stepped; simp [← stepped] at flying
  | finish ending =>
    simp only [Loop.step] at stepped
    split_ifs at stepped
    cases stepped
    simp at flying

theorem admitted_run (candidates : Fin n → Candidate) (replayable : Bool)
    (reached : LoopReaches candidates replayable (fun loop act => repairsExcluded candidates loop act = false) loop) :
    Always NotExcluded loop.log := by
  have kept := reached.invariant (fun loop => (Logged candidates (requestPolicy candidates replayable) loop ∧
      Admits loop) ∧ ∀ index, loop.phase = .flying index →
        ∀ i, loop.schedule.nextIndex = some i → loop.schedule.excluded i = false)
    ⟨⟨Logged.start candidates replayable, Admits.start candidates replayable⟩, fun _ phase => by simp [startLoop] at phase⟩
    (by
      rintro state act next ⟨⟨logged, admits⟩, flying⟩ permitted stepped
      have after := step_keeps
        (fun _ _ logged admits (move : Move candidates True False _ _) => admits.move logged move) logged admits
        (fun index phase i isNext => .inl (flying index phase i isNext)) (fun _ => trivial)
        (fun reopens => absurd reopens (by simp [permitted])) stepped
      refine ⟨after, fun index phase i isNext => ?_⟩
      obtain ⟨before, sameNext, sameExcluded⟩ := step_flying stepped phase
      rw [sameExcluded]
      exact admits.next (.inr ⟨index, before⟩) i (sameNext ▸ isNext))
  exact kept.1.2.always

theorem rules_run (candidates : Fin n → Candidate) (replayable : Bool)
    (reached : LoopReaches candidates replayable (fun loop act => failsTwice loop act = false) loop) :
    Always Obeys loop.log := by
  have kept := reached.invariant
    (fun loop => Logged candidates (requestPolicy candidates replayable) loop ∧ Rules loop)
    ⟨Logged.start candidates replayable, Rules.start candidates replayable⟩
    (by
      rintro state act next ⟨logged, rules⟩ permitted stepped
      exact step_keeps (fun _ _ logged rules (move : Move candidates False True _ _) => rules.move logged move)
        logged rules (fun _ _ _ _ => .inr trivial) (fun second => absurd second (by simp [permitted]))
        (fun _ => trivial) stepped)
  exact kept.2.always

/-- On every run of the loop the limits, the waiting times and the order are kept; exclusions are, unless a request is
    repaired for an excluded candidate; and the failure rules are, unless an attempt whose response the schedule has
    refused to recover from reports a second failure. -/
theorem recovery_safe (candidates : Fin n → Candidate) (replayable : Bool) (loop : Loop n) :
    (LoopReaches candidates replayable (fun _ _ => True) loop →
      Bounded candidates (requestPolicy candidates replayable) loop.log) ∧
    (LoopReaches candidates replayable (fun loop act => repairsExcluded candidates loop act = false) loop →
      Always NotExcluded loop.log) ∧
    (LoopReaches candidates replayable (fun loop act => failsTwice loop act = false) loop →
      Always Obeys loop.log) :=
  ⟨bounded_run candidates replayable, admitted_run candidates replayable, rules_run candidates replayable⟩

/-- Two candidates of a kind, with the default policies. -/
def pair (kind : String) (i : Fin 2) : Candidate :=
  { service := { id := if i = 0 then "service_a" else "service_b", kind, failurePolicy := none }
    failurePolicy := none, failover := none, upstreamModel := "model", requestedModel := "model"
    upstreamProtocol := "openai_responses", planType := "relaykit", mode := "native" }

def plain (statusCode : Nat) : Response :=
  { statusCode, startFailure := none, retryAfter := 0, accountBlocked := false, extraUsage := false, repairable := false }

/-- The initial delay of the default policy. -/
def halfSecond : Nat := 500 * millisecond

/-- Both candidates fail, the first twice; then the second answers. -/
def failover : List Act :=
  [.next 0 false, .observeOutbound 1, .respond (plain 503) 1 halfSecond, .next 0 false, .observeOutbound 1,
    .fail .network 1 halfSecond, .next 0 false, .observeOutbound 1, .respond (plain 200) 1 0, .finish .delivered]

/-- The stream of the first candidate is refused, which the rules answer with a stop; then converting the refusal for
    the client fails. -/
def refusedStream : List Act :=
  [.next 0 false, .observeOutbound 1, .respond { plain 200 with startFailure := some 400 } 1 halfSecond,
    .fail .conversion 1 halfSecond, .next 0 false]

/-- The error of a Claude subscription excludes all of its kind, and it is one that a repair answers. -/
def repairedExcluded : List Act :=
  [.next 0 false, .observeOutbound 1, .respond { plain 400 with extraUsage := true, repairable := true } 1 halfSecond,
    .next 0 false]

/-- What is logged when the acts whose steps pass the test are taken. -/
def logOf (candidates : Fin n → Candidate) (test : Loop n → Act → Bool) (acts : List Act) : Option (List (Event n)) :=
  (runActs (fun loop act => if test loop act then loop.step candidates act else none) (startLoop candidates true)
    acts).map (·.log)

theorem reaches_of_logOf {test : Loop n → Act → Bool} {acts : List Act} {log : List (Event n)}
    (logged : logOf candidates test acts = some log) :
    ∃ loop, LoopReaches candidates true (fun loop act => test loop act = true) loop ∧ loop.log = log := by
  obtain ⟨loop, ran, isLog⟩ := Option.map_eq_some_iff.mp logged
  exact ⟨loop, reaches_of_runActs .start ran, isLog⟩

theorem failover_logged :
    logOf (pair "openai") (fun loop act => !failsTwice loop act && !repairsExcluded (pair "openai") loop act) failover =
      some [.selected 0 0, .started 0 1 false, .failed 0 .retryAndFailover 2 halfSecond,
        .selected 0 (2 + halfSecond), .started 0 (3 + halfSecond) false,
        .failed 0 .retryAndFailover (4 + halfSecond) halfSecond,
        .selected 1 (4 + halfSecond), .started 1 (5 + halfSecond) false] := by
  decide +kernel

theorem refusedStream_logged : logOf (pair "openai") (fun _ _ => true) refusedStream =
    some [.selected 0 0, .started 0 1 false, .failed 0 .stop 2 halfSecond, .gaveUp,
      .failed 0 .failover 3 halfSecond, .selected 1 3] := by
  decide +kernel

theorem repairedExcluded_logged : logOf (pair "claude_subscription") (fun _ _ => true) repairedExcluded =
    some [.selected 0 0, .started 0 1 false, .excluded 0, .excluded 1, .repaired 0, .selected 0 2] := by
  decide +kernel

/-- The run in which both candidates fail keeps to everything. -/
theorem failover_safe : ∃ loop : Loop 2, attempts loop.log = 3 ∧
    Bounded (pair "openai") (requestPolicy (pair "openai") true) loop.log ∧ Always NotExcluded loop.log ∧
      Always Obeys loop.log := by
  obtain ⟨loop, reached, isLog⟩ := reaches_of_logOf failover_logged
  obtain ⟨bounded, admitted, obeys⟩ := recovery_safe (pair "openai") true loop
  refine ⟨loop, by rw [isLog]; rfl, bounded (reached.mono (fun _ _ _ => trivial)), admitted (reached.mono ?_),
    obeys (reached.mono ?_)⟩ <;> intro state act permitted <;> simp only [Bool.and_eq_true, Bool.not_eq_true'] at permitted
  · exact permitted.2
  · exact permitted.1

/-- A candidate is selected after a failure whose action is to stop; and one that was excluded is selected again. -/
theorem schedule_reopened :
    (∃ loop : Loop 2, LoopReaches (pair "openai") true (fun _ _ => True) loop ∧ ¬ Always Obeys loop.log) ∧
    (∃ loop : Loop 2, LoopReaches (pair "claude_subscription") true (fun _ _ => True) loop ∧
      ¬ Always NotExcluded loop.log) := by
  constructor
  · obtain ⟨loop, reached, isLog⟩ := reaches_of_logOf refusedStream_logged
    refine ⟨loop, reached.mono (fun _ _ _ => trivial), fun always => ?_⟩
    rw [isLog] at always
    have last := always [.selected 0 0, .started 0 1 false, .failed 0 .stop 2 halfSecond, .gaveUp,
      .failed 0 .failover 3 halfSecond] (.selected 1 3) (prefix_refl _)
    exact absurd (last.1 .stop (by decide)) (by decide)
  · obtain ⟨loop, reached, isLog⟩ := reaches_of_logOf repairedExcluded_logged
    refine ⟨loop, reached.mono (fun _ _ _ => trivial), fun always => ?_⟩
    rw [isLog] at always
    have last := always [.selected 0 0, .started 0 1 false, .excluded 0, .excluded 1, .repaired 0] (.selected 0 2)
      (prefix_refl _)
    have again : true = false := last
    exact Bool.noConfusion again

/-- The counters of the schedule are those of the log, whatever happened. -/
theorem schedule_logged {replayable : Bool} {loop : Loop n} (reached : LoopReaches candidates replayable (fun _ _ => True) loop) :
    loop.schedule.total = attempts loop.log ∧
      (∀ target, repairsOf candidates target loop.log = if target ∈ loop.repairedTargets then 1 else 0) ∧
      ∀ i, loop.schedule.counts i = ordinaryAttempts i loop.log ∧ loop.schedule.excluded i = wasExcluded i loop.log ∧
        loop.schedule.selected i = (wasSelected i loop.log || wasExcluded i loop.log) := by
  obtain ⟨logged, -⟩ : Logged candidates (requestPolicy candidates replayable) loop ∧ True :=
    run_keeps trivial (fun _ _ _ _ _ => trivial) reached
  exact ⟨logged.total, logged.repaired, fun i => ⟨logged.counts i, logged.excluded i, logged.selected i⟩⟩

theorem schedule_logged_failover : ∃ loop : Loop 2, attempts loop.log = 3 ∧ loop.schedule.total = attempts loop.log := by
  obtain ⟨loop, reached, isLog⟩ := reaches_of_logOf failover_logged
  exact ⟨loop, by rw [isLog]; rfl, (schedule_logged (reached.mono fun _ _ _ => trivial)).1⟩

end AstrLink.RecoverySafety
