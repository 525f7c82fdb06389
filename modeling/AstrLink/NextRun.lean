import AstrLink.CronSchedule

/-!
The scheduler of the sync engine and the next run that its status shows. Both count a plan from the last sync
or attempt and bring a run forward for a settled change; a request for a run is the one exception.
-/
namespace AstrLink.NextRun
open CronFields (Text wrap)
open CronSchedule (Location minute second parse)

inductive TriggerMode where
  | interval
  | cron
  | manual
  | unsupported
  deriving DecidableEq

structure TriggerSettings where
  mode : TriggerMode
  intervalMinutes : Int
  cron : Text
  debounceSeconds : Int

/-- The part of the stored row that scheduling reads. Instants are counted from the zero time. -/
structure SyncState where
  enabled : Bool
  configured : Bool
  passphraseSet : Bool
  trigger : TriggerSettings
  lastSyncedAt : Option Int

def minSyncIntervalMinutes : Int := 5
def minSyncDebounceSeconds : Int := 5
def defaultDebounceSeconds : Int := 30

def ready (state : SyncState) : Bool := state.enabled && state.configured && state.passphraseSet

def planAnchor (state : SyncState) (lastAttempt : Int) : Int :=
  let anchor := state.lastSyncedAt.getD 0
  if anchor < lastAttempt then lastAttempt else anchor

/-- The first moment of the plan after the anchor. -/
def plannedRunAt (state : SyncState) (location : Location) (anchor : Int) : Option Int :=
  match state.trigger.mode with
  | .interval => some (anchor + wrap (max state.trigger.intervalMinutes minSyncIntervalMinutes * minute))
  | .cron =>
    match parse state.trigger.cron with
    | .error _ => none
    | .ok expression =>
      match expression.next location anchor with
      | .error _ => none
      | .ok next => some next
  | _ => none

def debounceSeconds (state : SyncState) : Int :=
  if minSyncDebounceSeconds ≤ state.trigger.debounceSeconds then state.trigger.debounceSeconds else defaultDebounceSeconds

/-- When the scheduler will next start a run; a moment that has passed is reported as now. -/
def nextRunAt (state : SyncState) (location : Location) (lastAttempt now : Int) (oldestChange : Option Int) : Option Int :=
  if ready state then
    match plannedRunAt state location (planAnchor state lastAttempt) with
    | none => none
    | some planned =>
      let next := if planned < now then now else planned
      match oldestChange with
      | none => some next
      | some oldest =>
        let debounce := wrap (debounceSeconds state * second)
        -- the zero stamp is one that could not be read
        let due := if oldest = 0 then now else oldest + debounce
        let retry := lastAttempt + debounce
        let due := if due < retry then retry else due
        let due := if due < now then now else due
        some (if due < next then due else next)
  else none

structure Engine where
  state : SyncState
  lastAttempt : Int
  /-- The stamps of the changes that no sync has packaged, oldest first. -/
  changes : List Int
  wake : Bool
  running : Bool

def Engine.oldestPendingChange (engine : Engine) : Option Int := engine.changes.head?

def Engine.nextRun (engine : Engine) (location : Location) (now : Int) : Option Int :=
  nextRunAt engine.state location engine.lastAttempt now engine.oldestPendingChange

/-- Whether the settings call for a run at `now`; `requested` when a request was taken. -/
def Engine.due (engine : Engine) (location : Location) (requested : Bool) (now : Int) : Bool :=
  if ready engine.state then
    if requested then true
    else
      match plannedRunAt engine.state location (planAnchor engine.state engine.lastAttempt) with
      | none => false
      | some planned =>
        if planned ≤ now then true
        else
          match engine.oldestPendingChange with
          | none => false
          | some oldest =>
            let debounce := wrap (debounceSeconds engine.state * second)
            let due := if oldest = 0 then now else oldest + debounce
            let retry := engine.lastAttempt + debounce
            let due := if due < retry then retry else due
            decide (due ≤ now)
  else false

/-- The start of a run, refused while another one is running. -/
def Engine.sync (engine : Engine) (now : Int) : Engine × Bool :=
  if engine.running then (engine, false) else ({ engine with running := true, lastAttempt := now }, true)

inductive Act where
  /-- The timer of the scheduler fires. -/
  | poll (now : Int)
  /-- The scheduler takes a request. -/
  | woken (now : Int)
  | status (now : Int)
  | requestRun
  /-- Anything that writes the row: a save, a passphrase, the result of a run. -/
  | write (state : SyncState)
  /-- A change is logged, or a run clears what it packaged. -/
  | log (changes : List Int)
  | syncNow (now : Int)
  | finish

def Engine.step (location : Location) (engine : Engine) : Act → Engine × Bool
  | .poll now => if engine.due location false now then engine.sync now else (engine, false)
  | .woken now =>
    if engine.wake then
      let taken := { engine with wake := false }
      if taken.due location true now then taken.sync now else (taken, false)
    else (engine, false)
  | .status _ => (engine, false)
  | .requestRun => ({ engine with wake := true }, false)
  | .write state => ({ engine with state }, false)
  | .log changes => ({ engine with changes }, false)
  | .syncNow now => engine.sync now
  | .finish => ({ engine with running := false }, false)

def Engine.after (location : Location) (engine : Engine) (acts : List Act) : Engine :=
  acts.foldl (fun engine act => (engine.step location act).1) engine

def Act.instant : Act → Option Int
  | .poll now | .woken now | .status now => some now
  | _ => none

/-- The scheduler, or a reader of the status, acts before the next run. -/
def Act.Before (next : Option Int) (act : Act) : Prop :=
  ∃ now, act.instant = some now ∧ ∀ instant, next = some instant → now < instant

theorem ite_later (first second : Int) : (if first < second then second else first) = max first second := by
  split <;> omega

theorem ite_sooner (first second : Int) : (if first < second then first else second) = min first second := by
  split <;> omega

variable {now : Int}

theorem le_some_iff {value : Int} : (∃ instant, some value = some instant ∧ instant ≤ now) ↔ value ≤ now := by
  simp

theorem due_iff (engine : Engine) (location : Location) (now : Int) :
    engine.due location false now = true ↔ ∃ instant, engine.nextRun location now = some instant ∧ instant ≤ now := by
  unfold Engine.due Engine.nextRun nextRunAt
  by_cases allowed : ready engine.state = true
  · rw [if_pos allowed, if_pos allowed, if_neg Bool.false_ne_true]
    cases plannedRunAt engine.state location (planAnchor engine.state engine.lastAttempt) with
    | none => simp
    | some planned =>
      cases engine.oldestPendingChange with
      | none =>
        dsimp only
        rw [le_some_iff, ite_later, Bool.if_true_left, Bool.or_false, decide_eq_true_eq]
        omega
      | some oldest =>
        dsimp only
        rw [le_some_iff, Bool.if_true_left, Bool.or_eq_true, decide_eq_true_eq, decide_eq_true_eq]
        simp only [ite_later, ite_sooner]
        omega
  · rw [if_neg allowed, if_neg allowed]
    simp

variable {engine : Engine} {location : Location}

theorem due_later {later : Int} (idle : engine.due location false now = false)
    (before : ∀ instant, engine.nextRun location now = some instant → later < instant) :
    engine.due location false later = false := by
  unfold Engine.nextRun nextRunAt at before
  unfold Engine.due at idle ⊢
  by_cases allowed : ready engine.state = true
  · rw [if_pos allowed] at before
    rw [if_pos allowed, if_neg Bool.false_ne_true] at idle ⊢
    cases planned_at : plannedRunAt engine.state location (planAnchor engine.state engine.lastAttempt) with
    | none => rfl
    | some planned =>
      rw [planned_at] at idle before
      cases oldest_at : engine.oldestPendingChange with
      | none =>
        rw [oldest_at] at idle before
        have shown := before _ rfl
        dsimp only at idle ⊢
        rw [Bool.if_true_left, Bool.or_false, decide_eq_false_iff_not] at idle ⊢
        rw [ite_later] at shown
        omega
      | some oldest =>
        rw [oldest_at] at idle before
        have shown := before _ rfl
        dsimp only at idle ⊢
        rw [Bool.if_true_left, Bool.or_eq_false_iff, decide_eq_false_iff_not, decide_eq_false_iff_not] at idle ⊢
        simp only [ite_later, ite_sooner] at idle shown ⊢
        -- a stamp that could not be read waits for the retry alone
        by_cases unread : oldest = 0
        · rw [if_pos unread] at idle shown ⊢
          omega
        · rw [if_neg unread] at idle shown ⊢
          omega
  · rw [if_neg allowed]

/-- What the scheduler leaves of an engine: only a request may have been taken. -/
structure Settled (shown engine : Engine) : Prop where
  state : engine.state = shown.state
  lastAttempt : engine.lastAttempt = shown.lastAttempt
  changes : engine.changes = shown.changes
  wake : engine.wake = true → shown.wake = true

variable {shown : Engine}

theorem Settled.due (settled : Settled shown engine) (location : Location) (requested : Bool) (now : Int) :
    engine.due location requested now = shown.due location requested now := by
  simp only [Engine.due, Engine.oldestPendingChange, settled.state, settled.lastAttempt, settled.changes]

theorem due_requested (engine : Engine) (location : Location) (now : Int) :
    engine.due location true now = ready engine.state := by
  unfold Engine.due
  by_cases allowed : ready engine.state = true
  · rw [if_pos allowed, if_pos rfl, allowed]
  · rw [if_neg allowed, Bool.eq_false_iff.mpr allowed]

theorem step_before (idle : shown.due location shown.wake now = false) (settled : Settled shown engine) {act : Act}
    (before : act.Before (shown.nextRun location now)) :
    (engine.step location act).2 = false ∧ Settled shown (engine.step location act).1 := by
  -- a request that waits is refused only where no run is allowed at all
  have refused : shown.wake = true → ready shown.state = false := by
    intro waiting
    rw [waiting, due_requested] at idle
    exact idle
  have planless : shown.due location false now = false := by
    cases waiting : shown.wake with
    | false => rwa [waiting] at idle
    | true => rw [Engine.due, refused waiting, if_neg Bool.false_ne_true]
  obtain ⟨later, same, sooner⟩ := before
  cases act with
  | poll time =>
    cases same
    have quiet := due_later planless sooner
    rw [← settled.due] at quiet
    rw [Engine.step, quiet, if_neg Bool.false_ne_true]
    exact ⟨rfl, settled⟩
  | woken time =>
    by_cases waiting : engine.wake = true
    · have taken : Settled shown { engine with wake := false } :=
        ⟨settled.state, settled.lastAttempt, settled.changes, nofun⟩
      have quiet : ({ engine with wake := false } : Engine).due location true time = false := by
        rw [taken.due, due_requested]
        exact refused (settled.wake waiting)
      simp only [Engine.step, waiting, if_true, quiet, Bool.false_eq_true, if_false]
      exact ⟨trivial, taken⟩
    · rw [Engine.step, if_neg waiting]
      exact ⟨rfl, settled⟩
  | status time => exact ⟨rfl, settled⟩
  | requestRun => cases same
  | write state => cases same
  | log changes => cases same
  | syncNow time => cases same
  | finish => cases same

theorem after_before (idle : shown.due location shown.wake now = false) (settled : Settled shown engine)
    (acts : List Act) (before : ∀ act ∈ acts, act.Before (shown.nextRun location now)) :
    Settled shown (engine.after location acts) := by
  induction acts generalizing engine with
  | nil => exact settled
  | cons act acts ih =>
    have first := step_before idle settled (before act List.mem_cons_self)
    exact ih first.2 fun other member => before other (List.mem_cons_of_mem act member)

/-- A poll starts a run exactly when the next run that the status shows has come, and when the scheduler finds no run
due, neither it nor a reader of the status starts one before the next run that was shown. -/
theorem next_run_agrees (engine : Engine) (location : Location) (now : Int) :
    (engine.due location false now = true ↔ ∃ instant, engine.nextRun location now = some instant ∧ instant ≤ now) ∧
      (engine.due location engine.wake now = false → ∀ acts act,
        (∀ earlier ∈ acts ++ [act], earlier.Before (engine.nextRun location now)) →
        ((engine.after location acts).step location act).2 = false) := by
  refine ⟨due_iff engine location now, ?_⟩
  intro idle acts act before
  have settled := after_before idle ⟨rfl, rfl, rfl, id⟩ acts
    fun earlier member => before earlier (List.mem_append_left [act] member)
  exact (step_before idle settled (before act (List.mem_append_right acts List.mem_cons_self))).1

end AstrLink.NextRun
