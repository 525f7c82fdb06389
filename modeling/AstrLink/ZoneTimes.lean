import AstrLink.GregorianMonths

/-!
Local times as the standard library reads and makes them. `Table.zone` is the location of a table of
transitions, and `date_eq` says which instant `Zone.date` makes of a local time, also of one that is shown
twice or never.
-/
namespace AstrLink.ZoneTimes
open GregorianMonths (firstOfMonth monthOf monthOf_spec monthOf_iff)

structure Period where
  offset : Int
  start : Option Int
  finish : Option Int

def Period.holds (period : Period) (sec : Int) : Bool :=
  (match period.start with
    | none => true
    | some start => decide (start ≤ sec)) &&
  (match period.finish with
    | none => true
    | some finish => decide (sec < finish))

/-- A location: everywhere in the period that a lookup finds, its offset is in force. -/
structure Zone where
  lookup : Int → Period
  constant : ∀ sec utc, (lookup sec).holds utc = true → (lookup utc).offset = (lookup sec).offset

structure Transition where
  moment : Int
  offset : Int

/-- A table of offset transitions: the offset before the first, and the transitions in order. -/
structure Table where
  first : Int
  transitions : List Transition
  sorted : transitions.Pairwise (fun earlier later => earlier.moment < later.moment)

/-- The last transition that is not after the second decides. -/
def lookupFrom (offset : Int) (start : Option Int) (sec : Int) : List Transition → Period
  | [] => ⟨offset, start, none⟩
  | transition :: rest =>
    if sec < transition.moment then ⟨offset, start, some transition.moment⟩
    else lookupFrom transition.offset (some transition.moment) sec rest

theorem lookupFrom_start {offset moment sec : Int} {transitions : List Transition}
    (sorted : transitions.Pairwise (fun earlier later => earlier.moment < later.moment))
    (after : ∀ later ∈ transitions, moment < later.moment) :
    ∃ start, (lookupFrom offset (some moment) sec transitions).start = some start ∧ moment ≤ start := by
  induction transitions generalizing offset moment with
  | nil => exact ⟨moment, rfl, Int.le_refl moment⟩
  | cons transition rest ih =>
    rw [lookupFrom]
    by_cases before : sec < transition.moment
    · rw [if_pos before]
      exact ⟨moment, rfl, Int.le_refl moment⟩
    · rw [if_neg before]
      have later := after transition List.mem_cons_self
      obtain ⟨start, found, least⟩ := @ih transition.offset _ (List.pairwise_cons.mp sorted).2
        (List.pairwise_cons.mp sorted).1
      exact ⟨start, found, by omega⟩

theorem lookupFrom_constant {offset sec utc : Int} {start : Option Int} {transitions : List Transition}
    (sorted : transitions.Pairwise (fun earlier later => earlier.moment < later.moment))
    (holds : (lookupFrom offset start sec transitions).holds utc = true) :
    (lookupFrom offset start utc transitions).offset = (lookupFrom offset start sec transitions).offset := by
  induction transitions generalizing offset start with
  | nil => rfl
  | cons transition rest ih =>
    rw [lookupFrom] at holds ⊢
    rw [lookupFrom]
    by_cases before : sec < transition.moment
    · rw [if_pos before] at holds ⊢
      simp only [Period.holds, Bool.and_eq_true, decide_eq_true_eq] at holds
      rw [if_pos holds.2]
    · rw [if_neg before] at holds ⊢
      obtain ⟨begun, found, least⟩ := @lookupFrom_start transition.offset _ sec _ (List.pairwise_cons.mp sorted).2
        (List.pairwise_cons.mp sorted).1
      have reached : begun ≤ utc := by
        have start_holds := holds
        simp only [Period.holds, found, Bool.and_eq_true, decide_eq_true_eq] at start_holds
        exact start_holds.1
      rw [if_neg (by omega)]
      exact ih (List.pairwise_cons.mp sorted).2 holds

def Table.zone (table : Table) : Zone where
  lookup sec := lookupFrom table.first none sec table.transitions
  constant _ _ holds := lookupFrom_constant table.sorted holds

/-- A location without transitions. -/
def Table.fixed (offset : Int) : Table := ⟨offset, [], .nil⟩

def utc : Zone := (Table.fixed 0).zone

def secondsPerDay : Int := 86400

namespace Zone

/-- What the clock shows, in seconds. -/
def clock (zone : Zone) (sec : Int) : Int := sec + (zone.lookup sec).offset

def month (zone : Zone) (sec : Int) : Int := monthOf (zone.clock sec / secondsPerDay)

def day (zone : Zone) (sec : Int) : Int := zone.clock sec / secondsPerDay - firstOfMonth (zone.month sec) + 1

def timeOfDay (zone : Zone) (sec : Int) : Int := zone.clock sec % secondsPerDay

def unix (month day second : Int) : Int := secondsPerDay * (firstOfMonth month + day - 1) + second

/-- The instant of a local time, with days outside of their month counted on. -/
def date (zone : Zone) (month day second : Int) : Int :=
  let unix := unix month day second
  let found := zone.lookup unix
  if found.offset ≠ 0 then
    -- The offset at the local time read as UTC, unless it is not in force at the instant it gives.
    let utc := unix - found.offset
    if found.holds utc then unix - found.offset
    else unix - (zone.lookup utc).offset
  else unix

/-- The same local time some months later. -/
def addMonths (zone : Zone) (sec months : Int) : Int :=
  zone.date (zone.month sec + months) (zone.day sec) (zone.timeOfDay sec)

variable {zone : Zone}

theorem date_eq (month day second : Int) :
    zone.date month day second = unix month day second -
      (zone.lookup (unix month day second - (zone.lookup (unix month day second)).offset)).offset := by
  unfold date
  dsimp only
  generalize unix month day second = unix
  by_cases none : (zone.lookup unix).offset = 0
  · rw [if_neg (fun apart => apart none), none, Int.sub_zero, none, Int.sub_zero]
  · rw [if_pos none]
    by_cases holds : (zone.lookup unix).holds (unix - (zone.lookup unix).offset) = true
    · rw [if_pos holds, zone.constant _ _ holds]
    · rw [if_neg holds]

theorem month_eq {sec month : Int} (from_first : secondsPerDay * firstOfMonth month ≤ zone.clock sec)
    (to_next : zone.clock sec < secondsPerDay * firstOfMonth (month + 1)) : zone.month sec = month := by
  unfold secondsPerDay at from_first to_next
  refine monthOf_iff.mpr ⟨?_, ?_⟩
  · unfold secondsPerDay
    omega
  · unfold secondsPerDay
    omega

theorem month_bounds_clock (sec : Int) : secondsPerDay * firstOfMonth (zone.month sec) ≤ zone.clock sec ∧
    zone.clock sec < secondsPerDay * firstOfMonth (zone.month sec + 1) := by
  have spec := monthOf_spec (zone.clock sec / secondsPerDay)
  unfold month
  unfold secondsPerDay at spec ⊢
  omega

end Zone
end AstrLink.ZoneTimes
