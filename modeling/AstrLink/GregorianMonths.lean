import Mathlib.Algebra.Ring.Int.Defs

/-!
The months of the Gregorian calendar. A month is a number, twelve for each year from
January of the year 0 on, and a day is a number from the first of January 1970 on. Each
day lies in one month (`monthOf_iff`).
-/
namespace AstrLink.GregorianMonths

def daysBeforeYear (year : Int) : Int := 365 * year + (year + 3) / 4 - (year + 99) / 100 + (year + 399) / 400

def leapDay (year : Int) : Int := if year % 4 = 0 ∧ (year % 100 ≠ 0 ∨ year % 400 = 0) then 1 else 0

def daysBeforeMonth (month leap : Int) : Int :=
  if month = 0 then 0
  else if month = 1 then 31
  else if month = 2 then 59 + leap
  else if month = 3 then 90 + leap
  else if month = 4 then 120 + leap
  else if month = 5 then 151 + leap
  else if month = 6 then 181 + leap
  else if month = 7 then 212 + leap
  else if month = 8 then 243 + leap
  else if month = 9 then 273 + leap
  else if month = 10 then 304 + leap
  else 334 + leap

def epochDays : Int := 719528

def firstOfMonth (month : Int) : Int :=
  daysBeforeYear (month / 12) + daysBeforeMonth (month % 12) (leapDay (month / 12)) - epochDays

/-- A month has 146097 / 4800 days on average, and none begins a month from there. -/
def monthOf (day : Int) : Int :=
  let near := (day + epochDays) * 4800 / 146097
  if day < firstOfMonth near then near - 1
  else if firstOfMonth (near + 1) ≤ day then near + 1
  else near

theorem leapDay_cases (year : Int) : leapDay year = 0 ∨ leapDay year = 1 := by
  unfold leapDay
  split
  · exact .inr rfl
  · exact .inl rfl

theorem daysBeforeYear_succ (year : Int) : daysBeforeYear (year + 1) = daysBeforeYear year + 365 + leapDay year := by
  unfold daysBeforeYear leapDay
  split <;> omega

theorem monthOfYear_cases (month : Int) : month % 12 = 0 ∨ month % 12 = 1 ∨ month % 12 = 2 ∨ month % 12 = 3 ∨ month % 12 = 4 ∨
    month % 12 = 5 ∨ month % 12 = 6 ∨ month % 12 = 7 ∨ month % 12 = 8 ∨ month % 12 = 9 ∨ month % 12 = 10 ∨ month % 12 = 11 := by
  omega

theorem firstOfMonth_succ (month : Int) :
    firstOfMonth month + 28 ≤ firstOfMonth (month + 1) ∧ firstOfMonth (month + 1) ≤ firstOfMonth month + 31 := by
  unfold firstOfMonth
  have leap := leapDay_cases (month / 12)
  rcases monthOfYear_cases month with at_month | at_month | at_month | at_month | at_month | at_month | at_month | at_month |
    at_month | at_month | at_month | at_month
  case inr.inr.inr.inr.inr.inr.inr.inr.inr.inr.inr =>
    have year : (month + 1) / 12 = month / 12 + 1 := by omega
    have next : (month + 1) % 12 = 0 := by omega
    rw [year, next, at_month, daysBeforeYear_succ]
    simp [daysBeforeMonth]
    omega
  all_goals
    have year : (month + 1) / 12 = month / 12 := by omega
    have next : (month + 1) % 12 = month % 12 + 1 := by omega
    rw [year, next, at_month]
    simp [daysBeforeMonth]
    omega

theorem firstOfMonth_lt {month later : Int} (before : month < later) : firstOfMonth month < firstOfMonth later := by
  obtain ⟨gap, rfl⟩ := Int.exists_add_of_le (Int.add_one_le_of_lt before)
  induction gap with
  | zero =>
    have step := firstOfMonth_succ month
    rw [Int.ofNat_zero, Int.add_zero]
    omega
  | succ gap ih =>
    have step := firstOfMonth_succ (month + 1 + gap)
    have rest := ih (by omega)
    rw [Int.natCast_succ, ← Int.add_assoc]
    omega

theorem firstOfMonth_near (month : Int) :
    146097 * month - 146096 ≤ 4800 * (firstOfMonth month + epochDays) ∧
      4800 * (firstOfMonth month + epochDays) ≤ 146097 * month + 146096 := by
  unfold firstOfMonth daysBeforeYear
  have leap := leapDay_cases (month / 12)
  rcases monthOfYear_cases month with at_month | at_month | at_month | at_month | at_month | at_month | at_month | at_month |
    at_month | at_month | at_month | at_month
  all_goals
    rw [at_month]
    simp [daysBeforeMonth]
    omega

theorem monthOf_spec (day : Int) : firstOfMonth (monthOf day) ≤ day ∧ day < firstOfMonth (monthOf day + 1) := by
  unfold monthOf
  dsimp only
  have near : 146097 * ((day + epochDays) * 4800 / 146097) ≤ (day + epochDays) * 4800 ∧
      (day + epochDays) * 4800 < 146097 * ((day + epochDays) * 4800 / 146097) + 146097 := by
    omega
  generalize (day + epochDays) * 4800 / 146097 = month at near
  have before := firstOfMonth_near (month - 1)
  have after := firstOfMonth_near (month + 1 + 1)
  by_cases early : day < firstOfMonth month
  · rw [if_pos early, Int.sub_add_cancel]
    omega
  · rw [if_neg early]
    by_cases late : firstOfMonth (month + 1) ≤ day
    · rw [if_pos late]
      omega
    · rw [if_neg late]
      omega

theorem firstOfMonth_mono {month later : Int} (order : month ≤ later) : firstOfMonth month ≤ firstOfMonth later := by
  rcases Int.lt_or_eq_of_le order with before | rfl
  · exact Int.le_of_lt (firstOfMonth_lt before)
  · exact Int.le_refl _

theorem monthOf_between {day low high : Int} (from_low : firstOfMonth low ≤ day) (to_high : day < firstOfMonth high) :
    low ≤ monthOf day ∧ monthOf day < high := by
  have spec := monthOf_spec day
  constructor
  · refine Int.not_lt.mp fun below => ?_
    have order := firstOfMonth_mono (Int.add_one_le_of_lt below)
    omega
  · refine Int.not_le.mp fun above => ?_
    have order := firstOfMonth_mono above
    omega

theorem monthOf_iff {day month : Int} : monthOf day = month ↔ firstOfMonth month ≤ day ∧ day < firstOfMonth (month + 1) := by
  have spec := monthOf_spec day
  constructor
  · rintro rfl
    exact spec
  · rintro ⟨from_first, to_next⟩
    have between := monthOf_between from_first to_next
    omega

end AstrLink.GregorianMonths
