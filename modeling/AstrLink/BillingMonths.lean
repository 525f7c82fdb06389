import AstrLink.ZoneTimes

/-!
The billing months of a service. The periods tile the time (`Tiles`) wherever the clock shows the months of
the calendar at the boundaries around the instant (`RoundsClear`); a start that a change of offset moves into
the month before breaks them.
-/
namespace AstrLink.BillingMonths
open GregorianMonths (firstOfMonth monthOf firstOfMonth_succ monthOf_between)
open ZoneTimes
open ZoneTimes.Zone (unix date_eq month_eq)

def nanoseconds : Int := 1000000000

def location (loadLocation : String → Option Zone) (zone : String) : Zone := (loadLocation zone).getD utc

/-- The first second of the billing day of a month, which a shorter month ends with. -/
def boundary (loc : Zone) (day month : Int) : Int :=
  let last := loc.day (loc.date (month + 1) 0 0)
  loc.date month (min day last) 0

/-- The month that the clock shows one calendar month before the first day of a month. -/
def monthBefore (loc : Zone) (month : Int) : Int := loc.month (loc.addMonths (loc.date month 1 0) (-1))

/-- The month that the clock shows one calendar month after the first day of a month. -/
def monthAfter (loc : Zone) (month : Int) : Int := loc.month (loc.addMonths (loc.date month 1 0) 1)

/-- The start and the end of the billing month of an instant, all in nanoseconds. -/
def monthBounds (loadLocation : String → Option Zone) (now day : Int) (zone : String) : Int × Int :=
  let loc := location loadLocation zone
  let shown := loc.month (now / nanoseconds)
  let start := boundary loc day shown
  let start := if now < start * nanoseconds then boundary loc day (monthBefore loc shown) else start
  (start * nanoseconds, boundary loc day (monthAfter loc (loc.month start)) * nanoseconds)

/-- The billing months that the summary of a service walks back over, the newest first. -/
def monthPeriods (loadLocation : String → Option Zone) (day : Int) (zone : String) : Nat → Int → List (Int × Int)
  | 0, _ => []
  | count + 1, anchor =>
    let bounds := monthBounds loadLocation anchor day zone
    bounds :: monthPeriods loadLocation day zone count (bounds.1 - nanoseconds)

example : monthBounds (fun _ => none) (1773532800 * nanoseconds) 31 "UTC" =
    (1772236800 * nanoseconds, 1774915200 * nanoseconds) := by decide +kernel

/-- The bounds at an instant hold it, are those of every instant in them, and follow the month before. -/
structure Tiles (loadLocation : String → Option Zone) (now day : Int) (zone : String) : Prop where
  inside : (monthBounds loadLocation now day zone).1 ≤ now ∧ now < (monthBounds loadLocation now day zone).2
  same : ∀ other, (monthBounds loadLocation now day zone).1 ≤ other →
    other < (monthBounds loadLocation now day zone).2 →
    monthBounds loadLocation other day zone = monthBounds loadLocation now day zone
  earlier : (monthBounds loadLocation ((monthBounds loadLocation now day zone).1 - nanoseconds) day zone).2 =
    (monthBounds loadLocation now day zone).1

/-- The clock shows the billing month of a second, or the next one, from which a month back leads to it. -/
def Shown (loc : Zone) (month sec : Int) : Prop :=
  loc.month sec = month ∨ loc.month sec = month + 1 ∧ monthBefore loc (month + 1) = month

/-- From a second on, the clock shows what the calendar has for a billing month. -/
structure ClearMonth (loc : Zone) (day month since : Int) : Prop where
  order : boundary loc day month < boundary loc day (month + 1)
  begins : loc.month (boundary loc day month) = month
  next : monthAfter loc month = month + 1
  shows : ∀ sec, since ≤ sec → sec < boundary loc day (month + 1) → Shown loc month sec

/-- The month of a second is clear, and so is the month before at its last second. -/
def RoundsClear (loc : Zone) (day sec : Int) : Prop :=
  ∃ month, boundary loc day month ≤ sec ∧ sec < boundary loc day (month + 1) ∧
    ClearMonth loc day month (boundary loc day month) ∧
    ClearMonth loc day (month - 1) (boundary loc day month - 1)

/-- The offsets of a location are less than a day apart. -/
def Narrow (loc : Zone) : Prop := ∀ sec other, (loc.lookup sec).offset - (loc.lookup other).offset < secondsPerDay

def startSecond (loc : Zone) (day sec : Int) : Int :=
  if sec < boundary loc day (loc.month sec) then boundary loc day (monthBefore loc (loc.month sec))
  else boundary loc day (loc.month sec)

def endSecond (loc : Zone) (day start : Int) : Int := boundary loc day (monthAfter loc (loc.month start))

variable {loadLocation : String → Option Zone} {loc : Zone} {zone : String} {now day month sec since : Int}

theorem monthBounds_eq : monthBounds loadLocation now day zone =
    (startSecond (location loadLocation zone) day (now / nanoseconds) * nanoseconds,
      endSecond (location loadLocation zone) day (startSecond (location loadLocation zone) day (now / nanoseconds)) *
        nanoseconds) := by
  unfold monthBounds startSecond endSecond
  dsimp only
  generalize location loadLocation zone = loc
  generalize boundary loc day (loc.month (now / nanoseconds)) = start
  by_cases before : now / nanoseconds < start
  · have after : now < start * nanoseconds := by
      unfold nanoseconds at before ⊢
      omega
    rw [if_pos before, if_pos after]
  · have begun : ¬ now < start * nanoseconds := by
      unfold nanoseconds at before ⊢
      omega
    rw [if_neg before, if_neg begun]

theorem le_second_iff {start : Int} : start * nanoseconds ≤ now ↔ start ≤ now / nanoseconds := by
  unfold nanoseconds
  omega

theorem second_lt_iff {finish : Int} : now < finish * nanoseconds ↔ now / nanoseconds < finish := by
  unfold nanoseconds
  omega

theorem second_before (start : Int) : (start * nanoseconds - nanoseconds) / nanoseconds = start - 1 := by
  unfold nanoseconds
  omega

theorem second_of (start : Int) : start * nanoseconds / nanoseconds = start := by
  unfold nanoseconds
  omega

structure TilesAt (loc : Zone) (day sec : Int) : Prop where
  inside : startSecond loc day sec ≤ sec ∧ sec < endSecond loc day (startSecond loc day sec)
  same : ∀ other, startSecond loc day sec ≤ other → other < endSecond loc day (startSecond loc day sec) →
    startSecond loc day other = startSecond loc day sec
  earlier : endSecond loc day (startSecond loc day (startSecond loc day sec - 1)) = startSecond loc day sec

theorem tiles_iff : Tiles loadLocation now day zone ↔ TilesAt (location loadLocation zone) day (now / nanoseconds) := by
  constructor
  · rintro ⟨inside, same, earlier⟩
    rw [monthBounds_eq] at inside same earlier
    dsimp only at inside same earlier
    rw [le_second_iff, second_lt_iff] at inside
    refine ⟨inside, ?_, ?_⟩
    · intro other from_start to_end
      have bounds := same (other * nanoseconds)
        (le_second_iff.mpr (by rwa [second_of])) (second_lt_iff.mpr (by rwa [second_of]))
      rw [monthBounds_eq, second_of, Prod.mk.injEq] at bounds
      have starts := bounds.1
      unfold nanoseconds at starts ⊢
      omega
    · rw [monthBounds_eq, second_before] at earlier
      dsimp only at earlier
      unfold nanoseconds at earlier ⊢
      omega
  · rintro ⟨inside, same, earlier⟩
    refine ⟨?_, ?_, ?_⟩
    · rw [monthBounds_eq]
      exact ⟨le_second_iff.mpr inside.1, second_lt_iff.mpr inside.2⟩
    · intro other from_start to_end
      rw [monthBounds_eq] at from_start to_end ⊢
      have start := same (other / nanoseconds) (le_second_iff.mp from_start) (second_lt_iff.mp to_end)
      rw [monthBounds_eq, start]
    · rw [monthBounds_eq]
      dsimp only
      rw [monthBounds_eq, second_before, earlier]

/-! ### Clear months tile the time -/

theorem startSecond_of_shown (from_start : boundary loc day month ≤ sec) (to_end : sec < boundary loc day (month + 1))
    (shown : Shown loc month sec) : startSecond loc day sec = boundary loc day month := by
  unfold startSecond
  rcases shown with here | ⟨next, back⟩
  · rw [here, if_neg (Int.not_lt.mpr from_start)]
  · rw [next, if_pos to_end, back]

theorem ClearMonth.start_eq (clear : ClearMonth loc day month since) (from_since : since ≤ sec)
    (from_start : boundary loc day month ≤ sec) (to_end : sec < boundary loc day (month + 1)) :
    startSecond loc day sec = boundary loc day month :=
  startSecond_of_shown from_start to_end (clear.shows sec from_since to_end)

theorem ClearMonth.end_eq (clear : ClearMonth loc day month since) :
    endSecond loc day (boundary loc day month) = boundary loc day (month + 1) := by
  rw [endSecond, clear.begins, clear.next]

theorem tilesAt_of_clear (clear : RoundsClear loc day sec) : TilesAt loc day sec := by
  obtain ⟨month, from_start, to_end, here, before⟩ := clear
  have start := here.start_eq from_start from_start to_end
  have order := before.order
  rw [Int.sub_add_cancel] at order
  have earlier : startSecond loc day (boundary loc day month - 1) = boundary loc day (month - 1) :=
    before.start_eq (Int.le_refl _) (by omega) (by rw [Int.sub_add_cancel]; omega)
  refine ⟨?_, ?_, ?_⟩
  · rw [start, here.end_eq]
    exact ⟨from_start, to_end⟩
  · rw [start, here.end_eq]
    intro other from_start to_end
    exact here.start_eq from_start from_start to_end
  · rw [start, earlier, before.end_eq, Int.sub_add_cancel]

theorem monthPeriods_eq (count : Nat)
    (clear : ∀ back : Nat, back ≤ count → ClearMonth (location loadLocation zone) day (month - back)
      (boundary (location loadLocation zone) day (month - back)))
    (from_start : boundary (location loadLocation zone) day month ≤ now / nanoseconds)
    (to_end : now / nanoseconds < boundary (location loadLocation zone) day (month + 1)) :
    monthPeriods loadLocation day zone count now = (List.range count).map fun back : Nat =>
      (boundary (location loadLocation zone) day (month - back) * nanoseconds,
        boundary (location loadLocation zone) day (month - back + 1) * nanoseconds) := by
  induction count generalizing now month with
  | zero => rfl
  | succ count ih =>
    have here := clear 0 (Nat.zero_le _)
    rw [Int.ofNat_zero, Int.sub_zero] at here
    have before := clear 1 (Nat.succ_le_succ (Nat.zero_le count))
    have order := before.order
    rw [Int.ofNat_one, Int.sub_add_cancel] at order
    have bounds : monthBounds loadLocation now day zone =
        (boundary (location loadLocation zone) day month * nanoseconds,
          boundary (location loadLocation zone) day (month + 1) * nanoseconds) := by
      rw [monthBounds_eq, here.start_eq from_start from_start to_end, here.end_eq]
    rw [monthPeriods, bounds]
    dsimp only
    rw [@ih _ (month - 1) (fun back within => ?shifted) (by rw [second_before]; omega)
      (by rw [second_before, Int.sub_add_cancel]; omega), List.range_succ_eq_map, List.map_cons, List.map_map]
    case shifted =>
      have further := clear (back + 1) (Nat.succ_le_succ within)
      have shift : month - ((back + 1 : Nat) : Int) = month - 1 - back := by omega
      rwa [shift] at further
    refine congrArg₂ List.cons ?_ (List.map_congr_left fun back _ => ?_)
    · rw [Int.ofNat_zero, Int.sub_zero]
    · have shift : month - ((back + 1 : Nat) : Int) = month - 1 - back := by omega
      rw [Function.comp, shift]

/-! ### Locations whose offsets are near each other -/

namespace Narrow

theorem clock_date (narrow : Narrow loc) (month day second other : Int) :
    unix month day second - secondsPerDay < loc.date month day second + (loc.lookup other).offset ∧
      loc.date month day second + (loc.lookup other).offset < unix month day second + secondsPerDay := by
  rw [date_eq]
  generalize (unix month day second - (loc.lookup (unix month day second)).offset) = near
  have below := narrow near other
  have above := narrow other near
  omega

theorem dayNumber_date (narrow : Narrow loc) (month day : Int) {second : Int} (early : 0 ≤ second)
    (late : second < secondsPerDay) :
    firstOfMonth month + day - 2 ≤ loc.clock (loc.date month day second) / secondsPerDay ∧
      loc.clock (loc.date month day second) / secondsPerDay ≤ firstOfMonth month + day := by
  have near := narrow.clock_date month day second (loc.date month day second)
  unfold Zone.clock
  unfold unix at near
  unfold secondsPerDay at near late ⊢
  omega

theorem dayNumber_midnight (narrow : Narrow loc) (month day : Int) :
    firstOfMonth month + day - 2 ≤ loc.clock (loc.date month day 0) / secondsPerDay ∧
      loc.clock (loc.date month day 0) / secondsPerDay ≤ firstOfMonth month + day - 1 := by
  have near := narrow.clock_date month day 0 (loc.date month day 0)
  unfold Zone.clock
  unfold unix at near
  unfold secondsPerDay at near ⊢
  omega

theorem timeOfDay_bounds (sec : Int) : 0 ≤ loc.timeOfDay sec ∧ loc.timeOfDay sec < secondsPerDay := by
  unfold Zone.timeOfDay secondsPerDay
  omega

section
variable (narrow : Narrow loc)
include narrow

theorem first_cases (month : Int) :
    (loc.month (loc.date month 1 0) = month ∧ loc.day (loc.date month 1 0) = 1) ∨
      (loc.month (loc.date month 1 0) = month - 1 ∧
        loc.day (loc.date month 1 0) = firstOfMonth month - firstOfMonth (month - 1)) := by
  have near := narrow.dayNumber_midnight month 1
  have length := firstOfMonth_succ (month - 1)
  have next := firstOfMonth_succ month
  rw [Int.sub_add_cancel] at length
  unfold Zone.day Zone.month
  generalize loc.clock (loc.date month 1 0) / secondsPerDay = shown at near
  by_cases on_first : shown = firstOfMonth month
  · left
    have between := @monthOf_between shown month (month + 1) (by omega) (by omega)
    have here : monthOf shown = month := by omega
    rw [here]
    omega
  · right
    have between := @monthOf_between shown (month - 1) month (by omega) (by omega)
    have here : monthOf shown = month - 1 := by omega
    rw [here]
    omega

theorem monthAfter_cases (month : Int) :
    monthAfter loc month = month ∨ monthAfter loc month = month + 1 := by
  have bounds := @timeOfDay_bounds loc (loc.date month 1 0)
  have length := firstOfMonth_succ (month - 1)
  have here := firstOfMonth_succ month
  have next := firstOfMonth_succ (month + 1)
  rw [Int.sub_add_cancel] at length
  unfold monthAfter Zone.addMonths
  rcases narrow.first_cases month with ⟨shown, on_day⟩ | ⟨shown, on_day⟩
  · rw [shown, on_day]
    have near := narrow.dayNumber_date (month + 1) 1 bounds.1 bounds.2
    have between := @monthOf_between _ month (month + 1 + 1) (Int.le_trans (by omega) near.1)
      (Int.lt_of_le_of_lt near.2 (by omega))
    unfold Zone.month
    omega
  · rw [shown, on_day, Int.sub_add_cancel]
    have near := narrow.dayNumber_date month (firstOfMonth month - firstOfMonth (month - 1)) bounds.1 bounds.2
    have between := @monthOf_between _ month (month + 1 + 1) (Int.le_trans (by omega) near.1)
      (Int.lt_of_le_of_lt near.2 (by omega))
    unfold Zone.month
    omega

theorem monthBefore_cases (month : Int) :
    monthBefore loc month = month - 2 ∨ monthBefore loc month = month - 1 := by
  have bounds := @timeOfDay_bounds loc (loc.date month 1 0)
  have before := firstOfMonth_succ (month - 2)
  have length := firstOfMonth_succ (month - 1)
  have step : month - 2 + 1 = month - 1 := by omega
  rw [Int.sub_add_cancel] at length
  rw [step] at before
  unfold monthBefore Zone.addMonths
  rcases narrow.first_cases month with ⟨shown, on_day⟩ | ⟨shown, on_day⟩
  · rw [shown, on_day, ← Int.sub_eq_add_neg]
    have near := narrow.dayNumber_date (month - 1) 1 bounds.1 bounds.2
    have between := @monthOf_between _ (month - 2) month (Int.le_trans (by omega) near.1)
      (Int.lt_of_le_of_lt near.2 (by omega))
    unfold Zone.month
    omega
  · have back : month - 1 + -1 = month - 2 := by omega
    rw [shown, on_day, back]
    have near := narrow.dayNumber_date (month - 2) (firstOfMonth month - firstOfMonth (month - 1)) bounds.1 bounds.2
    have between := @monthOf_between _ (month - 2) month (Int.le_trans (by omega) near.1)
      (Int.lt_of_le_of_lt near.2 (by omega))
    unfold Zone.month
    omega

section
variable (least : 1 ≤ day)
include least

theorem boundary_date (month : Int) :
    ∃ on_day, boundary loc day month = loc.date month on_day 0 ∧ 1 ≤ on_day ∧ on_day ≤ day ∧
      on_day ≤ firstOfMonth (month + 1) - firstOfMonth month ∧ (on_day = day ∨ 27 ≤ on_day) := by
  have near := narrow.dayNumber_midnight (month + 1) 0
  have length := firstOfMonth_succ month
  refine ⟨min day (loc.day (loc.date (month + 1) 0 0)), rfl, ?_⟩
  unfold Zone.day Zone.month
  generalize loc.clock (loc.date (month + 1) 0 0) / secondsPerDay = shown at near
  have between := @monthOf_between shown month (month + 1) (by omega) (by omega)
  have here : monthOf shown = month := by omega
  rw [here]
  omega

theorem boundary_bounds (month other : Int) :
    secondsPerDay * (firstOfMonth month - 1) < boundary loc day month + (loc.lookup other).offset ∧
      boundary loc day month + (loc.lookup other).offset < secondsPerDay * firstOfMonth (month + 1) := by
  obtain ⟨on_day, found, first, -, last, -⟩ := narrow.boundary_date least month
  have near := narrow.clock_date month on_day 0 other
  rw [found]
  unfold unix at near
  unfold secondsPerDay at near ⊢
  omega

theorem boundary_succ (month : Int) :
    boundary loc day month < boundary loc day (month + 1) := by
  obtain ⟨on_day, found, first, here, last, either⟩ := narrow.boundary_date least month
  obtain ⟨next_day, next_found, next_first, next_here, next_last, next_either⟩ := narrow.boundary_date least (month + 1)
  have length := firstOfMonth_succ month
  have near := narrow.clock_date month on_day 0 0
  have next_near := narrow.clock_date (month + 1) next_day 0 0
  rw [found, next_found]
  unfold unix at near next_near
  unfold secondsPerDay at near next_near
  omega

theorem boundary_mono {month later : Int} (order : month ≤ later) :
    boundary loc day month ≤ boundary loc day later := by
  obtain ⟨gap, rfl⟩ := Int.exists_add_of_le order
  induction gap with
  | zero => exact Int.le_of_eq (by rw [Int.ofNat_zero, Int.add_zero])
  | succ gap ih =>
    have rest := ih (by omega)
    have step := narrow.boundary_succ least (month + gap)
    rw [Int.natCast_succ, ← Int.add_assoc]
    omega

theorem boundary_lt_iff {month later : Int} :
    boundary loc day month < boundary loc day later ↔ month < later := by
  constructor
  · intro before
    refine Int.not_le.mp fun order => ?_
    have back := narrow.boundary_mono least order
    omega
  · intro before
    have step := narrow.boundary_succ least month
    have rest := narrow.boundary_mono least (Int.add_one_le_of_lt before)
    omega

theorem boundary_inj {month other : Int}
    (same : boundary loc day month = boundary loc day other) : month = other := by
  have below := @Narrow.boundary_lt_iff loc day narrow least month other
  have above := @Narrow.boundary_lt_iff loc day narrow least other month
  omega

theorem month_near (from_start : boundary loc day month - 1 ≤ sec)
    (to_end : sec < boundary loc day (month + 1)) : month - 1 ≤ loc.month sec ∧ loc.month sec ≤ month + 1 := by
  have low := narrow.boundary_bounds least month sec
  have high := narrow.boundary_bounds least (month + 1) sec
  have length := firstOfMonth_succ (month - 1)
  rw [Int.sub_add_cancel] at length
  have between := @monthOf_between (loc.clock sec / secondsPerDay) (month - 1) (month + 1 + 1)
    (by unfold Zone.clock; unfold secondsPerDay at *; omega) (by unfold Zone.clock; unfold secondsPerDay at *; omega)
  unfold Zone.month
  omega

theorem month_start (from_start : boundary loc day month - 1 ≤ sec)
    (to_start : sec ≤ boundary loc day month) : month - 1 ≤ loc.month sec ∧ loc.month sec ≤ month := by
  have near := narrow.boundary_bounds least month sec
  have length := firstOfMonth_succ (month - 1)
  rw [Int.sub_add_cancel] at length
  have between := @monthOf_between (loc.clock sec / secondsPerDay) (month - 1) (month + 1)
    (by unfold Zone.clock; unfold secondsPerDay at *; omega) (by unfold Zone.clock; unfold secondsPerDay at *; omega)
  unfold Zone.month
  omega

theorem start_fixed (fixed : startSecond loc day sec = sec) :
    sec = boundary loc day (loc.month sec) := by
  unfold startSecond at fixed
  by_cases before : sec < boundary loc day (loc.month sec)
  · rw [if_pos before] at fixed
    have back := narrow.monthBefore_cases (loc.month sec)
    have shown := @Narrow.month_start loc day (monthBefore loc (loc.month sec)) sec narrow least (by omega) (by omega)
    omega
  · rw [if_neg before] at fixed
    exact fixed.symm

theorem clear_before
    (earlier : endSecond loc day (startSecond loc day (boundary loc day month - 1)) = boundary loc day month) :
    ClearMonth loc day (month - 1) (boundary loc day month - 1) := by
  have order := narrow.boundary_succ least (month - 1)
  rw [Int.sub_add_cancel] at order
  have shown := @Narrow.month_start loc day month (boundary loc day month - 1) narrow least (Int.le_refl _) (by omega)
  -- The month whose boundary is the start that is found before, and what the clock shows there.
  have found : ∃ other, startSecond loc day (boundary loc day month - 1) = boundary loc day other ∧
      other ≤ month - 1 ∧ (other = month - 1 → Shown loc (month - 1) (boundary loc day month - 1)) := by
    unfold startSecond
    by_cases here : loc.month (boundary loc day month - 1) = month
    · rw [here, if_pos (by omega)]
      have back := narrow.monthBefore_cases month
      refine ⟨monthBefore loc month, rfl, by omega, fun same => .inr ⟨?_, ?_⟩⟩
      · rw [here, Int.sub_add_cancel]
      · rw [Int.sub_add_cancel, same]
    · have before : loc.month (boundary loc day month - 1) = month - 1 := by omega
      rw [before, if_neg (by omega)]
      exact ⟨month - 1, rfl, Int.le_refl _, fun _ => .inl before⟩
  obtain ⟨other, start, at_most, shows⟩ := found
  rw [start, endSecond] at earlier
  have next := narrow.boundary_inj least earlier
  have at_start := @Narrow.month_start loc day other (boundary loc day other) narrow least (by omega) (Int.le_refl _)
  have after := narrow.monthAfter_cases (loc.month (boundary loc day other))
  have same : other = month - 1 := by omega
  subst same
  have begins : loc.month (boundary loc day (month - 1)) = month - 1 := by omega
  refine ⟨?_, begins, ?_, ?_⟩
  · rw [Int.sub_add_cancel]
    exact order
  · rw [Int.sub_add_cancel, ← begins, next]
  · intro sec since to_end
    rw [Int.sub_add_cancel] at to_end
    have only : sec = boundary loc day month - 1 := by omega
    rw [only]
    exact shows rfl

theorem clear_of_tilesAt (tiles : TilesAt loc day sec) :
    RoundsClear loc day sec := by
  obtain ⟨inside, same, earlier⟩ := tiles
  have fixed := same _ (Int.le_refl _) (Int.lt_of_le_of_lt inside.1 inside.2)
  have start := narrow.start_fixed least fixed
  have begins : loc.month (boundary loc day (loc.month (startSecond loc day sec))) =
      loc.month (startSecond loc day sec) := by
    rw [← start]
  generalize loc.month (startSecond loc day sec) = month at start begins
  rw [start] at inside same earlier
  have finish : endSecond loc day (boundary loc day month) = boundary loc day (monthAfter loc month) := by
    rw [endSecond, begins]
  rw [finish] at inside same
  have later := (narrow.boundary_lt_iff least).mp (Int.lt_of_le_of_lt inside.1 inside.2)
  have next : monthAfter loc month = month + 1 := by
    have cases := narrow.monthAfter_cases month
    omega
  rw [next] at inside same
  refine ⟨month, inside.1, inside.2, ⟨narrow.boundary_succ least month, begins, next, ?_⟩,
    narrow.clear_before least earlier⟩
  intro other from_start to_end
  have shown := @Narrow.month_near loc day month other narrow least (by omega) to_end
  have found := same other from_start to_end
  unfold startSecond at found
  by_cases before : other < boundary loc day (loc.month other)
  · rw [if_pos before] at found
    have after := (narrow.boundary_lt_iff least).mp (Int.lt_of_le_of_lt from_start before)
    have here : loc.month other = month + 1 := by omega
    rw [here] at found
    exact .inr ⟨here, narrow.boundary_inj least found⟩
  · rw [if_neg before] at found
    exact .inl (narrow.boundary_inj least found)

end

end

end Narrow

/-! ### Locations without transitions -/

theorem clear_of_fixed (fixed : ∀ sec other, (loc.lookup sec).offset = (loc.lookup other).offset) (least : 1 ≤ day)
    (month since : Int) (from_start : boundary loc day month ≤ since) : ClearMonth loc day month since := by
  have narrow : Narrow loc := by
    intro sec other
    rw [fixed sec other, Int.sub_self]
    decide
  have clock : ∀ month on_day second, loc.clock (loc.date month on_day second) = unix month on_day second := by
    intro month on_day second
    rw [date_eq, Zone.clock, fixed (unix month on_day second - _) 0, fixed (_ - _) 0]
    omega
  have first : ∀ month, loc.month (loc.date month 1 0) = month ∧ loc.day (loc.date month 1 0) = 1 ∧
      loc.timeOfDay (loc.date month 1 0) = 0 := by
    intro month
    have length := firstOfMonth_succ month
    have here : loc.month (loc.date month 1 0) = month := by
      refine month_eq ?_ ?_ <;> rw [clock] <;> unfold unix secondsPerDay <;> omega
    unfold Zone.day Zone.timeOfDay
    rw [here, clock]
    unfold unix secondsPerDay
    omega
  have steps : ∀ month months, loc.month (loc.addMonths (loc.date month 1 0) months) = month + months := by
    intro month months
    rw [Zone.addMonths, (first month).1, (first month).2.1, (first month).2.2]
    exact (first (month + months)).1
  have before : monthBefore loc (month + 1) = month := by
    rw [monthBefore, steps]
    omega
  have starts : ∀ month, secondsPerDay * firstOfMonth month ≤ loc.clock (boundary loc day month) ∧
      loc.clock (boundary loc day month) < secondsPerDay * firstOfMonth (month + 1) := by
    intro month
    obtain ⟨on_day, found, one, -, last, -⟩ := narrow.boundary_date least month
    rw [found, clock]
    unfold unix secondsPerDay
    omega
  refine ⟨narrow.boundary_succ least month, month_eq (starts month).1 (starts month).2, steps month 1, ?_⟩
  intro sec from_since to_end
  have offset := fixed sec (boundary loc day month)
  have next_offset := fixed sec (boundary loc day (month + 1))
  have low := (starts month).1
  have high := (starts (month + 1)).2
  unfold Zone.clock at low high
  by_cases here : loc.clock sec < secondsPerDay * firstOfMonth (month + 1)
  · left
    refine month_eq ?_ here
    unfold Zone.clock
    omega
  · right
    refine ⟨month_eq (Int.not_lt.mp here) ?_, before⟩
    unfold Zone.clock
    omega

theorem exists_month (narrow : Narrow loc) (least : 1 ≤ day) (sec : Int) :
    ∃ month, boundary loc day month ≤ sec ∧ sec < boundary loc day (month + 1) := by
  have around : boundary loc day (loc.month sec - 1) ≤ sec ∧ sec < boundary loc day (loc.month sec + 1 + 1) := by
    have shown := @Zone.month_bounds_clock loc sec
    have low := narrow.boundary_bounds least (loc.month sec - 1) sec
    have high := narrow.boundary_bounds least (loc.month sec + 1 + 1) sec
    have length := firstOfMonth_succ (loc.month sec + 1)
    rw [Int.sub_add_cancel] at low
    unfold Zone.clock at shown
    unfold secondsPerDay at *
    omega
  by_cases here : sec < boundary loc day (loc.month sec)
  · refine ⟨loc.month sec - 1, around.1, ?_⟩
    rw [Int.sub_add_cancel]
    exact here
  · by_cases next : sec < boundary loc day (loc.month sec + 1)
    · exact ⟨loc.month sec, Int.not_lt.mp here, next⟩
    · exact ⟨loc.month sec + 1, Int.not_lt.mp next, around.2⟩

theorem roundsClear_of_fixed (fixed : ∀ sec other, (loc.lookup sec).offset = (loc.lookup other).offset)
    (least : 1 ≤ day) (sec : Int) : RoundsClear loc day sec := by
  have narrow : Narrow loc := by
    intro sec other
    rw [fixed sec other, Int.sub_self]
    decide
  obtain ⟨month, from_start, to_end⟩ := exists_month narrow least sec
  have order := narrow.boundary_succ least (month - 1)
  rw [Int.sub_add_cancel] at order
  exact ⟨month, from_start, to_end, clear_of_fixed fixed least _ _ (Int.le_refl _),
    clear_of_fixed fixed least _ _ (by omega)⟩

/-! ### Billing months tile time where the clock is clear -/

/-- The billing months tile the time around an instant where the clock is clear there; where the offsets of the
location are less than a day apart, they do so nowhere else. A walk back over clear months finds them one after the
other. -/
theorem month_bounds (loadLocation : String → Option Zone) (now day : Int) (zone : String) (least : 1 ≤ day) :
    (RoundsClear (location loadLocation zone) day (now / nanoseconds) → Tiles loadLocation now day zone) ∧
      (Narrow (location loadLocation zone) →
        (Tiles loadLocation now day zone ↔ RoundsClear (location loadLocation zone) day (now / nanoseconds))) ∧
      ∀ (month : Int) (count : Nat),
        (∀ back : Nat, back ≤ count → ClearMonth (location loadLocation zone) day (month - back)
          (boundary (location loadLocation zone) day (month - back))) →
        boundary (location loadLocation zone) day month ≤ now / nanoseconds →
        now / nanoseconds < boundary (location loadLocation zone) day (month + 1) →
        monthPeriods loadLocation day zone count now = (List.range count).map fun back : Nat =>
          (boundary (location loadLocation zone) day (month - back) * nanoseconds,
            boundary (location loadLocation zone) day (month - back + 1) * nanoseconds) := by
  have enough : RoundsClear (location loadLocation zone) day (now / nanoseconds) →
      Tiles loadLocation now day zone := fun clear => tiles_iff.mpr (tilesAt_of_clear clear)
  refine ⟨enough, fun narrow => ⟨fun tiles => ?_, enough⟩, fun month count clear from_start to_end => ?_⟩
  · exact narrow.clear_of_tilesAt least (tiles_iff.mp tiles)
  · exact monthPeriods_eq count clear from_start to_end

/-- The fifteenth of March 2026 in UTC, with bills on the last day of a month. -/
theorem month_bounds_utc :
    Tiles (fun _ => none) (1773532800 * nanoseconds) 31 "UTC" ∧
      RoundsClear utc 31 1773532800 ∧ Narrow utc ∧
      monthPeriods (fun _ => none) 31 "UTC" 3 (1773532800 * nanoseconds) =
        [(1772236800 * nanoseconds, 1774915200 * nanoseconds), (1769817600 * nanoseconds, 1772236800 * nanoseconds),
          (1767139200 * nanoseconds, 1769817600 * nanoseconds)] :=
  have fixed : ∀ sec other, (utc.lookup sec).offset = (utc.lookup other).offset := fun _ _ => rfl
  have narrow : Narrow utc := fun sec other => by rw [fixed sec other, Int.sub_self]; decide
  have clear : RoundsClear utc 31 1773532800 := roundsClear_of_fixed fixed (by decide) 1773532800
  have parts := month_bounds (fun _ => none) (1773532800 * nanoseconds) 31 "UTC" (by decide)
  ⟨(parts.2.1 narrow).mpr clear, clear, narrow,
    (parts.2.2 24313 3 (fun back _ => clear_of_fixed fixed (by decide) _ _ (Int.le_refl _)) (by decide +kernel)
      (by decide +kernel)).trans (by decide +kernel)⟩

/-- Asunción, whose clock skipped the first hour of October 2017 and went back in March 2018. -/
def asuncion : Table where
  first := -4 * 3600
  transitions := [⟨1506830400, -3 * 3600⟩, ⟨1521946800, -4 * 3600⟩]
  sorted := by decide

/-- On the twentieth of October 2017 the billing month that starts on the first ends before it starts: its start is
an hour before the end of September, so that the month after its month starts there as well. -/
theorem midnight_skipped :
    monthBounds (fun _ => some asuncion.zone) (1508457600 * nanoseconds) 1 "America/Asuncion" =
        (1506826800 * nanoseconds, 1504238400 * nanoseconds) ∧
      ¬ ∀ (loadLocation : String → Option Zone) (now day : Int) (zone : String), 1 ≤ day → day ≤ 31 →
        Tiles loadLocation now day zone := by
  have bounds : monthBounds (fun _ => some asuncion.zone) (1508457600 * nanoseconds) 1 "America/Asuncion" =
      (1506826800 * nanoseconds, 1504238400 * nanoseconds) := by decide +kernel
  refine ⟨bounds, fun always => ?_⟩
  have inside := (always (fun _ => some asuncion.zone) (1508457600 * nanoseconds) 1 "America/Asuncion" (by decide)
    (by decide)).inside.2
  rw [bounds] at inside
  exact absurd inside (by decide)

end AstrLink.BillingMonths
