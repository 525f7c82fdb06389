import AstrLink.CronFields

/-!
Cron schedules. An expression of five fields, or six with leading seconds, is
read field by field. The next run is found by stepping through the minutes, or
seconds, after a start in the location of the start.
-/
namespace AstrLink.CronSchedule
open CronFields List
open Normalizing (isSpace trimSpace)

structure Expression where
  raw : Text
  secs : List Bool
  mins : List Bool
  hour : List Bool
  dom : List Bool
  mon : List Bool
  dow : List Bool
  hasSeconds : Bool
  domRestricted : Bool
  dowRestricted : Bool
  deriving DecidableEq

inductive CronError where
  | fieldCount (got : Nat)
  | field (label : String) (failure : FieldFailure)
  deriving DecidableEq

def blank (char : Char) : Bool := isSpace char.toNat

/-- `strings.Fields` -/
def fields (text : Text) : List Text := (text.splitOnP blank).filter (· ≠ [])

def labelled (field : Field) (text : Text) : Except CronError (List Bool) :=
  (parseField field text).mapError (.field field.label)

/-- The weekdays of one lookup: 7 and 0 both mean Sunday. -/
def foldSunday (days : List Bool) : List Bool := (days.set 0 (flag days 0 || flag days 7)).take 7

def parseFive (raw : Text) (hasSeconds : Bool) (secs : List Bool) (minute hour day month weekday : Text) :
    Except CronError Expression := do
  let mins ← labelled minuteField minute
  let hour ← labelled hourField hour
  let dom ← labelled dayField day
  let mon ← labelled monthField month
  let dow ← labelled weekdayField weekday
  return {
    raw, secs, mins, hour, dom, mon, hasSeconds
    dow := foldSunday dow
    domRestricted := trimSpace day ≠ ['*']
    dowRestricted := trimSpace weekday ≠ ['*'] }

def parse (text : Text) : Except CronError Expression :=
  match fields text with
  | [minute, hour, day, month, weekday] => parseFive text false [] minute hour day month weekday
  | [second, minute, hour, day, month, weekday] => do
    let secs ← labelled secondField second
    parseFive text true secs minute hour day month weekday
  | other => .error (.fieldCount other.length)

/-- The reading of a clock in some location. -/
structure Civil where
  second : Nat
  minute : Nat
  hour : Nat
  day : Nat
  month : Nat
  weekday : Nat
  second_lt : second < 60
  minute_lt : minute < 60
  hour_lt : hour < 24
  day_within : 1 ≤ day ∧ day ≤ 31
  month_within : 1 ≤ month ∧ month ≤ 12
  weekday_lt : weekday < 7

/-- What the clocks of a location show at each instant, in nanoseconds from the zero time. -/
abbrev Location := Int → Civil

def second : Int := 1000000000

def minute : Int := 60 * second

/-- How far ahead a run is looked for. -/
def horizon : Int := 5 * 366 * 24 * 60 * minute

def truncate (instant unit : Int) : Int := instant - instant % unit

def Expression.matches (expression : Expression) (moment : Civil) : Bool :=
  if expression.hasSeconds && !flag expression.secs moment.second then false
  else if !flag expression.mins moment.minute || !flag expression.hour moment.hour || !flag expression.mon moment.month then
    false
  else
    let dayOfMonth := flag expression.dom moment.day
    let dayOfWeek := flag expression.dow moment.weekday
    if expression.domRestricted && expression.dowRestricted then dayOfMonth || dayOfWeek
    else if expression.domRestricted then dayOfMonth
    else if expression.dowRestricted then dayOfWeek
    else true

def search (expression : Expression) (location : Location) (unit : Int) (positive : 0 < unit) (deadline candidate : Int) :
    Option Int :=
  if candidate < deadline then
    if expression.matches (location candidate) then some candidate
    else search expression location unit positive deadline (candidate + unit)
  else none
termination_by (deadline - candidate).toNat

inductive NextError where
  | empty
  | noRun (raw : Text)

def Expression.next (expression : Expression) (location : Location) (start : Int) : Except NextError Int :=
  if expression.mins.length = 0 then .error .empty
  else
    let deadline := start + horizon
    let found :=
      if expression.hasSeconds then
        search expression location second (by decide) deadline (truncate start second + second)
      else search expression location minute (by decide) deadline (truncate start minute + minute)
    match found with
    | some candidate => .ok candidate
    | none => .error (.noRun expression.raw)

/-! ### What an expression means -/

/-- The items of the five fields of an expression. -/
structure Entries where
  minutes : List Item
  hours : List Item
  days : List Item
  months : List Item
  weekdays : List Item

def Entries.Written (number : Text → Nat → Prop) (text : Text) (entries : Entries) : Prop :=
  ∃ minute hour day month weekday, fields text = [minute, hour, day, month, weekday] ∧
    Holds number minuteField minute entries.minutes ∧ Holds number hourField hour entries.hours ∧
    Holds number dayField day entries.days ∧ Holds number monthField month entries.months ∧
    Holds number weekdayField weekday entries.weekdays

def Among (values : Field → Item → Nat → Prop) (fold : Nat → Nat) (field : Field) (items : List Item) (value : Nat) : Prop :=
  ∃ item ∈ items, ∃ written, fold written = value ∧ values field item written

def sameDay (weekday : Nat) : Nat := weekday % 7

/-- Only a lone star leaves the days free. -/
def Restricted (items : List Item) : Prop := items ≠ [⟨.star, none⟩]

structure Expression.Denotes (values : Field → Item → Nat → Prop) (expression : Expression) (entries : Entries) : Prop where
  minutes : ∀ value, flag expression.mins value = true ↔ Among values id minuteField entries.minutes value
  hours : ∀ value, flag expression.hour value = true ↔ Among values id hourField entries.hours value
  days : ∀ value, flag expression.dom value = true ↔ Among values id dayField entries.days value
  months : ∀ value, flag expression.mon value = true ↔ Among values id monthField entries.months value
  weekdays : ∀ value, value < 7 →
    (flag expression.dow value = true ↔ Among values sameDay weekdayField entries.weekdays value)
  days_restricted : expression.domRestricted = true ↔ Restricted entries.days
  weekdays_restricted : expression.dowRestricted = true ↔ Restricted entries.weekdays
  whole_minutes : expression.hasSeconds = false
  present : expression.mins.length ≠ 0

def names (field : Field) (item : Item) (value : Nat) : Prop := item.Names field value
def marks (field : Field) (item : Item) (value : Nat) : Prop := item.Marks field value

/-- When both kinds of days are restricted either may match, otherwise the restricted one must. -/
structure Entries.Fires (entries : Entries) (moment : Civil) : Prop where
  minute : Among names id minuteField entries.minutes moment.minute
  hour : Among names id hourField entries.hours moment.hour
  month : Among names id monthField entries.months moment.month
  either : Restricted entries.days → Restricted entries.weekdays →
    Among names id dayField entries.days moment.day ∨ Among names sameDay weekdayField entries.weekdays moment.weekday
  day : Restricted entries.days → ¬ Restricted entries.weekdays → Among names id dayField entries.days moment.day
  weekday : ¬ Restricted entries.days → Restricted entries.weekdays →
    Among names sameDay weekdayField entries.weekdays moment.weekday

/-- A whole minute, counted from the zero time, after the start in which the expression fires. -/
def Entries.Run (entries : Entries) (location : Location) (start instant : Int) : Prop :=
  instant % minute = 0 ∧ start < instant ∧ entries.Fires (location instant)

/-- The least run after the start, or none when there is none within the horizon. -/
def Entries.Least (entries : Entries) (location : Location) (start : Int) : Except NextError Int → Prop
  | .ok found => entries.Run location start found ∧ ∀ instant, entries.Run location start instant → found ≤ instant
  | .error _ => ∀ instant, entries.Run location start instant → start + horizon ≤ instant

def Expression.Means (expression : Expression) (entries : Entries) : Prop :=
  expression.Denotes names entries ∧ ∀ location start, entries.Least location start (expression.next location start)

/-- Exactly the expressions of the grammar are read, and each as it is meant. -/
structure Faithful (text : Text) : Prop where
  accepted : ∀ expression, parse text = .ok expression →
    ∃ entries : Entries, entries.Written Numeral text ∧ expression.Means entries
  complete : ∀ entries : Entries, entries.Written Numeral text →
    ∃ expression, parse text = .ok expression ∧ expression.Means entries

def Entries.Every (holds : Field → List Item → Prop) (entries : Entries) : Prop :=
  holds minuteField entries.minutes ∧ holds hourField entries.hours ∧ holds dayField entries.days ∧
    holds monthField entries.months ∧ holds weekdayField entries.weekdays

/-- The second value of every item is an `int`. -/
def Entries.Fit (entries : Entries) : Prop := entries.Every fun field items => ∀ item ∈ items, item.Fits field

/-- Only the sign of some number keeps the text from the grammar. -/
def OnlySigned (text : Text) : Prop :=
  (∃ entries : Entries, entries.Written Signed text ∧ entries.Fit) ∧ ¬ ∃ entries : Entries, entries.Written Numeral text

/-- A step of the expression leads past the largest `int`. -/
def TooLarge (text : Text) : Prop := ∃ entries : Entries, entries.Written Numeral text ∧ ¬ entries.Fit

/-- Every value after a single one with a step of one is flagged for some item. -/
def Covered (fold : Nat → Nat) (field : Field) (items : List Item) : Prop :=
  ∀ lone, ⟨.single lone, some 1⟩ ∈ items → ∀ value, lone < value → value ≤ field.max →
    Among marks fold field items (fold value)

def Entries.RunOn (entries : Entries) : Prop :=
  Covered id minuteField entries.minutes ∧ Covered id hourField entries.hours ∧ Covered id dayField entries.days ∧
    Covered id monthField entries.months ∧ Covered sameDay weekdayField entries.weekdays

/-- A single value with a step of one, `n/1`, does not run to the end of its field. -/
def CutShort (text : Text) : Prop :=
  ∃ entries : Entries, entries.Written Numeral text ∧ entries.Fit ∧ ¬ entries.RunOn

/-! ### Stepping to the next run -/

theorem minute_pos : 0 < minute := by decide

theorem search_first (expression : Expression) (location : Location) {unit : Int} (positive : 0 < unit)
    (deadline candidate : Int) :
    match search expression location unit positive deadline candidate with
    | some found => candidate ≤ found ∧ (found - candidate) % unit = 0 ∧ expression.matches (location found) = true ∧
        ∀ earlier, candidate ≤ earlier → (earlier - candidate) % unit = 0 → earlier < found →
          expression.matches (location earlier) = false
    | none => ∀ later, candidate ≤ later → (later - candidate) % unit = 0 → later < deadline →
        expression.matches (location later) = false := by
  have next_of : ∀ other, candidate ≤ other → (other - candidate) % unit = 0 → other ≠ candidate →
      candidate + unit ≤ other ∧ (other - (candidate + unit)) % unit = 0 := by
    intro other after aligned apart
    have whole : unit ∣ other - candidate := Int.dvd_of_emod_eq_zero aligned
    have far := Int.le_of_dvd (by omega) whole
    refine ⟨by omega, ?_⟩
    have split : other - (candidate + unit) = other - candidate - unit := by omega
    rw [split, Int.sub_emod_right]
    exact aligned
  rw [search]
  by_cases before : candidate < deadline
  · rw [if_pos before]
    by_cases fires : expression.matches (location candidate) = true
    · rw [if_pos fires]
      refine ⟨Int.le_refl _, by simp, fires, ?_⟩
      intro earlier after _ sooner
      omega
    · rw [if_neg fires]
      have rest := search_first expression location positive deadline (candidate + unit)
      cases outcome : search expression location unit positive deadline (candidate + unit) with
      | some found =>
        rw [outcome] at rest
        obtain ⟨after, aligned, matched, first⟩ := rest
        refine ⟨by omega, ?_, matched, ?_⟩
        · have split : found - candidate = found - (candidate + unit) + unit := by omega
          rw [split, Int.add_emod_right]
          exact aligned
        · intro earlier after aligned sooner
          by_cases same : earlier = candidate
          · rw [same]
            exact Bool.eq_false_iff.mpr fires
          · have later := next_of earlier after aligned same
            exact first earlier later.1 later.2 sooner
      | none =>
        rw [outcome] at rest
        intro later after aligned sooner
        by_cases same : later = candidate
        · rw [same]
          exact Bool.eq_false_iff.mpr fires
        · have beyond := next_of later after aligned same
          exact rest later beyond.1 beyond.2 sooner
  · rw [if_neg before]
    intro later after _ sooner
    omega
termination_by (deadline - candidate).toNat

theorem grid_iff {unit : Int} (positive : 0 < unit) (start instant : Int) :
    (truncate start unit + unit ≤ instant ∧ (instant - (truncate start unit + unit)) % unit = 0) ↔
      instant % unit = 0 ∧ start < instant := by
  have floor := Int.emod_add_mul_ediv start unit
  have low := Int.emod_nonneg start (Int.ne_of_gt positive)
  have high := Int.emod_lt_of_pos start positive
  have base : truncate start unit = unit * (start / unit) := by
    simp only [truncate]
    omega
  have aligned : (instant - (truncate start unit + unit)) % unit = instant % unit := by
    rw [base]
    have split : instant - (unit * (start / unit) + unit) = instant - unit * (start / unit + 1) := by
      rw [Int.mul_add, Int.mul_one]
    rw [split, Int.sub_mul_emod_self_left]
  rw [aligned, and_comm]
  refine and_congr_right fun whole => ?_
  rw [base]
  constructor
  · intro reached
    omega
  · intro after
    obtain ⟨count, rfl⟩ := Int.dvd_of_emod_eq_zero whole
    have more : start / unit < count := by
      by_contra less
      have product := Int.mul_le_mul_of_nonneg_left (Int.not_lt.mp less) (Int.le_of_lt positive)
      omega
    have product := Int.mul_le_mul_of_nonneg_left (Int.add_one_le_of_lt more) (Int.le_of_lt positive)
    rw [Int.mul_add, Int.mul_one] at product
    exact product

variable {expression : Expression} {entries : Entries}

theorem matches_iff (denotes : expression.Denotes names entries) (moment : Civil) :
    expression.matches moment = true ↔ entries.Fires moment := by
  have minute := denotes.minutes moment.minute
  have hour := denotes.hours moment.hour
  have month := denotes.months moment.month
  have day := denotes.days moment.day
  have weekday := denotes.weekdays moment.weekday moment.weekday_lt
  have days := denotes.days_restricted
  have weekdays := denotes.weekdays_restricted
  have shape : ∀ minute hour month chosen : Bool,
      (if (!minute || !hour || !month) = true then false else chosen) = true ↔
        minute = true ∧ hour = true ∧ month = true ∧ chosen = true := by decide
  simp only [Expression.matches, denotes.whole_minutes, Bool.false_and, Bool.false_eq_true, if_false]
  rw [shape, minute, hour, month]
  constructor
  · rintro ⟨minute, hour, month, chosen⟩
    refine ⟨minute, hour, month, ?_, ?_, ?_⟩
    · intro by_day by_weekday
      rw [days.mpr by_day, weekdays.mpr by_weekday, Bool.true_and, if_pos rfl, Bool.or_eq_true] at chosen
      exact chosen.imp day.mp weekday.mp
    · intro by_day every_weekday
      rw [days.mpr by_day, Bool.eq_false_iff.mpr (mt weekdays.mp every_weekday)] at chosen
      exact day.mp chosen
    · intro every_day by_weekday
      rw [Bool.eq_false_iff.mpr (mt days.mp every_day), weekdays.mpr by_weekday] at chosen
      exact weekday.mp chosen
  · intro fires
    refine ⟨fires.minute, fires.hour, fires.month, ?_⟩
    by_cases by_day : Restricted entries.days
    · by_cases by_weekday : Restricted entries.weekdays
      · rw [days.mpr by_day, weekdays.mpr by_weekday, Bool.true_and, if_pos rfl, Bool.or_eq_true]
        exact (fires.either by_day by_weekday).imp day.mpr weekday.mpr
      · rw [days.mpr by_day, Bool.eq_false_iff.mpr (mt weekdays.mp by_weekday)]
        exact day.mpr (fires.day by_day by_weekday)
    · by_cases by_weekday : Restricted entries.weekdays
      · rw [Bool.eq_false_iff.mpr (mt days.mp by_day), weekdays.mpr by_weekday]
        exact weekday.mpr (fires.weekday by_day by_weekday)
      · rw [Bool.eq_false_iff.mpr (mt days.mp by_day), Bool.eq_false_iff.mpr (mt weekdays.mp by_weekday)]
        rfl

theorem next_least (denotes : expression.Denotes names entries) (location : Location) (start : Int) :
    entries.Least location start (expression.next location start) := by
  have first := search_first expression location minute_pos (start + horizon) (truncate start minute + minute)
  have grid := grid_iff minute_pos start
  simp only [Expression.next, if_neg denotes.present, denotes.whole_minutes, Bool.false_eq_true, if_false]
  cases outcome : search expression location minute minute_pos (start + horizon) (truncate start minute + minute) with
  | some found =>
    rw [outcome] at first
    obtain ⟨after, aligned, matched, least⟩ := first
    have whole := (grid found).mp ⟨after, aligned⟩
    refine ⟨⟨whole.1, whole.2, (matches_iff denotes _).mp matched⟩, ?_⟩
    rintro instant ⟨aligned, later, fires⟩
    by_contra sooner
    have candidate := (grid instant).mpr ⟨aligned, later⟩
    have quiet := least instant candidate.1 candidate.2 (by omega)
    rw [(matches_iff denotes _).mpr fires] at quiet
    cases quiet
  | none =>
    rw [outcome] at first
    rintro instant ⟨aligned, later, fires⟩
    by_contra sooner
    have candidate := (grid instant).mpr ⟨aligned, later⟩
    have quiet := first instant candidate.1 candidate.2 (by omega)
    rw [(matches_iff denotes _).mpr fires] at quiet
    cases quiet

/-! ### Reading the fields of an expression -/

variable {text : Text}

theorem fields_solid {part : Text} (listed : part ∈ fields text) : ∀ char ∈ part, blank char = false := by
  have solid : ∀ piece ∈ text.splitOnP blank, ∀ char ∈ piece, blank char = false := by
    clear listed
    induction text with
    | nil => simp
    | cons head rest ih =>
      intro piece member char inside
      obtain ⟨first, others, split⟩ := exists_cons_of_ne_nil (splitOnP_ne_nil blank rest)
      rw [splitOnP_cons_eq_if_modifyHead, split] at member
      rw [split] at ih
      split at member
      · rcases mem_cons.mp member with rfl | later
        · cases inside
        · exact ih piece later char inside
      · rename_i visible
        rcases mem_cons.mp member with rfl | later
        · rcases mem_cons.mp inside with rfl | further
          · exact Bool.eq_false_iff.mpr visible
          · exact ih first mem_cons_self char further
        · exact ih piece (mem_cons_of_mem first later) char inside
  exact solid part (mem_filter.mp listed).1

theorem writes_star {part : Text} {item : Item} (written : Writes Signed part item) :
    part = ['*'] ↔ item = ⟨.star, none⟩ := by
  cases written with
  | plain base free =>
    cases base with
    | star => exact ⟨fun _ => rfl, fun _ => rfl⟩
    | single signed free =>
      refine ⟨?_, nofun⟩
      rintro rfl
      obtain ⟨head, tail, shape, other⟩ := signed.cons
      exact absurd (List.cons.inj shape).1.symm other
    | range low free high =>
      refine ⟨fun same => ?_, nofun⟩
      have listed : '-' ∈ ['*'] := same ▸ mem_append_right _ mem_cons_self
      exact absurd listed (by decide)
  | stepped base free step positive =>
    refine ⟨fun same => ?_, nofun⟩
    have listed : '/' ∈ ['*'] := same ▸ mem_append_right _ mem_cons_self
    exact absurd listed (by decide)

variable {field : Field} {items : List Item}

theorem restricted_iff (solid : ∀ char ∈ text, blank char = false) (holds : Holds Signed field text items) :
    trimSpace text ≠ ['*'] ↔ Restricted items := by
  rw [Normalizing.trimSpace_solid solid]
  refine not_congr ⟨?_, ?_⟩
  · rintro rfl
    have lone : (['*'] : Text).splitOn ',' = [['*']] := by decide
    rw [Holds, lone] at holds
    obtain ⟨item, rest, head, none_left, rfl⟩ := forall₂_cons_left_iff.mp holds
    rw [forall₂_nil_left_iff.mp none_left, (writes_star head.1).mp rfl]
  · rintro rfl
    obtain ⟨part, rest, head, none_left, split⟩ := forall₂_cons_right_iff.mp holds
    rw [forall₂_nil_right_iff.mp none_left, (writes_star head.1).mpr rfl] at split
    have whole : [','].intercalate (text.splitOn ',') = text := intercalate_splitOn ','
    rw [split] at whole
    exact whole.symm

theorem labelled_ok {values : List Bool} :
    labelled field text = .ok values ↔ parseField field text = .ok values := by
  unfold labelled
  cases parseField field text with
  | error failure => exact ⟨nofun, nofun⟩
  | ok read => exact ⟨fun same => congrArg _ (Except.ok.inj same), fun same => congrArg _ (Except.ok.inj same)⟩

theorem bind_ok {α β ε : Type} {first : Except ε α} {next : α → Except ε β} {value : β} :
    (first >>= next) = .ok value ↔ ∃ middle, first = .ok middle ∧ next middle = .ok value := by
  cases first with
  | error failure => exact ⟨nofun, fun ⟨_, impossible, _⟩ => nomatch impossible⟩
  | ok middle => exact ⟨fun run => ⟨middle, rfl, run⟩, fun ⟨_, same, run⟩ => Except.ok.inj same ▸ run⟩

theorem parseFive_ok {raw minute hour day month weekday : Text} {hasSeconds : Bool} {secs : List Bool} :
    parseFive raw hasSeconds secs minute hour day month weekday = .ok expression ↔
      ∃ mins hours dom mon dow, parseField minuteField minute = .ok mins ∧ parseField hourField hour = .ok hours ∧
        parseField dayField day = .ok dom ∧ parseField monthField month = .ok mon ∧
        parseField weekdayField weekday = .ok dow ∧
        expression = {
          raw, secs, mins, hour := hours, dom, mon, hasSeconds
          dow := foldSunday dow
          domRestricted := trimSpace day ≠ ['*']
          dowRestricted := trimSpace weekday ≠ ['*'] } := by
  unfold parseFive
  simp only [bind_ok, labelled_ok]
  constructor
  · rintro ⟨mins, first, hours, second, dom, third, mon, fourth, dow, fifth, last⟩
    exact ⟨mins, hours, dom, mon, dow, first, second, third, fourth, fifth, (Except.ok.inj last).symm⟩
  · rintro ⟨mins, hours, dom, mon, dow, first, second, third, fourth, fifth, rfl⟩
    exact ⟨mins, first, hours, second, dom, third, mon, fourth, dow, fifth, rfl⟩

theorem among_id (values : Field → Item → Nat → Prop) (field : Field) (items : List Item) (value : Nat) :
    Among values id field items value ↔ ∃ item ∈ items, values field item value := by
  simp [Among]

theorem flag_foldSunday {days : List Bool} (flags : Flags weekdayField items days) {day : Nat} (inside : day < 7) :
    flag (foldSunday days) day = true ↔ Among marks sameDay weekdayField items day := by
  obtain ⟨length, marked⟩ := flags
  have within : ∀ value, flag days value = true → value < 8 := by
    intro value set
    by_contra beyond
    have clear : flag days value = false := by
      have past : days.length ≤ value := by
        rw [length]
        exact Nat.not_lt.mp beyond
      rw [flag, getD_eq_getElem?_getD, getElem?_eq_none past, Option.getD_none]
    rw [clear] at set
    cases set
  have folded : flag (foldSunday days) day = true ↔ flag days day = true ∨ day = 0 ∧ flag days 7 = true := by
    have taken : flag (foldSunday days) day = flag (days.set 0 (flag days 0 || flag days 7)) day := by
      simp only [flag, foldSunday, getD_eq_getElem?_getD, getElem?_take_of_lt inside]
    rw [taken]
    by_cases sunday : day = 0
    · subst sunday
      have set : flag (days.set 0 (flag days 0 || flag days 7)) 0 = (flag days 0 || flag days 7) := by
        rw [flag, getD_eq_getElem?_getD, getElem?_set_self (by rw [length]; exact Nat.succ_pos _)]
        rfl
      rw [set, Bool.or_eq_true]
      simp
    · have kept : flag (days.set 0 (flag days 0 || flag days 7)) day = flag days day := by
        simp only [flag, getD_eq_getElem?_getD, getElem?_set_ne (Ne.symm sunday)]
      rw [kept]
      simp [sunday]
  rw [folded]
  constructor
  · rintro (set | ⟨rfl, set⟩)
    · obtain ⟨item, member, mark⟩ := (marked day).mp set
      exact ⟨item, member, day, Nat.mod_eq_of_lt inside, mark⟩
    · obtain ⟨item, member, mark⟩ := (marked 7).mp set
      exact ⟨item, member, 7, rfl, mark⟩
  · rintro ⟨item, member, written, same, mark⟩
    have set := (marked written).mpr ⟨item, member, mark⟩
    have bound := within written set
    simp only [sameDay] at same
    by_cases sunday : written = 7
    · subst sunday
      exact .inr ⟨same.symm, set⟩
    · rw [Nat.mod_eq_of_lt (by omega)] at same
      exact .inl (same ▸ set)

theorem fits_of_ok {values : List Bool} (holds : Holds Signed field text items)
    (read : parseField field text = .ok values) :
    ∀ item ∈ items, item.Fits field := by
  intro item member
  by_contra excess
  obtain ⟨failure, failed⟩ := parseField_over holds ⟨item, member, excess⟩
  cases failed.symm.trans read

theorem parse_of (written : entries.Written Signed text) (fit : entries.Fit) :
    ∃ expression, parse text = .ok expression ∧ expression.Denotes marks entries := by
  obtain ⟨minute, hour, day, month, weekday, split, minutes, hours, days, months, weekdays⟩ := written
  obtain ⟨fit_minutes, fit_hours, fit_days, fit_months, fit_weekdays⟩ := fit
  obtain ⟨mins, read_mins, minute_flags⟩ := parseField_of minutes fit_minutes
  obtain ⟨hour_values, read_hours, hour_flags⟩ := parseField_of hours fit_hours
  obtain ⟨dom, read_days, day_flags⟩ := parseField_of days fit_days
  obtain ⟨mon, read_months, month_flags⟩ := parseField_of months fit_months
  obtain ⟨dow, read_weekdays, weekday_flags⟩ := parseField_of weekdays fit_weekdays
  have solid : ∀ part ∈ [minute, hour, day, month, weekday], ∀ char ∈ part, blank char = false :=
    fun part listed => fields_solid (split ▸ listed)
  have parsed : parse text = .ok {
      raw := text, secs := [], mins, hour := hour_values, dom, mon, hasSeconds := false
      dow := foldSunday dow
      domRestricted := trimSpace day ≠ ['*']
      dowRestricted := trimSpace weekday ≠ ['*'] } := by
    rw [parse, split]
    exact parseFive_ok.mpr
      ⟨mins, hour_values, dom, mon, dow, read_mins, read_hours, read_days, read_months, read_weekdays, rfl⟩
  exact ⟨_, parsed, {
    minutes := fun value => (minute_flags.2 value).trans (among_id ..).symm
    hours := fun value => (hour_flags.2 value).trans (among_id ..).symm
    days := fun value => (day_flags.2 value).trans (among_id ..).symm
    months := fun value => (month_flags.2 value).trans (among_id ..).symm
    weekdays := fun value inside => flag_foldSunday weekday_flags inside
    days_restricted := by
      rw [decide_eq_true_eq]
      exact restricted_iff (solid day (by simp)) days
    weekdays_restricted := by
      rw [decide_eq_true_eq]
      exact restricted_iff (solid weekday (by simp)) weekdays
    whole_minutes := rfl
    present := by
      dsimp only
      rw [minute_flags.1]
      exact Nat.succ_ne_zero _ }⟩

theorem parse_ok (five : (fields text).length = 5) (read : parse text = .ok expression) :
    ∃ entries : Entries, entries.Written Signed text ∧ entries.Fit ∧ expression.Denotes marks entries := by
  have shaped : ∃ entries : Entries, entries.Written Signed text ∧ entries.Fit := by
    unfold parse at read
    split at read
    · rename_i minute hour day month weekday split
      obtain ⟨_, _, _, _, _, mins, hours, days, months, weekdays, -⟩ := parseFive_ok.mp read
      obtain ⟨minutes, holds_minutes, fit_minutes, -⟩ := parseField_ok mins
      obtain ⟨hours, holds_hours, fit_hours, -⟩ := parseField_ok hours
      obtain ⟨days, holds_days, fit_days, -⟩ := parseField_ok days
      obtain ⟨months, holds_months, fit_months, -⟩ := parseField_ok months
      obtain ⟨weekdays, holds_weekdays, fit_weekdays, -⟩ := parseField_ok weekdays
      exact ⟨⟨minutes, hours, days, months, weekdays⟩,
        ⟨minute, hour, day, month, weekday, split, holds_minutes, holds_hours, holds_days, holds_months, holds_weekdays⟩,
        fit_minutes, fit_hours, fit_days, fit_months, fit_weekdays⟩
    · rename_i split
      rw [split] at five
      cases five
    · cases read
  obtain ⟨entries, written, fit⟩ := shaped
  obtain ⟨again, same, denotes⟩ := parse_of written fit
  cases same.symm.trans read
  exact ⟨entries, written, fit, denotes⟩

theorem fit_of_parse (written : entries.Written Signed text) (read : parse text = .ok expression) :
    entries.Fit := by
  obtain ⟨minute, hour, day, month, weekday, split, minutes, hours, days, months, weekdays⟩ := written
  rw [parse, split] at read
  obtain ⟨_, _, _, _, _, read_minutes, read_hours, read_days, read_months, read_weekdays, -⟩ := parseFive_ok.mp read
  exact ⟨fits_of_ok minutes read_minutes, fits_of_ok hours read_hours, fits_of_ok days read_days,
    fits_of_ok months read_months, fits_of_ok weekdays read_weekdays⟩

/-! ### The law of cron schedules -/

theorem covered_iff (fold : Nat → Nat) (field : Field) (items : List Item) :
    Covered fold field items ↔
      ∀ value, Among names fold field items value → Among marks fold field items value := by
  constructor
  · rintro covered value ⟨item, member, written, rfl, named⟩
    by_cases unit : ∃ lone, item.LoneUnit lone
    · obtain ⟨lone, rfl⟩ := unit
      by_cases first : written = lone
      · refine ⟨_, member, written, rfl, named, ?_⟩
        rintro other same
        cases same
        exact first
      · have after : lone ≤ written := named.1.1
        exact covered lone member written (by omega) named.2
    · exact ⟨item, member, written, rfl, named, fun lone same => absurd ⟨lone, same⟩ unit⟩
  · intro flagged lone member value after within
    refine flagged (fold value) ⟨_, member, value, rfl, ⟨Nat.le_of_lt after, ?_⟩, within⟩
    exact Nat.mod_one _

theorem among_names {fold : Nat → Nat} {value : Nat} (marked : Among marks fold field items value) :
    Among names fold field items value := by
  obtain ⟨item, member, written, same, mark⟩ := marked
  exact ⟨item, member, written, same, mark.1⟩

theorem denotes_names_iff (denotes : expression.Denotes marks entries) :
    expression.Denotes names entries ↔ entries.RunOn := by
  constructor
  · intro named
    refine ⟨?_, ?_, ?_, ?_, ?_⟩
    · exact (covered_iff ..).mpr fun value among => (denotes.minutes value).mp ((named.minutes value).mpr among)
    · exact (covered_iff ..).mpr fun value among => (denotes.hours value).mp ((named.hours value).mpr among)
    · exact (covered_iff ..).mpr fun value among => (denotes.days value).mp ((named.days value).mpr among)
    · exact (covered_iff ..).mpr fun value among => (denotes.months value).mp ((named.months value).mpr among)
    · rw [covered_iff]
      intro value among
      have inside : value < 7 := by
        obtain ⟨_, _, written, rfl, _⟩ := among
        exact Nat.mod_lt written (by decide)
      exact (denotes.weekdays value inside).mp ((named.weekdays value inside).mpr among)
  · rintro ⟨minutes, hours, days, months, weekdays⟩
    have widen : ∀ {fold field items}, Covered fold field items → ∀ value,
        Among marks fold field items value ↔ Among names fold field items value :=
      fun covered value => ⟨among_names, (covered_iff ..).mp covered value⟩
    exact { denotes with
      minutes := fun value => (denotes.minutes value).trans (widen minutes value)
      hours := fun value => (denotes.hours value).trans (widen hours value)
      days := fun value => (denotes.days value).trans (widen days value)
      months := fun value => (denotes.months value).trans (widen months value)
      weekdays := fun value inside => (denotes.weekdays value inside).trans (widen weekdays value) }

theorem Entries.Written.signed (written : entries.Written Numeral text) :
    entries.Written Signed text := by
  obtain ⟨minute, hour, day, month, weekday, split, minutes, hours, days, months, weekdays⟩ := written
  exact ⟨minute, hour, day, month, weekday, split, minutes.signed, hours.signed, days.signed, months.signed, weekdays.signed⟩

/-- Exactly the expressions of the grammar are read as they are meant, and the next run is the least, unless only a
sign keeps the expression from the grammar, a step leads past the largest `int` or an `n/1` is cut short. -/
theorem five_fields_faithful {text : Text} (five : (fields text).length = 5) :
    Faithful text ↔ ¬ OnlySigned text ∧ ¬ TooLarge text ∧ ¬ CutShort text := by
  constructor
  · intro faithful
    refine ⟨?_, ?_, ?_⟩
    · rintro ⟨⟨entries, written, fit⟩, foreign⟩
      obtain ⟨expression, read, -⟩ := parse_of written fit
      obtain ⟨entries, grammatical, -⟩ := faithful.accepted expression read
      exact foreign ⟨entries, grammatical⟩
    · rintro ⟨entries, written, excess⟩
      obtain ⟨expression, read, -⟩ := faithful.complete entries written
      exact excess (fit_of_parse written.signed read)
    · rintro ⟨entries, written, fit, short⟩
      obtain ⟨expression, read, means⟩ := faithful.complete entries written
      obtain ⟨again, same, denotes⟩ := parse_of written.signed fit
      cases same.symm.trans read
      exact short ((denotes_names_iff denotes).mp means.1)
  · rintro ⟨unsigned, small, full⟩
    have means : ∀ entries : Entries, entries.Written Numeral text →
        ∃ expression, parse text = .ok expression ∧ expression.Means entries := by
      intro entries written
      have fit : entries.Fit := by
        by_contra excess
        exact small ⟨entries, written, excess⟩
      have runs : entries.RunOn := by
        by_contra short
        exact full ⟨entries, written, fit, short⟩
      obtain ⟨expression, read, denotes⟩ := parse_of written.signed fit
      have named := (denotes_names_iff denotes).mpr runs
      exact ⟨expression, read, named, next_least named⟩
    refine ⟨?_, means⟩
    intro expression read
    obtain ⟨entries, written, fit, -⟩ := parse_ok five read
    have grammatical : ∃ entries : Entries, entries.Written Numeral text := by
      by_contra foreign
      exact unsigned ⟨⟨entries, written, fit⟩, foreign⟩
    obtain ⟨entries, grammatical⟩ := grammatical
    obtain ⟨again, same, meant⟩ := means entries grammatical
    cases same.symm.trans read
    exact ⟨entries, grammatical, meant⟩

theorem five_fields_faithful_quarter :
    (fields "*/15 * * * *".toList).length = 5 ∧
      (Faithful "*/15 * * * *".toList ↔
        ¬ OnlySigned "*/15 * * * *".toList ∧ ¬ TooLarge "*/15 * * * *".toList ∧ ¬ CutShort "*/15 * * * *".toList) :=
  ⟨by decide, five_fields_faithful (by decide)⟩

/-- The first five days of a month in steps of the largest `int`. -/
def longStep : Text := "0 0 1-5/9223372036854775807 * *".toList

def longStepEntries : Entries where
  minutes := [⟨.single 0, none⟩]
  hours := [⟨.single 0, none⟩]
  days := [⟨.range 1 5, some 9223372036854775807⟩]
  months := [⟨.star, none⟩]
  weekdays := [⟨.star, none⟩]

theorem long_step_written : longStepEntries.Written Numeral longStep := by
  have digit : ∀ {digit : Char} {value : Nat}, digit.isDigit = true → digitValue digit = value → Numeral [digit] value := by
    intro digit value decimal same
    exact ⟨cons_ne_nil _ _, by simpa using decimal, by simpa [magnitude] using same⟩
  have zero : ∀ field : Field, field.min = 0 → Holds Numeral field ['0'] [⟨.single 0, none⟩] := by
    intro field least
    have lone : (['0'] : Text).splitOn ',' = [['0']] := by decide
    rw [Holds, lone]
    exact .cons ⟨.plain (.single (digit (by decide) rfl) (by decide)) (by decide), Nat.le_of_eq least, Nat.zero_le _⟩ .nil
  have star : ∀ field : Field, Holds Numeral field ['*'] [⟨.star, none⟩] := by
    intro field
    have lone : (['*'] : Text).splitOn ',' = [['*']] := by decide
    rw [Holds, lone]
    exact .cons ⟨.plain .star (by decide), trivial⟩ .nil
  have days : Holds Numeral dayField "1-5/9223372036854775807".toList [⟨.range 1 5, some 9223372036854775807⟩] := by
    have lone : "1-5/9223372036854775807".toList.splitOn ',' =
        [(['1'] ++ '-' :: ['5']) ++ '/' :: "9223372036854775807".toList] := by decide
    rw [Holds, lone]
    refine .cons ⟨.stepped (.range (digit (by decide) rfl) (by decide) (digit (by decide) rfl)) (by decide)
      ⟨by decide, ?_, by decide +kernel⟩ (by decide), by decide, by decide, by decide⟩ .nil
    exact all_eq_true.mp (by decide)
  exact ⟨['0'], ['0'], "1-5/9223372036854775807".toList, ['*'], ['*'], by decide +kernel, zero _ rfl, zero _ rfl, days,
    star _, star _⟩

/-- The step is within the grammar, and reading it panics. -/
theorem long_step_panics :
    parse longStep = .error (.field "day of month" (.index (-9223372036854775808))) ∧ ¬ Faithful longStep := by
  have panics : parse longStep = .error (.field "day of month" (.index (-9223372036854775808))) := by decide +kernel
  refine ⟨panics, fun faithful => ?_⟩
  obtain ⟨expression, read, -⟩ := faithful.complete longStepEntries long_step_written
  cases panics.symm.trans read

end AstrLink.CronSchedule
