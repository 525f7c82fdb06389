import Mathlib
import AstrLink.Normalizing

/-!
The fields of a cron expression. A field is a list of stars, values and ranges,
each with an optional step, and is read into one flag for each value that it
may take.
-/
namespace AstrLink.CronFields
open List

abbrev Text := List Char

/-- The largest `int`. -/
def maxInt : Int := 2 ^ 63 - 1

/-- A sum as an `int` holds it. -/
def wrap (sum : Int) : Int := (sum + 2 ^ 63) % 2 ^ 64 - 2 ^ 63

def digitValue (char : Char) : Nat := char.toNat - '0'.toNat

def magnitude (digits : Text) : Nat := digits.foldl (fun value char => value * 10 + digitValue char) 0

/-- The sign of a number and what follows it. -/
def unsigned : Text → Bool × Text
  | '-' :: digits => (true, digits)
  | '+' :: digits => (false, digits)
  | digits => (false, digits)

def withSign (negative : Bool) (value : Nat) : Int := if negative then -value else value

/-- `strconv.Atoi` -/
def atoi (text : Text) : Option Int :=
  let (negative, digits) := unsigned text
  if digits = [] || !digits.all Char.isDigit then none
  else
    let value := withSign negative (magnitude digits)
    if value < -maxInt - 1 ∨ maxInt < value then none else some value

variable {text : Text}

theorem atoi_bounds {value : Int} (read : atoi text = some value) :
    -maxInt - 1 ≤ value ∧ value ≤ maxInt := by
  dsimp only [atoi] at read
  split at read
  · cases read
  · split at read
    · cases read
    · have same := Option.some.inj read
      omega

/-! ### Reading a field -/

structure Field where
  label : String
  min : Nat
  max : Nat
  ordered : min ≤ max
  small : max < 60

def secondField : Field := ⟨"seconds", 0, 59, by decide, by decide⟩
def minuteField : Field := ⟨"minutes", 0, 59, by decide, by decide⟩
def hourField : Field := ⟨"hours", 0, 23, by decide, by decide⟩
def dayField : Field := ⟨"day of month", 1, 31, by decide, by decide⟩
def monthField : Field := ⟨"month", 1, 12, by decide, by decide⟩
def weekdayField : Field := ⟨"weekday", 0, 7, by decide, by decide⟩

/-- Why a field is not read; `index` is a panic. -/
inductive FieldFailure where
  | emptyItem
  | step (text : Text)
  | rangeStart (text : Text)
  | rangeEnd (text : Text)
  | range (text : Text) (min max : Nat)
  | number (text : Text)
  | outside (value : Int) (min max : Nat)
  | index (value : Int)
  deriving DecidableEq

structure Step where
  value : Int
  positive : 1 ≤ value
  fits : value ≤ maxInt

/-- The loop that flags a value, the value a step later and so on up to `high`. -/
def mark (field : Field) (step : Step) (high value : Int) (values : List Bool) : Except FieldFailure (List Bool) :=
  if value ≤ high then
    if _ : 0 ≤ value ∧ value ≤ field.max then
      mark field step high (wrap (value + step.value)) (values.set value.toNat true)
    else .error (.index value)
  else .ok values
termination_by if value < 0 then 0 else (field.max + 1 - value).toNat
decreasing_by
  have small := field.small
  have positive := step.positive
  have fits := step.fits
  simp only [maxInt] at fits
  have counted : ¬ value < 0 := by omega
  rw [if_neg counted]
  by_cases excess : wrap (value + step.value) < 0
  · rw [if_pos excess]
    omega
  · rw [if_neg excess]
    simp only [wrap] at excess ⊢
    omega

/-- The step after the first slash of an item, and what stands before it. -/
def parseStep (part : Text) : Except FieldFailure (Step × Text) :=
  match part.dropWhile (· ≠ '/') with
  | [] => .ok (⟨1, by decide, by decide⟩, part)
  | _ :: stepText =>
    match read : atoi stepText with
    | none => .error (.step stepText)
    | some parsed =>
      if positive : 1 ≤ parsed then .ok (⟨parsed, positive, (atoi_bounds read).2⟩, part.takeWhile (· ≠ '/'))
      else .error (.step stepText)

/-- The first and the last value of an item. A single value with a step runs to the end of the field. -/
def parseBounds (field : Field) (step : Step) (part : Text) : Except FieldFailure (Int × Int) :=
  if part = ['*'] then .ok (field.min, field.max)
  else if part.contains '-' then
    let first := part.takeWhile (· ≠ '-')
    let second := (part.dropWhile (· ≠ '-')).tail
    match atoi first, atoi second with
    | none, _ => .error (.rangeStart first)
    | some _, none => .error (.rangeEnd second)
    | some low, some high =>
      if low < field.min ∨ field.max < high ∨ high < low then .error (.range part field.min field.max)
      else .ok (low, high)
  else
    match atoi part with
    | none => .error (.number part)
    | some value =>
      if value < field.min ∨ field.max < value then .error (.outside value field.min field.max)
      else if 1 < step.value ∧ wrap (value + step.value) ≤ field.max then .ok (value, field.max)
      else .ok (value, value)

def parseItem (field : Field) (values : List Bool) (part : Text) : Except FieldFailure (List Bool) :=
  if part = [] then .error .emptyItem
  else
    match parseStep part with
    | .error failure => .error failure
    | .ok (step, base) =>
      match parseBounds field step base with
      | .error failure => .error failure
      | .ok (low, high) => mark field step high low values

def parseItems (field : Field) : List Bool → List Text → Except FieldFailure (List Bool)
  | values, [] => .ok values
  | values, part :: parts =>
    match parseItem field values part with
    | .error failure => .error failure
    | .ok values => parseItems field values parts

def parseField (field : Field) (text : Text) : Except FieldFailure (List Bool) :=
  parseItems field (List.replicate (field.max + 1) false) (text.splitOn ',')

/-- A number of the grammar: decimal digits. -/
def Numeral (text : Text) (value : Nat) : Prop :=
  text ≠ [] ∧ (∀ char ∈ text, char.isDigit = true) ∧ magnitude text = value

/-- A number that may also carry a sign which leaves it what it is. -/
inductive Signed : Text → Nat → Prop
  | plain {text value} : Numeral text value → Signed text value
  | plus {digits value} : Numeral digits value → Signed ('+' :: digits) value
  | minus {digits} : Numeral digits 0 → Signed ('-' :: digits) 0

inductive Base where
  | star
  | single (value : Nat)
  | range (low high : Nat)

structure Item where
  base : Base
  step : Option Nat

section
variable (number : Text → Nat → Prop)

inductive WritesBase : Text → Base → Prop
  | star : WritesBase ['*'] .star
  | single {text value} : number text value → '-' ∉ text → WritesBase text (.single value)
  | range {first low second high} : number first low → '-' ∉ first → number second high →
      WritesBase (first ++ '-' :: second) (.range low high)

inductive Writes : Text → Item → Prop
  | plain {text base} : WritesBase number text base → '/' ∉ text → Writes text ⟨base, none⟩
  | stepped {text base stepText step} : WritesBase number text base → '/' ∉ text → number stepText step → 0 < step →
      Writes (text ++ '/' :: stepText) ⟨base, some step⟩
end

def Base.Within (field : Field) : Base → Prop
  | star => True
  | single value => field.min ≤ value ∧ value ≤ field.max
  | range low high => field.min ≤ low ∧ low ≤ high ∧ high ≤ field.max

def Holds (number : Text → Nat → Prop) (field : Field) (text : Text) (items : List Item) : Prop :=
  List.Forall₂ (fun part item => Writes number part item ∧ item.base.Within field) (text.splitOn ',') items

def Base.first (field : Field) : Base → Nat
  | star => field.min
  | single value => value
  | range low _ => low

def Item.stride (item : Item) : Nat := item.step.getD 1

/-- The last value of an item; a single value with a step is a range to the end of the field. -/
def Item.last (field : Field) (item : Item) : Nat :=
  match item.base, item.step with
  | .star, _ => field.max
  | .single value, none => value
  | .single _, some _ => field.max
  | .range _ high, _ => high

def Item.Names (field : Field) (item : Item) (value : Nat) : Prop :=
  (item.base.first field ≤ value ∧ (value - item.base.first field) % item.stride = 0) ∧ value ≤ item.last field

def Item.LoneUnit (item : Item) (value : Nat) : Prop := item = ⟨.single value, some 1⟩

/-- The value after the first is still an `int`. -/
def Item.Fits (field : Field) (item : Item) : Prop := item.base.first field + item.stride < 2 ^ 63

def Item.Marks (field : Field) (item : Item) (value : Nat) : Prop :=
  item.Names field value ∧ ∀ lone, item.LoneUnit lone → value = lone

variable {value : Nat}

theorem unsigned_numeral (numeral : Numeral text value) : unsigned text = (false, text) := by
  obtain ⟨-, digits, -⟩ := numeral
  unfold unsigned
  split
  · exact absurd (digits '-' mem_cons_self) (by decide)
  · exact absurd (digits '+' mem_cons_self) (by decide)
  · rfl

theorem atoi_digits {digits : Text} {negative : Bool} {value : Nat} (apart : unsigned text = (negative, digits))
    (numeral : Numeral digits value) :
    atoi text =
      if withSign negative value < -maxInt - 1 ∨ maxInt < withSign negative value then none
      else some (withSign negative value) := by
  obtain ⟨some_digit, decimal, rfl⟩ := numeral
  have all : digits.all Char.isDigit = true := all_eq_true.mpr decimal
  simp only [atoi, apart, some_digit, all, decide_false, Bool.not_true, Bool.or_self, Bool.false_eq_true, if_false]

theorem atoi_signed (signed : Signed text value) :
    atoi text = if (value : Int) ≤ maxInt then some (value : Int) else none := by
  have natural : ¬ (value : Int) < -maxInt - 1 := by
    have large : 0 < maxInt := by decide
    omega
  cases signed with
  | plain numeral =>
    rw [atoi_digits (unsigned_numeral numeral) numeral]
    by_cases fits : (value : Int) ≤ maxInt
    · simp [withSign, natural, fits]
    · simp [withSign, natural, fits]
  | @plus digits value numeral =>
    rw [@atoi_digits ('+' :: digits) digits false value rfl numeral]
    by_cases fits : (value : Int) ≤ maxInt
    · simp [withSign, natural, fits]
    · simp [withSign, natural, fits]
  | @minus digits numeral =>
    rw [@atoi_digits ('-' :: digits) digits true 0 rfl numeral]
    decide

theorem signed_of_atoi (read : atoi text = some (value : Int)) : Signed text value := by
  obtain ⟨negative, digits, apart⟩ : ∃ negative digits, unsigned text = (negative, digits) := ⟨_, _, rfl⟩
  rw [atoi, apart] at read
  dsimp only at read
  by_cases written : (decide (digits = []) || !digits.all Char.isDigit) = true
  · rw [if_pos written] at read
    cases read
  rw [if_neg written] at read
  have numeral : Numeral digits (magnitude digits) := by
    rw [Bool.or_eq_true, not_or] at written
    exact ⟨by simpa using written.1, by simpa using written.2, rfl⟩
  split at read
  · cases read
  have same := Option.some.inj read
  unfold unsigned at apart
  split at apart
  · obtain ⟨negated, behind⟩ := Prod.mk.inj apart
    rw [withSign, if_pos negated.symm] at same
    have zero : magnitude digits = 0 ∧ value = 0 := by omega
    rw [behind, zero.2]
    exact .minus (zero.1 ▸ numeral)
  · cases apart
    rw [withSign, if_neg Bool.false_ne_true, Int.natCast_inj] at same
    exact .plus (same ▸ numeral)
  · cases apart
    rw [withSign, if_neg Bool.false_ne_true, Int.natCast_inj] at same
    exact .plain (same ▸ numeral)

/-! ### What the loop flags -/

def flag (values : List Bool) (value : Nat) : Bool := values.getD value false

variable {values : List Bool}

theorem flag_set (inside : value < values.length) (other : Nat) :
    flag (values.set value true) other = true ↔ other = value ∨ flag values other = true := by
  simp only [flag, getD_eq_getElem?_getD, getElem?_set]
  by_cases same : value = other
  · subst same
    simp [inside]
  · rw [if_neg same]
    exact ⟨.inr, fun found => found.resolve_left fun equal => same equal.symm⟩

theorem wrap_of_fits {sum : Int} (natural : 0 ≤ sum) (fits : sum ≤ maxInt) : wrap sum = sum := by
  simp only [maxInt] at fits
  simp only [wrap]
  omega

theorem wrap_of_over {sum : Int} (excess : maxInt < sum) (near : sum ≤ maxInt + 60) : wrap sum < 0 := by
  simp only [maxInt] at excess near
  simp only [wrap]
  omega

theorem stepped_iff {value stride other : Nat} (positive : 0 < stride) :
    (value ≤ other ∧ (other - value) % stride = 0) ↔
      other = value ∨ value + stride ≤ other ∧ (other - (value + stride)) % stride = 0 := by
  constructor
  · rintro ⟨above, whole⟩
    by_cases same : other = value
    · exact .inl same
    · have far : stride ≤ other - value := Nat.le_of_dvd (by omega) (Nat.dvd_of_mod_eq_zero whole)
      refine .inr ⟨by omega, ?_⟩
      rw [Nat.sub_add_eq]
      exact Nat.mod_eq_sub_mod far ▸ whole
  · rintro (rfl | ⟨above, whole⟩)
    · exact ⟨Nat.le_refl _, by simp⟩
    · refine ⟨by omega, ?_⟩
      have apart : other - value = other - (value + stride) + stride := by omega
      rw [apart, Nat.add_mod_right]
      exact whole

theorem mark_flags (field : Field) (step : Step) {high : Nat} (bound : high ≤ field.max) (value : Nat)
    (values : List Bool) (full : values.length = field.max + 1) (fits : value ≤ high → value + step.value ≤ maxInt) :
    ∃ marked, mark field step high value values = .ok marked ∧ marked.length = field.max + 1 ∧
      ∀ other, flag marked other = true ↔
        flag values other = true ∨ (value ≤ other ∧ (other - value) % step.value.toNat = 0) ∧ other ≤ high := by
  have small := field.small
  have positive := step.positive
  by_cases reached : value ≤ high
  · have inside : 0 ≤ (value : Int) ∧ (value : Int) ≤ field.max := by omega
    have next : wrap (value + step.value) = ((value + step.value.toNat : Nat) : Int) := by
      rw [wrap_of_fits (by omega) (fits reached)]
      omega
    have later : value + step.value.toNat ≤ high → ((value + step.value.toNat : Nat) : Int) + step.value ≤ maxInt := by
      intro near
      simp only [maxInt]
      omega
    obtain ⟨marked, run, length, flags⟩ := mark_flags field step bound (value + step.value.toNat)
      (values.set value true) (by rw [length_set, full]) later
    refine ⟨marked, ?_, length, ?_⟩
    · rw [mark, if_pos (by omega), dif_pos inside, next, Int.toNat_natCast, run]
    · intro other
      rw [flags, flag_set (by omega), @stepped_iff value step.value.toNat other (by omega)]
      by_cases same : other = value
      · simp [same, reached]
      · simp [same]
  · refine ⟨values, ?_, full, ?_⟩
    · rw [mark, if_neg (by omega)]
    · intro other
      refine ⟨.inl, fun found => found.resolve_right ?_⟩
      rintro ⟨⟨above, -⟩, below⟩
      omega
termination_by field.max + 1 - value
decreasing_by omega

theorem mark_over (field : Field) (step : Step) {high : Nat} (bound : high ≤ field.max) (reached : value ≤ high)
    (excess : maxInt < value + step.value) (values : List Bool) :
    ∃ index, mark field step high value values = .error (.index index) := by
  have small := field.small
  have fits := step.fits
  have negative : wrap (value + step.value) < 0 := wrap_of_over excess (by omega)
  refine ⟨wrap (value + step.value), ?_⟩
  rw [mark, if_pos (by omega), dif_pos (by omega), mark, if_pos (by omega), dif_neg (by omega)]

/-! ### Items are read as they are written -/

/-- The last value that the loop may flag. -/
def Base.reached (field : Field) (step : Int) : Base → Nat
  | star => field.max
  | single value => if 1 < step ∧ wrap (value + step) ≤ field.max then field.max else value
  | range _ high => high

variable {field : Field}
variable {base : Base}

theorem Base.Within.bounds (within : base.Within field) (step : Int) :
    base.first field ≤ base.reached field step ∧ base.reached field step ≤ field.max := by
  cases base with
  | star => exact ⟨field.ordered, Nat.le_refl _⟩
  | single value =>
    simp only [Base.first, Base.reached]
    split
    · exact ⟨within.2, Nat.le_refl _⟩
    · exact ⟨Nat.le_refl _, within.2⟩
  | range low high => exact ⟨within.2.1, within.2.2⟩

theorem Signed.cons {value : Nat} (signed : Signed text value) : ∃ head tail, text = head :: tail ∧ head ≠ '*' := by
  cases signed with
  | plain numeral =>
    obtain ⟨some_digit, decimal, -⟩ := numeral
    obtain ⟨head, tail, rfl⟩ := exists_cons_of_ne_nil some_digit
    refine ⟨head, tail, rfl, ?_⟩
    rintro rfl
    exact absurd (decimal '*' mem_cons_self) (by decide)
  | plus numeral => exact ⟨'+', _, rfl, by decide⟩
  | minus numeral => exact ⟨'-', _, rfl, by decide⟩

variable {char : Char}

theorem takeWhile_before {before : Text} (free : char ∉ before) (after : Text) :
    (before ++ char :: after).takeWhile (· ≠ char) = before ∧
      (before ++ char :: after).dropWhile (· ≠ char) = char :: after := by
  have passed : ∀ other ∈ before, decide (other ≠ char) = true := by
    intro other member
    rw [decide_eq_true_eq]
    rintro rfl
    exact free member
  constructor
  · rw [takeWhile_append_of_pos passed, takeWhile_cons_of_neg (by simp), append_nil]
  · rw [dropWhile_append_of_pos passed, dropWhile_cons_of_neg (by simp)]

theorem parseBounds_of (written : WritesBase Signed text base) (within : base.Within field) (step : Step) :
    parseBounds field step text = .ok (base.first field, base.reached field step.value) := by
  have small := field.small
  have large : (60 : Int) < maxInt := by decide
  cases written with
  | star => rfl
  | @single text value signed free =>
    obtain ⟨head, tail, shape, no_star⟩ := signed.cons
    have other : text ≠ ['*'] := by
      rintro rfl
      exact no_star (List.cons.inj shape).1.symm
    have undashed : text.contains '-' = false := by simpa using free
    have inside : ¬ ((value : Int) < field.min ∨ (field.max : Int) < value) := by
      have := within.1
      have := within.2
      omega
    have read : atoi text = some (value : Int) := by
      rw [atoi_signed signed, if_pos (by omega)]
    simp only [parseBounds, if_neg other, undashed, read, if_neg inside, Base.first, Base.reached, Bool.false_eq_true, if_false]
    split
    · rfl
    · rfl
  | @range first low second high signed free signed_high =>
    have other : first ++ '-' :: second ≠ ['*'] := by
      intro same
      have listed : '-' ∈ ['*'] := same ▸ mem_append_right first mem_cons_self
      exact absurd listed (by decide)
    have dashed : (first ++ '-' :: second).contains '-' = true := by simp
    obtain ⟨before, after⟩ := takeWhile_before free second
    have inside : ¬ ((low : Int) < field.min ∨ (field.max : Int) < high ∨ (high : Int) < low) := by
      have := within.1
      have := within.2.1
      have := within.2.2
      omega
    have read_low : atoi first = some (low : Int) := by
      rw [atoi_signed signed, if_pos (by omega)]
    have read_high : atoi second = some (high : Int) := by
      rw [atoi_signed signed_high, if_pos (by omega)]
    simp only [parseBounds, if_neg other, dashed, if_true, before, after, tail_cons, read_low, read_high, if_neg inside,
      Base.first, Base.reached]

theorem split_at (listed : char ∈ text) :
    text = text.takeWhile (· ≠ char) ++ char :: (text.dropWhile (· ≠ char)).tail := by
  have parts := takeWhile_append_dropWhile (p := fun other => decide (other ≠ char)) (l := text)
  cases behind : text.dropWhile (· ≠ char) with
  | nil =>
    have passed := dropWhile_eq_nil_iff.mp behind char listed
    simp at passed
  | cons head tail =>
    have stop := head_dropWhile_not (fun other => decide (other ≠ char)) (l := text) (by rw [behind]; simp)
    have same : head = char := by
      simp only [behind, head_cons] at stop
      simpa using stop
    rw [behind, same] at parts
    exact parts.symm

theorem takeWhile_free (char : Char) (text : Text) : char ∉ text.takeWhile (· ≠ char) := by
  intro listed
  have passed := mem_takeWhile_imp listed
  simp at passed

theorem parseBounds_ok {step : Step} {low high : Int} (read : parseBounds field step text = .ok (low, high)) :
    ∃ base, WritesBase Signed text base ∧ base.Within field := by
  unfold parseBounds at read
  split at read
  · rename_i starred
    exact ⟨.star, starred ▸ .star, trivial⟩
  split at read
  · rename_i dashed
    dsimp only at read
    split at read
    · cases read
    · cases read
    · rename_i low high read_low read_high
      split at read
      · cases read
      · obtain ⟨low, rfl⟩ := Int.eq_ofNat_of_zero_le (a := low) (by omega)
        obtain ⟨high, rfl⟩ := Int.eq_ofNat_of_zero_le (a := high) (by omega)
        refine ⟨.range low high, ?_, by simp only [Base.Within]; omega⟩
        have listed : '-' ∈ text := by simpa using dashed
        rw [split_at listed]
        exact .range (signed_of_atoi read_low) (takeWhile_free '-' text) (signed_of_atoi read_high)
  · rename_i undashed
    split at read
    · cases read
    · rename_i value read_value
      split at read
      · cases read
      · obtain ⟨value, rfl⟩ := Int.eq_ofNat_of_zero_le (a := value) (by omega)
        exact ⟨.single value, .single (signed_of_atoi read_value) (by simpa using undashed),
          by simp only [Base.Within]; omega⟩

theorem dropWhile_free (free : char ∉ text) : text.dropWhile (· ≠ char) = [] := by
  rw [dropWhile_eq_nil_iff]
  intro other member
  rw [decide_eq_true_eq]
  rintro rfl
  exact free member

theorem parseStep_plain (free : '/' ∉ text) :
    parseStep text = .ok (⟨1, by decide, by decide⟩, text) := by
  unfold parseStep
  split
  · rfl
  · rename_i found
    cases (dropWhile_free free).symm.trans found

theorem parseStep_stepped {stepText : Text} {step : Nat} (free : '/' ∉ text) (signed : Signed stepText step)
    (positive : 0 < step) :
    if small : (step : Int) ≤ maxInt then
      parseStep (text ++ '/' :: stepText) = .ok (⟨step, by omega, small⟩, text)
    else parseStep (text ++ '/' :: stepText) = .error (.step stepText) := by
  obtain ⟨before, after⟩ := takeWhile_before free stepText
  have read := atoi_signed signed
  split
  · rename_i small
    rw [if_pos small] at read
    unfold parseStep
    split
    · rename_i found
      cases after.symm.trans found
    · rename_i found
      obtain ⟨-, rfl⟩ := List.cons.inj (after.symm.trans found)
      split
      · rename_i missing
        cases read.symm.trans missing
      · rename_i parsed again
        obtain rfl := Option.some.inj (read.symm.trans again)
        rw [dif_pos (by omega), before]
  · rename_i large
    rw [if_neg large] at read
    unfold parseStep
    split
    · rename_i found
      cases after.symm.trans found
    · rename_i found
      obtain ⟨-, rfl⟩ := List.cons.inj (after.symm.trans found)
      split
      · rfl
      · rename_i again
        cases read.symm.trans again

variable {part : Text}

theorem parseStep_ok {base : Text} {step : Step} (read : parseStep part = .ok (step, base)) :
    '/' ∉ base ∧
      (part = base ∨ ∃ stepText, part = base ++ '/' :: stepText ∧ Signed stepText step.value.toNat) := by
  unfold parseStep at read
  split at read
  · rename_i none_left
    obtain ⟨-, rfl⟩ := Prod.mk.inj (Except.ok.inj read)
    refine ⟨fun listed => ?_, .inl rfl⟩
    have passed := dropWhile_eq_nil_iff.mp none_left '/' listed
    simp at passed
  · rename_i slash stepText found
    split at read
    · cases read
    · rename_i parsed number
      split at read
      · rename_i positive
        obtain ⟨rfl, rfl⟩ := Prod.mk.inj (Except.ok.inj read)
        refine ⟨takeWhile_free '/' part, .inr ⟨stepText, ?_, ?_⟩⟩
        · have listed : '/' ∈ part := by
            by_contra free
            cases (dropWhile_free free).symm.trans found
          have parts := split_at listed
          rw [found, tail_cons] at parts
          exact parts
        · exact signed_of_atoi (number.trans (congrArg some (Int.toNat_of_nonneg (by omega)).symm))
      · cases read

/-! ### What a field flags -/

variable {item : Item}

theorem Item.marks_of_names (usual : ∀ lone, ¬ item.LoneUnit lone) (value : Nat) :
    item.Names field value ↔ item.Marks field value :=
  ⟨fun named => ⟨named, fun lone unit => absurd unit (usual lone)⟩, And.left⟩

theorem marks_iff (within : item.base.Within field) (positive : 0 < item.stride) (fits : item.Fits field)
    (value : Nat) :
    ((item.base.first field ≤ value ∧ (value - item.base.first field) % item.stride = 0) ∧
      value ≤ item.base.reached field item.stride) ↔ item.Marks field value := by
  obtain ⟨base, step⟩ := item
  cases base with
  | star => exact Item.marks_of_names (fun lone unit => by cases unit) value
  | range low high => exact Item.marks_of_names (fun lone unit => by cases unit) value
  | single first =>
    cases step with
    | none => exact Item.marks_of_names (fun lone unit => by cases unit) value
    | some stride =>
      simp only [Item.Fits, Base.first, Item.stride, Option.getD_some] at fits positive
      simp only [Base.Within] at within
      have whole : wrap ((first : Int) + stride) = ((first + stride : Nat) : Int) := by
        rw [wrap_of_fits (by omega) (by simp only [maxInt]; omega)]
        omega
      by_cases unit : stride = 1
      · subst unit
        have reached : Base.reached field ((1 : Nat) : Int) (.single first) = first := by
          rw [Base.reached, if_neg (fun more => absurd more.1 (by omega))]
        simp only [Item.stride, Option.getD_some, Base.first, reached, Item.Marks, Item.Names, Item.last, Item.LoneUnit]
        constructor
        · rintro ⟨⟨above, aligned⟩, below⟩
          refine ⟨⟨⟨above, aligned⟩, by omega⟩, ?_⟩
          rintro lone same
          cases same
          omega
        · rintro ⟨⟨from_first, -⟩, lone⟩
          exact ⟨from_first, Nat.le_of_eq (lone first rfl)⟩
      · have usual : ∀ lone, ¬ Item.LoneUnit ⟨.single first, some stride⟩ lone := by
          rintro lone same
          cases same
          exact unit rfl
        rw [← Item.marks_of_names usual]
        simp only [Item.stride, Option.getD_some, Base.first, Base.reached, Item.Names, Item.last, whole]
        by_cases near : first + stride ≤ field.max
        · rw [if_pos (by omega)]
        · rw [if_neg (by omega)]
          refine and_congr_right ?_
          rintro ⟨above, aligned⟩
          constructor
          · intro below
            omega
          · intro below
            rw [Nat.mod_eq_of_lt (by omega)] at aligned
            omega

theorem Writes.within_stride {number : Text → Nat → Prop} (written : Writes number part item) : 0 < item.stride := by
  cases written with
  | plain => exact Nat.one_pos
  | stepped _ _ _ positive => exact positive

theorem Writes.nonempty (written : Writes Signed part item) : part ≠ [] := by
  rintro rfl
  generalize empty : ([] : Text) = part at written
  cases written with
  | plain base =>
    cases base with
    | star => cases empty
    | single signed =>
      obtain ⟨head, tail, shape, -⟩ := signed.cons
      cases empty.trans shape
    | range => simp at empty
  | stepped => simp at empty

theorem parseItem_of (written : Writes Signed part item) (within : item.base.Within field) (fits : item.Fits field)
    (full : values.length = field.max + 1) :
    ∃ marked, parseItem field values part = .ok marked ∧ marked.length = field.max + 1 ∧
      ∀ value, flag marked value = true ↔ flag values value = true ∨ item.Marks field value := by
  have positive := written.within_stride
  have nonempty := written.nonempty
  have runs : ∀ (step : Step) (text : Text), step.value = item.stride → parseStep part = .ok (step, text) →
      WritesBase Signed text item.base →
      ∃ marked, parseItem field values part = .ok marked ∧ marked.length = field.max + 1 ∧
        ∀ value, flag marked value = true ↔ flag values value = true ∨ item.Marks field value := by
    intro step text stride read base
    obtain ⟨marked, run, length, flags⟩ := mark_flags field step (within.bounds step.value).2 (item.base.first field)
      values full (fun _ => by
        simp only [Item.Fits] at fits
        simp only [maxInt]
        omega)
    refine ⟨marked, ?_, length, ?_⟩
    · rw [parseItem, if_neg nonempty, read]
      dsimp only
      rw [parseBounds_of base within]
      exact run
    · intro value
      rw [flags, ← marks_iff within positive fits, stride, Int.toNat_natCast]
  cases written with
  | plain base free => exact runs _ _ rfl (parseStep_plain free) base
  | @stepped text base stepText step written free signed more =>
    have small : (step : Int) ≤ maxInt := by
      simp only [Item.Fits, Item.stride, Option.getD_some] at fits
      simp only [maxInt]
      omega
    have read := parseStep_stepped free signed more
    rw [dif_pos small] at read
    exact runs _ _ rfl read written

theorem parseItem_over (written : Writes Signed part item) (within : item.base.Within field)
    (excess : ¬ item.Fits field) (values : List Bool) :
    ∃ failure, parseItem field values part = .error failure := by
  have small := field.small
  have bounds := within.bounds
  have nonempty := written.nonempty
  cases written with
  | @plain text base written free =>
    have near := bounds 1
    simp only [Item.Fits, Item.stride, Option.getD_none] at excess near
    omega
  | @stepped text base stepText step written free signed more =>
    have read := parseStep_stepped free signed more
    rw [parseItem, if_neg nonempty]
    split at read
    · rename_i fits
      rw [read]
      dsimp only
      rw [parseBounds_of written within]
      have near := bounds step
      simp only [Item.Fits, Item.stride, Option.getD_some] at excess near
      obtain ⟨index, panic⟩ := mark_over field ⟨step, by omega, fits⟩ near.2 near.1
        (by simp only [maxInt]; omega) values
      exact ⟨_, panic⟩
    · exact ⟨_, by rw [read]⟩

theorem parseItem_ok {marked : List Bool} (read : parseItem field values part = .ok marked) :
    ∃ item, Writes Signed part item ∧ item.base.Within field ∧ item.Fits field := by
  have shaped : ∃ item, Writes Signed part item ∧ item.base.Within field := by
    unfold parseItem at read
    split at read
    · cases read
    split at read
    · cases read
    rename_i step text read_step
    split at read
    · cases read
    rename_i low high read_bounds
    obtain ⟨base, written, within⟩ := parseBounds_ok read_bounds
    obtain ⟨free, rfl | ⟨stepText, rfl, signed⟩⟩ := parseStep_ok read_step
    · exact ⟨⟨base, none⟩, .plain written free, within⟩
    · have positive := step.positive
      exact ⟨⟨base, some step.value.toNat⟩, .stepped written free signed (by omega), within⟩
  obtain ⟨item, written, within⟩ := shaped
  refine ⟨item, written, within, ?_⟩
  by_contra excess
  obtain ⟨failure, failed⟩ := parseItem_over written within excess values
  cases failed.symm.trans read

variable {parts : List Text} {items : List Item}

theorem parseItems_of
    (written : List.Forall₂ (fun part item => Writes Signed part item ∧ item.base.Within field) parts items)
    (fits : ∀ item ∈ items, item.Fits field) (values : List Bool) (full : values.length = field.max + 1) :
    ∃ marked, parseItems field values parts = .ok marked ∧ marked.length = field.max + 1 ∧
      ∀ value, flag marked value = true ↔ flag values value = true ∨ ∃ item ∈ items, item.Marks field value := by
  induction written generalizing values with
  | nil => exact ⟨values, rfl, full, fun value => by simp⟩
  | @cons part item parts items head _ ih =>
    obtain ⟨between, read, length, first⟩ := parseItem_of head.1 head.2 (fits item mem_cons_self) full
    obtain ⟨marked, rest, length, later⟩ := ih (fun other member => fits other (mem_cons_of_mem item member))
      between length
    refine ⟨marked, ?_, length, ?_⟩
    · rw [parseItems, read]
      exact rest
    · intro value
      rw [later, first, or_assoc, exists_mem_cons_iff]

theorem parseItems_over
    (written : List.Forall₂ (fun part item => Writes Signed part item ∧ item.base.Within field) parts items)
    (excess : ∃ item ∈ items, ¬ item.Fits field) (values : List Bool) (full : values.length = field.max + 1) :
    ∃ failure, parseItems field values parts = .error failure := by
  induction written generalizing values with
  | nil =>
    obtain ⟨item, member, -⟩ := excess
    cases member
  | @cons part item parts items head _ ih =>
    by_cases fits : item.Fits field
    · obtain ⟨between, read, length, -⟩ := parseItem_of head.1 head.2 fits full
      obtain ⟨other, member, large⟩ := excess
      have later : other ∈ items := (mem_cons.mp member).resolve_left fun same => large (same ▸ fits)
      obtain ⟨failure, failed⟩ := ih ⟨other, later, large⟩ between length
      refine ⟨failure, ?_⟩
      rw [parseItems, read]
      exact failed
    · obtain ⟨failure, failed⟩ := parseItem_over head.1 head.2 fits values
      exact ⟨failure, by rw [parseItems, failed]⟩

theorem parseItems_ok {marked : List Bool} (read : parseItems field values parts = .ok marked) :
    ∃ items, List.Forall₂ (fun part item => Writes Signed part item ∧ item.base.Within field) parts items ∧
      ∀ item ∈ items, item.Fits field := by
  induction parts generalizing values with
  | nil => exact ⟨[], .nil, fun item member => by cases member⟩
  | cons part parts ih =>
    rw [parseItems] at read
    split at read
    · cases read
    · rename_i between first
      obtain ⟨item, written, within, fits⟩ := parseItem_ok first
      obtain ⟨items, later, all⟩ := ih read
      exact ⟨item :: items, .cons ⟨written, within⟩ later, forall_mem_cons.mpr ⟨fits, all⟩⟩

def Flags (field : Field) (items : List Item) (values : List Bool) : Prop :=
  values.length = field.max + 1 ∧ ∀ value, flag values value = true ↔ ∃ item ∈ items, item.Marks field value

theorem parseField_of (holds : Holds Signed field text items) (fits : ∀ item ∈ items, item.Fits field) :
    ∃ values, parseField field text = .ok values ∧ Flags field items values := by
  obtain ⟨values, read, length, flags⟩ := parseItems_of holds fits (List.replicate (field.max + 1) false)
    length_replicate
  refine ⟨values, read, length, ?_⟩
  intro value
  have clear : flag (List.replicate (field.max + 1) false) value = false := by
    simp only [flag, getD_eq_getElem?_getD, getElem?_replicate]
    split
    · rfl
    · rfl
  rw [flags, clear, Bool.false_eq_true, false_or]

theorem parseField_over (holds : Holds Signed field text items) (excess : ∃ item ∈ items, ¬ item.Fits field) :
    ∃ failure, parseField field text = .error failure :=
  parseItems_over holds excess (List.replicate (field.max + 1) false) length_replicate

theorem parseField_ok (read : parseField field text = .ok values) :
    ∃ items, Holds Signed field text items ∧ (∀ item ∈ items, item.Fits field) ∧ Flags field items values := by
  obtain ⟨items, holds, fits⟩ := parseItems_ok read
  obtain ⟨again, same, flags⟩ := parseField_of holds fits
  cases same.symm.trans read
  exact ⟨items, holds, fits, flags⟩

theorem WritesBase.signed (written : WritesBase Numeral text base) : WritesBase Signed text base := by
  cases written with
  | star => exact .star
  | single numeral free => exact .single (.plain numeral) free
  | range low free high => exact .range (.plain low) free (.plain high)

theorem Writes.signed (written : Writes Numeral text item) : Writes Signed text item := by
  cases written with
  | plain base free => exact .plain base.signed free
  | stepped base free step positive => exact .stepped base.signed free (.plain step) positive

theorem Holds.signed (holds : Holds Numeral field text items) : Holds Signed field text items :=
  Forall₂.imp (fun _ _ item => ⟨item.1.signed, item.2⟩) holds

end AstrLink.CronFields
