import Mathlib.Algebra.Ring.Nat
import Mathlib.Data.List.DropRight

/-!
The times of stored records, as texts. A time is written in UTC down to the
nanosecond, without the zeros that end its fraction, and a written time reads back
as it was (`parseUTC_format`). Texts are compared byte by byte, so times with and
without a fraction need not lie in the order of the instants.
-/
namespace AstrLink.StoredTimes
open List

abbrev Text := List UInt8

/-- Whether a text comes before another, byte by byte. -/
def before : Text → Text → Bool
  | _, [] => false
  | [], _ :: _ => true
  | byte :: rest, other :: more =>
    if byte.toNat < other.toNat then true else if other.toNat < byte.toNat then false else before rest more

theorem before_cons {byte other : UInt8} {rest more : Text} :
    before (byte :: rest) (other :: more) = true ↔
      byte.toNat < other.toNat ∨ (byte.toNat = other.toNat ∧ before rest more = true) := by
  rw [before]
  rcases Nat.lt_trichotomy byte.toNat other.toNat with below | same | above
  · simp [below]
  · simp [same]
  · rw [if_neg (by omega), if_pos above]
    constructor
    · intro contra
      cases contra
    · intro either
      omega

theorem before_irrefl (text : Text) : before text text = false := by
  induction text with
  | nil => rfl
  | cons byte rest ih => rw [before, if_neg (Nat.lt_irrefl _), if_neg (Nat.lt_irrefl _), ih]

theorem before_trans {text middle other : Text} (first : before text middle = true) (second : before middle other = true) :
    before text other = true := by
  induction text generalizing middle other with
  | nil =>
    cases other with
    | nil => cases middle <;> cases second
    | cons => rfl
  | cons byte rest ih =>
    cases middle with
    | nil => cases first
    | cons byte' rest' =>
      cases other with
      | nil => cases second
      | cons byte'' rest'' =>
        rw [before_cons] at first second ⊢
        rcases first with below | ⟨same, first⟩
        · omega
        · rcases second with below | ⟨same', second⟩
          · omega
          · exact .inr ⟨same.trans same', ih first second⟩

theorem before_total {text other : Text} (apart : text ≠ other) : before text other = true ∨ before other text = true := by
  induction text generalizing other with
  | nil =>
    cases other with
    | nil => exact absurd rfl apart
    | cons => exact .inl rfl
  | cons byte rest ih =>
    cases other with
    | nil => exact .inr rfl
    | cons byte' rest' =>
      rw [before_cons, before_cons]
      rcases Nat.lt_trichotomy byte.toNat byte'.toNat with below | same | above
      · exact .inl (.inl below)
      · have others : rest ≠ rest' := by
          rintro rfl
          exact apart (by rw [UInt8.toNat_inj.mp same])
        rcases ih others with first | second
        · exact .inl (.inr ⟨same, first⟩)
        · exact .inr (.inr ⟨same.symm, second⟩)
      · exact .inr (.inl above)

def isLeap (year : Nat) : Bool := year % 4 == 0 && (year % 100 != 0 || year % 400 == 0)

def daysIn (month year : Nat) : Nat :=
  if month = 2 then (if isLeap year then 29 else 28)
  else if month = 4 ∨ month = 6 ∨ month = 9 ∨ month = 11 then 30
  else 31

/-- A time in UTC whose year has four digits. -/
structure Time where
  year : Nat
  month : Nat
  day : Nat
  hour : Nat
  minute : Nat
  second : Nat
  nanosecond : Nat
  year_le : year ≤ 9999
  month_range : 1 ≤ month ∧ month ≤ 12
  day_range : 1 ≤ day ∧ day ≤ daysIn month year
  hour_lt : hour < 24
  minute_lt : minute < 60
  second_lt : second < 60
  nanosecond_lt : nanosecond < 1000000000

def digit (value : Nat) : UInt8 := UInt8.ofNat (48 + value % 10)

/-- The last digits of a number. -/
def padded : Nat → Nat → Text
  | 0, _ => []
  | width + 1, value => padded width (value / 10) ++ [digit value]

/-- The fraction of a second, without the zeros that end it. -/
def fraction (nanosecond : Nat) : Text :=
  if nanosecond = 0 then [] else 46 :: (padded 9 nanosecond).rdropWhile (· == 48)

def Time.toSecond (time : Time) : Text :=
  padded 4 time.year ++ 45 :: padded 2 time.month ++ 45 :: padded 2 time.day ++ 84 :: padded 2 time.hour ++
    58 :: padded 2 time.minute ++ 58 :: padded 2 time.second

/-- `UTC().Format(time.RFC3339Nano)` -/
def Time.format (time : Time) : Text := time.toSecond ++ (fraction time.nanosecond ++ [90])

def isDigit (byte : UInt8) : Bool := 48 ≤ byte.toNat && byte.toNat ≤ 57

def number (text : Text) : Option Nat :=
  if text.all isDigit then some (text.foldl (fun value byte => value * 10 + (byte.toNat - 48)) 0) else none

def field (text : Text) (start width : Nat) : Text := (text.drop start).take width

def timeOf (year month day hour minute second nanosecond : Nat) : Option Time :=
  if valid : year ≤ 9999 ∧ (1 ≤ month ∧ month ≤ 12) ∧ (1 ≤ day ∧ day ≤ daysIn month year) ∧ hour < 24 ∧ minute < 60 ∧
      second < 60 ∧ nanosecond < 1000000000 then
    some ⟨year, month, day, hour, minute, second, nanosecond, valid.1, valid.2.1, valid.2.2.1, valid.2.2.2.1,
      valid.2.2.2.2.1, valid.2.2.2.2.2.1, valid.2.2.2.2.2.2⟩
  else none

/-- The nanoseconds of a fraction's digits; those after the ninth are dropped. -/
def nanoseconds (digits : Text) : Option Nat :=
  (number (digits.take 9)).map fun value => value * 10 ^ (9 - (digits.take 9).length)

/-- What follows the seconds: a fraction, if there is one, and the zone. -/
def parseFraction : Text → Option Nat × Text
  | 46 :: byte :: rest =>
    if isDigit byte then (nanoseconds ((byte :: rest).takeWhile isDigit), (byte :: rest).dropWhile isDigit)
    else (some 0, 46 :: byte :: rest)
  | rest => (some 0, rest)

/-- `time.Parse(time.RFC3339Nano, text)` of a text in UTC. -/
def parseUTC (text : Text) : Option Time :=
  if text.length < 19 then none
  else if field text 4 1 ≠ [45] ∨ field text 7 1 ≠ [45] ∨ field text 10 1 ≠ [84] ∨ field text 13 1 ≠ [58] ∨
      field text 16 1 ≠ [58] then none
  else do
    let year ← number (field text 0 4)
    let month ← number (field text 5 2)
    let day ← number (field text 8 2)
    let hour ← number (field text 11 2)
    let minute ← number (field text 14 2)
    let second ← number (field text 17 2)
    let (nanosecond, zone) := parseFraction (text.drop 19)
    let nanosecond ← nanosecond
    if zone = [90] then timeOf year month day hour minute second nanosecond else none

/-- A text read as a time and written again; `other` takes its other forms. -/
def rewritten (other : Text → Option Text) (text : Text) : Option Text :=
  match parseUTC text with
  | some time => some time.format
  | none => other text

theorem digit_toNat (value : Nat) : (digit value).toNat = 48 + value % 10 := by
  rw [digit, UInt8.toNat_ofNat']
  omega

theorem isDigit_digit (value : Nat) : isDigit (digit value) = true := by
  rw [isDigit, digit_toNat]
  simp only [Bool.and_eq_true, decide_eq_true_eq]
  omega

theorem padded_length (width value : Nat) : (padded width value).length = width := by
  induction width generalizing value with
  | zero => rfl
  | succ width ih => rw [padded, length_append, ih, length_singleton]

theorem padded_digits (width value : Nat) : (padded width value).all isDigit = true := by
  induction width generalizing value with
  | zero => rfl
  | succ width ih => rw [padded, all_append, ih, all_cons, isDigit_digit]; rfl

theorem padded_value (width value : Nat) :
    (padded width value).foldl (fun value byte => value * 10 + (byte.toNat - 48)) 0 = value % 10 ^ width := by
  induction width generalizing value with
  | zero => rw [Nat.pow_zero, Nat.mod_one]; rfl
  | succ width ih =>
    rw [padded, foldl_append, ih, foldl_cons, foldl_nil, digit_toNat, Nat.pow_succ,
      Nat.mul_comm (10 ^ width) 10, Nat.mod_mul]
    omega

theorem number_padded {width value : Nat} (small : value < 10 ^ width) : number (padded width value) = some value := by
  rw [number, if_pos (padded_digits width value), padded_value, Nat.mod_eq_of_lt small]

structure FractionDigits (nanosecond : Nat) (digits : Text) : Prop where
  all : digits.all isDigit = true
  some_digit : digits ≠ []
  short : digits.length ≤ 9
  value : nanoseconds digits = some nanosecond

theorem fraction_digits {nanosecond : Nat} (some_time : nanosecond ≠ 0) (small : nanosecond < 1000000000) :
    FractionDigits nanosecond ((padded 9 nanosecond).rdropWhile (· == 48)) := by
  let digits := (padded 9 nanosecond).rdropWhile (· == 48)
  let zeros := (padded 9 nanosecond).rtakeWhile (· == 48)
  have split : digits ++ zeros = padded 9 nanosecond := rdropWhile_append_rtakeWhile
  have zero : zeros = List.replicate zeros.length 48 := eq_replicate_of_mem fun byte listed => by
    simpa using mem_rtakeWhile_imp listed
  have whole : digits.length + zeros.length = 9 := by
    rw [← length_append, split, padded_length]
  have all : digits.all isDigit = true := by
    have digits' := padded_digits 9 nanosecond
    rw [← split, all_append, Bool.and_eq_true] at digits'
    exact digits'.1
  have zeros_value : ∀ (count start : Nat), (List.replicate count (48 : UInt8)).foldl
      (fun value byte => value * 10 + (byte.toNat - 48)) start = start * 10 ^ count := by
    intro count
    induction count with
    | zero => intro start; simp
    | succ count ih =>
      intro start
      rw [replicate_succ, foldl_cons, ih, Nat.pow_succ']
      simp [Nat.mul_assoc]
  have worth : digits.foldl (fun value byte => value * 10 + (byte.toNat - 48)) 0 * 10 ^ zeros.length = nanosecond := by
    rw [← zeros_value, ← zero, ← foldl_append, split, padded_value]
    exact Nat.mod_eq_of_lt small
  constructor
  case all => exact all
  case some_digit =>
    intro none_left
    change digits = [] at none_left
    rw [none_left] at worth
    simp at worth
    exact some_time worth.symm
  case short =>
    change digits.length ≤ 9
    omega
  case value =>
    change nanoseconds digits = some nanosecond
    rw [nanoseconds, take_of_length_le (by omega), number, if_pos all, Option.map_some]
    have rest : 9 - digits.length = zeros.length := by omega
    rw [rest, worth]

theorem parseFraction_fraction {nanosecond : Nat} (small : nanosecond < 1000000000) :
    parseFraction (fraction nanosecond ++ [90]) = (some nanosecond, [90]) := by
  unfold fraction
  by_cases whole : nanosecond = 0
  · rw [if_pos whole, whole]
    rfl
  · rw [if_neg whole]
    have digits := fraction_digits whole small
    generalize (padded 9 nanosecond).rdropWhile (· == 48) = text at digits ⊢
    cases text with
    | nil => exact absurd rfl digits.some_digit
    | cons byte rest =>
      have first : isDigit byte = true := (Bool.and_eq_true_iff.mp digits.all).1
      have plain : ∀ other ∈ byte :: rest, isDigit other = true := all_eq_true.mp digits.all
      have taken : (byte :: rest ++ [90]).takeWhile isDigit = byte :: rest := by
        rw [takeWhile_append_of_pos plain]
        simp [isDigit]
      have dropped : (byte :: rest ++ [90]).dropWhile isDigit = [90] := by
        rw [dropWhile_append_of_pos plain]
        simp [isDigit]
      have read : parseFraction (46 :: (byte :: rest) ++ [90]) =
          if isDigit byte then (nanoseconds ((byte :: rest ++ [90]).takeWhile isDigit), (byte :: rest ++ [90]).dropWhile isDigit)
          else (some 0, 46 :: byte :: rest ++ [90]) := rfl
      rw [read, if_pos first, taken, dropped, digits.value]

theorem daysIn_le (month year : Nat) : daysIn month year ≤ 31 := by
  unfold daysIn
  split
  · split <;> omega
  · split <;> omega

theorem parseUTC_format (time : Time) : parseUTC time.format = some time := by
  have month := time.month_range
  have day := time.day_range
  have days := daysIn_le time.month time.year
  have hour := time.hour_lt
  have minute := time.minute_lt
  have second := time.second_lt
  have year := time.year_le
  rw [Time.format]
  generalize rest : fraction time.nanosecond ++ [90] = tail
  have long : ¬ (time.toSecond ++ tail).length < 19 := by
    simp [Time.toSecond, padded]
  have years : field (time.toSecond ++ tail) 0 4 = padded 4 time.year := rfl
  have months : field (time.toSecond ++ tail) 5 2 = padded 2 time.month := rfl
  have dayNumbers : field (time.toSecond ++ tail) 8 2 = padded 2 time.day := rfl
  have hours : field (time.toSecond ++ tail) 11 2 = padded 2 time.hour := rfl
  have minutes : field (time.toSecond ++ tail) 14 2 = padded 2 time.minute := rfl
  have seconds : field (time.toSecond ++ tail) 17 2 = padded 2 time.second := rfl
  have left : (time.toSecond ++ tail).drop 19 = tail := rfl
  rw [parseUTC, if_neg long, if_neg (by simp [field, Time.toSecond, padded]), years, months, dayNumbers, hours, minutes,
    seconds, left, ← rest, parseFraction_fraction time.nanosecond_lt, number_padded (by omega), number_padded (by omega),
    number_padded (by omega), number_padded (by omega), number_padded (by omega), number_padded (by omega)]
  simp only [Option.bind_eq_bind, Option.bind_some, if_true]
  rw [timeOf, dif_pos ⟨year, month, day, hour, minute, second, time.nanosecond_lt⟩]

theorem format_no_bar (time : Time) : ∀ byte ∈ time.format, byte ≠ 124 := by
  have digits : ∀ text : Text, text.all isDigit = true → ∀ byte ∈ text, byte ≠ 124 := by
    rintro text all _ listed rfl
    exact absurd (all_eq_true.mp all 124 listed) (by decide)
  have padding : ∀ width value byte, byte ∈ padded width value → byte ≠ 124 := fun width value =>
    digits _ (padded_digits width value)
  have decimals : ∀ byte ∈ fraction time.nanosecond, byte ≠ 124 := by
    intro byte listed
    unfold fraction at listed
    by_cases whole : time.nanosecond = 0
    · rw [if_pos whole] at listed
      cases listed
    · rw [if_neg whole] at listed
      rcases mem_cons.mp listed with rfl | listed
      · decide
      · exact digits _ (fraction_digits whole time.nanosecond_lt).all byte listed
  intro byte listed
  simp only [Time.format, Time.toSecond, mem_append, mem_cons, not_mem_nil, or_false] at listed
  rcases listed with (((((listed | rfl | listed) | rfl | listed) | rfl | listed) | rfl | listed) | rfl | listed) | listed | rfl
  all_goals first | exact padding _ _ byte listed | exact decimals byte listed | decide

theorem rewritten_format (other : Text → Option Text) (time : Time) : rewritten other time.format = some time.format := by
  rw [rewritten, parseUTC_format]

end AstrLink.StoredTimes
