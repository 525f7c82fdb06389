import Mathlib

/-!
Amounts of money as decimal texts. An amount is written with nine decimals
(`floatString`), and a decimal text is read exactly (`setString`): what is written of
a whole number of billionths reads back as it was (`setString_floatString`).
-/
namespace AstrLink.Amounts
open List

abbrev Text := List Char

/-- The magnitude in billionths, halves rounded away from zero. -/
def billionths (value : Rat) : Nat :=
  (2 * (value.num.natAbs * 1000000000) + value.den) / (2 * value.den)

def zeros (text : Text) : Text := List.replicate (9 - text.length) '0' ++ text

/-- `FloatString(9)` -/
def floatString (value : Rat) : Text :=
  (if value < 0 then ['-'] else []) ++ Nat.toDigits 10 (billionths value / 1000000000) ++
    '.' :: zeros (Nat.toDigits 10 (billionths value % 1000000000))

def numeral (text : Text) : Bool := !text.isEmpty && text.all Char.isDigit

/-- `SetString` of a decimal without a sign or an exponent. -/
def setString (text : Text) : Option Rat :=
  match text.span (· ≠ '.') with
  | (whole, []) => if numeral whole then some (Nat.ofDigitChars 10 whole 0) else none
  | (whole, _ :: decimals) =>
    if numeral whole && numeral decimals then
      some (Nat.ofDigitChars 10 (whole ++ decimals) 0 / 10 ^ decimals.length)
    else none

/-- An amount that nine decimals hold. -/
def Exact (value : Rat) : Prop := ∃ count : Nat, value = count / 1000000000

theorem Exact.zero : Exact 0 := ⟨0, by simp⟩

theorem Exact.add {left right : Rat} (exactLeft : Exact left) (exactRight : Exact right) : Exact (left + right) := by
  obtain ⟨one, rfl⟩ := exactLeft
  obtain ⟨other, rfl⟩ := exactRight
  exact ⟨one + other, by push_cast; ring⟩

theorem numeral_toDigits (value : Nat) : numeral (Nat.toDigits 10 value) = true := by
  unfold numeral
  have digits : (Nat.toDigits 10 value).all Char.isDigit = true :=
    all_eq_true.mpr fun char listed => Nat.isDigit_of_mem_toDigits (by omega) (by omega) listed
  rw [digits, Bool.and_true, Bool.not_eq_true', isEmpty_eq_false_iff]
  exact Nat.toDigits_ne_nil

theorem zeros_length {count : Nat} (small : count < 1000000000) : (zeros (Nat.toDigits 10 count)).length = 9 := by
  have short : (Nat.toDigits 10 count).length ≤ 9 := (Nat.length_toDigits_le_iff (by omega) (by omega)).mpr small
  rw [zeros, length_append, length_replicate]
  omega

variable (count : Nat)

theorem numeral_zeros : numeral (zeros (Nat.toDigits 10 count)) = true := by
  have digits := numeral_toDigits count
  unfold numeral at digits ⊢
  simp only [Bool.and_eq_true, Bool.not_eq_true', isEmpty_eq_false_iff, zeros, all_append] at digits ⊢
  refine ⟨by simp [digits.1], ?_, digits.2⟩
  exact all_eq_true.mpr fun char listed => by rw [eq_of_mem_replicate listed]; decide

theorem exact_nonneg : (0 : Rat) ≤ count / 1000000000 :=
  div_nonneg (Nat.cast_nonneg count) (by norm_num)

theorem billionths_exact : billionths (count / 1000000000) = count := by
  let value : Rat := count / 1000000000
  have positive : 0 < value.den := value.den_pos
  have unsigned : 0 ≤ value.num := Rat.num_nonneg.mpr (exact_nonneg count)
  have crossed : value.num * 1000000000 = count * value.den := by
    have quotient : (value.num : Rat) / value.den = count / 1000000000 := Rat.num_div_den value
    have apart : (value.den : Rat) ≠ 0 := Nat.cast_ne_zero.mpr positive.ne'
    field_simp at quotient
    rw [mul_comm (count : Int)]
    exact_mod_cast quotient
  have scaled : value.num.natAbs * 1000000000 = count * value.den := by
    have abs : (value.num.natAbs : Int) = value.num := Int.natAbs_of_nonneg unsigned
    exact_mod_cast (by rw [abs]; exact crossed : (value.num.natAbs : Int) * 1000000000 = count * value.den)
  calc billionths value
      = (2 * (count * value.den) + value.den) / (2 * value.den) := by rw [billionths, scaled]
    _ = (value.den * (2 * count + 1)) / (value.den * 2) := by congr 1 <;> ring
    _ = (2 * count + 1) / 2 := Nat.mul_div_mul_left _ _ positive
    _ = count := by omega

theorem floatString_exact : floatString (count / 1000000000) =
    Nat.toDigits 10 (count / 1000000000) ++ '.' :: zeros (Nat.toDigits 10 (count % 1000000000)) := by
  rw [floatString, if_neg (not_lt.mpr (exact_nonneg count)), billionths_exact, nil_append]

theorem span_point {whole : Text} (digits : numeral whole = true) (decimals : Text) :
    (whole ++ '.' :: decimals).span (· ≠ '.') = (whole, '.' :: decimals) := by
  rw [span_eq_takeWhile_dropWhile]
  have plain : ∀ char ∈ whole, (decide (char ≠ '.')) = true := by
    intro char listed
    have digit := all_eq_true.mp (Bool.and_eq_true_iff.mp digits).2 char listed
    rw [decide_eq_true_eq]
    rintro rfl
    cases digit
  rw [takeWhile_append_of_pos plain, dropWhile_append_of_pos plain]
  simp

theorem zeros_value : Nat.ofDigitChars 10 (zeros (Nat.toDigits 10 count)) 0 = count := by
  rw [zeros, Nat.ofDigitChars_append, Nat.ofDigitChars_replicate_zero, Nat.mul_zero, Nat.ofDigitChars_ten_toDigits]

theorem setString_floatString {value : Rat} (exact_value : Exact value) : setString (floatString value) = some value := by
  obtain ⟨count, rfl⟩ := exact_value
  have small : count % 1000000000 < 1000000000 := Nat.mod_lt _ (by omega)
  have digits : Nat.ofDigitChars 10 (Nat.toDigits 10 (count / 1000000000) ++
      zeros (Nat.toDigits 10 (count % 1000000000))) 0 = count := by
    rw [Nat.ofDigitChars_append, Nat.ofDigitChars_ten_toDigits, Nat.ofDigitChars_eq_ofDigitChars_zero, zeros_value,
      zeros_length small]
    omega
  rw [floatString_exact, setString, span_point (numeral_toDigits _)]
  dsimp only
  rw [if_pos (by rw [numeral_toDigits, numeral_zeros]; rfl), zeros_length small, digits]
  norm_num

end AstrLink.Amounts
