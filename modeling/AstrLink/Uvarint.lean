import Mathlib.Algebra.Ring.Nat

/-!
Numbers as bytes of seven bits, lowest first, every byte but the last with its
high bit set. A number below `2 ^ 64` reads back from what is appended for it,
whatever follows (`uvarint_append`), and a read stays within the bytes it is
given (`uvarint_within`).
-/
namespace AstrLink.Uvarint

def appendUvarint (value : Nat) : List UInt8 :=
  if value < 0x80 then [UInt8.ofNat value] else (UInt8.ofNat value ||| 0x80) :: appendUvarint (value >>> 7)
termination_by value
decreasing_by
  rw [Nat.shiftRight_eq_div_pow]
  omega

/-- The number and the bytes read: none when the bytes end, fewer when it is too long. -/
def uvarintFrom (index value shift : Nat) : List UInt8 → Nat × Int
  | [] => (0, 0)
  | byte :: rest =>
    if index = 10 then (0, -(index + 1))
    else if byte < 0x80 then
      if index = 9 ∧ 1 < byte then (0, -(index + 1)) else (value ||| byte.toNat <<< shift, index + 1)
    else uvarintFrom (index + 1) (value ||| (byte &&& 0x7f).toNat <<< shift) (shift + 7) rest

def uvarint (bytes : List UInt8) : Nat × Int := uvarintFrom 0 0 0 bytes

theorem uvarintFrom_within {index value shift : Nat} {bytes : List UInt8} :
    (uvarintFrom index value shift bytes).2 ≤ index + bytes.length := by
  induction bytes generalizing index value shift with
  | nil =>
    rw [uvarintFrom]
    omega
  | cons byte rest ih =>
    rw [uvarintFrom, List.length_cons]
    split
    · dsimp only
      omega
    · split
      · split
        · dsimp only
          omega
        · dsimp only
          omega
      · have bound := @ih (index + 1) (value ||| (byte &&& 0x7f).toNat <<< shift) (shift + 7)
        omega

theorem uvarint_within (bytes : List UInt8) : (uvarint bytes).2 ≤ bytes.length := by
  have bound := @uvarintFrom_within 0 0 0 bytes
  rw [uvarint]
  omega

theorem or_shift {value shift : Nat} (small : value < 2 ^ shift) (more : Nat) :
    value ||| more <<< shift = value + more * 2 ^ shift := by
  rw [Nat.or_comm, Nat.shiftLeft_eq, Nat.mul_comm, ← Nat.two_pow_add_eq_or_of_lt small, Nat.add_comm, Nat.mul_comm]

theorem low_bits (value : Nat) : ((UInt8.ofNat value ||| 0x80) &&& 0x7f).toNat = value % 128 := by
  have mask : (0x7f : UInt8).toNat = 2 ^ 7 - 1 := rfl
  have high : (0x80 : UInt8).toNat % 2 ^ 7 = 0 := rfl
  rw [UInt8.toNat_and, mask, Nat.and_two_pow_sub_one_eq_mod, UInt8.toNat_or, Nat.or_mod_two_pow, high, Nat.or_zero,
    UInt8.toNat_ofNat']
  omega

theorem high_bit (value : Nat) : ¬(UInt8.ofNat value ||| 0x80) < 0x80 := by
  have high : (0x80 : UInt8).toNat ≤ (UInt8.ofNat value ||| 0x80).toNat := by
    rw [UInt8.toNat_or]
    exact Nat.right_le_or
  exact fun contra => absurd (UInt8.lt_iff_toNat_lt.mp contra) (Nat.not_lt.mpr high)

theorem uvarintFrom_append {index value sofar shift : Nat} (place : shift = 7 * index) (early : index ≤ 9)
    (small : sofar < 2 ^ shift) (fits : value * 2 ^ shift < 2 ^ 64) (rest : List UInt8) :
    uvarintFrom index sofar shift (appendUvarint value ++ rest) =
      (sofar + value * 2 ^ shift, ((index + (appendUvarint value).length : Nat) : Int)) := by
  induction value using Nat.strongRecOn generalizing index sofar shift with
  | ind value ih =>
    have within : index ≠ 10 := by omega
    by_cases short : value < 0x80
    · have whole : (UInt8.ofNat value).toNat = value := by
        rw [UInt8.toNat_ofNat']
        omega
      have last : UInt8.ofNat value < 0x80 := by
        rw [UInt8.lt_iff_toNat_lt, whole]
        exact short
      have one : ¬(index = 9 ∧ 1 < UInt8.ofNat value) := by
        rintro ⟨rfl, above⟩
        rw [UInt8.lt_iff_toNat_lt, whole] at above
        have above : 1 < value := above
        subst place
        omega
      have written : appendUvarint value = [UInt8.ofNat value] := by
        rw [appendUvarint.eq_1, if_pos short]
      rw [written, List.singleton_append, uvarintFrom, if_neg within, if_pos last, if_neg one, whole, or_shift small]
      rfl
    · have written : appendUvarint value = (UInt8.ofNat value ||| 0x80) :: appendUvarint (value >>> 7) := by
        rw [appendUvarint.eq_1, if_neg short]
      have shifted : value >>> 7 = value / 128 := Nat.shiftRight_eq_div_pow value 7
      have parts : 128 * (value / 128) + value % 128 = value := Nat.div_add_mod value 128
      have power : 2 ^ (shift + 7) = 128 * 2 ^ shift := by
        rw [Nat.pow_add, Nat.mul_comm]
      have low : value % 128 < 128 := Nat.mod_lt value (by decide)
      have total : value * 2 ^ shift = value / 128 * 2 ^ (shift + 7) + value % 128 * 2 ^ shift := by
        conv => lhs; rw [← parts]
        rw [power, Nat.add_mul, Nat.mul_comm 128, Nat.mul_assoc]
      have later : index + 1 ≤ 9 := by
        refine Nat.le_of_not_lt fun tenth => ?_
        have nine : index = 9 := by omega
        subst nine place
        omega
      rw [written, List.cons_append, uvarintFrom, if_neg within, if_neg (high_bit value), low_bits, or_shift small,
        ih (value >>> 7) (by rw [shifted]; omega) (by omega) later, shifted, total]
      · rw [List.length_cons, Nat.add_assoc, Nat.add_comm (value % 128 * 2 ^ shift), Nat.add_assoc,
          Nat.add_comm 1]
      · rw [power]
        have bound : value % 128 * 2 ^ shift ≤ 127 * 2 ^ shift := Nat.mul_le_mul_right _ (by omega)
        omega
      · rw [shifted]
        omega

theorem uvarint_append {value : Nat} (fits : value < 2 ^ 64) (rest : List UInt8) :
    uvarint (appendUvarint value ++ rest) = (value, ((appendUvarint value).length : Int)) := by
  rw [uvarint, uvarintFrom_append rfl (Nat.zero_le _) (by decide) (by omega)]
  simp

theorem appendUvarint_some (value : Nat) : 0 < (appendUvarint value).length := by
  rw [appendUvarint.eq_1]
  split
  · exact Nat.one_pos
  · exact Nat.succ_pos _

end AstrLink.Uvarint
