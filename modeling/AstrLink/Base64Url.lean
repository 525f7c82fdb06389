import Mathlib.Data.List.Basic

/-!
Base64 for URLs, without padding. Three bytes are written as four symbols of the
alphabet, and what is written reads back as it was (`decode_encode`).
-/
namespace AstrLink.Base64Url
open List

abbrev Bytes := List UInt8

def symbol (value : Nat) : UInt8 :=
  if value < 26 then UInt8.ofNat (65 + value)
  else if value < 52 then UInt8.ofNat (97 + (value - 26))
  else if value < 62 then UInt8.ofNat (48 + (value - 52))
  else if value = 62 then 45
  else 95

def valueOf (symbol : UInt8) : Option Nat :=
  let code := symbol.toNat
  if 65 ≤ code ∧ code ≤ 90 then some (code - 65)
  else if 97 ≤ code ∧ code ≤ 122 then some (code - 97 + 26)
  else if 48 ≤ code ∧ code ≤ 57 then some (code - 48 + 52)
  else if code = 45 then some 62
  else if code = 95 then some 63
  else none

/-- The six-bit values of bytes; what the last of them does not fill is zero. -/
def sextets : Bytes → List Nat
  | [] => []
  | [first] => [first.toNat / 4, first.toNat % 4 * 16]
  | [first, second] => [first.toNat / 4, first.toNat % 4 * 16 + second.toNat / 16, second.toNat % 16 * 4]
  | first :: second :: third :: rest =>
    first.toNat / 4 :: (first.toNat % 4 * 16 + second.toNat / 16) :: (second.toNat % 16 * 4 + third.toNat / 64) ::
      third.toNat % 64 :: sextets rest

def octets : List Nat → Option Bytes
  | [] => some []
  | [_] => none
  | [one, two] => some [UInt8.ofNat (one * 4 + two / 16)]
  | [one, two, three] => some [UInt8.ofNat (one * 4 + two / 16), UInt8.ofNat (two % 16 * 16 + three / 4)]
  | one :: two :: three :: four :: rest => (octets rest).map fun bytes =>
    UInt8.ofNat (one * 4 + two / 16) :: UInt8.ofNat (two % 16 * 16 + three / 4) ::
      UInt8.ofNat (three % 4 * 64 + four) :: bytes

/-- `RawURLEncoding.EncodeToString` -/
def encode (bytes : Bytes) : Bytes := (sextets bytes).map symbol

/-- `RawURLEncoding.DecodeString`, which passes line ends. -/
def decode (text : Bytes) : Option Bytes :=
  ((text.filter fun code => code ≠ 10 ∧ code ≠ 13).mapM valueOf).bind octets

theorem valueOf_symbol {value : Nat} (small : value < 64) : valueOf (symbol value) = some value := by
  have each : ∀ value : Fin 64, valueOf (symbol value) = some value.val := by decide
  exact each ⟨value, small⟩

theorem symbol_no_line_end {value : Nat} (small : value < 64) : symbol value ≠ 10 ∧ symbol value ≠ 13 := by
  have each : ∀ value : Fin 64, symbol value ≠ 10 ∧ symbol value ≠ 13 := by decide
  exact each ⟨value, small⟩

theorem sextets_lt (bytes : Bytes) : ∀ value ∈ sextets bytes, value < 64 := by
  fun_induction sextets bytes with
  | case1 => simp
  | case2 first =>
    have bound := first.toNat_lt
    simp only [mem_cons, not_mem_nil, or_false]
    omega
  | case3 first second =>
    have bound := first.toNat_lt
    have bound' := second.toNat_lt
    simp only [mem_cons, not_mem_nil, or_false]
    omega
  | case4 first second third rest ih =>
    have bound := first.toNat_lt
    have bound' := second.toNat_lt
    have bound'' := third.toNat_lt
    simp only [mem_cons]
    rintro value (rfl | rfl | rfl | rfl | listed)
    · omega
    · omega
    · omega
    · omega
    · exact ih value listed

theorem ofNat_eq {byte : UInt8} {value : Nat} (same : value = byte.toNat) : UInt8.ofNat value = byte := by
  rw [same, UInt8.ofNat_toNat]

theorem octets_sextets (bytes : Bytes) : octets (sextets bytes) = some bytes := by
  fun_induction sextets bytes with
  | case1 => rfl
  | case2 first =>
    have bound := first.toNat_lt
    rw [octets, @ofNat_eq first _ (by omega)]
  | case3 first second =>
    have bound := first.toNat_lt
    have bound' := second.toNat_lt
    rw [octets, @ofNat_eq first _ (by omega), @ofNat_eq second _ (by omega)]
  | case4 first second third rest ih =>
    have bound := first.toNat_lt
    have bound' := second.toNat_lt
    have bound'' := third.toNat_lt
    rw [octets, ih, Option.map_some, @ofNat_eq first _ (by omega), @ofNat_eq second _ (by omega),
      @ofNat_eq third _ (by omega)]

theorem decode_encode (bytes : Bytes) : decode (encode bytes) = some bytes := by
  have small := sextets_lt bytes
  have kept : (encode bytes).filter (fun code => code ≠ 10 ∧ code ≠ 13) = encode bytes := by
    apply filter_eq_self.mpr
    intro code listed
    obtain ⟨value, member, rfl⟩ := mem_map.mp listed
    exact decide_eq_true (symbol_no_line_end (small value member))
  have read : ∀ values : List Nat, (∀ value ∈ values, value < 64) → (values.map symbol).mapM valueOf = some values := by
    intro values
    induction values with
    | nil => intro; rfl
    | cons value rest ih =>
      intro below
      rw [map_cons, mapM_cons, valueOf_symbol (below value mem_cons_self),
        ih fun other listed => below other (mem_cons_of_mem _ listed)]
      rfl
  rw [decode, kept, encode, read _ small, Option.bind_some, octets_sextets]

end AstrLink.Base64Url
