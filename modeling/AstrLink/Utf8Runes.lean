import Mathlib.Data.List.Basic

/-!
UTF-8 read rune by rune. `fullRune` says whether more bytes could change the first rune, so what is read of
bytes that come in parts is what is read of the whole (`completeRunes_append`).
-/
namespace AstrLink.Utf8Runes
open List

/-- U+FFFD, which stands for bytes that are not UTF-8. -/
def runeError : Nat := 0xFFFD

structure Rune where
  code : Nat
  raw : List UInt8
deriving DecidableEq

/-- The ranges of the bytes that follow a first byte, `none` when no sequence begins with it. -/
def following (first : UInt8) : Option (List (Nat × Nat)) :=
  let byte := first.toNat
  if byte < 0x80 then some []
  else if byte < 0xC2 then none
  else if byte < 0xE0 then some [(0x80, 0xBF)]
  else if byte = 0xE0 then some [(0xA0, 0xBF), (0x80, 0xBF)]
  else if byte = 0xED then some [(0x80, 0x9F), (0x80, 0xBF)]
  else if byte < 0xF0 then some [(0x80, 0xBF), (0x80, 0xBF)]
  else if byte = 0xF0 then some [(0x90, 0xBF), (0x80, 0xBF), (0x80, 0xBF)]
  else if byte < 0xF4 then some [(0x80, 0xBF), (0x80, 0xBF), (0x80, 0xBF)]
  else if byte = 0xF4 then some [(0x80, 0x8F), (0x80, 0xBF), (0x80, 0xBF)]
  else none

inductive Status where
  | complete
  | short
  | wrong
deriving DecidableEq

/-- Whether the bytes keep the ranges, as far as they go. -/
def scan : List (Nat × Nat) → List UInt8 → Status
  | [], _ => .complete
  | _ :: _, [] => .short
  | range :: ranges, byte :: rest =>
    if range.1 ≤ byte.toNat ∧ byte.toNat ≤ range.2 then scan ranges rest else .wrong

def leadBits (first : UInt8) : Nat :=
  let byte := first.toNat
  if byte < 0x80 then byte else if byte < 0xE0 then byte - 0xC0 else if byte < 0xF0 then byte - 0xE0 else byte - 0xF0

def fullRune : List UInt8 → Bool
  | [] => false
  | first :: rest =>
    match following first with
    | none => true
    | some ranges => scan ranges rest != .short

def decodeRune : List UInt8 → Nat × Nat
  | [] => (runeError, 0)
  | first :: rest =>
    match following first with
    | none => (runeError, 1)
    | some ranges =>
      if scan ranges rest = .complete then
        ((rest.take ranges.length).foldl (fun code byte => code * 64 + (byte.toNat - 0x80)) (leadBits first),
          ranges.length + 1)
      else (runeError, 1)

variable {ranges : List (Nat × Nat)}

theorem scan_complete :
    ∀ {rest : List UInt8}, scan ranges rest = .complete →
      ranges.length ≤ rest.length ∧ scan ranges (rest.take ranges.length) = .complete := by
  induction ranges with
  | nil => intro rest _; exact ⟨Nat.zero_le _, rfl⟩
  | cons range ranges ih =>
    intro rest complete
    cases rest with
    | nil => cases complete
    | cons byte rest =>
      rw [scan] at complete
      split at complete
      · rename_i inside
        obtain ⟨long, taken⟩ := ih complete
        rw [length_cons, length_cons, take_succ_cons, scan, if_pos inside]
        exact ⟨Nat.succ_le_succ long, taken⟩
      · cases complete

theorem scan_append (more : List UInt8) :
    ∀ {rest : List UInt8}, scan ranges rest ≠ .short → scan ranges (rest ++ more) = scan ranges rest := by
  induction ranges with
  | nil => intro rest _; rw [scan, scan]
  | cons range ranges ih =>
    intro rest settled
    cases rest with
    | nil => exact absurd rfl settled
    | cons byte rest =>
      rw [scan] at settled
      rw [cons_append, scan, scan]
      split
      · rename_i inside
        rw [if_pos inside] at settled
        exact ih settled
      · rfl

variable {data : List UInt8}

theorem decodeRune_size (some_byte : data ≠ []) :
    0 < (decodeRune data).2 ∧ (decodeRune data).2 ≤ data.length := by
  cases data with
  | nil => exact absurd rfl some_byte
  | cons first rest =>
    rw [decodeRune]
    cases following first with
    | none => exact ⟨Nat.one_pos, Nat.succ_le_succ (Nat.zero_le _)⟩
    | some ranges =>
      dsimp only
      split
      · rename_i complete
        exact ⟨Nat.succ_pos _, Nat.succ_le_succ (scan_complete complete).1⟩
      · exact ⟨Nat.one_pos, Nat.succ_le_succ (Nat.zero_le _)⟩

theorem fullRune_append (full : fullRune data = true) (more : List UInt8) :
    fullRune (data ++ more) = true ∧ decodeRune (data ++ more) = decodeRune data := by
  cases data with
  | nil => cases full
  | cons first rest =>
    rw [cons_append, fullRune, decodeRune, decodeRune]
    rw [fullRune] at full
    cases found : following first with
    | none => exact ⟨rfl, rfl⟩
    | some ranges =>
      rw [found] at full
      have settled : scan ranges rest ≠ .short := bne_iff_ne.mp full
      dsimp only
      rw [scan_append more settled]
      refine ⟨full, ?_⟩
      by_cases complete : scan ranges rest = .complete
      · rw [if_pos complete, if_pos complete, take_append_of_le_length (scan_complete complete).1]
      · rw [if_neg complete, if_neg complete]

/-- The full runes that bytes begin with, and the rest. -/
def completeRunes (data : List UInt8) : List Rune × List UInt8 :=
  if _full : fullRune data = true then
    let (code, size) := decodeRune data
    let rest := completeRunes (data.drop (decodeRune data).2)
    (⟨code, data.take size⟩ :: rest.1, rest.2)
  else ([], data)
termination_by data.length
decreasing_by
  have some_byte : data ≠ [] := by rintro rfl; cases _full
  obtain ⟨positive, bounded⟩ := decodeRune_size some_byte
  rw [length_drop]
  omega

theorem completeRunes_full (full : fullRune data = true) :
    completeRunes data =
      (⟨(decodeRune data).1, data.take (decodeRune data).2⟩ :: (completeRunes (data.drop (decodeRune data).2)).1,
        (completeRunes (data.drop (decodeRune data).2)).2) := by
  rw [completeRunes, dif_pos full]

theorem completeRunes_short (short : fullRune data = false) : completeRunes data = ([], data) := by
  rw [completeRunes, dif_neg (by rw [short]; exact Bool.false_ne_true)]

theorem runes_induction {motive : List UInt8 → Prop} (short : ∀ data, fullRune data = false → motive data)
    (full : ∀ data, fullRune data = true → motive (data.drop (decodeRune data).2) → motive data) :
    ∀ data, motive data := by
  intro data
  induction counted : data.length using Nat.strongRecOn generalizing data with
  | ind count ih =>
    cases found : fullRune data with
    | false => exact short data found
    | true =>
      have some_byte : data ≠ [] := by rintro rfl; cases found
      obtain ⟨positive, bounded⟩ := decodeRune_size some_byte
      have shorter : (data.drop (decodeRune data).2).length < count := by
        rw [length_drop]
        omega
      exact full data found (ih _ shorter _ rfl)

theorem completeRunes_append (more : List UInt8) : ∀ data : List UInt8,
    completeRunes (data ++ more) =
      ((completeRunes data).1 ++ (completeRunes ((completeRunes data).2 ++ more)).1,
        (completeRunes ((completeRunes data).2 ++ more)).2) := by
  apply runes_induction
  · intro data short
    rw [completeRunes_short short, nil_append]
  · intro data full ih
    have some_byte : data ≠ [] := by rintro rfl; cases full
    obtain ⟨fullMore, sameRune⟩ := fullRune_append full more
    have bounded := (decodeRune_size some_byte).2
    rw [completeRunes_full fullMore, sameRune, drop_append_of_le_length bounded,
      take_append_of_le_length bounded, ih, completeRunes_full full, cons_append]

/-- A rune that its own bytes are read as. -/
def Decoded (rune : Rune) : Prop := rune.raw ≠ [] ∧ decodeRune rune.raw = (rune.code, rune.raw.length)

theorem completeRunes_decoded : ∀ data : List UInt8, ∀ rune ∈ (completeRunes data).1, Decoded rune := by
  apply runes_induction
  · intro data short rune member
    rw [completeRunes_short short] at member
    cases member
  · intro data full ih rune member
    rw [completeRunes_full full] at member
    rcases mem_cons.mp member with rfl | later
    · cases data with
      | nil => cases full
      | cons first rest =>
        unfold Decoded
        dsimp only
        rw [decodeRune]
        cases found : following first with
        | none =>
          dsimp only
          rw [take_succ_cons, take_zero, decodeRune, found]
          exact ⟨cons_ne_nil _ _, rfl⟩
        | some ranges =>
          dsimp only
          by_cases complete : scan ranges rest = .complete
          · obtain ⟨long, taken⟩ := scan_complete complete
            rw [if_pos complete]
            dsimp only
            rw [take_succ_cons, decodeRune, found]
            dsimp only
            rw [if_pos taken, take_take, Nat.min_self, length_cons, length_take, Nat.min_eq_left long]
            exact ⟨cons_ne_nil _ _, rfl⟩
          · have needs : scan ranges [] ≠ .complete := by
              cases ranges with
              | nil => exact absurd rfl complete
              | cons => exact fun contra => by cases contra
            rw [if_neg complete]
            dsimp only
            rw [take_succ_cons, take_zero, decodeRune, found]
            dsimp only
            rw [if_neg needs]
            exact ⟨cons_ne_nil _ _, rfl⟩
    · exact ih rune later

def asciiRune (byte : UInt8) : Rune := ⟨byte.toNat, [byte]⟩

theorem following_ascii {byte : UInt8} (ascii : byte.toNat < 0x80) : following byte = some [] := by
  unfold following
  dsimp only
  rw [if_pos ascii]

theorem decodeRune_ascii {byte : UInt8} (ascii : byte.toNat < 0x80) (rest : List UInt8) :
    decodeRune (byte :: rest) = (byte.toNat, 1) := by
  rw [decodeRune, following_ascii ascii]
  dsimp only
  rw [scan, if_pos rfl, length_nil, take_zero, foldl_nil, leadBits]
  exact congrArg (fun code => (code, 1)) (if_pos ascii)

theorem fullRune_ascii {byte : UInt8} (ascii : byte.toNat < 0x80) (rest : List UInt8) :
    fullRune (byte :: rest) = true := by
  rw [fullRune, following_ascii ascii]
  dsimp only
  rw [scan]
  rfl

theorem completeRunes_ascii {bytes : List UInt8} (ascii : ∀ byte ∈ bytes, byte.toNat < 0x80) (rest : List UInt8) :
    completeRunes (bytes ++ rest) = (bytes.map asciiRune ++ (completeRunes rest).1, (completeRunes rest).2) := by
  induction bytes with
  | nil => rw [nil_append, map_nil, nil_append]
  | cons byte bytes ih =>
    have small := ascii byte mem_cons_self
    rw [cons_append, completeRunes_full (fullRune_ascii small _), decodeRune_ascii small, drop_succ_cons,
      drop_zero, take_succ_cons, take_zero,
      ih fun other member => ascii other (mem_cons_of_mem _ member)]
    rfl

theorem scan_high (high : ∀ range ∈ ranges, 0x80 ≤ range.1) :
    ∀ {rest : List UInt8}, scan ranges rest = .complete → ∀ byte ∈ rest.take ranges.length, 0x80 ≤ byte.toNat := by
  induction ranges with
  | nil => intro rest _ byte member; rw [length_nil, take_zero] at member; cases member
  | cons range ranges ih =>
    intro rest complete byte member
    cases rest with
    | nil => cases complete
    | cons first rest =>
      rw [scan] at complete
      split at complete
      · rename_i inside
        rw [length_cons, take_succ_cons] at member
        rcases mem_cons.mp member with rfl | later
        · exact Nat.le_trans (high range mem_cons_self) inside.1
        · exact ih (fun other listed => high other (mem_cons_of_mem _ listed)) complete byte later
      · cases complete

theorem following_high {first : UInt8} (found : following first = some ranges) :
    ∀ range ∈ ranges, 0x80 ≤ range.1 := by
  unfold following at found
  dsimp only at found
  repeat' split at found
  all_goals first
    | rw [← Option.some.inj found]; decide
    | cases found

theorem Decoded.ascii_or_high {rune : Rune} (decoded : Decoded rune) :
    (∃ byte : UInt8, byte.toNat < 0x80 ∧ rune = asciiRune byte) ∨ ∀ byte ∈ rune.raw, 0x80 ≤ byte.toNat := by
  obtain ⟨some_byte, read⟩ := decoded
  obtain ⟨code, raw⟩ := rune
  dsimp only at some_byte read ⊢
  cases raw with
  | nil => exact absurd rfl some_byte
  | cons first rest =>
    by_cases small : first.toNat < 0x80
    · left
      rw [decodeRune_ascii small] at read
      obtain ⟨rfl, counted⟩ := Prod.mk.inj read
      have none_more : rest = [] := eq_nil_of_length_eq_zero (by rw [length_cons] at counted; omega)
      rw [none_more]
      exact ⟨first, small, rfl⟩
    · right
      have only : (first :: rest).length = 1 → ∀ byte ∈ first :: rest, 0x80 ≤ byte.toNat := by
        intro single byte member
        have none_more : rest = [] := eq_nil_of_length_eq_zero (by rw [length_cons] at single; omega)
        rw [none_more] at member
        rw [mem_singleton.mp member]
        omega
      rw [decodeRune] at read
      cases found : following first with
      | none =>
        rw [found] at read
        exact only (Prod.mk.inj read).2.symm
      | some ranges =>
        rw [found] at read
        dsimp only at read
        split at read
        · rename_i complete
          have counted := (Prod.mk.inj read).2
          have whole : rest.take ranges.length = rest := take_of_length_le (by
            rw [length_cons] at counted
            omega)
          intro byte member
          rcases mem_cons.mp member with rfl | later
          · omega
          · rw [← whole] at later
            exact scan_high (following_high found) complete byte later
        · exact only (Prod.mk.inj read).2.symm

/-- All runes of some bytes; an unfinished one is U+FFFD. -/
def runesOf (data : List UInt8) : List Rune :=
  (completeRunes data).1 ++
    match (completeRunes data).2 with
    | [] => []
    | first :: _ => [⟨runeError, [first]⟩]

theorem completeRunes_left : ∀ data : List UInt8, fullRune (completeRunes data).2 = false := by
  apply runes_induction
  · intro data short
    rw [completeRunes_short short]
    exact short
  · intro data full ih
    rw [completeRunes_full full]
    exact ih

theorem unfinished_decoded {first : UInt8} {rest : List UInt8} (short : fullRune (first :: rest) = false) :
    Decoded ⟨runeError, [first]⟩ := by
  unfold Decoded
  dsimp only
  rw [fullRune] at short
  rw [decodeRune]
  refine ⟨cons_ne_nil _ _, ?_⟩
  cases found : following first with
  | none => rfl
  | some ranges =>
    rw [found] at short
    cases ranges with
    | nil => cases short
    | cons range ranges => rfl

theorem runesOf_decoded (data : List UInt8) : ∀ rune ∈ runesOf data, Decoded rune := by
  intro rune member
  have left := completeRunes_left data
  rw [runesOf] at member
  rcases mem_append.mp member with complete | dangling
  · exact completeRunes_decoded data rune complete
  · cases held : (completeRunes data).2 with
    | nil => rw [held] at dangling; cases dangling
    | cons first rest =>
      rw [held] at dangling left
      rw [mem_singleton.mp dangling]
      exact unfinished_decoded left

end AstrLink.Utf8Runes
