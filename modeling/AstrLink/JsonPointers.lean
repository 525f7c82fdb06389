/-!
JSON pointers: the keys and the indices on the way to a value, each after a
slash. Keys are escaped, so that no key holds a slash and no two keys are written
alike; the same holds of indices.
-/
namespace AstrLink.JsonPointers
open List

abbrev Text := List Char

def replaceAll (char : Char) (written value : Text) : Text :=
  value.flatMap fun letter => if letter = char then written else [letter]

def escapeJSONPointer (value : Text) : Text := replaceAll '/' ['~', '1'] (replaceAll '~' ['~', '0'] value)

def digit (value : Nat) : Char := Char.ofNat (0x30 + value)

/-- The digits of a number in front of some others. -/
def digitsBefore (buffer : Text) (value : Nat) : Text :=
  if value = 0 then buffer else digitsBefore (digit (value % 10) :: buffer) (value / 10)
termination_by value
decreasing_by omega

def jsonIndex (value : Nat) : Text := if value = 0 then ['0'] else digitsBefore [] value

def childPointer (pointer segment : Text) : Text := pointer ++ '/' :: segment

def escapeLetter (letter : Char) : Text :=
  if letter = '~' then ['~', '0'] else if letter = '/' then ['~', '1'] else [letter]

theorem escapeJSONPointer_cons (letter : Char) (value : Text) :
    escapeJSONPointer (letter :: value) = escapeLetter letter ++ escapeJSONPointer value := by
  simp only [escapeJSONPointer, replaceAll, flatMap_cons, flatMap_append, escapeLetter]
  congr 1
  split
  · rfl
  · rw [flatMap_singleton]

/-- The key that an escaped one stands for. -/
def unescape : Text → Text
  | '~' :: '0' :: rest => '~' :: unescape rest
  | '~' :: '1' :: rest => '/' :: unescape rest
  | letter :: rest => letter :: unescape rest
  | [] => []

theorem unescape_escape (value : Text) : unescape (escapeJSONPointer value) = value := by
  induction value with
  | nil => rfl
  | cons letter value ih =>
    rw [escapeJSONPointer_cons, escapeLetter]
    split
    · next tilde =>
      rw [tilde]
      exact congrArg ('~' :: ·) ih
    · next other =>
      split
      · next slash =>
        rw [slash]
        exact congrArg ('/' :: ·) ih
      · have plain : unescape (letter :: escapeJSONPointer value) = letter :: unescape (escapeJSONPointer value) := by
          rw [unescape]
          · intro rest same
            exact absurd same other
          · intro rest same
            exact absurd same other
        exact plain.trans (congrArg (letter :: ·) ih)

theorem escapeJSONPointer_inj {first second : Text} (same : escapeJSONPointer first = escapeJSONPointer second) :
    first = second := by
  rw [← unescape_escape first, same, unescape_escape]

theorem escapeJSONPointer_slash (value : Text) : '/' ∉ escapeJSONPointer value := by
  induction value with
  | nil => exact not_mem_nil
  | cons letter value ih =>
    rw [escapeJSONPointer_cons, mem_append, not_or]
    refine ⟨?_, ih⟩
    rw [escapeLetter]
    split
    · decide
    · split
      · decide
      · next slash =>
        intro listed
        exact slash (mem_singleton.mp listed).symm

def valueOf (start : Nat) (digits : Text) : Nat := digits.foldl (fun value digit => 10 * value + (digit.toNat - 0x30)) start

theorem digit_toNat {value : Nat} (small : value < 10) : (digit value).toNat = 0x30 + value := by
  have all : (List.range 10).all (fun value => (digit value).toNat == 0x30 + value) = true := by decide
  simpa using all_eq_true.mp all value (mem_range.mpr small)

theorem valueOf_digitsBefore (buffer : Text) (value : Nat) :
    valueOf 0 (digitsBefore buffer value) = valueOf value buffer := by
  induction value using Nat.strongRecOn generalizing buffer with
  | ind value ih =>
    rw [digitsBefore]
    split
    · next zero => rw [zero]
    · next positive =>
      have small : value % 10 < 10 := Nat.mod_lt _ (by decide)
      rw [ih (value / 10) (by omega)]
      show valueOf (10 * (value / 10) + ((digit (value % 10)).toNat - 0x30)) buffer = _
      rw [digit_toNat small]
      congr 1
      omega

theorem jsonIndex_inj {first second : Nat} (same : jsonIndex first = jsonIndex second) : first = second := by
  have back (value : Nat) : valueOf 0 (jsonIndex value) = value := by
    rw [jsonIndex]
    split
    · next zero =>
      rw [zero]
      rfl
    · exact valueOf_digitsBefore [] value
  rw [← back first, same, back]

theorem digitsBefore_slash {buffer : Text} (value : Nat) (plain : '/' ∉ buffer) : '/' ∉ digitsBefore buffer value := by
  induction value using Nat.strongRecOn generalizing buffer with
  | ind value ih =>
    rw [digitsBefore]
    split
    · exact plain
    · next positive =>
      refine ih (value / 10) (by omega) ?_
      intro listed
      rcases mem_cons.mp listed with slash | later
      · have code := digit_toNat (Nat.mod_lt value (by decide : 0 < 10))
        rw [← slash] at code
        have slash_code : '/'.toNat = 0x2F := rfl
        omega
      · exact plain later

theorem jsonIndex_slash (value : Nat) : '/' ∉ jsonIndex value := by
  rw [jsonIndex]
  split
  · decide
  · exact digitsBefore_slash value not_mem_nil

/-- A pointer that leads to a child or to something below it. -/
def Within (pointer segment other : Text) : Prop :=
  other = childPointer pointer segment ∨ ∃ more, other = childPointer (childPointer pointer segment) more

theorem within_segment {pointer segment other : Text} (plain : '/' ∉ segment) (within : Within pointer segment other) :
    (other.drop (pointer.length + 1)).takeWhile (· ≠ '/') = segment := by
  have all : ∀ letter ∈ segment, decide (letter ≠ '/') = true := by
    intro letter listed
    rw [decide_eq_true_eq]
    rintro rfl
    exact plain listed
  have behind (tail : Text) : (childPointer pointer segment ++ tail).drop (pointer.length + 1) = segment ++ tail := by
    rw [childPointer, List.append_assoc, cons_append, ← drop_drop, drop_left]
    rfl
  rcases within with rfl | ⟨more, rfl⟩
  · have whole := behind []
    rw [append_nil] at whole
    rw [whole, takeWhile_append_of_pos all, takeWhile_nil, append_nil]
  · have whole := behind ('/' :: more)
    rw [childPointer, whole, takeWhile_append_of_pos all, takeWhile_cons]
    simp

theorem within_apart {pointer first second one other : Text} (plain_first : '/' ∉ first) (plain_second : '/' ∉ second)
    (apart : first ≠ second) (here : Within pointer first one) (there : Within pointer second other) : one ≠ other := by
  rintro rfl
  exact apart ((within_segment plain_first here).symm.trans (within_segment plain_second there))

end AstrLink.JsonPointers
