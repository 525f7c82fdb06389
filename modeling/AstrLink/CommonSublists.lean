import Mathlib.Data.List.Basic

/-! The length of the longest list that is contained in two lists, by what the two start and end with. -/
namespace AstrLink.CommonSublists
open List

variable {α : Type*}

structure Longest (left right : List α) (length : Nat) : Prop where
  common : ∃ common : List α, common.Sublist left ∧ common.Sublist right ∧ common.length = length
  longest : ∀ common : List α, common.Sublist left → common.Sublist right → common.length ≤ length

variable {left right : List α} {length other : Nat}

theorem Longest.unique (longest : Longest left right length) (again : Longest left right other) : length = other := by
  obtain ⟨⟨one, inLeft, inRight, rfl⟩, bound⟩ := longest
  obtain ⟨⟨two, ofLeft, ofRight, rfl⟩, bound'⟩ := again
  exact Nat.le_antisymm (bound' one inLeft inRight) (bound two ofLeft ofRight)

theorem longest_nil_left (right : List α) : Longest [] right 0 :=
  ⟨⟨[], nil_sublist _, nil_sublist _, rfl⟩, fun _ inLeft _ => by simp [sublist_nil.mp inLeft]⟩

theorem longest_nil_right (left : List α) : Longest left [] 0 :=
  ⟨⟨[], nil_sublist _, nil_sublist _, rfl⟩, fun _ _ inRight => by simp [sublist_nil.mp inRight]⟩

theorem Longest.cons (longest : Longest left right length) (head : α) : Longest (head :: left) (head :: right) (length + 1) := by
  obtain ⟨⟨common, inLeft, inRight, counted⟩, bound⟩ := longest
  refine ⟨⟨head :: common, inLeft.cons_cons head, inRight.cons_cons head, by rw [length_cons, counted]⟩, fun longer ofLeft ofRight => ?_⟩
  have := bound longer.tail ofLeft.tail ofRight.tail
  rw [length_tail] at this
  omega

/-- Of lists that start differently one of the heads is left out. -/
theorem Longest.skip {first second : α} (differ : first ≠ second) (below : Longest left (second :: right) length)
    (beside : Longest (first :: left) right other) : Longest (first :: left) (second :: right) (max length other) := by
  constructor
  · rcases Nat.le_total other length with larger | larger
    · obtain ⟨common, inLeft, inRight, counted⟩ := below.common
      exact ⟨common, inLeft.cons first, inRight, by omega⟩
    · obtain ⟨common, inLeft, inRight, counted⟩ := beside.common
      exact ⟨common, inLeft, inRight.cons second, by omega⟩
  · intro common inLeft inRight
    cases inLeft with
    | cons _ inLeft => exact Nat.le_trans (below.longest common inLeft inRight) (Nat.le_max_left ..)
    | cons_cons _ inLeft =>
      cases inRight with
      | cons _ inRight => exact Nat.le_trans (beside.longest _ (inLeft.cons_cons first) inRight) (Nat.le_max_right ..)
      | cons_cons => exact absurd rfl differ

theorem Longest.reverse (longest : Longest left right length) : Longest left.reverse right.reverse length := by
  obtain ⟨⟨common, inLeft, inRight, counted⟩, bound⟩ := longest
  refine ⟨⟨common.reverse, reverse_sublist.mpr inLeft, reverse_sublist.mpr inRight, by rw [length_reverse, counted]⟩, ?_⟩
  intro longer ofLeft ofRight
  rw [← length_reverse]
  exact bound longer.reverse (reverse_sublist.mp (by rwa [reverse_reverse])) (reverse_sublist.mp (by rwa [reverse_reverse]))

theorem Longest.append_left (longest : Longest left right length) (front : List α) :
    Longest (front ++ left) (front ++ right) (front.length + length) := by
  induction front with
  | nil => simpa using longest
  | cons head front ih =>
    rw [length_cons, Nat.add_right_comm]
    exact ih.cons head

theorem Longest.append_right (longest : Longest left right length) (back : List α) :
    Longest (left ++ back) (right ++ back) (length + back.length) := by
  have reversed := (longest.reverse.append_left back.reverse).reverse
  simpa [Nat.add_comm] using reversed

end AstrLink.CommonSublists
