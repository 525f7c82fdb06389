import Mathlib

/-!
Searching sorted lists. A condition that fails from some item on cuts a list in
two, and one that holds from some item on is found by halving; words in
lexicographic order are narrowed letter by letter to those that go on with a
given text.
-/
namespace AstrLink.SortedSearch
open List
open Option (any_some)
open Bool (not_eq_true)

section
variable {ι : Type} {items : List ι}

theorem mem_dropWhile {holds : ι → Bool}
    (falls : items.Pairwise fun first second => holds second = true → holds first = true) (item : ι) :
    item ∈ items.dropWhile holds ↔ item ∈ items ∧ holds item = false := by
  induction items with
  | nil => simp
  | cons first items ih =>
    obtain ⟨head, tail⟩ := pairwise_cons.mp falls
    rw [dropWhile_cons]
    split
    · rename_i here
      rw [ih tail, mem_cons]
      constructor
      · rintro ⟨member, fails⟩
        exact ⟨.inr member, fails⟩
      · rintro ⟨rfl | member, fails⟩
        · rw [here] at fails
          cases fails
        · exact ⟨member, fails⟩
    · rename_i fails
      have fails : holds first = false := by simpa using fails
      refine ⟨fun member => ⟨member, ?_⟩, fun member => member.1⟩
      rcases mem_cons.mp member with rfl | later
      · exact fails
      · rw [← not_eq_true]
        exact fun contra => by rw [head item later contra] at fails; cases fails

theorem mem_takeWhile {holds : ι → Bool}
    (falls : items.Pairwise fun first second => holds second = true → holds first = true) (item : ι) :
    item ∈ items.takeWhile holds ↔ item ∈ items ∧ holds item = true := by
  refine ⟨fun member => ⟨(takeWhile_sublist _).mem member, mem_takeWhile_imp member⟩, ?_⟩
  rintro ⟨member, here⟩
  rw [← @List.takeWhile_append_dropWhile _ holds items] at member
  rcases mem_append.mp member with front | back
  · exact front
  · rw [((mem_dropWhile falls item).mp back).2] at here
    cases here

theorem either_first {earlier : ι → ι → Prop} (ordered : items.Pairwise earlier) {first second : ι}
    (left : first ∈ items) (right : second ∈ items) (differ : first ≠ second) : earlier first second ∨ earlier second first := by
  have either : items.Pairwise fun first second => earlier first second ∨ earlier second first := ordered.imp .inl
  have symmetric : Std.Symm fun first second => earlier first second ∨ earlier second first := ⟨fun _ _ => Or.symm⟩
  exact either.forall left right differ

end

section
variable {ι : Type}

/-- Halves the places from `low` to `high` until one is left. -/
def searchBetween (items : List ι) (rises : ι → Bool) (low high : Nat) : Nat :=
  if low < high then
    let middle := (low + high) / 2
    if items[middle]?.any rises then searchBetween items rises low middle else searchBetween items rises (middle + 1) high
  else low
termination_by high - low

/-- The place of the first item that the condition holds for. -/
def search (items : List ι) (rises : ι → Bool) : Nat := searchBetween items rises 0 items.length

variable {items : List ι} {rises : ι → Bool}

/-- The items in front of the place fail the condition, and those from there on meet it. -/
def Splits (items : List ι) (rises : ι → Bool) (place : Nat) : Prop :=
  (∀ item ∈ items.take place, rises item = false) ∧ ∀ item ∈ items.drop place, rises item = true

section
variable (rising : items.Pairwise fun first second => rises first = true → rises second = true)
include rising

theorem searchBetween_splits
    {low high : Nat} (ordered : low ≤ high) (inside : high ≤ items.length)
    (small : ∀ item ∈ items.take low, rises item = false) (large : ∀ item ∈ items.drop high, rises item = true) :
    Splits items rises (searchBetween items rises low high) := by
  fun_induction searchBetween items rises low high with
  | case1 low high apart middle here ih =>
    have bound : middle < items.length := by omega
    have met : rises items[middle] = true := by simpa [getElem?_eq_getElem bound] using here
    refine ih (by omega) (by omega) small fun item later => ?_
    rw [drop_eq_getElem_cons bound] at later
    rcases mem_cons.mp later with rfl | later
    · exact met
    · rw [← @List.take_append_drop _ (middle + 1) items, pairwise_append] at rising
      refine rising.2.2 items[middle] ?_ item later met
      exact mem_take_iff_getElem.mpr ⟨middle, by omega, rfl⟩
  | case2 low high apart middle fails ih =>
    have bound : middle < items.length := by omega
    have unmet : rises items[middle] = false := by simpa [getElem?_eq_getElem bound] using fails
    refine ih (by omega) inside (fun item earlier => ?_) large
    rw [take_succ_eq_append_getElem bound] at earlier
    rcases mem_append.mp earlier with earlier | last
    · rw [← @List.take_append_drop _ middle items, pairwise_append] at rising
      rw [← not_eq_true]
      intro met
      have there : items[middle] ∈ items.drop middle := by
        rw [drop_eq_getElem_cons bound]
        exact mem_cons_self
      rw [rising.2.2 item earlier _ there met] at unmet
      cases unmet
    · rw [mem_singleton.mp last]
      exact unmet
  | case3 low high apart =>
    obtain rfl : low = high := by omega
    exact ⟨small, large⟩

theorem search_splits :
    Splits items rises (search items rises) :=
  searchBetween_splits rising (Nat.zero_le _) (le_refl _) (by simp) (by simp)

theorem mem_drop_search (item : ι) :
    item ∈ items.drop (search items rises) ↔ item ∈ items ∧ rises item = true := by
  obtain ⟨small, large⟩ := search_splits rising
  refine ⟨fun later => ⟨mem_of_mem_drop later, large item later⟩, ?_⟩
  rintro ⟨member, met⟩
  rw [← @List.take_append_drop _ (search items rises) items] at member
  rcases mem_append.mp member with earlier | later
  · rw [small item earlier] at met
    cases met
  · exact later

theorem mem_take_search (item : ι) :
    item ∈ items.take (search items rises) ↔ item ∈ items ∧ rises item = false := by
  obtain ⟨small, large⟩ := search_splits rising
  refine ⟨fun earlier => ⟨mem_of_mem_take earlier, small item earlier⟩, ?_⟩
  rintro ⟨member, unmet⟩
  rw [← @List.take_append_drop _ (search items rises) items] at member
  rcases mem_append.mp member with earlier | later
  · exact earlier
  · rw [large item later] at unmet
    cases unmet

end

end

section
variable {α : Type} [LinearOrder α]

/-- Whether a word is before another: a word is before what extends it. -/
def before : List α → List α → Bool
  | _, [] => false
  | [], _ :: _ => true
  | first :: rest, second :: others => first < second || first == second && before rest others

theorem before_cons (first second : α) (rest others : List α) :
    before (first :: rest) (second :: others) = true ↔ first < second ∨ first = second ∧ before rest others = true := by
  simp [before]

theorem before_irrefl (word : List α) : before word word = false := by
  induction word with
  | nil => rfl
  | cons letter word ih =>
    rw [← not_eq_true, before_cons]
    simp [ih]

theorem before_trans {first second third : List α} (left : before first second = true) (right : before second third = true) :
    before first third = true := by
  induction first generalizing second third with
  | nil =>
    cases third with
    | nil => cases second <;> cases right
    | cons => rfl
  | cons letter first ih =>
    cases second with
    | nil => cases left
    | cons letter' second =>
      cases third with
      | nil => cases right
      | cons letter'' third =>
        rw [before_cons] at left right ⊢
        rcases left with less | ⟨rfl, left⟩ <;> rcases right with less' | ⟨rfl, right⟩
        · exact .inl (less.trans less')
        · exact .inl less
        · exact .inl less'
        · exact .inr ⟨rfl, ih left right⟩

theorem not_before_trans {first second third : List α} (left : before first second = false)
    (right : before second third = false) : before first third = false := by
  induction third generalizing first second with
  | nil => cases first <;> rfl
  | cons letter'' third ih =>
    cases second with
    | nil => cases right
    | cons letter' second =>
      cases first with
      | nil => cases left
      | cons letter first =>
        rw [← not_eq_true, before_cons, not_or, not_and, not_lt, not_eq_true] at left right ⊢
        refine ⟨right.1.trans left.1, fun same => ?_⟩
        have equal : letter = letter' := le_antisymm (same ▸ right.1) left.1
        exact ih (left.2 equal) (right.2 (equal ▸ same))

theorem eq_of_not_before {first second : List α} (left : before first second = false) (right : before second first = false) :
    first = second := by
  induction first generalizing second with
  | nil =>
    cases second with
    | nil => rfl
    | cons => cases left
  | cons letter first ih =>
    cases second with
    | nil => cases right
    | cons letter' second =>
      rw [← not_eq_true, before_cons, not_or, not_and, not_lt, not_eq_true] at left right
      have equal : letter = letter' := le_antisymm right.1 left.1
      rw [equal, ih (left.2 equal) (right.2 equal.symm)]

theorem before_append (front first second : List α) : before (front ++ first) (front ++ second) = before first second := by
  induction front with
  | nil => rfl
  | cons letter front ih =>
    rw [cons_append, cons_append, before, ih]
    simp

def Sorted {ι : Type} (word : ι → List α) (items : List ι) : Prop :=
  items.Pairwise fun first second => before (word second) (word first) = false

/-- The items whose word has a letter at a place, out of sorted ones. -/
def narrow {ι : Type} (word : ι → List α) (depth : Nat) (letter : α) (items : List ι) : List ι :=
  let later := items.drop (search items fun item => (word item)[depth]?.any (letter ≤ ·))
  later.take (search later fun item => (word item)[depth]?.any (letter < ·))

variable {ι : Type} {word : ι → List α} {items : List ι} {front : List α}

section
variable (sorted : Sorted word items) (sharing : ∀ item ∈ items, front <+: word item)
include sorted sharing

theorem ended_falls :
    items.Pairwise fun first second =>
      ((word second).length == front.length) = true → ((word first).length == front.length) = true := by
  refine sorted.imp_of_mem fun {first second} left right apart ends => ?_
  obtain ⟨rest, same⟩ := sharing first left
  obtain ⟨others, same'⟩ := sharing second right
  rw [← same, ← same', before_append] at apart
  rw [← same', length_append, beq_iff_eq] at ends
  have none_left : others = [] := length_eq_zero_iff.mp (by omega)
  rw [none_left] at apart
  cases rest with
  | nil => simp [← same]
  | cons => cases apart

theorem mem_ended (item : ι) :
    item ∈ items.takeWhile (fun item => (word item).length == front.length) ↔ item ∈ items ∧ word item = front := by
  rw [mem_takeWhile (ended_falls sorted sharing), beq_iff_eq]
  refine and_congr_right fun member => ⟨fun ends => ?_, fun same => congrArg List.length same⟩
  exact ((sharing item member).eq_of_length ends.symm).symm

theorem mem_longer (item : ι) :
    item ∈ items.dropWhile (fun item => (word item).length == front.length) ↔
      item ∈ items ∧ front.length < (word item).length := by
  rw [mem_dropWhile (ended_falls sorted sharing), beq_eq_false_iff_ne]
  refine and_congr_right fun member => ?_
  have most := (sharing item member).length_le
  omega

end

omit [LinearOrder α] in
theorem letter_after (sharing : front <+: word item) (longer : front.length < (word item).length) :
    ∃ letter rest, word item = front ++ letter :: rest ∧ (word item)[front.length]? = some letter := by
  obtain ⟨rest, same⟩ := sharing
  cases rest with
  | nil =>
    rw [← same, append_nil] at longer
    omega
  | cons letter rest => exact ⟨letter, rest, same.symm, by rw [← same, getElem?_append_right (le_refl _)]; simp⟩

theorem mem_narrow (sorted : Sorted word items)
    (sharing : ∀ item ∈ items, front <+: word item ∧ front.length < (word item).length) (letter : α) (item : ι) :
    item ∈ narrow word front.length letter items ↔ item ∈ items ∧ front ++ [letter] <+: word item := by
  have letters : items.Pairwise fun first second => ∀ letter letter' : α,
      (word first)[front.length]? = some letter → (word second)[front.length]? = some letter' → letter ≤ letter' := by
    refine sorted.imp_of_mem fun {first second} left right apart one two here there => ?_
    obtain ⟨letter, rest, same, found⟩ := letter_after (sharing first left).1 (sharing first left).2
    obtain ⟨letter', rest', same', found'⟩ := letter_after (sharing second right).1 (sharing second right).2
    rw [found] at here
    rw [found'] at there
    cases here
    cases there
    rw [same, same', before_append, ← not_eq_true, before_cons, not_or, not_lt] at apart
    exact apart.1
  have from_letter : items.Pairwise fun first second =>
      (word first)[front.length]?.any (letter ≤ ·) = true → (word second)[front.length]?.any (letter ≤ ·) = true := by
    refine letters.imp_of_mem fun {first second} left right ordered large => ?_
    obtain ⟨one, _, _, found⟩ := letter_after (sharing first left).1 (sharing first left).2
    obtain ⟨two, _, _, found'⟩ := letter_after (sharing second right).1 (sharing second right).2
    rw [found, any_some, decide_eq_true_iff] at large
    rw [found', any_some, decide_eq_true_iff]
    exact large.trans (ordered one two found found')
  have past_letter : items.Pairwise fun first second =>
      (word first)[front.length]?.any (letter < ·) = true → (word second)[front.length]?.any (letter < ·) = true := by
    refine letters.imp_of_mem fun {first second} left right ordered large => ?_
    obtain ⟨one, _, _, found⟩ := letter_after (sharing first left).1 (sharing first left).2
    obtain ⟨two, _, _, found'⟩ := letter_after (sharing second right).1 (sharing second right).2
    rw [found, any_some, decide_eq_true_iff] at large
    rw [found', any_some, decide_eq_true_iff]
    exact lt_of_lt_of_le large (ordered one two found found')
  unfold narrow
  rw [mem_take_search (past_letter.sublist (drop_sublist _ _)), mem_drop_search from_letter, and_assoc]
  refine and_congr_right fun member => ?_
  obtain ⟨own, rest, same, found⟩ := letter_after (sharing item member).1 (sharing item member).2
  rw [found, any_some, any_some, decide_eq_true_iff, decide_eq_false_iff_not, not_lt, same]
  constructor
  · rintro ⟨least, most⟩
    exact ⟨rest, by rw [le_antisymm least most]; simp⟩
  · rintro ⟨others, equal⟩
    rw [List.append_assoc, append_right_inj] at equal
    obtain ⟨rfl, -⟩ := List.cons.inj equal
    exact ⟨le_refl _, le_refl _⟩

theorem Sorted.narrow (sorted : Sorted word items) (depth : Nat) (letter : α) : Sorted word (narrow word depth letter items) :=
  Pairwise.sublist ((take_sublist _ _).trans (drop_sublist _ _)) sorted

end

end AstrLink.SortedSearch
