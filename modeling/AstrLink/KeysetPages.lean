import Mathlib.Data.List.Sort

/-!
Paging through a sorted list by its last item. The next page is what comes after the
last item of the page before, so following the pages to the end gives the list, and
every page but the last is full (`walk_pages`).
-/
namespace AstrLink.KeysetPages
open List

section
variable {T : Type} (after : T → T → Bool)

def remaining (items : List T) (cursor : Option T) : List T :=
  match cursor with
  | none => items
  | some last => items.filter fun item => after item last

structure Page (T : Type) where
  items : List T
  next : Option T

/-- The first of the items that are left, and a cursor if there are more. -/
def page (limit : Nat) (items : List T) (cursor : Option T) : Page T :=
  let left := remaining after items cursor
  { items := left.take limit, next := if limit < left.length then (left.take limit).getLast? else none }

/-- The pages from a cursor to the end. -/
def walk (limit : Nat) (items : List T) : Nat → Option T → Option (List (Page T))
  | 0, _ => none
  | fuel + 1, cursor =>
    let first := page after limit items cursor
    match first.next with
    | none => some [first]
    | some last => (walk limit items fuel (some last)).map fun rest => first :: rest

theorem remaining_subset {items : List T} {cursor : Option T} {item : T} (listed : item ∈ remaining after items cursor) :
    item ∈ items := by
  cases cursor with
  | none => exact listed
  | some last => exact (mem_filter.mp listed).1

theorem next_mem {limit : Nat} {items : List T} {cursor : Option T} {last : T}
    (next : (page after limit items cursor).next = some last) : last ∈ items := by
  unfold page at next
  dsimp only at next
  split at next
  · exact remaining_subset after (mem_of_mem_take (mem_of_getLast? next))
  · cases next

/-- Each item comes after those before it. -/
def Ordered (items : List T) : Prop := items.Pairwise fun first second => after second first = true ∧ after first second = false

variable {after}

theorem remaining_append {front back : List T} {last : T} (ordered : Ordered after (front ++ last :: back))
    (irrefl : after last last = false) : remaining after (front ++ last :: back) (some last) = back := by
  obtain ⟨-, later, earlier⟩ := pairwise_append.mp ordered
  obtain ⟨first, -⟩ := pairwise_cons.mp later
  have none_before : front.filter (fun item => after item last) = [] := by
    apply filter_eq_nil_iff.mpr
    intro item listed
    rw [(earlier item listed last mem_cons_self).2]
    exact Bool.false_ne_true
  have all_behind : back.filter (fun item => after item last) = back :=
    filter_eq_self.mpr fun item listed => (first item listed).1
  rw [remaining, filter_append, none_before, nil_append, filter_cons_of_neg (by rw [irrefl]; exact Bool.false_ne_true),
    all_behind]

theorem remaining_listed {listed left : List T} (ordered : Ordered after (listed ++ left)) (irrefl : ∀ item, after item item = false) :
    remaining after (listed ++ left) listed.getLast? = left := by
  rcases eq_nil_or_concat listed with rfl | ⟨front, last, rfl⟩
  · rfl
  · rw [concat_eq_append] at ordered ⊢
    rw [getLast?_append_of_ne_nil _ (cons_ne_nil _ _), List.append_assoc]
    rw [List.append_assoc] at ordered
    exact remaining_append ordered (irrefl last)

theorem page_full (limit : Nat) {listed left : List T} (ordered : Ordered after (listed ++ left))
    (irrefl : ∀ item, after item item = false) (more : limit < left.length) :
    page after limit (listed ++ left) listed.getLast? = { items := left.take limit, next := (left.take limit).getLast? } := by
  rw [page, remaining_listed ordered irrefl]
  rw [if_pos more]

theorem page_rest (limit : Nat) {listed left : List T} (ordered : Ordered after (listed ++ left))
    (irrefl : ∀ item, after item item = false) (fits : left.length ≤ limit) :
    page after limit (listed ++ left) listed.getLast? = { items := left, next := none } := by
  rw [page, remaining_listed ordered irrefl]
  rw [if_neg (Nat.not_lt.mpr fits), take_of_length_le fits]

theorem last_of_full {limit : Nat} (some_items : 0 < limit) {left : List T} (more : limit < left.length) :
    ∃ item, (left.take limit).getLast? = some item := by
  cases last : (left.take limit).getLast? with
  | some item => exact ⟨item, rfl⟩
  | none =>
    have empty := congrArg List.length (getLast?_eq_none_iff.mp last)
    rw [length_take, length_nil] at empty
    omega

theorem walk_from {limit : Nat} (some_items : 0 < limit) (irrefl : ∀ item, after item item = false) (bound : Nat) {listed left : List T}
    (ordered : Ordered after (listed ++ left)) (short : left.length ≤ bound) :
    ∃ pages, (∀ fuel, left.length < fuel → walk after limit (listed ++ left) fuel listed.getLast? = some pages) ∧
      pages.flatMap Page.items = left ∧ ∀ page ∈ pages.dropLast, page.items.length = limit := by
  induction bound generalizing listed left with
  | zero =>
    have nothing : left = [] := eq_nil_of_length_eq_zero (Nat.le_zero.mp short)
    have only := page_rest limit ordered irrefl (by rw [nothing]; exact Nat.zero_le limit)
    refine ⟨[⟨left, none⟩], fun fuel enough => ?_, append_nil left, fun page contra => by cases contra⟩
    obtain ⟨fuel, rfl⟩ := Nat.exists_eq_succ_of_ne_zero (Nat.ne_zero_of_lt enough)
    rw [walk]
    simp only [only]
  | succ bound ih =>
    by_cases more : limit < left.length
    · -- A full page ends at its last item, which is the cursor of the next.
      have moved : listed ++ left = (listed ++ left.take limit) ++ left.drop limit := by
        rw [List.append_assoc, take_append_drop]
      have shorter : (left.drop limit).length ≤ bound := by
        rw [length_drop]
        omega
      obtain ⟨item, last⟩ := last_of_full some_items more
      have first := page_full limit ordered irrefl more
      rw [last] at first
      have ends : (listed ++ left.take limit).getLast? = some item := by
        rw [getLast?_append, last]
        rfl
      obtain ⟨pages, walked, flat, sizes⟩ := ih (moved ▸ ordered) shorter
      rw [← moved, ends] at walked
      refine ⟨⟨left.take limit, some item⟩ :: pages, fun fuel enough => ?_, ?_, ?_⟩
      · obtain ⟨fuel, rfl⟩ := Nat.exists_eq_succ_of_ne_zero (Nat.ne_zero_of_lt enough)
        rw [walk]
        simp only [first]
        rw [walked fuel (by rw [length_drop]; omega)]
        rfl
      · rw [flatMap_cons, flat]
        exact take_append_drop limit left
      · cases pages with
        | nil =>
          intro page listed
          cases listed
        | cons second others =>
          rw [dropLast_cons_cons]
          intro page listed
          rcases mem_cons.mp listed with rfl | listed
          · change (left.take limit).length = limit
            rw [length_take]
            omega
          · exact sizes page listed
    · have only := page_rest limit ordered irrefl (Nat.le_of_not_lt more)
      refine ⟨[⟨left, none⟩], fun fuel enough => ?_, append_nil left, fun page contra => by cases contra⟩
      obtain ⟨fuel, rfl⟩ := Nat.exists_eq_succ_of_ne_zero (Nat.ne_zero_of_lt enough)
      rw [walk]
      simp only [only]

theorem walk_pages {limit : Nat} (some_items : 0 < limit) (irrefl : ∀ item, after item item = false) {items : List T}
    (ordered : Ordered after items) :
    ∃ pages, (∀ fuel, items.length < fuel → walk after limit items fuel none = some pages) ∧ pages.flatMap Page.items = items ∧
      ∀ page ∈ pages.dropLast, page.items.length = limit :=
  @walk_from T after limit some_items irrefl items.length [] items ordered (Nat.le_refl _)

end

end AstrLink.KeysetPages
