import AstrLink.CommonSublists

/-!
The comparison of two texts line by line. What the two start and end with is matched first, a table of common runs is
filled backwards over the middle and walked forwards, and unchanged lines far from a change are folded away.
-/
namespace AstrLink.LineDiff
open CommonSublists List

inductive LineKind where
  | same
  | added
  | removed
deriving DecidableEq

abbrev Line := List Char

structure DiffLine where
  kind : LineKind
  text : Line

/-- Every line ending becomes a newline. -/
def normalize : List Char → List Char
  | [] => []
  | '\r' :: '\n' :: rest => '\n' :: normalize rest
  | '\r' :: rest => '\n' :: normalize rest
  | char :: rest => char :: normalize rest

def splitLines (text : List Char) : List Line :=
  if text = [] then []
  else
    let lines := (normalize text).splitOn '\n'
    if lines.getLast? = some [] then lines.dropLast else lines

/-- The table is one array; a row has a place more than there are lines on the right. -/
def cell (right : List Line) (i j : Nat) : Nat := i * (right.length + 1) + j

/-- The places of a row, the last one first. -/
def fillRow (left right : List Line) (i : Nat) : Nat → (Nat → Nat) → Nat → Nat
  | 0, lengths => lengths
  | j + 1, lengths => fillRow left right i j (Function.update lengths (cell right i j)
      (if left[i]? = right[j]? then lengths (cell right (i + 1) (j + 1)) + 1
      else max (lengths (cell right (i + 1) j)) (lengths (cell right i (j + 1)))))

def fillRows (left right : List Line) : Nat → (Nat → Nat) → Nat → Nat
  | 0, lengths => lengths
  | i + 1, lengths => fillRows left right i (fillRow left right i right.length lengths)

/-- The lines from two positions on, by what is left there of the texts. -/
def walk (lengths : Nat → Nat → Nat) (i j : Nat) : List Line → List Line → List DiffLine
  | [], right => right.map (.mk .added)
  | left, [] => left.map (.mk .removed)
  | first :: left, second :: right =>
    if first = second then .mk .same first :: walk lengths (i + 1) (j + 1) left right
    else if lengths i (j + 1) ≤ lengths (i + 1) j then .mk .removed first :: walk lengths (i + 1) j left (second :: right)
    else .mk .added second :: walk lengths i (j + 1) (first :: left) right
termination_by left right => left.length + right.length

def middleDiff (left right : List Line) (maxCells : Int) : List DiffLine :=
  if left.length = 0 ∨ right.length = 0 ∨ maxCells < left.length * right.length then
    left.map (.mk .removed) ++ right.map (.mk .added)
  else
    let lengths := fillRows left right left.length fun _ => 0
    walk (fun i j => lengths (cell right i j)) 0 0 left right

/-- How many lines the two start with alike. -/
def commonRun : List Line → List Line → Nat
  | first :: left, second :: right => if first = second then commonRun left right + 1 else 0
  | _, _ => 0

/-- How many lines the two end with alike, after the first ones. -/
def commonTail (head : Nat) (left right : List Line) : Nat :=
  commonRun (left.drop head).reverse (right.drop head).reverse

/-- The lines without the first and the last ones. -/
def middle (head tail : Nat) (lines : List Line) : List Line := (lines.take (lines.length - tail)).drop head

def lineDiff (before after : List Char) (maxCells : Int) : List DiffLine :=
  let left := splitLines before
  let right := splitLines after
  let head := commonRun left right
  let tail := commonTail head left right
  (left.take head).map (.mk .same) ++ middleDiff (middle head tail left) (middle head tail right) maxCells ++
    (left.drop (left.length - tail)).map (.mk .same)

inductive DiffFold where
  | line (line : DiffLine)
  | fold (count : Nat)

/-- The lines within `context` of a changed line, marked one change after the other. -/
def near (lines : List DiffLine) (context : Nat) : Nat → Bool :=
  lines.zipIdx.foldl (fun near entry =>
    if entry.1.kind = .same then near
    else fun index => near index ||
      decide (entry.2 - context ≤ index ∧ index < min (lines.length - 1) (entry.2 + context) + 1)) fun _ => false

def skip (skipped : Nat) : List DiffFold := if 0 < skipped then [.fold skipped] else []

def folded (near : Nat → Bool) (index skipped : Nat) : List DiffLine → List DiffFold
  | [] => skip skipped
  | line :: rest =>
    if line.kind = .same ∧ near index = false then folded near (index + 1) (skipped + 1) rest
    else skip skipped ++ .line line :: folded near (index + 1) 0 rest

def foldDiff (lines : List DiffLine) (context : Nat) : List DiffFold := folded (near lines context) 0 0 lines

variable {left right : List Line} {lengths : Nat → Nat} {i j : Nat}

/-- What is filled in is right, and so is the last column. -/
def Filled (left right : List Line) (i j : Nat) (lengths : Nat → Nat) : Prop :=
  ∀ i' j', i' ≤ left.length → j' ≤ right.length → i < i' ∨ i = i' ∧ j ≤ j' ∨ j' = right.length →
    Longest (left.drop i') (right.drop j') (lengths (cell right i' j'))

theorem cell_inj {i' j' : Nat} (inside : j ≤ right.length) (inside' : j' ≤ right.length)
    (same : cell right i j = cell right i' j') : i = i' ∧ j = j' := by
  have row (i j : Nat) (inside : j ≤ right.length) : cell right i j / (right.length + 1) = i := by
    rw [cell, Nat.mul_comm, Nat.mul_add_div (by omega), Nat.div_eq_of_lt (by omega), Nat.add_zero]
  have rows : i = i' := by rw [← row i j inside, same, row i' j' inside']
  subst rows
  exact ⟨rfl, Nat.add_left_cancel same⟩

theorem Filled.place (filled : Filled left right i (j + 1) lengths) (above : i < left.length) (before : j < right.length) :
    Longest (left.drop i) (right.drop j) (if left[i]? = right[j]? then lengths (cell right (i + 1) (j + 1)) + 1
      else max (lengths (cell right (i + 1) j)) (lengths (cell right i (j + 1)))) := by
  have first := drop_eq_getElem_cons above
  have second := drop_eq_getElem_cons before
  split
  case isTrue alike =>
    rw [getElem?_eq_getElem above, getElem?_eq_getElem before, Option.some_inj] at alike
    rw [first, second, alike]
    exact (filled (i + 1) (j + 1) above before (by omega)).cons _
  case isFalse differ =>
    rw [getElem?_eq_getElem above, getElem?_eq_getElem before, Option.some_inj] at differ
    have below := filled (i + 1) j above (by omega) (by omega)
    have beside := filled i (j + 1) (by omega) before (by omega)
    rw [second] at below
    rw [first] at beside
    rw [first, second]
    exact .skip differ below beside

theorem fillRow_filled (above : i < left.length) (inside : j ≤ right.length) (filled : Filled left right i j lengths) :
    Filled left right i 0 (fillRow left right i j lengths) := by
  induction j generalizing lengths with
  | zero => exact filled
  | succ j ih =>
    refine ih (by omega) fun i' j' inLeft inRight known => ?_
    by_cases here : i' = i ∧ j' = j
    · obtain ⟨rfl, rfl⟩ := here
      rw [Function.update_self]
      exact filled.place above inside
    · rw [Function.update_of_ne fun same => here (cell_inj inRight (by omega) same)]
      exact filled i' j' inLeft inRight (by omega)

theorem fillRows_filled (above : i ≤ left.length) (filled : Filled left right i 0 lengths) :
    Filled left right 0 0 (fillRows left right i lengths) := by
  induction i generalizing lengths with
  | zero => exact filled
  | succ i ih =>
    exact ih (by omega) (fillRow_filled above (Nat.le_refl _) fun i' j' inLeft inRight known =>
      filled i' j' inLeft inRight (by omega))

theorem filled_start (left right : List Line) : Filled left right left.length 0 fun _ => 0 := by
  intro i j inLeft inRight known
  rcases known with after | ⟨rfl, -⟩ | rfl
  · omega
  · rw [drop_length]
    exact longest_nil_left _
  · rw [drop_length]
    exact longest_nil_right _

def lineCount (diff : List DiffLine) : Nat := diff.countP (·.kind = .same)

theorem lineCount_append (diff more : List DiffLine) : lineCount (diff ++ more) = lineCount diff + lineCount more :=
  countP_append

theorem lineCount_map (kind : LineKind) (lines : List Line) :
    lineCount (lines.map (.mk kind)) = if kind = .same then lines.length else 0 := by
  by_cases same : kind = .same <;> simp [lineCount, countP_map, Function.comp_def, same]

/-- The lines of one side, all but those of the other. -/
def side (other : LineKind) (diff : List DiffLine) : List Line := (diff.filter (·.kind ≠ other)).map (·.text)

theorem side_append (other : LineKind) (diff more : List DiffLine) : side other (diff ++ more) = side other diff ++ side other more := by
  simp [side]

theorem side_map (other kind : LineKind) (lines : List Line) : side other (lines.map (.mk kind)) = if kind = other then [] else lines := by
  by_cases same : kind = other <;> simp [side, filter_map, Function.comp_def, same]

theorem side_walk (lengths : Nat → Nat → Nat) :
    side .added (walk lengths i j left right) = left ∧ side .removed (walk lengths i j left right) = right := by
  fun_induction walk lengths i j left right with
  | case1 | case2 => simp [side_map]
  | case3 | case4 | case5 => simp_all [side]

theorem walk_longest {before after : List Line} {lengths : Nat → Nat → Nat}
    (table : ∀ i j, i ≤ before.length → j ≤ after.length → Longest (before.drop i) (after.drop j) (lengths i j))
    (atLeft : before.drop i = left) (atRight : after.drop j = right) :
    Longest left right (lineCount (walk lengths i j left right)) := by
  have next {lines rest : List Line} {line : List Char} {index : Nat} (rests : lines.drop index = line :: rest) :
      lines.drop (index + 1) = rest ∧ index < lines.length := by
    have counted := congrArg length rests
    rw [length_drop, length_cons] at counted
    exact ⟨by rw [← tail_drop, rests, tail_cons], by omega⟩
  fun_induction walk lengths i j left right with
  | case1 => simpa [lineCount_map] using longest_nil_left _
  | case2 => simpa [lineCount_map] using longest_nil_right _
  | case3 i j left second right ih =>
    rw [lineCount, countP_cons_of_pos (by simp)]
    exact (ih (next atLeft).1 (next atRight).1).cons second
  | case4 i j first left second right differ larger ih =>
    rw [lineCount, countP_cons_of_neg (by simp)]
    obtain ⟨rest, inLeft⟩ := next atLeft
    have beside := table i (j + 1) (Nat.le_of_lt (next atLeft).2) (next atRight).2
    have below := table (i + 1) j inLeft (Nat.le_of_lt (next atRight).2)
    rw [atLeft, (next atRight).1] at beside
    have counted := (ih rest atRight).unique (by rwa [rest, atRight] at below)
    have longest := (ih rest atRight).skip differ beside
    rwa [Nat.max_eq_left (counted ▸ larger)] at longest
  | case5 i j first left second right differ smaller ih =>
    rw [lineCount, countP_cons_of_neg (by simp)]
    obtain ⟨rest, inRight⟩ := next atRight
    have below := table (i + 1) j (next atLeft).2 (Nat.le_of_lt inRight)
    have beside := table i (j + 1) (Nat.le_of_lt (next atLeft).2) inRight
    rw [(next atLeft).1, atRight] at below
    have counted := (ih atLeft rest).unique (by rwa [rest, atLeft] at beside)
    have longest := below.skip differ (ih atLeft rest)
    rwa [Nat.max_eq_right (counted ▸ Nat.le_of_not_le smaller)] at longest

theorem side_middleDiff (left right : List Line) (maxCells : Int) :
    side .added (middleDiff left right maxCells) = left ∧ side .removed (middleDiff left right maxCells) = right := by
  unfold middleDiff
  split
  · simp [side_append, side_map]
  · exact side_walk _

theorem middleDiff_longest {maxCells : Int} (fits : left.length * right.length ≤ maxCells) :
    Longest left right (lineCount (middleDiff left right maxCells)) := by
  unfold middleDiff
  split
  case isTrue plain =>
    rw [lineCount_append, lineCount_map, lineCount_map]
    rcases plain with empty | empty | large
    · rw [length_eq_zero_iff.mp empty]
      exact longest_nil_left _
    · rw [length_eq_zero_iff.mp empty]
      exact longest_nil_right _
    · omega
  case isFalse =>
    have filled := fillRows_filled (Nat.le_refl _) (filled_start left right)
    exact walk_longest (fun i j inLeft inRight => filled i j inLeft inRight (by omega)) drop_zero drop_zero

theorem commonRun_spec : left.take (commonRun left right) = right.take (commonRun left right) ∧
    commonRun left right ≤ left.length ∧ commonRun left right ≤ right.length := by
  fun_induction commonRun left right with
  | case1 left second right ih =>
    exact ⟨by rw [take_succ_cons, take_succ_cons, ih.1], Nat.succ_le_succ ih.2.1, Nat.succ_le_succ ih.2.2⟩
  | case2 | case3 => simp

theorem middle_parts {head tail : Nat} (fits : head + tail ≤ left.length) :
    left.take head ++ middle head tail left ++ left.drop (left.length - tail) = left := by
  have front : (left.take (left.length - tail)).take head = left.take head := by rw [take_take, Nat.min_eq_left (by omega)]
  rw [middle, ← front, take_append_drop, take_append_drop]

theorem trimmed (left right : List Line) :
    let head := commonRun left right
    let tail := commonTail head left right
    left.take head ++ middle head tail left ++ left.drop (left.length - tail) = left ∧
      left.take head ++ middle head tail right ++ left.drop (left.length - tail) = right := by
  intro head tail
  obtain ⟨heads, inLeft, inRight⟩ : left.take head = right.take head ∧ head ≤ left.length ∧ head ≤ right.length := commonRun_spec
  obtain ⟨tails, withinLeft, withinRight⟩ : (left.drop head).reverse.take tail = (right.drop head).reverse.take tail ∧
    tail ≤ (left.drop head).reverse.length ∧ tail ≤ (right.drop head).reverse.length := commonRun_spec
  rw [length_reverse, length_drop] at withinLeft withinRight
  rw [take_reverse, take_reverse, drop_drop, drop_drop, length_drop, length_drop] at tails
  have ends : left.drop (left.length - tail) = right.drop (right.length - tail) := by
    have same := reverse_inj.mp tails
    rwa [show head + (left.length - head - tail) = left.length - tail by omega,
      show head + (right.length - head - tail) = right.length - tail by omega] at same
  refine ⟨middle_parts (by omega), ?_⟩
  rw [heads, ends]
  exact middle_parts (by omega)

/-- Within `context` of a changed line, or one. -/
def Near (lines : List DiffLine) (context index : Nat) : Prop :=
  ∃ change ∈ lines.zipIdx, change.1.kind ≠ .same ∧ change.2 ≤ index + context ∧ index ≤ change.2 + context

instance (lines : List DiffLine) (context index : Nat) : Decidable (Near lines context index) := inferInstanceAs (Decidable (∃ _ ∈ _, _))

theorem near_iff {lines : List DiffLine} {context index : Nat} (inside : index < lines.length) :
    near lines context index = true ↔ Near lines context index := by
  have marked (entries : List (DiffLine × Nat)) (start : Nat → Bool) : (entries.foldl (fun near entry =>
      if entry.1.kind = .same then near
      else fun index => near index ||
        decide (entry.2 - context ≤ index ∧ index < min (lines.length - 1) (entry.2 + context) + 1)) start) index = true ↔
      start index = true ∨ ∃ entry ∈ entries, entry.1.kind ≠ .same ∧ entry.2 ≤ index + context ∧ index ≤ entry.2 + context := by
    induction entries generalizing start with
    | nil => simp
    | cons entry rest ih =>
      rw [foldl_cons, ih]
      split
      case isTrue same => simp [same]
      case isFalse changed =>
        have window : entry.2 - context ≤ index ∧ index < min (lines.length - 1) (entry.2 + context) + 1 ↔
          entry.2 ≤ index + context ∧ index ≤ entry.2 + context := by omega
        simp only [Bool.or_eq_true, decide_eq_true_eq, window, or_assoc, exists_mem_cons_iff, changed, ne_eq, not_false_eq_true,
          true_and]
  rw [near, marked]
  simp [Near]

/-- The places of a folded diff: the line that is shown there, if one is. -/
def places : DiffFold → List (Option DiffLine)
  | .line line => [some line]
  | .fold count => replicate count none

theorem skip_places (skipped : Nat) : (skip skipped).flatMap places = replicate skipped none := by
  cases skipped <;> simp [skip, places]

theorem folded_places (near : Nat → Bool) (index skipped : Nat) (lines : List DiffLine) :
    (folded near index skipped lines).flatMap places = replicate skipped none ++
      (lines.zipIdx index).map fun entry => if entry.1.kind = .same ∧ near entry.2 = false then none else some entry.1 := by
  fun_induction folded near index skipped lines with
  | case1 index skipped => simpa using skip_places skipped
  | case2 index skipped line rest alone ih =>
    rw [ih, zipIdx_cons, map_cons, if_pos alone, replicate_succ', append_assoc, singleton_append]
  | case3 index skipped line rest shown ih =>
    rw [flatMap_append, skip_places, flatMap_cons, ih, zipIdx_cons, map_cons, if_neg shown, places]
    rfl

/-- A folded diff shows every line near to a change and counts the others. -/
theorem foldDiff_places (lines : List DiffLine) (context : Nat) :
    (foldDiff lines context).flatMap places =
      lines.zipIdx.map fun entry => if Near lines context entry.2 then some entry.1 else none := by
  rw [foldDiff, folded_places, replicate_zero, nil_append]
  refine map_congr_left fun entry listed => ?_
  have inside := (List.getElem?_eq_some_iff.mp (mem_zipIdx_iff_getElem?.mp listed)).1
  by_cases shown : Near lines context entry.2
  · rw [if_pos shown, if_neg (by simp [(near_iff inside).mpr shown])]
  · have same : entry.1.kind = .same := by
      by_contra changed
      exact shown ⟨entry, listed, changed, by omega, by omega⟩
    rw [if_neg shown, if_pos ⟨same, by simpa using mt (near_iff inside).mp shown⟩]

/-- A comparison shows both texts line by line, with as many common lines as there can be where the middles are small
enough, and a folded one every line near to a change. -/
theorem diff_minimal (before after : List Char) (maxCells : Int) :
    let left := splitLines before
    let right := splitLines after
    let head := commonRun left right
    let tail := commonTail head left right
    let diff := lineDiff before after maxCells
    side .added diff = left ∧ side .removed diff = right ∧
      ((middle head tail left).length * (middle head tail right).length ≤ maxCells → Longest left right (lineCount diff)) ∧
      ∀ (lines : List DiffLine) (context : Nat), (foldDiff lines context).flatMap places =
        lines.zipIdx.map fun entry => if Near lines context entry.2 then some entry.1 else none := by
  intro left right head tail diff
  obtain ⟨lefts, rights⟩ := trimmed left right
  have parts : diff = (left.take head).map (.mk .same) ++ middleDiff (middle head tail left) (middle head tail right) maxCells ++
    (left.drop (left.length - tail)).map (.mk .same) := rfl
  obtain ⟨before, after⟩ := side_middleDiff (middle head tail left) (middle head tail right) maxCells
  refine ⟨?_, ?_, fun fits => ?_, foldDiff_places⟩
  · simpa only [parts, side_append, side_map, before, reduceCtorEq, if_false] using lefts
  · simpa only [parts, side_append, side_map, after, reduceCtorEq, if_false] using rights
  · have longest := ((middleDiff_longest fits).append_left (left.take head)).append_right (left.drop (left.length - tail))
    rw [lefts, rights] at longest
    simpa only [parts, lineCount_append, lineCount_map, if_true] using longest

end AstrLink.LineDiff
