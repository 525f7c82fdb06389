import Mathlib
import AstrLink.StringReplacing

/-!
What becomes of a body whose strings are replaced. The walk finds the edits that
the tree of the body has, in their order; spliced in, they spell the rewritten
tree. `replaces_literals` says what the body is then, and when the rewrite is
refused.
-/
namespace AstrLink.ReplacedLiterals
open JsonSyntax JsonPointers StringReplacing List
open Option (map_eq_some_iff map_some some.inj)
open Nat (add_assoc le_add_right)

variable {low : Nat} {text : Bytes} {high : Nat}

section
variable (decode : List Piece → Text)

section
variable (replacements : Replacements)

/-- The edits below a value in front of some others. -/
def both (first second : Option (List Edit)) : Option (List Edit) := first.bind fun edits => second.map (edits ++ ·)

def childEdits (index : Nat) (pointer : Text) (value : Value) (inside : Option (List Edit)) : Option (List Edit) :=
  match replacements.find pointer with
  | none => inside
  | some replacement =>
    match value with
    | .string content =>
      if decode content = replacement.original then
        some [⟨index, index + (stringText content).length, stringText replacement.raw⟩]
      else none
    | _ => none

mutual

def editsBelow (index : Nat) (pointer : Text) : Value → Option (List Edit)
  | .array elements => elementEdits (index + 1) pointer 0 elements
  | .object members => memberEdits (index + 1) pointer members
  | _ => some []

def elementEdits (index : Nat) (pointer : Text) (place : Nat) : Elements → Option (List Edit)
  | .last before value _ =>
    childEdits decode replacements (index + before.text.length) (indexPointer pointer place) value
      (editsBelow (index + before.text.length) (indexPointer pointer place) value)
  | .cons before value after rest =>
    both
      (childEdits decode replacements (index + before.text.length) (indexPointer pointer place) value
        (editsBelow (index + before.text.length) (indexPointer pointer place) value))
      (elementEdits (index + (before.text ++ value.text ++ after.text).length + 1) pointer (place + 1) rest)

def memberEdits (index : Nat) (pointer : Text) : Members → Option (List Edit)
  | .last before name afterKey beforeValue value _ =>
    childEdits decode replacements (index + (keyText before name afterKey beforeValue).length)
      (keyPointer decode pointer name) value
      (editsBelow (index + (keyText before name afterKey beforeValue).length) (keyPointer decode pointer name) value)
  | .cons before name afterKey beforeValue value after rest =>
    both
      (childEdits decode replacements (index + (keyText before name afterKey beforeValue).length)
        (keyPointer decode pointer name) value
        (editsBelow (index + (keyText before name afterKey beforeValue).length) (keyPointer decode pointer name) value))
      (memberEdits (index + (keyText before name afterKey beforeValue ++ value.text ++ after.text).length + 1) pointer rest)

end

/-! ### The walk -/

variable {pointer : Text}

theorem find_wanted {replacement : StringReplacement} (found : replacements.find pointer = some replacement) :
    (pointer, replacement) ∈ replacements.entries := by
  obtain ⟨entry, first, rfl⟩ := map_eq_some_iff.mp found
  have same : entry.1 = pointer := by simpa using find?_some first
  rw [← same]
  exact mem_of_find?_eq_some first

theorem not_wanted (some_letter : pointer ≠ []) (unwanted : replacements.wanted.contains pointer = false) :
    replacements.find pointer = none ∧ ∀ more, replacements.find (childPointer pointer more) = none := by
  have absent : pointer ∉ replacements.wanted := by
    intro listed
    rw [contains_iff_mem.mpr listed] at unwanted
    cases unwanted
  refine ⟨?here, fun more => ?below⟩
  case here =>
    cases found : replacements.find pointer with
    | none => rfl
    | some replacement =>
      exact absurd (mem_flatMap.mpr ⟨_, find_wanted replacements found, mem_append_right _ (mem_singleton.mpr rfl)⟩)
        absent
  case below =>
    cases found : replacements.find (childPointer pointer more) with
    | none => rfl
    | some replacement =>
      refine absurd (mem_flatMap.mpr ⟨_, find_wanted replacements found, mem_append_left _ ?_⟩) absent
      refine mem_map.mpr ⟨pointer.length, mem_filter.mpr ⟨?_, ?_⟩, ?_⟩
      · rw [mem_range]
        simp [childPointer]
      · have positive := length_pos_iff.mpr some_letter
        simp [childPointer]
        omega
      · simp [childPointer]

def Untouched (pointer : Text) : Prop := ∀ more, replacements.find (childPointer pointer more) = none

variable {decode replacements}

theorem Untouched.child (untouched : Untouched replacements pointer) (segment : Text) :
    Untouched replacements (childPointer pointer segment) := by
  intro more
  have below := untouched (segment ++ '/' :: more)
  rw [childPointer, ← cons_append, ← List.append_assoc] at below
  exact below

variable {inside : Option (List Edit)}

theorem childEdits_nothing {segment : Text} (untouched : Untouched replacements pointer) (index : Nat) (value : Value)
    (nothing : inside = some []) :
    childEdits decode replacements index (childPointer pointer segment) value inside = some [] := by
  rw [childEdits, untouched segment]
  exact nothing

mutual

theorem editsBelow_nothing {pointer : Text} (untouched : Untouched replacements pointer) (index : Nat) : (value : Value) →
    editsBelow decode replacements index pointer value = some []
  | .array elements => elementEdits_nothing untouched (index + 1) 0 elements
  | .object members => memberEdits_nothing untouched (index + 1) members
  | .word _ => rfl
  | .number _ => rfl
  | .string _ => rfl
  | .emptyArray _ => rfl
  | .emptyObject _ => rfl

theorem elementEdits_nothing {pointer : Text} (untouched : Untouched replacements pointer) (index place : Nat) :
    (elements : Elements) → elementEdits decode replacements index pointer place elements = some []
  | .last _ value _ => childEdits_nothing untouched _ value (editsBelow_nothing (untouched.child _) _ value)
  | .cons _ value _ rest => by
    rw [elementEdits, elementEdits_nothing untouched _ _ rest]
    rw [indexPointer, childEdits_nothing untouched _ value (editsBelow_nothing (untouched.child _) _ value)]
    rfl

theorem memberEdits_nothing {pointer : Text} (untouched : Untouched replacements pointer) (index : Nat) :
    (members : Members) → memberEdits decode replacements index pointer members = some []
  | .last _ _ _ _ value _ =>
    childEdits_nothing untouched _ value (editsBelow_nothing (untouched.child _) _ value)
  | .cons _ _ _ _ value _ rest => by
    rw [memberEdits, memberEdits_nothing untouched _ rest]
    rw [keyPointer, childEdits_nothing untouched _ value (editsBelow_nothing (untouched.child _) _ value)]
    rfl

end

def isContainer : Value → Bool
  | .word _ => false
  | .number _ => false
  | .string _ => false
  | _ => true

variable {index : Nat} {value : Value}

theorem described_container {child : Result} (described : Described decode index child value) :
    (child.isObject || child.isArray) = isContainer value := by
  obtain ⟨-, raw, shown⟩ := described
  cases value with
  | word => simp [Result.isObject, Result.isArray, isContainer, shown.2]
  | number => simp [Result.isObject, Result.isArray, isContainer, shown.2]
  | string => simp [Result.isObject, Result.isArray, isContainer, shown.1]
  | emptyArray => simp [Result.isObject, Result.isArray, isContainer, raw, Value.text, show child.type = .json from shown]
  | array => simp [Result.isObject, Result.isArray, isContainer, raw, Value.text, show child.type = .json from shown]
  | emptyObject => simp [Result.isObject, Result.isArray, isContainer, raw, Value.text, show child.type = .json from shown]
  | object => simp [Result.isObject, Result.isArray, isContainer, raw, Value.text, show child.type = .json from shown]

theorem editsBelow_scalar (scalar : isContainer value = false) (index : Nat) (pointer : Text) :
    editsBelow decode replacements index pointer value = some [] := by
  cases value with
  | word => rfl
  | number => rfl
  | string => rfl
  | _ => cases scalar

theorem walk_child {offset : Nat} {segment : Text} {key : Key} {child : Result} {inside rest : Listing}
    (named : (if key.type = .string then escapeJSONPointer key.str else jsonIndex key.num) = segment)
    (described : Described decode index child value)
    (below : isContainer value = true → replacements.walk offset (childPointer pointer segment) inside = editsBelow decode replacements (offset + index) (childPointer pointer segment) value) :
    replacements.walk offset pointer (.cons key child inside rest) =
      both (childEdits decode replacements (offset + index) (childPointer pointer segment) value
        (editsBelow decode replacements (offset + index) (childPointer pointer segment) value))
        (replacements.walk offset pointer rest) := by
  have container := described_container described
  obtain ⟨start, raw, shown⟩ := described
  have nothing (edits : Option (List Edit)) : both (some []) edits = edits := by cases edits <;> rfl
  rw [Replacements.walk, named]
  dsimp only
  split
  · next unwanted =>
    have some_letter : childPointer pointer segment ≠ [] := by simp [childPointer]
    obtain ⟨unfound, untouched⟩ := not_wanted replacements some_letter (by simpa using unwanted)
    rw [childEdits, unfound]
    dsimp only
    rw [editsBelow_nothing untouched, nothing]
  · rw [childEdits]
    cases found : replacements.find (childPointer pointer segment) with
    | none =>
      dsimp only
      rw [container]
      cases contains : isContainer value with
      | true =>
        rw [if_pos rfl, below contains]
        rfl
      | false =>
        rw [editsBelow_scalar contains, nothing]
        rfl
    | some replacement =>
      dsimp only
      cases value with
      | string content =>
        obtain ⟨type, str⟩ := shown
        dsimp only
        by_cases held : decode content = replacement.original
        · have expected : ¬ ((decide (child.type ≠ .string) || decide (child.str ≠ replacement.original)) = true) := by
            simp [type, str, held]
          rw [if_neg expected, if_pos held, start, raw]
          rfl
        · have other : (decide (child.type ≠ .string) || decide (child.str ≠ replacement.original)) = true := by
            simp [str, held]
          rw [if_pos other, if_neg held]
          rfl
      | word => simp [both, show child.type ≠ .string from shown.1]
      | number => simp [both, show child.type ≠ .string from shown.1]
      | _ => simp [both, show child.type = .json from shown]

mutual

theorem walk_below (offset : Nat) (pointer : Text) : (value : Value) → (index : Nat) → (listing : Listing) →
    Lists decode index listing value → isContainer value = true →
    replacements.walk offset pointer listing = editsBelow decode replacements (offset + index) pointer value
  | .emptyArray _, _, _, lists, _ => by
    obtain rfl := lists
    rfl
  | .emptyObject _, _, _, lists, _ => by
    obtain rfl := lists
    rfl
  | .array elements, index, listing, lists, _ => walk_elements offset pointer elements (index + 1) 0 listing lists
  | .object members, index, listing, lists, _ => walk_members offset pointer members (index + 1) listing lists
  | .word _, _, _, _, contains => by cases contains
  | .number _, _, _, _, contains => by cases contains
  | .string _, _, _, _, contains => by cases contains

theorem walk_elements (offset : Nat) (pointer : Text) : (elements : Elements) → (index place : Nat) → (listing : Listing) →
    ListsElements decode index place listing elements →
    replacements.walk offset pointer listing = elementEdits decode replacements (offset + index) pointer place elements
  | .last before value after, index, place, .cons key child inside rest, lists => by
    obtain ⟨rfl, type, num, described, lists⟩ := lists
    have named : (if key.type = .string then escapeJSONPointer key.str else jsonIndex key.num) = jsonIndex place := by
      rw [type, num]
      rfl
    rw [walk_child named described fun contains => walk_below offset _ value _ inside lists contains,
      elementEdits, add_assoc]
    show both _ (some []) = _
    rw [indexPointer]
    cases childEdits decode replacements _ _ value _ with
    | none => rfl
    | some edits => simp [both]
  | .cons before value after more, index, place, .cons key child inside rest, lists => by
    obtain ⟨others, type, num, described, lists⟩ := lists
    have named : (if key.type = .string then escapeJSONPointer key.str else jsonIndex key.num) = jsonIndex place := by
      rw [type, num]
      rfl
    rw [walk_child named described fun contains => walk_below offset _ value _ inside lists contains,
      walk_elements offset pointer more _ _ rest others, elementEdits]
    simp only [add_assoc]
    rfl

theorem walk_members (offset : Nat) (pointer : Text) : (members : Members) → (index : Nat) → (listing : Listing) →
    ListsMembers decode index listing members →
    replacements.walk offset pointer listing = memberEdits decode replacements (offset + index) pointer members
  | .last before name afterKey beforeValue value after, index, .cons key child inside rest, lists => by
    obtain ⟨rfl, type, str, described, lists⟩ := lists
    have named : (if key.type = .string then escapeJSONPointer key.str else jsonIndex key.num) =
        escapeJSONPointer (decode name) := by
      rw [type, str]
      rfl
    rw [walk_child named described fun contains => walk_below offset _ value _ inside lists contains,
      memberEdits, add_assoc]
    show both _ (some []) = _
    rw [keyPointer]
    cases childEdits decode replacements _ _ value _ with
    | none => rfl
    | some edits => simp [both]
  | .cons before name afterKey beforeValue value after more, index, .cons key child inside rest, lists => by
    obtain ⟨others, type, str, described, lists⟩ := lists
    have named : (if key.type = .string then escapeJSONPointer key.str else jsonIndex key.num) =
        escapeJSONPointer (decode name) := by
      rw [type, str]
      rfl
    rw [walk_child named described fun contains => walk_below offset _ value _ inside lists contains,
      walk_members offset pointer more _ rest others, memberEdits]
    simp only [add_assoc]
    rfl

end

/-! ### Where the edits are -/

/-- Edits in their order, all within some bounds. -/
structure Arranged (low high : Nat) (edits : List Edit) : Prop where
  within : ∀ edit ∈ edits, low ≤ edit.start ∧ edit.start < edit.finish ∧ edit.finish ≤ high
  ordered : edits.Pairwise fun first second => first.finish ≤ second.start

theorem Arranged.nil (low high : Nat) : Arranged low high [] := ⟨nofun, Pairwise.nil⟩

variable {edits : List Edit}

theorem Arranged.widen {lower higher : Nat} (arranged : Arranged low high edits) (below : lower ≤ low)
    (above : high ≤ higher) : Arranged lower higher edits := by
  refine ⟨fun edit listed => ?_, arranged.ordered⟩
  obtain ⟨starts, some_byte, ends⟩ := arranged.within edit listed
  exact ⟨Nat.le_trans below starts, some_byte, Nat.le_trans ends above⟩

theorem Arranged.append {middle : Nat} {first second : List Edit} (left : Arranged low middle first)
    (right : Arranged middle high second) (ordered : low ≤ middle) (bounded : middle ≤ high) :
    Arranged low high (first ++ second) := by
  constructor
  · intro edit listed
    rcases mem_append.mp listed with before | after
    · exact (left.widen (Nat.le_refl _) bounded).within edit before
    · exact (right.widen ordered (Nat.le_refl _)).within edit after
  · refine pairwise_append.mpr ⟨left.ordered, right.ordered, fun one before other after => ?_⟩
    exact Nat.le_trans (left.within one before).2.2 (right.within other after).1

theorem both_some {first second : Option (List Edit)} (found : both first second = some edits) :
    ∃ front back, first = some front ∧ second = some back ∧ edits = front ++ back := by
  obtain ⟨front, here, rest⟩ := Option.bind_eq_some_iff.mp found
  obtain ⟨back, there, rfl⟩ := map_eq_some_iff.mp rest
  exact ⟨front, back, here, there, rfl⟩

theorem childEdits_cases (found : childEdits decode replacements index pointer value inside = some edits) :
    (replacements.find pointer = none ∧ inside = some edits) ∨
      ∃ content replacement, value = .string content ∧ replacements.find pointer = some replacement ∧
        decode content = replacement.original ∧
        edits = [⟨index, index + (stringText content).length, stringText replacement.raw⟩] := by
  rw [childEdits] at found
  split at found
  · next unfound => exact .inl ⟨unfound, found⟩
  · next replacement there =>
    split at found
    · next content =>
      split at found
      · next held => exact .inr ⟨content, replacement, rfl, there, held, (some.inj found).symm⟩
      · cases found
    · cases found

theorem child_arranged (below : ∀ edits, inside = some edits → Arranged index (index + value.text.length) edits)
    (found : childEdits decode replacements index pointer value inside = some edits) :
    Arranged index (index + value.text.length) edits := by
  rcases childEdits_cases found with ⟨-, found⟩ | ⟨content, replacement, rfl, -, -, rfl⟩
  · exact below edits found
  · refine ⟨fun edit listed => ?_, pairwise_singleton _ _⟩
    obtain rfl := mem_singleton.mp listed
    refine ⟨Nat.le_refl _, ?_, Nat.le_refl _⟩
    simp [stringText]

mutual

theorem below_arranged (index : Nat) (pointer : Text) : (value : Value) → (edits : List Edit) →
    editsBelow decode replacements index pointer value = some edits → Arranged index (index + value.text.length) edits
  | .array elements, edits, found => by
    refine (elements_arranged (index + 1) pointer 0 elements edits found).widen (Nat.le_succ _) ?_
    simp [Value.text]
    omega
  | .object members, edits, found => by
    refine (members_arranged (index + 1) pointer members edits found).widen (Nat.le_succ _) ?_
    simp [Value.text]
    omega
  | .word _, _, found => by cases found; exact .nil _ _
  | .number _, _, found => by cases found; exact .nil _ _
  | .string _, _, found => by cases found; exact .nil _ _
  | .emptyArray _, _, found => by cases found; exact .nil _ _
  | .emptyObject _, _, found => by cases found; exact .nil _ _

theorem elements_arranged (index : Nat) (pointer : Text) (place : Nat) : (elements : Elements) → (edits : List Edit) →
    elementEdits decode replacements index pointer place elements = some edits →
    Arranged index (index + elements.text.length) edits
  | .last before value after, edits, found => by
    refine (child_arranged (below_arranged _ _ value) found).widen (le_add_right _ _) ?_
    simp [Elements.text]
    omega
  | .cons before value after rest, edits, found => by
    obtain ⟨front, back, here, there, rfl⟩ := both_some found
    have left := child_arranged (below_arranged _ _ value) here
    have right := elements_arranged _ _ _ rest back there
    refine ((left.widen (le_add_right _ _) ?_).append right ?_ ?_).widen (Nat.le_refl _) ?_
    · simp
      omega
    · simp
      omega
    · exact le_add_right _ _
    · simp [Elements.text]
      omega

theorem members_arranged (index : Nat) (pointer : Text) : (members : Members) → (edits : List Edit) →
    memberEdits decode replacements index pointer members = some edits →
    Arranged index (index + members.text.length) edits
  | .last before name afterKey beforeValue value after, edits, found => by
    refine (child_arranged (below_arranged _ _ value) found).widen (le_add_right _ _) ?_
    simp [Members.text]
    omega
  | .cons before name afterKey beforeValue value after rest, edits, found => by
    obtain ⟨front, back, here, there, rfl⟩ := both_some found
    have left := child_arranged (below_arranged _ _ value) here
    have right := members_arranged _ _ rest back there
    refine ((left.widen (le_add_right _ _) ?_).append right ?_ ?_).widen (Nat.le_refl _) ?_
    · simp
      omega
    · simp
      omega
    · exact le_add_right _ _
    · simp [Members.text]
      omega

end

/-! ### The spliced body -/

def Stands (body : Bytes) (index : Nat) (text : Bytes) : Prop := text <+: body.drop index

variable {body : Bytes}

theorem Stands.split {first second : Bytes} (stands : Stands body index (first ++ second)) :
    Stands body index first ∧ Stands body (index + first.length) second := by
  obtain ⟨rest, same⟩ := stands
  constructor
  · exact ⟨second ++ rest, by rw [← same, List.append_assoc]⟩
  · refine ⟨rest, ?_⟩
    rw [← drop_drop, ← same, List.append_assoc, drop_left]

theorem Stands.bounded (stands : Stands body index text) (inside : index ≤ body.length) :
    index + text.length ≤ body.length := by
  have most := stands.length_le
  rw [length_drop] at most
  omega

theorem Stands.between (stands : Stands body index text) : (body.take (index + text.length)).drop index = text := by
  obtain ⟨rest, same⟩ := stands
  rw [drop_take, Nat.add_sub_cancel_left, ← same, take_left]

theorem drop_between (text : Bytes) (ordered : low ≤ high) :
    text.drop low = (text.take high).drop low ++ text.drop high := by
  conv => lhs; rw [← take_append_drop high text]
  by_cases inside : high ≤ text.length
  · rw [drop_append_of_le_length (by rw [length_take]; omega)]
  · have past : text.drop high = [] := drop_eq_nil_of_le (by omega)
    rw [past, append_nil, append_nil]

theorem splice_from {tail : Bytes} (later : splice body high edits = some tail) (ordered : low ≤ high) :
    splice body low edits = some ((body.take high).drop low ++ tail) := by
  cases edits with
  | nil =>
    cases later
    exact congrArg some (drop_between body ordered)
  | cons edit edits =>
    rw [splice] at later ⊢
    split at later
    · cases later
    · next good =>
      simp only [Bool.or_eq_true, decide_eq_true_eq, not_or, Nat.not_lt] at good
      have still : ¬ ((decide (edit.start < low) || decide (body.length < edit.finish) ||
          decide (body[edit.start]? ≠ some quote)) = true) := by
        simp only [Bool.or_eq_true, decide_eq_true_eq, not_or, Nat.not_lt]
        exact ⟨⟨Nat.le_trans ordered good.1.1, good.1.2⟩, good.2⟩
      obtain ⟨rest, found, rfl⟩ := map_eq_some_iff.mp later
      have front := drop_between (body.take edit.start) ordered
      rw [take_take, Nat.min_eq_left good.1.1] at front
      rw [if_neg still, found, front]
      simp

/-- Where an old text stands, the edits put the new one. -/
def Splices (body : Bytes) (index : Nat) (old new : Bytes) (edits : List Edit) : Prop :=
  ∀ more tail, splice body (index + old.length) more = some tail → splice body index (edits ++ more) = some (new ++ tail)

theorem Splices.same (stands : Stands body index text) : Splices body index text text [] := by
  intro more tail later
  have front := splice_from later (le_add_right _ _)
  rw [stands.between] at front
  exact front

theorem Splices.append {first second one two : Bytes} {front back : List Edit}
    (left : Splices body index first one front) (right : Splices body (index + first.length) second two back) :
    Splices body index (first ++ second) (one ++ two) (front ++ back) := by
  intro more tail later
  rw [length_append, ← add_assoc] at later
  rw [List.append_assoc, List.append_assoc]
  exact left _ _ (right _ _ later)

theorem Splices.literal (old new : List Piece) (stands : Stands body index (stringText old))
    (inside : index ≤ body.length) :
    Splices body index (stringText old) (stringText new) [⟨index, index + (stringText old).length, stringText new⟩] := by
  intro more tail later
  have bounded := stands.bounded inside
  have quoted : body[index]? = some quote := by
    obtain ⟨rest, same⟩ := stands
    have first : (body.drop index)[0]? = some quote := by rw [← same]; rfl
    rwa [getElem?_drop, Nat.add_zero] at first
  have nothing : (body.take index).drop index = [] := drop_eq_nil_of_le (by rw [length_take]; omega)
  rw [singleton_append, splice]
  have good : ¬ ((decide (index < index) || decide (body.length < index + (stringText old).length) ||
      decide (body[index]? ≠ some quote)) = true) := by
    simp [quoted]
    omega
  rw [if_neg good, later, nothing]
  rfl

theorem Splices.child {inside : Value} {below : Option (List Edit)} (stands : Stands body index value.text)
    (bounded : index ≤ body.length)
    (spliced : ∀ edits, below = some edits → Splices body index value.text inside.text edits)
    (container : isContainer value = false → inside = value)
    (found : childEdits decode replacements index pointer value below = some edits) :
    Splices body index value.text (rewriteChild replacements pointer inside value).text edits := by
  rcases childEdits_cases found with ⟨unfound, found⟩ | ⟨content, replacement, rfl, there, -, rfl⟩
  · have kept : rewriteChild replacements pointer inside value = inside := by
      cases value with
      | string content =>
        rw [rewriteChild, unfound]
        exact (container rfl).symm
      | _ => rfl
    rw [kept]
    exact spliced edits found
  · have new : rewriteChild replacements pointer inside (.string content) = .string replacement.raw := by
      rw [rewriteChild, there]
    rw [new]
    exact .literal content replacement.raw stands bounded

theorem Splices.framed {front old new back : Bytes} (stands : Stands body index (front ++ old ++ back))
    (child : Splices body (index + front.length) old new edits) :
    Splices body index (front ++ old ++ back) (front ++ new ++ back) edits := by
  have parts := ((Splices.same stands.split.1.split.1).append child).append (Splices.same stands.split.2)
  rw [nil_append, append_nil] at parts
  exact parts

theorem rewrite_scalar (scalar : isContainer value = false) (pointer : Text) :
    rewrite decode replacements pointer value = value := by
  cases value with
  | word => rfl
  | number => rfl
  | string => rfl
  | _ => cases scalar

theorem Splices.around {front back : Bytes} (stands : Stands body index (front ++ value.text ++ back))
    (bounded : index ≤ body.length)
    (spliced : ∀ edits, editsBelow decode replacements (index + front.length) pointer value = some edits → Splices body (index + front.length) value.text (rewrite decode replacements pointer value).text edits)
    (found : childEdits decode replacements (index + front.length) pointer value (editsBelow decode replacements (index + front.length) pointer value) = some edits) :
    Splices body index (front ++ value.text ++ back)
      (front ++ (rewriteChild replacements pointer (rewrite decode replacements pointer value) value).text ++ back) edits := by
  have inside : index + front.length ≤ body.length := stands.split.1.split.1.bounded bounded
  exact .framed stands (.child stands.split.1.split.2 inside spliced
    (fun scalar => rewrite_scalar scalar pointer) found)

mutual

theorem splices_below {body : Bytes} (pointer : Text) : (value : Value) → (index : Nat) → (edits : List Edit) →
    Stands body index value.text → index ≤ body.length → editsBelow decode replacements index pointer value = some edits →
    Splices body index value.text (rewrite decode replacements pointer value).text edits
  | .array elements, index, edits, stands, bounded, found => by
    have opened : Stands body index ([openArray] ++ elements.text ++ [closeArray]) := stands
    have inside : index + 1 ≤ body.length := opened.split.1.split.1.bounded bounded
    exact .framed opened (splices_elements pointer elements (index + 1) 0 edits opened.split.1.split.2 inside found)
  | .object members, index, edits, stands, bounded, found => by
    have opened : Stands body index ([openObject] ++ members.text ++ [closeObject]) := stands
    have inside : index + 1 ≤ body.length := opened.split.1.split.1.bounded bounded
    exact .framed opened (splices_members pointer members (index + 1) edits opened.split.1.split.2 inside found)
  | .word _, _, _, stands, _, found => by cases found; exact .same stands
  | .number _, _, _, stands, _, found => by cases found; exact .same stands
  | .string _, _, _, stands, _, found => by cases found; exact .same stands
  | .emptyArray _, _, _, stands, _, found => by cases found; exact .same stands
  | .emptyObject _, _, _, stands, _, found => by cases found; exact .same stands

theorem splices_elements {body : Bytes} (pointer : Text) : (elements : Elements) → (index place : Nat) → (edits : List Edit) →
    Stands body index elements.text → index ≤ body.length →
    elementEdits decode replacements index pointer place elements = some edits →
    Splices body index elements.text (rewriteElements decode replacements pointer place elements).text edits
  | .last before value after, index, place, edits, stands, bounded, found => by
    have inside := stands.split.1.split.1.bounded bounded
    exact .around stands bounded
      (fun edits => splices_below _ value _ edits stands.split.1.split.2 inside) found
  | .cons before value after rest, index, place, edits, stands, bounded, found => by
    obtain ⟨front, back, here, there, rfl⟩ := both_some found
    have whole : Stands body index ((before.text ++ value.text ++ after.text) ++ ([comma] ++ rest.text)) := stands
    obtain ⟨first, others⟩ := whole.split
    have past := first.bounded bounded
    have inside := first.split.1.split.1.bounded bounded
    have more := others.split.1.bounded past
    have left := Splices.around first bounded
      (fun edits => splices_below _ value _ edits first.split.1.split.2 inside) here
    have right := splices_elements pointer rest _ _ back others.split.2 more there
    exact left.append ((Splices.same others.split.1).append right)

theorem splices_members {body : Bytes} (pointer : Text) : (members : Members) → (index : Nat) → (edits : List Edit) →
    Stands body index members.text → index ≤ body.length →
    memberEdits decode replacements index pointer members = some edits →
    Splices body index members.text (rewriteMembers decode replacements pointer members).text edits
  | .last before name afterKey beforeValue value after, index, edits, stands, bounded, found => by
    have inside := stands.split.1.split.1.bounded bounded
    exact .around stands bounded
      (fun edits => splices_below _ value _ edits stands.split.1.split.2 inside) found
  | .cons before name afterKey beforeValue value after rest, index, edits, stands, bounded, found => by
    obtain ⟨front, back, here, there, rfl⟩ := both_some found
    have whole : Stands body index
        ((keyText before name afterKey beforeValue ++ value.text ++ after.text) ++ ([comma] ++ rest.text)) := stands
    obtain ⟨first, others⟩ := whole.split
    have past := first.bounded bounded
    have inside := first.split.1.split.1.bounded bounded
    have more := others.split.1.bounded past
    have left := Splices.around first bounded
      (fun edits => splices_below _ value _ edits first.split.1.split.2 inside) here
    have right := splices_members pointer rest _ back others.split.2 more there
    exact left.append ((Splices.same others.split.1).append right)

end

/-! ### How many edits there are -/

variable (replacements)

/-- The number of the strings to be replaced, none when one of them is not what is expected. -/
def tally : List (Text × Node) → Option Nat
  | [] => some 0
  | entry :: rest =>
    match replacements.find entry.1 with
    | none => tally rest
    | some replacement =>
      match entry.2 with
      | .string text => if text = replacement.original then (tally rest).map (· + 1) else none
      | _ => none

variable {replacements}

theorem tally_append (first second : List (Text × Node)) :
    tally replacements (first ++ second) =
      (tally replacements first).bind fun count => (tally replacements second).map (count + ·) := by
  induction first with
  | nil => simp [tally]
  | cons entry first ih =>
    rw [cons_append, tally, tally]
    split
    · exact ih
    · split
      · split
        · rw [ih]
          cases tally replacements first with
          | none => rfl
          | some count =>
            cases tally replacements second with
            | none => rfl
            | some more =>
              simp only [Option.bind_some, map_some]
              congr 1
              omega
        · rfl
      · rfl

theorem both_length (first second : Option (List Edit)) :
    (both first second).map List.length =
      (first.map List.length).bind fun count => (second.map List.length).map (count + ·) := by
  cases first with
  | none => rfl
  | some front =>
    cases second with
    | none => rfl
    | some back => simp [both]

theorem childEdits_tally (below : inside.map List.length = tally replacements (nodesBelow decode pointer value)) :
    (childEdits decode replacements index pointer value inside).map List.length =
      tally replacements ((pointer, nodeOf decode value) :: nodesBelow decode pointer value) := by
  rw [childEdits, tally]
  split
  · next unfound =>
    rw [unfound]
    exact below
  · next replacement found =>
    rw [found]
    cases value with
    | string content =>
      dsimp only [nodeOf, nodesBelow]
      split <;> rfl
    | _ => rfl

mutual

theorem below_tally (pointer : Text) : (value : Value) → (index : Nat) →
    (editsBelow decode replacements index pointer value).map List.length = tally replacements (nodesBelow decode pointer value)
  | .array elements, index => elements_tally pointer elements (index + 1) 0
  | .object members, index => members_tally pointer members (index + 1)
  | .word _, _ => rfl
  | .number _, _ => rfl
  | .string _, _ => rfl
  | .emptyArray _, _ => rfl
  | .emptyObject _, _ => rfl

theorem elements_tally (pointer : Text) : (elements : Elements) → (index place : Nat) →
    (elementEdits decode replacements index pointer place elements).map List.length =
      tally replacements (elementNodes decode pointer place elements)
  | .last _ value _, _, _ => childEdits_tally (below_tally _ value _)
  | .cons _ value _ rest, _, _ => by
    rw [elementEdits, elementNodes, both_length, tally_append, childEdits_tally (below_tally _ value _),
      elements_tally pointer rest]

theorem members_tally (pointer : Text) : (members : Members) → (index : Nat) →
    (memberEdits decode replacements index pointer members).map List.length =
      tally replacements (memberNodes decode pointer members)
  | .last _ _ _ _ value _, _ => childEdits_tally (below_tally _ value _)
  | .cons _ _ _ _ value _ rest, _ => by
    rw [memberEdits, memberNodes, both_length, tally_append, childEdits_tally (below_tally _ value _),
      members_tally pointer rest]

end

def given (replacements : Replacements) (entry : Text × Node) : Bool := (replacements.find entry.1).isSome

theorem tally_iff {entries : List (Text × Node)} {count : Nat} :
    tally replacements entries = some count ↔
      (∀ entry ∈ entries, ∀ replacement, replacements.find entry.1 = some replacement →
        entry.2 = .string replacement.original) ∧ (entries.filter (given replacements)).length = count := by
  induction entries generalizing count with
  | nil => simp [tally]
  | cons entry entries ih =>
    rw [tally]
    cases found : replacements.find entry.1 with
    | none =>
      have plain : given replacements entry = false := by rw [given, found]; rfl
      dsimp only
      rw [ih, filter_cons, plain, forall_mem_cons]
      simp [found]
    | some replacement =>
      have listed : given replacements entry = true := by rw [given, found]; rfl
      dsimp only
      rw [filter_cons, listed, forall_mem_cons, if_pos rfl, length_cons]
      cases node : entry.2 with
      | string text =>
        dsimp only
        by_cases same : text = replacement.original
        · rw [if_pos same, map_eq_some_iff]
          constructor
          · rintro ⟨before, tallied, rfl⟩
            obtain ⟨expected, length⟩ := ih.mp tallied
            refine ⟨⟨?_, expected⟩, by rw [length]⟩
            intro other there
            obtain rfl := some.inj (found.symm.trans there)
            rw [same]
          · rintro ⟨⟨-, expected⟩, rfl⟩
            exact ⟨_, ih.mpr ⟨expected, rfl⟩, rfl⟩
        · rw [if_neg same]
          constructor
          · intro contra
            cases contra
          · rintro ⟨⟨expected, -⟩, -⟩
            have text_same := expected replacement found
            exact absurd (Node.string.inj text_same) same
      | _ =>
        constructor
        · intro contra
          cases contra
        · rintro ⟨⟨expected, -⟩, -⟩
          have text_same := expected replacement found
          cases text_same

end

/-! ### The rewrite -/

section
variable (scanner : Scanner) (sort : (Edit → Edit → Bool) → List Edit → List Edit) (replacements : Replacements)

structure SortsByStart (sort : (Edit → Edit → Bool) → List Edit → List Edit) : Prop where
  perm : ∀ less edits, (sort less edits).Perm edits
  sorted : ∀ edits, (sort (fun left right => left.start < right.start) edits).Pairwise fun left right =>
    left.start ≤ right.start

theorem sorts_arranged {sort : (Edit → Edit → Bool) → List Edit → List Edit} (sorts : SortsByStart sort)
    {edits : List Edit} (arranged : Arranged low high edits) :
    sort (fun left right => left.start < right.start) edits = edits := by
  have increasing : edits.Pairwise fun left right => left.start < right.start := by
    refine Pairwise.imp_of_mem (fun {left right} here there ordered => ?_) arranged.ordered
    have bounds := arranged.within left here
    omega
  have same_start {left right : Edit} (here : left ∈ edits) (there : right ∈ edits) (same : left.start = right.start) :
      left = right := by
    by_contra apart
    have symmetric : Std.Symm fun left right : Edit => left.start ≠ right.start := ⟨fun _ _ => Ne.symm⟩
    exact (increasing.imp fun ordered => Nat.ne_of_lt ordered).forall here there apart same
  have perm := sorts.perm (fun left right => left.start < right.start) edits
  refine Perm.eq_of_pairwise (fun left right here there before after => ?_) (sorts.sorted edits)
    (increasing.imp fun ordered => Nat.le_of_lt ordered) perm
  exact same_start (perm.mem_iff.mp here) there (Nat.le_antisymm before after)

/-- The strings to be replaced are all there, as they are expected. -/
def AllHeld (document : Document) : Prop :=
  ∀ entry ∈ replacements.entries, (entry.1, Node.string entry.2.original) ∈ nodes decode document

theorem find_entry {replacements : Replacements} {entry : Text × StringReplacement} (listed : entry ∈ replacements.entries) :
    replacements.find entry.1 = some entry.2 := by
  cases found : replacements.find entry.1 with
  | none =>
    have absent := find?_eq_none.mp (Option.map_eq_none_iff.mp found) entry listed
    simp at absent
  | some other =>
    have there := find_wanted replacements found
    have same : entry = (entry.1, other) := inj_on_of_nodup_map replacements.distinct listed there rfl
    exact congrArg (some ·.2) same.symm

def occurring (document : Document) : List Text := ((nodes decode document).filter (given replacements)).map (·.1)

theorem occurring_listed (document : Document) :
    occurring decode replacements document ⊆ replacements.entries.map (·.1) := by
  intro pointer found
  obtain ⟨entry, kept, rfl⟩ := mem_map.mp found
  obtain ⟨replacement, there⟩ := Option.isSome_iff_exists.mp (mem_filter.mp kept).2
  exact mem_map.mpr ⟨_, find_wanted replacements there, rfl⟩

variable {document : Document}

theorem mem_occurring {entry : Text × StringReplacement} (listed : entry ∈ replacements.entries) {node : Node}
    (there : (entry.1, node) ∈ nodes decode document) : entry.1 ∈ occurring decode replacements document := by
  refine mem_map.mpr ⟨_, mem_filter.mpr ⟨there, ?_⟩, rfl⟩
  rw [given, find_entry listed]
  rfl

theorem occurring_distinct (distinct : DistinctKeys decode document.value) :
    (occurring decode replacements document).Nodup :=
  (below_nodup decode [] document.value distinct).sublist (filter_sublist.map _)

theorem tally_held (unrepeated : (occurring decode replacements document).Nodup) :
    tally replacements (nodes decode document) = some replacements.entries.length ↔ AllHeld decode replacements document := by
  have listed := occurring_listed decode replacements document
  rw [tally_iff]
  constructor
  · rintro ⟨expected, length⟩ entry among
    have as_many : (replacements.entries.map (·.1)).length ≤ (occurring decode replacements document).length :=
      Nat.le_of_eq (by rw [occurring, length_map, length_map, length])
    have perm := (unrepeated.subperm listed).perm_of_length_le as_many
    have here := perm.mem_iff.mpr (mem_map.mpr ⟨entry, among, rfl⟩)
    obtain ⟨node, kept, same⟩ := mem_map.mp here
    have inside := (mem_filter.mp kept).1
    have held := expected node inside entry.2 (by rw [same]; exact find_entry among)
    rw [← same, ← held]
    exact inside
  · intro held
    constructor
    · intro node inside replacement found
      have among := find_wanted replacements found
      have there := held _ among
      have here : node ∈ (nodes decode document).filter (given replacements) :=
        mem_filter.mpr ⟨inside, by rw [given, found]; rfl⟩
      have other : (node.1, Node.string replacement.original) ∈ (nodes decode document).filter (given replacements) :=
        mem_filter.mpr ⟨there, by rw [given, found]; rfl⟩
      exact congrArg Prod.snd (inj_on_of_nodup_map unrepeated here other rfl)
    · have covers : replacements.entries.map (·.1) ⊆ occurring decode replacements document := by
        intro pointer found
        obtain ⟨entry, among, rfl⟩ := mem_map.mp found
        exact mem_occurring decode replacements among (held entry among)
      have fewer := (unrepeated.subperm listed).length_le
      have more := (replacements.distinct.subperm covers).length_le
      rw [occurring, length_map, length_map] at fewer more
      omega

theorem tally_repeated (all : replacements.entries.map (·.1) ⊆ occurring decode replacements document)
    (twice : ¬ (occurring decode replacements document).Nodup) :
    tally replacements (nodes decode document) ≠ some replacements.entries.length := by
  intro counted
  have length := ((tally_iff).mp counted).2
  have perm := (replacements.distinct.subperm all).perm_of_length_le
    (Nat.le_of_eq (by rw [occurring, length_map, length_map, length]))
  exact twice (perm.nodup_iff.mp replacements.distinct)

theorem trimmed_text (container : isContainer document.value = true) :
    document.text.dropWhile isSpace = document.value.text ++ document.after.text := by
  rw [Document.text, List.append_assoc, dropWhile_append_of_pos document.before.blank]
  cases value : document.value with
  | word => rw [value] at container; cases container
  | number => rw [value] at container; cases container
  | string => rw [value] at container; cases container
  | _ => rfl

theorem splice_document {edits : List Edit}
    (found : editsBelow decode replacements document.before.text.length [] document.value = some edits) :
    splice document.text 0 edits = some (rewritten decode replacements document).text := by
  have whole : document.text = document.before.text ++ (document.value.text ++ document.after.text) := by
    rw [Document.text, List.append_assoc]
  have stands : Stands document.text document.before.text.length (document.value.text ++ document.after.text) :=
    ⟨[], by rw [append_nil, whole, drop_left]⟩
  have inside : document.before.text.length ≤ document.text.length := by
    have lengths := congrArg List.length whole
    rw [length_append] at lengths
    omega
  have spliced := splices_below [] document.value _ edits stands.split.1 inside found
  have rest : document.text.drop (document.before.text.length + document.value.text.length) = document.after.text := by
    rw [← drop_drop, whole, drop_left, drop_left]
  have last := spliced [] document.after.text (by rw [splice, rest])
  have first := splice_from last (Nat.zero_le _)
  rw [append_nil, drop_zero] at first
  have front : document.text.take document.before.text.length = document.before.text := by rw [whole, take_left]
  rw [first, front, rewritten, Document.text, List.append_assoc]

theorem replaceStrings_eq (sorts : SortsByStart sort) (container : isContainer document.value = true)
    (lists : Lists decode 0 (scanner (document.value.text ++ document.after.text)) document.value) :
    replaceStrings scanner sort document.text replacements = some (rewritten decode replacements document).text ∧
        tally replacements (nodes decode document) = some replacements.entries.length ∨
      replaceStrings scanner sort document.text replacements = none ∧
        tally replacements (nodes decode document) ≠ some replacements.entries.length := by
  have trimmed := trimmed_text container
  have offset : document.text.length - (document.value.text ++ document.after.text).length = document.before.text.length := by
    rw [Document.text, List.append_assoc, length_append]
    omega
  have walked := @walk_below decode replacements document.before.text.length [] document.value 0 _ lists container
  have counted := @below_tally decode replacements [] document.value document.before.text.length
  rw [nodes]
  rw [Nat.add_zero] at walked
  by_cases held : tally replacements (nodesBelow decode [] document.value) = some replacements.entries.length
  · refine .inl ⟨?_, held⟩
    rw [held, map_eq_some_iff] at counted
    obtain ⟨edits, found, length⟩ := counted
    have spliced := splice_document decode replacements found
    rw [replaceStrings]
    split
    · next nothing =>
      rw [nothing, length_nil, length_eq_zero_iff] at length
      rw [length] at spliced
      exact spliced
    · dsimp only
      rw [trimmed, offset, walked, found]
      dsimp only
      rw [if_neg (not_not_intro length), sorts_arranged sorts (below_arranged _ _ _ _ found)]
      exact spliced
  · refine .inr ⟨?_, held⟩
    rw [replaceStrings]
    split
    · next nothing =>
      refine absurd ((tally_iff).mpr ⟨fun entry _ replacement found => ?_, ?_⟩) held
      · have listed := find_wanted replacements found
        rw [nothing] at listed
        cases listed
      · rw [nothing, length_nil, length_eq_zero_iff, filter_eq_nil_iff]
        intro entry _
        simp [given, Replacements.find, nothing]
    · dsimp only
      rw [trimmed, offset, walked]
      cases found : editsBelow decode replacements document.before.text.length [] document.value with
      | none => rfl
      | some edits =>
        dsimp only
        have other : edits.length ≠ replacements.entries.length := by
          intro same
          rw [found, map_some, same] at counted
          exact held counted.symm
        rw [if_pos other]

/-- A rewritten body holds the new strings at the given pointers and is as before elsewhere, byte for byte outside of
string literals. Where no object has a key twice, the rewrite is refused just if a given pointer is missing or no longer
holds its string; where all of them are there, a repeated one is refused. -/
theorem replaces_literals {document : Document} (sorts : SortsByStart sort) (container : isContainer document.value = true)
    (lists : Lists decode 0 (scanner (document.value.text ++ document.after.text)) document.value) :
    (∀ text, replaceStrings scanner sort document.text replacements = some text →
      text = (rewritten decode replacements document).text ∧ SameOutside document.text text ∧
        nodes decode (rewritten decode replacements document) =
          (nodes decode document).map (replacedNode decode replacements)) ∧
    (DistinctKeys decode document.value →
      (replaceStrings scanner sort document.text replacements = none ↔
        ∃ entry ∈ replacements.entries, (entry.1, Node.string entry.2.original) ∉ nodes decode document)) ∧
    (replacements.entries.map (·.1) ⊆ occurring decode replacements document →
      ¬ (occurring decode replacements document).Nodup →
      replaceStrings scanner sort document.text replacements = none) := by
  have outcome := replaceStrings_eq decode scanner sort replacements sorts container lists
  refine ⟨fun text found => ?_, fun distinct => ?_, fun all twice => ?_⟩
  · rcases outcome with ⟨replaced, -⟩ | ⟨refused, -⟩
    · obtain rfl := some.inj (replaced.symm.trans found)
      refine ⟨rfl, ?_, nodes_rewrite decode replacements [] document.value⟩
      exact .append (.append (.same _) (same_rewrite decode replacements [] document.value)) (.same _)
    · cases refused.symm.trans found
  · have held := tally_held decode replacements (occurring_distinct decode replacements distinct)
    rcases outcome with ⟨replaced, counted⟩ | ⟨refused, miscounted⟩
    · constructor
      · intro none_there
        cases replaced.symm.trans none_there
      · rintro ⟨entry, listed, absent⟩
        exact absurd (held.mp counted entry listed) absent
    · refine ⟨fun _ => ?_, fun _ => refused⟩
      by_contra all_there
      refine miscounted (held.mpr fun entry listed => ?_)
      by_contra absent
      exact all_there ⟨entry, listed, absent⟩
  · exact (outcome.resolve_left fun replaced => tally_repeated decode replacements all twice replaced.2).1

end

end

def insertionSort (less : Edit → Edit → Bool) (edits : List Edit) : List Edit :=
  edits.insertionSort fun first second => less second first = false

theorem insertionSort_sorts : SortsByStart insertionSort := by
  refine ⟨fun less edits => perm_insertionSort _ edits, fun edits => ?_⟩
  have total : Std.Total fun first second : Edit => decide (second.start < first.start) = false := by
    refine ⟨fun first second => ?_⟩
    simp only [decide_eq_false_iff_not]
    omega
  have transitive : IsTrans Edit fun first second => decide (second.start < first.start) = false := by
    refine ⟨fun first second third left right => ?_⟩
    simp only [decide_eq_false_iff_not] at left right ⊢
    omega
  have sorted := pairwise_insertionSort (fun first second : Edit => decide (second.start < first.start) = false) edits
  exact sorted.imp fun ordered => Nat.le_of_not_lt (of_decide_eq_false ordered)

/-- The text of a string without escapes. -/
def plainText (content : List Piece) : Text :=
  content.flatMap fun
    | .plain byte _ => [Char.ofNat byte.toNat]
    | _ => []

theorem nothing_blank : ∀ byte ∈ ([] : Bytes), isSpace byte = true := nofun

def noBlank : Blank := ⟨[], nothing_blank⟩

/-- A byte that stands for itself in a string. -/
def Plain (byte : UInt8) : Prop := (0x20 ≤ byte && byte != quote && byte != backslash) = true

theorem plain_x : Plain 0x78 := rfl
theorem plain_y : Plain 0x79 := rfl
theorem plain_a : Plain 0x61 := rfl
theorem plain_slash : Plain 0x2F := rfl

def letterX : List Piece := [.plain 0x78 plain_x]
def letterY : List Piece := [.plain 0x79 plain_y]
def keyA : List Piece := [.plain 0x61 plain_a]
def keySlash : List Piece := [.plain 0x61 plain_a, .plain 0x2F plain_slash]

/-- A string under a key with a slash, and one in a list under an empty key. -/
def nested : Document :=
  ⟨noBlank, .object (.cons noBlank keySlash noBlank noBlank (.string letterX) noBlank
    (.last noBlank [] noBlank noBlank (.array (.last noBlank (.string letterX) noBlank)) noBlank)), noBlank⟩

def nestedListing : Listing :=
  .cons ⟨.string, ['a', '/'], 0⟩ ⟨.string, ['x'], 6, stringText letterX⟩ .nil
    (.cons ⟨.string, [], 0⟩ ⟨.json, [], 13, [openArray] ++ stringText letterX ++ [closeArray]⟩
      (.cons ⟨.number, [], 0⟩ ⟨.string, ['x'], 14, stringText letterX⟩ .nil .nil) .nil)

def nestedPlaces : Replacements where
  entries := [("//0".toList, ⟨['x'], letterY⟩), ("/a~1".toList, ⟨['x'], letterY⟩)]
  distinct := by decide

theorem replaces_literals_nested :
    (replaceStrings (fun _ => nestedListing) insertionSort nested.text nestedPlaces =
      some (rewritten plainText nestedPlaces nested).text) ∧
    nodes plainText (rewritten plainText nestedPlaces nested) =
      (nodes plainText nested).map (replacedNode plainText nestedPlaces) := by
  have replaced : replaceStrings (fun _ => nestedListing) insertionSort nested.text nestedPlaces =
      some (rewritten plainText nestedPlaces nested).text := by decide +kernel
  refine ⟨replaced, ?_⟩
  have lists : Lists plainText 0 nestedListing nested.value := by
    simp [nested, nestedListing, StringReplacing.Lists, ListsMembers, ListsElements, Described, plainText, keyText,
      noBlank, letterX, keySlash, stringText, contentText, Piece.text, Value.text, Elements.text]
  exact ((replaces_literals plainText (fun _ => nestedListing) insertionSort nestedPlaces insertionSort_sorts rfl lists).1 _
    replaced).2.2

/-- One key twice. -/
def doubled : Document :=
  ⟨noBlank, .object (.cons noBlank keyA noBlank noBlank (.string letterX) noBlank
    (.last noBlank keyA noBlank noBlank (.string letterX) noBlank)), noBlank⟩

def doubledListing : Listing :=
  .cons ⟨.string, ['a'], 0⟩ ⟨.string, ['x'], 5, stringText letterX⟩ .nil
    (.cons ⟨.string, ['a'], 0⟩ ⟨.string, ['x'], 13, stringText letterX⟩ .nil .nil)

def twoPlaces : Replacements where
  entries := [("/a".toList, ⟨['x'], letterY⟩), ("/b".toList, ⟨['x'], letterY⟩)]
  distinct := by decide

def single : Document := ⟨noBlank, .string letterX, noBlank⟩

def singleListing : Listing := .cons ⟨.null, [], 0⟩ ⟨.string, ['x'], 0, stringText letterX⟩ .nil .nil

def firstPlace : Replacements where
  entries := [("/0".toList, ⟨['x'], letterY⟩)]
  distinct := by decide

/-- A string that is missing does not stop the rewrite when another one is there twice, or when the body is one string. -/
theorem missing_not_refused :
    (Lists plainText 0 doubledListing doubled.value ∧ ("/b".toList ∉ (nodes plainText doubled).map (·.1)) ∧
      replaceStrings (fun _ => doubledListing) insertionSort doubled.text twoPlaces =
        some (rewritten plainText twoPlaces doubled).text) ∧
    nodes plainText single = [] ∧
      replaceStrings (fun _ => singleListing) insertionSort single.text firstPlace = some (stringText letterY) := by
  refine ⟨⟨?_, by decide, by decide +kernel⟩, rfl, by decide +kernel⟩
  simp [doubled, doubledListing, StringReplacing.Lists, ListsMembers, Described, plainText, keyText, noBlank, letterX, keyA,
    stringText, contentText, Piece.text, Value.text]

end AstrLink.ReplacedLiterals
