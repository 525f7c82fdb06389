import AstrLink.Normalizing

/-!
The words a person typed in a user message. Blocks that a client adds are dropped from both ends, other blocks
there are peeled off, and a message of nothing but blocks is read from its last one.
-/
namespace AstrLink.VisibleWords
open List
open Normalizing (isSpace trimSpace)

abbrev Text := List Char

def droppedTags : List Text := ["system-reminder".toList]

/-- How many nested wrappers are opened. -/
def maxUnwrapDepth : Nat := 4

def isTagNameByte (char : Char) (notFirst : Bool) : Bool :=
  char.isLower || char.isUpper || char == '_' || notFirst && (char.isDigit || char == '-' || char == '.' || char == ':')

def validTagName : Text → Bool
  | [] => false
  | first :: rest => isTagNameByte first false && rest.all (isTagNameByte · true)

def tagName : Text → Text
  | [] => []
  | first :: rest => if isTagNameByte first false then first :: rest.takeWhile (isTagNameByte · true) else []

/-- The name and the length of the tag that a text begins with, unless it closes itself. -/
def openTagAt : Text → Option (Text × Nat)
  | '<' :: inside =>
    let name := tagName inside
    let behind := inside.drop name.length
    if name = [] || !behind.head?.any (">\t\n\r /".toList.contains ·) then none
    else
      match behind.findIdx? (· == '>') with
      | none => none
      | some close =>
        let length := 1 + name.length + close + 1
        if "/>".toList.isSuffixOf (('<' :: inside).take length) then none else some (name, length)
  | _ => none

def closingTag (name : Text) : Text := "</".toList ++ name ++ ">".toList

/-- The start and the end of the tag that closes a block; `skip` characters were read. -/
def matchingClose (name : Text) (skip depth index : Nat) : Text → Option (Nat × Nat)
  | [] => none
  | char :: rest =>
    match skip with
    | skip + 1 => matchingClose name skip depth (index + 1) rest
    | 0 =>
      if (closingTag name).isPrefixOf (char :: rest) then
        if depth = 1 then some (index, index + (closingTag name).length)
        else matchingClose name ((closingTag name).length - 1) (depth - 1) (index + 1) rest
      else
        match openTagAt (char :: rest) with
        | some (opened, length) =>
          if opened = name then matchingClose name (length - 1) (depth + 1) (index + 1) rest
          else matchingClose name 0 depth (index + 1) rest
        | none => matchingClose name 0 depth (index + 1) rest

/-- The tags of a name that are open in front of a place, the innermost first. -/
def openBefore (name : Text) (closeStart skip index : Nat) (stack : List (Nat × Nat)) : Text → List (Nat × Nat)
  | [] => stack
  | char :: rest =>
    match skip with
    | skip + 1 => openBefore name closeStart skip (index + 1) stack rest
    | 0 =>
      if closeStart ≤ index then stack
      else if (closingTag name).isPrefixOf (char :: rest) then
        openBefore name closeStart ((closingTag name).length - 1) (index + 1) stack.tail rest
      else
        match openTagAt (char :: rest) with
        | some (opened, length) =>
          if opened ≠ name then openBefore name closeStart 0 (index + 1) stack rest
          -- The tag would end with the closing tag's own bracket.
          else if closeStart < index + length then stack
          else openBefore name closeStart (length - 1) (index + 1) ((index, index + length) :: stack) rest
        | none => openBefore name closeStart 0 (index + 1) stack rest

def matchingOpen (text name : Text) (closeStart : Nat) : Option (Nat × Nat) :=
  (openBefore name closeStart 0 0 [] text).head?

/-! ### Blocks -/

/-- A block at the start of a text: what is inside of it and what is left. -/
def leadingBlock (text : Text) (accept : Text → Bool) : Option (Text × Text) :=
  match openTagAt text with
  | none => none
  | some (name, innerStart) =>
    if !accept name then none
    else
      match matchingClose name 0 1 innerStart (text.drop innerStart) with
      | none => none
      | some (closeStart, closeEnd) => some ((text.take closeStart).drop innerStart, text.drop closeEnd)

/-- Where a closing tag starts last. -/
def lastClosing (text : Text) : Option Nat :=
  ((List.range text.length).filter fun index => "</".toList.isPrefixOf (text.drop index)).getLast?

/-- A block at the end of a text: what is inside of it and what is left. -/
def trailingBlock (text : Text) (accept : Text → Bool) : Option (Text × Text) :=
  if !">".toList.isSuffixOf text then none
  else
    match lastClosing text with
    | none => none
    | some closeStart =>
      let name := (text.take (text.length - 1)).drop (closeStart + 2)
      if !validTagName name || !accept name then none
      else
        match matchingOpen text name closeStart with
        | none => none
        | some (openStart, innerStart) => some ((text.take closeStart).drop innerStart, text.take openStart)

variable {text : Text}
variable {depth : Nat}

theorem matchingClose_after {name : Text} {skip index closeStart closeEnd : Nat}
    (found : matchingClose name skip depth index text = some (closeStart, closeEnd)) : 0 < closeEnd := by
  induction text generalizing skip depth index with
  | nil => cases found
  | cons char rest ih =>
    unfold matchingClose at found
    split at found
    · exact ih found
    · split at found
      · split at found
        · obtain ⟨-, rfl⟩ := Prod.mk.inj (Option.some.inj found)
          have some_bracket : 0 < (closingTag name).length := by simp [closingTag]
          exact Nat.add_pos_right _ some_bracket
        · exact ih found
      · split at found
        · split at found
          · exact ih found
          · exact ih found
        · exact ih found

theorem openBefore_inside {name : Text} {closeStart skip index : Nat} {stack : List (Nat × Nat)}
    (inside : ∀ entry ∈ stack, entry.1 < closeStart) :
    ∀ entry ∈ openBefore name closeStart skip index stack text, entry.1 < closeStart := by
  induction text generalizing skip index stack with
  | nil => exact inside
  | cons char rest ih =>
    unfold openBefore
    split
    · exact ih inside
    · split
      · exact inside
      · next before =>
        split
        · exact ih fun entry listed => inside entry (mem_of_mem_tail listed)
        · split
          · split
            · exact ih inside
            · split
              · exact inside
              · refine ih fun entry listed => ?_
                rcases mem_cons.mp listed with rfl | there
                · exact Nat.lt_of_not_le before
                · exact inside entry there
          · exact ih inside

theorem trimSpace_length (text : Text) : (trimSpace text).length ≤ text.length := by
  rw [trimSpace, length_reverse]
  refine Nat.le_trans (dropWhile_sublist _).length_le ?_
  rw [length_reverse]
  exact (dropWhile_sublist _).length_le

variable {inner : Text} {accept : Text → Bool}

theorem leadingBlock_shrinks {rest : Text} (found : leadingBlock text accept = some (inner, rest)) :
    (trimSpace rest).length < text.length := by
  unfold leadingBlock at found
  split at found
  · cases found
  · next name innerStart opened =>
    split at found
    · cases found
    · split at found
      · cases found
      · next closeStart closeEnd closed =>
        obtain ⟨-, rfl⟩ := Prod.mk.inj (Option.some.inj found)
        have after := matchingClose_after closed
        have some_text : text ≠ [] := by
          rintro rfl
          cases opened
        have positive := length_pos_iff.mpr some_text
        have most := trimSpace_length (text.drop closeEnd)
        rw [length_drop] at most
        omega

theorem trailingBlock_shrinks {before : Text} (found : trailingBlock text accept = some (inner, before)) :
    (trimSpace before).length < text.length := by
  unfold trailingBlock at found
  split at found
  · cases found
  · split at found
    · cases found
    · next closeStart closing =>
      dsimp only at found
      split at found
      · cases found
      · split at found
        · cases found
        · next openStart innerStart opened =>
          obtain ⟨-, rfl⟩ := Prod.mk.inj (Option.some.inj found)
          have listed := mem_of_head? opened
          have earlier := openBefore_inside (fun entry contra => by cases contra) _ listed
          have place := (mem_filter.mp (mem_of_getLast? closing)).1
          have inside := mem_range.mp place
          have most := trimSpace_length (text.take openStart)
          rw [length_take] at most
          dsimp only at earlier
          omega

/-- The blocks at the start of a text, and what is left. -/
def peelLeading (accept : Text → Bool) (text : Text) : List Text × Text :=
  match _ : leadingBlock text accept with
  | none => ([], text)
  | some (inner, rest) =>
    let (blocks, left) := peelLeading accept (trimSpace rest)
    (inner :: blocks, left)
termination_by text.length
decreasing_by exact leadingBlock_shrinks (by assumption)

/-- The blocks at the end of a text, in their order, and what is left. -/
def peelTrailing (accept : Text → Bool) (text : Text) : List Text × Text :=
  match _ : trailingBlock text accept with
  | none => ([], text)
  | some (inner, before) =>
    let (blocks, left) := peelTrailing accept (trimSpace before)
    (blocks ++ [inner], left)
termination_by text.length
decreasing_by exact trailingBlock_shrinks (by assumption)

/-- The insides of the blocks at both ends, in their order, and what is left without them. -/
def peelBlocks (raw : Text) (accept : Text → Bool) : List Text × Text :=
  let (leading, text) := peelLeading accept (trimSpace raw)
  let (trailing, rest) := peelTrailing accept text
  (leading ++ trailing, rest)

def visibleTextDepth (depth : Nat) (raw : Text) : Text :=
  let text := (peelBlocks raw (droppedTags.contains ·)).2
  match depth with
  | 0 => text
  | depth + 1 =>
    if text = [] then text
    else
      let (blocks, rest) := peelBlocks text fun _ => true
      if rest ≠ [] then rest
      else
        match blocks.getLast? with
        | none => rest
        | some last => visibleTextDepth depth last

def visibleText (raw : Text) : Text := visibleTextDepth maxUnwrapDepth raw

/-- The visible texts of some parts, those without any left out. -/
def joinVisible (parts : List Text) (separator : Text) : Text :=
  separator.intercalate ((parts.map visibleText).filter (· ≠ []))

/-- The text cut to a number of bytes, between two characters. -/
def truncateBytes (max : Nat) : Text → Text
  | [] => []
  | char :: rest => if char.utf8Size ≤ max then char :: truncateBytes (max - char.utf8Size) rest else []

/-! ### Texts of nothing but dropped blocks -/

/-- What may stand behind the name in the tag that opens a block. -/
structure Attributes (text : Text) : Prop where
  apart : ∀ char ∈ text.head?, char ∈ "\t\n\r /".toList
  closed : '>' ∉ text
  open_ended : text.getLast? ≠ some '/'

def block (name attributes inner : Text) : Text :=
  '<' :: (name ++ (attributes ++ '>' :: (inner ++ closingTag name)))

/-- What may stand in a block: no tag of the block's name but in blocks of their own. -/
inductive Enclosed (name : Text) : Text → Prop where
  | nil : Enclosed name []
  | letter {char : Char} {rest : Text} (closed : ¬ '<' :: name <+: char :: rest)
      (inside : ¬ closingTag name <+: char :: rest) (more : Enclosed name rest) : Enclosed name (char :: rest)
  | block {attributes inner rest : Text} (tag : Attributes attributes) (inside : Enclosed name inner)
      (more : Enclosed name rest) : Enclosed name (block name attributes inner ++ rest)

/-- Dropped blocks with white space around them. -/
inductive Helpers : Text → Prop where
  | blank {space : Text} (blank : ∀ char ∈ space, isSpace char.toNat) : Helpers space
  | block {space name attributes inner rest : Text} (blank : ∀ char ∈ space, isSpace char.toNat)
      (dropped : name ∈ droppedTags) (tag : Attributes attributes) (inside : Enclosed name inner)
      (more : Helpers rest) : Helpers (space ++ block name attributes inner ++ rest)

variable {char : Char}

section
variable {name : Text}

theorem isTagNameByte_apart (apart : char ∈ ">\t\n\r /".toList) : isTagNameByte char true = false := by
  have all : (">\t\n\r /".toList.all fun char => !isTagNameByte char true) = true := by decide
  simpa using all_eq_true.mp all char apart

theorem isTagNameByte_first (first : isTagNameByte char false = true) : isTagNameByte char true = true := by
  simp only [isTagNameByte, Bool.false_and, Bool.or_false, Bool.true_and, Bool.or_eq_true] at first ⊢
  exact Or.inl first

theorem validTagName_all (valid : validTagName name = true) : ∀ char ∈ name, isTagNameByte char true = true := by
  cases name with
  | nil => cases valid
  | cons first rest =>
    obtain ⟨begins, others⟩ := Bool.and_eq_true_iff.mp valid
    intro char listed
    rcases mem_cons.mp listed with rfl | later
    · exact isTagNameByte_first begins
    · exact all_eq_true.mp others char later

theorem validTagName_open (valid : validTagName name = true) : '<' ∉ name := by
  intro listed
  have letter := validTagName_all valid _ listed
  revert letter
  decide

theorem tagName_append (valid : validTagName name = true) (apart : char ∈ ">\t\n\r /".toList) (rest : Text) :
    tagName (name ++ char :: rest) = name := by
  cases name with
  | nil => cases valid
  | cons first others =>
    obtain ⟨begins, later⟩ := Bool.and_eq_true_iff.mp valid
    have ends : (others ++ char :: rest).takeWhile (isTagNameByte · true) = others := by
      rw [takeWhile_append_of_pos (all_eq_true.mp later), takeWhile_cons, isTagNameByte_apart apart]
      simp
    show (if isTagNameByte first false then first :: (others ++ char :: rest).takeWhile (isTagNameByte · true) else []) = _
    rw [if_pos begins, ends]

theorem tagName_begins (text : Text) : tagName text <+: text := by
  cases text with
  | nil => exact nil_prefix
  | cons first rest =>
    simp only [tagName]
    split
    · exact cons_prefix_cons.mpr ⟨rfl, takeWhile_prefix _⟩
    · exact nil_prefix

variable {text : Text}

theorem openTagAt_begins {length : Nat} (opened : openTagAt text = some (name, length)) :
    '<' :: name <+: text := by
  unfold openTagAt at opened
  split at opened
  · next inside =>
    dsimp only at opened
    split at opened
    · cases opened
    · split at opened
      · cases opened
      · split at opened
        · cases opened
        · obtain ⟨rfl, -⟩ := Prod.mk.inj (Option.some.inj opened)
          exact cons_prefix_cons.mpr ⟨rfl, tagName_begins inside⟩
  · cases opened

theorem openTagAt_open (inside : Text) :
    openTagAt ('<' :: inside) =
      if tagName inside = [] || !(inside.drop (tagName inside).length).head?.any (">\t\n\r /".toList.contains ·) then none
      else
        match (inside.drop (tagName inside).length).findIdx? (· == '>') with
        | none => none
        | some close =>
          if "/>".toList.isSuffixOf (('<' :: inside).take (1 + (tagName inside).length + close + 1)) then none
          else some (tagName inside, 1 + (tagName inside).length + close + 1) := rfl

theorem openTagAt_block (valid : validTagName name = true) {attributes : Text} (tag : Attributes attributes) (rest : Text) :
    openTagAt ('<' :: (name ++ (attributes ++ '>' :: rest))) = some (name, 1 + name.length + attributes.length + 1) := by
  obtain ⟨char, behind, starts, apart⟩ : ∃ char behind, attributes ++ '>' :: rest = char :: behind ∧
      char ∈ ">\t\n\r /".toList := by
    cases found : attributes with
    | nil => exact ⟨'>', rest, rfl, by decide⟩
    | cons char others =>
      refine ⟨char, _, rfl, ?_⟩
      have listed := tag.apart char (by rw [found]; rfl)
      simp only [String.reduceToList, mem_cons, not_mem_nil, or_false] at listed ⊢
      exact Or.inr listed
  have some_name : name ≠ [] := by
    rintro rfl
    cases valid
  have left : (name ++ (attributes ++ '>' :: rest)).drop name.length = attributes ++ '>' :: rest := by
    rw [drop_left]
  have close : (attributes ++ '>' :: rest).findIdx? (· == '>') = some attributes.length := by
    rw [findIdx?_append]
    have absent : attributes.findIdx? (· == '>') = none := by
      rw [findIdx?_eq_none_iff]
      intro char listed
      have other : char ≠ '>' := by
        rintro rfl
        exact tag.closed listed
      simpa using other
    rw [absent]
    simp [findIdx?_cons]
  have ends : ¬ "/>".toList <:+ ('<' :: (name ++ (attributes ++ '>' :: rest))).take (1 + name.length + attributes.length + 1) := by
    have whole : ('<' :: (name ++ (attributes ++ '>' :: rest))).take (1 + name.length + attributes.length + 1) =
        ('<' :: (name ++ attributes)) ++ ['>'] := by
      have split : '<' :: (name ++ (attributes ++ '>' :: rest)) = (('<' :: (name ++ attributes)) ++ ['>']) ++ rest := by simp
      have length : 1 + name.length + attributes.length + 1 = (('<' :: (name ++ attributes)) ++ ['>']).length := by
        simp
        omega
      rw [split, length, take_left]
    rw [whole]
    intro suffix
    have slash : ['/'] <:+ '<' :: (name ++ attributes) := by
      obtain ⟨front, same⟩ := suffix
      have same : (front ++ ['/']) ++ ['>'] = '<' :: (name ++ attributes) ++ ['>'] := by simpa using same
      exact ⟨front, append_cancel_right same⟩
    have last : ('<' :: (name ++ attributes)).getLast? = some '/' := by
      obtain ⟨front, same⟩ := slash
      rw [← same, getLast?_concat]
    rcases eq_nil_or_concat attributes with rfl | ⟨front, char, rfl⟩
    · rw [append_nil, getLast?_cons_of_ne_nil some_name] at last
      have letter := validTagName_all valid '/' (mem_of_getLast? last)
      revert letter
      decide
    · apply tag.open_ended
      rw [concat_eq_append, getLast?_concat]
      rw [concat_eq_append, ← List.append_assoc, ← cons_append, getLast?_concat] at last
      exact last
  rw [starts] at left close ends ⊢
  have named : ¬ (decide (name = []) || !(char :: behind).head?.any (">\t\n\r /".toList.contains ·)) = true := by
    simp only [head?_cons, Option.any_some, contains_iff_mem.mpr apart]
    simpa using some_name
  rw [openTagAt_open, tagName_append valid apart, left, if_neg named, close]
  exact if_neg (by simpa using ends)

theorem begins_within {tail front back : Text} (one_open : '<' ∉ tail) (some_front : front ≠ [])
    (begins : '<' :: tail <+: front ++ '<' :: back) : '<' :: tail <+: front := by
  by_cases fits : ('<' :: tail).length ≤ front.length
  · exact prefix_of_prefix_length_le begins (prefix_append _ _) fits
  · exfalso
    obtain ⟨rest, same⟩ := begins
    have here : (front ++ '<' :: back)[front.length]? = some '<' := by
      rw [getElem?_append_right (Nat.le_refl _), Nat.sub_self, getElem?_cons_zero]
    rw [← same, getElem?_append_left (by omega)] at here
    have positive := length_pos_iff.mpr some_front
    have later : tail[front.length - 1]? = some '<' := by
      rwa [getElem?_cons, if_neg (by omega)] at here
    exact one_open (mem_of_getElem? later)

theorem closing_tail (valid : validTagName name = true) : '<' ∉ '/' :: (name ++ ['>']) := by
  intro listed
  rcases mem_cons.mp listed with slash | listed
  · revert slash
    decide
  · rcases mem_append.mp listed with inside | bracket
    · exact validTagName_open valid inside
    · revert bracket
      decide

theorem matchingClose_skip (front back : Text) (depth index : Nat) :
    matchingClose name front.length depth index (front ++ back) =
      matchingClose name 0 depth (index + front.length) back := by
  induction front generalizing index with
  | nil => rfl
  | cons char front ih =>
    show matchingClose name front.length depth (index + 1) (front ++ back) = _
    rw [ih, length_cons]
    congr 1
    omega

theorem matchingClose_closing (back : Text) (nested : depth ≠ 1) (index : Nat) :
    matchingClose name 0 depth index (closingTag name ++ back) =
      matchingClose name 0 (depth - 1) (index + (closingTag name).length) back := by
  obtain ⟨char, rest, same⟩ : ∃ char rest, closingTag name = char :: rest := ⟨'<', _, rfl⟩
  have begins : (closingTag name).isPrefixOf (char :: (rest ++ back)) = true := by
    rw [List.isPrefixOf_iff_prefix, same]
    exact ⟨back, rfl⟩
  rw [same, cons_append]
  conv => lhs; unfold matchingClose
  dsimp only
  rw [if_pos begins, if_neg nested, same, length_cons, Nat.add_sub_cancel, matchingClose_skip, Nat.add_assoc,
    Nat.add_comm 1]

theorem matchingClose_enclosed (valid : validTagName name = true) (inside : Enclosed name inner) (back : Text)
    (open_blocks : 0 < depth) (index : Nat) :
    matchingClose name 0 depth index (inner ++ '<' :: back) =
      matchingClose name 0 depth (index + inner.length) ('<' :: back) := by
  induction inside generalizing back depth index with
  | nil => rfl
  | @letter char rest closed unclosed more ih =>
    have not_closing : ¬ (closingTag name).isPrefixOf (char :: (rest ++ '<' :: back)) = true := by
      rw [List.isPrefixOf_iff_prefix]
      exact fun begins => unclosed (begins_within (closing_tail valid) (cons_ne_nil _ _) begins)
    have not_open : ∀ length, openTagAt (char :: (rest ++ '<' :: back)) ≠ some (name, length) := fun length opened =>
      closed (begins_within (validTagName_open valid) (cons_ne_nil _ _) (openTagAt_begins opened))
    have next : matchingClose name 0 depth index (char :: (rest ++ '<' :: back)) =
        matchingClose name 0 depth (index + 1) (rest ++ '<' :: back) := by
      conv => lhs; unfold matchingClose
      dsimp only
      rw [if_neg not_closing]
      split
      · next opened length found =>
        have other : opened ≠ name := by
          rintro rfl
          exact not_open length found
        rw [if_neg other]
      · rfl
    rw [cons_append, next, ih back open_blocks, length_cons]
    congr 1
    omega
  | @block attributes nested rest tag inside more ih_inside ih_more =>
    have behind : block name attributes nested ++ rest ++ '<' :: back =
        '<' :: (name ++ (attributes ++ '>' :: (nested ++ closingTag name ++ (rest ++ '<' :: back)))) := by
      simp [block]
    have opened := openTagAt_block valid tag (nested ++ closingTag name ++ (rest ++ '<' :: back))
    have not_closing : ¬ (closingTag name).isPrefixOf
        ('<' :: (name ++ (attributes ++ '>' :: (nested ++ closingTag name ++ (rest ++ '<' :: back))))) = true := by
      rw [List.isPrefixOf_iff_prefix]
      rintro ⟨left, same⟩
      cases name with
      | nil => cases valid
      | cons first others =>
        have slash : '/' = first := by
          injection same with _ same
          injection same
        have letter := validTagName_all valid first (mem_cons_self ..)
        rw [← slash] at letter
        revert letter
        decide
    have enter : matchingClose name 0 depth index (block name attributes nested ++ rest ++ '<' :: back) =
        matchingClose name 0 (depth + 1) (index + (1 + name.length + attributes.length + 1))
          (nested ++ closingTag name ++ (rest ++ '<' :: back)) := by
      rw [behind]
      conv => lhs; unfold matchingClose
      dsimp only
      rw [if_neg not_closing, opened]
      dsimp only
      rw [if_pos rfl]
      have front : name ++ (attributes ++ '>' :: (nested ++ closingTag name ++ (rest ++ '<' :: back))) =
          (name ++ attributes ++ ['>']) ++ (nested ++ closingTag name ++ (rest ++ '<' :: back)) := by simp
      have length : 1 + name.length + attributes.length + 1 - 1 = (name ++ attributes ++ ['>']).length := by
        simp
        omega
      rw [front, length, matchingClose_skip]
      congr 1
      simp
      omega
    rw [enter, List.append_assoc]
    have tag_starts : closingTag name ++ (rest ++ '<' :: back) = '<' :: ('/' :: (name ++ ['>']) ++ (rest ++ '<' :: back)) := rfl
    have nested_blocks : 0 < depth + 1 := Nat.succ_pos depth
    rw [tag_starts, ih_inside _ nested_blocks, ← tag_starts, matchingClose_closing _ (by omega), Nat.add_sub_cancel,
      ih_more _ open_blocks]
    congr 1
    simp [block]
    omega

theorem leadingBlock_block (valid : validTagName name = true) {attributes : Text} (tag : Attributes attributes)
    (inside : Enclosed name inner) (rest : Text) (accepted : accept name = true) :
    leadingBlock (block name attributes inner ++ rest) accept = some (inner, rest) := by
  have whole : block name attributes inner ++ rest =
      '<' :: (name ++ (attributes ++ '>' :: (inner ++ closingTag name ++ rest))) := by
    simp [block]
  have opened := openTagAt_block valid tag (inner ++ closingTag name ++ rest)
  obtain ⟨front, split, length⟩ : ∃ front, block name attributes inner ++ rest =
      front ++ (inner ++ (closingTag name ++ rest)) ∧ front.length = 1 + name.length + attributes.length + 1 := by
    refine ⟨'<' :: (name ++ attributes ++ ['>']), ?_, ?_⟩
    · simp [block]
    · simp
      omega
  rw [← whole] at opened
  have close : matchingClose name 0 1 front.length (inner ++ (closingTag name ++ rest)) =
      some (front.length + inner.length, front.length + inner.length + (closingTag name).length) := by
    have tag_starts : closingTag name ++ rest = '<' :: ('/' :: (name ++ ['>']) ++ rest) := rfl
    have begins : (closingTag name).isPrefixOf ('<' :: ('/' :: (name ++ ['>']) ++ rest)) = true := by
      rw [List.isPrefixOf_iff_prefix]
      exact ⟨rest, rfl⟩
    rw [tag_starts, matchingClose_enclosed valid inside _ Nat.one_pos]
    unfold matchingClose
    dsimp only
    rw [if_pos begins, if_pos rfl]
  have content : (block name attributes inner ++ rest).drop front.length = inner ++ (closingTag name ++ rest) := by
    rw [split, drop_left]
  have before : (block name attributes inner ++ rest).take (front.length + inner.length) = front ++ inner := by
    rw [split, ← List.append_assoc, ← length_append, take_left]
  have after : (block name attributes inner ++ rest).drop (front.length + inner.length + (closingTag name).length) = rest := by
    rw [split, ← List.append_assoc, ← List.append_assoc, ← length_append, ← length_append, drop_left]
  rw [← length] at opened
  unfold leadingBlock
  rw [opened]
  dsimp only
  rw [accepted, content, close]
  show some (((block name attributes inner ++ rest).take _).drop _, (block name attributes inner ++ rest).drop _) = _
  rw [before, after, drop_left]

theorem dropWhile_all {blank : Char → Bool} (all : ∀ char ∈ text, blank char = true) :
    text.dropWhile blank = [] := by
  induction text with
  | nil => rfl
  | cons char rest ih =>
    rw [dropWhile_cons, if_pos (all char (mem_cons_self ..))]
    exact ih fun other listed => all other (mem_cons_of_mem _ listed)

def trimEnd (text : Text) : Text := (text.reverse.dropWhile fun letter => isSpace letter.toNat).reverse

theorem trimSpace_eq (text : Text) : trimSpace text = trimEnd (text.dropWhile fun letter => isSpace letter.toNat) := rfl

theorem trimEnd_blank {space : Text} (blank : ∀ char ∈ space, isSpace char.toNat = true) : trimEnd space = [] := by
  rw [trimEnd, dropWhile_all fun char listed => blank char (mem_reverse.mp listed)]
  rfl

theorem trimEnd_block (front attributes inner rest : Text) :
    trimEnd (front ++ block name attributes inner ++ rest) = front ++ block name attributes inner ++ trimEnd rest := by
  have ends : (front ++ block name attributes inner).reverse.dropWhile (fun letter => isSpace letter.toNat) =
      (front ++ block name attributes inner).reverse := by
    have last : (front ++ block name attributes inner).reverse =
        '>' :: (front ++ '<' :: (name ++ (attributes ++ '>' :: (inner ++ ("</".toList ++ name))))).reverse := by
      simp [block, closingTag]
    rw [last]
    rfl
  rw [trimEnd, reverse_append, dropWhile_append]
  split
  · next empty =>
    rw [ends, reverse_reverse, trimEnd, List.isEmpty_iff.mp empty]
    simp
  · rw [reverse_append, reverse_reverse, trimEnd]

theorem trimEnd_helpers (helpers : Helpers text) : Helpers (trimEnd text) := by
  induction helpers with
  | blank blank =>
    rw [trimEnd_blank blank]
    exact .blank fun char listed => by cases listed
  | @block space name attributes inner rest blank dropped tag inside more ih =>
    rw [trimEnd_block]
    exact .block blank dropped tag inside ih

theorem trimSpace_helpers (helpers : Helpers text) :
    trimSpace text = [] ∨ ∃ name attributes inner rest, name ∈ droppedTags ∧ Attributes attributes ∧
      Enclosed name inner ∧ Helpers rest ∧ trimSpace text = block name attributes inner ++ rest := by
  rw [trimSpace_eq]
  cases helpers with
  | blank blank =>
    left
    rw [dropWhile_all blank]
    rfl
  | @block space name attributes inner rest blank dropped tag inside more =>
    right
    refine ⟨name, attributes, inner, trimEnd rest, dropped, tag, inside, trimEnd_helpers more, ?_⟩
    rw [List.append_assoc, dropWhile_append_of_pos blank]
    exact trimEnd_block [] attributes inner rest

theorem droppedTags_valid : ∀ tag ∈ droppedTags, validTagName tag = true := by
  have all : droppedTags.all validTagName = true := by decide
  exact all_eq_true.mp all

theorem peelLeading_helpers {trimmed : Text} (helpers : Helpers text) (same : trimmed = trimSpace text) :
    (peelLeading (droppedTags.contains ·) trimmed).2 = [] := by
  induction trimmed using peelLeading.induct (droppedTags.contains ·) generalizing text with
  | case1 trimmed stays =>
    rcases trimSpace_helpers helpers with empty | ⟨name, attributes, inner, rest, dropped, tag, inside, -, begins⟩
    · rw [peelLeading]
      split
      · exact same.trans empty
      · next found => cases stays.symm.trans found
    · have found : leadingBlock (block name attributes inner ++ rest) (droppedTags.contains ·) = some (inner, rest) :=
        leadingBlock_block (droppedTags_valid name dropped) tag inside rest (contains_iff_mem.mpr dropped)
      rw [← begins, ← same, stays] at found
      cases found
  | case2 trimmed inner rest found blocks left peeled ih =>
    rcases trimSpace_helpers helpers with empty | ⟨name, attributes, content, behind, dropped, tag, inside, more, begins⟩
    · rw [same, empty] at found
      cases found
    · have block : leadingBlock (block name attributes content ++ behind) (droppedTags.contains ·) =
          some (content, behind) :=
        leadingBlock_block (droppedTags_valid name dropped) tag inside behind (contains_iff_mem.mpr dropped)
      rw [← begins, ← same, found] at block
      obtain ⟨rfl, rfl⟩ := Prod.mk.inj (Option.some.inj block)
      rw [peelLeading]
      split
      · next stays => cases found.symm.trans stays
      · next inner rest again =>
        obtain ⟨rfl, rfl⟩ := Prod.mk.inj (Option.some.inj (found.symm.trans again))
        exact ih more rfl

end

theorem visibleText_helpers (helpers : Helpers text) : visibleText text = [] := by
  have peeled : (peelBlocks text (droppedTags.contains ·)).2 = [] := by
    show (peelTrailing _ (peelLeading (droppedTags.contains ·) (trimSpace text)).2).2 = []
    rw [peelLeading_helpers helpers rfl]
    rw [peelTrailing]
    rfl
  show visibleTextDepth (3 + 1) text = []
  rw [visibleTextDepth, peeled]
  rfl

end AstrLink.VisibleWords
