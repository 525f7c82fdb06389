import Mathlib.Data.List.Basic

/-!
YAML data and the paths into it. A value is found through the tags around it (`get`),
and is changed in place at a path (`updateAt`). A change in place leaves every other
path as it was (`Within.get_apart`).
-/
namespace AstrLink.YamlValues
open List

abbrev Text := List Char

mutual

/-- The data of a document. `F` holds the numbers that are no integers. -/
inductive Value (F : Type) where
  | null
  | bool (value : Bool)
  | integer (value : Int)
  | float (value : F)
  | string (value : Text)
  | sequence (items : List (Value F))
  | mapping (entries : List (Entry F))
  | tagged (tag : Text) (value : Value F)

inductive Entry (F : Type) where
  | mk (key value : Value F)

end

variable {F : Type}

namespace Entry

def key : Entry F → Value F
  | mk key _ => key

def value : Entry F → Value F
  | mk _ value => value

end Entry

/-- One step of a path into a document. -/
inductive Step where
  | key (name : Text)
  | index (place : Nat)
deriving DecidableEq

section
variable [DecidableEq F]

mutual

/-- Equality of data, in which the order of a mapping does not matter. -/
def Value.equal : Value F → Value F → Bool
  | .null, .null => true
  | .bool one, .bool other => one == other
  | .integer one, .integer other => one == other
  | .float one, .float other => decide (one = other)
  | .string one, .string other => one == other
  | .sequence items, .sequence others => equalItems items others
  | .mapping entries, .mapping others => entries.length == others.length && includedEntries entries others
  | .tagged tag one, .tagged tag' other => tag == tag' && one.equal other
  | _, _ => false

def Entry.equal : Entry F → Entry F → Bool
  | .mk key value, .mk key' value' => key.equal key' && value.equal value'

def equalItems : List (Value F) → List (Value F) → Bool
  | [], [] => true
  | item :: items, other :: others => item.equal other && equalItems items others
  | _, _ => false

/-- Every entry is among the others. -/
def includedEntries : List (Entry F) → List (Entry F) → Bool
  | [], _ => true
  | entry :: entries, others => others.any entry.equal && includedEntries entries others

end

mutual

theorem Value.equal_refl : ∀ value : Value F, value.equal value = true
  | .null => by rw [Value.equal]
  | .bool value | .integer value | .string value => by rw [Value.equal, beq_self_eq_true]
  | .float value => by rw [Value.equal, decide_eq_true rfl]
  | .sequence items => by rw [Value.equal, equalItems_refl items]
  | .mapping entries => by
    rw [Value.equal, beq_self_eq_true, Bool.true_and]
    exact includedEntries_of entries entries fun entry listed => listed
  | .tagged tag value => by rw [Value.equal, beq_self_eq_true, Value.equal_refl value, Bool.true_and]

theorem Entry.equal_refl : ∀ entry : Entry F, entry.equal entry = true
  | .mk key value => by rw [Entry.equal, Value.equal_refl key, Value.equal_refl value, Bool.true_and]

theorem equalItems_refl : ∀ items : List (Value F), equalItems items items = true
  | [] => by rw [equalItems]
  | item :: items => by rw [equalItems, Value.equal_refl item, equalItems_refl items, Bool.true_and]

theorem includedEntries_of : ∀ entries others : List (Entry F), (∀ entry ∈ entries, entry ∈ others) →
    includedEntries entries others = true
  | [], _, _ => by rw [includedEntries]
  | entry :: entries, others, among => by
    have found : others.any entry.equal = true :=
      any_eq_true.mpr ⟨entry, among entry mem_cons_self, Entry.equal_refl entry⟩
    rw [includedEntries, found, Bool.true_and]
    exact includedEntries_of entries others fun other listed => among other (mem_cons_of_mem entry listed)

end

end

/-- A value without the tags around it. -/
def Value.untag : Value F → Value F
  | .tagged _ value => value.untag
  | value => value

def Value.isNull : Value F → Bool
  | .null => true
  | _ => false

def Entry.named (name : Text) (entry : Entry F) : Bool :=
  match entry.key with
  | .string key => key == name
  | _ => false

def Entry.numbered (place : Nat) (entry : Entry F) : Bool :=
  match entry.key with
  | .integer key => key == place
  | _ => false

def Value.child (value : Value F) (step : Step) : Option (Value F) :=
  match value.untag, step with
  | .mapping entries, .key name => (entries.find? (Entry.named name)).map Entry.value
  | .mapping entries, .index place => (entries.find? (Entry.numbered place)).map Entry.value
  | .sequence items, .index place => items[place]?
  | _, _ => none

def Value.get (value : Value F) : List Step → Option (Value F)
  | [] => some value
  | step :: path => (value.child step).bind fun child => child.get path

def Value.asMapping (value : Value F) : Option (List (Entry F)) :=
  match value.untag with
  | .mapping entries => some entries
  | _ => none

/-- The value inside the tags, replaced. -/
def Value.retag : Value F → Value F → Value F
  | .tagged tag value, inner => .tagged tag (value.retag inner)
  | _, inner => inner

def changeEntry (name : Text) (change : Value F → Except String (Value F)) (missing : String) :
    List (Entry F) → Except String (List (Entry F))
  | [] => .error missing
  | entry :: entries =>
    if entry.named name then
      match change entry.value with
      | .error failure => .error failure
      | .ok value => .ok (.mk entry.key value :: entries)
    else
      match changeEntry name change missing entries with
      | .error failure => .error failure
      | .ok changed => .ok (entry :: changed)

def changeItem (change : Value F → Except String (Value F)) (missing : String) :
    Nat → List (Value F) → Except String (List (Value F))
  | _, [] => .error missing
  | 0, item :: items =>
    match change item with
    | .error failure => .error failure
    | .ok value => .ok (value :: items)
  | place + 1, item :: items =>
    match changeItem change missing place items with
    | .error failure => .error failure
    | .ok changed => .ok (item :: changed)

/-- What becomes of a document when the value at a path is changed. -/
def updateAt (change : Value F → Except String (Value F)) (missing : String) : List Step → Value F → Except String (Value F)
  | [], value => change value
  | .key name :: path, value =>
    match value.untag with
    | .mapping entries =>
      match changeEntry name (updateAt change missing path) missing entries with
      | .error failure => .error failure
      | .ok changed => .ok (value.retag (.mapping changed))
    | _ => .error missing
  | .index place :: path, value =>
    match value.untag with
    | .sequence items =>
      match changeItem (updateAt change missing path) missing place items with
      | .error failure => .error failure
      | .ok changed => .ok (value.retag (.sequence changed))
    | _ => .error missing

theorem Value.untag_retag : ∀ value inner : Value F, (value.retag inner).untag = inner.untag
  | .tagged tag value, inner => by rw [Value.retag, Value.untag, Value.untag_retag value inner]
  | .null, _ | .bool _, _ | .integer _, _ | .float _, _ | .string _, _ | .sequence _, _ | .mapping _, _ => rfl

theorem Value.child_untag {one other : Value F} (same : one.untag = other.untag) (step : Step) :
    one.child step = other.child step := by
  unfold Value.child
  rw [same]

theorem Value.child_retag {entries : Value F} (value : Value F) (step : Step) :
    (value.retag entries).child step = entries.child step := Value.child_untag (Value.untag_retag value entries) step

inductive Within (change : Value F → Value F → Prop) : List Step → Value F → Value F → Prop where
  | here {old new : Value F} (changed : change old new) : Within change [] old new
  | key {path : List Step} {old child child' : Value F} (name : Text) (before after : List (Entry F))
      (mapping : old.untag = .mapping (before ++ .mk (.string name) child :: after))
      (first : ∀ entry ∈ before, entry.named name = false) (within : Within change path child child') :
      Within change (.key name :: path) old (old.retag (.mapping (before ++ .mk (.string name) child' :: after)))
  | index {path : List Step} {old child child' : Value F} (before after : List (Value F))
      (sequence : old.untag = .sequence (before ++ child :: after)) (within : Within change path child child') :
      Within change (.index before.length :: path) old (old.retag (.sequence (before ++ child' :: after)))

variable {name : Text}

theorem Entry.named_eq {entry : Entry F} (named : entry.named name = true) :
    entry = .mk (.string name) entry.value := by
  obtain ⟨key, value⟩ := entry
  cases key with
  | string key =>
    have same : key = name := eq_of_beq named
    rw [same]
    rfl
  | _ => cases named

variable {entries : List (Entry F)} {missing : String}
variable {change : Value F → Except String (Value F)}

theorem changeEntry_ok {changed : List (Entry F)} (ok : changeEntry name change missing entries = .ok changed) :
    ∃ before child child' after, entries = before ++ .mk (.string name) child :: after ∧
      (∀ entry ∈ before, entry.named name = false) ∧ change child = .ok child' ∧
      changed = before ++ .mk (.string name) child' :: after := by
  induction entries generalizing changed with
  | nil => cases ok
  | cons entry entries ih =>
    rw [changeEntry] at ok
    split at ok
    · rename_i named
      split at ok
      · cases ok
      · rename_i value became
        cases ok
        have whole := Entry.named_eq named
        refine ⟨[], entry.value, value, entries, ?_, fun _ contra => (by cases contra), became, ?_⟩
        · rw [nil_append, ← whole]
        · rw [whole]
          rfl
    · rename_i unnamed
      split at ok
      · cases ok
      · rename_i more found
        cases ok
        obtain ⟨before, child, child', after, rfl, first, became, rfl⟩ := ih found
        refine ⟨entry :: before, child, child', after, rfl, ?_, became, rfl⟩
        intro other listed
        rcases mem_cons.mp listed with rfl | later
        · exact Bool.eq_false_iff.mpr unnamed
        · exact first other later

theorem changeItem_ok {place : Nat} {items changed : List (Value F)}
    (ok : changeItem change missing place items = .ok changed) :
    ∃ before child child' after, items = before ++ child :: after ∧ before.length = place ∧
      change child = .ok child' ∧ changed = before ++ child' :: after := by
  induction items generalizing place changed with
  | nil =>
    rw [changeItem.eq_def] at ok
    cases ok
  | cons item items ih =>
    cases place with
    | zero =>
      rw [changeItem] at ok
      split at ok
      · cases ok
      · rename_i value became
        cases ok
        exact ⟨[], item, value, items, rfl, rfl, became, rfl⟩
    | succ place =>
      rw [changeItem] at ok
      split at ok
      · cases ok
      · rename_i more found
        cases ok
        obtain ⟨before, child, child', after, rfl, rfl, became, rfl⟩ := ih found
        exact ⟨item :: before, child, child', after, rfl, rfl, became, rfl⟩

variable {path : List Step}

variable {old new : Value F}

theorem updateAt_within (ok : updateAt change missing path old = .ok new) :
    Within (fun before after => change before = .ok after) path old new := by
  induction path generalizing old new with
  | nil => exact .here ok
  | cons step path ih =>
    cases step with
    | key name =>
      rw [updateAt] at ok
      split at ok
      · rename_i entries mapping
        split at ok
        · cases ok
        · rename_i changed found
          cases ok
          obtain ⟨before, child, child', after, rfl, first, became, rfl⟩ := changeEntry_ok found
          exact .key name before after mapping first (ih became)
      · cases ok
    | index place =>
      rw [updateAt] at ok
      split at ok
      · rename_i items sequence
        split at ok
        · cases ok
        · rename_i changed found
          cases ok
          obtain ⟨before, child, child', after, rfl, rfl, became, rfl⟩ := changeItem_ok found
          exact .index before after sequence (ih became)
      · cases ok

/-- Paths of which neither leads through the other. -/
def Apart (path other : List Step) : Prop := ¬ path <+: other ∧ ¬ other <+: path

theorem Apart.tail {step : Step} {other : List Step} (apart : Apart (step :: path) (step :: other)) :
    Apart path other :=
  ⟨fun part => apart.1 (cons_prefix_cons.mpr ⟨rfl, part⟩), fun part => apart.2 (cons_prefix_cons.mpr ⟨rfl, part⟩)⟩

theorem named_here (name : Text) (child : Value F) : (Entry.mk (.string name) child).named name = true :=
  beq_self_eq_true name

variable {before after : List (Entry F)}

theorem find_here {child : Value F} (whole : entries = before ++ .mk (.string name) child :: after)
    (first : ∀ entry ∈ before, entry.named name = false) :
    entries.find? (Entry.named name) = some (.mk (.string name) child) := by
  rw [whole, find?_append, find?_eq_none.mpr fun entry listed => by rw [first entry listed]; exact Bool.false_ne_true,
    Option.none_or, find?_cons_of_pos (named_here name child)]

theorem find_elsewhere {entry other : Entry F} {sought : Entry F → Bool} (skipped : sought entry = false)
    (skipped' : sought other = false) :
    (before ++ entry :: after).find? sought = (before ++ other :: after).find? sought := by
  rw [find?_append, find?_append, find?_cons_of_neg (by rw [skipped]; exact Bool.false_ne_true),
    find?_cons_of_neg (by rw [skipped']; exact Bool.false_ne_true)]

theorem named_other {other : Text} (differ : name ≠ other) (child : Value F) :
    (Entry.mk (.string name) child).named other = false := beq_false_of_ne differ

theorem child_key (entries : List (Entry F)) (name : Text) :
    (Value.mapping entries).child (.key name) = (entries.find? (Entry.named name)).map Entry.value := rfl

theorem child_number (entries : List (Entry F)) (place : Nat) :
    (Value.mapping entries).child (.index place) = (entries.find? (Entry.numbered place)).map Entry.value := rfl

theorem child_index (items : List (Value F)) (place : Nat) : (Value.sequence items).child (.index place) = items[place]? := rfl

theorem Value.child_mapping {value : Value F} (mapping : value.untag = .mapping entries) (step : Step) :
    value.child step = (Value.mapping entries).child step := Value.child_untag mapping step

theorem Value.child_sequence {value : Value F} {items : List (Value F)} (sequence : value.untag = .sequence items)
    (step : Step) : value.child step = (Value.sequence items).child step := Value.child_untag sequence step

theorem Value.child_null {value : Value F} (null : value.untag.isNull = true) (step : Step) : value.child step = none := by
  unfold Value.child
  split
  · rename_i entries name mapping
    rw [mapping] at null
    cases null
  · rename_i entries place mapping
    rw [mapping] at null
    cases null
  · rename_i items place sequence
    rw [sequence] at null
    cases null
  · rfl

theorem child_elsewhere (child child' : Value F) {step : Step} (differ : step ≠ .key name) :
    (Value.mapping (before ++ .mk (.string name) child' :: after)).child step =
      (Value.mapping (before ++ .mk (.string name) child :: after)).child step := by
  cases step with
  | key other =>
    have names : name ≠ other := fun equal => differ (by rw [equal])
    rw [child_key, child_key, find_elsewhere (named_other names child') (named_other names child)]
  | index place =>
    have skipped : ∀ value : Value F, (Entry.mk (.string name) value).numbered place = false := fun _ => rfl
    rw [child_number, child_number, find_elsewhere (skipped child') (skipped child)]

theorem item_here {A : Type} (before after : List A) (item : A) : (before ++ item :: after)[before.length]? = some item := by
  simp

theorem item_elsewhere {before after : List (Value F)} (child child' : Value F) {place : Nat} (differ : place ≠ before.length) :
    (before ++ child' :: after)[place]? = (before ++ child :: after)[place]? := by
  rcases Nat.lt_or_gt_of_ne differ with below | above
  · rw [getElem?_append_left below, getElem?_append_left below]
  · rw [getElem?_append_right (by omega), getElem?_append_right (by omega)]
    obtain ⟨more, later⟩ : ∃ more, place - before.length = more + 1 := ⟨place - before.length - 1, by omega⟩
    rw [later, getElem?_cons_succ, getElem?_cons_succ]

variable {change : Value F → Value F → Prop}

theorem Within.get_apart (within : Within change path old new) :
    ∀ {other : List Step}, Apart other path → new.get other = old.get other := by
  induction within with
  | here changed =>
    intro other apart
    exact absurd nil_prefix apart.2
  | @key path old child child' name before after mapping first within ih =>
    intro other apart
    match other with
    | [] => exact absurd nil_prefix apart.1
    | step :: other =>
      rw [Value.get, Value.get, Value.child_retag, Value.child_mapping mapping]
      by_cases same : step = .key name
      · subst same
        rw [child_key, child_key, find_here rfl first, find_here rfl first]
        exact ih apart.tail
      · rw [child_elsewhere child child' same]
  | @index path old child child' before after sequence within ih =>
    intro other apart
    match other with
    | [] => exact absurd nil_prefix apart.1
    | .key name :: other =>
      rw [Value.get, Value.get, Value.child_retag, Value.child_sequence sequence]
      rfl
    | .index place :: other =>
      rw [Value.get, Value.get, Value.child_retag, Value.child_sequence sequence, child_index, child_index]
      by_cases same : place = before.length
      · subst same
        rw [item_here, item_here]
        exact ih apart.tail
      · rw [item_elsewhere child child' same]

theorem Within.get_at (within : Within change path old new) :
    ∃ before after, old.get path = some before ∧ new.get path = some after ∧ change before after ∧
      ∀ more, old.get (path ++ more) = before.get more ∧ new.get (path ++ more) = after.get more := by
  induction within with
  | @here old new changed => exact ⟨old, new, rfl, rfl, changed, fun more => ⟨rfl, rfl⟩⟩
  | @key path old child child' name before after mapping first within ih =>
    obtain ⟨was, becomes, oldAt, newAt, changed, further⟩ := ih
    have through : ∀ rest, old.get (.key name :: rest) = child.get rest ∧
        (old.retag (.mapping (before ++ .mk (.string name) child' :: after))).get (.key name :: rest) = child'.get rest := by
      intro rest
      rw [Value.get, Value.get, Value.child_retag, Value.child_mapping mapping, child_key, child_key, find_here rfl first,
        find_here rfl first]
      exact ⟨rfl, rfl⟩
    refine ⟨was, becomes, ?_, ?_, changed, fun more => ?_⟩
    · rw [(through path).1, oldAt]
    · rw [(through path).2, newAt]
    · rw [cons_append, (through _).1, (through _).2]
      exact further more
  | @index path old child child' before after sequence within ih =>
    obtain ⟨was, becomes, oldAt, newAt, changed, further⟩ := ih
    have through : ∀ rest, old.get (.index before.length :: rest) = child.get rest ∧
        (old.retag (.sequence (before ++ child' :: after))).get (.index before.length :: rest) = child'.get rest := by
      intro rest
      rw [Value.get, Value.get, Value.child_retag, Value.child_sequence sequence, child_index, child_index, item_here,
        item_here]
      exact ⟨rfl, rfl⟩
    refine ⟨was, becomes, ?_, ?_, changed, fun more => ?_⟩
    · rw [(through path).1, oldAt]
    · rw [(through path).2, newAt]
    · rw [cons_append, (through _).1, (through _).2]
      exact further more

theorem Within.imp {weaker : Value F → Value F → Prop} (within : Within change path old new)
    (implied : ∀ before after, change before after → weaker before after) :
    Within weaker path old new := by
  induction within with
  | here changed => exact .here (implied _ _ changed)
  | key name before after mapping first _ ih => exact .key name before after mapping first ih
  | index before after sequence _ ih => exact .index before after sequence ih

theorem Within.get_beside {parent : List Step} {last : Step} (within : Within change parent old new)
    (level : ∀ before after, old.get parent = some before → change before after → ∀ step, step ≠ last → after.child step = before.child step)
    (apart : Apart path (parent ++ [last])) : new.get path = old.get path := by
  by_cases inside : parent <+: path
  · obtain ⟨more, rfl⟩ := inside
    obtain ⟨before, after, got, -, changed, further⟩ := within.get_at
    rw [(further more).1, (further more).2]
    match more with
    | [] =>
      rw [append_nil] at apart
      exact absurd (prefix_append parent [last]) apart.1
    | step :: rest =>
      have differ : step ≠ last := by
        rintro rfl
        exact apart.2 ⟨rest, by rw [List.append_assoc]; rfl⟩
      rw [Value.get, Value.get, level before after got changed step differ]
  · refine within.get_apart ⟨fun part => apart.1 (part.trans (prefix_append parent [last])), inside⟩

end AstrLink.YamlValues
