import AstrLink.JsonPointers
import AstrLink.JsonSyntax

/-!
Strings of a JSON body replaced at their pointers. `replaceStrings` walks to the strings it was given;
`rewritten` is the tree that this should make, with all other values and all bytes outside of literals as
before.
-/
namespace AstrLink.StringReplacing
open JsonSyntax JsonPointers List

inductive Kind where
  | null
  | isFalse
  | number
  | string
  | isTrue
  | json
deriving DecidableEq

/-- What the scanner says of a value. -/
structure Result where
  type : Kind
  str : Text
  index : Nat
  raw : Bytes

def Result.isObject (result : Result) : Bool := result.type = .json && result.raw.head? = some openObject

def Result.isArray (result : Result) : Bool := result.type = .json && result.raw.head? = some openArray

structure Key where
  type : Kind
  str : Text
  num : Nat

/-- The children of a container, each with what the scanner passes on for it in turn. -/
inductive Listing where
  | nil
  | cons (key : Key) (child : Result) (inside rest : Listing)

/-- The scanner, which lists what is below the value of a text. -/
abbrev Scanner := Bytes → Listing

/-- The new literal of a string that the body still holds as the original. -/
structure StringReplacement where
  original : Text
  raw : List Piece

structure Replacements where
  entries : List (Text × StringReplacement)
  distinct : (entries.map (·.1)).Nodup

structure Edit where
  start : Nat
  finish : Nat
  raw : Bytes
deriving DecidableEq

namespace Replacements
variable (replacements : Replacements)

def find (pointer : Text) : Option StringReplacement :=
  (replacements.entries.find? fun entry => entry.1 = pointer).map (·.2)

/-- The pointers on the way to a replaced string, and its own. -/
def wanted : List Text :=
  replacements.entries.flatMap fun entry =>
    (((List.range entry.1.length).filter fun index => decide (1 ≤ index) && entry.1[index]? = some '/').map entry.1.take) ++
      [entry.1]

def walk (offset : Nat) (pointer : Text) : Listing → Option (List Edit)
  | .nil => some []
  | .cons key child inside rest =>
    let place := childPointer pointer (if key.type = .string then escapeJSONPointer key.str else jsonIndex key.num)
    if !replacements.wanted.contains place then walk offset pointer rest
    else
      match replacements.find place with
      | some replacement =>
        if child.type ≠ .string || child.str ≠ replacement.original then none
        else
          let start := offset + child.index
          (walk offset pointer rest).map (⟨start, start + child.raw.length, stringText replacement.raw⟩ :: ·)
      | none =>
        if child.isObject || child.isArray then
          (walk offset place inside).bind fun edits => (walk offset pointer rest).map (edits ++ ·)
        else walk offset pointer rest

end Replacements

def splice (body : Bytes) (written : Nat) : List Edit → Option Bytes
  | [] => some (body.drop written)
  | edit :: edits =>
    if edit.start < written || body.length < edit.finish || body[edit.start]? ≠ some quote then none
    else (splice body edit.finish edits).map ((body.take edit.start).drop written ++ edit.raw ++ ·)

section
variable (scanner : Scanner) (sort : (Edit → Edit → Bool) → List Edit → List Edit)

def replaceStrings (body : Bytes) (replacements : Replacements) : Option Bytes :=
  if replacements.entries = [] then some body
  else
    let trimmed := body.dropWhile isSpace
    let offset := body.length - trimmed.length
    match replacements.walk offset [] (scanner trimmed) with
    | none => none
    | some edits =>
      if edits.length ≠ replacements.entries.length then none
      else splice body 0 (sort (fun left right => left.start < right.start) edits)

end

variable {pointer segment : Text}

section
variable (decode : List Piece → Text)

/-- A value with its place, its bytes and its string reported. -/
def Described (index : Nat) (result : Result) (value : Value) : Prop :=
  result.index = index ∧ result.raw = value.text ∧
    match value with
    | .string content => result.type = .string ∧ result.str = decode content
    | .word _ => result.type ≠ .string ∧ result.type ≠ .json
    | .number _ => result.type ≠ .string ∧ result.type ≠ .json
    | _ => result.type = .json

mutual

/-- A listing of what is below a value whose text begins at a place. -/
def Lists (index : Nat) (listing : Listing) : Value → Prop
  | .emptyArray _ => listing = .nil
  | .emptyObject _ => listing = .nil
  | .array elements => ListsElements (index + 1) 0 listing elements
  | .object members => ListsMembers (index + 1) listing members
  | _ => True

def ListsElements (index place : Nat) : Listing → Elements → Prop
  | .cons key child inside rest, .last before value _ =>
    rest = .nil ∧ key.type = .number ∧ key.num = place ∧
      Described decode (index + before.text.length) child value ∧ Lists (index + before.text.length) inside value
  | .cons key child inside rest, .cons before value after more =>
    ListsElements (index + (before.text ++ value.text ++ after.text).length + 1) (place + 1) rest more ∧
      key.type = .number ∧ key.num = place ∧
      Described decode (index + before.text.length) child value ∧ Lists (index + before.text.length) inside value
  | .nil, _ => False

def ListsMembers (index : Nat) : Listing → Members → Prop
  | .cons key child inside rest, .last before name afterKey beforeValue value _ =>
    rest = .nil ∧ key.type = .string ∧ key.str = decode name ∧
      Described decode (index + (keyText before name afterKey beforeValue).length) child value ∧
      Lists (index + (keyText before name afterKey beforeValue).length) inside value
  | .cons key child inside rest, .cons before name afterKey beforeValue value after more =>
    ListsMembers (index + (keyText before name afterKey beforeValue ++ value.text ++ after.text).length + 1) rest more ∧
      key.type = .string ∧ key.str = decode name ∧
      Described decode (index + (keyText before name afterKey beforeValue).length) child value ∧
      Lists (index + (keyText before name afterKey beforeValue).length) inside value
  | .nil, _ => False

end

/-- What there is at a pointer. -/
inductive Node where
  | word (word : Word)
  | number (literal : Bytes)
  | string (value : Text)
  | array
  | object

def nodeOf : Value → Node
  | .word word => .word word
  | .number number => .number number.text
  | .string content => .string (decode content)
  | .emptyArray _ => .array
  | .array _ => .array
  | .emptyObject _ => .object
  | .object _ => .object

def keyPointer (pointer : Text) (name : List Piece) : Text := childPointer pointer (escapeJSONPointer (decode name))

def indexPointer (pointer : Text) (place : Nat) : Text := childPointer pointer (jsonIndex place)

mutual

def nodesBelow (pointer : Text) : Value → List (Text × Node)
  | .array elements => elementNodes pointer 0 elements
  | .object members => memberNodes pointer members
  | _ => []

def elementNodes (pointer : Text) (place : Nat) : Elements → List (Text × Node)
  | .last _ value _ => (indexPointer pointer place, nodeOf decode value) :: nodesBelow (indexPointer pointer place) value
  | .cons _ value _ rest =>
    (indexPointer pointer place, nodeOf decode value) :: nodesBelow (indexPointer pointer place) value ++
      elementNodes pointer (place + 1) rest

def memberNodes (pointer : Text) : Members → List (Text × Node)
  | .last _ name _ _ value _ =>
    (keyPointer decode pointer name, nodeOf decode value) :: nodesBelow (keyPointer decode pointer name) value
  | .cons _ name _ _ value _ rest =>
    (keyPointer decode pointer name, nodeOf decode value) :: nodesBelow (keyPointer decode pointer name) value ++
      memberNodes pointer rest

end

def nodes (document : Document) : List (Text × Node) := nodesBelow decode [] document.value

section
variable (replacements : Replacements)

/-- A string at its pointer, the new one where there is one. -/
def rewriteChild (pointer : Text) (inside : Value) : Value → Value
  | .string content =>
    match replacements.find pointer with
    | some replacement => .string replacement.raw
    | none => .string content
  | _ => inside

mutual

def rewrite (pointer : Text) : Value → Value
  | .array elements => .array (rewriteElements pointer 0 elements)
  | .object members => .object (rewriteMembers pointer members)
  | value => value

def rewriteElements (pointer : Text) (place : Nat) : Elements → Elements
  | .last before value after =>
    .last before (rewriteChild replacements (indexPointer pointer place) (rewrite (indexPointer pointer place) value) value)
      after
  | .cons before value after rest =>
    .cons before (rewriteChild replacements (indexPointer pointer place) (rewrite (indexPointer pointer place) value) value)
      after (rewriteElements pointer (place + 1) rest)

def rewriteMembers (pointer : Text) : Members → Members
  | .last before name afterKey beforeValue value after =>
    .last before name afterKey beforeValue
      (rewriteChild replacements (keyPointer decode pointer name) (rewrite (keyPointer decode pointer name) value) value)
      after
  | .cons before name afterKey beforeValue value after rest =>
    .cons before name afterKey beforeValue
      (rewriteChild replacements (keyPointer decode pointer name) (rewrite (keyPointer decode pointer name) value) value)
      after (rewriteMembers pointer rest)

end

/-- The document with the strings at the given pointers replaced. -/
def rewritten (document : Document) : Document := { document with value := rewrite decode replacements [] document.value }

/-- A node after the rewrite. -/
def replacedNode (entry : Text × Node) : Text × Node :=
  match entry.2, replacements.find entry.1 with
  | .string _, some replacement => (entry.1, .string (decode replacement.raw))
  | _, _ => entry

theorem nodeOf_rewriteChild (pointer : Text) (value : Value) :
    (pointer, nodeOf decode (rewriteChild replacements pointer (rewrite decode replacements pointer value) value)) =
      replacedNode decode replacements (pointer, nodeOf decode value) := by
  cases value with
  | string content =>
    simp only [rewriteChild, replacedNode, nodeOf]
    cases replacements.find pointer <;> rfl
  | _ => rfl

theorem nodesBelow_rewriteChild (pointer : Text) (value inside : Value)
    (below : nodesBelow decode pointer inside = (nodesBelow decode pointer value).map (replacedNode decode replacements)) :
    nodesBelow decode pointer (rewriteChild replacements pointer inside value) =
      (nodesBelow decode pointer value).map (replacedNode decode replacements) := by
  cases value with
  | string content =>
    simp only [rewriteChild]
    cases replacements.find pointer <;> rfl
  | _ => exact below

mutual

theorem nodes_rewrite (pointer : Text) : (value : Value) → nodesBelow decode pointer (rewrite decode replacements pointer value) =
    (nodesBelow decode pointer value).map (replacedNode decode replacements)
  | .array elements => nodes_rewriteElements pointer 0 elements
  | .object members => nodes_rewriteMembers pointer members
  | .word _ => rfl
  | .number _ => rfl
  | .string _ => rfl
  | .emptyArray _ => rfl
  | .emptyObject _ => rfl

theorem nodes_rewriteElements (pointer : Text) (place : Nat) : (elements : Elements) →
    elementNodes decode pointer place (rewriteElements decode replacements pointer place elements) =
      (elementNodes decode pointer place elements).map (replacedNode decode replacements)
  | .last _ value _ => by
    have below := nodesBelow_rewriteChild decode replacements _ value _
      (nodes_rewrite (indexPointer pointer place) value)
    rw [rewriteElements, elementNodes, elementNodes, nodeOf_rewriteChild, below, map_cons]
  | .cons _ value _ rest => by
    have below := nodesBelow_rewriteChild decode replacements _ value _
      (nodes_rewrite (indexPointer pointer place) value)
    rw [rewriteElements, elementNodes, elementNodes, nodeOf_rewriteChild, below, nodes_rewriteElements pointer (place + 1) rest,
      map_append, map_cons]

theorem nodes_rewriteMembers (pointer : Text) : (members : Members) →
    memberNodes decode pointer (rewriteMembers decode replacements pointer members) =
      (memberNodes decode pointer members).map (replacedNode decode replacements)
  | .last _ name _ _ value _ => by
    have below := nodesBelow_rewriteChild decode replacements _ value _
      (nodes_rewrite (keyPointer decode pointer name) value)
    rw [rewriteMembers, memberNodes, memberNodes, nodeOf_rewriteChild, below, map_cons]
  | .cons _ name _ _ value _ rest => by
    have below := nodesBelow_rewriteChild decode replacements _ value _
      (nodes_rewrite (keyPointer decode pointer name) value)
    rw [rewriteMembers, memberNodes, memberNodes, nodeOf_rewriteChild, below, nodes_rewriteMembers pointer rest,
      map_append, map_cons]

end

/-- Two texts that differ in string literals only. -/
inductive SameOutside : Bytes → Bytes → Prop where
  | same (text : Bytes) : SameOutside text text
  | literal (old new : List Piece) : SameOutside (stringText old) (stringText new)
  | append {first second third fourth : Bytes} (left : SameOutside first second) (right : SameOutside third fourth) :
      SameOutside (first ++ third) (second ++ fourth)

theorem SameOutside.child (pointer : Text) (value : Value) {inside : Value} (below : SameOutside value.text inside.text) :
    SameOutside value.text (rewriteChild replacements pointer inside value).text := by
  cases value with
  | string content =>
    simp only [rewriteChild]
    cases replacements.find pointer with
    | none => exact .same _
    | some replacement => exact .literal content replacement.raw
  | _ => exact below

theorem SameOutside.cons {first second : Bytes} (byte : UInt8) (rest : SameOutside first second) :
    SameOutside (byte :: first) (byte :: second) := .append (.same [byte]) rest

mutual

theorem same_rewrite (pointer : Text) : (value : Value) →
    SameOutside value.text (rewrite decode replacements pointer value).text
  | .array elements => .cons _ (.append (same_rewriteElements pointer 0 elements) (.same _))
  | .object members => .cons _ (.append (same_rewriteMembers pointer members) (.same _))
  | .word _ => .same _
  | .number _ => .same _
  | .string _ => .same _
  | .emptyArray _ => .same _
  | .emptyObject _ => .same _

theorem same_rewriteElements (pointer : Text) (place : Nat) : (elements : Elements) →
    SameOutside elements.text (rewriteElements decode replacements pointer place elements).text
  | .last _ value _ => .append (.append (.same _) (.child replacements _ value (same_rewrite _ value))) (.same _)
  | .cons _ value _ rest =>
    .append (.append (.append (.same _) (.child replacements _ value (same_rewrite _ value))) (.same _))
      (.cons _ (same_rewriteElements pointer (place + 1) rest))

theorem same_rewriteMembers (pointer : Text) : (members : Members) →
    SameOutside members.text (rewriteMembers decode replacements pointer members).text
  | .last _ _ _ _ value _ => .append (.append (.same _) (.child replacements _ value (same_rewrite _ value))) (.same _)
  | .cons _ _ _ _ value _ rest =>
    .append (.append (.append (.same _) (.child replacements _ value (same_rewrite _ value))) (.same _))
      (.cons _ (same_rewriteMembers pointer rest))

end

end

def memberKeys : Members → List Text
  | .last _ name _ _ _ _ => [decode name]
  | .cons _ name _ _ _ _ rest => decode name :: memberKeys rest

mutual

def DistinctKeys : Value → Prop
  | .array elements => DistinctElements elements
  | .object members => (memberKeys decode members).Nodup ∧ DistinctMembers members
  | _ => True

def DistinctElements : Elements → Prop
  | .last _ value _ => DistinctKeys value
  | .cons _ value _ rest => DistinctKeys value ∧ DistinctElements rest

def DistinctMembers : Members → Prop
  | .last _ _ _ _ value _ => DistinctKeys value
  | .cons _ _ _ _ value _ rest => DistinctKeys value ∧ DistinctMembers rest

end

theorem within_below {other : Text} (within : Within pointer segment other) :
    ∃ more, other = childPointer pointer more := by
  rcases within with rfl | ⟨more, rfl⟩
  · exact ⟨segment, rfl⟩
  · exact ⟨segment ++ '/' :: more, by simp [childPointer]⟩

mutual

theorem below_within (pointer : Text) : (value : Value) → ∀ entry ∈ nodesBelow decode pointer value,
    ∃ more, entry.1 = childPointer pointer more
  | .array elements, entry, listed => by
    obtain ⟨place, -, within⟩ := elements_within pointer elements 0 entry listed
    exact within_below within
  | .object members, entry, listed => by
    obtain ⟨key, -, within⟩ := members_within pointer members entry listed
    exact within_below within

theorem elements_within (pointer : Text) : (elements : Elements) → (place : Nat) →
    ∀ entry ∈ elementNodes decode pointer place elements, ∃ other, place ≤ other ∧ Within pointer (jsonIndex other) entry.1
  | .last _ value _, place, entry, listed => by
    rcases mem_cons.mp listed with rfl | inside
    · exact ⟨place, Nat.le_refl _, .inl rfl⟩
    · exact ⟨place, Nat.le_refl _, .inr (below_within _ value entry inside)⟩
  | .cons _ value _ rest, place, entry, listed => by
    rcases mem_append.mp listed with here | there
    · rcases mem_cons.mp here with rfl | inside
      · exact ⟨place, Nat.le_refl _, .inl rfl⟩
      · exact ⟨place, Nat.le_refl _, .inr (below_within _ value entry inside)⟩
    · obtain ⟨other, later, within⟩ := elements_within pointer rest (place + 1) entry there
      exact ⟨other, Nat.le_of_succ_le later, within⟩

theorem members_within (pointer : Text) : (members : Members) → ∀ entry ∈ memberNodes decode pointer members,
    ∃ key ∈ memberKeys decode members, Within pointer (escapeJSONPointer key) entry.1
  | .last _ name _ _ value _, entry, listed => by
    refine ⟨decode name, mem_singleton.mpr rfl, ?_⟩
    rcases mem_cons.mp listed with rfl | inside
    · exact .inl rfl
    · exact .inr (below_within _ value entry inside)
  | .cons _ name _ _ value _ rest, entry, listed => by
    rcases mem_append.mp listed with here | there
    · refine ⟨decode name, mem_cons_self .., ?_⟩
      rcases mem_cons.mp here with rfl | inside
      · exact .inl rfl
      · exact .inr (below_within _ value entry inside)
    · obtain ⟨key, later, within⟩ := members_within pointer rest entry there
      exact ⟨key, mem_cons_of_mem _ later, within⟩

end

theorem child_nodup {node : Node} {below : List (Text × Node)}
    (within : ∀ entry ∈ below, ∃ more, entry.1 = childPointer pointer more) (nodup : (below.map (·.1)).Nodup) :
    (((pointer, node) :: below).map (·.1)).Nodup := by
  rw [map_cons, nodup_cons]
  refine ⟨fun listed => ?_, nodup⟩
  obtain ⟨entry, inside, same⟩ := mem_map.mp listed
  obtain ⟨more, longer⟩ := within entry inside
  have lengths := congrArg List.length (same.symm.trans longer)
  simp [childPointer] at lengths

theorem child_within {node : Node} {below : List (Text × Node)}
    (within : ∀ entry ∈ below, ∃ more, entry.1 = childPointer (childPointer pointer segment) more) :
    ∀ entry ∈ (childPointer pointer segment, node) :: below, Within pointer segment entry.1 := by
  intro entry listed
  rcases mem_cons.mp listed with rfl | inside
  · exact .inl rfl
  · exact .inr (within entry inside)

theorem siblings_nodup {first second : List (Text × Node)} (plain : '/' ∉ segment)
    (left : ∀ entry ∈ first, Within pointer segment entry.1)
    (right : ∀ entry ∈ second, ∃ other, '/' ∉ other ∧ segment ≠ other ∧ Within pointer other entry.1)
    (nodup_first : (first.map (·.1)).Nodup) (nodup_second : (second.map (·.1)).Nodup) :
    ((first ++ second).map (·.1)).Nodup := by
  rw [map_append, nodup_append]
  refine ⟨nodup_first, nodup_second, fun one here other there => ?_⟩
  obtain ⟨entry, listed, rfl⟩ := mem_map.mp here
  obtain ⟨sibling, among, rfl⟩ := mem_map.mp there
  obtain ⟨other, plain_other, apart, within⟩ := right sibling among
  exact within_apart plain plain_other apart (left entry listed) within

mutual

theorem below_nodup (pointer : Text) : (value : Value) → DistinctKeys decode value →
    ((nodesBelow decode pointer value).map (·.1)).Nodup
  | .array elements, distinct => elements_nodup pointer elements 0 distinct
  | .object members, distinct => members_nodup pointer members distinct.1 distinct.2
  | .word _, _ => nodup_nil
  | .number _, _ => nodup_nil
  | .string _, _ => nodup_nil
  | .emptyArray _, _ => nodup_nil
  | .emptyObject _, _ => nodup_nil

theorem elements_nodup (pointer : Text) : (elements : Elements) → (place : Nat) → DistinctElements decode elements →
    ((elementNodes decode pointer place elements).map (·.1)).Nodup
  | .last _ value _, place, distinct => child_nodup (below_within decode _ value) (below_nodup _ value distinct)
  | .cons _ value _ rest, place, distinct => by
    refine siblings_nodup (jsonIndex_slash place) (child_within (below_within decode _ value)) ?_
      (child_nodup (below_within decode _ value) (below_nodup _ value distinct.1))
      (elements_nodup pointer rest (place + 1) distinct.2)
    intro entry listed
    obtain ⟨other, later, within⟩ := elements_within decode pointer rest (place + 1) entry listed
    refine ⟨jsonIndex other, jsonIndex_slash other, fun same => ?_, within⟩
    have same := jsonIndex_inj same
    omega

theorem members_nodup (pointer : Text) : (members : Members) → (memberKeys decode members).Nodup →
    DistinctMembers decode members → ((memberNodes decode pointer members).map (·.1)).Nodup
  | .last _ _ _ _ value _, _, distinct => child_nodup (below_within decode _ value) (below_nodup _ value distinct)
  | .cons _ name _ _ value _ rest, keys, distinct => by
    obtain ⟨fresh, others⟩ := nodup_cons.mp keys
    refine siblings_nodup (escapeJSONPointer_slash (decode name)) (child_within (below_within decode _ value)) ?_
      (child_nodup (below_within decode _ value) (below_nodup _ value distinct.1))
      (members_nodup pointer rest others distinct.2)
    intro entry listed
    obtain ⟨key, later, within⟩ := members_within decode pointer rest entry listed
    refine ⟨escapeJSONPointer key, escapeJSONPointer_slash key, fun same => ?_, within⟩
    rw [escapeJSONPointer_inj same] at fresh
    exact fresh later

end

end

end AstrLink.StringReplacing
