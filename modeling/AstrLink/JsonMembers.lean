import AstrLink.JsonTree

/-!
The members of a JSON object as a map. Of members with one name the last counts; their
order and the earlier ones of a name carry nothing. `get_delete` and `get_set` say what
each name has after a change.
-/
namespace AstrLink.JsonMembers
open JsonTree (Json)

abbrev Text := List Char

abbrev Members := List (Text × Json)

def get : Members → Text → Option Json
  | [], _ => none
  | (name, value) :: rest, key =>
    match get rest key with
    | some later => some later
    | none => if name = key then some value else none

def delete (members : Members) (key : Text) : Members := members.filter fun member => decide (member.1 ≠ key)

def set (members : Members) (key : Text) (value : Json) : Members := delete members key ++ [(key, value)]

def member (json : Json) (key : Text) : Option Json :=
  match json with
  | .object members => get members key
  | _ => none

theorem get_append (first second : Members) (key : Text) :
    get (first ++ second) key = (get second key).or (get first key) := by
  induction first with
  | nil =>
    cases found : get second key with
    | none => rw [List.nil_append, found]; rfl
    | some value => rw [List.nil_append, found]; rfl
  | cons head rest ih =>
    obtain ⟨name, value⟩ := head
    rw [List.cons_append, get, get, ih]
    cases get second key with
    | none => rfl
    | some later => rfl

variable (members : Members)

theorem get_delete (key other : Text) :
    get (delete members key) other = if other = key then none else get members other := by
  induction members with
  | nil =>
    rw [delete, List.filter_nil, get]
    split <;> rfl
  | cons head rest ih =>
    obtain ⟨name, value⟩ := head
    unfold delete at ih ⊢
    by_cases here : name = key
    · rw [List.filter_cons_of_neg (by simp [here]), ih, get]
      by_cases same : other = key
      · rw [if_pos same, if_pos same]
      · rw [if_neg same, if_neg same, if_neg fun named => same (named.symm.trans here)]
        cases get rest other with
        | none => rfl
        | some later => rfl
    · rw [List.filter_cons_of_pos (by simp [here]), get, get, ih]
      by_cases same : other = key
      · rw [if_pos same, if_pos same, if_neg fun named => here (named.trans same)]
      · rw [if_neg same, if_neg same]

theorem get_delete_same (key : Text) : get (delete members key) key = none := by
  rw [get_delete, if_pos rfl]

theorem get_delete_other {key other : Text} (apart : other ≠ key) :
    get (delete members key) other = get members other := by
  rw [get_delete, if_neg apart]

theorem get_set_same (key : Text) (value : Json) : get (set members key value) key = some value := by
  rw [set, get_append, get, get, if_pos rfl]
  rfl

theorem get_set_other {key other : Text} (value : Json) (apart : other ≠ key) :
    get (set members key value) other = get members other := by
  rw [set, get_append, get, get, if_neg (Ne.symm apart), get_delete_other members apart]
  rfl

end AstrLink.JsonMembers
