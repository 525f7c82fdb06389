import Mathlib.Data.List.AList
import Mathlib.Data.List.Dedup

/-!
Finite tables, on top of Mathlib's `AList`. What a loop over some keys leaves behind (`collect`) is read one
key at a time (`lookup_collect`), so no proof depends on the order of the visits.
-/
namespace AstrLink.Tables
open List

abbrev Table (K V : Type) := AList (fun _ : K => V)

section
variable {K V W : Type} [DecidableEq K]

def store (table : Table K V) (key : K) : Option V → Table K V
  | some value => table.insert key value
  | none => table.erase key

def collect (keys : List K) (value : K → Option V) : Table K V :=
  keys.foldr (fun key table => match value key with
    | some v => table.insert key v
    | none => table) ∅

def keysOf (tables : List (Table K V)) : List K :=
  (tables.flatMap AList.keys).dedup

/-- The entries whose key and value pass the test. -/
def keep (test : K → V → Bool) (table : Table K V) : Table K V :=
  collect table.keys (fun key => (table.lookup key).filter (test key))

def amend (change : K → V → V) (table : Table K V) : Table K V :=
  collect table.keys (fun key => (table.lookup key).map (change key))

theorem lookup_insert_if (table : Table K V) (key other : K) (value : V) :
    (table.insert key value).lookup other = if other = key then some value else table.lookup other := by
  by_cases same : other = key
  · subst same
    simp
  · simp [same, AList.lookup_insert_ne same]

theorem lookup_erase_if (table : Table K V) (key other : K) :
    (table.erase key).lookup other = if other = key then none else table.lookup other := by
  by_cases same : other = key
  · subst same
    simp
  · simp [same, AList.lookup_erase_ne same]

theorem lookup_union (first second : Table K V) (key : K) :
    (first ∪ second).lookup key = (first.lookup key).or (second.lookup key) := by
  cases found : first.lookup key with
  | none => rw [AList.lookup_union_right (AList.lookup_eq_none.mp found), Option.none_or]
  | some value =>
    have listed : key ∈ first := AList.lookup_isSome.mp (by simp [found])
    rw [AList.lookup_union_left listed, found, Option.some_or]

theorem lookup_collect (keys : List K) (value : K → Option V) (key : K) :
    (collect keys value).lookup key = if key ∈ keys then value key else none := by
  induction keys with
  | nil => simp [collect]
  | cons head rest ih =>
    have step : (collect (head :: rest) value).lookup key =
        if key = head then value head else (collect rest value).lookup key := by
      rw [collect, foldr_cons]
      cases found : value head with
      | some v => simp only [lookup_insert_if, collect]
      | none =>
        by_cases same : key = head
        · subst same
          have absent : (collect rest value).lookup key = none := by
            rw [ih, found]
            exact ite_self none
          simpa [collect] using absent
        · simp [same, collect]
    by_cases same : key = head
    · subst same
      simp [step]
    · simp [step, same, ih]

theorem lookup_collect_of_mem {keys : List K} {value : K → Option V} {key : K}
    (complete : value key ≠ none → key ∈ keys) : (collect keys value).lookup key = value key := by
  rw [lookup_collect]
  by_cases visited : key ∈ keys
  · exact if_pos visited
  · have absent : value key = none := by
      by_contra present
      exact visited (complete present)
    rw [if_neg visited, absent]

theorem mem_keys_of_lookup {table : Table K V} {key : K} {value : V} (found : table.lookup key = some value) :
    key ∈ table.keys := by
  have present : (table.lookup key).isSome := by simp [found]
  exact AList.mem_keys.mp (AList.lookup_isSome.mp present)

theorem mem_keys_of_ne_none {table : Table K V} {key : K} (found : table.lookup key ≠ none) : key ∈ table.keys := by
  obtain ⟨value, found⟩ := Option.ne_none_iff_exists'.mp found
  exact mem_keys_of_lookup found

theorem mem_keysOf {tables : List (Table K V)} {table : Table K V} {key : K} (listed : table ∈ tables)
    (found : table.lookup key ≠ none) : key ∈ keysOf tables := by
  simp only [keysOf, mem_dedup, mem_flatMap]
  exact ⟨table, listed, mem_keys_of_ne_none found⟩

theorem collect_length (keys : List K) (value : K → Option V) : (collect keys value).keys.length ≤ keys.length := by
  induction keys with
  | nil => exact Nat.le_refl _
  | cons key rest ih =>
    rw [collect, foldr_cons]
    cases value key with
    | none => exact Nat.le_trans ih (Nat.le_succ _)
    | some found =>
      simp only [AList.keys_insert, length_cons]
      exact Nat.succ_le_succ (Nat.le_trans length_erase_le ih)

theorem keep_length (test : K → V → Bool) (table : Table K V) : (keep test table).keys.length ≤ table.keys.length :=
  collect_length _ _

theorem lookup_keep (test : K → V → Bool) (table : Table K V) (key : K) :
    (keep test table).lookup key = (table.lookup key).filter (test key) := by
  apply lookup_collect_of_mem
  intro kept
  apply mem_keys_of_ne_none
  intro absent
  simp [absent] at kept

theorem lookup_amend (change : K → V → V) (table : Table K V) (key : K) :
    (amend change table).lookup key = (table.lookup key).map (change key) := by
  apply lookup_collect_of_mem
  intro changed
  apply mem_keys_of_ne_none
  intro absent
  simp [absent] at changed

end

section
variable {S K V P : Type}

theorem foldl_view [DecidableEq K] (view : S → K → V) (visit : S → K → S) (effect : K → V → V)
    (own : ∀ state key, view (visit state key) key = effect key (view state key))
    (frame : ∀ state key other, other ≠ key → view (visit state key) other = view state other) {keys : List K}
    (nodup : keys.Nodup) (state : S) (key : K) :
    view (keys.foldl visit state) key = if key ∈ keys then effect key (view state key) else view state key := by
  induction keys generalizing state with
  | nil => simp
  | cons head rest ih =>
    obtain ⟨absent, nodup⟩ := nodup_cons.mp nodup
    rw [foldl_cons, ih nodup]
    by_cases same : key = head
    · subst same
      simp [absent, own]
    · simp [same, frame state head key same]

theorem foldl_mark (view : S → K → V) (visit : S → K → S)
    (frame : ∀ state key other, other ≠ key → view (visit state key) other = view state other) (mark : S → P → Prop)
    (part : K → P) (sets : K → V → Prop)
    (step : ∀ state key place,
      mark (visit state key) place ↔ mark state place ∨ (part key = place ∧ sets key (view state key)))
    {keys : List K} (nodup : keys.Nodup) (state : S) (place : P) :
    mark (keys.foldl visit state) place ↔
      mark state place ∨ ∃ key ∈ keys, part key = place ∧ sets key (view state key) := by
  induction keys generalizing state with
  | nil => simp
  | cons head rest ih =>
    obtain ⟨absent, nodup⟩ := nodup_cons.mp nodup
    have unseen : ∀ key ∈ rest, view (visit state head) key = view state key := by
      intro key listed
      apply frame
      rintro rfl
      exact absent listed
    rw [foldl_cons, ih nodup, step]
    constructor
    · rintro ((before | first) | ⟨key, listed, here, set⟩)
      · exact .inl before
      · exact .inr ⟨head, by simp, first⟩
      · rw [unseen key listed] at set
        exact .inr ⟨key, by simp [listed], here, set⟩
    · rintro (before | ⟨key, listed, here, set⟩)
      · exact .inl (.inl before)
      · rcases mem_cons.mp listed with rfl | listed
        · exact .inl (.inr ⟨here, set⟩)
        · rw [← unseen key listed] at set
          exact .inr ⟨key, listed, here, set⟩

end

end AstrLink.Tables
