import Mathlib.Data.List.Dedup

/-!
Totals over groups. Rows are grouped by a key, and a total of a commutative operation
over all rows is the total over the groups of their totals (`total_groups`).
-/
namespace AstrLink.GroupTotals
open List

section
variable {M R K : Type}

def total (op : M → M → M) (unit : M) (values : List M) : M := values.foldr op unit

/-- An operation whose totals do not depend on the order. -/
structure Totals (op : M → M → M) (unit : M) : Prop where
  comm : ∀ left right, op left right = op right left
  assoc : ∀ left middle right, op (op left middle) right = op left (op middle right)
  unit_op : ∀ value, op unit value = value

variable {op : M → M → M} {unit : M}

section
variable (totals : Totals op unit)
include totals

theorem Totals.op_unit (value : M) : op value unit = value :=
  (totals.comm value unit).trans (totals.unit_op value)

theorem Totals.swap (first second third fourth : M) :
    op (op first second) (op third fourth) = op (op first third) (op second fourth) := by
  calc op (op first second) (op third fourth)
      = op first (op (op second third) fourth) := by rw [totals.assoc, totals.assoc]
    _ = op first (op (op third second) fourth) := by rw [totals.comm second third]
    _ = op (op first third) (op second fourth) := by rw [totals.assoc, totals.assoc]

theorem total_append (front back : List M) :
    total op unit (front ++ back) = op (total op unit front) (total op unit back) := by
  induction front with
  | nil => exact (totals.unit_op _).symm
  | cons value front ih =>
    change op value (total op unit (front ++ back)) = op (op value (total op unit front)) (total op unit back)
    rw [ih, totals.assoc]

theorem total_perm {values others : List M} (perm : values.Perm others) :
    total op unit values = total op unit others := by
  induction perm with
  | nil => rfl
  | cons value _ ih => exact congrArg (op value) ih
  | swap first second rest =>
    change op second (op first (total op unit rest)) = op first (op second (total op unit rest))
    rw [← totals.assoc, totals.comm second first, totals.assoc]
  | trans _ _ first second => exact first.trans second

theorem total_op (keys : List K) (first second : K → M) :
    total op unit (keys.map fun key => op (first key) (second key)) =
      op (total op unit (keys.map first)) (total op unit (keys.map second)) := by
  induction keys with
  | nil => exact (totals.unit_op unit).symm
  | cons key keys ih =>
    change op (op (first key) (second key)) (total op unit (keys.map fun key => op (first key) (second key))) = _
    rw [ih]
    exact totals.swap _ _ _ _

theorem total_units (keys : List K) : total op unit (keys.map fun _ => unit) = unit := by
  induction keys with
  | nil => rfl
  | cons key keys ih =>
    change op unit (total op unit (keys.map fun _ => unit)) = unit
    rw [ih, totals.unit_op]

theorem total_parts (value : R → M) {whole first second : R → Bool}
    (shares : ∀ row, whole row = (first row ^^ second row)) (apart : ∀ row, first row = true → second row = false) (rows : List R) :
    total op unit ((rows.filter whole).map value) =
      op (total op unit ((rows.filter first).map value)) (total op unit ((rows.filter second).map value)) := by
  induction rows with
  | nil => exact (totals.unit_op unit).symm
  | cons row rows ih =>
    cases one : first row with
    | true =>
      have none_other := apart row one
      rw [filter_cons_of_pos (by rw [shares, one, none_other]; rfl), filter_cons_of_pos one,
        filter_cons_of_neg (by rw [none_other]; exact Bool.false_ne_true)]
      change op (value row) (total op unit ((rows.filter whole).map value)) =
        op (op (value row) (total op unit ((rows.filter first).map value))) _
      rw [ih, totals.assoc]
    | false =>
      rw [filter_cons_of_neg (a := row) (p := first) (by rw [one]; exact Bool.false_ne_true)]
      cases two : second row with
      | true =>
        rw [filter_cons_of_pos (by rw [shares, one, two]; rfl), filter_cons_of_pos two]
        change op (value row) (total op unit ((rows.filter whole).map value)) =
          op _ (op (value row) (total op unit ((rows.filter second).map value)))
        rw [ih, ← totals.assoc, totals.comm (value row), totals.assoc]
      | false =>
        rw [filter_cons_of_neg (by rw [shares, one, two]; exact Bool.false_ne_true),
          filter_cons_of_neg (by rw [two]; exact Bool.false_ne_true)]
        exact ih

end

variable [DecidableEq K]

theorem total_indicator (totals : Totals op unit) {keys : List K} (nodup : keys.Nodup) {key : K} (listed : key ∈ keys) (value : M) :
    total op unit (keys.map fun other => if key = other then value else unit) = value := by
  induction keys with
  | nil => cases listed
  | cons head keys ih =>
    obtain ⟨fresh, nodup⟩ := nodup_cons.mp nodup
    change op (if key = head then value else unit) (total op unit (keys.map fun other => if key = other then value else unit)) = value
    by_cases same : key = head
    · have others : (keys.map fun other => if key = other then value else unit) = keys.map fun _ => unit :=
        map_congr_left fun other listed => if_neg fun (contra : key = other) => fresh (by rw [← same, contra]; exact listed)
      rw [if_pos same, others, total_units totals, totals.op_unit]
    · rw [if_neg same, totals.unit_op]
      rcases mem_cons.mp listed with contra | listed
      · exact absurd contra same
      · exact ih nodup listed

def group (key : R → K) (rows : List R) (wanted : K) : List R := rows.filter fun row => key row = wanted

theorem total_groups (totals : Totals op unit) {keys : List K} (nodup : keys.Nodup) (key : R → K) (value : R → M)
    {rows : List R} (covers : ∀ row ∈ rows, key row ∈ keys) :
    total op unit (keys.map fun wanted => total op unit ((group key rows wanted).map value)) = total op unit (rows.map value) := by
  induction rows with
  | nil => exact total_units totals keys
  | cons row rows ih =>
    have step : ∀ wanted, total op unit ((group key (row :: rows) wanted).map value) =
        op (if key row = wanted then value row else unit) (total op unit ((group key rows wanted).map value)) := by
      intro wanted
      by_cases here : key row = wanted
      · rw [group, filter_cons_of_pos (by simpa using here), if_pos here]
        rfl
      · rw [group, filter_cons_of_neg (by simpa using here), if_neg here, totals.unit_op]
        rfl
    rw [map_congr_left fun wanted _ => step wanted, total_op totals,
      total_indicator totals nodup (covers row mem_cons_self),
      ih fun other listed => covers other (mem_cons_of_mem _ listed)]
    rfl

end

end AstrLink.GroupTotals
