import Mathlib.Data.List.Infix

/-!
Content-defined chunking. A cut before the end of the data stays where it is when more is appended, so every
chunk but the last is a chunk of whatever continues the data (`chunks_stable`).
-/
namespace AstrLink.Chunking
open List

structure Cutter (α : Type) where
  cut : List α → Nat
  pos : ∀ {data : List α}, data ≠ [] → 0 < cut data
  within : ∀ data : List α, cut data ≤ data.length
  stable : ∀ {data : List α}, cut data < data.length → ∀ more, cut (data ++ more) = cut data

variable {α : Type} (cutter : Cutter α)

def chunks (data : List α) : List (List α) :=
  match _ : data with
  | [] => []
  | first :: rest => (first :: rest).take (cutter.cut (first :: rest)) :: chunks ((first :: rest).drop (cutter.cut (first :: rest)))
termination_by data.length
decreasing_by
  rw [length_drop]
  have pos := cutter.pos (cons_ne_nil first rest)
  have some_left : 0 < (first :: rest).length := Nat.succ_pos _
  omega

theorem chunks_nil : chunks cutter [] = [] := by rw [chunks]

theorem chunks_cons {data : List α} (some_data : data ≠ []) :
    chunks cutter data = data.take (cutter.cut data) :: chunks cutter (data.drop (cutter.cut data)) := by
  cases data with
  | nil => exact absurd rfl some_data
  | cons first rest => rw [chunks]

theorem chunks_induction {motive : List α → Prop} (empty : motive [])
    (chunk : ∀ data, data ≠ [] → motive (data.drop (cutter.cut data)) → motive data) (data : List α) : motive data := by
  induction data using chunks.induct cutter with
  | case1 => exact empty
  | case2 first rest ih => exact chunk (first :: rest) (cons_ne_nil first rest) ih

theorem chunks_flatten (data : List α) : (chunks cutter data).flatten = data := by
  induction data using chunks_induction cutter with
  | empty => rw [chunks_nil]; rfl
  | chunk data some_data ih => rw [chunks_cons cutter some_data, flatten_cons, ih, take_append_drop]

theorem chunks_forall {holds : List α → Prop} (each : ∀ data : List α, data ≠ [] → holds (data.take (cutter.cut data)))
    (data : List α) : ∀ chunk ∈ chunks cutter data, holds chunk := by
  induction data using chunks_induction cutter with
  | empty =>
    rw [chunks_nil]
    exact fun chunk contra => absurd contra not_mem_nil
  | chunk data some_data ih =>
    rw [chunks_cons cutter some_data, forall_mem_cons]
    exact ⟨each data some_data, ih⟩

theorem chunks_some (data : List α) : ∀ chunk ∈ chunks cutter data, chunk ≠ [] := by
  refine chunks_forall cutter (fun data some_data contra => ?_) data
  have pos := cutter.pos some_data
  rcases take_eq_nil_iff.mp contra with none_taken | empty
  · omega
  · exact some_data empty

theorem chunks_stable (data more : List α) : (chunks cutter data).dropLast <+: chunks cutter (data ++ more) := by
  induction data using chunks_induction cutter with
  | empty =>
    rw [chunks_nil]
    exact nil_prefix
  | chunk data some_data ih =>
    rw [chunks_cons cutter some_data]
    by_cases last : cutter.cut data < data.length
    · have here := cutter.stable last more
      have left : data.drop (cutter.cut data) ≠ [] := by
        rw [ne_eq, drop_eq_nil_iff]
        omega
      have later := chunks_cons cutter left
      rw [chunks_cons cutter (append_ne_nil_of_left_ne_nil some_data more), here,
        take_append_of_le_length (Nat.le_of_lt last), drop_append_of_le_length (Nat.le_of_lt last),
        dropLast_cons_of_ne_nil (by rw [later]; exact cons_ne_nil _ _)]
      exact prefix_cons_iff.mpr (.inr ⟨_, rfl, ih⟩)
    · rw [drop_eq_nil_of_le (Nat.le_of_not_lt last), chunks_nil]
      exact nil_prefix

theorem chunks_getElem {data : List α} (more : List α) {index : Nat} {chunk : List α}
    (early : index + 1 < (chunks cutter data).length) (found : (chunks cutter data)[index]? = some chunk) :
    (chunks cutter (data ++ more))[index]? = some chunk := by
  obtain ⟨rest, same⟩ := chunks_stable cutter data more
  have short : index < (chunks cutter data).dropLast.length := by
    rw [length_dropLast]
    omega
  rw [← same, getElem?_append_left short, getElem?_dropLast, if_pos (by omega), found]

end AstrLink.Chunking
