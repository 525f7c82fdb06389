import Mathlib.Algebra.Order.Field.Basic

/-!
Best paths through a trellis, whose steps have worths that add up. When each state has the best path to it,
the best choice of a previous state gives the best path one step longer (`Best.next`).
-/
namespace AstrLink.BestPaths
open List

variable {State α : Type}

/-- What it is worth to begin in a state and to go from one to another; `none` forbids it. -/
structure Trellis (State α : Type) where
  start : State → Option α
  step : Nat → State → State → Option α

/-- The paths that end in a state after some steps, with their worth. -/
inductive Path [Add α] (trellis : Trellis State α) : Nat → State → List State → α → Prop where
  | start {state : State} {value : α} (found : trellis.start state = some value) : Path trellis 0 state [state] value
  | step {count : Nat} {previous next : State} {states : List State} {value gain : α}
      (path : Path trellis count previous states value) (found : trellis.step (count + 1) previous next = some gain) :
      Path trellis (count + 1) next (states ++ [next]) (value + gain)

/-- `cell` is the most that a path to the state is worth, and `states` such a path. -/
structure Best [Add α] [LE α] (trellis : Trellis State α) (count : Nat) (state : State) (cell : WithBot α)
    (states : List State) : Prop where
  unreached : cell = ⊥ → ∀ other value, ¬ Path trellis count state other value
  attained : ∀ value : α, cell = value → Path trellis count state states value
  most : ∀ value : α, cell = value → ∀ other worth, Path trellis count state other worth → worth ≤ value

theorem Best.bound [Add α] [LinearOrder α] {trellis : Trellis State α} {count : Nat} {state : State}
    {cell : WithBot α} {states : List State} (best : Best trellis count state cell states) {other : List State}
    {value : α} (path : Path trellis count state other value) : (value : WithBot α) ≤ cell := by
  cases cell with
  | bot => exact absurd path (best.unreached rfl _ _)
  | coe most => exact WithBot.coe_le_coe.mpr (best.most most rfl _ _ path)

theorem Best.start [Add α] [LinearOrder α] (trellis : Trellis State α) (state : State) :
    Best trellis 0 state ((trellis.start state).elim ⊥ fun value => (value : WithBot α)) [state] := by
  have only : ∀ states value, Path trellis 0 state states value → trellis.start state = some value := by
    intro states value path
    cases path with
    | start found => exact found
  refine ⟨?unreached, ?attained, ?most⟩
  case unreached =>
    intro absent states value path
    rw [only states value path, Option.elim_some] at absent
    exact WithBot.coe_ne_bot absent
  case attained =>
    intro value same
    cases found : trellis.start state with
    | none => rw [found] at same; exact absurd same.symm WithBot.coe_ne_bot
    | some worth =>
      rw [found, Option.elim_some, WithBot.coe_inj] at same
      rw [← same]
      exact .start found
  case most =>
    intro value same states worth path
    rw [only states worth path, Option.elim_some, WithBot.coe_inj] at same
    exact le_of_eq same

theorem Best.next [AddCommGroup α] [LinearOrder α] [IsOrderedAddMonoid α] {trellis : Trellis State α} {count : Nat}
    {cells : State → WithBot α} {routes : State → List State}
    (each : ∀ previous, Best trellis count previous (cells previous) (routes previous)) {next previous : State}
    {cell : WithBot α}
    (bounded : ∀ other gain, trellis.step (count + 1) other next = some gain → cells other + (gain : WithBot α) ≤ cell)
    (reached : cell ≠ ⊥ →
      ∃ gain, trellis.step (count + 1) previous next = some gain ∧ cell = cells previous + (gain : WithBot α)) :
    Best trellis (count + 1) next cell (routes previous ++ [next]) := by
  have below : ∀ states value, Path trellis (count + 1) next states value → (value : WithBot α) ≤ cell := by
    intro states value path
    cases path with
    | step path found =>
      rename_i other _ worth gain
      calc ((worth + gain : α) : WithBot α) = (worth : WithBot α) + (gain : WithBot α) := WithBot.coe_add _ _
        _ ≤ cells other + (gain : WithBot α) := add_le_add_left ((each other).bound path) _
        _ ≤ cell := bounded other gain found
  refine ⟨?unreached, ?attained, ?most⟩
  case unreached =>
    intro absent states value path
    have bound := below states value path
    rw [absent] at bound
    exact WithBot.coe_ne_bot (le_bot_iff.mp bound)
  case attained =>
    intro value same
    obtain ⟨gain, found, sum⟩ := reached (by rw [same]; exact WithBot.coe_ne_bot)
    rw [same] at sum
    cases before : cells previous with
    | bot => rw [before, WithBot.bot_add] at sum; exact absurd sum WithBot.coe_ne_bot
    | coe worth =>
      rw [before, ← WithBot.coe_add, WithBot.coe_inj] at sum
      rw [sum]
      exact .step ((each previous).attained worth before) found
  case most =>
    intro value same states worth path
    have bound := below states worth path
    rwa [same, WithBot.coe_le_coe] at bound

variable {Label : Type}

/-- A candidate that is not above the one kept changes nothing. -/
def better [LT α] [DecidableLT α] (kept candidate : α × Label) : α × Label :=
  if kept.1 < candidate.1 then candidate else kept

theorem better_correct [LinearOrder α] {candidates : List (α × Label)} :
    ∀ kept : α × Label,
      (candidates.foldl better kept = kept ∨ candidates.foldl better kept ∈ candidates) ∧
        kept.1 ≤ (candidates.foldl better kept).1 ∧
        ∀ candidate ∈ candidates, candidate.1 ≤ (candidates.foldl better kept).1 := by
  induction candidates with
  | nil =>
    intro kept
    exact ⟨.inl rfl, le_refl _, fun candidate member => by cases member⟩
  | cons first rest ih =>
    intro kept
    rw [foldl_cons]
    obtain ⟨among, above, most⟩ := ih (better kept first)
    have step : (better kept first = kept ∨ better kept first = first) ∧
        kept.1 ≤ (better kept first).1 ∧ first.1 ≤ (better kept first).1 := by
      unfold better
      by_cases improves : kept.1 < first.1
      · rw [if_pos improves]
        exact ⟨.inr rfl, le_of_lt improves, le_refl _⟩
      · rw [if_neg improves]
        exact ⟨.inl rfl, le_refl _, not_lt.mp improves⟩
    obtain ⟨which, keptBelow, firstBelow⟩ := step
    refine ⟨?_, le_trans keptBelow above, ?_⟩
    · rcases among with same | later
      · rcases which with old | new
        · left
          rw [same, old]
        · right
          rw [same, new]
          exact mem_cons_self
      · exact .inr (mem_cons_of_mem _ later)
    · intro candidate member
      rcases mem_cons.mp member with rfl | later
      · exact le_trans firstBelow above
      · exact most candidate later

/-- The greatest of some items, of equal ones the last. -/
def maxBy (order : α → α → Ordering) : List α → Option α
  | [] => none
  | first :: rest => some (rest.foldl (fun kept item => if order kept item = .gt then kept else item) first)

theorem maxBy_correct {order : α → α → Ordering} {below : α → α → Prop} (refl : ∀ item, below item item)
    (trans : ∀ {first second third}, below first second → below second third → below first third)
    (greater : ∀ kept item, order kept item = .gt → below item kept)
    (other : ∀ kept item, order kept item ≠ .gt → below kept item) {items : List α} (some_item : items ≠ []) :
    ∃ chosen ∈ items, maxBy order items = some chosen ∧ ∀ item ∈ items, below item chosen := by
  cases items with
  | nil => exact absurd rfl some_item
  | cons first rest =>
    clear some_item
    induction rest generalizing first with
    | nil =>
      refine ⟨first, mem_cons_self, rfl, ?_⟩
      intro item member
      rw [mem_singleton.mp member]
      exact refl first
    | cons second rest ih =>
      by_cases keeps : order first second = .gt
      · obtain ⟨chosen, member, found, most⟩ := ih first
        refine ⟨chosen, ?_, ?_, ?_⟩
        · rcases mem_cons.mp member with rfl | later
          · exact mem_cons_self
          · exact mem_cons_of_mem _ (mem_cons_of_mem _ later)
        · rw [← found, maxBy, maxBy, foldl_cons, if_pos keeps]
        · intro item listed
          rcases mem_cons.mp listed with rfl | listed
          · exact most item mem_cons_self
          · rcases mem_cons.mp listed with rfl | later
            · exact trans (greater _ _ keeps) (most first mem_cons_self)
            · exact most item (mem_cons_of_mem _ later)
      · obtain ⟨chosen, member, found, most⟩ := ih second
        refine ⟨chosen, mem_cons_of_mem _ member, ?_, ?_⟩
        · rw [← found, maxBy, maxBy, foldl_cons, if_neg keeps]
        · intro item listed
          rcases mem_cons.mp listed with rfl | listed
          · exact trans (other _ _ keeps) (most second mem_cons_self)
          · exact most item listed

end AstrLink.BestPaths
