import AstrLink.Runs
import Mathlib.Order.Lattice

/-!
A register that keeps one value with the time its writer started. A late write loses against one that started
later, and a fence refuses what started before it. `holds_newest_iff` says when keeping the last fence is as
good as keeping all.
-/
namespace AstrLink.FencedRegister
open Runs List

/-- What reaches the register, in the order of arrival. -/
inductive Call (T V : Type) where
  | arrive (start : T) (value : V)
  | fence (time : T)

structure Register (T V : Type) where
  fence : Option T
  held : Option (T × V)

section
variable {T V : Type}

/-- The writes of a history. -/
def arrivals (calls : List (Call T V)) : List (T × V) :=
  calls.filterMap fun
    | .arrive start value => some (start, value)
    | .fence _ => none

def fences (calls : List (Call T V)) : List T :=
  calls.filterMap fun
    | .arrive _ _ => none
    | .fence time => some time

@[simp] theorem arrivals_arrive (calls : List (Call T V)) (start : T) (value : V) :
    arrivals (calls ++ [.arrive start value]) = arrivals calls ++ [(start, value)] := by
  simp [arrivals]

@[simp] theorem arrivals_fence (calls : List (Call T V)) (time : T) :
    arrivals (calls ++ [.fence time]) = arrivals calls := by
  simp [arrivals]

@[simp] theorem fences_arrive (calls : List (Call T V)) (start : T) (value : V) :
    fences (calls ++ [.arrive start value]) = fences calls := by
  simp [fences]

@[simp] theorem fences_fence (calls : List (Call T V)) (time : T) :
    fences (calls ++ [.fence time]) = fences calls ++ [time] := by
  simp [fences]

end

section
variable {T V : Type} [LinearOrder T]

/-- Whether a write that started then gets past the fence and the value held. -/
def Register.Admits (register : Register T V) (start : T) : Prop :=
  (∀ fence ∈ register.fence, fence < start) ∧ (∀ old ∈ register.held, old.1 < start)

instance (register : Register T V) (start : T) : Decidable (register.Admits start) :=
  inferInstanceAs (Decidable (_ ∧ _))

def Register.apply (register : Register T V) : Call T V → Register T V
  | .arrive start value => if register.Admits start then { register with held := some (start, value) } else register
  | .fence time => { fence := some time, held := none }

def run (calls : List (Call T V)) : Register T V :=
  calls.foldl Register.apply { fence := none, held := none }

theorem run_snoc (calls : List (Call T V)) (call : Call T V) : run (calls ++ [call]) = (run calls).apply call := by
  simp [run]

/-- The write started after every fence. -/
def Fresh (calls : List (Call T V)) (start : T) : Prop :=
  ∀ time ∈ fences calls, time < start

/-- The value is that of the newest write that started after every fence. -/
def Newest (calls : List (Call T V)) : Option (T × V) → Prop
  | some newest => newest ∈ arrivals calls ∧ Fresh calls newest.1 ∧
      ∀ other ∈ arrivals calls, Fresh calls other.1 → other.1 ≤ newest.1
  | none => ∀ other ∈ arrivals calls, ¬ Fresh calls other.1

variable {calls : List (Call T V)}

theorem fresh_fence {time start : T} :
    Fresh (calls ++ [.fence time]) start ↔ Fresh calls start ∧ time < start := by
  simp only [Fresh, fences_fence, mem_append, mem_singleton]
  constructor
  · intro after
    exact ⟨fun other listed => after other (.inl listed), after time (.inr rfl)⟩
  · rintro ⟨after, last⟩ other (listed | rfl)
    · exact after other listed
    · exact last

theorem fresh_arrive {begun start : T} {value : V} :
    Fresh (calls ++ [.arrive begun value]) start ↔ Fresh calls start := by
  simp [Fresh]

theorem Newest.unique {first second : Option (T × V)}
    (distinct : ∀ one ∈ arrivals calls, ∀ two ∈ arrivals calls, one.1 = two.1 → one = two) (one : Newest calls first)
    (two : Newest calls second) : first = second := by
  cases first with
  | none =>
    cases second with
    | none => rfl
    | some newest => exact absurd two.2.1 (one newest two.1)
  | some newest =>
    cases second with
    | none => exact absurd one.2.1 (two newest one.1)
    | some other =>
      have same : newest.1 = other.1 :=
        le_antisymm (two.2.2 newest one.1 one.2.1) (one.2.2 other two.1 two.2.1)
      rw [distinct newest one.1 other two.1 same]

theorem run_fence (calls : List (Call T V)) : (run calls).fence = (fences calls).getLast? := by
  induction calls using List.reverseRecOn with
  | nil => rfl
  | append_singleton calls call ih =>
    rw [run_snoc]
    cases call with
    | arrive start value =>
      rw [fences_arrive, ← ih]
      by_cases admitted : (run calls).Admits start <;> simp [Register.apply, admitted]
    | fence time => simp [Register.apply]

/-- A fence is no earlier than a write that got past, and a write that an earlier fence covers finds the last one or
a newer write. -/
def Orderly (calls : List (Call T V)) : Call T V → Prop
  | .fence time => ∀ write ∈ arrivals calls, Fresh calls write.1 → write.1 ≤ time
  | .arrive start _ => (∃ time ∈ fences calls, start ≤ time) → (∀ write ∈ arrivals calls, ¬ Fresh calls write.1) →
      ∃ last ∈ (fences calls).getLast?, start ≤ last

/-- Every call of a history keeps to the order. -/
def Steady (calls : List (Call T V)) : Prop :=
  Always Orderly calls

instance (calls : List (Call T V)) (start : T) : Decidable (Fresh calls start) :=
  inferInstanceAs (Decidable (∀ time ∈ fences calls, time < start))

instance (calls : List (Call T V)) : (call : Call T V) → Decidable (Orderly calls call)
  | .fence time => inferInstanceAs (Decidable (∀ write ∈ arrivals calls, Fresh calls write.1 → write.1 ≤ time))
  | .arrive start _ => inferInstanceAs (Decidable ((∃ time ∈ fences calls, start ≤ time) →
      (∀ write ∈ arrivals calls, ¬ Fresh calls write.1) → ∃ last ∈ (fences calls).getLast?, start ≤ last))

instance (calls : List (Call T V)) : Decidable (Steady calls) :=
  inferInstanceAs (Decidable (Always Orderly calls))

theorem apply_newest_iff (newest : Newest calls (run calls).held) (call : Call T V) :
    Newest (calls ++ [call]) ((run calls).apply call).held ↔ Orderly calls call := by
  cases call with
  | fence time =>
    simp only [Register.apply, Newest, Orderly, arrivals_fence, fresh_fence, not_and, not_lt]
  | arrive start value =>
    have fence := run_fence calls
    cases held : (run calls).held with
    | some old =>
      rw [held] at newest
      obtain ⟨listed, fresh, isNewest⟩ := newest
      have orderly : Orderly calls (.arrive start value) := fun _ none => absurd fresh (none old listed)
      refine ⟨fun _ => orderly, fun _ => ?_⟩
      by_cases later : old.1 < start
      · have fenced : ∀ time ∈ (run calls).fence, time < start := by
          intro time isLast
          rw [fence] at isLast
          exact (fresh time (mem_of_getLast? isLast)).trans later
        have admitted : (run calls).Admits start := ⟨fenced, fun kept isKept => by
          rw [held] at isKept
          obtain rfl := Option.mem_some_iff.mp isKept
          exact later⟩
        simp only [Register.apply, admitted, if_true, Newest, arrivals_arrive, fresh_arrive]
        refine ⟨by simp, fun time isFence => (fresh time isFence).trans later, ?_⟩
        intro other arrived otherFresh
        rcases mem_append.mp arrived with earlier | last
        · exact (isNewest other earlier otherFresh).trans later.le
        · rw [mem_singleton.mp last]
      · have refused : ¬ (run calls).Admits start := fun admitted => later (admitted.2 old (by simp [held]))
        simp only [Register.apply, refused, if_false, held, Newest, arrivals_arrive, fresh_arrive]
        refine ⟨mem_append_left _ listed, fresh, ?_⟩
        intro other arrived otherFresh
        rcases mem_append.mp arrived with earlier | last
        · exact isNewest other earlier otherFresh
        · rw [mem_singleton.mp last]
          exact not_lt.mp later
    | none =>
      rw [held] at newest
      have admits : (run calls).Admits start ↔ ∀ last ∈ (fences calls).getLast?, last < start := by
        simp [Register.Admits, held, fence]
      by_cases admitted : (run calls).Admits start
      · simp only [Register.apply, admitted, if_true, Newest, arrivals_arrive, fresh_arrive]
        have past := admits.mp admitted
        constructor
        · rintro ⟨-, fresh, -⟩ ⟨time, isFence, covered⟩ -
          exact absurd (fresh time isFence) (not_lt.mpr covered)
        · intro orderly
          refine ⟨by simp, ?_, ?_⟩
          · intro time isFence
            by_contra covered
            obtain ⟨last, isLast, reached⟩ := orderly ⟨time, isFence, not_lt.mp covered⟩ newest
            exact absurd (past last isLast) (not_lt.mpr reached)
          · intro other arrived fresh
            rcases mem_append.mp arrived with earlier | last
            · exact absurd fresh (newest other earlier)
            · rw [mem_singleton.mp last]
      · have covered : ∃ last ∈ (fences calls).getLast?, start ≤ last := by
          simpa using mt admits.mpr admitted
        refine ⟨fun _ _ _ => covered, fun _ => ?_⟩
        simp only [Register.apply, admitted, if_false, held, Newest, arrivals_arrive, fresh_arrive]
        intro other arrived fresh
        rcases mem_append.mp arrived with earlier | last
        · exact newest other earlier fresh
        · obtain ⟨time, isLast, reached⟩ := covered
          rw [mem_singleton.mp last] at fresh
          exact absurd (fresh time (mem_of_getLast? isLast)) (not_lt.mpr reached)

theorem holds_newest_iff (calls : List (Call T V)) :
    (∀ part, part <+: calls → Newest part (run part).held) ↔ Steady calls := by
  induction calls using List.reverseRecOn with
  | nil =>
    have start : Newest ([] : List (Call T V)) (run []).held := fun _ listed => absurd listed (by simp [arrivals])
    have steady : Steady ([] : List (Call T V)) := always_nil _
    exact ⟨fun _ => steady, fun _ part isPart => by rw [prefix_nil.mp isPart]; exact start⟩
  | append_singleton calls call ih =>
    rw [Steady, always_snoc, ← Steady, ← ih]
    constructor
    · intro always
      have before : ∀ part, part <+: calls → Newest part (run part).held :=
        fun part isPart => always part (isPart.trans (prefix_append calls [call]))
      have last := always (calls ++ [call]) (prefix_refl _)
      rw [run_snoc] at last
      exact ⟨before, (apply_newest_iff (before calls (prefix_refl _)) call).mp last⟩
    · rintro ⟨before, orderly⟩ part isPart
      rcases prefix_concat_iff.mp isPart with whole | isPart
      · rw [whole, run_snoc]
        exact (apply_newest_iff (before calls (prefix_refl _)) call).mpr orderly
      · exact before part isPart

end

end AstrLink.FencedRegister
