import Mathlib.Data.List.Induction

/-!
Runs of a system that steps from state to state, and what holds along a
history. A property of every reachable state is proved from one step
(`Reaches.invariant`), and a property of every event of a history from the
events before it (`always_snoc`).
-/
namespace AstrLink.Runs
open List

section
variable {E : Type}

/-- The property holds of every event, given the events before it. -/
def Always (holds : List E → E → Prop) (history : List E) : Prop :=
  ∀ before event, before ++ [event] <+: history → holds before event

theorem always_nil (holds : List E → E → Prop) : Always holds [] :=
  fun before event part => absurd (prefix_nil.mp part) (by simp)

theorem always_snoc {holds : List E → E → Prop} {history : List E} {event : E} :
    Always holds (history ++ [event]) ↔ Always holds history ∧ holds history event := by
  constructor
  · intro always
    exact ⟨fun before next part => always before next (part.trans (prefix_append history [event])),
      always history event (prefix_refl _)⟩
  · rintro ⟨always, last⟩ before next part
    rcases prefix_concat_iff.mp part with whole | part
    · obtain ⟨rfl, same⟩ := append_inj' whole rfl
      rw [singleton_inj.mp same]
      exact last
    · exact always before next part

theorem Always.append {holds : List E → E → Prop} {history : List E} (always : Always holds history) (more : List E)
    (free : ∀ before, ∀ event ∈ more, holds before event) : Always holds (history ++ more) := by
  induction more using List.reverseRecOn with
  | nil => simpa using always
  | append_singleton more event ih =>
    rw [← List.append_assoc]
    exact always_snoc.mpr ⟨ih (fun before other listed => free before other (by simp [listed])),
      free _ event (by simp)⟩

theorem always_iff_get (holds : List E → E → Prop) (history : List E) :
    Always holds history ↔ ∀ i : Fin history.length, holds (history.take i) history[i] := by
  constructor
  · intro always i
    apply always
    rw [Fin.getElem_fin, take_append_getElem]
    exact take_prefix _ _
  · rintro each before event ⟨rest, rfl⟩
    have inside : before.length < (before ++ [event] ++ rest).length := by simp
    simpa using each ⟨before.length, inside⟩

instance (holds : List E → E → Prop) [∀ before event, Decidable (holds before event)] (history : List E) :
    Decidable (Always holds history) :=
  decidable_of_iff _ (always_iff_get holds history).symm

end

section
variable {S A : Type} (step : S → A → Option S)

inductive Reaches (allowed : S → A → Prop) (start : S) : S → Prop where
  | start : Reaches allowed start start
  | step {state next : S} {act : A} (reached : Reaches allowed start state) (permitted : allowed state act)
      (stepped : step state act = some next) : Reaches allowed start next

variable {step} {allowed : S → A → Prop} {start : S}

theorem Reaches.invariant (holds : S → Prop) (initially : holds start)
    (kept : ∀ state act next, holds state → allowed state act → step state act = some next → holds next) {state : S}
    (reached : Reaches step allowed start state) : holds state := by
  induction reached with
  | start => exact initially
  | step _ permitted stepped ih => exact kept _ _ _ ih permitted stepped

theorem Reaches.mono {wider : S → A → Prop} (implied : ∀ state act, allowed state act → wider state act) {state : S}
    (reached : Reaches step allowed start state) : Reaches step wider start state := by
  induction reached with
  | start => exact .start
  | step _ permitted stepped ih => exact .step ih (implied _ _ permitted) stepped

variable (step)

/-- The acts in turn; none when one of them is not possible. -/
def runActs (state : S) : List A → Option S
  | [] => some state
  | act :: rest => (step state act).bind (runActs · rest)

variable {step}

theorem runActs_length (rank : S → Nat)
    (grows : ∀ state act next, step state act = some next → rank state < rank next) {acts : List A} {first last : S}
    (ran : runActs step first acts = some last) : acts.length + rank first ≤ rank last := by
  induction acts generalizing first with
  | nil =>
    cases ran
    simp
  | cons act rest ih =>
    obtain ⟨next, stepped, ran⟩ := Option.bind_eq_some_iff.mp ran
    have later := ih ran
    have one := grows first act next stepped
    rw [length_cons]
    omega

theorem Reaches.runActs {acts : List A} {first last : S} (reached : Reaches step allowed start first)
    (permitted : ∀ state act, allowed state act) (ran : runActs step first acts = some last) :
    Reaches step allowed start last := by
  induction acts generalizing first with
  | nil =>
    cases ran
    exact reached
  | cons act rest ih =>
    obtain ⟨next, stepped, ran⟩ := Option.bind_eq_some_iff.mp ran
    exact ih (.step reached (permitted first act) stepped) ran

theorem reaches_of_runActs {test : S → A → Bool} {acts : List A} {first last : S}
    (reached : Reaches step (fun state act => test state act = true) start first)
    (ran : runActs (fun state act => if test state act then step state act else none) first acts = some last) :
    Reaches step (fun state act => test state act = true) start last := by
  induction acts generalizing first with
  | nil =>
    cases ran
    exact reached
  | cons act rest ih =>
    obtain ⟨next, stepped, ran⟩ := Option.bind_eq_some_iff.mp ran
    by_cases permitted : test first act = true
    · simp only [permitted, if_true] at stepped
      exact ih (.step reached permitted stepped) ran
    · simp [permitted] at stepped

end

end AstrLink.Runs
