import Mathlib.Data.List.Basic

/-!
Texts that are rewritten from left to right by a rule that sees the text before and the rest. `Trace` is the
relation of `scan`; traces are cut where no replacement crosses (`Trace.cut`) or continued
(`Trace.continued`).
-/
namespace AstrLink.Rewriting
open List

variable {α : Type}

inductive Choice (α : Type) where
  | keep
  | hold
  | replace (length : Nat) (output : List α)

/-- What becomes of the rest of a text, given the text before it, nearest item first. -/
structure Rule (α : Type) where
  choose : List α → List α → Choice α
  fits : ∀ before rest length output, choose before rest = .replace length output → 0 < length ∧ length ≤ rest.length

inductive Piece (α : Type) where
  | copied (item : α)
  | replaced (source output : List α)
deriving DecidableEq

def Piece.source : Piece α → List α
  | .copied item => [item]
  | .replaced source _ => source

def Piece.output : Piece α → List α
  | .copied item => [item]
  | .replaced _ output => output

def sources (pieces : List (Piece α)) : List α := pieces.flatMap Piece.source

def outputs (pieces : List (Piece α)) : List α := pieces.flatMap Piece.output

def replacements (pieces : List (Piece α)) : Nat :=
  pieces.countP fun piece =>
    match piece with
    | .copied _ => false
    | .replaced .. => true

@[simp] theorem sources_nil : sources ([] : List (Piece α)) = [] := rfl

@[simp] theorem sources_cons (piece : Piece α) (pieces : List (Piece α)) :
    sources (piece :: pieces) = piece.source ++ sources pieces := rfl

@[simp] theorem sources_append (front back : List (Piece α)) : sources (front ++ back) = sources front ++ sources back :=
  flatMap_append

@[simp] theorem outputs_append (front back : List (Piece α)) : outputs (front ++ back) = outputs front ++ outputs back :=
  flatMap_append

theorem sources_copied (items : List α) : sources (items.map .copied) = items := by
  induction items with
  | nil => rfl
  | cons item rest ih => exact congrArg (item :: ·) ih

/-- The pieces of a text and what of it is held back. -/
def scan (rule : Rule α) : Nat → List α → List α → List (Piece α) × List α
  | _, _, [] => ([], [])
  | skip + 1, before, item :: rest => scan rule skip (item :: before) rest
  | 0, before, item :: rest =>
    match rule.choose before (item :: rest) with
    | .hold => ([], item :: rest)
    | .keep =>
      let (pieces, held) := scan rule 0 (item :: before) rest
      (.copied item :: pieces, held)
    | .replace length output =>
      let (pieces, held) := scan rule (length - 1) (item :: before) rest
      (.replaced ((item :: rest).take length) output :: pieces, held)

/-- A text after some context has these pieces, and the last part of it is held back. -/
inductive Trace (rule : Rule α) : List α → List α → List (Piece α) → List α → Prop where
  | finished (before : List α) : Trace rule before [] [] []
  | held {before rest : List α} (some : rest ≠ []) (choice : rule.choose before rest = .hold) :
      Trace rule before rest [] rest
  | copied {before rest held : List α} {item : α} {pieces : List (Piece α)}
      (choice : rule.choose before (item :: rest) = .keep) (later : Trace rule (item :: before) rest pieces held) :
      Trace rule before (item :: rest) (.copied item :: pieces) held
  | replaced {before rest source tail output held : List α} {pieces : List (Piece α)} (whole : rest = source ++ tail)
      (choice : rule.choose before rest = .replace source.length output)
      (later : Trace rule (source.reverse ++ before) tail pieces held) :
      Trace rule before rest (.replaced source output :: pieces) held

variable {rule : Rule α}

theorem scan_skip (rule : Rule α) (before skipped rest : List α) :
    scan rule skipped.length before (skipped ++ rest) = scan rule 0 (skipped.reverse ++ before) rest := by
  induction skipped generalizing before with
  | nil => rfl
  | cons item skipped ih =>
    rw [length_cons, cons_append, scan, ih, reverse_cons, List.append_assoc]
    rfl

theorem trace_scan (before rest : List α) :
    Trace rule before rest (scan rule 0 before rest).1 (scan rule 0 before rest).2 := by
  obtain ⟨size, bound⟩ : ∃ size, rest.length ≤ size := ⟨_, Nat.le_refl _⟩
  induction size generalizing before rest with
  | zero =>
    obtain rfl := length_eq_zero_iff.mp (Nat.le_zero.mp bound)
    exact .finished before
  | succ size ih =>
    cases rest with
    | nil => exact .finished before
    | cons item rest =>
      cases choice : rule.choose before (item :: rest) with
      | hold =>
        have whole : scan rule 0 before (item :: rest) = ([], item :: rest) := by rw [scan, choice]
        rw [whole]
        exact .held (cons_ne_nil _ _) choice
      | keep =>
        have whole : scan rule 0 before (item :: rest) =
            (.copied item :: (scan rule 0 (item :: before) rest).1, (scan rule 0 (item :: before) rest).2) := by
          rw [scan, choice]
        rw [whole]
        exact .copied choice (ih _ _ (Nat.le_of_succ_le_succ bound))
      | replace length output =>
        obtain ⟨positive, fits⟩ := rule.fits before (item :: rest) length output choice
        obtain ⟨length, rfl⟩ := Nat.exists_eq_add_of_le' positive
        have inside : length ≤ rest.length := Nat.le_of_succ_le_succ fits
        have taken : (item :: rest).take (length + 1) = item :: rest.take length := rfl
        have skipped : scan rule length (item :: before) rest =
            scan rule 0 ((item :: rest.take length).reverse ++ before) (rest.drop length) := by
          have skip := scan_skip rule (item :: before) (rest.take length) (rest.drop length)
          rw [take_append_drop, length_take, Nat.min_eq_left inside] at skip
          rw [skip, reverse_cons, List.append_assoc]
          rfl
        have whole : scan rule 0 before (item :: rest) =
            (.replaced (item :: rest.take length) output :: (scan rule length (item :: before) rest).1,
              (scan rule length (item :: before) rest).2) := by
          rw [scan, choice]
          rfl
        rw [whole, skipped]
        have same : item :: rest = (item :: rest.take length) ++ rest.drop length := by simp
        have later := ih ((item :: rest.take length).reverse ++ before) (rest.drop length) (by
          rw [length_drop]
          exact Nat.le_trans (Nat.sub_le _ _) (Nat.le_of_succ_le_succ bound))
        have source : (item :: rest.take length).length = length + 1 := by simp [inside]
        exact .replaced same (source ▸ choice) later

variable {before rest held : List α} {pieces : List (Piece α)}

theorem Trace.whole (trace : Trace rule before rest pieces held) :
    sources pieces ++ held = rest := by
  induction trace with
  | finished => rfl
  | held => rfl
  | copied _ _ ih => exact congrArg _ ih
  | @replaced _ _ source tail _ _ _ whole _ _ ih =>
    rw [whole, ← ih]
    exact List.append_assoc source _ _

theorem Trace.unheld (trace : Trace rule before rest pieces held)
    (never : ∀ before rest, rule.choose before rest ≠ .hold) : held = [] := by
  induction trace with
  | finished => rfl
  | held _ choice => exact absurd choice (never _ _)
  | copied _ _ ih => exact ih
  | replaced _ _ _ ih => exact ih

theorem Trace.unique {other : List α} {others : List (Piece α)} (trace : Trace rule before rest pieces held)
    (second : Trace rule before rest others other) :
    pieces = others ∧ held = other := by
  induction trace generalizing others other with
  | finished =>
    cases second with
    | finished => exact ⟨rfl, rfl⟩
    | held some => exact absurd rfl some
    | replaced whole choice =>
      have fits := rule.fits _ _ _ _ choice
      rw [length_nil] at fits
      omega
  | held some choice =>
    cases second with
    | finished => exact absurd rfl some
    | held => exact ⟨rfl, rfl⟩
    | copied kept => simp [choice] at kept
    | replaced _ changed => simp [choice] at changed
  | copied choice _ ih =>
    cases second with
    | held _ stopped => simp [choice] at stopped
    | copied _ later =>
      obtain ⟨rfl, rfl⟩ := ih later
      exact ⟨rfl, rfl⟩
    | replaced _ changed => simp [choice] at changed
  | replaced whole choice _ ih =>
    cases second with
    | finished =>
      have fits := rule.fits _ _ _ _ choice
      rw [length_nil] at fits
      omega
    | held _ stopped => simp [choice] at stopped
    | copied kept => simp [choice] at kept
    | replaced same changed later =>
      obtain ⟨length, rfl⟩ := Choice.replace.inj (choice.symm.trans changed)
      obtain ⟨rfl, rfl⟩ := append_inj (whole.symm.trans same) length
      obtain ⟨rfl, rfl⟩ := ih later
      exact ⟨rfl, rfl⟩

/-- From no place in the first part does the rule hold or replace past its end. -/
def Uncrossed (rule : Rule α) (before first rest : List α) : Prop :=
  ∀ left right, first = left ++ right → right ≠ [] →
    rule.choose (left.reverse ++ before) (right ++ rest) ≠ .hold ∧
      ∀ length output, rule.choose (left.reverse ++ before) (right ++ rest) = .replace length output →
        length ≤ right.length

theorem Uncrossed.drop (first later : List α) (uncrossed : Uncrossed rule before (first ++ later) rest) :
    Uncrossed rule (first.reverse ++ before) later rest := by
  intro left right split some
  have moved := uncrossed (first ++ left) right (by rw [split, List.append_assoc]) some
  rw [reverse_append, List.append_assoc] at moved
  exact moved

theorem Trace.cut {first : List α} (trace : Trace rule before (first ++ rest) pieces held)
    (uncrossed : Uncrossed rule before first rest) :
    ∃ front back, pieces = front ++ back ∧ sources front = first ∧ Trace rule (first.reverse ++ before) rest back held := by
  generalize joined : first ++ rest = text at trace
  induction trace generalizing first with
  | finished before =>
    obtain ⟨rfl, rfl⟩ := append_eq_nil_iff.mp joined
    exact ⟨[], [], rfl, rfl, .finished before⟩
  | held some choice =>
    subst joined
    cases first with
    | nil => exact ⟨[], [], rfl, rfl, .held some choice⟩
    | cons item first => exact absurd choice (uncrossed [] (item :: first) rfl (cons_ne_nil _ _)).1
  | @copied before after _ item _ choice later ih =>
    cases first with
    | nil =>
      obtain rfl := joined
      exact ⟨[], _, rfl, rfl, .copied choice later⟩
    | cons head first =>
      obtain ⟨rfl, rest⟩ := List.cons.inj joined
      obtain ⟨front, back, rfl, own, trace⟩ := ih (Uncrossed.drop [head] first uncrossed) rest
      exact ⟨.copied head :: front, back, rfl, congrArg (head :: ·) own, by simpa using trace⟩
  | @replaced before text source tail output _ _ whole choice later ih =>
    cases first with
    | nil =>
      obtain rfl := joined
      exact ⟨[], _, rfl, rfl, .replaced whole choice later⟩
    | cons head first =>
      subst joined
      have inside := (uncrossed [] (head :: first) rfl (cons_ne_nil _ _)).2 _ _ choice
      obtain ⟨more, split, rest⟩ : ∃ more, head :: first = source ++ more ∧ more ++ rest = tail := by
        rcases append_eq_append_iff.mp whole with ⟨more, longer, later⟩ | ⟨more, shorter, later⟩
        · have none : more = [] := by
            rw [longer, length_append] at inside
            exact length_eq_zero_iff.mp (by omega)
          subst none
          exact ⟨[], by simpa using longer.symm, by simpa using later⟩
        · exact ⟨more, shorter, later.symm⟩
      rw [split] at uncrossed
      obtain ⟨front, back, rfl, own, trace⟩ := ih (uncrossed.drop source more) rest
      refine ⟨.replaced source output :: front, back, rfl, ?_, ?_⟩
      · rw [sources_cons, own, split]
        rfl
      · rw [split]
        simpa using trace

theorem Trace.kept {first : List α} (trace : Trace rule before (first ++ rest) pieces held)
    (keeps : ∀ left right, first = left ++ right → right ≠ [] → rule.choose (left.reverse ++ before) (right ++ rest) = .keep) :
    ∃ back, pieces = first.map .copied ++ back ∧ Trace rule (first.reverse ++ before) rest back held := by
  induction first generalizing before pieces with
  | nil => exact ⟨pieces, rfl, trace⟩
  | cons item first ih =>
    have here := keeps [] (item :: first) rfl (cons_ne_nil _ _)
    have later : ∀ left right, first = left ++ right → right ≠ [] →
        rule.choose (left.reverse ++ item :: before) (right ++ rest) = .keep := by
      intro left right split some
      have moved := keeps (item :: left) right (congrArg _ split) some
      rw [reverse_cons, List.append_assoc] at moved
      exact moved
    cases trace with
    | held _ choice => exact absurd (here.symm.trans choice) (by simp)
    | copied _ rest =>
      obtain ⟨back, rfl, after⟩ := ih rest later
      exact ⟨back, rfl, by simpa using after⟩
    | replaced _ choice => exact absurd (here.symm.trans choice) (by simp)

theorem Trace.head_replaced {length : Nat} {output : List α} (trace : Trace rule before rest pieces held)
    (choice : rule.choose before rest = .replace length output) :
    ∃ back, pieces = .replaced (rest.take length) output :: back ∧
      Trace rule ((rest.take length).reverse ++ before) (rest.drop length) back held := by
  cases trace with
  | finished =>
    have fits := rule.fits _ _ _ _ choice
    rw [length_nil] at fits
    omega
  | held _ stopped => exact absurd (choice.symm.trans stopped) (by simp)
  | copied kept => exact absurd (choice.symm.trans kept) (by simp)
  | @replaced _ _ source tail _ _ pieces whole changed later =>
    obtain ⟨rfl, rfl⟩ := Choice.replace.inj (choice.symm.trans changed)
    subst whole
    rw [take_left, drop_left]
    exact ⟨pieces, rfl, later⟩

theorem cut_before {first second back other : List (Piece α)} (same : first ++ back = second ++ other)
    (fewer : (sources first).length < (sources second).length) :
    ∃ middle, middle ≠ [] ∧ second = first ++ middle ∧ back = middle ++ other := by
  rcases append_eq_append_iff.mp same with ⟨middle, rfl, rfl⟩ | ⟨middle, rfl, rfl⟩
  · refine ⟨middle, ?_, rfl, rfl⟩
    rintro rfl
    simp at fewer
  · rw [sources_append, length_append] at fewer
    omega

theorem piece_before {front back first rest : List (Piece α)} {piece : Piece α}
    (same : front ++ piece :: back = first ++ rest) (starts : (sources front).length < (sources first).length) :
    (sources front).length + piece.source.length ≤ (sources first).length := by
  obtain ⟨middle, some, rfl, split⟩ := cut_before same starts
  obtain ⟨head, middle, rfl⟩ := exists_cons_of_ne_nil some
  obtain ⟨rfl, _⟩ := List.cons.inj split
  simp only [sources_append, sources_cons, length_append]
  omega

theorem piece_within {front back first middle last : List (Piece α)} {piece : Piece α}
    (same : front ++ piece :: back = first ++ (middle ++ last)) (some : piece.source ≠ [])
    (behind : (sources first).length ≤ (sources front).length)
    (starts : (sources front).length < (sources first).length + (sources middle).length) : piece ∈ middle := by
  have positive := length_pos_iff.mpr some
  rcases append_eq_append_iff.mp same with ⟨skipped, rfl, split⟩ | ⟨skipped, rfl, split⟩
  · cases skipped with
    | nil =>
      cases middle with
      | nil => simp at starts
      | cons head middle =>
        obtain ⟨rfl, _⟩ := List.cons.inj split
        exact mem_cons_self
    | cons head skipped =>
      obtain ⟨rfl, _⟩ := List.cons.inj split
      simp only [sources_append, sources_cons, length_append] at behind
      omega
  · rcases append_eq_append_iff.mp split with ⟨more, rfl, _⟩ | ⟨more, rfl, later⟩
    · simp only [sources_append, length_append] at starts
      omega
    · cases more with
      | nil => simp at starts
      | cons head more =>
        obtain ⟨rfl, _⟩ := List.cons.inj later
        simp

theorem Trace.relocated {other : List α} (trace : Trace rule before rest pieces held)
    (alike : ∀ left right, rest = left ++ right → rule.choose (left.reverse ++ before) right = rule.choose (left.reverse ++ other) right) :
    Trace rule other rest pieces held := by
  induction trace generalizing other with
  | finished => exact .finished other
  | held some choice => exact .held some ((alike [] _ rfl).symm.trans choice)
  | @copied before rest _ item _ choice _ ih =>
    refine .copied ((alike [] _ rfl).symm.trans choice) (ih fun left right split => ?_)
    have moved := alike (item :: left) right (congrArg _ split)
    rw [reverse_cons, List.append_assoc, List.append_assoc] at moved
    exact moved
  | @replaced before rest source _ _ _ _ whole choice _ ih =>
    refine .replaced whole ((alike [] _ rfl).symm.trans choice) (ih fun left right split => ?_)
    have moved := alike (source ++ left) right (by rw [whole, split, List.append_assoc])
    rw [reverse_append, List.append_assoc, List.append_assoc] at moved
    exact moved

/-- What a rule decides about a text that may go on, another one decides about the whole. -/
def Anticipates (live last : Rule α) : Prop :=
  ∀ before rest more, live.choose before rest ≠ .hold → last.choose before (rest ++ more) = live.choose before rest

theorem Trace.continued {live last : Rule α} (anticipates : Anticipates live last) {more left : List α}
    {others : List (Piece α)} (trace : Trace live before rest pieces held)
    (later : Trace last ((sources pieces).reverse ++ before) (held ++ more) others left) :
    Trace last before (rest ++ more) (pieces ++ others) left := by
  induction trace with
  | finished => exact later
  | held => exact later
  | @copied before rest _ item _ choice _ ih =>
    have same := anticipates before (item :: rest) more (by simp [choice])
    refine .copied (same.trans choice) (ih ?_)
    simpa [Piece.source] using later
  | @replaced before rest source tail output _ _ whole choice _ ih =>
    have same := anticipates before rest more (by simp [choice])
    refine .replaced (by rw [whole, List.append_assoc]) (same.trans choice) (ih ?_)
    simpa [Piece.source] using later

end AstrLink.Rewriting
