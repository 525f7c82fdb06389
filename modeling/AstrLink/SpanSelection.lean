import AstrLink.FenwickTree
import AstrLink.Suppressing

/-!
Which of several overlapping findings are kept, in the order of their priority. A Fenwick tree over the starts
answers whether one overlaps. Positions count bytes, and a sort is a parameter.
-/
namespace AstrLink.SpanSelection
open IPAddress StandIns FenwickTree List
open Suppressing (SuppressionReason)

structure Finding (Score : Type) where
  segment : Int
  start : Int
  finish : Int
  kind : Kind
  confidence : Score
  suppression : Option SuppressionReason
  path : Text
deriving BEq

def kindName : Kind → String
  | .email => "email"
  | .phone => "phone"
  | .account => "account"
  | .paymentCard => "payment_card"
  | .ipAddress => "ip_address"
  | .url => "url"
  | .commonSecret => "common_secret"
  | .address => "private_address"
  | .date => "private_date"
  | .person => "private_person"

def kindPriority : Kind → Nat
  | .commonSecret => 700
  | .paymentCard => 600
  | .email => 500
  | .account => 400
  | .phone => 300
  | .url => 200
  | .ipAddress => 100
  | .address => 90
  | .date => 80
  | .person => 70

section
variable {α β : Type} [LinearOrder β]

/-- The smaller key first, and among equal keys by what follows. -/
def ascending (key : α → β) (otherwise : α → α → Bool) (first second : α) : Bool :=
  if key first ≠ key second then decide (key first < key second) else otherwise first second

def descending (key : α → β) (otherwise : α → α → Bool) (first second : α) : Bool :=
  if key first ≠ key second then decide (key first > key second) else otherwise first second

def undecided (_ _ : α) : Bool := false

/-- What a sort asks of a comparison. -/
structure StrictWeak (less : α → α → Bool) : Prop where
  irreflexive : ∀ item, less item item = false
  transitive : ∀ first second third, less first second = true → less second third = true → less first third = true
  negative : ∀ first second third, less first second = false → less second third = false → less first third = false

theorem StrictWeak.undecided : StrictWeak (@undecided α) :=
  ⟨fun _ => rfl, fun _ _ _ contra _ => contra, fun _ _ _ _ _ => rfl⟩

theorem ascending_iff (key : α → β) (otherwise : α → α → Bool) (first second : α) :
    ascending key otherwise first second = true ↔
      key first < key second ∨ key first = key second ∧ otherwise first second = true := by
  unfold ascending
  split
  · rename_i differ
    simp [differ]
  · rename_i same
    have same : key first = key second := not_not.mp same
    simp [same]

theorem StrictWeak.ascending {otherwise : α → α → Bool} (weak : StrictWeak otherwise) (key : α → β) :
    StrictWeak (ascending key otherwise) := by
  refine ⟨?irreflexive, ?transitive, ?negative⟩
  case irreflexive =>
    intro item
    rw [← Bool.not_eq_true, ascending_iff, weak.irreflexive]
    simp
  case transitive =>
    intro first second third left right
    rw [ascending_iff] at left right ⊢
    rcases left with less | ⟨same, less⟩ <;> rcases right with less' | ⟨same', less'⟩
    · exact .inl (less.trans less')
    · exact .inl (same' ▸ less)
    · exact .inl (same ▸ less')
    · exact .inr ⟨same.trans same', weak.transitive _ _ _ less less'⟩
  case negative =>
    intro first second third left right
    rw [← Bool.not_eq_true, ascending_iff, not_or, not_and, not_lt, Bool.not_eq_true] at left right ⊢
    refine ⟨right.1.trans left.1, fun same => ?_⟩
    have equal : key first = key second := le_antisymm (same ▸ right.1) left.1
    exact weak.negative _ _ _ (left.2 equal) (right.2 (equal ▸ same))

theorem StrictWeak.descending {otherwise : α → α → Bool} (weak : StrictWeak otherwise) (key : α → β) :
    StrictWeak (descending key otherwise) := by
  have dual : SpanSelection.descending key otherwise = SpanSelection.ascending (fun item => OrderDual.toDual (key item)) otherwise := by
    funext first second
    unfold SpanSelection.descending SpanSelection.ascending
    by_cases same : key first = key second
    · rw [if_neg (not_not.mpr same), if_neg (not_not.mpr (congrArg OrderDual.toDual same))]
    · rw [if_pos same, if_pos (fun equal => same (OrderDual.toDual.injective equal))]
      exact decide_eq_decide.mpr OrderDual.toDual_lt_toDual.symm
  rw [dual]
  exact weak.ascending _

end

section
variable {Score : Type}

/-- Whether a candidate is offered before another of its value. -/
def offeredBefore : Finding Score → Finding Score → Bool :=
  descending (fun finding => kindPriority finding.kind) <|
    descending (fun finding => finding.finish - finding.start) <|
      ascending Finding.start <| ascending (fun finding => kindName finding.kind) undecided

def offeredInSegment : Finding Score → Finding Score → Bool := ascending Finding.segment offeredBefore

def placedBefore : Finding Score → Finding Score → Bool :=
  ascending Finding.segment <| ascending Finding.start <|
    descending Finding.finish <| ascending (fun finding => kindName finding.kind) undecided

theorem offeredInSegment_weak : StrictWeak (@offeredInSegment Score) :=
  ((((StrictWeak.undecided.ascending _).ascending _).descending _).descending _).ascending _

/-- What is promised of a sort: the same items, and none after one that it is less than. -/
structure SortSlice (sort : (Finding Score → Finding Score → Bool) → List (Finding Score) → List (Finding Score)) : Prop where
  perm : ∀ less findings, (sort less findings).Perm findings
  sorted : ∀ less findings, StrictWeak less → (sort less findings).Pairwise fun first second => less second first = false

/-- Drops what equals the item before it. -/
def compact : List Int → List Int
  | first :: second :: rest => if first = second then compact (second :: rest) else first :: compact (second :: rest)
  | short => short

/-- The place of a target among sorted items, or the place where it would stand. -/
def binarySearch (sorted : List Int) (target : Int) : Nat := (sorted.takeWhile (· < target)).length

/-- The starts of all candidates, and the largest accepted end for each in a Fenwick tree. -/
structure SpanSelector where
  starts : List Int
  maxEnd : List Int

def newSpanSelector (findings : List (Finding Score)) : SpanSelector :=
  let starts := compact ((findings.map Finding.start).insertionSort (· ≤ ·))
  ⟨starts, List.replicate starts.length 0⟩

def SpanSelector.accept (selector : SpanSelector) (finding : Finding Score) : Option SpanSelector :=
  if exceeds selector.maxEnd finding.start (binarySearch selector.starts finding.finish) then none
  else
    let rank := binarySearch selector.starts finding.start
    some { selector with maxEnd := raise selector.maxEnd finding.finish (rank + 1) }

/-- Offers the candidates one by one. -/
def acceptAll (selector : SpanSelector) : List (Finding Score) → List (Finding Score)
  | [] => []
  | candidate :: rest =>
    match selector.accept candidate with
    | none => acceptAll selector rest
    | some selector => candidate :: acceptAll selector rest

inductive Failure where
  | unsafeRewrite

/-- A span that is no part of its value. -/
def OutOfPlace (value : List UInt8) (finding : Finding Score) : Prop :=
  finding.start < 0 ∨ finding.finish > value.length ∨ finding.finish ≤ finding.start

instance (value : List UInt8) (finding : Finding Score) : Decidable (OutOfPlace value finding) :=
  inferInstanceAs (Decidable (_ ∨ _ ∨ _))

/-- Each candidate is checked when its turn comes. -/
def acceptChecked (value : List UInt8) (selector : SpanSelector) :
    List (Finding Score) → Except Failure (List (Finding Score))
  | [] => .ok []
  | candidate :: rest =>
    if OutOfPlace value candidate then .error .unsafeRewrite
    else
      match selector.accept candidate with
      | none => acceptChecked value selector rest
      | some selector => do
        let selected ← acceptChecked value selector rest
        return candidate :: selected

variable (sort : (Finding Score → Finding Score → Bool) → List (Finding Score) → List (Finding Score))

def selectNonOverlappingFindings (value : List UInt8) (findings : List (Finding Score)) :
    Except Failure (List (Finding Score)) :=
  let candidates := sort offeredBefore findings
  acceptChecked value (newSpanSelector candidates) candidates

/-- The candidates without repetitions, the first of each. -/
def deduplicated [BEq Score] (candidates : List (Finding Score)) : List (Finding Score) :=
  candidates.foldl (fun seen candidate => if seen.any (candidate == ·) then seen else seen ++ [candidate]) []

/-- Cuts the candidates where the segment changes. -/
def segmentRuns : List (Finding Score) → List (List (Finding Score))
  | [] => []
  | first :: rest =>
    (first :: rest.takeWhile fun finding => finding.segment = first.segment) ::
      segmentRuns (rest.dropWhile fun finding => finding.segment = first.segment)
termination_by findings => findings.length
decreasing_by
  have shorter := (dropWhile_sublist (l := rest) (fun finding => finding.segment = first.segment)).length_le
  rw [length_cons]
  omega

def selectDeterministicFindings [BEq Score] (candidates : List (Finding Score)) : List (Finding Score) :=
  let selected := (segmentRuns (sort offeredInSegment (deduplicated candidates))).flatMap fun segmentCandidates =>
    acceptAll (newSpanSelector segmentCandidates) segmentCandidates
  sort placedBefore selected

end

section
variable {α : Type} {conflicts : α → α → Bool}

def choose (conflicts : α → α → Bool) (chosen : List α) (candidate : α) : List α :=
  if chosen.any (conflicts candidate) then chosen else chosen ++ [candidate]

/-- Every candidate is held against all that were chosen before it. -/
def greedy (conflicts : α → α → Bool) (ordered : List α) : List α := ordered.foldl (choose conflicts) []

theorem greedy_snoc (ordered : List α) (candidate : α) :
    greedy conflicts (ordered ++ [candidate]) = choose conflicts (greedy conflicts ordered) candidate := by
  rw [greedy, foldl_append]
  rfl

theorem choose_subset {chosen : List α} {candidate item : α} (member : item ∈ choose conflicts chosen candidate) :
    item ∈ chosen ∨ item = candidate := by
  unfold choose at member
  split at member
  · exact .inl member
  · simpa using member

theorem greedy_subset (ordered : List α) : greedy conflicts ordered ⊆ ordered := by
  induction ordered using List.reverseRecOn with
  | nil => exact List.Subset.refl []
  | append_singleton ordered candidate ih =>
    intro item member
    rw [greedy_snoc] at member
    rcases choose_subset member with before | rfl
    · exact mem_append_left _ (ih before)
    · simp

theorem greedy_apart (ordered : List α) :
    (greedy conflicts ordered).Pairwise fun first second => conflicts second first = false := by
  induction ordered using List.reverseRecOn with
  | nil => exact Pairwise.nil
  | append_singleton ordered candidate ih =>
    rw [greedy_snoc, choose]
    split
    · exact ih
    · rename_i none_conflicts
      refine pairwise_append.mpr ⟨ih, pairwise_singleton _ _, fun first member second last => ?_⟩
      rw [mem_singleton.mp last, ← Bool.not_eq_true]
      exact fun contra => none_conflicts (any_eq_true.mpr ⟨first, member, contra⟩)

theorem choose_keeps (chosen rest : List α) : chosen ⊆ rest.foldl (choose conflicts) chosen := by
  induction rest generalizing chosen with
  | nil => exact List.Subset.refl chosen
  | cons candidate rest ih =>
    refine List.Subset.trans ?_ (ih _)
    unfold choose
    split
    · exact List.Subset.refl chosen
    · exact subset_append_left chosen [candidate]

theorem greedy_rejected {front back : List α} {candidate : α}
    (rejected : candidate ∉ greedy conflicts (front ++ candidate :: back)) :
    ∃ other ∈ front, other ∈ greedy conflicts (front ++ candidate :: back) ∧ conflicts candidate other = true := by
  have split : greedy conflicts (front ++ candidate :: back) =
      back.foldl (choose conflicts) (choose conflicts (greedy conflicts front) candidate) := by
    rw [greedy, foldl_append]
    rfl
  rw [split] at rejected ⊢
  by_cases refused : (greedy conflicts front).any (conflicts candidate) = true
  · obtain ⟨other, member, conflict⟩ := any_eq_true.mp refused
    refine ⟨other, greedy_subset front member, choose_keeps _ _ ?_, conflict⟩
    rwa [choose, if_pos refused]
  · refine absurd (choose_keeps _ _ ?_) rejected
    rw [choose, if_neg refused]
    simp

end

/-! ### The selector chooses greedily -/

section
variable {Score : Type}

/-- Two spans overlap when each starts before the other ends. -/
def overlaps (first second : Finding Score) : Bool := first.start < second.finish && second.start < first.finish

theorem overlaps_symm (first second : Finding Score) : overlaps first second = overlaps second first := Bool.and_comm _ _

theorem compact_mem (items : List Int) (item : Int) : item ∈ compact items ↔ item ∈ items := by
  fun_induction compact items with
  | case1 first rest ih => simp [ih]
  | case2 first second rest differ ih =>
    rw [mem_cons, ih]
    exact mem_cons.symm
  | case3 => rfl

theorem compact_sorted {items : List Int} (sorted : items.Pairwise (· ≤ ·)) : (compact items).Pairwise (· < ·) := by
  fun_induction compact items with
  | case1 first rest ih => exact ih sorted.tail
  | case2 first second rest differ ih =>
    refine pairwise_cons.mpr ⟨fun item member => ?_, ih sorted.tail⟩
    have later := (compact_mem _ _).mp member
    have least := rel_of_pairwise_cons sorted mem_cons_self
    have between : second ≤ item := by
      rcases mem_cons.mp later with rfl | within
      · exact le_refl item
      · exact rel_of_pairwise_cons sorted.tail within
    omega
  | case3 items short =>
    rcases items with _ | ⟨first, _ | ⟨second, rest⟩⟩
    · exact Pairwise.nil
    · exact pairwise_singleton _ _
    · exact absurd rfl (short first second rest)

theorem binarySearch_mono (sorted : List Int) {first second : Int} (atMost : first ≤ second) :
    binarySearch sorted first ≤ binarySearch sorted second := by
  unfold binarySearch
  induction sorted with
  | nil => rfl
  | cons item sorted ih =>
    simp only [takeWhile_cons, decide_eq_true_eq]
    split
    · rw [if_pos (by omega)]
      simpa using ih
    · exact Nat.zero_le _

theorem binarySearch_le (sorted : List Int) (target : Int) : binarySearch sorted target ≤ sorted.length :=
  (takeWhile_sublist _).length_le

theorem binarySearch_lt_iff {sorted : List Int} (distinct : sorted.Pairwise (· < ·)) {item : Int} (member : item ∈ sorted)
    (target : Int) : binarySearch sorted item + 1 ≤ binarySearch sorted target ↔ item < target := by
  constructor
  · intro before
    by_contra beyond
    have most := binarySearch_mono sorted (not_lt.mp beyond)
    omega
  · intro less
    induction sorted with
    | nil => cases member
    | cons first sorted ih =>
      unfold binarySearch at ih ⊢
      simp only [takeWhile_cons, decide_eq_true_eq]
      rcases mem_cons.mp member with rfl | later
      · rw [if_neg (lt_irrefl _), if_pos less]
        simp
      · have lower := rel_of_pairwise_cons distinct later
        rw [if_pos lower, if_pos (by omega)]
        simpa using ih distinct.tail later

/-- The accepted findings as the tree keeps them: the place of the start, and the end. -/
def entryOf (starts : List Int) (finding : Finding Score) : Nat × Int :=
  (binarySearch starts finding.start + 1, finding.finish)

structure Selects (starts : List Int) (selector : SpanSelector) (chosen : List (Finding Score)) : Prop where
  same : selector.starts = starts
  sized : selector.maxEnd.length = starts.length
  known : ∀ finding ∈ chosen, finding.start ∈ starts
  keeps : Keeps selector.maxEnd 0 (chosen.reverse.map (entryOf starts))

theorem newSpanSelector_starts (findings : List (Finding Score)) :
    (newSpanSelector findings).starts.Pairwise (· < ·) ∧
      ∀ finding ∈ findings, finding.start ∈ (newSpanSelector findings).starts := by
  refine ⟨compact_sorted (pairwise_insertionSort (· ≤ ·) _), fun finding member => ?_⟩
  show finding.start ∈ compact _
  rw [compact_mem, mem_insertionSort]
  exact mem_map_of_mem member

theorem Selects.new (findings : List (Finding Score)) :
    Selects (newSpanSelector findings).starts (newSpanSelector findings) ([] : List (Finding Score)) :=
  ⟨rfl, length_replicate, fun _ member => (by cases member), Keeps.none _ _⟩

section
variable {starts : List Int} {selector : SpanSelector} {chosen : List (Finding Score)}

section
variable (selects : Selects starts selector chosen) (distinct : starts.Pairwise (· < ·))
include selects distinct

theorem Selects.exceeds_iff
    {candidate : Finding Score} (after : 0 ≤ candidate.start) :
    exceeds selector.maxEnd candidate.start (binarySearch selector.starts candidate.finish) = true ↔
      chosen.any (overlaps candidate) = true := by
  have within : binarySearch selector.starts candidate.finish ≤ selector.maxEnd.length := by
    rw [selects.sized, selects.same]
    exact binarySearch_le _ _
  have positive : ∀ entry ∈ chosen.reverse.map (entryOf starts), 0 < entry.1 := by
    intro entry member
    obtain ⟨finding, -, rfl⟩ := mem_map.mp member
    exact Nat.succ_pos _
  rw [FenwickTree.exceeds_iff selects.keeps after positive _ within, any_eq_true, selects.same]
  have each : ∀ other ∈ chosen,
      ((entryOf starts other).1 ≤ binarySearch starts candidate.finish ∧ candidate.start < (entryOf starts other).2 ↔
        overlaps candidate other = true) := by
    intro other member
    rw [overlaps, Bool.and_eq_true, decide_eq_true_iff, decide_eq_true_iff, and_comm]
    exact and_congr_right fun _ => binarySearch_lt_iff distinct (selects.known other member) _
  constructor
  · rintro ⟨entry, member, before, beyond⟩
    obtain ⟨other, listed, rfl⟩ := mem_map.mp member
    have listed := mem_reverse.mp listed
    exact ⟨other, listed, (each other listed).mp ⟨before, beyond⟩⟩
  · rintro ⟨other, listed, overlap⟩
    obtain ⟨before, beyond⟩ := (each other listed).mpr overlap
    exact ⟨_, mem_map_of_mem (mem_reverse.mpr listed), before, beyond⟩

theorem Selects.accept
    {candidate : Finding Score} (after : 0 ≤ candidate.start) (known : candidate.start ∈ starts) :
    match selector.accept candidate with
    | none => choose overlaps chosen candidate = chosen
    | some next => choose overlaps chosen candidate = chosen ++ [candidate] ∧ Selects starts next (chosen ++ [candidate]) := by
  have refused := selects.exceeds_iff distinct after
  unfold SpanSelector.accept choose
  by_cases exceeded : exceeds selector.maxEnd candidate.start (binarySearch selector.starts candidate.finish) = true
  · rw [if_pos exceeded, if_pos (refused.mp exceeded)]
  · rw [if_neg exceeded, if_neg (mt refused.mpr exceeded)]
    refine ⟨rfl, selects.same, ?sized, ?known, ?keeps⟩
    case sized => rw [length_raise, selects.sized]
    case known =>
      intro finding member
      rcases mem_append.mp member with before | last
      · exact selects.known finding before
      · rwa [mem_singleton.mp last]
    case keeps =>
      rw [reverse_append, reverse_singleton, singleton_append, map_cons, selects.same]
      exact selects.keeps.raise (Nat.succ_pos _) candidate.finish

theorem acceptAll_greedy
    (offered : List (Finding Score)) (known : ∀ candidate ∈ offered, 0 ≤ candidate.start ∧ candidate.start ∈ starts) :
    offered.foldl (choose overlaps) chosen = chosen ++ acceptAll selector offered := by
  induction offered generalizing selector chosen with
  | nil => exact (append_nil chosen).symm
  | cons candidate rest ih =>
    obtain ⟨⟨after, listed⟩, others⟩ := forall_mem_cons.mp known
    have step := selects.accept distinct after listed
    rw [foldl_cons, acceptAll]
    cases accepted : selector.accept candidate with
    | none =>
      rw [accepted] at step
      rw [step]
      exact ih selects others
    | some next =>
      rw [accepted] at step
      rw [step.1, ih step.2 others, List.append_assoc]
      rfl

end

theorem acceptAll_new (candidates : List (Finding Score)) (after : ∀ candidate ∈ candidates, 0 ≤ candidate.start) :
    acceptAll (newSpanSelector candidates) candidates = greedy overlaps candidates := by
  obtain ⟨distinct, known⟩ := newSpanSelector_starts candidates
  exact (acceptAll_greedy (.new candidates) distinct candidates fun candidate member =>
    ⟨after candidate member, known candidate member⟩).symm

end

theorem acceptChecked_safe {value : List UInt8} {selector : SpanSelector} {candidates : List (Finding Score)}
    (safe : ∀ candidate ∈ candidates, ¬ OutOfPlace value candidate) :
    acceptChecked value selector candidates = .ok (acceptAll selector candidates) := by
  induction candidates generalizing selector with
  | nil => rfl
  | cons candidate rest ih =>
    obtain ⟨inPlace, others⟩ := forall_mem_cons.mp safe
    rw [acceptChecked, if_neg inPlace, acceptAll]
    cases selector.accept candidate with
    | none => exact ih others
    | some next =>
      dsimp only
      rw [ih others]
      rfl

theorem acceptChecked_unsafe {value : List UInt8} {selector : SpanSelector} {candidates : List (Finding Score)}
    {candidate : Finding Score} (member : candidate ∈ candidates) (outside : OutOfPlace value candidate) :
    acceptChecked value selector candidates = .error .unsafeRewrite := by
  induction candidates generalizing selector with
  | nil => cases member
  | cons first rest ih =>
    rw [acceptChecked]
    split
    · rfl
    · rename_i inPlace
      rcases mem_cons.mp member with rfl | later
      · exact absurd outside inPlace
      · cases selector.accept first with
        | none => exact ih later
        | some next =>
          dsimp only
          rw [ih later]
          rfl

/-! ### Segments -/

theorem segmentRuns_filter {pick : List (Finding Score) → List (Finding Score)} (nothing : pick [] = [])
    (among : ∀ candidates, pick candidates ⊆ candidates) {ordered : List (Finding Score)}
    (sorted : ordered.Pairwise fun first second => first.segment ≤ second.segment) (segment : Int) :
    ((segmentRuns ordered).flatMap pick).filter (fun finding => finding.segment = segment) =
      pick (ordered.filter fun finding => finding.segment = segment) := by
  fun_induction segmentRuns ordered with
  | case1 => simp [nothing]
  | case2 first rest ih =>
    have halves : rest = (rest.takeWhile fun finding => decide (finding.segment = first.segment)) ++
        rest.dropWhile fun finding => decide (finding.segment = first.segment) := takeWhile_append_dropWhile.symm
    generalize front : (rest.takeWhile fun finding => decide (finding.segment = first.segment)) = run at halves ⊢
    generalize back : (rest.dropWhile fun finding => decide (finding.segment = first.segment)) = others at halves ih ⊢
    have same : ∀ finding ∈ first :: run, finding.segment = first.segment := by
      rw [forall_mem_cons, ← front]
      exact ⟨rfl, fun finding member => by simpa using mem_takeWhile_imp member⟩
    have sortedOthers : others.Pairwise fun first second => first.segment ≤ second.segment := by
      rw [← back]
      exact sorted.tail.sublist (dropWhile_sublist _)
    have differ : ∀ finding ∈ others, finding.segment ≠ first.segment := by
      cases listed : others with
      | nil => intro finding member; cases member
      | cons next later =>
        have stops : next.segment ≠ first.segment := by
          have heads := head_dropWhile_not (fun finding : Finding Score => decide (finding.segment = first.segment))
            (l := rest) (by rw [back, listed]; exact cons_ne_nil _ _)
          simp only [back, listed, head_cons, decide_eq_false_iff_not] at heads
          exact heads
        have above : first.segment ≤ next.segment := by
          refine rel_of_pairwise_cons sorted ?_
          rw [halves, listed]
          simp
        rw [listed] at sortedOthers
        intro finding member
        rcases mem_cons.mp member with rfl | after
        · exact stops
        · have most := rel_of_pairwise_cons sortedOthers after
          omega
    rw [flatMap_cons, filter_append, ih sortedOthers, halves, ← cons_append, filter_append]
    by_cases here : segment = first.segment
    · subst here
      have none_later : others.filter (fun finding => decide (finding.segment = first.segment)) = [] :=
        filter_eq_nil_iff.mpr fun finding member => by simpa using differ finding member
      have all_run : (first :: run).filter (fun finding => decide (finding.segment = first.segment)) = first :: run :=
        filter_eq_self.mpr fun finding member => by simpa using same finding member
      rw [none_later, nothing, all_run, append_nil, append_nil]
      exact filter_eq_self.mpr fun finding member => by simpa using same finding (among _ member)
    · have none_run : ∀ {found : List (Finding Score)}, found ⊆ first :: run →
          found.filter (fun finding => decide (finding.segment = segment)) = [] := by
        intro found inside
        refine filter_eq_nil_iff.mpr fun finding member => ?_
        simpa [same finding (inside member)] using fun equal => here equal.symm
      rw [none_run (among _), none_run (List.Subset.refl _), nil_append, nil_append]

structure GreedyChoice (ordered chosen : List (Finding Score)) : Prop where
  plain : chosen.Perm (greedy overlaps ordered)
  apart : chosen.Pairwise fun first second => overlaps first second = false
  rejected : ∀ front candidate back, ordered = front ++ candidate :: back → candidate ∉ chosen →
    ∃ other ∈ front, other ∈ chosen ∧ overlaps candidate other = true

theorem GreedyChoice.of_perm {ordered chosen : List (Finding Score)} (plain : chosen.Perm (greedy overlaps ordered)) :
    GreedyChoice ordered chosen := by
  refine ⟨plain, ?apart, ?rejected⟩
  case apart =>
    refine (plain.pairwise_iff fun {first second} apart => ?_).mpr ((greedy_apart ordered).imp fun {first second} apart => ?_)
    · rwa [overlaps_symm]
    · rwa [overlaps_symm]
  case rejected =>
    rintro front candidate back rfl absent
    have rejected : candidate ∉ greedy overlaps (front ++ candidate :: back) := fun member => absent (plain.mem_iff.mpr member)
    obtain ⟨other, before, listed, overlap⟩ := greedy_rejected rejected
    exact ⟨other, before, plain.mem_iff.mpr listed, overlap⟩

theorem deduplicated_subset [BEq Score] (candidates : List (Finding Score)) : deduplicated candidates ⊆ candidates := by
  have each : ∀ rest seen : List (Finding Score),
      rest.foldl (fun seen candidate => if seen.any (candidate == ·) then seen else seen ++ [candidate]) seen ⊆ seen ++ rest := by
    intro rest
    induction rest with
    | nil => intro seen; simp
    | cons candidate rest ih =>
      intro seen item member
      have listed := ih _ member
      dsimp only at listed
      split at listed
      · simp only [mem_append, mem_cons] at listed ⊢
        tauto
      · simp only [mem_append, mem_cons, not_mem_nil, or_false] at listed ⊢
        tauto
  exact each candidates []

section
variable {sort : (Finding Score → Finding Score → Bool) → List (Finding Score) → List (Finding Score)}

theorem selectNonOverlapping_greedy (sorts : SortSlice sort) (value : List UInt8) (findings : List (Finding Score))
    (safe : ∀ finding ∈ findings, ¬ OutOfPlace value finding) :
    selectNonOverlappingFindings sort value findings = .ok (greedy overlaps (sort offeredBefore findings)) := by
  have safe : ∀ candidate ∈ sort offeredBefore findings, ¬ OutOfPlace value candidate :=
    fun candidate member => safe candidate ((sorts.perm _ _).mem_iff.mp member)
  have after : ∀ candidate ∈ sort offeredBefore findings, 0 ≤ candidate.start :=
    fun candidate member => not_lt.mp fun before => safe candidate member (.inl before)
  rw [selectNonOverlappingFindings, acceptChecked_safe safe, acceptAll_new _ after]

theorem selectDeterministic_greedy [BEq Score] (sorts : SortSlice sort) (candidates : List (Finding Score))
    (after : ∀ candidate ∈ candidates, 0 ≤ candidate.start) (segment : Int) :
    ((selectDeterministicFindings sort candidates).filter fun finding => finding.segment = segment).Perm
      (greedy overlaps ((sort offeredInSegment (deduplicated candidates)).filter fun finding => finding.segment = segment)) := by
  have grouped := sorts.sorted offeredInSegment (deduplicated candidates) offeredInSegment_weak
  have bySegment : (sort offeredInSegment (deduplicated candidates)).Pairwise
      fun first second => first.segment ≤ second.segment := by
    refine grouped.imp fun {first second} apart => not_lt.mp fun less => ?_
    rw [← Bool.not_eq_true, offeredInSegment, ascending_iff] at apart
    exact apart (.inl less)
  have accepts : ∀ offered : List (Finding Score), ∀ selector, acceptAll selector offered ⊆ offered := by
    intro offered
    induction offered with
    | nil => exact fun _ => List.Subset.refl []
    | cons candidate rest ih =>
      intro selector
      rw [acceptAll]
      cases selector.accept candidate with
      | none => exact List.Subset.trans (ih selector) (subset_cons_self _ _)
      | some next => exact cons_subset_cons _ (ih next)
  have chosen := @segmentRuns_filter Score (fun offered : List (Finding Score) => acceptAll (newSpanSelector offered) offered) rfl
    (fun offered => accepts offered _) _ bySegment segment
  rw [acceptAll_new] at chosen
  · exact chosen ▸ (sorts.perm _ _).filter _
  · intro candidate member
    have listed := (sorts.perm _ _).mem_iff.mp (mem_of_mem_filter member)
    exact after candidate (deduplicated_subset _ listed)

/-- The spans chosen are those of the plain greedy, for one value and in each segment of the detector. -/
theorem selections_greedy [BEq Score] (sorts : SortSlice sort) :
    (∀ (value : List UInt8) (findings : List (Finding Score)),
      (∃ finding ∈ findings, OutOfPlace value finding) ∧
          selectNonOverlappingFindings sort value findings = .error .unsafeRewrite ∨
        (∀ finding ∈ findings, ¬ OutOfPlace value finding) ∧
          ∃ chosen, selectNonOverlappingFindings sort value findings = .ok chosen ∧
            GreedyChoice (sort offeredBefore findings) chosen) ∧
      ∀ candidates : List (Finding Score), (∀ candidate ∈ candidates, 0 ≤ candidate.start) → ∀ segment,
        GreedyChoice ((sort offeredInSegment (deduplicated candidates)).filter fun finding => finding.segment = segment)
          ((selectDeterministicFindings sort candidates).filter fun finding => finding.segment = segment) := by
  constructor
  · intro value findings
    by_cases safe : ∀ finding ∈ findings, ¬ OutOfPlace value finding
    · exact .inr ⟨safe, _, selectNonOverlapping_greedy sorts value findings safe, .of_perm (.refl _)⟩
    · have outside : ∃ finding ∈ findings, OutOfPlace value finding := by
        by_contra none_outside
        exact safe fun finding member contra => none_outside ⟨finding, member, contra⟩
      obtain ⟨finding, member, outside⟩ := outside
      exact .inl ⟨⟨finding, member, outside⟩,
        acceptChecked_unsafe ((sorts.perm _ _).mem_iff.mpr member) outside⟩
  · exact fun candidates after segment => .of_perm (selectDeterministic_greedy sorts candidates after segment)

theorem greedy_of_apart {ordered : List (Finding Score)} (apart : ordered.Pairwise fun first second => overlaps second first = false) :
    greedy overlaps ordered = ordered := by
  induction ordered using List.reverseRecOn with
  | nil => rfl
  | append_singleton ordered candidate ih =>
    obtain ⟨before, -, last⟩ := pairwise_append.mp apart
    rw [greedy_snoc, ih before, choose, if_neg]
    simpa using last

/-- What was selected is selected again, all of it. -/
theorem selected_again (sorts : SortSlice sort) (value : List UInt8) {findings chosen : List (Finding Score)}
    (selected : selectNonOverlappingFindings sort value findings = .ok chosen) :
    ∃ again, selectNonOverlappingFindings sort value chosen = .ok again ∧ again.Perm chosen := by
  have safe : ∀ finding ∈ findings, ¬ OutOfPlace value finding := by
    intro finding listed outside
    rw [selectNonOverlappingFindings, acceptChecked_unsafe ((sorts.perm _ _).mem_iff.mpr listed) outside] at selected
    cases selected
  rw [selectNonOverlapping_greedy sorts value findings safe] at selected
  obtain rfl := Except.ok.inj selected
  have apart : (sort offeredBefore (greedy overlaps (sort offeredBefore findings))).Pairwise
      fun first second => overlaps second first = false :=
    ((sorts.perm _ _).pairwise_iff fun apart => by rwa [overlaps_symm]).mpr (greedy_apart _)
  refine ⟨_, selectNonOverlapping_greedy sorts value _ fun finding listed => ?_, ?_⟩
  · exact safe finding ((sorts.perm _ _).mem_iff.mp (greedy_subset _ listed))
  · rw [greedy_of_apart apart]
    exact sorts.perm _ _

end

def insertionSort (less : Finding Score → Finding Score → Bool) (findings : List (Finding Score)) : List (Finding Score) :=
  findings.insertionSort fun first second => less second first = false

theorem insertionSort_sorts : SortSlice (@insertionSort Score) := by
  refine ⟨fun less findings => perm_insertionSort _ findings, fun less findings weak => ?_⟩
  have total : Std.Total fun first second : Finding Score => less second first = false := by
    refine ⟨fun first second => ?_⟩
    by_contra contra
    rw [not_or, Bool.not_eq_false, Bool.not_eq_false] at contra
    have self := weak.transitive _ _ _ contra.1 contra.2
    rw [weak.irreflexive] at self
    cases self
  have transitive : IsTrans (Finding Score) fun first second => less second first = false :=
    ⟨fun first second third left right => weak.negative _ _ _ right left⟩
  exact pairwise_insertionSort _ findings

end

/-- A secret inside a link, an address that touches it, and a rule's empty match. -/
def crowded : List (Finding Nat) :=
  [⟨0, 2, 30, .url, 1, none, []⟩, ⟨0, 10, 20, .commonSecret, 1, none, []⟩, ⟨0, 20, 28, .email, 1, none, []⟩,
    ⟨0, 20, 20, .phone, 1, none, []⟩]

theorem selections_greedy_crowded :
    (∃ chosen, selectNonOverlappingFindings insertionSort (List.replicate 30 0) (crowded.take 3) = .ok chosen ∧
        GreedyChoice (insertionSort offeredBefore (crowded.take 3)) chosen) ∧
      GreedyChoice ((insertionSort offeredInSegment (deduplicated crowded)).filter fun finding => finding.segment = 0)
        ((selectDeterministicFindings insertionSort crowded).filter fun finding => finding.segment = 0) := by
  have both := @selections_greedy Nat insertionSort _ insertionSort_sorts
  have safe : ¬ ∃ finding ∈ crowded.take 3, OutOfPlace (List.replicate 30 0) finding := by decide +kernel
  exact ⟨((both.1 _ _).resolve_left fun contra => safe contra.1).2, both.2 crowded (by decide +kernel) 0⟩

theorem selected_again_crowded : ∃ chosen again : List (Finding Nat),
    selectNonOverlappingFindings insertionSort (List.replicate 30 0) (crowded.take 3) = .ok chosen ∧
      selectNonOverlappingFindings insertionSort (List.replicate 30 0) chosen = .ok again ∧ again.Perm chosen := by
  have selected := selectNonOverlapping_greedy insertionSort_sorts (List.replicate 30 0) (crowded.take 3) (by decide +kernel)
  obtain ⟨again, selects, same⟩ := selected_again insertionSort_sorts _ selected
  exact ⟨_, again, selected, selects, same⟩

end AstrLink.SpanSelection
