import Mathlib

/-!
The runtime of a session. The closed blocks of its calls are the maximal runs of covered moments that end
(`runs_iff`), so the runtime does not depend on how the calls are listed.
-/
namespace AstrLink.RuntimeIntervals
open List

/-- The runtime of a call; `stop` is the zero time while it runs. -/
structure RuntimeInterval where
  start : Int
  stop : Int
  isOpen : Bool
  ordered : isOpen = false → start ≤ stop

/-- `Sub`, which keeps to the durations there are. -/
def sub (later earlier : Int) : Int := max (-2 ^ 63) (min (2 ^ 63 - 1) (later - earlier))

def milliseconds (duration : Int) : Int := duration.tdiv 1000000

/-- A sum as an `int64` holds it. -/
def wrap (sum : Int) : Int := (sum + 2 ^ 63) % 2 ^ 64 - 2 ^ 63

structure Merging where
  total : Int
  blockStart : Int
  blockEnd : Int
  blockOpen : Bool

def Merging.closeBlock (merging : Merging) : Int :=
  if merging.blockOpen then merging.total
  else wrap (merging.total + milliseconds (sub merging.blockEnd merging.blockStart))

/-- One turn of the loop. Nothing is merged at first. -/
def turn (merging : Option Merging) (interval : RuntimeInterval) : Merging :=
  match merging with
  | none => ⟨0, interval.start, interval.stop, interval.isOpen⟩
  | some merging =>
    if merging.blockOpen || interval.start ≤ merging.blockEnd then
      { merging with
        blockEnd := if merging.blockEnd < interval.stop then interval.stop else merging.blockEnd
        blockOpen := merging.blockOpen || interval.isOpen }
    else ⟨merging.closeBlock, interval.start, interval.stop, interval.isOpen⟩

/-- `sort` is `slices.SortFunc`, which need not be stable. -/
def mergeRuntimeIntervals (sort : List RuntimeInterval → List RuntimeInterval) (intervals : List RuntimeInterval) :
    Int × Option Int :=
  match (sort intervals).foldl (fun merging interval => some (turn merging interval)) none with
  | none => (0, none)
  | some merging =>
    if merging.blockOpen then (merging.total, some merging.blockStart) else (merging.closeBlock, none)

def SortsByStart (sort : List RuntimeInterval → List RuntimeInterval) : Prop :=
  ∀ intervals, (sort intervals).Perm intervals ∧ (sort intervals).Pairwise fun first later => first.start ≤ later.start

/-- The moments from the start of a call to its end, or from it on. -/
def RuntimeInterval.Covers (interval : RuntimeInterval) (moment : Int) : Prop :=
  interval.start ≤ moment ∧ (interval.isOpen = true ∨ moment < interval.stop)

def Covered (intervals : List RuntimeInterval) (moment : Int) : Prop := ∃ interval ∈ intervals, interval.Covers moment

/-- The moments of a block that is over: all covered, and none next to them. -/
structure Run (intervals : List RuntimeInterval) (start stop : Int) : Prop where
  some_moment : start < stop
  covered : ∀ moment, start ≤ moment → moment < stop → Covered intervals moment
  starts : ¬ Covered intervals (start - 1)
  stops : ¬ Covered intervals stop

/-- The start of the block that does not end. -/
structure RunningSince (intervals : List RuntimeInterval) (start : Int) : Prop where
  covered : ∀ moment, start ≤ moment → Covered intervals moment
  starts : ¬ Covered intervals (start - 1)

/-- The whole milliseconds of some blocks. -/
def durationMs (blocks : List (Int × Int)) : Int := blocks.foldr (fun block rest => milliseconds (sub block.2 block.1) + rest) 0

theorem durationMs_append (blocks more : List (Int × Int)) :
    durationMs (blocks ++ more) = durationMs blocks + durationMs more := by
  induction blocks with
  | nil => simp [durationMs]
  | cons block blocks ih =>
    simp only [durationMs, cons_append, foldr_cons] at ih ⊢
    omega

theorem durationMs_perm {blocks other : List (Int × Int)} (perm : blocks.Perm other) : durationMs blocks = durationMs other :=
  perm.foldr_eq' (fun _ _ _ _ rest => by omega) 0

theorem durationMs_filter (blocks : List (Int × Int)) :
    durationMs (blocks.filter fun block => block.1 ≠ block.2) = durationMs blocks := by
  induction blocks with
  | nil => rfl
  | cons block blocks ih =>
    by_cases same : block.1 = block.2
    · have empty : milliseconds (sub block.2 block.1) = 0 := by rw [same, sub, Int.sub_self]; rfl
      rw [filter_cons_of_neg (by simpa using same), ih, durationMs, durationMs, foldr_cons, empty, Int.zero_add]
    · rw [filter_cons_of_pos (by simpa using same)]
      exact congrArg (milliseconds (sub block.2 block.1) + ·) ih

/-- The blocks that were closed and the one that is merged into, after some intervals. -/
structure Merged (seen : List RuntimeInterval) (closed : List (Int × Int)) (merging : Merging) : Prop where
  total : merging.total = wrap (durationMs closed)
  covers : ∀ moment, Covered seen moment ↔ (∃ block ∈ closed, block.1 ≤ moment ∧ moment < block.2) ∨
    (merging.blockStart ≤ moment ∧ (merging.blockOpen = true ∨ moment < merging.blockEnd))
  ordered : merging.blockOpen = false → merging.blockStart ≤ merging.blockEnd
  before : ∀ block ∈ closed, block.1 ≤ block.2 ∧ block.2 < merging.blockStart
  apart : closed.Pairwise fun block later => block.2 < later.1
  running : merging.blockOpen = true ↔ ∃ interval ∈ seen, interval.isOpen = true
  started : ∃ interval ∈ seen, interval.start = merging.blockStart

theorem covered_snoc {seen : List RuntimeInterval} {interval : RuntimeInterval} {moment : Int} :
    Covered (seen ++ [interval]) moment ↔ Covered seen moment ∨ interval.Covers moment := by
  simp only [Covered, mem_append, mem_singleton, or_and_right, exists_or, exists_eq_left]

theorem wrap_wrap (first second : Int) : wrap (wrap first + second) = wrap (first + second) := by
  unfold wrap
  omega

theorem Merged.close {seen : List RuntimeInterval} {closed : List (Int × Int)} {merging : Merging}
    (merged : Merged seen closed merging) (over' : merging.blockOpen = false) :
    merging.closeBlock = wrap (durationMs (closed ++ [(merging.blockStart, merging.blockEnd)])) := by
  rw [Merging.closeBlock, over', if_neg Bool.false_ne_true, merged.total, wrap_wrap, durationMs_append]
  simp [durationMs]

theorem Merged.turn {seen : List RuntimeInterval} {closed : List (Int × Int)} {merging : Merging}
    (merged : Merged seen closed merging) {interval : RuntimeInterval} (later : merging.blockStart ≤ interval.start) :
    ∃ closed, Merged (seen ++ [interval]) closed (turn (some merging) interval) := by
  have ordered := merged.ordered
  have fits := interval.ordered
  have starts : ∃ other ∈ seen ++ [interval], other.start = merging.blockStart :=
    merged.started.imp fun _ ⟨listed, same⟩ => ⟨mem_append_left _ listed, same⟩
  by_cases meets : (merging.blockOpen || interval.start ≤ merging.blockEnd) = true
  · refine ⟨closed, ?_⟩
    simp only [RuntimeIntervals.turn, if_pos meets]
    refine ⟨merged.total, fun moment => ?_, fun isOver => ?_, merged.before, merged.apart, ?_, starts⟩
    · rw [covered_snoc, merged.covers, RuntimeInterval.Covers, or_assoc]
      refine or_congr_right ?_
      cases isOpen : merging.blockOpen <;> cases opens : interval.isOpen <;> simp [isOpen, opens] at meets ordered fits ⊢ <;>
        omega
    · rw [Bool.or_eq_false_iff] at isOver
      have := ordered isOver.1
      dsimp only
      split <;> omega
    · simp [merged.running, or_and_right, exists_or]
  · rw [Bool.not_eq_true, Bool.or_eq_false_iff, decide_eq_false_iff_not] at meets
    have order := ordered meets.1
    refine ⟨closed ++ [(merging.blockStart, merging.blockEnd)], ?_⟩
    have same : RuntimeIntervals.turn (some merging) interval =
        ⟨merging.closeBlock, interval.start, interval.stop, interval.isOpen⟩ := by
      simp [RuntimeIntervals.turn, meets.1, meets.2]
    rw [same]
    refine ⟨merged.close meets.1, fun moment => ?_, fits, fun block listed => ?_, ?_, ?_, ⟨interval, by simp, rfl⟩⟩
    · rw [covered_snoc, merged.covers, meets.1, RuntimeInterval.Covers]
      simp only [mem_append, mem_singleton, or_and_right, exists_or, exists_eq_left, Bool.false_eq_true, false_or]
    · rcases mem_append.mp listed with earlier | last
      · have apart := merged.before block earlier
        dsimp only
        omega
      · obtain rfl := mem_singleton.mp last
        dsimp only
        omega
    · refine pairwise_append.mpr ⟨merged.apart, pairwise_singleton _ _, fun block listed last same => ?_⟩
      rw [mem_singleton.mp same]
      exact (merged.before block listed).2
    · have none_open : ¬ ∃ other ∈ seen, other.isOpen = true := by simp [← merged.running, meets.1]
      simp only [mem_append, mem_singleton, or_and_right, exists_or, exists_eq_left, none_open, false_or]

theorem merged_foldl {intervals : List RuntimeInterval} (sorted : intervals.Pairwise fun first later => first.start ≤ later.start)
    (some_call : intervals ≠ []) :
    ∃ closed merging, intervals.foldl (fun merging interval => some (turn merging interval)) none = some merging ∧
      Merged intervals closed merging := by
  induction intervals using List.reverseRecOn with
  | nil => exact absurd rfl some_call
  | append_singleton seen interval ih =>
    obtain ⟨earlier, -, later⟩ := pairwise_append.mp sorted
    rw [foldl_append, foldl_cons, foldl_nil]
    cases seen with
    | nil =>
      refine ⟨[], _, rfl, by simp [turn, durationMs, wrap], fun moment => ?_, interval.ordered, by simp, Pairwise.nil, ?_,
        interval, by simp, rfl⟩
      · simp [Covered, RuntimeInterval.Covers, turn]
      · simp [turn]
    | cons first seen =>
      obtain ⟨closed, merging, folded, merged⟩ := ih earlier (by simp)
      obtain ⟨started, listed, start⟩ := merged.started
      rw [folded]
      obtain ⟨closed, merged⟩ := merged.turn (start ▸ later started listed interval (by simp))
      exact ⟨closed, _, rfl, merged⟩

/-- The blocks of a session, none next to another, and since when its last one runs. -/
structure Blocks (intervals : List RuntimeInterval) (blocks : List (Int × Int)) (since : Option Int) : Prop where
  covers : ∀ moment, Covered intervals moment ↔ (∃ block ∈ blocks, block.1 ≤ moment ∧ moment < block.2) ∨
    ∃ start, since = some start ∧ start ≤ moment
  ordered : ∀ block ∈ blocks, block.1 ≤ block.2
  apart : blocks.Pairwise fun block later => block.2 < later.1
  last : ∀ start, since = some start → ∀ block ∈ blocks, block.2 < start

section
variable {intervals : List RuntimeInterval} {blocks : List (Int × Int)} {since : Option Int}

section
variable (held : Blocks intervals blocks since)
include held

theorem Blocks.meet {block other : Int × Int} (listed : block ∈ blocks)
    (listed' : other ∈ blocks) (touch : block.1 ≤ other.2) (touch' : other.1 ≤ block.2) : block = other := by
  let Apart (block other : Int × Int) : Prop := block.2 < other.1 ∨ other.2 < block.1
  have symm : Std.Symm Apart := ⟨fun _ _ => Or.symm⟩
  have apart : blocks.Pairwise Apart := held.apart.imp .inl
  by_contra different
  rcases apart.forall listed listed' different with before | after <;> omega

theorem Blocks.bounds {block : Int × Int} (listed : block ∈ blocks) :
    ¬ Covered intervals (block.1 - 1) ∧ ¬ Covered intervals block.2 := by
  have order := held.ordered block listed
  rw [held.covers, held.covers]
  constructor
  all_goals
    rintro (⟨other, listed', from_start, to_stop⟩ | ⟨start, same, from_start⟩)
    · have one := held.meet listed listed' (by omega) (by omega)
      subst one
      omega
    · have ends := held.last start same block listed
      omega

theorem Blocks.covered {block : Int × Int} (listed : block ∈ blocks) {moment : Int}
    (from_start : block.1 ≤ moment) (to_stop : moment < block.2) : Covered intervals moment :=
  (held.covers moment).mpr (.inl ⟨block, listed, from_start, to_stop⟩)

theorem Blocks.runs_iff {start stop : Int} :
    Run intervals start stop ↔ (start, stop) ∈ blocks ∧ start < stop := by
  constructor
  · intro run
    refine ⟨?_, run.some_moment⟩
    rcases (held.covers start).mp (run.covered start (Int.le_refl _) run.some_moment) with
      ⟨block, listed, from_start, to_stop⟩ | ⟨opened, same, from_start⟩
    · obtain ⟨-, ends⟩ := held.bounds listed
      have starts : block.1 = start := by
        by_contra different
        exact run.starts (held.covered listed (by omega) (by omega))
      have stops : block.2 = stop := by
        rcases Int.lt_trichotomy block.2 stop with shorter | same | longer
        · exact absurd (run.covered block.2 (by omega) shorter) ends
        · exact same
        · exact absurd (held.covered listed (by have := run.some_moment; omega) longer) run.stops
      rw [← starts, ← stops]
      exact listed
    · have order := run.some_moment
      exact absurd ((held.covers stop).mpr (.inr ⟨opened, same, by omega⟩)) run.stops
  · rintro ⟨listed, some_moment⟩
    obtain ⟨starts, stops⟩ := held.bounds listed
    exact ⟨some_moment, fun moment => held.covered listed, starts, stops⟩

theorem Blocks.running_iff {start : Int} :
    RunningSince intervals start ↔ since = some start := by
  have late : ∃ moment : Int, ∀ block ∈ blocks, block.2 ≤ moment := by
    clear held
    induction blocks with
    | nil => exact ⟨0, by simp⟩
    | cons block blocks ih =>
      obtain ⟨moment, bound⟩ := ih
      refine ⟨max moment block.2, fun other listed => ?_⟩
      rcases mem_cons.mp listed with rfl | listed
      · exact Int.le_max_right _ _
      · exact Int.le_trans (bound other listed) (Int.le_max_left _ _)
  have opens : ∀ opened, since = some opened → ¬ Covered intervals (opened - 1) := by
    intro opened same
    rw [held.covers]
    rintro (⟨block, listed, from_start, to_stop⟩ | ⟨other, same', from_start⟩)
    · have ends := held.last opened same block listed
      omega
    · rw [same, Option.some.injEq] at same'
      omega
  constructor
  · intro running
    obtain ⟨moment, bound⟩ := late
    rcases (held.covers (max start moment)).mp (running.covered _ (Int.le_max_left _ _)) with
      ⟨block, listed, -, to_stop⟩ | ⟨opened, same, -⟩
    · have ends := bound block listed
      omega
    · rw [same, Option.some.injEq]
      rcases Int.lt_trichotomy opened start with before | equal | after
      · exact absurd ((held.covers (start - 1)).mpr (.inr ⟨opened, same, by omega⟩)) running.starts
      · exact equal
      · exact absurd (running.covered (opened - 1) (by omega)) (opens opened same)
  · intro same
    exact ⟨fun moment from_start => (held.covers moment).mpr (.inr ⟨start, same, from_start⟩), opens start same⟩

end

end

theorem merge_blocks {sort : List RuntimeInterval → List RuntimeInterval} (sorts : SortsByStart sort)
    (intervals : List RuntimeInterval) :
    ∃ blocks, Blocks intervals blocks (mergeRuntimeIntervals sort intervals).2 ∧
      (mergeRuntimeIntervals sort intervals).1 = wrap (durationMs blocks) ∧
      ((mergeRuntimeIntervals sort intervals).2 = none ↔ ∀ interval ∈ intervals, interval.isOpen = false) := by
  obtain ⟨perm, sorted⟩ := sorts intervals
  unfold mergeRuntimeIntervals
  by_cases some_call : sort intervals = []
  · rw [some_call] at perm ⊢
    obtain rfl := perm.symm.eq_nil
    exact ⟨[], ⟨fun moment => by simp [Covered], by simp, Pairwise.nil, by simp⟩, rfl, by simp⟩
  · obtain ⟨closed, merging, folded, merged⟩ := merged_foldl sorted some_call
    have listed : ∀ moment, Covered intervals moment ↔ Covered (sort intervals) moment := fun moment =>
      exists_congr fun interval => and_congr_left' perm.mem_iff.symm
    have running : merging.blockOpen = true ↔ ∃ interval ∈ intervals, interval.isOpen = true :=
      merged.running.trans (exists_congr fun interval => and_congr_left' perm.mem_iff)
    rw [folded]
    dsimp only
    cases isOpen : merging.blockOpen with
    | true =>
      rw [if_pos rfl]
      rw [isOpen] at running
      refine ⟨closed, ⟨fun moment => ?_, fun block inside => (merged.before block inside).1, merged.apart, ?_⟩, merged.total, ?_⟩
      · rw [listed, merged.covers]
        simp [isOpen]
      · rintro start same block inside
        cases same
        exact (merged.before block inside).2
      · simpa using running
    | false =>
      rw [if_neg Bool.false_ne_true]
      rw [isOpen] at running
      refine ⟨closed ++ [(merging.blockStart, merging.blockEnd)], ⟨fun moment => ?_, ?_, ?_, by simp⟩, merged.close isOpen, ?_⟩
      · rw [listed, merged.covers]
        simp [isOpen, or_and_right, exists_or]
      · intro block inside
        rcases mem_append.mp inside with earlier | last
        · exact (merged.before block earlier).1
        · rw [mem_singleton.mp last]
          exact merged.ordered isOpen
      · refine pairwise_append.mpr ⟨merged.apart, pairwise_singleton _ _, fun block inside last same => ?_⟩
        rw [mem_singleton.mp same]
        exact (merged.before block inside).2
      · simpa using running

/-- The runtime is what the blocks that are over last, each in whole milliseconds, and runs since the start of the block
that is not, whichever way the calls are listed. -/
theorem session_runtime {sort : List RuntimeInterval → List RuntimeInterval} (sorts : SortsByStart sort)
    (intervals : List RuntimeInterval) :
    (∃ blocks, blocks.Nodup ∧ (∀ start stop, (start, stop) ∈ blocks ↔ Run intervals start stop) ∧
      (mergeRuntimeIntervals sort intervals).1 = wrap (durationMs blocks)) ∧
    (∀ since, (mergeRuntimeIntervals sort intervals).2 = some since ↔ RunningSince intervals since) ∧
    ((mergeRuntimeIntervals sort intervals).2 = none ↔ ∀ interval ∈ intervals, interval.isOpen = false) ∧
    ∀ other, other.Perm intervals → mergeRuntimeIntervals sort other = mergeRuntimeIntervals sort intervals := by
  have exact_runs : ∀ intervals, ∃ blocks, blocks.Nodup ∧ (∀ start stop, (start, stop) ∈ blocks ↔ Run intervals start stop) ∧
      (mergeRuntimeIntervals sort intervals).1 = wrap (durationMs blocks) := by
    intro intervals
    obtain ⟨blocks, held, total, -⟩ := merge_blocks sorts intervals
    refine ⟨blocks.filter fun block => block.1 ≠ block.2, ?_, fun start stop => ?_, by rw [total, durationMs_filter]⟩
    · refine (held.apart.filter _).imp_of_mem fun listed _ before same => ?_
      have ordered := held.ordered _ (mem_filter.mp listed).1
      rw [same] at before ordered
      omega
    · rw [held.runs_iff, mem_filter]
      refine and_congr_right fun listed => ?_
      have ordered := held.ordered _ listed
      simp only [decide_eq_true_eq]
      omega
  have running : ∀ intervals since, (mergeRuntimeIntervals sort intervals).2 = some since ↔ RunningSince intervals since := by
    intro intervals since
    obtain ⟨blocks, held, -⟩ := merge_blocks sorts intervals
    exact held.running_iff.symm
  refine ⟨exact_runs intervals, running intervals, (merge_blocks sorts intervals).choose_spec.2.2, fun other perm => ?_⟩
  have covered : Covered other = Covered intervals := by
    funext moment
    exact propext (exists_congr fun interval => and_congr_left' perm.mem_iff)
  have runs : ∀ start stop, Run other start stop ↔ Run intervals start stop := fun start stop =>
    ⟨fun ⟨order, all, starts, stops⟩ => ⟨order, covered ▸ all, covered ▸ starts, covered ▸ stops⟩,
      fun ⟨order, all, starts, stops⟩ => ⟨order, covered ▸ all, covered ▸ starts, covered ▸ stops⟩⟩
  obtain ⟨blocks, distinct, listed, total⟩ := exact_runs other
  obtain ⟨blocks', distinct', listed', total'⟩ := exact_runs intervals
  refine Prod.ext ?_ (Option.ext fun since => ?_)
  · rw [total, total', durationMs_perm ((perm_ext_iff_of_nodup distinct distinct').mpr fun block => ?_)]
    rw [listed, listed', runs]
  · rw [running, running]
    exact ⟨fun ⟨all, starts⟩ => ⟨covered ▸ all, covered ▸ starts⟩, fun ⟨all, starts⟩ => ⟨covered ▸ all, covered ▸ starts⟩⟩

def byStart (intervals : List RuntimeInterval) : List RuntimeInterval :=
  intervals.insertionSort fun first later => first.start ≤ later.start

theorem byStart_sorts : SortsByStart byStart := by
  have total : Std.Total fun first later : RuntimeInterval => first.start ≤ later.start := ⟨fun _ _ => Int.le_total _ _⟩
  have trans : IsTrans RuntimeInterval fun first later => first.start ≤ later.start := ⟨fun _ _ _ => Int.le_trans⟩
  exact fun intervals => ⟨perm_insertionSort _ _, pairwise_insertionSort _ _⟩

/-- A call of two and a half milliseconds, one that touches it and runs, and one before both. -/
def calls : List RuntimeInterval :=
  [⟨5000000, 7500000, false, by decide⟩, ⟨7500000, 0, true, fun contra => by cases contra⟩, ⟨1000000, 2999999, false, by decide⟩]

theorem session_runtime_calls : mergeRuntimeIntervals byStart calls = (1, some 5000000) ∧
    mergeRuntimeIntervals byStart calls.reverse = mergeRuntimeIntervals byStart calls :=
  ⟨by decide +kernel, (session_runtime byStart_sorts calls).2.2.2 _ calls.reverse_perm⟩

/-- The whole milliseconds of blocks of any length. -/
def lengthMs (blocks : List (Int × Int)) : Int := blocks.foldr (fun block rest => (block.2 - block.1) / 1000000 + rest) 0

/-- A call of 300 years. -/
def long : RuntimeInterval := ⟨0, 9460800000000000000, false, fun _ => by decide⟩

/-- It lasts longer than a duration can. -/
theorem session_runtime_fails : ¬ ∀ intervals, ∃ blocks, blocks.Nodup ∧
    (∀ start stop, (start, stop) ∈ blocks ↔ Run intervals start stop) ∧
    (mergeRuntimeIntervals byStart intervals).1 = lengthMs blocks := by
  intro claimed
  obtain ⟨blocks, distinct, listed, total⟩ := claimed [long]
  have covered : ∀ moment, Covered [long] moment ↔ 0 ≤ moment ∧ moment < 9460800000000000000 := fun moment => by
    simp [Covered, RuntimeInterval.Covers, long]
  have whole : ∀ block, block ∈ blocks ↔ block ∈ [((0 : Int), (9460800000000000000 : Int))] := by
    rintro ⟨start, stop⟩
    rw [listed, mem_singleton, Prod.mk.injEq]
    constructor
    · rintro ⟨order, all, starts, stops⟩
      have first := (covered start).mp (all start (Int.le_refl _) order)
      have last := (covered (stop - 1)).mp (all (stop - 1) (by omega) (by omega))
      rw [covered] at starts stops
      omega
    · rintro ⟨rfl, rfl⟩
      refine ⟨by decide, fun moment from_start to_stop => (covered moment).mpr ⟨from_start, to_stop⟩, ?_, ?_⟩ <;>
        rw [covered] <;> omega
  rw [perm_singleton.mp ((perm_ext_iff_of_nodup distinct (nodup_singleton _)).mpr whole)] at total
  exact absurd total (by decide +kernel)

end AstrLink.RuntimeIntervals
