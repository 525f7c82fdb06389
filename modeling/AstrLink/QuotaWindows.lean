import Mathlib.Data.List.Sort

/-!
The quota windows of an account. The sweep goes from the latest end back and compares with the last window
kept, so what is left out reaches a kept one through samples that overlap (`distinctQuotaWindows_distinct`).
-/
namespace AstrLink.QuotaWindows
open List

/-- One observed window, with the instants of its bounds and of the report. -/
structure QuotaSample (R : Type) where
  start : Int
  stop : Int
  observedAt : Int
  /-- The share that was used and what the calls cost. -/
  reading : R
  deriving DecidableEq

section
variable {R : Type}

/-- One step of the sweep. The window kept last comes first. -/
def sweep (kept : List (QuotaSample R)) (sample : QuotaSample R) : List (QuotaSample R) :=
  match kept with
  | [] => [sample]
  | last :: earlier =>
    if last.start < sample.stop then
      if last.observedAt < sample.observedAt then sample :: earlier else last :: earlier
    else sample :: last :: earlier

/-- `sort` is the sort of the standard library, by descending end. -/
def distinctQuotaWindows (sort : List (QuotaSample R) → List (QuotaSample R)) (samples : List (QuotaSample R)) :
    List (QuotaSample R) :=
  ((sort samples).foldl sweep []).reverse

/-- A sort by descending end, which need not be stable. -/
structure SortsByEnd (sort : List (QuotaSample R) → List (QuotaSample R)) : Prop where
  perm : ∀ samples, (sort samples).Perm samples
  sorted : ∀ samples, (sort samples).Pairwise fun first second => second.stop ≤ first.stop

def Overlap (one other : QuotaSample R) : Prop := one.start < other.stop ∧ other.start < one.stop

theorem Overlap.symm {one other : QuotaSample R} (overlap : Overlap one other) : Overlap other one :=
  ⟨overlap.2, overlap.1⟩

/-- The next sample of a chain: it overlaps this one and was observed no earlier. -/
def Onward (samples : List (QuotaSample R)) (sample next : QuotaSample R) : Prop :=
  next ∈ samples ∧ Overlap sample next ∧ sample.observedAt ≤ next.observedAt

/-- A chain of samples that overlap one another, each observed no earlier. -/
def Reaches (samples : List (QuotaSample R)) : QuotaSample R → QuotaSample R → Prop :=
  Relation.ReflTransGen (Onward samples)

structure Swept (seen kept : List (QuotaSample R)) : Prop where
  sublist : kept.reverse.Sublist seen
  apart : kept.Pairwise fun earlier later => earlier.stop ≤ later.start
  reached : ∀ sample ∈ seen, ∃ window ∈ kept, Reaches seen sample window

theorem Swept.nil : Swept ([] : List (QuotaSample R)) [] :=
  ⟨Sublist.slnil, Pairwise.nil, fun _ contra => by cases contra⟩

variable {seen : List (QuotaSample R)} {sample : QuotaSample R}

theorem Reaches.more {window : QuotaSample R} (reaches : Reaches seen sample window) (last : QuotaSample R) :
    Reaches (seen ++ [last]) sample window :=
  Relation.ReflTransGen.mono (fun _ _ onward => ⟨mem_append_left _ onward.1, onward.2⟩) _ _ reaches

theorem Reaches.replaced {window : QuotaSample R} (reaches : Reaches seen sample window) {last : QuotaSample R}
    (onward : Onward (seen ++ [last]) window last) : Reaches (seen ++ [last]) sample last :=
  (reaches.more last).tail onward

theorem Swept.sweep {kept : List (QuotaSample R)} (swept : Swept seen kept)
    (ends : ∀ other ∈ seen, sample.stop ≤ other.stop) (proper : sample.start < sample.stop) :
    Swept (seen ++ [sample]) (sweep kept sample) := by
  have itself : sample ∈ seen ++ [sample] := mem_append_right _ mem_cons_self
  cases kept with
  | nil =>
    refine ⟨singleton_sublist.mpr itself, pairwise_singleton _ _, ?_⟩
    intro other listed
    rcases mem_append.mp listed with before | same
    · obtain ⟨window, contra, -⟩ := swept.reached other before
      cases contra
    · obtain rfl := mem_singleton.mp same
      exact ⟨other, mem_cons_self, .refl⟩
  | cons last earlier =>
    have lastSeen : last ∈ seen := swept.sublist.subset (by simp)
    have lastEnds : sample.stop ≤ last.stop := ends last lastSeen
    obtain ⟨before, apart⟩ := pairwise_cons.mp swept.apart
    have sublist := swept.sublist
    rw [reverse_cons] at sublist
    unfold QuotaWindows.sweep
    dsimp only
    split
    · rename_i overlaps
      have overlap : Overlap last sample := ⟨overlaps, Int.lt_of_lt_of_le proper lastEnds⟩
      split
      · -- the sample takes the place of the window
        rename_i newer
        refine ⟨?_, ?_, ?_⟩
        · rw [reverse_cons]
          exact ((sublist_append_left _ _).trans sublist).append (Sublist.refl _)
        · exact pairwise_cons.mpr ⟨fun window listed => Int.le_trans lastEnds (before window listed), apart⟩
        · intro other listed
          rcases mem_append.mp listed with seen_before | same
          · obtain ⟨window, held, reaches⟩ := swept.reached other seen_before
            rcases mem_cons.mp held with rfl | held
            · exact ⟨sample, mem_cons_self, reaches.replaced ⟨itself, overlap, Int.le_of_lt newer⟩⟩
            · exact ⟨window, mem_cons_of_mem sample held, reaches.more sample⟩
          · obtain rfl := mem_singleton.mp same
            exact ⟨other, mem_cons_self, .refl⟩
      · -- the sample is left out
        rename_i older
        refine ⟨swept.sublist.trans (sublist_append_left _ _), swept.apart, ?_⟩
        intro other listed
        rcases mem_append.mp listed with seen_before | same
        · obtain ⟨window, held, reaches⟩ := swept.reached other seen_before
          exact ⟨window, held, reaches.more sample⟩
        · obtain rfl := mem_singleton.mp same
          exact ⟨last, mem_cons_self, .single ⟨mem_append_left _ lastSeen, overlap.symm, Int.not_lt.mp older⟩⟩
    · rename_i separate
      refine ⟨?_, ?_, ?_⟩
      · rw [reverse_cons, reverse_cons]
        exact sublist.append (Sublist.refl _)
      · refine pairwise_cons.mpr ⟨fun window listed => ?_, swept.apart⟩
        rcases mem_cons.mp listed with rfl | held
        · exact Int.not_lt.mp separate
        · exact Int.le_trans lastEnds (before window held)
      · intro other listed
        rcases mem_append.mp listed with seen_before | same
        · obtain ⟨window, held, reaches⟩ := swept.reached other seen_before
          exact ⟨window, mem_cons_of_mem sample held, reaches.more sample⟩
        · obtain rfl := mem_singleton.mp same
          exact ⟨other, mem_cons_self, .refl⟩

theorem foldl_swept (samples seen kept : List (QuotaSample R)) (swept : Swept seen kept)
    (sorted : (seen ++ samples).Pairwise fun first second => second.stop ≤ first.stop)
    (proper : ∀ sample ∈ samples, sample.start < sample.stop) :
    Swept (seen ++ samples) (samples.foldl sweep kept) := by
  induction samples generalizing seen kept with
  | nil => rwa [append_nil]
  | cons sample rest ih =>
    have ends : ∀ other ∈ seen, sample.stop ≤ other.stop := fun other listed =>
      (pairwise_append.mp sorted).2.2 other listed sample mem_cons_self
    rw [append_cons] at sorted ⊢
    exact ih _ _ (swept.sweep ends (proper sample mem_cons_self)) sorted fun other listed =>
      proper other (mem_cons_of_mem sample listed)

abbrev ranked (rank : Int) (samples : List (QuotaSample R)) : List (QuotaSample R) :=
  samples.filter fun sample => sample.stop = rank

variable {one other : List (QuotaSample R)}

theorem mem_of_ranks (ranks : ∀ rank, ranked rank one = ranked rank other) (listed : sample ∈ one) :
    sample ∈ other := by
  have among : sample ∈ ranked sample.stop one := mem_filter.mpr ⟨listed, decide_eq_true rfl⟩
  rw [ranks] at among
  exact (mem_filter.mp among).1

theorem head_latest {first : QuotaSample R} {rest : List (QuotaSample R)}
    (sorted : (first :: rest).Pairwise fun first second => second.stop ≤ first.stop) (listed : sample ∈ first :: rest) :
    sample.stop ≤ first.stop := by
  rcases mem_cons.mp listed with rfl | later
  · exact Int.le_refl _
  · exact (pairwise_cons.mp sorted).1 sample later

theorem eq_of_ranks (sorted : one.Pairwise fun first second => second.stop ≤ first.stop)
    (sorted' : other.Pairwise fun first second => second.stop ≤ first.stop)
    (ranks : ∀ rank, ranked rank one = ranked rank other) : one = other := by
  induction one generalizing other with
  | nil =>
    refine (eq_nil_iff_forall_not_mem.mpr fun sample listed => ?_).symm
    have none_left := mem_of_ranks (fun rank => (ranks rank).symm) listed
    cases none_left
  | cons first rest ih =>
    cases other with
    | nil =>
      have none_left := mem_of_ranks ranks mem_cons_self
      cases none_left
    | cons second rest' =>
      have below : first.stop ≤ second.stop := head_latest sorted' (mem_of_ranks ranks mem_cons_self)
      have above : second.stop ≤ first.stop :=
        head_latest sorted (mem_of_ranks (fun rank => (ranks rank).symm) mem_cons_self)
      have tied : second.stop = first.stop := Int.le_antisymm above below
      have heads := ranks first.stop
      rw [ranked, ranked, filter_cons_of_pos (by simp), filter_cons_of_pos (by simp [tied])] at heads
      obtain ⟨rfl, -⟩ := List.cons.inj heads
      congr 1
      refine ih (pairwise_cons.mp sorted).2 (pairwise_cons.mp sorted').2 fun rank => ?_
      by_cases same : first.stop = rank
      · have tails := ranks rank
        rw [ranked, ranked, filter_cons_of_pos (by simp [same]), filter_cons_of_pos (by simp [same])] at tails
        exact (List.cons.inj tails).2
      · have tails := ranks rank
        rwa [ranked, ranked, filter_cons_of_neg (by simp [same]), filter_cons_of_neg (by simp [same])] at tails

theorem ranks_of_distinct (perm : one.Perm other) (distinct : (one.map QuotaSample.stop).Nodup) (rank : Int) :
    ranked rank one = ranked rank other := by
  have same : (ranked rank one).Perm (ranked rank other) := perm.filter _
  have few : ((ranked rank one).map QuotaSample.stop).Nodup := distinct.sublist (filter_sublist.map _)
  cases found : ranked rank one with
  | nil =>
    rw [found] at same
    exact same.nil_eq
  | cons first rest =>
    cases rest with
    | nil =>
      rw [found] at same
      exact (perm_singleton.mp same.symm).symm
    | cons second rest =>
      have atRank : ∀ sample ∈ ranked rank one, sample.stop = rank := fun sample listed =>
        of_decide_eq_true (mem_filter.mp listed).2
      rw [found] at few atRank
      have tied : first.stop = second.stop :=
        (atRank first (by simp)).trans (atRank second (by simp)).symm
      simp [tied] at few

/-- The windows of an account, from the latest back: each sample reaches a window that is kept, and the
order of the samples matters only among those of one end. -/
theorem distinctQuotaWindows_distinct {sort : List (QuotaSample R) → List (QuotaSample R)} (sorts : SortsByEnd sort)
    {samples : List (QuotaSample R)} (proper : ∀ sample ∈ samples, sample.start < sample.stop) :
    (distinctQuotaWindows sort samples).Subperm samples ∧
      (distinctQuotaWindows sort samples).Pairwise (fun later earlier => earlier.stop ≤ later.start) ∧
      (∀ sample ∈ samples, ∃ window ∈ distinctQuotaWindows sort samples, Reaches samples sample window) ∧
      (∀ others, (∀ rank, ranked rank (sort samples) = ranked rank (sort others)) →
        distinctQuotaWindows sort others = distinctQuotaWindows sort samples) ∧
      ∀ others, others.Perm samples → (samples.map QuotaSample.stop).Nodup →
        distinctQuotaWindows sort others = distinctQuotaWindows sort samples := by
  have proper' : ∀ sample ∈ sort samples, sample.start < sample.stop := fun sample listed =>
    proper sample ((sorts.perm samples).subset listed)
  have swept := foldl_swept (sort samples) [] [] .nil (sorts.sorted samples) proper'
  rw [nil_append] at swept
  have ordered : ∀ others, (∀ rank, ranked rank (sort samples) = ranked rank (sort others)) →
      distinctQuotaWindows sort others = distinctQuotaWindows sort samples := by
    intro others ranks
    rw [distinctQuotaWindows, distinctQuotaWindows, eq_of_ranks (sorts.sorted samples) (sorts.sorted others) ranks]
  refine ⟨?_, pairwise_reverse.mpr swept.apart, ?_, ordered, ?_⟩
  · exact swept.sublist.subperm.trans (sorts.perm samples).subperm
  · intro sample listed
    obtain ⟨window, kept, reaches⟩ := swept.reached sample ((sorts.perm samples).symm.subset listed)
    refine ⟨window, mem_reverse.mpr kept, ?_⟩
    exact Relation.ReflTransGen.mono
      (fun _ _ onward => ⟨(sorts.perm samples).subset onward.1, onward.2⟩) _ _ reaches
  · intro others perm distinct
    refine ordered others (ranks_of_distinct ?_ ?_)
    · exact ((sorts.perm samples).trans perm.symm).trans (sorts.perm others).symm
    · exact ((sorts.perm samples).map _).nodup_iff.mpr distinct

end

def descending (samples : List (QuotaSample Unit)) : List (QuotaSample Unit) :=
  samples.insertionSort fun first second => second.stop ≤ first.stop

instance : Std.Total fun first second : QuotaSample Unit => second.stop ≤ first.stop :=
  ⟨fun first second => Int.le_total second.stop first.stop⟩

instance : IsTrans (QuotaSample Unit) fun first second => second.stop ≤ first.stop :=
  ⟨fun _ _ _ later earlier => Int.le_trans earlier later⟩

theorem descending_sorts : SortsByEnd descending :=
  ⟨fun samples => perm_insertionSort _ samples, fun samples => pairwise_insertionSort _ samples⟩

/-- Three reports of one window, each overlapping the one before it and observed later. -/
def moved : List (QuotaSample Unit) := [⟨10, 20, 1, ()⟩, ⟨5, 12, 2, ()⟩, ⟨0, 6, 3, ()⟩]

theorem distinctQuotaWindows_moved :
    ∃ window ∈ distinctQuotaWindows descending moved, Reaches moved ⟨10, 20, 1, ()⟩ window :=
  (distinctQuotaWindows_distinct descending_sorts (by decide)).2.2.1 _ mem_cons_self

/-- The first report overlaps no window that is kept. -/
theorem chain_left_out : ¬ ∀ (sort : List (QuotaSample Unit) → List (QuotaSample Unit)) (samples : List (QuotaSample Unit)),
    SortsByEnd sort → (∀ sample ∈ samples, sample.start < sample.stop) →
    ∀ sample ∈ samples, sample ∉ distinctQuotaWindows sort samples →
      ∃ window ∈ distinctQuotaWindows sort samples, Overlap sample window ∧ sample.observedAt ≤ window.observedAt := by
  intro overlapped
  have kept : distinctQuotaWindows descending moved = [⟨0, 6, 3, ()⟩] := by decide
  obtain ⟨window, listed, overlap, -⟩ := overlapped descending moved descending_sorts (by decide) ⟨10, 20, 1, ()⟩
    mem_cons_self (by rw [kept]; decide)
  rw [kept, mem_singleton] at listed
  rw [listed] at overlap
  exact absurd overlap.1 (by decide)

end AstrLink.QuotaWindows
