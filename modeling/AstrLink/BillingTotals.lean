import AstrLink.BillingSummaries
import AstrLink.GroupTotals

/-!
The summaries add up: the groups of a kind share the entries out among them (`Splits`), and the figures of the
whole, or of two ranges that meet, are put together from those of the parts (`billing_summary`).
-/
namespace AstrLink.BillingSummaries
open AstrLink.Amounts Tables GroupTotals List

def Counts.plus (counts other : Counts) : Counts :=
  ⟨counts.priced + other.priced, counts.unpriced + other.unpriced, counts.pending + other.pending,
    counts.revalued + other.revalued⟩

theorem counts_totals : Totals Counts.plus Counts.zero := by
  constructor
  case comm =>
    intro left right
    simp only [Counts.plus, Nat.add_comm]
  case assoc =>
    intro left middle right
    simp only [Counts.plus, Nat.add_assoc]
  case unit_op =>
    intro value
    simp only [Counts.plus, Counts.zero, Nat.zero_add]

theorem amount_totals : Totals (fun left right : Rat => left + right) 0 :=
  ⟨Rat.add_comm, Rat.add_assoc, Rat.zero_add⟩

def valueOf (entry : LedgerEntry) : Rat := if entry.reason = pricedReason then (setString entry.amountUSD).getD 0 else 0

def amountOf (entries : List LedgerEntry) : Rat := total (fun left right => left + right) 0 (entries.map valueOf)

def countsOf (entries : List LedgerEntry) : Counts := total Counts.plus Counts.zero (entries.map Counts.zero.add)

def rootsOf (entries : List LedgerEntry) : List Text := entries.foldl (fun roots entry => addRoot roots entry.rootID) []

theorem add_eq (counts : Counts) (entry : LedgerEntry) : counts.add entry = counts.plus (Counts.zero.add entry) := by
  have apart : pendingReason ≠ pricedReason := by decide
  unfold Counts.add Counts.plus Counts.zero
  by_cases priced : entry.reason = pricedReason
  · by_cases revalued : entry.revalued <;> simp [priced, revalued]
  · by_cases pending : entry.reason = pendingReason
    · by_cases revalued : entry.revalued <;> simp [apart, pending, revalued]
    · by_cases revalued : entry.revalued <;> simp [priced, pending, revalued]

theorem countsOf_snoc (entries : List LedgerEntry) (entry : LedgerEntry) :
    countsOf (entries ++ [entry]) = (countsOf entries).add entry := by
  rw [countsOf, map_append, total_append counts_totals, add_eq]
  exact congrArg _ (counts_totals.op_unit _)

theorem amountOf_snoc (entries : List LedgerEntry) (entry : LedgerEntry) :
    amountOf (entries ++ [entry]) = amountOf entries + valueOf entry := by
  rw [amountOf, map_append, total_append amount_totals]
  exact congrArg _ (amount_totals.op_unit _)

theorem rootsOf_snoc (entries : List LedgerEntry) (entry : LedgerEntry) :
    rootsOf (entries ++ [entry]) = addRoot (rootsOf entries) entry.rootID := by
  rw [rootsOf, foldl_append]
  rfl

theorem rootsOf_length (entries : List LedgerEntry) :
    (rootsOf entries).length = (entries.map LedgerEntry.rootID).dedup.length := by
  have kept : ∀ (entries : List LedgerEntry) (roots : List Text), roots.Nodup →
      (entries.foldl (fun roots entry => addRoot roots entry.rootID) roots).Nodup ∧
        ∀ root, root ∈ entries.foldl (fun roots entry => addRoot roots entry.rootID) roots ↔
          root ∈ roots ∨ root ∈ entries.map LedgerEntry.rootID := by
    intro entries
    induction entries with
    | nil => exact fun roots nodup => ⟨nodup, by simp⟩
    | cons entry entries ih =>
      intro roots nodup
      rw [foldl_cons]
      unfold addRoot
      by_cases held : roots.any (· == entry.rootID) = true
      · have known : entry.rootID ∈ roots := by simpa using held
        rw [if_pos held]
        obtain ⟨nodup', mem⟩ := ih roots nodup
        refine ⟨nodup', fun root => (mem root).trans ?_⟩
        rw [map_cons, mem_cons]
        constructor
        · rintro (first | second)
          · exact .inl first
          · exact .inr (.inr second)
        · rintro (first | rfl | second)
          · exact .inl first
          · exact .inl known
          · exact .inr second
      · have unknown : entry.rootID ∉ roots := by simpa using held
        rw [if_neg held]
        obtain ⟨nodup', mem⟩ := ih (roots ++ [entry.rootID]) (by
          rw [nodup_append]
          refine ⟨nodup, nodup_singleton _, fun root listed other single => ?_⟩
          rw [mem_singleton.mp single]
          rintro rfl
          exact unknown listed)
        refine ⟨nodup', fun root => (mem root).trans ?_⟩
        rw [mem_append, mem_singleton, map_cons, mem_cons, or_assoc]
  obtain ⟨nodup, mem⟩ := kept entries [] nodup_nil
  apply Perm.length_eq
  apply (perm_ext_iff_of_nodup nodup (nodup_dedup _)).mpr
  intro root
  rw [mem_dedup]
  exact (mem root).trans (by simp)

def figures (entries : List LedgerEntry) : Amounts :=
  { toCounts := countsOf entries, amountUSD := floatString (amountOf entries), requests := (rootsOf entries).length }

/-! ### The groups of the loop -/

variable {entry : LedgerEntry}

section
variable {L : Type} {key : LedgerEntry → Option Text} {label : LedgerEntry → L} {entries : List LedgerEntry}

/-- The groups of a kind are those of the keys met so far, each with what its entries give. -/
structure Holds (key : LedgerEntry → Option Text) (label : LedgerEntry → L) (entries : List LedgerEntry) (grouping : Grouping L) :
    Prop where
  groups : ∀ wanted, grouping.groups.lookup wanted = (group key entries (some wanted)).head?.map fun first =>
    (label first, countsOf (group key entries (some wanted)))
  amounts : ∀ wanted, grouping.amounts.lookup wanted = (group key entries (some wanted)).head?.map fun _ =>
    amountOf (group key entries (some wanted))
  roots : ∀ wanted, grouping.roots.lookup wanted = (group key entries (some wanted)).head?.map fun _ =>
    rootsOf (group key entries (some wanted))

theorem group_here {entry : LedgerEntry} {wanted : Option Text} (here : key entry = wanted) :
    group key (entries ++ [entry]) wanted = group key entries wanted ++ [entry] := by
  rw [group, filter_append, filter_cons_of_pos (by simpa using here)]
  rfl

theorem group_elsewhere {wanted : Option Text} (elsewhere : key entry ≠ wanted) :
    group key (entries ++ [entry]) wanted = group key entries wanted := by
  rw [group, filter_append, filter_cons_of_neg (by simpa using elsewhere)]
  exact append_nil _

theorem Holds.none : Holds key label [] Grouping.none := ⟨fun _ => rfl, fun _ => rfl, fun _ => rfl⟩

theorem Holds.passed {grouping : Grouping L} (holds : Holds key label entries grouping) {entry : LedgerEntry}
    (keyless : key entry = Option.none) : Holds key label (entries ++ [entry]) grouping := by
  have same : ∀ wanted, group key (entries ++ [entry]) (some wanted) = group key entries (some wanted) := fun wanted =>
    group_elsewhere (by rw [keyless]; exact fun contra => by cases contra)
  constructor
  case groups => exact fun wanted => by rw [same, holds.groups]
  case amounts => exact fun wanted => by rw [same, holds.amounts]
  case roots => exact fun wanted => by rw [same, holds.roots]

/-- What the loop does to the groups of a kind with an entry of the key, the amount apart. -/
def Grouping.taken (grouping : Grouping L) (wanted : Text) (label : L) (entry : LedgerEntry) : Grouping L :=
  ((grouping.opened wanted label).withRoot wanted entry.rootID).counted wanted entry

theorem Holds.taken {grouping : Grouping L} (holds : Holds key label entries grouping) {entry : LedgerEntry} {wanted : Text}
    (here : key entry = some wanted) : ∀ other,
      (grouping.taken wanted (label entry) entry).groups.lookup other =
        ((group key (entries ++ [entry]) (some other)).head?.map fun first =>
          (label first, countsOf (group key (entries ++ [entry]) (some other)))) ∧
      (grouping.taken wanted (label entry) entry).roots.lookup other =
        ((group key (entries ++ [entry]) (some other)).head?.map fun _ =>
          rootsOf (group key (entries ++ [entry]) (some other))) ∧
      (grouping.taken wanted (label entry) entry).amounts.lookup other =
        if other = wanted then some (amountOf (group key entries (some wanted))) else grouping.amounts.lookup other := by
  intro other
  have groups := holds.groups
  have roots := holds.roots
  have amounts := holds.amounts
  have elsewhere : ∀ other, other ≠ wanted → group key (entries ++ [entry]) (some other) = group key entries (some other) :=
    fun other apart => group_elsewhere (by rw [here]; exact fun contra => apart (Option.some.inj contra).symm)
  have own := @group_here key entries entry (some wanted) here
  cases met : group key entries (some wanted) with
  | nil =>
    have fresh : grouping.groups.lookup wanted = Option.none := by rw [groups, met]; rfl
    unfold Grouping.taken Grouping.opened
    simp only [fresh, Grouping.withRoot, Grouping.counted, lookup_insert_if, if_true, Option.getD_some]
    by_cases same : other = wanted
    · rw [same, own, met]
      simp only [if_true]
      exact ⟨rfl, rfl, rfl⟩
    · rw [elsewhere other same]
      simp only [if_neg same]
      exact ⟨groups other, roots other, trivial⟩
  | cons first rest =>
    have known : grouping.groups.lookup wanted = some (label first, countsOf (first :: rest)) := by rw [groups, met]; rfl
    have knownRoots : grouping.roots.lookup wanted = some (rootsOf (first :: rest)) := by rw [roots, met]; rfl
    have knownAmount : grouping.amounts.lookup wanted = some (amountOf (first :: rest)) := by rw [amounts, met]; rfl
    unfold Grouping.taken Grouping.opened
    simp only [known, Grouping.withRoot, Grouping.counted, lookup_insert_if, knownRoots, Option.getD_some]
    by_cases same : other = wanted
    · rw [same, own, met]
      simp only [if_true]
      rw [countsOf_snoc, rootsOf_snoc]
      exact ⟨rfl, rfl, knownAmount⟩
    · rw [elsewhere other same]
      simp only [if_neg same]
      exact ⟨groups other, roots other, trivial⟩

theorem Holds.unpriced {grouping : Grouping L} (holds : Holds key label entries grouping) {entry : LedgerEntry} {wanted : Text}
    (here : key entry = some wanted) (worthless : valueOf entry = 0) :
    Holds key label (entries ++ [entry]) (grouping.taken wanted (label entry) entry) := by
  have taken := holds.taken here
  constructor
  case groups => exact fun other => (taken other).1
  case roots => exact fun other => (taken other).2.1
  case amounts =>
    intro other
    rw [(taken other).2.2]
    by_cases same : other = wanted
    · rw [if_pos same, same, group_here here, amountOf_snoc, worthless, Rat.add_zero]
      cases group key entries (some wanted) <;> rfl
    · rw [if_neg same, group_elsewhere (by rw [here]; exact fun contra => same (Option.some.inj contra).symm)]
      exact holds.amounts other

theorem Holds.priced {grouping : Grouping L} (holds : Holds key label entries grouping) {entry : LedgerEntry} {wanted : Text}
    (here : key entry = some wanted) :
    Holds key label (entries ++ [entry]) ((grouping.taken wanted (label entry) entry).withAmount wanted (valueOf entry)) := by
  have taken := holds.taken here
  constructor
  case groups => exact fun other => (taken other).1
  case roots => exact fun other => (taken other).2.1
  case amounts =>
    intro other
    rw [Grouping.withAmount, lookup_insert_if, (taken wanted).2.2, if_pos rfl, Option.getD_some, (taken other).2.2]
    by_cases same : other = wanted
    · rw [if_pos same, same, group_here here, amountOf_snoc]
      cases group key entries (some wanted) <;> rfl
    · rw [if_neg same, if_neg same, group_elsewhere (by rw [here]; exact fun contra => same (Option.some.inj contra).symm)]
      exact holds.amounts other

end

/-- What `recordBilling` writes: a provider that prices know, or none, and an amount of nine decimals. -/
structure Stored (entry : LedgerEntry) : Prop where
  provider : '/' ∉ entry.provider
  amount : entry.reason = pricedReason → ∃ value, Exact value ∧ setString entry.amountUSD = some value

structure Sums (current : Option (List Text)) (entries : List LedgerEntry) (running : Running) : Prop where
  total : running.total = amountOf entries
  roots : running.roots = rootsOf entries
  counts : running.counts = countsOf entries
  models : Holds (fun entry => some (modelKey entry)) (fun entry => (entry.provider, entry.model)) entries running.models
  services : Holds (fun entry => some entry.serviceID) LedgerEntry.serviceID entries running.services
  tokens : Holds (tokenKey current) (fun entry => (tokenKey current entry).getD []) entries running.tokens

theorem Sums.start (current : Option (List Text)) : Sums current [] Running.start :=
  ⟨rfl, rfl, rfl, Holds.none, Holds.none, Holds.none⟩

variable {entries : List LedgerEntry}

section
variable (other : Text → Option Rat)

theorem visit_sums {current : Option (List Text)} {running : Running} (sums : Sums current entries running)
    (stored : Stored entry) :
    ∃ next, visit other current running entry = .ok next ∧ Sums current (entries ++ [entry]) next := by
  by_cases priced : entry.reason = pricedReason
  · obtain ⟨value, -, read⟩ := stored.amount priced
    have worth : valueOf entry = value := by rw [valueOf, if_pos priced, read]; rfl
    have reads : readUSD other entry.amountUSD = some value := by rw [readUSD, read]; rfl
    refine ⟨_, by rw [visit]; simp only [if_pos priced, reads]; rfl, ?_⟩
    constructor
    case total => exact (congrArg₂ _ sums.total worth.symm).trans (amountOf_snoc entries entry).symm
    case roots => exact (congrArg (addRoot · entry.rootID) sums.roots).trans (rootsOf_snoc entries entry).symm
    case counts => exact (congrArg (Counts.add · entry) sums.counts).trans (countsOf_snoc entries entry).symm
    case models =>
      have models := @Holds.priced _ _ _ _ _ sums.models entry (modelKey entry) rfl
      rw [worth] at models
      exact models
    case services =>
      have services := @Holds.priced _ _ _ _ _ sums.services entry entry.serviceID rfl
      rw [worth] at services
      exact services
    case tokens =>
      cases named : tokenKey current entry with
      | none => exact sums.tokens.passed named
      | some id =>
        have tokens := sums.tokens.priced named
        rw [worth, named] at tokens
        exact tokens
  · have worthless : valueOf entry = 0 := if_neg priced
    refine ⟨_, by rw [visit]; simp only [if_neg priced]; rfl, ?_⟩
    constructor
    case total =>
      rw [amountOf_snoc, worthless, Rat.add_zero]
      exact sums.total
    case roots => exact (congrArg (addRoot · entry.rootID) sums.roots).trans (rootsOf_snoc entries entry).symm
    case counts => exact (congrArg (Counts.add · entry) sums.counts).trans (countsOf_snoc entries entry).symm
    case models => exact @Holds.unpriced _ _ _ _ _ sums.models entry (modelKey entry) rfl worthless
    case services => exact @Holds.unpriced _ _ _ _ _ sums.services entry entry.serviceID rfl worthless
    case tokens =>
      cases named : tokenKey current entry with
      | none => exact sums.tokens.passed named
      | some id =>
        have tokens := sums.tokens.unpriced named worthless
        rw [named] at tokens
        exact tokens

theorem loop_sums {current : Option (List Text)} {seen : List LedgerEntry} {running : Running}
    (sums : Sums current seen running) (stored : ∀ entry ∈ entries, Stored entry) :
    ∃ last, entries.foldlM (visit other current) running = .ok last ∧ Sums current (seen ++ entries) last := by
  induction entries generalizing seen running with
  | nil => exact ⟨running, rfl, by rw [append_nil]; exact sums⟩
  | cons entry entries ih =>
    obtain ⟨next, visited, sums⟩ := visit_sums other sums (stored entry mem_cons_self)
    obtain ⟨last, rest, sums⟩ := ih sums fun later listed => stored later (mem_cons_of_mem _ listed)
    refine ⟨last, ?_, by rw [List.append_assoc] at sums; exact sums⟩
    rw [foldlM_cons, visited]
    exact rest

end

/-! ### Groups share the entries out -/

def worth (amounts : Amounts) : Rat := (setString amounts.amountUSD).getD 0

/-- The figures are those of the entries. -/
structure Describes (entries : List LedgerEntry) (amounts : Amounts) : Prop where
  amountUSD : amounts.amountUSD = floatString (amountOf entries)
  counts : amounts.toCounts = countsOf entries
  requests : amounts.requests = (entries.map LedgerEntry.rootID).dedup.length

/-- The amount of the whole is the exact sum of those of the parts, and so are its counts. -/
structure Adds (whole : Amounts) (parts : List Amounts) : Prop where
  read : ∀ part ∈ parts, setString part.amountUSD = some (worth part)
  amountUSD : setString whole.amountUSD = some (total (fun left right => left + right) 0 (parts.map worth))
  counts : whole.toCounts = total Counts.plus Counts.zero (parts.map Amounts.toCounts)

/-- Each entry is in one group, whose figures are those of its entries, and the groups make up the whole. -/
structure Splits {L : Type} [DecidableEq L] (label : LedgerEntry → L) (entries : List LedgerEntry) (whole : Amounts)
    (groups : List (L × Amounts)) : Prop where
  distinct : (groups.map Prod.fst).Nodup
  complete : ∀ entry ∈ entries, label entry ∈ groups.map Prod.fst
  describes : ∀ group ∈ groups, Describes (entries.filter fun entry => label entry = group.1) group.2
  adds : Adds whole (groups.map Prod.snd)

theorem Describes.figures (entries : List LedgerEntry) : Describes entries (figures entries) :=
  ⟨rfl, rfl, rootsOf_length entries⟩

theorem exact_amount (stored : ∀ entry ∈ entries, Stored entry) : Exact (amountOf entries) := by
  induction entries with
  | nil => exact Exact.zero
  | cons entry entries ih =>
    have rest := ih fun other listed => stored other (mem_cons_of_mem _ listed)
    have first : Exact (valueOf entry) := by
      unfold valueOf
      by_cases priced : entry.reason = pricedReason
      · obtain ⟨value, exact_value, read⟩ := (stored entry mem_cons_self).amount priced
        rw [if_pos priced, read]
        exact exact_value
      · rw [if_neg priced]
        exact Exact.zero
    exact first.add rest

theorem Describes.read (stored : ∀ entry ∈ entries, Stored entry) {amounts : Amounts}
    (describes : Describes entries amounts) : setString amounts.amountUSD = some (amountOf entries) := by
  rw [describes.amountUSD, setString_floatString (exact_amount stored)]

theorem Describes.worth (stored : ∀ entry ∈ entries, Stored entry) {amounts : Amounts}
    (describes : Describes entries amounts) : BillingSummaries.worth amounts = amountOf entries := by
  rw [BillingSummaries.worth, describes.read stored]
  rfl

section
variable {L : Type} {key : LedgerEntry → Option Text} {label : LedgerEntry → L} {entries : List LedgerEntry}

theorem mem_group {wanted : Option Text} :
    entry ∈ group key entries wanted ↔ entry ∈ entries ∧ key entry = wanted := by
  rw [group, mem_filter, decide_eq_true_eq]

def listing (key : LedgerEntry → Option Text) (label : LedgerEntry → L) (entries : List LedgerEntry) (wanted : Text) :
    Option (L × Amounts) :=
  (group key entries (some wanted)).head?.map fun first => (label first, figures (group key entries (some wanted)))

theorem Holds.listed {grouping : Grouping L} (holds : Holds key label entries grouping) (arrange : List Text → List Text) :
    grouping.listed arrange = (arrange grouping.groups.keys).filterMap (listing key label entries) := by
  unfold Grouping.listed
  congr 1
  funext wanted
  rw [holds.groups, holds.amounts, holds.roots, listing]
  cases group key entries (some wanted) <;> rfl

theorem listing_some {wanted : Text} {listed : L × Amounts} (found : listing key label entries wanted = some listed) :
    ∃ first ∈ entries, key first = some wanted ∧ listed = (label first, figures (group key entries (some wanted))) := by
  obtain ⟨first, head, rfl⟩ := Option.map_eq_some_iff.mp found
  obtain ⟨member, here⟩ := mem_group.mp (mem_of_head? head)
  exact ⟨first, member, here, rfl⟩

theorem map_listing {M : Type} (measure : Amounts → M) {keys : List Text}
    (met : ∀ wanted ∈ keys, group key entries (some wanted) ≠ []) :
    (keys.filterMap (listing key label entries)).map (fun listed => measure listed.2) =
      keys.map fun wanted => measure (figures (group key entries (some wanted))) := by
  induction keys with
  | nil => rfl
  | cons wanted keys ih =>
    have rest := ih fun other listed => met other (mem_cons_of_mem _ listed)
    cases some_entry : group key entries (some wanted) with
    | nil => exact absurd some_entry (met wanted mem_cons_self)
    | cons first others =>
      have listed : listing key label entries wanted = some (label first, figures (first :: others)) := by
        rw [listing, some_entry]
        rfl
      rw [filterMap_cons_some listed, map_cons, map_cons, rest, some_entry]

theorem Holds.splits [DecidableEq L] {grouping : Grouping L} (holds : Holds key label entries grouping)
    (keyed : ∀ entry ∈ entries, ∃ wanted, key entry = some wanted)
    (same : ∀ entry ∈ entries, ∀ other ∈ entries, key entry = key other ↔ label entry = label other)
    (stored : ∀ entry ∈ entries, Stored entry) {arrange : List Text → List Text} (arranged : ∀ keys, (arrange keys).Perm keys)
    {whole : Amounts} (describes : Describes entries whole) : Splits label entries whole (grouping.listed arrange) := by
  have nodup : (arrange grouping.groups.keys).Nodup := (arranged _).nodup_iff.mpr grouping.groups.keys_nodup
  have mem : ∀ wanted, wanted ∈ arrange grouping.groups.keys ↔ group key entries (some wanted) ≠ [] := by
    intro wanted
    rw [(arranged _).mem_iff, ← AList.mem_keys, ← AList.lookup_isSome, holds.groups]
    cases group key entries (some wanted) <;> simp
  have part_stored : ∀ wanted, ∀ entry ∈ group key entries (some wanted), Stored entry := fun wanted entry listed =>
    stored entry (mem_group.mp listed).1
  have covers : ∀ entry ∈ entries, key entry ∈ (arrange grouping.groups.keys).map some := by
    intro entry listed
    obtain ⟨wanted, here⟩ := keyed entry listed
    rw [here, mem_map_of_injective (Option.some_injective _), mem]
    exact ne_nil_of_mem (mem_group.mpr ⟨listed, here⟩)
  have nodup' : ((arrange grouping.groups.keys).map some).Nodup := nodup.map (Option.some_injective _)
  have met : ∀ wanted ∈ arrange grouping.groups.keys, group key entries (some wanted) ≠ [] := fun wanted => (mem wanted).mp
  rw [holds.listed]
  constructor
  case distinct =>
    rw [List.Nodup, pairwise_map, pairwise_filterMap]
    refine nodup.imp fun {wanted other} apart listed found listed' found' contra => apart ?_
    obtain ⟨first, member, here, rfl⟩ := listing_some found
    obtain ⟨first', member', here', rfl⟩ := listing_some found'
    have keys := (same first member first' member').mpr contra
    rw [here, here'] at keys
    exact Option.some.inj keys
  case complete =>
    intro entry listed
    obtain ⟨wanted, here⟩ := keyed entry listed
    have held : entry ∈ group key entries (some wanted) := mem_group.mpr ⟨listed, here⟩
    have shown : wanted ∈ arrange grouping.groups.keys := (mem wanted).mpr (ne_nil_of_mem held)
    cases first_entry : (group key entries (some wanted)).head? with
    | none => exact absurd (head?_eq_none_iff.mp first_entry) (ne_nil_of_mem held)
    | some first =>
      obtain ⟨member, here'⟩ := mem_group.mp (mem_of_head? first_entry)
      have found : listing key label entries wanted = some (label first, figures (group key entries (some wanted))) := by
        rw [listing, first_entry]
        rfl
      rw [(same entry listed first member).mp (here.trans here'.symm)]
      exact mem_map.mpr ⟨_, mem_filterMap.mpr ⟨wanted, shown, found⟩, rfl⟩
  case describes =>
    intro listed member
    obtain ⟨wanted, -, found⟩ := mem_filterMap.mp member
    obtain ⟨first, held, here, rfl⟩ := listing_some found
    have alike : entries.filter (fun entry => label entry = label first) = group key entries (some wanted) := by
      apply filter_congr
      intro entry listed
      rw [← here]
      exact decide_eq_decide.mpr (same entry listed first held).symm
    dsimp only
    rw [alike]
    exact Describes.figures _
  case adds =>
    constructor
    case read =>
      intro part listed
      obtain ⟨one, member, rfl⟩ := mem_map.mp listed
      obtain ⟨wanted, -, found⟩ := mem_filterMap.mp member
      obtain ⟨first, -, -, rfl⟩ := listing_some found
      have figured := Describes.figures (group key entries (some wanted))
      exact (figured.read (part_stored wanted)).trans (congrArg some (figured.worth (part_stored wanted)).symm)
    case amountUSD =>
      have parts := @map_listing _ key label entries _ worth _ met
      have each : ((arrange grouping.groups.keys).map fun wanted => worth (figures (group key entries (some wanted)))) =
          ((arrange grouping.groups.keys).map some).map fun wanted => amountOf (group key entries wanted) := by
        rw [map_map]
        exact map_congr_left fun wanted _ => (Describes.figures _).worth (part_stored wanted)
      rw [map_map, describes.read stored]
      change some _ = some (total _ _ (List.map (fun listed : L × Amounts => worth listed.2) _))
      rw [parts, each]
      exact congrArg some (total_groups amount_totals nodup' key valueOf covers).symm
    case counts =>
      have parts := @map_listing _ key label entries _ Amounts.toCounts _ met
      have each : ((arrange grouping.groups.keys).map fun wanted => (figures (group key entries (some wanted))).toCounts) =
          ((arrange grouping.groups.keys).map some).map fun wanted => countsOf (group key entries wanted) := by
        rw [map_map]
        rfl
      rw [map_map, describes.counts]
      change _ = total _ _ (List.map (fun listed : L × Amounts => listed.2.toCounts) _)
      rw [parts, each]
      exact (total_groups counts_totals nodup' key Counts.zero.add covers).symm

end

theorem Splits.perm {L : Type} [DecidableEq L] {label : LedgerEntry → L} {entries : List LedgerEntry} {whole : Amounts}
    {groups others : List (L × Amounts)} (splits : Splits label entries whole groups) (perm : others.Perm groups) :
    Splits label entries whole others := by
  have labels := perm.map Prod.fst
  have parts := perm.map Prod.snd
  constructor
  case distinct => exact labels.nodup_iff.mpr splits.distinct
  case complete => exact fun entry listed => labels.mem_iff.mpr (splits.complete entry listed)
  case describes => exact fun group listed => splits.describes group (perm.mem_iff.mp listed)
  case adds =>
    constructor
    case read => exact fun part listed => splits.adds.read part (parts.mem_iff.mp listed)
    case amountUSD => rw [splits.adds.amountUSD, total_perm amount_totals (parts.map worth)]
    case counts => rw [splits.adds.counts, total_perm counts_totals (parts.map Amounts.toCounts)]

/-! ### The summary -/

theorem modelKey_iff {other : LedgerEntry} (stored : Stored entry) (stored' : Stored other) :
    some (modelKey entry) = some (modelKey other) ↔ (entry.provider, entry.model) = (other.provider, other.model) := by
  have parts : ∀ {front front' back back' : Text}, '/' ∉ front → '/' ∉ front' →
      front ++ '/' :: back = front' ++ '/' :: back' → front = front' ∧ back = back' := by
    intro front
    induction front with
    | nil =>
      rintro (_ | ⟨char, front'⟩) back back' - plain same
      · exact ⟨rfl, (List.cons.inj same).2⟩
      · exact absurd (mem_cons.mpr (.inl (List.cons.inj same).1)) plain
    | cons char front ih =>
      rintro (_ | ⟨char', front'⟩) back back' plain plain' same
      · exact absurd (mem_cons.mpr (.inl (List.cons.inj same).1.symm)) plain
      · obtain ⟨rfl, tails⟩ := List.cons.inj same
        obtain ⟨rfl, rfl⟩ := ih (fun contra => plain (mem_cons_of_mem _ contra))
          (fun contra => plain' (mem_cons_of_mem _ contra)) tails
        exact ⟨rfl, rfl⟩
  rw [Option.some_inj, Prod.mk.injEq]
  constructor
  · exact fun same => parts stored.provider stored'.provider same
  · rintro ⟨provider, model⟩
    rw [modelKey, modelKey, provider, model]

/-- A range that a summary is given for. -/
def IsRange (start stop : Nat) : Prop := 0 < start ∧ start < stop ∧ stop - start ≤ maxBillingRange

section
variable (other : Text → Option Rat)

theorem summary_made {arrange : List Text → List Text} {ledger : List LedgerEntry} (stored : ∀ entry ∈ ledger, Stored entry)
    (serviceID account : Text) {start stop : Nat} (range : IsRange start stop) (current : Option (List Text)) :
    ∃ running summary, Sums current (ledger.filter (selects serviceID account start stop)) running ∧
      BillingSummary other arrange ledger serviceID account start stop current = .ok summary ∧
      summary.amounts = figures (ledger.filter (selects serviceID account start stop)) ∧
      (summary.byModel.map fun group => ((group.provider, group.model), group.amounts)).Perm (running.models.listed arrange) ∧
      (summary.byService.map fun group => (group.serviceID, group.amounts)).Perm (running.services.listed arrange) := by
  obtain ⟨positive, later, short⟩ := range
  have kept : ∀ entry ∈ ledger.filter (selects serviceID account start stop), Stored entry := fun entry listed =>
    stored entry (mem_filter.mp listed).1
  obtain ⟨running, looped, sums⟩ := loop_sums other (Sums.start current) kept
  rw [nil_append] at sums
  have proper : ¬ (start = 0 ∨ stop ≤ start ∨ maxBillingRange < stop - start) := by omega
  refine ⟨running, _, sums, by rw [BillingSummary, if_neg proper, looped]; rfl, ?_, ?_, ?_⟩
  · rw [figures, ← sums.total, ← sums.roots, ← sums.counts]
  · refine ((perm_insertionSort _ _).map _).trans ?_
    rw [map_map]
    exact Perm.of_eq (map_id _)
  · refine ((perm_insertionSort _ _).map _).trans ?_
    rw [map_map]
    exact Perm.of_eq (map_id _)

theorem figures_meet {ledger : List LedgerEntry} (stored : ∀ entry ∈ ledger, Stored entry) (serviceID account : Text)
    {start mid stop : Nat} (first : start < mid) (second : mid < stop) :
    Adds (figures (ledger.filter (selects serviceID account start stop)))
      [figures (ledger.filter (selects serviceID account start mid)),
        figures (ledger.filter (selects serviceID account mid stop))] := by
  have shares : ∀ entry, selects serviceID account start stop entry =
      (selects serviceID account start mid entry ^^ selects serviceID account mid stop entry) := by
    intro entry
    unfold selects
    generalize (serviceID == [] || entry.serviceID == serviceID) = service
    generalize (account == [] || entry.accountKey == account) = key
    rcases Nat.lt_or_ge entry.startedAt mid with early | late
    · simp [early, Nat.not_le.mpr early, Nat.lt_trans early second]
    · simp [late, Nat.not_lt.mpr late, Nat.le_trans (Nat.le_of_lt first) late]
  have apart : ∀ entry, selects serviceID account start mid entry = true → selects serviceID account mid stop entry = false := by
    intro entry early
    unfold selects at early ⊢
    simp only [Bool.and_eq_true, decide_eq_true_eq] at early
    simp [Nat.not_le.mpr early.1.1.2]
  have kept : ∀ low high, ∀ entry ∈ ledger.filter (selects serviceID account low high), Stored entry := fun _ _ entry listed =>
    stored entry (mem_filter.mp listed).1
  have amounts := total_parts amount_totals valueOf shares apart ledger
  have worths : ∀ low high, worth (figures (ledger.filter (selects serviceID account low high))) =
      amountOf (ledger.filter (selects serviceID account low high)) := fun low high =>
    (Describes.figures _).worth (kept low high)
  constructor
  case read =>
    intro part listed
    rcases mem_cons.mp listed with rfl | listed
    · rw [worths, (Describes.figures _).read (kept _ _)]
    · rw [mem_singleton.mp listed, worths, (Describes.figures _).read (kept _ _)]
  case amountUSD =>
    rw [(Describes.figures _).read (kept _ _), map_cons, map_cons, map_nil, worths, worths]
    exact congrArg some (amounts.trans (congrArg _ (Rat.add_zero _).symm))
  case counts =>
    have counts := total_parts counts_totals Counts.zero.add shares apart ledger
    exact counts.trans (congrArg _ (counts_totals.op_unit _).symm)

/-- Summaries add up, over their groups and over ranges that meet. -/
theorem billing_summary {arrange : List Text → List Text} (arranged : ∀ keys, (arrange keys).Perm keys)
    {ledger : List LedgerEntry} (stored : ∀ entry ∈ ledger, Stored entry) (serviceID account : Text) {start stop : Nat}
    (range : IsRange start stop) (current : Option (List Text)) :
    ∃ summary, BillingSummary other arrange ledger serviceID account start stop current = .ok summary ∧
      Describes (ledger.filter (selects serviceID account start stop)) summary.amounts ∧
      Splits (fun entry => (entry.provider, entry.model)) (ledger.filter (selects serviceID account start stop)) summary.amounts
        (summary.byModel.map fun group => ((group.provider, group.model), group.amounts)) ∧
      Splits LedgerEntry.serviceID (ledger.filter (selects serviceID account start stop)) summary.amounts
        (summary.byService.map fun group => (group.serviceID, group.amounts)) ∧
      ∀ mid, start < mid → mid < stop → ∃ first second,
        BillingSummary other arrange ledger serviceID account start mid current = .ok first ∧
        BillingSummary other arrange ledger serviceID account mid stop current = .ok second ∧
        Adds summary.amounts [first.amounts, second.amounts] := by
  have kept : ∀ entry ∈ ledger.filter (selects serviceID account start stop), Stored entry := fun entry listed =>
    stored entry (mem_filter.mp listed).1
  obtain ⟨running, summary, sums, made, amounts, models, services⟩ := @summary_made other arrange _ stored serviceID account _ _ range current
  have describes : Describes (ledger.filter (selects serviceID account start stop)) summary.amounts := by
    rw [amounts]
    exact Describes.figures _
  refine ⟨summary, made, describes, ?_, ?_, ?_⟩
  · refine (sums.models.splits (fun entry _ => ⟨_, rfl⟩) ?_ kept arranged describes).perm models
    exact fun entry listed other listed' => modelKey_iff (kept entry listed) (kept other listed')
  · refine (sums.services.splits (fun entry _ => ⟨_, rfl⟩) ?_ kept arranged describes).perm services
    exact fun entry _ other _ => Option.some_inj
  · intro mid later earlier
    obtain ⟨positive, -, short⟩ := range
    have front : IsRange start mid := ⟨positive, later, by omega⟩
    have back : IsRange mid stop := ⟨by omega, earlier, by omega⟩
    obtain ⟨-, first, -, made', amounts', -⟩ := @summary_made other arrange _ stored serviceID account _ _ front current
    obtain ⟨-, second, -, made'', amounts'', -⟩ := @summary_made other arrange _ stored serviceID account _ _ back current
    refine ⟨first, second, made', made'', ?_⟩
    rw [amounts, amounts', amounts'']
    exact figures_meet stored serviceID account later earlier

end

def sampleEntry (rootID serviceID provider model amountUSD : String) (startedAt : Nat) (reason : String) : LedgerEntry :=
  { rootID := rootID.toList
    serviceID := serviceID.toList
    accountKey := "account".toList
    model := model.toList
    provider := provider.toList
    startedAt
    localAccessTokenID := some "tok_laptop".toList
    amountUSD := amountUSD.toList
    reason := reason.toList
    revalued := false }

/-- A root that failed over, and one that is still pending. -/
def sampleLedger : List LedgerEntry :=
  [sampleEntry "req_1" "svc_a" "openai" "gpt-5" "0.250000000" 10 "priced",
    sampleEntry "req_1" "svc_b" "anthropic" "claude/opus" "1.500000001" 20 "priced",
    sampleEntry "req_2" "svc_b" "" "claude/opus" "0.000000000" 30 "pending"]

theorem billing_summary_sample :
    ∃ summary, BillingSummary (fun _ => none) id sampleLedger [] [] 5 40 (some ["tok_laptop".toList]) = .ok summary ∧
      Describes (sampleLedger.filter (selects [] [] 5 40)) summary.amounts ∧
      Splits (fun entry => (entry.provider, entry.model)) (sampleLedger.filter (selects [] [] 5 40)) summary.amounts
        (summary.byModel.map fun group => ((group.provider, group.model), group.amounts)) ∧
      Splits LedgerEntry.serviceID (sampleLedger.filter (selects [] [] 5 40)) summary.amounts
        (summary.byService.map fun group => (group.serviceID, group.amounts)) ∧
      ∀ mid, 5 < mid → mid < 40 → ∃ first second,
        BillingSummary (fun _ => none) id sampleLedger [] [] 5 mid (some ["tok_laptop".toList]) = .ok first ∧
        BillingSummary (fun _ => none) id sampleLedger [] [] mid 40 (some ["tok_laptop".toList]) = .ok second ∧
        Adds summary.amounts [first.amounts, second.amounts] := by
  refine billing_summary (fun _ => none) (fun keys => Perm.refl keys) ?_ [] [] ⟨by decide, by decide, by decide⟩ _
  intro entry listed
  simp only [sampleLedger, mem_cons, not_mem_nil, or_false] at listed
  rcases listed with rfl | rfl | rfl
  · exact ⟨by decide, fun _ => ⟨_, ⟨250000000, rfl⟩, by decide +kernel⟩⟩
  · exact ⟨by decide, fun _ => ⟨_, ⟨1500000001, rfl⟩, by decide +kernel⟩⟩
  · exact ⟨by decide, fun contra => absurd contra (by decide)⟩

end AstrLink.BillingSummaries
