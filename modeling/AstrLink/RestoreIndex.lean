import Mathlib.Data.Char
import Mathlib.Data.List.Sort
import AstrLink.SortedSearch
import AstrLink.SpellingStarts

/-!
The index of the restorer. At a place a sorted table is narrowed letter by letter, and only the spellings
whose start is there are matched. `indexed_restores` compares it with trying every spelling.
-/
namespace AstrLink.RestoreIndex
open IPAddress StandIns Rewriting Restoring SortedSearch List

structure RestorePrefix where
  text : Text
  spelling : Nat

def RestorePrefix.less (first second : RestorePrefix) : Bool :=
  if first.text ≠ second.text then before first.text second.text else first.spelling < second.spelling

structure RestorePrefixIndex where
  byStart : Char → List RestorePrefix

def RestorePrefixIndex.empty : RestorePrefixIndex := ⟨fun _ => []⟩

def RestorePrefixIndex.add (index : RestorePrefixIndex) (text : Text) (spelling : Nat) : RestorePrefixIndex where
  byStart char := if text.head? = some char then index.byStart char ++ [⟨text, spelling⟩] else index.byStart char

/-- Entries that tie are equal, so that every sort comes to this table. -/
def RestorePrefixIndex.sort (index : RestorePrefixIndex) : RestorePrefixIndex where
  byStart char := (index.byStart char).insertionSort fun first second => second.less first = false

/-- Adds every start of a spelling that has the guard. -/
def RestorePrefixIndex.register (guard : RestoreGuard) (index : RestorePrefixIndex) (entry : RestoreSpelling × Nat) :
    RestorePrefixIndex :=
  if entry.1.guard = guard then entry.1.prefixes.foldl (fun index text => index.add text entry.2) index else index

def newIndex (spellings : List RestoreSpelling) (guard : RestoreGuard) : RestorePrefixIndex :=
  (spellings.zipIdx.foldl (RestorePrefixIndex.register guard) .empty).sort

structure Match where
  spelling : Nat
  length : Nat

/-- The longer match is better, and of two of one length the one listed first. -/
def improve (best : Option Match) (found : Match) : Option Match :=
  match best with
  | none => some found
  | some held =>
    if held.length < found.length || found.length = held.length && found.spelling < held.spelling then some found
    else some held

/-- The best match of some entries; none when one of them is cut short by the end of the text. -/
def visit (status : Nat → MatchStatus) : List RestorePrefix → Option Match → Option (Option Match)
  | [], best => some best
  | entry :: rest, best =>
    match status entry.spelling with
    | .matchPartial => none
    | .matchFull length => visit status rest (improve best ⟨entry.spelling, length⟩)
    | .matchNone => visit status rest best

/-- Entries that end at a depth are matched, the others narrowed further. -/
def matchFrom (status : Nat → MatchStatus) (final : Bool) (depth : Nat) (entries : List RestorePrefix) (later : Text)
    (best : Option Match) : Option (Option Match) :=
  match visit status (entries.takeWhile fun entry => entry.text.length == depth) best with
  | none => none
  | some best =>
    let longer := entries.dropWhile fun entry => entry.text.length == depth
    if longer.isEmpty then some best
    else
      match later with
      -- Every entry that is left goes on behind the end of the text.
      | [] => if final then some best else none
      | char :: later => matchFrom status final (depth + 1) (narrow RestorePrefix.text depth char longer) later best

def RestorePrefixIndex.search (index : RestorePrefixIndex) (status : Nat → MatchStatus) (final : Bool) (char : Char)
    (later : Text) : Option (Option Match) :=
  matchFrom status final 1 (index.byStart char) later none

def statusAt (spellings : List RestoreSpelling) (before rest : Text) (final : Bool) (spelling : Nat) : MatchStatus :=
  spellings[spelling]?.elim .matchNone fun spelling => spelling.status before rest final

def searchGuards (spellings : List RestoreSpelling) (final : Bool) (before : Text) (char : Char) (later : Text) :
    List RestoreGuard → Option Match → Option (Option Match)
  | [], best => some best
  | guard :: guards, best =>
    if ((newIndex spellings guard).byStart char).isEmpty || !guard.allows before then
      searchGuards spellings final before char later guards best
    else
      match (newIndex spellings guard).search (statusAt spellings before (char :: later) final) final char later with
      | none => none
      | some none => searchGuards spellings final before char later guards best
      | some (some found) => searchGuards spellings final before char later guards (improve best found)

def restoreGuards : List RestoreGuard := [.restoreUnrestricted, .restoreWordStart, .restoreUnescapedBackslash]

def choiceOf (spellings : List RestoreSpelling) : Option (Option Match) → Choice Char
  | none => .hold
  | some none => .keep
  | some (some found) => .replace found.length (spellings[found.spelling]?.elim [] RestoreSpelling.value)

def indexedChoose (spellings : List RestoreSpelling) (final : Bool) (before : Text) : Text → Choice Char
  | [] => .keep
  | char :: later => choiceOf spellings (searchGuards spellings final before char later restoreGuards none)

/-- Every spelling is tried; the first one of the longest wins. -/
def referenceChoose (spellings : List RestoreSpelling) (final : Bool) (before rest : Text) : Choice Char :=
  if spellings.any fun spelling => spelling.status before rest final = .matchPartial then .hold
  else
    match longest (spellings.map fun spelling => (spelling.status before rest final, spelling.value)) with
    | some (length, value) => .replace length value
    | none => .keep

/-! ### The best match -/

def Best (Full : Nat → Nat → Prop) : Option Match → Prop
  | none => ∀ spelling length, ¬ Full spelling length
  | some found =>
    Full found.spelling found.length ∧
      ∀ spelling length, Full spelling length → length < found.length ∨ length = found.length ∧ found.spelling ≤ spelling

/-- A search that finds that a spelling is cut short, or else the best match. -/
def Settled (cut : Prop) (Full : Nat → Nat → Prop) : Option (Option Match) → Prop
  | none => cut
  | some best => ¬ cut ∧ Best Full best

variable {Full : Nat → Nat → Prop} {best : Option Match}

theorem Best.congr {Other : Nat → Nat → Prop} (holds : Best Full best)
    (same : ∀ spelling length, Full spelling length ↔ Other spelling length) : Best Other best := by
  obtain rfl : Full = Other := funext fun spelling => funext fun length => propext (same spelling length)
  exact holds

theorem Settled.congr {cut other : Prop} {Other : Nat → Nat → Prop} {search : Option (Option Match)}
    (holds : Settled cut Full search) (cuts : cut ↔ other)
    (same : ∀ spelling length, Full spelling length ↔ Other spelling length) :
    Settled other Other search := by
  cases search with
  | none => exact cuts.mp holds
  | some best => exact ⟨fun contra => holds.1 (cuts.mpr contra), holds.2.congr same⟩

theorem Best.unique {first second : Option Match} (left : Best Full first) (right : Best Full second) :
    first = second := by
  cases first with
  | none =>
    cases second with
    | none => rfl
    | some found => exact absurd right.1 (left _ _)
  | some found =>
    cases second with
    | none => exact absurd left.1 (right _ _)
    | some other =>
      obtain ⟨one, two⟩ := found
      obtain ⟨three, four⟩ := other
      have down := left.2 _ _ right.1
      have up := right.2 _ _ left.1
      dsimp only at down up
      obtain rfl : two = four := by omega
      obtain rfl : one = three := by omega
      rfl

theorem Settled.unique {cut : Prop} {first second : Option (Option Match)} (left : Settled cut Full first)
    (right : Settled cut Full second) : first = second := by
  cases first with
  | none =>
    cases second with
    | none => rfl
    | some best => exact absurd left right.1
  | some best =>
    cases second with
    | none => exact absurd right left.1
    | some other => exact congrArg some (left.2.unique right.2)

theorem Best.improve {Full More : Nat → Nat → Prop} {best : Option Match} {found : Match} (left : Best Full best)
    (right : Best More (some found)) :
    Best (fun spelling length => Full spelling length ∨ More spelling length) (improve best found) := by
  obtain ⟨here, most⟩ := right
  cases best with
  | none =>
    refine ⟨.inr here, fun spelling length full => ?_⟩
    rcases full with full | full
    · exact absurd full (left _ _)
    · exact most _ _ full
  | some held =>
    obtain ⟨own, least⟩ := left
    unfold RestoreIndex.improve
    dsimp only
    split
    · next better =>
      refine ⟨.inr here, fun spelling length full => ?_⟩
      have better : held.length < found.length ∨ found.length = held.length ∧ found.spelling < held.spelling := by simpa using better
      rcases full with full | full
      · have bound := least _ _ full
        omega
      · exact most _ _ full
    · next worse =>
      refine ⟨.inl own, fun spelling length full => ?_⟩
      have worse : ¬ (held.length < found.length ∨ found.length = held.length ∧ found.spelling < held.spelling) := by
        simpa using worse
      rcases full with full | full
      · exact least _ _ full
      · have bound := most _ _ full
        omega

theorem Best.single (found : Match) :
    Best (fun spelling length => spelling = found.spelling ∧ length = found.length) (some found) := by
  refine ⟨⟨rfl, rfl⟩, ?_⟩
  rintro spelling length ⟨rfl, rfl⟩
  exact .inr ⟨rfl, le_refl _⟩

theorem Best.empty {More : Nat → Nat → Prop} (left : Best Full best)
    (none : ∀ spelling length, ¬ More spelling length) :
    Best (fun spelling length => Full spelling length ∨ More spelling length) best := by
  refine left.congr fun spelling length => ⟨.inl, fun either => ?_⟩
  rcases either with full | more
  · exact full
  · exact absurd more (none _ _)

/-! ### Narrowing -/

def Visited (status : Nat → MatchStatus) (entries : List RestorePrefix) (Full : Nat → Nat → Prop) (spelling length : Nat) : Prop :=
  Full spelling length ∨ ∃ entry ∈ entries, entry.spelling = spelling ∧ status spelling = .matchFull length

theorem visit_settled {status : Nat → MatchStatus} {entries : List RestorePrefix} {Full : Nat → Nat → Prop} {best : Option Match}
    (holds : Best Full best) :
    Settled (∃ entry ∈ entries, status entry.spelling = .matchPartial) (Visited status entries Full) (visit status entries best) := by
  induction entries generalizing Full best with
  | nil => exact ⟨by simp, holds.congr (by simp [Visited])⟩
  | cons entry entries ih =>
    rw [visit]
    cases here : status entry.spelling with
    | matchPartial => exact ⟨entry, mem_cons_self, here⟩
    | matchNone =>
      refine (ih holds).congr ?cuts ?same
      case cuts => simp [here]
      case same =>
        intro spelling length
        refine or_congr_right ⟨fun ⟨other, listed, found⟩ => ⟨other, mem_cons_of_mem _ listed, found⟩, ?_⟩
        rintro ⟨other, listed, rfl, full⟩
        rcases mem_cons.mp listed with rfl | later
        · rw [here] at full
          cases full
        · exact ⟨other, later, rfl, full⟩
    | matchFull length =>
      refine (ih (holds.improve (.single ⟨entry.spelling, length⟩))).congr ?cuts ?same
      case cuts => simp [here]
      case same =>
        intro spelling other
        constructor
        · rintro ((full | ⟨rfl, rfl⟩) | ⟨entry, listed, found⟩)
          · exact .inl full
          · exact .inr ⟨entry, mem_cons_self, rfl, here⟩
          · exact .inr ⟨entry, mem_cons_of_mem _ listed, found⟩
        · rintro (full | ⟨entry, listed, rfl, full⟩)
          · exact .inl (.inl full)
          · rcases mem_cons.mp listed with rfl | later
            · rw [here] at full
              exact .inl (.inr ⟨rfl, (MatchStatus.matchFull.inj full).symm⟩)
            · exact .inr ⟨entry, later, rfl, full⟩

/-- An entry is cut short, in its start or behind it. -/
def Cut (status : Nat → MatchStatus) (final : Bool) (entries : List RestorePrefix) (rest : Text) : Prop :=
  ∃ entry ∈ entries, entry.text <+: rest ∧ status entry.spelling = .matchPartial ∨
    final = false ∧ rest <+: entry.text ∧ rest.length < entry.text.length

def FullIn (status : Nat → MatchStatus) (entries : List RestorePrefix) (rest : Text) (spelling length : Nat) : Prop :=
  ∃ entry ∈ entries, entry.text <+: rest ∧ entry.spelling = spelling ∧ status spelling = .matchFull length

section
variable {status : Nat → MatchStatus} {final : Bool} {entries : List RestorePrefix} {front : Text}

theorem step_settled {later : Text} {next : Option Match → Option (Option Match)}
    (sorted : Sorted RestorePrefix.text entries) (sharing : ∀ entry ∈ entries, front <+: entry.text)
    (holds : Best Full best)
    (follows : ∀ longer, longer = entries.dropWhile (fun entry => entry.text.length == front.length) → longer ≠ [] → ∀ (Full : Nat → Nat → Prop) (best : Option Match), Best Full best → Settled (Cut status final longer (front ++ later)) (fun spelling length => Full spelling length ∨ FullIn status longer (front ++ later) spelling length) (next best)) :

    Settled (Cut status final entries (front ++ later))
      (fun spelling length => Full spelling length ∨ FullIn status entries (front ++ later) spelling length)
      (match visit status (entries.takeWhile fun entry => entry.text.length == front.length) best with
        | none => none
        | some best =>
          if (entries.dropWhile fun entry => entry.text.length == front.length).isEmpty then some best else next best) := by
  have ended := mem_ended sorted sharing
  have longer := mem_longer sorted sharing
  have visited := @visit_settled status (entries.takeWhile fun entry => entry.text.length == front.length) _ _ holds
  cases found : visit status (entries.takeWhile fun entry => entry.text.length == front.length) best with
  | none =>
    rw [found] at visited
    obtain ⟨entry, listed, cut⟩ := visited
    obtain ⟨member, same⟩ := (ended entry).mp listed
    exact ⟨entry, member, .inl ⟨same ▸ prefix_append _ _, cut⟩⟩
  | some best =>
    rw [found] at visited
    obtain ⟨uncut, better⟩ := visited
    have behind : Settled (Cut status final (entries.dropWhile fun entry => entry.text.length == front.length) (front ++ later))
        (fun spelling length => Visited status (entries.takeWhile fun entry => entry.text.length == front.length) Full
          spelling length ∨ FullIn status (entries.dropWhile fun entry => entry.text.length == front.length)
          (front ++ later) spelling length)
        (if (entries.dropWhile fun entry => entry.text.length == front.length).isEmpty then some best else next best) := by
      split
      · next empty =>
        rw [List.isEmpty_iff.mp empty]
        exact ⟨by simp [Cut], better.empty (by simp [FullIn])⟩
      · next some_left => exact follows _ rfl (by simpa using some_left) _ _ better
    -- An entry ends here or is longer.
    have parts : ∀ entry ∈ entries, entry.text = front ∨
        entry ∈ entries.dropWhile fun entry => entry.text.length == front.length := by
      intro entry member
      by_cases same : entry.text = front
      · exact .inl same
      · refine .inr ((longer entry).mpr ⟨member, ?_⟩)
        exact lt_of_le_of_ne (sharing entry member).length_le fun equal => same ((sharing entry member).eq_of_length equal).symm
    refine behind.congr ?cuts ?same
    case cuts =>
      constructor
      · rintro ⟨entry, listed, cut⟩
        exact ⟨entry, ((longer entry).mp listed).1, cut⟩
      · rintro ⟨entry, member, cut⟩
        rcases parts entry member with same | listed
        · rcases cut with ⟨_, cut⟩ | ⟨_, _, short⟩
          · exact absurd ⟨entry, (ended entry).mpr ⟨member, same⟩, cut⟩ uncut
          · rw [same, length_append] at short
            omega
        · exact ⟨entry, listed, cut⟩
    case same =>
      intro spelling length
      constructor
      · rintro ((full | ⟨entry, listed, own, full⟩) | ⟨entry, listed, found⟩)
        · exact .inl full
        · obtain ⟨member, same⟩ := (ended entry).mp listed
          exact .inr ⟨entry, member, same ▸ prefix_append _ _, own, full⟩
        · exact .inr ⟨entry, ((longer entry).mp listed).1, found⟩
      · rintro (full | ⟨entry, member, begins, own, full⟩)
        · exact .inl (.inl full)
        · rcases parts entry member with same | listed
          · exact .inl (.inr ⟨entry, (ended entry).mpr ⟨member, same⟩, own, full⟩)
          · exact .inr ⟨entry, listed, begins, own, full⟩

theorem matchFrom_settled {later : Text} {Full : Nat → Nat → Prop} {best : Option Match} (sorted : Sorted RestorePrefix.text entries)
    (sharing : ∀ entry ∈ entries, front <+: entry.text) (holds : Best Full best) :
    Settled (Cut status final entries (front ++ later))
      (fun spelling length => Full spelling length ∨ FullIn status entries (front ++ later) spelling length)
      (matchFrom status final front.length entries later best) := by
  induction later generalizing front entries Full best with
  | nil =>
    rw [matchFrom]
    refine step_settled sorted sharing holds fun longer own some_left Full best holds => ?_
    have after : ∀ entry ∈ longer, front <+: entry.text ∧ front.length < entry.text.length := by
      intro entry listed
      obtain ⟨member, more⟩ := (mem_longer sorted sharing entry).mp (own ▸ listed)
      exact ⟨sharing entry member, more⟩
    have never : ∀ entry ∈ longer, ¬ entry.text <+: front ++ [] := by
      intro entry listed begins
      have most := begins.length_le
      have least := (after entry listed).2
      rw [append_nil] at most
      omega
    cases final with
    | true =>
      refine ⟨?_, holds.empty ?_⟩
      · rintro ⟨entry, listed, ⟨begins, _⟩ | ⟨contra, _⟩⟩
        · exact never entry listed begins
        · cases contra
      · rintro spelling length ⟨entry, listed, begins, _⟩
        exact never entry listed begins
    | false =>
      obtain ⟨entry, listed⟩ := exists_mem_of_ne_nil _ some_left
      exact ⟨entry, listed, .inr ⟨rfl, by simpa using after entry listed⟩⟩
  | cons char later ih =>
    rw [matchFrom]
    refine step_settled sorted sharing holds fun longer own some_left Full best holds => ?_
    have after : ∀ entry ∈ longer, front <+: entry.text ∧ front.length < entry.text.length := by
      intro entry listed
      obtain ⟨member, more⟩ := (mem_longer sorted sharing entry).mp (own ▸ listed)
      exact ⟨sharing entry member, more⟩
    have kept : Sorted RestorePrefix.text longer := own ▸ Pairwise.sublist (dropWhile_sublist _) sorted
    have narrowed := mem_narrow kept after char
    have whole : front ++ char :: later = (front ++ [char]) ++ later := by simp
    have deeper := ih (kept.narrow front.length char) (fun entry listed => ((narrowed entry).mp listed).2) holds
    rw [length_append, ← whole] at deeper
    -- What is there, or what the text ends inside, goes on with the letter.
    have goes_on : ∀ entry ∈ longer, entry.text <+: front ++ char :: later ∨ front ++ char :: later <+: entry.text →
        entry ∈ narrow RestorePrefix.text front.length char longer := by
      intro entry listed either
      have start : front ++ [char] <+: front ++ char :: later := whole ▸ prefix_append _ _
      refine (narrowed entry).mpr ⟨listed, ?_⟩
      rcases either with here | inside
      · exact prefix_of_prefix_length_le start here (by simpa using Nat.succ_le_of_lt (after entry listed).2)
      · exact start.trans inside
    rw [← own]
    refine deeper.congr ?cuts ?same
    case cuts =>
      constructor
      · rintro ⟨entry, listed, cut⟩
        exact ⟨entry, ((narrowed entry).mp listed).1, cut⟩
      · rintro ⟨entry, listed, cut⟩
        exact ⟨entry, goes_on entry listed (cut.imp And.left fun inside => inside.2.1), cut⟩
    case same =>
      refine fun spelling length => or_congr_right ⟨?_, ?_⟩
      · rintro ⟨entry, listed, found⟩
        exact ⟨entry, ((narrowed entry).mp listed).1, found⟩
      · rintro ⟨entry, listed, begins, found⟩
        exact ⟨entry, goes_on entry listed (.inl begins), begins, found⟩

end

/-! ### The tables of a request -/

variable {char : Char} {entry : RestorePrefix}

theorem mem_add {index : RestorePrefixIndex} {text : Text} {spelling : Nat} :
    entry ∈ (index.add text spelling).byStart char ↔
      entry ∈ index.byStart char ∨ entry.spelling = spelling ∧ entry.text = text ∧ entry.text.head? = some char := by
  obtain ⟨own, place⟩ := entry
  simp only [RestorePrefixIndex.add]
  split
  · next start =>
    rw [mem_append, mem_singleton, RestorePrefix.mk.injEq]
    refine or_congr_right ⟨?_, ?_⟩
    · rintro ⟨rfl, rfl⟩
      exact ⟨rfl, rfl, start⟩
    · rintro ⟨rfl, rfl, _⟩
      exact ⟨rfl, rfl⟩
  · next apart =>
    refine ⟨.inl, fun either => ?_⟩
    rcases either with there | ⟨_, rfl, start⟩
    · exact there
    · exact absurd start apart

theorem mem_register {guard : RestoreGuard} {index : RestorePrefixIndex} {item : RestoreSpelling × Nat} :
    entry ∈ (index.register guard item).byStart char ↔ entry ∈ index.byStart char ∨
      item.1.guard = guard ∧ entry.spelling = item.2 ∧ entry.text ∈ item.1.prefixes ∧ entry.text.head? = some char := by
  have added : ∀ (texts : List Text) (index : RestorePrefixIndex),
      entry ∈ (texts.foldl (fun index text => index.add text item.2) index).byStart char ↔
        entry ∈ index.byStart char ∨ entry.spelling = item.2 ∧ entry.text ∈ texts ∧ entry.text.head? = some char := by
    intro texts
    induction texts with
    | nil => simp
    | cons text texts ih =>
      intro index
      rw [foldl_cons, ih, mem_add, mem_cons]
      tauto
  unfold RestorePrefixIndex.register
  split
  · next same =>
    rw [added]
    simp [same]
  · next differ => simp [differ]

variable {spellings : List RestoreSpelling}

theorem mem_newIndex {guard : RestoreGuard} :
    entry ∈ ((newIndex spellings guard).byStart char) ↔
      ∃ spelling, spellings[entry.spelling]? = some spelling ∧ spelling.guard = guard ∧ entry.text ∈ spelling.prefixes ∧
        entry.text.head? = some char := by
  have registered : ∀ (items : List (RestoreSpelling × Nat)) (index : RestorePrefixIndex),
      entry ∈ (items.foldl (RestorePrefixIndex.register guard) index).byStart char ↔ entry ∈ index.byStart char ∨
        ∃ item ∈ items, item.1.guard = guard ∧ entry.spelling = item.2 ∧ entry.text ∈ item.1.prefixes ∧
          entry.text.head? = some char := by
    intro items
    induction items with
    | nil => simp
    | cons item items ih =>
      intro index
      rw [foldl_cons, ih, mem_register, exists_mem_cons_iff]
      tauto
  show entry ∈ List.insertionSort _ _ ↔ _
  rw [mem_insertionSort, registered]
  simp only [RestorePrefixIndex.empty, not_mem_nil, false_or]
  constructor
  · rintro ⟨⟨spelling, place⟩, listed, own, rfl, start, head⟩
    exact ⟨spelling, mem_zipIdx_iff_getElem?.mp listed, own, start, head⟩
  · rintro ⟨spelling, placed, own, start, head⟩
    exact ⟨(spelling, entry.spelling), mem_zipIdx_iff_getElem?.mpr placed, own, rfl, start, head⟩

theorem less_iff (first second : RestorePrefix) : first.less second = true ↔
    before first.text second.text = true ∨ first.text = second.text ∧ first.spelling < second.spelling := by
  unfold RestorePrefix.less
  split
  · next differ => simp [differ]
  · next same =>
    have same : first.text = second.text := not_not.mp same
    simp [same, before_irrefl]

theorem sorted_newIndex (spellings : List RestoreSpelling) (guard : RestoreGuard) (char : Char) :
    Sorted RestorePrefix.text ((newIndex spellings guard).byStart char) := by
  have total : Std.Total fun first second : RestorePrefix => second.less first = false := by
    refine ⟨fun first second => ?_⟩
    by_contra contra
    rw [not_or, Bool.not_eq_false, Bool.not_eq_false, less_iff, less_iff] at contra
    rcases contra with ⟨less | ⟨same, less⟩, less' | ⟨same', less'⟩⟩
    · have self := before_trans less less'
      rw [before_irrefl] at self
      cases self
    · rw [same', before_irrefl] at less
      cases less
    · rw [same, before_irrefl] at less'
      cases less'
    · omega
  have transitive : IsTrans RestorePrefix fun first second => second.less first = false := by
    refine ⟨fun first second third left right => ?_⟩
    simp only [← Bool.not_eq_true, less_iff, not_or, not_and, not_lt] at left right ⊢
    simp only [Bool.not_eq_true] at left right ⊢
    refine ⟨not_before_trans right.1 left.1, fun same => ?_⟩
    have equal : second.text = first.text := eq_of_not_before left.1 (same ▸ right.1)
    exact (left.2 equal).trans (right.2 (same.trans equal.symm))
  refine (pairwise_insertionSort _ _).imp fun {first second} ordered => ?_
  rw [← Bool.not_eq_true, less_iff, not_or, Bool.not_eq_true] at ordered
  exact ordered.1

/-! ### All guards -/

section
variable {spellings : List RestoreSpelling} {final : Bool} {before : Text} {char : Char} {later : Text}

def GuardedCut (spellings : List RestoreSpelling) (guards : List RestoreGuard) (final : Bool) (before rest : Text) : Prop :=
  ∃ (place : Nat) (spelling : RestoreSpelling), spellings[place]? = some spelling ∧ spelling.guard ∈ guards ∧
    spelling.status before rest final = .matchPartial

def GuardedFull (spellings : List RestoreSpelling) (guards : List RestoreGuard) (final : Bool) (before rest : Text)
    (place length : Nat) : Prop :=
  ∃ spelling, spellings[place]? = some spelling ∧ spelling.guard ∈ guards ∧
    spelling.status before rest final = .matchFull length

theorem starts_ne {spelling : RestoreSpelling} (named : spelling.body ≠ []) {start : Text} (listed : start ∈ spelling.prefixes) :
    start ≠ [] := by
  cases spelling with
  | literalSpelling | bareMarkerSpelling => exact mem_singleton.mp listed ▸ named
  | escapedMarkerSpelling =>
    obtain ⟨opened, _, rfl⟩ := mem_map.mp listed
    exact append_ne_nil_of_right_ne_nil _ named

theorem head_of_prefix {start : Text} (some : start ≠ []) (begins : start <+: char :: later ∨ char :: later <+: start) :
    start.head? = .some char := by
  cases start with
  | nil => exact absurd rfl some
  | cons first start =>
    rcases begins with begins | begins
    · exact congrArg Option.some (cons_prefix_cons.mp begins).1
    · exact congrArg Option.some (cons_prefix_cons.mp begins).1.symm

theorem statusAt_eq {place : Nat} {spelling : RestoreSpelling} (placed : spellings[place]? = some spelling) (rest : Text) :
    statusAt spellings before rest final place = spelling.status before rest final := by
  rw [statusAt, placed]
  rfl

section
variable (unmixed : ∀ spelling ∈ spellings, spelling.Unmixed) (named : ∀ spelling ∈ spellings, spelling.body ≠ [])
include unmixed named

theorem search_settled
    {guard : RestoreGuard} (allowed : guard.allows before = true) :
    Settled (GuardedCut spellings [guard] final before (char :: later)) (GuardedFull spellings [guard] final before (char :: later))
      ((newIndex spellings guard).search (statusAt spellings before (char :: later) final) final char later) := by
  have sharing : ∀ entry ∈ (newIndex spellings guard).byStart char, [char] <+: entry.text := by
    intro entry listed
    obtain ⟨_, _, _, _, head⟩ := mem_newIndex.mp listed
    obtain ⟨rest, same⟩ := head?_eq_some_iff.mp head
    exact ⟨rest, same.symm⟩
  have nothing : Best (fun _ _ => False) none := fun _ _ => not_false
  have settled := @matchFrom_settled (statusAt spellings before (char :: later) final) final _ [char] later _ _
    (sorted_newIndex spellings guard char) sharing nothing
  refine settled.congr ?cuts ?same
  case cuts =>
    constructor
    · rintro ⟨entry, listed, cut⟩
      obtain ⟨spelling, placed, own, start, _⟩ := mem_newIndex.mp listed
      refine ⟨entry.spelling, spelling, placed, mem_singleton.mpr own, ?_⟩
      rcases cut with ⟨_, cut⟩ | ⟨rfl, inside, short⟩
      · rwa [statusAt_eq placed] at cut
      · exact status_unfinished (unmixed spelling (mem_of_getElem? placed)) (own ▸ allowed) ⟨_, start, inside, short⟩
    · rintro ⟨place, spelling, placed, own, cut⟩
      have own := mem_singleton.mp own
      have filled := named spelling (mem_of_getElem? placed)
      rcases partial_started cut with ⟨start, listed, begins⟩ | ⟨open_end, start, listed, inside, short⟩
      · refine ⟨⟨start, place⟩, mem_newIndex.mpr ⟨spelling, placed, own, listed, ?_⟩, .inl ⟨begins, ?_⟩⟩
        · exact head_of_prefix (starts_ne filled listed) (.inl begins)
        · rw [statusAt_eq placed]
          exact cut
      · refine ⟨⟨start, place⟩, mem_newIndex.mpr ⟨spelling, placed, own, listed, ?_⟩, .inr ⟨open_end, inside, short⟩⟩
        exact head_of_prefix (starts_ne filled listed) (.inr inside)
  case same =>
    intro place length
    constructor
    · rintro (contra | ⟨entry, listed, _, rfl, full⟩)
      · exact contra.elim
      · obtain ⟨spelling, placed, own, _, _⟩ := mem_newIndex.mp listed
        rw [statusAt_eq placed] at full
        exact ⟨spelling, placed, mem_singleton.mpr own, full⟩
    · rintro ⟨spelling, placed, own, full⟩
      obtain ⟨start, listed, begins⟩ := status_started full
      have filled := starts_ne (named spelling (mem_of_getElem? placed)) listed
      have head := head_of_prefix filled (.inl begins)
      refine .inr ⟨⟨start, place⟩, mem_newIndex.mpr ⟨spelling, placed, mem_singleton.mp own, listed, head⟩, begins, rfl, ?_⟩
      rw [statusAt_eq placed]
      exact full

theorem skipped_settled
    {guard : RestoreGuard} (skipped : ((newIndex spellings guard).byStart char).isEmpty || !guard.allows before) :
    Settled (GuardedCut spellings [guard] final before (char :: later)) (GuardedFull spellings [guard] final before (char :: later))
      (some none) := by
  by_cases allowed : guard.allows before = true
  · have empty : (newIndex spellings guard).byStart char = [] := by simpa [allowed] using skipped
    have settled := @search_settled _ final _ char later unmixed named guard allowed
    have quiet : (newIndex spellings guard).search (statusAt spellings before (char :: later) final) final char later =
        some none := by
      rw [RestorePrefixIndex.search, empty]
      cases later <;> rfl
    rwa [quiet] at settled
  · have forbidden : guard.allows before = false := by simpa using allowed
    have silent : ∀ spelling : RestoreSpelling, spelling.guard ∈ [guard] →
        spelling.status before (char :: later) final = .matchNone :=
      fun spelling own => status_guarded (mem_singleton.mp own ▸ forbidden) _ _
    refine ⟨?_, ?_⟩
    · rintro ⟨place, spelling, _, own, cut⟩
      rw [silent spelling own] at cut
      cases cut
    · rintro place length ⟨spelling, _, own, full⟩
      rw [silent spelling own] at full
      cases full

end

theorem guardedCut_cons (guard : RestoreGuard) (guards : List RestoreGuard) (rest : Text) :
    GuardedCut spellings (guard :: guards) final before rest ↔
      GuardedCut spellings [guard] final before rest ∨ GuardedCut spellings guards final before rest := by
  simp only [GuardedCut, mem_cons, not_mem_nil, or_false, or_and_right, and_or_left, exists_or]

theorem guardedFull_cons (guard : RestoreGuard) (guards : List RestoreGuard) (rest : Text) (place length : Nat) :
    GuardedFull spellings (guard :: guards) final before rest place length ↔
      GuardedFull spellings [guard] final before rest place length ∨ GuardedFull spellings guards final before rest place length := by
  simp only [GuardedFull, mem_cons, not_mem_nil, or_false, or_and_right, and_or_left, exists_or]

theorem searchGuards_settled (unmixed : ∀ spelling ∈ spellings, spelling.Unmixed)
    (named : ∀ spelling ∈ spellings, spelling.body ≠ []) (guards : List RestoreGuard) {Full : Nat → Nat → Prop}
    {best : Option Match} (holds : Best Full best) :
    Settled (GuardedCut spellings guards final before (char :: later))
      (fun place length => Full place length ∨ GuardedFull spellings guards final before (char :: later) place length)
      (searchGuards spellings final before char later guards best) := by
  induction guards generalizing Full best with
  | nil => exact ⟨by simp [GuardedCut], holds.empty (by simp [GuardedFull])⟩
  | cons guard guards ih =>
    have follows : ∀ (found : Option Match) (next : Option Match),
        Settled (GuardedCut spellings [guard] final before (char :: later))
          (GuardedFull spellings [guard] final before (char :: later)) (some found) →
        Best (fun place length => Full place length ∨
          GuardedFull spellings [guard] final before (char :: later) place length) next →
        Settled (GuardedCut spellings (guard :: guards) final before (char :: later))
          (fun place length =>
            Full place length ∨ GuardedFull spellings (guard :: guards) final before (char :: later) place length)
          (searchGuards spellings final before char later guards next) := by
      rintro found next ⟨uncut, _⟩ better
      refine (ih better).congr ?cuts ?same
      case cuts =>
        rw [guardedCut_cons]
        exact (or_iff_right uncut).symm
      case same =>
        intro place length
        rw [or_assoc, ← guardedFull_cons]
    rw [searchGuards]
    split
    · next skipped =>
      have settled := @skipped_settled _ final _ _ later unmixed named guard skipped
      exact follows none best settled (holds.empty settled.2)
    · next tried =>
      have allowed : guard.allows before = true := by
        rw [Bool.not_eq_true, Bool.or_eq_false_iff] at tried
        simpa using tried.2
      have settled := @search_settled _ final _ char later unmixed named guard allowed
      cases found : (newIndex spellings guard).search (statusAt spellings before (char :: later) final) final char later with
      | none =>
        rw [found] at settled
        exact (guardedCut_cons ..).mpr (.inl settled)
      | some held =>
        rw [found] at settled
        cases held with
        | none => exact follows none best settled (holds.empty settled.2)
        | some other => exact follows (some other) _ settled (holds.improve settled.2)

theorem mem_restoreGuards (spelling : RestoreSpelling) : spelling.guard ∈ restoreGuards := by
  cases spelling with
  | literalSpelling | bareMarkerSpelling => simp [RestoreSpelling.guard, restoreGuards]
  | escapedMarkerSpelling escapes body value backslash => cases backslash <;> simp [RestoreSpelling.guard, restoreGuards]

end

/-! ### Every spelling at every place -/

theorem longest_best (found : List (MatchStatus × Text)) :
    ∃ best, Best (fun place length => (found[place]?.map Prod.fst) = some (.matchFull length)) best ∧
      longest found = best.map fun best => (best.length, found[best.spelling]?.elim [] Prod.snd) := by
  induction found using List.reverseRecOn with
  | nil => exact ⟨none, by simp [Best], rfl⟩
  | append_singleton found entry ih =>
    obtain ⟨best, holds, longest⟩ := ih
    have inside : ∀ held, best = some held → held.spelling < found.length := by
      rintro held rfl
      by_contra beyond
      have here : found[held.spelling]?.map Prod.fst = some (.matchFull held.length) := holds.1
      rw [getElem?_eq_none (not_lt.mp beyond)] at here
      cases here
    have kept : best.map (fun best => (best.length, (found ++ [entry])[best.spelling]?.elim [] Prod.snd)) =
        best.map fun best => (best.length, found[best.spelling]?.elim [] Prod.snd) := by
      cases best with
      | none => rfl
      | some held => simp [getElem?_append_left (inside held rfl)]
    have parts : ∀ place length, ((found ++ [entry])[place]?.map Prod.fst) = some (.matchFull length) ↔
        (found[place]?.map Prod.fst) = some (.matchFull length) ∨ place = found.length ∧ entry.1 = .matchFull length := by
      intro place length
      rw [getElem?_append]
      split
      · next earlier =>
        have apart : place ≠ found.length := by omega
        simp [apart]
      · next later =>
        rw [getElem?_eq_none (not_lt.mp later)]
        by_cases last : place = found.length
        · simp [last]
        · have beyond : 1 ≤ place - found.length := by omega
          rw [getElem?_eq_none (by simpa using beyond)]
          simp [last]
    rw [longest_snoc, longest]
    have unmoved : ∀ status, entry.1 = status → (∀ length, status ≠ .matchFull length) →
        Best (fun place length => ((found ++ [entry])[place]?.map Prod.fst) = some (.matchFull length)) best := by
      intro status own other
      refine holds.congr fun place length => ?_
      rw [parts, own]
      simp [other]
    cases status : entry.1 with
    | matchNone => exact ⟨best, unmoved _ status (by simp), kept.symm⟩
    | matchPartial => exact ⟨best, unmoved _ status (by simp), kept.symm⟩
    | matchFull length =>
      refine ⟨improve best ⟨found.length, length⟩, (holds.improve (.single ⟨found.length, length⟩)).congr ?_, ?_⟩
      · intro place other
        rw [parts, status, MatchStatus.matchFull.injEq, eq_comm (a := length)]
      · cases best with
        | none => simp [improve]
        | some held =>
          have within := inside held rfl
          have same : found[held.spelling]? = (found ++ [entry])[held.spelling]? := (getElem?_append_left within).symm
          have never : ¬ found.length < held.spelling := by omega
          by_cases longer : held.length < length
          · simp [improve, longer]
          · simp [improve, longer, never, same]

theorem reference_settled (spellings : List RestoreSpelling) (final : Bool) (before rest : Text) :
    ∃ search, Settled (GuardedCut spellings restoreGuards final before rest)
        (GuardedFull spellings restoreGuards final before rest) search ∧
      referenceChoose spellings final before rest = choiceOf spellings search := by
  have cut : (spellings.any fun spelling => spelling.status before rest final = .matchPartial) = true ↔
      GuardedCut spellings restoreGuards final before rest := by
    rw [any_eq_true]
    constructor
    · rintro ⟨spelling, listed, cut⟩
      obtain ⟨place, placed⟩ := mem_iff_getElem?.mp listed
      exact ⟨place, spelling, placed, mem_restoreGuards spelling, by simpa using cut⟩
    · rintro ⟨place, spelling, placed, _, cut⟩
      exact ⟨spelling, mem_of_getElem? placed, by simpa using cut⟩
  unfold referenceChoose
  split
  · next some_cut => exact ⟨none, cut.mp some_cut, rfl⟩
  · next uncut =>
    obtain ⟨best, holds, longest⟩ :=
      longest_best (spellings.map fun spelling => (spelling.status before rest final, spelling.value))
    refine ⟨some best, ⟨fun contra => uncut (cut.mpr contra), holds.congr fun place length => ?_⟩, ?_⟩
    · simp only [getElem?_map, Option.map_map, Option.map_eq_some_iff, Function.comp_apply]
      constructor
      · rintro ⟨spelling, placed, full⟩
        exact ⟨spelling, placed, mem_restoreGuards spelling, full⟩
      · rintro ⟨spelling, placed, _, full⟩
        exact ⟨spelling, placed, full⟩
    · rw [longest]
      cases best with
      | none => rfl
      | some found =>
        show Choice.replace _ _ = Choice.replace _ _
        rw [getElem?_map]
        cases spellings[found.spelling]? <;> rfl

theorem indexedChoose_eq (unmixed : ∀ spelling ∈ spellings, spelling.Unmixed)
    (named : ∀ spelling ∈ spellings, spelling.body ≠ []) (final : Bool) (before : Text) (char : Char) (later : Text) :
    indexedChoose spellings final before (char :: later) = referenceChoose spellings final before (char :: later) := by
  obtain ⟨search, settled, same⟩ := reference_settled spellings final before (char :: later)
  have nothing : Best (fun _ _ => False) none := fun _ _ => not_false
  have indexed := (@searchGuards_settled _ final before char later unmixed named restoreGuards _ _ nothing).congr Iff.rfl
    fun place length => Iff.of_eq (false_or _)
  rw [same, indexedChoose, indexed.unique settled]

theorem referenceChoose_full {final : Bool} {before rest output : Text} {length : Nat}
    (choice : referenceChoose spellings final before rest = .replace length output) :
    ∃ spelling ∈ spellings, spelling.status before rest final = .matchFull length := by
  unfold referenceChoose at choice
  split at choice
  · cases choice
  · split at choice
    · next best =>
      obtain ⟨rfl, rfl⟩ := Choice.replace.inj choice
      obtain ⟨spelling, listed, same⟩ := mem_map.mp (longest_mem best)
      exact ⟨spelling, listed, congrArg Prod.fst same⟩
    · cases choice

theorem referenceChoose_fits (named : ∀ spelling ∈ spellings, spelling.body ≠ []) {final : Bool}
    {before rest output : Text} {length : Nat}
    (choice : referenceChoose spellings final before rest = .replace length output) :
    0 < length ∧ length ≤ rest.length := by
  obtain ⟨spelling, listed, full⟩ := referenceChoose_full choice
  obtain ⟨inside, skipped, room, _⟩ := status_full full
  have filled := length_pos_iff.mpr (named spelling listed)
  exact ⟨by omega, inside⟩

section
variable (redactions : List Redaction) (encoding : ValueEncoding)

/-- The restorer of a request, as it searches its tables. -/
def indexedRule (final : Bool) : Rule Char where
  choose := indexedChoose (newTextRestorer redactions encoding).spellings final
  fits := by
    intro before rest length output choice
    cases rest with
    | nil => cases choice
    | cons char later =>
      rw [indexedChoose_eq unmixed_request (newTextRestorer redactions encoding).named] at choice
      exact referenceChoose_fits (newTextRestorer redactions encoding).named choice

/-- The restorer of a request that tries every spelling. -/
def referenceRule (final : Bool) : Rule Char where
  choose := referenceChoose (newTextRestorer redactions encoding).spellings final
  fits := fun _ _ _ _ choice => referenceChoose_fits (newTextRestorer redactions encoding).named choice

end

/-- What a rule makes of a text, how often it replaces and how much it holds back. -/
def restoredBy (rule : Rule Char) (input : Text) : Restored where
  text := outputs (scan rule 0 [] input).1
  count := replacements (scan rule 0 [] input).1
  hold := (scan rule 0 [] input).2.length

theorem scan_congr {first second : Rule Char}
    (same : ∀ before char later, first.choose before (char :: later) = second.choose before (char :: later)) (skip : Nat)
    (before input : Text) : scan first skip before input = scan second skip before input := by
  fun_induction scan first skip before input with
  | case1 => rfl
  | case2 before item rest skip ih => rw [scan, ih]
  | case3 before item rest choice => rw [scan, ← same, choice]
  | case4 before item rest choice pieces held found ih => rw [scan, ← same, choice, ← ih, found]
  | case5 before item rest length output choice pieces held found ih =>
    rw [scan, ← same, choice]
    dsimp only
    rw [← ih, found]

/-- The tables restore a text as the restorer does that tries every spelling of every placeholder at every place. -/
theorem indexed_restores (redactions : List Redaction) (encoding : ValueEncoding) (input : Text) (final : Bool) :
    restoredBy (indexedRule redactions encoding final) input = restoredBy (referenceRule redactions encoding final) input := by
  have same : scan (indexedRule redactions encoding final) 0 [] input = scan (referenceRule redactions encoding final) 0 [] input :=
    scan_congr (indexedChoose_eq unmixed_request (newTextRestorer redactions encoding).named final) 0 [] input
  rw [restoredBy, restoredBy, same]

def nested : List Redaction :=
  [⟨"prefix".toList, .person, "short".toList, .token⟩, ⟨"prefix-long".toList, .person, "long".toList, .token⟩]

example : restoredBy (indexedRule nested .plain false) "prefixes, prefix-long, prefix-lo".toList =
    ⟨"shortes, long, ".toList, 2, 9⟩ := by decide +kernel

end AstrLink.RestoreIndex
