import AstrLink.StreamedText

/-!
The texts a spelling starts with. A spelling matches, in full or in part, only
where one of its starts is there or is cut short by the end of the text
(`partial_iff_start`, `full_start`): the starts spell out both cases of every
letter that a match may fold (`mem_caseVariants`).
-/
namespace AstrLink.Restoring
open IPAddress StandIns Rewriting List

variable (char : Char)

theorem isUpper_iff : char.isUpper = true ↔ 65 ≤ char.toNat ∧ char.toNat ≤ 90 := by
  show decide (char.val ≥ 'A'.val ∧ char.val ≤ 'Z'.val) = true ↔ _
  simp [UInt32.le_iff_toNat_le]

theorem isLower_iff : char.isLower = true ↔ 97 ≤ char.toNat ∧ char.toNat ≤ 122 := by
  show (decide (char.val ≥ 'a'.val) && decide (char.val ≤ 'z'.val)) = true ↔ _
  simp [UInt32.le_iff_toNat_le]

theorem toNat_toLower : char.toLower.toNat = if char.isUpper then char.toNat + 32 else char.toNat := by
  show (dite (char.val ≥ 'A'.val ∧ char.val ≤ 'Z'.val) _ _ : Char).toNat = _
  by_cases upper : char.isUpper = true
  · obtain ⟨low, high⟩ := (isUpper_iff char).mp upper
    rw [if_pos upper, dif_pos (of_decide_eq_true upper)]
    show (char.val + ('a'.val - 'A'.val)).toNat = char.val.toNat + 32
    have most : char.val.toNat ≤ 90 := high
    rw [UInt32.toNat_add]
    exact Nat.mod_eq_of_lt (show char.val.toNat + 32 < 2 ^ 32 by omega)
  · rw [if_neg upper, dif_neg fun here => upper (decide_eq_true here)]

theorem toNat_toUpper : char.toUpper.toNat = if char.isLower then char.toNat - 32 else char.toNat := by
  show (dite ('a'.val ≤ char.val ∧ char.val ≤ 'z'.val) _ _ : Char).toNat = _
  have split : char.isLower = true ↔ 'a'.val ≤ char.val ∧ char.val ≤ 'z'.val := by
    show (decide (char.val ≥ 'a'.val) && decide (char.val ≤ 'z'.val)) = true ↔ _
    rw [Bool.and_eq_true, decide_eq_true_iff, decide_eq_true_iff]
  by_cases lower : char.isLower = true
  · obtain ⟨low, high⟩ := (isLower_iff char).mp lower
    rw [if_pos lower, dif_pos (split.mp lower)]
    show (char.val + ('A'.val - 'a'.val)).toNat = char.val.toNat - 32
    have least : 97 ≤ char.val.toNat := low
    have most : char.val.toNat ≤ 122 := high
    have gap : ('A'.val - 'a'.val).toNat = 2 ^ 32 - 32 := by decide
    rw [UInt32.toNat_add, gap]
    omega
  · rw [if_neg lower, dif_neg fun here => lower (split.mpr here)]

theorem toLower_eq_iff (other : Char) : other.toLower = char.toLower ↔
    other = char ∨ char.isAlpha = true ∧ other = if char.isLower then char.toUpper else char.toLower := by
  have equal : ∀ first second : Char, first = second ↔ first.toNat = second.toNat :=
    fun first second => ⟨congrArg Char.toNat, fun same => Char.toNat_inj.mp same⟩
  have alpha : char.isAlpha = (char.isUpper || char.isLower) := rfl
  rw [equal, alpha]
  by_cases lower : char.isLower = true <;> by_cases upper : char.isUpper = true <;> by_cases upper' : other.isUpper = true <;>
    simp only [equal, toNat_toLower, toNat_toUpper, lower, upper, upper', Bool.or_true, Bool.or_false, if_true, if_false,
      true_and, false_and, or_false, Bool.false_eq_true] <;>
    rw [isUpper_iff] at upper upper' <;> rw [isLower_iff] at lower <;> omega

theorem caseVariants_snoc (opened : Text) (char : Char) :
    caseVariants (opened ++ [char]) =
      (caseVariants opened).map (· ++ [char]) ++
        if char.isAlpha then (caseVariants opened).map (· ++ [if char.isLower then char.toUpper else char.toLower]) else [] := by
  rw [caseVariants, foldl_append]
  rfl

theorem mem_caseVariants (opened word : Text) : word ∈ caseVariants opened ↔ word.map Char.toLower = opened.map Char.toLower := by
  induction opened using List.reverseRecOn generalizing word with
  | nil => simp [caseVariants]
  | append_singleton opened char ih =>
    rw [caseVariants_snoc, mem_append, map_append]
    constructor
    · intro listed
      have letters : ∃ front ∈ caseVariants opened, ∃ other, word = front ++ [other] ∧ other.toLower = char.toLower := by
        rcases listed with same | flipped
        · obtain ⟨front, member, rfl⟩ := mem_map.mp same
          exact ⟨front, member, char, rfl, rfl⟩
        · split at flipped
          · next letter =>
            obtain ⟨front, member, rfl⟩ := mem_map.mp flipped
            exact ⟨front, member, _, rfl, (toLower_eq_iff char _).mpr (.inr ⟨letter, rfl⟩)⟩
          · cases flipped
      obtain ⟨front, member, other, rfl, folds⟩ := letters
      rw [map_append, (ih front).mp member]
      simp [folds]
    · intro same
      obtain ⟨front, last, rfl, start, finish⟩ := map_eq_append_iff.mp same
      obtain ⟨other, rfl, folds⟩ := map_eq_singleton_iff.mp finish
      have member := (ih front).mpr start
      rcases (toLower_eq_iff char other).mp folds with rfl | ⟨letter, rfl⟩
      · exact .inl (mem_map.mpr ⟨front, member, rfl⟩)
      · rw [if_pos letter]
        exact .inr (mem_map.mpr ⟨front, member, rfl⟩)

def folded (fold : Bool) (text : Text) : Text := if fold then text.map Char.toLower else text

theorem length_folded (fold : Bool) (text : Text) : (folded fold text).length = text.length := by
  cases fold <;> simp [folded]

theorem folded_take (fold : Bool) (text : Text) (length : Nat) : folded fold (text.take length) = (folded fold text).take length := by
  cases fold <;> simp [folded]

theorem equalASCII_iff (left right : Text) (fold : Bool) : equalASCII left right fold = true ↔ folded fold left = folded fold right := by
  cases fold <;> simp [equalASCII, folded]

theorem matchLiteral_full_iff (rest literal : Text) (fold final : Bool) (length : Nat) :
    matchLiteral rest literal fold final = .matchFull length ↔
      length = literal.length ∧ folded fold literal <+: folded fold rest := by
  constructor
  · intro full
    obtain ⟨rfl, _, same⟩ := matchLiteral_full full
    rw [equalASCII_iff, folded_take] at same
    exact ⟨rfl, same ▸ take_prefix _ _⟩
  · rintro ⟨rfl, here⟩
    have inside : literal.length ≤ rest.length := by simpa [length_folded] using here.length_le
    have same : equalASCII (rest.take literal.length) literal fold = true := by
      rw [equalASCII_iff, folded_take, prefix_iff_eq_take.mp here, length_folded]
    rw [matchLiteral, if_pos inside, if_pos same]

theorem matchLiteral_partial_iff (rest literal : Text) (fold final : Bool) :
    matchLiteral rest literal fold final = .matchPartial ↔
      final = false ∧ rest.length < literal.length ∧ folded fold rest <+: folded fold literal := by
  have start : equalASCII rest (literal.take rest.length) fold = true ↔ folded fold rest <+: folded fold literal := by
    rw [equalASCII_iff, folded_take, prefix_iff_eq_take, length_folded]
  unfold matchLiteral
  by_cases inside : literal.length ≤ rest.length
  · rw [if_pos inside]
    constructor
    · intro cut
      split at cut <;> cases cut
    · rintro ⟨-, short, -⟩
      omega
  · rw [if_neg inside, ← start]
    cases final with
    | false => simp; omega
    | true => simp

variable {rest : Text} {literals : List Text} {final : Bool}

theorem matchOneOf_none (none : matchOneOf rest literals final = .matchNone) :
    ∀ literal ∈ literals, matchLiteral rest literal true final = .matchNone := by
  induction literals with
  | nil => simp
  | cons literal literals ih =>
    rw [matchOneOf_cons] at none
    cases first : matchLiteral rest literal true final with
    | matchFull length => simp [first] at none
    | matchPartial =>
      rw [first] at none
      dsimp only at none
      cases later : matchOneOf rest literals final <;> simp [later] at none
    | matchNone =>
      rw [first] at none
      intro other listed
      rcases mem_cons.mp listed with rfl | later
      · exact first
      · exact ih none other later

theorem matchOneOf_cut (cut : matchOneOf rest literals final = .matchPartial) :
    (∃ literal ∈ literals, matchLiteral rest literal true final = .matchPartial) ∧
      ∀ literal ∈ literals, ∀ length, matchLiteral rest literal true final ≠ .matchFull length := by
  induction literals with
  | nil => cases cut
  | cons literal literals ih =>
    rw [matchOneOf_cons] at cut
    cases first : matchLiteral rest literal true final with
    | matchFull length => simp [first] at cut
    | matchPartial =>
      refine ⟨⟨literal, mem_cons_self, first⟩, ?_⟩
      rw [first] at cut
      dsimp only at cut
      intro other listed length full
      rcases mem_cons.mp listed with rfl | later
      · simp [first] at full
      · cases found : matchOneOf rest literals final with
        | matchFull length => simp [found] at cut
        | matchPartial => exact (ih found).2 other later length full
        | matchNone => simp [matchOneOf_none found other later] at full
    | matchNone =>
      rw [first] at cut
      obtain ⟨⟨held, there, found⟩, never⟩ := ih cut
      refine ⟨⟨held, mem_cons_of_mem _ there, found⟩, fun other listed length full => ?_⟩
      rcases mem_cons.mp listed with rfl | later
      · simp [first] at full
      · exact never other later length full

variable {literal : Text}

theorem PrefixFree.matchOneOf_full (free : PrefixFree literals) (final : Bool) (listed : literal ∈ literals)
    (here : folded true literal <+: folded true rest) :
    matchOneOf rest literals final = .matchFull literal.length := by
  have full := (matchLiteral_full_iff rest literal true final literal.length).mpr ⟨rfl, here⟩
  cases found : matchOneOf rest literals final with
  | matchNone => simp [matchOneOf_none found literal listed] at full
  | matchPartial => exact absurd full ((matchOneOf_cut found).2 literal listed _)
  | matchFull length =>
    obtain ⟨other, there, matched⟩ := Restoring.matchOneOf_full found
    obtain ⟨rfl, start⟩ := (matchLiteral_full_iff ..).mp matched
    rcases prefix_or_prefix_of_prefix here start with first | second
    · rw [free literal listed other there first]
    · rw [free other there literal listed second]

theorem PrefixFree.matchOneOf_cut (free : PrefixFree literals) (listed : literal ∈ literals)
    (short : rest.length < literal.length) (start : folded true rest <+: folded true literal) :
    matchOneOf rest literals false = .matchPartial := by
  have cut := (matchLiteral_partial_iff rest literal true false).mpr ⟨rfl, short, start⟩
  cases found : matchOneOf rest literals false with
  | matchNone => simp [matchOneOf_none found literal listed] at cut
  | matchPartial => rfl
  | matchFull length =>
    obtain ⟨other, there, matched⟩ := Restoring.matchOneOf_full found
    exact absurd cut (free.refused there listed matched)

def RestoreSpelling.Started (spelling : RestoreSpelling) (rest : Text) : Prop := ∃ start ∈ spelling.prefixes, start <+: rest

def RestoreSpelling.Unfinished (spelling : RestoreSpelling) (rest : Text) : Prop :=
  ∃ start ∈ spelling.prefixes, rest <+: start ∧ rest.length < start.length

variable {spelling : RestoreSpelling} {before : Text}

theorem status_guarded (guarded : spelling.guard.allows before = false) (rest : Text) (final : Bool) :
    spelling.status before rest final = .matchNone := by
  cases spelling with
  | literalSpelling placeholder value => cases guarded
  | bareMarkerSpelling body value =>
    have word : before.head?.any isASCIIAlphanumeric = true := by simpa [RestoreSpelling.guard, RestoreGuard.allows] using guarded
    simp [RestoreSpelling.status, word]
  | escapedMarkerSpelling escapes body value backslash =>
    cases backslash with
    | false => cases guarded
    | true =>
      have odd : precedingBackslashes before % 2 = 1 := by simpa [RestoreSpelling.guard, RestoreGuard.allows] using guarded
      simp [RestoreSpelling.status, odd]

theorem mem_escaped {escapes : MarkerEscapes} {body value start : Text} {backslash : Bool} :
    start ∈ (RestoreSpelling.escapedMarkerSpelling escapes body value backslash).prefixes ↔
      ∃ literal ∈ escapes.opens, ∃ opened, folded true opened = folded true literal ∧ start = opened ++ body := by
  simp only [RestoreSpelling.prefixes, MarkerEscapes.prefixes, mem_map, mem_flatMap, mem_caseVariants]
  constructor
  · rintro ⟨opened, ⟨literal, listed, folds⟩, rfl⟩
    exact ⟨literal, listed, opened, folds, rfl⟩
  · rintro ⟨literal, listed, opened, folds, rfl⟩
    exact ⟨opened, ⟨literal, listed, folds⟩, rfl⟩

theorem started_of_opened {escapes : MarkerEscapes} {body value : Text} {backslash : Bool} {opened more : Nat}
    (listed : literal ∈ escapes.opens) (opening : matchLiteral rest literal true final = .matchFull opened)
    (naming : matchLiteral (rest.drop opened) body false final = .matchFull more) :
    (RestoreSpelling.escapedMarkerSpelling escapes body value backslash).Started rest := by
  obtain ⟨rfl, here⟩ := (matchLiteral_full_iff ..).mp opening
  obtain ⟨-, there⟩ := (matchLiteral_full_iff ..).mp naming
  have variant : folded true (rest.take literal.length) = folded true literal := by
    rw [folded_take, ← length_folded true literal, ← prefix_iff_eq_take.mp here]
  refine ⟨_, mem_escaped.mpr ⟨literal, listed, _, variant, rfl⟩, ?_⟩
  rw [← take_append_drop literal.length rest,
    take_left' (by simpa [length_folded] using length_take_of_le here.length_le)]
  exact (prefix_append_right_inj _).mpr there

theorem status_started {length : Nat} (full : spelling.status before rest final = .matchFull length) :
    spelling.Started rest := by
  cases spelling with
  | literalSpelling placeholder value => exact ⟨_, mem_singleton_self _, ((matchLiteral_full_iff ..).mp full).2⟩
  | bareMarkerSpelling body value =>
    simp only [RestoreSpelling.status] at full
    split at full
    · cases full
    · obtain ⟨first, named, _⟩ := andThen_full full
      exact ⟨_, mem_singleton_self _, ((matchLiteral_full_iff ..).mp named).2⟩
  | escapedMarkerSpelling escapes body value backslash =>
    simp only [RestoreSpelling.status] at full
    split at full
    · cases full
    · obtain ⟨opened, opening, full⟩ := andThen_full full
      obtain ⟨named, there, _⟩ := andThen_full full
      obtain ⟨more, naming, _⟩ := shift_full there
      obtain ⟨literal, listed, opening⟩ := Restoring.matchOneOf_full opening
      exact started_of_opened listed opening naming

theorem andThen_cut {status : MatchStatus} {next : Nat → MatchStatus} (cut : status.andThen next = .matchPartial) :
    status = .matchPartial ∨ ∃ first, status = .matchFull first ∧ next first = .matchPartial := by
  cases status with
  | matchNone => cases cut
  | matchPartial => exact .inl rfl
  | matchFull first => exact .inr ⟨first, rfl, cut⟩

theorem shift_cut {status : MatchStatus} {skipped : Nat} (cut : status.shift skipped = .matchPartial) :
    status = .matchPartial := by
  cases status with
  | matchNone => cases cut
  | matchPartial => rfl
  | matchFull more => cases cut

theorem partial_started (cut : spelling.status before rest final = .matchPartial) :
    spelling.Started rest ∨ final = false ∧ spelling.Unfinished rest := by
  cases spelling with
  | literalSpelling placeholder value =>
    obtain ⟨open_end, short, start⟩ := (matchLiteral_partial_iff ..).mp cut
    exact .inr ⟨open_end, _, mem_singleton_self _, start, short⟩
  | bareMarkerSpelling body value =>
    simp only [RestoreSpelling.status] at cut
    split at cut
    · cases cut
    · rcases andThen_cut cut with inside | ⟨first, named, _⟩
      · obtain ⟨open_end, short, start⟩ := (matchLiteral_partial_iff ..).mp inside
        exact .inr ⟨open_end, _, mem_singleton_self _, start, short⟩
      · exact .inl ⟨_, mem_singleton_self _, ((matchLiteral_full_iff ..).mp named).2⟩
  | escapedMarkerSpelling escapes body value backslash =>
    simp only [RestoreSpelling.status] at cut
    split at cut
    · cases cut
    · rcases andThen_cut cut with inside | ⟨opened, opening, cut⟩
      · obtain ⟨⟨literal, listed, inside⟩, _⟩ := Restoring.matchOneOf_cut inside
        obtain ⟨open_end, short, start⟩ := (matchLiteral_partial_iff ..).mp inside
        have variant : folded true (rest ++ literal.drop rest.length) = folded true literal := by
          obtain ⟨tail, same⟩ := start
          have back := congrArg (List.drop rest.length) same
          rw [drop_left' (length_folded true rest)] at back
          rw [← same, back]
          simp [folded]
        refine .inr ⟨open_end, _, mem_escaped.mpr ⟨literal, listed, _, variant, rfl⟩, ?_, ?_⟩
        · rw [List.append_assoc]
          exact prefix_append _ _
        · simp only [length_append, length_drop]
          omega
      · obtain ⟨literal, listed, opening⟩ := Restoring.matchOneOf_full opening
        rcases andThen_cut cut with inside | ⟨named, there, _⟩
        · obtain ⟨rfl, here⟩ := (matchLiteral_full_iff ..).mp opening
          obtain ⟨open_end, short, start⟩ := (matchLiteral_partial_iff ..).mp (shift_cut inside)
          have variant : folded true (rest.take literal.length) = folded true literal := by
            rw [folded_take, ← length_folded true literal, ← prefix_iff_eq_take.mp here]
          refine .inr ⟨open_end, _, mem_escaped.mpr ⟨literal, listed, _, variant, rfl⟩, ?_, ?_⟩
          · nth_rewrite 1 [← take_append_drop literal.length rest]
            exact (prefix_append_right_inj _).mpr start
          · rw [length_drop] at short
            have inside : literal.length ≤ rest.length := by simpa [length_folded] using here.length_le
            simp only [length_append, length_take]
            omega
        · obtain ⟨more, naming, _⟩ := shift_full there
          exact .inl (started_of_opened listed opening naming)

theorem status_unfinished (unmixed : spelling.Unmixed) (allowed : spelling.guard.allows before = true)
    (unfinished : spelling.Unfinished rest) :
    spelling.status before rest false = .matchPartial := by
  obtain ⟨start, listed, begins, short⟩ := unfinished
  cases spelling with
  | literalSpelling placeholder value =>
    obtain rfl := mem_singleton.mp listed
    exact (matchLiteral_partial_iff ..).mpr ⟨rfl, short, begins⟩
  | bareMarkerSpelling body value =>
    obtain rfl := mem_singleton.mp listed
    have word : before.head?.any isASCIIAlphanumeric = false := by simpa [RestoreSpelling.guard, RestoreGuard.allows] using allowed
    have cut : matchLiteral rest start false false = .matchPartial := (matchLiteral_partial_iff ..).mpr ⟨rfl, short, begins⟩
    simp [RestoreSpelling.status, word, cut, MatchStatus.andThen]
  | escapedMarkerSpelling escapes body value backslash =>
    obtain ⟨literal, among, opened, folds, rfl⟩ := mem_escaped.mp listed
    have sized : opened.length = literal.length := by simpa [length_folded] using congrArg List.length folds
    have unescaped : ¬ (backslash && precedingBackslashes before % 2 = 1) = true := by
      cases backslash with
      | false => simp
      | true =>
        have even : precedingBackslashes before % 2 = 0 := by simpa [RestoreSpelling.guard, RestoreGuard.allows] using allowed
        simp [even]
    simp only [RestoreSpelling.status, if_neg unescaped]
    by_cases within : rest.length < literal.length
    · have part : rest <+: opened := by
        refine prefix_of_prefix_length_le begins (prefix_append _ _) ?_
        omega
      have start : folded true rest <+: folded true literal := folds ▸ part.map Char.toLower
      rw [PrefixFree.matchOneOf_cut unmixed.1 among within start]
      rfl
    · obtain ⟨tail, rfl⟩ : opened <+: rest := prefix_of_prefix_length_le (prefix_append _ _) begins (by omega)
      have here : folded true literal <+: folded true (opened ++ tail) := folds ▸ (prefix_append opened tail).map Char.toLower
      have cut : matchLiteral tail body false false = .matchPartial := by
        refine (matchLiteral_partial_iff ..).mpr ⟨rfl, ?_, (prefix_append_right_inj _).mp begins⟩
        simpa using short
      rw [PrefixFree.matchOneOf_full unmixed.1 false among here]
      simp only [MatchStatus.andThen]
      rw [drop_left' sized, cut]
      rfl

end AstrLink.Restoring
