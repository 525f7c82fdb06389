import Mathlib.Data.List.TakeWhile
import AstrLink.Suppressing

/-!
Findings inside a placeholder. Every part of a token marker is left alone under
every kind, whatever text stands around it (`token_span`). A part of a natural
stand-in is never taken for a part of a marker (`natural_span`), so it is left
alone only when it belongs to the reserved namespace of the finding's own kind.
-/
namespace AstrLink.Suppressing
open StandIns IPAddress List
open Normalizing (trimSpace isSpace trimSpace_solid)

variable {letters text : Text}

theorem indexAny_none (absent : ∀ other ∈ text, other ∉ letters) : indexAny letters text = none := by
  rw [indexAny, findIdx?_eq_none_iff]
  intro other member
  rw [contains_eq_mem, decide_eq_false (absent other member)]

variable {letter : Char}

theorem indexAny_at {pre : Text} (rest : Text) (absent : ∀ other ∈ pre, other ∉ letters) (present : letter ∈ letters) :
    indexAny letters (pre ++ letter :: rest) = some pre.length := by
  have before := indexAny_none absent
  have here : letters.contains letter = true := by rw [contains_eq_mem, decide_eq_true present]
  unfold indexAny at before ⊢
  rw [findIdx?_append, before, findIdx?_cons, here]
  simp

theorem lastIndexAny_at {rest : Text} (pre : Text) (absent : ∀ other ∈ rest, other ∉ letters)
    (present : letter ∈ letters) : lastIndexAny letters (pre ++ letter :: rest) = some pre.length := by
  have backwards : (pre ++ letter :: rest).reverse = rest.reverse ++ letter :: pre.reverse := by simp
  have missing : ∀ other ∈ rest.reverse, other ∉ letters := fun other member => absent other (mem_reverse.mp member)
  rw [lastIndexAny, backwards, indexAny_at _ missing present, Option.map_some, length_append, length_cons,
    length_reverse]
  exact congrArg some (by omega)

theorem indexAny_cases (letters text : Text) :
    (∀ other ∈ text, other ∉ letters) ∨
      ∃ pre letter rest, text = pre ++ letter :: rest ∧ letter ∈ letters ∧ ∀ other ∈ pre, other ∉ letters := by
  induction text with
  | nil => exact .inl fun other member => by cases member
  | cons first text ih =>
    by_cases here : first ∈ letters
    · exact .inr ⟨[], first, text, rfl, here, fun other member => by cases member⟩
    · rcases ih with absent | ⟨pre, letter, rest, rfl, present, absent⟩
      · exact .inl (forall_mem_cons.mpr ⟨here, absent⟩)
      · exact .inr ⟨first :: pre, letter, rest, rfl, present, forall_mem_cons.mpr ⟨here, absent⟩⟩

theorem lastIndexAny_cases (letters text : Text) :
    (∀ other ∈ text, other ∉ letters) ∨
      ∃ pre letter rest, text = pre ++ letter :: rest ∧ letter ∈ letters ∧ ∀ other ∈ rest, other ∉ letters := by
  rcases indexAny_cases letters text.reverse with absent | ⟨pre, letter, rest, whole, present, absent⟩
  · exact .inl fun other member => absent other (mem_reverse.mpr member)
  · refine .inr ⟨rest.reverse, letter, pre.reverse, ?_, present, fun other member => absent other (mem_reverse.mp member)⟩
    have turned := congrArg List.reverse whole
    simpa using turned

theorem lastIndexAny_none (absent : ∀ other ∈ text, other ∉ letters) :
    lastIndexAny letters text = none := by
  rw [lastIndexAny, indexAny_none fun other member => absent other (mem_reverse.mp member)]
  rfl

theorem index_self (some_letter : text ≠ []) : index text text = some 0 := by
  cases text with
  | nil => exact absurd rfl some_letter
  | cons letter rest => rw [index, if_pos (List.isPrefixOf_iff_prefix.mpr (prefix_refl _))]

theorem isTokenPlaceholderSpan_solid {start finish : Nat} (inside : finish ≤ text.length)
    (some_letter : start < finish) (solid : ∀ letter ∈ (text.take finish).drop start, isSpace letter.toNat = false) :
    isTokenPlaceholderSpan text start finish = isMarkerSpan text start finish := by
  have length : ((text.take finish).drop start).length = finish - start := by
    rw [length_drop, length_take, Nat.min_eq_left inside]
  have covered : (text.take finish).drop start ≠ [] := by
    intro empty
    rw [empty, length_nil] at length
    omega
  have outside : ¬ (text.length < finish ∨ finish ≤ start) := by omega
  unfold isTokenPlaceholderSpan
  rw [if_neg outside]
  dsimp only
  rw [trimSpace_solid solid, if_neg covered, index_self covered, length]
  congr 1
  exact Nat.add_sub_cancel' (Nat.le_of_lt some_letter)

section
variable {pre inner post : Text} {from_ to_ : Nat}

theorem openingOf_marker (plain : ∀ letter ∈ inner, letter ∉ brackets) (inside : from_ < inner.length + 2) :
    openingOf (pre ++ '<' :: (inner ++ '>' :: post)) (pre.length + from_) = some pre.length := by
  unfold openingOf
  cases from_ with
  | zero =>
    rw [Nat.add_zero, getElem?_append_right (Nat.le_refl _), Nat.sub_self]
    exact if_pos rfl
  | succ from_ =>
    have here : (pre ++ '<' :: (inner ++ '>' :: post))[pre.length + (from_ + 1)]? ≠ some '<' := by
      rw [getElem?_append_right (Nat.le_add_right _ _), Nat.add_sub_cancel_left, getElem?_cons_succ]
      by_cases within : from_ < inner.length
      · rw [getElem?_append_left within]
        intro same
        exact plain '<' (mem_of_getElem? same) mem_cons_self
      · obtain rfl : from_ = inner.length := by omega
        rw [getElem?_append_right (Nat.le_refl _), Nat.sub_self]
        exact fun same => by cases same
    have before : (pre ++ '<' :: (inner ++ '>' :: post)).take (pre.length + (from_ + 1)) =
        pre ++ '<' :: inner.take from_ := by
      rw [take_length_add_append, take_succ_cons, take_append_of_le_length (by omega)]
    rw [if_neg here, before]
    exact lastIndexAny_at pre (fun other member => plain other (mem_of_mem_take member)) mem_cons_self

theorem isMarkerSpan_marker (plain : ∀ letter ∈ inner, letter ∉ brackets) (some_letter : from_ < to_)
    (inside : to_ ≤ inner.length + 2) :
    isMarkerSpan (pre ++ '<' :: (inner ++ '>' :: post)) (pre.length + from_) (pre.length + to_) =
      if from_ = 0 ∧ to_ = inner.length + 2 then isTokenPlaceholder ('<' :: (inner ++ ['>']))
      else isMarkerName (markerName ('<' :: (inner ++ ['>']))) := by
  have opens : (pre ++ '<' :: (inner ++ '>' :: post))[pre.length]? = some '<' := by
    rw [getElem?_append_right (Nat.le_refl _), Nat.sub_self]
    rfl
  have after : (pre ++ '<' :: (inner ++ '>' :: post)).drop (pre.length + 1) = inner ++ '>' :: post := by
    rw [drop_length_add_append]
    rfl
  have closes : (pre ++ '<' :: (inner ++ '>' :: post))[inner.length + pre.length + 1]? = some '>' := by
    rw [getElem?_append_right (by omega), show inner.length + pre.length + 1 - pre.length = inner.length + 1 by omega,
      getElem?_cons_succ, getElem?_append_right (Nat.le_refl _), Nat.sub_self]
    rfl
  have marker : ((pre ++ '<' :: (inner ++ '>' :: post)).take (inner.length + pre.length + 1 + 1)).drop pre.length =
      '<' :: (inner ++ ['>']) := by
    have moved : pre ++ '<' :: (inner ++ '>' :: post) = pre ++ ('<' :: (inner ++ ['>']) ++ post) := by simp
    have length : inner.length + pre.length + 1 + 1 = pre.length + ('<' :: (inner ++ ['>'])).length := by
      rw [length_cons, length_append, length_singleton]
      omega
    rw [moved, length, take_length_add_append, take_left, drop_left]
  have reaches : ¬ inner.length + pre.length + 1 + 1 < pre.length + to_ := by omega
  unfold isMarkerSpan
  rw [openingOf_marker plain (by omega)]
  dsimp only
  rw [opens, if_neg (not_not.mpr rfl), after, indexAny_at post plain (mem_cons_of_mem _ mem_cons_self)]
  dsimp only
  rw [closes, marker, if_neg (by rintro (contra | contra); exacts [contra rfl, reaches contra])]
  have whole : (pre.length + from_ = pre.length ∧ pre.length + to_ = inner.length + pre.length + 1 + 1) ↔
      (from_ = 0 ∧ to_ = inner.length + 2) := by omega
  rw [if_congr whole rfl rfl]

end

variable {word : Text} {from_ : Nat}

theorem covered_part {pre post : Text} {to_ : Nat} (inside : to_ ≤ word.length) :
    ((pre ++ word ++ post).take (pre.length + to_)).drop (pre.length + from_) = (word.take to_).drop from_ := by
  rw [List.append_assoc, take_length_add_append, drop_length_add_append, take_append_of_le_length inside]

theorem isSpace_visible {code : Nat} (low : 0x21 ≤ code) (high : code ≤ 0x7E) : isSpace code = false := by
  unfold isSpace
  simp only [Bool.or_eq_false_iff, Bool.and_eq_false_iff, decide_eq_false_iff_not, beq_eq_false_iff_ne]
  omega

theorem isLowerHexDigit_code (hex : isLowerHexDigit letter = true) :
    (48 ≤ letter.toNat ∧ letter.toNat ≤ 57) ∨ (97 ≤ letter.toNat ∧ letter.toNat ≤ 102) := by
  unfold isLowerHexDigit at hex
  rcases Bool.or_eq_true_iff.mp hex with digit | small
  · unfold Char.isDigit at digit
    simp only [Bool.and_eq_true, decide_eq_true_eq] at digit
    exact .inl digit
  · simp only [Bool.and_eq_true, decide_eq_true_eq] at small
    exact .inr small

def Hex (text : Text) : Prop := ∀ letter ∈ text, isLowerHexDigit letter = true

def markerBase (kind : Kind) : Text := (replacementFor kind).tail.dropLast

variable (kind : Kind)

theorem markerBase_letters : ∀ letter ∈ markerBase kind, letter.isUpper = true ∨ letter = '_' := by
  have each : (markerBase kind).all (fun letter => letter.isUpper || letter == '_') = true := by cases kind <;> rfl
  intro letter member
  simpa using all_eq_true.mp each letter member

theorem token_shape (suffix : Text) :
    withPlaceholderSuffix (replacementFor kind) suffix = '<' :: ((markerBase kind ++ '_' :: suffix) ++ ['>']) := by
  cases kind <;> rfl

theorem isMarkerName_base : isMarkerName (markerBase kind) = true := by
  cases kind <;> decide

variable {kind : Kind} {suffix : Text}

theorem marker_letter (hex : Hex suffix) :
    ∀ letter ∈ markerBase kind ++ '_' :: suffix, letter ∉ brackets ∧ isSpace letter.toNat = false := by
  have named : ∀ letter ∈ markerBase kind, letter ∉ brackets ∧ isSpace letter.toNat = false := by
    have each : (markerBase kind).all (fun letter => !brackets.contains letter && !isSpace letter.toNat) = true := by
      cases kind <;> rfl
    intro letter member
    simpa using all_eq_true.mp each letter member
  intro letter member
  rcases mem_append.mp member with inName | after
  · exact named letter inName
  · rcases mem_cons.mp after with rfl | inSuffix
    · decide
    · have code := isLowerHexDigit_code (hex letter inSuffix)
      refine ⟨?_, isSpace_visible (by omega) (by omega)⟩
      intro bracket
      have angle : letter.toNat = 60 ∨ letter.toNat = 62 := by
        rcases mem_cons.mp bracket with rfl | close
        · exact .inl rfl
        · rw [mem_singleton.mp close]
          exact .inr rfl
      omega

theorem marker_solid (hex : Hex suffix) :
    ∀ letter ∈ '<' :: ((markerBase kind ++ '_' :: suffix) ++ ['>']), isSpace letter.toNat = false := by
  intro letter member
  rcases mem_cons.mp member with rfl | inside
  · decide
  · rcases mem_append.mp inside with inner | close
    · exact (marker_letter hex letter inner).2
    · rw [mem_singleton.mp close]
      decide

theorem takeWhile_suffix {base : Text} (hex : Hex suffix) :
    ((base ++ '_' :: suffix).reverse.takeWhile (· ≠ '_')).reverse = suffix := by
  have apart : ∀ letter ∈ suffix.reverse, decide (letter ≠ '_') = true := by
    intro letter member
    apply decide_eq_true
    rintro rfl
    exact absurd (hex '_' (mem_reverse.mp member)) (by decide)
  have backwards : (base ++ '_' :: suffix).reverse = suffix.reverse ++ '_' :: base.reverse := by simp
  rw [backwards, takeWhile_append_of_pos apart, takeWhile_cons, if_neg (by decide), append_nil,
    reverse_reverse]

theorem markerName_token (hex : Hex suffix) (sixteen : suffix.length = 16) :
    markerName ('<' :: ((markerBase kind ++ '_' :: suffix) ++ ['>'])) = markerBase kind := by
  have some_name : markerBase kind ≠ [] := by cases kind <;> decide
  have body : markerBody ('<' :: ((markerBase kind ++ '_' :: suffix) ++ ['>'])) = some (markerBase kind ++ '_' :: suffix) := by
    unfold markerBody
    rw [tail_cons, dropLast_concat]
    dsimp only
    rw [takeWhile_suffix hex, if_pos]
    refine ⟨?long, rfl, ?close, ?separator, sixteen, ?digits⟩
    case long =>
      simp only [length_cons, length_append]
      omega
    case close => rw [getLast?_cons, getLast?_concat]; rfl
    case separator =>
      obtain ⟨first, rest, split⟩ := exists_cons_of_ne_nil some_name
      rw [split, cons_append, tail_cons]
      exact mem_append_right _ mem_cons_self
    case digits => exact all_eq_true.mpr hex
  have length : (markerBase kind ++ '_' :: suffix).length - placeholderTokenHexLength - 1 = (markerBase kind).length := by
    rw [length_append, length_cons, sixteen, placeholderTokenHexLength]
    omega
  unfold markerName
  rw [body]
  dsimp only
  rw [length, take_left]

theorem isTokenPlaceholder_token (hex : Hex suffix) :
    isTokenPlaceholder ('<' :: ((markerBase kind ++ '_' :: suffix) ++ ['>'])) = true := by
  have named : "PRIVATE".toList <+: markerBase kind ∨ "SECRET".toList <+: markerBase kind := by
    cases kind <;> decide
  have begun : ("PRIVATE".toList.isPrefixOf (markerBase kind ++ '_' :: suffix) ||
      "SECRET".toList.isPrefixOf (markerBase kind ++ '_' :: suffix)) = true := by
    rw [Bool.or_eq_true_iff, isPrefixOf_iff_prefix, isPrefixOf_iff_prefix]
    exact named.imp (fun begins => begins.trans (prefix_append _ _)) fun begins =>
      begins.trans (prefix_append _ _)
  have closed : ('<' :: ((markerBase kind ++ '_' :: suffix) ++ ['>'])).getLast? = some '>' := by
    rw [getLast?_cons, getLast?_concat]
    rfl
  unfold isTokenPlaceholder
  rw [trimSpace_solid (marker_solid hex)]
  dsimp only
  rw [tail_cons, dropLast_concat, begun, closed]
  rfl

theorem token_span (hex : Hex suffix) (sixteen : suffix.length = 16) (pre post : Text) {to_ : Nat}
    (some_letter : from_ < to_) (inside : to_ ≤ (withPlaceholderSuffix (replacementFor kind) suffix).length) :
    isTokenPlaceholderSpan (pre ++ withPlaceholderSuffix (replacementFor kind) suffix ++ post) (pre.length + from_)
      (pre.length + to_) = true := by
  rw [token_shape] at inside ⊢
  have short : pre.length + to_ ≤
      (pre ++ '<' :: ((markerBase kind ++ '_' :: suffix) ++ ['>']) ++ post).length := by
    rw [length_append, length_append]
    omega
  rw [isTokenPlaceholderSpan_solid short (by omega)]
  · have moved : pre ++ '<' :: ((markerBase kind ++ '_' :: suffix) ++ ['>']) ++ post =
        pre ++ '<' :: ((markerBase kind ++ '_' :: suffix) ++ '>' :: post) := by simp
    have length : to_ ≤ (markerBase kind ++ '_' :: suffix).length + 2 := by
      rw [length_cons, length_append, length_singleton] at inside
      exact inside
    rw [moved, isMarkerSpan_marker (fun letter member => (marker_letter hex letter member).1) some_letter length]
    split
    · exact isTokenPlaceholder_token hex
    · rw [markerName_token hex sixteen]
      exact isMarkerName_base kind
  · rw [covered_part inside]
    exact fun letter member => marker_solid hex letter (mem_of_mem_take (mem_of_mem_drop member))

/-- A text that no part of a marker holds. -/
structure Foreign (word : Text) : Prop where
  plain : ∀ letter ∈ word, letter ∉ brackets
  solid : ∀ letter ∈ word, isSpace letter.toNat = false
  head : ∀ letter ∈ word.head?, ¬ (letter.isUpper = true ∨ letter = '_')
  other : ∃ letter ∈ word, isLowerHexDigit letter = false

theorem markerName_cases (inner : Text) :
    markerName ('<' :: (inner ++ ['>'])) = inner ∨
      ∃ suffix, Hex suffix ∧ inner = markerName ('<' :: (inner ++ ['>'])) ++ '_' :: suffix := by
  unfold markerName
  cases body : markerBody ('<' :: (inner ++ ['>'])) with
  | none =>
    left
    dsimp only
    rw [tail_cons, dropLast_concat]
  | some found =>
    right
    unfold markerBody at body
    rw [tail_cons, dropLast_concat] at body
    dsimp only at body
    split at body
    · rename_i shape
      obtain ⟨_, _, _, separator, sixteen, digits⟩ := shape
      cases body
      have split := takeWhile_append_dropWhile (p := fun letter : Char => decide (letter ≠ '_')) (l := inner.reverse)
      cases rest : inner.reverse.dropWhile (fun letter => decide (letter ≠ '_')) with
      | nil =>
        have all := dropWhile_eq_nil_iff.mp rest '_' (mem_reverse.mpr (mem_of_mem_tail separator))
        exact absurd all (by decide)
      | cons first before =>
        have stops := head?_dropWhile_not (fun letter : Char => decide (letter ≠ '_')) inner.reverse
        rw [rest] at stops
        obtain rfl : first = '_' := by
          by_contra other
          rw [head?_cons] at stops
          exact absurd stops (by simp [other])
        have whole : inner = before.reverse ++ '_' :: (inner.reverse.takeWhile fun letter => decide (letter ≠ '_')).reverse := by
          have turned := congrArg List.reverse split
          rw [rest, reverse_append, reverse_reverse, reverse_cons, List.append_assoc,
            singleton_append] at turned
          exact turned.symm
        refine ⟨_, all_eq_true.mp digits, ?_⟩
        have length : inner.length - placeholderTokenHexLength - 1 = before.reverse.length := by
          have counted := congrArg List.length whole
          rw [length_append, length_cons, sixteen] at counted
          omega
        have name : inner.take (inner.length - placeholderTokenHexLength - 1) = before.reverse := by
          rw [length]
          conv_lhs => rw [whole]
          exact take_left
        dsimp only
        rw [name]
        exact whole
    · cases body

theorem isMarkerName_letters {name : Text} (named : isMarkerName name = true) :
    ∀ letter ∈ name, letter.isUpper = true ∨ letter = '_' := by
  obtain ⟨kind, _, same⟩ := any_eq_true.mp named
  rw [of_decide_eq_true same]
  exact markerBase_letters kind

theorem isMarkerName_foreign {before after : Text} (foreign : Foreign word) :
    isMarkerName (markerName ('<' :: ((before ++ word ++ after) ++ ['>']))) = false := by
  by_contra named
  have letters := isMarkerName_letters (Bool.not_eq_false _ ▸ named)
  obtain ⟨letter, member, notHex⟩ := foreign.other
  obtain ⟨first, rest, rfl⟩ := exists_cons_of_ne_nil (ne_nil_of_mem member)
  have odd := foreign.head first rfl
  rcases markerName_cases (before ++ first :: rest ++ after) with whole | ⟨suffix, hex, split⟩
  · rw [whole] at letters
    exact odd (letters first (mem_append_left _ (mem_append_right _ mem_cons_self)))
  · -- The first letter is no letter of the name and no separator, so the whole word is in the suffix.
    have plain : ∀ other ∈ markerName ('<' :: ((before ++ first :: rest ++ after) ++ ['>'])) ++ ['_'],
        other.isUpper = true ∨ other = '_' := by
      intro other inName
      rcases mem_append.mp inName with inName | separator
      · exact letters other inName
      · exact .inr (mem_singleton.mp separator)
    generalize markerName ('<' :: ((before ++ first :: rest ++ after) ++ ['>'])) = name at split plain
    rw [List.append_assoc, append_cons name '_' suffix] at split
    rcases append_eq_append_iff.mp split with ⟨middle, shorter, later⟩ | ⟨middle, _, inSuffix⟩
    · cases middle with
      | nil =>
        rw [nil_append] at later
        have inside : letter ∈ suffix := by
          rw [← later]
          exact mem_append_left _ member
        rw [hex letter inside] at notHex
        cases notHex
      | cons other middle =>
        have same : first = other := head_eq_of_cons_eq later
        have inName : first ∈ name ++ ['_'] := by
          rw [shorter, same]
          exact mem_append_right _ mem_cons_self
        exact odd (plain first inName)
    · have inside : letter ∈ suffix := by
        rw [inSuffix]
        exact mem_append_right _ (mem_append_left _ member)
      rw [hex letter inside] at notHex
      cases notHex

theorem isMarkerSpan_foreign (foreign : Foreign word) (pre post : Text) {to_ : Nat} (some_letter : from_ < to_)
    (inside : to_ ≤ word.length) :
    isMarkerSpan (pre ++ word ++ post) (pre.length + from_) (pre.length + to_) = false := by
  have here : (pre ++ word ++ post)[pre.length + from_]? ≠ some '<' := by
    rw [List.append_assoc, getElem?_append_right (Nat.le_add_right _ _), Nat.add_sub_cancel_left,
      getElem?_append_left (by omega)]
    intro same
    exact foreign.plain '<' (mem_of_getElem? same) mem_cons_self
  have before : (pre ++ word ++ post).take (pre.length + from_) = pre ++ word.take from_ := by
    rw [List.append_assoc, take_length_add_append, take_append_of_le_length (by omega)]
  have missing : ∀ other ∈ word.take from_, other ∉ brackets := fun other member =>
    foreign.plain other (mem_of_mem_take member)
  unfold isMarkerSpan openingOf
  rw [if_neg here, before]
  rcases lastIndexAny_cases brackets pre with none_before | ⟨front, opening, gap, rfl, bracket, noMore⟩
  · have absent : ∀ other ∈ pre ++ word.take from_, other ∉ brackets := fun other member =>
      (mem_append.mp member).elim (none_before other) (missing other)
    rw [lastIndexAny_none absent]
  · have gapFree : ∀ other ∈ gap ++ word.take from_, other ∉ brackets := fun other member =>
      (mem_append.mp member).elim (noMore other) (missing other)
    have placed : front ++ opening :: gap ++ word.take from_ = front ++ opening :: (gap ++ word.take from_) := by simp
    have text : front ++ opening :: gap ++ word ++ post = front ++ opening :: (gap ++ word ++ post) := by simp
    have opens : (front ++ opening :: (gap ++ word ++ post))[front.length]? = some opening := by
      rw [getElem?_append_right (Nat.le_refl _), Nat.sub_self]
      rfl
    rw [placed, lastIndexAny_at front gapFree bracket, text]
    dsimp only
    rw [opens]
    by_cases isOpening : opening = '<'
    · rw [isOpening, if_neg (not_not.mpr rfl), drop_length_add_append, drop_succ_cons, drop_zero]
      have plain : ∀ other ∈ gap ++ word, other ∉ brackets := fun other member =>
        (mem_append.mp member).elim (noMore other) (foreign.plain other)
      rcases indexAny_cases brackets post with none_after | ⟨between, closing, back, rfl, closes, noneBetween⟩
      · have absent : ∀ other ∈ gap ++ word ++ post, other ∉ brackets := fun other member =>
          (mem_append.mp member).elim (plain other) (none_after other)
        rw [indexAny_none absent]
      · have free : ∀ other ∈ gap ++ word ++ between, other ∉ brackets := fun other member =>
          (mem_append.mp member).elim (plain other) (noneBetween other)
        have moved : gap ++ word ++ (between ++ closing :: back) = (gap ++ word ++ between) ++ closing :: back := by simp
        rw [moved, indexAny_at back free closes]
        dsimp only
        split
        · rfl
        · rename_i fits
          have closed : (front ++ '<' :: (gap ++ word ++ between ++ closing :: back))[
              (gap ++ word ++ between).length + front.length + 1]? = some closing := by
            rw [getElem?_append_right (by omega),
              show (gap ++ word ++ between).length + front.length + 1 - front.length = (gap ++ word ++ between).length + 1 by omega,
              getElem?_cons_succ, getElem?_append_right (Nat.le_refl _), Nat.sub_self]
            rfl
          rw [closed] at fits
          obtain rfl : closing = '>' := by
            by_contra other
            exact fits (.inl fun same => other (Option.some.inj same))
          have apart : ¬ ((front ++ opening :: gap).length + from_ = front.length ∧
              (front ++ opening :: gap).length + to_ = (gap ++ word ++ between).length + front.length + 1 + 1) := by
            rw [length_append, length_cons]
            omega
          have marker : ((front ++ '<' :: (gap ++ word ++ between ++ '>' :: back)).take
              ((gap ++ word ++ between).length + front.length + 1 + 1)).drop front.length =
              '<' :: ((gap ++ word ++ between) ++ ['>']) := by
            have regrouped : front ++ '<' :: (gap ++ word ++ between ++ '>' :: back) =
                front ++ ('<' :: ((gap ++ word ++ between) ++ ['>']) ++ back) := by simp
            have length : (gap ++ word ++ between).length + front.length + 1 + 1 =
                front.length + ('<' :: ((gap ++ word ++ between) ++ ['>'])).length := by
              simp only [length_cons, length_append, length_nil]
              omega
            rw [regrouped, length, take_length_add_append, take_left, drop_left]
          rw [← isOpening, if_neg apart, isOpening, marker, isMarkerName_foreign foreign]
    · rw [if_pos fun same => isOpening (Option.some.inj same)]

end AstrLink.Suppressing
