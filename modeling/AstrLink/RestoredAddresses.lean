import AstrLink.Restoring
import AstrLink.StandInStability

/-!
Addresses in a response. A longer address that begins with a stand-in is rewritten as well
(`quoted_rewritten`). As long as no spelling reaches into an address otherwise, stand-ins are restored and
other addresses stay (`addresses_restored`).
-/
namespace AstrLink.Restoring
open IPAddress StandIns Rewriting List

/-- A whole IPv4 address in a text, with neither a digit nor a dot around it. -/
structure Quoted (text before address after : Text) : Prop where
  split : text = before ++ address ++ after
  address : ∃ octets, parseIPv4 address = some octets
  left : ∀ char, before.getLast? = some char → ¬ Dotted char
  right : ∀ char, after.head? = some char → ¬ Dotted char

def Matches (restorer : TextRestorer) (left right : Text) (length : Nat) : Prop :=
  ∃ value, (.matchFull length, value) ∈ restorer.found left.reverse right true

/-- Some characters from a place on and an address have one in common. -/
def Overlaps (left : Text) (length : Nat) (before address : Text) : Prop :=
  left.length < before.length + address.length ∧ before.length < left.length + length

/-- A match over an address starts inside it, or with it and is no longer. -/
def Harmless (redactions : List Redaction) (left : Text) (length : Nat) (before address : Text) : Prop :=
  (∃ redaction ∈ redactions, redaction.placeholder = address) ∧
    (left.length = before.length ∧ length ≤ address.length ∨ before.length < left.length)

/-- No spelling of the request reaches into an address in a harmful way. -/
def Clear (redactions : List Redaction) (text : Text) : Prop :=
  ∀ before address after, Quoted text before address after → ∀ left right length, text = left ++ right →
    Matches (newTextRestorer redactions .plain) left right length → Overlaps left length before address →
      Harmless redactions left length before address

/-- No other match runs over the place. -/
def Leading (redactions : List Redaction) (text left : Text) : Prop :=
  ∀ earlier right length, text = earlier ++ right → Matches (newTextRestorer redactions .plain) earlier right length →
    earlier.length < left.length → earlier.length + length ≤ left.length

/-- The same of the matches that no other match runs over. -/
def ClearOfLeading (redactions : List Redaction) (text : Text) : Prop :=
  ∀ before address after, Quoted text before address after → ∀ left right length, text = left ++ right →
    Leading redactions text left → Matches (newTextRestorer redactions .plain) left right length →
      Overlaps left length before address → Harmless redactions left length before address

/-- The pieces of a restored text have these at the place of an address. -/
def Becomes (redactions : List Redaction) (text before after : Text) (pieces : List (Piece Char)) : Prop :=
  ∃ front back, (newTextRestorer redactions .plain).pieces text true = front ++ pieces ++ back ∧
    sources front = before ∧ sources back = after

/-- Every stand-in of the request becomes its value, and every other address is copied. -/
def Kept (redactions : List Redaction) (text : Text) : Prop :=
  ∀ before address after, Quoted text before address after →
    (∀ redaction ∈ redactions, redaction.placeholder = address →
      Becomes redactions text before after [.replaced address redaction.value]) ∧
    ((∀ redaction ∈ redactions, redaction.placeholder ≠ address) →
      Becomes redactions text before after (address.map .copied))

variable {redactions : List Redaction} {text before address after : Text}

theorem Quoted.trace (quoted : Quoted text before address after) :
    Trace ((newTextRestorer redactions .plain).rule true) [] (before ++ (address ++ after))
      ((newTextRestorer redactions .plain).pieces text true) [] := by
  have trace : Trace ((newTextRestorer redactions .plain).rule true) [] text
      ((newTextRestorer redactions .plain).pieces text true) _ := trace_scan [] text
  have nothing := trace.unheld (TextRestorer.choose_final _)
  rw [nothing, quoted.split, List.append_assoc] at trace
  rw [quoted.split, List.append_assoc]
  exact trace

variable {left value : Text}

theorem matches_of_choice {right : Text} {length : Nat}
    (choice : (newTextRestorer redactions .plain).choose true left.reverse right = .replace length value) :
    Matches (newTextRestorer redactions .plain) left right length :=
  ⟨value, TextRestorer.choose_replace choice⟩

theorem choice_of_matches {right : Text} {length : Nat}
    (found : Matches (newTextRestorer redactions .plain) left right length) :
    ∃ longer value, (newTextRestorer redactions .plain).choose true left.reverse right = .replace longer value ∧
      length ≤ longer := by
  obtain ⟨value, listed⟩ := found
  obtain ⟨longer, other, best, least⟩ := longest_ge listed
  refine ⟨longer, other, ?_, least⟩
  have never := TextRestorer.choose_final (newTextRestorer redactions .plain) left.reverse right
  unfold TextRestorer.choose at never ⊢
  split
  · next cut => simp [cut] at never
  · rw [best]

theorem Quoted.uncrossed (quoted : Quoted text before address after)
    (short : ∀ left right length, text = left ++ right → left.length < before.length →
      Matches (newTextRestorer redactions .plain) left right length → left.length + length ≤ before.length) :
    Uncrossed ((newTextRestorer redactions .plain).rule true) [] before (address ++ after) := by
  intro left right split some
  rw [append_nil]
  refine ⟨TextRestorer.choose_final _ _ _, fun length value choice => ?_⟩
  have inside : left.length < before.length := by
    have more := length_pos_iff.mpr some
    rw [split, length_append]
    omega
  have whole : text = left ++ (right ++ (address ++ after)) := by
    rw [quoted.split, split]
    simp only [List.append_assoc]
  have bound := short left _ length whole inside (matches_of_choice choice)
  rw [split, length_append] at bound
  omega

theorem standIn_found {redaction : Redaction} (nodup : (redactions.map (·.placeholder)).Nodup)
    (listed : redaction ∈ redactions) (named : redaction.placeholder ≠ []) (left rest : Text) :
    (.matchFull redaction.placeholder.length, redaction.value) ∈
      (newTextRestorer redactions .plain).found left (redaction.placeholder ++ rest) true := by
  refine TextRestorer.mem_found.mpr ⟨.literalSpelling redaction.placeholder redaction.value, ?_,
    redaction.placeholder, mem_singleton_self _, rfl, ?_⟩
  · refine mem_flatMap.mpr ⟨redaction, mem_distinct_of_nodup nodup named (by simp) listed, ?_⟩
    exact mem_cons_self
  · have here : redaction.placeholder.isPrefixOf (redaction.placeholder ++ rest) = true :=
      isPrefixOf_iff_prefix.mpr (prefix_append _ _)
    simp [entryStatus, RestoreSpelling.guard, RestoreGuard.allows, here, RestoreSpelling.status, matchLiteral,
      equalASCII]

theorem standIn_value {redaction : Redaction} (nodup : (redactions.map (·.placeholder)).Nodup)
    (listed : redaction ∈ redactions) {octets : List Nat} (address : parseIPv4 redaction.placeholder = some octets)
    {rest : Text}
    (found : (.matchFull redaction.placeholder.length, value) ∈ (newTextRestorer redactions .plain).found left (redaction.placeholder ++ rest) true) :

    value = redaction.value := by
  obtain ⟨spelling, spelled, start, _, rfl, status⟩ := TextRestorer.mem_found.mp found
  obtain ⟨other, kept, spelled⟩ := mem_flatMap.mp spelled
  obtain ⟨inside, skipped, room, body⟩ := status_full (entryStatus_full status)
  rcases mem_restoreSpellings spelled with ⟨encoded, encodes, rfl⟩ | ⟨marker, _⟩
  · obtain ⟨length, _, same⟩ := matchLiteral_full (entryStatus_full status)
    have sameText : redaction.placeholder = other.placeholder := by
      simpa [equalASCII] using same
    obtain rfl := inj_on_of_nodup_map nodup listed (mem_distinct kept).1 sameText
    exact (Option.some.inj encodes).symm
  · -- A marker has an underscore, which no address has.
    have there := markerBody_underscore marker
    dsimp only at room body
    rw [← body] at there
    have short : skipped + spelling.body.length ≤ redaction.placeholder.length := room
    have mem : '_' ∈ redaction.placeholder := by
      rw [drop_append_of_le_length (by omega), take_append_of_le_length (by simp; omega)] at there
      exact mem_of_mem_drop (mem_of_mem_take there)
    rcases (parseIPv4_dotted address).2 _ mem with digit | dot
    · simp at digit
    · simp at dot

theorem kept_of_clear (nodup : (redactions.map (·.placeholder)).Nodup) (clear : Clear redactions text) :
    Kept redactions text := by
  intro before address after quoted
  obtain ⟨octets, parsed⟩ := quoted.address
  obtain ⟨some, dotted⟩ := parseIPv4_dotted parsed
  have positive := length_pos_iff.mpr some
  have uncrossed := quoted.uncrossed fun left right length split inside found => by
    refine Nat.le_of_not_lt fun crosses => ?_
    obtain ⟨_, ⟨same, _⟩ | behind⟩ :=
      clear before address after quoted left right length split found ⟨by omega, crosses⟩
    · omega
    · omega
  obtain ⟨front, back, pieces, own, trace⟩ := quoted.trace.cut uncrossed
  rw [append_nil] at trace
  constructor
  · rintro redaction listed rfl
    have found := standIn_found nodup listed some before.reverse after
    obtain ⟨length, value, choice, least⟩ := choice_of_matches ⟨_, found⟩
    have harmless := clear before _ after quoted before _ length (by rw [quoted.split, List.append_assoc])
      (matches_of_choice choice) ⟨by omega, by omega⟩
    have exact_ : length = redaction.placeholder.length := by
      rcases harmless.2 with ⟨_, most⟩ | behind
      · omega
      · omega
    subst exact_
    have sameValue := standIn_value nodup listed parsed (TextRestorer.choose_replace choice)
    obtain ⟨later, split, trace⟩ := trace.head_replaced choice
    refine ⟨front, later, ?_, own, ?_⟩
    · rw [pieces, split, sameValue, take_left]
      simp
    · have whole := trace.whole
      rw [append_nil, drop_left] at whole
      exact whole
  · intro other
    obtain ⟨later, split, trace⟩ := trace.kept fun left right part rest => by
      rw [← reverse_append]
      cases choice : (newTextRestorer redactions .plain).choose true (before ++ left).reverse (right ++ after) with
      | keep => exact choice
      | hold => exact absurd choice (TextRestorer.choose_final _ _ _)
      | replace length value =>
        have more := length_pos_iff.mpr rest
        have fits := ((newTextRestorer redactions .plain).rule true).fits _ _ _ _ choice
        have split : text = (before ++ left) ++ (right ++ after) := by
          rw [quoted.split, part]
          simp only [List.append_assoc]
        have size : address.length = left.length + right.length := by rw [part, length_append]
        obtain ⟨⟨redaction, listed, same⟩, _⟩ := clear before address after quoted (before ++ left) _ length split
          (matches_of_choice choice) ⟨by rw [length_append]; omega, by rw [length_append]; omega⟩
        exact absurd same (other redaction listed)
    refine ⟨front, later, ?_, own, ?_⟩
    · rw [pieces, split, List.append_assoc]
    · have whole := trace.whole
      rw [append_nil] at whole
      exact whole

theorem clear_of_kept (kept : Kept redactions text) : ClearOfLeading redactions text := by
  intro before address after quoted left right length split leading found overlaps
  obtain ⟨longer, value, choice, least⟩ := choice_of_matches found
  have fits := ((newTextRestorer redactions .plain).rule true).fits _ _ _ _ choice
  obtain ⟨held, trace⟩ : ∃ held, Trace ((newTextRestorer redactions .plain).rule true) [] (left ++ right)
      ((newTextRestorer redactions .plain).pieces text true) held := by
    rw [← split]
    exact ⟨_, trace_scan [] text⟩
  have uncrossed : Uncrossed ((newTextRestorer redactions .plain).rule true) [] left right := by
    intro earlier rest part some
    rw [append_nil]
    refine ⟨TextRestorer.choose_final _ _ _, fun more other chosen => ?_⟩
    have size : left.length = earlier.length + rest.length := by rw [part, length_append]
    have positive := length_pos_iff.mpr some
    have bound := leading earlier (rest ++ right) more (by rw [split, part, List.append_assoc])
      (matches_of_choice chosen) (by omega)
    omega
  obtain ⟨front, later, pieces, own, trace⟩ := trace.cut uncrossed
  rw [append_nil] at trace
  obtain ⟨back, rfl, _⟩ := trace.head_replaced choice
  have size : (right.take longer).length = longer := by
    rw [length_take]
    exact Nat.min_eq_left fits.2
  have some : (Piece.replaced (right.take longer) value).source ≠ [] :=
    ne_nil_of_length_pos (Nat.lt_of_lt_of_eq fits.1 size.symm)
  -- The match does not start in front of the address: it would end behind its start.
  have behind : ∀ {first middle last}, (newTextRestorer redactions .plain).pieces text true = first ++ middle ++ last →
      sources first = before → before.length ≤ left.length := by
    intro first middle last other start
    refine Nat.le_of_not_lt fun starts => ?_
    have same := pieces.symm.trans other
    rw [List.append_assoc] at same
    have ends := piece_before same (by rw [own, start]; exact starts)
    rw [own, start, Piece.source, size] at ends
    have overlap := overlaps.2
    omega
  by_cases standIn : ∃ redaction ∈ redactions, redaction.placeholder = address
  · refine ⟨standIn, ?_⟩
    obtain ⟨redaction, listed, same⟩ := standIn
    obtain ⟨first, last, other, start, _⟩ := (kept before address after quoted).1 redaction listed same
    have after := behind other start
    rcases Nat.eq_or_lt_of_le after with equal | inside
    · refine .inl ⟨equal.symm, ?_⟩
      have same := pieces.symm.trans other
      rw [List.append_assoc] at same
      have within := piece_within same some (by rw [own, start]; exact after) (by
        rw [own, start, sources_cons, sources_nil, append_nil]
        exact overlaps.1)
      obtain ⟨source, _⟩ := Piece.replaced.inj (mem_singleton.mp within)
      rw [← source, size]
      exact least
    · exact .inr inside
  · exfalso
    have other : ∀ redaction ∈ redactions, redaction.placeholder ≠ address :=
      fun redaction listed same => standIn ⟨redaction, listed, same⟩
    obtain ⟨first, last, other, start, _⟩ := (kept before address after quoted).2 other
    have same := pieces.symm.trans other
    rw [List.append_assoc] at same
    have within := piece_within same some (by rw [own, start]; exact behind other start) (by
      rw [own, start, sources_copied]
      exact overlaps.1)
    obtain ⟨_, _, copied⟩ := mem_map.mp within
    cases copied

variable {kind : Kind}

section
variable {digest : Digest}

variable {allocator next : Allocator}

theorem allocateToken_free {placeholder : Text} {style : PlaceholderStyle}
    (ran : allocator.allocateToken digest kind value = (some (placeholder, style), next)) :
    placeholder ∉ allocator.used ∧ next.used = placeholder :: allocator.used := by
  rcases Allocator.allocateToken_cases ran with ⟨none, _⟩ | ⟨text, same, _, reserved⟩
  · cases none
  · obtain ⟨rfl, _⟩ := Prod.mk.inj (Option.some.inj same)
    exact ⟨reserved.free, reserved.used⟩

theorem allocateNatural_free {found : Option Text} (ran : allocator.allocateNatural digest kind value = (found, next)) :
    (found = none ∧ next = allocator) ∨
      ∃ placeholder, found = some placeholder ∧ placeholder ∉ allocator.used ∧
        next.used = placeholder :: allocator.used := by
  have search : ∀ owner candidate, allocator.firstFree owner candidate trials = (found, next) →
      (found = none ∧ next = allocator) ∨
        ∃ placeholder, found = some placeholder ∧ placeholder ∉ allocator.used ∧
          next.used = placeholder :: allocator.used := by
    intro owner candidate searched
    rcases Allocator.firstFree_cases searched with none | ⟨text, _, same, _, reserved⟩
    · exact .inl none
    · exact .inr ⟨text, same, reserved.free, reserved.used⟩
  unfold Allocator.allocateNatural at ran
  split at ran
  · cases ran
    exact .inl ⟨rfl, rfl⟩
  · dsimp only at ran
    split at ran
    · exact search _ _ ran
    · split at ran
      · exact search _ _ ran
      · split at ran
        · next taken reserved =>
          cases ran
          have reserved := Allocator.reserve_taken reserved
          exact .inr ⟨_, rfl, reserved.free, reserved.used⟩
        · next refused reserved =>
          obtain rfl := Allocator.reserve_refused reserved
          exact search _ _ ran

theorem allocate_free {placeholder : Text} {style : PlaceholderStyle}
    (ran : allocator.allocate digest kind value = (some (placeholder, style), next)) :
    placeholder ∉ allocator.used ∧ next.used = placeholder :: allocator.used := by
  unfold Allocator.allocate at ran
  split at ran
  · split at ran
    · next natural =>
      obtain ⟨same, rfl⟩ := Prod.mk.inj ran
      obtain ⟨rfl, _⟩ := Prod.mk.inj (Option.some.inj same)
      rcases allocateNatural_free natural with ⟨none, _⟩ | ⟨text, same, free, used⟩
      · cases none
      · cases same
        exact ⟨free, used⟩
    · next natural =>
      rcases allocateNatural_free natural with ⟨_, rfl⟩ | ⟨_, same, _⟩
      · have token := allocateToken_free ran
        exact token
      · cases same
  · exact allocateToken_free ran

theorem assign_nodup {final : Allocator} {items : List (Kind × Text)} {placed done : List Redaction}
    (nodup : (placed.map (·.placeholder)).Nodup) (used : ∀ earlier ∈ placed, earlier.placeholder ∈ allocator.used)
    (ran : allocator.assign digest items placed = (some done, final)) : (done.map (·.placeholder)).Nodup := by
  induction items generalizing allocator placed with
  | nil =>
    obtain ⟨same, _⟩ := Prod.mk.inj ran
    cases same
    exact nodup
  | cons item rest ih =>
    obtain ⟨kind, value⟩ := item
    rw [Allocator.assign] at ran
    split at ran
    · exact ih nodup used ran
    · split at ran
      · next placeholder style next allocated =>
        obtain ⟨free, taken⟩ := allocate_free allocated
        refine ih ?_ ?_ ran
        · rw [map_append, nodup_append]
          refine ⟨nodup, by simp, ?_⟩
          intro text listed other single same
          obtain ⟨earlier, there, rfl⟩ := mem_map.mp listed
          obtain rfl : other = placeholder := by simpa using single
          exact free (same ▸ used earlier there)
        · intro earlier listed
          rw [taken]
          rcases mem_append.mp listed with there | single
          · exact mem_cons_of_mem _ (used earlier there)
          · rw [mem_singleton.mp single]
            exact mem_cons_self
      · cases ran

end

/-- Restoring a response with the redactions of a request of a conversation keeps the addresses in it when every
match over one is harmless, and only when every match that no other runs over is. -/
theorem addresses_restored (digest : Digest) (stored : StoredStandIns) (earlier : List Request) (request : Request)
    (redactions : List Redaction)
    (assigned : (request.assign digest ((Ledger.fresh.load stored.rows).afterAll digest earlier)).1 = some redactions)
    (text : Text) :
    (Clear redactions text → Kept redactions text) ∧ (Kept redactions text → ClearOfLeading redactions text) := by
  have start : (([] : List Redaction).map (·.placeholder)).Nodup := nodup_nil
  have nodup : (redactions.map (·.placeholder)).Nodup := assign_nodup start (by simp) (Prod.ext assigned rfl)
  exact ⟨kept_of_clear nodup, clear_of_kept⟩

/-- A digest that gives one address the stand-in 203.0.113.1 and every other one 203.0.113.12. -/
def nestedDigest : Digest := fun _ value _ =>
  (if value = "10.0.0.1".toList then "00000001" else "0000000c").toList ++ "00000000".toList ++ value

def otherRequest : Request where
  resolve := everyNatural
  body := "10.0.0.2".toList
  items := [(.ipAddress, "10.0.0.2".toList)]

def nested : List Redaction := [⟨"203.0.113.1".toList, .ipAddress, "10.0.0.1".toList, .natural⟩]

theorem nested_assigned :
    (asking.assign nestedDigest ((Ledger.fresh.load noneStored.rows).afterAll nestedDigest [otherRequest])).1 = some nested := by
  decide +kernel

def reply : Text := "to 203.0.113.1".toList

theorem reply_clear : Clear nested reply := by
  have places : ∀ place ∈ List.range 15, ∀ status ∈
      (newTextRestorer nested .plain).found (reply.take place).reverse (reply.drop place) true,
      status.1 = .matchNone ∨ (status.1 = .matchFull 11 ∧ place = 3) := by
    decide +kernel
  have addresses : ∀ start ∈ List.range 15, ∀ size ∈ List.range 15, start + size ≤ 14 →
      (parseIPv4 ((reply.drop start).take size)).isSome = true →
      (reply.take start).getLast?.all (fun char => decide (¬ Dotted char)) = true →
      ((reply.drop start).drop size).head?.all (fun char => decide (¬ Dotted char)) = true → start = 3 ∧ size = 11 := by
    decide +kernel
  rintro before address after ⟨quoted, ⟨octets, parsed⟩, edge, limit⟩ left right length split ⟨value, found⟩ overlaps
  have total : reply.length = 14 := by decide +kernel
  have first : reply.take before.length = before := by rw [quoted, List.append_assoc, take_left]
  have rest : reply.drop before.length = address ++ after := by rw [quoted, List.append_assoc, drop_left]
  have sizes : before.length + address.length + after.length = 14 := by
    rw [← total, quoted, length_append, length_append]
  have here := addresses before.length (mem_range.mpr (by omega)) address.length (mem_range.mpr (by omega))
    (by omega) (by rw [rest, take_left, parsed]; rfl)
    (by
      rw [first, Option.all_eq_true]
      exact fun char last => decide_eq_true (edge char last))
    (by
      rw [rest, drop_left, Option.all_eq_true]
      exact fun char head => decide_eq_true (limit char head))
  have lengths : left.length + right.length = 14 := by rw [← total, split, length_append]
  have matched := places left.length (mem_range.mpr (by omega)) (.matchFull length, value) (by
    rw [split, take_left, drop_left]
    exact found)
  rcases matched with none | ⟨full, place⟩
  · cases none
  · obtain rfl := MatchStatus.matchFull.inj full
    refine ⟨⟨_, mem_singleton_self _, ?_⟩, .inl ⟨by omega, by omega⟩⟩
    have named : address = (reply.drop before.length).take address.length := by rw [rest, take_left]
    rw [named, here.1, here.2]
    decide +kernel

/-- A stand-in that the reply names is restored. -/
theorem reply_kept :
    (asking.assign nestedDigest ((Ledger.fresh.load noneStored.rows).afterAll nestedDigest [otherRequest])).1 = some nested ∧
      Kept nested reply :=
  ⟨nested_assigned, (addresses_restored nestedDigest noneStored [otherRequest] asking nested nested_assigned reply).1
    reply_clear⟩

/-- The reply names the stand-in of another value of the conversation, which begins with one of the request. -/
theorem quoted_rewritten : ¬ ∀ (digest : Digest) (stored : StoredStandIns) (earlier : List Request)
    (request : Request) (redactions : List Redaction),
    (request.assign digest ((Ledger.fresh.load stored.rows).afterAll digest earlier)).1 = some redactions →
    ∀ text, Kept redactions text := by
  intro claim
  have kept := claim nestedDigest noneStored [otherRequest] asking nested nested_assigned "203.0.113.12".toList
  have quoted : Quoted "203.0.113.12".toList [] "203.0.113.12".toList [] :=
    ⟨rfl, ⟨[203, 0, 113, 12], by decide +kernel⟩, by simp, by simp⟩
  obtain ⟨front, back, pieces, _⟩ := (kept [] _ [] quoted).2 (by simp [nested])
  have rewritten : (newTextRestorer nested .plain).pieces "203.0.113.12".toList true =
      [.replaced "203.0.113.1".toList "10.0.0.1".toList, .copied '2'] := by
    decide +kernel
  have sizes := congrArg List.length (rewritten.symm.trans pieces)
  simp at sizes
  omega

end AstrLink.Restoring
