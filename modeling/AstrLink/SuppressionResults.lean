import AstrLink.StandInStability
import AstrLink.Suppression

/-!
The placeholders of a conversation that come back. A finding inside one is left alone exactly when it is a
marker, when it covers a reserved namespace of its kind, or when the policy says so anyway (`left_alone_iff`).
-/
namespace AstrLink.Suppressing
open StandIns IPAddress Tables List
open Normalizing (isSpace)
open Option (some.inj)

/-- Digests are written in lower hexadecimal, with at least 64 digits. -/
structure HexDigest (digest : Digest) : Prop where
  hex : ∀ kind value trial, Hex (digest kind value trial)
  long : ∀ kind value trial, 64 ≤ (digest kind value trial).length

theorem HexDigest.derive {digest : Digest} (hexadecimal : HexDigest digest) (kind : Kind) (value : Text)
    (trial count : Nat) : Hex (StandIns.derive digest kind value trial count) :=
  fun letter member => hexadecimal.hex kind value trial letter (mem_of_mem_take member)

theorem HexDigest.derive_length {digest : Digest} (hexadecimal : HexDigest digest) (kind : Kind) (value : Text)
    (trial : Nat) {count : Nat} (short : count ≤ 64) : (StandIns.derive digest kind value trial count).length = count := by
  have long := hexadecimal.long kind value trial
  unfold StandIns.derive
  rw [length_take]
  omega

/-- A marker with sixteen digits of a digest, or what a builder makes of twelve. -/
inductive Emitted : Text → PlaceholderStyle → Prop where
  | token (kind : Kind) {suffix : Text} (hex : Hex suffix) (sixteen : suffix.length = 16) :
    Emitted (withPlaceholderSuffix (replacementFor kind) suffix) .token
  | natural {kind : Kind} {builder : Text → Text → Nat → Option Text} {value suffix placeholder : Text} {trial : Nat}
    (builds : naturalPlaceholderBuilders kind = some builder) (hex : Hex suffix)
    (built : builder value suffix trial = some placeholder) : Emitted placeholder .natural

theorem digitChar_hex : ∀ digit < 16, isLowerHexDigit (Nat.digitChar digit) = true := by decide

theorem formatGroup_hex (value : Nat) : Hex (formatGroup value) := by
  unfold formatGroup
  induction value using Nat.strongRecOn with
  | ind value ih =>
    rw [Nat.toDigits_eq_if (by decide)]
    split
    · rename_i small
      intro letter member
      rw [mem_singleton.mp member]
      exact digitChar_hex value small
    · intro letter member
      rcases mem_append.mp member with front | last
      · exact ih (value / 16) (by omega) letter front
      · rw [mem_singleton.mp last]
        exact digitChar_hex _ (Nat.mod_lt _ (by decide))

def Grouped (letter : Char) : Prop := isLowerHexDigit letter = true ∨ letter = ':' ∨ letter = '.'

theorem joined_cons (first second : Nat) (rest : List Nat) :
    joined (first :: second :: rest) = formatGroup first ++ ':' :: joined (second :: rest) := by
  simp [joined]

theorem joined_grouped (groups : List Nat) : ∀ letter ∈ joined groups, Grouped letter := by
  induction groups with
  | nil => intro letter member; cases member
  | cons first rest ih =>
    cases rest with
    | nil =>
      intro letter member
      have only : joined [first] = formatGroup first := by simp [joined]
      rw [only] at member
      exact .inl (formatGroup_hex first letter member)
    | cons second rest =>
      intro letter member
      rw [joined_cons] at member
      rcases mem_append.mp member with group | after
      · exact .inl (formatGroup_hex first letter group)
      · rcases mem_cons.mp after with rfl | later
        · exact .inr (.inl rfl)
        · exact ih letter later

theorem formatIPv6_grouped (groups : List Nat) : ∀ letter ∈ formatIPv6 groups, Grouped letter := by
  intro letter member
  unfold formatIPv6 at member
  dsimp only at member
  split at member
  · exact joined_grouped groups letter member
  · rcases mem_append.mp member with front | back
    · rcases mem_append.mp front with before | colons
      · exact joined_grouped _ letter before
      · have colon : letter = ':' := by
          rcases mem_cons.mp colons with same | same
          · exact same
          · exact mem_singleton.mp same
        exact .inr (.inl colon)
    · exact joined_grouped _ letter back

theorem formatIPv6_colon {groups : List Nat} (several : 2 ≤ groups.length) : ':' ∈ formatIPv6 groups := by
  unfold formatIPv6
  dsimp only
  split
  · cases groups with
    | nil => exact absurd several (by decide)
    | cons first rest =>
      cases rest with
      | nil =>
        rw [length_singleton] at several
        omega
      | cons second rest =>
        rw [joined_cons]
        exact mem_append_right _ mem_cons_self
  · exact mem_append_left _ (mem_append_right _ mem_cons_self)

variable {text : Text}

theorem parseIPv6_length {groups : List Nat} (parsed : parseIPv6 text = some groups) :
    groups.length = 8 := by
  unfold parseIPv6 at parsed
  cases found : ellipsis text with
  | none =>
    rw [found] at parsed
    exact of_decide_eq_true (Option.filter_eq_some_iff.mp parsed).2
  | some parts =>
    obtain ⟨before, after⟩ := parts
    rw [found] at parsed
    obtain ⟨first, _, parsed⟩ := Option.bind_eq_some_iff.mp parsed
    obtain ⟨last, _, parsed⟩ := Option.bind_eq_some_iff.mp parsed
    split at parsed
    · rw [← some.inj parsed, length_append, length_append, length_replicate]
      omega
    · cases parsed

theorem grouped_plain {letter : Char} (grouped : Grouped letter) :
    letter ∉ brackets ∧ isSpace letter.toNat = false ∧ ¬ (letter.isUpper = true ∨ letter = '_') := by
  rcases grouped with hex | rfl | rfl
  · have code := isLowerHexDigit_code hex
    refine ⟨?bracket, isSpace_visible (by omega) (by omega), ?name⟩
    case bracket =>
      intro bracket
      rcases mem_cons.mp bracket with rfl | close
      · exact absurd code (by decide)
      · rw [mem_singleton.mp close] at code
        exact absurd code (by decide)
    case name =>
      rintro (upper | rfl)
      · unfold Char.isUpper at upper
        simp only [decide_eq_true_eq] at upper
        have bounds : 65 ≤ letter.toNat ∧ letter.toNat ≤ 90 := upper
        omega
      · exact absurd code (by decide)
  · decide
  · decide

theorem foreign_grouped {word : Text} (grouped : ∀ letter ∈ word, Grouped letter)
    (other : ∃ letter ∈ word, isLowerHexDigit letter = false) : Foreign word :=
  ⟨fun letter member => (grouped_plain (grouped letter member)).1,
    fun letter member => (grouped_plain (grouped letter member)).2.1,
    fun letter isHead => (grouped_plain (grouped letter (mem_of_mem_head? isHead))).2.2, other⟩

theorem testNetAddress_foreign {slot : Nat} (inside : slot < 768) : Foreign (testNetAddress slot) := by
  have known : ∀ start ∈ testNetPrefixes, (∀ letter ∈ start, Grouped letter) ∧ '.' ∈ start := by
    have each : testNetPrefixes.all (fun start =>
        start.all (fun letter => isLowerHexDigit letter || letter == ':' || letter == '.') && start.contains '.') = true :=
      rfl
    intro start listed
    obtain ⟨letters, dot⟩ := Bool.and_eq_true_iff.mp (all_eq_true.mp each start listed)
    refine ⟨fun letter member => ?_, contains_iff_mem.mp dot⟩
    simpa [Grouped, or_assoc] using all_eq_true.mp letters letter member
  have block : slot / testNetHostsPerPrefix < testNetPrefixes.length := by
    show slot / 256 < 3
    omega
  have start : testNetPrefixes[slot / testNetHostsPerPrefix] ∈ testNetPrefixes := getElem_mem block
  have split : testNetAddress slot =
      testNetPrefixes[slot / testNetHostsPerPrefix] ++ Nat.toDigits 10 (slot % testNetHostsPerPrefix) := by
    unfold testNetAddress
    rw [getElem?_eq_getElem block]
    rfl
  obtain ⟨letters, dot⟩ := known _ start
  apply foreign_grouped
  · intro letter member
    rw [split] at member
    rcases mem_append.mp member with front | digit
    · exact letters letter front
    · have isDigit := Nat.isDigit_of_mem_toDigits (by decide) (by decide) digit
      exact .inl (Bool.or_eq_true_iff.mpr (.inl isDigit))
  · refine ⟨'.', ?_, by decide⟩
    rw [split]
    exact mem_append_left _ dot

def Plain (text : Text) : Prop := ∀ letter ∈ text, letter ∉ brackets ∧ isSpace letter.toNat = false

theorem plain_of_all (each : text.all (fun letter => !brackets.contains letter && !isSpace letter.toNat) = true) :
    Plain text := by
  intro letter member
  simpa using all_eq_true.mp each letter member

theorem Plain.append {front back : Text} (first : Plain front) (second : Plain back) : Plain (front ++ back) :=
  fun letter member => (mem_append.mp member).elim (first letter) (second letter)

theorem Hex.plain (hex : Hex text) : Plain text := fun letter member =>
  ⟨(grouped_plain (.inl (hex letter member))).1, (grouped_plain (.inl (hex letter member))).2.1⟩

variable {kind : Kind} {value : Text}

theorem natural_foreign {builder : Text → Text → Nat → Option Text} {suffix placeholder : Text} {trial : Nat}
    (builds : naturalPlaceholderBuilders kind = some builder) (hex : Hex suffix)
    (built : builder value suffix trial = some placeholder) : Foreign placeholder := by
  cases kind with
  | email =>
    cases builds
    cases built
    have word : Plain "redacted-".toList := plain_of_all rfl
    have host : Plain ('@' :: naturalPlaceholderDomain) := plain_of_all rfl
    have letters : Plain ("redacted-".toList ++ suffix ++ '@' :: naturalPlaceholderDomain) :=
      (word.append hex.plain).append host
    exact ⟨fun letter member => (letters letter member).1, fun letter member => (letters letter member).2,
      fun letter isHead => by rw [← some.inj isHead]; decide, ⟨'-', by simp, by decide⟩⟩
  | url =>
    cases builds
    cases built
    have path : Plain ("https://".toList ++ naturalPlaceholderDomain ++ "/r/".toList) := plain_of_all rfl
    have letters : Plain ("https://".toList ++ naturalPlaceholderDomain ++ "/r/".toList ++ suffix) :=
      path.append hex.plain
    exact ⟨fun letter member => (letters letter member).1, fun letter member => (letters letter member).2,
      fun letter isHead => by rw [← some.inj isHead]; decide, ⟨':', by simp, by decide⟩⟩
  | ipAddress =>
    cases builds
    unfold naturalIPAddress at built
    dsimp only at built
    split at built
    · split at built
      · rename_i groups parsed
        cases built
        have eight : groups.length = 8 := by
          unfold parse at parsed
          split at parsed
          · obtain ⟨octets, _, contra⟩ := Option.map_eq_some_iff.mp parsed
            cases contra
          · obtain ⟨read, isRead, same⟩ := Option.map_eq_some_iff.mp parsed
            rw [← Address.v6.inj same]
            exact parseIPv6_length isRead
          · cases parsed
        exact foreign_grouped (formatIPv6_grouped groups) ⟨':', formatIPv6_colon (by omega), by decide⟩
      · cases built
    · obtain ⟨index, _, built⟩ := Option.bind_eq_some_iff.mp built
      split at built
      · cases built
      · cases built
        exact testNetAddress_foreign (Nat.mod_lt _ (by decide))
  | _ => cases builds

/-! ### What a conversation emits -/

def Issued (ledger : Ledger) : Prop := ∀ owner standIn, ledger.standInOf owner = some standIn → Emitted standIn .natural

def Issues (allocator : Allocator) : Prop := ∀ ledger ∈ allocator.ledger, Issued ledger

theorem Reserved.issues {allocator next : Allocator} {owner : Text} (reserved : Reserved allocator next text owner)
    (issues : Issues allocator) (emitted : owner ≠ [] → Emitted text .natural) : Issues next := by
  intro after isAfter
  by_cases claims : isIPv4 text = true ∧ owner ≠ []
  · obtain ⟨ledger, granted, isLedger, isGranted, claimed⟩ := reserved.claimed claims.1 claims.2
    obtain rfl : granted = after := some.inj (isGranted.symm.trans isAfter)
    obtain ⟨owners, _, _⟩ := Ledger.claim_granted claims.2 claimed
    intro other standIn found
    unfold Ledger.standInOf at found
    rw [owners, lookup_insert_if] at found
    split at found
    · rw [← some.inj found]
      exact emitted claims.2
    · exact issues ledger isLedger other standIn found
  · have kept : isIPv4 text = false ∨ owner = [] := by
      by_cases dotted : isIPv4 text = true
      · exact .inr (by_contra fun named => claims ⟨dotted, named⟩)
      · exact .inl (Bool.not_eq_true _ ▸ dotted)
    rw [reserved.frame kept] at isAfter
    exact issues after isAfter

section
variable {digest : Digest} (hexadecimal : HexDigest digest)

variable {allocator next : Allocator}

theorem firstFree_emitted {owner : Text} {candidate : Nat → Option Text} {style : PlaceholderStyle}
    {found : Option Text} (searched : allocator.firstFree owner candidate trials = (found, next))
    (issues : Issues allocator) (emitted : ∀ trial text, candidate trial = some text → Emitted text style)
    (named : owner ≠ [] → style = .natural) :
    Issues next ∧ ∀ text ∈ found, Emitted text style := by
  rcases Allocator.firstFree_cases searched with ⟨rfl, rfl⟩ | ⟨text, trial, rfl, built, reserved⟩
  · exact ⟨issues, fun text isFound => by cases isFound⟩
  · have form := emitted trial text built
    refine ⟨Reserved.issues reserved issues fun some_owner => named some_owner ▸ form, fun other isFound => ?_⟩
    rw [← some.inj isFound]
    exact form

include hexadecimal

variable {found : Option (Text × PlaceholderStyle)}

theorem allocateToken_emitted (ran : allocator.allocateToken digest kind value = (found, next))
    (issues : Issues allocator) :
    Issues next ∧ ∀ placed ∈ found, Emitted placed.1 placed.2 := by
  unfold Allocator.allocateToken at ran
  rcases searched : allocator.firstFree [] (fun trial => some (withPlaceholderSuffix (replacementFor kind)
      (StandIns.derive digest kind value trial placeholderTokenHexLength))) trials with ⟨result, after⟩
  rw [searched] at ran
  have tokens : Issues after ∧ ∀ text ∈ result, Emitted text .token := by
    apply firstFree_emitted searched issues
    · intro trial text built
      rw [← some.inj built]
      exact .token kind (hexadecimal.derive kind value trial _) (hexadecimal.derive_length kind value trial (by decide))
    · exact fun named => absurd rfl named
  cases result with
  | none =>
    cases ran
    exact ⟨tokens.1, fun placed isPlaced => by cases isPlaced⟩
  | some text =>
    cases ran
    refine ⟨tokens.1, fun placed isPlaced => ?_⟩
    rw [← some.inj isPlaced]
    exact tokens.2 text rfl

theorem allocateNatural_emitted {found : Option Text}
    (ran : allocator.allocateNatural digest kind value = (found, next)) (issues : Issues allocator) :
    Issues next ∧ ∀ text ∈ found, Emitted text .natural := by
  unfold Allocator.allocateNatural at ran
  cases builds : naturalPlaceholderBuilders kind with
  | none =>
    rw [builds] at ran
    cases ran
    exact ⟨issues, fun text isFound => by cases isFound⟩
  | some builder =>
    rw [builds] at ran
    dsimp only at ran
    have forms : ∀ trial text,
        builder value (StandIns.derive digest kind value trial placeholderNaturalHexLength) trial = some text →
          Emitted text .natural := fun trial text built => .natural builds (hexadecimal.derive kind value trial _) built
    have searches : ∀ {owner before}, before.firstFree owner
        (fun trial => builder value (StandIns.derive digest kind value trial placeholderNaturalHexLength) trial) trials =
          (found, next) → Issues before → Issues next ∧ ∀ text ∈ found, Emitted text .natural :=
      fun searched kept => firstFree_emitted searched kept forms fun _ => rfl
    cases held : (if kind = .ipAddress then allocator.ledger else none) with
    | none =>
      rw [held] at ran
      exact searches ran issues
    | some ledger =>
      rw [held] at ran
      dsimp only at ran
      have isLedger : allocator.ledger = some ledger := by
        split at held
        · exact held
        · cases held
      cases issued : ledger.standInOf (ownerOf digest value) with
      | none =>
        rw [issued] at ran
        exact searches ran issues
      | some standIn =>
        rw [issued] at ran
        dsimp only at ran
        have form := issues ledger isLedger _ standIn issued
        rcases reserving : allocator.reserve standIn (ownerOf digest value) with ⟨granted, after⟩
        rw [reserving] at ran
        cases granted with
        | true =>
          cases ran
          refine ⟨Reserved.issues (Allocator.reserve_taken reserving) issues fun _ => form, fun text isFound => ?_⟩
          rw [← some.inj isFound]
          exact form
        | false =>
          obtain rfl := Allocator.reserve_refused reserving
          exact searches ran issues

theorem allocate_emitted (ran : allocator.allocate digest kind value = (found, next)) (issues : Issues allocator) :
    Issues next ∧ ∀ placed ∈ found, Emitted placed.1 placed.2 := by
  unfold Allocator.allocate at ran
  split at ran
  · rcases natural : allocator.allocateNatural digest kind value with ⟨result, after⟩
    obtain ⟨kept, forms⟩ := allocateNatural_emitted hexadecimal natural issues
    rw [natural] at ran
    cases result with
    | none => exact allocateToken_emitted hexadecimal ran kept
    | some text =>
      cases ran
      refine ⟨kept, fun placed isPlaced => ?_⟩
      rw [← some.inj isPlaced]
      exact forms text rfl
  · exact allocateToken_emitted hexadecimal ran issues

theorem assign_emitted (items : List (Kind × Text)) :
    ∀ {allocator next : Allocator} {placed : List Redaction} {result : Option (List Redaction)},
      allocator.assign digest items placed = (result, next) → Issues allocator →
      (∀ redaction ∈ placed, Emitted redaction.placeholder redaction.style) →
      Issues next ∧ ∀ redactions ∈ result, ∀ redaction ∈ redactions, Emitted redaction.placeholder redaction.style := by
  induction items with
  | nil =>
    intro allocator next placed result ran issues forms
    cases ran
    refine ⟨issues, fun redactions same => ?_⟩
    rw [← some.inj same]
    exact forms
  | cons item items ih =>
    intro allocator next placed result ran issues forms
    obtain ⟨kind, value⟩ := item
    rw [Allocator.assign] at ran
    split at ran
    · exact ih ran issues forms
    · rcases allocating : allocator.allocate digest kind value with ⟨found, after⟩
      obtain ⟨kept, form⟩ := allocate_emitted hexadecimal allocating issues
      rw [allocating] at ran
      cases found with
      | none =>
        cases ran
        exact ⟨kept, fun redactions same => by cases same⟩
      | some given =>
        obtain ⟨placeholder, style⟩ := given
        refine ih ran kept fun redaction member => ?_
        rcases mem_append.mp member with earlier | last
        · exact forms redaction earlier
        · rw [mem_singleton.mp last]
          exact form _ rfl

theorem Issued.request {ledger : Ledger} (issued : Issued ledger) (request : Request) :
    Issued (ledger.after digest request) ∧ ∀ redactions ∈ (request.assign digest ledger).1, ∀ redaction ∈ redactions,
      Emitted redaction.placeholder redaction.style := by
  have issues : Issues (request.allocator ledger) := by
    intro other isOther
    unfold Request.allocator at isOther
    dsimp only at isOther
    split at isOther
    · rw [← some.inj isOther]
      exact issued
    · cases isOther
  have ran : (request.allocator ledger).assign digest request.items [] =
      ((request.assign digest ledger).1, (request.assign digest ledger).2) := rfl
  obtain ⟨kept, forms⟩ := assign_emitted hexadecimal request.items ran issues fun redaction member => by cases member
  refine ⟨?_, forms⟩
  unfold Ledger.after
  cases found : (request.assign digest ledger).2.ledger with
  | none => exact issued
  | some after => exact kept after found

theorem conversation_emitted (requests : List Request) :
    ∀ {ledger : Ledger}, Issued ledger → Issued (ledger.afterAll digest requests) := by
  induction requests with
  | nil => exact fun issued => issued
  | cons request requests ih => exact fun issued => ih (issued.request hexadecimal request).1

end

/-! ### Findings inside a placeholder -/

theorem isTokenPlaceholderSpan_foreign {word : Text} (foreign : Foreign word) (pre post : Text) {from_ to_ : Nat}
    (some_letter : from_ < to_) (inside : to_ ≤ word.length) :
    isTokenPlaceholderSpan (pre ++ word ++ post) (pre.length + from_) (pre.length + to_) = false := by
  have short : pre.length + to_ ≤ (pre ++ word ++ post).length := by
    rw [length_append, length_append]
    omega
  rw [isTokenPlaceholderSpan_solid short (by omega)]
  · exact isMarkerSpan_foreign foreign pre post some_letter inside
  · rw [covered_part inside]
    exact fun letter member => foreign.solid letter (mem_of_mem_take (mem_of_mem_drop member))

theorem Emitted.span {placeholder : Text} {style : PlaceholderStyle} (emitted : Emitted placeholder style) (pre post : Text)
    {from_ to_ : Nat} (some_letter : from_ < to_) (inside : to_ ≤ placeholder.length) :
    isTokenPlaceholderSpan (pre ++ placeholder ++ post) (pre.length + from_) (pre.length + to_) = decide (style = .token) := by
  cases emitted with
  | token kind hex sixteen =>
    rw [token_span hex sixteen pre post some_letter inside]
    rfl
  | natural builds hex built =>
    rw [isTokenPlaceholderSpan_foreign (natural_foreign builds hex built) pre post some_letter inside]
    rfl

section
variable {Score : Type} [LT Score] [DecidableLT Score]

structure Inside (finding : Finding Score) (segments : List Segment) (segment : Segment) (placeholder : Text) : Prop where
  here : segments[finding.segment]? = some segment
  part : ∃ pre post, segment.value = pre ++ placeholder ++ post ∧ pre.length ≤ finding.start ∧
    finding.start < finding.finish ∧ finding.finish ≤ pre.length + placeholder.length

def coveredText (finding : Finding Score) (segment : Segment) : Text :=
  (segment.value.take finding.finish).drop finding.start

/-- The policy leaves the finding alone for another reason than a placeholder. -/
def LeftAnyway (lower : Char → Char) (policy : Policy Score) (list : Allowlist) (finding : Finding Score)
    (segment : Segment) : Prop :=
  (policy.kindRule finding.kind).enabled = false ∨
    (policy.mode = .localModel ∧ finding.confidence < policy.minConfidence) ∨
    list.allows lower finding.kind (coveredText finding segment) = true ∨
    isExampleValue finding.kind (coveredText finding segment) = true ∨
    isAstrLinkIdentifierSpan segment.value finding.start finding.finish = true

theorem suppressed_iff (lower : Char → Char) (policy : Policy Score) (list : Allowlist) {finding : Finding Score}
    {segments : List Segment} {segment : Segment} (here : segments[finding.segment]? = some segment) :
    suppressionFor lower policy list finding segments ≠ none ↔
      isTokenPlaceholderSpan segment.value finding.start finding.finish = true ∨
        isNaturalPlaceholder lower finding.kind (coveredText finding segment) = true ∨
        LeftAnyway lower policy list finding segment := by
  unfold suppressionFor LeftAnyway
  rw [here]
  dsimp only
  by_cases disabled : (policy.kindRule finding.kind).enabled = false
  · rw [if_pos disabled]
    exact ⟨fun _ => .inr (.inr (.inl disabled)), fun _ contra => by cases contra⟩
  rw [if_neg disabled]
  by_cases unsure : policy.mode = .localModel ∧ finding.confidence < policy.minConfidence
  · rw [if_pos unsure]
    exact ⟨fun _ => .inr (.inr (.inr (.inl unsure))), fun _ contra => by cases contra⟩
  rw [if_neg unsure]
  by_cases marker : isTokenPlaceholderSpan segment.value finding.start finding.finish = true
  · rw [marker, Bool.or_true, if_pos rfl]
    exact ⟨fun _ => .inl rfl, fun _ contra => by cases contra⟩
  by_cases natural : isNaturalPlaceholder lower finding.kind (coveredText finding segment) = true
  · unfold coveredText at natural
    rw [natural, Bool.true_or, if_pos rfl]
    exact ⟨fun _ => .inr (.inl natural), fun _ contra => by cases contra⟩
  have neither : ¬ (isNaturalPlaceholder lower finding.kind (coveredText finding segment) ||
      isTokenPlaceholderSpan segment.value finding.start finding.finish) = true := by
    rw [Bool.or_eq_true_iff]
    exact not_or.mpr ⟨natural, marker⟩
  unfold coveredText at neither natural ⊢
  rw [if_neg neither]
  by_cases allowed : list.allows lower finding.kind ((segment.value.take finding.finish).drop finding.start) = true
  · rw [if_pos allowed]
    exact ⟨fun _ => .inr (.inr (.inr (.inr (.inl allowed)))), fun _ contra => by cases contra⟩
  rw [if_neg allowed]
  by_cases example_ : isExampleValue finding.kind ((segment.value.take finding.finish).drop finding.start) = true
  · rw [if_pos example_]
    exact ⟨fun _ => .inr (.inr (.inr (.inr (.inr (.inl example_))))), fun _ contra => by cases contra⟩
  rw [if_neg example_]
  by_cases identifier : isAstrLinkIdentifierSpan segment.value finding.start finding.finish = true
  · rw [if_pos identifier]
    exact ⟨fun _ => .inr (.inr (.inr (.inr (.inr (.inr identifier))))), fun _ contra => by cases contra⟩
  rw [if_neg identifier]
  constructor
  · exact fun contra => absurd rfl contra
  · rintro (contra | contra | contra | contra | contra | contra | contra)
    exacts [absurd contra marker, absurd contra natural, absurd contra disabled, absurd contra unsure,
      absurd contra allowed, absurd contra example_, absurd contra identifier]

/-- A finding inside a placeholder of the conversation is suppressed exactly when the placeholder is a token marker, when
what the finding covers is of the reserved namespace of its own kind, or when it would be suppressed anyway. -/
theorem left_alone_iff (lower : Char → Char) (digest : Digest) (hexadecimal : HexDigest digest) (requests : List Request)
    (request : Request) (redactions : List Redaction)
    (assigned : (request.assign digest (Ledger.fresh.afterAll digest requests)).1 = some redactions)
    (redaction : Redaction) (placed : redaction ∈ redactions) (policy : Policy Score) (list : Allowlist)
    (finding : Finding Score) (segments : List Segment) (segment : Segment)
    (inside : Inside finding segments segment redaction.placeholder) :
    suppressionFor lower policy list finding segments ≠ none ↔
      redaction.style = .token ∨ isNaturalPlaceholder lower finding.kind (coveredText finding segment) = true ∨
        LeftAnyway lower policy list finding segment := by
  have fresh : Issued Ledger.fresh := fun owner standIn found => by cases found
  have emitted := ((conversation_emitted hexadecimal requests fresh).request hexadecimal request).2 redactions assigned
    redaction placed
  obtain ⟨here, pre, post, text, starts, some_letter, ends⟩ := inside
  have span : isTokenPlaceholderSpan (pre ++ redaction.placeholder ++ post) (pre.length + (finding.start - pre.length))
      (pre.length + (finding.finish - pre.length)) = decide (redaction.style = .token) :=
    emitted.span pre post (by omega) (by omega)
  rw [Nat.add_sub_cancel' starts, Nat.add_sub_cancel' (by omega), ← text] at span
  rw [suppressed_iff lower policy list here, span, decide_eq_true_eq]

end

def zeroDigest : Digest := fun _ _ _ => List.replicate 64 '0'

theorem zeroDigest_hex : HexDigest zeroDigest where
  hex := fun _ _ _ letter member => by
    rw [(mem_replicate.mp member).2]
    decide
  long := fun _ _ _ => Nat.le_refl 64

def oneValue (style : PlaceholderStyle) (kind : Kind) : Request := ⟨fun _ => style, [], [(kind, ['a'])]⟩

def foundIn (kind : Kind) (start finish : Nat) : Finding Nat := ⟨0, start, finish, kind, 1, none, []⟩

def everyKind : Policy Nat := ⟨.regex, 0, none⟩

theorem left_alone_iff_marker :
    suppressionFor Char.toLower everyKind ⟨[], [], []⟩ (foundIn .email 3 9)
      [⟨"<PRIVATE_PHONE_0000000000000000>".toList, []⟩] ≠ none :=
  (left_alone_iff Char.toLower zeroDigest zeroDigest_hex [] (oneValue .token .phone)
    [⟨"<PRIVATE_PHONE_0000000000000000>".toList, .phone, ['a'], .token⟩] (by decide +kernel) _ mem_cons_self
    everyKind ⟨[], [], []⟩ (foundIn .email 3 9) [⟨"<PRIVATE_PHONE_0000000000000000>".toList, []⟩] _
    ⟨rfl, [], [], by decide, by decide, by decide, by decide⟩).mpr (.inl rfl)

/-- The stand-in of an address is redacted again when it is found as a name. -/
theorem standIn_found_as_name :
    ¬ ∀ (digest : Digest), HexDigest digest → ∀ (request : Request) (redactions : List Redaction),
      (request.assign digest Ledger.fresh).1 = some redactions → ∀ redaction ∈ redactions,
      ∀ (policy : Policy Nat) (list : Allowlist) (finding : Finding Nat) (segments : List Segment) (segment : Segment),
        Inside finding segments segment redaction.placeholder →
          suppressionFor Char.toLower policy list finding segments ≠ none := by
  intro all
  have assigned : ((oneValue .natural .email).assign zeroDigest Ledger.fresh).1 =
      some [⟨"redacted-000000000000@private.invalid".toList, .email, ['a'], .natural⟩] := by decide +kernel
  exact all zeroDigest zeroDigest_hex _ _ assigned _ mem_cons_self everyKind ⟨[], [], []⟩ (foundIn .person 0 37)
    [⟨"redacted-000000000000@private.invalid".toList, []⟩] _
    ⟨rfl, [], [], by decide, by decide, by decide, by decide⟩ (by decide +kernel)

end AstrLink.Suppressing
