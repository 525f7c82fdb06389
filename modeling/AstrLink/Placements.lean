import AstrLink.RestoredAddresses
import AstrLink.StructuredJson

/-!
The placeholders that the findings of a request get. In each segment the findings
that do not overlap are chosen, each distinct kind and value is allocated one
placeholder, and every placeholder is recorded once with what it stands for.
-/
namespace AstrLink.Placements
open JsonSyntax IPAddress StandIns StructuredJson List
open SpanSelection (Finding Failure selectNonOverlappingFindings placedBefore)
open Prod (mk.inj)

def textOf (bytes : Bytes) : Text := bytes.map fun byte => Char.ofNat byte.toNat

structure PlacedFinding (Score : Type) where
  finding : Finding Score
  value : Bytes
  placeholder : Text
  /-- A number in a structured payload is replaced by a string. -/
  quoted : Bool

def PlacedFinding.key {Score : Type} (item : PlacedFinding Score) : Kind × Text := (item.finding.kind, textOf item.value)

section
variable (sort : ∀ {α : Type}, (α → α → Bool) → List α → List α) (digest : Digest) {Score : Type}

def place (segment : ExtractedSegment) (finding : Finding Score) : PlacedFinding Score where
  finding := finding
  value := (segment.value.take finding.finish.toNat).drop finding.start.toNat
  placeholder := []
  quoted := segment.validateStructuredJSON &&
    (scanStructuredJSONLiterals segment.value).isNumber finding.start.toNat finding.finish.toNat

def selectSegment (extracted : List ExtractedSegment) (findings : List (Finding Score)) (segmentIndex : Int) :
    Except Failure (List (PlacedFinding Score)) :=
  match if 0 ≤ segmentIndex then extracted[segmentIndex.toNat]? else none with
  | none => .error .unsafeRewrite
  | some segment => do
    let chosen ← selectNonOverlappingFindings sort segment.value
      (findings.filter fun finding => finding.segment = segmentIndex)
    return chosen.map (place segment)

/-- What is chosen in all segments, sorted at the end. -/
def selectAll (extracted : List ExtractedSegment) (findings : List (Finding Score)) :
    Except Failure (List (PlacedFinding Score)) := do
  let chosen ← (findings.map Finding.segment).dedup.mapM (selectSegment sort extracted findings)
  return sort (fun first second => placedBefore first.finding second.finding) chosen.flatten

/-- The allocation of a finding's kind and value. -/
def assignedTo (table : List Redaction) (item : PlacedFinding Score) : Option Redaction :=
  table.find? fun assigned => (assigned.kind, assigned.value) = item.key

def withPlaceholder (table : List Redaction) (item : PlacedFinding Score) : PlacedFinding Score :=
  { item with placeholder := ((assignedTo table item).map Redaction.placeholder).getD [] }

def record (table : List Redaction) (redactions : List Redaction) (item : PlacedFinding Score) : List Redaction :=
  match assignedTo table item with
  | none => redactions
  | some assigned =>
    if redactions.any (·.placeholder = assigned.placeholder) then redactions
    else redactions ++ [⟨assigned.placeholder, item.finding.kind, textOf item.value, assigned.style⟩]

def textBefore : Text → Text → Bool
  | [], [] => false
  | [], _ :: _ => true
  | _ :: _, [] => false
  | first :: rest, second :: others => first < second || first == second && textBefore rest others

def assignPlaceholders (extracted : List ExtractedSegment) (findings : List (Finding Score)) (allocator : Allocator) :
    Except Failure (List (PlacedFinding Score) × List Redaction) × Allocator :=
  match selectAll sort extracted findings with
  | .error failure => (.error failure, allocator)
  | .ok selected =>
    match allocator.assign digest (selected.map PlacedFinding.key) [] with
    | (none, final) => (.error .unsafeRewrite, final)
    | (some table, final) =>
      (.ok (selected.map (withPlaceholder table),
        sort (fun first second => textBefore first.placeholder second.placeholder) (selected.foldl (record table) [])), final)

def newPlaceholderAllocator (resolve : Kind → PlaceholderStyle) (body : Bytes) (ledger : Option Ledger) : Allocator where
  resolve := resolve
  body := textOf body
  ledger := ledger
  used := []
  exhausted := []

end

theorem textOf_injective {first second : Bytes} (same : textOf first = textOf second) : first = second := by
  have each : Function.Injective fun byte : UInt8 => Char.ofNat byte.toNat := by
    intro left right equal
    have codes : ∀ byte : UInt8, (Char.ofNat byte.toNat).toNat = byte.toNat := by
      intro byte
      have small : byte.toNat.isValidChar := .inl (Nat.lt_trans byte.toNat_lt (by decide))
      rw [Char.ofNat, dif_pos small]
      rfl
    refine UInt8.toNat_inj.mp ?_
    rw [← codes left, ← codes right]
    exact congrArg Char.toNat equal
  exact map_injective_iff.mpr each same

/-! ### The allocations of a request -/

variable {kind : Kind} {value : Text}

section
variable {digest : Digest} {allocator final : Allocator} {items : List (Kind × Text)} {placed done : List Redaction}

theorem assign_covers (ran : allocator.assign digest items placed = (some done, final)) :
    (∀ earlier ∈ placed, earlier ∈ done) ∧ ∀ item ∈ items, ∃ redaction ∈ done, (redaction.kind, redaction.value) = item := by
  induction items generalizing allocator placed with
  | nil =>
    obtain ⟨same, _⟩ := mk.inj ran
    cases same
    exact ⟨fun _ member => member, fun _ member => by cases member⟩
  | cons item rest ih =>
    obtain ⟨kind, value⟩ := item
    rw [Allocator.assign] at ran
    split at ran
    · rename_i known
      obtain ⟨kept, covered⟩ := ih ran
      refine ⟨kept, forall_mem_cons.mpr ⟨?_, covered⟩⟩
      obtain ⟨earlier, member, same⟩ := any_eq_true.mp known
      simp only [Bool.and_eq_true, decide_eq_true_eq] at same
      exact ⟨earlier, kept earlier member, Prod.ext same.1 same.2⟩
    · split at ran
      · obtain ⟨kept, covered⟩ := ih ran
        refine ⟨fun earlier member => kept earlier (mem_append_left _ member), forall_mem_cons.mpr ⟨?_, covered⟩⟩
        exact ⟨_, kept _ (mem_append_right _ (mem_singleton_self _)), rfl⟩
      · cases ran

theorem assign_keyed (nodup : (placed.map fun earlier => (earlier.kind, earlier.value)).Nodup)
    (ran : allocator.assign digest items placed = (some done, final)) :
    (done.map fun redaction => (redaction.kind, redaction.value)).Nodup := by
  induction items generalizing allocator placed with
  | nil =>
    obtain ⟨same, _⟩ := mk.inj ran
    cases same
    exact nodup
  | cons item rest ih =>
    obtain ⟨kind, value⟩ := item
    rw [Allocator.assign] at ran
    split at ran
    · exact ih nodup ran
    · rename_i unknown
      split at ran
      · refine ih ?_ ran
        rw [map_append, nodup_append]
        refine ⟨nodup, by simp, ?_⟩
        intro key there other single same
        obtain ⟨earlier, listed, rfl⟩ := mem_map.mp there
        obtain rfl : other = (kind, value) := by simpa using single
        obtain ⟨sameKind, sameValue⟩ := mk.inj same
        exact unknown (any_eq_true.mpr ⟨earlier, listed, by simp [sameKind, sameValue]⟩)
      · cases ran

variable {next : Allocator}

theorem reserve_clear {candidate : Text} (reserved : Reserved allocator next candidate [])
    (taken : allocator.reserve candidate [] = (true, next)) (dotted : isIPv4 candidate = true) :
    restorableSpellingIn candidate allocator.body = false := by
  unfold Allocator.reserve at taken
  dsimp only at taken
  rw [if_neg reserved.free, if_pos dotted, if_pos rfl] at taken
  split at taken
  · cases taken
  · rename_i absent
    simpa using absent

theorem firstFree_clear {candidate : Nat → Option Text} {trials : List Nat} {text : Text}
    (searched : allocator.firstFree [] candidate trials = (some text, next)) (dotted : isIPv4 text = true) :
    restorableSpellingIn text allocator.body = false := by
  induction trials with
  | nil => cases searched
  | cons trial rest ih =>
    rw [Allocator.firstFree] at searched
    cases built : candidate trial with
    | none =>
      simp only [built] at searched
      cases searched
    | some found =>
      simp only [built] at searched
      rcases reserved : allocator.reserve found [] with ⟨granted, later⟩
      cases granted with
      | true =>
        simp only [reserved] at searched
        obtain ⟨same, rfl⟩ := mk.inj searched
        cases same
        exact reserve_clear (Allocator.reserve_taken reserved) reserved dotted
      | false =>
        simp only [reserved] at searched
        obtain rfl := Allocator.reserve_refused reserved
        exact ih searched

theorem firstFree_policy {owner : Text} {candidate : Nat → Option Text} {trials : List Nat} {found : Option Text}
    (searched : allocator.firstFree owner candidate trials = (found, next)) :
    next.body = allocator.body := by
  rcases Allocator.firstFree_cases searched with ⟨_, rfl⟩ | ⟨_, _, _, _, reserved⟩
  · rfl
  · exact reserved.policy.2.1

theorem allocate_clear {found : Option (Text × PlaceholderStyle)} (without : allocator.ledger = none)
    (ran : allocator.allocate digest kind value = (found, next)) :
    next.body = allocator.body ∧ ∀ text style, found = some (text, style) → isIPv4 text = true →
      restorableSpellingIn text allocator.body = false := by
  have token : ∀ before : Allocator, before.body = allocator.body →
      before.allocateToken digest kind value = (found, next) →
        next.body = allocator.body ∧ ∀ text style, found = some (text, style) → isIPv4 text = true →
          restorableSpellingIn text allocator.body = false := by
    intro before same ran
    rcases Allocator.allocateToken_cases ran with ⟨rfl, rfl⟩ | ⟨text, rfl, plain, reserved⟩
    · exact ⟨same, fun _ _ contra => by cases contra⟩
    · refine ⟨reserved.policy.2.1.trans same, fun other style equal dotted => ?_⟩
      obtain ⟨rfl, _⟩ := mk.inj (Option.some.inj equal)
      rw [plain] at dotted
      cases dotted
  have natural : ∀ {text later}, allocator.allocateNatural digest kind value = (text, later) →
      later.body = allocator.body ∧ ∀ chosen, text = some chosen → isIPv4 chosen = true →
        restorableSpellingIn chosen allocator.body = false := by
    intro text later ran
    unfold Allocator.allocateNatural at ran
    split at ran
    · cases ran
      exact ⟨rfl, fun _ contra => by cases contra⟩
    · simp only [without, ite_self] at ran
      refine ⟨firstFree_policy ran, fun chosen same => ?_⟩
      rw [same] at ran
      exact firstFree_clear ran
  unfold Allocator.allocate at ran
  split at ran
  · rcases chosen : allocator.allocateNatural digest kind value with ⟨_ | text, later⟩
    · simp only [chosen] at ran
      exact token { later with exhausted := kind :: later.exhausted } (natural chosen).1 ran
    · simp only [chosen] at ran
      cases ran
      refine ⟨(natural chosen).1, fun other style equal => ?_⟩
      obtain ⟨rfl, _⟩ := mk.inj (Option.some.inj equal)
      exact (natural chosen).2 _ rfl
  · exact token allocator rfl ran

theorem assign_clear (without : allocator.ledger = none)
    (ran : allocator.assign digest items placed = (some done, final)) :
    ∀ redaction ∈ done, redaction ∈ placed ∨
      (isIPv4 redaction.placeholder = true → restorableSpellingIn redaction.placeholder allocator.body = false) := by
  induction items generalizing allocator placed with
  | nil =>
    obtain ⟨same, _⟩ := mk.inj ran
    cases same
    exact fun _ member => .inl member
  | cons item rest ih =>
    obtain ⟨kind, value⟩ := item
    rw [Allocator.assign] at ran
    split at ran
    · exact ih without ran
    · split at ran
      · rename_i placeholder style next allocated
        obtain ⟨body, clear⟩ := allocate_clear without allocated
        intro redaction member
        rcases ih (allocate_without without allocated) ran redaction member with earlier | later
        · rcases mem_append.mp earlier with before | here
          · exact .inl before
          · rw [mem_singleton.mp here]
            exact .inr (clear placeholder style rfl)
        · rw [body] at later
          exact .inr later
      · cases ran

theorem allocate_token {text : Text} {style : PlaceholderStyle}
    (exhausted : kind ∈ allocator.exhausted ∨ (allocator.allocateNatural digest kind value).1 = none)
    (ran : allocator.allocate digest kind value = (some (text, style), next)) : style = .token := by
  have token : ∀ before : Allocator, before.allocateToken digest kind value = (some (text, style), next) → style = .token := by
    intro before ran
    rcases Allocator.allocateToken_cases ran with ⟨contra, _⟩ | ⟨_, same, _⟩
    · cases contra
    · exact (mk.inj (Option.some.inj same)).2
  unfold Allocator.allocate at ran
  split at ran
  · rename_i natural
    rcases chosen : allocator.allocateNatural digest kind value with ⟨_ | found, later⟩
    · simp only [chosen] at ran
      exact token _ ran
    · rcases exhausted with listed | empty
      · exact absurd listed natural.2
      · rw [chosen] at empty
        cases empty
  · exact token _ ran

theorem assign_token {before after : List (Kind × Text)} (first : (kind, value) ∉ before)
    (exhausted : kind ∈ (allocator.assign digest before []).2.exhausted ∨ ((allocator.assign digest before []).2.allocateNatural digest kind value).1 = none)
    (ran : allocator.assign digest (before ++ (kind, value) :: after) [] = (some done, final)) :
    ∃ redaction ∈ done, redaction.kind = kind ∧ redaction.value = value ∧ redaction.style = .token := by
  rw [assign_snoc] at ran
  rcases met : allocator.assign digest before [] with ⟨_ | earlier, state⟩
  · rw [met] at ran
    cases ran
  · rw [met] at ran exhausted
    dsimp only at ran exhausted
    obtain ⟨more, same, among⟩ := assign_placed met
    rw [nil_append] at same
    subst same
    have unplaced : ¬ earlier.any (fun redaction => redaction.kind = kind && redaction.value = value) = true := by
      intro contra
      obtain ⟨redaction, listed, equal⟩ := any_eq_true.mp contra
      simp only [Bool.and_eq_true, decide_eq_true_eq] at equal
      have there := (among redaction listed).1
      rw [equal.1, equal.2] at there
      exact first there
    rw [Allocator.assign, if_neg unplaced] at ran
    split at ran
    · rename_i text style next allocated
      have kept := (assign_covers ran).1 _ (mem_append_right _ (mem_singleton_self _))
      exact ⟨_, kept, rfl, rfl, allocate_token exhausted allocated⟩
    · cases ran

end

/-! ### The law of a request -/

section
variable {Score : Type} {table : List Redaction}

/-- A table has one row for each kind and value and one for each placeholder. -/
structure Tabled (table : List Redaction) (items : List (PlacedFinding Score)) : Prop where
  nodup : (table.map Redaction.placeholder).Nodup
  keyed : (table.map fun redaction => (redaction.kind, redaction.value)).Nodup
  covers : ∀ item ∈ items, ∃ redaction ∈ table, (redaction.kind, redaction.value) = item.key

variable {items : List (PlacedFinding Score)}

theorem Tabled.assigned (tabled : Tabled table items) {item : PlacedFinding Score} (member : item ∈ items) :
    ∃ redaction ∈ table, assignedTo table item = some redaction ∧ (redaction.kind, redaction.value) = item.key := by
  obtain ⟨redaction, listed, same⟩ := tabled.covers item member
  cases found : assignedTo table item with
  | none => exact absurd same (by simpa using find?_eq_none.mp found redaction listed)
  | some first =>
    exact ⟨first, mem_of_find?_eq_some found, rfl, by simpa using find?_some found⟩

theorem Tabled.unique (tabled : Tabled table items) {first second : Redaction} (left : first ∈ table)
    (right : second ∈ table) (same : first.placeholder = second.placeholder) : first = second :=
  inj_on_of_nodup_map tabled.nodup left right same

structure Recorded (table : List Redaction) (items : List (PlacedFinding Score)) (redactions : List Redaction) : Prop where
  nodup : (redactions.map Redaction.placeholder).Nodup
  listed : ∀ redaction ∈ redactions, redaction ∈ table
  covers : ∀ item ∈ items, ∀ assigned, assignedTo table item = some assigned → assigned ∈ redactions

theorem Recorded.record {before : List (PlacedFinding Score)} {redactions : List Redaction} {item : PlacedFinding Score}
    (recorded : Recorded table before redactions) (tabled : Tabled table items) (member : item ∈ items) :
    Recorded table (before ++ [item]) (record table redactions item) := by
  obtain ⟨assigned, listed, found, key⟩ := tabled.assigned member
  have row : (⟨assigned.placeholder, item.finding.kind, textOf item.value, assigned.style⟩ : Redaction) = assigned := by
    obtain ⟨kind, value⟩ := mk.inj key
    rw [← kind, ← value]
  have covers : ∀ {more : List Redaction}, redactions ⊆ more → assigned ∈ more →
      ∀ other ∈ before ++ [item], ∀ found, assignedTo table other = some found → found ∈ more := by
    intro more subset here other among row' found'
    rcases mem_append.mp among with earlier | last
    · exact subset (recorded.covers other earlier row' found')
    · rw [mem_singleton.mp last, found] at found'
      rwa [← Option.some.inj found']
  unfold Placements.record
  rw [found]
  dsimp only
  rw [row]
  split
  · rename_i known
    obtain ⟨earlier, there, same⟩ := any_eq_true.mp known
    have same : earlier.placeholder = assigned.placeholder := by simpa using same
    obtain rfl := tabled.unique (recorded.listed earlier there) listed same
    exact ⟨recorded.nodup, recorded.listed, covers (List.Subset.refl _) there⟩
  · rename_i unknown
    refine ⟨?nodup, ?listed, covers (subset_append_left _ _) (by simp)⟩
    case nodup =>
      rw [map_append, nodup_append]
      refine ⟨recorded.nodup, by simp, ?_⟩
      intro text there other single same
      obtain ⟨earlier, among, rfl⟩ := mem_map.mp there
      obtain rfl : other = assigned.placeholder := by simpa using single
      exact unknown (any_eq_true.mpr ⟨earlier, among, by simpa using same⟩)
    case listed =>
      intro redaction among
      rcases mem_append.mp among with earlier | last
      · exact recorded.listed redaction earlier
      · rwa [mem_singleton.mp last]

theorem recorded_all (tabled : Tabled table items) : Recorded table items (items.foldl (record table) []) := by
  have each : ∀ rest before redactions, rest ⊆ items → Recorded table before redactions →
      Recorded table (before ++ rest) (rest.foldl (record table) redactions) := by
    intro rest
    induction rest with
    | nil =>
      intro before redactions _ recorded
      rwa [append_nil]
    | cons item rest ih =>
      intro before redactions among recorded
      have later := ih (before ++ [item]) _ (fun other member => among (mem_cons_of_mem _ member))
        (recorded.record tabled (among mem_cons_self))
      rwa [List.append_assoc] at later
  have start : Recorded table ([] : List (PlacedFinding Score)) [] :=
    ⟨nodup_nil, fun _ member => (by cases member), fun _ member => (by cases member)⟩
  exact each items [] [] (List.Subset.refl _) start

/-- The law of the placeholders that a request gives out. -/
structure PlaceholderLaw (digest : Digest) (allocator : Allocator) (placed : List (PlacedFinding Score))
    (redactions : List Redaction) : Prop where
  injective : ∀ first ∈ placed, ∀ second ∈ placed,
    first.placeholder = second.placeholder ↔ first.finding.kind = second.finding.kind ∧ first.value = second.value
  /-- Every placeholder stands for one value. -/
  recorded : (redactions.map Redaction.placeholder).Nodup
  complete : ∀ item ∈ placed, ∃ redaction ∈ redactions, redaction.placeholder = item.placeholder ∧
    redaction.kind = item.finding.kind ∧ redaction.value = textOf item.value
  /-- Without a ledger no address that is handed out occurs in the body. -/
  absent : allocator.ledger = none → ∀ redaction ∈ redactions, isIPv4 redaction.placeholder = true →
    contains allocator.body redaction.placeholder = false
  /-- A value that comes when no natural form of its kind is left gets a token. -/
  fallback : ∀ before item after, placed = before ++ item :: after → item.key ∉ before.map PlacedFinding.key →
    let met := (allocator.assign digest (before.map PlacedFinding.key) []).2
    item.finding.kind ∈ met.exhausted ∨ (met.allocateNatural digest item.finding.kind (textOf item.value)).1 = none →
      ∃ redaction ∈ redactions, redaction.placeholder = item.placeholder ∧ redaction.style = .token

def Permutes (sort : ∀ {α : Type}, (α → α → Bool) → List α → List α) : Prop :=
  ∀ (α : Type) (less : α → α → Bool) (items : List α), (sort less items).Perm items

theorem contains_of_clear {body candidate : Text} (dotted : isIPv4 candidate = true)
    (clear : restorableSpellingIn candidate body = false) : contains body candidate = false := by
  unfold restorableSpellingIn at clear
  by_cases empty : body = []
  · rw [empty]
    cases candidate with
    | nil => exact absurd dotted (by decide)
    | cons first rest => rfl
  · simp only [Bool.and_eq_false_imp, decide_eq_true_eq, ne_eq, Bool.or_eq_false_iff] at clear
    exact (clear empty).1

/-- Placeholders are injective within a request, whatever the digest, the findings and the body are. -/
theorem placeholders_injective {sort : ∀ {α : Type}, (α → α → Bool) → List α → List α} (permutes : Permutes @sort)
    (digest : Digest) (extracted : List ExtractedSegment) (findings : List (Finding Score))
    (resolve : Kind → PlaceholderStyle) (body : Bytes) (ledger : Option Ledger) {placed : List (PlacedFinding Score)}
    {redactions : List Redaction}
    (ran : (assignPlaceholders @sort digest extracted findings (newPlaceholderAllocator resolve body ledger)).1 =
      .ok (placed, redactions)) :
    PlaceholderLaw digest (newPlaceholderAllocator resolve body ledger) placed redactions := by
  unfold assignPlaceholders at ran
  split at ran
  · cases ran
  · rename_i selected _
    rcases assigned : (newPlaceholderAllocator resolve body ledger).assign digest (selected.map PlacedFinding.key) []
      with ⟨_ | table, final⟩
    · rw [assigned] at ran
      cases ran
    · rw [assigned] at ran
      obtain ⟨rfl, sorted⟩ := mk.inj (Except.ok.inj ran)
      have covers := (assign_covers assigned).2
      have start : (([] : List Redaction).map Redaction.placeholder).Nodup := nodup_nil
      have keyless : (([] : List Redaction).map fun earlier => (earlier.kind, earlier.value)).Nodup := nodup_nil
      have tabled : Tabled table selected :=
        ⟨Restoring.assign_nodup start (by simp) assigned, assign_keyed keyless assigned,
          fun item member => covers _ (mem_map_of_mem member)⟩
      have recorded := recorded_all tabled
      have perm : redactions.Perm (selected.foldl (record table) []) := sorted ▸ permutes _ _ _
      have keys : (selected.map (withPlaceholder table)).map PlacedFinding.key = selected.map PlacedFinding.key := by
        rw [map_map]
        rfl
      have origin : ∀ item ∈ selected.map (withPlaceholder table), ∃ redaction ∈ table,
          redaction ∈ redactions ∧ redaction.placeholder = item.placeholder ∧
            (redaction.kind, redaction.value) = item.key ∧ assignedTo table item = some redaction := by
        intro item member
        obtain ⟨bare, among, rfl⟩ := mem_map.mp member
        obtain ⟨redaction, listed, found, key⟩ := tabled.assigned among
        refine ⟨redaction, listed, perm.mem_iff.mpr (recorded.covers bare among redaction found), ?_, key, found⟩
        rw [withPlaceholder, found]
        rfl
      refine ⟨?injective, ?recorded, ?complete, ?absent, ?fallback⟩
      case injective =>
        intro first left second right
        obtain ⟨row, listed, _, placeholder, key, found⟩ := origin first left
        obtain ⟨row', listed', _, placeholder', key', found'⟩ := origin second right
        constructor
        · intro same
          obtain rfl := tabled.unique listed listed' (placeholder.trans (same.trans placeholder'.symm))
          obtain ⟨kind, value⟩ := mk.inj (key.symm.trans key')
          exact ⟨kind, textOf_injective value⟩
        · rintro ⟨kind, value⟩
          have same : assignedTo table first = assignedTo table second := by
            unfold assignedTo PlacedFinding.key
            rw [kind, value]
          rw [same, found'] at found
          rw [← placeholder, ← placeholder', Option.some.inj found]
      case recorded => exact (perm.map _).nodup_iff.mpr recorded.nodup
      case complete =>
        intro item member
        obtain ⟨row, _, listed, placeholder, key, _⟩ := origin item member
        obtain ⟨kind, value⟩ := mk.inj key
        exact ⟨row, listed, placeholder, kind, value⟩
      case absent =>
        intro without redaction member dotted
        have among := recorded.listed redaction (perm.mem_iff.mp member)
        rcases assign_clear without assigned redaction among with contra | clear
        · cases contra
        · exact contains_of_clear dotted (clear dotted)
      case fallback =>
        intro before item after split first met exhausted
        have listed : item ∈ selected.map (withPlaceholder table) := by
          rw [split]
          simp
        have order : selected.map PlacedFinding.key =
            before.map PlacedFinding.key ++ item.key :: after.map PlacedFinding.key := by
          rw [← keys, split, map_append, map_cons]
        rw [order] at assigned
        obtain ⟨redaction, there, kind, value, token⟩ := assign_token first exhausted assigned
        obtain ⟨row, among, shown, placeholder, key, _⟩ := origin item listed
        have same : redaction = row :=
          inj_on_of_nodup_map tabled.keyed there among ((Prod.ext kind value).trans key.symm)
        exact ⟨row, shown, placeholder, same ▸ token⟩

end

def insertionSort {α : Type} (less : α → α → Bool) (items : List α) : List α :=
  items.insertionSort fun first second => less second first = false

def bytesOf (text : String) : Bytes := text.toList.map fun char => char.val.toUInt8

def addressFindings : List (Finding Nat) :=
  [⟨0, 0, 8, .ipAddress, 1, none, []⟩, ⟨0, 9, 17, .ipAddress, 1, none, []⟩, ⟨0, 18, 26, .ipAddress, 1, none, []⟩]

/-- The placeholders of the text `10.0.0.1 10.0.0.2 10.0.0.1` in a request that has the first stand-in in its body. -/
def addressRun : Except Failure (List (PlacedFinding Nat) × List Redaction) :=
  (assignPlaceholders insertionSort Restoring.nestedDigest [⟨bytesOf "10.0.0.1 10.0.0.2 10.0.0.1", false⟩] addressFindings
    (newPlaceholderAllocator everyNatural (bytesOf "10.0.0.1 10.0.0.2 10.0.0.1 203.0.113.1") none)).1

theorem placeholders_injective_addresses : ∃ placed redactions, addressRun = .ok (placed, redactions) ∧
    redactions.length = 2 ∧
      PlaceholderLaw Restoring.nestedDigest
        (newPlaceholderAllocator everyNatural (bytesOf "10.0.0.1 10.0.0.2 10.0.0.1 203.0.113.1") none) placed redactions := by
  have permutes : Permutes @insertionSort := fun _ _ items => perm_insertionSort _ items
  have two : (match addressRun with
      | .ok (_, redactions) => redactions.length == 2
      | .error _ => false) = true := by decide +kernel
  cases ran : addressRun with
  | error failure =>
    rw [ran] at two
    cases two
  | ok result =>
    rw [ran] at two
    exact ⟨result.1, result.2, rfl, by simpa using two, placeholders_injective permutes _ _ _ _ _ _ ran⟩

end AstrLink.Placements
