import Mathlib.Data.List.TakeDrop
import AstrLink.KeysetPages
import AstrLink.SessionPages

/-!
The session list is paged exactly: the pages are those of a list sorted by the stored time of a session's
newest matching root and its id, and following them lists every matching session once (`session_paging`).
-/
namespace AstrLink.SessionPages
open StoredTimes KeysetPages List

/-- Whether a session comes after another in the list. -/
def behind (item other : SessionAggregate) : Bool :=
  before item.lastStartedAt other.lastStartedAt ||
    (item.lastStartedAt == other.lastStartedAt && before item.id other.id)

variable {item other : SessionAggregate}

theorem behind_iff : behind item other = true ↔
    before item.lastStartedAt other.lastStartedAt = true ∨
      (item.lastStartedAt = other.lastStartedAt ∧ before item.id other.id = true) := by
  simp [behind]

theorem behind_irrefl (item : SessionAggregate) : behind item item = false := by
  simp [behind, before_irrefl]

theorem behind_trans {middle : SessionAggregate} (first : behind item middle = true)
    (second : behind middle other = true) :
    behind item other = true := by
  rw [behind_iff] at first second ⊢
  rcases first with earlier | ⟨same, first⟩
  · rcases second with earlier' | ⟨same', -⟩
    · exact .inl (before_trans earlier earlier')
    · exact .inl (same' ▸ earlier)
  · rcases second with earlier' | ⟨same', second⟩
    · exact .inl (same ▸ earlier')
    · exact .inr ⟨same.trans same', before_trans first second⟩

theorem behind_total (apart : item ≠ other) : behind item other = true ∨ behind other item = true := by
  rw [behind_iff, behind_iff]
  by_cases same : item.lastStartedAt = other.lastStartedAt
  · have ids : item.id ≠ other.id := by
      intro id
      cases item
      cases other
      exact apart (by simp_all)
    rcases before_total ids with first | second
    · exact .inl (.inr ⟨same, first⟩)
    · exact .inr (.inr ⟨same.symm, second⟩)
  · rcases before_total same with first | second
    · exact .inl (.inl first)
    · exact .inr (.inl second)

theorem behind_asymm (first : behind item other = true) : behind other item = false := by
  cases second : behind other item with
  | false => rfl
  | true =>
    have contra := behind_trans first second
    rw [behind_irrefl] at contra
    cases contra

theorem inOrder_eq (left right : SessionAggregate) : inOrder left right = !behind left right := by
  unfold inOrder behind
  by_cases same : left.lastStartedAt = right.lastStartedAt
  · simp [same, before_irrefl]
  · rcases before_total same with first | second
    · have reverse : before right.lastStartedAt left.lastStartedAt = false := by
        cases reverse : before right.lastStartedAt left.lastStartedAt with
        | false => rfl
        | true =>
          have contra := before_trans first reverse
          rw [before_irrefl] at contra
          cases contra
      simp [first, reverse, Ne.symm same]
    · have reverse : before left.lastStartedAt right.lastStartedAt = false := by
        cases reverse : before left.lastStartedAt right.lastStartedAt with
        | false => rfl
        | true =>
          have contra := before_trans second reverse
          rw [before_irrefl] at contra
          cases contra
      simp [second, reverse, same]

theorem inOrder_antisymm {left right : SessionAggregate} (first : inOrder left right = true) (second : inOrder right left = true) :
    left = right := by
  rw [inOrder_eq, Bool.not_eq_true'] at first second
  apply Decidable.byContradiction
  intro apart
  rcases behind_total apart with contra | contra
  · rw [first] at contra
    cases contra
  · rw [second] at contra
    cases contra

instance : Std.Total fun left right : SessionAggregate => inOrder left right = true where
  total left right := by
    rw [inOrder_eq, inOrder_eq]
    cases first : behind left right with
    | false => exact .inl rfl
    | true =>
      rw [behind_asymm first]
      exact .inr rfl

instance : IsTrans SessionAggregate fun left right => inOrder left right = true where
  trans left middle right first second := by
    rw [inOrder_eq, Bool.not_eq_true'] at first second ⊢
    cases last : behind left right with
    | false => rfl
    | true =>
      by_cases same : middle = right
      · rw [same] at first
        exact first.symm.trans last |>.symm
      · rcases behind_total same with contra | contra
        · rw [second] at contra
          cases contra
        · have reverse := behind_trans last contra
          rw [first] at reverse
          cases reverse

/-- `slices.SortStableFunc` in the list's order -/
def sorted (items : List SessionAggregate) : List SessionAggregate := items.insertionSort fun left right => inOrder left right

variable (items : List SessionAggregate)

theorem sorted_perm : (sorted items).Perm items := perm_insertionSort _ items

theorem sorted_pairwise : (sorted items).Pairwise fun left right => inOrder left right = true :=
  pairwise_insertionSort _ items

theorem sorted_unique {items arranged : List SessionAggregate} (perm : arranged.Perm items)
    (ordered : arranged.Pairwise fun left right => inOrder left right = true) : sorted items = arranged :=
  Perm.eq_of_pairwise (fun _ _ _ _ first second => inOrder_antisymm first second) (sorted_pairwise items) ordered
    ((sorted_perm items).trans perm.symm)

theorem sorted_filter (keep : SessionAggregate → Bool) : sorted (items.filter keep) = (sorted items).filter keep :=
  sorted_unique ((sorted_perm items).filter keep) ((sorted_pairwise items).sublist filter_sublist)

theorem sorted_split {items : List SessionAggregate} {front : SessionAggregate → Bool}
    (apart : ∀ item ∈ items, ∀ other ∈ items, front item = true → front other = false → inOrder item other = true) :
    sorted items = sorted (items.filter front) ++ sorted (items.filter fun item => !front item) := by
  apply sorted_unique
  · exact ((sorted_perm _).append (sorted_perm _)).trans (filter_append_perm front items)
  · apply pairwise_append.mpr
    refine ⟨sorted_pairwise _, sorted_pairwise _, ?_⟩
    intro item listed other listed'
    obtain ⟨member, first⟩ := mem_filter.mp ((sorted_perm _).mem_iff.mp listed)
    obtain ⟨member', second⟩ := mem_filter.mp ((sorted_perm _).mem_iff.mp listed')
    exact apart item member other member' first (by simpa using second)

/-- The rows without those of a session seen before. -/
def firsts : List SessionAggregate → List Text → List SessionAggregate
  | [], _ => []
  | item :: rows, seen => if seen.any (· == item.id) then firsts rows seen else item :: firsts rows (item.id :: seen)

/-- Times do not grow from row to row. -/
def Falling (rows : List SessionAggregate) : Prop :=
  rows.Pairwise fun item later => before item.lastStartedAt later.lastStartedAt = false

variable (rows : List SessionAggregate)

theorem firsts_sublist (seen : List Text) : (firsts rows seen).Sublist rows := by
  fun_induction firsts rows seen with
  | case1 => exact Sublist.refl _
  | case2 item rows seen held ih => exact ih.cons item
  | case3 item rows seen unheld ih => exact ih.cons_cons item

theorem firsts_unseen (seen : List Text) : ∀ item ∈ firsts rows seen, item.id ∉ seen := by
  fun_induction firsts rows seen with
  | case1 => simp
  | case2 item rows seen held ih => exact ih
  | case3 item rows seen unheld ih =>
    intro other listed
    rcases mem_cons.mp listed with rfl | listed
    · simpa using unheld
    · exact fun contra => ih other listed (mem_cons_of_mem _ contra)

theorem firsts_distinct (seen : List Text) : ((firsts rows seen).map SessionAggregate.id).Nodup := by
  fun_induction firsts rows seen with
  | case1 => exact nodup_nil
  | case2 item rows seen held ih => exact ih
  | case3 item rows seen unheld ih =>
    rw [map_cons, nodup_cons]
    refine ⟨fun contra => ?_, ih⟩
    obtain ⟨other, listed, same⟩ := mem_map.mp contra
    exact firsts_unseen rows (item.id :: seen) other listed (by rw [same]; exact mem_cons_self)

theorem mem_firsts {rows : List SessionAggregate} (falling : Falling rows) (seen : List Text) (item : SessionAggregate) :
    item ∈ firsts rows seen ↔ item ∈ rows ∧ item.id ∉ seen ∧
      ∀ other ∈ rows, other.id = item.id → before item.lastStartedAt other.lastStartedAt = false := by
  induction rows generalizing seen with
  | nil => simp [firsts]
  | cons first rows ih =>
    obtain ⟨newest, rest⟩ := pairwise_cons.mp falling
    rw [firsts]
    by_cases held : seen.any (· == first.id) = true
    · rw [if_pos held, ih rest]
      have known : first.id ∈ seen := by simpa using held
      constructor
      · rintro ⟨listed, unseen, latest⟩
        refine ⟨mem_cons_of_mem _ listed, unseen, fun other listed' same => ?_⟩
        rcases mem_cons.mp listed' with rfl | listed'
        · exact absurd (same ▸ known) unseen
        · exact latest other listed' same
      · rintro ⟨listed, unseen, latest⟩
        refine ⟨?_, unseen, fun other listed' => latest other (mem_cons_of_mem _ listed')⟩
        rcases mem_cons.mp listed with rfl | listed
        · exact absurd known unseen
        · exact listed
    · rw [if_neg held, mem_cons, ih rest]
      have unknown : first.id ∉ seen := by simpa using held
      constructor
      · rintro (rfl | ⟨listed, unseen, latest⟩)
        · refine ⟨mem_cons_self, unknown, fun other listed same => ?_⟩
          rcases mem_cons.mp listed with rfl | listed
          · exact before_irrefl _
          · exact newest other listed
        · rw [mem_cons, not_or] at unseen
          refine ⟨mem_cons_of_mem _ listed, unseen.2, fun other listed' same => ?_⟩
          rcases mem_cons.mp listed' with rfl | listed'
          · exact absurd same.symm unseen.1
          · exact latest other listed' same
      · rintro ⟨listed, unseen, latest⟩
        by_cases same : item.id = first.id
        · left
          rcases mem_cons.mp listed with rfl | listed
          · rfl
          · have earlier := latest first mem_cons_self same.symm
            have later := newest item listed
            have tied : item.lastStartedAt = first.lastStartedAt := by
              apply Decidable.byContradiction
              intro apart
              rcases before_total apart with contra | contra
              · rw [earlier] at contra
                cases contra
              · rw [later] at contra
                cases contra
            cases item
            cases first
            simp_all
        · right
          rcases mem_cons.mp listed with rfl | listed
          · exact absurd rfl same
          · refine ⟨listed, ?_, fun other listed' => latest other (mem_cons_of_mem _ listed')⟩
            rw [mem_cons, not_or]
            exact ⟨same, unseen⟩

/-- What is left out is earlier than the row at the page's edge. -/
def Beyond (limit : Nat) (kept left : List SessionAggregate) : Prop :=
  ∀ item ∈ left, ∃ edge, kept[limit]? = some edge ∧ before item.lastStartedAt edge.lastStartedAt = true

variable (limit : Nat)

theorem Beyond.nil (kept : List SessionAggregate) : Beyond limit kept [] := by
  intro item listed
  cases listed

theorem collect_keeps (listed : SessionAggregate → Bool) {rows : List SessionAggregate} (falling : Falling rows)
    (seen : List Text) (matched : List SessionAggregate) :
    ∃ left, matched ++ (firsts rows seen).filter (fun item => !listed item) = collect limit listed rows seen matched ++ left ∧
      Beyond limit (collect limit listed rows seen matched) left := by
  induction rows generalizing seen matched with
  | nil => exact ⟨[], rfl, Beyond.nil limit matched⟩
  | cons item rows ih =>
    obtain ⟨newest, rest⟩ := pairwise_cons.mp falling
    rw [collect]
    by_cases stops : ((matched[limit]?).any fun edge => before item.lastStartedAt edge.lastStartedAt) = true
    · rw [if_pos stops]
      refine ⟨(firsts (item :: rows) seen).filter (fun item => !listed item), rfl, fun other chosen => ?_⟩
      obtain ⟨edge, at_limit, earlier⟩ := (Option.any_eq_true _ _).mp stops
      refine ⟨edge, at_limit, ?_⟩
      have member := (firsts_sublist (item :: rows) seen).mem (mem_filter.mp chosen).1
      rcases mem_cons.mp member with rfl | member
      · exact earlier
      · by_cases same : other.lastStartedAt = item.lastStartedAt
        · rw [same]
          exact earlier
        · rcases before_total same with below | above
          · exact before_trans below earlier
          · rw [newest other member] at above
            cases above
    · rw [if_neg stops, firsts]
      by_cases held : seen.any (· == item.id) = true
      · rw [if_pos held, if_pos held]
        exact ih rest seen matched
      · rw [if_neg held, if_neg held]
        by_cases shown : listed item = true
        · rw [if_pos shown, filter_cons_of_neg (by rw [shown]; exact Bool.false_ne_true)]
          exact ih rest (item.id :: seen) matched
        · rw [if_neg shown, filter_cons_of_pos (by simpa using shown)]
          obtain ⟨left, same, beyond⟩ := ih rest (item.id :: seen) (matched ++ [item])
          refine ⟨left, ?_, beyond⟩
          rw [← same, List.append_assoc, singleton_append]

theorem take_sorted {limit : Nat} {kept left : List SessionAggregate} (falling : Falling (kept ++ left))
    (beyond : Beyond limit kept left) : (sorted (kept ++ left)).take (limit + 1) = (sorted kept).take (limit + 1) := by
  cases left with
  | nil => rw [append_nil]
  | cons first left =>
    obtain ⟨edge, at_limit, -⟩ := beyond first mem_cons_self
    let front : SessionAggregate → Bool := fun item => !before item.lastStartedAt edge.lastStartedAt
    have apart : ∀ item other : SessionAggregate, front item = true → front other = false → inOrder item other = true := by
      intro item other late early
      have late : before item.lastStartedAt edge.lastStartedAt = false := by simpa [front] using late
      have early : before other.lastStartedAt edge.lastStartedAt = true := by simpa [front] using early
      rw [inOrder_eq, Bool.not_eq_true']
      cases contra : behind item other with
      | false => rfl
      | true =>
        rcases behind_iff.mp contra with below | ⟨same, -⟩
        · rw [before_trans below early] at late
          cases late
        · rw [same, early] at late
          cases late
    have none_left : (first :: left).filter front = [] := by
      apply filter_eq_nil_iff.mpr
      intro item listed
      obtain ⟨edge', at_limit', earlier⟩ := beyond item listed
      rw [at_limit] at at_limit'
      cases at_limit'
      simp [front, earlier]
    have enough : limit + 1 ≤ (sorted (kept.filter front)).length := by
      have within : limit < kept.length := (List.getElem?_eq_some_iff.mp at_limit).1
      have all : (kept.take (limit + 1)).filter front = kept.take (limit + 1) := by
        apply filter_eq_self.mpr
        intro item listed
        obtain ⟨place, below, rfl⟩ := mem_take_iff_getElem.mp listed
        have kept_falling : Falling kept := (pairwise_append.mp falling).1
        have edge_is : kept[limit] = edge := (List.getElem?_eq_some_iff.mp at_limit).2
        by_cases same : place = limit
        · simp [front, same, edge_is, before_irrefl]
        · have order := pairwise_iff_getElem.mp kept_falling place limit (by omega) within (by omega)
          rw [edge_is] at order
          simp [front, order]
      have sub := ((take_sublist (limit + 1) kept).filter front).length_le
      rw [all, length_take] at sub
      rw [(sorted_perm _).length_eq]
      omega
    rw [@sorted_split (kept ++ first :: left) front fun item _ other _ => apart item other,
      @sorted_split kept front fun item _ other _ => apart item other, filter_append, none_left,
      append_nil, take_append_of_le_length enough, take_append_of_le_length enough]

theorem newestFirst_falling {record older : RequestRecord} (first : newestFirst record older = true) :
    before record.startedAt older.startedAt = false := by
  unfold newestFirst at first
  rw [inOrder_eq, Bool.not_eq_true'] at first
  cases contra : before record.startedAt older.startedAt with
  | false => rfl
  | true =>
    rw [behind_iff.mpr (.inl contra)] at first
    cases first

instance : Std.Total fun record older : RequestRecord => newestFirst record older = true where
  total _ _ := Std.Total.total (r := fun left right : SessionAggregate => inOrder left right = true) _ _

instance : IsTrans RequestRecord fun record older => newestFirst record older = true where
  trans _ _ _ first second := IsTrans.trans (r := fun left right : SessionAggregate => inOrder left right = true) _ _ _ first second

theorem scan_falling (records : List RequestRecord) (options : RequestSessionListOptions) :
    Falling (requestSessionScan records options) :=
  pairwise_map.mpr ((pairwise_insertionSort (fun record older => newestFirst record older = true) _).imp
    fun first => newestFirst_falling first)

variable {records : List RequestRecord} {options : RequestSessionListOptions}

theorem mem_scan :
    item ∈ requestSessionScan records options ↔ ∃ record ∈ records, selects options record = true ∧ record.aggregate = item := by
  simp only [requestSessionScan, mem_map, mem_insertionSort, mem_filter, and_assoc]

def sessions (records : List RequestRecord) (options : RequestSessionListOptions) : List SessionAggregate :=
  sorted (firsts (requestSessionScan records options) [])

theorem sessions_ordered (records : List RequestRecord) (options : RequestSessionListOptions) :
    Ordered behind (sessions records options) := by
  have distinct : (sessions records options).Pairwise (· ≠ ·) :=
    ((sorted_perm _).nodup_iff.mpr (Nodup.of_map _ (firsts_distinct _ [])))
  exact (distinct.and (sorted_pairwise _)).imp fun {first second} ⟨apart, order⟩ => by
    rw [inOrder_eq, Bool.not_eq_true'] at order
    rcases behind_total apart with contra | later
    · rw [order] at contra
      cases contra
    · exact ⟨later, order⟩

def Written (text : Text) : Prop := ∃ time : Time, text = time.format

/-- The time and the session of a row that the store wrote. -/
structure Stored (record : RequestRecord) : Prop where
  startedAt : Written record.startedAt
  session : validateResourceID record.session = true

/-- A session whose cursor reads back. -/
structure Placed (item : SessionAggregate) : Prop where
  lastStartedAt : Written item.lastStartedAt
  id : validateResourceID item.id = true

theorem sessions_placed (stored : ∀ record ∈ records, Stored record) (options : RequestSessionListOptions) :
    ∀ item ∈ sessions records options, Placed item := by
  intro item listed
  have row := (firsts_sublist _ _).mem ((sorted_perm _).mem_iff.mp listed)
  obtain ⟨record, held, -, rfl⟩ := mem_scan.mp row
  exact ⟨(stored record held).startedAt, (stored record held).session⟩

def cursorText : Option SessionAggregate → Text
  | none => []
  | some item => encodeRequestRecordCursor item.lastStartedAt item.id

theorem encode_ne_nil {text : Text} (some_text : text ≠ []) : Base64Url.encode text ≠ [] := by
  intro empty
  have read := Base64Url.decode_encode text
  rw [empty] at read
  exact some_text (Option.some.inj read).symm

theorem cursorText_eq_nil {cursor : Option SessionAggregate} : cursorText cursor = [] ↔ cursor = none := by
  cases cursor with
  | none => exact ⟨fun _ => rfl, fun _ => rfl⟩
  | some item =>
    constructor
    · intro contra
      exact absurd contra (encode_ne_nil (by simp))
    · intro contra
      cases contra

/-- A session by its newest root among those that the options match. -/
def IsNewest (records : List RequestRecord) (options : RequestSessionListOptions) (item : SessionAggregate) : Prop :=
  (∃ record ∈ records, selects options record = true ∧ record.aggregate = item) ∧
    ∀ record ∈ records, selects options record = true → record.session = item.id →
      before item.lastStartedAt record.startedAt = false

theorem mem_sessions : item ∈ sessions records options ↔ IsNewest records options item := by
  rw [sessions, (sorted_perm _).mem_iff, mem_firsts (scan_falling records options), IsNewest, mem_scan]
  simp only [not_mem_nil, not_false_eq_true, true_and]
  constructor
  · rintro ⟨row, latest⟩
    exact ⟨row, fun record held selected same => latest record.aggregate (mem_scan.mpr ⟨record, held, selected, rfl⟩) same⟩
  · rintro ⟨row, latest⟩
    refine ⟨row, fun other listed same => ?_⟩
    obtain ⟨record, held, selected, rfl⟩ := mem_scan.mp listed
    exact latest record held selected same

section
variable (other : Text → Option Text)

theorem decode_cursor (placed : Placed item) :
    decodeRequestRecordCursor other (encodeRequestRecordCursor item.lastStartedAt item.id) = .ok (item.lastStartedAt, item.id) := by
  obtain ⟨time, written⟩ := placed.lastStartedAt
  have parts : (item.lastStartedAt ++ 124 :: item.id).span (· ≠ 124) = (item.lastStartedAt, 124 :: item.id) := by
    have plain : ∀ byte ∈ item.lastStartedAt, decide (byte ≠ 124) = true := fun byte listed =>
      decide_eq_true (format_no_bar time byte (written ▸ listed))
    rw [span_eq_takeWhile_dropWhile, takeWhile_append_of_pos plain, dropWhile_append_of_pos plain]
    simp
  have reads : (rewritten other item.lastStartedAt).isNone = false := by
    rw [written, rewritten_format]
    rfl
  have some_cursor : encodeRequestRecordCursor item.lastStartedAt item.id ≠ [] := encode_ne_nil (by simp)
  rw [decodeRequestRecordCursor, if_neg some_cursor, encodeRequestRecordCursor, Base64Url.decode_encode]
  dsimp only
  rw [if_neg (not_not_intro rfl), parts]
  dsimp only
  rw [reads, placed.id]
  rfl

theorem isListed_cursor (last item : SessionAggregate) :
    isListed (cursorText (some last)) last.lastStartedAt last.id item = !behind item last := by
  have some_cursor : cursorText (some last) ≠ [] := cursorText_eq_nil.not.mpr (by simp)
  rw [← inOrder_eq, inOrder, isListed, decide_eq_true some_cursor, Bool.true_and, Bool.beq_comm]

/-- The limit of a page, when none is asked for too. -/
def RequestSessionListOptions.pageSize (options : RequestSessionListOptions) : Nat :=
  (if options.limit = 0 then defaultListLimit else options.limit).toNat

structure Accepted (options : RequestSessionListOptions) : Prop where
  kind : options.kind = [] ∨ options.kind = bytes "inference" ∨ options.kind = bytes "discovery"
  limit : 0 ≤ options.limit ∧ options.limit ≤ maxListLimit

theorem Accepted.pageSize_pos (accepted : Accepted options) : 0 < options.pageSize := by
  have limit := accepted.limit
  unfold RequestSessionListOptions.pageSize defaultListLimit
  split <;> omega

theorem collect_page (listed : SessionAggregate → Bool) (records : List RequestRecord)
    (options : RequestSessionListOptions) :
    (sorted (collect limit listed (requestSessionScan records options) [] [])).take (limit + 1) =
      ((sessions records options).filter fun item => !listed item).take (limit + 1) := by
  have falling := scan_falling records options
  obtain ⟨left, same, beyond⟩ := collect_keeps limit listed falling [] []
  rw [nil_append] at same
  have falling' : Falling (collect limit listed (requestSessionScan records options) [] [] ++ left) := by
    rw [← same]
    exact falling.sublist (filter_sublist.trans (firsts_sublist _ []))
  rw [← take_sorted falling' beyond, ← same, sorted_filter, sessions]

theorem cutPage_remaining (limit : Nat) {items : List SessionAggregate}
    (placed : ∀ item ∈ items, Placed item) (cursor : Option SessionAggregate) :
    cutPage other limit ((remaining behind items cursor).take (limit + 1)) =
      .ok ⟨(page behind limit items cursor).items, cursorText (page behind limit items cursor).next⟩ := by
  have within : ∀ item ∈ remaining behind items cursor, item ∈ items := fun item listed => remaining_subset behind listed
  unfold page
  dsimp only
  generalize remaining behind items cursor = left at within ⊢
  by_cases more : limit < left.length
  · have longer : limit < (left.take (limit + 1)).length := by
      rw [length_take]
      omega
    have first : (left.take (limit + 1)).take limit = left.take limit := by
      rw [take_take, Nat.min_eq_left (Nat.le_succ limit)]
    rw [cutPage, if_pos longer]
    dsimp only
    rw [first, if_pos more]
    cases last : (left.take limit).getLast? with
    | none => rfl
    | some item =>
      have member : item ∈ items := within item (mem_of_mem_take (mem_of_getLast? last))
      obtain ⟨time, written⟩ := (placed item member).lastStartedAt
      have reads : rewritten other item.lastStartedAt = some item.lastStartedAt := by
        rw [written, rewritten_format]
      dsimp only
      rw [reads]
      rfl
  · have short : ¬ limit < (left.take (limit + 1)).length := by
      rw [length_take]
      omega
    rw [cutPage, if_neg short, if_neg more, take_of_length_le (by omega), take_of_length_le (by omega)]
    rfl

theorem list_page (stored : ∀ record ∈ records, Stored record) (accepted : Accepted options)
    {cursor : Option SessionAggregate} (placed : ∀ item, cursor = some item → Placed item) :
    listRequestSessions other records { options with cursor := cursorText cursor } =
      .ok ⟨(page behind options.pageSize (sessions records options) cursor).items,
        cursorText (page behind options.pageSize (sessions records options) cursor).next⟩ := by
  have kinds : ¬ (options.kind ≠ [] ∧ options.kind ≠ bytes "inference" ∧ options.kind ≠ bytes "discovery") := by
    rintro ⟨first, second, third⟩
    rcases accepted.kind with same | same | same
    · exact first same
    · exact second same
    · exact third same
  have limits : ¬ ((if options.limit = 0 then defaultListLimit else options.limit) < 1 ∨
      maxListLimit < if options.limit = 0 then defaultListLimit else options.limit) := by
    have bounds := accepted.limit
    unfold maxListLimit at bounds ⊢
    unfold defaultListLimit
    split <;> omega
  -- The cursor reads back, and leaves out what is not behind it.
  obtain ⟨started, id, decoded, left⟩ : ∃ started id,
      decodeRequestRecordCursor other (cursorText cursor) = .ok (started, id) ∧
      (sessions records options).filter (fun item => !isListed (cursorText cursor) started id item) =
        remaining behind (sessions records options) cursor := by
    cases cursor with
    | none => exact ⟨[], [], rfl, filter_eq_self.mpr fun item listed => rfl⟩
    | some last =>
      refine ⟨last.lastStartedAt, last.id, decode_cursor other (placed last rfl), ?_⟩
      simp only [isListed_cursor, Bool.not_not]
      rfl
  have scan : requestSessionScan records { options with cursor := cursorText cursor } = requestSessionScan records options := rfl
  have kept := collect_page options.pageSize (isListed (cursorText cursor) started id) records options
  rw [left] at kept
  rw [listRequestSessions]
  rw [if_neg kinds]
  dsimp only
  rw [if_neg limits, decoded, scan]
  change cutPage other options.pageSize ((sorted (collect options.pageSize (isListed (cursorText cursor) started id)
    (requestSessionScan records options) [] [])).take (options.pageSize + 1)) = _
  rw [kept]
  exact cutPage_remaining other options.pageSize (sessions_placed stored options) cursor

theorem follow_walk {records : List RequestRecord} (stored : ∀ record ∈ records, Stored record)
    {options : RequestSessionListOptions} (accepted : Accepted options) (fuel : Nat) {cursor : Option SessionAggregate}
    (placed : ∀ item, cursor = some item → Placed item) :
    follow other records options fuel (cursorText cursor) =
      (walk behind options.pageSize (sessions records options) fuel cursor).map
        (·.map fun page => ⟨page.items, cursorText page.next⟩) := by
  induction fuel generalizing cursor with
  | zero => rfl
  | succ fuel ih =>
    rw [follow, list_page other stored accepted placed, walk]
    dsimp only
    generalize first : page behind options.pageSize (sessions records options) cursor = page
    cases next : page.next with
    | none =>
      rw [if_pos (cursorText_eq_nil.mpr rfl)]
      simp [next, cursorText]
    | some last =>
      have held : Placed last := sessions_placed stored options last (next_mem behind (first ▸ next))
      have goesOn : cursorText (some last) ≠ [] := cursorText_eq_nil.not.mpr (by simp)
      have rest := @ih (some last) (by rintro item ⟨⟩; exact held)
      dsimp only
      rw [if_neg goesOn, rest, Option.map_map, Option.map_map]
      congr 1
      funext pages
      rw [Function.comp_apply, Function.comp_apply, map_cons, next]

/-- Following the pages lists every matching session once, in order, in full pages. -/
theorem session_paging (records : List RequestRecord) (stored : ∀ record ∈ records, Stored record)
    (options : RequestSessionListOptions) (accepted : Accepted options) :
    ∃ pages, (∀ fuel, records.length < fuel → follow other records options fuel [] = some pages) ∧
      ((pages.flatMap RequestSessionPage.items).map SessionAggregate.id).Nodup ∧
      (∀ item, item ∈ pages.flatMap RequestSessionPage.items ↔ IsNewest records options item) ∧
      (pages.flatMap RequestSessionPage.items).Pairwise (fun first second => behind second first = true) ∧
      ∀ page ∈ pages.dropLast, page.items.length = options.pageSize := by
  have fits : (sessions records options).length ≤ records.length := by
    rw [sessions, (sorted_perm _).length_eq]
    refine (firsts_sublist _ []).length_le.trans ?_
    rw [requestSessionScan, length_map, length_insertionSort]
    exact length_filter_le _ _
  obtain ⟨walked, steps, flat, full⟩ :=
    walk_pages accepted.pageSize_pos behind_irrefl (sessions_ordered records options)
  let pages : List RequestSessionPage := walked.map fun page => ⟨page.items, cursorText page.next⟩
  have listed : pages.flatMap RequestSessionPage.items = sessions records options := by
    rw [← flat, flatMap_map]
  refine ⟨pages, ?_, ?_, ?_, ?_, ?_⟩
  · intro fuel enough
    have first := @follow_walk other records stored options accepted fuel none (fun item contra => by cases contra)
    rw [steps fuel (by omega)] at first
    exact first
  · rw [listed]
    exact ((sorted_perm _).map _).nodup_iff.mpr (firsts_distinct _ [])
  · intro item
    rw [listed]
    exact mem_sessions
  · rw [listed]
    exact (sessions_ordered records options).imp fun order => order.1
  · intro page held
    rw [← map_dropLast] at held
    obtain ⟨page', held', rfl⟩ := mem_map.mp held
    exact full page' held'

end

def sampleTime (second nanosecond : Nat) (second_lt : second < 60) (nanosecond_lt : nanosecond < 1000000000) : Time :=
  ⟨2026, 3, 1, 9, 30, second, nanosecond, by decide, by decide, by decide, by decide, by decide, second_lt, nanosecond_lt⟩

def sampleRoot (id session : String) (startedAt : Text) : RequestRecord :=
  { id := bytes id
    sessionID := some (bytes session)
    parentRequestID := none
    startedAt := startedAt
    status := bytes "succeeded"
    inputProtocol := bytes "openai.responses"
    requestedModel := none
    redirectTo := none
    recoveredModel := none
    serviceID := none
    localAccessTokenID := none }

/-- Two sessions tied on their newest roots, the second with an older root too, and a third. -/
def sampleRecords : List RequestRecord :=
  [sampleRoot "req_1" "ses_a" (sampleTime 5 120000000 (by decide) (by decide)).format,
    sampleRoot "req_2" "ses_b" (sampleTime 5 120000000 (by decide) (by decide)).format,
    sampleRoot "req_3" "ses_b" (sampleTime 3 0 (by decide) (by decide)).format,
    sampleRoot "req_4" "ses_c" (sampleTime 4 0 (by decide) (by decide)).format]

def sampleOptions : RequestSessionListOptions :=
  { kind := bytes "inference"
    limit := 1
    cursor := []
    fromTime := none
    toTime := none
    protocol := none
    serviceID := none
    localAccessTokenIDs := []
    models := []
    status := none }

theorem session_paging_tied :
    ((follow (fun _ => none) sampleRecords sampleOptions 5 []).map (·.map fun page => page.items.map SessionAggregate.id)) =
        some [[bytes "ses_b"], [bytes "ses_a"], [bytes "ses_c"]] ∧
      ∃ pages, (∀ fuel, sampleRecords.length < fuel → follow (fun _ => none) sampleRecords sampleOptions fuel [] = some pages) ∧
        ((pages.flatMap RequestSessionPage.items).map SessionAggregate.id).Nodup ∧
        (∀ item, item ∈ pages.flatMap RequestSessionPage.items ↔ IsNewest sampleRecords sampleOptions item) ∧
        (pages.flatMap RequestSessionPage.items).Pairwise (fun first second => behind second first = true) ∧
        ∀ page ∈ pages.dropLast, page.items.length = sampleOptions.pageSize := by
  refine ⟨by decide +kernel, session_paging (fun _ => none) sampleRecords ?_ sampleOptions ⟨.inr (.inl rfl), by decide⟩⟩
  intro record held
  simp only [sampleRecords, mem_cons, not_mem_nil, or_false] at held
  rcases held with rfl | rfl | rfl | rfl
  all_goals exact ⟨⟨_, rfl⟩, by decide⟩

end AstrLink.SessionPages
