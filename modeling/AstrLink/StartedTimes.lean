import AstrLink.GregorianMonths
import AstrLink.SessionPaging

/-!
Stored times against time. The texts of two times lie in the order of the instants unless they share their
second and one fraction begins with the other (`agrees_iff`); lists, links and cutoffs follow the clock
otherwise (`started_order`).
-/
namespace AstrLink.StartedTimes
open StoredTimes SessionPages GregorianMonths List

def seconds (time : Time) : Int :=
  (firstOfMonth (12 * time.year + time.month - 1) + time.day - 1) * 86400 +
    (time.hour * 3600 + time.minute * 60 + time.second)

def instant (time : Time) : Int := seconds time * 1000000000 + time.nanosecond

theorem daysIn_length (time : Time) : firstOfMonth (12 * time.year + time.month - 1) + daysIn time.month time.year =
    firstOfMonth (12 * time.year + time.month) := by
  obtain ⟨low, high⟩ := time.month_range
  have leap : leapDay time.year = if isLeap time.year then 1 else 0 := by
    unfold leapDay isLeap
    refine if_congr ?_ rfl rfl
    simp only [Bool.and_eq_true, Bool.or_eq_true, beq_iff_eq, bne_iff_ne]
    omega
  have cases : time.month = 12 ∨ time.month < 12 := by omega
  have year : (12 * (time.year : Int) + time.month - 1) / 12 = time.year := by omega
  have within : (12 * (time.year : Int) + time.month - 1) % 12 = time.month - 1 := by omega
  unfold firstOfMonth
  rw [year, within]
  rcases cases with december | before
  · have next : (12 * (time.year : Int) + time.month) / 12 = time.year + 1 := by omega
    have january : (12 * (time.year : Int) + time.month) % 12 = 0 := by omega
    rw [next, january, daysBeforeYear_succ, december]
    simp [daysBeforeMonth, daysIn]
    omega
  · have same : (12 * (time.year : Int) + time.month) / 12 = time.year := by omega
    have next : (12 * (time.year : Int) + time.month) % 12 = time.month := by omega
    rw [same, next, leap]
    have months : time.month = 1 ∨ time.month = 2 ∨ time.month = 3 ∨ time.month = 4 ∨ time.month = 5 ∨ time.month = 6 ∨
        time.month = 7 ∨ time.month = 8 ∨ time.month = 9 ∨ time.month = 10 ∨ time.month = 11 := by omega
    rcases months with month | month | month | month | month | month | month | month | month | month | month <;>
      simp [month, daysBeforeMonth, daysIn] <;> try split <;> omega
    all_goals omega

/-! ### The order of the texts -/

theorem before_mark (mark : UInt8) (rest more : Text) : before (mark :: rest) (mark :: more) = before rest more := by
  simp [before]

theorem before_same (text rest more : Text) : before (text ++ rest) (text ++ more) = before rest more := by
  induction text with
  | nil => rfl
  | cons mark text ih => rw [cons_append, cons_append, before_mark, ih]

variable {text other : Text}

theorem before_append (even : text.length = other.length) (rest more : Text) :
    before (text ++ rest) (other ++ more) = true ↔ before text other = true ∨ (text = other ∧ before rest more = true) := by
  induction text generalizing other with
  | nil =>
    obtain rfl := length_eq_zero_iff.mp even.symm
    simp [before]
  | cons byte text ih =>
    cases other with
    | nil => cases even
    | cons byte' other =>
      have tails := ih (Nat.succ.inj even)
      simp only [cons_append, before_cons, tails, List.cons.injEq, ← UInt8.toNat_inj]
      grind

theorem before_apart (first : ¬ text <+: other) (second : ¬ other <+: text) (rest more : Text) :
    before (text ++ rest) (other ++ more) = before text other := by
  induction text generalizing other with
  | nil => exact absurd nil_prefix first
  | cons byte text ih =>
    cases other with
    | nil => exact absurd nil_prefix second
    | cons byte' other =>
      by_cases same : byte = byte'
      · subst same
        rw [prefix_cons_inj] at first second
        rw [cons_append, cons_append, before_mark, before_mark, ih first second]
      · have values : byte.toNat ≠ byte'.toNat := fun equal => same (UInt8.toNat_inj.mp equal)
        rcases Nat.lt_or_gt_of_ne values with below | above
        · simp [before, below]
        · simp [before, above, Nat.lt_asymm above]

theorem padded_inj {width value other : Nat} (small : value < 10 ^ width) (small' : other < 10 ^ width)
    (same : padded width value = padded width other) : value = other := by
  have numbers := number_padded small
  rw [same, number_padded small'] at numbers
  exact (Option.some.inj numbers).symm

theorem before_padded {width value other : Nat} (small : value < 10 ^ width) (small' : other < 10 ^ width) :
    before (padded width value) (padded width other) = true ↔ value < other := by
  induction width generalizing value other with
  | zero =>
    rw [Nat.pow_zero] at small small'
    simp [padded, before]
    omega
  | succ width ih =>
    rw [Nat.pow_succ] at small small'
    have low : value / 10 < 10 ^ width := by omega
    have low' : other / 10 < 10 ^ width := by omega
    have last : before [digit value] [digit other] = true ↔ value % 10 < other % 10 := by
      rw [before_cons, digit_toNat, digit_toNat]
      simp [before]
    have front : padded width (value / 10) = padded width (other / 10) ↔ value / 10 = other / 10 :=
      ⟨padded_inj low low', fun same => by rw [same]⟩
    rw [padded, padded, before_append (by simp [padded_length]), ih low low', last, front]
    omega

theorem before_field {width value other : Nat} (small : value < 10 ^ width) (small' : other < 10 ^ width) (rest more : Text) :
    before (padded width value ++ rest) (padded width other ++ more) = true ↔
      value < other ∨ (value = other ∧ before rest more = true) := by
  have front : padded width value = padded width other ↔ value = other := ⟨padded_inj small small', fun same => by rw [same]⟩
  rw [before_append (by simp [padded_length]), before_padded small small', front]

theorem before_format (first second : Time) : before first.format second.format = true ↔
    seconds first < seconds second ∨ (seconds first = seconds second ∧
      before (fraction first.nanosecond ++ [90]) (fraction second.nanosecond ++ [90]) = true) := by
  have length := daysIn_length first
  have length' := daysIn_length second
  have mono := @firstOfMonth_mono (12 * first.year + first.month) (12 * second.year + second.month - 1)
  have mono' := @firstOfMonth_mono (12 * second.year + second.month) (12 * first.year + first.month - 1)
  have short := daysIn_le first.month first.year
  have short' := daysIn_le second.month second.year
  have bounds := And.intro first.year_le (And.intro first.month_range (And.intro first.day_range (And.intro first.hour_lt
    (And.intro first.minute_lt first.second_lt))))
  have bounds' := And.intro second.year_le (And.intro second.month_range (And.intro second.day_range (And.intro second.hour_lt
    (And.intro second.minute_lt second.second_lt))))
  have width : ∀ {value : Nat}, value < 100 → value < 10 ^ 2 := id
  have wide : ∀ {value : Nat}, value ≤ 9999 → value < 10 ^ 4 := Nat.lt_succ_of_le
  unfold seconds Time.format Time.toSecond
  simp only [List.append_assoc, cons_append]
  rw [before_field (wide bounds.1) (wide bounds'.1), before_mark, before_field (width (by omega)) (width (by omega)),
    before_mark, before_field (width (by omega)) (width (by omega)), before_mark, before_field (width (by omega))
    (width (by omega)), before_mark, before_field (width (by omega)) (width (by omega)), before_mark,
    before_field (width (by omega)) (width (by omega))]
  generalize before (fraction first.nanosecond ++ [90]) (fraction second.nanosecond ++ [90]) = last
  rcases Int.lt_trichotomy (12 * first.year + first.month) (12 * second.year + second.month) with below | same | above
  · have order := mono (by omega)
    cases last <;> simp <;> omega
  · have year : first.year = second.year := by omega
    have month : first.month = second.month := by omega
    rw [same, year, month]
    cases last <;> simp <;> omega
  · have order := mono' (by omega)
    cases last <;> simp <;> omega

theorem fraction_zeros {nanosecond : Nat} (some_time : nanosecond ≠ 0) :
    ∃ digits zeros, fraction nanosecond = 46 :: digits ∧ padded 9 nanosecond = digits ++ zeros ∧ ∀ byte ∈ zeros, byte = 48 := by
  refine ⟨_, (padded 9 nanosecond).rtakeWhile (· == 48), if_neg some_time, ?_, fun byte listed => ?_⟩
  · exact rdropWhile_append_rtakeWhile.symm
  · simpa using mem_rtakeWhile_imp listed

theorem fraction_low {nanosecond : Nat} {byte : UInt8} (listed : byte ∈ fraction nanosecond) : byte.toNat < 90 := by
  by_cases some_time : nanosecond = 0
  · simp [fraction, some_time] at listed
  · obtain ⟨digits, zeros, mark, whole, -⟩ := fraction_zeros some_time
    rw [mark] at listed
    rcases mem_cons.mp listed with rfl | inside
    · decide
    · have digit := all_eq_true.mp (padded_digits 9 nanosecond) byte (whole ▸ mem_append_left zeros inside)
      simp [isDigit] at digit
      omega

variable {first second : Nat}

theorem fraction_inj (small : first < 1000000000) (small' : second < 1000000000)
    (same : fraction first = fraction second) : first = second := by
  have read := parseFraction_fraction small
  rw [same, parseFraction_fraction small'] at read
  simpa using read.symm

theorem before_zeros {zeros : Text} (digits : text.all isDigit = true) (zero : ∀ byte ∈ zeros, byte = 48)
    (even : text.length = zeros.length) : before text zeros = false := by
  induction zeros generalizing text with
  | nil => cases text <;> rfl
  | cons byte zeros ih =>
    cases text with
    | nil => cases even
    | cons first text =>
      obtain rfl := zero byte mem_cons_self
      simp only [all_cons, Bool.and_eq_true, isDigit, decide_eq_true_eq] at digits
      have tails := ih digits.2 (fun byte listed => zero byte (mem_cons_of_mem _ listed)) (Nat.succ.inj even)
      simp [before, digits.1.1, tails]

theorem before_fraction (small : first < 1000000000) (small' : second < 1000000000)
    (apart : ¬ fraction first <+: fraction second) (apart' : ¬ fraction second <+: fraction first) :
    before (fraction first ++ [90]) (fraction second ++ [90]) = true ↔ first < second := by
  obtain ⟨digits, zeros, mark, whole, -⟩ := fraction_zeros fun zero : first = 0 => apart (by simp [fraction, zero])
  obtain ⟨digits', zeros', mark', whole', -⟩ := fraction_zeros fun zero : second = 0 => apart' (by simp [fraction, zero])
  rw [mark, mark', prefix_cons_inj] at apart apart'
  rw [← @before_padded 9 first second small small', mark, mark', whole, whole', cons_append, cons_append, before_mark,
    before_apart apart apart', before_apart apart apart']

theorem cut_fraction (small : first < 1000000000) (small' : second < 1000000000)
    (begins : fraction first <+: fraction second) (apart : fraction first ≠ fraction second) :
    first < second ∧ before (fraction second ++ [90]) (fraction first ++ [90]) = true := by
  obtain ⟨more, longer⟩ := begins
  have some_more : more ≠ [] := fun none_left => apart (by rw [← longer, none_left, append_nil])
  have different : first ≠ second := fun same => apart (by rw [same])
  constructor
  · by_cases zero : first = 0
    · omega
    · obtain ⟨digits, zeros, mark, whole, zero⟩ := fraction_zeros zero
      obtain ⟨digits', zeros', mark', whole', -⟩ := fraction_zeros fun zero' : second = 0 => by
        simp [zero', fraction, some_more] at longer
      rw [mark, mark', cons_append, List.cons.injEq] at longer
      rw [← longer.2, List.append_assoc] at whole'
      have all := padded_digits 9 second
      have sizes := (congrArg List.length whole).symm.trans (padded_length 9 first)
      have sizes' := (congrArg List.length whole').symm.trans (padded_length 9 second)
      rw [whole', all_append, Bool.and_eq_true] at all
      rw [length_append] at sizes sizes'
      have order : before (padded 9 second) (padded 9 first) = false := by
        rw [whole, whole', before_same]
        exact before_zeros all.2 zero (by omega)
      rw [Bool.eq_false_iff, Ne, @before_padded 9 second first small' small] at order
      omega
  · rw [← longer, List.append_assoc, before_same]
    obtain ⟨byte, rest, rfl⟩ := exists_cons_of_ne_nil some_more
    have low : byte.toNat < 90 := fraction_low (longer ▸ mem_append_right _ mem_cons_self)
    exact before_cons.mpr (.inl low)

/-- Whether the texts of two times lie as the instants do. -/
def Agrees (first second : Time) : Prop := before first.format second.format = true ↔ instant first < instant second

/-- Two times of one second, the fraction of one beginning with the other's. -/
def Cut (first second : Time) : Prop :=
  seconds first = seconds second ∧ fraction first.nanosecond ≠ fraction second.nanosecond ∧
    (fraction first.nanosecond <+: fraction second.nanosecond ∨ fraction second.nanosecond <+: fraction first.nanosecond)

theorem before_asymm (first : before text other = true) : before other text = false := by
  rw [Bool.eq_false_iff]
  intro second
  have contra := before_trans first second
  rw [before_irrefl] at contra
  cases contra

theorem agrees_iff (first second : Time) : Agrees first second ↔ ¬ Cut first second := by
  have small := first.nanosecond_lt
  have small' := second.nanosecond_lt
  unfold Agrees Cut instant
  rw [before_format]
  by_cases same : seconds first = seconds second
  · by_cases equal : fraction first.nanosecond = fraction second.nanosecond
    · have nanoseconds := fraction_inj small small' equal
      simp [same, nanoseconds, before_irrefl]
    · by_cases begins : fraction first.nanosecond <+: fraction second.nanosecond
      · obtain ⟨less, greater⟩ := cut_fraction small small' begins equal
        have order : seconds second * 1000000000 + first.nanosecond < seconds second * 1000000000 + second.nanosecond := by omega
        simp [same, equal, begins, before_asymm greater, order]
      · by_cases begins' : fraction second.nanosecond <+: fraction first.nanosecond
        · obtain ⟨less, greater⟩ := cut_fraction small' small begins' (Ne.symm equal)
          have order : ¬ seconds second * 1000000000 + first.nanosecond < seconds second * 1000000000 + second.nanosecond := by
            omega
          simp [same, equal, begins', greater, order]
        · rw [before_fraction small small' begins begins']
          simp [same, begins, begins']
  · simp only [same, false_and, or_false, not_false_eq_true, iff_true]
    omega

/-! ### Where stored times are compared -/

structure RequestRecordCursor where
  kind : Text
  direction : Text
  value : Text
deriving DecidableEq

/-- A row, the time it stores, and what links are looked up by. -/
structure Call extends RequestRecord where
  started : Time
  written : startedAt = started.format
  turnUserMessages : Option Int
  turnUserFingerprint : Option Text
  outputResponseID : Option Text
  previousResponseID : Option Text
  cursors : List RequestRecordCursor

/-- The rows of the calls. Attempts belong to roots. -/
structure Store where
  records : List Call
  rooted : ∀ record ∈ records, ∀ root ∈ records, record.parentRequestID = some root.id → root.parentRequestID = none

structure SessionCursorScope where
  samePrincipal : Bool
  localAccessTokenID : Option Text
  notBefore : Option Time
  continues : List (Int × Text)

/-- `ORDER BY started_at DESC, id DESC` -/
def newest (records : List Call) : List Call :=
  records.insertionSort fun record older => newestFirst record.toRequestRecord older.toRequestRecord

/-- `ORDER BY started_at ASC, id ASC`, the order of turns -/
def oldest (records : List Call) : List Call :=
  records.insertionSort fun record later => newestFirst later.toRequestRecord record.toRequestRecord

/-- The roots that a link may go to. -/
def sessionLinkScope (scope : SessionCursorScope) (record : Call) : Bool :=
  record.parentRequestID.isNone && record.sessionID.isSome &&
  (!scope.samePrincipal || record.localAccessTokenID == scope.localAccessTokenID) &&
  scope.notBefore.all (fun time => !before record.startedAt time.format) &&
  (scope.continues.isEmpty || scope.continues.any fun point =>
    record.turnUserMessages == some point.1 && record.turnUserFingerprint == some point.2)

/-- A branch for each value and each way to name it, with its priority. -/
def branches (kind : Text) (values : List Text) : List (Nat × (Call → Bool)) :=
  let explicit := kind = bytes "explicit"
  let directions := if explicit then [bytes "out", bytes "in"] else [bytes "out"]
  values.flatMap fun value =>
    directions.zipIdx.map (fun (direction, priority) =>
      (priority, fun record => record.cursors.any (· == ⟨kind, direction, value⟩))) ++
    if explicit then
      [(0, fun record => record.outputResponseID == some value), (1, fun record => record.previousResponseID == some value)]
    else []

/-- `ORDER BY priority ASC, started_at DESC, id DESC` -/
def linkFirst (link other : Nat × Call) : Bool :=
  link.1 < other.1 || (link.1 == other.1 && newestFirst link.2.toRequestRecord other.2.toRequestRecord)

def sessionLinkQuery (records : List Call) (kind : Text) (values : List Text) (scope : SessionCursorScope) :
    Option (Nat × Call) :=
  let found := (branches kind values).filterMap fun (priority, holds) =>
    ((newest (records.filter fun record => sessionLinkScope scope record && holds record)).head?).map (priority, ·)
  (found.insertionSort fun link other => linkFirst link other).head?

def aged (cutoff : Time) (record : Call) : Bool := before record.startedAt cutoff.format

def attemptOf (roots : List Call) (record : Call) : Bool := roots.any fun root => record.parentRequestID == some root.id

/-- Rows are deleted, and their attempts go along. -/
def deleteRows (gone : Call → Bool) (records : List Call) : List Call :=
  records.filter fun record => !(gone record || attemptOf (records.filter gone) record)

def sweepExpired (cutoff : Time) (store : Store) : List Call := deleteRows (aged cutoff) store.records

/-- The attempts of aged roots first, then what is aged. -/
def purgeBefore (cutoff : Time) (store : Store) : List Call :=
  let roots := store.records.filter fun root => root.parentRequestID.isNone && aged cutoff root
  deleteRows (aged cutoff) (deleteRows (attemptOf roots) store.records)

theorem head_sorted {T : Type} {first : T → T → Prop} [DecidableRel first] [Std.Total first] [IsTrans T first]
    {items : List T} {head : T} (found : (items.insertionSort first).head? = some head) :
    head ∈ items ∧ ∀ item ∈ items, first head item := by
  obtain ⟨rest, arranged⟩ := head?_eq_some_iff.mp found
  have perm := perm_insertionSort first items
  have ordered := pairwise_insertionSort first items
  rw [arranged] at perm ordered
  refine ⟨perm.mem_iff.mp mem_cons_self, fun item listed => ?_⟩
  rcases mem_cons.mp (perm.mem_iff.mpr listed) with rfl | later
  · exact (Std.Total.total item item).elim id id
  · exact (pairwise_cons.mp ordered).1 item later

theorem head_none {T : Type} {first : T → T → Prop} [DecidableRel first] {items : List T}
    (none_found : (items.insertionSort first).head? = none) : items = [] := by
  have perm := perm_insertionSort first items
  rw [head?_eq_none_iff.mp none_found] at perm
  exact perm.symm.eq_nil

instance newest_total : Std.Total fun record older : Call => newestFirst record.toRequestRecord older.toRequestRecord = true where
  total _ _ := Std.Total.total (r := fun record older : RequestRecord => newestFirst record older = true) _ _

instance newest_trans : IsTrans Call fun record older => newestFirst record.toRequestRecord older.toRequestRecord = true where
  trans _ _ _ first second :=
    IsTrans.trans (r := fun record older : RequestRecord => newestFirst record older = true) _ _ _ first second

instance oldest_total : Std.Total fun record later : Call => newestFirst later.toRequestRecord record.toRequestRecord = true where
  total first second := newest_total.total second first

instance oldest_trans : IsTrans Call fun record later => newestFirst later.toRequestRecord record.toRequestRecord = true where
  trans first middle last before after := newest_trans.trans last middle first after before

theorem linkFirst_iff {link other : Nat × Call} : linkFirst link other = true ↔ link.1 < other.1 ∨
    (link.1 = other.1 ∧ newestFirst link.2.toRequestRecord other.2.toRequestRecord = true) := by
  simp [linkFirst]

instance link_total : Std.Total fun link other : Nat × Call => linkFirst link other = true where
  total link other := by
    rw [linkFirst_iff, linkFirst_iff]
    rcases Nat.lt_trichotomy link.1 other.1 with below | same | above
    · exact .inl (.inl below)
    · exact (newest_total.total link.2 other.2).imp (fun first => .inr ⟨same, first⟩) fun second => .inr ⟨same.symm, second⟩
    · exact .inr (.inl above)

instance link_trans : IsTrans (Nat × Call) fun link other => linkFirst link other = true where
  trans link middle other first second := by
    rw [linkFirst_iff] at *
    rcases first with below | ⟨same, first⟩ <;> rcases second with below' | ⟨same', second⟩
    · exact .inl (by omega)
    · exact .inl (by omega)
    · exact .inl (by omega)
    · exact .inr ⟨same.trans same', newest_trans.trans link.2 middle.2 other.2 first second⟩

/-! ### What holds by the clock -/

def InOrder (times : List Time) : Prop := ∀ first ∈ times, ∀ second ∈ times, Agrees first second

def Uncut (times : List Time) : Prop := ∀ first ∈ times, ∀ second ∈ times, ¬ Cut first second

def Earlier (record : Call) (time : Time) : Prop := instant record.started < instant time

/-- What a cutoff takes: what started before it, and the attempts of roots that did. -/
def Takes (cutoff : Time) (store : Store) (record : Call) : Prop :=
  Earlier record cutoff ∨ ∃ root ∈ store.records, record.parentRequestID = some root.id ∧ Earlier root cutoff

variable {record : Call}

theorem newestFirst_clock {older : Call} (agrees : Agrees record.started older.started)
    (first : newestFirst record.toRequestRecord older.toRequestRecord = true) : ¬ Earlier record older.started := by
  have falling := newestFirst_falling first
  rw [record.written, older.written] at falling
  exact fun earlier => by simp [agrees.mpr earlier] at falling

variable {cutoff : Time}

theorem aged_clock (agrees : Agrees record.started cutoff) : aged cutoff record = true ↔ Earlier record cutoff := by
  rw [aged, record.written]
  exact agrees

variable {records : List Call}

theorem mem_deleteRows {gone : Call → Bool} :
    record ∈ deleteRows gone records ↔ record ∈ records ∧ gone record = false ∧
      ∀ root ∈ records, gone root = true → record.parentRequestID ≠ some root.id := by
  simp [deleteRows, attemptOf]

theorem mem_sweepExpired {store : Store} (listed : record ∈ store.records) :
    record ∈ sweepExpired cutoff store ↔ ¬ (aged cutoff record = true ∨
      ∃ root ∈ store.records, record.parentRequestID = some root.id ∧ aged cutoff root = true) := by
  rw [sweepExpired, mem_deleteRows]
  grind

theorem mem_purgeBefore {store : Store} (listed : record ∈ store.records) :
    record ∈ purgeBefore cutoff store ↔ ¬ (aged cutoff record = true ∨
      ∃ root ∈ store.records, record.parentRequestID = some root.id ∧ aged cutoff root = true) := by
  have rooted := store.rooted
  simp only [purgeBefore, mem_deleteRows, attemptOf, Bool.eq_false_iff, Ne, any_eq_true, mem_filter,
    Bool.and_eq_true, Option.isNone_iff_eq_none, beq_iff_eq]
  grind

theorem Uncut.agrees {times : List Time} (uncut : Uncut times) {first second : Time} (listed : first ∈ times)
    (listed' : second ∈ times) : Agrees first second :=
  (agrees_iff first second).mpr (uncut first listed second listed')

theorem newest_clock (uncut : Uncut (records.map Call.started)) :
    (newest records).Pairwise fun record older => ¬ Earlier record older.started :=
  (pairwise_insertionSort (fun record older : Call => newestFirst record.toRequestRecord older.toRequestRecord = true)
    records).imp_of_mem fun listed listed' first =>
      newestFirst_clock (uncut.agrees (mem_map_of_mem ((mem_insertionSort _).mp listed))
        (mem_map_of_mem ((mem_insertionSort _).mp listed'))) first

theorem oldest_clock (uncut : Uncut (records.map Call.started)) :
    (oldest records).Pairwise fun record later => ¬ Earlier later record.started :=
  (pairwise_insertionSort (fun record later : Call => newestFirst later.toRequestRecord record.toRequestRecord = true)
    records).imp_of_mem fun listed listed' first =>
      newestFirst_clock (uncut.agrees (mem_map_of_mem ((mem_insertionSort _).mp listed'))
        (mem_map_of_mem ((mem_insertionSort _).mp listed))) first

/-- A call that a link may go to, by one of its branches. -/
def Linked (kind : Text) (values : List Text) (scope : SessionCursorScope) (priority : Nat) (record : Call) : Prop :=
  sessionLinkScope scope record = true ∧ ∃ holds, (priority, holds) ∈ branches kind values ∧ holds record = true

/-- A link goes to the newest call of the least priority, if it can go to any. -/
def LinksNewest (records : List Call) (kind : Text) (values : List Text) (scope : SessionCursorScope) : Prop :=
  match sessionLinkQuery records kind values scope with
  | none => ∀ record ∈ records, ∀ priority, ¬ Linked kind values scope priority record
  | some (priority, record) => record ∈ records ∧ Linked kind values scope priority record ∧
      ∀ other ∈ records, ∀ lower, Linked kind values scope lower other →
        priority < lower ∨ (priority = lower ∧ ¬ Earlier record other.started)

theorem links_newest (uncut : Uncut (records.map Call.started)) (kind : Text) (values : List Text)
    (scope : SessionCursorScope) : LinksNewest records kind values scope := by
  let found := (branches kind values).filterMap fun (priority, holds) =>
    ((newest (records.filter fun record => sessionLinkScope scope record && holds record)).head?).map (priority, ·)
  have sound : ∀ link ∈ found, link.2 ∈ records ∧ Linked kind values scope link.1 link.2 := by
    intro link listed
    obtain ⟨⟨priority, holds⟩, branch, first⟩ := mem_filterMap.mp listed
    obtain ⟨record, head, rfl⟩ := Option.map_eq_some_iff.mp first
    obtain ⟨member, -⟩ := head_sorted head
    obtain ⟨stored, fits⟩ := mem_filter.mp member
    rw [Bool.and_eq_true] at fits
    exact ⟨stored, fits.1, holds, branch, fits.2⟩
  have complete : ∀ other ∈ records, ∀ lower, Linked kind values scope lower other →
      ∃ link ∈ found, link.1 = lower ∧ newestFirst link.2.toRequestRecord other.toRequestRecord = true := by
    rintro other stored lower ⟨fits, holds, branch, held⟩
    have member : other ∈ records.filter fun record => sessionLinkScope scope record && holds record :=
      mem_filter.mpr ⟨stored, by rw [fits, held]; rfl⟩
    cases head : (newest (records.filter fun record => sessionLinkScope scope record && holds record)).head? with
    | none =>
      rw [head_none head] at member
      cases member
    | some record =>
      refine ⟨(lower, record), mem_filterMap.mpr ⟨_, branch, ?_⟩, rfl, (head_sorted head).2 other member⟩
      simp [head]
  have chosen : sessionLinkQuery records kind values scope =
      (found.insertionSort fun link other => linkFirst link other).head? := rfl
  unfold LinksNewest
  cases link : sessionLinkQuery records kind values scope with
  | none =>
    intro record stored priority linked
    obtain ⟨link', listed, -⟩ := complete record stored priority linked
    rw [head_none (chosen.symm.trans link)] at listed
    cases listed
  | some best =>
    obtain ⟨listed, first⟩ := head_sorted (chosen.symm.trans link)
    obtain ⟨stored, linked⟩ := sound best listed
    refine ⟨stored, linked, fun other stored' lower linked' => ?_⟩
    obtain ⟨link', listed', rfl, newer⟩ := complete other stored' lower linked'
    refine (linkFirst_iff.mp (first link' listed')).imp_right fun ⟨same, first⟩ => ⟨same, ?_⟩
    exact newestFirst_clock (uncut.agrees (mem_map_of_mem stored) (mem_map_of_mem stored'))
      (newest_trans.trans _ _ _ first newer)

/-- Stored times lie in the order of time exactly where none of them are cut. There lists and turns follow the clock, a
cutoff takes what started before it, and a link goes to the newest call. -/
theorem started_order (times : List Time) :
    (InOrder times ↔ Uncut times) ∧
    (∀ (store : Store) (cutoff : Time), (∀ record ∈ store.records, ¬ Cut record.started cutoff) →
      ∀ record ∈ store.records, (record ∉ sweepExpired cutoff store ↔ Takes cutoff store record) ∧
        (record ∉ purgeBefore cutoff store ↔ Takes cutoff store record)) ∧
    (∀ records, Uncut (records.map Call.started) →
      ((newest records).Pairwise fun record older => ¬ Earlier record older.started) ∧
      ((oldest records).Pairwise fun record later => ¬ Earlier later record.started) ∧
      ∀ kind values scope, LinksNewest records kind values scope) := by
  refine ⟨?order, fun store cutoff uncut record listed => ?taken, fun records uncut => ?listed⟩
  case order =>
    unfold InOrder Uncut
    simp only [agrees_iff]
  case taken =>
    have takes : (aged cutoff record = true ∨
        ∃ root ∈ store.records, record.parentRequestID = some root.id ∧ aged cutoff root = true) ↔ Takes cutoff store record := by
      have each : ∀ record ∈ store.records, aged cutoff record = true ↔ Earlier record cutoff := fun record listed =>
        aged_clock ((agrees_iff _ _).mpr (uncut record listed))
      unfold Takes
      rw [each record listed]
      grind
    rw [mem_sweepExpired listed, mem_purgeBefore listed, takes, Classical.not_not]
    exact ⟨Iff.rfl, Iff.rfl⟩
  case listed => exact ⟨newest_clock uncut, oldest_clock uncut, links_newest uncut⟩

/-- Half a second after a full second is the lesser text. -/
theorem started_order_fails : ¬ ∀ times, InOrder times := by
  intro claimed
  let full : Time := ⟨2026, 1, 2, 3, 4, 5, 0, by decide, by decide, by decide, by decide, by decide, by decide, by decide⟩
  let half : Time := { full with nanosecond := 500000000, nanosecond_lt := by decide }
  have agrees := claimed [half, full] half mem_cons_self full (mem_cons_of_mem _ mem_cons_self)
  exact absurd (agrees.mp (by decide +kernel)) (by decide +kernel)

end AstrLink.StartedTimes
