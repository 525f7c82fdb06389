import AstrLink.SessionSummaries
import Mathlib.Data.List.Induction

/-!
The list and the detail show one summary. The state of the list's fold has, field by field, what the passes of
the detail compute (`folded_finished`), whichever sessions were read before (`load_sessions`).
-/
namespace AstrLink.SessionSummaries
open Tables List

/-- The root records of one session, as they are stored. -/
structure SessionRows where
  id : String
  turns : List Row
  nonempty : turns ≠ []
  ofSession : ∀ row ∈ turns, row.key = id

/-- What the fold carries after the rows of one session. -/
def folded (id : String) (turns : List Row) : Carry := turns.foldl Carry.add (Carry.start.fresh id)

variable (id : String)

theorem folded_snoc (turns : List Row) (row : Row) : folded id (turns ++ [row]) = (folded id turns).add row := by
  simp [folded]

/-! ### One field at a time -/

theorem clampRunes_ne_empty {text : String} {maxRunes : Nat} (some : text ≠ "") (room : maxRunes ≠ 0) :
    clampRunes text maxRunes ≠ "" := by
  unfold clampRunes
  split
  · exact some
  · intro empty
    have taken : text.toList.take maxRunes = [] := by simpa using congrArg String.toList empty
    rcases take_eq_nil_iff.mp taken with none | none
    · exact room none
    · exact some (String.toList_eq_nil_iff.mp none)

theorem folded_id (turns : List Row) : (folded id turns).current.id = id := by
  induction turns using List.reverseRecOn with
  | nil => rfl
  | append_singleton turns row ih =>
    rw [folded_snoc]
    exact ih

theorem folded_callCount (turns : List Row) :
    (folded id turns).current.callCount =
      (turns.map Row.record).foldl (fun count turn => count + (1 + turn.childCount)) 0 := by
  induction turns using List.reverseRecOn with
  | nil => rfl
  | append_singleton turns row ih =>
    rw [folded_snoc]
    show (folded id turns).current.callCount + (1 + row.children) = _
    rw [ih, map_append, foldl_append]
    rfl

theorem folded_called (first : Row) (turns : List Row) : (folded id (first :: turns)).current.callCount ≠ 0 := by
  induction turns using List.reverseRecOn with
  | nil =>
    show 0 + (1 + first.children) ≠ 0
    omega
  | append_singleton turns row ih =>
    rw [← cons_append, folded_snoc]
    show (folded id (first :: turns)).current.callCount + (1 + row.children) ≠ 0
    omega

theorem folded_startedAt (first : Row) (turns : List Row) :
    (folded id (first :: turns)).current.startedAt = first.startedAt := by
  induction turns using List.reverseRecOn with
  | nil => rfl
  | append_singleton turns row ih =>
    have called : (folded id (first :: turns)).current.callCount ≠ 0 := folded_called id first turns
    rw [← cons_append, folded_snoc]
    show (if (folded id (first :: turns)).current.callCount = 0 then row.startedAt else _) = _
    rw [if_neg called, ih]

theorem folded_hadSuccess (turns : List Row) :
    (folded id turns).hadSuccess = (turns.map Row.record).any (·.effectiveStatus = .succeeded) := by
  induction turns using List.reverseRecOn with
  | nil => rfl
  | append_singleton turns row ih =>
    rw [folded_snoc]
    show ((folded id turns).hadSuccess || decide (row.record.effectiveStatus = .succeeded)) = _
    simp [ih]

theorem folded_privacyWarned (turns : List Row) :
    (folded id turns).current.privacyWarned = (turns.map Row.record).any (·.privacyDecision = some .warn) := by
  induction turns using List.reverseRecOn with
  | nil => rfl
  | append_singleton turns row ih =>
    rw [folded_snoc]
    show ((folded id turns).current.privacyWarned || decide (row.record.privacyDecision = some .warn)) = _
    simp [ih]

theorem previewTitle_snoc (turns : List RequestRecord) (turn : RequestRecord) :
    previewTitle (turns ++ [turn]) =
      if previewTitle turns = "" ∧ turn.inputPreview.getD "" ≠ "" then
        clampRunes (turn.inputPreview.getD "") maxTitleRunes
      else previewTitle turns := by
  unfold previewTitle
  rw [find?_append]
  cases found : turns.find? (·.inputPreview.any (· ≠ "")) with
  | none =>
    cases shown : turn.inputPreview with
    | none => simp [shown]
    | some preview => by_cases empty : preview = "" <;> simp [shown, empty]
  | some earlier =>
    have shown := find?_some found
    have named : clampRunes (earlier.inputPreview.getD "") maxTitleRunes ≠ "" := by
      apply clampRunes_ne_empty
      · cases preview : earlier.inputPreview <;> simp_all
      · decide
    simp [named]

theorem folded_title (turns : List Row) : (folded id turns).current.title = previewTitle (turns.map Row.record) := by
  induction turns using List.reverseRecOn with
  | nil => rfl
  | append_singleton turns row ih =>
    rw [folded_snoc, map_append, map_singleton, previewTitle_snoc, ← ih]
    rfl

theorem folded_parent (turns : List Row) (own : ∀ row ∈ turns, row.key = id) :
    (folded id turns).current.parentSessionID =
      ((turns.map Row.record).filterMap (·.parentSessionID)).find? (· ≠ id) := by
  induction turns using List.reverseRecOn with
  | nil => rfl
  | append_singleton turns row ih =>
    have key : row.key = id := own row (by simp)
    have before := ih fun earlier listed => own earlier (by simp [listed])
    rw [folded_snoc, map_append, filterMap_append, find?_append, ← before]
    show (if (folded id turns).current.parentSessionID = none ∧ row.parentSessionID.getD "" ≠ "" ∧
      row.parentSessionID ≠ some row.key then row.parentSessionID else _) = _
    rw [key]
    have record : row.record.parentSessionID = row.parentSessionID.filter (· ≠ "") := rfl
    cases (folded id turns).current.parentSessionID with
    | some parent => simp
    | none =>
      simp only [map_singleton, filterMap_cons, filterMap_nil, record]
      cases row.parentSessionID with
      | none => rfl
      | some parent =>
        by_cases empty : parent = ""
        · have dropped : (some parent).filter (· ≠ "") = none := by simp [Option.filter, empty]
          rw [dropped]
          simp [empty]
        · have kept : (some parent).filter (· ≠ "") = some parent := by simp [Option.filter, empty]
          rw [kept]
          by_cases same : parent = id
          · simp [same]
          · simp [empty, same]

theorem folded_turns (id : String) (turns : List Row) :
    let counted := (turns.map Row.record).foldl countTurn (0, none)
    counted.1 = (folded id turns).current.turnCount ∧ counted.2.join = (folded id turns).previousTurn := by
  induction turns using List.reverseRecOn with
  | nil => exact ⟨rfl, rfl⟩
  | append_singleton turns row ih =>
    obtain ⟨count, previous⟩ := ih
    rw [folded_snoc, map_append, map_singleton, foldl_append, foldl_cons, foldl_nil]
    generalize (turns.map Row.record).foldl countTurn (0, none) = counted at count previous
    obtain ⟨number, before⟩ := counted
    have index : row.record.turnIndex = row.turnIndex := rfl
    constructor
    · show _ = if row.turnIndex = none ∨ (folded id turns).previousTurn = none ∨
        row.turnIndex ≠ (folded id turns).previousTurn then (folded id turns).current.turnCount + 1 else _
      rw [← previous, ← count]
      rcases before with _ | _ | earlier
      · simp [countTurn]
      · simp [countTurn]
      · cases turn : row.turnIndex with
        | none => simp [countTurn, index, turn]
        | some current => by_cases same : current = earlier <;> simp [countTurn, index, turn, same]
    · show _ = row.turnIndex
      rcases before with _ | _ | earlier <;> simp [countTurn, index]

theorem folded_turnCount (turns : List Row) :
    (folded id turns).current.turnCount = countUserTurns (turns.map Row.record) :=
  (folded_turns id turns).1.symm

variable (session : SessionRows)

theorem sessionOf_id {first latest : Row} (head : session.turns.head? = some first)
    (last : session.turns.getLast? = some latest) :
    (latest.record.sessionID.or first.record.sessionID).getD latest.record.id = session.id := by
  have firstKey := session.ofSession first (mem_of_head? head)
  have latestKey := session.ofSession latest (mem_of_getLast? last)
  unfold Row.key at firstKey latestKey
  show (latest.sessionID.or first.sessionID).getD latest.id = session.id
  cases named : latest.sessionID with
  | some id => simpa [named] using latestKey
  | none => cases before : first.sessionID <;> simp_all

theorem folded_finished {first latest : Row} (head : session.turns.head? = some first)
    (last : session.turns.getLast? = some latest) :
    (folded session.id session.turns).finished =
      sessionOf first.record latest.record (session.turns.map Row.record) := by
  obtain ⟨rest, started⟩ := head?_eq_some_iff.mp head
  obtain ⟨init, ended⟩ := getLast?_eq_some_iff.mp last
  have own := sessionOf_id session head last
  have title := folded_title session.id session.turns
  have latestFields : folded session.id session.turns = (folded session.id init).add latest := by
    rw [ended, folded_snoc]
  have model : (folded session.id session.turns).current.requestedModel = latest.requestedModel := by
    rw [latestFields]
    rfl
  have status : (folded session.id session.turns).current.status =
      sessionStatusFromRequest latest.record.effectiveStatus := by
    rw [latestFields]
    rfl
  apply RequestSession.ext
  case clientType | completedAt | lastStartedAt | requestedModel | modelRedirect | output | reasoningEffort |
      inputProtocol | serviceID | localAccessTokenID =>
    show _ = _
    unfold Carry.finished
    rw [latestFields]
    rfl
  case id => exact (folded_id _ _).trans own.symm
  case title =>
    unfold Carry.finished sessionOf
    have same : latest.record.requestedModel = latest.requestedModel := rfl
    simp only [title, model, same]
    cases latest.requestedModel with
    | none => simp
    | some model =>
      by_cases empty : model = ""
      · subst empty
        by_cases untitled : previewTitle (session.turns.map Row.record) = "" <;> simp [untitled, clampRunes]
      · simp [empty]
  case startedAt =>
    show (folded session.id session.turns).current.startedAt = first.startedAt
    rw [started]
    exact folded_startedAt _ _ _
  case turnCount => exact folded_turnCount _ _
  case callCount => exact folded_callCount _ _
  case status =>
    unfold Carry.finished sessionOf sessionStatus
    simp only [status, folded_hadSuccess]
    by_cases cancelled : sessionStatusFromRequest latest.record.effectiveStatus = .cancelled <;> simp [cancelled]
  case privacyWarned => exact folded_privacyWarned _ _
  case parentSessionID =>
    show (folded session.id session.turns).current.parentSessionID = List.find? (fun parent =>
      parent ≠ (latest.record.sessionID.or first.record.sessionID).getD latest.record.id) _
    rw [own]
    exact folded_parent _ _ session.ofSession

/-! ### Many sessions -/

theorem foldl_add_result (turns : List Row) (carry : Carry) (result : Table String RequestSession) :
    turns.foldl Carry.add { carry with result } = { turns.foldl Carry.add carry with result } := by
  induction turns generalizing carry with
  | nil => rfl
  | cons row rest ih => exact ih (carry.add row)

theorem foldl_add_fresh {turns : List Row} (nonempty : turns ≠ []) (carry : Carry) (id : String) :
    turns.foldl Carry.add (carry.fresh id) = { folded id turns with result := carry.result } := by
  obtain ⟨first, rest, rfl⟩ := exists_cons_of_ne_nil nonempty
  exact foldl_add_result rest ((Carry.start.fresh id).add first) carry.result

theorem foldlM_read (turns : List Row) (carry : Carry) (own : ∀ row ∈ turns, row.key = carry.current.id) :
    turns.foldlM Carry.read carry =
      if turns.all (·.summaryRecord.valid) then .ok (turns.foldl Carry.add carry) else .error "session call" := by
  induction turns generalizing carry with
  | nil => rfl
  | cons row rest ih =>
    have same : ¬ carry.current.id ≠ row.key := by simp [own row]
    have read : Carry.read carry row =
        if row.summaryRecord.valid then .ok (carry.add row) else .error "session call" := by
      unfold Carry.read
      rw [if_neg same]
      rfl
    rw [foldlM_cons, read]
    by_cases valid : row.summaryRecord.valid
    · rw [if_pos valid]
      refine (ih (carry.add row) fun later listed => ?_).trans ?_
      · exact own later (by simp [listed])
      · simp [valid]
    · rw [if_neg valid]
      simp only [all_cons, valid, Bool.false_and]
      rfl

/-- What the list shows of a session; nothing under the empty id. -/
def SessionRows.summary (session : SessionRows) : Except String (Option RequestSession) :=
  if session.turns.all (·.summaryRecord.valid) then
    if session.id = "" then .ok none
    else if (folded session.id session.turns).finished.valid then
      .ok (some (folded session.id session.turns).finished)
    else .error "session summary"
  else .error "session call"

def SessionRows.listed (session : SessionRows) (result : Table String RequestSession) :
    Except String (Table String RequestSession) :=
  session.summary.map fun summary => (summary.map (result.insert session.id)).getD result

theorem foldlM_session (carry : Carry) (apart : carry.current.id ≠ session.id ∨ carry = .start) :
    session.turns.foldlM Carry.read carry = carry.finish.bind fun done =>
      if session.turns.all (·.summaryRecord.valid) then
        .ok { folded session.id session.turns with result := done.result }
      else .error "session call" := by
  obtain ⟨first, rest, turns⟩ := exists_cons_of_ne_nil session.nonempty
  have key : first.key = session.id := session.ofSession first (by simp [turns])
  have own : ∀ done : Carry, ∀ row ∈ session.turns, row.key = (done.fresh session.id).current.id :=
    fun _ => session.ofSession
  have begin : Carry.read carry first =
      carry.finish.bind fun done => Carry.read (done.fresh session.id) first := by
    unfold Carry.read
    rw [key]
    rcases apart with apart | rfl
    · rw [if_pos apart]
      cases carry.finish with
      | error _ => rfl
      | ok done => simp [Carry.fresh, RequestSession.ofID, Except.map, Except.bind]
    · by_cases same : Carry.start.current.id ≠ session.id
      · rw [if_pos same]
        simp [Carry.finish, Carry.start, Carry.fresh, RequestSession.ofID, Except.map, Except.bind]
      · rw [if_neg same]
        have none : session.id = "" := (not_not.mp same).symm
        simp [Carry.finish, Carry.start, Carry.fresh, RequestSession.ofID, Except.bind, none]
  calc session.turns.foldlM Carry.read carry
      = carry.finish.bind fun done => session.turns.foldlM Carry.read (done.fresh session.id) := by
        rw [turns, foldlM_cons, begin]
        cases carry.finish with
        | error _ => rfl
        | ok done => rfl
    _ = _ := by
        congr 1
        funext done
        rw [foldlM_read _ _ (own done), foldl_add_fresh session.nonempty]

theorem finish_session (result : Table String RequestSession) :
    (if session.turns.all (·.summaryRecord.valid) then
        .ok { folded session.id session.turns with result }
      else .error "session call" : Except String Carry).bind Carry.finish =
      (session.listed result).bind fun result =>
        .ok { folded session.id session.turns with result } := by
  unfold SessionRows.listed SessionRows.summary
  by_cases valid : session.turns.all (·.summaryRecord.valid)
  · simp only [valid, if_true, Except.bind, Carry.finish, folded_id]
    by_cases named : session.id = ""
    · simp only [named, if_true, Except.map, Option.map, Option.getD]
    · simp only [named, if_false]
      by_cases sound : (folded session.id session.turns).finished.valid
      · have kept : Carry.finished { folded session.id session.turns with result } =
            (folded session.id session.turns).finished := rfl
        simp only [kept, sound, if_true, Except.map, Option.map, Option.getD]
      · have kept : Carry.finished { folded session.id session.turns with result } =
            (folded session.id session.turns).finished := rfl
        simp only [kept, sound, Bool.false_eq_true, if_false, Except.map]
  · simp only [valid, Bool.false_eq_true, if_false]
    rfl

variable (sessions : List SessionRows)

theorem load_from (distinct : (sessions.map (·.id)).Nodup) (carry : Carry)
    (apart : ∀ session ∈ sessions.head?, carry.current.id ≠ session.id ∨ carry = .start) :
    (((sessions.flatMap (·.turns)).foldlM Carry.read carry).bind Carry.finish).map (·.result) =
      carry.finish.bind fun done => sessions.foldlM (fun result session => session.listed result) done.result := by
  induction sessions generalizing carry with
  | nil =>
    show (Except.bind (.ok carry) Carry.finish).map (·.result) = _
    simp only [Except.bind]
    cases carry.finish <;> rfl
  | cons session rest ih =>
    obtain ⟨absent, distinct⟩ := nodup_cons.mp distinct
    have step : ∀ result : Table String RequestSession,
        (((rest.flatMap (·.turns)).foldlM Carry.read { folded session.id session.turns with result }).bind
          Carry.finish).map (·.result) =
        (Carry.finish { folded session.id session.turns with result }).bind fun done =>
          rest.foldlM (fun result session => session.listed result) done.result := by
      intro result
      apply ih distinct
      intro next listed
      left
      show (folded session.id session.turns).current.id ≠ next.id
      rw [folded_id]
      rintro same
      exact absent (mem_map.mpr ⟨next, mem_of_mem_head? listed, same.symm⟩)
    rw [flatMap_cons, foldlM_append, foldlM_session session carry (apart session rfl)]
    cases carry.finish with
    | error _ => rfl
    | ok done =>
      have own := finish_session session done.result
      simp only [Except.bind] at own ⊢
      rw [foldlM_cons]
      by_cases valid : session.turns.all (·.summaryRecord.valid)
      · simp only [valid, if_true] at own ⊢
        refine (step done.result).trans ?_
        rw [own]
        cases session.listed done.result <;> rfl
      · simp only [valid, Bool.false_eq_true, if_false] at own ⊢
        cases listed : session.listed done.result with
        | error message => simp_all [bind, Except.bind, Except.map]
        | ok result => simp [listed] at own

theorem load_sessions (distinct : (sessions.map (·.id)).Nodup) :
    loadSessionSummaries (sessions.flatMap (·.turns)) =
      sessions.foldlM (fun result session => session.listed result) ∅ :=
  load_from sessions distinct .start fun _ _ => .inr rfl

theorem load_alone : loadSessionSummaries session.turns = session.listed ∅ := by
  have one := load_sessions [session] (nodup_singleton _)
  simp only [flatMap_cons, flatMap_nil, append_nil, foldlM_cons, foldlM_nil] at one
  rw [one]
  cases session.listed ∅ <;> rfl

theorem listed_ok {session : SessionRows} {result next : Table String RequestSession}
    (listed : session.listed result = .ok next) :
    ∃ summary, session.summary = .ok summary ∧
      next.lookup session.id = summary.or (result.lookup session.id) ∧
      ∀ other, other ≠ session.id → next.lookup other = result.lookup other := by
  unfold SessionRows.listed at listed
  cases found : session.summary with
  | error message => simp [found, Except.map] at listed
  | ok summary =>
    simp only [found, Except.map, Except.ok.injEq] at listed
    subst listed
    refine ⟨summary, rfl, ?_⟩
    cases summary with
    | none => simp
    | some shown =>
      simp only [Option.map_some, Option.getD_some, lookup_insert_if, if_true, Option.some_or, true_and]
      intro other apart
      rw [if_neg apart]

theorem lookup_sessions {sessions : List SessionRows} (distinct : (sessions.map (·.id)).Nodup)
    {before result : Table String RequestSession}
    (fresh : ∀ session ∈ sessions, before.lookup session.id = none)
    (loaded : sessions.foldlM (fun result session => session.listed result) before = .ok result) :
    (∀ session ∈ sessions, session.summary = .ok (result.lookup session.id)) ∧
      ∀ other, (∀ session ∈ sessions, other ≠ session.id) → result.lookup other = before.lookup other := by
  induction sessions generalizing before with
  | nil =>
    cases loaded
    exact ⟨fun _ listed => by simp at listed, fun _ _ => rfl⟩
  | cons session rest ih =>
    obtain ⟨absent, distinct⟩ := nodup_cons.mp distinct
    have apart : ∀ later ∈ rest, later.id ≠ session.id := by
      rintro later listed same
      exact absent (mem_map.mpr ⟨later, listed, same⟩)
    rw [foldlM_cons] at loaded
    cases listed : session.listed before with
    | error message => simp [listed, bind, Except.bind] at loaded
    | ok next =>
      simp only [listed, bind, Except.bind] at loaded
      obtain ⟨summary, shown, here, frame⟩ := listed_ok listed
      have none : ∀ later ∈ rest, next.lookup later.id = none := by
        intro later member
        rw [frame later.id (apart later member)]
        exact fresh later (by simp [member])
      obtain ⟨later, others⟩ := ih distinct none loaded
      constructor
      · intro some member
        rcases mem_cons.mp member with rfl | member
        · have kept := others some.id fun later member same => apart later member same.symm
          rw [kept, here, fresh some (by simp), Option.or_none, shown]
        · exact later some member
      · intro other outside
        rw [others other fun later member => outside later (by simp [member])]
        exact frame other (outside session (by simp))

theorem sessions_load (result : Table String RequestSession)
    (shown : ∀ session ∈ sessions, ∃ summary, session.summary = .ok summary) :
    ∃ loaded, sessions.foldlM (fun result session => session.listed result) result = .ok loaded := by
  induction sessions generalizing result with
  | nil => exact ⟨result, rfl⟩
  | cons session rest ih =>
    obtain ⟨summary, found⟩ := shown session (by simp)
    obtain ⟨loaded, run⟩ := ih ((summary.map (result.insert session.id)).getD result)
      fun later listed => shown later (by simp [listed])
    refine ⟨loaded, ?_⟩
    rw [foldlM_cons]
    unfold SessionRows.listed at run ⊢
    rw [found]
    exact run

theorem alone_ok {session : SessionRows} {alone : Table String RequestSession}
    (loaded : loadSessionSummaries session.turns = .ok alone) :
    session.summary = .ok (alone.lookup session.id) := by
  rw [load_alone] at loaded
  obtain ⟨summary, shown, here, _⟩ := listed_ok loaded
  simp only [AList.lookup_empty, Option.or_none] at here
  rw [shown, here]

theorem alone_loads {session : SessionRows} {summary : Option RequestSession} (shown : session.summary = .ok summary) :
    ∃ alone, loadSessionSummaries session.turns = .ok alone ∧ alone.lookup session.id = summary := by
  have loaded : loadSessionSummaries session.turns =
      .ok ((summary.map ((∅ : Table _ _).insert session.id)).getD ∅) := by
    rw [load_alone]
    unfold SessionRows.listed
    rw [shown]
    rfl
  refine ⟨_, loaded, ?_⟩
  have found := alone_ok loaded
  rw [shown] at found
  exact (Except.ok.inj found).symm

/-! ### The detail -/

theorem mapM_scan {turns : List Row} {records : List RequestRecord} :
    turns.mapM scanRequestRecord = .ok records ↔
      (∀ row ∈ turns, row.record.valid) ∧ turns.map Row.record = records := by
  induction turns generalizing records with
  | nil => simp [pure, Except.pure]
  | cons row rest ih =>
    rw [mapM_cons, scanRequestRecord]
    by_cases valid : row.record.valid
    · cases later : rest.mapM scanRequestRecord with
      | error message =>
        have failed : ¬ ∀ each ∈ rest, each.record.valid := by
          intro all
          have loaded := ih.mpr ⟨all, rfl⟩
          simp [later] at loaded
        simp [valid, bind, Except.bind, failed]
      | ok others =>
        obtain ⟨all, same⟩ := ih.mp later
        simp only [valid, if_true, bind, Except.bind, pure, Except.pure, Except.ok.injEq, map_cons, same]
        simp only [mem_cons, forall_eq_or_imp, valid, true_and]
        exact ⟨fun listed => ⟨all, listed⟩, fun listed => listed.2⟩
    · simp [valid, bind, Except.bind]

theorem valid_summaryRecord {row : Row} (valid : row.record.valid) : row.summaryRecord.valid := by
  simp only [RequestRecord.valid, Row.record, Row.summaryRecord, Bool.and_eq_true] at valid ⊢
  simp [valid, validParent]

theorem valid_key {row : Row} (valid : row.record.valid) : row.key ≠ "" := by
  simp only [RequestRecord.valid, Row.record, Bool.and_eq_true] at valid
  have named : validResourceID row.key = true := by
    unfold Row.key
    cases given : row.sessionID <;> simp_all
  rintro empty
  rw [empty] at named
  exact absurd named (by decide)

theorem sessionFromTurns_ends {turns : List RequestRecord} {first latest : RequestRecord}
    (head : turns.head? = some first) (last : turns.getLast? = some latest) :
    sessionFromTurns turns =
      if (sessionOf first latest turns).valid then .ok (sessionOf first latest turns) else .error "session" := by
  simp only [sessionFromTurns, head, last]

theorem summary_sessionFromTurns {records : List RequestRecord}
    (scanned : session.turns.mapM scanRequestRecord = .ok records) (shown : RequestSession) :
    session.summary = .ok (some shown) ↔ sessionFromTurns records = .ok shown := by
  obtain ⟨valid, rfl⟩ := mapM_scan.mp scanned
  obtain ⟨first, head⟩ : ∃ first, session.turns.head? = some first :=
    Option.isSome_iff_exists.mp (by simpa using session.nonempty)
  obtain ⟨latest, last⟩ : ∃ latest, session.turns.getLast? = some latest :=
    Option.isSome_iff_exists.mp (by simpa using session.nonempty)
  have same := folded_finished session head last
  have named : session.id ≠ "" := by
    have firstListed := mem_of_head? head
    rw [← session.ofSession first firstListed]
    exact valid_key (valid first firstListed)
  have all : session.turns.all (·.summaryRecord.valid) = true := by
    rw [all_eq_true]
    exact fun row listed => valid_summaryRecord (valid row listed)
  unfold SessionRows.summary
  have recordHead : (session.turns.map Row.record).head? = some first.record := by
    rw [head?_map, head, Option.map_some]
  have recordLast : (session.turns.map Row.record).getLast? = some latest.record := by
    rw [getLast?_map, last, Option.map_some]
  rw [if_pos all, if_neg named, same, sessionFromTurns_ends recordHead recordLast]
  split <;> simp

/-- The list shows a session as its turns do, and as if it were read alone. -/
theorem list_shows_detail (sessions : List SessionRows) (distinct : (sessions.map (·.id)).Nodup) :
    (∀ session ∈ sessions, ∀ records, session.turns.mapM scanRequestRecord = .ok records → ∀ shown,
      sessionFromTurns records = .ok shown ↔
        ∃ alone, loadSessionSummaries session.turns = .ok alone ∧ alone.lookup session.id = some shown) ∧
    ((∃ result, loadSessionSummaries (sessions.flatMap (·.turns)) = .ok result) ↔
      ∀ session ∈ sessions, ∃ alone, loadSessionSummaries session.turns = .ok alone) ∧
    ∀ result, loadSessionSummaries (sessions.flatMap (·.turns)) = .ok result →
      ∀ session ∈ sessions, ∀ alone, loadSessionSummaries session.turns = .ok alone →
        result.lookup session.id = alone.lookup session.id := by
  have load := load_sessions sessions distinct
  refine ⟨?detail, ?loads, ?alone⟩
  case detail =>
    intro session _ records scanned shown
    rw [← summary_sessionFromTurns session scanned shown]
    constructor
    · exact alone_loads
    · rintro ⟨alone, loaded, here⟩
      rw [← here]
      exact alone_ok loaded
  case loads =>
    rw [load]
    constructor
    · rintro ⟨result, loaded⟩ session listed
      have shown := (lookup_sessions distinct (fun _ _ => AList.lookup_empty _) loaded).1 session listed
      obtain ⟨alone, run, _⟩ := alone_loads shown
      exact ⟨alone, run⟩
    · intro each
      refine sessions_load sessions ∅ fun session listed => ?_
      obtain ⟨alone, run⟩ := each session listed
      exact ⟨_, alone_ok run⟩
  case alone =>
    intro result loaded session listed alone run
    rw [load] at loaded
    have shown := (lookup_sessions distinct (fun _ _ => AList.lookup_empty _) loaded).1 session listed
    rw [alone_ok run] at shown
    exact (Except.ok.inj shown).symm

/-- A call of a session, `count` seconds after the zero time. -/
def call (session id : String) (count : Nat) (status : RequestStatus) : Row where
  id
  sessionID := some session
  startedAt := count
  completedAt := some (count + 1)
  status
  inputProtocol := "openai-chat"
  requestedModel := some "model"
  reasoningEffort := none
  serviceID := none
  localAccessTokenID := none
  httpStatus := some 200
  turnIndex := some 1
  inputPreview := none
  children := 0
  modelRedirect := none
  clientType := none
  privacyDecision := none
  output := none
  parentSessionID := none

/-- A session that was answered once and then cancelled. -/
def answered : SessionRows where
  id := "session_a"
  turns := [call "session_a" "request_a" 1 .succeeded, call "session_a" "request_b" 3 .cancelled]
  nonempty := by simp
  ofSession := by simp [Row.key, call]

def waiting : SessionRows where
  id := "session_b"
  turns := [call "session_b" "request_c" 2 .pending]
  nonempty := by simp
  ofSession := by simp [Row.key, call]

theorem answered_interrupted : ∃ shown alone result,
    sessionFromTurns (answered.turns.map Row.record) = .ok shown ∧ shown.status = .interrupted ∧
      loadSessionSummaries answered.turns = .ok alone ∧ alone.lookup answered.id = some shown ∧
      loadSessionSummaries (answered.turns ++ waiting.turns) = .ok result ∧
      result.lookup answered.id = some shown := by
  obtain ⟨detail, loads, same⟩ := list_shows_detail [answered, waiting] (by decide)
  have shown : sessionFromTurns (answered.turns.map Row.record) = .ok (sessionOf
      (call "session_a" "request_a" 1 .succeeded).record (call "session_a" "request_b" 3 .cancelled).record
      (answered.turns.map Row.record)) := by
    rw [sessionFromTurns_ends rfl rfl]
    exact if_pos (by decide +kernel)
  have scanned := mapM_scan.mpr ⟨(by decide +kernel : ∀ row ∈ answered.turns, row.record.valid), rfl⟩
  obtain ⟨alone, run, here⟩ := (detail answered (by simp) _ scanned _).mp shown
  have read : (loadSessionSummaries (answered.turns ++ waiting.turns)).isOk = true := by decide +kernel
  cases loaded : loadSessionSummaries (answered.turns ++ waiting.turns) with
  | error message => simp [loaded, Except.isOk, Except.toBool] at read
  | ok result =>
    refine ⟨_, alone, result, shown, by decide +kernel, run, here, rfl, ?_⟩
    exact (same result loaded answered (by simp) alone run).trans here

end AstrLink.SessionSummaries
