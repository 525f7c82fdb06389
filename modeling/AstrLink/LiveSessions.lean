import Mathlib

/-!
The list of sessions as the monitor shows it live. Each polled page is merged into the list
and the queue of those held back, and an entry that `sameSession` does not tell from the
page's version stays. It compares no field of the last group of `RequestSession`, so a
session that changes in these alone is shown as it was (`merged_stale`).
-/
namespace AstrLink.LiveSessions
open List

structure OutputActivity where
  kind : String
  tools : List String

structure RequestModelRedirect where
  origin : String
  target : String

structure SessionUsage where
  inputTokens : Rat
  outputTokens : Rat
  cacheReadTokens : Rat
  cacheWriteTokens : Rat
  cacheHitRatio : Option Rat

structure SessionCost where
  amountUsd : String
  priced : Rat
  unpriced : Rat
  pending : Rat

structure FailedRepeats where
  tool : String
  count : Rat
  command : Option Bool

/-- A field that may be absent and may be null is an option of an option. -/
structure RequestSession where
  id : String
  title : String
  startedAt : String
  lastStartedAt : String
  completedAt : Option String
  durationMs : Rat
  runningSince : Option String
  toolDurationMs : Option (Option Rat)
  averageTtftMs : Option (Option Rat)
  outputTokensPerSecond : Option (Option Rat)
  activeRequestStarts : List String
  turnCount : Rat
  callCount : Rat
  status : String
  requestedModel : Option String
  modelRedirect : Option RequestModelRedirect
  output : Option OutputActivity
  reasoningEffort : Option (Option String)
  inputProtocol : String
  clientType : Option String
  serviceId : Option String
  localAccessTokenId : Option String
  privacyWarned : Option Bool
  parentSessionId : Option String
  subagentCount : Option Rat
  contextTokens : Option Rat
  compactionPointTokens : Option Rat
  contextWindowTokens : Option Rat
  compactionCount : Option Rat
  usage : Option SessionUsage
  cost : Option SessionCost
  failedRepeats : Option FailedRepeats

/-- The names of the tools, joined as they are compared. -/
def joinedTools (output : Option OutputActivity) : String :=
  "\x00".intercalate ((output.map (·.tools)).getD [])

def sameSession (left right : RequestSession) : Bool :=
  left.title == right.title && left.startedAt == right.startedAt && left.lastStartedAt == right.lastStartedAt &&
    left.completedAt == right.completedAt && left.durationMs == right.durationMs &&
    left.runningSince == right.runningSince && left.toolDurationMs == right.toolDurationMs &&
    left.averageTtftMs == right.averageTtftMs && left.outputTokensPerSecond == right.outputTokensPerSecond &&
    left.activeRequestStarts == right.activeRequestStarts && left.turnCount == right.turnCount &&
    left.callCount == right.callCount && left.status == right.status && left.requestedModel == right.requestedModel &&
    left.modelRedirect.map (·.origin) == right.modelRedirect.map (·.origin) &&
    left.modelRedirect.map (·.target) == right.modelRedirect.map (·.target) &&
    left.output.map (·.kind) == right.output.map (·.kind) && joinedTools left.output == joinedTools right.output &&
    left.reasoningEffort.join == right.reasoningEffort.join && left.inputProtocol == right.inputProtocol &&
    left.clientType == right.clientType && left.serviceId == right.serviceId &&
    left.localAccessTokenId == right.localAccessTokenId

structure Browser where
  parse : String → Int
  localeCompare : String → String → Int

variable (browser : Browser)

/-- The comparison puts the left session first. -/
def newer (left right : RequestSession) : Bool :=
  let timeDifference := browser.parse right.lastStartedAt - browser.parse left.lastStartedAt
  (if timeDifference ≠ 0 then timeDifference else browser.localeCompare right.id left.id) ≤ 0

def sortSessionsNewestFirst (sessions : List RequestSession) : List RequestSession :=
  sessions.insertionSort fun left right => newer browser left right

/-- The version of a session that is shown, and whether it is another one. -/
def adopt (incoming : List RequestSession) (session : RequestSession) : RequestSession × Bool :=
  match incoming.reverse.find? (·.id == session.id) with
  | none => (session, false)
  | some next => if sameSession next session then (session, false) else (next, true)

structure SessionMergeResult where
  items : List RequestSession
  queued : List RequestSession
  added : Nat
  /-- The lists are not the very ones that were given. -/
  fresh : Bool

def mergeLiveSessions (items queued incoming : List RequestSession) (queueNew : Bool) : SessionMergeResult :=
  let updatedItems := items.map (adopt incoming)
  let updatedQueue := queued.map (adopt incoming)
  let additions := incoming.filter fun session => (items ++ queued).all (·.id != session.id)
  if !(updatedItems ++ updatedQueue).any (·.2) && additions.isEmpty then ⟨items, queued, 0, false⟩
  else if queueNew then
    ⟨updatedItems.map (·.1), sortSessionsNewestFirst browser (additions ++ updatedQueue.map (·.1)), additions.length, true⟩
  else ⟨sortSessionsNewestFirst browser (additions ++ updatedItems.map (·.1)), updatedQueue.map (·.1), additions.length, true⟩

def applyQueuedSessions (items queued : List RequestSession) : List RequestSession :=
  sortSessionsNewestFirst browser (queued ++ items)

def Distinct (sessions : List RequestSession) : Prop := (sessions.map (·.id)).Nodup

structure Page where
  sessions : List RequestSession
  distinct : Distinct sessions

structure Held where
  items : List RequestSession
  queued : List RequestSession
  distinct : Distinct (items ++ queued)

/-- What is held of a session tells from the page's version whenever they differ. -/
def Noticed (held : Held) (page : Page) : Prop :=
  ∀ session ∈ held.items ++ held.queued, ∀ next ∈ page.sessions,
    next.id = session.id → sameSession next session = true → next = session

variable {browser} {incoming : List RequestSession} {session next : RequestSession} (held : Held) (page : Page) (queueNew : Bool)

theorem sort_perm (sessions : List RequestSession) : (sortSessionsNewestFirst browser sessions).Perm sessions :=
  perm_insertionSort _ _

theorem sort_newestFirst (sessions : List RequestSession) : (sortSessionsNewestFirst browser sessions).Pairwise
    fun left right => browser.parse right.lastStartedAt ≤ browser.parse left.lastStartedAt := by
  induction sessions with
  | nil => exact .nil
  | cons session rest ih =>
    rw [sortSessionsNewestFirst, insertionSort_cons, ← sortSessionsNewestFirst]
    generalize sortSessionsNewestFirst browser rest = sorted at ih
    induction sorted with
    | nil => simp
    | cons first later ih' =>
      obtain ⟨below, sorted⟩ := pairwise_cons.mp ih
      rw [orderedInsert]
      split
      case isTrue before =>
        have after : browser.parse first.lastStartedAt ≤ browser.parse session.lastStartedAt := by
          simp only [newer, decide_eq_true_eq] at before
          split at before <;> omega
        refine pairwise_cons.mpr ⟨fun other listed => ?_, ih⟩
        rcases mem_cons.mp listed with rfl | listed
        · exact after
        · exact (below other listed).trans after
      case isFalse before =>
        refine pairwise_cons.mpr ⟨fun other listed => ?_, ih' sorted⟩
        rcases (mem_orderedInsert ..).mp listed with rfl | listed
        · simp only [newer, decide_eq_true_eq] at before
          split at before <;> omega
        · exact below other listed

theorem find_iff {id : String} : page.sessions.reverse.find? (·.id == id) = some next ↔ next ∈ page.sessions ∧ next.id = id := by
  constructor
  · intro found
    exact ⟨mem_reverse.mp (mem_of_find?_eq_some found), by simpa using find?_some found⟩
  · rintro ⟨listed, rfl⟩
    cases found : page.sessions.reverse.find? (·.id == next.id) with
    | none => exact absurd (find?_eq_none.mp found next (mem_reverse.mpr listed)) (by simp)
    | some other =>
      have same : other.id = next.id := by simpa using find?_some found
      rw [inj_on_of_nodup_map page.distinct (mem_reverse.mp (mem_of_find?_eq_some found)) listed same]

theorem adopt_id : (adopt incoming session).1.id = session.id := by
  unfold adopt
  split
  case h_1 => rfl
  case h_2 next found =>
    split
    · rfl
    · simpa using find?_some found

theorem adopt_still (still : (adopt incoming session).2 = false) : (adopt incoming session).1 = session := by
  unfold adopt at still ⊢
  split
  case h_1 => rfl
  case h_2 next found =>
    simp only [found] at still
    split at still
    case isTrue same => rw [if_pos same]
    case isFalse => cases still

variable {page} in
/-- A session of the page is shown as the page has it, unless it is not told from what is held. -/
theorem adopt_page (listed : next ∈ page.sessions) (same : next.id = session.id) :
    (adopt page.sessions session).1 = if sameSession next session then session else next := by
  rw [adopt, (find_iff page).mpr ⟨listed, same⟩]
  dsimp only
  split <;> rfl

def additions : List RequestSession :=
  page.sessions.filter fun session => (held.items ++ held.queued).all (·.id != session.id)

theorem mem_additions : session ∈ additions held page ↔
    session ∈ page.sessions ∧ ∀ other ∈ held.items ++ held.queued, other.id ≠ session.id := by
  rw [additions, mem_filter, all_eq_true]
  simp only [bne_iff_ne]

variable (browser)

/-- Either nothing new is on the page, or the lists are made anew. -/
theorem merge_cases :
    let shown session := (adopt page.sessions session).1
    let merged := mergeLiveSessions browser held.items held.queued page.sessions queueNew
    merged = ⟨held.items, held.queued, 0, false⟩ ∧ additions held page = [] ∧
        (held.items ++ held.queued).map shown = held.items ++ held.queued ∨
      merged = if queueNew then ⟨held.items.map shown, sortSessionsNewestFirst browser (additions held page ++ held.queued.map shown),
          (additions held page).length, true⟩
        else ⟨sortSessionsNewestFirst browser (additions held page ++ held.items.map shown), held.queued.map shown,
          (additions held page).length, true⟩ := by
  intro shown merged
  by_cases unchanged : (!(held.items.map (adopt page.sessions) ++ held.queued.map (adopt page.sessions)).any (·.2) &&
      (additions held page).isEmpty) = true
  · refine .inl ⟨if_pos unchanged, ?_⟩
    simp only [Bool.and_eq_true, Bool.not_eq_true', any_eq_false, List.isEmpty_iff] at unchanged
    refine ⟨unchanged.2, (map_congr_left fun session listed => adopt_still ?_).trans (map_id _)⟩
    simpa using unchanged.1 _ (map_append ▸ mem_map_of_mem listed)
  · refine .inr ((if_neg unchanged).trans ?_)
    simp only [map_map]
    rfl

theorem merged_perm :
    let merged := mergeLiveSessions browser held.items held.queued page.sessions queueNew
    (merged.items ++ merged.queued).Perm
      (additions held page ++ (held.items ++ held.queued).map fun session => (adopt page.sessions session).1) := by
  dsimp only
  rcases merge_cases browser held page queueNew with ⟨same, none, still⟩ | anew
  · rw [same, none, still]
    exact .refl _
  · rw [anew]
    cases queueNew
    · exact (Perm.append_right _ (sort_perm _)).trans (by simp)
    · refine (Perm.append_left _ (sort_perm _)).trans ?_
      simpa using perm_append_comm_assoc ..

theorem merged_ids :
    let merged := mergeLiveSessions browser held.items held.queued page.sessions queueNew
    ((merged.items ++ merged.queued).map (·.id)).Perm
      ((additions held page).map (·.id) ++ (held.items ++ held.queued).map (·.id)) := by
  have ids : (held.items ++ held.queued).map ((·.id) ∘ fun session => (adopt page.sessions session).1) =
      (held.items ++ held.queued).map (·.id) := map_congr_left fun _ _ => adopt_id
  refine ((merged_perm browser held page queueNew).map (·.id)).trans (.of_eq ?_)
  rw [map_append, map_map, ids]

theorem merged_distinct :
    let merged := mergeLiveSessions browser held.items held.queued page.sessions queueNew
    Distinct (merged.items ++ merged.queued) := by
  refine (merged_ids browser held page queueNew).nodup_iff.mpr (nodup_append.mpr
    ⟨page.distinct.sublist (filter_sublist.map _), held.distinct, fun id added other known same => ?_⟩)
  obtain ⟨session, isNew, rfl⟩ := mem_map.mp added
  obtain ⟨old, isOld, rfl⟩ := mem_map.mp known
  exact ((mem_additions held page).mp isNew).2 old isOld same.symm

def Held.poll (browser : Browser) (held : Held) (page : Page) (queueNew : Bool) : Held :=
  let merged := mergeLiveSessions browser held.items held.queued page.sessions queueNew
  ⟨merged.items, merged.queued, merged_distinct browser held page queueNew⟩

/-- The queue is shown. -/
def Held.apply (browser : Browser) (held : Held) : Held :=
  ⟨applyQueuedSessions browser held.items held.queued, [], by
    simp only [append_nil]
    exact (((sort_perm _).trans perm_append_comm).map _).nodup_iff.mpr held.distinct⟩

inductive Act where
  | poll (page : Page) (queueNew : Bool)
  | apply

def step (browser : Browser) (held : Held) : Act → Held
  | .poll page queueNew => held.poll browser page queueNew
  | .apply => held.apply browser

/-- The latest polled version of a session, if it was not the given one. -/
def latest (known : Option RequestSession) (acts : List Act) (id : String) : Option RequestSession :=
  acts.foldl (fun known act => match act with
    | .poll page _ => (page.sessions.reverse.find? (·.id == id)).or known
    | .apply => known) known

/-- Every page of a run is noticed where it is merged. -/
def Notices (browser : Browser) : Held → List Act → Prop
  | _, [] => True
  | held, act :: rest =>
    (match act with
      | .poll page _ => Noticed held page
      | .apply => True) ∧ Notices browser (step browser held act) rest

variable {held} {page} {browser}

theorem mem_merged : session ∈ (held.poll browser page queueNew).items ++ (held.poll browser page queueNew).queued ↔
    session ∈ additions held page ∨ ∃ old ∈ held.items ++ held.queued, (adopt page.sessions old).1 = session :=
  (merged_perm browser held page queueNew).mem_iff.trans (by rw [mem_append, mem_map])

theorem noticed_iff : (∀ session ∈ page.sessions,
    session ∈ (held.poll browser page queueNew).items ++ (held.poll browser page queueNew).queued) ↔ Noticed held page := by
  constructor
  · intro shown session listed next polled same alike
    have stays : (adopt page.sessions session).1 ∈ (held.poll browser page queueNew).items ++ (held.poll browser page queueNew).queued :=
      (mem_merged queueNew).mpr (.inr ⟨session, listed, rfl⟩)
    rw [adopt_page polled same, if_pos alike] at stays
    exact inj_on_of_nodup_map (held.poll browser page queueNew).distinct (shown next polled) stays same
  · intro noticed next polled
    rw [mem_merged]
    by_cases known : ∃ session ∈ held.items ++ held.queued, session.id = next.id
    · obtain ⟨session, listed, same⟩ := known
      refine .inr ⟨session, listed, ?_⟩
      rw [adopt_page polled same.symm]
      split
      case isTrue alike => exact (noticed session listed next polled same.symm alike).symm
      case isFalse => rfl
    · exact .inl ((mem_additions held page).mpr ⟨polled, fun other listed same => known ⟨other, listed, same⟩⟩)

def Shown (known : String → Option RequestSession) (held : Held) : Prop :=
  ∀ session ∈ held.items ++ held.queued, ∀ version, known session.id = some version → session = version

theorem Shown.poll {known : String → Option RequestSession} (shown : Shown known held) (noticed : Noticed held page) :
    Shown (fun id => (page.sessions.reverse.find? (·.id == id)).or (known id)) (held.poll browser page queueNew) := by
  intro session listed version isKnown
  cases polled : page.sessions.reverse.find? (·.id == session.id) with
  | some next =>
    simp only [polled, Option.some_or, Option.some.injEq] at isKnown
    subst isKnown
    obtain ⟨inPage, same⟩ := (find_iff page).mp polled
    exact inj_on_of_nodup_map (held.poll browser page queueNew).distinct listed
      ((noticed_iff queueNew).mpr noticed next inPage) same.symm
  | none =>
    simp only [polled, Option.none_or] at isKnown
    rcases (mem_merged queueNew).mp listed with added | ⟨old, isOld, same⟩
    · exact absurd (find?_eq_none.mp polled session (mem_reverse.mpr ((mem_additions held page).mp added).1)) (by simp)
    · have sameId : session.id = old.id := same ▸ adopt_id
      rw [adopt, ← sameId, polled] at same
      subst same
      exact shown old isOld version isKnown

theorem Shown.run {known : String → Option RequestSession} (shown : Shown known held) (acts : List Act)
    (notices : Notices browser held acts) :
    Shown (fun id => latest (known id) acts id) (acts.foldl (step browser) held) := by
  induction acts generalizing held known with
  | nil => exact shown
  | cons act rest ih =>
    cases act with
    | poll page queueNew => exact ih (shown.poll queueNew notices.1) notices.2
    | apply =>
      refine ih (fun session listed => shown session ?_) notices.2
      simpa [step, Held.apply, applyQueuedSessions, (sort_perm _).mem_iff, or_comm] using listed

/-- Merging a page loses and doubles no session, and shows every session as the page has it exactly when what is held
tells from it. -/
theorem merged_current (browser : Browser) :
    (∀ (held : Held) (page : Page) queueNew,
      let result := mergeLiveSessions browser held.items held.queued page.sessions queueNew
      Distinct (result.items ++ result.queued) ∧
      (∀ id, id ∈ (result.items ++ result.queued).map (·.id) ↔
        id ∈ (held.items ++ held.queued).map (·.id) ∨ id ∈ page.sessions.map (·.id)) ∧
      (∀ session ∈ additions held page, session ∈ if queueNew then result.queued else result.items) ∧
      (result.fresh = true → (if queueNew then result.queued else result.items).Pairwise
        fun left right => browser.parse right.lastStartedAt ≤ browser.parse left.lastStartedAt) ∧
      ((∀ session ∈ page.sessions, session ∈ held.items ++ held.queued) → result = ⟨held.items, held.queued, 0, false⟩) ∧
      ((∀ session ∈ page.sessions, session ∈ result.items ++ result.queued) ↔ Noticed held page)) ∧
    ∀ held acts, Notices browser held acts →
      Shown (latest none acts) (acts.foldl (step browser) held) := by
  refine ⟨fun held page queueNew => ⟨merged_distinct browser held page queueNew, fun id => ?_, fun session added => ?_, fun fresh => ?_,
    fun holds => ?_, noticed_iff queueNew⟩, fun held acts notices => ?_⟩
  · rw [(merged_ids browser held page queueNew).mem_iff, mem_append, or_comm]
    refine or_congr_right' fun unknown => ⟨fun added => (filter_sublist.map _).subset added, fun polled => ?_⟩
    obtain ⟨session, inPage, rfl⟩ := mem_map.mp polled
    exact mem_map_of_mem ((mem_additions held page).mpr ⟨inPage, fun other listed same => unknown (same ▸ mem_map_of_mem listed)⟩)
  · rcases merge_cases browser held page queueNew with ⟨-, none, -⟩ | anew
    · exact absurd (none ▸ added) not_mem_nil
    · rw [anew]
      cases queueNew <;> exact (sort_perm _).mem_iff.mpr (mem_append_left _ added)
  · rcases merge_cases browser held page queueNew with ⟨same, -⟩ | anew
    · rw [same] at fresh
      cases fresh
    · rw [anew]
      cases queueNew <;> exact sort_newestFirst _
  · rw [mergeLiveSessions, if_pos]
    rw [Bool.and_eq_true, Bool.not_eq_true', any_eq_false, List.isEmpty_iff]
    constructor
    · intro moved listed
      obtain ⟨session, isHeld, rfl⟩ := mem_map.mp (map_append ▸ listed)
      unfold adopt
      split
      case h_1 => simp
      case h_2 next found =>
        obtain ⟨inPage, same⟩ := (find_iff page).mp found
        rw [inj_on_of_nodup_map held.distinct (holds next inPage) isHeld same]
        simp [sameSession]
    · exact eq_nil_iff_forall_not_mem.mpr fun session added =>
        ((mem_additions held page).mp added).2 session (holds session ((mem_additions held page).mp added).1) rfl
  · have start : Shown (fun _ => none) held := fun _ _ _ known => by cases known
    exact start.run acts notices

/-- A session whose first subagent was started is shown without it. -/
theorem merged_stale : ¬ ∀ (browser : Browser) (held : Held) (page : Page) queueNew, ∀ session ∈ page.sessions,
    session ∈ (held.poll browser page queueNew).items ++ (held.poll browser page queueNew).queued := by
  intro current
  let session : RequestSession := ⟨"s", "Title", "", "", none, 0, none, none, none, none, [], 1, 1, "pending", none, none, none, none,
    "openai", none, none, none, none, none, none, none, none, none, none, none, none, none⟩
  let started : RequestSession := { session with subagentCount := some 1 }
  have noticed := (noticed_iff false).mp (current ⟨fun _ => 0, fun _ _ => 0⟩ ⟨[session], [], by simp [Distinct]⟩
    ⟨[started], by simp [Distinct]⟩ false)
  have same := noticed session (mem_cons_self ..) started (mem_cons_self ..) rfl (by decide +kernel)
  exact absurd (congrArg RequestSession.subagentCount same) (by simp [started, session])

end AstrLink.LiveSessions
