import AstrLink.AuthSessions
import Mathlib.Data.List.Nodup

/-!
What interactive sign-ins guarantee in every run: the limits, one end for each session, at most one success of
its hook, and nothing of it after a `CancelAllForService` that found it. No session is failed by one of two
overlapping exchanges in the runs that `orderly` allows.
-/
namespace AstrLink.AuthSessions
open TokenSource (AccountTokens)
open Runs List
open Function (update)
open Option (some.inj)

variable {state : State} {id : String} {session : TrackedSession}

theorem lookup_some (found : state.lookup id = some session) :
    session ∈ state.sessions ∧ session.document.id = id :=
  ⟨mem_of_find?_eq_some found, by simpa using find?_some found⟩

theorem lookup_none (missing : state.lookup id = none) (listed : session ∈ state.sessions) :
    session.document.id ≠ id := by
  simpa using find?_eq_none.mp missing session listed

theorem lookup_any {test : TrackedSession → Bool} (found : (state.lookup id).any test = true) :
    ∃ session ∈ state.sessions, session.document.id = id ∧ test session = true := by
  cases isFound : state.lookup id with
  | none =>
    rw [isFound] at found
    cases found
  | some session =>
    rw [isFound] at found
    exact ⟨session, (lookup_some isFound).1, (lookup_some isFound).2, found⟩

variable {change : TrackedSession → TrackedSession}

theorem mem_modify :
    session ∈ (state.modify id change).sessions ↔
      ∃ old ∈ state.sessions, (if old.document.id = id then change old else old) = session := by
  simp [State.modify]

def Begun (log : List Event) (id : String) : Prop := ∃ service, .began id service ∈ log

/-- The sessions, each under an id of its own and found by its service. -/
structure Tabled (state : State) : Prop where
  ids : (state.sessions.map (·.document.id)).Nodup
  limits : Limits state
  indexed : ∀ session ∈ state.sessions, state.byService session.document.serviceID = some session.document.id
  begun : ∀ session ∈ state.sessions, .began session.document.id session.document.serviceID ∈ state.log
  once : ∀ id service other, .began id service ∈ state.log → .began id other ∈ state.log → service = other

theorem Tabled.unique (tabled : Tabled state) {one two : TrackedSession} (first : one ∈ state.sessions)
    (second : two ∈ state.sessions) (same : one.document.id = two.document.id) : one = two :=
  inj_on_of_nodup_map tabled.ids first second same

theorem Tabled.ofService (tabled : Tabled state) {one two : TrackedSession} (first : one ∈ state.sessions)
    (second : two ∈ state.sessions) (same : one.document.serviceID = two.document.serviceID) : one = two :=
  inj_on_of_nodup_map tabled.limits.services first second same

/-- A change that leaves a session its id and its service and makes nothing pending. -/
def Keeps (state : State) (id : String) (change : TrackedSession → TrackedSession) : Prop :=
  ∀ session ∈ state.sessions, session.document.id = id →
    (change session).document.id = session.document.id ∧
      (change session).document.serviceID = session.document.serviceID ∧
      ((change session).isPending = true → session.isPending = true)

theorem Keeps.changed (keeps : Keeps state id change) (listed : session ∈ state.sessions) :
    let changed := if session.document.id = id then change session else session
    changed.document.id = session.document.id ∧ changed.document.serviceID = session.document.serviceID ∧
      (changed.isPending = true → session.isPending = true) := by
  by_cases same : session.document.id = id
  · simpa [same] using keeps session listed same
  · simp [same]

theorem Tabled.modify (tabled : Tabled state) (keeps : Keeps state id change) : Tabled (state.modify id change) := by
  have ids : (state.modify id change).sessions.map (·.document.id) = state.sessions.map (·.document.id) := by
    simp only [State.modify, map_map]
    exact map_congr_left fun session listed => (keeps.changed listed).1
  have services : (state.modify id change).sessions.map (·.document.serviceID) =
      state.sessions.map (·.document.serviceID) := by
    simp only [State.modify, map_map]
    exact map_congr_left fun session listed => (keeps.changed listed).2.1
  refine ⟨ids ▸ tabled.ids, ⟨services ▸ tabled.limits.services, ?pending⟩, ?indexed, ?begun, tabled.once⟩
  case pending =>
    refine Nat.le_trans ?_ tabled.limits.pending
    simp only [State.pendingCount, State.modify, countP_map]
    exact countP_mono_left fun session listed isPending => (keeps.changed listed).2.2 isPending
  case indexed =>
    intro session listed
    obtain ⟨old, member, rfl⟩ := mem_modify.mp listed
    obtain ⟨sameId, sameService, -⟩ := keeps.changed member
    rw [sameId, sameService]
    exact tabled.indexed old member
  case begun =>
    intro session listed
    obtain ⟨old, member, rfl⟩ := mem_modify.mp listed
    obtain ⟨sameId, sameService, -⟩ := keeps.changed member
    rw [sameId, sameService]
    exact tabled.begun old member

/-! ### What the log says of the sessions -/

/-- The session is not pending any more, and never will be. -/
def Over (state : State) (id : String) : Prop :=
  ∀ session ∈ state.sessions, session.document.id = id → session.isPending = false

def Stage.Completes : Stage → Prop
  | .hooking _ | .hooked _ => True
  | _ => False

def Completing (state : State) (thread : Nat) (id : String) : Prop :=
  ∃ session ∈ state.sessions, session.document.id = id ∧ session.isPending = true ∧ session.completing = true ∧
    session.completionDone = some thread

structure Sound (state : State) : Prop extends Tabled state where
  ended : ∀ id status contested, .ended id status contested ∈ state.log → Begun state.log id ∧ Over state id
  cancelled : ∀ existing, .cancelledAll existing ∈ state.log → ∀ id ∈ existing, Begun state.log id ∧ Over state id
  cancelling : ∀ thread service existing completion, state.threads thread = .cancelling service existing completion →
    ∀ id ∈ existing, .began id service ∈ state.log
  completes : ∀ thread source id stage, state.threads thread = .delivering source id stage → stage.Completes →
    Completing state thread id
  awaited : ∀ session ∈ state.sessions, session.completing = true → session.completionDone.isSome = true
  succeeded : ∀ id, .hookSucceeded id ∈ state.log → Begun state.log id ∧
    (Over state id ∨ ∃ thread source, state.threads thread = .delivering source id (.hooked true))
  kept : Always Kept state.log

theorem Sound.start : Sound start where
  ids := nodup_nil
  limits := ⟨nodup_nil, Nat.zero_le _⟩
  indexed := by simp [AuthSessions.start]
  begun := by simp [AuthSessions.start]
  once := by simp [AuthSessions.start]
  ended := by simp [AuthSessions.start]
  cancelled := by simp [AuthSessions.start]
  cancelling := by simp [AuthSessions.start]
  completes := by simp [AuthSessions.start]
  awaited := by simp [AuthSessions.start]
  succeeded := by simp [AuthSessions.start]
  kept := always_nil Kept

variable {thread : Nat} {phase : Phase}

theorem threads_move {other : Nat} {found : Phase} (at_other : (state.move thread phase).threads other = found) :
    other = thread ∧ phase = found ∨ other ≠ thread ∧ state.threads other = found := by
  by_cases same : other = thread
  · subst same
    exact .inl ⟨rfl, by simpa [State.move] using at_other⟩
  · exact .inr ⟨same, by simpa [State.move, same] using at_other⟩

theorem Over.modify {other : String} (keeps : Keeps state id change) (isOver : Over state other) :
    Over (state.modify id change) other := by
  intro session listed same
  obtain ⟨old, member, rfl⟩ := mem_modify.mp listed
  obtain ⟨sameId, -, pending⟩ := keeps.changed member
  have before := isOver old member (sameId ▸ same)
  exact Bool.eq_false_iff.mpr fun now => by simp [pending now] at before

theorem Sound.modify (sound : Sound state) (keeps : Keeps state id change)
    (calm : ∀ session ∈ state.sessions, session.document.id = id →
      (change session).completing = session.completing ∧ (change session).completionDone = session.completionDone ∧
        (session.completing = true → (change session).isPending = session.isPending)) :
    Sound (state.modify id change) where
  toTabled := sound.toTabled.modify keeps
  ended other status contested logged := by
    obtain ⟨begun, isOver⟩ := sound.ended other status contested logged
    exact ⟨begun, isOver.modify keeps⟩
  cancelled existing logged other listed := by
    obtain ⟨begun, isOver⟩ := sound.cancelled existing logged other listed
    exact ⟨begun, isOver.modify keeps⟩
  cancelling := sound.cancelling
  completes thread source other stage found completes := by
    obtain ⟨session, listed, same, pending, completing, waited⟩ := sound.completes thread source other stage found completes
    refine ⟨_, mem_modify.mpr ⟨session, listed, rfl⟩, ?_⟩
    by_cases isIt : session.document.id = id
    · obtain ⟨sameCompleting, sameDone, samePending⟩ := calm session listed isIt
      rw [if_pos isIt, (keeps session listed isIt).1, samePending completing, sameCompleting, sameDone]
      exact ⟨same, pending, completing, waited⟩
    · rw [if_neg isIt]
      exact ⟨same, pending, completing, waited⟩
  awaited session listed completing := by
    obtain ⟨old, member, rfl⟩ := mem_modify.mp listed
    by_cases isIt : old.document.id = id
    · obtain ⟨sameCompleting, sameDone, -⟩ := calm old member isIt
      rw [if_pos isIt] at completing ⊢
      rw [sameDone]
      exact sound.awaited old member (sameCompleting ▸ completing)
    · rw [if_neg isIt] at completing ⊢
      exact sound.awaited old member completing
  succeeded other logged := by
    obtain ⟨begun, isOver | running⟩ := sound.succeeded other logged
    · exact ⟨begun, .inl (isOver.modify keeps)⟩
    · exact ⟨begun, .inr running⟩
  kept := sound.kept

theorem Sound.move (sound : Sound state)
    (idle : ∀ source id, state.threads thread ≠ .delivering source id (.hooked true))
    (calm : ∀ source id stage, phase = .delivering source id stage → ¬ stage.Completes)
    (waits : ∀ service existing completion, phase = .cancelling service existing completion →
      ∀ id ∈ existing, .began id service ∈ state.log) : Sound (state.move thread phase) where
  ids := sound.ids
  limits := ⟨sound.limits.services, sound.limits.pending⟩
  indexed := sound.indexed
  begun := sound.begun
  once := sound.once
  ended := sound.ended
  cancelled := sound.cancelled
  cancelling other service existing completion found := by
    rcases threads_move found with ⟨-, same⟩ | ⟨-, before⟩
    · exact waits service existing completion same
    · exact sound.cancelling other service existing completion before
  completes other source id stage found completes := by
    rcases threads_move found with ⟨-, same⟩ | ⟨-, before⟩
    · exact absurd completes (calm source id stage same)
    · exact sound.completes other source id stage before completes
  awaited := sound.awaited
  succeeded id logged := by
    obtain ⟨begun, isOver | ⟨other, source, running⟩⟩ := sound.succeeded id logged
    · exact ⟨begun, .inl isOver⟩
    · have apart : other ≠ thread := fun same => idle source id (same ▸ running)
      exact ⟨begun, .inr ⟨other, source, by simpa [State.move, apart] using running⟩⟩
  kept := sound.kept

theorem Sound.note (sound : Sound state) {event : Event} (kept : Kept state.log event)
    (began : ∀ id service, event ≠ .began id service)
    (ended : ∀ id status contested, event = .ended id status contested → Begun state.log id ∧ Over state id)
    (cancelled : ∀ existing, event = .cancelledAll existing → ∀ id ∈ existing, Begun state.log id ∧ Over state id)
    (succeeded : ∀ id, event = .hookSucceeded id → Begun state.log id ∧
      (Over state id ∨ ∃ thread source, state.threads thread = .delivering source id (.hooked true))) :
    Sound (state.note event) := by
  have more : ∀ {id}, Begun state.log id → Begun (state.note event).log id :=
    fun ⟨service, logged⟩ => ⟨service, mem_append_left _ logged⟩
  have logged_cases : ∀ {other}, other ∈ (state.note event).log → other ∈ state.log ∨ event = other := by
    intro other logged
    rcases mem_append.mp logged with earlier | last
    · exact .inl earlier
    · exact .inr (mem_singleton.mp last).symm
  have begun : ∀ {id service}, .began id service ∈ (state.note event).log → .began id service ∈ state.log :=
    fun logged => (logged_cases logged).resolve_right (began _ _)
  refine ⟨⟨sound.ids, ⟨sound.limits.services, sound.limits.pending⟩, sound.indexed, ?begun, ?once⟩, ?ended, ?cancelled,
    ?cancelling, sound.completes, sound.awaited, ?succeeded, always_snoc.mpr ⟨sound.kept, kept⟩⟩
  case begun => exact fun session listed => mem_append_left _ (sound.begun session listed)
  case once => exact fun id service other first second => sound.once id service other (begun first) (begun second)
  case ended =>
    intro id status contested logged
    rcases logged_cases logged with earlier | last
    · exact (sound.ended id status contested earlier).imp_left more
    · exact (ended id status contested last).imp_left more
  case cancelled =>
    intro existing logged id listed
    rcases logged_cases logged with earlier | last
    · exact (sound.cancelled existing earlier id listed).imp_left more
    · exact (cancelled existing last id listed).imp_left more
  case cancelling =>
    exact fun thread service existing completion found id listed =>
      mem_append_left _ (sound.cancelling thread service existing completion found id listed)
  case succeeded =>
    intro id logged
    rcases logged_cases logged with earlier | last
    · exact (sound.succeeded id earlier).imp_left more
    · exact (succeeded id last).imp_left more

theorem Sound.elsewhere (sound : Sound state) (now : Nat) (handlers : String → Option SessionSecrets)
    (exchanges : List Exchange) (accepted : List String) : Sound { state with now, handlers, exchanges, accepted } :=
  ⟨⟨sound.ids, ⟨sound.limits.services, sound.limits.pending⟩, sound.indexed, sound.begun, sound.once⟩, sound.ended,
    sound.cancelled, sound.cancelling, sound.completes, sound.awaited, sound.succeeded, sound.kept⟩

/-! ### Ending, removing and adding sessions -/

/-- What calls do that only end sessions or clear them away. -/
structure Settles (state next : State) : Prop where
  threads : next.threads = state.threads
  handlers : next.handlers = state.handlers
  exchanges : next.exchanges = state.exchanges
  sessions : ∀ session ∈ next.sessions, ∃ old ∈ state.sessions, old.document.id = session.document.id ∧
    old.document.flow = session.document.flow ∧ old.exchanging = session.exchanging
  began : ∀ id service, .began id service ∈ next.log ↔ .began id service ∈ state.log
  uncontested : ∀ id status, .ended id status true ∈ next.log → .ended id status true ∈ state.log

theorem Settles.refl (state : State) : Settles state state :=
  ⟨rfl, rfl, rfl, fun session listed => ⟨session, listed, rfl, rfl, rfl⟩, fun _ _ => .rfl, fun _ _ => id⟩

theorem Settles.trans {first second third : State} (one : Settles first second) (two : Settles second third) :
    Settles first third := by
  refine ⟨two.threads.trans one.threads, two.handlers.trans one.handlers, two.exchanges.trans one.exchanges, ?_,
    fun id service => (two.began id service).trans (one.began id service),
    fun id status logged => one.uncontested id status (two.uncontested id status logged)⟩
  intro session listed
  obtain ⟨middle, member, sameId, sameFlow, sameExchanging⟩ := two.sessions session listed
  obtain ⟨old, oldMember, oldId, oldFlow, oldExchanging⟩ := one.sessions middle member
  exact ⟨old, oldMember, oldId.trans sameId, oldFlow.trans sameFlow, oldExchanging.trans sameExchanging⟩

theorem settle_settles (state : State) (id : String) (status : Status) (failure : SubscriptionError) :
    Settles state (state.settle id status failure false) := by
  unfold State.settle
  split
  case h_2 => exact .refl state
  case h_1 session found =>
    split
    case isFalse => exact .refl state
    case isTrue =>
      refine ⟨rfl, rfl, rfl, ?_, fun other service => by simp [State.note, State.modify],
        fun other ended logged => by simpa [State.note, State.modify] using logged⟩
      intro session listed
      obtain ⟨old, member, rfl⟩ := mem_modify.mp listed
      refine ⟨old, member, ?_⟩
      by_cases same : old.document.id = id
      · rw [if_pos same, TrackedSession.shutdown]
        split <;> exact ⟨rfl, rfl, rfl⟩
      · rw [if_neg same]
        exact ⟨rfl, rfl, rfl⟩

theorem settle_threads (state : State) (id : String) (status : Status) (failure : SubscriptionError)
    (contested : Bool) : (state.settle id status failure contested).threads = state.threads := by
  unfold State.settle
  split
  · split <;> rfl
  · rfl

theorem settle_byService (state : State) (id : String) (status : Status) (failure : SubscriptionError)
    (contested : Bool) : (state.settle id status failure contested).byService = state.byService := by
  unfold State.settle
  split
  · split <;> rfl
  · rfl

theorem not_over (listed : session ∈ state.sessions) (pending : session.isPending = true) :
    ¬ Over state session.document.id := by
  intro isOver
  rw [isOver session listed rfl] at pending
  cases pending

theorem Sound.unended (sound : Sound state) (listed : session ∈ state.sessions) (pending : session.isPending = true)
    (status : Status) (contested : Bool) :
    .ended session.document.id status contested ∉ state.log :=
  fun logged => not_over listed pending (sound.ended _ status contested logged).2

variable {status : Status}

theorem shutdown_calm (calm : session.completing = false) (now : Nat) (ends : status ≠ .pending)
    (failure : SubscriptionError) :
    (session.shutdown now status failure).document.id = session.document.id ∧
      (session.shutdown now status failure).document.serviceID = session.document.serviceID ∧
      (session.shutdown now status failure).isPending = false ∧
      (session.shutdown now status failure).completing = false ∧
      (session.shutdown now status failure).completionDone = session.completionDone := by
  simp [TrackedSession.shutdown, TrackedSession.isPending, calm, ends]

theorem Sound.over_shutdown (sound : Sound state) (listed : session ∈ state.sessions)
    (calm : session.completing = false) {now : Nat} (ends : status ≠ .pending) (failure : SubscriptionError) :
    Over (state.modify session.document.id (·.shutdown now status failure)) session.document.id := by
  intro changed listedNow same
  obtain ⟨old, member, rfl⟩ := mem_modify.mp listedNow
  by_cases isIt : old.document.id = session.document.id
  · obtain rfl := sound.unique member listed isIt
    rw [if_pos rfl]
    exact (shutdown_calm calm now ends failure).2.2.1
  · rw [if_neg isIt] at same
    exact absurd same isIt

theorem Sound.settle (sound : Sound state) (id : String) (ends : status ≠ .pending) (failure : SubscriptionError)
    (contested : Bool) : Sound (state.settle id status failure contested) := by
  unfold State.settle
  split
  case h_2 => exact sound
  case h_1 session found =>
    obtain ⟨listed, rfl⟩ := lookup_some found
    split
    case isFalse => exact sound
    case isTrue active =>
      obtain ⟨pending, calm⟩ : session.isPending = true ∧ session.completing = false := by simpa using active
      have changed : Sound (state.modify session.document.id (·.shutdown state.now status failure)) := by
        refine sound.modify (fun other member same => ?_) (fun other member same => ?_)
        all_goals
          obtain rfl := sound.unique member listed same
          obtain ⟨sameId, sameService, ended, stillCalm, sameDone⟩ := shutdown_calm calm state.now ends failure
        · exact ⟨sameId, sameService, fun stays => by simp [ended] at stays⟩
        · exact ⟨stillCalm.trans calm.symm, sameDone, fun completing => by simp [calm] at completing⟩
      refine changed.note (fun _ _ => sound.unended listed pending _ _) (fun _ _ h => by cases h) ?_ (fun _ h => by cases h)
        (fun _ h => by cases h)
      intro other _ _ same
      cases same
      exact ⟨⟨_, sound.begun session listed⟩, sound.over_shutdown listed calm ends failure⟩

theorem Sound.settle_over (sound : Sound state) (listed : session ∈ state.sessions)
    (calm : session.completing = false) (ends : status ≠ .pending) (failure : SubscriptionError) (contested : Bool) :
    Over (state.settle session.document.id status failure contested) session.document.id := by
  unfold State.settle
  split
  case h_2 missing => exact fun other member same => absurd same (lookup_none missing member)
  case h_1 other found =>
    obtain ⟨member, same⟩ := lookup_some found
    obtain rfl := sound.unique member listed same
    split
    case isTrue => exact sound.over_shutdown listed calm ends failure
    case isFalse settled =>
      intro found member same
      rw [sound.unique member listed same]
      simpa [calm] using settled

theorem expireOne_spec (sound : Sound state) (id : String) :
    Sound (state.expireOne id) ∧ Settles state (state.expireOne id) := by
  unfold State.expireOne
  split
  · exact ⟨sound.settle id (by decide) _ _, settle_settles _ _ _ _⟩
  · exact ⟨sound, .refl state⟩

theorem expirePending_spec (sound : Sound state) :
    Sound state.expirePending ∧ Settles state state.expirePending := by
  have each : ∀ (ids : List String) (current : State), Sound current →
      Sound (ids.foldl State.expireOne current) ∧ Settles current (ids.foldl State.expireOne current) := by
    intro ids
    induction ids with
    | nil => exact fun current sound => ⟨sound, .refl current⟩
    | cons id rest ih =>
      intro current sound
      obtain ⟨expired, settles⟩ := expireOne_spec sound id
      exact ⟨(ih _ expired).1, settles.trans (ih _ expired).2⟩
  exact each _ state sound

theorem remove_settles (state : State) (id : String) : Settles state (state.remove id) := by
  unfold State.remove
  split
  · exact ⟨rfl, rfl, rfl, fun session listed => ⟨session, (mem_filter.mp listed).1, rfl, rfl, rfl⟩, fun _ _ => .rfl,
      fun _ _ logged => logged⟩
  · exact .refl state

theorem mem_remove (listed : session ∈ (state.remove id).sessions) :
    session ∈ state.sessions ∧ session.document.id ≠ id := by
  cases found : state.lookup id with
  | none =>
    rw [State.remove, found] at listed
    exact ⟨listed, lookup_none found listed⟩
  | some removed =>
    rw [State.remove, found] at listed
    simpa using listed

theorem Sound.remove (sound : Sound state) (isOver : Over state id) :
    Sound (state.remove id) := by
  unfold State.remove
  split
  case h_2 => exact sound
  case h_1 session found =>
    obtain ⟨present, rfl⟩ := lookup_some found
    have within : ∀ {other}, other ∈ state.sessions.filter (·.document.id ≠ session.document.id) →
        other ∈ state.sessions ∧ other.document.id ≠ session.document.id := by
      intro other listed
      simpa using listed
    have still : ∀ {other}, Over state other → Over { state with
        byService := update state.byService session.document.serviceID none
        sessions := state.sessions.filter (·.document.id ≠ session.document.id) } other :=
      fun ended other listed same => ended other (within listed).1 same
    refine ⟨⟨?ids, ⟨?services, ?pending⟩, ?indexed, ?begun, sound.once⟩, ?ended, ?cancelled, sound.cancelling, ?completes,
      ?awaited, ?succeeded, sound.kept⟩
    case ids => exact sound.ids.sublist (filter_sublist.map _)
    case services => exact sound.limits.services.sublist (filter_sublist.map _)
    case pending => exact Nat.le_trans (filter_sublist.countP_le) sound.limits.pending
    case indexed =>
      intro other listed
      obtain ⟨member, apart⟩ := within listed
      have otherService : other.document.serviceID ≠ session.document.serviceID :=
        fun same => apart (by rw [sound.ofService member present same])
      exact (Function.update_of_ne otherService none state.byService).trans (sound.indexed other member)
    case begun => exact fun other listed => sound.begun other (within listed).1
    case ended => exact fun other status contested logged => (sound.ended other status contested logged).imp_right still
    case cancelled => exact fun existing logged other listed => (sound.cancelled existing logged other listed).imp_right still
    case completes =>
      intro thread source other stage at_thread completes
      obtain ⟨completed, listed, same, pending, rest⟩ := sound.completes thread source other stage at_thread completes
      have apart : completed.document.id ≠ session.document.id :=
        fun isIt => not_over listed pending (isIt ▸ isOver)
      exact ⟨completed, mem_filter.mpr ⟨listed, by simpa using apart⟩, same, pending, rest⟩
    case awaited => exact fun other listed => sound.awaited other (within listed).1
    case succeeded =>
      exact fun other logged => (sound.succeeded other logged).imp_right (.imp_left still)

theorem canStart_spec (sound : Sound state) (service : String) :
    Sound (state.canStart service).1 ∧ Settles state (state.canStart service).1 ∧
      ((state.canStart service).2 = true →
        (∀ session ∈ (state.canStart service).1.sessions, session.document.serviceID ≠ service) ∧
          (state.canStart service).1.pendingCount < maxPendingAuthorizationSessions) := by
  obtain ⟨expired, settles⟩ := expirePending_spec sound
  unfold State.canStart
  cases found : state.expirePending.byService service with
  | none =>
    simp only [found]
    refine ⟨expired, settles, fun free => ⟨fun session listed same => ?_, by simpa using free⟩⟩
    have indexed := expired.indexed session listed
    rw [same, found] at indexed
    cases indexed
  | some existing =>
    by_cases ended : (state.expirePending.lookup existing).any (·.isPending) = true
    · simp only [found, ended, if_true]
      exact ⟨expired, settles, fun free => by cases free⟩
    · simp only [found, ended]
      have isOver : Over state.expirePending existing := by
        intro session listed same
        have isFound : state.expirePending.lookup existing = some session := by
          cases at_id : state.expirePending.lookup existing with
          | none => exact absurd same (lookup_none at_id listed)
          | some other =>
            rw [expired.unique (lookup_some at_id).1 listed ((lookup_some at_id).2.trans same.symm)]
        simpa [isFound] using ended
      refine ⟨expired.remove isOver, settles.trans (remove_settles _ _),
        fun free => ⟨fun session listed same => ?_, by simpa using free⟩⟩
      have removed := mem_remove listed
      have at_service := expired.indexed session removed.1
      rw [same, found] at at_service
      exact removed.2 (some.inj at_service).symm

theorem unused_iff :
    state.unused id = true ↔ ∀ service, .began id service ∉ state.log := by
  simp only [State.unused, all_eq_true]
  constructor
  · intro unused service logged
    simpa using unused _ logged
  · intro fresh event logged
    cases event with
    | began other service =>
      simp only [bne_iff_ne]
      rintro rfl
      exact fresh service logged
    | ended | hookStarted | hookSucceeded | cancelledAll => rfl

variable {next : State}

theorem Settles.unused (settles : Settles state next) (unused : state.unused id = true) :
    ∀ service, .began id service ∉ next.log :=
  fun service logged => unused_iff.mp unused service ((settles.began id service).mp logged)

variable {service : String}

theorem Sound.add (sound : Sound state) (fresh : ∀ other, .began id other ∉ state.log)
    (free : ∀ session ∈ state.sessions, session.document.serviceID ≠ service)
    (room : state.pendingCount < maxPendingAuthorizationSessions) (flow : Flow) (url : String)
    (device : Option AuthorizationDeviceCode) (secrets : SessionSecrets) (ttl : Nat) :
    Sound (state.add flow service id url device secrets ttl) := by
  have idApart : ∀ {session}, session ∈ state.sessions → session.document.id ≠ id :=
    fun listed same => fresh _ (same ▸ sound.begun _ listed)
  have more : ∀ {other}, Begun state.log other → Begun (state.add flow service id url device secrets ttl).log other :=
    fun ⟨other, logged⟩ => ⟨other, mem_append_left _ logged⟩
  have logged_cases : ∀ {event}, event ∈ (state.add flow service id url device secrets ttl).log →
      event ∈ state.log ∨ event = .began id service := by
    intro event logged
    simpa [State.add, State.note] using logged
  have still : ∀ {other}, Begun state.log other → Over state other →
      Over (state.add flow service id url device secrets ttl) other := by
    rintro other ⟨otherService, begun⟩ isOver session listed same
    rcases mem_cons.mp listed with rfl | listed
    · exact absurd begun (same ▸ fresh otherService)
    · exact isOver session listed same
  refine ⟨⟨?ids, ⟨?services, ?pending⟩, ?indexed, ?begun, ?once⟩, ?ended, ?cancelled, ?cancelling, ?completes, ?awaited,
    ?succeeded, always_snoc.mpr ⟨sound.kept, trivial⟩⟩
  case ids =>
    refine nodup_cons.mpr ⟨fun listed => ?_, sound.ids⟩
    obtain ⟨session, member, same⟩ := mem_map.mp listed
    exact idApart member same
  case services =>
    refine nodup_cons.mpr ⟨fun listed => ?_, sound.limits.services⟩
    obtain ⟨session, member, same⟩ := mem_map.mp listed
    exact free session member same
  case pending =>
    have one : (state.add flow service id url device secrets ttl).pendingCount = state.pendingCount + 1 := by
      simp [State.pendingCount, State.add, TrackedSession.isPending]
    rw [one]
    exact room
  case indexed =>
    intro session listed
    rcases mem_cons.mp listed with rfl | listed
    · exact Function.update_self service (some id) state.byService
    · exact (Function.update_of_ne (free session listed) (some id) state.byService).trans (sound.indexed session listed)
  case begun =>
    intro session listed
    rcases mem_cons.mp listed with rfl | listed
    · exact mem_append_right _ (mem_singleton.mpr rfl)
    · exact mem_append_left _ (sound.begun session listed)
  case once =>
    intro other one two first second
    rcases logged_cases first with first | first <;> rcases logged_cases second with second | second
    · exact sound.once other one two first second
    · cases second
      exact absurd first (fresh one)
    · cases first
      exact absurd second (fresh two)
    · cases first
      cases second
      rfl
  case ended =>
    intro other status contested logged
    obtain ⟨begun, isOver⟩ := sound.ended other status contested ((logged_cases logged).resolve_right (fun h => by cases h))
    exact ⟨more begun, still begun isOver⟩
  case cancelled =>
    intro existing logged other listed
    obtain ⟨begun, isOver⟩ :=
      sound.cancelled existing ((logged_cases logged).resolve_right (fun h => by cases h)) other listed
    exact ⟨more begun, still begun isOver⟩
  case cancelling =>
    exact fun thread other existing completion found session listed =>
      mem_append_left _ (sound.cancelling thread other existing completion found session listed)
  case completes =>
    intro thread source other stage found completes
    obtain ⟨session, listed, rest⟩ := sound.completes thread source other stage found completes
    exact ⟨session, mem_cons_of_mem _ listed, rest⟩
  case awaited =>
    intro session listed completing
    rcases mem_cons.mp listed with rfl | listed
    · cases completing
    · exact sound.awaited session listed completing
  case succeeded =>
    intro other logged
    obtain ⟨begun, isOver | running⟩ := sound.succeeded other ((logged_cases logged).resolve_right (fun h => by cases h))
    · exact ⟨more begun, .inl (still begun isOver)⟩
    · exact ⟨more begun, .inr running⟩

/-! ### The steps -/

/-- A phase in which a thread completes no session and cancels none. -/
def Phase.Calm : Phase → Prop
  | .delivering _ _ stage => ¬ stage.Completes
  | .cancelling _ _ _ => False
  | _ => True

theorem Sound.calm (sound : Sound state)
    (idle : ∀ source id, state.threads thread ≠ .delivering source id (.hooked true)) (calm : phase.Calm) :
    Sound (state.move thread phase) := by
  refine sound.move idle (fun source id stage same => ?_) (fun service existing completion same => ?_)
  · subst same
    exact calm
  · subst same
    exact calm.elim

theorem calm_last (source : Source) (id : String) : (source.last id).Calm := by
  cases source <;> simp [Source.last, Phase.Calm, Stage.Completes]

variable {config : OAuthConfig}

section
variable (sound : Sound state)
include sound

theorem Sound.beginBrowser {url : String} {secrets : SessionSecrets} {failed : Bool}
    (stepped : state.beginBrowser config service id url secrets failed = some next) : Sound next := by
  obtain ⟨sound, settles, room⟩ := canStart_spec sound service
  rcases found : state.canStart service with ⟨started, free⟩
  rw [found] at sound settles room
  simp only [State.beginBrowser, found] at stepped
  split at stepped
  case isFalse => cases stepped
  case isTrue unused =>
    split at stepped <;> obtain rfl := some.inj stepped
    case isTrue ok =>
      obtain ⟨noSession, room⟩ := room (Bool.and_eq_true_iff.mp ok).1
      have added := sound.add (settles.unused unused) noSession room .browser url none secrets config.sessionTTL
      exact added.elsewhere _ _ _ _
    case isFalse => exact sound

theorem Sound.beginCode {url : String} {secrets : SessionSecrets} {failed : Bool}
    (stepped : state.beginCode config service id url secrets failed = some next) : Sound next := by
  obtain ⟨sound, settles, room⟩ := canStart_spec sound service
  rcases found : state.canStart service with ⟨started, free⟩
  rw [found] at sound settles room
  simp only [State.beginCode, found] at stepped
  split at stepped
  case isFalse => cases stepped
  case isTrue unused =>
    split at stepped <;> obtain rfl := some.inj stepped
    case isTrue ok =>
      obtain ⟨noSession, room⟩ := room (Bool.and_eq_true_iff.mp ok).1
      exact sound.add (settles.unused unused) noSession room .code url none secrets config.sessionTTL
    case isFalse => exact sound

theorem Sound.requestDevice (stepped : state.requestDevice thread service = some next) :
    Sound next := by
  obtain ⟨sound, settles, -⟩ := canStart_spec sound service
  rcases found : state.canStart service with ⟨started, free⟩
  rw [found] at sound settles
  simp only [State.requestDevice, found] at stepped
  split at stepped
  case h_2 => cases stepped
  case h_1 at_thread =>
    cases stepped
    refine sound.calm (fun source id => ?_) (by split <;> trivial)
    rw [settles.threads, at_thread]
    exact fun h => by cases h

theorem Sound.beginDevice {poller : Nat} {device : AuthorizationDeviceCode} {failed : Bool}
    (stepped : state.beginDevice config thread poller id device failed = some next) : Sound next := by
  unfold State.beginDevice at stepped
  split at stepped
  case h_2 => cases stepped
  case h_1 service at_thread at_poller =>
    obtain ⟨sound, settles, room⟩ := canStart_spec sound service
    rcases found : state.canStart service with ⟨started, free⟩
    rw [found] at sound settles room
    simp only [found] at stepped
    have idle : ∀ source other, started.threads thread ≠ .delivering source other (.hooked true) := by
      intro source other
      rw [settles.threads, at_thread]
      exact fun h => by cases h
    split at stepped
    case isFalse => cases stepped
    case isTrue unused =>
      split at stepped <;> obtain rfl := some.inj stepped
      case isTrue ok =>
        obtain ⟨noSession, room⟩ := room (Bool.and_eq_true_iff.mp ok).1
        have added := sound.add (settles.unused unused) noSession room .deviceCode "" (some device) ⟨"", "", ""⟩
          config.deviceCodeTTL
        refine (added.calm idle (show Phase.done.Calm from trivial)).calm (fun source other => ?_) trivial
        intro running
        rcases threads_move running with ⟨-, same⟩ | ⟨-, before⟩
        · cases same
        · have at_start : started.threads poller = .delivering source other (.hooked true) := before
          rw [settles.threads, at_poller] at at_start
          cases at_start
      case isFalse => exact sound.calm idle trivial

theorem Sound.forget (found : state.byService service = some id)
    (missing : state.lookup id = none) :
    Sound { state with byService := update state.byService service none } := by
  refine ⟨⟨sound.ids, ⟨sound.limits.services, sound.limits.pending⟩, fun session listed => ?_, sound.begun, sound.once⟩,
    sound.ended, sound.cancelled, sound.cancelling, sound.completes, sound.awaited, sound.succeeded, sound.kept⟩
  have apart : session.document.serviceID ≠ service := by
    intro same
    have indexed := sound.indexed session listed
    rw [same, found] at indexed
    exact lookup_none missing listed (some.inj indexed).symm
  exact (Function.update_of_ne apart none state.byService).trans (sound.indexed session listed)

theorem Sound.get (service : String) : Sound (state.get service) := by
  have expired := (expirePending_spec sound).1
  unfold State.get
  dsimp only
  split
  case h_2 => exact expired
  case h_1 id found =>
    split
    case h_1 => exact expired
    case h_2 missing => exact expired.forget found missing

theorem Sound.cancel (service : String) : Sound (state.cancel service) := by
  have expired := (expirePending_spec sound).1
  unfold State.cancel
  dsimp only
  split
  case h_2 => exact expired
  case h_1 id found =>
    split
    case h_1 => exact expired.settle id (by decide) _ _
    case h_2 missing => exact expired.forget found missing

theorem Sound.cancelled_of {existing : List String}
    (idle : ∀ source id, state.threads thread ≠ .delivering source id (.hooked true))
    (begun : ∀ id ∈ existing, .began id service ∈ state.log)
    (isOver : ∀ session ∈ state.sessions, session.document.serviceID = service → session.isPending = false) :
    Sound ((state.move thread .done).note (.cancelledAll existing)) := by
  refine (sound.calm idle (show Phase.done.Calm from trivial)).note trivial (fun _ _ h => by cases h) (fun _ _ _ h => by cases h) ?_
    (fun _ h => by cases h)
  intro other same id listed
  cases same
  refine ⟨⟨service, begun id listed⟩, fun session member same => isOver session member ?_⟩
  exact sound.once id _ _ (same ▸ sound.begun session member) (begun id listed)

theorem Sound.cancelTurn {existing : List String}
    (idle : ∀ source id, state.threads thread ≠ .delivering source id (.hooked true))
    (begun : ∀ id ∈ existing, .began id service ∈ state.log) : Sound (state.cancelTurn thread service existing) := by
  unfold State.cancelTurn
  split
  case h_2 missing =>
    refine sound.cancelled_of idle begun (fun session listed same => ?_)
    have indexed := sound.indexed session listed
    rw [same, missing] at indexed
    cases indexed
  case h_1 id found =>
    have isIt : ∀ session ∈ state.sessions, session.document.serviceID = service → session.document.id = id := by
      intro session listed same
      have indexed := sound.indexed session listed
      rw [same, found] at indexed
      exact (some.inj indexed).symm
    split
    case h_2 missing =>
      exact (sound.forget found missing).cancelled_of idle begun
        (fun session listed same => absurd (isIt session listed same) (lookup_none missing listed))
    case h_1 session isFound =>
      obtain ⟨listed, rfl⟩ := lookup_some isFound
      split
      case h_1 completion completing waited =>
        refine sound.move idle (fun _ _ _ h => by cases h) (fun other listedIds number same => ?_)
        cases same
        exact begun
      case h_2 free =>
        have calm : session.completing = false := by
          rw [Bool.eq_false_iff]
          intro completing
          obtain ⟨completion, waited⟩ := Option.isSome_iff_exists.mp (sound.awaited session listed completing)
          exact free completion completing waited
        have settles := settle_settles state session.document.id .cancelled sessionCancelled
        have isOver := sound.settle_over listed calm (show Status.cancelled ≠ .pending by decide) sessionCancelled false
        refine (sound.settle _ (by decide) sessionCancelled false).cancelled_of (settles.threads ▸ idle)
          (fun other member => (settles.began other service).mpr (begun other member)) ?_
        intro changed member same
        have indexed := (sound.settle session.document.id (by decide) sessionCancelled false).indexed changed member
        rw [same, settle_byService, found] at indexed
        exact isOver changed member (some.inj indexed).symm

end

theorem mem_begun :
    id ∈ state.begun service ↔ .began id service ∈ state.log := by
  simp only [State.begun, mem_filterMap]
  constructor
  · rintro ⟨event, logged, same⟩
    cases event with
    | began other otherService =>
      simp only [Option.ite_none_right_eq_some, Option.some.injEq] at same
      obtain ⟨rfl, rfl⟩ := same
      exact logged
    | ended | hookStarted | hookSucceeded | cancelledAll => cases same
  · intro logged
    exact ⟨_, logged, by simp⟩

section
variable (sound : Sound state)
include sound

theorem Sound.cancelAll (stepped : state.cancelAll thread service = some next) : Sound next := by
  unfold State.cancelAll at stepped
  split at stepped
  case h_2 => cases stepped
  case h_1 at_thread =>
    cases stepped
    refine sound.cancelTurn (fun source id => ?_) (fun id listed => mem_begun.mp listed)
    rw [at_thread]
    exact fun h => by cases h

theorem Sound.cancelAgain (stepped : state.cancelAgain thread = some next) : Sound next := by
  unfold State.cancelAgain at stepped
  split at stepped
  case h_2 => cases stepped
  case h_1 service existing completion at_thread =>
    split at stepped
    case isTrue => cases stepped
    case isFalse =>
      cases stepped
      refine sound.cancelTurn (fun source id => ?_) (sound.cancelling thread service existing completion at_thread)
      rw [at_thread]
      exact fun h => by cases h

theorem Sound.exchange (idle : state.threads thread = .idle) (source : Source)
    (id code : String) : Sound (state.exchange thread source id code) := by
  have moved : Sound (state.move thread (.delivering source id (.exchanging code))) := by
    refine sound.calm (fun _ _ => ?_) (fun h => h)
    rw [idle]
    exact fun h => by cases h
  exact moved.elsewhere _ _ _ _

theorem Sound.callback {query : Query} (stepped : state.callback thread id query = some next) :
    Sound next := by
  have failed : ∀ failure, state.threads thread = .idle →
      Sound ((state.failSession id failure false).move thread .done) := by
    intro failure at_thread
    refine (sound.settle id (by decide) failure false).calm (fun source other => ?_) trivial
    rw [(settle_settles state id .failed failure).threads, at_thread]
    exact fun h => by cases h
  unfold State.callback at stepped
  split at stepped
  case h_2 => cases stepped
  case h_1 secrets installed at_thread =>
    split at stepped
    case isTrue =>
      cases stepped
      exact failed providerError at_thread
    case isFalse =>
      split at stepped <;> obtain rfl := some.inj stepped
      · exact failed stateMismatch at_thread
      · exact sound.exchange at_thread .callback id query.code

theorem Sound.callbackCancel (stepped : state.callbackCancel id = some next) : Sound next := by
  unfold State.callbackCancel at stepped
  split at stepped
  case h_2 => cases stepped
  case h_1 =>
    cases stepped
    exact sound.settle id (by decide) sessionCancelled false

theorem Sound.mark (id : String) (exchanging : Bool) :
    Sound (state.modify id fun session => { session with exchanging }) :=
  sound.modify (fun _ _ _ => ⟨rfl, rfl, fun pending => pending⟩) (fun _ _ _ => ⟨rfl, rfl, fun _ => rfl⟩)

theorem Sound.completeCode {code : String}
    (stepped : state.completeCode thread service id code = some next) : Sound next := by
  unfold State.completeCode at stepped
  split at stepped
  case h_2 => cases stepped
  case h_1 at_thread =>
    obtain ⟨expired, settles⟩ := expirePending_spec sound
    have idle : state.expirePending.threads thread = .idle := settles.threads ▸ at_thread
    have refused : Sound (state.expirePending.move thread .done) :=
      expired.calm (fun _ _ => by rw [idle]; exact fun h => by cases h) trivial
    dsimp only at stepped
    split at stepped
    case h_2 =>
      cases stepped
      exact refused
    case h_1 session found =>
      split at stepped
      case h_2 =>
        cases stepped
        exact refused
      case h_1 secrets present =>
        split at stepped <;> obtain rfl := some.inj stepped
        · exact (expired.mark id true).exchange idle .pasted id (trimSpace code)
        · exact refused

theorem Sound.answer {answer : Answer} (stepped : state.answer thread answer = some next) :
    Sound next := by
  unfold State.answer at stepped
  split at stepped
  case h_2 => cases stepped
  case h_1 source id code at_thread =>
    have idle : ∀ other otherId, state.threads thread ≠ .delivering other otherId (.hooked true) := by
      rw [at_thread]
      exact fun _ _ h => by cases h
    dsimp only at stepped
    split at stepped
    case h_1 tokens =>
      split at stepped
      case isTrue => cases stepped
      case isFalse =>
        cases stepped
        have moved := sound.calm idle (show (Phase.delivering source id (.exchanged tokens)).Calm from fun h => h)
        exact moved.elsewhere _ _ _ _
    case h_2 =>
      cases stepped
      have refused : ∀ contested, Sound (state.move thread (.delivering source id (.refused exchangeFailed contested))) :=
        fun contested => sound.calm idle (fun h => h)
      exact (refused _).elsewhere _ _ _ _

theorem Sound.poll {result : Poll} (stepped : state.poll config thread result = some next) :
    Sound next := by
  unfold State.poll at stepped
  split at stepped
  case h_2 => cases stepped
  case h_1 id at_thread =>
    have idle : ∀ other otherId, state.threads thread ≠ .delivering other otherId (.hooked true) := by
      rw [at_thread]
      exact fun _ _ h => by cases h
    split at stepped <;> obtain rfl := some.inj stepped
    · exact sound
    · exact sound.calm idle (fun h => h)
    · exact sound.calm idle (fun h => h)

/-! ### Completing a session -/

theorem Completing.unique {one two : Nat} (first : Completing state one id)
    (second : Completing state two id) : one = two := by
  obtain ⟨session, listed, same, -, -, waited⟩ := first
  obtain ⟨other, otherListed, otherSame, -, -, otherWaited⟩ := second
  rw [sound.unique otherListed listed (otherSame.trans same.symm), waited] at otherWaited
  exact some.inj otherWaited

end

variable {source : Source}

theorem Sound.claim (sound : Sound state) {tokens : AccountTokens}
    (at_thread : state.threads thread = .delivering source session.document.id (.exchanged tokens))
    (listed : session ∈ state.sessions) (pending : session.isPending = true) (calm : session.completing = false) :
    Sound ((state.modify session.document.id fun session =>
      { session with completing := true, completionDone := some thread }).move thread
        (.delivering source session.document.id (.hooking tokens))) := by
  have keeps : Keeps state session.document.id fun session =>
      { session with completing := true, completionDone := some thread } :=
    fun _ _ _ => ⟨rfl, rfl, fun pending => pending⟩
  have tabled := sound.toTabled.modify keeps
  refine ⟨⟨tabled.ids, ⟨tabled.limits.services, tabled.limits.pending⟩, tabled.indexed, tabled.begun, tabled.once⟩,
    ?ended, ?cancelled, ?cancelling, ?completes, ?awaited, ?succeeded, sound.kept⟩
  case ended =>
    exact fun id status contested logged =>
      (sound.ended id status contested logged).imp_right (fun isOver => isOver.modify keeps)
  case cancelled =>
    exact fun existing logged id listed =>
      (sound.cancelled existing logged id listed).imp_right (fun isOver => isOver.modify keeps)
  case cancelling =>
    intro other service existing completion found
    rcases threads_move found with ⟨-, same⟩ | ⟨-, before⟩
    · cases same
    · exact sound.cancelling other service existing completion before
  case completes =>
    intro other source' id stage found completes
    rcases threads_move found with ⟨rfl, same⟩ | ⟨apart, before⟩
    · cases same
      exact ⟨_, mem_modify.mpr ⟨session, listed, rfl⟩, by simpa [TrackedSession.isPending] using pending⟩
    · obtain ⟨completed, member, isIt, stillPending, completing, waited⟩ :=
        sound.completes other source' id stage before completes
      have otherSession : completed.document.id ≠ session.document.id := by
        intro same
        rw [sound.unique member listed same, calm] at completing
        cases completing
      refine ⟨_, mem_modify.mpr ⟨completed, member, rfl⟩, ?_⟩
      rw [if_neg otherSession]
      exact ⟨isIt, stillPending, completing, waited⟩
  case awaited =>
    intro changed listedNow completing
    obtain ⟨old, member, rfl⟩ := mem_modify.mp listedNow
    by_cases same : old.document.id = session.document.id
    · rw [if_pos same]
      rfl
    · rw [if_neg same] at completing ⊢
      exact sound.awaited old member completing
  case succeeded =>
    intro id logged
    obtain ⟨begun, isOver | ⟨other, source', running⟩⟩ := sound.succeeded id logged
    · exact ⟨begun, .inl (isOver.modify keeps)⟩
    · have apart : other ≠ thread := by
        rintro rfl
        rw [at_thread] at running
        cases running
      exact ⟨begun, .inr ⟨other, source', by simpa [State.move, State.modify, apart] using running⟩⟩

theorem Sound.complete (sound : Sound state) (stepped : state.complete thread = some next) : Sound next := by
  unfold State.complete at stepped
  split at stepped
  case h_2 => cases stepped
  case h_1 source id tokens at_thread =>
    obtain ⟨expired, settles⟩ := expirePending_spec sound
    have at_expired : state.expirePending.threads thread = .delivering source id (.exchanged tokens) :=
      settles.threads ▸ at_thread
    dsimp only at stepped
    split at stepped <;> obtain rfl := some.inj stepped
    case isTrue active =>
      obtain ⟨session, listed, rfl, idle⟩ := lookup_any active
      obtain ⟨pending, calm⟩ : session.isPending = true ∧ session.completing = false := by simpa using idle
      refine (expired.claim at_expired listed pending calm).note ⟨?_, ?_⟩ (fun _ _ h => by cases h) (fun _ _ _ h => by cases h)
        (fun _ h => by cases h) (fun _ h => by cases h)
      · exact expired.unended listed pending
      · exact fun existing logged found => not_over listed pending (expired.cancelled existing logged _ found).2
    case isFalse =>
      refine expired.calm (fun _ _ => ?_) (fun h => h)
      rw [at_expired]
      exact fun h => by cases h

theorem Sound.hooked (sound : Sound state) {tokens : AccountTokens}
    (at_thread : state.threads thread = .delivering source id (.hooking tokens)) (succeeds : Bool) :
    Sound (state.move thread (.delivering source id (.hooked succeeds))) where
  ids := sound.ids
  limits := ⟨sound.limits.services, sound.limits.pending⟩
  indexed := sound.indexed
  begun := sound.begun
  once := sound.once
  ended := sound.ended
  cancelled := sound.cancelled
  cancelling other service existing completion found := by
    rcases threads_move found with ⟨-, same⟩ | ⟨-, before⟩
    · cases same
    · exact sound.cancelling other service existing completion before
  completes other source' otherId stage found completes := by
    rcases threads_move found with ⟨rfl, same⟩ | ⟨-, before⟩
    · cases same
      exact sound.completes other source id (.hooking tokens) at_thread trivial
    · exact sound.completes other source' otherId stage before completes
  awaited := sound.awaited
  succeeded otherId logged := by
    obtain ⟨begun, isOver | ⟨other, source', running⟩⟩ := sound.succeeded otherId logged
    · exact ⟨begun, .inl isOver⟩
    · have apart : other ≠ thread := by
        rintro rfl
        rw [at_thread] at running
        cases running
      exact ⟨begun, .inr ⟨other, source', by simpa [State.move, apart] using running⟩⟩
  kept := sound.kept

theorem Sound.onComplete (sound : Sound state) {succeeds : Bool}
    (stepped : state.onComplete thread succeeds = some next) : Sound next := by
  unfold State.onComplete at stepped
  split at stepped
  case h_2 => cases stepped
  case h_1 source id tokens at_thread =>
    cases stepped
    have hooked := sound.hooked at_thread succeeds
    split
    case isFalse => exact hooked
    case isTrue isOk =>
      subst isOk
      have completing := sound.completes thread source id (.hooking tokens) at_thread trivial
      have its := completing
      obtain ⟨session, listed, rfl, pending, -, -⟩ := its
      refine hooked.note ⟨fun logged => ?_, fun existing logged found => ?_⟩ (fun _ _ h => by cases h)
        (fun _ _ _ h => by cases h) (fun _ h => by cases h) (fun other same => ?_)
      · obtain ⟨-, isOver | ⟨other, source', running⟩⟩ := sound.succeeded _ logged
        · exact not_over listed pending isOver
        · obtain rfl := (sound.completes other source' _ _ running trivial).unique sound completing
          rw [at_thread] at running
          cases running
      · exact not_over listed pending (sound.cancelled existing logged _ found).2
      · cases same
        exact ⟨⟨_, sound.begun session listed⟩, .inr ⟨thread, source, by simp [State.move]⟩⟩

theorem finish_spec (session : TrackedSession) (now : Nat) (succeeded : Bool) :
    (session.finish now succeeded).document.id = session.document.id ∧
      (session.finish now succeeded).document.serviceID = session.document.serviceID ∧
      (session.finish now succeeded).isPending = (!succeeded && session.isPending) ∧
      (session.finish now succeeded).completing = false := by
  cases succeeded <;> simp [TrackedSession.finish, TrackedSession.isPending]

theorem Sound.record (sound : Sound state) {succeeded : Bool}
    (at_thread : state.threads thread = .delivering source session.document.id (.hooked succeeded))
    (listed : session ∈ state.sessions) (waited : session.completionDone = some thread) (calm : phase.Calm) :
    Sound ((state.modify session.document.id (·.finish state.now succeeded)).move thread phase) := by
  have keeps : Keeps state session.document.id (·.finish state.now succeeded) := by
    intro other member same
    obtain ⟨sameId, sameService, pending, -⟩ := finish_spec other state.now succeeded
    exact ⟨sameId, sameService, fun stays => (Bool.and_eq_true_iff.mp (pending ▸ stays)).2⟩
  have tabled := sound.toTabled.modify keeps
  refine ⟨⟨tabled.ids, ⟨tabled.limits.services, tabled.limits.pending⟩, tabled.indexed, tabled.begun, tabled.once⟩,
    ?ended, ?cancelled, ?cancelling, ?completes, ?awaited, ?succeeded, sound.kept⟩
  case ended =>
    exact fun id status contested logged =>
      (sound.ended id status contested logged).imp_right (fun isOver => isOver.modify keeps)
  case cancelled =>
    exact fun existing logged id listed =>
      (sound.cancelled existing logged id listed).imp_right (fun isOver => isOver.modify keeps)
  case cancelling =>
    intro other service existing completion found
    rcases threads_move found with ⟨-, same⟩ | ⟨-, before⟩
    · subst same
      exact calm.elim
    · exact sound.cancelling other service existing completion before
  case completes =>
    intro other source' id stage found completes
    rcases threads_move found with ⟨-, same⟩ | ⟨apart, before⟩
    · subst same
      exact absurd completes calm
    · obtain ⟨completed, member, isIt, pending, completing, otherWaited⟩ :=
        sound.completes other source' id stage before completes
      have otherSession : completed.document.id ≠ session.document.id := by
        intro same
        rw [sound.unique member listed same, waited] at otherWaited
        exact apart (some.inj otherWaited).symm
      refine ⟨_, mem_modify.mpr ⟨completed, member, rfl⟩, ?_⟩
      rw [if_neg otherSession]
      exact ⟨isIt, pending, completing, otherWaited⟩
  case awaited =>
    intro changed listedNow completing
    obtain ⟨old, member, rfl⟩ := mem_modify.mp listedNow
    by_cases same : old.document.id = session.document.id
    · rw [if_pos same, (finish_spec old state.now succeeded).2.2.2] at completing
      cases completing
    · rw [if_neg same] at completing ⊢
      exact sound.awaited old member completing
  case succeeded =>
    intro id logged
    obtain ⟨begun, isOver | ⟨other, source', running⟩⟩ := sound.succeeded id logged
    · exact ⟨begun, .inl (isOver.modify keeps)⟩
    · by_cases apart : other = thread
      · subst apart
        rw [at_thread] at running
        cases running
        refine ⟨begun, .inl (fun changed listedNow same => ?_)⟩
        obtain ⟨old, member, rfl⟩ := mem_modify.mp listedNow
        by_cases isIt : old.document.id = session.document.id
        · rw [if_pos isIt, (finish_spec old state.now true).2.2.1]
          rfl
        · rw [if_neg isIt] at same
          exact absurd same isIt
      · exact ⟨begun, .inr ⟨other, source', by simpa [State.move, State.modify, apart] using running⟩⟩

theorem Sound.finish (sound : Sound state) (stepped : state.finish thread = some next) : Sound next := by
  unfold State.finish at stepped
  split at stepped
  case h_2 => cases stepped
  case h_1 source id succeeded at_thread =>
    obtain ⟨session, listed, rfl, pending, completing, waited⟩ :=
      sound.completes thread source id (.hooked succeeded) at_thread trivial
    split at stepped <;> obtain rfl := some.inj stepped
    case isTrue =>
      cases succeeded with
      | false => exact sound.record at_thread listed waited (fun h => h)
      | true =>
        refine (sound.record at_thread listed waited (calm_last source session.document.id)).note
          (fun _ _ => sound.unended listed pending _ _) (fun _ _ h => by cases h) ?_ (fun _ h => by cases h)
          (fun _ h => by cases h)
        intro other _ _ same
        cases same
        refine ⟨⟨_, sound.begun session listed⟩, fun changed listedNow same => ?_⟩
        obtain ⟨old, member, rfl⟩ := mem_modify.mp listedNow
        by_cases isIt : old.document.id = session.document.id
        · rw [if_pos isIt, (finish_spec old state.now true).2.2.1]
          rfl
        · rw [if_neg isIt] at same
          exact absurd same isIt
    case isFalse missed =>
      -- The session is still there, and this thread is the one that completes it.
      have found : state.lookup session.document.id = some session := by
        cases at_id : state.lookup session.document.id with
        | none => exact absurd rfl (lookup_none at_id listed)
        | some other => rw [sound.unique (lookup_some at_id).1 listed (lookup_some at_id).2]
      simp [found, completing, waited] at missed

theorem Sound.fail (sound : Sound state) (stepped : state.fail thread = some next) : Sound next := by
  have failed : ∀ (source : Source) id failure contested,
      (∀ other otherId, state.threads thread ≠ .delivering other otherId (.hooked true)) →
      Sound ((state.failSession id failure contested).move thread (source.last id)) := by
    intro source id failure contested idle
    refine (sound.settle id (by decide) failure contested).calm (fun other otherId => ?_) (calm_last source id)
    have same := congrFun (settle_threads state id .failed failure contested) thread
    exact fun running => idle other otherId (same.symm.trans running)
  unfold State.fail at stepped
  split at stepped
  case h_1 source id failure contested at_thread =>
    cases stepped
    exact failed source id failure contested (fun _ _ => by rw [at_thread]; exact fun h => by cases h)
  case h_2 source id at_thread =>
    cases stepped
    exact failed source id storeUnavailable false (fun _ _ => by rw [at_thread]; exact fun h => by cases h)
  case h_3 => cases stepped

theorem Sound.release (sound : Sound state) (stepped : state.release thread = some next) : Sound next := by
  unfold State.release at stepped
  split at stepped
  case h_2 => cases stepped
  case h_1 id at_thread =>
    cases stepped
    refine (sound.mark id false).calm (fun source other => ?_) trivial
    show state.threads thread ≠ _
    rw [at_thread]
    exact fun h => by cases h

theorem Sound.step {act : Act} (sound : Sound state) (stepped : step config state act = some next) : Sound next := by
  cases act with
  | beginBrowser service id url secrets failed => exact sound.beginBrowser stepped
  | beginCode service id url secrets failed => exact sound.beginCode stepped
  | requestDevice thread service => exact sound.requestDevice stepped
  | beginDevice thread poller id device failed => exact sound.beginDevice stepped
  | get service =>
    cases stepped
    exact sound.get service
  | cancel service =>
    cases stepped
    exact sound.cancel service
  | cancelAll thread service => exact sound.cancelAll stepped
  | cancelAgain thread => exact sound.cancelAgain stepped
  | callback thread id query => exact sound.callback stepped
  | callbackCancel id => exact sound.callbackCancel stepped
  | completeCode thread service id code => exact sound.completeCode stepped
  | answer thread answer => exact sound.answer stepped
  | poll thread result => exact sound.poll stepped
  | complete thread => exact sound.complete stepped
  | onComplete thread succeeds => exact sound.onComplete stepped
  | finish thread => exact sound.finish stepped
  | fail thread => exact sound.fail stepped
  | release thread => exact sound.release stepped
  | expire id =>
    cases stepped
    exact sound.settle id (by decide) sessionExpired false
  | tick =>
    cases stepped
    exact sound.elsewhere _ _ _ _

end AstrLink.AuthSessions
