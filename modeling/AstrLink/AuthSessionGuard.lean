import AstrLink.AuthSessionSafety

/-!
Two deliveries of one code. `CompleteCode` refuses a second one; the callback handler does not, and the second
of two callbacks fails the session (`second_callback_fails`) unless its refusal comes too late to matter
(`sessions_kept`).
-/
namespace AstrLink.AuthSessions
open TokenSource (AccountTokens)
open Runs List
open Function (update)
open Option (some.inj)
open Function (update_of_ne)

structure Guarded (state : State) : Prop where
  exchanges : ∀ exchange ∈ state.exchanges, ∃ source,
    state.threads exchange.thread = .delivering source exchange.id (.exchanging exchange.code)
  contested : ∀ exchange ∈ state.exchanges, exchange.contested = true → (state.handlers exchange.id).isSome = true
  refused : ∀ thread source id failure, state.threads thread = .delivering source id (.refused failure true) →
    source = .callback
  callback : ∀ thread id code, state.threads thread = .delivering .callback id (.exchanging code) →
    (state.handlers id).isSome = true
  polled : ∀ thread id code, state.threads thread ≠ .delivering .polled id (.exchanging code)
  pasted : ∀ thread id stage, state.threads thread = .delivering .pasted id stage →
    Begun state.log id ∧ state.handlers id = none ∧
      ∀ session ∈ state.sessions, session.document.id = id → session.exchanging = true
  single : ∀ one two id stage stage', state.threads one = .delivering .pasted id stage →
    state.threads two = .delivering .pasted id stage' → one = two
  code : ∀ session ∈ state.sessions, session.document.flow = .code → state.handlers session.document.id = none
  begun : ∀ id, (state.handlers id).isSome = true → Begun state.log id
  uncontested : Uncontested state

theorem Guarded.start : Guarded start := by
  refine ⟨?_, ?_, ?_, ?_, ?_, ?_, ?_, ?_, ?_, ?_⟩ <;> simp [AuthSessions.start, Uncontested]

variable {state next : State} {id : String}

theorem Begun.mono (settles : Settles state next) (begun : Begun state.log id) :
    Begun next.log id := by
  obtain ⟨service, logged⟩ := begun
  exact ⟨service, (settles.began id service).mpr logged⟩

theorem Guarded.settles (guarded : Guarded state) (settles : Settles state next) : Guarded next where
  exchanges := by
    rw [settles.exchanges, settles.threads]
    exact guarded.exchanges
  contested := by
    rw [settles.exchanges, settles.handlers]
    exact guarded.contested
  refused := by
    rw [settles.threads]
    exact guarded.refused
  callback := by
    rw [settles.threads, settles.handlers]
    exact guarded.callback
  polled := by
    rw [settles.threads]
    exact guarded.polled
  pasted := by
    rw [settles.threads, settles.handlers]
    intro thread id stage found
    obtain ⟨begun, bare, exchanging⟩ := guarded.pasted thread id stage found
    refine ⟨begun.mono settles, bare, fun session listed same => ?_⟩
    obtain ⟨old, member, sameId, -, sameMark⟩ := settles.sessions session listed
    exact sameMark ▸ exchanging old member (sameId.trans same)
  single := by
    rw [settles.threads]
    exact guarded.single
  code := by
    rw [settles.handlers]
    intro session listed isCode
    obtain ⟨old, member, sameId, sameFlow, -⟩ := settles.sessions session listed
    exact sameId ▸ guarded.code old member (sameFlow.trans isCode)
  begun := by
    rw [settles.handlers]
    exact fun id installed => (guarded.begun id installed).mono settles
  uncontested id status logged := guarded.uncontested id status (settles.uncontested id status logged)

variable {thread : Nat}

theorem Guarded.move (guarded : Guarded state) {phase : Phase}
    (quiet : ∀ exchange ∈ state.exchanges, exchange.thread ≠ thread)
    (asked : ∀ source id code, phase ≠ .delivering source id (.exchanging code))
    (refused : ∀ source id failure, phase = .delivering source id (.refused failure true) → source = .callback)
    (pasted : ∀ id stage, phase = .delivering .pasted id stage → ∃ stage, state.threads thread = .delivering .pasted id stage) :
    Guarded (state.move thread phase) where
  exchanges exchange listed := by
    obtain ⟨source, found⟩ := guarded.exchanges exchange listed
    exact ⟨source, by simpa [State.move, quiet exchange listed] using found⟩
  contested := guarded.contested
  refused other source id failure found := by
    rcases threads_move found with ⟨-, same⟩ | ⟨-, before⟩
    · exact refused source id failure same
    · exact guarded.refused other source id failure before
  callback other id code found := by
    rcases threads_move found with ⟨-, same⟩ | ⟨-, before⟩
    · exact absurd same (asked .callback id code)
    · exact guarded.callback other id code before
  polled other id code found := by
    rcases threads_move found with ⟨-, same⟩ | ⟨-, before⟩
    · exact asked .polled id code same
    · exact guarded.polled other id code before
  pasted other id stage found := by
    rcases threads_move found with ⟨rfl, same⟩ | ⟨-, before⟩
    · obtain ⟨stage, before⟩ := pasted id stage same
      exact guarded.pasted other id stage before
    · exact guarded.pasted other id stage before
  single one two id stage stage' first second := by
    have before : ∀ {other stage}, (state.move thread phase).threads other = .delivering .pasted id stage →
        ∃ stage, state.threads other = .delivering .pasted id stage := by
      intro other stage found
      rcases threads_move found with ⟨rfl, same⟩ | ⟨-, before⟩
      · exact pasted id stage same
      · exact ⟨stage, before⟩
    obtain ⟨_, first⟩ := before first
    obtain ⟨_, second⟩ := before second
    exact guarded.single one two id _ _ first second
  code := guarded.code
  begun := guarded.begun
  uncontested := guarded.uncontested

theorem Guarded.note (guarded : Guarded state) {event : Event} (calm : ∀ id status, event ≠ .ended id status true) :
    Guarded (state.note event) where
  exchanges := guarded.exchanges
  contested := guarded.contested
  refused := guarded.refused
  callback := guarded.callback
  polled := guarded.polled
  pasted thread id stage found := by
    obtain ⟨⟨service, logged⟩, rest⟩ := guarded.pasted thread id stage found
    exact ⟨⟨service, mem_append_left _ logged⟩, rest⟩
  single := guarded.single
  code := guarded.code
  begun id installed := by
    obtain ⟨service, logged⟩ := guarded.begun id installed
    exact ⟨service, mem_append_left _ logged⟩
  uncontested id status logged := by
    rcases mem_append.mp logged with earlier | last
    · exact guarded.uncontested id status earlier
    · exact calm id status (mem_singleton.mp last).symm

theorem Guarded.modify (guarded : Guarded state) {change : TrackedSession → TrackedSession}
    (keeps : ∀ session, (change session).document.id = session.document.id ∧ (change session).document.flow = session.document.flow ∧ (change session).exchanging = session.exchanging) :
    Guarded (state.modify id change) := by
  refine guarded.settles ⟨rfl, rfl, rfl, fun session listed => ?_, fun _ _ => .rfl, fun _ _ logged => logged⟩
  obtain ⟨old, member, rfl⟩ := mem_modify.mp listed
  refine ⟨old, member, ?_⟩
  by_cases same : old.document.id = id
  · rw [if_pos same]
    exact ⟨(keeps old).1.symm, (keeps old).2.1.symm, (keeps old).2.2.symm⟩
  · rw [if_neg same]
    exact ⟨rfl, rfl, rfl⟩

theorem Guarded.mark (guarded : Guarded state) (id : String) (exchanging : Bool)
    (free : exchanging = true ∨ ∀ thread stage, state.threads thread ≠ .delivering .pasted id stage) :
    Guarded (state.modify id fun session => { session with exchanging }) := by
  refine ⟨guarded.exchanges, guarded.contested, guarded.refused, guarded.callback, guarded.polled, ?pasted, guarded.single,
    ?code, guarded.begun, guarded.uncontested⟩
  case pasted =>
    intro thread other stage found
    obtain ⟨begun, bare, marked⟩ := guarded.pasted thread other stage found
    refine ⟨begun, bare, fun session listed same => ?_⟩
    obtain ⟨old, member, rfl⟩ := mem_modify.mp listed
    by_cases isIt : old.document.id = id
    · rw [if_pos isIt] at same ⊢
      rcases free with rfl | none_pasted
      · rfl
      · exact absurd found (same.symm.trans isIt ▸ none_pasted thread stage)
    · rw [if_neg isIt] at same ⊢
      exact marked old member same
  case code =>
    intro session listed isCode
    obtain ⟨old, member, rfl⟩ := mem_modify.mp listed
    by_cases isIt : old.document.id = id
    · rw [if_pos isIt] at isCode ⊢
      exact guarded.code old member isCode
    · rw [if_neg isIt] at isCode ⊢
      exact guarded.code old member isCode

variable {service : String}
variable {failed : Bool}

section
variable (guarded : Guarded state)
include guarded

theorem Guarded.add (fresh : ∀ other, .began id other ∉ state.log) (flow : Flow)
    (url : String) (device : Option AuthorizationDeviceCode) (secrets : SessionSecrets) (ttl : Nat) :
    Guarded (state.add flow service id url device secrets ttl) := by
  have more : ∀ {other}, Begun state.log other → Begun (state.add flow service id url device secrets ttl).log other :=
    fun ⟨other, logged⟩ => ⟨other, mem_append_left _ logged⟩
  refine ⟨guarded.exchanges, guarded.contested, guarded.refused, guarded.callback, guarded.polled, ?pasted, guarded.single,
    ?code, fun other installed => more (guarded.begun other installed), ?uncontested⟩
  case pasted =>
    intro thread other stage found
    obtain ⟨⟨otherService, logged⟩, bare, exchanging⟩ := guarded.pasted thread other stage found
    refine ⟨more ⟨otherService, logged⟩, bare, fun session listed same => ?_⟩
    rcases mem_cons.mp listed with rfl | listed
    · exact absurd logged (same ▸ fresh otherService)
    · exact exchanging session listed same
  case code =>
    intro session listed isCode
    rcases mem_cons.mp listed with rfl | listed
    · cases at_id : state.handlers id with
      | none => exact at_id
      | some secrets =>
        obtain ⟨other, logged⟩ := guarded.begun id (at_id ▸ rfl)
        exact absurd logged (fresh other)
    · exact guarded.code session listed isCode
  case uncontested =>
    intro other status logged
    have logged : .ended other status true ∈ state.log := by simpa [State.add, State.note] using logged
    exact guarded.uncontested other status logged

theorem Guarded.install (fresh : ∀ other, .began id other ∉ state.log) (url : String)
    (secrets : SessionSecrets) (ttl : Nat) (elsewhere : ∀ session ∈ state.sessions, session.document.id ≠ id) :
    Guarded { state.add .browser service id url none secrets ttl with
      handlers := update state.handlers id (some secrets) } := by
  have added : Guarded (state.add .browser service id url none secrets ttl) := guarded.add fresh .browser url none secrets ttl
  have more : ∀ {other}, (state.handlers other).isSome = true → (update state.handlers id (some secrets) other).isSome = true := by
    intro other installed
    by_cases same : other = id
    · subst same
      simp
    · rwa [update_of_ne same]
  refine ⟨added.exchanges, fun exchange listed contested => more (guarded.contested exchange listed contested), added.refused,
    fun thread other code found => more (guarded.callback thread other code found), added.polled, ?pasted, added.single,
    ?code, ?begun, added.uncontested⟩
  case pasted =>
    intro thread other stage found
    obtain ⟨begun, bare, exchanging⟩ := added.pasted thread other stage found
    obtain ⟨⟨otherService, logged⟩, -, -⟩ := guarded.pasted thread other stage found
    have apart : other ≠ id := fun same => fresh otherService (same ▸ logged)
    exact ⟨begun, (update_of_ne apart (some secrets) state.handlers).trans bare, exchanging⟩
  case code =>
    intro session listed isCode
    rcases mem_cons.mp listed with rfl | listed
    · cases isCode
    · exact (update_of_ne (elsewhere session listed) (some secrets) state.handlers).trans
        (guarded.code session listed isCode)
  case begun =>
    intro other installed
    by_cases same : other = id
    · subst same
      exact ⟨service, mem_append_right _ (mem_singleton.mpr rfl)⟩
    · have still := update_of_ne same (some secrets) state.handlers
      exact added.begun other ((congrArg Option.isSome still).symm.trans installed)

theorem Guarded.exchange (idle : state.threads thread = .idle) {source : Source}
    (code : String)
    (brought : source = .callback ∧ (state.handlers id).isSome = true ∨ source = .pasted ∧ (∀ exchange ∈ state.exchanges, exchange.id ≠ id) ∧ (Begun state.log id ∧ state.handlers id = none ∧ ∀ session ∈ state.sessions, session.document.id = id → session.exchanging = true) ∧ ∀ other stage, state.threads other ≠ .delivering .pasted id stage) :
    Guarded (state.exchange thread source id code) := by
  have apart : ∀ exchange ∈ state.exchanges, exchange.thread ≠ thread := by
    rintro exchange listed rfl
    obtain ⟨source, found⟩ := guarded.exchanges exchange listed
    rw [idle] at found
    cases found
  have listed_cases : ∀ {exchange}, exchange ∈ (state.exchange thread source id code).exchanges →
      (∃ old ∈ state.exchanges, exchange.thread = old.thread ∧ exchange.id = old.id ∧ exchange.code = old.code ∧
        (exchange.contested = true → old.contested = true ∨ old.id = id)) ∨
      exchange.thread = thread ∧ exchange.id = id ∧ exchange.code = code ∧
        (exchange.contested = true → ∃ old ∈ state.exchanges, old.id = id) := by
    intro exchange listed
    rcases mem_append.mp listed with earlier | last
    · obtain ⟨old, member, rfl⟩ := mem_map.mp earlier
      refine .inl ⟨old, member, rfl, rfl, rfl, fun contested => ?_⟩
      rcases Bool.or_eq_true_iff.mp contested with before | rival
      · exact .inl before
      · exact .inr (by simpa using (Bool.and_eq_true_iff.mp rival).1)
    · obtain rfl := mem_singleton.mp last
      refine .inr ⟨rfl, rfl, rfl, fun contested => ?_⟩
      obtain ⟨old, member, rival⟩ := any_eq_true.mp contested
      exact ⟨old, member, by simpa using (Bool.and_eq_true_iff.mp rival).1⟩
  have found_cases : ∀ {other source' id' stage},
      (state.exchange thread source id code).threads other = .delivering source' id' stage →
      (other = thread ∧ source' = source ∧ id' = id ∧ stage = .exchanging code) ∨
        state.threads other = .delivering source' id' stage := by
    intro other source' id' stage found
    rcases threads_move found with ⟨isIt, same⟩ | ⟨-, before⟩
    · cases same
      exact .inl ⟨isIt, rfl, rfl, rfl⟩
    · exact .inr before
  refine ⟨?exchanges, ?contested, ?refused, ?callback, ?polled, ?pasted, ?single, guarded.code, guarded.begun,
    guarded.uncontested⟩
  case exchanges =>
    intro exchange listed
    rcases listed_cases listed with ⟨old, member, sameThread, sameId, sameCode, -⟩ | ⟨sameThread, sameId, sameCode, -⟩
    · obtain ⟨source', found⟩ := guarded.exchanges old member
      refine ⟨source', ?_⟩
      rw [sameThread, sameId, sameCode]
      exact (update_of_ne (apart old member) _ state.threads).trans found
    · refine ⟨source, ?_⟩
      rw [sameThread, sameId, sameCode]
      exact Function.update_self thread _ state.threads
  case contested =>
    intro exchange listed isContested
    rcases listed_cases listed with ⟨old, member, -, sameId, -, because⟩ | ⟨-, sameId, -, because⟩
    · rw [sameId]
      rcases because isContested with before | isIt
      · exact guarded.contested old member before
      · rcases brought with ⟨-, installed⟩ | ⟨-, alone, -⟩
        · exact isIt ▸ installed
        · exact absurd isIt (alone old member)
    · rw [sameId]
      obtain ⟨old, member, isIt⟩ := because isContested
      rcases brought with ⟨-, installed⟩ | ⟨-, alone, -⟩
      · exact installed
      · exact absurd isIt (alone old member)
  case refused =>
    intro other source' id' failure found
    rcases found_cases found with ⟨-, -, -, same⟩ | before
    · cases same
    · exact guarded.refused other source' id' failure before
  case callback =>
    intro other id' code' found
    rcases found_cases found with ⟨-, same, rfl, -⟩ | before
    · rcases brought with ⟨-, installed⟩ | ⟨isPasted, -⟩
      · exact installed
      · cases same.trans isPasted
    · exact guarded.callback other id' code' before
  case polled =>
    intro other id' code' found
    rcases found_cases found with ⟨-, same, -, -⟩ | before
    · rcases brought with ⟨isCallback, -⟩ | ⟨isPasted, -⟩
      · cases same.trans isCallback
      · cases same.trans isPasted
    · exact guarded.polled other id' code' before
  case pasted =>
    intro other id' stage found
    rcases found_cases found with ⟨-, same, rfl, -⟩ | before
    · rcases brought with ⟨isCallback, -⟩ | ⟨-, -, marked, -⟩
      · cases same.trans isCallback
      · exact marked
    · exact guarded.pasted other id' stage before
  case single =>
    intro one two id' stage stage' first second
    rcases found_cases first with ⟨isOne, same, isId, -⟩ | first <;>
      rcases found_cases second with ⟨isTwo, same', isId', -⟩ | second
    · exact isOne.trans isTwo.symm
    · rcases brought with ⟨isCallback, -⟩ | ⟨-, -, -, alone⟩
      · cases same.trans isCallback
      · exact absurd (isId ▸ second) (alone two stage')
    · rcases brought with ⟨isCallback, -⟩ | ⟨-, -, -, alone⟩
      · cases same'.trans isCallback
      · exact absurd (isId' ▸ first) (alone one stage)
    · exact guarded.single one two id' stage stage' first second

theorem Guarded.quiet
    (apart : ∀ source id code, state.threads thread ≠ .delivering source id (.exchanging code)) :
    ∀ exchange ∈ state.exchanges, exchange.thread ≠ thread := by
  rintro exchange listed rfl
  obtain ⟨source, found⟩ := guarded.exchanges exchange listed
  exact apart source exchange.id exchange.code found

theorem Guarded.rest {phase : Phase}
    (apart : ∀ source id code, state.threads thread ≠ .delivering source id (.exchanging code))
    (rests : ∀ source id stage, phase ≠ .delivering source id stage) : Guarded (state.move thread phase) :=
  guarded.move (guarded.quiet apart) (fun source id _ => rests source id _)
    (fun source id _ same => absurd same (rests source id _)) (fun id stage same => absurd same (rests .pasted id stage))

theorem Guarded.stage {source : Source} {before after : Stage}
    (at_thread : state.threads thread = .delivering source id before) (asks : ∀ code, before ≠ .exchanging code)
    (asked : ∀ code, after ≠ .exchanging code) (refused : ∀ failure, after ≠ .refused failure true) :
    Guarded (state.move thread (.delivering source id after)) := by
  refine guarded.move (guarded.quiet (fun other otherId code found => ?_)) (fun other otherId code same => ?_)
    (fun other otherId failure same => ?_) (fun otherId stage same => ?_)
  · rw [at_thread] at found
    cases found
    exact asks code rfl
  · cases same
    exact asked code rfl
  · cases same
    exact absurd rfl (refused failure)
  · cases same
    exact ⟨before, at_thread⟩

theorem Guarded.last {source : Source} {before : Stage}
    (at_thread : state.threads thread = .delivering source id before) (asks : ∀ code, before ≠ .exchanging code) :
    Guarded (state.move thread (source.last id)) := by
  have apart : ∀ other otherId code, state.threads thread ≠ .delivering other otherId (.exchanging code) := by
    intro other otherId code found
    rw [at_thread] at found
    cases found
    exact asks code rfl
  cases source with
  | pasted => exact guarded.stage at_thread asks (fun _ h => by cases h) (fun _ h => by cases h)
  | callback | polled => exact guarded.rest apart (fun _ _ _ h => by cases h)

theorem Guarded.beginBrowser (sound : Sound state) {config : OAuthConfig} {url : String} {secrets : SessionSecrets}
    (stepped : state.beginBrowser config service id url secrets failed = some next) : Guarded next := by
  obtain ⟨started, settles, room⟩ := canStart_spec sound service
  rcases found : state.canStart service with ⟨current, free⟩
  rw [found] at started settles
  simp only [State.beginBrowser, found] at stepped
  split at stepped
  case isFalse => cases stepped
  case isTrue unused =>
    have fresh := settles.unused unused
    split at stepped <;> obtain rfl := some.inj stepped
    case isTrue =>
      exact (guarded.settles settles).install fresh url secrets config.sessionTTL
        (fun session listed same => fresh _ (same ▸ started.begun session listed))
    case isFalse => exact guarded.settles settles

theorem Guarded.beginCode (sound : Sound state) {config : OAuthConfig} {url : String} {secrets : SessionSecrets}
    (stepped : state.beginCode config service id url secrets failed = some next) : Guarded next := by
  obtain ⟨started, settles, room⟩ := canStart_spec sound service
  rcases found : state.canStart service with ⟨current, free⟩
  rw [found] at settles
  simp only [State.beginCode, found] at stepped
  split at stepped
  case isFalse => cases stepped
  case isTrue unused =>
    split at stepped <;> obtain rfl := some.inj stepped
    · exact (guarded.settles settles).add (settles.unused unused) .code url none secrets config.sessionTTL
    · exact guarded.settles settles

theorem Guarded.requestDevice (sound : Sound state)
    (stepped : state.requestDevice thread service = some next) : Guarded next := by
  obtain ⟨started, settles, room⟩ := canStart_spec sound service
  rcases found : state.canStart service with ⟨current, free⟩
  rw [found] at settles
  simp only [State.requestDevice, found] at stepped
  split at stepped
  case h_2 => cases stepped
  case h_1 at_thread =>
    cases stepped
    refine (guarded.settles settles).rest (fun source id code => ?_) (fun source id stage => ?_)
    · rw [settles.threads, at_thread]
      exact fun h => by cases h
    · split <;> exact fun h => by cases h

theorem Guarded.beginDevice (sound : Sound state) {config : OAuthConfig} {poller : Nat}
    {device : AuthorizationDeviceCode} (stepped : state.beginDevice config thread poller id device failed = some next) :
    Guarded next := by
  unfold State.beginDevice at stepped
  split at stepped
  case h_2 => cases stepped
  case h_1 service at_thread at_poller =>
    obtain ⟨started, settles, room⟩ := canStart_spec sound service
    rcases found : state.canStart service with ⟨current, free⟩
    rw [found] at settles
    simp only [found] at stepped
    have apart : ∀ source other code, current.threads thread ≠ .delivering source other (.exchanging code) := by
      intro source other code
      rw [settles.threads, at_thread]
      exact fun h => by cases h
    split at stepped
    case isFalse => cases stepped
    case isTrue unused =>
      split at stepped <;> obtain rfl := some.inj stepped
      case isTrue =>
        have added : Guarded (current.add .deviceCode service id "" (some device) ⟨"", "", ""⟩ config.deviceCodeTTL) :=
          (guarded.settles settles).add (settles.unused unused) _ _ _ _ _
        refine (added.rest apart (fun _ _ _ h => by cases h)).rest (fun source other code running => ?_)
          (fun _ _ _ h => by cases h)
        rcases threads_move running with ⟨-, same⟩ | ⟨-, before⟩
        · cases same
        · have at_start : current.threads poller = .delivering source other (.exchanging code) := before
          rw [settles.threads, at_poller] at at_start
          cases at_start
      case isFalse => exact (guarded.settles settles).rest apart (fun _ _ _ h => by cases h)

theorem Guarded.reindex (byService : String → Option String) :
    Guarded { state with byService } :=
  guarded.settles ⟨rfl, rfl, rfl, fun session listed => ⟨session, listed, rfl, rfl, rfl⟩, fun _ _ => .rfl,
    fun _ _ logged => logged⟩

theorem Guarded.get (sound : Sound state) (service : String) :
    Guarded (state.get service) := by
  have expired := guarded.settles (expirePending_spec sound).2
  unfold State.get
  dsimp only
  split
  · split
    · exact expired
    · exact expired.reindex _
  · exact expired

theorem Guarded.cancel (sound : Sound state) (service : String) :
    Guarded (state.cancel service) := by
  have expired := guarded.settles (expirePending_spec sound).2
  unfold State.cancel
  dsimp only
  split
  · split
    · exact expired.settles (settle_settles _ _ _ _)
    · exact expired.reindex _
  · exact expired

theorem Guarded.cancelTurn {existing : List String}
    (apart : ∀ source id code, state.threads thread ≠ .delivering source id (.exchanging code)) :
    Guarded (state.cancelTurn thread service existing) := by
  unfold State.cancelTurn
  split
  case h_2 => exact (guarded.rest apart (fun _ _ _ h => by cases h)).note (fun _ _ h => by cases h)
  case h_1 id found =>
    split
    case h_2 =>
      have forgets := guarded.reindex (update state.byService service none)
      exact (forgets.rest apart (fun _ _ _ h => by cases h)).note (fun _ _ h => by cases h)
    case h_1 session isFound =>
      split
      case h_1 => exact guarded.rest apart (fun _ _ _ h => by cases h)
      case h_2 =>
        have settled := guarded.settles (settle_settles state id .cancelled sessionCancelled)
        refine (settled.rest (fun source other code running => ?_) (fun _ _ _ h => by cases h)).note
          (fun _ _ h => by cases h)
        rw [settle_threads] at running
        exact apart source other code running

theorem Guarded.callbackStep {query : Query}
    (stepped : state.callback thread id query = some next) : Guarded next := by
  have failed : ∀ failure, state.threads thread = .idle →
      Guarded ((state.failSession id failure false).move thread .done) := by
    intro failure at_thread
    have settles := settle_settles state id .failed failure
    refine (guarded.settles settles).rest (fun source other code => ?_) (fun _ _ _ h => by cases h)
    rw [settles.threads, at_thread]
    exact fun h => by cases h
  unfold State.callback at stepped
  split at stepped
  case h_2 => cases stepped
  case h_1 secrets installed at_thread =>
    split at stepped
    case isTrue =>
      cases stepped
      exact failed providerError at_thread
    case isFalse =>
      split at stepped <;> obtain rfl := some.inj stepped
      · exact failed stateMismatch at_thread
      · exact guarded.exchange at_thread query.code (.inl ⟨rfl, installed ▸ rfl⟩)

theorem Guarded.completeCode (sound : Sound state) {code : String}
    (stepped : state.completeCode thread service id code = some next) : Guarded next := by
  unfold State.completeCode at stepped
  split at stepped
  case h_2 => cases stepped
  case h_1 at_thread =>
    obtain ⟨expired, settles⟩ := expirePending_spec sound
    have guarded := guarded.settles settles
    have idle : state.expirePending.threads thread = .idle := settles.threads ▸ at_thread
    have refused : Guarded (state.expirePending.move thread .done) :=
      guarded.rest (fun _ _ _ => by rw [idle]; exact fun h => by cases h) (fun _ _ _ h => by cases h)
    dsimp only at stepped
    split at stepped
    case h_2 =>
      cases stepped
      exact refused
    case h_1 session found =>
      split at stepped
      case h_2 =>
        cases stepped
        exact refused
      case h_1 secrets present =>
        split at stepped <;> obtain rfl := some.inj stepped
        case isFalse => exact refused
        case isTrue may =>
          obtain ⟨-, -, -, -, unmarked, isCode, -⟩ := may
          obtain ⟨listed, rfl⟩ := lookup_some found
          have bare := guarded.code session listed isCode
          have alone : ∀ other stage, state.expirePending.threads other ≠ .delivering .pasted session.document.id stage := by
            intro other stage running
            rw [(guarded.pasted other _ stage running).2.2 session listed rfl] at unmarked
            cases unmarked
          refine (guarded.mark _ true (.inl rfl)).exchange idle (trimSpace code) (.inr ⟨rfl, ?_, ⟨⟨_, expired.begun session listed⟩, bare, ?_⟩, alone⟩)
          · intro exchange member same
            obtain ⟨source, running⟩ := guarded.exchanges exchange member
            cases source with
            | callback =>
              have installed := guarded.callback _ _ _ running
              rw [same, bare] at installed
              cases installed
            | pasted => exact alone exchange.thread _ (same ▸ running)
            | polled => exact guarded.polled _ _ _ running
          · intro changed listedNow same
            obtain ⟨old, member, rfl⟩ := mem_modify.mp listedNow
            by_cases isIt : old.document.id = session.document.id
            · rw [if_pos isIt]
            · rw [if_neg isIt] at same
              exact absurd same isIt

theorem Guarded.answer {answer : Answer} (stepped : state.answer thread answer = some next) :
    Guarded next := by
  unfold State.answer at stepped
  split at stepped
  case h_2 => cases stepped
  case h_1 source id code at_thread =>
    have ended : Guarded { state with
        exchanges := state.exchanges.filter (·.thread ≠ thread) } :=
      ⟨fun exchange listed => guarded.exchanges exchange (mem_filter.mp listed).1,
        fun exchange listed => guarded.contested exchange (mem_filter.mp listed).1, guarded.refused, guarded.callback,
        guarded.polled, guarded.pasted, guarded.single, guarded.code, guarded.begun, guarded.uncontested⟩
    have quiet : ∀ exchange ∈ state.exchanges.filter (·.thread ≠ thread), exchange.thread ≠ thread :=
      fun exchange listed => by simpa using (mem_filter.mp listed).2
    have goes : ∀ stage, (∀ code, stage ≠ .exchanging code) →
        (∀ failure, stage = .refused failure true → source = .callback) →
        Guarded ({ state with exchanges := state.exchanges.filter (·.thread ≠ thread) }.move thread
          (.delivering source id stage)) := by
      intro stage asked refused
      refine ended.move quiet (fun other otherId otherCode same => ?_) (fun other otherId failure same => ?_)
        (fun otherId otherStage same => ?_)
      · cases same
        exact asked otherCode rfl
      · cases same
        exact refused failure rfl
      · cases same
        exact ⟨_, at_thread⟩
    dsimp only at stepped
    split at stepped
    case h_1 tokens =>
      split at stepped
      case isTrue => cases stepped
      case isFalse =>
        cases stepped
        have moved := goes (.exchanged tokens) (fun _ h => by cases h) (fun _ h => by cases h)
        exact ⟨moved.exchanges, moved.contested, moved.refused, moved.callback, moved.polled, moved.pasted, moved.single,
          moved.code, moved.begun, moved.uncontested⟩
    case h_2 =>
      cases stepped
      refine goes _ (fun _ h => by cases h) (fun failure same => ?_)
      have isContested : (state.exchanges.any fun exchange => exchange.thread == thread && exchange.contested) = true := by
        injection same
      obtain ⟨exchange, listed, both⟩ := any_eq_true.mp isContested
      obtain ⟨isIt, contested⟩ : exchange.thread = thread ∧ exchange.contested = true := by simpa using both
      obtain ⟨other, running⟩ := guarded.exchanges exchange listed
      rw [isIt, at_thread] at running
      cases running
      have installed := guarded.contested exchange listed contested
      cases source with
      | callback => rfl
      | pasted =>
        rw [(guarded.pasted thread _ _ at_thread).2.1] at installed
        cases installed
      | polled => exact absurd at_thread (guarded.polled thread _ _)

theorem Guarded.poll {config : OAuthConfig} {result : Poll}
    (stepped : state.poll config thread result = some next) : Guarded next := by
  unfold State.poll at stepped
  split at stepped
  case h_2 => cases stepped
  case h_1 id at_thread =>
    have quiet : ∀ exchange ∈ state.exchanges, exchange.thread ≠ thread := by
      refine guarded.quiet (fun source other code => ?_)
      rw [at_thread]
      exact fun h => by cases h
    split at stepped <;> obtain rfl := some.inj stepped
    · exact guarded
    · exact guarded.move quiet (fun _ _ _ h => by cases h) (fun _ _ _ h => by cases h) (fun _ _ h => by cases h)
    · exact guarded.move quiet (fun _ _ _ h => by cases h) (fun _ _ _ h => by cases h) (fun _ _ h => by cases h)

theorem Guarded.complete (sound : Sound state) (stepped : state.complete thread = some next) :
    Guarded next := by
  unfold State.complete at stepped
  split at stepped
  case h_2 => cases stepped
  case h_1 source id tokens at_thread =>
    have settles := (expirePending_spec sound).2
    have guarded := guarded.settles settles
    have at_expired : state.expirePending.threads thread = .delivering source id (.exchanged tokens) :=
      settles.threads ▸ at_thread
    dsimp only at stepped
    split at stepped <;> obtain rfl := some.inj stepped
    case isTrue =>
      have claimed : Guarded (state.expirePending.modify id fun session =>
          { session with completing := true, completionDone := some thread }) := guarded.modify (fun _ => ⟨rfl, rfl, rfl⟩)
      exact (claimed.stage at_expired (fun _ h => by cases h) (fun _ h => by cases h) (fun _ h => by cases h)).note
        (fun _ _ h => by cases h)
    case isFalse =>
      exact guarded.stage at_expired (fun _ h => by cases h) (fun _ h => by cases h) (fun _ h => by cases h)

theorem Guarded.onComplete {succeeds : Bool}
    (stepped : state.onComplete thread succeeds = some next) : Guarded next := by
  unfold State.onComplete at stepped
  split at stepped
  case h_2 => cases stepped
  case h_1 source id tokens at_thread =>
    cases stepped
    have hooked : Guarded (state.move thread (.delivering source id (.hooked succeeds))) :=
      guarded.stage at_thread (fun _ h => by cases h) (fun _ h => by cases h) (fun _ h => by cases h)
    split
    · exact hooked.note (fun _ _ h => by cases h)
    · exact hooked

theorem Guarded.finish (stepped : state.finish thread = some next) : Guarded next := by
  unfold State.finish at stepped
  split at stepped
  case h_2 => cases stepped
  case h_1 source id succeeded at_thread =>
    split at stepped <;> obtain rfl := some.inj stepped
    case isTrue =>
      have recorded : Guarded (state.modify id (·.finish state.now succeeded)) :=
        guarded.modify (fun session => by cases succeeded <;> exact ⟨rfl, rfl, rfl⟩)
      cases succeeded with
      | true => exact (recorded.last at_thread (fun _ h => by cases h)).note (fun _ _ h => by cases h)
      | false => exact recorded.stage at_thread (fun _ h => by cases h) (fun _ h => by cases h) (fun _ h => by cases h)
    case isFalse => exact guarded.stage at_thread (fun _ h => by cases h) (fun _ h => by cases h) (fun _ h => by cases h)

end

theorem settle_still {status : Status} {failure : SubscriptionError} {contested : Bool}
    (late : ((state.lookup id).all fun session => !session.isPending || session.completing) = true) :
    state.settle id status failure contested = state := by
  unfold State.settle
  split
  case h_2 => rfl
  case h_1 session found =>
    rw [found] at late
    have ended : ¬ (session.isPending && !session.completing) = true := by
      simpa [Bool.or_eq_true, Bool.not_eq_true, or_iff_not_imp_left] using late
    rw [if_neg ended]

theorem Guarded.fail (guarded : Guarded state) (late : orderly state (.fail thread) = true)
    (stepped : state.fail thread = some next) : Guarded next := by
  unfold State.fail at stepped
  split at stepped
  case h_3 => cases stepped
  case h_1 source id failure contested at_thread =>
    cases stepped
    cases contested with
    | false =>
      have settles := settle_settles state id .failed failure
      exact (guarded.settles settles).last (settles.threads ▸ at_thread) (fun _ h => by cases h)
    | true =>
      obtain rfl := guarded.refused thread source id failure at_thread
      have same : state.failSession id failure true = state := settle_still (by simpa [orderly, at_thread] using late)
      rw [same]
      exact guarded.last at_thread (fun _ h => by cases h)
  case h_2 source id at_thread =>
    cases stepped
    have settles := settle_settles state id .failed storeUnavailable
    exact (guarded.settles settles).last (settles.threads ▸ at_thread) (fun _ h => by cases h)

theorem Guarded.release (guarded : Guarded state) (stepped : state.release thread = some next) : Guarded next := by
  unfold State.release at stepped
  split at stepped
  case h_2 => cases stepped
  case h_1 id at_thread =>
    cases stepped
    have rested : Guarded (state.move thread .done) :=
      guarded.rest (fun _ _ _ => by rw [at_thread]; exact fun h => by cases h) (fun _ _ _ h => by cases h)
    refine rested.mark id false (.inr (fun other stage running => ?_))
    rcases threads_move running with ⟨-, same⟩ | ⟨apart, before⟩
    · cases same
    · exact apart (guarded.single other thread id _ _ before at_thread)

theorem Guarded.step {config : OAuthConfig} {act : Act} (guarded : Guarded state) (sound : Sound state)
    (permitted : orderly state act = true) (stepped : step config state act = some next) : Guarded next := by
  cases act with
  | beginBrowser service id url secrets failed => exact guarded.beginBrowser sound stepped
  | beginCode service id url secrets failed => exact guarded.beginCode sound stepped
  | requestDevice thread service => exact guarded.requestDevice sound stepped
  | beginDevice thread poller id device failed => exact guarded.beginDevice sound stepped
  | get service =>
    cases stepped
    exact guarded.get sound service
  | cancel service =>
    cases stepped
    exact guarded.cancel sound service
  | cancelAll thread service =>
    simp only [AuthSessions.step, State.cancelAll] at stepped
    split at stepped
    case h_2 => cases stepped
    case h_1 at_thread =>
      cases stepped
      exact guarded.cancelTurn (fun _ _ _ => by rw [at_thread]; exact fun h => by cases h)
  | cancelAgain thread =>
    simp only [AuthSessions.step, State.cancelAgain] at stepped
    split at stepped
    case h_2 => cases stepped
    case h_1 service existing completion at_thread =>
      split at stepped
      · cases stepped
      · cases stepped
        exact guarded.cancelTurn (fun _ _ _ => by rw [at_thread]; exact fun h => by cases h)
  | callback thread id query => exact guarded.callbackStep stepped
  | callbackCancel id =>
    simp only [AuthSessions.step, State.callbackCancel] at stepped
    split at stepped
    case h_2 => cases stepped
    case h_1 =>
      cases stepped
      exact guarded.settles (settle_settles state id .cancelled sessionCancelled)
  | completeCode thread service id code => exact guarded.completeCode sound stepped
  | answer thread answer => exact guarded.answer stepped
  | poll thread result => exact guarded.poll stepped
  | complete thread => exact guarded.complete sound stepped
  | onComplete thread succeeds => exact guarded.onComplete stepped
  | finish thread => exact guarded.finish stepped
  | fail thread => exact guarded.fail permitted stepped
  | release thread => exact guarded.release stepped
  | expire id =>
    cases stepped
    exact guarded.settles (settle_settles state id .expired sessionExpired)
  | tick =>
    cases stepped
    exact guarded.settles ⟨rfl, rfl, rfl, fun session listed => ⟨session, listed, rfl, rfl, rfl⟩, fun _ _ => .rfl,
      fun _ _ logged => logged⟩

theorem always_sound {config : OAuthConfig} (reached : Reaches (step config) (fun _ _ => True) start state) :
    Sound state :=
  reached.invariant Sound .start (fun _ _ _ sound _ stepped => sound.step stepped)

/-- In every run the limits hold and the log keeps to the rules; and no session is failed by one of two overlapping
    exchanges when every contested callback that is refused is refused late. -/
theorem sessions_kept (config : OAuthConfig) (state : State)
    (reached : Reaches (step config) (fun _ _ => True) start state) :
    Limits state ∧ Always Kept state.log ∧
      (Reaches (step config) (fun state act => orderly state act = true) start state → Uncontested state) := by
  have sound := always_sound reached
  refine ⟨sound.limits, sound.kept, fun orderly => ?_⟩
  have both : Sound state ∧ Guarded state := by
    refine orderly.invariant (fun state => Sound state ∧ Guarded state) ⟨.start, .start⟩ ?_
    rintro before act after ⟨sound, guarded⟩ permitted stepped
    exact ⟨sound.step stepped, guarded.step sound permitted stepped⟩
  exact both.2.uncontested

def config : OAuthConfig := { sessionTTL := 600, deviceCodeTTL := 900, issuerName := "GitHub" }

def signIn : Act := .beginBrowser "service" "session" "https://example.org" ⟨"state", "verifier", "http://localhost"⟩ false

def delivers (thread : Nat) : Act := .callback thread "session" ⟨"", "state", "code"⟩

def tokens : AccountTokens :=
  { accessToken := "a", refreshToken := "r", tokenType := "Bearer", scope := "", accountID := "", projectID := "",
    planType := "", region := "", expiresAt := 0, rawIDTokenClaims := "" }

/-- Both callbacks are exchanged at once, and the refusal comes while the other completes. -/
def lateRefusal : List Act :=
  [signIn, delivers 0, delivers 1, .answer 0 (.tokens tokens), .complete 0, .answer 1 .failed, .fail 1, .onComplete 0 true,
    .finish 0, .cancelAll 2 "service"]

theorem sessions_kept_late : ∃ state : State,
    (runActs (step config) start lateRefusal).map (·.log) = some state.log ∧
      (Limits state ∧ Always Kept state.log ∧
        (Reaches (step config) (fun state act => orderly state act = true) start state → Uncontested state)) ∧
      Uncontested state ∧ .hookSucceeded "session" ∈ state.log := by
  have logged : (runActs (fun state act => if orderly state act then step config state act else none)
      start lateRefusal).map (·.log) =
      some [.began "session" "service", .hookStarted "session", .hookSucceeded "session",
        .ended "session" .completed false, .cancelledAll ["session"]] := by
    decide +kernel
  obtain ⟨state, ran, isLog⟩ := Option.map_eq_some_iff.mp logged
  have orderly := reaches_of_runActs .start ran
  have kept := sessions_kept config state (orderly.mono (fun _ _ _ => trivial))
  refine ⟨state, ?_, kept, kept.2.2 orderly, by simp [isLog]⟩
  rw [isLog]
  decide +kernel

/-- The second of two callbacks is refused before the first one completes the session. -/
def earlyRefusal : List Act :=
  [signIn, delivers 0, delivers 1, .answer 0 (.tokens tokens), .answer 1 .failed, .fail 1]

theorem second_callback_fails : ¬ ∀ (config : OAuthConfig) (state : State),
    Reaches (step config) (fun _ _ => True) start state → Limits state ∧ Always Kept state.log ∧ Uncontested state := by
  intro keeps
  have logged : (runActs (step config) start earlyRefusal).map (·.log) =
      some [.began "session" "service", .ended "session" .failed true] := by
    decide +kernel
  obtain ⟨state, ran, isLog⟩ := Option.map_eq_some_iff.mp logged
  obtain ⟨-, -, uncontested⟩ := keeps config state (Reaches.start.runActs (fun _ _ => trivial) ran)
  exact uncontested "session" .failed (by simp [isLog])

/-- A session is found under its id, and its id under its service; only the thread that completes a session runs its
    hook. -/
theorem sessions_indexed {config : OAuthConfig} {state : State} (reached : Reaches (step config) (fun _ _ => True) start state) :
    (∀ session ∈ state.sessions, state.lookup session.document.id = some session ∧
        state.byService session.document.serviceID = some session.document.id) ∧
      ∀ thread source id tokens, state.threads thread = .delivering source id (.hooking tokens) →
        ∃ session ∈ state.sessions, session.document.id = id ∧ session.isPending = true ∧
          session.completionDone = some thread := by
  have sound := always_sound reached
  refine ⟨fun session listed => ⟨?_, sound.indexed session listed⟩, fun thread source id tokens hooking => ?_⟩
  · cases found : state.lookup session.document.id with
    | none => exact absurd rfl (lookup_none found listed)
    | some other => rw [sound.unique (lookup_some found).1 listed (lookup_some found).2]
  · obtain ⟨session, listed, same, pending, -, waited⟩ := sound.completes thread source id _ hooking trivial
    exact ⟨session, listed, same, pending, waited⟩

theorem sessions_indexed_early : ∃ state, runActs (step config) start earlyRefusal = some state ∧
    ∀ session ∈ state.sessions, state.lookup session.document.id = some session := by
  obtain ⟨state, ran⟩ := Option.isSome_iff_exists.mp (show (runActs (step config) start earlyRefusal).isSome by decide +kernel)
  exact ⟨state, ran, fun session listed => ((sessions_indexed (Reaches.start.runActs (fun _ _ => trivial) ran)).1 session listed).1⟩

end AstrLink.AuthSessions
