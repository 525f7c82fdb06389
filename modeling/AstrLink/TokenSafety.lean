import AstrLink.TokenSource

/-!
When the token source keeps to what it promises: along every run whose steps are orderly (`orderly_kept`). Two
callers break it when one of them registers its refresh with tokens that the other replaced
(`stale_refresh_marks`).
-/
namespace AstrLink.TokenSource
open Runs List
open Function (update)

/-- The successor of the refresh token is stored, or was. -/
def Spent (log : List Event) (token : String) : Prop :=
  ∃ readAt current replaced, .stored readAt current replaced ∈ log ∧ current.refreshToken = token

def Event.Plain : Event → Prop
  | .stored _ _ _ => False
  | _ => True

variable {log : List Event} {token : String}

theorem spent_snoc_of_plain {last : Event} (plain : last.Plain) (spent : Spent (log ++ [last]) token) :
    Spent log token := by
  obtain ⟨readAt, current, replaced, logged, same⟩ := spent
  rcases mem_append.mp logged with earlier | isLast
  · exact ⟨readAt, current, replaced, earlier, same⟩
  · rw [← mem_singleton.mp isLast] at plain
    exact plain.elim

structure Unspent (provider : Provider) (log : List Event) (token : String) : Prop where
  issued : token ∈ provider.issued
  unspent : ¬ Spent log token

/-- What the caller of a registered refresh may rely on at each stage. -/
def Holds (state : State) (current : AccountTokens) : Stage → Prop
  | .asking => state.stored = some current
  | .refused => state.stored = some current ∧ current.refreshToken ∉ state.provider.live
  | .refreshed tokens | .persisting tokens =>
    state.stored = some current ∧ Unspent state.provider state.log tokens.refreshToken ∧ tokens.refreshToken ≠ "" ∧
      tokens.refreshToken ≠ current.refreshToken
  | .stored _ | .finishing _ => True

structure Flying (state : State) (flight : Flight) (stage : Stage) : Prop where
  inflight : state.inflight = some flight.call
  result : (state.calls flight.call).result = none
  quiesced : ∀ generation, .quiesced generation ∈ state.log → generation ≤ flight.readAt
  holds : Holds state flight.current stage

/-- What began a generation covers the refresh in flight: it is of the generation, or awaited. -/
def Covers (state : State) (generation : Nat) (call : Option Nat) : Prop :=
  generation ≤ state.lifecycle.generation ∧ ∀ other request flight stage,
    state.callers other = .refreshing request flight stage → generation ≤ flight.readAt ∨ call = some flight.call

structure Sound (state : State) : Prop where
  quiesced : ∀ generation, .quiesced generation ∈ state.log → generation ≤ state.lifecycle.generation
  activated : ∀ generation, .activated generation ∈ state.log → generation ≤ state.lifecycle.generation
  waits : ∀ caller generation call, state.callers caller = .quiescing generation call → Covers state generation call
  flies : ∀ caller request flight stage, state.callers caller = .refreshing request flight stage →
    Flying state flight stage
  single : ∀ one two request flight stage request' flight' stage', state.callers one = .refreshing request flight stage →
    state.callers two = .refreshing request' flight' stage' → one = two
  stored : ∀ tokens, state.stored = some tokens → Unspent state.provider state.log tokens.refreshToken
  spent : ∀ token, Spent state.log token → token ∈ state.provider.issued
  kept : Always Kept state.log

theorem Sound.start (stored : Option AccountTokens) (good : Bool) : Sound (start stored good) where
  quiesced := by simp [TokenSource.start]
  activated := by simp [TokenSource.start]
  waits := by simp [TokenSource.start]
  flies := by simp [TokenSource.start]
  single := by simp [TokenSource.start]
  stored := by
    rintro tokens rfl
    exact ⟨by simp [TokenSource.start], by simp [TokenSource.start, Spent]⟩
  spent := by simp [TokenSource.start, Spent]
  kept := always_nil Kept

variable {state : State} {caller : Nat}

theorem callers_move {someone : Nat} {phase found : Phase}
    (at_someone : (state.move caller phase).callers someone = found) :
    someone = caller ∧ phase = found ∨ state.callers someone = found := by
  by_cases same : someone = caller
  · subst same
    exact .inl ⟨rfl, by simpa [State.move] using at_someone⟩
  · exact .inr (by simpa [State.move, same] using at_someone)

variable {request : Request}
variable {stage : Stage}

theorem Sound.grounded (sound : Sound state) (none_inflight : state.inflight = none) {flight : Flight} :
    state.callers caller ≠ .refreshing request flight stage := by
  intro at_caller
  have inflight := (sound.flies _ _ _ _ at_caller).inflight
  rw [none_inflight] at inflight
  cases inflight

/-! ### What leaves the refresh in flight alone -/

theorem Sound.move (sound : Sound state) {phase : Phase}
    (calm : ∀ request flight stage, phase ≠ .refreshing request flight stage)
    (ends : ∀ generation call, phase = .quiescing generation call → Covers state generation call) :
    Sound (state.move caller phase) := by
  have flew : ∀ someone request flight stage,
      (state.move caller phase).callers someone = .refreshing request flight stage →
        state.callers someone = .refreshing request flight stage := by
    intro someone request flight stage found
    rcases callers_move found with ⟨-, same⟩ | before
    · exact absurd same (calm request flight stage)
    · exact before
  refine ⟨sound.quiesced, sound.activated, ?waits, ?flies, ?single, sound.stored, sound.spent, sound.kept⟩
  case waits =>
    intro someone generation call found
    have covers : Covers state generation call := by
      rcases callers_move found with ⟨-, same⟩ | before
      · exact ends generation call same
      · exact sound.waits someone generation call before
    exact ⟨covers.1, fun other request flight stage flying => covers.2 other request flight stage (flew _ _ _ _ flying)⟩
  case flies =>
    intro someone request flight stage found
    obtain ⟨inflight, result, quiesced, holds⟩ := sound.flies _ _ _ _ (flew _ _ _ _ found)
    exact ⟨inflight, result, quiesced, by cases stage <;> exact holds⟩
  case single =>
    intro one two request flight stage request' flight' stage' first second
    exact sound.single _ _ _ _ _ _ _ _ (flew _ _ _ _ first) (flew _ _ _ _ second)

theorem Sound.calm (sound : Sound state) (caller : Nat) {phase : Phase}
    (calm : ∀ request flight stage, phase ≠ .refreshing request flight stage)
    (free : ∀ generation call, phase ≠ .quiescing generation call) : Sound (state.move caller phase) :=
  sound.move calm (fun generation call same => absurd same (free generation call))

theorem Sound.idle (sound : Sound state) (caller : Nat) : Sound (state.move caller .idle) :=
  sound.calm caller (fun _ _ _ h => by cases h) (fun _ _ h => by cases h)

variable {provider : Provider}
variable {event : Event}

theorem Unspent.note (unspent : Unspent provider log token) (plain : event.Plain) :
    Unspent provider (log ++ [event]) token :=
  ⟨unspent.issued, fun spent => unspent.unspent (spent_snoc_of_plain plain spent)⟩

variable {current : AccountTokens}

theorem Holds.note (holds : Holds state current stage) (plain : event.Plain) :
    Holds (state.note event) current stage := by
  cases stage with
  | refreshed | persisting => exact ⟨holds.1, holds.2.1.note plain, holds.2.2⟩
  | asking | refused | stored | finishing => exact holds

theorem Sound.note (sound : Sound state) (plain : event.Plain)
    (ends : ∀ generation, event = .quiesced generation → Covers state generation none)
    (begins : ∀ generation, event = .activated generation → generation ≤ state.lifecycle.generation)
    (kept : Kept state.log event) : Sound (state.note event) := by
  refine ⟨?quiesced, ?activated, sound.waits, ?flies, sound.single, ?stored, ?spent, always_snoc.mpr ⟨sound.kept, kept⟩⟩
  case quiesced =>
    intro generation logged
    rcases mem_append.mp logged with earlier | last
    · exact sound.quiesced generation earlier
    · exact (ends generation (mem_singleton.mp last).symm).1
  case activated =>
    intro generation logged
    rcases mem_append.mp logged with earlier | last
    · exact sound.activated generation earlier
    · exact begins generation (mem_singleton.mp last).symm
  case flies =>
    intro caller request flight stage found
    have flying := sound.flies _ _ _ _ found
    refine ⟨flying.inflight, flying.result, fun generation logged => ?_, flying.holds.note plain⟩
    rcases mem_append.mp logged with earlier | last
    · exact flying.quiesced generation earlier
    · exact ((ends generation (mem_singleton.mp last).symm).2 _ _ _ _ found).resolve_right (fun h => by cases h)
  case stored => exact fun tokens stored => (sound.stored tokens stored).note plain
  case spent => exact fun token spent => sound.spent token (spent_snoc_of_plain plain spent)

variable {readAt : Nat}

theorem Sound.reply (sound : Sound (state.move caller .idle)) (request : Request)
    {result : Except Failure AccountTokens}
    (recent : ∀ tokens, request = .accessToken → result = .ok tokens → ∀ generation, .quiesced generation ∈ state.log → generation ≤ readAt) :

    Sound (state.reply caller request readAt result) := by
  unfold State.reply
  split
  · exact sound.note trivial (fun _ h => by cases h) (fun _ h => by cases h) (recent _ rfl rfl)
  · exact sound

theorem Sound.later (sound : Sound state) {lifecycle : TokenLifecycle}
    (later : state.lifecycle.generation ≤ lifecycle.generation) : Sound { state with lifecycle } where
  quiesced generation logged := Nat.le_trans (sound.quiesced generation logged) later
  activated generation logged := Nat.le_trans (sound.activated generation logged) later
  waits caller generation call found :=
    ⟨Nat.le_trans (sound.waits caller generation call found).1 later, (sound.waits caller generation call found).2⟩
  flies caller request flight stage found := by
    obtain ⟨inflight, result, quiesced, holds⟩ := sound.flies caller request flight stage found
    exact ⟨inflight, result, quiesced, by cases stage <;> exact holds⟩
  single := sound.single
  stored := sound.stored
  spent := sound.spent
  kept := sound.kept

theorem Sound.landed (sound : Sound state)
    (grounded : ∀ caller request flight stage, state.callers caller ≠ .refreshing request flight stage)
    (inflight : Option Nat) (calls : Nat → RefreshCall) {stored : Option AccountTokens}
    (unspent : ∀ tokens, stored = some tokens → Unspent provider state.log tokens.refreshToken)
    (grows : ∀ token ∈ state.provider.issued, token ∈ provider.issued) :
    Sound { state with inflight, calls, stored, provider } where
  quiesced := sound.quiesced
  activated := sound.activated
  waits := sound.waits
  flies caller request flight stage found := absurd found (grounded caller request flight stage)
  single := sound.single
  stored := unspent
  spent token spent := grows token (sound.spent token spent)
  kept := sound.kept

/-! ### The refresh in flight -/

variable {next : State}

theorem Sound.advance (sound : Sound state) {flight : Flight} {stage' : Stage}
    (at_caller : state.callers caller = .refreshing request flight stage)
    (callers : next.callers = update state.callers caller (.refreshing request flight stage'))
    (inflight : next.inflight = state.inflight) (calls : next.calls = state.calls)
    (generation : state.lifecycle.generation ≤ next.lifecycle.generation)
    (quiesced : ∀ generation, .quiesced generation ∈ next.log → .quiesced generation ∈ state.log)
    (activated : ∀ generation, .activated generation ∈ next.log → .activated generation ∈ state.log)
    (holds : Holds next flight.current stage')
    (stored : ∀ tokens, next.stored = some tokens → Unspent next.provider next.log tokens.refreshToken)
    (spent : ∀ token, Spent next.log token → token ∈ next.provider.issued) (kept : Always Kept next.log) :
    Sound next := by
  have flew : ∀ someone request' flight' stage'', next.callers someone = .refreshing request' flight' stage'' →
      someone = caller ∧ flight' = flight ∧ stage'' = stage' := by
    intro someone request' flight' stage'' found
    rw [callers] at found
    by_cases same : someone = caller
    · subst same
      rw [Function.update_self] at found
      cases found
      exact ⟨rfl, rfl, rfl⟩
    · rw [Function.update_of_ne same] at found
      exact absurd (sound.single _ _ _ _ _ _ _ _ found at_caller) same
  have flying := sound.flies _ _ _ _ at_caller
  refine ⟨?quiesced, ?activated, ?waits, ?flies, ?single, stored, spent, kept⟩
  case quiesced => exact fun began logged => Nat.le_trans (sound.quiesced began (quiesced began logged)) generation
  case activated => exact fun began logged => Nat.le_trans (sound.activated began (activated began logged)) generation
  case waits =>
    intro someone began call found
    have before : state.callers someone = .quiescing began call := by
      rw [callers] at found
      by_cases same : someone = caller
      · subst same
        rw [Function.update_self] at found
        cases found
      · rwa [Function.update_of_ne same] at found
    obtain ⟨begun, covers⟩ := sound.waits someone began call before
    refine ⟨Nat.le_trans begun generation, fun other request' flight' stage'' found => ?_⟩
    obtain ⟨rfl, rfl, rfl⟩ := flew _ _ _ _ found
    exact covers _ _ _ _ at_caller
  case flies =>
    intro someone request' flight' stage'' found
    obtain ⟨rfl, rfl, rfl⟩ := flew _ _ _ _ found
    exact ⟨inflight ▸ flying.inflight, calls ▸ flying.result,
      fun began logged => flying.quiesced began (quiesced began logged), holds⟩
  case single =>
    intro one two _ _ _ _ _ _ first second
    rw [(flew _ _ _ _ first).1, (flew _ _ _ _ second).1]

theorem Sound.register (sound : Sound state) (request : Request) (grounded : state.inflight = none)
    (stored : state.stored = some current) (recent : readAt = state.lifecycle.generation) :
    Sound
      { state.move caller (.refreshing request ⟨state.nextCall, current, readAt⟩ .asking) with
        inflight := some state.nextCall
        calls := update state.calls state.nextCall ⟨state.lifecycle.generation, none⟩
        nextCall := state.nextCall + 1 } := by
  subst recent
  have flew : ∀ someone request' flight' stage', (state.move caller (.refreshing request
      ⟨state.nextCall, current, state.lifecycle.generation⟩ .asking)).callers someone = .refreshing request' flight' stage' →
      someone = caller ∧ flight' = ⟨state.nextCall, current, state.lifecycle.generation⟩ ∧ stage' = .asking := by
    intro someone request' flight' stage' found
    rcases callers_move found with ⟨rfl, same⟩ | before
    · cases same
      exact ⟨rfl, rfl, rfl⟩
    · exact absurd before (sound.grounded grounded)
  refine ⟨sound.quiesced, sound.activated, ?waits, ?flies, ?single, sound.stored, sound.spent, sound.kept⟩
  case waits =>
    intro someone began call found
    rcases callers_move found with ⟨-, same⟩ | before
    · cases same
    · obtain ⟨begun, -⟩ := sound.waits someone began call before
      refine ⟨begun, fun other request' flight' stage' found => .inl ?_⟩
      obtain ⟨-, rfl, -⟩ := flew _ _ _ _ found
      exact begun
  case flies =>
    intro someone request' flight' stage' found
    obtain ⟨-, rfl, rfl⟩ := flew _ _ _ _ found
    exact ⟨rfl, by simp, sound.quiesced, stored⟩
  case single =>
    intro one two _ _ _ _ _ _ first second
    rw [(flew _ _ _ _ first).1, (flew _ _ _ _ second).1]

theorem not_spent_sent (sound : Sound state) (stored : state.stored = some current) :
    Kept state.log (.sent current.refreshToken) :=
  fun readAt other replaced logged same => (sound.stored current stored).unspent ⟨readAt, other, replaced, logged, same⟩

theorem answer_spec {next : Provider} {answer : Answer} (answered : provider.answer token answer = some next) :
    (∀ other ∈ provider.issued, other ∈ next.issued) ∧
      match answer with
      | .rotated tokens => token ∈ provider.issued ∧ tokens.refreshToken ∈ next.issued ∧
          tokens.refreshToken ∉ provider.issued ∧ tokens.refreshToken ≠ ""
      | .invalidGrant => token ∉ next.live
      | .failed _ => True := by
  cases answer with
  | rotated tokens =>
    simp only [Provider.answer] at answered
    split at answered
    case isTrue accepted =>
      cases answered
      obtain ⟨live, new, filled⟩ := accepted
      exact ⟨fun other issued => mem_cons_of_mem _ issued, provider.covered token live, mem_cons_self, new, filled⟩
    case isFalse => cases answered
  | invalidGrant =>
    simp only [Provider.answer] at answered
    split at answered
    case isTrue => cases answered
    case isFalse dead =>
      cases answered
      exact ⟨fun other issued => issued, dead⟩
  | failed rotated =>
    refine ⟨?_, trivial⟩
    cases rotated with
    | none =>
      cases answered
      exact fun other issued => issued
    | some token' =>
      simp only [Provider.answer] at answered
      split at answered
      case isTrue =>
        cases answered
        exact fun other issued => mem_cons_of_mem _ issued
      case isFalse => cases answered

theorem Sound.refreshAccount (sound : Sound state) {answer : Answer}
    (stepped : state.refreshAccount caller answer = some next) : Sound next := by
  unfold State.refreshAccount at stepped
  split at stepped
  case h_2 => cases stepped
  case h_1 request flight at_caller =>
    obtain ⟨provider, answered, rfl⟩ := Option.map_eq_some_iff.mp stepped
    obtain ⟨grows, spec⟩ := answer_spec answered
    have stored : state.stored = some flight.current := (sound.flies _ _ _ _ at_caller).holds
    have plain : (Event.sent flight.current.refreshToken).Plain := trivial
    have keeps : ∀ {token}, Unspent state.provider state.log token →
        Unspent provider (state.log ++ [.sent flight.current.refreshToken]) token :=
      fun unspent => ⟨grows _ unspent.issued, (unspent.note plain).unspent⟩
    have fresh := not_spent_sent sound stored
    refine sound.advance at_caller rfl rfl rfl (Nat.le_refl _) (fun _ logged => ?quiesced) (fun _ logged => ?activated)
      ?holds (fun tokens stored => keeps (sound.stored tokens stored)) ?spent (always_snoc.mpr ⟨sound.kept, fresh⟩)
    case quiesced => simpa [State.note, State.move] using logged
    case activated => simpa [State.note, State.move] using logged
    case holds =>
      cases answer with
      | rotated tokens =>
        obtain ⟨issued, given, new, filled⟩ := spec
        refine ⟨stored, ⟨given, fun spent => ?_⟩, filled, fun same => new (same ▸ issued)⟩
        exact new (sound.spent _ (spent_snoc_of_plain plain spent))
      | invalidGrant => exact ⟨stored, spec⟩
      | failed rotated => trivial
    case spent => exact fun token spent => grows token (sound.spent token (spent_snoc_of_plain plain spent))

theorem Sound.markInvalidated (sound : Sound state) (same : state.sameGeneration caller = true)
    (stepped : state.markInvalidated caller = some next) : Sound next := by
  unfold State.markInvalidated at stepped
  split at stepped
  case h_2 => cases stepped
  case h_1 request flight at_caller =>
    cases stepped
    obtain ⟨stored, dead⟩ := (sound.flies _ _ _ _ at_caller).holds
    have plain : (Event.marked flight.readAt (!state.lifecycle.invalidated) state.good).Plain := trivial
    have kept : Kept state.log (.marked flight.readAt (!state.lifecycle.invalidated) state.good) := by
      constructor
      · simpa [State.good, stored] using dead
      · intro active generation logged
        have present : state.lifecycle.generation = flight.readAt := by
          simpa [State.sameGeneration, at_caller, show state.lifecycle.invalidated = false by simpa using active] using same
        exact present ▸ sound.activated generation logged
    refine sound.advance at_caller rfl rfl rfl (Nat.le_succ _) (fun _ logged => ?quiesced) (fun _ logged => ?activated)
      trivial (fun tokens stored => (sound.stored tokens stored).note plain)
      (fun token spent => sound.spent token (spent_snoc_of_plain plain spent)) (always_snoc.mpr ⟨sound.kept, kept⟩)
    case quiesced => simpa [State.note, State.move] using logged
    case activated => simpa [State.note, State.move] using logged

theorem Sound.refreshCanPersist (sound : Sound state) (stepped : state.refreshCanPersist caller = some next) :
    Sound next := by
  unfold State.refreshCanPersist at stepped
  split at stepped
  case h_2 => cases stepped
  case h_1 request flight tokens at_caller =>
    cases stepped
    obtain ⟨stored, unspent, filled, new⟩ := (sound.flies _ _ _ _ at_caller).holds
    refine sound.advance at_caller rfl rfl rfl (Nat.le_refl _) (fun _ => id) (fun _ => id) ?_ sound.stored sound.spent
      sound.kept
    by_cases persists : state.canPersist flight.call = true
    · rw [if_pos persists]
      have same : (tokens.carried flight.current).refreshToken = tokens.refreshToken := if_neg filled
      exact ⟨stored, same ▸ unspent, same ▸ filled, same ▸ new⟩
    · rw [if_neg persists]
      trivial

theorem spent_stored {replaced : Option AccountTokens}
    (spent : Spent (log ++ [.stored readAt current replaced]) token) :
    Spent log token ∨ token = current.refreshToken := by
  obtain ⟨readAt', other, replaced', logged, rfl⟩ := spent
  rcases mem_append.mp logged with earlier | last
  · exact .inl ⟨readAt', other, replaced', earlier, rfl⟩
  · cases mem_singleton.mp last
    exact .inr rfl

variable {failed : Bool}

section
variable (sound : Sound state)
include sound

theorem Sound.put (stepped : state.put caller failed = some next) : Sound next := by
  unfold State.put at stepped
  split at stepped
  case h_2 => cases stepped
  case h_1 request flight tokens at_caller =>
    cases stepped
    have flying := sound.flies _ _ _ _ at_caller
    obtain ⟨stored, unspent, filled, new⟩ := flying.holds
    cases failed with
    | true =>
      exact sound.advance at_caller rfl rfl rfl (Nat.le_refl _) (fun _ => id) (fun _ => id) trivial sound.stored sound.spent
        sound.kept
    | false =>
      have kept : Kept state.log (.stored flight.readAt flight.current state.stored) := ⟨stored, flying.quiesced⟩
      refine sound.advance at_caller rfl rfl rfl (Nat.le_refl _) (fun _ logged => ?quiesced) (fun _ logged => ?activated)
        trivial ?stored ?spent (always_snoc.mpr ⟨sound.kept, kept⟩)
      case quiesced => simpa [State.note, State.move] using logged
      case activated => simpa [State.note, State.move] using logged
      case stored =>
        intro other isStored
        cases isStored
        refine ⟨unspent.issued, fun spent => ?_⟩
        rcases spent_stored spent with earlier | same
        · exact unspent.unspent earlier
        · exact new same
      case spent =>
        intro token spent
        rcases spent_stored spent with earlier | rfl
        · exact sound.spent token earlier
        · exact (sound.stored flight.current stored).issued

theorem Sound.onRotated (stepped : state.onRotated caller failed = some next) : Sound next := by
  unfold State.onRotated at stepped
  split at stepped
  case h_2 => cases stepped
  case h_1 request flight tokens at_caller =>
    cases stepped
    exact sound.advance at_caller rfl rfl rfl (Nat.le_refl _) (fun _ => id) (fun _ => id) trivial sound.stored sound.spent
      sound.kept

theorem Sound.finishRefresh (stepped : state.finishRefresh caller = some next) : Sound next := by
  unfold State.finishRefresh at stepped
  split at stepped
  case h_2 => cases stepped
  case h_1 request flight result at_caller =>
    cases stepped
    have flying := sound.flies _ _ _ _ at_caller
    have grounded : ∀ someone request' flight' stage',
        (state.move caller .idle).callers someone ≠ .refreshing request' flight' stage' := by
      intro someone request' flight' stage' found
      rcases callers_move found with ⟨-, same⟩ | before
      · cases same
      · obtain rfl := sound.single _ _ _ _ _ _ _ _ before at_caller
        simp [State.move] at found
    have landed := (sound.idle caller).landed grounded
      (if state.inflight = some flight.call then none else state.inflight)
      (update state.calls flight.call
        { state.calls flight.call with result := some (state.finalResult flight.call result) })
      sound.stored (fun _ => id)
    exact Sound.reply landed request (fun _ _ _ => flying.quiesced)

theorem Sound.invalidate (stepped : state.invalidate caller = some next) : Sound next := by
  unfold State.invalidate at stepped
  split at stepped
  case h_2 => cases stepped
  case h_1 at_caller =>
    cases stepped
    have later : Sound { state with lifecycle := state.lifecycle.retire } := sound.later (Nat.le_succ _)
    refine later.move (fun _ _ _ h => by cases h) (fun generation call same => ?_)
    cases same
    exact ⟨Nat.le_refl _, fun other request flight stage found => .inr (sound.flies _ _ _ _ found).inflight⟩

theorem Sound.quiesce (stepped : state.quiesce caller = some next) : Sound next := by
  unfold State.quiesce at stepped
  split at stepped
  case h_2 => cases stepped
  case h_1 ended call at_caller =>
    split at stepped
    case isFalse => cases stepped
    case isTrue done =>
      cases stepped
      obtain ⟨begun, covers⟩ := sound.waits _ _ _ at_caller
      refine (sound.idle caller).note trivial (fun generation same => ?_) (fun _ h => by cases h) trivial
      cases same
      refine ⟨begun, fun other request flight stage found => .inl ?_⟩
      have found : state.callers other = .refreshing request flight stage := by
        rcases callers_move found with ⟨-, same⟩ | before
        · cases same
        · exact before
      rcases covers _ _ _ _ found with recent | rfl
      · exact recent
      · rw [Option.all_some, (sound.flies _ _ _ _ found).result] at done
        cases done

theorem Sound.activate : Sound state.activate := by
  have later : Sound { state with lifecycle := ⟨state.lifecycle.generation + 1, false⟩ } := sound.later (Nat.le_succ _)
  exact later.note trivial (fun _ h => by cases h) (fun generation same => by cases same; exact Nat.le_refl _) trivial

theorem Sound.authorize (quiet : state.inflight = none) {tokens : AccountTokens}
    (stepped : state.authorize tokens = some next) : Sound next := by
  unfold State.authorize at stepped
  split at stepped
  case isTrue => cases stepped
  case isFalse new =>
    cases stepped
    refine sound.landed (fun _ _ _ _ => sound.grounded quiet) state.inflight state.calls (fun other same => ?_)
      (fun token issued => mem_cons_of_mem _ issued)
    cases same
    exact ⟨mem_cons_self, fun spent => new (sound.spent _ spent)⟩

theorem Sound.begin (stepped : state.begin caller request = some next) : Sound next := by
  unfold State.begin at stepped
  split at stepped
  case h_2 => cases stepped
  case h_1 at_caller =>
    cases stepped
    split
    · exact sound
    · exact sound.calm caller (fun _ _ _ h => by cases h) (fun _ _ h => by cases h)

theorem Sound.get (stepped : state.get caller failed = some next) : Sound next := by
  unfold State.get at stepped
  split at stepped
  case h_2 => cases stepped
  case h_1 request at_caller =>
    split at stepped <;> obtain rfl := Option.some.inj stepped
    · exact sound.calm caller (fun _ _ _ h => by cases h) (fun _ _ h => by cases h)
    · exact sound.idle caller

theorem Sound.proceed {skew : Nat} (current : state.upToDate skew caller = true)
    (stepped : state.proceed skew caller = some next) : Sound next := by
  unfold State.proceed at stepped
  split at stepped
  case h_2 => cases stepped
  case h_1 request tokens readAt at_caller =>
    simp only [State.upToDate, at_caller] at current
    split at stepped <;> rename_i course <;> simp only [course] at current <;> obtain rfl := Option.some.inj stepped
    · refine Sound.reply (sound.idle caller) request (fun given _ isOk => ?_)
      by_cases invalidated : state.lifecycle.invalidated = true
      · rw [if_pos invalidated] at isOk
        cases isOk
      · have same : readAt = state.lifecycle.generation := by simpa [invalidated] using current
        exact same ▸ sound.quiesced
    · exact sound.idle caller
    · unfold State.refresh
      split
      case isTrue => exact sound.idle caller
      case isFalse active =>
        split
        case h_1 call inflight => exact sound.calm caller (fun _ _ _ h => by cases h) (fun _ _ h => by cases h)
        case h_2 grounded =>
          have same : readAt = state.lifecycle.generation ∧ state.stored = some tokens := by
            simpa [active, grounded] using current
          exact sound.register request grounded same.2 same.1

theorem Sound.wake (current : state.stillCurrent caller = true)
    (stepped : state.wake caller = some next) : Sound next := by
  unfold State.wake at stepped
  split at stepped
  case h_2 => cases stepped
  case h_1 request call at_caller =>
    obtain ⟨result, done, rfl⟩ := Option.map_eq_some_iff.mp stepped
    refine Sound.reply (sound.idle caller) request (fun tokens isAccess isOk => ?_)
    subst isAccess isOk
    have same : state.lifecycle.generation = (state.calls call).generation := by
      simpa [State.stillCurrent, at_caller, done] using current
    exact same ▸ sound.quiesced

theorem Sound.giveUp (stepped : state.giveUp caller = some next) : Sound next := by
  unfold State.giveUp at stepped
  split at stepped
  case h_2 => cases stepped
  case h_1 at_caller =>
    cases stepped
    exact sound.idle caller

end

theorem Sound.step {skew : Nat} {act : Act} (sound : Sound state) (permitted : orderly skew state act = true)
    (stepped : step skew state act = some next) : Sound next := by
  cases act with
  | begin caller request => exact sound.begin stepped
  | get caller failed => exact sound.get stepped
  | proceed caller => exact sound.proceed permitted stepped
  | wake caller => exact sound.wake permitted stepped
  | giveUp caller => exact sound.giveUp stepped
  | refreshAccount caller answer => exact sound.refreshAccount stepped
  | markInvalidated caller => exact sound.markInvalidated permitted stepped
  | refreshCanPersist caller => exact sound.refreshCanPersist stepped
  | put caller failed => exact sound.put stepped
  | onRotated caller failed => exact sound.onRotated stepped
  | finishRefresh caller => exact sound.finishRefresh stepped
  | invalidate caller => exact sound.invalidate stepped
  | quiesce caller => exact sound.quiesce stepped
  | activate =>
    cases stepped
    exact sound.activate
  | authorize tokens => exact sound.authorize (Option.isNone_iff_eq_none.mp permitted) stepped
  | delete =>
    cases stepped
    exact sound.landed (fun _ _ _ _ => sound.grounded (Option.isNone_iff_eq_none.mp permitted)) state.inflight state.calls
      (fun _ h => by cases h) (fun _ => id)
  | tick =>
    cases stepped
    refine ⟨sound.quiesced, sound.activated, sound.waits, fun caller request flight stage found => ?_, sound.single,
      sound.stored, sound.spent, sound.kept⟩
    obtain ⟨inflight, result, quiesced, holds⟩ := sound.flies caller request flight stage found
    exact ⟨inflight, result, quiesced, by cases stage <;> exact holds⟩

/-- Along a run of orderly steps the source keeps to what it promises. -/
theorem orderly_kept (skew : Nat) (stored : Option AccountTokens) (good : Bool) (state : State)
    (reached : Reaches (step skew) (fun state act => orderly skew state act = true) (start stored good) state) :
    Always Kept state.log := by
  have sound : Sound state :=
    reached.invariant Sound (Sound.start stored good) (fun _ _ _ holds permitted stepped => holds.step permitted stepped)
  exact sound.kept

/-- Tokens that need a refresh at any time. -/
def expired (accessToken refreshToken : String) : AccountTokens :=
  { accessToken, refreshToken, tokenType := "Bearer", scope := "", accountID := "", projectID := "", planType := "",
    region := "", expiresAt := 0, rawIDTokenClaims := "" }

def reads (caller : Nat) : List Act := [.begin caller .accessToken, .get caller false]

def rotates (caller : Nat) (tokens : AccountTokens) : List Act :=
  [.refreshAccount caller (.rotated tokens), .refreshCanPersist caller, .put caller false, .onRotated caller false]

/-- A refresh that another caller waits for, an `Invalidate`, and the next authorization. -/
def quiesced : List Act :=
  reads 0 ++ reads 1 ++ [.proceed 0, .proceed 1] ++ rotates 0 (expired "a1" "r1") ++
    [.finishRefresh 0, .wake 1, .invalidate 2, .quiesce 2, .authorize (expired "a2" "r2"), .activate] ++
    reads 0 ++ [.proceed 0] ++ rotates 0 (expired "a3" "r3") ++ [.finishRefresh 0]

theorem orderly_kept_quiesced : ∃ state : State,
    (runActs (step 0) (start (some (expired "a0" "r0")) true) quiesced).map (·.log) = some state.log ∧
      Always Kept state.log ∧ .returned 2 (expired "a3" "r3") ∈ state.log := by
  have logged : (runActs (fun state act => if orderly 0 state act then step 0 state act else none)
      (start (some (expired "a0" "r0")) true) quiesced).map (·.log) =
      some [.sent "r0", .stored 0 (expired "a0" "r0") (some (expired "a0" "r0")), .returned 0 (expired "a1" "r1"),
        .returned 0 (expired "a1" "r1"), .quiesced 1, .activated 2, .sent "r2",
        .stored 2 (expired "a2" "r2") (some (expired "a2" "r2")), .returned 2 (expired "a3" "r3")] := by
    decide +kernel
  obtain ⟨state, ran, isLog⟩ := Option.map_eq_some_iff.mp logged
  refine ⟨state, ?_, orderly_kept 0 _ true state (reaches_of_runActs .start ran), by simp [isLog]⟩
  rw [isLog]
  decide +kernel

/-- Both callers read the same tokens, and the second registers its refresh late. -/
def staleRefresh : List Act :=
  reads 0 ++ reads 1 ++ [.proceed 0] ++ rotates 0 (expired "a1" "r1") ++
    [.finishRefresh 0, .proceed 1, .refreshAccount 1 .invalidGrant, .markInvalidated 1]

/-- Two callers are enough to mark an account whose tokens are good. -/
theorem stale_refresh_marks : ¬ ∀ (skew : Nat) (stored : Option AccountTokens) (good : Bool) (state : State),
    Reaches (step skew) (fun _ _ => True) (start stored good) state → Always Kept state.log := by
  intro keeps
  have logged : (runActs (step 0) (start (some (expired "a0" "r0")) true) staleRefresh).map (·.log) =
      some ([.sent "r0", .stored 0 (expired "a0" "r0") (some (expired "a0" "r0")), .returned 0 (expired "a1" "r1"),
        .sent "r0"] ++ [.marked 0 true true]) := by
    decide +kernel
  obtain ⟨state, ran, isLog⟩ := Option.map_eq_some_iff.mp logged
  have kept := keeps 0 _ true state (Reaches.start.runActs (fun _ _ => trivial) ran)
  rw [isLog] at kept
  cases (always_snoc.mp kept).2.1

/-- A caller that waited is woken after the `Invalidate` returned, with the tokens of the older generation. -/
example : (runActs (step 0) (start (some (expired "a0" "r0")) true)
    (reads 0 ++ reads 1 ++ [.proceed 0, .proceed 1] ++ rotates 0 (expired "a1" "r1") ++
      [.finishRefresh 0, .invalidate 2, .quiesce 2, .wake 1])).map (fun state => state.log.drop 3) =
    some [.quiesced 1, .returned 0 (expired "a1" "r1")] := by
  decide +kernel

/-- A refresh with tokens that were read before an authorization marks the account that it activated. -/
example : (runActs (step 0) (start (some (expired "a0" "r0")) false)
    (reads 0 ++ [.invalidate 2, .quiesce 2, .authorize (expired "a2" "r2"), .activate, .proceed 0,
      .refreshAccount 0 .invalidGrant, .markInvalidated 0])).map (·.log) =
    some [.quiesced 1, .activated 2, .sent "r0", .marked 0 true true] := by
  decide +kernel

end AstrLink.TokenSource
