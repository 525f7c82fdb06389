import Mathlib.Logic.Relation
import AstrLink.Runs
import AstrLink.Turns

/-!
The law of turn indexes. A request that continues a record is in its turn or in the next one, and in the next
one exactly when its history moves on; it joins a session only through a record that stored the identity it
names.
-/
namespace AstrLink.Turns
open Runs List
open Option (map_eq_some_iff some.inj)

variable {index : Index} {other : Stored} {kind : Kind} {value : Text}

namespace Index

/-- Every record that the index knows is one of these. -/
def Holds (index : Index) (records : List Record) : Prop :=
  ∀ kind value, ∀ stored ∈ index.byKey kind value, stored.record ∈ records

theorem addKeys_mem {stored : Stored} (cursors : List Cursor) :
    ∀ {byKey : Kind → Text → List Stored}, other ∈ cursors.foldl (addKey stored) byKey kind value →
      other ∈ byKey kind value ∨ other = stored := by
  induction cursors with
  | nil => intro byKey member; exact .inl member
  | cons cursor cursors ih =>
    intro byKey member
    rcases ih member with added | same
    · unfold addKey at added
      split at added
      · rcases mem_append.mp added with before | last
        · exact .inl before
        · exact .inr (mem_singleton.mp last)
      · exact .inl added
    · exact .inr same

theorem dropKeys_mem {stored : Stored} (cursors : List Cursor) :
    ∀ {byKey : Kind → Text → List Stored}, other ∈ cursors.foldl (dropKey stored) byKey kind value →
      other ∈ byKey kind value := by
  induction cursors with
  | nil => intro byKey member; exact member
  | cons cursor cursors ih =>
    intro byKey member
    have left := ih member
    unfold dropKey at left
    split at left
    · exact (mem_filter.mp left).1
    · exact left

theorem evicts_mem (dropped : List Stored) :
    ∀ {byKey : Kind → Text → List Stored},
      other ∈ dropped.foldl (fun byKey stored => stored.record.cursors.foldl (dropKey stored) byKey) byKey kind value →
      other ∈ byKey kind value := by
  induction dropped with
  | nil => intro byKey member; exact member
  | cons stored dropped ih => intro byKey member; exact dropKeys_mem _ (ih member)

theorem put_holds {records : List Record} (holds : index.Holds records) (now : Int) (record : Record) :
    (index.put now record).Holds (records ++ [record]) := by
  intro kind value stored member
  rcases addKeys_mem _ (evicts_mem _ member) with before | rfl
  · exact mem_append_left _ (holds kind value stored before)
  · exact mem_append_right _ mem_cons_self

theorem newest_mem {best : Record × Text} (candidates : List (Record × Text)) :
    ∀ {held : Option (Record × Text)}, candidates.foldl newer held = some best → held = some best ∨ best ∈ candidates := by
  induction candidates with
  | nil => intro held found; exact .inl found
  | cons candidate candidates ih =>
    intro held found
    rcases ih found with kept | later
    · unfold newer at kept
      split at kept
      · exact .inr (some.inj kept ▸ mem_cons_self)
      · split at kept
        · exact .inr (some.inj kept ▸ mem_cons_self)
        · exact .inl kept
    · exact .inr (mem_cons_of_mem _ later)

theorem bestOf_stored {records : List Record} (holds : index.Holds records) {principal : Text} {values : List Text}
    {scope : Scope} {direction : Direction} {best : Record × Text}
    (found : bestOf index principal kind values scope direction = some best) :
    best.1 ∈ records ∧ best.2 ∈ values ∧ ⟨kind, direction, best.2⟩ ∈ best.1.cursors := by
  rcases newest_mem _ found with contra | member
  · cases contra
  · obtain ⟨value, listed, mapped⟩ := mem_flatMap.mp member
    obtain ⟨stored, filtered, rfl⟩ := mem_map.mp mapped
    obtain ⟨known, qualified⟩ := mem_filter.mp filtered
    refine ⟨holds kind value stored known, listed, ?_⟩
    unfold qualifies at qualified
    have carries := (Bool.and_eq_true_iff.mp qualified).2
    obtain ⟨cursor, present, same⟩ := any_eq_true.mp carries
    simp only [Bool.and_eq_true, decide_eq_true_eq] at same
    obtain ⟨⟨sameKind, sameDirection⟩, sameValue⟩ := same
    rw [← sameKind, ← sameDirection, ← sameValue]
    exact present

end Index

/-- A match is made from a record that stored its value. -/
structure Stems (found : Match) (record : Record) : Prop where
  session : found.sessionID = record.sessionID
  turn : found.turn = record.turn
  cursor : ∃ kind direction, found.kind = some kind ∧ ⟨kind, direction, found.value⟩ ∈ record.cursors

/-- Answers are made from these records, under what was asked for. -/
def Honest {Failure : Type} (answer : Lookup Failure) (records : List Record) : Prop :=
  ∀ kind values scope found, answer kind values scope = .ok (some found) →
    (∃ record ∈ records, Stems found record) ∧ found.kind = some kind ∧ found.value ∈ values

theorem lookupFor_honest {records : List Record} (holds : index.Holds records) (principal : Text) :
    Honest (index.lookupFor principal) records := by
  intro kind values scope found answered
  have looked : index.lookup principal kind values scope = some found := Except.ok.inj answered
  obtain ⟨best, foundBest, rfl⟩ := map_eq_some_iff.mp looked
  obtain ⟨direction, _, bestIs⟩ := exists_of_findSome?_eq_some foundBest
  obtain ⟨known, listed, carries⟩ := Index.bestOf_stored holds bestIs
  exact ⟨⟨best.1, known, rfl, rfl, kind, direction, rfl, carries⟩, rfl, listed⟩

section
variable {Failure : Type} {answer : Lookup Failure} {records : List Record} {summary : RequestSummary}

/-- A match from these records, by the identity that the request names when it names one. -/
structure Sought (records : List Record) (summary : RequestSummary) (found : Match) : Prop where
  stems : ∃ record ∈ records, Stems found record
  identity : explicitCursors summary ≠ [] →
    found.kind = some .explicit ∧ found.value ∈ (explicitCursors summary).take 1

theorem bind_ok {α β : Type} {first : Except Failure α} {next : α → Except Failure β} {result : β}
    (ran : first >>= next = .ok result) : ∃ value, first = .ok value ∧ next value = .ok result := by
  cases first with
  | error failure => cases ran
  | ok value => exact ⟨value, rfl, ran⟩

theorem tryLayer_sought (honest : Honest answer records) {layer : Layer}
    (listed : layer.kind = .explicit → layer.values = explicitCursors summary) {search next : Search}
    (before : ∀ found ∈ search.matched, Sought records summary found)
    (tried : tryLayer summary (some answer) search layer = .ok next) :
    ∀ found ∈ next.matched, Sought records summary found := by
  unfold tryLayer at tried
  split at tried
  · cases tried
    exact before
  · dsimp only at tried
    split at tried
    · cases tried
      exact before
    · rename_i tries
      obtain ⟨response, asked, tried⟩ := bind_ok tried
      cases response with
      | none =>
        cases tried
        exact before
      | some answered =>
        dsimp only at tried
        split at tried
        · cases tried
          exact before
        · cases tried
          obtain ⟨stems, sameKind, among⟩ := honest _ _ _ _ asked
          intro found isFound
          have same : { answered with kind := some (answered.kind.getD layer.kind) } = answered := by
            cases answered
            cases sameKind
            rfl
          rw [← some.inj isFound, same]
          refine ⟨stems, fun named => ?_⟩
          have explicit : layer.kind = .explicit := by
            by_contra other
            exact tries (.inr ⟨other, named⟩)
          rw [if_pos explicit, listed explicit] at among
          rw [explicit] at sameKind
          exact ⟨sameKind, among⟩

theorem search_sought (honest : Honest answer records) {layers : List Layer}
    (listed : ∀ layer ∈ layers, layer.kind = .explicit → layer.values = explicitCursors summary) :
    ∀ {search last : Search}, (∀ found ∈ search.matched, Sought records summary found) →
      layers.foldlM (tryLayer summary (some answer)) search = .ok last →
      ∀ found ∈ last.matched, Sought records summary found := by
  induction layers with
  | nil =>
    intro search last before ran
    cases ran
    exact before
  | cons layer layers ih =>
    intro search last before ran
    rw [foldlM_cons] at ran
    obtain ⟨next, tried, ran⟩ := bind_ok ran
    exact ih (fun other member => listed other (mem_cons_of_mem _ member))
      (tryLayer_sought honest (listed layer mem_cons_self) before tried) ran

theorem layers_listed (policy : Policy) (fp : Option Fingerprinter) (now : Int) :
    ∀ layer ∈ layers policy summary fp now, layer.kind = .explicit → layer.values = explicitCursors summary := by
  intro layer member explicit
  unfold layers at member
  rcases mem_append.mp member with named | hinted
  · rcases mem_cons.mp named with rfl | echoed
    · rfl
    · rw [mem_singleton.mp echoed] at explicit
      cases explicit
  · split at hinted
    · rw [mem_singleton.mp hinted] at explicit
      cases explicit
    · cases hinted

/-- The record that a request is placed after is of the session that it joins. -/
structure Joined (records : List Record) (continues found : Option Match) : Prop where
  session : continues.map Match.sessionID = found.map Match.sessionID
  stems : ∀ after ∈ continues, ∃ record ∈ records, Stems after record

theorem anchored_joined (honest : Honest answer records) {matched continues : Option Match}
    (before : ∀ found ∈ matched, Sought records summary found)
    (ran : anchored summary (some answer) matched = .ok continues) : Joined records continues matched := by
  have unchanged : Joined records matched matched := ⟨rfl, fun after isAfter => (before after isAfter).stems⟩
  cases matched with
  | none =>
    cases ran
    exact unchanged
  | some found =>
    unfold anchored at ran
    dsimp only at ran
    split at ran
    · obtain ⟨response, asked, ran⟩ := bind_ok ran
      cases response with
      | none =>
        cases ran
        exact unchanged
      | some anchor =>
        dsimp only at ran
        split at ran
        · rename_i same
          cases ran
          refine ⟨congrArg some same, fun after isAfter => ?_⟩
          rw [← some.inj isAfter]
          exact (honest _ _ _ _ asked).1
        · cases ran
          exact unchanged
    · cases ran
      exact unchanged

theorem place_joined (honest : Honest answer records) {policy : Policy} {fp : Option Fingerprinter}
    {continues found : Option Match} (joined : Joined records continues found)
    (before : ∀ held ∈ found, Sought records summary held) {placement : Placement}
    (ran : place policy summary fp (some answer) continues found = .ok placement) :
    Joined records placement.continues placement.found ∧ ∀ held ∈ placement.found, Sought records summary held := by
  cases continues with
  | none =>
    cases ran
    exact ⟨joined, before⟩
  | some newest =>
    unfold place at ran
    dsimp only at ran
    split at ran
    · obtain ⟨response, asked, ran⟩ := bind_ok ran
      cases response with
      | none =>
        cases ran
        exact ⟨joined, before⟩
      | some earlier =>
        dsimp only at ran
        split at ran
        · cases ran
          obtain ⟨stems, sameKind, among⟩ := honest _ _ _ _ asked
          have same : { earlier with kind := some (earlier.kind.getD .explicit) } = earlier := by
            cases earlier
            cases sameKind
            rfl
          dsimp only
          rw [same]
          constructor
          · refine ⟨rfl, fun after isAfter => ?_⟩
            rw [← some.inj isAfter]
            exact stems
          · intro held isHeld
            rw [← some.inj isHeld]
            exact ⟨stems, fun _ => ⟨sameKind, among⟩⟩
        · cases ran
          exact ⟨joined, before⟩
    · cases ran
      exact ⟨joined, before⟩

/-- What is known of a resolved request. -/
structure Resolved (records : List Record) (call : Call) : Prop where
  joined : Joined records call.continues call.decision.found
  sought : ∀ found ∈ call.decision.found, Sought records call.request.summary found
  turn : call.decision.turn =
    if call.decision.sideCall then sideCallTurn call.continues
    else nextTurn call.request.summary call.continues
      (fingerprintOf call.request.fp call.request.summary.lastUserDigest)

end

variable {call : Call}

theorem handle_resolved {records : List Record} (holds : index.Holds records) {request : Request}
    (handled : handle index request = some call) : call.request = request ∧ Resolved records call := by
  unfold handle at handled
  have honest := lookupFor_honest holds request.principal
  cases resolved : resolveAfter request.policy request.summary request.fp (some (index.lookupFor request.principal))
      request.now with
  | error failure => rw [resolved] at handled; cases handled
  | ok result =>
    rw [resolved] at handled
    cases handled
    refine ⟨rfl, ?_⟩
    obtain ⟨search, searched, resolved⟩ := bind_ok resolved
    obtain ⟨anchor, anchors, resolved⟩ := bind_ok resolved
    obtain ⟨placement, placed, resolved⟩ := bind_ok resolved
    cases resolved
    have sought := search_sought honest (layers_listed request.policy request.fp request.now)
      (fun found isFound => by cases isFound) searched
    obtain ⟨joined, soughtThen⟩ := place_joined honest (anchored_joined honest sought anchors) sought placed
    exact ⟨joined, soughtThen, rfl⟩

/-- The history moves on: by a message of a delta, more user messages, or a newer user text. -/
def MovesOn (call : Call) (before : TurnState) : Prop :=
  let summary := call.request.summary
  let userFingerprint := fingerprintOf call.request.fp summary.lastUserDigest
  summary.hasUserMessage = true ∧ ¬ (before.userMessages < 1 ∧ before.lastUserFingerprint = []) ∧
    (summary.stateful = true ∨ before.userMessages < summary.userTurnCount ∨
      (userFingerprint ≠ [] ∧ before.lastUserFingerprint ≠ [] ∧ userFingerprint ≠ before.lastUserFingerprint))

/-- The turn that the request is placed after. -/
def Call.before (call : Call) : Option TurnState := call.continues.bind Match.turn

structure Lawful (call : Call) : Prop where
  positive : ∀ turn ∈ call.decision.turn, 1 ≤ turn.index
  opened : call.before = none → ∀ turn ∈ call.decision.turn, turn.index = 1
  placed : ∀ before ∈ call.before, ∃ turn ∈ call.decision.turn,
    (turn.index = before.index ∨ turn.index = before.index + 1) ∧
      (turn.index = before.index + 1 ↔ call.decision.sideCall = false ∧ MovesOn call before)

theorem nextTurn_opened {summary : RequestSummary} {matched : Option Match} {userFingerprint : Text}
    (nothing : matched.bind Match.turn = none) : ∀ turn ∈ nextTurn summary matched userFingerprint, turn.index = 1 := by
  intro turn isTurn
  unfold nextTurn at isTurn
  rw [nothing] at isTurn
  dsimp only at isTurn
  split at isTurn
  · rw [← some.inj isTurn]
  · cases isTurn

theorem nextTurn_placed {before : TurnState} (isBefore : call.before = some before) (positive : 1 ≤ before.index) :
    ∃ turn ∈ nextTurn call.request.summary call.continues
        (fingerprintOf call.request.fp call.request.summary.lastUserDigest),
      (turn.index = before.index ∨ turn.index = before.index + 1) ∧
        (turn.index = before.index + 1 ↔ MovesOn call before) := by
  have stays : ¬ before.index = before.index + 1 := by omega
  unfold nextTurn
  rw [show call.continues.bind Match.turn = some before from isBefore]
  dsimp only
  rw [if_neg (by omega : ¬ before.index < 1)]
  by_cases opening : before.userMessages < 1 ∧ before.lastUserFingerprint = []
  · have still : ¬ MovesOn call before := fun moves => moves.2.1 opening
    rw [if_pos opening]
    split
    · exact ⟨_, rfl, .inl rfl, ⟨fun contra => absurd contra stays, fun moves => absurd moves still⟩⟩
    · exact ⟨_, rfl, .inl rfl, ⟨fun contra => absurd contra stays, fun moves => absurd moves still⟩⟩
  · rw [if_neg opening]
    by_cases typed : call.request.summary.hasUserMessage = true
    · rw [if_pos typed, if_neg (not_not.mpr typed)]
      by_cases stateful : call.request.summary.stateful = true
      · rw [if_pos stateful]
        exact ⟨_, rfl, .inr rfl, ⟨fun _ => ⟨typed, opening, .inl stateful⟩, fun _ => rfl⟩⟩
      · rw [if_neg stateful]
        split
        · rename_i progressed
          exact ⟨_, rfl, .inr rfl, ⟨fun _ => ⟨typed, opening, .inr progressed⟩, fun _ => rfl⟩⟩
        · rename_i same
          refine ⟨_, rfl, .inl rfl, ⟨fun contra => absurd contra stays, fun moves => ?_⟩⟩
          rcases moves.2.2 with delta | progressed
          · exact absurd delta stateful
          · exact absurd progressed same
    · have still : ¬ MovesOn call before := fun moves => typed moves.1
      rw [if_neg typed, if_pos typed]
      split
      · exact ⟨_, rfl, .inl rfl, ⟨fun contra => absurd contra stays, fun moves => absurd moves still⟩⟩
      · exact ⟨_, rfl, .inl rfl, ⟨fun contra => absurd contra stays, fun moves => absurd moves still⟩⟩

theorem Resolved.before_positive {records : List Record} (resolved : Resolved records call)
    (positive : ∀ record ∈ records, ∀ turn ∈ record.turn, 1 ≤ turn.index) :
    ∀ before ∈ call.before, 1 ≤ before.index := by
  intro before isBefore
  obtain ⟨found, isFound, turn⟩ := Option.bind_eq_some_iff.mp isBefore
  obtain ⟨record, listed, stems⟩ := resolved.joined.stems found isFound
  exact positive record listed before (stems.turn.symm.trans turn)

theorem Resolved.lawful {records : List Record} (resolved : Resolved records call)
    (positive : ∀ record ∈ records, ∀ turn ∈ record.turn, 1 ≤ turn.index) : Lawful call := by
  have turn := resolved.turn
  have before_positive := resolved.before_positive positive
  have opened : call.before = none → ∀ turn ∈ call.decision.turn, turn.index = 1 := by
    intro nothing other isTurn
    rw [turn] at isTurn
    split at isTurn
    · unfold sideCallTurn at isTurn
      cases continues : call.continues with
      | none =>
        rw [continues] at isTurn
        have same : TurnState.mk 1 0 [] = other := some.inj isTurn
        rw [← same]
      | some found =>
        rw [continues] at isTurn
        unfold Call.before at nothing
        rw [continues, Option.bind_some] at nothing
        rw [show found.turn = some other from isTurn] at nothing
        cases nothing
    · exact nextTurn_opened nothing other isTurn
  have placed : ∀ before ∈ call.before, ∃ turn ∈ call.decision.turn,
      (turn.index = before.index ∨ turn.index = before.index + 1) ∧
        (turn.index = before.index + 1 ↔ call.decision.sideCall = false ∧ MovesOn call before) := by
    intro before isBefore
    cases side : call.decision.sideCall with
    | true =>
      obtain ⟨found, isFound, isTurn⟩ := Option.bind_eq_some_iff.mp isBefore
      rw [side, if_pos rfl, isFound] at turn
      refine ⟨before, turn.trans isTurn, .inl rfl, ⟨fun contra => ?_, fun contra => by cases contra.1⟩⟩
      omega
    | false =>
      obtain ⟨next, isNext, either, moves⟩ := nextTurn_placed isBefore (before_positive before isBefore)
      rw [side, if_neg Bool.false_ne_true] at turn
      exact ⟨next, turn.trans isNext, either, moves.trans ⟨fun moved => ⟨rfl, moved⟩, fun moved => moved.2⟩⟩
  refine ⟨?indexes, opened, placed⟩
  case indexes =>
    intro other isTurn
    cases isBefore : call.before with
    | none =>
      have first := opened isBefore other isTurn
      omega
    | some before =>
      obtain ⟨next, isNext, either, _⟩ := placed before isBefore
      have same : next = other := some.inj (isNext.symm.trans isTurn)
      have atLeast := before_positive before isBefore
      rw [← same]
      omega

def State.records (state : State) : List Record := state.answered.map Answered.record

structure Sound (state : State) : Prop where
  indexed : state.index.Holds state.records
  lawful : ∀ call ∈ state.calls, Lawful call
  resolved : ∀ call ∈ state.calls, Resolved state.records call
  waiting : ∀ call ∈ state.waiting, call ∈ state.calls
  answered : ∀ answered ∈ state.answered, answered.call ∈ state.calls

theorem Resolved.mono {records more : List Record} (resolved : Resolved records call)
    (known : ∀ record ∈ records, record ∈ more) : Resolved more call := by
  have wider : ∀ {found : Match}, (∃ record ∈ records, Stems found record) → ∃ record ∈ more, Stems found record := by
    rintro found ⟨record, listed, stems⟩
    exact ⟨record, known record listed, stems⟩
  exact ⟨⟨resolved.joined.session, fun after isAfter => wider (resolved.joined.stems after isAfter)⟩,
    fun found isFound => ⟨wider (resolved.sought found isFound).stems, (resolved.sought found isFound).identity⟩,
    resolved.turn⟩

variable {state : State}

theorem Sound.records_positive (sound : Sound state) :
    ∀ record ∈ state.records, ∀ turn ∈ record.turn, 1 ≤ turn.index := by
  intro record listed
  obtain ⟨answered, present, rfl⟩ := mem_map.mp listed
  exact (sound.lawful answered.call (sound.answered answered present)).positive

theorem Sound.resolve (sound : Sound state) {request : Request} (handled : handle state.index request = some call) :
    Sound { state with waiting := state.waiting ++ [call], calls := state.calls ++ [call] } := by
  have resolved := (handle_resolved sound.indexed handled).2
  refine ⟨sound.indexed, ?lawful, ?resolved, ?waiting, ?answered⟩
  case lawful =>
    intro other member
    rcases mem_append.mp member with before | new
    · exact sound.lawful other before
    · rw [mem_singleton.mp new]
      exact resolved.lawful sound.records_positive
  case resolved =>
    intro other member
    rcases mem_append.mp member with before | new
    · exact sound.resolved other before
    · rw [mem_singleton.mp new]
      exact resolved
  case waiting =>
    intro other member
    rcases mem_append.mp member with before | new
    · exact mem_append_left _ (sound.waiting other before)
    · exact mem_append_right _ new
  case answered => exact fun answered member => mem_append_left _ (sound.answered answered member)

theorem Sound.store (sound : Sound state) {place : Nat} (waits : state.waiting[place]? = some call)
    (response : ResponseSummary) (now : Int) :
    Sound { state with
      index := state.index.put now (Answered.record ⟨call, response⟩)
      waiting := state.waiting.eraseIdx place
      answered := state.answered ++ [⟨call, response⟩] } := by
  have records : (state.answered ++ [Answered.mk call response]).map Answered.record =
      state.records ++ [Answered.record ⟨call, response⟩] := map_append
  refine ⟨?indexed, sound.lawful, ?resolved, ?waiting, ?answered⟩
  case indexed =>
    unfold State.records
    rw [records]
    exact Index.put_holds sound.indexed now _
  case resolved =>
    intro other member
    apply (sound.resolved other member).mono
    unfold State.records
    rw [records]
    exact fun record listed => mem_append_left _ listed
  case waiting => exact fun other member => sound.waiting other (mem_of_mem_eraseIdx member)
  case answered =>
    intro answered member
    rcases mem_append.mp member with before | new
    · exact sound.answered answered before
    · rw [mem_singleton.mp new]
      exact sound.waiting call (mem_of_getElem? waits)

theorem reached_sound {options : Options} (reached : Reaches step (fun _ _ => True) (State.new options) state) :
    Sound state := by
  apply reached.invariant Sound
  · refine ⟨?indexed, ?lawful, ?resolved, ?waiting, ?answered⟩
    case indexed => exact fun kind value stored member => by cases member
    case lawful => exact fun call member => by cases member
    case resolved => exact fun call member => by cases member
    case waiting => exact fun call member => by cases member
    case answered => exact fun answered member => by cases member
  · intro before act next sound _ stepped
    cases act with
    | resolve request =>
      obtain ⟨call, handled, rfl⟩ := map_eq_some_iff.mp stepped
      exact sound.resolve handled
    | store place response now =>
      obtain ⟨call, waits, rfl⟩ := map_eq_some_iff.mp stepped
      exact sound.store waits response now

/-- A call was placed after the record of another one. -/
def Continues (state : State) (later earlier : Call) : Prop :=
  later ∈ state.calls ∧
    ∃ answered ∈ state.answered, answered.call = earlier ∧ ∃ found ∈ later.continues, Stems found answered.record

structure TurnLaw (state : State) : Prop where
  lawful : ∀ call ∈ state.calls, Lawful call
  continued : ∀ call ∈ state.calls, call.continues ≠ none →
    ∃ earlier ∈ state.calls, Continues state call earlier ∧ earlier.session = call.session
  kept : ∀ first last, Relation.ReflTransGen (Continues state) last first →
    ∀ turn ∈ first.decision.turn, ∃ later ∈ last.decision.turn, turn.index ≤ later.index
  identified : ∀ call ∈ state.calls, ∀ identity ∈ (explicitCursors call.request.summary).head?,
    (call.decision.found = none ∧ call.session = call.request.newSession) ∨
      ∃ answered ∈ state.answered, answered.record.sessionID = call.session ∧
        ∃ direction, ⟨.explicit, direction, identity⟩ ∈ answered.record.cursors

theorem Sound.continues_kept (sound : Sound state) {later earlier : Call} (continues : Continues state later earlier) :
    ∀ turn ∈ earlier.decision.turn, ∃ next ∈ later.decision.turn, turn.index ≤ next.index := by
  intro turn isTurn
  obtain ⟨listed, answered, _, rfl, found, isFound, stems⟩ := continues
  have isBefore : later.before = some turn := by
    unfold Call.before
    rw [show later.continues = some found from isFound]
    exact stems.turn.trans isTurn
  obtain ⟨next, isNext, either, _⟩ := (sound.lawful later listed).placed turn isBefore
  refine ⟨next, isNext, ?_⟩
  omega

theorem Sound.chain_kept (sound : Sound state) {first last : Call}
    (chain : Relation.ReflTransGen (Continues state) last first) :
    ∀ turn ∈ first.decision.turn, ∃ later ∈ last.decision.turn, turn.index ≤ later.index := by
  induction chain with
  | refl => exact fun turn isTurn => ⟨turn, isTurn, Int.le_refl _⟩
  | tail _ continues ih =>
    intro turn isTurn
    obtain ⟨middle, isMiddle, below⟩ := sound.continues_kept continues turn isTurn
    obtain ⟨later, isLater, above⟩ := ih middle isMiddle
    exact ⟨later, isLater, Int.le_trans below above⟩

theorem Sound.session_continued (sound : Sound state) (listed : call ∈ state.calls)
    (continues : call.continues ≠ none) :
    ∃ earlier ∈ state.calls, Continues state call earlier ∧ earlier.session = call.session := by
  obtain ⟨found, isFound⟩ := Option.ne_none_iff_exists'.mp continues
  have joined := (sound.resolved call listed).joined
  obtain ⟨record, stored, stems⟩ := joined.stems found isFound
  obtain ⟨answered, present, rfl⟩ := mem_map.mp stored
  refine ⟨answered.call, sound.answered answered present, ⟨listed, answered, present, rfl, found, isFound, stems⟩, ?_⟩
  have session := joined.session
  rw [isFound] at session
  unfold Call.session
  rw [← session]
  exact stems.session.symm

theorem Sound.identity_stored (sound : Sound state) (listed : call ∈ state.calls) {identity : Text}
    (named : identity ∈ (explicitCursors call.request.summary).head?) :
    (call.decision.found = none ∧ call.session = call.request.newSession) ∨
      ∃ answered ∈ state.answered, answered.record.sessionID = call.session ∧
        ∃ direction, ⟨.explicit, direction, identity⟩ ∈ answered.record.cursors := by
  cases isFound : call.decision.found with
  | none => exact .inl ⟨rfl, by unfold Call.session; rw [isFound]; rfl⟩
  | some found =>
    right
    obtain ⟨⟨record, stored, stems⟩, identified⟩ := (sound.resolved call listed).sought found isFound
    obtain ⟨answered, present, rfl⟩ := mem_map.mp stored
    obtain ⟨rest, whole⟩ : ∃ rest, explicitCursors call.request.summary = identity :: rest :=
      head?_eq_some_iff.mp named
    rw [whole] at identified
    obtain ⟨explicit, same⟩ := identified (cons_ne_nil _ _)
    obtain ⟨kind, direction, sameKind, carries⟩ := stems.cursor
    rw [mem_singleton.mp same] at carries
    obtain rfl : kind = .explicit := some.inj (sameKind.symm.trans explicit)
    refine ⟨answered, present, ?_, direction, carries⟩
    unfold Call.session
    rw [isFound]
    exact stems.session.symm

/-- In every run, whatever the calls are and however their responses interleave. -/
theorem turn_law (options : Options) (state : State)
    (reached : Reaches step (fun _ _ => True) (State.new options) state) : TurnLaw state := by
  have sound := reached_sound reached
  exact ⟨sound.lawful, fun call listed => sound.session_continued listed, fun first last => sound.chain_kept,
    fun call listed identity => sound.identity_stored listed⟩

/-- A call of the thread "t" whose history is one user message. -/
def prompted (digest : List UInt8) (now : Int) : Request where
  policy := ⟨0, 0, false⟩
  summary := ⟨['t'], [], false, [], 1, true, [], digest, [digest], true, false⟩
  fp := some ⟨fun digest => digest.map fun byte => Char.ofNat (0x61 + byte.toNat)⟩
  principal := ['k']
  now := now
  newSession := ['s']

/-- The thread's only message is edited after it was answered. -/
def editedRun : List Act :=
  [.resolve (prompted [1] 1), .store 0 ⟨[], [], []⟩ 1, .resolve (prompted [2] 2), .store 0 ⟨[], [], []⟩ 2]

theorem turn_law_edited : ∃ state, state.calls.length = 2 ∧ TurnLaw state := by
  have counted : (runActs step (State.new ⟨0, 0⟩) editedRun).map (fun state => state.calls.length) = some 2 := by
    decide +kernel
  obtain ⟨state, ran, two⟩ := map_eq_some_iff.mp counted
  exact ⟨state, two, turn_law ⟨0, 0⟩ state (Reaches.start.runActs (fun _ _ => trivial) ran)⟩

/-- The request holds more user messages than the record counted. -/
def AddsMessage (call : Call) (before : TurnState) : Prop :=
  call.request.summary.hasUserMessage = true ∧
    (call.request.summary.stateful = true ∨ before.userMessages < call.request.summary.userTurnCount)

/-- An edited message begins a turn although it is no further message. -/
theorem edit_begins_turn :
    ¬ ∀ (options : Options) (state : State), Reaches step (fun _ _ => True) (State.new options) state →
      ∀ call ∈ state.calls, ∀ before ∈ call.before, ∀ turn ∈ call.decision.turn,
        (turn.index = before.index + 1 ↔ AddsMessage call before) := by
  intro law
  have shown : ((runActs step (State.new ⟨0, 0⟩) editedRun).bind fun state => state.calls[1]?).map
      (fun call => (call.before, call.decision.turn, call.request.summary)) =
        some (some ⟨1, 1, ['f', 'p', '1', '_', 'b']⟩, some ⟨2, 1, ['f', 'p', '1', '_', 'c']⟩, (prompted [2] 2).summary) := by
    decide +kernel
  obtain ⟨call, isCall, values⟩ := map_eq_some_iff.mp shown
  obtain ⟨state, ran, listed⟩ := Option.bind_eq_some_iff.mp isCall
  obtain ⟨isBefore, isTurn, isSummary⟩ : call.before = _ ∧ call.decision.turn = _ ∧ call.request.summary = _ := by
    simpa only [Prod.mk.injEq] using values
  have adds := (law ⟨0, 0⟩ state (Reaches.start.runActs (fun _ _ => trivial) ran) call (mem_of_getElem? listed)
    _ isBefore _ isTurn).mp rfl
  unfold AddsMessage at adds
  rw [isSummary] at adds
  exact absurd adds (by decide)

end AstrLink.Turns
