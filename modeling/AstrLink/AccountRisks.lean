import AstrLink.Runs
import Mathlib.Data.List.Forall2
import Mathlib.Data.List.Infix

/-!
The risk state of a connected account. No report lifts a suspension or shortens a pause (`PausedTo.run`), and
signals that are all heard escalate (`risk_kept`).
-/
namespace AstrLink.AccountRisks
open Runs List

inductive RiskState where
  | suspended
  | cooling
deriving DecidableEq

structure Risk where
  state : RiskState
  code : String
  message : String
  httpStatus : Nat
  observedAt : Int
  pausedUntil : Option Int
  occurrences : Nat

inductive EventKind where
  | suspended
  | cooling
  | cleared

structure Event where
  kind : EventKind
  code : String
  message : String
  httpStatus : Nat
  observedAt : Int
  pausedUntil : Option Int

structure Observation where
  state : RiskState
  code : String
  message : String
  httpStatus : Nat
  pausedUntil : Option Int
  forbidden : Bool

def minute : Int := 60000000000
def forbiddenEscalationWindow : Int := 180 * minute
def forbiddenEscalationThreshold : Nat := 3
def forbiddenCooldown : Int := 10 * minute
def riskEventDedupWindow : Int := minute
def riskEventRetention : Nat := 50
def repeatedForbidden : String := "repeated_forbidden"

def forbiddenRiskCodes : List String := ["forbidden", "client_identity_rejected"]

def Risk.blocks (risk : Risk) (now : Int) : Bool :=
  risk.state = .suspended || risk.pausedUntil.any fun ending => now < ending

def Risk.expired (risk : Risk) (now : Int) : Bool := risk.state = .cooling && !risk.blocks now

def codeChar (char : Char) : Bool := char.isLower || char.isDigit || char = '_'

/-- `^[a-z][a-z0-9_]{1,63}$` -/
def validCode (code : String) : Bool :=
  match code.toList with
  | first :: rest => first.isLower && rest.all codeChar && 1 ≤ rest.length && rest.length ≤ 63
  | [] => false

/-- What is known of a message: how it is made fit and whether it looks like a credential. -/
structure Texts where
  sanitize : String → String
  leaks : String → Bool

variable (texts : Texts)

def validateRiskText (code message : String) : Bool :=
  validCode code && message.length ≤ 240 && !texts.leaks message

/-- The zero time is no time a risk was observed at or lasts to. -/
def Risk.validate (risk : Risk) : Bool :=
  validateRiskText texts risk.code risk.message &&
    (risk.httpStatus = 0 || 100 ≤ risk.httpStatus && risk.httpStatus ≤ 599) && risk.observedAt ≠ 0 &&
    match risk.state with
    | .cooling => risk.pausedUntil.any (· ≠ 0)
    | .suspended => risk.pausedUntil.isNone

/-- Where a call stands between its steps. -/
inductive Call where
  | idle
  | reporting (risk : Risk)
  | clearing (now : Int)
  | clearingExpired (now : Int)
  | appending (event : Event)

/-- An account with its history, the latest event first, and the calls on it. -/
structure State where
  now : Int
  connected : Bool
  transition : Bool
  risk : Option Risk
  events : List Event
  calls : Nat → Call

def countRiskEvents (events : List Event) (since : Int) : Nat :=
  events.countP fun event => since ≤ event.observedAt && forbiddenRiskCodes.any (· == event.code)

/-- The risk a report stands for, by the history it counted. -/
def observe (events : List Event) (now : Int) (observation : Observation) : Risk :=
  let risk : Risk := ⟨observation.state, observation.code, texts.sanitize observation.message, observation.httpStatus, now,
    observation.pausedUntil, 0⟩
  if observation.forbidden then
    if countRiskEvents events (now - forbiddenEscalationWindow) + 1 ≥ forbiddenEscalationThreshold then
      { risk with state := .suspended, code := repeatedForbidden, pausedUntil := none }
    else { risk with state := .cooling, pausedUntil := some (now + forbiddenCooldown) }
  else risk

/-- What a report makes of the account's risk, and whether it is recorded. -/
def mutate (state : State) (risk : Risk) : Option (Risk × Bool) :=
  if !state.connected || state.transition then none
  else
    match state.risk.filter (·.blocks risk.observedAt) with
    | none => some ({ risk with occurrences := 1 }, true)
    | some current =>
      if current.state = .suspended ∧ risk.state = .cooling then none
      else
        let same := current.state = risk.state && current.code = risk.code
        let outlasts := risk.state = .cooling &&
          current.pausedUntil.any fun ending => risk.pausedUntil.any (· < ending)
        some ({ risk with
          occurrences := if same then current.occurrences + 1 else 1
          pausedUntil := if outlasts then current.pausedUntil else risk.pausedUntil },
          !same || riskEventDedupWindow ≤ risk.observedAt - current.observedAt)

def eventOf (risk : Risk) : Event :=
  ⟨match risk.state with | .suspended => .suspended | .cooling => .cooling, risk.code, risk.message, risk.httpStatus,
    risk.observedAt, risk.pausedUntil⟩

inductive Act where
  | tick (later : Nat)
  | report (call : Nat) (observation : Observation)
  | clear (call : Nat)
  | clearExpired (call : Nat)
  | update (call : Nat)
  | append (call : Nat)

def State.set (state : State) (call : Nat) (next : Call) : State :=
  { state with calls := Function.update state.calls call next }

/-- Each call reads, updates the account and appends to the history in steps of its own. -/
def step (state : State) : Act → State
  | .tick later => { state with now := state.now + later }
  | .report call observation =>
    match state.calls call with
    | .idle =>
      let risk := observe texts state.events state.now observation
      if risk.validate texts then state.set call (.reporting risk) else state
    | _ => state
  | .clear call => match state.calls call with | .idle => state.set call (.clearing state.now) | _ => state
  | .clearExpired call => match state.calls call with | .idle => state.set call (.clearingExpired state.now) | _ => state
  | .update call =>
    match state.calls call with
    | .reporting risk =>
      match mutate state risk with
      | none => state.set call .idle
      | some (risk, record) =>
        State.set { state with risk := some risk } call (if record then .appending (eventOf risk) else .idle)
    | .clearing now =>
      if state.risk.isSome then
        State.set { state with risk := none } call (.appending ⟨.cleared, "", "", 0, now, none⟩)
      else state.set call .idle
    | .clearingExpired now =>
      State.set { state with risk := if state.risk.any (·.expired now) then none else state.risk } call .idle
    | _ => state
  | .append call =>
    match state.calls call with
    | .appending event => State.set { state with events := (event :: state.events).take riskEventRetention } call .idle
    | _ => state

def Suspended (state : State) : Prop := ∃ risk, state.risk = some risk ∧ risk.state = .suspended

def PausedTo (ending : Option Int) (state : State) : Prop :=
  ∃ risk, state.risk = some risk ∧
    (risk.state = .suspended ∨ ∃ least last, ending = some least ∧ risk.pausedUntil = some last ∧ least ≤ last)

/-- The step at which a clearing by the user takes effect. -/
def Clears (state : State) : Act → Prop
  | .update call => ∃ now, state.calls call = .clearing now
  | _ => False

def Uncleared (state : State) : List Act → Prop
  | [] => True
  | act :: acts => ¬ Clears state act ∧ Uncleared (step texts state act) acts

/-- What a call between its steps knows: the time it read has come, and a pause has an end. -/
def Call.Sound (now : Int) : Call → Prop
  | .reporting risk => risk.observedAt ≤ now ∧ (risk.state = .cooling → risk.pausedUntil.isSome = true)
  | .clearingExpired read => read ≤ now
  | _ => True

def Sound (state : State) : Prop := ∀ call, (state.calls call).Sound state.now

variable {texts} {state : State} {act : Act} {ending : Option Int}

theorem observe_observedAt (events : List Event) (now : Int) (observation : Observation) :
    (observe texts events now observation).observedAt = now := by
  unfold observe
  grind

theorem Sound.step (sound : Sound state) : Sound (step texts state act) ∧ state.now ≤ (step texts state act).now := by
  have set : ∀ call {next : Call}, next.Sound state.now → ∀ risk events,
      Sound ({ state with risk, events }.set call next) ∧ state.now ≤ state.now := by
    refine fun call next calm _ _ => ⟨fun other => ?_, Int.le_refl _⟩
    simp only [State.set, Function.update_apply]
    split
    · exact calm
    · exact sound other
  have stays : Sound state ∧ state.now ≤ state.now := ⟨sound, Int.le_refl _⟩
  cases act with
  | tick later =>
    refine ⟨fun call => ?_, by simp only [AccountRisks.step]; omega⟩
    have known := sound call
    cases found : state.calls call <;> simp only [AccountRisks.step, Call.Sound, found] at known ⊢ <;> grind
  | report call observation =>
    simp only [AccountRisks.step]
    split <;> try split
    · rename_i valid
      refine set call (show Call.Sound _ (.reporting _) from ⟨Int.le_of_eq (observe_observedAt ..), fun cools => ?_⟩) _ _
      simp only [Risk.validate, cools, Bool.and_eq_true] at valid
      exact Option.isSome_of_any valid.2
    all_goals exact stays
  | clearExpired call => simp only [AccountRisks.step]; split; exacts [set call (show _ ≤ _ from Int.le_refl _) _ _, stays]
  | _ =>
    simp only [AccountRisks.step]
    repeat' split
    all_goals first | exact stays | exact set _ (by trivial) _ _

theorem PausedTo.blocks {risk : Risk} {now : Int} (paused : PausedTo ending state) (found : state.risk = some risk)
    (before : ∀ least, ending = some least → now < least) : risk.blocks now = true := by
  obtain ⟨_, present, suspended | ⟨least, last, bound, lasts, within⟩⟩ := paused <;> cases found.symm.trans present
  · simp [Risk.blocks, suspended]
  · have := before least bound
    simp [Risk.blocks, lasts]
    omega

theorem PausedTo.mutate {risk changed : Risk} {record : Bool} (paused : PausedTo ending state)
    (cools : risk.state = .cooling → risk.pausedUntil.isSome = true)
    (before : ∀ least, ending = some least → risk.observedAt < least) (changes : mutate state risk = some (changed, record)) :
    PausedTo ending { state with risk := some changed } := by
  obtain ⟨current, found, kept⟩ := id paused
  have blocks := paused.blocks found before
  refine ⟨changed, rfl, ?_⟩
  simp only [AccountRisks.mutate, found, Option.filter_some, blocks, if_true] at changes
  split at changes
  · cases changes
  · split at changes
    · cases changes
    · rename_i lower
      cases changes
      cases state_eq : risk.state with
      | suspended => exact .inl rfl
      | cooling =>
        have calm : current.state ≠ .suspended := fun stays => lower ⟨stays, state_eq⟩
        obtain ⟨least, last, bound, lasts, within⟩ := kept.resolve_left calm
        obtain ⟨own, isOwn⟩ := Option.isSome_iff_exists.mp (cools state_eq)
        refine .inr ⟨least, if own < last then last else own, bound, ?_, by split <;> omega⟩
        by_cases shorter : own < last <;> simp [lasts, isOwn, shorter]

theorem PausedTo.step (sound : Sound state) (before : ∀ least, ending = some least → state.now < least)
    (paused : PausedTo ending state) (free : ¬ Clears state act) : PausedTo ending (step texts state act) := by
  cases act with
  | update call =>
    simp only [AccountRisks.step]
    split
    case h_1 risk reporting =>
      obtain ⟨read, cools⟩ : risk.observedAt ≤ _ ∧ _ := by simpa [reporting, Call.Sound] using sound call
      split
      · exact paused
      · rename_i changes
        exact paused.mutate cools (fun least bound => Int.lt_of_le_of_lt read (before least bound)) changes
    case h_2 now clearing => exact absurd ⟨now, clearing⟩ free
    case h_3 now expiring =>
      obtain ⟨risk, found, -⟩ := id paused
      have read : now ≤ state.now := by simpa [expiring, Call.Sound] using sound call
      have blocks := paused.blocks found fun least bound => Int.lt_of_le_of_lt read (before least bound)
      rw [if_neg (by simp [found, Risk.expired, blocks])]
      exact paused
    case h_4 => exact paused
  | tick => exact paused
  | _ =>
    simp only [AccountRisks.step]
    repeat split
    all_goals exact paused

variable {acts : List Act}

theorem Sound.run (sound : Sound state) :
    Sound (acts.foldl (AccountRisks.step texts) state) ∧ state.now ≤ (acts.foldl (AccountRisks.step texts) state).now := by
  induction acts generalizing state with
  | nil => exact ⟨sound, Int.le_refl _⟩
  | cons act acts ih => exact (ih sound.step.1).imp_right (Int.le_trans sound.step.2)

theorem PausedTo.run (sound : Sound state) (paused : PausedTo ending state) (uncleared : Uncleared texts state acts)
    (before : ∀ least, ending = some least → (acts.foldl (AccountRisks.step texts) state).now < least) :
    PausedTo ending (acts.foldl (AccountRisks.step texts) state) := by
  induction acts generalizing state with
  | nil => exact paused
  | cons act acts ih =>
    have kept : PausedTo ending (AccountRisks.step texts state act) :=
      paused.step sound (fun least bound => Int.lt_of_le_of_lt sound.run.2 (before least bound)) uncleared.1
    exact ih sound.step.1 kept uncleared.2 before

/-- A 403 response that counts toward escalation, and whether it rejects the client's identity. -/
structure Signal where
  time : Int
  rejected : Bool
  message : String

def Signal.code (signal : Signal) : String := if signal.rejected then "client_identity_rejected" else "forbidden"

def forbiddenRisk (signal : Signal) : Observation :=
  ⟨.cooling, signal.code, signal.message, 403, some (signal.time + forbiddenCooldown), true⟩

variable (texts)

/-- A report from its first step to its last. -/
def report (state : State) (signal : Signal) : State :=
  [.tick (signal.time - state.now).toNat, .report 0 (forbiddenRisk signal), .update 0, .append 0].foldl (step texts) state

/-- The message passes the checks of a risk. -/
def Fits (signal : Signal) : Prop :=
  (texts.sanitize signal.message).length ≤ 240 ∧ texts.leaks (texts.sanitize signal.message) = false

/-- No pause for the same code was refreshed less than the window before. -/
def Heard (state : State) (signal : Signal) : Prop :=
  ∀ current, state.risk = some current → current.blocks signal.time = true → current.state = .cooling →
    current.code = signal.code → riskEventDedupWindow ≤ signal.time - current.observedAt

/-- Signals one after another, each at a time that comes. -/
def InTurn (state : State) (signals : List Signal) : Prop :=
  Always (fun before signal => (before.foldl (report texts) state).now ≤ signal.time ∧ Fits texts signal) signals

def AllHeard (state : State) (signals : List Signal) : Prop :=
  Always (fun before signal => Heard (before.foldl (report texts) state) signal) signals

/-- Three of the signals lie in the window of escalation, pairwise the window of repeats apart. -/
def Thrice (signals : List Signal) : Prop :=
  ∃ first second third, [first, second, third].Sublist signals ∧ first.time + riskEventDedupWindow ≤ second.time ∧
    second.time + riskEventDedupWindow ≤ third.time ∧ third.time ≤ first.time + forbiddenEscalationWindow

/-- The account stays connected and no other report is on its way. -/
structure Open (state : State) : Prop where
  connected : state.connected = true
  settled : state.transition = false
  idle : state.calls 0 = .idle
  dated : 0 < state.now

variable {texts} {signal : Signal}

theorem validate_observe (fits : Fits texts signal) (dated : 0 < signal.time) (events : List Event) :
    (observe texts events signal.time (forbiddenRisk signal)).validate texts = true := by
  have codes : validCode repeatedForbidden = true ∧ validCode signal.code = true := by
    unfold Signal.code
    split <;> decide +kernel
  have known : signal.time ≠ 0 ∧ signal.time + forbiddenCooldown ≠ 0 := by
    simp only [forbiddenCooldown, minute]
    omega
  unfold observe
  simp only [forbiddenRisk, if_true]
  split <;> simp [Risk.validate, validateRiskText, codes, known, fits.1, fits.2]

theorem report_spec (isOpen : Open state) (order : state.now ≤ signal.time) (fits : Fits texts signal) :
    let next := report texts state signal
    let outcome := mutate state (observe texts state.events signal.time (forbiddenRisk signal))
    Open next ∧ next.now = signal.time ∧ next.risk = outcome.elim state.risk (fun made => some made.1) ∧
      next.events = outcome.elim state.events fun made =>
        if made.2 then (eventOf made.1 :: state.events).take riskEventRetention else state.events := by
  have dated := isOpen.dated
  have time : state.now + ((signal.time - state.now).toNat : Int) = signal.time := by omega
  have valid := validate_observe fits (by omega) state.events
  generalize seen : observe texts state.events signal.time (forbiddenRisk signal) = risk at valid ⊢
  simp only [report, List.foldl, step, time, isOpen.idle, seen, valid, if_true, State.set, Function.update_self]
  have alike : mutate (State.set { state with now := signal.time } 0 (.reporting risk)) risk = mutate state risk := rfl
  simp only [State.set] at alike
  rw [alike]
  rcases mutate state risk with _ | ⟨changed, _ | _⟩
  all_goals exact ⟨⟨isOpen.connected, isOpen.settled, by simp, by simp; omega⟩, by simp, by simp⟩

/-- An event of a signal. -/
def Event.Of (event : Event) (time : Int) : Prop :=
  event.observedAt = time ∧ forbiddenRiskCodes.any (· == event.code) = true

theorem report_escalates (isOpen : Open state) (order : state.now ≤ signal.time) (fits : Fits texts signal)
    (heard : Heard state signal) :
    Suspended (report texts state signal) ∨ ¬ Suspended state ∧
      countRiskEvents state.events (signal.time - forbiddenEscalationWindow) < 2 ∧ ∃ event : Event, event.Of signal.time ∧
      (report texts state signal).events = (event :: state.events).take riskEventRetention := by
  obtain ⟨-, -, outcome⟩ := report_spec isOpen order fits
  simp only [mutate, isOpen.connected, isOpen.settled, Bool.not_true, Bool.or_false, Bool.false_eq_true, if_false,
    observe_observedAt] at outcome
  by_cases many : countRiskEvents state.events (signal.time - forbiddenEscalationWindow) + 1 ≥ forbiddenEscalationThreshold
  · have suspends : (observe texts state.events signal.time (forbiddenRisk signal)).state = .suspended := by
      simp [observe, forbiddenRisk, many]
    rw [suspends] at outcome
    left
    cases found : state.risk.filter (·.blocks signal.time) with
    | none =>
      simp only [found] at outcome
      exact ⟨_, outcome.1, rfl⟩
    | some current =>
      simp only [found, reduceCtorEq, and_false, if_false] at outcome
      exact ⟨_, outcome.1, rfl⟩
  · have cools : (observe texts state.events signal.time (forbiddenRisk signal)).state = .cooling ∧
        (observe texts state.events signal.time (forbiddenRisk signal)).code = signal.code := by
      simp [observe, forbiddenRisk, many]
    have few : countRiskEvents state.events (signal.time - forbiddenEscalationWindow) < 2 := by
      unfold forbiddenEscalationThreshold at many
      omega
    have listed : forbiddenRiskCodes.any (· == signal.code) = true := by
      unfold Signal.code
      split <;> decide +kernel
    cases found : state.risk.filter (·.blocks signal.time) with
    | none =>
      simp only [found] at outcome
      refine .inr ⟨fun ⟨risk, present, stays⟩ => ?_, few, _, ⟨rfl, by simpa [eventOf, cools] using listed⟩, outcome.2⟩
      simp [present, Risk.blocks, stays] at found
    | some current =>
      obtain ⟨isCurrent, blocks⟩ := Option.filter_eq_some_iff.mp found
      simp only [found, cools] at outcome
      by_cases stays : current.state = .suspended
      · simp only [stays] at outcome
        exact .inl ⟨current, outcome.1.trans isCurrent, stays⟩
      · have calm : current.state = .cooling := by cases state_eq : current.state <;> simp_all
        have recorded : (!(current.state = .cooling && current.code = signal.code) ||
            riskEventDedupWindow ≤ signal.time - current.observedAt) = true := by
          have := heard current isCurrent blocks calm
          by_cases same : current.code = signal.code <;> simp_all
        simp only [stays, false_and, if_false, recorded] at outcome
        refine .inr ⟨fun ⟨risk, present, ends⟩ => stays ?_, few, _, ⟨rfl, by simpa [eventOf] using listed⟩, outcome.2⟩
        cases isCurrent.symm.trans present
        exact ends

variable {signals : List Signal}

theorem signals_run (isOpen : Open state) (inTurn : InTurn texts state signals) (heard : AllHeard texts state signals) :
    let next := signals.foldl (report texts) state
    Open next ∧ (∀ signal ∈ signals, signal.time ≤ next.now) ∧ (signals.reverse.map Signal.time).Pairwise (· ≥ ·) ∧
      (Suspended next ∨ ∃ newer, newer.take riskEventRetention <+: next.events ∧
        List.Forall₂ (fun event signal => event.Of signal.time) newer signals.reverse) := by
  induction signals using List.reverseRecOn with
  | nil => exact ⟨isOpen, by simp, by simp, .inr ⟨[], nil_prefix, .nil⟩⟩
  | append_singleton signals signal ih =>
    obtain ⟨inTurn, order, fits⟩ := always_snoc.mp inTurn
    obtain ⟨heard, hears⟩ := always_snoc.mp heard
    obtain ⟨opens, passed, sorted, either⟩ := ih inTurn heard
    have spec := report_spec opens order fits
    simp only [foldl_append, foldl_cons, foldl_nil, reverse_append, reverse_cons, reverse_nil,
      nil_append, singleton_append, map_cons, pairwise_cons, mem_append, mem_singleton]
    refine ⟨spec.1, ?_, ⟨?_, sorted⟩, ?_⟩
    · rintro other (earlier | rfl)
      · exact Int.le_trans (passed other earlier) (Int.le_trans order (Int.le_of_eq spec.2.1.symm))
      · exact Int.le_of_eq spec.2.1.symm
    · intro time listed
      obtain ⟨other, member, rfl⟩ := mem_map.mp listed
      exact Int.le_trans (passed other (mem_reverse.mp member)) order
    · have next := report_escalates opens order fits hears
      rcases either with suspended | ⟨newer, events, alike⟩
      · exact .inl (next.resolve_right fun calm => calm.1 suspended)
      · refine next.imp_right fun ⟨_, _, event, own, appended⟩ => ?_
        refine ⟨event :: newer, ?_, .cons own alike⟩
        rw [appended]
        simpa [riskEventRetention, take_take, prefix_cons_inj] using IsPrefix.take events 49

theorem escalates (isOpen : Open state) (inTurn : InTurn texts state signals) (heard : AllHeard texts state signals)
    (thrice : Thrice signals) : Suspended (signals.foldl (report texts) state) := by
  obtain ⟨first, second, third, inside, apart, apart', within⟩ := thrice
  induction signals using List.reverseRecOn with
  | nil => cases inside
  | append_singleton signals signal ih =>
    obtain ⟨before, order, fits⟩ := always_snoc.mp inTurn
    obtain ⟨heards, hears⟩ := always_snoc.mp heard
    obtain ⟨opens, -, sorted, either⟩ := signals_run isOpen before heards
    rw [foldl_append, foldl_cons, foldl_nil]
    have positive : 0 < riskEventDedupWindow := by decide
    refine (report_escalates opens order fits hears).resolve_right fun ⟨calm, few, _⟩ => ?_
    have earlier : ¬ [first, second, third].Sublist signals := fun listed => calm (ih before heards listed)
    obtain ⟨newer, events, alike⟩ := either.resolve_left calm
    have last : third = signal ∧ [second, first].Sublist signals.reverse := by
      rw [← reverse_sublist] at inside earlier
      simp only [reverse_append, reverse_cons, reverse_nil, nil_append, singleton_append] at inside earlier
      cases inside with
      | cons _ below => exact absurd below earlier
      | cons_cons _ below => exact ⟨rfl, below⟩
    obtain ⟨rfl, both⟩ := last
    generalize signals.reverse = seen at both alike sorted
    -- the two latest events are those of signals from the first on
    cases alike with
    | nil => cases both
    | @cons event signal newer seen own alike =>
      have member : first ∈ seen := by
        cases both with
        | cons _ below => exact below.subset (by simp)
        | cons_cons _ below => exact below.subset (by simp)
      cases alike with
      | nil => cases member
      | @cons event' signal' newer seen own' alike =>
        simp only [map_cons, pairwise_cons, mem_cons, mem_map] at sorted
        have since' : third.time - forbiddenEscalationWindow ≤ event'.observedAt := by
          rw [own'.1]
          rcases mem_cons.mp member with rfl | listed
          · omega
          · have := sorted.2.1 first.time ⟨first, listed, rfl⟩
            omega
        have since : third.time - forbiddenEscalationWindow ≤ event.observedAt := by
          have := sorted.1 signal'.time (.inl rfl)
          rw [own'.1] at since'
          rw [own.1]
          omega
        have counted := events.sublist.countP_le (p := fun event =>
          third.time - forbiddenEscalationWindow ≤ event.observedAt && forbiddenRiskCodes.any (· == event.code))
        rw [riskEventRetention, take_succ_cons, take_succ_cons, countP_cons_of_pos, countP_cons_of_pos]
          at counted
        · unfold countRiskEvents at few
          omega
        · simp [since', own'.2]
        · simp [since, own.2]

/-- An account stays suspended, and paused to its end, until the user clears it, and signals that are all heard
suspend it. -/
theorem risk_kept (texts : Texts) :
    (∀ start : State, (∀ call, start.calls call = .idle) → ∀ before acts : List Act,
      let state := before.foldl (step texts) start
      let next := acts.foldl (step texts) state
      Uncleared texts state acts → (Suspended state → Suspended next) ∧
        ∀ ending, PausedTo (some ending) state → next.now < ending → PausedTo (some ending) next) ∧
    ∀ start signals, Open start → InTurn texts start signals → AllHeard texts start signals → Thrice signals →
      Suspended (signals.foldl (report texts) start) := by
  refine ⟨fun start idle before acts => ?_, fun _ _ => escalates⟩
  intro state next uncleared
  have sound : Sound state := (Sound.run fun call => by rw [idle]; trivial).1
  refine ⟨fun ⟨risk, found, stays⟩ => ?_, fun ending paused ahead => paused.run sound uncleared (by simpa using ahead)⟩
  have paused : PausedTo none state := ⟨risk, found, .inl stays⟩
  obtain ⟨risk, found, kept⟩ := paused.run sound uncleared (by simp)
  exact ⟨risk, found, kept.resolve_right (by simp)⟩

/-- Five signals half a minute apart each refresh the pause that suppresses the next. -/
theorem risk_not_escalated : ¬ ∀ texts start signals, Open start → InTurn texts start signals → Thrice signals →
    Suspended (signals.foldl (report texts) start) := by
  intro claimed
  let signal (seconds : Int) : Signal := ⟨seconds * 1000000000 + 1, false, "denied"⟩
  have suspended := claimed ⟨id, fun _ => false⟩ ⟨1, true, false, none, [], fun _ => .idle⟩
    ([0, 30, 60, 90, 120].map signal) ⟨rfl, rfl, rfl, by decide⟩
    ((always_iff_get _ _).mpr (by unfold Fits; decide +kernel))
    ⟨signal 0, signal 60, signal 120, .cons_cons _ (.cons _ (.cons_cons _ (.cons _ (.refl _)))), by decide, by decide,
      by decide⟩
  obtain ⟨risk, found, stays⟩ := suspended
  have contra := congrArg (Option.any fun risk => risk.state = .suspended) found
  simp only [Option.any_some, stays, decide_true] at contra
  exact absurd contra (by decide +kernel)

end AstrLink.AccountRisks
