import AstrLink.StandInLedgers

/-!
No stand-in goes to two owners of a conversation as long as a ledger is made
anew only once the store has all that earlier ledgers of the conversation
issued (`exclusive_kept`). A ledger that is evicted while a request holds it
breaks this (`evicted_issues_twice`).
-/
namespace AstrLink.StandInLedgers
open Runs StandIns IPAddress Tables List
open Option (map_eq_some_iff some.inj)

variable {Session : Type}

section
variable [DecidableEq Session]

theorem remember_rows (session : Session) (rows : List (Issue Session)) (standIns : List PrivacyStandIn) :
    (∀ row ∈ rows, row ∈ rememberPrivacyStandIns session rows standIns) ∧
    (∀ row ∈ rememberPrivacyStandIns session rows standIns,
      row ∈ rows ∨ ∃ standIn ∈ standIns, row = ⟨session, standIn.standIn, standIn.owner⟩) ∧
    ∀ standIn ∈ standIns, ∃ row ∈ rememberPrivacyStandIns session rows standIns,
      row.session = session ∧ row.standIn = standIn.standIn := by
  induction standIns using List.reverseRecOn with
  | nil => exact ⟨fun _ listed => listed, fun _ listed => .inl listed, fun _ listed => by simp at listed⟩
  | append_singleton standIns last ih =>
    obtain ⟨kept, origin, covered⟩ := ih
    have snoc : rememberPrivacyStandIns session rows (standIns ++ [last]) =
        if (rememberPrivacyStandIns session rows standIns).any
            (fun row => row.session = session && row.standIn = last.standIn) then
          rememberPrivacyStandIns session rows standIns
        else rememberPrivacyStandIns session rows standIns ++ [⟨session, last.standIn, last.owner⟩] := by
      rw [rememberPrivacyStandIns, foldl_append]
      rfl
    rw [snoc]
    split
    · next conflict =>
      refine ⟨kept, ?_, ?_⟩
      · intro row listed
        rcases origin row listed with old | ⟨standIn, new, same⟩
        · exact .inl old
        · exact .inr ⟨standIn, by simp [new], same⟩
      · intro standIn listed
        rcases mem_append.mp listed with listed | listed
        · exact covered standIn listed
        · obtain rfl := mem_singleton.mp listed
          obtain ⟨row, there, same⟩ := any_eq_true.mp conflict
          exact ⟨row, there, by simpa using same⟩
    · refine ⟨fun row listed => mem_append_left _ (kept row listed), ?_, ?_⟩
      · intro row listed
        rcases mem_append.mp listed with listed | listed
        · rcases origin row listed with old | ⟨standIn, new, same⟩
          · exact .inl old
          · exact .inr ⟨standIn, by simp [new], same⟩
        · exact .inr ⟨last, by simp, mem_singleton.mp listed⟩
      · intro standIn listed
        rcases mem_append.mp listed with listed | listed
        · obtain ⟨row, there, same⟩ := covered standIn listed
          exact ⟨row, mem_append_left _ there, same⟩
        · obtain rfl := mem_singleton.mp listed
          exact ⟨_, mem_append_right _ (mem_singleton_self _), rfl, rfl⟩

end

theorem load_snoc (ledger : Ledger) (blank : ledger.loaded = false) (rows : List PrivacyStandIn)
    (row : PrivacyStandIn) :
    (ledger.load (rows ++ [row])).byStandIn = (ledger.load rows).byStandIn.insert row.standIn row.owner := by
  simp [Ledger.load, blank]

variable {ledger : Ledger}

theorem load_blank (blank : ledger.loaded = false) (empty : ledger.byStandIn = ∅) (rows : List PrivacyStandIn) :
    (∀ standIn owner, (ledger.load rows).byStandIn.lookup standIn = some owner → ⟨standIn, owner⟩ ∈ rows) ∧
    ((∀ first ∈ rows, ∀ second ∈ rows, first.standIn = second.standIn → first.owner = second.owner) →
      ∀ row ∈ rows, (ledger.load rows).byStandIn.lookup row.standIn = some row.owner) := by
  induction rows using List.reverseRecOn with
  | nil =>
    have same : (ledger.load []).byStandIn = ∅ := by simp [Ledger.load, blank, empty]
    rw [same]
    exact ⟨fun _ _ found => by simp at found, fun _ _ listed => by simp at listed⟩
  | append_singleton rows last ih =>
    obtain ⟨origin, covered⟩ := ih
    rw [load_snoc ledger blank]
    constructor
    · intro standIn owner found
      rw [lookup_insert_if] at found
      split at found
      · next same =>
        cases found
        subst same
        simp
      · exact mem_append_left _ (origin standIn owner found)
    · intro exclusive row listed
      rw [lookup_insert_if]
      split
      · next same => rw [exclusive row listed last (by simp) same]
      · next apart =>
        rcases mem_append.mp listed with listed | listed
        · exact covered (fun first here second there => exclusive first (by simp [here]) second (by simp [there])) row
            listed
        · exact absurd (congrArg _ (mem_singleton.mp listed)) apart

theorem load_unsaved (ledger : Ledger) (rows : List PrivacyStandIn) : (ledger.load rows).unsaved = ledger.unsaved := by
  unfold Ledger.load
  split
  · rfl
  · induction rows using List.reverseRecOn with
    | nil => rfl
    | append_singleton rows last ih =>
      simp only [foldl_append, foldl_cons, foldl_nil]
      exact ih

theorem load_loaded (ledger : Ledger) (rows : List PrivacyStandIn) : (ledger.load rows).loaded = true := by
  unfold Ledger.load
  split
  · assumption
  · rfl

theorem load_again (loaded : ledger.loaded = true) (rows : List PrivacyStandIn) : ledger.load rows = ledger :=
  if_pos loaded

def State.idAt (state : State Session) (ref : Nat) : Option Session := state.ledgers[ref]?.map (·.id)

/-- No ledger of the same conversation was made later. -/
def Latest (state : State Session) (ref : Nat) : Prop := ∀ other, state.idAt other = state.idAt ref → other ≤ ref

/-- The stand-in is still to be stored, by the ledger or a request. -/
def Owes (state : State Session) (ref : Nat) (held : Held Session) (row : PrivacyStandIn) : Prop :=
  row ∈ held.ledger.unsaved ∨ ∃ stage ∈ state.requests, stage.ref? = some ref ∧ row ∈ stage.unsaved

/-- The latest ledger knows all that was issued, and what is not stored is owed. -/
structure Sound (state : State Session) : Prop where
  exclusive : Exclusive state.issued
  named : ∀ issue ∈ state.issued, issue.owner ≠ []
  stored : ∀ row ∈ state.rows, row ∈ state.issued
  known : ∀ (ref : Nat) (held : Held Session), state.ledgers[ref]? = some held → ∀ standIn owner,
    held.ledger.byStandIn.lookup standIn = some owner → ⟨held.id, standIn, owner⟩ ∈ state.issued
  owed : ∀ (ref : Nat) (held : Held Session), state.ledgers[ref]? = some held → ∀ row, Owes state ref held row →
    ⟨held.id, row.standIn, row.owner⟩ ∈ state.issued
  blank : ∀ (ref : Nat) (held : Held Session), state.ledgers[ref]? = some held → held.ledger.loaded = false →
    held.ledger.byStandIn = ∅ ∧ held.ledger.unsaved = [] ∧
      ∀ stage ∈ state.requests, stage.ref? = some ref → stage = .asked ref
  settled : ∀ (ref : Nat) (held : Held Session), state.ledgers[ref]? = some held → ¬ Latest state ref → held.ledger.unsaved = []
  current : ∀ stage ∈ state.requests, ∀ ref, stage.ref? = some ref → Latest state ref
  remembered : ∀ element ∈ state.recent, state.idAt element.2 = some element.1 ∧ Latest state element.2
  complete : ∀ issue ∈ state.issued, ∀ (ref : Nat) (held : Held Session), state.ledgers[ref]? = some held → held.id = issue.session →
    Latest state ref → held.ledger.loaded = true → held.ledger.byStandIn.lookup issue.standIn = some issue.owner
  kept : ∀ issue ∈ state.issued, issue ∈ state.rows ∨
    ∃ ref held, state.ledgers[ref]? = some held ∧ held.id = issue.session ∧
      Owes state ref held ⟨issue.standIn, issue.owner⟩

theorem sound_start (stored : Stored Session) : Sound (start stored) where
  exclusive := stored.exclusive
  named := stored.named
  stored := fun _ listed => listed
  known := fun _ _ found => by simp [start] at found
  owed := fun _ _ found => by simp [start] at found
  blank := fun _ _ found => by simp [start] at found
  settled := fun _ _ found => by simp [start] at found
  current := fun _ listed => by simp [start] at listed
  remembered := fun _ listed => by simp [start] at listed
  complete := fun _ _ _ _ found => by simp [start] at found
  kept := fun _ listed => .inl listed

/-! ### A step of a request that holds a ledger -/

variable {ref : Nat}

theorem set_found {α : Type} {list : List α} {old : α} (found : list[ref]? = some old) (new : α) (other : Nat) :
    (list.set ref new)[other]? = if other = ref then some new else list[other]? := by
  obtain ⟨inside, _⟩ := List.getElem?_eq_some_iff.mp found
  rw [getElem?_set]
  by_cases same : ref = other
  · subst same
    simp [inside]
  · rw [if_neg same, if_neg (Ne.symm same)]

def State.turn (state : State Session) (request ref : Nat) (held : Held Session) (ledger : Ledger) (stage : Stage)
    (rows issued : List (Issue Session)) : State Session where
  rows := rows
  ledgers := state.ledgers.set ref { held with ledger }
  recent := state.recent
  requests := state.requests.set request stage
  issued := issued

/-- What a request may do with its ledger, the store and the history. -/
structure Turns (state : State Session) (held : Held Session) (old : Stage) (ledger : Ledger) (stage : Stage)
    (rows issued : List (Issue Session)) : Prop where
  exclusive : Exclusive issued
  named : ∀ issue ∈ issued, issue.owner ≠ []
  stored : ∀ row ∈ rows, row ∈ issued
  keeps : ∀ row ∈ state.rows, row ∈ rows
  grown : ∀ issue ∈ state.issued, issue ∈ issued
  fresh : ∀ issue ∈ issued, issue ∈ state.issued ∨
    (issue.session = held.id ∧ ⟨issue.standIn, issue.owner⟩ ∈ ledger.unsaved)
  known : ∀ standIn owner, ledger.byStandIn.lookup standIn = some owner → ⟨held.id, standIn, owner⟩ ∈ issued
  owed : ∀ row, row ∈ ledger.unsaved ∨ row ∈ stage.unsaved → ⟨held.id, row.standIn, row.owner⟩ ∈ issued
  moved : ∀ row, row ∈ held.ledger.unsaved ∨ row ∈ old.unsaved →
    ⟨held.id, row.standIn, row.owner⟩ ∈ rows ∨ row ∈ ledger.unsaved ∨ row ∈ stage.unsaved
  loaded : ledger.loaded = true
  complete : ∀ issue ∈ issued, held.id = issue.session →
    ledger.byStandIn.lookup issue.standIn = some issue.owner

section
variable {state : State Session} {request ref : Nat} {old stage : Stage} {held : Held Session} {ledger : Ledger}
  {rows issued : List (Issue Session)}

theorem idAt_turn (found : state.ledgers[ref]? = some held) (other : Nat) :
    (state.turn request ref held ledger stage rows issued).idAt other = state.idAt other := by
  unfold State.idAt State.turn
  rw [set_found found]
  split
  · next same => rw [same, found]; rfl
  · rfl

theorem latest_turn (found : state.ledgers[ref]? = some held) (other : Nat) :
    Latest (state.turn request ref held ledger stage rows issued) other ↔ Latest state other := by
  unfold Latest
  simp only [idAt_turn found]

theorem owes_turn (there : state.requests[request]? = some old) {other : Nat} {row : PrivacyStandIn}
    (owes : ∃ stage ∈ state.requests, stage.ref? = some other ∧ row ∈ stage.unsaved) :
    (old.ref? = some other ∧ row ∈ old.unsaved) ∨
      ∃ later ∈ state.requests.set request stage, later.ref? = some other ∧ row ∈ later.unsaved := by
  obtain ⟨before, listed, held, owed⟩ := owes
  obtain ⟨index, inside, rfl⟩ := getElem_of_mem listed
  by_cases same : index = request
  · subst same
    rw [getElem?_eq_getElem inside, Option.some.injEq] at there
    subst there
    exact .inl ⟨held, owed⟩
  · refine .inr ⟨state.requests[index], ?_, held, owed⟩
    refine mem_iff_getElem?.mpr ⟨index, ?_⟩
    rw [set_found there, if_neg same, getElem?_eq_getElem inside]

theorem Sound.turn (sound : Sound state) (there : state.requests[request]? = some old) (holds : old.ref? = some ref)
    (found : state.ledgers[ref]? = some held) (same : stage.ref? = some ref ∨ stage = .done)
    (turns : Turns state held old ledger stage rows issued) :
    Sound (state.turn request ref held ledger stage rows issued) := by
  have latest : Latest state ref := sound.current old (mem_of_getElem? there) ref holds
  have ledgers : ∀ other, (state.turn request ref held ledger stage rows issued).ledgers[other]? =
      if other = ref then some { held with ledger } else state.ledgers[other]? := set_found found _
  have stages : ∀ later ∈ (state.turn request ref held ledger stage rows issued).requests,
      later ∈ state.requests ∨ later = stage := fun later listed => mem_or_eq_of_mem_set listed
  have owes : ∀ other (kept : Held Session), other ≠ ref → state.ledgers[other]? = some kept → ∀ row,
      Owes (state.turn request ref held ledger stage rows issued) other kept row → Owes state other kept row := by
    intro other kept apart _ row owes
    rcases owes with owed | ⟨later, listed, at_, owed⟩
    · exact .inl owed
    · rcases stages later listed with before | rfl
      · exact .inr ⟨later, before, at_, owed⟩
      · rcases same with same | rfl
        · rw [same] at at_
          exact absurd (some.inj at_).symm apart
        · simp [Stage.unsaved] at owed
  refine ⟨turns.exclusive, turns.named, turns.stored, ?known, ?owed, ?blank, ?settled, ?current, ?remembered,
    ?complete, ?kept⟩
  case known =>
    intro other made here standIn owner recorded
    rw [ledgers] at here
    split at here
    · cases here
      exact turns.known standIn owner recorded
    · exact turns.grown _ (sound.known other made here standIn owner recorded)
  case owed =>
    intro other made here row owed
    rw [ledgers] at here
    split at here
    · next same_ =>
      subst same_
      cases here
      rcases owed with owed | ⟨later, listed, at_, owed⟩
      · exact turns.owed row (.inl owed)
      · rcases stages later listed with before | rfl
        · exact turns.grown _ (sound.owed other held found row (.inr ⟨later, before, at_, owed⟩))
        · exact turns.owed row (.inr owed)
    · next apart => exact turns.grown _ (sound.owed other made here row (owes other made apart here row owed))
  case blank =>
    intro other made here unread
    rw [ledgers] at here
    split at here
    · cases here
      simp [turns.loaded] at unread
    · next apart =>
      obtain ⟨empty, nothing, asked⟩ := sound.blank other made here unread
      refine ⟨empty, nothing, fun later listed at_ => ?_⟩
      rcases stages later listed with before | rfl
      · exact asked later before at_
      · rcases same with same | rfl
        · rw [same] at at_
          exact absurd (some.inj at_).symm apart
        · simp [Stage.ref?] at at_
  case settled =>
    intro other made here old_
    rw [latest_turn found] at old_
    rw [ledgers] at here
    split at here
    · next same_ => exact absurd (same_ ▸ latest) old_
    · exact sound.settled other made here old_
  case current =>
    intro later listed other at_
    rw [latest_turn found]
    rcases stages later listed with before | rfl
    · exact sound.current later before other at_
    · rcases same with same | rfl
      · rw [same] at at_
        exact some.inj at_ ▸ latest
      · simp [Stage.ref?] at at_
  case remembered =>
    intro element listed
    rw [idAt_turn found, latest_turn found]
    exact sound.remembered element listed
  case complete =>
    intro issue listed other made here session last loaded
    rw [latest_turn found] at last
    rw [ledgers] at here
    split at here
    · cases here
      exact turns.complete issue listed session
    · next apart =>
      rcases turns.fresh issue listed with before | ⟨own, _⟩
      · exact sound.complete issue before other made here session last loaded
      · have sameId : state.idAt ref = state.idAt other := by
          unfold State.idAt
          rw [found, here]
          exact congrArg some (own.symm.trans session.symm)
        exact absurd (Nat.le_antisymm (latest other sameId.symm) (last ref sameId)) apart
  case kept =>
    intro issue listed
    have mine : (state.turn request ref held ledger stage rows issued).ledgers[ref]? = some { held with ledger } := by
      rw [ledgers, if_pos rfl]
    have inside : stage ∈ (state.turn request ref held ledger stage rows issued).requests := by
      refine mem_iff_getElem?.mpr ⟨request, ?_⟩
      exact (set_found there stage request).trans (if_pos rfl)
    have moved : held.id = issue.session →
        (⟨issue.standIn, issue.owner⟩ ∈ held.ledger.unsaved ∨ ⟨issue.standIn, issue.owner⟩ ∈ old.unsaved) →
        issue ∈ rows ∨ Owes (state.turn request ref held ledger stage rows issued) ref { held with ledger }
          ⟨issue.standIn, issue.owner⟩ := by
      intro session owed
      rcases turns.moved _ owed with stored | owed | owed
      · rw [session] at stored
        exact .inl stored
      · exact .inr (.inl owed)
      · rcases same with same | rfl
        · exact .inr (.inr ⟨stage, inside, same, owed⟩)
        · simp [Stage.unsaved] at owed
    rcases turns.fresh issue listed with before | ⟨own, owed⟩
    · rcases sound.kept issue before with stored | ⟨other, made, here, session, owed⟩
      · exact .inl (turns.keeps issue stored)
      · by_cases apart : other = ref
        · subst apart
          rw [found, Option.some.injEq] at here
          subst here
          have still : issue ∈ rows ∨ Owes (state.turn request other held ledger stage rows issued) other
              { held with ledger } ⟨issue.standIn, issue.owner⟩ := by
            rcases owed with owed | owed
            · exact moved session (.inl owed)
            · rcases owes_turn there owed with ⟨_, owed⟩ | owed
              · exact moved session (.inr owed)
              · exact .inr (.inr owed)
          exact still.imp_right fun owed => ⟨other, _, mine, session, owed⟩
        · have here : (state.turn request ref held ledger stage rows issued).ledgers[other]? = some made := by
            rw [ledgers, if_neg apart, here]
          refine .inr ⟨other, made, here, session, ?_⟩
          rcases owed with owed | owed
          · exact .inl owed
          · rcases owes_turn there owed with ⟨at_, _⟩ | owed
            · rw [holds] at at_
              exact absurd (some.inj at_).symm apart
            · exact .inr owed
    · exact .inr ⟨ref, _, mine, own.symm, .inl owed⟩

end

theorem Sound.read {state : State Session} (sound : Sound state) {request ref : Nat} {stage : Stage}
    {held : Held Session} (there : state.requests[request]? = some stage) (holds : stage.ref? = some ref)
    (later : stage ≠ .asked ref) (found : state.ledgers[ref]? = some held) : held.ledger.loaded = true := by
  cases read : held.ledger.loaded with
  | true => rfl
  | false =>
    obtain ⟨_, _, asked⟩ := sound.blank ref held found read
    exact absurd (asked stage (mem_of_getElem? there) holds) later

variable {state : State Session} {request : Nat} {held : Held Session}

theorem Sound.quiet (sound : Sound state) {old stage : Stage} (there : state.requests[request]? = some old)
    (holds : old.ref? = some ref) (later : old ≠ .asked ref) (found : state.ledgers[ref]? = some held)
    (same : stage.ref? = some ref ∨ stage = .done) (standIns : ledger.byStandIn = held.ledger.byStandIn)
    (read : ledger.loaded = held.ledger.loaded)
    (owing : ∀ row, row ∈ ledger.unsaved ∨ row ∈ stage.unsaved ↔ row ∈ held.ledger.unsaved ∨ row ∈ old.unsaved) :
    Sound (state.turn request ref held ledger stage state.rows state.issued) := by
  have listed : old ∈ state.requests := mem_of_getElem? there
  have loaded := sound.read there holds later found
  refine sound.turn there holds found same
    ⟨sound.exclusive, sound.named, sound.stored, fun _ row => row, fun _ issue => issue, fun _ issue => .inl issue,
      ?known, ?owed, fun row owed => .inr ((owing row).mpr owed), read.trans loaded, ?complete⟩
  case known =>
    intro standIn owner recorded
    rw [standIns] at recorded
    exact sound.known ref held found standIn owner recorded
  case owed =>
    intro row owed
    rcases (owing row).mp owed with owed | owed
    · exact sound.owed ref held found row (.inl owed)
    · exact sound.owed ref held found row (.inr ⟨old, listed, holds, owed⟩)
  case complete =>
    intro issue issued session
    rw [standIns]
    exact sound.complete issue issued ref held found session (sound.current old listed ref holds) loaded

variable {standIn owner : Text}

theorem claim_records {next : Ledger} {occurs : Bool} (granted : ledger.claim standIn owner occurs = (true, next)) :
    next.loaded = ledger.loaded ∧
      (((ledger.byStandIn.lookup standIn).getD [] = owner ∧ next.byStandIn = ledger.byStandIn ∧
          next.unsaved = ledger.unsaved) ∨
        ((ledger.byStandIn.lookup standIn).getD [] = [] ∧
          next.byStandIn = ledger.byStandIn.insert standIn owner ∧
          next.unsaved = ledger.unsaved ++ [⟨standIn, owner⟩])) := by
  unfold Ledger.claim at granted
  dsimp only at granted
  split at granted
  · next own =>
    obtain ⟨_, rfl⟩ := Prod.mk.inj granted
    exact ⟨rfl, .inl ⟨own, rfl, rfl⟩⟩
  · split at granted
    · next unissued =>
      split at granted
      · simp at granted
      · obtain ⟨_, rfl⟩ := Prod.mk.inj granted
        exact ⟨rfl, .inr ⟨unissued, rfl, rfl⟩⟩
    · simp at granted

theorem recorded_of_own {table : Table Text Text} (named : owner ≠ []) (own : (table.lookup standIn).getD [] = owner) :
    table.lookup standIn = some owner := by
  cases recorded : table.lookup standIn with
  | none =>
    rw [recorded] at own
    exact absurd own.symm named
  | some current =>
    rw [recorded] at own
    exact congrArg some own

theorem Sound.claim (sound : Sound state) {occurs : Bool} (named : owner ≠ [])
    (there : state.requests[request]? = some (.holding ref)) (found : state.ledgers[ref]? = some held)
    (granted : held.ledger.claim standIn owner occurs = (true, ledger)) :
    Sound (state.turn request ref held ledger (.holding ref) state.rows
      (state.issued ++ [⟨held.id, standIn, owner⟩])) := by
  have listed : Stage.holding ref ∈ state.requests := mem_of_getElem? there
  have latest : Latest state ref := sound.current _ listed ref rfl
  have loaded := sound.read there rfl (by simp) found
  obtain ⟨read, cases_⟩ := claim_records granted
  -- Whatever was issued of this stand-in in the conversation is known to the ledger.
  have alone : ∀ issue ∈ state.issued, issue.session = held.id → issue.standIn = standIn → issue.owner = owner := by
    intro issue issued session same
    have recorded := sound.complete issue issued ref held found session.symm latest loaded
    rw [same] at recorded
    rcases cases_ with ⟨own, _, _⟩ | ⟨unissued, _, _⟩
    · rw [recorded] at own
      exact own
    · rw [recorded] at unissued
      exact absurd unissued (sound.named issue issued)
  refine sound.turn there rfl found (.inl rfl)
    ⟨?exclusive, ?named, fun row stored => mem_append_left _ (sound.stored row stored), fun _ row => row,
      fun _ issue => mem_append_left _ issue, ?fresh, ?known, ?owed, ?moved, read.trans loaded, ?complete⟩
  case exclusive =>
    intro first here second there session same
    rcases mem_append.mp here with here | here <;> rcases mem_append.mp there with there | there
    · exact sound.exclusive first here second there session same
    · obtain rfl := mem_singleton.mp there
      exact alone first here session same
    · obtain rfl := mem_singleton.mp here
      exact (alone second there session.symm same.symm).symm
    · rw [mem_singleton.mp here, mem_singleton.mp there]
  case named =>
    intro issue issued
    rcases mem_append.mp issued with before | new
    · exact sound.named issue before
    · rw [mem_singleton.mp new]
      exact named
  case fresh =>
    intro issue issued
    rcases mem_append.mp issued with before | new
    · exact .inl before
    · obtain rfl := mem_singleton.mp new
      rcases cases_ with ⟨own, _, _⟩ | ⟨_, _, unsaved⟩
      · exact .inl (sound.known ref held found standIn owner (recorded_of_own named own))
      · exact .inr ⟨rfl, by simp [unsaved]⟩
  case known =>
    intro other current recorded
    rcases cases_ with ⟨_, standIns, _⟩ | ⟨_, standIns, _⟩
    · rw [standIns] at recorded
      exact mem_append_left _ (sound.known ref held found other current recorded)
    · rw [standIns, lookup_insert_if] at recorded
      split at recorded
      · next same =>
        rw [same, ← some.inj recorded]
        simp
      · exact mem_append_left _ (sound.known ref held found other current recorded)
  case owed =>
    intro row owed
    have before : ∀ row, row ∈ held.ledger.unsaved → (⟨held.id, row.standIn, row.owner⟩ : Issue Session) ∈
        state.issued ++ [⟨held.id, standIn, owner⟩] :=
      fun row owed => mem_append_left _ (sound.owed ref held found row (.inl owed))
    have owed : row ∈ ledger.unsaved := by simpa [Stage.unsaved] using owed
    rcases cases_ with ⟨_, _, unsaved⟩ | ⟨_, _, unsaved⟩
    · rw [unsaved] at owed
      exact before row owed
    · rw [unsaved] at owed
      rcases mem_append.mp owed with owed | owed
      · exact before row owed
      · rw [mem_singleton.mp owed]
        simp
  case moved =>
    intro row owed
    have owed : row ∈ held.ledger.unsaved := by simpa [Stage.unsaved] using owed
    refine .inr (.inl ?_)
    rcases cases_ with ⟨_, _, unsaved⟩ | ⟨_, _, unsaved⟩
    · rw [unsaved]
      exact owed
    · rw [unsaved]
      exact mem_append_left _ owed
  case complete =>
    intro issue issued session
    rcases mem_append.mp issued with before | new
    · have recorded := sound.complete issue before ref held found session latest loaded
      rcases cases_ with ⟨_, standIns, _⟩ | ⟨_, standIns, _⟩
      · rw [standIns, recorded]
      · rw [standIns, lookup_insert_if]
        split
        · next same => rw [alone issue before session.symm same]
        · exact recorded
    · obtain rfl := mem_singleton.mp new
      rcases cases_ with ⟨own, standIns, _⟩ | ⟨_, standIns, _⟩
      · rw [standIns]
        exact recorded_of_own named own
      · rw [standIns]
        simp

section
variable [DecidableEq Session]

theorem mem_privacyStandIns {session : Session} {standIn : PrivacyStandIn} :
    standIn ∈ state.privacyStandIns session ↔ ⟨session, standIn.standIn, standIn.owner⟩ ∈ state.rows := by
  constructor
  · intro listed
    obtain ⟨row, kept, rfl⟩ := mem_map.mp listed
    obtain ⟨stored, own⟩ := mem_filter.mp kept
    obtain rfl := of_decide_eq_true own
    exact stored
  · intro listed
    exact mem_map.mpr ⟨_, mem_filter.mpr ⟨listed, by simp⟩, rfl⟩

theorem Sound.load (sound : Sound state) (there : state.requests[request]? = some (.asked ref))
    (found : state.ledgers[ref]? = some held) :
    Sound (state.turn request ref held (held.ledger.load (state.privacyStandIns held.id)) (.holding ref) state.rows
      state.issued) := by
  have listed : Stage.asked ref ∈ state.requests := mem_of_getElem? there
  have latest : Latest state ref := sound.current _ listed ref rfl
  refine sound.turn there rfl found (.inl rfl)
    ⟨sound.exclusive, sound.named, sound.stored, fun _ row => row, fun _ issue => issue, fun _ issue => .inl issue,
      ?known, ?owed, ?moved, load_loaded _ _, ?complete⟩
  case known =>
    intro standIn owner recorded
    cases read : held.ledger.loaded with
    | true =>
      rw [load_again read] at recorded
      exact sound.known ref held found standIn owner recorded
    | false =>
      have origin := (load_blank read (sound.blank ref held found read).1 _).1 standIn owner recorded
      exact sound.stored _ (mem_privacyStandIns.mp origin)
  case owed =>
    intro row owed
    rw [load_unsaved] at owed
    exact sound.owed ref held found row (.inl (by simpa [Stage.unsaved] using owed))
  case moved =>
    intro row owed
    rw [load_unsaved]
    exact .inr (.inl (by simpa [Stage.unsaved] using owed))
  case complete =>
    intro issue issued session
    cases read : held.ledger.loaded with
    | true =>
      rw [load_again read]
      exact sound.complete issue issued ref held found session latest read
    | false =>
      obtain ⟨empty, nothing, asked⟩ := sound.blank ref held found read
      have stored : issue ∈ state.rows := by
        rcases sound.kept issue issued with stored | ⟨other, made, here, own, owes⟩
        · exact stored
        · have newest : Latest state other := by
            rcases owes with owed | ⟨stage, inside, at_, _⟩
            · refine Classical.byContradiction fun old => ?_
              rw [sound.settled other made here old] at owed
              simp at owed
            · exact sound.current stage inside other at_
          have sameId : state.idAt other = state.idAt ref := by
            unfold State.idAt
            rw [found, here]
            exact congrArg some (own.trans session.symm)
          obtain rfl := Nat.le_antisymm (latest other sameId) (newest ref sameId.symm)
          rw [found, Option.some.injEq] at here
          subst here
          rcases owes with owed | ⟨stage, inside, at_, owed⟩
          · simp [nothing] at owed
          · simp [asked stage inside at_, Stage.unsaved] at owed
      refine (load_blank read empty _).2 ?_ ⟨issue.standIn, issue.owner⟩ ?_
      · intro first here second there same
        exact sound.exclusive _ (sound.stored _ (mem_privacyStandIns.mp here)) _
          (sound.stored _ (mem_privacyStandIns.mp there)) rfl same
      · rw [session]
        exact mem_privacyStandIns.mpr stored

theorem Sound.remember (sound : Sound state) {unsaved : List PrivacyStandIn}
    (there : state.requests[request]? = some (.saving ref unsaved)) (found : state.ledgers[ref]? = some held) :
    Sound (state.turn request ref held held.ledger .done (rememberPrivacyStandIns held.id state.rows unsaved)
      state.issued) := by
  have listed : Stage.saving ref unsaved ∈ state.requests := mem_of_getElem? there
  have loaded := sound.read there rfl (by simp) found
  obtain ⟨kept, origin, covered⟩ := remember_rows held.id state.rows unsaved
  have owed : ∀ row ∈ unsaved, (⟨held.id, row.standIn, row.owner⟩ : Issue Session) ∈ state.issued :=
    fun row owed => sound.owed ref held found row (.inr ⟨_, listed, rfl, owed⟩)
  have stored : ∀ row ∈ rememberPrivacyStandIns held.id state.rows unsaved, row ∈ state.issued := by
    intro row there
    rcases origin row there with before | ⟨standIn, new, rfl⟩
    · exact sound.stored row before
    · exact owed standIn new
  refine sound.turn there rfl found (.inr rfl)
    ⟨sound.exclusive, sound.named, stored, kept, fun _ issue => issue, fun _ issue => .inl issue,
      sound.known ref held found, ?owed, ?moved, loaded, ?complete⟩
  case owed =>
    intro row owed
    exact sound.owed ref held found row (.inl (by simpa [Stage.unsaved] using owed))
  case moved =>
    rintro row (still | taken)
    · exact .inr (.inl still)
    · -- A row of the stand-in that was there already has the same owner.
      obtain ⟨stand, inside, session, same⟩ := covered row taken
      have owner : stand.owner = row.owner :=
        sound.exclusive stand (stored stand inside) _ (owed row taken) session same
      have whole : stand = ⟨held.id, row.standIn, row.owner⟩ := by rw [← session, ← same, ← owner]
      exact .inl (whole ▸ inside)
  case complete =>
    intro issue issued session
    exact sound.complete issue issued ref held found session (sound.current _ listed ref rfl) loaded

end

/-! ### A request that asks for a ledger -/

theorem Latest.made (latest : Latest state ref) : ∃ held, state.ledgers[ref]? = some held := by
  refine Option.ne_none_iff_exists'.mp fun missing => ?_
  have outside : state.ledgers[ref + 1]? = none := by
    rw [List.getElem?_eq_none_iff] at missing ⊢
    omega
  have same : state.idAt (ref + 1) = state.idAt ref := by
    unfold State.idAt
    rw [missing, outside]
  exact absurd (latest (ref + 1) same) (by omega)

theorem Sound.asked {state : State Session} (sound : Sound state) {ref : Nat} (latest : Latest state ref)
    {recent : List (Session × Nat)}
    (remembered : ∀ element ∈ recent, state.idAt element.2 = some element.1 ∧ Latest state element.2) :
    Sound { state with recent := recent, requests := state.requests ++ [.asked ref] } := by
  have stages : ∀ stage ∈ state.requests ++ [.asked ref], stage ∈ state.requests ∨ stage = .asked ref := by
    intro stage listed
    simpa using listed
  have owes : ∀ other held row,
      Owes { state with recent := recent, requests := state.requests ++ [.asked ref] } other held row →
        Owes state other held row := by
    rintro other held row (owed | ⟨stage, listed, at_, owed⟩)
    · exact .inl owed
    · rcases stages stage listed with before | rfl
      · exact .inr ⟨stage, before, at_, owed⟩
      · simp [Stage.unsaved] at owed
  refine ⟨sound.exclusive, sound.named, sound.stored, sound.known, ?owed, ?blank, sound.settled, ?current, remembered,
    sound.complete, ?kept⟩
  case owed =>
    intro other held found row owed
    exact sound.owed other held found row (owes other held row owed)
  case blank =>
    intro other held found read
    obtain ⟨empty, nothing, asked⟩ := sound.blank other held found read
    refine ⟨empty, nothing, fun stage listed at_ => ?_⟩
    rcases stages stage listed with before | rfl
    · exact asked stage before at_
    · rw [some.inj at_]
  case current =>
    intro stage listed other at_
    rcases stages stage listed with before | rfl
    · exact sound.current stage before other at_
    · exact some.inj at_ ▸ latest
  case kept =>
    intro issue issued
    refine (sound.kept issue issued).imp_right ?_
    rintro ⟨other, held, found, session, owed⟩
    refine ⟨other, held, found, session, owed.imp_right ?_⟩
    rintro ⟨stage, listed, at_, owed⟩
    exact ⟨stage, mem_append_left _ listed, at_, owed⟩

/-- The state after a ledger was made for a conversation. -/
def State.make (state : State Session) (session : Session) : State Session :=
  { state with ledgers := state.ledgers ++ [⟨session, .fresh⟩] }

theorem idAt_make (state : State Session) (session : Session) (ref : Nat) :
    (state.make session).idAt ref = if ref = state.ledgers.length then some session else state.idAt ref := by
  unfold State.idAt State.make
  rw [getElem?_append]
  split
  · next inside => rw [if_neg (by omega)]
  · next outside =>
    split
    · next last => simp [last]
    · next beyond =>
      have far : ref - state.ledgers.length ≠ 0 := by omega
      rw [getElem?_singleton, if_neg far, getElem?_eq_none (Nat.le_of_not_lt outside)]

variable {session : Session}

theorem latest_make (latest : Latest state ref) (other : state.idAt ref ≠ some session) :
    Latest (state.make session) ref := by
  obtain ⟨held, found⟩ := latest.made
  have inside : ref < state.ledgers.length := (List.getElem?_eq_some_iff.mp found).1
  intro later same
  rw [idAt_make, idAt_make, if_neg (Nat.ne_of_lt inside)] at same
  split at same
  · exact absurd same.symm other
  · exact latest later same

theorem latest_of_make (inside : ref < state.ledgers.length) (latest : Latest (state.make session) ref) :
    Latest state ref ∧ state.idAt ref ≠ some session := by
  refine ⟨fun later same => ?_, fun same => ?_⟩
  · by_cases here : later = state.ledgers.length
    · have missing : state.idAt later = none := by simp [State.idAt, here]
      rw [missing] at same
      simp [State.idAt, getElem?_eq_getElem inside] at same
    · refine latest later ?_
      rw [idAt_make, idAt_make, if_neg here, if_neg (Nat.ne_of_lt inside), same]
  · have last := latest state.ledgers.length (by
      rw [idAt_make, idAt_make, if_pos rfl, if_neg (Nat.ne_of_lt inside), same])
    omega

theorem made_cases (found : (state.make session).ledgers[ref]? = some held) :
    (ref < state.ledgers.length ∧ state.ledgers[ref]? = some held) ∨
      (ref = state.ledgers.length ∧ held = ⟨session, .fresh⟩) := by
  unfold State.make at found
  rw [getElem?_append] at found
  split at found
  · next inside => exact .inl ⟨inside, found⟩
  · next outside =>
    rw [getElem?_singleton] at found
    split at found
    · next first => exact .inr ⟨by omega, (some.inj found).symm⟩
    · cases found

theorem Sound.make (sound : Sound state)
    (saved : ∀ held ∈ state.ledgers, held.id = session → held.ledger.unsaved = [])
    (left : ∀ stage ∈ state.requests, (stage.ref?.bind (state.ledgers[·]?)).map (·.id) ≠ some session)
    (forgotten : ∀ element ∈ state.recent, element.1 ≠ session) : Sound (state.make session) := by
  have elsewhere : ∀ stage ∈ state.requests, ∀ ref, stage.ref? = some ref → state.idAt ref ≠ some session := by
    intro stage listed ref at_ same
    refine left stage listed ?_
    rw [at_]
    exact same
  -- No request is at the new ledger.
  have unused : ∀ stage ∈ state.requests, stage.ref? ≠ some state.ledgers.length := by
    intro stage listed at_
    obtain ⟨held, found⟩ := (sound.current stage listed _ at_).made
    simp at found
  have blankNew : ∀ row, ¬ Owes (state.make session) state.ledgers.length ⟨session, .fresh⟩ row := by
    rintro row (owed | ⟨stage, listed, at_, _⟩)
    · simp [Ledger.fresh] at owed
    · exact unused stage listed at_
  refine ⟨sound.exclusive, sound.named, sound.stored, ?known, ?owed, ?blank, ?settled, ?current, ?remembered,
    ?complete, ?kept⟩
  case known =>
    intro ref held found standIn owner recorded
    rcases made_cases found with ⟨_, found⟩ | ⟨_, rfl⟩
    · exact sound.known ref held found standIn owner recorded
    · simp [Ledger.fresh] at recorded
  case owed =>
    intro ref held found row owed
    rcases made_cases found with ⟨_, found⟩ | ⟨rfl, rfl⟩
    · exact sound.owed ref held found row owed
    · exact absurd owed (blankNew row)
  case blank =>
    intro ref held found read
    rcases made_cases found with ⟨_, found⟩ | ⟨rfl, rfl⟩
    · exact sound.blank ref held found read
    · exact ⟨rfl, rfl, fun stage listed at_ => absurd at_ (unused stage listed)⟩
  case settled =>
    intro ref held found old
    rcases made_cases found with ⟨_, found⟩ | ⟨rfl, rfl⟩
    · by_cases own : held.id = session
      · exact saved held (mem_of_getElem? found) own
      · refine sound.settled ref held found fun latest => old (latest_make latest fun same => own ?_)
        simpa [State.idAt, found] using same
    · rfl
  case current =>
    intro stage listed ref at_
    exact latest_make (sound.current stage listed ref at_) (elsewhere stage listed ref at_)
  case remembered =>
    intro element listed
    obtain ⟨own, latest⟩ := sound.remembered element listed
    obtain ⟨held, found⟩ := latest.made
    have inside : element.2 < state.ledgers.length := (List.getElem?_eq_some_iff.mp found).1
    have other : state.idAt element.2 ≠ some session := by
      rw [own]
      exact fun same => forgotten element listed (some.inj same)
    refine ⟨?_, latest_make latest other⟩
    rw [idAt_make, if_neg (Nat.ne_of_lt inside), own]
  case complete =>
    intro issue issued ref held found own latest read
    rcases made_cases found with ⟨inside, found⟩ | ⟨rfl, rfl⟩
    · exact sound.complete issue issued ref held found own (latest_of_make inside latest).1 read
    · simp [Ledger.fresh] at read
  case kept =>
    intro issue issued
    refine (sound.kept issue issued).imp_right ?_
    rintro ⟨ref, held, found, own, owed⟩
    refine ⟨ref, held, ?_, own, owed⟩
    unfold State.make
    rw [getElem?_append_left (List.getElem?_eq_some_iff.mp found).1, found]

section
variable [DecidableEq Session]

theorem Sound.entry (sound : Sound state) (calm : Calm state (.entry session)) : Sound (state.entry session) := by
  unfold State.entry
  split
  · next element found =>
    have listed := mem_of_find?_eq_some found
    refine sound.asked (sound.remembered element listed).2 fun other recent => ?_
    rcases mem_cons.mp recent with rfl | before
    · exact sound.remembered other listed
    · exact sound.remembered other (mem_of_mem_erase before)
  · next missing =>
    obtain ⟨saved, left⟩ := calm missing
    have forgotten : ∀ element ∈ state.recent, element.1 ≠ session := by
      intro element listed own
      exact find?_eq_none.mp missing element listed (decide_eq_true own)
    have made := sound.make saved left forgotten
    have own : (state.make session).idAt state.ledgers.length = some session := by rw [idAt_make, if_pos rfl]
    have latest : Latest (state.make session) state.ledgers.length := by
      intro other same
      rw [own, idAt_make] at same
      split at same
      · next last => exact Nat.le_of_eq last
      · unfold State.idAt at same
        obtain ⟨held, found, _⟩ := map_eq_some_iff.mp same
        exact Nat.le_of_lt (List.getElem?_eq_some_iff.mp found).1
    refine made.asked latest fun element recent => ?_
    have listed : element ∈ (session, state.ledgers.length) :: state.recent := by
      split at recent
      · exact dropLast_subset _ recent
      · exact recent
    rcases mem_cons.mp listed with rfl | before
    · exact ⟨own, latest⟩
    · exact made.remembered element before

theorem set_same {α : Type} {list : List α} {old : α} (found : list[ref]? = some old) : list.set ref old = list := by
  refine ext_getElem? fun other => ?_
  rw [set_found found]
  split
  · next same => rw [same, found]
  · rfl

theorem Sound.step {next : State Session} {act : Act Session} (sound : Sound state) (calm : Calm state act)
    (stepped : step state act = some next) : Sound next := by
  cases act with
  | entry session =>
    cases stepped
    exact sound.entry calm
  | load request =>
    simp only [StandInLedgers.step] at stepped
    split at stepped
    · next ref there =>
      obtain ⟨held, found, rfl⟩ := map_eq_some_iff.mp stepped
      exact sound.load there found
    · cases stepped
  | claim request standIn owner occurs =>
    simp only [StandInLedgers.step] at stepped
    split at stepped
    · next ref there =>
      split at stepped
      · cases stepped
      · next named =>
        obtain ⟨held, found, rfl⟩ := map_eq_some_iff.mp stepped
        split
        · next ledger granted =>
          have claimed := sound.claim named there found granted
          rw [State.turn, set_same there] at claimed
          exact claimed
        · exact sound
    · cases stepped
  | takeUnsaved request =>
    simp only [StandInLedgers.step] at stepped
    split at stepped
    · next ref there =>
      obtain ⟨held, found, rfl⟩ := map_eq_some_iff.mp stepped
      have taken : Sound (state.turn request ref held { held.ledger with unsaved := [] }
          (if held.ledger.unsaved = [] then .done else .saving ref held.ledger.unsaved) state.rows state.issued) := by
        refine sound.quiet there rfl (by simp) found ?_ rfl rfl fun row => ?_
        · split
          · exact .inr rfl
          · exact .inl rfl
        · split
          · next nothing => simp [nothing, Stage.unsaved]
          · simp [Stage.unsaved]
      exact taken
    · cases stepped
  | remember request stored =>
    simp only [StandInLedgers.step] at stepped
    split at stepped
    · next ref unsaved there =>
      obtain ⟨held, found, rfl⟩ := map_eq_some_iff.mp stepped
      split
      · have remembered := sound.remember there found
        rw [State.turn, set_same found] at remembered
        exact remembered
      · have failed : Sound (state.turn request ref held held.ledger (.failed ref unsaved) state.rows state.issued) :=
          sound.quiet there rfl (by simp) found (.inl rfl) rfl rfl fun _ => Iff.rfl
        rw [State.turn, set_same found] at failed
        exact failed
    · cases stepped
  | requeue request =>
    simp only [StandInLedgers.step] at stepped
    split at stepped
    · next ref unsaved there =>
      obtain ⟨held, found, rfl⟩ := map_eq_some_iff.mp stepped
      have queued : Sound (state.turn request ref held { held.ledger with unsaved := unsaved ++ held.ledger.unsaved }
          .done state.rows state.issued) :=
        sound.quiet there rfl (by simp) found (.inr rfl) rfl rfl fun row => by simp [Stage.unsaved, or_comm]
      exact queued
    · cases stepped
  | leave request =>
    simp only [StandInLedgers.step] at stepped
    split at stepped
    · next ref there =>
      obtain ⟨held, found⟩ := (sound.current _ (mem_of_getElem? there) ref rfl).made
      cases stepped
      have left : Sound (state.turn request ref held held.ledger .done state.rows state.issued) :=
        sound.quiet there rfl (by simp) found (.inr rfl) rfl rfl fun row => by simp [Stage.unsaved]
      rw [State.turn, set_same found] at left
      exact left
    · cases stepped

/-- In every run in which ledgers are made anew only in calm, no stand-in of a conversation goes to two owners. -/
theorem exclusive_kept (stored : Stored Session) (state : State Session)
    (reached : Reaches step Calm (start stored) state) : Exclusive state.issued :=
  (reached.invariant Sound (sound_start stored) fun _ _ _ sound calm stepped => sound.step calm stepped).exclusive

instance (state : State Session) : (act : Act Session) → Decidable (Calm state act)
  | .entry _ => inferInstanceAs (Decidable (_ → _ ∧ _))
  | .load _ | .claim .. | .takeUnsaved _ | .remember .. | .requeue _ | .leave _ => inferInstanceAs (Decidable True)

end

def noneStored : Stored Nat where
  rows := []
  exclusive := fun _ listed => by cases listed
  named := fun _ listed => by cases listed

/-- Two requests share a ledger: a stand-in of the first one is refused to the second, and a save fails once. -/
def sharing : List (Act Nat) :=
  [.entry 0, .load 0, .entry 0, .load 1, .claim 0 "203.0.113.5".toList "first".toList false,
    .claim 1 "203.0.113.5".toList "second".toList false, .claim 1 "203.0.113.6".toList "second".toList false,
    .takeUnsaved 0, .remember 0 false, .requeue 0, .takeUnsaved 1, .remember 1 true]

theorem sharing_exclusive : ∃ state, Reaches step Calm (start noneStored) state ∧
    state.issued = [⟨0, "203.0.113.5".toList, "first".toList⟩, ⟨0, "203.0.113.6".toList, "second".toList⟩] ∧
    Exclusive state.issued := by
  have issued : (runActs (fun state act => if decide (Calm state act) then step state act else none)
      (start noneStored) sharing).map (·.issued) =
      some [⟨0, "203.0.113.5".toList, "first".toList⟩, ⟨0, "203.0.113.6".toList, "second".toList⟩] := by
    decide +kernel
  obtain ⟨state, ran, isIssued⟩ := map_eq_some_iff.mp issued
  have reached : Reaches step Calm (start noneStored) state :=
    (reaches_of_runActs .start ran).mono fun _ _ => of_decide_eq_true
  exact ⟨state, reached, isIssued, exclusive_kept noneStored state reached⟩

/-- A request holds the ledger of a conversation, and others have come since. -/
def crowded (others : Nat) : State Nat where
  rows := []
  ledgers := ⟨0, Ledger.fresh.load []⟩ :: (List.range others).map fun other => ⟨other + 1, .fresh⟩
  recent := ((List.range (others + 1)).map fun session => (session, session)).reverse
  requests := .holding 0 :: (List.range others).map fun other => .asked (other + 1)
  issued := []

theorem crowded_entry {others : Nat} (room : others + 2 ≤ maxLedgerConversations) :
    step (crowded others) (.entry (others + 1)) = some (crowded (others + 1)) := by
  have missing : (crowded others).recent.find? (·.1 = others + 1) = none := by
    simp only [crowded, find?_eq_none, mem_reverse, mem_map, mem_range, decide_eq_true_eq]
    rintro element ⟨session, old, rfl⟩ same
    omega
  have size : (crowded others).ledgers.length = others + 1 := by simp [crowded]
  have held : ((others + 1, others + 1) :: (crowded others).recent).length = others + 2 := by simp [crowded]
  simp only [step, State.entry, missing, size, held, if_neg (Nat.not_lt.mpr room)]
  simp [crowded, range_succ]

theorem crowded_reached (others : Nat) (room : others + 1 ≤ maxLedgerConversations) :
    Reaches step (fun _ _ => True) (start noneStored) (crowded others) := by
  induction others with
  | zero =>
    have loaded : runActs step (start noneStored) [.entry 0, .load 0] = some (crowded 0) := rfl
    exact Reaches.start.runActs (fun _ _ => trivial) loaded
  | succ others ih => exact .step (ih (by omega)) trivial (crowded_entry room)

/-- The ledger of a conversation leaves the memory while a request holds it, and another one is made. -/
theorem evicted_issues_twice : ¬ ∀ (stored : Stored Nat) (state : State Nat),
    Reaches step (fun _ _ => True) (start stored) state → Exclusive state.issued := by
  intro exclusive
  have issued : (runActs step (crowded 1023) [.entry 1024, .entry 0, .load 1025,
      .claim 0 "203.0.113.5".toList "first".toList false,
      .claim 1025 "203.0.113.5".toList "second".toList false]).map (·.issued) =
      some [⟨0, "203.0.113.5".toList, "first".toList⟩, ⟨0, "203.0.113.5".toList, "second".toList⟩] := by
    decide +kernel
  obtain ⟨state, ran, isIssued⟩ := map_eq_some_iff.mp issued
  have reached := (crowded_reached 1023 (by decide)).runActs (fun _ _ => trivial) ran
  have same := exclusive noneStored state reached
  rw [isIssued] at same
  have equal : "first".toList = "second".toList :=
    same _ mem_cons_self _ (mem_cons_of_mem _ mem_cons_self) rfl rfl
  exact absurd equal (by decide)

end AstrLink.StandInLedgers
