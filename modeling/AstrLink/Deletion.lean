import AstrLink.WholeRun

/-!
One device deletes an entity, another edits it, and both sync in some order. `Stage` follows the entity
through any order of syncs, and `later_wins_iff` says for which the later change is what every side shows.
-/
namespace AstrLink.Deletion
open Package Merge Scope LocalStore Device AstrLink.System WholeRun

inductive Party where
  | deleter
  | editor
deriving DecidableEq

inductive Stage where
  | apart
  | published
  /-- The deleter took the edit back out of the remote. -/
  | withdrawn
  | present
  | absent
deriving DecidableEq

/-- What a sync does; `stands` is whether the deletion is no later than the edit. -/
def Stage.next (stands : Bool) : Stage → Party → Stage
  | .apart, .editor => .published
  | .published, .deleter => if stands then .present else .withdrawn
  | .withdrawn, .editor => .absent
  | stage, _ => stage

/-- Where an order of syncs leads from each stage. -/
private theorem stage_after (stands : Bool) (order : List Party) :
    (order.foldl (Stage.next stands) .present = .present) ∧ (order.foldl (Stage.next stands) .absent = .absent) ∧
    (order.foldl (Stage.next stands) .withdrawn ≠ .present) ∧
    (order.foldl (Stage.next stands) .withdrawn = .absent ↔ [Party.editor].Sublist order) ∧
    (order.foldl (Stage.next stands) .published = .present ↔ stands = true ∧ [Party.deleter].Sublist order) ∧
    (order.foldl (Stage.next stands) .published = .absent ↔ stands = false ∧ [Party.deleter, .editor].Sublist order) ∧
    (order.foldl (Stage.next stands) .apart = .present ↔ stands = true ∧ [Party.editor, .deleter].Sublist order) ∧
    (order.foldl (Stage.next stands) .apart = .absent ↔
      stands = false ∧ [Party.editor, .deleter, .editor].Sublist order) := by
  induction order with
  | nil => simp
  | cons head rest ih =>
    obtain ⟨present, absent, notPresent, withdrawn, publishedPresent, publishedAbsent, apartPresent, apartAbsent⟩ := ih
    have again : ∀ {party : Party} {tail : List Party}, (party :: tail).Sublist rest → tail.Sublist rest :=
      fun contained => (List.sublist_cons_self _ _).trans contained
    have last : ∀ {party other : Party}, [party, other].Sublist rest → other ∈ rest :=
      fun contained => List.singleton_sublist.mp (again contained)
    cases head <;> cases stands <;> simp_all [Stage.next, List.sublist_cons_iff]
    · exact last
    · exact again
    · exact last

/-! ### What a stage means -/

variable {side : Option Entity}

section
variable (formats : Formats) {J : Type} [DecidableEq J] (unmarshal : List UInt8 → Option J)
variable (key : Key) (edit : Entity) (deletedAt : Nat)

def HoldsEdit (device : SyncDevice) : Prop :=
  Same unmarshal (some edit) ((baseOf device).get key.1 key.2) ∧ Agree unmarshal (held formats device.store key) (some edit)

def Edited (device : SyncDevice) : Prop :=
  ∀ revision, rowEntity formats device.store revision key = some (some { edit with revision := revision })

/-- The deleter's base shows neither its deletion nor the edit. -/
def Behind (device : SyncDevice) : Prop :=
  Buried device key deletedAt ∧
    ¬ Same unmarshal ((baseOf device).get key.1 key.2) (some (deletedEntity deletedAt)) ∧
    ¬ Same unmarshal ((baseOf device).get key.1 key.2) (some edit)

/-- What each side holds at a stage. -/
def Represents (state : State Party) : Stage → Prop
  | .apart =>
    Behind unmarshal key edit deletedAt (state.devices .deleter) ∧
      Same unmarshal ((baseOf (state.devices .deleter)).get key.1 key.2) (state.remote.holds key) ∧
      Edited formats key edit (state.devices .editor) ∧
      ¬ Same unmarshal ((baseOf (state.devices .editor)).get key.1 key.2) (some edit) ∧
      (Same unmarshal ((baseOf (state.devices .editor)).get key.1 key.2) (state.remote.holds key) ∨
        state.remote.holds key = none)
  | .published =>
    Behind unmarshal key edit deletedAt (state.devices .deleter) ∧ HoldsEdit formats unmarshal key edit (state.devices .editor) ∧
      Same unmarshal (some edit) (state.remote.holds key) ∧ eventTime (state.remote.holds key) = edit.updatedAt
  | .withdrawn =>
    Buried (state.devices .deleter) key deletedAt ∧ (baseOf (state.devices .deleter)).get key.1 key.2 = none ∧
      HoldsEdit formats unmarshal key edit (state.devices .editor) ∧ state.remote.holds key = none
  | .present =>
    (∀ party, HoldsEdit formats unmarshal key edit (state.devices party)) ∧
      Same unmarshal (some edit) (state.remote.holds key)
  | .absent =>
    (∀ party, (baseOf (state.devices party)).get key.1 key.2 = none ∧
      Agree unmarshal (held formats (state.devices party).store key) none) ∧ state.remote.holds key = none

/-- Every side shows the edit. -/
def Everywhere (state : State Party) : Prop :=
  Agree unmarshal (state.remote.holds key) (some edit) ∧
    ∀ party, Agree unmarshal (held formats (state.devices party).store key) (some edit)

/-- No side shows the entity. -/
def Nowhere (state : State Party) : Prop :=
  live (state.remote.holds key) = none ∧ ∀ party, live (held formats (state.devices party).store key) = none

variable {formats unmarshal key edit deletedAt} {state : State Party} {stage : Stage}

theorem agree_none_iff : Agree unmarshal side none ↔ live side = none := by
  cases shown : live side <;> simp [Agree, shown, Same, differs]

theorem same_of_agree (alive : edit.deleted = false) (agrees : Agree unmarshal (some edit) side) :
    Same unmarshal (some edit) side := by
  have shows : live (some edit) = some edit := live_eq_some.mpr ⟨rfl, alive⟩
  cases side with
  | none => simp [Agree, shows, Same, differs] at agrees
  | some entity =>
    cases marked : entity.deleted with
    | true =>
      have hidden : live (some entity) = none := live_eq_none.mpr (fun other same => Option.some.inj same ▸ marked)
      rw [Agree, shows, hidden] at agrees
      simp [Same, differs] at agrees
    | false =>
      have other : live (some entity) = some entity := live_eq_some.mpr ⟨rfl, marked⟩
      rw [Agree, shows, other] at agrees
      exact agrees

theorem shows_edited {device : SyncDevice} (edited : Edited formats key edit device)
    (selected : inScope device.scope key.1 = true) (snapshotAt : Nat) :
    shows formats device snapshotAt key = some { edit with revision := (baseOf device).revision } := by
  rw [shows, shown, if_pos selected, edited, Option.join_some, Option.some_or, Option.some_or]

theorem same_revision (revision : Int) : Same unmarshal (some { edit with revision := revision }) (some edit) :=
  (same_some_iff unmarshal _ _).mpr ⟨rfl, rfl, jsonEqual_refl unmarshal _⟩

theorem held_edited {device : SyncDevice} (edited : Edited formats key edit device)
    (selected : inScope device.scope key.1 = true) : Agree unmarshal (held formats device.store key) (some edit) := by
  have readable : (rowEntity formats device.store (baseOf device).revision key).isSome = true := by simp [edited _]
  have shown : Agree unmarshal (shows formats device 0 key) (held formats device.store key) :=
    shown_agrees_held formats unmarshal selected readable
  rw [shows_edited edited selected] at shown
  exact agree_trans unmarshal (agree_symm unmarshal shown) (Same.agree unmarshal (same_revision _))

theorem represents_settled (alive : edit.deleted = false)
    (selected : ∀ party, inScope (state.devices party).scope key.1 = true)
    (represents : Represents formats unmarshal key edit deletedAt state stage) :
    (Everywhere formats unmarshal key edit state ↔ stage = .present) ∧ (Nowhere formats key state ↔ stage = .absent) := by
  have shows : live (some edit) = some edit := live_eq_some.mpr ⟨rfl, alive⟩
  have apart : ∀ {side : Option Entity}, Agree unmarshal side (some edit) → live side ≠ none := by
    intro side agrees hidden
    simp [Agree, shows, hidden, Same, differs] at agrees
  have gone : Buried (state.devices .deleter) key deletedAt → ¬ Everywhere formats unmarshal key edit state := by
    intro buried everywhere
    refine apart (everywhere.2 .deleter) ?_
    simp [held, buried.1]
  have there : ∀ party, Agree unmarshal (held formats (state.devices party).store key) (some edit) →
      ¬ Nowhere formats key state := fun party holds nowhere => apart holds (nowhere.2 party)
  cases stage with
  | apart =>
    obtain ⟨behind, _, edited, _⟩ := represents
    exact ⟨iff_of_false (gone behind.1) (by decide),
      iff_of_false (there .editor (held_edited edited (selected .editor))) (by decide)⟩
  | published =>
    obtain ⟨behind, holds, _⟩ := represents
    exact ⟨iff_of_false (gone behind.1) (by decide), iff_of_false (there .editor holds.2) (by decide)⟩
  | withdrawn =>
    obtain ⟨buried, _, holds, _⟩ := represents
    exact ⟨iff_of_false (gone buried) (by decide), iff_of_false (there .editor holds.2) (by decide)⟩
  | present =>
    obtain ⟨holds, remote⟩ := represents
    refine ⟨iff_of_true ⟨agree_symm unmarshal (Same.agree unmarshal remote), fun party => (holds party).2⟩ rfl,
      iff_of_false (there .editor (holds .editor).2) (by decide)⟩
  | absent =>
    obtain ⟨empty, remote⟩ := represents
    refine ⟨iff_of_false (fun everywhere => apart everywhere.1 ?_) (by decide), iff_of_true ⟨?_, fun party => ?_⟩ rfl⟩
    · rw [remote, live_none]
    · rw [remote, live_none]
    · exact (agree_none_iff.mp (empty party).2)

/-! ### One sync -/

/-- The sync can store the entity as merged, and the deletion is remembered until the edit is taken. -/
def Proper (formats : Formats) (unmarshal : List UInt8 → Option J) (key : Key) (edit : Entity) (deletedAt : Nat)
    (state : State Party) (sync : Sync Party) : Prop :=
  sync.Keeps formats unmarshal state key ∧
    match sync.actor with
    | .deleter => deletedAt ≤ sync.snapshotAt ∧ sync.snapshotAt ≤ deletedAt + tombstoneRetention
    | .editor =>
      Same unmarshal (some edit) (state.remote.holds key) →
        ¬ Same unmarshal ((baseOf (state.devices .deleter)).get key.1 key.2) (some edit) →
        eventTime (shows formats (state.devices .editor) sync.snapshotAt key) = edit.updatedAt

instance (sync : Sync Party) : Decidable (Proper formats unmarshal key edit deletedAt state sync) := by
  unfold Proper
  cases sync.actor <;> infer_instance

section
attribute [local irreducible] afterSync
variable {sync : Sync Party}

theorem choice_local
    (same : Same unmarshal ((baseOf (state.devices sync.actor)).get key.1 key.2) (state.remote.holds key)) :
    sync.choice formats unmarshal state key = live (shows formats (state.devices sync.actor) sync.snapshotAt key) := by
  rw [Sync.choice, mergeEntity_local_kept unmarshal same]

theorem choice_remote
    (same : Same unmarshal ((baseOf (state.devices sync.actor)).get key.1 key.2)
      (shows formats (state.devices sync.actor) sync.snapshotAt key))
    (moved : ¬ Same unmarshal ((baseOf (state.devices sync.actor)).get key.1 key.2) (state.remote.holds key)) :
    sync.choice formats unmarshal state key = live (state.remote.holds key) := by
  rw [Sync.choice, mergeEntity_remote_kept unmarshal same moved]

theorem choice_later (based : (state.devices sync.actor).store.baseline.isSome = true)
    (changed : ¬ Same unmarshal ((baseOf (state.devices sync.actor)).get key.1 key.2)
      (shows formats (state.devices sync.actor) sync.snapshotAt key))
    (moved : ¬ Same unmarshal ((baseOf (state.devices sync.actor)).get key.1 key.2) (state.remote.holds key)) :
    sync.choice formats unmarshal state key =
      live (laterChange (shows formats (state.devices sync.actor) sync.snapshotAt key) (state.remote.holds key)) := by
  obtain ⟨notice, chosen, _⟩ := mergeEntity_both_changed unmarshal key.1 key.2
    ⟨!(state.devices sync.actor).store.baseline.isSome, changedEntities (state.devices sync.actor).store⟩ changed moved
    (.inl (by simp [based]))
  rw [Sync.choice, chosen]

theorem holds_chosen {next : State Party} (moves : Moves formats unmarshal sync key state next)
    (chosen : Same unmarshal (some edit) (sync.choice formats unmarshal state key)) :
    HoldsEdit formats unmarshal key edit (next.devices sync.actor) := by
  refine ⟨moves.base ▸ chosen, agree_trans unmarshal moves.held ?_⟩
  exact agree_symm unmarshal (Same.agree unmarshal chosen)

theorem live_of_same (alive : edit.deleted = false) (same : Same unmarshal (some edit) side) : live side = side := by
  cases side with
  | none => rfl
  | some entity =>
    have mark := ((same_some_iff unmarshal _ _).mp same).1
    exact live_eq_some.mpr ⟨rfl, mark ▸ alive⟩

theorem settled_next (alive : edit.deleted = false) (settled : stage = .present ∨ stage = .absent)
    (keeps : sync.Keeps formats unmarshal state key)
    (represents : Represents formats unmarshal key edit deletedAt state stage) :
    Represents formats unmarshal key edit deletedAt (afterSync formats unmarshal state sync) stage := by
  have moves := sync_moves keeps
  have shown := shows_agrees_held keeps
  rcases settled with rfl | rfl
  · obtain ⟨holds, remote⟩ := represents
    have same := same_trans unmarshal (same_symm unmarshal (holds sync.actor).1) remote
    have copy := same_of_agree alive (agree_symm unmarshal (agree_trans unmarshal shown (holds sync.actor).2))
    have chosen : Same unmarshal (some edit) (sync.choice formats unmarshal state key) := by
      rw [choice_local same, live_of_same alive copy]
      exact copy
    refine ⟨fun party => ?_, moves.remote ▸ chosen⟩
    by_cases acts : party = sync.actor
    · rw [acts]
      exact holds_chosen moves chosen
    · rw [moves.others party acts]
      exact holds party
  · obtain ⟨empty, remote⟩ := represents
    have same : Same unmarshal ((baseOf (state.devices sync.actor)).get key.1 key.2) (state.remote.holds key) := by
      rw [(empty sync.actor).1, remote]
      exact same_refl unmarshal none
    have chosen : sync.choice formats unmarshal state key = none := by
      rw [choice_local same]
      exact agree_none_iff.mp (agree_trans unmarshal shown (empty sync.actor).2)
    refine ⟨fun party => ?_, moves.remote.trans chosen⟩
    by_cases acts : party = sync.actor
    · rw [acts]
      exact ⟨moves.base.trans chosen, chosen ▸ moves.held⟩
    · rw [moves.others party acts]
      exact empty party

theorem laterChange_absence (shown : live side ≠ none) : laterChange side none = side := by
  unfold laterChange
  by_cases dated : eventTime side > eventTime none
  · rw [if_pos dated]
  · have notEarlier : ¬ eventTime none > eventTime side := Nat.not_lt_zero _
    rw [if_neg dated, if_neg notEarlier, if_pos (Option.isSome_iff_ne_none.mpr shown)]

theorem deleter_next {snapshotAt : Nat} {turn : Turn} (alive : edit.deleted = false) (dated : 0 < deletedAt)
    (based : (state.devices .deleter).store.baseline.isSome = true)
    (proper : Proper formats unmarshal key edit deletedAt state ⟨.deleter, snapshotAt, turn⟩)
    (represents : Represents formats unmarshal key edit deletedAt state stage) :
    Represents formats unmarshal key edit deletedAt (afterSync formats unmarshal state ⟨.deleter, snapshotAt, turn⟩)
      (stage.next (decide (deletedAt ≤ edit.updatedAt)) .deleter) := by
  obtain ⟨keeps, before, recent⟩ := proper
  have moves := sync_moves keeps
  have selected := keeps.2.1
  have editor := moves.others .editor (show Party.editor ≠ .deleter by decide)
  have buriedShows : Buried (state.devices .deleter) key deletedAt →
      shows formats (state.devices .deleter) snapshotAt key = some (deletedEntity deletedAt) :=
    fun buried => shows_buried buried selected dated before
  have hidden : live (some (deletedEntity deletedAt)) = none := rfl
  cases stage with
  | apart =>
    obtain ⟨⟨buried, _, _⟩, same, edited, unsynced, _⟩ := represents
    have chosen : Sync.choice formats unmarshal ⟨.deleter, snapshotAt, turn⟩ state key = none := by
      rw [choice_local same]
      exact (congrArg live (buriedShows buried)).trans hidden
    have base := moves.base.trans chosen
    refine ⟨⟨moves.buried deletedAt buried dated before recent chosen, ?_, ?_⟩, ?_, editor ▸ edited, editor ▸ unsynced,
      .inr (moves.remote.trans chosen)⟩
    · rw [base]
      simp [Same, differs]
    · rw [base]
      simp [Same, differs]
    · rw [base, moves.remote, chosen]
      exact same_refl unmarshal none
  | published =>
    obtain ⟨⟨buried, unburied, unedited⟩, holds, remote, time⟩ := represents
    have changed : ¬ Same unmarshal ((baseOf (state.devices .deleter)).get key.1 key.2)
        (shows formats (state.devices .deleter) snapshotAt key) := by
      rw [buriedShows buried]
      exact unburied
    have moved : ¬ Same unmarshal ((baseOf (state.devices .deleter)).get key.1 key.2) (state.remote.holds key) :=
      fun same => unedited (same_trans unmarshal same (same_symm unmarshal remote))
    have later : Sync.choice formats unmarshal ⟨.deleter, snapshotAt, turn⟩ state key =
        live (laterChange (some (deletedEntity deletedAt)) (state.remote.holds key)) := by
      rw [choice_later based changed moved]
      exact congrArg (fun side => live (laterChange side (state.remote.holds key))) (buriedShows buried)
    have copy := live_of_same alive remote
    unfold laterChange at later
    rw [time] at later
    by_cases stands : deletedAt ≤ edit.updatedAt
    · -- the edit is no earlier: the deleter takes it
      have notLater : ¬ eventTime (some (deletedEntity deletedAt)) > edit.updatedAt := Nat.not_lt.mpr stands
      have chosen : Sync.choice formats unmarshal ⟨.deleter, snapshotAt, turn⟩ state key = state.remote.holds key := by
        rw [later, if_neg notLater]
        split
        · exact copy
        · have present : (live (state.remote.holds key)).isSome = true := by
            rw [copy]
            cases found : state.remote.holds key with
            | none => simp [found, Same, differs] at remote
            | some entity => rfl
          rw [hidden, if_neg (by simp), if_pos present, copy]
      simp only [Stage.next, stands, decide_true, if_true]
      refine ⟨fun party => ?_, (moves.remote.trans chosen) ▸ remote⟩
      cases party with
      | deleter => exact holds_chosen moves (chosen ▸ remote)
      | editor => exact editor ▸ holds
    · have isLater : eventTime (some (deletedEntity deletedAt)) > edit.updatedAt := Nat.lt_of_not_le stands
      have chosen : Sync.choice formats unmarshal ⟨.deleter, snapshotAt, turn⟩ state key = none := by
        rw [later, if_pos isLater]
        exact hidden
      simp only [Stage.next, stands, decide_false, Bool.false_eq_true, if_false]
      exact ⟨moves.buried deletedAt buried dated before recent chosen, moves.base.trans chosen, editor ▸ holds,
        moves.remote.trans chosen⟩
  | withdrawn =>
    obtain ⟨buried, base, holds, remote⟩ := represents
    have same : Same unmarshal ((baseOf (state.devices .deleter)).get key.1 key.2) (state.remote.holds key) := by
      rw [base, remote]
      exact same_refl unmarshal none
    have chosen : Sync.choice formats unmarshal ⟨.deleter, snapshotAt, turn⟩ state key = none := by
      rw [choice_local same]
      exact (congrArg live (buriedShows buried)).trans hidden
    exact ⟨moves.buried deletedAt buried dated before recent chosen, moves.base.trans chosen, editor ▸ holds,
      moves.remote.trans chosen⟩
  | present => exact settled_next alive (.inl rfl) keeps represents
  | absent => exact settled_next alive (.inr rfl) keeps represents

theorem editor_next {snapshotAt : Nat} {turn : Turn} (alive : edit.deleted = false)
    (based : (state.devices .editor).store.baseline.isSome = true)
    (proper : Proper formats unmarshal key edit deletedAt state ⟨.editor, snapshotAt, turn⟩)
    (represents : Represents formats unmarshal key edit deletedAt state stage) :
    Represents formats unmarshal key edit deletedAt (afterSync formats unmarshal state ⟨.editor, snapshotAt, turn⟩)
      (stage.next (decide (deletedAt ≤ edit.updatedAt)) .editor) := by
  obtain ⟨keeps, times⟩ := proper
  have moves := sync_moves keeps
  have selected := keeps.2.1
  have shown : Agree unmarshal (shows formats (state.devices .editor) snapshotAt key)
      (held formats (state.devices .editor).store key) := shows_agrees_held keeps
  have deleter := moves.others .deleter (show Party.deleter ≠ .editor by decide)
  have shownCopy : HoldsEdit formats unmarshal key edit (state.devices .editor) →
      Same unmarshal (some edit) (shows formats (state.devices .editor) snapshotAt key) :=
    fun holds => same_of_agree alive (agree_symm unmarshal (agree_trans unmarshal shown holds.2))
  cases stage with
  | apart =>
    obtain ⟨behind, _, edited, unsynced, reached⟩ := represents
    have reads := shows_edited edited selected snapshotAt
    have copy : Same unmarshal (some edit) (shows formats (state.devices .editor) snapshotAt key) := by
      rw [reads]
      exact same_symm unmarshal (same_revision _)
    have chosen : Sync.choice formats unmarshal ⟨.editor, snapshotAt, turn⟩ state key =
        shows formats (state.devices .editor) snapshotAt key := by
      by_cases same : Same unmarshal ((baseOf (state.devices .editor)).get key.1 key.2) (state.remote.holds key)
      · exact (choice_local same).trans (live_of_same alive copy)
      · -- the deleter was first: the edit meets an absence, which carries no time
        have gone := reached.resolve_left same
        have changed : ¬ Same unmarshal ((baseOf (state.devices .editor)).get key.1 key.2)
            (shows formats (state.devices .editor) snapshotAt key) :=
          fun same => unsynced (same_trans unmarshal same (same_symm unmarshal copy))
        have later : Sync.choice formats unmarshal ⟨.editor, snapshotAt, turn⟩ state key =
            live (laterChange (shows formats (state.devices .editor) snapshotAt key) (state.remote.holds key)) :=
          choice_later based changed same
        refine later.trans ?_
        have kept : laterChange (shows formats (state.devices .editor) snapshotAt key) (state.remote.holds key) =
            shows formats (state.devices .editor) snapshotAt key := by
          rw [gone]
          refine laterChange_absence ?_
          rw [live_of_same alive copy, reads]
          simp
        exact (congrArg live kept).trans (live_of_same alive copy)
    refine ⟨deleter ▸ behind, holds_chosen moves (chosen ▸ copy), (moves.remote.trans chosen) ▸ copy, ?_⟩
    rw [moves.remote, chosen, reads]
    rfl
  | published =>
    obtain ⟨behind, holds, remote, time⟩ := represents
    have copy := shownCopy holds
    have chosen : Sync.choice formats unmarshal ⟨.editor, snapshotAt, turn⟩ state key =
        shows formats (state.devices .editor) snapshotAt key :=
      (choice_local (same_trans unmarshal (same_symm unmarshal holds.1) remote)).trans (live_of_same alive copy)
    refine ⟨deleter ▸ behind, holds_chosen moves (chosen ▸ copy), (moves.remote.trans chosen) ▸ copy, ?_⟩
    rw [moves.remote, chosen]
    exact times remote behind.2.2
  | withdrawn =>
    obtain ⟨buried, base, holds, remote⟩ := represents
    have same : Same unmarshal ((baseOf (state.devices .editor)).get key.1 key.2)
        (shows formats (state.devices .editor) snapshotAt key) :=
      same_trans unmarshal (same_symm unmarshal holds.1) (shownCopy holds)
    have moved : ¬ Same unmarshal ((baseOf (state.devices .editor)).get key.1 key.2) (state.remote.holds key) := by
      intro still
      rw [remote] at still
      have vanished := same_trans unmarshal holds.1 still
      simp [Same, differs] at vanished
    have chosen : Sync.choice formats unmarshal ⟨.editor, snapshotAt, turn⟩ state key = none := by
      rw [choice_remote same moved, remote]
      rfl
    refine ⟨fun party => ?_, moves.remote.trans chosen⟩
    cases party with
    | deleter =>
      rw [deleter]
      refine ⟨base, ?_⟩
      simp [held, buried.1, agree_refl]
    | editor => exact ⟨moves.base.trans chosen, chosen ▸ moves.held⟩
  | present => exact settled_next alive (.inl rfl) keeps represents
  | absent => exact settled_next alive (.inr rfl) keeps represents

end

/-! ### Any order of syncs -/

/-- One device deleted the entity and the other edited it, both since the base. -/
structure Divided (formats : Formats) (unmarshal : List UInt8 → Option J) (key : Key) (edit : Entity) (deletedAt : Nat)
    (state : State Party) : Prop where
  based : ∀ party, (state.devices party).store.baseline.isSome = true
  selected : ∀ party, inScope (state.devices party).scope key.1 = true
  common : ∀ party, Same unmarshal ((baseOf (state.devices party)).get key.1 key.2) (state.remote.holds key)
  shared : live (state.remote.holds key) ≠ none
  alive : edit.deleted = false
  dated : 0 < deletedAt
  deleted : Buried (state.devices .deleter) key deletedAt
  edited : Edited formats key edit (state.devices .editor)
  changed : ¬ Same unmarshal (state.remote.holds key) (some edit)

/-- Every sync of an order meets its condition at the state it starts from. -/
def Along (formats : Formats) (unmarshal : List UInt8 → Option J) (key : Key) (edit : Entity) (deletedAt : Nat) :
    State Party → List (Sync Party) → Prop
  | _, [] => True
  | state, sync :: rest =>
    Proper formats unmarshal key edit deletedAt state sync ∧
      Along formats unmarshal key edit deletedAt (afterSync formats unmarshal state sync) rest

instance Along.decide (formats : Formats) (unmarshal : List UInt8 → Option J) (key : Key) (edit : Entity) (deletedAt : Nat) :
    (state : State Party) → (order : List (Sync Party)) → Decidable (Along formats unmarshal key edit deletedAt state order)
  | _, [] => isTrue trivial
  | state, sync :: rest =>
    have := Along.decide formats unmarshal key edit deletedAt (afterSync formats unmarshal state sync) rest
    inferInstanceAs (Decidable (_ ∧ _))

theorem represents_divided (divided : Divided formats unmarshal key edit deletedAt state) :
    Represents formats unmarshal key edit deletedAt state .apart := by
  have unburied : ¬ Same unmarshal (state.remote.holds key) (some (deletedEntity deletedAt)) := by
    intro same
    apply divided.shared
    cases found : state.remote.holds key with
    | none => rfl
    | some entity =>
      rw [found] at same
      have mark := ((same_some_iff unmarshal _ _).mp same).1
      exact live_eq_none.mpr (fun other named => Option.some.inj named ▸ mark)
  refine ⟨⟨divided.deleted, fun same => ?_, fun same => ?_⟩, divided.common .deleter, divided.edited, fun same => ?_,
    .inl (divided.common .editor)⟩
  · exact unburied (same_trans unmarshal (same_symm unmarshal (divided.common .deleter)) same)
  · exact divided.changed (same_trans unmarshal (same_symm unmarshal (divided.common .deleter)) same)
  · exact divided.changed (same_trans unmarshal (same_symm unmarshal (divided.common .editor)) same)

theorem represents_after (alive : edit.deleted = false) (dated : 0 < deletedAt) {order : List (Sync Party)}
    (based : ∀ party, (state.devices party).store.baseline.isSome = true)
    (selected : ∀ party, inScope (state.devices party).scope key.1 = true)
    (along : Along formats unmarshal key edit deletedAt state order)
    (represents : Represents formats unmarshal key edit deletedAt state stage) :
    Represents formats unmarshal key edit deletedAt (afterSyncs formats unmarshal state order)
        ((order.map Sync.actor).foldl (Stage.next (decide (deletedAt ≤ edit.updatedAt))) stage) ∧
      ∀ party, inScope ((afterSyncs formats unmarshal state order).devices party).scope key.1 = true := by
  induction order generalizing state stage with
  | nil => exact ⟨represents, selected⟩
  | cons sync rest ih =>
    obtain ⟨proper, later⟩ := along
    have moves := sync_moves proper.1
    refine ih (fun party => ?_) (fun party => ?_) later ?_
    · by_cases acts : party = sync.actor
      · exact acts ▸ moves.based
      · exact moves.others party acts ▸ based party
    · by_cases acts : party = sync.actor
      · rw [acts, moves.scope]
        exact selected sync.actor
      · exact moves.others party acts ▸ selected party
    · obtain ⟨actor, snapshotAt, turn⟩ := sync
      cases actor with
      | deleter => exact deleter_next alive dated (based .deleter) proper represents
      | editor => exact editor_next alive (based .editor) proper represents

/-- An edit that is no earlier needs a sync of the deleter after the editor's; a later deletion needs one of the
editor after that. -/
def Settles (edit : Entity) (deletedAt : Nat) (order : List Party) : Prop :=
  (deletedAt < edit.updatedAt → [Party.editor, .deleter].Sublist order) ∧
  (edit.updatedAt < deletedAt → [Party.editor, .deleter, .editor].Sublist order) ∧
  (deletedAt = edit.updatedAt → ¬ [Party.editor, .deleter].Sublist order)

instance (edit : Entity) (deletedAt : Nat) (order : List Party) : Decidable (Settles edit deletedAt order) := by
  unfold Settles
  infer_instance

/-- The later of the deletion and the edit is what every side shows exactly after
    the orders that settle it. -/
theorem later_wins_iff (formats : Formats) (unmarshal : List UInt8 → Option J) (key : Key) (edit : Entity) (deletedAt : Nat)
    (state : State Party) (divided : Divided formats unmarshal key edit deletedAt state) (order : List (Sync Party))
    (along : Along formats unmarshal key edit deletedAt state order) :
    ((Everywhere formats unmarshal key edit (afterSyncs formats unmarshal state order) ↔ deletedAt < edit.updatedAt) ∧
      (Nowhere formats key (afterSyncs formats unmarshal state order) ↔ edit.updatedAt < deletedAt)) ↔
      Settles edit deletedAt (order.map Sync.actor) := by
  obtain ⟨represents, selected⟩ := represents_after divided.alive divided.dated divided.based divided.selected along
    (represents_divided divided)
  obtain ⟨everywhere, nowhere⟩ := represents_settled divided.alive selected represents
  obtain ⟨_, _, _, _, _, _, present, absent⟩ :=
    stage_after (decide (deletedAt ≤ edit.updatedAt)) (order.map Sync.actor)
  rw [everywhere, nowhere, present, absent, decide_eq_true_iff, decide_eq_false_iff_not, Settles]
  rcases Nat.lt_trichotomy deletedAt edit.updatedAt with earlier | same | later
  · have notLater : ¬ edit.updatedAt < deletedAt := by omega
    have apart : deletedAt ≠ edit.updatedAt := by omega
    have stands : deletedAt ≤ edit.updatedAt := by omega
    simp [earlier, notLater, apart, stands]
  · simp [same]
  · have notEarlier : ¬ deletedAt < edit.updatedAt := by omega
    have apart : deletedAt ≠ edit.updatedAt := by omega
    have falls : ¬ deletedAt ≤ edit.updatedAt := by omega
    simp [later, notEarlier, apart, falls]

end

def serviceKey : Key := (.service, "s")

def sharedPackage : Document := (newDocument "editor" 1 10).put .service "s" ⟨1, 5, false, [1], ""⟩

def serviceStore (row : Option Row) (log : List (Key × Nat)) : Store :=
  ⟨Tables.store ∅ serviceKey row, [], log, ∅, some sharedPackage⟩

def dividedState : State Party where
  devices
    | .deleter => ⟨"deleter", ⟨true, false, false, false, false⟩, serviceStore none [(serviceKey, 50)], none⟩
    | .editor =>
      ⟨"editor", ⟨true, false, false, false, false⟩,
        serviceStore (some { document := [2], updatedAt := 20 }) [(serviceKey, 20)], none⟩
  remote := ⟨some sharedPackage, 0⟩

def serviceEdit : Entity := ⟨0, 20, false, [2], ""⟩

def syncAt (actor : Party) (now : Nat) : Sync Party :=
  ⟨actor, now, ⟨⟨fun _ => now, fun _ => now, fun _ => now⟩, [serviceKey], now⟩⟩

theorem divided_service : Divided plainFormats some serviceKey serviceEdit 50 dividedState where
  based party := by cases party <;> rfl
  selected party := by cases party <;> rfl
  common party := by cases party <;> rfl
  shared := by decide
  alive := rfl
  dated := by decide
  deleted := by decide
  edited revision := rfl
  changed := by decide

/-- The editor syncs first, then the deleter, then the editor: the deletion wins. -/
theorem later_wins_editor_first :
    Nowhere plainFormats serviceKey (afterSyncs plainFormats some dividedState
      [syncAt .editor 60, syncAt .deleter 70, syncAt .editor 80]) :=
  ((later_wins_iff plainFormats some serviceKey serviceEdit 50 dividedState divided_service
    [syncAt .editor 60, syncAt .deleter 70, syncAt .editor 80] (by decide)).mpr (by decide)).2.mpr (by decide)

/-- The deleter syncs first: the earlier edit comes back at the remote, and the
    editor still holds it once the deleter has synced again. -/
theorem deletion_loses_first :
    (afterSyncs plainFormats (some : List UInt8 → Option (List UInt8)) dividedState
      [syncAt .deleter 60, syncAt .editor 70]).remote.holds serviceKey ≠ none ∧
    ¬ Nowhere plainFormats serviceKey (afterSyncs plainFormats (some : List UInt8 → Option (List UInt8)) dividedState
      [syncAt .deleter 60, syncAt .editor 70, syncAt .deleter 80]) := by
  refine ⟨by decide, fun nowhere => ?_⟩
  exact absurd (nowhere.2 .editor) (by decide)

end AstrLink.Deletion
