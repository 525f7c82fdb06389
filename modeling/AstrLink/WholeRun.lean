import AstrLink.System

/-!
A run of one device that no other step comes between. What it does to one entity
is a three-way merge of the base, of what the device shows and of what the remote
holds (`sync_moves`), as long as the run completes and the device can store what
it merged.
-/
namespace AstrLink.WholeRun
open Tables Package Merge Scope LocalStore Device Applying
open AstrLink.System

/-- One run of one device from its snapshot to its write. -/
structure Sync (D : Type) where
  actor : D
  snapshotAt : Nat
  turn : Turn

variable {D : Type}

def Sync.steps (sync : Sync D) : List (D × Action) :=
  [(sync.actor, .begin sync.snapshotAt), (sync.actor, .read), (sync.actor, .merge sync.turn), (sync.actor, .write)]

section
variable (formats : Formats) {J : Type} [DecidableEq J] (unmarshal : List UInt8 → Option J)

def shows (device : SyncDevice) (snapshotAt : Nat) (key : Key) : Option Entity :=
  shown formats device.scope (baseOf device).revision snapshotAt device.store key

def Sync.attempt (sync : Sync D) (state : State D) : Store × Option Document :=
  attemptOf formats unmarshal (state.devices sync.actor) (startRun (state.devices sync.actor) sync.snapshotAt)
    state.remote.package sync.turn

def Sync.choice (sync : Sync D) (state : State D) (key : Key) : Option Entity :=
  live (mergeEntity unmarshal key.1 key.2 ((baseOf (state.devices sync.actor)).get key.1 key.2)
    (shows formats (state.devices sync.actor) sync.snapshotAt key) (state.remote.holds key)
    ⟨!(state.devices sync.actor).store.baseline.isSome, changedEntities (state.devices sync.actor).store⟩).1

/-- The run completes, and the device can hold what it merges. -/
def Sync.Keeps (sync : Sync D) (state : State D) (key : Key) : Prop :=
  (state.devices sync.actor).run.isNone = true ∧ inScope (state.devices sync.actor).scope key.1 = true ∧
    StoresAs formats unmarshal (state.devices sync.actor) (startRun (state.devices sync.actor) sync.snapshotAt)
      state.remote.package sync.turn key ∧
    match (sync.attempt formats unmarshal state).2 with
    | none => False
    | some merged => key.1 ∈ dependentKinds → merged.get .service key.2 ≠ none

instance (sync : Sync D) (state : State D) (key : Key) : Decidable (sync.Keeps formats unmarshal state key) := by
  unfold Sync.Keeps
  cases (sync.attempt formats unmarshal state).2 <;> infer_instance

variable [DecidableEq D]

def afterSync (state : State D) (sync : Sync D) : State D := after formats unmarshal state sync.steps

def afterSyncs (state : State D) (order : List (Sync D)) : State D := order.foldl (afterSync formats unmarshal) state

/-- The state once a run has stored its package. -/
def stored (state : State D) (sync : Sync D) (applied : Store) (merged : Document) : State D where
  devices := Function.update state.devices sync.actor
    { state.devices sync.actor with store := finish merged sync.snapshotAt applied, run := none }
  remote := ⟨some merged, state.remote.version + 1⟩

variable {formats unmarshal}

variable {state : State D} {sync : Sync D}

theorem afterSync_stored {applied : Store} {merged : Document} (idle : (state.devices sync.actor).run.isNone = true)
    (published : sync.attempt formats unmarshal state = (applied, some merged)) :
    afterSync formats unmarshal state sync = stored state sync applied merged := by
  have ready : (state.devices sync.actor).run = none := Option.isNone_iff_eq_none.mp idle
  let run := startRun (state.devices sync.actor) sync.snapshotAt
  let reading : SyncDevice := { state.devices sync.actor with run := some run }
  let merging : SyncDevice :=
    { state.devices sync.actor with run := some { run with phase := .merging state.remote.package state.remote.version } }
  let writing : SyncDevice :=
    { state.devices sync.actor with
      store := applied, run := some { run with phase := .writing merged state.remote.version } }
  have began : stepDevice formats unmarshal state.remote (state.devices sync.actor) (.begin sync.snapshotAt) = reading := by
    simp [stepDevice, ready, reading, run]
  have read : stepDevice formats unmarshal state.remote reading .read = merging := rfl
  have merges : stepDevice formats unmarshal state.remote merging (.merge sync.turn) = writing := by
    have attempted : attemptOf formats unmarshal merging
        { run with phase := .merging state.remote.package state.remote.version } state.remote.package sync.turn =
        (applied, some merged) := published
    show mergeStep formats unmarshal merging _ state.remote.package state.remote.version sync.turn = writing
    rw [mergeStep, attempted]
  have wrote : stepDevice formats unmarshal state.remote writing .write =
      { state.devices sync.actor with store := finish merged sync.snapshotAt applied, run := none } := by
    simp [stepDevice, writing, run, startRun]
  have written : stepRemote state.remote writing .write = ⟨some merged, state.remote.version + 1⟩ := by
    simp [stepRemote, SyncDevice.pending, writing]
  have beginsStill : stepRemote state.remote (state.devices sync.actor) (.begin sync.snapshotAt) = state.remote := by
    simp [stepRemote]
  have readsStill : stepRemote state.remote reading .read = state.remote := by simp [stepRemote]
  have mergesStill : stepRemote state.remote merging (.merge sync.turn) = state.remote := by simp [stepRemote]
  simp only [afterSync, Sync.steps, after, List.foldl_cons, List.foldl_nil, step, Function.update_self,
    Function.update_idem, began, beginsStill, read, readsStill, merges, mergesStill, wrote, written, stored]

def Buried (device : SyncDevice) (key : Key) (deletedAt : Nat) : Prop :=
  device.store.rows.lookup key = none ∧
    (device.store.tombstones.lookup key = some deletedAt ∨
      device.store.tombstones.lookup key = none ∧ lastChange device.store key = some deletedAt)

instance (device : SyncDevice) (key : Key) (deletedAt : Nat) : Decidable (Buried device key deletedAt) := by
  unfold Buried
  infer_instance

/-- The choice is published, is the next base and is what the rows hold. -/
structure Moves (formats : Formats) (unmarshal : List UInt8 → Option J) (sync : Sync D) (key : Key)
    (state next : State D) : Prop where
  remote : next.remote.holds key = sync.choice formats unmarshal state key
  base : (baseOf (next.devices sync.actor)).get key.1 key.2 = sync.choice formats unmarshal state key
  held : Agree unmarshal (held formats (next.devices sync.actor).store key) (sync.choice formats unmarshal state key)
  based : (next.devices sync.actor).store.baseline.isSome = true
  scope : (next.devices sync.actor).scope = (state.devices sync.actor).scope
  others : ∀ other, other ≠ sync.actor → next.devices other = state.devices other
  /-- A deletion the device remembers outlives the run that publishes it, as long
      as it is not forgotten for its age. -/
  buried : ∀ deletedAt, Buried (state.devices sync.actor) key deletedAt → 0 < deletedAt → deletedAt ≤ sync.snapshotAt →
    sync.snapshotAt ≤ deletedAt + tombstoneRetention → sync.choice formats unmarshal state key = none →
    Buried (next.devices sync.actor) key deletedAt

variable {key : Key}

theorem shows_buried {device : SyncDevice} {deletedAt snapshotAt : Nat} (buried : Buried device key deletedAt)
    (selected : inScope device.scope key.1 = true) (dated : 0 < deletedAt) (before : deletedAt ≤ snapshotAt) :
    shows formats device snapshotAt key = some (deletedEntity deletedAt) := by
  obtain ⟨missing, remembered⟩ := buried
  have unheld : (rowEntity formats device.store (baseOf device).revision key).join = none := by
    simp [rowEntity, missing]
  rw [shows, shown, if_pos selected, unheld, Option.none_or]
  rcases remembered with tombstone | ⟨untold, logged⟩
  · have time : tombstoneTime device.scope device.store key = some deletedAt := by
      simp [tombstoneTime, selected, tombstone, Option.filter, dated]
    rw [time]
    rfl
  · have noTombstone : tombstoneTime device.scope device.store key = none := by
      simp [tombstoneTime, selected, untold]
    have time : changeTime device.scope snapshotAt device.store key = some deletedAt := by
      simp [changeTime, selected, logged, Option.filter, dated, before]
    rw [noTombstone, time]
    rfl

theorem reconciled_buried {device : SyncDevice} {deletedAt snapshotAt : Nat} {localDoc : Document}
    {reconciled : Store} (buried : Buried device key deletedAt) (selected : inScope device.scope key.1 = true)
    (dated : 0 < deletedAt) (before : deletedAt ≤ snapshotAt)
    (built : localDocument formats device.deviceId device.scope (baseOf device).revision snapshotAt device.store =
      some (localDoc, reconciled)) :
    reconciled.tombstones.lookup key = some deletedAt := by
  obtain ⟨missing, remembered⟩ := buried
  have unheld : (rowEntity formats device.store (baseOf device).revision key).join = none := by
    simp [rowEntity, missing]
  rw [(localDocument_reconciled formats built).2 key, lookup_unseenDeletions, lookup_buriedEntities, if_pos selected, unheld,
    Option.none_or]
  rcases remembered with tombstone | ⟨untold, logged⟩
  · have time : tombstoneTime device.scope device.store key = some deletedAt := by
      simp [tombstoneTime, selected, tombstone, Option.filter, dated]
    simp [time, tombstone]
  · have noTombstone : tombstoneTime device.scope device.store key = none := by
      simp [tombstoneTime, selected, untold]
    have time : changeTime device.scope snapshotAt device.store key = some deletedAt := by
      simp [changeTime, selected, logged, Option.filter, dated, before]
    simp [noTombstone, time, untold]

theorem sync_moves (keeps : sync.Keeps formats unmarshal state key) :
    Moves formats unmarshal sync key state (afterSync formats unmarshal state sync) := by
  obtain ⟨idle, selected, storable, published⟩ := keeps
  rcases attempted : sync.attempt formats unmarshal state with ⟨applied, _ | merged⟩
  · rw [attempted] at published
    exact published.elim
  rw [attempted] at published
  have owned : key.1 ∈ dependentKinds → merged.get .service key.2 ≠ none := published
  rw [afterSync_stored idle attempted]
  obtain ⟨localDoc, reconciled, built, made, done⟩ := attempt_published formats unmarshal attempted
  have chosen : merged.get key.1 key.2 = sync.choice formats unmarshal state key := by
    have unpruned : ¬ (key.1 ∈ dependentKinds ∧ merged.get .service key.2 = none) := fun orphan => owned orphan.1 orphan.2
    rw [made] at unpruned ⊢
    rw [publish_get_service] at unpruned
    rw [publish_get, if_neg unpruned, compose_get_selected unmarshal selected, localDocument_get formats built,
      changedEntities_reconciled formats built]
    exact congrArg (fun remote => live (mergeEntity unmarshal key.1 key.2 _ _ remote _).1) (readPackage_get _ key)
  refine ⟨?_, ?_, ?_, ?_, ?_, fun other apart => Function.update_of_ne apart .., ?_⟩
  · exact chosen
  · simp only [stored, Function.update_self]
    exact chosen
  · rw [← chosen]
    simp only [stored, Function.update_self]
    have applies : Agree unmarshal (held formats applied key) (merged.get key.1 key.2) :=
      attempt_stores storable selected attempted
    exact applies
  · simp [stored, finish, deleteTombstonesBefore, clearChangesThrough]
  · simp [stored]
  · intro deletedAt buried dated before recent nothing
    have tombstone := reconciled_buried buried selected dated before built
    have missing : reconciled.rows.lookup key = none := by
      rw [(localDocument_reconciled formats built).1]
      exact buried.1
    have hidden : live (merged.get key.1 key.2) = none := by rw [chosen, nothing, live_none]
    obtain ⟨gone, kept⟩ := apply_spares done hidden missing
    have young : sync.snapshotAt - tombstoneRetention ≤ deletedAt := by omega
    simp only [stored, Function.update_self]
    refine ⟨gone, .inl ?_⟩
    simp only [finish, deleteTombstonesBefore, clearChangesThrough, lookup_keep]
    rw [kept, tombstone]
    simp [Option.filter, young]

omit [DecidableEq D] in
theorem attempt_shows_held {applied : Store} {merged : Document}
    (published : sync.attempt formats unmarshal state = (applied, some merged))
    (selected : inScope (state.devices sync.actor).scope key.1 = true) :
    Agree unmarshal (shows formats (state.devices sync.actor) sync.snapshotAt key)
      (held formats (state.devices sync.actor).store key) := by
  obtain ⟨localDoc, reconciled, built, _, _⟩ := attempt_published formats unmarshal published
  exact shown_agrees_held formats unmarshal selected (localDocument_readable formats built selected)

omit [DecidableEq D] in
theorem shows_agrees_held (keeps : sync.Keeps formats unmarshal state key) :
    Agree unmarshal (shows formats (state.devices sync.actor) sync.snapshotAt key)
      (held formats (state.devices sync.actor).store key) := by
  obtain ⟨_, selected, _, published⟩ := keeps
  rcases attempted : sync.attempt formats unmarshal state with ⟨applied, _ | merged⟩
  · rw [attempted] at published
    exact published.elim
  · exact attempt_shows_held attempted selected

end

end AstrLink.WholeRun
