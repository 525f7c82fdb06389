import Mathlib.Data.List.Induction
import AstrLink.Applying

/-!
Devices that sync through one remote. A run reads its base and the remote, merges into its store and writes
conditionally; every such step interleaves with those of other devices and of the users.
-/
namespace AstrLink.System
open Tables Package Merge Scope LocalStore Device Applying

/-- The package object at the remote. Its version stands for the entity tag. -/
structure Remote where
  package : Option Document
  version : Nat

inductive Phase where
  | reading
  | merging (remote : Option Document) (version : Nat)
  | writing (merged : Document) (version : Nat)

/-- A run in progress. The base and the moment of the snapshot are read once. -/
structure Run where
  base : Document
  hasBase : Bool
  snapshotAt : Nat
  tries : Nat
  phase : Phase

structure SyncDevice where
  deviceId : String
  scope : SyncScope
  store : Store
  run : Option Run

structure State (D : Type) where
  devices : D → SyncDevice
  remote : Remote

/-- What a user or the machine does to one row outside a sync. -/
inductive Change where
  | save (row : Row)
  | remove
  /-- The stored value of a secret no longer opens. -/
  | damage

/-- The steps of a device. `lose` is a write whose reply is lost. -/
inductive Action where
  | user (clock : Clock) (key : Key) (change : Change)
  | configure (scope : SyncScope)
  | begin (snapshotAt : Nat)
  | read
  | merge (turn : Turn)
  | write
  | lose
  | abort

def maxWriteAttempts : Nat := 3

/-- A credential or a price binding is stored only for a service that is there. -/
def userChange (clock : Clock) (key : Key) (store : Store) : Change → Store
  | .save row =>
    if key.1 ∈ dependentKinds ∧ store.rows.lookup (.service, key.2) = none then store
    else putRow clock key row store
  | .remove => syncDeleteEntity clock key.1 key.2 store
  | .damage =>
    match store.rows.lookup key with
    | none => store
    | some row => { store with rows := store.rows.insert key { row with secret := none } }

variable (remote : Remote)

section
variable (formats : Formats) {J : Type} [DecidableEq J] (unmarshal : List UInt8 → Option J)

/-- The attempt a device in its merging phase makes. -/
def attemptOf (device : SyncDevice) (run : Run) (remote : Option Document) (turn : Turn) : Store × Option Document :=
  attempt formats unmarshal turn device.deviceId device.scope run.base run.hasBase run.snapshotAt remote device.store

def mergeStep (device : SyncDevice) (run : Run) (remote : Option Document) (version : Nat) (turn : Turn) : SyncDevice :=
  match attemptOf formats unmarshal device run remote turn with
  | (applied, some merged) => { device with store := applied, run := some { run with phase := .writing merged version } }
  | (applied, none) => { device with store := applied, run := none }

def baseOf (device : SyncDevice) : Document := device.store.baseline.getD (newDocument device.deviceId 0 0)

def startRun (device : SyncDevice) (snapshotAt : Nat) : Run where
  base := baseOf device
  hasBase := device.store.baseline.isSome
  snapshotAt := snapshotAt
  tries := 0
  phase := .reading

/-- A refused write reads again, three attempts in all. -/
def refusedWrite (device : SyncDevice) (run : Run) : SyncDevice :=
  if run.tries + 1 < maxWriteAttempts then
    { device with run := some { run with tries := run.tries + 1, phase := .reading } }
  else { device with run := none }

/-- What a step does to its own device. A step it cannot take changes nothing. -/
def stepDevice (remote : Remote) (device : SyncDevice) (action : Action) : SyncDevice :=
  match action with
  | .user clock key change => { device with store := userChange clock key device.store change }
  | .configure scope => if device.run.isNone then { device with scope := scope } else device
  | .begin snapshotAt => if device.run.isNone then { device with run := some (startRun device snapshotAt) } else device
  | .abort => { device with run := none }
  | .read =>
    match device.run with
    | some ⟨base, hasBase, snapshotAt, tries, .reading⟩ =>
      { device with run := some ⟨base, hasBase, snapshotAt, tries, .merging remote.package remote.version⟩ }
    | _ => device
  | .merge turn =>
    match device.run with
    | some ⟨base, hasBase, snapshotAt, tries, .merging read version⟩ =>
      mergeStep formats unmarshal device ⟨base, hasBase, snapshotAt, tries, .merging read version⟩ read version turn
    | _ => device
  | .write =>
    match device.run with
    | some ⟨base, hasBase, snapshotAt, tries, .writing merged version⟩ =>
      if remote.version = version then { device with store := finish merged snapshotAt device.store, run := none }
      else refusedWrite device ⟨base, hasBase, snapshotAt, tries, .writing merged version⟩
    | _ => device
  | .lose =>
    match device.run with
    | some ⟨_, _, _, _, .writing _ _⟩ => { device with run := none }
    | _ => device

/-- The package a device is about to write against the version it read. -/
def SyncDevice.pending (device : SyncDevice) : Option (Document × Nat) :=
  match device.run with
  | some ⟨_, _, _, _, .writing merged version⟩ => some (merged, version)
  | _ => none

/-- A conditional write that meets the version it read goes through. -/
def stepRemote (remote : Remote) (device : SyncDevice) (action : Action) : Remote :=
  if action matches .write | .lose then
    match device.pending with
    | some (merged, version) => if remote.version = version then ⟨some merged, remote.version + 1⟩ else remote
    | none => remote
  else remote

section
variable {D : Type} [DecidableEq D]

def step (state : State D) (actor : D) (action : Action) : State D where
  devices := Function.update state.devices actor (stepDevice formats unmarshal state.remote (state.devices actor) action)
  remote := stepRemote state.remote (state.devices actor) action

def after (state : State D) (steps : List (D × Action)) : State D :=
  steps.foldl (fun state next => step formats unmarshal state next.1 next.2) state

theorem after_append (state : State D) (first second : List (D × Action)) :
    after formats unmarshal state (first ++ second) =
      after formats unmarshal (after formats unmarshal state first) second := List.foldl_append

theorem after_concat (state : State D) (steps : List (D × Action)) (next : D × Action) :
    after formats unmarshal state (steps ++ [next]) =
      step formats unmarshal (after formats unmarshal state steps) next.1 next.2 := by
  rw [after_append]
  rfl

@[simp] theorem step_actor (state : State D) (actor : D) (action : Action) :
    (step formats unmarshal state actor action).devices actor =
      stepDevice formats unmarshal state.remote (state.devices actor) action := Function.update_self ..

theorem step_other (state : State D) {actor device : D} (apart : device ≠ actor) (action : Action) :
    (step formats unmarshal state actor action).devices device = state.devices device := Function.update_of_ne apart ..

@[simp] theorem step_remote (state : State D) (actor : D) (action : Action) :
    (step formats unmarshal state actor action).remote = stepRemote state.remote (state.devices actor) action := rfl

def Remote.holds (remote : Remote) (key : Key) : Option Entity :=
  remote.package.bind (fun document => document.get key.1 key.2)

end

theorem stepRemote_cases (device : SyncDevice) (action : Action) :
    stepRemote remote device action = remote ∨
      ∃ merged, device.pending = some (merged, remote.version) ∧
        stepRemote remote device action = ⟨some merged, remote.version + 1⟩ := by
  unfold stepRemote
  by_cases writes : (action matches .write | .lose) = true
  · rw [if_pos writes]
    cases pending : device.pending with
    | none => exact .inl rfl
    | some write =>
      obtain ⟨merged, version⟩ := write
      dsimp only
      by_cases met : remote.version = version
      · rw [if_pos met]
        exact .inr ⟨merged, met ▸ rfl, rfl⟩
      · rw [if_neg met]
        exact .inl rfl
  · rw [if_neg writes]
    exact .inl rfl

theorem stepRemote_version (device : SyncDevice) (action : Action) :
    remote.version ≤ (stepRemote remote device action).version ∧
      ((stepRemote remote device action).version = remote.version → stepRemote remote device action = remote) := by
  rcases stepRemote_cases remote device action with same | ⟨merged, _, stored⟩
  · rw [same]
    exact ⟨Nat.le.refl, fun _ => rfl⟩
  · rw [stored]
    exact ⟨Nat.le_succ _, fun equal => absurd equal (Nat.succ_ne_self _)⟩

def readPackage (remote : Option Document) : Document := remote.getD (newDocument "" 0 0)

/-- The device can hold what an attempt merges for the key. -/
def StoresAs (device : SyncDevice) (run : Run) (remote : Option Document) (turn : Turn) (key : Key) : Prop :=
  match localDocument formats device.deviceId device.scope run.base.revision run.snapshotAt device.store with
  | none => True
  | some (localDoc, reconciled) =>
    inScope device.scope key.1 = true →
      Storable unmarshal formats turn.clock device.scope (publish unmarshal turn.now device.scope run.base run.hasBase
        localDoc (readPackage remote) remote.isSome (changedEntities reconciled)).1 reconciled key

instance (device : SyncDevice) (run : Run) (remote : Option Document) (turn : Turn) (key : Key) :
    Decidable (StoresAs formats unmarshal device run remote turn key) := by
  unfold StoresAs
  split <;> infer_instance

variable {formats unmarshal}

theorem attempt_stores {device : SyncDevice} {run : Run} {remote : Option Document} {turn : Turn} {applied : Store}
    {merged : Document} {key : Key} (stores : StoresAs formats unmarshal device run remote turn key)
    (selected : inScope device.scope key.1 = true)
    (attempted : attemptOf formats unmarshal device run remote turn = (applied, some merged)) :
    Agree unmarshal (held formats applied key) (merged.get key.1 key.2) := by
  obtain ⟨localDoc, reconciled, built, rfl, done⟩ := attempt_published formats unmarshal attempted
  simp only [StoresAs, built] at stores
  exact apply_stores unmarshal (publish_tidy unmarshal) done selected (stores selected)

theorem readPackage_get (key : Key) : (readPackage remote.package).get key.1 key.2 = remote.holds key := by
  unfold readPackage Remote.holds
  cases remote.package with
  | none => exact newDocument_get ..
  | some document => rfl

end

end AstrLink.System
