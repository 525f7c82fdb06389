import AstrLink.RawGrantRuns
import Mathlib.Algebra.Ring.Nat

/-!
The vault that guards the raw sealing key, with the handlers around it, each a task that takes its critical
sections one after another (`World.run`). The pair of a key is given by its private key, an envelope by the
secret that opens it, and `now` is a monotonic clock.
-/
namespace AstrLink.RawVault
open RawGrants
open Function (update)

structure RawProof where
  password : List UInt8
  biometric : List UInt8

def RawProof.empty (proof : RawProof) : Bool := proof.password.isEmpty && proof.biometric.isEmpty

/-- The stored sealing key, with the secrets that its envelopes open with. -/
structure RawSealingState where
  keyID : Nat
  privateKey : Key
  macValid : Bool
  password : Option (List UInt8)
  biometric : Option (List UInt8)
deriving DecidableEq

inductive Opening where
  | accepted
  | wrong
  | refused
deriving DecidableEq

def RawSealingState.opens (state : RawSealingState) (proof : RawProof) : Opening :=
  if !proof.password.isEmpty then
    match state.password with
    | none => .refused
    | some secret => if secret = proof.password then .accepted else .wrong
  else if !proof.biometric.isEmpty then
    match state.biometric with
    | none => .refused
    | some secret => if secret = proof.biometric then .accepted else .wrong
  else .refused

structure VaultOptions where
  readOnly : Bool
  /-- An unlock stays open until a lock, with no idle deadline. -/
  untilLock : Bool
  backoffCap : Nat

structure Vault where
  stateLoaded : Bool
  /-- The key as it was read last; none when none was configured. -/
  state : Option RawSealingState
  session : Option (Key × Nat)
  sessionUntil : Nat
  failures : Nat
  blockedUntil : Nat

def rawUnlockIdle : Nat := 900 * second

def rawBackoffFreeFailures : Nat := 2

namespace Vault

def clearSession (vault : Vault) : Vault := { vault with session := none, sessionUntil := 0 }

/-- The session has not been idle too long. -/
def sessionActive (options : VaultOptions) (vault : Vault) (now : Nat) : Bool :=
  vault.session.isSome && (options.untilLock || decide (now < vault.sessionUntil))

/-- `sessionActiveLocked` clears a session that is over. -/
def expireSession (options : VaultOptions) (vault : Vault) (now : Nat) : Vault :=
  if vault.sessionActive options now then vault else vault.clearSession

/-- Each call is a raw read and restarts the idle window. -/
def unlockedOpener (options : VaultOptions) (vault : Vault) (now : Nat) : Vault :=
  if vault.sessionActive options now then
    if options.untilLock then vault else { vault with sessionUntil := now + rawUnlockIdle }
  else vault.clearSession

/-- The last section of `Unlock`. -/
def install (options : VaultOptions) (vault : Vault) (now : Nat) (key : Key) (keyID : Nat) : Vault :=
  { vault.clearSession with
    session := some (key, keyID)
    sessionUntil := if options.untilLock then 0 else now + rawUnlockIdle }

/-- Reads the stored key; a session of another key ends. -/
def reload (vault : Vault) (stored : Option RawSealingState) : Vault :=
  let loaded := { vault with stateLoaded := true, state := stored }
  match stored, vault.session with
  | some state, some (_, keyID) => if keyID = state.keyID then loaded else loaded.clearSession
  | _, _ => loaded

/-- Reads the stored key once. -/
def load (vault : Vault) (stored : Option RawSealingState) : Vault :=
  if vault.stateLoaded then vault else vault.reload stored

def status (options : VaultOptions) (vault : Vault) (now : Nat) (stored : Option RawSealingState) : Vault :=
  (vault.load stored).expireSession options now

def noteWrongProof (options : VaultOptions) (vault : Vault) (now : Nat) : Vault :=
  let failures := vault.failures + 1
  if failures ≤ rawBackoffFreeFailures then { vault with failures }
  else
    let shift := failures - rawBackoffFreeFailures - 1
    let delay := if shift < 30 then min (second * 2 ^ shift) options.backoffCap else options.backoffCap
    { vault with failures, blockedUntil := now + delay }

def noteRightProof (vault : Vault) : Vault := { vault with failures := 0, blockedUntil := 0 }

end Vault

inductive RawPasswordAction where
  | set
  | change
  | reset
deriving DecidableEq

/-- What a task is for. -/
inductive Use where
  | unlock
  | verify
  /-- The decision on a grant, with `HoldKey` in it. -/
  | decide (grant : String) (mode : GrantMode)
  | changePassword (action : RawPasswordAction) (password : List UInt8)
  | clearPassword
  /-- The lock handler: `Lock`, then all grants are revoked. -/
  | lock
deriving DecidableEq

/-- How far a task is. -/
inductive Stage where
  | waiting
  /-- The task has the slot. -/
  | held
  | passed
  | loaded (state : RawSealingState)
  /-- The key is read and the backoff lets the proof be checked. -/
  | allowed (state : RawSealingState)
  /-- The proof was accepted. -/
  | opened (state : RawSealingState)
  /-- The MAC of the public key was refreshed; the key is read again next. -/
  | repaired (state : RawSealingState)
  /-- The proof's work on the slot is done. -/
  | proved (key : Key) (keyID : Nat)
  /-- The slot is free again. -/
  | released (key : Key) (keyID : Nat)
  | holding (holder : Nat)
  /-- The new password is stored; the old Touch ID goes next. -/
  | rewrapped (keyID : Nat)
  /-- The old key is discarded; the session is cleared next. -/
  | discarded
  /-- The key is read again next. -/
  | written
  /-- The slot is given back next; whether the task then revokes all grants. -/
  | leaving (done : Bool)
  /-- All grants are revoked next. -/
  | revoking
deriving DecidableEq

structure Task where
  use : Use
  proof : RawProof
  stage : Stage

inductive Event (Hash : Type) where
  | submitted (task : Nat)
  /-- The proof of the task opened the key. -/
  | accepted (task : Nat)
  | generated (keyID : Nat) (key : Key)
  /-- A lock has completed. -/
  | locked
  /-- A raw part was opened with the unlock session. -/
  | opened
  | granted (event : RawGrantRuns.Event Hash)
deriving DecidableEq

structure World (Hash : Type) where
  stored : Option RawSealingState
  vault : Vault
  slot : Option Nat
  tasks : Nat → Option Task
  nextTask : Nat
  grants : RawGrantRuns.World Hash
  now : Nat
  log : List (Event Hash)

/-- What the environment decides of a section. -/
structure Choice where
  /-- Storage fails, or the request is cancelled. -/
  failed : Bool
  /-- The key pair that is generated. -/
  newID : Nat
  newKey : Key
  /-- The wall clock. -/
  clock : Nat
  keys : List (AuditDirection × Key)

/-- The fields of an audit part that decide whether a key opens it. -/
structure AuditBlob where
  rawSealed : Bool
  rawKeyID : Nat

inductive Act (Hash : Type) where
  | tick (elapsed : Nat)
  /-- A request arrives; one that decides on a grant first looks whether it is pending. -/
  | submit (use : Use) (proof : RawProof) (clock : Nat)
  | run (task : Nat) (choice : Choice)
  | status
  | unlockedOpener
  /-- A read opens a part with the opener it got. -/
  | openBlob (blob : AuditBlob)
  /-- The idle timer fires. -/
  | expireSession
  /-- The registry is asked for something else than a decision that carries a key. -/
  | grants (act : RawGrantRuns.Act Hash)

section
variable {Hash : Type}

/-- Nothing is configured, and nothing was read yet. -/
def start : World Hash :=
  { stored := none
    vault :=
      { stateLoaded := false, state := none, session := none, sessionUntil := 0, failures := 0, blockedUntil := 0 }
    slot := none, tasks := fun _ => none, nextTask := 0, grants := RawGrantRuns.start, now := 0, log := [] }

/-- A registry act that is no decision with a held key. -/
def plainAct : RawGrantRuns.Act Hash → Bool
  | .hold _ | .abandon _ | .approve _ _ _ _ _ => false
  | _ => true

namespace World
variable (options : VaultOptions)

def put (world : World Hash) (t : Nat) (task : Task) (stage : Stage) : World Hash :=
  { world with tasks := update world.tasks t (some { task with stage }) }

def finish (world : World Hash) (t : Nat) : World Hash := { world with tasks := update world.tasks t none }

/-- A task is handed in. -/
def submit (world : World Hash) (use : Use) (proof : RawProof) : World Hash :=
  { world with
    tasks := update world.tasks world.nextTask (some { use, proof, stage := .waiting })
    nextTask := world.nextTask + 1
    log := world.log ++ [.submitted world.nextTask] }

/-- What the registry logged is logged. -/
def withGrants (world : World Hash) (grants : RawGrantRuns.World Hash) : World Hash :=
  { world with grants, log := world.log ++ (grants.log.drop world.grants.log.length).map .granted }

def newPair (world : World Hash) (choice : Choice) : Bool :=
  !world.log.any fun event => match event with
    | .generated keyID _ => keyID = choice.newID
    | _ => false

/-- A key that `newKey` made: opened by the password only. -/
def newState (choice : Choice) (password : List UInt8) : RawSealingState :=
  { keyID := choice.newID, privateKey := choice.newKey, macValid := true, password := some password, biometric := none }

/-- A generated key is stored. -/
def storeNew (world : World Hash) (choice : Choice) (password : List UInt8) : World Hash :=
  { world with
    stored := some (newState choice password)
    log := world.log ++ [.generated choice.newID choice.newKey] }

/-- The proof of a task is checked, or counts as wrong. -/
def prove (world : World Hash) (t : Nat) (task : Task) (state : RawSealingState) : World Hash :=
  match state.opens task.proof with
  | .accepted =>
    let world := { world with vault := world.vault.noteRightProof, log := world.log ++ [RawVault.Event.accepted t] }
    world.put t task (.opened state)
  | .wrong => { world with vault := world.vault.noteWrongProof options world.now }.put t task (.leaving false)
  | .refused => world.put t task (.leaving false)

/-- After an accepted proof: what the task does with the key while it has the slot. -/
def continueOpened (world : World Hash) (t : Nat) (task : Task) (state : RawSealingState) (choice : Choice) :
    World Hash :=
  match task.use with
  | .unlock | .decide _ _ => world.put t task (.proved state.privateKey state.keyID)
  | .verify => { world with vault := world.vault.status options world.now world.stored }.put t task (.leaving false)
  | .changePassword _ password =>
    match world.stored with
    | some stored =>
      if choice.failed || stored.keyID ≠ state.keyID then world.put t task (.leaving false)
      else
        { world with stored := some { stored with password := some password } }.put t task
          (if state.biometric.isSome then .rewrapped state.keyID else .written)
    | none => world.put t task (.leaving false)
  | .clearPassword | .lock => world

variable [DecidableEq Hash]

/-- The next critical section of a task. -/
def run (world : World Hash) (t : Nat) (task : Task) (choice : Choice) : Option (World Hash) :=
  match task.stage with
  | .waiting =>
    match task.use with
    | .lock => some ({ world with vault := world.vault.clearSession }.put t task .revoking)
    | _ =>
      if choice.failed then some (world.finish t)
      else if world.slot = none then some ({ world with slot := some t }.put t task .held)
      else none
  | .held =>
    match task.use with
    | .unlock | .verify | .decide _ _ =>
      -- checkBackoff
      some (world.put t task (if world.vault.blockedUntil ≤ world.now then .passed else .leaving false))
    | .changePassword action password =>
      if choice.failed then some (world.put t task (.leaving false))
      else
        let world := { world with vault := world.vault.load world.stored }
        match action, world.vault.state with
        | .set, none =>
          -- createWithPassword
          if password.isEmpty then some (world.put t task (.leaving false))
          else if world.stored.isSome then some (world.put t task (.leaving false))
          else if world.newPair choice then some ((world.storeNew choice password).put t task .written)
          else none
        | .set, some _ | .change, none | .reset, none => some (world.put t task (.leaving false))
        | .change, some state | .reset, some state =>
          some (world.put t task (if password.isEmpty then .leaving false else .loaded state))
    | .clearPassword =>
      if choice.failed then some (world.put t task (.leaving false))
      else some ({ world with stored := none }.put t task .discarded)
    | .lock => none
  | .passed =>
    if choice.failed then some (world.put t task (.leaving false))
    else
      let world := { world with vault := world.vault.load world.stored }
      match world.vault.state with
      | some state => some (world.put t task (if state.password.isSome then .allowed state else .leaving false))
      | none => some (world.put t task (.leaving false))
  | .loaded state =>
    match task.use with
    | .changePassword .change _ =>
      -- proveLocked
      some (world.put t task (if state.password.isSome && !task.proof.password.isEmpty &&
        decide (world.vault.blockedUntil ≤ world.now) then .allowed state else .leaving false))
    | .changePassword .reset password =>
      -- replace
      if choice.failed then some (world.put t task (.leaving false))
      else if world.newPair choice then some ((world.storeNew choice password).put t task .discarded)
      else none
    | _ => none
  | .allowed state => some (world.prove options t task state)
  | .opened state =>
    -- repairAfterProof
    if !options.readOnly && !state.macValid then
      match world.stored with
      | some stored =>
        if choice.failed || stored.keyID ≠ state.keyID then some (world.continueOpened options t task state choice)
        else some ({ world with stored := some { stored with macValid := true } }.put t task (.repaired state))
      | none => some (world.continueOpened options t task state choice)
    else some (world.continueOpened options t task state choice)
  | .repaired state =>
    let world := if choice.failed then world else { world with vault := world.vault.reload world.stored }
    some (world.continueOpened options t task state { choice with failed := false })
  | .proved key keyID =>
    let world := { world with slot := none }
    match task.use with
    | .decide _ _ =>
      -- The opener that HoldKey returns is handed to the decision.
      match world.grants.step (.hold key) with
      | some grants => some ((world.withGrants grants).put t task (.holding world.grants.nextHolder))
      | none => none
    | _ => some (world.put t task (.released key keyID))
  | .released key keyID =>
    some ({ world with vault := world.vault.install options world.now key keyID }.finish t)
  | .holding holder =>
    match task.use with
    | .decide grant mode =>
      let act : RawGrantRuns.Act Hash :=
        if choice.failed then .abandon holder else .approve choice.clock grant mode choice.keys holder
      (world.grants.step act).map fun grants => (world.withGrants grants).finish t
    | _ => none
  | .rewrapped keyID =>
    if choice.failed then some (world.put t task (.leaving false))
    else
      let stored := world.stored.map fun stored =>
        if stored.keyID = keyID then { stored with biometric := none } else stored
      some ({ world with stored }.put t task .written)
  | .discarded => some ({ world with vault := world.vault.clearSession }.put t task .written)
  | .written =>
    if choice.failed then some (world.put t task (.leaving false))
    else
      let vault := (world.vault.reload world.stored).status options world.now world.stored
      some ({ world with vault }.put t task (.leaving true))
  | .leaving done =>
    let world := { world with slot := none }
    match done, task.use with
    | true, .changePassword _ _ => some (world.put t task .revoking)
    | _, _ => some (world.finish t)
  | .revoking =>
    (world.grants.step (.revokeAll choice.clock)).map fun grants =>
      let world := (world.withGrants grants).finish t
      if task.use = .lock then { world with log := world.log ++ [.locked] } else world

def step (world : World Hash) : Act Hash → Option (World Hash)
  | .tick elapsed => some { world with now := world.now + elapsed }
  | .submit use proof clock =>
    match use with
    | .unlock | .verify | .changePassword .change _ => if proof.empty then none else some (world.submit use proof)
    | .decide grant mode =>
      if proof.empty || mode = .deny then none
      else
        -- The decision goes on only if the grant is pending.
        match world.grants.registry.pendingGrant clock grant, world.grants.step (.expire clock) with
        | (_, .ok _), some grants => some ((world.withGrants grants).submit use proof)
        | (_, .error _), some grants => some (world.withGrants grants)
        | _, none => none
    | .changePassword _ _ | .clearPassword | .lock => some (world.submit use proof)
  | .run t choice =>
    match world.tasks t with
    | some task => world.run options t task choice
    | none => none
  | .status => some { world with vault := world.vault.status options world.now world.stored }
  | .unlockedOpener => some { world with vault := world.vault.unlockedOpener options world.now }
  | .openBlob blob =>
    let opens := world.vault.sessionActive options world.now && blob.rawSealed &&
      world.vault.session.any fun session => session.2 = blob.rawKeyID
    let vault := world.vault.expireSession options world.now
    some { world with vault, log := if opens then world.log ++ [.opened] else world.log }
  | .expireSession =>
    if options.untilLock then none else some { world with vault := world.vault.expireSession options world.now }
  | .grants act => if plainAct act then (world.grants.step act).map world.withGrants else none

end World

end

end AstrLink.RawVault
