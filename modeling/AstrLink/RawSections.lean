import AstrLink.RawVault

/-!
What a critical section of a task can do. Most sections only move their task on
and touch neither the log nor the session (`Quiet`); the others accept a proof,
store or discard a key, install a session, or ask the registry.
-/
namespace AstrLink.RawSections
open RawGrants RawVault
open Function (update)

def pairOf (state : RawSealingState) : Nat × Key := (state.keyID, state.privateKey)

def pairAt : Stage → Option (Nat × Key)
  | .loaded state | .allowed state | .opened state | .repaired state => some (pairOf state)
  | .proved key keyID | .released key keyID => some (keyID, key)
  | _ => none

/-- The proof of the task was accepted. -/
def proven : Stage → Bool
  | .opened _ | .repaired _ | .proved _ _ | .released _ _ | .holding _ => true
  | _ => false

/-- The next section of the task replaces or removes the stored key. -/
def discards (task : Task) : Bool :=
  match task.use, task.stage with
  | .changePassword .reset _, .loaded _ => true
  | .clearPassword, .held => true
  | _, _ => false

/-- The session stays or ends, and no other key than the stored one was read. -/
structure Calms (stored : Option RawSealingState) (before after : Vault) : Prop where
  session : after.session = none ∨ after.session = before.session ∧ after.sessionUntil = before.sessionUntil
  state : after.state = before.state ∨ after.state = stored

variable (vault : Vault) (options : VaultOptions)

namespace Calms
variable {stored : Option RawSealingState}

theorem refl : Calms stored vault vault := ⟨.inr ⟨rfl, rfl⟩, .inl rfl⟩

theorem trans {first second third : Vault} (before : Calms stored first second) (after : Calms stored second third) :
    Calms stored first third := by
  constructor
  · rcases after.session with ended | ⟨same, sameUntil⟩
    · exact .inl ended
    · rw [same, sameUntil]
      exact before.session
  · rcases after.state with same | read
    · rw [same]
      exact before.state
    · exact .inr read

theorem clearSession : Calms stored vault vault.clearSession := ⟨.inl rfl, .inl rfl⟩

theorem expireSession (vault : Vault) (now : Nat) : Calms stored vault (vault.expireSession options now) := by
  rw [Vault.expireSession]
  split_ifs
  · exact refl vault
  · exact clearSession vault

theorem reload : Calms stored vault (vault.reload stored) := by
  unfold Vault.reload
  dsimp only
  split
  · split_ifs
    · exact ⟨.inr ⟨rfl, rfl⟩, .inr rfl⟩
    · exact ⟨.inl rfl, .inr rfl⟩
  · exact ⟨.inr ⟨rfl, rfl⟩, .inr rfl⟩

theorem load : Calms stored vault (vault.load stored) := by
  rw [Vault.load]
  split_ifs
  · exact refl vault
  · exact reload vault

theorem status (vault : Vault) (now : Nat) : Calms stored vault (vault.status options now stored) :=
  (load vault).trans (expireSession options _ now)

theorem noteWrongProof (vault : Vault) (now : Nat) : Calms stored vault (vault.noteWrongProof options now) := by
  rw [Vault.noteWrongProof]
  dsimp only
  split_ifs <;> exact ⟨.inr ⟨rfl, rfl⟩, .inl rfl⟩

theorem noteRightProof : Calms stored vault vault.noteRightProof := ⟨.inr ⟨rfl, rfl⟩, .inl rfl⟩

theorem active {options : VaultOptions} {before after : Vault} {now : Nat} (calms : Calms stored before after)
    (active : after.sessionActive options now = true) :
    before.sessionActive options now = true ∧ after.session = before.session := by
  rcases calms.session with ended | ⟨same, sameUntil⟩
  · simp [Vault.sessionActive, ended] at active
  · rw [Vault.sessionActive, same, sameUntil] at active
    exact ⟨active, same⟩

end Calms

variable {Hash : Type}

/-- A later stage of the task, with its key pair from the one before or a store. -/
structure Follows (world : World Hash) (task later : Task) : Prop where
  use : later.use = task.use
  proven : proven later.stage = true → proven task.stage = true
  pair : ∀ pair, pairAt later.stage = some pair → pairAt task.stage = some pair ∨
    world.vault.state.map pairOf = some pair ∨ world.stored.map pairOf = some pair

structure Quiet (t : Nat) (task : Task) (world next : World Hash) : Prop where
  stored : next.stored.map pairOf = world.stored.map pairOf
  vault : Calms world.stored world.vault next.vault
  tasks : ∃ last, next.tasks = update world.tasks t last ∧ ∀ later, last = some later → Follows world task later
  nextTask : next.nextTask = world.nextTask
  grants : next.grants = world.grants
  now : next.now = world.now
  log : next.log = world.log

inductive Section (options : VaultOptions) (t : Nat) (task : Task) (choice : Choice) (world : World Hash)
    [DecidableEq Hash] : World Hash → Prop where
  | quiet {next : World Hash} (quiet : Quiet t task world next) : Section options t task choice world next
  | accept (state : RawSealingState) (reached : task.stage = .allowed state) :
      Section options t task choice world { world with
        vault := world.vault.noteRightProof
        tasks := update world.tasks t (some { task with stage := .opened state })
        log := world.log ++ [.accepted t] }
  | generate (vault : Vault) (calms : Calms world.stored world.vault vault) (password : List UInt8)
      (isNew : world.newPair choice = true) (stage : Stage) (unproven : proven stage = false)
      (noPair : pairAt stage = none)
      (unset : world.stored = none ∨ discards task = true ∧ choice.failed = false) :
      Section options t task choice world { world with
        stored := some (World.newState choice password)
        vault
        tasks := update world.tasks t (some { task with stage })
        log := world.log ++ [.generated choice.newID choice.newKey] }
  | clear (isClear : discards task = true) (stores : choice.failed = false) :
      Section options t task choice world { world with
        stored := none
        tasks := update world.tasks t (some { task with stage := .discarded }) }
  | install (key : Key) (keyID : Nat) (reached : task.stage = .released key keyID) :
      Section options t task choice world { world with
        vault := world.vault.install options world.now key keyID
        tasks := update world.tasks t none }
  | hold (key : Key) (keyID : Nat) (reached : task.stage = .proved key keyID) (slot : Option Nat)
      (grants : RawGrantRuns.World Hash) (held : world.grants.step (.hold key) = some grants) :
      Section options t task choice world
        (({ world with slot }.withGrants grants).put t task (.holding world.grants.nextHolder))
  | decide (grant : String) (mode : GrantMode) (isUse : task.use = .decide grant mode) (holder : Nat)
      (reached : task.stage = .holding holder) (act : RawGrantRuns.Act Hash)
      (carries : act = .abandon holder ∨ ∃ now keys, act = .approve now grant mode keys holder)
      (grants : RawGrantRuns.World Hash) (stepped : world.grants.step act = some grants) :
      Section options t task choice world ((world.withGrants grants).finish t)
  | revoke (reached : task.stage = .revoking) (clock : Nat) (grants : RawGrantRuns.World Hash)
      (stepped : world.grants.step (.revokeAll clock) = some grants) :
      Section options t task choice world (if task.use = .lock then
        { (world.withGrants grants).finish t with log := (world.withGrants grants).log ++ [.locked] }
        else (world.withGrants grants).finish t)

variable {stage : Stage}

theorem Follows.plain (world : World Hash) (task : Task) (unproven : RawSections.proven stage = false)
    (noPair : pairAt stage = none) : Follows world task { task with stage } where
  use := rfl
  proven := fun isProven => by simp [unproven] at isProven
  pair := fun pair has => by simp [noPair] at has

theorem Follows.keep (world : World Hash) (task : Task)
    (proven : RawSections.proven stage = true → RawSections.proven task.stage = true)
    (same : pairAt stage = pairAt task.stage) : Follows world task { task with stage } where
  use := rfl
  proven := proven
  pair := fun _ has => .inl (same.symm.trans has)

variable {state : RawSealingState}

variable {vault : Vault}

theorem Follows.read {world : World Hash} (task : Task) (loads : Calms world.stored world.vault vault)
    (read : vault.state = some state) (unproven : RawSections.proven stage = false)
    (hasPair : pairAt stage = some (pairOf state)) :
    Follows world task { task with stage } where
  use := rfl
  proven := fun isProven => by simp [unproven] at isProven
  pair := fun pair has => by
    have isPair : vault.state.map pairOf = some pair := by
      rw [read, Option.map_some, ← hasPair]
      exact has
    rcases loads.state with same | stored
    · exact .inr (.inl (same ▸ isPair))
    · exact .inr (.inr (stored ▸ isPair))

variable {world : World Hash} {task : Task}

theorem Quiet.put {t : Nat} {stored : Option RawSealingState} (slot : Option Nat)
    (sameStored : stored.map pairOf = world.stored.map pairOf) (calms : Calms world.stored world.vault vault)
    (follows : Follows world task { task with stage }) :
    Quiet t task world ({ world with stored, vault, slot }.put t task stage) where
  stored := sameStored
  vault := calms
  tasks := ⟨_, rfl, fun _ isLater => Option.some.inj isLater ▸ follows⟩
  nextTask := rfl
  grants := rfl
  now := rfl
  log := rfl

theorem Quiet.finish (world : World Hash) (t : Nat) (task : Task) (slot : Option Nat) :
    Quiet t task world ({ world with slot }.finish t) where
  stored := rfl
  vault := .refl _
  tasks := ⟨none, rfl, fun _ isLater => by cases isLater⟩
  nextTask := rfl
  grants := rfl
  now := rfl
  log := rfl

theorem Quiet.leave {t : Nat} (calms : Calms world.stored world.vault vault) (done : Bool) :
    Quiet t task world ({ world with vault }.put t task (.leaving done)) :=
  .put world.slot rfl calms (.plain world task rfl rfl)

theorem continueOpened_quiet {t : Nat} (isTask : world.tasks t = some task) (isProven : proven task.stage = true)
    (hasPair : pairAt task.stage = some (pairOf state)) (calms : Calms world.stored world.vault vault)
    (choice : Choice) : Quiet t task world ({ world with vault }.continueOpened options t task state choice) := by
  have stays : Quiet t task world { world with vault } :=
    ⟨rfl, calms, ⟨some task, by rw [← isTask, Function.update_eq_self], fun later isLater => by
      cases isLater
      exact .keep world task id rfl⟩, rfl, rfl, rfl, rfl⟩
  have goesOn : Quiet t task world ({ world with vault }.put t task (.proved state.privateKey state.keyID)) :=
    .put world.slot rfl calms (.keep world task (fun _ => isProven) hasPair.symm)
  cases use : task.use with
  | unlock => simpa only [World.continueOpened, use] using goesOn
  | decide grant mode => simpa only [World.continueOpened, use] using goesOn
  | verify =>
    have leaves : Quiet t task world
        ({ world with vault := vault.status options world.now world.stored }.put t task (.leaving false)) :=
      .leave (calms.trans (.status options vault world.now)) false
    simpa only [World.continueOpened, use] using leaves
  | changePassword action password =>
    simp only [World.continueOpened, use]
    split
    next stored isStored =>
      split
      · exact .leave calms false
      · refine .put world.slot (by rw [isStored]; rfl) calms (.plain world task ?_ ?_) <;> split <;> rfl
    next => exact .leave calms false
  | clearPassword => simpa only [World.continueOpened, use] using stays
  | lock => simpa only [World.continueOpened, use] using stays

variable [DecidableEq Hash] {options : VaultOptions} {world next : World Hash} {t : Nat} {task : Task} {choice : Choice}

theorem waiting_section (reached : task.stage = .waiting) (ran : world.run options t task choice = some next) :
    Section options t task choice world next := by
  simp only [World.run, reached] at ran
  split at ran
  · cases ran
    exact .quiet (.put world.slot rfl (.clearSession _) (.plain world task rfl rfl))
  · split_ifs at ran
    · cases ran
      exact .quiet (.finish world t task world.slot)
    · cases ran
      exact .quiet (.put (some t) rfl (.refl _) (.plain world task rfl rfl))

theorem held_section (reached : task.stage = .held) (ran : world.run options t task choice = some next) :
    Section options t task choice world next := by
  have loads : Calms world.stored world.vault (world.vault.load world.stored) := .load _
  cases use : task.use with
  | unlock | verify | decide grant mode =>
    simp only [World.run, reached, use] at ran
    cases ran
    refine .quiet (.put world.slot rfl (.refl _) (.plain world task ?_ ?_)) <;> split <;> rfl
  | changePassword action password =>
    cases read : (world.vault.load world.stored).state with
    | none =>
      cases action with
      | set =>
        simp only [World.run, reached, use, read] at ran
        split_ifs at ran with failed isEmpty isStored isNew
        · cases ran
          exact .quiet (.leave (.refl _) false)
        · cases ran
          exact .quiet (.leave loads false)
        · cases ran
          exact .quiet (.leave loads false)
        · cases ran
          exact .generate _ loads password isNew .written rfl rfl (.inl (by simpa using isStored))
      | change | reset =>
        simp only [World.run, reached, use, read] at ran
        split_ifs at ran
        · cases ran
          exact .quiet (.leave (.refl _) false)
        · cases ran
          exact .quiet (.leave loads false)
    | some state =>
      have follows : Follows world task { task with stage := .loaded state } := .read task loads read rfl rfl
      cases action with
      | set =>
        simp only [World.run, reached, use, read] at ran
        split_ifs at ran
        · cases ran
          exact .quiet (.leave (.refl _) false)
        · cases ran
          exact .quiet (.leave loads false)
      | change | reset =>
        simp only [World.run, reached, use, read] at ran
        split_ifs at ran
        · cases ran
          exact .quiet (.leave (.refl _) false)
        · cases ran
          exact .quiet (.leave loads false)
        · cases ran
          exact .quiet (.put world.slot rfl loads follows)
  | clearPassword =>
    simp only [World.run, reached, use] at ran
    split_ifs at ran with failed
    · cases ran
      exact .quiet (.leave (.refl _) false)
    · cases ran
      exact .clear (by simp [discards, use, reached]) (by simpa using failed)
  | lock =>
    simp only [World.run, reached, use] at ran
    cases ran

theorem passed_section (reached : task.stage = .passed) (ran : world.run options t task choice = some next) :
    Section options t task choice world next := by
  have loads : Calms world.stored world.vault (world.vault.load world.stored) := .load _
  cases read : (world.vault.load world.stored).state with
  | none =>
    simp only [World.run, reached, read] at ran
    split_ifs at ran
    · cases ran
      exact .quiet (.leave (.refl _) false)
    · cases ran
      exact .quiet (.leave loads false)
  | some state =>
    simp only [World.run, reached, read] at ran
    split_ifs at ran
    · cases ran
      exact .quiet (.leave (.refl _) false)
    · cases ran
      exact .quiet (.put world.slot rfl loads (.read task loads read rfl rfl))
    · cases ran
      exact .quiet (.leave loads false)

theorem loaded_section (reached : task.stage = .loaded state) (ran : world.run options t task choice = some next) :
    Section options t task choice world next := by
  cases use : task.use with
  | unlock | verify | decide grant mode | clearPassword | lock =>
    simp only [World.run, reached, use] at ran
    cases ran
  | changePassword action password =>
    cases action with
    | set =>
      simp only [World.run, reached, use] at ran
      cases ran
    | change =>
      simp only [World.run, reached, use] at ran
      cases ran
      split
      · exact .quiet (.put world.slot rfl (.refl _)
          (.keep world task (fun isProven => by cases isProven) (by rw [reached]; rfl)))
      · exact .quiet (.leave (.refl _) false)
    | reset =>
      simp only [World.run, reached, use] at ran
      split_ifs at ran with failed isNew
      · cases ran
        exact .quiet (.leave (.refl _) false)
      · cases ran
        exact .generate _ (.refl _) password isNew .discarded rfl rfl
          (.inr ⟨by simp [discards, use, reached], by simpa using failed⟩)

theorem allowed_section (reached : task.stage = .allowed state) (ran : world.run options t task choice = some next) :
    Section options t task choice world next := by
  simp only [World.run, reached, World.prove] at ran
  cases ran
  split
  · exact .accept state reached
  · exact .quiet (.leave (.noteWrongProof options world.vault world.now) false)
  · exact .quiet (.leave (.refl _) false)

theorem opened_section (isTask : world.tasks t = some task) (reached : task.stage = .opened state)
    (ran : world.run options t task choice = some next) :
    Section options t task choice world next := by
  have isProven : proven task.stage = true := by rw [reached]; rfl
  have hasPair : pairAt task.stage = some (pairOf state) := by rw [reached]; rfl
  have goesOn : Quiet t task world (world.continueOpened options t task state choice) :=
    continueOpened_quiet options isTask isProven hasPair (.refl world.vault) choice
  simp only [World.run, reached] at ran
  split_ifs at ran with repairs
  · split at ran
    next stored isStored =>
      split_ifs at ran
      · cases ran
        exact .quiet goesOn
      · cases ran
        exact .quiet (.put world.slot (by rw [isStored]; rfl) (.refl _)
          (.keep world task (fun _ => isProven) hasPair.symm))
    next =>
      cases ran
      exact .quiet goesOn
  · cases ran
    exact .quiet goesOn

theorem repaired_section (isTask : world.tasks t = some task) (reached : task.stage = .repaired state)
    (ran : world.run options t task choice = some next) :
    Section options t task choice world next := by
  have isProven : proven task.stage = true := by rw [reached]; rfl
  have hasPair : pairAt task.stage = some (pairOf state) := by rw [reached]; rfl
  simp only [World.run, reached] at ran
  cases ran
  split
  · exact .quiet (continueOpened_quiet options isTask isProven hasPair (.refl world.vault) _)
  · exact .quiet (continueOpened_quiet options isTask isProven hasPair (.reload world.vault) _)

theorem proved_section {key : Key} {keyID : Nat} (reached : task.stage = .proved key keyID)
    (ran : world.run options t task choice = some next) : Section options t task choice world next := by
  have follows : Follows world task { task with stage := .released key keyID } :=
    .keep world task (fun _ => by rw [reached]; rfl) (by rw [reached]; rfl)
  simp only [World.run, reached] at ran
  split at ran
  · split at ran
    next grants held =>
      cases ran
      exact .hold key keyID reached none grants held
    next => cases ran
  · cases ran
    exact .quiet (.put none rfl (.refl _) follows)

theorem holding_section {holder : Nat} (reached : task.stage = .holding holder)
    (ran : world.run options t task choice = some next) : Section options t task choice world next := by
  simp only [World.run, reached] at ran
  split at ran
  next grant mode isUse =>
    obtain ⟨grants, stepped, rfl⟩ := Option.map_eq_some_iff.mp ran
    refine .decide grant mode isUse holder reached _ ?_ grants stepped
    split
    · exact .inl rfl
    · exact .inr ⟨_, _, rfl⟩
  next => cases ran

theorem revoking_section (reached : task.stage = .revoking) (ran : world.run options t task choice = some next) :
    Section options t task choice world next := by
  simp only [World.run, reached] at ran
  obtain ⟨grants, stepped, rfl⟩ := Option.map_eq_some_iff.mp ran
  exact .revoke reached choice.clock grants stepped

theorem run_section (isTask : world.tasks t = some task) (ran : world.run options t task choice = some next) :
    Section options t task choice world next := by
  cases reached : task.stage with
  | waiting => exact waiting_section reached ran
  | held => exact held_section reached ran
  | passed => exact passed_section reached ran
  | loaded state => exact loaded_section reached ran
  | allowed state => exact allowed_section reached ran
  | opened state => exact opened_section isTask reached ran
  | repaired state => exact repaired_section isTask reached ran
  | proved key keyID => exact proved_section reached ran
  | released key keyID =>
    simp only [World.run, reached] at ran
    cases ran
    exact .install key keyID reached
  | holding holder => exact holding_section reached ran
  | rewrapped keyID =>
    simp only [World.run, reached] at ran
    split_ifs at ran
    · cases ran
      exact .quiet (.leave (.refl _) false)
    · cases ran
      refine .quiet (.put world.slot ?_ (.refl _) (.plain world task rfl rfl))
      rw [Option.map_map]
      refine congrArg (fun f => world.stored.map f) (funext fun stored => ?_)
      simp only [Function.comp]
      split <;> rfl
  | discarded =>
    simp only [World.run, reached] at ran
    cases ran
    exact .quiet (.put world.slot rfl (.clearSession _) (.plain world task rfl rfl))
  | written =>
    simp only [World.run, reached] at ran
    split_ifs at ran
    · cases ran
      exact .quiet (.leave (.refl _) false)
    · cases ran
      exact .quiet (.leave ((Calms.reload _).trans (.status options _ world.now)) true)
  | leaving done =>
    simp only [World.run, reached] at ran
    split at ran
    · cases ran
      exact .quiet (.put none rfl (.refl _) (.plain world task rfl rfl))
    · cases ran
      exact .quiet (.finish world t task none)
  | revoking => exact revoking_section reached ran

end AstrLink.RawSections
