import AstrLink.NextRun
import AstrLink.Runs

/-!
The one-shot force push. A save of the settings may arm it, and a run consumes the arming it observed at its
start once it has stored the package. A generation number tells the armings apart.
-/
namespace AstrLink.ForcePush
open Runs
open NextRun (TriggerSettings minSyncIntervalMinutes minSyncDebounceSeconds)

inductive RemoteKind where
  | unset
  | webdav
  | s3
  | unsupported
  deriving DecidableEq

inductive Addressing where
  | unset
  | path
  | suffix
  | unsupported
  deriving DecidableEq

structure SyncRemote where
  kind : RemoteKind
  endpoint : String
  path : String
  region : String
  username : String
  password : String
  accessKey : String
  secretKey : String
  addressing : Addressing
  deriving DecidableEq

structure SyncScope where
  services : Bool
  credentials : Bool
  policies : Bool
  pricing : Bool
  tokens : Bool
  deriving DecidableEq

structure SyncConfig where
  enabled : Bool
  trigger : TriggerSettings
  scope : SyncScope
  remote : SyncRemote
  deviceName : String
  forcePush : Bool

inductive ConfigError where
  | intervalTooShort
  | cronRequired
  | cronInvalid
  | modeUnsupported
  | debounce
  | webdavEndpoint
  | webdavFolder
  | s3Endpoint
  | addressingUnsupported
  | withoutRemote
  | remoteUnsupported
  | deviceName

def maxSyncDebounceSeconds : Int := 3600
def maxSyncDeviceNameLength : Nat := 40

def validateTrigger (trigger : TriggerSettings) : Except ConfigError Unit :=
  match trigger.mode with
  | .interval => if trigger.intervalMinutes < minSyncIntervalMinutes then .error .intervalTooShort else .ok ()
  | .cron => if trigger.cron = [] then .error .cronRequired else .ok ()
  | .manual => .ok ()
  | .unsupported => .error .modeUnsupported

def validateRemote (enabled : Bool) (remote : SyncRemote) : Except ConfigError Unit :=
  match remote.kind with
  | .webdav =>
    if remote.endpoint = "" then .error .webdavEndpoint
    else if Normalizing.trimSpace remote.path.toList = [] then .error .webdavFolder
    else .ok ()
  | .s3 =>
    if remote.endpoint = "" || remote.path = "" then .error .s3Endpoint
    else if remote.addressing = .unsupported then .error .addressingUnsupported
    else .ok ()
  | .unset => if enabled then .error .withoutRemote else .ok ()
  | .unsupported => .error .remoteUnsupported

def validateSyncConfig (config : SyncConfig) : Except ConfigError Unit := do
  validateTrigger config.trigger
  let debounce := config.trigger.debounceSeconds
  if debounce ≠ 0 && (debounce < minSyncDebounceSeconds || maxSyncDebounceSeconds < debounce) then throw .debounce
  validateRemote config.enabled config.remote
  if maxSyncDeviceNameLength < config.deviceName.length then throw .deviceName

structure Row where
  config : SyncConfig
  forcePushGeneration : Nat

/-- Counts a generation when the flag is set anew or for another remote or scope. -/
def updateSyncConfig (row : Row) (config : SyncConfig) : Row where
  config := config
  forcePushGeneration := row.forcePushGeneration +
    if config.forcePush &&
        (!row.config.forcePush || row.config.remote ≠ config.remote || row.config.scope ≠ config.scope) then 1
    else 0

/-- The statement that clears the flag for the generation that a run observed. -/
def consumeForcePush (row : Row) (generation : Nat) : Row :=
  if row.forcePushGeneration = generation && row.config.forcePush then
    { row with config := { row.config with forcePush := false } }
  else row

/-- What the engine stores of settings that it accepts. -/
def canonical (config : SyncConfig) : SyncConfig :=
  let config :=
    if config.remote.addressing = .unset then { config with remote := { config.remote with addressing := .path } } else config
  if !config.enabled || config.remote.kind = .unset then { config with forcePush := false } else config

/-- The settings that a save stores; none of settings that are refused. -/
def configured (config : SyncConfig) : Except ConfigError SyncConfig := do
  validateSyncConfig config
  if config.trigger.mode = .cron then
    match CronSchedule.parse config.trigger.cron with
    | .error _ => throw .cronInvalid
    | .ok _ => pure ()
  return canonical config

def Arms (before after : SyncConfig) : Prop :=
  after.forcePush = true ∧ (before.forcePush = false ∨ before.remote ≠ after.remote ∨ before.scope ≠ after.scope)

instance (before after : SyncConfig) : Decidable (Arms before after) := inferInstanceAs (Decidable (_ ∧ _))

structure Observed where
  config : SyncConfig
  generation : Nat
  started : Nat
  served : Option Nat

/-- The row and the runs; the rest is recorded: the settings saved last, the arming in force and those consumed. -/
structure World where
  row : Row
  runs : Nat → Option Observed
  clock : Nat
  saved : SyncConfig
  armed : Option Nat
  consumed : List Nat

inductive Act where
  | configure (config : SyncConfig)
  | startRun (run : Nat)
  | completeRun (run : Nat)
  | failRun (run : Nat)

def World.configure (world : World) (config : SyncConfig) : World where
  row := updateSyncConfig world.row config
  runs := world.runs
  clock := world.clock + 1
  saved := config
  armed :=
    if config.forcePush then if Arms world.row.config config then some world.clock else world.armed
    else none
  consumed := world.consumed

def World.startRun (world : World) (run : Nat) : World :=
  let observed := {
    config := world.row.config
    generation := world.row.forcePushGeneration
    started := world.clock
    served := world.armed }
  { world with runs := Function.update world.runs run (some observed), clock := world.clock + 1 }

/-- The end of a run that stored its package: a run that saw the flag consumes it. -/
def World.completeRun (world : World) (run : Nat) (observed : Observed) : World :=
  let row := if observed.config.forcePush then consumeForcePush world.row observed.generation else world.row
  { world with
    row
    runs := Function.update world.runs run none
    clock := world.clock + 1
    armed := if row.config.forcePush then world.armed else none
    consumed := if row.config.forcePush then world.consumed else world.consumed ++ world.armed.toList }

def World.step (world : World) : Act → Option World
  | .configure config =>
    match configured config with
    | .error _ => some world
    | .ok config => some (world.configure config)
  | .startRun run => if (world.runs run).isNone then some (world.startRun run) else none
  | .completeRun run => (world.runs run).map (world.completeRun run)
  | .failRun run =>
    (world.runs run).map fun _ => { world with runs := Function.update world.runs run none, clock := world.clock + 1 }

/-- The row of a new installation, or of one that was never armed. -/
def start (config : SyncConfig) (generation : Nat) : World where
  row := ⟨{ config with forcePush := false }, generation⟩
  runs := fun _ => none
  clock := 0
  saved := { config with forcePush := false }
  armed := none
  consumed := []

/-- What the world still knows of the arming that a run observed. -/
structure Current (world : World) (observed : Observed) : Prop where
  started : observed.started ≤ world.clock
  flag : observed.served.isSome = observed.config.forcePush
  served : ∀ arming, observed.served = some arming → arming < observed.started
  generation : observed.generation ≤ world.row.forcePushGeneration
  /-- The generation tells whether the arming is still in force. -/
  same : ∀ arming, observed.served = some arming →
    (world.armed = some arming ↔
      world.row.config.forcePush = true ∧ world.row.forcePushGeneration = observed.generation)

structure Good (world : World) : Prop where
  flag : world.armed.isSome = world.row.config.forcePush
  /-- Only the flag may differ from what was saved last. -/
  saved : world.row.config = { world.saved with forcePush := world.row.config.forcePush }
  asked : world.row.config.forcePush = true → world.saved.forcePush = true
  armed : ∀ arming, world.armed = some arming → arming < world.clock ∧ arming ∉ world.consumed
  consumed : ∀ arming ∈ world.consumed, arming < world.clock
  once : world.consumed.Nodup
  runs : ∀ run observed, world.runs run = some observed → Current world observed

theorem good_start (config : SyncConfig) (generation : Nat) : Good (start config generation) := by
  refine ⟨rfl, rfl, ?asked, ?armed, ?consumed, List.nodup_nil, ?runs⟩
  case asked => exact fun flag => absurd flag Bool.false_ne_true
  case armed =>
    intro arming force
    cases force
  case consumed =>
    intro arming listed
    cases listed
  case runs =>
    intro run observed running
    cases running

theorem configure_cases (world : World) (config : SyncConfig) :
    (config.forcePush = true ∧ (world.configure config).armed = some world.clock ∧
      (world.configure config).row.forcePushGeneration = world.row.forcePushGeneration + 1) ∨
    (config.forcePush = true ∧ world.row.config.forcePush = true ∧ (world.configure config).armed = world.armed ∧
      (world.configure config).row.forcePushGeneration = world.row.forcePushGeneration) ∨
    (config.forcePush = false ∧ (world.configure config).armed = none ∧
      (world.configure config).row.forcePushGeneration = world.row.forcePushGeneration) := by
  by_cases asks : config.forcePush = true
  · by_cases arms : Arms world.row.config config
    · refine .inl ⟨asks, by rw [World.configure, if_pos asks, if_pos arms], ?_⟩
      have counts : (config.forcePush && (!world.row.config.forcePush || world.row.config.remote ≠ config.remote ||
          world.row.config.scope ≠ config.scope)) = true := by
        simpa [Arms, or_assoc] using arms
      simp only [World.configure, updateSyncConfig, counts, if_true]
    · have counts : (config.forcePush && (!world.row.config.forcePush || world.row.config.remote ≠ config.remote ||
          world.row.config.scope ≠ config.scope)) = false := by
        rw [Bool.eq_false_iff]
        intro counted
        exact arms (by simpa [Arms, or_assoc] using counted)
      refine .inr (.inl ⟨asks, ?_, by rw [World.configure, if_pos asks, if_neg arms], ?_⟩)
      · by_contra clear
        exact arms ⟨asks, .inl (Bool.eq_false_iff.mpr clear)⟩
      · simp only [World.configure, updateSyncConfig, counts, Bool.false_eq_true, if_false, Nat.add_zero]
  · have off := Bool.eq_false_iff.mpr asks
    refine .inr (.inr ⟨off, by rw [World.configure, if_neg asks], ?_⟩)
    simp only [World.configure, updateSyncConfig, off, Bool.false_and, Bool.false_eq_true, if_false, Nat.add_zero]

variable {world : World}

theorem Good.configure (good : Good world) (config : SyncConfig) : Good (world.configure config) := by
  have choices := configure_cases world config
  have stored : (world.configure config).row.config = config := rfl
  refine ⟨?flag, rfl, id, ?armed, ?consumed, good.once, ?runs⟩
  case flag =>
    rw [stored]
    rcases choices with ⟨asks, arms, -⟩ | ⟨asks, before, keeps, -⟩ | ⟨off, clears, -⟩
    · rw [arms, asks]
      rfl
    · rw [keeps, asks, good.flag, before]
    · rw [clears, off]
      rfl
  case armed =>
    intro arming force
    rcases choices with ⟨-, arms, -⟩ | ⟨-, -, keeps, -⟩ | ⟨-, clears, -⟩
    · cases arms.symm.trans force
      exact ⟨Nat.lt_succ_self _, fun listed => Nat.lt_irrefl _ (good.consumed _ listed)⟩
    · have held := good.armed arming (keeps ▸ force)
      exact ⟨Nat.lt_succ_of_lt held.1, held.2⟩
    · cases clears.symm.trans force
  case consumed =>
    intro arming listed
    exact Nat.lt_succ_of_lt (good.consumed arming listed)
  case runs =>
    intro run observed running
    have current := good.runs run observed running
    refine ⟨Nat.le_succ_of_le current.started, current.flag, current.served, ?generation, ?same⟩
    case generation =>
      have earlier := current.generation
      rcases choices with ⟨-, -, counted⟩ | ⟨-, -, -, counted⟩ | ⟨-, -, counted⟩
      · omega
      · omega
      · omega
    case same =>
      intro arming serves
      have earlier := current.generation
      rw [stored]
      rcases choices with ⟨asks, arms, counted⟩ | ⟨asks, before, keeps, counted⟩ | ⟨off, clears, counted⟩
      · have older := current.served arming serves
        have begun := current.started
        rw [arms, Option.some_inj, counted]
        constructor
        · intro same
          omega
        · rintro ⟨-, same⟩
          omega
      · rw [keeps, counted, current.same arming serves, asks, before]
      · rw [clears, off]
        exact ⟨nofun, fun force => absurd force.1 Bool.false_ne_true⟩

theorem Good.startRun (good : Good world) (run : Nat) : Good (world.startRun run) where
  flag := good.flag
  saved := good.saved
  asked := good.asked
  armed := fun arming force => ⟨Nat.lt_succ_of_lt (good.armed arming force).1, (good.armed arming force).2⟩
  consumed := fun arming listed => Nat.lt_succ_of_lt (good.consumed arming listed)
  once := good.once
  runs := by
    intro other observed running
    simp only [World.startRun] at running
    by_cases same : other = run
    · subst same
      rw [Function.update_self] at running
      cases running
      refine ⟨Nat.le_succ _, good.flag, fun arming force => (good.armed arming force).1, Nat.le_refl _, ?_⟩
      intro arming force
      have armed : world.row.config.forcePush = true := by
        rw [← good.flag, show world.armed = some arming from force]
        rfl
      exact ⟨fun _ => ⟨armed, rfl⟩, fun _ => force⟩
    · rw [Function.update_of_ne same] at running
      have current := good.runs other observed running
      exact { current with started := Nat.le_succ_of_le current.started }

theorem completeRun_cases (good : Good world) {run : Nat} {observed : Observed} (current : Current world observed) :
    (∃ arming, observed.served = some arming ∧ world.armed = some arming ∧
      (world.completeRun run observed).row = { world.row with config := { world.row.config with forcePush := false } } ∧
      (world.completeRun run observed).armed = none ∧
      (world.completeRun run observed).consumed = world.consumed ++ [arming]) ∨
    ((world.armed = none ∨ world.armed ≠ observed.served) ∧ (world.completeRun run observed).row = world.row ∧
      (world.completeRun run observed).armed = world.armed ∧ (world.completeRun run observed).consumed = world.consumed) := by
  have off : world.row.config.forcePush = false → world.armed = none := by
    intro clear
    have none_armed := good.flag.trans clear
    rwa [Option.isSome_eq_false_iff, Option.isNone_iff_eq_none] at none_armed
  by_cases serves : ∃ arming, observed.served = some arming ∧ world.armed = some arming
  · obtain ⟨arming, served, force⟩ := serves
    obtain ⟨flag, generation⟩ := (current.same arming served).mp force
    have observing : observed.config.forcePush = true := by
      rw [← current.flag, served]
      rfl
    have consumes : consumeForcePush world.row observed.generation =
        { world.row with config := { world.row.config with forcePush := false } } := by
      rw [consumeForcePush, flag, Bool.and_true, if_pos (decide_eq_true generation)]
    refine .inl ⟨arming, served, force, ?_, ?_, ?_⟩
    · simp only [World.completeRun, observing, if_true, consumes]
    · simp only [World.completeRun, observing, if_true, consumes, Bool.false_eq_true, if_false]
    · simp only [World.completeRun, observing, if_true, consumes, Bool.false_eq_true, if_false, force, Option.toList_some]
  · have unchanged : (if observed.config.forcePush then consumeForcePush world.row observed.generation else world.row) =
        world.row := by
      split
      · rename_i observing
        have some_served := current.flag.trans observing
        obtain ⟨arming, served⟩ := Option.isSome_iff_exists.mp some_served
        have other : ¬ (decide (world.row.forcePushGeneration = observed.generation) &&
            world.row.config.forcePush) = true := by
          rw [Bool.and_eq_true, decide_eq_true_eq]
          rintro ⟨generation, flag⟩
          exact serves ⟨arming, served, (current.same arming served).mpr ⟨flag, generation⟩⟩
        rw [consumeForcePush, if_neg other]
      · rfl
    refine .inr ⟨?_, ?_, ?_, ?_⟩
    · cases force : world.armed with
      | none => exact .inl rfl
      | some arming =>
        refine .inr fun same => serves ⟨arming, same.symm, force⟩
    · simp only [World.completeRun, unchanged]
    · simp only [World.completeRun, unchanged]
      split
      · rfl
      · rename_i clear
        exact (off (Bool.eq_false_iff.mpr clear)).symm
    · simp only [World.completeRun, unchanged]
      split
      · rfl
      · rename_i clear
        rw [off (Bool.eq_false_iff.mpr clear), Option.toList_none, List.append_nil]

theorem Good.completeRun (good : Good world) {run : Nat} {observed : Observed}
    (running : world.runs run = some observed) : Good (world.completeRun run observed) := by
  have runs_of : ∀ {other still}, (world.completeRun run observed).runs other = some still →
      world.runs other = some still := by
    intro other still running
    simp only [World.completeRun] at running
    by_cases same : other = run
    · rw [same, Function.update_self] at running
      cases running
    · rwa [Function.update_of_ne same] at running
  have clock : (world.completeRun run observed).clock = world.clock + 1 := rfl
  have kept : (world.completeRun run observed).saved = world.saved := rfl
  rcases completeRun_cases good (good.runs run observed running) with
    ⟨arming, served, force, row, armed, consumed⟩ | ⟨-, row, armed, consumed⟩
  · refine ⟨?flag, ?saved, ?asked, ?armed, ?consumed, ?once, ?runs⟩
    case flag =>
      rw [row, armed]
      rfl
    case saved =>
      rw [row, kept, good.saved]
    case asked =>
      rw [row]
      nofun
    case armed =>
      rw [armed]
      nofun
    case consumed =>
      rw [consumed, clock]
      intro other listed
      rcases List.mem_append.mp listed with earlier | last
      · exact Nat.lt_succ_of_lt (good.consumed other earlier)
      · rw [List.mem_singleton.mp last]
        exact Nat.lt_succ_of_lt (good.armed arming force).1
    case once =>
      rw [consumed]
      exact List.nodup_append.mpr ⟨good.once, by simp, by
        rintro other earlier _ last rfl
        rw [List.mem_singleton.mp last] at earlier
        exact (good.armed arming force).2 earlier⟩
    case runs =>
      intro other still running
      have current := good.runs other still (runs_of running)
      refine ⟨Nat.le_succ_of_le current.started, current.flag, current.served, by rw [row]; exact current.generation, ?_⟩
      intro another _
      rw [armed, row]
      exact ⟨nofun, fun force => absurd force.1 Bool.false_ne_true⟩
  · refine ⟨?flag, ?saved, ?asked, ?armed, ?consumed, ?once, ?runs⟩
    case flag => rw [row, armed, good.flag]
    case saved =>
      rw [row, kept]
      exact good.saved
    case asked =>
      rw [row, kept]
      exact good.asked
    case armed =>
      rw [armed, consumed, clock]
      exact fun other force => ⟨Nat.lt_succ_of_lt (good.armed other force).1, (good.armed other force).2⟩
    case consumed =>
      rw [consumed, clock]
      exact fun other listed => Nat.lt_succ_of_lt (good.consumed other listed)
    case once =>
      rw [consumed]
      exact good.once
    case runs =>
      intro other still running
      have current := good.runs other still (runs_of running)
      refine ⟨Nat.le_succ_of_le current.started, current.flag, current.served, by rw [row]; exact current.generation, ?_⟩
      rw [armed, row]
      exact current.same

theorem Good.step {next : World} (good : Good world) (act : Act) (stepped : world.step act = some next) :
    Good next := by
  cases act with
  | configure config =>
    simp only [World.step] at stepped
    split at stepped
    · cases stepped
      exact good
    · cases stepped
      exact good.configure _
  | startRun run =>
    simp only [World.step] at stepped
    split at stepped
    · cases stepped
      exact good.startRun run
    · cases stepped
  | completeRun run =>
    obtain ⟨observed, running, rfl⟩ := Option.map_eq_some_iff.mp stepped
    exact good.completeRun running
  | failRun run =>
    obtain ⟨observed, running, rfl⟩ := Option.map_eq_some_iff.mp stepped
    refine ⟨good.flag, good.saved, good.asked, ?armed, ?consumed, good.once, ?runs⟩
    case armed => exact fun other force => ⟨Nat.lt_succ_of_lt (good.armed other force).1, (good.armed other force).2⟩
    case consumed => exact fun other listed => Nat.lt_succ_of_lt (good.consumed other listed)
    case runs =>
      intro other still running
      dsimp only at running
      by_cases same : other = run
      · rw [same, Function.update_self] at running
        cases running
      · rw [Function.update_of_ne same] at running
        have current := good.runs other still running
        exact { current with started := Nat.le_succ_of_le current.started }

theorem good_reached {config : SyncConfig} {generation : Nat}
    (reached : Reaches World.step (fun _ _ => True) (start config generation) world) : Good world :=
  Reaches.invariant Good (good_start config generation) (fun _ act _ good _ stepped => good.step act stepped) reached

/-- A completed run takes away at most the arming it served, and the saved settings stay. -/
structure Consumes (observed : Observed) (before after : World) : Prop where
  only_served : before.armed ≠ observed.served → after.row = before.row ∧ after.armed = before.armed
  armed_since : ∀ arming, before.armed = some arming → observed.started ≤ arming →
    after.armed = some arming ∧ after.row.config.forcePush = true
  served_gone : ∀ arming, observed.served = some arming → after.armed ≠ some arming
  saved : after.row.config = { before.saved with forcePush := after.row.config.forcePush }
  in_force : after.row.config.forcePush = after.armed.isSome

/-- In any order of saves and runs: a completed run disarms only the arming it observed at its start and leaves the
saved settings and every later arming in force, and no arming is consumed twice. -/
theorem force_push_consumed_once (config : SyncConfig) (generation : Nat) {world : World}
    (reached : Reaches World.step (fun _ _ => True) (start config generation) world) :
    world.consumed.Nodup ∧ (∀ arming, world.armed = some arming → arming ∉ world.consumed) ∧
      ∀ run observed next, world.runs run = some observed → world.step (.completeRun run) = some next →
        Consumes observed world next := by
  have good := good_reached reached
  refine ⟨good.once, fun arming force => (good.armed arming force).2, ?_⟩
  intro run observed next running stepped
  have current := good.runs run observed running
  have same : next = world.completeRun run observed := by
    rw [World.step, running] at stepped
    exact (Option.some.inj stepped).symm
  subst same
  have after := good.completeRun running
  refine ⟨?only_served, ?armed_since, ?served_gone, after.saved, after.flag.symm⟩
  case only_served =>
    intro other
    rcases completeRun_cases good current with ⟨arming, served, force, -⟩ | ⟨-, row, armed, -⟩
    · exact absurd (force.trans served.symm) other
    · exact ⟨row, armed⟩
  case armed_since =>
    intro arming force since
    rcases completeRun_cases good current with ⟨earlier, served, still, -⟩ | ⟨-, row, armed, -⟩
    · have before := current.served earlier served
      cases force.symm.trans still
      omega
    · have kept := armed.trans force
      refine ⟨kept, ?_⟩
      rw [← after.flag, kept]
      rfl
  case served_gone =>
    intro arming served still
    rcases completeRun_cases good current with ⟨-, -, -, -, armed, -⟩ | ⟨other, -, armed, -⟩
    · cases armed.symm.trans still
    · have force := armed.symm.trans still
      rcases other with nothing | other
      · cases nothing.symm.trans force
      · exact other (force.trans served.symm)

def folder (forcePush : Bool) : SyncConfig where
  enabled := true
  trigger := ⟨.manual, 0, [], 0⟩
  scope := ⟨true, true, true, true, true⟩
  remote := ⟨.webdav, "https://example.test", "astrlink", "", "", "", "", "", .path⟩
  deviceName := ""
  forcePush := forcePush

/-- While a run serves the first arming it is taken back and a second one is made. -/
def rearmed : List Act :=
  [.configure (folder true), .startRun 0, .configure (folder false), .configure (folder true)]

theorem force_push_consumed_once_rearmed : ∃ world, runActs World.step (start (folder false) 0) rearmed = some world ∧
    world.armed = some 3 ∧ (world.runs 0).map (·.served) = some (some 0) ∧
    ∀ observed next, world.runs 0 = some observed → world.step (.completeRun 0) = some next →
      Consumes observed world next := by
  have logged : (runActs World.step (start (folder false) 0) rearmed).map
      (fun world => (world.armed, (world.runs 0).map (·.served))) = some (some 3, some (some 0)) := by decide +kernel
  obtain ⟨world, ran, seen⟩ := Option.map_eq_some_iff.mp logged
  obtain ⟨armed, served⟩ := Prod.mk.inj seen
  have law := force_push_consumed_once (folder false) 0 (Reaches.start.runActs (fun _ _ => trivial) ran)
  exact ⟨world, ran, armed, served, fun observed next running stepped => law.2.2 0 observed next running stepped⟩

/-- The row holds what was saved last, but for the flag of a force push: that stands for an arming which was asked for and
has not been consumed. -/
theorem row_saved {config : SyncConfig} {generation : Nat} {world : World}
    (reached : Reaches World.step (fun _ _ => True) (start config generation) world) :
    world.row.config = { world.saved with forcePush := world.armed.isSome } ∧
      ∀ arming, world.armed = some arming → world.saved.forcePush = true ∧ arming ∉ world.consumed := by
  have good := good_reached reached
  refine ⟨good.flag ▸ good.saved, fun arming armed => ⟨good.asked ?_, (good.armed arming armed).2⟩⟩
  rw [← good.flag, armed]
  rfl

theorem row_saved_rearmed : ∃ world, runActs World.step (start (folder false) 0) rearmed = some world ∧
    world.row.config = { world.saved with forcePush := world.armed.isSome } := by
  obtain ⟨world, ran⟩ := Option.isSome_iff_exists.mp (show (runActs World.step (start (folder false) 0) rearmed).isSome by decide +kernel)
  exact ⟨world, ran, (row_saved (Reaches.start.runActs (fun _ _ => trivial) ran)).1⟩

end AstrLink.ForcePush
