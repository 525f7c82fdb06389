import AstrLink.RawVault

/-!
How guesses of a raw proof are slowed down. Every entry point compares with the slot and after the backoff was
checked, by one of two routes; comparing and counting are sections of their own.
-/
namespace AstrLink.ProofThrottle
open RawVault Runs
open RawGrants (second)
open Function (update)

inductive Entry where
  | withProof
  | holdKey
  | unlock
  | verify
  | changePassword
  | enrollBiometric
deriving DecidableEq

inductive Stage where
  | waiting
  | held
  | passed
  /-- The key was read, and the backoff is checked next. -/
  | loaded (state : RawSealingState)
  | allowed (state : RawSealingState)
  /-- The proof was compared, and is counted next. -/
  | judged (opening : Opening)
  | leaving
deriving DecidableEq

structure Task where
  entry : Entry
  proof : RawProof
  stage : Stage

inductive Event where
  | compared (time : Nat) (state : RawSealingState) (proof : RawProof) (opening : Opening)
  | counted (time : Nat) (right : Bool)

structure World where
  vault : Vault
  slot : Option Nat
  tasks : Nat → Option Task
  nextTask : Nat
  now : Nat
  log : List Event

def start : World := ⟨⟨false, none, none, 0, 0, 0⟩, none, fun _ => none, 0, 0, []⟩

/-- What the environment decides of a section: whether it fails, and the key that is read. -/
structure Choice where
  failed : Bool
  found : Option RawSealingState

namespace World
variable (options : VaultOptions)

def put (world : World) (t : Nat) (task : Task) (stage : Stage) : World :=
  { world with tasks := update world.tasks t (some { task with stage }) }

/-- `checkBackoff` -/
def check (world : World) (t : Nat) (task : Task) (stage : Stage) : World :=
  world.put t task (if world.vault.blockedUntil ≤ world.now then stage else .leaving)

/-- The next section of a task. What it does with the key it opened comes before it leaves. -/
def run (world : World) (t : Nat) (task : Task) (choice : Choice) : World :=
  match task.stage with
  | .waiting =>
    if choice.failed then { world with tasks := update world.tasks t none }
    else if world.slot = none then { world with slot := some t }.put t task .held
    else world
  | .held =>
    if task.entry = .changePassword then
      match choice.found with
      | some state => world.put t task
          (if !choice.failed && state.password.isSome && !task.proof.password.isEmpty then .loaded state else .leaving)
      | none => world.put t task .leaving
    else world.check t task .passed
  | .passed =>
    match choice.found with
    | some state => world.put t task (if !choice.failed && state.password.isSome then .allowed state else .leaving)
    | none => world.put t task .leaving
  | .loaded state => world.check t task (.allowed state)
  | .allowed state =>
    -- an envelope that cannot be read refuses every proof
    let opening := if choice.failed then .refused else state.opens task.proof
    { world with log := world.log ++ [Event.compared world.now state task.proof opening] }.put t task (.judged opening)
  | .judged .wrong =>
    { world with
      vault := world.vault.noteWrongProof options world.now
      log := world.log ++ [Event.counted world.now false] }.put t task .leaving
  | .judged .accepted =>
    { world with
      vault := world.vault.noteRightProof
      log := world.log ++ [Event.counted world.now true] }.put t task .leaving
  | .judged .refused => world.put t task .leaving
  | .leaving => { world with slot := none, tasks := update world.tasks t none }

end World

inductive Act where
  | tick (elapsed : Nat)
  | submit (entry : Entry) (proof : RawProof)
  | run (task : Nat) (choice : Choice)

def step (options : VaultOptions) (world : World) : Act → World
  | .tick elapsed => { world with now := world.now + elapsed }
  | .submit entry proof =>
    if entry ≠ .changePassword ∧ proof.empty ∨ entry = .enrollBiometric ∧ proof.password.isEmpty then world
    else
      { world with
        tasks := update world.tasks world.nextTask (some ⟨entry, proof, .waiting⟩)
        nextTask := world.nextTask + 1 }
  | .run t choice => (world.tasks t).elim world fun task => world.run options t task choice

/-- How many proofs in a row were wrong, and when the last one was. -/
def streak (log : List Event) : Nat × Nat :=
  log.foldl (fun wrong event => match event with
    | .counted time false => (wrong.1 + 1, time)
    | .counted _ true => (0, wrong.2)
    | .compared .. => wrong) (0, 0)

theorem streak_snoc (log : List Event) (event : Event) : streak (log ++ [event]) = match event with
    | .counted time false => ((streak log).1 + 1, time)
    | .counted _ true => (0, (streak log).2)
    | .compared .. => streak log := by
  rw [streak, List.foldl_append]
  rfl

/-- When the next proof may be compared. -/
def due (options : VaultOptions) (wrong : Nat × Nat) : Nat :=
  if rawBackoffFreeFailures < wrong.1 then
    wrong.2 + min (second * 2 ^ (wrong.1 - rawBackoffFreeFailures - 1)) options.backoffCap
  else 0

/-- A proof is compared once it is due and as it is, and counted as it was compared. -/
def Throttled (options : VaultOptions) (before : List Event) : Event → Prop
  | .compared time state proof opening =>
    due options (streak before) ≤ time ∧ (opening = .refused ∨ opening = state.opens proof)
  | .counted _ right => ∃ time state proof,
    before.getLast? = some (.compared time state proof (if right then .accepted else .wrong))

/-- What a task at a stage relies on. -/
structure Fits (world : World) (t : Nat) (stage : Stage) : Prop where
  alone : stage ≠ .waiting → world.slot = some t
  clear : stage = .passed ∨ (∃ state, stage = .allowed state) → world.vault.blockedUntil ≤ world.now
  judged : ∀ opening, stage = .judged opening → ∃ time state proof,
    world.log.getLast? = some (.compared time state proof opening)

theorem Fits.waiting (world : World) (t : Nat) : Fits world t .waiting := ⟨by simp, by simp, by simp⟩

structure Sound (options : VaultOptions) (world : World) : Prop where
  tasks : ∀ t task, world.tasks t = some task → Fits world t task.stage
  failures : world.vault.failures = (streak world.log).1
  delayed : due options (streak world.log) ≤ world.vault.blockedUntil
  throttled : Always (Throttled options) world.log

variable {options : VaultOptions} {world next : World} {t : Nat} {task : Task}

theorem Fits.other {other : Nat} {stage : Stage} (fits : Fits world other stage) (slot : world.slot = none ∨ world.slot = some t)
    (apart : other ≠ t) (next : World) : Fits next other stage := by
  have idle : stage = .waiting := by
    by_contra busy
    have has := fits.alone busy
    rcases slot with free | mine
    · cases free.symm.trans has
    · cases mine.symm.trans has
      exact apart rfl
  exact idle ▸ .waiting next other

theorem tasks_update {last : Option Task} (tasks : next.tasks = update world.tasks t last)
    (others : ∀ other task, other ≠ t → world.tasks other = some task → Fits next other task.stage)
    (fits : ∀ task, last = some task → Fits next t task.stage) :
    ∀ other task, next.tasks other = some task → Fits next other task.stage := by
  intro other task found
  rw [tasks] at found
  by_cases same : other = t
  · subst same
    rw [Function.update_self] at found
    exact fits task found
  · rw [Function.update_of_ne same] at found
    exact others other task same found

theorem Sound.moves (sound : Sound options world) (mine : world.slot = some t) (task : Task) {stage : Stage}
    (fits : Fits (world.put t task stage) t stage) : Sound options (world.put t task stage) where
  tasks := tasks_update rfl (fun other task apart found => (sound.tasks other task found).other (.inr mine) apart _)
    fun _ same => by cases same; exact fits
  failures := sound.failures
  delayed := sound.delayed
  throttled := sound.throttled

theorem Sound.check (sound : Sound options world) (mine : world.slot = some t) (task : Task) {stage : Stage}
    (unjudged : ∀ opening, stage ≠ .judged opening) : Sound options (world.check t task stage) := by
  unfold World.check
  split
  case isTrue clear => exact sound.moves mine task ⟨fun _ => mine, fun _ => clear, fun opening same => absurd same (unjudged opening)⟩
  case isFalse => exact sound.moves mine task ⟨fun _ => mine, by simp, by simp⟩

theorem Sound.counts (sound : Sound options world) (mine : world.slot = some t) (task : Task) (right : Bool) {vault : Vault}
    (last : ∃ time state proof, world.log.getLast? = some (.compared time state proof (if right then .accepted else .wrong)))
    (failures : vault.failures = (streak (world.log ++ [Event.counted world.now right])).1)
    (delayed : due options (streak (world.log ++ [Event.counted world.now right])) ≤ vault.blockedUntil) :
    Sound options ({ world with vault, log := world.log ++ [Event.counted world.now right] }.put t task .leaving) where
  tasks := tasks_update rfl (fun other task apart found => (sound.tasks other task found).other (.inr mine) apart _)
    fun _ same => by cases same; exact ⟨fun _ => mine, by simp, by simp⟩
  failures := failures
  delayed := delayed
  throttled := always_snoc.mpr ⟨sound.throttled, last⟩

theorem noteWrongProof_failures (options : VaultOptions) (vault : Vault) (now : Nat) :
    (vault.noteWrongProof options now).failures = vault.failures + 1 := by
  unfold Vault.noteWrongProof
  dsimp only
  split <;> rfl

theorem due_noteWrongProof (options : VaultOptions) (vault : Vault) (now : Nat) :
    due options (vault.failures + 1, now) ≤ (vault.noteWrongProof options now).blockedUntil := by
  unfold due Vault.noteWrongProof
  by_cases few : vault.failures + 1 ≤ rawBackoffFreeFailures
  · simp [few, Nat.not_lt.mpr few]
  · simp only [few, if_false, Nat.not_le.mp few, if_true]
    split <;> omega

theorem Sound.run (sound : Sound options world) (isTask : world.tasks t = some task) (choice : Choice) :
    Sound options (world.run options t task choice) := by
  have fits := sound.tasks t task isTask
  obtain ⟨entry, proof, stage⟩ := task
  have has : stage ≠ .waiting → world.slot = some t := fits.alone
  have leaves : world.slot = some t → ∀ proof stage, Sound options (world.put t ⟨entry, proof, stage⟩ .leaving) :=
    fun mine proof stage => sound.moves mine _ ⟨fun _ => mine, by simp, by simp⟩
  cases stage with
  | waiting =>
    simp only [World.run]
    split
    case isTrue =>
      exact ⟨tasks_update rfl (fun other task _ found =>
          have fits := sound.tasks other task found
          ⟨fits.alone, fits.clear, fits.judged⟩) (fun _ same => by cases same),
        sound.failures, sound.delayed, sound.throttled⟩
    case isFalse =>
      split
      case isTrue free =>
        refine ⟨tasks_update rfl (fun other task apart found => (sound.tasks other task found).other (.inl free) apart _)
          (fun _ same => ?_), sound.failures, sound.delayed, sound.throttled⟩
        cases same
        exact ⟨fun _ => rfl, by simp, by simp⟩
      case isFalse => exact sound
  | held =>
    have mine := has (by simp)
    simp only [World.run]
    split
    case isTrue =>
      split
      case h_2 => exact leaves mine _ _
      case h_1 =>
        refine sound.moves mine _ ⟨fun _ => mine, ?_, ?_⟩ <;> split <;> simp
    case isFalse => exact sound.check mine _ (by simp)
  | passed =>
    have mine := has (by simp)
    simp only [World.run]
    split
    case h_2 => exact leaves mine _ _
    case h_1 =>
      refine sound.moves mine _ ⟨fun _ => mine, fun _ => fits.clear (.inl rfl), ?_⟩
      split <;> simp
  | loaded state => exact sound.check (has (by simp)) _ (by simp)
  | allowed state =>
    have mine := has (by simp)
    refine ⟨tasks_update rfl (fun other task apart found => (sound.tasks other task found).other (.inr mine) apart _)
      (fun _ same => ?_), ?_, ?_, always_snoc.mpr ⟨sound.throttled, ?_⟩⟩
    · cases same
      refine ⟨fun _ => mine, by simp, fun opening same => ?_⟩
      cases same
      exact ⟨world.now, state, proof, by simp [World.run, World.put]⟩
    · simpa [World.run, World.put, streak] using sound.failures
    · simpa [World.run, World.put, streak] using sound.delayed
    · refine ⟨Nat.le_trans sound.delayed (fits.clear (.inr ⟨state, rfl⟩)), ?_⟩
      cases choice.failed <;> simp
  | judged opening =>
    have mine := has (by simp)
    obtain ⟨time, state, proof', last⟩ := fits.judged opening rfl
    cases opening with
    | refused => exact leaves mine _ _
    | wrong =>
      refine sound.counts mine _ false ⟨time, state, proof', last⟩ ?_ ?_
      · rw [noteWrongProof_failures, streak_snoc, ← sound.failures]
      · simp only [streak_snoc, ← sound.failures]
        exact due_noteWrongProof options world.vault world.now
    | accepted =>
      refine sound.counts mine _ true ⟨time, state, proof', last⟩ ?_ ?_
      · simp [streak_snoc, Vault.noteRightProof]
      · simp [streak_snoc, due]
  | leaving =>
    refine ⟨tasks_update rfl (fun other task apart found => (sound.tasks other task found).other (.inr (has (by simp))) apart _)
      (fun _ same => by cases same), sound.failures, sound.delayed, sound.throttled⟩

theorem Sound.step (sound : Sound options world) (act : Act) : Sound options (step options world act) := by
  cases act with
  | tick elapsed =>
    refine ⟨fun other task found => ?_, sound.failures, sound.delayed, sound.throttled⟩
    have fits := sound.tasks other task found
    exact ⟨fits.alone, fun clear => Nat.le_trans (fits.clear clear) (Nat.le_add_right _ _), fits.judged⟩
  | submit entry proof =>
    simp only [ProofThrottle.step]
    split
    case isTrue => exact sound
    case isFalse =>
      refine ⟨tasks_update rfl (fun other task _ found => ?_) (fun _ same => ?_), sound.failures, sound.delayed, sound.throttled⟩
      · have fits := sound.tasks other task found
        exact ⟨fits.alone, fits.clear, fits.judged⟩
      · cases same
        exact .waiting _ _
  | run t choice =>
    simp only [ProofThrottle.step]
    cases isTask : world.tasks t with
    | none => exact sound
    | some task => exact sound.run isTask choice

theorem Sound.start (options : VaultOptions) : Sound options start :=
  ⟨fun _ _ (found : none = some _) => (by cases found), rfl, by simp [ProofThrottle.start, due, streak], always_nil _⟩

theorem step_vault (options : VaultOptions) (world : World) (act : Act) :
    (step options world act).vault = world.vault ∨ ∃ right, (step options world act).log = world.log ++ [.counted world.now right] ∧
      (step options world act).vault = if right then world.vault.noteRightProof else world.vault.noteWrongProof options world.now := by
  cases act with
  | tick elapsed => exact .inl rfl
  | submit entry proof =>
    refine .inl ?_
    simp only [step]
    split <;> rfl
  | run t choice =>
    simp only [step]
    cases world.tasks t with
    | none => exact .inl rfl
    | some task =>
      obtain ⟨entry, proof, stage⟩ := task
      simp only [Option.elim]
      cases stage with
      | waiting =>
        refine .inl ?_
        simp only [World.run]
        split
        · rfl
        · split <;> rfl
      | held =>
        refine .inl ?_
        simp only [World.run]
        split
        · split <;> rfl
        · rfl
      | passed =>
        refine .inl ?_
        simp only [World.run]
        split <;> rfl
      | loaded | allowed | leaving => exact .inl rfl
      | judged opening =>
        cases opening with
        | accepted => exact .inr ⟨true, rfl, rfl⟩
        | wrong => exact .inr ⟨false, rfl, rfl⟩
        | refused => exact .inl rfl

theorem proofs_throttled (options : VaultOptions) (acts : List Act) (act : Act) :
    let world := acts.foldl (step options) start
    let next := step options world act
    Always (Throttled options) world.log ∧ world.vault.failures = (streak world.log).1 ∧
      (next.vault = world.vault ∨ ∃ right, next.log = world.log ++ [.counted world.now right] ∧
        next.vault.failures = if right then 0 else world.vault.failures + 1) := by
  intro world next
  have sound : Sound options world := by
    have kept : ∀ (acts : List Act) world, Sound options world → Sound options (acts.foldl (step options) world) := by
      intro acts
      induction acts with
      | nil => exact fun world sound => sound
      | cons act acts ih => exact fun world sound => ih _ (sound.step act)
    exact kept acts start (.start options)
  refine ⟨sound.throttled, sound.failures, (step_vault options world act).imp_right fun ⟨right, log, vault⟩ => ⟨right, log, ?_⟩⟩
  rw [vault]
  cases right with
  | true => rfl
  | false => exact noteWrongProof_failures options world.vault world.now

end AstrLink.ProofThrottle
