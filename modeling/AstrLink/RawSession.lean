import AstrLink.RawLocking

/-!
The unlock session over runs. A lock, a reset or a clear may come between the proof of an unlock and its
session. `reopens` and `outdates` say which steps go wrong by that; in runs without them a lock ends the
session.
-/
namespace AstrLink.RawSession
open RawGrants RawVault RawSections RawLocking Runs List
open Function (update)

variable {Hash : Type}

def SessionReads (before : List (Event Hash)) : Event Hash → Prop
  | .opened => Proved before
  | _ => True

/-- An active session holds the stored key. -/
def Current (options : VaultOptions) (world : World Hash) : Prop :=
  world.vault.sessionActive options world.now = true →
    ∃ state, world.stored = some state ∧ world.vault.session = some (state.privateKey, state.keyID)

/-- The task was handed in after the last lock. -/
def submittedSince (log : List (Event Hash)) (t : Nat) : Bool :=
  (sinceLock log).any fun event => match event with
    | .submitted other => other = t
    | _ => false

/-- The act installs a session with a proof from before the last lock, or ends a lock with one. -/
def reopens (options : VaultOptions) (world : World Hash) : Act Hash → Bool
  | .run t _ =>
    match world.tasks t with
    | some task =>
      match task.stage with
      | .released _ _ => !submittedSince world.log t
      | .revoking => task.use = .lock && world.vault.sessionActive options world.now
      | _ => false
    | none => false
  | _ => false

/-- The act installs a session with another key, or discards the stored key under one. -/
def outdates (options : VaultOptions) (world : World Hash) : Act Hash → Bool
  | .run t choice =>
    match world.tasks t with
    | some task =>
      match task.stage with
      | .released _ keyID => !world.stored.any fun state => state.keyID = keyID
      | _ => discards task && !choice.failed && world.vault.sessionActive options world.now
    | none => false
  | _ => false

variable {t : Nat}

theorem submittedSince_iff {log : List (Event Hash)} : submittedSince log t = true ↔ .submitted t ∈ sinceLock log := by
  simp only [submittedSince, any_eq_true]
  constructor
  · rintro ⟨event, recent, isSubmitted⟩
    cases event with
    | submitted other => rwa [← of_decide_eq_true isSubmitted]
    | accepted | generated | locked | opened | granted => cases isSubmitted
  · intro recent
    exact ⟨_, recent, decide_eq_true rfl⟩

/-! ### The session after a lock -/

/-- An active session has a proof since the last lock. -/
structure Guarded (options : VaultOptions) (world : World Hash) : Prop where
  unlocked : world.vault.sessionActive options world.now = true → Proved world.log
  reads : Always SessionReads world.log

theorem Guarded.start (options : VaultOptions) : Guarded options (RawVault.start : World Hash) where
  unlocked := by simp [RawVault.start, Vault.sessionActive]
  reads := always_nil _

variable {options : VaultOptions} {world next : World Hash}

theorem Guarded.logs (guarded : Guarded options world) {more : List (Event Hash)}
    (logs : next.log = world.log ++ more) (plain : ∀ event ∈ more, event ≠ .locked ∧ event ≠ .opened)
    (active : next.vault.sessionActive options next.now = true → world.vault.sessionActive options world.now = true) :
    Guarded options next := by
  refine ⟨fun isActive => ?_, ?_⟩
  · have proved := guarded.unlocked (active isActive)
    rw [logs]
    clear logs
    induction more using List.reverseRecOn with
    | nil => simpa using proved
    | append_singleton more event ih =>
      rw [← List.append_assoc]
      exact (ih (fun event listed => plain event (mem_append_left _ listed))).snoc (plain event (by simp)).1
  · rw [logs]
    refine guarded.reads.append more (fun before event listed => ?_)
    cases event with
    | opened => exact absurd rfl (plain _ listed).2
    | submitted | accepted | generated | locked | granted => trivial

theorem withGrants_logs (world : World Hash) (grants : RawGrantRuns.World Hash) :
    ∃ more, (world.withGrants grants).log = world.log ++ more ∧
      ∀ event ∈ more, ∃ granted, event = .granted granted := by
  refine ⟨_, rfl, fun event listed => ?_⟩
  obtain ⟨granted, -, rfl⟩ := mem_map.mp listed
  exact ⟨granted, rfl⟩

theorem Guarded.granted (guarded : Guarded options world) (grants : RawGrantRuns.World Hash)
    (logs : next.log = (world.withGrants grants).log) (vault : next.vault = world.vault) (now : next.now = world.now) :
    Guarded options next := by
  obtain ⟨more, granted, plain⟩ := withGrants_logs world grants
  refine guarded.logs (logs.trans granted) (fun event listed => ?_) (fun active => by rwa [vault, now] at active)
  obtain ⟨event, rfl⟩ := plain event listed
  simp

variable {act : Act Hash}

section
variable [DecidableEq Hash]

variable {options : VaultOptions}

theorem Guarded.section (guarded : Guarded options world) (kept : Kept world) {task : Task} {choice : Choice}
    (isTask : world.tasks t = some task) (permitted : reopens options world (.run t choice) = false)
    (ran : Section options t task choice world next) :
    Guarded options next := by
  cases ran with
  | quiet quiet =>
    have logs : next.log = world.log ++ [] := by rw [quiet.log, append_nil]
    refine guarded.logs logs (by simp) (fun active => ?_)
    rw [quiet.now] at active
    exact (quiet.vault.active active).1
  | accept state reached =>
    have calms : Calms none world.vault world.vault.noteRightProof := .noteRightProof _
    exact guarded.logs rfl (by simp) (fun active => (calms.active active).1)
  | generate vault calms password isNew stage unproven noPair unset =>
    exact guarded.logs rfl (by simp) (fun active => (calms.active active).1)
  | clear isClear stores => exact guarded.logs (append_nil _).symm (by simp) id
  | install key keyID reached =>
    simp only [reopens, isTask, reached] at permitted
    have submitted : .submitted t ∈ sinceLock world.log := submittedSince_iff.mp (by simpa using permitted)
    exact ⟨fun _ => ⟨t, submitted, (kept.tasks t task isTask).accepted (by rw [reached]; rfl) submitted⟩, guarded.reads⟩
  | hold key keyID reached slot grants held => exact guarded.granted grants rfl rfl rfl
  | decide grant mode isUse holder reached act carries grants stepped => exact guarded.granted grants rfl rfl rfl
  | revoke reached clock grants stepped =>
    have asked : Guarded options ((world.withGrants grants).finish t) := guarded.granted grants rfl rfl rfl
    split
    next isLock =>
      simp only [reopens, isTask, reached, isLock] at permitted
      have idle : world.vault.sessionActive options world.now = false := by simpa using permitted
      refine ⟨fun active => ?_, always_snoc.mpr ⟨asked.reads, trivial⟩⟩
      exact absurd active (by simpa [World.withGrants, World.finish] using idle)
    next => exact asked

theorem sessionActive_tick {vault : Vault} {now elapsed : Nat}
    (active : vault.sessionActive options (now + elapsed) = true) : vault.sessionActive options now = true := by
  simp only [Vault.sessionActive, Bool.and_eq_true, Bool.or_eq_true, decide_eq_true_eq] at active ⊢
  refine ⟨active.1, active.2.imp_right (fun before => ?_)⟩
  omega

theorem unlockedOpener_active {vault : Vault} {now : Nat}
    (active : (vault.unlockedOpener options now).sessionActive options now = true) :
    vault.sessionActive options now = true ∧ (vault.unlockedOpener options now).session = vault.session := by
  cases isActive : vault.sessionActive options now with
  | true =>
    refine ⟨rfl, ?_⟩
    rw [Vault.unlockedOpener, if_pos isActive]
    split_ifs <;> rfl
  | false =>
    rw [Vault.unlockedOpener, if_neg (by simp [isActive])] at active
    simp [Vault.clearSession, Vault.sessionActive] at active

theorem Guarded.step (guarded : Guarded options world) (kept : Kept world)
    (permitted : reopens options world act = false) (stepped : world.step options act = some next) :
    Guarded options next := by
  cases act with
  | tick elapsed =>
    cases stepped
    exact guarded.logs (append_nil _).symm (by simp) sessionActive_tick
  | submit use proof clock =>
    have submits : ∀ {world : World Hash}, Guarded options world → Guarded options (world.submit use proof) :=
      fun guarded => guarded.logs rfl (by simp) id
    rcases submit_cases stepped with ⟨-, rfl⟩ | ⟨grant, mode, grants, rfl, expires, rfl | ⟨rfl, -⟩⟩
    · exact submits guarded
    · exact guarded.granted grants rfl rfl rfl
    · exact submits (guarded.granted grants rfl rfl rfl)
  | run t choice =>
    simp only [World.step] at stepped
    split at stepped
    next task isTask => exact guarded.section kept isTask permitted (run_section isTask stepped)
    next => cases stepped
  | status =>
    cases stepped
    have calms : Calms world.stored world.vault (world.vault.status options world.now world.stored) := .status _ _ _
    exact guarded.logs (append_nil _).symm (by simp) (fun active => (calms.active active).1)
  | unlockedOpener =>
    cases stepped
    exact guarded.logs (append_nil _).symm (by simp) (fun active => (unlockedOpener_active active).1)
  | openBlob blob =>
    have calms : Calms none world.vault (world.vault.expireSession options world.now) := .expireSession _ _ _
    simp only [World.step] at stepped
    cases stepped
    split
    next opens =>
      simp only [Bool.and_eq_true] at opens
      have proved := guarded.unlocked opens.1.1
      exact ⟨fun _ => proved.snoc (by simp), always_snoc.mpr ⟨guarded.reads, proved⟩⟩
    next => exact guarded.logs (append_nil _).symm (by simp) (fun active => (calms.active active).1)
  | expireSession =>
    have calms : Calms none world.vault (world.vault.expireSession options world.now) := .expireSession _ _ _
    simp only [World.step] at stepped
    split_ifs at stepped
    cases stepped
    exact guarded.logs (append_nil _).symm (by simp) (fun active => (calms.active active).1)
  | grants act =>
    simp only [World.step] at stepped
    split_ifs at stepped
    obtain ⟨grants, -, rfl⟩ := Option.map_eq_some_iff.mp stepped
    exact guarded.granted grants rfl rfl rfl

end

def Known (log : List (Event Hash)) (pair : Nat × Key) : Prop := .generated pair.1 pair.2 ∈ log

/-- Every key pair in use was generated, and a key id names one key. -/
structure Keyed (world : World Hash) : Prop where
  unique : ∀ keyID key key', .generated keyID key ∈ world.log → .generated keyID key' ∈ world.log → key = key'
  stored : ∀ pair, world.stored.map pairOf = some pair → Known world.log pair
  read : ∀ pair, world.vault.state.map pairOf = some pair → Known world.log pair
  tasks : ∀ t task pair, world.tasks t = some task → pairAt task.stage = some pair → Known world.log pair

theorem Keyed.start : Keyed (RawVault.start : World Hash) := by
  constructor <;> simp [RawVault.start]

section
variable (keyed : Keyed world)
include keyed

theorem Keyed.goesOn {more : List (Event Hash)} (logs : next.log = world.log ++ more)
    (plain : ∀ keyID key, .generated keyID key ∉ more)
    (stored : ∀ pair, next.stored.map pairOf = some pair → Known world.log pair)
    (read : ∀ pair, next.vault.state.map pairOf = some pair → Known world.log pair)
    (tasks : ∀ t task pair, next.tasks t = some task → pairAt task.stage = some pair → Known world.log pair) :
    Keyed next := by
  have before : ∀ keyID key, .generated keyID key ∈ next.log → .generated keyID key ∈ world.log := by
    intro keyID key generated
    rw [logs] at generated
    exact (mem_append.mp generated).resolve_right (plain keyID key)
  have after : ∀ pair, Known world.log pair → Known next.log pair := by
    intro pair known
    rw [Known, logs]
    exact mem_append_left _ known
  exact ⟨fun keyID key key' one two => keyed.unique keyID key key' (before _ _ one) (before _ _ two),
    fun pair has => after pair (stored pair has), fun pair has => after pair (read pair has),
    fun t task pair isTask has => after pair (tasks t task pair isTask has)⟩

theorem Keyed.calms {vault : Vault} (calms : Calms world.stored world.vault vault)
    (pair : Nat × Key) (has : vault.state.map pairOf = some pair) :
    Known world.log pair := by
  rcases calms.state with same | read
  · exact keyed.read pair (same ▸ has)
  · exact keyed.stored pair (read ▸ has)

theorem Keyed.tasks_update {last : Option Task}
    (fresh : ∀ task pair, last = some task → pairAt task.stage = some pair → Known world.log pair) :
    ∀ other task pair, update world.tasks t last other = some task → pairAt task.stage = some pair →
      Known world.log pair := by
  intro other task pair isTask has
  rcases of_update isTask with ⟨-, isLast⟩ | ⟨-, isOld⟩
  · exact fresh task pair isLast has
  · exact keyed.tasks other task pair isOld has

theorem Keyed.granted (grants : RawGrantRuns.World Hash) :
    Keyed (world.withGrants grants) := by
  obtain ⟨more, logs, plain⟩ := withGrants_logs world grants
  refine keyed.goesOn logs (fun keyID key generated => ?_) keyed.stored keyed.read keyed.tasks
  obtain ⟨event, same⟩ := plain _ generated
  cases same

theorem Keyed.submit (use : Use) (proof : RawProof) :
    Keyed (world.submit use proof) := by
  refine keyed.goesOn rfl (by simp) keyed.stored keyed.read (keyed.tasks_update (fun task pair isLast has => ?_))
  cases isLast
  cases has

theorem Keyed.vault {vault : Vault} (calms : Calms world.stored world.vault vault) (now : Nat) :
    Keyed { world with vault, now } :=
  keyed.goesOn (append_nil _).symm (by simp) keyed.stored (keyed.calms calms) keyed.tasks

end

/-! ### The key of the session -/

theorem Current.calms (current : Current options world) (calms : Calms world.stored world.vault next.vault)
    (now : next.now = world.now) (stored : next.stored.map pairOf = world.stored.map pairOf) :
    Current options next := by
  intro active
  rw [now] at active
  obtain ⟨wasActive, same⟩ := calms.active active
  obtain ⟨state, isStored, session⟩ := current wasActive
  rw [isStored, Option.map_some] at stored
  obtain ⟨state', isStored', samePair⟩ := Option.map_eq_some_iff.mp stored
  obtain ⟨sameID, sameKey⟩ := Prod.mk.inj samePair
  exact ⟨state', isStored', by rw [same, session, sameID, sameKey]⟩

theorem Current.idle (calms : Calms world.stored world.vault next.vault) (now : next.now = world.now)
    (idle : world.vault.sessionActive options world.now = false) : Current options next := by
  intro active
  rw [now] at active
  rw [(calms.active active).1] at idle
  cases idle

variable [DecidableEq Hash]

theorem Keyed.section (keyed : Keyed world) {task : Task} {choice : Choice} (isTask : world.tasks t = some task)
    (ran : Section options t task choice world next) :
    Keyed next := by
  have noLog : world.log = world.log ++ [] := (append_nil _).symm
  have old : ∀ pair, pairAt task.stage = some pair → Known world.log pair :=
    fun pair has => keyed.tasks t task pair isTask has
  cases ran with
  | quiet quiet =>
    have logs : next.log = world.log ++ [] := quiet.log.trans noLog
    obtain ⟨last, tasks, follows⟩ := quiet.tasks
    refine keyed.goesOn logs (by simp) (fun pair has => keyed.stored pair (quiet.stored ▸ has)) (keyed.calms quiet.vault) ?_
    rw [tasks]
    refine keyed.tasks_update (fun later pair isLast has => ?_)
    rcases (follows later isLast).pair pair has with isOld | isRead | isStored
    · exact old pair isOld
    · exact keyed.read pair isRead
    · exact keyed.stored pair isStored
  | accept state reached =>
    refine keyed.goesOn rfl (by simp) keyed.stored keyed.read (keyed.tasks_update (fun later pair isLast has => ?_))
    cases isLast
    exact old pair (by rw [reached]; exact has)
  | generate vault calms password isNew stage unproven noPair unset =>
    have isNew' : ∀ key, .generated choice.newID key ∉ world.log := by
      intro key generated
      simp only [World.newPair, Bool.not_eq_true', any_eq_false] at isNew
      simpa using isNew _ generated
    have now : Known (world.log ++ [.generated choice.newID choice.newKey]) (choice.newID, choice.newKey) :=
      mem_append_right _ (mem_singleton_self _)
    refine ⟨fun keyID key key' one two => ?_, fun pair has => ?_, fun pair has => ?_, fun other later pair isLater has => ?_⟩
    · rcases mem_append.mp one with early | late <;> rcases mem_append.mp two with early' | late'
      · exact keyed.unique keyID key key' early early'
      · obtain ⟨rfl, rfl⟩ := RawVault.Event.generated.inj (mem_singleton.mp late')
        exact absurd early (isNew' key)
      · obtain ⟨rfl, rfl⟩ := RawVault.Event.generated.inj (mem_singleton.mp late)
        exact absurd early' (isNew' key')
      · obtain ⟨rfl, rfl⟩ := RawVault.Event.generated.inj (mem_singleton.mp late)
        exact (RawVault.Event.generated.inj (mem_singleton.mp late')).2.symm
    · cases has
      exact now
    · exact mem_append_left _ (keyed.calms calms pair has)
    · refine mem_append_left _ (keyed.tasks_update (fun later pair isLast has => ?_) other later pair isLater has)
      cases isLast
      simp [noPair] at has
  | clear isClear stores =>
    refine keyed.goesOn noLog (by simp) (by simp) keyed.read (keyed.tasks_update (fun later pair isLast has => ?_))
    cases isLast
    cases has
  | install key keyID reached =>
    exact keyed.goesOn noLog (by simp) keyed.stored keyed.read
      (keyed.tasks_update (fun later pair isLast => by cases isLast))
  | hold key keyID reached slot grants held =>
    have asked := keyed.granted grants
    refine ⟨asked.unique, asked.stored, asked.read, asked.tasks_update (fun later pair isLast has => ?_)⟩
    cases isLast
    cases has
  | decide grant mode isUse holder reached act carries grants stepped =>
    have asked := keyed.granted grants
    exact ⟨asked.unique, asked.stored, asked.read, asked.tasks_update (fun later pair isLast => by cases isLast)⟩
  | revoke reached clock grants stepped =>
    have asked := keyed.granted grants
    have finished : Keyed ((world.withGrants grants).finish t) :=
      ⟨asked.unique, asked.stored, asked.read, asked.tasks_update (fun later pair isLast => by cases isLast)⟩
    split
    · exact finished.goesOn rfl (by simp) finished.stored finished.read finished.tasks
    · exact finished

theorem Keyed.step (keyed : Keyed world) (stepped : world.step options act = some next) : Keyed next := by
  cases act with
  | tick elapsed =>
    cases stepped
    exact keyed.vault (.refl _) _
  | submit use proof clock =>
    rcases submit_cases stepped with ⟨-, rfl⟩ | ⟨grant, mode, grants, rfl, expires, rfl | ⟨rfl, -⟩⟩
    · exact keyed.submit use proof
    · exact keyed.granted grants
    · exact (keyed.granted grants).submit _ proof
  | run t choice =>
    simp only [World.step] at stepped
    split at stepped
    next task isTask => exact keyed.section isTask (run_section isTask stepped)
    next => cases stepped
  | status =>
    cases stepped
    exact keyed.vault (.status _ _ _) world.now
  | unlockedOpener =>
    cases stepped
    refine keyed.goesOn (append_nil _).symm (by simp) keyed.stored (fun pair has => keyed.read pair ?_) keyed.tasks
    rw [← has]
    simp only [Vault.unlockedOpener]
    split_ifs <;> rfl
  | openBlob blob =>
    simp only [World.step] at stepped
    cases stepped
    have calmed := keyed.vault (.expireSession options world.vault world.now) world.now
    split
    · exact calmed.goesOn rfl (by simp) calmed.stored calmed.read calmed.tasks
    · exact calmed
  | expireSession =>
    simp only [World.step] at stepped
    split_ifs at stepped
    cases stepped
    exact keyed.vault (.expireSession _ _ _) world.now
  | grants act =>
    simp only [World.step] at stepped
    split_ifs at stepped
    obtain ⟨grants, -, rfl⟩ := Option.map_eq_some_iff.mp stepped
    exact keyed.granted grants

theorem Current.section (current : Current options world) (keyed : Keyed world) {t : Nat} {task : Task}
    {choice : Choice} (isTask : world.tasks t = some task)
    (permitted : outdates options world (.run t choice) = false) (ran : Section options t task choice world next) :
    Current options next := by
  -- A section that discards the stored key is permitted while no session is active.
  have idle : discards task = true → choice.failed = false → world.vault.sessionActive options world.now = false := by
    intro isDiscard stores
    simp only [outdates, isTask] at permitted
    split at permitted
    next reached =>
      simp only [discards, reached] at isDiscard
      split at isDiscard <;> simp_all
    next => simpa [isDiscard, stores] using permitted
  cases ran with
  | quiet quiet => exact current.calms quiet.vault quiet.now quiet.stored
  | accept state reached => exact current.calms (.noteRightProof _) rfl rfl
  | generate vault calms password isNew stage unproven noPair unset =>
    rcases unset with isNone | ⟨isDiscard, stores⟩
    · intro active
      obtain ⟨state, isStored, -⟩ := current (calms.active active).1
      rw [isNone] at isStored
      cases isStored
    · exact .idle calms rfl (idle isDiscard stores)
  | clear isClear stores => exact .idle (.refl _) rfl (idle isClear stores)
  | install key keyID reached =>
    simp only [outdates, isTask, reached, Bool.not_eq_false', Option.any_eq_true, decide_eq_true_eq] at permitted
    obtain ⟨state, isStored, sameID⟩ := permitted
    intro _
    -- The pair at hand and the stored one were generated with the same id.
    have one : Known world.log (keyID, key) := keyed.tasks t task _ isTask (by rw [reached]; rfl)
    have two : Known world.log (pairOf state) := keyed.stored _ (by rw [isStored]; rfl)
    have sameKey : key = state.privateKey := keyed.unique keyID _ _ one (sameID ▸ two)
    exact ⟨state, isStored, by rw [Vault.install, sameKey, sameID]⟩
  | hold key keyID reached slot grants held => exact current
  | decide grant mode isUse holder reached act carries grants stepped => exact current
  | revoke reached clock grants stepped =>
    split <;> exact current

theorem Current.step (current : Current options world) (keyed : Keyed world)
    (permitted : outdates options world act = false) (stepped : world.step options act = some next) :
    Current options next := by
  cases act with
  | tick elapsed =>
    cases stepped
    exact fun active => current (sessionActive_tick active)
  | submit use proof clock =>
    rcases submit_cases stepped with ⟨-, rfl⟩ | ⟨grant, mode, grants, rfl, expires, rfl | ⟨rfl, -⟩⟩ <;> exact current
  | run t choice =>
    simp only [World.step] at stepped
    split at stepped
    next task isTask => exact current.section keyed isTask permitted (run_section isTask stepped)
    next => cases stepped
  | status =>
    cases stepped
    exact current.calms (.status _ _ _) rfl rfl
  | unlockedOpener =>
    cases stepped
    intro active
    obtain ⟨wasActive, same⟩ := unlockedOpener_active active
    obtain ⟨state, isStored, session⟩ := current wasActive
    exact ⟨state, isStored, same.trans session⟩
  | openBlob blob =>
    simp only [World.step] at stepped
    cases stepped
    exact current.calms (.expireSession _ _ _) rfl rfl
  | expireSession =>
    simp only [World.step] at stepped
    split_ifs at stepped
    cases stepped
    exact current.calms (.expireSession _ _ _) rfl rfl
  | grants act =>
    simp only [World.step] at stepped
    split_ifs at stepped
    obtain ⟨grants, -, rfl⟩ := Option.map_eq_some_iff.mp stepped
    exact current

/-- A session without an idle deadline. -/
def untilLock : VaultOptions := { readOnly := false, untilLock := true, backoffCap := 300 * second }

def password : RawProof := { password := [1], biometric := [] }

def generates (newID : Nat) (newKey : Key) : Choice := { failed := false, newID, newKey, clock := 0, keys := [] }

/-- A task is handed in and takes its first sections. -/
def takes (t : Nat) (use : Use) (sections : Nat) : List (Act Nat) :=
  .submit use password 0 :: List.replicate sections (.run t (generates t [t.toUInt8]))

/-- A password is set; an unlock checks its proof, a lock completes, and only then the session is installed. -/
def lateUnlock : List (Act Nat) :=
  takes 0 (.changePassword .set [1]) 5 ++ takes 1 .unlock 6 ++ takes 2 .lock 2 ++
    [.run 1 (generates 1 []), .openBlob { rawSealed := true, rawKeyID := 0 }]

/-- Each proof is used before the next lock: the session and a lasting grant read, a lock ends both, and a later unlock
    reads again. -/
def visit : List (Act Nat) :=
  takes 0 (.changePassword .set [1]) 5 ++ takes 1 .unlock 7 ++ [.openBlob { rawSealed := true, rawKeyID := 0 }] ++
    [.grants (.create 0 "a" 1 "request" "debug" "agent")] ++ takes 2 (.decide "a" .untilLock) 7 ++
    [.grants (.claim 0 0 1 "request"), .grants (.openPart 0)] ++ takes 3 .lock 2 ++ [.grants (.openPart 0)] ++
    takes 4 .unlock 7 ++ [.openBlob { rawSealed := true, rawKeyID := 0 }]

end AstrLink.RawSession
