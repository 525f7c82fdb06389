import AstrLink.RawGrantSafety
import AstrLink.RawSections

/-!
What a lock ends. A grant opens nothing after it until a later proof is accepted, and the same holds of the
unlock session in runs where no older proof is installed.
-/
namespace AstrLink.RawLocking
open RawGrants RawVault RawSections Runs List
open Function (update)
open Option (some.inj)

variable {Hash : Type}

/-- What was logged since a lock completed last. -/
def sinceLock : List (Event Hash) → List (Event Hash) :=
  List.foldl (fun since event => match event with
    | .locked => []
    | event => since ++ [event]) []

@[simp] theorem sinceLock_locked (log : List (Event Hash)) : sinceLock (log ++ [.locked]) = [] := by
  simp [sinceLock, foldl_append]

theorem sinceLock_snoc (log : List (Event Hash)) {event : Event Hash} (goesOn : event ≠ .locked) :
    sinceLock (log ++ [event]) = sinceLock log ++ [event] := by
  cases event with
  | locked => exact absurd rfl goesOn
  | submitted | accepted | generated | opened | granted => simp [sinceLock, foldl_append]

theorem sinceLock_granted (log : List (Event Hash)) (more : List (RawGrantRuns.Event Hash)) :
    sinceLock (log ++ more.map .granted) = sinceLock log ++ more.map .granted := by
  induction more using List.reverseRecOn with
  | nil => simp
  | append_singleton more event ih =>
    rw [map_append, ← List.append_assoc, map_singleton, sinceLock_snoc _ (by simp), ih, List.append_assoc]

def Proved (log : List (Event Hash)) : Prop := ∃ t, .submitted t ∈ sinceLock log ∧ .accepted t ∈ sinceLock log

theorem Proved.snoc {log : List (Event Hash)} (proved : Proved log) {event : Event Hash} (goesOn : event ≠ .locked) :
    Proved (log ++ [event]) := by
  obtain ⟨t, submitted, accepted⟩ := proved
  rw [Proved, sinceLock_snoc log goesOn]
  exact ⟨t, mem_append_left _ submitted, mem_append_left _ accepted⟩

theorem Proved.granted {log : List (Event Hash)} (proved : Proved log) (more : List (RawGrantRuns.Event Hash)) :
    Proved (log ++ more.map .granted) := by
  obtain ⟨t, submitted, accepted⟩ := proved
  rw [Proved, sinceLock_granted]
  exact ⟨t, mem_append_left _ submitted, mem_append_left _ accepted⟩

/-- What the registry logged. -/
def grantLog (log : List (Event Hash)) : List (RawGrantRuns.Event Hash) :=
  log.filterMap fun event => match event with
    | .granted event => some event
    | _ => none

variable {event : RawGrantRuns.Event Hash}

@[simp] theorem mem_grantLog {log : List (Event Hash)} :
    event ∈ grantLog log ↔ .granted event ∈ log := by
  simp only [grantLog, mem_filterMap]
  constructor
  · rintro ⟨logged, listed, same⟩
    cases logged with
    | granted other => exact some.inj same ▸ listed
    | submitted | accepted | generated | locked | opened => cases same
  · intro listed
    exact ⟨_, listed, rfl⟩

@[simp] theorem grantLog_append (log more : List (Event Hash)) : grantLog (log ++ more) = grantLog log ++ grantLog more :=
  filterMap_append

@[simp] theorem grantLog_granted (more : List (RawGrantRuns.Event Hash)) : grantLog (more.map .granted) = more := by
  simp [grantLog, filterMap_map]

/-! ### What the log says of the grants -/

def GrantReads (before : List (Event Hash)) : Event Hash → Prop
  | .granted (.claimed _ _ _ _) | .granted (.opened _ _) => Proved before
  | _ => True

/-- A decision on a grant of since the last lock has a proof since then, and a lock ends all grants. -/
def Rests (before : List (Event Hash)) : Event Hash → Prop
  | .granted event => RawGrantSafety.Lawful (grantLog before) event ∧
      match event with
      | .approved id _ _ =>
        ∀ requestID tokenHash, .granted (.created id requestID tokenHash) ∈ sinceLock before → Proved before
      | _ => True
  | .locked => ∀ id requestID tokenHash, .granted (.created id requestID tokenHash) ∈ before →
      .granted (.ended id) ∈ before
  | _ => True

/-- What follows along a log of that kind. -/
structure Grounded (log : List (Event Hash)) : Prop where
  recent : ∀ id requestID tokenHash, .granted (.created id requestID tokenHash) ∈ log →
    .granted (.created id requestID tokenHash) ∈ sinceLock log ∨ .granted (.ended id) ∈ log
  approved : ∀ id mode holder, .granted (.approved id mode holder) ∈ log →
    (∃ requestID tokenHash, .granted (.created id requestID tokenHash) ∈ log) ∧
      ∀ requestID tokenHash, .granted (.created id requestID tokenHash) ∈ sinceLock log → Proved log
  claimed : ∀ lease id requestID tokenHash, .granted (.claimed lease id requestID tokenHash) ∈ log →
    ∃ mode holder, .granted (.approved id mode holder) ∈ log
  reads : Always GrantReads log

theorem Grounded.proved {log : List (Event Hash)} (grounded : Grounded log) {id : String} {mode : GrantMode} {holder : Nat}
    (approved : .granted (.approved id mode holder) ∈ log) (live : .granted (.ended id) ∉ log) : Proved log := by
  obtain ⟨⟨requestID, tokenHash, created⟩, fresh⟩ := grounded.approved id mode holder approved
  exact fresh requestID tokenHash ((grounded.recent id requestID tokenHash created).resolve_right live)

theorem Grounded.lock {log : List (Event Hash)} (grounded : Grounded log) (rests : Rests log .locked) :
    Grounded (log ++ [.locked]) where
  recent := fun id requestID tokenHash created =>
    .inr (mem_append_left _ (rests id requestID tokenHash (by simpa using created)))
  approved := fun id mode holder approved => by
    obtain ⟨⟨requestID, tokenHash, created⟩, -⟩ := grounded.approved id mode holder (by simpa using approved)
    exact ⟨⟨requestID, tokenHash, mem_append_left _ created⟩, fun _ _ recent => by simp at recent⟩
  claimed := fun lease id requestID tokenHash claimed => by
    obtain ⟨mode, holder, approved⟩ := grounded.claimed lease id requestID tokenHash (by simpa using claimed)
    exact ⟨mode, holder, mem_append_left _ approved⟩
  reads := always_snoc.mpr ⟨grounded.reads, trivial⟩

theorem Grounded.vault {log : List (Event Hash)} (grounded : Grounded log) {event : Event Hash} (goesOn : event ≠ .locked)
    (other : ∀ granted, event ≠ .granted granted) : Grounded (log ++ [event]) := by
  have before : ∀ granted, .granted granted ∈ log ++ [event] → .granted granted ∈ log := by
    intro granted logged
    rcases mem_append.mp logged with earlier | last
    · exact earlier
    · exact absurd (mem_singleton.mp last).symm (other granted)
  refine ⟨fun id requestID tokenHash created => ?_, fun id mode holder approved => ?_,
    fun lease id requestID tokenHash claimed => ?_, always_snoc.mpr ⟨grounded.reads, ?_⟩⟩
  · rw [sinceLock_snoc log goesOn]
    exact (grounded.recent id requestID tokenHash (before _ created)).imp (mem_append_left _) (mem_append_left _)
  · obtain ⟨⟨requestID, tokenHash, created⟩, fresh⟩ := grounded.approved id mode holder (before _ approved)
    refine ⟨⟨requestID, tokenHash, mem_append_left _ created⟩, fun requestID tokenHash recent => ?_⟩
    rw [sinceLock_snoc log goesOn] at recent
    rcases mem_append.mp recent with earlier | last
    · exact (fresh requestID tokenHash earlier).snoc goesOn
    · exact absurd (mem_singleton.mp last).symm (other _)
  · obtain ⟨mode, holder, approved⟩ := grounded.claimed lease id requestID tokenHash (before _ claimed)
    exact ⟨mode, holder, mem_append_left _ approved⟩
  · cases event with
    | granted granted => exact absurd rfl (other granted)
    | submitted | accepted | generated | locked | opened => trivial

theorem Grounded.granted {log : List (Event Hash)} (grounded : Grounded log) (rests : Rests log (.granted event)) :
    Grounded (log ++ [.granted event]) := by
  obtain ⟨lawful, approval⟩ := rests
  have goesOn : (.granted event : RawVault.Event Hash) ≠ .locked := by simp
  have cases_of : ∀ granted, .granted granted ∈ log ++ [.granted event] → .granted granted ∈ log ∨ granted = event := by
    intro granted logged
    rcases mem_append.mp logged with earlier | last
    · exact .inl earlier
    · exact .inr (RawVault.Event.granted.inj (mem_singleton.mp last))
  have claims : ∀ lease id requestID tokenHash, event = .claimed lease id requestID tokenHash →
      .granted (.ended id) ∉ log ∧ ∃ mode holder, .granted (.approved id mode holder) ∈ log := by
    rintro lease id requestID tokenHash rfl
    obtain ⟨⟨live, -, mode, holder, approved, -⟩, -⟩ := lawful
    exact ⟨by simpa using live, mode, holder, by simpa using approved⟩
  refine ⟨fun id requestID tokenHash created => ?_, fun id mode holder approved => ?_,
    fun lease id requestID tokenHash claimed => ?_, always_snoc.mpr ⟨grounded.reads, ?_⟩⟩
  · rw [sinceLock_snoc log goesOn]
    rcases cases_of _ created with earlier | rfl
    · exact (grounded.recent id requestID tokenHash earlier).imp (mem_append_left _) (mem_append_left _)
    · exact .inl (mem_append_right _ (mem_singleton_self _))
  · rw [sinceLock_snoc log goesOn]
    rcases cases_of _ approved with earlier | rfl
    · obtain ⟨⟨requestID, tokenHash, created⟩, fresh⟩ := grounded.approved id mode holder earlier
      refine ⟨⟨requestID, tokenHash, mem_append_left _ created⟩, fun requestID' tokenHash' recent => ?_⟩
      rcases mem_append.mp recent with before | last
      · exact (fresh requestID' tokenHash' before).snoc goesOn
      · -- The id was drawn before the approval, so it is not drawn again.
        obtain rfl := RawVault.Event.granted.inj (mem_singleton.mp last)
        simpa [RawGrantRuns.drawn] using lawful (.created id requestID tokenHash) (mem_grantLog.mpr created)
    · obtain ⟨-, -, ⟨requestID, tokenHash, created⟩, -⟩ := lawful
      refine ⟨⟨requestID, tokenHash, mem_append_left _ (mem_grantLog.mp created)⟩,
        fun requestID' tokenHash' recent => ?_⟩
      rcases mem_append.mp recent with before | last
      · exact (approval requestID' tokenHash' before).snoc goesOn
      · simp at last
  · rcases cases_of _ claimed with earlier | rfl
    · obtain ⟨mode, holder, approved⟩ := grounded.claimed lease id requestID tokenHash earlier
      exact ⟨mode, holder, mem_append_left _ approved⟩
    · obtain ⟨-, mode, holder, approved⟩ := claims lease id requestID tokenHash rfl
      exact ⟨mode, holder, mem_append_left _ approved⟩
  · cases event with
    | claimed lease id requestID tokenHash =>
      obtain ⟨live, mode, holder, approved⟩ := claims lease id requestID tokenHash rfl
      exact grounded.proved approved live
    | opened lease id =>
      obtain ⟨live, requestID, tokenHash, claimed⟩ := lawful
      obtain ⟨mode, holder, approved⟩ := grounded.claimed lease id requestID tokenHash (by simpa using claimed)
      exact grounded.proved approved (by simpa using live)
    | created | held | approved | allowed | ended | revokedAll => trivial

theorem grounded {log : List (Event Hash)} (rests : Always Rests log) : Grounded log := by
  induction log using List.reverseRecOn with
  | nil => exact ⟨by simp, by simp, by simp, always_nil _⟩
  | append_singleton log event ih =>
    obtain ⟨earlier, last⟩ := always_snoc.mp rests
    cases event with
    | granted granted => exact (ih earlier).granted last
    | locked => exact (ih earlier).lock last
    | submitted | accepted | generated | opened => exact (ih earlier).vault (by simp) (by simp)

/-! ### What a step of the registry logs -/

theorem settle_logs (world : RawGrantRuns.World Hash) (now : Nat) (after : Registry Hash)
    (events : List (RawGrantRuns.Event Hash)) : ∃ more, (world.settle now after events).log = world.log ++ more ∧
      ∀ event ∈ more, event ∈ events ∨ ∃ id, event = .ended id := by
  refine ⟨_, by rw [RawGrantRuns.World.settle, List.append_assoc, List.append_assoc], fun event logged => ?_⟩
  simp only [mem_append, RawGrantRuns.mem_endedBetween] at logged
  rcases logged with ⟨id, same, -⟩ | isEvent | ⟨id, same, -⟩
  · exact .inr ⟨id, same⟩
  · exact .inl isEvent
  · exact .inr ⟨id, same⟩

theorem step_logs [DecidableEq Hash] {world next : RawGrantRuns.World Hash} {act : RawGrantRuns.Act Hash}
    (stepped : world.step act = some next) : ∃ more, next.log = world.log ++ more ∧
      ∀ id mode holder, .approved id mode holder ∈ more → (∀ requestID tokenHash, .created id requestID tokenHash ∉ more) ∧
        ∃ now mode' keys holder', act = .approve now id mode' keys holder' := by
  have silent : ∀ (world : RawGrantRuns.World Hash) now after events,
      (∀ id mode holder, .approved id mode holder ∉ events) → ∃ more,
        (world.settle now after events).log = world.log ++ more ∧ ∀ id mode holder, .approved id mode holder ∉ more := by
    intro world now after events none
    obtain ⟨more, logs, each⟩ := settle_logs world now after events
    refine ⟨more, logs, fun id mode holder logged => ?_⟩
    rcases each _ logged with isEvent | ⟨_, wrong⟩
    · exact none id mode holder isEvent
    · cases wrong
  have quiet : ∀ {next : RawGrantRuns.World Hash},
      (∃ more, next.log = world.log ++ more ∧ ∀ id mode holder, .approved id mode holder ∉ more) →
      ∃ more, next.log = world.log ++ more ∧ ∀ id mode holder, .approved id mode holder ∈ more →
        (∀ requestID tokenHash, .created id requestID tokenHash ∉ more) ∧
          ∃ now mode' keys holder', act = .approve now id mode' keys holder' := by
    rintro next ⟨more, logs, none⟩
    exact ⟨more, logs, fun id mode holder logged => absurd logged (none id mode holder)⟩
  cases act with
  | create now id tokenHash requestID reason clientName =>
    simp only [RawGrantRuns.World.step] at stepped
    split_ifs at stepped
    split at stepped
    next after grant created =>
      cases stepped
      obtain ⟨more, logs, none⟩ := silent world now after [] (by simp)
      exact quiet ⟨more ++ [.created id requestID tokenHash], by simp [logs], by simp [none]⟩
    · cases stepped
      exact quiet (silent world now _ [] (by simp))
  | hold key =>
    cases stepped
    exact quiet ⟨[.held world.nextHolder], rfl, by simp⟩
  | abandon holder =>
    simp only [RawGrantRuns.World.step] at stepped
    split_ifs at stepped
    cases stepped
    exact quiet ⟨[], by simp, by simp⟩
  | approve now id mode keys holder =>
    have concludes : ∀ (world : RawGrantRuns.World Hash) (result : Registry Hash × Except GrantError (RawGrant Hash)),
        ∃ more, (world.conclude now id mode holder result).log = world.log ++ more ∧
          ∀ event ∈ more, event = .approved id mode holder ∨ ∃ ended, event = .ended ended := by
      rintro world ⟨after, error | grant⟩
      · obtain ⟨more, logs, each⟩ := settle_logs world now after []
        exact ⟨more, logs, fun event logged => .inr ((each event logged).resolve_left (by simp))⟩
      · obtain ⟨more, logs, each⟩ := settle_logs world now after [.approved id mode holder]
        exact ⟨more, logs, fun event logged => (each event logged).imp_left mem_singleton.mp⟩
    have approves : ∃ more, next.log = world.log ++ more ∧
        ∀ event ∈ more, event = .approved id mode holder ∨ ∃ ended, event = .ended ended := by
      simp only [RawGrantRuns.World.step] at stepped
      split_ifs at stepped
      · cases stepped
        exact concludes world _
      · cases stepped
        exact concludes _ _
    obtain ⟨more, logs, each⟩ := approves
    refine ⟨more, logs, fun id' mode' holder' logged => ⟨fun requestID tokenHash created => ?_, now, mode, keys, holder, ?_⟩⟩
    · rcases each _ created with wrong | ⟨_, wrong⟩ <;> cases wrong
    · rcases each _ logged with same | ⟨_, wrong⟩
      · rw [(RawGrantRuns.Event.approved.inj same).1]
      · cases wrong
  | deny now id | revoke now id | revokeToken now tokenHash | expire now =>
    cases stepped
    exact quiet (silent world now _ [] (by simp))
  | claim now later tokenHash requestID =>
    simp only [RawGrantRuns.World.step] at stepped
    split at stepped
    · cases stepped
      exact quiet (silent world now _ [_] (by simp))
    · cases stepped
      exact quiet (silent world now _ [] (by simp))
  | check now tokenHash requestID =>
    simp only [RawGrantRuns.World.step] at stepped
    split at stepped
    · cases stepped
      exact quiet (silent world now _ [_] (by simp))
    · cases stepped
      exact quiet (silent world now _ [] (by simp))
  | revokeAll now =>
    cases stepped
    refine quiet ⟨_, by rw [List.append_assoc], fun id mode holder logged => ?_⟩
    simp only [mem_append, RawGrantRuns.mem_endedBetween, mem_singleton] at logged
    rcases logged with ⟨_, wrong, -⟩ | wrong <;> cases wrong
  | openPart i =>
    simp only [RawGrantRuns.World.step] at stepped
    split at stepped
    · split at stepped
      · split_ifs at stepped
        · cases stepped
          exact quiet ⟨[_], rfl, by simp⟩
        · cases stepped
          exact quiet ⟨[], by simp, by simp⟩
      · cases stepped
        exact quiet ⟨[], by simp, by simp⟩
    · cases stepped
  | release i =>
    cases stepped
    exact quiet ⟨[], by simp, by simp⟩

/-- What was submitted since the last lock was accepted since then. -/
structure Sane (log : List (RawVault.Event Hash)) (nextTask t : Nat) (task : Task) : Prop where
  below : t < nextTask
  accepted : proven task.stage = true → .submitted t ∈ sinceLock log → .accepted t ∈ sinceLock log
  decides : ∀ grant mode, task.use = .decide grant mode →
    (∃ requestID tokenHash, .granted (.created grant requestID tokenHash) ∈ log) ∧
      ∀ requestID tokenHash, .granted (.created grant requestID tokenHash) ∈ sinceLock log → .submitted t ∈ sinceLock log

variable {nextTask t : Nat} {task : Task}

theorem Sane.log {log : List (RawVault.Event Hash)} (sane : Sane log nextTask t task) {event : RawVault.Event Hash}
    (rests : Rests log event) (other : event ≠ .submitted t) :
    Sane (log ++ [event]) nextTask t task := by
  refine ⟨sane.below, fun isProven submitted => ?_, fun grant mode use => ?_⟩
  · by_cases locks : event = .locked
    · subst locks
      simp at submitted
    · rw [sinceLock_snoc log locks] at submitted ⊢
      rcases mem_append.mp submitted with earlier | last
      · exact mem_append_left _ (sane.accepted isProven earlier)
      · exact absurd (mem_singleton.mp last).symm other
  · obtain ⟨⟨requestID, tokenHash, created⟩, fresh⟩ := sane.decides grant mode use
    refine ⟨⟨requestID, tokenHash, mem_append_left _ created⟩, fun requestID' tokenHash' recent => ?_⟩
    by_cases locks : event = .locked
    · subst locks
      simp at recent
    · rw [sinceLock_snoc log locks] at recent ⊢
      rcases mem_append.mp recent with earlier | last
      · exact mem_append_left _ (fresh requestID' tokenHash' earlier)
      · -- The id of the grant was drawn before.
        obtain rfl := mem_singleton.mp last
        simpa [RawGrantRuns.drawn] using rests.1 _ (mem_grantLog.mpr created)

theorem Sane.granted {log : List (RawVault.Event Hash)} (sane : Sane log nextTask t task)
    (more : List (RawGrantRuns.Event Hash)) (rests : Always Rests (log ++ more.map .granted)) :
    Sane (log ++ more.map .granted) nextTask t task := by
  induction more using List.reverseRecOn with
  | nil => simpa using sane
  | append_singleton more event ih =>
    rw [map_append, ← List.append_assoc] at rests ⊢
    obtain ⟨earlier, last⟩ := always_snoc.mp rests
    exact (ih earlier).log last (by simp)

theorem Sane.follows {log : List (RawVault.Event Hash)} {later : Task} (sane : Sane log nextTask t task)
    (use : later.use = task.use) (isProven : proven later.stage = true → proven task.stage = true) :
    Sane log nextTask t later where
  below := sane.below
  accepted := fun later => sane.accepted (isProven later)
  decides := fun grant mode isUse => sane.decides grant mode (use ▸ isUse)

theorem Sane.accept {log : List (RawVault.Event Hash)} (sane : Sane log nextTask t task) (stage : Stage) :
    Sane (log ++ [.accepted t]) nextTask t { task with stage } := by
  have logged : Sane (log ++ [.accepted t]) nextTask t task := sane.log trivial (by simp)
  refine ⟨sane.below, fun _ _ => ?_, logged.decides⟩
  rw [sinceLock_snoc log (by simp)]
  exact mem_append_right _ (mem_singleton_self _)

theorem rests_granted {log : List (RawVault.Event Hash)} (rests : Always Rests log)
    (more : List (RawGrantRuns.Event Hash)) (lawful : Always RawGrantSafety.Lawful (grantLog log ++ more))
    (approvals : ∀ id mode holder, .approved id mode holder ∈ more →
      (∀ requestID tokenHash, .created id requestID tokenHash ∉ more) ∧
        ∀ requestID tokenHash, .granted (.created id requestID tokenHash) ∈ sinceLock log → Proved log) :
    Always Rests (log ++ more.map .granted) := by
  induction more using List.reverseRecOn with
  | nil => simpa using rests
  | append_singleton more event ih =>
    rw [← List.append_assoc] at lawful
    obtain ⟨earlier, last⟩ := always_snoc.mp lawful
    have before : Always Rests (log ++ more.map .granted) := ih earlier (fun id mode holder approved => by
      obtain ⟨uncreated, proved⟩ := approvals id mode holder (mem_append_left _ approved)
      exact ⟨fun requestID tokenHash created => uncreated requestID tokenHash (mem_append_left _ created), proved⟩)
    rw [map_append, ← List.append_assoc]
    refine always_snoc.mpr ⟨before, ?_, ?_⟩
    · rwa [grantLog_append, grantLog_granted]
    · cases event with
      | approved id mode holder =>
        intro requestID tokenHash recent
        obtain ⟨uncreated, proved⟩ := approvals id mode holder (by simp)
        rw [sinceLock_granted] at recent
        rcases mem_append.mp recent with isRecent | isNew
        · exact (proved requestID tokenHash isRecent).granted more
        · exact absurd (mem_append_left _ (by simpa using isNew)) (uncreated requestID tokenHash)
      | created | held | allowed | claimed | opened | ended | revokedAll => trivial

/-! ### What every step keeps -/

/-- What the grants, the log and the tasks keep. -/
structure Kept (world : World Hash) : Prop where
  grants : RawGrantSafety.Kept world.grants
  mirrors : grantLog world.log = world.grants.log
  rests : Always Rests world.log
  below : ∀ t, .submitted t ∈ world.log → t < world.nextTask
  tasks : ∀ t task, world.tasks t = some task → Sane world.log world.nextTask t task

theorem Kept.start : Kept (RawVault.start : World Hash) where
  grants := .start
  mirrors := rfl
  rests := always_nil _
  below := by simp [RawVault.start]
  tasks := by simp [RawVault.start]

variable {world : World Hash}

variable {grants : RawGrantRuns.World Hash}

theorem Kept.withGrants [DecidableEq Hash] (kept : Kept world) {act : RawGrantRuns.Act Hash}
    (stepped : world.grants.step act = some grants)
    (proves : ∀ now id mode keys holder, act = .approve now id mode keys holder → ∀ requestID tokenHash, .granted (.created id requestID tokenHash) ∈ sinceLock world.log → Proved world.log) :
    Kept (world.withGrants grants) := by
  have keptGrants : RawGrantSafety.Kept grants := kept.grants.moves (RawGrantSafety.step_moves kept.grants stepped)
  obtain ⟨more, logs, approvals⟩ := step_logs stepped
  have log : (world.withGrants grants).log = world.log ++ more.map .granted := by
    rw [World.withGrants, logs, drop_left]
  have rests : Always Rests (world.log ++ more.map .granted) := by
    refine rests_granted kept.rests more ?_ (fun id mode holder approved => ?_)
    · rw [kept.mirrors, ← logs]
      exact keptGrants.claims.always
    · obtain ⟨uncreated, now, mode', keys, holder', isApprove⟩ := approvals id mode holder approved
      exact ⟨uncreated, proves now id mode' keys holder' isApprove⟩
  refine ⟨keptGrants, ?_, log ▸ rests, fun t submitted => ?_, fun t task isTask => ?_⟩
  · rw [log, grantLog_append, grantLog_granted, kept.mirrors]
    exact logs.symm
  · rw [log] at submitted
    exact kept.below t (by simpa using submitted)
  · rw [log]
    exact (kept.tasks t task isTask).granted more rests

theorem Kept.log (kept : Kept world) {event : RawVault.Event Hash} (rests : Rests world.log event)
    (other : ∀ t, event ≠ .submitted t) (granted : ∀ event', event ≠ .granted event') :
    Kept { world with log := world.log ++ [event] } where
  grants := kept.grants
  mirrors := by
    rw [grantLog_append, kept.mirrors]
    cases event with
    | granted event => exact absurd rfl (granted event)
    | submitted | accepted | generated | locked | opened => exact append_nil _
  rests := always_snoc.mpr ⟨kept.rests, rests⟩
  below := fun t submitted => by
    rcases mem_append.mp submitted with earlier | last
    · exact kept.below t earlier
    · exact absurd (mem_singleton.mp last).symm (other t)
  tasks := fun t task isTask => (kept.tasks t task isTask).log rests (other t)

theorem Kept.vault (kept : Kept world) (vault : Vault) (now : Nat) :
    Kept { world with vault, now } :=
  ⟨kept.grants, kept.mirrors, kept.rests, kept.below, kept.tasks⟩

theorem of_update {tasks : Nat → Option Task} {other : Nat} {last : Option Task}
    (isTask : update tasks t last other = some task) :
    other = t ∧ last = some task ∨ other ≠ t ∧ tasks other = some task := by
  by_cases same : other = t
  · subst same
    exact .inl ⟨rfl, by simpa using isTask⟩
  · exact .inr ⟨same, by simpa [same] using isTask⟩

variable {next : World Hash}

theorem Kept.goesOn (kept : Kept world) {last : Option Task}
    (sane : ∀ task, last = some task → Sane world.log world.nextTask t task)
    (tasks : next.tasks = Function.update world.tasks t last) (nextTask : next.nextTask = world.nextTask)
    (grants : next.grants = world.grants) (log : next.log = world.log) : Kept next := by
  refine ⟨grants ▸ kept.grants, by rw [log, grants, kept.mirrors], log ▸ kept.rests, ?_, fun other task isTask => ?_⟩
  · rw [log, nextTask]
    exact kept.below
  · rw [log, nextTask]
    rw [tasks] at isTask
    rcases of_update isTask with ⟨rfl, isLast⟩ | ⟨-, isOld⟩
    · exact sane task isLast
    · exact kept.tasks other task isOld

theorem Kept.submit (kept : Kept world) (use : Use) (proof : RawProof)
    (decides : ∀ grant mode, use = .decide grant mode → ∃ requestID tokenHash, .granted (.created grant requestID tokenHash) ∈ world.log) :
    Kept (world.submit use proof) where
  grants := kept.grants
  mirrors := by
    rw [World.submit, grantLog_append, kept.mirrors]
    exact append_nil _
  rests := always_snoc.mpr ⟨kept.rests, trivial⟩
  below := fun t submitted => by
    rcases mem_append.mp submitted with earlier | last
    · exact Nat.lt_succ_of_lt (kept.below t earlier)
    · obtain rfl := RawVault.Event.submitted.inj (mem_singleton.mp last)
      exact Nat.lt_succ_self _
  tasks := fun t task isTask => by
    rcases of_update isTask with ⟨rfl, isNew⟩ | ⟨other, isOld⟩
    · cases isNew
      refine ⟨Nat.lt_succ_self _, fun isProven => ?_, fun grant mode isUse => ?_⟩
      · cases isProven
      · obtain ⟨requestID, tokenHash, created⟩ := decides grant mode isUse
        refine ⟨⟨requestID, tokenHash, mem_append_left _ created⟩, fun _ _ _ => ?_⟩
        rw [World.submit, sinceLock_snoc world.log (by simp)]
        exact mem_append_right _ (mem_singleton_self _)
    · have logged : Sane (world.log ++ [.submitted world.nextTask]) world.nextTask t task :=
        (kept.tasks t task isOld).log trivial (fun same => other (RawVault.Event.submitted.inj same).symm)
      exact ⟨Nat.lt_succ_of_lt logged.below, logged.accepted, logged.decides⟩

theorem pendingGrant_created (kept : Kept world) {clock : Nat} {id : String} {registry : Registry Hash}
    {grant : RawGrant Hash} (isPending : world.grants.registry.pendingGrant clock id = (registry, .ok grant)) :
    ∃ requestID tokenHash, .granted (.created id requestID tokenHash) ∈ world.log := by
  have evolves := expireLocked_evolves world.grants.registry clock
  simp only [Registry.pendingGrant] at isPending
  split at isPending
  · simp at isPending
  next found isFound =>
    have member : found ∈ (world.grants.registry.expireLocked clock).grants := mem_of_find?_eq_some isFound
    have isThis : found.id = id := by simpa using find?_some isFound
    have created : ∃ old ∈ world.grants.registry.grants, old.id = id := by
      rcases evolves.grants found member with listed | ⟨-, -, -, old, listed, sameID, -⟩
      · exact ⟨found, listed, isThis⟩
      · exact ⟨old, listed, sameID.trans isThis⟩
    obtain ⟨old, listed, rfl⟩ := created
    have logged := kept.grants.listed.created old listed
    rw [← kept.mirrors, mem_grantLog] at logged
    exact ⟨old.requestID, old.tokenHash, logged⟩

variable [DecidableEq Hash]

theorem revokeAll_rests (kept : Kept world) {clock : Nat}
    (stepped : world.grants.step (.revokeAll clock) = some grants) : Rests (world.withGrants grants).log .locked := by
  have after : Kept (world.withGrants grants) := kept.withGrants stepped (fun _ _ _ _ _ wrong => by cases wrong)
  have lawful := after.grants.claims.always
  have mirrors := after.mirrors
  cases stepped
  obtain ⟨-, all⟩ := always_snoc.mp lawful
  intro id requestID tokenHash created
  have isCreated := mem_grantLog.mpr created
  rw [mirrors] at isCreated
  have ended := all id requestID tokenHash (by simpa [World.withGrants] using isCreated)
  rw [← mem_grantLog, mirrors]
  exact mem_append_left _ ended

variable {options : VaultOptions}

theorem Kept.section (kept : Kept world) {choice : Choice} (isTask : world.tasks t = some task)
    (ran : Section options t task choice world next) :
    Kept next := by
  have sane := kept.tasks t task isTask
  cases ran with
  | quiet quiet =>
    obtain ⟨last, tasks, follows⟩ := quiet.tasks
    exact kept.goesOn (fun later isLater => sane.follows (follows later isLater).use (follows later isLater).proven) tasks
      quiet.nextTask quiet.grants quiet.log
  | accept state reached =>
    have logged : Kept { world with log := world.log ++ [.accepted t] } := kept.log trivial (by simp) (by simp)
    refine logged.goesOn (fun later isLater => ?_) rfl rfl rfl rfl
    cases isLater
    exact sane.accept (.opened state)
  | generate vault calms password isNew stage unproven noPair unset =>
    have logged : Kept { world with log := world.log ++ [.generated choice.newID choice.newKey] } :=
      kept.log trivial (by simp) (by simp)
    refine logged.goesOn (fun later isLater => ?_) rfl rfl rfl rfl
    cases isLater
    exact (logged.tasks t task isTask).follows rfl (fun isProven => by simp [unproven] at isProven)
  | clear isClear stores =>
    refine kept.goesOn (fun later isLater => ?_) rfl rfl rfl rfl
    cases isLater
    exact sane.follows rfl (fun isProven => by cases isProven)
  | install key keyID reached => exact kept.goesOn (fun later isLater => by cases isLater) rfl rfl rfl rfl
  | hold key keyID reached slot grants held =>
    have asked : Kept (world.withGrants grants) := kept.withGrants held (fun _ _ _ _ _ wrong => by cases wrong)
    refine asked.goesOn (fun later isLater => ?_) rfl rfl rfl rfl
    cases isLater
    exact (asked.tasks t task isTask).follows rfl (fun _ => by rw [reached]; rfl)
  | decide grant mode isUse holder reached act carries grants stepped =>
    have asked : Kept (world.withGrants grants) := kept.withGrants stepped (fun now id mode' keys holder' isApprove => by
      intro requestID tokenHash recent
      rcases carries with abandons | ⟨now', keys', approves⟩
      · rw [abandons] at isApprove
        cases isApprove
      · obtain ⟨-, rfl, -, -, -⟩ := RawGrantRuns.Act.approve.inj (approves.symm.trans isApprove)
        have submitted := (sane.decides grant mode isUse).2 requestID tokenHash recent
        exact ⟨t, submitted, sane.accepted (by rw [reached]; rfl) submitted⟩)
    exact asked.goesOn (fun later isLater => by cases isLater) rfl rfl rfl rfl
  | revoke reached clock grants stepped =>
    have asked : Kept (world.withGrants grants) := kept.withGrants stepped (fun _ _ _ _ _ wrong => by cases wrong)
    split
    · have locked : Kept { world.withGrants grants with log := (world.withGrants grants).log ++ [.locked] } :=
        asked.log (revokeAll_rests kept stepped) (by simp) (by simp)
      exact locked.goesOn (fun later isLater => by cases isLater) rfl rfl rfl rfl
    · exact asked.goesOn (fun later isLater => by cases isLater) rfl rfl rfl rfl

theorem submit_cases {use : Use} {proof : RawProof} {clock : Nat}
    (stepped : world.step options (.submit use proof clock) = some next) :
    (∀ grant mode, use ≠ .decide grant mode) ∧ next = world.submit use proof ∨
      ∃ grant mode grants, use = .decide grant mode ∧ world.grants.step (.expire clock) = some grants ∧
        (next = world.withGrants grants ∨ next = (world.withGrants grants).submit use proof ∧
          ∃ registry pending, world.grants.registry.pendingGrant clock grant = (registry, .ok pending)) := by
  simp only [World.step] at stepped
  split at stepped
  · split_ifs at stepped
    exact .inl ⟨by simp, (some.inj stepped).symm⟩
  · split_ifs at stepped
    exact .inl ⟨by simp, (some.inj stepped).symm⟩
  · split_ifs at stepped
    exact .inl ⟨by simp, (some.inj stepped).symm⟩
  · split_ifs at stepped
    split at stepped
    next registry pending grants isPending expires =>
      exact .inr ⟨_, _, grants, rfl, expires, .inr ⟨(some.inj stepped).symm, registry, pending, isPending⟩⟩
    next grants notPending expires =>
      exact .inr ⟨_, _, grants, rfl, expires, .inl (some.inj stepped).symm⟩
    next => cases stepped
  · exact .inl ⟨by simp, (some.inj stepped).symm⟩
  · exact .inl ⟨by simp, (some.inj stepped).symm⟩
  · exact .inl ⟨by simp, (some.inj stepped).symm⟩

theorem Kept.step {act : Act Hash} (kept : Kept world) (stepped : world.step options act = some next) : Kept next := by
  cases act with
  | tick elapsed =>
    cases stepped
    exact kept.vault world.vault _
  | submit use proof clock =>
    rcases submit_cases stepped with ⟨other, rfl⟩ | ⟨grant, mode, grants, rfl, expires, rest⟩
    · exact kept.submit use proof (fun grant mode isDecide => absurd isDecide (other grant mode))
    · have asked : Kept (world.withGrants grants) := kept.withGrants expires (fun _ _ _ _ _ wrong => by cases wrong)
      rcases rest with rfl | ⟨rfl, registry, pending, isPending⟩
      · exact asked
      · refine asked.submit _ proof (fun grant' mode' isDecide => ?_)
        obtain ⟨rfl, -⟩ := Use.decide.inj isDecide
        obtain ⟨requestID, tokenHash, created⟩ := pendingGrant_created kept isPending
        exact ⟨requestID, tokenHash, mem_append_left _ created⟩
  | run t choice =>
    simp only [World.step] at stepped
    split at stepped
    next task isTask => exact kept.section isTask (run_section isTask stepped)
    next => cases stepped
  | status | unlockedOpener =>
    cases stepped
    exact kept.vault _ world.now
  | openBlob blob =>
    simp only [World.step] at stepped
    cases stepped
    split
    · have opened : Kept { world with log := world.log ++ [.opened] } := kept.log trivial (by simp) (by simp)
      exact opened.vault _ world.now
    · exact kept.vault _ world.now
  | expireSession =>
    simp only [World.step] at stepped
    split_ifs at stepped
    cases stepped
    exact kept.vault _ world.now
  | grants act =>
    simp only [World.step] at stepped
    split_ifs at stepped with plain
    obtain ⟨grants, asked, rfl⟩ := Option.map_eq_some_iff.mp stepped
    exact kept.withGrants asked (fun now id mode keys holder isApprove => by
      subst isApprove
      cases plain)

end AstrLink.RawLocking
