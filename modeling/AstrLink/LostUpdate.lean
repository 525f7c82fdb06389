import AstrLink.System

/-!
Which content of an entity a run keeps that its user did not touch. The next attempt merges the stamp of the
one before against the remote; `run_keeps_newest` follows fair attempts over any interleaving.
-/
namespace AstrLink.LostUpdate
open Package Merge Scope LocalStore Device Applying AstrLink.System

variable {key : Key}

section
variable (formats : Formats) {J : Type} [DecidableEq J] (unmarshal : List UInt8 → Option J)

/-- The attempt takes the remote's content, or carries an unselected kind from it. -/
def Takes (device : SyncDevice) (run : Run) (remote : Option Document) (key : Key) : Prop :=
  if inScope device.scope key.1 then
    Yields unmarshal ⟨!run.hasBase, changedEntities device.store⟩ key (run.base.get key.1 key.2)
      (shown formats device.scope run.base.revision run.snapshotAt device.store key)
      ((readPackage remote).get key.1 key.2)
  else (readPackage remote).get key.1 key.2 ≠ none ∨ live (run.base.get key.1 key.2) = none

/-- The attempt takes the remote's content for a key, and for the provider it
    depends on. -/
def Fair (device : SyncDevice) (run : Run) (remote : Option Document) (key : Key) : Prop :=
  Takes formats unmarshal device run remote key ∧
    (key.1 ∈ dependentKinds → Takes formats unmarshal device run remote (.service, key.2) ∧
      (live ((readPackage remote).get key.1 key.2) ≠ none → live ((readPackage remote).get .service key.2) ≠ none))

instance (device : SyncDevice) (run : Run) (remote : Option Document) (key : Key) :
    Decidable (Takes formats unmarshal device run remote key) := by
  unfold Takes
  infer_instance

instance (device : SyncDevice) (run : Run) (remote : Option Document) (key : Key) :
    Decidable (Fair formats unmarshal device run remote key) := by
  unfold Fair
  infer_instance

variable {formats unmarshal}

variable {device : SyncDevice}

theorem attempt_publishes_remote {run : Run} {remote : Option Document} {turn : Turn} {applied : Store}
    {merged : Document} (known : key.1 ∈ kinds) (fair : Fair formats unmarshal device run remote key)
    (attempted : attemptOf formats unmarshal device run remote turn = (applied, some merged)) :
    Agree unmarshal (merged.get key.1 key.2) ((readPackage remote).get key.1 key.2) := by
  obtain ⟨localDoc, reconciled, built, rfl, _⟩ := attempt_published formats unmarshal attempted
  have composed : ∀ other : Key, other.1 ∈ kinds → Takes formats unmarshal device run remote other →
      Agree unmarshal ((compose unmarshal turn.now device.scope run.base run.hasBase localDoc (readPackage remote)
        remote.isSome (changedEntities reconciled)).1.get other.1 other.2) ((readPackage remote).get other.1 other.2) := by
    intro other listed takes
    have side := localDocument_get formats built other.1 other.2
    unfold Takes at takes
    by_cases selected : inScope device.scope other.1 = true
    · rw [if_pos selected] at takes
      rw [compose_get_selected unmarshal selected, side, changedEntities_reconciled formats built]
      exact (mergeEntity_yields_iff unmarshal).mpr takes
    · have unselected : inScope device.scope other.1 = false := Bool.eq_false_iff.mpr selected
      rw [if_neg selected] at takes
      have absent : localDoc.get other.1 other.2 = none := side.trans (shown_unselected formats unselected _ _ _)
      rw [compose_get_carried unmarshal listed unselected other.2 absent]
      rcases takes with present | missing
      · obtain ⟨entity, found⟩ := Option.ne_none_iff_exists'.mp present
        rw [found, Option.some_or]
        exact agree_refl unmarshal _
      · cases found : (readPackage remote).get other.1 other.2 with
        | some entity => exact agree_refl unmarshal _
        | none => simp [Agree, missing, same_refl]
  have own := composed key known fair.1
  show Agree unmarshal ((publish unmarshal turn.now device.scope run.base run.hasBase localDoc (readPackage remote)
    remote.isSome (changedEntities reconciled)).1.get key.1 key.2) _
  rw [publish_get]
  by_cases orphan : key.1 ∈ dependentKinds ∧ (compose unmarshal turn.now device.scope run.base run.hasBase localDoc
      (readPackage remote) remote.isSome (changedEntities reconciled)).1.get .service key.2 = none
  · -- a dependant is only pruned when the remote holds neither it nor its provider
    rw [if_pos orphan]
    obtain ⟨ownerTaken, ownerHeld⟩ := fair.2 orphan.1
    have owner := composed (.service, key.2) (by simp [kinds]) ownerTaken
    rw [orphan.2] at owner
    have gone : live ((readPackage remote).get key.1 key.2) = none := by
      by_contra present
      have stays := ownerHeld present
      cases found : live ((readPackage remote).get .service key.2) with
      | none => exact stays found
      | some entity => simp [Agree, found, Same, differs] at owner
    simp [Agree, gone, same_refl]
  · rw [if_neg orphan]
    exact own

variable (formats unmarshal)

/-- The user leaves the entity alone, and an attempt is fair to it and can store it. -/
def Respects (device : SyncDevice) (key : Key) : Action → Prop
  | .user clock other change =>
    Agree unmarshal (held formats (userChange clock other device.store change) key) (held formats device.store key)
  | .merge turn =>
    match device.run with
    | some ⟨base, hasBase, snapshotAt, tries, .merging read version⟩ =>
      Fair formats unmarshal device ⟨base, hasBase, snapshotAt, tries, .merging read version⟩ read key ∧
        StoresAs formats unmarshal device ⟨base, hasBase, snapshotAt, tries, .merging read version⟩ read turn key
    | _ => True
  | _ => True

instance (device : SyncDevice) (key : Key) (action : Action) : Decidable (Respects formats unmarshal device key action) := by
  unfold Respects
  split
  · infer_instance
  · split <;> infer_instance
  · infer_instance

/-- What a device read or is about to write goes with its version. -/
def InStep (remote : Remote) (device : SyncDevice) (key : Key) : Prop :=
  match device.run with
  | some ⟨_, _, _, _, .merging read version⟩ =>
    version ≤ remote.version ∧ (version = remote.version → read = remote.package)
  | some ⟨_, _, _, _, .writing merged version⟩ =>
    version ≤ remote.version ∧
      (version = remote.version → Agree unmarshal (merged.get key.1 key.2) (remote.holds key)) ∧
      (inScope device.scope key.1 = true → Agree unmarshal (held formats device.store key) (merged.get key.1 key.2))
  | _ => True

variable {formats unmarshal}

theorem InStep.remote {remote next : Remote} {key : Key} (between : InStep formats unmarshal remote device key)
    (grows : remote.version ≤ next.version) (kept : next.version = remote.version → next = remote) :
    InStep formats unmarshal next device key := by
  unfold InStep at between ⊢
  have same : ∀ version, version ≤ remote.version → version = next.version → next = remote := by
    intro version before after
    exact kept (by omega)
  split at between
  · rename_i read version _
    exact ⟨by omega, fun met => (same version between.1 met) ▸ between.2 (by rw [met, same version between.1 met])⟩
  · rename_i merged version _
    refine ⟨by omega, fun met => ?_, between.2.2⟩
    rw [same version between.1 met]
    exact between.2.1 (by rw [met, same version between.1 met])
  · trivial

theorem InStep.step {remote : Remote} {action : Action} (known : key.1 ∈ kinds)
    (between : InStep formats unmarshal remote device key) (respects : Respects formats unmarshal device key action) :
    InStep formats unmarshal remote (stepDevice formats unmarshal remote device action) key := by
  rcases running : device.run with _ | ⟨base, hasBase, snapshotAt, tries, phase⟩
  · cases action <;> simp [stepDevice, running, InStep, startRun]
  · cases action with
    | user clock other change =>
      unfold InStep at between ⊢
      simp only [stepDevice, running] at between ⊢
      cases phase with
      | reading => trivial
      | merging read version => exact between
      | writing merged version =>
        exact ⟨between.1, between.2.1, fun selected => agree_trans unmarshal respects (between.2.2 selected)⟩
    | configure scope => simpa [stepDevice, running] using between
    | begin snapshotAt' => simpa [stepDevice, running] using between
    | abort => simp [stepDevice, InStep]
    | read =>
      cases phase with
      | reading => simp [stepDevice, running, InStep]
      | merging read version => simpa [stepDevice, running] using between
      | writing merged version => simpa [stepDevice, running] using between
    | merge turn =>
      cases phase with
      | reading => simpa [stepDevice, running] using between
      | writing merged version => simpa [stepDevice, running] using between
      | merging read version =>
        simp only [Respects, running] at respects
        simp only [InStep, running] at between
        simp only [stepDevice, running, mergeStep]
        rcases attempted : attemptOf formats unmarshal device ⟨base, hasBase, snapshotAt, tries, .merging read version⟩
          read turn with ⟨applied, _ | merged⟩
        · simp [InStep]
        · refine ⟨between.1, fun met => ?_, fun selected => attempt_stores respects.2 selected attempted⟩
          rw [← readPackage_get, ← between.2 met]
          exact attempt_publishes_remote known respects.1 attempted
    | write =>
      cases phase with
      | reading => simpa [stepDevice, running] using between
      | merging read version => simpa [stepDevice, running] using between
      | writing merged version =>
        by_cases met : remote.version = version
        · simp [stepDevice, running, met, InStep]
        · by_cases again : tries + 1 < maxWriteAttempts <;>
            simp [stepDevice, running, met, refusedWrite, again, InStep]
    | lose =>
      cases phase with
      | reading => simpa [stepDevice, running] using between
      | merging read version => simpa [stepDevice, running] using between
      | writing merged version => simp [stepDevice, running, InStep]

theorem InStep.write {remote : Remote} {key : Key} (action : Action)
    (between : InStep formats unmarshal remote device key) :
    Agree unmarshal ((stepRemote remote device action).holds key) (remote.holds key) ∧
      ((stepRemote remote device action).version ≠ remote.version → inScope device.scope key.1 = true →
        Agree unmarshal (held formats (stepDevice formats unmarshal remote device action).store key)
          ((stepRemote remote device action).holds key)) := by
  rcases stepRemote_cases remote device action with same | ⟨merged, pending, stored⟩
  · rw [same]
    exact ⟨agree_refl unmarshal _, fun moved => absurd rfl moved⟩
  · rcases running : device.run with _ | ⟨base, hasBase, snapshotAt, tries, phase⟩
    · simp [SyncDevice.pending, running] at pending
    · cases phase with
      | reading => simp [SyncDevice.pending, running] at pending
      | merging read version => simp [SyncDevice.pending, running] at pending
      | writing written version =>
        simp only [SyncDevice.pending, running, Option.some.injEq, Prod.mk.injEq] at pending
        obtain ⟨rfl, rfl⟩ := pending
        simp only [InStep, running] at between
        have content : (⟨some written, remote.version + 1⟩ : Remote).holds key = written.get key.1 key.2 := rfl
        have sameRows : held formats (stepDevice formats unmarshal remote device action).store key =
            held formats device.store key := by
          cases action with
          | write =>
            simp only [stepDevice, running, if_true]
            rfl
          | lose => simp [stepDevice, running]
          | user clock other change =>
            simp only [stepRemote] at stored
            exact absurd (congrArg Remote.version stored) (Nat.succ_ne_self _).symm
          | merge turn =>
            simp only [stepRemote] at stored
            exact absurd (congrArg Remote.version stored) (Nat.succ_ne_self _).symm
          | _ => simp [stepDevice, running]
        rw [stored, content, sameRows]
        exact ⟨between.2.1 trivial, fun _ selected => between.2.2 selected⟩

section
variable {D : Type} [DecidableEq D] (formats unmarshal)

/-- Every step of one device along a run respects the entity. -/
def Respectful (device : D) (key : Key) : State D → List (D × Action) → Prop
  | _, [] => True
  | state, next :: rest =>
    (next.1 = device → Respects formats unmarshal (state.devices device) key next.2) ∧
      Respectful device key (step formats unmarshal state next.1 next.2) rest

instance Respectful.decide (device : D) (key : Key) :
    (state : State D) → (steps : List (D × Action)) → Decidable (Respectful formats unmarshal device key state steps)
  | _, [] => isTrue trivial
  | state, next :: rest =>
    have := Respectful.decide device key (step formats unmarshal state next.1 next.2) rest
    inferInstanceAs (Decidable (_ ∧ _))

variable {formats unmarshal}

theorem respectful_concat {device : D} {state : State D} {steps : List (D × Action)} {next : D × Action}
    {later : List (D × Action)} (respectful : Respectful formats unmarshal device key state (steps ++ next :: later)) :
    Respectful formats unmarshal device key state steps ∧
      (next.1 = device → Respects formats unmarshal ((after formats unmarshal state steps).devices device) key next.2) := by
  induction steps generalizing state with
  | nil => exact ⟨trivial, respectful.1⟩
  | cons head rest ih =>
    obtain ⟨own, tail⟩ := respectful
    obtain ⟨before, now⟩ := ih tail
    exact ⟨⟨own, before⟩, now⟩

theorem inStep_after {device : D} (known : key.1 ∈ kinds) {state : State D} {steps : List (D × Action)}
    (respectful : Respectful formats unmarshal device key state steps)
    (between : InStep formats unmarshal state.remote (state.devices device) key) :
    InStep formats unmarshal (after formats unmarshal state steps).remote
      ((after formats unmarshal state steps).devices device) key := by
  induction steps generalizing state with
  | nil => exact between
  | cons next rest ih =>
    obtain ⟨own, tail⟩ := respectful
    refine ih tail ?_
    have grown := stepRemote_version state.remote (state.devices next.1) next.2
    by_cases acts : next.1 = device
    · have moved := between.step known (own acts)
      subst acts
      rw [step_actor, step_remote]
      exact moved.remote grown.1 grown.2
    · rw [step_other formats unmarshal state (Ne.symm acts), step_remote]
      exact between.remote grown.1 grown.2

/-- Over every interleaving in which the device's steps respect an entity, none
    of its steps changes the content the remote holds for it, and after each of
    its writes the device holds that content too. -/
theorem run_keeps_newest (formats : Formats) (unmarshal : List UInt8 → Option J) (state : State D) (device : D) (key : Key)
    (known : key.1 ∈ kinds) (idle : (state.devices device).run = none) (steps : List (D × Action))
    (respectful : Respectful formats unmarshal device key state steps) :
    ∀ earlier action later, steps = earlier ++ (device, action) :: later →
      Agree unmarshal ((after formats unmarshal state (earlier ++ [(device, action)])).remote.holds key)
        ((after formats unmarshal state earlier).remote.holds key) ∧
      ((after formats unmarshal state (earlier ++ [(device, action)])).remote.version ≠
          (after formats unmarshal state earlier).remote.version →
        inScope ((after formats unmarshal state earlier).devices device).scope key.1 = true →
        Agree unmarshal
          (held formats ((after formats unmarshal state (earlier ++ [(device, action)])).devices device).store key)
          ((after formats unmarshal state (earlier ++ [(device, action)])).remote.holds key)) := by
  intro earlier action later split
  subst split
  obtain ⟨before, _⟩ := respectful_concat respectful
  have between := inStep_after known before (by simp [InStep, idle])
  rw [after_concat, step_remote, step_actor]
  exact between.write action

end

end

/-! ### Two devices that share the privacy policy

The second device publishes the policy twice; the first reads the first version,
applies it at 100, loses its write to the second version and reads again. -/

def policyKey : Key := (.policy, defaultPrivacyPolicyId)

def policyRow (content : UInt8) (updatedAt : Nat) : Row := { document := [content], updatedAt := updatedAt }

def policyPackage : Document :=
  (newDocument "first" 1 10).put .policy defaultPrivacyPolicyId ⟨1, 5, false, [0], ""⟩

def policyDevice (deviceId : String) : SyncDevice :=
  ⟨deviceId, ⟨false, false, true, false, false⟩,
    ⟨(∅ : Tables.Table Key Row).insert policyKey (policyRow 0 5), [], [], ∅, some policyPackage⟩, none⟩

def policyState : State Bool := ⟨fun second => policyDevice (if second then "second" else "first"), ⟨some policyPackage, 0⟩⟩

def clockAt (now : Nat) : Clock := ⟨fun _ => now, fun _ => now, fun _ => now⟩

def turnAt (now : Nat) : Turn := ⟨clockAt now, [policyKey], now⟩

/-- The second version was edited at the given time. -/
def racedRun (editedAt : Nat) : List (Bool × Action) :=
  [(true, .user (clockAt 30) policyKey (.save (policyRow 1 30))),
    (true, .begin 40), (true, .read), (true, .merge (turnAt 40)), (true, .write),
    (true, .user (clockAt editedAt) policyKey (.save (policyRow 2 editedAt))),
    (false, .begin 90), (false, .read), (false, .merge (turnAt 100)),
    (true, .begin 105), (true, .read), (true, .merge (turnAt 105)), (true, .write),
    (false, .write), (false, .read), (false, .merge (turnAt 120)), (false, .write)]

/-- The policy the remote holds after the first steps of a run. -/
def policyAfter (editedAt steps : Nat) : Option (List UInt8 × Nat) :=
  ((after plainFormats (some : List UInt8 → Option (List UInt8)) policyState ((racedRun editedAt).take steps)).remote.holds
    policyKey).map (fun entity => (entity.document, entity.updatedAt))

/-- The second version was edited at 50, before the first one was applied at 100:
    the first device puts the first version back over it. -/
theorem run_republishes_older :
    (∀ next ∈ racedRun 50, next.1 = false → ∀ clock key change, next.2 ≠ .user clock key change) ∧
    policyAfter 50 16 = some ([2], 50) ∧ policyAfter 50 17 = some ([1], 100) := by
  refine ⟨?_, by decide, by decide⟩
  intro next listed own clock key change
  simp only [racedRun, List.mem_cons, List.not_mem_nil, or_false] at listed
  rcases listed with rfl | rfl | rfl | rfl | rfl | rfl | rfl | rfl | rfl | rfl | rfl | rfl | rfl | rfl | rfl | rfl | rfl <;>
    simp at own ⊢

/-- Edited at 103, the second version is the newest of all, and the first device
    takes it over. -/
theorem run_keeps_newest_raced :
    Agree (some : List UInt8 → Option (List UInt8))
      ((after plainFormats some policyState (racedRun 103)).remote.holds policyKey)
      ((after plainFormats some policyState ((racedRun 103).take 16)).remote.holds policyKey) :=
  (run_keeps_newest plainFormats some policyState false policyKey (by decide) rfl (racedRun 103) (by decide)
    ((racedRun 103).take 16) .write [] rfl).1

end AstrLink.LostUpdate
