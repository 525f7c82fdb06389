import AstrLink.Deletion
import AstrLink.LostUpdate
import AstrLink.Priority

/-!
Two devices that sync in turn with nobody editing. After two syncs of one and one of the other both devices
and the remote hold the same, and no further sync changes it (`syncs_converge`).
-/
namespace AstrLink.Convergence
open Tables Package Merge Scope LocalStore Device Storing List
open Applying Priority AstrLink.System WholeRun LostUpdate

theorem mergeOrder_settles {published own other merged : List String} {before after : String → Bool}
    (listed : own = published.filter before) (made : merged = mergeOrder published own other) (distinct : other.Nodup)
    (named : ∀ id, after id = true → id ∈ other) (kept : ∀ id, after id = true → id ∈ merged) :
    merged.filter after = other.filter after := by
  unfold mergeOrder at made
  split at made
  · rename_i same
    rw [made, same]
  split at made
  · rw [made]
  split at made
  · rename_i still
    rw [made, listed, still, filter_filter]
    refine filter_congr (fun id _ => ?_)
    cases shown : after id with
    | false => rfl
    | true =>
      have there := kept id shown
      rw [made, listed, mem_filter] at there
      simp [there.2]
  · rw [appendUnseen_nodup distinct] at made
    obtain ⟨added, joined, fresh, _, _⟩ := appendUnseen_eq other own
    have unshown : added.filter after = [] := by
      rw [filter_eq_nil_iff]
      exact fun id more shown => (fresh id more).2 (named id shown)
    rw [made, joined, filter_append, unshown, append_nil]

section
variable {D : Type} (formats : Formats) {J : Type} [DecidableEq J] (unmarshal : List UInt8 → Option J)

/-! ### A sync that stores what it merged -/

/-- The merged priority list names the services of the package once, as the device would. -/
def Places (scope : SyncScope) (store : Store) (merged : Document) : Prop :=
  merged.order.Nodup ∧ (∀ key ∈ merged.entities.keys, key.1 = .service → key.2 ∈ merged.order) ∧
    (inScope scope .service = false → serviceOrder store = merged.order ∧ priority merged = merged.order)

/-- The device can hold the package and place its services, none of which it deletes. -/
def Fits (sync : Sync D) (state : State D) : Option Document → Prop
  | none => False
  | some merged =>
    (∀ key ∈ (.policy, defaultPrivacyPolicyId) :: merged.entities.keys,
      StoresAs formats unmarshal (state.devices sync.actor) (startRun (state.devices sync.actor) sync.snapshotAt)
        state.remote.package sync.turn key) ∧
    (∀ key ∈ merged.entities.keys, key.1 = .service → live (merged.get key.1 key.2) ≠ none) ∧
    Places (state.devices sync.actor).scope (state.devices sync.actor).store merged

/-- The run completes, and the package it publishes fits the device. -/
def Settling (sync : Sync D) (state : State D) : Prop :=
  (state.devices sync.actor).run.isNone = true ∧
    Fits formats unmarshal sync state (sync.attempt formats unmarshal state).2

/-- What the device holds lets the other's package stand. -/
def Catches (sync : Sync D) (state : State D) : Prop :=
  (∀ key ∈ (readPackage state.remote.package).entities.keys, inScope (state.devices sync.actor).scope key.1 = true →
    live (shows formats (state.devices sync.actor) sync.snapshotAt key) = none → live (state.remote.holds key) ≠ none →
      eventTime (shows formats (state.devices sync.actor) sync.snapshotAt key) ≤ eventTime (state.remote.holds key)) ∧
  (∀ key ∈ (baseOf (state.devices sync.actor)).entities.keys, inScope (state.devices sync.actor).scope key.1 = false →
    live ((baseOf (state.devices sync.actor)).get key.1 key.2) ≠ none → state.remote.holds key ≠ none) ∧
  (∀ id ∈ mergeOrder (baseOf (state.devices sync.actor)).order (serviceOrder (state.devices sync.actor).store)
    (readPackage state.remote.package).order, state.remote.holds (.service, id) ≠ none)

instance (scope : SyncScope) (store : Store) (merged : Document) : Decidable (Places scope store merged) := by
  unfold Places
  infer_instance

instance (sync : Sync D) (state : State D) : (published : Option Document) →
    Decidable (Fits formats unmarshal sync state published)
  | none => inferInstanceAs (Decidable False)
  | some _ => inferInstanceAs (Decidable (_ ∧ _ ∧ _))

instance (sync : Sync D) (state : State D) : Decidable (Settling formats unmarshal sync state) := by
  unfold Settling
  infer_instance

instance (sync : Sync D) (state : State D) : Decidable (Catches formats sync state) := by
  unfold Catches
  infer_instance

/-- A package as a settling sync publishes it. -/
structure Sound (document : Document) : Prop where
  listed : ∀ kind id, document.get kind id ≠ none → kind ∈ kinds
  provided : ∀ id, document.get .service id ≠ none → live (document.get .service id) ≠ none
  owned : ∀ kind id, kind ∈ dependentKinds → document.get kind id ≠ none → document.get .service id ≠ none
  distinct : document.order.Nodup
  named : ∀ id, document.get .service id ≠ none → id ∈ document.order

/-- A device that holds the package it last synced. -/
structure Synced (device : SyncDevice) : Prop where
  tidy : Tidy device.scope (baseOf device)
  held : ∀ key, inScope device.scope key.1 = true →
    Agree unmarshal (held formats device.store key) ((baseOf device).get key.1 key.2)
  order : serviceOrder device.store = priority (baseOf device)

variable [DecidableEq D]

structure Publishes (sync : Sync D) (state next : State D) : Prop where
  synced : Synced formats unmarshal (next.devices sync.actor)
  remote : next.remote.package = some (baseOf (next.devices sync.actor))
  sound : Sound (baseOf (next.devices sync.actor))
  order : (baseOf (next.devices sync.actor)).order = mergeOrder (baseOf (state.devices sync.actor)).order
    (serviceOrder (state.devices sync.actor).store) (readPackage state.remote.package).order
  scope : (next.devices sync.actor).scope = (state.devices sync.actor).scope
  others : ∀ other, other ≠ sync.actor → next.devices other = state.devices other

variable {formats unmarshal}

omit [DecidableEq D] in
theorem Settling.published {sync : Sync D} {state : State D} (settling : Settling formats unmarshal sync state) :
    ∃ applied merged, sync.attempt formats unmarshal state = (applied, some merged) ∧
      (∀ key, StoresAs formats unmarshal (state.devices sync.actor)
        (startRun (state.devices sync.actor) sync.snapshotAt) state.remote.package sync.turn key) ∧
      (∀ id, merged.get .service id ≠ none → live (merged.get .service id) ≠ none) ∧
      (∀ id, merged.get .service id ≠ none → id ∈ merged.order) ∧
      Places (state.devices sync.actor).scope (state.devices sync.actor).store merged := by
  obtain ⟨_, published⟩ := settling
  rcases attempted : sync.attempt formats unmarshal state with ⟨applied, _ | merged⟩
  · rw [attempted] at published
    exact published.elim
  rw [attempted] at published
  obtain ⟨stores, provided, places⟩ := published
  refine ⟨applied, merged, rfl, fun key => ?_, fun id found => provided (.service, id) (mem_keys_of_ne_none found) rfl,
    fun id found => places.2.1 (.service, id) (mem_keys_of_ne_none found) rfl, places⟩
  by_cases listed : key ∈ (Kind.policy, defaultPrivacyPolicyId) :: merged.entities.keys
  · exact stores key listed
  · -- a key the package does not hold asks nothing of the store
    rw [mem_cons, not_or] at listed
    have absent : merged.get key.1 key.2 = none := by
      by_contra found
      exact listed.2 (mem_keys_of_ne_none found)
    obtain ⟨localDoc, reconciled, built, made, _⟩ := attempt_published formats unmarshal attempted
    have opened : localDocument formats (state.devices sync.actor).deviceId (state.devices sync.actor).scope
        (startRun (state.devices sync.actor) sync.snapshotAt).base.revision
        (startRun (state.devices sync.actor) sync.snapshotAt).snapshotAt (state.devices sync.actor).store =
        some (localDoc, reconciled) := built
    simp only [StoresAs, opened]
    intro _
    rw [made] at absent
    unfold Storable
    rw [show (publish unmarshal sync.turn.now (state.devices sync.actor).scope
      (startRun (state.devices sync.actor) sync.snapshotAt).base
      (startRun (state.devices sync.actor) sync.snapshotAt).hasBase localDoc (readPackage state.remote.package)
      state.remote.package.isSome (changedEntities reconciled)).1.get key.1 key.2 = none from absent]
    exact fun policy => absurd policy listed.1

theorem sync_publishes {sync : Sync D} {state : State D} (settling : Settling formats unmarshal sync state) :
    Publishes formats unmarshal sync state (afterSync formats unmarshal state sync) := by
  obtain ⟨applied, merged, attempted, stores, provided, named, places⟩ := settling.published
  rw [afterSync_stored settling.1 attempted]
  obtain ⟨localDoc, reconciled, built, made, done⟩ := attempt_published formats unmarshal attempted
  have tidy : Tidy (state.devices sync.actor).scope merged := made ▸ publish_tidy unmarshal
  have base : baseOf ((stored state sync applied merged).devices sync.actor) = merged := by
    simp [stored, baseOf, finish, deleteTombstonesBefore, clearChangesThrough]
  have rows : ((stored state sync applied merged).devices sync.actor).store.rows = applied.rows := by
    simp [stored, finish, deleteTombstonesBefore, clearChangesThrough]
  have scope : ((stored state sync applied merged).devices sync.actor).scope = (state.devices sync.actor).scope := by
    simp [stored]
  have contents : ∀ key, inScope (state.devices sync.actor).scope key.1 = true →
      Agree unmarshal (held formats applied key) (merged.get key.1 key.2) :=
    fun key selected => attempt_stores (stores key) selected attempted
  have listed : serviceOrder applied = priority merged := by
    by_cases selected : inScope (state.devices sync.actor).scope .service = true
    · refine apply_serviceOrder done selected places.1 named (fun id => ?_)
      have agree := (contents (.service, id) selected).live_none_iff
      have row : live (held formats applied (.service, id)) = none ↔ applied.rows.lookup (.service, id) = none := by
        cases found : applied.rows.lookup (.service, id) <;> simp [held, rowContent, found, live, Option.filter]
      rw [ne_eq, ← row, agree]
      exact ⟨fun shown missing => shown (by rw [missing]; rfl), provided id⟩
    · have unselected := Bool.eq_false_iff.mpr selected
      obtain ⟨own, exact⟩ := places.2.2 unselected
      rw [apply_serviceOrder_unselected done unselected, exact, ← own]
      exact serviceOrder_congr (fun id => by rw [(localDocument_reconciled formats built).1])
  refine ⟨⟨?_, fun key selected => ?_, ?_⟩, ?_, ?_, ?_, scope, fun other apart => Function.update_of_ne apart ..⟩
  · rw [scope, base]
    exact tidy
  · rw [base]
    rw [scope] at selected
    simp only [held, rows]
    exact contents key selected
  · rw [base, ← listed]
    exact serviceOrder_congr (fun id => by rw [rows])
  · rw [base]
    rfl
  · rw [base]
    refine ⟨fun kind id found => ?_, provided, tidy.owned, places.1, named⟩
    by_contra unknown
    exact found (made ▸ publish_get_unknown unmarshal unknown id (by
      rw [localDocument_get formats built]
      exact shown_unselected formats (Bool.eq_false_iff.mpr (fun selected => unknown (kinds_of_inScope selected))) _ _ _))
  · rw [base, made, publish_order, localDocument_order formats built]
    rfl

/-! ### The remote's content stays -/

omit [DecidableEq D] in
theorem holds_of_sound {state : State D} {document : Document} (package : state.remote.package = some document) (key : Key) :
    state.remote.holds key = document.get key.1 key.2 := by
  rw [Remote.holds, package, Option.bind_some]

theorem sync_keeps_remote {sync : Sync D} {state : State D} {document : Document}
    (settling : Settling formats unmarshal sync state) (package : state.remote.package = some document)
    (sound : Sound document)
    (takes : ∀ key, key.1 ∈ kinds → Takes formats unmarshal (state.devices sync.actor)
      (startRun (state.devices sync.actor) sync.snapshotAt) state.remote.package key) (key : Key) :
    Agree unmarshal ((afterSync formats unmarshal state sync).remote.holds key) (state.remote.holds key) := by
  obtain ⟨applied, merged, attempted, _⟩ := settling.published
  have publishes := sync_publishes settling
  have stores : (afterSync formats unmarshal state sync).remote.holds key = merged.get key.1 key.2 := by
    rw [afterSync_stored settling.1 attempted]
    rfl
  by_cases known : key.1 ∈ kinds
  · have fair : Fair formats unmarshal (state.devices sync.actor)
        (startRun (state.devices sync.actor) sync.snapshotAt) state.remote.package key := by
      refine ⟨takes key known, fun dependent => ⟨takes (.service, key.2) (by simp [kinds]), fun shown => ?_⟩⟩
      rw [package] at shown ⊢
      refine sound.provided key.2 (sound.owned key.1 key.2 dependent (fun absent => shown ?_))
      show live (document.get key.1 key.2) = none
      rw [absent, live_none]
    have published := attempt_publishes_remote known fair attempted
    rw [stores, ← readPackage_get]
    exact published
  · have absent : (afterSync formats unmarshal state sync).remote.holds key = none := by
      rw [holds_of_sound publishes.remote]
      by_contra found
      exact known (publishes.sound.listed key.1 key.2 found)
    have gone : state.remote.holds key = none := by
      rw [holds_of_sound package]
      by_contra found
      exact known (sound.listed key.1 key.2 found)
    rw [absent, gone]
    exact agree_refl unmarshal none

omit [DecidableEq D] in
theorem takes_iff {sync : Sync D} {state : State D} {key : Key} :
    Takes formats unmarshal (state.devices sync.actor) (startRun (state.devices sync.actor) sync.snapshotAt)
        state.remote.package key ↔
      if inScope (state.devices sync.actor).scope key.1 then
        Yields unmarshal ⟨!(state.devices sync.actor).store.baseline.isSome, changedEntities (state.devices sync.actor).store⟩
          key ((baseOf (state.devices sync.actor)).get key.1 key.2)
          (shows formats (state.devices sync.actor) sync.snapshotAt key) (state.remote.holds key)
      else state.remote.holds key ≠ none ∨ live ((baseOf (state.devices sync.actor)).get key.1 key.2) = none := by
  rw [← readPackage_get]
  rfl

omit [DecidableEq D] in
theorem takes_of_catches {sync : Sync D} {state : State D} (synced : Synced formats unmarshal (state.devices sync.actor))
    (settling : Settling formats unmarshal sync state) (catches : Catches formats sync state) (key : Key) :
    Takes formats unmarshal (state.devices sync.actor) (startRun (state.devices sync.actor) sync.snapshotAt)
      state.remote.package key := by
  obtain ⟨applied, merged, attempted, _⟩ := settling.published
  obtain ⟨later, carried, _⟩ := catches
  rw [takes_iff]
  by_cases selected : inScope (state.devices sync.actor).scope key.1 = true
  · rw [if_pos selected]
    have agree := agree_trans unmarshal (attempt_shows_held attempted selected) (synced.held key selected)
    have based : live ((baseOf (state.devices sync.actor)).get key.1 key.2) =
        (baseOf (state.devices sync.actor)).get key.1 key.2 := by
      cases found : (baseOf (state.devices sync.actor)).get key.1 key.2 with
      | none => rfl
      | some entity => exact live_eq_some.mpr ⟨rfl, synced.tidy.live key entity selected found⟩
    have waits := later key
    generalize shows formats (state.devices sync.actor) sync.snapshotAt key = side at agree waits ⊢
    cases visible : live side with
    | some entity =>
      -- an entity the device holds is its base's
      have whole := (live_eq_some.mp visible).1
      unfold Agree at agree
      rw [based, visible] at agree
      exact .inl (whole ▸ same_symm unmarshal agree)
    | none =>
      by_cases gone : live (state.remote.holds key) = none
      · exact .inr (.inl (by simp [Agree, visible, gone, same_refl]))
      · -- the deletion it remembers is no later than the published copy
        have unbased : (baseOf (state.devices sync.actor)).get key.1 key.2 = none := by
          rw [← based]
          exact agree.live_none_iff.mp visible
        obtain ⟨entity, found⟩ := Option.ne_none_iff_exists'.mp (fun missing : state.remote.holds key = none =>
          gone (by rw [missing, live_none]))
        have listed : key ∈ (readPackage state.remote.package).entities.keys :=
          mem_keys_of_lookup ((readPackage_get state.remote key).trans found)
        refine .inr (.inr ⟨?_, ?_⟩)
        · rw [unbased, found]
          simp [Same, differs]
        · rcases Nat.lt_or_eq_of_le (waits listed selected visible gone) with before | tied
          · exact .inr (.inl before)
          · exact .inr (.inr ⟨tied, visible⟩)
  · have unselected := Bool.eq_false_iff.mpr selected
    rw [if_neg selected]
    by_cases based : live ((baseOf (state.devices sync.actor)).get key.1 key.2) = none
    · exact .inr based
    · refine .inl (carried key ?_ unselected based)
      refine mem_keys_of_ne_none (fun missing => based ?_)
      rw [show (baseOf (state.devices sync.actor)).get key.1 key.2 = none from missing, live_none]

/-! ### Two devices at rest -/

/-- A device whose base, rows and priority list are the remote's. -/
structure Rests (formats : Formats) (unmarshal : List UInt8 → Option J) (state : State D) (device : D) : Prop where
  synced : Synced formats unmarshal (state.devices device)
  base : ∀ key, Agree unmarshal ((baseOf (state.devices device)).get key.1 key.2) (state.remote.holds key)
  order : serviceOrder (state.devices device).store = (readPackage state.remote.package).order

omit [DecidableEq D] in
theorem takes_of_rests {sync : Sync D} {state : State D} (settling : Settling formats unmarshal sync state)
    (rests : Rests formats unmarshal state sync.actor) (key : Key) :
    Takes formats unmarshal (state.devices sync.actor) (startRun (state.devices sync.actor) sync.snapshotAt)
      state.remote.package key := by
  obtain ⟨applied, merged, attempted, _⟩ := settling.published
  rw [takes_iff]
  split
  · rename_i selected
    have shown := attempt_shows_held attempted selected
    exact .inr (.inl (agree_trans unmarshal (agree_trans unmarshal shown (rests.synced.held key selected)) (rests.base key)))
  · by_cases gone : state.remote.holds key = none
    · exact .inr ((rests.base key).live_none_iff.mpr (by rw [gone, live_none]))
    · exact .inl gone

/-- The contents and the priority lists of the remote and of two devices are the
    same. -/
structure Converged (formats : Formats) (unmarshal : List UInt8 → Option J) (first second : D) (state : State D) : Prop where
  contents : ∀ device, device = first ∨ device = second → ∀ key, inScope (state.devices device).scope key.1 = true →
    Agree unmarshal (held formats (state.devices device).store key) (state.remote.holds key)
  order : ∀ device, device = first ∨ device = second →
    serviceOrder (state.devices device).store = (readPackage state.remote.package).order

/-- Nothing that two devices or the remote hold has changed. -/
structure Unmoved (formats : Formats) (unmarshal : List UInt8 → Option J) (first second : D) (state next : State D) :
    Prop where
  remote : ∀ key, Agree unmarshal (next.remote.holds key) (state.remote.holds key)
  remoteOrder : (readPackage next.remote.package).order = (readPackage state.remote.package).order
  scope : ∀ device, device = first ∨ device = second → (next.devices device).scope = (state.devices device).scope
  held : ∀ device, device = first ∨ device = second → ∀ key, inScope (state.devices device).scope key.1 = true →
    Agree unmarshal (held formats (next.devices device).store key) (held formats (state.devices device).store key)
  order : ∀ device, device = first ∨ device = second →
    serviceOrder (next.devices device).store = serviceOrder (state.devices device).store

omit [DecidableEq D] in
theorem Unmoved.refl (first second : D) (state : State D) : Unmoved formats unmarshal first second state state :=
  ⟨fun _ => agree_refl unmarshal _, rfl, fun _ _ => rfl, fun _ _ _ _ => agree_refl unmarshal _, fun _ _ => rfl⟩

omit [DecidableEq D] in
theorem Unmoved.trans {first second : D} {state middle next : State D}
    (before : Unmoved formats unmarshal first second state middle)
    (after : Unmoved formats unmarshal first second middle next) : Unmoved formats unmarshal first second state next where
  remote key := agree_trans unmarshal (after.remote key) (before.remote key)
  remoteOrder := after.remoteOrder.trans before.remoteOrder
  scope device party := (after.scope device party).trans (before.scope device party)
  held device party key selected := by
    have still : inScope (middle.devices device).scope key.1 = true := by
      rw [before.scope device party]
      exact selected
    exact agree_trans unmarshal (after.held device party key still) (before.held device party key selected)
  order device party := (after.order device party).trans (before.order device party)

/-- Two devices at rest with a sound package whose list has no id to spare. -/
structure AtRest (formats : Formats) (unmarshal : List UInt8 → Option J) (first second : D) (state : State D) : Prop where
  package : ∃ document, state.remote.package = some document ∧ Sound document ∧ priority document = document.order
  rests : ∀ device, device = first ∨ device = second → Rests formats unmarshal state device

omit [DecidableEq D] in
theorem AtRest.converged {first second : D} {state : State D} (rest : AtRest formats unmarshal first second state) :
    Converged formats unmarshal first second state where
  contents device party key selected :=
    agree_trans unmarshal ((rest.rests device party).synced.held key selected) ((rest.rests device party).base key)
  order device party := (rest.rests device party).order

/-- A sound package whose content is published again still has every service its
    list names. -/
private theorem priority_stays {document merged : Document} (sound : Sound document) (order : merged.order = document.order)
    (exact : priority document = document.order)
    (contents : ∀ key : Key, Agree unmarshal (merged.get key.1 key.2) (document.get key.1 key.2)) :
    priority merged = merged.order := by
  rw [priority, filter_eq_self]
  intro id listed
  have present : (document.get .service id).isSome = true := filter_eq_self.mp exact id (order ▸ listed)
  have shown := sound.provided id (Option.isSome_iff_ne_none.mp present)
  rw [Option.isSome_iff_ne_none]
  intro absent
  exact shown ((contents (.service, id)).live_none_iff.mp (by rw [absent, live_none]))

theorem AtRest.next {first second : D} {state : State D} {sync : Sync D} (rest : AtRest formats unmarshal first second state)
    (among : sync.actor = first ∨ sync.actor = second) (settling : Settling formats unmarshal sync state) :
    AtRest formats unmarshal first second (afterSync formats unmarshal state sync) ∧
      Unmoved formats unmarshal first second state (afterSync formats unmarshal state sync) := by
  obtain ⟨document, package, sound, exact⟩ := rest.package
  have own := rest.rests sync.actor among
  have publishes := sync_publishes settling
  have keeps := sync_keeps_remote settling package sound (fun key _ => takes_of_rests settling own key)
  generalize afterSync formats unmarshal state sync = next at publishes keeps ⊢
  have read : readPackage state.remote.package = document := by rw [package]; rfl
  have readNext : readPackage next.remote.package = baseOf (next.devices sync.actor) := by rw [publishes.remote]; rfl
  have order : (baseOf (next.devices sync.actor)).order = document.order := by
    rw [publishes.order, own.order, read, mergeOrder, if_pos rfl]
  have content : ∀ key : Key, next.remote.holds key = (baseOf (next.devices sync.actor)).get key.1 key.2 :=
    holds_of_sound publishes.remote
  have listed : priority (baseOf (next.devices sync.actor)) = (baseOf (next.devices sync.actor)).order := by
    have again : ∀ key : Key, Agree unmarshal ((baseOf (next.devices sync.actor)).get key.1 key.2)
        (document.get key.1 key.2) := by
      intro key
      rw [← content, ← holds_of_sound package]
      exact keeps key
    exact priority_stays sound order exact again
  have rests : ∀ device, device = first ∨ device = second → Rests formats unmarshal next device := by
    intro device party
    by_cases acts : device = sync.actor
    · subst acts
      refine ⟨publishes.synced, fun key => ?_, ?_⟩
      · rw [content]
        exact agree_refl unmarshal _
      · rw [publishes.synced.order, listed, readNext]
    · have same := publishes.others device acts
      refine ⟨same ▸ (rest.rests device party).synced, fun key => ?_, ?_⟩
      · rw [same]
        exact agree_trans unmarshal ((rest.rests device party).base key) (agree_symm unmarshal (keeps key))
      · rw [same, (rest.rests device party).order, readNext, order, read]
  refine ⟨⟨⟨_, publishes.remote, publishes.sound, listed⟩, rests⟩, ⟨keeps, by rw [readNext, order, read], ?_, ?_, ?_⟩⟩
  · intro device party
    by_cases acts : device = sync.actor
    · rw [acts, publishes.scope]
    · rw [publishes.others device acts]
  · intro device party key selected
    have still : inScope (next.devices device).scope key.1 = true := by
      by_cases acts : device = sync.actor
      · rw [acts, publishes.scope, ← acts]
        exact selected
      · rw [publishes.others device acts]
        exact selected
    have before := agree_trans unmarshal ((rest.rests device party).synced.held key selected) ((rest.rests device party).base key)
    have after := agree_trans unmarshal ((rests device party).synced.held key still) ((rests device party).base key)
    exact agree_trans unmarshal after (agree_trans unmarshal (keeps key) (agree_symm unmarshal before))
  · intro device party
    rw [(rests device party).order, (rest.rests device party).order, readNext, order, read]

/-! ### Three syncs, and any further ones -/

section
variable (formats unmarshal)

def AllSettling : State D → List (Sync D) → Prop
  | _, [] => True
  | state, sync :: rest =>
    Settling formats unmarshal sync state ∧ AllSettling (afterSync formats unmarshal state sync) rest

instance AllSettling.decide : (state : State D) → (order : List (Sync D)) → Decidable (AllSettling formats unmarshal state order)
  | _, [] => isTrue trivial
  | state, sync :: rest =>
    have := AllSettling.decide (afterSync formats unmarshal state sync) rest
    inferInstanceAs (Decidable (_ ∧ _))

end

theorem AtRest.further {first second : D} {state : State D} {earlier later : List (Sync D)}
    (rest : AtRest formats unmarshal first second state)
    (among : ∀ sync ∈ earlier ++ later, sync.actor = first ∨ sync.actor = second)
    (settling : AllSettling formats unmarshal state (earlier ++ later)) :
    Unmoved formats unmarshal first second state (afterSyncs formats unmarshal state earlier) := by
  induction earlier generalizing state with
  | nil => exact Unmoved.refl first second state
  | cons sync others ih =>
    obtain ⟨now, afterwards⟩ := settling
    obtain ⟨still, unmoved⟩ := rest.next (among sync (mem_cons_self ..)) now
    exact unmoved.trans (ih still (fun sync listed => among sync (mem_cons_of_mem _ listed)) afterwards)

theorem atRest_three {state : State D} {first second : D} (apart : first ≠ second) {one two three : Sync D}
    (begins : one.actor = first) (answers : two.actor = second) (returns : three.actor = first)
    (settlingOne : Settling formats unmarshal one state)
    (settlingTwo : Settling formats unmarshal two (afterSync formats unmarshal state one))
    (settlingThree : Settling formats unmarshal three (afterSyncs formats unmarshal state [one, two]))
    (catches : Catches formats three (afterSyncs formats unmarshal state [one, two])) :
    AtRest formats unmarshal first second (afterSyncs formats unmarshal state [one, two, three]) := by
  subst begins answers
  have publishesOne := sync_publishes settlingOne
  have publishesTwo := sync_publishes settlingTwo
  have publishesThree := sync_publishes settlingThree
  show AtRest formats unmarshal one.actor two.actor
    (afterSync formats unmarshal (afterSyncs formats unmarshal state [one, two]) three)
  have synced : Synced formats unmarshal ((afterSyncs formats unmarshal state [one, two]).devices three.actor) := by
    rw [returns, show (afterSyncs formats unmarshal state [one, two]).devices one.actor =
      (afterSync formats unmarshal state one).devices one.actor from publishesTwo.others one.actor apart]
    exact publishesOne.synced
  have keeps := sync_keeps_remote settlingThree publishesTwo.remote publishesTwo.sound
    (fun key _ => takes_of_catches synced settlingThree catches key)
  have names := catches.2.2
  rw [← publishesThree.order] at names
  have unfolded : afterSync formats unmarshal (afterSync formats unmarshal state one) two =
      afterSyncs formats unmarshal state [one, two] := rfl
  rw [unfolded] at publishesTwo
  generalize afterSyncs formats unmarshal state [one, two] = middle at publishesTwo publishesThree synced keeps names ⊢
  generalize afterSync formats unmarshal middle three = last at publishesThree keeps names ⊢
  have contentThree := holds_of_sound publishesThree.remote
  have contentTwo := holds_of_sound publishesTwo.remote
  have readThree : readPackage last.remote.package = baseOf (last.devices three.actor) := by rw [publishesThree.remote]; rfl
  have readTwo : readPackage middle.remote.package = baseOf (middle.devices two.actor) := by rw [publishesTwo.remote]; rfl
  have services : ∀ id, (baseOf (last.devices three.actor)).get .service id ≠ none ↔
      (baseOf (middle.devices two.actor)).get .service id ≠ none := by
    intro id
    have agree := (keeps (.service, id)).live_none_iff
    rw [contentThree, contentTwo] at agree
    refine ⟨fun found missing => publishesThree.sound.provided id found (agree.mpr ?_),
      fun found missing => publishesTwo.sound.provided id found (agree.mp ?_)⟩
    · simp [missing]
    · simp [missing]
  have exact : priority (baseOf (last.devices three.actor)) = (baseOf (last.devices three.actor)).order := by
    rw [priority, filter_eq_self]
    intro id listed
    rw [Option.isSome_iff_ne_none, services, ← contentTwo (.service, id)]
    exact names id listed
  -- the second device placed the services as the third sync does
  have placed : priority (baseOf (middle.devices two.actor)) = (baseOf (last.devices three.actor)).order := by
    have made := publishesThree.order
    rw [synced.order, readTwo] at made
    have settles := mergeOrder_settles rfl made publishesTwo.sound.distinct
      (fun id shown => publishesTwo.sound.named id ((services id).mp (Option.isSome_iff_ne_none.mp shown)))
      (fun id shown => publishesThree.sound.named id (Option.isSome_iff_ne_none.mp shown))
    rw [← exact, priority, priority, settles]
    refine filter_congr (fun id _ => ?_)
    rw [Bool.eq_iff_iff, Option.isSome_iff_ne_none, Option.isSome_iff_ne_none]
    exact (services id).symm
  refine ⟨⟨_, publishesThree.remote, publishesThree.sound, exact⟩, fun device party => ?_⟩
  rcases party with rfl | rfl
  · rw [← returns]
    refine ⟨publishesThree.synced, fun key => ?_, ?_⟩
    · rw [contentThree]
      exact agree_refl unmarshal _
    · rw [publishesThree.synced.order, exact, readThree]
  · have still : last.devices two.actor = middle.devices two.actor :=
      publishesThree.others two.actor (fun same => apart (returns.symm.trans same.symm))
    refine ⟨still ▸ publishesTwo.synced, fun key => ?_, ?_⟩
    · rw [still, ← contentTwo]
      exact agree_symm unmarshal (keeps key)
    · rw [still, publishesTwo.synced.order, placed, readThree]

end

section
open Deletion

/-- The edit is the later change. -/
def lateState : State Party where
  devices
    | .deleter => dividedState.devices .deleter
    | .editor =>
      ⟨"editor", ⟨true, false, false, false, false⟩,
        serviceStore (some { document := [2], updatedAt := 80 }) [(serviceKey, 80)], none⟩
  remote := dividedState.remote

end

end AstrLink.Convergence
