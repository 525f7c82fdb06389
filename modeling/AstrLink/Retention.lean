import AstrLink.Retaining
import AstrLink.System

/-!
What takes an entity out of the shared package. A deletion is inferred from a missing row. `Proper` steps
leave no such gap, and over any run of them an entity leaves the package only after a user deleted it or its
provider (`package_keeps`).
-/
namespace AstrLink.Retention
open Tables Package Merge Scope LocalStore Device Storing List
open Applying Retaining AstrLink.System

/-- A package as a merge makes it. -/
structure Clean (document : Document) : Prop where
  live : ∀ kind id entity, document.get kind id = some entity → entity.deleted = false
  listed : ∀ kind id, document.get kind id ≠ none → kind ∈ kinds
  owned : ∀ kind id, kind ∈ dependentKinds → document.get kind id ≠ none → document.get .service id ≠ none

theorem clean_newDocument (deviceId : String) (revision : Int) (generated : Nat) :
    Clean (newDocument deviceId revision generated) := by
  refine ⟨fun kind id entity found => ?_, fun kind id found => ?_, fun kind id _ found => ?_⟩
  · rw [newDocument_get] at found
    cases found
  · exact absurd (newDocument_get ..) found
  · exact absurd (newDocument_get ..) found

theorem Clean.live_iff {document : Document} (clean : Clean document) (kind : Kind) (id : String) :
    Package.live (document.get kind id) = document.get kind id := by
  cases found : document.get kind id with
  | none => rfl
  | some entity => exact live_eq_some.mpr ⟨rfl, clean.live kind id entity found⟩

variable {deleted : List Key} {revision : Int} {key : Key}

section
variable {J : Type} [DecidableEq J] {unmarshal : List UInt8 → Option J}

section
variable {kind : Kind} {id : String} {baseEntity localEntity remoteEntity : Option Entity} {options : MergeOptions}

theorem mergeEntity_choice (unmarshal : List UInt8 → Option J) (kind : Kind) (id : String) (baseEntity localEntity remoteEntity : Option Entity)
    (options : MergeOptions) :
    (mergeEntity unmarshal kind id baseEntity localEntity remoteEntity options).1 = localEntity ∨
      (mergeEntity unmarshal kind id baseEntity localEntity remoteEntity options).1 = remoteEntity := by
  by_cases remoteSame : Same unmarshal baseEntity remoteEntity
  · exact .inl (by rw [mergeEntity_local_kept unmarshal remoteSame])
  · by_cases localSame : Same unmarshal baseEntity localEntity
    · exact .inr (by rw [mergeEntity_remote_kept unmarshal localSame remoteSame])
    · by_cases met : options.firstContact = true ∧ baseEntity = none ∧ (kind, id) ∉ options.locallyChanged
      · exact .inr (by rw [mergeEntity_adopted unmarshal localSame remoteSame met.1 met.2.1 met.2.2])
      · have known : options.firstContact = false ∨ baseEntity ≠ none ∨ (kind, id) ∈ options.locallyChanged := by
          by_contra unknown
          simp only [not_or, Bool.not_eq_false, not_not] at unknown
          exact met unknown
        obtain ⟨notice, chosen, _⟩ := mergeEntity_both_changed unmarshal kind id options localSame remoteSame known
        rw [chosen]
        unfold laterChange
        split
        · exact .inl rfl
        · split
          · exact .inr rfl
          · split
            · exact .inl rfl
            · split
              · exact .inr rfl
              · exact .inl rfl

theorem mergeEntity_drops (shows : live localEntity ≠ none)
    (dropped : live (mergeEntity unmarshal kind id baseEntity localEntity remoteEntity options).1 = none) :
    live remoteEntity = none ∧ (remoteEntity = none → baseEntity ≠ none) := by
  rcases mergeEntity_choice unmarshal kind id baseEntity localEntity remoteEntity options with own | other
  · rw [own] at dropped
    exact absurd dropped shows
  · refine ⟨other ▸ dropped, fun absent unbased => ?_⟩
    subst absent unbased
    rw [mergeEntity_local_kept unmarshal (same_refl unmarshal none)] at dropped
    exact absurd dropped shows

end

/-! ### One attempt -/

/-- A user deleted the entity, or the provider it depends on. -/
def Gone (deleted : List Key) (key : Key) : Prop :=
  key ∈ deleted ∨ (key.1 ∈ dependentKinds ∧ (Kind.service, key.2) ∈ deleted)

instance (deleted : List Key) (key : Key) : Decidable (Gone deleted key) :=
  decidable_of_iff
    (deleted.contains key = true ∨ (key.1 ∈ dependentKinds ∧ deleted.contains (Kind.service, key.2) = true))
    (by simp [Gone])

theorem Gone.dependant (gone : Gone deleted (.service, key.2)) (dependent : key.1 ∈ dependentKinds) :
    Gone deleted key := by
  rcases gone with listed | ⟨service, _⟩
  · exact .inr ⟨dependent, listed⟩
  · simp [dependentKinds] at service

theorem Gone.more {deleted : List Key} {key : Key} (gone : Gone deleted key) (more : List Key) : Gone (more ++ deleted) key :=
  gone.imp (mem_append_right more) (fun owner => ⟨owner.1, mem_append_right more owner.2⟩)

/-- What a merge starts from: two packages, and a store without gaps. -/
structure Whole (deleted : List Key) (scope : SyncScope) (base remote : Document) (store : Store) : Prop where
  cleanBase : Clean base
  cleanRemote : Clean remote
  shared : ∀ key : Key, base.get key.1 key.2 ≠ none → remote.get key.1 key.2 ≠ none ∨ Gone deleted key
  rows : ∀ key : Key, inScope scope key.1 = true → base.get key.1 key.2 ≠ none →
    store.rows.lookup key ≠ none ∨ Gone deleted key
  buried : ∀ key : Key, key.1 ∈ kinds → store.rows.lookup key = none → Remembered store key → Gone deleted key
  owners : ∀ key : Key, key.1 ∈ dependentKinds → store.rows.lookup key ≠ none →
    store.rows.lookup (.service, key.2) ≠ none ∨ Gone deleted (.service, key.2)

section
variable {formats : Formats} {deleted : List Key} {scope : SyncScope} {base remote localDoc : Document} {hasBase remoteExists : Bool}
  {changed : List Key} {now snapshotAt : Nat} {store reconciled : Store} {deviceId : String}

theorem publish_clean (cleanBase : Clean base) (cleanRemote : Clean remote)
    (built : localDocument formats deviceId scope base.revision snapshotAt store = some (localDoc, reconciled)) :
    Clean (publish unmarshal now scope base hasBase localDoc remote remoteExists changed).1 := by
  have absent : ∀ kind, inScope scope kind = false → ∀ id, localDoc.get kind id = none := by
    intro kind unselected id
    rw [localDocument_get formats built]
    exact shown_unselected formats unselected _ _ _
  refine ⟨fun kind id entity found => ?_, fun kind id found => ?_, publish_tidy unmarshal |>.owned⟩
  · by_cases selected : inScope scope kind = true
    · exact (publish_tidy unmarshal).live (kind, id) entity selected found
    · have unselected := Bool.eq_false_iff.mpr selected
      by_cases known : kind ∈ kinds
      · rw [publish_get] at found
        split at found
        · cases found
        · rw [compose_get_carried unmarshal known unselected id (absent kind unselected id)] at found
          rcases Option.or_eq_some_iff.mp found with carried | ⟨_, carried⟩
          · exact cleanRemote.live kind id entity carried
          · exact cleanBase.live kind id entity carried
      · rw [publish_get_unknown unmarshal known id (absent kind unselected id)] at found
        cases found
  · by_contra unknown
    have unselected : inScope scope kind = false :=
      Bool.eq_false_iff.mpr (fun selected => unknown (kinds_of_inScope selected))
    exact found (publish_get_unknown unmarshal unknown id (absent kind unselected id))

theorem shown_row (selected : inScope scope key.1 = true)
    (readable : (rowEntity formats store revision key).isSome = true)
    (opens : rowEntity formats store revision key ≠ some none) :
    live (shown formats scope revision snapshotAt store key) ≠ none := by
  cases read : rowEntity formats store revision key with
  | none =>
    rw [read] at readable
    cases readable
  | some content =>
    cases content with
    | none => exact absurd read opens
    | some entity =>
      have kept : entity.deleted = false := by
        unfold rowEntity at read
        split at read
        · cases read
        · split at read
          · cases read
          · cases read
          · split at read
            · split at read
              · cases read
              · cases read
                rfl
            · split at read
              · split at read
                · cases read
                · cases read
                  rfl
              · cases read
                rfl
      rw [shown, if_pos selected, read, Option.join_some, Option.some_or, Option.some_or,
        live_eq_some.mpr ⟨rfl, kept⟩]
      exact Option.some_ne_none entity

theorem shown_missing (missing : store.rows.lookup key = none) (unknown : ¬ Remembered store key) :
    shown formats scope revision snapshotAt store key = none := by
  have unburied : store.tombstones.lookup key = none := by
    by_contra buried
    exact unknown (.inr buried)
  have unlogged : lastChange store key = none := by
    have empty : store.changeLog.filter (fun entry => entry.1 = key) = [] := by
      rw [filter_eq_nil_iff]
      intro entry listed same
      exact unknown (.inl ⟨entry, listed, of_decide_eq_true same⟩)
    simp [lastChange, empty]
  simp [shown, rowEntity, missing, tombstoneTime, unburied, changeTime, unlogged]

section
variable (whole : Whole deleted scope base remote store)
  (built : localDocument formats deviceId scope base.revision snapshotAt store = some (localDoc, reconciled))
  (opens : ∀ key : Key, inScope scope key.1 = true → store.rows.lookup key ≠ none →
    rowEntity formats store base.revision key ≠ some none)
include whole built opens

omit whole in
private theorem shown_present {key : Key} (selected : inScope scope key.1 = true) (present : store.rows.lookup key ≠ none) :
    live (localDoc.get key.1 key.2) ≠ none := by
  rw [localDocument_get formats built]
  exact shown_row selected (localDocument_readable formats built selected) (opens key selected present)

theorem compose_keeps (key : Key) (held : remote.get key.1 key.2 ≠ none) :
    (compose unmarshal now scope base hasBase localDoc remote remoteExists changed).1.get key.1 key.2 ≠ none ∨
      Gone deleted key := by
  have shared : live (remote.get key.1 key.2) ≠ none := by
    rw [whole.cleanRemote.live_iff]
    exact held
  by_cases selected : inScope scope key.1 = true
  · rw [compose_get_selected unmarshal selected]
    by_cases present : store.rows.lookup key = none
    · by_cases remembered : Remembered store key
      · exact .inr (whole.buried key (kinds_of_inScope selected) present remembered)
      · -- no row and no memory: the base does not hold it either, or a user deleted it
        by_cases based : base.get key.1 key.2 = none
        · have absent : localDoc.get key.1 key.2 = none := by
            rw [localDocument_get formats built]
            exact shown_missing present remembered
          refine .inl ?_
          obtain ⟨entity, found⟩ := Option.ne_none_iff_exists'.mp held
          have changed : ¬ Same unmarshal none (remote.get key.1 key.2) := by
            rw [found]
            simp [Same, differs]
          rw [based, absent, mergeEntity_remote_kept unmarshal (same_refl unmarshal none) changed]
          exact shared
        · rcases whole.rows key selected based with found | gone
          · exact absurd present found
          · exact .inr gone
    · refine .inl ?_
      have shows := shown_present built opens selected present
      rcases mergeEntity_choice unmarshal key.1 key.2 (base.get key.1 key.2) (localDoc.get key.1 key.2)
          (remote.get key.1 key.2) ⟨!hasBase, changed⟩ with own | other
      · rw [own]
        exact shows
      · rw [other]
        exact shared
  · have unselected := Bool.eq_false_iff.mpr selected
    have absent : localDoc.get key.1 key.2 = none := by
      rw [localDocument_get formats built]
      exact shown_unselected formats unselected _ _ _
    refine .inl ?_
    obtain ⟨entity, found⟩ := Option.ne_none_iff_exists'.mp held
    rw [compose_get_carried unmarshal (whole.cleanRemote.listed key.1 key.2 held) unselected key.2 absent, found, Option.some_or]
    exact Option.some_ne_none entity

theorem compose_drops (key : Key) (selected : inScope scope key.1 = true) (present : store.rows.lookup key ≠ none)
    (dropped : (compose unmarshal now scope base hasBase localDoc remote remoteExists changed).1.get key.1 key.2 = none) :
    Gone deleted key := by
  rw [compose_get_selected unmarshal selected] at dropped
  obtain ⟨unheld, based⟩ := mergeEntity_drops (shown_present built opens selected present) dropped
  rw [whole.cleanRemote.live_iff] at unheld
  rcases whole.shared key (based unheld) with held | gone
  · exact absurd unheld held
  · exact gone

theorem publish_keeps (key : Key) (held : remote.get key.1 key.2 ≠ none) :
    (publish unmarshal now scope base hasBase localDoc remote remoteExists changed).1.get key.1 key.2 ≠ none ∨
      Gone deleted key := by
  rw [publish_get]
  split
  · rename_i orphan
    -- the provider was in the package that was read
    have provider := whole.cleanRemote.owned key.1 key.2 orphan.1 held
    have owner : (compose unmarshal now scope base hasBase localDoc remote remoteExists changed).1.get .service key.2 ≠ none ∨
        Gone deleted (.service, key.2) := compose_keeps whole built opens (.service, key.2) provider
    exact .inr ((owner.resolve_left (fun kept => kept orphan.2)).dependant orphan.1)
  · exact compose_keeps whole built opens key held

theorem publish_drops (key : Key) (selected : inScope scope key.1 = true) (present : store.rows.lookup key ≠ none)
    (dropped : (publish unmarshal now scope base hasBase localDoc remote remoteExists changed).1.get key.1 key.2 = none) :
    Gone deleted key := by
  rw [publish_get] at dropped
  split at dropped
  · rename_i orphan
    have owner : inScope scope .service = true := by
      have dependent := orphan.1
      simp only [dependentKinds, mem_cons, not_mem_nil, or_false] at dependent
      rcases dependent with named | named | named <;> rw [named] at selected <;>
        exact (Bool.and_eq_true_iff.mp selected).1
    rcases whole.owners key orphan.1 present with found | gone
    · exact (compose_drops whole built opens (.service, key.2) owner found orphan.2).dependant orphan.1
    · exact gone.dependant orphan.1
  · exact compose_drops whole built opens key selected present dropped

end

end

/-! ### What an attempt leaves -/

section
variable (formats : Formats) (unmarshal : List UInt8 → Option J)

/-- The store takes in what the merge chose, and no token takes another's place. -/
def TakesIn (device : SyncDevice) (run : Run) (read : Option Document) (turn : Turn) : Option (Document × Store) → Prop
  | none => True
  | some (localDoc, reconciled) =>
    let merged := (publish unmarshal turn.now device.scope run.base run.hasBase localDoc (readPackage read) read.isSome
      (changedEntities reconciled)).1
    (device.scope.tokens = true → ValuesApart formats merged reconciled) ∧
      ∀ key ∈ merged.entities.keys, ∀ entity ∈ merged.get key.1 key.2, inScope device.scope key.1 = true →
        Accepts formats merged reconciled key entity

instance (device : SyncDevice) (run : Run) (read : Option Document) (turn : Turn) : (built : Option (Document × Store)) →
    Decidable (TakesIn formats unmarshal device run read turn built)
  | none => isTrue trivial
  | some (_, _) => inferInstanceAs (Decidable (_ ∧ _))

/-- The rows of the selected kinds open, and the store takes in what the merge
    chose. -/
def Attempts (device : SyncDevice) (run : Run) (read : Option Document) (turn : Turn) : Prop :=
  (∀ key ∈ device.store.rows.keys, inScope device.scope key.1 = true →
    rowEntity formats device.store run.base.revision key ≠ some none) ∧
  TakesIn formats unmarshal device run read turn
    (localDocument formats device.deviceId device.scope run.base.revision run.snapshotAt device.store)

instance (device : SyncDevice) (run : Run) (read : Option Document) (turn : Turn) :
    Decidable (Attempts formats unmarshal device run read turn) := by
  unfold Attempts
  infer_instance

end

/-- A row that is missing was missing before or deleted by a user, with its provider. -/
structure Retains (deleted : List Key) (store next : Store) : Prop where
  rows : ∀ key : Key, key.1 ∈ kinds → next.rows.lookup key = none →
    (store.rows.lookup key = none ∧ (Remembered next key → Remembered store key)) ∨ Gone deleted key
  owners : ∀ key : Key, key.1 ∈ dependentKinds → next.rows.lookup key ≠ none →
    store.rows.lookup key ≠ none ∨ next.rows.lookup (.service, key.2) ≠ none ∨ Gone deleted (.service, key.2)
  baseline : next.baseline = store.baseline

section
variable {formats : Formats} {deleted : List Key} {scope : SyncScope} {localDoc : Document} {snapshotAt : Nat}
  {store reconciled : Store} {deviceId : String}

theorem reconciled_remembered
    (built : localDocument formats deviceId scope revision snapshotAt store = some (localDoc, reconciled))
    (remembered : Remembered reconciled key) : Remembered store key := by
  obtain ⟨same, tombstones⟩ := localDocument_reconciled formats built
  rcases remembered with ⟨entry, listed, named⟩ | buried
  · rw [same] at listed
    exact .inl ⟨entry, listed, named⟩
  · rw [tombstones key] at buried
    cases unseen : (unseenDeletions formats scope revision snapshotAt store).lookup key with
    | none =>
      rw [unseen] at buried
      exact .inr buried
    | some deletedAt =>
      left
      rw [lookup_unseenDeletions] at unseen
      split at unseen
      · cases unseen
      · unfold changeTime at unseen
        split at unseen
        · by_contra unlogged
          have empty : store.changeLog.filter (fun entry => entry.1 = key) = [] := by
            rw [filter_eq_nil_iff]
            exact fun entry listed same => unlogged ⟨entry, listed, of_decide_eq_true same⟩
          simp [lastChange, empty] at unseen
        · cases unseen

theorem attempt_keeps {device : SyncDevice} {run : Run} {read : Option Document} {turn : Turn} {applied : Store}
    {result : Option Document}
    (whole : Whole deleted device.scope run.base (readPackage read) device.store)
    (proper : Attempts formats unmarshal device run read turn)
    (attempted : attemptOf formats unmarshal device run read turn = (applied, result)) :
    Retains deleted device.store applied ∧
    ∀ merged, result = some merged → Clean merged ∧
      (∀ key : Key, (readPackage read).get key.1 key.2 ≠ none → merged.get key.1 key.2 ≠ none ∨ Gone deleted key) ∧
      (∀ key : Key, inScope device.scope key.1 = true → merged.get key.1 key.2 ≠ none → applied.rows.lookup key ≠ none) := by
  obtain ⟨opened, takesIn⟩ := proper
  have opens : ∀ key : Key, inScope device.scope key.1 = true → device.store.rows.lookup key ≠ none →
      rowEntity formats device.store run.base.revision key ≠ some none :=
    fun key selected found => opened key (mem_keys_of_ne_none found) selected
  unfold attemptOf attempt at attempted
  cases built : localDocument formats device.deviceId device.scope run.base.revision run.snapshotAt device.store with
  | none =>
    simp only [built, Prod.mk.injEq] at attempted
    obtain ⟨rfl, rfl⟩ := attempted
    exact ⟨⟨fun key _ missing => .inl ⟨missing, id⟩, fun key _ found => .inl found, rfl⟩, fun merged made => by cases made⟩
  | some parts =>
    obtain ⟨localDoc, reconciled⟩ := parts
    simp only [built, TakesIn] at takesIn attempted
    have rows : reconciled.rows = device.store.rows := by rw [(localDocument_reconciled formats built).1]
    have based : reconciled.baseline = device.store.baseline := by rw [(localDocument_reconciled formats built).1]
    have clean : Clean (publish unmarshal turn.now device.scope run.base run.hasBase localDoc (readPackage read) read.isSome
        (changedEntities reconciled)).1 := publish_clean whole.cleanBase whole.cleanRemote built
    have keeps : ∀ key : Key, (readPackage read).get key.1 key.2 ≠ none →
        (publish unmarshal turn.now device.scope run.base run.hasBase localDoc (readPackage read) read.isSome
          (changedEntities reconciled)).1.get key.1 key.2 ≠ none ∨ Gone deleted key :=
      fun key => publish_keeps whole built opens key
    have tidy : Tidy device.scope (publish unmarshal turn.now device.scope run.base run.hasBase localDoc (readPackage read)
        read.isSome (changedEntities reconciled)).1 := publish_tidy unmarshal
    have drops : ∀ key : Key, Withdrawn device.scope (publish unmarshal turn.now device.scope run.base run.hasBase localDoc
        (readPackage read) read.isSome (changedEntities reconciled)).1 reconciled key → Gone deleted key := by
      rintro key ⟨present, selected, absent⟩
      rw [rows] at present
      exact publish_drops whole built opens key selected present absent
    unfold readPackage at takesIn clean keeps tidy drops
    generalize (publish unmarshal turn.now device.scope run.base run.hasBase localDoc (read.getD (newDocument "" 0 0))
      read.isSome (changedEntities reconciled)).1 = merged at takesIn clean keeps tidy drops attempted
    obtain ⟨apart, accepts⟩ := takesIn
    rcases wrote : apply formats turn.clock device.scope turn.visit merged reconciled with ⟨after, done⟩
    obtain ⟨missing, owners, afterBase⟩ := apply_withdraws apart wrote
    have retains : Retains deleted device.store after := by
      refine ⟨fun key known gone => ?_, fun key dependent found => ?_, afterBase.trans based⟩
      · rcases missing key gone with ⟨before, remembered⟩ | withdrawn | ⟨cascading, owner⟩
        · exact .inl ⟨rows ▸ before, fun later => reconciled_remembered built (remembered later)⟩
        · exact .inr (drops key withdrawn)
        · refine .inr ((drops (.service, key.2) owner).dependant ?_)
          simp only [cascades, mem_cons, not_mem_nil, or_false] at cascading
          rcases cascading with named | named | named
          · simp [dependentKinds, named]
          · simp [dependentKinds, named]
          · simp [named, subscription, kinds] at known
      · exact (owners key dependent found).imp (fun before => rows ▸ before) (fun owner => owner.imp_right (drops _))
    rw [wrote] at attempted
    cases done with
    | false =>
      simp only [Prod.mk.injEq] at attempted
      obtain ⟨rfl, rfl⟩ := attempted
      exact ⟨retains, fun merged made => by cases made⟩
    | true =>
      simp only [Prod.mk.injEq] at attempted
      obtain ⟨rfl, rfl⟩ := attempted
      refine ⟨retains, fun other made => ?_⟩
      cases made
      refine ⟨clean, keeps, fun key selected wanted => ?_⟩
      obtain ⟨entity, found⟩ := Option.ne_none_iff_exists'.mp wanted
      exact apply_present tidy apart wrote selected found
        (accepts key (mem_keys_of_ne_none wanted) entity found selected)

end

section
variable (formats : Formats) (unmarshal : List UInt8 → Option J)

def Attempting (device : SyncDevice) (turn : Turn) : Option Run → Prop
  | some ⟨base, hasBase, snapshotAt, tries, .merging read version⟩ =>
    Attempts formats unmarshal device ⟨base, hasBase, snapshotAt, tries, .merging read version⟩ read turn
  | _ => True

/-- A step that leaves no gap between a base and the rows. -/
def Proper (device : SyncDevice) : Action → Prop
  | .configure scope =>
    device.run.isNone = true → ∀ key ∈ (baseOf device).entities.keys, inScope scope key.1 = true →
      inScope device.scope key.1 = false → device.store.rows.lookup key ≠ none
  | .merge turn => Attempting formats unmarshal device turn device.run
  | _ => True

instance (device : SyncDevice) (turn : Turn) : (run : Option Run) → Decidable (Attempting formats unmarshal device turn run)
  | none => isTrue trivial
  | some ⟨_, _, _, _, .reading⟩ => isTrue trivial
  | some ⟨base, hasBase, snapshotAt, tries, .merging read version⟩ =>
    inferInstanceAs (Decidable
      (Attempts formats unmarshal device ⟨base, hasBase, snapshotAt, tries, .merging read version⟩ read turn))
  | some ⟨_, _, _, _, .writing _ _⟩ => isTrue trivial

instance (device : SyncDevice) : (action : Action) → Decidable (Proper formats unmarshal device action)
  | .configure _ => inferInstanceAs (Decidable (_ → _))
  | .merge turn => inferInstanceAs (Decidable (Attempting formats unmarshal device turn device.run))
  | .user _ _ _ | .begin _ | .read | .write | .lose | .abort => isTrue trivial

end

/-- The entity a user's step deletes. The fixed privacy policy stays. -/
def userDeletes (device : SyncDevice) : Action → List Key
  | .user _ key .remove =>
    if (device.store.rows.lookup key).isSome ∧ key ≠ (.policy, defaultPrivacyPolicyId) then [key] else []
  | _ => []

/-- A device whose base, rows and run lack only what is gone. -/
structure Kept (deleted : List Key) (remote : Remote) (device : SyncDevice) : Prop where
  base : Clean (baseOf device)
  shared : ∀ key : Key, (baseOf device).get key.1 key.2 ≠ none → remote.holds key ≠ none ∨ Gone deleted key
  rows : ∀ key : Key, inScope device.scope key.1 = true → (baseOf device).get key.1 key.2 ≠ none →
    device.store.rows.lookup key ≠ none ∨ Gone deleted key
  buried : ∀ key : Key, key.1 ∈ kinds → device.store.rows.lookup key = none → Remembered device.store key →
    Gone deleted key
  owners : ∀ key : Key, key.1 ∈ dependentKinds → device.store.rows.lookup key ≠ none →
    device.store.rows.lookup (.service, key.2) ≠ none ∨ Gone deleted (.service, key.2)
  started : ∀ run, device.run = some run → run.base = baseOf device
  merging : ∀ base hasBase snapshotAt tries read version,
    device.run = some ⟨base, hasBase, snapshotAt, tries, .merging read version⟩ →
    Clean (readPackage read) ∧
      (∀ key : Key, base.get key.1 key.2 ≠ none → (readPackage read).get key.1 key.2 ≠ none ∨ Gone deleted key) ∧
      version ≤ remote.version ∧ (version = remote.version → read = remote.package)
  writing : ∀ base hasBase snapshotAt tries merged version,
    device.run = some ⟨base, hasBase, snapshotAt, tries, .writing merged version⟩ →
    Clean merged ∧
      (∀ key : Key, inScope device.scope key.1 = true → merged.get key.1 key.2 ≠ none →
        device.store.rows.lookup key ≠ none ∨ Gone deleted key) ∧
      version ≤ remote.version ∧
      (version = remote.version → ∀ key : Key, remote.holds key ≠ none → merged.get key.1 key.2 ≠ none ∨ Gone deleted key)

section
variable {formats : Formats} {deleted : List Key} {remote next : Remote} {device : SyncDevice} {action : Action}

theorem Kept.elsewhere (kept : Kept deleted remote device) (more : List Key) (grows : remote.version ≤ next.version)
    (still : next.version = remote.version → next = remote)
    (stays : ∀ key : Key, remote.holds key ≠ none → next.holds key ≠ none ∨ Gone (more ++ deleted) key) :
    Kept (more ++ deleted) next device where
  base := kept.base
  shared key based := by
    rcases kept.shared key based with held | gone
    · exact stays key held
    · exact .inr (gone.more more)
  rows key selected based := (kept.rows key selected based).imp_right (fun gone => gone.more more)
  buried key known missing remembered := (kept.buried key known missing remembered).more more
  owners key dependent found := (kept.owners key dependent found).imp_right (fun gone => gone.more more)
  started := kept.started
  merging base hasBase snapshotAt tries read version running := by
    obtain ⟨clean, shared, before, met⟩ := kept.merging base hasBase snapshotAt tries read version running
    refine ⟨clean, fun key based => (shared key based).imp_right (fun gone => gone.more more), by omega, fun now => ?_⟩
    have same : next = remote := still (by omega)
    rw [same]
    exact met (by rw [now, same])
  writing base hasBase snapshotAt tries merged version running := by
    obtain ⟨clean, rows, before, met⟩ := kept.writing base hasBase snapshotAt tries merged version running
    refine ⟨clean, fun key selected wanted => (rows key selected wanted).imp_right (fun gone => gone.more more), by omega,
      fun now key held => ?_⟩
    have same : next = remote := still (by omega)
    rw [same] at held now
    exact (met now key held).imp_right (fun gone => gone.more more)

private theorem retained {store : Store} (retains : Retains deleted device.store store) (kept : Kept deleted remote device) :
    (∀ key : Key, key.1 ∈ kinds → (device.store.rows.lookup key ≠ none ∨ Gone deleted key) →
      store.rows.lookup key ≠ none ∨ Gone deleted key) ∧
    (∀ key : Key, key.1 ∈ kinds → store.rows.lookup key = none → Remembered store key → Gone deleted key) ∧
    (∀ key : Key, key.1 ∈ dependentKinds → store.rows.lookup key ≠ none →
      store.rows.lookup (.service, key.2) ≠ none ∨ Gone deleted (.service, key.2)) := by
  have present : ∀ key : Key, key.1 ∈ kinds → (device.store.rows.lookup key ≠ none ∨ Gone deleted key) →
      store.rows.lookup key ≠ none ∨ Gone deleted key := by
    intro key known before
    by_cases missing : store.rows.lookup key = none
    · rcases retains.rows key known missing with ⟨gone, _⟩ | gone
      · exact .inr (before.resolve_left (fun found => found gone))
      · exact .inr gone
    · exact .inl missing
  refine ⟨present, fun key known missing remembered => ?_, fun key dependent found => ?_⟩
  · rcases retains.rows key known missing with ⟨before, earlier⟩ | gone
    · exact kept.buried key known before (earlier remembered)
    · exact gone
  · rcases retains.owners key dependent found with before | owner
    · exact present (.service, key.2) (by simp [kinds]) (kept.owners key dependent before)
    · exact owner

theorem userChange_retains (device : SyncDevice) (clock : Clock) (key : Key) (change : Change) (deleted : List Key) :
    Retains (userDeletes device (.user clock key change) ++ deleted) device.store
      (userChange clock key device.store change) := by
  have same : Retains (userDeletes device (.user clock key change) ++ deleted) device.store device.store :=
    ⟨fun _ _ missing => .inl ⟨missing, id⟩, fun _ _ found => .inl found, rfl⟩
  cases change with
  | save row =>
    unfold userChange
    dsimp only
    split
    · exact same
    · rename_i owned
      refine ⟨fun other _ missing => .inl (putRow_missing missing), fun other dependent found => ?_, rfl⟩
      have grown : Grows ⟨false, false, false, false, false⟩ (newDocument "" 0 0) device.store
          (putRow clock key row device.store) :=
        grows_putRow (fun surplus => by cases surplus.1.symm.trans (congrArg (inScope _) surplus.2.1))
          (fun dependent missing => owned ⟨dependent, missing⟩)
      exact (grown.owned other dependent found).imp_right .inl
  | damage =>
    unfold userChange
    dsimp only
    split
    · exact same
    · rename_i row found
      have lookups : ∀ other, (device.store.rows.insert key { row with secret := none }).lookup other = none ↔
          device.store.rows.lookup other = none := by
        intro other
        rw [lookup_insert_if]
        split
        · rename_i named
          rw [named, found]
          simp
        · rfl
      exact ⟨fun other _ missing => .inl ⟨(lookups other).mp missing, id⟩,
        fun other _ present => .inl (fun missing => present ((lookups other).mpr missing)), rfl⟩
  | remove =>
    unfold userChange
    dsimp only
    have touched := touches_syncDeleteEntity clock key device.store
    by_cases deletes : (device.store.rows.lookup key).isSome = true ∧ key ≠ (.policy, defaultPrivacyPolicyId)
    · have listed : userDeletes device (.user clock key .remove) = [key] := if_pos deletes
      rw [listed]
      refine ⟨fun other known missing => ?_, fun other _ found => .inl (fun missing => found ?_), touched.baseline⟩
      · by_cases removes : Removes key other
        · right
          rcases removes with named | ⟨service, cascading, named⟩
          · rw [named]
            exact .inl (mem_cons_self ..)
          · have owner : key = (.service, other.2) := Prod.ext service named.symm
            rw [owner]
            refine .inr ⟨?_, mem_cons_self ..⟩
            simp only [cascades, mem_cons, not_mem_nil, or_false] at cascading
            rcases cascading with kind | kind | kind
            · simp [dependentKinds, kind]
            · simp [dependentKinds, kind]
            · simp [kind, subscription, kinds] at known
        · rw [touched.rows other removes] at missing
          exact .inl ⟨missing, Touches.remembered touched removes⟩
      · rcases (lookup_syncDeleteEntity clock key device.store).1 other with gone | unchanged
        · exact gone
        · exact unchanged.trans missing
    · have absent : device.store.rows.lookup key = none ∨ key = (.policy, defaultPrivacyPolicyId) := by
        by_cases fixed : key = (.policy, defaultPrivacyPolicyId)
        · exact .inr fixed
        · exact .inl (Option.not_isSome_iff_eq_none.mp (fun present => deletes ⟨present, fixed⟩))
      rw [syncDeleteEntity_missing clock absent]
      exact same

theorem Kept.rerun (kept : Kept deleted remote device) (run : Option Run)
    (waits : ∀ started, run = some started → started.base = baseOf device ∧ started.phase = .reading) :
    Kept deleted remote { device with run := run } where
  base := kept.base
  shared := kept.shared
  rows := kept.rows
  buried := kept.buried
  owners := kept.owners
  started started running := (waits started running).1
  merging base hasBase snapshotAt tries read version running := by
    have phase := (waits _ running).2
    cases phase
  writing base hasBase snapshotAt tries merged version running := by
    have phase := (waits _ running).2
    cases phase

theorem stepRemote_keeps (kept : Kept deleted remote device) (clean : Clean (readPackage remote.package)) (action : Action) :
    Clean (readPackage (stepRemote remote device action).package) ∧
    ∀ key : Key, remote.holds key ≠ none → (stepRemote remote device action).holds key ≠ none ∨ Gone deleted key := by
  rcases stepRemote_cases remote device action with same | ⟨merged, pending, stored⟩
  · rw [same]
    exact ⟨clean, fun key held => .inl held⟩
  · rw [stored]
    rcases running : device.run with _ | ⟨base, hasBase, snapshotAt, tries, phase⟩
    · simp [SyncDevice.pending, running] at pending
    · cases phase with
      | reading => simp [SyncDevice.pending, running] at pending
      | merging read version => simp [SyncDevice.pending, running] at pending
      | writing written version =>
        simp only [SyncDevice.pending, running, Option.some.injEq, Prod.mk.injEq] at pending
        obtain ⟨rfl, rfl⟩ := pending
        obtain ⟨cleanMerged, _, _, met⟩ := kept.writing base hasBase snapshotAt tries written remote.version running
        exact ⟨cleanMerged, met rfl⟩

theorem stepRemote_still (remote : Remote) (device : SyncDevice) (writes : action ≠ .write) (loses : action ≠ .lose) :
    stepRemote remote device action = remote := by
  cases action with
  | write => exact absurd rfl writes
  | lose => exact absurd rfl loses
  | _ => rfl

theorem Kept.step (kept : Kept deleted remote device) (clean : Clean (readPackage remote.package))
    (proper : Proper formats unmarshal device action) :
    Kept (userDeletes device action ++ deleted) (stepRemote remote device action)
      (stepDevice formats unmarshal remote device action) := by
  cases action with
  | user clock key change =>
    have more := kept.elsewhere (userDeletes device (.user clock key change)) Nat.le.refl (fun _ => rfl)
      (fun key held => .inl held)
    have retains := userChange_retains device clock key change deleted
    obtain ⟨present, buried, owners⟩ := retained retains more
    have base : baseOf (stepDevice formats unmarshal remote device (.user clock key change)) = baseOf device := by
      simp only [baseOf, stepDevice, retains.baseline]
    rw [stepRemote_still remote device (by simp) (by simp)]
    refine ⟨base ▸ more.base, fun key based => more.shared key (base ▸ based), fun key selected based => ?_, buried, owners,
      fun run running => base ▸ more.started run running, more.merging,
      fun base hasBase snapshotAt tries merged version running => ?_⟩
    · exact present key (kinds_of_inScope selected) (more.rows key selected (base ▸ based))
    · obtain ⟨cleanMerged, rows, before, met⟩ := more.writing base hasBase snapshotAt tries merged version running
      exact ⟨cleanMerged, fun key selected wanted => present key (kinds_of_inScope selected) (rows key selected wanted),
        before, met⟩
  | configure scope =>
    rw [stepRemote_still remote device (by simp) (by simp)]
    show Kept deleted remote (stepDevice formats unmarshal remote device (.configure scope))
    unfold stepDevice
    dsimp only
    split
    · rename_i idle
      have ready : device.run = none := Option.isNone_iff_eq_none.mp idle
      refine ⟨kept.base, kept.shared, fun key selected based => ?_, kept.buried, kept.owners, kept.started, kept.merging, ?_⟩
      · by_cases before : inScope device.scope key.1 = true
        · exact kept.rows key before based
        · exact .inl (proper idle key (mem_keys_of_ne_none based) selected (Bool.eq_false_iff.mpr before))
      · intro base hasBase snapshotAt tries merged version running
        rw [show device.run = some _ from running] at ready
        cases ready
    · exact kept
  | begin snapshotAt =>
    rw [stepRemote_still remote device (by simp) (by simp)]
    show Kept deleted remote (stepDevice formats unmarshal remote device (.begin snapshotAt))
    unfold stepDevice
    dsimp only
    split
    · exact kept.rerun _ (fun started running => by cases running; exact ⟨rfl, rfl⟩)
    · exact kept
  | abort =>
    rw [stepRemote_still remote device (by simp) (by simp)]
    exact kept.rerun none (fun _ running => (by cases running))
  | read =>
    rw [stepRemote_still remote device (by simp) (by simp)]
    show Kept deleted remote (stepDevice formats unmarshal remote device .read)
    unfold stepDevice
    dsimp only
    split
    · rename_i base hasBase snapshotAt tries running
      have own : base = baseOf device := kept.started _ running
      refine ⟨kept.base, kept.shared, kept.rows, kept.buried, kept.owners, ?_, ?_, ?_⟩
      · intro run same
        cases same
        exact own
      · intro base hasBase snapshotAt tries read version same
        cases same
        refine ⟨clean, fun key based => ?_, Nat.le.refl, fun _ => rfl⟩
        rw [readPackage_get]
        exact kept.shared key (own ▸ based)
      · intro base hasBase snapshotAt tries merged version same
        cases same
    · exact kept
  | merge turn =>
    rw [stepRemote_still remote device (by simp) (by simp)]
    show Kept deleted remote (stepDevice formats unmarshal remote device (.merge turn))
    unfold stepDevice
    dsimp only
    split
    · rename_i base hasBase snapshotAt tries read version running
      simp only [Proper, running, Attempting] at proper
      have own : base = baseOf device := kept.started _ running
      obtain ⟨cleanRead, shared, before, met⟩ := kept.merging base hasBase snapshotAt tries read version running
      have whole : Whole deleted device.scope base (readPackage read) device.store :=
        ⟨own ▸ kept.base, cleanRead, shared, own ▸ kept.rows, kept.buried, kept.owners⟩
      unfold mergeStep
      rcases attempted : attemptOf formats unmarshal device ⟨base, hasBase, snapshotAt, tries, .merging read version⟩ read
        turn with ⟨applied, result⟩
      obtain ⟨retains, published⟩ := attempt_keeps whole proper attempted
      obtain ⟨present, buried, owners⟩ := retained retains kept
      have idle : Kept deleted remote { device with store := applied, run := none } := by
        have same : baseOf { device with store := applied, run := none } = baseOf device := by
          simp only [baseOf, retains.baseline]
        refine ⟨same ▸ kept.base, fun key based => kept.shared key (same ▸ based), fun key selected based => ?_, buried, owners,
          fun _ running => (by cases running), fun _ _ _ _ _ _ running => (by cases running),
          fun _ _ _ _ _ _ running => (by cases running)⟩
        exact present key (kinds_of_inScope selected) (kept.rows key selected (same ▸ based))
      cases result with
      | none => exact idle
      | some merged =>
        obtain ⟨cleanMerged, keeps, holds⟩ := published merged rfl
        refine ⟨idle.base, idle.shared, idle.rows, idle.buried, idle.owners, ?_, ?_, ?_⟩
        · intro run same
          cases same
          rw [show (⟨base, hasBase, snapshotAt, tries, .writing merged version⟩ : Run).base = base from rfl, own]
          simp only [baseOf, retains.baseline]
        · intro base hasBase snapshotAt tries read version same
          cases same
        · intro base hasBase snapshotAt tries other version same
          cases same
          refine ⟨cleanMerged, fun key selected wanted => .inl (holds key selected wanted), before, fun now key held => ?_⟩
          rw [← readPackage_get, ← met now] at held
          exact keeps key held
    · exact kept
  | write =>
    rcases running : device.run with _ | ⟨base, hasBase, snapshotAt, tries, phase⟩
    · have still : stepRemote remote device .write = remote := by simp [stepRemote, SyncDevice.pending, running]
      have same : stepDevice formats unmarshal remote device .write = device := by simp [stepDevice, running]
      rw [still, same]
      exact kept
    · cases phase with
      | reading =>
        have still : stepRemote remote device .write = remote := by simp [stepRemote, SyncDevice.pending, running]
        have same : stepDevice formats unmarshal remote device .write = device := by simp [stepDevice, running]
        rw [still, same]
        exact kept
      | merging read version =>
        have still : stepRemote remote device .write = remote := by simp [stepRemote, SyncDevice.pending, running]
        have same : stepDevice formats unmarshal remote device .write = device := by simp [stepDevice, running]
        rw [still, same]
        exact kept
      | writing merged version =>
        obtain ⟨cleanMerged, rows, _, _⟩ := kept.writing base hasBase snapshotAt tries merged version running
        by_cases met : remote.version = version
        · have stored : stepRemote remote device .write = ⟨some merged, remote.version + 1⟩ := by
            simp [stepRemote, SyncDevice.pending, running, met]
          have done : stepDevice formats unmarshal remote device .write =
              { device with store := finish merged snapshotAt device.store, run := none } := by
            simp [stepDevice, running, met]
          rw [stored, done]
          have based : baseOf { device with store := finish merged snapshotAt device.store, run := none } = merged := rfl
          refine ⟨based ▸ cleanMerged, fun key held => .inl (based ▸ held), fun key selected wanted => ?_, ?_, kept.owners,
            fun _ running => (by cases running), fun _ _ _ _ _ _ running => (by cases running),
            fun _ _ _ _ _ _ running => (by cases running)⟩
          · exact rows key selected (based ▸ wanted)
          · -- a finished run forgets changes and deletions, and remembers no new ones
            intro key known missing remembered
            refine kept.buried key known missing ?_
            rcases remembered with ⟨entry, listed, named⟩ | buried
            · exact .inl ⟨entry, (mem_filter.mp listed).1, named⟩
            · refine .inr (fun unburied => buried ?_)
              show (keep _ device.store.tombstones).lookup key = none
              rw [lookup_keep, unburied]
              rfl
        · have still : stepRemote remote device .write = remote := by
            simp [stepRemote, SyncDevice.pending, running, met]
          have refused : stepDevice formats unmarshal remote device .write =
              refusedWrite device ⟨base, hasBase, snapshotAt, tries, .writing merged version⟩ := by
            simp [stepDevice, running, met]
          have own : base = baseOf device := kept.started _ running
          rw [still, refused]
          unfold refusedWrite
          split
          · exact kept.rerun _ (fun started same => by cases same; exact ⟨own, rfl⟩)
          · exact kept.rerun none (fun _ same => (by cases same))
  | lose =>
    have idle : stepDevice formats unmarshal remote device .lose = { device with run := none } ∨
        stepDevice formats unmarshal remote device .lose = device := by
      unfold stepDevice
      dsimp only
      split
      · exact .inl rfl
      · exact .inr rfl
    have grown := stepRemote_version remote device .lose
    have elsewhere := kept.elsewhere [] grown.1 grown.2 (stepRemote_keeps kept clean .lose).2
    rcases idle with ended | same
    · rw [ended]
      exact elsewhere.rerun none (fun _ running => (by cases running))
    · rw [same]
      exact elsewhere

end

section
variable {D : Type} [DecidableEq D] (formats : Formats) (unmarshal : List UInt8 → Option J)

/-- Every step of a run is proper at the state it starts from. -/
def AllProper : State D → List (D × Action) → Prop
  | _, [] => True
  | state, next :: rest =>
    Proper formats unmarshal (state.devices next.1) next.2 ∧ AllProper (step formats unmarshal state next.1 next.2) rest

instance AllProper.decide : (state : State D) → (steps : List (D × Action)) → Decidable (AllProper formats unmarshal state steps)
  | _, [] => isTrue trivial
  | state, next :: rest =>
    have := AllProper.decide (step formats unmarshal state next.1 next.2) rest
    inferInstanceAs (Decidable (_ ∧ _))

/-- What the users of the devices delete over a run. -/
def deletedAlong : State D → List (D × Action) → List Key
  | _, [] => []
  | state, next :: rest =>
    deletedAlong (step formats unmarshal state next.1 next.2) rest ++ userDeletes (state.devices next.1) next.2

variable {formats unmarshal}

/-- Nothing was synced yet: no package, no bases, and no memory of rows that are
    not there. -/
structure Fresh (state : State D) : Prop where
  package : state.remote.package = none
  idle : ∀ device, (state.devices device).run = none
  unsynced : ∀ device, (state.devices device).store.baseline = none
  buried : ∀ device (key : Key), (state.devices device).store.rows.lookup key = none →
    ¬ Remembered (state.devices device).store key
  owners : ∀ device (key : Key), key.1 ∈ dependentKinds → (state.devices device).store.rows.lookup key ≠ none →
    (state.devices device).store.rows.lookup (.service, key.2) ≠ none

/-- No device and no package lacks more than what is gone. -/
structure AllKept (deleted : List Key) (state : State D) : Prop where
  clean : Clean (readPackage state.remote.package)
  kept : ∀ device, Kept deleted state.remote (state.devices device)

omit [DecidableEq D] in
variable {state : State D}

theorem Fresh.kept (fresh : Fresh state) : AllKept [] state where
  clean := by
    rw [fresh.package]
    exact clean_newDocument ..
  kept device := by
    have based : baseOf (state.devices device) = newDocument (state.devices device).deviceId 0 0 := by
      rw [baseOf, fresh.unsynced device]
      rfl
    have nothing : ∀ key : Key, (baseOf (state.devices device)).get key.1 key.2 = none := by
      intro key
      rw [based]
      exact newDocument_get ..
    refine ⟨based ▸ clean_newDocument .., fun key found => absurd (nothing key) found,
      fun key _ found => absurd (nothing key) found, fun key _ missing remembered => ?_,
      fun key dependent found => .inl (fresh.owners device key dependent found), fun run running => ?_,
      fun _ _ _ _ _ _ running => ?_, fun _ _ _ _ _ _ running => ?_⟩
    · exact absurd remembered (fresh.buried device key missing)
    all_goals
      rw [fresh.idle device] at running
      cases running

theorem step_keeps {actor : D} {action : Action} (all : AllKept deleted state)
    (proper : Proper formats unmarshal (state.devices actor) action) :
    AllKept (userDeletes (state.devices actor) action ++ deleted) (step formats unmarshal state actor action) ∧
    ∀ key : Key, state.remote.holds key ≠ none →
      (step formats unmarshal state actor action).remote.holds key ≠ none ∨ Gone deleted key := by
  obtain ⟨clean, stays⟩ := stepRemote_keeps (all.kept actor) all.clean action
  have grown := stepRemote_version state.remote (state.devices actor) action
  refine ⟨⟨clean, fun device => ?_⟩, stays⟩
  by_cases acts : device = actor
  · subst acts
    rw [step_actor, step_remote]
    exact (all.kept device).step all.clean proper
  · rw [step_other formats unmarshal state acts, step_remote]
    exact (all.kept device).elsewhere _ grown.1 grown.2 (fun key held => (stays key held).imp_right (fun gone => gone.more _))

theorem run_keeps {steps : List (D × Action)} (all : AllKept deleted state)
    (proper : AllProper formats unmarshal state steps) :
    AllKept (deletedAlong formats unmarshal state steps ++ deleted) (after formats unmarshal state steps) ∧
    ∀ key : Key, state.remote.holds key ≠ none → (after formats unmarshal state steps).remote.holds key ≠ none ∨
      Gone (deletedAlong formats unmarshal state steps ++ deleted) key := by
  induction steps generalizing state deleted with
  | nil => exact ⟨all, fun key held => .inl held⟩
  | cons next rest ih =>
    obtain ⟨now, later⟩ := proper
    obtain ⟨allNext, stays⟩ := step_keeps all now
    obtain ⟨allLast, staysLast⟩ := ih allNext later
    rw [← List.append_assoc] at allLast staysLast
    refine ⟨allLast, fun key held => ?_⟩
    rcases stays key held with still | gone
    · exact staysLast key still
    · exact .inr (gone.more _)

theorem allProper_append {earlier later : List (D × Action)}
    (proper : AllProper formats unmarshal state (earlier ++ later)) :
    AllProper formats unmarshal state earlier ∧
      AllProper formats unmarshal (after formats unmarshal state earlier) later := by
  induction earlier generalizing state with
  | nil => exact ⟨trivial, proper⟩
  | cons next rest ih =>
    obtain ⟨now, rest⟩ := proper
    obtain ⟨first, second⟩ := ih rest
    exact ⟨⟨now, first⟩, second⟩

theorem deletedAlong_append (state : State D) (earlier later : List (D × Action)) :
    deletedAlong formats unmarshal state (earlier ++ later) =
      deletedAlong formats unmarshal (after formats unmarshal state earlier) later ++
        deletedAlong formats unmarshal state earlier := by
  induction earlier generalizing state with
  | nil => exact (append_nil _).symm
  | cons next rest ih =>
    rw [cons_append, deletedAlong, ih, List.append_assoc]
    rfl

/-- Over any run of proper steps from devices that never synced, an entity that
    the remote package holds stays in it, unless the user of some device deleted
    it or the provider it depends on. -/
theorem package_keeps (formats : Formats) (unmarshal : List UInt8 → Option J) (state : State D) (fresh : Fresh state)
    (earlier later : List (D × Action)) (proper : AllProper formats unmarshal state (earlier ++ later)) (key : Key)
    (held : (after formats unmarshal state earlier).remote.holds key ≠ none) :
    (after formats unmarshal state (earlier ++ later)).remote.holds key ≠ none ∨
      Gone (deletedAlong formats unmarshal state (earlier ++ later)) key := by
  obtain ⟨first, second⟩ := allProper_append proper
  have all := (run_keeps fresh.kept first).1
  rw [append_nil] at all
  rw [after_append, deletedAlong_append]
  exact (run_keeps all second).2 key held

end

end

/-! ### A service and its credential on two devices -/

def ownedService : Key := (.service, "s")

def ownedCredential : Key := (.serviceCredential, "s")

def sharingState (document : UInt8) (credentials : Bool) : State Bool where
  devices second :=
    ⟨if second then "second" else "first", ⟨true, credentials, false, false, false⟩,
      if second then ⟨∅, [], [], ∅, none⟩
      else
        ⟨((∅ : Table Key Row).insert ownedService { document := [document], updatedAt := 5 }).insert ownedCredential
          { secret := some [7], updatedAt := 5 }, [], [], ∅, none⟩, none⟩
  remote := ⟨none, 0⟩

/-- One whole run of a device. -/
def runAt (second : Bool) (now : Nat) : List (Bool × Action) :=
  [(second, .begin now), (second, .read),
    (second, .merge ⟨⟨fun _ => now, fun _ => now, fun _ => now⟩, [], now⟩), (second, .write)]

theorem fresh_sharing : Fresh (sharingState 1 true) where
  package := rfl
  idle _ := rfl
  unsynced second := by cases second <;> rfl
  buried second key missing := by
    rintro (⟨entry, listed, _⟩ | buried)
    · cases second <;> cases listed
    · cases second <;> exact buried rfl
  owners second key dependent found := by
    cases second with
    | true => exact absurd rfl found
    | false =>
      have named : key.2 = "s" := by
        simp only [sharingState, Bool.false_eq_true, if_false, lookup_insert_if] at found
        by_contra other
        have apart : ∀ kind, key ≠ (kind, "s") := fun kind same => other (congrArg Prod.snd same)
        simp [ownedService, ownedCredential, apart] at found
      rw [named]
      decide

/-- Both devices sync, the second one's user edits the service, both sync again. -/
def editedRun : List (Bool × Action) :=
  (true, .user ⟨fun _ => 25, fun _ => 25, fun _ => 25⟩ ownedService (.save { document := [2], updatedAt := 25 })) ::
    (runAt true 30 ++ runAt false 40)

theorem package_keeps_edited :
    (after plainFormats (some : List UInt8 → Option (List UInt8)) (sharingState 1 true)
      ((runAt false 10 ++ runAt true 20) ++ editedRun)).remote.holds ownedCredential ≠ none := by
  have proper : AllProper plainFormats (some : List UInt8 → Option (List UInt8)) (sharingState 1 true)
      ((runAt false 10 ++ runAt true 20) ++ editedRun) := by decide
  have held : (after plainFormats (some : List UInt8 → Option (List UInt8)) (sharingState 1 true)
      (runAt false 10 ++ runAt true 20)).remote.holds ownedCredential ≠ none := by decide
  have kept : ¬ Gone (deletedAlong plainFormats (some : List UInt8 → Option (List UInt8)) (sharingState 1 true)
      ((runAt false 10 ++ runAt true 20) ++ editedRun)) ownedCredential := by decide
  exact (package_keeps plainFormats some (sharingState 1 true) fresh_sharing (runAt false 10 ++ runAt true 20) editedRun
    proper ownedCredential held).resolve_right kept

/-- The second device's copy of the credential stops opening before its next run. -/
def damagedRun : List (Bool × Action) :=
  (true, .user ⟨fun _ => 25, fun _ => 25, fun _ => 25⟩ ownedCredential .damage) :: runAt true 30

/-- A build that does not take the document 9. -/
def strictFormats : Formats :=
  { plainFormats with normalizeService := fun _ document => if document = [9] then none else some document }

/-- No user deletes anything. A secret that does not open is gone from the package
    after the run, and so is a service that the second device's store refused. -/
theorem unread_and_refused_leave :
    ((after plainFormats (some : List UInt8 → Option (List UInt8)) (sharingState 1 true)
        (runAt false 10 ++ runAt true 20)).remote.holds ownedCredential ≠ none ∧
      (after plainFormats (some : List UInt8 → Option (List UInt8)) (sharingState 1 true)
        ((runAt false 10 ++ runAt true 20) ++ damagedRun)).remote.holds ownedCredential = none ∧
      ¬ Gone (deletedAlong plainFormats (some : List UInt8 → Option (List UInt8)) (sharingState 1 true)
        ((runAt false 10 ++ runAt true 20) ++ damagedRun)) ownedCredential) ∧
    (after strictFormats (some : List UInt8 → Option (List UInt8)) (sharingState 9 false)
        (runAt false 10 ++ runAt true 20)).remote.holds ownedService ≠ none ∧
      (after strictFormats (some : List UInt8 → Option (List UInt8)) (sharingState 9 false)
        ((runAt false 10 ++ runAt true 20) ++ runAt true 30)).remote.holds ownedService = none ∧
      ¬ Gone (deletedAlong strictFormats (some : List UInt8 → Option (List UInt8)) (sharingState 9 false)
        ((runAt false 10 ++ runAt true 20) ++ runAt true 30)) ownedService := by
  decide

end AstrLink.Retention
