import AstrLink.LocalStore

/-!
The local half of a sync: how a device's rows become the package a merge works
on, and how a merged package is written back into the rows.
-/
namespace AstrLink.Device
open Tables Package Merge Scope LocalStore List
open Option (map_some some.inj some_or)

variable {deviceId : String} {scope : SyncScope} {snapshotAt : Nat} {store : Store}

section
variable (formats : Formats)

/-- The entity of a row: none for a credential that does not open, an error for a row that cannot be read. -/
def rowEntity (store : Store) (revision : Int) (key : Key) : Option (Option Entity) :=
  match store.rows.lookup key with
  | none => some none
  | some row =>
    match readEntity formats store key row with
    | none => none
    | some none => some none
    | some (some read) =>
      if isCredentialKind key.1 then
        some (if read.secret.isEmpty then none
          else some ⟨revision, read.updatedAt, false, [], formats.encodeSecret read.secret⟩)
      else if key.1 = .accessToken then
        -- a token travels whole
        if read.secret.isEmpty || read.document.isEmpty then none
        else some (some ⟨revision, read.updatedAt, false, read.document, formats.encodeSecret read.secret⟩)
      else some (some ⟨revision, read.updatedAt, false, read.document, ""⟩)

/-- What one row holds, apart from when it changed. -/
def rowContent (key : Key) (row : Row) : Option Entity :=
  match key.1 with
  | .service => some ⟨0, 0, false, formats.dropPlan row.document, ""⟩
  | .policy | .pricingConfig => some ⟨0, 0, false, row.document, ""⟩
  | .accessToken =>
    row.secret.map (fun value =>
      ⟨0, 0, false, formats.encodeToken ⟨row.name, row.source, row.updatedAt⟩, formats.encodeSecret value⟩)
  | _ => (row.secret.filter (fun value => !value.isEmpty)).map (fun value => ⟨0, 0, false, [], formats.encodeSecret value⟩)

/-- What a device holds for a key. -/
def held (store : Store) (key : Key) : Option Entity := (store.rows.lookup key).bind (rowContent formats key)

/-- The rows of the kinds the settings select. -/
def scopedRows (scope : SyncScope) (store : Store) : List Key :=
  store.rows.keys.filter (fun key => inScope scope key.1)

def heldEntities (scope : SyncScope) (revision : Int) (store : Store) : Table Key Entity :=
  collect (scopedRows scope store) (fun key => (rowEntity formats store revision key).join)

def deletedEntity (deletedAt : Nat) : Entity := ⟨0, deletedAt, true, [], ""⟩

/-- A tombstone the engine lists for a selected kind. -/
def tombstoneTime (scope : SyncScope) (store : Store) (key : Key) : Option Nat :=
  if inScope scope key.1 then (store.tombstones.lookup key).filter (fun deletedAt => decide (0 < deletedAt)) else none

/-- A logged change, up to the snapshot, of a selected kind. -/
def changeTime (scope : SyncScope) (snapshotAt : Nat) (store : Store) (key : Key) : Option Nat :=
  if inScope scope key.1 then
    (lastChange store key).filter (fun changedAt => decide (0 < changedAt) && decide (changedAt ≤ snapshotAt))
  else none

/-- The entities this device holds or knows to be deleted. -/
def buriedEntities (scope : SyncScope) (revision : Int) (store : Store) : Table Key Entity :=
  heldEntities formats scope revision store ∪
    collect store.tombstones.keys (fun key => (tombstoneTime scope store key).map deletedEntity)

def unseenDeletions (scope : SyncScope) (revision : Int) (snapshotAt : Nat) (store : Store) : Table Key Nat :=
  collect ((store.changeLog.map Prod.fst).dedup) (fun key =>
    if ((buriedEntities formats scope revision store).lookup key).isSome then none
    else changeTime scope snapshotAt store key)

/-- This device's package, with the deletions of the change log as tombstones. -/
def localDocument (deviceId : String) (scope : SyncScope) (revision : Int) (snapshotAt : Nat) (store : Store) :
    Option (Document × Store) :=
  if (scopedRows scope store).any (fun key => (rowEntity formats store revision key).isNone) then none
  else
    let unseen := unseenDeletions formats scope revision snapshotAt store
    let entities := buriedEntities formats scope revision store ∪
      collect unseen.keys (fun key => (unseen.lookup key).map deletedEntity)
    some ({ newDocument deviceId revision snapshotAt with entities := entities, order := serviceOrder store },
      unseen.keys.foldl (fun store key => putTombstone key ((unseen.lookup key).getD 0) store) store)

def changedEntities (store : Store) : List Key :=
  (store.changeLog.filter (fun entry => decide (0 < entry.2))).map Prod.fst

/-- What the device holds now; no result when a row cannot be read. -/
def currentEntities (scope : SyncScope) (store : Store) : Option (List Key) :=
  let read := fun key => (store.rows.lookup key).bind (readEntity formats store key)
  if (scopedRows scope store).any (fun key => (read key).isNone) then none
  else some ((scopedRows scope store).filter (fun key => (read key).join.isSome))

section
variable (clock : Clock)

/-- A refused document is not stored; a stored one makes its tombstone stale. -/
def settle (key : Key) (store : Store) : Except WriteError Store → Option Store
  | .ok written => some (deleteTombstone key written)
  | .error .refused => some store
  | .error .failed => none

/-- Writes one entity a merge chose; no result when the write stops the run. -/
def writeEntity (key : Key) (entity : Entity) (store : Store) : Option Store :=
  if key.1 = .accessToken then
    if entity.document.isEmpty then none
    else
      match formats.decodeSecret entity.secret with
      | none => none
      | some value => settle key store (syncWriteAccessToken formats clock key.2 entity.document value store)
  else if isCredentialKind key.1 then
    match formats.decodeSecret entity.secret with
    | none => none
    | some plaintext =>
      match syncImportCredential clock key.1 key.2 plaintext store with
      | .ok written => some (deleteTombstone key written)
      | .error _ => none
  else if entity.document.isEmpty then none
  else settle key store (syncWriteEntity formats clock key.1 key.2 entity.document store)

/-- Providers first: every other kind references them. -/
def writeOrder : List Kind := [.service, .policy, .pricingConfig, .accessToken] ++ credentialKinds

def writeEntities (merged : Document) : List Key → Store → Store × Bool
  | [], store => (store, true)
  | key :: rest, store =>
    match live (merged.get key.1 key.2) with
    | none => writeEntities merged rest store
    | some entity =>
      match writeEntity formats clock key entity store with
      | none => (store, false)
      | some written => writeEntities merged rest written

/-- Removes what this device holds and the merge did not keep, and remembers the
    deletion. -/
def deleteEntities (merged : Document) (held : List Key) (store : Store) : Store :=
  (held.filter (fun key => (merged.get key.1 key.2).isNone)).foldl
    (fun store key => putTombstone key (clock.removed key) (syncDeleteEntity clock key.1 key.2 store)) store

/-- The order in which a loop visits the entities of a package: those `visit`
    lists first. -/
def visited (visit : List Key) (merged : Document) : List Key :=
  visit.dedup ++ merged.entities.keys.filter (fun key => !visit.contains key)

def writtenKeys (scope : SyncScope) (visit : List Key) (merged : Document) : List Key :=
  writeOrder.flatMap (fun kind =>
    if inScope scope kind then (visited visit merged).filter (fun key => key.1 = kind) else [])

/-- Writes the merged package into the rows; whether every step went through. -/
def apply (scope : SyncScope) (visit : List Key) (merged : Document) (store : Store) : Store × Bool :=
  match currentEntities formats scope store with
  | none => (store, false)
  | some held =>
    match writeEntities formats clock merged (writtenKeys scope visit merged) store with
    | (written, false) => (written, false)
    | (written, true) =>
      let deleted := deleteEntities clock merged held written
      let ordered := if inScope scope .service then syncWriteOrder clock merged.order deleted else deleted
      (syncBindCredentialRefs formats clock ordered, true)

end

/-- What an attempt takes from outside: the clocks, and the order of its visits. -/
structure Turn where
  clock : Clock
  visit : List Key
  now : Nat

variable {J : Type} [DecidableEq J] (unmarshal : List UInt8 → Option J)

/-- Merges the package that was read, and gives the one to be published, if any. -/
def attempt (turn : Turn) (deviceId : String) (scope : SyncScope) (base : Document) (hasBase : Bool) (snapshotAt : Nat)
    (remote : Option Document) (store : Store) : Store × Option Document :=
  match localDocument formats deviceId scope base.revision snapshotAt store with
  | none => (store, none)
  | some (localDoc, reconciled) =>
    let merged := (publish unmarshal turn.now scope base hasBase localDoc (remote.getD (newDocument "" 0 0))
      remote.isSome (changedEntities reconciled)).1
    match apply formats turn.clock scope turn.visit merged reconciled with
    | (applied, true) => (applied, some merged)
    | (applied, false) => (applied, none)

/-- How long a deletion is remembered: ninety days. -/
def tombstoneRetention : Nat := 90 * 24 * 3600 * 1000000000

/-- Records a run that stored its package. -/
def finish (merged : Document) (through : Nat) (store : Store) : Store :=
  deleteTombstonesBefore (through - tombstoneRetention)
    (clearChangesThrough through { store with baseline := some merged })

/-- What this device shows for a key: its row, else the deletion it remembers. -/
def shown (scope : SyncScope) (revision : Int) (snapshotAt : Nat) (store : Store) (key : Key) : Option Entity :=
  ((if inScope scope key.1 then (rowEntity formats store revision key).join else none).or
    ((tombstoneTime scope store key).map deletedEntity)).or
      ((changeTime scope snapshotAt store key).map deletedEntity)

theorem lookup_heldEntities (scope : SyncScope) (revision : Int) (store : Store) (key : Key) :
    (heldEntities formats scope revision store).lookup key =
      if inScope scope key.1 then (rowEntity formats store revision key).join else none := by
  rw [heldEntities, lookup_collect]
  by_cases selected : inScope scope key.1
  · by_cases held : key ∈ store.rows.keys
    · simp [scopedRows, held, selected]
    · have missing : store.rows.lookup key = none := AList.lookup_eq_none.mpr (fun listed => held (AList.mem_keys.mp listed))
      simp [scopedRows, held, rowEntity, missing]
  · simp [scopedRows, selected]

theorem lookup_buriedEntities (scope : SyncScope) (revision : Int) (store : Store) (key : Key) :
    (buriedEntities formats scope revision store).lookup key =
      (if inScope scope key.1 then (rowEntity formats store revision key).join else none).or
        ((tombstoneTime scope store key).map deletedEntity) := by
  rw [buriedEntities, lookup_union, lookup_heldEntities, lookup_collect_of_mem]
  intro listed
  refine mem_keys_of_ne_none (fun missing => listed ?_)
  simp [tombstoneTime, missing]

theorem lookup_unseenDeletions (scope : SyncScope) (revision : Int) (snapshotAt : Nat) (store : Store) (key : Key) :
    (unseenDeletions formats scope revision snapshotAt store).lookup key =
      if ((buriedEntities formats scope revision store).lookup key).isSome then none
      else changeTime scope snapshotAt store key := by
  rw [unseenDeletions, lookup_collect_of_mem]
  intro logged
  by_contra unlogged
  apply logged
  have empty : store.changeLog.filter (fun entry => entry.1 = key) = [] := by
    rw [filter_eq_nil_iff]
    intro entry listed same
    refine unlogged (mem_dedup.mpr (mem_map.mpr ⟨entry, listed, ?_⟩))
    exact of_decide_eq_true same
  simp [changeTime, lastChange, empty]

variable {localDoc : Document} {reconciled : Store}

variable {revision : Int}

theorem localDocument_get
    (built : localDocument formats deviceId scope revision snapshotAt store = some (localDoc, reconciled))
    (kind : Kind) (id : String) :
    localDoc.get kind id = shown formats scope revision snapshotAt store (kind, id) := by
  rw [localDocument] at built
  by_cases unreadable : (scopedRows scope store).any (fun key => (rowEntity formats store revision key).isNone) = true
  · simp [unreadable] at built
  · rw [if_neg unreadable] at built
    have contents := (Prod.mk.inj (some.inj built)).1
    rw [← contents, Document.get, lookup_union, lookup_collect_of_mem, lookup_unseenDeletions, shown,
      ← lookup_buriedEntities formats scope revision store (kind, id)]
    · cases (buriedEntities formats scope revision store).lookup (kind, id) <;> simp
    · intro listed
      refine mem_keys_of_ne_none (fun missing => listed ?_)
      simp [missing]

theorem localDocument_order
    (built : localDocument formats deviceId scope revision snapshotAt store = some (localDoc, reconciled)) :
    localDoc.order = serviceOrder store := by
  rw [localDocument] at built
  by_cases unreadable : (scopedRows scope store).any (fun key => (rowEntity formats store revision key).isNone) = true
  · simp [unreadable] at built
  · rw [if_neg unreadable] at built
    rw [← (Prod.mk.inj (some.inj built)).1]

theorem localDocument_reconciled
    (built : localDocument formats deviceId scope revision snapshotAt store = some (localDoc, reconciled)) :
    reconciled = { store with tombstones := reconciled.tombstones } ∧
    ∀ key, reconciled.tombstones.lookup key =
      match (unseenDeletions formats scope revision snapshotAt store).lookup key with
      | none => store.tombstones.lookup key
      | some deletedAt => some (max deletedAt ((store.tombstones.lookup key).getD 0)) := by
  have loop : ∀ (time : Key → Nat) (keys : List Key) (store : Store), keys.Nodup →
      keys.foldl (fun store key => putTombstone key (time key) store) store =
          { store with tombstones := (keys.foldl (fun store key => putTombstone key (time key) store) store).tombstones } ∧
      ∀ key, (keys.foldl (fun store key => putTombstone key (time key) store) store).tombstones.lookup key =
        if key ∈ keys then some (max (time key) ((store.tombstones.lookup key).getD 0)) else store.tombstones.lookup key := by
    intro time keys
    induction keys with
    | nil => exact fun store _ => ⟨rfl, fun key => rfl⟩
    | cons head rest ih =>
      intro store distinct
      obtain ⟨fresh, distinctRest⟩ := nodup_cons.mp distinct
      obtain ⟨same, lookups⟩ := ih (putTombstone head (time head) store) distinctRest
      refine ⟨same, fun key => ?_⟩
      rw [foldl_cons, lookups]
      simp only [putTombstone, lookup_insert_if]
      by_cases first : key = head
      · subst first
        simp [fresh]
      · simp [first]
  rw [localDocument] at built
  split at built
  · cases built
  · have reconciling := (Prod.mk.inj (some.inj built)).2
    obtain ⟨same, lookups⟩ := loop
      (fun key => ((unseenDeletions formats scope revision snapshotAt store).lookup key).getD 0)
      (unseenDeletions formats scope revision snapshotAt store).keys store
      (unseenDeletions formats scope revision snapshotAt store).nodupKeys
    rw [reconciling] at same lookups
    refine ⟨same, fun key => ?_⟩
    rw [lookups]
    cases found : (unseenDeletions formats scope revision snapshotAt store).lookup key with
    | none =>
      have unlisted : key ∉ (unseenDeletions formats scope revision snapshotAt store).keys :=
        fun listed => AList.lookup_eq_none.mp found (AList.mem_keys.mpr listed)
      rw [if_neg unlisted]
    | some deletedAt =>
      rw [if_pos (mem_keys_of_lookup found)]
      rfl

theorem changedEntities_reconciled
    (built : localDocument formats deviceId scope revision snapshotAt store = some (localDoc, reconciled)) :
    changedEntities reconciled = changedEntities store := by
  rw [(localDocument_reconciled formats built).1]
  rfl

theorem localDocument_readable
    (built : localDocument formats deviceId scope revision snapshotAt store = some (localDoc, reconciled)) {key : Key}
    (selected : inScope scope key.1 = true) : (rowEntity formats store revision key).isSome = true := by
  rw [localDocument] at built
  split at built
  · cases built
  · rename_i readable
    by_contra unreadable
    have found : store.rows.lookup key ≠ none := by
      intro missing
      simp [rowEntity, missing] at unreadable
    refine readable (any_eq_true.mpr ⟨key, mem_filter.mpr ⟨mem_keys_of_ne_none found, selected⟩, ?_⟩)
    simpa using unreadable

theorem shown_unselected {key : Key} (unselected : inScope scope key.1 = false) (revision : Int) (snapshotAt : Nat)
    (store : Store) : shown formats scope revision snapshotAt store key = none := by
  simp [shown, tombstoneTime, changeTime, unselected]

section
variable {J : Type} [DecidableEq J] (unmarshal : List UInt8 → Option J)

theorem shown_agrees_held {key : Key} (selected : inScope scope key.1 = true)
    (readable : (rowEntity formats store revision key).isSome = true) :
    Agree unmarshal (shown formats scope revision snapshotAt store key) (held formats store key) := by
  have buried : ∀ first second : Option Nat,
      live ((first.map deletedEntity).or (second.map deletedEntity)) = none := by
    intro first second
    cases first <;> cases second <;> rfl
  obtain ⟨read, found⟩ := Option.isSome_iff_exists.mp readable
  unfold shown held
  rw [if_pos selected, found, Option.join_some]
  cases row : store.rows.lookup key with
  | none =>
    simp only [rowEntity, row, Option.some.injEq] at found
    subst found
    simp [Agree, buried, same_refl]
  | some content =>
    rw [Option.bind_some]
    simp only [rowEntity, row] at found
    obtain ⟨kind, id⟩ := key
    cases timed : entityTime store (kind, id) content with
    | none => simp [readEntity, timed] at found
    | some time =>
      cases kind with
      | service | policy | pricingConfig =>
        simp [readEntity, timed, isCredentialKind, credentialKinds] at found
        subst found
        simp only [rowContent, some_or]
        exact Same.agree unmarshal ((same_some_iff unmarshal _ _).mpr ⟨rfl, rfl, jsonEqual_refl unmarshal _⟩)
      | accessToken =>
        cases secret : content.secret with
        | none => simp [readEntity, timed, secret] at found
        | some value =>
          simp only [readEntity, timed, secret, isCredentialKind, credentialKinds] at found
          simp only [mem_cons, reduceCtorEq, not_mem_nil, or_self, decide_false, Bool.false_eq_true, if_false,
            if_true] at found
          split at found
          · cases found
          · cases found
            simp only [rowContent, secret, map_some, some_or]
            exact Same.agree unmarshal ((same_some_iff unmarshal _ _).mpr ⟨rfl, rfl, jsonEqual_refl unmarshal _⟩)
      | serviceCredential | serviceProxyCredential | builtinToolCredential =>
        cases secret : content.secret with
        | none =>
          simp only [readEntity, timed, secret, Option.map_none, Option.some.injEq] at found
          subst found
          simp [Agree, buried, rowContent, secret, same_refl]
        | some value =>
          simp only [readEntity, timed, secret, map_some, isCredentialKind, credentialKinds] at found
          simp only [mem_cons, reduceCtorEq, not_mem_nil, or_self, or_false, or_true,
            decide_true, if_true, Option.some.injEq] at found
          cases empty : value.isEmpty with
          | true =>
            simp only [empty, if_true] at found
            subst found
            simp [Agree, buried, rowContent, secret, Option.filter, empty, same_refl]
          | false =>
            simp only [empty, Bool.false_eq_true, if_false] at found
            subst found
            simp only [rowContent, secret, Option.filter, empty, Bool.not_false, if_true, map_some, some_or]
            exact Same.agree unmarshal ((same_some_iff unmarshal _ _).mpr ⟨rfl, rfl, jsonEqual_refl unmarshal _⟩)
      | other name => simp [inScope] at selected

end

section
variable {J : Type} [DecidableEq J] (unmarshal : List UInt8 → Option J)
variable {turn : Turn} {deviceId : String} {scope : SyncScope} {base : Document} {hasBase : Bool} {snapshotAt : Nat}
  {remote : Option Document} {store applied : Store} {merged : Document}

theorem attempt_published
    (published : attempt formats unmarshal turn deviceId scope base hasBase snapshotAt remote store =
      (applied, some merged)) :
    ∃ localDoc reconciled, localDocument formats deviceId scope base.revision snapshotAt store =
        some (localDoc, reconciled) ∧
      merged = (publish unmarshal turn.now scope base hasBase localDoc (remote.getD (newDocument "" 0 0))
        remote.isSome (changedEntities reconciled)).1 ∧
      apply formats turn.clock scope turn.visit merged reconciled = (applied, true) := by
  rw [attempt] at published
  cases built : localDocument formats deviceId scope base.revision snapshotAt store with
  | none => simp [built] at published
  | some parts =>
    obtain ⟨localDoc, reconciled⟩ := parts
    rw [built] at published
    dsimp only at published
    refine ⟨localDoc, reconciled, rfl, ?_⟩
    split at published
    · rename_i after done
      obtain ⟨same, kept⟩ := Prod.mk.inj published
      cases same
      cases kept
      exact ⟨rfl, done⟩
    · cases published

/-- A published package carries every kind outside the scope as the remote holds
    it, less the dependants whose provider is not published. -/
theorem attempt_carries_unselected {remoteDoc : Document}
    (published : attempt formats unmarshal turn deviceId scope base hasBase snapshotAt (some remoteDoc) store =
      (applied, some merged))
    {kind : Kind} (known : kind ∈ kinds) (unselected : inScope scope kind = false) (id : String)
    (notOnlyBase : remoteDoc.get kind id ≠ none ∨ base.get kind id = none) :
    merged.get kind id =
      if kind ∈ dependentKinds ∧ merged.get .service id = none then none else remoteDoc.get kind id := by
  obtain ⟨localDoc, reconciled, built, rfl, _⟩ := attempt_published formats unmarshal published
  have absent : localDoc.get kind id = none := by
    rw [localDocument_get formats built]
    exact shown_unselected formats unselected base.revision snapshotAt store
  have carried : (remoteDoc.get kind id).or (base.get kind id) = remoteDoc.get kind id := by
    rcases notOnlyBase with held | missing
    · obtain ⟨entity, found⟩ := Option.ne_none_iff_exists'.mp held
      rw [found, some_or]
    · rw [missing, Option.or_none]
  rw [publish_get_service, publish_get, compose_get_carried unmarshal known unselected id absent]
  simp only [Option.getD_some, carried]

end

end

private theorem eq_some_getD {published : Option Document} (default : Document) (stored : published.isSome = true) :
    published = some (published.getD default) := by
  cases published with
  | none => cases stored
  | some document => rfl

/-! A device that carries only services, whose user deleted the service `s`. The
    remote prices that service; only this device's base still holds a policy. -/

def narrowScope : SyncScope := ⟨true, false, false, false, false⟩

def narrowEntity (content : UInt8) : Entity := ⟨0, 5, false, [content], ""⟩

def narrowBase : Document :=
  ((newDocument "first" 1 10).put .service "s" (narrowEntity 1)).put .policy defaultPrivacyPolicyId (narrowEntity 2)

def narrowRemote : Document :=
  (((newDocument "second" 2 20).put .service "s" (narrowEntity 1)).put .pricingConfig "s" (narrowEntity 3)).put
    .accessToken "t" (narrowEntity 4)

def narrowStore : Store := ⟨∅, [], [((.service, "s"), 30)], ∅, some narrowBase⟩

def narrowTurn : Turn := ⟨⟨fun _ => 50, fun _ => 50, fun _ => 50⟩, [], 50⟩

def narrowAttempt : Store × Option Document :=
  attempt plainFormats (some : List UInt8 → Option (List UInt8)) narrowTurn "first" narrowScope narrowBase true 40
    (some narrowRemote) narrowStore

def narrowPublished : Document := narrowAttempt.2.getD narrowBase

theorem attempt_carries_token : narrowPublished.get .accessToken "t" = some (narrowEntity 4) := by
  have published : narrowAttempt = (narrowAttempt.1, some narrowPublished) :=
    Prod.ext rfl (eq_some_getD narrowBase (by decide))
  exact (attempt_carries_unselected plainFormats _ published (by decide) (by decide) "t" (by decide)).trans (by decide)

/-- The price binding of the deleted service is pruned from the package, and the
    policy that the remote no longer holds comes back from the base. -/
theorem attempt_alters_unselected :
    narrowAttempt.2 = some narrowPublished ∧
    ¬ (∀ kind ∈ kinds, inScope narrowScope kind = false →
      ∀ id, narrowRemote.get kind id ≠ none → narrowPublished.get kind id = narrowRemote.get kind id) ∧
    ¬ (∀ kind ∈ kinds, inScope narrowScope kind = false →
      ∀ id, narrowRemote.get kind id = none → narrowPublished.get kind id = none) := by
  refine ⟨eq_some_getD narrowBase (by decide), fun carried => ?_, fun removed => ?_⟩
  · exact absurd (carried .pricingConfig (by decide) (by decide) "s" (by decide)) (by decide)
  · exact absurd (removed .policy (by decide) (by decide) defaultPrivacyPolicyId (by decide)) (by decide)

end AstrLink.Device
