import AstrLink.Storing

/-!
What a device holds once a merged package is applied: the deletions, the
priority list and the device-local references that follow the writes, and the
content of one key at the end (`apply_held`).
-/
namespace AstrLink.Applying
open Tables Package Merge Scope LocalStore Device Storing List

/-- The tables whose rows a deleted service takes with it. -/
def cascades : List Kind := [.serviceCredential, .serviceProxyCredential, subscription]

variable {scope : SyncScope} {held : List Key} {after : Store} {row : Row}

section
variable {formats : Formats} {clock : Clock} {store written : Store} {merged : Document}

def Removes (deleted key : Key) : Prop := key = deleted ∨ deleted.1 = .service ∧ key.1 ∈ cascades ∧ key.2 = deleted.2

theorem touches_syncDeleteEntity (clock : Clock) (key : Key) (store : Store) :
    Touches (Removes key) store (syncDeleteEntity clock key.1 key.2 store) := by
  have one : ∀ store, Touches (Removes key) store (deleteRow clock key store) := fun store =>
    (touches_deleteRow clock key store).mono (fun other same => .inl same)
  obtain ⟨kind, id⟩ := key
  dsimp only
  unfold syncDeleteEntity
  split
  · split
    · have credential : ∀ store, Touches (Removes (Kind.service, id)) store (deleteRow clock (.serviceCredential, id) store) :=
        fun store => (touches_deleteRow ..).mono (by rintro other rfl; exact .inr ⟨rfl, by simp [cascades], rfl⟩)
      have proxy : ∀ store, Touches (Removes (Kind.service, id)) store (deleteRow clock (.serviceProxyCredential, id) store) :=
        fun store => (touches_deleteRow ..).mono (by rintro other rfl; exact .inr ⟨rfl, by simp [cascades], rfl⟩)
      have rows := (one store).trans ((credential _).trans (proxy _))
      refine ⟨rows.rows, rows.logged, rows.tombstones, fun other apart => ?_, rows.baseline⟩
      have different : other ≠ id := by
        rintro rfl
        exact apart (.inr ⟨rfl, by simp [cascades], rfl⟩)
      exact (mem_erase_of_ne different).trans (rows.subscriptions other apart)
    · exact Touches.refl _ _
  · split
    · exact Touches.refl _ _
    · exact one store
  · exact one store

theorem lookup_syncDeleteEntity (clock : Clock) (key : Key) (store : Store) :
    (∀ other, (syncDeleteEntity clock key.1 key.2 store).rows.lookup other = none ∨
      (syncDeleteEntity clock key.1 key.2 store).rows.lookup other = store.rows.lookup other) ∧
    (key ≠ (.policy, defaultPrivacyPolicyId) → (syncDeleteEntity clock key.1 key.2 store).rows.lookup key = none) := by
  have one : ∀ (deleted other : Key) (store : Store), (deleteRow clock deleted store).rows.lookup other = none ∨
      (deleteRow clock deleted store).rows.lookup other = store.rows.lookup other := by
    intro deleted other store
    rw [lookup_deleteRow]
    split
    · exact .inl rfl
    · exact .inr rfl
  have removed : ∀ (deleted : Key) (store : Store), (deleteRow clock deleted store).rows.lookup deleted = none := by
    intro deleted store
    rw [lookup_deleteRow, if_pos rfl]
  have chain : ∀ (deleted other : Key) (middle store : Store),
      middle.rows.lookup other = none ∨ middle.rows.lookup other = store.rows.lookup other →
      (deleteRow clock deleted middle).rows.lookup other = none ∨
        (deleteRow clock deleted middle).rows.lookup other = store.rows.lookup other := by
    intro deleted other middle store before
    rcases one deleted other middle with gone | same
    · exact .inl gone
    · rw [same]
      exact before
  have gone : ∀ (deleted other : Key) (store : Store), store.rows.lookup other = none →
      (deleteRow clock deleted store).rows.lookup other = none := by
    intro deleted other store missing
    rcases one deleted other store with gone | same
    · exact gone
    · exact same.trans missing
  obtain ⟨kind, id⟩ := key
  dsimp only
  unfold syncDeleteEntity
  split
  · split
    · exact ⟨fun other => chain _ _ _ _ (chain _ _ _ _ (one _ _ _)), fun _ => gone _ _ _ (gone _ _ _ (removed _ _))⟩
    · rename_i absent
      exact ⟨fun other => .inr rfl, fun _ => Option.not_isSome_iff_eq_none.mp absent⟩
  · split
    · rename_i fixed
      exact ⟨fun other => .inr rfl, fun apart => absurd (by rw [fixed]) apart⟩
    · exact ⟨fun other => one _ _ _, fun _ => removed _ _⟩
  · exact ⟨fun other => one _ _ _, fun _ => removed _ _⟩

variable {key : Key}

theorem syncDeleteEntity_missing (clock : Clock)
    (absent : store.rows.lookup key = none ∨ key = (.policy, defaultPrivacyPolicyId)) :
    syncDeleteEntity clock key.1 key.2 store = store := by
  obtain ⟨kind, id⟩ := key
  by_cases fixed : (kind, id) = (Kind.policy, defaultPrivacyPolicyId)
  · cases fixed
    simp [syncDeleteEntity]
  · have missing : store.rows.lookup (kind, id) = none := absent.resolve_right fixed
    cases kind <;> simp_all [syncDeleteEntity, deleteRow]

/-- A listed key that the package does not hold, or one that goes with its
    service. -/
def Dropped (merged : Document) (held : List Key) (key : Key) : Prop :=
  (key ∈ held ∧ merged.get key.1 key.2 = none) ∨
    (key.1 ∈ cascades ∧ (Kind.service, key.2) ∈ held ∧ merged.get .service key.2 = none)

theorem touches_deleteEntities (clock : Clock) (merged : Document) (held : List Key) (store : Store) :
    Touches (Dropped merged held) store (deleteEntities clock merged held store) := by
  refine Touches.foldl (fun key filtered store => ?_) store
  obtain ⟨listed, absent⟩ := mem_filter.mp filtered
  have dropped : merged.get key.1 key.2 = none := Option.isNone_iff_eq_none.mp absent
  refine ((touches_syncDeleteEntity clock key store).mono ?_).trans ((touches_putTombstone ..).mono ?_)
  · rintro other (rfl | ⟨service, cascading, same⟩)
    · exact .inl ⟨listed, dropped⟩
    · have owner : key = (Kind.service, other.2) := Prod.ext service same.symm
      subst owner
      exact .inr ⟨cascading, listed, dropped⟩
  · rintro other rfl
    exact .inl ⟨listed, dropped⟩

theorem lookup_deleteEntities (clock : Clock) (merged : Document) (held : List Key) (store : Store) :
    (∀ key, (deleteEntities clock merged held store).rows.lookup key = none ∨
      (deleteEntities clock merged held store).rows.lookup key = store.rows.lookup key) ∧
    (∀ key ∈ held, merged.get key.1 key.2 = none → key ≠ (.policy, defaultPrivacyPolicyId) →
      (deleteEntities clock merged held store).rows.lookup key = none) := by
  have loop : ∀ (keys : List Key) (store : Store),
      (∀ key, (keys.foldl (fun store key => putTombstone key (clock.removed key)
          (syncDeleteEntity clock key.1 key.2 store)) store).rows.lookup key = none ∨
        (keys.foldl (fun store key => putTombstone key (clock.removed key)
          (syncDeleteEntity clock key.1 key.2 store)) store).rows.lookup key = store.rows.lookup key) ∧
      (∀ key ∈ keys, key ≠ (.policy, defaultPrivacyPolicyId) → (keys.foldl (fun store key =>
        putTombstone key (clock.removed key) (syncDeleteEntity clock key.1 key.2 store)) store).rows.lookup key = none) := by
    intro keys
    induction keys with
    | nil => exact fun store => ⟨fun key => .inr rfl, fun key listed => absurd listed not_mem_nil⟩
    | cons head rest ih =>
      intro store
      obtain ⟨kept, goes⟩ := lookup_syncDeleteEntity clock head store
      obtain ⟨keptRest, goesRest⟩ := ih (putTombstone head (clock.removed head) (syncDeleteEntity clock head.1 head.2 store))
      refine ⟨fun key => ?_, fun key listed apart => ?_⟩
      · rcases keptRest key with gone | same
        · exact .inl gone
        · rw [foldl_cons, same]
          exact kept key
      · rcases mem_cons.mp listed with rfl | tail
        · rcases keptRest key with gone | same
          · exact gone
          · exact same.trans (goes apart)
        · exact goesRest key tail apart
  obtain ⟨kept, goes⟩ := loop (held.filter (fun key => (merged.get key.1 key.2).isNone)) store
  exact ⟨kept, fun key listed dropped apart =>
    goes key (mem_filter.mpr ⟨listed, Option.isNone_iff_eq_none.mpr dropped⟩) apart⟩

theorem syncDeleteEntity_tombstones (clock : Clock) (key : Key) (store : Store) :
    (syncDeleteEntity clock key.1 key.2 store).tombstones = store.tombstones := by
  unfold syncDeleteEntity
  split
  · split <;> simp
  · split <;> simp
  · simp

theorem deleteEntities_tombstones (clock : Clock) (merged : Document) (unheld : key ∉ held) (store : Store) :
    (deleteEntities clock merged held store).tombstones.lookup key = store.tombstones.lookup key := by
  unfold deleteEntities
  have unlisted : key ∉ held.filter (fun key => (merged.get key.1 key.2).isNone) :=
    fun listed => unheld (mem_filter.mp listed).1
  generalize held.filter (fun key => (merged.get key.1 key.2).isNone) = keys at unlisted
  induction keys generalizing store with
  | nil => rfl
  | cons head rest ih =>
    simp only [mem_cons, not_or] at unlisted
    rw [foldl_cons, ih _ unlisted.2]
    simp only [putTombstone, AList.lookup_insert_ne unlisted.1, syncDeleteEntity_tombstones]

theorem deleteEntities_missing (clock : Clock) (merged : Document) (held : List Key)
    (missing : store.rows.lookup key = none) : (deleteEntities clock merged held store).rows.lookup key = none :=
  ((lookup_deleteEntities clock merged held store).1 key).elim id (fun same => same.trans missing)

theorem deleteEntities_spares (clock : Clock) (merged : Document) (unheld : key ∉ held) (store : Store) :
    Spares key store (deleteEntities clock merged held store) :=
  ⟨deleteEntities_missing clock merged held, deleteEntities_tombstones clock merged unheld store⟩

/-! ### The priority list and the references -/

def samePlace (row : Row) : Row := { row with position := 0 }

theorem placeService_spec (clock : Clock) (placed : String × Nat) (store : Store) :
    Touches (fun key => key.1 = .service) store (placeService clock store placed) ∧
    (∀ key, ((placeService clock store placed).rows.lookup key).map samePlace = (store.rows.lookup key).map samePlace) ∧
    (placeService clock store placed).tombstones = store.tombstones := by
  unfold placeService
  split
  · exact ⟨Touches.refl _ _, fun key => rfl, rfl⟩
  · rename_i row found
    split
    · exact ⟨Touches.refl _ _, fun key => rfl, rfl⟩
    · refine ⟨(touches_putRow ..).mono (fun key same => same ▸ rfl), fun key => ?_, rfl⟩
      rw [lookup_putRow]
      split
      · rename_i same
        rw [same, found]
        rfl
      · rfl

theorem syncWriteOrder_spec (ids : List String) (store : Store) :
    Touches (fun key => key.1 = .service) store (syncWriteOrder clock ids store) ∧
    (∀ key, ((syncWriteOrder clock ids store).rows.lookup key).map samePlace = (store.rows.lookup key).map samePlace) ∧
    (syncWriteOrder clock ids store).tombstones = store.tombstones := by
  unfold syncWriteOrder
  split
  · exact ⟨Touches.refl _ _, fun key => rfl, rfl⟩
  · dsimp only
    generalize (appendUnseen (appendUnseen [] (ids.filter (· ∈ serviceOrder store))) (serviceOrder store)).zipIdx = places
    induction places generalizing store with
    | nil => exact ⟨Touches.refl _ _, fun key => rfl, rfl⟩
    | cons head rest ih =>
      obtain ⟨touched, rows, buried⟩ := placeService_spec clock head store
      obtain ⟨touchedRest, rowsRest, buriedRest⟩ := ih (placeService clock store head)
      exact ⟨touched.trans touchedRest, fun key => (rowsRest key).trans (rows key), buriedRest.trans buried⟩

def boundRow (formats : Formats) (id : String) (presence : CredentialPresence) (row : Row) : Row :=
  { row with document := boundDocument formats id presence row.document }

theorem bindService_spec (formats : Formats) (clock : Clock) (id : String) (store : Store) :
    Touches (fun key => key = (.service, id)) store (bindService formats clock store id) ∧
    (bindService formats clock store id).rows.lookup (.service, id) =
      (store.rows.lookup (.service, id)).map (boundRow formats id (credentialPresence store id)) ∧
    (bindService formats clock store id).subscriptions = store.subscriptions ∧
    (bindService formats clock store id).tombstones = store.tombstones := by
  unfold bindService
  split
  · rename_i missing
    exact ⟨Touches.refl _ _, by rw [missing]; rfl, rfl, rfl⟩
  · rename_i row found
    split
    · rename_i unread
      exact ⟨Touches.refl _ _, by simp [found, boundRow, boundDocument, unread], rfl, rfl⟩
    · rename_i rebound bound
      split
      · rename_i same
        exact ⟨Touches.refl _ _, by simp [found, boundRow, boundDocument, bound, same], rfl, rfl⟩
      · exact ⟨touches_putRow .., by rw [lookup_putRow, if_pos rfl]; simp [found, boundRow, boundDocument, bound], rfl,
          rfl⟩

theorem syncBindCredentialRefs_spec (formats : Formats) (clock : Clock) (store : Store) :
    Touches (fun key => key.1 = .service) store (syncBindCredentialRefs formats clock store) ∧
    (∀ id, (syncBindCredentialRefs formats clock store).rows.lookup (.service, id) =
      (store.rows.lookup (.service, id)).map (boundRow formats id (credentialPresence store id))) ∧
    (syncBindCredentialRefs formats clock store).tombstones = store.tombstones := by
  have loop : ∀ (ids : List String) (store : Store), ids.Nodup →
      Touches (fun key => key.1 = .service) store (ids.foldl (bindService formats clock) store) ∧
      (∀ id, (ids.foldl (bindService formats clock) store).rows.lookup (.service, id) =
        if id ∈ ids then (store.rows.lookup (.service, id)).map (boundRow formats id (credentialPresence store id))
        else store.rows.lookup (.service, id)) ∧
      (ids.foldl (bindService formats clock) store).tombstones = store.tombstones := by
    intro ids
    induction ids with
    | nil => exact fun store _ => ⟨Touches.refl _ _, fun id => rfl, rfl⟩
    | cons head rest ih =>
      intro store distinct
      obtain ⟨fresh, distinctRest⟩ := nodup_cons.mp distinct
      obtain ⟨touched, bound, logins, buried⟩ := bindService_spec formats clock head store
      obtain ⟨touchedRest, boundRest, buriedRest⟩ := ih (bindService formats clock store head) distinctRest
      refine ⟨(touched.mono (fun key same => same ▸ rfl)).trans touchedRest, fun id => ?_, buriedRest.trans buried⟩
      rw [foldl_cons, boundRest]
      by_cases same : id = head
      · subst same
        rw [if_neg fresh, if_pos (mem_cons_self ..), bound]
      · have row : (bindService formats clock store head).rows.lookup (.service, id) = store.rows.lookup (.service, id) :=
          touched.rows _ (fun met => same (Prod.mk.inj met).2)
        have presence : credentialPresence (bindService formats clock store head) id = credentialPresence store id := by
          have api := touched.rows (.serviceCredential, id) (by simp)
          have proxy := touched.rows (.serviceProxyCredential, id) (by simp)
          simp only [credentialPresence, api, proxy, logins]
        rw [row, presence]
        by_cases listed : id ∈ rest
        · rw [if_pos listed, if_pos (mem_cons_of_mem head listed)]
        · have unlisted : id ∉ head :: rest := by simp [same, listed]
          rw [if_neg listed, if_neg unlisted]
  obtain ⟨touched, bound, buried⟩ := loop (idsOf store .service) store (idsOf_nodup store .service)
  refine ⟨touched, fun id => (bound id).trans ?_, buried⟩
  by_cases listed : id ∈ idsOf store .service
  · rw [if_pos listed]
  · have missing : store.rows.lookup (.service, id) = none := by
      by_contra present
      exact listed (mem_idsOf.mpr present)
    rw [if_neg listed, missing]
    rfl

/-! ### The whole application -/

/-- What the priority list and the references are applied to, and what they leave. -/
def settleServices (formats : Formats) (clock : Clock) (scope : SyncScope) (order : List String) (store : Store) : Store :=
  syncBindCredentialRefs formats clock (if inScope scope .service then syncWriteOrder clock order store else store)

theorem settleServices_spec (formats : Formats) (clock : Clock) (scope : SyncScope) (order : List String) (store : Store) :
    Touches (fun key => key.1 = .service) store (settleServices formats clock scope order store) ∧
    (∀ id, ((settleServices formats clock scope order store).rows.lookup (.service, id)).map Row.document =
      (store.rows.lookup (.service, id)).map (fun row => boundDocument formats id (credentialPresence store id) row.document)) ∧
    (settleServices formats clock scope order store).tombstones = store.tombstones := by
  unfold settleServices
  have ordered : Touches (fun key => key.1 = .service) store
        (if inScope scope .service then syncWriteOrder clock order store else store) ∧
      (∀ key, ((if inScope scope .service then syncWriteOrder clock order store else store).rows.lookup key).map samePlace =
        (store.rows.lookup key).map samePlace) ∧
      (if inScope scope .service then syncWriteOrder clock order store else store).tombstones = store.tombstones := by
    split
    · exact syncWriteOrder_spec order store
    · exact ⟨Touches.refl _ _, fun key => rfl, rfl⟩
  obtain ⟨touched, rows, buried⟩ := ordered
  generalize (if inScope scope .service then syncWriteOrder clock order store else store) = placed at touched rows buried ⊢
  obtain ⟨touchedLast, bound, buriedLast⟩ := syncBindCredentialRefs_spec formats clock placed
  refine ⟨touched.trans touchedLast, fun id => ?_, buriedLast.trans buried⟩
  have presence : credentialPresence placed id = credentialPresence store id := by
    have api := touched.rows (.serviceCredential, id) (by simp)
    have proxy := touched.rows (.serviceProxyCredential, id) (by simp)
    have login := touched.subscriptions id (by simp [subscription])
    simp only [credentialPresence, api, proxy, login]
  have document := congrArg (Option.map Row.document) (rows (.service, id))
  simp only [Option.map_map, Function.comp_def, samePlace] at document
  rw [bound, presence, Option.map_map]
  cases left : placed.rows.lookup (Kind.service, id) <;> cases right : store.rows.lookup (Kind.service, id) <;>
    simp [left, right, boundRow] at document ⊢
  rw [document]

theorem apply_done {visit : List Key} (applied : apply formats clock scope visit merged store = (after, true)) :
    ∃ held written, currentEntities formats scope store = some held ∧
      writeEntities formats clock merged (writtenKeys scope visit merged) store = (written, true) ∧
      after = settleServices formats clock scope merged.order (deleteEntities clock merged held written) := by
  unfold apply at applied
  cases current : currentEntities formats scope store with
  | none => simp [current] at applied
  | some held =>
    rw [current] at applied
    dsimp only at applied
    rcases wrote : writeEntities formats clock merged (writtenKeys scope visit merged) store with ⟨written, _ | _⟩
    · simp [wrote] at applied
    · rw [wrote] at applied
      exact ⟨held, written, rfl, rfl, (Prod.mk.inj applied).1.symm⟩

theorem mem_currentEntities (current : currentEntities formats scope store = some held) :
    key ∈ held ↔ inScope scope key.1 = true ∧
      ∃ row, store.rows.lookup key = some row ∧ (readEntity formats store key row).join.isSome := by
  unfold currentEntities at current
  dsimp only at current
  split at current
  · cases current
  · cases current
    simp only [scopedRows, mem_filter, Option.isSome_iff_exists]
    constructor
    · rintro ⟨⟨listed, selected⟩, entity, read⟩
      cases found : store.rows.lookup key with
      | none => simp [found] at read
      | some row =>
        simp only [found, Option.bind_some] at read
        exact ⟨selected, row, rfl, entity, read⟩
    · rintro ⟨selected, row, found, entity, read⟩
      exact ⟨⟨mem_keys_of_lookup found, selected⟩, entity, by simp [found, read]⟩

theorem readable_of_currentEntities (current : currentEntities formats scope store = some held)
    (selected : inScope scope key.1 = true) (found : store.rows.lookup key = some row) :
    (readEntity formats store key row).isSome = true := by
  unfold currentEntities at current
  dsimp only at current
  split at current
  · cases current
  · rename_i readable
    by_contra unreadable
    refine readable (any_eq_true.mpr ⟨key, mem_filter.mpr ⟨mem_keys_of_lookup found, selected⟩, ?_⟩)
    simp only [found, Option.bind_some]
    simpa using unreadable

/-- Whether a device holds a credential once the package is applied. -/
def keepsCredential (scope : SyncScope) (merged : Document) (store : Store) (key : Key) : Bool :=
  if inScope scope key.1 then
    (live (merged.get key.1 key.2)).isSome || (store.rows.lookup key).any (fun row => row.secret.isNone)
  else (store.rows.lookup key).isSome

/-- The credentials a device holds for a service once the package is applied. -/
def presenceAfter (scope : SyncScope) (merged : Document) (store : Store) (id : String) : CredentialPresence where
  api := keepsCredential scope merged store (.serviceCredential, id)
  proxy := keepsCredential scope merged store (.serviceProxyCredential, id)
  subscription := decide (id ∈ store.subscriptions)

/-- A package without tombstones of the selected kinds, whose credentials have their services. -/
structure Tidy (scope : SyncScope) (merged : Document) : Prop where
  live : ∀ (key : Key) (entity : Entity), inScope scope key.1 = true → merged.get key.1 key.2 = some entity →
    entity.deleted = false
  owned : ∀ kind id, kind ∈ dependentKinds → merged.get kind id ≠ none → merged.get .service id ≠ none

section
variable {scope : SyncScope} {visit : List Key} {held : List Key} {loose : Bool}

variable {key : Key}

theorem Tidy.absent (tidy : Tidy scope merged) (selected : inScope scope key.1 = true)
    (hidden : Package.live (merged.get key.1 key.2) = none) : merged.get key.1 key.2 = none := by
  cases found : merged.get key.1 key.2 with
  | none => rfl
  | some entity =>
    have marked := live_eq_none.mp hidden entity found
    rw [tidy.live key entity selected found] at marked
    cases marked

section
variable (tidy : Tidy scope merged) (apart : loose = false → TokensApart formats merged store) (current : currentEntities formats scope store = some held) (wrote : writeEntities formats clock merged (writtenKeys scope visit merged) store = (written, true))
include tidy apart current wrote

theorem keepsCredential_spec
    (key : Key) (credential : key.1 ∈ [Kind.serviceCredential, .serviceProxyCredential])
    (kept : merged.get .service key.2 ≠ none) :
    ((deleteEntities clock merged held written).rows.lookup key).isSome = keepsCredential scope merged store key := by
  obtain ⟨touched, _, _, stored⟩ := writtenKeys_spec loose apart wrote
  have notToken : key.1 ≠ .accessToken := by
    rintro token
    rw [token] at credential
    exact absurd credential (by decide)
  have isCredential : isCredentialKind key.1 = true := by
    simp only [mem_cons, not_mem_nil, or_false] at credential
    rcases credential with named | named <;> rw [named] <;> rfl
  have undropped : (key ∈ held → merged.get key.1 key.2 ≠ none) →
      (deleteEntities clock merged held written).rows.lookup key = written.rows.lookup key := by
    intro stays
    refine (touches_deleteEntities clock merged held written).rows key ?_
    rintro (⟨listed, absent⟩ | ⟨_, _, absent⟩)
    · exact stays listed absent
    · exact kept absent
  have unwritten : Package.live (merged.get key.1 key.2) = none ∨ inScope scope key.1 = false →
      written.rows.lookup key = store.rows.lookup key := by
    intro passed
    refine touched.rows key ?_
    rintro (⟨selected, present⟩ | ⟨_, token⟩)
    · rcases passed with hidden | unselected
      · exact present hidden
      · rw [unselected] at selected
        cases selected
    · exact notToken token
  unfold keepsCredential
  by_cases selected : inScope scope key.1 = true
  · rw [if_pos selected]
    cases shows : Package.live (merged.get key.1 key.2) with
    | some entity =>
      have present : merged.get key.1 key.2 ≠ none := by simp [(live_eq_some.mp shows).1]
      rw [undropped (fun _ => present)]
      rcases stored rfl key entity selected (fun token => absurd token notToken) shows
          (fun pricing => by rw [pricing] at credential; exact absurd credential (by decide)) with
        ⟨row, found, _⟩ | ⟨_, skipped⟩
      · simp [found]
      · have refused : isCredentialKind key.1 = false := by
          revert skipped
          unfold Skips
          split
          · rename_i token
            exact absurd token notToken
          · exact And.left
        rw [isCredential] at refused
        cases refused
    | none =>
      have absent := tidy.absent selected shows
      have same := unwritten (.inl shows)
      simp only [Option.isSome_none, Bool.false_or]
      cases found : store.rows.lookup key with
      | none =>
        have gone := deleteEntities_missing clock merged held (same.trans found)
        simp [gone]
      | some row =>
        have readable := readable_of_currentEntities current selected found
        cases secret : row.secret with
        | none =>
          have unlisted : key ∉ held := by
            intro listed
            obtain ⟨_, other, again, read⟩ := (mem_currentEntities current).mp listed
            rw [found] at again
            cases again
            have closed : (readEntity formats store key row).join = none := by
              unfold readEntity
              simp only [mem_cons, not_mem_nil, or_false] at credential
              rcases credential with named | named <;> rw [named] <;> cases entityTime store key row <;> simp [secret]
            rw [closed] at read
            cases read
          rw [undropped (fun listed => absurd listed unlisted), same, found]
          simp [secret]
        | some value =>
          have listed : key ∈ held := by
            refine (mem_currentEntities current).mpr ⟨selected, row, found, ?_⟩
            unfold readEntity at readable ⊢
            simp only [mem_cons, not_mem_nil, or_false] at credential
            rcases credential with named | named <;> rw [named] at readable ⊢ <;> cases timed : entityTime store key row <;>
              simp [timed, secret] at readable ⊢
          have apartPolicy : key ≠ (.policy, defaultPrivacyPolicyId) := by
            rintro rfl
            exact absurd credential (by decide)
          have gone := (lookup_deleteEntities clock merged held written).2 key listed absent apartPolicy
          simp [gone, secret]
  · have unselected := Bool.eq_false_iff.mpr selected
    have unlisted : key ∉ held := fun listed => selected ((mem_currentEntities current).mp listed).1
    rw [if_neg selected, undropped (fun listed => absurd listed unlisted), unwritten (.inr unselected)]

theorem presenceAfter_spec
    {id : String} (kept : merged.get .service id ≠ none) :
    credentialPresence (deleteEntities clock merged held written) id = presenceAfter scope merged store id := by
  have api := keepsCredential_spec tidy apart current wrote (.serviceCredential, id) (by simp) kept
  have proxy := keepsCredential_spec tidy apart current wrote (.serviceProxyCredential, id) (by simp) kept
  have writes := (writtenKeys_spec loose apart wrote).1.subscriptions id (by
    rintro (⟨selected, _⟩ | ⟨_, token⟩)
    · simp [subscription, inScope] at selected
    · simp [subscription] at token)
  have deletions := (touches_deleteEntities clock merged held written).subscriptions id (by
    rintro (⟨listed, _⟩ | ⟨_, _, absent⟩)
    · have selected := ((mem_currentEntities current).mp listed).1
      simp [subscription, inScope] at selected
    · exact kept absent)
  simp only [credentialPresence, presenceAfter, api, proxy, deletions, writes]

end

/-! ### What one key holds at the end -/

theorem rowContent_of_unread (unread : readEntity formats store key row = some none) :
    rowContent formats key row = none := by
  obtain ⟨kind, id⟩ := key
  unfold readEntity at unread
  cases timed : entityTime store (kind, id) row with
  | none => simp [timed] at unread
  | some time => cases kind <;> cases secret : row.secret <;> simp [timed, secret, rowContent] at unread ⊢

variable {entity : Entity} {before : Option Row}

theorem stored_content (stored : Stored formats clock key entity before row) (apart : key.1 ≠ .service)
    (presence : CredentialPresence) :
    rowContent formats key row = storedContent formats clock presence key before entity := by
  obtain ⟨kind, id⟩ := key
  cases kind with
  | service => exact absurd rfl apart
  | accessToken =>
    obtain ⟨token, accepted, holds⟩ := stored
    rw [holds.2.2, storedContent, accepted, Option.bind_some]
  | policy =>
    have document : storedDocument formats (.policy, id) before entity.document = some row.document := stored
    simp [rowContent, storedContent, document]
  | pricingConfig =>
    have document : storedDocument formats (.pricingConfig, id) before entity.document = some row.document := stored
    simp [rowContent, storedContent, document]
  | _ =>
    obtain ⟨plaintext, opens, _, secret⟩ := stored
    simp [rowContent, storedContent, opens, secret]

theorem stored_bound {id : String} (stored : Stored formats clock (.service, id) entity before row)
    (presence : CredentialPresence) :
    rowContent formats (.service, id) { row with document := boundDocument formats id presence row.document } =
      storedContent formats clock presence (.service, id) before entity := by
  have document : storedDocument formats (.service, id) before entity.document = some row.document := stored
  simp [rowContent, storedContent, document]

theorem not_skips {presence : CredentialPresence} (selected : inScope scope key.1 = true)
    (stores : storedContent formats clock presence key before entity ≠ none) :
    ¬ Skips formats key entity before := by
  obtain ⟨kind, id⟩ := key
  intro skipped
  cases kind with
  | accessToken =>
    obtain ⟨content, holds⟩ := Option.ne_none_iff_exists'.mp stores
    obtain ⟨token, accepted, _⟩ := Option.bind_eq_some_iff.mp holds
    obtain ⟨plain, again, _⟩ := storedToken_stamp accepted 0
    have refused : storedToken formats 0 id entity = none := skipped
    rw [refused] at again
    cases again
  | service | policy | pricingConfig =>
    obtain ⟨_, missing⟩ := skipped
    exact stores (by simp [storedContent, missing])
  | serviceCredential | serviceProxyCredential | builtinToolCredential => simp [isCredentialKind, credentialKinds, Skips] at skipped
  | other name => simp [inScope] at selected

theorem apply_held (tidy : Tidy scope merged) (applied : apply formats clock scope visit merged store = (after, true))
    (selected : inScope scope key.1 = true) :
    (merged.get key.1 key.2 = none → (key = (.policy, defaultPrivacyPolicyId) → store.rows.lookup key = none) →
      Device.held formats after key = none) ∧
    (∀ entity, merged.get key.1 key.2 = some entity → Owned formats merged store key →
      (key.1 = .accessToken → TokensApart formats merged store) →
      storedContent formats clock (presenceAfter scope merged store key.2) key (store.rows.lookup key) entity ≠ none →
      Device.held formats after key =
        storedContent formats clock (presenceAfter scope merged store key.2) key (store.rows.lookup key) entity) := by
  obtain ⟨held, written, current, wrote, rfl⟩ := apply_done applied
  obtain ⟨settled, bound, _⟩ := settleServices_spec formats clock scope merged.order
    (deleteEntities clock merged held written)
  have deletions := touches_deleteEntities clock merged held written
  have afterRow : key.1 ≠ .service → Device.held formats
      (settleServices formats clock scope merged.order (deleteEntities clock merged held written)) key =
        Device.held formats (deleteEntities clock merged held written) key := by
    intro other
    simp only [Device.held, settled.rows key other]
  have emptied : (deleteEntities clock merged held written).rows.lookup key = none → Device.held formats
      (settleServices formats clock scope merged.order (deleteEntities clock merged held written)) key = none := by
    intro gone
    by_cases service : key.1 = .service
    · have named : key = (.service, key.2) := Prod.ext service rfl
      have document := bound key.2
      rw [← named, gone] at document
      have missing := Option.map_eq_none_iff.mp document
      simp [Device.held, missing]
    · rw [afterRow service]
      simp [Device.held, gone]
  constructor
  · intro absent fixed
    obtain ⟨touched, made, _, _⟩ := writtenKeys_spec true (fun strict => by cases strict) wrote
    by_cases listed : key ∈ held
    · have notPolicy : key ≠ (.policy, defaultPrivacyPolicyId) := by
        intro policy
        obtain ⟨_, row, found, _⟩ := (mem_currentEntities current).mp listed
        rw [fixed policy] at found
        cases found
      exact emptied ((lookup_deleteEntities clock merged held written).2 key listed absent notPolicy)
    · cases found : store.rows.lookup key with
      | none => exact emptied (deleteEntities_missing clock merged held ((made key (by simp [absent])).1 found))
      | some row =>
        -- a row that does not open is left where it is and holds nothing
        have unread : readEntity formats store key row = some none := by
          have readable := readable_of_currentEntities current selected found
          cases read : readEntity formats store key row with
          | none => simp [read] at readable
          | some content =>
            cases content with
            | none => rfl
            | some entity => exact absurd ((mem_currentEntities current).mpr ⟨selected, row, found, by simp [read]⟩) listed
        have kinds : key.1 ≠ .service ∧ key.1 ≠ .accessToken := by
          obtain ⟨kind, id⟩ := key
          refine ⟨?_, ?_⟩ <;> rintro rfl <;> simp only [readEntity] at unread
          · simp [entityTime] at unread
          · split at unread <;> [cases unread; (split at unread <;> cases unread)]
        have unwritten : written.rows.lookup key = store.rows.lookup key := by
          refine touched.rows key ?_
          rintro (⟨_, present⟩ | ⟨_, token⟩)
          · exact present (by simp [absent])
          · exact kinds.2 token
        rw [afterRow kinds.1]
        rcases (lookup_deleteEntities clock merged held written).1 key with gone | same
        · simp [Device.held, gone]
        · simp [Device.held, same, unwritten, found, rowContent_of_unread unread]
  · intro entity wanted owned tokens stores
    obtain ⟨loose, strict, apart⟩ : ∃ loose : Bool, (key.1 = .accessToken → loose = false) ∧
        (loose = false → TokensApart formats merged store) := by
      by_cases token : key.1 = .accessToken
      · exact ⟨false, fun _ => rfl, fun _ => tokens token⟩
      · exact ⟨true, fun met => absurd met token, fun met => by cases met⟩
    obtain ⟨_, _, _, stored⟩ := writtenKeys_spec loose apart wrote
    have live : Package.live (merged.get key.1 key.2) = some entity :=
      live_eq_some.mpr ⟨wanted, tidy.live key entity selected wanted⟩
    have undropped : ¬ Dropped merged held key := by
      rintro (⟨_, absent⟩ | ⟨cascading, _, absent⟩)
      · rw [wanted] at absent
        cases absent
      · refine tidy.owned key.1 key.2 ?_ (by simp [wanted]) absent
        simp only [cascades, mem_cons, not_mem_nil, or_false] at cascading
        rcases cascading with named | named | named
        · simp [dependentKinds, named]
        · simp [dependentKinds, named]
        · simp [named, subscription, inScope] at selected
    rcases stored rfl key entity selected strict live owned with ⟨row, found, put⟩ | ⟨_, skipped⟩
    · have row_after := (deletions.rows key undropped).trans found
      by_cases service : key.1 = .service
      · obtain ⟨kind, id⟩ := key
        cases service
        have kept : merged.get .service id ≠ none := by simp [wanted]
        have document := bound id
        rw [row_after, presenceAfter_spec tidy apart current wrote kept] at document
        obtain ⟨last, lastFound, lastDocument⟩ := Option.map_eq_some_iff.mp document
        rw [← stored_bound put]
        simp [Device.held, lastFound, rowContent, lastDocument]
      · rw [afterRow service, Device.held, row_after, Option.bind_some]
        exact stored_content put service _
    · exact absurd skipped (not_skips selected stores)

theorem apply_spares (applied : apply formats clock scope visit merged store = (after, true))
    (hidden : Package.live (merged.get key.1 key.2) = none) (missing : store.rows.lookup key = none) :
    after.rows.lookup key = none ∧ after.tombstones.lookup key = store.tombstones.lookup key := by
  obtain ⟨held, written, current, wrote, rfl⟩ := apply_done applied
  have unheld : key ∉ held := by
    intro listed
    obtain ⟨_, row, found, _⟩ := (mem_currentEntities current).mp listed
    rw [missing] at found
    cases found
  have writes := (writtenKeys_spec true (fun strict => by cases strict) wrote).2.1 key hidden
  have deletions := writes.trans (deleteEntities_spares clock merged unheld written)
  obtain ⟨settled, bound, buried⟩ := settleServices_spec formats clock scope merged.order
    (deleteEntities clock merged held written)
  refine ⟨?_, (congrArg (AList.lookup key) buried).trans deletions.2⟩
  have gone := deletions.1 missing
  by_cases service : key.1 = .service
  · obtain ⟨kind, id⟩ := key
    cases service
    have document := bound id
    rw [gone] at document
    exact Option.map_eq_none_iff.mp document
  · exact (settled.rows key service).trans gone

section
variable {J : Type} [DecidableEq J] (unmarshal : List UInt8 → Option J)

/-- This device can hold what the package says about a key. -/
def Storable (formats : Formats) (clock : Clock) (scope : SyncScope) (merged : Document) (store : Store) (key : Key) : Prop :=
  match merged.get key.1 key.2 with
  | none => key = (.policy, defaultPrivacyPolicyId) → store.rows.lookup key = none
  | some entity =>
    Owned formats merged store key ∧ (key.1 = .accessToken → TokensApart formats merged store) ∧
      Agree unmarshal (storedContent formats clock (presenceAfter scope merged store key.2) key (store.rows.lookup key) entity)
        (some entity)

instance (clock : Clock) (scope : SyncScope) (merged : Document) (store : Store) (key : Key) :
    Decidable (Storable unmarshal formats clock scope merged store key) := by
  unfold Storable
  split <;> infer_instance

theorem apply_stores (tidy : Tidy scope merged)
    (applied : apply formats clock scope visit merged store = (after, true)) (selected : inScope scope key.1 = true)
    (storable : Storable unmarshal formats clock scope merged store key) :
    Agree unmarshal (Device.held formats after key) (merged.get key.1 key.2) := by
  unfold Storable at storable
  cases wanted : merged.get key.1 key.2 with
  | none =>
    rw [wanted] at storable
    rw [(apply_held tidy applied selected).1 wanted storable]
    exact agree_refl unmarshal none
  | some entity =>
    rw [wanted] at storable
    obtain ⟨owned, tokens, agrees⟩ := storable
    have stores : storedContent formats clock (presenceAfter scope merged store key.2) key (store.rows.lookup key) entity ≠
        none := by
      intro nothing
      rw [nothing] at agrees
      have shows : live (some entity) = some entity := live_eq_some.mpr ⟨rfl, tidy.live key entity selected wanted⟩
      simp [Agree, shows, Same, differs] at agrees
    rw [(apply_held tidy applied selected).2 entity wanted owned tokens stores]
    exact agrees

end

section
variable {J : Type} [DecidableEq J] (unmarshal : List UInt8 → Option J)
variable {now : Nat} {base localDoc remote : Document} {hasBase remoteExists : Bool} {changed : List Key}

theorem publish_tidy :
    Tidy scope (publish unmarshal now scope base hasBase localDoc remote remoteExists changed).1 where
  live key entity selected found := by
    rw [publish_get] at found
    split at found
    · cases found
    · rw [compose_get_selected unmarshal selected] at found
      exact (live_eq_some.mp found).2
  owned kind id dependent found := by
    intro absent
    rw [publish_get_service] at absent
    rw [publish_get, if_pos ⟨dependent, absent⟩] at found
    exact found rfl

end

end

end

end AstrLink.Applying
