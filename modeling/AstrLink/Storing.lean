import AstrLink.Device

/-!
What the rows hold once a merged package is written into them. Every write touches a few keys (`Touches`), and
a row is decided by what it held and by the package (`storedContent`), unless access tokens compete
(`TokensApart`).
-/
namespace AstrLink.Storing
open Tables Package Merge Scope LocalStore Device List
open Option (bind_eq_some_iff bind_some some.inj)

/-- The table of the subscription logins, which no package carries. -/
def subscription : Kind := .other "subscription_credential"

/-- A write that changes some keys only, and logs what it changes. -/
structure Touches (touched : Key → Prop) (store written : Store) : Prop where
  rows : ∀ key, ¬ touched key → written.rows.lookup key = store.rows.lookup key
  logged : ∀ entry ∈ written.changeLog, entry ∈ store.changeLog ∨ touched entry.1
  tombstones : ∀ key, ¬ touched key → written.tombstones.lookup key = store.tombstones.lookup key
  subscriptions : ∀ id, ¬ touched (subscription, id) → (id ∈ written.subscriptions ↔ id ∈ store.subscriptions)
  baseline : written.baseline = store.baseline

namespace Touches
variable {touched wider : Key → Prop} {store written last : Store}

protected theorem refl (touched : Key → Prop) (store : Store) : Touches touched store store :=
  ⟨fun _ _ => rfl, fun _ listed => .inl listed, fun _ _ => rfl, fun _ _ => Iff.rfl, rfl⟩

theorem trans (first : Touches touched store written) (second : Touches touched written last) :
    Touches touched store last where
  rows key apart := (second.rows key apart).trans (first.rows key apart)
  logged entry listed := (second.logged entry listed).elim (first.logged entry) .inr
  tombstones key apart := (second.tombstones key apart).trans (first.tombstones key apart)
  subscriptions id apart := (second.subscriptions id apart).trans (first.subscriptions id apart)
  baseline := second.baseline.trans first.baseline

theorem mono (narrow : Touches touched store written) (within : ∀ key, touched key → wider key) :
    Touches wider store written where
  rows key apart := narrow.rows key (fun met => apart (within key met))
  logged entry listed := (narrow.logged entry listed).imp_right (within _)
  tombstones key apart := narrow.tombstones key (fun met => apart (within key met))
  subscriptions id apart := narrow.subscriptions id (fun met => apart (within _ met))
  baseline := narrow.baseline

theorem foldl {A : Type} {move : Store → A → Store} {items : List A}
    (each : ∀ item ∈ items, ∀ store, Touches touched store (move store item)) (store : Store) :
    Touches touched store (items.foldl move store) := by
  induction items generalizing store with
  | nil => exact Touches.refl touched store
  | cons head rest ih =>
    have now := each head (mem_cons_self ..) store
    exact now.trans (ih (fun item listed => each item (mem_cons_of_mem head listed)) (move store head))

end Touches

section
variable {clock : Clock} {key other : Key} {row : Row} {store written : Store}

theorem lookup_putRow (clock : Clock) (key other : Key) (row : Row) (store : Store) :
    (putRow clock key row store).rows.lookup other = if other = key then some row else store.rows.lookup other :=
  lookup_insert_if _ _ _ _

theorem lookup_deleteRow (clock : Clock) (key other : Key) (store : Store) :
    (deleteRow clock key store).rows.lookup other = if other = key then none else store.rows.lookup other := by
  unfold deleteRow
  by_cases present : (store.rows.lookup key).isSome = true
  · rw [if_pos present]
    exact lookup_erase_if _ _ _
  · rw [if_neg present]
    by_cases same : other = key
    · rw [if_pos same, same]
      exact Option.not_isSome_iff_eq_none.mp present
    · rw [if_neg same]

@[simp] theorem deleteRow_tombstones (clock : Clock) (key : Key) (store : Store) :
    (deleteRow clock key store).tombstones = store.tombstones := by
  unfold deleteRow
  split <;> rfl

private theorem touches_log (clock : Clock)
    (rows : ∀ other, other ≠ key → written.rows.lookup other = store.rows.lookup other)
    (log : written.changeLog = store.changeLog ++ [(key, clock.logged key)])
    (tombstones : written.tombstones = store.tombstones) (subscriptions : written.subscriptions = store.subscriptions)
    (baseline : written.baseline = store.baseline) : Touches (· = key) store written where
  rows := rows
  logged entry listed := by
    rw [log, mem_append, mem_singleton] at listed
    exact listed.imp_right (fun named => by rw [named])
  tombstones _ _ := by rw [tombstones]
  subscriptions _ _ := by rw [subscriptions]
  baseline := baseline

theorem touches_putRow (clock : Clock) (key : Key) (row : Row) (store : Store) :
    Touches (· = key) store (putRow clock key row store) :=
  touches_log clock (fun other apart => by rw [lookup_putRow, if_neg apart]) rfl rfl rfl rfl

theorem touches_deleteRow (clock : Clock) (key : Key) (store : Store) :
    Touches (· = key) store (deleteRow clock key store) := by
  unfold deleteRow
  split
  · exact touches_log clock (fun other apart => AList.lookup_erase_ne apart) rfl rfl rfl rfl
  · exact Touches.refl _ store

theorem touches_deleteTombstone (key : Key) (store : Store) : Touches (· = key) store (deleteTombstone key store) where
  rows _ _ := rfl
  logged _ listed := .inl listed
  tombstones _ apart := AList.lookup_erase_ne apart
  subscriptions _ _ := Iff.rfl
  baseline := rfl

theorem touches_putTombstone (key : Key) (deletedAt : Nat) (store : Store) :
    Touches (· = key) store (putTombstone key deletedAt store) where
  rows _ _ := rfl
  logged _ listed := .inl listed
  tombstones _ apart := AList.lookup_insert_ne apart
  subscriptions _ _ := Iff.rfl
  baseline := rfl

/-- A write that leaves one row as given: it puts the row, or finds it there. -/
def Wrote (clock : Clock) (key : Key) (row : Row) (store written : Store) : Prop :=
  written = putRow clock key row store ∨ (written = store ∧ store.rows.lookup key = some row)

theorem Wrote.lookup (wrote : Wrote clock key row store written) : written.rows.lookup key = some row := by
  rcases wrote with rfl | ⟨rfl, found⟩
  · rw [lookup_putRow, if_pos rfl]
  · exact found

theorem Wrote.touches (wrote : Wrote clock key row store written) : Touches (· = key) store written := by
  rcases wrote with rfl | ⟨rfl, _⟩
  · exact touches_putRow clock key row store
  · exact Touches.refl _ _

end

/-! ### What a row is written as -/

variable {key : Key}

section
variable (formats : Formats)

/-- The document a row holds after a write; one that reads as the merged one stays. -/
def storedDocument (key : Key) (row : Option Row) (document : List UInt8) : Option (List UInt8) :=
  match key.1 with
  | .service =>
    (formats.normalizeService key.2 document).map (fun encoded =>
      match row with
      | none => encoded
      | some row =>
        if row.document = encoded ∨ formats.normalizeService key.2 row.document = some encoded then row.document
        else formats.keepPlan row.document encoded)
  | .policy =>
    if key.2 ≠ defaultPrivacyPolicyId then none
    else
      row.bind (fun row => (formats.normalizePolicy document).map (fun encoded =>
        if row.document = encoded ∨ formats.normalizePolicy row.document = some encoded then row.document else encoded))
  | .pricingConfig =>
    if !formats.validServiceId key.2 then none
    else
      (formats.normalizePricingConfig document).map (fun encoded =>
        match row with
        | none => encoded
        | some row =>
          if row.document = encoded ∨ formats.normalizePricingConfig row.document = some encoded then row.document
          else encoded)
  | _ => none

/-- The row of an access token when nothing stands in its way. -/
def storedToken (stamp : Nat) (id : String) (entity : Entity) : Option Row :=
  (formats.decodeSecret entity.secret).bind (fun value =>
    if !formats.validTokenId id || !formats.validTokenValue value then none
    else
      (formats.decodeToken entity.document).bind (fun synced =>
        (formats.normalizeTokenName synced.name).bind (fun name =>
          if !formats.validTokenSource synced.source then none
          else
            some { name := name, source := synced.source,
                   updatedAt := if synced.createdAt = 0 then stamp else synced.createdAt,
                   digest := formats.digest value, secret := some value })))

/-- The references a service's document is given when it is bound. -/
def boundDocument (id : String) (presence : CredentialPresence) (document : List UInt8) : List UInt8 :=
  (formats.rebindServiceRefs id document presence).getD document

/-- What a device holds for a key once a merged entity was written over its row. -/
def storedContent (clock : Clock) (presence : CredentialPresence) (key : Key) (row : Option Row) (entity : Entity) :
    Option Entity :=
  match key.1 with
  | .service =>
    (storedDocument formats key row entity.document).map (fun document =>
      ⟨0, 0, false, formats.dropPlan (boundDocument formats key.2 presence document), ""⟩)
  | .policy | .pricingConfig =>
    (storedDocument formats key row entity.document).map (fun document => ⟨0, 0, false, document, ""⟩)
  | .accessToken => (storedToken formats (clock.updated key) key.2 entity).bind (rowContent formats key)
  | _ =>
    ((formats.decodeSecret entity.secret).filter (fun value => !value.isEmpty)).map (fun value =>
      ⟨0, 0, false, [], formats.encodeSecret value⟩)

def tokenOf (merged : Document) (id : String) : Option Row :=
  (merged.get .accessToken id).bind (storedToken formats 0 id)

/-- No merged access token wants a name or a value that another one has. -/
def TokensApart (merged : Document) (store : Store) : Prop :=
  ∀ key ∈ merged.entities.keys, ∀ token ∈ tokenOf formats merged key.2,
    (∀ other ∈ idsOf store .accessToken, other ≠ key.2 → ∀ row ∈ store.rows.lookup (.accessToken, other),
      formats.foldTokenName row.name ≠ formats.foldTokenName token.name ∧ row.digest ≠ token.digest) ∧
    (∀ other ∈ merged.entities.keys, other.2 ≠ key.2 → ∀ otherToken ∈ tokenOf formats merged other.2,
      formats.foldTokenName otherToken.name ≠ formats.foldTokenName token.name ∧ otherToken.digest ≠ token.digest)

instance (merged : Document) (store : Store) : Decidable (TokensApart formats merged store) := by
  unfold TokensApart
  infer_instance

variable {formats} {clock : Clock} {store written : Store}

variable {kind : Kind} {id : String} {document : List UInt8}

theorem syncWriteEntity_ok (ok : syncWriteEntity formats clock kind id document store = .ok written) :
    (∃ row, Wrote clock (kind, id) row store written ∧
      storedDocument formats (kind, id) (store.rows.lookup (kind, id)) document = some row.document) ∨
    (written = store ∧ (storedDocument formats (kind, id) (store.rows.lookup (kind, id)) document = none ∨
      kind = .pricingConfig ∧ store.rows.lookup (.service, id) = none)) := by
  unfold syncWriteEntity at ok
  split at ok
  · -- a service
    unfold syncWriteService at ok
    left
    cases encoded : formats.normalizeService id document with
    | none => simp [encoded] at ok
    | some content =>
      simp only [encoded] at ok
      cases found : store.rows.lookup (Kind.service, id) with
      | none =>
        simp only [found, Except.ok.injEq] at ok
        exact ⟨_, .inl ok.symm, by simp [storedDocument, encoded]⟩
      | some row =>
        simp only [found] at ok
        split at ok
        · rename_i same
          simp only [Except.ok.injEq] at ok
          exact ⟨row, .inr ⟨ok.symm, found⟩, by simp [storedDocument, encoded, same]⟩
        · rename_i apart
          simp only [Except.ok.injEq] at ok
          exact ⟨_, .inl ok.symm, by simp [storedDocument, encoded, apart]⟩
  · unfold syncWritePolicy at ok
    by_cases fixed : id = defaultPrivacyPolicyId
    · subst fixed
      simp only [ne_eq, not_true_eq_false, if_false] at ok
      cases encoded : formats.normalizePolicy document with
      | none => simp [encoded] at ok
      | some content =>
        simp only [encoded] at ok
        cases found : store.rows.lookup (Kind.policy, defaultPrivacyPolicyId) with
        | none =>
          simp only [found, Except.ok.injEq] at ok
          exact .inr ⟨ok.symm, .inl (by simp [storedDocument])⟩
        | some row =>
          simp only [found] at ok
          left
          split at ok
          · rename_i same
            simp only [Except.ok.injEq] at ok
            exact ⟨row, .inr ⟨ok.symm, found⟩, by simp [storedDocument, encoded, same]⟩
          · rename_i apart
            simp only [Except.ok.injEq] at ok
            exact ⟨_, .inl ok.symm, by simp [storedDocument, encoded, apart]⟩
    · simp [fixed] at ok
  · unfold syncWritePricingConfig at ok
    cases encoded : formats.normalizePricingConfig document with
    | none => simp [encoded] at ok
    | some content =>
      simp only [encoded] at ok
      cases valid : formats.validServiceId id with
      | false => simp [valid] at ok
      | true =>
        simp only [valid, Bool.not_true, Bool.false_eq_true, if_false] at ok
        cases owner : store.rows.lookup (Kind.service, id) with
        | none =>
          simp only [owner, Except.ok.injEq] at ok
          exact .inr ⟨ok.symm, .inr ⟨rfl, rfl⟩⟩
        | some service =>
          simp only [owner] at ok
          left
          cases readable : formats.readService id service.document with
          | false => simp [readable] at ok
          | true =>
            simp only [readable, Bool.not_true, Bool.false_eq_true, if_false] at ok
            cases found : store.rows.lookup (Kind.pricingConfig, id) with
            | none =>
              simp only [found, Except.ok.injEq] at ok
              exact ⟨_, .inl ok.symm, by simp [storedDocument, valid, encoded]⟩
            | some row =>
              simp only [found] at ok
              split at ok
              · rename_i same
                simp only [Except.ok.injEq] at ok
                exact ⟨row, .inr ⟨ok.symm, found⟩, by simp [storedDocument, valid, encoded, same]⟩
              · rename_i apart
                simp only [Except.ok.injEq] at ok
                exact ⟨_, .inl ok.symm, by simp [storedDocument, valid, encoded, apart]⟩
  · cases ok

theorem syncImportCredential_ok {plaintext : List UInt8}
    (ok : syncImportCredential clock kind id plaintext store = .ok written) :
    plaintext.isEmpty = false ∧ ∃ row, Wrote clock (kind, id) row store written ∧ row.secret = some plaintext := by
  unfold syncImportCredential at ok
  cases empty : plaintext.isEmpty with
  | true => simp [empty] at ok
  | false =>
    refine ⟨rfl, ?_⟩
    simp only [empty, Bool.false_eq_true, if_false] at ok
    by_cases same : (store.rows.lookup (kind, id)).bind Row.secret = some plaintext
    · rw [if_pos same] at ok
      obtain ⟨row, found, secret⟩ := bind_eq_some_iff.mp same
      exact ⟨row, .inr ⟨(Except.ok.inj ok).symm, found⟩, secret⟩
    · rw [if_neg same] at ok
      split at ok
      · cases ok
      · exact ⟨_, .inl (Except.ok.inj ok).symm, rfl⟩

theorem syncWriteEntity_refused (refused : syncWriteEntity formats clock kind id document store = .error .refused) :
    storedDocument formats (kind, id) (store.rows.lookup (kind, id)) document = none := by
  unfold syncWriteEntity at refused
  split at refused
  · unfold syncWriteService at refused
    cases encoded : formats.normalizeService id document with
    | none => simp [storedDocument, encoded]
    | some content =>
      simp only [encoded] at refused
      split at refused
      · cases refused
      · split at refused <;> cases refused
  · unfold syncWritePolicy at refused
    by_cases fixed : id = defaultPrivacyPolicyId
    · subst fixed
      simp only [ne_eq, not_true_eq_false, if_false] at refused
      cases encoded : formats.normalizePolicy document with
      | none => simp [storedDocument, encoded]
      | some content =>
        simp only [encoded] at refused
        split at refused
        · cases refused
        · split at refused <;> cases refused
    · simp [storedDocument, fixed]
  · unfold syncWritePricingConfig at refused
    cases encoded : formats.normalizePricingConfig document with
    | none => simp [storedDocument, encoded]
    | some content =>
      simp only [encoded] at refused
      cases valid : formats.validServiceId id with
      | false => simp [storedDocument, valid]
      | true =>
        simp only [valid, Bool.not_true, Bool.false_eq_true, if_false] at refused
        split at refused
        · cases refused
        · split at refused
          · cases refused
          · split at refused
            · cases refused
            · split at refused <;> cases refused
  · rename_i notService notPolicy notPricing
    unfold storedDocument
    split
    · rename_i met
      exact (notService met).elim
    · rename_i met
      exact (notPolicy met).elim
    · rename_i met
      exact (notPricing met).elim
    · rfl

theorem idsOf_nodup (store : Store) (kind : Kind) : (idsOf store kind).Nodup := by
  refine Nodup.map_on ?_ (store.rows.nodupKeys.filter _)
  intro first firstListed second secondListed same
  have kindOf : ∀ key : Key, key ∈ store.rows.keys.filter (fun key => key.1 = kind) → key.1 = kind :=
    fun key listed => of_decide_eq_true (mem_filter.mp listed).2
  exact Prod.ext ((kindOf first firstListed).trans (kindOf second secondListed).symm) same

theorem mem_idsOf : id ∈ idsOf store kind ↔ store.rows.lookup (kind, id) ≠ none := by
  simp only [idsOf, mem_map, mem_filter, decide_eq_true_eq]
  constructor
  · rintro ⟨key, ⟨listed, rfl⟩, rfl⟩ missing
    exact AList.lookup_eq_none.mp missing (AList.mem_keys.mpr listed)
  · intro found
    exact ⟨(kind, id), ⟨mem_keys_of_ne_none found, rfl⟩, rfl⟩

/-- The rows of the other tokens have another name and another value. -/
def Apart (formats : Formats) (id : String) (token : Row) (store : Store) : Prop :=
  ∀ other row, other ≠ id → store.rows.lookup (.accessToken, other) = some row →
    formats.foldTokenName row.name ≠ formats.foldTokenName token.name ∧ row.digest ≠ token.digest

variable {token : Row}

theorem uniqueAccessTokenName_apart (apart : Apart formats id token store) :
    uniqueAccessTokenName formats clock id token.name store = .ok (token.name, store) := by
  unfold uniqueAccessTokenName
  cases holding : accessTokenNameHolder formats store (formats.foldTokenName token.name) with
  | none => rfl
  | some holder =>
    have same : holder = id := by
      by_contra other
      have named := find?_some holding
      obtain ⟨row, found, folded⟩ := Option.map_eq_some_iff.mp (of_decide_eq_true named)
      exact (apart holder row other found).1 folded
    simp [same]

theorem dropDuplicateTokens_apart (apart : Apart formats id token store) :
    dropDuplicateTokens clock id token.digest store = store := by
  unfold dropDuplicateTokens
  have none_listed : (idsOf store .accessToken).filter (fun other => other ≠ id ∧
      ((store.rows.lookup (.accessToken, other)).map Row.digest) = some token.digest) = [] := by
    rw [filter_eq_nil_iff]
    intro other _ duplicate
    obtain ⟨different, digest⟩ := of_decide_eq_true duplicate
    obtain ⟨row, found, same⟩ := Option.map_eq_some_iff.mp digest
    exact (apart other row different found).2 same
  rw [none_listed]
  rfl

def HoldsToken (formats : Formats) (key : Key) (token row : Row) : Prop :=
  row.name = token.name ∧ row.digest = token.digest ∧ rowContent formats key row = rowContent formats key token

variable {entity : Entity} {value : List UInt8}

theorem syncWriteAccessToken_ok (opens : formats.decodeSecret entity.secret = some value)
    (apart : ∀ token, storedToken formats (clock.updated (.accessToken, id)) id entity = some token →
      Apart formats id token store)
    (ok : syncWriteAccessToken formats clock id entity.document value store = .ok written) :
    ∃ token row, storedToken formats (clock.updated (.accessToken, id)) id entity = some token ∧
      HoldsToken formats (.accessToken, id) token row ∧ Wrote clock (.accessToken, id) row store written := by
  unfold syncWriteAccessToken at ok
  split at ok
  · cases ok
  · rename_i valid
    cases decoded : formats.decodeToken entity.document with
    | none => simp [decoded] at ok
    | some synced =>
      simp only [decoded] at ok
      cases named : formats.normalizeTokenName synced.name with
      | none => simp [named] at ok
      | some name =>
        simp only [named] at ok
        split at ok
        · cases ok
        · rename_i source
          generalize created : (if synced.createdAt = 0 then clock.updated (Kind.accessToken, id)
            else synced.createdAt) = createdAt at ok
          have stored : storedToken formats (clock.updated (.accessToken, id)) id entity =
              some ⟨[], some value, createdAt, 0, name, synced.source, formats.digest value⟩ := by
            simp only [storedToken, opens, bind_some, if_neg valid, decoded, named, if_neg source, created]
          have alone := apart _ stored
          split at ok
          · rename_i unchanged
            unfold accessTokenUnchanged at unchanged
            split at unchanged
            · cases unchanged
            · rename_i row found
              have holds := of_decide_eq_true unchanged
              refine ⟨_, row, stored, ⟨holds.1, holds.2.2.1, ?_⟩, .inr ⟨(Except.ok.inj ok).symm, found⟩⟩
              simp [rowContent, holds.1, holds.2.1, holds.2.2.2.1, holds.2.2.2.2]
          · have free : uniqueAccessTokenName formats clock id name store = .ok (name, store) :=
              uniqueAccessTokenName_apart alone
            have drop : dropDuplicateTokens clock id (formats.digest value) store = store :=
              dropDuplicateTokens_apart alone
            rw [free] at ok
            dsimp only at ok
            rw [drop] at ok
            exact ⟨_, _, stored, ⟨rfl, rfl, rfl⟩, .inl (Except.ok.inj ok).symm⟩

theorem syncWriteAccessToken_refused (stamp : Nat) (opens : formats.decodeSecret entity.secret = some value)
    (refused : syncWriteAccessToken formats clock id entity.document value store = .error .refused) :
    storedToken formats stamp id entity = none := by
  unfold syncWriteAccessToken at refused
  split at refused
  · rename_i invalid
    simp only [storedToken, opens, bind_some, invalid, if_true]
  · cases decoded : formats.decodeToken entity.document with
    | none => simp [storedToken, opens, decoded]
    | some synced =>
      simp only [decoded] at refused
      cases named : formats.normalizeTokenName synced.name with
      | none => simp [storedToken, opens, decoded, named]
      | some name =>
        simp only [named] at refused
        split at refused
        · rename_i source
          simp only [storedToken, opens, bind_some, decoded, named, if_pos source, ite_self]
        · generalize (if synced.createdAt = 0 then clock.updated (Kind.accessToken, id) else synced.createdAt) =
            createdAt at refused
          split at refused
          · cases refused
          · have failing : ∀ error, uniqueAccessTokenName formats clock id name store = .error error →
                error = .failed := by
              intro error failed
              unfold uniqueAccessTokenName at failed
              split at failed
              · cases failed
              · split at failed
                · cases failed
                · split at failed
                  · split at failed
                    · split at failed
                      · exact (Except.error.inj failed).symm
                      · cases failed
                    · exact (Except.error.inj failed).symm
                  · split at failed
                    · cases failed
                    · exact (Except.error.inj failed).symm
            split at refused
            · rename_i error failed
              exact absurd ((failing error failed).symm.trans (Except.error.inj refused)) (by decide)
            · cases refused

theorem storedToken_stamp {stamp : Nat} (stored : storedToken formats stamp id entity = some token) (other : Nat) :
    ∃ again, storedToken formats other id entity = some again ∧ again.name = token.name ∧ again.digest = token.digest := by
  simp only [storedToken, bind_eq_some_iff] at stored
  obtain ⟨value, opens, stored⟩ := stored
  split at stored
  · cases stored
  · rename_i valid
    obtain ⟨synced, decoded, name, named, stored⟩ := by simpa only [bind_eq_some_iff] using stored
    split at stored
    · cases stored
    · rename_i source
      cases stored
      refine ⟨⟨[], some value, if synced.createdAt = 0 then other else synced.createdAt, 0, name, synced.source,
        formats.digest value⟩, ?_, rfl, rfl⟩
      simp only [storedToken, opens, bind_some, if_neg valid, decoded, named, if_neg source]

/-! ### Writing the entities of a package -/

variable (formats clock)

/-- The row holds the entity that was written over what it held before. -/
def Stored (key : Key) (entity : Entity) (before : Option Row) (row : Row) : Prop :=
  match key.1 with
  | .service | .policy | .pricingConfig => storedDocument formats key before entity.document = some row.document
  | .accessToken => ∃ token, storedToken formats (clock.updated key) key.2 entity = some token ∧ HoldsToken formats key token row
  | _ => ∃ plaintext, formats.decodeSecret entity.secret = some plaintext ∧ plaintext.isEmpty = false ∧
      row.secret = some plaintext

/-- This build does not store the entity, and the merge goes on without it. -/
def Skips (key : Key) (entity : Entity) (before : Option Row) : Prop :=
  match key.1 with
  | .accessToken => storedToken formats 0 key.2 entity = none
  | _ => isCredentialKind key.1 = false ∧ storedDocument formats key before entity.document = none

variable {formats clock}

theorem writeEntity_some
    (apart : key.1 = .accessToken → ∀ token, storedToken formats (clock.updated key) key.2 entity = some token → Apart formats key.2 token store)
    (wrote : writeEntity formats clock key entity store = some written) :
    Touches (· = key) store written ∧
      ((∃ row, written.rows.lookup key = some row ∧ Stored formats clock key entity (store.rows.lookup key) row) ∨
        (written.rows.lookup key = store.rows.lookup key ∧
          (Skips formats key entity (store.rows.lookup key) ∨
            key.1 = .pricingConfig ∧ store.rows.lookup (.service, key.2) = none))) := by
  have settled : ∀ middle row, Wrote clock key row store middle → written = deleteTombstone key middle →
      Touches (· = key) store written ∧ written.rows.lookup key = some row := by
    rintro middle row put rfl
    exact ⟨put.touches.trans (touches_deleteTombstone key middle), put.lookup⟩
  obtain ⟨kind, id⟩ := key
  unfold writeEntity at wrote
  by_cases token : kind = .accessToken
  · subst token
    simp only [if_true] at wrote
    split at wrote
    · cases wrote
    · split at wrote
      · cases wrote
      · rename_i value opens
        unfold settle at wrote
        split at wrote
        · rename_i middle ok
          obtain ⟨stored, row, accepted, holds, put⟩ := syncWriteAccessToken_ok opens (apart rfl) ok
          obtain ⟨touched, found⟩ := settled middle row put (some.inj wrote).symm
          exact ⟨touched, .inl ⟨row, found, stored, accepted, holds⟩⟩
        · rename_i refused
          cases wrote
          exact ⟨Touches.refl _ _, .inr ⟨rfl, .inl (syncWriteAccessToken_refused 0 opens refused)⟩⟩
        · cases wrote
  · simp only [token, if_false] at wrote
    by_cases credential : isCredentialKind kind = true
    · simp only [credential, if_true] at wrote
      split at wrote
      · cases wrote
      · rename_i plaintext opens
        split at wrote
        · rename_i middle ok
          obtain ⟨filled, row, put, secret⟩ := syncImportCredential_ok ok
          obtain ⟨touched, found⟩ := settled middle row put (some.inj wrote).symm
          refine ⟨touched, .inl ⟨row, found, ?_⟩⟩
          have listed : kind ∈ credentialKinds := of_decide_eq_true credential
          simp only [credentialKinds, mem_cons, not_mem_nil, or_false] at listed
          rcases listed with rfl | rfl | rfl <;> exact ⟨plaintext, opens, filled, secret⟩
        · cases wrote
    · simp only [Bool.not_eq_true] at credential
      simp only [credential, Bool.false_eq_true, if_false] at wrote
      split at wrote
      · cases wrote
      · have skips : storedDocument formats (kind, id) (store.rows.lookup (kind, id)) entity.document = none →
            Skips formats (kind, id) entity (store.rows.lookup (kind, id)) := by
          intro unstored
          cases kind <;> first | exact ⟨credential, unstored⟩ | exact absurd rfl token
        unfold settle at wrote
        split at wrote
        · rename_i middle ok
          rcases syncWriteEntity_ok ok with ⟨row, put, stored⟩ | ⟨same, missing⟩
          · obtain ⟨touched, found⟩ := settled middle row put (some.inj wrote).symm
            refine ⟨touched, .inl ⟨row, found, ?_⟩⟩
            cases kind <;> first | exact stored | exact absurd rfl token | simp [storedDocument] at stored
          · subst same
            cases wrote
            exact ⟨touches_deleteTombstone _ _, .inr ⟨rfl, missing.imp_left skips⟩⟩
        · rename_i refused
          cases wrote
          exact ⟨Touches.refl _ _, .inr ⟨rfl, .inl (skips (syncWriteEntity_refused refused))⟩⟩
        · cases wrote

variable {merged : Document}

theorem TokensApart.apart {stamp : Nat} (apart : TokensApart formats merged store)
    (listed : merged.get .accessToken id = some entity) (stored : storedToken formats stamp id entity = some token) :
    Apart formats id token store := by
  obtain ⟨plain, plainStored, name, digest⟩ := storedToken_stamp stored 0
  have wanted : tokenOf formats merged id = some plain := by rw [tokenOf, listed, bind_some, plainStored]
  intro other row different found
  rw [← name, ← digest]
  exact (apart (.accessToken, id) (mem_keys_of_lookup listed) plain wanted).1 other (mem_idsOf.mpr (by simp [found]))
    different row found

theorem TokensApart.writeEntity (apart : TokensApart formats merged store)
    (listed : merged.get key.1 key.2 = some entity) (touched : Touches (· = key) store written)
    (left : (∃ row, written.rows.lookup key = some row ∧ Stored formats clock key entity (store.rows.lookup key) row) ∨ written.rows.lookup key = store.rows.lookup key) :
    TokensApart formats merged written := by
  intro wanted wantedListed token stored
  obtain ⟨rows, package⟩ := apart wanted wantedListed token stored
  refine ⟨fun other _ different row found => ?_, package⟩
  have before : store.rows.lookup (.accessToken, other) = some row →
      formats.foldTokenName row.name ≠ formats.foldTokenName token.name ∧ row.digest ≠ token.digest :=
    fun held => rows other (mem_idsOf.mpr (by simp [held])) different row held
  by_cases named : (Kind.accessToken, other) = key
  · subst named
    rcases left with ⟨put, now, again, accepted, holds⟩ | same
    · obtain ⟨plain, plainStored, name, digest⟩ := storedToken_stamp accepted 0
      have row_eq : row = put := some.inj (found.symm.trans now)
      rw [row_eq, holds.1, holds.2.1, ← name, ← digest]
      refine package (.accessToken, other) (mem_keys_of_lookup listed) different plain ?_
      rw [tokenOf, listed, bind_some, plainStored]
      rfl
    · exact before (same ▸ found)
  · exact before ((touched.rows _ named) ▸ found)

/-- A write that gives a key no row and leaves its tombstone. -/
def Spares (key : Key) (store written : Store) : Prop :=
  (store.rows.lookup key = none → written.rows.lookup key = none) ∧
    written.tombstones.lookup key = store.tombstones.lookup key

theorem Spares.refl (key : Key) (store : Store) : Spares key store store := ⟨fun missing => missing, rfl⟩

theorem Spares.trans {last : Store} (first : Spares key store written) (second : Spares key written last) :
    Spares key store last :=
  ⟨fun missing => second.1 (first.1 missing), second.2.trans first.2⟩

theorem Touches.spares {touched : Key → Prop} (narrow : Touches touched store written) (apart : ¬ touched key) :
    Spares key store written :=
  ⟨fun missing => (narrow.rows key apart).trans missing, narrow.tombstones key apart⟩

theorem uniqueAccessTokenName_cases {name free : String}
    (named : uniqueAccessTokenName formats clock id name store = .ok (free, written)) :
    written = store ∨ ∃ holder row moved, store.rows.lookup (.accessToken, holder) = some row ∧
      written = putRow clock (.accessToken, holder) { row with name := moved } store := by
  unfold uniqueAccessTokenName at named
  split at named
  · cases named
    exact .inl rfl
  split at named
  · cases named
    exact .inl rfl
  split at named
  · split at named
    · rename_i moved row _ found
      split at named
      · cases named
      · cases named
        exact .inr ⟨_, row, moved, found, rfl⟩
    · cases named
  · split at named
    · cases named
      exact .inl rfl
    · cases named

theorem touches_writeAccessToken (ok : syncWriteAccessToken formats clock id document value store = .ok written) :
    Touches (fun key => key.1 = .accessToken) store written ∧
      ∀ key, key ≠ (.accessToken, id) → Spares key store written := by
  have renamed : ∀ name free last, uniqueAccessTokenName formats clock id name store = .ok (free, last) →
      Touches (fun key => key.1 = .accessToken) store last ∧ ∀ key, Spares key store last := by
    intro name free last named
    rcases uniqueAccessTokenName_cases named with rfl | ⟨holder, row, moved, found, rfl⟩
    · exact ⟨Touches.refl _ _, fun key => Spares.refl key _⟩
    · refine ⟨(touches_putRow ..).mono (fun key same => same ▸ rfl), fun key => ⟨fun missing => ?_, rfl⟩⟩
      rw [lookup_putRow]
      split
      · rename_i same
        rw [same, found] at missing
        cases missing
      · exact missing
  have dropped : ∀ (others : List String) (store : Store) (key : Key),
      Spares key store (others.foldl (fun store other => deleteRow clock (.accessToken, other) store) store) := by
    intro others
    induction others with
    | nil => exact fun store key => Spares.refl key store
    | cons head rest ih =>
      intro store key
      refine Spares.trans ⟨fun missing => ?_, ?_⟩ (ih _ key)
      · rw [lookup_deleteRow]
        split
        · rfl
        · exact missing
      · exact congrArg (AList.lookup key) (deleteRow_tombstones clock (.accessToken, head) store)
  unfold syncWriteAccessToken at ok
  split at ok
  · cases ok
  · split at ok
    · cases ok
    · split at ok
      · cases ok
      · split at ok
        · cases ok
        · rename_i synced _ _ name _ _
          generalize (if synced.createdAt = 0 then clock.updated (Kind.accessToken, id) else synced.createdAt) =
            createdAt at ok
          dsimp only at ok
          split at ok
          · cases ok
            exact ⟨Touches.refl _ _, fun key _ => Spares.refl key _⟩
          · split at ok
            · cases ok
            · rename_i free last unique
              cases ok
              obtain ⟨touched, made⟩ := renamed _ _ _ unique
              constructor
              · refine touched.trans (Touches.trans ?_ ((touches_putRow ..).mono (fun key same => same ▸ rfl)))
                exact Touches.foldl (fun other _ store => (touches_deleteRow ..).mono (fun key same => same ▸ rfl)) last
              · intro key other
                refine (made key).trans ((dropped _ _ key).trans ⟨fun missing => ?_, rfl⟩)
                rw [lookup_putRow, if_neg other]
                exact missing

theorem touches_writeEntity (token : key.1 = .accessToken)
    (wrote : writeEntity formats clock key entity store = some written) :
    Touches (fun key => key.1 = .accessToken) store written ∧ ∀ other, other ≠ key → Spares other store written := by
  have named : key = (.accessToken, key.2) := Prod.ext token rfl
  simp only [writeEntity, token, if_true] at wrote
  split at wrote
  · cases wrote
  · split at wrote
    · cases wrote
    · unfold settle at wrote
      split at wrote
      · rename_i middle ok
        cases wrote
        obtain ⟨touched, made⟩ := touches_writeAccessToken ok
        exact ⟨touched.trans ((touches_deleteTombstone key middle).mono (fun other same => same ▸ token)),
          fun other apart => (made other (named ▸ apart)).trans ((touches_deleteTombstone key middle).spares apart)⟩
      · cases wrote
        exact ⟨Touches.refl _ _, fun other _ => Spares.refl other _⟩
      · cases wrote

def WriteTouches (loose : Bool) (merged : Document) (listed : Key → Prop) (key : Key) : Prop :=
  (listed key ∧ live (merged.get key.1 key.2) ≠ none) ∨ (loose = true ∧ key.1 = .accessToken)

theorem writeEntities_spec {keys : List Key} (distinct : keys.Nodup) {done : Bool} (loose : Bool)
    (apart : loose = false → TokensApart formats merged store)
    (wrote : writeEntities formats clock merged keys store = (written, done)) :
    Touches (WriteTouches loose merged (· ∈ keys)) store written ∧
    (∀ key, live (merged.get key.1 key.2) = none → Spares key store written) ∧
    (∀ key, (key.1 = .accessToken → loose = false) → store.rows.lookup key ≠ none → written.rows.lookup key ≠ none) ∧
    (loose = false → TokensApart formats merged written) ∧
    (done = true → ∀ key ∈ keys, (key.1 = .accessToken → loose = false) →
      ∀ entity, live (merged.get key.1 key.2) = some entity →
      (key.1 = .pricingConfig → store.rows.lookup (.service, key.2) ≠ none) →
      (∃ row, written.rows.lookup key = some row ∧ Stored formats clock key entity (store.rows.lookup key) row) ∨
      (written.rows.lookup key = store.rows.lookup key ∧ Skips formats key entity (store.rows.lookup key))) := by
  induction keys generalizing store with
  | nil =>
    simp only [writeEntities, Prod.mk.injEq] at wrote
    obtain ⟨rfl, rfl⟩ := wrote
    exact ⟨Touches.refl _ _, fun key _ => Spares.refl key _, fun _ _ found => found, apart,
      fun _ key listed => absurd listed not_mem_nil⟩
  | cons head rest ih =>
    obtain ⟨fresh, distinctRest⟩ := nodup_cons.mp distinct
    unfold writeEntities at wrote
    have later : ∀ key, WriteTouches loose merged (· ∈ rest) key → WriteTouches loose merged (· ∈ head :: rest) key :=
      fun key met => met.imp_left (fun listed => ⟨mem_cons_of_mem head listed.1, listed.2⟩)
    cases shows : live (merged.get head.1 head.2) with
    | none =>
      rw [shows] at wrote
      obtain ⟨touched, made, grown, stillApart, stored⟩ := ih distinctRest apart wrote
      refine ⟨touched.mono later, made, grown, stillApart, fun ok key listed tidy entity wanted owned => ?_⟩
      rcases mem_cons.mp listed with rfl | tail
      · rw [shows] at wanted
        cases wanted
      · exact stored ok key tail tidy entity wanted owned
    | some entity =>
      rw [shows] at wrote
      have listed := (live_eq_some.mp shows).1
      have present : live (merged.get head.1 head.2) ≠ none := by simp [shows]
      cases middling : writeEntity formats clock head entity store with
      | none =>
        simp only [middling, Prod.mk.injEq] at wrote
        obtain ⟨rfl, rfl⟩ := wrote
        exact ⟨Touches.refl _ _, fun key _ => Spares.refl key _, fun _ _ found => found, apart, fun ok => by cases ok⟩
      | some middle =>
        simp only [middling] at wrote
        have tidyHead : (head.1 = .accessToken → loose = false) → Touches (· = head) store middle ∧
            ((∃ row, middle.rows.lookup head = some row ∧ Stored formats clock head entity (store.rows.lookup head) row) ∨
              (middle.rows.lookup head = store.rows.lookup head ∧
                (Skips formats head entity (store.rows.lookup head) ∨
                  head.1 = .pricingConfig ∧ store.rows.lookup (.service, head.2) = none))) := by
          intro tidy
          refine writeEntity_some ?_ middling
          intro token row accepted
          exact (apart (tidy token)).apart (token ▸ listed) accepted
        have now : Touches (fun key => key = head ∨ (loose = true ∧ key.1 = .accessToken)) store middle := by
          by_cases tidy : head.1 = .accessToken → loose = false
          · exact (tidyHead tidy).1.mono (fun key same => .inl same)
          · simp only [Classical.not_imp, Bool.not_eq_false] at tidy
            exact (touches_writeEntity tidy.1 middling).1.mono (fun key token => .inr ⟨tidy.2, token⟩)
        have madeNow : ∀ key, live (merged.get key.1 key.2) = none → Spares key store middle := by
          intro key hidden
          have other : key ≠ head := by
            rintro rfl
            exact present hidden
          by_cases tidy : head.1 = .accessToken → loose = false
          · exact (tidyHead tidy).1.spares other
          · simp only [Classical.not_imp, Bool.not_eq_false] at tidy
            exact (touches_writeEntity tidy.1 middling).2 key other
        have middleApart : loose = false → TokensApart formats merged middle := by
          intro strict
          obtain ⟨touched, left⟩ := tidyHead (fun _ => strict)
          exact (apart strict).writeEntity listed touched (left.imp_right And.left)
        obtain ⟨touched, made, grown, stillApart, stored⟩ := ih distinctRest middleApart wrote
        have untouched : ∀ key, (key.1 = .accessToken → loose = false) → key ≠ head →
            middle.rows.lookup key = store.rows.lookup key := by
          intro key tidy other
          refine now.rows key ?_
          rintro (same | ⟨competing, token⟩)
          · exact other same
          · rw [tidy token] at competing
            cases competing
        have grownNow : ∀ key, (key.1 = .accessToken → loose = false) → store.rows.lookup key ≠ none →
            middle.rows.lookup key ≠ none := by
          intro key tidy found
          by_cases same : key = head
          · subst same
            rcases (tidyHead tidy).2 with ⟨row, put, _⟩ | ⟨kept, _⟩
            · simp [put]
            · rwa [kept]
          · rwa [untouched key tidy same]
        refine ⟨(now.mono ?_).trans (touched.mono later), fun key hidden => (madeNow key hidden).trans (made key hidden),
          fun key tidy found => grown key tidy (grownNow key tidy found), stillApart, ?_⟩
        · rintro key (rfl | competing)
          · exact .inl ⟨mem_cons_self .., present⟩
          · exact .inr competing
        · intro ok key member tidy wanted wantedLive owned
          rcases mem_cons.mp member with rfl | tail
          · rw [shows] at wantedLive
            cases wantedLive
            have keptRow : written.rows.lookup key = middle.rows.lookup key := by
              refine touched.rows key ?_
              rintro (⟨again, _⟩ | ⟨competing, token⟩)
              · exact fresh again
              · rw [tidy token] at competing
                cases competing
            rw [keptRow]
            rcases (tidyHead tidy).2 with put | ⟨kept, skipped | ⟨pricing, unowned⟩⟩
            · exact .inl put
            · exact .inr ⟨kept, skipped⟩
            · exact absurd unowned (owned pricing)
          · have apartKey : key ≠ head := by
              rintro rfl
              exact fresh tail
            rw [← untouched key tidy apartKey]
            exact stored ok key tail tidy wanted wantedLive
              (fun pricing => grownNow _ (fun token => by cases token) (owned pricing))

theorem writeEntities_append (first second : List Key) (store : Store) :
    writeEntities formats clock merged (first ++ second) store =
      match writeEntities formats clock merged first store with
      | (written, true) => writeEntities formats clock merged second written
      | (written, false) => (written, false) := by
  induction first generalizing store with
  | nil => rfl
  | cons head rest ih =>
    simp only [cons_append, writeEntities]
    cases live (merged.get head.1 head.2) with
    | none => exact ih store
    | some entity =>
      dsimp only
      cases writeEntity formats clock head entity store with
      | none => rfl
      | some middle => exact ih middle

/-! ### The order of the writes -/

variable {visit : List Key}

theorem mem_visited (held : merged.get key.1 key.2 ≠ none) : key ∈ visited visit merged := by
  by_cases listed : key ∈ visit
  · exact mem_append_left _ (mem_dedup.mpr listed)
  · exact mem_append_right _ (mem_filter.mpr ⟨mem_keys_of_ne_none held, by simpa using listed⟩)

theorem visited_nodup (visit : List Key) (merged : Document) : (visited visit merged).Nodup := by
  refine Nodup.append (nodup_dedup visit) (merged.entities.nodupKeys.filter _) ?_
  intro key first second
  have unlisted := (mem_filter.mp second).2
  simp only [Bool.not_eq_eq_eq_not, Bool.not_true, contains_eq_mem, decide_eq_false_iff_not] at unlisted
  exact unlisted (mem_dedup.mp first)

/-- The providers of a package, in the order they are written. -/
def writtenServices (scope : SyncScope) (visit : List Key) (merged : Document) : List Key :=
  if inScope scope .service then (visited visit merged).filter (fun key => key.1 = .service) else []

/-- Everything that is written after the providers. -/
def writtenDependants (scope : SyncScope) (visit : List Key) (merged : Document) : List Key :=
  ([Kind.policy, .pricingConfig, .accessToken] ++ credentialKinds).flatMap (fun kind =>
    if inScope scope kind then (visited visit merged).filter (fun key => key.1 = kind) else [])

theorem writtenKeys_split (scope : SyncScope) (visit : List Key) (merged : Document) :
    writtenKeys scope visit merged = writtenServices scope visit merged ++ writtenDependants scope visit merged := by
  rw [writtenKeys, writtenServices, writtenDependants, writeOrder, cons_append, flatMap_cons]

variable {scope : SyncScope}

theorem mem_writtenServices :
    key ∈ writtenServices scope visit merged ↔
      key ∈ visited visit merged ∧ key.1 = .service ∧ inScope scope key.1 = true := by
  unfold writtenServices
  split
  · rename_i selected
    simp only [mem_filter, decide_eq_true_eq, and_congr_right_iff]
    exact fun _ => ⟨fun service => ⟨service, service ▸ selected⟩, And.left⟩
  · rename_i unselected
    simp only [not_mem_nil, false_iff, not_and]
    exact fun _ service selected => unselected (service ▸ selected)

theorem mem_writtenDependants :
    key ∈ writtenDependants scope visit merged ↔
      key ∈ visited visit merged ∧ key.1 ≠ .service ∧ inScope scope key.1 = true := by
  simp only [writtenDependants, mem_flatMap]
  constructor
  · rintro ⟨kind, listed, found⟩
    split at found
    · rename_i selected
      obtain ⟨visits, same⟩ := mem_filter.mp found
      have named : key.1 = kind := of_decide_eq_true same
      refine ⟨visits, ?_, named ▸ selected⟩
      rintro service
      rw [← named, service] at listed
      exact absurd listed (by decide)
    · cases found
  · rintro ⟨visits, apart, selected⟩
    refine ⟨key.1, ?_, by rw [if_pos selected]; exact mem_filter.mpr ⟨visits, by simp⟩⟩
    cases named : key.1 <;> rw [named] at apart selected <;>
      first | decide | exact absurd rfl apart | simp [inScope] at selected

theorem writtenServices_nodup (scope : SyncScope) (visit : List Key) (merged : Document) :
    (writtenServices scope visit merged).Nodup := by
  unfold writtenServices
  split
  · exact (visited_nodup visit merged).filter _
  · exact nodup_nil

theorem writtenDependants_nodup (scope : SyncScope) (visit : List Key) (merged : Document) :
    (writtenDependants scope visit merged).Nodup := by
  refine nodup_flatMap.mpr ⟨fun kind _ => ?_, ?_⟩
  · split
    · exact (visited_nodup visit merged).filter _
    · exact nodup_nil
  · refine Pairwise.imp ?_ (show List.Nodup ([Kind.policy, .pricingConfig, .accessToken] ++ credentialKinds) by decide)
    intro first second different key left right
    have ofKind : ∀ kind, key ∈ (if inScope scope kind then (visited visit merged).filter (fun key => key.1 = kind) else []) →
        key.1 = kind := by
      intro kind listed
      split at listed
      · exact of_decide_eq_true (mem_filter.mp listed).2
      · cases listed
    exact different ((ofKind first left).symm.trans (ofKind second right))

/-- A price binding has its provider's row, or the package brings it. -/
def Owned (formats : Formats) (merged : Document) (store : Store) (key : Key) : Prop :=
  key.1 = .pricingConfig → store.rows.lookup (.service, key.2) ≠ none ∨
    ((live (merged.get .service key.2)).bind (fun owner => formats.normalizeService key.2 owner.document)) ≠ none

instance (merged : Document) (store : Store) (key : Key) : Decidable (Owned formats merged store key) := by
  unfold Owned
  infer_instance

theorem writtenKeys_spec {done : Bool} (loose : Bool) (apart : loose = false → TokensApart formats merged store)
    (wrote : writeEntities formats clock merged (writtenKeys scope visit merged) store = (written, done)) :
    Touches (WriteTouches loose merged (fun key => inScope scope key.1 = true)) store written ∧
    (∀ key, live (merged.get key.1 key.2) = none → Spares key store written) ∧
    (∀ key, (key.1 = .accessToken → loose = false) → store.rows.lookup key ≠ none → written.rows.lookup key ≠ none) ∧
    (done = true → ∀ key entity, inScope scope key.1 = true → (key.1 = .accessToken → loose = false) →
      live (merged.get key.1 key.2) = some entity → Owned formats merged store key →
      (∃ row, written.rows.lookup key = some row ∧ Stored formats clock key entity (store.rows.lookup key) row) ∨
      (written.rows.lookup key = store.rows.lookup key ∧ Skips formats key entity (store.rows.lookup key))) := by
  rw [writtenKeys_split, writeEntities_append] at wrote
  rcases servicesWritten : writeEntities formats clock merged (writtenServices scope visit merged) store with ⟨middle, first⟩
  obtain ⟨touchedFirst, madeFirst, grownFirst, apartMiddle, storedFirst⟩ :=
    writeEntities_spec (writtenServices_nodup scope visit merged) loose apart servicesWritten
  have widerFirst : Touches (WriteTouches loose merged (fun key => inScope scope key.1 = true)) store middle :=
    touchedFirst.mono (fun key met => met.imp_left (fun listed => ⟨(mem_writtenServices.mp listed.1).2.2, listed.2⟩))
  rw [servicesWritten] at wrote
  cases first with
  | false =>
    simp only [Prod.mk.injEq] at wrote
    obtain ⟨rfl, rfl⟩ := wrote
    exact ⟨widerFirst, madeFirst, grownFirst, fun ok => by cases ok⟩
  | true =>
    dsimp only at wrote
    obtain ⟨touchedRest, madeRest, grownRest, _, storedRest⟩ :=
      writeEntities_spec (writtenDependants_nodup scope visit merged) loose apartMiddle wrote
    have widerRest : Touches (WriteTouches loose merged (fun key => inScope scope key.1 = true)) middle written :=
      touchedRest.mono (fun key met => met.imp_left (fun listed => ⟨(mem_writtenDependants.mp listed.1).2.2, listed.2⟩))
    refine ⟨widerFirst.trans widerRest, fun key hidden => (madeFirst key hidden).trans (madeRest key hidden),
      fun key tidy found => grownRest key tidy (grownFirst key tidy found), ?_⟩
    intro ok key entity selected tidy wanted owned
    have strictly : ¬ (loose = true ∧ key.1 = .accessToken) := by
      rintro ⟨competing, token⟩
      rw [tidy token] at competing
      cases competing
    have visits : key ∈ visited visit merged := by
      apply mem_visited
      rw [(live_eq_some.mp wanted).1]
      simp
    by_cases service : key.1 = .service
    · have unwritten : key ∉ writtenDependants scope visit merged := fun listed => (mem_writtenDependants.mp listed).2.1 service
      rw [touchedRest.rows key (fun met => met.elim (fun listed => unwritten listed.1) strictly)]
      refine storedFirst rfl key (mem_writtenServices.mpr ⟨visits, service, selected⟩) tidy entity wanted ?_
      intro pricing
      rw [service] at pricing
      cases pricing
    · have unwritten : key ∉ writtenServices scope visit merged := fun listed => service (mem_writtenServices.mp listed).2.1
      rw [← touchedFirst.rows key (fun met => met.elim (fun listed => unwritten listed.1) strictly)]
      refine storedRest ok key (mem_writtenDependants.mpr ⟨visits, service, selected⟩) tidy entity wanted ?_
      intro pricing
      rcases owned pricing with present | brought
      · exact grownFirst _ (fun token => by cases token) present
      · obtain ⟨normal, owner, listed, normalized⟩ := by
          simpa only [bind_eq_some_iff] using Option.ne_none_iff_exists'.mp brought
        have ownerVisits : (Kind.service, key.2) ∈ visited visit merged := by
          apply mem_visited
          rw [(live_eq_some.mp listed).1]
          simp
        have ownerSelected : inScope scope .service = true := by
          rw [pricing] at selected
          simp only [inScope, Bool.and_eq_true] at selected
          exact selected.1
        rcases storedFirst rfl (.service, key.2) (mem_writtenServices.mpr ⟨ownerVisits, rfl, ownerSelected⟩)
            (fun token => by cases token) owner listed (fun pricing => by cases pricing) with ⟨row, found, _⟩ | ⟨_, skipped⟩
        · simp [found]
        · simp only [Skips, storedDocument, Option.map_eq_none_iff, normalized] at skipped
          cases skipped.2

end

end AstrLink.Storing
