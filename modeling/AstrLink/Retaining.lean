import AstrLink.Applying

/-!
What applying a package leaves of what a device had. A write brings rows, and the
only rows it takes away are tokens the package does not hold (`Grows`); the
deletions that follow take away what the package does not hold
(`apply_withdraws`).
-/
namespace AstrLink.Retaining
open Tables Package Merge Scope LocalStore Device Storing List
open Applying
open Option (some_ne_none)

def Remembered (store : Store) (key : Key) : Prop :=
  (∃ entry ∈ store.changeLog, entry.1 = key) ∨ store.tombstones.lookup key ≠ none

/-- A token of a selected kind that the package does not hold. -/
def Surplus (scope : SyncScope) (merged : Document) (key : Key) : Prop :=
  inScope scope key.1 = true ∧ key.1 = .accessToken ∧ merged.get key.1 key.2 = none

/-- What a write leaves: the rows but for surplus tokens, and a dependant's provider. -/
structure Grows (scope : SyncScope) (merged : Document) (store written : Store) : Prop where
  rows : ∀ key, written.rows.lookup key = none →
    (store.rows.lookup key = none ∧ (Remembered written key → Remembered store key)) ∨
      (Surplus scope merged key ∧ store.rows.lookup key ≠ none)
  fresh : ∀ key, Surplus scope merged key → store.rows.lookup key = none → written.rows.lookup key = none
  owned : ∀ key : Key, key.1 ∈ dependentKinds → written.rows.lookup key ≠ none →
    store.rows.lookup key ≠ none ∨ written.rows.lookup (.service, key.2) ≠ none

section
variable {scope : SyncScope} {merged : Document} {store written last : Store} {formats : Formats} {clock : Clock}

namespace Grows

protected theorem refl (scope : SyncScope) (merged : Document) (store : Store) : Grows scope merged store store :=
  ⟨fun _ missing => .inl ⟨missing, id⟩, fun _ _ missing => missing, fun _ _ found => .inl found⟩

theorem trans (first : Grows scope merged store written) (second : Grows scope merged written last) :
    Grows scope merged store last where
  rows key missing := by
    rcases second.rows key missing with ⟨before, remembered⟩ | ⟨surplus, found⟩
    · exact (first.rows key before).imp_left (fun none => ⟨none.1, fun later => none.2 (remembered later)⟩)
    · exact .inr ⟨surplus, fun missing => found (first.fresh key surplus missing)⟩
  fresh key surplus missing := second.fresh key surplus (first.fresh key surplus missing)
  owned key dependent found := by
    rcases second.owned key dependent found with before | owner
    · refine (first.owned key dependent before).imp_right (fun owner missing => ?_)
      rcases second.rows (.service, key.2) missing with ⟨gone, _⟩ | ⟨⟨_, token, _⟩, _⟩
      · exact owner gone
      · cases token
    · exact .inr owner

theorem foldl {A : Type} {move : Store → A → Store} {items : List A}
    (each : ∀ item ∈ items, ∀ store, Grows scope merged store (move store item)) (store : Store) :
    Grows scope merged store (items.foldl move store) := by
  induction items generalizing store with
  | nil => exact Grows.refl scope merged store
  | cons head rest ih =>
    have now := each head (mem_cons_self ..) store
    exact now.trans (ih (fun item listed => each item (mem_cons_of_mem head listed)) (move store head))

end Grows

variable {key : Key}

theorem putRow_missing {other : Key} {row : Row} (missing : (putRow clock key row store).rows.lookup other = none) :
    store.rows.lookup other = none ∧ (Remembered (putRow clock key row store) other → Remembered store other) := by
  rw [lookup_putRow] at missing
  split at missing
  · cases missing
  · rename_i apart
    refine ⟨missing, fun remembered => remembered.imp_left (fun logged => ?_)⟩
    obtain ⟨entry, listed, named⟩ := logged
    rcases mem_append.mp listed with before | new
    · exact ⟨entry, before, named⟩
    · rw [mem_singleton] at new
      exact absurd (named.symm.trans (congrArg Prod.fst new)) apart

theorem grows_putRow {row : Row} (kept : Surplus scope merged key → store.rows.lookup key ≠ none)
    (owner : key.1 ∈ dependentKinds → store.rows.lookup (.service, key.2) ≠ none) :
    Grows scope merged store (putRow clock key row store) where
  rows _ missing := .inl (putRow_missing missing)
  fresh other surplus missing := by
    rw [lookup_putRow]
    split
    · rename_i same
      exact absurd missing (same ▸ kept (same ▸ surplus))
    · exact missing
  owned other dependent found := by
    rw [lookup_putRow] at found
    split at found
    · rename_i same
      subst same
      refine .inr ?_
      have apart : (Kind.service, other.2) ≠ other := by
        intro same
        rw [← same] at dependent
        simp [dependentKinds] at dependent
      rw [lookup_putRow, if_neg apart]
      exact owner dependent
    · exact .inl found

theorem grows_deleteTombstone (key : Key) (store : Store) : Grows scope merged store (deleteTombstone key store) where
  rows other missing := by
    refine .inl ⟨missing, fun remembered => remembered.imp_right (fun buried => ?_)⟩
    intro unburied
    refine buried ?_
    show (store.tombstones.erase key).lookup other = none
    rw [lookup_erase_if, unburied, ite_self]
  fresh _ _ missing := missing
  owned _ _ found := .inl found

theorem grows_deleteRow (surplus : Surplus scope merged key) (store : Store) :
    Grows scope merged store (deleteRow clock key store) where
  rows other missing := by
    by_cases found : store.rows.lookup other = none
    · refine .inl ⟨found, fun remembered => ?_⟩
      unfold deleteRow at remembered
      split at remembered
      · rename_i present
        refine remembered.imp_left (fun logged => ?_)
        obtain ⟨entry, listed, named⟩ := logged
        rcases mem_append.mp listed with before | new
        · exact ⟨entry, before, named⟩
        · rw [mem_singleton] at new
          have same : key = other := (congrArg Prod.fst new).symm.trans named
          rw [same, found] at present
          cases present
      · exact remembered
    · rw [lookup_deleteRow] at missing
      split at missing
      · rename_i same
        exact .inr ⟨same ▸ surplus, found⟩
      · exact absurd missing found
  fresh other _ missing := by rw [lookup_deleteRow, missing, ite_self]
  owned other _ found := by
    rw [lookup_deleteRow] at found
    split at found
    · exact absurd rfl found
    · exact .inl found

/-- The value of every token is its own, but for the tokens the package drops. -/
def OwnValue (merged : Document) (id : String) (digest : List UInt8) (store : Store) : Prop :=
  ∀ other row, other ≠ id → store.rows.lookup (.accessToken, other) = some row → row.digest = digest →
    merged.get .accessToken other = none

def SameValues (id : String) (digest : List UInt8) (store written : Store) : Prop :=
  ∀ other row, written.rows.lookup (.accessToken, other) = some row →
    (other = id ∧ row.digest = digest) ∨
      ∃ before, store.rows.lookup (.accessToken, other) = some before ∧ before.digest = row.digest

variable {id : String}

private theorem uniqueAccessTokenName_grows {name free : String}
    (named : uniqueAccessTokenName formats clock id name store = .ok (free, written)) (digest : List UInt8) :
    Grows scope merged store written ∧ SameValues id digest store written := by
  rcases uniqueAccessTokenName_cases named with rfl | ⟨holder, row, moved, found, rfl⟩
  · exact ⟨Grows.refl scope merged _, fun other row found => .inr ⟨row, found, rfl⟩⟩
  · refine ⟨grows_putRow (fun _ => by rw [found]; exact some_ne_none row)
      (fun dependent => absurd dependent (by simp [dependentKinds])), fun other content present => ?_⟩
    rw [lookup_putRow] at present
    split at present
    · rename_i same
      cases present
      exact .inr ⟨row, by rw [same, found], rfl⟩
    · exact .inr ⟨content, present, rfl⟩

private theorem dropDuplicateTokens_grows {digest : List UInt8} (selected : scope.tokens = true)
    (own : OwnValue merged id digest store) :
    Grows scope merged store (dropDuplicateTokens clock id digest store) ∧
      SameValues id digest store (dropDuplicateTokens clock id digest store) := by
  unfold dropDuplicateTokens
  constructor
  · refine Grows.foldl (fun other listed => grows_deleteRow ?_) store
    obtain ⟨_, duplicate⟩ := mem_filter.mp listed
    obtain ⟨apart, same⟩ := of_decide_eq_true duplicate
    obtain ⟨row, found, equal⟩ := Option.map_eq_some_iff.mp same
    exact ⟨selected, rfl, own other row apart found equal⟩
  · generalize (idsOf store .accessToken).filter _ = others
    have loop : ∀ store : Store, ∀ key row, (others.foldl (fun store other =>
        deleteRow clock (.accessToken, other) store) store).rows.lookup key = some row → store.rows.lookup key = some row := by
      induction others with
      | nil => exact fun store key row found => found
      | cons head rest ih =>
        intro store key row found
        have before := ih _ key row found
        rw [lookup_deleteRow] at before
        split at before
        · cases before
        · exact before
    exact fun other row found => .inr ⟨row, loop store _ row found, rfl⟩

theorem SameValues.trans {digest : List UInt8} (first : SameValues id digest store written)
    (second : SameValues id digest written last) : SameValues id digest store last := by
  intro other row found
  rcases second other row found with new | ⟨middle, before, same⟩
  · exact .inl new
  · rcases first other middle before with ⟨named, equal⟩ | ⟨oldest, earlier, equal⟩
    · exact .inl ⟨named, same ▸ equal⟩
    · exact .inr ⟨oldest, earlier, equal.trans same⟩

theorem syncWriteAccessToken_grows {document value : List UInt8} (selected : scope.tokens = true)
    (held : merged.get .accessToken id ≠ none) (own : OwnValue merged id (formats.digest value) store)
    (ok : syncWriteAccessToken formats clock id document value store = .ok written) :
    Grows scope merged store written ∧ SameValues id (formats.digest value) store written ∧
      written.rows.lookup (.accessToken, id) ≠ none := by
  unfold syncWriteAccessToken at ok
  split at ok
  · cases ok
  split at ok
  · cases ok
  split at ok
  · cases ok
  split at ok
  · cases ok
  rename_i synced _ _ name _ _
  generalize (if synced.createdAt = 0 then clock.updated (Kind.accessToken, id) else synced.createdAt) = createdAt at ok
  dsimp only at ok
  split at ok
  · rename_i unchanged
    cases ok
    refine ⟨Grows.refl scope merged store, fun other row found => .inr ⟨row, found, rfl⟩, fun missing => ?_⟩
    rw [accessTokenUnchanged, missing] at unchanged
    cases unchanged
  split at ok
  · cases ok
  rename_i free renamed unique
  obtain ⟨grown, same⟩ : Grows scope merged store renamed ∧ SameValues id (formats.digest value) store renamed :=
    uniqueAccessTokenName_grows unique (formats.digest value)
  have ownRenamed : OwnValue merged id (formats.digest value) renamed := by
    intro other row apart found equal
    rcases same other row found with ⟨named, _⟩ | ⟨before, earlier, digest⟩
    · exact absurd named apart
    · exact own other before apart earlier (digest.trans equal)
  obtain ⟨dropped, sameDropped⟩ : Grows scope merged renamed (dropDuplicateTokens clock id (formats.digest value) renamed) ∧
      SameValues id (formats.digest value) renamed (dropDuplicateTokens clock id (formats.digest value) renamed) :=
    dropDuplicateTokens_grows selected ownRenamed
  cases ok
  refine ⟨grown.trans (dropped.trans (grows_putRow (fun surplus => absurd surplus.2.2 held)
    (fun dependent => absurd dependent (by simp [dependentKinds])))), ?_, ?_⟩
  · refine same.trans (sameDropped.trans (fun other row found => ?_))
    rw [lookup_putRow] at found
    split at found
    · rename_i named
      cases found
      exact .inl ⟨(Prod.mk.inj named).2, rfl⟩
    · exact .inr ⟨row, found, rfl⟩
  · rw [lookup_putRow, if_pos rfl]
    exact some_ne_none _

variable {entity : Entity}

theorem syncWriteAccessToken_accepts {value : List UInt8} (opens : formats.decodeSecret entity.secret = some value)
    (ok : syncWriteAccessToken formats clock id entity.document value store = .ok written) :
    ∃ token, storedToken formats 0 id entity = some token ∧ token.digest = formats.digest value := by
  unfold syncWriteAccessToken at ok
  split at ok
  · cases ok
  rename_i valid
  cases decoded : formats.decodeToken entity.document with
  | none => simp [decoded] at ok
  | some synced =>
    simp only [decoded] at ok
    cases named : formats.normalizeTokenName synced.name with
    | none => simp [named] at ok
    | some name =>
      simp only [named] at ok
      split at ok
      · cases ok
      · rename_i source
        refine ⟨⟨[], some value, if synced.createdAt = 0 then 0 else synced.createdAt, 0, name, synced.source,
          formats.digest value⟩, ?_, rfl⟩
        simp only [storedToken, opens, Option.bind_some, if_neg valid, decoded, named, if_neg source]

/-! ### Writing the entities of a package -/

theorem syncWriteEntity_grows {kind : Kind} {document : List UInt8} (apart : kind ≠ .accessToken)
    (ok : syncWriteEntity formats clock kind id document store = .ok written) : Grows scope merged store written := by
  unfold syncWriteEntity at ok
  split at ok
  · unfold syncWriteService at ok
    split at ok
    · cases ok
    · split at ok
      · cases ok
        exact grows_putRow (fun surplus => absurd surplus.2.1 (by simp)) (fun dependent => absurd dependent (by simp [dependentKinds]))
      · split at ok
        · cases ok
          exact Grows.refl scope merged store
        · cases ok
          exact grows_putRow (fun surplus => absurd surplus.2.1 (by simp)) (fun dependent => absurd dependent (by simp [dependentKinds]))
  · unfold syncWritePolicy at ok
    split at ok
    · cases ok
    · split at ok
      · cases ok
      · split at ok
        · cases ok
          exact Grows.refl scope merged store
        · split at ok
          · cases ok
            exact Grows.refl scope merged store
          · cases ok
            exact grows_putRow (fun surplus => absurd surplus.2.1 (by simp)) (fun dependent => absurd dependent (by simp [dependentKinds]))
  · unfold syncWritePricingConfig at ok
    split at ok
    · cases ok
    · split at ok
      · cases ok
      · split at ok
        · cases ok
          exact Grows.refl scope merged store
        · rename_i service found
          have owner : store.rows.lookup (.service, id) ≠ none := by
            rw [found]
            exact some_ne_none service
          split at ok
          · cases ok
          · split at ok
            · cases ok
              exact grows_putRow (fun surplus => absurd surplus.2.1 (by simp)) (fun _ => owner)
            · split at ok
              · cases ok
                exact Grows.refl scope merged store
              · cases ok
                exact grows_putRow (fun surplus => absurd surplus.2.1 (by simp)) (fun _ => owner)
  · cases ok

theorem syncImportCredential_grows {kind : Kind} {plaintext : List UInt8} (credential : isCredentialKind kind = true)
    (ok : syncImportCredential clock kind id plaintext store = .ok written) : Grows scope merged store written := by
  have apart : ¬ Surplus scope merged (kind, id) := by
    rintro ⟨_, token, _⟩
    dsimp only at token
    rw [token] at credential
    cases credential
  unfold syncImportCredential at ok
  split at ok
  · cases ok
  split at ok
  · cases ok
    exact Grows.refl scope merged store
  split at ok
  · cases ok
  · rename_i owned
    cases ok
    refine grows_putRow (fun surplus => absurd surplus apart) (fun dependent missing => owned ⟨?_, missing⟩)
    have unpriced : kind ≠ .pricingConfig := by
      rintro rfl
      cases credential
    simp only [dependentKinds, mem_cons, not_mem_nil, or_false, unpriced, false_or] at dependent
    simpa [syncImportCredential.dependents] using dependent

/-- The value a merged token would be stored with, for the tokens this build takes. -/
def Values (formats : Formats) (merged : Document) (store : Store) : Prop :=
  ∀ id token, tokenOf formats merged id = some token → OwnValue merged id token.digest store

theorem writeEntity_grows (selected : inScope scope key.1 = true)
    (shows : live (merged.get key.1 key.2) = some entity) (values : scope.tokens = true → Values formats merged store)
    (wrote : writeEntity formats clock key entity store = some written) :
    Grows scope merged store written ∧
      (key.1 = .accessToken → tokenOf formats merged key.2 ≠ none → written.rows.lookup key ≠ none) ∧
      (∀ other row, written.rows.lookup (.accessToken, other) = some row →
        (∃ token, key = (.accessToken, other) ∧ tokenOf formats merged other = some token ∧ row.digest = token.digest) ∨
          ∃ before, store.rows.lookup (.accessToken, other) = some before ∧ before.digest = row.digest) := by
  obtain ⟨found, _⟩ := live_eq_some.mp shows
  obtain ⟨kind, id⟩ := key
  by_cases token : kind = .accessToken
  · subst token
    have stored : tokenOf formats merged id = storedToken formats 0 id entity := by rw [tokenOf, found, Option.bind_some]
    simp only [writeEntity, if_true] at wrote
    split at wrote
    · cases wrote
    split at wrote
    · cases wrote
    rename_i value opens
    unfold settle at wrote
    split at wrote
    · rename_i middle ok
      cases wrote
      obtain ⟨plain, accepted, digest⟩ := syncWriteAccessToken_accepts opens ok
      have own : OwnValue merged id (formats.digest value) store := digest ▸ values selected id plain (stored.trans accepted)
      obtain ⟨grown, same, present⟩ := syncWriteAccessToken_grows selected (by rw [found]; exact some_ne_none _) own ok
      refine ⟨grown.trans (grows_deleteTombstone _ _), fun _ _ => present, fun other row held => ?_⟩
      rcases same other row held with ⟨rfl, equal⟩ | before
      · exact .inl ⟨plain, rfl, stored.trans accepted, equal.trans digest.symm⟩
      · exact .inr before
    · rename_i refused
      cases wrote
      refine ⟨Grows.refl scope merged store, fun _ taken => ?_, fun other row held => .inr ⟨row, held, rfl⟩⟩
      rw [stored, syncWriteAccessToken_refused 0 opens refused] at taken
      exact absurd rfl taken
    · cases wrote
  · have touched := (writeEntity_some (fun met => absurd met token) wrote).1
    have rows : ∀ other, written.rows.lookup (.accessToken, other) = store.rows.lookup (.accessToken, other) :=
      fun other => touched.rows (.accessToken, other) (fun same => token (Prod.mk.inj same).1.symm)
    refine ⟨?_, fun met => absurd met token, fun other row held => .inr ⟨row, (rows other) ▸ held, rfl⟩⟩
    simp only [writeEntity, token, if_false] at wrote
    split at wrote
    · rename_i credential
      split at wrote
      · cases wrote
      split at wrote
      · rename_i middle ok
        cases wrote
        exact (syncImportCredential_grows credential ok).trans (grows_deleteTombstone _ _)
      · cases wrote
    · split at wrote
      · cases wrote
      unfold settle at wrote
      split at wrote
      · rename_i middle ok
        cases wrote
        exact (syncWriteEntity_grows token ok).trans (grows_deleteTombstone _ _)
      · cases wrote
        exact Grows.refl scope merged store
      · cases wrote

/-- No two tokens have one value, in the package or here. -/
def ValuesApart (formats : Formats) (merged : Document) (store : Store) : Prop :=
  ∀ key ∈ merged.entities.keys, ∀ token ∈ tokenOf formats merged key.2,
    ∀ other ∈ merged.entities.keys, other.1 = .accessToken → other.2 ≠ key.2 →
      (∀ row ∈ store.rows.lookup other, row.digest ≠ token.digest) ∧
        (∀ otherToken ∈ tokenOf formats merged other.2, otherToken.digest ≠ token.digest)

instance (merged : Document) (store : Store) : Decidable (ValuesApart formats merged store) := by
  unfold ValuesApart
  infer_instance

theorem ValuesApart.pairwise (apart : ValuesApart formats merged store) {other : String} {token otherToken : Row}
    (stored : tokenOf formats merged id = some token) (storedOther : tokenOf formats merged other = some otherToken)
    (different : other ≠ id) : otherToken.digest ≠ token.digest := by
  have listed : ∀ {id : String} {token : Row}, tokenOf formats merged id = some token →
      ((.accessToken, id) : Key) ∈ merged.entities.keys := by
    intro id token stored
    refine mem_keys_of_ne_none (fun missing => ?_)
    rw [tokenOf, Document.get, missing] at stored
    cases stored
  exact (apart (.accessToken, id) (listed stored) token stored (.accessToken, other) (listed storedOther) rfl different).2
    otherToken storedOther

theorem ValuesApart.values (apart : ValuesApart formats merged store) : Values formats merged store := by
  intro id token stored other row different found equal
  by_contra present
  have listed : ((.accessToken, id) : Key) ∈ merged.entities.keys := by
    refine mem_keys_of_ne_none (fun missing => ?_)
    rw [tokenOf, Document.get, missing] at stored
    cases stored
  exact (apart (.accessToken, id) listed token stored (.accessToken, other) (mem_keys_of_ne_none present) rfl different).1
    row found equal

theorem writeEntities_grows {keys : List Key} {done : Bool} (selected : ∀ key ∈ keys, inScope scope key.1 = true)
    (pairwise : scope.tokens = true → ∀ id other token otherToken, tokenOf formats merged id = some token →
      tokenOf formats merged other = some otherToken → other ≠ id → otherToken.digest ≠ token.digest)
    (values : scope.tokens = true → Values formats merged store)
    (wrote : writeEntities formats clock merged keys store = (written, done)) :
    Grows scope merged store written ∧
      (done = true → ∀ key ∈ keys, key.1 = .accessToken → live (merged.get key.1 key.2) ≠ none →
        tokenOf formats merged key.2 ≠ none → written.rows.lookup key ≠ none) := by
  induction keys generalizing store with
  | nil =>
    simp only [writeEntities, Prod.mk.injEq] at wrote
    obtain ⟨rfl, rfl⟩ := wrote
    exact ⟨Grows.refl scope merged _, fun _ key listed => absurd listed not_mem_nil⟩
  | cons head rest ih =>
    have later : ∀ key ∈ rest, inScope scope key.1 = true := fun key listed => selected key (mem_cons_of_mem head listed)
    rw [writeEntities] at wrote
    split at wrote
    · rename_i hidden
      obtain ⟨grown, present⟩ := ih later values wrote
      refine ⟨grown, fun ok key listed token shows taken => ?_⟩
      rcases mem_cons.mp listed with rfl | tail
      · exact absurd hidden shows
      · exact present ok key tail token shows taken
    · rename_i entity shows
      split at wrote
      · cases wrote
        exact ⟨Grows.refl scope merged _, fun ok => by cases ok⟩
      · rename_i middle one
        obtain ⟨grownOne, presentOne, digests⟩ := writeEntity_grows (selected head (mem_cons_self ..)) shows values one
        have valuesMiddle : scope.tokens = true → Values formats merged middle := by
          intro tokens id token stored other row different found equal
          rcases digests other row found with ⟨otherToken, _, storedOther, digest⟩ | ⟨before, earlier, digest⟩
          · exact absurd (digest.symm.trans equal) (pairwise tokens id other token otherToken stored storedOther different)
          · exact values tokens id token stored other before different earlier (digest.trans equal)
        obtain ⟨grown, present⟩ := ih later valuesMiddle wrote
        refine ⟨grownOne.trans grown, fun ok key listed token visible taken => ?_⟩
        rcases mem_cons.mp listed with rfl | tail
        · intro missing
          rcases grown.rows key missing with ⟨gone, _⟩ | ⟨⟨_, _, absent⟩, _⟩
          · exact presentOne token taken gone
          · rw [absent] at visible
            exact visible rfl
        · exact present ok key tail token visible taken

/-! ### Applying a package -/

/-- A row of a selected kind that the package does not hold. -/
def Withdrawn (scope : SyncScope) (merged : Document) (store : Store) (key : Key) : Prop :=
  store.rows.lookup key ≠ none ∧ inScope scope key.1 = true ∧ merged.get key.1 key.2 = none

variable {visit : List Key}

theorem mem_writtenKeys (listed : key ∈ writtenKeys scope visit merged) :
    inScope scope key.1 = true := by
  obtain ⟨kind, _, within⟩ := mem_flatMap.mp listed
  split at within
  · rename_i selected
    rw [of_decide_eq_true (mem_filter.mp within).2]
    exact selected
  · cases within

theorem writtenKeys_grows {done : Bool} (apart : scope.tokens = true → ValuesApart formats merged store)
    (wrote : writeEntities formats clock merged (writtenKeys scope visit merged) store = (written, done)) :
    Grows scope merged store written ∧
      (done = true → ∀ key ∈ writtenKeys scope visit merged, key.1 = .accessToken → live (merged.get key.1 key.2) ≠ none →
        tokenOf formats merged key.2 ≠ none → written.rows.lookup key ≠ none) :=
  writeEntities_grows (fun _ listed => mem_writtenKeys listed)
    (fun tokens _ _ _ _ stored storedOther different => (apart tokens).pairwise stored storedOther different)
    (fun tokens => (apart tokens).values) wrote

theorem settleServices_grows (order : List String) (store : Store) :
    Grows scope merged store (settleServices formats clock scope order store) := by
  have moved : ∀ (id : String) (row : Row) (store : Store), store.rows.lookup (.service, id) ≠ none →
      Grows scope merged store (putRow clock (.service, id) row store) := by
    intro id row store found
    exact grows_putRow (fun _ => found) (fun dependent => absurd dependent (by simp [dependentKinds]))
  have bound : ∀ store : Store, Grows scope merged store (syncBindCredentialRefs formats clock store) := by
    intro store
    refine Grows.foldl (fun id _ store => ?_) store
    unfold bindService
    split
    · exact Grows.refl scope merged store
    · rename_i row found
      split
      · exact Grows.refl scope merged store
      · split
        · exact Grows.refl scope merged store
        · exact moved id _ store (by rw [found]; exact some_ne_none row)
  have placed : Grows scope merged store (syncWriteOrder clock order store) := by
    unfold syncWriteOrder
    split
    · exact Grows.refl scope merged store
    · refine Grows.foldl (fun placed _ store => ?_) store
      unfold placeService
      split
      · exact Grows.refl scope merged store
      · rename_i row found
        split
        · exact Grows.refl scope merged store
        · exact moved placed.1 _ store (by rw [found]; exact some_ne_none row)
  unfold settleServices
  split
  · exact placed.trans (bound _)
  · exact bound store

theorem Touches.remembered {touched : Key → Prop} (narrow : Touches touched store written) (apart : ¬ touched key)
    (remembered : Remembered written key) : Remembered store key := by
  rcases remembered with ⟨entry, listed, named⟩ | buried
  · rcases narrow.logged entry listed with before | met
    · exact .inl ⟨entry, before, named⟩
    · exact absurd (named ▸ met) apart
  · rw [narrow.tombstones key apart] at buried
    exact .inr buried

theorem dropped_withdrawn {held : List Key} (current : currentEntities formats scope store = some held)
    (dropped : Dropped merged held key) :
    Withdrawn scope merged store key ∨ (key.1 ∈ cascades ∧ Withdrawn scope merged store (.service, key.2)) := by
  have withdrawn : ∀ key ∈ held, merged.get key.1 key.2 = none → Withdrawn scope merged store key := by
    intro key listed absent
    obtain ⟨selected, row, found, _⟩ := (mem_currentEntities current).mp listed
    exact ⟨by rw [found]; exact some_ne_none row, selected, absent⟩
  rcases dropped with ⟨listed, absent⟩ | ⟨cascading, listed, absent⟩
  · exact .inl (withdrawn key listed absent)
  · exact .inr ⟨cascading, withdrawn (.service, key.2) listed absent⟩

theorem apply_withdraws {after : Store} {done : Bool} (apart : scope.tokens = true → ValuesApart formats merged store)
    (applied : apply formats clock scope visit merged store = (after, done)) :
    (∀ key, after.rows.lookup key = none →
      (store.rows.lookup key = none ∧ (Remembered after key → Remembered store key)) ∨
        Withdrawn scope merged store key ∨ (key.1 ∈ cascades ∧ Withdrawn scope merged store (.service, key.2))) ∧
    (∀ key : Key, key.1 ∈ dependentKinds → after.rows.lookup key ≠ none → store.rows.lookup key ≠ none ∨
      after.rows.lookup (.service, key.2) ≠ none ∨ Withdrawn scope merged store (.service, key.2)) ∧
    after.baseline = store.baseline := by
  have grown : ∀ {written : Store}, Grows scope merged store written →
      (∀ key, written.rows.lookup key = none →
        (store.rows.lookup key = none ∧ (Remembered written key → Remembered store key)) ∨ Withdrawn scope merged store key) :=
    fun grows key missing => (grows.rows key missing).imp_right (fun lost => ⟨lost.2, lost.1.1, lost.1.2.2⟩)
  unfold apply at applied
  cases current : currentEntities formats scope store with
  | none =>
    simp only [current, Prod.mk.injEq] at applied
    obtain ⟨rfl, rfl⟩ := applied
    exact ⟨fun key missing => .inl ⟨missing, id⟩, fun _ _ found => .inl found, rfl⟩
  | some held =>
    rw [current] at applied
    dsimp only at applied
    rcases wrote : writeEntities formats clock merged (writtenKeys scope visit merged) store with ⟨written, ok⟩
    have writes := (writtenKeys_grows apart wrote).1
    have based := (writtenKeys_spec true (fun strict => by cases strict) wrote).1.baseline
    cases ok with
    | false =>
      rw [wrote] at applied
      simp only [Prod.mk.injEq] at applied
      obtain ⟨rfl, rfl⟩ := applied
      exact ⟨fun key missing => (grown writes key missing).imp_right .inl,
        fun key dependent found => (writes.owned key dependent found).imp_right .inl, based⟩
    | true =>
      rw [wrote] at applied
      simp only [Prod.mk.injEq] at applied
      obtain ⟨rfl, rfl⟩ := applied
      have deletions := touches_deleteEntities clock merged held written
      have settled : Grows scope merged (deleteEntities clock merged held written)
          (settleServices formats clock scope merged.order (deleteEntities clock merged held written)) :=
        settleServices_grows _ _
      have lost : ∀ key, (deleteEntities clock merged held written).rows.lookup key = none →
          (store.rows.lookup key = none ∧ (Remembered (deleteEntities clock merged held written) key → Remembered store key)) ∨
            Withdrawn scope merged store key ∨ (key.1 ∈ cascades ∧ Withdrawn scope merged store (.service, key.2)) := by
        intro key missing
        by_cases dropped : Dropped merged held key
        · exact .inr (dropped_withdrawn current dropped)
        · rw [deletions.rows key dropped] at missing
          rcases grown writes key missing with ⟨before, remembered⟩ | withdrawn
          · exact .inl ⟨before, fun later => remembered (Touches.remembered deletions dropped later)⟩
          · exact .inr (.inl withdrawn)
      refine ⟨fun key missing => ?_, fun key dependent found => ?_, ?_⟩
      · rcases settled.rows key missing with ⟨gone, remembered⟩ | ⟨surplus, present⟩
        · rcases lost key gone with ⟨before, earlier⟩ | withdrawn
          · exact .inl ⟨before, fun later => earlier (remembered later)⟩
          · exact .inr withdrawn
        · refine .inr (.inl ⟨fun missing => present ?_, surplus.1, surplus.2.2⟩)
          exact deleteEntities_missing clock merged held (writes.fresh key surplus missing)
      · rcases settled.owned key dependent found with deleted | owner
        · have kept : written.rows.lookup key ≠ none := by
            rcases (lookup_deleteEntities clock merged held written).1 key with gone | same
            · exact absurd gone deleted
            · rw [← same]
              exact deleted
          refine (writes.owned key dependent kept).imp_right (fun owner => ?_)
          by_cases missing : (settleServices formats clock scope merged.order
              (deleteEntities clock merged held written)).rows.lookup (.service, key.2) = none
          · right
            rcases settled.rows (.service, key.2) missing with ⟨gone, _⟩ | ⟨⟨_, token, _⟩, _⟩
            · by_cases dropped : Dropped merged held (.service, key.2)
              · rcases dropped_withdrawn current dropped with withdrawn | ⟨cascading, _⟩
                · exact withdrawn
                · simp [cascades, subscription] at cascading
              · rw [deletions.rows _ dropped] at gone
                exact absurd gone owner
            · cases token
          · exact .inl missing
        · exact .inr (.inl owner)
      · exact (settleServices_spec formats clock scope merged.order _).1.baseline.trans (deletions.baseline.trans based)

/-- What a device takes in: its own rows, and entities it stores with their providers. -/
def Accepts (formats : Formats) (merged : Document) (store : Store) (key : Key) (entity : Entity) : Prop :=
  store.rows.lookup key ≠ none ∨
    if key.1 = .accessToken then tokenOf formats merged key.2 ≠ none
    else (isCredentialKind key.1 = true ∨ storedDocument formats key none entity.document ≠ none) ∧
      Owned formats merged store key

instance (merged : Document) (store : Store) (key : Key) (entity : Entity) :
    Decidable (Accepts formats merged store key entity) := by
  unfold Accepts
  infer_instance

theorem apply_present {after : Store} (tidy : Tidy scope merged)
    (apart : scope.tokens = true → ValuesApart formats merged store)
    (applied : apply formats clock scope visit merged store = (after, true)) (selected : inScope scope key.1 = true)
    (wanted : merged.get key.1 key.2 = some entity) (accepts : Accepts formats merged store key entity) :
    after.rows.lookup key ≠ none := by
  intro missing
  have stays : ¬ (Withdrawn scope merged store key ∨
      (key.1 ∈ cascades ∧ Withdrawn scope merged store (.service, key.2))) := by
    rintro (⟨_, _, absent⟩ | ⟨cascading, _, _, absent⟩)
    · rw [wanted] at absent
      cases absent
    · refine tidy.owned key.1 key.2 ?_ (by rw [wanted]; exact some_ne_none entity) absent
      simp only [cascades, mem_cons, not_mem_nil, or_false] at cascading
      rcases cascading with named | named | named
      · simp [dependentKinds, named]
      · simp [dependentKinds, named]
      · simp [named, subscription, inScope] at selected
  have unheld : store.rows.lookup key = none := by
    rcases (apply_withdraws apart applied).1 key missing with ⟨before, _⟩ | withdrawn
    · exact before
    · exact absurd withdrawn stays
  have takes := accepts.resolve_left (fun found => found unheld)
  have shows : live (merged.get key.1 key.2) = some entity := live_eq_some.mpr ⟨wanted, tidy.live key entity selected wanted⟩
  obtain ⟨held, written, current, wrote, rfl⟩ := apply_done applied
  have present : written.rows.lookup key ≠ none := by
    by_cases token : key.1 = .accessToken
    · rw [if_pos token] at takes
      refine (writtenKeys_grows apart wrote).2 rfl key ?_ token (by rw [shows]; exact some_ne_none entity) takes
      refine mem_flatMap.mpr ⟨key.1, ?_, ?_⟩
      · rw [token]
        decide
      · rw [if_pos selected]
        exact mem_filter.mpr ⟨mem_visited (by rw [wanted]; exact some_ne_none entity), by simp⟩
    · rw [if_neg token] at takes
      rcases (writtenKeys_spec true (fun strict => by cases strict) wrote).2.2.2 rfl key entity selected
          (fun met => absurd met token) shows takes.2 with ⟨row, found, _⟩ | ⟨_, skipped⟩
      · rw [found]
        exact some_ne_none row
      · rw [unheld] at skipped
        obtain ⟨kind, id⟩ := key
        cases kind with
        | accessToken => exact absurd rfl token
        | _ =>
          obtain ⟨uncredential, refused⟩ := skipped
          rcases takes.1 with credential | stores
          · exact absurd credential (by rw [uncredential]; exact Bool.false_ne_true)
          · exact absurd refused stores
  have kept : (deleteEntities clock merged held written).rows.lookup key ≠ none := by
    by_cases dropped : Dropped merged held key
    · exact absurd (dropped_withdrawn current dropped) stays
    · rw [(touches_deleteEntities clock merged held written).rows key dropped]
      exact present
  have settled : Grows scope merged (deleteEntities clock merged held written)
      (settleServices formats clock scope merged.order (deleteEntities clock merged held written)) :=
    settleServices_grows _ _
  rcases settled.rows key missing with ⟨gone, _⟩ | ⟨⟨_, _, absent⟩, _⟩
  · exact kept gone
  · rw [wanted] at absent
    cases absent

end

end AstrLink.Retaining
