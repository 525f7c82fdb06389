import AstrLink.Scope

/-!
The part of a device's database that a sync reads and writes. Reading and writing the JSON of a record is a
parameter (`Formats`): what follows holds for every way the record types encode.
-/
namespace AstrLink.LocalStore
open Tables Package Merge

/-- One row of a synced table. A kind that lacks a column leaves it empty. -/
structure Row where
  /-- The stored document of a service, a policy or a price binding. -/
  document : List UInt8 := []
  /-- What opening a credential or token value gives; nothing when it does not
      open. -/
  secret : Option (List UInt8) := none
  updatedAt : Nat := 0
  /-- `sort_position` of a service. -/
  position : Nat := 0
  name : String := ""
  source : String := ""
  /-- `token_hash` of an access token. -/
  digest : List UInt8 := []

structure Store where
  rows : Table Key Row
  /-- The services with a subscription login on this device. -/
  subscriptions : List String
  changeLog : List (Key × Nat)
  tombstones : Table Key Nat
  baseline : Option Document

/-- Which of a service's credentials this device holds. -/
structure CredentialPresence where
  api : Bool
  proxy : Bool
  subscription : Bool

structure AccessTokenDocument where
  name : String
  source : String
  createdAt : Nat

/-- How the record types read and write their JSON, and the checks they make. -/
structure Formats where
  validServiceId : String → Bool
  /-- `decodeSyncedService` and `encodeService`; a refused document has none. -/
  normalizeService : String → List UInt8 → Option (List UInt8)
  readService : String → List UInt8 → Bool
  /-- The merged document with the plan of the stored one, where it is kept. -/
  keepPlan : (stored encoded : List UInt8) → List UInt8
  /-- A stored document without the plan that was observed on this device. -/
  dropPlan : List UInt8 → List UInt8
  rebindServiceRefs : String → List UInt8 → CredentialPresence → Option (List UInt8)
  normalizePolicy : List UInt8 → Option (List UInt8)
  normalizePricingConfig : List UInt8 → Option (List UInt8)
  validTokenId : String → Bool
  validTokenValue : List UInt8 → Bool
  validTokenSource : String → Bool
  decodeToken : List UInt8 → Option AccessTokenDocument
  encodeToken : AccessTokenDocument → List UInt8
  normalizeTokenName : String → Option String
  foldTokenName : String → String
  /-- Nothing where the call stops, because the suffix leaves no room. -/
  nameWithSuffix : (name suffix : String) → Option String
  idTail : String → String
  digest : List UInt8 → List UInt8
  encodeSecret : List UInt8 → String
  decodeSecret : String → Option (List UInt8)

/-- Records that are stored as they are written. -/
def plainFormats : Formats where
  validServiceId id := id ≠ ""
  normalizeService _ document := some document
  readService _ _ := true
  keepPlan _ encoded := encoded
  dropPlan stored := stored
  rebindServiceRefs _ document _ := some document
  normalizePolicy := some
  normalizePricingConfig := some
  validTokenId id := id ≠ ""
  validTokenValue value := value ≠ []
  validTokenSource _ := true
  decodeToken document := some ⟨String.ofList (document.map (fun byte => Char.ofNat byte.toNat)), "user", 1⟩
  encodeToken token := token.name.toList.map (fun character => character.toNat.toUInt8)
  normalizeTokenName := some
  foldTokenName name := name
  nameWithSuffix name suffix := some (name ++ " (" ++ suffix ++ ")")
  idTail id := id
  digest value := value
  encodeSecret plaintext := String.ofList (plaintext.map (fun byte => Char.ofNat byte.toNat))
  decodeSecret encoded := some (encoded.toList.map (fun character => character.toNat.toUInt8))

structure Clock where
  updated : Key → Nat
  logged : Key → Nat
  removed : Key → Nat

inductive WriteError where
  | refused
  | failed
deriving DecidableEq

def defaultPrivacyPolicyId : String := "policy_privacy_default"

/-- The trigger of every synced table: a write leaves a log entry. -/
def logChange (clock : Clock) (key : Key) (store : Store) : Store :=
  { store with changeLog := store.changeLog ++ [(key, clock.logged key)] }

def putRow (clock : Clock) (key : Key) (row : Row) (store : Store) : Store :=
  logChange clock key { store with rows := store.rows.insert key row }

def deleteRow (clock : Clock) (key : Key) (store : Store) : Store :=
  if (store.rows.lookup key).isSome then logChange clock key { store with rows := store.rows.erase key } else store

def lastChange (store : Store) (key : Key) : Option Nat :=
  ((store.changeLog.filter (fun entry => entry.1 = key)).map Prod.snd).max?

def idsOf (store : Store) (kind : Kind) : List String :=
  (store.rows.keys.filter (fun key => key.1 = kind)).map Prod.snd

/-- A stamp as `julianday` compares it, in milliseconds. -/
def julianday (stamp : Nat) : Nat := (stamp + 500000) / 1000000

def later (left right : Nat) : Nat := if julianday left ≥ julianday right then left else right

/-- The last write time of a row: null where it has no log entry, zero where its query does not list it. -/
def entityTime (store : Store) (key : Key) (row : Row) : Option Nat :=
  match key.1 with
  | .service => some row.updatedAt
  | .policy => some row.updatedAt
  | .serviceCredential =>
    match store.rows.lookup (.service, key.2) with
    | some service => some (later service.updatedAt row.updatedAt)
    | none => some 0
  | .serviceProxyCredential | .pricingConfig =>
    match store.rows.lookup (.service, key.2) with
    | some service => (lastChange store key).map (later service.updatedAt)
    | none => some 0
  | .builtinToolCredential => some ((lastChange store key).getD 0)
  | .accessToken =>
    match lastChange store key with
    | some change => some (later change row.updatedAt)
    | none => some row.updatedAt
  | .other _ => some 0

structure LocalEntity where
  document : List UInt8
  secret : List UInt8
  updatedAt : Nat

/-- Reads one row, unless a credential does not open or the read fails. -/
def readEntity (formats : Formats) (store : Store) (key : Key) (row : Row) : Option (Option LocalEntity) :=
  match entityTime store key row with
  | none => none
  | some time =>
    match key.1 with
    | .service => some (some ⟨formats.dropPlan row.document, [], time⟩)
    | .policy | .pricingConfig => some (some ⟨row.document, [], time⟩)
    | .accessToken =>
      match row.secret with
      | none => none
      | some value => some (some ⟨formats.encodeToken ⟨row.name, row.source, row.updatedAt⟩, value, time⟩)
    | _ => some (row.secret.map (fun value => ⟨[], value, time⟩))

def positionOf (store : Store) (id : String) : Nat := ((store.rows.lookup (.service, id)).map Row.position).getD 0

/-- The order of two services in the priority list. -/
def orderedBefore (store : Store) (left right : String) : Prop :=
  positionOf store left < positionOf store right ∨ (positionOf store left = positionOf store right ∧ left ≤ right)

instance (store : Store) : DecidableRel (orderedBefore store) := fun left right =>
  inferInstanceAs (Decidable
    (positionOf store left < positionOf store right ∨ (positionOf store left = positionOf store right ∧ left ≤ right)))

def serviceOrder (store : Store) : List String := (idsOf store .service).insertionSort (orderedBefore store)

section
variable (formats : Formats) (clock : Clock)

def nextPosition (store : Store) : Nat :=
  (((idsOf store .service).map (positionOf store)).max?.map (· + 1)).getD 0

def syncWriteService (id : String) (document : List UInt8) (store : Store) : Except WriteError Store :=
  match formats.normalizeService id document with
  | none => .error .refused
  | some encoded =>
    match store.rows.lookup (.service, id) with
    | none =>
      .ok (putRow clock (.service, id)
        { document := encoded, updatedAt := clock.updated (.service, id), position := nextPosition store } store)
    | some row =>
      if row.document = encoded ∨ formats.normalizeService id row.document = some encoded then .ok store
      else
        .ok (putRow clock (.service, id)
          { row with document := formats.keepPlan row.document encoded, updatedAt := clock.updated (.service, id) } store)

/-- Only the fixed privacy policy is stored, and its row is only ever updated. -/
def syncWritePolicy (id : String) (document : List UInt8) (store : Store) : Except WriteError Store :=
  if id ≠ defaultPrivacyPolicyId then .error .refused
  else
    match formats.normalizePolicy document with
    | none => .error .refused
    | some encoded =>
      match store.rows.lookup (.policy, id) with
      | none => .ok store
      | some row =>
        if row.document = encoded ∨ formats.normalizePolicy row.document = some encoded then .ok store
        else .ok (putRow clock (.policy, id) { row with document := encoded, updatedAt := clock.updated (.policy, id) } store)

/-- A price binding with no service here is skipped. -/
def syncWritePricingConfig (id : String) (document : List UInt8) (store : Store) : Except WriteError Store :=
  match formats.normalizePricingConfig document with
  | none => .error .refused
  | some encoded =>
    if !formats.validServiceId id then .error .refused
    else
      match store.rows.lookup (.service, id) with
      | none => .ok store
      | some service =>
        if !formats.readService id service.document then .error .failed
        else
          match store.rows.lookup (.pricingConfig, id) with
          | none => .ok (putRow clock (.pricingConfig, id) { document := encoded } store)
          | some row =>
            if row.document = encoded ∨ formats.normalizePricingConfig row.document = some encoded then .ok store
            else .ok (putRow clock (.pricingConfig, id) { row with document := encoded } store)

def syncWriteEntity (kind : Kind) (id : String) (document : List UInt8) (store : Store) : Except WriteError Store :=
  match kind with
  | .service => syncWriteService formats clock id document store
  | .policy => syncWritePolicy formats clock id document store
  | .pricingConfig => syncWritePricingConfig formats clock id document store
  | _ => .error .refused

/-- Re-seals a credential of a service there is, unless the row holds the value. -/
def syncImportCredential (kind : Kind) (id : String) (plaintext : List UInt8) (store : Store) :
    Except WriteError Store :=
  if plaintext.isEmpty then .error .failed
  else if ((store.rows.lookup (kind, id)).bind Row.secret) = some plaintext then .ok store
  else if kind ∈ dependents ∧ store.rows.lookup (.service, id) = none then .error .failed
  else .ok (putRow clock (kind, id) { secret := some plaintext, updatedAt := clock.updated (kind, id) } store)
where
  /-- The credential tables that reference a service row. -/
  dependents : List Kind := [.serviceCredential, .serviceProxyCredential]

def accessTokenNameHolder (store : Store) (nameKey : String) : Option String :=
  (idsOf store .accessToken).find? (fun id =>
    ((store.rows.lookup (.accessToken, id)).map (fun row => formats.foldTokenName row.name)) = some nameKey)

/-- Whether a token may take a name: nobody holds its key, or the token itself. -/
def nameFree (store : Store) (id name : String) : Bool :=
  match accessTokenNameHolder formats store (formats.foldTokenName name) with
  | none => true
  | some holder => decide (holder = id)

/-- The name a token takes when a smaller id holds the one it wanted. -/
def freeAccessTokenName (store : Store) (id name : String) : Option String :=
  match formats.nameWithSuffix name (formats.idTail id), formats.nameWithSuffix name id with
  | some tailed, some spelled => [tailed, spelled].find? (nameFree formats store id)
  | _, _ => none

/-- The name of an arriving token: the smaller id keeps it and the other moves. -/
def uniqueAccessTokenName (id name : String) (store : Store) : Except WriteError (String × Store) :=
  match accessTokenNameHolder formats store (formats.foldTokenName name) with
  | none => .ok (name, store)
  | some holder =>
    if holder = id then .ok (name, store)
    else if id < holder then
      match freeAccessTokenName formats store holder name, store.rows.lookup (.accessToken, holder) with
      | some moved, some row =>
        -- the holder kept the name's key: the row of the arriving token breaks the unique index
        if formats.foldTokenName moved = formats.foldTokenName name then .error .failed
        else .ok (name, putRow clock (.accessToken, holder) { row with name := moved } store)
      | _, _ => .error .failed
    else
      match freeAccessTokenName formats store id name with
      | some free => .ok (free, store)
      | none => .error .failed

/-- The row that holds the same value under another id goes. -/
def dropDuplicateTokens (id : String) (digest : List UInt8) (store : Store) : Store :=
  ((idsOf store .accessToken).filter (fun other => other ≠ id ∧
      ((store.rows.lookup (.accessToken, other)).map Row.digest) = some digest)).foldl
    (fun store other => deleteRow clock (.accessToken, other) store) store

/-- Whether the row already holds exactly this token. -/
def accessTokenUnchanged (id : String) (token : AccessTokenDocument) (value : List UInt8) (store : Store) : Bool :=
  match store.rows.lookup (.accessToken, id) with
  | none => false
  | some row => decide (row.name = token.name ∧ row.source = token.source ∧ row.digest = formats.digest value ∧
      row.updatedAt = token.createdAt ∧ row.secret = some value)

def syncWriteAccessToken (id : String) (document value : List UInt8) (store : Store) : Except WriteError Store :=
  if !formats.validTokenId id || !formats.validTokenValue value then .error .refused
  else
    match formats.decodeToken document with
    | none => .error .refused
    | some synced =>
      match formats.normalizeTokenName synced.name with
      | none => .error .refused
      | some name =>
        if !formats.validTokenSource synced.source then .error .refused
        else
          -- a package that lost the stamp gives the token the moment it is stored
          let createdAt := if synced.createdAt = 0 then clock.updated (.accessToken, id) else synced.createdAt
          if accessTokenUnchanged formats id ⟨name, synced.source, createdAt⟩ value store then .ok store
          else
            match uniqueAccessTokenName formats clock id name store with
            | .error error => .error error
            | .ok (free, renamed) =>
              .ok (putRow clock (.accessToken, id)
                { name := free, source := synced.source, updatedAt := createdAt, digest := formats.digest value,
                  secret := some value }
                (dropDuplicateTokens clock id (formats.digest value) renamed))

/-- Removes an entity; a service takes its credentials with it. -/
def syncDeleteEntity (kind : Kind) (id : String) (store : Store) : Store :=
  match kind with
  | .service =>
    if (store.rows.lookup (.service, id)).isSome then
      let deleted := deleteRow clock (.serviceProxyCredential, id)
        (deleteRow clock (.serviceCredential, id) (deleteRow clock (.service, id) store))
      { deleted with subscriptions := deleted.subscriptions.erase id }
    else store
  | .policy => if id = defaultPrivacyPolicyId then store else deleteRow clock (.policy, id) store
  | kind => deleteRow clock (kind, id) store

/-- Moves one service to a position, unless it is there. -/
def placeService (store : Store) (placed : String × Nat) : Store :=
  match store.rows.lookup (.service, placed.1) with
  | none => store
  | some row =>
    if row.position = placed.2 then store else putRow clock (.service, placed.1) { row with position := placed.2 } store

/-- Applies a priority list; services it does not name come last. -/
def syncWriteOrder (ids : List String) (store : Store) : Store :=
  if ids.isEmpty then store
  else
    let current := serviceOrder store
    (appendUnseen (appendUnseen [] (ids.filter (· ∈ current))) current).zipIdx.foldl (placeService clock) store

def credentialPresence (store : Store) (id : String) : CredentialPresence where
  api := (store.rows.lookup (.serviceCredential, id)).isSome
  proxy := (store.rows.lookup (.serviceProxyCredential, id)).isSome
  subscription := decide (id ∈ store.subscriptions)

/-- Rewrites the local references of a service, if it can be read. -/
def bindService (store : Store) (id : String) : Store :=
  match store.rows.lookup (.service, id) with
  | none => store
  | some row =>
    match formats.rebindServiceRefs id row.document (credentialPresence store id) with
    | none => store
    | some rebound =>
      if rebound = row.document then store else putRow clock (.service, id) { row with document := rebound } store

def syncBindCredentialRefs (store : Store) : Store := (idsOf store .service).foldl (bindService formats clock) store

end

/-- Records a deletion; the newest one of an entity wins. -/
def putTombstone (key : Key) (deletedAt : Nat) (store : Store) : Store :=
  { store with tombstones := store.tombstones.insert key (max deletedAt ((store.tombstones.lookup key).getD 0)) }

def deleteTombstone (key : Key) (store : Store) : Store :=
  { store with tombstones := store.tombstones.erase key }

def deleteTombstonesBefore (cutoff : Nat) (store : Store) : Store :=
  { store with tombstones := keep (fun _ deletedAt => decide (cutoff ≤ deletedAt)) store.tombstones }

def clearChangesThrough (through : Nat) (store : Store) : Store :=
  { store with changeLog := store.changeLog.filter (fun entry => decide (through < entry.2)) }

end AstrLink.LocalStore
