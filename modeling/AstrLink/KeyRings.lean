import Mathlib.Data.List.Infix

/-!
The key ring of a store: its data keys, each wrapped under the local key. A start opens the envelopes, sets
aside those that no longer open and makes what is missing; one that fails changes nothing.
-/
namespace AstrLink.KeyRings

abbrev Bytes := List UInt8

abbrev Text := List Char

def keyBytes : Nat := 32

def nonceBytes : Nat := 12

def kindSecrets : Text := "secrets".toList

def kindAudit : Text := "audit".toList

structure KeyEnvelope where
  kind : Text
  nonce : Bytes
  wrapped : Bytes
  createdAt : Text
deriving DecidableEq

/-- What the ring reads and writes; a test build has a table `audit_keys`. -/
structure Database where
  envelopes : List KeyEnvelope
  auditKeys : Option (Option Bytes)
deriving DecidableEq

inductive KeyRingMode where
  | repair
  | strict
  | readOnly
deriving DecidableEq

inductive KeyRingError where
  | invalidArgument (what : String)
  | invalidRecord (what : String)
  | needsCoreStart (what : Text)
  | localKeyMismatch (kind : Text)
  | random (what : String)
  | constraint (what : String)

/-- AES-256-GCM with additional data. -/
structure Cipher where
  sealAES : Bytes → Bytes → Bytes → Text → Bytes
  openAES : Bytes → Bytes → Bytes → Text → Option Bytes

def Cipher.Opens (cipher : Cipher) : Prop :=
  ∀ key nonce plain data, key.length = keyBytes → nonce.length = nonceBytes →
    cipher.openAES key nonce (cipher.sealAES key nonce plain data) data = some plain

/-- What a start draws at random, or why it cannot. -/
structure Draws where
  newKey : Text → Except String { key : Bytes // key.length = keyBytes }
  nonce : Text → Except String { nonce : Bytes // nonce.length = nonceBytes }

structure Start where
  localKey : Bytes
  /-- The time of the start, as it is written. -/
  stamp : Text
  mode : KeyRingMode
  draws : Draws

structure KeyRing where
  secrets : Bytes
  audit : Bytes
  auditOrphaned : Bool
  secretsOrphaned : Bool

structure KeyRingResult where
  orphaned : List Text
  legacyAuditTable : Bool

/-- Text order, by code points. -/
def textLe : Text → Text → Bool
  | [], _ => true
  | _ :: _, [] => false
  | char :: rest, other :: more =>
    if char.toNat < other.toNat then true else if other.toNat < char.toNat then false else textLe rest more

/-- `ORDER BY created_at DESC, kind DESC` -/
def newer (row other : KeyEnvelope) : Bool :=
  if row.createdAt = other.createdAt then textLe other.kind row.kind else textLe other.createdAt row.createdAt

def envelopeOf (rows : List KeyEnvelope) (kind : Text) : Option KeyEnvelope := rows.find? fun row => row.kind = kind

def orphanedPrefix ( kind : Text) : Text := kind ++ ".orphaned.".toList

def setAside (rows : List KeyEnvelope) (kind : Text) : List KeyEnvelope :=
  (rows.filter fun row => (orphanedPrefix kind).isPrefixOf row.kind).mergeSort newer

def KeyEnvelope.renamed (row : KeyEnvelope) (old new : Text) : KeyEnvelope := if row.kind = old then { row with kind := new } else row

/-- `UPDATE key_envelopes SET kind = ? WHERE kind = ?`, the kind being the primary key. -/
def renameKind (rows : List KeyEnvelope) (old new : Text) : Except KeyRingError (List KeyEnvelope) :=
  if old ≠ new ∧ rows.any (fun row => row.kind = old) ∧ rows.any (fun row => row.kind = new) then
    .error (.constraint "UNIQUE constraint failed: key_envelopes.kind")
  else .ok (rows.map fun row => row.renamed old new)

def insertRow (rows : List KeyEnvelope) (row : KeyEnvelope) : Except KeyRingError (List KeyEnvelope) :=
  if rows.any (fun other => other.kind = row.kind) then .error (.constraint "UNIQUE constraint failed: key_envelopes.kind")
  else if row.nonce.length ≠ nonceBytes then .error (.constraint "CHECK constraint failed: length(nonce) = 12")
  else .ok (rows ++ [row])

section
variable (cipher : Cipher)

/-- Opens an envelope written by `wrap` for the same kind. -/
def unwrap (localKey nonce wrapped : Bytes) (kind : Text) : Option Bytes :=
  if localKey.length ≠ keyBytes ∨ kind = [] then none
  else (cipher.openAES localKey nonce wrapped kind).filter fun dek => dek.length = keyBytes

def wrap (localKey dek : Bytes) (kind : Text) (nonce : Except String { nonce : Bytes // nonce.length = nonceBytes }) :
    Except KeyRingError (Bytes × Bytes) :=
  if localKey.length ≠ keyBytes ∨ dek.length ≠ keyBytes ∨ kind = [] then .error (.invalidArgument "key envelope fields")
  else
    match nonce with
    | .error what => .error (.random what)
    | .ok nonce => .ok (nonce.val, cipher.sealAES localKey nonce.val dek kind)

def unwrapRow (localKey : Bytes) (kind : Text) (row : KeyEnvelope) : Option Bytes :=
  unwrap cipher localKey row.nonce row.wrapped kind

def restoreSetAsideEnvelope (localKey : Bytes) (rows : List KeyEnvelope) (kind : Text) : Option (Text × Bytes) :=
  (setAside rows kind).findSome? fun row => (unwrapRow cipher localKey kind row).map (row.kind, ·)

/-- The rows afterwards, the key for a kind if there is one, and whether a row was set aside. -/
def openEnvelope (start : Start) (rows : List KeyEnvelope) (kind : Text) :
    Except KeyRingError (List KeyEnvelope × Option Bytes × Bool) :=
  let present := envelopeOf rows kind
  match present.bind (unwrapRow cipher start.localKey kind) with
  | some dek => .ok (rows, some dek, false)
  | none =>
    if present.isSome ∧ start.mode ≠ .repair then .error (.localKeyMismatch kind)
    else if start.mode = .readOnly then
      .error (.needsCoreStart ("the ".toList ++ kind ++ " data key has not been created".toList))
    else
      let restored := restoreSetAsideEnvelope cipher start.localKey rows kind
      let kept := if present.isSome then renameKind rows kind (orphanedPrefix kind ++ start.stamp) else .ok rows
      match kept with
      | .error error => .error error
      | .ok rows =>
        match restored with
        | none => .ok (rows, none, present.isSome)
        | some (rowKind, dek) =>
          match renameKind rows rowKind kind with
          | .error error => .error error
          | .ok rows => .ok (rows, some dek, present.isSome)

def insertEnvelope (start : Start) (rows : List KeyEnvelope) (dek : Bytes) (kind rowKind : Text) :
    Except KeyRingError (List KeyEnvelope) :=
  match wrap cipher start.localKey dek kind (start.draws.nonce rowKind) with
  | .error error => .error error
  | .ok (nonce, wrapped) => insertRow rows ⟨rowKind, nonce, wrapped, start.stamp⟩

def legacyKind (kind stamp : Text) : Text := kind ++ ".legacy.".toList ++ stamp

/-- The key of a kind: opened, taken back or made, which a test build shares. -/
def ensureKind (start : Start) (legacy : Option Bytes) (rows : List KeyEnvelope) (kind : Text) :
    Except KeyRingError (List KeyEnvelope × Bytes × List Text) :=
  match openEnvelope cipher start rows kind with
  | .error error => .error error
  | .ok (rows, dek, orphaned) =>
    let aside := if orphaned then [kind] else []
    match dek with
    | none =>
      let made : Except String Bytes := match legacy with
        | some legacy => if kind = kindAudit then .ok legacy else (start.draws.newKey kind).map Subtype.val
        | none => (start.draws.newKey kind).map Subtype.val
      match made with
      | .error what => .error (.random what)
      | .ok dek =>
        match insertEnvelope cipher start rows dek kind kind with
        | .error error => .error error
        | .ok rows => .ok (rows, dek, aside)
    | some dek =>
      match legacy with
      | none => .ok (rows, dek, aside)
      | some legacy =>
        if kind = kindAudit ∧ dek ≠ legacy then
          match insertEnvelope cipher start rows legacy kind (legacyKind kind start.stamp) with
          | .error error => .error error
          | .ok rows => .ok (rows, dek, aside ++ [kind])
        else .ok (rows, dek, aside)

/-- The plaintext audit key a test build kept, and whether its table is there. -/
def readLegacyAuditKey (database : Database) : Except KeyRingError (Option Bytes × Bool) :=
  match database.auditKeys with
  | none => .ok (none, false)
  | some none => .ok (none, true)
  | some (some key) => if key.length ≠ keyBytes then .error (.invalidRecord "audit key length") else .ok (some key, true)

def isLike (kind rowKind : Text) : Bool := (kind ++ ['.']).isPrefixOf (rowKind.map Char.toLower)

/-- Opens or creates the envelopes, in one transaction. -/
def ensureKeyRing (start : Start) (database : Database) : Except KeyRingError (Database × KeyRing × KeyRingResult) :=
  if start.localKey.length ≠ keyBytes then .error (.invalidArgument "local key length")
  else
    match readLegacyAuditKey database with
    | .error error => .error error
    | .ok (legacy, table) =>
      if legacy.isSome ∧ start.mode = .readOnly then
        .error (.needsCoreStart "a plaintext audit key is waiting to be wrapped".toList)
      else
        match ensureKind cipher start legacy database.envelopes kindSecrets with
        | .error error => .error error
        | .ok (rows, secrets, orphaned) =>
          match ensureKind cipher start legacy rows kindAudit with
          | .error error => .error error
          | .ok (rows, audit, more) =>
            let auditKeys := if legacy.isSome then some none else database.auditKeys
            let ring : KeyRing :=
              { secrets, audit, auditOrphaned := rows.any fun row => isLike kindAudit row.kind,
                secretsOrphaned := rows.any fun row => isLike kindSecrets row.kind }
            .ok (⟨rows, auditKeys⟩, ring, ⟨orphaned ++ more, table⟩)

/-- A start, and the database after it: a transaction that fails is rolled back. -/
def begin (database : Database) (start : Start) : Database × Except KeyRingError (KeyRing × KeyRingResult) :=
  match ensureKeyRing cipher start database with
  | .error error => (database, .error error)
  | .ok (database, ring, result) => (database, .ok (ring, result))

def afterStarts (database : Database) (starts : List Start) : Database :=
  starts.foldl (fun database start => (begin cipher database start).1) database

end

end AstrLink.KeyRings
