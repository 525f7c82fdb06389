import AstrLink.Tables

/-!
The payload of a sync package: configuration entities named by a kind and by the
id that every device stores them under. A package is a complete view of the
configuration and not a diff. An instant is the number of nanoseconds since the
zero `time.Time`, which stands for "no time recorded".
-/
namespace AstrLink.Package
open Tables

/-- The kinds of entities; a decoded package may name an unknown one. -/
inductive Kind where
  | service
  | serviceCredential
  | serviceProxyCredential
  | builtinToolCredential
  | policy
  | pricingConfig
  | accessToken
  | other (name : String)
deriving DecidableEq

/-- The spelling of a kind in a package. -/
def Kind.name : Kind → String
  | .service => "service"
  | .serviceCredential => "service_credential"
  | .serviceProxyCredential => "service_proxy_credential"
  | .builtinToolCredential => "builtin_tool_credential"
  | .policy => "policy"
  | .pricingConfig => "pricing_config"
  | .accessToken => "access_token"
  | .other name => name

/-- Every kind a package carries, in a stable order. -/
def kinds : List Kind :=
  [.service, .serviceCredential, .serviceProxyCredential, .builtinToolCredential, .policy, .pricingConfig, .accessToken]

/-- The kinds whose entity carries a secret and no document. -/
def credentialKinds : List Kind := [.serviceCredential, .serviceProxyCredential, .builtinToolCredential]

def isCredentialKind (kind : Kind) : Bool := kind ∈ credentialKinds

abbrev Key := Kind × String

/-- One named configuration document. -/
structure Entity where
  revision : Int
  updatedAt : Nat
  deleted : Bool
  document : List UInt8
  secret : String
deriving DecidableEq

/-- The whole package payload, before sealing. -/
structure Document where
  version : Int
  deviceId : String
  revision : Int
  generated : Nat
  entities : Table Key Entity
  /-- The provider priority list, as entity ids. -/
  order : List String

def packageVersion : Int := 2

def legacyPackageVersion : Int := 1

def newDocument (deviceId : String) (revision : Int) (generated : Nat) : Document :=
  { version := packageVersion, deviceId, revision, generated, entities := ∅, order := [] }

/-- Records an entity in the package. -/
def Document.put (document : Document) (kind : Kind) (id : String) (entity : Entity) : Document :=
  { document with entities := document.entities.insert (kind, id) entity }

def Document.get (document : Document) (kind : Kind) (id : String) : Option Entity :=
  document.entities.lookup (kind, id)

/-- The live entity one side shows for a key: an absence and a tombstone both
    show nothing. -/
def live (side : Option Entity) : Option Entity := side.filter (fun entity => !entity.deleted)

@[simp] theorem live_none : live none = none := rfl

theorem live_eq_some {side : Option Entity} {entity : Entity} :
    live side = some entity ↔ side = some entity ∧ entity.deleted = false := by
  simp [live, Option.filter_eq_some_iff]

theorem live_eq_none {side : Option Entity} : live side = none ↔ ∀ entity, side = some entity → entity.deleted = true := by
  simp [live, Option.filter_eq_none_iff]

@[simp] theorem live_live (side : Option Entity) : live (live side) = live side := by
  cases side with
  | none => rfl
  | some entity => cases marked : entity.deleted <;> simp [live, Option.filter, marked]

@[simp] theorem newDocument_get (deviceId : String) (revision : Int) (generated : Nat) (kind : Kind) (id : String) :
    (newDocument deviceId revision generated).get kind id = none := AList.lookup_empty _

theorem get_put (document : Document) (kind other : Kind) (id otherId : String) (entity : Entity) :
    (document.put kind id entity).get other otherId =
      if (other, otherId) = (kind, id) then some entity else document.get other otherId :=
  lookup_insert_if _ _ _ _

end AstrLink.Package
