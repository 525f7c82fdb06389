import AstrLink.RawGrants
import AstrLink.Runs
import Mathlib.Logic.Relation

/-!
Runs of the registry of raw grants: the operations in any order and at any
time, decisions that carry a held key, and the leases that claims hand out.
`log` records what happened, oldest first; a grant has ended once it is logged
as ended.
-/
namespace AstrLink.RawGrantRuns
open RawGrants Runs
open Function (update)
open Relation (ReflTransGen)

variable {Hash : Type}

inductive Event (Hash : Type) where
  | created (id requestID : String) (tokenHash : Hash)
  /-- A proof was accepted, and the key it opens is held for a decision. -/
  | held (holder : Nat)
  /-- A decision that carries the held key approved the grant. -/
  | approved (id : String) (mode : GrantMode) (holder : Nat)
  /-- A token was accepted for a request without a read. -/
  | allowed (id requestID : String) (tokenHash : Hash)
  | claimed (lease : Nat) (id requestID : String) (tokenHash : Hash)
  /-- The lease of a lasting grant opened a part. -/
  | opened (lease : Nat) (id : String)
  | ended (id : String)
  | revokedAll
deriving DecidableEq

structure World (Hash : Type) where
  registry : Registry Hash
  /-- The holders of decisions under way. -/
  held : List Nat
  nextHolder : Nat
  leases : List Lease
  log : List (Event Hash)

def start : World Hash :=
  { registry := { grants := [], holders := fun _ => none }, held := [], nextHolder := 0, leases := [], log := [] }

def endedBetween (before after : Registry Hash) : List (Event Hash) :=
  ((before.grants.map (·.id)).filter fun id => before.hasLive id && !after.hasLive id).map .ended

inductive Act (Hash : Type) where
  | create (now : Nat) (id : String) (tokenHash : Hash) (requestID reason clientName : String)
  /-- `HoldKey` accepts a proof. -/
  | hold (key : Key)
  /-- A decision is given up before it is made. -/
  | abandon (holder : Nat)
  /-- A decision that carries a held key; a grant for one use takes the keys. -/
  | approve (now : Nat) (id : String) (mode : GrantMode) (keys : List (AuditDirection × Key)) (holder : Nat)
  | deny (now : Nat) (id : String)
  | claim (now later : Nat) (tokenHash : Hash) (requestID : String)
  | check (now : Nat) (tokenHash : Hash) (requestID : String)
  | revoke (now : Nat) (id : String)
  | revokeToken (now : Nat) (tokenHash : Hash)
  | revokeAll (now : Nat)
  /-- A timer, or an operation that only looks. -/
  | expire (now : Nat)
  | openPart (lease : Nat)
  | release (lease : Nat)

def drawn (id : String) : Event Hash → Bool
  | .created other _ _ => other = id
  | _ => false

def drawnToken [DecidableEq Hash] (tokenHash : Hash) : Event Hash → Bool
  | .created _ _ other => other = tokenHash
  | _ => false

namespace World

/-- The registry expires what is due, and then comes to the given state through what is logged. -/
def settle (world : World Hash) (now : Nat) (after : Registry Hash) (events : List (Event Hash)) : World Hash :=
  let expired := world.registry.expireLocked now
  { world with
    registry := after
    log := world.log ++ endedBetween world.registry expired ++ events ++ endedBetween expired after }

/-- What comes of a decision that carries a held key. -/
def conclude (world : World Hash) (now : Nat) (id : String) (mode : GrantMode) (holder : Nat) :
    Registry Hash × Except GrantError (RawGrant Hash) → World Hash
  | (after, .ok _) => { world.settle now after [.approved id mode holder] with held := world.held.erase holder }
  | (after, .error _) => { world.settle now after [] with held := world.held.erase holder }

variable [DecidableEq Hash]

/-- The random id and the random token of a request were not drawn before. -/
def step (world : World Hash) : Act Hash → Option (World Hash)
  | .create now id tokenHash requestID reason clientName =>
    if world.log.any (drawn id) || world.log.any (drawnToken tokenHash) then none
    else
      match world.registry.create now id tokenHash requestID reason clientName with
      | (after, .ok _) =>
        let settled := world.settle now after []
        some { settled with log := settled.log ++ [.created id requestID tokenHash] }
      | (after, .error _) => some (world.settle now after [])
  | .hold key =>
    some { world with
      registry := { world.registry with holders := update world.registry.holders world.nextHolder (some key) }
      held := world.nextHolder :: world.held
      nextHolder := world.nextHolder + 1
      log := world.log ++ [.held world.nextHolder] }
  | .abandon holder =>
    if holder ∈ world.held then
      some { world with registry := world.registry.close (some holder), held := world.held.erase holder }
    else none
  | .approve now id mode keys holder =>
    if holder ∈ world.held ∧ mode ≠ .deny then
      if mode.lasting then
        some (world.conclude now id mode holder (world.registry.decide now id mode [] (some holder)))
      else
        -- A decision for one use closes its holder once it has opened the keys.
        let world := { world with registry := world.registry.close (some holder) }
        some (world.conclude now id mode holder (world.registry.decide now id mode keys none))
    else none
  | .deny now id => some (world.settle now (world.registry.decide now id .deny [] none).1 [])
  | .claim now later tokenHash requestID =>
    match world.registry.claim now later tokenHash requestID with
    | (after, .ok lease) =>
      let claimed := .claimed world.leases.length lease.grantID requestID tokenHash
      some { world.settle now after [claimed] with leases := world.leases ++ [lease] }
    | (after, .error _) => some (world.settle now after [])
  | .check now tokenHash requestID =>
    match world.registry.check now tokenHash requestID with
    | (after, .ok grant) => some (world.settle now after [.allowed grant.id requestID tokenHash])
    | (after, .error _) => some (world.settle now after [])
  | .revoke now id => some (world.settle now (world.registry.revoke now id).1 [])
  | .revokeToken now tokenHash => some (world.settle now (world.registry.revokeToken now tokenHash).1 [])
  | .revokeAll now =>
    let after := world.registry.revokeAll now
    some { world with registry := after, log := world.log ++ endedBetween world.registry after ++ [.revokedAll] }
  | .expire now => some (world.settle now (world.registry.expireLocked now) [])
  | .openPart i =>
    match world.leases[i]? with
    | some lease =>
      match lease.opener with
      | some holder =>
        if (world.registry.holders holder).isSome then
          some { world with log := world.log ++ [.opened i lease.grantID] }
        else some world
      | none => some world
    | none => none
  | .release i => some { world with leases := world.leases.modify i fun lease => { lease with keys := [] } }

end World

/-- A piece of a step. -/
inductive Move : World Hash → World Hash → Prop where
  | evolve (world : World Hash) (after : Registry Hash) (evolves : Evolves world.registry after) :
      Move world { world with registry := after, log := world.log ++ endedBetween world.registry after }
  | create (world : World Hash) (grant : RawGrant Hash) (undrawn : ∀ event ∈ world.log, drawn grant.id event = false)
      (below : world.registry.grants.countP (fun grant => grant.status = .pending) < maxPendingRawGrants)
      (isPending : grant.status = .pending) (keys : grant.keys = []) (holder : grant.holder = none) :
      Move world { world with
        registry := { world.registry with grants := world.registry.grants ++ [grant] }
        log := world.log ++ [.created grant.id grant.requestID grant.tokenHash] }
  | hold (world : World Hash) (key : Key) :
      Move world { world with
        registry := { world.registry with holders := update world.registry.holders world.nextHolder (some key) }
        held := world.nextHolder :: world.held
        nextHolder := world.nextHolder + 1
        log := world.log ++ [.held world.nextHolder] }
  | drop (world : World Hash) (holder : Nat) (closed : world.registry.holders holder = none) :
      Move world { world with held := world.held.erase holder }
  | approve (world : World Hash) (grant decided : RawGrant Hash) (listed : grant ∈ world.registry.grants)
      (isPending : grant.status = .pending) (mode : GrantMode) (approves : mode ≠ .deny) (holder : Nat)
      (isHeld : holder ∈ world.held) (closed : mode.lasting = true ∨ world.registry.holders holder = none)
      (id : decided.id = grant.id) (request : decided.requestID = grant.requestID)
      (token : decided.tokenHash = grant.tokenHash) (status : decided.status = .approved)
      (hasMode : decided.mode = some mode) (takes : decided.holder = if mode.lasting then some holder else none) :
      Move world { world with
        registry := world.registry.replace grant.id decided
        held := world.held.erase holder
        log := world.log ++ [.approved grant.id mode holder] }
  | allow (world : World Hash) (grant : RawGrant Hash) (listed : grant ∈ world.registry.grants)
      (approved : grant.status = .approved) (requestID : String)
      (reaches : grant.requestID = requestID ∨ grant.lasting = true) :
      Move world { world with log := world.log ++ [.allowed grant.id requestID grant.tokenHash] }
  | claimLasting (world : World Hash) (grant : RawGrant Hash) (listed : grant ∈ world.registry.grants)
      (approved : grant.status = .approved) (lasting : grant.lasting = true) (requestID : String) :
      Move world { world with
        leases := world.leases ++ [{ grantID := grant.id, requestID, keys := [], opener := grant.holder }]
        log := world.log ++ [.claimed world.leases.length grant.id requestID grant.tokenHash] }
  | claimOnce (world : World Hash) (grant : RawGrant Hash) (listed : grant ∈ world.registry.grants)
      (approved : grant.status = .approved) (once : grant.lasting = false) (after : Registry Hash)
      (evolves : Evolves world.registry after) (ended : after.hasLive grant.id = false) :
      Move world { world with
        registry := after
        leases := world.leases ++
          [{ grantID := grant.id, requestID := grant.requestID, keys := grant.keys, opener := none }]
        log := world.log ++ [.claimed world.leases.length grant.id grant.requestID grant.tokenHash] ++
          endedBetween world.registry after }
  | openPart (world : World Hash) (i : Nat) (lease : Lease) (leased : world.leases[i]? = some lease) (holder : Nat)
      (opener : lease.opener = some holder) (isOpen : world.registry.holders holder ≠ none) :
      Move world { world with log := world.log ++ [.opened i lease.grantID] }
  | release (world : World Hash) (i : Nat) :
      Move world { world with leases := world.leases.modify i fun lease => { lease with keys := [] } }
  | revokedAll (world : World Hash) (none : ∀ id, world.registry.hasLive id = false) :
      Move world { world with log := world.log ++ [.revokedAll] }

@[simp] theorem mem_endedBetween {before after : Registry Hash} {event : Event Hash} :
    event ∈ endedBetween before after ↔ ∃ id, event = .ended id ∧ before.hasLive id = true ∧
      after.hasLive id = false := by
  simp only [endedBetween, List.mem_map, List.mem_filter, Bool.and_eq_true, Bool.not_eq_true']
  constructor
  · rintro ⟨id, ⟨-, live, ended⟩, rfl⟩
    exact ⟨id, rfl, live, ended⟩
  · rintro ⟨id, rfl, live, ended⟩
    obtain ⟨grant, listed, rfl, isLive⟩ := hasLive_iff.mp live
    exact ⟨grant.id, ⟨⟨grant, listed, rfl⟩, live, ended⟩, rfl⟩

end AstrLink.RawGrantRuns
