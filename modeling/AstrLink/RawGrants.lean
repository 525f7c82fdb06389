import Mathlib.Data.List.Nodup

/-!
The registry of agent grants for raw audit parts: pending, approved and ended ones. Every operation first ends
what has expired, by a wall clock that may jump. `holders` says which holders still have their key.
-/
namespace AstrLink.RawGrants
open List
open Function (update)

inductive AuditDirection where
  | request
  | response
  | httpMeta
  | upstreamRequest
  | upstreamResponse
  | upstreamHTTPMeta

inductive GrantStatus where
  | pending
  | approved
  | denied
  | expired
  | consumed
  | revoked
deriving DecidableEq

inductive GrantMode where
  | once
  | untilLock
  | window1h
  | deny
deriving DecidableEq

/-- Whether the grant reads every request until it ends. -/
def GrantMode.lasting : GrantMode → Bool
  | .untilLock | .window1h => true
  | .once | .deny => false

def second : Nat := 1000000000

/-- How long a lasting grant runs at most. -/
def GrantMode.window : GrantMode → Option Nat
  | .window1h => some (3600 * second)
  | .untilLock | .once | .deny => none

def pendingTTL : Nat := 600 * second

/-- How long an approved grant for one use waits for its read. -/
def onceTTL : Nat := 900 * second

/-- How long a finished grant is kept. -/
def finishedTTL : Nat := 900 * second

def maxPendingRawGrants : Nat := 16

abbrev Key := List UInt8

structure RawGrant (Hash : Type) where
  id : String
  tokenHash : Hash
  requestID : String
  status : GrantStatus
  mode : Option GrantMode
  reason : String
  clientName : String
  createdAt : Nat
  /-- None for an approved grant that only a lock or a revocation ends. -/
  expiresAt : Option Nat
  keys : List (AuditDirection × Key)
  holder : Option Nat

variable {Hash : Type}

def RawGrant.live (grant : RawGrant Hash) : Bool :=
  grant.status = .pending || grant.status = .approved

def RawGrant.lasting (grant : RawGrant Hash) : Bool :=
  grant.mode.any GrantMode.lasting

def isActiveRawGrant (grant : RawGrant Hash) : Bool :=
  grant.status = .approved && grant.lasting

/-- Ends a live grant and drops what it holds. -/
def RawGrant.end (grant : RawGrant Hash) (status : GrantStatus) (now : Nat) : RawGrant Hash :=
  { grant with
    status
    expiresAt := some ((grant.expiresAt.map (min now)).getD now)
    keys := [], holder := none }

/-- The time of a live grant ran out. -/
def RawGrant.due (now : Nat) (grant : RawGrant Hash) : Bool :=
  grant.live && grant.expiresAt.any (· ≤ now)

/-- The grant is finished, and was kept long enough. -/
def RawGrant.forgotten (now : Nat) (grant : RawGrant Hash) : Bool :=
  !grant.live && grant.expiresAt.all (· + finishedTTL < now)

structure Registry (Hash : Type) where
  grants : List (RawGrant Hash)
  holders : Nat → Option Key

namespace Registry

def close (registry : Registry Hash) (holder : Option Nat) : Registry Hash :=
  { registry with holders := fun h => if holder = some h then none else registry.holders h }

def endWhere (registry : Registry Hash) (test : RawGrant Hash → Bool) (status : GrantStatus) (now : Nat) :
    Registry Hash :=
  { grants := registry.grants.map fun grant => if test grant then grant.end status now else grant
    holders := fun h => if registry.grants.any (fun grant => test grant && grant.holder = some h) then none
      else registry.holders h }

def replace (registry : Registry Hash) (id : String) (grant : RawGrant Hash) : Registry Hash :=
  { registry with grants := registry.grants.map fun other => if other.id = id then grant else other }

def get (registry : Registry Hash) (id : String) : Option (RawGrant Hash) :=
  registry.grants.find? fun grant => grant.id = id

/-- Ends grants whose time ran out and forgets finished ones. -/
def expireLocked (registry : Registry Hash) (now : Nat) : Registry Hash :=
  let registry := registry.endWhere (RawGrant.due now) .expired now
  { registry with grants := registry.grants.filter fun grant => !grant.forgotten now }

end Registry

inductive GrantError where
  | invalid
  | pending
  | denied
  | notFound
  | notPending
  | notActive
  | limited

def newGrant (now : Nat) (id : String) (tokenHash : Hash) (requestID reason clientName : String) : RawGrant Hash :=
  { id, tokenHash, requestID, status := .pending, mode := none, reason, clientName, createdAt := now
    expiresAt := some (now + pendingTTL), keys := [], holder := none }

def asksAgain (requestID clientName : String) (grant : RawGrant Hash) : Bool :=
  grant.status = .pending && grant.requestID = requestID && grant.clientName = clientName

namespace Registry

/-- A pending request of a client for a request; one it asked for before is replaced. -/
def add (registry : Registry Hash) (now : Nat) (id : String) (tokenHash : Hash) (requestID reason clientName : String) :
    Registry Hash × Except GrantError (RawGrant Hash) :=
  let registry := registry.endWhere (asksAgain requestID clientName) .expired now
  if maxPendingRawGrants ≤ registry.grants.countP (fun grant => grant.status = .pending) then
    (registry, .error .limited)
  else
    let grant := newGrant now id tokenHash requestID reason clientName
    ({ registry with grants := registry.grants ++ [grant] }, .ok grant)

def settle (registry : Registry Hash) (now : Nat) (id : String) (mode : GrantMode) (keys : List (AuditDirection × Key))
    (holder : Option Nat) : Registry Hash × Except GrantError (RawGrant Hash) :=
  match registry.get id with
  | none => (registry.close holder, .error .notFound)
  | some grant =>
    if grant.status = .pending then
      match mode with
      | .deny =>
        let decided := { grant with mode := some mode, status := .denied }
        ((registry.close holder).replace id decided, .ok decided)
      | .untilLock | .window1h =>
        let decided := { grant with
          mode := some mode, status := .approved, holder, expiresAt := mode.window.map (now + ·) }
        (registry.replace id decided, .ok decided)
      | .once =>
        let decided := { grant with
          mode := some mode, status := .approved, expiresAt := some (now + onceTTL), keys }
        ((registry.close holder).replace id decided, .ok decided)
    else (registry.close holder, .error .notPending)

variable [DecidableEq Hash]

def byToken (registry : Registry Hash) (tokenHash : Hash) : Option (RawGrant Hash) :=
  registry.grants.find? fun grant => grant.tokenHash = tokenHash

def lookup (registry : Registry Hash) (tokenHash : Hash) (requestID : String) : Except GrantError (RawGrant Hash) :=
  match registry.byToken tokenHash with
  | none => .error .invalid
  | some grant =>
    -- Only a running lasting grant reaches past the request it was asked for.
    if grant.requestID ≠ requestID && !isActiveRawGrant grant then .error .invalid
    else
      match grant.status with
      | .pending => .error .pending
      | .denied => .error .denied
      | .approved => .ok grant
      | .expired | .consumed | .revoked => .error .invalid

end Registry

/-- One claimed read: the part keys of a grant for one use, or the holder of a lasting one. -/
structure Lease where
  grantID : String
  requestID : String
  keys : List (AuditDirection × Key)
  opener : Option Nat

namespace Registry
variable [DecidableEq Hash]

/-- Takes one read. A grant for one use is consumed by it. -/
def take (registry : Registry Hash) (now : Nat) (tokenHash : Hash) (requestID : String) :
    Registry Hash × Except GrantError Lease :=
  match registry.lookup tokenHash requestID with
  | .error error => (registry, .error error)
  | .ok grant =>
    if grant.lasting then
      (registry, .ok { grantID := grant.id, requestID, keys := [], opener := grant.holder })
    else
      (registry.endWhere (fun other => other.id = grant.id) .consumed now,
        .ok { grantID := grant.id, requestID, keys := grant.keys, opener := none })

def create (registry : Registry Hash) (now : Nat) (id : String) (tokenHash : Hash)
    (requestID reason clientName : String) : Registry Hash × Except GrantError (RawGrant Hash) :=
  (registry.expireLocked now).add now id tokenHash requestID reason clientName

/-- A copy of a grant still awaiting a decision. -/
def pendingGrant (registry : Registry Hash) (now : Nat) (id : String) :
    Registry Hash × Except GrantError (RawGrant Hash) :=
  let registry := registry.expireLocked now
  match registry.get id with
  | none => (registry, .error .notFound)
  | some grant => (registry, if grant.status = .pending then .ok grant else .error .notPending)

def decide (registry : Registry Hash) (now : Nat) (id : String) (mode : GrantMode)
    (keys : List (AuditDirection × Key)) (holder : Option Nat) : Registry Hash × Except GrantError (RawGrant Hash) :=
  (registry.expireLocked now).settle now id mode keys holder

/-- Ends every grant still pending or approved. -/
def revokeAll (registry : Registry Hash) (now : Nat) : Registry Hash :=
  (registry.endWhere RawGrant.live .revoked now).expireLocked now

/-- Ends one running lasting grant by id. -/
def revoke (registry : Registry Hash) (now : Nat) (id : String) : Registry Hash × Except GrantError Unit :=
  let registry := registry.expireLocked now
  match registry.get id with
  | none => (registry, .error .notFound)
  | some grant =>
    if isActiveRawGrant grant then (registry.endWhere (fun other => other.id = id) .revoked now, .ok ())
    else (registry, .error .notActive)

/-- Ends the grant a token names; whether this call ended it. -/
def revokeToken (registry : Registry Hash) (now : Nat) (tokenHash : Hash) :
    Registry Hash × Except GrantError Bool :=
  let registry := registry.expireLocked now
  match registry.byToken tokenHash with
  | none => (registry, .error .invalid)
  | some grant =>
    if grant.live then (registry.endWhere (fun other => other.id = grant.id) .revoked now, .ok true)
    else (registry, .ok false)

/-- Validates a token for a request without spending a read. -/
def check (registry : Registry Hash) (now : Nat) (tokenHash : Hash) (requestID : String) :
    Registry Hash × Except GrantError (RawGrant Hash) :=
  let registry := registry.expireLocked now
  (registry, registry.lookup tokenHash requestID)

/-- `later` is the time when a grant for one use is consumed. -/
def claim (registry : Registry Hash) (now later : Nat) (tokenHash : Hash) (requestID : String) :
    Registry Hash × Except GrantError Lease :=
  (registry.expireLocked now).take later tokenHash requestID

end Registry

/-! ### What the operations do -/

def Distinct (registry : Registry Hash) : Prop := (registry.grants.map (·.id)).Nodup

variable {registry : Registry Hash} {grant : RawGrant Hash}

theorem Distinct.eq (distinct : Distinct registry) {other : RawGrant Hash} (listed : grant ∈ registry.grants)
    (otherListed : other ∈ registry.grants) (same : grant.id = other.id) :
    grant = other :=
  inj_on_of_nodup_map distinct listed otherListed same

/-- A grant of this id is still pending or approved. -/
def Registry.hasLive (registry : Registry Hash) (id : String) : Bool :=
  registry.grants.any fun grant => grant.id = id && grant.live

variable {id : String}

theorem hasLive_iff :
    registry.hasLive id = true ↔ ∃ grant ∈ registry.grants, grant.id = id ∧ grant.live = true := by
  simp [Registry.hasLive]

theorem hasLive_of (listed : grant ∈ registry.grants) (live : grant.live = true) : registry.hasLive grant.id = true :=
  hasLive_iff.mpr ⟨grant, listed, rfl, live⟩

theorem live_of_approved (approved : grant.status = .approved) : grant.live = true := by
  simp [RawGrant.live, approved]

theorem live_of_pending (isPending : grant.status = .pending) : grant.live = true := by
  simp [RawGrant.live, isPending]

/-- Grants only end, and lose what they hold. -/
structure Evolves (before after : Registry Hash) : Prop where
  grants : ∀ grant ∈ after.grants, grant ∈ before.grants ∨ grant.live = false ∧ grant.keys = [] ∧ grant.holder = none ∧
    ∃ old ∈ before.grants, old.id = grant.id ∧ old.requestID = grant.requestID ∧ old.tokenHash = grant.tokenHash
  distinct : Distinct before → Distinct after
  pending : after.grants.countP (fun grant => grant.status = .pending) ≤
    before.grants.countP (fun grant => grant.status = .pending)
  /-- A holder that stays open stays with its grant. -/
  holders : ∀ h key, after.holders h = some key → before.holders h = some key ∧
    ∀ grant ∈ before.grants, grant.holder = some h → grant.live = true → grant ∈ after.grants

theorem Evolves.refl (registry : Registry Hash) : Evolves registry registry where
  grants := fun _ listed => .inl listed
  distinct := id
  pending := Nat.le_refl _
  holders := fun _ _ isOpen => ⟨isOpen, fun _ listed _ _ => listed⟩

theorem Evolves.trans {first second third : Registry Hash} (early : Evolves first second)
    (late : Evolves second third) : Evolves first third where
  grants := fun grant listed => by
    rcases late.grants grant listed with kept | ⟨ended, keys, holder, old, oldListed, id, request, token⟩
    · exact early.grants grant kept
    · refine .inr ⟨ended, keys, holder, ?_⟩
      rcases early.grants old oldListed with kept | ⟨-, -, -, older, olderListed, id', request', token'⟩
      · exact ⟨old, kept, id, request, token⟩
      · exact ⟨older, olderListed, id'.trans id, request'.trans request, token'.trans token⟩
  distinct := fun distinct => late.distinct (early.distinct distinct)
  pending := Nat.le_trans late.pending early.pending
  holders := fun h key isOpen => by
    obtain ⟨wasOpen, stays⟩ := late.holders h key isOpen
    obtain ⟨wasOpen', stays'⟩ := early.holders h key wasOpen
    exact ⟨wasOpen', fun grant listed holds live => stays grant (stays' grant listed holds live) holds live⟩

variable {before after : Registry Hash}

theorem Evolves.live (evolves : Evolves before after) (listed : grant ∈ after.grants) (live : grant.live = true) :
    grant ∈ before.grants := by
  rcases evolves.grants grant listed with kept | ⟨ended, -⟩
  · exact kept
  · simp [ended] at live

theorem Evolves.hasLive (evolves : Evolves before after) (live : after.hasLive id = true) :
    before.hasLive id = true := by
  obtain ⟨grant, listed, rfl, isLive⟩ := hasLive_iff.mp live
  exact hasLive_of (evolves.live listed isLive) isLive

def GrantStatus.final : GrantStatus → Bool
  | .pending | .approved => false
  | .denied | .expired | .consumed | .revoked => true

theorem live_eq (grant : RawGrant Hash) : grant.live = !grant.status.final := by
  rw [RawGrant.live]
  cases grant.status <;> rfl

theorem endWhere_evolves (registry : Registry Hash) (test : RawGrant Hash → Bool) {status : GrantStatus}
    (final : status.final = true) (now : Nat) : Evolves registry (registry.endWhere test status now) where
  grants := by
    intro grant listed
    obtain ⟨old, oldListed, rfl⟩ := mem_map.mp listed
    split_ifs with ends
    · refine .inr ⟨?_, rfl, rfl, old, oldListed, rfl, rfl, rfl⟩
      rw [live_eq, RawGrant.end, final, Bool.not_true]
    · exact .inl oldListed
  distinct := by
    intro distinct
    have same : (fun grant : RawGrant Hash => grant.id) ∘ (fun grant => if test grant then grant.end status now else grant) =
        fun grant => grant.id := by
      funext grant
      simp only [Function.comp_apply]
      split_ifs <;> rfl
    simpa only [Distinct, Registry.endWhere, map_map, same] using distinct
  pending := by
    rw [Registry.endWhere, countP_map]
    refine countP_mono_left (fun grant _ isPending => ?_)
    simp only [Function.comp_apply] at isPending
    split_ifs at isPending
    · obtain rfl : status = .pending := of_decide_eq_true isPending
      simp [GrantStatus.final] at final
    · exact isPending
  holders := by
    intro h key isOpen
    simp only [Registry.endWhere] at isOpen
    split_ifs at isOpen with closed
    refine ⟨isOpen, fun grant listed holds live => mem_map.mpr ⟨grant, listed, ?_⟩⟩
    have kept : test grant = false := by
      by_contra ends
      exact closed (any_eq_true.mpr ⟨grant, listed, by simp [ends, holds]⟩)
    rw [kept]
    rfl

theorem expireLocked_evolves (registry : Registry Hash) (now : Nat) : Evolves registry (registry.expireLocked now) := by
  have ends : GrantStatus.expired.final = true := rfl
  refine (endWhere_evolves registry (RawGrant.due now) ends now).trans ⟨fun grant listed => ?_, fun distinct => ?_, ?_, ?_⟩
  · exact .inl (mem_filter.mp listed).1
  · exact distinct.sublist ((filter_sublist).map _)
  · exact (filter_sublist).countP_le
  · intro h key isOpen
    refine ⟨isOpen, fun grant listed holds live => mem_filter.mpr ⟨listed, ?_⟩⟩
    simp [RawGrant.forgotten, live]

theorem close_evolves (registry : Registry Hash) (holder : Option Nat) : Evolves registry (registry.close holder) where
  grants := fun _ listed => .inl listed
  distinct := id
  pending := Nat.le_refl _
  holders := by
    intro h key isOpen
    simp only [Registry.close] at isOpen
    split_ifs at isOpen
    exact ⟨isOpen, fun _ listed _ _ => listed⟩

theorem get_some (found : registry.get id = some grant) :
    grant ∈ registry.grants ∧ grant.id = id :=
  ⟨mem_of_find?_eq_some found, by simpa using find?_some found⟩

variable {decided : RawGrant Hash}

theorem mem_replace (listed : grant ∈ (registry.replace id decided).grants) :
    grant = decided ∨ grant ∈ registry.grants ∧ grant.id ≠ id := by
  obtain ⟨other, otherListed, rfl⟩ := mem_map.mp listed
  split_ifs with same
  · exact .inl rfl
  · exact .inr ⟨otherListed, same⟩

theorem replace_ids (registry : Registry Hash) (same : decided.id = id) :
    (registry.replace id decided).grants.map (·.id) = registry.grants.map (·.id) := by
  rw [Registry.replace, map_map]
  refine map_congr_left (fun grant _ => ?_)
  simp only [Function.comp_apply]
  split_ifs with isThis
  · rw [same, isThis]
  · rfl

theorem replace_pending (registry : Registry Hash) (id : String) (settled : decided.status ≠ .pending) :
    (registry.replace id decided).grants.countP (fun grant => grant.status = .pending) ≤
      registry.grants.countP (fun grant => grant.status = .pending) := by
  rw [Registry.replace, countP_map]
  refine countP_mono_left (fun grant _ isPending => ?_)
  simp only [Function.comp_apply] at isPending
  split_ifs at isPending
  · simp [settled] at isPending
  · exact isPending

/-- Grants that were not approved hold nothing. -/
def Bare (registry : Registry Hash) : Prop :=
  ∀ grant ∈ registry.grants, grant.status ≠ .approved → grant.keys = [] ∧ grant.holder = none

theorem Bare.approved (empty : Bare registry) (member : grant ∈ registry.grants) {holder : Nat}
    (has : grant.holder = some holder) : grant.status = .approved := by
  by_contra status
  rw [(empty grant member status).2] at has
  cases has

theorem Bare.evolves (empty : Bare before) (evolves : Evolves before after) :
    Bare after := by
  intro grant listed status
  rcases evolves.grants grant listed with kept | ⟨-, keys, holder, -⟩
  · exact empty grant kept status
  · exact ⟨keys, holder⟩

theorem deny_evolves (distinct : Distinct registry) (empty : Bare registry) (listed : grant ∈ registry.grants)
    (isPending : grant.status = .pending) :
    Evolves registry (registry.replace grant.id { grant with mode := some .deny, status := .denied }) := by
  obtain ⟨keys, holder⟩ := empty grant listed (by rw [isPending]; decide)
  refine ⟨fun other otherListed => ?_, fun distinct => ?_, replace_pending registry grant.id (by simp), ?_⟩
  · rcases mem_replace otherListed with rfl | ⟨kept, -⟩
    · exact .inr ⟨rfl, keys, holder, grant, listed, rfl, rfl, rfl⟩
    · exact .inl kept
  · rw [Distinct, replace_ids registry]
    · exact distinct
    · rfl
  · intro h key isOpen
    refine ⟨isOpen, fun other otherListed holds _ => mem_map.mpr ⟨other, otherListed, if_neg fun same => ?_⟩⟩
    obtain rfl := distinct.eq otherListed listed same
    rw [holder] at holds
    cases holds

theorem settle_deny_evolves (distinct : Distinct registry) (bare : Bare registry) (now : Nat) (id : String) :
    Evolves registry (registry.settle now id .deny [] none).1 := by
  have closes := close_evolves registry none
  rw [Registry.settle]
  split
  · exact closes
  · rename_i grant found
    obtain ⟨listed, rfl⟩ := get_some found
    split_ifs with isPending
    · exact closes.trans (deny_evolves distinct bare listed isPending)
    · exact closes

/-! ### The cases of each operation -/

theorem add_cases (registry : Registry Hash) (now : Nat) (id : String) (tokenHash : Hash)
    (requestID reason clientName : String) : ∃ after, Evolves registry after ∧
      ((registry.add now id tokenHash requestID reason clientName = (after, .error .limited)) ∨
        after.grants.countP (fun grant => grant.status = .pending) < maxPendingRawGrants ∧
          registry.add now id tokenHash requestID reason clientName =
            ({ after with grants := after.grants ++ [newGrant now id tokenHash requestID reason clientName] },
              .ok (newGrant now id tokenHash requestID reason clientName))) := by
  have ends : GrantStatus.expired.final = true := rfl
  refine ⟨_, endWhere_evolves registry (asksAgain requestID clientName) ends now, ?_⟩
  rw [Registry.add]
  dsimp only
  split_ifs with limit
  · exact .inl rfl
  · exact .inr ⟨by omega, rfl⟩

/-- What a decision makes of a pending grant that it approves. -/
def approvedGrant (grant : RawGrant Hash) (now : Nat) (mode : GrantMode) (keys : List (AuditDirection × Key))
    (holder : Option Nat) : RawGrant Hash :=
  if mode.lasting then
    { grant with mode := some mode, status := .approved, holder, expiresAt := mode.window.map (now + ·) }
  else { grant with mode := some mode, status := .approved, expiresAt := some (now + onceTTL), keys }

theorem settle_cases (registry : Registry Hash) (now : Nat) (id : String) (mode : GrantMode)
    (keys : List (AuditDirection × Key)) (holder : Option Nat) :
    (∃ error, registry.settle now id mode keys holder = (registry.close holder, .error error)) ∨
    ∃ grant ∈ registry.grants, grant.id = id ∧ grant.status = .pending ∧
      ((mode = .deny ∧ ∃ decided, registry.settle now id mode keys holder =
          ((registry.close holder).replace id { grant with mode := some .deny, status := .denied }, .ok decided)) ∨
        mode ≠ .deny ∧ registry.settle now id mode keys holder =
          ((if mode.lasting then registry else registry.close holder).replace id (approvedGrant grant now mode keys holder),
            .ok (approvedGrant grant now mode keys holder))) := by
  cases found : registry.get id with
  | none => exact .inl ⟨.notFound, by simp only [Registry.settle, found]⟩
  | some grant =>
    obtain ⟨listed, isThis⟩ := get_some found
    by_cases isPending : grant.status = .pending
    · refine .inr ⟨grant, listed, isThis, isPending, ?_⟩
      simp only [Registry.settle, found, isPending, if_true]
      cases mode with
      | deny => exact .inl ⟨rfl, _, rfl⟩
      | once => exact .inr ⟨by decide, rfl⟩
      | untilLock => exact .inr ⟨by decide, rfl⟩
      | window1h => exact .inr ⟨by decide, rfl⟩
    · exact .inl ⟨.notPending, by simp only [Registry.settle, found, if_neg isPending]⟩

section
variable [DecidableEq Hash]

theorem lookup_ok {tokenHash : Hash} {requestID : String} (found : registry.lookup tokenHash requestID = .ok grant) :
    grant ∈ registry.grants ∧ grant.tokenHash = tokenHash ∧
      grant.status = .approved ∧ (grant.requestID = requestID ∨ grant.lasting = true) := by
  rw [Registry.lookup] at found
  cases named : registry.byToken tokenHash with
  | none => simp [named] at found
  | some other =>
    simp only [named] at found
    split_ifs at found with elsewhere
    cases status : other.status with
    | approved =>
      simp only [status, Except.ok.injEq] at found
      subst found
      refine ⟨mem_of_find?_eq_some named, by simpa using find?_some named, status, ?_⟩
      simp only [isActiveRawGrant, status, decide_true, Bool.true_and, Bool.and_eq_true, decide_eq_true_eq, not_and,
        Bool.not_eq_true', Bool.not_eq_false] at elsewhere
      by_cases same : other.requestID = requestID
      · exact .inl same
      · exact .inr (elsewhere same)
    | pending | denied | expired | consumed | revoked => simp [status] at found

theorem take_cases (registry : Registry Hash) (now : Nat) (tokenHash : Hash) (requestID : String) :
    (∃ error, registry.take now tokenHash requestID = (registry, .error error)) ∨
    ∃ grant ∈ registry.grants, grant.tokenHash = tokenHash ∧ grant.status = .approved ∧
      ((grant.lasting = true ∧ registry.take now tokenHash requestID =
          (registry, .ok { grantID := grant.id, requestID, keys := [], opener := grant.holder })) ∨
        grant.lasting = false ∧ grant.requestID = requestID ∧ registry.take now tokenHash requestID =
          (registry.endWhere (fun other => other.id = grant.id) .consumed now,
            .ok { grantID := grant.id, requestID, keys := grant.keys, opener := none })) := by
  cases found : registry.lookup tokenHash requestID with
  | error error => exact .inl ⟨error, by simp only [Registry.take, found]⟩
  | ok grant =>
    obtain ⟨listed, token, approved, reaches⟩ := lookup_ok found
    refine .inr ⟨grant, listed, token, approved, ?_⟩
    cases lasting : grant.lasting with
    | true => exact .inl ⟨rfl, by simp only [Registry.take, found, lasting, if_true]⟩
    | false =>
      refine .inr ⟨rfl, reaches.resolve_right (by simp [lasting]), ?_⟩
      simp only [Registry.take, found, lasting]
      rfl

theorem revokeToken_evolves (registry : Registry Hash) (now : Nat) (tokenHash : Hash) :
    Evolves (registry.expireLocked now) (registry.revokeToken now tokenHash).1 := by
  have ends : GrantStatus.revoked.final = true := rfl
  rw [Registry.revokeToken]
  split
  · exact .refl _
  · split_ifs
    · exact endWhere_evolves _ _ ends now
    · exact .refl _

end

theorem revoke_evolves (registry : Registry Hash) (now : Nat) (id : String) :
    Evolves (registry.expireLocked now) (registry.revoke now id).1 := by
  have ends : GrantStatus.revoked.final = true := rfl
  rw [Registry.revoke]
  split
  · exact .refl _
  · split_ifs
    · exact endWhere_evolves _ _ ends now
    · exact .refl _

theorem endWhere_ended (registry : Registry Hash) {test : RawGrant Hash → Bool} {status : GrantStatus}
    (final : status.final = true) (now : Nat)
    (all : ∀ grant : RawGrant Hash, grant.id = id → grant.live = true → test grant = true) :
    (registry.endWhere test status now).hasLive id = false := by
  refine Bool.eq_false_iff.mpr (fun live => ?_)
  obtain ⟨grant, listed, isThis, isLive⟩ := hasLive_iff.mp live
  obtain ⟨old, -, rfl⟩ := mem_map.mp listed
  split_ifs at isThis isLive with ends
  · rw [live_eq, RawGrant.end, final] at isLive
    simp at isLive
  · exact ends (all old isThis isLive)

theorem revokeAll_evolves (registry : Registry Hash) (now : Nat) : Evolves registry (registry.revokeAll now) := by
  have ends : GrantStatus.revoked.final = true := rfl
  exact (endWhere_evolves registry RawGrant.live ends now).trans (expireLocked_evolves _ now)

theorem revokeAll_ended (registry : Registry Hash) (now : Nat) (id : String) :
    (registry.revokeAll now).hasLive id = false := by
  have ends : GrantStatus.revoked.final = true := rfl
  refine Bool.eq_false_iff.mpr (fun live => ?_)
  have before := (expireLocked_evolves _ now).hasLive live
  rw [endWhere_ended registry ends now (fun _ _ isLive => isLive)] at before
  cases before

end AstrLink.RawGrants
