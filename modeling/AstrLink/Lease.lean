import Mathlib.Data.List.Induction

/-!
The single write lock on a remote, over any interleaving of the requests of its callers. `Guarded` is what
every one keeps: the lock object is that of every lease reported as held that has not lapsed and was not
replaced by its owner.
-/
namespace AstrLink.Lease
open Function (update_of_ne update_self)

structure Lock where
  owner : String
  nonce : String
  expiresAt : Nat
deriving DecidableEq

/-- The lock object and the entity tag the remote gave its content. -/
structure LockObject where
  lock : Lock
  tag : Nat

/-- Where a call stands. The empty tag of the source is `none`. -/
inductive Phase where
  | unused
  | acquiring (tries : Nat)
  | taking (tries : Nat) (expected : Option Nat) (seen : Option Lock)
  | held
  | renewing
  | extending (expected : Option Nat) (expires : Nat)
  | releasing
  | deleting (expected : Option Nat)
  | finished
deriving DecidableEq

/-- A call that has not reported a lease as held, or has given it up. -/
def Phase.silent : Phase → Bool
  | .acquiring _ | .taking _ _ _ | .releasing | .deleting _ | .finished => true
  | .unused | .held | .renewing | .extending _ _ => false

/-- One lease from its `Acquire` on, with the expiry that was last reported as held. -/
structure Session where
  owner : String
  nonce : String
  ttl : Nat
  wanted : Nat
  phase : Phase
  reported : Option Nat
  /-- A later `Acquire` of the same owner took the lock over. -/
  superseded : Bool

structure State where
  now : Nat
  object : Option LockObject
  /-- The content each tag was handed out for. -/
  tagged : Nat → Option Lock
  /-- The nonces that were generated so far. -/
  nonces : List String
  sessions : Nat → Session

def defaultLease : Nat := 5 * 60 * 1000000000

def unusedSession : Session := ⟨"", "", 0, 0, .unused, none, false⟩

/-- A reply can be lost after its request took effect, a call can fail before it, and a read may come without a tag. -/
inductive Action where
  | tick (later : Nat)
  | acquire (session : Nat) (owner nonce : String) (ttl : Nat)
  | readToTake (session : Nat) (shown : Bool)
  | take (session tag : Nat) (lost : Bool)
  | renew (session : Nat)
  | readToExtend (session : Nat) (shown : Bool)
  | extend (session tag : Nat) (lost : Bool)
  | release (session : Nat)
  | readToDelete (session : Nat) (shown : Bool)
  | delete (session : Nat)
  | fail (session : Nat)

def handedOut (object : Option LockObject) (shown : Bool) : Option Nat :=
  if shown then object.map LockObject.tag else none

/-- A conditional write goes through: the object is absent, or carries the tag. -/
def admits (object : Option LockObject) (expected : Option Nat) : Bool :=
  match expected, object with
  | none, none => true
  | some tag, some object => decide (object.tag = tag)
  | _, _ => false

/-- Whether a delete goes through: without a tag nothing is checked. -/
def deletes (object : Option LockObject) (expected : Option Nat) : Bool :=
  match expected with
  | none => true
  | some tag => object.any (fun object => decide (object.tag = tag))

def State.set (state : State) (session : Nat) (value : Session) : State :=
  { state with sessions := Function.update state.sessions session value }

def State.store (state : State) (lock : Lock) (tag : Nat) : State :=
  { state with object := some ⟨lock, tag⟩, tagged := Function.update state.tagged tag (some lock) }

/-- A tag the remote may give a content: a new one, or one it gave to it before. -/
def tagFree (state : State) (lock : Lock) (tag : Nat) : Bool :=
  decide (state.tagged tag = none ∨ state.tagged tag = some lock)

/-- The leases of an owner that an `Acquire` of its own takes over. -/
def supersede (owner : String) (session : Nat) (sessions : Nat → Session) : Nat → Session := fun other =>
  if other ≠ session ∧ (sessions other).owner = owner then { sessions other with superseded := true }
  else sessions other

/-- `Acquire` after its read: it ends at a lease that has not lapsed, or takes the lock. -/
def readToTake (state : State) (session : Nat) (shown : Bool) : State :=
  let self := state.sessions session
  match self.phase with
  | .acquiring tries =>
    match state.object with
    | none => state.set session { self with phase := .taking tries none none }
    | some object =>
      if object.lock.owner ≠ self.owner ∧ object.lock.expiresAt > state.now then
        state.set session { self with phase := .finished }
      else
        state.set session
          { self with phase := .taking tries (handedOut state.object shown) (some object.lock) }
  | _ => state

/-- `Acquire`'s conditional write; a lost race is tried again, three times in
    all. -/
def take (state : State) (session tag : Nat) (lost : Bool) : State :=
  let self := state.sessions session
  match self.phase with
  | .taking tries expected _ =>
    if admits state.object expected then
      let lock : Lock := ⟨self.owner, self.nonce, self.wanted⟩
      if tagFree state lock tag then
        let stored := state.store lock tag
        { stored with
          sessions := Function.update (supersede self.owner session state.sessions) session
            (if lost then { self with phase := .finished }
              else { self with phase := .held, reported := some self.wanted }) }
      else state
    else if tries + 1 < 3 then state.set session { self with phase := .acquiring (tries + 1) }
    else state.set session { self with phase := .finished }
  | _ => state

/-- `Renew` after its read: only the lock this lease wrote is extended. -/
def readToExtend (state : State) (session : Nat) (shown : Bool) : State :=
  let self := state.sessions session
  match self.phase with
  | .renewing =>
    match state.object with
    | none => state.set session { self with phase := .held }
    | some object =>
      if object.lock.nonce ≠ self.nonce then state.set session { self with phase := .held }
      else state.set session
        { self with phase := .extending (handedOut state.object shown) (state.now + self.ttl) }
  | _ => state

def extend (state : State) (session tag : Nat) (lost : Bool) : State :=
  let self := state.sessions session
  match self.phase with
  | .extending expected expires =>
    if admits state.object expected then
      let lock : Lock := ⟨self.owner, self.nonce, expires⟩
      if tagFree state lock tag then
        (state.store lock tag).set session
          (if lost then { self with phase := .held } else { self with phase := .held, reported := some expires })
      else state
    else state.set session { self with phase := .held }
  | _ => state

/-- `Release` after its read: only the lock this lease wrote is deleted. -/
def readToDelete (state : State) (session : Nat) (shown : Bool) : State :=
  let self := state.sessions session
  match self.phase with
  | .releasing =>
    match state.object with
    | none => state.set session { self with phase := .finished }
    | some object =>
      if object.lock.nonce ≠ self.nonce then state.set session { self with phase := .finished }
      else state.set session { self with phase := .deleting (handedOut state.object shown) }
  | _ => state

def delete (state : State) (session : Nat) : State :=
  let self := state.sessions session
  match self.phase with
  | .deleting expected =>
    let ended := state.set session { self with phase := .finished }
    if deletes state.object expected then { ended with object := none } else ended
  | _ => state

/-- A call that fails without an effect. A failed `Renew` leaves the lease to its
    caller. -/
def fail (state : State) (session : Nat) : State :=
  let self := state.sessions session
  match self.phase with
  | .acquiring _ | .taking _ _ _ | .releasing | .deleting _ => state.set session { self with phase := .finished }
  | .renewing | .extending _ _ => state.set session { self with phase := .held }
  | _ => state

/-- One request, or a passage of time; another call's action changes nothing. -/
def step (state : State) : Action → State
  | .tick later => { state with now := state.now + later }
  | .acquire session owner nonce ttl =>
    if (state.sessions session).phase = .unused ∧ owner ≠ "" ∧ nonce ∉ state.nonces then
      let lasting := if ttl = 0 then defaultLease else ttl
      { state.set session ⟨owner, nonce, lasting, state.now + lasting, .acquiring 0, none, false⟩ with
        nonces := nonce :: state.nonces }
    else state
  | .readToTake session shown => readToTake state session shown
  | .take session tag lost => take state session tag lost
  | .renew session =>
    if (state.sessions session).phase = .held then
      state.set session { state.sessions session with phase := .renewing }
    else state
  | .readToExtend session shown => readToExtend state session shown
  | .extend session tag lost => extend state session tag lost
  | .release session =>
    if (state.sessions session).phase = .held then
      state.set session { state.sessions session with phase := .releasing, reported := none }
    else state
  | .readToDelete session shown => readToDelete state session shown
  | .delete session => delete state session
  | .fail session => fail state session

/-- Before the first call: the remote may already hold a lock. -/
def start (object : Option LockObject) : State where
  now := 0
  object := object
  tagged tag := (object.filter (fun object => decide (object.tag = tag))).map LockObject.lock
  nonces := (object.map (fun object => object.lock.nonce)).toList
  sessions _ := unusedSession

def after (object : Option LockObject) (run : List Action) : State := run.foldl step (start object)

/-- A lease is reported as held and its expiry lies ahead. -/
def Reported (state : State) (session : Nat) : Prop :=
  ∃ expires, (state.sessions session).reported = some expires ∧ state.now < expires

/-- A reported lease that its own owner has not taken over. -/
def Holds (state : State) (session : Nat) : Prop :=
  Reported state session ∧ (state.sessions session).superseded = false

/-- The read of a `Release` hands out a tag. -/
def DeleteTagged : Action → Prop
  | .readToDelete _ shown => shown = true
  | _ => True

/-! ### The invariant -/

/-- What a session in progress knows about its tags and times. -/
structure Sound (state : State) (lease : Session) : Prop where
  takes : ∀ tries tag seen, lease.phase = .taking tries (some tag) seen →
    ∃ lock, state.tagged tag = some lock ∧ (lock.owner = lease.owner ∨ lock.expiresAt ≤ state.now)
  extends' : ∀ tag expires, lease.phase = .extending (some tag) expires →
    ∃ lock, state.tagged tag = some lock ∧ lock.nonce = lease.nonce
  prolongs : ∀ expected expires reported, lease.phase = .extending expected expires →
    lease.reported = some reported → reported ≤ expires
  extended : ∀ expected expires, lease.phase = .extending expected expires → expires ≤ state.now + lease.ttl
  deletes : ∀ expected, lease.phase = .deleting expected →
    ∃ tag lock, expected = some tag ∧ state.tagged tag = some lock ∧ lock.nonce = lease.nonce
  bounded : ∀ expires, lease.reported = some expires → expires ≤ state.now + lease.ttl
  wants : lease.wanted ≤ state.now + lease.ttl
  silent : lease.phase.silent = true → lease.reported = none

/-- The lock object is the one of a lease that holds. -/
def Covered (state : State) (lease : Session) : Prop :=
  ∀ expires, lease.reported = some expires → state.now < expires → lease.superseded = false →
    ∃ object, state.object = some object ∧ object.lock.nonce = lease.nonce ∧ expires ≤ object.lock.expiresAt

/-- What every interleaving of calls keeps. -/
structure Guarded (state : State) : Prop where
  named : ∀ object, state.object = some object → state.tagged object.tag = some object.lock
  known : ∀ tag lock, state.tagged tag = some lock → lock.nonce ∈ state.nonces
  owned : ∀ tag lock session, state.tagged tag = some lock → (state.sessions session).phase ≠ .unused →
    lock.nonce = (state.sessions session).nonce → lock.owner = (state.sessions session).owner
  generated : ∀ session, (state.sessions session).phase ≠ .unused → (state.sessions session).nonce ∈ state.nonces
  distinct : ∀ session other, (state.sessions session).phase ≠ .unused → (state.sessions other).phase ≠ .unused →
    (state.sessions session).nonce = (state.sessions other).nonce → session = other
  sound : ∀ session, (state.sessions session).phase ≠ .unused → Sound state (state.sessions session)
  covered : ∀ session, (state.sessions session).phase ≠ .unused → Covered state (state.sessions session)
  quiet : ∀ session, (state.sessions session).phase = .unused → (state.sessions session).reported = none

variable {state : State}

theorem Sound.mono {grown : State} {lease : Session} (sound : Sound state lease) (later : state.now ≤ grown.now)
    (kept : ∀ tag lock, state.tagged tag = some lock → grown.tagged tag = some lock) : Sound grown lease where
  takes tries tag seen taking := by
    obtain ⟨lock, content, free⟩ := sound.takes tries tag seen taking
    exact ⟨lock, kept tag lock content, free.imp_right (fun lapsed => Nat.le_trans lapsed later)⟩
  extends' tag expires extending := by
    obtain ⟨lock, content, own⟩ := sound.extends' tag expires extending
    exact ⟨lock, kept tag lock content, own⟩
  prolongs := sound.prolongs
  extended expected expires extending := Nat.le_trans (sound.extended expected expires extending) (by omega)
  deletes expected deleting := by
    obtain ⟨tag, lock, read, content, own⟩ := sound.deletes expected deleting
    exact ⟨tag, lock, read, kept tag lock content, own⟩
  bounded expires reported := Nat.le_trans (sound.bounded expires reported) (by omega)
  wants := Nat.le_trans sound.wants (by omega)
  silent := sound.silent

/-- A call in one of these phases carries nothing it read. -/
def Phase.plain : Phase → Bool
  | .taking _ (some _) _ | .extending _ _ | .deleting _ => false
  | _ => true

theorem Sound.plain {lease : Session} (bounded : ∀ expires, lease.reported = some expires → expires ≤ state.now + lease.ttl)
    (wants : lease.wanted ≤ state.now + lease.ttl) (silent : lease.phase.silent = true → lease.reported = none)
    (plain : lease.phase.plain = true) : Sound state lease := by
  refine ⟨?_, ?_, ?_, ?_, ?_, bounded, wants, silent⟩ <;> intros <;> simp_all [Phase.plain]

theorem Guarded.grow (guarded : Guarded state) {grown : State} (nonces : grown.nonces = state.nonces)
    (same : ∀ other, (grown.sessions other).owner = (state.sessions other).owner ∧
      (grown.sessions other).nonce = (state.sessions other).nonce ∧
      ((grown.sessions other).phase ≠ .unused → (state.sessions other).phase ≠ .unused))
    (written : ∀ tag lock, grown.tagged tag = some lock → state.tagged tag = some lock ∨
      ∃ session, (state.sessions session).phase ≠ .unused ∧ lock.owner = (state.sessions session).owner ∧
        lock.nonce = (state.sessions session).nonce)
    (named : ∀ object, grown.object = some object → grown.tagged object.tag = some object.lock)
    (sound : ∀ other, (grown.sessions other).phase ≠ .unused → Sound grown (grown.sessions other))
    (covered : ∀ other, (grown.sessions other).phase ≠ .unused → Covered grown (grown.sessions other))
    (quiet : ∀ other, (grown.sessions other).phase = .unused → (grown.sessions other).reported = none) :
    Guarded grown := by
  refine ⟨named, ?_, ?_, ?_, ?_, sound, covered, quiet⟩
  · intro tag lock content
    rw [nonces]
    rcases written tag lock content with old | ⟨session, used, _, lockNonce⟩
    · exact guarded.known tag lock old
    · exact lockNonce ▸ guarded.generated session used
  · intro tag lock other content active own
    obtain ⟨sameOwner, sameNonce, stays⟩ := same other
    rw [sameNonce] at own
    rw [sameOwner]
    rcases written tag lock content with old | ⟨session, used, lockOwner, lockNonce⟩
    · exact guarded.owned tag lock other old (stays active) own
    · rw [lockOwner, guarded.distinct session other used (stays active) (lockNonce.symm.trans own)]
  · intro other active
    rw [nonces, (same other).2.1]
    exact guarded.generated other ((same other).2.2 active)
  · intro other third active activeThird equal
    rw [(same other).2.1, (same third).2.1] at equal
    exact guarded.distinct other third ((same other).2.2 active) ((same third).2.2 activeThird) equal

variable {session : Nat}

theorem Guarded.set (guarded : Guarded state) {value : Session} (used : (state.sessions session).phase ≠ .unused)
    (stays : value.phase ≠ .unused) (sameOwner : value.owner = (state.sessions session).owner)
    (sameNonce : value.nonce = (state.sessions session).nonce) (sound : Sound state value)
    (covered : Covered state value) : Guarded (state.set session value) := by
  have either : ∀ other, other = session ∧ (state.set session value).sessions other = value ∨
      (state.set session value).sessions other = state.sessions other := by
    intro other
    by_cases same : other = session
    · exact .inl ⟨same, same ▸ update_self ..⟩
    · exact .inr (update_of_ne same ..)
  refine guarded.grow rfl (fun other => ?same) (fun _ _ => .inl) guarded.named (fun other active => ?sound)
    (fun other active => ?covered) (fun other idle => ?quiet)
  all_goals rcases either other with ⟨rfl, itself⟩ | elsewhere
  case same.inl =>
    rw [itself]
    exact ⟨sameOwner, sameNonce, fun _ => used⟩
  case same.inr => exact elsewhere ▸ ⟨rfl, rfl, id⟩
  case sound.inl =>
    rw [itself]
    exact sound.mono Nat.le.refl (fun _ _ content => content)
  case sound.inr =>
    rw [elsewhere] at active ⊢
    exact (guarded.sound other active).mono Nat.le.refl (fun _ _ content => content)
  case covered.inl =>
    rw [itself]
    exact covered
  case covered.inr =>
    rw [elsewhere] at active ⊢
    exact guarded.covered other active
  case quiet.inl => exact absurd (itself ▸ idle) stays
  case quiet.inr =>
    rw [elsewhere] at idle ⊢
    exact guarded.quiet other idle

theorem Guarded.moves (guarded : Guarded state) {phase : Phase} (used : (state.sessions session).phase ≠ .unused)
    (stays : phase ≠ .unused) (plain : phase.plain = true)
    (silent : phase.silent = true → (state.sessions session).reported = none) :
    Guarded (state.set session { state.sessions session with phase := phase }) :=
  guarded.set used stays rfl rfl
    (.plain (guarded.sound session used).bounded (guarded.sound session used).wants silent plain)
    (guarded.covered session used)

theorem Guarded.write (guarded : Guarded state) (session : Nat) {tag : Nat} {lock : Lock} {rest : Nat → Session}
    {value : Session} (used : (state.sessions session).phase ≠ .unused)
    (free : state.tagged tag = none ∨ state.tagged tag = some lock)
    (lockOwner : lock.owner = (state.sessions session).owner) (lockNonce : lock.nonce = (state.sessions session).nonce)
    (sameOwner : value.owner = (state.sessions session).owner)
    (sameNonce : value.nonce = (state.sessions session).nonce) (stays : value.phase ≠ .unused)
    (others : ∀ other, other ≠ session → rest other = state.sessions other ∨ rest other = { state.sessions other with superseded := true })
    (alone : ∀ other, other ≠ session → (state.sessions other).phase ≠ .unused → (rest other).superseded = false → ¬ Reported state other)
    (sound : Sound state value) (covered : Covered (state.store lock tag) value) :
    Guarded { state.store lock tag with sessions := Function.update rest session value } := by
  have kept : ∀ other lock', state.tagged other = some lock' → (state.store lock tag).tagged other = some lock' := by
    intro other lock' content
    by_cases same : other = tag
    · subst same
      rcases free with none | already
      · rw [none] at content
        cases content
      · rw [already] at content
        cases content
        exact update_self ..
    · exact (update_of_ne same ..).trans content
  have either : ∀ other, other = session ∧ Function.update rest session value other = value ∨
      other ≠ session ∧ Function.update rest session value other = rest other := by
    intro other
    by_cases same : other = session
    · exact .inl ⟨same, same ▸ update_self ..⟩
    · exact .inr ⟨same, update_of_ne same ..⟩
  refine guarded.grow rfl (fun other => ?same) (fun other lock' content => ?written) (fun object stored => ?named)
    (fun other active => ?sound) (fun other active => ?covered) (fun other idle => ?quiet)
  case written =>
    by_cases same : other = tag
    · subst same
      have given : (state.store lock other).tagged other = some lock := update_self ..
      cases given.symm.trans content
      exact .inr ⟨session, used, lockOwner, lockNonce⟩
    · exact .inl ((update_of_ne same ..).symm.trans content)
  case named =>
    cases stored
    exact update_self ..
  all_goals
    dsimp only at *
    rcases either other with ⟨rfl, itself⟩ | ⟨apart, elsewhere⟩
  case same.inl =>
    rw [itself]
    exact ⟨sameOwner, sameNonce, fun _ => used⟩
  case same.inr => rcases others other apart with same | same <;> rw [elsewhere, same] <;> exact ⟨rfl, rfl, id⟩
  case sound.inl =>
    rw [itself]
    exact sound.mono Nat.le.refl kept
  case sound.inr =>
    rw [elsewhere] at active ⊢
    rcases others other apart with same | same <;> rw [same] at active ⊢ <;>
      have sound := guarded.sound other active
    · exact sound.mono Nat.le.refl kept
    · have old : Sound state { state.sessions other with superseded := true } :=
        ⟨sound.takes, sound.extends', sound.prolongs, sound.extended, sound.deletes, sound.bounded, sound.wants, sound.silent⟩
      exact old.mono Nat.le.refl kept
  case covered.inl =>
    rw [itself]
    exact covered
  case covered.inr =>
    rw [elsewhere] at active ⊢
    intro expires reported ahead current
    have free := alone other apart
    rcases others other apart with same | same <;> rw [same] at active reported
    all_goals exact absurd ⟨expires, reported, ahead⟩ (free active current)
  case quiet.inl => exact absurd (itself ▸ idle) stays
  case quiet.inr =>
    rw [elsewhere] at idle ⊢
    rcases others other apart with same | same <;> rw [same] at idle ⊢ <;> exact guarded.quiet other idle

variable {object : LockObject}

section
variable (guarded : Guarded state)
include guarded

theorem Guarded.met {tag : Nat} {lock : Lock} (content : state.tagged tag = some lock)
    (present : state.object = some object) (same : object.tag = tag) :
    object.lock = lock := by
  have named := guarded.named object present
  rw [same, content] at named
  exact (Option.some.inj named).symm

theorem Guarded.blocks {other : Nat} {expected : Option Nat}
    (active : (state.sessions other).phase ≠ .unused) (holds : Holds state other)
    (admitted : admits state.object expected = true) :
    ∃ object tag, state.object = some object ∧ expected = some tag ∧ object.tag = tag ∧
      object.lock.nonce = (state.sessions other).nonce ∧ state.now < object.lock.expiresAt := by
  obtain ⟨⟨expires, reported, ahead⟩, current⟩ := holds
  obtain ⟨object, present, own, lasts⟩ := guarded.covered other active expires reported ahead current
  rw [present] at admitted
  cases expected with
  | none => simp [admits] at admitted
  | some tag => exact ⟨object, tag, present, rfl, of_decide_eq_true admitted, own, by omega⟩

theorem guarded_readToTake (session : Nat) (shown : Bool) :
    Guarded (readToTake state session shown) := by
  unfold readToTake
  dsimp only
  cases phase : (state.sessions session).phase with
  | acquiring tries =>
    dsimp only
    have used : (state.sessions session).phase ≠ .unused := by simp [phase]
    have sound := guarded.sound session used
    have silent : (state.sessions session).reported = none := sound.silent (by rw [phase]; rfl)
    cases present : state.object with
    | none =>
      exact guarded.moves used (by simp) rfl (fun _ => silent)
    | some object =>
      dsimp only
      by_cases taken : object.lock.owner ≠ (state.sessions session).owner ∧ object.lock.expiresAt > state.now
      · rw [if_pos taken]
        exact guarded.moves used (by simp) rfl (fun _ => silent)
      · rw [if_neg taken]
        refine guarded.set used (by simp) rfl rfl ⟨?_, by simp, by simp, by simp, by simp, sound.bounded, sound.wants,
          fun _ => silent⟩ (guarded.covered session used)
        intro tries' tag seen taking
        have read : handedOut state.object shown = some tag := by
          rw [present]
          exact (Phase.taking.inj taking).2.1
        have same : object.tag = tag := by
          cases shown <;> simp [handedOut, present] at read
          exact read
        have replaceable : object.lock.owner = (state.sessions session).owner ∨ object.lock.expiresAt ≤ state.now := by
          by_cases own : object.lock.owner = (state.sessions session).owner
          · exact .inl own
          · exact .inr (by
              by_contra ahead
              exact taken ⟨own, by omega⟩)
        exact ⟨object.lock, same ▸ guarded.named object present, replaceable⟩
  | _ => exact guarded

theorem guarded_take (session tag : Nat) (lost : Bool) :
    Guarded (take state session tag lost) := by
  unfold take
  dsimp only
  cases phase : (state.sessions session).phase with
  | taking tries expected seen =>
    dsimp only
    have used : (state.sessions session).phase ≠ .unused := by simp [phase]
    have sound := guarded.sound session used
    have silent : (state.sessions session).reported = none := sound.silent (by rw [phase]; rfl)
    by_cases admitted : admits state.object expected = true
    · rw [if_pos admitted]
      by_cases fresh : tagFree state ⟨(state.sessions session).owner, (state.sessions session).nonce,
          (state.sessions session).wanted⟩ tag = true
      · rw [if_pos fresh]
        refine guarded.write session used (of_decide_eq_true fresh) rfl rfl (by cases lost <;> rfl)
          (by cases lost <;> rfl) (by cases lost <;> simp) ?_ ?_ ?_ ?_
        · intro other apart
          unfold supersede
          by_cases own : (state.sessions other).owner = (state.sessions session).owner
          · exact .inr (by rw [if_pos ⟨apart, own⟩])
          · exact .inl (by rw [if_neg (fun both => own both.2)])
        · -- another owner's lease that holds would be the lock this write replaced
          intro other apart active current reported
          unfold supersede at current
          by_cases own : (state.sessions other).owner = (state.sessions session).owner
          · rw [if_pos ⟨apart, own⟩] at current
            cases current
          · rw [if_neg (fun both => own both.2)] at current
            obtain ⟨object, read, present, wasRead, sameTag, nonce, ahead⟩ :=
              guarded.blocks active ⟨reported, current⟩ admitted
            obtain ⟨lock, content, replaceable⟩ := sound.takes tries read seen (by rw [phase, wasRead])
            have met := guarded.met content present sameTag
            rcases replaceable with mine | lapsed
            · have theirs := guarded.owned read lock other content active (met ▸ nonce)
              exact own (theirs.symm.trans mine)
            · rw [← met] at lapsed
              omega
        · cases lost
          · refine .plain ?_ sound.wants (by simp [Phase.silent]) rfl
            intro expires reported
            cases reported
            exact sound.wants
          · exact .plain sound.bounded sound.wants (fun _ => silent) rfl
        · intro expires reported ahead current
          cases lost
          · cases reported
            exact ⟨_, rfl, rfl, Nat.le.refl⟩
          · exact absurd (silent.symm.trans reported) (by simp)
      · rw [if_neg fresh]
        exact guarded
    · rw [if_neg admitted]
      by_cases again : tries + 1 < 3
      · rw [if_pos again]
        exact guarded.moves used (by simp) rfl (fun _ => silent)
      · rw [if_neg again]
        exact guarded.moves used (by simp) rfl (fun _ => silent)
  | _ => exact guarded

theorem guarded_readToExtend (session : Nat) (shown : Bool) :
    Guarded (readToExtend state session shown) := by
  unfold readToExtend
  dsimp only
  cases phase : (state.sessions session).phase with
  | renewing =>
    dsimp only
    have used : (state.sessions session).phase ≠ .unused := by simp [phase]
    have sound := guarded.sound session used
    have covered := guarded.covered session used
    cases present : state.object with
    | none =>
      exact guarded.moves used (by simp) rfl (by simp [Phase.silent])
    | some object =>
      dsimp only
      by_cases foreign : object.lock.nonce ≠ (state.sessions session).nonce
      · rw [if_pos foreign]
        exact guarded.moves used (by simp) rfl (by simp [Phase.silent])
      · rw [if_neg foreign]
        refine guarded.set used (by simp) rfl rfl ⟨by simp, ?_, ?_, ?_, by simp, sound.bounded, sound.wants, by simp [Phase.silent]⟩ covered
        · intro tag expires extending
          have read : handedOut state.object shown = some tag := by
            rw [present]
            exact (Phase.extending.inj extending).1
          have same : object.tag = tag := by
            cases shown <;> simp [handedOut, present] at read
            exact read
          exact ⟨object.lock, same ▸ guarded.named object present, by simpa using foreign⟩
        · intro expected expires reported extending held
          have until' : state.now + (state.sessions session).ttl = expires := (Phase.extending.inj extending).2
          exact until' ▸ sound.bounded reported held
        · intro expected expires extending
          exact Nat.le_of_eq (Phase.extending.inj extending).2.symm
  | _ => exact guarded

theorem Guarded.own_replaced {tag : Nat} {lock : Lock}
    (used : (state.sessions session).phase ≠ .unused) (content : state.tagged tag = some lock)
    (mine : lock.nonce = (state.sessions session).nonce) (present : state.object = some object)
    (same : object.tag = tag) :
    object.lock.nonce = (state.sessions session).nonce ∧ object.lock.owner = (state.sessions session).owner := by
  have met := guarded.met content present same
  rw [met]
  exact ⟨mine, guarded.owned tag lock session content used mine⟩

theorem guarded_extend (session tag : Nat) (lost : Bool) :
    Guarded (extend state session tag lost) := by
  unfold extend
  dsimp only
  cases phase : (state.sessions session).phase with
  | extending expected expires =>
    dsimp only
    have used : (state.sessions session).phase ≠ .unused := by simp [phase]
    have sound := guarded.sound session used
    by_cases admitted : admits state.object expected = true
    · rw [if_pos admitted]
      by_cases fresh : tagFree state ⟨(state.sessions session).owner, (state.sessions session).nonce, expires⟩ tag = true
      · rw [if_pos fresh]
        have until' : expires ≤ state.now + (state.sessions session).ttl := sound.extended expected expires phase
        refine guarded.write session used (of_decide_eq_true fresh) rfl rfl (by cases lost <;> rfl)
          (by cases lost <;> rfl) (by cases lost <;> simp) (fun _ _ => .inl rfl) ?_ ?_ ?_
        · -- the lock that is extended is this session's, so no other lease holds
          intro other apart active current reported
          obtain ⟨object, read, present, wasRead, sameTag, nonce, _⟩ :=
            guarded.blocks active ⟨reported, current⟩ admitted
          obtain ⟨lock, content, mine⟩ := sound.extends' read expires (by rw [phase, wasRead])
          have replaced := guarded.own_replaced used content mine present sameTag
          exact apart (guarded.distinct other session active used (nonce.symm.trans replaced.1))
        · cases lost
          · refine .plain ?_ sound.wants (by simp [Phase.silent]) rfl
            intro reported held
            cases held
            exact until'
          · exact .plain sound.bounded sound.wants (by simp [Phase.silent]) rfl
        · intro reported held ahead current
          cases lost
          · cases held
            exact ⟨_, rfl, rfl, Nat.le.refl⟩
          · exact ⟨_, rfl, rfl, sound.prolongs expected expires reported phase held⟩
      · rw [if_neg fresh]
        exact guarded
    · rw [if_neg admitted]
      exact guarded.moves used (by simp) rfl (by simp [Phase.silent])
  | _ => exact guarded

theorem guarded_readToDelete (session : Nat) :
    Guarded (readToDelete state session true) := by
  unfold readToDelete
  dsimp only
  cases phase : (state.sessions session).phase with
  | releasing =>
    dsimp only
    have used : (state.sessions session).phase ≠ .unused := by simp [phase]
    have sound := guarded.sound session used
    have covered := guarded.covered session used
    have silent : (state.sessions session).reported = none := sound.silent (by rw [phase]; rfl)
    cases present : state.object with
    | none =>
      exact guarded.moves used (by simp) rfl (fun _ => silent)
    | some object =>
      dsimp only
      by_cases foreign : object.lock.nonce ≠ (state.sessions session).nonce
      · rw [if_pos foreign]
        exact guarded.moves used (by simp) rfl (fun _ => silent)
      · rw [if_neg foreign]
        refine guarded.set used (by simp) rfl rfl
          ⟨by simp, by simp, by simp, by simp, ?_, sound.bounded, sound.wants, fun _ => silent⟩ covered
        intro expected deleting
        have read : handedOut state.object true = expected := by
          rw [present]
          exact Phase.deleting.inj deleting
        exact ⟨object.tag, object.lock, by rw [← read, present]; rfl, guarded.named object present,
          by simpa using foreign⟩
  | _ => exact guarded

theorem guarded_delete (session : Nat) : Guarded (delete state session) := by
  unfold delete
  dsimp only
  cases phase : (state.sessions session).phase with
  | deleting expected =>
    dsimp only
    have used : (state.sessions session).phase ≠ .unused := by simp [phase]
    have sound := guarded.sound session used
    have covered := guarded.covered session used
    have silent : (state.sessions session).reported = none := sound.silent (by rw [phase]; rfl)
    have ended : Guarded (state.set session { state.sessions session with phase := .finished }) :=
      guarded.moves used (by simp) rfl (fun _ => silent)
    by_cases removed : deletes state.object expected = true
    · rw [if_pos removed]
      refine ⟨fun object stored => (nomatch stored), ended.known, ended.owned, ended.generated, ended.distinct,
        ?_, ?_, ended.quiet⟩
      · intro other active
        exact (ended.sound other active).mono Nat.le.refl (fun _ _ content => content)
      · -- a lease that holds would be the deleted lock's, which is this session's
        intro other active expires reported ahead current
        exfalso
        obtain ⟨object, present, nonce, _⟩ := ended.covered other active expires reported ahead current
        obtain ⟨tag, lock, wasRead, content, mine⟩ := sound.deletes expected phase
        have sameTag : object.tag = tag := by
          rw [wasRead, show state.object = some object from present] at removed
          exact of_decide_eq_true removed
        have replaced := guarded.own_replaced used content mine present sameTag
        have sameSession : other = session := by
          refine ended.distinct other session active ?_ (nonce.symm.trans ?_)
          · simp [State.set]
          · simpa [State.set] using replaced.1
        subst sameSession
        simp [State.set, silent] at reported
    · rw [if_neg removed]
      exact ended
  | _ => exact guarded

theorem guarded_fail (session : Nat) : Guarded (fail state session) := by
  unfold fail
  dsimp only
  cases phase : (state.sessions session).phase with
  | unused => exact guarded
  | held => exact guarded
  | finished => exact guarded
  | _ =>
    have used : (state.sessions session).phase ≠ .unused := by simp [phase]
    have silent := (guarded.sound session used).silent
    exact guarded.moves used (by simp) rfl (by simp_all [Phase.silent])

theorem guarded_acquire (session : Nat) (owner nonce : String) (ttl : Nat) :
    Guarded (step state (.acquire session owner nonce ttl)) := by
  simp only [step]
  by_cases ready : (state.sessions session).phase = .unused ∧ owner ≠ "" ∧ nonce ∉ state.nonces
  · rw [if_pos ready]
    obtain ⟨_, _, fresh⟩ := ready
    generalize taken : (⟨owner, nonce, if ttl = 0 then defaultLease else ttl,
      state.now + (if ttl = 0 then defaultLease else ttl), .acquiring 0, none, false⟩ : Session) = value
    have at_session : Function.update state.sessions session value session = value := update_self ..
    have elsewhere : ∀ other, other ≠ session → Function.update state.sessions session value other =
        state.sessions other := fun other apart => update_of_ne apart ..
    have named : value.nonce = nonce := by rw [← taken]
    refine ⟨guarded.named, fun tag lock content => List.mem_cons_of_mem _ (guarded.known tag lock content), ?_, ?_, ?_,
      ?_, ?_, ?_⟩ <;> simp only [State.set]
    · intro tag lock other content active own
      by_cases same : other = session
      · subst same
        rw [at_session, named] at own
        exact absurd (own ▸ guarded.known tag lock content) fresh
      · rw [elsewhere other same] at active own ⊢
        exact guarded.owned tag lock other content active own
    · intro other active
      by_cases same : other = session
      · subst same
        rw [at_session, named]
        exact List.mem_cons_self
      · rw [elsewhere other same] at active ⊢
        exact List.mem_cons_of_mem _ (guarded.generated other active)
    · intro other third active activeThird equal
      by_cases same : other = session
      · by_cases sameThird : third = session
        · rw [same, sameThird]
        · subst same
          rw [at_session, elsewhere third sameThird, named] at equal
          rw [elsewhere third sameThird] at activeThird
          exact absurd (equal ▸ guarded.generated third activeThird) fresh
      · by_cases sameThird : third = session
        · subst sameThird
          rw [at_session, elsewhere other same, named] at equal
          rw [elsewhere other same] at active
          exact absurd (equal ▸ guarded.generated other active) fresh
        · rw [elsewhere other same] at active equal
          rw [elsewhere third sameThird] at activeThird equal
          exact guarded.distinct other third active activeThird equal
    · intro other active
      by_cases same : other = session
      · subst same
        rw [at_session, ← taken]
        exact ⟨by simp, by simp, by simp, by simp, by simp, by simp, Nat.le.refl, fun _ => rfl⟩
      · rw [elsewhere other same] at active ⊢
        exact (guarded.sound other active).mono Nat.le.refl (fun _ _ content => content)
    · intro other active
      by_cases same : other = session
      · subst same
        rw [at_session, ← taken]
        intro expires reported
        cases reported
      · rw [elsewhere other same] at active ⊢
        exact guarded.covered other active
    · intro other idle
      by_cases same : other = session
      · subst same
        rw [at_session, ← taken] at idle
        cases idle
      · rw [elsewhere other same] at idle ⊢
        exact guarded.quiet other idle
  · rw [if_neg ready]
    exact guarded

theorem guarded_tick (later : Nat) :
    Guarded { state with now := state.now + later } := by
  refine ⟨guarded.named, guarded.known, guarded.owned, guarded.generated, guarded.distinct, ?_, ?_, guarded.quiet⟩
  · intro session active
    exact (guarded.sound session active).mono (Nat.le_add_right _ _) (fun _ _ content => content)
  · intro session active expires reported ahead current
    have before : state.now + later < expires := ahead
    exact guarded.covered session active expires reported (by omega) current

theorem guarded_step (action : Action) (tagged : DeleteTagged action) :
    Guarded (step state action) := by
  cases action with
  | tick later => exact guarded_tick guarded later
  | acquire session owner nonce ttl => exact guarded_acquire guarded session owner nonce ttl
  | readToTake session shown => exact guarded_readToTake guarded session shown
  | take session tag lost => exact guarded_take guarded session tag lost
  | readToExtend session shown => exact guarded_readToExtend guarded session shown
  | extend session tag lost => exact guarded_extend guarded session tag lost
  | readToDelete session shown =>
    cases tagged
    exact guarded_readToDelete guarded session
  | delete session => exact guarded_delete guarded session
  | fail session => exact guarded_fail guarded session
  | renew session =>
    simp only [step]
    by_cases held : (state.sessions session).phase = .held
    · rw [if_pos held]
      have used : (state.sessions session).phase ≠ .unused := by simp [held]
      exact guarded.moves used (by simp) rfl (by simp [Phase.silent])
    · rw [if_neg held]
      exact guarded
  | release session =>
    simp only [step]
    by_cases held : (state.sessions session).phase = .held
    · rw [if_pos held]
      have used : (state.sessions session).phase ≠ .unused := by simp [held]
      have sound := guarded.sound session used
      exact guarded.set used (by simp) rfl rfl
        ⟨by simp, by simp, by simp, by simp, by simp, by simp, sound.wants, fun _ => rfl⟩
        (fun expires reported => (nomatch reported))
    · rw [if_neg held]
      exact guarded

end

theorem guarded_start (object : Option LockObject) : Guarded (start object) := by
  refine ⟨?_, ?_, ?_, ?_, ?_, ?_, ?_, fun _ _ => rfl⟩
  · intro stored present
    have given : object = some stored := present
    simp [start, given, Option.filter]
  · intro tag lock content
    cases object with
    | none => cases content
    | some object =>
      simp only [start, Option.filter, Option.map_eq_some_iff] at content ⊢
      obtain ⟨stored, kept, rfl⟩ := content
      split at kept
      · cases kept
        simp
      · cases kept
  all_goals intros; simp_all [start, unusedSession]

theorem guarded_after (object : Option LockObject) (run : List Action) (tagged : ∀ action ∈ run, DeleteTagged action) :
    Guarded (after object run) := by
  unfold after
  induction run using List.reverseRecOn with
  | nil => exact guarded_start object
  | append_singleton run action ih =>
    rw [List.foldl_append, List.foldl_cons, List.foldl_nil]
    exact guarded_step (ih (fun earlier listed => tagged earlier (List.mem_append_left _ listed))) action
      (tagged action (by simp))

/-! ### Mutual exclusion -/

/-- The lease whose `Renew` or `Release` an action writes or deletes for. -/
def keeper : Action → Option Nat
  | .extend session _ _ => some session
  | .delete session => some session
  | _ => none

theorem Guarded.exclusive (guarded : Guarded state) {other : Nat} (first : Holds state session)
    (second : Holds state other) : session = other := by
  have used : ∀ third, Holds state third → (state.sessions third).phase ≠ .unused := by
    rintro third ⟨⟨expires, reported, _⟩, _⟩ idle
    rw [guarded.quiet third idle] at reported
    cases reported
  obtain ⟨⟨expires, reported, ahead⟩, current⟩ := first
  obtain ⟨⟨expires', reported', ahead'⟩, current'⟩ := second
  have active := used session ⟨⟨expires, reported, ahead⟩, current⟩
  have active' := used other ⟨⟨expires', reported', ahead'⟩, current'⟩
  obtain ⟨object, present, nonce, _⟩ := guarded.covered session active expires reported ahead current
  obtain ⟨object', present', nonce', _⟩ := guarded.covered other active' expires' reported' ahead' current'
  rw [present] at present'
  cases present'
  exact guarded.distinct session other active active' (nonce.symm.trans nonce')

theorem Guarded.spares_others (guarded : Guarded state) {action : Action} (acts : keeper action = some session)
    (present : state.object = some object) (moved : (step state action).object ≠ state.object) :
    object.lock.owner = (state.sessions session).owner := by
  cases action with
  | extend actor tag lost =>
    cases acts
    simp only [step, extend] at moved
    cases phase : (state.sessions session).phase with
    | extending expected expires =>
      rw [phase] at moved
      dsimp only at moved
      have used : (state.sessions session).phase ≠ .unused := by simp [phase]
      by_cases admitted : admits state.object expected = true
      · cases expected with
        | none => simp [present, admits] at admitted
        | some read =>
          obtain ⟨lock, content, mine⟩ := (guarded.sound session used).extends' read expires phase
          rw [present] at admitted
          exact (guarded.own_replaced used content mine present (of_decide_eq_true admitted)).2
      · rw [if_neg admitted] at moved
        exact absurd rfl moved
    | _ =>
      rw [phase] at moved
      exact absurd rfl moved
  | delete actor =>
    cases acts
    simp only [step, delete] at moved
    cases phase : (state.sessions session).phase with
    | deleting expected =>
      rw [phase] at moved
      dsimp only at moved
      have used : (state.sessions session).phase ≠ .unused := by simp [phase]
      by_cases removed : deletes state.object expected = true
      · obtain ⟨tag, lock, wasRead, content, mine⟩ := (guarded.sound session used).deletes expected phase
        rw [wasRead, present] at removed
        exact (guarded.own_replaced used content mine present (of_decide_eq_true removed)).2
      · rw [if_neg removed] at moved
        exact absurd rfl moved
    | _ =>
      rw [phase] at moved
      exact absurd rfl moved
  | _ => cases acts

/-- Over every interleaving at most one lease holds, and no `Renew` or `Release`
    touches the lock of another owner. -/
theorem lease_exclusive (object : Option LockObject) (run : List Action)
    (tagged : ∀ action ∈ run, DeleteTagged action) :
    (∀ session other, Holds (after object run) session → Holds (after object run) other → session = other) ∧
    ∀ action session, keeper action = some session → ∀ lock, (after object run).object = some lock →
      (step (after object run) action).object ≠ (after object run).object →
        lock.lock.owner = ((after object run).sessions session).owner := by
  have guarded := guarded_after object run tagged
  exact ⟨fun session other first second => guarded.exclusive first second,
    fun action session acts lock present moved => guarded.spares_others acts present moved⟩

/-- One owner takes a lapsed lock over from another, whose release comes late. -/
def takeover : List Action :=
  [.acquire 0 "a" "n0" 10, .readToTake 0 true, .take 0 1 false, .tick 11, .acquire 1 "b" "n1" 10, .readToTake 1 true,
    .take 1 2 false, .release 0, .readToDelete 0 true]

instance (action : Action) : Decidable (DeleteTagged action) := by
  cases action <;> unfold DeleteTagged <;> infer_instance

theorem lease_exclusive_takeover : Holds (after none takeover) 1 ∧ ¬ Holds (after none takeover) 0 := by
  have second : Holds (after none takeover) 1 := ⟨⟨21, by decide, by decide⟩, by decide⟩
  refine ⟨second, fun first => ?_⟩
  exact absurd ((lease_exclusive none takeover (by decide)).1 0 1 first second) (by decide)

/-- An owner acquires again and releases the newer lease; then another owner acquires. -/
def acquiredAgain : List Action :=
  [.acquire 0 "a" "n0" 10, .readToTake 0 true, .take 0 1 false, .acquire 1 "a" "n1" 10, .readToTake 1 true,
    .take 1 2 false, .release 1, .readToDelete 1 true, .delete 1, .acquire 2 "b" "n2" 10, .readToTake 2 true,
    .take 2 3 false]

theorem reported_not_exclusive :
    ¬ ∀ run : List Action, (∀ action ∈ run, DeleteTagged action) → ∀ session other,
      Reported (after none run) session → Reported (after none run) other →
        ((after none run).sessions session).owner = ((after none run).sessions other).owner := by
  intro exclusive
  have first : Reported (after none acquiredAgain) 0 := ⟨10, by decide, by decide⟩
  have second : Reported (after none acquiredAgain) 2 := ⟨10, by decide, by decide⟩
  exact absurd (exclusive acquiredAgain (by decide) 0 2 first second) (by decide)

/-- A lock blocks nobody for good: one that is gone, has lapsed or is the owner's own goes to the next `Acquire`. -/
theorem lapsed_taken (state : State) (session tag ttl : Nat) {owner nonce : String}
    (unused : (state.sessions session).phase = .unused) (named : owner ≠ "") (fresh : nonce ∉ state.nonces)
    (untagged : state.tagged tag = none)
    (lapsed : ∀ object ∈ state.object, object.lock.owner = owner ∨ object.lock.expiresAt ≤ state.now) :
    Holds ([.acquire session owner nonce ttl, .readToTake session true, .take session tag false].foldl step state) session := by
  have lasting : 0 < if ttl = 0 then defaultLease else ttl := by
    split
    · decide
    · omega
  cases found : state.object with
  | none =>
    simp [step, unused, named, fresh, readToTake, take, State.set, found, admits, tagFree, untagged, State.store, Holds, Reported, lasting]
  | some object =>
    have free : ¬ (object.lock.owner ≠ owner ∧ object.lock.expiresAt > state.now) := by
      rintro ⟨other, ahead⟩
      exact (lapsed object found).elim other (Nat.not_le.mpr ahead)
    simp [step, unused, named, fresh, readToTake, take, State.set, found, free, handedOut, admits, tagFree, untagged, State.store,
      Holds, Reported, lasting]

theorem lapsed_taken_first : Holds (after none [.acquire 0 "a" "n0" 10, .readToTake 0 true, .take 0 1 false]) 0 :=
  lapsed_taken (start none) 0 1 10 rfl (by decide) (by decide) rfl (by decide)

end AstrLink.Lease
