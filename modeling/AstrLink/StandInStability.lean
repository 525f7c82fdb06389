import AstrLink.StandIns

/-!
An address keeps its stand-in. Once the ledger of a conversation has issued an
IPv4 stand-in to an address, a later request gives the address the same one
exactly when none of the values it met before has exhausted the addresses
(`stable_iff`).
-/
namespace AstrLink.StandIns
open Tables IPAddress List

/-- A stand-in that was last issued to a value is recorded as the value's. -/
def Ledger.Sound (ledger : Ledger) : Prop :=
  ∀ owner standIn, ledger.standInOf owner = some standIn →
    owner ≠ [] ∧ ledger.byStandIn.lookup standIn = some owner ∧ isIPv4 standIn = true

variable {owner : Text}
variable {ledger : Ledger} {standIn : Text}

theorem Ledger.claim_own (issued : ledger.byStandIn.lookup standIn = some owner) (held : Bool) :
    ledger.claim standIn owner held = (true, { ledger with byOwner := ledger.byOwner.insert owner standIn }) := by
  unfold Ledger.claim
  rw [issued]
  exact if_pos rfl

theorem Ledger.claim_granted {next : Ledger} {held : Bool} (named : owner ≠ [])
    (granted : ledger.claim standIn owner held = (true, next)) :
    next.byOwner = ledger.byOwner.insert owner standIn ∧ next.byStandIn.lookup standIn = some owner ∧
      ∀ other earlier, ledger.byStandIn.lookup other = some earlier → earlier ≠ [] →
        next.byStandIn.lookup other = some earlier := by
  unfold Ledger.claim at granted
  cases issued : ledger.byStandIn.lookup standIn with
  | none =>
    simp only [issued, Option.getD_none, named.symm, if_false, if_true] at granted
    split at granted
    · simp at granted
    · obtain ⟨_, rfl⟩ := Prod.mk.inj granted
      refine ⟨rfl, by simp, ?_⟩
      intro other earlier found _
      have apart : other ≠ standIn := by
        rintro rfl
        simp [issued] at found
      rw [lookup_insert_if, if_neg apart, found]
  | some current =>
    simp only [issued, Option.getD_some] at granted
    by_cases own : current = owner
    · rw [if_pos own] at granted
      obtain ⟨_, rfl⟩ := Prod.mk.inj granted
      exact ⟨rfl, by rw [issued, own], fun _ _ found _ => found⟩
    · rw [if_neg own] at granted
      split at granted
      · next empty =>
        split at granted
        · simp at granted
        · obtain ⟨_, rfl⟩ := Prod.mk.inj granted
          refine ⟨rfl, by simp, ?_⟩
          intro other earlier found some
          have apart : other ≠ standIn := by
            rintro rfl
            rw [issued, Option.some.injEq, empty] at found
            exact some found.symm
          rw [lookup_insert_if, if_neg apart, found]
      · simp at granted

theorem Ledger.Sound.claim {next : Ledger} (sound : ledger.Sound) {held : Bool} (named : owner ≠ [])
    (dotted : isIPv4 standIn = true) (granted : ledger.claim standIn owner held = (true, next)) :
    next.Sound := by
  obtain ⟨owners, own, kept⟩ := Ledger.claim_granted named granted
  intro other earlier found
  unfold Ledger.standInOf at found
  rw [owners, lookup_insert_if] at found
  by_cases same : other = owner
  · rw [if_pos same] at found
    cases found
    exact ⟨same ▸ named, same ▸ own, dotted⟩
  · rw [if_neg same] at found
    obtain ⟨some, recorded, address⟩ := sound other earlier found
    exact ⟨some, kept earlier other recorded some, address⟩

variable {candidate : Text}
variable {allocator next : Allocator}

theorem Allocator.reserve_refused (refused : allocator.reserve candidate owner = (false, next)) : next = allocator := by
  unfold Allocator.reserve at refused
  dsimp only at refused
  split at refused
  · exact (Prod.mk.inj refused).2.symm
  · split at refused
    · split at refused
      · split at refused
        · exact (Prod.mk.inj refused).2.symm
        · simp at refused
      · split at refused
        · exact (Prod.mk.inj refused).2.symm
        · split at refused
          · simp at refused
          · exact (Prod.mk.inj refused).2.symm
    · simp at refused

/-- A reserved candidate is taken, and claimed when it is an address with an owner. -/
structure Reserved (allocator next : Allocator) (candidate owner : Text) : Prop where
  free : candidate ∉ allocator.used
  used : next.used = candidate :: allocator.used
  policy : next.resolve = allocator.resolve ∧ next.body = allocator.body ∧ next.exhausted = allocator.exhausted
  claimed : isIPv4 candidate = true → owner ≠ [] → ∃ ledger granted, allocator.ledger = some ledger ∧
    next.ledger = some granted ∧
    ledger.claim candidate owner (restorableSpellingIn candidate allocator.body) = (true, granted)
  frame : (isIPv4 candidate = false ∨ owner = []) → next.ledger = allocator.ledger

theorem Allocator.reserve_taken (taken : allocator.reserve candidate owner = (true, next)) :
    Reserved allocator next candidate owner := by
  unfold Allocator.reserve at taken
  dsimp only at taken
  by_cases free : candidate ∈ allocator.used
  · simp [free] at taken
  · rw [if_neg free] at taken
    by_cases dotted : isIPv4 candidate = true
    · rw [if_pos dotted] at taken
      by_cases named : owner = []
      · rw [if_pos named] at taken
        split at taken
        · simp at taken
        · obtain ⟨_, rfl⟩ := Prod.mk.inj taken
          exact ⟨free, rfl, ⟨rfl, rfl, rfl⟩, fun _ some => absurd named some, fun _ => rfl⟩
      · rw [if_neg named] at taken
        cases held : allocator.ledger with
        | none => simp [held] at taken
        | some ledger =>
          simp only [held] at taken
          split at taken
          · next granted claimed =>
            obtain ⟨_, rfl⟩ := Prod.mk.inj taken
            refine ⟨free, rfl, ⟨rfl, rfl, rfl⟩, fun _ _ => ⟨ledger, granted, held, rfl, claimed⟩, ?_⟩
            rintro (other | other)
            · simp [dotted] at other
            · exact absurd other named
          · simp at taken
    · rw [if_neg dotted] at taken
      obtain ⟨_, rfl⟩ := Prod.mk.inj taken
      exact ⟨free, rfl, ⟨rfl, rfl, rfl⟩, fun other => absurd other dotted, fun _ => rfl⟩

theorem Allocator.firstFree_cases {candidate : Nat → Option Text} {trials : List Nat} {found : Option Text}
    (searched : allocator.firstFree owner candidate trials = (found, next)) :
    (found = none ∧ next = allocator) ∨
      ∃ text trial, found = some text ∧ candidate trial = some text ∧ Reserved allocator next text owner := by
  induction trials with
  | nil =>
    cases searched
    exact .inl ⟨rfl, rfl⟩
  | cons trial rest ih =>
    rw [Allocator.firstFree] at searched
    cases built : candidate trial with
    | none =>
      simp only [built] at searched
      cases searched
      exact .inl ⟨rfl, rfl⟩
    | some text =>
      simp only [built] at searched
      rcases reserved : allocator.reserve text owner with ⟨granted, later⟩
      cases granted with
      | true =>
        simp only [reserved] at searched
        cases searched
        exact .inr ⟨text, trial, rfl, built, Allocator.reserve_taken reserved⟩
      | false =>
        simp only [reserved] at searched
        obtain rfl := Allocator.reserve_refused reserved
        exact ih searched

theorem token_not_dotted (kind : Kind) (suffix : Text) :
    isIPv4 (withPlaceholderSuffix (replacementFor kind) suffix) = false := by
  obtain ⟨rest, same⟩ : ∃ rest, withPlaceholderSuffix (replacementFor kind) suffix = '<' :: rest := by
    cases kind <;> exact ⟨_, rfl⟩
  rw [same]
  exact isIPv4_foreign ⟨by decide, by decide, by decide⟩ rest

theorem natural_not_dotted {kind : Kind} (other : kind ≠ .ipAddress) {builder : Text → Text → Nat → Option Text}
    (natural : naturalPlaceholderBuilders kind = some builder) {value suffix : Text} {trial : Nat}
    (built : builder value suffix trial = some candidate) : isIPv4 candidate = false := by
  cases kind with
  | ipAddress => exact absurd rfl other
  | email =>
    cases natural
    cases built
    exact isIPv4_foreign ⟨by decide, by decide, by decide⟩ _
  | url =>
    cases natural
    cases built
    exact isIPv4_foreign ⟨by decide, by decide, by decide⟩ _
  | _ => simp [naturalPlaceholderBuilders] at natural

section
variable {digest : Digest}

/-- Gives a value a placeholder that is no address, or claims an address for it. -/
inductive Allocated (digest : Digest) (allocator next : Allocator) (kind : Kind) (value text : Text) : Prop where
  | plain (plain : isIPv4 text = false) (ledger : next.ledger = allocator.ledger)
  | claimed {ledger granted : Ledger} (held : Bool) (address : kind = .ipAddress) (dotted : isIPv4 text = true)
      (before : allocator.ledger = some ledger) (after : next.ledger = some granted)
      (grant : ledger.claim text (ownerOf digest value) held = (true, granted))

variable {allocator next : Allocator} {value : Text} {found : Option (Text × PlaceholderStyle)}

variable {kind : Kind}

theorem Allocator.allocateToken_cases (ran : allocator.allocateToken digest kind value = (found, next)) :
    (found = none ∧ next = allocator) ∨
      ∃ text, found = some (text, .token) ∧ isIPv4 text = false ∧ Reserved allocator next text [] := by
  unfold Allocator.allocateToken at ran
  split at ran
  · next placeholder later searched =>
    cases ran
    rcases Allocator.firstFree_cases searched with ⟨none, _⟩ | ⟨text, trial, same, built, reserved⟩
    · simp at none
    · cases same
      cases built
      exact .inr ⟨_, rfl, token_not_dotted kind _, reserved⟩
  · next later searched =>
    cases ran
    rcases Allocator.firstFree_cases searched with ⟨_, same⟩ | ⟨text, _, same, _⟩
    · exact .inl ⟨rfl, same⟩
    · simp at same

theorem Reserved.allocated {text : Text} (reserved : Reserved allocator next text (ownerOf digest value))
    (named : ownerOf digest value ≠ []) :
    Allocated digest allocator next .ipAddress value text := by
  by_cases dotted : isIPv4 text = true
  · obtain ⟨before, granted, same, after, claimed⟩ := reserved.claimed dotted named
    exact .claimed _ rfl dotted same after claimed
  · have plain : isIPv4 text = false := by simpa using dotted
    exact .plain plain (reserved.frame (.inl plain))

theorem Allocator.firstFree_claims {candidate : Nat → Option Text} {found : Option Text}
    (named : ownerOf digest value ≠ [])
    (searched : allocator.firstFree (ownerOf digest value) candidate trials = (found, next)) :
    (found = none ∧ next = allocator) ∨
      ∃ text owner, found = some text ∧ Reserved allocator next text owner ∧
        Allocated digest allocator next .ipAddress value text := by
  rcases Allocator.firstFree_cases searched with none | ⟨text, _, same, _, reserved⟩
  · exact .inl none
  · exact .inr ⟨text, _, same, reserved, reserved.allocated named⟩

variable {ledger : Ledger}

theorem Allocator.allocateNatural_cases {found : Option Text} (held : allocator.ledger = some ledger)
    (named : kind = .ipAddress → ownerOf digest value ≠ [])
    (ran : allocator.allocateNatural digest kind value = (found, next)) :
    (found = none ∧ next = allocator) ∨
      ∃ text owner, found = some text ∧ Reserved allocator next text owner ∧
        Allocated digest allocator next kind value text := by
  unfold Allocator.allocateNatural at ran
  cases natural : naturalPlaceholderBuilders kind with
  | none =>
    simp only [natural] at ran
    cases ran
    exact .inl ⟨rfl, rfl⟩
  | some builder =>
    simp only [natural] at ran
    by_cases address : kind = .ipAddress
    · subst address
      simp only [if_true, held] at ran
      cases issued : ledger.standInOf (ownerOf digest value) with
      | none =>
        simp only [issued] at ran
        exact Allocator.firstFree_claims (named rfl) ran
      | some standIn =>
        simp only [issued] at ran
        rcases reserved : allocator.reserve standIn (ownerOf digest value) with ⟨granted, later⟩
        cases granted with
        | true =>
          simp only [reserved] at ran
          cases ran
          have reserved := Allocator.reserve_taken reserved
          exact .inr ⟨standIn, _, rfl, reserved, reserved.allocated (named rfl)⟩
        | false =>
          simp only [reserved] at ran
          obtain rfl := Allocator.reserve_refused reserved
          exact Allocator.firstFree_claims (named rfl) ran
    · simp only [if_neg address] at ran
      rcases Allocator.firstFree_cases ran with none | ⟨text, trial, same, built, reserved⟩
      · exact .inl none
      · have plain := natural_not_dotted address natural built
        exact .inr ⟨text, _, same, reserved, .plain plain (reserved.frame (.inl plain))⟩

def Ends (digest : Digest) (allocator : Allocator) (kind : Kind) (value : Text)
    (found : Option (Text × PlaceholderStyle)) (next : Allocator) : Prop :=
  next.resolve = allocator.resolve ∧
    ((found = none ∧ next.ledger = allocator.ledger) ∨
      ∃ text style, found = some (text, style) ∧ text ∉ allocator.used ∧ next.used = text :: allocator.used ∧
        Allocated digest allocator next kind value text)

theorem Allocator.allocateToken_ends {before : Allocator}
    (ran : before.allocateToken digest kind value = (found, next)) (used : before.used = allocator.used)
    (ledger : before.ledger = allocator.ledger) (policy : before.resolve = allocator.resolve) :
    Ends digest allocator kind value found next := by
  rcases Allocator.allocateToken_cases ran with ⟨none, rfl⟩ | ⟨text, same, plain, reserved⟩
  · exact ⟨policy, .inl ⟨none, ledger⟩⟩
  · have frame : next.ledger = allocator.ledger := (reserved.frame (.inl plain)).trans ledger
    refine ⟨reserved.policy.1.trans policy, .inr ⟨text, .token, same, ?_, ?_, .plain plain frame⟩⟩
    · rw [← used]
      exact reserved.free
    · rw [← used]
      exact reserved.used

theorem Allocator.allocate_ends (held : allocator.ledger = some ledger)
    (named : kind = .ipAddress → ownerOf digest value ≠ [])
    (ran : allocator.allocate digest kind value = (found, next)) : Ends digest allocator kind value found next := by
  unfold Allocator.allocate at ran
  split at ran
  · split at ran
    · next placeholder later natural =>
      cases ran
      rcases Allocator.allocateNatural_cases held named natural with ⟨none, _⟩ | ⟨text, _, same, reserved, allocated⟩
      · simp at none
      · cases same
        exact ⟨reserved.policy.1, .inr ⟨_, .natural, rfl, reserved.free, reserved.used, allocated⟩⟩
    · next later natural =>
      rcases Allocator.allocateNatural_cases held named natural with ⟨_, rfl⟩ | ⟨text, _, same, _⟩
      · exact Allocator.allocateToken_ends ran rfl rfl rfl
      · simp at same
  · exact Allocator.allocateToken_ends ran rfl rfl rfl

/-- The addresses that the request took are recorded as those of the values it placed. -/
structure Tracks (digest : Digest) (allocator : Allocator) (placed : List Redaction) (ledger : Ledger) : Prop where
  held : allocator.ledger = some ledger
  sound : ledger.Sound
  used : ∀ standIn ∈ allocator.used, isIPv4 standIn = true → ∃ earlier ∈ placed, earlier.kind = .ipAddress ∧
    ownerOf digest earlier.value ≠ [] ∧ ledger.byStandIn.lookup standIn = some (ownerOf digest earlier.value)

/-- The fingerprint is not one of an address that the request placed. -/
def Unplaced (digest : Digest) (placed : List Redaction) (owner : Text) : Prop :=
  ∀ earlier ∈ placed, earlier.kind = .ipAddress → ownerOf digest earlier.value ≠ owner

variable {placed : List Redaction}

theorem Tracks.given (tracks : Tracks digest allocator placed ledger)
    (natural : allocator.resolve .ipAddress = .natural) (left : .ipAddress ∉ allocator.exhausted)
    (issued : ledger.standInOf (ownerOf digest value) = some standIn)
    (unplaced : Unplaced digest placed (ownerOf digest value)) :
    ∃ next, allocator.allocate digest .ipAddress value = (some (standIn, .natural), next) := by
  obtain ⟨named, recorded, dotted⟩ := tracks.sound _ _ issued
  have free : standIn ∉ allocator.used := by
    intro taken
    obtain ⟨earlier, listed, address, _, other⟩ := tracks.used standIn taken dotted
    rw [recorded, Option.some.injEq] at other
    exact unplaced earlier listed address other.symm
  obtain ⟨next, reserved⟩ : ∃ next, allocator.reserve standIn (ownerOf digest value) = (true, next) := by
    unfold Allocator.reserve
    dsimp only
    rw [if_neg free, if_pos dotted, if_neg named, tracks.held]
    simp only [Ledger.claim_own recorded]
    exact ⟨_, rfl⟩
  refine ⟨next, ?_⟩
  unfold Allocator.allocate Allocator.allocateNatural
  rw [if_pos ⟨natural, left⟩]
  simp only [naturalPlaceholderBuilders, if_true, tracks.held, issued, reserved]

theorem Tracks.allocate (tracks : Tracks digest allocator placed ledger)
    (named : kind = .ipAddress → ownerOf digest value ≠ [])
    (unplaced : kind = .ipAddress → Unplaced digest placed (ownerOf digest value))
    (ran : allocator.allocate digest kind value = (found, next)) :
    ∃ after, next.ledger = some after ∧ after.Sound ∧
      (∀ text style, found = some (text, style) → Tracks digest next (placed ++ [⟨text, kind, value, style⟩]) after) ∧
      ∀ owner standIn, ledger.standInOf owner = some standIn → after.standInOf owner = some standIn := by
  obtain ⟨policy, ends⟩ := Allocator.allocate_ends tracks.held named ran
  rcases ends with ⟨rfl, same⟩ | ⟨text, style, rfl, free, used, allocated⟩
  · exact ⟨ledger, same.trans tracks.held, tracks.sound, fun _ _ none => by simp at none, fun _ _ issued => issued⟩
  · cases allocated with
    | plain plain same =>
      have held := same.trans tracks.held
      refine ⟨ledger, held, tracks.sound, ?_, fun _ _ issued => issued⟩
      intro other _ found
      obtain ⟨rfl, rfl⟩ := Prod.mk.inj (Option.some.inj found)
      refine ⟨held, tracks.sound, ?_⟩
      intro standIn taken dotted
      rw [used] at taken
      rcases mem_cons.mp taken with rfl | taken
      · simp [plain] at dotted
      · obtain ⟨earlier, listed, recorded⟩ := tracks.used standIn taken dotted
        exact ⟨earlier, mem_append_left _ listed, recorded⟩
    | claimed held address dotted before after grant =>
      rw [tracks.held, Option.some.injEq] at before
      subst before
      have some := named address
      obtain ⟨owners, own, kept⟩ := Ledger.claim_granted some grant
      have sound := tracks.sound.claim some dotted grant
      refine ⟨_, after, sound, ?_, ?_⟩
      · intro other _ found
        obtain ⟨rfl, rfl⟩ := Prod.mk.inj (Option.some.inj found)
        refine ⟨after, sound, ?_⟩
        intro standIn taken dotted
        rw [used] at taken
        rcases mem_cons.mp taken with rfl | taken
        · exact ⟨⟨standIn, kind, value, style⟩, by simp, address, some, own⟩
        · obtain ⟨earlier, listed, ip, there, recorded⟩ := tracks.used standIn taken dotted
          exact ⟨earlier, mem_append_left _ listed, ip, there, kept standIn _ recorded there⟩
      · intro owner standIn issued
        unfold Ledger.standInOf
        rw [owners, lookup_insert_if]
        by_cases same : owner = ownerOf digest value
        · subst same
          subst address
          rw [if_pos rfl]
          have natural : allocator.resolve .ipAddress = .natural ∧ .ipAddress ∉ allocator.exhausted := by
            by_contra other
            rw [Allocator.allocate, if_neg other] at ran
            rcases Allocator.allocateToken_cases ran with ⟨none, _⟩ | ⟨token, same, plain, _⟩
            · simp at none
            · obtain ⟨rfl, _⟩ := Prod.mk.inj (Option.some.inj same)
              simp [plain] at dotted
          obtain ⟨_, given⟩ := tracks.given natural.1 natural.2 issued (unplaced rfl)
          rw [ran] at given
          obtain ⟨same, _⟩ := Prod.mk.inj (Option.some.inj (Prod.mk.inj given).1)
          rw [same]
        · rw [if_neg same]
          exact issued

/-- Stand-ins as the store holds them: one owner for each, all of them addresses. -/
structure StoredStandIns where
  rows : List PrivacyStandIn
  nodup : (rows.map (·.standIn)).Nodup
  dotted : ∀ row ∈ rows, row.owner ≠ [] ∧ isIPv4 row.standIn = true

/-- No two of the addresses have the same fingerprint, and none has the empty one. -/
def Apart (digest : Digest) (addresses : List Text) : Prop :=
  (∀ value ∈ addresses, ownerOf digest value ≠ []) ∧
    ∀ value ∈ addresses, ∀ other ∈ addresses, ownerOf digest value = ownerOf digest other → value = other

def Request.addresses (request : Request) : List Text := (request.items.filter (·.1 = .ipAddress)).map (·.2)

theorem foldl_load (rows : List PrivacyStandIn) (ledger : Ledger) (nodup : (rows.map (·.standIn)).Nodup)
    (dotted : ∀ row ∈ rows, row.owner ≠ [] ∧ isIPv4 row.standIn = true) (sound : ledger.Sound)
    (fresh : ∀ row ∈ rows, ledger.byStandIn.lookup row.standIn = none) :
    (rows.foldl (fun ledger row =>
      { ledger with
        byStandIn := ledger.byStandIn.insert row.standIn row.owner
        byOwner := ledger.byOwner.insert row.owner row.standIn }) ledger).Sound := by
  induction rows generalizing ledger with
  | nil => exact sound
  | cons row rest ih =>
    obtain ⟨absent, nodup⟩ := nodup_cons.mp nodup
    obtain ⟨named, address⟩ := dotted row (by simp)
    apply ih _ nodup fun later listed => dotted later (by simp [listed])
    · intro owner standIn found
      unfold Ledger.standInOf at found
      simp only [lookup_insert_if] at found ⊢
      by_cases same : owner = row.owner
      · rw [if_pos same] at found
        cases found
        exact ⟨same ▸ named, by rw [if_pos rfl, same], address⟩
      · rw [if_neg same] at found
        obtain ⟨some, recorded, other⟩ := sound owner standIn found
        have apart : standIn ≠ row.standIn := by
          rintro rfl
          simp [fresh row (by simp)] at recorded
        exact ⟨some, by rw [if_neg apart, recorded], other⟩
    · intro later listed
      have apart : later.standIn ≠ row.standIn := fun same => absent (mem_map.mpr ⟨later, listed, same⟩)
      rw [lookup_insert_if, if_neg apart]
      exact fresh later (by simp [listed])

theorem load_sound (stored : StoredStandIns) : (Ledger.fresh.load stored.rows).Sound := by
  have empty : Ledger.fresh.Sound := by
    intro owner standIn found
    simp [Ledger.standInOf, Ledger.fresh] at found
  have loaded := foldl_load stored.rows Ledger.fresh stored.nodup stored.dotted empty fun row _ => by simp [Ledger.fresh]
  exact loaded

theorem assign_snoc (allocator : Allocator) (before after : List (Kind × Text)) (placed : List Redaction) :
    allocator.assign digest (before ++ after) placed =
      match allocator.assign digest before placed with
      | (some placed, met) => met.assign digest after placed
      | (none, met) => (none, met) := by
  induction before generalizing allocator placed with
  | nil => rfl
  | cons item rest ih =>
    obtain ⟨kind, value⟩ := item
    rw [cons_append, Allocator.assign, Allocator.assign]
    split
    · exact ih allocator placed
    · rcases allocator.allocate digest kind value with ⟨_ | ⟨text, style⟩, next⟩
      · rfl
      · exact ih next _

variable {final : Allocator} {items : List (Kind × Text)}

theorem assign_placed {done : List Redaction} (ran : allocator.assign digest items placed = (some done, final)) :
    ∃ more, done = placed ++ more ∧ ∀ redaction ∈ more, (redaction.kind, redaction.value) ∈ items ∧
      ∀ earlier ∈ placed, (earlier.kind, earlier.value) ≠ (redaction.kind, redaction.value) := by
  induction items generalizing allocator placed with
  | nil =>
    obtain ⟨same, _⟩ := Prod.mk.inj ran
    cases same
    exact ⟨[], by simp, fun _ listed => by simp at listed⟩
  | cons item rest ih =>
    obtain ⟨kind, value⟩ := item
    rw [Allocator.assign] at ran
    by_cases known : placed.any (fun earlier => earlier.kind = kind && earlier.value = value)
    · rw [if_pos known] at ran
      obtain ⟨more, same, new⟩ := ih ran
      refine ⟨more, same, fun redaction listed => ⟨?_, (new redaction listed).2⟩⟩
      exact mem_cons_of_mem _ (new redaction listed).1
    · rw [if_neg known] at ran
      rcases found : allocator.allocate digest kind value with ⟨_ | ⟨text, style⟩, next⟩
      · simp [found] at ran
      · simp only [found] at ran
        obtain ⟨more, same, new⟩ := ih ran
        refine ⟨⟨text, kind, value, style⟩ :: more, by simp [same], ?_⟩
        intro redaction listed
        rcases mem_cons.mp listed with rfl | listed
        · refine ⟨by simp, fun earlier there pair => known ?_⟩
          obtain ⟨sameKind, sameValue⟩ := Prod.mk.inj pair
          exact any_eq_true.mpr ⟨earlier, there, by simp [sameKind, sameValue]⟩
        · obtain ⟨here, apart⟩ := new redaction listed
          exact ⟨mem_cons_of_mem _ here, fun earlier there => apart earlier (mem_append_left _ there)⟩

variable {addresses : List Text}

variable {result : Option (List Redaction)}

theorem Tracks.assign (apart : Apart digest addresses)
    (listed : ∀ value, (Kind.ipAddress, value) ∈ items → value ∈ addresses)
    (known : ∀ earlier ∈ placed, earlier.kind = .ipAddress → earlier.value ∈ addresses)
    (tracks : Tracks digest allocator placed ledger) (ran : allocator.assign digest items placed = (result, final)) :
    ∃ after, final.ledger = some after ∧ after.Sound ∧
      (∀ done, result = some done → final.resolve = allocator.resolve ∧ Tracks digest final done after) ∧
      ∀ owner standIn, ledger.standInOf owner = some standIn → after.standInOf owner = some standIn := by
  induction items generalizing allocator placed ledger with
  | nil =>
    cases ran
    refine ⟨ledger, tracks.held, tracks.sound, ?_, fun _ _ issued => issued⟩
    intro done same
    cases same
    exact ⟨rfl, tracks⟩
  | cons item rest ih =>
    obtain ⟨kind, value⟩ := item
    rw [Allocator.assign] at ran
    have later : ∀ value, (Kind.ipAddress, value) ∈ rest → value ∈ addresses :=
      fun value there => listed value (by simp [there])
    by_cases placedBefore : placed.any (fun earlier => earlier.kind = kind && earlier.value = value)
    · rw [if_pos placedBefore] at ran
      exact ih later known tracks ran
    · rw [if_neg placedBefore] at ran
      have named : kind = .ipAddress → ownerOf digest value ≠ [] := by
        rintro rfl
        exact apart.1 value (listed value (by simp))
      have unplaced : kind = .ipAddress → Unplaced digest placed (ownerOf digest value) := by
        rintro rfl earlier there address same
        have equal := apart.2 earlier.value (known earlier there address) value (listed value (by simp)) same
        exact placedBefore (any_eq_true.mpr ⟨earlier, there, by simp [address, equal]⟩)
      rcases found : allocator.allocate digest kind value with ⟨outcome, next⟩
      obtain ⟨after, held, sound, kept, issued⟩ := tracks.allocate named unplaced found
      have policy := (Allocator.allocate_ends tracks.held named found).1
      cases outcome with
      | none =>
        simp only [found] at ran
        cases ran
        exact ⟨after, held, sound, fun _ same => by simp at same, issued⟩
      | some pair =>
        obtain ⟨text, style⟩ := pair
        simp only [found] at ran
        have placedNow : ∀ earlier ∈ placed ++ [⟨text, kind, value, style⟩], earlier.kind = .ipAddress →
            earlier.value ∈ addresses := by
          intro earlier there address
          rcases mem_append.mp there with there | there
          · exact known earlier there address
          · obtain rfl := mem_singleton.mp there
            exact listed value (by simp [← address])
        obtain ⟨last, held, sound, done, more⟩ := ih later placedNow (kept text style rfl) ran
        refine ⟨last, held, sound, ?_, fun owner standIn there => more owner standIn (issued owner standIn there)⟩
        intro all same
        obtain ⟨policies, tracks⟩ := done all same
        exact ⟨policies.trans policy, tracks⟩

theorem firstFree_without {candidate : Nat → Option Text} {found : Option Text} (without : allocator.ledger = none)
    (searched : allocator.firstFree owner candidate trials = (found, next)) :
    next.ledger = none := by
  rcases Allocator.firstFree_cases searched with ⟨_, rfl⟩ | ⟨text, _, _, _, reserved⟩
  · exact without
  · by_cases claims : isIPv4 text = true ∧ owner ≠ []
    · obtain ⟨ledger, _, held, _⟩ := reserved.claimed claims.1 claims.2
      simp [without] at held
    · rw [reserved.frame (by by_cases dotted : isIPv4 text = true <;> simp_all), without]

theorem allocate_without (without : allocator.ledger = none)
    (ran : allocator.allocate digest kind value = (found, next)) : next.ledger = none := by
  have token : ∀ before : Allocator, before.ledger = none →
      before.allocateToken digest kind value = (found, next) → next.ledger = none := by
    intro before without ran
    rcases Allocator.allocateToken_cases ran with ⟨_, rfl⟩ | ⟨_, _, plain, reserved⟩
    · exact without
    · rw [reserved.frame (.inl plain), without]
  have natural : ∀ {text later}, allocator.allocateNatural digest kind value = (text, later) → later.ledger = none := by
    intro text later ran
    unfold Allocator.allocateNatural at ran
    split at ran
    · obtain ⟨_, rfl⟩ := Prod.mk.inj ran
      exact without
    · simp only [without, ite_self] at ran
      exact firstFree_without without ran
  unfold Allocator.allocate at ran
  split at ran
  · rcases chosen : allocator.allocateNatural digest kind value with ⟨_ | text, later⟩
    · simp only [chosen] at ran
      have before := natural chosen
      exact token { later with exhausted := kind :: later.exhausted } before ran
    · simp only [chosen] at ran
      obtain ⟨_, rfl⟩ := Prod.mk.inj ran
      exact natural chosen
  · exact token _ without ran

theorem assign_without (without : allocator.ledger = none)
    (ran : allocator.assign digest items placed = (result, final)) :
    final.ledger = none := by
  induction items generalizing allocator placed with
  | nil =>
    obtain ⟨_, rfl⟩ := Prod.mk.inj ran
    exact without
  | cons item rest ih =>
    obtain ⟨kind, value⟩ := item
    rw [Allocator.assign] at ran
    split at ran
    · exact ih without ran
    · rcases found : allocator.allocate digest kind value with ⟨_ | ⟨text, style⟩, next⟩
      · simp only [found] at ran
        obtain ⟨_, rfl⟩ := Prod.mk.inj ran
        exact allocate_without without found
      · simp only [found] at ran
        exact ih (allocate_without without found) ran

variable {request : Request}

theorem Request.mem_addresses :
    value ∈ request.addresses ↔ (Kind.ipAddress, value) ∈ request.items := by
  simp only [Request.addresses, mem_map, mem_filter, decide_eq_true_eq]
  constructor
  · rintro ⟨⟨kind, value⟩, ⟨listed, rfl⟩, rfl⟩
    exact listed
  · intro listed
    exact ⟨_, ⟨listed, rfl⟩, rfl⟩

theorem Request.tracks (sound : ledger.Sound) (asked : request.items.any (·.1 = .ipAddress) = true) :
    Tracks digest (request.allocator ledger) [] ledger where
  held := if_pos asked
  sound := sound
  used := fun _ taken => by simp [Request.allocator] at taken

theorem after_kept (apart : Apart digest addresses) (listed : ∀ value ∈ request.addresses, value ∈ addresses)
    (sound : ledger.Sound) :
    (ledger.after digest request).Sound ∧ ∀ owner standIn, ledger.standInOf owner = some standIn →
      (ledger.after digest request).standInOf owner = some standIn := by
  unfold Ledger.after
  rcases ran : request.assign digest ledger with ⟨result, final⟩
  by_cases asked : request.items.any (·.1 = .ipAddress) = true
  · have members : ∀ value, (Kind.ipAddress, value) ∈ request.items → value ∈ addresses :=
      fun value there => listed value (Request.mem_addresses.mpr there)
    obtain ⟨after, held, sound, _, issued⟩ := (Request.tracks sound asked).assign apart members
      (fun _ none => by simp at none) ran
    rw [held]
    exact ⟨sound, issued⟩
  · have without : (request.allocator ledger).ledger = none := if_neg asked
    rw [assign_without without ran]
    exact ⟨sound, fun _ _ issued => issued⟩

theorem afterAll_kept (requests : List Request) (apart : Apart digest addresses)
    (listed : ∀ request ∈ requests, ∀ value ∈ request.addresses, value ∈ addresses) (sound : ledger.Sound) :
    (ledger.afterAll digest requests).Sound ∧
      ∀ owner standIn, ledger.standInOf owner = some standIn →
        (ledger.afterAll digest requests).standInOf owner = some standIn := by
  induction requests generalizing ledger with
  | nil => exact ⟨sound, fun _ _ issued => issued⟩
  | cons request rest ih =>
    obtain ⟨sound, kept⟩ := after_kept apart (listed request (by simp)) sound
    obtain ⟨last, later⟩ := ih (fun other there => listed other (by simp [there])) sound
    exact ⟨last, fun owner standIn issued => later owner standIn (kept owner standIn issued)⟩

theorem Allocator.allocate_exhausted {text : Text} {style : PlaceholderStyle}
    (exhausted : .ipAddress ∈ allocator.exhausted)
    (ran : allocator.allocate digest .ipAddress value = (some (text, style), next)) : style = .token := by
  have other : ¬ (allocator.resolve .ipAddress = .natural ∧ .ipAddress ∉ allocator.exhausted) :=
    fun both => both.2 exhausted
  rw [Allocator.allocate, if_neg other] at ran
  rcases Allocator.allocateToken_cases ran with ⟨none, _⟩ | ⟨token, same, _⟩
  · simp at none
  · exact (Prod.mk.inj (Option.some.inj same)).2

theorem assign_once {met : Allocator} {before after : List (Kind × Text)} {first : List Redaction}
    (new : (kind, value) ∉ before) (ran : allocator.assign digest before [] = (some first, met))
    (whole : allocator.assign digest (before ++ (kind, value) :: after) [] = (some placed, final)) :
    ∃ text style next, met.allocate digest kind value = (some (text, style), next) ∧
      ∀ redaction, redaction ∈ placed ∧ redaction.kind = kind ∧ redaction.value = value ↔
        redaction = ⟨text, kind, value, style⟩ := by
  obtain ⟨_, same, members⟩ := assign_placed ran
  rw [nil_append] at same
  subst same
  have unknown : ¬ first.any (fun earlier => earlier.kind = kind && earlier.value = value) := by
    intro known
    obtain ⟨earlier, listed, equal⟩ := any_eq_true.mp known
    simp only [Bool.and_eq_true, decide_eq_true_eq] at equal
    have there := (members earlier listed).1
    rw [equal.1, equal.2] at there
    exact new there
  rw [assign_snoc, ran] at whole
  simp only [Allocator.assign, if_neg unknown] at whole
  rcases found : met.allocate digest kind value with ⟨_ | ⟨text, style⟩, next⟩
  · simp [found] at whole
  · simp only [found] at whole
    obtain ⟨more, rfl, later⟩ := assign_placed whole
    refine ⟨text, style, next, rfl, fun redaction => ⟨?_, ?_⟩⟩
    · rintro ⟨listed, rfl, rfl⟩
      simp only [List.append_assoc, mem_append, mem_singleton] at listed
      rcases listed with listed | listed | listed
      · exact absurd (members redaction listed).1 new
      · exact listed
      · exact absurd rfl ((later redaction listed).2 ⟨text, redaction.kind, redaction.value, style⟩ (by simp))
    · rintro rfl
      exact ⟨by simp, rfl, rfl⟩

theorem request_iff {before after : List (Kind × Text)} {address : Text} (apart : Apart digest addresses)
    (listed : ∀ value ∈ request.addresses, value ∈ addresses) (sound : ledger.Sound)
    (issued : ledger.standInOf (ownerOf digest address) = some standIn)
    (items : request.items = before ++ (.ipAddress, address) :: after) (first : (.ipAddress, address) ∉ before)
    (natural : request.resolve .ipAddress = .natural) (redacted : (request.assign digest ledger).1 = some placed) :
    (∀ redaction ∈ placed, redaction.kind = .ipAddress → redaction.value = address →
      redaction.placeholder = standIn ∧ redaction.style = .natural) ↔
      .ipAddress ∉ ((request.allocator ledger).assign digest before []).2.exhausted := by
  have asked : request.items.any (·.1 = .ipAddress) = true :=
    any_eq_true.mpr ⟨(.ipAddress, address), by simp [items], by simp⟩
  have members : ∀ value, (Kind.ipAddress, value) ∈ before → value ∈ addresses := by
    intro value there
    exact listed value (Request.mem_addresses.mpr (by simp [items, there]))
  unfold Request.assign at redacted
  rcases whole : (request.allocator ledger).assign digest request.items [] with ⟨result, final⟩
  rw [whole] at redacted
  obtain rfl : result = some placed := redacted
  rw [items] at whole
  rcases ran : (request.allocator ledger).assign digest before [] with ⟨_ | placedBefore, met⟩
  · rw [assign_snoc, ran] at whole
    simp at whole
  · obtain ⟨text, style, next, found, once⟩ := assign_once first ran whole
    obtain ⟨during, held, _, tracks, kept⟩ := (Request.tracks sound asked).assign apart members
      (fun _ none => by simp at none) ran
    obtain ⟨policy, tracks⟩ := tracks placedBefore rfl
    constructor
    · intro same exhausted
      obtain ⟨_, plain⟩ := same _ ((once ⟨text, .ipAddress, address, style⟩).mpr rfl).1 rfl rfl
      have token := Allocator.allocate_exhausted exhausted found
      exact absurd (plain.symm.trans token) (by simp)
    · intro left redaction there kind value
      have unplaced : Unplaced digest placedBefore (ownerOf digest address) := by
        intro earlier here ip same
        obtain ⟨_, rfl, of⟩ := assign_placed ran
        have item := (of earlier (by simpa using here)).1
        rw [ip] at item
        have equal := apart.2 _ (members _ item) address
          (listed address (Request.mem_addresses.mpr (by simp [items]))) same
        rw [equal] at item
        exact first item
      obtain ⟨_, given⟩ := tracks.given (policy ▸ natural) left (kept _ _ issued) unplaced
      rw [found] at given
      obtain ⟨sameText, sameStyle⟩ := Prod.mk.inj (Option.some.inj (Prod.mk.inj given).1)
      obtain rfl := (once redaction).mp ⟨there, kind, value⟩
      exact ⟨sameText, sameStyle⟩

end

/-- A digest under which all trials of all addresses end at the first address of the pool. -/
def plainDigest : Digest := fun _ value trial =>
  "00000".toList ++ Nat.toDigits 16 (768 - trial) ++ "0000".toList ++ value.reverse

def everyNatural : Kind → PlaceholderStyle := fun _ => .natural

def noneStored : StoredStandIns where
  rows := []
  nodup := by simp
  dotted := by simp

def asking : Request where
  resolve := everyNatural
  body := "10.0.0.1".toList
  items := [(.ipAddress, "10.0.0.1".toList)]

/-- A request that meets another address before the one it asked for earlier. -/
def crowding : Request where
  resolve := everyNatural
  body := "10.0.0.2, 10.0.0.1".toList
  items := [(.ipAddress, "10.0.0.2".toList), (.ipAddress, "10.0.0.1".toList)]

end AstrLink.StandIns
