import AstrLink.RawGrantRuns

/-!
What the registry of raw grants keeps to over every run: reads need an approval
that carried a proof and has not ended, a grant for one use is claimed once, and
what has ended holds nothing and stays ended.
-/
namespace AstrLink.RawGrantSafety
open RawGrants RawGrantRuns Runs List
open Function (update)

variable {Hash : Type}

/-- The log says which grants there are, and which of them have ended. -/
structure Listed (registry : Registry Hash) (log : List (Event Hash)) : Prop where
  distinct : Distinct registry
  created : ∀ grant ∈ registry.grants, .created grant.id grant.requestID grant.tokenHash ∈ log
  live : ∀ grant ∈ registry.grants, grant.live = true → .ended grant.id ∉ log
  lapsed : ∀ id requestID tokenHash, .created id requestID tokenHash ∈ log →
    registry.hasLive id = true ∨ .ended id ∈ log
  ended : ∀ id, .ended id ∈ log → ∃ requestID tokenHash, .created id requestID tokenHash ∈ log
  limit : registry.grants.countP (fun grant => grant.status = .pending) ≤ maxPendingRawGrants

/-- The event says nothing of what grants there are. -/
def Event.silent : Event Hash → Bool
  | .created _ _ _ | .ended _ => false
  | _ => true

variable {registry : Registry Hash}

variable {event : Event Hash}

theorem Listed.log {log : List (Event Hash)} (listed : Listed registry log) (silent : Event.silent event = true) :
    Listed registry (log ++ [event]) := by
  have isCreated : ∀ id requestID tokenHash, .created id requestID tokenHash ∈ log ++ [event] →
      .created id requestID tokenHash ∈ log := by
    intro id requestID tokenHash logged
    rcases mem_append.mp logged with earlier | last
    · exact earlier
    · rw [← mem_singleton.mp last] at silent
      cases silent
  have isEnded : ∀ id, .ended id ∈ log ++ [event] → .ended id ∈ log := by
    intro id logged
    rcases mem_append.mp logged with earlier | last
    · exact earlier
    · rw [← mem_singleton.mp last] at silent
      cases silent
  obtain ⟨distinct, created, live, lapsed, ended, limit⟩ := listed
  refine ⟨distinct, fun grant member => mem_append_left _ (created grant member),
    fun grant member isLive again => live grant member isLive (isEnded _ again), fun id requestID tokenHash logged => ?_,
    fun id logged => ?_, limit⟩
  · exact (lapsed id requestID tokenHash (isCreated _ _ _ logged)).imp_right (mem_append_left _)
  · obtain ⟨requestID, tokenHash, earlier⟩ := ended id (isEnded id logged)
    exact ⟨requestID, tokenHash, mem_append_left _ earlier⟩

variable {before after : Registry Hash}

theorem Listed.evolve {log : List (Event Hash)} (listed : Listed before log) (evolves : Evolves before after) :
    Listed after (log ++ endedBetween before after) := by
  obtain ⟨distinct, created, live, lapsed, ended, limit⟩ := listed
  refine ⟨evolves.distinct distinct, fun grant member => mem_append_left _ ?_, fun grant member isLive again => ?_,
    fun id requestID tokenHash logged => ?_, fun id logged => ?_, Nat.le_trans evolves.pending limit⟩
  · rcases evolves.grants grant member with kept | ⟨-, -, -, old, oldMember, id, request, token⟩
    · exact created grant kept
    · rw [← id, ← request, ← token]
      exact created old oldMember
  · rcases mem_append.mp again with earlier | now
    · exact live grant (evolves.live member isLive) isLive earlier
    · obtain ⟨id, same, -, gone⟩ := mem_endedBetween.mp now
      rw [← Event.ended.inj same, hasLive_of member isLive] at gone
      cases gone
  · have earlier : .created id requestID tokenHash ∈ log := by simpa using logged
    rcases lapsed id requestID tokenHash earlier with isLive | isEnded
    · by_cases still : after.hasLive id = true
      · exact .inl still
      · exact .inr (mem_append_right _ (mem_endedBetween.mpr ⟨id, rfl, isLive, by simpa using still⟩))
    · exact .inr (mem_append_left _ isEnded)
  · rcases mem_append.mp logged with earlier | now
    · obtain ⟨requestID, tokenHash, isCreated⟩ := ended id earlier
      exact ⟨requestID, tokenHash, mem_append_left _ isCreated⟩
    · obtain ⟨_, same, isLive, -⟩ := mem_endedBetween.mp now
      obtain ⟨grant, member, rfl, -⟩ := hasLive_iff.mp isLive
      rw [Event.ended.inj same]
      exact ⟨_, _, mem_append_left _ (created grant member)⟩

variable {grant : RawGrant Hash}

theorem Listed.create {log : List (Event Hash)} (listed : Listed registry log)
    (undrawn : ∀ event ∈ log, drawn grant.id event = false)
    (below : registry.grants.countP (fun grant => grant.status = .pending) < maxPendingRawGrants)
    (isPending : grant.status = .pending) :
    Listed { registry with grants := registry.grants ++ [grant] }
      (log ++ [.created grant.id grant.requestID grant.tokenHash]) := by
  obtain ⟨distinct, created, live, lapsed, ended, limit⟩ := listed
  have isFresh : ∀ requestID tokenHash, .created grant.id requestID tokenHash ∉ log := by
    intro requestID tokenHash logged
    simpa [drawn] using undrawn _ logged
  refine ⟨?_, fun other member => ?_, fun other member isLive again => ?_, fun id requestID tokenHash logged => ?_,
    fun id logged => ?_, ?_⟩
  · rw [Distinct, map_append, map_singleton, nodup_append]
    refine ⟨distinct, nodup_singleton _, fun id member last isLast => ?_⟩
    obtain ⟨other, otherMember, rfl⟩ := mem_map.mp member
    obtain rfl := mem_singleton.mp isLast
    intro same
    exact isFresh _ _ (same ▸ created other otherMember)
  · rcases mem_append.mp member with earlier | last
    · exact mem_append_left _ (created other earlier)
    · rw [mem_singleton.mp last]
      exact mem_append_right _ (mem_singleton_self _)
  · have isEnded : .ended other.id ∈ log := by simpa using again
    rcases mem_append.mp member with earlier | last
    · exact live other earlier isLive isEnded
    · rw [mem_singleton.mp last] at isEnded
      obtain ⟨requestID, tokenHash, isCreated⟩ := ended grant.id isEnded
      exact isFresh requestID tokenHash isCreated
  · rcases mem_append.mp logged with earlier | last
    · refine (lapsed id requestID tokenHash earlier).imp (fun isLive => ?_) (mem_append_left _)
      obtain ⟨other, member, rfl, otherLive⟩ := hasLive_iff.mp isLive
      exact hasLive_iff.mpr ⟨other, mem_append_left _ member, rfl, otherLive⟩
    · obtain ⟨rfl, -, -⟩ := Event.created.inj (mem_singleton.mp last)
      exact .inl (hasLive_iff.mpr ⟨grant, by simp, rfl, live_of_pending isPending⟩)
  · obtain ⟨requestID, tokenHash, isCreated⟩ := ended id (by simpa using logged)
    exact ⟨requestID, tokenHash, mem_append_left _ isCreated⟩
  · rw [countP_append]
    simp only [countP_singleton]
    split_ifs <;> omega

theorem Listed.approve {log : List (Event Hash)} (listed : Listed registry log) {decided : RawGrant Hash}
    (member : grant ∈ registry.grants) (isPending : grant.status = .pending) (id : decided.id = grant.id)
    (request : decided.requestID = grant.requestID) (token : decided.tokenHash = grant.tokenHash)
    (status : decided.status = .approved) :
    Listed (registry.replace grant.id decided) log := by
  obtain ⟨distinct, created, live, lapsed, ended, limit⟩ := listed
  have notPending : decided.status ≠ .pending := by simp [status]
  refine ⟨?_, fun other otherMember => ?_, fun other otherMember isLive => ?_, fun otherID requestID tokenHash logged => ?_,
    ended, Nat.le_trans (replace_pending registry grant.id notPending) limit⟩
  · rw [Distinct, replace_ids registry id]
    exact distinct
  · rcases mem_replace otherMember with rfl | ⟨kept, -⟩
    · rw [id, request, token]
      exact created grant member
    · exact created other kept
  · rcases mem_replace otherMember with rfl | ⟨kept, -⟩
    · rw [id]
      exact live grant member (live_of_pending isPending)
    · exact live other kept isLive
  · refine (lapsed otherID requestID tokenHash logged).imp_left (fun isLive => ?_)
    obtain ⟨other, otherMember, rfl, otherLive⟩ := hasLive_iff.mp isLive
    by_cases same : other.id = grant.id
    · exact hasLive_iff.mpr ⟨decided, mem_map.mpr ⟨other, otherMember, if_pos same⟩, id.trans same.symm,
        live_of_approved status⟩
    · exact hasLive_iff.mpr ⟨other, mem_map.mpr ⟨other, otherMember, if_neg same⟩, rfl, otherLive⟩

variable {world : World Hash}

variable {next : World Hash}

theorem Listed.move (listed : Listed world.registry world.log) (move : Move world next) :
    Listed next.registry next.log := by
  cases move with
  | evolve after evolves => exact listed.evolve evolves
  | create grant undrawn below isPending => exact listed.create undrawn below isPending
  | hold key =>
    have kept : Listed world.registry (world.log ++ [.held world.nextHolder]) := listed.log rfl
    exact ⟨kept.distinct, kept.created, kept.live, kept.lapsed, kept.ended, kept.limit⟩
  | drop holder closed => exact listed
  | approve grant decided member isPending mode approves holder isHeld closed id request token status =>
    exact (listed.approve member isPending id request token status).log rfl
  | allow grant member approved requestID reaches => exact listed.log rfl
  | claimLasting grant member approved lasting requestID => exact listed.log rfl
  | claimOnce grant member approved once after evolves ended => exact (listed.log rfl).evolve evolves
  | openPart i lease leased holder opener isOpen => exact listed.log rfl
  | release i => exact listed
  | revokedAll none => exact listed.log rfl

/-! ### Approvals, and the holders they take over -/

def Event.approval : Event Hash → Bool
  | .approved _ _ _ => true
  | _ => false

/-- Each approval carried a key of its own, and an approved grant has what its approval gave it. -/
structure Approvals (registry : Registry Hash) (held : List Nat) (log : List (Event Hash)) : Prop where
  approved : ∀ grant ∈ registry.grants, grant.status = .approved → ∃ mode holder, grant.mode = some mode ∧
    mode ≠ .deny ∧ .approved grant.id mode holder ∈ log ∧ grant.holder = if mode.lasting then some holder else none
  empty : Bare registry
  carried : ∀ id mode holder, .approved id mode holder ∈ log → .held holder ∈ log ∧ holder ∉ held
  created : ∀ id mode holder, .approved id mode holder ∈ log →
    ∃ requestID tokenHash, .created id requestID tokenHash ∈ log
  decided : ∀ id mode holder, .approved id mode holder ∈ log →
    ∀ grant ∈ registry.grants, grant.id = id → grant.status ≠ .pending
  unique : ∀ id mode holder id' mode' holder', .approved id mode holder ∈ log → .approved id' mode' holder' ∈ log →
    id = id' ∨ holder = holder' → id = id' ∧ mode = mode' ∧ holder = holder'

variable {held : List Nat}

theorem Approvals.extend {log : List (Event Hash)} (approvals : Approvals registry held log)
    {more : List (Event Hash)} (none : ∀ event ∈ more, Event.approval event = false) :
    Approvals registry held (log ++ more) := by
  have isApproved : ∀ {id mode holder}, .approved id mode holder ∈ log ++ more → .approved id mode holder ∈ log := by
    intro id mode holder logged
    rcases mem_append.mp logged with earlier | later
    · exact earlier
    · have isNone := none _ later
      cases isNone
  obtain ⟨approved, empty, carried, created, decided, unique⟩ := approvals
  refine ⟨fun grant member status => ?_, empty, fun id mode holder logged => ?_, fun id mode holder logged => ?_,
    fun id mode holder logged => decided id mode holder (isApproved logged),
    fun id mode holder id' mode' holder' logged logged' =>
      unique id mode holder id' mode' holder' (isApproved logged) (isApproved logged')⟩
  · obtain ⟨mode, holder, hasMode, approves, logged, takes⟩ := approved grant member status
    exact ⟨mode, holder, hasMode, approves, mem_append_left _ logged, takes⟩
  · obtain ⟨isHeld, gone⟩ := carried id mode holder (isApproved logged)
    exact ⟨mem_append_left _ isHeld, gone⟩
  · obtain ⟨requestID, tokenHash, isCreated⟩ := created id mode holder (isApproved logged)
    exact ⟨requestID, tokenHash, mem_append_left _ isCreated⟩

theorem Approvals.log {log : List (Event Hash)} (approvals : Approvals registry held log)
    (none : Event.approval event = false) :
    Approvals registry held (log ++ [event]) :=
  approvals.extend (fun _ member => by rwa [mem_singleton.mp member])

theorem Approvals.evolve {log : List (Event Hash)} (approvals : Approvals before held log)
    (evolves : Evolves before after) :
    Approvals after held (log ++ endedBetween before after) := by
  refine Approvals.extend ?_ ?_
  · obtain ⟨approved, empty, carried, created, decided, unique⟩ := approvals
    refine ⟨fun grant member status => approved grant (evolves.live member (live_of_approved status)) status,
      empty.evolves evolves, carried, created, fun id mode holder logged grant member same isPending => ?_, unique⟩
    exact decided id mode holder logged grant (evolves.live member (live_of_pending isPending)) same isPending
  · intro event member
    obtain ⟨id, rfl, -⟩ := mem_endedBetween.mp member
    rfl

variable {holder : Nat}

theorem Approvals.approve {log : List (Event Hash)} (approvals : Approvals registry held log)
    (listed : Listed registry log) {decided : RawGrant Hash} (member : grant ∈ registry.grants)
    (isPending : grant.status = .pending) {mode : GrantMode} (approves : mode ≠ .deny) (isHeld : holder ∈ held)
    (heldDistinct : held.Nodup) (heldLogged : .held holder ∈ log) (id : decided.id = grant.id)
    (status : decided.status = .approved) (hasMode : decided.mode = some mode)
    (takes : decided.holder = if mode.lasting then some holder else none) :
    Approvals (registry.replace grant.id decided) (held.erase holder) (log ++ [.approved grant.id mode holder]) := by
  obtain ⟨approved, empty, carried, created, undecided, unique⟩ := approvals
  have isNew : ∀ mode' holder', .approved grant.id mode' holder' ∉ log :=
    fun mode' holder' logged => undecided _ _ _ logged grant member rfl isPending
  have unused : ∀ id' mode', .approved id' mode' holder ∉ log :=
    fun id' mode' logged => (carried _ _ _ logged).2 isHeld
  have cases_of : ∀ {id' mode' holder'}, .approved id' mode' holder' ∈ log ++ [.approved grant.id mode holder] →
      .approved id' mode' holder' ∈ log ∨ id' = grant.id ∧ mode' = mode ∧ holder' = holder := by
    intro id' mode' holder' logged
    rcases mem_append.mp logged with earlier | last
    · exact .inl earlier
    · exact .inr (Event.approved.inj (mem_singleton.mp last))
  refine ⟨fun other otherMember otherStatus => ?_, fun other otherMember otherStatus => ?_,
    fun id' mode' holder' logged => ?_, fun id' mode' holder' logged => ?_,
    fun id' mode' holder' logged other otherMember same => ?_, fun id₁ mode₁ holder₁ id₂ mode₂ holder₂ one two same => ?_⟩
  · rcases mem_replace otherMember with rfl | ⟨kept, -⟩
    · exact ⟨mode, holder, hasMode, approves, by simp [id], takes⟩
    · obtain ⟨mode', holder', hasMode', approves', logged, takes'⟩ := approved other kept otherStatus
      exact ⟨mode', holder', hasMode', approves', mem_append_left _ logged, takes'⟩
  · rcases mem_replace otherMember with rfl | ⟨kept, -⟩
    · exact absurd status otherStatus
    · exact empty other kept otherStatus
  · rcases cases_of logged with earlier | ⟨rfl, rfl, rfl⟩
    · obtain ⟨isLogged, gone⟩ := carried _ _ _ earlier
      exact ⟨mem_append_left _ isLogged, fun again => gone (mem_of_mem_erase again)⟩
    · exact ⟨mem_append_left _ heldLogged, heldDistinct.not_mem_erase⟩
  · rcases cases_of logged with earlier | ⟨rfl, rfl, rfl⟩
    · obtain ⟨requestID, tokenHash, isCreated⟩ := created _ _ _ earlier
      exact ⟨requestID, tokenHash, mem_append_left _ isCreated⟩
    · exact ⟨_, _, mem_append_left _ (listed.created grant member)⟩
  · rcases mem_replace otherMember with rfl | ⟨kept, elsewhere⟩
    · simp [status]
    · rcases cases_of logged with earlier | ⟨rfl, rfl, rfl⟩
      · exact undecided _ _ _ earlier other kept same
      · exact absurd same elsewhere
  · rcases cases_of one with early | ⟨rfl, rfl, rfl⟩ <;> rcases cases_of two with early' | ⟨rfl, rfl, rfl⟩
    · exact unique _ _ _ _ _ _ early early' same
    · rcases same with rfl | rfl
      · exact absurd early (isNew _ _)
      · exact absurd early (unused _ _)
    · rcases same with rfl | rfl
      · exact absurd early' (isNew _ _)
      · exact absurd early' (unused _ _)
    · exact ⟨rfl, rfl, rfl⟩

/-- A key stays open only while a decision or a grant has it. -/
structure Holding (world : World Hash) : Prop where
  approvals : Approvals world.registry world.held world.log
  isOpen : ∀ holder, world.registry.holders holder ≠ none →
    holder ∈ world.held ∨ ∃ grant ∈ world.registry.grants, grant.holder = some holder
  below : ∀ holder, .held holder ∈ world.log → holder < world.nextHolder
  logged : ∀ holder ∈ world.held, .held holder ∈ world.log
  distinct : world.held.Nodup

/-- An event that is no proof and no approval is of no concern to the holders. -/
def Event.plain : Event Hash → Bool
  | .held _ | .approved _ _ _ => false
  | _ => true

theorem Event.plain_approval (plain : Event.plain event = true) : Event.approval event = false := by
  cases event <;> first | rfl | cases plain

theorem Holding.extend (holding : Holding world) (more : List (Event Hash))
    (plain : ∀ event ∈ more, Event.plain event = true) : Holding { world with log := world.log ++ more } := by
  refine ⟨holding.approvals.extend (fun event member => Event.plain_approval (plain event member)), holding.isOpen,
    fun holder logged => ?_, fun holder isHeld => mem_append_left _ (holding.logged holder isHeld),
    holding.distinct⟩
  rcases mem_append.mp logged with earlier | later
  · exact holding.below holder earlier
  · have isPlain := plain _ later
    cases isPlain

theorem Holding.evolve (holding : Holding world) (evolves : Evolves world.registry after) :
    Holding { world with registry := after, log := world.log ++ endedBetween world.registry after } := by
  have extended := holding.extend (endedBetween world.registry after) (fun event member => by
    obtain ⟨id, rfl, -⟩ := mem_endedBetween.mp member
    rfl)
  refine ⟨holding.approvals.evolve evolves, fun holder stillOpen => ?_, extended.below, extended.logged, extended.distinct⟩
  obtain ⟨key, isOpen⟩ := Option.ne_none_iff_exists'.mp stillOpen
  obtain ⟨wasOpen, stays⟩ := evolves.holders holder key isOpen
  rcases holding.isOpen holder (by simp [wasOpen]) with isHeld | ⟨grant, member, has⟩
  · exact .inl isHeld
  · exact .inr ⟨grant, stays grant member has (live_of_approved (holding.approvals.empty.approved member has)), has⟩

theorem Holding.move (holding : Holding world) (listed : Listed world.registry world.log) (move : Move world next) :
    Holding next := by
  have whole := holding
  obtain ⟨approvals, isOpen, below, logged, distinct⟩ := holding
  cases move with
  | evolve after evolves => exact whole.evolve evolves
  | create grant undrawn _ isPending keys holder =>
    have extended := whole.extend [.created grant.id grant.requestID grant.tokenHash] (by simp [Event.plain])
    obtain ⟨approved, empty, carried, created, decided, unique⟩ := extended.approvals
    refine ⟨⟨fun other member status => ?_, fun other member status => ?_, carried, created,
      fun id mode taken isLogged other member same => ?_, unique⟩, fun taken stillOpen => ?_, extended.below,
      extended.logged, distinct⟩
    · rcases mem_append.mp member with earlier | last
      · exact approved other earlier status
      · rw [mem_singleton.mp last, isPending] at status
        cases status
    · rcases mem_append.mp member with earlier | last
      · exact empty other earlier status
      · rw [mem_singleton.mp last]
        exact ⟨keys, holder⟩
    · rcases mem_append.mp member with earlier | last
      · exact decided id mode taken isLogged other earlier same
      · rw [mem_singleton.mp last] at same
        subst same
        obtain ⟨requestID, tokenHash, isCreated⟩ := approvals.created _ _ _
          (by simpa using isLogged : .approved grant.id mode taken ∈ world.log)
        simpa [drawn] using undrawn _ isCreated
    · rcases isOpen taken stillOpen with isHeld | ⟨other, member, has⟩
      · exact .inl isHeld
      · exact .inr ⟨other, mem_append_left _ member, has⟩
  | hold key =>
    have extended : Approvals world.registry world.held (world.log ++ [.held world.nextHolder]) := approvals.log rfl
    obtain ⟨approved, empty, carried, created, decided, unique⟩ := extended
    refine ⟨⟨approved, empty, fun id mode holder isLogged => ?_, created, decided, unique⟩, fun holder stillOpen => ?_,
      fun holder isLogged => ?_, fun holder isHeld => ?_, ?_⟩
    · obtain ⟨isProved, gone⟩ := carried id mode holder isLogged
      refine ⟨isProved, fun isHeld => ?_⟩
      rcases mem_cons.mp isHeld with rfl | earlier
      · have before := (approvals.carried id mode _ (by simpa using isLogged)).1
        exact absurd (below _ before) (Nat.lt_irrefl _)
      · exact gone earlier
    · by_cases same : holder = world.nextHolder
      · exact .inl (by simp [same])
      · refine (isOpen holder ?_).imp_left (mem_cons_of_mem _)
        simpa [same] using stillOpen
    · rcases mem_append.mp isLogged with earlier | last
      · exact Nat.lt_succ_of_lt (below holder earlier)
      · rw [Event.held.inj (mem_singleton.mp last)]
        exact Nat.lt_succ_self _
    · rcases mem_cons.mp isHeld with rfl | earlier
      · simp
      · exact mem_append_left _ (logged holder earlier)
    · refine nodup_cons.mpr ⟨fun isHeld => ?_, distinct⟩
      exact absurd (below _ (logged _ isHeld)) (Nat.lt_irrefl _)
  | drop holder closed =>
    obtain ⟨approved, empty, carried, created, decided, unique⟩ := approvals
    refine ⟨⟨approved, empty, fun id mode taken isLogged => ?_, created, decided, unique⟩, fun taken stillOpen => ?_,
      below, fun taken isHeld => logged taken (mem_of_mem_erase isHeld), distinct.erase holder⟩
    · exact ⟨(carried id mode taken isLogged).1, fun isHeld => (carried id mode taken isLogged).2 (mem_of_mem_erase isHeld)⟩
    · refine (isOpen taken stillOpen).imp_left (fun isHeld => (mem_erase_of_ne fun same => ?_).mpr isHeld)
      exact stillOpen (same ▸ closed)
  | approve grant decided member isPending mode approves holder isHeld closed id request token status hasMode takes =>
    refine ⟨approvals.approve listed member isPending approves isHeld distinct (logged holder isHeld) id status hasMode takes,
      fun taken stillOpen => ?_, fun taken isLogged => below taken (by simpa using isLogged),
      fun taken stays => mem_append_left _ (logged taken (mem_of_mem_erase stays)), distinct.erase holder⟩
    rcases isOpen taken stillOpen with wasHeld | ⟨other, otherMember, has⟩
    · by_cases same : taken = holder
      · subst same
        have lasting := closed.resolve_right stillOpen
        exact .inr ⟨decided, mem_map.mpr ⟨grant, member, if_pos rfl⟩, by rw [takes, if_pos lasting]⟩
      · exact .inl ((mem_erase_of_ne same).mpr wasHeld)
    · refine .inr ⟨other, mem_map.mpr ⟨other, otherMember, if_neg fun same => ?_⟩, has⟩
      have isApproved := approvals.empty.approved otherMember has
      rw [listed.distinct.eq otherMember member same, isPending] at isApproved
      cases isApproved
  | allow grant member approved requestID reaches => exact whole.extend _ (by simp [Event.plain])
  | claimLasting grant member approved lasting requestID =>
    have extended := whole.extend [.claimed world.leases.length grant.id requestID grant.tokenHash] (by simp [Event.plain])
    exact ⟨extended.approvals, extended.isOpen, extended.below, extended.logged, extended.distinct⟩
  | claimOnce grant member approved once after evolves ended =>
    have extended := whole.extend [.claimed world.leases.length grant.id grant.requestID grant.tokenHash]
      (by simp [Event.plain])
    have evolved := extended.evolve evolves
    exact ⟨evolved.approvals, evolved.isOpen, evolved.below, evolved.logged, evolved.distinct⟩
  | openPart i lease leased holder opener stillOpen => exact whole.extend _ (by simp [Event.plain])
  | release i => exact ⟨approvals, isOpen, below, logged, distinct⟩
  | revokedAll none => exact whole.extend _ (by simp [Event.plain])

/-! ### What every event keeps to -/

/-- A token's grant was approved with a proof, has not ended, and is lasting or for this request. -/
def Admitted (before : List (Event Hash)) (id requestID : String) (tokenHash : Hash) : Prop :=
  .ended id ∉ before ∧ (∃ own, .created id own tokenHash ∈ before) ∧
    ∃ mode holder, .approved id mode holder ∈ before ∧ .held holder ∈ before ∧
      (mode.lasting = true ∨ .created id requestID tokenHash ∈ before)

def Lawful (before : List (Event Hash)) : Event Hash → Prop
  | .created id _ _ => ∀ event ∈ before, drawn id event = false
  -- A grant is approved once, while it is pending.
  | .approved id _ holder => .held holder ∈ before ∧ .ended id ∉ before ∧
      (∃ requestID tokenHash, .created id requestID tokenHash ∈ before) ∧ ∀ mode holder, .approved id mode holder ∉ before
  | .allowed id requestID tokenHash => Admitted before id requestID tokenHash
  -- A grant for one use was not claimed before.
  | .claimed _ id requestID tokenHash => Admitted before id requestID tokenHash ∧
      ∀ holder, .approved id .once holder ∈ before →
        ∀ lease requestID tokenHash, .claimed lease id requestID tokenHash ∉ before
  | .opened lease id => .ended id ∉ before ∧ ∃ requestID tokenHash, .claimed lease id requestID tokenHash ∈ before
  | .revokedAll => ∀ id requestID tokenHash, .created id requestID tokenHash ∈ before → .ended id ∈ before
  | .held _ | .ended _ => True

/-- What the leases and the claims say of the grants. -/
structure Claims (world : World Hash) : Prop where
  leased : ∀ (i : Nat) (lease : Lease), world.leases[i]? = some lease →
    ∃ requestID tokenHash, .claimed i lease.grantID requestID tokenHash ∈ world.log
  lasting : ∀ (i : Nat) (lease : Lease) (holder : Nat), world.leases[i]? = some lease → lease.opener = some holder →
    ∃ mode, .approved lease.grantID mode holder ∈ world.log
  approved : ∀ lease id requestID tokenHash, .claimed lease id requestID tokenHash ∈ world.log →
    ∃ mode holder, .approved id mode holder ∈ world.log
  spent : ∀ lease id requestID tokenHash holder, .claimed lease id requestID tokenHash ∈ world.log →
    .approved id .once holder ∈ world.log → .ended id ∈ world.log
  always : Always Lawful world.log

def Event.claim : Event Hash → Bool
  | .claimed _ _ _ _ => true
  | _ => false

theorem Claims.extend (claims : Claims world) (more : List (Event Hash))
    (plain : ∀ event ∈ more, Event.approval event = false ∧ Event.claim event = false)
    (always : Always Lawful (world.log ++ more)) : Claims { world with log := world.log ++ more } := by
  have isApproved : ∀ {id mode holder}, .approved id mode holder ∈ world.log ++ more →
      .approved id mode holder ∈ world.log := by
    intro id mode holder logged
    rcases mem_append.mp logged with earlier | later
    · exact earlier
    · have isNone := (plain _ later).1
      cases isNone
  have isClaimed : ∀ {lease id requestID tokenHash}, .claimed lease id requestID tokenHash ∈ world.log ++ more →
      .claimed lease id requestID tokenHash ∈ world.log := by
    intro lease id requestID tokenHash logged
    rcases mem_append.mp logged with earlier | later
    · exact earlier
    · have isNone := (plain _ later).2
      cases isNone
  refine ⟨fun i lease found => ?_, fun i lease holder found opener => ?_, fun lease id requestID tokenHash logged => ?_,
    fun lease id requestID tokenHash holder logged once => ?_, always⟩
  · obtain ⟨requestID, tokenHash, logged⟩ := claims.leased i lease found
    exact ⟨requestID, tokenHash, mem_append_left _ logged⟩
  · obtain ⟨mode, logged⟩ := claims.lasting i lease holder found opener
    exact ⟨mode, mem_append_left _ logged⟩
  · obtain ⟨mode, holder, approved⟩ := claims.approved _ _ _ _ (isClaimed logged)
    exact ⟨mode, holder, mem_append_left _ approved⟩
  · exact mem_append_left _ (claims.spent _ _ _ _ _ (isClaimed logged) (isApproved once))

theorem ended_lawful (before after : Registry Hash) (earlier : List (Event Hash)) :
    ∀ event ∈ endedBetween before after, Lawful earlier event := by
  intro event member
  obtain ⟨id, rfl, -⟩ := mem_endedBetween.mp member
  trivial

theorem Claims.evolve (claims : Claims world) (after : Registry Hash) :
    Claims { world with registry := after, log := world.log ++ endedBetween world.registry after } := by
  have extended := claims.extend (endedBetween world.registry after)
    (fun event member => by
      obtain ⟨id, rfl, -⟩ := mem_endedBetween.mp member
      exact ⟨rfl, rfl⟩)
    (claims.always.append _ (fun earlier => ended_lawful world.registry after earlier))
  exact ⟨extended.leased, extended.lasting, extended.approved, extended.spent, extended.always⟩

variable {requestID : String}

theorem admitted (listed : Listed world.registry world.log) (holding : Holding world)
    (member : grant ∈ world.registry.grants) (approved : grant.status = .approved)
    (reaches : grant.requestID = requestID ∨ grant.lasting = true) :
    Admitted world.log grant.id requestID grant.tokenHash := by
  have created := listed.created grant member
  obtain ⟨mode, holder, hasMode, -, logged, -⟩ := holding.approvals.approved grant member approved
  refine ⟨listed.live grant member (live_of_approved approved), ⟨_, created⟩, mode, holder, logged,
    (holding.approvals.carried _ _ _ logged).1, ?_⟩
  rcases reaches with rfl | lasting
  · exact .inr created
  · rw [RawGrant.lasting, hasMode] at lasting
    exact .inl lasting

theorem Claims.claim (claims : Claims world) (listed : Listed world.registry world.log) (holding : Holding world)
    (member : grant ∈ world.registry.grants) (approved : grant.status = .approved)
    (reaches : grant.requestID = requestID ∨ grant.lasting = true) :
    Always Lawful (world.log ++ [.claimed world.leases.length grant.id requestID grant.tokenHash]) := by
  refine always_snoc.mpr ⟨claims.always, admitted listed holding member approved reaches, ?_⟩
  intro holder once lease requestID' tokenHash claimed
  exact listed.live grant member (live_of_approved approved) (claims.spent _ _ _ _ _ claimed once)

theorem leases_append {leases : List Lease} {lease new : Lease} {i : Nat} (found : (leases ++ [new])[i]? = some lease) :
    leases[i]? = some lease ∨ i = leases.length ∧ lease = new := by
  rcases Nat.lt_trichotomy i leases.length with inside | same | beyond
  · exact .inl (by rwa [getElem?_append_left inside] at found)
  · subst same
    exact .inr ⟨rfl, by simpa using found.symm⟩
  · rw [getElem?_eq_none (by simp; omega)] at found
    cases found

theorem Claims.move (claims : Claims world) (listed : Listed world.registry world.log) (holding : Holding world)
    (move : Move world next) : Claims next := by
  have whole := claims
  obtain ⟨leased, lasting, approved, spent, always⟩ := claims
  cases move with
  | evolve after evolves => exact whole.evolve after
  | create grant undrawn below isPending keys holder =>
    have extended := whole.extend [.created grant.id grant.requestID grant.tokenHash]
      (by simp [Event.approval, Event.claim]) (always_snoc.mpr ⟨always, undrawn⟩)
    exact ⟨extended.leased, extended.lasting, extended.approved, extended.spent, extended.always⟩
  | hold key =>
    have extended := whole.extend [.held world.nextHolder] (by simp [Event.approval, Event.claim])
      (always_snoc.mpr ⟨always, trivial⟩)
    exact ⟨extended.leased, extended.lasting, extended.approved, extended.spent, extended.always⟩
  | drop holder closed => exact ⟨leased, lasting, approved, spent, always⟩
  | approve grant decided member isPending mode approves holder isHeld closed id request token status =>
    have undecided : ∀ mode holder, .approved grant.id mode holder ∉ world.log :=
      fun mode holder logged => holding.approvals.decided _ _ _ logged grant member rfl isPending
    refine ⟨fun i lease found => ?_, fun i lease taken found opener => ?_, fun lease other requestID tokenHash claimed => ?_,
      fun lease other requestID tokenHash taken claimed once => ?_, always_snoc.mpr ⟨always, ?_⟩⟩
    · obtain ⟨requestID, tokenHash, logged⟩ := leased i lease found
      exact ⟨requestID, tokenHash, mem_append_left _ logged⟩
    · obtain ⟨mode', logged⟩ := lasting i lease taken found opener
      exact ⟨mode', mem_append_left _ logged⟩
    · obtain ⟨mode', taken, logged⟩ := approved lease other requestID tokenHash (by simpa using claimed)
      exact ⟨mode', taken, mem_append_left _ logged⟩
    · have before : .claimed lease other requestID tokenHash ∈ world.log := by simpa using claimed
      rcases mem_append.mp once with earlier | last
      · exact mem_append_left _ (spent _ _ _ _ _ before earlier)
      · obtain ⟨rfl, -, -⟩ := Event.approved.inj (mem_singleton.mp last)
        obtain ⟨mode', taken', logged⟩ := approved _ _ _ _ before
        exact absurd logged (undecided mode' taken')
    · exact ⟨holding.logged holder isHeld, listed.live grant member (live_of_pending isPending),
        ⟨_, _, listed.created grant member⟩, undecided⟩
  | allow grant member approved requestID reaches =>
    exact whole.extend _ (by simp [Event.approval, Event.claim])
      (always_snoc.mpr ⟨always, admitted listed holding member approved reaches⟩)
  | claimLasting grant member isApproved isLasting requestID =>
    obtain ⟨mode, holder, hasMode, -, logged, takes⟩ := holding.approvals.approved grant member isApproved
    have modeLasting : mode.lasting = true := by simpa [RawGrant.lasting, hasMode] using isLasting
    refine ⟨fun i lease found => ?_, fun i lease taken found opener => ?_, fun lease other request tokenHash claimed => ?_,
      fun lease other request tokenHash taken claimed once => ?_,
      whole.claim listed holding member isApproved (.inr isLasting)⟩
    · rcases leases_append found with earlier | ⟨rfl, rfl⟩
      · obtain ⟨request, tokenHash, claimed⟩ := leased i lease earlier
        exact ⟨request, tokenHash, mem_append_left _ claimed⟩
      · exact ⟨requestID, grant.tokenHash, by simp⟩
    · rcases leases_append found with earlier | ⟨rfl, rfl⟩
      · obtain ⟨mode', logged'⟩ := lasting i lease taken earlier opener
        exact ⟨mode', mem_append_left _ logged'⟩
      · rw [takes, if_pos modeLasting] at opener
        cases opener
        exact ⟨mode, mem_append_left _ logged⟩
    · rcases mem_append.mp claimed with earlier | last
      · obtain ⟨mode', taken, logged'⟩ := approved _ _ _ _ earlier
        exact ⟨mode', taken, mem_append_left _ logged'⟩
      · obtain ⟨-, rfl, -, -⟩ := Event.claimed.inj (mem_singleton.mp last)
        exact ⟨mode, holder, mem_append_left _ logged⟩
    · have before : .approved other .once taken ∈ world.log := by simpa using once
      rcases mem_append.mp claimed with earlier | last
      · exact mem_append_left _ (spent _ _ _ _ _ earlier before)
      · obtain ⟨-, rfl, -, -⟩ := Event.claimed.inj (mem_singleton.mp last)
        obtain ⟨-, rfl, -⟩ := holding.approvals.unique _ _ _ _ _ _ logged before (.inl rfl)
        cases modeLasting
  | claimOnce grant member isApproved once after evolves ended =>
    obtain ⟨mode, holder, -, -, logged, -⟩ := holding.approvals.approved grant member isApproved
    have isLive := hasLive_of member (live_of_approved isApproved)
    have isEnded : .ended grant.id ∈ endedBetween world.registry after :=
      mem_endedBetween.mpr ⟨grant.id, rfl, isLive, ended⟩
    refine ⟨fun i lease found => ?_, fun i lease taken found opener => ?_, fun lease other request tokenHash claimed => ?_,
      fun lease other request tokenHash taken claimed isOnce => ?_,
      (whole.claim listed holding member isApproved (.inl rfl)).append _
        (fun earlier => ended_lawful world.registry after earlier)⟩
    · rcases leases_append found with earlier | ⟨rfl, rfl⟩
      · obtain ⟨request, tokenHash, claimed⟩ := leased i lease earlier
        exact ⟨request, tokenHash, by simp [claimed]⟩
      · exact ⟨grant.requestID, grant.tokenHash, by simp⟩
    · rcases leases_append found with earlier | ⟨rfl, rfl⟩
      · obtain ⟨mode', logged'⟩ := lasting i lease taken earlier opener
        exact ⟨mode', by simp [logged']⟩
      · cases opener
    · have cases_of : .claimed lease other request tokenHash ∈ world.log ∨ other = grant.id := by
        simp only [mem_append, mem_singleton, Event.claimed.injEq, mem_endedBetween] at claimed
        rcases claimed with (earlier | ⟨-, rfl, -⟩) | ⟨_, wrong, -⟩
        · exact .inl earlier
        · exact .inr rfl
        · cases wrong
      rcases cases_of with earlier | rfl
      · obtain ⟨mode', taken, logged'⟩ := approved _ _ _ _ earlier
        exact ⟨mode', taken, by simp [logged']⟩
      · exact ⟨mode, holder, by simp [logged]⟩
    · have before : .approved other .once taken ∈ world.log := by simpa using isOnce
      have cases_of : .claimed lease other request tokenHash ∈ world.log ∨ other = grant.id := by
        simp only [mem_append, mem_singleton, Event.claimed.injEq, mem_endedBetween] at claimed
        rcases claimed with (earlier | ⟨-, rfl, -⟩) | ⟨_, wrong, -⟩
        · exact .inl earlier
        · exact .inr rfl
        · cases wrong
      rcases cases_of with earlier | rfl
      · exact mem_append_left _ (mem_append_left _ (spent _ _ _ _ _ earlier before))
      · exact mem_append_right _ isEnded
  | openPart i lease found holder opener stillOpen =>
    refine whole.extend _ (by simp [Event.approval, Event.claim]) (always_snoc.mpr ⟨always, ?_, leased i lease found⟩)
    -- The key is open, so the grant that took it over still has it.
    obtain ⟨mode, logged⟩ := lasting i lease holder found opener
    rcases holding.isOpen holder stillOpen with isHeld | ⟨grant, member, has⟩
    · exact absurd isHeld (holding.approvals.carried _ _ _ logged).2
    · have isApproved := holding.approvals.empty.approved member has
      obtain ⟨mode', holder', -, -, logged', takes⟩ := holding.approvals.approved grant member isApproved
      rw [has] at takes
      split_ifs at takes
      cases takes
      obtain ⟨same, -⟩ := holding.approvals.unique _ _ _ _ _ _ logged logged' (.inr rfl)
      rw [same]
      exact listed.live grant member (live_of_approved isApproved)
  | release i =>
    have before : ∀ {j : Nat} {lease : Lease}, (world.leases.modify i fun lease => { lease with keys := [] })[j]? = some lease →
        ∃ old, world.leases[j]? = some old ∧ old.grantID = lease.grantID ∧ old.opener = lease.opener := by
      intro j lease found
      rw [getElem?_modify] at found
      obtain ⟨old, isOld, rfl⟩ := Option.map_eq_some_iff.mp found
      refine ⟨old, isOld, ?_⟩
      split_ifs <;> exact ⟨rfl, rfl⟩
    refine ⟨fun j lease found => ?_, fun j lease taken found opener => ?_, approved, spent, always⟩
    · obtain ⟨old, isOld, id, -⟩ := before found
      rw [← id]
      exact leased j old isOld
    · obtain ⟨old, isOld, id, sameOpener⟩ := before found
      rw [← id]
      exact lasting j old taken isOld (sameOpener.trans opener)
  | revokedAll none =>
    refine whole.extend _ (by simp [Event.approval, Event.claim]) (always_snoc.mpr ⟨always, fun id request token logged => ?_⟩)
    exact (listed.lapsed id request token logged).resolve_left (by simp [none id])

/-! ### Steps are moves -/

open Relation (ReflTransGen)

structure Kept (world : World Hash) : Prop where
  listed : Listed world.registry world.log
  holding : Holding world
  claims : Claims world

theorem Kept.start : Kept (RawGrantRuns.start : World Hash) where
  listed := ⟨nodup_nil, by simp [RawGrantRuns.start], by simp [RawGrantRuns.start], by simp [RawGrantRuns.start],
    by simp [RawGrantRuns.start], Nat.zero_le _⟩
  holding :=
    { approvals := ⟨by simp [RawGrantRuns.start], by simp [RawGrantRuns.start, Bare], by simp [RawGrantRuns.start],
        by simp [RawGrantRuns.start], by simp [RawGrantRuns.start], by simp [RawGrantRuns.start]⟩
      isOpen := fun _ stillOpen => absurd rfl stillOpen
      below := by simp [RawGrantRuns.start]
      logged := by simp [RawGrantRuns.start]
      distinct := nodup_nil }
  claims := ⟨by simp [RawGrantRuns.start], by simp [RawGrantRuns.start], by simp [RawGrantRuns.start],
    by simp [RawGrantRuns.start], always_nil _⟩

theorem Kept.move (kept : Kept world) (move : Move world next) : Kept next where
  listed := kept.listed.move move
  holding := kept.holding.move kept.listed move
  claims := kept.claims.move kept.listed kept.holding move

theorem Kept.moves (kept : Kept world) (moves : ReflTransGen Move world next) : Kept next := by
  induction moves with
  | refl => exact kept
  | tail _ move ih => exact ih.move move

theorem endedBetween_eq_nil (stays : ∀ grant ∈ before.grants, grant.live = true → after.hasLive grant.id = true) :
    endedBetween before after = [] := by
  refine eq_nil_iff_forall_not_mem.mpr (fun event member => ?_)
  obtain ⟨id, -, isLive, gone⟩ := mem_endedBetween.mp member
  obtain ⟨grant, listed, rfl, live⟩ := hasLive_iff.mp isLive
  rw [stays grant listed live] at gone
  cases gone

theorem endedBetween_same (same : after.grants = before.grants) :
    endedBetween before after = [] :=
  endedBetween_eq_nil (fun _ listed live => hasLive_of (same ▸ listed) live)

theorem endedBetween_append (isNew : ∀ other ∈ before.grants, other.id ≠ grant.id) :
    endedBetween before { after with grants := after.grants ++ [grant] } = endedBetween before after := by
  rw [endedBetween, endedBetween]
  congr 1
  refine filter_congr (fun id member => ?_)
  obtain ⟨other, otherMember, rfl⟩ := mem_map.mp member
  simp [Registry.hasLive, Ne.symm (isNew other otherMember)]

def expired (world : World Hash) (now : Nat) : World Hash :=
  { world with
    registry := world.registry.expireLocked now
    log := world.log ++ endedBetween world.registry (world.registry.expireLocked now) }

theorem expired_move (world : World Hash) (now : Nat) : Move world (expired world now) :=
  .evolve world _ (expireLocked_evolves world.registry now)

theorem settle_moves (world : World Hash) (now : Nat) (evolves : Evolves (world.registry.expireLocked now) after) :
    ReflTransGen Move world (world.settle now after []) := by
  have later : Move (expired world now) _ := .evolve (expired world now) after evolves
  have same : world.settle now after [] = { expired world now with
      registry := after, log := (expired world now).log ++ endedBetween (world.registry.expireLocked now) after } := by
    simp [World.settle, expired]
  rw [same]
  exact .tail (.single (expired_move world now)) later

theorem closed_of_evolves (evolves : Evolves before after) (closed : before.holders holder = none) :
    after.holders holder = none := by
  by_contra stillOpen
  obtain ⟨key, isOpen⟩ := Option.ne_none_iff_exists'.mp stillOpen
  rw [(evolves.holders holder key isOpen).1] at closed
  cases closed

@[simp] theorem close_holders (registry : Registry Hash) (holder : Nat) :
    (registry.close (some holder)).holders holder = none := by
  simp [Registry.close]

theorem close_moves (world : World Hash) (holder : Option Nat) :
    ReflTransGen Move world { world with registry := world.registry.close holder } := by
  have closes : Move world _ := .evolve world _ (close_evolves world.registry holder)
  rw [endedBetween_same (show (world.registry.close holder).grants = world.registry.grants from rfl),
    append_nil] at closes
  exact .single closes

theorem approvedGrant_spec (bare : grant.holder = none) (now : Nat) (mode : GrantMode)
    (keys : List (AuditDirection × Key)) (holder : Option Nat) :
    (approvedGrant grant now mode keys holder).id = grant.id ∧
      (approvedGrant grant now mode keys holder).requestID = grant.requestID ∧
      (approvedGrant grant now mode keys holder).tokenHash = grant.tokenHash ∧
      (approvedGrant grant now mode keys holder).status = .approved ∧
      (approvedGrant grant now mode keys holder).mode = some mode ∧
      (approvedGrant grant now mode keys holder).holder = if mode.lasting then holder else none := by
  rw [approvedGrant]
  split_ifs with lasting
  · exact ⟨rfl, rfl, rfl, rfl, rfl, rfl⟩
  · exact ⟨rfl, rfl, rfl, rfl, rfl, bare⟩

theorem approve_moves (world : World Hash) (bare : Bare world.registry) (now : Nat) (id : String) {mode : GrantMode}
    (approves : mode ≠ .deny) (keys : List (AuditDirection × Key)) (isHeld : holder ∈ world.held)
    (closed : mode.lasting = false → world.registry.holders holder = none) :
    ReflTransGen Move world (world.conclude now id mode holder
      (world.registry.decide now id mode keys (if mode.lasting then some holder else none))) := by
  have toExpired := expireLocked_evolves world.registry now
  rcases settle_cases (world.registry.expireLocked now) now id mode keys (if mode.lasting then some holder else none) with
    ⟨error, outcome⟩ | ⟨grant, member, rfl, isPending, ⟨denies, -⟩ | ⟨-, outcome⟩⟩
  · rw [Registry.decide, outcome]
    refine .tail (settle_moves world now (close_evolves _ _)) (.drop _ holder ?_)
    cases lasting : mode.lasting with
    | true => simp [World.settle]
    | false => exact closed_of_evolves (toExpired.trans (close_evolves _ _)) (closed lasting)
  · exact absurd denies approves
  · rw [Registry.decide, outcome]
    obtain ⟨-, holderless⟩ := bare.evolves toExpired grant member (by rw [isPending]; decide)
    obtain ⟨id, request, token, status, hasMode, takes⟩ := approvedGrant_spec holderless now mode keys
      (if mode.lasting then some holder else none)
    generalize approvedGrant grant now mode keys (if mode.lasting then some holder else none) = approved at *
    let taken : World Hash := { expired world now with
      registry := if mode.lasting then world.registry.expireLocked now
        else (world.registry.expireLocked now).close (if mode.lasting then some holder else none) }
    have toTaken : ReflTransGen Move world taken := by
      cases lasting : mode.lasting with
      | true => simpa [taken, lasting, expired] using ReflTransGen.single (expired_move world now)
      | false =>
        have closes := close_moves (expired world now) none
        simpa [taken, lasting, expired] using (ReflTransGen.single (expired_move world now)).trans closes
    have sameGrants : taken.registry.grants = (world.registry.expireLocked now).grants := by
      cases lasting : mode.lasting <;> simp [taken, lasting, Registry.close]
    have approves' : Move taken _ := .approve taken grant approved (sameGrants ▸ member) isPending mode approves holder
      isHeld ?_ id request token status hasMode (by rw [takes]; split_ifs <;> rfl)
    · have same : endedBetween (world.registry.expireLocked now) (taken.registry.replace grant.id approved) = [] := by
        refine endedBetween_eq_nil (fun other listed live => hasLive_iff.mpr ?_)
        by_cases isThis : other.id = grant.id
        · exact ⟨approved, mem_map.mpr ⟨other, sameGrants ▸ listed, if_pos isThis⟩, id.trans isThis.symm,
            live_of_approved status⟩
        · exact ⟨other, mem_map.mpr ⟨other, sameGrants ▸ listed, if_neg isThis⟩, rfl, live⟩
      refine .tail toTaken ?_
      have isNext : world.conclude now grant.id mode holder (taken.registry.replace grant.id approved, .ok approved) =
          { taken with
            registry := taken.registry.replace grant.id approved
            held := taken.held.erase holder
            log := taken.log ++ [.approved grant.id mode holder] } := by
        simp [World.conclude, World.settle, same, taken, expired]
      rw [← isNext] at approves'
      exact approves'
    · cases lasting : mode.lasting with
      | true => exact .inl rfl
      | false =>
        have stays := closed_of_evolves (toExpired.trans (close_evolves _ none)) (closed lasting)
        exact .inr (by simpa [taken, lasting] using stays)

section
variable [DecidableEq Hash]

variable {next : World Hash}

theorem create_moves (world : World Hash) (listed : Listed world.registry world.log) {now : Nat} {id : String}
    {tokenHash : Hash} {reason clientName : String}
    (stepped : world.step (.create now id tokenHash requestID reason clientName) = some next) :
    ReflTransGen Move world next := by
  simp only [World.step] at stepped
  split_ifs at stepped with isDrawn
  simp only [Bool.or_eq_true, not_or] at isDrawn
  have undrawn : ∀ event ∈ world.log, drawn id event = false := by simpa using isDrawn.1
  obtain ⟨after, evolves, limited | ⟨below, added⟩⟩ :=
    add_cases (world.registry.expireLocked now) now id tokenHash requestID reason clientName
  · rw [Registry.create, limited] at stepped
    cases stepped
    exact settle_moves world now evolves
  · rw [Registry.create, added] at stepped
    cases stepped
    have isNew : ∀ other ∈ (world.registry.expireLocked now).grants,
        other.id ≠ (newGrant now id tokenHash requestID reason clientName).id := by
      intro other member same
      have expiredListed := listed.evolve (expireLocked_evolves world.registry now)
      have created : .created other.id other.requestID other.tokenHash ∈ world.log := by
        simpa using expiredListed.created other member
      have wasDrawn := undrawn _ created
      rw [drawn, decide_eq_false_iff_not] at wasDrawn
      exact wasDrawn same
    have creates : Move (world.settle now after []) _ :=
      .create _ (newGrant now id tokenHash requestID reason clientName) (fun event member => by
        simp only [World.settle, append_nil, mem_append, mem_endedBetween] at member
        rcases member with (earlier | ⟨_, rfl, -⟩) | ⟨_, rfl, -⟩
        · exact undrawn event earlier
        · rfl
        · rfl) below rfl rfl rfl
    refine .tail (settle_moves world now evolves) ?_
    simp only [World.settle, append_nil, endedBetween_append isNew] at creates ⊢
    exact creates

theorem claim_moves (world : World Hash) {now later : Nat} {tokenHash : Hash}
    (stepped : world.step (.claim now later tokenHash requestID) = some next) : ReflTransGen Move world next := by
  simp only [World.step] at stepped
  rcases take_cases (world.registry.expireLocked now) later tokenHash requestID with
    ⟨error, outcome⟩ | ⟨grant, member, rfl, approved, ⟨lasting, outcome⟩ | ⟨once, rfl, outcome⟩⟩
  · rw [Registry.claim, outcome] at stepped
    cases stepped
    exact settle_moves world now (.refl _)
  · rw [Registry.claim, outcome] at stepped
    cases stepped
    have claims : Move (expired world now) _ := .claimLasting (expired world now) grant member approved lasting requestID
    refine .tail (.single (expired_move world now)) ?_
    simpa [World.settle, expired, endedBetween_same] using claims
  · rw [Registry.claim, outcome] at stepped
    cases stepped
    have ends : GrantStatus.consumed.final = true := rfl
    have claims : Move (expired world now) _ := .claimOnce (expired world now) grant member approved once _
      (endWhere_evolves _ (fun other => other.id = grant.id) ends later)
      (endWhere_ended _ ends later (fun other same _ => by simpa using same))
    refine .tail (.single (expired_move world now)) ?_
    simpa [World.settle, expired] using claims

theorem step_moves (kept : Kept world) {act : Act Hash} (stepped : world.step act = some next) :
    ReflTransGen Move world next := by
  have bare := kept.holding.approvals.empty
  cases act with
  | create now id tokenHash requestID reason clientName => exact create_moves world kept.listed stepped
  | hold key =>
    cases stepped
    exact .single (.hold world key)
  | abandon holder =>
    simp only [World.step] at stepped
    split_ifs at stepped
    cases stepped
    exact .tail (close_moves world (some holder)) (.drop _ holder (close_holders _ _))
  | approve now id mode keys holder =>
    simp only [World.step] at stepped
    split_ifs at stepped with may lasting
    · cases stepped
      have moves := approve_moves world bare now id may.2 [] may.1 (by simp [lasting])
      rwa [if_pos lasting] at moves
    · cases stepped
      have moves := approve_moves { world with registry := world.registry.close (some holder) } bare now id may.2 keys may.1
        (fun _ => close_holders _ _)
      rw [if_neg lasting] at moves
      exact (close_moves world (some holder)).trans moves
  | deny now id =>
    cases stepped
    have toExpired := expireLocked_evolves world.registry now
    exact settle_moves world now
      (settle_deny_evolves (toExpired.distinct kept.listed.distinct) (bare.evolves toExpired) now id)
  | claim now later tokenHash requestID => exact claim_moves world stepped
  | check now tokenHash requestID =>
    simp only [World.step, Registry.check] at stepped
    cases found : (world.registry.expireLocked now).lookup tokenHash requestID with
    | error error =>
      rw [found] at stepped
      cases stepped
      exact settle_moves world now (.refl _)
    | ok grant =>
      rw [found] at stepped
      cases stepped
      obtain ⟨member, rfl, approved, reaches⟩ := lookup_ok found
      have allows : Move (expired world now) _ := .allow (expired world now) grant member approved requestID reaches
      refine .tail (.single (expired_move world now)) ?_
      simpa [World.settle, expired, endedBetween_same] using allows
  | revoke now id =>
    cases stepped
    exact settle_moves world now (revoke_evolves world.registry now id)
  | revokeToken now tokenHash =>
    cases stepped
    exact settle_moves world now (revokeToken_evolves world.registry now tokenHash)
  | revokeAll now =>
    cases stepped
    exact .tail (.single (.evolve world _ (revokeAll_evolves world.registry now))) (.revokedAll _ (revokeAll_ended _ now))
  | expire now =>
    cases stepped
    exact settle_moves world now (.refl _)
  | openPart i =>
    simp only [World.step] at stepped
    cases found : world.leases[i]? with
    | none => simp [found] at stepped
    | some lease =>
      cases opener : lease.opener with
      | none =>
        simp only [found, opener, Option.some.injEq] at stepped
        exact stepped ▸ .refl
      | some holder =>
        simp only [found, opener] at stepped
        split_ifs at stepped with isOpen <;> obtain rfl := Option.some.inj stepped
        · exact .single (.openPart world i lease found holder opener (Option.isSome_iff_ne_none.mp isOpen))
        · exact .refl
  | release i =>
    cases stepped
    exact .single (.release world i)

end

/-- After all grants were revoked, no grant created earlier lets anything be read or opened. -/
def Renewed (before : List (Event Hash)) : Event Hash → Prop
  | .allowed id _ _ | .claimed _ id _ _ | .opened _ id => ∀ earlier, earlier ++ [.revokedAll] <+: before →
      ∀ requestID tokenHash, .created id requestID tokenHash ∉ earlier
  | _ => True

theorem renewed_of_lawful {log : List (Event Hash)} (always : Always Lawful log) : Always Renewed log := by
  have ended : ∀ before event earlier id requestID tokenHash, before ++ [event] <+: log →
      earlier ++ [.revokedAll] <+: before → .created id requestID tokenHash ∈ earlier → .ended id ∈ before := by
    intro before event earlier id requestID tokenHash part inside created
    have whole : earlier ++ [.revokedAll] <+: log := (inside.trans (prefix_append before [event])).trans part
    have isEnded := always earlier .revokedAll whole id requestID tokenHash created
    exact inside.subset (mem_append_left _ isEnded)
  intro before event part
  have lawful := always before event part
  cases event with
  | allowed id requestID tokenHash =>
    exact fun earlier inside own hash created => lawful.1 (ended before _ earlier id own hash part inside created)
  | claimed lease id requestID tokenHash =>
    exact fun earlier inside own hash created => lawful.1.1 (ended before _ earlier id own hash part inside created)
  | opened lease id =>
    exact fun earlier inside own hash created => lawful.1 (ended before _ earlier id own hash part inside created)
  | created | held | approved | ended | revokedAll => trivial

/-- What the registry keeps to. -/
structure Sound (world : World Hash) : Prop where
  lawful : Always Lawful world.log
  renewed : Always Renewed world.log
  /-- A grant has ended when it is logged so; it holds nothing then. -/
  ended : ∀ grant ∈ world.registry.grants, (.ended grant.id ∈ world.log ↔ grant.live = false) ∧
    (grant.live = false → grant.keys = [] ∧ grant.holder = none)
  /-- The key that an ended grant took over is gone. -/
  closed : ∀ id mode holder, .approved id mode holder ∈ world.log → .ended id ∈ world.log →
    world.registry.holders holder = none
  limit : world.registry.grants.countP (fun grant => grant.status = .pending) ≤ maxPendingRawGrants

theorem Kept.sound (kept : Kept world) : Sound world := by
  obtain ⟨listed, holding, claims⟩ := kept
  refine ⟨claims.always, renewed_of_lawful claims.always, fun grant member => ⟨⟨fun isEnded => ?_, fun dead => ?_⟩, fun dead => ?_⟩,
    fun id mode holder approved isEnded => ?_, listed.limit⟩
  · by_contra live
    exact listed.live grant member (by simpa using live) isEnded
  · refine (listed.lapsed _ _ _ (listed.created grant member)).resolve_left (fun isLive => ?_)
    obtain ⟨other, otherMember, same, live⟩ := hasLive_iff.mp isLive
    rw [listed.distinct.eq otherMember member same, dead] at live
    cases live
  · refine holding.approvals.empty grant member (fun approved => ?_)
    rw [live_of_approved approved] at dead
    cases dead
  · by_contra stillOpen
    rcases holding.isOpen holder stillOpen with isHeld | ⟨grant, member, has⟩
    · exact (holding.approvals.carried _ _ _ approved).2 isHeld
    · have isApproved := holding.approvals.empty.approved member has
      obtain ⟨mode', holder', -, -, logged, takes⟩ := holding.approvals.approved grant member isApproved
      rw [has] at takes
      split_ifs at takes
      cases takes
      obtain ⟨rfl, -⟩ := holding.approvals.unique _ _ _ _ _ _ approved logged (.inr rfl)
      exact listed.live grant member (live_of_approved isApproved) isEnded

variable [DecidableEq Hash]

/-- In every run of the registry, whatever is asked of it and whenever. -/
theorem grants_sound {world : World Hash} (reached : Reaches World.step (fun _ _ => True) start world) : Sound world := by
  have kept : Kept world := reached.invariant Kept Kept.start
    (fun state act next kept _ stepped => kept.moves (step_moves kept stepped))
  exact kept.sound

/-- A grant for one use is asked for, approved and claimed; its token is refused afterwards. A lasting one is approved,
    claimed and opens a part until all grants are revoked. -/
def visit : List (Act Nat) :=
  [.create 0 "a" 1 "request_a" "debug" "agent", .hold [7], .approve 1 "a" .once [(.request, [9])] 0,
    .claim 2 2 1 "request_a", .claim 3 3 1 "request_a", .create 4 "b" 2 "request_b" "debug" "agent", .hold [7],
    .approve 5 "b" .untilLock [] 1, .claim 6 6 2 "request_a", .openPart 1, .revokeAll 7, .openPart 1]

theorem visit_sound : ∃ world, runActs World.step (start : World Nat) visit = some world ∧ Sound world ∧
    world.log = [.created "a" "request_a" 1, .held 0, .approved "a" .once 0, .claimed 0 "a" "request_a" 1, .ended "a",
      .created "b" "request_b" 2, .held 1, .approved "b" .untilLock 1, .claimed 1 "b" "request_a" 2, .opened 1 "b",
      .ended "b", .revokedAll] := by
  have logged : (runActs World.step (start : World Nat) visit).map (·.log) = some [.created "a" "request_a" 1, .held 0,
      .approved "a" .once 0, .claimed 0 "a" "request_a" 1, .ended "a", .created "b" "request_b" 2, .held 1,
      .approved "b" .untilLock 1, .claimed 1 "b" "request_a" 2, .opened 1 "b", .ended "b", .revokedAll] := by
    decide +kernel
  obtain ⟨world, ran, isLog⟩ := Option.map_eq_some_iff.mp logged
  exact ⟨world, ran, grants_sound (Reaches.start.runActs (fun _ _ => trivial) ran), isLog⟩

end AstrLink.RawGrantSafety
