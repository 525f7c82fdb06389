import AstrLink.Billing

/-!
The law of the billing ledger. Every write `Follows` what the entry was: priced entries stay, none goes back
to pending, and a price is chosen once unless revalued. Every stored attempt has its entry (`Recorded`).
-/
namespace AstrLink.BillingLaw
open Billing Tables Runs List
open Function (update)
open Option (map_eq_some_iff map_some some.inj)

variable {Usage : Type}

/-- An entry that is not terminal awaits its value, and has not been revalued. -/
structure Sound (entry : Entry Usage) : Prop where
  pending : entry.terminal = false → entry.reason = "pending"
  live : entry.terminal = false → entry.revalued = false

structure Follows (entry later : Entry Usage) : Prop where
  service : later.serviceID = entry.serviceID
  account : later.accountKey = entry.accountKey
  terminal : entry.terminal = true → later.terminal = true
  revalued : entry.revalued = true → later.revalued = true
  /-- The price is the one that was chosen first. -/
  snapshot : later.revalued = false → later.price = entry.price ∧ later.priceVersion = entry.priceVersion
  priced : entry.reason = "priced" → later.reason = "priced" ∧ later.amountUSD = entry.amountUSD ∧
    later.tier = entry.tier ∧ later.price = entry.price ∧ later.priceVersion = entry.priceVersion ∧
    later.usage = entry.usage

theorem Follows.refl (entry : Entry Usage) : Follows entry entry :=
  ⟨rfl, rfl, id, id, fun _ => ⟨rfl, rfl⟩, fun priced => ⟨priced, rfl, rfl, rfl, rfl, rfl⟩⟩

theorem Follows.trans {first second third : Entry Usage} (earlier : Follows first second) (later : Follows second third) :
    Follows first third := by
  refine ⟨later.service.trans earlier.service, later.account.trans earlier.account,
    fun terminal => later.terminal (earlier.terminal terminal), fun revalued => later.revalued (earlier.revalued revalued),
    fun live => ?_, fun priced => ?_⟩
  · have between : second.revalued = false := by
      cases revalued : second.revalued with
      | true => rw [later.revalued revalued] at live; cases live
      | false => rfl
    obtain ⟨price, version⟩ := later.snapshot live
    obtain ⟨price', version'⟩ := earlier.snapshot between
    exact ⟨price.trans price', version.trans version'⟩
  · obtain ⟨stays, amount, tier, price, version, usage⟩ := earlier.priced priced
    obtain ⟨stays', amount', tier', price', version', usage'⟩ := later.priced stays
    exact ⟨stays', amount'.trans amount, tier'.trans tier, price'.trans price, version'.trans version,
      usage'.trans usage⟩

variable {entry : Entry Usage}

theorem Follows.revalue {later : Entry Usage} (unpriced : entry.reason ≠ "priced")
    (service : later.serviceID = entry.serviceID) (account : later.accountKey = entry.accountKey)
    (terminal : later.terminal = true) (revalued : later.revalued = true) : Follows entry later :=
  ⟨service, account, fun _ => terminal, fun _ => revalued, fun live => by simp [revalued] at live,
    fun priced => absurd priced unpriced⟩

theorem Follows.token (entry : Entry Usage) (token : Option String) :
    Follows entry { entry with localAccessTokenID := token } :=
  ⟨rfl, rfl, id, id, fun _ => ⟨rfl, rfl⟩, fun priced => ⟨priced, rfl, rfl, rfl, rfl, rfl⟩⟩

variable (library : Library Usage)

theorem interrupt_follows (sound : Sound entry) : Follows entry (entry.interrupt library) := by
  cases terminal : entry.terminal with
  | true =>
    rw [Entry.interrupt, if_pos terminal]
    exact .refl entry
  | false =>
    have unpriced : entry.reason ≠ "priced" := by simp [sound.pending terminal]
    rw [Entry.interrupt, if_neg (by simp [terminal])]
    exact ⟨rfl, rfl, fun _ => rfl, id, fun _ => ⟨rfl, rfl⟩, fun priced => absurd priced unpriced⟩

theorem interrupt_terminal (entry : Entry Usage) : (entry.interrupt library).terminal = true := by
  rw [Entry.interrupt]
  split_ifs with terminal
  · exact terminal
  · rfl

theorem value_terminal (record : RequestRecord Usage) (price : Option Price) :
    (record.value library price).terminal = true ↔ record.status ≠ .pending := by
  unfold RequestRecord.value
  split_ifs with isPending unused
  · simp [isPending]
  · simpa using isPending
  · cases price with
    | none => simpa using isPending
    | some price =>
      dsimp only
      split <;> simpa using isPending

theorem value_pending (record : RequestRecord Usage) (price : Option Price)
    (live : (record.value library price).terminal = false) : (record.value library price).reason = "pending" := by
  have isPending : record.status = .pending := by
    by_contra ended
    rw [(value_terminal library record price).mpr ended] at live
    cases live
  unfold RequestRecord.value
  rw [if_pos isPending]

/-- Every entry is still there, and follows what it was. -/
def Keeps (earlier later : Table (String × Nat) (Entry Usage)) : Prop :=
  ∀ key entry, earlier.lookup key = some entry → ∃ next, later.lookup key = some next ∧ Follows entry next

theorem Keeps.refl (ledger : Table (String × Nat) (Entry Usage)) : Keeps ledger ledger :=
  fun _ entry found => ⟨entry, found, .refl entry⟩

theorem Keeps.trans {first second third : Table (String × Nat) (Entry Usage)} (earlier : Keeps first second)
    (later : Keeps second third) : Keeps first third := by
  intro key entry found
  obtain ⟨next, isNext, follows⟩ := earlier key entry found
  obtain ⟨last, isLast, follows'⟩ := later key next isNext
  exact ⟨last, isLast, follows.trans follows'⟩

theorem Keeps.insert {ledger : Table (String × Nat) (Entry Usage)} {key : String × Nat}
    (follows : ∀ existing, ledger.lookup key = some existing → Follows existing entry) :
    Keeps ledger (ledger.insert key entry) := by
  intro other existing found
  rw [lookup_insert_if]
  split_ifs with same
  · subst same
    exact ⟨entry, rfl, follows existing found⟩
  · exact ⟨existing, found, .refl existing⟩

variable {change : String × Nat → Entry Usage → Entry Usage}

theorem Keeps.amend {ledger : Table (String × Nat) (Entry Usage)}
    (follows : ∀ key existing, ledger.lookup key = some existing → Follows existing (change key existing)) :
    Keeps ledger (amend change ledger) := by
  intro key existing found
  exact ⟨change key existing, by rw [lookup_amend, found, map_some], follows key existing found⟩

def Entries (ledger : Table (String × Nat) (Entry Usage)) : Prop := ∀ key entry, ledger.lookup key = some entry → Sound entry

theorem Entries.insert {ledger : Table (String × Nat) (Entry Usage)} (entries : Entries ledger) (key : String × Nat)
    (sound : Sound entry) : Entries (ledger.insert key entry) := by
  intro other existing found
  rw [lookup_insert_if] at found
  split_ifs at found
  · exact some.inj found ▸ sound
  · exact entries other existing found

theorem Entries.amend {ledger : Table (String × Nat) (Entry Usage)} (entries : Entries ledger)
    (sound : ∀ key entry, Sound entry → Sound (change key entry)) : Entries (amend change ledger) := by
  intro key entry found
  rw [lookup_amend] at found
  obtain ⟨old, isOld, rfl⟩ := map_eq_some_iff.mp found
  exact sound key old (entries key old isOld)

/-! ### Recording -/

/-- An attempt that is billed: on a known service, not blocked, and no call of the claude CLI itself. -/
structure Billable (store : Store Usage) (record : RequestRecord Usage) : Prop where
  service : ∃ serviceID, record.serviceID = some serviceID ∧ store.services.lookup serviceID ≠ none
  unblocked : record.status ≠ .blocked
  notOwn : record.selected ≠ some claudeCLI
  attempt : 1 ≤ record.attemptIndex

def Recorded (ledger : Table (String × Nat) (Entry Usage)) (record : RequestRecord Usage) : Prop :=
  ∃ entry, ledger.lookup record.key = some entry ∧
    (record.status ≠ .pending → entry.terminal = true)

variable {record : RequestRecord Usage}

theorem Recorded.keeps {earlier later : Table (String × Nat) (Entry Usage)} (recorded : Recorded earlier record)
    (keeps : Keeps earlier later) : Recorded later record := by
  obtain ⟨entry, found, terminal⟩ := recorded
  obtain ⟨next, isNext, follows⟩ := keeps _ entry found
  exact ⟨next, isNext, fun ended => follows.terminal (terminal ended)⟩

def Chosen (store : Store Usage) (record : RequestRecord Usage) (key : String × Nat) (entry : Entry Usage) : Prop :=
  key = record.key ∧ ∃ serviceID service, record.serviceID = some serviceID ∧
    store.services.lookup serviceID = some service ∧
    (entry.priceVersion, entry.price) = store.choosePrice serviceID service record.model record.startedAt

structure Billed (store : Store Usage) (record : RequestRecord Usage) (revalue : Bool)
    (ledger : Table (String × Nat) (Entry Usage)) : Prop where
  keeps : Keeps store.ledger ledger
  entries : Entries ledger
  recorded : Billable store record → Recorded ledger record
  /-- A new entry has the price chosen for the record, unless it is revalued. -/
  chosen : ∀ key entry, store.ledger.lookup key = none → ledger.lookup key = some entry →
    entry.revalued = revalue ∧ (revalue = false → Chosen store record key entry)

variable {store : Store Usage}

theorem Billed.same {revalue : Bool} (entries : Entries store.ledger)
    (recorded : Billable store record → Recorded store.ledger record) : Billed store record revalue store.ledger where
  keeps := .refl _
  entries := entries
  recorded := recorded
  chosen := fun key entry absent found => by
    rw [absent] at found
    cases found

theorem bill_terminal (store : Store Usage) (library : Library Usage) (now : Nat) (record : RequestRecord Usage)
    (revalue : Bool) (serviceID : String) (service : Service) (existing : Option (Entry Usage)) :
    (store.bill library now record revalue serviceID service existing).terminal = true ↔ record.status ≠ .pending := by
  unfold Store.bill
  cases existing <;> exact value_terminal library record _

theorem bill_revalued (store : Store Usage) (library : Library Usage) (now : Nat) (record : RequestRecord Usage)
    (revalue : Bool) (serviceID : String) (service : Service) (existing : Option (Entry Usage)) :
    (store.bill library now record revalue serviceID service existing).revalued = revalue := by
  unfold Store.bill
  cases existing <;> rfl

theorem bill_sound (store : Store Usage) (library : Library Usage) (now : Nat) {revalue : Bool}
    (ended : revalue = true → record.status ≠ .pending) (serviceID : String) (service : Service)
    (existing : Option (Entry Usage)) : Sound (store.bill library now record revalue serviceID service existing) := by
  constructor
  · intro live
    unfold Store.bill at live ⊢
    cases existing <;> exact value_pending library record _ live
  · intro live
    rw [bill_revalued]
    cases revalue with
    | true =>
      rw [(bill_terminal ..).mpr (ended rfl)] at live
      cases live
    | false => rfl

theorem bill_follows (store : Store Usage) (library : Library Usage) (now : Nat) {revalue : Bool}
    (ended : revalue = true → record.status ≠ .pending) (serviceID : String) (service : Service)
    {existing : Entry Usage} (sound : Sound existing)
    (unsettled : (existing.terminal && !revalue || revalue && existing.reason = "priced") = false) :
    Follows existing (store.bill library now record revalue serviceID service (some existing)) := by
  cases revalue with
  | true =>
    have unpriced : existing.reason ≠ "priced" := by simpa using unsettled
    exact .revalue unpriced rfl rfl ((bill_terminal ..).mpr (ended rfl)) rfl
  | false =>
    have live : existing.terminal = false := by simpa using unsettled
    refine ⟨rfl, rfl, fun terminal => ?_, fun revalued => ?_, fun _ => ⟨rfl, rfl⟩, fun priced => ?_⟩
    · rw [live] at terminal
      cases terminal
    · rw [sound.live live] at revalued
      cases revalued
    · rw [sound.pending live] at priced
      exact absurd priced (by decide)

theorem backfillToken_keeps (store : Store Usage) (key : String × Nat) (token : Option String) :
    ∃ ledger, store.backfillToken key token = { store with ledger } ∧ Keeps store.ledger ledger ∧
      (Entries store.ledger → Entries ledger) ∧ ∀ key, ledger.lookup key = none ↔ store.ledger.lookup key = none := by
  have stays : ∃ ledger, store = { store with ledger } ∧ Keeps store.ledger ledger ∧
      (Entries store.ledger → Entries ledger) ∧ ∀ key, ledger.lookup key = none ↔ store.ledger.lookup key = none :=
    ⟨store.ledger, rfl, .refl _, id, fun _ => Iff.rfl⟩
  unfold Store.backfillToken
  split
  next token entry found =>
    refine ⟨_, rfl, .insert (fun existing isExisting => ?_), fun entries => entries.insert _ ?_, fun other => ?_⟩
    · obtain rfl := some.inj (found.symm.trans isExisting)
      exact .token entry _
    · exact ⟨(entries _ entry found).pending, (entries _ entry found).live⟩
    · rw [lookup_insert_if]
      split_ifs with same
      · subst same
        simp [found]
      · rfl
  next => exact stays

variable {next : Store Usage} {library : Library Usage}

variable {now : Nat}

theorem recordEntry_spec {revalue : Bool} {serviceID : String} (isService : record.serviceID = some serviceID)
    (entries : Entries store.ledger) (ended : revalue = true → record.status ≠ .pending)
    (done : store.recordEntry library now record revalue serviceID = some next) :
    ∃ ledger, next = { store with ledger } ∧ Billed store record revalue ledger := by
  unfold Store.recordEntry at done
  split at done
  next absent =>
    cases done
    refine ⟨store.ledger, rfl, .same entries (fun billable => ?_)⟩
    obtain ⟨_, is, present⟩ := billable.service
    obtain rfl := some.inj (isService.symm.trans is)
    exact absurd absent present
  next service found =>
    dsimp only at done
    split_ifs at done with settled
    · cases done
      refine ⟨store.ledger, rfl, .same entries (fun _ => ?_)⟩
      obtain ⟨entry, isEntry, isSettled⟩ := (Option.any_eq_true _ _).mp settled
      refine ⟨entry, isEntry, fun hasEnded => ?_⟩
      by_contra live
      have isLive : entry.terminal = false := by simpa using live
      have isPending := (entries _ entry isEntry).pending isLive
      simp [isLive, isPending] at isSettled
    · cases done
      have terminal := bill_terminal store library now record revalue serviceID service (store.ledger.lookup record.key)
      refine ⟨_, rfl, .insert (fun existing isExisting => ?_), entries.insert _ (bill_sound store library now ended ..),
        fun _ => ⟨_, AList.lookup_insert _, fun hasEnded => terminal.mpr hasEnded⟩, fun key entry absent isEntry => ?_⟩
      · rw [isExisting] at settled ⊢
        exact bill_follows store library now ended serviceID service (entries _ existing isExisting) (by simpa using settled)
      · rw [lookup_insert_if] at isEntry
        split_ifs at isEntry with same
        · subst same
          cases isEntry
          refine ⟨bill_revalued .., fun live => ⟨rfl, serviceID, service, isService, found, ?_⟩⟩
          simp [Store.bill, absent, live]
        · rw [absent] at isEntry
          cases isEntry

theorem recordBilling_spec {revalue : Bool} (entries : Entries store.ledger)
    (ended : revalue = true → record.status ≠ .pending)
    (done : store.recordBilling library now record revalue = some next) :
    ∃ ledger, next = { store with ledger } ∧ Billed store record revalue ledger := by
  have unchanged : (¬ Billable store record) → some store = some next →
      ∃ ledger, next = { store with ledger } ∧ Billed store record revalue ledger := by
    intro unbillable same
    cases same
    exact ⟨store.ledger, rfl, .same entries (fun billable => absurd billable unbillable)⟩
  unfold Store.recordBilling at done
  cases isService : record.serviceID with
  | none =>
    rw [isService] at done
    refine unchanged (fun billable => ?_) done
    obtain ⟨_, is, -⟩ := billable.service
    rw [isService] at is
    cases is
  | some serviceID =>
    rw [isService] at done
    dsimp only at done
    by_cases isBlocked : record.status = .blocked
    · rw [if_pos isBlocked] at done
      exact unchanged (fun billable => billable.unblocked isBlocked) done
    by_cases isOwn : record.selected = some claudeCLI
    · rw [if_neg isBlocked, if_pos isOwn] at done
      exact unchanged (fun billable => billable.notOwn isOwn) done
    rw [if_neg isBlocked, if_neg isOwn] at done
    cases revalue with
    | true =>
      obtain ⟨ledger, tokens, keeps, sound, same⟩ := backfillToken_keeps store record.key record.localAccessTokenID
      simp only [Bool.not_true, Bool.and_false, Bool.false_eq_true, if_false, if_true, tokens] at done
      obtain ⟨ledger', rfl, billed⟩ := recordEntry_spec isService (sound entries) ended done
      exact ⟨ledger', rfl, keeps.trans billed.keeps, billed.entries,
        fun billable => billed.recorded ⟨billable.service, billable.unblocked, billable.notOwn, billable.attempt⟩,
        fun key entry absent => billed.chosen key entry ((same key).mpr absent)⟩
    | false =>
      simp only [Bool.not_false, Bool.and_true, decide_eq_true_eq, Bool.false_eq_true, if_false] at done
      split_ifs at done with early
      · refine unchanged (fun billable => ?_) done
        have attempt := billable.attempt
        omega
      · exact recordEntry_spec isService entries ended done

/-! ### Steps of the store -/

/-- Every stored attempt that is billed has its entry. -/
structure Kept (store : Store Usage) : Prop where
  entries : Entries store.ledger
  recorded : ∀ id record, store.records.lookup id = some record → Billable store record → Recorded store.ledger record

/-- Entries follow what they were, ended records stay ended, and services stay. -/
structure Advances (earlier later : Store Usage) : Prop where
  ledger : Keeps earlier.ledger later.ledger
  records : ∀ id record, earlier.records.lookup id = some record → record.status ≠ .pending →
    ∃ next, later.records.lookup id = some next ∧ next.status ≠ .pending
  services : ∀ id, later.services.lookup id = none ↔ earlier.services.lookup id = none

theorem Advances.refl (store : Store Usage) : Advances store store :=
  ⟨.refl _, fun _ record found ended => ⟨record, found, ended⟩, fun _ => Iff.rfl⟩

theorem Advances.trans {first second third : Store Usage} (earlier : Advances first second)
    (later : Advances second third) : Advances first third := by
  refine ⟨earlier.ledger.trans later.ledger, fun id record found ended => ?_,
    fun id => (later.services id).trans (earlier.services id)⟩
  obtain ⟨next, isNext, hasEnded⟩ := earlier.records id record found ended
  exact later.records id next isNext hasEnded

theorem Billable.back {earlier later : Store Usage} (billable : Billable later record)
    (services : ∀ id, later.services.lookup id = none ↔ earlier.services.lookup id = none) :
    Billable earlier record := by
  obtain ⟨serviceID, is, present⟩ := billable.service
  exact ⟨⟨serviceID, is, fun absent => present ((services serviceID).mpr absent)⟩, billable.unblocked, billable.notOwn,
    billable.attempt⟩

theorem Kept.ledger (kept : Kept store) {ledger : Table (String × Nat) (Entry Usage)}
    (keeps : Keeps store.ledger ledger) (entries : Entries ledger) :
    Kept { store with ledger } ∧ Advances store { store with ledger } := by
  refine ⟨⟨entries, fun id record found billable => ?_⟩, keeps, fun _ record found ended => ⟨record, found, ended⟩,
    fun _ => Iff.rfl⟩
  exact (kept.recorded id record found (billable.back (fun _ => Iff.rfl))).keeps keeps

theorem Kept.prices (kept : Kept store) {services : Table String Service}
    (same : ∀ id, services.lookup id = none ↔ store.services.lookup id = none) (configs : Table String Config)
    (versions : Table String Nat) (rates : List Rate) :
    Kept { store with services, configs, versions, rates } ∧
      Advances store { store with services, configs, versions, rates } :=
  ⟨⟨kept.entries, fun id record found billable => kept.recorded id record found (billable.back same)⟩, .refl _,
    fun _ record found ended => ⟨record, found, ended⟩, same⟩

theorem putRecord_spec (kept : Kept store)
    (applied : ∀ stored, store.records.lookup record.id = some stored → stored.status ≠ .pending → record.status ≠ .pending)
    (done : (store.putRecord record).recordBilling library now record false = some next) :
    Kept next ∧ Advances store next ∧ ∀ key entry, store.ledger.lookup key = none → next.ledger.lookup key = some entry →
      Chosen store record key entry := by
  have entries : Entries (store.putRecord record).ledger := kept.entries
  obtain ⟨ledger, rfl, billed⟩ := recordBilling_spec entries (fun wrong => by cases wrong) done
  refine ⟨⟨billed.entries, fun id stored found billable => ?_⟩, ⟨billed.keeps, fun id stored found ended => ?_,
    fun _ => Iff.rfl⟩, fun key entry absent found => (billed.chosen key entry absent found).2 rfl⟩
  · rw [Store.putRecord, lookup_insert_if] at found
    split_ifs at found with same
    · cases found
      exact billed.recorded (billable.back (fun _ => Iff.rfl))
    · exact (kept.recorded id stored found (billable.back (fun _ => Iff.rfl))).keeps billed.keeps
  · rw [Store.putRecord, lookup_insert_if]
    split_ifs with same
    · subst same
      exact ⟨record, rfl, applied stored found ended⟩
    · exact ⟨stored, found, ended⟩

theorem UpsertRequestRecord_spec (kept : Kept store) (done : store.UpsertRequestRecord library now record = some next) :
    Kept next ∧ Advances store next ∧ ∀ key entry, store.ledger.lookup key = none → next.ledger.lookup key = some entry →
      Chosen store record key entry := by
  unfold Store.UpsertRequestRecord at done
  dsimp only at done
  split_ifs at done with applied
  · refine putRecord_spec kept (fun stored found ended => ?_) done
    rw [found] at applied
    simpa [ended] using applied
  · cases done
    refine ⟨kept, .refl store, fun key entry absent found => ?_⟩
    rw [absent] at found
    cases found

theorem InsertRequestRecord_spec (kept : Kept store) (done : store.InsertRequestRecord library now record = some next) :
    Kept next ∧ Advances store next ∧ ∀ key entry, store.ledger.lookup key = none → next.ledger.lookup key = some entry →
      Chosen store record key entry := by
  unfold Store.InsertRequestRecord at done
  split_ifs at done with present
  refine putRecord_spec kept (fun stored found _ => ?_) done
  simp [found] at present

theorem interrupt_sound (library : Library Usage) : Sound (entry.interrupt library) := by
  constructor <;> intro live <;> rw [interrupt_terminal] at live <;> cases live

theorem interrupt_record (library : Library Usage) (record : RequestRecord Usage) :
    (record.interrupt library).key = record.key ∧ (record.interrupt library).serviceID = record.serviceID ∧
      (record.interrupt library).selected = record.selected ∧
      (record.interrupt library).attemptIndex = record.attemptIndex ∧ (record.interrupt library).status ≠ .pending ∧
      (record.status = .blocked → (record.interrupt library).status = .blocked) := by
  unfold RequestRecord.interrupt
  split_ifs with isPending
  · exact ⟨rfl, rfl, rfl, rfl, by simp, fun isBlocked => by simp [isPending] at isBlocked⟩
  · exact ⟨rfl, rfl, rfl, rfl, isPending, id⟩

theorem RecoverPendingRequestRecords_spec (kept : Kept store) (library : Library Usage) :
    Kept (store.RecoverPendingRequestRecords library) ∧
      Advances store (store.RecoverPendingRequestRecords library) := by
  have keeps : Keeps store.ledger (store.RecoverPendingRequestRecords library).ledger :=
    .amend (fun key existing found => interrupt_follows library (kept.entries key existing found))
  refine ⟨⟨kept.entries.amend (fun _ _ _ => interrupt_sound library), fun id record found billable => ?_⟩,
    keeps, fun id record found ended => ?_, fun _ => Iff.rfl⟩
  · rw [Store.RecoverPendingRequestRecords, lookup_amend] at found
    obtain ⟨old, isOld, rfl⟩ := map_eq_some_iff.mp found
    obtain ⟨key, service, selected, attempt, -, blocked⟩ := interrupt_record library old
    have wasBillable : Billable store old := by
      obtain ⟨serviceID, is, present⟩ := billable.service
      exact ⟨⟨serviceID, service.symm.trans is, present⟩, fun isBlocked => billable.unblocked (blocked isBlocked),
        selected ▸ billable.notOwn, attempt ▸ billable.attempt⟩
    obtain ⟨entry, isEntry, -⟩ := kept.recorded id old isOld wasBillable
    refine ⟨entry.interrupt library, ?_, fun _ => interrupt_terminal library entry⟩
    rw [key, Store.RecoverPendingRequestRecords, lookup_amend, isEntry, map_some]
  · refine ⟨record.interrupt library, ?_, (interrupt_record library record).2.2.2.2.1⟩
    rw [Store.RecoverPendingRequestRecords, lookup_amend, found, map_some]

structure Revalues (store next : Store Usage) : Prop where
  kept : Kept next
  advances : Advances store next
  new : ∀ key entry, store.ledger.lookup key = none → next.ledger.lookup key = some entry → entry.revalued = true

theorem Revalues.refl (kept : Kept store) : Revalues store store where
  kept := kept
  advances := .refl store
  new := fun key entry absent found => by
    rw [absent] at found
    cases found

theorem settleUnused_spec (kept : Kept store) : Revalues store store.settleUnused := by
  have keeps : Keeps store.ledger store.settleUnused.ledger := by
    refine .amend (fun key existing found => ?_)
    split_ifs with settles
    · simp only [Bool.and_eq_true, decide_eq_true_eq] at settles
      exact .revalue settles.1.1.2 rfl rfl settles.1.1.1 rfl
    · exact .refl existing
  have entries : Entries store.settleUnused.ledger := by
    refine kept.entries.amend (fun key entry sound => ?_)
    split_ifs with settles
    · simp only [Bool.and_eq_true] at settles
      constructor <;> intro live <;> simp [settles.1.1.1] at live
    · exact sound
  obtain ⟨keptNext, advances⟩ := kept.ledger keeps entries
  refine ⟨keptNext, advances, fun key entry absent found => ?_⟩
  rw [Store.settleUnused, lookup_amend, absent] at found
  cases found

theorem revalue_spec (kept : Kept store) (ended : record.status ≠ .pending)
    (done : store.recordBilling library now record true = some next) : Revalues store next := by
  obtain ⟨ledger, rfl, billed⟩ := recordBilling_spec kept.entries (fun _ => ended) done
  obtain ⟨keptNext, advances⟩ := kept.ledger billed.keeps billed.entries
  exact ⟨keptNext, advances, fun key entry absent found => (billed.chosen key entry absent found).1⟩

theorem putEntry_spec (kept : Kept store) {key : String × Nat} {existing : Entry Usage}
    (found : store.ledger.lookup key = some existing) (follows : Follows existing entry) (sound : Sound entry) :
    Revalues store (store.putEntry key entry) := by
  have keeps : Keeps store.ledger (store.ledger.insert key entry) := by
    refine .insert (fun other isOther => ?_)
    obtain rfl := some.inj (found.symm.trans isOther)
    exact follows
  obtain ⟨keptNext, advances⟩ := kept.ledger keeps (kept.entries.insert key sound)
  refine ⟨keptNext, advances, fun other isNew absent isFound => ?_⟩
  rw [Store.putEntry, lookup_insert_if] at isFound
  split_ifs at isFound with same
  · subst same
    rw [found] at absent
    cases absent
  · rw [absent] at isFound
    cases isFound

/-- A task only has entries that are not priced, and records that have ended. -/
def Ready : Revaluation Usage → Prop
  | .pricing _ _ page => ∀ candidate ∈ page, candidate.reason ≠ "priced"
  | .listed _ records | .backfilling records => ∀ record ∈ records, record.status ≠ .pending
  | _ => True

structure Safe (world : World Usage) : Prop where
  store : Kept world.store
  tasks : ∀ t task, world.tasks t = some task → Ready task

theorem Safe.start (services : Table String Service) : Safe (start services : World Usage) where
  store := ⟨by simp [Billing.start, Entries], by simp [Billing.start]⟩
  tasks := by simp [Billing.start]

variable {world : World Usage}

theorem Safe.set (safe : Safe world) (kept : Kept store) (t : Nat) {task : Option (Revaluation Usage)}
    (ready : ∀ next, task = some next → Ready next) :
    Safe (world.set store t task) where
  store := kept
  tasks := fun other next isNext => by
    by_cases same : other = t
    · subst same
      exact ready next (by simpa [World.set] using isNext)
    · exact safe.tasks other next (by simpa [World.set, same] using isNext)

theorem unpricedPage_ready (store : Store Usage) (version : String) (last : String × Nat) :
    ∀ candidate ∈ store.unpricedPage version last, candidate.reason ≠ "priced" := by
  intro candidate listed
  simp only [Store.unpricedPage] at listed
  obtain ⟨row, member, rfl⟩ := mem_map.mp listed
  have found := (perm_insertionSort _ _).subset (mem_of_mem_take member)
  simp only [mem_filter, Bool.and_eq_true, Bool.or_eq_true, decide_eq_true_eq] at found
  intro (priced : row.2.reason = "priced")
  rcases found.2.1.2 with ⟨missing, -⟩ | partly
  · rw [priced] at missing
    exact absurd missing (by decide)
  · rw [priced] at partly
    exact absurd partly (by decide)

theorem backfillRecords_ready (store : Store Usage) (serviceID : String) :
    ∀ record ∈ store.backfillRecords serviceID, record.status ≠ .pending := by
  intro record listed
  simp only [Store.backfillRecords] at listed
  obtain ⟨stored, member, rfl⟩ := mem_map.mp listed
  simp only [mem_filter, Bool.and_eq_true, decide_eq_true_eq] at member
  exact member.2.1.1.2

theorem backfillEntries_ready (store : Store Usage) (serviceID : String) :
    ∀ record ∈ store.backfillEntries serviceID, record.status ≠ .pending := by
  intro record listed
  obtain ⟨row, -, rfl⟩ := mem_map.mp listed
  simp [ledgerRecord]

def Act.stores (act : Act Usage) (record : RequestRecord Usage) : Prop :=
  ∃ now, act = .upsert record now ∨ act = .insert record now

/-- A new entry is revalued, or has the price that was chosen for the record stored with it. -/
def New (act : Act Usage) (store next : Store Usage) : Prop :=
  ∀ key entry, store.ledger.lookup key = none → next.ledger.lookup key = some entry →
    entry.revalued = true ∨ ∃ record, Act.stores act record ∧ Chosen store record key entry

theorem New.same (act : Act Usage) (same : next.ledger = store.ledger) : New act store next := by
  intro key entry absent found
  rw [same, absent] at found
  cases found

variable [DecidableEq Usage]

theorem priceUnpriced_spec {candidate : Candidate Usage} (kept : Kept store) (unpriced : candidate.reason ≠ "priced")
    (done : store.priceUnpriced library now candidate = some next) :
    Revalues store next := by
  unfold Store.priceUnpriced at done
  dsimp only at done
  split at done
  next => exact revalue_spec kept (by simp [ledgerRecord]) done
  next =>
    cases done
    exact .refl kept
  next price entry _ found =>
    have writes : ∀ {entry' : Entry Usage}, (entry.terminal && entry.reason = candidate.reason) = true →
        entry'.serviceID = entry.serviceID → entry'.accountKey = entry.accountKey → entry'.terminal = entry.terminal →
        (entry'.revalued = true ∨ entry'.revalued = entry.revalued ∧ entry'.price = entry.price ∧
          entry'.priceVersion = entry.priceVersion) → Revalues store (store.putEntry candidate.key entry') := by
      intro entry' same service account terminal revalued
      simp only [Bool.and_eq_true, decide_eq_true_eq] at same
      have isTerminal : entry'.terminal = true := terminal.trans same.1
      have notPriced : entry.reason ≠ "priced" := same.2 ▸ unpriced
      refine putEntry_spec kept found ?_ ⟨fun live => by simp [isTerminal] at live, fun live => by simp [isTerminal] at live⟩
      rcases revalued with isRevalued | ⟨sameRevalued, samePrice, sameVersion⟩
      · exact .revalue notPriced service account isTerminal isRevalued
      · exact ⟨service, account, fun _ => isTerminal, fun was => sameRevalued.trans was, fun _ => ⟨samePrice, sameVersion⟩,
          fun priced => absurd priced notPriced⟩
    split at done
    next reason _ =>
      split_ifs at done with same
      · cases done
        exact writes same rfl rfl rfl (.inr ⟨rfl, rfl, rfl⟩)
      · cases done
        exact .refl kept
    next value _ =>
      split_ifs at done with same
      · cases done
        simp only [Bool.and_eq_true] at same
        exact writes (by simpa using same.1.1) rfl rfl rfl (.inl rfl)
      · cases done
        exact .refl kept

theorem run_spec (safe : Safe world) (library : Library Usage) (t now : Nat) {task : Revaluation Usage}
    (isTask : world.tasks t = some task) :
    Safe (world.run library t now task) ∧ Revalues world.store (world.run library t now task).store := by
  have ready := safe.tasks t task isTask
  have goesOn : ∀ {store : Store Usage} {next : Option (Revaluation Usage)}, Revalues world.store store →
      (∀ task, next = some task → Ready task) →
      Safe (world.set store t next) ∧ Revalues world.store (world.set store t next).store :=
    fun revalues isReady => ⟨safe.set revalues.kept t isReady, revalues⟩
  have stays : ∀ {next : Option (Revaluation Usage)}, (∀ task, next = some task → Ready task) →
      Safe (world.set world.store t next) ∧ Revalues world.store (world.set world.store t next).store :=
    fun isReady => goesOn (.refl safe.store) isReady
  cases task with
  | settling =>
    refine goesOn (settleUnused_spec safe.store) (fun task isNext => ?_)
    cases isNext
    trivial
  | choosing =>
    refine stays (fun task isNext => ?_)
    split_ifs at isNext
    cases isNext
    trivial
  | paging version last =>
    simp only [World.run]
    split
    · exact stays (fun task isNext => by cases isNext)
    · refine stays (fun task isNext => ?_)
      cases isNext
      exact unpricedPage_ready world.store version last
  | pricing version last page =>
    cases page with
    | nil =>
      refine stays (fun task isNext => ?_)
      cases isNext
      trivial
    | cons candidate page =>
      simp only [World.run]
      split
      next store done =>
        refine goesOn (priceUnpriced_spec safe.store (ready candidate (by simp)) done) (fun task isNext => ?_)
        cases isNext
        exact fun other listed => ready other (mem_cons_of_mem _ listed)
      next => exact stays (fun task isNext => by cases isNext)
  | listing serviceID =>
    refine stays (fun task isNext => ?_)
    cases isNext
    exact backfillRecords_ready world.store serviceID
  | listed serviceID records =>
    refine stays (fun task isNext => ?_)
    cases isNext
    intro record listed
    rcases mem_append.mp listed with isRecord | isEntry
    · exact ready record isRecord
    · exact backfillEntries_ready world.store serviceID record isEntry
  | backfilling records =>
    cases records with
    | nil => exact stays (fun task isNext => by cases isNext)
    | cons record records =>
      simp only [World.run]
      split
      next store done =>
        refine goesOn (revalue_spec safe.store (ready record (by simp)) done) (fun task isNext => ?_)
        cases isNext
        exact fun other listed => ready other (mem_cons_of_mem _ listed)
      next => exact stays (fun task isNext => by cases isNext)

theorem step_spec {next : World Usage} (safe : Safe world) {act : Act Usage}
    (stepped : world.step library act = some next) :
    Safe next ∧ Advances world.store next.store ∧ New act world.store next.store := by
  have commits : ∀ {result : Option (Store Usage)}, (∀ store, result = some store → Kept store ∧
      Advances world.store store ∧ New act world.store store) → Safe (world.commit result) ∧
      Advances world.store (world.commit result).store ∧ New act world.store (world.commit result).store := by
    intro result done
    cases result with
    | none => exact ⟨safe, .refl _, .same act rfl⟩
    | some store =>
      obtain ⟨kept, advances, new⟩ := done store rfl
      exact ⟨⟨kept, safe.tasks⟩, advances, new⟩
  have stays : ∀ t (task : Option (Revaluation Usage)), (∀ next, task = some next → Ready next) →
      Safe (world.set world.store t task) ∧ Advances world.store (world.set world.store t task).store ∧
      New act world.store (world.set world.store t task).store :=
    fun t task ready => ⟨safe.set safe.store t ready, .refl _, .same act rfl⟩
  cases act with
  | upsert record now =>
    cases stepped
    refine commits (fun store done => ?_)
    obtain ⟨kept, advances, chosen⟩ := UpsertRequestRecord_spec safe.store done
    exact ⟨kept, advances, fun key entry absent found => .inr ⟨record, ⟨now, .inl rfl⟩, chosen key entry absent found⟩⟩
  | insert record now =>
    cases stepped
    refine commits (fun store done => ?_)
    obtain ⟨kept, advances, chosen⟩ := InsertRequestRecord_spec safe.store done
    exact ⟨kept, advances, fun key entry absent found => .inr ⟨record, ⟨now, .inr rfl⟩, chosen key entry absent found⟩⟩
  | recover =>
    cases stepped
    obtain ⟨kept, advances⟩ := RecoverPendingRequestRecords_spec safe.store library
    refine ⟨⟨kept, safe.tasks⟩, advances, fun key entry absent found => ?_⟩
    rw [Store.RecoverPendingRequestRecords, lookup_amend, absent] at found
    cases found
  | priceUnpriced t =>
    simp only [World.step] at stepped
    split_ifs at stepped
    cases stepped
    exact stays t _ (fun next isNext => some.inj isNext ▸ trivial)
  | backfillPricing t serviceID =>
    simp only [World.step] at stepped
    split_ifs at stepped
    cases stepped
    exact stays t _ (fun next isNext => some.inj isNext ▸ trivial)
  | run t now =>
    obtain ⟨task, isTask, rfl⟩ := map_eq_some_iff.mp stepped
    obtain ⟨safeNext, revalues⟩ := run_spec safe library t now isTask
    exact ⟨safeNext, revalues.advances, fun key entry absent found => .inl (revalues.new key entry absent found)⟩
  | stop t =>
    cases stepped
    exact stays t none (fun next isNext => by cases isNext)
  | savePricingCatalog version activatedAt prices =>
    cases stepped
    obtain ⟨kept, advances⟩ := safe.store.prices (fun _ => Iff.rfl) world.store.configs _ _
    exact ⟨⟨kept, safe.tasks⟩, advances, .same _ rfl⟩
  | savePricingConfig serviceID config =>
    simp only [World.step] at stepped
    split_ifs at stepped
    cases stepped
    obtain ⟨kept, advances⟩ := safe.store.prices (fun _ => Iff.rfl) _ world.store.versions world.store.rates
    exact ⟨⟨kept, safe.tasks⟩, advances, .same _ rfl⟩
  | editService serviceID service =>
    simp only [World.step] at stepped
    split_ifs at stepped with present
    cases stepped
    have same : ∀ id, (world.store.services.insert serviceID service).lookup id = none ↔
        world.store.services.lookup id = none := by
      intro id
      rw [lookup_insert_if]
      split_ifs with isThis
      · subst isThis
        simpa [Option.isSome_iff_ne_none] using present
      · rfl
    obtain ⟨kept, advances⟩ := safe.store.prices same world.store.configs world.store.versions world.store.rates
    exact ⟨⟨kept, safe.tasks⟩, advances, .same _ rfl⟩

/-- At any two moments of a run, the later ledger follows the earlier one: priced entries keep their amount, tier, price
    and usage, none goes back to pending or to another service or account, and one that is not revalued keeps its price;
    no stored record that has ended is open again. An entry that comes into being has the price chosen for its record,
    and every stored attempt that is billed has an entry, which is terminal if the record is. -/
theorem ledger_law (library : Library Usage) (services : Table String Service) {earlier later : World Usage}
    (reached : Reaches (World.step library) (fun _ _ => True) (start services) earlier)
    (continued : Reaches (World.step library) (fun _ _ => True) earlier later) :
    Advances earlier.store later.store ∧
    (∀ act next, World.step library later act = some next → New act later.store next.store) ∧
    ∀ id record, later.store.records.lookup id = some record → Billable later.store record →
      Recorded later.store.ledger record := by
  have safe : Safe earlier := reached.invariant Safe (.start services) (fun _ _ _ safe _ stepped => (step_spec safe stepped).1)
  have both : Safe later ∧ Advances earlier.store later.store :=
    continued.invariant (fun world => Safe world ∧ Advances earlier.store world.store) ⟨safe, .refl _⟩
      (fun _ _ _ holds _ stepped => by
        obtain ⟨safeNext, advances, -⟩ := step_spec holds.1 stepped
        exact ⟨safeNext, holds.2.trans advances⟩)
  exact ⟨both.2, fun act next stepped => (step_spec both.1 stepped).2.2, both.1.store.recorded⟩

def byToken : Library Nat where
  evaluate := fun expression usage _ =>
    match usage with
    | some tokens => .ok { amountUSD := expression, tier := if tokens < 1000 then "base" else "long" }
    | none => .error "missing_usage"
  markIncomplete := id
  sha256 := id

def price (model expression : String) : Price := { provider := "anthropic", model, name := model, expression }

def call (id model : String) (status : RequestStatus) (usage : Option Nat) : RequestRecord Nat :=
  { id, parentRequestID := none, attemptIndex := 1, startedAt := 2, status, requestedModel := some model
    serviceID := some "service", localAccessTokenID := none, usage, recovery := none, selected := none }

/-- One call ends with a price, one without, and one is left open. -/
def calls : List (Act Nat) :=
  [.savePricingCatalog "v1" 1 [price "known" "0.5"], .upsert (call "first" "known" .pending none) 2,
    .upsert (call "first" "known" .succeeded (some 7)) 3, .upsert (call "second" "unknown" .succeeded (some 8)) 3,
    .upsert (call "third" "known" .pending none) 3]

/-- A retry, a late pending snapshot, a new start, and a catalog with the missing price. -/
def afterwards : List (Act Nat) :=
  [.insert { call "child" "known" .failed none with parentRequestID := some "third" } 4,
    .upsert { call "third" "known" .pending none with attemptIndex := 2 } 4, .upsert (call "first" "known" .pending none) 5,
    .recover, .savePricingCatalog "v2" 6 [price "known" "0.9", price "unknown" "0.7"], .priceUnpriced 0, .run 0 7,
    .run 0 7, .run 0 7, .run 0 7]

/-- The reason, the amount and the price version of an entry. -/
def shown (world : World Nat) (key : String × Nat) : Option (String × String × String) :=
  (world.store.ledger.lookup key).map fun entry => (entry.reason, entry.amountUSD, entry.priceVersion)

def services : Table String Service := (∅ : Table String Service).insert "service" { kind := "anthropic", subscription := none }

theorem calls_law : ∃ earlier later, Advances earlier.store later.store ∧
    (∀ act next, World.step byToken later act = some next → New act later.store next.store) ∧
    (∀ id record, later.store.records.lookup id = some record → Billable later.store record →
      Recorded later.store.ledger record) ∧
    [("first", 1), ("second", 1), ("third", 1)].map (shown earlier) =
      [some ("priced", "0.5", "v1"), some ("missing_price", "0.000000000", "v1"), some ("pending", "0.000000000", "v1")] ∧
    [("first", 1), ("second", 1), ("third", 1), ("third", 2)].map (shown later) =
      [some ("priced", "0.5", "v1"), some ("priced", "0.7", "v2"), some ("priced", "0.000000000", "v1"),
        some ("priced", "0.000000000", "v1")] := by
  have first : (runActs (World.step byToken) (start services) calls).map
      (fun world => [("first", 1), ("second", 1), ("third", 1)].map (shown world)) =
      some [some ("priced", "0.5", "v1"), some ("missing_price", "0.000000000", "v1"),
        some ("pending", "0.000000000", "v1")] := by decide +kernel
  obtain ⟨earlier, ran, shownEarlier⟩ := map_eq_some_iff.mp first
  have second : ((runActs (World.step byToken) (start services) calls).bind
      (runActs (World.step byToken) · afterwards)).map
      (fun world => [("first", 1), ("second", 1), ("third", 1), ("third", 2)].map (shown world)) =
      some [some ("priced", "0.5", "v1"), some ("priced", "0.7", "v2"), some ("priced", "0.000000000", "v1"),
        some ("priced", "0.000000000", "v1")] := by decide +kernel
  rw [ran, Option.bind_some] at second
  obtain ⟨later, ranOn, shownLater⟩ := map_eq_some_iff.mp second
  obtain ⟨advances, new, recorded⟩ := ledger_law byToken services (Reaches.start.runActs (fun _ _ => trivial) ran)
    (Reaches.start.runActs (fun _ _ => trivial) ranOn)
  exact ⟨earlier, later, advances, new, recorded, shownEarlier, shownLater⟩

end AstrLink.BillingLaw
