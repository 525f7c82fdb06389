import AstrLink.PriceCatalogs

/-!
Which catalog is in force. As long as no save brings back a version that another has replaced, it is the one
saved last (`catalogs_in_force`). A version that comes back is not put in force again
(`returned_publication`).
-/
namespace AstrLink.PriceCatalogs
open Billing Tables Runs List
open Option (isSome_some map_eq_some_iff map_some or_none some_or)

section
variable {Usage D : Type}

/-- Whether a version activated then is looked at. -/
def admits (cutoff : Option Nat) (activatedAt : Nat) : Bool := cutoff.all (activatedAt ≤ ·)

instance latest_total : Std.Total fun first second : (_ : String) × Nat => second.2 ≤ first.2 :=
  ⟨fun first second => Nat.le_total second.2 first.2⟩

instance latest_trans : IsTrans ((_ : String) × Nat) fun first second => second.2 ≤ first.2 :=
  ⟨fun _ _ _ later earlier => Nat.le_trans earlier later⟩

variable {version : String} {activatedAt : Nat}

theorem mem_versions {versions : Table String Nat} :
    ⟨version, activatedAt⟩ ∈ versions.entries ↔ versions.lookup version = some activatedAt :=
  AList.mem_lookup_iff.symm

theorem head_latest {rows : List ((_ : String) × Nat)} (sorted : rows.Pairwise fun first second => second.2 ≤ first.2)
    (member : ⟨version, activatedAt⟩ ∈ rows) (latest : ∀ row ∈ rows, row.1 ≠ version → row.2 < activatedAt) :
    (match rows with
      | [] => ""
      | first :: _ => first.1) = version := by
  cases rows with
  | nil => cases member
  | cons first rows =>
    change first.1 = version
    apply Decidable.byContradiction
    intro apart
    have earlier := latest first mem_cons_self apart
    rcases mem_cons.mp member with rfl | listed
    · exact apart rfl
    · exact absurd ((pairwise_cons.mp sorted).1 _ listed) (Nat.not_le.mpr earlier)

variable {store : Store Usage}

theorem activeVersion_latest {cutoff : Option Nat} (held : store.versions.lookup version = some activatedAt)
    (admitted : admits cutoff activatedAt = true)
    (latest : ∀ other time, store.versions.lookup other = some time → admits cutoff time = true → other ≠ version →
      time < activatedAt) : store.activeVersion cutoff = version := by
  unfold Store.activeVersion
  refine @head_latest version activatedAt _ (pairwise_insertionSort _ _) ?_ ?_
  · exact (mem_insertionSort _).mpr (mem_filter.mpr ⟨mem_versions.mpr held, admitted⟩)
  · intro row listed apart
    obtain ⟨held', admitted'⟩ := mem_filter.mp ((mem_insertionSort _).mp listed)
    exact latest row.1 row.2 (mem_versions.mp held') admitted' apart

theorem activeVersion_none {cutoff : Option Nat}
    (unheld : ∀ version activatedAt, store.versions.lookup version = some activatedAt → admits cutoff activatedAt = false) :
    store.activeVersion cutoff = "" := by
  have empty : (store.versions.entries.filter fun version => cutoff.all (version.2 ≤ ·)) = [] := by
    apply filter_eq_nil_iff.mpr
    intro row listed
    have held : store.versions.lookup row.1 = some row.2 := mem_versions.mp listed
    exact Bool.eq_false_iff.mp (unheld row.1 row.2 held)
  rw [Store.activeVersion, empty]
  rfl

def sameRate (price other : Price) : Bool := other.provider = price.provider && other.model = price.model

/-- `INSERT OR IGNORE`: a rate that is there already stays. -/
def keepFirst (prices : List Price) (price : Price) : List Price := if prices.any (sameRate price) then prices else prices ++ [price]

def Catalog.rates (catalog : Catalog D) : List Price := catalog.prices.foldl keepFirst []

def ratesOf (rates : List Rate) (version : String) : List Price :=
  (rates.filter fun rate => rate.version = version).map Rate.price

/-- What saving does to the rates. -/
def insertRate (version : String) (rates : List Rate) (price : Price) : List Rate :=
  if rates.any fun rate => rate.version = version && rate.price.provider = price.provider &&
    rate.price.model = price.model
  then rates else rates ++ [⟨version, price⟩]

theorem foldl_insertRate_own (version : String) (rates : List Rate) (prices : List Price) :
    ratesOf (prices.foldl (insertRate version) rates) version = prices.foldl keepFirst (ratesOf rates version) := by
  induction prices generalizing rates with
  | nil => rfl
  | cons price prices ih =>
    rw [foldl_cons, foldl_cons, ih]
    congr 1
    have there : (ratesOf rates version).any (sameRate price) = rates.any fun rate => rate.version = version &&
        rate.price.provider = price.provider && rate.price.model = price.model := by
      rw [ratesOf, any_map, any_filter]
      congr 1
      funext rate
      simp [sameRate, Bool.and_assoc]
    rw [keepFirst, there, insertRate]
    split
    · rfl
    · simp [ratesOf]

theorem foldl_insertRate_other {other : String} (apart : other ≠ version) (rates : List Rate) (prices : List Price) :
    ratesOf (prices.foldl (insertRate version) rates) other = ratesOf rates other := by
  induction prices generalizing rates with
  | nil => rfl
  | cons price prices ih =>
    rw [foldl_cons, ih, insertRate]
    split
    · rfl
    · simp [ratesOf, Ne.symm apart]

variable {prices : List Price}

theorem keepFirst_held {price : Price} (held : prices.any (sameRate price) = true) :
    keepFirst prices price = prices := if_pos held

theorem keepFirst_any {price other : Price} (held : prices.any (sameRate other) = true) :
    (keepFirst prices price).any (sameRate other) = true := by
  unfold keepFirst
  split
  · exact held
  · rw [any_append, held, Bool.true_or]

theorem foldl_any {kept : List Price} {other : Price} (held : kept.any (sameRate other) = true ∨ other ∈ prices) :
    (prices.foldl keepFirst kept).any (sameRate other) = true := by
  induction prices generalizing kept with
  | nil =>
    rcases held with held | contra
    · exact held
    · cases contra
  | cons price prices ih =>
    rw [foldl_cons]
    apply ih
    rcases held with held | listed
    · exact .inl (keepFirst_any held)
    · rcases mem_cons.mp listed with rfl | listed
      · left
        unfold keepFirst
        split
        · assumption
        · simp [sameRate]
      · exact .inr listed

theorem rates_again (catalog : Catalog D) : catalog.prices.foldl keepFirst catalog.rates = catalog.rates := by
  have all : ∀ price ∈ catalog.prices, catalog.rates.any (sameRate price) = true := fun price listed => foldl_any (.inr listed)
  generalize catalog.rates = kept at all
  generalize catalog.prices = prices at all
  induction prices with
  | nil => rfl
  | cons price prices ih =>
    rw [foldl_cons, keepFirst_held (all price mem_cons_self)]
    exact ih fun other listed => all other (mem_cons_of_mem _ listed)

/-! ### What leaves the catalogs alone -/

structure SameCatalogs (store next : Store Usage) : Prop where
  versions : next.versions = store.versions
  rates : next.rates = store.rates

theorem SameCatalogs.refl (store : Store Usage) : SameCatalogs store store := ⟨rfl, rfl⟩

variable {next : Store Usage}

theorem SameCatalogs.trans {middle : Store Usage} (first : SameCatalogs store middle)
    (second : SameCatalogs middle next) :
    SameCatalogs store next :=
  ⟨second.versions.trans first.versions, second.rates.trans first.rates⟩

theorem backfillToken_same (store : Store Usage) (key : String × Nat) (token : Option String) :
    SameCatalogs store (store.backfillToken key token) := by
  unfold Store.backfillToken
  split <;> exact ⟨rfl, rfl⟩

variable {library : Library Usage}

variable {now : Nat} {record : RequestRecord Usage}

theorem recordEntry_same {revalue : Bool} {serviceID : String}
    (done : store.recordEntry library now record revalue serviceID = some next) : SameCatalogs store next := by
  unfold Store.recordEntry at done
  split at done
  · cases done
    exact .refl store
  · dsimp only at done
    split at done
    · cases done
      exact .refl store
    · split at done
      · cases done
      · cases done
        exact ⟨rfl, rfl⟩

theorem recordBilling_same {revalue : Bool} (done : store.recordBilling library now record revalue = some next) :
    SameCatalogs store next := by
  unfold Store.recordBilling at done
  split at done
  · cases done
    exact .refl store
  · split at done
    · cases done
      exact .refl store
    · split at done
      · cases done
        exact .refl store
      · split at done
        · cases done
          exact .refl store
        · dsimp only at done
          split at done
          · exact (backfillToken_same store _ _).trans (recordEntry_same done)
          · exact recordEntry_same done

theorem upsert_same (done : store.UpsertRequestRecord library now record = some next) : SameCatalogs store next := by
  unfold Store.UpsertRequestRecord at done
  dsimp only at done
  split at done
  · exact ⟨(recordBilling_same done).versions, (recordBilling_same done).rates⟩
  · cases done
    exact .refl store

theorem insert_same (done : store.InsertRequestRecord library now record = some next) : SameCatalogs store next := by
  unfold Store.InsertRequestRecord at done
  split at done
  · cases done
  · exact ⟨(recordBilling_same done).versions, (recordBilling_same done).rates⟩

theorem commit_same {world : World Usage} {store : Option (Store Usage)}
    (same : ∀ next, store = some next → SameCatalogs world.store next) : SameCatalogs world.store (world.commit store).store := by
  cases store with
  | none => exact .refl _
  | some next => exact same next rfl

variable [DecidableEq Usage]

theorem priceUnpriced_same {candidate : Candidate Usage}
    (done : store.priceUnpriced library now candidate = some next) : SameCatalogs store next := by
  unfold Store.priceUnpriced at done
  dsimp only at done
  split at done
  · exact recordBilling_same done
  · cases done
    exact .refl store
  · split at done
    · split at done
      · cases done
        exact ⟨rfl, rfl⟩
      · cases done
        exact .refl store
    · split at done
      · cases done
        exact ⟨rfl, rfl⟩
      · cases done
        exact .refl store

theorem run_same (world : World Usage) (t now : Nat) (task : Revaluation Usage) :
    SameCatalogs world.store (world.run library t now task).store := by
  cases task with
  | settling => exact ⟨rfl, rfl⟩
  | choosing => exact .refl _
  | paging version last =>
    simp only [World.run]
    split <;> exact .refl _
  | pricing version last page =>
    cases page with
    | nil => exact .refl _
    | cons candidate page =>
      simp only [World.run]
      split
      · rename_i store done
        exact priceUnpriced_same done
      · exact .refl _
  | listing serviceID => exact .refl _
  | listed serviceID records => exact .refl _
  | backfilling records =>
    cases records with
    | nil => exact .refl _
    | cons record records =>
      simp only [World.run]
      split
      · rename_i store done
        exact recordBilling_same done
      · exact .refl _

theorem step_same {world next : World Usage} {act : Billing.Act Usage} (no_save : savesCatalog act = false)
    (stepped : world.step library act = some next) : SameCatalogs world.store next.store := by
  cases act with
  | upsert record now =>
    cases stepped
    exact commit_same fun store done => upsert_same done
  | insert record now =>
    cases stepped
    exact commit_same fun store done => insert_same done
  | recover =>
    cases stepped
    exact ⟨rfl, rfl⟩
  | priceUnpriced task =>
    simp only [World.step] at stepped
    split at stepped
    · cases stepped
      exact .refl _
    · cases stepped
  | backfillPricing task serviceID =>
    simp only [World.step] at stepped
    split at stepped
    · cases stepped
      exact .refl _
    · cases stepped
  | run task now =>
    obtain ⟨revaluation, -, rfl⟩ := map_eq_some_iff.mp stepped
    exact run_same world task now revaluation
  | stop task =>
    cases stepped
    exact .refl _
  | savePricingCatalog => cases no_save
  | savePricingConfig serviceID config =>
    simp only [World.step] at stepped
    split at stepped
    · cases stepped
      exact ⟨rfl, rfl⟩
    · cases stepped
  | editService serviceID service =>
    simp only [World.step] at stepped
    split at stepped
    · cases stepped
      exact ⟨rfl, rfl⟩
    · cases stepped

end

/-! ### The saves so far -/

section
variable {Usage D : Type}

/-- The catalog saved last of those activated by then. -/
def latest (saves : List (Catalog D)) (cutoff : Option Nat) : Option (Catalog D) :=
  (saves.filter fun catalog => admits cutoff catalog.activatedAt).getLast?

def firstOf (saves : List (Catalog D)) (version : String) : Option (Catalog D) :=
  saves.find? fun catalog => catalog.version = version

/-- The version and the price that a catalog gives for a binding, if one rate is named. -/
def choose (prices : List Price) (binding : Binding) : Option Price :=
  match prices.filter fun price => price.model = binding.model && (binding.provider = "" || price.provider = binding.provider) with
  | [price] => some price
  | _ => none

def quote (catalog : Option (Catalog D)) (binding : Binding) : String × Option Price :=
  match catalog with
  | some catalog => (catalog.version, choose catalog.rates binding)
  | none => ("", none)

def Shows (store : PricingStore Usage D) (catalog : Catalog D) : Prop :=
  ∃ shown, store.PricingCatalog = some shown ∧ shown.version = catalog.version ∧ shown.prices = catalog.prices

def configOf (store : Store Usage) (serviceID : String) (service : Service) : Config :=
  (store.configs.lookup serviceID).getD (DefaultConfig service.kind)

structure InForce (history : History Usage D) : Prop where
  shown : ∀ catalog, history.saves.getLast? = some catalog → Shows history.store catalog
  valued : ∀ startedAt serviceID service model,
    history.store.billing.store.choosePrice serviceID service model startedAt =
      quote (latest history.saves (some startedAt)) ((configOf history.store.billing.store serviceID service).ResolveBinding model)

/-- Activation times grow, and versions are derived from the content. -/
structure Timely (history : History Usage D) (catalog : Catalog D) : Prop where
  later : ∀ old ∈ history.saves, old.activatedAt < catalog.activatedAt
  derived : ∀ old ∈ history.saves, old.version = catalog.version → old.prices = catalog.prices

/-- The version is not stored yet, or it is the one in force. -/
def NotSuperseded (store : PricingStore Usage D) (catalog : Catalog D) : Prop :=
  store.documents.lookup catalog.version = none ∨ store.billing.store.activeVersion none = catalog.version

theorem choosePrice_eq (store : Store Usage) (serviceID : String) (service : Service) (model : String) (cutoff : Nat) :
    store.choosePrice serviceID service model cutoff =
      (store.activeVersion (some cutoff), choose (ratesOf store.rates (store.activeVersion (some cutoff)))
        ((configOf store serviceID service).ResolveBinding model)) := by
  unfold Store.choosePrice choose ratesOf configOf
  dsimp only
  generalize (store.configs.lookup serviceID).getD (DefaultConfig service.kind) = config
  generalize config.ResolveBinding model = binding
  generalize store.activeVersion (some cutoff) = version
  have rates : ((store.rates.filter fun rate => rate.version = version).map Rate.price).filter (fun price =>
      price.model = binding.model && (binding.provider = "" || price.provider = binding.provider)) =
      (store.rates.filter fun rate => rate.version = version && rate.price.model = binding.model &&
        (binding.provider = "" || rate.price.provider = binding.provider)).map Rate.price := by
    rw [filter_map, filter_filter]
    congr 1
    apply filter_congr
    intro rate _
    simp only [Function.comp_apply]
    cases decide (rate.version = version) <;> simp
  rw [rates]
  congr 1
  generalize store.rates.filter _ = chosen
  cases chosen with
  | nil => rfl
  | cons first others => cases others <;> rfl

/-- What the store keeps of the saves, none of which brought a replaced version back. -/
structure Tracks (history : History Usage D) : Prop where
  versions : ∀ version, history.store.billing.store.versions.lookup version =
    (firstOf history.saves version).map Catalog.activatedAt
  documents : ∀ version, history.store.documents.lookup version = firstOf history.saves version
  rates : ∀ version, ratesOf history.store.billing.store.rates version =
    ((firstOf history.saves version).map Catalog.rates).getD []
  named : ∀ catalog ∈ history.saves, catalog.version ≠ ""
  derived : ∀ catalog ∈ history.saves, ∀ other ∈ history.saves, catalog.version = other.version → catalog.prices = other.prices
  inForce : ∀ cutoff catalog, latest history.saves cutoff = some catalog →
    ∃ first, firstOf history.saves catalog.version = some first ∧ first.activatedAt ≤ catalog.activatedAt ∧
      ∀ version other, firstOf history.saves version = some other → admits cutoff other.activatedAt = true →
        version ≠ catalog.version → other.activatedAt < first.activatedAt

variable {cutoff : Option Nat}

theorem admits_mono {activatedAt earlier : Nat} (admitted : admits cutoff activatedAt = true)
    (before : earlier ≤ activatedAt) : admits cutoff earlier = true := by
  cases cutoff with
  | none => rfl
  | some cutoff =>
    unfold admits at admitted ⊢
    simp only [Option.all_some, decide_eq_true_eq] at admitted ⊢
    omega

theorem admits_all (saves : List (Catalog D)) : saves.filter (fun catalog => admits none catalog.activatedAt) = saves :=
  filter_eq_self.mpr fun _ _ => rfl

variable {saves : List (Catalog D)} {catalog : Catalog D}

theorem latest_some (found : latest saves cutoff = some catalog) :
    catalog ∈ saves ∧ admits cutoff catalog.activatedAt = true := mem_filter.mp (mem_of_getLast? found)

theorem firstOf_some {version : String} (found : firstOf saves version = some catalog) :
    catalog ∈ saves ∧ catalog.version = version :=
  ⟨mem_of_find?_eq_some found, by simpa using find?_some found⟩

variable {history : History Usage D}

theorem Tracks.active (tracks : Tracks history) (found : latest history.saves cutoff = some catalog) :
    history.store.billing.store.activeVersion cutoff = catalog.version := by
  obtain ⟨first, held, before, others⟩ := tracks.inForce cutoff catalog found
  refine activeVersion_latest ((tracks.versions _).trans (congrArg _ held)) (admits_mono (latest_some found).2 before) ?_
  intro version time held' admitted apart
  rw [tracks.versions] at held'
  obtain ⟨other, found', rfl⟩ := map_eq_some_iff.mp held'
  exact others version other found' admitted apart

theorem Tracks.inactive (tracks : Tracks history) (nothing : latest history.saves cutoff = none) :
    history.store.billing.store.activeVersion cutoff = "" := by
  apply activeVersion_none
  intro version time held
  rw [tracks.versions] at held
  obtain ⟨catalog, found, rfl⟩ := map_eq_some_iff.mp held
  have empty := getLast?_eq_none_iff.mp nothing
  exact Bool.eq_false_iff.mpr (filter_eq_nil_iff.mp empty catalog (firstOf_some found).1)

theorem Tracks.inForce_all (tracks : Tracks history) : InForce history := by
  constructor
  case shown =>
    intro catalog last
    have found : latest history.saves none = some catalog := by
      rw [latest, admits_all]
      exact last
    obtain ⟨first, held, -, -⟩ := tracks.inForce none catalog found
    obtain ⟨listed, same⟩ := firstOf_some held
    refine ⟨first, ?_, same, tracks.derived first listed catalog (latest_some found).1 same⟩
    rw [PricingStore.PricingCatalog, tracks.active found, tracks.documents, held]
  case valued =>
    intro startedAt serviceID service model
    rw [choosePrice_eq]
    cases found : latest history.saves (some startedAt) with
    | none =>
      have unnamed : firstOf history.saves "" = none := by
        apply find?_eq_none.mpr
        intro catalog listed
        simpa using tracks.named catalog listed
      rw [tracks.inactive found, tracks.rates, unnamed]
      rfl
    | some catalog =>
      obtain ⟨first, held, -, -⟩ := tracks.inForce _ catalog found
      obtain ⟨listed, same⟩ := firstOf_some held
      have rates : first.rates = catalog.rates := by
        rw [Catalog.rates, Catalog.rates, tracks.derived first listed catalog (latest_some found).1 same]
      rw [tracks.active found, tracks.rates, held, map_some, Option.getD_some, rates]
      rfl

/-! ### Saving a catalog -/

theorem firstOf_snoc (saves : List (Catalog D)) (catalog : Catalog D) (version : String) :
    firstOf (saves ++ [catalog]) version =
      (firstOf saves version).or (if catalog.version = version then some catalog else none) := by
  rw [firstOf, find?_append]
  congr 1
  by_cases same : catalog.version = version
  · rw [find?_cons_of_pos (by simpa using same), if_pos same]
  · rw [find?_cons_of_neg (by simpa using same), if_neg same]
    rfl

theorem latest_admitted (admitted : admits cutoff catalog.activatedAt = true) :
    latest (saves ++ [catalog]) cutoff = some catalog := by
  rw [latest, filter_append, filter_cons_of_pos (by exact admitted)]
  exact getLast?_concat

theorem latest_before (early : admits cutoff catalog.activatedAt = false) :
    latest (saves ++ [catalog]) cutoff = latest saves cutoff := by
  rw [latest, filter_append, filter_cons_of_neg (by rw [early]; exact Bool.false_ne_true)]
  exact congrArg _ (append_nil _)

theorem Tracks.billed (tracks : Tracks history) {billing : World Usage}
    (same : SameCatalogs history.store.billing.store billing.store) :
    Tracks { history with store := { history.store with billing } } where
  versions version := (congrArg (AList.lookup version) same.versions).trans (tracks.versions version)
  documents := tracks.documents
  rates version := (congrArg (ratesOf · version) same.rates).trans (tracks.rates version)
  named := tracks.named
  derived := tracks.derived
  inForce := tracks.inForce

theorem Tracks.start (services : Table String Service) : Tracks (History.start services : History Usage D) where
  versions _ := rfl
  documents _ := rfl
  rates _ := rfl
  named _ listed := by cases listed
  derived _ listed := by cases listed
  inForce _ _ found := by cases found

variable [DecidableEq Usage] {library : Library Usage} {parse : String → Option PriceExpressions.Node}

variable {next : PricingStore Usage D}

theorem save_some {store : PricingStore Usage D} (done : store.SavePricingCatalog library parse catalog = some next) :
    catalog.version ≠ "" ∧
      next.billing.store.versions = (if (store.billing.store.versions.lookup catalog.version).isSome then
        store.billing.store.versions else store.billing.store.versions.insert catalog.version catalog.activatedAt) ∧
      next.billing.store.rates = catalog.prices.foldl (insertRate catalog.version) store.billing.store.rates ∧
      next.documents = (if (store.documents.lookup catalog.version).isSome then store.documents
        else store.documents.insert catalog.version catalog) ∧
      configOf next.billing.store = configOf store.billing.store := by
  unfold PricingStore.SavePricingCatalog at done
  split at done
  · cases done
  · rename_i proper
    split at done
    · cases done
    · obtain ⟨billing, stepped, rfl⟩ := map_eq_some_iff.mp done
      cases stepped
      exact ⟨fun contra => proper (.inl contra), rfl, rfl, rfl, rfl⟩

theorem Tracks.saved (tracks : Tracks history) (timely : Timely history catalog)
    (current : NotSuperseded history.store catalog)
    (done : history.store.SavePricingCatalog library parse catalog = some next) :
    Tracks { store := next, saves := history.saves ++ [catalog] } := by
  obtain ⟨some_version, versions, rates, documents, -⟩ := save_some done
  constructor
  case versions =>
    intro version
    change next.billing.store.versions.lookup version = _
    rw [versions, firstOf_snoc, tracks.versions]
    cases known : firstOf history.saves catalog.version with
    | none =>
      rw [Option.map_none, Option.isSome_none, if_neg Bool.false_ne_true, lookup_insert_if, tracks.versions]
      by_cases same : version = catalog.version
      · rw [if_pos same, if_pos same.symm, same, known]
        rfl
      · rw [if_neg same, if_neg (Ne.symm same), or_none]
    | some first =>
      rw [map_some, isSome_some, if_pos rfl, tracks.versions]
      by_cases same : catalog.version = version
      · rw [← same, known]
        rfl
      · rw [if_neg same, or_none]
  case documents =>
    intro version
    change next.documents.lookup version = _
    rw [documents, firstOf_snoc, tracks.documents]
    cases known : firstOf history.saves catalog.version with
    | none =>
      rw [Option.isSome_none, if_neg Bool.false_ne_true, lookup_insert_if, tracks.documents]
      by_cases same : version = catalog.version
      · rw [if_pos same, if_pos same.symm, same, known]
        rfl
      · rw [if_neg same, if_neg (Ne.symm same), or_none]
    | some first =>
      rw [isSome_some, if_pos rfl, tracks.documents]
      by_cases same : catalog.version = version
      · rw [← same, known]
        rfl
      · rw [if_neg same, or_none]
  case rates =>
    intro version
    change ratesOf next.billing.store.rates version = _
    rw [rates, firstOf_snoc]
    by_cases same : version = catalog.version
    · rw [same, foldl_insertRate_own, tracks.rates, if_pos rfl]
      cases known : firstOf history.saves catalog.version with
      | none => rfl
      | some first =>
        obtain ⟨listed, same'⟩ := firstOf_some known
        have again : first.rates = catalog.rates := by
          rw [Catalog.rates, Catalog.rates, timely.derived first listed same']
        rw [some_or, map_some, Option.getD_some, again]
        exact rates_again catalog
    · rw [foldl_insertRate_other same, tracks.rates, if_neg (Ne.symm same), or_none]
  case named =>
    intro other listed
    rcases mem_append.mp listed with listed | listed
    · exact tracks.named other listed
    · rw [mem_singleton.mp listed]
      exact some_version
  case derived =>
    intro one listed other listed' same
    rcases mem_append.mp listed with listed | listed
    · rcases mem_append.mp listed' with listed' | listed'
      · exact tracks.derived one listed other listed' same
      · rw [mem_singleton.mp listed'] at same ⊢
        exact timely.derived one listed same
    · rcases mem_append.mp listed' with listed' | listed'
      · rw [mem_singleton.mp listed] at same ⊢
        exact (timely.derived other listed' same.symm).symm
      · rw [mem_singleton.mp listed, mem_singleton.mp listed']
  case inForce =>
    intro cutoff newest found
    cases admitted : admits cutoff catalog.activatedAt with
    | true =>
      rw [latest_admitted admitted] at found
      cases found
      cases known : firstOf history.saves catalog.version with
      | none =>
        refine ⟨catalog, by rw [firstOf_snoc, known, if_pos rfl]; rfl, Nat.le_refl _, fun version other found' _ apart => ?_⟩
        rw [firstOf_snoc, if_neg (Ne.symm apart), or_none] at found'
        exact timely.later other (firstOf_some found').1
      | some first =>
        -- The version was saved before, so it is the one in force: that of the save before this one.
        have inForce : history.store.billing.store.activeVersion none = catalog.version := by
          rcases current with fresh | inForce
          · rw [tracks.documents, known] at fresh
            cases fresh
          · exact inForce
        cases last : latest history.saves none with
        | none =>
          rw [tracks.inactive last] at inForce
          exact absurd inForce.symm some_version
        | some previous =>
          have same := (tracks.active last).symm.trans inForce
          obtain ⟨first', held, before, others⟩ := tracks.inForce none previous last
          have later := timely.later previous (latest_some last).1
          rw [same] at held others
          refine ⟨first', by rw [firstOf_snoc, held]; rfl, by omega, fun version other found' _ apart => ?_⟩
          rw [firstOf_snoc, if_neg (Ne.symm apart), or_none] at found'
          exact others version other found' rfl apart
    | false =>
      rw [latest_before admitted] at found
      obtain ⟨first, held, before, others⟩ := tracks.inForce cutoff newest found
      refine ⟨first, by rw [firstOf_snoc, held]; rfl, before, fun version other found' admitted' apart => ?_⟩
      rw [firstOf_snoc] at found'
      cases known : firstOf history.saves version with
      | some other' =>
        rw [known, some_or] at found'
        cases found'
        exact others version other known admitted' apart
      | none =>
        rw [known, Option.none_or] at found'
        split at found'
        · cases found'
          rw [admitted] at admitted'
          cases admitted'
        · cases found'

/-- A save comes later than those before it, and brings no replaced version back. -/
def Permitted (history : History Usage D) : Act Usage D → Prop
  | .save catalog => Timely history catalog ∧ NotSuperseded history.store catalog
  | .bill _ => True

theorem Tracks.step {next : History Usage D} (tracks : Tracks history) {act : Act Usage D}
    (permitted : Permitted history act) (stepped : history.step library parse act = some next) : Tracks next := by
  cases act with
  | save catalog =>
    simp only [History.step] at stepped
    split at stepped
    · rename_i store done
      cases stepped
      exact tracks.saved permitted.1 permitted.2 done
    · cases stepped
      exact tracks
  | bill act =>
    simp only [History.step] at stepped
    split at stepped
    · cases stepped
    · rename_i no_save
      obtain ⟨billing, moved, rfl⟩ := map_eq_some_iff.mp stepped
      exact tracks.billed (step_same (Bool.eq_false_iff.mpr no_save) moved)

/-- Requests from the activation on are valued by the catalog, and earlier ones as they were. -/
structure Takes (store next : PricingStore Usage D) (catalog : Catalog D) : Prop where
  after : ∀ startedAt serviceID service model, catalog.activatedAt ≤ startedAt →
    next.billing.store.choosePrice serviceID service model startedAt =
      quote (some catalog) ((configOf next.billing.store serviceID service).ResolveBinding model)
  before : ∀ startedAt serviceID service model, startedAt < catalog.activatedAt →
    next.billing.store.choosePrice serviceID service model startedAt =
      store.billing.store.choosePrice serviceID service model startedAt

theorem Tracks.takes (tracks : Tracks history) (timely : Timely history catalog)
    (current : NotSuperseded history.store catalog)
    (done : history.store.SavePricingCatalog library parse catalog = some next) : Takes history.store next catalog := by
  have valued := (tracks.saved timely current done).inForce_all.valued
  constructor
  case after =>
    intro startedAt serviceID service model started
    have admitted : admits (some startedAt) catalog.activatedAt = true := decide_eq_true started
    rw [valued, latest_admitted admitted]
  case before =>
    intro startedAt serviceID service model started
    have early : admits (some startedAt) catalog.activatedAt = false := decide_eq_false (Nat.not_le.mpr started)
    rw [valued, latest_before early, tracks.inForce_all.valued, (save_some done).2.2.2.2]

/-- In a run whose saves bring no replaced version back the catalogs are in force. A further save takes force if it brings
    none back, and only then is it shown. -/
theorem catalogs_in_force (library : Library Usage) (parse : String → Option PriceExpressions.Node) (services : Table String Service)
    {history : History Usage D} (reached : Reaches (History.step library parse) Permitted (History.start services) history) :
    InForce history ∧ ∀ catalog next, Timely history catalog →
      history.store.SavePricingCatalog library parse catalog = some next →
      (Shows next catalog ↔ NotSuperseded history.store catalog) ∧
      (NotSuperseded history.store catalog → Takes history.store next catalog) := by
  have tracks : Tracks history :=
    reached.invariant Tracks (Tracks.start services) fun _ _ _ tracks permitted stepped => tracks.step permitted stepped
  refine ⟨tracks.inForce_all, fun catalog next timely done =>
    ⟨⟨fun shows => ?_, fun current => ?_⟩, fun current => tracks.takes timely current done⟩⟩
  · cases known : history.store.documents.lookup catalog.version with
    | none => exact .inl known
    | some first =>
      -- A version that is stored is left as it is, so the one in force is shown.
      obtain ⟨-, versions, -, documents, -⟩ := save_some done
      obtain ⟨shown, held, same, -⟩ := shows
      have unmoved : next.billing.store.activeVersion none = history.store.billing.store.activeVersion none := by
        have stored : (history.store.billing.store.versions.lookup catalog.version).isSome = true := by
          rw [tracks.versions, ← tracks.documents, known]
          rfl
        rw [if_pos stored] at versions
        unfold Store.activeVersion
        rw [versions]
      rw [PricingStore.PricingCatalog, documents, known, isSome_some, if_pos rfl, unmoved, tracks.documents] at held
      exact .inr ((firstOf_some held).2.symm.trans same)
  · exact (tracks.saved timely current done).inForce_all.shown catalog getLast?_concat

end

/-! ### A publication that comes back -/

/-- Saves later than those before them, under versions derived from the content. -/
def OnlyTimely {Usage D : Type} (history : History Usage D) : Act Usage D → Prop
  | .save catalog => Timely history catalog
  | .bill _ => True

def plainLibrary : Library Unit where
  evaluate _ _ _ := .error "not_valued"
  markIncomplete usage := usage
  sha256 text := text

/-- A parser that reads every text as a name. -/
def parseName (source : String) : Option PriceExpressions.Node := some (.identifier source)

def published (version expression : String) (activatedAt : Nat) : Catalog Unit :=
  { version, activatedAt, prices := [{ provider := "openai", model := "gpt-5", name := "GPT-5", expression }], details := () }

/-- The history after a save, or as it was if the save fails. -/
def saving (history : History Unit Unit) (catalog : Catalog Unit) : History Unit Unit :=
  (history.step plainLibrary parseName (.save catalog)).getD history

theorem step_save (history : History Unit Unit) (catalog : Catalog Unit) :
    history.step plainLibrary parseName (.save catalog) = some (saving history catalog) := by
  unfold saving
  simp only [History.step]
  split <;> rfl

def firstSave : History Unit Unit := saving (History.start ∅) (published "digest_one" "p" 1)

def secondSave : History Unit Unit := saving firstSave (published "digest_two" "c" 2)

def thirdSave : History Unit Unit := saving secondSave (published "digest_one" "p" 3)

theorem firstSave_saves : firstSave.saves = [published "digest_one" "p" 1] := by decide +kernel

theorem secondSave_saves : secondSave.saves = [published "digest_one" "p" 1, published "digest_two" "c" 2] := by decide +kernel

theorem first_timely : Timely (History.start ∅ : History Unit Unit) (published "digest_one" "p" 1) :=
  ⟨fun _ listed => (by cases listed), fun _ listed => by cases listed⟩

theorem second_timely : Timely firstSave (published "digest_two" "c" 2) := by
  constructor
  case later =>
    rw [firstSave_saves]
    decide
  case derived =>
    rw [firstSave_saves]
    decide

theorem catalogs_in_force_two :
    InForce secondSave ∧ ∀ catalog next, Timely secondSave catalog →
      secondSave.store.SavePricingCatalog plainLibrary parseName catalog = some next →
      (Shows next catalog ↔ NotSuperseded secondSave.store catalog) ∧
      (NotSuperseded secondSave.store catalog → Takes secondSave.store next catalog) := by
  have first : Permitted (History.start ∅) (.save (published "digest_one" "p" 1)) :=
    And.intro first_timely (.inl (by decide +kernel))
  have second : Permitted firstSave (.save (published "digest_two" "c" 2)) :=
    And.intro second_timely (.inl (by decide +kernel))
  exact catalogs_in_force plainLibrary parseName ∅ (.step (.step .start first (step_save _ _)) second (step_save _ _))

/-- The catalog that came back is not in force: the one that replaced it is. -/
theorem returned_publication : ¬ ∀ history : History Unit Unit,
    Reaches (History.step plainLibrary parseName) OnlyTimely (History.start ∅) history → InForce history := by
  intro always
  have third_timely : Timely secondSave (published "digest_one" "p" 3) := by
    constructor
    case later =>
      rw [secondSave_saves]
      decide
    case derived =>
      rw [secondSave_saves]
      decide
  have first : OnlyTimely (History.start ∅) (.save (published "digest_one" "p" 1)) := first_timely
  have second : OnlyTimely firstSave (.save (published "digest_two" "c" 2)) := second_timely
  have third : OnlyTimely secondSave (.save (published "digest_one" "p" 3)) := third_timely
  have reached : Reaches (History.step plainLibrary parseName) OnlyTimely (History.start ∅) thirdSave :=
    .step (.step (.step .start first (step_save _ _)) second (step_save _ _)) third (step_save _ _)
  have last : thirdSave.saves.getLast? = some (published "digest_one" "p" 3) := by decide +kernel
  have inForce : thirdSave.store.PricingCatalog = some (published "digest_two" "c" 2) := by decide +kernel
  obtain ⟨shown, held, version, -⟩ := (always thirdSave reached).shown _ last
  rw [inForce] at held
  cases held
  exact absurd version (by decide)

end AstrLink.PriceCatalogs
