import AstrLink.Runs
import AstrLink.Tables
import Mathlib.Data.List.Sort

/-!
The billing ledger, with one entry for each attempt of a request. Live snapshots, the recovery at startup, the
filling of prices and the revaluation write to it. The checks of a snapshot before it is stored are left out.
-/
namespace AstrLink.Billing
open Tables
open Function (update)

inductive RequestStatus where
  | pending
  | succeeded
  | failed
  | cancelled
  | blocked
deriving DecidableEq

structure Subscription where
  provider : String
  providerAccountID : String

structure Service where
  kind : String
  subscription : Option Subscription

structure Price where
  provider : String
  model : String
  name : String
  expression : String
deriving DecidableEq

structure Binding where
  provider : String
  model : String

/-- The part of a pricing configuration that prices are chosen by. -/
structure Config where
  provider : String
  bindings : Table String Binding

structure Valuation where
  amountUSD : String
  tier : String

/-- What is taken from libraries: `Evaluate`, `json_set` and the digest of an account key. -/
structure Library (Usage : Type) where
  evaluate : String → Option Usage → Nat → Except String Valuation
  markIncomplete : Usage → Usage
  sha256 : String → String

/-- The fields of a request record that billing reads. -/
structure RequestRecord (Usage : Type) where
  id : String
  parentRequestID : Option String
  attemptIndex : Nat
  startedAt : Nat
  status : RequestStatus
  requestedModel : Option String
  serviceID : Option String
  localAccessTokenID : Option String
  usage : Option Usage
  /-- The upstream model of the recovery, if there was one. -/
  recovery : Option String
  /-- What the routing decision selected. -/
  selected : Option String

/-- The row of an attempt; its key is the root request and the attempt. -/
structure Entry (Usage : Type) where
  serviceID : String
  accountKey : String
  model : String
  startedAt : Nat
  terminal : Bool
  usage : Option Usage
  price : Option Price
  priceVersion : String
  amountUSD : String
  tier : String
  reason : String
  revalued : Bool
  localAccessTokenID : Option String

structure Rate where
  version : String
  price : Price

structure Store (Usage : Type) where
  services : Table String Service
  configs : Table String Config
  /-- The versions of the price catalog, with when they were activated. -/
  versions : Table String Nat
  rates : List Rate
  records : Table String (RequestRecord Usage)
  ledger : Table (String × Nat) (Entry Usage)

def DefaultConfig (kind : String) : Config where
  provider :=
    ((([("openai", "openai"), ("anthropic", "anthropic"), ("gemini", "google"), ("codex_subscription", "openai"),
      ("claude_subscription", "anthropic"), ("grok_subscription", "xai"), ("antigravity_subscription", "google"),
      ("kimi_coding", "moonshotai"), ("glm_coding", "zai"), ("minimax_coding", "minimax"), ("deepseek", "deepseek"),
      ("qwen", "alibaba"), ("moonshot", "moonshotai"), ("glm", "zai"), ("minimax", "minimax"),
      ("xai", "xai")] : List (String × String)).lookup kind)).getD ""
  bindings := ∅

def defaultBindings : List (String × Binding) :=
  [("codex-auto-review", { provider := "openai", model := "gpt-5.6-luna" })]

def Config.ResolveBinding (config : Config) (model : String) : Binding :=
  match config.bindings.lookup model with
  | some binding => binding
  | none =>
    match defaultBindings.lookup model with
    | some binding =>
      if config.provider = binding.provider || config.provider = "" then binding
      else { provider := config.provider, model }
    | none => { provider := config.provider, model }

section
variable {Usage : Type}

def AccountKey (library : Library Usage) (serviceID : String) (service : Service) : String :=
  library.sha256 (match service.subscription with
    | some subscription => serviceID ++ "/" ++ subscription.provider ++ "/" ++ subscription.providerAccountID
    | none => serviceID)

def Store.activeVersion (store : Store Usage) (cutoff : Option Nat) : String :=
  let active := store.versions.entries.filter fun version => cutoff.all (version.2 ≤ ·)
  match active.insertionSort fun first second => second.2 ≤ first.2 with
  | [] => ""
  | latest :: _ => latest.1

/-- The price of a model at a service: a rate that is the only one its binding names. -/
def Store.choosePrice (store : Store Usage) (serviceID : String) (service : Service) (model : String) (cutoff : Nat) :
    String × Option Price :=
  let config := (store.configs.lookup serviceID).getD (DefaultConfig service.kind)
  let version := store.activeVersion (some cutoff)
  let binding := config.ResolveBinding model
  let rates := store.rates.filter fun rate =>
    rate.version = version && rate.price.model = binding.model &&
      (binding.provider = "" || rate.price.provider = binding.provider)
  (version, match rates with
    | [rate] => some rate.price
    | _ => none)

def claudeCLI : String := "claude_cli"

def RequestRecord.root (record : RequestRecord Usage) : String := record.parentRequestID.getD record.id

/-- The model a record is priced by: the upstream model of its recovery, or the requested one. -/
def RequestRecord.model (record : RequestRecord Usage) : String :=
  match record.recovery with
  | some upstreamModel => if upstreamModel ≠ "" then upstreamModel else record.requestedModel.getD ""
  | none => record.requestedModel.getD ""

structure Outcome where
  terminal : Bool
  amountUSD : String
  tier : String
  reason : String

def zeroUSD : String := "0.000000000"

def RequestRecord.value (record : RequestRecord Usage) (library : Library Usage) (price : Option Price) : Outcome :=
  if record.status = .pending then { terminal := false, amountUSD := zeroUSD, tier := "", reason := "pending" }
  -- An attempt that ended without usage has nothing to value.
  else if record.usage.isNone && (record.status = .failed || record.status = .cancelled) then
    { terminal := true, amountUSD := zeroUSD, tier := "", reason := "priced" }
  else
    match price with
    | none => { terminal := true, amountUSD := zeroUSD, tier := "", reason := "missing_price" }
    | some price =>
      match library.evaluate price.expression record.usage record.startedAt with
      | .error reason => { terminal := true, amountUSD := zeroUSD, tier := "", reason }
      | .ok value => { terminal := true, amountUSD := value.amountUSD, tier := value.tier, reason := "priced" }

/-- The row that a record writes. Where there is one, only its value changes. -/
def Store.bill (store : Store Usage) (library : Library Usage) (now : Nat) (record : RequestRecord Usage) (revalue : Bool)
    (serviceID : String) (service : Service) (existing : Option (Entry Usage)) : Entry Usage :=
  let model := record.model
  let (priceVersion, price) :=
    match existing, revalue with
    | some existing, false => (existing.priceVersion, existing.price)
    | _, _ => store.choosePrice serviceID service model (if revalue then now else record.startedAt)
  let outcome := record.value library price
  match existing with
  | some existing =>
    { existing with
      terminal := outcome.terminal, usage := record.usage, price, priceVersion, amountUSD := outcome.amountUSD
      tier := outcome.tier, reason := outcome.reason, revalued := revalue
      localAccessTokenID := existing.localAccessTokenID.or record.localAccessTokenID }
  | none =>
    { serviceID
      -- Request records do not say which provider account a legacy call was made with.
      accountKey :=
        if revalue && service.subscription.isSome then "legacy/" ++ serviceID else AccountKey library serviceID service
      model
      startedAt := record.startedAt
      terminal := outcome.terminal, usage := record.usage, price, priceVersion, amountUSD := outcome.amountUSD
      tier := outcome.tier, reason := outcome.reason, revalued := revalue
      localAccessTokenID := record.localAccessTokenID }

def Store.putEntry (store : Store Usage) (key : String × Nat) (entry : Entry Usage) : Store Usage :=
  { store with ledger := store.ledger.insert key entry }

/-- A revaluation names the access token of an entry that has none. -/
def Store.backfillToken (store : Store Usage) (key : String × Nat) (token : Option String) : Store Usage :=
  match token, store.ledger.lookup key with
  | some token, some entry =>
    store.putEntry key { entry with localAccessTokenID := entry.localAccessTokenID.or (some token) }
  | _, _ => store

def RequestRecord.key (record : RequestRecord Usage) : String × Nat := (record.root, max 1 record.attemptIndex)

/-- The second half of `recordBilling`. -/
def Store.recordEntry (store : Store Usage) (library : Library Usage) (now : Nat) (record : RequestRecord Usage)
    (revalue : Bool) (serviceID : String) : Option (Store Usage) :=
  match store.services.lookup serviceID with
  | none => some store
  | some service =>
    let existing := store.ledger.lookup record.key
    let settled := existing.any fun entry => entry.terminal && !revalue || revalue && entry.reason = "priced"
    if settled then some store
    -- A billing attempt changed service.
    else if existing.any fun entry => entry.serviceID ≠ serviceID then none
    else some (store.putEntry record.key (store.bill library now record revalue serviceID service existing))

/-- `recordBilling`; none when it fails and its transaction is undone. -/
def Store.recordBilling (store : Store Usage) (library : Library Usage) (now : Nat) (record : RequestRecord Usage)
    (revalue : Bool) : Option (Store Usage) :=
  match record.serviceID with
  | none => some store
  | some serviceID =>
    if record.status = .blocked then some store
    else if record.selected = some claudeCLI then some store
    else if record.attemptIndex < 1 && !revalue then some store
    else
      let store := if revalue then store.backfillToken record.key record.localAccessTokenID else store
      store.recordEntry library now record revalue serviceID

def Store.putRecord (store : Store Usage) (record : RequestRecord Usage) : Store Usage :=
  { store with records := store.records.insert record.id record }

/-- `UpsertRequestRecord`: a terminal record is never downgraded by a late pending snapshot. -/
def Store.UpsertRequestRecord (store : Store Usage) (library : Library Usage) (now : Nat) (record : RequestRecord Usage) :
    Option (Store Usage) :=
  let applied := (store.records.lookup record.id).all fun stored => stored.status = .pending || record.status ≠ .pending
  if applied then (store.putRecord record).recordBilling library now record false else some store

def Store.InsertRequestRecord (store : Store Usage) (library : Library Usage) (now : Nat) (record : RequestRecord Usage) :
    Option (Store Usage) :=
  if (store.records.lookup record.id).isSome then none
  else (store.putRecord record).recordBilling library now record false

/-- A record that a stopped process left open has failed. -/
def RequestRecord.interrupt (record : RequestRecord Usage) (library : Library Usage) : RequestRecord Usage :=
  if record.status = .pending then
    { record with status := .failed, usage := record.usage.map library.markIncomplete }
  else record

def Entry.interrupt (entry : Entry Usage) (library : Library Usage) : Entry Usage :=
  if entry.terminal then entry
  else { entry with terminal := true, reason := "incomplete_usage", usage := entry.usage.map library.markIncomplete }

def Store.RecoverPendingRequestRecords (store : Store Usage) (library : Library Usage) : Store Usage :=
  { store with
    records := amend (fun _ record => record.interrupt library) store.records
    ledger := amend (fun _ entry => entry.interrupt library) store.ledger }

/-- The reasons earlier releases left an entry unpriced for, which can be valued now. -/
def partialUsageReasons : List String :=
  ["incomplete_usage", "invalid_cache_partition", "missing_cache_ttl", "missing_audio_usage", "invalid_token_partition",
    "missing_audio_cache_partition", "missing_billing_parameter"]

/-- A request record of the attempt tells that it failed or was cancelled. -/
def Store.endedWithout (store : Store Usage) (key : String × Nat) : Bool :=
  store.records.entries.any fun row =>
    row.2.attemptIndex = key.2 && (row.2.status = .failed || row.2.status = .cancelled) &&
      (row.1 = key.1 || row.2.parentRequestID = some key.1) && row.2.selected ≠ some claudeCLI

/-- The first statement of `PriceUnpriced`: an attempt that ended without usage costs nothing. -/
def Store.settleUnused (store : Store Usage) : Store Usage :=
  { store with ledger := amend (fun key entry =>
      if entry.terminal && entry.reason ≠ "priced" && entry.usage.isNone && store.endedWithout key then
        { entry with amountUSD := zeroUSD, tier := "", reason := "priced", revalued := true }
      else entry) store.ledger }

/-- An entry that `PriceUnpriced` has read. -/
structure Candidate (Usage : Type) where
  rootID : String
  attempt : Nat
  serviceID : String
  startedAt : Nat
  model : String
  usage : Option Usage
  price : Option Price
  reason : String

def Candidate.key (candidate : Candidate Usage) : String × Nat := (candidate.rootID, candidate.attempt)

/-- The order of the pages: by root, then by attempt. -/
def before (first second : String × Nat) : Bool :=
  first.1 < second.1 || first.1 = second.1 && first.2 < second.2

/-- The next page of entries that a new catalog or a changed rule may price. -/
def Store.unpricedPage (store : Store Usage) (version : String) (last : String × Nat) : List (Candidate Usage) :=
  let found := store.ledger.entries.filter fun row =>
    (store.services.lookup row.2.serviceID).isSome && row.2.terminal &&
      (row.2.reason = "missing_price" && row.2.priceVersion ≠ version || partialUsageReasons.contains row.2.reason) &&
      before last row.1
  let page := (found.insertionSort fun first second => before first.1 second.1).take 100
  page.map fun row =>
    { rootID := row.1.1, attempt := row.1.2, serviceID := row.2.serviceID, startedAt := row.2.startedAt
      model := row.2.model, usage := row.2.usage, price := row.2.price, reason := row.2.reason }

/-- The record that stands for an entry whose request may be gone. -/
def ledgerRecord (rootID : String) (attempt startedAt : Nat) (serviceID model : String) (usage : Option Usage) :
    RequestRecord Usage :=
  { id := rootID, parentRequestID := none, attemptIndex := attempt, startedAt, status := .succeeded
    requestedModel := some model, serviceID := some serviceID, localAccessTokenID := none, usage
    recovery := none, selected := none }

variable [DecidableEq Usage]

/-- One entry of a page is priced: at its own price, or at one of the catalog. -/
def Store.priceUnpriced (store : Store Usage) (library : Library Usage) (now : Nat) (candidate : Candidate Usage) :
    Option (Store Usage) :=
  let record := ledgerRecord candidate.rootID candidate.attempt candidate.startedAt candidate.serviceID candidate.model
    candidate.usage
  match (if candidate.reason = "missing_price" then none else candidate.price), store.ledger.lookup candidate.key with
  | none, _ => store.recordBilling library now record true
  | some _, none => some store
  | some price, some entry =>
    let same := entry.terminal && entry.reason = candidate.reason
    match library.evaluate price.expression candidate.usage candidate.startedAt with
    | .error reason =>
      if same then some (store.putEntry candidate.key { entry with reason }) else some store
    | .ok value =>
      if same && entry.price = some price && entry.usage = candidate.usage then
        some (store.putEntry candidate.key
          { entry with amountUSD := value.amountUSD, tier := value.tier, reason := "priced", revalued := true })
      else some store

def Store.backfillRecords (store : Store Usage) (serviceID : String) : List (RequestRecord Usage) :=
  (store.records.entries.map (·.2)).filter (fun record =>
    record.serviceID = some serviceID && record.status ≠ .pending && record.status ≠ .blocked &&
      record.selected ≠ some claudeCLI) |>.map fun record => { record with selected := none }

def Store.backfillEntries (store : Store Usage) (serviceID : String) : List (RequestRecord Usage) :=
  (store.ledger.entries.filter fun row =>
    row.2.serviceID = serviceID && row.2.terminal && row.2.reason ≠ "priced").map fun row =>
      ledgerRecord row.1.1 row.1.2 row.2.startedAt serviceID row.2.model row.2.usage

/-- A revaluation under way, and what it does next. -/
inductive Revaluation (Usage : Type) where
  /-- `PriceUnpriced` settles what ended without usage. -/
  | settling
  /-- It reads the version of the latest catalog. -/
  | choosing
  /-- It reads the next page. -/
  | paging (version : String) (last : String × Nat)
  | pricing (version : String) (last : String × Nat) (page : List (Candidate Usage))
  | listing (serviceID : String)
  /-- It reads the entries of the service. -/
  | listed (serviceID : String) (records : List (RequestRecord Usage))
  | backfilling (records : List (RequestRecord Usage))

structure World (Usage : Type) where
  store : Store Usage
  tasks : Nat → Option (Revaluation Usage)

inductive Act (Usage : Type) where
  /-- A live snapshot is stored. -/
  | upsert (record : RequestRecord Usage) (now : Nat)
  /-- An earlier attempt is moved into a child record. -/
  | insert (record : RequestRecord Usage) (now : Nat)
  | recover
  | priceUnpriced (task : Nat)
  | backfillPricing (task : Nat) (serviceID : String)
  /-- The next transaction of a revaluation. -/
  | run (task : Nat) (now : Nat)
  /-- A revaluation fails or is cancelled. -/
  | stop (task : Nat)
  | savePricingCatalog (version : String) (activatedAt : Nat) (prices : List Price)
  | savePricingConfig (serviceID : String) (config : Config)
  /-- A service is changed, such as by a login with another account. -/
  | editService (serviceID : String) (service : Service)

def World.set (world : World Usage) (store : Store Usage) (t : Nat) (task : Option (Revaluation Usage)) : World Usage :=
  { store, tasks := update world.tasks t task }

/-- The next transaction of a task. One that fails ends the task. -/
def World.run (world : World Usage) (library : Library Usage) (t now : Nat) : Revaluation Usage → World Usage
  | .settling => world.set world.store.settleUnused t (some .choosing)
  | .choosing =>
    let version := world.store.activeVersion none
    world.set world.store t (if version = "" then none else some (.paging version ("", 0)))
  | .paging version last =>
    match world.store.unpricedPage version last with
    | [] => world.set world.store t none
    | page => world.set world.store t (some (.pricing version last page))
  | .pricing version last [] => world.set world.store t (some (.paging version last))
  | .pricing version _ (candidate :: page) =>
    match world.store.priceUnpriced library now candidate with
    | some store => world.set store t (some (.pricing version candidate.key page))
    | none => world.set world.store t none
  | .listing serviceID => world.set world.store t (some (.listed serviceID (world.store.backfillRecords serviceID)))
  | .listed serviceID records =>
    world.set world.store t (some (.backfilling (records ++ world.store.backfillEntries serviceID)))
  | .backfilling [] => world.set world.store t none
  | .backfilling (record :: records) =>
    match world.store.recordBilling library now record true with
    | some store => world.set store t (some (.backfilling records))
    | none => world.set world.store t none

/-- A transaction that fails changes nothing. -/
def World.commit (world : World Usage) (store : Option (Store Usage)) : World Usage :=
  { world with store := store.getD world.store }

def World.step (library : Library Usage) (world : World Usage) : Act Usage → Option (World Usage)
  | .upsert record now => some (world.commit (world.store.UpsertRequestRecord library now record))
  | .insert record now => some (world.commit (world.store.InsertRequestRecord library now record))
  | .recover => some { world with store := world.store.RecoverPendingRequestRecords library }
  | .priceUnpriced t => if (world.tasks t).isNone then some (world.set world.store t (some .settling)) else none
  | .backfillPricing t serviceID =>
    if (world.tasks t).isNone && (world.store.services.lookup serviceID).isSome then
      some (world.set world.store t (some (.listing serviceID)))
    else none
  | .run t now => (world.tasks t).map (world.run library t now)
  | .stop t => some (world.set world.store t none)
  | .savePricingCatalog version activatedAt prices =>
    let store := world.store
    let versions := if (store.versions.lookup version).isSome then store.versions
      else store.versions.insert version activatedAt
    -- A rate that is there already stays.
    let rates := prices.foldl (fun rates price =>
      if rates.any fun rate => rate.version = version && rate.price.provider = price.provider &&
        rate.price.model = price.model
      then rates else rates ++ [{ version, price }]) store.rates
    some { world with store := { store with versions, rates } }
  | .savePricingConfig serviceID config =>
    if (world.store.services.lookup serviceID).isSome then
      some { world with store := { world.store with configs := world.store.configs.insert serviceID config } }
    else none
  | .editService serviceID service =>
    if (world.store.services.lookup serviceID).isSome then
      some { world with store := { world.store with services := world.store.services.insert serviceID service } }
    else none

/-- Services are set up, and nothing was recorded yet. -/
def start (services : Table String Service) : World Usage :=
  { store := { services, configs := ∅, versions := ∅, rates := [], records := ∅, ledger := ∅ }, tasks := fun _ => none }

end

end AstrLink.Billing
