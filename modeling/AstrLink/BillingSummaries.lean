import Mathlib.Data.List.Sort
import AstrLink.Amounts
import AstrLink.KeyRings
import AstrLink.Tables

/-!
The summary of the billing ledger over a range of time. One loop counts each entry in the whole and in the
groups of its model, its service and perhaps its access token. Times are nanoseconds since the zero time.
-/
namespace AstrLink.BillingSummaries
open Amounts Tables
open KeyRings (textLe)

/-- What the summary reads of a row of `billing_ledger`. -/
structure LedgerEntry where
  rootID : Text
  serviceID : Text
  accountKey : Text
  model : Text
  /-- `$.provider` of the price, empty without one -/
  provider : Text
  startedAt : Nat
  localAccessTokenID : Option Text
  amountUSD : Text
  reason : Text
  revalued : Bool

def pricedReason : Text := "priced".toList

def pendingReason : Text := "pending".toList

structure Counts where
  priced : Nat
  unpriced : Nat
  pending : Nat
  revalued : Nat

structure Amounts extends Counts where
  amountUSD : Text
  requests : Nat

structure Group where
  model : Text
  provider : Text
  amounts : Amounts

structure TokenGroup where
  tokenID : Text
  amounts : Amounts

structure ServiceGroup where
  serviceID : Text
  amounts : Amounts

structure Summary where
  start : Nat
  stop : Nat
  amounts : Amounts
  byModel : List Group
  byToken : List TokenGroup
  byService : List ServiceGroup

def Counts.zero : Counts := ⟨0, 0, 0, 0⟩

def Counts.add (counts : Counts) (entry : LedgerEntry) : Counts :=
  let counts :=
    if entry.reason = pricedReason then { counts with priced := counts.priced + 1 }
    else if entry.reason = pendingReason then { counts with pending := counts.pending + 1 }
    else { counts with unpriced := counts.unpriced + 1 }
  if entry.revalued then { counts with revalued := counts.revalued + 1 } else counts

/-- A set of roots takes one more. -/
def addRoot (roots : List Text) (root : Text) : List Text := if roots.any (· == root) then roots else roots ++ [root]

/-- The groups of a kind, and the amounts and roots that the loop keeps beside them. -/
structure Grouping (L : Type) where
  groups : Table Text (L × Counts)
  amounts : Table Text Rat
  roots : Table Text (List Text)

section
variable {L : Type}

def Grouping.none : Grouping L := ⟨∅, ∅, ∅⟩

def Grouping.opened (grouping : Grouping L) (key : Text) (label : L) : Grouping L :=
  match grouping.groups.lookup key with
  | some _ => grouping
  | .none =>
    { groups := grouping.groups.insert key (label, Counts.zero)
      amounts := grouping.amounts.insert key 0
      roots := grouping.roots.insert key [] }

def Grouping.withRoot (grouping : Grouping L) (key root : Text) : Grouping L :=
  { grouping with roots := grouping.roots.insert key (addRoot ((grouping.roots.lookup key).getD []) root) }

def Grouping.counted (grouping : Grouping L) (key : Text) (entry : LedgerEntry) : Grouping L :=
  match grouping.groups.lookup key with
  | some (label, counts) => { grouping with groups := grouping.groups.insert key (label, counts.add entry) }
  | .none => grouping

def Grouping.withAmount (grouping : Grouping L) (key : Text) (value : Rat) : Grouping L :=
  { grouping with amounts := grouping.amounts.insert key ((grouping.amounts.lookup key).getD 0 + value) }

/-- The groups with their figures, in the order in which the keys are read. -/
def Grouping.listed (arrange : List Text → List Text) (grouping : Grouping L) : List (L × Amounts) :=
  (arrange grouping.groups.keys).filterMap fun key => (grouping.groups.lookup key).map fun group =>
    (group.1,
      { toCounts := group.2
        amountUSD := floatString ((grouping.amounts.lookup key).getD 0)
        requests := ((grouping.roots.lookup key).getD []).length })

end

/-- What the loop has summed up so far. -/
structure Running where
  total : Rat
  roots : List Text
  counts : Counts
  models : Grouping (Text × Text)
  services : Grouping Text
  tokens : Grouping Text

def Running.start : Running := ⟨0, [], Counts.zero, Grouping.none, Grouping.none, Grouping.none⟩

def modelKey (entry : LedgerEntry) : Text := entry.provider ++ '/' :: entry.model

/-- The access token whose group takes the entry, if tokens are broken down and it still exists. -/
def tokenKey (current : Option (List Text)) (entry : LedgerEntry) : Option Text :=
  current.bind fun ids => entry.localAccessTokenID.filter fun id => ids.any (· == id)

section
-- What `SetString` makes of texts that are not plain decimals, such as those with a sign or an exponent.
variable (other : Text → Option Rat)

def readUSD (text : Text) : Option Rat := (setString text).or (other text)

def visit (current : Option (List Text)) (running : Running) (entry : LedgerEntry) : Except String Running :=
  let models := running.models.opened (modelKey entry) (entry.provider, entry.model)
  let services := (running.services.opened entry.serviceID entry.serviceID).withRoot entry.serviceID entry.rootID
  let tokens := match tokenKey current entry with
    | some id => (running.tokens.opened id id).withRoot id entry.rootID
    | .none => running.tokens
  let roots := addRoot running.roots entry.rootID
  let models := models.withRoot (modelKey entry) entry.rootID
  let counts := running.counts.add entry
  let models := models.counted (modelKey entry) entry
  let services := services.counted entry.serviceID entry
  let tokens := match tokenKey current entry with
    | some id => tokens.counted id entry
    | .none => tokens
  if entry.reason = pricedReason then
    match readUSD other entry.amountUSD with
    | .none => .error "invalid stored amount"
    | some value =>
      .ok
        { total := running.total + value
          roots
          counts
          models := models.withAmount (modelKey entry) value
          services := services.withAmount entry.serviceID value
          tokens := match tokenKey current entry with
            | some id => tokens.withAmount id value
            | .none => tokens }
  else .ok { total := running.total, roots, counts, models, services, tokens }

def decimal (text : Text) : Rat := (readUSD other text).getD 0

/-- The larger amount first, then the group with more root requests. -/
def amountOrder (first second : Amounts) : Ordering :=
  if decimal other second.amountUSD < decimal other first.amountUSD then .lt
  else if decimal other first.amountUSD < decimal other second.amountUSD then .gt
  else compare second.requests first.requests

def serviceOrder (first second : ServiceGroup) : Bool :=
  match amountOrder other first.amounts second.amounts with
  | .lt => true
  | .gt => false
  | .eq => textLe first.serviceID second.serviceID

def tokenOrder (first second : TokenGroup) : Bool :=
  match amountOrder other first.amounts second.amounts with
  | .lt => true
  | .gt => false
  | .eq => textLe first.tokenID second.tokenID

def modelOrder (first second : Group) : Bool :=
  if decimal other first.amounts.amountUSD ≠ decimal other second.amounts.amountUSD then
    decimal other second.amounts.amountUSD < decimal other first.amounts.amountUSD
  else textLe (first.provider ++ first.model) (second.provider ++ second.model)

/-- 367 days -/
def maxBillingRange : Nat := 31708800000000000

def selects (serviceID account : Text) (start stop : Nat) (entry : LedgerEntry) : Bool :=
  start ≤ entry.startedAt && entry.startedAt < stop && (serviceID == [] || entry.serviceID == serviceID) &&
    (account == [] || entry.accountKey == account)

/-- Maps are read in any order, which is `arrange`'s. -/
def BillingSummary (arrange : List Text → List Text) (ledger : List LedgerEntry) (serviceID account : Text) (start stop : Nat)
    (current : Option (List Text)) : Except String Summary :=
  if start = 0 ∨ stop ≤ start ∨ maxBillingRange < stop - start then .error "invalid billing range"
  else do
    let running ← (ledger.filter (selects serviceID account start stop)).foldlM (visit other current) Running.start
    .ok
      { start
        stop
        amounts := { toCounts := running.counts, amountUSD := floatString running.total, requests := running.roots.length }
        byModel := ((running.models.listed arrange).map fun group => ⟨group.1.2, group.1.1, group.2⟩).insertionSort
          fun first second => modelOrder other first second
        byToken := ((running.tokens.listed arrange).map fun group => ⟨group.1, group.2⟩).insertionSort
          fun first second => tokenOrder other first second
        byService := ((running.services.listed arrange).map fun group => ⟨group.1, group.2⟩).insertionSort
          fun first second => serviceOrder other first second }

end

end AstrLink.BillingSummaries
