import AstrLink.Normalizing
import Mathlib

/-!
The packages that services are routed in. A package stands where its earliest service is
stored, and its services are ordered by what their cached usage says of their quota. A time
is counted in nanoseconds from the zero time, which stands for an unknown one.
-/
namespace AstrLink.ServicePackages
open Function (update)
open List

inductive PackageStrategy where
  | auto
  | soonestReset
  | mostRemaining
deriving DecidableEq

structure RateLimitWindow where
  usedPercent : Rat
  resetAt : Option Int
  resetAfterSeconds : Option Int

structure SubscriptionUsage where
  planType : String
  primary : Option RateLimitWindow
  secondary : Option RateLimitWindow
  fetchedAt : Int
  limitReached : Option Bool
  allowed : Option Bool

structure Service where
  id : String
  /-- The provider of a subscription; none for any other kind of service. -/
  provider : Option String
  /-- The plan stored from an earlier read of the usage. -/
  planType : Option String

/-- The configured services, by their ids. -/
structure Services where
  all : List Service
  distinct : (all.map (·.id)).Nodup

/-- What the resolver reads at one instant, which is after the zero time. -/
structure Resolver where
  order : List String
  cachedUsage : String → Option SubscriptionUsage
  packageStrategies : String → Option PackageStrategy
  toLower : String → String
  now : Nat

def autoLowRemainingPercent : Rat := 10

structure AccountQuota where
  known : Bool
  exhausted : Bool
  remaining : Rat
  reset : Int

def windowReset (window : RateLimitWindow) (fetchedAt : Int) : Int :=
  match window.resetAt, window.resetAfterSeconds with
  | some reset, _ => reset
  | none, some seconds => if fetchedAt = 0 then 0 else fetchedAt + (seconds * 1000000000).bmod (2 ^ 64)
  | none, none => 0

/-- What is left in a window and when it resets, and whether it was reset since the snapshot. -/
def readWindow (fetchedAt : Int) (now : Nat) (window : RateLimitWindow) : Rat × Int × Bool :=
  let reset := windowReset window fetchedAt
  let rolled := reset ≠ 0 ∧ reset ≤ now
  (min (max (100 - if rolled then 0 else window.usedPercent) 0) 100, if rolled then 0 else reset, rolled)

/-- One turn of the loop of `quotaOf`, which also keeps whether a window was reset. -/
def bind (quota : AccountQuota × Bool) : Rat × Int × Bool → AccountQuota × Bool
  | (remaining, reset, rolled) =>
    (if !quota.1.known ∨ remaining < quota.1.remaining ∨ remaining = quota.1.remaining ∧ reset ≠ 0 ∧ quota.1.reset < reset
      then { quota.1 with known := true, remaining, reset } else quota.1, quota.2 || rolled)

def quotaOf (usage : Option SubscriptionUsage) (now : Nat) : AccountQuota :=
  match usage with
  | none => ⟨false, false, 0, 0⟩
  | some usage =>
    let windows := [usage.primary, usage.secondary].filterMap (·.map (readWindow usage.fetchedAt now))
    let (quota, rolled) := windows.foldl bind (⟨false, false, 0, 0⟩, false)
    let flagged := usage.limitReached = some true ∨ usage.allowed = some false
    { quota with exhausted := (flagged ∧ !rolled) ∨ (quota.known ∧ quota.remaining ≤ 0) }

namespace AccountQuota

def tier (strategy : PackageStrategy) (quota : AccountQuota) : Nat :=
  if quota.exhausted then 2
  else if !quota.known then 3
  else if strategy = .auto ∧ quota.remaining ≤ autoLowRemainingPercent then 1
  else 0

def resetsBefore (reset other : Int) : Bool :=
  if reset = 0 ∨ other = 0 then reset ≠ 0 ∧ other = 0 else reset < other

def before (strategy : PackageStrategy) (quota other : AccountQuota) : Bool :=
  let tier := quota.tier strategy
  if tier ≠ other.tier strategy then tier < other.tier strategy
  else if tier = 1 ∨ tier = 0 ∧ strategy = .mostRemaining then other.remaining < quota.remaining
  else if tier = 0 ∨ tier = 2 then resetsBefore quota.reset other.reset
  else false

/-- The tier of an account, and within it the criterion of the strategy, with an unknown reset last. -/
def rank (strategy : PackageStrategy) (quota : AccountQuota) : Nat ×ₗ WithTop Rat :=
  toLex (quota.tier strategy,
    match quota.tier strategy with
    | 0 => if strategy = .mostRemaining then ↑(-quota.remaining) else if quota.reset = 0 then ⊤ else ↑(quota.reset : Rat)
    | 1 => ↑(-quota.remaining)
    | 2 => if quota.reset = 0 then ⊤ else ↑(quota.reset : Rat)
    | _ => ⊤)

theorem resetsBefore_iff (reset other : Int) : resetsBefore reset other = true ↔
    (if reset = 0 then ⊤ else ((reset : Rat) : WithTop Rat)) < if other = 0 then ⊤ else ((other : Rat) : WithTop Rat) := by
  by_cases unknown : reset = 0
  · by_cases unknown' : other = 0 <;> simp [resetsBefore, unknown, unknown']
  · by_cases unknown' : other = 0
    · simp [resetsBefore, unknown, unknown']
    · rw [if_neg unknown, if_neg unknown', WithTop.coe_lt_coe, Int.cast_lt]
      simp [resetsBefore, unknown, unknown']

theorem before_iff (strategy : PackageStrategy) (quota other : AccountQuota) :
    before strategy quota other = true ↔ rank strategy quota < rank strategy other := by
  rw [before, rank, rank, Prod.Lex.toLex_lt_toLex]
  by_cases same : quota.tier strategy = other.tier strategy
  · have bound : other.tier strategy < 4 := by
      unfold tier
      split_ifs <;> decide
    rw [same]
    generalize other.tier strategy = tier at bound
    match tier, bound with
    | 0, _ =>
      by_cases most : strategy = .mostRemaining <;>
        simp [-WithTop.LinearOrderedAddCommGroup.coe_neg, most, resetsBefore_iff]
    | 1, _ => simp [-WithTop.LinearOrderedAddCommGroup.coe_neg]
    | 2, _ => simp [resetsBefore_iff]
    | 3, _ => simp
  · simp [same]

end AccountQuota

structure ServicePackage where
  id : String
  provider : Option String
  planType : Option String

structure PackageGroup where
  package : ServicePackage
  /-- The services themselves, whose quotas are read at the same instant. -/
  members : List Service

structure ListedPackage where
  package : ServicePackage
  strategy : PackageStrategy
  serviceIDs : List String

def packageProviderNames : List (String × String) :=
  [("openai_codex", "codex"), ("claude_code", "claude"), ("xai_grok", "grok"), ("antigravity", "antigravity"),
    ("github_copilot", "copilot"), ("factory_droid", "droid")]

def unknownPlanType : String := "unknown"

def trim (text : String) : String := String.ofList (Normalizing.trimSpace text.toList)

/-- `sort.SliceStable`, and `sort.Slice` by an order that is total. -/
def sortStable {α : Type} (less : α → α → Bool) (values : List α) : List α :=
  values.insertionSort fun a b => !less b a

def addMember (package : ServicePackage) (member : Service) : List PackageGroup → List PackageGroup
  | [] => [⟨package, [member]⟩]
  | group :: rest =>
    if group.package.id = package.id then { group with members := group.members ++ [member] } :: rest
    else group :: addMember package member rest

def positions (ids : List String) : (String → Nat) × Nat :=
  ids.foldl (fun (position, size) id => (update position id size, size + 1)) (fun _ => 0, 0)

namespace Resolver
variable (resolver : Resolver)

def normalizePlanType (planType : String) : String :=
  let key := resolver.toLower (trim planType)
  if key = "" then unknownPlanType else key

def servicePackageFor (service : Service) (planType : String) : ServicePackage :=
  match service.provider with
  | none => ⟨"service:" ++ service.id, none, none⟩
  | some provider =>
    let key := resolver.normalizePlanType planType
    ⟨"subscription:" ++ (packageProviderNames.lookup provider).getD provider ++ ":" ++ key, provider,
      if key = unknownPlanType then none else key⟩

def strategyForPackage (id : String) : PackageStrategy := (resolver.packageStrategies id).getD .auto

def usageOf (service : Service) : Option SubscriptionUsage :=
  if service.provider.isSome then resolver.cachedUsage service.id else none

def packagePlan (service : Service) : String :=
  match resolver.usageOf service with
  | some usage => if trim usage.planType ≠ "" then usage.planType else service.planType.getD ""
  | none => service.planType.getD ""

def packageOf (service : Service) : ServicePackage :=
  resolver.servicePackageFor service (resolver.packagePlan service)

def quota (service : Service) : AccountQuota := quotaOf (resolver.usageOf service) resolver.now

def storedPlace (id : String) : Nat :=
  let place := (resolver.order.zipIdx 1).foldl (fun place entry => update place entry.1 entry.2) (fun _ => 0) id
  if place = 0 then resolver.order.dedup.length + 1 else place

def storedOrder (a b : String) : Bool :=
  if resolver.storedPlace a ≠ resolver.storedPlace b then resolver.storedPlace a < resolver.storedPlace b else a < b

def groupPackages (services : Services) : List PackageGroup :=
  (sortStable (fun a b => resolver.storedOrder a.id b.id) services.all).foldl
    (fun groups service => addMember (resolver.packageOf service) service groups) []

/-- The members of a package as they are routed. -/
def sorted (group : PackageGroup) : List Service :=
  sortStable (fun a b => (resolver.quota a).before (resolver.strategyForPackage group.package.id) (resolver.quota b))
    group.members

def packageOrder (services : Services) (a b : String) : Bool :=
  let position := (positions (((resolver.groupPackages services).flatMap resolver.sorted).map (·.id))).1
  position a < position b

def servicePackages (services : Services) : List ListedPackage :=
  (resolver.groupPackages services).map fun group =>
    ⟨group.package, resolver.strategyForPackage group.package.id, group.members.map (·.id)⟩

/-- The service is stored before the other one. -/
def Stored (a b : Service) : Prop := resolver.storedOrder a.id b.id = true

def Together (a b : Service) : Prop := (resolver.packageOf a).id = (resolver.packageOf b).id

def rank (service : Service) : Nat ×ₗ WithTop Rat :=
  (resolver.quota service).rank (resolver.strategyForPackage (resolver.packageOf service).id)

/-- Within a package services go by rank, and packages as their earliest services are stored. -/
def Routed (services : Services) (a b : Service) : Prop :=
  resolver.Together a b ∧ (resolver.rank a < resolver.rank b ∨ resolver.rank a = resolver.rank b ∧ resolver.Stored a b) ∨
    ¬ resolver.Together a b ∧ ∃ first ∈ services.all, resolver.Together first a ∧
      ∀ other ∈ services.all, resolver.Together other b → resolver.Stored first other

end Resolver

section
variable {α β : Type} [LinearOrder β] {less : α → α → Bool} {key : α → β} {R : α → α → Prop}

theorem pairwise_insert (isKey : ∀ a b, less a b = true ↔ key a < key b) {value : α} {sorted : List α}
    (later : ∀ other ∈ sorted, R value other)
    (isSorted : sorted.Pairwise fun a b => key a < key b ∨ key a = key b ∧ R a b) :
    (sorted.orderedInsert (fun a b => !less b a) value).Pairwise fun a b => key a < key b ∨ key a = key b ∧ R a b := by
  induction sorted with
  | nil => simp
  | cons first rest ih =>
    obtain ⟨below, restSorted⟩ := pairwise_cons.mp isSorted
    have least : (!less first value) = true ↔ key value ≤ key first := by
      rw [Bool.not_eq_true', ← Bool.not_eq_true, isKey, not_lt]
    rw [orderedInsert]
    split
    case isTrue isLeast =>
      refine pairwise_cons.mpr ⟨fun other listed => ?_, isSorted⟩
      have between : key first ≤ key other := by
        rcases mem_cons.mp listed with rfl | listed
        · exact le_refl _
        · exact (below other listed).elim le_of_lt fun same => same.1.le
      exact ((least.mp isLeast).trans between).lt_or_eq.imp_right fun same => ⟨same, later other listed⟩
    case isFalse greater =>
      refine pairwise_cons.mpr ⟨fun other listed => ?_, ih (fun other listed => later other (mem_cons_of_mem _ listed)) restSorted⟩
      rcases (mem_orderedInsert ..).mp listed with rfl | listed
      · exact .inl (not_le.mp fun isLeast => greater (least.mpr isLeast))
      · exact below other listed

theorem pairwise_sortStable (isKey : ∀ a b, less a b = true ↔ key a < key b) {values : List α} (ordered : values.Pairwise R) :
    (sortStable less values).Pairwise fun a b => key a < key b ∨ key a = key b ∧ R a b := by
  induction values with
  | nil => exact .nil
  | cons value rest ih =>
    obtain ⟨later, ordered⟩ := pairwise_cons.mp ordered
    exact pairwise_insert isKey (fun other listed => later other ((perm_insertionSort _ _).mem_iff.mp listed)) (ih ordered)

end

theorem positions_pairwise {ids : List String} (distinct : ids.Nodup) :
    ids.Pairwise fun a b => (positions ids).1 a < (positions ids).1 b := by
  suffices (positions ids).2 = ids.length ∧ (∀ id ∈ ids, (positions ids).1 id < ids.length) ∧
      ids.Pairwise fun a b => (positions ids).1 a < (positions ids).1 b from this.2.2
  induction ids using List.reverseRecOn with
  | nil => simp [positions]
  | append_singleton ids id ih =>
    obtain ⟨distinct, -, fresh⟩ := nodup_append.mp distinct
    obtain ⟨size, bound, ordered⟩ := ih distinct
    have apart : ∀ other ∈ ids, other ≠ id := fun other listed => fresh other listed id (by simp)
    have now : positions (ids ++ [id]) = (update (positions ids).1 id ids.length, ids.length + 1) := by
      rw [positions, foldl_append, ← positions, foldl_cons, foldl_nil, ← size]
    rw [now]
    refine ⟨by simp, fun other listed => ?_, pairwise_append.mpr ⟨?_, by simp, fun other listed last isLast => ?_⟩⟩
    · rcases mem_append.mp listed with listed | isLast
      · simpa [apart other listed] using Nat.lt_succ_of_lt (bound other listed)
      · simp [mem_singleton.mp isLast]
    · refine ordered.imp_of_mem fun {a b} listed listed' before => ?_
      simpa [apart a listed, apart b listed'] using before
    · obtain rfl := mem_singleton.mp isLast
      simpa [apart other listed] using bound other listed

/-! ### The order of the packages -/

variable {resolver : Resolver} {groups : List PackageGroup} {group : PackageGroup} {package : ServicePackage} {member : Service}

theorem mem_addMember (listed : group ∈ addMember package member groups) :
    group ∈ groups ∨ group.package.id = package.id ∧ ∃ earlier, group.members = earlier ++ [member] ∧
      (earlier = [] ∨ ⟨group.package, earlier⟩ ∈ groups) := by
  induction groups with
  | nil => exact .inr (by simp_all [addMember])
  | cons first rest ih =>
    rw [addMember] at listed
    split at listed
    case isTrue same =>
      rcases mem_cons.mp listed with rfl | listed
      · exact .inr ⟨same, first.members, rfl, .inr (mem_cons_self ..)⟩
      · exact .inl (mem_cons_of_mem _ listed)
    case isFalse =>
      rcases mem_cons.mp listed with rfl | listed
      · exact .inl (mem_cons_self ..)
      · refine (ih listed).imp (mem_cons_of_mem _) (.imp_right fun ⟨earlier, members, before⟩ => ?_)
        exact ⟨earlier, members, before.imp_right (mem_cons_of_mem _)⟩

theorem addMember_perm : ((addMember package member groups).flatMap (·.members)).Perm (groups.flatMap (·.members) ++ [member]) := by
  induction groups with
  | nil => simp [addMember]
  | cons first rest ih =>
    rw [addMember]
    split
    · simpa using (perm_append_singleton member _).symm.append_left first.members
    · simpa using ih.append_left first.members

variable (resolver) in
/-- The packages of services that were added as they are stored. -/
structure Grouped (groups : List PackageGroup) : Prop where
  filled : ∀ group ∈ groups, group.members ≠ []
  own : ∀ group ∈ groups, ∀ member ∈ group.members, (resolver.packageOf member).id = group.package.id
  ordered : ∀ group ∈ groups, group.members.Pairwise resolver.Stored
  apart : groups.Pairwise fun group later => group.package.id ≠ later.package.id ∧
    ∃ first ∈ group.members, ∀ other ∈ later.members, resolver.Stored first other

theorem Grouped.addMember (grouped : Grouped resolver groups)
    (last : ∀ other ∈ groups.flatMap (·.members), resolver.Stored other member) :
    Grouped resolver (addMember (resolver.packageOf member) member groups) := by
  have isLast : ∀ group ∈ groups, ∀ other ∈ group.members, resolver.Stored other member :=
    fun group listed other inside => last other (mem_flatMap.mpr ⟨group, listed, inside⟩)
  refine ⟨fun group listed => ?_, fun group listed other inside => ?_, fun group listed => ?_, ?apart⟩
  · rcases mem_addMember listed with older | ⟨-, earlier, members, -⟩
    · exact grouped.filled group older
    · simp [members]
  · rcases mem_addMember listed with older | ⟨same, earlier, members, before⟩
    · exact grouped.own group older other inside
    · rw [members] at inside
      rcases mem_append.mp inside with inside | isMember
      · rcases before with rfl | before
        · cases inside
        · exact grouped.own _ before other inside
      · rw [mem_singleton.mp isMember, same]
  · rcases mem_addMember listed with older | ⟨-, earlier, members, before⟩
    · exact grouped.ordered group older
    · rw [members]
      rcases before with rfl | before
      · simp
      · refine pairwise_append.mpr ⟨grouped.ordered _ before, by simp, fun other inside new isNew => ?_⟩
        rw [mem_singleton.mp isNew]
        exact isLast _ before other inside
  case apart =>
    obtain ⟨filled, -, -, apart⟩ := grouped
    clear last
    induction groups with
    | nil => simp [ServicePackages.addMember]
    | cons first rest ih =>
      obtain ⟨before, restApart⟩ := pairwise_cons.mp apart
      rw [ServicePackages.addMember]
      split
      case isTrue =>
        refine pairwise_cons.mpr ⟨fun later listed => ?_, restApart⟩
        obtain ⟨other, earliest, inside, stored⟩ := before later listed
        exact ⟨other, earliest, mem_append_left _ inside, stored⟩
      case isFalse other =>
        refine pairwise_cons.mpr ⟨fun later listed => ?_, ih (fun group listed => isLast group (mem_cons_of_mem _ listed))
          (fun group listed => filled group (mem_cons_of_mem _ listed)) restApart⟩
        rcases mem_addMember listed with older | ⟨same, earlier, members, known⟩
        · exact before later older
        · refine ⟨same ▸ other, ?_⟩
          rcases known with rfl | known
          · obtain ⟨any, inside⟩ := exists_mem_of_ne_nil _ (filled first (mem_cons_self ..))
            exact ⟨any, inside, fun new isNew => by
              rw [members] at isNew
              rw [mem_singleton.mp isNew]
              exact isLast first (mem_cons_self ..) any inside⟩
          · obtain ⟨-, earliest, inside, stored⟩ := before _ known
            refine ⟨earliest, inside, fun new isNew => ?_⟩
            rw [members] at isNew
            rcases mem_append.mp isNew with isNew | isNew
            · exact stored new isNew
            · rw [mem_singleton.mp isNew]
              exact isLast first (mem_cons_self ..) earliest inside

def storedKey (resolver : Resolver) (service : Service) : Nat ×ₗ String := toLex (resolver.storedPlace service.id, service.id)

theorem stored_iff (a b : Service) : resolver.Stored a b ↔ storedKey resolver a < storedKey resolver b := by
  rw [Resolver.Stored, Resolver.storedOrder, storedKey, storedKey, Prod.Lex.toLex_lt_toLex]
  by_cases same : resolver.storedPlace a.id = resolver.storedPlace b.id <;> simp [same]

theorem groupPackages_grouped (resolver : Resolver) (services : Services) : Grouped resolver (resolver.groupPackages services) ∧
    ((resolver.groupPackages services).flatMap (·.members)).Perm services.all := by
  have stored : (sortStable (fun a b => resolver.storedOrder a.id b.id) services.all).Pairwise resolver.Stored := by
    have apart : services.all.Pairwise fun a b => a.id ≠ b.id := pairwise_map.mp services.distinct
    refine (pairwise_sortStable stored_iff apart).imp fun before => (stored_iff _ _).mpr (before.resolve_right fun same => ?_)
    exact same.2 (congrArg (fun key => (ofLex key).2) same.1)
  have sorted : (sortStable (fun a b => resolver.storedOrder a.id b.id) services.all).Perm services.all := perm_insertionSort _ _
  rw [Resolver.groupPackages]
  suffices ∀ seen : List Service, seen.Pairwise resolver.Stored →
      Grouped resolver (seen.foldl (fun groups service => addMember (resolver.packageOf service) service groups) []) ∧
      ((seen.foldl (fun groups service => addMember (resolver.packageOf service) service groups) []).flatMap (·.members)).Perm seen from
    ⟨(this _ stored).1, (this _ stored).2.trans sorted⟩
  intro seen
  induction seen using List.reverseRecOn with
  | nil => exact fun _ => ⟨⟨by simp, by simp, by simp, .nil⟩, .nil⟩
  | append_singleton seen service ih =>
    intro ordered
    obtain ⟨ordered, -, last⟩ := pairwise_append.mp ordered
    obtain ⟨grouped, perm⟩ := ih ordered
    rw [foldl_append, foldl_cons, foldl_nil]
    exact ⟨grouped.addMember fun other listed => last other (perm.mem_iff.mp listed) service (by simp),
      addMember_perm.trans (perm.append_right _)⟩

/-! ### The routing order -/

theorem Grouped.inside (grouped : Grouped resolver groups) (listed : group ∈ groups)
    (known : member ∈ groups.flatMap (·.members)) (same : (resolver.packageOf member).id = group.package.id) :
    member ∈ group.members := by
  obtain ⟨other, listed', inside⟩ := mem_flatMap.mp known
  have ids : (groups.map (·.package.id)).Nodup := pairwise_map.mpr (grouped.apart.imp fun apart => apart.1)
  obtain rfl := inj_on_of_nodup_map ids listed' listed ((grouped.own other listed' member inside).symm.trans same)
  exact inside

variable {services : Services}

theorem apart_routed : (resolver.groupPackages services).Pairwise fun group later =>
    ∀ a ∈ group.members, ∀ b ∈ later.members, resolver.Routed services a b := by
  obtain ⟨grouped, perm⟩ := groupPackages_grouped resolver services
  refine grouped.apart.imp_of_mem fun {group later} listed listed' apart a inside b inside' => ?_
  obtain ⟨differ, first, earliest, stored⟩ := apart
  have sameA := grouped.own group listed a inside
  have sameB := grouped.own later listed' b inside'
  exact .inr ⟨fun together => differ (sameA.symm.trans (together.trans sameB)), first,
    perm.mem_iff.mp (mem_flatMap.mpr ⟨group, listed, earliest⟩), (grouped.own group listed first earliest).trans sameA.symm,
    fun other isOther together => stored other (grouped.inside listed' (perm.mem_iff.mpr isOther) (together.trans sameB))⟩

theorem mem_sorted : member ∈ resolver.sorted group ↔ member ∈ group.members := (perm_insertionSort _ _).mem_iff

theorem routed_pairwise :
    ((resolver.groupPackages services).flatMap resolver.sorted).Pairwise (resolver.Routed services) := by
  obtain ⟨grouped, -⟩ := groupPackages_grouped resolver services
  refine pairwise_flatMap.mpr ⟨fun group listed => ?_, apart_routed.imp fun routed a inside b inside' =>
    routed a (mem_sorted.mp inside) b (mem_sorted.mp inside')⟩
  refine (pairwise_sortStable (fun a b => AccountQuota.before_iff _ (resolver.quota a) (resolver.quota b))
    (grouped.ordered group listed)).imp_of_mem fun {a b} inside inside' before => .inl ⟨?_, ?_⟩
  · exact (grouped.own group listed a (mem_sorted.mp inside)).trans (grouped.own group listed b (mem_sorted.mp inside')).symm
  · rw [Resolver.rank, Resolver.rank, grouped.own group listed a (mem_sorted.mp inside),
      grouped.own group listed b (mem_sorted.mp inside')]
    exact before

theorem stored_asymm {a b : Service} (before : resolver.Stored a b) : ¬ resolver.Stored b a := by
  rw [stored_iff] at before ⊢
  exact before.asymm

theorem routed_asymm {a b : Service} (before : resolver.Routed services a b) : ¬ resolver.Routed services b a := by
  rintro (⟨together, after⟩ | ⟨differ, first', isFirst', together', stored'⟩)
  · obtain ⟨-, before⟩ := before.resolve_right fun differ => differ.1 (Eq.symm together)
    rcases before with less | ⟨same, stored⟩ <;> rcases after with less' | ⟨same', stored'⟩
    · exact less.asymm less'
    · exact less.ne same'.symm
    · exact less'.ne same.symm
    · exact stored_asymm stored stored'
  · obtain ⟨-, first, isFirst, together, stored⟩ := before.resolve_left fun together => differ (Eq.symm together.1)
    exact stored_asymm (stored first' isFirst' together') (stored' first isFirst together)

theorem packageOrder_pairwise (resolver : Resolver) (services : Services) : ∃ routed : List Service, routed.Perm services.all ∧
    routed.Pairwise fun a b => resolver.packageOrder services a.id b.id = true ∧ resolver.Routed services a b := by
  obtain ⟨-, perm⟩ := groupPackages_grouped resolver services
  have routed : ((resolver.groupPackages services).flatMap resolver.sorted).Perm services.all :=
    (Perm.flatMap_left _ fun _ _ => perm_insertionSort _ _).trans perm
  have distinct := (routed.map (·.id)).nodup_iff.mpr services.distinct
  exact ⟨_, routed, ((pairwise_map.mp (positions_pairwise distinct)).imp decide_eq_true).and routed_pairwise⟩

theorem packageOrder_iff {a b : Service} (known : a ∈ services.all) (known' : b ∈ services.all) :
    resolver.packageOrder services a.id b.id = true ↔ resolver.Routed services a b := by
  obtain ⟨list, perm, order⟩ := packageOrder_pairwise resolver services
  have asymm : ∀ {a b : Service}, resolver.packageOrder services a.id b.id = true →
      ¬ resolver.packageOrder services b.id a.id = true := by
    intro a b before after
    simp only [Resolver.packageOrder, decide_eq_true_eq] at before after
    exact before.asymm after
  have agree : list.Pairwise fun a b => resolver.packageOrder services a.id b.id = true ↔ resolver.Routed services a b :=
    order.imp fun ⟨before, routed⟩ => iff_of_true before routed
  exact agree.forall_of_forall_of_flip
    (fun a _ => ⟨fun before => absurd before (asymm before), fun routed => absurd routed (routed_asymm routed)⟩)
    (order.imp fun ⟨before, routed⟩ => iff_of_false (asymm before) (routed_asymm routed))
    (perm.mem_iff.mpr known) (perm.mem_iff.mpr known')

theorem readWindow_reset (fetchedAt : Int) (now : Nat) (window : RateLimitWindow) :
    0 ≤ (readWindow fetchedAt now window).2.1 := by
  simp only [readWindow]
  split <;> omega

theorem bind_comm {one two : Rat × Int × Bool} (known : 0 ≤ one.2.1) (known' : 0 ≤ two.2.1) :
    bind (bind (⟨false, false, 0, 0⟩, false) one) two = bind (bind (⟨false, false, 0, 0⟩, false) two) one := by
  obtain ⟨remaining, reset, rolled⟩ := one
  obtain ⟨remaining', reset', rolled'⟩ := two
  simp only [bind]
  rcases lt_trichotomy remaining remaining' with less | rfl | more
  · simp [less, less.ne', less.not_gt, Bool.or_comm]
  · rcases lt_trichotomy reset reset' with less | rfl | more
    · simp [less, less.not_gt, Bool.or_comm, (known.trans_lt less).ne']
    · simp [Bool.or_comm]
    · simp [more, more.not_gt, Bool.or_comm, (known'.trans_lt more).ne']
  · simp [more, more.ne', more.not_gt, Bool.or_comm]

/-- Services are routed in a total order: packages as their earliest services are stored, services by their ranks, and
a package is listed as it is routed. -/
theorem routing_order (resolver : Resolver) (services : Services) :
    let before (a b : Service) := resolver.packageOrder services a.id b.id = true
    let listed := resolver.servicePackages services
    ((∀ a, ¬ before a a) ∧ (∀ a b c, before a b → before b c → before a c) ∧
      ∀ a ∈ services.all, ∀ b ∈ services.all, a ≠ b → before a b ∨ before b a) ∧
    (∀ a ∈ services.all, ∀ b ∈ services.all, before a b ↔ resolver.Routed services a b) ∧
    (∀ a ∈ services.all, ∀ b ∈ services.all, ∀ c ∈ services.all,
      before a b → before b c → resolver.Together a c → resolver.Together a b) ∧
    ((listed.flatMap (·.serviceIDs)).Perm (services.all.map (·.id)) ∧
      (∀ package ∈ listed, ∀ service ∈ services.all,
        service.id ∈ package.serviceIDs ↔ (resolver.packageOf service).id = package.package.id) ∧
      listed.Pairwise fun package later => ∀ a ∈ services.all, ∀ b ∈ services.all,
        a.id ∈ package.serviceIDs → b.id ∈ later.serviceIDs → before a b) ∧
    ∀ usage now, quotaOf (some { usage with primary := usage.secondary, secondary := usage.primary }) now =
      quotaOf (some usage) now := by
  intro before listed
  obtain ⟨grouped, perm⟩ := groupPackages_grouped resolver services
  have order : ∀ a ∈ services.all, ∀ b ∈ services.all, before a b ↔ resolver.Routed services a b :=
    fun a known b known' => packageOrder_iff known known'
  have members : ∀ group ∈ resolver.groupPackages services, ∀ service ∈ services.all,
      service.id ∈ group.members.map (·.id) ↔ (resolver.packageOf service).id = group.package.id := by
    intro group isGroup service known
    refine ⟨fun inside => ?_, fun same => mem_map_of_mem (grouped.inside isGroup (perm.mem_iff.mpr known) same)⟩
    obtain ⟨member, isMember, same⟩ := mem_map.mp inside
    obtain rfl := inj_on_of_nodup_map services.distinct (perm.mem_iff.mp (mem_flatMap.mpr ⟨group, isGroup, isMember⟩)) known same
    exact grouped.own group isGroup member isMember
  refine ⟨⟨fun a => ?_, fun a b c => ?_, ?total⟩, order, ?contiguous, ⟨?all, ?own, ?sequence⟩, fun usage now => ?_⟩
  · simp [before, Resolver.packageOrder]
  · simp only [before, Resolver.packageOrder, decide_eq_true_eq]
    exact lt_trans
  case total =>
    obtain ⟨list, perm, order⟩ := packageOrder_pairwise resolver services
    have either : list.Pairwise fun a b => a ≠ b → before a b ∨ before b a := order.imp fun before _ => .inl before.1
    exact fun a knownA b knownB => either.forall_of_forall_of_flip (fun a _ differ => absurd rfl differ)
      (order.imp fun before _ => .inr before.1) (perm.mem_iff.mpr knownA) (perm.mem_iff.mpr knownB)
  case contiguous =>
    intro a knownA b knownB c knownC first second together
    by_contra differ
    obtain ⟨-, leader, isLeader, ofA, stored⟩ := ((order a knownA b knownB).mp first).resolve_left fun same => differ same.1
    obtain ⟨-, leader', isLeader', ofB, stored'⟩ := ((order b knownB c knownC).mp second).resolve_left fun same =>
      differ (together.trans (Eq.symm same.1))
    exact stored_asymm (stored leader' isLeader' ofB) (stored' leader isLeader (ofA.trans together))
  case all => simpa [listed, Resolver.servicePackages, flatMap_map, map_flatMap] using perm.map (·.id)
  case own => simpa [listed, Resolver.servicePackages] using members
  case sequence =>
    refine pairwise_map.mpr (apart_routed.imp_of_mem fun {group later} isGroup isLater routed a knownA b knownB inside inside' =>
      (order a knownA b knownB).mpr (routed a ?_ b ?_))
    · exact grouped.inside isGroup (perm.mem_iff.mpr knownA) ((members group isGroup a knownA).mp inside)
    · exact grouped.inside isLater (perm.mem_iff.mpr knownB) ((members later isLater b knownB).mp inside')
  · obtain ⟨planType, primary, secondary, fetchedAt, limitReached, allowed⟩ := usage
    cases primary with
    | none => cases secondary <;> rfl
    | some window =>
      cases secondary with
      | none => rfl
      | some window' =>
        simp only [quotaOf, filterMap_cons, filterMap_nil, Option.map_some, foldl_cons, foldl_nil,
          bind_comm (readWindow_reset fetchedAt now window) (readWindow_reset fetchedAt now window')]

end AstrLink.ServicePackages
