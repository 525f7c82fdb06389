import AstrLink.CronFields

/-!
The parts of a call's context, scaled to the input that the call reported by largest remainder (`apportion`).
The shares are exact as long as no product leaves the 64-bit integers (`apportion_apportioned`).
-/
namespace AstrLink.ContextShares
open List
open CronFields (wrap wrap_of_fits)

/-- What is left of a product, by the place of its value. -/
structure Remainder where
  index : Nat
  rest : Int
  deriving DecidableEq

def sumInt64 (values : List Int) : Int := values.foldl (fun sum value => wrap (sum + value)) 0

/-- One more for each of the first places, while less than the target is assigned. -/
def handOut (target : Int) : List Remainder → Int → List Int → List Int
  | [], _, shares => shares
  | first :: rests, assigned, shares =>
    if assigned < target then handOut target rests (assigned + 1) (shares.modify first.index (· + 1)) else shares

def apportion (values : List Int) (target : Int) : List Int :=
  let sum := sumInt64 values
  if sum ≤ 0 ∨ target ≤ 0 then values.map fun _ => 0
  else
    let products := values.map fun value => wrap (value * target)
    let shares := products.map fun product => product.tdiv sum
    let rests := products.mapIdx fun index product => ⟨index, product.tmod sum⟩
    handOut target (rests.mergeSort fun left right => right.rest ≤ left.rest) (sumInt64 shares) shares

structure ContextParts where
  history : Int
  toolResults : Int
  tools : Int
  system : Int
  memory : Int
  other : Int
  deriving DecidableEq

def ContextParts.list (parts : ContextParts) : List Int :=
  [parts.history, parts.toolResults, parts.tools, parts.system, parts.memory, parts.other]

def ContextParts.total (parts : ContextParts) : Int := sumInt64 parts.list

inductive ContextItemKind where
  | rules
  | memory
  | skills
  | mcp
  deriving DecidableEq

structure ContextItem (R : Type) where
  kind : ContextItemKind
  tokens : Int
  /-- The names, the place and the digest of the item. -/
  rest : R

section
variable {R : Type}

/-- The tokens of the rules, memory and skills. -/
def carriedTokens (items : List (ContextItem R)) : List Int :=
  (items.filter fun item => item.kind ≠ .mcp).map ContextItem.tokens

def scaleItems (input total : Int) : List (ContextItem R) → List Int → List (ContextItem R)
  | [], _ => []
  | item :: items, carried =>
    if item.kind = .mcp then
      { item with tokens := (wrap (item.tokens * input)).tdiv total } :: scaleItems input total items carried
    else
      { item with tokens := carried.headD 0 } :: scaleItems input total items carried.tail

def scaleContext (parts : ContextParts) (items : List (ContextItem R)) (input : Int) :
    ContextParts × List (ContextItem R) :=
  let total := parts.total
  if total ≤ 0 then (parts, items)
  else
    match apportion parts.list input with
    | [history, toolResults, tools, system, memory, other] =>
      let scaled : ContextParts := ⟨history, toolResults, tools, system, memory, other⟩
      if items.isEmpty then (scaled, items)
      else (scaled, scaleItems input total items (apportion (carriedTokens items) scaled.memory))
    -- there are as many shares as parts
    | _ => (parts, items)

end

def total (values : List Int) : Int := values.foldr (· + ·) 0

@[simp] theorem total_nil : total [] = 0 := rfl
@[simp] theorem total_cons (value : Int) (values : List Int) : total (value :: values) = value + total values := rfl

theorem total_append (values more : List Int) : total (values ++ more) = total values + total more := by
  induction values with
  | nil => simp
  | cons value values ih => simp [ih, Int.add_assoc]

variable {values : List Int}

theorem total_perm {others : List Int} (perm : values.Perm others) : total values = total others := by
  induction perm with
  | nil => rfl
  | cons value _ ih => simp [ih]
  | swap first second rest => simp only [total_cons]; omega
  | trans _ _ one other => exact one.trans other

theorem total_nonneg (nonneg : ∀ value ∈ values, 0 ≤ value) : 0 ≤ total values := by
  induction values with
  | nil => exact Int.le_refl 0
  | cons value values ih =>
    have head := nonneg value mem_cons_self
    have tail := ih fun other listed => nonneg other (mem_cons_of_mem value listed)
    rw [total_cons]
    omega

theorem sumInt64_from (nonneg : ∀ value ∈ values, 0 ≤ value) (before : Int) (natural : 0 ≤ before)
    (fits : before + total values < 2 ^ 63) :
    values.foldl (fun sum value => wrap (sum + value)) before = before + total values := by
  induction values generalizing before with
  | nil => simp
  | cons value values ih =>
    have head := nonneg value mem_cons_self
    have tail : ∀ other ∈ values, 0 ≤ other := fun other listed => nonneg other (mem_cons_of_mem value listed)
    have rest := total_nonneg tail
    rw [total_cons] at fits
    rw [foldl_cons, wrap_of_fits (by omega) (by unfold CronFields.maxInt; omega), ih tail _ (by omega) (by omega),
      total_cons, Int.add_assoc]

theorem sumInt64_exact (nonneg : ∀ value ∈ values, 0 ≤ value) (fits : total values < 2 ^ 63) :
    sumInt64 values = total values := by
  have exact_sum := sumInt64_from nonneg 0 (Int.le_refl 0) (by omega)
  rwa [Int.zero_add] at exact_sum

def give (shares : List Int) (remainder : Remainder) : List Int := shares.modify remainder.index (· + 1)

theorem handOut_eq (target : Int) (rests : List Remainder) (assigned : Int) (shares : List Int) :
    handOut target rests assigned shares = (rests.take (target - assigned).toNat).foldl give shares := by
  induction rests generalizing assigned shares with
  | nil => simp [handOut]
  | cons first rests ih =>
    rw [handOut]
    split
    · rename_i short
      have more : (target - assigned).toNat = (target - (assigned + 1)).toNat + 1 := by omega
      rw [ih, more, take_succ_cons, foldl_cons, give]
    · rename_i enough
      have none_left : (target - assigned).toNat = 0 := by omega
      rw [none_left, take_zero, foldl_nil]

theorem give_get (given : List Remainder) (shares : List Int) (distinct : (given.map Remainder.index).Nodup) (index : Nat) :
    (given.foldl give shares)[index]? =
      shares[index]?.map fun share => if index ∈ given.map Remainder.index then share + 1 else share := by
  induction given generalizing shares with
  | nil => simp
  | cons first given ih =>
    rw [map_cons, nodup_cons] at distinct
    rw [foldl_cons, ih _ distinct.2, give, getElem?_modify]
    by_cases here : first.index = index
    · subst here
      cases shares[first.index]? <;> simp [distinct.1]
    · have elsewhere : index ≠ first.index := fun same => here same.symm
      simp [here, elsewhere]

theorem total_modify (shares : List Int) (index : Nat) (inside : index < shares.length) :
    total (shares.modify index (· + 1)) = total shares + 1 := by
  induction shares generalizing index with
  | nil => cases inside
  | cons share shares ih =>
    cases index with
    | zero => simp only [modify_zero_cons, total_cons]; omega
    | succ index =>
      rw [modify_succ_cons, total_cons, total_cons, ih index (by simpa using inside), Int.add_assoc]

theorem give_total (given : List Remainder) (shares : List Int) (inside : ∀ remainder ∈ given, remainder.index < shares.length) :
    total (given.foldl give shares) = total shares + given.length := by
  induction given generalizing shares with
  | nil => simp
  | cons first given ih =>
    have here := inside first mem_cons_self
    rw [foldl_cons, ih, give, total_modify _ _ here, length_cons]
    · push_cast
      omega
    · intro remainder listed
      rw [give, length_modify]
      exact inside remainder (mem_cons_of_mem first listed)

theorem give_length (given : List Remainder) (shares : List Int) : (given.foldl give shares).length = shares.length := by
  induction given generalizing shares with
  | nil => rfl
  | cons first given ih => rw [foldl_cons, ih, give, length_modify]

/-! ### Exact shares -/

/-- No sum and no product leaves 64 bits, or there is nothing to apportion. -/
def Fits (values : List Int) (target : Int) : Prop :=
  target = 0 ∨ total values < 2 ^ 63 ∧ ∀ value ∈ values, value * target < 2 ^ 63

def floors (values : List Int) (target : Int) : List Int := values.map fun value => value * target / total values

def remainders (values : List Int) (target : Int) : List Remainder :=
  values.mapIdx fun index value => ⟨index, value * target % total values⟩

def ranked (values : List Int) (target : Int) : List Remainder :=
  (remainders values target).mergeSort fun left right => right.rest ≤ left.rest

def missing (values : List Int) (target : Int) : Nat := (target - total (floors values target)).toNat

def given (values : List Int) (target : Int) : List Remainder := (ranked values target).take (missing values target)

theorem floors_remainders (values : List Int) (target sum : Int) :
    sum * total (values.map fun value => value * target / sum) + total (values.map fun value => value * target % sum) =
      total values * target := by
  induction values with
  | nil => simp
  | cons value values ih =>
    have split := Int.mul_ediv_add_emod (value * target) sum
    simp only [map_cons, total_cons, Int.mul_add, Int.add_mul]
    omega

theorem remainders_rest (values : List Int) (target : Int) :
    (remainders values target).map Remainder.rest = values.map fun value => value * target % total values := by
  exact ext_getElem (by simp [remainders]) (by simp [remainders])

theorem ranked_perm (values : List Int) (target : Int) : (ranked values target).Perm (remainders values target) :=
  mergeSort_perm _ _

theorem ranked_sorted (values : List Int) (target : Int) :
    (ranked values target).Pairwise fun left right => right.rest ≤ left.rest := by
  have sorted := @List.pairwise_mergeSort Remainder (fun left right => decide (right.rest ≤ left.rest))
    (fun _ _ _ => by simp only [decide_eq_true_eq]; omega)
    (fun _ _ => by simp only [Bool.or_eq_true, decide_eq_true_eq]; omega) (remainders values target)
  exact sorted.imp fun before => of_decide_eq_true before

variable {target : Int}

variable {remainder : Remainder}

theorem mem_remainders :
    remainder ∈ remainders values target ↔
      ∃ value, values[remainder.index]? = some value ∧ remainder.rest = value * target % total values := by
  rw [remainders, mem_iff_getElem?]
  constructor
  · rintro ⟨index, found⟩
    rw [getElem?_mapIdx, Option.map_eq_some_iff] at found
    obtain ⟨value, among, rfl⟩ := found
    exact ⟨value, among, rfl⟩
  · rintro ⟨value, among, rest⟩
    refine ⟨remainder.index, ?_⟩
    rw [getElem?_mapIdx, among, Option.map_some, ← rest]

theorem indexes_distinct (products : List Int) (rest : Int → Int) (count : Nat) :
    ((((products.mapIdx fun index product => (⟨index, rest product⟩ : Remainder)).mergeSort
      fun left right => right.rest ≤ left.rest).take count).map Remainder.index).Nodup := by
  have all : ((products.mapIdx fun index product => (⟨index, rest product⟩ : Remainder)).map Remainder.index) =
      List.range products.length := ext_getElem (by simp) (by simp)
  have distinct : (((products.mapIdx fun index product => (⟨index, rest product⟩ : Remainder)).mergeSort
      fun left right => right.rest ≤ left.rest).map Remainder.index).Nodup := by
    rw [((mergeSort_perm _ _).map _).nodup_iff, all]
    exact nodup_range
  exact distinct.sublist ((take_sublist _ _).map _)

theorem given_distinct (values : List Int) (target : Int) : ((given values target).map Remainder.index).Nodup :=
  indexes_distinct values (fun value => value * target % total values) _

theorem total_lt {rests : List Int} {bound : Int} (some_rest : rests ≠ []) (below : ∀ rest ∈ rests, rest < bound) :
    total rests < rests.length * bound := by
  induction rests with
  | nil => exact absurd rfl some_rest
  | cons first rests ih =>
    have head := below first mem_cons_self
    rw [total_cons, length_cons, Int.natCast_add, Int.add_mul]
    by_cases last : rests = []
    · subst last
      simpa using head
    · have tail := ih last fun rest listed => below rest (mem_cons_of_mem first listed)
      omega

theorem total_nonpos {rests : List Int} (none_left : ∀ rest ∈ rests, rest ≤ 0) : total rests ≤ 0 := by
  induction rests with
  | nil => exact Int.le_refl 0
  | cons first rests ih =>
    have head := none_left first mem_cons_self
    have tail := ih fun rest listed => none_left rest (mem_cons_of_mem first listed)
    rw [total_cons]
    omega

theorem missing_rests (values : List Int) (target : Int) :
    (target - total (floors values target)) * total values = total ((ranked values target).map Remainder.rest) := by
  rw [total_perm ((ranked_perm values target).map _), remainders_rest]
  have parts := floors_remainders values target (total values)
  rw [← floors, Int.mul_comm (total values) target] at parts
  rw [Int.sub_mul, Int.mul_comm (total (floors values target))]
  omega

theorem ranked_rests (some_value : 0 < total values) :
    ∀ remainder ∈ ranked values target, 0 ≤ remainder.rest ∧ remainder.rest < total values := by
  intro remainder listed
  obtain ⟨value, -, rest⟩ := mem_remainders.mp ((ranked_perm values target).subset listed)
  rw [rest]
  exact ⟨Int.emod_nonneg _ (by omega), Int.emod_lt_of_pos _ some_value⟩

theorem missing_exact (target : Int) (some_value : 0 < total values) :
    (missing values target : Int) = target - total (floors values target) ∧
      missing values target ≤ (ranked values target).length := by
  have rests := missing_rests values target
  have each := @ranked_rests values target some_value
  have nonneg : 0 ≤ total ((ranked values target).map Remainder.rest) := total_nonneg fun rest listed => by
    obtain ⟨remainder, among, rfl⟩ := mem_map.mp listed
    exact (each remainder among).1
  have natural : 0 ≤ target - total (floors values target) := by
    rw [← rests] at nonneg
    exact Int.nonneg_of_mul_nonneg_left nonneg some_value
  have same : (missing values target : Int) = target - total (floors values target) := Int.toNat_of_nonneg natural
  refine ⟨same, ?_⟩
  by_cases empty : ranked values target = []
  · rw [empty, map_nil, total_nil, ← same] at rests
    rcases Int.mul_eq_zero.mp rests with none_left | contra
    · omega
    · omega
  · have below := @total_lt ((ranked values target).map Remainder.rest) (total values) (by simpa using empty)
      fun rest listed => by
        obtain ⟨remainder, among, rfl⟩ := mem_map.mp listed
        exact (each remainder among).2
    rw [← rests, ← same, length_map] at below
    have fewer := Int.lt_of_mul_lt_mul_right below (Int.le_of_lt some_value)
    omega

theorem given_length (target : Int) (some_value : 0 < total values) :
    (given values target).length = missing values target := by
  rw [given, length_take]
  exact Nat.min_eq_left (missing_exact target some_value).2

theorem given_rest (some_value : 0 < total values) (listed : remainder ∈ given values target) :
    0 < remainder.rest := by
  refine Int.not_le.mp fun none_left => ?_
  have each := @ranked_rests values target some_value
  have parts : given values target ++ (ranked values target).drop (missing values target) = ranked values target :=
    take_append_drop _ _
  have sorted := ranked_sorted values target
  rw [← parts] at sorted
  have after := (pairwise_append.mp sorted).2.2 remainder listed
  have low : total (((ranked values target).drop (missing values target)).map Remainder.rest) ≤ 0 :=
    total_nonpos fun rest among => by
      obtain ⟨later, inside, rfl⟩ := mem_map.mp among
      exact Int.le_trans (after later inside) none_left
  have high := @total_lt ((given values target).map Remainder.rest) (total values)
    (by simpa using ne_nil_of_mem listed) fun rest among => by
      obtain ⟨other, inside, rfl⟩ := mem_map.mp among
      exact (each other (mem_of_mem_take inside)).2
  have whole := missing_rests values target
  rw [← parts, map_append, total_append, ← (missing_exact target some_value).1] at whole
  rw [length_map, given_length target some_value] at high
  omega

theorem given_before {other : Remainder} (listed : remainder ∈ given values target)
    (among : other ∈ ranked values target) (more : remainder.rest < other.rest) :
    other ∈ given values target := by
  have parts : given values target ++ (ranked values target).drop (missing values target) = ranked values target :=
    take_append_drop _ _
  rw [← parts] at among
  rcases mem_append.mp among with inside | late
  · exact inside
  · have sorted := ranked_sorted values target
    rw [← parts] at sorted
    have before := (pairwise_append.mp sorted).2.2 remainder listed other late
    omega

/-! ### The shares of fitting values -/

variable {value : Int}

theorem product_fits (nonneg : ∀ value ∈ values, 0 ≤ value) (positive : 0 ≤ target)
    (fits : ∀ value ∈ values, value * target < 2 ^ 63) (listed : value ∈ values) :
    wrap (value * target) = value * target :=
  wrap_of_fits (Int.mul_nonneg (nonneg value listed) positive)
    (by have := fits value listed; unfold CronFields.maxInt; omega)

theorem total_floors_le (target : Int) (some_value : 0 < total values) :
    total (floors values target) ≤ target := by
  have exact_missing := (missing_exact target some_value).1
  omega

theorem apportion_exact (nonneg : ∀ value ∈ values, 0 ≤ value) (some_value : 0 < total values) (positive : 0 < target)
    (small : target < 2 ^ 63) (sum : total values < 2 ^ 63) (fits : ∀ value ∈ values, value * target < 2 ^ 63) :
    apportion values target = (given values target).foldl give (floors values target) := by
  have products : (values.map fun value => wrap (value * target)) = values.map fun value => value * target :=
    map_congr_left fun value listed => product_fits nonneg (Int.le_of_lt positive) fits listed
  have quotients : ((values.map fun value => value * target).map fun product => product.tdiv (total values)) =
      floors values target := by
    rw [map_map]
    exact map_congr_left fun value listed =>
      Int.tdiv_eq_ediv_of_nonneg (Int.mul_nonneg (nonneg value listed) (Int.le_of_lt positive))
  have rests : ((values.map fun value => value * target).mapIdx fun index product =>
      (⟨index, product.tmod (total values)⟩ : Remainder)) = remainders values target := by
    refine ext_getElem (by simp [remainders]) fun index inside _ => ?_
    simp only [remainders, getElem_mapIdx, getElem_map, Remainder.mk.injEq, true_and]
    exact Int.tmod_eq_emod_of_nonneg
      (Int.mul_nonneg (nonneg _ (getElem_mem _)) (Int.le_of_lt positive))
  have floorsNonneg : ∀ share ∈ floors values target, 0 ≤ share := by
    intro share listed
    obtain ⟨value, among, rfl⟩ := mem_map.mp listed
    exact Int.ediv_nonneg (Int.mul_nonneg (nonneg value among) (Int.le_of_lt positive)) (Int.le_of_lt some_value)
  have below := total_floors_le target some_value
  unfold apportion
  dsimp only
  rw [sumInt64_exact nonneg sum, if_neg (by omega), products, quotients, rests,
    sumInt64_exact floorsNonneg (by omega), handOut_eq]
  rfl

structure Apportioned (values : List Int) (target : Int) (shares : List Int) : Prop where
  length : shares.length = values.length
  sum : total shares = target
  near : ∀ (index : Nat) (value share : Int), values[index]? = some value → shares[index]? = some share →
    share = value * target / total values ∨ share = value * target / total values + 1
  zero : ∀ (index : Nat) (share : Int), values[index]? = some 0 → shares[index]? = some share → share = 0
  ordered : ∀ (index other : Nat) (value larger share more : Int), values[index]? = some value → values[other]? = some larger →
    value < larger → shares[index]? = some share → shares[other]? = some more → share ≤ more

theorem share_eq {index : Nat} {share : Int} (found : values[index]? = some value)
    (shared : ((given values target).foldl give (floors values target))[index]? = some share) :
    share = value * target / total values +
      if index ∈ (given values target).map Remainder.index then 1 else 0 := by
  rw [give_get _ _ (given_distinct values target), floors, getElem?_map, found] at shared
  simp only [Option.map_some, Option.some.injEq] at shared
  rw [← shared]
  split <;> omega

theorem given_at {index : Nat} (listed : index ∈ (given values target).map Remainder.index)
    (found : values[index]? = some value) : ⟨index, value * target % total values⟩ ∈ given values target := by
  obtain ⟨remainder, among, rfl⟩ := mem_map.mp listed
  obtain ⟨other, found', rest⟩ := mem_remainders.mp ((ranked_perm values target).subset (mem_of_mem_take among))
  rw [found] at found'
  obtain rfl := Option.some.inj found'
  rw [← rest]
  exact among

theorem given_apportioned (some_value : 0 < total values) (positive : 0 < target) :
    Apportioned values target ((given values target).foldl give (floors values target)) := by
  refine ⟨?length, ?sum, ?near, ?zero, ?ordered⟩
  case length => rw [give_length, floors, length_map]
  case sum =>
    have inside : ∀ remainder ∈ given values target, remainder.index < (floors values target).length := by
      intro remainder listed
      obtain ⟨value, found, -⟩ := mem_remainders.mp ((ranked_perm values target).subset (mem_of_mem_take listed))
      rw [floors, length_map]
      exact (List.getElem?_eq_some_iff.mp found).1
    rw [give_total _ _ inside, given_length target some_value, (missing_exact target some_value).1]
    omega
  case near =>
    intro index value share found shared
    rw [share_eq found shared]
    split
    · exact .inr rfl
    · exact .inl (Int.add_zero _)
  case zero =>
    intro index share found shared
    rw [share_eq found shared, if_neg ?_]
    · simp
    · intro listed
      have rest := given_rest some_value (given_at listed found)
      simp at rest
  case ordered =>
    intro index other value larger share more found found' less shared shared'
    rw [share_eq found shared, share_eq found' shared']
    have products : value * target < larger * target := Int.mul_lt_mul_of_pos_right less positive
    have quotients : value * target / total values ≤ larger * target / total values :=
      Int.ediv_le_ediv some_value (Int.le_of_lt products)
    by_cases listed : index ∈ (given values target).map Remainder.index
    · rw [if_pos listed]
      rcases Int.lt_or_eq_of_le quotients with below | level
      · split <;> omega
      · -- the larger value has more left, so that its place comes first
        have one := given_at listed found
        have rests : value * target % total values < larger * target % total values := by
          have split := Int.mul_ediv_add_emod (value * target) (total values)
          have split' := Int.mul_ediv_add_emod (larger * target) (total values)
          rw [level] at split
          omega
        have among : (⟨other, larger * target % total values⟩ : Remainder) ∈ ranked values target :=
          (ranked_perm values target).symm.subset (mem_remainders.mpr ⟨larger, found', rfl⟩)
        have also_given := given_before one among rests
        rw [if_pos (mem_map.mpr ⟨_, also_given, rfl⟩)]
        omega
    · rw [if_neg listed]
      split <;> omega

theorem total_zeros (values : List Int) : total (values.map fun _ => 0) = 0 := by
  induction values with
  | nil => rfl
  | cons value values ih => rw [map_cons, total_cons, ih, Int.add_zero]

theorem apportion_none (values : List Int) : apportion values 0 = values.map fun _ => 0 := by
  unfold apportion
  exact if_pos (.inr (Int.le_refl 0))

theorem zeros_apportioned (values : List Int) : Apportioned values 0 (values.map fun _ => 0) := by
  have zero : ∀ (index : Nat) (share : Int), (values.map fun _ => (0 : Int))[index]? = some share → share = 0 := by
    intro index share shared
    rw [getElem?_map, Option.map_eq_some_iff] at shared
    obtain ⟨_, -, rfl⟩ := shared
    rfl
  refine ⟨length_map _, total_zeros values, ?_, fun index share _ => zero index share, ?_⟩
  · intro index value share _ shared
    exact .inl (by rw [zero index share shared]; simp)
  · intro index other value larger share more _ _ _ shared shared'
    have one := zero index share shared
    have two := zero other more shared'
    omega

theorem total_pos (some_value : 0 < total values) : ∃ value ∈ values, 0 < value := by
  refine Decidable.byContradiction fun none_left => ?_
  have low := total_nonpos fun value listed => Int.not_lt.mp fun positive => none_left ⟨value, listed, positive⟩
  omega

theorem apportion_apportioned (nonneg : ∀ value ∈ values, 0 ≤ value) (some_value : 0 < total values)
    (positive : 0 ≤ target) (fits : Fits values target) :
    Apportioned values target (apportion values target) := by
  rcases Int.lt_or_eq_of_le positive with positive | rfl
  · obtain none_left | ⟨sum, products⟩ := fits
    · omega
    · obtain ⟨value, listed, natural⟩ := total_pos some_value
      have small : target ≤ value * target := by
        have scaled := Int.mul_le_mul_of_nonneg_right (show (1 : Int) ≤ value from natural) (Int.le_of_lt positive)
        rwa [Int.one_mul] at scaled
      have bound := products value listed
      rw [apportion_exact nonneg some_value positive (by omega) sum products]
      exact given_apportioned some_value positive
  · rw [apportion_none]
    exact zeros_apportioned values

theorem apportion_le (positive : 0 < target) (some_value : 0 < sumInt64 values) {index : Nat} {share : Int}
    (found : values[index]? = some value) (shared : (apportion values target)[index]? = some share) :
    share ≤ (wrap (value * target)).tdiv (sumInt64 values) + 1 := by
  unfold apportion at shared
  dsimp only at shared
  rw [if_neg (by omega), handOut_eq, give_get] at shared
  · rw [getElem?_map, getElem?_map, found] at shared
    simp only [Option.map_some, Option.some.injEq] at shared
    rw [← shared]
    split <;> omega
  · exact indexes_distinct _ (fun product => product.tmod (sumInt64 values)) _

theorem wrap_lower {product : Int} (large : 2 ^ 63 ≤ product) : wrap product ≤ product - 2 ^ 64 := by
  unfold CronFields.wrap
  omega

theorem product_small (nonneg : ∀ value ∈ values, 0 ≤ value) (some_value : 0 < total values)
    (modest : total values ≤ 2 ^ 62) (positive : 0 < target)
    (apportioned : Apportioned values target (apportion values target)) (listed : value ∈ values) :
    value * target < 2 ^ 63 := by
  refine Int.not_le.mp fun large => ?_
  have sum := sumInt64_exact nonneg (by omega)
  obtain ⟨index, found⟩ := mem_iff_getElem?.mp listed
  have inside : index < (apportion values target).length := by
    rw [apportioned.length]
    exact (List.getElem?_eq_some_iff.mp found).1
  have shared := getElem?_eq_getElem inside
  have high := apportion_le positive (by rw [sum]; exact some_value) found shared
  have held := wrap_lower large
  rw [sum] at high
  have low : value * target / total values ≤ (apportion values target)[index] := by
    rcases apportioned.near index value _ found shared with same | same <;> omega
  -- the quotient of what is held is at least two below that of the product
  rcases Int.lt_or_le (wrap (value * target)) 0 with below | natural
  · have mirrored : 0 ≤ (-wrap (value * target)).tdiv (total values) :=
      Int.tdiv_nonneg (by omega) (Int.le_of_lt some_value)
    rw [Int.neg_tdiv] at mirrored
    have two : 2 ≤ value * target / total values := (Int.le_ediv_iff_mul_le some_value).mpr (by omega)
    omega
  · rw [Int.tdiv_eq_ediv_of_nonneg natural] at high
    have two : wrap (value * target) / total values + 2 ≤ value * target / total values := by
      have held_part := Int.ediv_mul_le (wrap (value * target)) (show total values ≠ 0 by omega)
      rw [Int.le_ediv_iff_mul_le some_value, Int.add_mul]
      omega
    omega

section
variable {R : Type}

theorem scaleItems_carried (input sum : Int) (items : List (ContextItem R)) (carried : List Int)
    (length : carried.length = (carriedTokens items).length) : carriedTokens (scaleItems input sum items carried) = carried := by
  induction items generalizing carried with
  | nil =>
    rw [scaleItems]
    exact (eq_nil_of_length_eq_zero length).symm
  | cons item items ih =>
    rw [scaleItems]
    by_cases tool : item.kind = .mcp
    · have tokens : carriedTokens (item :: items) = carriedTokens items := by simp [carriedTokens, tool]
      rw [tokens] at length
      rw [if_pos tool]
      simpa [carriedTokens, tool] using ih carried length
    · have tokens : carriedTokens (item :: items) = item.tokens :: carriedTokens items := by simp [carriedTokens, tool]
      rw [tokens] at length
      obtain ⟨share, rest, rfl⟩ := exists_cons_of_length_pos (l := carried) (by rw [length]; simp)
      rw [if_neg tool]
      have tail := ih rest (by simpa using length)
      simpa [carriedTokens, tool] using tail

/-- The scaled parts sum to the input, and the scaled rules, memory and skills to the scaled memory. -/
structure Scaled (items : List (ContextItem R)) (input : Int) (scaled : ContextParts × List (ContextItem R)) : Prop where
  parts : total scaled.1.list = input
  memory : 0 < total (carriedTokens items) → Fits (carriedTokens items) scaled.1.memory →
    total (carriedTokens scaled.2) = scaled.1.memory

theorem scaleContext_scaled {parts : ContextParts} {items : List (ContextItem R)} {input : Int}
    (nonneg : ∀ part ∈ parts.list, 0 ≤ part) (some_part : 0 < total parts.list) (positive : 0 < input)
    (fits : Fits parts.list input) (tokens : ∀ item ∈ items, 0 ≤ item.tokens) :
    Scaled items input (scaleContext parts items input) := by
  have apportioned := apportion_apportioned nonneg some_part (Int.le_of_lt positive) fits
  have sum : parts.total = total parts.list := by
    rcases fits with none_left | ⟨small, -⟩
    · omega
    · exact sumInt64_exact nonneg small
  obtain ⟨history, toolResults, tools, system, memory, other, shares⟩ :
      ∃ history toolResults tools system memory other,
        apportion parts.list input = [history, toolResults, tools, system, memory, other] := by
    match apportion parts.list input, apportioned.length with
    | [history, toolResults, tools, system, memory, other], _ => exact ⟨_, _, _, _, _, _, rfl⟩
  unfold scaleContext
  dsimp only
  rw [if_neg (by omega), shares]
  rw [shares] at apportioned
  dsimp only
  split
  · rename_i empty
    refine ⟨apportioned.sum, fun some_token => ?_⟩
    rw [List.isEmpty_iff.mp empty] at some_token
    exact absurd some_token (Int.lt_irrefl 0)
  · refine ⟨apportioned.sum, fun some_token fits => ?_⟩
    have carried : ∀ token ∈ carriedTokens items, 0 ≤ token := by
      intro token listed
      obtain ⟨item, among, rfl⟩ := mem_map.mp listed
      exact tokens item (mem_of_mem_filter among)
    have natural : 0 ≤ memory := by
      have floor := Int.ediv_nonneg (Int.mul_nonneg (nonneg parts.memory (by simp [ContextParts.list]))
        (Int.le_of_lt positive)) (Int.le_of_lt some_part)
      rcases apportioned.near 4 parts.memory memory rfl rfl with same | same <;> omega
    have shared := apportion_apportioned carried some_token natural fits
    rw [scaleItems_carried _ _ _ _ shared.length]
    exact shared.sum

end

/-- Estimates that fit are apportioned exactly, and those of a modest sum that do not fit are not. -/
theorem context_shares (R : Type) {values : List Int} {target : Int} (nonneg : ∀ value ∈ values, 0 ≤ value)
    (some_value : 0 < total values) (positive : 0 ≤ target) :
    (Fits values target → Apportioned values target (apportion values target)) ∧
      (total values ≤ 2 ^ 62 → Apportioned values target (apportion values target) → Fits values target) ∧
      ∀ (parts : ContextParts) (items : List (ContextItem R)), (∀ part ∈ parts.list, 0 ≤ part) → 0 < total parts.list →
        (∀ item ∈ items, 0 ≤ item.tokens) → 0 < target → Fits parts.list target →
          Scaled items target (scaleContext parts items target) := by
  refine ⟨apportion_apportioned nonneg some_value positive, ?_, ?_⟩
  · intro modest apportioned
    rcases Int.lt_or_eq_of_le positive with some_target | none_left
    · exact .inr ⟨by omega, fun value listed =>
        product_small nonneg some_value modest some_target apportioned listed⟩
    · exact .inl none_left.symm
  · intro parts items parts_nonneg some_part tokens some_target fits
    exact scaleContext_scaled parts_nonneg some_part some_target fits tokens

theorem context_shares_thirds : Apportioned [1, 1, 1] 10 (apportion [1, 1, 1] 10) :=
  (context_shares Unit (by decide) (by decide) (by decide)).1 (.inr ⟨by decide, by decide⟩)

/-- Two equal estimates, whose products with the reported input are held as zero. -/
theorem products_wrapped : ¬ ∀ (values : List Int) (target : Int), (∀ value ∈ values, 0 ≤ value) → 0 < total values →
    0 ≤ target → Apportioned values target (apportion values target) := by
  intro apportioned
  have small := product_small (by decide) (by decide) (by decide) (by decide)
    (apportioned [4, 4] (2 ^ 62) (by decide) (by decide) (by decide)) (mem_cons_self : (4 : Int) ∈ [4, 4])
  exact absurd small (by decide)

end AstrLink.ContextShares
