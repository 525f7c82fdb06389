import AstrLink.FencedRegister
import AstrLink.Tables
import Mathlib.Data.List.Sort

/-!
The store of channel bindings: which service a conversation last succeeded with. Each channel is a register
with fences (`channel_run`): a request that succeeded binds it, and releasing the session fences it.
-/
namespace AstrLink.Bindings
open Tables FencedRegister List

structure ChannelBindingScope where
  sessionID : String
  principal : String
  protocol : String
  model : String
deriving DecidableEq

/-- Times are instants; the fixed-width UTC texts the store keeps compare the same way. -/
structure ChannelBinding extends ChannelBindingScope where
  serviceID : String
  source : String
  requestID : String
  updatedAt : Nat
  expiresAt : Nat
deriving DecidableEq

structure ChannelBindingEvent extends ChannelBindingScope where
  atTime : Nat
  action : String
  reason : String
  source : String
  serviceID : String
  previousServiceID : String
  requestID : String

structure BindingRow where
  binding : ChannelBinding
  requestStartedAt : Nat

structure Store where
  channelBindings : Table ChannelBindingScope BindingRow
  releases : Table String Nat
  events : List (Nat × ChannelBindingEvent)
  lastEventID : Nat

def emptyStore : Store :=
  { channelBindings := ∅, releases := ∅, events := [], lastEventID := 0 }

def eventCap : Nat := 50000

def rowCap : Nat := 10000

def insertBindingEvent (store : Store) (event : ChannelBindingEvent) : Store :=
  let id := store.lastEventID + 1
  { store with
    events := (store.events ++ [(id, event)]).filter (fun row => ¬ row.1 + eventCap ≤ id)
    lastEventID := id }

def recordChannelBindingEvent (now : Nat) (store : Store) (event : ChannelBindingEvent) : Store :=
  insertBindingEvent store { event with atTime := now }

def getChannelBinding (store : Store) (scope : ChannelBindingScope) : Option ChannelBinding :=
  (store.channelBindings.lookup scope).map (·.binding)

def upsert (store : Store) (binding : ChannelBinding) (started : Nat) : Store :=
  { store with channelBindings :=
      store.channelBindings.insert binding.toChannelBindingScope ⟨binding, started⟩ }

/-- The event a new binding leaves, given the row it replaces. -/
def boundEvent (old : Option BindingRow) (binding : ChannelBinding) : Option ChannelBindingEvent :=
  let oldService := (old.map (·.binding.serviceID)).getD ""
  if oldService ≠ binding.serviceID ∨ (∀ row ∈ old, row.binding.expiresAt ≤ binding.updatedAt) then
    some {
      toChannelBindingScope := binding.toChannelBindingScope
      atTime := binding.updatedAt
      action := if oldService ≠ "" ∧ oldService ≠ binding.serviceID then "switched" else "bound"
      reason := "request_succeeded"
      source := binding.source
      serviceID := binding.serviceID
      previousServiceID := oldService
      requestID := binding.requestID }
  else none

/-- Deletes the rows past the cap, those that expire first. -/
def trim (store : Store) : Store :=
  let byExpiry := store.channelBindings.entries.insertionSort
    (fun one two => two.2.binding.expiresAt ≤ one.2.binding.expiresAt)
  { store with channelBindings :=
      (byExpiry.drop rowCap).foldl (fun table row => table.erase row.1) store.channelBindings }

def rememberChannelBinding (store : Store) (binding : ChannelBinding) (started : Nat) : Store :=
  if ∃ released ∈ store.releases.lookup binding.sessionID, started ≤ released then store
  else
    let old := store.channelBindings.lookup binding.toChannelBindingScope
    -- A late completion cannot replace the decision of a newer request.
    if ∃ row ∈ old, started ≤ row.requestStartedAt then store
    else
      let store := upsert store binding started
      let store := match boundEvent old binding with
        | some event => insertBindingEvent store event
        | none => store
      trim store

def releaseChannelBindings (now : Nat) (store : Store) (id : String) : Store :=
  let store := { store with
    releases := store.releases.insert id now
    channelBindings := keep (fun scope _ => scope.sessionID ≠ id) store.channelBindings }
  insertBindingEvent store {
    sessionID := id, principal := "", protocol := "", model := ""
    atTime := now, action := "released", reason := "user_requested"
    source := "", serviceID := "", previousServiceID := "", requestID := "" }

/-- The writes to the store; each holds its lock from reading the clock to the commit. -/
inductive StoreCall where
  | remember (binding : ChannelBinding) (started : Nat)
  | release (now : Nat) (id : String)
  | record (now : Nat) (event : ChannelBindingEvent)

def Store.apply (store : Store) : StoreCall → Store
  | .remember binding started => rememberChannelBinding store binding started
  | .release now id => releaseChannelBindings now store id
  | .record now event => recordChannelBindingEvent now store event

def runCalls (calls : List StoreCall) : Store :=
  calls.foldl Store.apply emptyStore

theorem runCalls_snoc (calls : List StoreCall) (call : StoreCall) :
    runCalls (calls ++ [call]) = (runCalls calls).apply call := by
  simp [runCalls]

/-- No binding pushes another one past the row cap. -/
def BelowCap (calls : List StoreCall) : Prop :=
  ∀ before binding started, before ++ [.remember binding started] <+: calls →
    (upsert (runCalls before) binding started).channelBindings.keys.length ≤ rowCap

variable (store : Store)

theorem mem_erased {rows : List (Sigma fun _ : ChannelBindingScope => BindingRow)} {table : Table _ BindingRow}
    {scope : ChannelBindingScope} (listed : scope ∈ (rows.foldl (fun table row => table.erase row.1) table).keys) :
    scope ∈ table.keys ∧ scope ∉ rows.map Sigma.fst := by
  induction rows generalizing table with
  | nil => exact ⟨listed, not_mem_nil⟩
  | cons row rest ih =>
    obtain ⟨left, other⟩ := ih listed
    rw [AList.keys_erase, table.keys_nodup.mem_erase_iff] at left
    exact ⟨left.2, fun met => (mem_cons.mp met).elim left.1 other⟩

theorem trim_length : (trim store).channelBindings.keys.length ≤ store.channelBindings.keys.length :=
  (subperm_of_subset (AList.keys_nodup _) fun _ listed => (mem_erased listed).1).length_le

theorem trim_capped : (trim store).channelBindings.keys.length ≤ rowCap := by
  let byExpiry := store.channelBindings.entries.insertionSort
    (fun one two => two.2.binding.expiresAt ≤ one.2.binding.expiresAt)
  have inside : (trim store).channelBindings.keys ⊆ (byExpiry.take rowCap).map Sigma.fst := by
    intro scope listed
    obtain ⟨left, kept⟩ := mem_erased listed
    have sorted : scope ∈ (byExpiry.take rowCap ++ byExpiry.drop rowCap).map Sigma.fst := by
      rw [take_append_drop]
      exact ((perm_insertionSort _ _).map _).mem_iff.mpr left
    rw [map_append, mem_append] at sorted
    exact sorted.resolve_right kept
  refine (subperm_of_subset (AList.keys_nodup _) inside).length_le.trans ?_
  rw [length_map, length_take]
  exact Nat.min_le_left _ _

theorem upsert_length (binding : ChannelBinding) (started : Nat) :
    (upsert store binding started).channelBindings.keys.length ≤ store.channelBindings.keys.length + 1 := by
  simp only [upsert, AList.keys_insert, length_cons]
  exact Nat.succ_le_succ length_erase_le

theorem apply_length (call : StoreCall) :
    (store.apply call).channelBindings.keys.length ≤ store.channelBindings.keys.length + 1 := by
  cases call with
  | remember binding started =>
    simp only [Store.apply, rememberChannelBinding]
    split_ifs
    · exact Nat.le_succ _
    · exact Nat.le_succ _
    · refine (trim_length _).trans ?_
      cases boundEvent (store.channelBindings.lookup binding.toChannelBindingScope) binding <;>
        exact upsert_length store binding started
  | release now id => exact (keep_length _ _).trans (Nat.le_succ _)
  | record now event => exact Nat.le_succ _

theorem run_length (calls : List StoreCall) : (runCalls calls).channelBindings.keys.length ≤ calls.length := by
  induction calls using List.reverseRecOn with
  | nil => exact Nat.le_refl _
  | append_singleton calls call ih =>
    rw [runCalls_snoc, length_append, length_singleton]
    exact (apply_length _ call).trans (Nat.succ_le_succ ih)

variable {calls : List StoreCall}

theorem belowCap_of_few (few : calls.length ≤ rowCap) : BelowCap calls := by
  intro before binding started inside
  have shorter := inside.length_le
  rw [length_append, length_singleton] at shorter
  exact (upsert_length _ binding started).trans ((Nat.succ_le_succ (run_length before)).trans (shorter.trans few))

def callOn (scope : ChannelBindingScope) : StoreCall → Option (Call Nat ChannelBinding)
  | .remember binding started =>
    if binding.toChannelBindingScope = scope then some (.arrive started binding) else none
  | .release now id => if id = scope.sessionID then some (.fence now) else none
  | .record _ _ => none

def callsOn (scope : ChannelBindingScope) (calls : List StoreCall) : List (Call Nat ChannelBinding) :=
  calls.filterMap (callOn scope)

def channel (store : Store) (scope : ChannelBindingScope) : Register Nat ChannelBinding :=
  { fence := store.releases.lookup scope.sessionID
    held := (store.channelBindings.lookup scope).map (fun row => (row.requestStartedAt, row.binding)) }

@[simp] theorem insertBindingEvent_bindings (event : ChannelBindingEvent) :
    (insertBindingEvent store event).channelBindings = store.channelBindings := rfl

@[simp] theorem insertBindingEvent_releases (event : ChannelBindingEvent) :
    (insertBindingEvent store event).releases = store.releases := rfl

@[simp] theorem channel_insertBindingEvent (event : ChannelBindingEvent) (scope : ChannelBindingScope) :
    channel (insertBindingEvent store event) scope = channel store scope := rfl

theorem trim_below {store : Store} (below : store.channelBindings.keys.length ≤ rowCap) : trim store = store := by
  have short : store.channelBindings.entries.length ≤ rowCap := by
    simpa [AList.keys, List.keys] using below
  simp [trim, drop_eq_nil_of_le, short]

theorem channel_remember {store : Store} {binding : ChannelBinding} {started : Nat}
    (below : (upsert store binding started).channelBindings.keys.length ≤ rowCap) (scope : ChannelBindingScope) :
    channel (rememberChannelBinding store binding started) scope =
      if binding.toChannelBindingScope = scope then (channel store scope).apply (.arrive started binding)
      else channel store scope := by
  have kept : ∀ event, trim (insertBindingEvent (upsert store binding started) event) =
      insertBindingEvent (upsert store binding started) event := fun event => trim_below below
  by_cases admitted : (channel store binding.toChannelBindingScope).Admits started
  · have pastFence := admitted.1
    have newer := admitted.2
    have stored : channel (rememberChannelBinding store binding started) scope =
        channel (upsert store binding started) scope := by
      have notReleased : ¬ ∃ released ∈ store.releases.lookup binding.sessionID, started ≤ released := by
        rintro ⟨released, isReleased, covered⟩
        exact absurd (pastFence released isReleased) (not_lt.mpr covered)
      have notStale : ¬ ∃ row ∈ store.channelBindings.lookup binding.toChannelBindingScope,
          started ≤ row.requestStartedAt := by
        rintro ⟨row, isRow, stale⟩
        refine absurd (newer (row.requestStartedAt, row.binding) ?_) (not_lt.mpr stale)
        exact Option.mem_map_of_mem _ isRow
      simp only [rememberChannelBinding, notReleased, notStale, if_false]
      cases boundEvent (store.channelBindings.lookup binding.toChannelBindingScope) binding with
      | none => simp only [trim_below below]
      | some event => simp only [kept, channel_insertBindingEvent]
    rw [stored]
    by_cases same : binding.toChannelBindingScope = scope
    · subst same
      rw [if_pos rfl, Register.apply, if_pos admitted]
      simp [channel, upsert]
    · have other : ¬ scope = binding.toChannelBindingScope := fun equal => same equal.symm
      simp [same, channel, upsert, other]
  · have refused : rememberChannelBinding store binding started = store := by
      by_cases released : ∃ released ∈ store.releases.lookup binding.sessionID, started ≤ released
      · simp only [rememberChannelBinding, released, if_true]
      · have stale : ∃ row ∈ store.channelBindings.lookup binding.toChannelBindingScope,
            started ≤ row.requestStartedAt := by
          by_contra newest
          refine admitted ⟨fun fence isFence => ?_, fun old isOld => ?_⟩
          · by_contra covered
            exact released ⟨fence, isFence, not_lt.mp covered⟩
          · obtain ⟨row, isRow, rfl⟩ := Option.mem_map.mp isOld
            by_contra covered
            exact newest ⟨row, isRow, not_lt.mp covered⟩
        simp only [rememberChannelBinding, released, stale, if_true, if_false]
    rw [refused]
    by_cases same : binding.toChannelBindingScope = scope
    · subst same
      simp [Register.apply, admitted]
    · simp [same]

theorem channel_release (now : Nat) (store : Store) (id : String) (scope : ChannelBindingScope) :
    channel (releaseChannelBindings now store id) scope =
      if id = scope.sessionID then (channel store scope).apply (.fence now) else channel store scope := by
  by_cases same : id = scope.sessionID
  · subst same
    cases found : store.channelBindings.lookup scope <;>
      simp [releaseChannelBindings, channel, Register.apply, lookup_keep, found, Option.filter]
  · have other : ¬ scope.sessionID = id := fun equal => same equal.symm
    cases found : store.channelBindings.lookup scope <;>
      simp [releaseChannelBindings, channel, lookup_keep, same, other, found]

theorem channel_run (below : BelowCap calls) (scope : ChannelBindingScope) :
    channel (runCalls calls) scope = run (callsOn scope calls) := by
  induction calls using List.reverseRecOn with
  | nil => rfl
  | append_singleton calls call ih =>
    have before := ih (fun earlier binding started part =>
      below earlier binding started (part.trans (prefix_append calls [call])))
    rw [runCalls_snoc, callsOn, filterMap_append]
    cases call with
    | remember binding started =>
      have fits := below calls binding started (prefix_refl _)
      rw [Store.apply, channel_remember fits, before]
      by_cases same : binding.toChannelBindingScope = scope
      · simp [callOn, same, run_snoc, callsOn]
      · simp [callOn, same, callsOn]
    | release now id =>
      rw [Store.apply, channel_release, before]
      by_cases same : id = scope.sessionID
      · simp [callOn, same, run_snoc, callsOn]
      · simp [callOn, same, callsOn]
    | record now event =>
      have unseen : [StoreCall.record now event].filterMap (callOn scope) = [] := rfl
      rw [Store.apply, recordChannelBindingEvent, channel_insertBindingEvent, before, unseen, append_nil, callsOn]

/-- Requests of the channel that started at one time are one request. -/
def DistinctStarts (scope : ChannelBindingScope) (calls : List StoreCall) : Prop :=
  ∀ one ∈ arrivals (callsOn scope calls), ∀ two ∈ arrivals (callsOn scope calls), one.1 = two.1 → one = two

instance (scope : ChannelBindingScope) (calls : List StoreCall) : Decidable (DistinctStarts scope calls) :=
  inferInstanceAs (Decidable (∀ one ∈ arrivals (callsOn scope calls), ∀ two ∈ arrivals (callsOn scope calls),
    one.1 = two.1 → one = two))

/-- The channel is bound by the newest-started request that started after every release, and by none that started
before one. -/
def KeepsNewest (scope : ChannelBindingScope) (calls : List StoreCall) : Prop :=
  ∀ part, part <+: calls →
    (∀ bound, (channel (runCalls part) scope).held = bound ↔ Newest (callsOn scope part) bound) ∧
    (∀ bound ∈ (channel (runCalls part) scope).held, ∀ released ∈ fences (callsOn scope part), released < bound.1)

variable {scope : ChannelBindingScope}

theorem callsOn_part {part : List StoreCall} (isPart : part <+: calls) :
    callsOn scope part <+: callsOn scope calls :=
  isPart.filterMap _

theorem arrivals_part {T V : Type} {part calls : List (Call T V)} (isPart : part <+: calls) {write : T × V}
    (listed : write ∈ arrivals part) : write ∈ arrivals calls :=
  (isPart.filterMap _).subset listed

theorem callsOn_snoc (scope : ChannelBindingScope) (calls : List StoreCall) (call : StoreCall) :
    callsOn scope (calls ++ [call]) = callsOn scope calls ++ (callOn scope call).toList := by
  cases found : callOn scope call <;> simp [callsOn, found]

theorem call_of_callsOn {seen : List (Call Nat ChannelBinding)} {next : Call Nat ChannelBinding}
    (isPart : seen ++ [next] <+: callsOn scope calls) :
    ∃ before call, before ++ [call] <+: calls ∧ callsOn scope before = seen ∧ callOn scope call = some next := by
  induction calls using List.reverseRecOn with
  | nil => exact absurd (prefix_nil.mp isPart) (by simp)
  | append_singleton calls call ih =>
    have earlier : seen ++ [next] <+: callsOn scope calls → _ := fun isPart =>
      have ⟨before, made, inside, same, isNext⟩ := ih isPart
      (⟨before, made, inside.trans (prefix_append _ _), same, isNext⟩ :
        ∃ before made, before ++ [made] <+: calls ++ [call] ∧ callsOn scope before = seen ∧
          callOn scope made = some next)
    rw [callsOn_snoc] at isPart
    cases found : callOn scope call with
    | none =>
      rw [found, Option.toList_none, append_nil] at isPart
      exact earlier isPart
    | some last =>
      rw [found, Option.toList_some] at isPart
      rcases prefix_concat_iff.mp isPart with whole | isPart
      · obtain ⟨same, isLast⟩ := append_inj' whole rfl
        exact ⟨calls, call, prefix_refl _, same.symm, by rw [found, singleton_inj.mp isLast]⟩
      · exact earlier isPart

theorem part_of_callsOn {seen : List (Call Nat ChannelBinding)} (isPart : seen <+: callsOn scope calls) :
    ∃ part, part <+: calls ∧ callsOn scope part = seen := by
  cases seen using List.reverseRecOn with
  | nil => exact ⟨[], nil_prefix, rfl⟩
  | append_singleton seen next =>
    obtain ⟨before, call, inside, same, isNext⟩ := call_of_callsOn isPart
    exact ⟨before ++ [call], inside, by rw [callsOn_snoc, same, isNext, Option.toList_some]⟩

/-- The channel keeps the newest success exactly if no release of its session reads a clock that has run back past a
    success or an earlier release that matters. -/
theorem binding_newest_iff (scope : ChannelBindingScope) (calls : List StoreCall) (below : BelowCap calls)
    (distinct : DistinctStarts scope calls) : KeepsNewest scope calls ↔ Steady (callsOn scope calls) := by
  have heldOf : ∀ part, part <+: calls → (channel (runCalls part) scope).held = (run (callsOn scope part)).held :=
    fun part isPart => by
      rw [channel_run (fun before binding started inside => below before binding started (inside.trans isPart)) scope]
  rw [← holds_newest_iff]
  constructor
  · intro keeps seen isSeen
    obtain ⟨part, isPart, rfl⟩ := part_of_callsOn isSeen
    exact ((keeps part isPart).1 _).mp (heldOf part isPart)
  · intro newest part isPart
    have isNewest := newest _ (callsOn_part isPart)
    rw [heldOf part isPart]
    refine ⟨fun bound => ⟨fun held => held ▸ isNewest, fun other => ?_⟩, fun bound held released isReleased => ?_⟩
    · refine isNewest.unique (fun one isOne two isTwo => ?_) other
      exact distinct one (arrivals_part (callsOn_part isPart) isOne) two (arrivals_part (callsOn_part isPart) isTwo)
    · rw [held] at isNewest
      exact isNewest.2.1 released isReleased

def chat : ChannelBindingScope :=
  { sessionID := "session_one", principal := "token_one", protocol := "chat", model := "model" }

def success (service request : String) (finished : Nat) : ChannelBinding :=
  { toChannelBindingScope := chat, serviceID := service, source := "fingerprint", requestID := request
    updatedAt := finished, expiresAt := finished + 60 }

/-- The second request finishes first, a release comes before a request it covers, and a later one binds again. -/
def lateArrivals : List StoreCall :=
  [.remember (success "service_b" "second" 25) 20, .remember (success "service_a" "first" 26) 10,
    .release 30 "session_one", .remember (success "service_c" "third" 35) 28,
    .remember (success "service_d" "fourth" 45) 40]

theorem binding_newest_late : KeepsNewest chat lateArrivals :=
  (binding_newest_iff chat lateArrivals (belowCap_of_few (by decide)) (by decide)).mpr (by decide)

/-- The clock is set back between two releases, so the second one lowers the fence of the first. -/
def clockSetBack : List StoreCall :=
  [.release 100 "session_one", .release 50 "session_one", .remember (success "service_a" "first" 60) 70]

theorem release_lowers_fence :
    BelowCap clockSetBack ∧ DistinctStarts chat clockSetBack ∧ ¬ KeepsNewest chat clockSetBack := by
  refine ⟨belowCap_of_few (by decide), by decide, fun keeps => ?_⟩
  have bound : (70, success "service_a" "first" 60) ∈ (channel (runCalls clockSetBack) chat).held := by decide
  have released : 100 ∈ fences (callsOn chat clockSetBack) := by decide
  exact absurd ((keeps clockSetBack (prefix_refl _)).2 _ bound 100 released) (by decide)

/-- The ids that the log keeps: the newest ones, as many as the cap allows. -/
def newestIds (last : Nat) : List Nat := (range' 1 last).filter fun id => ¬ id + eventCap ≤ last

theorem insertBindingEvent_ids {store : Store} (event : ChannelBindingEvent)
    (ids : store.events.map Prod.fst = newestIds store.lastEventID) :
    (insertBindingEvent store event).events.map Prod.fst = newestIds (store.lastEventID + 1) := by
  have older : (fun row : Nat × ChannelBindingEvent => decide ¬ row.1 + eventCap ≤ store.lastEventID + 1) =
      (fun id => decide ¬ id + eventCap ≤ store.lastEventID + 1) ∘ Prod.fst := rfl
  simp only [insertBindingEvent, older, ← filter_map, map_append, ids, newestIds]
  rw [range'_concat, filter_append, filter_append, filter_filter, Nat.one_mul, Nat.add_comm 1]
  refine congrArg (· ++ _) (filter_congr fun id _ => ?_)
  grind

/-- However many writes there were, only so many bindings are kept, and of the events just the newest. -/
theorem caps_kept (calls : List StoreCall) :
    (runCalls calls).channelBindings.keys.length ≤ rowCap ∧
      (runCalls calls).events.map Prod.fst = newestIds (runCalls calls).lastEventID ∧
      (runCalls calls).events.length ≤ eventCap := by
  have kept : (runCalls calls).channelBindings.keys.length ≤ rowCap ∧
      (runCalls calls).events.map Prod.fst = newestIds (runCalls calls).lastEventID := by
    induction calls using reverseRecOn with
    | nil => exact ⟨Nat.zero_le _, rfl⟩
    | append_singleton calls call ih =>
      rw [runCalls_snoc]
      obtain ⟨rows, ids⟩ := ih
      cases call with
      | remember binding started =>
        simp only [Store.apply, rememberChannelBinding]
        split_ifs
        · exact ⟨rows, ids⟩
        · exact ⟨rows, ids⟩
        · refine ⟨trim_capped _, ?_⟩
          cases boundEvent ((runCalls calls).channelBindings.lookup binding.toChannelBindingScope) binding with
          | none => exact ids
          | some event => exact insertBindingEvent_ids event ids
      | release now id => exact ⟨(keep_length _ _).trans rows, insertBindingEvent_ids _ ids⟩
      | record now event => exact ⟨rows, insertBindingEvent_ids _ ids⟩
  refine ⟨kept.1, kept.2, ?_⟩
  rw [← length_map Prod.fst, kept.2]
  have inside : newestIds (runCalls calls).lastEventID ⊆ range' ((runCalls calls).lastEventID + 1 - eventCap) eventCap := by
    intro id listed
    simp only [newestIds, mem_filter, mem_range'_1, decide_eq_true_eq] at listed ⊢
    omega
  exact (subperm_of_subset ((nodup_range').filter _) inside).length_le.trans_eq length_range'

end AstrLink.Bindings
