import Mathlib.Data.String.Basic
import AstrLink.Applying

/-!
The priority list of the services. It is not stored: a device sorts its services
by their positions. `apply_serviceOrder` says which list a device has once a
merged package is applied.
-/
namespace AstrLink.Priority
open Tables Package Merge Scope LocalStore Device Storing List
open Applying

def priority (merged : Document) : List String := merged.order.filter (fun id => (merged.get .service id).isSome)

private theorem orderedBefore_antisymm (store : Store) {left right : String} (first : orderedBefore store left right)
    (second : orderedBefore store right left) : left = right := by
  rcases first with before | ⟨tied, smaller⟩
  · rcases second with after | ⟨same, _⟩
    · exact absurd after (Nat.lt_asymm before)
    · omega
  · rcases second with after | ⟨_, larger⟩
    · omega
    · exact le_antisymm smaller larger

private instance (store : Store) : Std.Total (orderedBefore store) where
  total left right := by
    rcases Nat.lt_trichotomy (positionOf store left) (positionOf store right) with before | tied | after
    · exact .inl (.inl before)
    · rcases le_total left right with smaller | larger
      · exact .inl (.inr ⟨tied, smaller⟩)
      · exact .inr (.inr ⟨tied.symm, larger⟩)
    · exact .inr (.inl after)

private instance (store : Store) : IsTrans String (orderedBefore store) where
  trans := by
    rintro left middle right (before | ⟨tied, smaller⟩) (after | ⟨same, larger⟩)
    · exact .inl (before.trans after)
    · exact .inl (same ▸ before)
    · exact .inl (tied ▸ after)
    · exact .inr ⟨tied.trans same, smaller.trans larger⟩

variable {store : Store} {id : String}

theorem mem_serviceOrder : id ∈ serviceOrder store ↔ store.rows.lookup (.service, id) ≠ none := by
  rw [serviceOrder, mem_insertionSort, mem_idsOf]

variable {ids : List String}

theorem serviceOrder_unique (distinct : ids.Nodup) (listed : ∀ id, id ∈ ids ↔ store.rows.lookup (.service, id) ≠ none)
    (sorted : ids.Pairwise (orderedBefore store)) :
    serviceOrder store = ids := by
  have same : (idsOf store .service).Perm ids :=
    (perm_ext_iff_of_nodup (idsOf_nodup store .service) distinct).mpr (fun id => by rw [mem_idsOf, listed])
  exact Perm.eq_of_pairwise (fun _ _ _ _ => orderedBefore_antisymm store)
    (pairwise_insertionSort (orderedBefore store) (idsOf store .service)) sorted
    ((perm_insertionSort (orderedBefore store) (idsOf store .service)).trans same)

theorem serviceOrder_congr {first second : Store}
    (same : ∀ id, (first.rows.lookup (.service, id)).map Row.position = (second.rows.lookup (.service, id)).map Row.position) :
    serviceOrder first = serviceOrder second := by
  have positions : positionOf first = positionOf second := by
    funext id
    rw [positionOf, positionOf, same]
  have relation : orderedBefore first = orderedBefore second := by
    funext left right
    rw [orderedBefore, orderedBefore, positions]
  refine serviceOrder_unique ?_ (fun id => ?_) ?_
  · exact (perm_insertionSort _ _).nodup_iff.mpr (idsOf_nodup second .service)
  · rw [mem_serviceOrder]
    have presence := congrArg Option.isSome (same id)
    simp only [Option.isSome_map] at presence
    rw [← Option.isSome_iff_ne_none, ← Option.isSome_iff_ne_none, presence]
  · rw [relation]
    exact pairwise_insertionSort (orderedBefore second) (idsOf second .service)

/-! ### Writing the list -/

section
variable (clock : Clock)

theorem placeServices_spec (places : List (String × Nat)) (store : Store) (distinct : (places.map Prod.fst).Nodup) :
    (∀ id, id ∉ places.map Prod.fst →
      (places.foldl (placeService clock) store).rows.lookup (.service, id) = store.rows.lookup (.service, id)) ∧
    (∀ placed ∈ places, ∀ row, store.rows.lookup (.service, placed.1) = some row →
      (places.foldl (placeService clock) store).rows.lookup (.service, placed.1) = some { row with position := placed.2 }) := by
  have one : ∀ (placed : String × Nat) (store : Store) (id : String),
      (placeService clock store placed).rows.lookup (.service, id) =
        if id = placed.1 then (store.rows.lookup (.service, id)).map (fun row => { row with position := placed.2 })
        else store.rows.lookup (.service, id) := by
    intro placed store id
    unfold placeService
    split
    · rename_i missing
      by_cases same : id = placed.1
      · subst same
        simp [missing]
      · simp [same]
    · rename_i row found
      split
      · rename_i there
        by_cases same : id = placed.1
        · subst same
          simp [found, ← there]
        · simp [same]
      · rw [lookup_putRow]
        by_cases same : id = placed.1
        · subst same
          simp [found]
        · simp [same]
  induction places generalizing store with
  | nil => exact ⟨fun id _ => rfl, fun placed listed => absurd listed not_mem_nil⟩
  | cons head rest ih =>
    rw [map_cons, nodup_cons] at distinct
    obtain ⟨fresh, distinctRest⟩ := distinct
    obtain ⟨stays, moves⟩ := ih (placeService clock store head) distinctRest
    constructor
    · intro id unlisted
      rw [map_cons, mem_cons, not_or] at unlisted
      rw [foldl_cons, stays id unlisted.2, one, if_neg unlisted.1]
    · intro placed listed row found
      rw [foldl_cons]
      rcases mem_cons.mp listed with rfl | tail
      · rw [stays placed.1 fresh, one, if_pos rfl, found]
        rfl
      · have apart : placed.1 ≠ head.1 := fun same => fresh (same ▸ mem_map_of_mem tail)
        refine moves placed tail row ?_
        rw [one, if_neg apart, found]

private theorem appendUnseen_of_subset (seen ids : List String) (known : ∀ id ∈ ids, id ∈ seen) :
    appendUnseen seen ids = seen := by
  induction ids with
  | nil => rfl
  | cons head rest ih =>
    rw [appendUnseen, if_pos (known head (mem_cons_self ..))]
    exact ih (fun id listed => known id (mem_cons_of_mem head listed))

theorem appendUnseen_eq (seen ids : List String) :
    ∃ added, appendUnseen seen ids = seen ++ added ∧ (∀ id ∈ added, id ∈ ids ∧ id ∉ seen) ∧
      (seen.Nodup → (appendUnseen seen ids).Nodup) ∧ (∀ id ∈ ids, id ∈ seen ++ added) := by
  induction ids generalizing seen with
  | nil => exact ⟨[], by simp [appendUnseen]⟩
  | cons head rest ih =>
    rw [appendUnseen]
    by_cases known : head ∈ seen
    · rw [if_pos known]
      obtain ⟨added, joined, fresh, distinct, all⟩ := ih seen
      refine ⟨added, joined, fun id listed => ⟨mem_cons_of_mem head (fresh id listed).1, (fresh id listed).2⟩,
        distinct, fun id listed => ?_⟩
      rcases mem_cons.mp listed with rfl | tail
      · exact mem_append_left added known
      · exact all id tail
    · rw [if_neg known]
      obtain ⟨added, joined, fresh, distinct, all⟩ := ih (seen ++ [head])
      refine ⟨head :: added, by rw [joined, List.append_assoc, singleton_append], fun id listed => ?_, fun before => ?_,
        fun id listed => ?_⟩
      · rcases mem_cons.mp listed with rfl | tail
        · exact ⟨mem_cons_self .., known⟩
        · obtain ⟨member, unseen⟩ := fresh id tail
          exact ⟨mem_cons_of_mem head member, fun met => unseen (mem_append_left _ met)⟩
      · exact distinct (nodup_append.mpr ⟨before, nodup_singleton head, fun left met right named => by
          rw [mem_singleton] at named
          rintro rfl
          exact known (named ▸ met)⟩)
      · rcases mem_cons.mp listed with rfl | tail
        · simp
        · simpa using all id tail

theorem appendUnseen_nodup (distinct : ids.Nodup) : appendUnseen [] ids = ids := by
  have loop : ∀ (rest seen : List String), (seen ++ rest).Nodup → appendUnseen seen rest = seen ++ rest := by
    intro rest
    induction rest with
    | nil => exact fun seen _ => by simp [appendUnseen]
    | cons head rest ih =>
      intro seen whole
      have fresh : head ∉ seen := by
        intro met
        exact (nodup_append.mp whole).2.2 head met head (mem_cons_self ..) rfl
      rw [appendUnseen, if_neg fresh, ih (seen ++ [head]) (by simpa using whole)]
      simp
  simpa using loop ids [] (by simpa using distinct)

theorem serviceOrder_syncWriteOrder (distinct : ids.Nodup)
    (named : ∀ id, store.rows.lookup (.service, id) ≠ none → id ∈ ids) :
    serviceOrder (syncWriteOrder clock ids store) =
      ids.filter (fun id => (store.rows.lookup (.service, id)).isSome) := by
  have present : ∀ id, id ∈ ids.filter (fun id => (store.rows.lookup (.service, id)).isSome) ↔
      store.rows.lookup (.service, id) ≠ none := by
    intro id
    rw [mem_filter, Option.isSome_iff_ne_none]
    exact ⟨And.right, fun found => ⟨named id found, found⟩⟩
  have kept : ids.filter (· ∈ serviceOrder store) = ids.filter (fun id => (store.rows.lookup (.service, id)).isSome) := by
    refine filter_congr (fun id _ => ?_)
    rw [decide_eq_decide.mpr mem_serviceOrder, Bool.eq_iff_iff, decide_eq_true_iff, Option.isSome_iff_ne_none]
  unfold syncWriteOrder
  split
  · rename_i empty
    have none : ids = [] := List.isEmpty_iff.mp empty
    subst none
    refine serviceOrder_unique nodup_nil (fun id => ?_) Pairwise.nil
    exact ⟨fun listed => absurd listed not_mem_nil, fun found => absurd (named id found) not_mem_nil⟩
  · have placesFresh := distinct.filter (fun id => (store.rows.lookup (.service, id)).isSome)
    dsimp only
    rw [kept, appendUnseen_nodup placesFresh,
      appendUnseen_of_subset _ _ (fun id listed => (present id).mpr (mem_serviceOrder.mp listed))]
    generalize ids.filter (fun id => (store.rows.lookup (.service, id)).isSome) = placed at present placesFresh ⊢
    obtain ⟨stays, moves⟩ := placeServices_spec clock placed.zipIdx store (by simpa using placesFresh)
    have placedAt : ∀ (index : Nat) (inside : index < placed.length),
        ∃ row : Row, (placed.zipIdx.foldl (placeService clock) store).rows.lookup (.service, placed[index]) =
          some { row with position := index } := by
      intro index inside
      obtain ⟨row, found⟩ := Option.ne_none_iff_exists'.mp ((present placed[index]).mp (getElem_mem inside))
      have listed : (placed[index], index) ∈ placed.zipIdx := by
        rw [mk_mem_zipIdx_iff_getElem?]
        exact getElem?_eq_getElem inside
      exact ⟨row, moves (placed[index], index) listed row found⟩
    refine serviceOrder_unique placesFresh (fun id => ?_) ?_
    · by_cases listed : id ∈ placed
      · obtain ⟨index, inside, rfl⟩ := getElem_of_mem listed
        obtain ⟨row, found⟩ := placedAt index inside
        simp [listed, found]
      · rw [stays id (by simpa using listed)]
        exact present id
    · refine pairwise_iff_getElem.mpr (fun first second firstInside secondInside before => .inl ?_)
      obtain ⟨row, found⟩ := placedAt first firstInside
      obtain ⟨other, foundOther⟩ := placedAt second secondInside
      simp only [positionOf, found, foundOther, Option.map_some, Option.getD_some]
      exact before

end

section
variable {formats : Formats} {clock : Clock} {scope : SyncScope} {visit : List Key} {merged : Document} {store after : Store}

theorem serviceOrder_settleServices (order : List String) (store : Store) :
    serviceOrder (settleServices formats clock scope order store) =
      serviceOrder (if inScope scope .service then syncWriteOrder clock order store else store) := by
  unfold settleServices
  refine serviceOrder_congr (fun id => ?_)
  rw [(syncBindCredentialRefs_spec formats clock _).2.1 id, Option.map_map]
  rfl

theorem apply_serviceOrder_unselected (applied : apply formats clock scope visit merged store = (after, true))
    (unselected : inScope scope .service = false) : serviceOrder after = serviceOrder store := by
  obtain ⟨held, written, current, wrote, rfl⟩ := apply_done applied
  rw [serviceOrder_settleServices, unselected, if_neg Bool.false_ne_true]
  refine serviceOrder_congr (fun id => ?_)
  have writes : written.rows.lookup (.service, id) = store.rows.lookup (.service, id) := by
    refine (writtenKeys_spec true (fun strict => by cases strict) wrote).1.rows (.service, id) ?_
    rintro (⟨selected, _⟩ | ⟨_, token⟩)
    · rw [unselected] at selected
      cases selected
    · cases token
  have deletions : (deleteEntities clock merged held written).rows.lookup (.service, id) =
      written.rows.lookup (.service, id) := by
    refine (touches_deleteEntities clock merged held written).rows (.service, id) ?_
    rintro (⟨listed, _⟩ | ⟨cascading, _⟩)
    · have selected := ((mem_currentEntities current).mp listed).1
      rw [unselected] at selected
      cases selected
    · simp [cascades, subscription] at cascading
  rw [deletions, writes]

theorem apply_serviceOrder (applied : apply formats clock scope visit merged store = (after, true))
    (selected : inScope scope .service = true) (distinct : merged.order.Nodup)
    (named : ∀ id, merged.get .service id ≠ none → id ∈ merged.order)
    (holds : ∀ id, after.rows.lookup (.service, id) ≠ none ↔ merged.get .service id ≠ none) :
    serviceOrder after = priority merged := by
  obtain ⟨held, written, current, wrote, rfl⟩ := apply_done applied
  have present : ∀ id, (deleteEntities clock merged held written).rows.lookup (.service, id) ≠ none ↔
      merged.get .service id ≠ none := by
    intro id
    rw [← holds id]
    have document := congrArg Option.isSome ((settleServices_spec formats clock scope merged.order
      (deleteEntities clock merged held written)).2.1 id)
    simp only [Option.isSome_map] at document
    rw [← Option.isSome_iff_ne_none, ← Option.isSome_iff_ne_none, document]
  rw [serviceOrder_settleServices, if_pos selected,
    serviceOrder_syncWriteOrder clock distinct (fun id found => named id ((present id).mp found)), priority]
  refine filter_congr (fun id _ => ?_)
  rw [Bool.eq_iff_iff, Option.isSome_iff_ne_none, Option.isSome_iff_ne_none, present]

end

/-! ### The list of a merged package -/

/-- A package that lists exactly its own services. -/
structure Lists (document : Document) : Prop where
  distinct : document.order.Nodup
  services : ∀ id, id ∈ document.order ↔ (live (document.get .service id)).isSome

theorem appendUnseen_filter (distinct : ids.Nodup) :
    ∀ seen : List String, appendUnseen seen ids = seen ++ ids.filter fun id => !seen.contains id := by
  induction ids with
  | nil => intro seen; rw [appendUnseen, filter_nil, append_nil]
  | cons head rest ih =>
    intro seen
    obtain ⟨fresh, restDistinct⟩ := nodup_cons.mp distinct
    rw [appendUnseen]
    by_cases known : head ∈ seen
    · have contained : seen.contains head = true := contains_iff_mem.mpr known
      rw [if_pos known, ih restDistinct, filter_cons, contained, Bool.not_true, if_neg Bool.false_ne_true]
    · have missing : seen.contains head = false := by
        rw [Bool.eq_false_iff]
        exact fun contra => known (contains_iff_mem.mp contra)
      have same : (rest.filter fun id => !(seen ++ [head]).contains id) = rest.filter fun id => !seen.contains id := by
        refine filter_congr fun id listed => ?_
        have apart : id ≠ head := fun contra => fresh (contra ▸ listed)
        simp [apart]
      rw [if_neg known, ih restDistinct, same, filter_cons, missing, Bool.not_false, if_pos rfl,
        List.append_assoc, singleton_append]

section
variable {J : Type} [DecidableEq J] (unmarshal : List UInt8 → Option J)

theorem mergeEntity_side (kind : Kind) (id : String) (baseEntity localEntity remoteEntity : Option Entity)
    (options : MergeOptions) :
    (mergeEntity unmarshal kind id baseEntity localEntity remoteEntity options).1 = localEntity ∨
      (mergeEntity unmarshal kind id baseEntity localEntity remoteEntity options).1 = remoteEntity := by
  by_cases remoteSame : Same unmarshal baseEntity remoteEntity
  · left
    rw [mergeEntity_local_kept unmarshal remoteSame]
  · by_cases localSame : Same unmarshal baseEntity localEntity
    · right
      rw [mergeEntity_remote_kept unmarshal localSame remoteSame]
    · by_cases adopted : options.firstContact = true ∧ baseEntity = none ∧ (kind, id) ∉ options.locallyChanged
      · right
        rw [mergeEntity_adopted unmarshal localSame remoteSame adopted.1 adopted.2.1 adopted.2.2]
      · have known : options.firstContact = false ∨ baseEntity ≠ none ∨ (kind, id) ∈ options.locallyChanged := by
          rw [not_and_or, not_and_or, not_not, Bool.not_eq_true] at adopted
          exact adopted
        obtain ⟨notice, decided, _⟩ := mergeEntity_both_changed unmarshal kind id options localSame remoteSame known
        rw [decided]
        dsimp only
        rw [laterChange]
        split
        · exact .inl rfl
        · split
          · exact .inr rfl
          · split
            · exact .inl rfl
            · split
              · exact .inr rfl
              · exact .inl rfl

def Survives (merged : Document) (id : String) : Prop := (merged.get .service id).isSome

structure MergedList (base localDoc remote merged : Document) : Prop where
  distinct : merged.order.Nodup
  listed : ∀ id ∈ merged.order, id ∈ localDoc.order ∨ id ∈ remote.order
  survivors : ∀ id, Survives merged id → id ∈ localDoc.order ∨ id ∈ remote.order
  shared : ∀ id ∈ localDoc.order, id ∈ remote.order → id ∈ merged.order ∧ Survives merged id
  complete : localDoc.order = remote.order ∨ (localDoc.order ≠ base.order ∧ remote.order ≠ base.order) →
    ∀ id, Survives merged id → id ∈ merged.order
  localChanged : remote.order = base.order → merged.order = localDoc.order
  remoteChanged : localDoc.order = base.order → merged.order = remote.order
  bothChanged : localDoc.order ≠ base.order → remote.order ≠ base.order → localDoc.order ≠ remote.order →
    merged.order = remote.order ++ localDoc.order.filter fun id => !remote.order.contains id
  relative : (merged.order.filter fun id => localDoc.order.contains id && remote.order.contains id) =
    (if remote.order = base.order then localDoc.order else remote.order).filter fun id =>
      localDoc.order.contains id && remote.order.contains id

theorem mergeOrder_both {base localOrder remote : List String} (distinctLocal : localOrder.Nodup)
    (distinctRemote : remote.Nodup) (localChanged : localOrder ≠ base) (remoteChanged : remote ≠ base)
    (apart : localOrder ≠ remote) :
    mergeOrder base localOrder remote = remote ++ localOrder.filter fun id => !remote.contains id := by
  rw [mergeOrder, if_neg apart, if_neg localChanged, if_neg remoteChanged, appendUnseen_nodup distinctRemote,
    appendUnseen_filter distinctLocal]

theorem mergeOrder_remote (base remote : List String) : mergeOrder base base remote = remote := by
  unfold mergeOrder
  by_cases same : base = remote
  · rw [if_pos same, same]
  · rw [if_neg same, if_pos rfl]

theorem mergeOrder_local (base localOrder : List String) : mergeOrder base localOrder base = localOrder := by
  unfold mergeOrder
  by_cases same : localOrder = base
  · rw [if_pos same]
  · rw [if_neg same, if_neg same, if_pos rfl]

theorem mergeOrder_cases {base localOrder remote : List String} (distinctLocal : localOrder.Nodup)
    (distinctRemote : remote.Nodup) :
    (remote = base ∧ mergeOrder base localOrder remote = localOrder) ∨
      (remote ≠ base ∧ (localOrder = base ∨ localOrder = remote) ∧ mergeOrder base localOrder remote = remote) ∨
      (remote ≠ base ∧ localOrder ≠ base ∧ localOrder ≠ remote ∧
        mergeOrder base localOrder remote = remote ++ localOrder.filter fun id => !remote.contains id) := by
  by_cases remoteSame : remote = base
  · left
    rw [remoteSame]
    exact ⟨rfl, mergeOrder_local base localOrder⟩
  · right
    by_cases localSame : localOrder = base
    · left
      rw [localSame]
      exact ⟨remoteSame, .inl rfl, mergeOrder_remote base remote⟩
    · by_cases same : localOrder = remote
      · left
        refine ⟨remoteSame, .inr same, ?_⟩
        rw [mergeOrder, if_pos same, same]
      · exact .inr ⟨remoteSame, localSame, same, mergeOrder_both distinctLocal distinctRemote localSame remoteSame same⟩

variable {unmarshal}

theorem merged_survivor {now : Nat} {base localDoc remote : Document} {options : MergeOptions}
    (survives : Survives (merge unmarshal now base localDoc remote options).1 id) :
    (live (localDoc.get .service id)).isSome ∨ (live (remote.get .service id)).isSome := by
  rw [Survives, merge_get, mergeKey] at survives
  rcases mergeEntity_side unmarshal .service id (base.get .service id) (localDoc.get .service id)
    (remote.get .service id) options with side | side
  · rw [side] at survives
    exact .inl survives
  · rw [side] at survives
    exact .inr survives

theorem merged_shared {now : Nat} {base localDoc remote : Document} {options : MergeOptions}
    (localLive : (live (localDoc.get .service id)).isSome) (remoteLive : (live (remote.get .service id)).isSome) :
    Survives (merge unmarshal now base localDoc remote options).1 id := by
  rw [Survives, merge_get, mergeKey]
  rcases mergeEntity_side unmarshal .service id (base.get .service id) (localDoc.get .service id)
    (remote.get .service id) options with side | side
  · rw [side]
    exact localLive
  · rw [side]
    exact remoteLive

/-- Packages that list exactly their own services give a list without repetitions that has every service both sides
have, and the relative order of the side that changed its list, the remote's where both did. -/
theorem merge_lists (now : Nat) (base localDoc remote : Document) (options : MergeOptions) (localLists : Lists localDoc)
    (remoteLists : Lists remote) :
    MergedList base localDoc remote (merge unmarshal now base localDoc remote options).1 := by
  have order : (merge unmarshal now base localDoc remote options).1.order =
      mergeOrder base.order localDoc.order remote.order := rfl
  have inEither : ∀ id, Survives (merge unmarshal now base localDoc remote options).1 id →
      id ∈ localDoc.order ∨ id ∈ remote.order := by
    intro id survives
    rw [localLists.services, remoteLists.services]
    exact merged_survivor survives
  have made := @mergeOrder_cases base.order _ _ localLists.distinct remoteLists.distinct
  rw [← order] at made
  refine ⟨?distinct, ?listed, inEither, ?shared, ?complete, ?localChanged, ?remoteChanged, ?bothChanged, ?relative⟩
  case distinct =>
    rcases made with ⟨_, same⟩ | ⟨_, _, same⟩ | ⟨_, _, _, same⟩
    · rw [same]
      exact localLists.distinct
    · rw [same]
      exact remoteLists.distinct
    · rw [same, nodup_append]
      refine ⟨remoteLists.distinct, localLists.distinct.filter _, ?_⟩
      intro first inRemote second unseen equal
      have missing := (mem_filter.mp unseen).2
      rw [← equal, contains_iff_mem.mpr inRemote] at missing
      cases missing
  case listed =>
    intro id member
    rcases made with ⟨_, same⟩ | ⟨_, _, same⟩ | ⟨_, _, _, same⟩
    · rw [same] at member
      exact .inl member
    · rw [same] at member
      exact .inr member
    · rw [same] at member
      rcases mem_append.mp member with inRemote | unseen
      · exact .inr inRemote
      · exact .inl (mem_filter.mp unseen).1
  case shared =>
    intro id inLocal inRemote
    refine ⟨?_, merged_shared ((localLists.services id).mp inLocal) ((remoteLists.services id).mp inRemote)⟩
    rcases made with ⟨_, same⟩ | ⟨_, _, same⟩ | ⟨_, _, _, same⟩
    · rw [same]
      exact inLocal
    · rw [same]
      exact inRemote
    · rw [same]
      exact mem_append_left _ inRemote
  case complete =>
    intro changed id survives
    rcases made with ⟨remoteSame, same⟩ | ⟨_, which, same⟩ | ⟨_, _, _, same⟩
    · rcases changed with agree | ⟨_, contra⟩
      · rw [same]
        rcases inEither id survives with inLocal | inRemote
        · exact inLocal
        · exact agree ▸ inRemote
      · exact absurd remoteSame contra
    · have agree : localDoc.order = remote.order := by
        rcases changed with agree | ⟨contra, _⟩
        · exact agree
        · rcases which with localSame | agree
          · exact absurd localSame contra
          · exact agree
      rw [same]
      rcases inEither id survives with inLocal | inRemote
      · exact agree ▸ inLocal
      · exact inRemote
    · rw [same]
      by_cases inRemote : id ∈ remote.order
      · exact mem_append_left _ inRemote
      · rcases inEither id survives with inLocal | contra
        · refine mem_append_right _ (mem_filter.mpr ⟨inLocal, ?_⟩)
          rw [Bool.not_eq_true', Bool.eq_false_iff]
          exact fun contra => inRemote (contains_iff_mem.mp contra)
        · exact absurd contra inRemote
  case localChanged =>
    intro remoteSame
    rw [order, remoteSame]
    exact mergeOrder_local _ _
  case remoteChanged =>
    intro localSame
    rw [order, localSame]
    exact mergeOrder_remote _ _
  case bothChanged =>
    intro localDiffers remoteDiffers apart
    rw [order]
    exact mergeOrder_both localLists.distinct remoteLists.distinct localDiffers remoteDiffers apart
  case relative =>
    rcases made with ⟨remoteSame, same⟩ | ⟨remoteDiffers, _, same⟩ | ⟨remoteDiffers, _, _, same⟩
    · rw [same, if_pos remoteSame]
    · rw [same, if_neg remoteDiffers]
    · have onlyLocal : ((localDoc.order.filter fun id => !remote.order.contains id).filter fun id =>
          localDoc.order.contains id && remote.order.contains id) = [] := by
        rw [filter_eq_nil_iff]
        intro id member both
        have unseen := (mem_filter.mp member).2
        rw [Bool.and_eq_true] at both
        rw [both.2] at unseen
        cases unseen
      rw [same, if_neg remoteDiffers, filter_append, onlyLocal, append_nil]

end

/-- A package with services of one content, named by its list. -/
def listing (updatedAt : Nat) (services : List String) : Document :=
  { services.foldl (fun document id => document.put .service id ⟨0, updatedAt, false, [0], ""⟩)
      (newDocument "device" 1 updatedAt) with order := services }

theorem listing_lists (updatedAt : Nat) {services : List String} (distinct : services.Nodup) :
    Lists (listing updatedAt services) := by
  have found : ∀ (services : List String) (document : Document) (id : String),
      (live ((services.foldl (fun document id => document.put .service id ⟨0, updatedAt, false, [0], ""⟩)
        document).get .service id)).isSome ↔ id ∈ services ∨ (live (document.get .service id)).isSome := by
    intro services
    induction services with
    | nil => intro document id; simp
    | cons first rest ih =>
      intro document id
      rw [foldl_cons, ih, get_put, mem_cons]
      by_cases same : id = first
      · simp [same, live]
      · simp [same]
  refine ⟨distinct, fun id => ?_⟩
  have members := found services (newDocument "device" 1 updatedAt) id
  have empty : (newDocument "device" 1 updatedAt).get .service id = none := rfl
  rw [empty] at members
  show id ∈ services ↔ _
  rw [Iff.comm]
  exact members.trans (or_iff_left (by simp))

theorem merge_lists_three :
    MergedList (listing 1 ["a", "b"]) (listing 1 ["b", "a"]) (listing 1 ["a", "b", "c"])
      (merge (some : List UInt8 → Option (List UInt8)) 9 (listing 1 ["a", "b"]) (listing 1 ["b", "a"])
        (listing 1 ["a", "b", "c"]) ⟨false, []⟩).1 :=
  merge_lists 9 _ _ _ _ (listing_lists 1 (by decide)) (listing_lists 1 (by decide))

/-- A service that one side deleted stays in the list when the other side added one. -/
theorem deleted_service_listed :
    ¬ ∀ (base localDoc remote : Document) (options : MergeOptions), Lists base → Lists localDoc → Lists remote →
      ∀ id, id ∈ (merge (some : List UInt8 → Option (List UInt8)) 9 base localDoc remote options).1.order ↔
        Survives (merge (some : List UInt8 → Option (List UInt8)) 9 base localDoc remote options).1 id := by
  intro matching
  have listed := (matching (listing 1 ["a", "b"]) (listing 1 ["b"]) (listing 1 ["a", "b", "c"]) ⟨false, []⟩
    (listing_lists 1 (by decide)) (listing_lists 1 (by decide)) (listing_lists 1 (by decide)) "a").mp (by decide)
  rw [Survives, merge_get] at listed
  revert listed
  decide

end AstrLink.Priority
