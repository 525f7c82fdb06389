import Mathlib.Data.List.Sort
import AstrLink.Package

/-!
The three-way merge of sync packages. One side that differs from the base wins, and where both do the later
change wins. `merge_lawful_iff` says when it is lawful: unless both sides made the same change, which is
reported as a conflict.
-/
namespace AstrLink.Merge
open Tables Package

inductive Resolution where
  | localWon
  | remoteWon
  | removed
  | tieKeptLocal
  | remoteAdopted
  | forcePushed

/-- One merge decision the user may want to know about. -/
structure Notice where
  kind : Kind
  name : String
  resolution : Resolution
  time : Nat

/-- What the documents do not say: whether this is the first exchange, and what changed here. -/
structure MergeOptions where
  firstContact : Bool
  locallyChanged : List Key

variable {kind : Kind} {id : String}

section
variable {J : Type} [DecidableEq J] (unmarshal : List UInt8 → Option J)

/-- Two documents are one JSON value, or one text when one does not decode. -/
def jsonEqual (left right : List UInt8) : Bool :=
  if left.isEmpty && right.isEmpty then true
  else
    match unmarshal left, unmarshal right with
    | some a, some b => decide (a = b)
    | _, _ => decide (left = right)

/-- Whether an entity is not the base's copy. -/
def differs : Option Entity → Option Entity → Bool
  | none, none => false
  | some base, some side =>
    if base.deleted != side.deleted || base.secret != side.secret then true
    else !jsonEqual unmarshal base.document side.document
  | _, _ => true

/-- When a side last changed an entity; an absence carries no time. -/
def eventTime : Option Entity → Nat
  | none => 0
  | some entity => entity.updatedAt

def noticeTime (entity : Option Entity) (localAt remoteAt : Nat) : Nat :=
  match entity with
  | some entity => if entity.updatedAt ≠ 0 then entity.updatedAt else if localAt > remoteAt then localAt else remoteAt
  | none => if localAt > remoteAt then localAt else remoteAt

/-- Reports the remote's copy being taken over this device's own. -/
def adoptNotice (kind : Kind) (id : String) : Option Entity → Notice
  | some remote =>
    if remote.deleted then ⟨kind, id, .removed, eventTime (some remote)⟩
    else ⟨kind, id, .remoteAdopted, remote.updatedAt⟩
  | none => ⟨kind, id, .removed, eventTime none⟩

/-- The notice for a decision by time: a chosen deletion is reported as one. -/
def conflictNotice (kind : Kind) (id : String) (entity : Option Entity) (resolution : Resolution)
    (localAt remoteAt : Nat) : Notice :=
  match entity with
  | some chosen =>
    if chosen.deleted then ⟨kind, id, .removed, noticeTime entity localAt remoteAt⟩
    else ⟨kind, id, resolution, chosen.updatedAt⟩
  | none => ⟨kind, id, .removed, noticeTime none localAt remoteAt⟩

/-- The chosen copy, which may be an absence, and the notice to report. -/
def mergeEntity (kind : Kind) (id : String) (baseEntity localEntity remoteEntity : Option Entity)
    (options : MergeOptions) : Option Entity × Option Notice :=
  let localDiffers := differs unmarshal baseEntity localEntity
  let remoteDiffers := differs unmarshal baseEntity remoteEntity
  if !localDiffers && !remoteDiffers then (localEntity, none)
  else if localDiffers && !remoteDiffers then (localEntity, none)
  else if !localDiffers && remoteDiffers then (remoteEntity, none)
  else if options.firstContact && baseEntity.isNone && !decide ((kind, id) ∈ options.locallyChanged) then
    (remoteEntity, some (adoptNotice kind id remoteEntity))
  else
    let localAt := eventTime localEntity
    let remoteAt := eventTime remoteEntity
    if localAt > remoteAt then (localEntity, some (conflictNotice kind id localEntity .localWon localAt remoteAt))
    else if remoteAt > localAt then
      (remoteEntity, some (conflictNotice kind id remoteEntity .remoteWon localAt remoteAt))
    else
      -- the same instant: a live copy is kept, this device's first
      match live localEntity, live remoteEntity with
      | some kept, _ => (localEntity, some ⟨kind, id, .tieKeptLocal, kept.updatedAt⟩)
      | none, some kept => (remoteEntity, some ⟨kind, id, .remoteWon, kept.updatedAt⟩)
      | none, none => (localEntity, some (conflictNotice kind id localEntity .removed localAt remoteAt))

/-- The ids of a list that were not seen before, in order. -/
def appendUnseen (seen : List String) : List String → List String
  | [] => seen
  | id :: rest => if id ∈ seen then appendUnseen seen rest else appendUnseen (seen ++ [id]) rest

/-- When both sides changed the list, the remote's order and then the ids only listed here. -/
def mergeOrder (base localOrder remote : List String) : List String :=
  if localOrder = remote then localOrder
  else if localOrder = base then remote
  else if remote = base then localOrder
  else appendUnseen (appendUnseen [] remote) localOrder

/-- The order in which notices are reported. -/
def noticeBefore (left right : Notice) : Bool :=
  if left.kind ≠ right.kind then decide (left.kind.name < right.kind.name) else decide (left.name ≤ right.name)

/-- The rule applied to one key of three documents. -/
def mergeKey (base localDoc remote : Document) (options : MergeOptions) (key : Key) : Option Entity × Option Notice :=
  mergeEntity unmarshal key.1 key.2 (base.get key.1 key.2) (localDoc.get key.1 key.2) (remote.get key.1 key.2) options

/-- The package this device should hold, and the decisions worth reporting. -/
def merge (now : Nat) (base localDoc remote : Document) (options : MergeOptions) : Document × List Notice :=
  let keys := keysOf [base.entities, localDoc.entities, remote.entities]
  let chosen := mergeKey unmarshal base localDoc remote options
  ({ newDocument localDoc.deviceId (localDoc.revision + 1) now with
      entities := collect keys (fun key => live (chosen key).1)
      order := mergeOrder base.order localDoc.order remote.order },
    (keys.filterMap (fun key => (chosen key).2)).insertionSort (fun left right => noticeBefore left right = true))

/-! ### When two sides show the same -/

theorem jsonEqual_iff (left right : List UInt8) :
    jsonEqual unmarshal left right = true ↔
      left = right ∨ ∃ value, unmarshal left = some value ∧ unmarshal right = some value := by
  by_cases empty : left.isEmpty && right.isEmpty
  · have same : left = right := by
      rw [Bool.and_eq_true, List.isEmpty_iff, List.isEmpty_iff] at empty
      rw [empty.1, empty.2]
    rw [jsonEqual, if_pos empty]
    exact ⟨fun _ => .inl same, fun _ => rfl⟩
  · rw [jsonEqual, if_neg empty]
    cases decodedLeft : unmarshal left with
    | none => simp
    | some a =>
      cases decodedRight : unmarshal right with
      | none => simp
      | some b =>
        simp only [decide_eq_true_eq, Option.some.injEq]
        constructor
        · intro equal
          exact .inr ⟨a, rfl, equal.symm⟩
        · rintro (same | ⟨value, rfl, rfl⟩)
          · rw [same, decodedRight] at decodedLeft
            exact (Option.some.inj decodedLeft).symm
          · rfl

theorem jsonEqual_refl (document : List UInt8) : jsonEqual unmarshal document document = true :=
  (jsonEqual_iff unmarshal document document).mpr (.inl rfl)

theorem jsonEqual_symm {left right : List UInt8} (equal : jsonEqual unmarshal left right = true) :
    jsonEqual unmarshal right left = true := by
  rw [jsonEqual_iff] at equal ⊢
  rcases equal with same | ⟨value, decodedLeft, decodedRight⟩
  · exact .inl same.symm
  · exact .inr ⟨value, decodedRight, decodedLeft⟩

theorem jsonEqual_trans {left middle right : List UInt8} (first : jsonEqual unmarshal left middle = true)
    (second : jsonEqual unmarshal middle right = true) : jsonEqual unmarshal left right = true := by
  rw [jsonEqual_iff] at first second ⊢
  rcases first with rfl | ⟨value, decodedLeft, decodedMiddle⟩
  · exact second
  · rcases second with rfl | ⟨other, decodedAgain, decodedRight⟩
    · exact .inr ⟨value, decodedLeft, decodedMiddle⟩
    · have same : value = other := Option.some.inj (decodedMiddle.symm.trans decodedAgain)
      exact .inr ⟨value, decodedLeft, same ▸ decodedRight⟩

/-- Two sides hold the same content; times and revisions are not content. -/
def Same (left right : Option Entity) : Prop := differs unmarshal left right = false

instance (left right : Option Entity) : Decidable (Same unmarshal left right) :=
  inferInstanceAs (Decidable (differs unmarshal left right = false))

/-- Two sides show the same: nothing on both, or live entities with the same
    content. -/
def Agree (left right : Option Entity) : Prop := Same unmarshal (live left) (live right)

instance (left right : Option Entity) : Decidable (Agree unmarshal left right) :=
  inferInstanceAs (Decidable (Same unmarshal (live left) (live right)))

theorem same_some_iff (left right : Entity) :
    Same unmarshal (some left) (some right) ↔
      left.deleted = right.deleted ∧ left.secret = right.secret ∧
        jsonEqual unmarshal left.document right.document = true := by
  simp only [Same, differs]
  by_cases marks : left.deleted = right.deleted
  · by_cases secrets : left.secret = right.secret
    · simp [marks, secrets]
    · simp [secrets]
  · simp [marks]

theorem same_refl (side : Option Entity) : Same unmarshal side side := by
  cases side with
  | none => rfl
  | some entity => exact (same_some_iff unmarshal entity entity).mpr ⟨rfl, rfl, jsonEqual_refl unmarshal _⟩

variable {left right : Option Entity}

theorem same_symm (same : Same unmarshal left right) : Same unmarshal right left := by
  cases left with
  | none => cases right with
    | none => rfl
    | some right => simp [Same, differs] at same
  | some left => cases right with
    | none => simp [Same, differs] at same
    | some right =>
      rw [same_some_iff] at same ⊢
      exact ⟨same.1.symm, same.2.1.symm, jsonEqual_symm unmarshal same.2.2⟩

theorem same_trans {middle : Option Entity} (first : Same unmarshal left middle)
    (second : Same unmarshal middle right) : Same unmarshal left right := by
  cases left <;> cases middle <;> cases right <;> try (simp [Same, differs] at first second ⊢; done)
  rw [same_some_iff] at first second ⊢
  exact ⟨first.1.trans second.1, first.2.1.trans second.2.1, jsonEqual_trans unmarshal first.2.2 second.2.2⟩

theorem Same.agree (same : Same unmarshal left right) : Agree unmarshal left right := by
  cases left with
  | none => cases right with
    | none => exact same
    | some right => simp [Same, differs] at same
  | some left => cases right with
    | none => simp [Same, differs] at same
    | some right =>
      have marks := ((same_some_iff unmarshal left right).mp same).1
      cases deleted : right.deleted with
      | true => simp [Agree, live, Option.filter, marks, deleted, same_refl]
      | false => simpa [Agree, live, Option.filter, marks, deleted] using same

theorem agree_refl (side : Option Entity) : Agree unmarshal side side := same_refl unmarshal _

theorem agree_symm (agree : Agree unmarshal left right) : Agree unmarshal right left :=
  same_symm unmarshal agree

theorem agree_trans {middle : Option Entity} (first : Agree unmarshal left middle)
    (second : Agree unmarshal middle right) : Agree unmarshal left right :=
  same_trans unmarshal first second

theorem Agree.live_none_iff (agree : Agree unmarshal left right) :
    live left = none ↔ live right = none := by
  unfold Agree at agree
  cases first : live left <;> cases second : live right <;> simp [Same, differs, first, second] at agree ⊢

@[simp] theorem agree_live_left (left right : Option Entity) :
    Agree unmarshal (live left) right ↔ Agree unmarshal left right := by simp [Agree]

@[simp] theorem agree_live_right (left right : Option Entity) :
    Agree unmarshal left (live right) ↔ Agree unmarshal left right := by simp [Agree]

/-! ### What the rule for one entity chooses -/

section
variable {kind : Kind} {id : String} {baseEntity localEntity remoteEntity : Option Entity} {options : MergeOptions}

theorem mergeEntity_local_kept (remoteSame : Same unmarshal baseEntity remoteEntity) :
    mergeEntity unmarshal kind id baseEntity localEntity remoteEntity options = (localEntity, none) := by
  have quiet : differs unmarshal baseEntity remoteEntity = false := remoteSame
  cases changed : differs unmarshal baseEntity localEntity <;> simp [mergeEntity, quiet, changed]

theorem mergeEntity_remote_kept (localSame : Same unmarshal baseEntity localEntity)
    (remoteChanged : ¬ Same unmarshal baseEntity remoteEntity) :
    mergeEntity unmarshal kind id baseEntity localEntity remoteEntity options = (remoteEntity, none) := by
  have quiet : differs unmarshal baseEntity localEntity = false := localSame
  have changed : differs unmarshal baseEntity remoteEntity = true := by simpa [Same] using remoteChanged
  simp [mergeEntity, quiet, changed]

theorem mergeEntity_adopted (localChanged : ¬ Same unmarshal baseEntity localEntity)
    (remoteChanged : ¬ Same unmarshal baseEntity remoteEntity) (met : options.firstContact = true)
    (new : baseEntity = none) (untouched : (kind, id) ∉ options.locallyChanged) :
    mergeEntity unmarshal kind id baseEntity localEntity remoteEntity options =
      (remoteEntity, some (adoptNotice kind id remoteEntity)) := by
  have differsLocal : differs unmarshal baseEntity localEntity = true := by simpa [Same] using localChanged
  have differsRemote : differs unmarshal baseEntity remoteEntity = true := by simpa [Same] using remoteChanged
  subst new
  simp [mergeEntity, differsLocal, differsRemote, met, untouched]

/-- The choice between two changes made since an earlier sync. -/
def laterChange (localEntity remoteEntity : Option Entity) : Option Entity :=
  if eventTime localEntity > eventTime remoteEntity then localEntity
  else if eventTime remoteEntity > eventTime localEntity then remoteEntity
  else if (live localEntity).isSome then localEntity
  else if (live remoteEntity).isSome then remoteEntity
  else localEntity

theorem mergeEntity_both_changed (kind : Kind) (id : String) (options : MergeOptions)
    (localChanged : ¬ Same unmarshal baseEntity localEntity)
    (remoteChanged : ¬ Same unmarshal baseEntity remoteEntity)
    (known : options.firstContact = false ∨ baseEntity ≠ none ∨ (kind, id) ∈ options.locallyChanged) :
    ∃ notice, mergeEntity unmarshal kind id baseEntity localEntity remoteEntity options =
      (laterChange localEntity remoteEntity, some notice) ∧ notice.kind = kind ∧ notice.name = id := by
  have differsLocal : differs unmarshal baseEntity localEntity = true := by simpa [Same] using localChanged
  have differsRemote : differs unmarshal baseEntity remoteEntity = true := by simpa [Same] using remoteChanged
  have notAdopted : (options.firstContact && baseEntity.isNone && !decide ((kind, id) ∈ options.locallyChanged)) = false := by
    rcases known with met | based | touched
    · simp [met]
    · cases baseEntity with
      | none => exact absurd rfl based
      | some base => simp
    · simp [touched]
  have named : ∀ entity resolution localAt remoteAt,
      (conflictNotice kind id entity resolution localAt remoteAt).kind = kind ∧
        (conflictNotice kind id entity resolution localAt remoteAt).name = id := by
    intro entity resolution localAt remoteAt
    cases entity with
    | none => exact ⟨rfl, rfl⟩
    | some entity => cases marked : entity.deleted <;> simp [conflictNotice, marked]
  simp only [mergeEntity, differsLocal, differsRemote, notAdopted, laterChange]
  by_cases later : eventTime localEntity > eventTime remoteEntity
  · simp [later, named]
  · by_cases earlier : eventTime remoteEntity > eventTime localEntity
    · simp [later, earlier, named]
    · cases liveLocal : live localEntity with
      | some kept => simp [later, earlier]
      | none =>
        cases liveRemote : live remoteEntity with
        | some kept => simp [later, earlier]
        | none => simp [later, earlier, named]

/-- When the merge takes the remote's content. -/
def Yields (options : MergeOptions) (key : Key) (baseEntity localEntity remoteEntity : Option Entity) : Prop :=
  Same unmarshal baseEntity localEntity ∨ Agree unmarshal localEntity remoteEntity ∨
    (¬ Same unmarshal baseEntity remoteEntity ∧
      ((options.firstContact = true ∧ baseEntity = none ∧ key ∉ options.locallyChanged) ∨
        eventTime localEntity < eventTime remoteEntity ∨
        (eventTime localEntity = eventTime remoteEntity ∧ live localEntity = none)))

instance (options : MergeOptions) (key : Key) (baseEntity localEntity remoteEntity : Option Entity) :
    Decidable (Yields unmarshal options key baseEntity localEntity remoteEntity) := by
  unfold Yields
  infer_instance

theorem agree_laterChange_iff (localEntity remoteEntity : Option Entity) :
    Agree unmarshal (live (laterChange localEntity remoteEntity)) remoteEntity ↔
      Agree unmarshal localEntity remoteEntity ∨ eventTime localEntity < eventTime remoteEntity ∨
        (eventTime localEntity = eventTime remoteEntity ∧ live localEntity = none) := by
  rw [agree_live_left]
  unfold laterChange
  by_cases later : eventTime localEntity > eventTime remoteEntity
  · rw [if_pos later]
    constructor
    · exact .inl
    · rintro (agree | earlier | ⟨tied, _⟩)
      · exact agree
      · omega
      · omega
  · rw [if_neg later]
    by_cases earlier : eventTime remoteEntity > eventTime localEntity
    · rw [if_pos earlier]
      exact ⟨fun _ => .inr (.inl earlier), fun _ => agree_refl unmarshal _⟩
    · rw [if_neg earlier]
      have tied : eventTime localEntity = eventTime remoteEntity := by omega
      cases liveLocal : live localEntity with
      | some kept => simp [tied]
      | none =>
        have gone : Agree unmarshal localEntity remoteEntity ∨ live remoteEntity ≠ none := by
          cases liveRemote : live remoteEntity with
          | none => exact .inl (by simp [Agree, liveLocal, liveRemote, same_refl])
          | some kept => exact .inr (by simp)
        simp only [Option.isSome_none, Bool.false_eq_true, if_false]
        refine ⟨fun _ => .inr (.inr ⟨tied, trivial⟩), fun _ => ?_⟩
        rcases gone with agree | present
        · by_cases kept : (live remoteEntity).isSome = true
          · rw [if_pos kept]
            exact agree_refl unmarshal _
          · rw [if_neg kept]
            exact agree
        · rw [if_pos (Option.isSome_iff_ne_none.mpr present)]
          exact agree_refl unmarshal _

theorem mergeEntity_yields_iff :
    Agree unmarshal (live (mergeEntity unmarshal kind id baseEntity localEntity remoteEntity options).1) remoteEntity ↔
      Yields unmarshal options (kind, id) baseEntity localEntity remoteEntity := by
  by_cases localSame : Same unmarshal baseEntity localEntity
  · refine ⟨fun _ => .inl localSame, fun _ => ?_⟩
    by_cases remoteSame : Same unmarshal baseEntity remoteEntity
    · rw [mergeEntity_local_kept unmarshal remoteSame, agree_live_left]
      exact Same.agree unmarshal (same_trans unmarshal (same_symm unmarshal localSame) remoteSame)
    · rw [mergeEntity_remote_kept unmarshal localSame remoteSame, agree_live_left]
      exact agree_refl unmarshal _
  · by_cases remoteSame : Same unmarshal baseEntity remoteEntity
    · rw [mergeEntity_local_kept unmarshal remoteSame, agree_live_left]
      simp [Yields, localSame, remoteSame]
    · by_cases met : options.firstContact = true ∧ baseEntity = none ∧ (kind, id) ∉ options.locallyChanged
      · rw [mergeEntity_adopted unmarshal localSame remoteSame met.1 met.2.1 met.2.2, agree_live_left]
        exact ⟨fun _ => .inr (.inr ⟨remoteSame, .inl met⟩), fun _ => agree_refl unmarshal _⟩
      · have known : options.firstContact = false ∨ baseEntity ≠ none ∨ (kind, id) ∈ options.locallyChanged := by
          by_contra unknown
          simp only [not_or, Bool.not_eq_false, not_not] at unknown
          exact met unknown
        obtain ⟨notice, chosen, _⟩ := mergeEntity_both_changed unmarshal kind id options localSame remoteSame known
        rw [chosen]
        dsimp only
        rw [agree_laterChange_iff]
        simp only [Yields, localSame, remoteSame, met, false_or, not_false_eq_true, true_and]

end

/-! ### The merged package -/

section
variable (now : Nat) (base localDoc remote : Document) (options : MergeOptions)

theorem merge_get (kind : Kind) (id : String) :
    (merge unmarshal now base localDoc remote options).1.get kind id =
      live (mergeKey unmarshal base localDoc remote options (kind, id)).1 := by
  refine lookup_collect_of_mem ?_
  intro chosen
  by_contra missed
  have absent : ∀ table ∈ [base.entities, localDoc.entities, remote.entities],
      table.lookup (kind, id) = none := by
    intro table listed
    by_contra found
    exact missed (mem_keysOf listed found)
  have nothing : mergeKey unmarshal base localDoc remote options (kind, id) = (none, none) := by
    simp only [mergeKey, Document.get]
    rw [absent base.entities (by simp), absent localDoc.entities (by simp), absent remote.entities (by simp)]
    rfl
  exact chosen (by rw [nothing]; rfl)

theorem mem_notices {notice : Notice} : notice ∈ (merge unmarshal now base localDoc remote options).2 ↔
    ∃ key ∈ keysOf [base.entities, localDoc.entities, remote.entities],
      (mergeKey unmarshal base localDoc remote options key).2 = some notice := by
  simp only [merge, List.mem_insertionSort, List.mem_filterMap]

end

/-- What a three-way merge is for, with a base from an earlier sync. -/
structure Lawful (now : Nat) (base localDoc remote : Document) (changed : List Key) : Prop where
  remoteKept : ∀ kind id, Same unmarshal (base.get kind id) (localDoc.get kind id) →
    Agree unmarshal ((merge unmarshal now base localDoc remote ⟨false, changed⟩).1.get kind id) (remote.get kind id)
  localKept : ∀ kind id, Same unmarshal (base.get kind id) (remote.get kind id) →
    Agree unmarshal ((merge unmarshal now base localDoc remote ⟨false, changed⟩).1.get kind id) (localDoc.get kind id)
  laterLocal : ∀ kind id, ¬ Same unmarshal (base.get kind id) (localDoc.get kind id) →
    ¬ Same unmarshal (base.get kind id) (remote.get kind id) →
    eventTime (remote.get kind id) < eventTime (localDoc.get kind id) →
    (merge unmarshal now base localDoc remote ⟨false, changed⟩).1.get kind id = live (localDoc.get kind id)
  laterRemote : ∀ kind id, ¬ Same unmarshal (base.get kind id) (localDoc.get kind id) →
    ¬ Same unmarshal (base.get kind id) (remote.get kind id) →
    eventTime (localDoc.get kind id) < eventTime (remote.get kind id) →
    (merge unmarshal now base localDoc remote ⟨false, changed⟩).1.get kind id = live (remote.get kind id)
  swapped : ∀ kind id, ¬ (live (localDoc.get kind id) ≠ none ∧ live (remote.get kind id) ≠ none ∧
      eventTime (localDoc.get kind id) = eventTime (remote.get kind id)) →
    Agree unmarshal ((merge unmarshal now base localDoc remote ⟨false, changed⟩).1.get kind id)
      ((merge unmarshal now base remote localDoc ⟨false, changed⟩).1.get kind id)
  noticed : ∀ notice ∈ (merge unmarshal now base localDoc remote ⟨false, changed⟩).2,
    ¬ Same unmarshal (base.get notice.kind notice.name) (localDoc.get notice.kind notice.name) ∧
    ¬ Same unmarshal (base.get notice.kind notice.name) (remote.get notice.kind notice.name) ∧
    ¬ Agree unmarshal (localDoc.get notice.kind notice.name) (remote.get notice.kind notice.name)
  itself : ∀ document : Document,
    (∀ kind id, (merge unmarshal now document document document ⟨false, changed⟩).1.get kind id =
      live (document.get kind id)) ∧
    (merge unmarshal now document document document ⟨false, changed⟩).1.order = document.order ∧
    (merge unmarshal now document document document ⟨false, changed⟩).2 = []

section
variable {now : Nat} {base localDoc remote : Document} {changed : List Key}

theorem merge_get_of_local_same (localSame : Same unmarshal (base.get kind id) (localDoc.get kind id))
    (remoteChanged : ¬ Same unmarshal (base.get kind id) (remote.get kind id)) :
    (merge unmarshal now base localDoc remote ⟨false, changed⟩).1.get kind id = live (remote.get kind id) := by
  rw [merge_get, mergeKey, mergeEntity_remote_kept unmarshal localSame remoteChanged]

theorem merge_get_of_remote_same {options : MergeOptions}
    (remoteSame : Same unmarshal (base.get kind id) (remote.get kind id)) :
    (merge unmarshal now base localDoc remote options).1.get kind id = live (localDoc.get kind id) := by
  rw [merge_get, mergeKey, mergeEntity_local_kept unmarshal remoteSame]

theorem merge_get_of_both_changed (localChanged : ¬ Same unmarshal (base.get kind id) (localDoc.get kind id))
    (remoteChanged : ¬ Same unmarshal (base.get kind id) (remote.get kind id)) :
    (merge unmarshal now base localDoc remote ⟨false, changed⟩).1.get kind id =
      live (laterChange (localDoc.get kind id) (remote.get kind id)) := by
  obtain ⟨notice, decided, _⟩ := mergeEntity_both_changed unmarshal kind id ⟨false, changed⟩
      localChanged remoteChanged (.inl rfl)
  rw [merge_get, mergeKey, decided]

theorem merge_notice_iff (kind : Kind) (id : String) :
    (∃ notice ∈ (merge unmarshal now base localDoc remote ⟨false, changed⟩).2, notice.kind = kind ∧ notice.name = id) ↔
      ¬ Same unmarshal (base.get kind id) (localDoc.get kind id) ∧
      ¬ Same unmarshal (base.get kind id) (remote.get kind id) := by
  have reported : ∀ (key : Key) (notice : Notice),
      (mergeKey unmarshal base localDoc remote ⟨false, changed⟩ key).2 = some notice →
        (notice.kind = key.1 ∧ notice.name = key.2) ∧ ¬ Same unmarshal (base.get key.1 key.2) (localDoc.get key.1 key.2) ∧
          ¬ Same unmarshal (base.get key.1 key.2) (remote.get key.1 key.2) := by
    intro key notice decided
    by_cases remoteSame : Same unmarshal (base.get key.1 key.2) (remote.get key.1 key.2)
    · rw [mergeKey, mergeEntity_local_kept unmarshal remoteSame] at decided
      cases decided
    · by_cases localSame : Same unmarshal (base.get key.1 key.2) (localDoc.get key.1 key.2)
      · rw [mergeKey, mergeEntity_remote_kept unmarshal localSame remoteSame] at decided
        cases decided
      · obtain ⟨given, chosen, named⟩ := mergeEntity_both_changed unmarshal key.1 key.2 ⟨false, changed⟩
            localSame remoteSame (.inl rfl)
        rw [mergeKey, chosen] at decided
        cases decided
        exact ⟨named, localSame, remoteSame⟩
  constructor
  · rintro ⟨notice, listed, rfl, rfl⟩
    obtain ⟨key, _, decided⟩ := (mem_notices unmarshal now base localDoc remote _).mp listed
    obtain ⟨⟨sameKind, sameId⟩, differ⟩ := reported key notice decided
    rw [sameKind, sameId]
    exact differ
  · rintro ⟨localChanged, remoteChanged⟩
    obtain ⟨notice, chosen, named⟩ := mergeEntity_both_changed unmarshal kind id ⟨false, changed⟩
        localChanged remoteChanged (.inl rfl)
    refine ⟨notice, (mem_notices unmarshal now base localDoc remote _).mpr ⟨(kind, id), ?_, ?_⟩, named⟩
    · by_cases absent : base.get kind id = none
      · have held : localDoc.get kind id ≠ none := by
          intro missing
          exact localChanged (by rw [absent, missing]; exact same_refl unmarshal none)
        exact mem_keysOf (by simp : localDoc.entities ∈ [base.entities, localDoc.entities, remote.entities]) held
      · exact mem_keysOf (by simp : base.entities ∈ [base.entities, localDoc.entities, remote.entities]) absent
    · rw [mergeKey, chosen]

theorem live_laterChange_swap
    (decidable : ¬ (live left ≠ none ∧ live right ≠ none ∧ eventTime left = eventTime right)) :
    live (laterChange left right) = live (laterChange right left) := by
  unfold laterChange
  by_cases later : eventTime left > eventTime right
  · have notEarlier : ¬ eventTime right > eventTime left := by omega
    simp only [later, notEarlier, if_true, if_false]
  · by_cases earlier : eventTime right > eventTime left
    · simp only [later, earlier, if_true, if_false]
    · have tied : eventTime left = eventTime right := by omega
      simp only [later, earlier, if_false]
      cases liveLeft : live left with
      | none =>
        cases liveRight : live right with
        | none => simp [liveLeft, liveRight]
        | some kept => simp [liveRight]
      | some kept =>
        cases liveRight : live right with
        | none => simp [liveLeft]
        | some other => exact absurd ⟨by simp [liveLeft], by simp [liveRight], tied⟩ decidable

private theorem swap_agree (kind : Kind) (id : String)
    (apart : ¬ (live (localDoc.get kind id) ≠ none ∧ live (remote.get kind id) ≠ none ∧
      eventTime (localDoc.get kind id) = eventTime (remote.get kind id))) :
    Agree unmarshal ((merge unmarshal now base localDoc remote ⟨false, changed⟩).1.get kind id)
      ((merge unmarshal now base remote localDoc ⟨false, changed⟩).1.get kind id) := by
  by_cases localSame : Same unmarshal (base.get kind id) (localDoc.get kind id)
  · by_cases remoteSame : Same unmarshal (base.get kind id) (remote.get kind id)
    · rw [merge_get_of_remote_same unmarshal remoteSame,
        merge_get_of_remote_same unmarshal localSame, agree_live_left, agree_live_right]
      exact Same.agree unmarshal (same_trans unmarshal (same_symm unmarshal localSame) remoteSame)
    · rw [merge_get_of_local_same unmarshal localSame remoteSame,
        merge_get_of_remote_same unmarshal localSame]
      exact agree_refl unmarshal _
  · by_cases remoteSame : Same unmarshal (base.get kind id) (remote.get kind id)
    · rw [merge_get_of_remote_same unmarshal remoteSame,
        merge_get_of_local_same unmarshal remoteSame localSame]
      exact agree_refl unmarshal _
    · rw [merge_get_of_both_changed unmarshal localSame remoteSame,
        merge_get_of_both_changed unmarshal remoteSame localSame,
        live_laterChange_swap apart]
      exact agree_refl unmarshal _

theorem merge_self (document : Document) :
    (∀ kind id, (merge unmarshal now document document document ⟨false, changed⟩).1.get kind id =
      live (document.get kind id)) ∧
    (merge unmarshal now document document document ⟨false, changed⟩).1.order = document.order ∧
    (merge unmarshal now document document document ⟨false, changed⟩).2 = [] := by
  refine ⟨fun kind id => ?_, ?_, ?_⟩
  · exact merge_get_of_remote_same unmarshal (same_refl unmarshal _)
  · simp [merge, mergeOrder]
  · rw [List.eq_nil_iff_forall_not_mem]
    intro notice listed
    have changedBoth := (merge_notice_iff unmarshal notice.kind notice.name).mp
      ⟨notice, listed, rfl, rfl⟩
    exact changedBoth.1 (same_refl unmarshal _)

variable (now base localDoc remote changed)

/-- The merge keeps the three-way laws exactly when no key was changed on both
    sides to the same content: such a change is reported as a conflict. -/
theorem merge_lawful_iff : Lawful unmarshal now base localDoc remote changed ↔
    ∀ kind id, ¬ Same unmarshal (base.get kind id) (localDoc.get kind id) →
      ¬ Same unmarshal (base.get kind id) (remote.get kind id) →
      ¬ Agree unmarshal (localDoc.get kind id) (remote.get kind id) := by
  constructor
  · intro lawful kind id localChanged remoteChanged
    obtain ⟨notice, listed, rfl, rfl⟩ :=
      (merge_notice_iff unmarshal kind id).mpr ⟨localChanged, remoteChanged⟩
    exact (lawful.noticed notice listed).2.2
  · intro disagree
    refine ⟨?_, ?_, ?_, ?_, swap_agree unmarshal, ?_,
      merge_self unmarshal⟩
    · intro kind id localSame
      by_cases remoteSame : Same unmarshal (base.get kind id) (remote.get kind id)
      · rw [merge_get_of_remote_same unmarshal remoteSame, agree_live_left]
        exact Same.agree unmarshal (same_trans unmarshal (same_symm unmarshal localSame) remoteSame)
      · rw [merge_get_of_local_same unmarshal localSame remoteSame, agree_live_left]
        exact agree_refl unmarshal _
    · intro kind id remoteSame
      rw [merge_get_of_remote_same unmarshal remoteSame, agree_live_left]
      exact agree_refl unmarshal _
    · intro kind id localChanged remoteChanged later
      rw [merge_get_of_both_changed unmarshal localChanged remoteChanged, laterChange,
        if_pos later]
    · intro kind id localChanged remoteChanged later
      have notLocal : ¬ eventTime (localDoc.get kind id) > eventTime (remote.get kind id) := by omega
      rw [merge_get_of_both_changed unmarshal localChanged remoteChanged, laterChange,
        if_neg notLocal, if_pos later]
    · intro notice listed
      obtain ⟨localChanged, remoteChanged⟩ :=
        (merge_notice_iff unmarshal notice.kind notice.name).mp
          ⟨notice, listed, rfl, rfl⟩
      exact ⟨localChanged, remoteChanged, disagree notice.kind notice.name localChanged remoteChanged⟩

end

end

/-- Two devices that gave one service the same new document, at different times. -/
def sameChange (content : UInt8) (updatedAt : Nat) : Document :=
  (newDocument "device" 1 updatedAt).put .service "s" ⟨0, updatedAt, false, [content], ""⟩

theorem merge_reports_same_change :
    ¬ Lawful (some : List UInt8 → Option (List UInt8)) 9 (sameChange 0 1) (sameChange 1 3) (sameChange 1 2) [] := by
  intro lawful
  obtain ⟨notice, listed, sameKind, sameId⟩ :=
    (@merge_notice_iff _ _ (some : List UInt8 → Option (List UInt8)) 9 (sameChange 0 1) (sameChange 1 3) (sameChange 1 2) []
      .service "s").mpr (by decide)
  have disagree := (lawful.noticed notice listed).2.2
  rw [sameKind, sameId] at disagree
  exact disagree (by decide)

end AstrLink.Merge
