import AstrLink.Merge

/-!
What a device's settings select. The kinds outside the scope never reach the
merge; they are carried from the base and the remote into the package, and a
dependant whose provider is not in the package is pruned from it.
-/
namespace AstrLink.Scope
open Tables Package Merge

/-- Which configuration is packaged. -/
structure SyncScope where
  services : Bool
  credentials : Bool
  policies : Bool
  pricing : Bool
  tokens : Bool

/-- The kinds that are selected, in groups that name each other by id. -/
def inScope (scope : SyncScope) : Kind → Bool
  | .service => scope.services
  | .serviceCredential => scope.services && scope.credentials
  | .serviceProxyCredential => scope.services && scope.credentials
  | .builtinToolCredential => scope.services && scope.credentials
  | .policy => scope.policies
  | .pricingConfig => scope.services && scope.pricing
  | .accessToken => scope.tokens
  | .other _ => false

/-- A copy of a package with only the kinds a scope selects. -/
def restrict (document : Document) (selected : Kind → Bool) : Document :=
  { document with entities := keep (fun key _ => selected key.1) document.entities }

/-- Puts every entity of one kind of the source into the package. -/
def carryKind (kind : Kind) (merged source : Document) : Document :=
  { merged with entities := keep (fun key _ => decide (key.1 = kind)) source.entities ∪ merged.entities }

/-- Preserves the kinds the merge never saw; later sources win. -/
def carryThrough (merged : Document) (selected : Kind → Bool) (sources : List Document) : Document :=
  kinds.foldl (fun carried kind =>
    if selected kind then carried else sources.foldl (carryKind kind) carried) merged

/-- The kinds whose entity belongs to the provider of the same id. -/
def dependentKinds : List Kind := [.pricingConfig, .serviceCredential, .serviceProxyCredential]

/-- Drops a credential or price binding whose provider is not in the package. -/
def pruneOrphans (document : Document) : Document :=
  { document with
    entities := keep (fun key _ => !decide (key.1 ∈ dependentKinds) || (document.get .service key.2).isSome)
      document.entities }

/-- Whether a package may not be read by writers of the legacy format. -/
def requiresV2 (document : Document) : Bool :=
  decide (document.version ≥ packageVersion) || document.entities.keys.any (fun key => decide (key.1 = .accessToken))

/-- Once access tokens take part the newer version persists. -/
def syncDocumentVersion (tokens : Bool) (base : Document) (hasBase : Bool) (remote : Document) (remoteExists : Bool) : Int :=
  if tokens || (hasBase && requiresV2 base) || (remoteExists && requiresV2 remote) then packageVersion
  else legacyPackageVersion

variable (document : Document)

theorem get_restrict (selected : Kind → Bool) (kind : Kind) (id : String) :
    (restrict document selected).get kind id = if selected kind then document.get kind id else none := by
  simp only [restrict, Document.get, lookup_keep]
  cases selected kind <;> cases document.entities.lookup (kind, id) <;> rfl

theorem get_carryKind (carried : Kind) (merged source : Document) (kind : Kind) (id : String) :
    (carryKind carried merged source).get kind id =
      if kind = carried then (source.get kind id).or (merged.get kind id) else merged.get kind id := by
  have kept : (keep (fun key _ => decide (key.1 = carried)) source.entities).lookup (kind, id) =
      if kind = carried then source.get kind id else none := by
    rw [lookup_keep]
    by_cases same : kind = carried
    · cases found : source.entities.lookup (kind, id) <;> simp [same, Document.get, found, Option.filter]
    · cases found : source.entities.lookup (kind, id) <;> simp [same, Option.filter]
  simp only [carryKind, Document.get, lookup_union]
  rw [kept]
  by_cases same : kind = carried
  · rw [if_pos same, if_pos same, Document.get]
  · rw [if_neg same, if_neg same, Option.none_or]

private theorem get_foldl_carry (passed : List Kind) (merged : Document) (selected : Kind → Bool) (base remote : Document)
    (distinct : passed.Nodup) (kind : Kind) (id : String) :
    (passed.foldl (fun carried kind => if selected kind then carried
      else [base, remote].foldl (carryKind kind) carried) merged).get kind id =
      if kind ∈ passed ∧ selected kind = false then
        (remote.get kind id).or ((base.get kind id).or (merged.get kind id))
      else merged.get kind id := by
  induction passed generalizing merged with
  | nil => simp
  | cons head rest ih =>
    obtain ⟨fresh, distinctRest⟩ := List.nodup_cons.mp distinct
    rw [List.foldl_cons, ih _ distinctRest]
    by_cases same : kind = head
    · subst same
      cases chosen : selected kind <;> simp [fresh, get_carryKind]
    · have unchanged : (if selected head then merged else [base, remote].foldl (carryKind head) merged).get kind id =
          merged.get kind id := by
        cases selected head <;> simp [get_carryKind, same]
      rw [unchanged]
      simp [same]

theorem get_carryThrough (merged : Document) (selected : Kind → Bool) (base remote : Document) (kind : Kind) (id : String) :
    (carryThrough merged selected [base, remote]).get kind id =
      if kind ∈ kinds ∧ selected kind = false then
        (remote.get kind id).or ((base.get kind id).or (merged.get kind id))
      else merged.get kind id :=
  get_foldl_carry kinds merged selected base remote (by decide) kind id

theorem get_pruneOrphans (kind : Kind) (id : String) :
    (pruneOrphans document).get kind id =
      if kind ∈ dependentKinds ∧ document.get .service id = none then none else document.get kind id := by
  simp only [pruneOrphans, Document.get, lookup_keep]
  by_cases dependent : kind ∈ dependentKinds
  · by_cases orphan : document.entities.lookup (.service, id) = none
    · cases document.entities.lookup (kind, id) <;> simp [dependent, orphan, Option.filter]
    · have held : (document.entities.lookup (.service, id)).isSome := Option.isSome_iff_ne_none.mpr orphan
      cases document.entities.lookup (kind, id) <;> simp [orphan, held, Option.filter]
  · cases document.entities.lookup (kind, id) <;> simp [dependent, Option.filter]

theorem get_pruneOrphans_service (id : String) :
    (pruneOrphans document).get .service id = document.get .service id := by
  rw [get_pruneOrphans, if_neg (by simp [dependentKinds])]

variable {kind : Kind}

section
variable {J : Type} [DecidableEq J] (unmarshal : List UInt8 → Option J)

/-- The merged package with what is out of scope carried through, and the decisions. -/
def compose (now : Nat) (scope : SyncScope) (base : Document) (hasBase : Bool) (localDoc remote : Document)
    (remoteExists : Bool) (changed : List Key) : Document × List Notice :=
  let selected := inScope scope
  let merged := merge unmarshal now (restrict base selected) localDoc (restrict remote selected) ⟨!hasBase, changed⟩
  ({ carryThrough merged.1 selected [base, remote] with
      version := syncDocumentVersion scope.tokens base hasBase remote remoteExists }, merged.2)

/-- The package one merge run publishes, and the decisions it reports. -/
def publish (now : Nat) (scope : SyncScope) (base : Document) (hasBase : Bool) (localDoc remote : Document)
    (remoteExists : Bool) (changed : List Key) : Document × List Notice :=
  let composed := compose unmarshal now scope base hasBase localDoc remote remoteExists changed
  (pruneOrphans composed.1, composed.2)

section
variable {now : Nat} {scope : SyncScope} {base localDoc remote : Document} {hasBase remoteExists : Bool} {changed : List Key}

theorem kinds_of_inScope (selected : inScope scope kind = true) : kind ∈ kinds := by
  cases kind <;> first | decide | simp [inScope] at selected

theorem compose_get_selected (selected : inScope scope kind = true) (id : String) :
    (compose unmarshal now scope base hasBase localDoc remote remoteExists changed).1.get kind id =
      live (mergeEntity unmarshal kind id (base.get kind id) (localDoc.get kind id) (remote.get kind id)
        ⟨!hasBase, changed⟩).1 := by
  have merged := get_carryThrough (merge unmarshal now (restrict base (inScope scope)) localDoc
    (restrict remote (inScope scope)) ⟨!hasBase, changed⟩).1 (inScope scope) base remote kind id
  rw [if_neg (by simp [selected])] at merged
  rw [merge_get, mergeKey, get_restrict, get_restrict, if_pos selected, if_pos selected] at merged
  exact merged

theorem compose_get_carried (known : kind ∈ kinds) (unselected : inScope scope kind = false) (id : String)
    (absent : localDoc.get kind id = none) :
    (compose unmarshal now scope base hasBase localDoc remote remoteExists changed).1.get kind id =
      (remote.get kind id).or (base.get kind id) := by
  have carried := get_carryThrough (merge unmarshal now (restrict base (inScope scope)) localDoc
    (restrict remote (inScope scope)) ⟨!hasBase, changed⟩).1 (inScope scope) base remote kind id
  rw [if_pos ⟨known, unselected⟩] at carried
  rw [merge_get, mergeKey, get_restrict, get_restrict, unselected, absent] at carried
  have nothing : live (mergeEntity unmarshal kind id none none none ⟨!hasBase, changed⟩).1 = none := rfl
  rw [show (if false = true then base.get kind id else none) = none from rfl,
    show (if false = true then remote.get kind id else none) = none from rfl, nothing, Option.or_none] at carried
  exact carried

theorem publish_get (kind : Kind) (id : String) :
    (publish unmarshal now scope base hasBase localDoc remote remoteExists changed).1.get kind id =
      if kind ∈ dependentKinds ∧
          (compose unmarshal now scope base hasBase localDoc remote remoteExists changed).1.get .service id = none then none
      else (compose unmarshal now scope base hasBase localDoc remote remoteExists changed).1.get kind id :=
  get_pruneOrphans _ kind id

theorem publish_get_unknown (unknown : kind ∉ kinds) (id : String) (absent : localDoc.get kind id = none) :
    (publish unmarshal now scope base hasBase localDoc remote remoteExists changed).1.get kind id = none := by
  have unselected : inScope scope kind = false := Bool.eq_false_iff.mpr (fun selected => unknown (kinds_of_inScope selected))
  have merged := get_carryThrough (merge unmarshal now (restrict base (inScope scope)) localDoc
    (restrict remote (inScope scope)) ⟨!hasBase, changed⟩).1 (inScope scope) base remote kind id
  rw [if_neg (fun known => unknown known.1), merge_get, mergeKey, get_restrict, get_restrict, unselected, absent] at merged
  rw [publish_get]
  split
  · rfl
  · exact merged

theorem publish_get_service (id : String) :
    (publish unmarshal now scope base hasBase localDoc remote remoteExists changed).1.get .service id =
      (compose unmarshal now scope base hasBase localDoc remote remoteExists changed).1.get .service id :=
  get_pruneOrphans_service _ id

theorem publish_order :
    (publish unmarshal now scope base hasBase localDoc remote remoteExists changed).1.order =
      mergeOrder base.order localDoc.order remote.order := by
  have kept : ∀ (passed : List Kind) (document : Document), (passed.foldl (fun carried kind =>
      if inScope scope kind then carried else [base, remote].foldl (carryKind kind) carried) document).order =
        document.order := by
    intro passed
    induction passed with
    | nil => intro document; rfl
    | cons head rest ih =>
      intro document
      rw [List.foldl_cons, ih]
      cases inScope scope head <;> rfl
  exact kept kinds _

end

end

end AstrLink.Scope
