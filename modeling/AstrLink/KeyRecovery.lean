import Mathlib.Data.List.Nodup
import AstrLink.KeyRings

/-!
What starts do to a key ring. No envelope is lost (`Kept`), and a start that succeeds leaves one of each kind
that opens, and makes none where a stored one opens (`key_ring_recovery`).
-/
namespace AstrLink.KeyRings
open List
open Option (map_eq_some_iff some.inj some_ne_none)

/-- The data key that a row is an envelope of, in use or set aside. -/
def kindOf (rowKind : Text) : Option Text :=
  [kindSecrets, kindAudit].find? fun kind => rowKind = kind ∨ (orphanedPrefix kind).isPrefixOf rowKind

def IsKind (kind : Text) : Prop := kind = kindSecrets ∨ kind = kindAudit

variable {kind : Text}

theorem kindOf_self (known : IsKind kind) : kindOf kind = some kind := by
  rcases known with rfl | rfl
  · decide
  · decide

theorem kindOf_orphaned (known : IsKind kind) (stamp : Text) : kindOf (orphanedPrefix kind ++ stamp) = some kind := by
  have begins : ∀ kind, (orphanedPrefix kind).isPrefixOf (orphanedPrefix kind ++ stamp) = true := fun kind =>
    List.isPrefixOf_iff_prefix.mpr (prefix_append _ _)
  rcases known with rfl | rfl
  · rw [kindOf, find?_cons_of_pos (by simp [begins])]
  · rw [kindOf, find?_cons_of_neg, find?_cons_of_pos (by simp [begins])]
    simp [orphanedPrefix, kindAudit, kindSecrets]

variable {rowKind : Text}

theorem kindOf_some (of : kindOf rowKind = some kind) :
    rowKind = kind ∨ (orphanedPrefix kind).isPrefixOf rowKind = true := by
  have holds := find?_some of
  simpa using holds

theorem kindOf_prefixed (known : IsKind kind) (begins : (orphanedPrefix kind).isPrefixOf rowKind = true) :
    kindOf rowKind = some kind ∧ rowKind ≠ kind := by
  obtain ⟨stamp, rfl⟩ := List.isPrefixOf_iff_prefix.mp begins
  refine ⟨kindOf_orphaned known stamp, fun contra => ?_⟩
  have lengths := congrArg List.length contra
  rw [orphanedPrefix, length_append, length_append] at lengths
  have some_dot : 0 < ".orphaned.".toList.length := by decide
  omega

theorem kindOf_legacy (stamp : Text) : kindOf (legacyKind kindAudit stamp) = none := by
  simp [kindOf, legacyKind, kindAudit, kindSecrets, orphanedPrefix]

def Distinct (rows : List KeyEnvelope) : Prop := (rows.map KeyEnvelope.kind).Nodup

structure Same (row later : KeyEnvelope) : Prop where
  nonce : later.nonce = row.nonce
  wrapped : later.wrapped = row.wrapped
  createdAt : later.createdAt = row.createdAt
  kindOf : kindOf later.kind = kindOf row.kind
  /-- An envelope of neither key, or a test build's key, keeps its name. -/
  other : KeyRings.kindOf row.kind = none → later.kind = row.kind

def Kept (rows later : List KeyEnvelope) : Prop :=
  ∀ (index : Nat) row, rows[index]? = some row → ∃ row', later[index]? = some row' ∧ Same row row'

theorem Same.refl (row : KeyEnvelope) : Same row row := ⟨rfl, rfl, rfl, rfl, fun _ => rfl⟩

variable {row : KeyEnvelope}

theorem Same.trans {middle later : KeyEnvelope} (first : Same row middle) (second : Same middle later) :
    Same row later :=
  ⟨second.nonce.trans first.nonce, second.wrapped.trans first.wrapped, second.createdAt.trans first.createdAt,
    second.kindOf.trans first.kindOf, fun free => (second.other (first.kindOf.trans free)).trans (first.other free)⟩

theorem Kept.refl (rows : List KeyEnvelope) : Kept rows rows := fun _ row found => ⟨row, found, .refl row⟩

variable {rows : List KeyEnvelope}
variable {later : List KeyEnvelope}

theorem Kept.trans {middle : List KeyEnvelope} (first : Kept rows middle) (second : Kept middle later) :
    Kept rows later := by
  intro index row found
  obtain ⟨row', here, same⟩ := first index row found
  obtain ⟨row'', there, same'⟩ := second index row' here
  exact ⟨row'', there, same.trans same'⟩

variable {change : KeyEnvelope → KeyEnvelope}

theorem Kept.map (same : ∀ row ∈ rows, Same row (change row)) :
    Kept rows (rows.map change) := by
  intro index row found
  refine ⟨change row, ?_, same row (mem_of_getElem? found)⟩
  rw [getElem?_map, found]
  rfl

theorem Kept.append (rows new : List KeyEnvelope) : Kept rows (rows ++ new) := by
  intro index row found
  obtain ⟨inside, -⟩ := List.getElem?_eq_some_iff.mp found
  exact ⟨row, by rw [getElem?_append_left inside, found], .refl row⟩

def envelopeCount (kind : Text) (rows : List KeyEnvelope) : Nat := rows.countP fun row => kindOf row.kind = some kind

theorem envelopeCount_map (same : ∀ row ∈ rows, Same row (change row)) (kind : Text) :
    envelopeCount kind (rows.map change) = envelopeCount kind rows := by
  rw [envelopeCount, countP_map]
  refine countP_congr fun row listed => ?_
  rw [Function.comp_apply, (same row listed).kindOf]

theorem envelopeOf_mem (distinct : Distinct rows) (listed : row ∈ rows) :
    envelopeOf rows row.kind = some row := by
  induction rows with
  | nil => exact absurd listed not_mem_nil
  | cons first rest ih =>
    rw [Distinct, map_cons, nodup_cons] at distinct
    rw [envelopeOf]
    rcases mem_cons.mp listed with rfl | listed
    · rw [find?_cons_of_pos (by simp)]
    · have apart : first.kind ≠ row.kind := fun same => distinct.1 (same ▸ mem_map_of_mem listed)
      rw [find?_cons_of_neg (by simpa using apart)]
      exact ih distinct.2 listed

theorem envelopeOf_some (found : envelopeOf rows kind = some row) : row ∈ rows ∧ row.kind = kind :=
  ⟨mem_of_find?_eq_some found, by simpa using find?_some found⟩

theorem insertRow_ok (distinct : Distinct rows) (inserted : insertRow rows row = .ok later) :
    later = rows ++ [row] ∧ Distinct later := by
  unfold insertRow at inserted
  split at inserted
  · cases inserted
  · rename_i free
    split at inserted
    · cases inserted
    · cases inserted
      refine ⟨rfl, ?_⟩
      rw [Distinct, map_append, nodup_append]
      refine ⟨distinct, nodup_singleton _, ?_⟩
      rintro kind listed other single rfl
      obtain ⟨held, inside, same⟩ := mem_map.mp listed
      refine free (any_eq_true.mpr ⟨held, inside, ?_⟩)
      rw [decide_eq_true_eq, same]
      exact mem_singleton.mp single

theorem renameKind_ok {old new : Text} (distinct : Distinct rows) (renamed : renameKind rows old new = .ok later) :
    later = rows.map (fun row => row.renamed old new) ∧ Distinct later ∧
      ((∃ row ∈ rows, row.kind = old) → old ≠ new → ∀ row ∈ rows, row.kind ≠ new) := by
  unfold renameKind at renamed
  split at renamed
  · cases renamed
  · rename_i free
    cases renamed
    have unheld : (∃ row ∈ rows, row.kind = old) → old ≠ new → ∀ row ∈ rows, row.kind ≠ new := by
      rintro ⟨row, listed, named⟩ apart other inside taken
      exact free ⟨apart, any_eq_true.mpr ⟨row, listed, by simpa using named⟩,
        any_eq_true.mpr ⟨other, inside, by simpa using taken⟩⟩
    refine ⟨rfl, ?_, unheld⟩
    have kinds : (rows.map fun row => row.renamed old new).map KeyEnvelope.kind =
        (rows.map KeyEnvelope.kind).map fun kind => if kind = old then new else kind := by
      rw [map_map, map_map]
      refine map_congr_left fun row _ => ?_
      simp only [Function.comp_apply, KeyEnvelope.renamed]
      split
      · rfl
      · rfl
    rw [Distinct, kinds]
    refine distinct.map_on fun kind listed other inside same => ?_
    obtain ⟨row, held, rfl⟩ := mem_map.mp listed
    obtain ⟨row', held', rfl⟩ := mem_map.mp inside
    by_cases first : row.kind = old
    · by_cases second : row'.kind = old
      · rw [first, second]
      · rw [if_pos first, if_neg second] at same
        by_cases apart : old = new
        · exact absurd (same.symm.trans apart.symm) second
        · exact absurd same.symm (unheld ⟨row, held, first⟩ apart row' held')
    · by_cases second : row'.kind = old
      · rw [if_neg first, if_pos second] at same
        by_cases apart : old = new
        · exact absurd (same.trans apart.symm) first
        · exact absurd same (unheld ⟨row', held', second⟩ apart row held)
      · rw [if_neg first, if_neg second] at same
        exact same

theorem textLe_total (text other : Text) : (textLe text other || textLe other text) = true := by
  induction text generalizing other with
  | nil => rfl
  | cons char rest ih =>
    cases other with
    | nil => rfl
    | cons first more =>
      rw [textLe, textLe]
      rcases Nat.lt_trichotomy char.toNat first.toNat with below | same | above
      · rw [if_pos below]
        rfl
      · rw [same, if_neg (Nat.lt_irrefl _), if_neg (Nat.lt_irrefl _), if_neg (Nat.lt_irrefl _), if_neg (Nat.lt_irrefl _)]
        exact ih more
      · rw [if_neg (Nat.lt_asymm above), if_pos above, Bool.false_or, if_pos above]

theorem textLe_cons {char other : Char} {rest more : Text} (ordered : textLe (char :: rest) (other :: more) = true) :
    char.toNat < other.toNat ∨ (char.toNat = other.toNat ∧ textLe rest more = true) := by
  rw [textLe] at ordered
  rcases Nat.lt_trichotomy char.toNat other.toNat with below | same | above
  · exact .inl below
  · rw [same, if_neg (Nat.lt_irrefl _), if_neg (Nat.lt_irrefl _)] at ordered
    exact .inr ⟨same, ordered⟩
  · rw [if_neg (Nat.lt_asymm above), if_pos above] at ordered
    cases ordered

theorem textLe_antisymm {text other : Text} (first : textLe text other = true) (second : textLe other text = true) :
    text = other := by
  induction text generalizing other with
  | nil =>
    cases other with
    | nil => rfl
    | cons => cases second
  | cons char rest ih =>
    cases other with
    | nil => cases first
    | cons head more =>
      rcases textLe_cons first with below | ⟨same, tail⟩
      · rcases textLe_cons second with contra | ⟨contra, -⟩
        · omega
        · omega
      · rcases textLe_cons second with contra | ⟨-, tail'⟩
        · omega
        · rw [Char.toNat_inj.mp same, ih tail tail']

theorem textLe_trans {text middle other : Text} (first : textLe text middle = true) (second : textLe middle other = true) :
    textLe text other = true := by
  induction text generalizing middle other with
  | nil => rfl
  | cons char rest ih =>
    cases middle with
    | nil => cases first
    | cons head more =>
      cases other with
      | nil => cases second
      | cons last others =>
        rw [textLe]
        rcases textLe_cons first with below | ⟨same, tail⟩
        · rcases textLe_cons second with below' | ⟨same', -⟩
          · rw [if_pos (by omega)]
          · rw [if_pos (by omega)]
        · rcases textLe_cons second with below' | ⟨same', tail'⟩
          · rw [if_pos (by omega)]
          · rw [if_neg (by omega), if_neg (by omega)]
            exact ih tail tail'

theorem newer_total (row other : KeyEnvelope) : (newer row other || newer other row) = true := by
  unfold newer
  by_cases same : row.createdAt = other.createdAt
  · rw [if_pos same, if_pos same.symm]
    exact textLe_total _ _
  · rw [if_neg same, if_neg (fun contra => same contra.symm)]
    exact textLe_total _ _

theorem newer_trans (row middle other : KeyEnvelope) (first : newer row middle = true) (second : newer middle other = true) :
    newer row other = true := by
  unfold newer at first second ⊢
  by_cases same : row.createdAt = middle.createdAt
  · rw [if_pos same] at first
    rw [same]
    by_cases same' : middle.createdAt = other.createdAt
    · rw [if_pos same'] at second ⊢
      exact textLe_trans second first
    · rw [if_neg same'] at second ⊢
      exact second
  · rw [if_neg same] at first
    by_cases same' : middle.createdAt = other.createdAt
    · rw [← same', if_neg same]
      exact first
    · rw [if_neg same'] at second
      by_cases ends : row.createdAt = other.createdAt
      · rw [ends] at first same
        exact absurd (textLe_antisymm second first) (fun contra => same contra)
      · rw [if_neg ends]
        exact textLe_trans second first

/-! ### Opening an envelope -/

/-- What setting aside and taking back do to a row. -/
def moved (kind orphan : Text) (restored : Option Text) (row : KeyEnvelope) : KeyEnvelope :=
  if row.kind = kind then { row with kind := orphan } else if restored = some row.kind then { row with kind := kind } else row

theorem moved_same (known : IsKind kind) (stamp : Text) {restored : Option Text}
    (aside : ∀ rowKind, restored = some rowKind → kindOf rowKind = some kind) (row : KeyEnvelope) :
    Same row (moved kind (orphanedPrefix kind ++ stamp) restored row) := by
  unfold moved
  split
  · rename_i active
    refine ⟨rfl, rfl, rfl, ?_, fun free => ?_⟩
    · rw [active, kindOf_self known]
      exact kindOf_orphaned known stamp
    · rw [active, kindOf_self known] at free
      cases free
  · split
    · rename_i taken
      have of := aside row.kind taken
      refine ⟨rfl, rfl, rfl, ?_, fun free => ?_⟩
      · rw [of]
        exact kindOf_self known
      · rw [of] at free
        cases free
    · exact .refl row

section
variable {cipher : Cipher}

variable {rows : List KeyEnvelope} {kind : Text}

variable {localKey dek : Bytes}

theorem restore_some (found : restoreSetAsideEnvelope cipher localKey rows kind = some (rowKind, dek)) :
    ∃ row ∈ rows, row.kind = rowKind ∧ (orphanedPrefix kind).isPrefixOf rowKind = true ∧
      unwrapRow cipher localKey kind row = some dek ∧
      ∀ other ∈ rows, (orphanedPrefix kind).isPrefixOf other.kind = true → unwrapRow cipher localKey kind other ≠ none →
        newer row other = true := by
  obtain ⟨front, row, back, split, here, before⟩ := findSome?_eq_some_iff.mp found
  obtain ⟨key, opens, same⟩ := map_eq_some_iff.mp here
  cases same
  have listed : row ∈ setAside rows kind := by
    rw [split]
    exact mem_append_right _ mem_cons_self
  obtain ⟨held, begins⟩ := mem_filter.mp (mem_mergeSort.mp listed)
  refine ⟨row, held, rfl, begins, opens, fun other inside begins' opens' => ?_⟩
  have sorted : (setAside rows kind).Pairwise fun row other => newer row other = true :=
    pairwise_mergeSort newer_trans newer_total _
  have among : other ∈ setAside rows kind := mem_mergeSort.mpr (mem_filter.mpr ⟨inside, begins'⟩)
  rw [split] at among sorted
  rcases mem_append.mp among with early | among
  · exact absurd (Option.map_eq_none_iff.mp (before other early)) opens'
  · rcases mem_cons.mp among with rfl | late
    · have either := newer_total other other
      rw [Bool.or_self] at either
      exact either
    · exact (pairwise_cons.mp (pairwise_append.mp sorted).2.1).1 other late

theorem restore_none (found : restoreSetAsideEnvelope cipher localKey rows kind = none) :
    ∀ row ∈ rows, (orphanedPrefix kind).isPrefixOf row.kind = true → unwrapRow cipher localKey kind row = none := by
  intro row listed begins
  have each := findSome?_eq_none_iff.mp found row
    (mem_mergeSort.mpr (mem_filter.mpr ⟨listed, begins⟩))
  exact Option.map_eq_none_iff.mp each

variable {start : Start}

theorem putAside_ok {between : List KeyEnvelope} (known : IsKind kind) (distinct : Distinct rows)
    (put : (if (envelopeOf rows kind).isSome = true then renameKind rows kind (orphanedPrefix kind ++ start.stamp) else .ok rows) = .ok between) :
    between = rows.map (fun row => row.renamed kind (orphanedPrefix kind ++ start.stamp)) ∧ Distinct between ∧
      ∀ row ∈ rows, row.kind = kind → ∀ other ∈ rows, other.kind ≠ orphanedPrefix kind ++ start.stamp := by
  have begins : (orphanedPrefix kind).isPrefixOf (orphanedPrefix kind ++ start.stamp) = true :=
    List.isPrefixOf_iff_prefix.mpr (prefix_append _ _)
  split at put
  · obtain ⟨same, apart, free⟩ := renameKind_ok distinct put
    exact ⟨same, apart, fun row listed named =>
      free ⟨row, listed, named⟩ (fun contra => (kindOf_prefixed known begins).2 contra.symm)⟩
  · rename_i missing
    cases put
    have absent : ∀ row ∈ rows, row.kind ≠ kind := by
      rintro row listed rfl
      exact missing (by rw [envelopeOf_mem distinct listed]; rfl)
    refine ⟨?_, distinct, fun row listed named => absurd named (absent row listed)⟩
    have kept : rows.map (fun row => row.renamed kind (orphanedPrefix kind ++ start.stamp)) = rows.map id :=
      map_congr_left fun row listed => if_neg (absent row listed)
    rw [kept, map_id]

variable {later : List KeyEnvelope}

theorem openEnvelope_cases {dek : Option Bytes} {orphaned : Bool} (known : IsKind kind) (distinct : Distinct rows)
    (opened : openEnvelope cipher start rows kind = .ok (later, dek, orphaned)) :
    (∃ row key, row ∈ rows ∧ row.kind = kind ∧ unwrapRow cipher start.localKey kind row = some key ∧
        later = rows ∧ dek = some key) ∨
      (start.mode ≠ .readOnly ∧ (∀ row ∈ rows, row.kind = kind →
          unwrapRow cipher start.localKey kind row = none ∧ start.mode = .repair) ∧
        later = rows.map (moved kind (orphanedPrefix kind ++ start.stamp)
          ((restoreSetAsideEnvelope cipher start.localKey rows kind).map Prod.fst)) ∧ Distinct later ∧
        dek = (restoreSetAsideEnvelope cipher start.localKey rows kind).map Prod.snd) := by
  unfold openEnvelope at opened
  dsimp only at opened
  cases opens : (envelopeOf rows kind).bind (unwrapRow cipher start.localKey kind) with
  | some key =>
    rw [opens] at opened
    obtain ⟨rfl, rfl, -⟩ : rows = later ∧ some key = dek ∧ false = orphaned := by simpa using opened
    obtain ⟨row, found, unwraps⟩ := Option.bind_eq_some_iff.mp opens
    obtain ⟨listed, named⟩ := envelopeOf_some found
    exact .inl ⟨row, key, listed, named, unwraps, rfl, rfl⟩
  | none =>
    rw [opens] at opened
    right
    have closed : ∀ row ∈ rows, row.kind = kind → unwrapRow cipher start.localKey kind row = none ∧
        (envelopeOf rows kind).isSome = true := by
      rintro row listed rfl
      rw [envelopeOf_mem distinct listed] at opens ⊢
      exact ⟨opens, rfl⟩
    dsimp only at opened
    by_cases mismatch : (envelopeOf rows kind).isSome = true ∧ start.mode ≠ .repair
    · rw [if_pos mismatch] at opened
      cases opened
    · rw [if_neg mismatch] at opened
      by_cases reads : start.mode = .readOnly
      · rw [if_pos reads] at opened
        cases opened
      · rw [if_neg reads] at opened
        refine ⟨reads, fun row listed named => ⟨(closed row listed named).1, ?_⟩, ?_⟩
        · exact Decidable.byContradiction fun contra => mismatch ⟨(closed row listed named).2, contra⟩
        · cases put : (if (envelopeOf rows kind).isSome = true then
              renameKind rows kind (orphanedPrefix kind ++ start.stamp) else .ok rows) with
          | error error =>
            rw [put] at opened
            cases opened
          | ok between =>
            rw [put] at opened
            obtain ⟨same, apart, free⟩ := putAside_ok known distinct put
            dsimp only at opened
            cases restored : restoreSetAsideEnvelope cipher start.localKey rows kind with
            | none =>
              rw [restored] at opened
              obtain ⟨rfl, rfl, -⟩ : between = later ∧ none = dek ∧ (envelopeOf rows kind).isSome = orphaned := by
                simpa using opened
              refine ⟨?_, apart, rfl⟩
              rw [same]
              rfl
            | some found =>
              obtain ⟨rowKind, key⟩ := found
              rw [restored] at opened
              dsimp only at opened
              cases back : renameKind between rowKind kind with
              | error error =>
                rw [back] at opened
                cases opened
              | ok rows' =>
                rw [back] at opened
                obtain ⟨rfl, rfl, -⟩ : rows' = later ∧ some key = dek ∧ (envelopeOf rows kind).isSome = orphaned := by
                  simpa using opened
                obtain ⟨same', apart', -⟩ := renameKind_ok apart back
                obtain ⟨chosen, held, rfl, -⟩ := restore_some restored
                refine ⟨?_, apart', rfl⟩
                rw [same', same, map_map]
                refine map_congr_left fun row listed => ?_
                rw [Function.comp_apply, moved, Option.map_some]
                unfold KeyEnvelope.renamed
                by_cases active : row.kind = kind
                · have other : orphanedPrefix kind ++ start.stamp ≠ chosen.kind := fun contra =>
                    free row listed active chosen held contra.symm
                  rw [if_pos active, if_pos active, if_neg other]
                · rw [if_neg active, if_neg active]
                  by_cases taken : row.kind = chosen.kind
                  · rw [if_pos taken, if_pos (by rw [taken])]
                  · rw [if_neg taken, if_neg (fun contra => taken (some.inj contra).symm)]

theorem wrap_ok (opens : cipher.Opens) {nonce wrapped : Bytes}
    {drawn : Except String { nonce : Bytes // nonce.length = nonceBytes }}
    (wraps : wrap cipher localKey dek kind drawn = .ok (nonce, wrapped)) :
    unwrap cipher localKey nonce wrapped kind = some dek := by
  unfold wrap at wraps
  split at wraps
  · cases wraps
  · rename_i fields
    rw [not_or, not_or] at fields
    obtain ⟨keyed, sized, named⟩ := fields
    cases drawn with
    | error what => cases wraps
    | ok drawn =>
      obtain ⟨rfl, rfl⟩ := Prod.mk.inj (Except.ok.inj wraps)
      have found := opens localKey drawn.val dek kind (Decidable.not_not.mp keyed) drawn.property
      rw [unwrap, if_neg (fun contra => contra.elim keyed named), found, Option.filter_some]
      exact if_pos (by simpa using Decidable.not_not.mp sized)

theorem insertEnvelope_ok (opens : cipher.Opens) (distinct : Distinct rows)
    (inserted : insertEnvelope cipher start rows dek kind rowKind = .ok later) :
    Distinct later ∧ ∃ row, later = rows ++ [row] ∧ row.kind = rowKind ∧ unwrapRow cipher start.localKey kind row = some dek := by
  unfold insertEnvelope at inserted
  cases wraps : wrap cipher start.localKey dek kind (start.draws.nonce rowKind) with
  | error error => rw [wraps] at inserted; cases inserted
  | ok sealed =>
    obtain ⟨nonce, wrapped⟩ := sealed
    rw [wraps] at inserted
    obtain ⟨rfl, apart⟩ := insertRow_ok distinct inserted
    exact ⟨apart, _, rfl, rfl, wrap_ok opens wraps⟩

/-- The envelope in use when it opens, and else the newest one set aside that does. -/
structure Newest (cipher : Cipher) (localKey : Bytes) (rows : List KeyEnvelope) (kind : Text) (chosen : KeyEnvelope) : Prop where
  listed : chosen ∈ rows
  of : kindOf chosen.kind = some kind
  opens : unwrapRow cipher localKey kind chosen ≠ none
  first : chosen.kind = kind ∨ (∀ row ∈ rows, row.kind = kind → unwrapRow cipher localKey kind row = none) ∧
    ∀ row ∈ rows, kindOf row.kind = some kind → unwrapRow cipher localKey kind row ≠ none → newer chosen row = true

structure Turn (cipher : Cipher) (start : Start) (kind : Text) (rows later : List KeyEnvelope) : Prop where
  distinct : Distinct later
  kept : Kept rows later
  stays : ∀ row ∈ rows, kindOf row.kind ≠ some kind → row ∈ later
  came : ∀ row ∈ later, kindOf row.kind ≠ some kind → row ∈ rows ∨ kindOf row.kind = none
  counts : ∀ other, other ≠ kind → envelopeCount other later = envelopeCount other rows
  firm : start.mode ≠ .repair → ∀ row ∈ rows, row.kind = kind →
    unwrapRow cipher start.localKey kind row ≠ none ∧ row ∈ later

def Active (cipher : Cipher) (localKey : Bytes) (rows : List KeyEnvelope) (kind : Text) (dek : Bytes) : Prop :=
  ∃ row, envelopeOf rows kind = some row ∧ unwrapRow cipher localKey kind row = some dek

/-- Where an envelope of the kind opens, the newest such is the one in use, and none is made. -/
def TakesBack (cipher : Cipher) (localKey : Bytes) (rows later : List KeyEnvelope) (kind : Text) : Prop :=
  (∃ candidate ∈ rows, kindOf candidate.kind = some kind ∧ unwrapRow cipher localKey kind candidate ≠ none) →
    ∃ chosen, Newest cipher localKey rows kind chosen ∧ envelopeOf later kind = some { chosen with kind := kind } ∧
      envelopeCount kind later = envelopeCount kind rows

theorem openEnvelope_turn {dek : Option Bytes} {orphaned : Bool} (known : IsKind kind) (distinct : Distinct rows)
    (opened : openEnvelope cipher start rows kind = .ok (later, dek, orphaned)) :
    Turn cipher start kind rows later ∧ envelopeCount kind later = envelopeCount kind rows ∧
      (∀ key, dek = some key → Active cipher start.localKey later kind key) ∧
      ((∃ candidate ∈ rows, kindOf candidate.kind = some kind ∧ unwrapRow cipher start.localKey kind candidate ≠ none) →
        dek ≠ none ∧ ∃ chosen, Newest cipher start.localKey rows kind chosen ∧
          envelopeOf later kind = some { chosen with kind := kind }) ∧
      (start.mode = .readOnly → later = rows ∧ dek ≠ none) := by
  rcases openEnvelope_cases known distinct opened with
    ⟨row, key, listed, named, unwraps, rfl, rfl⟩ | ⟨writes, closed, same, apart, gives⟩
  · have found : envelopeOf later kind = some row := named ▸ envelopeOf_mem distinct listed
    have only : ∀ other ∈ later, other.kind = kind → other = row := by
      rintro other inside rfl
      exact some.inj ((envelopeOf_mem distinct inside).symm.trans found)
    refine ⟨⟨distinct, .refl later, fun row listed _ => listed, fun row listed _ => .inl listed, fun _ _ => rfl, ?_⟩, rfl,
      ?_, ?_, fun _ => ⟨rfl, some_ne_none key⟩⟩
    · intro _ other inside same
      rw [only other inside same, unwraps]
      exact ⟨some_ne_none key, listed⟩
    · intro other same
      rw [← some.inj same]
      exact ⟨row, found, unwraps⟩
    · intro _
      refine ⟨some_ne_none key, row, ⟨listed, ?_, ?_, .inl named⟩, ?_⟩
      · rw [named, kindOf_self known]
      · rw [unwraps]
        exact some_ne_none key
      · rw [found, ← named]
  · have aside : ∀ rowKind, (restoreSetAsideEnvelope cipher start.localKey rows kind).map Prod.fst = some rowKind →
        kindOf rowKind = some kind := by
      intro rowKind taken
      obtain ⟨⟨rowKind, key⟩, restored, rfl⟩ := map_eq_some_iff.mp taken
      obtain ⟨_, -, -, begins, -⟩ := restore_some restored
      exact (kindOf_prefixed known begins).1
    have each : ∀ row ∈ rows, Same row (moved kind (orphanedPrefix kind ++ start.stamp)
        ((restoreSetAsideEnvelope cipher start.localKey rows kind).map Prod.fst) row) :=
      fun row _ => moved_same known start.stamp aside row
    have unmoved : ∀ row, kindOf row.kind ≠ some kind → moved kind (orphanedPrefix kind ++ start.stamp)
        ((restoreSetAsideEnvelope cipher start.localKey rows kind).map Prod.fst) row = row := by
      intro row free
      rw [moved, if_neg (fun contra => free (by rw [contra, kindOf_self known])),
        if_neg (fun contra => free (aside row.kind contra))]
    -- A set-aside envelope that is taken back has its kind again.
    have back : ∀ rowKind key, restoreSetAsideEnvelope cipher start.localKey rows kind = some (rowKind, key) →
        ∃ chosen, Newest cipher start.localKey rows kind chosen ∧ unwrapRow cipher start.localKey kind chosen = some key ∧
          envelopeOf later kind = some { chosen with kind := kind } := by
      intro rowKind key restored
      obtain ⟨chosen, listed, rfl, begins, unwraps, newest⟩ := restore_some restored
      obtain ⟨of, other⟩ := kindOf_prefixed known begins
      refine ⟨chosen, ⟨listed, of, ?_, .inr ⟨fun row inside named => (closed row inside named).1, ?_⟩⟩, unwraps, ?_⟩
      · rw [unwraps]
        exact some_ne_none key
      · intro row inside of' opens
        rcases kindOf_some of' with named | begins'
        · exact absurd (closed row inside named).1 opens
        · exact newest row inside begins' opens
      · have placed : ({ chosen with kind := kind } : KeyEnvelope) ∈ later := by
          rw [same]
          refine mem_map.mpr ⟨chosen, listed, ?_⟩
          rw [moved, if_neg other, restored, if_pos (by rfl)]
        exact envelopeOf_mem apart placed
    refine ⟨⟨apart, ?_, ?_, ?_, ?_, ?_⟩, ?_, ?_, ?_, fun contra => absurd contra writes⟩
    · rw [same]
      exact .map each
    · intro row listed free
      rw [same]
      exact mem_map.mpr ⟨row, listed, unmoved row free⟩
    · intro row listed free
      rw [same] at listed
      obtain ⟨held, inside, rfl⟩ := mem_map.mp listed
      rw [(each held inside).kindOf] at free
      rw [unmoved held free]
      exact .inl inside
    · intro other _
      rw [same]
      exact envelopeCount_map each other
    · intro firm row listed named
      exact absurd (closed row listed named).2 firm
    · rw [same]
      exact envelopeCount_map each kind
    · intro key found
      rw [gives] at found
      obtain ⟨⟨rowKind, key⟩, restored, rfl⟩ := map_eq_some_iff.mp found
      obtain ⟨chosen, -, unwraps, placed⟩ := back rowKind key restored
      exact ⟨_, placed, unwraps⟩
    · rintro ⟨candidate, listed, of, opens⟩
      cases restored : restoreSetAsideEnvelope cipher start.localKey rows kind with
      | none =>
        rcases kindOf_some of with named | begins
        · exact absurd (closed candidate listed named).1 opens
        · exact absurd (restore_none restored candidate listed begins) opens
      | some found =>
        obtain ⟨rowKind, key⟩ := found
        obtain ⟨chosen, newest, -, placed⟩ := back rowKind key restored
        refine ⟨?_, chosen, newest, placed⟩
        rw [gives, restored]
        exact some_ne_none key

theorem envelopeCount_append (kind : Text) (rows : List KeyEnvelope) (row : KeyEnvelope) :
    envelopeCount kind (rows ++ [row]) = envelopeCount kind rows + if kindOf row.kind = some kind then 1 else 0 := by
  rw [envelopeCount, countP_append, countP_singleton, envelopeCount]
  by_cases of : kindOf row.kind = some kind
  · rw [if_pos of, if_pos (by simpa using of)]
  · rw [if_neg of, if_neg (by simpa using of)]

theorem Turn.append (turn : Turn cipher start kind rows later) (apart : Distinct (later ++ [row]))
    (of : kindOf row.kind = some kind ∨ kindOf row.kind = none) :
    Turn cipher start kind rows (later ++ [row]) where
  distinct := apart
  kept := turn.kept.trans (.append later [row])
  stays other listed free := mem_append_left _ (turn.stays other listed free)
  came other listed free := by
    rcases mem_append.mp listed with held | new
    · exact turn.came other held free
    · rw [mem_singleton.mp new] at free ⊢
      exact .inr (of.resolve_left free)
  counts other apart := by
    rw [envelopeCount_append, turn.counts other apart]
    rcases of with same | free
    · rw [same, if_neg (fun contra => apart (some.inj contra).symm), Nat.add_zero]
    · rw [free, if_neg nofun, Nat.add_zero]
  firm firm other listed named := by
    obtain ⟨opens, held⟩ := turn.firm firm other listed named
    exact ⟨opens, mem_append_left _ held⟩

theorem envelopeOf_append {found : KeyEnvelope} (has : envelopeOf rows kind = some found) (row : KeyEnvelope) :
    envelopeOf (rows ++ [row]) kind = some found := by
  rw [envelopeOf, find?_append, ← envelopeOf, has]
  rfl

theorem ensureKind_turn (opens : cipher.Opens) {legacy : Option Bytes} {asides : List Text} (known : IsKind kind)
    (distinct : Distinct rows) (ensured : ensureKind cipher start legacy rows kind = .ok (later, dek, asides)) :
    Turn cipher start kind rows later ∧ Active cipher start.localKey later kind dek ∧
      TakesBack cipher start.localKey rows later kind ∧ (start.mode = .readOnly → legacy = none → later = rows) := by
  unfold ensureKind at ensured
  cases opened : openEnvelope cipher start rows kind with
  | error error => rw [opened] at ensured; cases ensured
  | ok found =>
    obtain ⟨between, key, orphaned⟩ := found
    obtain ⟨turn, count, active, back, reads⟩ := openEnvelope_turn known distinct opened
    rw [opened] at ensured
    dsimp only at ensured
    cases key with
    | none =>
      have none_opens : ¬∃ candidate ∈ rows, kindOf candidate.kind = some kind ∧
          unwrapRow cipher start.localKey kind candidate ≠ none := fun candidate => (back candidate).1 rfl
      dsimp only at ensured
      split at ensured
      · cases ensured
      · rename_i made _
        cases inserted : insertEnvelope cipher start between made kind kind with
        | error error => rw [inserted] at ensured; cases ensured
        | ok rows' =>
          rw [inserted] at ensured
          obtain ⟨rfl, rfl, -⟩ : rows' = later ∧ made = dek ∧ (if orphaned then [kind] else []) = asides := by
            simpa using ensured
          obtain ⟨apart, row, rfl, named, unwraps⟩ := insertEnvelope_ok opens turn.distinct inserted
          refine ⟨turn.append apart (.inl (by rw [named, kindOf_self known])), ⟨row, ?_, unwraps⟩,
            fun candidate => absurd candidate none_opens, fun readOnly => absurd rfl (reads readOnly).2⟩
          rw [← named]
          exact envelopeOf_mem apart (mem_append_right _ mem_cons_self)
    | some key =>
      have plain : Turn cipher start kind rows between ∧ Active cipher start.localKey between kind key ∧
          TakesBack cipher start.localKey rows between kind := by
        refine ⟨turn, active key rfl, fun candidate => ?_⟩
        obtain ⟨-, chosen, newest, placed⟩ := back candidate
        exact ⟨chosen, newest, placed, count⟩
      dsimp only at ensured
      cases legacy with
      | none =>
        obtain ⟨rfl, rfl, -⟩ : between = later ∧ key = dek ∧ (if orphaned then [kind] else []) = asides := by
          simpa using ensured
        exact ⟨plain.1, plain.2.1, plain.2.2, fun readOnly _ => (reads readOnly).1⟩
      | some legacy =>
        dsimp only at ensured
        split at ensured
        · rename_i other
          cases inserted : insertEnvelope cipher start between legacy kind (legacyKind kind start.stamp) with
          | error error => rw [inserted] at ensured; cases ensured
          | ok rows' =>
            rw [inserted] at ensured
            obtain ⟨rfl, rfl, -⟩ : rows' = later ∧ key = dek ∧ (if orphaned then [kind] else []) ++ [kind] = asides := by
              simpa using ensured
            obtain ⟨apart, row, rfl, named, -⟩ := insertEnvelope_ok opens turn.distinct inserted
            have free : kindOf row.kind = none := by rw [named, other.1, kindOf_legacy]
            obtain ⟨-, ⟨held, found, unwraps⟩, takes⟩ := plain
            refine ⟨turn.append apart (.inr free), ⟨held, envelopeOf_append found row, unwraps⟩, fun candidate => ?_, nofun⟩
            obtain ⟨chosen, newest, placed, same⟩ := takes candidate
            refine ⟨chosen, newest, envelopeOf_append placed row, ?_⟩
            rw [envelopeCount_append, free, if_neg nofun, same]
            rfl
        · obtain ⟨rfl, rfl, -⟩ : between = later ∧ key = dek ∧ (if orphaned then [kind] else []) = asides := by
            simpa using ensured
          exact ⟨plain.1, plain.2.1, plain.2.2, fun _ => nofun⟩

/-! ### Starts -/

variable {database : Database}

theorem ensureKeyRing_ok {after : Database} {ring : KeyRing} {result : KeyRingResult}
    (ensured : ensureKeyRing cipher start database = .ok (after, ring, result)) :
    ∃ legacy rows orphaned more, ¬(legacy.isSome = true ∧ start.mode = .readOnly) ∧
      ensureKind cipher start legacy database.envelopes kindSecrets = .ok (rows, ring.secrets, orphaned) ∧
      ensureKind cipher start legacy rows kindAudit = .ok (after.envelopes, ring.audit, more) ∧
      after.auditKeys = if legacy.isSome then some none else database.auditKeys := by
  unfold ensureKeyRing at ensured
  split at ensured
  · cases ensured
  · cases read : readLegacyAuditKey database with
    | error error => rw [read] at ensured; cases ensured
    | ok found =>
      obtain ⟨legacy, table⟩ := found
      rw [read] at ensured
      dsimp only at ensured
      split at ensured
      · cases ensured
      · rename_i writes
        cases secrets : ensureKind cipher start legacy database.envelopes kindSecrets with
        | error error => rw [secrets] at ensured; cases ensured
        | ok found =>
          obtain ⟨rows, key, orphaned⟩ := found
          rw [secrets] at ensured
          dsimp only at ensured
          cases audit : ensureKind cipher start legacy rows kindAudit with
          | error error => rw [audit] at ensured; cases ensured
          | ok found =>
            obtain ⟨last, auditKey, more⟩ := found
            rw [audit] at ensured
            obtain ⟨rfl, same⟩ := Prod.mk.inj (Except.ok.inj ensured)
            obtain ⟨rfl, -⟩ := Prod.mk.inj same
            exact ⟨legacy, rows, orphaned, more, writes, secrets, audit, rfl⟩

structure Begun (cipher : Cipher) (start : Start) (database after : Database) (ring : KeyRing) : Prop where
  distinct : Distinct after.envelopes
  kept : Kept database.envelopes after.envelopes
  secrets : Active cipher start.localKey after.envelopes kindSecrets ring.secrets
  audit : Active cipher start.localKey after.envelopes kindAudit ring.audit
  takesBack : ∀ kind, IsKind kind → TakesBack cipher start.localKey database.envelopes after.envelopes kind
  /-- Nothing is set aside but in repair. -/
  firm : start.mode ≠ .repair → ∀ kind, IsKind kind → ∀ row ∈ database.envelopes, row.kind = kind →
    unwrapRow cipher start.localKey kind row ≠ none ∧ row ∈ after.envelopes
  reads : start.mode = .readOnly → after = database

theorem kinds_apart : kindSecrets ≠ kindAudit := by decide

theorem ensureKeyRing_begun (opens : cipher.Opens) {after : Database} {ring : KeyRing} {result : KeyRingResult}
    (distinct : Distinct database.envelopes)
    (ensured : ensureKeyRing cipher start database = .ok (after, ring, result)) :
    Begun cipher start database after ring := by
  obtain ⟨legacy, rows, orphaned, more, writes, secrets, audit, tables⟩ := ensureKeyRing_ok ensured
  have knownSecrets : IsKind kindSecrets := .inl rfl
  have knownAudit : IsKind kindAudit := .inr rfl
  obtain ⟨first, firstActive, firstBack, firstReads⟩ := ensureKind_turn opens knownSecrets distinct secrets
  obtain ⟨second, secondActive, secondBack, secondReads⟩ := ensureKind_turn opens knownAudit first.distinct audit
  have auditFree : kindOf kindAudit ≠ some kindSecrets := by decide
  have secretsFree : kindOf kindSecrets ≠ some kindAudit := by decide
  have stay : ∀ row, envelopeOf rows kindSecrets = some row → envelopeOf after.envelopes kindSecrets = some row := by
    intro row found
    obtain ⟨listed, named⟩ := envelopeOf_some found
    rw [← named]
    exact envelopeOf_mem second.distinct (second.stays row listed (by rw [named]; exact secretsFree))
  have ofAudit : ∀ row, kindOf row.kind = some kindAudit → (row ∈ rows ↔ row ∈ database.envelopes) := by
    intro row of
    have free : kindOf row.kind ≠ some kindSecrets := by
      rw [of]
      exact fun contra => kinds_apart (some.inj contra).symm
    constructor
    · intro listed
      refine (first.came row listed free).resolve_right fun contra => ?_
      rw [of] at contra
      cases contra
    · exact fun listed => first.stays row listed free
  refine ⟨second.distinct, first.kept.trans second.kept, ?_, secondActive, ?_, ?_, ?_⟩
  · obtain ⟨row, found, unwraps⟩ := firstActive
    exact ⟨row, stay row found, unwraps⟩
  · rintro kind (rfl | rfl)
    · intro candidate
      obtain ⟨chosen, newest, placed, same⟩ := firstBack candidate
      exact ⟨chosen, newest, stay _ placed, (second.counts kindSecrets kinds_apart).trans same⟩
    · rintro ⟨candidate, listed, of, opens⟩
      obtain ⟨chosen, newest, placed, same⟩ := secondBack ⟨candidate, (ofAudit candidate of).mpr listed, of, opens⟩
      obtain ⟨inside, of', opens', order⟩ := newest
      refine ⟨chosen, ⟨(ofAudit chosen of').mp inside, of', opens', ?_⟩, placed,
        same.trans (first.counts kindAudit (fun contra => kinds_apart contra.symm))⟩
      refine order.imp_right fun ⟨closed, newest⟩ => ⟨fun row inside named => ?_, fun row inside of => ?_⟩
      · refine closed row ((ofAudit row ?_).mpr inside) named
        rw [named, kindOf_self knownAudit]
      · exact newest row ((ofAudit row of).mpr inside) of
  · rintro firm kind (rfl | rfl) row listed named
    · obtain ⟨opens, held⟩ := first.firm firm row listed named
      exact ⟨opens, second.stays row held (by rw [named]; exact secretsFree)⟩
    · exact second.firm firm row (first.stays row listed (by rw [named]; exact auditFree)) named
  · intro readOnly
    have none_legacy : legacy = none := by
      cases legacy with
      | none => rfl
      | some legacy => exact absurd ⟨rfl, readOnly⟩ writes
    have same := (secondReads readOnly none_legacy).trans (firstReads readOnly none_legacy)
    obtain ⟨envelopes, auditKeys⟩ := after
    rw [none_legacy] at tables
    rw [Database.mk.injEq]
    exact ⟨same, tables⟩

theorem begin_cases (opens : cipher.Opens) (distinct : Distinct database.envelopes) (start : Start) :
    (∃ error, begin cipher database start = (database, .error error)) ∨
      ∃ after ring result, begin cipher database start = (after, .ok (ring, result)) ∧ Begun cipher start database after ring := by
  unfold begin
  cases ensured : ensureKeyRing cipher start database with
  | error error => exact .inl ⟨error, rfl⟩
  | ok found =>
    obtain ⟨after, ring, result⟩ := found
    exact .inr ⟨after, ring, result, rfl, ensureKeyRing_begun opens distinct ensured⟩

theorem begin_kept (opens : cipher.Opens) (distinct : Distinct database.envelopes) (start : Start) :
    Distinct (begin cipher database start).1.envelopes ∧ Kept database.envelopes (begin cipher database start).1.envelopes := by
  rcases begin_cases opens distinct start with ⟨error, same⟩ | ⟨after, ring, result, same, begun⟩
  · rw [same]
    exact ⟨distinct, .refl _⟩
  · rw [same]
    exact ⟨begun.distinct, begun.kept⟩

theorem afterStarts_kept (opens : cipher.Opens) (distinct : Distinct database.envelopes) (starts : List Start) :
    Distinct (afterStarts cipher database starts).envelopes ∧
      Kept database.envelopes (afterStarts cipher database starts).envelopes := by
  induction starts generalizing database with
  | nil => exact ⟨distinct, .refl _⟩
  | cons start starts ih =>
    obtain ⟨apart, kept⟩ := begin_kept opens distinct start
    obtain ⟨apart', kept'⟩ := ih apart
    exact ⟨apart', kept.trans kept'⟩

end

/-- After any starts: every envelope is still there, a start that fails changes nothing, and one that succeeds leaves both
keys opened, takes back what opens, and sets aside in repair only. -/
theorem key_ring_recovery {cipher : Cipher} (opens : cipher.Opens) {database : Database} (distinct : Distinct database.envelopes)
    (starts : List Start) (start : Start) :
    Kept database.envelopes (begin cipher (afterStarts cipher database starts) start).1.envelopes ∧
      ((∃ error, begin cipher (afterStarts cipher database starts) start = (afterStarts cipher database starts, .error error)) ∨
        ∃ after ring result, begin cipher (afterStarts cipher database starts) start = (after, .ok (ring, result)) ∧
          Begun cipher start (afterStarts cipher database starts) after ring) := by
  obtain ⟨apart, kept⟩ := afterStarts_kept opens distinct starts
  exact ⟨kept.trans (begin_kept opens apart start).2, begin_cases opens apart start⟩

def sampleHeader (key nonce : Bytes) (data : Text) : Bytes := key ++ nonce ++ data.map fun char => UInt8.ofNat char.toNat

def sampleCipher : Cipher where
  sealAES key nonce plain data := sampleHeader key nonce data ++ plain
  openAES key nonce wrapped data :=
    if (sampleHeader key nonce data).isPrefixOf wrapped then some (wrapped.drop (sampleHeader key nonce data).length) else none

theorem sampleCipher_opens : sampleCipher.Opens := by
  intro key nonce plain data _ _
  have begins : (sampleHeader key nonce data).isPrefixOf (sampleHeader key nonce data ++ plain) = true :=
    List.isPrefixOf_iff_prefix.mpr (prefix_append _ _)
  simp only [sampleCipher]
  rw [if_pos begins, drop_left]

def sampleStart (mode : KeyRingMode) (byte : UInt8) (stamp : String) : Start where
  localKey := List.replicate 32 byte
  stamp := stamp.toList
  mode := mode
  draws := ⟨fun _ => .ok ⟨List.replicate 32 byte, length_replicate⟩,
    fun _ => .ok ⟨List.replicate 12 byte, length_replicate⟩⟩

theorem key_ring_recovery_back :
    ∃ after ring result,
      begin sampleCipher (afterStarts sampleCipher ⟨[], none⟩ [sampleStart .repair 1 "1Z", sampleStart .repair 2 "2Z"])
          (sampleStart .repair 1 "3Z") = (after, .ok (ring, result)) ∧
        Begun sampleCipher (sampleStart .repair 1 "3Z")
          (afterStarts sampleCipher ⟨[], none⟩ [sampleStart .repair 1 "1Z", sampleStart .repair 2 "2Z"]) after ring ∧
        ring.secrets = List.replicate 32 1 := by
  have key : (begin sampleCipher
      (afterStarts sampleCipher ⟨[], none⟩ [sampleStart .repair 1 "1Z", sampleStart .repair 2 "2Z"])
      (sampleStart .repair 1 "3Z")).2.toOption.map (fun found => found.1.secrets) = some (List.replicate 32 1) := by
    decide +kernel
  obtain ⟨-, outcome⟩ := @key_ring_recovery _ sampleCipher_opens ⟨[], none⟩ nodup_nil
    [sampleStart .repair 1 "1Z", sampleStart .repair 2 "2Z"] (sampleStart .repair 1 "3Z")
  rcases outcome with ⟨error, same⟩ | ⟨after, ring, result, same, begun⟩
  · rw [same] at key
    cases key
  · rw [same] at key
    exact ⟨after, ring, result, same, begun, some.inj key⟩

/-- The strict mode makes the envelopes that are missing. -/
theorem strict_writes :
    ¬ ∀ (cipher : Cipher) (database : Database) (start : Start), cipher.Opens → Distinct database.envelopes →
      start.mode = .strict → (begin cipher database start).1 = database := by
  intro unchanged
  have same := unchanged sampleCipher ⟨[], none⟩ (sampleStart .strict 1 "1Z") sampleCipher_opens nodup_nil rfl
  revert same
  decide +kernel

end AstrLink.KeyRings
