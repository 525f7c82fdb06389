import AstrLink.DecodingResults

/-!
The decoder contract for tokens whose offsets share characters: a path may not open, close or switch an entity
inside a token that overlaps the text before. `viterbiOffsetConsistent` finds the path that scores most among
those.
-/
namespace AstrLink.OffsetContract
open BestPaths TokenDecoder List
open Option (getD_some ite_none_right_eq_some map_some some.inj some_inj)

def kinds : List String :=
  ["email", "phone", "account", "payment_card", "ip_address", "url", "common_secret", "private_address", "private_date",
    "private_person"]

def labelCount : Nat := 1 + 2 * kinds.length

def entityOf (kind : String) : Entity := ⟨kind, some kind⟩

def contractLabels : List Tag := .outside :: kinds.flatMap fun kind => [.begin (entityOf kind), .inside (entityOf kind)]

structure OffsetDecoder (α : Type) where
  decoder : Decoder α
  contract : decoder.labels = contractLabels

def isInside (label : Nat) : Bool := 0 < label && label % 2 = 0

def allowed (overlap : Bool) (previous target : Nat) : Bool :=
  if overlap then previous = 0 && target = 0 || isInside target && (previous = target || previous + 1 = target)
  else !isInside target || previous = target || previous + 1 = target

/-- An offset that is empty or starts before the one in front of it. -/
def invalidOffsets (offsets : List (Nat × Nat)) : Bool :=
  offsets.zipIdx.any fun ((start, stop), index) =>
    stop ≤ start || 0 < index && start < (offsets.getD (index - 1) (0, 0)).1

section
variable {α : Type} [Field α] [LinearOrder α]

def logit (logits : List α) (token label : Nat) : α := logits.getD (token * labelCount + label) 0

/-- Labels that go on with an entity cannot open a path. -/
def startScores (logits : List α) : List (WithBot α) :=
  (List.range labelCount).map fun label => if isInside label then ⊥ else ((logit logits 0 label : α) : WithBot α)

/-- The scores of the labels that a label may come after. -/
def candidates (overlap : Bool) (scores : List (WithBot α)) (target : Nat) : List (WithBot α × Nat) :=
  scores.zipIdx.filter fun candidate => allowed overlap candidate.2 target

/-- The best score and the previous label of every label at a token. -/
def column (logits : List α) (overlap : Bool) (scores : List (WithBot α)) (token : Nat) : List (WithBot α × Nat) :=
  (List.range labelCount).map fun target =>
    let best := (candidates overlap scores target).foldl better (⊥, 0)
    (best.1 + ((logit logits token target : α) : WithBot α), best.2)

/-- The scores after some tokens, the previous labels and the furthest end. -/
structure Forward (α : Type) where
  scores : List (WithBot α)
  backpointers : List (List Nat)
  furthestEnd : Nat

def offsetAt (offsets : List (Nat × Nat)) (token : Nat) : Nat × Nat := offsets.getD token (0, 0)

def forward (logits : List α) (offsets : List (Nat × Nat)) : Nat → Except String (Forward α)
  | 0 => .ok ⟨startScores logits, [], (offsetAt offsets 0).2⟩
  | token + 1 =>
    match forward logits offsets token with
    | .error failure => .error failure
    | .ok before =>
      let overlap : Bool := (offsetAt offsets (token + 1)).1 < before.furthestEnd
      let column := column logits overlap before.scores (token + 1)
      if column.all fun (score, _) => score = ⊥ then .error "nonfinite_path_score"
      else
        .ok {
          scores := column.map Prod.fst
          backpointers := column.map Prod.snd :: before.backpointers
          furthestEnd := max before.furthestEnd (offsetAt offsets (token + 1)).2 }

def viterbiOffsetConsistent (logits : List α) (offsets : List (Nat × Nat)) : Except String (List Nat) :=
  if offsets = [] then .ok []
  else if invalidOffsets offsets then .error "invalid_offsets"
  else
    match forward logits offsets (offsets.length - 1) with
    | .error failure => .error failure
    | .ok last =>
      match maxBy (fun left right => compare left.1 right.1) last.scores.zipIdx with
      | none => .error "nonfinite_path_score"
      | some (score, state) =>
        if score = ⊥ then .error "nonfinite_path_score" else .ok (Decoder.backtrack last.backpointers state [state])

def goesOn (entity : Entity) (token : Token α) : Bool :=
  match token.tag with
  | .inside next => next = entity
  | _ => false

def decodeOffsetSpans (textId : Nat) : List (Token α) → Except String (List (DetectedSpan α))
  | [] => .ok []
  | token :: rest =>
    match token.tag with
    | .outside => decodeOffsetSpans textId rest
    | .begin entity =>
      let tokens := token :: rest.takeWhile (goesOn entity)
      match (tokens.map fun token => token.offset.2).max? with
      | none => .error "invalid_offsets"
      | some stop =>
        match entity.canonical with
        | none => .error "invalid_decoder_contract"
        | some label =>
          match decodeOffsetSpans textId (rest.dropWhile (goesOn entity)) with
          | .error failure => .error failure
          | .ok spans =>
            .ok ({ textId, label, start := token.offset.1, stop, score := mean (tokens.map Token.score) } :: spans)
    | _ => .error "invalid_decoded_path"
termination_by tokens => tokens.length
decreasing_by
  · simp only [length_cons]
    omega
  · have shorter := (dropWhile_suffix (l := rest) (goesOn entity)).length_le
    simp only [length_cons]
    omega

/-- The spans of a text's tokens, without calibration or biases. -/
def OffsetDecoder.decode (decoder : OffsetDecoder α) (functions : Elementary α) (textId : Nat) (logits : List α)
    (offsets : List (Nat × Nat)) : Except String (List (DetectedSpan α)) :=
  if logits.length ≠ offsets.length * labelCount then .error "invalid_logits"
  else if offsets = [] then .ok []
  else
    match viterbiOffsetConsistent logits offsets with
    | .error failure => .error failure
    | .ok path =>
      decodeOffsetSpans textId (decoder.decoder.tokens path offsets (decoder.decoder.probability functions logits))

end

/-- The scheme of the tags: inside an entity comes after its begin or inside of it. -/
def Follows (previous : Tag) : Tag → Prop
  | .inside entity => previous = .begin entity ∨ previous = .inside entity
  | _ => True

/-- Nothing is opened, closed or switched: both are outside, or the entity goes on. -/
def Continues (previous : Tag) : Tag → Prop
  | .outside => previous = .outside
  | .inside entity => previous = .begin entity ∨ previous = .inside entity
  | _ => False

def tagOf (label : Nat) : Tag := contractLabels.getD label .outside

/-- A token that starts before an earlier one ends. -/
def Overlaps (offsets : List (Nat × Nat)) (token : Nat) : Prop :=
  ∃ earlier, earlier < token ∧ (offsetAt offsets token).1 < (offsetAt offsets earlier).2

/-- A path that keeps the scheme and changes no entity inside a token that overlaps. -/
structure Consistent (offsets : List (Nat × Nat)) (path : List Nat) : Prop where
  labelled : ∀ label ∈ path, label < labelCount
  start : ∀ label, path[0]? = some label → Follows .outside (tagOf label)
  scheme : ∀ token previous next, path[token]? = some previous → path[token + 1]? = some next →
    Follows (tagOf previous) (tagOf next)
  shared : ∀ token previous next, path[token]? = some previous → path[token + 1]? = some next →
    Overlaps offsets (token + 1) → Continues (tagOf previous) (tagOf next)

def pathScore {α : Type} [Field α] (logits : List α) (token : Nat) : List Nat → α
  | [] => 0
  | label :: path => logit logits token label + pathScore logits (token + 1) path

/-- Offsets as a tokenizer gives them: in the order of their starts, none of them empty. -/
structure Ordered (offsets : List (Nat × Nat)) : Prop where
  nonempty : ∀ offset ∈ offsets, offset.1 < offset.2
  sorted : offsets.Pairwise fun earlier later => earlier.1 ≤ later.1

instance (previous : Tag) : (next : Tag) → Decidable (Follows previous next)
  | .inside _ => inferInstanceAs (Decidable (_ ∨ _))
  | .outside | .begin _ | .ended _ | .single _ => .isTrue trivial

instance (previous : Tag) : (next : Tag) → Decidable (Continues previous next)
  | .inside _ => inferInstanceAs (Decidable (_ ∨ _))
  | .outside => inferInstanceAs (Decidable (_ = _))
  | .begin _ | .ended _ | .single _ => .isFalse id

theorem allowed_iff (overlap : Bool) {previous target : Nat} (labelled : previous < labelCount)
    (targeted : target < labelCount) :
    allowed overlap previous target = true ↔
      Follows (tagOf previous) (tagOf target) ∧ (overlap = true → Continues (tagOf previous) (tagOf target)) := by
  have all : ∀ (overlap : Bool) (previous target : Fin labelCount), allowed overlap previous target = true ↔
      Follows (tagOf previous) (tagOf target) ∧ (overlap = true → Continues (tagOf previous) (tagOf target)) := by
    decide +kernel
  exact all overlap ⟨previous, labelled⟩ ⟨target, targeted⟩

variable {label : Nat}

theorem isInside_iff (labelled : label < labelCount) : isInside label = false ↔ Follows .outside (tagOf label) := by
  have all : ∀ label : Fin labelCount, isInside label = false ↔ Follows .outside (tagOf label) := by decide +kernel
  exact all ⟨label, labelled⟩

variable {offsets : List (Nat × Nat)}

theorem invalidOffsets_ordered (ordered : Ordered offsets) : invalidOffsets offsets = false := by
  rw [invalidOffsets, any_eq_false]
  rintro ⟨⟨start, stop⟩, index⟩ listed
  have found := mem_zipIdx_iff_getElem?.mp listed
  obtain ⟨inside, same⟩ := List.getElem?_eq_some_iff.mp found
  have positive := ordered.nonempty (start, stop) (mem_of_getElem? found)
  simp only [Bool.or_eq_true, Bool.and_eq_true, decide_eq_true_eq]
  rintro (empty | ⟨later, earlier⟩)
  · dsimp only at positive
    omega
  · have sorted := pairwise_iff_getElem.mp ordered.sorted (index - 1) index (by omega) inside (by omega)
    rw [getD_eq_getElem?_getD, getElem?_eq_getElem (by omega), getD_some] at earlier
    rw [same] at sorted
    dsimp only at sorted
    omega

/-! ### The paths of the contract -/

instance (offsets : List (Nat × Nat)) (token : Nat) : Decidable (Overlaps offsets token) :=
  inferInstanceAs (Decidable (∃ earlier, earlier < token ∧ _))

section
variable {α : Type} [Field α]

def trellis (logits : List α) (offsets : List (Nat × Nat)) : Trellis Nat α where
  start label := if label < labelCount ∧ isInside label = false then some (logit logits 0 label) else none
  step token previous next :=
    if (previous < labelCount ∧ next < labelCount) ∧ allowed (decide (Overlaps offsets token)) previous next = true then
      some (logit logits token next)
    else none

theorem pathScore_append (logits : List α) (path : List Nat) (next : Nat) :
    ∀ token, pathScore logits token (path ++ [next]) =
      pathScore logits token path + logit logits (token + path.length) next := by
  induction path with
  | nil =>
    intro token
    rw [nil_append, pathScore, pathScore, pathScore, length_nil, Nat.add_zero, add_zero, zero_add]
  | cons label path ih =>
    intro token
    have place : token + 1 + path.length = token + (label :: path).length := by rw [length_cons]; omega
    rw [cons_append, pathScore, pathScore, ih, place, add_assoc]

variable {offsets : List (Nat × Nat)}

theorem Consistent.snoc {path : List Nat} {count last next : Nat} (counted : path.length = count + 1)
    (ends : path.getLast? = some last) :
    Consistent offsets (path ++ [next]) ↔ Consistent offsets path ∧ next < labelCount ∧
      Follows (tagOf last) (tagOf next) ∧ (Overlaps offsets (count + 1) → Continues (tagOf last) (tagOf next)) := by
  have final : path[count]? = some last := by
    rw [getLast?_eq_getElem?, counted] at ends
    exact ends
  have kept : ∀ {token : Nat}, token < path.length → (path ++ [next])[token]? = path[token]? :=
    fun inside => getElem?_append_left inside
  have added : (path ++ [next])[count + 1]? = some next := by
    rw [← counted, getElem?_concat_length]
  constructor
  · intro whole
    have still : ∀ {token label : Nat}, path[token]? = some label → (path ++ [next])[token]? = some label := by
      intro token label found
      rw [kept (List.getElem?_eq_some_iff.mp found).1]
      exact found
    refine ⟨⟨?labelled, ?start, ?scheme, ?shared⟩, ?next, ?follows, ?continues⟩
    case labelled => exact fun label member => whole.labelled label (mem_append_left _ member)
    case start => exact fun label found => whole.start label (still found)
    case scheme => exact fun token previous label first second => whole.scheme token previous label (still first) (still second)
    case shared => exact fun token previous label first second => whole.shared token previous label (still first) (still second)
    case next => exact whole.labelled next (mem_append_right _ mem_cons_self)
    case follows => exact whole.scheme count last next (still final) added
    case continues => exact whole.shared count last next (still final) added
  · rintro ⟨front, labelled, follows, continues⟩
    have back : ∀ {token previous label : Nat}, (path ++ [next])[token]? = some previous →
        (path ++ [next])[token + 1]? = some label →
        path[token]? = some previous ∧ path[token + 1]? = some label ∨ token = count ∧ previous = last ∧ label = next := by
      intro token previous label first second
      have inside := (List.getElem?_eq_some_iff.mp second).1
      rw [length_append, length_singleton] at inside
      by_cases later : token + 1 < path.length
      · rw [kept (by omega)] at first
        rw [kept later] at second
        exact .inl ⟨first, second⟩
      · have place : token = count := by omega
        subst place
        rw [kept (by omega), final] at first
        rw [added] at second
        exact .inr ⟨rfl, (some.inj first).symm, (some.inj second).symm⟩
    refine ⟨?labelled, ?start, ?scheme, ?shared⟩
    case labelled =>
      intro label member
      rcases mem_append.mp member with before | new
      · exact front.labelled label before
      · rw [mem_singleton.mp new]
        exact labelled
    case start =>
      intro label found
      rw [kept (by omega)] at found
      exact front.start label found
    case scheme =>
      intro token previous label first second
      rcases back first second with ⟨first, second⟩ | ⟨-, rfl, rfl⟩
      · exact front.scheme token previous label first second
      · exact follows
    case shared =>
      intro token previous label first second overlap
      rcases back first second with ⟨first, second⟩ | ⟨rfl, rfl, rfl⟩
      · exact front.shared token previous label first second overlap
      · exact continues overlap

theorem consistent_single : Consistent offsets [label] ↔ label < labelCount ∧ isInside label = false := by
  constructor
  · intro path
    have labelled := path.labelled label mem_cons_self
    exact ⟨labelled, (isInside_iff labelled).mpr (path.start label rfl)⟩
  · rintro ⟨labelled, outside⟩
    refine ⟨?_, ?_, ?_, ?_⟩
    · intro other member
      rw [mem_singleton.mp member]
      exact labelled
    · intro other found
      rw [← some.inj found]
      exact (isInside_iff labelled).mp outside
    · intro token previous next _ second
      simp at second
    · intro token previous next _ second
      simp at second

theorem path_iff {logits : List α} {count : Nat} {path : List Nat} {value : α} :
    Path (trellis logits offsets) count label path value ↔
      path.length = count + 1 ∧ path.getLast? = some label ∧ Consistent offsets path ∧ value = pathScore logits 0 path := by
  have step_iff : ∀ {token previous next gain}, (trellis logits offsets).step token previous next = some gain ↔
      previous < labelCount ∧ next < labelCount ∧ Follows (tagOf previous) (tagOf next) ∧
        (Overlaps offsets token → Continues (tagOf previous) (tagOf next)) ∧ gain = logit logits token next := by
    intro token previous next gain
    simp only [trellis, ite_none_right_eq_some, some_inj, and_assoc]
    constructor
    · rintro ⟨labelled, targeted, may, rfl⟩
      obtain ⟨follows, continues⟩ := (allowed_iff _ labelled targeted).mp may
      exact ⟨labelled, targeted, follows, fun overlap => continues (decide_eq_true overlap), rfl⟩
    · rintro ⟨labelled, targeted, follows, continues, rfl⟩
      exact ⟨labelled, targeted,
        (allowed_iff _ labelled targeted).mpr ⟨follows, fun overlap => continues (of_decide_eq_true overlap)⟩, rfl⟩
  constructor
  · intro reached
    induction reached with
    | @start label value found =>
      simp only [trellis, ite_none_right_eq_some, some_inj] at found
      obtain ⟨opens, rfl⟩ := found
      refine ⟨rfl, rfl, consistent_single.mpr opens, ?_⟩
      rw [pathScore, pathScore, add_zero]
    | step _ found ih =>
      obtain ⟨counted, ends, front, score⟩ := ih
      obtain ⟨-, targeted, follows, continues, gained⟩ := step_iff.mp found
      refine ⟨?_, getLast?_concat, (Consistent.snoc counted ends).mpr ⟨front, targeted, follows, continues⟩, ?_⟩
      · rw [length_append, counted, length_singleton]
      · rw [pathScore_append, counted, Nat.zero_add, score, gained]
  · rintro ⟨counted, ends, whole, rfl⟩
    induction count generalizing path label with
    | zero =>
      obtain ⟨only, rfl⟩ := length_eq_one_iff.mp counted
      have same : only = label := some.inj ends
      rw [same] at whole ⊢
      refine .start ?_
      rw [pathScore, pathScore, add_zero]
      exact if_pos (consistent_single.mp whole)
    | succ count ih =>
      rcases eq_nil_or_concat' path with rfl | ⟨front, final, rfl⟩
      · cases counted
      · rw [length_append, length_singleton] at counted
        rw [getLast?_concat] at ends
        have same : final = label := some.inj ends
        rw [same] at whole ⊢
        have frontCount : front.length = count + 1 := by omega
        cases before : front.getLast? with
        | none =>
          rw [getLast?_eq_none_iff] at before
          rw [before, length_nil] at frontCount
          omega
        | some previous =>
          obtain ⟨kept, targeted, follows, continues⟩ := (Consistent.snoc frontCount before).mp whole
          have labelled := kept.labelled previous (mem_of_getLast? before)
          rw [pathScore_append, frontCount, Nat.zero_add]
          exact .step (ih frontCount before kept) (step_iff.mpr ⟨labelled, targeted, follows, continues, rfl⟩)

theorem outside_path (logits : List α) (offsets : List (Nat × Nat)) (count : Nat) :
    ∃ states value, Path (trellis logits offsets) count 0 states value := by
  induction count with
  | zero =>
    have opens : (trellis logits offsets).start 0 = some (logit logits 0 0) := by
      show (if 0 < labelCount ∧ isInside 0 = false then some (logit logits 0 0) else none) = _
      rw [if_pos ⟨by decide, by decide⟩]
    exact ⟨_, _, .start opens⟩
  | succ count ih =>
    obtain ⟨states, value, path⟩ := ih
    have may : allowed (decide (Overlaps offsets (count + 1))) 0 0 = true := by
      cases decide (Overlaps offsets (count + 1)) <;> rfl
    have stays : (trellis logits offsets).step (count + 1) 0 0 = some (logit logits (count + 1) 0) := by
      unfold trellis
      exact if_pos ⟨⟨by decide, by decide⟩, may⟩
    exact ⟨_, _, .step path stays⟩

end

/-! ### The scores carried forward -/

section
variable {α : Type} [Field α] [LinearOrder α]

theorem startScores_best (logits : List α) (offsets : List (Nat × Nat)) (label : Nat) :
    Best (trellis logits offsets) 0 label ((startScores logits).getD label ⊥) [label] := by
  have cell : (startScores logits).getD label ⊥ =
      ((trellis logits offsets).start label).elim ⊥ fun value => (value : WithBot α) := by
    unfold startScores trellis
    rw [getD_eq_getElem?_getD, getElem?_map]
    by_cases labelled : label < labelCount
    · rw [getElem?_range labelled]
      cases opens : isInside label with
      | false => simp [opens, labelled]
      | true => simp [opens]
    · rw [getElem?_eq_none (by simpa using labelled)]
      simp [labelled]
  rw [cell]
  exact Best.start _ _

/-- The best scores to each label, the previous labels and the text covered so far. -/
structure Carries (logits : List α) (offsets : List (Nat × Nat)) (token : Nat) (forward : Forward α) : Prop where
  counted : forward.scores.length = labelCount
  best : ∀ label, Best (trellis logits offsets) token label (forward.scores.getD label ⊥)
    (Decoder.backtrack forward.backpointers label [label])
  furthest : ∀ place, place < forward.furthestEnd ↔ ∃ earlier, earlier < token + 1 ∧ place < (offsetAt offsets earlier).2

variable {offsets : List (Nat × Nat)}

theorem overlap_iff {logits : List α} {token : Nat} {forward : Forward α}
    (carries : Carries logits offsets token forward) :
    decide ((offsetAt offsets (token + 1)).1 < forward.furthestEnd) = decide (Overlaps offsets (token + 1)) :=
  decide_eq_decide.mpr (carries.furthest _)

variable [IsOrderedAddMonoid α]

theorem column_best {logits : List α} {token : Nat} {forward : Forward α}
    (carries : Carries logits offsets token forward) (next : Nat) :
    let column := column logits (decide (Overlaps offsets (token + 1))) forward.scores (token + 1)
    Best (trellis logits offsets) (token + 1) next ((column.map Prod.fst).getD next ⊥)
      (Decoder.backtrack (column.map Prod.snd :: forward.backpointers) next [next]) := by
  intro column
  have route : ∀ previous, Decoder.backtrack forward.backpointers previous [previous, next] =
      Decoder.backtrack forward.backpointers previous [previous] ++ [next] := fun previous =>
    Decoder.backtrack_append forward.backpointers previous [previous] [next]
  rw [Decoder.backtrack, route, getD_eq_getElem?_getD, getD_eq_getElem?_getD, getElem?_map, getElem?_map]
  by_cases targeted : next < labelCount
  · have cell : column[next]? = some (
        let best := (candidates (decide (Overlaps offsets (token + 1))) forward.scores next).foldl better (⊥, 0)
        (best.1 + ((logit logits (token + 1) next : α) : WithBot α), best.2)) := by
      show (List.map _ _)[next]? = _
      rw [getElem?_map, getElem?_range targeted]
      rfl
    rw [cell]
    dsimp only [map_some, getD_some]
    obtain ⟨among, -, most⟩ := @better_correct (WithBot α) Nat _
      (candidates (decide (Overlaps offsets (token + 1))) forward.scores next) (⊥, 0)
    refine Best.next carries.best ?_ ?_
    · intro other gain found
      simp only [trellis, ite_none_right_eq_some, some_inj] at found
      obtain ⟨⟨⟨labelled, -⟩, may⟩, rfl⟩ := found
      have scored : other < forward.scores.length := by rw [carries.counted]; exact labelled
      have listed : (forward.scores[other], other) ∈
          candidates (decide (Overlaps offsets (token + 1))) forward.scores next :=
        mem_filter.mpr ⟨mem_zipIdx_iff_getElem?.mpr (getElem?_eq_getElem scored), may⟩
      have bound := most _ listed
      rw [getD_eq_getElem?_getD, getElem?_eq_getElem scored, getD_some]
      exact add_le_add_left bound _
    · intro reached
      rcases among with none | listed
      · rw [none, WithBot.bot_add] at reached
        exact absurd rfl reached
      · obtain ⟨place, may⟩ := mem_filter.mp listed
        have scored := mem_zipIdx_iff_getElem?.mp place
        have labelled := (List.getElem?_eq_some_iff.mp scored).1
        rw [carries.counted] at labelled
        refine ⟨logit logits (token + 1) next, ?_, ?_⟩
        · unfold trellis
          exact if_pos ⟨⟨labelled, targeted⟩, may⟩
        · rw [getD_eq_getElem?_getD, scored, getD_some]
  · have absent : column[next]? = none := by
      rw [List.getElem?_eq_none_iff]
      show (List.map _ _).length ≤ next
      rw [length_map, length_range]
      exact Nat.not_lt.mp targeted
    rw [absent]
    refine Best.next carries.best ?_ fun contra => absurd rfl contra
    intro other gain found
    simp only [trellis, ite_none_right_eq_some] at found
    exact absurd found.1.1.2 targeted

theorem forward_best (logits : List α) (offsets : List (Nat × Nat)) (token : Nat) :
    ∃ carried, forward logits offsets token = .ok carried ∧ Carries logits offsets token carried := by
  induction token with
  | zero =>
    refine ⟨_, rfl, ?_, startScores_best logits offsets, ?_⟩
    · show (List.map _ _).length = _
      rw [length_map, length_range]
    · intro place
      constructor
      · exact fun covered => ⟨0, Nat.one_pos, covered⟩
      · rintro ⟨earlier, first, covered⟩
        rw [Nat.lt_one_iff.mp first] at covered
        exact covered
  | succ token ih =>
    obtain ⟨before, run, carries⟩ := ih
    let next := column logits (decide (Overlaps offsets (token + 1))) before.scores (token + 1)
    have best := column_best carries
    have finite : (next.all fun (score, _) => score = ⊥) = false := by
      obtain ⟨states, value, path⟩ := outside_path logits offsets (token + 1)
      have bound := (best 0).bound path
      rw [all_eq_false]
      cases first : next[0]? with
      | none =>
        have empty : (next.map Prod.fst).getD 0 ⊥ = ⊥ := by
          rw [getD_eq_getElem?_getD, getElem?_map, first]
          rfl
        exact absurd (le_bot_iff.mp (empty ▸ bound)) WithBot.coe_ne_bot
      | some cell =>
        have same : (next.map Prod.fst).getD 0 ⊥ = cell.1 := by
          rw [getD_eq_getElem?_getD, getElem?_map, first]
          rfl
        refine ⟨cell, mem_of_getElem? first, ?_⟩
        rw [decide_eq_true_eq]
        intro unreached
        rw [← same] at unreached
        exact absurd (le_bot_iff.mp (unreached ▸ bound)) WithBot.coe_ne_bot
    refine ⟨{
      scores := next.map Prod.fst
      backpointers := next.map Prod.snd :: before.backpointers
      furthestEnd := max before.furthestEnd (offsetAt offsets (token + 1)).2 }, ?_, ?_, best, ?_⟩
    · rw [forward, run]
      dsimp only
      rw [overlap_iff carries, finite, if_neg Bool.false_ne_true]
    · show (List.map _ (List.map _ _)).length = _
      rw [length_map, length_map, length_range]
    · intro place
      rw [lt_max_iff, carries.furthest]
      constructor
      · rintro (⟨earlier, within, covered⟩ | covered)
        · exact ⟨earlier, Nat.lt_succ_of_lt within, covered⟩
        · exact ⟨token + 1, Nat.lt_succ_self _, covered⟩
      · rintro ⟨earlier, within, covered⟩
        rcases Nat.lt_succ_iff_lt_or_eq.mp within with before | rfl
        · exact .inl ⟨earlier, before, covered⟩
        · exact .inr covered

omit [Field α] [IsOrderedAddMonoid α] in
theorem last_best {scores : List (WithBot α)} (some_score : scores ≠ []) :
    ∃ (score : WithBot α) (label : Nat), scores[label]? = some score ∧
      maxBy (fun left right : WithBot α × Nat => compare left.1 right.1) scores.zipIdx = some (score, label) ∧
      ∀ (other : Nat) (value : WithBot α), scores[other]? = some value → value ≤ score := by
  have listed : scores.zipIdx ≠ [] := by
    intro empty
    exact some_score (zipIdx_eq_nil_iff.mp empty)
  obtain ⟨⟨score, label⟩, member, found, most⟩ :=
    @maxBy_correct (WithBot α × Nat) (fun left right => compare left.1 right.1) (fun left right => left.1 ≤ right.1)
      (fun item => le_refl item.1) (fun first second => le_trans first second)
      (fun kept item greater => le_of_lt (compare_gt_iff_gt.mp greater))
      (fun kept item other => not_lt.mp fun less => other (compare_gt_iff_gt.mpr less)) scores.zipIdx listed
  refine ⟨score, label, mem_zipIdx_iff_getElem?.mp member, found, ?_⟩
  intro other value scored
  exact most (value, other) (mem_zipIdx_iff_getElem?.mpr scored)

theorem viterbi_consistent (logits : List α) (ordered : Ordered offsets) :
    ∃ path, viterbiOffsetConsistent logits offsets = .ok path ∧ path.length = offsets.length ∧ Consistent offsets path ∧
      ∀ other, other.length = offsets.length → Consistent offsets other →
        pathScore logits 0 other ≤ pathScore logits 0 path := by
  unfold viterbiOffsetConsistent
  by_cases empty : offsets = []
  · subst empty
    refine ⟨[], if_pos rfl, rfl, ⟨nofun, nofun, nofun, nofun⟩, ?_⟩
    intro other counted _
    rw [eq_nil_of_length_eq_zero counted]
  · obtain ⟨last, counted⟩ : ∃ last, offsets.length = last + 1 :=
      ⟨offsets.length - 1, by have := length_pos_iff.mpr empty; omega⟩
    obtain ⟨carried, run, carries⟩ := forward_best logits offsets last
    have some_score : carried.scores ≠ [] := by
      intro none_left
      have length := carries.counted
      rw [none_left] at length
      cases length
    obtain ⟨score, label, scored, found, most⟩ := last_best some_score
    have cell : carried.scores.getD label ⊥ = score := by
      rw [getD_eq_getElem?_getD, scored, getD_some]
    have bound : ∀ {other value end_label}, Path (trellis logits offsets) last end_label other value →
        (value : WithBot α) ≤ score := by
      intro other value finish path
      have below := (carries.best finish).bound path
      cases ends : carried.scores[finish]? with
      | none =>
        rw [getD_eq_getElem?_getD, ends, Option.getD_none] at below
        exact absurd (le_bot_iff.mp below) WithBot.coe_ne_bot
      | some reached =>
        rw [getD_eq_getElem?_getD, ends, getD_some] at below
        exact le_trans below (most finish reached ends)
    have finite : score ≠ ⊥ := by
      obtain ⟨states, value, path⟩ := outside_path logits offsets last
      intro unreached
      exact absurd (le_bot_iff.mp (unreached ▸ bound path)) WithBot.coe_ne_bot
    obtain ⟨value, rfl⟩ := WithBot.ne_bot_iff_exists.mp finite
    have attained := (carries.best label).attained value cell
    obtain ⟨length, ends, consistent, worth⟩ := path_iff.mp attained
    refine ⟨Decoder.backtrack carried.backpointers label [label], ?_, by rw [length, counted], consistent, ?_⟩
    · rw [if_neg empty, invalidOffsets_ordered ordered, if_neg Bool.false_ne_true, counted, Nat.add_sub_cancel, run]
      dsimp only
      rw [found]
      dsimp only
      rw [if_neg finite]
    · intro other same valid
      rw [counted] at same
      cases finish : other.getLast? with
      | none =>
        rw [getLast?_eq_none_iff] at finish
        rw [finish] at same
        cases same
      | some final =>
        have below := bound (path_iff.mpr ⟨same, finish, valid, rfl⟩)
        rw [WithBot.coe_le_coe] at below
        rwa [← worth]

end

/-! ### The spans of a path -/

/-- Tokens of a path that keeps the contract, after a tag and some covered text. -/
def Tiled {α : Type} (previous : Tag) (covered : Nat) : List (Token α) → Prop
  | [] => True
  | token :: rest =>
    token.offset.1 < token.offset.2 ∧ Follows previous token.tag ∧
      (token.offset.1 < covered → Continues previous token.tag) ∧
      (∀ later ∈ rest, token.offset.1 ≤ later.offset.1) ∧ Tiled token.tag (max covered token.offset.2) rest

/-- Spans of some tokens, in order and apart, none of which cuts a token. -/
structure Whole {α : Type} (covered : Nat) (offsets : List (Nat × Nat)) (spans : List (DetectedSpan α)) : Prop where
  nonempty : ∀ span ∈ spans, span.start < span.stop
  after : ∀ span ∈ spans, covered ≤ span.start
  inside : ∀ span ∈ spans, ∃ offset ∈ offsets, span.stop = offset.2
  disjoint : spans.Pairwise fun first second => first.stop ≤ second.start
  whole : ∀ span ∈ spans, ∀ offset ∈ offsets,
    offset.2 ≤ span.start ∨ (span.start ≤ offset.1 ∧ offset.2 ≤ span.stop) ∨ span.stop ≤ offset.1

section
variable {α : Type}

def Going (entity : Entity) (tag : Tag) : Prop := tag = .begin entity ∨ tag = .inside entity

variable {covered : Nat} {rest : List (Token α)}

theorem Tiled.later {previous : Tag} {place : Nat} {token : Token α} (tiled : Tiled previous covered (token :: rest))
    (below : place ≤ token.offset.1) :
    ∀ later ∈ token :: rest, place ≤ later.offset.1 := by
  obtain ⟨-, -, -, sorted, -⟩ := tiled
  intro later member
  rcases mem_cons.mp member with rfl | member
  · exact below
  · have after := sorted later member
    omega

theorem Tiled.run {entity : Entity} {previous : Tag} (going : Going entity previous)
    (tiled : Tiled previous covered rest) :
    ∃ last reached, Going entity last ∧ covered ≤ reached ∧
      (∀ token ∈ rest.takeWhile (goesOn entity), token.offset.2 ≤ reached) ∧
      Tiled last reached (rest.dropWhile (goesOn entity)) := by
  induction rest generalizing previous covered with
  | nil => exact ⟨previous, covered, going, Nat.le_refl _, nofun, trivial⟩
  | cons token rest ih =>
    by_cases on : goesOn entity token = true
    · have same : Going entity token.tag := by
        unfold goesOn at on
        split at on
        · rename_i next tagged
          rw [tagged, of_decide_eq_true on]
          exact .inr rfl
        · cases on
      obtain ⟨-, -, -, -, after⟩ := tiled
      obtain ⟨last, reached, still, more, ends, left⟩ := ih same after
      rw [takeWhile_cons_of_pos on, dropWhile_cons_of_pos on]
      refine ⟨last, reached, still, by omega, ?_, left⟩
      intro other member
      rcases mem_cons.mp member with rfl | member
      · omega
      · exact ends other member
    · rw [takeWhile_cons_of_neg on, dropWhile_cons_of_neg on]
      exact ⟨previous, covered, going, Nat.le_refl _, nofun, tiled⟩

theorem Tiled.over_run {entity : Entity} {last : Tag} {reached : Nat} {tokens left : List (Token α)}
    (going : Going entity last) (same : tokens.dropWhile (goesOn entity) = left) (tiled : Tiled last reached left) :
    ∀ token ∈ left.head?, (∀ other, token.tag ≠ .inside other) ∧ reached ≤ token.offset.1 := by
  intro token first
  obtain ⟨rest, rfl⟩ := head?_eq_some_iff.mp first
  have off : goesOn entity token = false := by
    have stops := head?_dropWhile_not (goesOn entity) tokens
    rw [same] at stops
    simpa using stops
  obtain ⟨-, follows, continues, -, -⟩ := tiled
  have opens : ∀ other, token.tag ≠ .inside other := by
    intro other tagged
    rw [tagged] at follows
    have equal : entity = other := by
      rcases going with rfl | rfl
      · rcases follows with same | same
        · exact Tag.begin.inj same
        · cases same
      · rcases follows with same | same
        · cases same
        · exact Tag.inside.inj same
    rw [goesOn, tagged] at off
    exact absurd equal.symm (of_decide_eq_false off)
  refine ⟨opens, ?_⟩
  by_contra below
  have on := continues (by omega)
  cases tagged : token.tag with
  | outside =>
    rw [tagged] at on
    rcases going with rfl | rfl <;> cases on
  | inside other => exact opens other tagged
  | begin other => rw [tagged] at on; exact on
  | ended other => rw [tagged] at on; exact on
  | single other => rw [tagged] at on; exact on

theorem contractLabels_cases {tag : Tag} (listed : tag ∈ contractLabels) :
    tag = .outside ∨ ∃ kind, tag = .begin (entityOf kind) ∨ tag = .inside (entityOf kind) := by
  rcases mem_cons.mp listed with rfl | listed
  · exact .inl rfl
  · obtain ⟨kind, -, listed⟩ := mem_flatMap.mp listed
    rcases mem_cons.mp listed with rfl | listed
    · exact .inr ⟨kind, .inl rfl⟩
    · exact .inr ⟨kind, .inr (mem_singleton.mp listed)⟩

theorem Whole.outside {offset : Nat × Nat} {spans : List (DetectedSpan α)}
    (spanned : Whole (max covered offset.2) offsets spans) : Whole covered (offset :: offsets) spans := by
  refine ⟨spanned.nonempty, ?after, ?inside, spanned.disjoint, ?whole⟩
  case after =>
    intro span member
    have after := spanned.after span member
    omega
  case inside =>
    intro span member
    obtain ⟨other, listed, stop⟩ := spanned.inside span member
    exact ⟨other, mem_cons_of_mem _ listed, stop⟩
  case whole =>
    intro span member other listed
    rcases mem_cons.mp listed with rfl | listed
    · have after := spanned.after span member
      exact .inl (by omega)
    · exact spanned.whole span member other listed

theorem Whole.cons {reached : Nat} {front back : List (Nat × Nat)} {spans : List (DetectedSpan α)}
    {span : DetectedSpan α} (spanned : Whole reached back spans) (start : covered ≤ span.start)
    (positive : span.start < span.stop) (held : ∀ offset ∈ front, span.start ≤ offset.1 ∧ offset.2 ≤ span.stop)
    (last : ∃ offset ∈ front, span.stop = offset.2) (within : span.stop ≤ reached)
    (later : ∀ offset ∈ back, reached ≤ offset.1) : Whole covered (front ++ back) (span :: spans) := by
  refine ⟨?nonempty, ?after, ?inside, ?disjoint, ?whole⟩
  case nonempty =>
    intro other member
    rcases mem_cons.mp member with rfl | member
    · exact positive
    · exact spanned.nonempty other member
  case after =>
    intro other member
    rcases mem_cons.mp member with rfl | member
    · exact start
    · have after := spanned.after other member
      omega
  case inside =>
    intro other member
    rcases mem_cons.mp member with rfl | member
    · obtain ⟨offset, listed, stop⟩ := last
      exact ⟨offset, mem_append_left _ listed, stop⟩
    · obtain ⟨offset, listed, stop⟩ := spanned.inside other member
      exact ⟨offset, mem_append_right _ listed, stop⟩
  case disjoint =>
    refine pairwise_cons.mpr ⟨?_, spanned.disjoint⟩
    intro other member
    have after := spanned.after other member
    omega
  case whole =>
    intro other member offset listed
    rcases mem_cons.mp member with rfl | member
    · rcases mem_append.mp listed with listed | listed
      · exact .inr (.inl (held offset listed))
      · have after := later offset listed
        exact .inr (.inr (by omega))
    · rcases mem_append.mp listed with listed | listed
      · have after := spanned.after other member
        have before := (held offset listed).2
        exact .inl (by omega)
      · exact spanned.whole other member offset listed

variable [Field α]

theorem decodeOffsetSpans_whole (textId bound : Nat) :
    ∀ {tokens : List (Token α)} {previous : Tag} {covered : Nat}, tokens.length ≤ bound → Tiled previous covered tokens →
      (∀ token ∈ tokens.head?, ∀ entity, token.tag ≠ .inside entity) → (∀ token ∈ tokens, token.tag ∈ contractLabels) →
      ∃ spans, decodeOffsetSpans textId tokens = .ok spans ∧ Whole covered (tokens.map Token.offset) spans := by
  induction bound with
  | zero =>
    intro tokens previous covered short _ _ _
    rw [eq_nil_of_length_eq_zero (Nat.le_zero.mp short)]
    exact ⟨[], decodeOffsetSpans.eq_1 textId, nofun, nofun, nofun, .nil, nofun⟩
  | succ bound ih =>
    intro tokens previous covered short tiled opens labelled
    cases tokens with
    | nil => exact ⟨[], decodeOffsetSpans.eq_1 textId, nofun, nofun, nofun, .nil, nofun⟩
    | cons token rest =>
      rw [length_cons] at short
      obtain ⟨positive, -, continues, sorted, after⟩ := tiled
      rcases contractLabels_cases (labelled token mem_cons_self) with tagged | ⟨kind, tagged | tagged⟩
      · have opens : ∀ other ∈ rest.head?, ∀ entity, other.tag ≠ .inside entity := by
          intro other first entity inside
          obtain ⟨_, rfl⟩ := head?_eq_some_iff.mp first
          obtain ⟨-, follows, -, -, -⟩ := after
          rw [inside, tagged] at follows
          rcases follows with same | same <;> cases same
        obtain ⟨spans, found, spanned⟩ := ih (by omega) after opens fun other member =>
          labelled other (mem_cons_of_mem _ member)
        refine ⟨spans, ?_, spanned.outside⟩
        rw [decodeOffsetSpans.eq_2, tagged]
        exact found
      · obtain ⟨last, reached, going, more, ends, left⟩ := after.run (.inl tagged)
        have next := left.over_run going rfl
        have split := takeWhile_append_dropWhile (p := goesOn (entityOf kind)) (l := rest)
        have shorter := (dropWhile_suffix (l := rest) (goesOn (entityOf kind))).length_le
        obtain ⟨spans, found, spanned⟩ := ih (by omega) left (fun other first => (next other first).1) fun other member =>
          labelled other (mem_cons_of_mem _ ((dropWhile_suffix _).subset member))
        let run := token :: rest.takeWhile (goesOn (entityOf kind))
        obtain ⟨stop, most⟩ : ∃ stop, (run.map fun token => token.offset.2).max? = some stop :=
          Option.isSome_iff_exists.mp (by rw [isSome_max?_iff]; exact cons_ne_nil _ _)
        obtain ⟨attained, bounds⟩ := max?_eq_some_iff.mp most
        obtain ⟨longest, listed, stopped⟩ := mem_map.mp attained
        have starts : ∀ other ∈ run, token.offset.1 ≤ other.offset.1 := by
          intro other member
          rcases mem_cons.mp member with rfl | member
          · exact Nat.le_refl _
          · exact sorted other (( takeWhile_prefix _).subset member)
        have within : ∀ other ∈ run, other.offset.2 ≤ reached := by
          intro other member
          rcases mem_cons.mp member with rfl | member
          · omega
          · exact ends other member
        have later : ∀ other ∈ rest.dropWhile (goesOn (entityOf kind)), reached ≤ other.offset.1 := by
          cases remains : rest.dropWhile (goesOn (entityOf kind)) with
          | nil => exact nofun
          | cons head tail =>
            rw [remains] at left next
            exact left.later (next head rfl).2
        refine ⟨{ textId, label := kind, start := token.offset.1, stop, score := mean (run.map Token.score) } :: spans,
          ?_, ?_⟩
        · rw [decodeOffsetSpans.eq_2, tagged]
          dsimp only
          rw [most]
          show (match decodeOffsetSpans textId (rest.dropWhile (goesOn (entityOf kind))) with
            | .error failure => _
            | .ok spans => _) = _
          rw [found]
        · have parts : (token :: rest).map Token.offset =
              run.map Token.offset ++ (rest.dropWhile (goesOn (entityOf kind))).map Token.offset := by
            rw [← map_append, cons_append, split]
          have ahead := bounds token.offset.2 (mem_cons_self)
          rw [parts]
          refine spanned.cons ?start ?positive ?held ⟨longest.offset, mem_map_of_mem listed, stopped.symm⟩ ?within ?later
          case start =>
            by_contra below
            have closed := continues (Nat.lt_of_not_le below)
            rw [tagged] at closed
            exact closed
          case positive => exact Nat.lt_of_lt_of_le positive ahead
          case held =>
            intro offset member
            obtain ⟨other, inRun, rfl⟩ := mem_map.mp member
            exact ⟨starts other inRun, bounds _ (mem_map_of_mem inRun)⟩
          case within =>
            show stop ≤ reached
            rw [← stopped]
            exact within longest listed
          case later =>
            intro offset member
            obtain ⟨other, after, rfl⟩ := mem_map.mp member
            exact later other after
      · exact absurd tagged (opens token rfl _)

omit [Field α] in
theorem Consistent.tiled {offsets : List (Nat × Nat)} {path : List Nat} (ordered : Ordered offsets)
    (consistent : Consistent offsets path) {tokens : List (Token α)} (tags : tokens.map Token.tag = path.map tagOf)
    (placed : tokens.map Token.offset = offsets) :
    ∀ {place : Nat} {previous : Tag} {covered : Nat}, tokens.drop place = rest →
      (∀ start, start < covered → ∃ earlier < place, start < (offsetAt offsets earlier).2) →
      (place = 0 ∧ previous = .outside ∨
        ∃ before label, place = before + 1 ∧ path[before]? = some label ∧ previous = tagOf label) →
      Tiled previous covered rest := by
  induction rest with
  | nil => exact fun _ _ _ => trivial
  | cons token rest ih =>
    intro place previous covered split reaches follows
    have found : tokens[place]? = some token := by
      rw [← head?_drop, split]
      rfl
    have after : tokens.drop (place + 1) = rest := by
      rw [← tail_drop, split]
      rfl
    obtain ⟨label, labelled, tagged⟩ : ∃ label, path[place]? = some label ∧ token.tag = tagOf label := by
      have same := congrArg (·[place]?) tags
      simp only [getElem?_map, found, map_some] at same
      obtain ⟨label, labelled, tagged⟩ := Option.map_eq_some_iff.mp same.symm
      exact ⟨label, labelled, tagged.symm⟩
    have offset : offsets[place]? = some token.offset := by
      rw [← placed, getElem?_map, found]
      rfl
    have here : offsetAt offsets place = token.offset := by
      rw [offsetAt, getD_eq_getElem?_getD, offset]
      rfl
    refine ⟨ordered.nonempty _ (mem_of_getElem? offset), ?follows, ?continues, ?sorted, ih after ?reaches
      (.inr ⟨place, label, rfl, labelled, tagged⟩)⟩
    case follows =>
      rw [tagged]
      rcases follows with ⟨rfl, rfl⟩ | ⟨before, last, rfl, ends, rfl⟩
      · exact consistent.start label labelled
      · exact consistent.scheme before last label ends labelled
    case continues =>
      intro below
      obtain ⟨earlier, within, covers⟩ := reaches _ below
      rcases follows with ⟨rfl, rfl⟩ | ⟨before, last, rfl, ends, rfl⟩
      · exact absurd within (Nat.not_lt_zero _)
      · rw [tagged]
        exact consistent.shared before last label ends labelled ⟨earlier, within, by rw [here]; exact covers⟩
    case sorted =>
      have pairs : (offsets.drop place).Pairwise fun earlier later => earlier.1 ≤ later.1 :=
        ordered.sorted.sublist (drop_sublist place offsets)
      rw [← placed, ← map_drop, split, map_cons] at pairs
      intro later member
      exact (pairwise_cons.mp pairs).1 later.offset (mem_map_of_mem member)
    case reaches =>
      intro start below
      by_cases before : start < covered
      · obtain ⟨earlier, within, covers⟩ := reaches start before
        exact ⟨earlier, by omega, covers⟩
      · exact ⟨place, Nat.lt_succ_self _, by rw [here]; omega⟩

end

/-- Spans in order and apart, with no bound inside shared characters. -/
structure Separated {α : Type} (offsets : List (Nat × Nat)) (spans : List (DetectedSpan α)) : Prop where
  nonempty : ∀ span ∈ spans, span.start < span.stop
  inside : ∀ length, (∀ offset ∈ offsets, offset.2 ≤ length) → ∀ span ∈ spans, span.stop ≤ length
  disjoint : spans.Pairwise fun first second => first.stop ≤ second.start
  uncut : ∀ span ∈ spans, ∀ first ∈ offsets, ∀ second ∈ offsets, ∀ bound, bound = span.start ∨ bound = span.stop →
    ¬(max first.1 second.1 < bound ∧ bound < min first.2 second.2)

theorem Whole.separated {α : Type} {covered : Nat} {spans : List (DetectedSpan α)}
    (spanned : Whole covered offsets spans) : Separated offsets spans := by
  refine ⟨spanned.nonempty, ?inside, spanned.disjoint, ?uncut⟩
  case inside =>
    intro length within span member
    obtain ⟨offset, listed, stop⟩ := spanned.inside span member
    have bound := within offset listed
    omega
  case uncut =>
    rintro span member first listed second - bound either ⟨after, before⟩
    have cut := spanned.whole span member first listed
    have positive := spanned.nonempty span member
    omega

/-- The best path of the contract is found, and its spans cut no characters that tokens share. -/
theorem offset_decoding_correct {α : Type} [Field α] [LinearOrder α] [IsOrderedAddMonoid α] (decoder : OffsetDecoder α)
    (functions : Elementary α) (textId : Nat) (logits : List α) {offsets : List (Nat × Nat)} (ordered : Ordered offsets)
    (shaped : logits.length = offsets.length * labelCount) :
    ∃ path, viterbiOffsetConsistent logits offsets = .ok path ∧ path.length = offsets.length ∧ Consistent offsets path ∧
      (∀ other, other.length = offsets.length → Consistent offsets other →
        pathScore logits 0 other ≤ pathScore logits 0 path) ∧
      ∃ spans, decoder.decode functions textId logits offsets = .ok spans ∧
        decodeOffsetSpans textId
          (decoder.decoder.tokens path offsets (decoder.decoder.probability functions logits)) = .ok spans ∧
        Separated offsets spans := by
  obtain ⟨path, found, counted, consistent, most⟩ := viterbi_consistent logits ordered
  refine ⟨path, found, counted, consistent, most, ?_⟩
  let tokens := decoder.decoder.tokens path offsets (decoder.decoder.probability functions logits)
  have tags : tokens.map Token.tag = path.map tagOf := by
    rw [tokens_tags decoder.decoder _ counted, Decoder.tags, decoder.contract]
    rfl
  have placed : tokens.map Token.offset = offsets := tokens_offsets decoder.decoder _ counted
  have tiled : Tiled .outside 0 tokens :=
    consistent.tiled ordered tags placed drop_zero (fun _ contra => by cases contra) (.inl ⟨rfl, rfl⟩)
  have opens : ∀ token ∈ tokens.head?, ∀ entity, token.tag ≠ .inside entity := by
    intro token first entity inside
    obtain ⟨rest, split⟩ := head?_eq_some_iff.mp first
    rw [split] at tiled
    obtain ⟨-, follows, -⟩ := tiled
    rw [inside] at follows
    rcases follows with same | same <;> cases same
  have labelled : ∀ token ∈ tokens, token.tag ∈ contractLabels := by
    intro token member
    have listed : token.tag ∈ tokens.map Token.tag := mem_map_of_mem member
    rw [tags] at listed
    obtain ⟨label, inPath, tagged⟩ := mem_map.mp listed
    rw [← tagged, tagOf, getD_eq_getElem?_getD, getElem?_eq_getElem (consistent.labelled label inPath)]
    exact getElem_mem _
  obtain ⟨spans, read, spanned⟩ := decodeOffsetSpans_whole textId tokens.length (Nat.le_refl _) tiled opens labelled
  rw [placed] at spanned
  refine ⟨spans, ?_, read, spanned.separated⟩
  unfold OffsetDecoder.decode
  rw [if_neg (not_not_intro shaped)]
  by_cases empty : offsets = []
  · have none_left : tokens = [] := by rw [← map_eq_nil_iff, placed, empty]
    rw [none_left, decodeOffsetSpans.eq_1] at read
    rw [if_pos empty, read]
  · rw [if_neg empty, found]
    exact read

def contractDecoder : Decoder ℚ where
  labels := contractLabels
  scheme := .bio
  biases := ⟨0, 0, 0, 0, 0, 0⟩
  sensitive := none
  pplxBiases := none
  outsideListed := mem_cons_self
  pplxScheme := fun contra => by cases contra

theorem offset_decoding_correct_shared :
    ∃ path, viterbiOffsetConsistent (List.replicate 42 (0 : ℚ)) [(0, 3), (0, 3)] = .ok path ∧ path.length = 2 ∧
      Consistent [(0, 3), (0, 3)] path := by
  have ordered : Ordered [(0, 3), (0, 3)] := ⟨by decide, by decide⟩
  obtain ⟨path, found, counted, consistent, _⟩ :=
    offset_decoding_correct ⟨contractDecoder, rfl⟩ nearby 7 (List.replicate 42 (0 : ℚ)) ordered
      (by rw [length_replicate]; rfl)
  exact ⟨path, found, counted, consistent⟩

end AstrLink.OffsetContract
