import Mathlib.Data.List.Chain
import AstrLink.TokenDecoder

/-!
The path that `viterbi` finds. A decoder's labels are the states of a trellis (`path_iff`), and the scores
carried along are the best to each label, so the path read back keeps all rules and no other one scores more
(`viterbi_correct`).
-/
namespace AstrLink.TokenDecoder
open BestPaths List
open Option (bind_eq_some_iff bind_some getD_some map_eq_some_iff map_some some.inj)

variable {α : Type}

namespace Decoder

def tags (decoder : Decoder α) (path : List Nat) : List Tag :=
  path.map fun state => decoder.labels.getD state .outside

theorem tags_append (decoder : Decoder α) (front back : List Nat) :
    decoder.tags (front ++ back) = decoder.tags front ++ decoder.tags back :=
  map_append

variable {decoder : Decoder α}

variable {scores : List (WithBot α)} {state : Nat}

theorem mem_finalStates {score : WithBot α} :
    (state, score) ∈ decoder.finalStates scores ↔
      scores[state]? = some score ∧ ∃ tag, decoder.labels[state]? = some tag ∧ validEnd decoder.scheme tag := by
  unfold finalStates
  rw [mem_filterMap]
  constructor
  · rintro ⟨⟨⟨other, tag⟩, place⟩, member, found⟩
    dsimp only at found
    split at found
    · rename_i valid
      obtain ⟨rfl, rfl⟩ := Prod.mk.inj (some.inj found)
      obtain ⟨scored, labelled⟩ := getElem?_zip_eq_some.mp (mem_zipIdx_iff_getElem?.mp member)
      exact ⟨scored, tag, labelled, valid⟩
    · cases found
  · rintro ⟨scored, tag, labelled, valid⟩
    refine ⟨((score, tag), state), ?_, ?_⟩
    · exact mem_zipIdx_iff_getElem?.mpr (getElem?_zip_eq_some.mpr ⟨scored, labelled⟩)
    · dsimp only
      rw [if_pos valid]

theorem finalStates_most [LinearOrder α] (decoder : Decoder α) {items : List (Nat × WithBot α)} (some_item : items ≠ []) :
    ∃ chosen ∈ items, maxBy decoder.finalOrder items = some chosen ∧ ∀ item ∈ items, item.2 ≤ chosen.2 := by
  have ordered : ∀ kept item : Nat × WithBot α,
      (decoder.finalOrder kept item = .gt → item.2 ≤ kept.2) ∧ (decoder.finalOrder kept item ≠ .gt → kept.2 ≤ item.2) := by
    intro kept item
    unfold finalOrder
    rcases lt_trichotomy kept.2 item.2 with less | same | more
    · rw [compare_lt_iff_lt.mpr less]
      exact ⟨(fun contra => by cases contra), fun _ => le_of_lt less⟩
    · exact ⟨fun _ => le_of_eq same.symm, fun _ => le_of_eq same⟩
    · rw [compare_gt_iff_gt.mpr more]
      exact ⟨fun _ => le_of_lt more, fun contra => absurd rfl contra⟩
  exact @maxBy_correct (Nat × WithBot α) decoder.finalOrder (fun left right => left.2 ≤ right.2) (fun item => le_refl item.2)
    (fun first second => le_trans first second) (fun kept item => (ordered kept item).1)
    (fun kept item => (ordered kept item).2) items some_item

variable [Field α]

/-- Labels that keep the rules for the start and for each step. -/
structure ValidPrefix (decoder : Decoder α) (path : List Nat) : Prop where
  labelled : ∀ state ∈ path, state < decoder.labels.length
  start : ∀ tag ∈ (decoder.tags path).head?, validStart decoder.scheme tag
  transitions : (decoder.tags path).IsChain fun previous next => (decoder.transitionBias previous next).isSome

structure ValidPath (decoder : Decoder α) (path : List Nat) : Prop extends ValidPrefix decoder path where
  finish : ∀ tag ∈ (decoder.tags path).getLast?, validEnd decoder.scheme tag

/-- What a label is worth after another one. -/
def stepScore (decoder : Decoder α) (logits : List α) (token previous next : Nat) : α :=
  (decoder.transitionBias (decoder.labels.getD previous .outside) (decoder.labels.getD next .outside)).getD 0 +
    decoder.logit logits token next

def scoreFrom (decoder : Decoder α) (logits : List α) (token previous : Nat) : List Nat → α
  | [] => 0
  | state :: path =>
    decoder.stepScore logits token previous state + decoder.scoreFrom logits (token + 1) state path

def pathScore (decoder : Decoder α) (logits : List α) : List Nat → α
  | [] => 0
  | state :: path =>
    decoder.logit logits 0 state + decoder.startBias (decoder.labels.getD state .outside) +
      decoder.scoreFrom logits 1 state path

def trellis (decoder : Decoder α) (logits : List α) : Trellis Nat α where
  start state :=
    decoder.labels[state]?.bind fun tag =>
      if validStart decoder.scheme tag then some (decoder.logit logits 0 state + decoder.startBias tag) else none
  step token previous next :=
    decoder.labels[previous]?.bind fun previousTag =>
      decoder.labels[next]?.bind fun nextTag =>
        (decoder.transitionBias previousTag nextTag).map fun bias => bias + decoder.logit logits token next

variable {path : List Nat}

theorem scoreFrom_append (decoder : Decoder α) (logits : List α) {next : Nat} :
    ∀ {token previous last : Nat}, (previous :: path).getLast? = some last →
      decoder.scoreFrom logits token previous (path ++ [next]) =
        decoder.scoreFrom logits token previous path + decoder.stepScore logits (token + path.length) last next := by
  induction path with
  | nil =>
    intro token previous last found
    have same : previous = last := some.inj found
    rw [nil_append, scoreFrom, scoreFrom, scoreFrom, same, length_nil, Nat.add_zero, add_zero, zero_add]
  | cons state path ih =>
    intro token previous last found
    rw [getLast?_cons_cons] at found
    have place : token + 1 + path.length = token + (state :: path).length := by rw [length_cons]; omega
    rw [cons_append, scoreFrom, scoreFrom, ih found, place, add_assoc]

theorem pathScore_append (decoder : Decoder α) (logits : List α) {last next : Nat} (found : path.getLast? = some last) :
    decoder.pathScore logits (path ++ [next]) =
      decoder.pathScore logits path + decoder.stepScore logits path.length last next := by
  cases path with
  | nil => cases found
  | cons state path =>
    rw [cons_append, pathScore, pathScore, scoreFrom_append decoder logits found, length_cons,
      Nat.add_comm 1, ← add_assoc]

variable {logits : List α}

theorem trellis_start {value : α} :
    (decoder.trellis logits).start state = some value ↔
      decoder.ValidPrefix [state] ∧ value = decoder.pathScore logits [state] := by
  unfold trellis
  dsimp only
  constructor
  · intro found
    obtain ⟨tag, labelled, guarded⟩ := bind_eq_some_iff.mp found
    split at guarded
    · rename_i valid
      have inside := (List.getElem?_eq_some_iff.mp labelled).1
      have same : decoder.labels.getD state .outside = tag := by rw [getD_eq_getElem?_getD, labelled]; rfl
      refine ⟨⟨?_, ?_, .singleton _⟩, ?_⟩
      · intro other member
        rw [mem_singleton.mp member]
        exact inside
      · intro other first
        have only : decoder.labels.getD state .outside = other := some.inj first
        rwa [← only, same]
      · rw [pathScore, scoreFrom, add_zero, same]
        exact (some.inj guarded).symm
    · cases guarded
  · rintro ⟨valid, rfl⟩
    have inside := valid.labelled state mem_cons_self
    have same : decoder.labels.getD state .outside = decoder.labels[state] := by
      rw [getD_eq_getElem?_getD, getElem?_eq_getElem inside, getD_some]
    have starts : validStart decoder.scheme (decoder.labels.getD state .outside) := valid.start _ rfl
    rw [same] at starts
    rw [getElem?_eq_getElem inside, bind_some, if_pos starts, pathScore, scoreFrom, add_zero, same]

theorem trellis_step {token previous next : Nat} {gain : α} :
    (decoder.trellis logits).step token previous next = some gain ↔
      previous < decoder.labels.length ∧ next < decoder.labels.length ∧
        (decoder.transitionBias (decoder.labels.getD previous .outside) (decoder.labels.getD next .outside)).isSome ∧
        gain = decoder.stepScore logits token previous next := by
  unfold trellis stepScore
  dsimp only
  constructor
  · intro found
    obtain ⟨previousTag, fromLabel, rest⟩ := bind_eq_some_iff.mp found
    obtain ⟨nextTag, toLabel, mapped⟩ := bind_eq_some_iff.mp rest
    obtain ⟨bias, allowed, sum⟩ := map_eq_some_iff.mp mapped
    have samePrevious : decoder.labels.getD previous .outside = previousTag := by
      rw [getD_eq_getElem?_getD, fromLabel]; rfl
    have sameNext : decoder.labels.getD next .outside = nextTag := by
      rw [getD_eq_getElem?_getD, toLabel]; rfl
    rw [samePrevious, sameNext, allowed]
    exact ⟨(List.getElem?_eq_some_iff.mp fromLabel).1, (List.getElem?_eq_some_iff.mp toLabel).1, rfl, sum.symm⟩
  · rintro ⟨fromInside, toInside, allowed, rfl⟩
    rw [getD_eq_getElem?_getD, getD_eq_getElem?_getD, getElem?_eq_getElem fromInside,
      getElem?_eq_getElem toInside, getD_some, getD_some] at *
    obtain ⟨bias, found⟩ := Option.isSome_iff_exists.mp allowed
    rw [bind_some, bind_some, found]
    rfl

theorem ValidPrefix.snoc {last next : Nat} (found : path.getLast? = some last) :
    decoder.ValidPrefix (path ++ [next]) ↔
      decoder.ValidPrefix path ∧ next < decoder.labels.length ∧
        (decoder.transitionBias (decoder.labels.getD last .outside) (decoder.labels.getD next .outside)).isSome := by
  have lastTag : (decoder.tags path).getLast? = some (decoder.labels.getD last .outside) := by
    rw [tags, getLast?_map, found]
    rfl
  have someTag : decoder.tags path ≠ [] := by
    intro empty
    rw [empty] at lastTag
    cases lastTag
  have sameHead : (decoder.tags path ++ decoder.tags [next]).head? = (decoder.tags path).head? :=
    head?_append_of_ne_nil _ someTag
  constructor
  · intro valid
    have transitions := valid.transitions
    rw [tags_append, isChain_append] at transitions
    obtain ⟨before, _, joined⟩ := transitions
    refine ⟨⟨?_, ?_, before⟩, ?_, ?_⟩
    · intro state member
      exact valid.labelled state (mem_append_left _ member)
    · intro tag first
      apply valid.start
      rwa [tags_append, sameHead]
    · exact valid.labelled next (mem_append_right _ mem_cons_self)
    · exact joined _ lastTag _ rfl
  · rintro ⟨valid, inside, allowed⟩
    refine ⟨?_, ?_, ?_⟩
    · intro state member
      rcases mem_append.mp member with before | new
      · exact valid.labelled state before
      · rw [mem_singleton.mp new]
        exact inside
    · intro tag first
      rw [tags_append, sameHead] at first
      exact valid.start tag first
    · rw [tags_append, isChain_append]
      refine ⟨valid.transitions, .singleton _, ?_⟩
      intro previous isLast tag isFirst
      rw [lastTag] at isLast
      rw [← some.inj isLast, ← some.inj isFirst]
      exact allowed

theorem path_iff {count : Nat} {value : α} :
    Path (decoder.trellis logits) count state path value ↔
      path.length = count + 1 ∧ path.getLast? = some state ∧ decoder.ValidPrefix path ∧
        value = decoder.pathScore logits path := by
  constructor
  · intro reached
    induction reached with
    | start found =>
      obtain ⟨valid, score⟩ := trellis_start.mp found
      exact ⟨rfl, rfl, valid, score⟩
    | step _ found ih =>
      obtain ⟨counted, last, valid, score⟩ := ih
      obtain ⟨_, inside, allowed, gained⟩ := trellis_step.mp found
      refine ⟨?_, getLast?_concat, (ValidPrefix.snoc last).mpr ⟨valid, inside, allowed⟩, ?_⟩
      · rw [length_append, counted, length_singleton]
      · rw [pathScore_append decoder logits last, counted, score, gained]
  · rintro ⟨counted, last, valid, rfl⟩
    induction count generalizing path state with
    | zero =>
      obtain ⟨only, rfl⟩ := length_eq_one_iff.mp counted
      have same : only = state := some.inj last
      rw [← same]
      exact .start (trellis_start.mpr ⟨valid, rfl⟩)
    | succ count ih =>
      rcases eq_nil_or_concat' path with rfl | ⟨front, final, rfl⟩
      · cases counted
      · rw [length_append, length_singleton] at counted
        rw [getLast?_concat] at last
        have same : final = state := some.inj last
        rw [← same]
        cases before : front.getLast? with
        | none =>
          rw [getLast?_eq_none_iff] at before
          rw [before, length_nil] at counted
          omega
        | some previous =>
          obtain ⟨validFront, inside, allowed⟩ := (ValidPrefix.snoc before).mp valid
          have frontCount : front.length = count + 1 := by omega
          have fromInside := validFront.labelled previous (mem_of_getLast? before)
          rw [pathScore_append decoder logits before, frontCount]
          exact .step (ih frontCount before validFront) (trellis_step.mpr ⟨fromInside, inside, allowed, rfl⟩)

theorem outside_transition (decoder : Decoder α) : (decoder.transitionBias .outside .outside).isSome := by
  unfold transitionBias
  cases decoder.pplxBiases with
  | some biases => rfl
  | none => cases decoder.scheme <;> rfl

theorem outside_valid (decoder : Decoder α) (labelled : decoder.labels[state]? = some .outside) (count : Nat) :
    decoder.ValidPath (List.replicate count state) := by
  have tagged : decoder.tags (List.replicate count state) = List.replicate count .outside := by
    rw [tags, map_replicate, getD_eq_getElem?_getD, labelled, getD_some]
  have only : ∀ tag ∈ decoder.tags (List.replicate count state), tag = .outside := by
    intro tag member
    rw [tagged] at member
    exact eq_of_mem_replicate member
  refine ⟨⟨?labelled, ?start, ?transitions⟩, ?finish⟩
  case labelled =>
    intro other member
    rw [eq_of_mem_replicate member]
    exact (List.getElem?_eq_some_iff.mp labelled).1
  case start =>
    intro tag first
    rw [only tag (mem_of_mem_head? first)]
    cases decoder.scheme <;> rfl
  case transitions =>
    rw [tagged]
    clear tagged only
    induction count with
    | zero => exact .nil
    | succ count ih =>
      rw [replicate_succ, isChain_cons]
      refine ⟨?_, ih⟩
      intro next first
      rw [eq_of_mem_replicate (mem_of_mem_head? first)]
      exact decoder.outside_transition
  case finish =>
    intro tag last
    rw [only tag (mem_of_getLast? last)]
    cases decoder.scheme <;> rfl

theorem mem_candidates {token next : Nat} {nextTag : Tag} {score : WithBot α} {previous : Nat} :
    (score, previous) ∈ decoder.candidates logits scores token nextTag next ↔
      ∃ (previousScore : WithBot α) (previousTag : Tag) (bias : α), scores[previous]? = some previousScore ∧
        decoder.labels[previous]? = some previousTag ∧ decoder.transitionBias previousTag nextTag = some bias ∧
        score = previousScore + (bias : WithBot α) + (decoder.logit logits token next : WithBot α) := by
  unfold candidates
  rw [mem_filterMap]
  constructor
  · rintro ⟨⟨⟨previousScore, previousTag⟩, place⟩, member, found⟩
    obtain ⟨bias, allowed, same⟩ := map_eq_some_iff.mp found
    cases same
    have zipped := mem_zipIdx_iff_getElem?.mp member
    obtain ⟨scored, labelled⟩ := getElem?_zip_eq_some.mp zipped
    exact ⟨previousScore, previousTag, bias, scored, labelled, allowed, rfl⟩
  · rintro ⟨previousScore, previousTag, bias, scored, labelled, allowed, rfl⟩
    refine ⟨((previousScore, previousTag), previous), ?_, ?_⟩
    · exact mem_zipIdx_iff_getElem?.mpr (getElem?_zip_eq_some.mpr ⟨scored, labelled⟩)
    · dsimp only
      rw [allowed]
      rfl

variable [LinearOrder α]

theorem backtrack_append (rows : List (List Nat)) :
    ∀ (state : Nat) (path rest : List Nat), backtrack rows state (path ++ rest) = backtrack rows state path ++ rest := by
  induction rows with
  | nil => intro state path rest; rfl
  | cons row rows ih =>
    intro state path rest
    rw [backtrack, backtrack, ← cons_append, ih]

theorem startScores_best (decoder : Decoder α) (logits : List α) (state : Nat) :
    Best (decoder.trellis logits) 0 state ((decoder.startScores logits).getD state ⊥) [state] := by
  have cell : (decoder.startScores logits).getD state ⊥ =
      ((decoder.trellis logits).start state).elim ⊥ fun value => (value : WithBot α) := by
    unfold startScores trellis
    dsimp only
    rw [getD_eq_getElem?_getD, getElem?_map, getElem?_zipIdx]
    cases decoder.labels[state]? with
    | none => rfl
    | some tag =>
      dsimp only [map_some, getD_some, bind_some]
      rw [Nat.zero_add]
      split <;> rfl
  rw [cell]
  exact Best.start _ _

/-- Scores that are the best to each label, with the previous labels that lead there. -/
structure Carries (decoder : Decoder α) (logits : List α) (token : Nat) (scores : List (WithBot α))
    (backpointers : List (List Nat)) : Prop where
  counted : scores.length = decoder.labels.length
  best : ∀ state, Best (decoder.trellis logits) token state (scores.getD state ⊥) (backtrack backpointers state [state])

variable [IsOrderedAddMonoid α]

theorem Carries.next {token : Nat} {backpointers : List (List Nat)}
    (carries : decoder.Carries logits token scores backpointers) :
    decoder.Carries logits (token + 1) ((decoder.nextScores logits scores (token + 1)).map Prod.fst)
      ((decoder.nextScores logits scores (token + 1)).map Prod.snd :: backpointers) := by
  refine ⟨?counted, ?best⟩
  case counted =>
    unfold nextScores
    rw [length_map, length_map, length_zipIdx]
  case best =>
    intro next
    have column : (decoder.nextScores logits scores (token + 1))[next]? =
        decoder.labels[next]?.map fun tag =>
          (decoder.candidates logits scores (token + 1) tag next).foldl better (⊥, 0) := by
      unfold nextScores
      rw [getElem?_map, getElem?_zipIdx, Option.map_map]
      congr 1
      funext tag
      show (decoder.candidates logits scores (token + 1) tag (0 + next)).foldl better (⊥, 0) = _
      rw [Nat.zero_add]
    have route : ∀ previous, backtrack backpointers previous [previous, next] =
        backtrack backpointers previous [previous] ++ [next] := fun previous =>
      backtrack_append backpointers previous [previous] [next]
    rw [backtrack, route, getD_eq_getElem?_getD, getD_eq_getElem?_getD, getElem?_map,
      getElem?_map, column]
    cases labelled : decoder.labels[next]? with
    | none =>
      refine Best.next carries.best ?_ fun contra => absurd rfl contra
      intro other gain found
      have inside := (trellis_step.mp found).2.1
      rw [List.getElem?_eq_none_iff] at labelled
      omega
    | some nextTag =>
      dsimp only [map_some, getD_some]
      obtain ⟨among, _, most⟩ :=
        @better_correct (WithBot α) Nat _ (decoder.candidates logits scores (token + 1) nextTag next) (⊥, 0)
      refine Best.next carries.best ?_ ?_
      · intro other gain found
        unfold trellis at found
        obtain ⟨otherTag, fromLabel, rest⟩ := bind_eq_some_iff.mp found
        rw [labelled, bind_some] at rest
        obtain ⟨bias, allowed, sum⟩ := map_eq_some_iff.mp rest
        have scored : other < scores.length := by
          rw [carries.counted]
          exact (List.getElem?_eq_some_iff.mp fromLabel).1
        have listed : (_, other) ∈ decoder.candidates logits scores (token + 1) nextTag next :=
          mem_candidates.mpr ⟨scores[other], otherTag, bias, getElem?_eq_getElem scored, fromLabel, allowed, rfl⟩
        have bound := most _ listed
        rw [← sum, WithBot.coe_add, ← add_assoc, getD_eq_getElem?_getD, getElem?_eq_getElem scored]
        exact bound
      · intro reached
        rcases among with none | listed
        · rw [none] at reached
          exact absurd rfl reached
        · obtain ⟨previousScore, previousTag, bias, scored, fromLabel, allowed, sum⟩ := mem_candidates.mp listed
          refine ⟨bias + decoder.logit logits (token + 1) next, ?_, ?_⟩
          · unfold trellis
            dsimp only
            rw [fromLabel, labelled, bind_some, bind_some, allowed]
            rfl
          · rw [sum, getD_eq_getElem?_getD, scored, getD_some, WithBot.coe_add, add_assoc]

theorem forward_best (decoder : Decoder α) (logits : List α) (token : Nat) :
    decoder.Carries logits token (decoder.forward logits token).1 (decoder.forward logits token).2 := by
  induction token with
  | zero =>
    refine ⟨?_, decoder.startScores_best logits⟩
    show (decoder.startScores logits).length = _
    unfold startScores
    rw [length_map, length_zipIdx]
  | succ token ih => exact ih.next

theorem viterbi_correct (decoder : Decoder α) (logits : List α) {tokenCount : Nat} (some_token : 0 < tokenCount) :
    ∃ path, decoder.viterbi logits tokenCount = .ok path ∧ path.length = tokenCount ∧ decoder.ValidPath path ∧
      ∀ other, other.length = tokenCount → decoder.ValidPath other →
        decoder.pathScore logits other ≤ decoder.pathScore logits path := by
  obtain ⟨last, rfl⟩ : ∃ last, tokenCount = last + 1 := ⟨tokenCount - 1, by omega⟩
  have carries := decoder.forward_best logits last
  rw [viterbi, Nat.add_sub_cancel]
  rcases found : decoder.forward logits last with ⟨scores, backpointers⟩
  rw [found] at carries
  have final : ∀ other, other.length = last + 1 → decoder.ValidPath other →
      ∃ state score, (state, score) ∈ decoder.finalStates scores ∧
        (decoder.pathScore logits other : WithBot α) ≤ score := by
    intro other counted valid
    cases ends : other.getLast? with
    | none =>
      rw [getLast?_eq_none_iff] at ends
      rw [ends] at counted
      cases counted
    | some state =>
      have inside := valid.labelled state (mem_of_getLast? ends)
      have scored : state < scores.length := by rw [carries.counted]; exact inside
      have lastTag : (decoder.tags other).getLast? = some decoder.labels[state] := by
        rw [tags, getLast?_map, ends, map_some, getD_eq_getElem?_getD,
          getElem?_eq_getElem inside, getD_some]
      have bound := (carries.best state).bound (path_iff.mpr ⟨counted, ends, valid.toValidPrefix, rfl⟩)
      rw [getD_eq_getElem?_getD, getElem?_eq_getElem scored, getD_some] at bound
      refine ⟨state, scores[state], mem_finalStates.mpr ⟨getElem?_eq_getElem scored, decoder.labels[state], ?_, ?_⟩, bound⟩
      · exact getElem?_eq_getElem inside
      · exact valid.finish _ lastTag
  obtain ⟨outside, placed⟩ := mem_iff_getElem?.mp decoder.outsideListed
  obtain ⟨state, score, listed, bound⟩ :=
    final _ length_replicate (decoder.outside_valid placed (last + 1))
  obtain ⟨chosen, member, chosenFound, most⟩ := decoder.finalStates_most (ne_nil_of_mem listed)
  obtain ⟨bestState, bestScore⟩ := chosen
  obtain ⟨scored, tag, labelled, ending⟩ := mem_finalStates.mp member
  have reached : bestScore ≠ ⊥ := by
    intro absent
    have below := le_trans bound (most _ listed)
    rw [absent] at below
    exact WithBot.coe_ne_bot (le_bot_iff.mp below)
  have cell : scores.getD bestState ⊥ = bestScore := by rw [getD_eq_getElem?_getD, scored]; rfl
  obtain ⟨value, worth⟩ := WithBot.ne_bot_iff_exists.mp reached
  have attained := (carries.best bestState).attained value (by rw [cell, worth])
  obtain ⟨counted, ends, valid, scoreSame⟩ := path_iff.mp attained
  dsimp only
  rw [chosenFound]
  dsimp only
  rw [if_neg reached]
  refine ⟨_, rfl, counted, ⟨valid, ?_⟩, ?_⟩
  · intro lastTag isLast
    rw [tags, getLast?_map, ends, map_some, getD_eq_getElem?_getD, labelled] at isLast
    rw [← some.inj isLast]
    exact ending
  · intro other otherCounted otherValid
    obtain ⟨otherState, otherScore, otherListed, otherBound⟩ := final other otherCounted otherValid
    have below := le_trans otherBound (most _ otherListed)
    rw [← worth, WithBot.coe_le_coe] at below
    rw [← scoreSame]
    exact below

end Decoder

end AstrLink.TokenDecoder
