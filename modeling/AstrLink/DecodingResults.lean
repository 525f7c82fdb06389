import Mathlib.Algebra.Order.Field.Rat
import AstrLink.DecodedSpans

/-!
What the decoder does with the scores of a text: the best of the paths that keep the rules, and its spans in
the text in the order of its tokens (`decoding_correct`). Spans of tokens that share bytes can share them
(`shared_bytes`).
-/
namespace AstrLink.TokenDecoder
open List

/-- Offsets of tokens in the order of a text. -/
structure NonDecreasing (offsets : List (Nat × Nat)) : Prop where
  each : ∀ offset ∈ offsets, offset.1 ≤ offset.2
  pairs : offsets.Pairwise fun first second => first.1 ≤ second.1 ∧ first.2 ≤ second.2

/-- Spans that are not empty and lie in the text, apart when the tokens are. -/
structure InText {α : Type} (offsets : List (Nat × Nat)) (spans : List (DetectedSpan α)) : Prop where
  nonempty : ∀ span ∈ spans, span.start < span.stop
  inside : ∀ length, (∀ offset ∈ offsets, offset.2 ≤ length) → ∀ span ∈ spans, span.stop ≤ length
  ordered : spans.Pairwise fun first second => first.start ≤ second.start ∧ first.stop ≤ second.stop
  disjoint : (offsets.Pairwise fun first second => first.2 ≤ second.1) →
    spans.Pairwise fun first second => first.stop ≤ second.start

theorem spanBounds_nonempty {offsets run : List (Nat × Nat)} (sorted : NonDecreasing offsets) (part : run <:+: offsets)
    (some_bytes : ∃ offset ∈ run, offset.1 < offset.2) :
    ∃ start stop, spanBounds run = some (start, stop) ∧ start < stop := by
  obtain ⟨offset, listed, bytes⟩ := some_bytes
  have pairs := sorted.pairs.sublist part.sublist
  obtain ⟨first, firstFound⟩ := Option.isSome_iff_exists.mp
    (find?_isSome.mpr ⟨offset, listed, decide_eq_true bytes⟩ :
      (run.find? fun offset => decide (offset.1 < offset.2)).isSome)
  obtain ⟨last, lastFound⟩ := Option.isSome_iff_exists.mp
    (find?_isSome.mpr ⟨offset, mem_reverse.mpr listed, decide_eq_true bytes⟩ :
      (run.reverse.find? fun offset => decide (offset.1 < offset.2)).isSome)
  obtain ⟨firstBytes, before, after, split, empty⟩ := find?_eq_some_iff_append.mp firstFound
  have lastBytes : last.1 < last.2 := by
    have found := find?_some lastFound
    exact of_decide_eq_true found
  have lastListed := mem_reverse.mp (mem_of_find?_eq_some lastFound)
  have ordered : first.1 < last.2 := by
    have fromFirst := of_decide_eq_true firstBytes
    rw [split] at lastListed pairs
    rcases mem_append.mp lastListed with inBefore | rest
    · have none_there := empty last inBefore
      rw [decide_eq_true lastBytes] at none_there
      cases none_there
    · rcases mem_cons.mp rest with rfl | inAfter
      · exact lastBytes
      · have step := (pairwise_cons.mp (pairwise_append.mp pairs).2.1).1 last inAfter
        omega
  refine ⟨first.1, last.2, ?_, ordered⟩
  unfold spanBounds
  rw [firstFound, Option.bind_eq_bind, Option.bind_some, lastFound, Option.bind_some, if_neg (by omega)]

section
variable {α : Type}

variable {offsets : List (Nat × Nat)}

theorem Reads.inText_exact {spans : List (DetectedSpan α)} (reads : Reads Exact offsets spans)
    (sorted : NonDecreasing offsets) : InText offsets spans := by
  refine ⟨?nonempty, ?inside, ?ordered, ?disjoint⟩
  case nonempty =>
    intro span member
    obtain ⟨_, _, _, _, bounds⟩ := reads.each span member
    exact bounds.1
  case inside =>
    intro length within span member
    obtain ⟨_, _, last, listed, bounds⟩ := reads.each span member
    rw [bounds.2.2]
    exact within last listed
  case ordered =>
    refine Reads.pairwise ?_ reads sorted.pairs
    intro first last first' last' span span' bounds bounds' starts _ stops
    rw [bounds.2.1, bounds.2.2, bounds'.2.1, bounds'.2.2]
    exact ⟨starts.1, stops.2⟩
  case disjoint =>
    refine Reads.pairwise ?_ reads
    intro first last first' last' span span' bounds bounds' _ apart _
    rw [bounds.2.2, bounds'.2.1]
    exact apart

theorem Reads.inText_cut {text : Option (List Char)} {spans : List (DetectedSpan α)}
    (reads : Reads (Cut text) offsets spans) (sorted : NonDecreasing offsets) : InText offsets spans := by
  cases text with
  | none =>
    have same : (Cut none : Nat × Nat → Nat × Nat → DetectedSpan α → Prop) = Exact := rfl
    rw [same] at reads
    exact reads.inText_exact sorted
  | some text =>
    refine ⟨?nonempty, ?inside, ?ordered, ?disjoint⟩
    case nonempty =>
      intro span member
      obtain ⟨_, _, _, _, bounds⟩ := reads.each span member
      exact bounds.1
    case inside =>
      intro length within span member
      obtain ⟨_, _, last, listed, bounds⟩ := reads.each span member
      exact Nat.le_trans bounds.2.inside.2 (within last listed)
    case ordered =>
      refine Reads.pairwise ?_ reads sorted.pairs
      intro first last first' last' span span' bounds bounds' starts _ stops
      exact bounds.2.ordered bounds'.2 bounds.1 bounds'.1 starts.1 stops.2
    case disjoint =>
      refine Reads.pairwise ?_ reads
      intro first last first' last' span span' bounds bounds' _ apart _
      exact Nat.le_trans bounds.2.inside.2 (Nat.le_trans apart bounds'.2.inside.1)

variable {path : List Nat}

theorem tokens_tags (decoder : Decoder α) (score : Nat → Nat → α) (same : path.length = offsets.length) :
    (decoder.tokens path offsets score).map Token.tag = decoder.tags path := by
  have firsts : (path.zip offsets).map Prod.fst = path := map_fst_zip (by omega)
  have places : (path.zip offsets).zipIdx.map Prod.fst = path.zip offsets := zipIdx_map_fst 0 _
  calc (decoder.tokens path offsets score).map Token.tag
      = ((path.zip offsets).zipIdx.map Prod.fst).map fun pair => decoder.labels.getD pair.1 .outside := by
        rw [Decoder.tokens, map_map, map_map]
        rfl
    _ = ((path.zip offsets).map Prod.fst).map fun state => decoder.labels.getD state .outside := by
        rw [places, map_map]
        rfl
    _ = decoder.tags path := by rw [firsts]; rfl

theorem tokens_offsets (decoder : Decoder α) (score : Nat → Nat → α) (same : path.length = offsets.length) :
    (decoder.tokens path offsets score).map Token.offset = offsets := by
  have seconds : (path.zip offsets).map Prod.snd = offsets := map_snd_zip (by omega)
  have places : (path.zip offsets).zipIdx.map Prod.fst = path.zip offsets := zipIdx_map_fst 0 _
  calc (decoder.tokens path offsets score).map Token.offset
      = ((path.zip offsets).zipIdx.map Prod.fst).map Prod.snd := by
        rw [Decoder.tokens, map_map, map_map]
        rfl
    _ = offsets := by rw [places, seconds]

variable [Field α]

theorem Decoder.ValidPath.bio {decoder : Decoder α} (valid : decoder.ValidPath path)
    (plain : decoder.pplxBiases = none) (scheme : decoder.scheme = .bio) :
    ValidTags .bio (fun previous next => (decoder.bioTransitionBias previous next).isSome) (decoder.tags path) := by
  have start := valid.start
  have finish := valid.finish
  rw [scheme] at start finish
  refine ⟨start, valid.transitions.imp ?_, finish⟩
  intro previous next allowed
  unfold Decoder.transitionBias at allowed
  rw [plain, scheme] at allowed
  exact allowed

theorem Decoder.ValidPath.bioes {decoder : Decoder α} (valid : decoder.ValidPath path)
    (scheme : decoder.scheme = .bioes) :
    ValidTags .bioes (fun previous next => (decoder.bioesTransitionBias previous next).isSome) (decoder.tags path) := by
  have start := valid.start
  have finish := valid.finish
  rw [scheme] at start finish
  refine ⟨start, valid.transitions.imp ?_, finish⟩
  intro previous next allowed
  unfold Decoder.transitionBias at allowed
  cases found : decoder.pplxBiases with
  | none =>
    rw [found, scheme] at allowed
    exact allowed
  | some biases =>
    rw [found] at allowed
    rwa [Option.isSome_map] at allowed

variable [LinearOrder α]

theorem spansOf_correct (decoder : Decoder α) (functions : Elementary α) (textId : Nat) (text : Option (List Char))
    (scores : List α) (valid : decoder.ValidPath path) (same : path.length = offsets.length) :
    (∃ spans, decoder.spansOf functions textId text scores path offsets = .ok spans ∧
      (NonDecreasing offsets → InText offsets spans)) ∨
    (decoder.spansOf functions textId text scores path offsets = .error "invalid_tokenizer_output" ∧
      decoder.pplxBiases.isSome ∧ text.isSome) := by
  unfold Decoder.spansOf
  dsimp only
  by_cases pplx : decoder.pplxBiases.isSome
  · rw [if_pos pplx]
    have tags := valid.bioes (decoder.pplxScheme pplx)
    rw [← tokens_tags decoder (decoder.logit scores) same] at tags
    rcases pplxSpans_reads decoder functions textId text _ _ (Nat.le_refl _) tags with
      ⟨spans, decoded, reads⟩ | ⟨failed, given⟩
    · rw [tokens_offsets decoder _ same] at reads
      exact .inl ⟨spans, decoded, reads.inText_cut⟩
    · exact .inr ⟨failed, pplx, given⟩
  · left
    rw [if_neg pplx]
    cases scheme : decoder.scheme with
    | bio =>
      have tags := valid.bio (Option.not_isSome_iff_eq_none.mp pplx) scheme
      rw [← tokens_tags decoder (decoder.probability functions scores) same] at tags
      obtain ⟨spans, decoded, reads⟩ := decodeBio_reads decoder functions textId (text.bind decoder.languageCalibration)
        _ _ (Nat.le_refl _) tags
      rw [tokens_offsets decoder _ same] at reads
      exact ⟨spans, decoded, reads.inText_exact⟩
    | bioes =>
      have tags := valid.bioes scheme
      rw [← tokens_tags decoder (decoder.probability functions scores) same] at tags
      obtain ⟨spans, decoded, reads⟩ := decodeBioes_reads decoder functions textId
        (text.bind decoder.languageCalibration) _ _ (Nat.le_refl _) tags
      rw [tokens_offsets decoder _ same] at reads
      exact ⟨spans, decoded, reads.inText_exact⟩

variable [IsOrderedAddMonoid α]

/-- For every matrix of scores there is a path, the best of those that keep the rules, and its spans are read without
an error of the path. They are not empty and come in order inside the text, apart when the tokens are. -/
theorem decoding_correct (decoder : Decoder α) (functions : Elementary α) (textId : Nat) (text : Option (List Char))
    (scores : List α) {offsets : List (Nat × Nat)} (some_token : offsets ≠ []) :
    ∃ path, decoder.viterbi scores offsets.length = .ok path ∧ path.length = offsets.length ∧ decoder.ValidPath path ∧
      (∀ other, other.length = offsets.length → decoder.ValidPath other →
        decoder.pathScore scores other ≤ decoder.pathScore scores path) ∧
      ((∃ spans, decoder.spansOf functions textId text scores path offsets = .ok spans ∧
          (NonDecreasing offsets → InText offsets spans)) ∨
        (decoder.spansOf functions textId text scores path offsets = .error "invalid_tokenizer_output" ∧
          decoder.pplxBiases.isSome ∧ text.isSome)) ∧
      (NonDecreasing offsets → ∀ run, run <:+: offsets → (∃ offset ∈ run, offset.1 < offset.2) →
        ∃ start stop, spanBounds run = some (start, stop) ∧ start < stop) ∧
      ∀ logits, logits.length = offsets.length * decoder.labels.length →
        decoder.adjusted (text.bind decoder.languageCalibration) logits = scores →
        decoder.decodeInternal functions textId logits offsets text =
          decoder.spansOf functions textId text scores path offsets := by
  obtain ⟨path, found, counted, valid, most⟩ := decoder.viterbi_correct scores (length_pos_iff.mpr some_token)
  refine ⟨path, found, counted, valid, most, spansOf_correct decoder functions textId text scores valid counted,
    fun sorted run part some_bytes => spanBounds_nonempty sorted part some_bytes, ?_⟩
  rintro logits shaped rfl
  unfold Decoder.decodeInternal
  rw [if_neg (by omega), if_neg (by rw [List.isEmpty_iff]; exact some_token)]
  dsimp only
  rw [found]
  rfl

end

/-- A decoder with one entity, for which it pays to begin. -/
def emailDecoder : Decoder ℚ where
  labels :=
    [.outside, .begin ⟨"EMAIL", some "email"⟩, .inside ⟨"EMAIL", some "email"⟩, .ended ⟨"EMAIL", some "email"⟩,
      .single ⟨"EMAIL", some "email"⟩]
  scheme := .bioes
  biases := ⟨0, 1, 0, 1, 0, 0⟩
  sensitive := none
  pplxBiases := none
  outsideListed := mem_cons_self
  pplxScheme := fun contra => by cases contra

/-- The exponential near zero and the logarithm near one. -/
def nearby : Elementary ℚ where
  exp value := 1 + value
  log value := value - 1

theorem decoding_correct_email :
    ∃ path, emailDecoder.viterbi (List.replicate 10 0) 2 = .ok path ∧ path.length = 2 ∧ emailDecoder.ValidPath path := by
  have some_token : [(0, 3), (3, 7)] ≠ ([] : List (Nat × Nat)) := by decide
  obtain ⟨path, found, counted, valid, _⟩ :=
    decoding_correct emailDecoder nearby 7 none (List.replicate 10 0) some_token
  exact ⟨path, found, counted, valid⟩

theorem shared_bytes :
    ¬ ∀ (decoder : Decoder ℚ) (functions : Elementary ℚ) (textId : Nat) (text : Option (List Char)) (scores : List ℚ)
      (offsets : List (Nat × Nat)) (path : List Nat) (spans : List (DetectedSpan ℚ)), NonDecreasing offsets →
      decoder.viterbi scores offsets.length = .ok path →
      decoder.spansOf functions textId text scores path offsets = .ok spans →
      spans.Pairwise fun first second => first.stop ≤ second.start := by
  intro apart
  have sorted : NonDecreasing [(0, 3), (0, 3)] := ⟨by decide, by decide⟩
  have path : emailDecoder.viterbi (List.replicate 10 0) 2 = .ok [4, 4] := by decide +kernel
  have spans : emailDecoder.spansOf nearby 7 none (List.replicate 10 0) [4, 4] [(0, 3), (0, 3)] =
      .ok [⟨7, "email", 0, 3, 1 / 5⟩, ⟨7, "email", 0, 3, 1 / 5⟩] := by
    decide +kernel
  have contra := apart emailDecoder nearby 7 none _ _ _ _ sorted path spans
  revert contra
  decide

end AstrLink.TokenDecoder
