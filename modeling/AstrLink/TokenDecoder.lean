import AstrLink.BestPaths

/-!
The decoder that turns the scores of a text's tokens into spans. `viterbi` finds the best path of labels, and
three functions read the spans off it. Scores are exact, and `⊥` is that of what cannot be reached.
-/
namespace AstrLink.TokenDecoder
open BestPaths List

structure Entity where
  source : String
  canonical : Option String
deriving DecidableEq

inductive Tag where
  | outside
  | begin (entity : Entity)
  | inside (entity : Entity)
  | ended (entity : Entity)
  | single (entity : Entity)
deriving DecidableEq

inductive TagScheme where
  | bio
  | bioes

structure TransitionBiases (α : Type) where
  backgroundStay : α
  backgroundToStart : α
  endToBackground : α
  endToStart : α
  insideToContinue : α
  insideToEnd : α

structure SpanCalibrator (α : Type) where
  slope : α
  intercept : α

structure LanguageCalibration (α : Type) where
  emissionBias : List α
  thresholds : String → Option α
  spanConfidence : String → Option (SpanCalibrator α)

structure SensitiveCalibration (α : Type) where
  en : LanguageCalibration α
  zh : LanguageCalibration α

/-- A decoder without the offset contract; its labels have the outside tag. -/
structure Decoder (α : Type) where
  labels : List Tag
  scheme : TagScheme
  biases : TransitionBiases α
  sensitive : Option (SensitiveCalibration α)
  pplxBiases : Option (α × α)
  outsideListed : .outside ∈ labels
  pplxScheme : pplxBiases.isSome → scheme = .bioes

structure DetectedSpan (α : Type) where
  textId : Nat
  label : String
  start : Nat
  stop : Nat
  score : α
deriving DecidableEq

/-- The exponential and the logarithm. -/
structure Elementary (α : Type) where
  exp : α → α
  log : α → α

def validStart : TagScheme → Tag → Bool
  | .bio, .outside | .bio, .begin _ => true
  | .bio, _ => false
  | .bioes, .outside | .bioes, .begin _ | .bioes, .single _ => true
  | .bioes, _ => false

def validEnd : TagScheme → Tag → Bool
  | .bio, .outside | .bio, .begin _ | .bio, .inside _ => true
  | .bio, _ => false
  | .bioes, .outside | .bioes, .ended _ | .bioes, .single _ => true
  | .bioes, _ => false

section
variable {α : Type} [Field α] [LinearOrder α]

namespace Decoder

def startBias (decoder : Decoder α) (next : Tag) : α :=
  if decoder.pplxBiases.isSome then 0
  else
    match next with
    | .outside => decoder.biases.backgroundStay
    | .begin _ | .single _ => decoder.biases.backgroundToStart
    | .inside _ | .ended _ => 0

def bioTransitionBias (decoder : Decoder α) : Tag → Tag → Option α
  | .outside, .outside => some decoder.biases.backgroundStay
  | .outside, .begin _ => some decoder.biases.backgroundToStart
  | .begin left, .inside right | .inside left, .inside right =>
    if left.source = right.source then some decoder.biases.insideToContinue else none
  | .begin _, .outside | .inside _, .outside => some decoder.biases.endToBackground
  | .begin _, .begin _ | .inside _, .begin _ => some decoder.biases.endToStart
  | _, _ => none

def bioesTransitionBias (decoder : Decoder α) : Tag → Tag → Option α
  | .outside, .outside => some decoder.biases.backgroundStay
  | .outside, .begin _ | .outside, .single _ => some decoder.biases.backgroundToStart
  | .begin left, .inside right | .inside left, .inside right =>
    if left.source = right.source then some decoder.biases.insideToContinue else none
  | .begin left, .ended right | .inside left, .ended right =>
    if left.source = right.source then some decoder.biases.insideToEnd else none
  | .ended _, .outside | .single _, .outside => some decoder.biases.endToBackground
  | .ended _, .begin _ | .ended _, .single _ | .single _, .begin _ | .single _, .single _ =>
    some decoder.biases.endToStart
  | _, _ => none

def beginBias (bias : α) : Tag → α
  | .begin _ => bias
  | _ => 0

def endedBias (bias : α) : Tag → α
  | .ended _ => bias
  | _ => 0

def transitionBias (decoder : Decoder α) (previous next : Tag) : Option α :=
  match decoder.pplxBiases with
  | some (bBias, eBias) =>
    (decoder.bioesTransitionBias previous next).map fun _ => beginBias bBias next + endedBias eBias previous
  | none =>
    match decoder.scheme with
    | .bio => decoder.bioTransitionBias previous next
    | .bioes => decoder.bioesTransitionBias previous next

def logit (decoder : Decoder α) (logits : List α) (token state : Nat) : α :=
  logits.getD (token * decoder.labels.length + state) 0

def startScores (decoder : Decoder α) (logits : List α) : List (WithBot α) :=
  decoder.labels.zipIdx.map fun (tag, state) =>
    if validStart decoder.scheme tag then ((decoder.logit logits 0 state + decoder.startBias tag : α) : WithBot α) else ⊥

/-- The scores of a label at a token after each previous label that may come before it. -/
def candidates (decoder : Decoder α) (logits : List α) (scores : List (WithBot α)) (token : Nat) (nextTag : Tag)
    (next : Nat) : List (WithBot α × Nat) :=
  (scores.zip decoder.labels).zipIdx.filterMap fun ((previousScore, previousTag), previous) =>
    (decoder.transitionBias previousTag nextTag).map fun bias : α =>
      (previousScore + (bias : WithBot α) + (decoder.logit logits token next : WithBot α), previous)

/-- The best score and the previous label of every label at a token. -/
def nextScores (decoder : Decoder α) (logits : List α) (scores : List (WithBot α)) (token : Nat) :
    List (WithBot α × Nat) :=
  decoder.labels.zipIdx.map fun (nextTag, next) =>
    (decoder.candidates logits scores token nextTag next).foldl better (⊥, 0)

/-- The scores after some tokens, with the previous labels of every token, the last token first. -/
def forward (decoder : Decoder α) (logits : List α) : Nat → List (WithBot α) × List (List Nat)
  | 0 => (decoder.startScores logits, [])
  | token + 1 =>
    let (scores, backpointers) := decoder.forward logits token
    let column := decoder.nextScores logits scores (token + 1)
    (column.map Prod.fst, column.map Prod.snd :: backpointers)

/-- The labels before a label, by the previous labels of the tokens up to its own. -/
def backtrack : List (List Nat) → Nat → List Nat → List Nat
  | [], _, path => path
  | row :: rows, state, path => backtrack rows (row.getD state 0) (row.getD state 0 :: path)

def finalOrder (decoder : Decoder α) (left right : Nat × WithBot α) : Ordering :=
  (compare left.2 right.2).then (if decoder.pplxBiases.isSome then compare right.1 left.1 else .eq)

def finalStates (decoder : Decoder α) (scores : List (WithBot α)) : List (Nat × WithBot α) :=
  (scores.zip decoder.labels).zipIdx.filterMap fun ((score, tag), state) =>
    if validEnd decoder.scheme tag then some (state, score) else none

def viterbi (decoder : Decoder α) (logits : List α) (tokenCount : Nat) : Except String (List Nat) :=
  let (scores, backpointers) := decoder.forward logits (tokenCount - 1)
  match maxBy decoder.finalOrder (decoder.finalStates scores) with
  | none => .error "invalid_logits"
  | some (state, score) => if score = ⊥ then .error "invalid_logits" else .ok (backtrack backpointers state [state])

end Decoder
end

def byteLength : List Char → Nat
  | [] => 0
  | character :: text => character.utf8Size + byteLength text

/-- The text after some bytes, where a character ends there. -/
def dropBytes : Nat → List Char → Option (List Char)
  | count, [] => if count = 0 then some [] else none
  | count, character :: text =>
    if count = 0 then some (character :: text)
    else if character.utf8Size ≤ count then dropBytes (count - character.utf8Size) text
    else none

def takeBytes : Nat → List Char → Option (List Char)
  | count, [] => if count = 0 then some [] else none
  | count, character :: text =>
    if count = 0 then some []
    else if character.utf8Size ≤ count then (takeBytes (count - character.utf8Size) text).map (character :: ·)
    else none

def sliceBytes (text : List Char) (start stop : Nat) : Option (List Char) :=
  if stop < start then none else (dropBytes start text).bind (takeBytes (stop - start))

def isBlank (character : Char) : Bool := character == ' ' || character == '\t' || character == '\n'

/-- The bytes of a slice without the blanks around it. -/
def trimmedBounds (text : List Char) (start stop : Nat) : Option (Nat × Nat) :=
  (sliceBytes text start stop).map fun value =>
    let fromStart := value.dropWhile isBlank
    let trimmed := (fromStart.reverse.dropWhile isBlank).reverse
    let trimmedStart := start + (byteLength value - byteLength fromStart)
    (trimmedStart, trimmedStart + byteLength trimmed)

def isZhSignal (character : Char) : Bool :=
  let code := character.toNat
  (0x3000 ≤ code && code ≤ 0x303F) || (0x3400 ≤ code && code ≤ 0x4DBF) || (0x4E00 ≤ code && code ≤ 0x9FFF) ||
    (0xF900 ≤ code && code ≤ 0xFAFF) || (0xFF00 ≤ code && code ≤ 0xFFEF) || (0x20000 ≤ code && code ≤ 0x3134F)

structure Token (α : Type) where
  tag : Tag
  offset : Nat × Nat
  score : α

def continues {α : Type} (entity : Entity) (token : Token α) : Bool :=
  match token.tag with
  | .inside next => next.source == entity.source
  | _ => false

def finishes {α : Type} (entity : Entity) (token : Token α) : Bool :=
  match token.tag with
  | .ended next => next.source == entity.source
  | _ => false

def spanBounds (offsets : List (Nat × Nat)) : Option (Nat × Nat) := do
  let first ← offsets.find? fun offset => offset.1 < offset.2
  let last ← offsets.reverse.find? fun offset => offset.1 < offset.2
  if last.2 ≤ first.1 then none else some (first.1, last.2)

section
variable {α : Type} [Field α] [LinearOrder α]

def mean (scores : List α) : α := scores.foldl (· + ·) 0 / (scores.length : α)

def softmaxProbability (functions : Elementary α) (logits : List α) (state : Nat) : α :=
  match logits.max? with
  | none => 0
  | some maximum =>
    let denominator := (logits.map fun value => functions.exp (value - maximum)).foldl (· + ·) 0
    if denominator = 0 then 0 else max 0 (min 1 (functions.exp (logits.getD state 0 - maximum) / denominator))

def calibratedProbability (functions : Elementary α) (score : α) (calibrator : SpanCalibrator α) : α :=
  let clamped := max (1 / 10000000) (min (1 - 1 / 10000000) score)
  let logOdds := functions.log (clamped / (1 - clamped))
  let value := calibrator.slope * logOdds + calibrator.intercept
  if 40 ≤ value then 1 else if value ≤ -40 then 0 else 1 / (1 + functions.exp (-value))

def pushSpan (functions : Elementary α) (textId : Nat) (entity : Entity) (canonical : String) (tokens : List (Token α))
    (calibration : Option (LanguageCalibration α)) : Option (DetectedSpan α) := do
  let (start, stop) ← spanBounds (tokens.map Token.offset)
  let rawScore := mean (tokens.map Token.score)
  let score :=
    match calibration.bind fun language => language.spanConfidence entity.source with
    | none => rawScore
    | some calibrator => calibratedProbability functions rawScore calibrator
  if (calibration.bind fun language => language.thresholds entity.source).any fun threshold => score < threshold then
    none
  else some { textId, label := canonical, start, stop, score }

/-- The span of an entity that has a canonical kind. -/
def pushEntity (functions : Elementary α) (textId : Nat) (calibration : Option (LanguageCalibration α))
    (entity : Entity) (tokens : List (Token α)) : List (DetectedSpan α) :=
  (entity.canonical.bind fun canonical => pushSpan functions textId entity canonical tokens calibration).toList

def decodeBio (functions : Elementary α) (textId : Nat) (calibration : Option (LanguageCalibration α)) :
    List (Token α) → Except String (List (DetectedSpan α))
  | [] => .ok []
  | token :: rest =>
    match token.tag with
    | .begin entity => do
      let spans ← decodeBio functions textId calibration (rest.dropWhile (continues entity))
      .ok (pushEntity functions textId calibration entity (token :: rest.takeWhile (continues entity)) ++ spans)
    | .outside => decodeBio functions textId calibration rest
    | _ => .error "invalid_decoded_path"
termination_by tokens => tokens.length
decreasing_by
  · have shorter := (dropWhile_suffix (l := rest) (continues entity)).length_le
    simp only [length_cons]
    omega
  · simp only [length_cons]
    omega

def decodeBioes (functions : Elementary α) (textId : Nat) (calibration : Option (LanguageCalibration α)) :
    List (Token α) → Except String (List (DetectedSpan α))
  | [] => .ok []
  | token :: rest =>
    match token.tag with
    | .single entity => do
      let spans ← decodeBioes functions textId calibration rest
      .ok (pushEntity functions textId calibration entity [token] ++ spans)
    | .begin entity =>
      match _following : rest.dropWhile (continues entity) with
      | [] => .error "invalid_decoded_path"
      | last :: after =>
        if finishes entity last then do
          let spans ← decodeBioes functions textId calibration after
          let tokens := token :: rest.takeWhile (continues entity) ++ [last]
          .ok (pushEntity functions textId calibration entity tokens ++ spans)
        else .error "invalid_decoded_path"
    | .outside => decodeBioes functions textId calibration rest
    | _ => .error "invalid_decoded_path"
termination_by tokens => tokens.length
decreasing_by
  · simp only [length_cons]
    omega
  · have shorter := (dropWhile_suffix (l := rest) (continues entity)).length_le
    rw [_following] at shorter
    simp only [length_cons] at shorter ⊢
    omega
  · simp only [length_cons]
    omega

/-- The span of an entity by its first and its last token. A text cuts the blanks around it. -/
def pplxSpan (functions : Elementary α) (textId : Nat) (text : Option (List Char)) (entity : Entity)
    (tokens : List (Token α)) (first last : Token α) : Except String (List (DetectedSpan α)) := do
  let score := mean (tokens.map Token.score)
  let (start, stop) ←
    match text with
    | none => .ok (first.offset.1, last.offset.2)
    | some text =>
      match trimmedBounds text first.offset.1 last.offset.2 with
      | none => .error "invalid_tokenizer_output"
      | some bounds => .ok bounds
  match entity.canonical with
  | none => .ok []
  | some canonical =>
    if start < stop then
      .ok [{ textId, label := canonical, start, stop, score := 1 / (1 + functions.exp (-score)) }]
    else .ok []

def pplxSpans (functions : Elementary α) (textId : Nat) (text : Option (List Char)) :
    List (Token α) → Except String (List (DetectedSpan α))
  | [] => .ok []
  | token :: rest =>
    match token.tag with
    | .single entity => do
      let span ← pplxSpan functions textId text entity [token] token token
      let spans ← pplxSpans functions textId text rest
      .ok (span ++ spans)
    | .begin entity =>
      match _following : rest.dropWhile (continues entity) with
      | [] => .error "invalid_decoded_path"
      | last :: after =>
        if finishes entity last then do
          let tokens := token :: rest.takeWhile (continues entity) ++ [last]
          let span ← pplxSpan functions textId text entity tokens token last
          let spans ← pplxSpans functions textId text after
          .ok (span ++ spans)
        else .error "invalid_decoded_path"
    | .outside => pplxSpans functions textId text rest
    | _ => .error "invalid_decoded_path"
termination_by tokens => tokens.length
decreasing_by
  · simp only [length_cons]
    omega
  · have shorter := (dropWhile_suffix (l := rest) (continues entity)).length_le
    rw [_following] at shorter
    simp only [length_cons] at shorter ⊢
    omega
  · simp only [length_cons]
    omega

namespace Decoder

def languageCalibration (decoder : Decoder α) (text : List Char) : Option (LanguageCalibration α) :=
  decoder.sensitive.map fun sensitive => if text.any isZhSignal then sensitive.zh else sensitive.en

/-- The scores of the labels, each moved by its language's bias. -/
def adjusted (decoder : Decoder α) (language : Option (LanguageCalibration α)) (logits : List α) : List α :=
  match language with
  | none => logits
  | some language =>
    logits.zipIdx.map fun (value, index) => value + language.emissionBias.getD (index % decoder.labels.length) 0

def tokens (decoder : Decoder α) (path : List Nat) (offsets : List (Nat × Nat)) (score : Nat → Nat → α) :
    List (Token α) :=
  (path.zip offsets).zipIdx.map fun ((state, offset), token) =>
    { tag := decoder.labels.getD state .outside, offset, score := score token state }

def probability (decoder : Decoder α) (functions : Elementary α) (logits : List α) (token state : Nat) : α :=
  softmaxProbability functions ((logits.drop (token * decoder.labels.length)).take decoder.labels.length) state

/-- The spans of a path, read as the decoder's scheme says. -/
def spansOf (decoder : Decoder α) (functions : Elementary α) (textId : Nat) (text : Option (List Char))
    (logits : List α) (path : List Nat) (offsets : List (Nat × Nat)) : Except String (List (DetectedSpan α)) :=
  let language := text.bind decoder.languageCalibration
  if decoder.pplxBiases.isSome then
    pplxSpans functions textId text (decoder.tokens path offsets (decoder.logit logits))
  else
    let tokens := decoder.tokens path offsets (decoder.probability functions logits)
    match decoder.scheme with
    | .bio => decodeBio functions textId language tokens
    | .bioes => decodeBioes functions textId language tokens

def decodeInternal (decoder : Decoder α) (functions : Elementary α) (textId : Nat) (logits : List α)
    (offsets : List (Nat × Nat)) (text : Option (List Char)) : Except String (List (DetectedSpan α)) :=
  if logits.length ≠ offsets.length * decoder.labels.length then .error "invalid_logits"
  else if offsets.isEmpty then .ok []
  else do
    let logits := decoder.adjusted (text.bind decoder.languageCalibration) logits
    let path ← decoder.viterbi logits offsets.length
    decoder.spansOf functions textId text logits path offsets

end Decoder
end

end AstrLink.TokenDecoder
