import Mathlib.Data.ENat.Lattice

/-!
The windows that the tokens of a text are scored in. Of the rows of a token the one stays that comes from the
window where it is farthest from a cut edge (`windows_stitched`).
-/
namespace AstrLink.WindowStitching
open List

/-- The largest count of tokens. -/
def usizeMax : Nat := 2 ^ 64 - 1

/-- A window from its first token to the one after its last. -/
abbrev Range := Nat × Nat

def Covers (range : Range) (token : Nat) : Prop := range.1 ≤ token ∧ token < range.2

instance (range : Range) (token : Nat) : Decidable (Covers range token) :=
  inferInstanceAs (Decidable (_ ∧ _))

/-- `none` when the fuel ends before the loop does. -/
def chunkRangesFrom (tokenCount windowTokens overlapTokens : Nat) : Nat → Nat → Option (List Range)
  | 0, _ => none
  | fuel + 1, start =>
    if start < tokenCount then
      let finish := min (start + windowTokens) tokenCount
      if finish = tokenCount then some [(start, finish)]
      else
        (chunkRangesFrom tokenCount windowTokens overlapTokens fuel (finish - overlapTokens)).map ((start, finish) :: ·)
    else some []

def chunkRangesWith (tokenCount windowTokens overlapTokens fuel : Nat) : Option (List Range) :=
  chunkRangesFrom tokenCount windowTokens overlapTokens fuel 0

structure Chunks (tokenCount windowTokens overlapTokens start : Nat) (ranges : List Range) : Prop where
  inside : ∀ range ∈ ranges, start ≤ range.1 ∧ range.1 < range.2 ∧ range.2 ≤ tokenCount
  sized : ∀ range ∈ ranges, range.2 - range.1 ≤ windowTokens
  reaching : ∀ range ∈ ranges, min (start + windowTokens) tokenCount ≤ range.2
  advancing : ranges.Pairwise fun first second => first.1 < second.1 ∧ first.2 < second.2
  overlapping : ranges.IsChain fun first second => second.1 + overlapTokens = first.2
  covering : ∀ token, start ≤ token → token < tokenCount → ∃ range ∈ ranges, Covers range token

variable {tokenCount windowTokens overlapTokens : Nat}

theorem chunkRangesFrom_more :
    ∀ {fuel start : Nat} {ranges : List Range},
      chunkRangesFrom tokenCount windowTokens overlapTokens fuel start = some ranges →
        chunkRangesFrom tokenCount windowTokens overlapTokens (fuel + 1) start = some ranges := by
  intro fuel
  induction fuel with
  | zero => intro start ranges ends; cases ends
  | succ fuel ih =>
    intro start ranges ends
    rw [chunkRangesFrom] at ends ⊢
    split
    · rename_i inside
      rw [if_pos inside] at ends
      dsimp only at ends ⊢
      split
      · rename_i last
        rwa [if_pos last] at ends
      · rename_i more
        rw [if_neg more, Option.map_eq_some_iff] at ends
        obtain ⟨rest, found, rfl⟩ := ends
        rw [ih found, Option.map_some]
    · rename_i outside
      rwa [if_neg outside] at ends

variable {start : Nat}

theorem Chunks.cons {rest : List Range} (smaller : overlapTokens < windowTokens)
    (goesOn : start + windowTokens < tokenCount)
    (chunks : Chunks tokenCount windowTokens overlapTokens (start + windowTokens - overlapTokens) rest)
    (next : rest.head?.map Prod.fst = some (start + windowTokens - overlapTokens)) :
    Chunks tokenCount windowTokens overlapTokens start ((start, start + windowTokens) :: rest) := by
  have least : min (start + windowTokens) tokenCount = start + windowTokens := by omega
  refine ⟨?inside, ?sized, ?reaching, ?advancing, ?overlapping, ?covering⟩
  case inside =>
    intro range member
    rcases mem_cons.mp member with rfl | member
    · exact ⟨Nat.le_refl _, by omega, by omega⟩
    · obtain ⟨after, nonempty, bounded⟩ := chunks.inside range member
      exact ⟨by omega, nonempty, bounded⟩
  case sized =>
    intro range member
    rcases mem_cons.mp member with rfl | member
    · simp
    · exact chunks.sized range member
  case reaching =>
    intro range member
    rw [least]
    rcases mem_cons.mp member with rfl | member
    · exact Nat.le_refl _
    · have reached := chunks.reaching range member
      omega
  case advancing =>
    rw [pairwise_cons]
    refine ⟨?_, chunks.advancing⟩
    intro range member
    have later := (chunks.inside range member).1
    have reached := chunks.reaching range member
    constructor
    · show start < range.1
      omega
    · show start + windowTokens < range.2
      omega
  case overlapping =>
    rw [isChain_cons]
    refine ⟨?_, chunks.overlapping⟩
    intro range first
    rw [first, Option.map_some, Option.some_inj] at next
    show range.1 + overlapTokens = start + windowTokens
    omega
  case covering =>
    intro token after before
    by_cases within : token < start + windowTokens
    · exact ⟨_, mem_cons_self, after, within⟩
    · obtain ⟨range, member, covered⟩ := chunks.covering token (by omega) before
      exact ⟨range, mem_cons_of_mem _ member, covered⟩

theorem Chunks.last (inside : start < tokenCount) (reached : tokenCount ≤ start + windowTokens) :
    Chunks tokenCount windowTokens overlapTokens start [(start, tokenCount)] := by
  refine ⟨?inside, ?sized, ?reaching, pairwise_singleton _ _, .singleton _, ?covering⟩
  case inside =>
    intro range member
    rw [mem_singleton.mp member]
    exact ⟨Nat.le_refl _, inside, Nat.le_refl _⟩
  case sized =>
    intro range member
    rw [mem_singleton.mp member]
    show tokenCount - start ≤ windowTokens
    omega
  case reaching =>
    intro range member
    rw [mem_singleton.mp member]
    exact Nat.min_le_right _ _
  case covering =>
    intro token after before
    exact ⟨_, mem_singleton_self _, after, before⟩

theorem chunkRangesFrom_correct (smaller : overlapTokens < windowTokens) :
    ∀ {fuel start : Nat}, tokenCount - start < fuel →
      ∃ ranges, chunkRangesFrom tokenCount windowTokens overlapTokens fuel start = some ranges ∧
        Chunks tokenCount windowTokens overlapTokens start ranges ∧
        (start < tokenCount → ranges.head?.map Prod.fst = some start) := by
  intro fuel
  induction fuel with
  | zero => intro start enough; omega
  | succ fuel ih =>
    intro start enough
    rw [chunkRangesFrom]
    by_cases inside : start < tokenCount
    · rw [if_pos inside]
      dsimp only
      by_cases reached : tokenCount ≤ start + windowTokens
      · rw [Nat.min_eq_right reached, if_pos rfl]
        exact ⟨_, rfl, Chunks.last inside reached, fun _ => rfl⟩
      · have goesOn : start + windowTokens < tokenCount := by omega
        rw [Nat.min_eq_left (by omega), if_neg (by omega)]
        have within : start + windowTokens - overlapTokens < tokenCount := by omega
        obtain ⟨rest, found, chunks, next⟩ := ih (by omega : tokenCount - (start + windowTokens - overlapTokens) < fuel)
        rw [found]
        exact ⟨_, rfl, chunks.cons smaller goesOn (next within), fun _ => rfl⟩
    · rw [if_neg inside]
      refine ⟨[], rfl, ⟨?_, ?_, ?_, Pairwise.nil, .nil, ?_⟩, fun contra => absurd contra inside⟩
      · intro range member; cases member
      · intro range member; cases member
      · intro range member; cases member
      · intro token after before; omega

theorem chunkRangesWith_ends (tokenCount : Nat) (smaller : overlapTokens < windowTokens) :
    ∃ ranges, (∀ fuel, tokenCount < fuel → chunkRangesWith tokenCount windowTokens overlapTokens fuel = some ranges) ∧
      Chunks tokenCount windowTokens overlapTokens 0 ranges := by
  obtain ⟨ranges, found, chunks, _⟩ :=
    chunkRangesFrom_correct smaller (by omega : tokenCount - 0 < tokenCount + 1)
  refine ⟨ranges, ?_, chunks⟩
  intro fuel enough
  induction fuel with
  | zero => omega
  | succ fuel ih =>
    rcases Nat.lt_or_eq_of_le (Nat.le_of_lt_succ enough) with more | rfl
    · exact chunkRangesFrom_more (ih more)
    · exact found

example : chunkRangesWith 8200 4096 128 8201 = some [(0, 4096), (3968, 8064), (7936, 8200)] := by decide

/-! ### The scores of the windows -/

def negativeInfinity : Float := -1.0 / 0.0

/-- The scores of one token's logits, or `none` where they are not usable. -/
def normalized (preserveLogits : Bool) (row : List Float32) : Option (List Float) :=
  if row.any fun value => !value.isFinite then none
  else
    let maximum := (row.map Float32.toFloat).foldl max negativeInfinity
    let denominator := (row.map fun value => (value.toFloat - maximum).exp).foldl (· + ·) 0
    if denominator == 0 || !denominator.isFinite then none
    else
      let logDenominator := denominator.log
      let normalizer := if preserveLogits then 0 else maximum + logDenominator
      some (row.map fun value => value.toFloat - normalizer)

def chunksExact (size : Nat) (values : List Float32) : List (List Float32) :=
  (List.range (values.length / size)).map fun chunk => (values.drop (chunk * size)).take size

/-- A row of scores a token, and how far it was from a cut edge. -/
structure StitchedWindowScores where
  scores : List (List Float)
  context : List (Option Nat)
  labelCount : Nat
  preserveLogits : Bool

namespace StitchedWindowScores

def new (tokenCount labelCount : Nat) (preserveLogits : Bool) : StitchedWindowScores where
  scores := List.replicate tokenCount (List.replicate labelCount 0)
  context := List.replicate tokenCount none
  labelCount := labelCount
  preserveLogits := preserveLogits

/-- The distance to the nearest edge that is cut. -/
def contextAt (textTokens start tokenCount localToken : Nat) : Nat :=
  let before := if start = 0 then usizeMax else localToken
  let after := if start + tokenCount = textTokens then usizeMax else tokenCount - 1 - localToken
  min before after

def addRow (stitched : StitchedWindowScores) (start tokenCount localToken : Nat) (row : List Float32) :
    Except String StitchedWindowScores :=
  match normalized stitched.preserveLogits row with
  | none => .error "invalid_logits"
  | some scores =>
    let globalToken := start + localToken
    let context := contextAt stitched.context.length start tokenCount localToken
    -- Ties keep the earlier window.
    if (stitched.context[globalToken]?.getD none).any fun kept => context ≤ kept then .ok stitched
    else
      .ok { stitched with
        scores := stitched.scores.set globalToken scores
        context := stitched.context.set globalToken (some context) }

def addRows (stitched : StitchedWindowScores) (start tokenCount localToken : Nat) :
    List (List Float32) → Except String StitchedWindowScores
  | [] => .ok stitched
  | row :: rows => do
    let added ← stitched.addRow start tokenCount localToken row
    added.addRows start tokenCount (localToken + 1) rows

def addWindow (stitched : StitchedWindowScores) (start : Nat) (logits : List Float32) :
    Except String StitchedWindowScores :=
  if logits.length % stitched.labelCount ≠ 0 then .error "invalid_logits"
  else
    let tokenCount := logits.length / stitched.labelCount
    if usizeMax < start + tokenCount then .error "invalid_logits_shape"
    else if stitched.context.length < start + tokenCount then .error "invalid_logits_shape"
    else stitched.addRows start tokenCount 0 (chunksExact stitched.labelCount logits)

def finish (stitched : StitchedWindowScores) : Except String (List Float32) :=
  if stitched.context.contains none then .error "incomplete_logits_coverage"
  else .ok (stitched.scores.flatten.map Float.toFloat32)

end StitchedWindowScores

/-- A window and the logits of its tokens. -/
abbrev Window := Range × List Float32

def addWindows (stitched : StitchedWindowScores) : List Window → Except String StitchedWindowScores
  | [] => .ok stitched
  | window :: windows => do
    let added ← stitched.addWindow window.1.1 window.2
    addWindows added windows

/-- The scores of a text whose windows are read in order. -/
def detectScores (tokenCount labelCount : Nat) (preserveLogits : Bool) (windows : List Window) :
    Except String (List Float32) := do
  let stitched ← addWindows (.new tokenCount labelCount preserveLogits) windows
  stitched.finish

/-! ### What one row and one window leave -/

def StitchedWindowScores.entry (stitched : StitchedWindowScores) (token : Nat) : Option (Nat × List Float) :=
  (stitched.context[token]?.getD none).bind fun context => stitched.scores[token]?.map fun scores => (context, scores)

def keep (kept : Option (Nat × List Float)) (context : Nat) (scores : List Float) : Option (Nat × List Float) :=
  if kept.any fun entry => context ≤ entry.1 then kept else some (context, scores)

structure Sized (tokenCount labelCount : Nat) (preserveLogits : Bool) (stitched : StitchedWindowScores) : Prop where
  context : stitched.context.length = tokenCount
  scores : stitched.scores.length = tokenCount
  rows : ∀ row ∈ stitched.scores, row.length = labelCount
  labels : stitched.labelCount = labelCount
  logits : stitched.preserveLogits = preserveLogits

theorem Sized.new (tokenCount labelCount : Nat) (preserveLogits : Bool) :
    Sized tokenCount labelCount preserveLogits (.new tokenCount labelCount preserveLogits) := by
  refine ⟨length_replicate, length_replicate, ?_, rfl, rfl⟩
  intro row member
  rw [eq_of_mem_replicate member, length_replicate]

theorem entry_new (tokenCount labelCount token : Nat) (preserveLogits : Bool) :
    (StitchedWindowScores.new tokenCount labelCount preserveLogits).entry token = none := by
  unfold StitchedWindowScores.entry StitchedWindowScores.new
  dsimp only
  rw [getElem?_replicate]
  split <;> rfl

variable {preserveLogits : Bool}

variable {row : List Float32}

theorem normalized_length {scores : List Float} (found : normalized preserveLogits row = some scores) :
    scores.length = row.length := by
  unfold normalized at found
  split at found
  · cases found
  · dsimp only at found
    split at found
    · cases found
    · rw [← Option.some.inj found, length_map]

variable {labelCount : Nat} {stitched : StitchedWindowScores}

variable {token : Nat}

theorem Sized.entry_context (sized : Sized tokenCount labelCount preserveLogits stitched)
    (inside : token < tokenCount) :
    stitched.context[token]?.getD none = (stitched.entry token).map Prod.fst := by
  have within : token < stitched.scores.length := by rw [sized.scores]; exact inside
  unfold StitchedWindowScores.entry
  rw [getElem?_eq_getElem within]
  cases stitched.context[token]?.getD none <;> rfl

theorem addRow_correct {localToken : Nat} {added : StitchedWindowScores}
    (sized : Sized tokenCount labelCount preserveLogits stitched) (inside : start + localToken < tokenCount)
    (width : row.length = labelCount) (done : stitched.addRow start windowTokens localToken row = .ok added) :
    Sized tokenCount labelCount preserveLogits added ∧
      (∀ token, token ≠ start + localToken → added.entry token = stitched.entry token) ∧
      ∃ scores, normalized preserveLogits row = some scores ∧
        added.entry (start + localToken) =
          keep (stitched.entry (start + localToken))
            (StitchedWindowScores.contextAt tokenCount start windowTokens localToken) scores := by
  unfold StitchedWindowScores.addRow at done
  rw [sized.logits] at done
  cases found : normalized preserveLogits row with
  | none => rw [found] at done; cases done
  | some scores =>
    rw [found] at done
    dsimp only at done
    rw [sized.context, sized.entry_context inside, Option.any_map] at done
    by_cases farther : (stitched.entry (start + localToken)).any fun entry =>
        StitchedWindowScores.contextAt tokenCount start windowTokens localToken ≤ entry.1
    · have same : stitched = added := by
        rw [if_pos (by exact farther)] at done
        exact Except.ok.inj done
      rw [← same]
      exact ⟨sized, fun _ _ => rfl, scores, rfl, by rw [keep, if_pos farther]⟩
    · rw [if_neg (by exact farther)] at done
      have changed := Except.ok.inj done
      rw [← changed]
      refine ⟨⟨?contexts, ?rows, ?widths, sized.labels, rfl⟩, ?others, scores, rfl, ?entered⟩
      case contexts => rw [length_set]; exact sized.context
      case rows => rw [length_set]; exact sized.scores
      case widths =>
        intro other member
        rcases mem_or_eq_of_mem_set member with old | rfl
        · exact sized.rows other old
        · rw [normalized_length found, width]
      case others =>
        intro token other
        unfold StitchedWindowScores.entry
        dsimp only
        rw [getElem?_set_ne (Ne.symm other), getElem?_set_ne (Ne.symm other)]
      case entered =>
        have known : start + localToken < stitched.context.length := by rw [sized.context]; exact inside
        have scored : start + localToken < stitched.scores.length := by rw [sized.scores]; exact inside
        rw [keep, if_neg farther]
        unfold StitchedWindowScores.entry
        dsimp only
        rw [getElem?_set_self known, getElem?_set_self scored]
        rfl

theorem addRow_error {localToken : Nat} {error : String}
    (failed : stitched.addRow start windowTokens localToken row = .error error) :
    error = "invalid_logits" ∧ normalized stitched.preserveLogits row = none := by
  unfold StitchedWindowScores.addRow at failed
  cases found : normalized stitched.preserveLogits row with
  | none => rw [found] at failed; exact ⟨(Except.error.inj failed).symm, rfl⟩
  | some scores =>
    rw [found] at failed
    dsimp only at failed
    split at failed <;> cases failed

theorem addRows_correct {rows : List (List Float32)} :
    ∀ {localToken : Nat} {stitched added : StitchedWindowScores}, Sized tokenCount labelCount preserveLogits stitched →
      start + localToken + rows.length ≤ tokenCount → (∀ row ∈ rows, row.length = labelCount) →
      stitched.addRows start windowTokens localToken rows = .ok added →
      Sized tokenCount labelCount preserveLogits added ∧
        (∀ token, token < start + localToken ∨ start + localToken + rows.length ≤ token →
          added.entry token = stitched.entry token) ∧
        ∀ place row, rows[place]? = some row →
          ∃ scores, normalized preserveLogits row = some scores ∧
            added.entry (start + localToken + place) =
              keep (stitched.entry (start + localToken + place))
                (StitchedWindowScores.contextAt tokenCount start windowTokens (localToken + place)) scores := by
  induction rows with
  | nil =>
    intro localToken stitched added sized _ _ done
    rw [← Except.ok.inj done]
    exact ⟨sized, fun _ _ => rfl, fun place row found => by simp at found⟩
  | cons first rows ih =>
    intro localToken stitched added sized inside widths done
    rw [length_cons] at inside
    rw [StitchedWindowScores.addRows] at done
    cases entered : stitched.addRow start windowTokens localToken first with
    | error error => rw [entered] at done; cases done
    | ok next =>
      rw [entered] at done
      obtain ⟨sizedNext, othersFirst, scores, found, kept⟩ :=
        addRow_correct sized (by omega) (widths first mem_cons_self) entered
      obtain ⟨sizedAdded, others, placed⟩ :=
        ih sizedNext (by omega) (fun row member => widths row (mem_cons_of_mem _ member)) done
      refine ⟨sizedAdded, ?_, ?_⟩
      · intro token outside
        rw [length_cons] at outside
        rw [others token (by omega), othersFirst token (by omega)]
      · intro place row atPlace
        cases place with
        | zero =>
          rw [getElem?_cons_zero] at atPlace
          rw [← Option.some.inj atPlace]
          refine ⟨scores, found, ?_⟩
          show added.entry (start + localToken) = _
          rw [others _ (by omega)]
          exact kept
        | succ place =>
          rw [getElem?_cons_succ] at atPlace
          obtain ⟨scores, found, kept⟩ := placed place row atPlace
          have shifted : start + (localToken + 1) + place = start + localToken + (place + 1) := by omega
          have counted : localToken + 1 + place = localToken + (place + 1) := by omega
          rw [shifted, counted, othersFirst _ (by omega)] at kept
          exact ⟨scores, found, kept⟩

theorem addRows_error {rows : List (List Float32)} {error : String} :
    ∀ {localToken : Nat} {stitched : StitchedWindowScores},
      stitched.addRows start windowTokens localToken rows = .error error →
        error = "invalid_logits" ∧ ∃ row ∈ rows, normalized stitched.preserveLogits row = none := by
  induction rows with
  | nil => intro localToken stitched failed; cases failed
  | cons first rows ih =>
    intro localToken stitched failed
    rw [StitchedWindowScores.addRows] at failed
    cases entered : stitched.addRow start windowTokens localToken first with
    | error found =>
      rw [entered] at failed
      obtain ⟨named, unusable⟩ := addRow_error entered
      rw [← Except.error.inj failed]
      exact ⟨named, first, mem_cons_self, unusable⟩
    | ok next =>
      rw [entered] at failed
      obtain ⟨named, row, member, unusable⟩ := ih failed
      have same : next.preserveLogits = stitched.preserveLogits := by
        unfold StitchedWindowScores.addRow at entered
        cases found : normalized stitched.preserveLogits first with
        | none => rw [found] at entered; cases entered
        | some scores =>
          rw [found] at entered
          dsimp only at entered
          split at entered <;> rw [← Except.ok.inj entered]
      rw [same] at unusable
      exact ⟨named, row, mem_cons_of_mem _ member, unusable⟩

def rowAt (labelCount : Nat) (window : Window) (token : Nat) : List Float32 :=
  (window.2.drop ((token - window.1.1) * labelCount)).take labelCount

def windowContext (tokenCount : Nat) (range : Range) (token : Nat) : Nat :=
  StitchedWindowScores.contextAt tokenCount range.1 (range.2 - range.1) (token - range.1)

/-- A window of the text that comes with a row of logits for each of its tokens. -/
structure Shaped (tokenCount labelCount : Nat) (window : Window) : Prop where
  ordered : window.1.1 < window.1.2
  inside : window.1.2 ≤ tokenCount
  logits : window.2.length = (window.1.2 - window.1.1) * labelCount

/-- A window with a row that has no usable scores. -/
def Unusable (labelCount : Nat) (preserveLogits : Bool) (window : Window) : Prop :=
  ∃ row ∈ chunksExact labelCount window.2, normalized preserveLogits row = none

variable {window : Window}

section
variable (shaped : Shaped tokenCount labelCount window) (labelled : 0 < labelCount)
include shaped labelled

theorem Shaped.chunks :
    chunksExact labelCount window.2 =
      (List.range (window.1.2 - window.1.1)).map fun chunk => (window.2.drop (chunk * labelCount)).take labelCount := by
  unfold chunksExact
  rw [shaped.logits, Nat.mul_div_cancel _ labelled]

theorem Shaped.widths :
    ∀ row ∈ chunksExact labelCount window.2, row.length = labelCount := by
  intro row member
  rw [shaped.chunks labelled] at member
  obtain ⟨chunk, listed, rfl⟩ := mem_map.mp member
  have before := mem_range.mp listed
  have room : (chunk + 1) * labelCount ≤ (window.1.2 - window.1.1) * labelCount := Nat.mul_le_mul_right _ before
  rw [Nat.add_mul, Nat.one_mul] at room
  rw [length_take, length_drop, shaped.logits]
  omega

theorem Shaped.added
    (counted : tokenCount ≤ usizeMax) (sized : Sized tokenCount labelCount preserveLogits stitched) :
    stitched.addWindow window.1.1 window.2 =
      stitched.addRows window.1.1 (window.1.2 - window.1.1) 0 (chunksExact labelCount window.2) := by
  have ordered := shaped.ordered
  have inside := shaped.inside
  unfold StitchedWindowScores.addWindow
  rw [sized.labels, shaped.logits, Nat.mul_mod_left, if_neg (by omega)]
  dsimp only
  rw [Nat.mul_div_cancel _ labelled, if_neg (by omega), sized.context, if_neg (by omega)]

end

theorem addWindow_correct {added : StitchedWindowScores} (shaped : Shaped tokenCount labelCount window)
    (labelled : 0 < labelCount) (counted : tokenCount ≤ usizeMax)
    (sized : Sized tokenCount labelCount preserveLogits stitched)
    (done : stitched.addWindow window.1.1 window.2 = .ok added) :
    Sized tokenCount labelCount preserveLogits added ∧
      (∀ token, ¬ Covers window.1 token → added.entry token = stitched.entry token) ∧
      ∀ token, Covers window.1 token →
        ∃ scores, normalized preserveLogits (rowAt labelCount window token) = some scores ∧
          added.entry token = keep (stitched.entry token) (windowContext tokenCount window.1 token) scores := by
  have ordered := shaped.ordered
  have inside := shaped.inside
  have rows : (chunksExact labelCount window.2).length = window.1.2 - window.1.1 := by
    rw [shaped.chunks labelled, length_map, length_range]
  rw [shaped.added labelled counted sized] at done
  obtain ⟨sizedAdded, others, placed⟩ :=
    addRows_correct sized (by omega) (shaped.widths labelled) done
  refine ⟨sizedAdded, ?_, ?_⟩
  · intro token outside
    apply others
    unfold Covers at outside
    omega
  · intro token covered
    obtain ⟨after, before⟩ := covered
    have found : (chunksExact labelCount window.2)[token - window.1.1]? = some (rowAt labelCount window token) := by
      rw [shaped.chunks labelled, getElem?_map, getElem?_range (by omega)]
      rfl
    obtain ⟨scores, normal, kept⟩ := placed _ _ found
    have place : window.1.1 + 0 + (token - window.1.1) = token := by omega
    rw [place, Nat.zero_add] at kept
    exact ⟨scores, normal, kept⟩

/-! ### What all windows leave -/

/-- The window of a token's scores: no other is farther from a cut edge. -/
def KeptFrom (tokenCount labelCount : Nat) (preserveLogits : Bool) (windows : List Window) (token : Nat)
    (entry : Nat × List Float) : Prop :=
  ∃ before window after, windows = before ++ window :: after ∧ Covers window.1 token ∧
    normalized preserveLogits (rowAt labelCount window token) = some entry.2 ∧
    entry.1 = windowContext tokenCount window.1 token ∧
    (∀ earlier ∈ before, Covers earlier.1 token → windowContext tokenCount earlier.1 token < entry.1) ∧
    ∀ later ∈ after, Covers later.1 token → windowContext tokenCount later.1 token ≤ entry.1

structure Stitched (tokenCount labelCount : Nat) (preserveLogits : Bool) (windows : List Window)
    (stitched : StitchedWindowScores) : Prop where
  sized : Sized tokenCount labelCount preserveLogits stitched
  missing : ∀ token, stitched.entry token = none → ∀ window ∈ windows, ¬ Covers window.1 token
  kept : ∀ token entry, stitched.entry token = some entry →
    KeptFrom tokenCount labelCount preserveLogits windows token entry

theorem Stitched.new (tokenCount labelCount : Nat) (preserveLogits : Bool) :
    Stitched tokenCount labelCount preserveLogits [] (.new tokenCount labelCount preserveLogits) := by
  refine ⟨Sized.new _ _ _, ?_, ?_⟩
  · intro token _ window member
    cases member
  · intro token entry found
    rw [entry_new] at found
    cases found

variable {windows : List Window}

theorem KeptFrom.snoc {entry : Nat × List Float}
    (kept : KeptFrom tokenCount labelCount preserveLogits windows token entry)
    (nearer : Covers window.1 token → windowContext tokenCount window.1 token ≤ entry.1) :
    KeptFrom tokenCount labelCount preserveLogits (windows ++ [window]) token entry := by
  obtain ⟨before, chosen, after, rfl, covered, normal, context, earlier, later⟩ := kept
  refine ⟨before, chosen, after ++ [window], by simp, covered, normal, context, earlier, ?_⟩
  intro other member coveredOther
  rcases mem_append.mp member with old | new
  · exact later other old coveredOther
  · rw [mem_singleton.mp new] at coveredOther ⊢
    exact nearer coveredOther

theorem Stitched.add {added : StitchedWindowScores}
    (old : Stitched tokenCount labelCount preserveLogits windows stitched)
    (shaped : Shaped tokenCount labelCount window) (labelled : 0 < labelCount) (counted : tokenCount ≤ usizeMax)
    (done : stitched.addWindow window.1.1 window.2 = .ok added) :
    Stitched tokenCount labelCount preserveLogits (windows ++ [window]) added := by
  obtain ⟨sized, others, covered⟩ := addWindow_correct shaped labelled counted old.sized done
  refine ⟨sized, ?missing, ?kept⟩
  case missing =>
    intro token absent other member
    by_cases inWindow : Covers window.1 token
    · obtain ⟨scores, _, kept⟩ := covered token inWindow
      rw [kept, keep] at absent
      split at absent
      · rename_i farther
        rw [absent] at farther
        cases farther
      · cases absent
    · rw [others token inWindow] at absent
      rcases mem_append.mp member with before | new
      · exact old.missing token absent other before
      · rw [mem_singleton.mp new]
        exact inWindow
  case kept =>
    intro token entry found
    by_cases inWindow : Covers window.1 token
    · obtain ⟨scores, normal, kept⟩ := covered token inWindow
      rw [kept, keep] at found
      split at found
      · rename_i farther
        rw [found, Option.any_some, decide_eq_true_eq] at farther
        exact (old.kept token entry found).snoc fun _ => farther
      · rename_i nearer
        rw [← Option.some.inj found]
        refine ⟨windows, window, [], rfl, inWindow, normal, rfl, ?_, fun later member => by cases member⟩
        intro earlier member coveredEarlier
        cases present : stitched.entry token with
        | none => exact absurd coveredEarlier (old.missing token present earlier member)
        | some held =>
          rw [present, Option.any_some, decide_eq_true_eq] at nearer
          obtain ⟨before, chosen, after, rfl, _, _, context, first, last⟩ := old.kept token held present
          have most : windowContext tokenCount earlier.1 token ≤ held.1 := by
            rcases mem_append.mp member with inBefore | rest
            · exact Nat.le_of_lt (first earlier inBefore coveredEarlier)
            · rcases mem_cons.mp rest with rfl | inAfter
              · exact Nat.le_of_eq context.symm
              · exact last earlier inAfter coveredEarlier
          show windowContext tokenCount earlier.1 token < windowContext tokenCount window.1 token
          omega
    · rw [others token inWindow] at found
      exact (old.kept token entry found).snoc fun contra => absurd contra inWindow

theorem addWindows_correct (labelled : 0 < labelCount) (counted : tokenCount ≤ usizeMax) :
    ∀ {done : List Window} {stitched : StitchedWindowScores},
      Stitched tokenCount labelCount preserveLogits done stitched →
      (∀ window ∈ windows, Shaped tokenCount labelCount window) →
      (addWindows stitched windows = .error "invalid_logits" ∧
          ∃ window ∈ windows, Unusable labelCount preserveLogits window) ∨
        ∃ added, addWindows stitched windows = .ok added ∧
          Stitched tokenCount labelCount preserveLogits (done ++ windows) added := by
  induction windows with
  | nil =>
    intro done stitched old _
    right
    exact ⟨stitched, rfl, by rw [append_nil]; exact old⟩
  | cons window windows ih =>
    intro done stitched old shapes
    have shaped := shapes window mem_cons_self
    rw [addWindows]
    cases entered : stitched.addWindow window.1.1 window.2 with
    | error error =>
      left
      rw [shaped.added labelled counted old.sized] at entered
      obtain ⟨named, row, member, unusable⟩ := addRows_error entered
      rw [old.sized.logits] at unusable
      rw [named]
      exact ⟨rfl, window, mem_cons_self, row, member, unusable⟩
    | ok next =>
      have step := old.add shaped labelled counted entered
      rcases ih step fun other member => shapes other (mem_cons_of_mem _ member) with failed | finished
      · obtain ⟨named, other, member, unusable⟩ := failed
        exact .inl ⟨named, other, mem_cons_of_mem _ member, unusable⟩
      · obtain ⟨added, run, stitchedAll⟩ := finished
        rw [List.append_assoc] at stitchedAll
        exact .inr ⟨added, run, stitchedAll⟩

/-- How far a token of a window is from the nearest edge that was cut. -/
noncomputable def edgeDistance (tokenCount : Nat) (range : Range) (token : Nat) : ℕ∞ :=
  min (if range.1 = 0 then ⊤ else ((token - range.1 : Nat) : ℕ∞))
    (if range.2 = tokenCount then ⊤ else ((range.2 - 1 - token : Nat) : ℕ∞))

/-- A counted distance, where the largest count stands for no cut edge. -/
def distanceOf (count : Nat) : ℕ∞ := if count = usizeMax then ⊤ else count

theorem distanceOf_le {first second : Nat} (firstBound : first ≤ usizeMax) (secondBound : second ≤ usizeMax) :
    distanceOf first ≤ distanceOf second ↔ first ≤ second := by
  unfold distanceOf
  by_cases secondTop : second = usizeMax
  · rw [if_pos secondTop]
    simp only [le_top, true_iff]
    omega
  · rw [if_neg secondTop]
    by_cases firstTop : first = usizeMax
    · rw [if_pos firstTop, top_le_iff]
      constructor
      · intro contra
        exact absurd contra (ENat.natCast_ne_top _)
      · intro below
        omega
    · rw [if_neg firstTop, Nat.cast_le]

theorem distanceOf_min {first second : Nat} (firstBound : first ≤ usizeMax) (secondBound : second ≤ usizeMax) :
    distanceOf (min first second) = min (distanceOf first) (distanceOf second) := by
  rcases Nat.le_total first second with least | least
  · rw [Nat.min_eq_left least, min_eq_left ((distanceOf_le firstBound secondBound).mpr least)]
  · rw [Nat.min_eq_right least, min_eq_right ((distanceOf_le secondBound firstBound).mpr least)]

theorem windowContext_le (tokenCount : Nat) {range : Range} (inside : range.2 ≤ tokenCount)
    (counted : tokenCount ≤ usizeMax) (covered : Covers range token) :
    windowContext tokenCount range token ≤ usizeMax := by
  obtain ⟨after, before⟩ := covered
  unfold windowContext StitchedWindowScores.contextAt
  dsimp only
  refine Nat.le_trans (Nat.min_le_left _ _) ?_
  split <;> omega

theorem edgeDistance_eq (tokenCount : Nat) {range : Range} (inside : range.2 ≤ tokenCount)
    (counted : tokenCount ≤ usizeMax) (covered : Covers range token) :
    edgeDistance tokenCount range token = distanceOf (windowContext tokenCount range token) := by
  obtain ⟨after, before⟩ := covered
  have topLeft : distanceOf usizeMax = ⊤ := if_pos rfl
  have fromStart : distanceOf (token - range.1) = ((token - range.1 : Nat) : ℕ∞) := if_neg (by omega)
  have toEnd : distanceOf (range.2 - 1 - token) = ((range.2 - 1 - token : Nat) : ℕ∞) := if_neg (by omega)
  have sameEnd : (range.1 + (range.2 - range.1) = tokenCount) = (range.2 = tokenCount) := by
    rw [Nat.add_sub_cancel' (by omega)]
  have sameRest : range.2 - range.1 - 1 - (token - range.1) = range.2 - 1 - token := by omega
  unfold edgeDistance windowContext StitchedWindowScores.contextAt
  dsimp only
  rw [distanceOf_min (by split <;> omega) (by split <;> omega), apply_ite distanceOf, apply_ite distanceOf, topLeft,
    fromStart, sameRest, toEnd]
  simp only [sameEnd]

/-! ### The scores of a text -/

/-- A row of scores from the earliest window where the token is farthest from a cut edge. -/
def Farthest (tokenCount labelCount : Nat) (preserveLogits : Bool) (windows : List Window) (token : Nat)
    (row : List Float32) : Prop :=
  ∃ before window after scores, windows = before ++ window :: after ∧ Covers window.1 token ∧
    normalized preserveLogits (rowAt labelCount window token) = some scores ∧
    row = scores.map Float.toFloat32 ∧
    (∀ earlier ∈ before, Covers earlier.1 token →
      edgeDistance tokenCount earlier.1 token < edgeDistance tokenCount window.1 token) ∧
    ∀ later ∈ after, Covers later.1 token →
      edgeDistance tokenCount later.1 token ≤ edgeDistance tokenCount window.1 token

theorem KeptFrom.farthest {entry : Nat × List Float}
    (kept : KeptFrom tokenCount labelCount preserveLogits windows token entry)
    (shapes : ∀ window ∈ windows, Shaped tokenCount labelCount window) (counted : tokenCount ≤ usizeMax) :
    Farthest tokenCount labelCount preserveLogits windows token (entry.2.map Float.toFloat32) := by
  obtain ⟨before, window, after, rfl, covered, normal, context, earlier, later⟩ := kept
  have farther : ∀ other ∈ before ++ window :: after, Covers other.1 token →
      (edgeDistance tokenCount other.1 token ≤ edgeDistance tokenCount window.1 token ↔
        windowContext tokenCount other.1 token ≤ entry.1) ∧
      (edgeDistance tokenCount window.1 token ≤ edgeDistance tokenCount other.1 token ↔
        entry.1 ≤ windowContext tokenCount other.1 token) := by
    intro other member coveredOther
    have insideOther := (shapes other member).inside
    have inside := (shapes window (mem_append_right _ mem_cons_self)).inside
    have boundOther := windowContext_le tokenCount insideOther counted coveredOther
    have bound := windowContext_le tokenCount inside counted covered
    rw [edgeDistance_eq tokenCount insideOther counted coveredOther, edgeDistance_eq tokenCount inside counted covered,
      context]
    exact ⟨distanceOf_le boundOther bound, distanceOf_le bound boundOther⟩
  refine ⟨before, window, after, entry.2, rfl, covered, normal, rfl, ?_, ?_⟩
  · intro other member coveredOther
    have nearer := earlier other member coveredOther
    have noFarther := (farther other (mem_append_left _ member) coveredOther).2
    rw [lt_iff_not_ge]
    intro contra
    have reached := noFarther.mp contra
    omega
  · intro other member coveredOther
    have listed : other ∈ before ++ window :: after := mem_append_right _ (mem_cons_of_mem _ member)
    exact (farther other listed coveredOther).1.mpr (later other member coveredOther)

theorem flatten_row {width : Nat} {rows : List (List Float)} (widths : ∀ row ∈ rows, row.length = width) :
    ∀ {place : Nat} {row : List Float}, rows[place]? = some row →
      (rows.flatten.drop (place * width)).take width = row := by
  induction rows with
  | nil => intro place row found; simp at found
  | cons first rows ih =>
    intro place row found
    have firstWidth := widths first mem_cons_self
    cases place with
    | zero =>
      rw [getElem?_cons_zero] at found
      rw [← Option.some.inj found, Nat.zero_mul, drop_zero, flatten_cons, take_left' firstWidth]
    | succ place =>
      rw [getElem?_cons_succ] at found
      have past : (place + 1) * width = first.length + place * width := by rw [firstWidth, Nat.add_mul]; omega
      rw [past, flatten_cons, drop_append, drop_eq_nil_of_le (by omega), nil_append,
        Nat.add_sub_cancel_left]
      exact ih (fun other member => widths other (mem_cons_of_mem _ member)) found

theorem flatten_length {width : Nat} {rows : List (List Float)} (widths : ∀ row ∈ rows, row.length = width) :
    rows.flatten.length = rows.length * width := by
  induction rows with
  | nil => simp
  | cons first rows ih =>
    rw [flatten_cons, length_append, widths first mem_cons_self,
      ih fun other member => widths other (mem_cons_of_mem _ member), length_cons, Nat.add_mul]
    omega

theorem Stitched.finished (all : Stitched tokenCount labelCount preserveLogits windows stitched)
    (shapes : ∀ window ∈ windows, Shaped tokenCount labelCount window) (counted : tokenCount ≤ usizeMax)
    (covering : ∀ token < tokenCount, ∃ window ∈ windows, Covers window.1 token) :
    ∃ scores, stitched.finish = .ok scores ∧ scores.length = tokenCount * labelCount ∧
      ∀ token < tokenCount,
        Farthest tokenCount labelCount preserveLogits windows token
          ((scores.drop (token * labelCount)).take labelCount) := by
  have present : ∀ token < tokenCount, ∃ entry, stitched.entry token = some entry := by
    intro token inside
    cases found : stitched.entry token with
    | some entry => exact ⟨entry, rfl⟩
    | none =>
      obtain ⟨window, member, covered⟩ := covering token inside
      exact absurd covered (all.missing token found window member)
  have complete : ¬ stitched.context.contains none = true := by
    intro contra
    obtain ⟨token, inside, absent⟩ := mem_iff_getElem.mp (contains_iff_mem.mp contra)
    have within : token < tokenCount := by rw [← all.sized.context]; exact inside
    obtain ⟨entry, found⟩ := present token within
    have context := all.sized.entry_context within
    rw [getElem?_eq_getElem inside, absent, found] at context
    cases context
  refine ⟨stitched.scores.flatten.map Float.toFloat32, ?_, ?_, ?_⟩
  · unfold StitchedWindowScores.finish
    rw [if_neg complete]
  · rw [length_map, flatten_length all.sized.rows, all.sized.scores]
  · intro token inside
    obtain ⟨entry, found⟩ := present token inside
    have row : stitched.scores[token]? = some entry.2 := by
      unfold StitchedWindowScores.entry at found
      obtain ⟨context, _, scored⟩ := Option.bind_eq_some_iff.mp found
      obtain ⟨scores, placed, rfl⟩ := Option.map_eq_some_iff.mp scored
      exact placed
    rw [← map_drop, ← map_take, flatten_row all.sized.rows row]
    exact (all.kept token entry found).farthest shapes counted

/-- Windows of a text, each read into a row of logits for each of its tokens: the loop that cuts them ends, and either
some row has no usable scores or each token has the row of the window where it is farthest from a cut edge. -/
theorem windows_stitched {tokenCount windowTokens overlapTokens labelCount : Nat} (preserveLogits : Bool)
    (smaller : overlapTokens < windowTokens) (counted : tokenCount + windowTokens ≤ usizeMax)
    (labelled : 0 < labelCount) :
    ∃ ranges,
      (∀ fuel, tokenCount < fuel → chunkRangesWith tokenCount windowTokens overlapTokens fuel = some ranges) ∧
      Chunks tokenCount windowTokens overlapTokens 0 ranges ∧
      ∀ logits : List (List Float32),
        List.Forall₂ (fun range values => values.length = (range.2 - range.1) * labelCount) ranges logits →
        (detectScores tokenCount labelCount preserveLogits (ranges.zip logits) = .error "invalid_logits" ∧
          ∃ window ∈ ranges.zip logits, Unusable labelCount preserveLogits window) ∨
        ∃ scores, detectScores tokenCount labelCount preserveLogits (ranges.zip logits) = .ok scores ∧
          scores.length = tokenCount * labelCount ∧
          ∀ token < tokenCount,
            Farthest tokenCount labelCount preserveLogits (ranges.zip logits) token
              ((scores.drop (token * labelCount)).take labelCount) := by
  obtain ⟨ranges, ends, chunks⟩ := chunkRangesWith_ends tokenCount smaller
  refine ⟨ranges, ends, chunks, ?_⟩
  intro logits shaped
  have bounded : tokenCount ≤ usizeMax := by omega
  have sameLength : ranges.length = logits.length := shaped.length_eq
  have shapes : ∀ window ∈ ranges.zip logits, Shaped tokenCount labelCount window := by
    intro window member
    obtain ⟨_, nonempty, inside⟩ := chunks.inside window.1 (of_mem_zip member).1
    exact ⟨nonempty, inside, (forall₂_iff_zip.mp shaped).2 member⟩
  have covering : ∀ token < tokenCount, ∃ window ∈ ranges.zip logits, Covers window.1 token := by
    intro token inside
    obtain ⟨range, member, covered⟩ := chunks.covering token (Nat.zero_le _) inside
    have firsts : (ranges.zip logits).map Prod.fst = ranges := map_fst_zip (by omega)
    rw [← firsts] at member
    obtain ⟨window, listed, rfl⟩ := mem_map.mp member
    exact ⟨window, listed, covered⟩
  unfold detectScores
  rcases addWindows_correct labelled bounded (Stitched.new tokenCount labelCount preserveLogits) shapes with
    ⟨failed, unusable⟩ | ⟨added, run, all⟩
  · left
    rw [failed]
    exact ⟨rfl, unusable⟩
  · right
    rw [run]
    exact all.finished shapes bounded covering

theorem windows_stitched_six :
    ∃ ranges,
      (∀ fuel, 6 < fuel → chunkRangesWith 6 4 2 fuel = some ranges) ∧ Chunks 6 4 2 0 ranges ∧
      ∀ logits : List (List Float32),
        List.Forall₂ (fun range values => values.length = (range.2 - range.1) * 3) ranges logits →
        (detectScores 6 3 false (ranges.zip logits) = .error "invalid_logits" ∧
          ∃ window ∈ ranges.zip logits, Unusable 3 false window) ∨
        ∃ scores, detectScores 6 3 false (ranges.zip logits) = .ok scores ∧ scores.length = 6 * 3 ∧
          ∀ token < 6, Farthest 6 3 false (ranges.zip logits) token ((scores.drop (token * 3)).take 3) :=
  windows_stitched false (by decide) (by decide) (by decide)

end AstrLink.WindowStitching
