import AstrLink.Amounts
import AstrLink.PriceExpressions

/-!
The tokens of a call as the variables of its price expression (`bind`). The named variables partition the
reported tokens unless cache writes are split by lifetime, no variable takes the rest, and there is one
(`partition_iff`).
-/
namespace AstrLink.TokenBuckets
open PriceExpressions

structure Usage where
  cacheWrite1hTokens : Option Int
  cacheWrite12hTokens : Option Int
  inputAudioTokens : Option Int
  outputAudioTokens : Option Int
  thinkingEnabled : Option Bool
  inputTokens : Int
  outputTokens : Int
  totalTokens : Int
  cacheReadTokens : Option Int
  cacheWriteTokens : Option Int

def count (reported : Option Int) : Int := reported.getD 0

def Usage.validate (usage : Usage) : Except String Unit :=
  if [usage.cacheWrite1hTokens, usage.cacheWrite12hTokens, usage.inputAudioTokens, usage.outputAudioTokens].any
      (fun reported => count reported < 0) then
    .error "billing token counts must be non-negative"
  else if usage.inputTokens < 0 ∨ usage.outputTokens < 0 ∨ usage.totalTokens < 0 then
    .error "usage token counts must be non-negative"
  else if count usage.cacheReadTokens < 0 then .error "cache_read_tokens must be non-negative"
  else if count usage.cacheWriteTokens < 0 then .error "cache_write_tokens must be non-negative"
  else .ok ()

def Usage.read (usage : Usage) : Int := min (count usage.cacheReadTokens) usage.inputTokens

def Usage.write (usage : Usage) : Int := min (count usage.cacheWriteTokens) (usage.inputTokens - usage.read)

/-- The values of the variables that an expression `names`. -/
def bind (names : String → Bool) (usage : Usage) : String → Option Int :=
  let oneHour := min (count usage.cacheWrite1hTokens) usage.write
  let twelveHour := min (count usage.cacheWrite12hTokens) (usage.write - oneHour)
  let input := usage.inputTokens
  let input := if names "cr" then input - usage.read else input
  let input := if names "cc" || names "cc1h" || names "cc12h" then input - usage.write else input
  let audioIn := min (count usage.inputAudioTokens) input
  let audioOut := min (count usage.outputAudioTokens) usage.outputTokens
  let input := if names "ai" then input - audioIn else input
  let output := if names "ao" then usage.outputTokens - audioOut else usage.outputTokens
  let oneHour := if names "cc1h" then oneHour else 0
  let twelveHour := if names "cc12h" then twelveHour else 0
  fun name =>
    match name with
    | "p" => some input
    | "c" => some output
    | "cr" => some usage.read
    | "cc" => some (usage.write - oneHour - twelveHour)
    | "cc1h" => some oneHour
    | "cc12h" => some twelveHour
    | "ai" => some audioIn
    | "ao" => some audioOut
    | "len" => some usage.inputTokens
    | _ => none

def inputVariables : List String := ["p", "cr", "cc", "cc1h", "cc12h", "ai"]
def outputVariables : List String := ["c", "ao"]

/-- The tokens under those of some variables that are named. -/
def billed (names : String → Bool) (usage : Usage) (listed : List String) : Int :=
  listed.foldr (fun name rest => (if names name then (bind names usage name).getD 0 else 0) + rest) 0

/-- Every reported token is under one named variable. -/
structure Partitioned (names : String → Bool) (usage : Usage) : Prop where
  nonneg : ∀ name ∈ inputVariables ++ outputVariables, names name = true → 0 ≤ (bind names usage name).getD 0
  input : billed names usage inputVariables = usage.inputTokens
  output : billed names usage outputVariables = usage.outputTokens

/-- Cache writes have a variable of their own, or have none, or are named by lifetime. -/
def Covered (names : String → Bool) (usage : Usage) : Prop :=
  names "cc" = true ∨
  match names "cc1h", names "cc12h" with
  | false, false => True
  | true, false => usage.write ≤ count usage.cacheWrite1hTokens
  | false, true => usage.write = 0 ∨
      count usage.cacheWrite1hTokens = 0 ∧ usage.write ≤ count usage.cacheWrite12hTokens
  | true, true => usage.write ≤ count usage.cacheWrite1hTokens + count usage.cacheWrite12hTokens

structure Counted (usage : Usage) : Prop where
  oneHour : 0 ≤ count usage.cacheWrite1hTokens
  twelveHour : 0 ≤ count usage.cacheWrite12hTokens
  audioIn : 0 ≤ count usage.inputAudioTokens
  audioOut : 0 ≤ count usage.outputAudioTokens
  input : 0 ≤ usage.inputTokens
  output : 0 ≤ usage.outputTokens
  read : 0 ≤ count usage.cacheReadTokens
  write : 0 ≤ count usage.cacheWriteTokens

variable {usage : Usage}

theorem Usage.counted (valid : usage.validate = .ok ()) : Counted usage := by
  unfold Usage.validate at valid
  split at valid
  · cases valid
  · rename_i counts
    split at valid
    · cases valid
    · rename_i totals
      split at valid
      · cases valid
      · rename_i read
        split at valid
        · cases valid
        · rename_i write
          simp only [List.any_cons, List.any_nil, Bool.or_false, Bool.or_eq_true, decide_eq_true_eq, not_or, Int.not_lt]
            at counts totals read write
          exact ⟨counts.1, counts.2.1, counts.2.2.1, counts.2.2.2, totals.1, totals.2.1, read, write⟩

theorem cut_cases {part total : Int} (positive : 0 ≤ part) (room : 0 ≤ total) :
    0 ≤ min part total ∧ min part total ≤ total ∧ min part total ≤ part ∧
      (min part total = total ∨ min part total = part) := by
  omega

theorem billed_cons (names : String → Bool) (usage : Usage) (name : String) (rest : List String) :
    billed names usage (name :: rest) =
      (if names name then (bind names usage name).getD 0 else 0) + billed names usage rest := rfl

variable {names : String → Bool}

theorem billed_output (answer : names "c" = true) : billed names usage outputVariables = usage.outputTokens := by
  rw [outputVariables, billed_cons, billed_cons, if_pos answer]
  cases spoken : names "ao" with
  | true => simp [bind, billed, spoken]
  | false => simp [bind, billed, spoken]

/-- The cache writes under a variable of their own. -/
def named (names : String → Bool) (usage : Usage) : Int :=
  let oneHour := if names "cc1h" then min (count usage.cacheWrite1hTokens) usage.write else 0
  let twelveHour := if names "cc12h" then
    min (count usage.cacheWrite12hTokens) (usage.write - min (count usage.cacheWrite1hTokens) usage.write) else 0
  if names "cc" then usage.write else oneHour + twelveHour

theorem billed_input {names : String → Bool} {usage : Usage} (text : names "p" = true) :
    billed names usage inputVariables =
      usage.inputTokens - (if names "cc" || names "cc1h" || names "cc12h" then usage.write - named names usage else 0) := by
  simp only [inputVariables, billed_cons, if_pos text, bind, Option.getD_some, named]
  rw [show billed names usage [] = 0 from rfl]
  generalize min (count usage.cacheWrite1hTokens) usage.write = oneHour
  generalize min (count usage.cacheWrite12hTokens) (usage.write - oneHour) = twelveHour
  generalize usage.write = write, usage.read = read, names "cr" = cr
  generalize names "cc" = cc, names "cc1h" = cc1h, names "cc12h" = cc12h, names "ai" = ai
  -- what the audio variable takes is what the text variable gave
  cases ai <;> cases cr <;> cases cc <;> cases cc1h <;> cases cc12h <;> simp <;> omega

theorem Counted.read_within (counted : Counted usage) : 0 ≤ usage.read ∧ usage.read ≤ usage.inputTokens :=
  have cut := cut_cases counted.read counted.input
  ⟨cut.1, cut.2.1⟩

theorem Counted.write_within (counted : Counted usage) :
    0 ≤ usage.write ∧ usage.write ≤ usage.inputTokens - usage.read :=
  have cut := cut_cases counted.write (Int.sub_nonneg_of_le counted.read_within.2)
  ⟨cut.1, cut.2.1⟩

theorem covered_iff (counted : Counted usage) :
    (if names "cc" || names "cc1h" || names "cc12h" then usage.write - named names usage else 0) = 0 ↔
      Covered names usage := by
  have write := counted.write_within.1
  have hour := cut_cases counted.oneHour write
  have half := cut_cases counted.twelveHour (Int.sub_nonneg_of_le hour.2.1)
  have oneHour := counted.oneHour
  have twelveHour := counted.twelveHour
  unfold named Covered
  generalize min (count usage.cacheWrite1hTokens) usage.write = first at hour half ⊢
  generalize min (count usage.cacheWrite12hTokens) (usage.write - first) = second at half ⊢
  cases names "cc" with
  | true => simp
  | false =>
    cases names "cc1h" <;> cases names "cc12h" <;> simp <;> omega

theorem bind_nonneg (counted : Counted usage) :
    ∀ name ∈ inputVariables ++ outputVariables, 0 ≤ (bind names usage name).getD 0 := by
  have read := counted.read_within
  have write := counted.write_within
  have hour := cut_cases counted.oneHour write.1
  have half := cut_cases counted.twelveHour (Int.sub_nonneg_of_le hour.2.1)
  have spoken := cut_cases counted.audioOut counted.output
  have output := counted.output
  have left : 0 ≤ (if names "cc" || names "cc1h" || names "cc12h" then
      (if names "cr" then usage.inputTokens - usage.read else usage.inputTokens) - usage.write
      else if names "cr" then usage.inputTokens - usage.read else usage.inputTokens) := by
    have input := counted.input
    split <;> split <;> omega
  have heard := cut_cases counted.audioIn left
  intro name listed
  simp only [inputVariables, outputVariables, List.cons_append, List.nil_append, List.mem_cons, List.not_mem_nil,
    or_false] at listed
  rcases listed with rfl | rfl | rfl | rfl | rfl | rfl | rfl | rfl
  all_goals simp only [bind, Option.getD_some]
  · split <;> omega
  · exact read.1
  · split <;> split <;> omega
  · split <;> omega
  · split <;> omega
  · exact heard.1
  · split <;> omega
  · exact spoken.1

theorem partition_iff (text : names "p" = true) (answer : names "c" = true) (valid : usage.validate = .ok ()) :
    Partitioned names usage ↔ Covered names usage := by
  have counted := Usage.counted valid
  have input := @billed_input names usage text
  constructor
  · intro parted
    rw [parted.input] at input
    exact (covered_iff counted).mp (by omega)
  · intro covered
    rw [(covered_iff counted).mpr covered, Int.sub_zero] at input
    exact ⟨fun name listed _ => bind_nonneg counted name listed, input, billed_output answer⟩

theorem parseExpression_names {parse : String → Option Node} {source : String} {expression : Expression}
    (parsed : parseExpression parse source = .ok expression) (name : String) :
    expression.names name = true ↔ name ∈ expression.root.variables := by
  unfold parseExpression at parsed
  split at parsed
  · cases parsed
  · split at parsed
    · cases parsed
    · split at parsed
      · cases parsed
      · rename_i checked found
        cases parsed
        rw [Expression.names, List.contains_iff_mem, check_vars _ found]
        simp

theorem token_buckets {parse : String → Option Node} {source : String} {expression : Expression} {usage : Usage}
    (parsed : parseExpression parse source = .ok expression)
    (text : "p" ∈ expression.root.variables) (answer : "c" ∈ expression.root.variables)
    (valid : usage.validate = .ok ()) :
    Partitioned expression.names usage ↔ Covered expression.names usage :=
  partition_iff ((parseExpression_names parsed "p").mpr text) ((parseExpression_names parsed "c").mpr answer) valid

/-- `p + c + cc1h` -/
def hourly : Node :=
  .binary "+" (.binary "+" (.identifier "p") (.identifier "c")) (.identifier "cc1h")

def hourlyExpression : Expression := ⟨"p + c + cc1h".toList, hourly, ["cc1h", "c", "p"]⟩

def writesFor (oneHour : Int) : Usage where
  cacheWrite1hTokens := some oneHour
  cacheWrite12hTokens := none
  inputAudioTokens := none
  outputAudioTokens := none
  thinkingEnabled := none
  inputTokens := 100
  outputTokens := 10
  totalTokens := 110
  cacheReadTokens := none
  cacheWriteTokens := some 50

theorem token_buckets_hourly : Partitioned hourlyExpression.names (writesFor 50) :=
  (@token_buckets (fun _ => some hourly) "p + c + cc1h" hourlyExpression (writesFor 50) rfl (by decide) (by decide)
    rfl).mpr (.inr (Int.le_refl 50))

/-- Thirty tokens drop out of the bill. -/
theorem writes_dropped : ¬ ∀ (parse : String → Option Node) (source : String) (expression : Expression) (usage : Usage),
    parseExpression parse source = .ok expression → "p" ∈ expression.root.variables → "c" ∈ expression.root.variables →
    usage.validate = .ok () → Partitioned expression.names usage := by
  intro parted
  have sum := (parted (fun _ => some hourly) "p + c + cc1h" hourlyExpression (writesFor 20) rfl (by decide) (by decide)
    rfl).input
  revert sum
  decide

end AstrLink.TokenBuckets
