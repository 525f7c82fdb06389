import AstrLink.JsonSyntax
import AstrLink.SortedSearch
import AstrLink.SpanSelection

/-!
A tool payload that is itself JSON is one segment, so a finding can start or end
anywhere in it. The payload is scanned for its strings and numbers without
parsing, and a finding is cut to the literals it covers.
-/
namespace AstrLink.StructuredJson
open JsonSyntax SortedSearch StandIns List
open Suppressing (Finding)
open SpanSelection (ascending descending undecided kindName)

/-- The range of a string leaves out the quotes and counts escapes as they are written. -/
structure Literal where
  start : Nat
  finish : Nat
  number : Bool
  key : Bool
deriving DecidableEq

structure StructuredJSONLiterals where
  literals : List Literal
  /-- Where every escape sequence of a string begins and ends. -/
  escapes : List (Nat × Nat)

instance : Append StructuredJSONLiterals where
  append first second := ⟨first.literals ++ second.literals, first.escapes ++ second.escapes⟩

def StructuredJSONLiterals.none : StructuredJSONLiterals := ⟨[], []⟩

/-- The escapes of a string from a position on, and where its content ends. -/
def contentFrom (position : Nat) : Bytes → List (Nat × Nat) × Nat
  | [] => ([], position)
  | byte :: rest =>
    if byte = quote then ([], position)
    else if byte ≠ backslash then contentFrom (position + 1) rest
    else
      let length := if rest.head? = some unicodeLetter then 6 else 2
      let stop := min (position + length) (position + 1 + rest.length)
      let (escapes, finish) := contentFrom stop (rest.drop (stop - (position + 1)))
      ((position, stop) :: escapes, finish)
termination_by rest => rest.length
decreasing_by
  · exact Nat.lt_succ_self _
  · rw [length_drop, length_cons]
    omega

def scanFrom (position : Nat) : Bytes → StructuredJSONLiterals
  | [] => .none
  | byte :: rest =>
    if byte = quote then
      let (escapes, finish) := contentFrom (position + 1) rest
      let after := rest.drop (finish - position)
      let key := decide ((after.dropWhile isSpace).head? = some colon)
      ⟨[⟨position + 1, finish, false, key⟩], escapes⟩ ++ scanFrom (finish + 1) after
    else if byte = 0x2D ∨ isDigit byte = true then
      let finish := position + ((byte :: rest).takeWhile isNumberByte).length
      ⟨[⟨position, finish, true, false⟩], []⟩ ++ scanFrom finish (rest.dropWhile isNumberByte)
    else scanFrom (position + 1) rest
termination_by rest => rest.length
decreasing_by
  · rw [length_drop, length_cons]
    omega
  · have shorter := (dropWhile_sublist (l := rest) isNumberByte).length_le
    rw [length_cons]
    omega
  · exact Nat.lt_succ_self _

def scanStructuredJSONLiterals (value : Bytes) : StructuredJSONLiterals := scanFrom 0 value

/-! ### Aligning

Literals and escapes are in order, so what a binary search finds is the first that meets its condition. -/

section
variable (scanned : StructuredJSONLiterals)

def StructuredJSONLiterals.escapeContaining (position : Nat) : Option (Nat × Nat) :=
  match scanned.escapes.find? (fun escape => position < escape.2) with
  | some escape => if escape.1 < position then some escape else Option.none
  | Option.none => Option.none

def StructuredJSONLiterals.escapeStart (position : Nat) : Nat := ((scanned.escapeContaining position).map (·.1)).getD position

def StructuredJSONLiterals.escapeEnd (position : Nat) : Nat := ((scanned.escapeContaining position).map (·.2)).getD position

/-- The part of a literal that a span covers. -/
def StructuredJSONLiterals.piece (start finish : Nat) (literal : Literal) : Literal :=
  if literal.number then literal
  else
    { literal with
      start := scanned.escapeStart (max start literal.start)
      finish := scanned.escapeEnd (min finish literal.finish) }

/-- The parts of the literals that a span covers. -/
def StructuredJSONLiterals.pieces (start finish : Nat) : List Literal :=
  let covered := (scanned.literals.dropWhile fun literal => literal.finish ≤ start).takeWhile fun literal => literal.start < finish
  (covered.map (scanned.piece start finish)).filter fun piece => piece.start < piece.finish

/-- Keys are left out beside a value. -/
def StructuredJSONLiterals.kept (start finish : Nat) : List Literal :=
  let pieces := scanned.pieces start finish
  let hasValue := pieces.any (!·.key)
  pieces.filter fun piece => !(piece.key && hasValue)

def StructuredJSONLiterals.align {Score : Type} (finding : Finding Score) : List (Finding Score) :=
  (scanned.kept finding.start finding.finish).map fun piece =>
    { finding with start := piece.start, finish := piece.finish }

/-- Whether a range is exactly one number. -/
def StructuredJSONLiterals.isNumber (start finish : Nat) : Bool :=
  match scanned.literals.find? (fun literal => start ≤ literal.start) with
  | some literal => literal.number && literal.start == start && literal.finish == finish
  | Option.none => false

end

def pieceEscape (position : Nat) : Piece → List (Nat × Nat)
  | .plain _ _ => []
  | .escape _ _ => [(position, position + 2)]
  | .unicode _ _ _ _ _ => [(position, position + 6)]

def contentEscapes (position : Nat) : List Piece → List (Nat × Nat)
  | [] => []
  | piece :: rest => pieceEscape position piece ++ contentEscapes (position + piece.text.length) rest

/-- A string whose text begins at a position. -/
def stringLiteral (position : Nat) (content : List Piece) (key : Bool) : StructuredJSONLiterals :=
  ⟨[⟨position + 1, position + 1 + (contentText content).length, false, key⟩], contentEscapes (position + 1) content⟩

/-- Where the value of a member begins. -/
def valueStart (position : Nat) (before : Blank) (key : List Piece) (afterKey beforeValue : Blank) : Nat :=
  position + (keyText before key afterKey beforeValue).length

mutual

def valueLiterals (position : Nat) : Value → StructuredJSONLiterals
  | .word _ => .none
  | .number number => ⟨[⟨position, position + number.text.length, true, false⟩], []⟩
  | .string content => stringLiteral position content false
  | .emptyArray _ => .none
  | .array elements => elementLiterals (position + 1) elements
  | .emptyObject _ => .none
  | .object members => memberLiterals (position + 1) members

def elementLiterals (position : Nat) : Elements → StructuredJSONLiterals
  | .last before value _ => valueLiterals (position + before.text.length) value
  | .cons before value after rest =>
    valueLiterals (position + before.text.length) value ++
      elementLiterals (position + (before.text ++ value.text ++ after.text).length + 1) rest

def memberLiterals (position : Nat) : Members → StructuredJSONLiterals
  | .last before key afterKey beforeValue value _ =>
    stringLiteral (position + before.text.length) key true ++
      valueLiterals (valueStart position before key afterKey beforeValue) value
  | .cons before key afterKey beforeValue value after rest =>
    stringLiteral (position + before.text.length) key true ++
      (valueLiterals (valueStart position before key afterKey beforeValue) value ++
        memberLiterals (valueStart position before key afterKey beforeValue + (value.text ++ after.text).length + 1) rest)

end

def documentLiterals (document : Document) : StructuredJSONLiterals :=
  valueLiterals document.before.text.length document.value

/-! ### The scan finds what the tree holds -/

theorem append_assoc (first second third : StructuredJSONLiterals) :
    first ++ second ++ third = first ++ (second ++ third) := by
  show StructuredJSONLiterals.mk _ _ = StructuredJSONLiterals.mk _ _
  rw [StructuredJSONLiterals.mk.injEq]
  exact ⟨List.append_assoc _ _ _, List.append_assoc _ _ _⟩

theorem scanFrom_quiet {front : Bytes} (quiet : ∀ byte ∈ front, isQuiet byte = true) (position : Nat) (rest : Bytes) :
    scanFrom position (front ++ rest) = scanFrom (position + front.length) rest := by
  induction front generalizing position with
  | nil => rfl
  | cons byte front ih =>
    obtain ⟨first, others⟩ := forall_mem_cons.mp quiet
    simp only [isQuiet, Bool.and_eq_true, bne_iff_ne, ne_eq, Bool.not_eq_true'] at first
    obtain ⟨⟨no_quote, no_sign⟩, no_digit⟩ := first
    have plain : ¬ (byte = 0x2D ∨ isDigit byte = true) := by
      rintro (sign | digit)
      · exact no_sign sign
      · rw [no_digit] at digit
        cases digit
    rw [cons_append, scanFrom, if_neg no_quote, if_neg plain, ih others, length_cons]
    congr 1
    omega

theorem scanFrom_byte {byte : UInt8} (quiet : isQuiet byte = true) (position : Nat) (rest : Bytes) :
    scanFrom position (byte :: rest) = scanFrom (position + 1) rest :=
  scanFrom_quiet (forall_mem_singleton.mpr quiet) position rest

theorem takeWhile_run {front rest : Bytes} (run : ∀ byte ∈ front, isNumberByte byte = true)
    (stops : ∀ byte, rest.head? = some byte → isNumberByte byte = false) :
    (front ++ rest).takeWhile isNumberByte = front ∧ (front ++ rest).dropWhile isNumberByte = rest := by
  rw [takeWhile_append_of_pos run, dropWhile_append_of_pos run]
  cases rest with
  | nil => exact ⟨append_nil front, rfl⟩
  | cons byte rest =>
    rw [takeWhile_cons, dropWhile_cons, stops byte rfl]
    exact ⟨append_nil front, rfl⟩

theorem scanFrom_number (number : Number) {rest : Bytes} (follows : Follows rest) (position : Nat) :
    scanFrom position (number.text ++ rest) =
      ⟨[⟨position, position + number.text.length, true, false⟩], []⟩ ++ scanFrom (position + number.text.length) rest := by
  obtain ⟨front, whole⟩ := takeWhile_run number.bytes follows.no_number
  obtain ⟨first, others, text, starts⟩ := number.first
  have numeric : isNumberByte first = true := number.bytes first (by rw [text]; exact mem_cons_self)
  have no_quote : first ≠ quote := by
    rintro rfl
    rcases starts with sign | digit
    · exact absurd sign (by decide)
    · exact absurd digit (by decide)
  rw [text, cons_append] at front whole ⊢
  have later : (others ++ rest).dropWhile isNumberByte = rest := by
    rwa [dropWhile_cons, if_pos numeric] at whole
  rw [scanFrom, if_neg no_quote, if_pos starts]
  dsimp only
  rw [front, later]

variable (content : List Piece)

theorem contentFrom_text (position : Nat) (rest : Bytes) :
    contentFrom position (contentText content ++ quote :: rest) =
      (contentEscapes position content, position + (contentText content).length) := by
  induction content generalizing position with
  | nil =>
    rw [contentText, flatMap_nil, nil_append, contentFrom, if_pos rfl]
    rfl
  | cons piece content ih =>
    have split : contentText (piece :: content) = piece.text ++ contentText content := flatMap_cons
    rw [split, List.append_assoc, length_append]
    cases piece with
    | plain byte plain =>
      simp only [Bool.and_eq_true, bne_iff_ne, ne_eq] at plain
      obtain ⟨⟨_, no_quote⟩, no_backslash⟩ := plain
      have step := ih (position + 1)
      rw [Piece.text, singleton_append, contentFrom, if_neg no_quote, if_pos no_backslash, step]
      simp only [contentEscapes, pieceEscape, Piece.text, length_singleton, nil_append, Nat.add_assoc]
    | escape letter known =>
      have no_unicode := Piece.escape_letter known
      have step := ih (position + 2)
      have stop : min (position + 2) (position + 1 + (letter :: (contentText content ++ quote :: rest)).length) = position + 2 := by
        rw [length_cons]
        omega
      show contentFrom position (backslash :: letter :: (contentText content ++ quote :: rest)) =
        ((position, position + 2) :: contentEscapes (position + 2) content, position + (2 + (contentText content).length))
      rw [contentFrom, if_neg (by decide), if_neg (by decide)]
      dsimp only
      rw [head?_cons, if_neg (fun same => no_unicode (Option.some.inj same)), stop, Nat.add_sub_add_left,
        drop_succ_cons, drop_zero, step, Nat.add_assoc]
    | unicode first second third fourth hex =>
      have step := ih (position + 6)
      have stop : min (position + 6) (position + 1 +
          (unicodeLetter :: first :: second :: third :: fourth :: (contentText content ++ quote :: rest)).length) =
            position + 6 := by
        simp only [length_cons]
        omega
      show contentFrom position
          (backslash :: unicodeLetter :: first :: second :: third :: fourth :: (contentText content ++ quote :: rest)) =
        ((position, position + 6) :: contentEscapes (position + 6) content, position + (6 + (contentText content).length))
      rw [contentFrom, if_neg (by decide), if_neg (by decide)]
      dsimp only
      rw [head?_cons, if_pos rfl, stop, Nat.add_sub_add_left, drop_succ_cons, drop_succ_cons,
        drop_succ_cons, drop_succ_cons, drop_succ_cons, drop_zero, step, Nat.add_assoc]

theorem scanFrom_string (position : Nat) (rest : Bytes) :
    scanFrom position (stringText content ++ rest) =
      stringLiteral position content (decide ((rest.dropWhile isSpace).head? = some colon)) ++
        scanFrom (position + (stringText content).length) rest := by
  have text : stringText content ++ rest = quote :: (contentText content ++ quote :: rest) := by simp [stringText]
  have finish : position + 1 + (contentText content).length - position = (contentText content).length + 1 := by omega
  have after : (contentText content ++ quote :: rest).drop ((contentText content).length + 1) = rest := by
    rw [drop_append, drop_eq_nil_of_le (Nat.le_succ _), Nat.add_sub_cancel_left]
    rfl
  have size : (stringText content).length = (contentText content).length + 2 := by
    rw [stringText, length_cons, length_append, length_singleton]
  have next : position + (stringText content).length = position + 1 + (contentText content).length + 1 := by omega
  rw [text, scanFrom, if_pos rfl, contentFrom_text]
  dsimp only
  rw [finish, after, next]
  rfl

theorem scanFrom_key (before : Blank) (key : List Piece) (afterKey beforeValue : Blank) (position : Nat) (rest : Bytes) :
    scanFrom position (keyText before key afterKey beforeValue ++ rest) =
      stringLiteral (position + before.text.length) key true ++
        scanFrom (valueStart position before key afterKey beforeValue) rest := by
  have text : keyText before key afterKey beforeValue ++ rest =
      before.text ++ (stringText key ++ (afterKey.text ++ colon :: (beforeValue.text ++ rest))) := by
    simp [keyText]
  have isKey : ((afterKey.text ++ colon :: (beforeValue.text ++ rest)).dropWhile isSpace).head? = some colon := by
    rw [dropWhile_blank]
    rfl
  have finish : position + before.text.length + (stringText key).length + afterKey.text.length + 1 + beforeValue.text.length =
      valueStart position before key afterKey beforeValue := by
    simp only [valueStart, keyText, length_append, length_cons]
    omega
  rw [text, scanFrom_quiet before.quiet, scanFrom_string, isKey, decide_eq_true rfl, scanFrom_quiet afterKey.quiet,
    scanFrom_byte (by decide), scanFrom_quiet beforeValue.quiet, finish]

mutual

theorem scan_value (value : Value) (position : Nat) {rest : Bytes} (follows : Follows rest) :
    scanFrom position (value.text ++ rest) =
      valueLiterals position value ++ scanFrom (position + value.text.length) rest := by
  cases value with
  | word word => exact scanFrom_quiet word.quiet position rest
  | number number => exact scanFrom_number number follows position
  | string content =>
    have no_key : decide ((rest.dropWhile isSpace).head? = some colon) = false := decide_eq_false follows.no_colon
    show scanFrom position (stringText content ++ rest) = _
    rw [scanFrom_string, no_key]
    rfl
  | emptyArray inside =>
    have quiet : ∀ byte ∈ (Value.emptyArray inside).text, isQuiet byte = true := by
      intro byte member
      rcases mem_cons.mp member with rfl | later
      · decide
      · rcases mem_append.mp later with within | last
        · exact inside.quiet byte within
        · rw [mem_singleton.mp last]
          decide
    exact scanFrom_quiet quiet position rest
  | array elements =>
    have text : (Value.array elements).text ++ rest = openArray :: (elements.text ++ closeArray :: rest) := by
      simp [Value.text]
    have finish : position + 1 + elements.text.length + 1 = position + (Value.array elements).text.length := by
      simp only [Value.text, length_cons, length_append, length_nil]
      omega
    rw [text, scanFrom_byte (by decide), scan_elements elements (position + 1) (.inl rfl), scanFrom_byte (by decide), finish]
    rfl
  | emptyObject inside =>
    have quiet : ∀ byte ∈ (Value.emptyObject inside).text, isQuiet byte = true := by
      intro byte member
      rcases mem_cons.mp member with rfl | later
      · decide
      · rcases mem_append.mp later with within | last
        · exact inside.quiet byte within
        · rw [mem_singleton.mp last]
          decide
    exact scanFrom_quiet quiet position rest
  | object members =>
    have text : (Value.object members).text ++ rest = openObject :: (members.text ++ closeObject :: rest) := by
      simp [Value.text]
    have finish : position + 1 + members.text.length + 1 = position + (Value.object members).text.length := by
      simp only [Value.text, length_cons, length_append, length_nil]
      omega
    rw [text, scanFrom_byte (by decide), scan_members members (position + 1) (.inr rfl), scanFrom_byte (by decide), finish]
    rfl

theorem scan_elements (elements : Elements) (position : Nat) {closing : UInt8}
    (closes : closing = closeArray ∨ closing = closeObject) {rest : Bytes} :
    scanFrom position (elements.text ++ closing :: rest) =
      elementLiterals position elements ++ scanFrom (position + elements.text.length) (closing :: rest) := by
  cases elements with
  | last before value after =>
    have text : (Elements.last before value after).text ++ closing :: rest =
        before.text ++ (value.text ++ (after.text ++ closing :: rest)) := by simp [Elements.text]
    have listed : closing ∈ [comma, closeArray, closeObject] := by rcases closes with rfl | rfl <;> decide
    have finish : position + before.text.length + value.text.length + after.text.length =
        position + (Elements.last before value after).text.length := by
      simp only [Elements.text, length_append]
      omega
    rw [text, scanFrom_quiet before.quiet, scan_value value _ (.closed after listed rest), scanFrom_quiet after.quiet, finish]
    rfl
  | cons before value after more =>
    have text : (Elements.cons before value after more).text ++ closing :: rest =
        before.text ++ (value.text ++ (after.text ++ comma :: (more.text ++ closing :: rest))) := by simp [Elements.text]
    have middle : position + before.text.length + value.text.length + after.text.length + 1 =
        position + (before.text ++ value.text ++ after.text).length + 1 := by
      simp only [length_append]
      omega
    have finish : position + (before.text ++ value.text ++ after.text).length + 1 + more.text.length =
        position + (Elements.cons before value after more).text.length := by
      simp only [Elements.text, length_append, length_cons]
      omega
    rw [text, scanFrom_quiet before.quiet, scan_value value _ (.closed after mem_cons_self _), scanFrom_quiet after.quiet,
      scanFrom_byte (by decide), middle, scan_elements more _ closes, finish, ← append_assoc]
    rfl

theorem scan_members (members : Members) (position : Nat) {closing : UInt8}
    (closes : closing = closeArray ∨ closing = closeObject) {rest : Bytes} :
    scanFrom position (members.text ++ closing :: rest) =
      memberLiterals position members ++ scanFrom (position + members.text.length) (closing :: rest) := by
  cases members with
  | last before key afterKey beforeValue value after =>
    have text : (Members.last before key afterKey beforeValue value after).text ++ closing :: rest =
        keyText before key afterKey beforeValue ++ (value.text ++ (after.text ++ closing :: rest)) := by simp [Members.text]
    have listed : closing ∈ [comma, closeArray, closeObject] := by rcases closes with rfl | rfl <;> decide
    have finish : valueStart position before key afterKey beforeValue + value.text.length + after.text.length =
        position + (Members.last before key afterKey beforeValue value after).text.length := by
      simp only [Members.text, valueStart, length_append]
      omega
    rw [text, scanFrom_key, scan_value value _ (.closed after listed rest), scanFrom_quiet after.quiet, finish, ← append_assoc]
    rfl
  | cons before key afterKey beforeValue value after more =>
    have text : (Members.cons before key afterKey beforeValue value after more).text ++ closing :: rest =
        keyText before key afterKey beforeValue ++
          (value.text ++ (after.text ++ comma :: (more.text ++ closing :: rest))) := by simp [Members.text]
    have middle : valueStart position before key afterKey beforeValue + value.text.length + after.text.length + 1 =
        valueStart position before key afterKey beforeValue + (value.text ++ after.text).length + 1 := by
      simp only [length_append]
      omega
    have finish : valueStart position before key afterKey beforeValue + (value.text ++ after.text).length + 1 +
        more.text.length = position + (Members.cons before key afterKey beforeValue value after more).text.length := by
      simp only [Members.text, valueStart, length_append, length_cons]
      omega
    rw [text, scanFrom_key, scan_value value _ (.closed after mem_cons_self _), scanFrom_quiet after.quiet,
      scanFrom_byte (by decide), middle, scan_members more _ closes, finish, memberLiterals, append_assoc, append_assoc]

end

theorem scan_document (document : Document) : scanStructuredJSONLiterals document.text = documentLiterals document := by
  rw [scanStructuredJSONLiterals, Document.text, List.append_assoc, scanFrom_quiet document.before.quiet, Nat.zero_add,
    scan_value document.value _ (.blank document.after), ← append_nil document.after.text,
    scanFrom_quiet document.after.quiet, scanFrom]
  show StructuredJSONLiterals.mk _ _ = StructuredJSONLiterals.mk _ _
  rw [StructuredJSONLiterals.mk.injEq]
  exact ⟨append_nil _, append_nil _⟩

/-! ### The order of literals and escapes -/

/-- Literals and escapes in order, and no escape across the end of a literal. -/
structure Arranged (low high : Nat) (scanned : StructuredJSONLiterals) : Prop where
  literals : scanned.literals.Pairwise fun first second => first.finish ≤ second.start
  sized : ∀ literal ∈ scanned.literals, low ≤ literal.start ∧ literal.start ≤ literal.finish ∧ literal.finish ≤ high
  number : ∀ literal ∈ scanned.literals, literal.number = true → literal.start < literal.finish
  escapes : scanned.escapes.Pairwise fun first second => first.2 ≤ second.1
  placed : ∀ escape ∈ scanned.escapes, low ≤ escape.1 ∧ escape.1 < escape.2 ∧ escape.2 ≤ high
  apart : ∀ escape ∈ scanned.escapes, ∀ literal ∈ scanned.literals,
    literal.start ≤ escape.1 ∧ escape.2 ≤ literal.finish ∨ escape.2 ≤ literal.start ∨ literal.finish ≤ escape.1

variable {high : Nat}

theorem Arranged.none {low : Nat} : Arranged low high .none :=
  ⟨.nil, fun _ member => (by cases member), fun _ member => (by cases member), .nil, fun _ member => (by cases member),
    fun _ member => (by cases member)⟩

theorem Arranged.widen {low low' high' : Nat} {scanned : StructuredJSONLiterals}
    (arranged : Arranged low high scanned) (lower : low' ≤ low) (upper : high ≤ high') :
    Arranged low' high' scanned := by
  refine { arranged with sized := fun literal member => ?_, placed := fun escape member => ?_ }
  · obtain ⟨above, order, below⟩ := arranged.sized literal member
    omega
  · obtain ⟨above, order, below⟩ := arranged.placed escape member
    omega

theorem Arranged.append {low middle : Nat} {first second : StructuredJSONLiterals} (left : Arranged low middle first)
    (right : Arranged middle high second) (lower : low ≤ middle) (upper : middle ≤ high) :
    Arranged low high (first ++ second) := by
  have literals : ∀ literal, literal ∈ (first ++ second).literals ↔ literal ∈ first.literals ∨ literal ∈ second.literals :=
    fun _ => mem_append
  have escapes : ∀ escape, escape ∈ (first ++ second).escapes ↔ escape ∈ first.escapes ∨ escape ∈ second.escapes :=
    fun _ => mem_append
  have left' := left.widen (Nat.le_refl low) upper
  have right' := right.widen lower (Nat.le_refl high)
  refine ⟨?literals, ?sized, ?number, ?escapes, ?placed, ?apart⟩
  case literals =>
    refine pairwise_append.mpr ⟨left.literals, right.literals, fun literal member other later => ?_⟩
    have before := left.sized literal member
    have after := right.sized other later
    omega
  case sized =>
    intro literal member
    rcases (literals literal).mp member with member | member
    · exact left'.sized literal member
    · exact right'.sized literal member
  case number =>
    intro literal member
    rcases (literals literal).mp member with member | member
    · exact left.number literal member
    · exact right.number literal member
  case escapes =>
    refine pairwise_append.mpr ⟨left.escapes, right.escapes, fun escape member other later => ?_⟩
    have before := left.placed escape member
    have after := right.placed other later
    omega
  case placed =>
    intro escape member
    rcases (escapes escape).mp member with member | member
    · exact left'.placed escape member
    · exact right'.placed escape member
  case apart =>
    intro escape member literal listed
    rcases (escapes escape).mp member with member | member <;> rcases (literals literal).mp listed with listed | listed
    · exact left.apart escape member literal listed
    · have before := left.placed escape member
      have after := right.sized literal listed
      omega
    · have before := left.sized literal listed
      have after := right.placed escape member
      omega
    · exact right.apart escape member literal listed

theorem Piece.text_pos (piece : Piece) : 0 < piece.text.length := by
  cases piece <;> exact Nat.succ_pos _

theorem contentEscapes_ordered (position : Nat) :
    (contentEscapes position content).Pairwise (fun first second => first.2 ≤ second.1) ∧
      ∀ escape ∈ contentEscapes position content,
        position ≤ escape.1 ∧ escape.1 < escape.2 ∧ escape.2 ≤ position + (contentText content).length := by
  induction content generalizing position with
  | nil => exact ⟨.nil, fun _ member => (by cases member)⟩
  | cons piece content ih =>
    obtain ⟨ordered, placed⟩ := ih (position + piece.text.length)
    have size : (contentText (piece :: content)).length = piece.text.length + (contentText content).length := by
      rw [contentText, flatMap_cons, length_append]
      rfl
    have own : (pieceEscape position piece).Pairwise (fun first second => first.2 ≤ second.1) ∧
        ∀ escape ∈ pieceEscape position piece, escape = (position, position + piece.text.length) := by
      cases piece with
      | plain byte plain => exact ⟨.nil, fun _ member => (by cases member)⟩
      | escape letter known => exact ⟨pairwise_singleton _ _, fun _ member => mem_singleton.mp member⟩
      | unicode first second third fourth hex =>
        exact ⟨pairwise_singleton _ _, fun _ member => mem_singleton.mp member⟩
    have positive := Piece.text_pos piece
    refine ⟨pairwise_append.mpr ⟨own.1, ordered, fun escape member other later => ?_⟩, fun escape member => ?_⟩
    · rw [own.2 escape member]
      exact (placed other later).1
    · rcases mem_append.mp member with here | later
      · rw [own.2 escape here]
        dsimp only
        omega
      · have after := placed escape later
        omega

theorem Arranged.string (position : Nat) (key : Bool) :
    Arranged position (position + (stringText content).length) (stringLiteral position content key) := by
  obtain ⟨ordered, placed⟩ := contentEscapes_ordered content (position + 1)
  have size : (stringText content).length = (contentText content).length + 2 := by
    rw [stringText, length_cons, length_append, length_singleton]
  refine ⟨pairwise_singleton _ _, ?sized, ?number, ordered, ?placed, ?apart⟩
  case sized =>
    intro literal member
    rw [mem_singleton.mp member]
    dsimp only
    omega
  case number =>
    intro literal member number
    rw [mem_singleton.mp member] at number
    cases number
  case placed =>
    intro escape member
    have inside := placed escape member
    omega
  case apart =>
    intro escape member literal listed
    rw [mem_singleton.mp listed]
    have inside := placed escape member
    exact .inl ⟨inside.1, inside.2.2⟩

variable {position : Nat}

theorem Arranged.member {before : Blank} {key : List Piece} {afterKey beforeValue : Blank}
    {inside : StructuredJSONLiterals}
    (arranged : Arranged (valueStart position before key afterKey beforeValue) high inside)
    (upper : valueStart position before key afterKey beforeValue ≤ high) :
    Arranged position high (stringLiteral (position + before.text.length) key true ++ inside) := by
  have size : valueStart position before key afterKey beforeValue =
      position + before.text.length + (stringText key).length + afterKey.text.length + 1 + beforeValue.text.length := by
    simp only [valueStart, keyText, length_append, length_cons]
    omega
  have own := (Arranged.string key (position + before.text.length) true).widen (Nat.le_add_right position _) (Nat.le_refl _)
  exact own.append (arranged.widen (by omega) (Nat.le_refl _)) (by omega) (by omega)

mutual

theorem arranged_value (value : Value) (position : Nat) :
    Arranged position (position + value.text.length) (valueLiterals position value) := by
  cases value with
  | word word => exact .none
  | number number =>
    obtain ⟨first, rest, text, _⟩ := number.first
    have some_byte : 0 < number.text.length := by rw [text]; exact Nat.succ_pos _
    refine ⟨pairwise_singleton _ _, ?sized, ?longer, .nil, fun _ member => (by cases member),
      fun _ member => (by cases member)⟩
    case sized =>
      intro literal member
      rw [mem_singleton.mp member]
      exact ⟨Nat.le_refl _, Nat.le_add_right _ _, Nat.le_refl _⟩
    case longer =>
      intro literal member _
      rw [mem_singleton.mp member]
      exact Nat.lt_add_of_pos_right some_byte
  | string content => exact .string content position false
  | emptyArray inside => exact .none
  | array elements =>
    refine (arranged_elements elements (position + 1)).widen (Nat.le_succ _) ?_
    simp only [Value.text, length_cons, length_append]
    omega
  | emptyObject inside => exact .none
  | object members =>
    refine (arranged_members members (position + 1)).widen (Nat.le_succ _) ?_
    simp only [Value.text, length_cons, length_append]
    omega

theorem arranged_elements (elements : Elements) (position : Nat) :
    Arranged position (position + elements.text.length) (elementLiterals position elements) := by
  cases elements with
  | last before value after =>
    refine (arranged_value value (position + before.text.length)).widen (Nat.le_add_right _ _) ?_
    simp only [Elements.text, length_append]
    omega
  | cons before value after more =>
    have first := (arranged_value value (position + before.text.length)).widen (Nat.le_add_right position _) (Nat.le_refl _)
    have later := arranged_elements more (position + (before.text ++ value.text ++ after.text).length + 1)
    have size : (Elements.cons before value after more).text.length =
        (before.text ++ value.text ++ after.text).length + 1 + more.text.length := by
      simp only [Elements.text, length_append, length_cons]
      omega
    have inner : (before.text ++ value.text ++ after.text).length =
        before.text.length + value.text.length + after.text.length := by
      simp only [length_append]
    refine first.append (later.widen ?_ ?_) ?_ ?_ <;> omega

theorem arranged_members (members : Members) (position : Nat) :
    Arranged position (position + members.text.length) (memberLiterals position members) := by
  cases members with
  | last before key afterKey beforeValue value after =>
    have size : position + (Members.last before key afterKey beforeValue value after).text.length =
        valueStart position before key afterKey beforeValue + value.text.length + after.text.length := by
      simp only [Members.text, valueStart, length_append]
      omega
    have inside := arranged_value value (valueStart position before key afterKey beforeValue)
    exact (inside.widen (Nat.le_refl _) (by omega)).member (by omega)
  | cons before key afterKey beforeValue value after more =>
    have size : position + (Members.cons before key afterKey beforeValue value after more).text.length =
        valueStart position before key afterKey beforeValue + (value.text ++ after.text).length + 1 + more.text.length := by
      simp only [Members.text, valueStart, length_append, length_cons]
      omega
    have inner : (value.text ++ after.text).length = value.text.length + after.text.length := length_append
    have first := arranged_value value (valueStart position before key afterKey beforeValue)
    have later := arranged_members more (valueStart position before key afterKey beforeValue + (value.text ++ after.text).length + 1)
    rw [← size] at later
    exact (first.append (later.widen (by omega) (Nat.le_refl _)) (by omega) (by omega)).member (by omega)

end

theorem arranged_document (document : Document) : ∃ low high, Arranged low high (documentLiterals document) :=
  ⟨_, _, arranged_value document.value document.before.text.length⟩

/-! ### Pieces of a span -/

section
variable {low high : Nat} {scanned : StructuredJSONLiterals}

/-- No escape reaches across a position. -/
def Whole (scanned : StructuredJSONLiterals) (position : Nat) : Prop :=
  ∀ escape ∈ scanned.escapes, ¬ (escape.1 < position ∧ position < escape.2)

section
variable (arranged : Arranged low high scanned)
include arranged

theorem escapeContaining_spec (position : Nat) :
    (scanned.escapeContaining position = Option.none ∧ Whole scanned position) ∨
      ∃ escape ∈ scanned.escapes, scanned.escapeContaining position = some escape ∧ escape.1 < position ∧ position < escape.2 := by
  unfold StructuredJSONLiterals.escapeContaining
  cases found : scanned.escapes.find? (fun escape => position < escape.2) with
  | none =>
    refine .inl ⟨rfl, fun escape member inside => ?_⟩
    have past := find?_eq_none.mp found escape member
    exact past (decide_eq_true inside.2)
  | some first =>
    obtain ⟨ends, front, back, split, earlier⟩ := find?_eq_some_iff_append.mp found
    have ends : position < first.2 := by simpa using ends
    by_cases starts : first.1 < position
    · exact .inr ⟨first, mem_of_find?_eq_some found, if_pos starts, starts, ends⟩
    · refine .inl ⟨if_neg starts, fun escape member inside => ?_⟩
      rw [split] at member
      rcases mem_append.mp member with before | here
      · have past := earlier escape before
        simp only [Bool.not_eq_true', decide_eq_false_iff_not] at past
        exact past inside.2
      · rcases mem_cons.mp here with rfl | after
        · exact starts inside.1
        · have ordered := arranged.escapes
          rw [split] at ordered
          have later := rel_of_pairwise_cons (pairwise_append.mp ordered).2.1 after
          omega

theorem whole_of_edge {escape : Nat × Nat} (member : escape ∈ scanned.escapes) :
    Whole scanned escape.1 ∧ Whole scanned escape.2 := by
  have apart : ∀ other ∈ scanned.escapes, other = escape ∨ other.2 ≤ escape.1 ∨ escape.2 ≤ other.1 := by
    intro other listed
    by_cases same : other = escape
    · exact .inl same
    · exact .inr (either_first arranged.escapes listed member same)
  constructor
  · intro other listed inside
    have placed := arranged.placed escape member
    rcases apart other listed with rfl | before | after <;> omega
  · intro other listed inside
    have placed := arranged.placed escape member
    rcases apart other listed with rfl | before | after <;> omega

theorem escapeStart_spec (position : Nat) :
    scanned.escapeStart position ≤ position ∧ Whole scanned (scanned.escapeStart position) ∧
      ∀ literal ∈ scanned.literals, literal.start ≤ position → position ≤ literal.finish →
        literal.start ≤ scanned.escapeStart position := by
  unfold StructuredJSONLiterals.escapeStart
  rcases escapeContaining_spec arranged position with ⟨none_found, whole⟩ | ⟨escape, member, found, starts, ends⟩
  · rw [none_found]
    exact ⟨Nat.le_refl _, whole, fun _ _ after _ => after⟩
  · rw [found]
    refine ⟨Nat.le_of_lt starts, (whole_of_edge arranged member).1, fun literal listed after before => ?_⟩
    show literal.start ≤ escape.1
    have apart := arranged.apart escape member literal listed
    omega

theorem escapeEnd_spec (position : Nat) :
    position ≤ scanned.escapeEnd position ∧ Whole scanned (scanned.escapeEnd position) ∧
      ∀ literal ∈ scanned.literals, literal.start ≤ position → position ≤ literal.finish →
        scanned.escapeEnd position ≤ literal.finish := by
  unfold StructuredJSONLiterals.escapeEnd
  rcases escapeContaining_spec arranged position with ⟨none_found, whole⟩ | ⟨escape, member, found, starts, ends⟩
  · rw [none_found]
    exact ⟨Nat.le_refl _, whole, fun _ _ _ before => before⟩
  · rw [found]
    refine ⟨Nat.le_of_lt ends, (whole_of_edge arranged member).2, fun literal listed after before => ?_⟩
    show escape.2 ≤ literal.finish
    have apart := arranged.apart escape member literal listed
    omega

end

variable {literal : Literal}

section
variable (arranged : Arranged low high scanned)
include arranged

theorem whole_literal (listed : literal ∈ scanned.literals) :
    Whole scanned literal.start ∧ Whole scanned literal.finish := by
  have sized := arranged.sized literal listed
  constructor <;>
  · intro escape member inside
    have apart := arranged.apart escape member literal listed
    omega

/-- The part of a covered literal: inside it, and around all of it that the span covers. -/
structure PieceOf (scanned : StructuredJSONLiterals) (start finish : Nat) (literal piece : Literal) : Prop where
  flags : piece.number = literal.number ∧ piece.key = literal.key
  inside : literal.start ≤ piece.start ∧ piece.finish ≤ literal.finish
  number : literal.number = true → piece = literal
  covers : piece.start ≤ max start literal.start ∧ min finish literal.finish ≤ piece.finish
  whole : Whole scanned piece.start ∧ Whole scanned piece.finish

theorem piece_spec {start finish : Nat} (listed : literal ∈ scanned.literals)
    (ends : start < literal.finish) (starts : literal.start < finish) :
    PieceOf scanned start finish literal (scanned.piece start finish literal) := by
  have sized := arranged.sized literal listed
  unfold StructuredJSONLiterals.piece
  split
  · exact ⟨⟨rfl, rfl⟩, ⟨Nat.le_refl _, Nat.le_refl _⟩, fun _ => rfl, ⟨Nat.le_max_right _ _, Nat.min_le_right _ _⟩,
      whole_literal arranged listed⟩
  · rename_i text
    obtain ⟨startBelow, startWhole, startInside⟩ := escapeStart_spec arranged (max start literal.start)
    obtain ⟨endAbove, endWhole, endInside⟩ := escapeEnd_spec arranged (min finish literal.finish)
    exact ⟨⟨rfl, rfl⟩, ⟨startInside literal listed (by omega) (by omega), endInside literal listed (by omega) (by omega)⟩,
      fun number => absurd number text, ⟨startBelow, endAbove⟩, startWhole, endWhole⟩

theorem mem_covered (start finish : Nat) (literal : Literal) :
    literal ∈ (scanned.literals.dropWhile fun literal => literal.finish ≤ start).takeWhile (fun literal => literal.start < finish) ↔
      literal ∈ scanned.literals ∧ start < literal.finish ∧ literal.start < finish := by
  have ends : scanned.literals.Pairwise fun first second =>
      decide (second.finish ≤ start) = true → decide (first.finish ≤ start) = true := by
    refine arranged.literals.imp_of_mem fun {first second} _ listed before => ?_
    have sized := arranged.sized second listed
    simp only [decide_eq_true_eq]
    omega
  have starts : (scanned.literals.dropWhile fun literal => literal.finish ≤ start).Pairwise fun first second =>
      decide (second.start < finish) = true → decide (first.start < finish) = true := by
    refine (arranged.literals.sublist (dropWhile_sublist _)).imp_of_mem fun {first second} listed _ before => ?_
    have sized := arranged.sized first ((dropWhile_sublist _).mem listed)
    simp only [decide_eq_true_eq]
    omega
  rw [mem_takeWhile starts, mem_dropWhile ends, decide_eq_false_iff_not, decide_eq_true_iff, Nat.not_le, and_assoc]

theorem mem_pieces (start finish : Nat) (piece : Literal) :
    piece ∈ scanned.pieces start finish ↔
      ∃ literal ∈ scanned.literals, start < literal.finish ∧ literal.start < finish ∧
        scanned.piece start finish literal = piece ∧ piece.start < piece.finish := by
  unfold StructuredJSONLiterals.pieces
  rw [mem_filter, mem_map]
  constructor
  · rintro ⟨⟨literal, covered, same⟩, long⟩
    obtain ⟨listed, ends, starts⟩ := (mem_covered arranged start finish literal).mp covered
    exact ⟨literal, listed, ends, starts, same, of_decide_eq_true long⟩
  · rintro ⟨literal, listed, ends, starts, same, long⟩
    exact ⟨⟨literal, (mem_covered arranged start finish literal).mpr ⟨listed, ends, starts⟩, same⟩, decide_eq_true long⟩

theorem pieces_ordered (start finish : Nat) :
    (scanned.pieces start finish).Pairwise fun first second => first.finish ≤ second.start := by
  unfold StructuredJSONLiterals.pieces
  refine Pairwise.filter _ (pairwise_map.mpr ?_)
  have covered := arranged.literals.sublist
    ((takeWhile_sublist (fun literal : Literal => decide (literal.start < finish))).trans
      (dropWhile_sublist (fun literal : Literal => decide (literal.finish ≤ start))))
  refine covered.imp_of_mem fun {first second} listed listed' before => ?_
  obtain ⟨member, ends, starts⟩ := (mem_covered arranged start finish first).mp listed
  obtain ⟨member', ends', starts'⟩ := (mem_covered arranged start finish second).mp listed'
  have left := (piece_spec arranged member ends starts).inside
  have right := (piece_spec arranged member' ends' starts').inside
  omega

theorem literal_unique {first second : Literal} (left : first ∈ scanned.literals) (right : second ∈ scanned.literals)
    (inFirst : first.start ≤ position ∧ position < first.finish)
    (inSecond : second.start ≤ position ∧ position < second.finish) : first = second := by
  by_contra differ
  rcases either_first arranged.literals left right differ with before | after <;> omega

theorem pieces_touched {start finish position : Nat}
    (listed : literal ∈ scanned.literals) (value : literal.key = false) (after : literal.start ≤ position)
    (before : position < literal.finish) (first : start ≤ position) (last : position < finish) :
    ∃ part ∈ scanned.pieces start finish, part.key = false ∧ part.start ≤ position ∧ position < part.finish := by
  have spec := piece_spec arranged listed (show start < literal.finish by omega) (show literal.start < finish by omega)
  have covers := spec.covers
  refine ⟨_, (mem_pieces arranged _ _ _).mpr ⟨literal, listed, by omega, by omega, rfl, by omega⟩, ?_, by omega, by omega⟩
  rw [spec.flags.2, value]

end

theorem align_pieces {Score : Type} (arranged : Arranged low high scanned) (finding : Finding Score) :
    ∀ piece ∈ scanned.align finding, ∃ literal ∈ scanned.literals, ∃ part ∈ scanned.kept finding.start finding.finish,
      PieceOf scanned finding.start finding.finish literal part ∧ part.start < part.finish ∧
        piece = { finding with start := part.start, finish := part.finish } := by
  intro piece member
  obtain ⟨part, kept, same⟩ := mem_map.mp member
  obtain ⟨literal, listed, ends, starts, made, long⟩ := (mem_pieces arranged _ _ _).mp (mem_of_mem_filter kept)
  exact ⟨literal, listed, part, kept, made ▸ piece_spec arranged listed ends starts, long, same.symm⟩

theorem align_covers {Score : Type} (arranged : Arranged low high scanned) (finding : Finding Score)
    (listed : literal ∈ scanned.literals) (value : literal.key = false) (after : literal.start ≤ position)
    (before : position < literal.finish) (first : finding.start ≤ position) (last : position < finding.finish) :
    ∃ piece ∈ scanned.align finding, piece.start ≤ position ∧ position < piece.finish := by
  obtain ⟨part, member, noKey, starts, ends⟩ := pieces_touched arranged listed value after before first last
  refine ⟨_, mem_map_of_mem (mem_filter.mpr ⟨member, ?_⟩), starts, ends⟩
  rw [noKey]
  rfl

end

structure AlignedTo {Score : Type} (document : Document) (finding : Finding Score) (pieces : List (Finding Score)) :
    Prop where
  same : ∀ piece ∈ pieces, piece = { finding with start := piece.start, finish := piece.finish }
  inside : ∀ piece ∈ pieces, piece.start < piece.finish ∧ ∃ literal ∈ (documentLiterals document).literals,
    (literal.number = false ∧ literal.start ≤ piece.start ∧ piece.finish ≤ literal.finish) ∨
      (literal.number = true ∧ piece.start = literal.start ∧ piece.finish = literal.finish)
  escapes : ∀ piece ∈ pieces,
    Whole (documentLiterals document) piece.start ∧ Whole (documentLiterals document) piece.finish
  ordered : pieces.Pairwise fun first second => first.finish ≤ second.start
  covers : ∀ literal ∈ (documentLiterals document).literals, literal.key = false → ∀ position,
    literal.start ≤ position → position < literal.finish → finding.start ≤ position → position < finding.finish →
      ∃ piece ∈ pieces, piece.start ≤ position ∧ position < piece.finish
  /-- A byte of a key is covered only when no value is. -/
  keys : ∀ key ∈ (documentLiterals document).literals, key.key = true → ∀ piece ∈ pieces, ∀ position,
    key.start ≤ position → position < key.finish → piece.start ≤ position → position < piece.finish →
      ∀ literal ∈ (documentLiterals document).literals, literal.key = false → ∀ other,
        literal.start ≤ other → other < literal.finish → ¬ (finding.start ≤ other ∧ other < finding.finish)

/-- Every span on a valid payload is aligned to its literals. -/
theorem align_document {Score : Type} (document : Document) (finding : Finding Score) :
    AlignedTo document finding ((scanStructuredJSONLiterals document.text).align finding) := by
  obtain ⟨low, high, arranged⟩ := arranged_document document
  rw [scan_document]
  refine ⟨?same, ?inside, ?escapes, ?ordered, ?covers, ?keys⟩
  case same =>
    intro piece member
    obtain ⟨_, _, part, _, _, _, rfl⟩ := align_pieces arranged finding piece member
    rfl
  case inside =>
    intro piece member
    obtain ⟨literal, listed, part, _, spec, long, rfl⟩ := align_pieces arranged finding piece member
    refine ⟨long, literal, listed, ?_⟩
    cases number : literal.number with
    | true =>
      obtain rfl := spec.number number
      exact .inr ⟨rfl, rfl, rfl⟩
    | false => exact .inl ⟨rfl, spec.inside⟩
  case escapes =>
    intro piece member
    obtain ⟨_, _, part, _, spec, _, rfl⟩ := align_pieces arranged finding piece member
    exact spec.whole
  case ordered =>
    exact pairwise_map.mpr ((pieces_ordered arranged _ _).filter _)
  case covers => exact fun literal listed value position => align_covers arranged finding listed value
  case keys =>
    intro key keyListed isKey piece member position after before first last literal listed value other above below spans
    obtain ⟨owner, ownerListed, part, kept, spec, _, rfl⟩ := align_pieces arranged finding piece member
    have around := spec.inside
    have first : part.start ≤ position := first
    have last : position < part.finish := last
    have inside : owner.start ≤ position ∧ position < owner.finish := ⟨by omega, by omega⟩
    have same := literal_unique arranged ownerListed keyListed inside ⟨after, before⟩
    obtain ⟨beside, besideListed, noKey, _⟩ := pieces_touched arranged listed value above below spans.1 spans.2
    have hasValue : ((documentLiterals document).pieces finding.start finding.finish).any (!·.key) = true :=
      any_eq_true.mpr ⟨beside, besideListed, by rw [noKey]; rfl⟩
    have lost := (mem_filter.mp kept).2
    rw [hasValue, spec.flags.2, same, isKey] at lost
    cases lost

structure ExtractedSegment where
  value : Bytes
  /-- Whether the segment is a payload that must stay valid JSON. -/
  validateStructuredJSON : Bool

section
variable {Score : Type}

variable [LT Score] [DecidableLT Score]

end

/-- Two escapes in a row that spell one character: a high surrogate and a low one. -/
def surrogatePairAt (text : Bytes) (position : Nat) : Bool :=
  match text.drop position with
  | 0x5C :: 0x75 :: first :: second :: _ :: _ :: 0x5C :: 0x75 :: third :: fourth :: _ =>
    [0x64, 0x44].contains first && [0x38, 0x39, 0x61, 0x62, 0x41, 0x42].contains second &&
      [0x64, 0x44].contains third && [0x63, 0x64, 0x65, 0x66, 0x43, 0x44, 0x45, 0x46].contains fourth
  | _ => false

/-- A pair of escapes of a payload that spell one character. -/
def SurrogatePair (document : Document) (position : Nat) : Prop :=
  (position, position + 6) ∈ (documentLiterals document).escapes ∧
    (position + 6, position + 12) ∈ (documentLiterals document).escapes ∧ surrogatePairAt document.text position = true

def noBlank : Blank := ⟨[], fun _ member => by cases member⟩

/-- The payload `"\ud83d\ude00"`. -/
def pairDocument : Document :=
  ⟨noBlank, .string [.unicode 0x64 0x38 0x33 0x64 rfl, .unicode 0x64 0x65 0x30 0x30 rfl], noBlank⟩

/-- A span that starts between the halves of a pair is not moved to its start. -/
theorem align_splits_pair : ¬ ∀ (document : Document) (finding : Finding Nat),
    ∀ piece ∈ (scanStructuredJSONLiterals document.text).align finding, ∀ position, SurrogatePair document position →
      ¬ (position < piece.start ∧ piece.start < position + 12) ∧
        ¬ (position < piece.finish ∧ piece.finish < position + 12) := by
  intro all
  have pair : SurrogatePair pairDocument 1 := ⟨by decide +kernel, by decide +kernel, by decide +kernel⟩
  have split := all pairDocument ⟨0, 7, 13, .email, 1, none, []⟩ ⟨0, 7, 13, .email, 1, none, []⟩
    (by rw [scan_document]; exact mem_cons_self) 1 pair
  exact split.1 ⟨by decide, by decide⟩

end AstrLink.StructuredJson
