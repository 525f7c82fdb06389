import AstrLink.JsonSyntax

/-!
Where a value of a JSON stream ends, looked for without parsing. On any part of a stream the value is complete
exactly when all of it is there (`completeJSONValueEnd_stream`).
-/
namespace AstrLink.ValueEnds
open JsonSyntax List

/-- Where a value ends, or that more bytes are needed, or that it cannot begin. -/
inductive Boundary where
  | incomplete
  | invalid
  | complete (finish : Nat)
deriving DecidableEq

/-- Counts the brackets that are open. -/
def containerEnd (depth : Nat) (inString escaped : Bool) (index : Nat) : Bytes → Boundary
  | [] => .incomplete
  | current :: rest =>
    if inString then
      if escaped then containerEnd depth true false (index + 1) rest
      else if current = backslash then containerEnd depth true true (index + 1) rest
      else if current = quote then containerEnd depth false false (index + 1) rest
      else containerEnd depth true false (index + 1) rest
    else if current = quote then containerEnd depth true false (index + 1) rest
    else if current = openObject || current = openArray then containerEnd (depth + 1) false false (index + 1) rest
    else if current = closeObject || current = closeArray then
      match depth with
      | 0 => .invalid
      | 1 => .complete (index + 1)
      | depth + 2 => containerEnd (depth + 1) false false (index + 1) rest
    else containerEnd depth false false (index + 1) rest

def stringEnd (escaped : Bool) (index : Nat) : Bytes → Boundary
  | [] => .incomplete
  | current :: rest =>
    if escaped then stringEnd false (index + 1) rest
    else if current = backslash then stringEnd true (index + 1) rest
    else if current = quote then .complete (index + 1)
    else stringEnd false (index + 1) rest

/-- A byte that ends a value without brackets or quotes. -/
def isSeparator (byte : UInt8) : Bool := isSpace byte || byte == comma || byte == closeArray

def scalarEnd (start index : Nat) : Bytes → Boundary
  | [] => .incomplete
  | current :: rest =>
    if isSeparator current then if index = start then .invalid else .complete index
    else scalarEnd start (index + 1) rest

def valueEnd (start : Nat) : Bytes → Boundary
  | [] => .incomplete
  | first :: rest =>
    if first = openObject || first = openArray then containerEnd 0 false false start (first :: rest)
    else if first = quote then stringEnd false (start + 1) rest
    else scalarEnd start start (first :: rest)

def completeJSONValueEnd (value : Bytes) (start : Nat) : Boundary := valueEnd start (value.drop start)

/-- A byte that is neither a quote nor a bracket. -/
def isInner (byte : UInt8) : Bool :=
  byte != quote && byte != openObject && byte != openArray && byte != closeObject && byte != closeArray

theorem isInner_iff (byte : UInt8) : isInner byte = true ↔
    byte ≠ quote ∧ byte ≠ openObject ∧ byte ≠ openArray ∧ byte ≠ closeObject ∧ byte ≠ closeArray := by
  simp [isInner, and_assoc]

theorem Blank.inner (blank : Blank) : ∀ byte ∈ blank.text, isInner byte = true := by
  intro byte member
  have space := blank.blank byte member
  simp only [isSpace, Bool.or_eq_true, beq_iff_eq] at space
  rcases space with ((rfl | rfl) | rfl) | rfl <;> rfl

def isScalarByte (byte : UInt8) : Bool := isInner byte && !isSeparator byte

theorem isNumberByte_scalar {byte : UInt8} (number : isNumberByte byte = true) : isScalarByte byte = true := by
  have apart : ∀ other, isNumberByte other = false → byte ≠ other := by
    rintro other quiet rfl
    rw [number] at quiet
    cases quiet
  simp [isScalarByte, isInner, isSeparator, isSpace, apart quote rfl, apart openObject rfl, apart openArray rfl,
    apart closeObject rfl, apart closeArray rfl, apart comma rfl, apart 0x20 rfl, apart 0x09 rfl, apart 0x0A rfl,
    apart 0x0D rfl]

theorem Word.scalar (word : Word) : ∀ byte ∈ word.text, isScalarByte byte = true := by
  have all : word.text.all isScalarByte = true := by cases word <;> rfl
  exact all_eq_true.mp all

def scalarText : Value → Option Bytes
  | .word word => some word.text
  | .number number => some number.text
  | _ => none

variable {text : Bytes}

theorem scalarText_bytes {value : Value} (scalar : scalarText value = some text) :
    value.text = text ∧ text ≠ [] ∧ ∀ byte ∈ text, isScalarByte byte = true := by
  cases value with
  | word word =>
    cases scalar
    exact ⟨by rw [Value.text], by cases word <;> simp [Word.text], Word.scalar word⟩
  | number number =>
    cases scalar
    obtain ⟨first, rest, same, _⟩ := number.first
    exact ⟨by rw [Value.text], by simp [same], fun byte member => isNumberByte_scalar (number.bytes byte member)⟩
  | _ => cases scalar

/-- The scan inside some bracket goes through the text and stands as before. -/
def Passes (text : Bytes) : Prop :=
  ∀ depth index rest, containerEnd (depth + 1) false false index (text ++ rest) =
    containerEnd (depth + 1) false false (index + text.length) rest

theorem Passes.nil : Passes [] := fun _ _ _ => rfl

theorem Passes.append {first second : Bytes} (left : Passes first) (right : Passes second) : Passes (first ++ second) := by
  intro depth index rest
  rw [List.append_assoc, left, right, length_append, Nat.add_assoc]

theorem Passes.byte {byte : UInt8} (inner : isInner byte = true) : Passes [byte] := by
  intro depth index rest
  obtain ⟨quoted, object, array, object', array'⟩ := (isInner_iff byte).mp inner
  simp [containerEnd, quoted, object, array, object', array']

theorem Passes.bytes (inner : ∀ byte ∈ text, isInner byte = true) : Passes text := by
  induction text with
  | nil => exact .nil
  | cons byte text ih =>
    have first : Passes [byte] := .byte (inner byte mem_cons_self)
    exact first.append (ih fun other member => inner other (mem_cons_of_mem _ member))

theorem hex_plain {first second third fourth : UInt8} (hex : ([first, second, third, fourth].all isHex) = true) :
    (first ≠ quote ∧ first ≠ backslash) ∧ (second ≠ quote ∧ second ≠ backslash) ∧ (third ≠ quote ∧ third ≠ backslash) ∧
      fourth ≠ quote ∧ fourth ≠ backslash := by
  have digit : ∀ byte ∈ [first, second, third, fourth], byte ≠ quote ∧ byte ≠ backslash := by
    intro byte member
    have known := all_eq_true.mp hex byte member
    constructor
    · rintro rfl
      cases known
    · rintro rfl
      cases known
  simpa using digit

variable (content : List Piece)

theorem content_stays (depth index : Nat) (rest : Bytes) :
    containerEnd depth true false index (contentText content ++ rest) =
      containerEnd depth true false (index + (contentText content).length) rest := by
  induction content generalizing index with
  | nil => rfl
  | cons piece content ih =>
    have step : ∀ rest, containerEnd depth true false index (piece.text ++ rest) =
        containerEnd depth true false (index + piece.text.length) rest := by
      intro rest
      cases piece with
      | plain byte plain =>
        simp only [Bool.and_eq_true, bne_iff_ne] at plain
        simp [Piece.text, containerEnd, plain.1.2, plain.2]
      | escape letter known => simp [Piece.text, containerEnd]
      | unicode first second third fourth hex =>
        obtain ⟨one, two, three, four⟩ := hex_plain hex
        simp [Piece.text, containerEnd, one, two, three, four]
    show containerEnd depth true false index ((piece.text ++ contentText content) ++ rest) = _
    rw [List.append_assoc, step, ih]
    congr 1
    show _ = index + (piece.text ++ contentText content).length
    rw [length_append, Nat.add_assoc]

theorem Passes.string : Passes (stringText content) := by
  intro depth index rest
  have whole : stringText content ++ rest = quote :: (contentText content ++ quote :: rest) := by simp [stringText]
  have first : ∀ rest, containerEnd (depth + 1) false false index (quote :: rest) =
      containerEnd (depth + 1) true false (index + 1) rest := fun rest => by simp [containerEnd]
  have last : ∀ index, containerEnd (depth + 1) true false index (quote :: rest) =
      containerEnd (depth + 1) false false (index + 1) rest := fun index => by simp [containerEnd, quote, backslash]
  rw [whole, first, content_stays, last]
  congr 1
  simp only [stringText, length_cons, length_append, length_nil]
  omega

def opensContainer (byte : UInt8) : Bool := byte == openObject || byte == openArray

def closesContainer (byte : UInt8) : Bool := byte == closeObject || byte == closeArray

variable {opens : UInt8}

theorem containerEnd_opens (opening : opensContainer opens = true) (depth index : Nat) (rest : Bytes) :
    containerEnd depth false false index (opens :: rest) = containerEnd (depth + 1) false false (index + 1) rest := by
  simp only [opensContainer, Bool.or_eq_true, beq_iff_eq] at opening
  rcases opening with rfl | rfl <;> simp [containerEnd, openObject, openArray, quote]

theorem Passes.bracketed {closes : UInt8} (opening : opensContainer opens = true)
    (closing : closesContainer closes = true) (inside : Passes text) : Passes (opens :: (text ++ [closes])) := by
  intro depth index rest
  have last : ∀ index, containerEnd (depth + 2) false false index (closes :: rest) =
      containerEnd (depth + 1) false false (index + 1) rest := by
    intro index
    simp only [closesContainer, Bool.or_eq_true, beq_iff_eq] at closing
    rcases closing with rfl | rfl <;>
      simp [containerEnd, openObject, openArray, closeObject, closeArray, quote]
  rw [cons_append, List.append_assoc, containerEnd_opens opening, inside, singleton_append, last]
  congr 1
  simp only [length_cons, length_append, length_nil]
  omega

theorem container_complete {closes : UInt8} (opening : opensContainer opens = true)
    (closing : closesContainer closes = true) (inside : Passes text) (index : Nat) (rest : Bytes) :
    containerEnd 0 false false index (opens :: (text ++ [closes]) ++ rest) =
      .complete (index + (opens :: (text ++ [closes])).length) := by
  have last : ∀ index, containerEnd 1 false false index (closes :: rest) = .complete (index + 1) := by
    intro index
    simp only [closesContainer, Bool.or_eq_true, beq_iff_eq] at closing
    rcases closing with rfl | rfl <;>
      simp [containerEnd, openObject, openArray, closeObject, closeArray, quote]
  rw [cons_append, List.append_assoc, containerEnd_opens opening, inside, singleton_append, last]
  congr 1
  simp only [length_cons, length_append, length_nil]
  omega

theorem Passes.scalar (bytes : ∀ byte ∈ text, isScalarByte byte = true) : Passes text :=
  .bytes fun byte member => (Bool.and_eq_true_iff.mp (bytes byte member)).1

theorem Passes.blank (blank : Blank) : Passes blank.text := .bytes (Blank.inner blank)

theorem Passes.key (before : Blank) (key : List Piece) (afterKey beforeValue : Blank) :
    Passes (keyText before key afterKey beforeValue) := by
  have colon_passes : Passes [colon] := .byte rfl
  have whole : keyText before key afterKey beforeValue =
      before.text ++ stringText key ++ afterKey.text ++ ([colon] ++ beforeValue.text) := rfl
  rw [whole]
  exact (((blank before).append (string key)).append (blank afterKey)).append (colon_passes.append (blank beforeValue))

theorem Passes.comma {first second : Bytes} (left : Passes first) (right : Passes second) :
    Passes (first ++ JsonSyntax.comma :: second) := left.append ((byte (by rfl)).append right)

mutual

theorem passes_value : (value : Value) → Passes value.text
  | .word word => by
    rw [Value.text]
    exact .scalar (Word.scalar word)
  | .number number => by
    rw [Value.text]
    exact .scalar fun byte member => isNumberByte_scalar (number.bytes byte member)
  | .string content => by
    rw [Value.text]
    exact .string content
  | .emptyArray inside => by
    rw [Value.text]
    exact .bracketed rfl rfl (.blank inside)
  | .array elements => by
    rw [Value.text]
    exact .bracketed rfl rfl (passes_elements elements)
  | .emptyObject inside => by
    rw [Value.text]
    exact .bracketed rfl rfl (.blank inside)
  | .object members => by
    rw [Value.text]
    exact .bracketed rfl rfl (passes_members members)

theorem passes_elements : (elements : Elements) → Passes elements.text
  | .last before value after => by
    rw [Elements.text]
    exact ((Passes.blank before).append (passes_value value)).append (.blank after)
  | .cons before value after rest => by
    rw [Elements.text]
    exact .comma (((Passes.blank before).append (passes_value value)).append (.blank after)) (passes_elements rest)

theorem passes_members : (members : Members) → Passes members.text
  | .last before key afterKey beforeValue value after => by
    rw [Members.text]
    exact ((Passes.key before key afterKey beforeValue).append (passes_value value)).append (.blank after)
  | .cons before key afterKey beforeValue value after rest => by
    rw [Members.text]
    exact .comma (((Passes.key before key afterKey beforeValue).append (passes_value value)).append (.blank after))
      (passes_members rest)

end

/-- A value is a scalar, a string or a container. -/
inductive Shape : Value → Prop where
  | scalar {value : Value} {text : Bytes} (scalar : scalarText value = some text) : Shape value
  | string (content : List Piece) : Shape (.string content)
  | container {value : Value} {opens closes : UInt8} {inside : Bytes} (opening : opensContainer opens = true)
      (closing : closesContainer closes = true) (passes : Passes inside) (whole : value.text = opens :: (inside ++ [closes]))
      (structured : scalarText value = none) : Shape value

variable (value : Value)

theorem shape : Shape value := by
  cases value with
  | word word => exact .scalar rfl
  | number number => exact .scalar rfl
  | string content => exact .string content
  | emptyArray inside => exact .container rfl rfl (.blank inside) (by rw [Value.text]) rfl
  | array elements => exact .container rfl rfl (passes_elements elements) (by rw [Value.text]) rfl
  | emptyObject inside => exact .container rfl rfl (.blank inside) (by rw [Value.text]) rfl
  | object members => exact .container rfl rfl (passes_members members) (by rw [Value.text]) rfl

/-- The bytes of the value; of a scalar the byte after it as well. -/
def needed (value : Value) : Nat := value.text.length + if (scalarText value).isSome then 1 else 0

def Followed (value : Value) (rest : Bytes) : Prop :=
  (scalarText value).isSome = true → ∀ byte, rest.head? = some byte → isSeparator byte = true

theorem stringEnd_stays (index : Nat) (rest : Bytes) :
    stringEnd false index (contentText content ++ rest) = stringEnd false (index + (contentText content).length) rest := by
  induction content generalizing index with
  | nil => rfl
  | cons piece content ih =>
    have step : ∀ rest, stringEnd false index (piece.text ++ rest) = stringEnd false (index + piece.text.length) rest := by
      intro rest
      cases piece with
      | plain byte plain =>
        simp only [Bool.and_eq_true, bne_iff_ne] at plain
        simp [Piece.text, stringEnd, plain.1.2, plain.2]
      | escape letter known => simp [Piece.text, stringEnd]
      | unicode first second third fourth hex =>
        obtain ⟨one, two, three, four⟩ := hex_plain hex
        simp [Piece.text, stringEnd, one, two, three, four]
    show stringEnd false index ((piece.text ++ contentText content) ++ rest) = _
    rw [List.append_assoc, step, ih]
    congr 1
    show _ = index + (piece.text ++ contentText content).length
    rw [length_append, Nat.add_assoc]

variable {part : Bytes}

variable {index : Nat} {inString escaped : Bool}
variable {depth : Nat}

theorem containerEnd_append (found : containerEnd depth inString escaped index part ≠ .incomplete) (more : Bytes) :
    containerEnd depth inString escaped index (part ++ more) = containerEnd depth inString escaped index part := by
  fun_induction containerEnd depth inString escaped index part with
  | case1 => exact absurd rfl found
  | _ => simp_all [containerEnd]

variable {finish : Nat}

theorem containerEnd_bound (found : containerEnd depth inString escaped index part = .complete finish) :
    finish ≤ index + part.length := by
  fun_induction containerEnd depth inString escaped index part with
  | case1 => cases found
  | _ => simp_all <;> omega

theorem stringEnd_append (found : stringEnd escaped index part ≠ .incomplete) (more : Bytes) :
    stringEnd escaped index (part ++ more) = stringEnd escaped index part := by
  fun_induction stringEnd escaped index part with
  | case1 => exact absurd rfl found
  | _ => simp_all [stringEnd]

theorem stringEnd_bound (found : stringEnd escaped index part = .complete finish) : finish ≤ index + part.length := by
  fun_induction stringEnd escaped index part with
  | case1 => cases found
  | _ => simp_all <;> omega

variable {start : Nat}
variable {rest : Bytes}

theorem settled_prefix {scan : Bytes → Boundary}
    (append : ∀ part, scan part ≠ .incomplete → ∀ more, scan (part ++ more) = scan part)
    (bound : ∀ part finish, scan part = .complete finish → finish ≤ start + part.length)
    (whole : ∀ rest, scan (text ++ rest) = .complete (start + text.length)) (shown : part <+: text ++ rest) :
    scan part = if text.length ≤ part.length then .complete (start + text.length) else .incomplete := by
  split
  · next all =>
    obtain ⟨more, rfl⟩ : text <+: part := prefix_of_prefix_length_le (prefix_append _ _) shown all
    exact whole more
  · next short =>
    obtain ⟨more, same⟩ := shown
    refine Decidable.byContradiction fun found => ?_
    have later := append part found more
    rw [same, whole] at later
    have most := bound part _ later.symm
    omega

def afterQuote (start : Nat) : Bytes → Boundary
  | [] => .incomplete
  | _ :: rest => stringEnd false (start + 1) rest

theorem afterQuote_append (found : afterQuote start part ≠ .incomplete) (more : Bytes) :
    afterQuote start (part ++ more) = afterQuote start part := by
  cases part with
  | nil => exact absurd rfl found
  | cons first part => exact stringEnd_append found more

theorem afterQuote_bound (found : afterQuote start part = .complete finish) :
    finish ≤ start + part.length := by
  cases part with
  | nil => cases found
  | cons first part =>
    have most := stringEnd_bound found
    rw [length_cons]
    omega

theorem afterQuote_complete (start : Nat) (rest : Bytes) :
    afterQuote start (stringText content ++ rest) = .complete (start + (stringText content).length) := by
  have whole : stringText content ++ rest = quote :: (contentText content ++ quote :: rest) := by simp [stringText]
  have last : ∀ index, stringEnd false index (quote :: rest) = .complete (index + 1) :=
    fun index => by simp [stringEnd, quote, backslash]
  rw [whole, afterQuote, stringEnd_stays, last]
  congr 1
  simp only [stringText, length_cons, length_append, length_nil]
  omega

theorem scalarEnd_text (bytes : ∀ byte ∈ text, isScalarByte byte = true) (start index : Nat) (rest : Bytes) :
    scalarEnd start index (text ++ rest) = scalarEnd start (index + text.length) rest := by
  induction text generalizing index with
  | nil => rfl
  | cons byte text ih =>
    have plain : isSeparator byte = false := by
      have scalar := bytes byte mem_cons_self
      simp only [isScalarByte, Bool.and_eq_true, Bool.not_eq_true'] at scalar
      exact scalar.2
    rw [cons_append, scalarEnd, plain, if_neg Bool.false_ne_true,
      ih fun other member => bytes other (mem_cons_of_mem _ member), length_cons]
    congr 1
    omega

theorem valueEnd_scalar (bytes : ∀ byte ∈ text, isScalarByte byte = true) (filled : text ≠ []) (start : Nat)
    (rest : Bytes) : valueEnd start (text ++ rest) = scalarEnd start (start + text.length) rest := by
  rw [← scalarEnd_text bytes]
  cases text with
  | nil => exact absurd rfl filled
  | cons byte text =>
    have scalar := bytes byte mem_cons_self
    simp only [isScalarByte, Bool.and_eq_true, Bool.not_eq_true'] at scalar
    obtain ⟨quoted, object, array, _, _⟩ := (isInner_iff byte).mp scalar.1
    simp [valueEnd, quoted, object, array]

theorem valueEnd_stream (followed : Followed value rest) (shown : part <+: value.text ++ rest) (start : Nat) :
    valueEnd start part = if needed value ≤ part.length then .complete (start + value.text.length) else .incomplete := by
  cases shape value with
  | @scalar _ text scalar =>
    obtain ⟨same, filled, bytes⟩ := scalarText_bytes scalar
    have size : needed value = text.length + 1 := by simp [needed, scalar, same]
    rw [size, same]
    rw [same] at shown
    rcases Nat.lt_or_ge text.length part.length with longer | within
    · obtain ⟨more, rfl⟩ : text <+: part := prefix_of_prefix_length_le (prefix_append _ _) shown (Nat.le_of_lt longer)
      cases more with
      | nil => simp at longer
      | cons byte more =>
        obtain ⟨others, tail⟩ := (prefix_append_right_inj text).mp shown
        have separates : isSeparator byte = true := followed (by simp [scalar]) byte (by rw [← tail]; rfl)
        have beyond : start + text.length ≠ start := by
          have positive := length_pos_iff.mpr filled
          omega
        rw [valueEnd_scalar bytes filled, scalarEnd, if_pos separates, if_neg beyond, if_pos (by simp)]
    · have inside : part <+: text := prefix_of_prefix_length_le shown (prefix_append _ _) within
      rw [if_neg (by omega)]
      by_cases empty : part = []
      · rw [empty]
        rfl
      · have ended := valueEnd_scalar (fun byte member => bytes byte (inside.mem member)) empty start []
        rw [append_nil] at ended
        rw [ended]
        rfl
  | string content =>
    have size : needed (.string content) = (stringText content).length := by simp [needed, scalarText, Value.text]
    rw [Value.text] at shown ⊢
    rw [size]
    have scan : valueEnd start part = afterQuote start part := by
      cases part with
      | nil => rfl
      | cons first part =>
        obtain ⟨rfl, -⟩ := cons_prefix_cons.mp shown
        rfl
    rw [scan]
    exact settled_prefix (fun part found more => afterQuote_append found more) (fun part finish => afterQuote_bound)
      (afterQuote_complete content start) shown
  | @container _ opens closes inside opening closing passes whole structured =>
    have size : needed value = (opens :: (inside ++ [closes])).length := by simp [needed, structured, whole]
    rw [size, whole]
    rw [whole] at shown
    have scan : valueEnd start part = containerEnd 0 false false start part := by
      cases part with
      | nil => rfl
      | cons first part =>
        obtain ⟨rfl, -⟩ := cons_prefix_cons.mp shown
        simp only [opensContainer, Bool.or_eq_true, beq_iff_eq] at opening
        simp [valueEnd, opening]
    rw [scan]
    exact settled_prefix (fun part found more => containerEnd_append found more) (fun part finish => containerEnd_bound)
      (container_complete opening closing passes start) shown

theorem value_first : ∃ first rest, value.text = first :: rest ∧ isSeparator first = false := by
  cases shape value with
  | @scalar _ text scalar =>
    obtain ⟨same, filled, bytes⟩ := scalarText_bytes scalar
    obtain ⟨first, rest, rfl⟩ := exists_cons_of_ne_nil filled
    have plain := bytes first mem_cons_self
    simp only [isScalarByte, Bool.and_eq_true, Bool.not_eq_true'] at plain
    exact ⟨first, rest, same, plain.2⟩
  | string content => exact ⟨quote, _, by rw [Value.text]; rfl, rfl⟩
  | @container _ opens closes inside opening _ _ whole _ =>
    refine ⟨opens, _, whole, ?_⟩
    simp only [opensContainer, Bool.or_eq_true, beq_iff_eq] at opening
    rcases opening with rfl | rfl <;> rfl

theorem needed_pos : 0 < needed value := by
  obtain ⟨first, rest, whole, _⟩ := value_first value
  rw [needed, whole, length_cons]
  omega

theorem text_le_needed : value.text.length ≤ needed value := Nat.le_add_right _ _

theorem completeJSONValueEnd_stream {front : Bytes} {value : Value} (followed : Followed value rest)
    (shown : part <+: front ++ (value.text ++ rest)) :
    completeJSONValueEnd part front.length =
      if front.length + needed value ≤ part.length then .complete (front.length + value.text.length) else .incomplete := by
  rcases Nat.lt_or_ge front.length part.length with longer | within
  · obtain ⟨tail, rfl⟩ : front <+: part := prefix_of_prefix_length_le (prefix_append _ _) shown (Nat.le_of_lt longer)
    have there := (prefix_append_right_inj front).mp shown
    rw [completeJSONValueEnd, drop_left, valueEnd_stream value followed there, length_append]
    simp only [Nat.add_le_add_iff_left]
  · have positive := needed_pos value
    rw [completeJSONValueEnd, drop_eq_nil_of_le within, if_neg (by omega)]
    rfl

theorem containerEnd_after (found : containerEnd depth inString escaped index part = .complete finish) :
    index < finish := by
  fun_induction containerEnd depth inString escaped index part with
  | case1 => cases found
  | _ => simp_all <;> omega

theorem stringEnd_after (found : stringEnd escaped index part = .complete finish) : index < finish := by
  fun_induction stringEnd escaped index part with
  | case1 => cases found
  | _ => simp_all <;> omega

theorem scalarEnd_after (found : scalarEnd start index part = .complete finish) (begun : start ≤ index) :
    start < finish := by
  fun_induction scalarEnd start index part with
  | case1 => cases found
  | _ => simp_all <;> omega

theorem completeJSONValueEnd_after {value : Bytes} (found : completeJSONValueEnd value start = .complete finish) :
    start < finish ∧ start < value.length := by
  unfold completeJSONValueEnd at found
  have inside : start < value.length := by
    refine Nat.lt_of_not_le fun beyond => ?_
    rw [drop_eq_nil_of_le beyond] at found
    cases found
  refine ⟨?_, inside⟩
  cases rest : value.drop start with
  | nil =>
    rw [rest] at found
    cases found
  | cons first rest' =>
    rw [rest, valueEnd] at found
    split at found
    · exact containerEnd_after found
    · split at found
      · have after := stringEnd_after found
        omega
      · exact scalarEnd_after found (Nat.le_refl _)

end AstrLink.ValueEnds
