/-!
The syntax of JSON as trees with all their white space: a value is its tree, and
its text is what the tree spells. A text is valid when some tree spells it.
-/
namespace AstrLink.JsonSyntax
open List

abbrev Bytes := List UInt8

def quote : UInt8 := 0x22
def comma : UInt8 := 0x2C
def colon : UInt8 := 0x3A
def backslash : UInt8 := 0x5C
def openArray : UInt8 := 0x5B
def closeArray : UInt8 := 0x5D
def openObject : UInt8 := 0x7B
def closeObject : UInt8 := 0x7D
def unicodeLetter : UInt8 := 0x75

/-- Space, tab, line feed and carriage return. -/
def isSpace (byte : UInt8) : Bool := byte == 0x20 || byte == 0x09 || byte == 0x0A || byte == 0x0D

def isDigit (byte : UInt8) : Bool := 0x30 ≤ byte && byte ≤ 0x39

def isHex (byte : UInt8) : Bool := isDigit byte || 0x61 ≤ byte && byte ≤ 0x66 || 0x41 ≤ byte && byte ≤ 0x46

/-- The letters that may follow a backslash, the one with four digits apart. -/
def escapeLetters : Bytes := [0x22, 0x5C, 0x2F, 0x62, 0x66, 0x6E, 0x72, 0x74]

structure Blank where
  text : Bytes
  blank : ∀ byte ∈ text, isSpace byte = true

/-- A part of the content of a string. -/
inductive Piece where
  | plain (byte : UInt8) (plain : (0x20 ≤ byte && byte != quote && byte != backslash) = true)
  | escape (letter : UInt8) (known : letter ∈ escapeLetters)
  | unicode (first second third fourth : UInt8) (hex : ([first, second, third, fourth].all isHex) = true)

def Piece.text : Piece → Bytes
  | .plain byte _ => [byte]
  | .escape letter _ => [backslash, letter]
  | .unicode first second third fourth _ => [backslash, unicodeLetter, first, second, third, fourth]

def contentText (content : List Piece) : Bytes := content.flatMap Piece.text

def stringText (content : List Piece) : Bytes := quote :: (contentText content ++ [quote])

structure Exponent where
  letter : UInt8
  sign : Bytes
  digits : Bytes
  letter_valid : letter = 0x65 ∨ letter = 0x45
  sign_valid : sign = [] ∨ sign = [0x2B] ∨ sign = [0x2D]
  digits_valid : digits ≠ [] ∧ ∀ byte ∈ digits, isDigit byte = true

structure Number where
  sign : Bytes
  whole : Bytes
  fraction : Option Bytes
  exponent : Option Exponent
  sign_valid : sign = [] ∨ sign = [0x2D]
  /-- No zero comes before another digit. -/
  whole_valid : whole ≠ [] ∧ (∀ byte ∈ whole, isDigit byte = true) ∧ (whole.head? = some 0x30 → whole = [0x30])
  fraction_valid : ∀ digits ∈ fraction, digits ≠ [] ∧ ∀ byte ∈ digits, isDigit byte = true

def Exponent.text (exponent : Exponent) : Bytes := exponent.letter :: (exponent.sign ++ exponent.digits)

def Number.text (number : Number) : Bytes :=
  number.sign ++ number.whole ++ (number.fraction.elim [] (0x2E :: ·)) ++ (number.exponent.elim [] Exponent.text)

inductive Word where
  | null
  | isTrue
  | isFalse

def Word.text : Word → Bytes
  | .null => [0x6E, 0x75, 0x6C, 0x6C]
  | .isTrue => [0x74, 0x72, 0x75, 0x65]
  | .isFalse => [0x66, 0x61, 0x6C, 0x73, 0x65]

mutual

inductive Value where
  | word (word : Word)
  | number (number : Number)
  | string (content : List Piece)
  | emptyArray (inside : Blank)
  | array (elements : Elements)
  | emptyObject (inside : Blank)
  | object (members : Members)

inductive Elements where
  | last (before : Blank) (value : Value) (after : Blank)
  | cons (before : Blank) (value : Value) (after : Blank) (rest : Elements)

inductive Members where
  | last (before : Blank) (key : List Piece) (afterKey beforeValue : Blank) (value : Value) (after : Blank)
  | cons (before : Blank) (key : List Piece) (afterKey beforeValue : Blank) (value : Value) (after : Blank)
    (rest : Members)

end

/-- A key with its colon and the white space on both sides. -/
def keyText (before : Blank) (key : List Piece) (afterKey beforeValue : Blank) : Bytes :=
  before.text ++ stringText key ++ afterKey.text ++ colon :: beforeValue.text

mutual

def Value.text : Value → Bytes
  | .word word => word.text
  | .number number => number.text
  | .string content => stringText content
  | .emptyArray inside => openArray :: (inside.text ++ [closeArray])
  | .array elements => openArray :: (elements.text ++ [closeArray])
  | .emptyObject inside => openObject :: (inside.text ++ [closeObject])
  | .object members => openObject :: (members.text ++ [closeObject])

def Elements.text : Elements → Bytes
  | .last before value after => before.text ++ value.text ++ after.text
  | .cons before value after rest => before.text ++ value.text ++ after.text ++ comma :: rest.text

def Members.text : Members → Bytes
  | .last before key afterKey beforeValue value after =>
    keyText before key afterKey beforeValue ++ value.text ++ after.text
  | .cons before key afterKey beforeValue value after rest =>
    keyText before key afterKey beforeValue ++ value.text ++ after.text ++ comma :: rest.text

end

structure Document where
  before : Blank
  value : Value
  after : Blank

def Document.text (document : Document) : Bytes := document.before.text ++ document.value.text ++ document.after.text

/-- A byte that some number may hold. -/
def isNumberByte (byte : UInt8) : Bool :=
  isDigit byte || byte == 0x2D || byte == 0x2B || byte == 0x2E || byte == 0x65 || byte == 0x45

theorem isDigit_numberByte {byte : UInt8} (digit : isDigit byte = true) : isNumberByte byte = true := by
  simp [isNumberByte, digit]

theorem Exponent.bytes (exponent : Exponent) : ∀ byte ∈ exponent.text, isNumberByte byte = true := by
  intro byte member
  rcases mem_cons.mp member with rfl | rest
  · rcases exponent.letter_valid with letter | letter <;> rw [letter] <;> rfl
  · rcases mem_append.mp rest with inSign | inDigits
    · rcases exponent.sign_valid with sign | sign | sign <;> rw [sign] at inSign
      · cases inSign
      · rw [mem_singleton.mp inSign]
        rfl
      · rw [mem_singleton.mp inSign]
        rfl
    · exact isDigit_numberByte (exponent.digits_valid.2 byte inDigits)

theorem Number.bytes (number : Number) : ∀ byte ∈ number.text, isNumberByte byte = true := by
  intro byte member
  rw [Number.text, mem_append, mem_append, mem_append] at member
  rcases member with ((inSign | inWhole) | inFraction) | inExponent
  · rcases number.sign_valid with sign | sign <;> rw [sign] at inSign
    · cases inSign
    · rw [mem_singleton.mp inSign]
      rfl
  · exact isDigit_numberByte (number.whole_valid.2.1 byte inWhole)
  · cases found : number.fraction with
    | none =>
      rw [found] at inFraction
      cases inFraction
    | some digits =>
      rw [found] at inFraction
      rcases mem_cons.mp inFraction with rfl | inDigits
      · rfl
      · exact isDigit_numberByte ((number.fraction_valid digits found).2 byte inDigits)
  · cases found : number.exponent with
    | none =>
      rw [found] at inExponent
      cases inExponent
    | some exponent =>
      rw [found] at inExponent
      exact exponent.bytes byte inExponent

theorem Number.first (number : Number) :
    ∃ first rest, number.text = first :: rest ∧ (first = 0x2D ∨ isDigit first = true) := by
  obtain ⟨some_digit, digits, _⟩ := number.whole_valid
  obtain ⟨digit, others, whole⟩ := exists_cons_of_ne_nil some_digit
  rcases number.sign_valid with sign | sign
  · exact ⟨digit, _, by rw [Number.text, sign, whole]; rfl, .inr (digits digit (by rw [whole]; exact mem_cons_self))⟩
  · exact ⟨0x2D, _, by rw [Number.text, sign]; rfl, .inl rfl⟩

/-- A byte that is neither white space nor the start of a string or of a number. -/
def isQuiet (byte : UInt8) : Bool := byte != quote && byte != 0x2D && !isDigit byte

theorem Blank.quiet (blank : Blank) : ∀ byte ∈ blank.text, isQuiet byte = true := by
  intro byte member
  have space := blank.blank byte member
  simp only [isSpace, Bool.or_eq_true, beq_iff_eq] at space
  rcases space with ((rfl | rfl) | rfl) | rfl <;> rfl

theorem Word.quiet (word : Word) : ∀ byte ∈ word.text, isQuiet byte = true := by
  have all : word.text.all isQuiet = true := by cases word <;> rfl
  exact all_eq_true.mp all

theorem Piece.escape_letter {letter : UInt8} (known : letter ∈ escapeLetters) : letter ≠ unicodeLetter := by
  rintro rfl
  revert known
  decide

/-- After a value no colon comes next, and no byte that would go on with a number. -/
structure Follows (rest : Bytes) : Prop where
  no_colon : (rest.dropWhile isSpace).head? ≠ some colon
  no_number : ∀ byte, rest.head? = some byte → isNumberByte byte = false

theorem dropWhile_blank (blank : Blank) (rest : Bytes) :
    (blank.text ++ rest).dropWhile isSpace = rest.dropWhile isSpace :=
  dropWhile_append_of_pos blank.blank

theorem Blank.head_number (blank : Blank) {rest : Bytes} {byte : UInt8} (head : (blank.text ++ rest).head? = some byte)
    (later : rest.head? = some byte → isNumberByte byte = false) : isNumberByte byte = false := by
  cases text : blank.text with
  | nil =>
    rw [text] at head
    exact later head
  | cons first others =>
    rw [text] at head
    have same : first = byte := Option.some.inj head
    have space := blank.blank byte (by rw [text, same]; exact mem_cons_self)
    simp only [isSpace, Bool.or_eq_true, beq_iff_eq] at space
    rcases space with ((rfl | rfl) | rfl) | rfl <;> rfl

theorem Follows.blank (blank : Blank) : Follows blank.text := by
  refine ⟨?no_colon, fun byte head => ?no_number⟩
  case no_colon =>
    have none_left := dropWhile_blank blank []
    rw [append_nil] at none_left
    rw [none_left]
    exact fun contra => by cases contra
  case no_number =>
    refine blank.head_number (by rwa [append_nil]) fun contra => by cases contra

theorem Follows.closed (blank : Blank) {byte : UInt8} (closes : byte ∈ [comma, closeArray, closeObject]) (rest : Bytes) :
    Follows (blank.text ++ byte :: rest) := by
  have facts : isSpace byte = false ∧ byte ≠ colon ∧ isNumberByte byte = false := by
    revert closes
    simp only [mem_cons, not_mem_nil, or_false]
    rintro (rfl | rfl | rfl) <;> decide
  refine ⟨?no_colon, fun found head => ?no_number⟩
  case no_colon =>
    rw [dropWhile_blank, dropWhile_cons, facts.1]
    exact fun contra => facts.2.1 (Option.some.inj contra)
  case no_number =>
    refine blank.head_number head fun here => ?_
    rw [← Option.some.inj here]
    exact facts.2.2

end AstrLink.JsonSyntax
