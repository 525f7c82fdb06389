import Mathlib.Data.List.Infix
import AstrLink.Normalizing

/-!
Dotenv files, read into entries of one line or, for a quoted value, several. Reading what was written gives
the same entries (`Stands.read`), since an entry reads the same in front of other lines unless it opens a
quote that nothing closes.
-/
namespace AstrLink.EnvFiles
open List
open Option (map_eq_none_iff map_eq_some_iff some.inj)

abbrev Line := List Char

def trimStart (text : Line) : Line := text.dropWhile fun char => Normalizing.isSpace char.toNat

/-- Everything before the name (indentation and `export `) has this length. -/
structure EnvAssignment where
  prefixLen : Nat
  name : Line
  value : Line
deriving DecidableEq

/-- An assignment, or anything else; a quoted value may run over several lines. -/
structure EnvEntry where
  text : Line
  assignment : Option EnvAssignment
deriving DecidableEq

structure EnvFile where
  entries : List EnvEntry
  crlf : Bool

abbrev Invalid := Line × Option Nat

def isNameChar (char : Char) : Bool := char.isAlphanum || char == '_' || char == '.' || char == '-'

def isBlank (char : Char) : Bool := char == ' ' || char == '\t'

def afterExport (body : Line) : Option Line :=
  if "export".toList.isPrefixOf body ∧ (body.drop 6).head?.any isBlank then some (trimStart (body.drop 6)) else none

def afterColon : Line → Option Line
  | ':' :: value => if value.head?.any isBlank then some value else none
  | _ => none

/-- The value after a name, whether `=` or `: ` stands between them. -/
def afterName (rest : Line) : Option Line :=
  match trimStart rest with
  | '=' :: value => some value
  | _ => afterColon rest

/-- Where the name of an assignment line starts, the name and the raw value. -/
def envAssignment (line : Line) : Option (Nat × Line × Line) :=
  let body := (afterExport (trimStart line)).getD (trimStart line)
  let name := body.takeWhile isNameChar
  if name = [] then none
  else (afterName (body.dropWhile isNameChar)).map fun value => (line.length - body.length, name, value)

def closeFrom (quote : Char) (escaped : Bool) : Line → Option Nat
  | [] => none
  | char :: rest =>
    if char = '\\' ∧ escaped = false then (closeFrom quote true rest).map (· + 1)
    else if char = quote ∧ escaped = false then some 0
    else (closeFrom quote false rest).map (· + 1)

def closingQuote (text : Line) (quote : Char) : Option Nat := (closeFrom quote false text.tail).map (· + 1)

/-- The lines joined up to the closing quote, its place and the lines taken. -/
def closeAcross (quote : Char) (joined : Line) : List Line → Option (Line × Nat × Nat)
  | [] => (closingQuote joined quote).map fun stop => (joined, stop, 0)
  | line :: rest =>
    match closingQuote joined quote with
    | some stop => some (joined, stop, 0)
    | none =>
      (closeAcross quote (joined ++ '\n' :: line) rest).map fun (joined, stop, taken) => (joined, stop, taken + 1)

def replaceEscape (letter plain : Char) : Line → Line
  | first :: second :: rest =>
    if first = '\\' ∧ second = letter then plain :: replaceEscape letter plain rest
    else first :: replaceEscape letter plain (second :: rest)
  | rest => rest

def quotedValue (quote : Char) (inner : Line) : Line :=
  if quote = '\x22' then replaceEscape 'r' '\r' (replaceEscape 'n' '\n' inner) else inner

def plainValue (raw : Line) : Line := Normalizing.trimSpace (raw.takeWhile (· ≠ '#'))

def openingQuote (raw : Line) : Option Char :=
  (trimStart raw).head?.filter fun char => char == '\x22' || char == '\x27' || char == '\x60'

def joinLines (lines : List Line) : Line := ['\n'].intercalate lines

def readEntry (line : Line) (rest : List Line) : EnvEntry × Nat :=
  match envAssignment line with
  | none => (⟨line, none⟩, 0)
  | some (prefixLen, name, raw) =>
    let quoted := (openingQuote raw).bind fun quote => (closeAcross quote (trimStart raw) rest).map (quote, ·)
    match quoted with
    | some (quote, joined, stop, taken) =>
      (⟨joinLines (line :: rest.take taken), some ⟨prefixLen, name, quotedValue quote ((joined.take stop).drop 1)⟩⟩, taken)
    -- Never closed: dotenv reads the line as unquoted.
    | none => (⟨line, some ⟨prefixLen, name, plainValue raw⟩⟩, 0)

def spansLines (singleLine : List Line) (entry : EnvEntry) : Option Line :=
  match entry.assignment with
  | some assignment =>
    if '\n' ∈ entry.text ∧ singleLine.any (· == assignment.name) = true then some assignment.name else none
  | none => none

/-- The entries of some lines, of which the first ones may have been taken already. -/
def readEntries (singleLine : List Line) : Nat → Nat → List Line → Except Invalid (List EnvEntry)
  | _, _, [] => .ok []
  | taken + 1, index, _ :: rest => readEntries singleLine taken (index + 1) rest
  | 0, index, line :: rest =>
    let (entry, taken) := readEntry line rest
    match spansLines singleLine entry with
    | some name => .error ("has a value for ".toList ++ name ++ " that spans several lines".toList, some (index + 1))
    | none =>
      match readEntries singleLine taken (index + 1) rest with
      | .error invalid => .error invalid
      | .ok entries => .ok (entry :: entries)

def stripReturn (line : Line) : Line := if line.getLast? = some '\r' then line.dropLast else line

def dropEmptyLast (lines : List Line) : List Line := if lines.getLast? = some [] then lines.dropLast else lines

def textLines (text : Line) : List Line := dropEmptyLast ((text.splitOn '\n').map stripReturn)

def hasCRLF : Line → Bool
  | '\r' :: '\n' :: _ => true
  | _ :: rest => hasCRLF rest
  | [] => false

namespace EnvFile

/-- Values of the `singleLine` names may not span lines. -/
def parse (text : Line) (singleLine : List Line) : Except Invalid EnvFile :=
  match readEntries singleLine 0 0 (textLines text) with
  | .error invalid => .error invalid
  | .ok entries => .ok ⟨entries, hasCRLF text⟩

end EnvFile

def EnvEntry.assigns (name : Line) (entry : EnvEntry) : Bool := entry.assignment.any fun assignment => assignment.name = name

namespace EnvFile

def position (file : EnvFile) (name : Line) : Option Nat :=
  (file.entries.reverse.findIdx? (EnvEntry.assigns name)).map fun back => file.entries.length - 1 - back

def get (file : EnvFile) (name : Line) : Option Line :=
  (file.position name).bind fun index => (file.entries[index]?.bind EnvEntry.assignment).map EnvAssignment.value

def isPlain (char : Char) : Bool := char.isAlphanum || "_-./:@+,~=[]%".toList.contains char

def encode (value : Line) : Except Line Line :=
  if value ≠ [] ∧ value.all isPlain then .ok value
  else if ¬(value.any fun char => char == '\x22' || char == '\\' || char == '\n') then .ok ('\x22' :: value ++ ['\x22'])
  else if ¬(value.any fun char => char == '\x27' || char == '\n') then .ok ('\x27' :: value ++ ['\x27'])
  else .error "has a value that cannot be written to .env".toList

/-- Rewrites the last line of the name and drops earlier ones; a new name goes at the end. -/
def set (file : EnvFile) (name value : Line) : Except Line EnvFile :=
  match encode value with
  | .error message => .error message
  | .ok encoded =>
    match file.position name with
    | none =>
      let entry := { text := name ++ '=' :: encoded, assignment := some { prefixLen := 0, name, value } }
      .ok { file with entries := file.entries ++ [entry] }
    | some index =>
      let entry := file.entries.getD index ⟨[], none⟩
      let prefixLen := (entry.assignment.map EnvAssignment.prefixLen).getD 0
      let entry : EnvEntry :=
        { text := entry.text.take prefixLen ++ name ++ '=' :: encoded, assignment := some { prefixLen, name, value } }
      .ok { file with
        entries := (file.entries.take index).filter (fun entry => !entry.assigns name) ++
          entry :: file.entries.drop (index + 1) }

def remove (file : EnvFile) (name : Line) : EnvFile :=
  { file with entries := file.entries.filter fun entry => !entry.assigns name }

def render (file : EnvFile) : Line :=
  if file.entries = [] then []
  else
    let text := joinLines (file.entries.map EnvEntry.text) ++ ['\n']
    if file.crlf then text.flatMap fun char => if char = '\n' then ['\r', '\n'] else [char] else text

end EnvFile

/-! ### An entry in front of other lines -/

theorem feed_not_mem_splitOn (text : Line) : ∀ line ∈ text.splitOn '\n', '\n' ∉ line := by
  induction text with
  | nil => simp [splitOn_nil]
  | cons char rest ih =>
    obtain ⟨first, others, split⟩ := exists_cons_of_ne_nil (splitOn_ne_nil '\n' rest)
    rw [split] at ih
    rw [splitOn_cons_eq_if_modifyHead, split, modifyHead_cons]
    intro line listed
    split at listed
    · rcases mem_cons.mp listed with rfl | listed
      · exact not_mem_nil
      · exact ih line listed
    · rename_i other
      rcases mem_cons.mp listed with rfl | listed
      · rw [mem_cons, not_or]
        exact ⟨fun same => other (by rw [← same]; rfl), ih first mem_cons_self⟩
      · exact ih line (mem_cons_of_mem first listed)

namespace EnvEntry

def lines (entry : EnvEntry) : List Line := entry.text.splitOn '\n'

end EnvEntry

variable {line : Line} {more : List Line}

theorem lines_joined (plain : ∀ part ∈ line :: more, '\n' ∉ part) :
    (joinLines (line :: more)).splitOn '\n' = line :: more :=
  splitOn_intercalate '\n' plain (cons_ne_nil line more)

variable {quote : Char}

variable {text : Line}

theorem closeFrom_lt {escaped : Bool} {place : Nat} (closes : closeFrom quote escaped text = some place) :
    place < text.length := by
  induction text generalizing escaped place with
  | nil => cases closes
  | cons char rest ih =>
    rw [length_cons]
    unfold closeFrom at closes
    split at closes
    · obtain ⟨inner, found, rfl⟩ := map_eq_some_iff.mp closes
      exact Nat.succ_lt_succ (ih found)
    · split at closes
      · cases closes
        exact Nat.succ_pos _
      · obtain ⟨inner, found, rfl⟩ := map_eq_some_iff.mp closes
        exact Nat.succ_lt_succ (ih found)

theorem closeFrom_feed (other : quote ≠ '\n') {escaped : Bool} {front : Line} (back : Line)
    (opens : closeFrom quote escaped front = none) :
    closeFrom quote escaped (front ++ '\n' :: back) =
      (closeFrom quote false back).map (· + (front.length + 1)) := by
  induction front generalizing escaped with
  | nil =>
    rw [nil_append, closeFrom, if_neg (fun contra => absurd contra.1 (by decide)),
      if_neg (fun contra => other contra.1.symm)]
    rfl
  | cons char front ih =>
    rw [cons_append, closeFrom, length_cons]
    unfold closeFrom at opens
    split at opens
    · rename_i escapes
      rw [if_pos escapes, ih (map_eq_none_iff.mp opens), Option.map_map]
      rfl
    · rename_i plain
      rw [if_neg plain]
      split at opens
      · cases opens
      · rename_i still
        rw [if_neg still, ih (map_eq_none_iff.mp opens), Option.map_map]
        rfl

variable {joined : Line}

theorem closingQuote_feed (other : quote ≠ '\n') (some_char : joined ≠ []) (line : Line)
    (opens : closingQuote joined quote = none) :
    closingQuote (joined ++ '\n' :: line) quote = none ↔ closeFrom quote false line = none := by
  rw [closingQuote, tail_append_of_ne_nil some_char, closeFrom_feed other line (map_eq_none_iff.mp opens),
    map_eq_none_iff, map_eq_none_iff]

variable {stop : Nat}

theorem closeAcross_now (closes : closingQuote joined quote = some stop) (rest : List Line) :
    closeAcross quote joined rest = some (joined, stop, 0) := by
  cases rest with
  | nil => rw [closeAcross, closes]; rfl
  | cons line rest => rw [closeAcross, closes]

variable {rest : List Line}

theorem closeAcross_none (other : quote ≠ '\n') (some_char : joined ≠ []) :
    closeAcross quote joined rest = none ↔
      closingQuote joined quote = none ∧ ∀ line ∈ rest, closeFrom quote false line = none := by
  induction rest generalizing joined with
  | nil => simp [closeAcross]
  | cons line rest ih =>
    rw [closeAcross]
    cases closes : closingQuote joined quote with
    | some stop => simp
    | none =>
      dsimp only
      rw [map_eq_none_iff, ih (append_ne_nil_of_left_ne_nil some_char _),
        closingQuote_feed other some_char line closes, forall_mem_cons]
      simp

variable {taken : Nat}

theorem closeAcross_some {closed : Line}
    (closes : closeAcross quote joined (more ++ rest) = some (closed, stop, taken)) (within : taken ≤ more.length)
    (other : List Line) : closeAcross quote joined (more ++ other) = some (closed, stop, taken) := by
  induction more generalizing joined taken with
  | nil =>
    have none_taken := Nat.le_zero.mp within
    subst none_taken
    rw [nil_append] at closes ⊢
    cases now : closingQuote joined quote with
    | some place =>
      rw [closeAcross_now now] at closes ⊢
      exact closes
    | none =>
      cases rest with
      | nil =>
        rw [closeAcross, now] at closes
        cases closes
      | cons line rest =>
        rw [closeAcross, now] at closes
        obtain ⟨⟨_, _, _⟩, -, same⟩ := map_eq_some_iff.mp closes
        cases same
  | cons line more ih =>
    rw [cons_append, closeAcross] at closes ⊢
    cases now : closingQuote joined quote with
    | some place =>
      rw [now] at closes
      exact closes
    | none =>
      rw [now] at closes
      obtain ⟨⟨text, place, count⟩, found, same⟩ := map_eq_some_iff.mp closes
      simp only [Prod.mk.injEq] at same
      obtain ⟨rfl, rfl, rfl⟩ := same
      dsimp only
      rw [ih found (Nat.le_of_succ_le_succ within)]
      rfl

theorem closeAcross_taken {closed : Line} (closes : closeAcross quote joined rest = some (closed, stop, taken)) :
    taken ≤ rest.length := by
  induction rest generalizing joined closed stop taken with
  | nil =>
    obtain ⟨_, -, same⟩ := map_eq_some_iff.mp closes
    simp only [Prod.mk.injEq] at same
    omega
  | cons line rest ih =>
    rw [closeAcross] at closes
    rw [length_cons]
    cases now : closingQuote joined quote with
    | some place =>
      rw [now] at closes
      simp only [Option.some.injEq, Prod.mk.injEq] at closes
      omega
    | none =>
      rw [now] at closes
      obtain ⟨⟨text, place, count⟩, found, same⟩ := map_eq_some_iff.mp closes
      simp only [Prod.mk.injEq] at same
      have bound := ih found
      omega

variable {raw : Line}

theorem openingQuote_some (opens : openingQuote raw = some quote) :
    quote ≠ '\n' ∧ quote ≠ '\r' ∧ trimStart raw ≠ [] := by
  obtain ⟨head, quoted⟩ := Option.filter_eq_some_iff.mp opens
  refine ⟨?_, ?_, ?_⟩
  · rintro rfl
    exact absurd quoted (by decide)
  · rintro rfl
    exact absurd quoted (by decide)
  · intro empty
    rw [empty] at head
    cases head

/-- The entry is read so from its own lines and those that follow. -/
def Reads (entry : EnvEntry) (rest : List Line) : Prop :=
  ∃ first more, entry.lines = first :: more ∧ readEntry first (more ++ rest) = (entry, more.length)

namespace EnvEntry

/-- The quote that an entry opens and does not close. -/
def opens (entry : EnvEntry) : Option Char :=
  match entry.lines with
  | [] => none
  | first :: more =>
    match envAssignment first with
    | none => none
    | some (_, _, raw) => (openingQuote raw).filter fun quote => (closeAcross quote (trimStart raw) more).isNone

end EnvEntry

def Undisturbed (entry : EnvEntry) (rest : List Line) : Prop :=
  ∀ quote, entry.opens = some quote → ∀ line ∈ rest, closeFrom quote false line = none

theorem readEntry_none (other : envAssignment line = none) (rest : List Line) :
    readEntry line rest = (⟨line, none⟩, 0) := by
  rw [readEntry, other]

variable {prefixLen : Nat}

theorem readEntry_plain {name : Line} (assigns : envAssignment line = some (prefixLen, name, raw))
    (plain : ∀ quote, openingQuote raw = some quote → closeAcross quote (trimStart raw) rest = none) :
    readEntry line rest = (⟨line, some ⟨prefixLen, name, plainValue raw⟩⟩, 0) := by
  have unquoted : ((openingQuote raw).bind fun quote => (closeAcross quote (trimStart raw) rest).map (quote, ·)) = none := by
    cases opens : openingQuote raw with
    | none => rfl
    | some quote => rw [Option.bind_some, plain quote opens, Option.map_none]
  rw [readEntry, assigns]
  dsimp only
  rw [unquoted]

theorem readEntry_quoted {name : Line} (assigns : envAssignment line = some (prefixLen, name, raw))
    (opens : openingQuote raw = some quote)
    (closes : closeAcross quote (trimStart raw) rest = some (joined, stop, taken)) :
    readEntry line rest =
      (⟨joinLines (line :: rest.take taken), some ⟨prefixLen, name, quotedValue quote ((joined.take stop).drop 1)⟩⟩,
        taken) := by
  have quoted : ((openingQuote raw).bind fun quote => (closeAcross quote (trimStart raw) rest).map (quote, ·)) =
      some (quote, joined, stop, taken) := by
    rw [opens, Option.bind_some, closes, Option.map_some]
  rw [readEntry, assigns]
  dsimp only
  rw [quoted]

theorem readEntry_cases (line : Line) (rest : List Line) :
    (envAssignment line = none ∧ readEntry line rest = (⟨line, none⟩, 0)) ∨
      ∃ prefixLen name raw, envAssignment line = some (prefixLen, name, raw) ∧
        ((openingQuote raw = none ∧ readEntry line rest = (⟨line, some ⟨prefixLen, name, plainValue raw⟩⟩, 0)) ∨
          ∃ quote, openingQuote raw = some quote ∧
            ((closeAcross quote (trimStart raw) rest = none ∧
                readEntry line rest = (⟨line, some ⟨prefixLen, name, plainValue raw⟩⟩, 0)) ∨
              ∃ joined stop taken, closeAcross quote (trimStart raw) rest = some (joined, stop, taken) ∧
                readEntry line rest =
                  (⟨joinLines (line :: rest.take taken),
                    some ⟨prefixLen, name, quotedValue quote ((joined.take stop).drop 1)⟩⟩, taken))) := by
  cases assigns : envAssignment line with
  | none => exact .inl ⟨rfl, readEntry_none assigns rest⟩
  | some found =>
    obtain ⟨prefixLen, name, raw⟩ := found
    refine .inr ⟨prefixLen, name, raw, rfl, ?_⟩
    cases opens : openingQuote raw with
    | none => exact .inl ⟨rfl, readEntry_plain assigns fun quote contra => by rw [opens] at contra; cases contra⟩
    | some quote =>
      refine .inr ⟨quote, rfl, ?_⟩
      cases closes : closeAcross quote (trimStart raw) rest with
      | none =>
        refine .inl ⟨rfl, readEntry_plain assigns ?_⟩
        intro other same
        rw [← some.inj (opens.symm.trans same)]
        exact closes
      | some found =>
        obtain ⟨joined, stop, taken⟩ := found
        exact .inr ⟨joined, stop, taken, rfl, readEntry_quoted assigns opens closes⟩

variable {entry : EnvEntry}

theorem opens_eq {first name : Line} (split : entry.lines = first :: more)
    (assigns : envAssignment first = some (prefixLen, name, raw)) :
    entry.opens = (openingQuote raw).filter fun quote => (closeAcross quote (trimStart raw) more).isNone := by
  rw [EnvEntry.opens, split]
  dsimp only
  rw [assigns]

theorem Reads.before {other : List Line} (reads : Reads entry rest) (quiet : Undisturbed entry other) :
    Reads entry other := by
  obtain ⟨first, more, split, read⟩ := reads
  refine ⟨first, more, split, ?_⟩
  rcases readEntry_cases first (more ++ rest) with ⟨free, found⟩ | ⟨prefixLen, name, raw, assigns, kinds⟩
  · rw [read] at found
    rw [readEntry_none free, ← found]
  · rcases kinds with ⟨opens, found⟩ | ⟨quote, opens, ⟨never, found⟩ | ⟨joined, stop, taken, closes, found⟩⟩
    · rw [read] at found
      rw [readEntry_plain assigns (fun quote contra => by rw [opens] at contra; cases contra), ← found]
    · obtain ⟨apart, -, some_char⟩ := openingQuote_some opens
      rw [read] at found
      have none_more := eq_nil_of_length_eq_zero (Prod.mk.inj found).2
      rw [none_more] at split never ⊢
      obtain ⟨open_here, -⟩ := (closeAcross_none apart some_char).mp never
      have still : closeAcross quote (trimStart raw) other = none := by
        refine (closeAcross_none apart some_char).mpr ⟨open_here, quiet quote ?_⟩
        rw [opens_eq split assigns, opens, Option.filter_eq_some_iff]
        refine ⟨rfl, ?_⟩
        rw [closeAcross, open_here]
        rfl
      rw [nil_append, readEntry_plain assigns, ← found, none_more]
      intro another same
      rw [← some.inj (opens.symm.trans same)]
      exact still
    · rw [read] at found
      have count := (Prod.mk.inj found).2
      have again := closeAcross_some closes (Nat.le_of_eq count.symm) other
      rw [readEntry_quoted assigns opens again, found, ← count, take_left, take_left]

theorem Reads.undisturbed (reads : Reads entry rest) : Undisturbed entry rest := by
  obtain ⟨first, more, split, read⟩ := reads
  intro quote opened
  rcases readEntry_cases first (more ++ rest) with ⟨free, found⟩ | ⟨prefixLen, name, raw, assigns, kinds⟩
  · rw [EnvEntry.opens, split] at opened
    dsimp only at opened
    rw [free] at opened
    cases opened
  · rw [opens_eq split assigns] at opened
    obtain ⟨same, open_here⟩ := Option.filter_eq_some_iff.mp opened
    rw [same] at kinds
    rcases kinds with ⟨contra, -⟩ | ⟨other, equal, ⟨never, found⟩ | ⟨joined, stop, taken, closes, found⟩⟩
    · cases contra
    · cases equal
      obtain ⟨apart, -, some_char⟩ := openingQuote_some same
      intro line listed
      exact ((closeAcross_none apart some_char).mp never).2 line (mem_append_right more listed)
    · cases equal
      rw [read] at found
      have again := closeAcross_some closes (Nat.le_of_eq (Prod.mk.inj found).2.symm) []
      rw [append_nil] at again
      rw [again] at open_here
      cases open_here

theorem readEntry_lines (plain : ∀ part ∈ line :: rest, '\n' ∉ part) (read : readEntry line rest = (entry, taken)) :
    taken ≤ rest.length ∧ entry.lines = line :: rest.take taken := by
  have alone : line.splitOn '\n' = [line] := splitOn_eq_singleton (plain line mem_cons_self)
  rcases readEntry_cases line rest with ⟨-, found⟩ | ⟨prefixLen, name, raw, -, kinds⟩
  · rw [read] at found
    cases found
    exact ⟨Nat.zero_le _, alone⟩
  · rcases kinds with ⟨-, found⟩ | ⟨quote, -, ⟨-, found⟩ | ⟨joined, stop, count, closes, found⟩⟩
    · rw [read] at found
      cases found
      exact ⟨Nat.zero_le _, alone⟩
    · rw [read] at found
      cases found
      exact ⟨Nat.zero_le _, alone⟩
    · rw [read] at found
      cases found
      refine ⟨closeAcross_taken closes, lines_joined ?_⟩
      intro part listed
      rcases mem_cons.mp listed with rfl | listed
      · exact plain part mem_cons_self
      · exact plain part (mem_cons_of_mem line (mem_of_mem_take listed))

theorem readEntries_taken (singleLine : List Line) {front : List Line} (same : front.length = taken) (index : Nat)
    (rest : List Line) :
    readEntries singleLine taken index (front ++ rest) = readEntries singleLine 0 (index + taken) rest := by
  induction taken generalizing front index with
  | zero => rw [eq_nil_of_length_eq_zero same]; rfl
  | succ taken ih =>
    cases front with
    | nil => cases same
    | cons line front =>
      rw [cons_append, readEntries, ih (Nat.succ.inj same)]
      congr 1
      omega

/-- Entries that read as they are, none of which closes an earlier quote. -/
structure Stands (singleLine : List Line) (entries : List EnvEntry) : Prop where
  each : ∀ entry ∈ entries, Reads entry [] ∧ spansLines singleLine entry = none
  apart : entries.Pairwise fun entry later => Undisturbed entry later.lines

theorem undisturbed_all {entries : List EnvEntry} :
    Undisturbed entry (entries.flatMap EnvEntry.lines) ↔ ∀ later ∈ entries, Undisturbed entry later.lines := by
  constructor
  · intro quiet later listed quote opened line inside
    exact quiet quote opened line (mem_flatMap_of_mem listed inside)
  · intro quiet quote opened line inside
    obtain ⟨later, listed, within⟩ := mem_flatMap.mp inside
    exact quiet later listed quote opened line within

theorem readEntries_stands {singleLine : List Line} (bound : Nat) :
    ∀ {lines : List Line} {index : Nat} {entries : List EnvEntry}, lines.length ≤ bound → (∀ line ∈ lines, '\n' ∉ line) →
      readEntries singleLine 0 index lines = .ok entries →
      lines = entries.flatMap EnvEntry.lines ∧ Stands singleLine entries := by
  induction bound with
  | zero =>
    intro lines index entries short plain read
    rw [eq_nil_of_length_eq_zero (Nat.le_zero.mp short)] at read ⊢
    cases read
    exact ⟨rfl, nofun, .nil⟩
  | succ bound ih =>
    intro lines index entries short plain read
    cases lines with
    | nil =>
      cases read
      exact ⟨rfl, nofun, .nil⟩
    | cons line rest =>
      rw [length_cons] at short
      obtain ⟨entry, taken, found⟩ : ∃ entry taken, readEntry line rest = (entry, taken) := ⟨_, _, rfl⟩
      obtain ⟨within, split⟩ := readEntry_lines plain found
      rw [readEntries, found] at read
      dsimp only at read
      cases spans : spansLines singleLine entry with
      | some name => rw [spans] at read; cases read
      | none =>
        have skip := readEntries_taken singleLine (length_take_of_le within) (index + 1) (rest.drop taken)
        rw [take_append_drop] at skip
        rw [spans, skip] at read
        dsimp only at read
        cases later : readEntries singleLine 0 (index + 1 + taken) (rest.drop taken) with
        | error invalid => rw [later] at read; cases read
        | ok others =>
          rw [later] at read
          cases read
          have shorter : (rest.drop taken).length ≤ bound := by rw [length_drop]; omega
          obtain ⟨same, stands⟩ := ih shorter (fun part listed =>
            plain part (mem_cons_of_mem line (mem_of_mem_drop listed))) later
          have reads : Reads entry (rest.drop taken) :=
            ⟨line, rest.take taken, split, by rw [take_append_drop, found, length_take_of_le within]⟩
          have quiet := reads.undisturbed
          rw [same] at quiet
          refine ⟨?_, ?_, pairwise_cons.mpr ⟨undisturbed_all.mp quiet, stands.apart⟩⟩
          · rw [flatMap_cons, split, ← same, cons_append, take_append_drop]
          · intro other listed
            rcases mem_cons.mp listed with rfl | listed
            · exact ⟨reads.before (by intro _ _ _ contra; cases contra), spans⟩
            · exact stands.each other listed

theorem Stands.read {singleLine : List Line} {entries : List EnvEntry} (stands : Stands singleLine entries) (index : Nat) :
    readEntries singleLine 0 index (entries.flatMap EnvEntry.lines) = .ok entries := by
  induction entries generalizing index with
  | nil => rfl
  | cons entry entries ih =>
    obtain ⟨each, apart⟩ := stands
    obtain ⟨quiet, others⟩ := pairwise_cons.mp apart
    obtain ⟨alone, spans⟩ := each entry mem_cons_self
    obtain ⟨first, more, split, read⟩ := alone.before (undisturbed_all.mpr quiet)
    have rest := ih ⟨fun other listed => each other (mem_cons_of_mem entry listed), others⟩ (index + 1 + more.length)
    rw [flatMap_cons, split, cons_append, readEntries, read]
    dsimp only
    rw [spans, readEntries_taken singleLine rfl, rest]

/-! ### Lines and their endings -/

def ending (crlf : Bool) : Line := if crlf then ['\r', '\n'] else ['\n']

/-- Lines, every one of which ends alike. -/
def written (crlf : Bool) (lines : List Line) : Line := lines.flatMap (· ++ ending crlf)

theorem joinLines_feed {lines : List Line} (some_line : lines ≠ []) :
    joinLines lines ++ ['\n'] = lines.flatMap (· ++ ['\n']) := by
  induction lines with
  | nil => exact absurd rfl some_line
  | cons line rest ih =>
    cases rest with
    | nil => simp [joinLines]
    | cons next rest =>
      rw [joinLines, intercalate_cons_cons, List.append_assoc, List.append_assoc, flatMap_cons,
        ← ih (cons_ne_nil next rest), List.append_assoc]
      rfl

theorem joinLines_lines (entry : EnvEntry) : joinLines entry.lines = entry.text := intercalate_splitOn '\n'

theorem lines_some (entry : EnvEntry) : entry.lines ≠ [] := splitOn_ne_nil '\n' entry.text

theorem lines_plain (entry : EnvEntry) : ∀ line ∈ entry.lines, '\n' ∉ line := feed_not_mem_splitOn entry.text

theorem flatMap_lines_plain (entries : List EnvEntry) : ∀ line ∈ entries.flatMap EnvEntry.lines, '\n' ∉ line := by
  intro line listed
  obtain ⟨entry, -, inside⟩ := mem_flatMap.mp listed
  exact lines_plain entry line inside

theorem render_written (file : EnvFile) : file.render = written file.crlf (file.entries.flatMap EnvEntry.lines) := by
  have plain := flatMap_lines_plain file.entries
  have texts : ∀ entries : List EnvEntry, (entries.map EnvEntry.text).flatMap (· ++ ['\n']) =
      (entries.flatMap EnvEntry.lines).flatMap (· ++ ['\n']) := by
    intro entries
    induction entries with
    | nil => rfl
    | cons entry entries ih =>
      rw [map_cons, flatMap_cons, flatMap_cons, flatMap_append, ih, ← joinLines_feed (lines_some entry),
        joinLines_lines]
  have ended : ∀ lines : List Line, (∀ line ∈ lines, '\n' ∉ line) →
      (lines.flatMap (· ++ ['\n'])).flatMap (fun char => if char = '\n' then ['\r', '\n'] else [char]) =
        lines.flatMap (· ++ ['\r', '\n']) := by
    intro lines plain
    induction lines with
    | nil => rfl
    | cons line lines ih =>
      obtain ⟨first, others⟩ := forall_mem_cons.mp plain
      have kept : line.flatMap (fun char => if char = '\n' then ['\r', '\n'] else [char]) = line := by
        clear ih plain
        induction line with
        | nil => rfl
        | cons char line ih =>
          rw [mem_cons, not_or] at first
          rw [flatMap_cons, if_neg (fun same => first.1 same.symm), ih first.2]
          rfl
      rw [flatMap_cons, flatMap_append, flatMap_append, ih others, kept]
      rfl
  rw [EnvFile.render, written, ending]
  by_cases empty : file.entries = []
  · rw [if_pos empty, empty]
    rfl
  · have some_text : file.entries.map EnvEntry.text ≠ [] := fun contra => empty (map_eq_nil_iff.mp contra)
    rw [if_neg empty, joinLines_feed some_text, texts]
    dsimp only
    cases file.crlf with
    | true =>
      rw [if_pos rfl, if_pos rfl]
      exact ended _ plain
    | false => rw [if_neg Bool.false_ne_true, if_neg Bool.false_ne_true]

theorem textLines_written (crlf : Bool) {lines : List Line} (plain : ∀ line ∈ lines, '\n' ∉ line) :
    textLines (written crlf lines) = if crlf then lines else lines.map stripReturn := by
  have split : ∀ lines : List Line, (∀ line ∈ lines, '\n' ∉ line) →
      (lines.flatMap (· ++ ['\n'])).splitOn '\n' = lines ++ [[]] := by
    intro lines plain
    induction lines with
    | nil => rfl
    | cons line lines ih =>
      obtain ⟨first, others⟩ := forall_mem_cons.mp plain
      rw [flatMap_cons, List.append_assoc, singleton_append, splitOn_append_cons_self_of_not_mem first,
        ih others]
      rfl
  have dropped : ∀ lines : List Line, dropEmptyLast (lines ++ [[]]) = lines := by
    intro lines
    rw [dropEmptyLast, if_pos getLast?_concat, dropLast_concat]
  cases crlf with
  | true =>
    have returned : written true lines = (lines.map (· ++ ['\r'])).flatMap (· ++ ['\n']) := by
      rw [written, flatMap_map]
      simp [ending]
    have kept : (lines.map (· ++ ['\r'])).map stripReturn = lines := by
      rw [map_map]
      refine (map_congr_left fun line _ => ?_).trans (map_id lines)
      simp [stripReturn]
    rw [textLines, returned, split _ (by simpa using plain), map_append, kept]
    exact dropped lines
  | false =>
    rw [textLines, written]
    simp only [ending, Bool.false_eq_true, if_false]
    rw [split _ plain, map_append]
    exact dropped _

theorem hasCRLF_iff : hasCRLF text = true ↔ ['\r', '\n'] <:+: text := by
  induction text using hasCRLF.induct with
  | case1 rest => exact ⟨fun _ => ⟨[], rest, rfl⟩, fun _ => rfl⟩
  | case2 char rest other ih =>
    rw [hasCRLF, ih, infix_cons_iff]
    · constructor
      · exact .inr
      · rintro (begins | inside)
        · obtain ⟨more, same⟩ := begins
          obtain ⟨rfl, tail⟩ := List.cons.inj same
          exact (other more rfl tail.symm).elim
        · exact inside
    · exact other
  | case3 => simp [hasCRLF]

/-- No line that another one follows ends in a return. -/
def Unreturned (lines : List Line) : Prop :=
  ∀ front line next back, lines = front ++ line :: next :: back → line.getLast? ≠ some '\r'

theorem unreturned_split {lines : List Line} (plain : hasCRLF (joinLines lines) = false) : Unreturned lines := by
  rintro front line next back rfl returned
  obtain ⟨base, rfl⟩ := getLast?_eq_some_iff.mp returned
  have joined : ∀ front : List Line, ∃ before, joinLines (front ++ (base ++ ['\r']) :: next :: back) =
      before ++ joinLines ((base ++ ['\r']) :: next :: back) := by
    intro front
    induction front with
    | nil => exact ⟨[], rfl⟩
    | cons other front ih =>
      obtain ⟨before, same⟩ := ih
      refine ⟨other ++ '\n' :: before, ?_⟩
      rw [cons_append, joinLines, intercalate_cons_of_ne_nil (by simp)]
      rw [joinLines] at same
      rw [same]
      simp [joinLines]
  obtain ⟨before, same⟩ := joined front
  have found : hasCRLF (joinLines (front ++ (base ++ ['\r']) :: next :: back)) = true := by
    rw [hasCRLF_iff, same, joinLines, intercalate_cons_cons]
    exact ⟨before ++ base, joinLines (next :: back), by simp [joinLines]⟩
  rw [found] at plain
  cases plain

theorem stripReturn_cases (line : Line) :
    (line.getLast? ≠ some '\r' ∧ stripReturn line = line) ∨ ∃ base, line = base ++ ['\r'] ∧ stripReturn line = base := by
  unfold stripReturn
  by_cases returned : line.getLast? = some '\r'
  · obtain ⟨base, rfl⟩ := getLast?_eq_some_iff.mp returned
    exact .inr ⟨base, rfl, by rw [if_pos returned, dropLast_concat]⟩
  · exact .inl ⟨returned, if_neg returned⟩

theorem unreturned_textLines (plain : hasCRLF text = false) : Unreturned (textLines text) := by
  have parts : Unreturned (text.splitOn '\n') := unreturned_split (by rw [joinLines, intercalate_splitOn]; exact plain)
  have stripped : Unreturned ((text.splitOn '\n').map stripReturn) := by
    intro front line next back split
    obtain ⟨first, rest, same, -, tail⟩ := map_eq_append_iff.mp split
    obtain ⟨line', rest', rfl, kept, tail⟩ := map_eq_cons_iff.mp tail
    obtain ⟨next', back', rfl, -, -⟩ := map_eq_cons_iff.mp tail
    have plain := parts first line' next' back' same
    rcases stripReturn_cases line' with ⟨-, whole⟩ | ⟨base, rfl, -⟩
    · rw [← kept, whole]
      exact plain
    · exact absurd getLast?_concat plain
  unfold textLines dropEmptyLast
  split
  · intro front line next back split
    rename_i empty
    obtain ⟨before, ends⟩ := getLast?_eq_some_iff.mp empty
    rw [ends, dropLast_concat] at split
    exact stripped front line next (back ++ [[]]) (by rw [ends, split]; simp)
  · exact stripped

/-- Every line ends like the first one that shows how. -/
def EndsAlike (text : Line) : Prop :=
  ∃ lines : List Line, (∀ line ∈ lines, '\n' ∉ line) ∧ text = written (hasCRLF text) lines

theorem EndsAlike.written (alike : EndsAlike text) : text = written (hasCRLF text) (textLines text) := by
  obtain ⟨lines, plain, same⟩ := alike
  have kept : (if hasCRLF text then lines else lines.map stripReturn) = lines := by
    cases crlf : hasCRLF text with
    | true => rfl
    | false =>
      rw [if_neg Bool.false_ne_true]
      refine (map_congr_left fun line listed => ?_).trans (map_id lines)
      rcases stripReturn_cases line with ⟨-, whole⟩ | ⟨base, rfl, -⟩
      · exact whole
      · obtain ⟨front, back, rfl⟩ := append_of_mem listed
        have found : hasCRLF text = true := by
          rw [hasCRLF_iff, same, crlf, EnvFiles.written, flatMap_append, flatMap_cons]
          exact ⟨front.flatMap (· ++ ending false) ++ base, back.flatMap (· ++ ending false), by simp [ending]⟩
        rw [found] at crlf
        cases crlf
  have read := textLines_written (hasCRLF text) plain
  rw [← same, kept] at read
  rw [read]
  exact same

end AstrLink.EnvFiles
