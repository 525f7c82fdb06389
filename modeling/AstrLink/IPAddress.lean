import Mathlib.Data.List.Basic

/-!
IP addresses as text: reading the dotted form and the form in groups, and
writing groups with the longest run of zeros left out.
-/
namespace AstrLink.IPAddress
open List

abbrev Text := List Char

inductive Address where
  | v4 (octets : List Nat)
  | v6 (groups : List Nat)

def digitValue (char : Char) : Nat := char.toNat - '0'.toNat

def hexValue? (char : Char) : Option Nat :=
  if char.isDigit then some (digitValue char)
  else if 'a' ≤ char ∧ char ≤ 'f' then some (char.toNat - 'a'.toNat + 10)
  else if 'A' ≤ char ∧ char ≤ 'F' then some (char.toNat - 'A'.toNat + 10)
  else none

/-- An octet in decimal, without leading zeros. -/
def parseOctet (text : Text) : Option Nat :=
  let value := text.foldl (fun value char => value * 10 + digitValue char) 0
  if text ≠ [] ∧ text.all Char.isDigit ∧ ¬ (1 < text.length ∧ text.head? = some '0') ∧ value ≤ 255 then some value
  else none

def parseIPv4 (text : Text) : Option (List Nat) :=
  let fields := text.splitOn '.'
  if fields.length = 4 then fields.mapM parseOctet else none

/-- Up to four hexadecimal digits. -/
def parseGroup (text : Text) : Option Nat :=
  if text ≠ [] ∧ text.length ≤ 4 then text.foldlM (fun value char => (hexValue? char).map (value * 16 + ·)) 0 else none

/-- The groups of an address; the last two may be written as octets. -/
def parseGroups : List Text → Option (List Nat)
  | [] => some []
  | [last] =>
    if '.' ∈ last then
      match parseIPv4 last with
      | some [first, second, third, fourth] => some [first * 256 + second, third * 256 + fourth]
      | _ => none
    else (parseGroup last).map ([·])
  | group :: rest => (parseGroup group).bind fun value => (parseGroups rest).map (value :: ·)

/-- The text before and after the first double colon. -/
def ellipsis : Text → Option (Text × Text)
  | ':' :: ':' :: rest => some ([], rest)
  | char :: rest => (ellipsis rest).map fun (before, after) => (char :: before, after)
  | [] => none

def fields (text : Text) : List Text := if text = [] then [] else text.splitOn ':'

def parseIPv6 (text : Text) : Option (List Nat) :=
  match ellipsis text with
  | none => (parseGroups (fields text)).filter (·.length = 8)
  | some (before, after) =>
    (fields before).mapM parseGroup |>.bind fun first =>
      (parseGroups (fields after)).bind fun last =>
        if first.length + last.length < 8 then
          some (first ++ List.replicate (8 - (first.length + last.length)) 0 ++ last)
        else none

/-- An address is dotted when a dot comes before any colon. -/
def parse (text : Text) : Option Address :=
  match text.find? (fun char => char = '.' || char = ':' || char = '%') with
  | some '.' => (parseIPv4 text).map .v4
  | some ':' => (parseIPv6 text).map .v6
  | _ => none

/-- Whether the address has a form of four octets, as it has when it is dotted or mapped. -/
def Address.to4 : Address → Bool
  | .v4 _ => true
  | .v6 groups => groups.take 6 = [0, 0, 0, 0, 0, 0xffff]

def isIPv4 (text : Text) : Bool := (parse text).any Address.to4

/-- A character that no address starts with. -/
structure Foreign (char : Char) : Prop where
  digit : hexValue? char = none
  dot : char ≠ '.'
  colon : char ≠ ':'

variable {char : Char}

theorem splitOn_cons {sep : Char} (apart : char ≠ sep) (rest : Text) :
    ∃ field others, (char :: rest).splitOn sep = (char :: field) :: others := by
  have split := splitOn_cons_eq_if_modifyHead (a := sep) char rest
  have other : (char == sep) = false := by simpa using apart
  rw [other] at split
  cases pieces : rest.splitOn sep with
  | nil => exact absurd pieces (splitOn_ne_nil sep rest)
  | cons field others => exact ⟨field, others, by simpa [pieces] using split⟩

theorem parseIPv4_foreign (foreign : Foreign char) (rest : Text) : parseIPv4 (char :: rest) = none := by
  have other : char.isDigit = false := by
    by_contra digit
    have value : hexValue? char = some (digitValue char) := if_pos (by simpa using digit)
    exact absurd (value.symm.trans foreign.digit) (by simp)
  obtain ⟨field, others, split⟩ := splitOn_cons foreign.dot rest
  simp [parseIPv4, split, parseOctet, other]

theorem parseGroup_foreign (foreign : Foreign char) (rest : Text) : parseGroup (char :: rest) = none := by
  simp [parseGroup, foreign.digit]

theorem parseGroups_foreign (foreign : Foreign char) (field : Text) (others : List Text) :
    parseGroups ((char :: field) :: others) = none := by
  cases others with
  | nil => simp [parseGroups, parseIPv4_foreign foreign, parseGroup_foreign foreign]
  | cons next rest => simp [parseGroups, parseGroup_foreign foreign]

theorem parseIPv6_foreign (foreign : Foreign char) (rest : Text) : parseIPv6 (char :: rest) = none := by
  unfold parseIPv6
  cases found : ellipsis (char :: rest) with
  | none =>
    obtain ⟨field, others, split⟩ := splitOn_cons foreign.colon rest
    simp [fields, split, parseGroups_foreign foreign]
  | some parts =>
    have later : ellipsis (char :: rest) = (ellipsis rest).map fun (before, after) => (char :: before, after) := by
      rw [ellipsis]
      intro next double
      exact absurd double foreign.colon
    rw [later] at found
    obtain ⟨⟨before, after⟩, _, rfl⟩ := Option.map_eq_some_iff.mp found
    obtain ⟨field, others, split⟩ := splitOn_cons foreign.colon before
    simp [fields, split, parseGroup_foreign foreign]

theorem isIPv4_foreign (foreign : Foreign char) (rest : Text) : isIPv4 (char :: rest) = false := by
  unfold isIPv4 parse
  split
  · simp [parseIPv4_foreign foreign]
  · simp [parseIPv6_foreign foreign]
  · rfl

def formatGroup (value : Nat) : Text := Nat.toDigits 16 value

def zeros (groups : List Nat) : Nat := (groups.takeWhile (· = 0)).length

def zeroRun (groups : List Nat) : Nat × Nat :=
  (List.range groups.length).foldl
    (fun best start =>
      let length := zeros (groups.drop start)
      if 2 ≤ length ∧ best.2 < length then (start, length) else best)
    (0, 0)

def joined (groups : List Nat) : Text := (groups.map formatGroup).intersperse [':'] |>.flatten

def formatIPv6 (groups : List Nat) : Text :=
  let (start, length) := zeroRun groups
  if length = 0 then joined groups
  else joined (groups.take start) ++ [':', ':'] ++ joined (groups.drop (start + length))

/-- A character of an address in octets. -/
def Dotted (char : Char) : Prop := char.isDigit = true ∨ char = '.'

instance (char : Char) : Decidable (Dotted char) := inferInstanceAs (Decidable (_ ∨ _))

theorem mem_splitOn (sep : Char) {text : Text} (listed : char ∈ text) :
    char = sep ∨ ∃ field ∈ text.splitOn sep, char ∈ field := by
  induction text with
  | nil => cases listed
  | cons first rest ih =>
    rw [splitOn_cons_eq_if_modifyHead]
    by_cases same : first = sep
    · rcases mem_cons.mp listed with rfl | later
      · exact .inl same
      · refine (ih later).imp_right ?_
        rintro ⟨field, part, inside⟩
        exact ⟨field, by simp [same, part], inside⟩
    · rw [if_neg (by simpa using same)]
      obtain ⟨head, others, split⟩ := exists_cons_of_ne_nil (splitOn_ne_nil sep rest)
      rw [split]
      rcases mem_cons.mp listed with rfl | later
      · exact .inr ⟨char :: head, by simp, mem_cons_self⟩
      · refine (ih later).imp_right ?_
        rintro ⟨field, part, inside⟩
        rw [split] at part
        rcases mem_cons.mp part with rfl | part
        · exact ⟨first :: field, by simp, mem_cons_of_mem _ inside⟩
        · exact ⟨field, by simp [part], inside⟩

theorem mapM_some {α β : Type} {f : α → Option β} {items : List α} {results : List β}
    (mapped : items.mapM f = some results) : ∀ item ∈ items, ∃ result, f item = some result := by
  induction items generalizing results with
  | nil => intro item listed; cases listed
  | cons first rest ih =>
    rw [mapM_cons] at mapped
    obtain ⟨result, found, mapped⟩ := Option.bind_eq_some_iff.mp mapped
    obtain ⟨others, later, _⟩ := Option.bind_eq_some_iff.mp mapped
    intro item listed
    rcases mem_cons.mp listed with rfl | listed
    · exact ⟨result, found⟩
    · exact ih later item listed

theorem parseOctet_digits {text : Text} {value : Nat} (parsed : parseOctet text = some value) :
    ∀ char ∈ text, char.isDigit = true := by
  unfold parseOctet at parsed
  dsimp only at parsed
  split at parsed
  · next shape => exact all_eq_true.mp shape.2.1
  · cases parsed

theorem parseIPv4_dotted {text : Text} {octets : List Nat} (parsed : parseIPv4 text = some octets) :
    text ≠ [] ∧ ∀ char ∈ text, Dotted char := by
  unfold parseIPv4 at parsed
  dsimp only at parsed
  split at parsed
  · next four =>
    constructor
    · rintro rfl
      simp at four
    · intro char listed
      rcases mem_splitOn '.' listed with dot | ⟨field, part, inside⟩
      · exact .inr dot
      · obtain ⟨value, octet⟩ := mapM_some parsed field part
        exact .inl (parseOctet_digits octet char inside)
  · cases parsed

end AstrLink.IPAddress
