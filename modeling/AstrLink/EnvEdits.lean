import Mathlib.Data.List.TakeWhile
import AstrLink.EnvFiles

/-!
Edits of dotenv files. What is written reads back with the new value and the other assignments as they were
(`edits_faithful`). A text that mixes its line endings ends its lines alike afterwards (`endings_changed`).
-/
namespace AstrLink.EnvFiles
open List
open Option (getD_some map_eq_none_iff map_eq_some_iff map_some none_or)
open Prod (mk.inj)

theorem dropWhile_return {holds : Char → Bool} (blank : holds '\r' = true) (text : Line) :
    (text ++ ['\r']).dropWhile holds = if text.dropWhile holds = [] then [] else text.dropWhile holds ++ ['\r'] := by
  induction text with
  | nil => simp [blank]
  | cons char rest ih =>
    rw [cons_append, dropWhile_cons, dropWhile_cons]
    split
    · exact ih
    · rw [if_neg (cons_ne_nil char rest)]
      rfl

variable (text : Line)

theorem trimStart_return :
    trimStart (text ++ ['\r']) = if trimStart text = [] then [] else trimStart text ++ ['\r'] :=
  dropWhile_return (by decide) text

theorem trimSpace_return : Normalizing.trimSpace (text ++ ['\r']) = Normalizing.trimSpace text := by
  unfold Normalizing.trimSpace
  dsimp only
  rw [dropWhile_return (by decide)]
  split
  · rename_i empty
    rw [empty]
  · rw [reverse_append, reverse_singleton, singleton_append, dropWhile_cons, if_pos (by decide)]

theorem plainValue_return (raw : Line) : plainValue (raw ++ ['\r']) = plainValue raw := by
  have taken : ∀ raw : Line, (raw ++ ['\r']).takeWhile (· ≠ '#') = raw.takeWhile (· ≠ '#') ∨
      (raw ++ ['\r']).takeWhile (· ≠ '#') = raw.takeWhile (· ≠ '#') ++ ['\r'] := by
    intro raw
    induction raw with
    | nil => exact .inr rfl
    | cons char raw ih =>
      rw [cons_append, takeWhile_cons, takeWhile_cons]
      split
      · rcases ih with same | same
        · exact .inl (by rw [same])
        · exact .inr (by rw [same]; rfl)
      · exact .inl rfl
  unfold plainValue
  rcases taken raw with same | same
  · rw [same]
  · rw [same, trimSpace_return]

theorem openingQuote_return (raw : Line) : openingQuote (raw ++ ['\r']) = openingQuote raw := by
  unfold openingQuote
  rw [trimStart_return]
  split
  · rename_i empty
    rw [empty]
  · rename_i some_char
    rw [head?_append_of_ne_nil _ some_char]

variable {quote : Char}

theorem closeFrom_return (other : quote ≠ '\r') (escaped : Bool) (text : Line) :
    closeFrom quote escaped (text ++ ['\r']) = closeFrom quote escaped text := by
  induction text generalizing escaped with
  | nil =>
    show closeFrom quote escaped ['\r'] = none
    unfold closeFrom
    rw [if_neg (fun contra => absurd contra.1 (by decide)), if_neg (fun contra => other contra.1.symm)]
    rfl
  | cons char text ih => rw [cons_append, closeFrom, closeFrom, ih, ih]

theorem afterExport_return (body : Line) :
    afterExport (body ++ ['\r']) = (afterExport body).map fun rest => if rest = [] then [] else rest ++ ['\r'] := by
  have begins : "export".toList.isPrefixOf (body ++ ['\r']) = "export".toList.isPrefixOf body := by
    rw [Bool.eq_iff_iff, isPrefixOf_iff_prefix, isPrefixOf_iff_prefix, prefix_concat_iff]
    constructor
    · rintro (whole | inside)
      · have last := congrArg List.getLast? whole
        rw [getLast?_concat] at last
        exact absurd last (by decide)
      · exact inside
    · exact .inr
  unfold afterExport
  rw [begins]
  by_cases starts : "export".toList.isPrefixOf body = true
  · have long := (List.isPrefixOf_iff_prefix.mp starts).length_le
    have rest : (body ++ ['\r']).drop 6 = body.drop 6 ++ ['\r'] := drop_append_of_le_length long
    rw [rest]
    cases body.drop 6 with
    | nil => simp [isBlank]
    | cons char more =>
      by_cases blank : isBlank char = true
      · rw [if_pos ⟨starts, blank⟩, if_pos ⟨starts, blank⟩, trimStart_return]
        rfl
      · rw [if_neg (fun contra => blank contra.2), if_neg (fun contra => blank contra.2)]
        rfl
  · rw [if_neg (fun contra => starts contra.1), if_neg (fun contra => starts contra.1)]
    rfl

theorem afterColon_cons (char : Char) (value : Line) :
    afterColon (char :: value) = if char = ':' ∧ value.head?.any isBlank then some value else none := by
  by_cases colon : char = ':'
  · subst colon
    by_cases blank : value.head?.any isBlank = true
    · rw [afterColon, if_pos blank, if_pos ⟨rfl, blank⟩]
    · rw [afterColon, if_neg blank, if_neg (fun contra => blank contra.2)]
  · rw [if_neg (fun contra => colon contra.1), afterColon]
    intro _ same
    exact colon (List.cons.inj same).1

theorem afterColon_return (rest : Line) : afterColon (rest ++ ['\r']) = (afterColon rest).map (· ++ ['\r']) := by
  cases rest with
  | nil => rfl
  | cons char value =>
    rw [cons_append, afterColon_cons, afterColon_cons]
    have same : (value ++ ['\r']).head?.any isBlank = value.head?.any isBlank := by
      cases value with
      | nil => rfl
      | cons => rfl
    rw [same]
    by_cases colon : char = ':' ∧ value.head?.any isBlank = true
    · rw [if_pos colon, if_pos colon]
      rfl
    · rw [if_neg colon, if_neg colon]
      rfl

variable {value : Line} {char : Char}

theorem afterName_cons {rest : Line} (found : trimStart rest = char :: value) :
    afterName rest = if char = '=' then some value else afterColon rest := by
  unfold afterName
  rw [found]
  by_cases equals : char = '='
  · subst equals
    rfl
  · rw [if_neg equals]
    split
    · rename_i same
      exact absurd (List.cons.inj same).1 equals
    · rfl

theorem afterName_return (rest : Line) : afterName (rest ++ ['\r']) = (afterName rest).map (· ++ ['\r']) := by
  have begins := trimStart_return rest
  cases found : trimStart rest with
  | nil =>
    rw [if_pos found] at begins
    unfold afterName
    rw [begins, found]
    exact afterColon_return rest
  | cons char more =>
    rw [found, if_neg (cons_ne_nil char more), cons_append] at begins
    rw [afterName_cons begins, afterName_cons found]
    by_cases equals : char = '='
    · rw [if_pos equals, if_pos equals]
      rfl
    · rw [if_neg equals, if_neg equals]
      exact afterColon_return rest

theorem takeWhile_stop {holds : Char → Bool} {last : Char} (stops : holds last = false) (text : Line) :
    (text ++ [last]).takeWhile holds = text.takeWhile holds ∧ (text ++ [last]).dropWhile holds = text.dropWhile holds ++ [last] := by
  induction text with
  | nil => simp [stops]
  | cons char text ih =>
    rw [cons_append, takeWhile_cons, takeWhile_cons, dropWhile_cons, dropWhile_cons]
    split
    · rw [ih.1, ih.2]
      exact ⟨rfl, rfl⟩
    · exact ⟨rfl, rfl⟩

def assignmentBody (line : Line) : Line := (afterExport (trimStart line)).getD (trimStart line)

variable (line : Line)

theorem envAssignment_eq :
    envAssignment line =
      if (assignmentBody line).takeWhile isNameChar = [] then none
      else (afterName ((assignmentBody line).dropWhile isNameChar)).map fun value =>
        (line.length - (assignmentBody line).length, (assignmentBody line).takeWhile isNameChar, value) := rfl

theorem assignmentBody_return :
    assignmentBody (line ++ ['\r']) = if assignmentBody line = [] then [] else assignmentBody line ++ ['\r'] := by
  unfold assignmentBody
  rw [trimStart_return]
  by_cases empty : trimStart line = []
  · rw [if_pos empty, empty]
    rfl
  · rw [if_neg empty, afterExport_return]
    cases afterExport (trimStart line) with
    | none =>
      rw [Option.map_none, Option.getD_none, Option.getD_none, if_neg empty]
    | some rest => rfl

theorem envAssignment_return :
    envAssignment (line ++ ['\r']) =
      (envAssignment line).map fun (prefixLen, name, raw) => (prefixLen, name, raw ++ ['\r']) := by
  rw [envAssignment_eq, envAssignment_eq, assignmentBody_return]
  by_cases empty : assignmentBody line = []
  · rw [if_pos empty, empty]
    rfl
  · obtain ⟨name, rest⟩ := @takeWhile_stop isNameChar '\r' (by decide) (assignmentBody line)
    rw [if_neg empty, name, rest, afterName_return]
    split
    · rfl
    · rw [Option.map_map, Option.map_map]
      have length : (line ++ ['\r']).length - (assignmentBody line ++ ['\r']).length =
          line.length - (assignmentBody line).length := by
        rw [length_append, length_append, Nat.add_sub_add_right]
      rw [length]
      rfl

def stripEntry (entry : EnvEntry) : EnvEntry := ⟨joinLines (entry.lines.map stripReturn), entry.assignment⟩

theorem stripReturn_plain {line : Line} (plain : '\n' ∉ line) : '\n' ∉ stripReturn line := by
  rcases stripReturn_cases line with ⟨-, same⟩ | ⟨base, rfl, same⟩
  · rw [same]
    exact plain
  · rw [same]
    exact fun inside => plain (mem_append_left _ inside)

theorem stripEntry_lines (entry : EnvEntry) : (stripEntry entry).lines = entry.lines.map stripReturn := by
  obtain ⟨first, more, split⟩ := exists_cons_of_ne_nil (lines_some entry)
  have plain : ∀ line ∈ (first :: more).map stripReturn, '\n' ∉ line := by
    rw [← split]
    intro line listed
    obtain ⟨other, inside, rfl⟩ := mem_map.mp listed
    exact stripReturn_plain (lines_plain entry other inside)
  rw [stripEntry, EnvEntry.lines, split]
  rw [map_cons] at plain ⊢
  exact lines_joined plain

variable {joined : Line}

theorem closingQuote_return (other : quote ≠ '\r') (some_char : joined ≠ []) :
    closingQuote (joined ++ ['\r']) quote = closingQuote joined quote := by
  rw [closingQuote, tail_append_of_ne_nil some_char, closeFrom_return other, closingQuote]

theorem closingQuote_le {stop : Nat} (closes : closingQuote joined quote = some stop) : stop ≤ joined.length := by
  obtain ⟨place, found, rfl⟩ := map_eq_some_iff.mp closes
  have bound := closeFrom_lt found
  rw [length_tail] at bound
  omega

theorem closeAcross_strip (apart : quote ≠ '\r') {closed : Line} (some_char : joined ≠ []) {more : List Line}
    (unreturned : Unreturned more) {stop : Nat}
    (closes : closeAcross quote joined more = some (closed, stop, more.length)) (some_line : more ≠ []) :
    ∃ other, closeAcross quote joined (more.map stripReturn) = some (other, stop, more.length) ∧
      other.take stop = closed.take stop := by
  induction more generalizing joined closed stop with
  | nil => exact absurd rfl some_line
  | cons line more ih =>
    have opens : closingQuote joined quote = none := by
      cases now : closingQuote joined quote with
      | none => rfl
      | some place =>
        rw [closeAcross_now now] at closes
        simp at closes
    rw [closeAcross, opens] at closes
    obtain ⟨⟨text, place, count⟩, found, same⟩ := map_eq_some_iff.mp closes
    simp only [Prod.mk.injEq, length_cons, Nat.add_right_cancel_iff] at same
    obtain ⟨rfl, rfl, rfl⟩ := same
    cases more with
    | nil =>
      obtain ⟨place, now, same⟩ := map_eq_some_iff.mp found
      simp only [Prod.mk.injEq] at same
      obtain ⟨rfl, rfl, -⟩ := same
      have shorter : closingQuote (joined ++ '\n' :: stripReturn line) quote = some place ∧
          (joined ++ '\n' :: stripReturn line).take place = (joined ++ '\n' :: line).take place := by
        rcases stripReturn_cases line with ⟨-, whole⟩ | ⟨base, rfl, whole⟩
        · rw [whole]
          exact ⟨now, rfl⟩
        · have split : joined ++ '\n' :: (base ++ ['\r']) = (joined ++ '\n' :: base) ++ ['\r'] := by simp
          rw [split, closingQuote_return apart (append_ne_nil_of_left_ne_nil some_char _)] at now
          rw [whole, split]
          exact ⟨now, (take_append_of_le_length (closingQuote_le now)).symm⟩
      refine ⟨joined ++ '\n' :: stripReturn line, ?_, shorter.2⟩
      rw [map_cons, map_nil, closeAcross, opens, closeAcross, shorter.1]
      rfl
    | cons next more =>
      have kept : stripReturn line = line := by
        rcases stripReturn_cases line with ⟨-, whole⟩ | ⟨base, rfl, -⟩
        · exact whole
        · exact absurd getLast?_concat (unreturned [] _ next more rfl)
      obtain ⟨other, again, same⟩ := ih (append_ne_nil_of_left_ne_nil some_char _)
        (fun front other next back split => unreturned (line :: front) other next back (by rw [split]; rfl)) found
        (cons_ne_nil next more)
      refine ⟨other, ?_, same⟩
      rw [map_cons, closeAcross, opens, kept]
      dsimp only
      rw [again]
      rfl

variable {name : Line}

theorem envAssignment_strip {line raw : Line} {prefixLen : Nat}
    (assigns : envAssignment line = some (prefixLen, name, raw)) :
    ∃ stripped, envAssignment (stripReturn line) = some (prefixLen, name, stripped) ∧
      (stripped = raw ∨ raw = stripped ++ ['\r']) := by
  rcases stripReturn_cases line with ⟨-, same⟩ | ⟨base, rfl, same⟩
  · rw [same]
    exact ⟨raw, assigns, .inl rfl⟩
  · rw [same]
    rw [envAssignment_return] at assigns
    obtain ⟨⟨length, found, stripped⟩, inner, equal⟩ := map_eq_some_iff.mp assigns
    simp only [Prod.mk.injEq] at equal
    obtain ⟨rfl, rfl, rfl⟩ := equal
    exact ⟨stripped, inner, .inr rfl⟩

theorem strip_closing {raw stripped : Line} (either : stripped = raw ∨ raw = stripped ++ ['\r'])
    (opens : openingQuote raw = some quote) :
    closingQuote (trimStart stripped) quote = closingQuote (trimStart raw) quote ∧
      ∀ stop, closingQuote (trimStart raw) quote = some stop → (trimStart stripped).take stop = (trimStart raw).take stop := by
  rcases either with rfl | rfl
  · exact ⟨rfl, fun _ _ => rfl⟩
  · obtain ⟨-, apart, some_char⟩ := openingQuote_some opens
    rw [trimStart_return] at some_char ⊢
    by_cases empty : trimStart stripped = []
    · rw [if_pos empty] at some_char
      exact absurd rfl some_char
    · rw [if_neg empty, closingQuote_return apart empty]
      exact ⟨rfl, fun stop closes => (take_append_of_le_length (closingQuote_le closes)).symm⟩

variable {entry : EnvEntry}

theorem Reads.strip (reads : Reads entry []) (unreturned : Unreturned entry.lines) :
    Reads (stripEntry entry) [] := by
  obtain ⟨first, more, split, read⟩ := reads
  rw [append_nil] at read
  refine ⟨stripReturn first, more.map stripReturn, by rw [stripEntry_lines, split]; rfl, ?_⟩
  rw [append_nil, length_map, stripEntry, split]
  have alone : ∀ line : Line, joinLines [line] = line := fun line => intercalate_singleton
  rcases readEntry_cases first more with ⟨free, found⟩ | ⟨prefixLen, name, raw, assigns, kinds⟩
  · rw [read] at found
    obtain ⟨rfl, counted⟩ := mk.inj found
    obtain rfl := eq_nil_of_length_eq_zero counted
    have stripped : envAssignment (stripReturn first) = none := by
      rcases stripReturn_cases first with ⟨-, same⟩ | ⟨base, rfl, same⟩
      · rw [same]
        exact free
      · rw [same]
        rw [envAssignment_return] at free
        exact map_eq_none_iff.mp free
    rw [readEntry_none stripped, map_cons, map_nil, alone]
    rfl
  · obtain ⟨stripped, again, either⟩ := envAssignment_strip assigns
    have value : plainValue stripped = plainValue raw := by
      rcases either with rfl | rfl
      · rfl
      · rw [plainValue_return]
    have quotes : openingQuote stripped = openingQuote raw := by
      rcases either with rfl | rfl
      · rfl
      · rw [openingQuote_return]
    rcases kinds with ⟨opens, found⟩ | ⟨quote, opens, ⟨never, found⟩ | ⟨joined, stop, taken, closes, found⟩⟩
    · rw [read] at found
      obtain ⟨rfl, counted⟩ := mk.inj found
      obtain rfl := eq_nil_of_length_eq_zero counted
      rw [readEntry_plain again (fun quote contra => by rw [quotes, opens] at contra; cases contra), value, map_cons,
        map_nil, alone]
      rfl
    · rw [read] at found
      obtain ⟨rfl, counted⟩ := mk.inj found
      obtain rfl := eq_nil_of_length_eq_zero counted
      have still : closeAcross quote (trimStart stripped) [] = none := by
        rw [closeAcross, map_eq_none_iff] at never ⊢
        rw [(strip_closing either opens).1]
        exact never
      rw [map_nil, readEntry_plain again, value, map_cons, map_nil, alone]
      · rfl
      · intro other same
        rw [quotes, opens] at same
        rw [← Option.some.inj same]
        exact still
    · rw [read] at found
      obtain ⟨rfl, counted⟩ := mk.inj found
      subst counted
      cases more with
      | nil =>
        obtain ⟨place, now, same⟩ := map_eq_some_iff.mp closes
        simp only [Prod.mk.injEq] at same
        obtain ⟨rfl, rfl, -⟩ := same
        obtain ⟨equal, inner⟩ := strip_closing either opens
        have closed : closeAcross quote (trimStart stripped) [] = some (trimStart stripped, place, 0) :=
          closeAcross_now (equal.trans now) []
        rw [map_nil, readEntry_quoted again (quotes.trans opens) closed, inner place now]
        rfl
      | cons next more =>
        have kept : stripReturn first = first := by
          rcases stripReturn_cases first with ⟨-, whole⟩ | ⟨base, rfl, -⟩
          · exact whole
          · exact absurd getLast?_concat (unreturned [] _ next more split)
        obtain ⟨-, apart, some_char⟩ := openingQuote_some opens
        obtain ⟨other, closed, same⟩ := closeAcross_strip apart some_char
          (fun front line follow back parts => unreturned (first :: front) line follow back (by rw [split, parts]; rfl))
          closes (cons_ne_nil next more)
        have lines : (first :: next :: more).map stripReturn = first :: (next :: more).map stripReturn := by
          rw [map_cons, kept]
        rw [kept, readEntry_quoted assigns opens closed, same, take_of_length_le (by rw [length_map]), lines]

theorem closeFrom_stripReturn (other : quote ≠ '\r') (escaped : Bool) (line : Line) :
    closeFrom quote escaped (stripReturn line) = closeFrom quote escaped line := by
  rcases stripReturn_cases line with ⟨-, same⟩ | ⟨base, rfl, same⟩
  · rw [same]
  · rw [same, closeFrom_return other]

theorem opens_strip (opened : (stripEntry entry).opens = some quote) :
    entry.opens = some quote ∧ quote ≠ '\r' := by
  obtain ⟨first, more, split⟩ := exists_cons_of_ne_nil (lines_some entry)
  have lines : (stripEntry entry).lines = stripReturn first :: more.map stripReturn := by
    rw [stripEntry_lines, split]
    rfl
  cases stripped : envAssignment (stripReturn first) with
  | none =>
    rw [EnvEntry.opens, lines] at opened
    dsimp only at opened
    rw [stripped] at opened
    cases opened
  | some found =>
    obtain ⟨prefixLen, name, inner⟩ := found
    rw [opens_eq lines stripped] at opened
    obtain ⟨opens, never⟩ := Option.filter_eq_some_iff.mp opened
    obtain ⟨feed, apart, some_char⟩ := openingQuote_some opens
    obtain ⟨raw, assigns, either⟩ : ∃ raw, envAssignment first = some (prefixLen, name, raw) ∧
        (inner = raw ∨ raw = inner ++ ['\r']) := by
      rcases stripReturn_cases first with ⟨-, same⟩ | ⟨base, rfl, same⟩
      · rw [same] at stripped
        exact ⟨inner, stripped, .inl rfl⟩
      · rw [same] at stripped
        exact ⟨inner ++ ['\r'], by rw [envAssignment_return, stripped]; rfl, .inr rfl⟩
    have quotes : openingQuote raw = some quote := by
      rcases either with rfl | rfl
      · exact opens
      · rw [openingQuote_return, opens]
    have open_here := Option.isNone_iff_eq_none.mp never
    rw [closeAcross_none feed some_char, (strip_closing either quotes).1] at open_here
    refine ⟨?_, apart⟩
    rw [opens_eq split assigns, quotes, Option.filter_eq_some_iff]
    refine ⟨rfl, ?_⟩
    rw [Option.isNone_iff_eq_none, closeAcross_none feed (openingQuote_some quotes).2.2]
    refine ⟨open_here.1, fun line listed => ?_⟩
    rw [← closeFrom_stripReturn apart]
    exact open_here.2 (stripReturn line) (mem_map_of_mem listed)

theorem Undisturbed.strip {later : EnvEntry} (quiet : Undisturbed entry later.lines) :
    Undisturbed (stripEntry entry) (stripEntry later).lines := by
  intro quote opened line listed
  obtain ⟨opens, apart⟩ := opens_strip opened
  rw [stripEntry_lines] at listed
  obtain ⟨other, inside, rfl⟩ := mem_map.mp listed
  rw [closeFrom_stripReturn apart]
  exact quiet quote opens other inside

variable {singleLine : List Line}

theorem spansLines_strip (single : spansLines singleLine entry = none) :
    spansLines singleLine (stripEntry entry) = none := by
  unfold spansLines at single ⊢
  have kept : (stripEntry entry).assignment = entry.assignment := rfl
  rw [kept]
  cases found : entry.assignment with
  | none => rfl
  | some assignment =>
    rw [found] at single
    dsimp only at single ⊢
    refine if_neg ?_
    rintro ⟨feed, listed⟩
    by_cases inside : '\n' ∈ entry.text
    · rw [if_pos ⟨inside, listed⟩] at single
      cases single
    · have lines : entry.lines = [entry.text] := splitOn_eq_singleton inside
      rw [stripEntry, lines, map_cons, map_nil, joinLines, intercalate_singleton] at feed
      exact stripReturn_plain inside feed

variable {entries : List EnvEntry}

theorem Stands.strip (stands : Stands singleLine entries) (unreturned : ∀ entry ∈ entries, Unreturned entry.lines) :
    Stands singleLine (entries.map stripEntry) := by
  refine ⟨?_, ?_⟩
  · intro stripped listed
    obtain ⟨entry, inside, rfl⟩ := mem_map.mp listed
    obtain ⟨reads, single⟩ := stands.each entry inside
    exact ⟨reads.strip (unreturned entry inside), spansLines_strip single⟩
  · exact pairwise_map.mpr (stands.apart.imp Undisturbed.strip)

/-! ### The line that is written -/

def IsName (name : Line) : Prop := name ≠ [] ∧ ∀ char ∈ name, isNameChar char = true

theorem alphanum_bounds (alphanum : char.isAlphanum = true) : 0x30 ≤ char.toNat ∧ char.toNat ≤ 0x7A := by
  change ((decide (char.val ≥ 'A'.val ∧ char.val ≤ 'Z'.val) || char.val ≥ 'a'.val && char.val ≤ 'z'.val) ||
    char.val ≥ '0'.val && char.val ≤ '9'.val) = true at alphanum
  have same : char.toNat = char.val.toNat := rfl
  rw [same]
  simp [UInt32.le_iff_toNat_le] at alphanum
  omega

theorem nameChar_bounds (named : isNameChar char = true) : 0x2D ≤ char.toNat ∧ char.toNat ≤ 0x7A := by
  unfold isNameChar at named
  simp only [Bool.or_eq_true, beq_iff_eq] at named
  rcases named with ((alphanum | rfl) | rfl) | rfl
  · have bounds := alphanum_bounds alphanum
    omega
  · decide
  · decide
  · decide

theorem isSpace_between {code : Nat} (above : 0x20 < code) (below : code < 0x85) : Normalizing.isSpace code = false := by
  unfold Normalizing.isSpace
  simp
  omega

theorem nameChar_solid (named : isNameChar char = true) : Normalizing.isSpace char.toNat = false := by
  have bounds := nameChar_bounds named
  exact isSpace_between (by omega) (by omega)

theorem trimStart_solid (solid : Normalizing.isSpace char.toNat = false) (rest : Line) :
    trimStart (char :: rest) = char :: rest := by
  rw [trimStart, dropWhile_cons, if_neg (by rw [solid]; exact Bool.false_ne_true)]

theorem trimStart_append {blanks : Line} (blank : ∀ char ∈ blanks, Normalizing.isSpace char.toNat = true) (rest : Line) :
    trimStart (blanks ++ rest) = trimStart rest := by
  rw [trimStart, dropWhile_append_of_pos blank, trimStart]

theorem trimStart_split :
    ∃ blanks, text = blanks ++ trimStart text ∧ ∀ char ∈ blanks, Normalizing.isSpace char.toNat = true :=
  ⟨_, (takeWhile_append_dropWhile).symm, fun _ listed => by simpa using mem_takeWhile_imp listed⟩

theorem afterExport_name (named : IsName name) (tail : Line) : afterExport (name ++ '=' :: tail) = none := by
  unfold afterExport
  refine if_neg ?_
  rintro ⟨begins, blank⟩
  obtain ⟨rest, split⟩ := isPrefixOf_iff_prefix.mp begins
  have dropped : (name ++ '=' :: tail).drop 6 = rest := by rw [← split]; rfl
  rw [dropped] at blank
  rcases append_eq_append_iff.mp split with ⟨more, rfl, rfl⟩ | ⟨more, word, rest'⟩
  · cases more with
    | nil => cases blank
    | cons char more =>
      have inName := named.2 char (mem_append_right _ mem_cons_self)
      have bounds := nameChar_bounds inName
      have blank : isBlank char = true := blank
      simp only [isBlank, Bool.or_eq_true, beq_iff_eq] at blank
      rcases blank with rfl | rfl
      · exact absurd bounds.1 (by decide)
      · exact absurd bounds.1 (by decide)
  · cases more with
    | nil =>
      rw [nil_append] at rest'
      rw [← rest'] at blank
      cases blank
    | cons char more =>
      rw [cons_append] at rest'
      obtain ⟨rfl, -⟩ := List.cons.inj rest'
      have inside : '=' ∈ "export".toList := by
        rw [word]
        exact mem_append_right _ mem_cons_self
      exact absurd inside (by decide)

theorem afterExport_cases (body : Line) :
    afterExport body = none ∨ ∃ char blanks rest, afterExport body = some rest ∧ isBlank char = true ∧
      (∀ blank ∈ blanks, Normalizing.isSpace blank.toNat = true) ∧
      (body = "export".toList ++ char :: blanks ++ rest) := by
  unfold afterExport
  by_cases exported : "export".toList.isPrefixOf body ∧ (body.drop 6).head?.any isBlank
  · rw [if_pos exported]
    obtain ⟨begins, blank⟩ := exported
    obtain ⟨rest, rfl⟩ := isPrefixOf_iff_prefix.mp begins
    have dropped : ("export".toList ++ rest).drop 6 = rest := rfl
    rw [dropped] at blank ⊢
    cases rest with
    | nil => cases blank
    | cons char rest =>
      have blank : isBlank char = true := blank
      have space : Normalizing.isSpace char.toNat = true := by
        simp only [isBlank, Bool.or_eq_true, beq_iff_eq] at blank
        rcases blank with rfl | rfl
        · decide
        · decide
      obtain ⟨blanks, split, spaces⟩ := trimStart_split rest
      refine .inr ⟨char, blanks, trimStart rest, ?_, blank, spaces, ?_⟩
      · rw [trimStart, dropWhile_cons, if_pos space, trimStart]
      · rw [List.append_assoc, cons_append, ← split]
  · exact .inl (if_neg exported)

theorem assignmentBody_rewritten (named : IsName name) (tail : Line) :
    ∃ front, line = front ++ assignmentBody line ∧
      assignmentBody (front ++ (name ++ '=' :: tail)) = name ++ '=' :: tail := by
  have kept : trimStart (name ++ '=' :: tail) = name ++ '=' :: tail := by
    obtain ⟨some_char, chars⟩ := named
    cases name with
    | nil => exact absurd rfl some_char
    | cons char name => exact trimStart_solid (nameChar_solid (chars char mem_cons_self)) _
  obtain ⟨blanks, split, spaces⟩ := trimStart_split line
  rcases afterExport_cases (trimStart line) with other | ⟨char, more, rest, exported, blank, moreSpaces, body⟩
  · refine ⟨blanks, ?_, ?_⟩
    · rw [assignmentBody, other]
      exact split
    · rw [assignmentBody, trimStart_append spaces, kept, afterExport_name named]
      rfl
  · refine ⟨blanks ++ ("export".toList ++ char :: more), ?_, ?_⟩
    · rw [assignmentBody, exported, getD_some, List.append_assoc, ← body]
      exact split
    · have written : trimStart (blanks ++ ("export".toList ++ char :: more) ++ (name ++ '=' :: tail)) =
          "export".toList ++ char :: (more ++ (name ++ '=' :: tail)) := by
        rw [List.append_assoc, trimStart_append spaces, List.append_assoc]
        exact trimStart_solid (by decide) _
      have begins : "export".toList.isPrefixOf ("export".toList ++ char :: (more ++ (name ++ '=' :: tail))) ∧
          (("export".toList ++ char :: (more ++ (name ++ '=' :: tail))).drop 6).head?.any isBlank :=
        ⟨List.isPrefixOf_iff_prefix.mpr (prefix_append _ _), blank⟩
      have space : ∀ other ∈ char :: more, Normalizing.isSpace other.toNat = true := by
        intro other listed
        rcases mem_cons.mp listed with rfl | listed
        · simp only [isBlank, Bool.or_eq_true, beq_iff_eq] at blank
          rcases blank with rfl | rfl
          · decide
          · decide
        · exact moreSpaces other listed
      have dropped : ("export".toList ++ char :: (more ++ (name ++ '=' :: tail))).drop 6 =
          (char :: more) ++ (name ++ '=' :: tail) := rfl
      rw [assignmentBody, written, afterExport, if_pos begins, getD_some, dropped, trimStart_append space, kept]

theorem envAssignment_rewritten (named : IsName name) (tail : Line) :
    ∃ front, line = front ++ assignmentBody line ∧
      envAssignment (front ++ (name ++ '=' :: tail)) = some (front.length, name, tail) := by
  obtain ⟨front, split, body⟩ := assignmentBody_rewritten line named tail
  refine ⟨front, split, ?_⟩
  have stops : (name ++ '=' :: tail).takeWhile isNameChar = name := by
    rw [takeWhile_append_of_pos named.2, takeWhile_cons, if_neg (by decide), append_nil]
  have rest : (name ++ '=' :: tail).dropWhile isNameChar = '=' :: tail := by
    rw [dropWhile_append_of_pos named.2, dropWhile_cons, if_neg (by decide)]
  have found : trimStart ('=' :: tail) = '=' :: tail := trimStart_solid (by decide) tail
  rw [envAssignment_eq, body, stops, rest, if_neg named.1, afterName_cons found, if_pos rfl, map_some,
    length_append, Nat.add_sub_cancel]

theorem envAssignment_alone (named : IsName name) (tail : Line) :
    envAssignment (name ++ '=' :: tail) = some (0, name, tail) := by
  obtain ⟨front, split, found⟩ := envAssignment_rewritten [] named tail
  obtain ⟨rfl, -⟩ := append_eq_nil_iff.mp split.symm
  exact found

def endingBackslashes (value : Line) : Nat := (value.reverse.takeWhile (· = '\\')).length

def escapedAfter (escaped : Bool) (text : Line) : Bool := text.foldl (fun escaped char => char == '\\' && !escaped) escaped

theorem escapedAfter_cons (escaped : Bool) (char : Char) (text : Line) :
    escapedAfter escaped (char :: text) = escapedAfter (char == '\\' && !escaped) text := rfl

theorem escapedAfter_snoc (escaped : Bool) (text : Line) (char : Char) :
    escapedAfter escaped (text ++ [char]) = (char == '\\' && !escapedAfter escaped text) := foldl_concat _ _ _ _

theorem endingBackslashes_snoc (value : Line) (char : Char) :
    endingBackslashes (value ++ [char]) = if char = '\\' then endingBackslashes value + 1 else 0 := by
  rw [endingBackslashes, reverse_append, reverse_singleton, singleton_append, takeWhile_cons]
  by_cases backslash : char = '\\'
  · rw [if_pos (decide_eq_true backslash), if_pos backslash]
    rfl
  · rw [if_neg (by simpa using backslash), if_neg backslash]
    rfl

theorem escapedAfter_even (value : Line) : escapedAfter false value = decide (endingBackslashes value % 2 = 1) := by
  induction value using List.reverseRecOn with
  | nil => rfl
  | append_singleton value char ih =>
    rw [escapedAfter_snoc, ih, endingBackslashes_snoc]
    by_cases backslash : char = '\\'
    · subst backslash
      rw [if_pos rfl]
      by_cases odd : endingBackslashes value % 2 = 1
      · rw [decide_eq_true odd, decide_eq_false (by omega)]
        rfl
      · rw [decide_eq_false odd, decide_eq_true (by omega)]
        rfl
    · rw [if_neg backslash, beq_false_of_ne backslash, Bool.false_and]
      rfl

variable {text : Line}

theorem closeFrom_unquoted (unquoted : quote ∉ text) (escaped : Bool) (rest : Line) :
    closeFrom quote escaped (text ++ rest) = (closeFrom quote (escapedAfter escaped text) rest).map (· + text.length) := by
  induction text generalizing escaped with
  | nil => simp [escapedAfter]
  | cons char text ih =>
    rw [mem_cons, not_or] at unquoted
    have other : char ≠ quote := fun same => unquoted.1 same.symm
    rw [cons_append, closeFrom, ih unquoted.2, ih unquoted.2, escapedAfter_cons]
    by_cases escapes : char = '\\' ∧ escaped = false
    · obtain ⟨rfl, rfl⟩ := escapes
      rw [if_pos ⟨rfl, rfl⟩, Option.map_map]
      rfl
    · have plain : (char == '\\' && !escaped) = false := by
        rw [Bool.and_eq_false_iff, beq_eq_false_iff_ne, Bool.not_eq_false']
        by_cases backslash : char = '\\'
        · exact .inr (by simpa using fun contra => escapes ⟨backslash, contra⟩)
        · exact .inl backslash
      rw [if_neg escapes, if_neg (fun contra => other contra.1), plain, Option.map_map]
      rfl

theorem closingQuote_enclosed (ordinary : quote ≠ '\\') (unquoted : quote ∉ value)
    (even : endingBackslashes value % 2 = 0) :
    closingQuote (quote :: (value ++ [quote])) quote = some (value.length + 1) := by
  have clear : escapedAfter false value = false := by
    rw [escapedAfter_even, decide_eq_false (by omega)]
  rw [closingQuote, tail_cons, closeFrom_unquoted unquoted, clear, closeFrom,
    if_neg (fun contra => ordinary contra.1), if_pos ⟨rfl, rfl⟩, map_some, map_some, Nat.zero_add]

theorem replaceEscape_plain {letter plain : Char} (ordinary : '\\' ∉ text) :
    replaceEscape letter plain text = text := by
  induction text with
  | nil => rfl
  | cons first rest ih =>
    rw [mem_cons, not_or] at ordinary
    cases rest with
    | nil => rfl
    | cons second rest => rw [replaceEscape, if_neg (fun contra => ordinary.1 contra.1.symm), ih ordinary.2]

theorem isPlain_bounds (plain : EnvFile.isPlain char = true) :
    0x25 ≤ char.toNat ∧ char.toNat ≤ 0x7E ∧ char ≠ '\x27' := by
  unfold EnvFile.isPlain at plain
  rcases Bool.or_eq_true _ _ |>.mp plain with alphanum | listed
  · have bounds := alphanum_bounds alphanum
    refine ⟨by omega, by omega, ?_⟩
    rintro rfl
    exact absurd bounds.1 (by decide)
  · have each : "_-./:@+,~=[]%".toList.all (fun char =>
        decide (0x25 ≤ char.toNat) && decide (char.toNat ≤ 0x7E) && decide (char ≠ '\x27')) = true := by decide
    have holds := all_eq_true.mp each char (contains_iff_mem.mp listed)
    simp only [Bool.and_eq_true, decide_eq_true_eq] at holds
    exact ⟨holds.1.1, holds.1.2, holds.2⟩

variable {encoded : Line}

theorem encode_read (accepted : EnvFile.encode value = .ok encoded) (even : endingBackslashes value % 2 = 0) :
    (openingQuote encoded = none ∧ plainValue encoded = value) ∨
      ∃ quote stop, openingQuote encoded = some quote ∧ closingQuote (trimStart encoded) quote = some stop ∧
        quotedValue quote (((trimStart encoded).take stop).drop 1) = value := by
  have enclosed : ∀ quote, Normalizing.isSpace quote.toNat = false → quote ≠ '\\' → quote ∉ value →
      trimStart (quote :: value ++ [quote]) = quote :: (value ++ [quote]) ∧
        closingQuote (trimStart (quote :: value ++ [quote])) quote = some (value.length + 1) ∧
        ((trimStart (quote :: value ++ [quote])).take (value.length + 1)).drop 1 = value := by
    intro quote solid ordinary unquoted
    have kept : trimStart (quote :: value ++ [quote]) = quote :: (value ++ [quote]) := trimStart_solid solid _
    rw [kept]
    exact ⟨rfl, closingQuote_enclosed ordinary unquoted even, by simp⟩
  unfold EnvFile.encode at accepted
  split at accepted
  · rename_i plain
    cases accepted
    left
    obtain ⟨some_char, chars⟩ := plain
    have each : ∀ char ∈ value, EnvFile.isPlain char = true := all_eq_true.mp chars
    have solid : ∀ char ∈ value, Normalizing.isSpace char.toNat = false := by
      intro char listed
      have bounds := isPlain_bounds (each char listed)
      exact isSpace_between (by omega) (by omega)
    constructor
    · cases value with
      | nil => exact absurd rfl some_char
      | cons char rest =>
        have plain := each char mem_cons_self
        have bounds := isPlain_bounds plain
        rw [openingQuote, trimStart_solid (solid char mem_cons_self), head?_cons, Option.filter_eq_none_iff]
        intro other same quoted
        cases same
        simp only [Bool.or_eq_true, beq_iff_eq] at quoted
        rcases quoted with (rfl | rfl) | rfl
        · exact absurd bounds.1 (by decide)
        · exact bounds.2.2 rfl
        · exact absurd plain (by decide)
    · have whole : value.takeWhile (· ≠ '#') = value := by
        rw [takeWhile_eq_self_iff]
        intro char listed
        rw [decide_eq_true_eq]
        rintro rfl
        exact absurd (isPlain_bounds (each _ listed)).1 (by decide)
      rw [plainValue, whole, Normalizing.trimSpace_solid solid]
  · split at accepted
    · rename_i free
      cases accepted
      have apart : ∀ char ∈ value, char ≠ '\x22' ∧ char ≠ '\\' := by
        intro char listed
        constructor
        · rintro rfl
          exact free (any_eq_true.mpr ⟨_, listed, by decide⟩)
        · rintro rfl
          exact free (any_eq_true.mpr ⟨_, listed, by decide⟩)
      obtain ⟨kept, closes, inner⟩ := enclosed '\x22' (by decide) (by decide) (fun listed => (apart _ listed).1 rfl)
      have ordinary : '\\' ∉ value := fun listed => (apart _ listed).2 rfl
      refine .inr ⟨'\x22', value.length + 1, ?_, closes, ?_⟩
      · rw [openingQuote, kept]
        rfl
      · rw [inner, quotedValue, if_pos rfl, replaceEscape_plain ordinary, replaceEscape_plain ordinary]
    · split at accepted
      · rename_i free
        cases accepted
        have unquoted : '\x27' ∉ value := fun listed => free (any_eq_true.mpr ⟨_, listed, by decide⟩)
        obtain ⟨kept, closes, inner⟩ := enclosed '\x27' (by decide) (by decide) unquoted
        refine .inr ⟨'\x27', value.length + 1, ?_, closes, ?_⟩
        · rw [openingQuote, kept]
          rfl
        · rw [inner, quotedValue, if_neg (by decide)]
      · cases accepted

theorem encode_single (accepted : EnvFile.encode value = .ok encoded) : '\n' ∉ encoded := by
  unfold EnvFile.encode at accepted
  split at accepted
  · rename_i plain
    cases accepted
    intro listed
    exact absurd (isPlain_bounds (all_eq_true.mp plain.2 _ listed)).1 (by decide)
  · split at accepted
    · rename_i free
      cases accepted
      have inside : '\n' ∉ value := fun listed => free (any_eq_true.mpr ⟨_, listed, by decide⟩)
      simpa using inside
    · split at accepted
      · rename_i free
        cases accepted
        have inside : '\n' ∉ value := fun listed => free (any_eq_true.mpr ⟨_, listed, by decide⟩)
        simpa using inside
      · cases accepted

theorem name_single (named : IsName name) : '\n' ∉ name :=
  fun listed => absurd (nameChar_bounds (named.2 _ listed)).1 (by decide)

theorem readEntry_written {line raw : Line} {prefixLen : Nat} (single : '\n' ∉ line)
    (assigns : envAssignment line = some (prefixLen, name, raw)) (same : raw = encoded)
    (accepted : EnvFile.encode value = .ok encoded) (even : endingBackslashes value % 2 = 0) :
    Reads ⟨line, some ⟨prefixLen, name, value⟩⟩ [] ∧ (⟨line, some ⟨prefixLen, name, value⟩⟩ : EnvEntry).opens = none := by
  subst same
  have lines : (⟨line, some ⟨prefixLen, name, value⟩⟩ : EnvEntry).lines = [line] := splitOn_eq_singleton single
  rcases encode_read accepted even with ⟨unquoted, plain⟩ | ⟨quote, stop, opens, closes, inner⟩
  · refine ⟨⟨line, [], lines, ?_⟩, ?_⟩
    · rw [append_nil, readEntry_plain assigns (fun quote contra => by rw [unquoted] at contra; cases contra), plain]
      rfl
    · rw [opens_eq lines assigns, unquoted]
      rfl
  · have closed := closeAcross_now closes []
    refine ⟨⟨line, [], lines, ?_⟩, ?_⟩
    · rw [append_nil, readEntry_quoted assigns opens closed, inner]
      rw [take_zero, joinLines, intercalate_singleton]
      rfl
    · rw [opens_eq lines assigns, opens, Option.filter_eq_none_iff]
      intro other found never
      cases found
      rw [closed] at never
      cases never

/-! ### What an edit leaves -/

def assignments (entries : List EnvEntry) : List EnvAssignment := entries.filterMap EnvEntry.assignment

theorem assigns_iff :
    entry.assigns name = true ↔ ∃ assignment, entry.assignment = some assignment ∧ assignment.name = name := by
  rw [EnvEntry.assigns, Option.any_eq_true]
  simp

namespace EnvFile

def others (file : EnvFile) (name : Line) : List (Line × Line) :=
  ((assignments file.entries).filter (·.name ≠ name)).map fun assignment => (assignment.name, assignment.value)

/-- Where the name is set: the last entry that assigns it, or the end. -/
def place (file : EnvFile) (name : Line) : Nat := (file.position name).getD file.entries.length

def writtenLine (file : EnvFile) (name encoded : Line) : Line :=
  (match file.entries[file.place name]? with
    | none => []
    | some entry => entry.text.take ((entry.assignment.map EnvAssignment.prefixLen).getD 0)) ++ (name ++ '=' :: encoded)

theorem position_none {file : EnvFile} (free : file.position name = none) :
    ∀ entry ∈ file.entries, entry.assigns name = false := by
  intro entry listed
  rw [position, map_eq_none_iff, findIdx?_eq_none_iff] at free
  exact free entry (mem_reverse.mpr listed)

theorem position_some {file : EnvFile} {index : Nat} (found : file.position name = some index) :
    ∃ entry, file.entries[index]? = some entry ∧ entry.assigns name = true ∧
      file.entries = file.entries.take index ++ entry :: file.entries.drop (index + 1) ∧
      ∀ later ∈ file.entries.drop (index + 1), later.assigns name = false := by
  obtain ⟨back, reversed, rfl⟩ := map_eq_some_iff.mp found
  obtain ⟨inside, assigns, before⟩ := findIdx?_eq_some_iff_getElem.mp reversed
  rw [length_reverse] at inside
  rw [getElem_reverse] at assigns
  have within : file.entries.length - 1 - back < file.entries.length := by omega
  refine ⟨file.entries[file.entries.length - 1 - back], getElem?_eq_getElem within, assigns, ?_, ?_⟩
  · rw [getElem_cons_drop, take_append_drop]
  · intro later listed
    obtain ⟨count, short, rfl⟩ := mem_iff_getElem.mp listed
    rw [length_drop] at short
    have earlier : file.entries.length - 1 - (file.entries.length - 1 - back + 1 + count) < back := by omega
    have other := before _ earlier
    rw [getElem_reverse, Bool.not_eq_true] at other
    rw [getElem_drop]
    have same : file.entries.length - 1 - (file.entries.length - 1 - (file.entries.length - 1 - back + 1 + count)) =
        file.entries.length - 1 - back + 1 + count := by omega
    simpa only [same] using other

end EnvFile

theorem find_none (free : ∀ entry ∈ entries, entry.assigns name = false) :
    (assignments entries).reverse.find? (·.name = name) = none := by
  rw [find?_eq_none]
  intro assignment listed named
  obtain ⟨entry, inside, has⟩ := mem_filterMap.mp (mem_reverse.mp listed)
  have other := free entry inside
  rw [assigns_iff.mpr ⟨assignment, has, of_decide_eq_true named⟩] at other
  cases other

theorem get_eq (file : EnvFile) (name : Line) :
    file.get name = ((assignments file.entries).reverse.find? (·.name = name)).map EnvAssignment.value := by
  rw [EnvFile.get]
  cases found : file.position name with
  | none => rw [find_none (EnvFile.position_none found)]; rfl
  | some index =>
    obtain ⟨entry, here, assigns, split, after⟩ := EnvFile.position_some found
    obtain ⟨assignment, has, named⟩ := assigns_iff.mp assigns
    have listed : assignments file.entries = assignments (file.entries.take index) ++
        assignment :: assignments (file.entries.drop (index + 1)) := by
      conv => lhs; rw [split, assignments, filterMap_append, filterMap_cons, has]
      rfl
    rw [Option.bind_some, here, Option.bind_some, has, listed, reverse_append, reverse_cons, List.append_assoc,
      find?_append, find_none after, none_or, singleton_append, find?_cons_of_pos (by simpa using named)]

theorem Unreturned.within {front inner back : List Line} (unreturned : Unreturned (front ++ inner ++ back)) :
    Unreturned inner := by
  rintro before line next after rfl
  exact unreturned (front ++ before) line next (after ++ back) (by simp)

theorem unreturned_single : Unreturned [line] := by
  intro front other next back split
  have lengths := congrArg List.length split
  simp only [length_append, length_cons, length_nil] at lengths
  omega

theorem Stands.again (stands : Stands singleLine entries) {crlf : Bool}
    (unreturned : crlf = false → ∀ entry ∈ entries, Unreturned entry.lines) :
    ∃ again, EnvFile.parse (written crlf (entries.flatMap EnvEntry.lines)) singleLine = .ok again ∧
      assignments again.entries = assignments entries := by
  have lines := textLines_written crlf (flatMap_lines_plain entries)
  cases crlf with
  | true =>
    rw [if_pos rfl] at lines
    refine ⟨⟨entries, hasCRLF (written true (entries.flatMap EnvEntry.lines))⟩, ?_, rfl⟩
    rw [EnvFile.parse, lines, stands.read]
  | false =>
    rw [if_neg Bool.false_ne_true] at lines
    have stripped : (entries.flatMap EnvEntry.lines).map stripReturn = (entries.map stripEntry).flatMap EnvEntry.lines := by
      rw [map_flatMap, flatMap_map]
      exact congrArg (List.flatMap · entries) (funext fun entry => (stripEntry_lines entry).symm)
    refine ⟨⟨entries.map stripEntry, hasCRLF (written false (entries.flatMap EnvEntry.lines))⟩, ?_, ?_⟩
    · rw [EnvFile.parse, lines, stripped, (stands.strip (unreturned rfl)).read]
    · rw [assignments, filterMap_map]
      rfl

theorem Stands.sublist {some_entries : List EnvEntry} (stands : Stands singleLine entries)
    (sub : some_entries.Sublist entries) : Stands singleLine some_entries :=
  ⟨fun entry listed => stands.each entry (sub.subset listed), stands.apart.sublist sub⟩

theorem Reads.assigned {rest : List Line} (reads : Reads entry rest) {assignment : EnvAssignment}
    (has : entry.assignment = some assignment) :
    ∃ first more raw, entry.lines = first :: more ∧
      envAssignment first = some (assignment.prefixLen, assignment.name, raw) := by
  obtain ⟨first, more, split, read⟩ := reads
  refine ⟨first, more, ?_⟩
  rcases readEntry_cases first (more ++ rest) with ⟨-, found⟩ | ⟨prefixLen, name, raw, assigns, kinds⟩
  · rw [read] at found
    rw [(mk.inj found).1] at has
    cases has
  · refine ⟨raw, split, ?_⟩
    rcases kinds with ⟨-, found⟩ | ⟨quote, -, ⟨-, found⟩ | ⟨joined, stop, taken, -, found⟩⟩
    · rw [read] at found
      rw [(mk.inj found).1] at has
      cases has
      exact assigns
    · rw [read] at found
      rw [(mk.inj found).1] at has
      cases has
      exact assigns
    · rw [read] at found
      rw [(mk.inj found).1] at has
      cases has
      exact assigns

theorem Reads.rewritten (reads : Reads entry []) {assignment : EnvAssignment}
    (has : entry.assignment = some assignment) (named : IsName name) (encoded : Line) :
    '\n' ∉ entry.text.take assignment.prefixLen ∧
      envAssignment (entry.text.take assignment.prefixLen ++ (name ++ '=' :: encoded)) =
        some (assignment.prefixLen, name, encoded) := by
  obtain ⟨first, more, raw, split, assigns⟩ := reads.assigned has
  obtain ⟨front, same, found⟩ := envAssignment_rewritten first named encoded
  rw [envAssignment_eq] at assigns
  split at assigns
  · cases assigns
  · obtain ⟨value, -, equal⟩ := map_eq_some_iff.mp assigns
    have long : assignment.prefixLen = front.length := by
      rw [← (mk.inj equal).1]
      have lengths := congrArg List.length same
      rw [length_append] at lengths
      omega
    obtain ⟨tail, text⟩ : ∃ tail, entry.text = front ++ tail := by
      rw [← joinLines_lines entry, split]
      cases more with
      | nil => exact ⟨assignmentBody first, by rw [joinLines, intercalate_singleton]; exact same⟩
      | cons next more =>
        refine ⟨assignmentBody first ++ '\n' :: joinLines (next :: more), ?_⟩
        rw [joinLines, intercalate_cons_cons, ← List.append_assoc, ← same, joinLines, List.append_assoc]
        rfl
    have kept : entry.text.take assignment.prefixLen = front := by rw [text, long, take_left]
    rw [kept, long]
    refine ⟨fun inside => ?_, found⟩
    refine lines_plain entry first (by rw [split]; exact mem_cons_self) ?_
    rw [same]
    exact mem_append_left _ inside

/-- What it takes for a name and a value to be read back. -/
structure Settable (file : EnvFile) (name value : Line) : Prop where
  named : IsName name
  unescaped : endingBackslashes value % 2 = 0
  /-- The line closes no quote that another assignment left open. -/
  quotes : ∀ encoded, EnvFile.encode value = .ok encoded → ∀ earlier ∈ file.entries.take (file.place name),
    earlier.assigns name = false → Undisturbed earlier [file.writtenLine name encoded]

variable {file edited : EnvFile}

theorem set_cases (stands : Stands singleLine file.entries) (edit : file.set name value = .ok edited)
    (named : IsName name) :
    ∃ encoded prefixLen, EnvFile.encode value = .ok encoded ∧
      '\n' ∉ file.writtenLine name encoded ∧
      envAssignment (file.writtenLine name encoded) = some (prefixLen, name, encoded) ∧
      edited = ⟨(file.entries.take (file.place name)).filter (fun entry => !entry.assigns name) ++
        ⟨file.writtenLine name encoded, some ⟨prefixLen, name, value⟩⟩ :: file.entries.drop (file.place name + 1), file.crlf⟩ ∧
      (file.entries.filter fun entry => !entry.assigns name) =
        (file.entries.take (file.place name)).filter (fun entry => !entry.assigns name) ++
          file.entries.drop (file.place name + 1) ∧
      ∀ later ∈ file.entries.drop (file.place name + 1), later.assigns name = false := by
  unfold EnvFile.set at edit
  cases accepted : EnvFile.encode value with
  | error message => rw [accepted] at edit; cases edit
  | ok encoded =>
    rw [accepted] at edit
    dsimp only at edit
    have single : '\n' ∉ name ++ '=' :: encoded := by
      rw [mem_append, mem_cons, not_or, not_or]
      exact ⟨name_single named, by decide, encode_single accepted⟩
    have unfiltered : ∀ {entries : List EnvEntry}, (∀ entry ∈ entries, entry.assigns name = false) →
        entries.filter (fun entry => !entry.assigns name) = entries := fun free =>
      filter_eq_self.mpr fun entry listed => by rw [free entry listed]; rfl
    cases found : file.position name with
    | none =>
      rw [found] at edit
      cases edit
      have free := EnvFile.position_none found
      have last : file.place name = file.entries.length := by rw [EnvFile.place, found]; rfl
      have line : file.writtenLine name encoded = name ++ '=' :: encoded := by
        rw [EnvFile.writtenLine, last, getElem?_eq_none (Nat.le_refl _)]
        rfl
      have nothing : file.entries.drop (file.entries.length + 1) = [] := drop_eq_nil_of_le (Nat.le_succ _)
      refine ⟨encoded, 0, rfl, ?_, ?_, ?_, ?_, ?_⟩
      · rw [line]
        exact single
      · rw [line]
        exact envAssignment_alone named encoded
      · rw [line, last, nothing, take_length, unfiltered free]
      · rw [last, nothing, take_length, append_nil]
      · rw [last, nothing]
        exact fun later contra => absurd contra not_mem_nil
    | some index =>
      rw [found] at edit
      cases edit
      obtain ⟨entry, here, assigns, split, after⟩ := EnvFile.position_some found
      obtain ⟨assignment, has, -⟩ := assigns_iff.mp assigns
      have at_index : file.place name = index := by rw [EnvFile.place, found]; rfl
      have listed : entry ∈ file.entries := mem_of_getElem? here
      obtain ⟨front, reads⟩ := (stands.each entry listed).1.rewritten has named encoded
      have line : file.writtenLine name encoded =
          entry.text.take assignment.prefixLen ++ (name ++ '=' :: encoded) := by
        rw [EnvFile.writtenLine, at_index, here]
        dsimp only
        rw [has]
        rfl
      rw [at_index]
      refine ⟨encoded, assignment.prefixLen, rfl, ?_, ?_, ?_, ?_, after⟩
      · rw [line, mem_append, not_or]
        exact ⟨front, single⟩
      · rw [line]
        exact reads
      · rw [line, getD_eq_getElem?_getD, here, getD_some, has, List.append_assoc]
        rfl
      · conv => lhs; rw [split]
        rw [filter_append, filter_cons_of_neg (by rw [assigns]; decide), unfiltered after]

structure Edited (singleLine : List Line) (file edited : EnvFile) (name : Line) (value : Option Line) : Prop where
  /-- Every other entry stays, with its text, in order. -/
  kept : edited.entries.filter (fun entry => !entry.assigns name) = file.entries.filter fun entry => !entry.assigns name
  /-- The lines are written one by one, ending as the file's did. -/
  lines : edited.render = written file.crlf (edited.entries.flatMap EnvEntry.lines)
  again : ∃ again, EnvFile.parse edited.render singleLine = .ok again ∧ again.get name = value ∧
    again.others name = file.others name

theorem others_eq (file : EnvFile) (name : Line) :
    file.others name = (assignments (file.entries.filter fun entry => !entry.assigns name)).map
      fun assignment => (assignment.name, assignment.value) := by
  have same : ∀ entries : List EnvEntry, (assignments entries).filter (·.name ≠ name) =
      assignments (entries.filter fun entry => !entry.assigns name) := by
    intro entries
    induction entries with
    | nil => rfl
    | cons entry entries ih =>
      rw [assignments, filterMap_cons]
      cases has : entry.assignment with
      | none =>
        have free : (!entry.assigns name) = true := by rw [EnvEntry.assigns, has]; rfl
        rw [filter_cons, if_pos free, assignments, filterMap_cons, has]
        exact ih
      | some assignment =>
        dsimp only
        by_cases named : assignment.name = name
        · have assigns : entry.assigns name = true := assigns_iff.mpr ⟨assignment, has, named⟩
          rw [filter_cons_of_neg (by simpa using named), filter_cons_of_neg (by rw [assigns]; decide)]
          exact ih
        · have free : (!entry.assigns name) = true := by
            rw [EnvEntry.assigns, has]
            simpa using named
          rw [filter_cons_of_pos (by simpa using named), filter_cons, if_pos free, assignments, filterMap_cons,
            has]
          exact congrArg _ ih
  rw [EnvFile.others, same]

theorem Edited.of_stands {value : Option Line} (stands : Stands singleLine edited.entries)
    (endings : edited.crlf = file.crlf)
    (unreturned : file.crlf = false → ∀ entry ∈ edited.entries, Unreturned entry.lines)
    (kept : edited.entries.filter (fun entry => !entry.assigns name) = file.entries.filter fun entry => !entry.assigns name)
    (gives : edited.get name = value) : Edited singleLine file edited name value := by
  have lines : edited.render = written file.crlf (edited.entries.flatMap EnvEntry.lines) := by
    rw [render_written, endings]
  obtain ⟨again, parsed, same⟩ := stands.again unreturned
  refine ⟨kept, lines, again, by rw [lines, parsed], ?_, ?_⟩
  · rw [← gives, get_eq, get_eq, same]
  · rw [others_eq file, ← kept, ← others_eq, EnvFile.others, EnvFile.others, same]

section
variable (parsed : EnvFile.parse text singleLine = .ok file)
include parsed

theorem parse_stands :
    textLines text = file.entries.flatMap EnvEntry.lines ∧ file.crlf = hasCRLF text ∧ Stands singleLine file.entries ∧
      (file.crlf = false → ∀ entry ∈ file.entries, Unreturned entry.lines) := by
  unfold EnvFile.parse at parsed
  cases read : readEntries singleLine 0 0 (textLines text) with
  | error invalid => rw [read] at parsed; cases parsed
  | ok entries =>
    rw [read] at parsed
    cases parsed
    have plain : ∀ line ∈ textLines text, '\n' ∉ line := by
      have parts : ∀ line ∈ (text.splitOn '\n').map stripReturn, '\n' ∉ line := by
        intro line listed
        obtain ⟨other, inside, rfl⟩ := mem_map.mp listed
        exact stripReturn_plain (feed_not_mem_splitOn text other inside)
      intro line listed
      unfold textLines dropEmptyLast at listed
      split at listed
      · exact parts line (mem_of_mem_dropLast listed)
      · exact parts line listed
    obtain ⟨same, stands⟩ := readEntries_stands _ (Nat.le_refl _) plain read
    refine ⟨same, rfl, stands, ?_⟩
    intro feeds entry listed
    have whole := unreturned_textLines feeds
    obtain ⟨front, back, rfl⟩ := append_of_mem listed
    rw [same, flatMap_append, flatMap_cons, ← List.append_assoc] at whole
    exact whole.within

theorem set_edited (edit : file.set name value = .ok edited)
    (settable : Settable file name value) : Edited singleLine file edited name (some value) := by
  obtain ⟨-, -, stands, unreturned⟩ := parse_stands parsed
  obtain ⟨encoded, prefixLen, accepted, single, assigns, rfl, others, after⟩ := set_cases stands edit settable.named
  obtain ⟨reads, closed⟩ := readEntry_written single assigns rfl accepted settable.unescaped
  have lines : (⟨file.writtenLine name encoded, some ⟨prefixLen, name, value⟩⟩ : EnvEntry).lines =
      [file.writtenLine name encoded] := splitOn_eq_singleton single
  have assigned : (⟨file.writtenLine name encoded, some ⟨prefixLen, name, value⟩⟩ : EnvEntry).assigns name = true :=
    assigns_iff.mpr ⟨_, rfl, rfl⟩
  have unassigned : ∀ later ∈ (file.entries.take (file.place name)).filter (fun entry => !entry.assigns name),
      later.assigns name = false := by
    intro later listed
    simpa using (mem_filter.mp listed).2
  have keptStands : Stands singleLine ((file.entries.take (file.place name)).filter (fun entry => !entry.assigns name) ++
      file.entries.drop (file.place name + 1)) := by
    rw [← others]
    exact stands.sublist filter_sublist
  obtain ⟨each, apart⟩ := keptStands
  obtain ⟨before, later, across⟩ := pairwise_append.mp apart
  refine Edited.of_stands ⟨?_, ?_⟩ rfl ?_ ?_ ?_
  · intro entry listed
    rcases mem_append.mp listed with early | listed
    · exact each entry (mem_append_left _ early)
    · rcases mem_cons.mp listed with rfl | late
      · refine ⟨reads, if_neg ?_⟩
        exact fun contra => single contra.1
      · exact each entry (mem_append_right _ late)
  · refine pairwise_append.mpr ⟨before, pairwise_cons.mpr ⟨?_, later⟩, ?_⟩
    · intro other _ quote opened
      rw [closed] at opened
      cases opened
    · intro early listed late listed'
      rcases mem_cons.mp listed' with rfl | after
      · rw [lines]
        exact settable.quotes encoded accepted early (mem_of_mem_filter listed) (unassigned early listed)
      · exact across early listed late after
  · intro feeds entry listed
    rcases mem_append.mp listed with early | listed
    · exact unreturned feeds entry (mem_of_mem_take (mem_of_mem_filter early))
    · rcases mem_cons.mp listed with rfl | late
      · rw [lines]
        exact unreturned_single _
      · exact unreturned feeds entry (mem_of_mem_drop late)
  · rw [others, filter_append, filter_cons_of_neg (by rw [assigned]; decide), filter_filter]
    congr 1
    · exact filter_congr fun entry _ => by rw [Bool.and_self]
    · exact filter_eq_self.mpr fun entry listed => by rw [after entry listed]; rfl
  · rw [get_eq, assignments, filterMap_append, filterMap_cons]
    dsimp only
    rw [reverse_append, reverse_cons, List.append_assoc, find?_append, ← assignments, find_none after, none_or,
      singleton_append, find?_cons_of_pos (by simp)]
    rfl

theorem remove_edited (name : Line) :
    Edited singleLine file (file.remove name) name none := by
  obtain ⟨-, -, stands, unreturned⟩ := parse_stands parsed
  refine Edited.of_stands (stands.sublist filter_sublist) rfl ?_ ?_ ?_
  · exact fun feeds entry listed => unreturned feeds entry (mem_of_mem_filter listed)
  · rw [EnvFile.remove, filter_filter]
    exact filter_congr fun entry _ => by rw [Bool.and_self]
  · rw [EnvFile.get, Option.bind_eq_none_iff]
    intro index found
    obtain ⟨entry, here, assigns, -, -⟩ := EnvFile.position_some found
    have kept := (mem_filter.mp (mem_of_getElem? here)).2
    rw [assigns] at kept
    cases kept

end

/-- Edits of a file that was read change the assignments of a name and nothing else. -/
theorem edits_faithful {text : Line} {singleLine : List Line} {file : EnvFile}
    (parsed : EnvFile.parse text singleLine = .ok file) :
    (textLines text = file.entries.flatMap EnvEntry.lines ∧ file.crlf = hasCRLF text ∧
      (EndsAlike text → text = written file.crlf (file.entries.flatMap EnvEntry.lines))) ∧
      (∀ {name value edited}, file.set name value = .ok edited → Settable file name value →
        Edited singleLine file edited name (some value)) ∧
      ∀ name, Edited singleLine file (file.remove name) name none := by
  obtain ⟨same, endings, -, -⟩ := parse_stands parsed
  refine ⟨⟨same, endings, ?_⟩, set_edited parsed, remove_edited parsed⟩
  intro alike
  rw [← same, endings]
  exact alike.written

/-- An export, a value over two lines, and a quote that nothing closes. -/
def sample : EnvFile :=
  ⟨[⟨"export A=1".toList, some ⟨7, "A".toList, "1".toList⟩⟩,
    ⟨"B=\x22x\ny\x22 # two".toList, some ⟨0, "B".toList, "x\ny".toList⟩⟩,
    ⟨"C=\x27z".toList, some ⟨0, "C".toList, "\x27z".toList⟩⟩], false⟩

theorem sample_settable : Settable sample "B".toList "a \x22b\x22 # $c".toList := by
  refine ⟨⟨by decide, ?_⟩, by decide, ?_⟩
  · have each : "B".toList.all isNameChar = true := by decide
    exact all_eq_true.mp each
  · intro encoded _ earlier listed _ quote opened
    have place : sample.entries.take (sample.place "B".toList) =
        [⟨"export A=1".toList, some ⟨7, "A".toList, "1".toList⟩⟩] := by decide +kernel
    rw [place] at listed
    obtain rfl := mem_singleton.mp listed
    have closed : (⟨"export A=1".toList, some ⟨7, "A".toList, "1".toList⟩⟩ : EnvEntry).opens = none := by decide +kernel
    rw [closed] at opened
    cases opened

theorem edits_faithful_sample :
    ∃ edited, sample.set "B".toList "a \x22b\x22 # $c".toList = .ok edited ∧
      Edited ["A".toList] sample edited "B".toList (some "a \x22b\x22 # $c".toList) ∧
      Edited ["A".toList] sample (sample.remove "A".toList) "A".toList none := by
  have parsed : EnvFile.parse "export A=1\nB=\x22x\ny\x22 # two\nC=\x27z\n".toList ["A".toList] = .ok sample := by
    rfl
  obtain ⟨-, set, remove⟩ := edits_faithful parsed
  exact ⟨_, rfl, set rfl sample_settable, remove _⟩

/-- The endings of a text that mixes them change. -/
theorem endings_changed :
    ¬ ∀ (text : Line) (singleLine : List Line) (file edited : EnvFile) (name value : Line),
      text.getLast? = some '\n' → EnvFile.parse text singleLine = .ok file → file.position name = none →
        file.set name value = .ok edited → text <+: edited.render := by
  intro kept
  have edited := kept "A=1\r\nB=2\n".toList [] _ _ "C".toList "3".toList rfl rfl rfl rfl
  revert edited
  decide +kernel

end AstrLink.EnvFiles
