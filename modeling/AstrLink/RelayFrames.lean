import AstrLink.StreamEvents

/-!
Streams that are converted. However a stream is cut into writes, it is cut into the same blocks (`Cut`), and
the engine is handed their events in order, up to the first that it refuses (`relay_chunks`).
-/
namespace AstrLink.RelayFrames
open List
open JsonSyntax (Bytes)
open StreamEvents (parseSSEFrame trimSpace splitLines lineField withField Field ascii)

structure ResponseEvent where
  type : Bytes
  data : Bytes

/-- What the engine and the client answer to an event, after those that were handed on before it. -/
abbrev Convert (ε : Type) := List ResponseEvent → ResponseEvent → Option ε

structure Writer where
  handed : List ResponseEvent
  carry : Bytes
  carryScan : Nat
  lineStart : Nat

def start : Writer := ⟨[], [], 0, 0⟩

section
variable {ε : Type} (convert : Convert ε)

/-- The events with one more, and the refusal of it. -/
def convertStreamFrame (handed : List ResponseEvent) (frame : Bytes) : List ResponseEvent × Option ε :=
  if trimSpace frame = [] then (handed, none)
  else
    let (eventType, data) := parseSSEFrame frame
    -- the join of one empty line is nil, as that of none
    if data = [] then (handed, none) else (handed ++ [⟨eventType, data⟩], convert handed ⟨eventType, data⟩)

/-- Where a scan of the carried bytes has come to. -/
structure Scan (ε : Type) where
  handed : List ResponseEvent
  consumed : Nat
  carryScan : Nat
  lineStart : Nat
  failure : Option ε

def scanFrames (carry : Bytes) (handed : List ResponseEvent) (consumed carryScan lineStart : Nat) : Nat → Bytes → Scan ε
  | newline, [] => ⟨handed, consumed, newline, lineStart, none⟩
  | newline, byte :: rest =>
    if byte = 10 then
      let blank := newline == lineStart || (newline == lineStart + 1 && carry[lineStart]? == some 13)
      if blank then
        match convertStreamFrame convert handed ((carry.take lineStart).drop consumed) with
        | (handed, some failure) => ⟨handed, consumed, carryScan, lineStart, some failure⟩
        | (handed, none) => scanFrames carry handed (newline + 1) (newline + 1) (newline + 1) (newline + 1) rest
      else scanFrames carry handed consumed (newline + 1) (newline + 1) (newline + 1) rest
    else scanFrames carry handed consumed carryScan lineStart (newline + 1) rest

/-- Bytes that were scanned before are not scanned again. -/
def convertStreamFrames (writer : Writer) : Writer × Option ε :=
  let scan := scanFrames convert writer.carry writer.handed 0 writer.carryScan writer.lineStart writer.carryScan
    (writer.carry.drop writer.carryScan)
  match scan.failure with
  | some failure => (⟨scan.handed, writer.carry, scan.carryScan, scan.lineStart⟩, some failure)
  | none =>
    (⟨scan.handed, writer.carry.drop scan.consumed, scan.carryScan - scan.consumed, scan.lineStart - scan.consumed⟩, none)

def Writer.write (writer : Writer) (value : Bytes) : Writer × Option ε :=
  convertStreamFrames convert { writer with carry := writer.carry ++ value }

/-- The end of the stream: what is left is a block too. -/
def Writer.finish (writer : Writer) : List ResponseEvent × Option ε :=
  match convertStreamFrames convert writer with
  | (writer, some failure) => (writer.handed, some failure)
  | (writer, none) => convertStreamFrame convert writer.handed writer.carry

/-- The writes of a stream and its end. The first refusal ends it. -/
def relay (writer : Writer) : List Bytes → List ResponseEvent × Option ε
  | [] => writer.finish convert
  | value :: values =>
    match writer.write convert value with
    | (writer, some failure) => (writer.handed, some failure)
    | (writer, none) => relay writer values

/-- The events of some blocks, up to the first that is refused. -/
def offer (handed : List ResponseEvent) : List Bytes → List ResponseEvent × Option ε
  | [] => (handed, none)
  | block :: blocks =>
    match convertStreamFrame convert handed block with
    | (handed, some failure) => (handed, some failure)
    | (handed, none) => offer handed blocks

end

def Blank (line : Bytes) : Prop := line = [] ∨ line = [13]

instance (line : Bytes) : Decidable (Blank line) := inferInstanceAs (Decidable (_ ∨ _))

/-- The blocks that end in some bytes, the open one and its unfinished line. -/
def cutFrom (block line : Bytes) : Bytes → List Bytes × Bytes × Bytes
  | [] => ([], block, line)
  | byte :: rest =>
    if byte = 10 then
      if Blank line then
        let cut := cutFrom [] [] rest
        (block :: cut.1, cut.2)
      else cutFrom (block ++ (line ++ [10])) [] rest
    else cutFrom block (line ++ [byte]) rest

theorem cutFrom_append (block line first second : Bytes) :
    cutFrom block line (first ++ second) =
      ((cutFrom block line first).1 ++ (cutFrom (cutFrom block line first).2.1 (cutFrom block line first).2.2 second).1,
        (cutFrom (cutFrom block line first).2.1 (cutFrom block line first).2.2 second).2) := by
  induction first generalizing block line with
  | nil => simp [cutFrom]
  | cons byte first ih =>
    rw [cons_append, cutFrom, cutFrom]
    by_cases feed : byte = 10
    · rw [if_pos feed, if_pos feed]
      by_cases blank : Blank line
      · rw [if_pos blank, if_pos blank, ih]
        rfl
      · rw [if_neg blank, if_neg blank, ih]
    · rw [if_neg feed, if_neg feed, ih]

variable {ε : Type} (convert : Convert ε)

theorem offer_append (handed : List ResponseEvent) (first second : List Bytes) :
    offer convert handed (first ++ second) =
      match offer convert handed first with
      | (handed, some failure) => (handed, some failure)
      | (handed, none) => offer convert handed second := by
  induction first generalizing handed with
  | nil => rfl
  | cons block first ih =>
    rw [cons_append, offer, offer]
    rcases convertStreamFrame convert handed block with ⟨handed, refused | failure⟩
    · exact ih handed
    · rfl

variable {line : Bytes}

theorem blank_iff {carry before rest : Bytes} (whole : carry = before ++ (line ++ 10 :: rest)) :
    (before.length + line.length == before.length ||
      (before.length + line.length == before.length + 1 && carry[before.length]? == some 13)) = true ↔ Blank line := by
  match line with
  | [] => simp [Blank]
  | [byte] => simp [Blank, whole]
  | first :: second :: more => simp [Blank]

/-- The carried bytes after a scan: an unfinished block and line. -/
structure Carries (carry : Bytes) (scan : Scan ε) (block line : Bytes) : Prop where
  accepted : scan.failure = none
  left : carry.drop scan.consumed = block ++ line
  unfinished : scan.lineStart = scan.consumed + block.length
  scanned : scan.carryScan = scan.consumed + (block ++ line).length

theorem scanFrames_cut (convert : Convert ε) {carry : Bytes} (handed : List ResponseEvent)
    (dropped block line : Bytes) (carryScan : Nat) (rest : Bytes)
    (whole : carry = dropped ++ (block ++ (line ++ rest))) :
    let scan := scanFrames convert carry handed dropped.length carryScan (dropped.length + block.length)
      (dropped.length + (block.length + line.length)) rest
    (scan.handed, scan.failure) = offer convert handed (cutFrom block line rest).1 ∧
      (scan.failure = none → Carries carry scan (cutFrom block line rest).2.1 (cutFrom block line rest).2.2) := by
  induction rest generalizing handed dropped block line carryScan with
  | nil =>
    refine ⟨rfl, fun accepted => ⟨accepted, ?_, rfl, ?_⟩⟩
    · simp [whole, scanFrames, cutFrom]
    · simp [scanFrames, cutFrom]
  | cons byte rest ih =>
    rw [scanFrames, cutFrom]
    by_cases feed : byte = 10
    · subst feed
      have before : carry = (dropped ++ block) ++ (line ++ 10 :: rest) := by rw [whole, List.append_assoc]
      have blank := blank_iff before
      rw [length_append, Nat.add_assoc] at blank
      have frame : (carry.take (dropped.length + block.length)).drop dropped.length = block := by
        rw [before, ← length_append, take_left, drop_left]
      by_cases ends : Blank line
      · rw [if_pos rfl, if_pos rfl, if_pos ends]
        dsimp only
        rw [if_pos (blank.mpr ends), frame, offer]
        rcases convertStreamFrame convert handed block with ⟨after, refused | failure⟩
        · have more := ih after (dropped ++ (block ++ (line ++ [10]))) [] []
            (dropped.length + (block.length + line.length) + 1) (by simp [whole])
          have place : (dropped ++ (block ++ (line ++ [10]))).length =
              dropped.length + (block.length + line.length) + 1 := by simp; omega
          rw [place] at more
          exact more
        · exact ⟨rfl, fun contra => by cases contra⟩
      · rw [if_pos rfl, if_pos rfl, if_neg ends]
        dsimp only
        rw [if_neg (fun found => ends (blank.mp found))]
        have more := ih handed dropped (block ++ (line ++ [10])) [] (dropped.length + (block.length + line.length) + 1)
          (by simp [whole])
        have place : dropped.length + (block ++ (line ++ [10])).length =
            dropped.length + (block.length + line.length) + 1 := by simp; omega
        simp only [length_nil, Nat.add_zero, place] at more
        exact more
    · rw [if_neg feed, if_neg feed]
      have more := ih handed dropped block (line ++ [byte]) carryScan (by simp [whole])
      rw [length_append, length_singleton, ← Nat.add_assoc block.length, ← Nat.add_assoc dropped.length] at more
      exact more

structure Keeps (writer : Writer) (block line : Bytes) : Prop where
  carry : writer.carry = block ++ line
  lineStart : writer.lineStart = block.length
  carryScan : writer.carryScan = writer.carry.length

theorem convertStreamFrames_cut {ε : Type} (convert : Convert ε) {writer : Writer} {block line : Bytes} (value : Bytes)
    (carry : writer.carry = block ++ (line ++ value)) (lineStart : writer.lineStart = block.length)
    (carryScan : writer.carryScan = (block ++ line).length) :
    ((convertStreamFrames convert writer).1.handed, (convertStreamFrames convert writer).2) =
        offer convert writer.handed (cutFrom block line value).1 ∧
      ((convertStreamFrames convert writer).2 = none →
        Keeps (convertStreamFrames convert writer).1 (cutFrom block line value).2.1 (cutFrom block line value).2.2) := by
  have scan := scanFrames_cut convert writer.handed [] block line writer.carryScan value carry
  have unread : writer.carry.drop writer.carryScan = value := by
    rw [carry, carryScan, ← List.append_assoc, drop_left]
  have starts : writer.carryScan = block.length + line.length := by rw [carryScan, length_append]
  simp only [length_nil, Nat.zero_add, ← starts] at scan
  rw [← lineStart] at scan
  unfold convertStreamFrames
  rw [unread]
  generalize scanFrames convert writer.carry writer.handed 0 writer.carryScan writer.lineStart writer.carryScan value =
    scanned at scan ⊢
  obtain ⟨answer, carries⟩ := scan
  rw [← answer]
  dsimp only
  cases failed : scanned.failure with
  | some failure => exact ⟨rfl, fun contra => by cases contra⟩
  | none =>
    obtain ⟨-, left, unfinished, at_end⟩ := carries failed
    refine ⟨rfl, fun _ => ⟨left, ?_, ?_⟩⟩
    · dsimp only
      omega
    · dsimp only
      rw [left]
      omega

variable {writer : Writer} {block : Bytes}

theorem Writer.write_cut (keeps : Keeps writer block line) (value : Bytes) :
    ((writer.write convert value).1.handed, (writer.write convert value).2) =
        offer convert writer.handed (cutFrom block line value).1 ∧
      ((writer.write convert value).2 = none →
        Keeps (writer.write convert value).1 (cutFrom block line value).2.1 (cutFrom block line value).2.2) := by
  refine @convertStreamFrames_cut ε convert { writer with carry := writer.carry ++ value } block line value ?_
    keeps.lineStart ?_
  · dsimp only
    rw [keeps.carry, List.append_assoc]
  · rw [← keeps.carry]
    exact keeps.carryScan

theorem Writer.finish_cut (keeps : Keeps writer block line) :
    writer.finish convert = convertStreamFrame convert writer.handed (block ++ line) := by
  have nothing := @convertStreamFrames_cut ε convert writer block line [] (by rw [keeps.carry, append_nil])
    keeps.lineStart (by rw [keeps.carryScan, keeps.carry])
  obtain ⟨answer, kept⟩ := nothing
  unfold Writer.finish
  generalize convertStreamFrames convert writer = result at answer kept ⊢
  obtain ⟨after, refused | failure⟩ := result
  · obtain ⟨handed, -⟩ := Prod.mk.inj answer
    dsimp only at handed ⊢
    rw [handed, (kept rfl).carry]
    rfl
  · obtain ⟨-, contra⟩ := Prod.mk.inj answer
    cases contra

/-- The blocks of a stream, of which the last is not ended by a blank line. -/
def blocks (stream : Bytes) : List Bytes :=
  let cut := cutFrom [] [] stream
  cut.1 ++ [cut.2.1 ++ cut.2.2]

theorem relay_from (keeps : Keeps writer block line) (values : List Bytes) :
    relay convert writer values =
      offer convert writer.handed ((cutFrom block line values.flatten).1 ++
        [(cutFrom block line values.flatten).2.1 ++ (cutFrom block line values.flatten).2.2]) := by
  induction values generalizing writer block line with
  | nil =>
    rw [relay, Writer.finish_cut convert keeps, flatten_nil, cutFrom, nil_append, offer]
    rcases convertStreamFrame convert writer.handed (block ++ line) with ⟨handed, refused | failure⟩
    · rfl
    · rfl
  | cons value values ih =>
    rw [relay, flatten_cons, cutFrom_append]
    obtain ⟨answer, kept⟩ := Writer.write_cut convert keeps value
    dsimp only
    rw [List.append_assoc, offer_append, ← answer]
    generalize writer.write convert value = result at kept ⊢
    obtain ⟨after, refused | failure⟩ := result
    · exact ih (kept rfl)
    · rfl

theorem relay_blocks (values : List Bytes) : relay convert start values = offer convert [] (blocks values.flatten) :=
  relay_from convert ⟨rfl, rfl, rfl⟩ values

def terminated (lines : List Bytes) : Bytes := lines.flatMap (· ++ [10])

def Block (lines : List Bytes) : Prop := ∀ line ∈ lines, 10 ∉ line ∧ ¬ Blank line

/-- A stream cut at its blank lines; what is left is a block too. -/
inductive Cut : Bytes → List Bytes → Prop where
  | last (lines : List Bytes) (line : Bytes) (block : Block lines) (unfinished : 10 ∉ line) :
      Cut (terminated lines ++ line) [terminated lines ++ line]
  | block (lines : List Bytes) (blank rest : Bytes) (others : List Bytes) (block : Block lines) (ends : Blank blank)
      (cut : Cut rest others) : Cut (terminated lines ++ (blank ++ 10 :: rest)) (terminated lines :: others)

theorem Blank.no_feed (blank : Blank line) : 10 ∉ line := by
  rcases blank with rfl | rfl <;> decide

theorem terminated_snoc (lines : List Bytes) (line : Bytes) :
    terminated (lines ++ [line]) = terminated lines ++ (line ++ [10]) := by
  simp [terminated]

theorem Block.snoc {lines : List Bytes} (block : Block lines) (plain : 10 ∉ line) (full : ¬ Blank line) :
    Block (lines ++ [line]) := by
  intro other listed
  rcases mem_append.mp listed with before | same
  · exact block other before
  · rw [mem_singleton.mp same]
    exact ⟨plain, full⟩

theorem cutFrom_cut (lines : List Bytes) (line rest : Bytes) (block : Block lines) (plain : 10 ∉ line) :
    Cut (terminated lines ++ (line ++ rest)) ((cutFrom (terminated lines) line rest).1 ++
      [(cutFrom (terminated lines) line rest).2.1 ++ (cutFrom (terminated lines) line rest).2.2]) := by
  induction rest generalizing lines line with
  | nil =>
    rw [append_nil]
    exact .last lines line block plain
  | cons byte rest ih =>
    rw [cutFrom]
    by_cases feed : byte = 10
    · rw [if_pos feed, feed]
      by_cases blank : Blank line
      · rw [if_pos blank]
        exact .block lines line rest _ block blank (ih [] [] (fun _ none_left => by cases none_left) (by simp))
      · rw [if_neg blank, ← terminated_snoc]
        have more := ih (lines ++ [line]) [] (block.snoc plain blank) (by simp)
        rw [terminated_snoc] at more ⊢
        simpa using more
    · rw [if_neg feed]
      have more := ih lines (line ++ [byte]) block (by
        rw [mem_append, mem_singleton]
        exact fun found => found.elim plain fun same => feed same.symm)
      simpa using more

theorem cut_blocks (stream : Bytes) : Cut stream (blocks stream) :=
  cutFrom_cut [] [] stream (fun _ none_left => by cases none_left) (by simp)

theorem cutFrom_line (block before line rest : Bytes) (plain : 10 ∉ line) :
    cutFrom block before (line ++ rest) = cutFrom block (before ++ line) rest := by
  induction line generalizing before with
  | nil => rw [nil_append, append_nil]
  | cons byte line ih =>
    rw [mem_cons, not_or] at plain
    rw [cons_append, cutFrom, if_neg (fun same => plain.1 same.symm), ih _ plain.2, List.append_assoc]
    rfl

theorem cutFrom_terminated (block : Bytes) (lines : List Bytes) (rest : Bytes) (full : Block lines) :
    cutFrom block [] (terminated lines ++ rest) = cutFrom (block ++ terminated lines) [] rest := by
  induction lines generalizing block with
  | nil => simp [terminated]
  | cons line lines ih =>
    obtain ⟨plain, solid⟩ := full line mem_cons_self
    have shape : terminated (line :: lines) ++ rest = line ++ 10 :: (terminated lines ++ rest) := by simp [terminated]
    rw [shape, cutFrom_line _ _ _ _ plain, nil_append, cutFrom, if_pos rfl, if_neg solid,
      ih _ fun other listed => full other (mem_cons_of_mem line listed)]
    simp [terminated]

theorem Cut.blocks_eq {stream : Bytes} {found : List Bytes} (cut : Cut stream found) : found = blocks stream := by
  induction cut with
  | last lines line block unfinished =>
    have whole := cutFrom_line (terminated lines) [] line [] unfinished
    rw [append_nil] at whole
    rw [blocks, cutFrom_terminated [] lines line block, nil_append, whole]
    rfl
  | block lines blank rest others block ends cut ih =>
    rw [blocks, cutFrom_terminated [] lines _ block, nil_append, cutFrom_line _ _ _ _ ends.no_feed, nil_append,
      cutFrom, if_pos rfl, if_pos ends, ih]
    rfl

def dataOf (line : Bytes) : Option Bytes :=
  match lineField line with
  | .data value => some value
  | _ => none

def dataLines (block : Bytes) : List Bytes := (splitLines block).filterMap dataOf

def event (block : Bytes) : Option ResponseEvent :=
  if trimSpace block = [] then none
  else if (parseSSEFrame block).2 = [] then none
  else some ⟨(parseSSEFrame block).1, (parseSSEFrame block).2⟩

theorem convertStreamFrame_event (handed : List ResponseEvent) (block : Bytes) :
    convertStreamFrame convert handed block =
      match event block with
      | none => (handed, none)
      | some next => (handed ++ [next], convert handed next) := by
  unfold convertStreamFrame event
  by_cases empty : trimSpace block = []
  · rw [if_pos empty, if_pos empty]
  · rw [if_neg empty, if_neg empty]
    dsimp only
    by_cases none_left : (parseSSEFrame block).2 = []
    · rw [if_pos none_left, if_pos none_left]
    · rw [if_neg none_left, if_neg none_left]

theorem offer_all {convert : Convert ε} (accepts : ∀ before next, convert before next = none)
    (handed : List ResponseEvent) (found : List Bytes) :
    offer convert handed found = (handed ++ found.filterMap event, none) := by
  induction found generalizing handed with
  | nil => simp [offer]
  | cons block found ih =>
    rw [offer, convertStreamFrame_event]
    cases made : event block with
    | none =>
      rw [filterMap_cons_none made]
      exact ih handed
    | some next =>
      dsimp only
      rw [accepts, filterMap_cons_some made]
      dsimp only
      rw [ih, List.append_assoc]
      rfl

theorem withField_data (fields : List Field) (seen : Bytes × List Bytes) :
    (fields.foldl withField seen).2 = seen.2 ++ fields.filterMap fun field =>
      match field with
      | .data value => some value
      | _ => none := by
  induction fields generalizing seen with
  | nil => simp
  | cons field fields ih =>
    rw [foldl_cons, ih]
    cases field <;> simp [withField]

theorem parseSSEFrame_data (block : Bytes) :
    (parseSSEFrame block).2 = if dataLines block = [] then [] else [10].intercalate (dataLines block) := by
  have data : (((splitLines block).map lineField).foldl withField (ascii "data", [])).2 = dataLines block := by
    rw [withField_data, nil_append, filterMap_map]
    rfl
  unfold parseSSEFrame
  dsimp only
  rw [data]
  split
  · rfl
  · split <;> rfl

theorem intercalate_nil_iff {lines : List Bytes} (some_line : lines ≠ []) :
    [10].intercalate lines = [] ↔ lines = [[]] := by
  match lines with
  | [] => exact absurd rfl some_line
  | [line] => simp
  | first :: second :: more => simp [List.intercalate, List.intersperse]

theorem mem_dropSpellings {spellings : List Bytes} {byte : UInt8}
    (foreign : ∀ spelling ∈ spellings, spelling ≠ [] ∧ byte ∉ spelling) (left : Nat) (data : Bytes)
    (later : byte ∉ data.take left) (listed : byte ∈ data) : byte ∈ StreamEvents.dropSpellings spellings left data := by
  induction data generalizing left with
  | nil => cases listed
  | cons first data ih =>
    cases left with
    | succ left =>
      rw [take_succ_cons, mem_cons, not_or] at later
      rw [StreamEvents.dropSpellings]
      exact ih left later.2 ((mem_cons.mp listed).resolve_left later.1)
    | zero =>
      rw [StreamEvents.dropSpellings]
      cases found : spellings.find? (·.isPrefixOf (first :: data)) with
      | none => exact listed
      | some spelling =>
        dsimp only
        obtain ⟨solid, absent⟩ := foreign spelling (mem_of_find?_eq_some found)
        have begins := find?_some found
        obtain ⟨more, spelled⟩ := isPrefixOf_iff_prefix.mp begins
        obtain ⟨head, tail, rfl⟩ := exists_cons_of_ne_nil solid
        obtain ⟨rfl, rfl⟩ := List.cons.inj spelled
        rw [mem_cons, not_or] at absent
        refine ih tail.length ?_ ((mem_cons.mp listed).resolve_left absent.1)
        rw [append_eq, take_left]
        exact absent.2

theorem letter_foreign : ∀ spelling ∈ StreamEvents.spaceRunes, spelling ≠ [] ∧ (0x64 : UInt8) ∉ spelling := by
  decide

theorem trimSpace_letter {data : Bytes} (listed : (0x64 : UInt8) ∈ data) : trimSpace data ≠ [] := by
  have front := mem_dropSpellings letter_foreign 0 data (by simp) listed
  have mirrored : ∀ spelling ∈ StreamEvents.spaceRunes.map List.reverse, spelling ≠ [] ∧ (0x64 : UInt8) ∉ spelling := by
    intro spelling spelled
    obtain ⟨plain, inside, rfl⟩ := mem_map.mp spelled
    obtain ⟨solid, absent⟩ := letter_foreign plain inside
    exact ⟨by simpa using solid, by simpa using absent⟩
  have back := mem_dropSpellings mirrored 0 _ (by simp) (mem_reverse.mpr front)
  exact ne_nil_of_mem (mem_reverse.mpr back)

theorem mem_splitLines (listed : line ∈ splitLines block) {byte : UInt8} (inside : byte ∈ line) : byte ∈ block := by
  induction block generalizing line with
  | nil =>
    rw [mem_singleton.mp listed] at inside
    cases inside
  | cons first block ih =>
    rw [splitLines] at listed
    split at listed
    · rcases mem_cons.mp listed with rfl | later
      · cases inside
      · exact mem_cons_of_mem first (ih later inside)
    · obtain ⟨head, rest, split⟩ := StreamEvents.splitLines_some block
      rw [split, StreamEvents.onFirst] at listed
      rw [split] at ih
      rcases mem_cons.mp listed with rfl | later
      · rcases mem_cons.mp inside with rfl | tail
        · exact mem_cons_self
        · exact mem_cons_of_mem first (ih mem_cons_self tail)
      · exact mem_cons_of_mem first (ih (mem_cons_of_mem head later) inside)

theorem dataLines_letter (some_line : dataLines block ≠ []) : (0x64 : UInt8) ∈ block := by
  obtain ⟨value, listed⟩ := exists_mem_of_ne_nil _ some_line
  obtain ⟨line, among, found⟩ := mem_filterMap.mp listed
  unfold dataOf lineField at found
  refine mem_splitLines among ?_
  split at found
  · rename_i other data
    split at data
    · cases data
    · split at data
      · rename_i begins
        obtain ⟨more, rfl⟩ := isPrefixOf_iff_prefix.mp begins
        exact mem_append_left _ (by decide)
      · cases data
  · cases found

theorem event_iff (block : Bytes) : (event block).isSome = true ↔ dataLines block ≠ [] ∧ dataLines block ≠ [[]] := by
  unfold event
  rw [parseSSEFrame_data]
  by_cases none_left : dataLines block = []
  · rw [none_left]
    simp
  · rw [if_neg (trimSpace_letter (dataLines_letter none_left)), if_neg none_left]
    by_cases blank : dataLines block = [[]]
    · rw [if_pos ((intercalate_nil_iff none_left).mpr blank)]
      simp [blank]
    · rw [if_neg (fun empty => blank ((intercalate_nil_iff none_left).mp empty))]
      simp [blank, none_left]

/-- The engine is handed the events of a stream's blocks, up to the first that it refuses, however the stream
is cut into writes. -/
theorem relay_chunks {ε : Type} (convert : Convert ε) (values : List Bytes) :
    (∀ others : List Bytes, others.flatten = values.flatten → relay convert start others = relay convert start values) ∧
      (∀ found, Cut values.flatten found ↔ found = blocks values.flatten) ∧
      relay convert start values = offer convert [] (blocks values.flatten) ∧
      ((∀ before next, convert before next = none) →
        relay convert start values = ((blocks values.flatten).filterMap event, none)) ∧
      ∀ block, (event block).isSome = true ↔ dataLines block ≠ [] ∧ dataLines block ≠ [[]] := by
  refine ⟨?_, ?_, relay_blocks convert values, ?_, event_iff⟩
  · intro others same
    rw [relay_blocks, relay_blocks, same]
  · intro found
    refine ⟨Cut.blocks_eq, ?_⟩
    rintro rfl
    exact cut_blocks values.flatten
  · intro accepts
    rw [relay_blocks, offer_all accepts, nil_append]

/-- A block whose only data line is blank has no event. -/
theorem blank_data : ¬ ∀ (values : List Bytes),
    (relay (fun _ _ => (none : Option Unit)) start values).1.length =
      ((blocks values.flatten).filter fun block => dataLines block ≠ []).length := by
  intro counted
  have one := counted [ascii "data:\n\n"]
  revert one
  decide

end AstrLink.RelayFrames
