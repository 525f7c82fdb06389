import AstrLink.VisibleRestore

/-!
One event of an event stream: its data lines are read as one text, and written
back as one line in the place of the first. Lines end in LF, in CR LF or in CR;
an event ends at its first empty line.
-/
namespace AstrLink.SseFrames
open IPAddress VisibleRestore List

/-- The lines of a frame, whatever they end in. -/
def sseLines (frame : Text) : List Text := (normalizeSSELines frame).splitOn '\n'

def isDataLine (line : Text) : Bool := "data:".toList.isPrefixOf line

/-- What a data line carries: one space after the colon is no part of it. -/
def lineData (line : Text) : Option Text :=
  if isDataLine line then
    match line.drop "data:".length with
    | ' ' :: value => some value
    | value => some value
  else none

def parseSSEData (frame : Text) : Text := ['\n'].intercalate ((sseLines frame).filterMap lineData)

def isBreak (char : Char) : Bool := char == '\n' || char == '\r'

/-- The loop over the lines of a buffer: where the first empty line ends. -/
def frameEndFrom (lineStart : Nat) (rest : Text) : Nat :=
  let line := rest.takeWhile (fun char => !isBreak char)
  match _ended : rest.dropWhile (fun char => !isBreak char) with
  | [] => 0
  | '\r' :: '\n' :: after =>
    let position := lineStart + line.length + 2
    if line = [] then position else frameEndFrom position after
  | _ :: after =>
    let position := lineStart + line.length + 1
    if line = [] then position else frameEndFrom position after
termination_by rest.length
decreasing_by
  all_goals
    have shorter := (dropWhile_sublist (l := rest) (fun char => !isBreak char)).length_le
    rw [_ended] at shorter
    simp only [length_cons] at shorter
    omega

/-- Where the first event of a buffer ends, zero when it does not end yet. -/
def nextSSEFrameEnd (buffer : Text) : Nat := frameEndFrom 0 buffer

/-- The lines of a frame that carry no data, the empty ones apart. -/
def otherLines (frame : Text) : List Text := (sseLines frame).filter (fun line => line ≠ [] && !isDataLine line)

def Unbroken (line : Text) : Prop := ∀ char ∈ line, isBreak char = false

variable {line : Text}

theorem Unbroken.lf (unbroken : Unbroken line) : '\n' ∉ line := fun member => by
  have broken := unbroken '\n' member
  cases broken

theorem Unbroken.cr (unbroken : Unbroken line) : '\r' ∉ line := fun member => by
  have broken := unbroken '\r' member
  cases broken

inductive LineEnd : Text → Prop where
  | lf : LineEnd ['\n']
  | crlf : LineEnd ['\r', '\n']

def ended (newline : Text) (lines : List Text) : Text := lines.flatMap (· ++ newline)

theorem ended_cons (newline line : Text) (lines : List Text) :
    ended newline (line :: lines) = line ++ (newline ++ ended newline lines) := by
  simp [ended]

theorem normalize_unbroken (unbroken : Unbroken line) (rest : Text) :
    normalizeSSELines (line ++ rest) = line ++ normalizeSSELines rest := by
  induction line with
  | nil => rfl
  | cons char line ih =>
    have apart : char ≠ '\r' := fun same => unbroken.cr (same ▸ mem_cons_self)
    have others : Unbroken line := fun other member => unbroken other (mem_cons_of_mem char member)
    rw [cons_append, normalizeSSELines.eq_3 _ _ (fun _ same _ => apart same) (fun same => apart same), ih others,
      cons_append]

variable {newline : Text}

theorem normalize_end (lineEnd : LineEnd newline) (rest : Text) :
    normalizeSSELines (newline ++ rest) = '\n' :: normalizeSSELines rest := by
  cases lineEnd with
  | lf => rw [singleton_append, normalizeSSELines.eq_3 _ _ (by simp) (by simp)]
  | crlf => rw [cons_append, singleton_append, normalizeSSELines]

variable {lines : List Text}

theorem normalize_ended (lineEnd : LineEnd newline) (unbroken : ∀ line ∈ lines, Unbroken line) (rest : Text) :
    normalizeSSELines (ended newline lines ++ rest) = ended ['\n'] lines ++ normalizeSSELines rest := by
  induction lines with
  | nil => rfl
  | cons line lines ih =>
    obtain ⟨first, others⟩ := forall_mem_cons.mp unbroken
    rw [ended_cons, ended_cons, List.append_assoc, List.append_assoc, normalize_unbroken first, normalize_end lineEnd,
      ih others, List.append_assoc, List.append_assoc, singleton_append]

theorem split_ended (unbroken : ∀ line ∈ lines, Unbroken line) (rest : Text) :
    (ended ['\n'] lines ++ rest).splitOn '\n' = lines ++ rest.splitOn '\n' := by
  induction lines with
  | nil => rfl
  | cons line lines ih =>
    obtain ⟨first, others⟩ := forall_mem_cons.mp unbroken
    rw [ended_cons, List.append_assoc, List.append_assoc, singleton_append,
      splitOn_append_cons_self_of_not_mem first.lf, ih others, cons_append]

variable (frame : Text)

theorem normalize_cr : '\r' ∉ normalizeSSELines frame := by
  induction frame using normalizeSSELines.induct with
  | case1 rest ih => simpa [normalizeSSELines] using ih
  | case2 rest plain ih =>
    rw [normalizeSSELines.eq_2 _ plain]
    simpa using ih
  | case3 char rest crlf cr ih =>
    rw [normalizeSSELines.eq_3 _ _ crlf cr]
    simpa [eq_comm] using ⟨fun same => cr same, ih⟩
  | case4 => simp [normalizeSSELines]

theorem splitOn_fields (sep : Char) (text : Text) :
    ∀ field ∈ text.splitOn sep, ∀ char ∈ field, char ≠ sep ∧ char ∈ text := by
  induction text with
  | nil => simp [splitOn_nil]
  | cons head rest ih =>
    intro field listed char member
    rw [splitOn_cons_eq_if_modifyHead] at listed
    split at listed
    · rcases mem_cons.mp listed with rfl | listed
      · cases member
      · exact ⟨(ih field listed char member).1, mem_cons_of_mem head (ih field listed char member).2⟩
    · rename_i apart
      obtain ⟨first, others, split⟩ := exists_cons_of_ne_nil (splitOn_ne_nil sep rest)
      rw [split, modifyHead_cons] at listed
      rw [split] at ih
      rcases mem_cons.mp listed with rfl | listed
      · rcases mem_cons.mp member with rfl | member
        · exact ⟨by simpa using apart, mem_cons_self⟩
        · have inside := ih first mem_cons_self char member
          exact ⟨inside.1, mem_cons_of_mem head inside.2⟩
      · have inside := ih field (mem_cons_of_mem first listed) char member
        exact ⟨inside.1, mem_cons_of_mem head inside.2⟩

theorem sseLines_unbroken : ∀ line ∈ sseLines frame, Unbroken line := by
  intro line listed char member
  obtain ⟨apart, inside⟩ := splitOn_fields '\n' _ line listed char member
  have other : char ≠ '\r' := fun same => normalize_cr frame (same ▸ inside)
  simp [isBreak, apart, other]

theorem frameEndFrom_ended (lineEnd : LineEnd newline) (unbroken : ∀ line ∈ lines, Unbroken line)
    (filled : ∀ line ∈ lines, line ≠ []) (lineStart : Nat) :
    frameEndFrom lineStart (ended newline lines ++ newline) =
      lineStart + (ended newline lines ++ newline).length := by
  have step : ∀ (line rest : Text) (lineStart : Nat), Unbroken line →
      frameEndFrom lineStart (line ++ (newline ++ rest)) =
        if line = [] then lineStart + line.length + newline.length
        else frameEndFrom (lineStart + line.length + newline.length) rest := by
    intro line rest lineStart unbroken
    have taken : (line ++ (newline ++ rest)).takeWhile (fun char => !isBreak char) = line := by
      rw [takeWhile_append_of_pos (fun char member => by simp [unbroken char member])]
      cases lineEnd <;> simp [isBreak]
    have dropped : (line ++ (newline ++ rest)).dropWhile (fun char => !isBreak char) = newline ++ rest := by
      rw [dropWhile_append_of_pos (fun char member => by simp [unbroken char member])]
      cases lineEnd <;> simp [isBreak]
    rw [frameEndFrom]
    cases lineEnd with
    | lf =>
      have dropped : (line ++ (['\n'] ++ rest)).dropWhile (fun char => !isBreak char) = '\n' :: rest := dropped
      split
      · rename_i left
        cases dropped.symm.trans left
      · rename_i after left
        cases dropped.symm.trans left
      · rename_i char after _ left
        cases dropped.symm.trans left
        rw [taken]
        simp
    | crlf =>
      have dropped : (line ++ (['\r', '\n'] ++ rest)).dropWhile (fun char => !isBreak char) = '\r' :: '\n' :: rest :=
        dropped
      split
      · rename_i left
        cases dropped.symm.trans left
      · rename_i after left
        cases dropped.symm.trans left
        rw [taken]
        simp
      · rename_i char after other left
        cases dropped.symm.trans left
        exact absurd rfl (other rest rfl)
  induction lines generalizing lineStart with
  | nil =>
    have only := step [] [] lineStart (fun _ member => by cases member)
    rwa [append_nil, nil_append, if_pos rfl] at only
  | cons line lines ih =>
    obtain ⟨first, others⟩ := forall_mem_cons.mp unbroken
    obtain ⟨some_char, rest⟩ := forall_mem_cons.mp filled
    rw [ended_cons, List.append_assoc, List.append_assoc, step _ _ _ first, if_neg some_char, ih others rest]
    simp only [length_append]
    omega

/-- The lines that are written for a frame. -/
def renderedLines (data : Text) : Bool → List Text → List Text
  | _, [] => []
  | inserted, line :: rest =>
    if line = [] then renderedLines data inserted rest
    else if isDataLine line then
      if inserted then renderedLines data inserted rest
      else ("data: ".toList ++ data) :: renderedLines data true rest
    else line :: renderedLines data inserted rest

variable (data : Text)

theorem renderSSELines_ended (newline : Text) (inserted : Bool) (lines : List Text) :
    renderSSELines data newline inserted lines = ended newline (renderedLines data inserted lines) ++ newline := by
  induction lines generalizing inserted with
  | nil => rfl
  | cons line rest ih =>
    rw [renderSSELines, renderedLines]
    split
    · exact ih inserted
    · by_cases carries : isDataLine line = true
      · have listed : "data:".toList.isPrefixOf line = true := carries
        rw [if_pos carries, if_pos listed]
        cases inserted with
        | true => exact ih true
        | false =>
          show "data: ".toList ++ data ++ newline ++ _ = ended newline (("data: ".toList ++ data) :: _) ++ newline
          rw [ih true, ended_cons]
          simp only [List.append_assoc]
      · have listed : ¬ "data:".toList.isPrefixOf line = true := carries
        rw [if_neg carries, if_neg listed, ih inserted, ended_cons]
        simp only [List.append_assoc]

theorem mem_renderedLines {data : Text} {inserted : Bool} (listed : line ∈ renderedLines data inserted lines) :
    line = "data: ".toList ++ data ∨ (line ∈ lines ∧ line ≠ []) := by
  induction lines generalizing inserted with
  | nil => cases listed
  | cons head rest ih =>
    have later : ∀ inserted, line ∈ renderedLines data inserted rest →
        line = "data: ".toList ++ data ∨ (line ∈ head :: rest ∧ line ≠ []) := fun inserted member =>
      (ih member).imp_right (fun found => ⟨mem_cons_of_mem head found.1, found.2⟩)
    rw [renderedLines] at listed
    split at listed
    · exact later _ listed
    rename_i filled
    split at listed
    · split at listed
      · exact later _ listed
      · rcases mem_cons.mp listed with rfl | listed
        · exact .inl rfl
        · exact later _ listed
    · rcases mem_cons.mp listed with rfl | listed
      · exact .inr ⟨mem_cons_self, filled⟩
      · exact later _ listed

theorem isDataLine_data : isDataLine ("data: ".toList ++ data) = true := rfl

theorem lineData_data : lineData ("data: ".toList ++ data) = some data := rfl

theorem lineData_none (other : ¬ isDataLine line = true) : lineData line = none := by
  unfold lineData
  rw [if_neg other]

theorem filterMap_rendered (inserted : Bool) (lines : List Text) :
    (renderedLines data inserted lines).filterMap lineData =
      if inserted = false ∧ ∃ line ∈ lines, isDataLine line = true then [data] else [] := by
  induction lines generalizing inserted with
  | nil => simp [renderedLines]
  | cons line rest ih =>
    rw [renderedLines]
    split
    · rename_i blank
      have other : ¬ isDataLine line = true := by
        rw [blank]
        decide
      rw [ih]
      simp [other]
    · by_cases carries : isDataLine line = true
      · rw [if_pos carries]
        cases inserted with
        | true =>
          rw [if_pos rfl, ih]
          simp
        | false =>
          rw [if_neg (by decide), filterMap_cons_some (lineData_data data), ih]
          simp [carries]
      · rw [if_neg carries, filterMap_cons_none (lineData_none carries), ih]
        simp [carries]

theorem filter_rendered (inserted : Bool) (lines : List Text) :
    (renderedLines data inserted lines).filter (fun line => line ≠ [] && !isDataLine line) =
      lines.filter (fun line => line ≠ [] && !isDataLine line) := by
  induction lines generalizing inserted with
  | nil => rfl
  | cons line rest ih =>
    rw [renderedLines]
    split
    · rename_i blank
      rw [ih, filter_cons_of_neg (by simp [blank])]
    · rename_i filled
      split
      · rename_i carries
        rw [filter_cons_of_neg (by simp [carries])]
        split
        · exact ih _
        · have written := isDataLine_data data
          rw [filter_cons_of_neg (by rw [written]; simp), ih]
      · rename_i other
        rw [filter_cons_of_pos (by simp [filled, other]), filter_cons_of_pos (by simp [filled, other]), ih]

theorem sseLines_ended (lineEnd : LineEnd newline) (unbroken : ∀ line ∈ lines, Unbroken line) :
    sseLines (ended newline lines ++ newline) = lines ++ [[], []] := by
  have normalized := normalize_ended lineEnd unbroken newline
  have last := normalize_end lineEnd []
  rw [append_nil] at last
  unfold sseLines
  rw [normalized, last, split_ended unbroken]
  rfl

theorem renderSSEData_ended :
    ∃ newline, LineEnd newline ∧
      renderSSEData frame data = ended newline (renderedLines data false (sseLines frame)) ++ newline := by
  unfold renderSSEData
  split
  · exact ⟨_, .crlf, renderSSELines_ended ..⟩
  · exact ⟨_, .lf, renderSSELines_ended ..⟩

/-- Writing data into a frame and reading it back gives the data, the other lines are kept, and what is written is
one event. -/
theorem data_round_trip (frame data : Text) (carries : ∃ line ∈ sseLines frame, isDataLine line = true)
    (unbroken : Unbroken data) :
    parseSSEData (renderSSEData frame data) = data ∧
      otherLines (renderSSEData frame data) = otherLines frame ∧
      nextSSEFrameEnd (renderSSEData frame data) = (renderSSEData frame data).length := by
  obtain ⟨newline, lineEnd, rendered⟩ := renderSSEData_ended frame data
  have whole : ∀ line ∈ renderedLines data false (sseLines frame), Unbroken line ∧ line ≠ [] := by
    intro line listed
    rcases mem_renderedLines listed with rfl | ⟨inside, filled⟩
    · refine ⟨fun char member => ?_, by simp⟩
      rcases mem_append.mp member with label | text
      · have plain : "data: ".toList.all (fun char => !isBreak char) = true := rfl
        simpa using all_eq_true.mp plain char label
      · exact unbroken char text
    · exact ⟨sseLines_unbroken frame line inside, filled⟩
  have lines := sseLines_ended lineEnd (fun line listed => (whole line listed).1)
  rw [rendered]
  refine ⟨?data, ?others, ?event⟩
  case data =>
    have two : [[], ([] : Text)].filterMap lineData = [] := rfl
    rw [parseSSEData, lines, filterMap_append, filterMap_rendered, if_pos ⟨rfl, carries⟩, two]
    simp
  case others =>
    rw [otherLines, lines, filter_append, filter_rendered]
    simp [otherLines]
  case event =>
    have ends := frameEndFrom_ended lineEnd (fun line listed => (whole line listed).1)
      (fun line listed => (whole line listed).2) 0
    rwa [Nat.zero_add] at ends

/-- A frame with mixed line ends, two data lines, a comment and a field. -/
theorem data_round_trip_mixed :
    (∃ line ∈ sseLines "event: a\r\n: b\rdata: c\ndata:d\r\n\r\n".toList, isDataLine line = true) ∧
      Unbroken "e".toList ∧
      parseSSEData (renderSSEData "event: a\r\n: b\rdata: c\ndata:d\r\n\r\n".toList "e".toList) = "e".toList :=
  have carries : ∃ line ∈ sseLines "event: a\r\n: b\rdata: c\ndata:d\r\n\r\n".toList, isDataLine line = true :=
    ⟨"data: c".toList, by decide +kernel, rfl⟩
  have all : "e".toList.all (fun char => !isBreak char) = true := rfl
  have unbroken : Unbroken "e".toList := fun char member => by simpa using all_eq_true.mp all char member
  ⟨carries, unbroken, (data_round_trip _ _ carries unbroken).1⟩

end AstrLink.SseFrames
