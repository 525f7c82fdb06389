import Mathlib.Data.List.Find
import AstrLink.JsonSyntax

/-!
The events at the start of a stream. Events are cut at blank lines, and what comes after the last one is
normalized again with the next read, so they are cut the same as long as no line of returns has two of them
(`splitFrames_bare`).
-/
namespace AstrLink.StreamEvents
open List
open JsonSyntax (Bytes)

def ascii (text : String) : Bytes := text.toList.map fun char => UInt8.ofNat char.toNat

/-- `bytes.ReplaceAll` of CRLF by LF. -/
def replaceCRLF : Bytes → Bytes
  | 13 :: 10 :: rest => 10 :: replaceCRLF rest
  | byte :: rest => byte :: replaceCRLF rest
  | [] => []

def onFirst (byte : UInt8) : List Bytes → List Bytes
  | [] => [[byte]]
  | frame :: frames => (byte :: frame) :: frames

/-- `bytes.Split` at two line feeds. -/
def splitFrames : Bytes → List Bytes
  | 10 :: 10 :: rest => [] :: splitFrames rest
  | byte :: rest => onFirst byte (splitFrames rest)
  | [] => [[]]

/-- `bytes.Split` at a line feed. -/
def splitLines : Bytes → List Bytes
  | [] => [[]]
  | byte :: rest => if byte = 10 then [] :: splitLines rest else onFirst byte (splitLines rest)

def spaceRunes : List Bytes :=
  [[0x09], [0x0A], [0x0B], [0x0C], [0x0D], [0x20], [0xC2, 0x85], [0xC2, 0xA0], [0xE1, 0x9A, 0x80], [0xE2, 0x80, 0x80],
    [0xE2, 0x80, 0x81], [0xE2, 0x80, 0x82], [0xE2, 0x80, 0x83], [0xE2, 0x80, 0x84], [0xE2, 0x80, 0x85],
    [0xE2, 0x80, 0x86], [0xE2, 0x80, 0x87], [0xE2, 0x80, 0x88], [0xE2, 0x80, 0x89], [0xE2, 0x80, 0x8A],
    [0xE2, 0x80, 0xA8], [0xE2, 0x80, 0xA9], [0xE2, 0x80, 0xAF], [0xE2, 0x81, 0x9F], [0xE3, 0x80, 0x80]]

/-- The bytes after some spellings, the first of which may be partly dropped. -/
def dropSpellings (spellings : List Bytes) : Nat → Bytes → Bytes
  | _, [] => []
  | left + 1, _ :: rest => dropSpellings spellings left rest
  | 0, byte :: rest =>
    match spellings.find? (·.isPrefixOf (byte :: rest)) with
    | none => byte :: rest
    | some spelling => dropSpellings spellings (spelling.length - 1) rest

/-- `bytes.TrimSpace` -/
def trimSpace (data : Bytes) : Bytes :=
  (dropSpellings (spaceRunes.map List.reverse) 0 (dropSpellings spaceRunes 0 data).reverse).reverse

inductive Field where
  | event (name : Bytes)
  | data (value : Bytes)
  | other

def lineField (line : Bytes) : Field :=
  if (ascii "event:").isPrefixOf line then .event (trimSpace (line.drop 6))
  else if (ascii "data:").isPrefixOf line then .data (trimSpace (line.drop 5))
  else .other

/-- The name after a field, and the data lines with its own. -/
def withField (seen : Bytes × List Bytes) : Field → Bytes × List Bytes
  | .event name => (name, seen.2)
  | .data value => (seen.1, seen.2 ++ [value])
  | .other => seen

def parseSSEFrame (frame : Bytes) : Bytes × Bytes :=
  let (eventType, data) := ((splitLines frame).map lineField).foldl withField (ascii "data", [])
  if data = [] then (eventType, [])
  else
    let payload := [10].intercalate data
    if payload = ascii "[DONE]" then (ascii "done", payload) else (eventType, payload)

/-! ### What an event says -/

inductive ProtocolID where
  | openAIResponses
  | anthropicMessages
  | other (id : String)
deriving DecidableEq

/-- The JSON library. -/
structure Gjson (Result : Type) where
  getBytes : Bytes → String → Result
  parseBytes : Bytes → Result
  get : Result → String → Result
  isNull : Result → Bool
  isString : Result → Bool
  isArray : Result → Bool
  isObject : Result → Bool
  arrayLength : Result → Nat
  str : Result → Bytes
  string : Result → Bytes

inductive StreamStartEvent where
  | announcement
  | error
  | failed
  | progress

inductive StreamOutcome where
  | none
  | error
  | failed
  | finished

def streamEventOutcome (protocol : ProtocolID) (eventType : Bytes) : StreamOutcome :=
  match protocol with
  | .openAIResponses =>
    if eventType = ascii "error" then .error
    else if eventType = ascii "response.failed" then .failed
    else if eventType = ascii "response.completed" ∨ eventType = ascii "response.incomplete" then .finished
    else .none
  | .anthropicMessages =>
    if eventType = ascii "error" then .error
    else if eventType = ascii "message_stop" then .finished
    else .none
  | .other _ => .none

section
variable {R : Type} (gjson : Gjson R)

def emptyStreamStartArray (value : R) : Bool :=
  gjson.isNull value || gjson.isArray value && gjson.arrayLength value == 0

def emptyString (value : R) : Bool := gjson.isString value && gjson.str value == []

def classifyResponses (eventType data : Bytes) : StreamStartEvent :=
  let among (names : List String) := names.any fun name => eventType = ascii name
  if among ["response.created", "response.in_progress", "response.queued", "response.metadata"] then .announcement
  else if among ["response.output_item.added"] then
    let item := gjson.getBytes data "item"
    let itemType := gjson.str (gjson.get item "type")
    if itemType = ascii "message" ∨ itemType = ascii "reasoning" then
      -- Empty containers can precede an overload, even though their names mention output.
      let encrypted := gjson.get item "encrypted_content"
      if emptyStreamStartArray gjson (gjson.get item "content") && emptyStreamStartArray gjson (gjson.get item "summary") &&
          (gjson.isNull encrypted || emptyString gjson encrypted) then
        .announcement
      else .progress
    else .progress
  else if among ["response.content_part.added", "response.reasoning_summary_part.added"] then
    let part := gjson.getBytes data "part"
    let partType := gjson.str (gjson.get part "type")
    if partType = ascii "refusal" then
      if emptyString gjson (gjson.get part "refusal") then .announcement else .progress
    else if partType = ascii "output_text" ∨ partType = ascii "summary_text" then
      if emptyString gjson (gjson.get part "text") then .announcement else .progress
    else .progress
  else if among ["response.output_text.delta", "response.refusal.delta", "response.reasoning_text.delta",
      "response.reasoning_summary_text.delta"] then
    if emptyString gjson (gjson.getBytes data "delta") then .announcement else .progress
  else .progress

def classifyEvent (protocol : ProtocolID) (name data : Bytes) : StreamStartEvent :=
  if data = [] then .announcement
  else
    let named := gjson.str (gjson.getBytes data "type")
    let eventType := if named = [] then name else named
    match streamEventOutcome protocol eventType with
    | .error => .error
    | .failed => .failed
    | _ =>
      match protocol with
      | .openAIResponses => classifyResponses gjson eventType data
      | .anthropicMessages =>
        if eventType = ascii "message_start" ∨ eventType = ascii "ping" then .announcement else .progress
      | .other _ => .progress

def classifyStreamStart (protocol : ProtocolID) (frame : Bytes) : StreamStartEvent :=
  classifyEvent gjson protocol (parseSSEFrame frame).1 (parseSSEFrame frame).2

/-- The type and the code of a failure event's error. -/
def streamFailureFields (event : Bytes) : Bytes × Bytes :=
  let document := gjson.parseBytes event
  let nested := gjson.get document "response.error"
  let problem := if gjson.isObject nested then nested else gjson.get document "error"
  if gjson.isObject problem then (gjson.string (gjson.get problem "type"), gjson.string (gjson.get problem "code"))
  else ([], gjson.string (gjson.get document "code"))

def responsesFailureStatus (code errType : Bytes) : Nat :=
  let among (value : Bytes) (names : List String) := names.any fun name => value = ascii name
  if among code ["server_is_overloaded", "slow_down"] then 503
  else if among code ["rate_limit_exceeded", "usage_limit_reached", "usage_not_included", "insufficient_quota"] then 429
  else if among code ["context_length_exceeded", "invalid_prompt", "invalid_request_error", "invalid_value", "bad_request",
      "cyber_policy"] then 400
  else if among errType ["service_unavailable_error"] then 503
  else if among errType ["invalid_request_error"] then 400
  else 502

def anthropicStatuses : List (String × Nat) :=
  [("invalid_request_error", 400), ("authentication_error", 401), ("billing_error", 402), ("permission_error", 403),
    ("not_found_error", 404), ("request_too_large", 413), ("rate_limit_error", 429), ("api_error", 500),
    ("timeout_error", 504), ("overloaded_error", 529)]

def anthropicErrorStatus (errType : Bytes) : Nat :=
  match anthropicStatuses.find? fun status => errType = ascii status.1 with
  | some status => status.2
  | none => 502

def streamFailureStatus (protocol : ProtocolID) (event : Bytes) : Nat :=
  let (errType, code) := streamFailureFields gjson event
  if protocol = .anthropicMessages then anthropicErrorStatus errType else responsesFailureStatus code errType

/-- An error an upstream sent inside a successful stream, and how many bytes were held back. -/
structure StreamFailure where
  protocol : ProtocolID
  event : Bytes
  status : Nat
  held : Nat
deriving DecidableEq

def newStreamFailure (protocol : ProtocolID) (event : Bytes) : StreamFailure where
  protocol
  event
  status := streamFailureStatus gjson protocol event
  held := 0

/-- What some events say: under way, refused, or neither, with the first error. -/
inductive Scan where
  | progress
  | refused (failure : StreamFailure)
  | undecided (failure : Option StreamFailure)

def scanFrames (protocol : ProtocolID) (failure : Option StreamFailure) : List Bytes → Scan
  | [] => .undecided failure
  | frame :: frames =>
    let first := failure.getD (newStreamFailure gjson protocol (parseSSEFrame frame).2)
    match classifyStreamStart gjson protocol frame with
    -- Even after an error event, output means the upstream went on.
    | .progress => .progress
    | .announcement => scanFrames protocol failure frames
    | .error => scanFrames protocol (some first) frames
    | .failed => .refused first

variable {gjson}

theorem scanFrames_append {protocol : ProtocolID} {failure : Option StreamFailure} (front back : List Bytes) :
    scanFrames gjson protocol failure (front ++ back) =
      match scanFrames gjson protocol failure front with
      | .undecided failure => scanFrames gjson protocol failure back
      | decided => decided := by
  induction front generalizing failure with
  | nil => rfl
  | cons frame front ih =>
    rw [cons_append, scanFrames, scanFrames]
    cases classifyStreamStart gjson protocol frame with
    | progress => rfl
    | announcement => exact ih
    | error => exact ih
    | failed => rfl

end

def unlessReturn (byte : UInt8) (rest : Bytes) : Bytes := if byte = 13 ∧ rest.head? = some 10 then rest else byte :: rest

/-- The bytes without the carriage returns before line feeds. -/
def bare : Bytes → Bytes
  | [] => []
  | byte :: rest => unlessReturn byte (bare rest)

theorem bare_append (front back : Bytes) : bare (front ++ back) = bare (bare front ++ back) := by
  induction front with
  | nil => rfl
  | cons byte front ih =>
    rw [cons_append, bare, ih, bare]
    by_cases dropped : byte = 13 ∧ (bare front).head? = some 10
    · obtain ⟨rest, same⟩ := head?_eq_some_iff.mp dropped.2
      have kept : bare (bare front ++ back) = 10 :: bare (rest ++ back) := by
        rw [same, cons_append, bare, unlessReturn, if_neg (by simp)]
      rw [unlessReturn, unlessReturn, if_pos dropped, kept, if_pos ⟨dropped.1, rfl⟩]
    · rw [unlessReturn, unlessReturn, if_neg dropped, cons_append, bare, unlessReturn]

theorem bare_bare (bytes : Bytes) : bare (bare bytes) = bare bytes := by
  have same := bare_append bytes []
  rwa [append_nil, append_nil, eq_comm] at same

theorem bare_replaceCRLF (bytes : Bytes) : bare (replaceCRLF bytes) = bare bytes := by
  induction bytes using replaceCRLF.induct with
  | case1 rest ih =>
    rw [replaceCRLF, bare, ih, bare, bare]
    simp [unlessReturn]
  | case2 byte rest other ih => rw [replaceCRLF, bare, bare, ih]; exact other
  | case3 => rfl

/-! ### Events cut from lines -/

theorem splitFrames_some : ∀ bytes, ∃ frame frames, splitFrames bytes = frame :: frames
  | [] => ⟨[], [], rfl⟩
  | byte :: rest => by
    by_cases blank : byte = 10 ∧ rest.head? = some 10
    · obtain ⟨rfl, starts⟩ := blank
      obtain ⟨rest, rfl⟩ := head?_eq_some_iff.mp starts
      exact ⟨[], splitFrames rest, rfl⟩
    · obtain ⟨frame, frames, split⟩ := splitFrames_some rest
      refine ⟨byte :: frame, frames, ?_⟩
      rw [splitFrames, split]
      · rfl
      · rintro more rfl rfl
        exact blank ⟨rfl, rfl⟩

theorem splitFrames_blank (rest : Bytes) : splitFrames (10 :: 10 :: rest) = [] :: splitFrames rest := rfl

variable {rest : Bytes}

theorem splitFrames_cons {byte : UInt8} (other : ¬(byte = 10 ∧ rest.head? = some 10)) :
    splitFrames (byte :: rest) = onFirst byte (splitFrames rest) := by
  rw [splitFrames]
  rintro more rfl rfl
  exact other ⟨rfl, rfl⟩

variable {bytes : Bytes}
variable {frame : Bytes}

theorem splitFrames_whole (split : splitFrames bytes = [frame]) : bytes = frame := by
  induction bytes generalizing frame with
  | nil => exact (List.cons.inj split).1
  | cons byte rest ih =>
    obtain ⟨first, frames, found⟩ := splitFrames_some rest
    by_cases blank : byte = 10 ∧ rest.head? = some 10
    · obtain ⟨rfl, starts⟩ := blank
      obtain ⟨rest, rfl⟩ := head?_eq_some_iff.mp starts
      obtain ⟨frame, frames, more⟩ := splitFrames_some rest
      rw [splitFrames_blank, more] at split
      cases split
    · rw [splitFrames_cons blank, found, onFirst] at split
      obtain ⟨rfl, rfl⟩ := List.cons.inj split
      rw [ih found]

variable {frames : List Bytes}
variable {last : Bytes}

theorem splitFrames_append {front : Bytes} (split : splitFrames front = frames ++ [last]) (back : Bytes) :
    splitFrames (front ++ back) = frames ++ splitFrames (last ++ back) := by
  induction front using splitFrames.induct generalizing frames with
  | case1 rest ih =>
    rw [splitFrames_blank] at split
    rcases cons_eq_append_iff.mp split with ⟨rfl, single⟩ | ⟨frames, rfl, split⟩
    · obtain ⟨frame, frames, more⟩ := splitFrames_some rest
      rw [more] at single
      cases single
    · rw [cons_append, cons_append, splitFrames_blank, ih (List.cons.inj split).2]
      rfl
  | case2 byte rest other ih =>
    have plain : ¬(byte = 10 ∧ rest.head? = some 10) := by
      rintro ⟨rfl, starts⟩
      obtain ⟨rest, rfl⟩ := head?_eq_some_iff.mp starts
      exact other rest rfl rfl
    obtain ⟨first, more, found⟩ := splitFrames_some rest
    rw [splitFrames_cons plain, found, onFirst] at split
    rcases cons_eq_append_iff.mp split with ⟨rfl, single⟩ | ⟨frames, rfl, same⟩
    · obtain ⟨same, rfl⟩ := List.cons.inj single
      rw [splitFrames_whole found, ← same]
      rfl
    · have inner := @ih (first :: frames) (by rw [found, same]; rfl)
      have next : ¬(byte = 10 ∧ (rest ++ back).head? = some 10) := by
        rintro ⟨rfl, starts⟩
        refine plain ⟨rfl, ?_⟩
        cases rest with
        | nil =>
          obtain ⟨-, rfl⟩ := List.cons.inj (found : [[]] = _)
          simp at same
        | cons => exact starts
      rw [cons_append, splitFrames_cons next, inner]
      rfl
  | case3 =>
    rcases cons_eq_append_iff.mp split with ⟨rfl, single⟩ | ⟨frames, -, empty⟩
    · obtain ⟨rfl, -⟩ := List.cons.inj single
      rfl
    · simp at empty

theorem splitFrames_last (bytes : Bytes) : ∃ frames last, splitFrames bytes = frames ++ [last] := by
  obtain ⟨frame, frames, split⟩ := splitFrames_some bytes
  rw [split]
  exact ⟨_, _, (dropLast_concat_getLast (cons_ne_nil frame frames)).symm⟩

theorem dropLast_splitFrames (frames : List Bytes) (bytes : Bytes) :
    (frames ++ splitFrames bytes).dropLast = frames ++ (splitFrames bytes).dropLast := by
  obtain ⟨front, last, split⟩ := splitFrames_last bytes
  rw [split, ← List.append_assoc, dropLast_concat, dropLast_concat]

theorem splitFrames_suffix (split : splitFrames bytes = frames ++ [last]) : last <:+ bytes := by
  induction bytes using splitFrames.induct generalizing frames with
  | case1 rest ih =>
    rw [splitFrames_blank] at split
    rcases cons_eq_append_iff.mp split with ⟨rfl, single⟩ | ⟨frames, rfl, same⟩
    · obtain ⟨frame, frames, more⟩ := splitFrames_some rest
      rw [more] at single
      cases single
    · exact (ih same).trans ⟨[10, 10], rfl⟩
  | case2 byte rest other ih =>
    obtain ⟨first, more, found⟩ := splitFrames_some rest
    rw [splitFrames, found, onFirst] at split
    · rcases cons_eq_append_iff.mp split with ⟨rfl, single⟩ | ⟨frames, rfl, same⟩
      · obtain ⟨rfl, rfl⟩ := List.cons.inj single
        have whole := splitFrames_whole found
        exact ⟨[], by rw [whole, nil_append]⟩
      · exact (@ih (first :: frames) (by rw [found, same]; rfl)).trans (suffix_cons byte rest)
    · exact other
  | case3 =>
    rcases cons_eq_append_iff.mp split with ⟨rfl, single⟩ | ⟨frames, -, empty⟩
    · obtain ⟨rfl, -⟩ := List.cons.inj single
      exact suffix_refl _
    · simp at empty

theorem replaceCRLF_feed (front back : Bytes) :
    replaceCRLF (front ++ 10 :: back) = replaceCRLF (front ++ [10]) ++ replaceCRLF back := by
  induction front using replaceCRLF.induct with
  | case1 rest ih =>
    rw [cons_append, cons_append, cons_append, cons_append, replaceCRLF, ih, replaceCRLF]
    rfl
  | case2 byte rest other ih =>
    rw [cons_append, cons_append]
    by_cases ended : byte = 13 ∧ rest = []
    · obtain ⟨rfl, rfl⟩ := ended
      rfl
    · have plain : ∀ more tail, byte = 13 → rest ++ 10 :: more = 10 :: tail → False := by
        intro more tail returned starts
        cases rest with
        | nil => exact ended ⟨returned, rfl⟩
        | cons next rest =>
          rw [cons_append] at starts
          exact other rest returned (congrArg (· :: rest) (List.cons.inj starts).1)
      rw [replaceCRLF, ih, replaceCRLF]
      · rfl
      · exact plain []
      · exact plain back
  | case3 => rfl

theorem bare_length (bytes : Bytes) : (bare bytes).length ≤ bytes.length := by
  induction bytes with
  | nil => exact Nat.le_refl _
  | cons byte rest ih =>
    rw [bare, unlessReturn, length_cons]
    split
    · omega
    · rw [length_cons]
      omega

theorem bare_rest {byte : UInt8} (clean : bare (byte :: rest) = byte :: rest) :
    bare rest = rest ∧ ¬(byte = 13 ∧ rest.head? = some 10) := by
  rw [bare, unlessReturn] at clean
  split at clean
  · have longer := congrArg List.length clean
    have shorter := bare_length rest
    rw [length_cons] at longer
    omega
  · rename_i kept
    have same := (List.cons.inj clean).2
    rw [same] at kept
    exact ⟨same, kept⟩

theorem mem_bare (ends : 10 ∈ bytes) : 10 ∈ bare bytes := by
  induction bytes with
  | nil => exact ends
  | cons byte rest ih =>
    rw [bare, unlessReturn]
    split
    · rename_i dropped
      exact mem_of_mem_head? dropped.2
    · rcases mem_cons.mp ends with rfl | inRest
      · exact mem_cons_self
      · exact mem_cons_of_mem _ (ih inRest)

theorem head_bare_append {front : Bytes} (clean : bare front = front) (ends : 10 ∈ front) (back : Bytes) :
    (bare (front ++ back)).head? = front.head? := by
  induction front with
  | nil => cases ends
  | cons byte front ih =>
    obtain ⟨rest, kept⟩ := bare_rest clean
    rw [cons_append, bare, unlessReturn]
    by_cases returns : byte = 13
    · have inRest : 10 ∈ front := by
        rcases mem_cons.mp ends with same | inRest
        · rw [returns] at same
          cases same
        · exact inRest
      rw [ih rest inRest, if_neg kept]
      rfl
    · rw [if_neg (fun dropped => returns dropped.1)]
      rfl

theorem splitFrames_cut {next : Bytes} (split : splitFrames bytes = frame :: next :: frames) :
    ∃ rest, bytes = frame ++ 10 :: 10 :: rest := by
  induction bytes using splitFrames.induct generalizing frame with
  | case1 rest ih =>
    obtain ⟨rfl, -⟩ := List.cons.inj split
    exact ⟨rest, rfl⟩
  | case2 byte rest other ih =>
    obtain ⟨first, more, found⟩ := splitFrames_some rest
    rw [splitFrames, found, onFirst] at split
    · obtain ⟨rfl, rfl⟩ := List.cons.inj split
      obtain ⟨after, rfl⟩ := ih found
      exact ⟨after, rfl⟩
    · exact other
  | case3 => cases split

theorem mem_of_splitFrames {next : Bytes} (split : splitFrames bytes = frame :: next :: frames) : 10 ∈ bytes := by
  obtain ⟨rest, rfl⟩ := splitFrames_cut split
  exact mem_append_right _ mem_cons_self

theorem splitFrames_bare_append {front : Bytes} (clean : bare front = front)
    (split : splitFrames front = frames ++ [last]) (back : Bytes) :
    splitFrames (bare (front ++ back)) = frames ++ splitFrames (bare (last ++ back)) := by
  induction front using splitFrames.induct generalizing frames with
  | case1 rest ih =>
    rw [splitFrames_blank] at split
    have inner := (bare_rest (bare_rest clean).1).1
    rcases cons_eq_append_iff.mp split with ⟨rfl, single⟩ | ⟨frames, rfl, same⟩
    · obtain ⟨frame, frames, more⟩ := splitFrames_some rest
      rw [more] at single
      cases single
    · have blank : bare (10 :: 10 :: (rest ++ back)) = 10 :: 10 :: bare (rest ++ back) := by
        rw [bare, bare]
        rfl
      rw [cons_append, cons_append, blank, splitFrames_blank, ih inner same]
      rfl
  | case2 byte rest other ih =>
    have plain : ¬(byte = 10 ∧ rest.head? = some 10) := by
      rintro ⟨rfl, starts⟩
      obtain ⟨rest, rfl⟩ := head?_eq_some_iff.mp starts
      exact other rest rfl rfl
    obtain ⟨inner, kept⟩ := bare_rest clean
    obtain ⟨first, more, found⟩ := splitFrames_some rest
    rw [splitFrames_cons plain, found, onFirst] at split
    rcases cons_eq_append_iff.mp split with ⟨rfl, single⟩ | ⟨frames, rfl, same⟩
    · obtain ⟨same, rfl⟩ := List.cons.inj single
      rw [splitFrames_whole found, ← same]
      rfl
    · have further := @ih (first :: frames) inner (by rw [found, same]; rfl)
      have ends : 10 ∈ rest := by
        cases more with
        | nil => simp at same
        | cons next more => exact mem_of_splitFrames found
      have head := head_bare_append inner ends back
      rw [cons_append, bare, unlessReturn, head, if_neg kept, splitFrames_cons (by rw [head]; exact plain), further]
      rfl
  | case3 =>
    rcases cons_eq_append_iff.mp split with ⟨rfl, single⟩ | ⟨frames, -, empty⟩
    · obtain ⟨rfl, -⟩ := List.cons.inj single
      rfl
    · simp at empty

/-! ### Lines of returns -/

/-- No line after the first is more than so many returns alone. -/
def Slim (most : Nat) : Option Nat → Bytes → Prop
  | _, [] => True
  | line, byte :: rest =>
    if byte = 10 then (∀ returns, line = some returns → returns ≤ most) ∧ Slim most (some 0) rest
    else if byte = 13 then Slim most (line.map (· + 1)) rest
    else Slim most none rest

/-- A line that is bound less than another one. -/
def Fewer : Option Nat → Option Nat → Prop
  | none, _ => True
  | some _, none => False
  | some fewer, some more => fewer ≤ more

theorem Fewer.returns {fewer more : Option Nat} (less : Fewer fewer more) : Fewer (fewer.map (· + 1)) (more.map (· + 1)) := by
  cases fewer with
  | none => trivial
  | some fewer =>
    cases more with
    | none => exact less
    | some more => exact Nat.succ_le_succ less

variable {most : Nat}

theorem Slim.fewer {fewer more : Option Nat} (slim : Slim most more bytes) (less : Fewer fewer more) :
    Slim most fewer bytes := by
  induction bytes generalizing fewer more with
  | nil => trivial
  | cons byte rest ih =>
    unfold Slim at slim ⊢
    by_cases feed : byte = 10
    · rw [if_pos feed] at slim ⊢
      refine ⟨?_, slim.2⟩
      rintro returns rfl
      cases more with
      | none => exact absurd less id
      | some more => exact Nat.le_trans less (slim.1 more rfl)
    · rw [if_neg feed] at slim ⊢
      by_cases returns : byte = 13
      · rw [if_pos returns] at slim ⊢
        exact ih slim less.returns
      · rw [if_neg returns] at slim ⊢
        exact slim

variable {line : Option Nat}

theorem Slim.front {front back : Bytes} (slim : Slim most line (front ++ back)) :
    Slim most line front := by
  induction front generalizing line with
  | nil => trivial
  | cons byte front ih =>
    rw [cons_append] at slim
    unfold Slim at slim ⊢
    split at slim
    · rename_i feed
      rw [if_pos feed]
      exact ⟨slim.1, ih slim.2⟩
    · rename_i feed
      rw [if_neg feed]
      split at slim
      · rename_i returns
        rw [if_pos returns]
        exact ih slim
      · rename_i returns
        rw [if_neg returns]
        exact ih slim

theorem Slim.back {front back : Bytes} (slim : Slim most line (front ++ back)) :
    Slim most none back := by
  induction front generalizing line with
  | nil => exact slim.fewer trivial
  | cons byte front ih =>
    rw [cons_append] at slim
    unfold Slim at slim
    split at slim
    · exact ih slim.2
    · split at slim
      · exact ih slim
      · exact ih slim

theorem Slim.replaceCRLF {front : Bytes} (back : Bytes) (slim : Slim most line (front ++ back)) :
    Slim most line (StreamEvents.replaceCRLF front ++ back) := by
  induction front using replaceCRLF.induct generalizing line with
  | case1 rest ih =>
    rw [StreamEvents.replaceCRLF, cons_append]
    have feed : Slim most (line.map (· + 1)) (10 :: (rest ++ back)) := slim
    unfold Slim at feed ⊢
    rw [if_pos rfl] at feed ⊢
    refine ⟨?_, ih feed.2⟩
    rintro returns rfl
    have more := feed.1 (returns + 1) rfl
    omega
  | case2 byte rest other ih =>
    rw [StreamEvents.replaceCRLF, cons_append]
    · rw [cons_append] at slim
      unfold Slim at slim ⊢
      split at slim
      · rename_i feed
        rw [if_pos feed]
        exact ⟨slim.1, ih slim.2⟩
      · rename_i feed
        rw [if_neg feed]
        split at slim
        · rename_i returns
          rw [if_pos returns]
          exact ih slim
        · rename_i returns
          rw [if_neg returns]
          exact ih slim
    · exact other
  | case3 => exact slim

theorem Slim.replaced (within : ∀ returns, line = some (returns + 1) → bytes.head? ≠ some 10)
    (slim : Slim 1 line bytes) : Slim 0 line (StreamEvents.replaceCRLF bytes) := by
  induction bytes using replaceCRLF.induct generalizing line with
  | case1 rest ih =>
    rw [StreamEvents.replaceCRLF]
    have feed : Slim 1 (line.map (· + 1)) (10 :: rest) := slim
    unfold Slim at feed ⊢
    rw [if_pos rfl] at feed ⊢
    refine ⟨?_, ih (fun returns same => by cases same) feed.2⟩
    rintro returns rfl
    have more := feed.1 (returns + 1) rfl
    omega
  | case2 byte rest other ih =>
    rw [StreamEvents.replaceCRLF]
    · unfold Slim at slim ⊢
      split at slim
      · rename_i feed
        rw [if_pos feed]
        refine ⟨?_, ih (fun returns same => by cases same) slim.2⟩
        rintro returns rfl
        cases returns with
        | zero => exact Nat.le_refl 0
        | succ returns => exact absurd (by rw [feed]; rfl) (within returns rfl)
      · rename_i feed
        rw [if_neg feed]
        split at slim
        · rename_i returns
          rw [if_pos returns]
          refine ih (fun _ _ starts => ?_) slim
          obtain ⟨more, rfl⟩ := head?_eq_some_iff.mp starts
          exact other more returns rfl
        · rename_i returns
          rw [if_neg returns]
          exact ih (fun returns same => by cases same) slim
    · exact other
  | case3 => exact slim

/-! ### Events up to returns at the ends of their lines -/

/-- Two events have the same lines, up to returns at their ends. -/
def Alike (first second : Bytes) : Prop := bare (first ++ [10]) = bare (second ++ [10])

/-- The same events, the last one of which may go on. -/
inductive SameFrames : List Bytes → List Bytes → Prop where
  | last {first second : Bytes} (same : bare first = bare second) : SameFrames [first] [second]
  | cons {first second : Bytes} {firsts seconds : List Bytes} (alike : Alike first second)
      (rest : SameFrames firsts seconds) : SameFrames (first :: firsts) (second :: seconds)

variable {first second : Bytes}

theorem alike_of_bare (same : bare first = bare second) : Alike first second := by
  rw [Alike, bare_append, same, ← bare_append]

theorem Alike.cons {first second : Bytes} (alike : Alike first second) (byte : UInt8) :
    Alike (byte :: first) (byte :: second) := by
  rw [Alike] at alike ⊢
  rw [cons_append, cons_append, bare, bare, alike]

variable {firsts seconds : List Bytes}

theorem SameFrames.onFirst (same : SameFrames firsts seconds) (byte : UInt8) :
    SameFrames (StreamEvents.onFirst byte firsts) (StreamEvents.onFirst byte seconds) := by
  cases same with
  | last same => exact .last (by rw [bare, bare, same])
  | cons alike rest => exact .cons (alike.cons byte) rest

theorem head_bare (starts : (bare bytes).head? = some 10) :
    ∃ returns rest, bytes = List.replicate returns 13 ++ 10 :: rest := by
  induction bytes with
  | nil => cases starts
  | cons byte rest ih =>
    rw [bare, unlessReturn] at starts
    split at starts
    · rename_i dropped
      obtain ⟨returns, more, rfl⟩ := ih dropped.2
      refine ⟨returns + 1, more, ?_⟩
      rw [dropped.1, replicate_succ, cons_append]
    · exact ⟨0, rest, by rw [Option.some.inj starts]; rfl⟩

theorem Slim.feed {line returns : Nat} (slim : Slim most (some line) (List.replicate returns 13 ++ 10 :: rest)) :
    line + returns ≤ most := by
  induction returns generalizing line with
  | zero =>
    rw [replicate_zero, nil_append] at slim
    unfold Slim at slim
    rw [if_pos rfl] at slim
    exact slim.1 line rfl
  | succ returns ih =>
    have next : Slim most (some (line + 1)) (List.replicate returns 13 ++ 10 :: rest) := slim
    have bound := ih next
    omega

theorem SameFrames.drop (same : SameFrames (splitFrames bytes) seconds) (starts : (bare bytes).head? = some 10) :
    SameFrames (StreamEvents.onFirst 13 (splitFrames bytes)) seconds := by
  obtain ⟨first, frames, found⟩ := splitFrames_some bytes
  rw [found] at same ⊢
  cases same with
  | last same =>
    have whole := splitFrames_whole found
    refine .last ?_
    rw [bare, unlessReturn, ← whole, if_pos ⟨rfl, starts⟩, whole, same]
  | cons alike rest =>
    refine .cons ?_ rest
    have feeds : (bare (first ++ [10])).head? = some 10 := by
      obtain ⟨next, more, many⟩ : ∃ next more, frames = next :: more := by
        cases rest with
        | last => exact ⟨_, _, rfl⟩
        | cons => exact ⟨_, _, rfl⟩
      rw [many] at found
      obtain ⟨after, rfl⟩ := splitFrames_cut found
      have kept := head_bare_append (bare_bare (first ++ [10])) (mem_bare (by simp)) (10 :: after)
      rw [← kept, ← bare_append, List.append_assoc]
      exact starts
    rw [Alike, cons_append, bare, unlessReturn, if_pos ⟨rfl, feeds⟩]
    exact alike

theorem splitFrames_bare (slim : Slim 0 line bytes) :
    SameFrames (splitFrames bytes) (splitFrames (bare bytes)) := by
  induction bytes using splitFrames.induct generalizing line with
  | case1 rest ih =>
    have blank : bare (10 :: 10 :: rest) = 10 :: 10 :: bare rest := by
      rw [bare, bare]
      rfl
    rw [splitFrames_blank, blank, splitFrames_blank]
    exact .cons rfl (ih slim.2.2)
  | case2 byte rest other ih =>
    have later := @ih none (Slim.back (show Slim 0 line ([byte] ++ rest) from slim))
    rw [splitFrames, bare, unlessReturn]
    · split
      · rename_i dropped
        rw [dropped.1]
        exact later.drop dropped.2
      · have plain : ¬(byte = 10 ∧ (bare rest).head? = some 10) := by
          rintro ⟨rfl, starts⟩
          obtain ⟨returns, more, rfl⟩ := head_bare starts
          unfold Slim at slim
          rw [if_pos rfl] at slim
          have bound := slim.2.feed
          have none_left : returns = 0 := by omega
          rw [none_left] at other
          exact other more rfl rfl
        rw [splitFrames_cons plain]
        exact later.onFirst byte
    · exact other
  | case3 => exact .last rfl

/-! ### What an event says does not depend on returns at the ends of its lines -/

theorem spaceRunes_snoc {data : Bytes} (some_byte : data ≠ []) :
    ∀ spelling ∈ spaceRunes, spelling.isPrefixOf (data ++ [13]) = spelling.isPrefixOf data := by
  have ends : spaceRunes.all (fun spelling => spelling.getLast? != some 13 || spelling.length == 1) = true := by decide
  intro spelling listed
  have last := all_eq_true.mp ends spelling listed
  rw [Bool.eq_iff_iff, isPrefixOf_iff_prefix, isPrefixOf_iff_prefix, prefix_concat_iff]
  constructor
  · rintro (rfl | inside)
    · rw [getLast?_concat, length_append, length_singleton] at last
      have counted := length_pos_iff.mpr some_byte
      simp at last
      exact absurd last some_byte
    · exact inside
  · exact .inr

theorem dropSpellings_snoc {data : Bytes} : ∀ {left : Nat}, left ≤ data.length →
    dropSpellings spaceRunes left (data ++ [13]) =
      if dropSpellings spaceRunes left data = [] then [] else dropSpellings spaceRunes left data ++ [13] := by
  induction data with
  | nil =>
    intro left short
    rw [Nat.le_zero.mp short]
    rfl
  | cons byte rest ih =>
    intro left short
    cases left with
    | succ left =>
      rw [cons_append, dropSpellings, dropSpellings]
      exact ih (Nat.le_of_succ_le_succ short)
    | zero =>
      have same := find?_congr (spaceRunes_snoc (cons_ne_nil byte rest))
      rw [cons_append] at same ⊢
      rw [dropSpellings, dropSpellings, same]
      cases found : spaceRunes.find? (·.isPrefixOf (byte :: rest)) with
      | none =>
        dsimp only
        rw [if_neg (cons_ne_nil _ _), cons_append]
      | some spelling =>
        have spelled : spelling.isPrefixOf (byte :: rest) = true := by
          have holds := find?_some found
          exact holds
        have begins := (List.isPrefixOf_iff_prefix.mp spelled).length_le
        rw [length_cons] at begins
        exact ih (by omega)

theorem trimSpace_snoc (data : Bytes) : trimSpace (data ++ [13]) = trimSpace data := by
  have begins : ∀ rest, dropSpellings (spaceRunes.map List.reverse) 0 (13 :: rest) =
      dropSpellings (spaceRunes.map List.reverse) 0 rest := fun rest => rfl
  rw [trimSpace, trimSpace, dropSpellings_snoc (Nat.zero_le _)]
  split
  · rename_i empty
    rw [empty]
  · rw [reverse_append, reverse_singleton, singleton_append, begins]

theorem isPrefixOf_snoc {word : Bytes} (plain : word.getLast? ≠ some 13) (line : Bytes) :
    word.isPrefixOf (line ++ [13]) = word.isPrefixOf line := by
  rw [Bool.eq_iff_iff, isPrefixOf_iff_prefix, isPrefixOf_iff_prefix, prefix_concat_iff]
  constructor
  · rintro (rfl | inside)
    · exact absurd getLast?_concat plain
    · exact inside
  · exact .inr

theorem lineField_snoc (line : Bytes) : lineField (line ++ [13]) = lineField line := by
  have drop : ∀ {word : Bytes}, word.isPrefixOf line = true → (line ++ [13]).drop word.length = line.drop word.length ++ [13] :=
    fun begins => drop_append_of_le_length (List.isPrefixOf_iff_prefix.mp begins).length_le
  rw [lineField, lineField, isPrefixOf_snoc (by decide), isPrefixOf_snoc (by decide)]
  split
  · rename_i begins
    have rest : (line ++ [13]).drop 6 = line.drop 6 ++ [13] := drop begins
    rw [rest, trimSpace_snoc]
  · split
    · rename_i begins
      have rest : (line ++ [13]).drop 5 = line.drop 5 ++ [13] := drop begins
      rw [rest, trimSpace_snoc]
    · rfl

/-- A line without the returns at its end. -/
def trimReturns : Bytes → Bytes
  | [] => []
  | byte :: rest => if byte = 13 ∧ trimReturns rest = [] then [] else byte :: trimReturns rest

theorem trimReturns_returns (line : Bytes) : ∃ returns, line = trimReturns line ++ List.replicate returns 13 := by
  induction line with
  | nil => exact ⟨0, rfl⟩
  | cons byte rest ih =>
    obtain ⟨returns, split⟩ := ih
    rw [trimReturns]
    by_cases empty : byte = 13 ∧ trimReturns rest = []
    · rw [if_pos empty]
      rw [empty.2, nil_append] at split
      exact ⟨returns + 1, by rw [split, empty.1]; rfl⟩
    · rw [if_neg empty]
      exact ⟨returns, congrArg (byte :: ·) split⟩

theorem lineField_trimReturns (line : Bytes) : lineField (trimReturns line) = lineField line := by
  have returned : ∀ returns (line : Bytes), lineField (line ++ List.replicate returns 13) = lineField line := by
    intro returns
    induction returns with
    | zero => exact fun line => congrArg lineField (append_nil line)
    | succ returns ih =>
      intro line
      rw [replicate_succ', ← List.append_assoc, lineField_snoc, ih]
  obtain ⟨returns, split⟩ := trimReturns_returns line
  calc lineField (trimReturns line)
      = lineField (trimReturns line ++ List.replicate returns 13) := (returned returns _).symm
    _ = lineField line := by rw [← split]

theorem onFirst_trimReturns (byte : UInt8) (lines : List Bytes) :
    (onFirst byte lines).map trimReturns = (onFirst byte (lines.map trimReturns)).map trimReturns := by
  have twice : ∀ line, trimReturns (trimReturns line) = trimReturns line := by
    intro line
    induction line with
    | nil => rfl
    | cons byte rest ih =>
      rw [trimReturns]
      by_cases empty : byte = 13 ∧ trimReturns rest = []
      · rw [if_pos empty]
        rfl
      · rw [if_neg empty, trimReturns, ih, if_neg empty]
  cases lines with
  | nil => rfl
  | cons line lines =>
    simp [onFirst, trimReturns, twice]

theorem splitLines_some : ∀ bytes, ∃ line lines, splitLines bytes = line :: lines
  | [] => ⟨[], [], rfl⟩
  | byte :: rest => by
    obtain ⟨line, lines, found⟩ := splitLines_some rest
    rw [splitLines, found]
    split
    · exact ⟨[], line :: lines, rfl⟩
    · exact ⟨byte :: line, lines, rfl⟩

theorem splitLines_returns (returns : Nat) (more : Bytes) :
    splitLines (List.replicate returns 13 ++ 10 :: more) = List.replicate returns 13 :: splitLines more := by
  induction returns with
  | zero => rfl
  | succ returns ih =>
    rw [replicate_succ, cons_append, splitLines, if_neg (by decide), ih]
    rfl

theorem trimReturns_replicate (returns : Nat) : trimReturns (List.replicate returns 13) = [] := by
  induction returns with
  | zero => rfl
  | succ returns ih => rw [replicate_succ, trimReturns, if_pos ⟨rfl, ih⟩]

theorem splitLines_bare (bytes : Bytes) : (splitLines (bare bytes)).map trimReturns = (splitLines bytes).map trimReturns := by
  induction bytes with
  | nil => rfl
  | cons byte rest ih =>
    rw [bare, unlessReturn]
    by_cases dropped : byte = 13 ∧ (bare rest).head? = some 10
    · rw [if_pos dropped, ih, dropped.1]
      obtain ⟨returns, more, rfl⟩ := head_bare dropped.2
      have longer := splitLines_returns (returns + 1) more
      rw [replicate_succ, cons_append] at longer
      rw [longer, splitLines_returns, map_cons, map_cons, trimReturns_replicate, trimReturns,
        trimReturns_replicate, if_pos ⟨rfl, rfl⟩]
    · rw [if_neg dropped, splitLines, splitLines]
      by_cases feed : byte = 10
      · rw [if_pos feed, if_pos feed, map_cons, map_cons, ih]
      · rw [if_neg feed, if_neg feed, onFirst_trimReturns, ih, ← onFirst_trimReturns]

theorem Alike.parse (alike : Alike first second) : parseSSEFrame first = parseSSEFrame second := by
  have trimmed : ∀ lines : List Bytes, lines.map lineField = (lines.map trimReturns).map lineField := by
    intro lines
    rw [map_map]
    exact map_congr_left fun line _ => (lineField_trimReturns line).symm
  have ended : ∀ bytes : Bytes, splitLines (bytes ++ [10]) = splitLines bytes ++ [[]] := by
    intro bytes
    induction bytes with
    | nil => rfl
    | cons byte rest ih =>
      rw [cons_append, splitLines, splitLines, ih]
      split
      · rfl
      · obtain ⟨line, lines, found⟩ := splitLines_some rest
        rw [found]
        rfl
  have fields : ∀ bytes : Bytes, (splitLines (bare (bytes ++ [10]))).map lineField =
      (splitLines bytes).map lineField ++ [.other] := by
    intro bytes
    rw [trimmed, splitLines_bare, ← trimmed, ended, map_append]
    rfl
  have same : (splitLines first).map lineField ++ [.other] = (splitLines second).map lineField ++ [.other] := by
    rw [← fields, ← fields, alike]
  rw [parseSSEFrame, parseSSEFrame, append_cancel_right same]

section
variable {R : Type} {gjson : Gjson R} {protocol : ProtocolID}

theorem Alike.classify (alike : Alike first second) :
    classifyStreamStart gjson protocol first = classifyStreamStart gjson protocol second := by
  rw [classifyStreamStart, classifyStreamStart, alike.parse]

theorem SameFrames.scan (same : SameFrames firsts seconds) (failure : Option StreamFailure) :
    scanFrames gjson protocol failure firsts = scanFrames gjson protocol failure seconds := by
  induction same generalizing failure with
  | last same =>
    have alike := alike_of_bare same
    rw [scanFrames, scanFrames, alike.classify, alike.parse]
    rfl
  | cons alike rest ih =>
    rw [scanFrames, scanFrames, alike.classify, alike.parse]
    split
    · rfl
    · exact ih _
    · exact ih _
    · rfl

theorem SameFrames.dropLast (same : SameFrames firsts seconds) :
    ∃ fronts backs first second, firsts = fronts ++ [first] ∧ seconds = backs ++ [second] ∧ bare first = bare second ∧
      ∀ failure, scanFrames gjson protocol failure fronts = scanFrames gjson protocol failure backs := by
  induction same with
  | @last first second same => exact ⟨[], [], first, second, rfl, rfl, same, fun _ => rfl⟩
  | @cons front back _ _ alike rest ih =>
    obtain ⟨fronts, backs, first, second, rfl, rfl, same, scans⟩ := ih
    refine ⟨front :: fronts, back :: backs, first, second, rfl, rfl, same, ?_⟩
    intro failure
    rw [scanFrames, scanFrames, alike.classify, alike.parse]
    split
    · rfl
    · exact scans _
    · exact scans _
    · rfl

end

end AstrLink.StreamEvents
