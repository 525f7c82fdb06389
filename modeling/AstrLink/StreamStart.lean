import AstrLink.Runs
import AstrLink.StreamEvents

/-!
The start of an upstream's stream, held back until it shows whether the request was accepted. The body handed
on replays what was held, then the read in flight, then the rest (`Intact`), and the events decide what the
bytes decide (`hold_faithful`).
-/
namespace AstrLink.StreamStart
open JsonSyntax (Bytes)
open StreamEvents Runs List
open Option (map_eq_some_iff some.inj)

def streamStartHoldBytes : Nat := 1048576

/-- The buffer of a read that runs aside. -/
def chunkSize : Nat := 32768

/-- How a body ends. -/
inductive Ending (ε : Type) where
  | eof
  | failed (error : ε)

structure HeldRead (ε : Type) where
  data : Bytes
  err : Option (Ending ε)

/-- Some bytes, and the end after them, or none while the stream stays open. -/
structure Body (ε : Type) where
  bytes : Bytes
  ending : Option (Ending ε)

variable {ε : Type}

/-- One read of the body; the end can come with the last bytes or after them. -/
def Body.read (body : Body ε) (rest : Bytes) (size count : Nat) (closing : Bool) : Option (HeldRead ε × Bytes) :=
  if count ≤ size ∧ count ≤ rest.length ∧ (closing = true → count = rest.length ∧ body.ending.isSome = true) then
    some (⟨rest.take count, if closing then body.ending else none⟩, rest.drop count)
  else none

/-- The read that runs aside. -/
inductive Reading (ε : Type) where
  | idle
  | running
  | returned (read : HeldRead ε)

structure HeldStream (ε : Type) where
  held : Bytes
  pending : Bool
  err : Option (Ending ε)

/-- What `holdStreamStart` returns beside the body. -/
inductive Returned (ε : Type) where
  | accepted
  | refused (failure : StreamFailure)
  | broken (error : ε)
deriving DecidableEq

/-- The hold and the client: `taken` was read, `out` and `outEnd` handed on, `cut` ended it from outside. -/
structure State (ε : Type) where
  rest : Bytes
  reading : Reading ε
  stream : HeldStream ε
  unread : Bytes
  failure : Option StreamFailure
  returned : Option (Returned ε)
  taken : Bytes
  cut : Bool
  out : Bytes
  outEnd : Option (Ending ε)

def start (body : Body ε) : State ε where
  rest := body.bytes
  reading := .idle
  stream := ⟨[], false, none⟩
  unread := []
  failure := none
  returned := none
  taken := []
  cut := false
  out := []
  outEnd := none

inductive Act (ε : Type) where
  | launch
  | answer (count : Nat) (closing : Bool)
  | take
  | cancel (cause : ε)
  | timeOut
  | read (size count : Nat) (closing : Bool)

def State.refuse (state : State ε) (failure : StreamFailure) : State ε :=
  { state with returned := some (.refused { failure with held := state.stream.held.length }) }

def State.accept (state : State ε) : State ε := { state with returned := some .accepted }

/-- After the events of a read: the end, or the next read. -/
def State.afterFrames (state : State ε) (failure : Option StreamFailure) : State ε :=
  match state.stream.err, failure with
  | some _, some failure => state.refuse failure
  | some .eof, none => state.accept
  | some (.failed error), none => { state with returned := some (.broken error) }
  | none, failure =>
    if state.stream.held.length ≤ streamStartHoldBytes then { state with failure }
    else
      match failure with
      | some failure => state.refuse failure
      | none => state.accept

def isEOF : Option (Ending ε) → Bool
  | some .eof => true
  | _ => false

section
variable {R : Type} (gjson : Gjson R) (protocol : ProtocolID)

/-- The read that the hold waited for. The last event may lack its closing blank line. -/
def State.takeRead (state : State ε) (read : HeldRead ε) : State ε :=
  let frames := splitFrames (replaceCRLF (state.unread ++ read.data))
  let state := { state with
    reading := .idle
    taken := state.taken ++ read.data
    stream := { state.stream with held := state.stream.held ++ read.data, err := read.err }
    unread := frames.getLastD [] }
  match scanFrames gjson protocol state.failure (if isEOF read.err then frames else frames.dropLast) with
  | .progress => state.accept
  | .refused failure => state.refuse failure
  | .undecided failure => state.afterFrames failure

/-- The held bytes, then the error after them, then the upstream's body. -/
def State.readHeld (body : Body ε) (state : State ε) (size count : Nat) (closing : Bool) : Option (State ε) :=
  if state.stream.held ≠ [] then
    some { state with
      out := state.out ++ state.stream.held.take size
      stream := { state.stream with held := state.stream.held.drop size } }
  else
    match state.stream.err with
    | some ending => some { state with outEnd := some ending }
    | none =>
      (body.read state.rest size count closing).map fun (read, rest) =>
        { state with out := state.out ++ read.data, outEnd := read.err, rest }

/-- The client's read, which waits for a read in flight. -/
def State.clientRead (body : Body ε) (state : State ε) (size count : Nat) (closing : Bool) : Option (State ε) :=
  if state.returned.isNone || state.outEnd.isSome then none
  else if state.stream.held = [] ∧ state.stream.pending = true then
    match state.reading with
    | .returned read =>
      State.readHeld body { state with reading := .idle, stream := ⟨read.data, false, read.err⟩ } size count closing
    | _ => none
  else state.readHeld body size count closing

def step (body : Body ε) (state : State ε) : Act ε → Option (State ε)
  | .launch =>
    if state.returned.isSome then none
    else
      match state.reading with
      | .idle => some { state with reading := .running }
      | _ => none
  | .answer count closing =>
    match state.reading with
    | .running =>
      (body.read state.rest chunkSize count closing).map fun (read, rest) => { state with reading := .returned read, rest }
    | _ => none
  | .take =>
    if state.returned.isSome then none
    else
      match state.reading with
      | .returned read => some (state.takeRead gjson protocol read)
      | _ => none
  | .cancel cause =>
    if state.returned.isSome then none
    else
      let pending := match state.reading with
        | .idle => false
        | _ => true
      some { state with returned := some (.broken cause), cut := true, stream := { state.stream with pending } }
  | .timeOut =>
    if state.returned.isSome then none
    else
      match state.reading, state.failure with
      | .idle, _ => none
      | _, none => none
      | _, some failure =>
        some { state.refuse failure with cut := true, stream := { state.stream with pending := true } }
  | .read size count closing => state.clientRead body size count closing

end

/-! ### What the client gets -/

def inFlight : Reading ε → Bytes
  | .returned read => read.data
  | _ => []

/-- Every byte of the body is in one place, and the end is known only after the last one. -/
structure Intact (body : Body ε) (state : State ε) : Prop where
  total : state.out ++ (state.stream.held ++ (inFlight state.reading ++ state.rest)) = body.bytes
  streamEnd : ∀ ending, state.stream.err = some ending → body.ending = some ending ∧ state.rest = [] ∧ state.reading = .idle
  readEnd : ∀ read ending, state.reading = .returned read → read.err = some ending → body.ending = some ending ∧ state.rest = []
  outEnd : ∀ ending, state.outEnd = some ending → body.ending = some ending ∧ state.out = body.bytes
  holding : state.returned = none →
    state.out = [] ∧ state.stream.held = state.taken ∧ state.stream.pending = false ∧ state.stream.err = none
  handed : state.returned ≠ none → (state.stream.pending = false ↔ state.reading = .idle)

variable {size count : Nat} {closing : Bool}

theorem Body.read_cases {body : Body ε} {rest left : Bytes} {read : HeldRead ε}
    (found : body.read rest size count closing = some (read, left)) :
    read.data ++ left = rest ∧ read.data.length = count ∧ read.data.length ≤ size ∧
      ∀ ending, read.err = some ending → body.ending = some ending ∧ left = [] := by
  unfold Body.read at found
  split at found
  · rename_i bounds
    obtain ⟨rfl, rfl⟩ := Prod.mk.inj (some.inj found)
    obtain ⟨small, inside, closes⟩ := bounds
    refine ⟨take_append_drop count rest, ?_, ?_, ?_⟩
    · rw [length_take]
      omega
    · rw [length_take]
      omega
    · intro ending ends
      dsimp only at ends
      split at ends
      · rename_i closed
        exact ⟨ends, drop_eq_nil_of_le (by rw [(closes closed).1])⟩
      · cases ends
  · cases found

variable {act : Act ε}

section
variable {R : Type} {gjson : Gjson R} {protocol : ProtocolID} {body : Body ε}

/-- What a read leaves of the hold; only what is returned depends on the events. -/
structure Taken (state : State ε) (read : HeldRead ε) (next : State ε) : Prop where
  rest : next.rest = state.rest
  reading : next.reading = .idle
  stream : next.stream = ⟨state.stream.held ++ read.data, state.stream.pending, read.err⟩
  taken : next.taken = state.taken ++ read.data
  unread : next.unread = (splitFrames (replaceCRLF (state.unread ++ read.data))).getLastD []
  cut : next.cut = state.cut
  out : next.out = state.out
  outEnd : next.outEnd = state.outEnd
  open_end : next.returned = none → read.err = none

theorem takeRead_taken (state : State ε) (read : HeldRead ε) :
    Taken state read (state.takeRead gjson protocol read) := by
  unfold State.takeRead
  dsimp only
  split
  · exact ⟨rfl, rfl, rfl, rfl, rfl, rfl, rfl, rfl, nofun⟩
  · exact ⟨rfl, rfl, rfl, rfl, rfl, rfl, rfl, rfl, nofun⟩
  · rename_i failure _
    unfold State.afterFrames
    dsimp only
    cases ends : read.err with
    | none =>
      dsimp only
      split
      · exact ⟨rfl, rfl, by rw [ends], rfl, rfl, rfl, rfl, rfl, fun _ => ends⟩
      · cases failure with
        | none => exact ⟨rfl, rfl, by rw [ends]; rfl, rfl, rfl, rfl, rfl, rfl, nofun⟩
        | some failure => exact ⟨rfl, rfl, by rw [ends]; rfl, rfl, rfl, rfl, rfl, rfl, nofun⟩
    | some ending =>
      cases failure with
      | some failure => exact ⟨rfl, rfl, by rw [ends]; rfl, rfl, rfl, rfl, rfl, rfl, nofun⟩
      | none =>
        cases ending with
        | eof => exact ⟨rfl, rfl, by rw [ends]; rfl, rfl, rfl, rfl, rfl, rfl, nofun⟩
        | failed error => exact ⟨rfl, rfl, by rw [ends], rfl, rfl, rfl, rfl, rfl, nofun⟩

variable {state : State ε}

theorem Intact.take {read : HeldRead ε} (intact : Intact body state) (holding : state.returned = none)
    (came : state.reading = .returned read) : Intact body (state.takeRead gjson protocol read) := by
  obtain ⟨rest, reading, stream, taken, -, -, out, outEnd, opens⟩ :=
    @takeRead_taken _ _ gjson protocol state read
  obtain ⟨nothing, same, free, -⟩ := intact.holding holding
  refine ⟨?total, ?streamEnd, ?readEnd, ?outEnd, ?holding, ?handed⟩
  case total =>
    have whole := intact.total
    rw [came] at whole
    rw [out, stream, reading, rest]
    simpa [inFlight] using whole
  case streamEnd =>
    intro ending ends
    rw [stream] at ends
    rw [rest]
    obtain ⟨known, left⟩ := intact.readEnd read ending came ends
    exact ⟨known, left, reading⟩
  case readEnd =>
    intro other ending contra
    rw [reading] at contra
    cases contra
  case outEnd =>
    intro ending ends
    rw [outEnd] at ends
    rw [out]
    exact intact.outEnd ending ends
  case holding =>
    intro still
    rw [out, stream, taken]
    exact ⟨nothing, by rw [same], free, opens still⟩
  case handed =>
    intro _
    rw [stream, reading]
    exact ⟨fun _ => rfl, fun _ => free⟩

variable {next : State ε}

theorem Intact.readHeld (intact : Intact body state) (handed : state.returned ≠ none) (going : state.outEnd = none)
    (read : state.readHeld body size count closing = some next)
    (quiet : state.stream.held = [] → state.reading = .idle) : Intact body next := by
  unfold State.readHeld at read
  split at read
  · rename_i held
    cases read
    refine ⟨?total, intact.streamEnd, intact.readEnd, ?outEnd, fun still => absurd still handed, intact.handed⟩
    case total =>
      have whole := intact.total
      dsimp only
      rw [List.append_assoc, ← List.append_assoc (state.stream.held.take size), take_append_drop]
      exact whole
    case outEnd =>
      intro ending ends
      rw [going] at ends
      cases ends
  · rename_i empty
    have empty : state.stream.held = [] := Decidable.not_not.mp empty
    have idle := quiet empty
    have whole := intact.total
    rw [empty, idle] at whole
    split at read
    · rename_i ending ends
      cases read
      obtain ⟨known, left, -⟩ := intact.streamEnd ending ends
      refine ⟨intact.total, intact.streamEnd, intact.readEnd, ?_, fun still => absurd still handed, intact.handed⟩
      intro other same
      cases same
      rw [left] at whole
      exact ⟨known, by simpa [inFlight] using whole⟩
    · rename_i goes
      obtain ⟨⟨got, left⟩, found, rfl⟩ := map_eq_some_iff.mp read
      obtain ⟨split, -, -, ends⟩ := Body.read_cases found
      refine ⟨?total, ?streamEnd, ?readEnd, ?outEnd, fun still => absurd still handed, intact.handed⟩
      case total =>
        dsimp only
        rw [empty, idle]
        rw [← split] at whole
        simpa [inFlight] using whole
      case streamEnd =>
        intro ending contra
        dsimp only at contra
        rw [goes] at contra
        cases contra
      case readEnd =>
        intro other ending contra
        dsimp only at contra
        rw [idle] at contra
        cases contra
      case outEnd =>
        intro ending came
        obtain ⟨known, nothing⟩ := ends ending came
        refine ⟨known, ?_⟩
        rw [← split, nothing] at whole
        simpa [inFlight] using whole

theorem Intact.arrive {read : HeldRead ε} (intact : Intact body state) (handed : state.returned ≠ none)
    (empty : state.stream.held = []) (came : state.reading = .returned read) :
    Intact body { state with reading := .idle, stream := ⟨read.data, false, read.err⟩ } := by
  refine ⟨?total, ?streamEnd, nofun, intact.outEnd, fun still => absurd still handed, fun _ => ⟨fun _ => rfl, fun _ => rfl⟩⟩
  case total =>
    have whole := intact.total
    rw [empty, came] at whole
    simpa [inFlight] using whole
  case streamEnd =>
    intro ending ends
    obtain ⟨known, left⟩ := intact.readEnd read ending came ends
    exact ⟨known, left, rfl⟩

theorem Intact.clientRead (intact : Intact body state) (read : state.clientRead body size count closing = some next) :
    Intact body next := by
  unfold State.clientRead at read
  split at read
  · cases read
  · rename_i open_out
    simp only [Bool.or_eq_true, Option.isNone_iff_eq_none, not_or, Bool.not_eq_true, Option.isSome_eq_false_iff] at open_out
    obtain ⟨handed, going⟩ := open_out
    split at read
    · rename_i waits
      split at read
      · rename_i came reading
        exact (intact.arrive handed waits.1 reading).readHeld handed going read fun _ => rfl
      · cases read
    · rename_i ready
      refine intact.readHeld handed going read ?_
      intro empty
      refine (intact.handed handed).mp ?_
      cases pending : state.stream.pending with
      | false => rfl
      | true => exact absurd ⟨empty, pending⟩ ready

variable {returned : Returned ε}

theorem Intact.hand {pending : Bool} (intact : Intact body state) (holding : state.returned = none)
    (flies : pending = false ↔ state.reading = .idle) :
    Intact body { state with
      returned := some returned, cut := true, stream := { state.stream with pending } } := by
  obtain ⟨-, -, -, open_end⟩ := intact.holding holding
  refine ⟨intact.total, ?_, intact.readEnd, intact.outEnd, nofun, fun _ => flies⟩
  intro ending ends
  dsimp only at ends
  rw [open_end] at ends
  cases ends

theorem step_intact (intact : Intact body state) (stepped : step gjson protocol body state act = some next) :
    Intact body next := by
  cases act with
  | read size count closing => exact intact.clientRead stepped
  | answer count closing =>
    unfold step at stepped
    dsimp only at stepped
    split at stepped
    · rename_i running
      obtain ⟨⟨read, left⟩, found, rfl⟩ := map_eq_some_iff.mp stepped
      obtain ⟨split, -, -, ends⟩ := Body.read_cases found
      refine ⟨?total, ?streamEnd, ?readEnd, intact.outEnd, intact.holding, ?handed⟩
      case total =>
        have whole := intact.total
        rw [running, ← split] at whole
        simpa [inFlight] using whole
      case streamEnd =>
        intro ending ended
        have idle := (intact.streamEnd ending ended).2.2
        rw [running] at idle
        cases idle
      case readEnd =>
        rintro other ending same came
        obtain rfl := Reading.returned.inj same
        exact ends ending came
      case handed =>
        intro handed
        have pends := intact.handed handed
        rw [running] at pends
        exact ⟨fun free => absurd (pends.mp free) nofun, nofun⟩
    · cases stepped
  | launch =>
    unfold step at stepped
    dsimp only at stepped
    split at stepped
    · cases stepped
    · rename_i holding
      have holding : state.returned = none := by simpa using holding
      split at stepped
      · rename_i idle
        cases stepped
        refine ⟨?_, ?_, nofun, intact.outEnd, intact.holding, fun handed => absurd holding handed⟩
        · have whole := intact.total
          rw [idle] at whole
          exact whole
        · intro ending ended
          have opens := (intact.holding holding).2.2.2
          dsimp only at ended
          rw [opens] at ended
          cases ended
      · cases stepped
  | take =>
    unfold step at stepped
    dsimp only at stepped
    split at stepped
    · cases stepped
    · rename_i holding
      have holding : state.returned = none := by simpa using holding
      split at stepped
      · rename_i read came
        cases stepped
        exact intact.take holding came
      · cases stepped
  | cancel cause =>
    unfold step at stepped
    dsimp only at stepped
    split at stepped
    · cases stepped
    · rename_i holding
      have holding : state.returned = none := by simpa using holding
      cases stepped
      refine intact.hand holding ?_
      cases state.reading with
      | idle => exact ⟨fun _ => rfl, fun _ => rfl⟩
      | running => exact ⟨nofun, nofun⟩
      | returned read => exact ⟨nofun, nofun⟩
  | timeOut =>
    unfold step at stepped
    dsimp only at stepped
    split at stepped
    · cases stepped
    · rename_i holding
      have holding : state.returned = none := by simpa using holding
      split at stepped
      · cases stepped
      · cases stepped
      · rename_i failure _ busy
        cases stepped
        exact intact.hand holding ⟨nofun, fun idle => (busy idle).elim⟩

theorem start_intact : Intact body (start body) where
  total := rfl
  streamEnd := nofun
  readEnd := nofun
  outEnd := nofun
  holding := fun _ => ⟨rfl, rfl, rfl, rfl⟩
  handed := fun handed => absurd rfl handed

/-! ### What the events decide -/

/-- What the whole events of some bytes, read at once, decide. -/
def decision (gjson : Gjson R) (protocol : ProtocolID) (bytes : Bytes) : Scan :=
  scanFrames gjson protocol none (splitFrames (replaceCRLF bytes)).dropLast

/-- No line after the first is two or more returns and nothing else. -/
def ThinLines (bytes : Bytes) : Prop :=
  ∀ front returns back, bytes = front ++ 10 :: (List.replicate returns 13 ++ 10 :: back) → returns ≤ 1

variable {bytes : Bytes}

theorem thinLines_of_apart (apart : ¬[13, 13] <:+: bytes) : ThinLines bytes := by
  rintro front returns back rfl
  refine Decidable.byContradiction fun many => apart ?_
  obtain ⟨more, rfl⟩ : ∃ more, returns = more + 2 := ⟨returns - 2, by omega⟩
  refine ⟨front ++ [10], List.replicate more 13 ++ 10 :: back, ?_⟩
  rw [replicate_succ, replicate_succ]
  simp

theorem ThinLines.rest {byte : UInt8} {rest : Bytes} (thin : ThinLines (byte :: rest)) : ThinLines rest :=
  fun front returns back split => thin (byte :: front) returns back (by rw [split]; rfl)

theorem ThinLines.line {line : Option Nat} (thin : ThinLines bytes)
    (within : ∀ seen returns back, line = some seen → bytes = List.replicate returns 13 ++ 10 :: back → seen + returns ≤ 1) :
    Slim 1 line bytes := by
  induction bytes generalizing line with
  | nil => trivial
  | cons byte rest ih =>
    unfold Slim
    split
    · rename_i feed
      refine ⟨fun returns same => within returns 0 rest same (by rw [feed]; rfl), ih thin.rest ?_⟩
      intro seen returns back same split
      cases same
      rw [Nat.zero_add]
      exact thin [] returns back (by rw [feed, split]; rfl)
    · split
      · rename_i returned
        refine ih thin.rest ?_
        intro seen returns back same split
        obtain ⟨before, known, rfl⟩ := map_eq_some_iff.mp same
        have bound := within before (returns + 1) back known (by rw [returned, split]; rfl)
        omega
      · exact ih thin.rest fun seen _ _ contra => by cases contra

theorem ThinLines.slim (thin : ThinLines bytes) : Slim 1 none bytes :=
  thin.line fun _ _ _ contra => by cases contra

/-- The bytes taken so far, of which the ones that wait are the last event. -/
structure Carried (gjson : Gjson R) (protocol : ProtocolID) (taken unread : Bytes) (failure : Option StreamFailure) : Prop where
  carries : ∃ frames last, splitFrames (bare taken) = frames ++ [last] ∧ bare unread = bare last ∧
    scanFrames gjson protocol none frames = .undecided failure

theorem decision_bare (slim : Slim 1 none bytes) :
    decision gjson protocol bytes = scanFrames gjson protocol none (splitFrames (bare bytes)).dropLast := by
  have same := splitFrames_bare (slim.replaced fun _ contra => by cases contra)
  rw [bare_replaceCRLF] at same
  obtain ⟨fronts, backs, first, second, cut, cutBare, -, scans⟩ := @SameFrames.dropLast _ _ _ gjson protocol same
  rw [decision, cut, cutBare, dropLast_concat, dropLast_concat]
  exact scans none

variable {failure : Option StreamFailure}

theorem Carried.take {taken unread : Bytes} (carried : Carried gjson protocol taken unread failure) {data : Bytes}
    (slim : Slim 1 none (unread ++ data)) :
    ∃ frames last, splitFrames (replaceCRLF (unread ++ data)) = frames ++ [last] ∧
      scanFrames gjson protocol failure frames =
        scanFrames gjson protocol none (splitFrames (bare (taken ++ data))).dropLast ∧
      scanFrames gjson protocol failure (frames ++ [last]) =
        scanFrames gjson protocol none (splitFrames (bare (taken ++ data))) ∧
      ∀ failure', scanFrames gjson protocol failure frames = .undecided failure' →
        Carried gjson protocol (taken ++ data) last failure' := by
  obtain ⟨frames, last, split, waits, scanned⟩ := carried.carries
  have same := splitFrames_bare (slim.replaced fun _ contra => by cases contra)
  rw [bare_replaceCRLF, bare_append, waits, ← bare_append] at same
  have whole : splitFrames (bare (taken ++ data)) = frames ++ splitFrames (bare (last ++ data)) := by
    rw [bare_append]
    exact splitFrames_bare_append (bare_bare taken) split data
  have everything := @SameFrames.scan _ _ _ gjson protocol same
  obtain ⟨fronts, backs, first, second, cut, cutBare, ends, scans⟩ := @SameFrames.dropLast _ _ _ gjson protocol same
  have continued : ∀ more, scanFrames gjson protocol none (frames ++ more) = scanFrames gjson protocol failure more := by
    intro more
    rw [scanFrames_append, scanned]
  refine ⟨fronts, first, cut, ?_, ?_, ?_⟩
  · rw [whole, cutBare, ← List.append_assoc, dropLast_concat, continued]
    exact scans failure
  · rw [whole, continued, ← cut]
    exact everything failure
  · intro failure' undecided
    refine ⟨frames ++ backs, second, ?_, ends, ?_⟩
    · rw [whole, cutBare, List.append_assoc]
    · rw [continued, ← scans, undecided]

theorem slim_left {unread data later last : Bytes} {frames : List Bytes} (slim : Slim 1 none (unread ++ data ++ later))
    (split : splitFrames (replaceCRLF (unread ++ data)) = frames ++ [last]) : Slim 1 none (last ++ later) := by
  have replaced := slim.replaceCRLF later
  obtain ⟨front, same⟩ := splitFrames_suffix split
  rw [← same, List.append_assoc] at replaced
  exact replaced.back

/-- The verdict of events that decide. -/
def verdict : Scan → Option (Returned ε)
  | .progress => some .accepted
  | .refused failure => some (.refused failure)
  | .undecided _ => none

/-- The verdict when the body ends after the events. -/
def close (ending : Ending ε) : Scan → Returned ε
  | .progress => .accepted
  | .refused failure => .refused failure
  | .undecided (some failure) => .refused failure
  | .undecided none =>
    match ending with
    | .eof => .accepted
    | .failed error => .broken error

def Returned.unheld : Returned ε → Returned ε
  | .refused failure => .refused { failure with held := 0 }
  | returned => returned

/-- The events that a read shows, and what they decide. -/
def shown (gjson : Gjson R) (protocol : ProtocolID) (state : State ε) (read : HeldRead ε) : Scan :=
  let frames := splitFrames (replaceCRLF (state.unread ++ read.data))
  scanFrames gjson protocol state.failure (if isEOF read.err then frames else frames.dropLast)

theorem takeRead_decided {read : HeldRead ε} (decided : verdict (shown gjson protocol state read) = some returned) :
    (state.takeRead gjson protocol read).returned.map Returned.unheld = some returned.unheld := by
  unfold shown at decided
  unfold State.takeRead
  dsimp only at decided ⊢
  split
  · rename_i scanned
    rw [scanned] at decided
    rw [← some.inj decided]
    rfl
  · rename_i failure scanned
    rw [scanned] at decided
    rw [← some.inj decided]
    rfl
  · rename_i failure scanned
    rw [scanned] at decided
    cases decided

theorem takeRead_ended {read : HeldRead ε} {ending : Ending ε} (ends : read.err = some ending) :
    (state.takeRead gjson protocol read).returned.map Returned.unheld =
      some (close ending (shown gjson protocol state read)).unheld := by
  unfold shown State.takeRead
  dsimp only
  cases scanFrames gjson protocol state.failure (if isEOF read.err then
      splitFrames (replaceCRLF (state.unread ++ read.data)) else
      (splitFrames (replaceCRLF (state.unread ++ read.data))).dropLast) with
  | progress => rfl
  | refused failure => rfl
  | undecided failure =>
    unfold State.afterFrames
    dsimp only
    rw [ends]
    cases failure with
    | some failure => rfl
    | none => cases ending <;> rfl

theorem takeRead_goesOn {read : HeldRead ε} (holding : state.returned = none) (opens : read.err = none)
    (undecided : shown gjson protocol state read = .undecided failure)
    (room : (state.stream.held ++ read.data).length ≤ streamStartHoldBytes) :
    (state.takeRead gjson protocol read).returned = none ∧ (state.takeRead gjson protocol read).failure = failure := by
  unfold shown at undecided
  unfold State.takeRead
  dsimp only at undecided ⊢
  rw [undecided]
  unfold State.afterFrames
  dsimp only
  rw [opens]
  dsimp only
  rw [if_pos room]
  exact ⟨holding, rfl⟩

theorem step_cases (stepped : step gjson protocol body state act = some next) :
    (∃ read, state.returned = none ∧ state.reading = .returned read ∧ next = state.takeRead gjson protocol read) ∨
      (next.returned = state.returned ∧ next.cut = state.cut ∧ next.taken = state.taken ∧ next.unread = state.unread ∧
        next.failure = state.failure) ∨
      state.returned = none ∧ next.cut = true ∧ next.returned.isSome = true := by
  cases act with
  | launch =>
    unfold step at stepped
    dsimp only at stepped
    split at stepped
    · cases stepped
    · split at stepped
      · cases stepped
        exact .inr (.inl ⟨rfl, rfl, rfl, rfl, rfl⟩)
      · cases stepped
  | answer count closing =>
    unfold step at stepped
    dsimp only at stepped
    split at stepped
    · obtain ⟨_, -, rfl⟩ := map_eq_some_iff.mp stepped
      exact .inr (.inl ⟨rfl, rfl, rfl, rfl, rfl⟩)
    · cases stepped
  | take =>
    unfold step at stepped
    dsimp only at stepped
    split at stepped
    · cases stepped
    · rename_i holding
      have holding : state.returned = none := by simpa using holding
      split at stepped
      · rename_i read came
        exact .inl ⟨read, holding, came, (some.inj stepped).symm⟩
      · cases stepped
  | cancel cause =>
    unfold step at stepped
    dsimp only at stepped
    split at stepped
    · cases stepped
    · rename_i holding
      have holding : state.returned = none := by simpa using holding
      cases stepped
      exact .inr (.inr ⟨holding, rfl, rfl⟩)
  | timeOut =>
    unfold step at stepped
    dsimp only at stepped
    split at stepped
    · cases stepped
    · rename_i holding
      have holding : state.returned = none := by simpa using holding
      split at stepped
      · cases stepped
      · cases stepped
      · cases stepped
        exact .inr (.inr ⟨holding, rfl, rfl⟩)
  | read size count closing =>
    have held : ∀ {state next : State ε}, state.readHeld body size count closing = some next →
        next.returned = state.returned ∧ next.cut = state.cut ∧ next.taken = state.taken ∧ next.unread = state.unread ∧
          next.failure = state.failure := by
      intro state next read
      unfold State.readHeld at read
      split at read
      · cases read
        exact ⟨rfl, rfl, rfl, rfl, rfl⟩
      · split at read
        · cases read
          exact ⟨rfl, rfl, rfl, rfl, rfl⟩
        · obtain ⟨_, -, rfl⟩ := map_eq_some_iff.mp read
          exact ⟨rfl, rfl, rfl, rfl, rfl⟩
    have read : state.clientRead body size count closing = some next := stepped
    unfold State.clientRead at read
    split at read
    · cases read
    · split at read
      · split at read
        · have same := held read
          exact .inr (.inl same)
        · cases read
      · exact .inr (.inl (held read))

/-- The hold has read part of some bytes, and they decide what it returns. -/
structure Follows (gjson : Gjson R) (protocol : ProtocolID) (target : Bytes) (last : Bytes → Prop) (returned : Returned ε)
    (state : State ε) : Prop where
  holding : state.returned = none → ∃ future, target = state.taken ++ future ∧ last future ∧
    Slim 1 none (state.unread ++ future) ∧ Carried gjson protocol state.taken state.unread state.failure
  handed : ∀ other, state.returned = some other → state.cut = false → other.unheld = returned.unheld

theorem carried_start : Carried gjson protocol [] [] none :=
  ⟨[], [], rfl, rfl, rfl⟩

theorem Follows.step {target : Bytes} {last : Bytes → Prop}
    (follows : Follows gjson protocol target last returned state)
    (takes : ∀ read, state.returned = none → state.reading = .returned read → Follows gjson protocol target last returned (state.takeRead gjson protocol read))
    (stepped : step gjson protocol body state act = some next) : Follows gjson protocol target last returned next := by
  rcases step_cases stepped with ⟨read, holding, came, rfl⟩ | ⟨same, cut, taken, unread, failure⟩ | ⟨-, cut, ended⟩
  · exact takes read holding came
  · refine ⟨?_, ?_⟩
    · intro holding
      rw [taken, unread, failure]
      exact follows.holding (same ▸ holding)
    · intro other found uncut
      rw [same] at found
      rw [cut] at uncut
      exact follows.handed other found uncut
  · refine ⟨?_, ?_⟩
    · intro holding
      rw [holding] at ended
      cases ended
    · intro other _ uncut
      rw [cut] at uncut
      cases uncut

theorem Carried.shown_within {read : HeldRead ε} {later : Bytes}
    (carried : Carried gjson protocol state.taken state.unread state.failure)
    (slim : Slim 1 none (state.unread ++ (read.data ++ later))) :
    ∃ decided whole, decided = scanFrames gjson protocol none (splitFrames (bare (state.taken ++ read.data))).dropLast ∧
      whole = scanFrames gjson protocol none (splitFrames (bare (state.taken ++ read.data))) ∧
      shown gjson protocol state read = (if isEOF read.err then whole else decided) ∧
      ∀ failure, decided = .undecided failure →
        Carried gjson protocol (state.taken ++ read.data)
            ((splitFrames (replaceCRLF (state.unread ++ read.data))).getLastD []) failure ∧
          Slim 1 none ((splitFrames (replaceCRLF (state.unread ++ read.data))).getLastD [] ++ later) := by
  rw [← List.append_assoc] at slim
  obtain ⟨frames, last, split, decides, all, carries⟩ := carried.take slim.front
  refine ⟨_, _, rfl, rfl, ?_, ?_⟩
  · unfold shown
    dsimp only
    rw [split, dropLast_concat, ← decides, ← all]
    split <;> rfl
  · intro failure undecided
    rw [split, getLastD_concat]
    exact ⟨carries failure (by rw [decides]; exact undecided), slim_left slim split⟩

theorem verdict_append {front : List Bytes}
    (decided : verdict (scanFrames gjson protocol failure front) = some returned) (back : List Bytes) :
    verdict (scanFrames gjson protocol failure (front ++ back)) = some returned := by
  rw [scanFrames_append]
  cases scanned : scanFrames gjson protocol failure front with
  | progress => rw [scanned] at decided; exact decided
  | refused failure => rw [scanned] at decided; exact decided
  | undecided failure => rw [scanned] at decided; cases decided

theorem decision_append {front back : Bytes}
    (decided : verdict (scanFrames gjson protocol none (splitFrames (bare front)).dropLast) = some returned) :
    verdict (scanFrames gjson protocol none (splitFrames (bare (front ++ back))).dropLast) = some returned := by
  obtain ⟨frames, last, split⟩ := splitFrames_last (bare front)
  rw [split, dropLast_concat] at decided
  rw [bare_append, splitFrames_bare_append (bare_bare front) split, dropLast_splitFrames]
  exact verdict_append decided _

theorem Follows.settled {target : Bytes} {last : Bytes → Prop}
    (settled : state.returned.map Returned.unheld = some returned.unheld) :
    Follows gjson protocol target last returned state := by
  obtain ⟨other, found, same⟩ := map_eq_some_iff.mp settled
  refine ⟨?_, ?_⟩
  · intro holding
    rw [holding] at found
    cases found
  · intro another known _
    rw [found] at known
    rw [← some.inj known]
    exact same

theorem takeRead_beyond {read : HeldRead ε} {target future extra : Bytes}
    (carried : Carried gjson protocol state.taken state.unread state.failure)
    (slim : Slim 1 none (state.unread ++ (future ++ [10]))) (data : read.data = (future ++ [10]) ++ extra)
    (split : target = state.taken ++ (future ++ [10]))
    (decides : verdict (scanFrames gjson protocol none (splitFrames (bare target)).dropLast) = some returned) :
    (state.takeRead gjson protocol read).returned.map Returned.unheld = some returned.unheld := by
  obtain ⟨frames, last, cut, decided, -, -⟩ := carried.take slim
  rw [← split] at decided
  rw [← decided] at decides
  have fed : replaceCRLF (state.unread ++ read.data) =
      replaceCRLF (state.unread ++ (future ++ [10])) ++ replaceCRLF extra := by
    rw [data, List.append_assoc, singleton_append, ← List.append_assoc, replaceCRLF_feed, List.append_assoc]
  apply takeRead_decided
  unfold shown
  dsimp only
  rw [fed, splitFrames_append cut, dropLast_splitFrames]
  split
  · exact verdict_append decides _
  · exact verdict_append decides _

theorem follows_event {event : Bytes} (listed : event ++ [10] <+: body.bytes)
    (within : (event ++ [10]).length ≤ streamStartHoldBytes) (thin : ThinLines (event ++ [10]))
    (decides : verdict (decision gjson protocol (event ++ [10])) = some returned) (intact : Intact body state)
    (follows : Follows gjson protocol (event ++ [10]) (fun future => future ≠ []) returned state) {read : HeldRead ε}
    (holding : state.returned = none) (came : state.reading = .returned read) :
    Follows gjson protocol (event ++ [10]) (fun future => future ≠ []) returned (state.takeRead gjson protocol read) := by
  obtain ⟨future, target, more, slim, carried⟩ := follows.holding holding
  obtain ⟨nothing, same, -, -⟩ := intact.holding holding
  have whole := intact.total
  rw [nothing, same, came, nil_append] at whole
  obtain ⟨rest, bytes⟩ := listed
  have ahead : future ++ rest = read.data ++ state.rest := by
    have joined : state.taken ++ (future ++ rest) = state.taken ++ (read.data ++ state.rest) := by
      rw [← List.append_assoc, ← target, bytes]
      exact whole.symm
    exact append_cancel_left joined
  rw [decision_bare thin.slim] at decides
  have sides : (∃ extra, read.data = future ++ extra) ∨
      ∃ later, later ≠ [] ∧ future = read.data ++ later ∧ state.rest = later ++ rest := by
    rcases append_eq_append_iff.mp ahead with ⟨extra, split, -⟩ | ⟨later, split, left⟩
    · exact .inl ⟨extra, split⟩
    · cases later with
      | nil => exact .inl ⟨[], by rw [split, append_nil, append_nil]⟩
      | cons byte later => exact .inr ⟨byte :: later, cons_ne_nil _ _, split, left⟩
  rcases sides with ⟨extra, data⟩ | ⟨later, some_byte, split, left⟩
  · obtain ⟨front, byte, rfl⟩ : ∃ front byte, future = front ++ [byte] :=
      ⟨_, _, (dropLast_concat_getLast more).symm⟩
    have feed : byte = 10 := by
      rw [← List.append_assoc] at target
      exact (singleton_inj.mp (append_inj' target rfl).2).symm
    rw [feed] at target data slim
    exact Follows.settled (takeRead_beyond carried slim data target decides)
  · have opens : read.err = none := by
      cases ends : read.err with
      | none => rfl
      | some ending =>
        have empty := (intact.readEnd read ending came ends).2
        rw [left] at empty
        exact absurd (append_eq_nil_iff.mp empty).1 some_byte
    rw [split] at slim
    obtain ⟨decided, _, now, -, shows, carries⟩ := carried.shown_within slim
    have reading : shown gjson protocol state read = decided := by
      rw [shows, opens]
      rfl
    cases found : (verdict decided : Option (Returned ε)) with
    | some other =>
      have later_too := @decision_append ε _ gjson protocol other (state.taken ++ read.data) later (by rw [← now]; exact found)
      rw [List.append_assoc, ← split, ← target, decides] at later_too
      rw [some.inj later_too]
      exact Follows.settled (takeRead_decided (by rw [reading]; exact found))
    | none =>
      obtain ⟨failure, undecided⟩ : ∃ failure, decided = .undecided failure := by
        cases decided with
        | progress => cases found
        | refused failure => cases found
        | undecided failure => exact ⟨failure, rfl⟩
      have room : (state.stream.held ++ read.data).length ≤ streamStartHoldBytes := by
        have counted := congrArg List.length target
        rw [split] at counted
        simp only [length_append] at counted within ⊢
        rw [same]
        omega
      obtain ⟨still, kept⟩ := takeRead_goesOn holding opens (reading.trans undecided) room
      have after := @takeRead_taken _ _ gjson protocol state read
      refine ⟨?_, ?_⟩
      · intro _
        rw [after.taken, after.unread, kept]
        refine ⟨later, by rw [List.append_assoc, ← split, ← target], some_byte, ?_⟩
        exact (carries failure undecided).symm
      · intro other known _
        rw [still] at known
        cases known

/-- The verdict when the body ends and none of its events decides. -/
def endVerdict (gjson : Gjson R) (protocol : ProtocolID) (bytes : Bytes) (ending : Ending ε) : Returned ε :=
  let frames := splitFrames (replaceCRLF bytes)
  close ending (scanFrames gjson protocol none (if isEOF (some ending) then frames else frames.dropLast))

theorem follows_body {ending : Ending ε} (ends : body.ending = some ending)
    (within : body.bytes.length ≤ streamStartHoldBytes) (thin : ThinLines body.bytes)
    (undecided : verdict (decision gjson protocol body.bytes) = (none : Option (Returned ε)))
    (intact : Intact body state)
    (follows : Follows gjson protocol body.bytes (fun _ => True) (endVerdict gjson protocol body.bytes ending) state)
    {read : HeldRead ε} (holding : state.returned = none) (came : state.reading = .returned read) :
    Follows gjson protocol body.bytes (fun _ => True) (endVerdict gjson protocol body.bytes ending)
      (state.takeRead gjson protocol read) := by
  obtain ⟨future, target, -, slim, carried⟩ := follows.holding holding
  obtain ⟨nothing, same, -, -⟩ := intact.holding holding
  have total := intact.total
  rw [nothing, same, came, nil_append] at total
  have split : future = read.data ++ state.rest := by
    rw [target] at total
    exact (append_cancel_left total).symm
  rw [split] at slim target
  obtain ⟨decided, whole, now, all, shows, carries⟩ := carried.shown_within slim
  obtain ⟨failure, waits⟩ : ∃ failure, decided = .undecided failure := by
    cases found : (verdict decided : Option (Returned ε)) with
    | some other =>
      have later_too := @decision_append ε _ gjson protocol other (state.taken ++ read.data) state.rest
        (by rw [← now]; exact found)
      rw [List.append_assoc, ← target, ← decision_bare thin.slim, undecided] at later_too
      cases later_too
    | none =>
      cases decided with
      | progress => cases found
      | refused failure => cases found
      | undecided failure => exact ⟨failure, rfl⟩
  cases err : read.err with
  | none =>
    have room : (state.stream.held ++ read.data).length ≤ streamStartHoldBytes := by
      have counted := congrArg List.length target
      simp only [length_append] at counted ⊢
      rw [same]
      omega
    rw [err] at shows
    obtain ⟨still, kept⟩ := takeRead_goesOn holding err (shows.trans waits) room
    have after := @takeRead_taken _ _ gjson protocol state read
    refine ⟨?_, ?_⟩
    · intro _
      rw [after.taken, after.unread, kept]
      refine ⟨state.rest, by rw [List.append_assoc, ← target], trivial, ?_⟩
      exact (carries failure waits).symm
    · intro other known _
      rw [still] at known
      cases known
  | some last =>
    obtain ⟨known, empty⟩ := intact.readEnd read last came err
    obtain rfl := some.inj (ends.symm.trans known)
    rw [empty, append_nil] at target
    refine Follows.settled ?_
    rw [takeRead_ended err, shows, err, endVerdict]
    have entire : scanFrames gjson protocol none (splitFrames (replaceCRLF body.bytes)) = whole := by
      have alike := splitFrames_bare (thin.slim.replaced fun _ contra => by cases contra)
      rw [bare_replaceCRLF] at alike
      rw [alike.scan none, all, target]
    have complete : scanFrames gjson protocol none (splitFrames (replaceCRLF body.bytes)).dropLast = decided := by
      rw [now, ← target]
      exact decision_bare thin.slim
    cases isEOF (some ending) with
    | true => rw [if_pos rfl, if_pos rfl, entire]
    | false => rw [if_neg Bool.false_ne_true, if_neg Bool.false_ne_true, complete]

/-- What the client reads is the body, once and in order, and then its end. -/
structure Replays (gjson : Gjson R) (protocol : ProtocolID) (body : Body ε) (state : State ε) : Prop where
  order : state.out <+: body.bytes
  ended : ∀ ending, state.outEnd = some ending → state.out = body.bytes ∧ body.ending = some ending
  getsOn : state.returned ≠ none → state.outEnd = none → state.reading ≠ .running →
    (state.out = body.bytes → body.ending ≠ none) → ∀ size, 0 < size → ∃ count closing next,
      step gjson protocol body state (.read size count closing) = some next ∧
        (state.out.length < next.out.length ∨ next.outEnd ≠ none)

theorem Intact.readHeld_on (intact : Intact body state) (more : state.out = body.bytes → body.ending ≠ none)
    (idle : state.stream.held = [] → state.reading = .idle) (room : 0 < size) :
    ∃ count closing next, state.readHeld body size count closing = some next ∧
      (state.out.length < next.out.length ∨ next.outEnd ≠ none) := by
  by_cases held : state.stream.held = []
  · cases ends : state.stream.err with
    | some ending =>
      refine ⟨0, false, { state with outEnd := some ending }, ?_, .inr (Option.some_ne_none ending)⟩
      rw [State.readHeld, if_neg (not_not_intro held), ends]
    | none =>
      have whole := intact.total
      rw [held, idle held] at whole
      cases left : state.rest with
      | nil =>
        rw [left] at whole
        have ending := more (by simpa [inFlight] using whole)
        have closes : body.read [] size 0 true = some (⟨[], body.ending⟩, []) :=
          if_pos ⟨Nat.zero_le _, Nat.zero_le _, fun _ => ⟨rfl, Option.isSome_iff_ne_none.mpr ending⟩⟩
        refine ⟨0, true, { state with out := state.out ++ [], outEnd := body.ending, rest := [] }, ?_, .inr ending⟩
        rw [State.readHeld, if_neg (not_not_intro held), ends, left, closes]
        rfl
      | cons byte rest =>
        have gives : body.read (byte :: rest) size 1 false = some (⟨[byte], none⟩, rest) :=
          if_pos ⟨room, Nat.succ_le_succ (Nat.zero_le _), nofun⟩
        refine ⟨1, false, { state with out := state.out ++ [byte], outEnd := none, rest }, ?_, .inl ?_⟩
        · rw [State.readHeld, if_neg (not_not_intro held), ends, left, gives]
          rfl
        · rw [length_append]
          exact Nat.lt_succ_self _
  · refine ⟨0, false, _, if_pos held, .inl ?_⟩
    have some_held := length_pos_iff.mpr held
    dsimp only
    rw [length_append, length_take]
    omega

theorem Intact.replays (intact : Intact body state) : Replays gjson protocol body state := by
  refine ⟨⟨_, intact.total⟩, fun ending ends => (intact.outEnd ending ends).symm, ?_⟩
  intro handed going flies more size room
  have opens : ¬(state.returned.isNone || state.outEnd.isSome) = true := by
    rw [going]
    simpa using handed
  show ∃ count closing next, state.clientRead body size count closing = some next ∧ _
  by_cases waits : state.stream.held = [] ∧ state.stream.pending = true
  · cases came : state.reading with
    | idle =>
      rw [(intact.handed handed).mpr came] at waits
      cases waits.2
    | running => exact absurd came flies
    | returned read =>
      obtain ⟨count, closing, next, found, on⟩ := (intact.arrive handed waits.1 came).readHeld_on more (fun _ => rfl) room
      refine ⟨count, closing, next, ?_, on⟩
      rw [State.clientRead, if_neg opens, if_pos waits, came]
      exact found
  · have idle : state.stream.held = [] → state.reading = .idle := by
      intro empty
      refine (intact.handed handed).mp ?_
      cases pending : state.stream.pending with
      | false => rfl
      | true => exact absurd ⟨empty, pending⟩ waits
    obtain ⟨count, closing, next, found, on⟩ := intact.readHeld_on more idle room
    refine ⟨count, closing, next, ?_, on⟩
    rw [State.clientRead, if_neg opens, if_neg waits]
    exact found

/-- What the client reads is the body, whatever the reads. The bytes alone decide the verdict when no blank line is made
of two or more returns. -/
theorem hold_faithful {state : State ε}
    (reached : Reaches (step gjson protocol body) (fun _ _ => True) (start body) state) :
    Replays gjson protocol body state ∧
      ∀ returned, state.returned = some returned → state.cut = false →
        (∀ event decided, event ++ [10] <+: body.bytes → (event ++ [10]).length ≤ streamStartHoldBytes →
          ThinLines (event ++ [10]) → verdict (decision gjson protocol (event ++ [10])) = some decided →
          returned.unheld = decided.unheld) ∧
        ∀ ending, body.ending = some ending → body.bytes.length ≤ streamStartHoldBytes → ThinLines body.bytes →
          verdict (decision gjson protocol body.bytes) = (none : Option (Returned ε)) →
          returned.unheld = (endVerdict gjson protocol body.bytes ending).unheld := by
  have intact : ∀ {state}, Reaches (step gjson protocol body) (fun _ _ => True) (start body) state → Intact body state :=
    fun reached => reached.invariant (Intact body) start_intact fun _ _ _ intact _ stepped => step_intact intact stepped
  have follows : ∀ {target : Bytes} {last : Bytes → Prop} {returned : Returned ε}, last target → Slim 1 none target →
      (∀ state read, Intact body state → Follows gjson protocol target last returned state → state.returned = none →
        state.reading = .returned read → Follows gjson protocol target last returned (state.takeRead gjson protocol read)) →
      Follows gjson protocol target last returned state := by
    intro target last returned whole slim takes
    have begun : Follows gjson protocol target last returned (start body) :=
      ⟨fun _ => ⟨target, rfl, whole, slim, carried_start⟩, nofun⟩
    refine (reached.invariant (fun state => Intact body state ∧ Follows gjson protocol target last returned state)
      ⟨start_intact, begun⟩ ?_).2
    rintro state act next ⟨intact, follows⟩ - stepped
    exact ⟨step_intact intact stepped, follows.step (fun read => takes state read intact follows) stepped⟩
  refine ⟨(intact reached).replays, ?_⟩
  intro returned found uncut
  constructor
  · intro event decided listed within thin decides
    have read := @follows (event ++ [10]) (fun future => future ≠ []) decided (by simp) thin.slim
      fun state read intact follows => follows_event listed within thin decides intact follows
    exact read.handed returned found uncut
  · intro ending ends within thin undecided
    have read := @follows body.bytes (fun _ => True) (endVerdict gjson protocol body.bytes ending) trivial thin.slim
      fun state read intact follows => follows_body ends within thin undecided intact follows
    exact read.handed returned found uncut

end

/-! ### A blank line of two returns -/

/-- The library on documents without the members that are looked up. -/
def noMembers : Gjson Unit where
  getBytes _ _ := ()
  parseBytes _ := ()
  get _ _ := ()
  isNull _ := true
  isString _ := false
  isArray _ := false
  isObject _ := false
  arrayLength _ := 0
  str _ := []
  string _ := []

/-- An output event, a line of two returns, a ping and an error. -/
def doubled : Body String where
  bytes := ascii "event: x\ndata: {}\n\r\r\nevent: ping\ndata: {}\n\nevent: error\ndata: {}\n\n"
  ending := some .eof

/-- The same with a single return. -/
def single : Body String where
  bytes := ascii "event: x\ndata: {}\n\r\nevent: ping\ndata: {}\n\nevent: error\ndata: {}\n\n"
  ending := some .eof

theorem hold_faithful_single :
    ∃ state : State String, runActs (step noMembers .anthropicMessages single) (start single)
        [.launch, .answer 20 false, .take, .read 8 0 false] = some state ∧
      Replays noMembers .anthropicMessages single state ∧ state.returned.map Returned.unheld = some .accepted := by
  have ran : (runActs (step noMembers .anthropicMessages single) (start single)
      [.launch, .answer 20 false, .take, .read 8 0 false]).map (fun state => (state.returned, state.cut)) =
      some (some .accepted, false) := by
    decide +kernel
  obtain ⟨state, run, found⟩ := map_eq_some_iff.mp ran
  obtain ⟨returned, uncut⟩ := Prod.mk.inj found
  have reached : Reaches (step noMembers .anthropicMessages single) (fun _ _ => True) (start single) state :=
    Reaches.runActs .start (fun _ _ => trivial) run
  obtain ⟨replays, decides⟩ := hold_faithful reached
  have thin : ThinLines (ascii "event: x\ndata: {}\n\r" ++ [10]) := thinLines_of_apart (by decide +kernel)
  have verdict := (decides .accepted returned uncut).1 (ascii "event: x\ndata: {}\n\r") .accepted (by decide +kernel)
    (by decide +kernel) thin (by decide +kernel)
  refine ⟨state, run, replays, ?_⟩
  rw [returned]
  rfl

/-- The verdict can depend on the reads: at once the ping is read with the output before it, in two parts it is not. -/
theorem verdict_split :
    ¬∀ (gjson : Gjson Unit) (protocol : ProtocolID) (body : Body String) (first second : State String),
      body.bytes.length ≤ streamStartHoldBytes →
      Reaches (step gjson protocol body) (fun _ _ => True) (start body) first →
      Reaches (step gjson protocol body) (fun _ _ => True) (start body) second →
      first.returned.isSome = true → second.returned.isSome = true → first.cut = false → second.cut = false →
      first.returned.map Returned.unheld = second.returned.map Returned.unheld := by
  intro same
  have whole : (runActs (step noMembers .anthropicMessages doubled) (start doubled)
      [.launch, .answer 66 true, .take]).map (fun state => (state.returned.map Returned.unheld, state.cut)) =
      some (some (.refused ⟨.anthropicMessages, ascii "{}", 502, 0⟩), false) := by
    decide +kernel
  have split : (runActs (step noMembers .anthropicMessages doubled) (start doubled)
      [.launch, .answer 21 false, .take, .launch, .answer 45 true, .take]).map
        (fun state => (state.returned.map Returned.unheld, state.cut)) =
      some (some .accepted, false) := by
    decide +kernel
  obtain ⟨first, ranFirst, found⟩ := map_eq_some_iff.mp whole
  obtain ⟨refused, uncutFirst⟩ := Prod.mk.inj found
  obtain ⟨second, ranSecond, found⟩ := map_eq_some_iff.mp split
  obtain ⟨accepted, uncutSecond⟩ := Prod.mk.inj found
  have contra := same noMembers .anthropicMessages doubled first second (by decide +kernel)
    (Reaches.runActs .start (fun _ _ => trivial) ranFirst) (Reaches.runActs .start (fun _ _ => trivial) ranSecond)
    (by rw [← @Option.isSome_map _ _ Returned.unheld, refused]; rfl)
    (by rw [← @Option.isSome_map _ _ Returned.unheld, accepted]; rfl) uncutFirst uncutSecond
  rw [refused, accepted] at contra
  cases contra

end AstrLink.StreamStart
