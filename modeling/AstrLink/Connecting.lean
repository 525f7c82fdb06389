import AstrLink.ClientWrites
import AstrLink.Disconnect

/-!
Connecting a client and taking the connection away again, with writes, moves and edits of the user in between.
Each key has an origin: the value it had before the first write or that the user last left there.
-/
namespace AstrLink.Connecting
open Tables ClientConfig ClientWrites Disconnect Runs
open Function (update)
open Option (map_eq_some_iff ne_none_iff_exists' some_ne_none)
open Function (update_of_ne update_self)

section
variable {Choice : Type}

/-- What every client's lists of keys have in common. -/
structure Lawful (client : ClientSpec Choice) : Prop where
  /-- The main file gets one of the keys AstrLink writes. -/
  main : ∀ connection, ∃ path, client.index path = 0 ∧ (client.desiredKeys connection).lookup path ≠ none
  /-- The keys that decide where requests go are always written. -/
  connection : ∀ connection, ∀ path ∈ client.connectionKeys, (client.desiredKeys connection).lookup path ≠ none
  /-- A key that an empty file may have is none of AstrLink's. -/
  grouped : ∀ path, (client.files (client.index path)).ignored path = true → grouped client path = false
  desired : ∀ connection path, (client.files (client.index path)).ignored path = true →
    (client.desiredKeys connection).lookup path = none
  synced : ∀ values record origin path, (client.files (client.index path)).ignored path = true →
    (client.syncedKeys values record origin).lookup path = none
  added : ∀ path, (client.files (client.index path)).ignored path = true → client.addedKeys.lookup path = none
  /-- A new main file starts with such keys only. -/
  starts : ∀ entry ∈ client.startFile, client.index entry.1 = 0 ∧ (client.files 0).ignored entry.1 = true

variable {client : ClientSpec Choice}

/-- The files before the first write. A blank main file is the user's. -/
structure Fresh (files : client.Files) : Prop where
  main : files 0 = some .blank → client.startFile = []
  companions : ∀ place, place ≠ 0 → files place ≠ none → (client.files place).bare = true →
    ∃ path, (parse (files place)).lookup path ≠ none

structure State (client : ClientSpec Choice) where
  world : World client
  /-- What each file had at a key before the first write, or what the user last left there. -/
  origin : client.Place → String → Option (Option String)
  /-- The keys the user changed since the first write. -/
  edited : String → Bool

def begin (files : client.Files) : State client where
  world := { files, record := none }
  origin place path := (parse (files place)).lookup path
  edited _ := false

inductive Act (Choice : Type) where
  | write (connection : Connection Choice)
  | sync (origin : String)
  /-- The user sets a key, or removes it. -/
  | edit (path : String) (value : Option (Option String))

def editFile (file : Option Text) (path : String) : Option (Option String) → Option Text
  | some value => some (.holds ((parse file).insert path value))
  | none => file.map fun _ => .holds ((parse file).erase path)

def writeFiles (existing : client.Files) (contents : client.Place → Text) : client.Files :=
  fun place => written (existing place) (contents place)

variable (sha256 : String → String)

def act (state : State client) : Act Choice → Option (State client)
  | .write connection =>
    let plan := planWrite sha256 state.world.files connection state.world.record
    some { state with world := { files := writeFiles state.world.files plan.contents, record := some plan.record } }
  | .sync origin =>
    state.world.record.bind fun record =>
      (planSync sha256 state.world.files record origin).map fun plan =>
        { state with world := { files := writeFiles state.world.files plan.1, record := some plan.2 } }
  | .edit path value =>
    state.world.record.map fun record =>
      { world :=
          { files := update state.world.files (client.index path)
              (editFile (state.world.files (client.index path)) path value)
            record := some record }
        origin := update state.origin (client.index path) (update (state.origin (client.index path)) path value)
        edited := update state.edited path true }

def State.value (state : State client) (path : String) : Option (Option String) :=
  valueOf state.world.files path

def State.kept (state : State client) (path : String) : Option String :=
  (keptBy state.world.record).lookup path

/-- AstrLink's record lists the key. -/
def State.wrote (state : State client) (path : String) : Option String :=
  (wroteBy state.world.record).lookup path

/-- A write replaces or removes what it finds at the key. -/
def Takes (state : State client) (connection : Connection Choice) (path : String) : Prop :=
  state.value path ≠ none ∧ writtenByUs sha256 state.world.record path (state.value path).join = false ∧
    (grouped client path = true ∨ (client.desiredKeys connection).lookup path ≠ none)

structure WriteSafe (state : State client) (connection : Connection Choice) : Prop where
  /-- What is replaced is a string. -/
  strings : ∀ path, Takes sha256 state connection path → state.value path ≠ some none
  /-- A value that is there already is not kept as another one. -/
  same : ∀ path value original, Takes sha256 state connection path → state.value path = some (some value) →
    (client.desiredKeys connection).lookup path = some value → state.kept path = some original → original = value
  /-- No key that AstrLink wrote over a value was removed. -/
  gone : ∀ path, state.wrote path ≠ none → state.value path = none → state.kept path = none

/-- What a sync moves is AstrLink's, or absent, or has the value that is kept of it. -/
def SyncSafe (state : State client) (origin : String) : Prop :=
  ∀ record, state.world.record = some record → record.baseUrl ≠ client.baseUrl origin →
    ∀ path, (client.syncedKeys state.value record origin).lookup path ≠ none →
      writtenByUs sha256 (some record) path (state.value path).join = true ∨
        (state.wrote path = none ∧ state.value path = none) ∨ state.value path = (state.kept path).map some

structure EditSafe (state : State client) (path : String) (value : Option (Option String)) : Prop where
  counted : (client.files (client.index path)).ignored path = false
  /-- The user does not put back what AstrLink wrote. -/
  foreign : writtenByUs sha256 state.world.record path value.join = false
  /-- Nor removes again a key that AstrLink took away. -/
  stays : state.wrote path = none → value = none → state.kept path = none

def Permitted (state : State client) : Act Choice → Prop
  | .write connection => WriteSafe sha256 state connection
  | .sync origin => SyncSafe sha256 state origin
  | .edit path value => EditSafe sha256 state path value

/-! ### What a removal would leave at a key -/

/-- What a restore leaves at a key, if there is a record to restore from. -/
def wantedBy (record : Option ClientRecord) (path : String) (found : Option (Option String)) : Option (Option String) :=
  match record with
  | some record => wanted sha256 record path found
  | none => found

variable {sha256} {record : Option ClientRecord} {path : String} {found : Option (Option String)}

theorem wantedBy_written (ours : writtenByUs sha256 record path found.join = true) :
    wantedBy sha256 record path found = ((keptBy record).lookup path).map some := by
  cases record with
  | none => simp [writtenByUs] at ours
  | some record => exact wanted_written ours

theorem wantedBy_foreign (foreign : writtenByUs sha256 record path found.join = false)
    (there : found ≠ none ∨ (wroteBy record).lookup path ≠ none) : wantedBy sha256 record path found = found := by
  cases record with
  | none => rfl
  | some record =>
    by_cases listed : record.keys.lookup path = none
    · rcases there with held | wrote
      · simp [wantedBy, wanted_unlisted listed, held]
      · exact absurd listed wrote
    · exact wanted_foreign listed foreign

theorem wantedBy_gone (unlisted : (wroteBy record).lookup path = none) :
    wantedBy sha256 record path none = ((keptBy record).lookup path).map some := by
  cases record with
  | none => rfl
  | some record =>
    have absent : record.keys.lookup path = none := unlisted
    simp [wantedBy, wanted_unlisted absent, keptBy]

theorem writtenByUs_none : writtenByUs sha256 record path none = false := by
  unfold writtenByUs
  split <;> simp_all

variable {want : Option String}

theorem keptValue_foreign {value kept : Option String} {text : String}
    (foreign : writtenByUs sha256 record path value = false) (string : value = some text)
    (same : want = some text → ∀ original, kept = some original → original = text) :
    keptValue sha256 record path value want kept = some text := by
  subst string
  unfold keptValue
  rw [foreign]
  simp only [Bool.false_eq_true, if_false]
  split
  · next wants =>
    cases held : kept with
    | none => rfl
    | some original => rw [same wants original held, Option.some_or]
  · rfl

theorem keptValue_ours {value kept : Option String} (ours : writtenByUs sha256 record path value = true) :
    keptValue sha256 record path value want kept = kept := by
  simp [keptValue, ours]

theorem wantedBy_write {next : ClientRecord} {inGroup : Bool} (keys : next.keys.lookup path = want.map sha256)
    (backup : next.backup.lookup path =
      writtenBackup sha256 record path want inGroup found ((keptBy record).lookup path))
    (strings : (inGroup = true ∨ want ≠ none) → writtenByUs sha256 record path found.join = false → found ≠ some none)
    (same : ∀ value original, found = some (some value) → writtenByUs sha256 record path found.join = false →
      want = some value → (keptBy record).lookup path = some original → original = value)
    (gone : (wroteBy record).lookup path ≠ none → found = none → (keptBy record).lookup path = none) :
    wanted sha256 next path
        (writtenValue sha256 record path want inGroup found ((keptBy record).lookup path)) =
      wantedBy sha256 record path found := by
  have taken (takes : inGroup = true ∨ want ≠ none) {value : Option String} (held : found = some value) :
      (keptValue sha256 record path found.join want ((keptBy record).lookup path)).map some =
        wantedBy sha256 record path found := by
    cases ours : writtenByUs sha256 record path found.join with
    | true => rw [keptValue_ours ours, wantedBy_written ours]
    | false =>
      rw [wantedBy_foreign ours (.inl (by simp [held]))]
      cases value with
      | none => exact absurd held (strings takes ours)
      | some text =>
        rw [keptValue_foreign ours (by simp [held] : found.join = some text)
          (fun wants original kept => same text original held ours wants kept), held]
        rfl
  cases want with
  | some want =>
    have ours : writtenByUs sha256 (some next) path (some (some want)).join = true :=
      writtenByUs_iff.mpr ⟨want, rfl, keys⟩
    rw [writtenValue, wanted_written ours, backup, writtenBackup]
    cases held : found with
    | some value =>
      simpa [held] using taken (.inr (by simp)) held
    | none =>
      by_cases unlisted : (wroteBy record).lookup path = none
      · simp [wantedBy_gone unlisted]
      · rw [wantedBy_foreign writtenByUs_none (.inr unlisted), gone unlisted held]
        simp
  | none =>
    have unlisted : next.keys.lookup path = none := keys
    rw [wanted_unlisted unlisted, backup]
    unfold writtenValue writtenBackup
    by_cases takes : (inGroup && found.isSome) = true
    · obtain ⟨inGroup, there⟩ := Bool.and_eq_true_iff.mp takes
      obtain ⟨value, held⟩ := Option.isSome_iff_exists.mp there
      simpa [takes] using taken (.inl inGroup) held
    · rw [if_neg takes, if_neg takes]
      cases ours : writtenByUs sha256 record path found.join with
      | true =>
        rw [wantedBy_written ours]
        cases (keptBy record).lookup path <;> simp
      | false =>
        simp only [Bool.false_eq_true, if_false]
        by_cases there : found = none
        · subst there
          by_cases wrote : (wroteBy record).lookup path = none
          · simp [wantedBy_gone wrote]
          · rw [wantedBy_foreign ours (.inr wrote), gone wrote rfl]
            simp
        · rw [if_neg there, wantedBy_foreign ours (.inl there)]

/-! ### What holds along a run -/

/-- A key that AstrLink's own main file starts with. -/
def Starting (files : client.Files) (place : client.Place) (path : String) : Prop :=
  place = 0 ∧ files 0 = none ∧ path ∈ client.startFile.map Prod.fst

/-- AstrLink created the file. -/
def createdIn (record : Option ClientRecord) (place : client.Place) : Bool :=
  record.any fun record => created record place

/-- The user changed no key that belongs in the file. -/
def Unedited (state : State client) (place : client.Place) : Prop :=
  ∀ path, client.index path = place → state.edited path = false

structure Holding (sha256 : String → String) (files : client.Files) (state : State client) : Prop where
  begins : state.world.record = none → state.world.files = files
  elsewhere : ∀ place path, client.index path ≠ place → ¬ Starting files place path →
    (parse (state.world.files place)).lookup path = state.origin place path
  back : ∀ path, ¬ Starting files (client.index path) path →
    wantedBy sha256 state.world.record path (state.value path) = state.origin (client.index path) path
  ours : ∀ path, state.edited path = false → state.wrote path ≠ none →
    writtenByUs sha256 state.world.record path (state.value path).join = true
  unedited : ∀ place path, (client.index path = place → state.edited path = false) →
    state.origin place path = (parse (files place)).lookup path
  counted : ∀ path, (client.files (client.index path)).ignored path = true →
    state.wrote path = none ∧ state.kept path = none
  ignored : ∀ place path, createdIn state.world.record place = true → (client.files place).ignored path = true →
    ¬ Starting files place path → (parse (state.world.files place)).lookup path = none
  connected : state.world.record ≠ none → ∀ path ∈ client.connectionKeys, state.wrote path ≠ none
  made : ∀ place, files place = none → state.world.record = none ∨ createdIn state.world.record place = true
  filled : ∀ place, files place = none → Unedited state place → state.world.files place ≠ none →
    ∃ path, client.index path = place ∧ (parse (state.world.files place)).lookup path ≠ none ∧
      (client.files place).ignored path = false
  lasting : ∀ place, files place ≠ none → Unedited state place →
    (state.world.files place ≠ none ∧ createdIn state.world.record place = false) ∨
      ∃ path, client.index path = place ∧ (client.files place).ignored path = false ∧
        (parse (files place)).lookup path ≠ none
  main : state.world.files 0 = files 0 ∨ ∃ document, state.world.files 0 = some (.holds document)
  blank : ∀ place, state.world.files place = some .blank → files place = some .blank

theorem Holding.begin (files : client.Files) : Holding sha256 files (begin files) where
  begins _ := rfl
  elsewhere _ _ _ _ := rfl
  back _ _ := rfl
  ours _ _ wrote := absurd rfl wrote
  unedited _ _ _ := rfl
  counted _ _ := ⟨rfl, rfl⟩
  ignored _ _ made := by cases made
  connected begun := absurd rfl begun
  made _ _ := .inl rfl
  filled _ gone _ held := absurd gone held
  lasting _ held _ := .inl ⟨held, rfl⟩
  main := .inl rfl
  blank _ held := held

variable {files : client.Files} {state : State client}

variable {place : client.Place}

theorem Holding.plain (fresh : Fresh files) (holding : Holding sha256 files state)
    (free : ¬ Starting files place path) : Plain state.world.files place path := by
  intro new main listed
  rcases holding.main with same | ⟨document, held⟩
  · rw [newFile, same, Bool.or_eq_true] at new
    rcases new with missing | blank
    · exact free ⟨main, by simpa using missing, listed⟩
    · rw [fresh.main (by simpa using blank)] at listed
      cases listed
  · simp [newFile, held] at new

theorem lookup_of_holds {file : Option Text} (held : (parse file).lookup path ≠ none) :
    ∃ document, file = some (.holds document) := by
  rcases file with _ | _ | document
  · exact absurd rfl held
  · exact absurd rfl held
  · exact ⟨document, rfl⟩

theorem Holding.foreign (holding : Holding sha256 files state)
    (ignored : (client.files (client.index path)).ignored path = true) (value : Option String) :
    writtenByUs sha256 state.world.record path value = false := by
  rw [← Bool.not_eq_true]
  intro ours
  exact writtenByUs_wrote ours (holding.counted path ignored).1

theorem Holding.afterWrite_ignored (lawful : Lawful client) (holding : Holding sha256 files state)
    (connection : Connection Choice) (ignored : (client.files place).ignored path = true) :
    afterWrite sha256 state.world.files connection state.world.record place path =
      (parse (state.world.files place)).lookup path := by
  unfold afterWrite
  split
  · next here =>
    subst here
    simp [writtenValue, lawful.desired connection path ignored, lawful.grouped path ignored,
      holding.foreign ignored]
  · rfl

theorem Holding.missing (holding : Holding sha256 files state)
    (made : createdBy state.world.files state.world.record place = true)
    (ignored : (client.files place).ignored path = true) (free : ¬ Starting files place path) :
    (parse (state.world.files place)).lookup path = none := by
  rw [createdBy, Bool.or_eq_true] at made
  rcases made with gone | created
  · rw [Option.isNone_iff_eq_none.mp gone]
    rfl
  · exact holding.ignored place path created ignored free

theorem Holding.lookup_write (lawful : Lawful client) (fresh : Fresh files) (holding : Holding sha256 files state)
    (connection : Connection Choice) (free : ¬ Starting files place path) :
    (parse (writeFiles state.world.files
        (planWrite sha256 state.world.files connection state.world.record).contents place)).lookup path =
      afterWrite sha256 state.world.files connection state.world.record place path := by
  refine lookup_planWrite (holding.plain fresh free) ?_
  intro made other ignored companion
  rw [holding.afterWrite_ignored lawful connection ignored]
  exact holding.missing made ignored (fun starting => companion starting.1)

theorem createdIn_write (connection : Connection Choice) (place : client.Place) :
    createdIn (some (planWrite sha256 state.world.files connection state.world.record).record) place =
      createdBy state.world.files state.world.record place :=
  created_planWrite

variable {connection : Connection Choice}

theorem afterWrite_wanted {want : String} (here : client.index path = place)
    (wants : (client.desiredKeys connection).lookup path = some want) :
    afterWrite sha256 state.world.files connection state.world.record place path = some (some want) := by
  rw [afterWrite, if_pos here, wants]
  rfl

theorem Lawful.counted (lawful : Lawful client) (wants : (client.desiredKeys connection).lookup path ≠ none) :
    (client.files (client.index path)).ignored path = false := by
  rw [← Bool.not_eq_true]
  intro ignored
  exact wants (lawful.desired connection path ignored)

theorem Lawful.free (lawful : Lawful client) (files : client.Files) (place : client.Place)
    (counted : (client.files (client.index path)).ignored path = false) : ¬ Starting files place path := by
  rintro ⟨_, _, listed⟩
  obtain ⟨entry, entries, rfl⟩ := List.mem_map.mp listed
  obtain ⟨main, ignored⟩ := lawful.starts entry entries
  rw [main, ignored] at counted
  cases counted

theorem Holding.untouched (holding : Holding sha256 files state)
    (apart : client.index path = place → (client.files place).ignored path = true)
    (free : ¬ Starting files place path) :
    (parse (state.world.files place)).lookup path = state.origin place path := by
  by_cases here : client.index path = place
  · subst here
    rw [← holding.back path free]
    obtain ⟨unlisted, unkept⟩ := holding.counted path (apart rfl)
    cases held : state.value path with
    | none =>
      have gone : wantedBy sha256 state.world.record path none = none := by
        rw [wantedBy_gone unlisted]
        exact congrArg (Option.map some) unkept
      rw [gone]
      exact held
    | some value =>
      rw [wantedBy_foreign (holding.foreign (apart rfl) _) (.inl (by simp))]
      exact held
  · exact holding.elsewhere place path here free

theorem Holding.write_lasts (lawful : Lawful client) (fresh : Fresh files) (holding : Holding sha256 files state)
    (connection : Connection Choice) (held : files place ≠ none) (unedited : Unedited state place)
    (present : state.world.files place ≠ none) (theirs : createdBy state.world.files state.world.record place = false)
    (none : ¬ ∃ path, client.index path = place ∧ (client.files place).ignored path = false ∧ (parse (files place)).lookup path ≠ none) :
    writeFiles state.world.files (planWrite sha256 state.world.files connection state.world.record).contents place ≠
      .none := by
  intro gone
  rcases written_none gone with missing | made | bare
  · exact present missing
  · rw [theirs] at made
    cases made
  · have empty (path : String) (free : ¬ Starting files place path) :
        afterWrite sha256 state.world.files connection state.world.record place path = .none := by
      rw [← holding.lookup_write lawful fresh connection free, gone]
      rfl
    by_cases main : place = 0
    · subst main
      obtain ⟨path, here, wants⟩ := lawful.main connection
      obtain ⟨want, wants'⟩ := ne_none_iff_exists'.mp wants
      have value := empty path (lawful.free files 0 (lawful.counted wants))
      rw [afterWrite_wanted here wants'] at value
      cases value
    · obtain ⟨path, there⟩ := fresh.companions place main held bare
      have free : ¬ Starting files place path := fun starting => main starting.1
      have apart : client.index path = place → (client.files place).ignored path = true := by
        intro here
        by_contra counted
        exact none ⟨path, here, by simpa using counted, there⟩
      have same : afterWrite sha256 state.world.files connection state.world.record place path =
          (parse (state.world.files place)).lookup path := by
        by_cases here : client.index path = place
        · exact holding.afterWrite_ignored lawful connection (apart here)
        · rw [afterWrite, if_neg here]
      rw [← holding.unedited place path (unedited path), ← holding.untouched apart free, ← same, empty path free] at there
      exact there rfl

variable {next : State client}

theorem Holding.write (lawful : Lawful client) (fresh : Fresh files) (holding : Holding sha256 files state)
    (safe : WriteSafe sha256 state connection) (stepped : act sha256 state (.write connection) = some next) :
    Holding sha256 files next := by
  cases stepped
  have values {place : client.Place} {path : String} (free : ¬ Starting files place path) :=
    holding.lookup_write lawful fresh connection free
  have missing (place : client.Place) (gone : files place = none) :
      createdBy state.world.files state.world.record place = true := by
    rw [createdBy, Bool.or_eq_true]
    rcases holding.made place gone with fresh | created
    · rw [holding.begins fresh, gone]
      exact .inl rfl
    · exact .inr created
  refine ⟨?begins, ?elsewhere, ?back, ?ours, holding.unedited, ?counted, ?ignored, ?connected, ?made, ?filled,
    ?lasting, ?main, ?blank⟩
  case begins =>
    intro absent
    cases absent
  case elsewhere =>
    intro place path apart free
    rw [← holding.elsewhere place path apart free]
    refine (values free).trans ?_
    rw [afterWrite, if_neg apart]
  case back =>
    intro path free
    rw [← holding.back path free]
    have value := values free
    rw [afterWrite, if_pos rfl] at value
    change wanted sha256 _ path ((parse _).lookup path) = _
    rw [value]
    refine wantedBy_write keys_planWrite (backup_planWrite (holding.plain fresh free)) ?_ ?_ ?_
    · intro takes foreign nonstring
      refine safe.strings path ⟨?_, foreign, takes⟩ nonstring
      intro gone
      rw [State.value, valueOf_eq, nonstring] at gone
      cases gone
    · intro value original held foreign wants kept
      exact safe.same path value original ⟨by rw [State.value, valueOf_eq, held]; simp, foreign,
        .inr (by rw [wants]; simp)⟩ held wants kept
    · exact safe.gone path
  case ours =>
    intro path _ wrote
    obtain ⟨print, keys⟩ := ne_none_iff_exists'.mp wrote
    obtain ⟨want, wants, same⟩ := map_eq_some_iff.mp (keys_planWrite.symm.trans keys)
    refine writtenByUs_iff.mpr ⟨want, ?_, by rw [same]; exact keys⟩
    refine (values (lawful.free files _ (lawful.counted (by rw [wants]; simp)))).trans ?_
    exact afterWrite_wanted rfl wants
  case counted =>
    intro path ignored
    have unwanted := lawful.desired connection path ignored
    constructor
    · refine keys_planWrite.trans ?_
      rw [unwanted]
      rfl
    · refine (backup_opened sha256 connection state.world.record state.world.files path).trans ?_
      rw [unwanted, lawful.grouped path ignored]
      have kept : (keptBy state.world.record).lookup path = none := (holding.counted path ignored).2
      simpa [writtenBackup, holding.foreign ignored] using kept
  case ignored =>
    intro place path made ignored free
    rw [createdIn_write] at made
    refine (values free).trans ?_
    rw [holding.afterWrite_ignored lawful connection ignored]
    exact holding.missing made ignored free
  case connected =>
    intro _ path decides
    have wants := lawful.connection connection path decides
    obtain ⟨want, wants⟩ := ne_none_iff_exists'.mp wants
    change (planWrite sha256 _ connection _).record.keys.lookup path ≠ none
    rw [keys_planWrite, wants]
    exact some_ne_none _
  case made =>
    intro place gone
    refine .inr ?_
    rw [createdIn_write]
    exact missing place gone
  case filled =>
    intro place gone unedited present
    by_cases main : place = 0
    · subst main
      obtain ⟨path, here, wants⟩ := lawful.main connection
      obtain ⟨want, wants'⟩ := ne_none_iff_exists'.mp wants
      have counted := lawful.counted wants
      refine ⟨path, here, ?_, here ▸ counted⟩
      rw [values (lawful.free files 0 counted), afterWrite_wanted here wants']
      exact some_ne_none _
    · have free (path : String) : ¬ Starting files place path := fun starting => main starting.1
      rcases written_planWrite sha256 state.world.files connection state.world.record main with same | empty | full
      · have before : state.world.files place ≠ none := fun absent => present (same.trans absent)
        obtain ⟨path, here, held, counted⟩ := holding.filled place gone unedited before
        refine ⟨path, here, ?_, counted⟩
        change (parse (written _ _)).lookup path ≠ none
        rwa [same]
      · exact absurd empty present
      · obtain ⟨path, counted, held⟩ := full (missing place gone)
        refine ⟨path, ?_, held, counted⟩
        by_contra apart
        have value := values (free path)
        rw [afterWrite, if_neg apart, holding.elsewhere place path apart (free path),
          holding.unedited place path (unedited path), gone] at value
        exact held value
  case lasting =>
    intro place held unedited
    rcases holding.lasting place held unedited with ⟨present, theirs⟩ | key
    · by_cases key : ∃ path, client.index path = place ∧ (client.files place).ignored path = false ∧
        (parse (files place)).lookup path ≠ none
      · exact .inr key
      · have made : createdBy state.world.files state.world.record place = false := by
          rw [createdBy, Bool.or_eq_false_iff]
          exact ⟨Option.isNone_eq_false_iff.mpr (Option.isSome_iff_ne_none.mpr present), theirs⟩
        refine .inl ⟨holding.write_lasts lawful fresh connection held unedited present made key, ?_⟩
        rw [createdIn_write]
        exact made
    · exact .inr key
  case main =>
    obtain ⟨path, here, wants⟩ := lawful.main connection
    obtain ⟨want, wants'⟩ := ne_none_iff_exists'.mp wants
    have value := values (lawful.free files 0 (lawful.counted wants))
    rw [afterWrite_wanted here wants'] at value
    exact .inr (lookup_of_holds (by rw [value]; simp))
  case blank =>
    intro place blank
    exact holding.blank place (written_blank blank)

theorem wanted_congr {record next : ClientRecord} (keys : next.keys.lookup path = record.keys.lookup path)
    (backup : next.backup = record.backup) (found : Option (Option String)) :
    wanted sha256 next path found = wanted sha256 record path found := by
  have ours : writtenByUs sha256 (some next) path found.join = writtenByUs sha256 (some record) path found.join := by
    simp only [writtenByUs, Option.bind_some, keys]
  unfold wanted returnedValue restoredValue
  rw [ours, keys, backup]

theorem afterSync_cases (sha256 : String → String) (record : ClientRecord) (values added : Table String String)
    (path : String) (found : Option (Option String)) :
    (∃ value, values.lookup path = some value ∧
        afterSync sha256 record values added path found = (some (some value), some (sha256 value))) ∨
      (values.lookup path = none ∧ afterSync sha256 record values added path found = (found, record.keys.lookup path)) ∨
        ∃ value, added.lookup path = some value ∧ record.keys.lookup path = none ∧ found = none ∧
          afterSync sha256 record values added path found = (some (some value), some (sha256 value)) := by
  cases moved : values.lookup path with
  | some value => exact .inl ⟨value, rfl, by simp [afterSync, setTo, moved]⟩
  | none =>
    refine .inr ?_
    by_cases skip : ((record.keys.lookup path).isSome || found.isSome) = true
    · exact .inl ⟨rfl, by simp [afterSync, setTo, moved, skip]⟩
    · have unlisted : record.keys.lookup path = none := by
        by_contra listed
        exact skip (by simp [Option.isSome_iff_ne_none.mpr listed])
      have gone : found = none := by
        by_contra held
        exact skip (by simp [Option.isSome_iff_ne_none.mpr held])
      cases adds : added.lookup path with
      | none => exact .inl ⟨rfl, by simp [afterSync, setTo, moved, adds]⟩
      | some value => exact .inr ⟨value, rfl, unlisted, gone, by simp [afterSync, setTo, moved, adds, unlisted, gone]⟩

theorem wantedBy_moved {origin : String} {record : ClientRecord} (saved : state.world.record = some record)
    (safe : SyncSafe sha256 state origin) {value : String}
    (moved : (movedKeys record state.world.files origin).lookup path = some value) :
    wantedBy sha256 state.world.record path (state.value path) = (state.kept path).map some := by
  unfold movedKeys at moved
  split at moved
  · next outdated =>
    have listed : (client.syncedKeys state.value record origin).lookup path ≠ none := by
      intro absent
      exact some_ne_none value (moved.symm.trans absent)
    rcases safe record saved outdated path listed with ours | ⟨unlisted, gone⟩ | same
    · rw [← saved] at ours
      exact wantedBy_written ours
    · rw [gone]
      exact wantedBy_gone unlisted
    · cases ours : writtenByUs sha256 state.world.record path (state.value path).join with
      | true => exact wantedBy_written ours
      | false =>
        by_cases there : state.value path ≠ none ∨ state.wrote path ≠ none
        · rw [wantedBy_foreign ours there, same]
        · rw [not_or, not_not, not_not] at there
          rw [there.1]
          exact wantedBy_gone there.2
  · simp at moved

theorem Holding.sync (lawful : Lawful client) (holding : Holding sha256 files state) {origin : String}
    (safe : SyncSafe sha256 state origin) (stepped : act sha256 state (.sync origin) = some next) :
    Holding sha256 files next := by
  obtain ⟨record, saved, stepped⟩ := Option.bind_eq_some_iff.mp stepped
  obtain ⟨⟨contents, moved⟩, plan, rfl⟩ := map_eq_some_iff.mp stepped
  have synced := planSync_spec plan
  have counted {path : String} (set : (movedKeys record state.world.files origin).lookup path ≠ none ∨
      client.addedKeys.lookup path ≠ none) : (client.files (client.index path)).ignored path = false := by
    rw [← Bool.not_eq_true]
    intro ignored
    rcases set with listed | listed
    · unfold movedKeys at listed
      split at listed
      · exact listed (lawful.synced _ record origin path ignored)
      · exact listed rfl
    · exact listed (lawful.added path ignored)
  have still {path : String} (ignored : (client.files (client.index path)).ignored path = true) :
      afterSync sha256 record (movedKeys record state.world.files origin) client.addedKeys path
        (valueOf state.world.files path) = (valueOf state.world.files path, record.keys.lookup path) := by
    rcases afterSync_cases sha256 record (movedKeys record state.world.files origin) client.addedKeys path
      (valueOf state.world.files path) with ⟨value, set, _⟩ | ⟨_, same⟩ | ⟨value, set, _⟩
    · rw [counted (.inl (by rw [set]; simp))] at ignored
      cases ignored
    · exact same
    · rw [counted (.inr (by rw [set]; simp))] at ignored
      cases ignored
  have wrote (path : String) : state.wrote path = record.keys.lookup path := by rw [State.wrote, saved]; rfl
  have kept (path : String) : state.kept path = record.backup.lookup path := by rw [State.kept, saved]; rfl
  have value (path : String) : valueOf (writeFiles state.world.files contents) path =
      (afterSync sha256 record (movedKeys record state.world.files origin) client.addedKeys path
        (valueOf state.world.files path)).1 := by
    rw [valueOf_eq, writeFiles, synced.values, if_pos rfl]
  have made (place : client.Place) : createdIn (some moved) place = createdIn state.world.record place := by
    rw [saved]
    exact synced.created place
  refine ⟨?begins, ?elsewhere, ?back, ?ours, holding.unedited, ?counted, ?ignored, ?connected, ?made, ?filled,
    ?lasting, ?main, ?blank⟩
  case begins =>
    intro absent
    cases absent
  case elsewhere =>
    intro place path apart free
    rw [← holding.elsewhere place path apart free]
    refine (synced.values place path).trans ?_
    rw [if_neg apart]
  case back =>
    intro path free
    rw [← holding.back path free]
    change wanted sha256 moved path (valueOf _ path) = _
    rw [value]
    have keys := synced.keys path
    rcases afterSync_cases sha256 record (movedKeys record state.world.files origin) client.addedKeys path
      (valueOf state.world.files path) with ⟨value, set, after⟩ | ⟨_, after⟩ | ⟨value, _, unlisted, gone, after⟩
    · rw [after] at keys ⊢
      have ours : writtenByUs sha256 (some moved) path (some (some value)).join = true :=
        writtenByUs_iff.mpr ⟨value, rfl, keys⟩
      rw [wanted_written ours, synced.backup, wantedBy_moved saved safe set, kept]
    · rw [after] at keys ⊢
      rw [wanted_congr keys synced.backup, saved]
      rfl
    · rw [after] at keys ⊢
      have ours : writtenByUs sha256 (some moved) path (some (some value)).join = true :=
        writtenByUs_iff.mpr ⟨value, rfl, keys⟩
      have absent : state.value path = none := gone
      rw [wanted_written ours, synced.backup, absent, wantedBy_gone ((wrote path).trans unlisted), saved]
      rfl
  case ours =>
    intro path unedited listed
    have keys := synced.keys path
    change writtenByUs sha256 (some moved) path (valueOf _ path).join = true
    rw [value]
    rcases afterSync_cases sha256 record (movedKeys record state.world.files origin) client.addedKeys path
      (valueOf state.world.files path) with ⟨value, set, after⟩ | ⟨_, after⟩ | ⟨value, _, _, _, after⟩
    · rw [after] at keys ⊢
      exact writtenByUs_iff.mpr ⟨value, rfl, keys⟩
    · rw [after] at keys ⊢
      have before := holding.ours path unedited (by
        rw [wrote]
        intro absent
        exact listed (keys.trans absent))
      rw [saved] at before
      obtain ⟨value, held, print⟩ := writtenByUs_iff.mp before
      exact writtenByUs_iff.mpr ⟨value, held, keys.trans print⟩
    · rw [after] at keys ⊢
      exact writtenByUs_iff.mpr ⟨value, rfl, keys⟩
  case counted =>
    intro path ignored
    obtain ⟨unlisted, unkept⟩ := holding.counted path ignored
    have keys := synced.keys path
    rw [still ignored] at keys
    refine ⟨keys.trans ((wrote path).symm.trans unlisted), ?_⟩
    change moved.backup.lookup path = none
    rw [synced.backup, ← kept, unkept]
  case ignored =>
    intro place path created ignored free
    rw [made] at created
    refine (synced.values place path).trans ?_
    split
    · next here =>
      subst here
      rw [still ignored]
      exact holding.ignored _ path created ignored free
    · exact holding.ignored place path created ignored free
  case connected =>
    intro _ path decides
    have listed := holding.connected (by rw [saved]; simp) path decides
    rw [wrote] at listed
    change moved.keys.lookup path ≠ none
    rw [synced.keys path]
    rcases afterSync_cases sha256 record (movedKeys record state.world.files origin) client.addedKeys path
      (valueOf state.world.files path) with ⟨value, set, after⟩ | ⟨_, after⟩ | ⟨value, _, _, _, after⟩
    · simp [after]
    · rwa [after]
    · simp [after]
  case made =>
    intro place gone
    rw [made]
    exact .inr ((holding.made place gone).resolve_left (by rw [saved]; simp))
  case filled =>
    intro place gone unedited present
    rcases synced.filled place with same | ⟨path, here, held, set⟩
    · have before : state.world.files place ≠ none := fun absent => present (same.trans absent)
      obtain ⟨path, here, held, free⟩ := holding.filled place gone unedited before
      refine ⟨path, here, ?_, free⟩
      change (parse (written _ _)).lookup path ≠ none
      rwa [same]
    · exact ⟨path, here, held, here ▸ counted set⟩
  case lasting =>
    intro place held unedited
    rcases holding.lasting place held unedited with ⟨present, theirs⟩ | key
    · refine .inl ⟨?_, by rw [made]; exact theirs⟩
      rcases synced.filled place with same | ⟨path, _, there, _⟩
      · exact fun absent => present (same.symm.trans absent)
      · intro absent
        obtain ⟨document, full⟩ := lookup_of_holds there
        rw [show written _ _ = none from absent] at full
        cases full
    · exact .inr key
  case main =>
    rcases synced.filled 0 with same | ⟨path, _, there, _⟩
    · rcases holding.main with before | ⟨document, before⟩
      · exact .inl (same.trans before)
      · exact .inr ⟨document, same.trans before⟩
    · exact .inr (lookup_of_holds there)
  case blank =>
    intro place blank
    exact holding.blank place (written_blank blank)

theorem lookup_editFile (file : Option Text) (path other : String) (value : Option (Option String)) :
    (parse (editFile file path value)).lookup other = if other = path then value else (parse file).lookup other := by
  cases value with
  | some value => exact lookup_insert_if _ _ _ _
  | none =>
    cases file with
    | none => exact (ite_self _).symm
    | some text => exact lookup_erase_if _ _ _

theorem Holding.edit (holding : Holding sha256 files state) {value : Option (Option String)}
    (safe : EditSafe sha256 state path value) (stepped : act sha256 state (.edit path value) = some next) :
    Holding sha256 files next := by
  obtain ⟨record, saved, rfl⟩ := map_eq_some_iff.mp stepped
  have lookup (place : client.Place) (other : String) :
      (parse (update state.world.files (client.index path)
          (editFile (state.world.files (client.index path)) path value) place)).lookup other =
        if place = client.index path ∧ other = path then value else (parse (state.world.files place)).lookup other := by
    by_cases here : place = client.index path
    · subst here
      rw [update_self, lookup_editFile]
      simp
    · rw [update_of_ne here, if_neg (fun both => here both.1)]
  have origin (place : client.Place) (other : String) :
      update state.origin (client.index path) (update (state.origin (client.index path)) path value) place other =
        if place = client.index path ∧ other = path then value else state.origin place other := by
    by_cases here : place = client.index path
    · subst here
      rw [update_self, Function.update_apply]
      simp
    · rw [update_of_ne here, if_neg (fun both => here both.1)]
  have edited (other : String) (free : update state.edited path true other = false) :
      other ≠ path ∧ state.edited other = false := by
    by_cases same : other = path
    · subst same
      simp at free
    · rw [update_of_ne same] at free
      exact ⟨same, free⟩
  have apart {place : client.Place} (unedited : ∀ other, client.index other = place → update state.edited path true other = false) :
      place ≠ client.index path ∧ Unedited state place := by
    refine ⟨?_, fun other here => (edited other (unedited other here)).2⟩
    rintro rfl
    exact (edited path (unedited path rfl)).1 rfl
  refine ⟨?begins, ?elsewhere, ?back, ?ours, ?unedited, ?counted, ?ignored, ?connected, ?made, ?filled, ?lasting, ?main,
    ?blank⟩
  case begins =>
    intro absent
    cases absent
  case elsewhere =>
    intro place other there free
    have differs : ¬ (place = client.index path ∧ other = path) := by
      rintro ⟨here, rfl⟩
      exact there here.symm
    change (parse (update state.world.files _ _ place)).lookup other = update state.origin _ _ place other
    rw [lookup, origin, if_neg differs, if_neg differs]
    exact holding.elsewhere place other there free
  case back =>
    intro other free
    change wantedBy sha256 (some record) other ((parse (update state.world.files _ _ _)).lookup other) =
      update state.origin _ _ _ _
    rw [lookup, origin]
    by_cases same : client.index other = client.index path ∧ other = path
    · obtain ⟨_, rfl⟩ := same
      rw [if_pos ⟨rfl, rfl⟩, if_pos ⟨rfl, rfl⟩, ← saved]
      by_cases there : value ≠ none ∨ (wroteBy state.world.record).lookup other ≠ none
      · exact wantedBy_foreign safe.foreign there
      · rw [not_or, not_not, not_not] at there
        obtain ⟨rfl, unlisted⟩ := there
        have unkept : (keptBy state.world.record).lookup other = none := safe.stays unlisted rfl
        rw [wantedBy_gone unlisted, unkept]
        rfl
    · rw [if_neg same, if_neg same, ← saved]
      exact holding.back other free
  case ours =>
    intro other free wrote
    obtain ⟨differs, free⟩ := edited other free
    have before := holding.ours other free (by rw [State.wrote, saved]; exact wrote)
    rw [saved] at before
    change writtenByUs sha256 (some record) other ((parse (update state.world.files _ _ _)).lookup other).join = true
    rwa [lookup, if_neg (fun both => differs both.2)]
  case unedited =>
    intro place other free
    change update state.origin _ _ place other = _
    rw [origin]
    by_cases same : place = client.index path ∧ other = path
    · obtain ⟨rfl, rfl⟩ := same
      exact absurd rfl (edited other (free rfl)).1
    · rw [if_neg same]
      exact holding.unedited place other (fun here => (edited other (free here)).2)
  case counted =>
    intro other ignored
    have before := holding.counted other ignored
    rw [State.wrote, State.kept, saved] at before
    exact before
  case ignored =>
    intro place other made ignored free
    refine (lookup place other).trans ?_
    by_cases same : place = client.index path ∧ other = path
    · obtain ⟨rfl, rfl⟩ := same
      rw [safe.counted] at ignored
      cases ignored
    · rw [if_neg same]
      exact holding.ignored place other (by rw [saved]; exact made) ignored free
  case connected =>
    intro _ other decides
    have before := holding.connected (by rw [saved]; simp) other decides
    rwa [State.wrote, saved] at before
  case made =>
    intro place gone
    have before := holding.made place gone
    rwa [saved] at before
  case filled =>
    intro place gone unedited present
    obtain ⟨differs, unedited⟩ := apart unedited
    change update state.world.files _ _ place ≠ none at present
    rw [update_of_ne differs] at present
    obtain ⟨other, here, held, counted⟩ := holding.filled place gone unedited present
    refine ⟨other, here, ?_, counted⟩
    change (parse (update state.world.files _ _ place)).lookup other ≠ none
    rwa [update_of_ne differs]
  case lasting =>
    intro place held unedited
    obtain ⟨differs, unedited⟩ := apart unedited
    have before := holding.lasting place held unedited
    change (update state.world.files _ _ place ≠ none ∧ _) ∨ _
    rw [update_of_ne differs]
    rwa [saved] at before
  case main =>
    change update state.world.files _ _ 0 = _ ∨ ∃ _, update state.world.files _ _ 0 = _
    by_cases here : 0 = client.index path
    · rw [← here, update_self]
      cases value with
      | some value => exact .inr ⟨_, rfl⟩
      | none =>
        cases main : state.world.files 0 with
        | some text => exact .inr ⟨_, rfl⟩
        | none =>
          rcases holding.main with before | ⟨document, before⟩
          · rw [main] at before
            exact .inl before
          · rw [main] at before
            cases before
    · rw [update_of_ne here]
      exact holding.main
  case blank =>
    intro place blank
    change update state.world.files _ _ place = _ at blank
    by_cases here : place = client.index path
    · subst here
      rw [update_self] at blank
      cases value with
      | some value => cases blank
      | none =>
        cases held : state.world.files (client.index path) <;> simp [editFile, held] at blank
    · rw [update_of_ne here] at blank
      exact holding.blank place blank

theorem Holding.run (lawful : Lawful client) (fresh : Fresh files)
    (reached : Reaches (act sha256) (Permitted sha256) (Connecting.begin files) state) : Holding sha256 files state := by
  refine reached.invariant (Holding sha256 files) (Holding.begin files) ?_
  intro state step next holding permitted stepped
  cases step with
  | write connection => exact holding.write lawful fresh permitted stepped
  | sync origin => exact holding.sync lawful permitted stepped
  | edit path value => exact holding.edit permitted stepped

/-! ### What a removal gives back -/

/-- The keys are as the user had them, and the files AstrLink created are gone. -/
structure Returned (files : client.Files) (state : State client) (after : client.Files) : Prop where
  values : ∀ place path, ¬ Starting files place path → (parse (after place)).lookup path = state.origin place path
  /-- A key that AstrLink neither wrote nor keeps a value of is not changed. -/
  spared : ∀ place path, ¬ Starting files place path → state.wrote path = none → state.kept path = none →
    (parse (after place)).lookup path = (parse (state.world.files place)).lookup path
  files : ∀ place, Unedited state place → (after place = none ↔ files place = none)

section
variable {record : ClientRecord}

section
variable (holding : Holding sha256 files state) (saved : state.world.record = some record)
include holding saved

theorem Holding.kept
    (unedited : ∀ path ∈ connectionPaths client record, state.edited path = false) :
    connectionKept sha256 (Config.parse state.world.files) record = true := by
  have wrote (path : String) : state.wrote path = record.keys.lookup path := by rw [State.wrote, saved]; rfl
  refine connectionKept_iff.mpr (fun path decides => ?_)
  have listed : state.wrote path ≠ none := by
    rcases List.mem_append.mp decides with fixed | written
    · exact holding.connected (by rw [saved]; simp) path fixed
    · rw [wrote]
      intro absent
      exact AList.lookup_eq_none.mp absent (AList.mem_keys.mpr (List.mem_filter.mp written).1)
  have ours := holding.ours path (unedited path decides) listed
  rw [saved] at ours
  exact writtenByUs_iff.mp ours

theorem Holding.wanted
    {path : String} (free : ¬ Starting files (client.index path) path) :
    wanted sha256 record path (valueOf state.world.files path) = state.origin (client.index path) path := by
  rw [← holding.back path free, saved]
  rfl

theorem Holding.emptied
    {place : client.Place} {path : String} (emptied : Emptied sha256 record state.world.files place)
    (free : ¬ Starting files place path) : state.origin place path = none := by
  by_contra theirs
  have made : createdIn state.world.record place = true := by rw [saved]; exact emptied.created
  by_cases here : client.index path = place
  · subst here
    have ignored := emptied.own path rfl (by rwa [holding.wanted saved free])
    rw [← holding.untouched (fun _ => ignored) free, holding.ignored _ path made ignored free] at theirs
    exact theirs rfl
  · have same := holding.elsewhere place path here free
    have ignored := emptied.others path here (by rwa [same])
    rw [← same, holding.ignored place path made ignored free] at theirs
    exact theirs rfl

theorem Holding.values {after : Option Text} (restored : Restored sha256 record state.world.files place after)
    (free : ¬ Starting files place path) : (parse after).lookup path = state.origin place path := by
  by_cases emptied : Emptied sha256 record state.world.files place
  · rw [restored.gone emptied, holding.emptied saved emptied free]
    rfl
  · rw [restored.values emptied path]
    split
    · next here =>
      subst here
      exact holding.wanted saved free
    · next apart => exact holding.elsewhere place path apart free

end

section
variable (lawful : Lawful client) (holding : Holding sha256 files state) (saved : state.world.record = some record)
include lawful holding saved

theorem Holding.empties (gone : files place = none) (unedited : Unedited state place)
    (present : state.world.files place ≠ none) :
    Emptied sha256 record state.world.files place := by
  have nothing (path : String) : state.origin place path = none := by
    rw [holding.unedited place path (unedited path), gone]
    rfl
  have counted {path : String} (here : client.index path = place)
      (counted : (client.files place).ignored path = false) :
      ClientConfig.wanted sha256 record path (valueOf state.world.files path) = none := by
    subst here
    rw [holding.wanted saved (lawful.free files _ counted), nothing]
  refine ⟨?created, ?moved, ?others, ?own⟩
  case created =>
    have made := (holding.made place gone).resolve_left (by rw [saved]; simp)
    rwa [saved] at made
  case moved =>
    intro settled
    obtain ⟨path, here, held, free⟩ := holding.filled place gone unedited present
    have stays := settled path here
    rw [counted here free, valueOf_eq, here] at stays
    exact held stays.symm
  case others =>
    intro path apart held
    have free : ¬ Starting files place path := by
      rintro ⟨rfl, _, listed⟩
      obtain ⟨entry, entries, rfl⟩ := List.mem_map.mp listed
      exact apart (lawful.starts entry entries).1
    rw [holding.elsewhere place path apart free, nothing] at held
    exact absurd rfl held
  case own =>
    intro path here held
    by_contra free
    exact held (counted here (by simpa using free))

theorem Holding.settled (gone : files place = none) (unedited : Unedited state place)
    (absent : state.world.files place = none) :
    Settled sha256 record state.world.files place := by
  intro path here
  have nothing : valueOf state.world.files path = none := by
    rw [valueOf_eq, here, absent]
    rfl
  cases ignored : (client.files (client.index path)).ignored path with
  | false =>
    rw [holding.wanted saved (lawful.free files _ ignored), here,
      holding.unedited place path (unedited path), gone, nothing]
    rfl
  | true =>
    obtain ⟨unlisted, unkept⟩ := holding.counted path ignored
    rw [State.wrote, saved] at unlisted
    rw [State.kept, saved] at unkept
    rw [nothing]
    have listed : record.keys.lookup path = none := unlisted
    have backup : record.backup.lookup path = none := unkept
    rw [wanted_unlisted listed, backup]
    rfl

theorem Holding.returned
    (kept : connectionKept sha256 (Config.parse state.world.files) record = true) :
    Returned files state (fun place =>
      leaves (planRestore sha256 state.world.files record place) (state.world.files place)) := by
  have restored := planRestore_restored kept
  refine ⟨fun place path free => holding.values saved (restored place) free, ?spared, ?files⟩
  case spared =>
    intro place path free unlisted unkept
    rw [holding.values saved (restored place) free]
    by_cases here : client.index path = place
    · subst here
      rw [← holding.back path free]
      change wantedBy sha256 _ path (state.value path) = state.value path
      have unlisted : (wroteBy state.world.record).lookup path = none := unlisted
      have unkept : (keptBy state.world.record).lookup path = none := unkept
      cases held : state.value path with
      | none =>
        rw [wantedBy_gone unlisted, unkept]
        rfl
      | some value =>
        refine wantedBy_foreign ?_ (.inl (by simp))
        rw [← Bool.not_eq_true]
        exact fun ours => writtenByUs_wrote ours unlisted
    · exact (holding.elsewhere place path here free).symm
  case files =>
    intro place unedited
    constructor
    · intro absent
      by_contra held
      rcases holding.lasting place held unedited with ⟨present, theirs⟩ | ⟨path, here, counted, there⟩
      · have stays : ¬ Emptied sha256 record state.world.files place := by
          intro emptied
          rw [saved] at theirs
          rw [createdIn, Option.any_some, emptied.created] at theirs
          cases theirs
        exact (restored place).stays stays present absent
      · have free : ¬ Starting files place path := lawful.free files place (here ▸ counted)
        have value := holding.values saved (restored place) free
        rw [absent, holding.unedited place path (unedited path)] at value
        exact there value.symm
    · intro gone
      by_cases absent : state.world.files place = none
      · rw [(planRestore_unchanged kept place).mpr (holding.settled lawful saved gone unedited absent)]
        exact absent
      · exact (restored place).gone (holding.empties lawful saved gone unedited absent)

end

end

/-- A removal after any run of writes, moves and edits gives every key back as the user had it, and takes away the
    files that AstrLink created, if the connection is still AstrLink's, as it is when nobody edited its keys; else it
    only forgets the record. -/
theorem removal_returns (sha256 : String → String) (client : ClientSpec Choice) (lawful : Lawful client)
    (files : client.Files) (fresh : Fresh files) (state : State client)
    (reached : Reaches (act sha256) (Permitted sha256) (begin files) state) (record : ClientRecord)
    (saved : state.world.record = some record) :
    (remove sha256 none state.world).1.record = none ∧
      (∀ place path, (client.index path = place → state.edited path = false) →
        state.origin place path = (parse (files place)).lookup path) ∧
      ((∀ path ∈ connectionPaths client record, state.edited path = false) →
        connectionKept sha256 (Config.parse state.world.files) record = true) ∧
      (connectionKept sha256 (Config.parse state.world.files) record = true →
        Returned files state (remove sha256 none state.world).1.files) ∧
      (connectionKept sha256 (Config.parse state.world.files) record = false →
        (remove sha256 none state.world).1.files = state.world.files) := by
  have holding := Holding.run lawful fresh reached
  have whole : (remove sha256 none state.world).1 =
      { files := fun place => leaves (planRestore sha256 state.world.files record place) (state.world.files place),
        record := none } := by
    rw [remove_whole none saved (by simp)]
    rfl
  rw [whole]
  refine ⟨rfl, holding.unedited, holding.kept saved, holding.returned lawful saved, fun lost => ?_⟩
  rw [planRestore_left lost]
  rfl

end

theorem pi_lawful : Lawful Pi where
  main _ := ⟨"providers.astrlink.baseUrl", by decide +kernel, by simp [Pi, entries]⟩
  connection connection path decides := by
    simp only [Pi, List.mem_cons, List.not_mem_nil, or_false] at decides
    rcases decides with rfl | rfl | rfl <;> simp [Pi, entries]
  grouped path ignored := by
    rw [pi_counted path] at ignored
    cases ignored
  desired _ path ignored := by
    rw [pi_counted path] at ignored
    cases ignored
  synced _ _ _ path ignored := by
    rw [pi_counted path] at ignored
    cases ignored
  added _ _ := rfl
  starts _ listed := by cases listed

def piConnection : Connection PiChoice where
  origin := "http://127.0.0.1:18317"
  choice := { token := "token", model := some "main-route" }

/-- Pi's settings, whose provider is a string or a value of another kind. -/
def piFiles (provider : Option String) : Pi.Files :=
  ![none, some (.holds ((∅ : Document).insert "defaultProvider" provider))]

def piConnected (files : Pi.Files) : State Pi :=
  let plan := planWrite fingerprint files piConnection none
  { begin files with world := { files := writeFiles files plan.contents, record := some plan.record } }

theorem pi_value (provider : Option String) (path : String) (held : (begin (piFiles provider)).value path ≠ none) :
    (begin (piFiles provider)).value path = some provider := by
  revert held
  unfold State.value
  rw [valueOf_eq]
  match Pi.index path with
  | 0 => exact fun held => absurd rfl held
  | 1 =>
    intro held
    change ((∅ : Document).insert "defaultProvider" provider).lookup path ≠ none at held
    change ((∅ : Document).insert "defaultProvider" provider).lookup path = some provider
    rw [lookup_insert_if] at held ⊢
    split
    · rfl
    · next other =>
      rw [if_neg other] at held
      exact absurd rfl held

theorem pi_returns : Returned (piFiles (some "ollama")) (piConnected (piFiles (some "ollama")))
    (remove fingerprint none (piConnected (piFiles (some "ollama"))).world).1.files := by
  have safe : WriteSafe fingerprint (begin (piFiles (some "ollama"))) piConnection := by
    refine ⟨?_, ?_, ?_⟩
    · intro path takes
      rw [pi_value (some "ollama") path takes.1]
      simp
    · intro path value original _ _ _ kept
      cases kept
    · intro path wrote
      exact absurd rfl wrote
  have fresh : Fresh (piFiles (some "ollama")) := by
    refine ⟨fun _ => rfl, fun place _ _ bare => ?_⟩
    revert bare
    match place with
    | 0 => exact fun bare => by cases bare
    | 1 => exact fun bare => by cases bare
  have permitted : Permitted fingerprint (begin (piFiles (some "ollama"))) (.write piConnection) := safe
  have removed := removal_returns fingerprint Pi pi_lawful (piFiles (some "ollama")) fresh
    (piConnected (piFiles (some "ollama"))) (.step .start permitted rfl) _ rfl
  exact removed.2.2.2.1 (removed.2.2.1 (fun _ _ => rfl))

/-- A provider that is no string does not come back. -/
theorem pi_loses_value :
    (parse (piFiles none 1)).lookup "defaultProvider" = some none ∧
      (parse ((remove fingerprint none (piConnected (piFiles none)).world).1.files 1)).lookup "defaultProvider" = none := by
  decide +kernel

end AstrLink.Connecting
