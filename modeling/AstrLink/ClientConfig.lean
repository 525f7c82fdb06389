import AstrLink.Tables
import Mathlib

/-!
The configuration files of a client that AstrLink connects. A document is the store of its keys; comments,
order and the count of a preview are left out. Loops visit keys in the order of the table, since each is
edited on its own.
-/
namespace AstrLink.ClientConfig
open Tables
open Function (update)

/-- The keys of a config file, each with a string or (`none`) with a value of another kind. -/
abbrev Document := Table String (Option String)

/-- The text of a file: white space only, or a document. -/
inductive Text where
  | blank
  | holds (document : Document)

-- Documents are compared by their entries, so that two texts can be compared by evaluation.
instance : DecidableEq Text
  | .blank, .blank => isTrue rfl
  | .blank, .holds _ => isFalse (fun same => by cases same)
  | .holds _, .blank => isFalse (fun same => by cases same)
  | .holds first, .holds second =>
    decidable_of_iff (first.entries = second.entries)
      ⟨fun same => congrArg Text.holds (AList.ext same), fun same => congrArg AList.entries (Text.holds.inj same)⟩

/-- The document of a file; a missing or blank one has no keys. -/
def parse : Option Text → Document
  | some (.holds document) => document
  | _ => ∅

/-- One file a client reads its connection from. -/
structure ConfigFile where
  holds : String → Bool
  /-- The keys of the group AstrLink takes over. -/
  inGroup : String → Bool
  /-- The keys that `is_empty` does not count. -/
  ignored : String → Bool
  /-- A document without keys renders to no text at all. -/
  bare : Bool

def ConfigFile.isEmpty (file : ConfigFile) (document : Document) : Bool :=
  document.keys.all file.ignored

def ConfigFile.render (file : ConfigFile) (document : Document) : Text :=
  if file.bare && document.keys.isEmpty then .blank else .holds document

/-- What AstrLink wrote in one place, its own values as fingerprints. -/
structure ClientRecord where
  baseUrl : String
  keys : Table String String
  createdFile : Bool
  createdCompanions : List Nat
  backup : Table String String

/-- What is chosen for a write: the gateway's address, and the token and models. -/
structure Connection (Choice : Type) where
  origin : String
  choice : Choice

/-- What the shared code asks of one client, whose main file comes before its companions. -/
structure ClientSpec (Choice : Type) where
  companions : Nat
  files : Fin (companions + 1) → ConfigFile
  baseUrl : String → String
  connectionKeys : List String
  holdsConnection : String → Bool
  desiredKeys : Connection Choice → Table String String
  startFile : List (String × Option String)
  syncedKeys : (String → Option (Option String)) → ClientRecord → String → Table String String
  addedKeys : Table String String

section
variable {Choice : Type}

abbrev ClientSpec.Place (client : ClientSpec Choice) : Type := Fin (client.companions + 1)

/-- The main file is always there. -/
instance (priority := 2000) (client : ClientSpec Choice) : NeZero (client.companions + 1) :=
  ⟨Nat.succ_ne_zero client.companions⟩

abbrev ClientSpec.Files (client : ClientSpec Choice) : Type := client.Place → Option Text

/-- Every config file of one client, opened together. -/
structure Config (client : ClientSpec Choice) where
  documents : client.Place → Document
  changed : client.Place → Bool

variable {client : ClientSpec Choice}

def Config.parse (existing : client.Files) : Config client where
  documents place := ClientConfig.parse (existing place)
  changed _ := false

/-- The file that holds a key. -/
def ClientSpec.index (client : ClientSpec Choice) (path : String) : client.Place :=
  ((List.finRange _).find? (fun place => (client.files place).holds path)).getD 0

def Config.get (config : Config client) (path : String) : Option (Option String) :=
  (config.documents (client.index path)).lookup path

def Config.set (config : Config client) (path value : String) : Config client where
  documents := update config.documents (client.index path)
    ((config.documents (client.index path)).insert path (some value))
  changed := update config.changed (client.index path) true

def Config.remove (config : Config client) (path : String) : Config client where
  documents := update config.documents (client.index path)
    ((config.documents (client.index path)).erase path)
  changed := update config.changed (client.index path) true

/-- New contents per file; a file left alone keeps its text. -/
def Config.render (config : Config client) (existing : client.Files) : client.Place → Text :=
  fun place =>
    if config.changed place then (client.files place).render (config.documents place)
    else (existing place).getD .blank

variable (sha256 : String → String)

def writtenByUs (record : Option ClientRecord) (path : String) (value : Option String) : Bool :=
  match record.bind (·.keys.lookup path), value with
  | some fingerprint, some value => fingerprint == sha256 value
  | _, _ => false

/-- Every key that decides where the client's requests go still holds what AstrLink wrote. -/
def connectionKept (config : Config client) (record : ClientRecord) : Bool :=
  (client.connectionKeys ++ record.keys.keys.filter client.holdsConnection).all fun path =>
    writtenByUs sha256 (some record) path (config.get path).join

inductive Removal where
  | unchanged
  | write (contents : Text)
  | delete
deriving DecidableEq

/-- The loop of `plan_restore` over the keys AstrLink wrote. -/
def restoreKey (record : ClientRecord) (config : Config client) (path : String) : Config client :=
  let value := (config.get path).join
  if writtenByUs sha256 (some record) path value then
    match record.backup.lookup path with
    | some original => if value = some original then config else config.set path original
    | none => config.remove path
  else config

/-- The loop of `plan_restore` over the values AstrLink replaced. -/
def returnKey (record : ClientRecord) (config : Config client) (path : String) : Config client :=
  match record.backup.lookup path with
  | some original =>
    if (record.keys.lookup path).isNone && (config.get path).isNone then config.set path original else config
  | none => config

/-- Both loops of `plan_restore`. -/
def restoreAll (record : ClientRecord) (config : Config client) : Config client :=
  record.backup.keys.foldl (returnKey record) (record.keys.keys.foldl (restoreKey sha256 record) config)

def created (record : ClientRecord) (place : client.Place) : Bool :=
  if place = 0 then record.createdFile else record.createdCompanions.contains place.val

def planRestore (existing : client.Files) (record : ClientRecord) : client.Place → Removal :=
  let config := Config.parse existing
  if connectionKept sha256 config record then
    let config := restoreAll sha256 record config
    fun place =>
      if !config.changed place then .unchanged
      else if created record place && (client.files place).isEmpty (config.documents place) then .delete
      else .write ((client.files place).render (config.documents place))
  else fun _ => .unchanged

/-- The client's files and what the record file says of its place. -/
structure World (client : ClientSpec Choice) where
  files : client.Files
  record : Option ClientRecord

end

def entries (pairs : List (String × String)) : Table String String :=
  pairs.foldr (fun pair table => table.insert pair.1 pair.2) ∅

structure PiChoice where
  token : String
  model : Option String

def PI_STARTUP_KEYS : List String := ["defaultProvider", "defaultModel"]

def PiModels : ConfigFile where
  holds key := !PI_STARTUP_KEYS.contains key
  inGroup key := "providers.astrlink.".toList.isPrefixOf key.toList
  ignored _ := false
  bare := false

/-- `settings.json`: Pi's preferences, including the model it starts with. -/
def PiSettings : ConfigFile where
  holds key := PI_STARTUP_KEYS.contains key
  inGroup key := PI_STARTUP_KEYS.contains key
  ignored _ := false
  bare := false

/-- Pi reads its provider from `models.json` and the model it starts with from `settings.json`. -/
def Pi : ClientSpec PiChoice where
  companions := 1
  files := ![PiModels, PiSettings]
  baseUrl origin := origin ++ "/v1"
  connectionKeys := ["providers.astrlink.baseUrl", "providers.astrlink.api", "providers.astrlink.apiKey"]
  holdsConnection _ := false
  desiredKeys connection := entries ([
    ("providers.astrlink.name", "AstrLink"),
    ("providers.astrlink.baseUrl", connection.origin ++ "/v1"),
    ("providers.astrlink.api", "openai-responses"),
    ("providers.astrlink.apiKey", connection.choice.token)] ++
    match connection.choice.model with
    | some model => [("providers.astrlink.models", model), ("defaultProvider", "astrlink"), ("defaultModel", model)]
    | none => [])
  startFile := []
  syncedKeys _ _ origin := entries [("providers.astrlink.baseUrl", origin ++ "/v1")]
  addedKeys := ∅

theorem pi_counted (path : String) : (Pi.files (Pi.index path)).ignored path = false := by
  match Pi.index path with
  | 0 => rfl
  | 1 => rfl

section
variable {Choice : Type} {client : ClientSpec Choice} (sha256 : String → String)

/-- The value of a key in each of the documents. -/
def Config.copies (config : Config client) (path : String) : client.Place → Option (Option String) :=
  fun place => (config.documents place).lookup path

def valueOf (files : client.Files) (path : String) : Option (Option String) :=
  (Config.parse files).get path

theorem valueOf_eq (files : client.Files) (path : String) :
    valueOf files path = (parse (files (client.index path))).lookup path := rfl

section
variable (config : Config client)
include config

theorem Config.get_eq (path : String) :
    config.get path = config.copies path (client.index path) := rfl

theorem Config.copies_set (path value other : String) :
    (config.set path value).copies other =
      if other = path then update (config.copies other) (client.index path) (some (some value))
      else config.copies other := by
  funext place
  by_cases here : place = client.index path
  · subst here
    by_cases same : other = path
    · subst same
      simp [copies, set]
    · simp [copies, set, same, AList.lookup_insert_ne same]
  · by_cases same : other = path
    · subst same
      simp [copies, set, here]
    · simp [copies, set, here, same]

theorem Config.copies_remove (path other : String) :
    (config.remove path).copies other =
      if other = path then update (config.copies other) (client.index path) none else config.copies other := by
  funext place
  by_cases here : place = client.index path
  · subst here
    by_cases same : other = path
    · subst same
      simp [copies, remove]
    · simp [copies, remove, same, AList.lookup_erase_ne same]
  · by_cases same : other = path
    · subst same
      simp [copies, remove, here]
    · simp [copies, remove, here, same]

theorem Config.changed_set (path value : String) (place : client.Place) :
    (config.set path value).changed place = true ↔ config.changed place = true ∨ client.index path = place := by
  by_cases here : place = client.index path
  · subst here
    simp [set]
  · simp [set, here, Ne.symm here]

theorem Config.changed_remove (path : String) (place : client.Place) :
    (config.remove path).changed place = true ↔ config.changed place = true ∨ client.index path = place := by
  by_cases here : place = client.index path
  · subst here
    simp [remove]
  · simp [remove, here, Ne.symm here]

end

theorem parse_render (file : ConfigFile) (document : Document) (path : String) :
    (parse (some (file.render document))).lookup path = document.lookup path := by
  unfold ConfigFile.render
  split
  · next empty =>
    have absent : path ∉ document := by
      intro listed
      have none : document.keys = [] := by simpa using (Bool.and_eq_true_iff.mp empty).2
      simpa [none] using AList.mem_keys.mp listed
    rw [AList.lookup_eq_none.mpr absent]
    rfl
  · rfl

theorem ConfigFile.isEmpty_iff (file : ConfigFile) (document : Document) :
    file.isEmpty document = true ↔ ∀ path, document.lookup path ≠ none → file.ignored path = true := by
  rw [ConfigFile.isEmpty, List.all_eq_true]
  constructor
  · intro each path held
    exact each path (mem_keys_of_ne_none held)
  · intro each path listed
    exact each path (mt AList.lookup_eq_none.mp (not_not.mpr (AList.mem_keys.mpr listed)))

theorem writtenByUs_iff {sha256 : String → String} {record : ClientRecord} {path : String} {found : Option (Option String)} :
    writtenByUs sha256 (some record) path found.join = true ↔
      ∃ value, found = some (some value) ∧ record.keys.lookup path = some (sha256 value) := by
  rcases found with _ | _ | value
  · simp [writtenByUs]
  · simp [writtenByUs]
  · cases known : record.keys.lookup path with
    | none => simp [writtenByUs, known]
    | some fingerprint => simp [writtenByUs, known]

/-- What the first loop of a restore leaves at a key. -/
def restoredValue (record : ClientRecord) (path : String) (found : Option (Option String)) : Option (Option String) :=
  if writtenByUs sha256 (some record) path found.join then (record.backup.lookup path).map some else found

/-- What the second loop leaves at a key. -/
def returnedValue (record : ClientRecord) (path : String) (found : Option (Option String)) : Option (Option String) :=
  if record.keys.lookup path = none ∧ found = none then (record.backup.lookup path).map some else found

/-- What a restore leaves at a key. -/
def wanted (record : ClientRecord) (path : String) (found : Option (Option String)) : Option (Option String) :=
  returnedValue record path (restoredValue sha256 record path found)

variable {sha256} {record : ClientRecord} {path : String} {found : Option (Option String)}

theorem wanted_written (written : writtenByUs sha256 (some record) path found.join = true) :
    wanted sha256 record path found = (record.backup.lookup path).map some := by
  obtain ⟨value, rfl, known⟩ := writtenByUs_iff.mp written
  have listed : record.keys.lookup path ≠ none := by simp [known]
  simp only [wanted, restoredValue, if_pos written, returnedValue, listed, false_and, if_false]

theorem wanted_foreign (listed : record.keys.lookup path ≠ none)
    (foreign : writtenByUs sha256 (some record) path found.join = false) : wanted sha256 record path found = found := by
  simp [wanted, restoredValue, returnedValue, foreign, listed]

theorem wanted_unlisted (unlisted : record.keys.lookup path = none) :
    wanted sha256 record path found = if found = none then (record.backup.lookup path).map some else found := by
  have foreign : writtenByUs sha256 (some record) path found.join = false := by simp [writtenByUs, unlisted]
  simp [wanted, restoredValue, returnedValue, foreign, unlisted]

theorem wanted_wanted : wanted sha256 record path (wanted sha256 record path found) = wanted sha256 record path found := by
  by_cases listed : record.keys.lookup path = none
  · rw [wanted_unlisted listed, wanted_unlisted listed]
    cases found with
    | none => cases record.backup.lookup path <;> simp
    | some value => simp
  · cases written : writtenByUs sha256 (some record) path found.join with
    | false => rw [wanted_foreign listed written, wanted_foreign listed written]
    | true =>
      rw [wanted_written written]
      cases again : writtenByUs sha256 (some record) path ((record.backup.lookup path).map some).join with
      | false => exact wanted_foreign listed again
      | true => exact wanted_written again

def Config.Edited (config : Config client) (path : String) (value : Option (Option String)) (next : Config client) : Prop :=
  (value = config.get path ∧ next = config) ∨
    value ≠ config.get path ∧
      ((∃ original, value = some (some original) ∧ next = config.set path original) ∨
        value = none ∧ next = config.remove path)

theorem Config.Edited.copies {config next : Config client} {value : Option (Option String)}
    (edited : config.Edited path value next) (other : String) :
    next.copies other =
      if other = path then update (config.copies other) (client.index path) value else config.copies other := by
  rcases edited with ⟨rfl, rfl⟩ | ⟨_, ⟨original, rfl, rfl⟩ | ⟨rfl, rfl⟩⟩
  · split
    · next same =>
      subst same
      exact (Function.update_eq_self _ _).symm
    · rfl
  · exact config.copies_set path original other
  · exact config.copies_remove path other

theorem Config.Edited.changed {config next : Config client} {value : Option (Option String)}
    (edited : config.Edited path value next) (place : client.Place) :
    next.changed place = true ↔
      config.changed place = true ∨ (client.index path = place ∧ value ≠ config.get path) := by
  rcases edited with ⟨rfl, rfl⟩ | ⟨differs, ⟨original, rfl, rfl⟩ | ⟨rfl, rfl⟩⟩
  · simp
  · rw [config.changed_set, and_iff_left differs]
  · rw [config.changed_remove, and_iff_left differs]

theorem edited_restoreKey (config : Config client) :
    config.Edited path (restoredValue sha256 record path (config.get path)) (restoreKey sha256 record config path) := by
  unfold restoreKey restoredValue
  cases written : writtenByUs sha256 (some record) path (config.get path).join with
  | false => exact .inl ⟨by simp, by simp [written]⟩
  | true =>
    obtain ⟨value, held, _⟩ := writtenByUs_iff.mp written
    cases kept : record.backup.lookup path with
    | none => exact .inr ⟨by simp [held], .inr ⟨by simp, by simp [written]⟩⟩
    | some original =>
      by_cases same : value = original
      · exact .inl ⟨by simp [held, same], by simp [held, same]⟩
      · have differs : original ≠ value := Ne.symm same
        have next : (config.get path).join ≠ some original := by simpa [held] using same
        exact .inr ⟨by simp [held, differs], .inl ⟨original, by simp, by simp [written, next]⟩⟩

theorem edited_returnKey (config : Config client) :
    config.Edited path (returnedValue record path (config.get path)) (returnKey record config path) := by
  unfold returnKey returnedValue
  cases kept : record.backup.lookup path with
  | none =>
    refine .inl ⟨?_, rfl⟩
    split
    · next gone => simp [gone.2]
    · rfl
  | some original =>
    by_cases gone : record.keys.lookup path = none ∧ config.get path = none
    · exact .inr ⟨by simp [gone.1, gone.2], .inl ⟨original, by simp [gone.1, gone.2], by simp [gone.1, gone.2]⟩⟩
    · have test : ((record.keys.lookup path).isNone && (config.get path).isNone) = false := by
        by_contra both
        exact gone (by simpa using both)
      exact .inl ⟨by simp [gone], by simp [test]⟩

theorem restoredValue_unlisted (unlisted : path ∉ record.keys.keys) : restoredValue sha256 record path found = found := by
  have absent : record.keys.lookup path = none := AList.lookup_eq_none.mpr (mt AList.mem_keys.mp unlisted)
  simp [restoredValue, writtenByUs, absent]

theorem returnedValue_unlisted (unlisted : path ∉ record.backup.keys) : returnedValue record path found = found := by
  have absent : record.backup.lookup path = none := AList.lookup_eq_none.mpr (mt AList.mem_keys.mp unlisted)
  unfold returnedValue
  split
  · next gone => simp [gone.2, absent]
  · rfl

section
variable {visit : Config client → String → Config client} {value : String → Option (Option String) → Option (Option String)}
  {keys : List String}

section
variable (edits : ∀ (config : Config client) path, config.Edited path (value path (config.get path)) (visit config path)) (nodup : keys.Nodup) (others : ∀ path, path ∉ keys → ∀ found, value path found = found) (config : Config client)
include edits nodup others config

theorem copies_loop
    (path : String) :
    (keys.foldl visit config).copies path =
      update (config.copies path) (client.index path) (value path (config.get path)) := by
  have loop := foldl_view Config.copies visit
    (fun path copies => update copies (client.index path) (value path (copies (client.index path))))
    (fun config path => by rw [(edits config path).copies path, if_pos rfl, Config.get_eq])
    (fun config path other differs => by rw [(edits config path).copies other, if_neg differs]) nodup config path
  rw [loop, ← config.get_eq]
  split
  · rfl
  · next unlisted =>
    rw [others path unlisted]
    exact (Function.update_eq_self _ _).symm

theorem changed_loop
    (place : client.Place) :
    (keys.foldl visit config).changed place = true ↔ config.changed place = true ∨
      ∃ path, client.index path = place ∧ value path (config.get path) ≠ config.get path := by
  have loop := foldl_mark Config.copies visit
    (fun config path other differs => by rw [(edits config path).copies other, if_neg differs])
    (fun config place => config.changed place = true) client.index
    (fun path copies => value path (copies (client.index path)) ≠ copies (client.index path))
    (fun config path place => (edits config path).changed place) nodup config place
  rw [loop]
  refine or_congr_right ⟨?_, ?_⟩
  · rintro ⟨path, _, here, moves⟩
    exact ⟨path, here, moves⟩
  · rintro ⟨path, here, moves⟩
    refine ⟨path, ?_, here, moves⟩
    by_contra unlisted
    exact moves (others path unlisted _)

end

end

theorem copies_restoreKeys (config : Config client) (path : String) :
    (record.keys.keys.foldl (restoreKey sha256 record) config).copies path =
      update (config.copies path) (client.index path) (restoredValue sha256 record path (config.get path)) :=
  copies_loop (fun config _ => edited_restoreKey config) record.keys.keys_nodup
    (fun _ unlisted _ => restoredValue_unlisted unlisted) config path

theorem copies_returnKeys (config : Config client) (path : String) :
    (record.backup.keys.foldl (returnKey record) config).copies path =
      update (config.copies path) (client.index path) (returnedValue record path (config.get path)) :=
  copies_loop (fun config _ => edited_returnKey config) record.backup.keys_nodup
    (fun _ unlisted _ => returnedValue_unlisted unlisted) config path

theorem copies_restoreAll (sha256 : String → String) (record : ClientRecord) (config : Config client) (path : String) :
    (restoreAll sha256 record config).copies path =
      update (config.copies path) (client.index path) (wanted sha256 record path (config.get path)) := by
  rw [restoreAll, copies_returnKeys, Config.get_eq, copies_restoreKeys]
  simp [wanted]

theorem changed_restoreAll (sha256 : String → String) (record : ClientRecord) (config : Config client)
    (place : client.Place) :
    (restoreAll sha256 record config).changed place = true ↔ config.changed place = true ∨
      ∃ path, client.index path = place ∧ wanted sha256 record path (config.get path) ≠ config.get path := by
  have first := changed_loop (fun config _ => edited_restoreKey config) record.keys.keys_nodup
    (fun _ unlisted found => (restoredValue_unlisted unlisted : restoredValue sha256 record _ found = found)) config
    place
  have second := changed_loop (fun config _ => edited_returnKey config) record.backup.keys_nodup
    (fun _ unlisted _ => returnedValue_unlisted unlisted) (record.keys.keys.foldl (restoreKey sha256 record) config) place
  rw [restoreAll, second, first, or_assoc]
  refine or_congr_right ?_
  have between (path : String) : (record.keys.keys.foldl (restoreKey sha256 record) config).get path =
      restoredValue sha256 record path (config.get path) := by
    rw [Config.get_eq, copies_restoreKeys, Function.update_self]
  simp only [between]
  constructor
  · rintro (⟨path, here, moves⟩ | ⟨path, here, moves⟩)
    · have written : writtenByUs sha256 (some record) path (config.get path).join = true := by
        by_contra foreign
        exact moves (by simp [restoredValue, foreign])
      refine ⟨path, here, ?_⟩
      rw [wanted_written written]
      simpa [restoredValue, written] using moves
    · have gone : record.keys.lookup path = none := by
        by_contra listed
        exact moves (by simp [returnedValue, listed])
      have same : restoredValue sha256 record path (config.get path) = config.get path :=
        restoredValue_unlisted (mt AList.mem_keys.mpr (AList.lookup_eq_none.mp gone))
      refine ⟨path, here, ?_⟩
      rw [same] at moves
      rwa [wanted, same]
  · rintro ⟨path, here, moves⟩
    by_cases same : restoredValue sha256 record path (config.get path) = config.get path
    · rw [wanted, same] at moves
      exact .inr ⟨path, here, by rwa [same]⟩
    · exact .inl ⟨path, here, same⟩

end

end AstrLink.ClientConfig
