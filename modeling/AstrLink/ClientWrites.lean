import AstrLink.ClientConfig
import AstrLink.Runs

/-!
Writing a connection to a client's files and moving it to another address: the
plan of each, and what a plan leaves at a key and in the record's backup.
-/
namespace AstrLink.ClientWrites
open Tables ClientConfig List
open Function (update)

section
variable {Choice : Type} {client : ClientSpec Choice}

/-- What `plan_write` has so far. -/
structure Writing (client : ClientSpec Choice) where
  config : Config client
  backup : Table String String
  /-- Keys holding values AstrLink did not write, which the plan replaces or removes. -/
  conflicts : List String

structure WritePlan (client : ClientSpec Choice) where
  contents : client.Place → Text
  conflicts : List String
  record : ClientRecord

def Config.group (config : Config client) : List String :=
  (List.finRange _).flatMap fun place =>
    (config.documents place).keys.filter fun path => client.index path = place && (client.files place).inGroup path

/-- What a main file AstrLink creates starts with. -/
def Config.startFile (config : Config client) : Config client where
  documents := update config.documents 0
    (client.startFile.foldl (fun document entry => document.insert entry.1 entry.2) (config.documents 0))
  changed := update config.changed 0 true

def newFile (existing : client.Files) : Bool :=
  existing 0 = none || existing 0 = some .blank

variable (sha256 : String → String)

/-- A value about to be replaced that AstrLink did not write is kept. -/
def Writing.found (writing : Writing client) (previous : Option ClientRecord) (path : String) (value : Option String)
    (want : Option String) : Writing client :=
  if writtenByUs sha256 previous path value then writing
  else match value with
    | some value =>
      if want = some value then
        { writing with
          backup := if (writing.backup.lookup path).isSome then writing.backup else writing.backup.insert path value }
      else
        { writing with conflicts := writing.conflicts ++ [path], backup := writing.backup.insert path value }
    | none => { writing with conflicts := writing.conflicts ++ [path], backup := writing.backup.erase path }

/-- The loop over the group, which takes each value from the files as they were. -/
def takeGroupKey (previous : Option ClientRecord) (desired : Table String String) (start : Config client)
    (writing : Writing client) (path : String) : Writing client :=
  let writing := writing.found sha256 previous path (start.get path).join (desired.lookup path)
  if (desired.lookup path).isNone then { writing with config := writing.config.remove path } else writing

/-- The loop over the settings outside the group. -/
def takeDesiredKey (previous : Option ClientRecord) (desired : Table String String) (group : List String)
    (writing : Writing client) (path : String) : Writing client :=
  if group.contains path then writing
  else match writing.config.get path with
    | some value => writing.found sha256 previous path value (desired.lookup path)
    | none => writing

/-- A key that is written no more goes back to the value it replaced. -/
def giveBackKey (previous : Option ClientRecord) (desired : Table String String) (group : List String)
    (writing : Writing client) (path : String) : Writing client :=
  if (desired.lookup path).isSome || group.contains path then writing
  else if writtenByUs sha256 previous path (writing.config.get path).join then
    match writing.backup.lookup path with
    | some original =>
      { writing with config := writing.config.set path original, backup := writing.backup.erase path }
    | none => { writing with config := writing.config.remove path }
  else writing

def setKey (desired : Table String String) (config : Config client) (path : String) : Config client :=
  match desired.lookup path with
  | some value => config.set path value
  | none => config

def keptBy (previous : Option ClientRecord) : Table String String :=
  match previous with
  | some record => record.backup
  | none => ∅

def wroteBy (previous : Option ClientRecord) : Table String String :=
  match previous with
  | some record => record.keys
  | none => ∅

/-- The four loops of `plan_write_with`. -/
def writeAll (previous : Option ClientRecord) (desired : Table String String) (start : Config client) :
    Writing client :=
  let group := Config.group start
  let writing : Writing client := { config := start, backup := keptBy previous, conflicts := [] }
  let writing := group.foldl (takeGroupKey sha256 previous desired start) writing
  let writing := desired.keys.foldl (takeDesiredKey sha256 previous desired group) writing
  let writing := (wroteBy previous).keys.foldl (giveBackKey sha256 previous desired group) writing
  { writing with config := desired.keys.foldl (setKey desired) writing.config }

/-- Whether a file is AstrLink's after a write. -/
def createdBy (existing : client.Files) (previous : Option ClientRecord) (place : client.Place) : Bool :=
  (existing place).isNone || previous.any (fun record => created record place)

/-- The files as a write finds them, a new main file with what it starts with. -/
def opened (existing : client.Files) : Config client :=
  if newFile existing then Config.startFile (Config.parse existing) else Config.parse existing

/-- The files, backup and conflicts a write ends with. -/
def planned (existing : client.Files) (connection : Connection Choice) (previous : Option ClientRecord) :
    Writing client :=
  writeAll sha256 previous (client.desiredKeys connection) (opened existing)

def planWrite (existing : client.Files) (connection : Connection Choice) (previous : Option ClientRecord) :
    WritePlan client :=
  let writing := planned sha256 existing connection previous
  -- A companion that AstrLink added goes once a write empties it.
  let contents place :=
    if place ≠ 0 && createdBy existing previous place && writing.config.changed place &&
        (client.files place).isEmpty (writing.config.documents place) then .blank
    else writing.config.render existing place
  { contents
    conflicts := writing.conflicts
    record :=
      { baseUrl := client.baseUrl connection.origin
        keys := amend (fun _ value => sha256 value) (client.desiredKeys connection)
        createdFile := createdBy existing previous (0 : client.Place)
        createdCompanions := ((List.finRange _).filter fun place =>
          place ≠ 0 && createdBy existing previous place).map (fun place : client.Place => place.val)
        backup := writing.backup } }

/-- Sets a key, which becomes AstrLink's. -/
def syncKey (values : Table String String) (synced : Config client × Table String String) (path : String) :
    Config client × Table String String :=
  match values.lookup path with
  | some value => (synced.1.set path value, synced.2.insert path (sha256 value))
  | none => synced

/-- Adds a key that newer versions write, once and where nobody set it. -/
def addKey (record : ClientRecord) (values : Table String String) (synced : Config client × Table String String)
    (path : String) : Config client × Table String String :=
  if (record.keys.lookup path).isSome || (synced.1.get path).isSome then synced else syncKey sha256 values synced path

def planSync (existing : client.Files) (record : ClientRecord) (origin : String) :
    Option ((client.Place → Text) × ClientRecord) :=
  let config : Config client := Config.parse existing
  if connectionKept sha256 config record then
    let outdated := record.baseUrl ≠ client.baseUrl origin
    let values := if outdated then client.syncedKeys config.get record origin else ∅
    let synced := values.keys.foldl (syncKey sha256 values) (config, record.keys)
    let added := client.addedKeys.keys.foldl (addKey sha256 record client.addedKeys) synced
    let adds := client.addedKeys.keys.any fun path =>
      (record.keys.lookup path).isNone && (synced.1.get path).isNone
    if outdated ∨ adds = true then
      some (added.1.render existing, { record with baseUrl := client.baseUrl origin, keys := added.2 })
    else none
  else none

/-- A file once its contents are written; an empty one goes. -/
def written (before : Option Text) (after : Text) : Option Text :=
  if before.getD .blank = after then before else if after = .blank then none else some after

/-! ### What a write leaves at a key -/

/-- What is kept of a value that is about to be replaced or removed. -/
def keptValue (previous : Option ClientRecord) (path : String) (value want kept : Option String) : Option String :=
  if writtenByUs sha256 previous path value then kept
  else match value with
    | some value => if want = some value then kept.or (some value) else some value
    | none => none

/-- The value a write leaves at a key, from what it finds there and what was kept of it before. -/
def writtenValue (previous : Option ClientRecord) (path : String) (want : Option String) (grouped : Bool)
    (found : Option (Option String)) (kept : Option String) : Option (Option String) :=
  match want with
  | some want => some (some want)
  | none =>
    if grouped && found.isSome then none
    else if writtenByUs sha256 previous path found.join then kept.map some
    else found

/-- What is kept of a key after a write. -/
def writtenBackup (previous : Option ClientRecord) (path : String) (want : Option String) (grouped : Bool)
    (found : Option (Option String)) (kept : Option String) : Option String :=
  match want with
  | some want => if found.isSome then keptValue sha256 previous path found.join (some want) kept else kept
  | none =>
    if grouped && found.isSome then keptValue sha256 previous path found.join none kept
    else if writtenByUs sha256 previous path found.join then none
    else kept

def grouped (client : ClientSpec Choice) (path : String) : Bool :=
  (client.files (client.index path)).inGroup path

variable {sha256} {previous : Option ClientRecord} {desired : Table String String} {start : Config client}

theorem mem_group (start : Config client) (path : String) :
    path ∈ Config.group start ↔ (grouped client path && (start.get path).isSome) = true := by
  have listed (place : client.Place) : path ∈ (start.documents place).keys ↔ (start.copies path place).isSome := by
    rw [Config.copies, AList.lookup_isSome]
    exact AList.mem_keys.symm
  simp only [Config.group, mem_flatMap, mem_finRange, true_and, mem_filter, listed, Bool.and_eq_true,
    decide_eq_true_eq, grouped, Config.get_eq]
  constructor
  · rintro ⟨place, held, rfl, inGroup⟩
    exact ⟨inGroup, held⟩
  · rintro ⟨inGroup, held⟩
    exact ⟨_, held, rfl, inGroup⟩

theorem group_nodup : (Config.group start).Nodup := by
  rw [Config.group, nodup_flatMap]
  refine ⟨fun place _ => (AList.keys_nodup _).filter _, (nodup_finRange _).imp ?_⟩
  intro first second differs path listed again
  simp only [mem_filter, Bool.and_eq_true, decide_eq_true_eq] at listed again
  exact differs (listed.2.1.symm.trans again.2.1)

theorem Writing.found_config (writing : Writing client) (path : String) (value want : Option String) :
    (writing.found sha256 previous path value want).config = writing.config := by
  unfold Writing.found
  split
  · rfl
  · split
    · split <;> rfl
    · rfl

theorem Writing.found_backup (writing : Writing client) (path other : String) (value want : Option String) :
    (writing.found sha256 previous path value want).backup.lookup other =
      if other = path then keptValue sha256 previous path value want (writing.backup.lookup path)
      else writing.backup.lookup other := by
  unfold Writing.found keptValue
  by_cases ours : writtenByUs sha256 previous path value = true
  · simp only [ours, if_true]
    split
    · next same => rw [same]
    · rfl
  · simp only [ours, Bool.false_eq_true, if_false]
    cases value with
    | none => exact lookup_erase_if _ _ _
    | some value =>
      by_cases wants : want = some value
      · simp only [wants, if_true]
        cases kept : writing.backup.lookup path with
        | none => simpa [kept] using lookup_insert_if writing.backup path other value
        | some original =>
          simp only [Option.isSome_some, if_true, Option.some_or]
          split
          · next same => rw [same, kept]
          · rfl
      · simpa [wants] using lookup_insert_if writing.backup path other value

/-- What the loops read and change of a key. -/
def Writing.view (writing : Writing client) (path : String) :
    (client.Place → Option (Option String)) × Option String :=
  (writing.config.copies path, writing.backup.lookup path)

theorem view_groupKeys (writing : Writing client) (path : String) :
    ((Config.group start).foldl (takeGroupKey sha256 previous desired start) writing).view path =
      if path ∈ Config.group start then
        (if desired.lookup path = none then update (writing.config.copies path) (client.index path) none
          else writing.config.copies path,
          keptValue sha256 previous path (start.get path).join (desired.lookup path) (writing.backup.lookup path))
      else writing.view path := by
  refine foldl_view Writing.view _ (fun path view =>
    (if desired.lookup path = none then update view.1 (client.index path) none else view.1,
      keptValue sha256 previous path (start.get path).join (desired.lookup path) view.2)) ?_ ?_ group_nodup writing path
  · intro writing path
    unfold takeGroupKey Writing.view
    cases wants : desired.lookup path with
    | none => simp [Writing.found_config, Writing.found_backup, Config.copies_remove]
    | some want => simp [Writing.found_config, Writing.found_backup]
  · intro writing path other differs
    unfold takeGroupKey Writing.view
    cases wants : desired.lookup path with
    | none => simp [Writing.found_config, Writing.found_backup, Config.copies_remove, differs]
    | some want => simp [Writing.found_config, Writing.found_backup, differs]

theorem view_desiredKeys (group : List String) (writing : Writing client) (path : String) :
    (desired.keys.foldl (takeDesiredKey sha256 previous desired group) writing).view path =
      if path ∈ desired.keys ∧ path ∉ group ∧ (writing.config.get path).isSome then
        (writing.config.copies path,
          keptValue sha256 previous path (writing.config.get path).join (desired.lookup path)
            (writing.backup.lookup path))
      else writing.view path := by
  have loop := foldl_view Writing.view (takeDesiredKey sha256 previous desired group)
    (fun path view => if path ∉ group ∧ (view.1 (client.index path)).isSome then
      (view.1, keptValue sha256 previous path (view.1 (client.index path)).join (desired.lookup path) view.2)
      else view) ?_ ?_ desired.keys_nodup writing path
  · rw [loop]
    by_cases wants : path ∈ desired.keys
    · simp only [wants, if_true, true_and]
      rfl
    · simp [wants]
  · intro writing path
    unfold takeDesiredKey
    by_cases taken : path ∈ group
    · simp [taken]
    · have get : writing.config.copies path (client.index path) = writing.config.get path := rfl
      cases found : writing.config.get path with
      | none => simp [taken, Writing.view, get, found]
      | some value => simp [taken, Writing.view, get, found, Writing.found_config, Writing.found_backup]
  · intro writing path other differs
    unfold takeDesiredKey
    split
    · rfl
    · split
      · simp [Writing.view, Writing.found_config, Writing.found_backup, differs]
      · rfl

theorem view_backKeys (group : List String) (writing : Writing client) {keys : List String} (nodup : keys.Nodup)
    (path : String) :
    (keys.foldl (giveBackKey sha256 previous desired group) writing).view path =
      if path ∈ keys ∧ desired.lookup path = none ∧ path ∉ group ∧
          writtenByUs sha256 previous path (writing.config.get path).join = true then
        (update (writing.config.copies path) (client.index path) ((writing.backup.lookup path).map some), none)
      else writing.view path := by
  have loop := foldl_view Writing.view (giveBackKey sha256 previous desired group)
    (fun path view => if desired.lookup path = none ∧ path ∉ group ∧
        writtenByUs sha256 previous path (view.1 (client.index path)).join = true then
      (update view.1 (client.index path) (view.2.map some), none) else view) ?_ ?_ nodup writing path
  · rw [loop]
    by_cases listed : path ∈ keys
    · simp only [listed, if_true, true_and]
      rfl
    · simp [listed]
  · intro writing path
    unfold giveBackKey
    have get : writing.config.copies path (client.index path) = writing.config.get path := rfl
    by_cases wants : desired.lookup path = none
    · by_cases taken : path ∈ group
      · simp [taken]
      · by_cases ours : writtenByUs sha256 previous path (writing.config.get path).join = true
        · cases kept : writing.backup.lookup path with
          | none => simp [wants, taken, ours, Writing.view, get, kept, Config.copies_remove]
          | some original => simp [wants, taken, ours, Writing.view, get, kept, Config.copies_set]
        · simp [taken, ours, Writing.view, get]
    · simp [wants, Option.isSome_iff_ne_none]
  · intro writing path other differs
    unfold giveBackKey
    split
    · rfl
    · split
      · split
        · simp [Writing.view, Config.copies_set, differs, AList.lookup_erase_ne differs]
        · simp [Writing.view, Config.copies_remove, differs]
      · rfl

theorem copies_setKeys (config : Config client) (path : String) :
    (desired.keys.foldl (setKey desired) config).copies path =
      match desired.lookup path with
      | some want => update (config.copies path) (client.index path) (some (some want))
      | none => config.copies path := by
  have loop := foldl_view Config.copies (setKey desired) (fun path copies => match desired.lookup path with
      | some want => update copies (client.index path) (some (some want))
      | none => copies) ?_ ?_ desired.keys_nodup config path
  · rw [loop]
    split
    · rfl
    · next unlisted =>
      have absent : desired.lookup path = none := AList.lookup_eq_none.mpr (mt AList.mem_keys.mp unlisted)
      rw [absent]
  · intro config path
    unfold setKey
    cases desired.lookup path with
    | none => rfl
    | some want => simp [Config.copies_set]
  · intro config path other differs
    unfold setKey
    cases desired.lookup path with
    | none => rfl
    | some want => simp [Config.copies_set, differs]

theorem writtenByUs_wrote {path : String} {value : Option String}
    (ours : writtenByUs sha256 previous path value = true) : (wroteBy previous).lookup path ≠ none := by
  intro absent
  cases previous with
  | none => simp [writtenByUs] at ours
  | some record =>
    have unlisted : record.keys.lookup path = none := absent
    simp [writtenByUs, unlisted] at ours

theorem writtenByUs_listed {path : String} {value : Option String}
    (ours : writtenByUs sha256 previous path value = true) : path ∈ (wroteBy previous).keys :=
  mem_keys_of_ne_none (writtenByUs_wrote ours)

theorem view_writeAll (sha256 : String → String) (previous : Option ClientRecord) (desired : Table String String)
    (start : Config client) (path : String) :
    (writeAll sha256 previous desired start).view path =
      (update (start.copies path) (client.index path) (writtenValue sha256 previous path (desired.lookup path)
          (grouped client path) (start.get path) ((keptBy previous).lookup path)),
        writtenBackup sha256 previous path (desired.lookup path) (grouped client path) (start.get path)
          ((keptBy previous).lookup path)) := by
  have own : update (start.copies path) (client.index path) (start.get path) = start.copies path :=
    Function.update_eq_self _ _
  have here : start.copies path (client.index path) = start.get path := rfl
  have member := mem_group start path
  obtain ⟨first, firstIs⟩ : ∃ writing, writing = (Config.group start).foldl (takeGroupKey sha256 previous desired start)
    { config := start, backup := keptBy previous, conflicts := [] } := ⟨_, rfl⟩
  obtain ⟨second, secondIs⟩ : ∃ writing, writing =
    desired.keys.foldl (takeDesiredKey sha256 previous desired (Config.group start)) first := ⟨_, rfl⟩
  obtain ⟨third, thirdIs⟩ : ∃ writing, writing =
    (wroteBy previous).keys.foldl (giveBackKey sha256 previous desired (Config.group start)) second := ⟨_, rfl⟩
  have firstView : first.view path = if path ∈ Config.group start then
      (if desired.lookup path = none then update (start.copies path) (client.index path) none else start.copies path,
        keptValue sha256 previous path (start.get path).join (desired.lookup path) ((keptBy previous).lookup path))
      else (start.copies path, (keptBy previous).lookup path) :=
    firstIs ▸ view_groupKeys _ path
  have secondView : second.view path =
      if path ∈ desired.keys ∧ path ∉ Config.group start ∧ ((first.view path).1 (client.index path)).isSome then
        ((first.view path).1, keptValue sha256 previous path ((first.view path).1 (client.index path)).join
          (desired.lookup path) (first.view path).2)
      else first.view path :=
    secondIs ▸ view_desiredKeys (Config.group start) first path
  have thirdView : third.view path =
      if path ∈ (wroteBy previous).keys ∧ desired.lookup path = none ∧ path ∉ Config.group start ∧
          writtenByUs sha256 previous path ((second.view path).1 (client.index path)).join = true then
        (update (second.view path).1 (client.index path) ((second.view path).2.map some), none)
      else second.view path :=
    thirdIs ▸ view_backKeys (Config.group start) second (wroteBy previous).keys_nodup path
  have whole : (writeAll sha256 previous desired start).view path =
      ((desired.keys.foldl (setKey desired) third.config).copies path, (third.view path).2) := by
    rw [thirdIs, secondIs, firstIs]
    rfl
  have last : (desired.keys.foldl (setKey desired) third.config).copies path =
      match desired.lookup path with
      | some want => update (third.view path).1 (client.index path) (some (some want))
      | none => (third.view path).1 := copies_setKeys third.config path
  rw [whole, last]
  cases wants : desired.lookup path with
  | some want =>
    have listed : path ∈ desired.keys := mem_keys_of_lookup wants
    have same : third.view path = second.view path := by rw [thirdView, if_neg (by simp [wants])]
    rw [same, secondView]
    by_cases taken : path ∈ Config.group start
    · have found : (start.get path).isSome = true := (Bool.and_eq_true_iff.mp (member.mp taken)).2
      rw [if_neg (by simp [taken]), firstView, if_pos taken]
      simp [wants, writtenValue, writtenBackup, found]
    · simp only [firstView, if_neg taken, here]
      cases found : start.get path with
      | none => simp [writtenValue, writtenBackup]
      | some value => simp [listed, taken, wants, writtenValue, writtenBackup]
  | none =>
    have unlisted : path ∉ desired.keys := by
      rw [AList.mem_keys.symm.not]
      exact AList.lookup_eq_none.mp wants
    have same : second.view path = first.view path := by rw [secondView, if_neg (by simp [unlisted])]
    rw [thirdView, same, firstView]
    by_cases taken : path ∈ Config.group start
    · have both := member.mp taken
      rw [if_neg (by simp [taken]), if_pos taken]
      simp [wants, writtenValue, writtenBackup, both]
    · have free : (grouped client path && (start.get path).isSome) = false := by
        rw [← Bool.not_eq_true]
        exact mt member.mpr taken
      simp only [if_neg taken, here]
      by_cases ours : writtenByUs sha256 previous path (start.get path).join = true
      · rw [if_pos ⟨writtenByUs_listed ours, wants, taken, ours⟩]
        simp [writtenValue, writtenBackup, free, ours]
      · rw [if_neg (by simp [ours])]
        simp [writtenValue, writtenBackup, free, ours, own]

/-! ### What a plan leaves in the files -/

/-- A file that no loop changed has the document it was read with. -/
def Traces (base : client.Place → Document) (config : Config client) : Prop :=
  ∀ place, config.changed place = false → config.documents place = base place

section
variable {base : client.Place → Document} {config : Config client}

theorem Traces.set (traces : Traces base config) (path value : String) : Traces base (config.set path value) := by
  intro place unchanged
  by_cases here : place = client.index path
  · subst here
    simp [Config.set] at unchanged
  · have before : config.changed place = false := by simpa [Config.set, here] using unchanged
    simpa [Config.set, here] using traces place before

theorem Traces.remove (traces : Traces base config) (path : String) : Traces base (config.remove path) := by
  intro place unchanged
  by_cases here : place = client.index path
  · subst here
    simp [Config.remove] at unchanged
  · have before : config.changed place = false := by simpa [Config.remove, here] using unchanged
    simpa [Config.remove, here] using traces place before

end

theorem traces_writeAll {base : client.Place → Document} (traces : Traces base start) :
    Traces base (writeAll sha256 previous desired start).config := by
  have taken : Traces base ((Config.group start).foldl (takeGroupKey sha256 previous desired start)
      { config := start, backup := keptBy previous, conflicts := [] }).config := by
    refine List.foldlRecOn (motive := fun writing : Writing client => Traces base writing.config) _ _ traces ?_
    intro writing kept path _
    unfold takeGroupKey
    split
    · exact Traces.remove (by rwa [Writing.found_config]) path
    · rwa [Writing.found_config]
  have found (group : List String) (writing : Writing client) (kept : Traces base writing.config) :
      Traces base (desired.keys.foldl (takeDesiredKey sha256 previous desired group) writing).config := by
    refine List.foldlRecOn (motive := fun writing : Writing client => Traces base writing.config) _ _ kept ?_
    intro writing kept path _
    unfold takeDesiredKey
    split
    · exact kept
    · split
      · rwa [Writing.found_config]
      · exact kept
  have given (group : List String) (writing : Writing client) (kept : Traces base writing.config) :
      Traces base ((wroteBy previous).keys.foldl (giveBackKey sha256 previous desired group) writing).config := by
    refine List.foldlRecOn (motive := fun writing : Writing client => Traces base writing.config) _ _ kept ?_
    intro writing kept path _
    unfold giveBackKey
    split
    · exact kept
    · split
      · split
        · exact kept.set path _
        · exact kept.remove path
      · exact kept
  have set (config : Config client) (kept : Traces base config) :
      Traces base (desired.keys.foldl (setKey desired) config) := by
    refine List.foldlRecOn (motive := Traces base) _ _ kept ?_
    intro config kept path _
    unfold setKey
    split
    · exact kept.set path _
    · exact kept
  exact set _ (given _ _ (found _ _ taken))

theorem parse_written (before : Option Text) (after : Text) : parse (written before after) = parse (some after) := by
  unfold written
  by_cases same : before.getD .blank = after
  · rw [if_pos same]
    cases before with
    | none =>
      subst same
      rfl
    | some text =>
      subst same
      rfl
  · rw [if_neg same]
    split
    · next blank =>
      subst blank
      rfl
    · rfl

theorem parse_contents {config : Config client} {existing : client.Files}
    (traces : Traces (fun place => parse (existing place)) config) (place : client.Place) (path : String) :
    (parse (some (config.render existing place))).lookup path = (config.documents place).lookup path := by
  unfold Config.render
  cases changed : config.changed place with
  | true =>
    simp only [if_true]
    exact parse_render _ _ _
  | false =>
    rw [traces place changed]
    simp only [Bool.false_eq_true, if_false]
    cases existing place <;> rfl

theorem lookup_foldl_insert (pairs : List (String × Option String)) (document : Document) (path : String)
    (other : path ∉ pairs.map Prod.fst) :
    (pairs.foldl (fun document entry => document.insert entry.1 entry.2) document).lookup path =
      document.lookup path := by
  induction pairs generalizing document with
  | nil => rfl
  | cons entry rest ih =>
    rw [map_cons, mem_cons, not_or] at other
    rw [foldl_cons, ih _ other.2, AList.lookup_insert_ne other.1]

variable {existing : client.Files} {connection : Connection Choice} {path : String} {place : client.Place}

/-- The key is not one that a new main file starts with. -/
def Plain (existing : client.Files) (place : client.Place) (path : String) : Prop :=
  newFile existing = true → place = 0 → path ∉ client.startFile.map Prod.fst

theorem copies_opened (plain : Plain existing place path) :
    (opened existing).copies path place = (parse (existing place)).lookup path := by
  unfold opened
  split
  · next new =>
    by_cases main : place = 0
    · subst main
      have other := plain new rfl
      simpa [Config.copies, Config.startFile, Config.parse] using
        lookup_foldl_insert client.startFile (parse (existing 0)) path other
    · simp [Config.copies, Config.startFile, Config.parse, main]
  · rfl

theorem traces_opened (existing : client.Files) : Traces (fun place => parse (existing place)) (opened existing) := by
  intro place unchanged
  unfold opened at unchanged ⊢
  split
  · next new =>
    rw [if_pos new] at unchanged
    by_cases main : place = 0
    · subst main
      simp [Config.startFile] at unchanged
    · simp [Config.startFile, main, Config.parse]
  · rfl

def afterWrite (sha256 : String → String) (existing : client.Files) (connection : Connection Choice)
    (previous : Option ClientRecord) (place : client.Place) (path : String) : Option (Option String) :=
  if client.index path = place then
    writtenValue sha256 previous path ((client.desiredKeys connection).lookup path) (grouped client path)
      ((parse (existing place)).lookup path) ((keptBy previous).lookup path)
  else (parse (existing place)).lookup path

theorem documents_planned (sha256 : String → String) (connection : Connection Choice) (previous : Option ClientRecord)
    (plain : Plain existing place path) :
    ((planned sha256 existing connection previous).config.documents place).lookup path =
      afterWrite sha256 existing connection previous place path := by
  have view := congrFun (congrArg Prod.fst
    (view_writeAll sha256 previous (client.desiredKeys connection) (opened existing) path)) place
  have start := copies_opened plain
  change ((planned sha256 existing connection previous).config.documents place).lookup path = _ at view
  dsimp only at view
  rw [view, afterWrite]
  by_cases here : client.index path = place
  · subst here
    rw [Function.update_self, if_pos rfl, ← start]
    rfl
  · rw [Function.update_of_ne (Ne.symm here), if_neg here, start]

theorem backup_opened (sha256 : String → String) (connection : Connection Choice) (previous : Option ClientRecord)
    (existing : client.Files) (path : String) :
    (planWrite sha256 existing connection previous).record.backup.lookup path =
      writtenBackup sha256 previous path ((client.desiredKeys connection).lookup path) (grouped client path)
        ((opened existing).get path) ((keptBy previous).lookup path) :=
  congrArg Prod.snd (view_writeAll sha256 previous (client.desiredKeys connection) (opened existing) path)

theorem backup_planWrite (plain : Plain existing (client.index path) path) :
    (planWrite sha256 existing connection previous).record.backup.lookup path =
      writtenBackup sha256 previous path ((client.desiredKeys connection).lookup path) (grouped client path)
        (valueOf existing path) ((keptBy previous).lookup path) := by
  have start : (opened existing).get path = valueOf existing path := copies_opened plain
  rw [backup_opened, start]

theorem keys_planWrite :
    (planWrite sha256 existing connection previous).record.keys.lookup path =
      ((client.desiredKeys connection).lookup path).map sha256 :=
  lookup_amend _ _ _

theorem created_planWrite :
    created (planWrite sha256 existing connection previous).record place = createdBy existing previous place := by
  unfold created planWrite
  by_cases main : place = 0
  · subst main
    rfl
  · simp only [if_neg main]
    rw [Bool.eq_iff_iff, contains_iff_mem, mem_map]
    constructor
    · rintro ⟨other, listed, same⟩
      obtain rfl : other = place := Fin.ext same
      simpa [main] using listed
    · intro made
      exact ⟨place, by simp [main, made], rfl⟩

theorem lookup_planWrite (plain : Plain existing place path)
    (empty : createdBy existing previous place = true → ∀ other, (client.files place).ignored other = true →
      place ≠ 0 → afterWrite sha256 existing connection previous place other = none) :
    (parse (written (existing place) ((planWrite sha256 existing connection previous).contents place))).lookup path =
      afterWrite sha256 existing connection previous place path := by
  have documents := documents_planned sha256 connection previous plain
  have traces : Traces (fun place => parse (existing place)) (planned sha256 existing connection previous).config :=
    traces_writeAll (traces_opened existing)
  rw [parse_written]
  simp only [planWrite]
  split
  · next cleared =>
    simp only [Bool.and_eq_true, decide_eq_true_eq] at cleared
    obtain ⟨⟨⟨companion, made⟩, _⟩, bare⟩ := cleared
    by_contra held
    have there : afterWrite sha256 existing connection previous place path ≠ none := fun absent => held (by rw [absent]; rfl)
    rw [← documents] at there
    have ignored := (ConfigFile.isEmpty_iff _ _).mp bare path there
    rw [documents, empty made path ignored companion] at there
    exact there rfl
  · rw [parse_contents traces, documents]

theorem written_blank {before : Option Text} {after : Text} (blank : written before after = some .blank) :
    before = some .blank := by
  unfold written at blank
  split at blank
  · exact blank
  · split at blank
    · cases blank
    · next visible => exact absurd (Option.some.inj blank) visible

theorem written_same {before : Option Text} {after : Text} (same : before.getD .blank = after) :
    written before after = before := by
  rw [written, if_pos same]

theorem written_planWrite (sha256 : String → String) (existing : client.Files) (connection : Connection Choice)
    (previous : Option ClientRecord) (companion : place ≠ 0) :
    written (existing place) ((planWrite sha256 existing connection previous).contents place) = existing place ∨
      written (existing place) ((planWrite sha256 existing connection previous).contents place) = none ∨
        (createdBy existing previous place = true → ∃ path, (client.files place).ignored path = false ∧
          (parse (written (existing place)
            ((planWrite sha256 existing connection previous).contents place))).lookup path ≠ none) := by
  have traces : Traces (fun place => parse (existing place)) (planned sha256 existing connection previous).config :=
    traces_writeAll (traces_opened existing)
  simp only [planWrite]
  split
  · unfold written
    split
    · exact .inl rfl
    · exact .inr (.inl rfl)
  · next left =>
    cases changed : (planned sha256 existing connection previous).config.changed place with
    | false => exact .inl (written_same (by simp [Config.render, changed]))
    | true =>
      refine .inr (.inr (fun made => ?_))
      simp only [Bool.and_eq_true, decide_eq_true_eq, not_and, Bool.not_eq_true, changed, made, companion,
        ne_eq, not_false_eq_true, and_self, forall_const] at left
      have full : ¬ ∀ path, ((planned sha256 existing connection previous).config.documents place).lookup path ≠ none →
          (client.files place).ignored path = true := by
        rw [← ConfigFile.isEmpty_iff, left]
        exact Bool.false_ne_true
      obtain ⟨path, held⟩ := not_forall.mp full
      obtain ⟨held, counted⟩ := Classical.not_imp.mp held
      refine ⟨path, by simpa using counted, ?_⟩
      rwa [parse_written, parse_contents traces]

theorem written_none (gone : written (existing place)
    ((planWrite sha256 existing connection previous).contents place) = none) :
    existing place = none ∨ createdBy existing previous place = true ∨ (client.files place).bare = true := by
  simp only [planWrite] at gone
  split at gone
  · next cleared =>
    simp only [Bool.and_eq_true] at cleared
    exact .inr (.inl cleared.1.1.2)
  · cases changed : (planned sha256 existing connection previous).config.changed place with
    | false =>
      rw [written_same (by simp [Config.render, changed])] at gone
      exact .inl gone
    | true =>
      refine .inr (.inr ?_)
      by_contra solid
      have text : (planned sha256 existing connection previous).config.render existing place =
          .holds ((planned sha256 existing connection previous).config.documents place) := by
        simp [Config.render, changed, ConfigFile.render, solid]
      rw [text, written] at gone
      split at gone
      · next same =>
        rw [gone] at same
        cases same
      · simp at gone

/-! ### What a sync leaves at a key -/

/-- What the loops of a sync read and change of a key. -/
def syncView (synced : Config client × Table String String) (path : String) :
    (client.Place → Option (Option String)) × Option String :=
  (synced.1.copies path, synced.2.lookup path)

/-- The value and the fingerprint once a key is set, if there is a value for it. -/
def setTo (sha256 : String → String) (value : Option String) (held : Option (Option String) × Option String) :
    Option (Option String) × Option String :=
  match value with
  | some value => (some (some value), some (sha256 value))
  | none => held

def afterSync (sha256 : String → String) (record : ClientRecord) (values added : Table String String) (path : String)
    (found : Option (Option String)) : Option (Option String) × Option String :=
  let held := setTo sha256 (values.lookup path) (found, record.keys.lookup path)
  if (record.keys.lookup path).isSome || held.1.isSome then held else setTo sha256 (added.lookup path) held

def movedKeys (record : ClientRecord) (existing : client.Files) (origin : String) : Table String String :=
  if record.baseUrl ≠ client.baseUrl origin then client.syncedKeys (valueOf existing) record origin else ∅

theorem view_syncKey (values : Table String String) (synced : Config client × Table String String) (path other : String) :
    syncView (syncKey sha256 values synced path) other =
      if other = path then
        (update (synced.1.copies path) (client.index path)
            (setTo sha256 (values.lookup path) (synced.1.get path, synced.2.lookup path)).1,
          (setTo sha256 (values.lookup path) (synced.1.get path, synced.2.lookup path)).2)
      else syncView synced other := by
  unfold syncKey syncView setTo
  by_cases same : other = path
  · subst same
    cases values.lookup other with
    | none => exact Prod.ext ((Function.update_eq_self _ _).symm.trans (by rw [if_pos rfl]; rfl)) (by rw [if_pos rfl])
    | some value => simp [Config.copies_set]
  · cases values.lookup path with
    | none => simp [same]
    | some value => simp [Config.copies_set, same, AList.lookup_insert_ne same]

theorem view_syncKeys (values : Table String String) (synced : Config client × Table String String) (path : String) :
    syncView (values.keys.foldl (syncKey sha256 values) synced) path =
      (update (synced.1.copies path) (client.index path)
          (setTo sha256 (values.lookup path) (synced.1.get path, synced.2.lookup path)).1,
        (setTo sha256 (values.lookup path) (synced.1.get path, synced.2.lookup path)).2) := by
  have loop := foldl_view syncView (syncKey sha256 values)
    (fun path view => (update view.1 (client.index path)
        (setTo sha256 (values.lookup path) (view.1 (client.index path), view.2)).1,
      (setTo sha256 (values.lookup path) (view.1 (client.index path), view.2)).2))
    (fun synced path => by rw [view_syncKey, if_pos rfl]; rfl)
    (fun synced path other differs => by rw [view_syncKey, if_neg differs]) values.keys_nodup synced path
  rw [loop]
  split
  · rfl
  · next unlisted =>
    have absent : values.lookup path = none := AList.lookup_eq_none.mpr (mt AList.mem_keys.mp unlisted)
    rw [absent]
    exact Prod.ext (Function.update_eq_self _ _).symm rfl

theorem view_addKeys (record : ClientRecord) (values : Table String String)
    (synced : Config client × Table String String) (path : String) :
    syncView (values.keys.foldl (addKey sha256 record values) synced) path =
      if (record.keys.lookup path).isSome || (synced.1.get path).isSome then syncView synced path
      else (update (synced.1.copies path) (client.index path)
          (setTo sha256 (values.lookup path) (synced.1.get path, synced.2.lookup path)).1,
        (setTo sha256 (values.lookup path) (synced.1.get path, synced.2.lookup path)).2) := by
  have loop := foldl_view syncView (addKey sha256 record values)
    (fun path view =>
      if (record.keys.lookup path).isSome || (view.1 (client.index path)).isSome then view
      else (update view.1 (client.index path)
          (setTo sha256 (values.lookup path) (view.1 (client.index path), view.2)).1,
        (setTo sha256 (values.lookup path) (view.1 (client.index path), view.2)).2))
    ?_ ?_ values.keys_nodup synced path
  · rw [loop]
    split
    · rfl
    · next unlisted =>
      have absent : values.lookup path = none := AList.lookup_eq_none.mpr (mt AList.mem_keys.mp unlisted)
      rw [absent]
      split
      · rfl
      · exact Prod.ext (Function.update_eq_self _ _).symm rfl
  · intro synced path
    have get : (syncView synced path).1 (client.index path) = synced.1.get path := rfl
    unfold addKey
    rw [get]
    split
    · rfl
    · rw [view_syncKey, if_pos rfl]
      rfl
  · intro synced path other differs
    unfold addKey
    split
    · rfl
    · rw [view_syncKey, if_neg differs]

/-- Every file that was changed holds a key that was set. -/
def SetKeys (isSet : String → Prop) (config : Config client) : Prop :=
  ∀ place, config.changed place = true → ∃ path, client.index path = place ∧ config.get path ≠ none ∧ isSet path

theorem SetKeys.set {isSet : String → Prop} {config : Config client} (sets : SetKeys isSet config) {path : String}
    (listed : isSet path) (value : String) : SetKeys isSet (config.set path value) := by
  intro place changed
  have stays (other : String) (held : config.get other ≠ none) : (config.set path value).get other ≠ none := by
    rw [Config.get_eq, Config.copies_set]
    split
    · next same =>
      subst same
      simp
    · exact held
  rcases (config.changed_set path value place).mp changed with before | here
  · obtain ⟨other, there, held, known⟩ := sets place before
    exact ⟨other, there, stays other held, known⟩
  · refine ⟨path, here, ?_, listed⟩
    rw [Config.get_eq, Config.copies_set, if_pos rfl]
    simp

theorem traces_syncKey {base : client.Place → Document} {values : Table String String}
    {synced : Config client × Table String String} (kept : Traces base synced.1) (path : String) :
    Traces base (syncKey sha256 values synced path).1 := by
  unfold syncKey
  split
  · exact kept.set path _
  · exact kept

theorem sets_syncKey {isSet : String → Prop} {values : Table String String}
    {synced : Config client × Table String String} (sets : SetKeys isSet synced.1) (path : String)
    (listed : values.lookup path ≠ none → isSet path) : SetKeys isSet (syncKey sha256 values synced path).1 := by
  unfold syncKey
  cases held : values.lookup path with
  | none => exact sets
  | some value => exact sets.set (listed (by simp [held])) value

structure Synced (sha256 : String → String) (existing : client.Files) (record : ClientRecord) (origin : String)
    (contents : client.Place → Text) (next : ClientRecord) : Prop where
  kept : connectionKept sha256 (Config.parse existing) record = true
  backup : next.backup = record.backup
  created : ∀ place : client.Place, created next place = created record place
  keys : ∀ path, next.keys.lookup path =
    (afterSync sha256 record (movedKeys record existing origin) client.addedKeys path (valueOf existing path)).2
  values : ∀ place path, (parse (written (existing place) (contents place))).lookup path =
    if client.index path = place then
      (afterSync sha256 record (movedKeys record existing origin) client.addedKeys path (valueOf existing path)).1
    else (parse (existing place)).lookup path
  /-- A file whose contents change gets a key, so it does not go. -/
  filled : ∀ place, written (existing place) (contents place) = existing place ∨
    ∃ path, client.index path = place ∧ (parse (written (existing place) (contents place))).lookup path ≠ none ∧
      ((movedKeys record existing origin).lookup path ≠ none ∨ client.addedKeys.lookup path ≠ none)

theorem planSync_spec {record next : ClientRecord} {origin : String} {contents : client.Place → Text}
    (plan : planSync sha256 existing record origin = some (contents, next)) :
    Synced sha256 existing record origin contents next := by
  cases kept : connectionKept sha256 (Config.parse existing) record with
  | false => simp [planSync, kept] at plan
  | true =>
    obtain ⟨moved, movedIs⟩ : ∃ moved, moved = movedKeys record existing origin := ⟨_, rfl⟩
    obtain ⟨synced, syncedIs⟩ : ∃ synced, synced =
      moved.keys.foldl (syncKey sha256 moved) ((Config.parse existing : Config client), record.keys) := ⟨_, rfl⟩
    obtain ⟨added, addedIs⟩ : ∃ added, added =
      client.addedKeys.keys.foldl (addKey sha256 record client.addedKeys) synced := ⟨_, rfl⟩
    have result : contents = added.1.render existing ∧
        next = { record with baseUrl := client.baseUrl origin, keys := added.2 } := by
      have whole : planSync sha256 existing record origin =
          if record.baseUrl ≠ client.baseUrl origin ∨
              (client.addedKeys.keys.any fun path =>
                (record.keys.lookup path).isNone && (synced.1.get path).isNone) = true then
            some (added.1.render existing, { record with baseUrl := client.baseUrl origin, keys := added.2 })
          else none := by
        rw [addedIs, syncedIs, movedIs]
        simp only [planSync, kept, if_true]
        rfl
      rw [whole] at plan
      split at plan
      · obtain ⟨rfl, rfl⟩ := Prod.mk.inj (Option.some.inj plan)
        exact ⟨rfl, rfl⟩
      · cases plan
    obtain ⟨rfl, rfl⟩ := result
    have view (path : String) : syncView added path =
        (update ((Config.parse existing).copies path) (client.index path)
            (afterSync sha256 record moved client.addedKeys path (valueOf existing path)).1,
          (afterSync sha256 record moved client.addedKeys path (valueOf existing path)).2) := by
      have first : syncView synced path =
          (update ((Config.parse existing).copies path) (client.index path)
              (setTo sha256 (moved.lookup path) (valueOf existing path, record.keys.lookup path)).1,
            (setTo sha256 (moved.lookup path) (valueOf existing path, record.keys.lookup path)).2) :=
        syncedIs ▸ view_syncKeys moved _ path
      have get : synced.1.get path =
          (setTo sha256 (moved.lookup path) (valueOf existing path, record.keys.lookup path)).1 := by
        change (syncView synced path).1 (client.index path) = _
        rw [first]
        exact Function.update_self _ _ _
      have mark : synced.2.lookup path =
          (setTo sha256 (moved.lookup path) (valueOf existing path, record.keys.lookup path)).2 :=
        congrArg Prod.snd first
      have copies : synced.1.copies path = _ := congrArg Prod.fst first
      rw [addedIs, view_addKeys, get, mark, first, copies]
      simp only [afterSync]
      split
      · rfl
      · simp [Function.update_idem]
    have base : Traces (fun place => parse (existing place)) (Config.parse existing : Config client) := fun _ _ => rfl
    have traces : Traces (fun place => parse (existing place)) added.1 := by
      rw [addedIs, syncedIs]
      refine List.foldlRecOn (motive := fun synced : Config client × Table String String =>
        Traces (fun place => parse (existing place)) synced.1) _ _ ?_ (fun synced kept path _ => ?_)
      · refine List.foldlRecOn (motive := fun synced : Config client × Table String String =>
          Traces (fun place => parse (existing place)) synced.1) _ _ base (fun synced kept path _ => ?_)
        exact traces_syncKey kept path
      · unfold addKey
        split
        · exact kept
        · exact traces_syncKey kept path
    have sets : SetKeys (fun path => moved.lookup path ≠ none ∨ client.addedKeys.lookup path ≠ none) added.1 := by
      have none : SetKeys (fun path => moved.lookup path ≠ none ∨ client.addedKeys.lookup path ≠ none)
          (Config.parse existing : Config client) := fun place changed => by simp [Config.parse] at changed
      rw [addedIs, syncedIs]
      refine List.foldlRecOn (motive := fun synced : Config client × Table String String =>
        SetKeys _ synced.1) _ _ ?_ (fun synced kept path _ => ?_)
      · refine List.foldlRecOn (motive := fun synced : Config client × Table String String =>
          SetKeys _ synced.1) _ _ none (fun synced kept path _ => ?_)
        exact sets_syncKey kept path (fun held => .inl held)
      · unfold addKey
        split
        · exact kept
        · exact sets_syncKey kept path (fun held => .inr held)
    have values (place : client.Place) (path : String) :
        (parse (written (existing place) (added.1.render existing place))).lookup path =
          if client.index path = place then
            (afterSync sha256 record moved client.addedKeys path (valueOf existing path)).1
          else (parse (existing place)).lookup path := by
      rw [parse_written, parse_contents traces]
      change (syncView added path).1 place = _
      rw [view path]
      by_cases here : client.index path = place
      · subst here
        simp
      · simp [here, Ne.symm here, Config.copies, Config.parse]
    subst movedIs
    refine ⟨kept, rfl, fun place => rfl, fun path => congrArg Prod.snd (view path), values, fun place => ?_⟩
    cases changed : added.1.changed place with
    | false =>
      left
      unfold written Config.render
      simp [changed]
    | true =>
      obtain ⟨path, here, held, set⟩ := sets place changed
      refine .inr ⟨path, here, ?_, set⟩
      rw [parse_written, parse_contents traces]
      subst here
      exact held

end

end AstrLink.ClientWrites
