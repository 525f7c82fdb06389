import AstrLink.ClientConfig

/-!
Removing what AstrLink wrote for a client. A write that fails leaves the files before it restored, and the
next removal decides by the connection keys whether the rest is still AstrLink's to restore.
-/
namespace AstrLink.Disconnect
open Tables ClientConfig List
open Function (update)

section
variable {Choice : Type} {client : ClientSpec Choice}

/-- One of the writes of a removal that rewrites so many files. -/
inductive Write (files : Nat) where
  | file (place : Fin files)
  | records
deriving DecidableEq

abbrev ClientWrite (client : ClientSpec Choice) : Type := Write (client.companions + 1)

/-- The loop of `remove`, which ends at the write that fails. -/
def removeFiles (fault : Option (ClientWrite client)) (removals : client.Place → Removal) :
    List client.Place → client.Files → client.Files × Bool
  | [], files => (files, true)
  | place :: rest, files =>
    match removals place with
    | .unchanged => removeFiles fault removals rest files
    | .write contents =>
      if fault = some (.file place) then (files, false)
      else removeFiles fault removals rest (update files place (some contents))
    | .delete =>
      if fault = some (.file place) then (files, false)
      else removeFiles fault removals rest (update files place none)

variable (sha256 : String → String)

/-- A removal, and whether it succeeded; `fault` is the write that fails. -/
def remove (fault : Option (ClientWrite client)) (world : World client) : World client × Bool :=
  match world.record with
  | none => (world, true)
  | some record =>
    let (files, written) :=
      removeFiles fault (planRestore sha256 world.files record) (List.finRange _) world.files
    if written then
      if fault = some .records then ({ world with files }, false) else ({ files, record := none }, true)
    else ({ world with files }, false)

def removals (world : World client) : List (ClientWrite client) → World client
  | [] => world
  | fault :: rest => removals (remove sha256 (some fault) world).1 rest

/-- Nothing in the file is to be put back. -/
def Settled (record : ClientRecord) (files : client.Files) (place : client.Place) : Prop :=
  ∀ path, client.index path = place → wanted sha256 record path (valueOf files path) = valueOf files path

/-- AstrLink created the file, and what is to be put back leaves nothing in it. -/
structure Emptied (record : ClientRecord) (files : client.Files) (place : client.Place) : Prop where
  created : created record place = true
  moved : ¬ Settled sha256 record files place
  others : ∀ path, client.index path ≠ place → (parse (files place)).lookup path ≠ none →
    (client.files place).ignored path = true
  own : ∀ path, client.index path = place → wanted sha256 record path (valueOf files path) ≠ none →
    (client.files place).ignored path = true

/-- The file is gone if it was AstrLink's, and otherwise each key has what is wanted there. -/
structure Restored (record : ClientRecord) (before : client.Files) (place : client.Place) (after : Option Text) :
    Prop where
  gone : Emptied sha256 record before place → after = none
  values : ¬ Emptied sha256 record before place → ∀ path, (parse after).lookup path =
    if client.index path = place then wanted sha256 record path (valueOf before path)
    else (parse (before place)).lookup path
  stays : ¬ Emptied sha256 record before place → before place ≠ none → after ≠ none

structure Completed (record : ClientRecord) (before : client.Files) (after : World client) : Prop where
  dropped : after.record = none
  restored : ∀ place, Restored sha256 record before place (after.files place)

def Recovers (record : ClientRecord) (before after : World client) : Prop :=
  after = before ∨ Completed sha256 record before.files (remove sha256 none after).1

/-- AstrLink replaced no key that an empty file may still have. -/
def OwnKeys (client : ClientSpec Choice) (record : ClientRecord) : Prop :=
  ∀ path, record.backup.lookup path ≠ none → (client.files (client.index path)).ignored path = false

/-- The keys that decide whether the connection is still AstrLink's. -/
def connectionPaths (client : ClientSpec Choice) (record : ClientRecord) : List String :=
  client.connectionKeys ++ record.keys.keys.filter client.holdsConnection

/-- What is put back at the key reads as what AstrLink wrote. -/
def Recognised (record : ClientRecord) (path : String) : Prop :=
  ∃ original, record.backup.lookup path = some original ∧ record.keys.lookup path = some (sha256 original)

/-- A removal in which this write fails can be taken up again. -/
def Resumable (record : ClientRecord) (files : client.Files) : ClientWrite client → Prop
  | .records => True
  | .file failed =>
    (∀ place, place < failed → Settled sha256 record files place) ∨
      ∀ path ∈ connectionPaths client record, client.index path < failed → Recognised sha256 record path

variable {sha256} {record : ClientRecord} {world : World client} {path : String}

variable {files : client.Files}

theorem connectionKept_iff :
    connectionKept sha256 (Config.parse files) record = true ↔
      ∀ path ∈ connectionPaths client record,
        ∃ value, valueOf files path = some (some value) ∧ record.keys.lookup path = some (sha256 value) := by
  rw [connectionKept, all_eq_true]
  exact forall₂_congr (fun path _ => writtenByUs_iff)

/-! ### One removal -/

/-- What a file holds once the removal of it is written. -/
def leaves : Removal → Option Text → Option Text
  | .unchanged, file => file
  | .write contents, _ => some contents
  | .delete, _ => none

theorem lookup_restoreAll (files : client.Files) (place : client.Place) (path : String) :
    ((restoreAll sha256 record (Config.parse files)).documents place).lookup path =
      if client.index path = place then wanted sha256 record path (valueOf files path)
      else (parse (files place)).lookup path := by
  have copies := congrFun (copies_restoreAll sha256 record (Config.parse files) path) place
  by_cases here : client.index path = place
  · subst here
    rw [if_pos rfl]
    simpa [Config.copies, valueOf] using copies
  · rw [if_neg here]
    simpa [Config.copies, Config.parse, Ne.symm here] using copies

theorem changed_iff (sha256 : String → String) (record : ClientRecord) (files : client.Files) (place : client.Place) :
    (restoreAll sha256 record (Config.parse files)).changed place = true ↔ ¬ Settled sha256 record files place := by
  rw [changed_restoreAll]
  simp [Config.parse, Settled, valueOf]

theorem emptied_iff {place : client.Place} (moved : ¬ Settled sha256 record files place) :
    Emptied sha256 record files place ↔ created record place = true ∧
      (client.files place).isEmpty ((restoreAll sha256 record (Config.parse files)).documents place) = true := by
  rw [ConfigFile.isEmpty_iff]
  constructor
  · rintro ⟨made, _, others, own⟩
    refine ⟨made, fun path held => ?_⟩
    rw [lookup_restoreAll] at held
    by_cases here : client.index path = place
    · rw [if_pos here] at held
      exact own path here held
    · rw [if_neg here] at held
      exact others path here held
  · rintro ⟨made, empty⟩
    refine ⟨made, moved, fun path there held => empty path ?_, fun path here held => empty path ?_⟩
    · rwa [lookup_restoreAll, if_neg there]
    · rwa [lookup_restoreAll, if_pos here]

theorem planRestore_unchanged (kept : connectionKept sha256 (Config.parse files) record = true) (place : client.Place) :
    planRestore sha256 files record place = .unchanged ↔ Settled sha256 record files place := by
  have changed := changed_iff sha256 record files place
  simp only [planRestore, kept, if_true]
  cases mark : (restoreAll sha256 record (Config.parse files)).changed place with
  | false =>
    have settled : Settled sha256 record files place := by
      by_contra moved
      simp [changed.mpr moved] at mark
    simp [settled]
  | true =>
    have moved : ¬ Settled sha256 record files place := changed.mp mark
    simp only [Bool.not_true, Bool.false_eq_true, if_false, moved, iff_false]
    split <;> simp

theorem restored_of_settled {place : client.Place} (settled : Settled sha256 record files place) :
    Restored sha256 record files place (files place) where
  gone emptied := absurd settled emptied.moved
  values _ path := by
    split
    · next here =>
      subst here
      exact (settled path rfl).symm
    · rfl
  stays _ present := present

theorem planRestore_restored (kept : connectionKept sha256 (Config.parse files) record = true) (place : client.Place) :
    Restored sha256 record files place (leaves (planRestore sha256 files record place) (files place)) := by
  by_cases settled : Settled sha256 record files place
  · rw [(planRestore_unchanged kept place).mpr settled]
    exact restored_of_settled settled
  · have mark := (changed_iff sha256 record files place).mpr settled
    have emptied := emptied_iff settled
    simp only [planRestore, kept, if_true, mark, Bool.not_true, Bool.false_eq_true, if_false]
    by_cases empty : Emptied sha256 record files place
    · have both := emptied.mp empty
      rw [if_pos (by simp [both.1, both.2])]
      exact ⟨fun _ => rfl, fun stays => absurd empty stays, fun stays => absurd empty stays⟩
    · rw [if_neg (fun both => empty (emptied.mpr (by simpa using both)))]
      refine ⟨fun emptied => absurd emptied empty, fun _ path => ?_, fun _ _ => by simp [leaves]⟩
      rw [leaves, parse_render, lookup_restoreAll]

theorem planRestore_left (kept : connectionKept sha256 (Config.parse files) record = false) :
    planRestore sha256 files record = fun _ => .unchanged := by
  simp [planRestore, kept]

variable {fault : Option (ClientWrite client)}

theorem removeFiles_unchanged {removals : client.Place → Removal} {place : client.Place} (rest : List client.Place)
    (files : client.Files) (unchanged : removals place = .unchanged) :
    removeFiles fault removals (place :: rest) files = removeFiles fault removals rest files := by
  simp [removeFiles, unchanged]

theorem removeFiles_written {removals : client.Place → Removal} {place : client.Place} (rest : List client.Place)
    (files : client.Files) (written : removals place ≠ .unchanged) (free : fault ≠ some (.file place)) :
    removeFiles fault removals (place :: rest) files =
      removeFiles fault removals rest (update files place (leaves (removals place) (files place))) := by
  cases removal : removals place with
  | unchanged => exact absurd removal written
  | write contents => simp [removeFiles, removal, free, leaves]
  | delete => simp [removeFiles, removal, free, leaves]

theorem removeFiles_failed {removals : client.Place → Removal} {place : client.Place} (rest : List client.Place)
    (files : client.Files) (written : removals place ≠ .unchanged) (failing : fault = some (.file place)) :
    removeFiles fault removals (place :: rest) files = (files, false) := by
  cases removal : removals place with
  | unchanged => exact absurd removal written
  | write contents => simp [removeFiles, removal, failing]
  | delete => simp [removeFiles, removal, failing]

theorem removeFiles_all {removals : client.Place → Removal} {places : List client.Place} (nodup : places.Nodup)
    (files : client.Files) (free : ∀ place ∈ places, removals place ≠ .unchanged → fault ≠ some (.file place)) :
    removeFiles fault removals places files =
      (fun place => if place ∈ places then leaves (removals place) (files place) else files place, true) := by
  induction places generalizing files with
  | nil => simp [removeFiles]
  | cons head rest ih =>
    obtain ⟨absent, nodup⟩ := nodup_cons.mp nodup
    have later := fun place listed => free place (mem_cons_of_mem _ listed)
    by_cases unchanged : removals head = .unchanged
    · rw [removeFiles_unchanged rest files unchanged, ih nodup files later]
      congr 1
      funext place
      by_cases same : place = head
      · subst same
        simp [absent, unchanged, leaves]
      · simp [same]
    · rw [removeFiles_written rest files unchanged (free head (by simp) unchanged), ih nodup _ later]
      congr 1
      funext place
      by_cases same : place = head
      · subst same
        simp [absent]
      · simp [same]

theorem removeFiles_until {removals : client.Place → Removal} {failed : client.Place} {places : List client.Place}
    (sorted : places.Pairwise (· < ·)) (files : client.Files) (listed : failed ∈ places)
    (written : removals failed ≠ .unchanged) :
    removeFiles (some (.file failed)) removals places files =
      (fun place => if place ∈ places ∧ place < failed then leaves (removals place) (files place) else files place,
        false) := by
  induction places generalizing files with
  | nil => simp at listed
  | cons head rest ih =>
    obtain ⟨before, sorted⟩ := pairwise_cons.mp sorted
    rcases mem_cons.mp listed with rfl | listed
    · rw [removeFiles_failed rest files written rfl]
      congr 1
      funext place
      rw [if_neg]
      rintro ⟨listed, earlier⟩
      rcases mem_cons.mp listed with rfl | listed
      · exact lt_irrefl _ earlier
      · exact lt_asymm earlier (before place listed)
    · have earlier := before failed listed
      have absent : head ∉ rest := fun again => lt_irrefl _ (before head again)
      by_cases unchanged : removals head = .unchanged
      · rw [removeFiles_unchanged rest files unchanged, ih sorted files listed]
        congr 1
        funext place
        by_cases same : place = head
        · subst same
          simp [absent, unchanged, leaves]
        · simp [same]
      · have free : some (Write.file failed) ≠ some (Write.file head) := by
          simpa using ne_of_gt earlier
        rw [removeFiles_written rest files unchanged free, ih sorted _ listed]
        congr 1
        funext place
        by_cases same : place = head
        · subst same
          simp [absent, earlier]
        · simp [same]

def brokenOff (removals : client.Place → Removal) (files : client.Files) (failed : client.Place) : client.Files :=
  fun place => if place < failed then leaves (removals place) (files place) else files place

theorem remove_whole (fault : Option (ClientWrite client)) (saved : world.record = some record)
    (free : ∀ place, planRestore sha256 world.files record place ≠ .unchanged → fault ≠ some (.file place)) :
    remove sha256 fault world =
      let files := fun place => leaves (planRestore sha256 world.files record place) (world.files place)
      if fault = some .records then ({ files, record := some record }, false)
      else ({ files, record := none }, true) := by
  have all := removeFiles_all (nodup_finRange _) world.files (fun place _ => free place)
  simp only [remove, saved, all, mem_finRange, if_true]

theorem remove_failed {fault : ClientWrite client} (saved : world.record = some record)
    (failed : (remove sha256 (some fault) world).2 = false) :
    (fault = .records ∧ (remove sha256 (some fault) world).1 =
        { files := fun place => leaves (planRestore sha256 world.files record place) (world.files place),
          record := some record }) ∨
      ∃ place, fault = .file place ∧ planRestore sha256 world.files record place ≠ .unchanged ∧
        (remove sha256 (some fault) world).1 =
          { files := brokenOff (planRestore sha256 world.files record) world.files place, record := some record } := by
  cases fault with
  | records =>
    refine .inl ⟨rfl, ?_⟩
    rw [remove_whole _ saved (fun place _ => by simp)]
    simp
  | file place =>
    by_cases unchanged : planRestore sha256 world.files record place = .unchanged
    · have free (other : client.Place) (written : planRestore sha256 world.files record other ≠ .unchanged) :
          some (Write.file place) ≠ some (.file other) := by
        intro same
        rw [Option.some.injEq, Write.file.injEq] at same
        exact written (same ▸ unchanged)
      rw [remove_whole (some (.file place)) saved free] at failed
      simp at failed
    · refine .inr ⟨place, rfl, unchanged, ?_⟩
      have broke := removeFiles_until (pairwise_lt_finRange _) world.files (mem_finRange place) unchanged
      simp only [remove, saved, broke, mem_finRange, true_and, Bool.false_eq_true, if_false]
      rfl

/-! ### Taking a removal up again -/

section
variable {before after : client.Files} {place : client.Place}

section
variable (same : after place = before place)
include same

theorem valueOf_congr (here : client.index path = place) :
    valueOf after path = valueOf before path := by
  subst here
  rw [valueOf_eq, valueOf_eq, same]

theorem settled_congr :
    Settled sha256 record after place ↔ Settled sha256 record before place := by
  refine forall₂_congr (fun path here => ?_)
  rw [valueOf_congr same here]

theorem emptied_congr :
    Emptied sha256 record after place ↔ Emptied sha256 record before place := by
  constructor
  · rintro ⟨made, moved, others, own⟩
    rw [same] at others
    refine ⟨made, mt (settled_congr same).mpr moved, others, fun path here => ?_⟩
    rw [← valueOf_congr same here]
    exact own path here
  · rintro ⟨made, moved, others, own⟩
    rw [← same] at others
    refine ⟨made, mt (settled_congr same).mp moved, others, fun path here => ?_⟩
    rw [valueOf_congr same here]
    exact own path here

theorem Restored.congr {file : Option Text}
    (restored : Restored sha256 record after place file) : Restored sha256 record before place file where
  gone emptied := restored.gone ((emptied_congr same).mpr emptied)
  values kept path := by
    rw [restored.values (mt (emptied_congr same).mp kept) path]
    split
    · next here => rw [valueOf_congr same here]
    · rw [same]
  stays kept present := restored.stays (mt (emptied_congr same).mp kept) (by rwa [same])

end

theorem Emptied.unlisted (own : OwnKeys client record) (emptied : Emptied sha256 record before place)
    (here : client.index path = place) (unlisted : record.keys.lookup path = none) : record.backup.lookup path = none := by
  by_contra kept
  have held : wanted sha256 record path (valueOf before path) ≠ none := by
    rw [wanted_unlisted unlisted]
    split
    · simpa using kept
    · assumption
  have ignored := emptied.own path here held
  rw [← here, own path kept] at ignored
  cases ignored

theorem Restored.settled (own : OwnKeys client record) (restored : Restored sha256 record before place (after place)) :
    Settled sha256 record after place := by
  intro path here
  by_cases emptied : Emptied sha256 record before place
  · have gone : valueOf after path = none := by
      rw [valueOf_eq, here, restored.gone emptied]
      rfl
    rw [gone]
    by_cases unlisted : record.keys.lookup path = none
    · rw [wanted_unlisted unlisted, emptied.unlisted own here unlisted]
      rfl
    · exact wanted_foreign unlisted (by cases h : record.keys.lookup path <;> simp [writtenByUs, h])
  · have value : valueOf after path = wanted sha256 record path (valueOf before path) := by
      rw [valueOf_eq, here, restored.values emptied path, if_pos here]
    rw [value]
    exact wanted_wanted

end

def Midway (sha256 : String → String) (record : ClientRecord) (before after : client.Files) : Prop :=
  ∀ place, after place = before place ∨ Restored sha256 record before place (after place)

section
variable {before after : client.Files}

theorem Midway.completes (own : OwnKeys client record) (midway : Midway sha256 record before after)
    (kept : connectionKept sha256 (Config.parse after) record = true) (place : client.Place) :
    Restored sha256 record before place (leaves (planRestore sha256 after record place) (after place)) := by
  rcases midway place with same | restored
  · exact (planRestore_restored kept place).congr same
  · rw [(planRestore_unchanged kept place).mpr (restored.settled own)]
    exact restored

theorem recognised_iff (own : OwnKeys client record) (kept : connectionKept sha256 (Config.parse before) record = true)
    {place : client.Place} (restored : Restored sha256 record before place (after place)) {path : String}
    (here : client.index path = place) (decides : path ∈ connectionPaths client record) :
    (∃ value, valueOf after path = some (some value) ∧ record.keys.lookup path = some (sha256 value)) ↔
      Recognised sha256 record path := by
  have written := writtenByUs_iff.mpr (connectionKept_iff.mp kept path decides)
  have back : wanted sha256 record path (valueOf before path) = (record.backup.lookup path).map some :=
    wanted_written written
  by_cases emptied : Emptied sha256 record before place
  · have gone : valueOf after path = none := by
      rw [valueOf_eq, here, restored.gone emptied]
      rfl
    constructor
    · rintro ⟨value, held, _⟩
      rw [gone] at held
      cases held
    · rintro ⟨original, replaced, _⟩
      have ignored := emptied.own path here (by rw [back, replaced]; simp)
      rw [← here, own path (by simp [replaced])] at ignored
      cases ignored
  · have value : valueOf after path = (record.backup.lookup path).map some := by
      rw [valueOf_eq, here, restored.values emptied path, if_pos here, back]
    rw [value]
    constructor
    · rintro ⟨original, held, known⟩
      obtain ⟨found, replaced, same⟩ := Option.map_eq_some_iff.mp held
      exact ⟨original, by rw [replaced, Option.some.inj same], known⟩
    · rintro ⟨original, replaced, known⟩
      exact ⟨original, by rw [replaced]; rfl, known⟩

end

/-- Every removal of the run fails, at a write it can be taken up after. -/
def Resumed (sha256 : String → String) (record : ClientRecord) (world : World client) : List (ClientWrite client) → Prop
  | [] => True
  | fault :: rest =>
    (remove sha256 (some fault) world).2 = false ∧ Resumable sha256 record world.files fault ∧
      Resumed sha256 record (remove sha256 (some fault) world).1 rest

/-- What removals that failed leave of the files and the record they began with. -/
structure Interrupted (sha256 : String → String) (record : ClientRecord) (before after : World client) : Prop where
  saved : after.record = some record
  begun : after = before ∨ connectionKept sha256 (Config.parse before.files) record = true ∧
    Midway sha256 record before.files after.files ∧
      (connectionKept sha256 (Config.parse after.files) record = true ∨
        ∀ place, Restored sha256 record before.files place (after.files place))

section
variable {before after : World client}

theorem remove_left (saved : world.record = some record)
    (lost : connectionKept sha256 (Config.parse world.files) record = false) (fault : Option (ClientWrite client)) :
    remove sha256 fault world =
      if fault = some .records then (world, false) else ({ world with record := none }, true) := by
  have left := planRestore_left lost
  have whole := remove_whole fault saved (fun place written => absurd (congrFun left place) written)
  rw [whole, left]
  simp only [leaves, ← saved]

theorem Interrupted.midway (interrupted : Interrupted sha256 record before after)
    (kept : connectionKept sha256 (Config.parse after.files) record = true) :
    connectionKept sha256 (Config.parse before.files) record = true ∧ Midway sha256 record before.files after.files := by
  rcases interrupted.begun with rfl | ⟨first, midway, _⟩
  · exact ⟨kept, fun place => .inl rfl⟩
  · exact ⟨first, midway⟩

theorem brokenOff_settled {failed : client.Place} (kept : connectionKept sha256 (Config.parse files) record = true)
    (settled : ∀ place, place < failed → Settled sha256 record files place) :
    brokenOff (planRestore sha256 files record) files failed = files := by
  funext place
  unfold brokenOff
  split
  · next earlier => rw [(planRestore_unchanged kept place).mpr (settled place earlier), leaves]
  · rfl

section
variable (own : OwnKeys client record)
include own

theorem brokenOff_kept {files : client.Files} {failed : client.Place}
    (kept : connectionKept sha256 (Config.parse files) record = true) :
    connectionKept sha256 (Config.parse (brokenOff (planRestore sha256 files record) files failed)) record = true ↔
      ∀ path ∈ connectionPaths client record, client.index path < failed → Recognised sha256 record path := by
  rw [connectionKept_iff]
  refine forall₂_congr (fun path decides => ?_)
  by_cases earlier : client.index path < failed
  · have restored : Restored sha256 record files (client.index path)
        (brokenOff (planRestore sha256 files record) files failed (client.index path)) := by
      rw [brokenOff, if_pos earlier]
      exact planRestore_restored kept _
    rw [recognised_iff own kept restored rfl decides]
    exact ⟨fun known _ => known, fun known => known earlier⟩
  · have same : valueOf (brokenOff (planRestore sha256 files record) files failed) path = valueOf files path :=
      valueOf_congr (by rw [brokenOff, if_neg earlier]) rfl
    rw [same]
    exact ⟨fun _ now => absurd now earlier, fun _ => connectionKept_iff.mp kept path decides⟩

section
variable (interrupted : Interrupted sha256 record before after)
include interrupted

theorem Interrupted.step
    {fault : ClientWrite client} (failed : (remove sha256 (some fault) after).2 = false)
    (resumable : Resumable sha256 record after.files fault) :
    Interrupted sha256 record before (remove sha256 (some fault) after).1 := by
  cases kept : connectionKept sha256 (Config.parse after.files) record with
  | false =>
    rw [remove_left interrupted.saved kept] at failed ⊢
    split
    · exact interrupted
    · next done => simp [done] at failed
  | true =>
    obtain ⟨first, midway⟩ := interrupted.midway kept
    rcases remove_failed interrupted.saved failed with ⟨rfl, next⟩ | ⟨place, rfl, written, next⟩
    · rw [next]
      have restored := midway.completes own kept
      exact ⟨rfl, .inr ⟨first, fun place => .inr (restored place), .inr restored⟩⟩
    · rw [next]
      refine ⟨rfl, .inr ⟨first, fun other => ?_, .inl ?_⟩⟩
      · change brokenOff _ _ _ other = _ ∨ Restored _ _ _ _ (brokenOff _ _ _ other)
        unfold brokenOff
        split
        · exact .inr (midway.completes own kept other)
        · exact midway other
      · rcases resumable with settled | recognised
        · rwa [brokenOff_settled kept settled]
        · exact (brokenOff_kept own kept).mpr recognised

theorem Interrupted.run
    {faults : List (ClientWrite client)} (resumed : Resumed sha256 record after faults) :
    Interrupted sha256 record before (removals sha256 after faults) := by
  induction faults generalizing after with
  | nil => exact interrupted
  | cons fault rest ih =>
    obtain ⟨failed, resumable, rest⟩ := resumed
    exact ih (interrupted.step own failed resumable) rest

theorem Interrupted.recovers :
    Recovers sha256 record before after := by
  rcases interrupted.begun with same | ⟨first, midway, state⟩
  · exact .inl same
  · refine .inr ?_
    cases kept : connectionKept sha256 (Config.parse after.files) record with
    | true =>
      rw [remove_whole _ interrupted.saved (by simp), if_neg (by simp)]
      exact ⟨rfl, midway.completes own kept⟩
    | false =>
      rw [remove_left interrupted.saved kept, if_neg (by simp)]
      rcases state with again | restored
      · rw [kept] at again
        cases again
      · exact ⟨rfl, restored⟩

end

theorem not_recovers (saved : world.record = some record)
    {fault : ClientWrite client} (failed : (remove sha256 (some fault) world).2 = false)
    (stuck : ¬ Resumable sha256 record world.files fault) :
    ¬ Recovers sha256 record world (remove sha256 (some fault) world).1 := by
  cases kept : connectionKept sha256 (Config.parse world.files) record with
  | false =>
    rw [remove_left saved kept] at failed
    split at failed
    · next records =>
      rw [Option.some.inj records] at stuck
      exact absurd trivial stuck
    · cases failed
  | true =>
    rcases remove_failed saved failed with ⟨rfl, _⟩ | ⟨place, rfl, written, next⟩
    · exact absurd trivial stuck
    · have moved : ¬ Settled sha256 record world.files place := mt (planRestore_unchanged kept place).mpr written
      rw [Resumable, not_or] at stuck
      obtain ⟨unsettled, unrecognised⟩ := stuck
      have lost : connectionKept sha256
          (Config.parse (brokenOff (planRestore sha256 world.files record) world.files place)) record = false := by
        rw [← Bool.not_eq_true]
        exact mt (brokenOff_kept own kept).mp unrecognised
      have here : brokenOff (planRestore sha256 world.files record) world.files place place = world.files place :=
        if_neg (lt_irrefl place)
      rw [next]
      rintro (same | completed)
      · apply unsettled
        intro other earlier
        have stays := congrFun (congrArg World.files same) other
        have restored := planRestore_restored kept other
        change brokenOff _ _ _ other = _ at stays
        rw [brokenOff, if_pos earlier] at stays
        rw [stays] at restored
        exact restored.settled own
      · rw [remove_left rfl lost, if_neg (by simp)] at completed
        have restored := completed.restored place
        change Restored _ _ _ _ (brokenOff _ _ _ place) at restored
        rw [here] at restored
        exact moved (restored.settled own)

end

end

/-- A removal whose write fails can be taken up again exactly when what failed is the record, the files before had
    nothing to be put back, or the connection keys there had the values that AstrLink wrote; after any run of such
    failures, the files and the record are as before or one removal completes them all. -/
theorem removal_resumes (sha256 : String → String) (client : ClientSpec Choice) (record : ClientRecord)
    (own : OwnKeys client record) (world : World client) (saved : world.record = some record) :
    (∀ fault, (remove sha256 (some fault) world).2 = false →
        (Recovers sha256 record world (remove sha256 (some fault) world).1 ↔
          Resumable sha256 record world.files fault)) ∧
      ∀ faults, Resumed sha256 record world faults → Recovers sha256 record world (removals sha256 world faults) := by
  have begins : Interrupted sha256 record world world := ⟨saved, .inl rfl⟩
  constructor
  · intro fault failed
    constructor
    · intro recovers
      by_contra stuck
      exact not_recovers own saved failed stuck recovers
    · intro resumable
      exact (begins.step own failed resumable).recovers own
  · intro faults resumed
    exact (begins.run own resumed).recovers own

end

def fingerprint (value : String) : String := "sha256:" ++ value

/-- What AstrLink wrote for Pi, which started with a model of Ollama. -/
def piRecord : ClientRecord where
  baseUrl := "http://127.0.0.1:18317/v1"
  keys := entries [
    ("providers.astrlink.baseUrl", fingerprint "http://127.0.0.1:18317/v1"),
    ("providers.astrlink.api", fingerprint "openai-responses"),
    ("providers.astrlink.apiKey", fingerprint "token"),
    ("defaultProvider", fingerprint "astrlink")]
  createdFile := true
  createdCompanions := []
  backup := entries [("defaultProvider", "ollama")]

def piModelsText : Document :=
  ((((∅ : Document).insert "providers.astrlink.baseUrl" (some "http://127.0.0.1:18317/v1")).insert
    "providers.astrlink.api" (some "openai-responses")).insert "providers.astrlink.apiKey" (some "token"))

def piSettingsText : Document :=
  (∅ : Document).insert "defaultProvider" (some "astrlink")

def piWorld : World Pi where
  files := ![some (.holds piModelsText), some (.holds piSettingsText)]
  record := some piRecord

theorem pi_own : OwnKeys Pi piRecord :=
  fun path _ => pi_counted path

theorem pi_resumes : Recovers fingerprint piRecord piWorld (removals fingerprint piWorld [.file 0, .records]) :=
  (removal_resumes fingerprint Pi piRecord pi_own piWorld rfl).2 [.file 0, .records]
    ⟨by decide +kernel, .inl (fun place earlier => absurd earlier (Fin.not_lt_zero place)), by decide +kernel, trivial,
      trivial⟩

/-- When the settings cannot be written, the endpoint is gone, and the retry forgets the model Pi started with. -/
theorem pi_forgets :
    (remove fingerprint (some (.file 1)) piWorld).2 = false ∧
      ¬ Recovers fingerprint piRecord piWorld (remove fingerprint (some (.file 1)) piWorld).1 := by
  refine ⟨by decide +kernel, ?_⟩
  rintro (same | completed)
  · have models : (remove fingerprint (some (.file 1)) piWorld).1.files 0 = none := by decide +kernel
    have before : piWorld.files 0 ≠ none := by decide +kernel
    rw [same] at models
    exact before models
  · have restored := completed.restored 1
    have kept : ¬ Emptied fingerprint piRecord piWorld.files 1 := by
      intro emptied
      have made : created piRecord (1 : Pi.Place) = false := by decide +kernel
      rw [emptied.created] at made
      cases made
    have value := restored.values kept "defaultProvider"
    revert value
    decide +kernel

end AstrLink.Disconnect
