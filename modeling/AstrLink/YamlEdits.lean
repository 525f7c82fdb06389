import AstrLink.EnvFiles
import AstrLink.YamlValues

/-!
Edits of a YAML file by a third-party editor that is not trusted: a new text counts only when it reads back as
what was worked out on the data. Along every sequence of edits the text reads as the data (`run_sound`), and
an edit changes what it addresses (`apply_effect`).
-/
namespace AstrLink.YamlEdits
open YamlValues List

/-- What the root of a file must be. -/
inductive YamlRoot where
  | mapping
  | sequence
deriving DecidableEq

structure YamlDocument (F : Type) where
  text : Text
  /-- What `text` holds. -/
  value : Value F
  root : YamlRoot

def unsafeEdit : String := "has YAML AstrLink cannot change without touching the rest of the file"

/-- An edit as it is asked of the editor, of JSON data `J`. -/
inductive Edit (J : Type) where
  | set (parent : List Step) (key : Text) (value : J) (rank : Text → Nat)
  | push (parent : List Step) (value : J) (rank : Text → Nat) (emptyRoot : Bool)
  | remove (path : List Step)

/-- The reader, the data of a JSON value, and what the editor makes of a text. -/
structure Yaml (F J : Type) where
  read : Text → Except (Option Nat) (Value F)
  yamlValue : J → Except String (Value F)
  emptyObject : J
  kept : Text → Bool
  edited : Edit J → Text → Option (Except String Text)

variable {last : Step}

section
variable {F J : Type} (yaml : Yaml F J)

def emptyRoot : Value F → Bool
  | .null => true
  | .mapping entries => entries.isEmpty
  | _ => false

def same [DecidableEq F] (one other : Value F) : Bool := one.equal other || emptyRoot one && emptyRoot other

/-- `str::lines` -/
def lines (text : Text) : List Text :=
  let parts := text.splitOn '\n'
  parts.dropLast.map EnvFiles.stripReturn ++ if parts.getLast? = some [] then [] else parts.getLast?.toList

def hasMarker (text : Text) : Bool :=
  (lines text).any fun line => line == "---".toList || "--- ".toList.isPrefixOf line

def bareLineFeed (returned : Bool) : Text → Bool
  | [] => false
  | char :: rest => char == '\n' && !returned || bareLineFeed (char == '\r') rest

def isComment (line : Text) : Bool := (EnvFiles.trimStart line).head? == some '#'

def fits (value : Value F) (root : YamlRoot) : Bool :=
  match value, root with
  | .null, _ => true
  | .mapping _, .mapping => true
  | .sequence _, .sequence => true
  | _, _ => false

def parse (text : Text) (root : YamlRoot) : Except (String × Option Nat) (YamlDocument F) :=
  match yaml.read text with
  | .error line => .error ("is not valid YAML", line)
  | .ok value =>
    if fits value root then
      if yaml.kept text then .ok ⟨text, value, root⟩ else .error (unsafeEdit, none)
    else
      match root with
      | .mapping => .error ("is not a YAML mapping", none)
      | .sequence => .error ("is not a YAML list", none)

/-- Whether the text of an edit may take the place of the one before. -/
def keeps [DecidableEq F] (text out : Text) (expected : Value F) (additions : Bool) : Bool :=
  (match yaml.read out with
    | .ok value => same value expected
    | .error _ => false) &&
  !(EnvFiles.hasCRLF text && bareLineFeed false out) &&
  (hasMarker text || !hasMarker out) &&
  (!additions || ((lines text).filter isComment).all fun comment => (lines out).any (· == comment))

abbrev Edited (F : Type) := YamlDocument F × Except String Unit

namespace YamlDocument

def edit [DecidableEq F] (document : YamlDocument F) (expected : Value F) (additions : Bool) (out : Option (Except String Text)) :
    Edited F :=
  match out with
  | none => (document, .error unsafeEdit)
  | some (.error failure) => (document, .error failure)
  | some (.ok out) =>
    if keeps yaml document.text out expected additions then ({ document with text := out, value := expected }, .ok ())
    else (document, .error unsafeEdit)

/-- The value that an edit of a container starts from: an empty root becomes the container. -/
def rooted (document : YamlDocument F) (parent : List Step) (root : YamlRoot) (empty : Value F) :
    Except String (Value F) :=
  if parent = [] ∧ document.value.untag.isNull = true then
    if document.root = root then .ok empty else .error unsafeEdit
  else .ok document.value

end YamlDocument

def insertEntry (name : Text) (value : Value F) : List (Entry F) → List (Entry F)
  | [] => [.mk (.string name) value]
  | entry :: entries =>
    if entry.named name then .mk entry.key value :: entries else entry :: insertEntry name value entries

def insertAt (name : Text) (value : Except String (Value F)) (container : Value F) : Except String (Value F) :=
  match container.untag with
  | .mapping entries =>
    match value with
    | .error failure => .error failure
    | .ok value => .ok (container.retag (.mapping (insertEntry name value entries)))
  | _ => .error unsafeEdit

def pushAt (value : Except String (Value F)) (container : Value F) : Except String (Value F) :=
  match container.untag with
  | .sequence items =>
    match value with
    | .error failure => .error failure
    | .ok value => .ok (container.retag (.sequence (items ++ [value])))
  | _ => .error unsafeEdit

def removeAt (last : Step) (container : Value F) : Except String (Value F) :=
  match last, container.untag with
  | .key name, .mapping entries => .ok (container.retag (.mapping (entries.filter fun entry => !entry.named name)))
  | .index place, .sequence items => .ok (container.retag (.sequence (items.eraseIdx place)))
  | _, _ => .error unsafeEdit

namespace YamlDocument

def set [DecidableEq F] (document : YamlDocument F) (parent : List Step) (key : Text) (value : J) (rank : Text → Nat) : Edited F :=
  match document.rooted parent .mapping (.mapping []) with
  | .error failure => (document, .error failure)
  | .ok started =>
    match updateAt (insertAt key (yaml.yamlValue value)) unsafeEdit parent started with
    | .error failure => (document, .error failure)
    | .ok expected => document.edit yaml expected true (yaml.edited (.set parent key value rank) document.text)

def push [DecidableEq F] (document : YamlDocument F) (parent : List Step) (value : J) (rank : Text → Nat) : Edited F :=
  match document.rooted parent .sequence (.sequence []) with
  | .error failure => (document, .error failure)
  | .ok started =>
    match updateAt (pushAt (yaml.yamlValue value)) unsafeEdit parent started with
    | .error failure => (document, .error failure)
    | .ok expected =>
      let emptyRoot := parent.isEmpty &&
        match document.value.untag with
        | .sequence items => items.isEmpty
        | _ => true
      document.edit yaml expected true (yaml.edited (.push parent value rank emptyRoot) document.text)

/-- The name of a nested mapping of which the step is to the last key. -/
def emptied (document : YamlDocument F) (parent : List Step) (last : Step) : Option (List Step × Text) :=
  match last, parent.getLast? with
  | .key _, some (.key name) =>
    match (document.value.get parent).bind Value.asMapping with
    | some entries => if entries.length = 1 then some (parent.dropLast, name) else none
    | none => none
  | _, _ => none

def remove [DecidableEq F] (document : YamlDocument F) (path : List Step) : Edited F :=
  match path.getLast? with
  | none => (document, .ok ())
  | some last =>
    let parent := path.dropLast
    if (document.value.get path).isNone then (document, .ok ())
    else
      match document.emptied parent last with
      | some (grandparent, name) => document.set yaml grandparent name yaml.emptyObject fun _ => 0
      | none =>
        match updateAt (removeAt last) unsafeEdit parent document.value with
        | .error failure => (document, .error failure)
        | .ok expected => document.edit yaml expected false (yaml.edited (.remove path) document.text)

end YamlDocument

inductive Operation (J : Type) where
  | set (parent : List Step) (key : Text) (value : J) (rank : Text → Nat)
  | push (parent : List Step) (value : J) (rank : Text → Nat)
  | remove (path : List Step)

def YamlDocument.apply [DecidableEq F] (document : YamlDocument F) : Operation J → Edited F
  | .set parent key value rank => document.set yaml parent key value rank
  | .push parent value rank => document.push yaml parent value rank
  | .remove path => document.remove yaml path

def YamlDocument.run [DecidableEq F] (document : YamlDocument F) (operations : List (Operation J)) : YamlDocument F :=
  operations.foldl (fun document operation => (document.apply yaml operation).1) document

theorem same_refl [DecidableEq F] (value : Value F) : same value value = true := by
  rw [same, Value.equal_refl, Bool.true_or]

/-- The text reads as the data that is held. -/
def Sound [DecidableEq F] (document : YamlDocument F) : Prop :=
  ∃ value, yaml.read document.text = .ok value ∧ same value document.value = true

variable {document : YamlDocument F}

theorem parse_sound [DecidableEq F] {text : Text} {root : YamlRoot} (parsed : parse yaml text root = .ok document) :
    Sound yaml document := by
  unfold parse at parsed
  split at parsed
  · cases parsed
  · rename_i value held
    split at parsed
    · split at parsed
      · cases parsed
        exact ⟨value, held, same_refl value⟩
      · cases parsed
    · split at parsed <;> cases parsed

def Kept [DecidableEq F] (document : YamlDocument F) (expected : Value F) (after : Edited F) : Prop :=
  (after.2 = .ok () ∧ after.1.value = expected ∧ Sound yaml after.1) ∨ (after.2 ≠ .ok () ∧ after.1 = document)

theorem refused (failure : String) : (.error failure : Except String Unit) ≠ .ok () := by
  intro contra
  cases contra

theorem edit_kept [DecidableEq F] (document : YamlDocument F) (expected : Value F) (additions : Bool) (out : Option (Except String Text)) :
    Kept yaml document expected (document.edit yaml expected additions out) := by
  unfold YamlDocument.edit
  split
  · exact .inr ⟨refused _, rfl⟩
  · exact .inr ⟨refused _, rfl⟩
  · rename_i text
    split
    · rename_i kept
      refine .inl ⟨rfl, rfl, ?_⟩
      unfold keeps at kept
      simp only [Bool.and_eq_true] at kept
      have reads := kept.1.1.1
      cases held : yaml.read text with
      | error line =>
        rw [held] at reads
        cases reads
      | ok value =>
        rw [held] at reads
        exact ⟨value, held, reads⟩
    · exact .inr ⟨refused _, rfl⟩

/-- An operation fails and changes nothing, or does what was worked out. -/
structure Outcome [DecidableEq F] (document : YamlDocument F) (after : Edited F) (Expected : Value F → Prop) : Prop where
  failed : after.2 ≠ .ok () → after.1 = document
  done : after.2 = .ok () → (Sound yaml document → Sound yaml after.1) ∧ Expected after.1.value

theorem Outcome.unchanged [DecidableEq F] {Expected : Value F → Prop} (failure : String) :
    Outcome yaml document (document, .error failure) Expected :=
  ⟨fun _ => rfl, fun contra => absurd contra (refused failure)⟩

theorem Outcome.kept [DecidableEq F] {Expected : Value F → Prop} {expected : Value F} {after : Edited F}
    (kept : Kept yaml document expected after) (holds : Expected expected) : Outcome yaml document after Expected := by
  rcases kept with ⟨ok, rfl, sound⟩ | ⟨failed, unchanged⟩
  · exact ⟨fun contra => absurd ok contra, fun _ => ⟨fun _ => sound, holds⟩⟩
  · exact ⟨fun _ => unchanged, fun contra => absurd contra failed⟩

/-! ### What an operation does to the data -/

/-- A container with the value under the name, among the entries that it had. -/
def Inserted (name : Text) (value container changed : Value F) : Prop :=
  ∃ entries, container.untag = .mapping entries ∧ changed = container.retag (.mapping (insertEntry name value entries))

def Pushed (value container changed : Value F) : Prop :=
  ∃ items, container.untag = .sequence items ∧ changed = container.retag (.sequence (items ++ [value]))

/-- An empty root stands for the container. -/
def startOf (value empty : Value F) (parent : List Step) : Value F :=
  if parent = [] ∧ value.untag.isNull = true then empty else value

variable {parent : List Step}

variable {empty : Value F}

theorem rooted_ok {root : YamlRoot} {started : Value F} (ok : document.rooted parent root empty = .ok started) :
    started = startOf document.value empty parent := by
  unfold YamlDocument.rooted at ok
  unfold startOf
  split at ok
  · rename_i fresh
    split at ok
    · cases ok
      rw [if_pos fresh]
    · cases ok
  · rename_i held
    cases ok
    rw [if_neg held]

variable {name : Text} {container changed : Value F}

theorem insertAt_ok {value : Except String (Value F)} (ok : insertAt name value container = .ok changed) :
    ∃ data, value = .ok data ∧ Inserted name data container changed := by
  unfold insertAt at ok
  split at ok
  · rename_i entries mapping
    split at ok
    · cases ok
    · rename_i data
      cases ok
      exact ⟨data, rfl, entries, mapping, rfl⟩
  · cases ok

theorem pushAt_ok {value : Except String (Value F)} (ok : pushAt value container = .ok changed) :
    ∃ data, value = .ok data ∧ Pushed data container changed := by
  unfold pushAt at ok
  split at ok
  · rename_i items sequence
    split at ok
    · cases ok
    · rename_i data
      cases ok
      exact ⟨data, rfl, items, sequence, rfl⟩
  · cases ok

theorem set_outcome [DecidableEq F] (document : YamlDocument F) (parent : List Step) (key : Text) (value : J) (rank : Text → Nat) :
    Outcome yaml document (document.set yaml parent key value rank) fun new =>
      ∃ data, yaml.yamlValue value = .ok data ∧
        Within (Inserted key data) parent (startOf document.value (.mapping []) parent) new := by
  unfold YamlDocument.set
  split
  · exact .unchanged yaml _
  · rename_i started begins
    split
    · exact .unchanged yaml _
    · rename_i expected updated
      refine .kept yaml (edit_kept yaml _ _ _ _) ?_
      have within := updateAt_within updated
      obtain ⟨before, after, -, -, changed, -⟩ := within.get_at
      obtain ⟨data, held, -⟩ := insertAt_ok changed
      rw [← rooted_ok begins]
      refine ⟨data, held, within.imp fun container changed ok => ?_⟩
      obtain ⟨other, held', inserted⟩ := insertAt_ok ok
      rw [held] at held'
      obtain rfl := Except.ok.inj held'
      exact inserted

theorem push_outcome [DecidableEq F] (document : YamlDocument F) (parent : List Step) (value : J) (rank : Text → Nat) :
    Outcome yaml document (document.push yaml parent value rank) fun new =>
      ∃ data, yaml.yamlValue value = .ok data ∧
        Within (Pushed data) parent (startOf document.value (.sequence []) parent) new := by
  unfold YamlDocument.push
  split
  · exact .unchanged yaml _
  · rename_i started begins
    split
    · exact .unchanged yaml _
    · rename_i expected updated
      refine .kept yaml (edit_kept yaml _ _ _ _) ?_
      have within := updateAt_within updated
      obtain ⟨before, after, -, -, changed, -⟩ := within.get_at
      obtain ⟨data, held, -⟩ := pushAt_ok changed
      rw [← rooted_ok begins]
      refine ⟨data, held, within.imp fun container changed ok => ?_⟩
      obtain ⟨other, held', pushed⟩ := pushAt_ok ok
      rw [held] at held'
      obtain rfl := Except.ok.inj held'
      exact pushed

/-- A container without what the last step of a path leads to. -/
def Removed : Step → Value F → Value F → Prop
  | .key name, container, changed => ∃ entries, container.untag = .mapping entries ∧
      (changed = container.retag (.mapping (entries.filter fun entry => !entry.named name)) ∨
        (∃ child, entries = [.mk (.string name) child]) ∧ changed = .mapping [])
  | .index place, container, changed => ∃ items, container.untag = .sequence items ∧
      changed = container.retag (.sequence (items.eraseIdx place))

theorem removeAt_ok (ok : removeAt last container = .ok changed) : Removed last container changed := by
  unfold removeAt at ok
  split at ok
  · rename_i name entries mapping
    cases ok
    exact ⟨entries, mapping, .inl rfl⟩
  · rename_i place items sequence
    cases ok
    exact ⟨items, sequence, rfl⟩
  · cases ok

variable {child : Value F}

theorem insertEntry_here {value : Value F} {before after : List (Entry F)}
    (first : ∀ entry ∈ before, entry.named name = false) :
    insertEntry name value (before ++ .mk (.string name) child :: after) = before ++ .mk (.string name) value :: after := by
  induction before with
  | nil =>
    rw [nil_append, insertEntry, if_pos (named_here name child)]
    rfl
  | cons entry before ih =>
    rw [cons_append, insertEntry, if_neg (by rw [first entry mem_cons_self]; exact Bool.false_ne_true),
      ih fun other listed => first other (mem_cons_of_mem entry listed), cons_append]

variable {entries : List (Entry F)}

theorem find_split {found : Entry F} (search : entries.find? (Entry.named name) = some found) :
    ∃ before after, entries = before ++ .mk (.string name) found.value :: after ∧
      ∀ entry ∈ before, entry.named name = false := by
  obtain ⟨named, before, after, rfl, first⟩ := find?_eq_some_iff_append.mp search
  refine ⟨before, after, ?_, fun entry listed => by simpa using first entry listed⟩
  rw [← Entry.named_eq named]

theorem within_inserted {value old new : Value F} {change : Value F → Value F → Prop}
    (within : Within (Inserted name value) parent old new) (there : old.get (parent ++ [.key name]) = some child)
    (changed : change child value) : Within change (parent ++ [.key name]) old new := by
  induction within with
  | @here old new inserted =>
    obtain ⟨entries, mapping, rfl⟩ := inserted
    rw [nil_append, Value.get, Value.child_mapping mapping, child_key] at there
    cases found : entries.find? (Entry.named name) with
    | none =>
      rw [found] at there
      cases there
    | some entry =>
      rw [found] at there
      cases there
      obtain ⟨before, after, rfl, first⟩ := find_split found
      rw [insertEntry_here first]
      exact .key name before after mapping first (.here changed)
  | @key path old was becomes step before after mapping first within ih =>
    rw [cons_append, Value.get, Value.child_mapping mapping, child_key, find_here rfl first] at there
    exact .key step before after mapping first (ih there)
  | @index path old was becomes before after sequence within ih =>
    rw [cons_append, Value.get, Value.child_sequence sequence, child_index, item_here] at there
    exact .index before after sequence (ih there)

theorem Value.get_snoc (value : Value F) (path : List Step) (last : Step) :
    value.get (path ++ [last]) = (value.get path).bind fun container => container.child last := by
  induction path generalizing value with
  | nil =>
    rw [nil_append, Value.get, Value.get, Option.bind_some]
    cases value.child last <;> rfl
  | cons step path ih =>
    rw [cons_append, Value.get, Value.get, Option.bind_assoc]
    congr 1
    funext child
    exact ih child

/-- What a remove does, of a path that leads somewhere. -/
def Taken (path : List Step) (old new : Value F) : Prop :=
  ∃ parent last, path = parent ++ [last] ∧ Within (Removed last) parent old new

theorem asMapping_some {value : Value F} (mapping : value.asMapping = some entries) :
    value.untag = .mapping entries := by
  unfold Value.asMapping at mapping
  split at mapping
  · rename_i found
    cases mapping
    exact found
  · cases mapping

theorem emptied_some {grandparent : List Step} (found : document.emptied parent last = some (grandparent, name))
    (there : document.value.get (parent ++ [last]) = some child) :
    parent = grandparent ++ [.key name] ∧ ∃ container only key, document.value.get parent = some container ∧
      last = .key key ∧ container.untag = .mapping [.mk (.string key) only] := by
  unfold YamlDocument.emptied at found
  split at found
  · rename_i key other nested
    split at found
    · rename_i entries held
      split at found
      · rename_i one
        cases found
        refine ⟨(dropLast_append_getLast? _ nested).symm, ?_⟩
        obtain ⟨container, got, mapping⟩ := Option.bind_eq_some_iff.mp held
        have entries_of : container.untag = .mapping entries := asMapping_some mapping
        rw [Value.get_snoc, got, Option.bind_some, Value.child_mapping entries_of, child_key, Option.map_eq_some_iff] at there
        obtain ⟨entry, sought, -⟩ := there
        obtain ⟨only, rfl⟩ := length_eq_one_iff.mp one
        obtain rfl := mem_singleton.mp (mem_of_find?_eq_some sought)
        have named := find?_some sought
        refine ⟨container, entry.value, key, got, rfl, ?_⟩
        rw [← Entry.named_eq named]
        exact entries_of
      · cases found
    · cases found
  · cases found

variable {step : Step}

theorem startOf_held {value : Value F} (there : value.get (parent ++ [step]) = some child) :
    startOf value empty parent = value := by
  refine if_neg ?_
  rintro ⟨rfl, none_left⟩
  rw [nil_append, Value.get, Value.child_null none_left] at there
  cases there

theorem remove_outcome [DecidableEq F] (document : YamlDocument F) (path : List Step)
    (empty : yaml.yamlValue yaml.emptyObject = .ok (.mapping [])) :
    Outcome yaml document (document.remove yaml path) fun new =>
      (path = [] ∨ document.value.get path = none) ∧ new = document.value ∨ Taken path document.value new := by
  unfold YamlDocument.remove
  split
  · rename_i none_left
    exact ⟨fun contra => absurd rfl contra, fun _ => ⟨id, .inl ⟨.inl (getLast?_eq_none_iff.mp none_left), rfl⟩⟩⟩
  · rename_i last found
    have whole : path.dropLast ++ [last] = path := dropLast_append_getLast? last found
    dsimp only
    split
    · rename_i missing
      exact ⟨fun contra => absurd rfl contra, fun _ => ⟨id, .inl ⟨.inr (Option.isNone_iff_eq_none.mp missing), rfl⟩⟩⟩
    · rename_i there
      obtain ⟨child, leads⟩ := Option.ne_none_iff_exists'.mp fun none_left => there (Option.isNone_iff_eq_none.mpr none_left)
      rw [← whole] at leads
      split
      · rename_i grandparent name nested
        obtain ⟨parents, container, only, key, got, rfl, mapping⟩ := emptied_some nested leads
        obtain ⟨failed, done⟩ := set_outcome yaml document grandparent name yaml.emptyObject fun _ => 0
        refine ⟨failed, fun ok => ?_⟩
        obtain ⟨sound, data, held, within⟩ := done ok
        rw [empty] at held
        cases held
        rw [parents] at got
        rw [startOf_held got] at within
        refine ⟨sound, .inr ⟨path.dropLast, .key key, whole.symm, ?_⟩⟩
        rw [parents]
        exact within_inserted within got ⟨_, mapping, .inr ⟨⟨only, rfl⟩, rfl⟩⟩
      · split
        · exact .unchanged yaml _
        · rename_i expected updated
          refine .kept yaml (edit_kept yaml _ _ _ _) (.inr ⟨path.dropLast, last, whole.symm, ?_⟩)
          exact (updateAt_within updated).imp fun _ _ ok => removeAt_ok ok

/-! ### What the paths lead to -/

theorem insertEntry_named (name : Text) (value : Value F) (entries : List (Entry F)) :
    (insertEntry name value entries).find? (Entry.named name) = some (.mk (.string name) value) := by
  induction entries with
  | nil => rw [insertEntry, find?_cons_of_pos (named_here name value)]
  | cons entry entries ih =>
    rw [insertEntry]
    split
    · rename_i named
      rw [Entry.named_eq named]
      exact find?_cons_of_pos (named_here name value)
    · rename_i other
      rw [find?_cons_of_neg other, ih]

/-- A search that passes over the entries of a name. -/
def Skips (sought : Entry F → Bool) (name : Text) : Prop := ∀ value, sought (.mk (.string name) value) = false

theorem skips_named {other : Text} (differ : name ≠ other) : Skips (Entry.named other : Entry F → Bool) name :=
  named_other differ

theorem skips_numbered (name : Text) (place : Nat) : Skips (Entry.numbered place : Entry F → Bool) name := fun _ => rfl

theorem insertEntry_skips {sought : Entry F → Bool} (skips : Skips sought name) (value : Value F)
    (entries : List (Entry F)) : (insertEntry name value entries).find? sought = entries.find? sought := by
  induction entries with
  | nil => rw [insertEntry, find?_cons_of_neg (by rw [skips value]; exact Bool.false_ne_true)]
  | cons entry entries ih =>
    rw [insertEntry]
    split
    · rename_i named
      have whole := Entry.named_eq named
      generalize entry.value = held at whole
      subst whole
      rw [show (Entry.mk (.string name) held).key = .string name from rfl,
        find?_cons_of_neg (by rw [skips]; exact Bool.false_ne_true),
        find?_cons_of_neg (by rw [skips]; exact Bool.false_ne_true)]
    · by_cases found : sought entry = true
      · rw [find?_cons_of_pos found, find?_cons_of_pos found]
      · rw [find?_cons_of_neg found, find?_cons_of_neg found, ih]

theorem filter_skips {sought : Entry F → Bool} (skips : Skips sought name) (entries : List (Entry F)) :
    (entries.filter fun entry => !entry.named name).find? sought = entries.find? sought := by
  induction entries with
  | nil => rfl
  | cons entry entries ih =>
    by_cases named : entry.named name = true
    · rw [filter_cons_of_neg (by rw [named]; exact Bool.false_ne_true), ih, Entry.named_eq named,
        find?_cons_of_neg (by rw [skips]; exact Bool.false_ne_true)]
    · rw [filter_cons_of_pos (by rw [Bool.eq_false_iff.mpr named]; rfl)]
      by_cases found : sought entry = true
      · rw [find?_cons_of_pos found, find?_cons_of_pos found]
      · rw [find?_cons_of_neg found, find?_cons_of_neg found, ih]

theorem child_level {changed : List (Entry F)}
    (level : ∀ sought : Entry F → Bool, Skips sought name → changed.find? sought = entries.find? sought)
    (differ : step ≠ .key name) : (Value.mapping changed).child step = (Value.mapping entries).child step := by
  cases step with
  | key other =>
    rw [child_key, child_key, level _ (skips_named fun equal => differ (by rw [equal]))]
  | index place => rw [child_number, child_number, level _ (skips_numbered name place)]

theorem Inserted.beside {value : Value F} (inserted : Inserted name value container changed)
    (differ : step ≠ .key name) : changed.child step = container.child step := by
  obtain ⟨entries, mapping, rfl⟩ := inserted
  rw [Value.child_retag, Value.child_mapping mapping]
  exact child_level (fun sought skips => insertEntry_skips skips value entries) differ

theorem Inserted.value {value : Value F} (inserted : Inserted name value container changed) :
    changed.child (.key name) = some value := by
  obtain ⟨entries, mapping, rfl⟩ := inserted
  rw [Value.child_retag, child_key, insertEntry_named]
  rfl

theorem Removed.beside (removed : Removed (.key name) container changed) (differ : step ≠ .key name) :
    changed.child step = container.child step := by
  obtain ⟨entries, mapping, rfl | ⟨⟨child, rfl⟩, rfl⟩⟩ := removed
  · rw [Value.child_retag, Value.child_mapping mapping]
    exact child_level (fun sought skips => filter_skips skips entries) differ
  · rw [Value.child_mapping mapping]
    exact child_level (fun sought skips => (find?_cons_of_neg (by rw [skips]; exact Bool.false_ne_true)).symm) differ

theorem Removed.gone (removed : Removed (.key name) container changed) :
    changed.child (.key name) = none := by
  obtain ⟨entries, mapping, rfl | ⟨⟨child, rfl⟩, rfl⟩⟩ := removed
  · rw [Value.child_retag, child_key, find?_eq_none.mpr, Option.map_none]
    intro entry listed
    simpa using (mem_filter.mp listed).2
  · rfl

theorem Removed.shifted {place : Nat} (removed : Removed (.index place) container changed) (other : Nat) :
    changed.child (.index other) = container.child (.index (if other < place then other else other + 1)) := by
  obtain ⟨items, sequence, rfl⟩ := removed
  rw [Value.child_retag, Value.child_sequence sequence, child_index, child_index, getElem?_eraseIdx]
  split <;> rfl

/-- A container as the operations see it. -/
def Holds (value : Value F) (parent : List Step) (items : List (Value F)) : Prop :=
  ∃ container, value.get parent = some container ∧ container.untag = .sequence items

/-- What an operation that succeeds does to the data. -/
def Effect (old new : Value F) : Operation J → Prop
  | .set parent key value _ =>
    ∃ data, yaml.yamlValue value = .ok data ∧ new.get (parent ++ [.key key]) = some data ∧
      (∀ path, Apart path (parent ++ [.key key]) → new.get path = old.get path) ∧
      Within (Inserted key data) parent (startOf old (.mapping []) parent) new
  | .push parent value _ =>
    ∃ data items, yaml.yamlValue value = .ok data ∧ Holds (startOf old (.sequence []) parent) parent items ∧
      new.get (parent ++ [.index items.length]) = some data ∧
      (∀ path, Apart path (parent ++ [.index items.length]) → new.get path = old.get path) ∧
      Within (Pushed data) parent (startOf old (.sequence []) parent) new
  | .remove path =>
    ((path = [] ∨ old.get path = none) ∧ new = old) ∨
    ∃ parent last, path = parent ++ [last] ∧ Within (Removed last) parent old new ∧
      match last with
      | .key _ => new.get path = none ∧ ∀ other, Apart other path → new.get other = old.get other
      | .index place =>
        (∀ other, Apart other parent → new.get other = old.get other) ∧
          ∀ other more, new.get (parent ++ .index other :: more) =
            old.get (parent ++ .index (if other < place then other else other + 1) :: more)

theorem bare_mapping (step : Step) : (Value.mapping [] : Value F).child step = none := by
  cases step <;> rfl

theorem bare_sequence (step : Step) : (Value.sequence [] : Value F).child step = none := by
  cases step <;> rfl

theorem Pushed.beside {value : Value F} {items : List (Value F)} (pushed : Pushed value container changed)
    (sequence : container.untag = .sequence items) (differ : step ≠ .index items.length) :
    changed.child step = container.child step := by
  obtain ⟨others, sequence', rfl⟩ := pushed
  rw [sequence] at sequence'
  obtain rfl := Value.sequence.inj sequence'
  rw [Value.child_retag, Value.child_sequence sequence]
  cases step with
  | key name => rfl
  | index place =>
    have elsewhere : place ≠ items.length := fun equal => differ (by rw [equal])
    rw [child_index, child_index]
    rcases Nat.lt_or_gt_of_ne elsewhere with below | above
    · exact getElem?_append_left below
    · rw [getElem?_eq_none (by simp; omega), getElem?_eq_none (by omega)]

theorem startOf_get {old : Value F} {path : List Step} (bare : ∀ step, empty.child step = none)
    (apart : Apart path (parent ++ [last])) :
    (startOf old empty parent).get path = old.get path := by
  unfold startOf
  split
  · rename_i fresh
    match path with
    | [] => exact absurd nil_prefix apart.1
    | step :: rest => rw [Value.get, Value.get, bare, Value.child_null fresh.2]
  · rfl

theorem apply_effect [DecidableEq F] (empty : yaml.yamlValue yaml.emptyObject = .ok (.mapping [])) (document : YamlDocument F)
    (operation : Operation J) :
    Outcome yaml document (document.apply yaml operation) fun new => Effect yaml document.value new operation := by
  cases operation with
  | set parent key value rank =>
    obtain ⟨failed, done⟩ := set_outcome yaml document parent key value rank
    refine ⟨failed, fun ok => ?_⟩
    obtain ⟨sound, data, held, within⟩ := done ok
    refine ⟨sound, data, held, ?_, fun path apart => ?_, within⟩
    · obtain ⟨before, after, -, -, inserted, further⟩ := within.get_at
      refine (further [.key key]).2.trans ?_
      rw [Value.get, inserted.value]
      rfl
    · have beside := within.get_beside (fun _ _ _ inserted step differ => inserted.beside differ) apart
      exact beside.trans (startOf_get bare_mapping apart)
  | push parent value rank =>
    obtain ⟨failed, done⟩ := push_outcome yaml document parent value rank
    refine ⟨failed, fun ok => ?_⟩
    obtain ⟨sound, data, held, within⟩ := done ok
    obtain ⟨before, after, got, -, ⟨items, sequence, became⟩, further⟩ := within.get_at
    refine ⟨sound, data, items, held, ⟨before, got, sequence⟩, ?_, fun path apart => ?_, within⟩
    · refine (further [.index items.length]).2.trans ?_
      rw [Value.get, became, Value.child_retag, child_index, item_here]
      rfl
    · refine Eq.trans (within.get_beside (fun other _ got' pushed step differ => ?_) apart) (startOf_get bare_sequence apart)
      rw [got] at got'
      obtain rfl := Option.some.inj got'
      exact pushed.beside sequence differ
  | remove path =>
    obtain ⟨failed, done⟩ := remove_outcome yaml document path empty
    refine ⟨failed, fun ok => ?_⟩
    obtain ⟨sound, ⟨nowhere, unchanged⟩ | ⟨parent, last, rfl, within⟩⟩ := done ok
    · exact ⟨sound, .inl ⟨nowhere, unchanged⟩⟩
    · refine ⟨sound, .inr ⟨parent, last, rfl, within, ?_⟩⟩
      obtain ⟨before, after, got, got', removed, further⟩ := within.get_at
      cases last with
      | key name =>
        refine ⟨?_, fun other apart => within.get_beside (fun _ _ _ removed step differ => removed.beside differ) apart⟩
        change (document.remove yaml (parent ++ [.key name])).1.value.get (parent ++ [.key name]) = none
        rw [Value.get_snoc, got', Option.bind_some, removed.gone]
      | index place =>
        refine ⟨fun other apart => within.get_apart apart, fun other more => ?_⟩
        refine (further _).2.trans ?_
        rw [(further _).1, Value.get, Value.get, removed.shifted]

theorem run_sound [DecidableEq F] (empty : yaml.yamlValue yaml.emptyObject = .ok (.mapping []))
    (sound : Sound yaml document) (operations : List (Operation J)) : Sound yaml (document.run yaml operations) := by
  induction operations generalizing document with
  | nil => exact sound
  | cons operation operations ih =>
    refine ih ?_
    obtain ⟨failed, done⟩ := apply_effect yaml empty document operation
    by_cases ok : (document.apply yaml operation).2 = .ok ()
    · exact (done ok).1 sound
    · change Sound yaml (document.apply yaml operation).1
      rw [failed ok]
      exact sound

/-- After any edits the text reads as the data that is held, and each further edit fails and changes nothing,
or does to the data what it says. -/
theorem guarded_edits [DecidableEq F] (empty : yaml.yamlValue yaml.emptyObject = .ok (.mapping [])) {text : Text}
    {root : YamlRoot} {document : YamlDocument F} (parsed : parse yaml text root = .ok document)
    (operations : List (Operation J)) :
    Sound yaml (document.run yaml operations) ∧
      ∀ operation, Outcome yaml (document.run yaml operations) ((document.run yaml operations).apply yaml operation)
        fun new => Effect yaml (document.run yaml operations).value new operation :=
  ⟨run_sound yaml empty (parse_sound yaml parsed) operations,
    fun operation => apply_effect yaml empty _ operation⟩

end

/-- A reader that knows a file and its empty form, and an editor that empties it. JSON is a number, or the
empty object. -/
def oneKey : Yaml Empty (Option Int) where
  read text :=
    if text = "a: 1".toList then .ok (.mapping [.mk (.string ['a']) (.integer 1)])
    else if text = [] then .ok .null
    else .error none
  yamlValue
    | some number => .ok (.integer number)
    | none => .ok (.mapping [])
  emptyObject := none
  kept _ := true
  edited _ _ := some (.ok [])

def oneKeyDocument : YamlDocument Empty := ⟨"a: 1".toList, .mapping [.mk (.string ['a']) (.integer 1)], .mapping⟩

theorem guarded_edits_one : Sound oneKey (oneKeyDocument.run oneKey [.remove [.key ['a']]]) :=
  (@guarded_edits Empty (Option Int) oneKey _ rfl "a: 1".toList .mapping oneKeyDocument rfl [.remove [.key ['a']]]).1

/-- The text of an emptied file is no mapping. -/
theorem emptied_root : ¬ ∀ (yaml : Yaml Empty (Option Int)) (text : Text) (document : YamlDocument Empty)
    (operations : List (Operation (Option Int))),
    yaml.yamlValue yaml.emptyObject = .ok (.mapping []) → parse yaml text .mapping = .ok document →
    ∃ value, yaml.read (document.run yaml operations).text = .ok value ∧
      value.equal (document.run yaml operations).value = true := by
  intro exactly
  obtain ⟨value, reads, equal⟩ := exactly oneKey "a: 1".toList oneKeyDocument [.remove [.key ['a']]] rfl rfl
  have text : (oneKeyDocument.run oneKey [.remove [.key ['a']]]).text = [] := by decide +kernel
  rw [text] at reads
  cases reads
  revert equal
  decide +kernel

end AstrLink.YamlEdits
