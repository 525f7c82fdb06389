import AstrLink.AuditRecipes

/-!
Audit parts over the chunks a session shares. A raw part is laid out as a recipe that refers to the chunks it
finds; putting it together again gives the part (`rawRecipe_assembled`), whatever was stored before
(`storeAuditChunks_kept`).
-/
namespace AstrLink.AuditParts
open AuditChunks (Bytes splitAuditChunks)
open AuditRecipes List

structure AuditChunkRow where
  id : Int
  scope : Bytes
  contentKey : Bytes
  chunk : AuditChunk

structure RequestRecord where
  id : Bytes
  sessionId : Option Bytes

def chunkMessage (scope chunk : Bytes) : Bytes := "audit-chunk".toUTF8.toList ++ 0 :: scope ++ 0 :: chunk

def auditChunkKey (hmac : Bytes → Bytes → Bytes) (auditKey scope chunk : Bytes) : Bytes :=
  hmac auditKey (chunkMessage scope chunk)

/-- `SELECT COALESCE(session_id, id) FROM request_records WHERE id = ?` -/
def partScope (requests : List RequestRecord) (id : Bytes) : Option Bytes :=
  (requests.find? fun request => request.id = id).map fun request => request.sessionId.getD request.id

/-- `SELECT id FROM audit_chunks WHERE scope = ? AND content_key = ?` -/
def lookupChunk (rows : List AuditChunkRow) (scope contentKey : Bytes) : Option AuditChunkRow :=
  rows.find? fun row => row.scope = scope ∧ row.contentKey = contentKey

/-- The chunks of a part's references, in order. -/
def loadPartChunks (rows : List AuditChunkRow) (refs : List Int) : List AuditChunk :=
  refs.filterMap fun id => (rows.find? fun row => row.id = id).map AuditChunkRow.chunk

/-- A recipe being laid out: its pieces and references, and the bytes since the last reference. -/
structure Layout where
  pieces : List AuditRecipePiece
  refs : List Int
  literal : Bytes

def Layout.flushed (layout : Layout) : List AuditRecipePiece :=
  if 0 < layout.literal.length then layout.pieces ++ [⟨some layout.literal⟩] else layout.pieces

section
variable (hmac : Bytes → Bytes → Bytes) (auditKey : Bytes)

def layChunk (rows : List AuditChunkRow) (scope : Bytes) (layout : Layout) (chunk : Bytes) : Layout :=
  match lookupChunk rows scope (auditChunkKey hmac auditKey scope chunk) with
  | none => { layout with literal := layout.literal ++ chunk }
  | some row => { pieces := layout.flushed ++ [⟨none⟩], refs := layout.refs ++ [row.id], literal := [] }

/-- Lays out a raw part as a recipe that refers to the chunks its session shares. -/
def rawRecipe (requests : List RequestRecord) (rows : List AuditChunkRow) (id plain : Bytes) : Option (Bytes × List Int) :=
  match partScope requests id with
  | none => none
  | some scope =>
    let layout := (splitAuditChunks plain).foldl (layChunk hmac auditKey rows scope) ⟨[], [], []⟩
    if layout.refs = [] then none else some (encodeAuditRecipe layout.flushed, layout.refs)

end

section
variable {ε : Type} (openAuditBlob : Bytes → Bytes → Bytes → Except ε Bytes) (hmac : Bytes → Bytes → Bytes)

def SealedFor (scope contentKey : Bytes) (chunk : AuditChunk) (key plain : Bytes) : Prop :=
  contentKey = auditChunkKey hmac key scope plain ∧ openAuditBlob key chunk.nonce chunk.ciphertext = .ok plain

/-- The audit key may have been another one when a chunk was stored. -/
structure Stored (rows : List AuditChunkRow) : Prop where
  ids : rows.Pairwise fun row other => row.id ≠ other.id
  chunks : ∀ row ∈ rows, ∃ key plain, SealedFor openAuditBlob hmac row.scope row.contentKey row.chunk key plain

def TellsApart (scope : Bytes) (inPlay : Bytes → Bytes → Prop) : Prop :=
  ∀ key left other right, inPlay key left → inPlay other right →
    hmac key (chunkMessage scope left) = hmac other (chunkMessage scope right) → key = other ∧ left = right

def InPlay (auditKey : Bytes) (rows : List AuditChunkRow) (scope plain key chunk : Bytes) : Prop :=
  (key = auditKey ∧ chunk ∈ splitAuditChunks plain) ∨
    ∃ row ∈ rows, row.scope = scope ∧ SealedFor openAuditBlob hmac scope row.contentKey row.chunk key chunk

end

variable {layout : Layout} {scope front plain : Bytes}

section
variable {ε : Type} {openAuditBlob : Bytes → Bytes → Bytes → Except ε Bytes} {hmac : Bytes → Bytes → Bytes} {auditKey : Bytes}

variable {rows : List AuditChunkRow}

theorem find_id (ids : rows.Pairwise fun row other => row.id ≠ other.id) {row : AuditChunkRow} (listed : row ∈ rows) :
    rows.find? (fun other => other.id = row.id) = some row := by
  induction rows with
  | nil => exact absurd listed not_mem_nil
  | cons first rest ih =>
    obtain ⟨apart, ids⟩ := pairwise_cons.mp ids
    rcases mem_cons.mp listed with rfl | listed
    · rw [find?_cons_of_pos (by simp)]
    · rw [find?_cons_of_neg (by simpa using apart row listed), ih ids listed]

theorem lookupChunk_opens (stored : Stored openAuditBlob hmac rows)
    (apart : TellsApart hmac scope (InPlay openAuditBlob hmac auditKey rows scope plain)) {chunk : Bytes}
    (part : chunk ∈ splitAuditChunks plain) {row : AuditChunkRow}
    (found : lookupChunk rows scope (auditChunkKey hmac auditKey scope chunk) = some row) :
    row ∈ rows ∧ openAuditBlob auditKey row.chunk.nonce row.chunk.ciphertext = .ok chunk := by
  have listed := mem_of_find?_eq_some found
  have matches_key := find?_some found
  rw [decide_eq_true_eq] at matches_key
  obtain ⟨rfl, keyed⟩ := matches_key
  obtain ⟨key, held, digest, opens⟩ := stored.chunks row listed
  obtain ⟨rfl, rfl⟩ := apart key held auditKey chunk (.inr ⟨row, listed, rfl, digest, opens⟩) (.inl ⟨rfl, part⟩)
    (digest.symm.trans keyed)
  exact ⟨listed, opens⟩

/-- What was laid out fills to the chunks so far, but for the bytes since the last reference. -/
def Laid (openAuditBlob : Bytes → Bytes → Bytes → Except ε Bytes) (auditKey : Bytes) (rows : List AuditChunkRow)
    (layout : Layout) (front : Bytes) : Prop :=
  ∃ plains text, Opened openAuditBlob auditKey (loadPartChunks rows layout.refs) plains ∧
    fill layout.pieces plains = some text ∧ text ++ layout.literal = front

theorem Laid.flushed (laid : Laid openAuditBlob auditKey rows layout front) :
    ∃ plains, Opened openAuditBlob auditKey (loadPartChunks rows layout.refs) plains ∧ fill layout.flushed plains = some front := by
  obtain ⟨plains, text, opened, filling, rfl⟩ := laid
  refine ⟨plains, opened, ?_⟩
  unfold Layout.flushed
  split
  · have literal : fill [⟨some layout.literal⟩] [] = some (layout.literal ++ []) := rfl
    have whole := fill_append filling literal
    rw [append_nil, append_nil] at whole
    exact whole
  · rename_i empty
    rw [length_eq_zero_iff.mp (Nat.eq_zero_of_not_pos empty), append_nil]
    exact filling

theorem layChunk_laid (stored : Stored openAuditBlob hmac rows)
    (apart : TellsApart hmac scope (InPlay openAuditBlob hmac auditKey rows scope plain)) {chunk : Bytes}
    (part : chunk ∈ splitAuditChunks plain) (laid : Laid openAuditBlob auditKey rows layout front) :
    Laid openAuditBlob auditKey rows (layChunk hmac auditKey rows scope layout chunk) (front ++ chunk) := by
  unfold layChunk
  cases found : lookupChunk rows scope (auditChunkKey hmac auditKey scope chunk) with
  | none =>
    obtain ⟨plains, text, opened, filling, rfl⟩ := laid
    exact ⟨plains, text, opened, filling, (List.append_assoc _ _ _).symm⟩
  | some row =>
    obtain ⟨listed, opens⟩ := lookupChunk_opens stored apart part found
    obtain ⟨plains, opened, filling⟩ := laid.flushed
    have last : fill [⟨none⟩] [chunk] = some (chunk ++ []) := rfl
    have whole := fill_append filling last
    rw [append_nil] at whole
    refine ⟨plains ++ [chunk], front ++ chunk, ?_, whole, append_nil _⟩
    have loaded : loadPartChunks rows (layout.refs ++ [row.id]) = loadPartChunks rows layout.refs ++ [row.chunk] := by
      rw [loadPartChunks, filterMap_append, filterMap_cons, find_id stored.ids listed]
      rfl
    dsimp only
    rw [loaded]
    exact rel_append opened (.cons opens .nil)

theorem foldl_laid (stored : Stored openAuditBlob hmac rows)
    (apart : TellsApart hmac scope (InPlay openAuditBlob hmac auditKey rows scope plain)) {chunks : List Bytes}
    (parts : ∀ chunk ∈ chunks, chunk ∈ splitAuditChunks plain) (laid : Laid openAuditBlob auditKey rows layout front) :
    Laid openAuditBlob auditKey rows (chunks.foldl (layChunk hmac auditKey rows scope) layout) (front ++ chunks.flatten) := by
  induction chunks generalizing layout front with
  | nil =>
    rw [flatten_nil, append_nil]
    exact laid
  | cons chunk chunks ih =>
    obtain ⟨first, others⟩ := forall_mem_cons.mp parts
    rw [foldl_cons, flatten_cons, ← List.append_assoc]
    exact ih others (layChunk_laid stored apart first laid)

theorem rawRecipe_assembled {requests : List RequestRecord} {id recipe : Bytes} {refs : List Int}
    (stored : Stored openAuditBlob hmac rows)
    (apart : ∀ scope, partScope requests id = some scope → TellsApart hmac scope (InPlay openAuditBlob hmac auditKey rows scope plain))
    (laid : rawRecipe hmac auditKey requests rows id plain = some (recipe, refs)) (fits : recipe.length < 2 ^ 63) :
    assembleAuditRecipe openAuditBlob auditKey recipe (loadPartChunks rows refs) = some (.ok plain) := by
  unfold rawRecipe at laid
  cases belongs : partScope requests id with
  | none => rw [belongs] at laid; cases laid
  | some scope =>
    rw [belongs] at laid
    dsimp only at laid
    split at laid
    · cases laid
    · obtain ⟨rfl, rfl⟩ := Prod.mk.inj (Option.some.inj laid)
      have begun : Laid openAuditBlob auditKey rows ⟨[], [], []⟩ [] := ⟨[], [], .nil, rfl, rfl⟩
      obtain ⟨plains, opened, filling⟩ := (foldl_laid stored (apart scope belongs) (fun _ part => part) begun).flushed
      rw [nil_append, splitAuditChunks, Chunking.chunks_flatten] at filling
      exact assemble_encoded fits opened filling

end

/-- Chunks make up their data and stay when more is appended, recipes with their chunks make up their part, and what is
assembled of any bytes are the pieces they spell. -/
theorem audit_chunks_round_trip {ε : Type} (openAuditBlob : Bytes → Bytes → Bytes → Except ε Bytes)
    (hmac : Bytes → Bytes → Bytes) (auditKey : Bytes) :
    (∀ data, (∀ chunk ∈ splitAuditChunks data, chunk ≠ [] ∧ chunk.length ≤ AuditChunks.auditChunkMaxBytes) ∧
        (splitAuditChunks data).flatten = data) ∧
      (∀ data more index chunk, index + 1 < (splitAuditChunks data).length →
        (splitAuditChunks data)[index]? = some chunk → (splitAuditChunks (data ++ more))[index]? = some chunk) ∧
      (∀ requests rows id plain recipe refs, Stored openAuditBlob hmac rows →
        (∀ scope, partScope requests id = some scope →
          TellsApart hmac scope (InPlay openAuditBlob hmac auditKey rows scope plain)) →
        rawRecipe hmac auditKey requests rows id plain = some (recipe, refs) → recipe.length < 2 ^ 63 →
        assembleAuditRecipe openAuditBlob auditKey recipe (loadPartChunks rows refs) = some (.ok plain)) ∧
      ∀ recipe chunks, ∃ outcome, assembleAuditRecipe openAuditBlob auditKey recipe chunks = some outcome ∧
        ∀ whole, outcome = .ok whole → ∃ rest pieces plains, recipe = auditRecipeVersion :: rest ∧ Spelled rest pieces ∧
          Opened openAuditBlob auditKey chunks plains ∧ fill pieces plains = some whole := by
  refine ⟨fun data => ⟨fun chunk listed => ⟨?_, ?_⟩, Chunking.chunks_flatten _ data⟩, ?_, ?_, assemble_ok⟩
  · exact Chunking.chunks_some _ data chunk listed
  · have bounded : ∀ data : Bytes, data ≠ [] →
        (data.take (AuditChunks.auditCutter.cut data)).length ≤ AuditChunks.auditChunkMaxBytes := by
      intro data _
      rw [length_take]
      have bound := AuditChunks.cut_within data
      exact Nat.le_trans (Nat.min_le_left _ _) (Nat.le_trans bound (Nat.min_le_right _ _))
    have each := @Chunking.chunks_forall _ AuditChunks.auditCutter (·.length ≤ AuditChunks.auditChunkMaxBytes) bounded data
    exact each chunk listed
  · exact fun data more index chunk early found => Chunking.chunks_getElem _ more early found
  · exact fun requests rows id plain recipe refs stored apart laid fits => rawRecipe_assembled stored apart laid fits

def sampleKey : Bytes := (List.range 32).map UInt8.ofNat

/-- The text `hi`, as a session keeps it. -/
def sampleRow : AuditChunkRow where
  id := 1
  scope := [0x73, 0x31]
  contentKey := [0x16, 0xb2, 0xed, 0x40, 0x65, 0x91, 0x4d, 0x1d, 0x0a, 0x7a, 0x93, 0x01, 0xe8, 0x30, 0xaf, 0x24, 0xd1, 0xed,
    0xf7, 0xf8, 0xea, 0x44, 0x51, 0xe6, 0xfe, 0xf1, 0x42, 0x3d, 0xa2, 0x7d, 0xc9, 0x94]
  chunk := ⟨List.replicate 12 0, [0x66, 0xd5, 0x1e, 0xc3, 0x92, 0x50, 0xea, 0x92, 0x03, 0xb6, 0xe1, 0xe6, 0x78, 0x9b, 0x7a,
    0x0f, 0x30, 0x82]⟩

def sampleOpen (key nonce ciphertext : Bytes) : Except String Bytes :=
  if key = sampleKey ∧ nonce = sampleRow.chunk.nonce ∧ ciphertext = sampleRow.chunk.ciphertext then .ok [0x68, 0x69]
  else .error "decrypt audit blob"

def sampleHmac (key message : Bytes) : Bytes :=
  if key = sampleKey ∧ message = chunkMessage [0x73, 0x31] [0x68, 0x69] then sampleRow.contentKey else []

theorem sample_stored : Stored sampleOpen sampleHmac [sampleRow] := by
  refine ⟨pairwise_singleton _ _, fun row listed => ?_⟩
  obtain rfl := mem_singleton.mp listed
  exact ⟨sampleKey, [0x68, 0x69], by decide +kernel, by decide +kernel⟩

theorem sample_apart : TellsApart sampleHmac [0x73, 0x31]
    (InPlay sampleOpen sampleHmac sampleKey [sampleRow] [0x73, 0x31] [0x68, 0x69]) := by
  have alone : ∀ key chunk, InPlay sampleOpen sampleHmac sampleKey [sampleRow] [0x73, 0x31] [0x68, 0x69] key chunk →
      key = sampleKey ∧ chunk = [0x68, 0x69] := by
    rintro key chunk (⟨rfl, part⟩ | ⟨row, listed, -, -, opens⟩)
    · have parts : splitAuditChunks [0x68, 0x69] = [[0x68, 0x69]] := by decide +kernel
      rw [parts] at part
      exact ⟨rfl, mem_singleton.mp part⟩
    · obtain rfl := mem_singleton.mp listed
      unfold sampleOpen at opens
      split at opens
      · rename_i same
        exact ⟨same.1, (Except.ok.inj opens).symm⟩
      · cases opens
  intro key left other right inLeft inRight _
  obtain ⟨rfl, rfl⟩ := alone key left inLeft
  obtain ⟨rfl, rfl⟩ := alone other right inRight
  exact ⟨rfl, rfl⟩

theorem audit_chunks_round_trip_shared :
    rawRecipe sampleHmac sampleKey [⟨[0x72], some [0x73, 0x31]⟩] [sampleRow] [0x72] [0x68, 0x69] = some ([1, 1], [1]) ∧
      assembleAuditRecipe sampleOpen sampleKey [1, 1] (loadPartChunks [sampleRow] [1]) = some (.ok [0x68, 0x69]) := by
  have laid : rawRecipe sampleHmac sampleKey [⟨[0x72], some [0x73, 0x31]⟩] [sampleRow] [0x72] [0x68, 0x69] =
      some ([1, 1], [1]) := by decide +kernel
  obtain ⟨-, -, together, -⟩ := audit_chunks_round_trip sampleOpen sampleHmac sampleKey
  refine ⟨laid, together _ _ _ _ _ _ sample_stored (fun scope belongs => ?_) laid (by decide)⟩
  have same : partScope [⟨[0x72], some [0x73, 0x31]⟩] [0x72] = some [0x73, 0x31] := by decide +kernel
  obtain rfl := Option.some.inj (same.symm.trans belongs)
  exact sample_apart

end AstrLink.AuditParts
