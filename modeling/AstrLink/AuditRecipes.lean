import Mathlib.Algebra.Ring.Int.Defs
import Mathlib.Data.List.Forall2
import AstrLink.AuditChunks
import AstrLink.Uvarint

/-!
Audit recipes: literal runs, and places where the next chunk goes. Assembling one gives its pieces with the
opened chunks in their places (`assemble_ok`), and an encoded recipe spells the pieces it was made of
(`encode_spelled`).
-/
namespace AstrLink.AuditRecipes
open List
open AuditChunks (Bytes)

/-- One stored chunk, sealed under the audit key. -/
structure AuditChunk where
  nonce : Bytes
  ciphertext : Bytes

/-- Literal bytes, or the next referenced chunk. -/
structure AuditRecipePiece where
  literal : Option Bytes

def auditRecipeVersion : UInt8 := 1

def auditRecipeLiteral : UInt8 := 0

def auditRecipeChunk : UInt8 := 1

def encodePiece (piece : AuditRecipePiece) : Bytes :=
  match piece.literal with
  | none => [auditRecipeChunk]
  | some literal => auditRecipeLiteral :: Uvarint.appendUvarint literal.length ++ literal

/-- Writes pieces as a recipe, where chunks take the references in order. -/
def encodeAuditRecipe (pieces : List AuditRecipePiece) : Bytes := auditRecipeVersion :: pieces.flatMap encodePiece

/-- What goes wrong: a recipe that is none, or a chunk that does not open. -/
inductive AuditDecryptError (ε : Type) where
  | recipe (reason : String)
  | sealed (error : ε)

def uint64 (value : Int) : Nat := (value % 2 ^ 64).toNat

/-- `bytes[low:]`, which nothing but a panic answers past the end. -/
def sliceFrom (bytes : Bytes) (low : Nat) : Option Bytes := if low ≤ bytes.length then some (bytes.drop low) else none

/-- `bytes[:high]` -/
def sliceTo (bytes : Bytes) (high : Nat) : Option Bytes := if high ≤ bytes.length then some (bytes.take high) else none

variable {rest : Bytes}

theorem sliceFrom_some {bytes : Bytes} {low : Nat} (sliced : sliceFrom bytes low = some rest) :
    low ≤ bytes.length ∧ bytes.drop low = rest := by
  unfold sliceFrom at sliced
  split at sliced
  · rename_i inside
    exact ⟨inside, Option.some.inj sliced⟩
  · cases sliced

section
variable {ε : Type} (openAuditBlob : Bytes → Bytes → Bytes → Except ε Bytes) (auditKey : Bytes)

/-- The pieces after what was assembled; `none` is a read outside the recipe. -/
def assemblePieces (chunks : List AuditChunk) (next : Nat) (assembled : Bytes) (rest : Bytes) :
    Option (Except (AuditDecryptError ε) Bytes) :=
  match rest with
  | [] => if next ≠ chunks.length then some (.error (.recipe "unused chunk")) else some (.ok assembled)
  | tag :: rest =>
    if tag = auditRecipeChunk then
      match chunks[next]? with
      | none => some (.error (.recipe "missing chunk"))
      | some chunk =>
        match openAuditBlob auditKey chunk.nonce chunk.ciphertext with
        | .error error => some (.error (.sealed error))
        | .ok plain => assemblePieces chunks (next + 1) (assembled ++ plain) rest
    else if tag = auditRecipeLiteral then
      let (size, read) := Uvarint.uvarint rest
      if read ≤ 0 ∨ uint64 (rest.length - read) < size then some (.error (.recipe "literal length"))
      else
        match _ : sliceFrom rest read.toNat with
        | none => none
        | some rest' =>
          match sliceTo rest' size, _ : sliceFrom rest' size with
          | some literal, some later => assemblePieces chunks next (assembled ++ literal) later
          | _, _ => none
    else some (.error (.recipe "tag"))
termination_by rest.length
decreasing_by
  · exact Nat.lt_succ_self _
  · rename_i after here
    obtain ⟨-, rfl⟩ := sliceFrom_some after
    obtain ⟨-, rfl⟩ := sliceFrom_some here
    rw [length_drop, length_drop, length_cons]
    omega

/-- Rebuilds a part from its opened recipe and its referenced chunks. -/
def assembleAuditRecipe (recipe : Bytes) (chunks : List AuditChunk) : Option (Except (AuditDecryptError ε) Bytes) :=
  if recipe.head? ≠ some auditRecipeVersion then some (.error (.recipe "version"))
  else assemblePieces openAuditBlob auditKey chunks 0 [] recipe.tail

end

/-- The pieces that some bytes spell. A length may be written in more bytes than it takes. -/
inductive Spelled : Bytes → List AuditRecipePiece → Prop
  | nil : Spelled [] []
  | chunk {rest pieces} (spelled : Spelled rest pieces) : Spelled (auditRecipeChunk :: rest) (⟨none⟩ :: pieces)
  | literal {length literal rest pieces} (some_length : 0 < length.length)
      (reads : Uvarint.uvarint (length ++ (literal ++ rest)) = (literal.length, (length.length : Int)))
      (spelled : Spelled rest pieces) :
      Spelled (auditRecipeLiteral :: (length ++ (literal ++ rest))) (⟨some literal⟩ :: pieces)

/-- The pieces with some bytes for the chunks, each used once and in order. -/
def fill : List AuditRecipePiece → List Bytes → Option Bytes
  | [], [] => some []
  | ⟨some literal⟩ :: pieces, plains => (fill pieces plains).map (literal ++ ·)
  | ⟨none⟩ :: pieces, plain :: plains => (fill pieces plains).map (plain ++ ·)
  | _, _ => none

variable {plains : List Bytes}

theorem fill_append {front back : List AuditRecipePiece} {others : List Bytes} {text more : Bytes}
    (first : fill front plains = some text) (second : fill back others = some more) :
    fill (front ++ back) (plains ++ others) = some (text ++ more) := by
  induction front generalizing plains text with
  | nil =>
    cases plains with
    | nil =>
      cases first
      exact second
    | cons plain plains => cases first
  | cons piece front ih =>
    obtain ⟨literal⟩ := piece
    cases literal with
    | some literal =>
      rw [fill] at first
      obtain ⟨rest, found, rfl⟩ := Option.map_eq_some_iff.mp first
      rw [cons_append, fill, ih found]
      simp
    | none =>
      cases plains with
      | nil => cases first
      | cons plain plains =>
        rw [fill] at first
        obtain ⟨rest, found, rfl⟩ := Option.map_eq_some_iff.mp first
        rw [cons_append, cons_append, fill, ih found]
        simp

variable {pieces : List AuditRecipePiece}

theorem encodePiece_spelled {piece : AuditRecipePiece} (fits : (encodePiece piece).length < 2 ^ 64)
    (spelled : Spelled rest pieces) :
    Spelled (encodePiece piece ++ rest) (piece :: pieces) := by
  obtain ⟨literal⟩ := piece
  cases literal with
  | none => exact .chunk spelled
  | some literal =>
    have short : literal.length < 2 ^ 64 := by
      simp only [encodePiece, length_append, length_cons] at fits
      omega
    have read := Uvarint.uvarint_append short (literal ++ rest)
    rw [encodePiece, List.append_assoc]
    exact .literal (Uvarint.appendUvarint_some _) read spelled

theorem encode_spelled (fits : (pieces.flatMap encodePiece).length < 2 ^ 64) :
    Spelled (pieces.flatMap encodePiece) pieces := by
  induction pieces with
  | nil => exact .nil
  | cons piece pieces ih =>
    rw [flatMap_cons, length_append] at fits
    rw [flatMap_cons]
    exact encodePiece_spelled (by omega) (ih (by omega))

section
variable {ε : Type} {openAuditBlob : Bytes → Bytes → Bytes → Except ε Bytes} {auditKey : Bytes}

def Opened (openAuditBlob : Bytes → Bytes → Bytes → Except ε Bytes) (auditKey : Bytes) (chunks : List AuditChunk)
    (plains : List Bytes) : Prop :=
  List.Forall₂ (fun chunk plain => openAuditBlob auditKey chunk.nonce chunk.ciphertext = .ok plain) chunks plains

variable {chunks : List AuditChunk}

theorem assemblePieces_chunk {next : Nat} {assembled : Bytes} :
    assemblePieces openAuditBlob auditKey chunks next assembled (auditRecipeChunk :: rest) =
      match chunks[next]? with
      | none => some (.error (.recipe "missing chunk"))
      | some chunk =>
        match openAuditBlob auditKey chunk.nonce chunk.ciphertext with
        | .error error => some (.error (.sealed error))
        | .ok plain => assemblePieces openAuditBlob auditKey chunks (next + 1) (assembled ++ plain) rest := by
  rw [assemblePieces, if_pos rfl]

theorem assemblePieces_literal {next : Nat} {assembled rest : Bytes} :
    (assemblePieces openAuditBlob auditKey chunks next assembled (auditRecipeLiteral :: rest) =
        some (.error (.recipe "literal length")) ∧
      ((Uvarint.uvarint rest).2 ≤ 0 ∨ uint64 (rest.length - (Uvarint.uvarint rest).2) < (Uvarint.uvarint rest).1)) ∨
      ∃ length literal later, rest = length ++ (literal ++ later) ∧ 0 < length.length ∧
        Uvarint.uvarint rest = (literal.length, (length.length : Int)) ∧
        assemblePieces openAuditBlob auditKey chunks next assembled (auditRecipeLiteral :: rest) =
          assemblePieces openAuditBlob auditKey chunks next (assembled ++ literal) later := by
  have within := Uvarint.uvarint_within rest
  rw [assemblePieces, if_neg (by decide), if_pos rfl]
  rcases found : Uvarint.uvarint rest with ⟨size, read⟩
  rw [found] at within
  dsimp only at within ⊢
  by_cases refused : read ≤ 0 ∨ uint64 (rest.length - read) < size
  · rw [if_pos refused]
    exact .inl ⟨rfl, refused⟩
  · rw [if_neg refused]
    rw [not_or, Int.not_le, Nat.not_lt, uint64] at refused
    obtain ⟨some_read, sized⟩ := refused
    have inside : read.toNat ≤ rest.length := by omega
    have taken : size ≤ (rest.drop read.toNat).length := by
      rw [length_drop]
      omega
    have front : sliceFrom rest read.toNat = some (rest.drop read.toNat) := if_pos inside
    have here : sliceTo (rest.drop read.toNat) size = some ((rest.drop read.toNat).take size) := if_pos taken
    have after : sliceFrom (rest.drop read.toNat) size = some ((rest.drop read.toNat).drop size) := if_pos taken
    refine .inr ⟨rest.take read.toNat, (rest.drop read.toNat).take size, (rest.drop read.toNat).drop size, ?_, ?_, ?_, ?_⟩
    · rw [take_append_drop, take_append_drop]
    · rw [length_take_of_le inside]
      omega
    · rw [length_take_of_le taken, length_take_of_le inside, Int.toNat_of_nonneg (Int.le_of_lt some_read)]
    · split
      · rename_i contra
        rw [front] at contra
        cases contra
      · rename_i rest' same
        obtain rfl := Option.some.inj (front.symm.trans same)
        rw [here]
        split
        · rename_i literal later same' same''
          rw [← Option.some.inj same', ← Option.some.inj (after.symm.trans same'')]
        · rename_i contra
          exact absurd after (contra _ _ rfl)

theorem assemblePieces_total (chunks : List AuditChunk) (next : Nat) (assembled rest : Bytes) :
    ∃ outcome, assemblePieces openAuditBlob auditKey chunks next assembled rest = some outcome ∧
      ∀ whole, outcome = .ok whole → ∃ pieces plains filled, Spelled rest pieces ∧
        Opened openAuditBlob auditKey (chunks.drop next) plains ∧ fill pieces plains = some filled ∧
        whole = assembled ++ filled := by
  induction size : rest.length using Nat.strongRecOn generalizing next assembled rest with
  | ind size ih =>
    cases rest with
    | nil =>
      rw [assemblePieces]
      split
      · exact ⟨_, rfl, nofun⟩
      · rename_i used
        refine ⟨_, rfl, fun whole same => ⟨[], [], [], .nil, ?_, rfl, ?_⟩⟩
        · rw [drop_eq_nil_of_le (by omega)]
          exact .nil
        · rw [append_nil, Except.ok.inj same]
    | cons tag rest =>
      rw [length_cons] at size
      by_cases isChunk : tag = auditRecipeChunk
      · subst isChunk
        rw [assemblePieces_chunk]
        cases here : chunks[next]? with
        | none => exact ⟨_, rfl, nofun⟩
        | some chunk =>
          dsimp only
          cases opens : openAuditBlob auditKey chunk.nonce chunk.ciphertext with
          | error error => exact ⟨_, rfl, nofun⟩
          | ok plain =>
            dsimp only
            obtain ⟨outcome, same, right⟩ := ih rest.length (by omega) (next + 1) (assembled ++ plain) rest rfl
            refine ⟨outcome, same, fun whole found => ?_⟩
            obtain ⟨pieces, plains, filled, spelled, opened, filling, rfl⟩ := right whole found
            refine ⟨⟨none⟩ :: pieces, plain :: plains, plain ++ filled, .chunk spelled, ?_, ?_, ?_⟩
            · obtain ⟨inside, rfl⟩ := List.getElem?_eq_some_iff.mp here
              rw [← getElem_cons_drop inside]
              exact .cons opens opened
            · rw [fill, filling]
              rfl
            · rw [List.append_assoc]
      · by_cases isLiteral : tag = auditRecipeLiteral
        · subst isLiteral
          rcases @assemblePieces_literal ε openAuditBlob auditKey chunks next assembled rest with
            ⟨refused, -⟩ | ⟨length, literal, later, split, some_length, reads, taken⟩
          · exact ⟨_, refused, nofun⟩
          · have lengths := congrArg List.length split
            rw [length_append, length_append] at lengths
            obtain ⟨outcome, same, right⟩ := ih later.length (by omega) next (assembled ++ literal) later rfl
            refine ⟨outcome, taken.trans same, fun whole found => ?_⟩
            obtain ⟨pieces, plains, filled, spelled, opened, filling, rfl⟩ := right whole found
            refine ⟨⟨some literal⟩ :: pieces, plains, literal ++ filled, ?_, opened, ?_, ?_⟩
            · rw [split] at reads ⊢
              exact .literal some_length reads spelled
            · rw [fill, filling]
              rfl
            · rw [List.append_assoc]
        · rw [assemblePieces, if_neg isChunk, if_neg isLiteral]
          exact ⟨_, rfl, nofun⟩

variable {pieces : List AuditRecipePiece}

theorem assemblePieces_spelled (spelled : Spelled rest pieces) (fits : rest.length < 2 ^ 64) {next : Nat}
    (opened : Opened openAuditBlob auditKey (chunks.drop next) plains) {filled : Bytes}
    (filling : fill pieces plains = some filled) (assembled : Bytes) (used : next ≤ chunks.length) :
    assemblePieces openAuditBlob auditKey chunks next assembled rest = some (.ok (assembled ++ filled)) := by
  induction spelled generalizing next plains filled assembled with
  | nil =>
    cases plains with
    | cons plain plains => cases filling
    | nil =>
      cases filling
      have none_left := opened.length_eq
      rw [length_drop, length_nil] at none_left
      rw [assemblePieces, if_neg (by omega), append_nil]
  | chunk spelled ih =>
    rw [length_cons] at fits
    cases plains with
    | nil => cases filling
    | cons plain plains =>
      rw [fill] at filling
      obtain ⟨rest, found, rfl⟩ := Option.map_eq_some_iff.mp filling
      have some_left := opened.length_eq
      rw [length_drop, length_cons] at some_left
      have inside : next < chunks.length := by omega
      rw [← getElem_cons_drop inside] at opened
      obtain ⟨opens, opened⟩ := forall₂_cons.mp opened
      rw [assemblePieces_chunk, getElem?_eq_getElem inside]
      dsimp only
      rw [opens]
      dsimp only
      rw [ih (by omega) opened found _ inside, List.append_assoc]
  | literal some_length reads spelled ih =>
    rename_i length literal rest pieces
    rw [fill] at filling
    obtain ⟨more, found, rfl⟩ := Option.map_eq_some_iff.mp filling
    rw [length_cons] at fits
    rcases @assemblePieces_literal ε openAuditBlob auditKey chunks next assembled (length ++ (literal ++ rest)) with
      ⟨-, refused⟩ | ⟨length', literal', rest', split, -, reads', taken⟩
    · rw [reads] at refused
      dsimp only at refused
      simp only [length_append, uint64] at refused fits
      omega
    · obtain ⟨sizes, lengths⟩ := Prod.mk.inj (reads.symm.trans reads')
      obtain ⟨rfl, inner⟩ := append_inj split (Int.ofNat.inj lengths)
      obtain ⟨rfl, rfl⟩ := append_inj inner sizes
      simp only [length_append] at fits
      rw [taken, ih (by omega) opened found _ used, List.append_assoc]

theorem assemble_ok (recipe : Bytes) (chunks : List AuditChunk) :
    ∃ outcome, assembleAuditRecipe openAuditBlob auditKey recipe chunks = some outcome ∧
      ∀ whole, outcome = .ok whole → ∃ rest pieces plains, recipe = auditRecipeVersion :: rest ∧ Spelled rest pieces ∧
        Opened openAuditBlob auditKey chunks plains ∧ fill pieces plains = some whole := by
  unfold assembleAuditRecipe
  by_cases versioned : recipe.head? ≠ some auditRecipeVersion
  · rw [if_pos versioned]
    exact ⟨_, rfl, nofun⟩
  · rw [if_neg versioned]
    obtain ⟨rest, rfl⟩ := head?_eq_some_iff.mp (Decidable.not_not.mp versioned)
    obtain ⟨outcome, same, right⟩ := @assemblePieces_total ε openAuditBlob auditKey chunks 0 [] rest
    refine ⟨outcome, same, fun whole found => ?_⟩
    obtain ⟨pieces, plains, filled, spelled, opened, filling, rfl⟩ := right whole found
    exact ⟨rest, pieces, plains, rfl, spelled, opened, filling⟩

theorem assemble_encoded {whole : Bytes} (fits : (encodeAuditRecipe pieces).length < 2 ^ 63)
    (opened : Opened openAuditBlob auditKey chunks plains) (filling : fill pieces plains = some whole) :
    assembleAuditRecipe openAuditBlob auditKey (encodeAuditRecipe pieces) chunks = some (.ok whole) := by
  rw [encodeAuditRecipe, length_cons] at fits
  have short : (pieces.flatMap encodePiece).length < 2 ^ 64 := by omega
  rw [assembleAuditRecipe, encodeAuditRecipe, if_neg (by simp), tail_cons,
    assemblePieces_spelled (encode_spelled short) short opened filling [] (Nat.zero_le _), nil_append]

end

end AstrLink.AuditRecipes
