import AstrLink.Chunking

/-!
Cut points of audit chunks, by a gear hash with a stricter mask below the average size. What decides a cut
lies before it, so a history cuts alike whatever is appended (`cut_stable`).
-/
namespace AstrLink.AuditChunks
open List

abbrev Bytes := List UInt8

def auditChunkMinBytes : Nat := 2 <<< 10

def auditChunkAvgBytes : Nat := 8 <<< 10

def auditChunkMaxBytes : Nat := 64 <<< 10

/-- Below the average a boundary is harder to hit, above it easier. -/
def auditChunkMaskSmall : UInt64 := ((1 : UInt64) <<< 15 - 1) <<< (64 - 15)

def auditChunkMaskLarge : UInt64 := ((1 : UInt64) <<< 11 - 1) <<< (64 - 11)

def gearValue (state : UInt64) : UInt64 :=
  let value := (state ^^^ (state >>> 30)) * 0xbf58476d1ce4e5b9
  let value := (value ^^^ (value >>> 27)) * 0x94d049bb133111eb
  value ^^^ (value >>> 31)

def gearTable (state : UInt64) : Nat → List UInt64
  | 0 => []
  | count + 1 => gearValue (state + 0x9e3779b97f4a7c15) :: gearTable (state + 0x9e3779b97f4a7c15) count

def auditChunkGear : List UInt64 := gearTable 0x6a09e667f3bcc909 256

/-- The bytes taken until the masked hash is zero, or the hash after all of them. -/
def roll (mask hash : UInt64) : Bytes → Except UInt64 Nat
  | [] => .error hash
  | byte :: rest =>
    let hash := hash <<< 1 + auditChunkGear.getD byte.toNat 0
    if hash &&& mask = 0 then .ok 1 else (roll mask hash rest).map (· + 1)

def auditChunkCut (data : Bytes) : Nat :=
  if data.length ≤ auditChunkMinBytes then data.length
  else
    let size := min data.length auditChunkMaxBytes
    let normal := min size auditChunkAvgBytes
    match roll auditChunkMaskSmall 0 ((data.take normal).drop auditChunkMinBytes) with
    | .ok count => auditChunkMinBytes + count
    | .error hash =>
      match roll auditChunkMaskLarge hash ((data.take size).drop normal) with
      | .ok count => normal + count
      | .error _ => size

variable {data : Bytes}
variable {mask hash : UInt64} {count : Nat}

theorem roll_ok (found : roll mask hash data = .ok count) : count ≤ data.length := by
  induction data generalizing hash count with
  | nil => cases found
  | cons byte rest ih =>
    rw [roll] at found
    rw [length_cons]
    split at found
    · cases found
      omega
    · cases later : roll mask (hash <<< 1 + auditChunkGear.getD byte.toNat 0) rest with
      | error hash => rw [later] at found; cases found
      | ok more =>
        rw [later] at found
        cases found
        exact Nat.succ_le_succ (ih later)

theorem roll_append (found : roll mask hash data = .ok count) (more : Bytes) :
    roll mask hash (data ++ more) = .ok count := by
  induction data generalizing hash count with
  | nil => cases found
  | cons byte rest ih =>
    rw [cons_append]
    rw [roll] at found ⊢
    split at found
    · rename_i zero
      rw [if_pos zero]
      exact found
    · rename_i other
      rw [if_neg other]
      cases later : roll mask (hash <<< 1 + auditChunkGear.getD byte.toNat 0) rest with
      | error hash => rw [later] at found; cases found
      | ok further =>
        rw [later] at found
        rw [ih later]
        exact found

theorem auditChunkCut_cases (long : auditChunkMinBytes < data.length) {size normal : Nat}
    (sized : size = min data.length auditChunkMaxBytes) (normally : normal = min size auditChunkAvgBytes) :
    (∃ count, roll auditChunkMaskSmall 0 ((data.take normal).drop auditChunkMinBytes) = .ok count ∧
        auditChunkCut data = auditChunkMinBytes + count) ∨
      ∃ hash, roll auditChunkMaskSmall 0 ((data.take normal).drop auditChunkMinBytes) = .error hash ∧
        ((∃ count, roll auditChunkMaskLarge hash ((data.take size).drop normal) = .ok count ∧
            auditChunkCut data = normal + count) ∨
          ((∃ hash', roll auditChunkMaskLarge hash ((data.take size).drop normal) = .error hash') ∧
            auditChunkCut data = size)) := by
  subst sized normally
  unfold auditChunkCut
  rw [if_neg (Nat.not_le.mpr long)]
  dsimp only
  cases roll auditChunkMaskSmall 0 ((data.take (min (min data.length auditChunkMaxBytes) auditChunkAvgBytes)).drop
      auditChunkMinBytes) with
  | ok count => exact .inl ⟨count, rfl, rfl⟩
  | error hash =>
    refine .inr ⟨hash, rfl, ?_⟩
    dsimp only
    cases roll auditChunkMaskLarge hash ((data.take (min data.length auditChunkMaxBytes)).drop
        (min (min data.length auditChunkMaxBytes) auditChunkAvgBytes)) with
    | ok count => exact .inl ⟨count, rfl, rfl⟩
    | error hash' => exact .inr ⟨⟨hash', rfl⟩, rfl⟩

theorem sizes : 0 < auditChunkMinBytes ∧ auditChunkMinBytes < auditChunkAvgBytes ∧ auditChunkAvgBytes < auditChunkMaxBytes := by
  decide

theorem cut_within (data : Bytes) : auditChunkCut data ≤ min data.length auditChunkMaxBytes := by
  obtain ⟨pos, small, large⟩ := sizes
  by_cases short : data.length ≤ auditChunkMinBytes
  · rw [auditChunkCut, if_pos short]
    omega
  · rcases auditChunkCut_cases (Nat.lt_of_not_le short) rfl rfl with
      ⟨count, found, here⟩ | ⟨hash, -, ⟨count, found, here⟩ | ⟨-, here⟩⟩
    · have bound := roll_ok found
      rw [length_drop, length_take] at bound
      omega
    · have bound := roll_ok found
      rw [length_drop, length_take] at bound
      omega
    · exact Nat.le_of_eq here

theorem roll_pos (found : roll mask hash data = .ok count) : 0 < count := by
  cases data with
  | nil => cases found
  | cons byte rest =>
    rw [roll] at found
    split at found
    · cases found
      exact Nat.one_pos
    · cases later : roll mask (hash <<< 1 + auditChunkGear.getD byte.toNat 0) rest with
      | error hash => rw [later] at found; cases found
      | ok more =>
        rw [later] at found
        cases found
        exact Nat.succ_pos more

theorem cut_pos (some_data : data ≠ []) : 0 < auditChunkCut data := by
  obtain ⟨pos, small, large⟩ := sizes
  have some_byte := length_pos_of_ne_nil some_data
  by_cases short : data.length ≤ auditChunkMinBytes
  · rw [auditChunkCut, if_pos short]
    exact some_byte
  · rcases auditChunkCut_cases (Nat.lt_of_not_le short) rfl rfl with
      ⟨count, found, here⟩ | ⟨hash, -, ⟨count, found, here⟩ | ⟨-, here⟩⟩
    · omega
    · have some_taken := roll_pos found
      omega
    · omega

theorem window_append {low : Nat} (limit : Nat) (inside : low ≤ data.length) (more : Bytes) :
    ∃ further, ((data ++ more).take (min (data ++ more).length limit)).drop low =
      (data.take (min data.length limit)).drop low ++ further ∧ (limit ≤ data.length → further = []) := by
  have clipped : ∀ bytes : Bytes, bytes.take (min bytes.length limit) = bytes.take limit := fun bytes => by
    rw [Nat.min_comm, ← take_take, take_length]
  rw [clipped, clipped, take_append]
  rcases Nat.lt_or_ge data.length limit with short | reached
  · refine ⟨more.take (limit - data.length), ?_, fun contra => absurd short (Nat.not_lt.mpr contra)⟩
    rw [take_of_length_le (Nat.le_of_lt short), drop_append_of_le_length inside]
  · refine ⟨[], ?_, fun _ => rfl⟩
    rw [Nat.sub_eq_zero_of_le reached, take_zero, append_nil, append_nil]

theorem cut_stable (early : auditChunkCut data < data.length) (more : Bytes) :
    auditChunkCut (data ++ more) = auditChunkCut data := by
  obtain ⟨pos, small, large⟩ := sizes
  have long : auditChunkMinBytes < data.length := by
    refine Nat.lt_of_not_le fun short => ?_
    rw [auditChunkCut, if_pos short] at early
    exact Nat.lt_irrefl _ early
  have longer : auditChunkMinBytes < (data ++ more).length := by
    rw [length_append]
    omega
  have normal : min data.length auditChunkAvgBytes = min (min data.length auditChunkMaxBytes) auditChunkAvgBytes := by omega
  have normal' : min (data ++ more).length auditChunkAvgBytes =
      min (min (data ++ more).length auditChunkMaxBytes) auditChunkAvgBytes := by omega
  have after := auditChunkCut_cases longer rfl normal'
  obtain ⟨below, belowTaken, belowWhole⟩ := window_append auditChunkAvgBytes (Nat.le_of_lt long) more
  rw [belowTaken] at after
  rcases auditChunkCut_cases long rfl normal with ⟨count, found, here⟩ | ⟨hash, passed, rest⟩
  · have again := roll_append found below
    rcases after with ⟨count', found', here'⟩ | ⟨hash, contra, -⟩
    · rw [again] at found'
      rw [here, here', Except.ok.inj found']
    · rw [again] at contra
      cases contra
  · have reached : auditChunkAvgBytes ≤ data.length := by
      -- Otherwise the stricter mask has seen all of the data, and the cut is its end.
      refine Nat.le_of_not_lt fun under => ?_
      have all_seen : (data.take (min data.length auditChunkMaxBytes)).length ≤ min data.length auditChunkAvgBytes := by
        rw [Nat.min_eq_left (Nat.le_of_lt under)]
        exact length_take_le' _ _
      rw [drop_eq_nil_of_le all_seen] at rest
      rcases rest with ⟨count, found, -⟩ | ⟨-, here⟩
      · cases found
      · have all_read : data.length < auditChunkMaxBytes := Nat.lt_trans under large
        rw [here, Nat.min_eq_left (Nat.le_of_lt all_read)] at early
        exact Nat.lt_irrefl _ early
    have same : min (data ++ more).length auditChunkAvgBytes = auditChunkAvgBytes := by
      rw [length_append]
      omega
    rw [Nat.min_eq_right reached] at rest passed
    rw [same, belowWhole reached, append_nil, Nat.min_eq_right reached, passed] at after
    rcases after with ⟨_, contra, -⟩ | ⟨hash', passed', after⟩
    · cases contra
    · obtain rfl := Except.error.inj passed'
      obtain ⟨above, aboveTaken, aboveWhole⟩ := window_append auditChunkMaxBytes reached more
      rw [aboveTaken] at after
      rcases rest with ⟨count, found, here⟩ | ⟨⟨last, never⟩, here⟩
      · have again := roll_append found above
        rcases after with ⟨count', found', here'⟩ | ⟨⟨_, contra⟩, -⟩
        · rw [again] at found'
          rw [here, here', Except.ok.inj found']
        · rw [again] at contra
          cases contra
      · have full : auditChunkMaxBytes ≤ data.length := by
          refine Nat.le_of_not_lt fun short => ?_
          rw [here, Nat.min_eq_left (Nat.le_of_lt short)] at early
          exact Nat.lt_irrefl _ early
        have fuller : auditChunkMaxBytes ≤ (data ++ more).length := by
          rw [length_append]
          exact Nat.le_add_right_of_le full
        rw [aboveWhole full, append_nil, never] at after
        rcases after with ⟨_, contra, -⟩ | ⟨-, here'⟩
        · cases contra
        · rw [here, here', Nat.min_eq_right full, Nat.min_eq_right fuller]

def auditCutter : Chunking.Cutter UInt8 where
  cut := auditChunkCut
  pos := cut_pos
  within data := Nat.le_trans (cut_within data) (Nat.min_le_left _ _)
  stable := cut_stable

/-- Cuts data into content-defined chunks. -/
def splitAuditChunks (data : Bytes) : List Bytes := Chunking.chunks auditCutter data

end AstrLink.AuditChunks
