import Mathlib

/-!
A Fenwick tree of maxima. Node `n`, counted from one, keeps the largest value at
the positions after `n - lowBit n` up to `n`; what is asked for is the largest
value of a whole prefix.
-/
namespace AstrLink.FenwickTree

/-- `node & -node`, in two's complement. -/
def lowBit (node : Nat) : Nat := (Int.land node (-node)).toNat

theorem lowBit_succ (node : Nat) : lowBit (node + 1) = Nat.ldiff (node + 1) node := rfl

theorem lowBit_odd (power half : Nat) : lowBit (2 ^ power * (2 * half + 1)) = 2 ^ power := by
  have positive : 0 < 2 ^ power := Nat.two_pow_pos power
  have next : 2 ^ power * (2 * half + 1) = 2 ^ (power + 1) * half + 2 ^ power := by
    rw [Nat.pow_succ]
    ring
  have pred : 2 ^ power * (2 * half + 1) = 2 ^ (power + 1) * half + (2 ^ power - 1) + 1 := by omega
  have less : 2 ^ power < 2 ^ (power + 1) := Nat.pow_lt_pow_right (by decide) (by omega)
  rw [pred, lowBit_succ, ← pred, next]
  apply Nat.eq_of_testBit_eq
  intro bit
  rw [Nat.testBit_ldiff, Nat.testBit_two_pow_mul_add _ less, Nat.testBit_two_pow_mul_add _ (by omega)]
  by_cases low : bit < power + 1
  · rw [if_pos low, if_pos low, Nat.testBit_two_pow, Nat.testBit_two_pow_sub_one]
    by_cases same : power = bit <;> simp [same]
  · rw [if_neg low, if_neg low, Nat.testBit_two_pow, Bool.and_not_self]
    simp
    omega

variable {node : Nat}

theorem lowBit_spec (positive : 0 < node) :
    ∃ power half, node = 2 ^ power * (2 * half + 1) ∧ lowBit node = 2 ^ power := by
  obtain ⟨power, odd, ⟨half, rfl⟩, same⟩ := Nat.exists_eq_two_pow_mul_odd positive.ne'
  exact ⟨power, half, same, by rw [same, lowBit_odd]⟩

theorem lowBit_pos {node : Nat} (positive : 0 < node) : 0 < lowBit node := by
  obtain ⟨power, half, -, low⟩ := lowBit_spec positive
  rw [low]
  exact Nat.two_pow_pos power

def Covers (node position : Nat) : Prop := node - lowBit node < position ∧ position ≤ node

instance (node position : Nat) : Decidable (Covers node position) := inferInstanceAs (Decidable (_ ∧ _))

theorem covers_self (positive : 0 < node) : Covers node node := by
  have low := lowBit_pos positive
  exact ⟨by omega, le_refl _⟩

variable {position : Nat}

theorem covers_next (positive : 0 < node) (covers : Covers node position) : Covers (node + lowBit node) position := by
  obtain ⟨after, within⟩ := covers
  obtain ⟨power, half, same, low⟩ := lowBit_spec positive
  have above : 0 < node + lowBit node := by omega
  obtain ⟨power', half', same', low'⟩ := lowBit_spec above
  refine ⟨?_, by omega⟩
  have doubled : node + lowBit node = 2 ^ (power + 1) * (half + 1) := by
    rw [low, same, Nat.pow_succ]
    ring
  have start : node - lowBit node = 2 ^ (power + 1) * half := by
    rw [low, same, Nat.pow_succ]
    have split : 2 ^ power * (2 * half + 1) = 2 ^ power * 2 * half + 2 ^ power := by ring
    omega
  -- the bit of the next node is at least twice this one
  have divides : 2 ^ (power + 1) ∣ lowBit (node + lowBit node) := by
    rw [low']
    refine Nat.pow_dvd_pow 2 ?_
    by_contra short
    have even : 2 ^ (power' + 1) ∣ 2 ^ power' * (2 * half' + 1) := by
      rw [← same', doubled]
      exact Dvd.dvd.mul_right (Nat.pow_dvd_pow 2 (by omega)) _
    rw [Nat.pow_succ] at even
    have two : 2 ∣ 2 * half' + 1 := Nat.dvd_of_mul_dvd_mul_left (Nat.two_pow_pos power') even
    omega
  have most := Nat.le_of_dvd (lowBit_pos above) divides
  have more : 2 ^ (power + 1) * (half + 1) = 2 ^ (power + 1) * half + 2 ^ (power + 1) := by ring
  omega

theorem not_covers_between {other : Nat} (positive : 0 < node) (within : position ≤ node) (after : node < other)
    (before : other < node + lowBit node) : ¬ Covers other position := by
  rintro ⟨starts, -⟩
  obtain ⟨power, half, same, low⟩ := lowBit_spec positive
  obtain ⟨power', half', same', low'⟩ := lowBit_spec (show 0 < other by omega)
  have rest : lowBit other ∣ other - node → False := by
    intro divides
    have most := Nat.le_of_dvd (by omega) divides
    omega
  have own : lowBit other ∣ other := ⟨2 * half' + 1, by rw [low']; exact same'⟩
  by_cases longer : power' ≤ power
  · refine rest (Nat.dvd_sub own ?_)
    rw [low', same]
    exact Dvd.dvd.mul_right (Nat.pow_dvd_pow 2 longer) _
  · have both : 2 ^ power ∣ other - node := by
      refine Nat.dvd_sub ?_ ⟨2 * half + 1, same⟩
      rw [same']
      exact Dvd.dvd.mul_right (Nat.pow_dvd_pow 2 (by omega)) _
    have most := Nat.le_of_dvd (by omega) both
    omega

section
variable {α : Type} [LinearOrder α]

/-- Raises every node above a position, from `node` upwards. -/
def raise (tree : List α) (value : α) (node : Nat) : List α :=
  if 0 < node ∧ node ≤ tree.length then
    raise (tree.modify (node - 1) (max · value)) value (node + lowBit node)
  else tree
termination_by tree.length + 1 - node
decreasing_by
  have low := @lowBit_pos node (by omega)
  rw [List.length_modify]
  omega

/-- Whether a position up to `node` has a value over the bound. -/
def exceeds (tree : List α) (bound : α) (node : Nat) : Bool :=
  if 0 < node then tree[node - 1]?.any (bound < ·) || exceeds tree bound (node - lowBit node) else false
termination_by node
decreasing_by
  have low := @lowBit_pos node (by omega)
  omega

/-- The tree keeps the values that were entered at positions, over a floor. -/
def Keeps (tree : List α) (floor : α) (entries : List (Nat × α)) : Prop :=
  ∀ index most, tree[index]? = some most → ∀ bound, floor ≤ bound →
    (bound < most ↔ ∃ entry ∈ entries, Covers (index + 1) entry.1 ∧ bound < entry.2)

theorem Keeps.none (size : Nat) (floor : α) : Keeps (List.replicate size floor) floor [] := by
  intro index most found bound above
  have same : most = floor := List.eq_of_mem_replicate (List.mem_of_getElem? found)
  constructor
  · intro beyond
    rw [same] at beyond
    exact absurd beyond (not_lt.mpr above)
  · rintro ⟨entry, member, -⟩
    cases member

@[simp] theorem length_raise (tree : List α) (value : α) (node : Nat) : (raise tree value node).length = tree.length := by
  fun_induction raise tree value node with
  | case1 tree node inside ih => rw [ih, List.length_modify]
  | case2 => rfl

theorem raise_get (tree : List α) (value : α) (node : Nat) (covers : Covers node position) (index : Nat) :
    (raise tree value node)[index]? =
      tree[index]?.map fun most => if node ≤ index + 1 ∧ Covers (index + 1) position then max most value else most := by
  fun_induction raise tree value node with
  | case1 tree node inside ih =>
    have low := lowBit_pos inside.1
    rw [ih (covers_next inside.1 covers), List.getElem?_modify]
    cases found : tree[index]? with
    | none => rfl
    | some most =>
      by_cases here : node - 1 = index
      · have same : node = index + 1 := by omega
        rw [Option.map_eq_map, Option.map_some, if_pos here, Option.map_some, Option.map_some, if_neg (by omega),
          if_pos ⟨by omega, same ▸ covers⟩]
      · rw [Option.map_eq_map, Option.map_some, if_neg here, Option.map_some, Option.map_some]
        by_cases above : node + lowBit node ≤ index + 1
        · by_cases covered : Covers (index + 1) position
          · rw [if_pos ⟨above, covered⟩, if_pos ⟨by omega, covered⟩]
          · rw [if_neg (fun both => covered both.2), if_neg (fun both => covered both.2)]
        · rw [if_neg (fun both => above both.1), if_neg]
          rintro ⟨after, covered⟩
          exact not_covers_between inside.1 covers.2 (by omega) (by omega) covered
  | case2 tree node outside =>
    cases found : tree[index]? with
    | none => rfl
    | some most =>
      have within := (List.getElem?_eq_some_iff.mp found).1
      rw [Option.map_some, if_neg]
      rintro ⟨after, covered⟩
      have positive : 0 < position := Nat.lt_of_le_of_lt (Nat.zero_le _) covers.1
      have atMost := covers.2
      omega

theorem Keeps.raise {tree : List α} {floor : α} {entries : List (Nat × α)} (keeps : Keeps tree floor entries)
    {position : Nat} (positive : 0 < position) (value : α) :
    Keeps (raise tree value position) floor ((position, value) :: entries) := by
  intro index most found bound above
  rw [raise_get tree value position (covers_self positive)] at found
  obtain ⟨old, stored, rfl⟩ := Option.map_eq_some_iff.mp found
  have before := keeps index old stored bound above
  rw [List.exists_mem_cons_iff]
  by_cases covered : Covers (index + 1) position
  · rw [if_pos ⟨covered.2, covered⟩, lt_max_iff, before]
    constructor
    · rintro (older | newer)
      · exact .inr older
      · exact .inl ⟨covered, newer⟩
    · rintro (⟨-, newer⟩ | older)
      · exact .inr newer
      · exact .inl older
  · rw [if_neg (fun both => covered both.2), before]
    constructor
    · exact .inr
    · rintro (⟨contra, -⟩ | older)
      · exact absurd contra covered
      · exact older

theorem exceeds_iff {tree : List α} {floor bound : α} {entries : List (Nat × α)} (keeps : Keeps tree floor entries)
    (above : floor ≤ bound) (positive : ∀ entry ∈ entries, 0 < entry.1) (node : Nat) (inside : node ≤ tree.length) :
    exceeds tree bound node = true ↔ ∃ entry ∈ entries, entry.1 ≤ node ∧ bound < entry.2 := by
  induction same : node using Nat.strongRecOn generalizing node with
  | ind count ih =>
    subst same
    rw [exceeds]
    split
    · rename_i some_node
      have low := lowBit_pos some_node
      have stored : tree[node - 1]? = some tree[node - 1] := List.getElem?_eq_getElem (by omega)
      have here := keeps (node - 1) _ stored bound above
      rw [Nat.sub_add_cancel some_node] at here
      rw [Bool.or_eq_true, ih (node - lowBit node) (by omega) _ (by omega) rfl, stored, Option.any_some, decide_eq_true_iff,
        here]
      constructor
      · rintro (⟨entry, member, covered, beyond⟩ | ⟨entry, member, atMost, beyond⟩)
        · exact ⟨entry, member, covered.2, beyond⟩
        · exact ⟨entry, member, by omega, beyond⟩
      · rintro ⟨entry, member, atMost, beyond⟩
        by_cases first : node - lowBit node < entry.1
        · exact .inl ⟨entry, member, ⟨first, atMost⟩, beyond⟩
        · exact .inr ⟨entry, member, by omega, beyond⟩
    · constructor
      · intro contra
        cases contra
      · rintro ⟨entry, member, atMost, -⟩
        have first := positive entry member
        omega

end

end AstrLink.FenwickTree
