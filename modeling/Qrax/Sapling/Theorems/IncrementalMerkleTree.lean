import Qrax.Sapling.IncrementalMerkleTree

open List Nat

namespace Qrax

namespace SaplingMerkleTree

-- The occupied levels as the bits of a number.
def count : List (Option Uint256) → ℕ
  | [] => 0
  | p :: ps => (if p.isSome then 1 else 0) + 2 * count ps

structure Holds (t : SaplingMerkleTree) (n : ℕ) : Prop where
  total : (if t.left.isSome then 1 else 0) + (if t.right.isSome then 1 else 0) + 2 * count t.parents = n
  started : n ≠ 0 → t.left.isSome
  depth : t.parents.length ≤ 31

variable {t : SaplingMerkleTree} {n i : ℕ} {ps : List (Option Uint256)}

theorem count_of_all (all : ps.all Option.isSome) : count ps + 1 = 2 ^ ps.length := by
  induction ps
  case nil => rfl
  case cons p ps ih =>
    obtain ⟨first, all⟩ := Bool.and_eq_true_iff.mp all
    rw [count, if_pos first, length_cons, pow_succ, ← ih all]
    omega

-- Only the last level shifts into the sign.
theorem parentsSize_eq (depth : i + ps.length ≤ 31) :
    parentsSize i ps = 2 ^ (i + 1) * count ps - if 2 ^ 30 ≤ 2 ^ i * count ps then 2 ^ 32 else 0 := by
  induction ps generalizing i
  case nil => simp [parentsSize, count]
  case cons p ps ih =>
    rw [length_cons] at depth
    rw [parentsSize, count, ih (by omega)]
    cases p
    case none => simp only [Option.isSome_none, Bool.false_eq_true, if_false, zero_add, pow_succ, mul_assoc,
      cast_mul, cast_ofNat]
    case some =>
      simp only [Option.isSome_some, if_true]
      obtain rfl | lt := eq_or_lt_of_le (show i ≤ 30 by omega)
      case inl =>
        cases length_eq_zero_iff.mp (show ps.length = 0 by omega)
        decide
      case inr =>
        have positive : Int.bmod (2 ^ (i + 1)) (2 ^ 32) = 2 ^ (i + 1) := by interval_cases i <;> rfl
        have shift : 2 ^ 30 = 2 ^ (i + 1) * 2 ^ (29 - i) := by rw [← pow_add, show i + 1 + (29 - i) = 30 by omega]
        have half : 2 ^ 30 ≤ 2 ^ i * (1 + 2 * count ps) ↔ 2 ^ 30 ≤ 2 ^ (i + 1) * count ps := by
          simp only [shift, pow_succ, mul_assoc, Nat.mul_le_mul_left_iff (Nat.two_pow_pos i)]
          omega
        rw [positive, if_congr half rfl rfl, pow_succ _ (i + 1)]
        push_cast
        ring

theorem Holds.size_eq (h : t.Holds n) (ne : n ≠ 0) (le : n ≤ 2 ^ 32) :
    t.size = if n ≤ 2 ^ 31 then n else (n + (2 ^ 64 - 2 ^ 32)) % 2 ^ 64 := by
  have total := h.total
  rw [if_pos (h.started ne)] at total
  rw [size, parentsSize_eq (by rw [zero_add]; exact h.depth), if_pos (h.started ne)]
  cases right : t.right.isSome
  all_goals
    simp [right] at total ⊢
    split_ifs <;> omega

section

variable [Crypto]

theorem count_propagate (i : ℕ) (combined : Uint256) (ps : List (Option Uint256)) :
    count (propagate i combined ps) = count ps + 1 ∧ (propagate i combined ps).length ≤ ps.length + 1 ∧
      (count ps + 1 < 2 ^ ps.length → (propagate i combined ps).length = ps.length) := by
  induction ps generalizing i combined
  case nil => exact ⟨rfl, le_rfl, fun lt => absurd lt (lt_irrefl 1)⟩
  case cons p ps ih =>
    cases p
    case none => exact ⟨by simp [propagate, count, add_comm], le_succ _, fun _ => rfl⟩
    case some p =>
      obtain ⟨sum, le, same⟩ := ih (i + 1) (Crypto.pedersenCombine p combined (i + 1))
      simp only [propagate, count, length_cons, pow_succ, Option.isSome_none, Option.isSome_some,
        Bool.false_eq_true, if_false, if_true]
      exact ⟨by omega, by omega, fun lt => congrArg succ (same (by omega))⟩

theorem Holds.append (h : t.Holds n) (lt : n < 2 ^ 32) (obj : Uint256) :
    ∃ t', t.append obj = .ok t' ∧ t'.Holds (n + 1) := by
  obtain ⟨total, started, depth⟩ := h
  have room : t.isComplete SAPLING_INCREMENTAL_MERKLE_TREE_DEPTH = false := by
    refine Bool.eq_false_iff.mpr fun complete => ?_
    simp only [isComplete, Bool.and_eq_true, beq_iff_eq] at complete
    obtain ⟨⟨⟨left, right⟩, length⟩, all⟩ := complete
    have full := count_of_all all
    rw [length, SAPLING_INCREMENTAL_MERKLE_TREE_DEPTH] at full
    rw [if_pos left, if_pos right] at total
    omega
  rw [SaplingMerkleTree.append, room]
  obtain ⟨left, right, parents⟩ := t
  cases left
  case none => exact ⟨_, rfl, by simp at total ⊢; omega, fun _ => rfl, depth⟩
  case some l =>
    cases right
    case none => exact ⟨_, rfl, by simp at total ⊢; omega, fun _ => rfl, depth⟩
    case some r =>
      obtain ⟨sum, le, same⟩ := count_propagate 0 (Crypto.pedersenCombine l r 0) parents
      simp at total depth
      -- Before the last leaf some level is free.
      have full (length : parents.length = 31) := same (by rw [length]; omega)
      exact ⟨_, rfl, by simp; omega, fun _ => rfl, by dsimp only; omega⟩

theorem Holds.foldlM {leaves : List Uint256} (h : t.Holds n) (le : n + leaves.length ≤ 2 ^ 32) :
    ∃ t', leaves.foldlM SaplingMerkleTree.append t = .ok t' ∧ t'.Holds (n + leaves.length) := by
  induction leaves generalizing t n
  case nil => exact ⟨t, rfl, h⟩
  case cons obj leaves ih =>
    rw [length_cons] at le ⊢
    obtain ⟨t₁, first, h₁⟩ := h.append (by omega) obj
    obtain ⟨t', rest, h'⟩ := ih h₁ (by omega)
    refine ⟨t', ?_, by rwa [add_right_comm] at h'⟩
    rw [foldlM_cons, first]
    exact rest

theorem exists_foldlM_append {leaves : List Uint256} (le : leaves.length ≤ 2 ^ 32) :
    ∃ t, leaves.foldlM append {} = .ok t ∧ t.Holds leaves.length := by
  have empty : Holds {} 0 := ⟨rfl, absurd rfl, zero_le _⟩
  rw [← zero_add leaves.length] at le ⊢
  exact empty.foldlM le

-- `1 << 31` is negative, so the size is wrong as soon as the last level is occupied.
theorem size_and_position_foldlM_append {leaves : List Uint256} (ne : leaves ≠ []) (le : leaves.length ≤ 2 ^ 32) :
    ∃ t, leaves.foldlM append {} = .ok t ∧
      (t.size = leaves.length ∧ t.witness.position = leaves.length - 1 ↔ leaves.length ≤ 2 ^ 31) := by
  obtain ⟨t, run, h⟩ := exists_foldlM_append le
  have pos := List.length_pos_iff.mpr ne
  have size := h.size_eq (by omega) le
  refine ⟨t, run, ?_⟩
  rw [SaplingWitness.position, witness, size]
  split_ifs <;> omega

end

theorem size_and_position_one_leaf :
    let _crypto := Crypto.toy
    ∃ t, [7#256].foldlM append {} = .ok t ∧ (t.size = 1 ∧ t.witness.position = 0 ↔ 1 ≤ 2 ^ 31) :=
  let _crypto := Crypto.toy
  size_and_position_foldlM_append (List.cons_ne_nil _ _) (by decide)

theorem size_past_half_full :
    let _crypto := Crypto.toy
    ∃ t, (List.replicate (2 ^ 31 + 1) 7#256).foldlM append {} = .ok t ∧
      t.size = 2 ^ 64 - 2 ^ 31 + 1 ∧ t.witness.position = 2 ^ 64 - 2 ^ 31 := by
  intro _crypto
  have length := List.length_replicate (n := 2 ^ 31 + 1) (a := 7#256)
  obtain ⟨t, run, h⟩ := exists_foldlM_append (length.trans_le (by decide))
  rw [length] at h
  have size := h.size_eq (by decide) (by decide)
  refine ⟨t, run, size, ?_⟩
  rw [SaplingWitness.position, witness, size]
  rfl

end SaplingMerkleTree

end Qrax
