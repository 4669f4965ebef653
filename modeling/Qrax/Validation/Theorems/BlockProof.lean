import Qrax.Validation.Theorems.Compact

open List BitVec

namespace Qrax

-- A target other than zero, with neither flag.
structure IsTarget (nBits : UInt32) : Prop where
  ne : (setCompact nBits).1 ≠ 0
  flags : (setCompact nBits).2 = (false, false)

variable {nBits : UInt32}

-- A mantissa of three bytes leaves zeros behind it, so the division is not by zero.
theorem setCompact_succ_lt (nBits : UInt32) : (setCompact nBits).1.toNat + 1 < 2 ^ 256 := by
  have lt := (setCompact nBits).1.isLt
  have value := setCompact_value (c := nBits) rfl rfl
  rw [compactValue] at value
  split at value
  case isTrue =>
    have small := Nat.div_le_self (nBits.toNat % 2 ^ 23) (2 ^ (8 * (3 - nBits.toNat / 2 ^ 24)))
    have mantissa := Nat.mod_lt nBits.toNat (Nat.two_pow_pos 23)
    have reduced := Nat.mod_le (nBits.toNat % 2 ^ 23 / 2 ^ (8 * (3 - nBits.toNat / 2 ^ 24))) (2 ^ 256)
    omega
  case isFalse large =>
    have even : 2 ∣ (setCompact nBits).1.toNat := by
      rw [value, Nat.dvd_mod_iff (by norm_num)]
      exact Dvd.dvd.mul_left (dvd_pow_self 2 (by omega)) _
    omega

theorem IsTarget.getBlockProof_eq (h : IsTarget nBits) :
    (getBlockProof nBits).toNat = 2 ^ 256 / ((setCompact nBits).1.toNat + 1) := by
  have lt := setCompact_succ_lt nBits
  have pos : (setCompact nBits).1.toNat ≠ 0 := fun zero => h.ne (eq_of_toNat_eq zero)
  have eq : getBlockProof nBits = ~~~(setCompact nBits).1 / ((setCompact nBits).1 + 1) + 1 := by
    have ne : ((setCompact nBits).1 == 0) = false := beq_eq_false_iff_ne.mpr h.ne
    simp only [getBlockProof, h.flags, ne, Bool.or_self, Bool.false_eq_true, if_false]
  rw [eq]
  generalize (setCompact nBits).1 = t at lt pos
  have divisor : (t + 1).toNat = t.toNat + 1 := by
    rw [toNat_add]
    exact Nat.mod_eq_of_lt lt
  have exact : 2 ^ 256 / (t.toNat + 1) = (2 ^ 256 - 1 - t.toNat) / (t.toNat + 1) + 1 := by
    rw [← Nat.add_div_right _ (Nat.succ_pos _)]
    congr 1
    omega
  have fits : 2 ^ 256 / (t.toNat + 1) < 2 ^ 256 := Nat.div_lt_self (by norm_num) (by omega)
  rw [exact] at fits ⊢
  rw [toNat_add, toNat_udiv, toNat_not, divisor]
  exact Nat.mod_eq_of_lt fits

theorem toNat_foldl_work (chain : List UInt32) (work : Uint256)
    (fits : work.toNat + (chain.map fun nBits => (getBlockProof nBits).toNat).sum < 2 ^ 256) :
    (chain.foldl (fun nChainWork nBits => nChainWork + getBlockProof nBits) work).toNat =
      work.toNat + (chain.map fun nBits => (getBlockProof nBits).toNat).sum := by
  induction chain generalizing work
  case nil => rfl
  case cons nBits chain ih =>
    rw [map_cons, sum_cons] at fits ⊢
    have step : (work + getBlockProof nBits).toNat = work.toNat + (getBlockProof nBits).toNat := by
      rw [toNat_add]
      exact Nat.mod_eq_of_lt (by omega)
    rw [foldl_cons, ih _ (by omega), step, Nat.add_assoc]

theorem toNat_chainWork (chain : List UInt32)
    (fits : (chain.map fun nBits => (getBlockProof nBits).toNat).sum < 2 ^ 256) :
    (chainWork chain).toNat = (chain.map fun nBits => (getBlockProof nBits).toNat).sum := by
  have zero : (0 : Uint256).toNat = 0 := rfl
  have work := toNat_foldl_work chain 0 (by rwa [zero, Nat.zero_add])
  rwa [zero, Nat.zero_add] at work

theorem getBlockProof_chainWork :
    (∀ nBits, IsTarget nBits → (setCompact nBits).1 + 1 ≠ 0 ∧
      (getBlockProof nBits).toNat = 2 ^ 256 / ((setCompact nBits).1.toNat + 1) ∧ 1 ≤ (getBlockProof nBits).toNat) ∧
    (∀ nBits nBits', IsTarget nBits → IsTarget nBits' → (setCompact nBits).1 ≤ (setCompact nBits').1 →
      getBlockProof nBits' ≤ getBlockProof nBits) ∧
    ∀ chain : List UInt32, (∀ nBits ∈ chain, IsTarget nBits) →
      (chain.map fun nBits => 2 ^ 256 / ((setCompact nBits).1.toNat + 1)).sum < 2 ^ 256 →
      ∀ parents nBits children, chain = parents ++ nBits :: children →
        chainWork parents < chainWork (parents ++ [nBits]) := by
  have proof (nBits : UInt32) (h : IsTarget nBits) : 1 ≤ (getBlockProof nBits).toNat := by
    rw [h.getBlockProof_eq]
    exact Nat.div_pos (setCompact_succ_lt nBits).le (Nat.succ_pos _)
  refine ⟨fun nBits h => ⟨?_, h.getBlockProof_eq, proof nBits h⟩, fun nBits nBits' h h' le => ?_, ?_⟩
  · intro zero
    have lt := setCompact_succ_lt nBits
    have := congrArg BitVec.toNat zero
    rw [toNat_add] at this
    exact absurd (this.symm.trans (Nat.mod_eq_of_lt lt)) (by simp)
  · rw [le_def, h.getBlockProof_eq, h'.getBlockProof_eq]
    exact Nat.div_le_div_left (Nat.succ_le_succ (le_def.mp le)) (Nat.succ_pos _)
  · rintro _ targets fits parents nBits children rfl
    have exact : ((parents ++ nBits :: children).map fun nBits => 2 ^ 256 / ((setCompact nBits).1.toNat + 1)) =
        (parents ++ nBits :: children).map fun nBits => (getBlockProof nBits).toNat :=
      map_congr_left fun nBits mem => ((targets nBits mem).getBlockProof_eq).symm
    rw [exact, map_append, sum_append, map_cons, sum_cons] at fits
    have positive := proof nBits (targets nBits (mem_append_right _ mem_cons_self))
    rw [lt_def, toNat_chainWork parents (by omega), toNat_chainWork (parents ++ [nBits])]
    all_goals
      rw [map_append, sum_append, map_singleton, sum_singleton]
      omega

end Qrax
