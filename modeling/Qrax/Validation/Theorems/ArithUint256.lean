import Qrax.Validation.ArithUint256

open Nat List BitVec

namespace Qrax

namespace BaseUint

variable {pn b : BaseUint}

def value (pn : BaseUint) : ℕ :=
  Nat.ofDigits (2 ^ 32) (pn.map BitVec.toNat)

theorem value_cons (d : BitVec 32) (pn : BaseUint) : value (d :: pn) = d.toNat + 2 ^ 32 * value pn :=
  ofDigits_cons ..

theorem value_replicate_zero (width : ℕ) : value (replicate width 0) = 0 := by
  rw [value, map_replicate]
  exact ofDigits_replicate_zero ..

theorem value_lt (pn : BaseUint) : value pn < 2 ^ (32 * pn.length) := by
  rw [pow_mul, ← List.length_map BitVec.toNat]
  exact ofDigits_lt_base_pow_length (by norm_num) (forall_mem_map.mpr fun d _ => d.isLt)

theorem pow_width (width : ℕ) : 2 ^ (32 * (width + 1)) = 2 ^ 32 * 2 ^ (32 * width) := by
  rw [Nat.mul_succ, Nat.add_comm, pow_add]

-- No sum of the loop exceeds 64 bits, and what it carries fits in 32.
theorem addMul_value {a : BitVec 32} {carry : BitVec 64} (small : carry.toNat < 2 ^ 32)
    (long : pn.length ≤ b.length) :
    (addMul a carry b pn).length = pn.length ∧
      value (addMul a carry b pn) ≡ carry.toNat + value pn + a.toNat * value b [MOD 2 ^ (32 * pn.length)] := by
  induction pn generalizing b carry
  case nil => exact ⟨by simp [addMul], modEq_one⟩
  case cons d pn ih =>
    obtain _ | ⟨e, b⟩ := b
    case nil => cases long
    case cons =>
      have product := mul_le_mul (le_sub_one_of_lt a.isLt) (le_sub_one_of_lt e.isLt)
      have lt := d.isLt
      have exact : (carry + d.setWidth 64 + a.setWidth 64 * e.setWidth 64).toNat =
          carry.toNat + d.toNat + a.toNat * e.toNat := by
        simp only [toNat_add, toNat_mul, toNat_setWidth]
        rw [mod_eq_of_lt (show d.toNat < 2 ^ 64 by omega), mod_eq_of_lt (show a.toNat < 2 ^ 64 by omega),
          mod_eq_of_lt (show e.toNat < 2 ^ 64 by omega)]
        omega
      simp only [addMul, length_cons]
      generalize carry + d.setWidth 64 + a.setWidth 64 * e.setWidth 64 = n at exact
      have high : (n >>> 32).toNat = n.toNat / 2 ^ 32 := by simp [shiftRight_eq_div_pow]
      have low : (n.setWidth 32).toNat = n.toNat % 2 ^ 32 := toNat_setWidth ..
      obtain ⟨length, eq⟩ := ih (show (n >>> 32).toNat < 2 ^ 32 by omega) (le_of_succ_le_succ long)
      refine ⟨congrArg succ length, ?_⟩
      rw [value_cons, value_cons, value_cons, pow_width, low]
      refine ((eq.mul_left' (2 ^ 32)).add_left (n.toNat % 2 ^ 32)).trans (congrArg (· % _) ?_)
      have split := mod_add_div n.toNat (2 ^ 32)
      rw [high]
      linear_combination split + exact

theorem mulRows_value (a : BaseUint) (short : a.length ≤ pn.length) (long : pn.length ≤ b.length) :
    (mulRows b a pn).length = pn.length ∧
      value (mulRows b a pn) ≡ value pn + value a * value b [MOD 2 ^ (32 * pn.length)] := by
  induction a generalizing pn
  case nil => exact ⟨by simp [mulRows], by simp [mulRows, value, Nat.ModEq.refl]⟩
  case cons d a ih =>
    obtain ⟨length, row⟩ := addMul_value (a := d) (show (0 : BitVec 64).toNat < 2 ^ 32 by decide) long
    rw [show (0 : BitVec 64).toNat = 0 from rfl, zero_add] at row
    rw [length_cons] at short
    simp only [mulRows]
    cases eq : addMul d 0 b pn
    case nil =>
      rw [eq] at length
      exact absurd (length.trans_ge short) (not_succ_le_zero _)
    case cons e rest =>
      rw [eq, length_cons] at length
      obtain ⟨length', rows⟩ := ih (show a.length ≤ rest.length by omega) (show rest.length ≤ b.length by omega)
      rw [eq, ← length, pow_width, value_cons] at row
      rw [← length, pow_width, value_cons, value_cons]
      refine ⟨congrArg succ length', ((rows.mul_left' (2 ^ 32)).add_left e.toNat).trans ?_⟩
      convert row.add_right (2 ^ 32 * (value a * value b)) using 1 <;> ring

theorem value_of_modEq {width n : ℕ} (h : pn.length = width ∧ value pn ≡ n [MOD 2 ^ (32 * width)]) :
    value pn = n % 2 ^ (32 * width) := by
  obtain ⟨rfl, eq⟩ := h
  exact (mod_eq_of_lt (value_lt pn)).symm.trans eq

theorem mul32_value (pn : BaseUint) (c : BitVec 32) :
    value (mul32 pn c) = value pn * c.toNat % 2 ^ (32 * pn.length) := by
  have spec := addMul_value (a := c) (show (0 : BitVec 64).toNat < 2 ^ 32 by decide)
    (length_replicate (a := (0 : BitVec 32)) (n := pn.length)).le
  rw [length_replicate, value_replicate_zero, add_zero, show (0 : BitVec 64).toNat = 0 from rfl, zero_add,
    mul_comm c.toNat] at spec
  exact value_of_modEq spec

theorem mul_value (same : pn.length = b.length) : value (mul pn b) = value pn * value b % 2 ^ (32 * pn.length) := by
  have width : (List.replicate pn.length (0 : BitVec 32)).length = pn.length := List.length_replicate
  have spec := mulRows_value pn width.ge (width.trans same).le
  rw [width, value_replicate_zero, zero_add] at spec
  exact value_of_modEq spec

end BaseUint

namespace Uint256

theorem bits_spec (bn : Uint256) : bn.toNat < 2 ^ bn.bits ∧ (bn.bits ≠ 0 → 2 ^ (bn.bits - 1) ≤ bn.toNat) := by
  rw [bits]
  split
  case isTrue zero => exact ⟨zero ▸ one_pos, fun ne => absurd rfl ne⟩
  case isFalse ne =>
    have pos : bn.toNat ≠ 0 := fun zero => ne (eq_of_toNat_eq zero)
    exact ⟨lt_log2_self, fun _ => log2_self_le pos⟩

-- With `N` for the number and `D` for the divisor.
theorem divRounds_eq {N D rounds : ℕ} {num div quotient : Uint256} (aligned : div.toNat = D * 2 ^ rounds / 2)
    (small : num.toNat < D * 2 ^ rounds) (high : 2 ^ rounds ∣ quotient.toNat)
    (sum : N = num.toNat + D * quotient.toNat) (le : rounds ≤ 256) :
    (divRounds rounds num div quotient).toNat = N / D := by
  induction rounds generalizing num div quotient
  case zero =>
    rw [pow_zero, mul_one] at small
    rw [divRounds, sum, add_mul_div_left _ _ (by omega), div_eq_of_lt small, zero_add]
  case succ shift ih =>
    rw [pow_succ, ← Nat.mul_assoc, Nat.mul_div_cancel _ two_pos] at aligned
    rw [pow_succ, ← mul_assoc] at small
    have halved : (div >>> 1).toNat = D * 2 ^ shift / 2 := by
      rw [toNat_ushiftRight, shiftRight_one, aligned]
    rw [divRounds]
    split
    case isFalse less =>
      have lt := lt_def.mp (BitVec.not_le.mp less)
      exact ih halved (aligned ▸ lt) ((pow_dvd_pow 2 (le_succ _)).trans high) sum (by omega)
    case isTrue ge =>
      have lower := le_def.mp ge
      have bit : (quotient ||| 1#256 <<< shift).toNat = quotient.toNat + 2 ^ shift := by
        obtain ⟨c, eq⟩ := high
        have fits : 2 ^ shift < 2 ^ 256 := Nat.pow_lt_pow_right one_lt_two le
        rw [toNat_or, toNat_shiftLeft, toNat_one (by norm_num), one_shiftLeft,
          mod_eq_of_lt fits, eq, two_pow_add_eq_or_of_lt (Nat.pow_lt_pow_succ one_lt_two)]
      have rest : (num - div).toNat = num.toNat - D * 2 ^ shift := by rw [toNat_sub_of_le ge, aligned]
      refine ih halved (by omega) ?_ ?_ (by omega)
      · rw [bit]
        exact ((pow_dvd_pow 2 (le_succ _)).trans high).add dvd_rfl
      · rw [bit, rest, Nat.mul_add]
        omega

theorem divide_eq (num : Uint256) {div : Uint256} (ne : div ≠ 0) : num.divide div = .ok (num / div) := by
  obtain ⟨below, above⟩ := bits_spec num
  obtain ⟨below', above'⟩ := bits_spec div
  have pos : div.bits ≠ 0 := by
    intro zero
    rw [zero, pow_zero, Nat.lt_one_iff] at below'
    exact ne (eq_of_toNat_eq below')
  replace above' := above' pos
  rw [divide, if_neg pos]
  split
  case isTrue less =>
    have lt := (below.trans_le (Nat.pow_le_pow_right two_pos (Nat.le_sub_one_of_lt less))).trans_le above'
    refine congrArg _ (eq_of_toNat_eq ?_)
    rw [toNat_udiv, div_eq_of_lt lt]
    rfl
  case isFalse ge =>
    obtain ⟨s, eq⟩ := Nat.exists_eq_add_of_le (not_lt.mp ge)
    have width : num.bits ≤ 256 := by
      have := (Nat.pow_lt_pow_iff_right one_lt_two).mp ((above (by omega)).trans_lt num.isLt)
      omega
    rw [eq, Nat.add_sub_cancel_left]
    refine congrArg _ (eq_of_toNat_eq ((divRounds_eq ?_ ?_ (dvd_zero _) rfl (by omega)).trans
      toNat_udiv.symm))
    · rw [BitVec.toNat_shiftLeft, Nat.shiftLeft_eq, pow_succ 2 s, ← Nat.mul_assoc, Nat.mul_div_cancel _ two_pos]
      refine Nat.mod_eq_of_lt (((Nat.mul_lt_mul_right (Nat.two_pow_pos s)).mpr below').trans_le ?_)
      rw [← Nat.pow_add, ← eq]
      exact Nat.pow_le_pow_right two_pos width
    · refine below.trans_le (le_trans (le_of_eq ?_) (mul_le_mul_right _ above'))
      rw [← pow_add, eq]
      congr 1
      omega

end Uint256

end Qrax
