import Qrax.Validation.Pow

open BitVec Nat

namespace Qrax

def compactValue (m s : ℕ) : ℕ :=
  if s ≤ 3 then m / 2 ^ (8 * (3 - s)) else m * 2 ^ (8 * (s - 3))

def compactWord (m s : ℕ) : UInt32 :=
  UInt32.ofNat m ||| UInt32.ofNat s <<< 24

def firstBytes (n k : ℕ) : ℕ :=
  if k ≤ 2 then n * 2 ^ (8 * (2 - k)) else n / 2 ^ (8 * (k - 2))

theorem and_sign (c : UInt32) : c &&& 0x00800000 ≠ 0 ↔ c.toNat / 2 ^ 23 % 2 = 1 := by
  have word : (c &&& 0x00800000).toNat = (c.toNat.testBit 23).toNat * 2 ^ 23 := by
    have sign : (0x00800000 : UInt32).toNat = 2 ^ 23 := rfl
    rw [UInt32.toNat_and, sign, and_two_pow]
  rw [Ne, ← UInt32.toNat_inj, word, testBit_eq_decide_div_mod_eq]
  simp

section

variable {c : UInt32} {m s : ℕ} (mantissa : c.toNat % 2 ^ 23 = m) (size : c.toNat / 2 ^ 24 = s)

include mantissa size

theorem setCompact_parts : (c &&& 0x007fffff).toNat = m ∧ (c >>> 24).toNat = s := by
  have mask : (0x007fffff : UInt32).toNat = 2 ^ 23 - 1 := rfl
  rw [UInt32.toNat_and, mask, and_two_pow_sub_one_eq_mod, UInt32.toNat_shiftRight, shiftRight_eq_div_pow]
  exact ⟨mantissa, size⟩

theorem setCompact_value : (setCompact c).1.toNat = compactValue m s % 2 ^ 256 := by
  have ⟨word, bytes⟩ := setCompact_parts mantissa size
  simp only [setCompact, word, bytes, compactValue, toNat_shiftLeft, toNat_ofNat, Nat.shiftLeft_eq,
    Nat.mod_mul_mod, shiftRight_eq_div_pow]
  split
  case isTrue small => rw [show s - 3 = 0 by omega, Nat.mul_zero, Nat.pow_zero, mul_one]
  case isFalse => rfl

-- The three cases are those of an exact product of at least `2 ^ 256`.
theorem setCompact_overflow : (setCompact c).2.2 = true ↔ 2 ^ 280 ≤ m * 2 ^ (8 * s) := by
  have ⟨word, bytes⟩ := setCompact_parts mantissa size
  have cases : (setCompact c).2.2 = true ↔ m ≠ 0 ∧ (34 < s ∨ 2 ^ 8 ≤ m ∧ 33 < s ∨ 2 ^ 16 ≤ m ∧ 32 < s) := by
    simp only [setCompact, word, bytes]
    split <;> simp <;> omega
  rw [cases]
  by_cases large : 35 ≤ s
  case pos =>
    obtain ⟨t, rfl⟩ := Nat.exists_eq_add_of_le large
    have pos := Nat.two_pow_pos (8 * t)
    rw [show 8 * (35 + t) = 8 * t + 280 by omega, pow_add, ← mul_assoc,
      le_mul_iff_one_le_left (Nat.two_pow_pos 280), Nat.one_le_iff_ne_zero, mul_ne_zero_iff]
    omega
  case neg =>
    obtain ⟨t, ht⟩ := Nat.exists_eq_add_of_le (show s ≤ 35 by omega)
    rw [show 280 = 8 * t + 8 * s by omega, Nat.pow_add, Nat.mul_le_mul_right_iff (Nat.two_pow_pos _)]
    rcases (by omega : t = 1 ∨ t = 2 ∨ 3 ≤ t) with rfl | rfl | le
    case inr.inr =>
      have high : 2 ^ 24 ≤ 2 ^ (8 * t) := Nat.pow_le_pow_right two_pos (by omega)
      omega
    all_goals omega

end

variable {n n' k k' : ℕ}

theorem firstBytes_eq (n k : ℕ) : firstBytes n k = n * 2 ^ 16 / 2 ^ (8 * k) := by
  unfold firstBytes
  split
  case isTrue small =>
    rw [show 16 = 8 * (2 - k) + 8 * k by omega, pow_add, ← mul_assoc, Nat.mul_div_cancel _ (Nat.two_pow_pos _)]
  case isFalse large =>
    rw [show 8 * k = 8 * (k - 2) + 16 by omega, Nat.pow_add, Nat.mul_div_mul_right _ _ (Nat.two_pow_pos _)]

theorem size_le (lower : 2 ^ 15 ≤ firstBytes n k) (upper : firstBytes n' k' < 2 ^ 23) (le : n ≤ n') : k ≤ k' := by
  rw [firstBytes_eq, le_div_iff_mul_le (Nat.two_pow_pos _)] at lower
  rw [firstBytes_eq, Nat.div_lt_iff_lt_mul (Nat.two_pow_pos _)] at upper
  have lt : 2 ^ (15 + 8 * k) < 2 ^ (23 + 8 * k') := by
    rw [pow_add, pow_add]
    omega
  have := (Nat.pow_lt_pow_iff_right (by decide)).mp lt
  omega

def compactFloor (n k : ℕ) : ℕ :=
  n / 2 ^ (8 * (k - 2)) * 2 ^ (8 * (k - 2))

theorem compactFloor_of_le (small : k ≤ 2) : compactFloor n k = n := by
  rw [compactFloor, show k - 2 = 0 by omega]
  simp

theorem compactValue_firstBytes (n k : ℕ) : compactValue (firstBytes n k) (k + 1) = compactFloor n k := by
  by_cases small : k ≤ 2
  case pos =>
    rw [compactFloor_of_le small, compactValue, firstBytes, if_pos small, if_pos (by omega),
      show 3 - (k + 1) = 2 - k by omega, Nat.mul_div_cancel _ (Nat.two_pow_pos _)]
  case neg =>
    rw [compactFloor, compactValue, firstBytes, if_neg small, if_neg (by omega), show k + 1 - 3 = k - 2 by omega]

theorem firstBytes_compactFloor (n k : ℕ) : firstBytes (compactFloor n k) k = firstBytes n k := by
  by_cases small : k ≤ 2
  case pos => rw [compactFloor_of_le small]
  case neg => rw [firstBytes, if_neg small, compactFloor, Nat.mul_div_cancel _ (Nat.two_pow_pos _), firstBytes, if_neg small]

theorem compactFloor_le (n k : ℕ) : compactFloor n k ≤ n :=
  div_mul_le_self ..

theorem pos_of_firstBytes (lower : 2 ^ 15 ≤ firstBytes n k) : 0 < n := by
  rw [firstBytes_eq] at lower
  by_contra zero
  simp [Nat.eq_zero_of_not_pos zero] at lower

theorem compactFloor_error (lower : 2 ^ 15 ≤ firstBytes n k) : 2 ^ 15 * (n - compactFloor n k) < n := by
  by_cases small : k ≤ 2
  case pos =>
    rw [compactFloor_of_le small, Nat.sub_self, Nat.mul_zero]
    exact pos_of_firstBytes lower
  case neg =>
    rw [firstBytes, if_neg small] at lower
    calc 2 ^ 15 * (n - compactFloor n k) = 2 ^ 15 * (n % 2 ^ (8 * (k - 2))) := by rw [compactFloor, ← mod_eq_sub_div_mul]
      _ < 2 ^ 15 * 2 ^ (8 * (k - 2)) := mul_lt_mul_of_pos_left (mod_lt _ (Nat.two_pow_pos _)) (by decide)
      _ ≤ compactFloor n k := mul_le_mul_right _ lower
      _ ≤ n := compactFloor_le n k

theorem toNat_compactWord {m s : ℕ} (hm : m < 2 ^ 23) (hs : s < 2 ^ 8) : (compactWord m s).toNat = s * 2 ^ 24 + m := by
  have word : (compactWord m s).toNat = m ||| s * 2 ^ 24 := by
    have h : (UInt32.ofNat s <<< 24).toNat = s * 2 ^ 24 := by
      rw [UInt32.toNat_shiftLeft, UInt32.toNat_ofNat_of_lt' (by simp [UInt32.size]; omega), Nat.shiftLeft_eq]
      exact Nat.mod_eq_of_lt (by simp; omega)
    rw [compactWord, UInt32.toNat_or, h, UInt32.toNat_ofNat_of_lt' (by simp [UInt32.size]; omega)]
  rw [word, Nat.or_comm, ← Nat.shiftLeft_eq, ← Nat.shiftLeft_add_eq_or_of_lt (by omega), Nat.shiftLeft_eq]

theorem ofNat_shiftRight {a : ℕ} (lt : a < 2 ^ 24) : UInt32.ofNat a >>> 8 = UInt32.ofNat (a / 2 ^ 8) := by
  rw [← UInt32.toNat_inj, UInt32.toNat_shiftRight, UInt32.toNat_ofNat_of_lt' (by simp [UInt32.size]; omega),
    UInt32.toNat_ofNat_of_lt' (by simp [UInt32.size]; omega), shiftRight_eq_div_pow]
  rfl

theorem bits_bytes {bn : Uint256} (nonzero : bn ≠ 0) :
    ∃ k, (bn.bits + 7) / 8 = k + 1 ∧ 2 ^ (8 * k) ≤ bn.toNat ∧ bn.toNat < 2 ^ (8 * k + 8) := by
  have pos : bn.toNat ≠ 0 := fun eq => nonzero (eq_of_toNat_eq eq)
  have bits : bn.bits = bn.toNat.log2 + 1 := if_neg nonzero
  refine ⟨bn.toNat.log2 / 8, by omega, ?_, ?_⟩
  case refine_1 => exact (Nat.pow_le_pow_right two_pos (by omega)).trans (log2_self_le pos)
  case refine_2 => exact lt_log2_self.trans_le (Nat.pow_le_pow_right two_pos (by omega))

structure Compacts (bn : Uint256) (k : ℕ) : Prop where
  word : bn.getCompact = compactWord (firstBytes bn.toNat k) (k + 1)
  lower : 2 ^ 15 ≤ firstBytes bn.toNat k
  upper : firstBytes bn.toNat k < 2 ^ 23

theorem exists_compacts {bn : Uint256} (nonzero : bn ≠ 0) : ∃ k, Compacts bn k := by
  have ⟨k, size, lower, upper⟩ := bits_bytes nonzero
  have bounds : 2 ^ 16 ≤ firstBytes bn.toNat k ∧ firstBytes bn.toNat k < 2 ^ 24 := by
    rw [firstBytes_eq, Nat.le_div_iff_mul_le (Nat.two_pow_pos _), Nat.div_lt_iff_lt_mul (Nat.two_pow_pos _)]
    rw [pow_add] at upper
    omega
  have bytes : (if k + 1 ≤ 3 then bn.toNat <<< (8 * (3 - (k + 1))) else bn.toNat >>> (8 * (k + 1 - 3))) =
      firstBytes bn.toNat k := by
    have le : k + 1 ≤ 3 ↔ k ≤ 2 := by omega
    have left : 3 - (k + 1) = 2 - k := by omega
    have right : k + 1 - 3 = k - 2 := by omega
    simp only [le, left, right, Nat.shiftLeft_eq, Nat.shiftRight_eq_div_pow, firstBytes]
  have word : (UInt32.ofNat (firstBytes bn.toNat k)).toNat = firstBytes bn.toNat k :=
    UInt32.toNat_ofNat_of_lt' (by simp [UInt32.size]; omega)
  have sign : firstBytes bn.toNat k / 2 ^ 23 % 2 = 1 ↔ 2 ^ 23 ≤ firstBytes bn.toNat k := by omega
  by_cases signed : 2 ^ 23 ≤ firstBytes bn.toNat k
  case neg =>
    refine ⟨k, ?_, by omega, by omega⟩
    simp only [Uint256.getCompact, size, bytes, and_sign, word, sign, signed, if_false, compactWord]
  case pos =>
    have next : firstBytes bn.toNat (k + 1) = firstBytes bn.toNat k / 2 ^ 8 := by
      rw [firstBytes_eq, firstBytes_eq, Nat.mul_succ, Nat.pow_add, Nat.div_div_eq_div_mul]
    refine ⟨k + 1, ?_, by omega, by omega⟩
    simp only [Uint256.getCompact, size, bytes, and_sign, word, sign, signed, if_true, ofNat_shiftRight bounds.right, next,
      compactWord]

namespace Compacts

variable {bn bn' : Uint256} {k k' : ℕ}

theorem setCompact_getCompact (h : Compacts bn k) :
    (setCompact bn.getCompact).1.toNat = compactFloor bn.toNat k ∧ (setCompact bn.getCompact).2 = (false, false) := by
  have exact : firstBytes bn.toNat k * 2 ^ (8 * k) < 2 ^ 272 := by
    rw [firstBytes_eq]
    have := bn.isLt
    exact (div_mul_le_self ..).trans_lt (by omega)
  have size : k ≤ 32 := by
    have lt : 2 ^ (15 + 8 * k) < 2 ^ 272 := (pow_add ..).trans_lt ((mul_le_mul_right _ h.lower).trans_lt exact)
    have := (Nat.pow_lt_pow_iff_right (by decide)).mp lt
    omega
  have upper := h.upper
  have word := toNat_compactWord h.upper (show k + 1 < 2 ^ 8 by omega)
  rw [← h.word] at word
  have mantissa : bn.getCompact.toNat % 2 ^ 23 = firstBytes bn.toNat k := by omega
  have exponent : bn.getCompact.toNat / 2 ^ 24 = k + 1 := by omega
  refine ⟨?_, Prod.ext ?_ ?_⟩
  · rw [setCompact_value mantissa exponent, compactValue_firstBytes]
    exact mod_eq_of_lt ((compactFloor_le ..).trans_lt bn.isLt)
  · have sign : ¬bn.getCompact &&& 0x00800000 ≠ 0 := by
      rw [and_sign]
      omega
    simp only [setCompact, sign, decide_false, Bool.and_false]
  · rw [← Bool.not_eq_true, setCompact_overflow mantissa exponent, Nat.mul_succ, Nat.pow_add, ← Nat.mul_assoc]
    omega

theorem floor_le (h : Compacts bn k) (h' : Compacts bn' k') (le : bn.toNat ≤ bn'.toNat) :
    compactFloor bn.toNat k ≤ compactFloor bn'.toNat k' := by
  obtain rfl | lt := (size_le h.lower h'.upper le).eq_or_lt
  case inl => exact Nat.mul_le_mul_right _ (Nat.div_le_div_right le)
  case inr =>
    -- The larger number is rounded to its own size, so one of a smaller size is below.
    refine (compactFloor_le ..).trans (Nat.le_of_not_lt fun above => lt.not_ge ?_)
    have lower := h'.lower
    rw [← firstBytes_compactFloor] at lower
    exact size_le lower h.upper above.le

theorem getCompact_eq (h : Compacts bn k) (floor : bn'.toNat = compactFloor bn.toNat k) :
    bn' ≠ 0 ∧ bn'.getCompact = bn.getCompact := by
  have same := firstBytes_compactFloor bn.toNat k
  rw [← floor] at same
  have nonzero : bn' ≠ 0 := by
    rintro rfl
    exact absurd (pos_of_firstBytes (same ▸ h.lower)) (lt_irrefl 0)
  obtain ⟨k', h'⟩ := exists_compacts nonzero
  have size : k' = k := le_antisymm (size_le h'.lower (same ▸ h.upper) le_rfl) (size_le (same ▸ h.lower) h'.upper le_rfl)
  exact ⟨nonzero, by rw [h'.word, size, same, h.word]⟩

end Compacts

theorem setCompact_getCompact (bn : Uint256) :
    (setCompact bn.getCompact).1.toNat ≤ bn.toNat ∧ (bn ≠ 0 → (setCompact bn.getCompact).1 ≠ 0) ∧
      (setCompact bn.getCompact).2.2 = false := by
  by_cases zero : bn = 0
  case pos =>
    subst zero
    decide
  case neg =>
    obtain ⟨k, h⟩ := exists_compacts zero
    obtain ⟨value, flags⟩ := h.setCompact_getCompact
    exact ⟨value.trans_le (compactFloor_le ..), fun _ => (h.getCompact_eq value).1, congrArg Prod.snd flags⟩

theorem compact_zero : ¬2 ^ 15 * ((0 : Uint256).toNat - (setCompact (Uint256.getCompact 0)).1.toNat) <
    (0 : Uint256).toNat := by
  decide

theorem compact_rounding :
    (∀ v : Uint256,
      (setCompact v.getCompact).1 ≤ v ∧
      (v ≠ 0 → 2 ^ 15 * (v.toNat - (setCompact v.getCompact).1.toNat) < v.toNat) ∧
      (setCompact v.getCompact).2 = (false, false) ∧
      (∀ v', v ≤ v' → (setCompact v.getCompact).1 ≤ (setCompact v'.getCompact).1) ∧
      (setCompact v.getCompact).1.getCompact = v.getCompact) ∧
    ∀ c : UInt32, (setCompact c).2.2 = true ↔
      (2 : ℚ) ^ 256 ≤ (c.toNat % 2 ^ 23 : ℕ) * 256 ^ (((c.toNat / 2 ^ 24 : ℕ) : ℤ) - 3) := by
  constructor
  case left =>
    intro v
    by_cases zero : v = 0
    case pos =>
      subst zero
      have compact : setCompact (Uint256.getCompact 0) = (0, false, false) := by decide
      rw [compact]
      exact ⟨le_refl 0, fun h => absurd rfl h, rfl, fun _ _ => le_def.mpr (Nat.zero_le _), rfl⟩
    case neg =>
      obtain ⟨k, h⟩ := exists_compacts zero
      obtain ⟨value, flags⟩ := h.setCompact_getCompact
      refine ⟨le_def.mpr (value.trans_le (compactFloor_le ..)), fun _ => ?_, flags, fun v' le => ?_,
        (h.getCompact_eq value).2⟩
      · rw [value]
        exact compactFloor_error h.lower
      · have nonzero : v' ≠ 0 := by
          rintro rfl
          exact zero (le_zero_iff.mp le)
        obtain ⟨k', h'⟩ := exists_compacts nonzero
        rw [le_def, value, h'.setCompact_getCompact.1]
        exact h.floor_le h' (le_def.mp le)
  case right =>
    intro c
    have exponent : (256 : ℚ) ^ ((c.toNat / 2 ^ 24 : ℕ) : ℤ) = (2 ^ (8 * (c.toNat / 2 ^ 24)) : ℕ) := by
      rw [zpow_natCast, Nat.pow_mul]
      norm_num
    have bound : (2 : ℚ) ^ 256 * 256 ^ (3 : ℤ) = (2 ^ 280 : ℕ) := by
      rw [show 280 = 256 + 24 from rfl, Nat.pow_add]
      norm_num
    rw [setCompact_overflow rfl rfl, zpow_sub₀ (by norm_num), ← mul_div_assoc, le_div_iff₀ (by norm_num), exponent, bound,
      ← Nat.cast_mul, Nat.cast_le]

end Qrax
