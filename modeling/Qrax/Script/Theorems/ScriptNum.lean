import Qrax.Script.Script

open Encoding List Nat

namespace Qrax

namespace CScriptNum

theorem leNat_concat (bs : Bytes) (b : UInt8) : leNat (bs ++ [b]) = leNat bs + 256 ^ bs.length * b.toNat := by
  induction bs
  case nil => simp [leNat]
  case cons c bs ih =>
    rw [cons_append, leNat, leNat, ih, length_cons, pow_succ']
    ring

theorem magnitude_eq_leBytes {n v : ℕ} (ne : v ≠ 0) (lt : v < 256 ^ n) :
    ∃ k < n, magnitude n v = leBytes (k + 1) v ∧ 256 ^ k ≤ v ∧ v < 256 ^ (k + 1) := by
  induction n generalizing v
  case zero => exact absurd (lt_one_iff.mp lt) ne
  case succ n ih =>
    rw [pow_succ] at lt
    obtain ⟨v, rfl⟩ := exists_eq_succ_of_ne_zero ne
    obtain zero | pos := Nat.eq_zero_or_pos ((v + 1) / 256)
    case inl => exact ⟨0, by omega, by rw [magnitude, zero]; cases n <;> rfl, by omega, by omega⟩
    case inr =>
      obtain ⟨k, lt, eq, le, lt'⟩ := ih pos.ne' (by omega)
      exact ⟨k + 1, by omega, by rw [magnitude, eq]; rfl, by rw [pow_succ]; omega,
        (div_lt_iff_lt_mul (by decide)).mp lt'⟩

-- What the masks of the source read off a byte.
theorem byte_masks : ∀ b : UInt8, (b &&& 0x80 ≠ 0 ↔ 128 ≤ b.toNat) ∧ (b &&& 0x7f ≠ 0 ↔ b.toNat % 128 ≠ 0) ∧
    (b.toNat < 128 → (b ||| 0x80).toNat = b.toNat + 128) := by
  decide +kernel

section

variable {vch : Bytes} {k : ℕ} (length : vch.length = k + 1)

include length

theorem exists_concat : ∃ init b, vch = init ++ [b] ∧ init.length = k := by
  obtain rfl | ⟨init, b, rfl⟩ := vch.eq_nil_or_concat'
  case inl => cases length
  case inr => exact ⟨init, b, rfl, by simpa using length⟩

theorem sign_iff : vch.getLastD 0 &&& 0x80 ≠ 0 ↔ 128 * 256 ^ k ≤ leNat vch := by
  obtain ⟨init, b, rfl, rfl⟩ := exists_concat length
  have lt := leNat_lt init
  rw [getLastD_concat, (byte_masks b).1, leNat_concat, mul_comm]
  constructor
  case mp =>
    intro high
    have := mul_le_mul_left (256 ^ init.length) high
    omega
  case mpr =>
    intro le
    by_contra low
    have := mul_le_mul_left (256 ^ init.length) (le_of_lt_succ (not_le.mp low))
    omega

theorem setVch_eq : setVch vch =
    if 128 * 256 ^ k ≤ leNat vch then -((leNat vch : ℤ) - (128 * 256 ^ k : ℕ)) else leNat vch := by
  have nonempty : vch.isEmpty = false := by simpa using ne_nil_of_length_eq_add_one length
  simp only [setVch, nonempty, sign_iff length, length]
  simp

theorem isMinimal_iff : isMinimal vch ↔ 256 ^ k ≤ 2 * (setVch vch).natAbs := by
  obtain ⟨init, b, rfl, rfl⟩ := exists_concat length
  have value : (setVch (init ++ [b])).natAbs = leNat init + 256 ^ init.length * (b.toNat % 128) := by
    have high := (sign_iff length).symm
    rw [getLastD_concat, (byte_masks b).1] at high
    rw [setVch_eq length, if_congr high rfl rfl, leNat_concat]
    split
    case isTrue high =>
      obtain ⟨c, eq⟩ := Nat.exists_eq_add_of_le high
      have lt := b.toNat_lt
      rw [eq, show (128 + c) % 128 = c by omega, mul_add]
      omega
    case isFalse low => rw [mod_eq_of_lt (not_le.mp low), Int.natAbs_natCast]
  rw [value, isMinimal, getLastD_concat, dropLast_concat]
  simp only [Bool.or_eq_true, decide_eq_true_eq, (byte_masks b).2.1]
  by_cases zero : b.toNat % 128 = 0
  case neg =>
    have le := Nat.le_mul_of_pos_right (256 ^ init.length) (pos_of_ne_zero zero)
    exact iff_of_true (.inl (.inr zero)) (by omega)
  case pos =>
    rw [zero, mul_zero, add_zero]
    cases length : init.length
    case zero =>
      cases length_eq_zero_iff.mp length
      simp [leNat]
    case succ j =>
      have high := sign_iff length
      simp [length, pow_succ] at high ⊢
      rw [high]
      omega

end

-- With its sign a number takes the fewest bytes for which its highest bit is not that of the last one.
theorem serialize_bytes {n : ℤ} (ne : n ≠ 0) (lt : n.natAbs < 2 ^ 63) :
    ∃ k < 8, (serialize n).length = k + 1 ∧ 256 ^ k ≤ 2 * n.natAbs ∧ 2 * n.natAbs < 256 ^ (k + 1) ∧
      leNat (serialize n) = n.natAbs + if n < 0 then 128 * 256 ^ k else 0 := by
  obtain ⟨k, _, eq, le, below⟩ := magnitude_eq_leBytes (n := 8) (Int.natAbs_ne_zero.mpr ne) (by omega)
  have length := leBytes_length (k + 1) n.natAbs
  have value := leNat_leBytes below
  have sign := sign_iff length
  rw [value] at sign
  simp only [serialize, if_neg ne, eq, sign]
  rw [pow_succ] at below
  split
  case isTrue high =>
    have room : k < 7 := (Nat.pow_lt_pow_iff_right (a := 256) (by decide)).mp (by omega)
    refine ⟨k + 1, by omega, by simp, by rw [pow_succ]; omega, by rw [pow_succ, pow_succ]; omega, ?_⟩
    rw [leNat_concat, value, length]
    split <;> simp [mul_comm]
  case isFalse low =>
    refine ⟨k, by omega, ?_, by omega, by rw [pow_succ]; omega, ?_⟩
    · split <;> simp
    · split
      case isFalse => rw [value, add_zero]
      case isTrue =>
        obtain ⟨init, back, eq, rfl⟩ := exists_concat length
        rw [eq, getLastD_concat, (byte_masks back).1] at sign
        rw [eq, leNat_concat] at value
        rw [eq, dropLast_concat, getLastD_concat, leNat_concat, (byte_masks back).2.2 (by omega), mul_add]
        omega

theorem ofVch?_serialize {n : ℤ} (lt : n.natAbs < 2 ^ 63) : ofVch? (serialize n) true 8 = some n := by
  by_cases zero : n = 0
  case pos => rw [zero]; rfl
  case neg =>
    obtain ⟨k, _, length, le, below, value⟩ := serialize_bytes zero lt
    have number : setVch (serialize n) = n := by
      rw [pow_succ] at below
      rw [setVch_eq length, value]
      split_ifs <;> omega
    have minimal : isMinimal (serialize n) := (isMinimal_iff length).mpr (by rwa [number])
    rw [ofVch?, minimal, number, if_neg (by omega)]
    rfl

theorem serialize_setVch {vch : Bytes} (minimal : isMinimal vch) (short : vch.length < 8) :
    serialize (setVch vch) = vch := by
  cases length : vch.length
  case zero =>
    cases length_eq_zero_iff.mp length
    rfl
  case succ k =>
    have below := leNat_lt vch
    have number := setVch_eq length
    have le := (isMinimal_iff length).mp minimal
    have pos := pow_pos (n := k) (show 0 < 256 by decide)
    have most : 256 ^ k ≤ 256 ^ 6 := Nat.pow_le_pow_right (by decide) (by omega)
    rw [length, pow_succ] at below
    have lt : 2 * (setVch vch).natAbs < 256 ^ (k + 1) := by
      rw [number, pow_succ]
      split_ifs <;> omega
    obtain ⟨k', _, length', le', lt', value⟩ :=
      serialize_bytes (n := setVch vch) (by omega) (by rw [pow_succ] at lt; omega)
    have least := (Nat.pow_lt_pow_iff_right (a := 256) (by decide)).mp (le.trans_lt lt')
    have least' := (Nat.pow_lt_pow_iff_right (a := 256) (by decide)).mp (le'.trans_lt lt)
    obtain rfl : k' = k := by omega
    have same : leNat (serialize (setVch vch)) = leNat vch := by
      rw [value]
      rw [number] at le ⊢
      split_ifs at le ⊢ <;> omega
    rw [← leBytes_leNat (serialize _), length', same, ← length, leBytes_leNat]

theorem serialize_ofVch? :
    (∀ n : Int64, Int64.minValue < n → ofVch? (serialize n.toInt) true 8 = some n.toInt) ∧
      ∀ vch : Bytes, vch.length ≤ 5 → isMinimal vch → ∃ n, ofVch? vch true 5 = some n ∧ serialize n = vch := by
  constructor
  case left =>
    intro n above
    have above := Int64.lt_iff_toInt_lt.mp above
    have below := n.toInt_lt
    rw [Int64.toInt_minValue] at above
    exact ofVch?_serialize (by omega)
  case right =>
    intro vch short minimal
    refine ⟨setVch vch, ?_, serialize_setVch minimal (by omega)⟩
    rw [ofVch?, minimal, if_neg (not_lt.mpr short)]
    rfl

end CScriptNum

end Qrax
