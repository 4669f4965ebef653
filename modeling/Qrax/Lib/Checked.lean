import Mathlib

-- Fixed-width operations without a result where the exact one does not fit.
namespace Checked

variable {w : ℕ}

def mul (x y : BitVec w) : Option (BitVec w) :=
  if x.umulOverflow y then none else some (x * y)

def add (x y : BitVec w) : Option (BitVec w) :=
  if x.uaddOverflow y then none else some (x + y)

def shiftLeft (x : BitVec w) (n : ℕ) : Option (BitVec w) :=
  if x.toNat * 2 ^ n < 2 ^ w then some (x <<< n) else none

variable {x y : BitVec w} {n : ℕ}

theorem mul_of_fits (fits : x.toNat * y.toNat < 2 ^ w) : mul x y = some (x * y) := by
  have small : x.umulOverflow y = false := decide_eq_false (Nat.not_le.mpr fits)
  rw [mul, small]
  rfl

theorem add_of_fits (fits : x.toNat + y.toNat < 2 ^ w) : add x y = some (x + y) := by
  have small : x.uaddOverflow y = false := decide_eq_false (Nat.not_le.mpr fits)
  rw [add, small]
  rfl

theorem shiftLeft_of_fits (fits : x.toNat * 2 ^ n < 2 ^ w) : shiftLeft x n = some (x <<< n) :=
  if_pos fits

theorem toNat_mul_of_fits (fits : x.toNat * y.toNat < 2 ^ w) : (x * y).toNat = x.toNat * y.toNat := by
  rw [BitVec.toNat_mul, Nat.mod_eq_of_lt fits]

theorem toNat_add_of_fits (fits : x.toNat + y.toNat < 2 ^ w) : (x + y).toNat = x.toNat + y.toNat := by
  rw [BitVec.toNat_add, Nat.mod_eq_of_lt fits]

theorem toNat_shiftLeft_of_fits (fits : x.toNat * 2 ^ n < 2 ^ w) : (x <<< n).toNat = x.toNat * 2 ^ n := by
  rw [BitVec.toNat_shiftLeft, Nat.shiftLeft_eq, Nat.mod_eq_of_lt fits]

end Checked
