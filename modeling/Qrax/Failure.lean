import Qrax.Lib.Fallible
import Qrax.Basic

namespace Qrax

def REJECT_MALFORMED : UInt32 := 0x01
def REJECT_INVALID : UInt32 := 0x10
def REJECT_OBSOLETE : UInt32 := 0x11
def REJECT_DUPLICATE : UInt32 := 0x12
def REJECT_NONSTANDARD : UInt32 := 0x40
def REJECT_INSUFFICIENTFEE : UInt32 := 0x42
def REJECT_CHECKPOINT : UInt32 := 0x43
def REJECT_ALREADY_KNOWN : UInt32 := 0x101
def REJECT_CONFLICT : UInt32 := 0x102

-- How a call ends without a result: `DoS` and `Error` of `CValidationState`, a bare `return false`, what is thrown, a
-- failed assertion, and an overflow for the arithmetic that notices it.
inductive Failure
  | invalid (nDoS : ℕ) (chRejectCode : UInt32) (strRejectReason : String) (corruption : Bool)
  | error (strRejectReason : String)
  | refused
  | logicError (what : String)
  | runtimeError (what : String)
  | assertion (what : String)
  | overflow
  deriving DecidableEq, Repr

def dos (nDoS : ℕ) (chRejectCode : UInt32) (strRejectReason : String) : Failure :=
  .invalid nDoS chRejectCode strRejectReason false

-- `CValidationState::Invalid` with code and reason of the state: the penalty stays, the suspicion of corruption goes.
def Failure.rewrapped : Failure → Failure
  | .invalid nDoS chRejectCode strRejectReason _ => .invalid nDoS chRejectCode strRejectReason false
  | .refused => .invalid 0 0 "" false
  | e => e

-- How totals of amounts are added up: in wrapping 64-bit integers, exactly, or exactly with an alarm outside of 64
-- bits.
inductive Arith
  | int64
  | exact
  | checked
  deriving DecidableEq, Repr

namespace Arith

def InRange (n : ℤ) : Prop :=
  -2 ^ 63 ≤ n ∧ n < 2 ^ 63

instance (n : ℤ) : Decidable (InRange n) :=
  inferInstanceAs (Decidable (_ ∧ _))

def norm : Arith → ℤ → Except Failure ℤ
  | int64, n => .ok (n.bmod (2 ^ 64))
  | exact, n => .ok n
  | checked, n => if InRange n then .ok n else .error .overflow

@[simp]
theorem norm_exact (n : ℤ) : exact.norm n = .ok n := rfl

theorem norm_int64_of_inRange {n : ℤ} (h : InRange n) : int64.norm n = .ok n := by
  unfold InRange at h
  rw [norm, Int.bmod_eq_of_le (by omega) (by omega)]

variable {n m : ℤ} {arith : Arith} {amounts : List ℤ}

theorem norm_checked_eq_ok : checked.norm n = .ok m ↔ InRange n ∧ n = m := by
  simp only [norm]
  split <;> simp_all

theorem norm_checked_error (n : ℤ) : ∀ e, checked.norm n = .error e → e = .overflow := by
  intro e h
  simp only [norm] at h
  split at h
  case isTrue => cases h
  case isFalse => exact (Except.error.inj h).symm

theorem norm_of_inRange (arith : Arith) (h : InRange n) : arith.norm n = .ok n := by
  cases arith
  case int64 => exact norm_int64_of_inRange h
  case exact => rfl
  case checked => exact if_pos h

theorem norm_ok (ne : arith ≠ int64) (h : arith.norm n = .ok m) : m = n := by
  cases arith
  case int64 => exact absurd rfl ne
  case exact => exact (Except.ok.inj h).symm
  case checked => exact (norm_checked_eq_ok.mp h).right.symm

def addAll (arith : Arith) (n : ℤ) (amounts : List ℤ) : Except Failure ℤ :=
  amounts.foldlM (fun n amount => arith.norm (n + amount)) n

theorem addAll_cons (arith : Arith) (n amount : ℤ) (amounts : List ℤ) :
    arith.addAll n (amount :: amounts) = arith.norm (n + amount) >>= (arith.addAll · amounts) := rfl

theorem addAll_exact (n : ℤ) (amounts : List ℤ) : exact.addAll n amounts = .ok (n + amounts.sum) := by
  induction amounts generalizing n
  case nil => exact congrArg Except.ok (by simp)
  case cons amount amounts ih =>
    rw [addAll_cons, norm_exact, Fallible.ok_bind, ih, List.sum_cons, add_assoc]

theorem addAll_of_lt (arith : Arith) (nonneg : ∀ amount ∈ amounts, 0 ≤ amount)
    (pos : 0 ≤ n) (lt : n + amounts.sum < 2 ^ 63) : arith.addAll n amounts = .ok (n + amounts.sum) := by
  induction amounts generalizing n
  case nil => exact congrArg Except.ok (by simp)
  case cons amount amounts ih =>
    have ⟨first, nonneg⟩ := List.forall_mem_cons.mp nonneg
    have rest := List.sum_nonneg nonneg
    rw [List.sum_cons] at lt ⊢
    have inRange : InRange (n + amount) := ⟨by omega, by omega⟩
    rw [addAll_cons, arith.norm_of_inRange inRange, Fallible.ok_bind, ih nonneg (by omega) (by omega), add_assoc]

theorem addAll_ok (ne : arith ≠ int64)
    (h : arith.addAll n amounts = .ok m) : m = n + amounts.sum := by
  induction amounts generalizing n
  case nil =>
    cases h
    rw [List.sum_nil, add_zero]
  case cons amount amounts ih =>
    rw [addAll_cons, Fallible.bind_eq_ok] at h
    have ⟨k, head, tail⟩ := h
    rw [ih tail, norm_ok ne head, List.sum_cons, add_assoc]

end Arith

end Qrax
