import Qrax.Lib.Encoding

open Encoding List Nat

-- Byte strings in the order of `memcmp`, and numbers in bytes that keep their order.

namespace ByteOrder

def rank (bs : List UInt8) : List ℕ :=
  bs.map UInt8.toNat

theorem rank_injective : Function.Injective rank :=
  map_injective_iff.mpr fun _ _ eq => UInt8.toNat_inj.mp eq

@[simp]
theorem rank_append (bs bs' : List UInt8) : rank (bs ++ bs') = rank bs ++ rank bs' :=
  map_append

@[simp]
theorem rank_length (bs : List UInt8) : (rank bs).length = bs.length :=
  length_map ..

variable {a b x y t : List ℕ} {n : ℕ}

theorem append_lt_append (length : a.length = b.length) : a ++ x < b ++ y ↔ a < b ∨ a = b ∧ x < y := by
  induction a generalizing b
  case nil =>
    cases length_eq_zero_iff.mp length.symm
    simp
  case cons i a ih =>
    cases b
    case nil => cases length
    case cons j b =>
      rw [cons_append, cons_append, cons_lt_cons_iff, cons_lt_cons_iff,
        ih (succ.inj length), List.cons.injEq]
      tauto

theorem append_le_append (length : a.length = b.length) : a ++ x ≤ b ++ y ↔ a < b ∨ a = b ∧ x ≤ y := by
  rw [← not_lt, append_lt_append length.symm, not_or, not_lt, not_and, not_lt]
  constructor
  · rintro ⟨le, rest⟩
    cases le.lt_or_eq
    case inl lt => exact .inl lt
    case inr eq => exact .inr ⟨eq, rest eq.symm⟩
  · rintro (lt | ⟨eq, le⟩)
    · exact ⟨lt.le, fun eq => absurd eq lt.ne'⟩
    · exact ⟨eq.le, fun _ => le⟩

theorem take_le (n : ℕ) (a : List ℕ) : a.take n ≤ a := by
  induction n generalizing a
  case zero => exact not_lt.mp (not_lt_nil _)
  case succ n ih =>
    cases a
    case nil => exact le_rfl
    case cons i a =>
      rw [take_succ_cons, ← not_lt, cons_lt_cons_iff]
      rintro (lt | ⟨_, lt⟩)
      · exact lt_irrefl i lt
      · exact not_lt.mpr (ih a) lt

theorem take_mono (n : ℕ) (h : a ≤ b) : a.take n ≤ b.take n := by
  induction n generalizing a b
  case zero => exact le_rfl
  case succ n ih =>
    cases a
    case nil => exact not_lt.mp (not_lt_nil _)
    case cons i a =>
      cases b
      case nil => exact absurd h (not_le.mpr (nil_lt_cons i a))
      case cons j b =>
        rw [take_succ_cons, take_succ_cons]
        rw [← not_lt, cons_lt_cons_iff, not_or, not_and, not_lt, not_lt] at h ⊢
        exact ⟨h.left, fun eq => ih (h.right eq)⟩

theorem lt_of_take_lt (n : ℕ) (h : a.take n < b.take n) : a < b :=
  not_le.mp fun le => not_lt.mpr (take_mono n le) h

theorem le_iff_le_take (length : t.length = n) : t ≤ b ↔ t ≤ b.take n := by
  refine ⟨fun le => ?_, fun le => le.trans (take_le n b)⟩
  have := take_mono n le
  rwa [← length, take_length, length] at this

def beBytes : ℕ → ℕ → List UInt8
  | 0, _ => []
  | n + 1, v => UInt8.ofNat (v / 256 ^ n) :: beBytes n v

@[simp]
theorem beBytes_length (n v : ℕ) : (beBytes n v).length = n := by
  induction n
  case zero => rfl
  case succ n ih => rw [beBytes, length_cons, ih]

theorem rank_beBytes_lt (n v w : ℕ) : rank (beBytes n v) < rank (beBytes n w) ↔ v % 256 ^ n < w % 256 ^ n := by
  induction n
  case zero => simp [beBytes, rank, mod_one]
  case succ n ih =>
    have digits (v : ℕ) : v % 256 ^ (n + 1) = 256 ^ n * (v / 256 ^ n % 256) + v % 256 ^ n := by
      rw [pow_succ, mod_mul, add_comm]
    have low (v : ℕ) : v % 256 ^ n < 256 ^ n := Nat.mod_lt _ (Nat.pow_pos (by decide))
    have step : rank (beBytes (n + 1) v) < rank (beBytes (n + 1) w) ↔
        v / 256 ^ n % 256 < w / 256 ^ n % 256 ∨
          v / 256 ^ n % 256 = w / 256 ^ n % 256 ∧ v % 256 ^ n < w % 256 ^ n := by
      rw [← ih]
      simp only [beBytes, rank, map_cons, cons_lt_cons_iff, UInt8.toNat_ofNat']
    rw [step, digits v, digits w]
    constructor
    · rintro (lt | ⟨eq, lt⟩)
      · calc 256 ^ n * (v / 256 ^ n % 256) + v % 256 ^ n
            < 256 ^ n * (v / 256 ^ n % 256) + 256 ^ n := by have := low v; omega
          _ = 256 ^ n * (v / 256 ^ n % 256 + 1) := by ring
          _ ≤ 256 ^ n * (w / 256 ^ n % 256) := mul_le_mul_left _ lt
          _ ≤ _ := Nat.le_add_right ..
      · rw [eq]
        omega
    · intro lt
      by_contra none
      rw [not_or, not_and, not_lt, not_lt] at none
      cases none.left.lt_or_eq
      case inr eq =>
        have := none.right eq.symm
        rw [eq] at lt
        omega
      case inl gt =>
        have : 256 ^ n * (w / 256 ^ n % 256) + 256 ^ n ≤ 256 ^ n * (v / 256 ^ n % 256) := by
          have := mul_le_mul_left (256 ^ n) gt
          rwa [mul_succ] at this
        have := low w
        omega

theorem rank_beBytes_le (n v w : ℕ) : rank (beBytes n v) ≤ rank (beBytes n w) ↔ v % 256 ^ n ≤ w % 256 ^ n := by
  rw [← not_lt, rank_beBytes_lt, not_lt]

theorem beBytes_injOn (n : ℕ) : Set.InjOn (beBytes n) {v | v < 256 ^ n} := by
  intro v hv w hw h
  have le := (rank_beBytes_le n v w).mp (congrArg rank h).le
  have ge := (rank_beBytes_le n w v).mp (congrArg rank h).ge
  rw [mod_eq_of_lt hv, mod_eq_of_lt hw] at le ge
  exact le.antisymm ge

theorem beBytes_prefixFree (n : ℕ) : PrefixFreeOn {v | v < 256 ^ n} (beBytes n) :=
  .of_length (beBytes_injOn n) fun _ _ => beBytes_length ..

end ByteOrder
