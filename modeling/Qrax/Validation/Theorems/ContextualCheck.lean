import Qrax.Script.Theorems.ScriptNum
import Qrax.Validation.ContextualCheck

open Encoding Fallible List

namespace Qrax

open CScriptNum

namespace CScriptNum

theorem magnitude_length_le (n v : ℕ) : (magnitude n v).length ≤ n := by
  induction n generalizing v
  case zero => exact le_rfl
  case succ n ih =>
    cases v
    case zero => exact Nat.zero_le _
    case succ v => exact Nat.succ_le_succ (ih _)

theorem serialize_natCast {n : ℕ} (positive : n ≠ 0) :
    serialize n = magnitude 8 n ∨ serialize n = magnitude 8 n ++ [0] := by
  have notNegative : ¬(n : ℤ) < 0 := by omega
  simp only [serialize, Int.natCast_eq_zero, positive, if_false, Int.natAbs_natCast, notNegative]
  split
  case isTrue => exact .inr rfl
  case isFalse => exact .inl rfl

theorem leNat_serialize {n : ℕ} (positive : n ≠ 0) (h : n < 2 ^ 64) : leNat (serialize n) = n := by
  obtain ⟨_, _, bytes, _, lt⟩ := magnitude_eq_leBytes (n := 8) positive h
  have value : leNat (magnitude 8 n) = n := by rw [bytes, leNat_leBytes lt]
  cases serialize_natCast positive
  case inl eq => rw [eq, value]
  case inr eq => rw [eq, leNat_concat, value]; rfl

theorem serialize_length_le {n : ℕ} (positive : n ≠ 0) : (serialize n).length ≤ 9 := by
  have := magnitude_length_le 8 n
  cases serialize_natCast positive
  case inl eq => rw [eq]; omega
  case inr eq => rw [eq, length_append, length_singleton]; omega

end CScriptNum

namespace CScript

theorem pushInt64_large {n : ℕ} (h : 16 < n) :
    pushInt64 n = UInt8.ofNat (serialize n).length :: serialize n := by
  have short := serialize_length_le (n := n) (by omega)
  have direct : (serialize n).length < Opcodetype.OP_PUSHDATA1.toByte.toNat :=
    short.trans_lt (by decide)
  rw [pushInt64, if_neg (by omega), if_neg (by omega), push, if_pos direct]

theorem pushInt64_small {n : ℕ} (h : n ≤ 16) : ∃ b : UInt8, pushInt64 n = [b] ∧
    b.toNat = if n = 0 then 0 else n + 80 := by
  have base : Opcodetype.OP_1.toByte.toNat - 1 = 80 := rfl
  unfold pushInt64
  split
  case isTrue range =>
    refine ⟨_, rfl, ?_⟩
    rw [if_neg (by omega), base, UInt8.toNat_ofNat']
    omega
  case isFalse range =>
    have zero : n = 0 := by omega
    rw [if_pos zero, if_pos zero]
    exact ⟨_, rfl, rfl⟩

theorem pushInt64_head_large {n : ℕ} (h : 16 < n) (fits : n < 2 ^ 64) :
    ∃ b : UInt8, pushInt64 n = b :: serialize n ∧ b.toNat = (serialize n).length ∧
      1 ≤ b.toNat ∧ b.toNat ≤ 9 := by
  have short := serialize_length_le (n := n) (by omega)
  have value := leNat_serialize (n := n) (by omega) fits
  have some : (serialize n).length ≠ 0 := by
    intro none
    rw [length_eq_zero_iff.mp none] at value
    simp only [leNat] at value
    omega
  have byte : (UInt8.ofNat (serialize n).length).toNat = (serialize n).length := by
    rw [UInt8.toNat_ofNat']
    omega
  exact ⟨_, pushInt64_large h, byte, by omega, by omega⟩

theorem pushInt64_prefixFree : PrefixFreeOn {n | n < 2 ^ 64} pushInt64 := by
  intro m hm n hn x y h
  rw [Set.mem_ofPred_eq] at hm hn
  by_cases small : m ≤ 16 <;> by_cases small' : n ≤ 16
  case pos =>
    have ⟨b, eq, value⟩ := pushInt64_small small
    have ⟨b', eq', value'⟩ := pushInt64_small small'
    rw [eq, eq'] at h
    have ⟨same, rest⟩ := cons.inj h
    rw [same, value'] at value
    refine ⟨?_, rest⟩
    split_ifs at value <;> omega
  case neg =>
    have ⟨b, eq, value⟩ := pushInt64_small small
    have ⟨b', eq', _, lower, upper⟩ := pushInt64_head_large (Nat.lt_of_not_le small') hn
    rw [eq, eq'] at h
    have ⟨same, _⟩ := cons.inj h
    rw [same] at value
    split_ifs at value <;> omega
  case pos =>
    have ⟨b, eq, _, lower, upper⟩ := pushInt64_head_large (Nat.lt_of_not_le small) hm
    have ⟨b', eq', value⟩ := pushInt64_small small'
    rw [eq, eq'] at h
    have ⟨same, _⟩ := cons.inj h
    rw [← same] at value
    split_ifs at value <;> omega
  case neg =>
    have ⟨b, eq, length, _⟩ := pushInt64_head_large (Nat.lt_of_not_le small) hm
    have ⟨b', eq', length', _⟩ := pushInt64_head_large (Nat.lt_of_not_le small') hn
    rw [eq, eq'] at h
    have ⟨same, rest⟩ := cons.inj h
    have ⟨data, rest⟩ := append_inj rest (by rw [← length, ← length', same])
    refine ⟨?_, rest⟩
    rw [← leNat_serialize (by omega) hm, data, leNat_serialize (by omega) hn]

end CScript

def CBlock.coinBaseScript (block : CBlock) : CScript :=
  ((block.vtx.headD {}).vin.headD { prevout := .null }).scriptSig

theorem contextualCheckBlock_height [Crypto] [Librustzcash] {node : Node} {adjustedTime : ℤ} {block : CBlock}
    {pindexPrev : CBlockIndex} (h : contextualCheckBlock node adjustedTime block (some pindexPrev) = .ok ()) :
    CScript.pushInt64 (pindexPrev.nHeight + 1) <+: block.coinBaseScript := by
  simp only [contextualCheckBlock, seq_eq_ok, Option.isSome_some, onlyIf_true, failIf_eq_ok] at h
  obtain ⟨_, height⟩ := h
  rw [Bool.not_eq_true', Bool.not_eq_false] at height
  exact isPrefixOf_iff_prefix.mp height

end Qrax
