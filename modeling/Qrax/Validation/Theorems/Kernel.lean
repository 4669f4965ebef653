import Qrax.Validation.Pow
import Qrax.Validation.Theorems.Stake

open Fallible BitVec Nat

namespace Qrax

section

def CNewStake.withValue (stake : CNewStake) (nValue : CAmount) : CNewStake :=
  { stake with outputFrom := { stake.outputFrom with nValue } }

def weightedTarget (nBits : UInt32) (stakeValue : CAmount) : Uint256 :=
  (setCompact nBits).1 * (BitVec.ofNat 256 stakeValue.toUInt64.toNat / 100)

def exactTarget (nBits : UInt32) (stakeValue : CAmount) : ℕ :=
  (setCompact nBits).1.toNat * (stakeValue.toInt.toNat / 100)

-- Up to `W` the multiples of `a` grow modulo `N` just when none is reduced: the first reduced one falls below its
-- predecessor.
theorem mul_mod_mono_iff {a W N : ℕ} (lt : a < N) :
    (∀ i j, i ≤ j → j ≤ W → a * i % N ≤ a * j % N) ↔ a * W < N := by
  constructor
  case mp =>
    intro mono
    by_contra reduced
    have reaches : ∃ w, N ≤ a * w := ⟨W, by omega⟩
    have first := Nat.find_spec reaches
    have le : Nat.find reaches ≤ W := Nat.find_min' reaches (by omega)
    cases eq : Nat.find reaches
    case zero => rw [eq] at first; omega
    case succ w =>
      have below : a * w < N := Nat.lt_of_not_le (Nat.find_min reaches (eq ▸ lt_succ_self w))
      rw [eq, Nat.mul_succ] at first
      have falls := mono w (w + 1) (le_succ w) (eq ▸ le)
      rw [Nat.mul_succ, mod_eq_of_lt below, mod_eq_sub_mod first, mod_eq_of_lt (by omega)] at falls
      omega
  case mpr =>
    intro fits i j le le'
    have lej : a * j ≤ a * W := mul_le_mul_left a le'
    have leij : a * i ≤ a * j := mul_le_mul_left a le
    rwa [mod_eq_of_lt (by omega), mod_eq_of_lt (by omega)]

theorem toNat_toUInt64 {v : CAmount} (nonneg : 0 ≤ v.toInt) : v.toUInt64.toNat = v.toInt.toNat := by
  have eq : v.toInt = v.toBitVec.toInt := rfl
  have lt := v.toBitVec.isLt
  change v.toBitVec.toNat = v.toInt.toNat
  rw [eq, toInt_eq_toNat_cond] at nonneg ⊢
  split at nonneg <;> omega

theorem weightedTarget_toNat {nBits : UInt32} {v : CAmount} (nonneg : 0 ≤ v.toInt) :
    (weightedTarget nBits v).toNat = exactTarget nBits v % 2 ^ 256 := by
  have lt := v.toInt_lt
  have fits : v.toInt.toNat < 2 ^ 256 := by omega
  rw [weightedTarget, exactTarget, toNat_mul, toNat_udiv, toNat_ofNat, toNat_toUInt64 nonneg,
    mod_eq_of_lt fits]
  rfl

variable {p : CChainParams} {nBits : UInt32}

theorem exactTarget_mono {v₁ v₂ : CAmount} (le : v₁.toInt ≤ v₂.toInt) : exactTarget nBits v₁ ≤ exactTarget nBits v₂ := by
  have le : v₁.toInt.toNat / 100 ≤ v₂.toInt.toNat / 100 := Nat.div_le_div_right (by omega)
  exact mul_le_mul_left _ le

theorem exists_weight (params : Consensus.Params) {i : ℕ} (le : i ≤ params.nMaxMoneyOut.toInt.toNat / 100) :
    ∃ v : CAmount, params.moneyRange v.toInt ∧ v.toInt.toNat / 100 = i ∧ v.toInt = 100 * i := by
  have pos := params.nMaxMoneyOut_pos
  have fits := params.nMaxMoneyOut_fits
  have eq : (Int64.ofInt (100 * i)).toInt = 100 * i := Int64.toInt_ofInt_of_le (by omega) (by omega)
  exact ⟨Int64.ofInt (100 * i), by rw [eq, Consensus.Params.moneyRange_iff]; omega, by omega, eq⟩

theorem weightedTarget_mono_iff :
    (∀ v₁ v₂ : CAmount, p.consensus.moneyRange v₁.toInt → p.consensus.moneyRange v₂.toInt → v₁ ≤ v₂ →
        weightedTarget nBits v₁ ≤ weightedTarget nBits v₂) ↔
      exactTarget nBits p.consensus.nMaxMoneyOut < 2 ^ 256 := by
  rw [exactTarget, ← mul_mod_mono_iff (setCompact nBits).1.isLt]
  constructor
  case mp =>
    intro mono i j le lej
    have ⟨v₁, range₁, weight₁, eq₁⟩ := exists_weight p.consensus (le.trans lej)
    have ⟨v₂, range₂, weight₂, eq₂⟩ := exists_weight p.consensus lej
    have h := mono v₁ v₂ range₁ range₂ (Int64.le_iff_toInt_le.mpr (by omega))
    rw [le_def, weightedTarget_toNat (by omega), weightedTarget_toNat (by omega)] at h
    rwa [exactTarget, exactTarget, weight₁, weight₂] at h
  case mpr =>
    intro mono v₁ v₂ range₁ range₂ le
    rw [Consensus.Params.moneyRange_iff] at range₁ range₂
    rw [Int64.le_iff_toInt_le] at le
    rw [le_def, weightedTarget_toNat range₁.left, weightedTarget_toNat range₂.left]
    exact mono _ _ (Nat.div_le_div_right (by omega)) (Nat.div_le_div_right (by omega))

theorem weightedTarget_exact_iff :
    (∀ v : CAmount, p.consensus.moneyRange v.toInt → (weightedTarget nBits v).toNat = exactTarget nBits v) ↔
      exactTarget nBits p.consensus.nMaxMoneyOut < 2 ^ 256 := by
  have pos := p.consensus.nMaxMoneyOut_pos
  constructor
  case mp =>
    intro exact
    rw [← exact _ (Consensus.Params.moneyRange_iff.mpr ⟨pos.le, le_rfl⟩)]
    exact (weightedTarget nBits _).isLt
  case mpr =>
    intro fits v range
    rw [Consensus.Params.moneyRange_iff] at range
    rw [weightedTarget_toNat range.left]
    exact mod_eq_of_lt (lt_of_le_of_lt (exactTarget_mono range.right) fits)

-- A kernel accepted for an amount is accepted for every larger one, and the weighted target is exact, just when the
-- chain's work keeps the target of the largest amount within 256 bits.
theorem checkKernelHash_mono_iff (chain : HeaderChain p) :
    ((∀ (_ : Crypto) (store : BlockStore) pindexPrev (stake : CNewStake) nTime (v₁ v₂ : CAmount),
          p.consensus.moneyRange v₁.toInt → p.consensus.moneyRange v₂.toInt → v₁ ≤ v₂ →
          checkKernelHash store pindexPrev (stake.withValue v₁) (getNextWorkRequired p chain.headers) nTime →
          checkKernelHash store pindexPrev (stake.withValue v₂) (getNextWorkRequired p chain.headers) nTime) ↔
        exactTarget (getNextWorkRequired p chain.headers) p.consensus.nMaxMoneyOut < 2 ^ 256) ∧
      ((∀ v : CAmount, p.consensus.moneyRange v.toInt →
          (weightedTarget (getNextWorkRequired p chain.headers) v).toNat =
            exactTarget (getNextWorkRequired p chain.headers) v) ↔
        exactTarget (getNextWorkRequired p chain.headers) p.consensus.nMaxMoneyOut < 2 ^ 256) := by
  refine ⟨?_, weightedTarget_exact_iff⟩
  rw [← weightedTarget_mono_iff]
  constructor
  case mp =>
    -- With a constant digest, every number is the hash of a kernel.
    intro mono v₁ v₂ range₁ range₂ le
    by_contra lt
    let crypto : Crypto := { Crypto.toy with sha256 := fun _ => weightedTarget (getNextWorkRequired p chain.headers) v₂ }
    let store : BlockStore := {
      readBlockFromDisk := fun _ => none, nTime := fun _ => 0, getStakeModifierV2 := fun _ => 0, hash := nofun }
    have accepts := mono crypto store 0 ⟨{}, .null, 0⟩ 0 v₁ v₂ range₁ range₂ le
      (decide_eq_true (BitVec.not_le.mp lt))
    exact absurd (of_decide_eq_true accepts) (BitVec.lt_irrefl _)
  case mpr =>
    intro mono _ store pindexPrev stake nTime v₁ v₂ range₁ range₂ le accepts
    have below := of_decide_eq_true accepts
    exact decide_eq_true (Nat.lt_of_lt_of_le below (mono v₁ v₂ range₁ range₂ le))

end

section

variable [Crypto]

section

variable (p : CChainParams) (tree : BlockTree) (store : BlockStore) (chain : ActiveChain) (pindexPrev : Uint256)

-- The depth the wallet asks for, of the output staked on top of `pindexPrev`.
def CNewStake.isDeep (stake : CNewStake) : Bool :=
  p.consensus.hasStakeMinAgeOrDepth (tree.nHeight pindexPrev + 1) (tree.nHeight stake.pindexFrom)

def verifyCoinStake (tx : CTransaction) (out : CTxOut) : Except ScriptError Unit :=
  verifyScript STANDARD_SCRIPT_VERIFY_FLAGS (TransactionSignatureChecker.checker chain.newP2CSRules tx 0 out.nValue)
    tx.getRequiredSigVersion (tx.vin.headD { prevout := .null }).scriptSig out.scriptPubKey

-- Some target and time let the kernel pass, and some coinstake may spend the output.
def CNewStake.Stakeable (stake : CNewStake) : Prop :=
  (∃ nBits nTime, checkKernelHash store pindexPrev stake nBits nTime) ∧
    ∃ tx : CTransaction, tx.isCoinStake ∧ (tx.vin.headD { prevout := .null }).prevout = stake.outpointFrom ∧
      verifyCoinStake chain tx stake.outputFrom = .ok ()

end

variable {p : CChainParams} {tree : BlockTree} {store : BlockStore} {chain : ActiveChain} {pindexPrev : Uint256}

theorem newStake_outpoint {txin : CTxIn} {stake : CNewStake}
    (found : newStake tree store chain txin = .ok (some stake)) : stake.outpointFrom = txin.prevout := by
  unfold newStake at found
  split at found
  case h_1 => cases found
  case h_2 =>
    split at found
    case isFalse => cases found
    case isTrue =>
      split at found
      case h_1 => cases found
      case h_2 => cases found; rfl

end

section

attribute [local instance] Crypto.toy

-- The regression test network keeps its genesis difficulty.
def easyChain : HeaderChain .regtest where
  headers := List.replicate 361 { nBits := 0x1e0ffff0 }
  required := by
    intro header rest suffix nonempty
    have all (h : CBlockHeader) (mem : h ∈ header :: rest) : h = { nBits := 0x1e0ffff0 } :=
      List.eq_of_mem_replicate (suffix.subset mem)
    cases rest
    case nil => exact absurd rfl nonempty
    case cons h hs =>
      rw [all header (by simp), all h (by simp)]
      rfl

-- There the weight `2 ^ 36` makes the target vanish.
theorem checkKernelHash_refuses_more :
    CChainParams.regtest.consensus.networkUpgradeActive easyChain.headers.length .ACTIVATE_POS ∧
      ∃ (stake : CNewStake) (v₁ v₂ : CAmount), v₁ ≤ v₂ ∧
        CChainParams.regtest.consensus.moneyRange v₁.toInt ∧ CChainParams.regtest.consensus.moneyRange v₂.toInt ∧
        checkKernelHash branchStore 0 (stake.withValue v₁) (getNextWorkRequired .regtest easyChain.headers) 0 = true ∧
        checkKernelHash branchStore 0 (stake.withValue v₂) (getNextWorkRequired .regtest easyChain.headers) 0 = false := by
  refine ⟨by decide +kernel, ⟨{}, .null, 0⟩, 100 * 2 ^ 19, 100 * 2 ^ 36, ?_⟩
  decide

end

end Qrax
