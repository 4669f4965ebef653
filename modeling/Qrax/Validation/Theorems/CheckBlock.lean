import Qrax.Validation.CheckBlock

open Fallible List
open Bool (and_eq_true false_eq_true not_eq_false not_eq_true' or_eq_true)

namespace Qrax

structure AmountsInRange (params : Consensus.Params) (vout : List CTxOut) : Prop where
  each : ∀ txout ∈ vout, 0 ≤ txout.nValue.toInt ∧ txout.nValue.toInt ≤ params.nMaxMoneyOut.toInt
  total : (vout.map (·.nValue.toInt)).sum ≤ params.nMaxMoneyOut.toInt

-- What `CheckTransaction` guarantees in any state.
structure CTransaction.Checked (params : Consensus.Params) (tx : CTransaction) : Prop where
  amounts : AmountsInRange params tx.vout
  distinct : (tx.vin.map (·.prevout)).Nodup
  prevouts : tx.isCoinBase = false → ∀ txin ∈ tx.vin, txin.prevout.isNull → txin.isMultiMiningSpend
  size : tx.getTotalSize ≤ MAX_TX_SIZE_AFTER_SAPLING
  sapling : tx.hasSaplingData →
    tx.isSaplingVersion ∧ -params.nMaxMoneyOut.toInt ≤ tx.sapData.elim 0 (·.valueBalance.toInt)

section

variable {node : Node} {tx : CTransaction} {fColdStakingActive fSaplingActive : Bool}

section

variable {n : ℤ} (h : SaplingValidation.checkTransaction node tx fSaplingActive = .ok n)

include h

theorem SaplingValidation.checkTransaction_range :
    0 ≤ n ∧ n ≤ node.consensus.nMaxMoneyOut.toInt := by
  simp only [checkTransaction, bind_eq_ok, exists_unit] at h
  obtain ⟨_, h⟩ := h
  split at h
  case isTrue =>
    cases h
    exact ⟨le_rfl, node.consensus.nMaxMoneyOut_pos.le⟩
  case isFalse =>
    simp only [checkTransactionWithoutProofVerification, bind_eq_ok, exists_unit, failIf_eq_ok,
      Except.ok.injEq] at h
    obtain ⟨_, _, _, bounds, _, _, _, eq⟩ := h
    simp only [gt_iff_lt, or_eq_true, decide_eq_true_eq, not_or, not_lt] at bounds
    have := node.consensus.nMaxMoneyOut_pos
    rw [← eq]
    split <;> omega

theorem SaplingValidation.checkTransaction_sapling (data : tx.hasSaplingData) :
    tx.isSaplingVersion ∧ -node.consensus.nMaxMoneyOut.toInt ≤ tx.sapData.elim 0 (·.valueBalance.toInt) := by
  simp only [checkTransaction, data, Bool.not_true, false_eq_true, if_false, Bool.and_true, bind_eq_ok, exists_unit,
    failIf_eq_ok, not_eq_true', not_eq_false] at h
  obtain ⟨version, _, _, h⟩ := h
  simp only [checkTransactionWithoutProofVerification, bind_eq_ok, exists_unit, failIf_eq_ok] at h
  obtain ⟨_, bounds, _⟩ := h
  simp only [gt_iff_lt, or_eq_true, decide_eq_true_eq, not_or, not_lt] at bounds
  refine ⟨version, bounds.right.trans ?_⟩
  cases tx.sapData <;> exact le_rfl

end

theorem checkTxOut_ok {n n' : ℤ} {txout : CTxOut} (h : checkTxOut node tx fColdStakingActive n txout = .ok n') :
    n' = n + txout.nValue.toInt ∧ n' ≤ node.consensus.nMaxMoneyOut.toInt ∧
      0 ≤ txout.nValue.toInt ∧ txout.nValue.toInt ≤ node.consensus.nMaxMoneyOut.toInt := by
  simp only [checkTxOut, bind_eq_ok, exists_unit, failIf_eq_ok, Except.ok.injEq, not_eq_true',
    not_eq_false, Consensus.Params.moneyRange_iff] at h
  obtain ⟨_, nonneg, le, range, _, eq⟩ := h
  omega

theorem checkTxOuts_ok {vout : List CTxOut} {n n' : ℤ} (le : n ≤ node.consensus.nMaxMoneyOut.toInt)
    (h : vout.foldlM (checkTxOut node tx fColdStakingActive) n = .ok n') :
    n' = n + (vout.map (·.nValue.toInt)).sum ∧ n' ≤ node.consensus.nMaxMoneyOut.toInt ∧
      ∀ txout ∈ vout, 0 ≤ txout.nValue.toInt ∧ txout.nValue.toInt ≤ node.consensus.nMaxMoneyOut.toInt := by
  induction vout generalizing n
  case nil =>
    cases h
    exact ⟨by simp, le, nofun⟩
  case cons txout vout ih =>
    simp only [foldlM_cons, bind_eq_ok] at h
    obtain ⟨m, head, tail⟩ := h
    obtain ⟨eq, le, range⟩ := checkTxOut_ok head
    obtain ⟨eq', le', each⟩ := ih le tail
    refine ⟨?_, le', forall_mem_cons.mpr ⟨range, each⟩⟩
    rw [eq', eq, map_cons, sum_cons]
    omega

theorem checkTransaction_ok (h : checkTransaction node tx fColdStakingActive fSaplingActive = .ok ()) :
    tx.Checked node.consensus := by
  simp only [checkTransaction, bind_eq_ok, exists_unit, failIf_eq_ok] at h
  obtain ⟨_, _, _, size, n, sapling, _, n', outs, distinct, h⟩ := h
  obtain ⟨nonneg, le⟩ := SaplingValidation.checkTransaction_range sapling
  obtain ⟨eq, le', each⟩ := checkTxOuts_ok le outs
  constructor
  case amounts => exact ⟨each, by omega⟩
  case distinct => exact not_not.mp distinct
  case sapling => exact SaplingValidation.checkTransaction_sapling sapling
  case prevouts =>
    intro notCoinBase txin mem null
    simp only [notCoinBase, false_eq_true, if_false, failIf_eq_ok, any_eq_true, not_exists, not_and,
      and_eq_true, not_eq_true', not_eq_false] at h
    exact h txin mem null
  case size =>
    split at size
    case isTrue => omega
    case isFalse =>
      simp only [MAX_STANDARD_TX_SIZE] at size
      simp only [MAX_TX_SIZE_AFTER_SAPLING]
      omega

end

def CTransaction.shieldedOut (tx : CTransaction) : ℤ :=
  let valueBalance := tx.sapData.elim 0 (·.valueBalance.toInt)
  if tx.hasSaplingData && valueBalance < 0 then -valueBalance else 0

theorem CTransaction.shieldedOut_nonneg (tx : CTransaction) : 0 ≤ tx.shieldedOut := by
  simp only [shieldedOut]
  split
  case isTrue negative =>
    simp only [and_eq_true, decide_eq_true_eq] at negative
    omega
  case isFalse => exact le_rfl

namespace CTransaction.Checked

variable {params : Consensus.Params} {tx : CTransaction}

theorem vout_length_lt (h : tx.Checked params) : tx.vout.length < 2 ^ 32 := by
  have size : tx.getTotalSize ≤ MAX_SIZE := h.size.trans (by decide)
  have fits : tx.vout.length ≤ MAX_SIZE := (CTransaction.wire_sizesFit size).vout.left
  simp only [MAX_SIZE] at fits
  omega

theorem sum_nonneg {vout : List CTxOut} (each : ∀ txout ∈ vout, 0 ≤ txout.nValue.toInt) :
    0 ≤ (vout.map (·.nValue.toInt)).sum := by
  apply List.sum_nonneg
  intro a mem
  have ⟨txout, mem, eq⟩ := mem_map.mp mem
  exact eq ▸ each txout mem

theorem addValueOuts_eq (arith : Arith) {vout : List CTxOut} {n : ℤ} (nonneg : 0 ≤ n)
    (each : ∀ txout ∈ vout, 0 ≤ txout.nValue.toInt) (total : n + (vout.map (·.nValue.toInt)).sum < 2 ^ 63) :
    vout.foldlM (addValueOut arith) n = .ok (n + (vout.map (·.nValue.toInt)).sum) := by
  induction vout generalizing n
  case nil => exact congrArg Except.ok (by simp)
  case cons txout vout ih =>
    have ⟨first, rest⟩ := forall_mem_cons.mp each
    have tail := sum_nonneg rest
    rw [map_cons, sum_cons] at total ⊢
    have step : addValueOut arith n txout = .ok (n + txout.nValue.toInt) := by
      have inRange : Arith.InRange (n + txout.nValue.toInt) := ⟨by omega, by omega⟩
      simp only [addValueOut, failIf_of_not (not_lt.mpr first), ok_bind, Arith.norm_of_inRange arith inRange]
      rw [failIf_of_not (by omega), ok_bind]
    rw [foldlM_cons, step, ok_bind, ih (by omega) rest (by omega), add_assoc]

theorem getValueOut_shielded (h : tx.Checked params) (arith : Arith) :
    tx.getValueOut arith = .ok ((tx.vout.map (·.nValue.toInt)).sum + tx.shieldedOut) := by
  have fits := params.nMaxMoneyOut_fits
  have total := h.amounts.total
  have each (txout : CTxOut) (mem : txout ∈ tx.vout) := (h.amounts.each txout mem).left
  have nonneg := sum_nonneg each
  have sum := addValueOuts_eq arith le_rfl each (by omega)
  simp only [getValueOut, sum, ok_bind, zero_add, shieldedOut]
  split
  case isFalse => rw [add_zero]
  case isTrue negative =>
    simp only [and_eq_true, decide_eq_true_eq] at negative
    have ⟨version, bound⟩ := h.sapling negative.left
    rw [Arith.norm_of_inRange arith ⟨by omega, by omega⟩, ok_bind, failIf_of_not (by simp [version]), ok_bind,
      Int.sub_eq_add_neg]

theorem getValueOut_eq (h : tx.Checked params) :
    ∃ shielded, 0 ≤ shielded ∧
      ∀ arith, tx.getValueOut arith = .ok ((tx.vout.map (·.nValue.toInt)).sum + shielded) :=
  ⟨tx.shieldedOut, tx.shieldedOut_nonneg, h.getValueOut_shielded⟩

end CTransaction.Checked

-- What `CheckBlock` guarantees in any state, with any checks switched on.
structure CBlock.Checked (params : CChainParams) (block : CBlock) : Prop where
  size : block.serialize.length ≤ MAX_BLOCK_SIZE_CURRENT
  coinBase : (block.vtx.headD {}).isCoinBase
  others : ∀ tx ∈ block.vtx.tail, tx.isCoinBase = false
  transactions : ∀ tx ∈ block.vtx, tx.Checked params.consensus

namespace CBlock.Checked

variable {params : CChainParams} {block : CBlock}

section

variable (h : block.Checked params)

include h

theorem vtx_pos : 0 < block.vtx.length := by
  have coinBase := h.coinBase
  cases eq : block.vtx
  case nil =>
    rw [eq] at coinBase
    cases coinBase
  case cons => exact Nat.zero_lt_succ _

theorem vtx_length_le : block.vtx.length ≤ MAX_BLOCK_SIZE_CURRENT := by
  have count := length_le_serializeVector (v := block.vtx) fun tx _ => tx.serialize_length_pos
  have size := h.size
  simp only [CBlock.serialize, length_append] at size
  omega

theorem wire_eq_of_serialize {tx tx' : CTransaction} (mem : tx ∈ block.vtx)
    (e : tx.serialize = tx'.serialize) : tx.wire = tx'.wire := by
  refine CTransaction.wire_eq_of_serialize ((h.transactions tx mem).size.trans ?_) e
  simp only [MAX_TX_SIZE_AFTER_SAPLING, MAX_SIZE]
  omega

theorem head_of_isCoinBase {tx : CTransaction} (mem : tx ∈ block.vtx)
    (coinBase : tx.isCoinBase) : tx = block.vtx.headD {} := by
  have others := h.others
  cases eq : block.vtx
  case nil => rw [eq] at mem; cases mem
  case cons tx₀ vtx =>
    rw [eq] at mem others
    cases mem_cons.mp mem
    case inl eq => exact eq
    case inr later =>
      rw [others tx later] at coinBase
      cases coinBase

end

end CBlock.Checked

variable [Crypto]

structure CBlock.MerkleRootMatches (block : CBlock) : Prop where
  root : block.hashMerkleRoot = block.blockMerkleRoot.1
  mutated : block.blockMerkleRoot.2 = false

-- Only `CheckBlock` sets `fChecked`, for a block that passed all checks in the state of that time.
def CBlock.FlagEarned (params : CChainParams) (block : CBlock) : Prop :=
  block.fChecked → ∃ node : Node, node.params = params ∧
    checkBlock node { block with fChecked := false } true true true = .ok block

variable {node : Node} {block block' : CBlock} {fCheckPOW fCheckMerkleRoot fCheckSig : Bool}

theorem checkBlock_unflagged (flag : block.fChecked = false)
    (h : checkBlock node block fCheckPOW fCheckMerkleRoot fCheckSig = .ok block') :
    block.Checked node.params ∧ (fCheckMerkleRoot → block.MerkleRootMatches) := by
  simp only [checkBlock, flag, false_eq_true, if_false, bind_eq_ok, exists_unit, failIf_eq_ok, onlyIf_eq_ok,
    checkMerkleRoot, checkBlockSize, checkCoinBase, forM_eq_ok, mapError_eq_ok] at h
  obtain ⟨_, merkle, _, ⟨size, _⟩, ⟨coinBase, others⟩, _, _, _, transactions, _⟩ := h
  refine ⟨?_, fun on => ?_⟩
  · constructor
    case size =>
      simp only [gt_iff_lt, or_eq_true, decide_eq_true_eq, not_or, not_lt] at size
      exact size.right
    case coinBase => simpa using coinBase
    case others =>
      intro tx mem
      simp only [any_eq_true, not_exists, not_and, and_eq_true, not_eq_true', not_eq_false] at others
      by_contra coinBase
      have assets := others tx mem (not_eq_false _ ▸ coinBase)
      rw [CTransaction.not_containsAssets_of_isCoinBase (not_eq_false _ ▸ coinBase)] at assets
      cases assets
    case transactions => exact fun tx mem => checkTransaction_ok (transactions tx mem)
  · obtain ⟨root, mutated⟩ := merkle on
    exact ⟨not_not.mp root, Bool.eq_false_iff.mpr mutated⟩

theorem checkBlock_ok (earned : block.FlagEarned node.params)
    (h : checkBlock node block fCheckPOW fCheckMerkleRoot fCheckSig = .ok block') :
    block.Checked node.params ∧ (fCheckMerkleRoot → block.MerkleRootMatches) := by
  cases flag : block.fChecked
  case false => exact checkBlock_unflagged flag h
  case true =>
    have ⟨node', same, full⟩ := earned flag
    have ⟨checked, merkle⟩ := checkBlock_unflagged rfl full
    rw [same] at checked
    exact ⟨⟨checked.size, checked.coinBase, checked.others, checked.transactions⟩,
      fun _ => ⟨(merkle rfl).root, (merkle rfl).mutated⟩⟩

end Qrax
