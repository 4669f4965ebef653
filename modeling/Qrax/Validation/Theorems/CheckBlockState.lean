import Qrax.Validation.Theorems.ConnectBlock

open Fallible

namespace Qrax

-- Which checks of `CheckBlock` read the state, and which only the block and the network's parameters.

section

variable (node : Node) (tx : CTransaction)

-- `CheckTransaction` for one output, without the rules for cold staking.
def checkTxOutAmount (nValueOut : ℤ) (txout : CTxOut) : Except Failure ℤ := do
  failIf (txout.isEmpty && !tx.isCoinBase && !tx.isCoinStake && !tx.containsAssets)
    (dos 100 REJECT_INVALID "bad-txns-vout-empty")
  failIf (txout.nValue.toInt < 0) (dos 100 REJECT_INVALID "bad-txns-vout-negative")
  failIf (txout.nValue.toInt > node.consensus.nMaxMoneyOut.toInt)
    (dos 100 REJECT_INVALID "bad-txns-vout-toolarge")
  let nValueOut := nValueOut + txout.nValue.toInt
  failIf (!node.consensus.moneyRange nValueOut) (dos 100 REJECT_INVALID "bad-txns-txouttotal-toolarge")
  .ok nValueOut

-- `SaplingValidation::CheckTransaction`, without asking whether Sapling is active.
def checkSapling : Except Failure ℤ := do
  failIf (!tx.isSaplingVersion && tx.hasSaplingData) (dos 100 REJECT_INVALID "bad-txns-form-not-sapling")
  if !tx.hasSaplingData then .ok 0
  else
    failIf (tx.isCoinStake || tx.isCoinBase) (dos 100 REJECT_INVALID "bad-txns-invalid-sapling")
    SaplingValidation.checkTransactionWithoutProofVerification node (tx.sapData.getD {})

structure CTransaction.Stateless : Prop where
  inputs : ¬(tx.vin.isEmpty && tx.sapData.any (·.vShieldedSpend.isEmpty))
  outputs : ¬(tx.vout.isEmpty && tx.sapData.any (·.vShieldedOutput.isEmpty))
  size : ¬tx.getTotalSize > if tx.isShieldedTx then MAX_TX_SIZE_AFTER_SAPLING else MAX_STANDARD_TX_SIZE
  amounts : ∃ n n', checkSapling node tx = .ok n ∧ tx.vout.foldlM (checkTxOutAmount node tx) n = .ok n'
  distinct : (tx.vin.map (·.prevout)).Nodup
  coinBase : tx.isCoinBase → 2 ≤ (tx.vin.headD { prevout := .null }).scriptSig.length ∧
    (tx.vin.headD { prevout := .null }).scriptSig.length ≤ 150
  prevouts : tx.isCoinBase = false → ¬tx.vin.any fun txin => txin.prevout.isNull && !txin.isMultiMiningSpend

structure CTransaction.StateChecked (fColdStakingActive fSaplingActive : Bool) : Prop where
  version : fSaplingActive → ¬(tx.nVersion < 1 || tx.nVersion ≥ CTransaction.TxVersion.TOOHIGH.toInt16)
  sapling : tx.hasSaplingData → fSaplingActive
  special : checkSpecialTx tx fSaplingActive = .ok ()
  coldStake : ∀ txout ∈ tx.vout, txout.scriptPubKey.isPayToColdStaking node.newP2CSRules →
    checkColdStakeOut node fColdStakingActive txout = .ok ()

variable [Crypto] (block : CBlock)

structure CBlock.Stateless (fCheckPOW fCheckMerkleRoot : Bool) : Prop where
  work : ¬(!block.isProofOfStake && fCheckPOW && !checkProofOfWork node.params block.getHash block.nBits)
  merkleRoot : fCheckMerkleRoot → checkMerkleRoot block = .ok ()
  size : checkBlockSize block = .ok ()
  coinBase : checkCoinBase block = .ok ()
  coinStake : block.isProofOfStake → checkCoinStake block = .ok ()
  transactions : ∀ tx ∈ block.vtx, tx.Stateless node
  sigOps : ¬(block.vtx.map getLegacySigOpCount).sum > MAX_BLOCK_SIGOPS_LEGACY

structure CBlock.StateChecked (fCheckSig : Bool) : Prop where
  assets : node.consensus.networkUpgradeActive node.nextHeight .ACTIVATE_ASSET_VALIDATION →
    block.assetRootHash = node.multiMiningManager.getCurrentAssetHash
  transactions : ∃ fColdStakingActive, checkColdStaking node block = .ok fColdStakingActive ∧
    ∀ tx ∈ block.vtx, tx.StateChecked node fColdStakingActive
      (node.consensus.networkUpgradeActive node.nextHeight .ACTIVATE_HUSH)
  signature : fCheckSig → checkBlockSignature node block

end

variable {node : Node} {tx : CTransaction} {fColdStakingActive fSaplingActive : Bool} {n m : ℤ}

theorem checkTxOut_iff {txout : CTxOut} : checkTxOut node tx fColdStakingActive n txout = .ok m ↔
    checkTxOutAmount node tx n txout = .ok m ∧ (txout.scriptPubKey.isPayToColdStaking node.newP2CSRules →
      checkColdStakeOut node fColdStakingActive txout = .ok ()) := by
  simp only [checkTxOut, checkTxOutAmount, bind_eq_ok, exists_unit, onlyIf_eq_ok, and_assoc]
  exact and_congr_right fun _ => and_congr_right fun _ => and_congr_right fun _ => and_congr_right fun _ => and_comm

theorem checkTxOuts_iff {vout : List CTxOut} :
    vout.foldlM (checkTxOut node tx fColdStakingActive) n = .ok m ↔
      vout.foldlM (checkTxOutAmount node tx) n = .ok m ∧
        ∀ txout ∈ vout, txout.scriptPubKey.isPayToColdStaking node.newP2CSRules →
          checkColdStakeOut node fColdStakingActive txout = .ok () := by
  induction vout generalizing n
  case nil => exact ⟨fun h => ⟨h, nofun⟩, And.left⟩
  case cons txout vout ih =>
    simp only [List.foldlM_cons, bind_eq_ok, checkTxOut_iff, ih, List.forall_mem_cons]
    constructor
    case mp => exact fun ⟨k, ⟨here, cold⟩, rest, colds⟩ => ⟨⟨k, here, rest⟩, cold, colds⟩
    case mpr => exact fun ⟨⟨k, here, rest⟩, cold, colds⟩ => ⟨k, ⟨here, cold⟩, rest, colds⟩

theorem checkSapling_iff : SaplingValidation.checkTransaction node tx fSaplingActive = .ok n ↔
    checkSapling node tx = .ok n ∧ (tx.hasSaplingData → fSaplingActive) := by
  unfold SaplingValidation.checkTransaction checkSapling
  cases data : tx.hasSaplingData
  case false => simp
  case true =>
    simp only [bind_eq_ok, exists_unit, failIf_eq_ok, Bool.not_true, Bool.false_eq_true, if_false, true_implies,
      Bool.not_eq_true', Bool.not_eq_false, and_assoc]
    exact and_congr_right fun _ => and_congr_right fun _ => and_comm

theorem checkTransaction_iff : checkTransaction node tx fColdStakingActive fSaplingActive = .ok () ↔
    tx.Stateless node ∧ tx.StateChecked node fColdStakingActive fSaplingActive := by
  simp only [checkTransaction, bind_eq_ok, exists_unit, failIf_eq_ok, checkSapling_iff, checkTxOuts_iff, not_not]
  constructor
  case mp =>
    rintro ⟨inputs, outputs, version, size, n, ⟨sapling, active⟩, special, m, ⟨outs, colds⟩, distinct, last⟩
    refine ⟨⟨inputs, outputs, size, ⟨n, m, sapling, outs⟩, distinct, fun coinBase => ?_, fun coinBase => ?_⟩,
      ⟨by simpa using version, active, special, colds⟩⟩
    · rw [coinBase, if_pos rfl, failIf_eq_ok] at last
      simp only [Bool.or_eq_true, decide_eq_true_eq] at last
      omega
    · rw [coinBase, if_neg Bool.false_ne_true, failIf_eq_ok] at last
      exact last
  case mpr =>
    rintro ⟨⟨inputs, outputs, size, ⟨n, m, sapling, outs⟩, distinct, coinBase, prevouts⟩, version, active, special, colds⟩
    refine ⟨inputs, outputs, by simpa using version, size, n, ⟨sapling, active⟩, special, m, ⟨outs, colds⟩, distinct, ?_⟩
    cases base : tx.isCoinBase
    case true =>
      have fits := coinBase base
      rw [if_pos rfl, failIf_eq_ok]
      simp only [Bool.or_eq_true, decide_eq_true_eq]
      omega
    case false => exact failIf_eq_ok.mpr (prevouts base)

section

variable {node node' : Node}

theorem checkTxOutAmount_congr (same : node'.params = node.params) :
    checkTxOutAmount node' = checkTxOutAmount node := by
  have consensus : node'.consensus = node.consensus := congrArg CChainParams.consensus same
  unfold checkTxOutAmount
  rw [consensus]

theorem checkSapling_congr (same : node'.params = node.params) : checkSapling node' = checkSapling node := by
  have consensus : node'.consensus = node.consensus := congrArg CChainParams.consensus same
  unfold checkSapling SaplingValidation.checkTransactionWithoutProofVerification
  rw [consensus]

theorem CTransaction.Stateless.congr {tx : CTransaction} (stateless : tx.Stateless node) (same : node'.params = node.params) :
    tx.Stateless node' := by
  have ⟨n, m, sapling, outs⟩ := stateless.amounts
  refine ⟨stateless.inputs, stateless.outputs, stateless.size, ⟨n, m, ?_, ?_⟩, stateless.distinct, stateless.coinBase, stateless.prevouts⟩
  · rwa [checkSapling_congr same]
  · rwa [checkTxOutAmount_congr same]

variable [Crypto] {block : CBlock} {fCheckPOW fCheckMerkleRoot fCheckSig : Bool}

theorem checkBlock_iff (fresh : block.fChecked = false) :
    (checkBlock node block fCheckPOW fCheckMerkleRoot fCheckSig).isOk ↔
      block.Stateless node fCheckPOW fCheckMerkleRoot ∧ block.StateChecked node fCheckSig := by
  rw [isOk_iff]
  simp only [checkBlock, fresh, Bool.false_eq_true, if_false, bind_eq_ok, exists_unit, failIf_eq_ok, onlyIf_eq_ok,
    forM_eq_ok, mapError_eq_ok, checkTransaction_iff]
  constructor
  case mp =>
    rintro ⟨_, work, merkle, assets, size, coinBase, coinStake, f, cold, txs, sigOps, signature, _⟩
    refine ⟨⟨work, merkle, size, coinBase, coinStake, fun tx mem => (txs tx mem).left, sigOps⟩,
      ⟨by simpa using assets, ⟨f, cold, fun tx mem => (txs tx mem).right⟩, by simpa using signature⟩⟩
  case mpr =>
    rintro ⟨⟨work, merkle, size, coinBase, coinStake, stateless, sigOps⟩, assets, ⟨f, cold, txs⟩, signature⟩
    exact ⟨_, work, merkle, by simpa using assets, size, coinBase, coinStake, f, cold,
      fun tx mem => ⟨stateless tx mem, txs tx mem⟩, sigOps, by simpa using signature, rfl⟩

theorem CBlock.Stateless.congr (stateless : block.Stateless node fCheckPOW fCheckMerkleRoot)
    (same : node'.params = node.params) : block.Stateless node' fCheckPOW fCheckMerkleRoot where
  work := same ▸ stateless.work
  merkleRoot := stateless.merkleRoot
  size := stateless.size
  coinBase := stateless.coinBase
  coinStake := stateless.coinStake
  transactions tx mem := (stateless.transactions tx mem).congr same
  sigOps := stateless.sigOps

-- The verdict is the same in two states, and so is one remembered from the first.
structure SameVerdict (node node' : Node) (block : CBlock) (fCheckPOW fCheckMerkleRoot fCheckSig : Bool) : Prop where
  fresh : (checkBlock node block fCheckPOW fCheckMerkleRoot fCheckSig).isOk =
    (checkBlock node' block fCheckPOW fCheckMerkleRoot fCheckSig).isOk
  remembered : ∀ block', checkBlock node block true true true = .ok block' →
    (checkBlock node' block' fCheckPOW fCheckMerkleRoot fCheckSig).isOk =
      (checkBlock node' block fCheckPOW fCheckMerkleRoot fCheckSig).isOk

theorem CBlock.StateChecked.weaken (checked : block.StateChecked node true) : block.StateChecked node fCheckSig :=
  ⟨checked.assets, checked.transactions, fun _ => checked.signature rfl⟩

theorem CBlock.Stateless.weaken (stateless : block.Stateless node true true) : block.Stateless node fCheckPOW fCheckMerkleRoot where
  work := by
    intro failed
    simp only [Bool.and_eq_true] at failed
    exact stateless.work (by simp only [failed.left.left, failed.right, Bool.and_self])
  merkleRoot _ := stateless.merkleRoot rfl
  size := stateless.size
  coinBase := stateless.coinBase
  coinStake := stateless.coinStake
  transactions := stateless.transactions
  sigOps := stateless.sigOps

theorem checkBlock_flags {block' : CBlock} (fresh : block.fChecked = false)
    (done : checkBlock node block true true true = .ok block') : block'.fChecked := by
  simp only [checkBlock, fresh, Bool.false_eq_true, if_false, bind_eq_ok] at done
  obtain ⟨_, _, _, _, _, _, _, _, _, _, _, _, _, _, _, _, _, _, _, _, eq⟩ := done
  cases eq
  rfl

end

section

attribute [local instance] Crypto.toy

def delegationTx : CTransaction where
  vin := [{ prevout := ⟨5, 0⟩ }]
  vout := [{ nValue := MIN_COLDSTAKING_AMOUNT, scriptPubKey := getScriptForStakeDelegation 1 2 }]

def sporkNode (maintenance : Bool) : Node :=
  { exampleNode .regtest exampleTip with
    isInitialBlockDownload := false
    isSporkActive := fun spork => spork = .SPORK_19_COLDSTAKING_MAINTENANCE && maintenance
    tip_isSome := fun _ => rfl }

def delegationBlock : CBlock :=
  exampleBlock exampleTip [minerTx, delegationTx]

theorem delegationBlock_accepted : checkBlock (sporkNode false) delegationBlock true true true =
    .ok { delegationBlock with fChecked := true } := by
  decide +kernel

theorem delegationBlock_refused : checkBlock (sporkNode true) delegationBlock true true true =
    .error (dos 10 REJECT_INVALID "cold-stake-inactive") := by
  decide +kernel

end

end Qrax
