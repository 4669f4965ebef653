import Qrax.Consensus.Params
import Qrax.Primitives.Block

namespace Qrax

inductive SporkId
  | SPORK_8_MASTERNODE_PAYMENT_ENFORCEMENT
  | SPORK_9_MASTERNODE_BUDGET_ENFORCEMENT
  | SPORK_13_ENABLE_SUPERBLOCKS
  | SPORK_19_COLDSTAKING_MAINTENANCE
  | SPORK_20_SAPLING_MAINTENANCE
  deriving DecidableEq, Repr

inductive TrxValidationStatus
  | InValid
  | Valid
  | DoublePayment
  | VoteThreshold
  deriving DecidableEq, Repr

-- An entry of the block index. Its parent's, `pprev`, is passed along.
structure CBlockIndex where
  phashBlock : Uint256
  nHeight : ℕ
  hashFinalSaplingRoot : Uint256 := 0
  nChainSaplingValue : Option CAmount := none
  deriving DecidableEq

structure CBudgetManager where
  isBudgetPaymentBlock : (nBlockHeight : ℕ) → Bool
  getTotalBudget : (nHeight : ℕ) → ℤ
  getExpectedPayeeAmount : (nHeight : ℕ) → Option ℤ
  isTransactionValid : CTransaction → (nBlockHash : Uint256) → (nBlockHeight : ℕ) → TrxValidationStatus

structure CMasternodePayments where
  isTransactionValid : CTransaction → (nBlockHeight : ℕ) → Bool

structure CMultiMiningManager where
  getCurrentAssetHash : Uint256
  getSummaryAssetsToReward : ℤ

-- The globals that checks read under `cs_main`. The tip is an entry of the index, and exists after the initial
-- download.
structure Node where
  params : CChainParams
  tip : Option CBlockIndex
  mapBlockIndex : Uint256 → Option CBlockIndex
  isInitialBlockDownload : Bool
  isSynced : Bool
  isSporkActive : SporkId → Bool
  getSporkValue : SporkId → ℤ
  budgetman : CBudgetManager
  masternodePayments : CMasternodePayments
  multiMiningManager : CMultiMiningManager
  newP2CSRules : Bool
  fAddressIndex : Bool
  containsOutPoint : COutPoint → Bool
  getTotalBlocksEstimate : ℕ
  nScriptCheckThreads : ℕ
  getTransaction : Uint256 → Option CTransaction
  tip_indexed : ∀ pindex ∈ tip, mapBlockIndex pindex.phashBlock = some pindex
  tip_isSome : isInitialBlockDownload = false → tip.isSome

namespace Node

def consensus (node : Node) : Consensus.Params :=
  node.params.consensus

def nextHeight (node : Node) : ℕ :=
  node.tip.elim 0 (·.nHeight + 1)

def start (params : CChainParams) : Node where
  params := params
  tip := none
  mapBlockIndex := fun _ => none
  isInitialBlockDownload := true
  isSynced := true
  isSporkActive := fun _ => false
  getSporkValue := fun _ => 2 ^ 32
  budgetman := {
    isBudgetPaymentBlock := fun _ => false
    getTotalBudget := fun _ => 0
    getExpectedPayeeAmount := fun _ => none
    isTransactionValid := fun _ _ _ => .InValid
  }
  masternodePayments := { isTransactionValid := fun _ _ => true }
  multiMiningManager := { getCurrentAssetHash := 0, getSummaryAssetsToReward := 0 }
  newP2CSRules := false
  fAddressIndex := true
  containsOutPoint := fun _ => false
  getTotalBlocksEstimate := 0
  nScriptCheckThreads := 0
  getTransaction := fun _ => none
  tip_indexed := nofun
  tip_isSome := nofun

end Node

end Qrax
