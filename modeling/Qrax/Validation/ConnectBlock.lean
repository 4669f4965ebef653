import Qrax.Validation.CheckBlock
import Qrax.Validation.CheckInputs

open Fallible

namespace Qrax

section

variable (node : Node)

def budgetAllowance (nHeight : ℕ) : ℤ :=
  if !node.isSynced then
    if nHeight % node.consensus.nBudgetCycleBlocks < 100 then node.budgetman.getTotalBudget nHeight else 0
  else if node.isSporkActive .SPORK_13_ENABLE_SUPERBLOCKS then
    (node.budgetman.getExpectedPayeeAmount nHeight).getD 0
  else 0

def isBlockValueValid (arith : Arith) (nHeight : ℕ) (nExpectedValue nMinted : ℤ) : Except Failure Bool :=
  if !node.isSynced && nHeight % node.consensus.nBudgetCycleBlocks < 100 && node.params.network == .TESTNET then
    .ok true
  else do
    let nExpectedValue ← arith.norm (nExpectedValue + budgetAllowance node nHeight)
    .ok (nMinted ≤ nExpectedValue)

def isBlockPayeeValid [Crypto] (block : CBlock) (nBlockHeight : ℕ) : Bool :=
  let isPoSActive := node.consensus.networkUpgradeActive nBlockHeight .ACTIVATE_POS
  let txNew := block.vtx.getD (if isPoSActive then 1 else 0) {}
  let payMasternode :=
    node.masternodePayments.isTransactionValid txNew nBlockHeight ||
      !node.isSporkActive .SPORK_8_MASTERNODE_PAYMENT_ENFORCEMENT
  if !node.isSynced then true
  else if node.isSporkActive .SPORK_13_ENABLE_SUPERBLOCKS && node.budgetman.isBudgetPaymentBlock nBlockHeight then
    match node.budgetman.isTransactionValid txNew block.getHash nBlockHeight with
    | .Valid => true
    | .InValid => !node.isSporkActive .SPORK_9_MASTERNODE_BUDGET_ENFORCEMENT && payMasternode
    | _ => payMasternode
  else payMasternode

end

structure CTxUndo where
  vprevout : List Coin := []
  deriving DecidableEq

-- A missing coin of an input becomes a default coin in the undo data.
def spendInputs (inputs : CCoinsViewCache) : List CTxIn → List Coin × CCoinsViewCache
  | [] => ([], inputs)
  | txin :: vin =>
    let (coin, inputs) := inputs.spendCoin txin.prevout
    let (vprevout, inputs) := spendInputs inputs vin
    (coin.getD {} :: vprevout, inputs)

def updateCoins [Crypto] (node : Node) (tx : CTransaction) (inputs : CCoinsViewCache) (nHeight : ℕ) (fSkipInvalid : Bool) :
    Except Failure (CTxUndo × CCoinsViewCache) := do
  let (vprevout, inputs) :=
    if !tx.isCoinBase && !tx.containsAssets then spendInputs inputs tx.vin else ([], inputs)
  let inputs ← addCoins node.containsOutPoint inputs tx nHeight false fSkipInvalid
  .ok ({ vprevout }, inputs)

def Node.skipInvalidUTXOS (node : Node) (nHeight : ℕ) : Bool :=
  node.params.network == .MAIN && node.consensus.networkUpgradeActive nHeight .ACTIVATE_POS

structure ConnectState where
  view : CCoinsViewCache
  saplingTree : SaplingMerkleTree
  nFees : ℤ := 0
  nValueIn : ℤ := 0
  nValueOut : ℤ := 0
  nAssetValue : ℤ := 0
  nSigOps : ℕ := 0
  vChecks : List CScriptCheck := []
  vtxundo : List CTxUndo := []

def connectBlockFlags : ScriptFlags :=
  SCRIPT_VERIFY_P2SH ||| SCRIPT_VERIFY_DERSIG ||| SCRIPT_VERIFY_CHECKLOCKTIMEVERIFY

section

variable (arith : Arith) (node : Node) (tx : CTransaction)

def addFees (s : ConnectState) : Except Failure ConnectState :=
  if tx.isCoinStake then .ok s
  else do
    let (value, view) ← s.view.getValueIn arith tx
    let nFees ← arith.norm (s.nFees + value)
    .ok { s with view, nFees }

-- The totals over the outputs are kept while the address index is built.
def countOutputs (txid : Uint256) (s : ConnectState) (k : ℕ) : List CTxOut → Except Failure ConnectState
  | [] => .ok s
  | out :: vout =>
    if node.containsOutPoint { hash := txid, n := UInt32.ofNat k } then countOutputs txid s (k + 1) vout
    else do
      let nValueOut ← arith.norm (s.nValueOut + out.nValue.toInt)
      let nFees ← if tx.isCoinStake then .ok s.nFees else arith.norm (s.nFees - out.nValue.toInt)
      countOutputs txid { s with nValueOut, nFees } (k + 1) vout

def countAssets (s : ConnectState) : Except Failure ConnectState :=
  if tx.containsAssets then do
    let value ← tx.getMultiMiningSpend arith
    let nAssetValue ← arith.norm (s.nAssetValue + value)
    .ok { s with nAssetValue }
  else .ok s

end

section

variable [Crypto] (arith : Arith) (node : Node) (nHeight : ℕ) (tx : CTransaction)

def checkAvailable (s : ConnectState) : Except Failure ConnectState :=
  if tx.isCoinBase then .ok s
  else do
    let (have', view) := s.view.haveInputs tx
    failIf (!have') (dos 100 REJECT_INVALID "bad-txns-inputs-missingorspent")
    let (met, view) := view.haveShieldedRequirements tx
    failIf (!met) (dos 100 REJECT_INVALID "bad-txns-sapling-requirements-not-met")
    let (nP2SH, view) := getP2SHSigOpCount tx view
    let nSigOps := s.nSigOps + nP2SH
    failIf (nSigOps > MAX_BLOCK_SIGOPS_CURRENT) (dos 100 REJECT_INVALID "bad-blk-sigops")
    .ok { s with view, nSigOps }

-- The inputs of a transaction that is no coinbase and has no assets.
def connectInputs (s : ConnectState) : Except Failure ConnectState :=
  if !tx.isCoinBase && !tx.containsAssets then do
    let s ← addFees arith tx s
    let (value, view) ← s.view.getValueIn arith tx
    let nValueIn ← arith.norm (s.nValueIn + value)
    let fScriptChecks := decide (nHeight ≥ node.getTotalBlocksEstimate)
    let (vChecks, view) ←
      checkInputs node arith tx view fScriptChecks connectBlockFlags (node.nScriptCheckThreads ≠ 0)
    .ok { s with view, nValueIn, vChecks := s.vChecks ++ vChecks }
  else .ok s

def appendCommitments (tree : SaplingMerkleTree) : Except Failure SaplingMerkleTree :=
  if tx.isShieldedTx then
    (tx.sapData.elim [] (·.vShieldedOutput)).foldlM (fun tree output => tree.append output.cmu) tree
  else .ok tree

def connectTx (block : CBlock) (i : ℕ) (s : ConnectState) : Except Failure ConnectState := do
  let nSigOps := s.nSigOps + getLegacySigOpCount tx
  failIf (nSigOps > MAX_BLOCK_SIGOPS_CURRENT) (dos 100 REJECT_INVALID "bad-blk-sigops")
  failIf (!node.isInitialBlockDownload && tx.isShieldedTx &&
      (block.nTime.toNat : ℤ) > node.getSporkValue .SPORK_20_SAPLING_MAINTENANCE)
    (dos 100 0 "")
  let s ← checkAvailable tx { s with nSigOps }
  let s ← connectInputs arith node nHeight tx s
  let s ← if node.fAddressIndex then countOutputs arith node tx tx.getHash s 0 tx.vout else .ok s
  let s ← countAssets arith tx s
  let (txundo, view) ← updateCoins node tx s.view nHeight (node.skipInvalidUTXOS nHeight)
  let saplingTree ← appendCommitments tx s.saplingTree
  .ok { s with view, saplingTree, vtxundo := if i > 0 then s.vtxundo ++ [txundo] else s.vtxundo }

def connectTxs (block : CBlock) (i : ℕ) (s : ConnectState) : List CTransaction → Except Failure ConnectState
  | [] => .ok s
  | tx :: vtx => do
    let s ← connectTx arith node nHeight tx block i s
    connectTxs block (i + 1) s vtx

end

structure CAddressIdentification where
  type : Int16
  key : Uint160
  owner : Uint160
  blockHeight : ℕ
  deriving DecidableEq

def identsKeys (block : CBlock) (nHeight : ℕ) : List CAddressIdentification :=
  (block.vReg.filter fun reg => reg.owner != 0 && reg.key != 0).map fun reg =>
    { type := reg.type, key := reg.key, owner := reg.owner, blockHeight := nHeight }

-- What a connected block leaves: the view, the undo data, the change of the money supply and the identified addresses.
structure Connected where
  view : CCoinsViewCache
  vtxundo : List CTxUndo := []
  supplyChange : ℤ := 0
  identsKeys : List CAddressIdentification := []

def isMintValid (arith : Arith) (node : Node) (nHeight : ℕ) (s : ConnectState) : Except Failure Bool := do
  let fAssetValidation := node.consensus.networkUpgradeActive nHeight .ACTIVATE_ASSET_VALIDATION
  let assetToMint ← if fAssetValidation then .ok 0 else arith.norm (-s.nAssetValue)
  let nMint ← arith.norm (s.nValueOut - s.nValueIn)
  let nMint ← arith.norm (nMint + s.nFees)
  let nMint ← arith.norm (nMint + assetToMint)
  let nExpectedMint ← arith.norm (node.params.getBlockValue nHeight + s.nFees)
  let nExpectedMint ← arith.norm (nExpectedMint + node.params.getMasternodePayment nHeight)
  let nExpectedMint ←
    if fAssetValidation then arith.norm (nExpectedMint + node.multiMiningManager.getSummaryAssetsToReward)
    else .ok nExpectedMint
  isBlockValueValid node arith nHeight nExpectedMint nMint

variable [Crypto] (arith : Arith) (node : Node) (block : CBlock) (pindex : CBlockIndex)

def recheckBlock (fJustCheck : Bool) : Except Failure CBlock :=
  match checkBlock node block (!fJustCheck) (!fJustCheck) (!fJustCheck) with
  | .error (.invalid _ _ _ true) =>
    .error (.error "Corrupt block found indicating potential hardware failure; shutting down")
  | r => r

def checkHeader : Except Failure Unit := do
  let isPoSActive := node.consensus.networkUpgradeActive pindex.nHeight .ACTIVATE_POS
  failIf (!isPoSActive && block.isProofOfStake) (dos 100 REJECT_INVALID "PoS-early")
  failIf (isPoSActive && block.isProofOfWork) (dos 100 REJECT_INVALID "PoW-ended")
  failIf (pindex.nChainSaplingValue.any (· < 0))
    (dos 100 REJECT_INVALID "turnstile-violation-sapling-shielded-pool")

def connectTransactions (view : CCoinsViewCache) : Except Failure ConnectState :=
  let (rt, view) := view.getBestAnchor
  match view.getSaplingAnchorAt rt with
  | (none, _) => .error (.assertion "view.GetSaplingAnchorAt(view.GetBestAnchor(), sapling_tree)")
  | (some saplingTree, view) => connectTxs arith node pindex.nHeight block 0 { view, saplingTree } block.vtx

def checkConnected (s : ConnectState) : Except Failure Unit := do
  failIf (node.consensus.networkUpgradeActive pindex.nHeight .ACTIVATE_HUSH &&
      block.hashFinalSaplingRoot != s.saplingTree.root)
    (dos 100 REJECT_INVALID "bad-sapling-root-in-block")
  let fMintValid ← isMintValid arith node pindex.nHeight s
  failIf (!fMintValid) (dos 100 REJECT_INVALID "bad-cb-amount")
  failIf (!node.isInitialBlockDownload && !isBlockPayeeValid node block pindex.nHeight)
    (dos 0 REJECT_INVALID "bad-cb-payee")
  failIf (s.vChecks.any fun check => check.run node ≠ .ok ())
    (dos 100 REJECT_INVALID "block-validation-failed")

def connectBlock (pprev : Option CBlockIndex) (view : CCoinsViewCache) (fJustCheck : Bool) :
    Except Failure Connected := do
  let _ ← recheckBlock node block fJustCheck
  let (hashBest, view) := view.getBestBlock
  failIf (pprev.elim 0 (·.phashBlock) ≠ hashBest) (.assertion "hashPrevBlock == view.GetBestBlock()")
  if block.getHash = node.consensus.hashGenesisBlock then
    .ok { view := if fJustCheck then view else view.setBestBlock pindex.phashBlock }
  else do
    checkHeader node block pindex
    let s ← connectTransactions arith node block pindex view
    let view := s.view.pushAnchor s.saplingTree
    checkConnected arith node block pindex s
    if fJustCheck then .ok { view }
    else do
      let supplyChange ← arith.norm (s.nValueOut - s.nValueIn)
      .ok {
        view := view.setBestBlock pindex.phashBlock
        vtxundo := s.vtxundo
        supplyChange := supplyChange
        identsKeys := if node.fAddressIndex then identsKeys block pindex.nHeight else []
      }

end Qrax
