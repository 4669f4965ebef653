import Qrax.Consensus.TxVerify
import Qrax.Script.Standard

open Fallible

namespace Qrax

def MAX_BLOCK_SIZE_LEGACY : ℕ := 1000000
def MAX_BLOCK_SHIELDED_TXES_SIZE : ℕ := 750000
def MAX_BLOCK_SIGOPS_CURRENT : ℕ := MAX_BLOCK_SIZE_CURRENT / 50
def MAX_BLOCK_SIGOPS_LEGACY : ℕ := MAX_BLOCK_SIZE_LEGACY / 50

-- The target, and whether it is negative or does not fit.
def setCompact (nCompact : UInt32) : Uint256 × Bool × Bool :=
  let nSize := (nCompact >>> 24).toNat
  let nWord := (nCompact &&& 0x007fffff).toNat
  let nWord := if nSize ≤ 3 then nWord >>> (8 * (3 - nSize)) else nWord
  let target : Uint256 := BitVec.ofNat 256 nWord <<< (8 * (nSize - 3))
  let fNegative := nWord ≠ 0 && (nCompact &&& 0x00800000) ≠ 0
  let fOverflow := nWord ≠ 0 && (nSize > 34 || nWord > 0xff && nSize > 33 || nWord > 0xffff && nSize > 32)
  (target, fNegative, fOverflow)

def checkProofOfWork (params : CChainParams) (hash : Uint256) (nBits : UInt32) : Bool :=
  let (bnTarget, fNegative, fOverflow) := setCompact nBits
  params.isRegTestNet ||
    !(fNegative || bnTarget == 0 || fOverflow || bnTarget > params.consensus.powLimit) && hash ≤ bnTarget

def skipPush (scriptSig : CScript) (start : ℕ) : ℕ :=
  start + 1 + (scriptSig.getD start 0).toNat

def blockSignatureKey (newP2CSRules : Bool) (tx : CTransaction) : Option Bytes :=
  let scriptSig := (tx.vin.headD { prevout := .null }).scriptSig
  match solver newP2CSRules (tx.vout.getD 1 {}).scriptPubKey with
  | none => none
  | some (.TX_PUBKEY, vSolutions) => some (vSolutions.headD [])
  | some (.TX_PUBKEYHASH, _) =>
    if scriptSig.length = 73 then none
    else some (scriptSig.drop (skipPush scriptSig 0 + 1))
  | some (.TX_ASSETSMINT, _) =>
    if scriptSig.length = 73 then none
    else some (scriptSig.drop 3)
  | some (.TX_COLDSTAKE, _) | some (.TX_DPOSASSETMINT, _) =>
    some (scriptSig.drop (skipPush scriptSig (skipPush scriptSig 0) + 1))
  | some _ => some []

variable (node : Node)

-- The one output of a coinstake that may leave the delegated script is the last, a payment of a masternode or of the
-- budget.
def checkColdStakeFreeOutput (tx : CTransaction) (nHeight : ℕ) : Except Failure Bool :=
  let outs := tx.vout.length
  let lastOut := tx.vout.getD (outs - 1) {}
  if !tx.hasP2CSOutputs node.newP2CSRules then .ok true
  else if outs ≥ 3 && lastOut.scriptPubKey != (tx.vout.getD (outs - 2) {}).scriptPubKey then
    if lastOut.nValue.toInt = node.params.getMasternodePayment nHeight then .ok true
    else if node.params.isRegTestNet then .ok false
    else if !node.isSynced then
      let prevout := (tx.vin.headD { prevout := .null }).prevout
      match node.getTransaction prevout.hash with
      | none => .ok false
      | some txPrev =>
        match txPrev.vout[prevout.n.toNat]? with
        | none     => .error (.assertion "txPrev->vout[tx.vin[0].prevout.n]")
        | some out =>
          let amtIn := out.nValue + Int64.ofInt (node.params.getBlockValue nHeight)
          let amtOut := (((tx.vout.take (outs - 1)).drop 1).map (·.nValue)).foldl (· + ·) 0
          .ok (amtOut == amtIn)
    else .ok (node.budgetman.isBudgetPaymentBlock nHeight && node.isSporkActive .SPORK_13_ENABLE_SUPERBLOCKS)
  else .ok true

def getTotalShieldedTxSize (block : CBlock) : ℕ :=
  ((block.vtx.filter (·.isShieldedTx)).map (·.getTotalSize)).sum

variable (block : CBlock)

def checkBlockSize : Except Failure Unit := do
  let nBlockSize := block.serialize.length
  failIf (block.vtx.isEmpty || block.vtx.length > MAX_BLOCK_SIZE_CURRENT || nBlockSize > MAX_BLOCK_SIZE_CURRENT)
    (dos 100 REJECT_INVALID "bad-blk-length")
  failIf (nBlockSize > MAX_BLOCK_SHIELDED_TXES_SIZE &&
      getTotalShieldedTxSize block > MAX_BLOCK_SHIELDED_TXES_SIZE)
    (dos 100 REJECT_INVALID "bad-blk-shielded-size")

def checkCoinBase : Except Failure Unit := do
  failIf (!(block.vtx.headD {}).isCoinBase) (dos 100 REJECT_INVALID "bad-cb-missing")
  failIf (block.vtx.tail.any fun tx => tx.isCoinBase && !tx.containsAssets)
    (dos 100 REJECT_INVALID "bad-cb-multiple")

def checkCoinStake : Except Failure Unit := do
  let vout := (block.vtx.headD {}).vout
  failIf (vout.length ≠ 1 || !(vout.headD {}).isEmpty) (dos 100 REJECT_INVALID "bad-cb-pos")
  failIf (!(block.vtx.getD 1 {}).isCoinStake) (dos 100 REJECT_INVALID "bad-cs-missing")
  failIf ((block.vtx.drop 2).any (·.isCoinStake)) (dos 100 REJECT_INVALID "bad-cs-multiple")

def blockHeight (tip : CBlockIndex) : ℕ :=
  if tip.phashBlock = block.hashPrevBlock then tip.nHeight + 1
  else (node.mapBlockIndex block.hashPrevBlock).elim 0 (·.nHeight + 1)

def checkColdStaking : Except Failure Bool :=
  match node.tip with
  | none => .ok true
  | some tip =>
    let nHeight := blockHeight node block tip
    if nHeight > 0 && !node.isInitialBlockDownload then do
      let fFreeOutput ←
        if block.isProofOfStake then checkColdStakeFreeOutput node (block.vtx.getD 1 {}) nHeight
        else .ok true
      failIf (!fFreeOutput) (dos 0 REJECT_INVALID "bad-p2cs-outs")
      .ok (!node.isSporkActive .SPORK_19_COLDSTAKING_MAINTENANCE)
    else .ok true

variable [Crypto]

def checkBlockSignature : Bool :=
  if block.isProofOfWork then block.vchBlockSig.isEmpty
  else if block.vchBlockSig.isEmpty then false
  else
    match blockSignatureKey node.newP2CSRules (block.vtx.getD 1 {}) with
    | none => false
    | some pubkey => CPubKey.isValid pubkey && Crypto.verify pubkey block.getHash block.vchBlockSig

def checkMerkleRoot : Except Failure Unit := do
  let (hashMerkleRoot2, mutated) := block.blockMerkleRoot
  failIf (block.hashMerkleRoot ≠ hashMerkleRoot2) (.invalid 100 REJECT_INVALID "bad-txnmrklroot" true)
  failIf mutated (.invalid 100 REJECT_INVALID "bad-txns-duplicate" true)

def checkBlock (fCheckPOW fCheckMerkleRoot fCheckSig : Bool) : Except Failure CBlock :=
  if block.fChecked then .ok block
  else do
    failIf (!block.isProofOfStake && fCheckPOW && !checkProofOfWork node.params block.getHash block.nBits)
      (dos 50 REJECT_INVALID "high-hash")
    onlyIf fCheckMerkleRoot (checkMerkleRoot block)
    failIf (node.consensus.networkUpgradeActive node.nextHeight .ACTIVATE_ASSET_VALIDATION &&
        block.assetRootHash != node.multiMiningManager.getCurrentAssetHash)
      (.invalid 100 REJECT_INVALID "bad-asset-hash-tree" true)
    checkBlockSize block
    checkCoinBase block
    onlyIf block.isProofOfStake (checkCoinStake block)
    let fColdStakingActive ← checkColdStaking node block
    let fSaplingActive := node.consensus.networkUpgradeActive node.nextHeight .ACTIVATE_HUSH
    block.vtx.forM fun tx =>
      (checkTransaction node tx fColdStakingActive fSaplingActive).mapError Failure.rewrapped
    failIf ((block.vtx.map getLegacySigOpCount).sum > MAX_BLOCK_SIGOPS_LEGACY)
      (.invalid 100 REJECT_INVALID "bad-blk-sigops" true)
    failIf (fCheckSig && !checkBlockSignature node block)
      (.invalid 100 REJECT_INVALID "bad-PoS-sig" true)
    .ok { block with fChecked := fCheckPOW && fCheckMerkleRoot && fCheckSig }

end Qrax
