import Qrax.Chain.Chain
import Qrax.Validation.CheckBlock
import Qrax.Validation.CheckInputs

open Fallible

namespace Qrax

structure CDiskTxPos where
  block : Uint256
  nTx : ℕ
  deriving DecidableEq

variable [Crypto]

-- The blocks on disk, and the headers in the index. `ReadBlockFromDisk` returns no block with another hash.
structure BlockStore where
  readBlockFromDisk : Uint256 → Option CBlock
  nTime : Uint256 → UInt32
  getStakeModifierV2 : Uint256 → Uint256
  hash : ∀ {b block}, readBlockFromDisk b = some block → block.getHash = b

structure ActiveChain where
  chainActive : CChain
  pcoinsTip : CCoinsViewCache
  mempool : Uint256 → Option CTransaction
  fTxIndex : Bool
  readTxIndex : Uint256 → Option CDiskTxPos
  newP2CSRules : Bool

structure CNewStake where
  outputFrom : CTxOut
  outpointFrom : COutPoint
  pindexFrom : Uint256
  deriving DecidableEq

variable (tree : BlockTree) (store : BlockStore) (chain : ActiveChain)

def getTransaction (hash : Uint256) : Option (CTransaction × Uint256) :=
  match chain.mempool hash with
  | some tx => some (tx, 0)
  | none =>
    if chain.fTxIndex then do
      let postx ← chain.readTxIndex hash
      let block ← store.readBlockFromDisk postx.block
      let tx ← block.vtx[postx.nTx]?
      if tx.getHash ≠ hash then none else some (tx, block.getHash)
    else do
      -- The block is found through an unspent output.
      let coin := (accessByTxid chain.pcoinsTip hash).1
      let pindexSlow ← if !coin.isSpent then chain.chainActive.at' coin.nHeight else none
      let block ← store.readBlockFromDisk pindexSlow
      let tx ← block.vtx.find? (·.getHash = hash)
      some (tx, pindexSlow)

-- The output is taken without testing its number.
def newStake (txin : CTxIn) : Except Failure (Option CNewStake) :=
  match getTransaction store chain txin.prevout.hash with
  | none => .ok none
  | some (txPrev, hashBlock) =>
    if hashBlock ∈ tree.mapBlockIndex ∧ chain.chainActive.contains tree hashBlock then
      match txPrev.vout[txin.prevout.n.toNat]? with
      | none            => .error (.assertion "txPrev->vout[txin.prevout.n]")
      | some outputFrom => .ok (some { outputFrom, outpointFrom := txin.prevout, pindexFrom := hashBlock })
    else .ok none

def coinStakeTx (block : CBlock) : CTransaction :=
  block.vtx.getD 1 {}

def stakeTxIn (block : CBlock) : CTxIn :=
  (coinStakeTx block).vin.headD { prevout := .null }

-- `InitFromTxIn` and `ContextCheck` only ask that the stake's block is known.
def loadStakeInput (block : CBlock) (pindexPrev : Uint256) : Except Failure CNewStake := do
  failIf (block.hashPrevBlock ≠ pindexPrev) (.error "stake input initialization failed")
  failIf (!block.isProofOfStake) (.error "stake input initialization failed")
  match ← newStake tree store chain (stakeTxIn block) with
  | none => .error (.error "stake input initialization failed")
  | some stake => .ok stake

def CNewStake.getUniqueness (stake : CNewStake) : Bytes :=
  serializeUInt32 stake.outpointFrom.n ++ Uint256.bytes stake.outpointFrom.hash

-- `CStakeKernel::GetHash`
def kernelHash (pindexPrev : Uint256) (stake : CNewStake) (nTime : UInt32) : Uint256 :=
  hash256 (Uint256.bytes (store.getStakeModifierV2 pindexPrev) ++ serializeUInt32 (store.nTime stake.pindexFrom) ++
    stake.getUniqueness ++ serializeUInt32 nTime)

def checkKernelHash (pindexPrev : Uint256) (stake : CNewStake) (nBits nTime : UInt32) : Bool :=
  let stakeValue : Uint256 := BitVec.ofNat 256 stake.outputFrom.nValue.toUInt64.toNat
  let bnTarget := (setCompact nBits).1 * (stakeValue / 100)
  kernelHash store pindexPrev stake nTime < bnTarget

def verifyStakeScript (newP2CSRules : Bool) (block : CBlock) (out : CTxOut) : Except ScriptError Unit :=
  let tx := coinStakeTx block
  verifyScript STANDARD_SCRIPT_VERIFY_FLAGS (TransactionSignatureChecker.checker newP2CSRules tx 0 out.nValue)
    tx.getRequiredSigVersion (stakeTxIn block).scriptSig out.scriptPubKey

def checkProofOfStake (block : CBlock) (pindexPrev : Uint256) : Except Failure Unit := do
  let stake ← loadStakeInput tree store chain block pindexPrev
  failIf (!checkKernelHash store pindexPrev stake block.nBits block.nTime) (.error "kernel hash check fails")
  (verifyStakeScript chain.newP2CSRules block stake.outputFrom).mapError fun serror =>
    .error ("signature fails: " ++ scriptErrorString serror)

end Qrax
