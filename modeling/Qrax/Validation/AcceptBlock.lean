import Qrax.Validation.ContextualCheck
import Qrax.Validation.ReceiveBlock
import Qrax.Validation.Stake

open Fallible

namespace Qrax

-- The rules for headers, and `-maxreorg`. A required target has nonzero work. `matchesCheckpoint` is
-- `Checkpoints::CheckBlock` for an exact match.
structure HeaderRules where
  getNextWorkRequired : (pindexPrev : Uint256) → CBlockHeader → UInt32
  getBlockProof : (nBits : UInt32) → ℕ
  checkBlockTime : CBlockHeader → (pindexPrev : Uint256) → Except Failure Unit
  checkpointAllows : (nHeight : ℕ) → Uint256 → Bool
  matchesCheckpoint : (nHeight : ℕ) → Uint256 → Bool
  lastCheckpoint : Option ℕ
  nMaxReorgDepth : ℤ
  positive : ∀ nBits, 0 < getBlockProof nBits

variable (tree : BlockTree) (chainActive : CChain) (readBlockFromDisk : Uint256 → Option CBlock) (nMaxReorgDepth : ℤ)
  (stakeTx : CTransaction)

def spentBy (bl : CBlock) : Bool :=
  bl.vtx.any fun t => t.vin.any fun txin => stakeTx.vin.any fun stakeIn => stakeIn.prevout = txin.prevout

def checkSideBranch : ℕ → (prev : Uint256) → (bl : CBlock) → (readBlock : ℤ) → Except Failure Unit
  | n + 1, prev, bl, readBlock =>
    if chainActive.contains tree prev then .ok ()
    else do
      let readBlock := readBlock + 1
      failIf (readBlock = nMaxReorgDepth) .refused
      failIf (spentBy stakeTx bl) (dos 100 0 "")
      match tree.pprev prev with
      | none      => .error (.assertion "prev->pprev")
      | some prev =>
        match readBlockFromDisk prev with
        | none => .error .refused
        | some bl => checkSideBranch n prev bl readBlock
  | 0, _, _, _ => .ok ()

variable [Crypto]

section

variable (tree : BlockTree) (store : BlockStore) (chain : ActiveChain) (nMaxReorgDepth : ℤ) (stakeTx : CTransaction)

def checkStakeInputs (pindexPrev : Option Uint256) : Except Failure Unit := do
  let isBlockFromFork := pindexPrev ≠ none && chain.chainActive.tip ≠ pindexPrev
  onlyIf isBlockFromFork <|
    match pindexPrev with
    | none => .ok ()
    | some prev =>
      match store.readBlockFromDisk prev with
      | none => .error .refused
      | some bl =>
        checkSideBranch tree chain.chainActive store.readBlockFromDisk nMaxReorgDepth stakeTx (tree.nHeight prev + 2)
          prev bl 0
  stakeTx.vin.forM fun txin =>
    failIf ((chain.pcoinsTip.accessCoin txin.prevout).1.isSpent && !isBlockFromFork) .refused

end

variable [Librustzcash] (node : Node) (rules : HeaderRules) (adjustedTime : ℤ) (store : BlockStore)
  (chain : ActiveChain) (blocks : Blocks) (block : CBlock)

-- A failed parent that is a checkpoint is reconsidered first. The state after that is the one given here.
def getPrevIndex : Except Failure (Option Uint256) :=
  if block.getHash = node.consensus.hashGenesisBlock then .ok none
  else do
    let pindexPrev := block.hashPrevBlock
    failIf (pindexPrev ∉ blocks.index.mapBlockIndex) (dos 0 0 "prevblk-not-found")
    failIf ((blocks.state.nStatus pindexPrev).failed &&
        !rules.matchesCheckpoint (blocks.index.nHeight pindexPrev) pindexPrev)
      (dos 100 REJECT_INVALID "bad-prevblk")
    .ok (some pindexPrev)

def checkWork : Option Uint256 → Except Failure Unit
  | none => .error .refused
  | some pindexPrev => failIf (block.nBits ≠ rules.getNextWorkRequired pindexPrev block.toCBlockHeader) .refused

def contextualCheckBlockHeader (pindexPrev : Option Uint256) : Except Failure Unit :=
  if block.getHash = node.consensus.hashGenesisBlock then .ok ()
  else
    match pindexPrev with
    | none => .error (.assertion "pindexPrev")
    | some pindexPrev => do
      let nHeight := blocks.index.nHeight pindexPrev + 1
      let chainHeight : ℤ := blocks.state.chainActive.vChain.length - 1
      failIf (chainHeight - nHeight ≥ rules.nMaxReorgDepth) (dos 1 0 "")
      rules.checkBlockTime block.toCBlockHeader pindexPrev
      failIf (!rules.checkpointAllows nHeight block.getHash) (dos 100 REJECT_CHECKPOINT "checkpoint mismatch")
      failIf (rules.lastCheckpoint.any (nHeight < ·)) (dos 0 0 "")
      failIf (block.nVersion < 1 && nHeight ≥ 2 ||
          node.params.network == .TESTNET && block.nVersion < 2 &&
            node.consensus.networkUpgradeActive nHeight .ACTIVATE_NEW_COLDSTAKE ||
          block.nVersion < 5 && node.consensus.networkUpgradeActive nHeight .ACTIVATE_NEW_FEE_RULES)
        (dos 0 REJECT_OBSOLETE "bad-version")

def Blocks.markInvalid (pindex : Uint256) : Failure → Blocks
  | .invalid _ _ _ false => { blocks with state := blocks.state.markFailedValid pindex }
  | _ => blocks

def acceptBlockHeader (pindexPrev : Option Uint256) : Except Failure Blocks :=
  if block.getHash ∈ blocks.index.mapBlockIndex then do
    failIf (blocks.state.nStatus block.getHash).failed (dos 0 0 "duplicate")
    .ok blocks
  else do
    contextualCheckBlockHeader node rules blocks block pindexPrev
    .ok (blocks.addToBlockIndex
      { hash := block.getHash
        hashPrevBlock := block.hashPrevBlock
        proof := rules.getBlockProof block.nBits
        positive := rules.positive block.nBits })

def stakeFailure : Failure → Failure
  | .error _ => dos 100 0 ""
  | e => e

-- Returns the state, with the failure, or with whether the block was stored.
def acceptBlock : Except (Blocks × Failure) (Blocks × Bool) := do
  let chain := { chain with chainActive := blocks.state.chainActive }
  let pindexPrev ← (getPrevIndex node rules blocks block).mapError (blocks, ·)
  onlyIf (block.getHash ≠ node.consensus.hashGenesisBlock)
    ((checkWork rules block pindexPrev).mapError (blocks, ·))
  onlyIf block.isProofOfStake <|
    match pindexPrev with
    | none => .error (blocks, .assertion "pindexPrev")
    | some pindexPrev =>
      (checkProofOfStake blocks.index.toBlockTree store chain block pindexPrev).mapError (blocks, stakeFailure ·)
  let blocks ← (acceptBlockHeader node rules blocks block pindexPrev).mapError (blocks, ·)
  let pindex := block.getHash
  if blocks.index.haveData pindex then .ok (blocks, false)
  else do
    let pprev := (blocks.index.pprev pindex).map fun p =>
      ({ phashBlock := p, nHeight := blocks.index.nHeight p } : CBlockIndex)
    let _ ← (do
      let block ← checkBlock node block true true true
      contextualCheckBlock node adjustedTime block pprev).mapError fun e => (blocks.markInvalid pindex e, e)
    onlyIf block.isProofOfStake <|
      (checkStakeInputs blocks.index.toBlockTree store chain rules.nMaxReorgDepth (coinStakeTx block)
        pindexPrev).mapError (blocks, ·)
    .ok (blocks.receivedBlockTransactions block.vtx.length pindex, true)

end Qrax
