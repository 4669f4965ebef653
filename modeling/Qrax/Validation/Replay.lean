import Qrax.Chain.Chain
import Qrax.Validation.DisconnectBlock

open Fallible

namespace Qrax

section

variable [Crypto] (node : Node) (nHeight : ℕ)

def rollforwardTx (inputs : CCoinsViewCache) (tx : CTransaction) : Except Failure CCoinsViewCache :=
  let inputs :=
    if !tx.isCoinBase then tx.vin.foldl (fun inputs txin => (inputs.spendCoin txin.prevout).2) inputs else inputs
  -- Every addition may be an overwrite.
  addCoins node.containsOutPoint inputs tx nHeight true (node.skipInvalidUTXOS nHeight)

def rollforwardBlock (block : CBlock) (inputs : CCoinsViewCache) : Except Failure CCoinsViewCache :=
  block.vtx.foldlM (rollforwardTx node nHeight) inputs

end

-- The coins database with `DB_HEAD_BLOCKS`, which is there while a batch is written.
structure CoinsDatabase where
  view : CCoinsView
  getHeadBlocks : List Uint256 := []

structure BlockFiles where
  index : Uint256 → CBlockIndex
  readBlockFromDisk : Uint256 → Option CBlock
  undoReadFromDisk : Uint256 → Option (List CTxUndo)

-- The database when the node stops after `n` entries of a batch: the first part replaces the best block by the heads,
-- the Sapling data come last.
def CCoinsViewDB.interrupted (d : CCoinsViewDB) (child : CoinsCache) (n : ℕ) : CCoinsViewDB where
  __ := d
  coins := (child.cacheCoins.entries.take n).foldl (fun coins e => writeCoin coins e.1 e.2) d.coins
  bestBlock := none

section

variable [Crypto]

-- `CCoinsViewDB::BatchWrite` with its checks of the heads. Its last batch erases the heads.
def CoinsDatabase.batchWrite (database : CoinsDatabase) (child : CoinsCache) : Except Failure CoinsDatabase := do
  failIf (child.hashBlock = 0) (.assertion "!hashBlock.IsNull()")
  let (old_tip, view) := database.view.getBestBlock
  let old_heads := database.getHeadBlocks
  failIf (old_tip = 0 ∧ old_heads.length = 2 ∧ old_heads.headD 0 ≠ child.hashBlock)
    (.assertion "old_heads[0] == hashBlock")
  let view ← view.batchWrite child
  .ok { view, getHeadBlocks := [] }

end

variable [Crypto] (arith : Arith) (node : Node) (tree : BlockTree) (files : BlockFiles)

def rollbackBlock (pindexOld : Uint256) (cache : CCoinsViewCache) : Except Failure CCoinsViewCache :=
  match files.readBlockFromDisk pindexOld, tree.pprev pindexOld with
  | some block, some pprev => do
    let d ← disconnectBlock arith node block (files.index pprev) (files.undoReadFromDisk pindexOld) cache
    failIf (d.result = .DISCONNECT_FAILED) (.error "RollbackBlock(): DisconnectBlock failed")
    .ok d.view
  | _, _ => .error (.error "RollbackBlock(): ReadBlockFromDisk() failed")

def rollback (pindexFork : Option Uint256) :
    ℕ → Option Uint256 → CCoinsViewCache → Except Failure CCoinsViewCache
  | n + 1, some pindexOld, cache =>
    if some pindexOld ≠ pindexFork then do
      let cache ← if tree.nHeight pindexOld > 0 then rollbackBlock arith node tree files pindexOld cache else .ok cache
      rollback pindexFork n (tree.pprev pindexOld) cache
    else .ok cache
  | _, _, cache => .ok cache

def rollforwardAt (pindexNew : Uint256) (cache : CCoinsViewCache) (nHeight : ℕ) : Except Failure CCoinsViewCache :=
  match (tree.getAncestor pindexNew nHeight).bind files.readBlockFromDisk with
  | some block => rollforwardBlock node nHeight block cache
  | none => .error (.error "ReplayBlock(): ReadBlockFromDisk failed")

def replayBlocks (database : CoinsDatabase) : Except Failure CoinsDatabase :=
  let cache : CCoinsViewCache := { base := database.view }
  match database.getHeadBlocks with
  | [] => .ok database
  | [pindexNew, hashOld] => do
    failIf (pindexNew ∉ tree.mapBlockIndex) (.error "ReplayBlocks: reorganization to unknown block requested")
    -- The old tip is null when the first flush was interrupted.
    let (pindexOld, pindexFork) ←
      if hashOld = 0 then .ok (none, none)
      else do
        failIf (hashOld ∉ tree.mapBlockIndex) (.error "ReplayBlocks: reorganization from unknown block requested")
        let pindexFork ← tree.lastCommonAncestor hashOld pindexNew
        failIf (pindexFork = none) (.assertion "pindexFork != nullptr")
        .ok (some hashOld, pindexFork)
    let cache ← rollback arith node tree files pindexFork (tree.nHeight hashOld + 1) pindexOld cache
    let nForkHeight := pindexFork.elim 0 tree.nHeight
    let heights := List.range' (nForkHeight + 1) (tree.nHeight pindexNew - nForkHeight)
    let cache ← heights.foldlM (rollforwardAt node tree files pindexNew) cache
    let cache := cache.setBestBlock pindexNew
    { database with view := cache.base }.batchWrite cache.cache
  | _ => .error (.error "ReplayBlocks: unknown inconsistent state")

end Qrax
