import Qrax.Validation.ConnectBlock

open Fallible

namespace Qrax

inductive DisconnectResult
  | DISCONNECT_OK
  | DISCONNECT_UNCLEAN
  | DISCONNECT_FAILED
  deriving DecidableEq, Repr

structure DisconnectState where
  view : CCoinsViewCache
  fClean : Bool := true
  nValueIn : ℤ := 0
  nValueOut : ℤ := 0

inductive Undone
  | failed
  | done (s : DisconnectState)

def Undone.andThen (k : DisconnectState → Except Failure Undone) : Undone → Except Failure Undone
  | .failed => .ok .failed
  | .done s => k s

def undoMetadata (undo : Coin) (view : CCoinsViewCache) (out : COutPoint) : Option Coin × CCoinsViewCache :=
  if undo.nHeight = 0 then
    let (alternate, view) := accessByTxid view out.hash
    if !alternate.isSpent then
      (some { undo with
        nHeight := alternate.nHeight, fCoinBase := alternate.fCoinBase, fCoinStake := alternate.fCoinStake }, view)
    else (none, view)
  else (some undo, view)

def applyTxInUndo (undo : Coin) (view : CCoinsViewCache) (out : COutPoint) :
    Except Failure (DisconnectResult × CCoinsViewCache) :=
  let (fHave, view) := view.haveCoin out
  match undoMetadata undo view out with
  | (none, view) => .ok (.DISCONNECT_FAILED, view)
  | (some undo, view) => do
    let view ← view.addCoin out undo fHave
    .ok (if fHave then .DISCONNECT_UNCLEAN else .DISCONNECT_OK, view)

variable (arith : Arith) (node : Node)

def countRestored (s : DisconnectState) (out : COutPoint) : Except Failure DisconnectState :=
  if node.fAddressIndex then do
    let (coin, view) := s.view.accessCoin out
    let nValueIn ← arith.norm (s.nValueIn + coin.out.nValue.toInt)
    .ok { s with view, nValueIn }
  else .ok s

def undoInputs (s : DisconnectState) : List (CTxIn × Coin) → Except Failure Undone
  | [] => .ok (.done s)
  | (txin, undo) :: rest => do
    let (res, view) ← applyTxInUndo undo s.view txin.prevout
    if res = .DISCONNECT_FAILED then .ok .failed
    else do
      let fClean := s.fClean && res != .DISCONNECT_UNCLEAN
      let s ← countRestored arith node { s with view, fClean } txin.prevout
      undoInputs s rest

def undoOutputs (txid : Uint256) (s : DisconnectState) (o : ℕ) : List CTxOut → DisconnectState
  | [] => s
  | out :: vout =>
    if out.scriptPubKey.isUnspendable then undoOutputs txid s (o + 1) vout
    else
      let (coin, view) := s.view.spendCoin { hash := txid, n := UInt32.ofNat o }
      let fClean := s.fClean && out == (coin.getD {}).out
      undoOutputs txid { s with view, fClean } (o + 1) vout

variable [Crypto]

def disconnectTx (tx : CTransaction) (txundo : CTxUndo) (s : DisconnectState) : Except Failure Undone := do
  let s := undoOutputs tx.getHash s 0 tx.vout
  let value ← tx.getValueOut arith
  let nValueOut ← arith.norm (s.nValueOut + value)
  let s := { s with nValueOut }
  if tx.isCoinBase || tx.containsAssets then .ok (.done s)
  else if txundo.vprevout.length ≠ tx.vin.length then .ok .failed
  else undoInputs arith node s (tx.vin.zip txundo.vprevout).reverse

def disconnectTxs (s : DisconnectState) : List (CTransaction × CTxUndo) → Except Failure Undone
  | [] => .ok (.done s)
  | (tx, txundo) :: rest =>
    disconnectTx arith node tx txundo s >>= Undone.andThen fun s => disconnectTxs s rest

-- What a disconnected block leaves. After a failure the view is not used.
structure Disconnected where
  result : DisconnectResult
  view : CCoinsViewCache
  supplyChange : ℤ := 0

-- `blockUndo` is what was read from disk. The coinbase has no undo data.
def disconnectBlock (block : CBlock) (pprev : CBlockIndex) (blockUndo : Option (List CTxUndo))
    (view : CCoinsViewCache) : Except Failure Disconnected :=
  match blockUndo with
  | none => .ok { result := .DISCONNECT_FAILED, view }
  | some vtxundo =>
    if vtxundo.length + 1 ≠ block.vtx.length then .ok { result := .DISCONNECT_FAILED, view }
    else do
      match ← disconnectTxs arith node { view } (block.vtx.zip ({} :: vtxundo)).reverse with
      | .failed => .ok { result := .DISCONNECT_FAILED, view }
      | .done s =>
        let supplyChange ← arith.norm (s.nValueIn - s.nValueOut)
        let rt :=
          if node.consensus.networkUpgradeActive pprev.nHeight .ACTIVATE_HUSH then pprev.hashFinalSaplingRoot
          else SaplingMerkleTree.emptyRoot
        let view ← s.view.popAnchor rt
        .ok {
          result := if s.fClean then .DISCONNECT_OK else .DISCONNECT_UNCLEAN
          view := view.setBestBlock pprev.phashBlock
          supplyChange := supplyChange
        }

end Qrax
