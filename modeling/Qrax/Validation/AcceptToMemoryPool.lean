import Qrax.Policy.Policy
import Qrax.Validation.CheckInputs

open Fallible

namespace Qrax

def MAX_TX_SIGOPS_CURRENT : ℕ := MAX_BLOCK_SIGOPS_CURRENT / 5

structure CTxMemPool extends PoolTransactions where
  mapNextTx : AList (fun _ : COutPoint => CTransaction) := ∅

-- What a node lets into its pool, and takes out again. `limitMempoolSize` and `trimToSize` only remove transactions.
structure PoolPolicy extends RelayPolicy where
  -- whether the ancestors and descendants in the pool stay within the limits
  calculateMemPoolAncestors : CTxMemPool → CTransaction → Bool := fun _ _ => true
  limitMempoolSize : CTxMemPool → CTxMemPool := id
  trimToSize : CTxMemPool → CTxMemPool := id
  limit_removes : ∀ {pool o}, o ∈ (limitMempoolSize pool).mapNextTx → o ∈ pool.mapNextTx := by intros; assumption
  trim_removes : ∀ {pool o}, o ∈ (trimToSize pool).mapNextTx → o ∈ pool.mapNextTx := by intros; assumption

namespace CTxMemPool

variable [Crypto]

def addUnchecked (pool : CTxMemPool) (tx : CTransaction) : CTxMemPool where
  mapTx := if tx.getHash ∈ pool.mapTx then pool.mapTx else pool.mapTx.insert tx.getHash tx
  mapNextTx := tx.vin.foldl (fun mapNextTx txin =>
    if txin.prevout ∈ mapNextTx then mapNextTx else mapNextTx.insert txin.prevout tx) pool.mapNextTx
  mapSaplingNullifiers :=
    if tx.isShieldedTx then
      (tx.sapData.elim [] (·.vShieldedSpend)).foldl (fun nullifiers sd => nullifiers.insert sd.nullifier tx)
        pool.mapSaplingNullifiers
    else pool.mapSaplingNullifiers

end CTxMemPool

variable [Crypto] [Librustzcash] (node : Node) (policy : PoolPolicy) (adjustedTime medianTimePast : ℤ)
  (pcoinsTip : CCoinsViewCache) (pool : CTxMemPool) (tx : CTransaction)

def viewMemPool : CCoinsViewCache where
  base := .memPool pool.toPoolTransactions pcoinsTip.view

def preChecks (chainHeight : ℕ) : Except Failure Unit := do
  failIf (node.isSporkActive .SPORK_20_SAPLING_MAINTENANCE && tx.isShieldedTx)
    (dos 10 REJECT_INVALID "bad-tx-sapling-maintenance")
  let fSaplingActive := node.consensus.networkUpgradeActive chainHeight .ACTIVATE_HUSH
  let fColdStakingActive := !node.isSporkActive .SPORK_19_COLDSTAKING_MAINTENANCE
  checkTransaction node tx fColdStakingActive fSaplingActive
  let nextBlockHeight := chainHeight + 1
  SaplingValidation.contextualCheckTransaction node tx nextBlockHeight false
  failIf tx.isCoinBase (dos 100 REJECT_INVALID "coinbase")
  failIf tx.isCoinStake (dos 100 REJECT_INVALID "coinstake")
  -- `CheckFinalTx` with `LOCKTIME_MEDIAN_TIME_PAST`
  failIf (!isFinalTx adjustedTime tx nextBlockHeight medianTimePast) (dos 0 REJECT_NONSTANDARD "non-final")
  (isStandardTx node.newP2CSRules policy.toRelayPolicy node adjustedTime tx nextBlockHeight).mapError
    (dos 0 REJECT_NONSTANDARD)
  failIf (tx.getHash ∈ pool.mapTx) (dos 0 REJECT_ALREADY_KNOWN "txn-already-in-mempool")
  failIf (tx.vin.any (·.prevout ∈ pool.mapNextTx)) (dos 0 REJECT_CONFLICT "txn-mempool-conflict")
  failIf (tx.isShieldedTx &&
      (tx.sapData.elim [] (·.vShieldedSpend)).any (·.nullifier ∈ pool.mapSaplingNullifiers))
    (dos 0 REJECT_INVALID "bad-txns-nullifier-double-spent")

def haveOutput (view : CCoinsViewCache) : List ℕ → Bool × CCoinsViewCache
  | [] => (false, view)
  | out :: outs =>
    match view.haveCoin { hash := tx.getHash, n := UInt32.ofNat out } with
    | (true, view) => (true, view)
    | (false, view) => haveOutput view outs

def fetchInputs : Except Failure (ℤ × CCoinsViewCache) := do
  let view := viewMemPool pcoinsTip pool
  let (known, view) := haveOutput tx view (List.range tx.vout.length)
  failIf known (dos 0 REJECT_ALREADY_KNOWN "txn-already-known")
  let (found, view) := view.haveCoins (tx.vin.map (·.prevout))
  -- `pfMissingInputs`
  failIf (!found) .refused
  let (met, view) := view.haveShieldedRequirements tx
  failIf (!met) (dos 0 REJECT_DUPLICATE "bad-txns-shielded-requirements-not-met")
  let (_, view) := view.getBestBlock
  let (nValueIn, view) ← view.getValueIn .int64 tx
  .ok (nValueIn, { view with base := .db {} })

-- Priority, entry and address index of the pool do not affect acceptance.
def acceptToMemoryPool (fOverrideMempoolLimit : Bool) : Except Failure CTxMemPool := do
  match node.tip with
  | none     => .error (.assertion "nHeight >= 0")
  | some tip =>
    preChecks node policy adjustedTime medianTimePast pool tx tip.nHeight
    let (nValueIn, view) ← fetchInputs pcoinsTip pool tx
    failIf (!node.params.isRegTestNet && !areInputsStandard node.newP2CSRules view tx)
      (dos 0 REJECT_NONSTANDARD "bad-txns-nonstandard-inputs")
    let (nP2SHSigOps, view) := getP2SHSigOpCount tx view
    failIf (getLegacySigOpCount tx + nP2SHSigOps > MAX_TX_SIGOPS_CURRENT)
      (dos 0 REJECT_NONSTANDARD "bad-txns-too-many-sigops")
    let nValueOut ← tx.getValueOut .int64
    let nFees ← Arith.int64.norm (nValueIn - nValueOut)
    failIf (!node.params.isRegTestNet && nFees = 0 && !tx.containsAssets) .refused
    failIf (!policy.calculateMemPoolAncestors pool tx) (dos 0 REJECT_NONSTANDARD "too-long-mempool-chain")
    let (_, view) ← checkInputs node .int64 tx view true
      (STANDARD_SCRIPT_VERIFY_FLAGS ||| SCRIPT_VERIFY_CHECKLOCKTIMEVERIFY) false
    let (_, _) ← checkInputs node .int64 tx view true
      (MANDATORY_SCRIPT_VERIFY_FLAGS ||| SCRIPT_VERIFY_CHECKLOCKTIMEVERIFY) false
    let pool := pool.addUnchecked tx
    let pool := if fOverrideMempoolLimit then pool else policy.limitMempoolSize pool
    failIf (!fOverrideMempoolLimit && tx.getHash ∉ pool.mapTx) (dos 0 REJECT_INSUFFICIENTFEE "mempool full")
    let pool := policy.trimToSize pool
    failIf (tx.getHash ∉ pool.mapTx) (dos 0 REJECT_INSUFFICIENTFEE "mempool full")
    .ok pool

end Qrax
