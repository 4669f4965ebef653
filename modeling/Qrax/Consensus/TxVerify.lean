import Qrax.Coins.View
import Qrax.Validation.Node

open Fallible

namespace Qrax

def MAX_TX_SIZE_AFTER_SAPLING : ℕ := 400000
def MAX_STANDARD_TX_SIZE : ℕ := 150000
def MAX_SPECIALTX_EXTRAPAYLOAD : ℕ := 10000
def MIN_COLDSTAKING_AMOUNT : CAmount := 10000 * COIN

namespace CTransaction

variable (arith : Arith) (tx : CTransaction)

def addValueOut (nValueOut : ℤ) (txout : CTxOut) : Except Failure ℤ := do
  failIf (txout.nValue.toInt < 0)
    (.runtimeError "CTransaction::GetValueOut() : value out of range : less than 0")
  let sum ← arith.norm (nValueOut + txout.nValue.toInt)
  failIf (sum < nValueOut)
    (.runtimeError "CTransaction::GetValueOut() : value out of range : wraps the int64_t boundary")
  .ok sum

def getValueOut : Except Failure ℤ := do
  let nValueOut ← tx.vout.foldlM (addValueOut arith) 0
  let valueBalance := tx.sapData.elim 0 (·.valueBalance.toInt)
  if tx.hasSaplingData && valueBalance < 0 then
    let nValueOut ← arith.norm (nValueOut - valueBalance)
    failIf (!tx.isSaplingVersion) (.runtimeError "GetValueOut(): invalid tx version")
    .ok nValueOut
  else .ok nValueOut

def getMultiMiningSpend : Except Failure ℤ :=
  tx.vout.foldlM (fun nValueOut txout => arith.norm (nValueOut + txout.nValue.toInt)) 0

end CTransaction

def getLegacySigOpCount (tx : CTransaction) : ℕ :=
  (tx.vin.map (·.scriptSig.getSigOpCount false)).sum +
    (tx.vout.map (·.scriptPubKey.getSigOpCount false)).sum

def p2shSigOps (inputs : CCoinsViewCache) : List CTxIn → ℕ × CCoinsViewCache
  | [] => (0, inputs)
  | txin :: vin =>
    let (coin, inputs) := inputs.accessCoin txin.prevout
    let (nSigOps, inputs) := p2shSigOps inputs vin
    let scriptPubKey := coin.out.scriptPubKey
    if scriptPubKey.isPayToScriptHash then
      (scriptPubKey.getSigOpCountP2SH txin.scriptSig + nSigOps, inputs)
    else (nSigOps, inputs)

def getP2SHSigOpCount (tx : CTransaction) (inputs : CCoinsViewCache) : ℕ × CCoinsViewCache :=
  if tx.isCoinBase || tx.containsAssets then (0, inputs)
  else p2shSigOps inputs tx.vin

variable (node : Node) (tx : CTransaction)

namespace SaplingValidation

def checkTransactionWithoutProofVerification (d : SaplingTxData) : Except Failure ℤ := do
  let valueBalance := d.valueBalance.toInt
  let nMaxMoneyOut := node.consensus.nMaxMoneyOut.toInt
  failIf (d.vShieldedSpend.isEmpty && d.vShieldedOutput.isEmpty && valueBalance ≠ 0)
    (dos 100 REJECT_INVALID "bad-txns-valuebalance-nonzero")
  failIf (valueBalance > nMaxMoneyOut || valueBalance < -nMaxMoneyOut)
    (dos 100 REJECT_INVALID "bad-txns-valuebalance-toolarge")
  let nValueOut := if valueBalance < 0 then -valueBalance else 0
  failIf (valueBalance < 0 && !node.consensus.moneyRange nValueOut)
    (dos 100 REJECT_INVALID "bad-txns-txouttotal-toolarge")
  failIf (valueBalance > 0 && !node.consensus.moneyRange valueBalance)
    (dos 100 REJECT_INVALID "bad-txns-txintotal-toolarge")
  failIf (¬ (d.vShieldedSpend.map (·.nullifier)).Nodup)
    (dos 100 REJECT_INVALID "bad-spend-description-nullifiers-duplicate")
  .ok nValueOut

def checkTransaction (fIsSaplingActive : Bool) : Except Failure ℤ := do
  failIf (!tx.isSaplingVersion && tx.hasSaplingData)
    (dos 100 REJECT_INVALID "bad-txns-form-not-sapling")
  if !tx.hasSaplingData then .ok 0
  else
    failIf (tx.isCoinStake || tx.isCoinBase) (dos 100 REJECT_INVALID "bad-txns-invalid-sapling")
    failIf (!fIsSaplingActive) (dos 100 REJECT_INVALID "bad-txns-invalid-sapling-act")
    checkTransactionWithoutProofVerification node (tx.sapData.getD {})

end SaplingValidation

def checkSpecialTx (fIsSaplingActive : Bool) : Except Failure Unit :=
  if !fIsSaplingActive then failIf tx.hasExtraPayload .refused
  else do
    failIf (!tx.isSaplingVersion && !tx.isNormalType) (dos 100 REJECT_INVALID "bad-txns-type-version")
    if tx.isNormalType then
      failIf tx.hasExtraPayload (dos 100 REJECT_INVALID "bad-txns-type-payload")
    else
      failIf (!tx.hasExtraPayload) (dos 100 REJECT_INVALID "bad-txns-payload-empty")
      failIf ((tx.extraPayload.getD []).length > MAX_SPECIALTX_EXTRAPAYLOAD)
        (dos 100 REJECT_INVALID "bad-txns-payload-oversize")
      .error (dos 10 REJECT_INVALID "bad-tx-type")

-- `chainActive.Tip()` is dereferenced without a test.
def checkColdStakeOut (fColdStakingActive : Bool) (txout : CTxOut) : Except Failure Unit := do
  failIf (!fColdStakingActive) (dos 10 REJECT_INVALID "cold-stake-inactive")
  onlyIf (txout.nValue < MIN_COLDSTAKING_AMOUNT) <|
    match node.tip with
    | none     => .error (.assertion "chainActive.Tip()")
    | some tip => failIf (tip.nHeight > 21555) (dos 100 REJECT_INVALID "cold-stake-vout-toosmall")

def checkTxOut (fColdStakingActive : Bool) (nValueOut : ℤ) (txout : CTxOut) : Except Failure ℤ := do
  failIf (txout.isEmpty && !tx.isCoinBase && !tx.isCoinStake && !tx.containsAssets)
    (dos 100 REJECT_INVALID "bad-txns-vout-empty")
  failIf (txout.nValue.toInt < 0) (dos 100 REJECT_INVALID "bad-txns-vout-negative")
  failIf (txout.nValue.toInt > node.consensus.nMaxMoneyOut.toInt)
    (dos 100 REJECT_INVALID "bad-txns-vout-toolarge")
  let nValueOut := nValueOut + txout.nValue.toInt
  failIf (!node.consensus.moneyRange nValueOut) (dos 100 REJECT_INVALID "bad-txns-txouttotal-toolarge")
  onlyIf (txout.scriptPubKey.isPayToColdStaking node.newP2CSRules)
    (checkColdStakeOut node fColdStakingActive txout)
  .ok nValueOut

def checkTransaction (fColdStakingActive fSaplingActive : Bool) : Except Failure Unit := do
  failIf (tx.vin.isEmpty && tx.sapData.any (·.vShieldedSpend.isEmpty))
    (dos 10 REJECT_INVALID "bad-txns-vin-empty")
  failIf (tx.vout.isEmpty && tx.sapData.any (·.vShieldedOutput.isEmpty))
    (dos 10 REJECT_INVALID "bad-txns-vout-empty")
  failIf (fSaplingActive && (tx.nVersion < 1 || tx.nVersion ≥ CTransaction.TxVersion.TOOHIGH.toInt16))
    (dos 10 REJECT_INVALID "bad-tx-version-too-high")
  failIf (tx.getTotalSize > if tx.isShieldedTx then MAX_TX_SIZE_AFTER_SAPLING else MAX_STANDARD_TX_SIZE)
    (dos 10 REJECT_INVALID "bad-txns-oversize")
  let nValueOut ← SaplingValidation.checkTransaction node tx fSaplingActive
  checkSpecialTx tx fSaplingActive
  let _ ← tx.vout.foldlM (checkTxOut node tx fColdStakingActive) nValueOut
  failIf (¬ (tx.vin.map (·.prevout)).Nodup) (dos 100 REJECT_INVALID "bad-txns-inputs-duplicate")
  if tx.isCoinBase then
    let length := (tx.vin.headD { prevout := .null }).scriptSig.length
    failIf (length < 2 || length > 150) (dos 100 REJECT_INVALID "bad-cb-length")
  else
    failIf (tx.vin.any fun txin => txin.prevout.isNull && !txin.isMultiMiningSpend)
      (dos 10 REJECT_INVALID "bad-txns-prevout-null")

end Qrax
