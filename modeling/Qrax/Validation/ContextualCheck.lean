import Qrax.Validation.CheckBlock

open Fallible

namespace Qrax

-- `adjustedTime` is `GetAdjustedTime()`, in place of a block time of 0.
def isFinalTx (adjustedTime : ℤ) (tx : CTransaction) (nBlockHeight : ℕ) (nBlockTime : ℤ) : Bool :=
  let nBlockTime := if nBlockTime = 0 then adjustedTime else nBlockTime
  let nLockTime : ℤ := tx.nLockTime.toNat
  tx.nLockTime == 0 ||
    nLockTime < (if nLockTime < LOCKTIME_THRESHOLD then (nBlockHeight : ℤ) else nBlockTime) ||
    tx.vin.all CTxIn.isFinal

-- The checks of proofs and signatures by `librustzcash`.
class Librustzcash where
  saplingCheckSpend : SpendDescription → (sighash : Uint256) → Bool
  saplingCheckOutput : OutputDescription → Bool
  saplingFinalCheck : SaplingTxData → (sighash : Uint256) → Bool

@[reducible]
def Librustzcash.toy : Librustzcash where
  saplingCheckSpend _ _ := true
  saplingCheckOutput _ := true
  saplingFinalCheck _ _ := true

namespace SaplingValidation

variable [Crypto] [Librustzcash]

def contextualCheckTransaction (node : Node) (tx : CTransaction) (nHeight : ℕ) (isMined : Bool) : Except Failure Unit :=
  let dosLevelConstricting := if isMined then 100 else 10
  let dosLevelPotentiallyRelaxing := if isMined then 100 else if node.isInitialBlockDownload then 0 else 10
  if !node.consensus.networkUpgradeActive nHeight .ACTIVATE_HUSH then .ok ()
  else do
    failIf (!tx.isSaplingVersion && tx.hasSaplingData)
      (dos dosLevelConstricting REJECT_INVALID "bad-tx-sapling-version-too-low")
    failIf ((tx.isCoinBase || tx.isCoinStake) && tx.hasSaplingData)
      (dos dosLevelPotentiallyRelaxing REJECT_INVALID "bad-cs-has-shielded-data")
    onlyIf tx.hasSaplingData <|
      match signatureHash [] tx NOT_AN_INPUT SIGHASH_ALL 0 .SIGVERSION_SAPLING with
      | .error _ => .error (dos 100 REJECT_INVALID "error-computing-signature-hash")
      | .ok dataToBeSigned => do
        let sapData := tx.sapData.getD {}
        failIf (sapData.vShieldedSpend.any (!Librustzcash.saplingCheckSpend · dataToBeSigned))
          (dos dosLevelPotentiallyRelaxing REJECT_INVALID "bad-txns-sapling-spend-description-invalid")
        failIf (sapData.vShieldedOutput.any (!Librustzcash.saplingCheckOutput ·))
          (dos 100 REJECT_INVALID "bad-txns-sapling-output-description-invalid")
        failIf (!Librustzcash.saplingFinalCheck sapData dataToBeSigned)
          (dos dosLevelPotentiallyRelaxing REJECT_INVALID "bad-txns-sapling-binding-signature-invalid")

end SaplingValidation

-- `CScript() << n` for a number that is not negative.
def CScript.pushInt64 (n : ℕ) : CScript :=
  if 1 ≤ n ∧ n ≤ 16 then [UInt8.ofNat (n + (Opcodetype.OP_1.toByte.toNat - 1))]
  else if n = 0 then [Opcodetype.OP_0.toByte]
  else CScript.push (CScriptNum.serialize n)

variable [Crypto] [Librustzcash]

def contextualCheckBlock (node : Node) (adjustedTime : ℤ) (block : CBlock) (pindexPrev : Option CBlockIndex) :
    Except Failure Unit := do
  let nHeight := pindexPrev.elim 0 (·.nHeight + 1)
  block.vtx.forM fun tx => do
    SaplingValidation.contextualCheckTransaction node tx nHeight true
    failIf (!isFinalTx adjustedTime tx nHeight block.nTime.toNat) (dos 10 REJECT_INVALID "bad-txns-nonfinal")
  onlyIf pindexPrev.isSome do
    let scriptSig := ((block.vtx.headD {}).vin.headD { prevout := .null }).scriptSig
    failIf (!(CScript.pushInt64 nHeight).isPrefixOf scriptSig) (dos 100 REJECT_INVALID "bad-cb-height")

end Qrax
