import Qrax.Validation.ContextualCheck

open Encoding Fallible

namespace Qrax

open Txnouttype

def MAX_P2SH_SIGOPS : ℕ := 15
def MAX_STANDARD_SCRIPTSIG_SIZE : ℕ := 1650

def genesisPubKey : Bytes :=
  (leBytes 33 0x04c10e83b2703ccf322f7dbd62dd5855ac7c10bd055814ce121ba32607d573b881).reverse ++
    (leBytes 32 0x0c02c0582aed05b4deb9c4b77b26d92428c61256cd42774babea0a073b2ed0c9).reverse

structure RelayPolicy where
  datacarrier : Bool := true
  nMaxDatacarrierBytes : ℕ := 83
  fIsBareMultisigStd : Bool := true

section

variable (newP2CSRules : Bool) (policy : RelayPolicy)

def isStandard (scriptPubKey : CScript) : Option Txnouttype :=
  match solver newP2CSRules scriptPubKey with
  | none => none
  | some (TX_MULTISIG, vSolutions) =>
    let m := (vSolutions.headD []).headD 0
    let n := (vSolutions.getLastD []).headD 0
    if n < 1 || n > 3 || m < 1 || m > n then none else some TX_MULTISIG
  | some (TX_NULL_DATA, _) =>
    if !policy.datacarrier || scriptPubKey.length > policy.nMaxDatacarrierBytes then none else some TX_NULL_DATA
  | some (whichType, _) => if whichType = TX_NONSTANDARD then none else some whichType

def isDust (txout : CTxOut) : Bool :=
  txout.nValue < COIN / 1000

variable [Crypto]

def isBurnAmount (scriptPubKey : CScript) : Bool :=
  let curhash : Bytes :=
    if scriptPubKey.isPayToScriptHash then (scriptPubKey.drop 2).take 20
    else if scriptPubKey.isPayToPublicKeyHash then (scriptPubKey.drop 3).take 20
    else if scriptPubKey.isPayToPublicKey then Uint160.bytes (hash160 scriptPubKey.tail.dropLast)
    else Uint160.bytes 0
  curhash == Uint160.bytes (hash160 genesisPubKey)

-- Adds the outputs with data. The failure holds `reason`.
def isStandardTxOut (nDataOut : ℕ) (txout : CTxOut) : Except String ℕ :=
  match isStandard newP2CSRules policy txout.scriptPubKey with
  | none => .error "scriptpubkey"
  | some TX_NULL_DATA => .ok (nDataOut + 1)
  | some whichType => do
    failIf (whichType = TX_MULTISIG && !policy.fIsBareMultisigStd) "bare-multisig"
    failIf (!isBurnAmount txout.scriptPubKey && isDust txout && !txout.isMultiMiningMint) "dust"
    .ok nDataOut

def isStandardTx (node : Node) (adjustedTime : ℤ) (tx : CTransaction) (nBlockHeight : ℕ) : Except String Unit := do
  failIf (!node.consensus.networkUpgradeActive nBlockHeight .ACTIVATE_HUSH && tx.nVersion ≠ 1) "version"
  failIf (!isFinalTx adjustedTime tx nBlockHeight 0) "non-final"
  failIf (tx.getTotalSize ≥ if tx.isShieldedTx then MAX_TX_SIZE_AFTER_SAPLING else MAX_STANDARD_TX_SIZE) "tx-size"
  tx.vin.forM fun txin =>
    onlyIf (!txin.isMultiMiningSpend) do
      failIf (txin.scriptSig.length > MAX_STANDARD_SCRIPTSIG_SIZE) "scriptsig-size"
      failIf (!txin.scriptSig.isPushOnly) "scriptsig-not-pushonly"
  let nDataOut ← tx.vout.foldlM (isStandardTxOut newP2CSRules policy) 0
  failIf (nDataOut > 1) "multi-op-return"

end

def SignatureChecker.base : SignatureChecker where
  checkSig _ _ _ _ := .ok false
  checkLockTime _ := false
  checkColdStake _ _ _ := .error .SCRIPT_ERR_CHECKCOLDSTAKEVERIFY

variable [Crypto] (newP2CSRules : Bool) (mapInputs : CCoinsViewCache) (sigversion : SigVersion)

-- An input with an unknown script behind its hash ends the loop.
def inputsStandard : List CTxIn → Bool
  | [] => true
  | txin :: vin =>
    match solver newP2CSRules (mapInputs.accessCoin txin.prevout).1.out.scriptPubKey with
    | none => false
    | some (whichType, vSolutions) =>
      let nArgsExpected := scriptSigArgsExpected whichType vSolutions
      if nArgsExpected < 0 then false
      else
        match evalScript 0 .base sigversion [] txin.scriptSig with
        | .error _ => false
        | .ok stack =>
          if whichType = TX_SCRIPTHASH then
            match stack with
            | [] => false
            | subscript :: _ =>
              match solver newP2CSRules subscript with
              | none => CScript.getSigOpCount true subscript ≤ MAX_P2SH_SIGOPS
              | some (whichType2, vSolutions2) =>
                let tmpExpected := scriptSigArgsExpected whichType2 vSolutions2
                if tmpExpected < 0 then false
                else stack.length = nArgsExpected + tmpExpected && inputsStandard vin
          else stack.length = nArgsExpected && inputsStandard vin

def areInputsStandard (tx : CTransaction) : Bool :=
  tx.isCoinBase || tx.containsAssets || inputsStandard newP2CSRules mapInputs tx.getRequiredSigVersion tx.vin

end Qrax
