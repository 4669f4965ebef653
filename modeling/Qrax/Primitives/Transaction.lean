import Qrax.Script.Script

open Encoding

namespace Qrax

inductive SigVersion
  | SIGVERSION_BASE
  | SIGVERSION_SAPLING
  deriving DecidableEq, Repr

structure COutPoint where
  hash : Uint256
  n : UInt32
  deriving DecidableEq

namespace COutPoint

def null : COutPoint where
  hash := 0
  n := 0xffffffff

def isNull (o : COutPoint) : Bool :=
  o.hash == 0 && o.n == 0xffffffff

end COutPoint

structure CTxIn where
  prevout : COutPoint
  scriptSig : CScript := []
  nSequence : UInt32 := 0xffffffff
  deriving DecidableEq

namespace CTxIn

def isFinal (txin : CTxIn) : Bool :=
  txin.nSequence == 0xffffffff

def isMultiMiningSpend (txin : CTxIn) : Bool :=
  txin.prevout.hash == 0 && txin.scriptSig.isMultiMiningSpend

end CTxIn

structure CTxOut where
  nValue : CAmount := -1
  scriptPubKey : CScript := []
  deriving DecidableEq

namespace CTxOut

def isNull (txout : CTxOut) : Bool :=
  txout.nValue == -1

def isEmpty (txout : CTxOut) : Bool :=
  txout.nValue == 0 && txout.scriptPubKey.isEmpty

def isMultiMiningMint (txout : CTxOut) : Bool :=
  txout.scriptPubKey.isPayAssetScriptHash

def isAssetDposMint (txout : CTxOut) : Bool :=
  txout.scriptPubKey.isPayAssetDposScript

end CTxOut

abbrev GrothProof := Vector UInt8 192

structure SpendDescription where
  cv : Uint256
  anchor : Uint256
  nullifier : Uint256
  rk : Uint256
  zkproof : GrothProof
  spendAuthSig : Vector UInt8 64
  deriving DecidableEq

structure OutputDescription where
  cv : Uint256
  cmu : Uint256
  ephemeralKey : Uint256
  encCiphertext : Vector UInt8 580
  outCiphertext : Vector UInt8 80
  zkproof : GrothProof
  deriving DecidableEq

structure SaplingTxData where
  valueBalance : CAmount := 0
  vShieldedSpend : List SpendDescription := []
  vShieldedOutput : List OutputDescription := []
  bindingSig : Vector UInt8 64 := Vector.replicate 64 0
  deriving DecidableEq

namespace SaplingTxData

def hasBindingSig (d : SaplingTxData) : Bool :=
  d.bindingSig.toList.any (· != 0)

end SaplingTxData

namespace CTransaction

inductive TxVersion
  | LEGACY
  | SAPLING
  | TOOHIGH
  deriving DecidableEq

def TxVersion.toInt16 : TxVersion → Int16
  | LEGACY => 1
  | SAPLING => 3
  | TOOHIGH => 4

def NORMAL : Int16 := 0

end CTransaction

structure CTransaction where
  nVersion : Int16 := CTransaction.TxVersion.LEGACY.toInt16
  nType : Int16 := CTransaction.NORMAL
  vin : List CTxIn := []
  vout : List CTxOut := []
  nLockTime : UInt32 := 0
  sapData : Option SaplingTxData := some {}
  extraPayload : Option Bytes := none
  walletSenderId : CKeyID := 0
  deriving DecidableEq

namespace CTransaction

def isNull (tx : CTransaction) : Bool :=
  tx.vin.isEmpty && tx.vout.isEmpty

def hasSaplingData (tx : CTransaction) : Bool :=
  match tx.sapData with
  | none => false
  | some d =>
    !d.vShieldedOutput.isEmpty || !d.vShieldedSpend.isEmpty || d.valueBalance != 0 ||
      d.hasBindingSig

def isSaplingVersion (tx : CTransaction) : Bool :=
  tx.nVersion ≥ TxVersion.SAPLING.toInt16

def isShieldedTx (tx : CTransaction) : Bool :=
  tx.isSaplingVersion && tx.hasSaplingData

def hasExtraPayload (tx : CTransaction) : Bool :=
  match tx.extraPayload with
  | none => false
  | some p => !p.isEmpty

def isNormalType (tx : CTransaction) : Bool :=
  tx.nType == NORMAL

def isSpecialTx (tx : CTransaction) : Bool :=
  tx.isSaplingVersion && !tx.isNormalType && tx.hasExtraPayload

def getRequiredSigVersion (tx : CTransaction) : SigVersion :=
  if tx.isSaplingVersion then .SIGVERSION_SAPLING else .SIGVERSION_BASE

def hasAssetsMintOutputs (tx : CTransaction) : Bool :=
  tx.vout.any CTxOut.isMultiMiningMint

def hasAssetsDposMintOutputs (tx : CTransaction) : Bool :=
  tx.vout.any CTxOut.isAssetDposMint

def hasAssetsSpendInputs (tx : CTransaction) : Bool :=
  tx.vin.any CTxIn.isMultiMiningSpend

def containsAssets (tx : CTransaction) : Bool :=
  tx.hasAssetsSpendInputs || tx.hasAssetsMintOutputs || tx.hasAssetsDposMintOutputs

def isCoinBase (tx : CTransaction) : Bool :=
  match tx.vin with
  | [txin] =>
    txin.prevout.isNull && !tx.hasAssetsMintOutputs && !tx.hasAssetsSpendInputs &&
      !tx.hasAssetsDposMintOutputs
  | _ => false

def isCoinStake (tx : CTransaction) : Bool :=
  match tx.vin, tx.vout with
  | txin :: _, txout :: _ :: _ =>
    (!txin.prevout.isNull || txin.isMultiMiningSpend) && txout.isEmpty
  | _, _ => false

def hasP2CSOutputs (newP2CSRules : Bool) (tx : CTransaction) : Bool :=
  tx.vout.any (·.scriptPubKey.isPayToColdStaking newP2CSRules)

theorem not_containsAssets_of_isCoinBase {tx : CTransaction} (h : tx.isCoinBase) :
    tx.containsAssets = false := by
  unfold isCoinBase at h
  split at h
  · simp_all [containsAssets]
  · contradiction

end CTransaction

end Qrax
