import Qrax.Primitives.Serialize

open Encoding

namespace Qrax

open Opcodetype

def SIGHASH_ALL : Int32 := 1
def SIGHASH_NONE : Int32 := 2
def SIGHASH_SINGLE : Int32 := 3
def SIGHASH_ANYONECANPAY : Int32 := 0x80

def NOT_AN_INPUT : ℕ := 2 ^ 32 - 1

def fAnyoneCanPay (nHashType : Int32) : Bool :=
  nHashType &&& SIGHASH_ANYONECANPAY != 0

def fHashSingle (nHashType : Int32) : Bool :=
  nHashType &&& 0x1f == SIGHASH_SINGLE

def fHashNone (nHashType : Int32) : Bool :=
  nHashType &&& 0x1f == SIGHASH_NONE

namespace CTransactionSignatureSerializer

-- The script between the code separators. Where a truncated instruction leaves `pc` decides how much of the last part
-- is written.
def scriptParts (itBegin : Bytes) : Code → Bytes
  | .done => itBegin
  | .truncated pc => itBegin.take (itBegin.length - pc.length)
  | .instr opcode _ pc next =>
    if opcode = OP_CODESEPARATOR then
      itBegin.take (itBegin.length - pc.length - 1) ++ scriptParts pc next
    else scriptParts itBegin next

def codeSeparators : Code → ℕ
  | .done | .truncated _ => 0
  | .instr opcode _ _ next =>
    (if opcode = OP_CODESEPARATOR then 1 else 0) + codeSeparators next

def serializeScriptCode (scriptCode : CScript) : Bytes :=
  let code := Code.decode scriptCode
  writeCompactSize (scriptCode.length - codeSeparators code) ++ scriptParts scriptCode code

variable (txTo : CTransaction) (scriptCode : CScript) (nIn : ℕ) (nHashType : Int32)

def serializeInput (nInput : ℕ) (txin : CTxIn) : Bytes :=
  txin.prevout.serialize ++
    (if nInput ≠ nIn then serializeBytes [] else serializeScriptCode scriptCode) ++
    (if nInput ≠ nIn && (fHashSingle nHashType || fHashNone nHashType) then serializeInt32 0
    else serializeUInt32 txin.nSequence)

def serializeOutput (nOutput : ℕ) (txout : CTxOut) : Bytes :=
  if fHashSingle nHashType && nOutput ≠ nIn then CTxOut.serialize {} else txout.serialize

def inputs : List (ℕ × CTxIn) :=
  if fAnyoneCanPay nHashType then (txTo.vin[nIn]?).toList.map (nIn, ·)
  else txTo.vin.zipIdx.map fun (txin, i) => (i, txin)

def outputs : List (ℕ × CTxOut) :=
  let all := txTo.vout.zipIdx.map fun (txout, i) => (i, txout)
  if fHashNone nHashType then []
  else if fHashSingle nHashType then all.take (nIn + 1)
  else all

def serialize : Bytes :=
  serializeInt16 txTo.nVersion ++ serializeInt16 txTo.nType ++
    serializeVector (fun p => serializeInput scriptCode nIn nHashType p.1 p.2)
      (inputs txTo nIn nHashType) ++
    serializeVector (fun p => serializeOutput nIn nHashType p.1 p.2)
      (outputs txTo nIn nHashType) ++
    serializeUInt32 txTo.nLockTime

end CTransactionSignatureSerializer

def padPersonal (s : String) : Bytes :=
  let bytes := s.toList.map fun c => UInt8.ofNat c.toNat
  bytes ++ List.replicate (16 - bytes.length) 0

def QRAX_PREVOUTS_HASH_PERSONALIZATION : Bytes := padPersonal "PIVXPrevoutHash"
def QRAX_SEQUENCE_HASH_PERSONALIZATION : Bytes := padPersonal "PIVXSequencHash"
def QRAX_OUTPUTS_HASH_PERSONALIZATION : Bytes := padPersonal "PIVXOutputsHash"
def QRAX_SHIELDED_SPENDS_HASH_PERSONALIZATION : Bytes := padPersonal "PIVXSSpendsHash"
def QRAX_SHIELDED_OUTPUTS_HASH_PERSONALIZATION : Bytes := padPersonal "PIVXSOutputHash"

def sigHashPersonalization : Bytes := padPersonal "QRAXSigHash"

def SpendDescription.sigBytes (s : SpendDescription) : Bytes :=
  Uint256.bytes s.cv ++ Uint256.bytes s.anchor ++ Uint256.bytes s.nullifier ++
    Uint256.bytes s.rk ++ s.zkproof.toList

variable [Crypto]

def getPrevoutHash (txTo : CTransaction) : Uint256 :=
  Crypto.blake2b QRAX_PREVOUTS_HASH_PERSONALIZATION (txTo.vin.flatMap (·.prevout.serialize))

def getSequenceHash (txTo : CTransaction) : Uint256 :=
  Crypto.blake2b QRAX_SEQUENCE_HASH_PERSONALIZATION
    (txTo.vin.flatMap (serializeUInt32 ·.nSequence))

def getOutputsHash (txTo : CTransaction) : Uint256 :=
  Crypto.blake2b QRAX_OUTPUTS_HASH_PERSONALIZATION (txTo.vout.flatMap CTxOut.serialize)

def getShieldedSpendsHash (sapData : SaplingTxData) : Uint256 :=
  Crypto.blake2b QRAX_SHIELDED_SPENDS_HASH_PERSONALIZATION
    (sapData.vShieldedSpend.flatMap SpendDescription.sigBytes)

def getShieldedOutputsHash (sapData : SaplingTxData) : Uint256 :=
  Crypto.blake2b QRAX_SHIELDED_OUTPUTS_HASH_PERSONALIZATION
    (sapData.vShieldedOutput.flatMap OutputDescription.serialize)

variable (scriptCode : CScript) (txTo : CTransaction) (nIn : ℕ) (nHashType : Int32)
  (amount : CAmount)

def sigHashPrevouts : Uint256 :=
  if !fAnyoneCanPay nHashType then getPrevoutHash txTo else 0

def sigHashSequence : Uint256 :=
  if !fAnyoneCanPay nHashType && !fHashSingle nHashType && !fHashNone nHashType then
    getSequenceHash txTo
  else 0

def sigHashOutputs : Uint256 :=
  if !fHashSingle nHashType && !fHashNone nHashType then getOutputsHash txTo
  else match txTo.vout[nIn]? with
    | some txout =>
      if fHashSingle nHashType then
        Crypto.blake2b QRAX_OUTPUTS_HASH_PERSONALIZATION txout.serialize
      else 0
    | none => 0

def sigBytesSapling : Bytes :=
  match txTo.sapData with
  | none => []
  | some d =>
    if d.vShieldedSpend.isEmpty && d.vShieldedOutput.isEmpty then []
    else
      Uint256.bytes (if d.vShieldedSpend.isEmpty then 0 else getShieldedSpendsHash d) ++
        Uint256.bytes (if d.vShieldedOutput.isEmpty then 0 else getShieldedOutputsHash d) ++
        serializeInt64 d.valueBalance

def sigBytesInput : Bytes :=
  if nIn = NOT_AN_INPUT then []
  else match txTo.vin[nIn]? with
    | none => []
    | some txin =>
      txin.prevout.serialize ++ serializeBytes scriptCode ++ serializeInt64 amount ++
        serializeUInt32 txin.nSequence

def sigBytesPayload : Bytes :=
  if txTo.isSpecialTx then serializeBytes (txTo.extraPayload.getD []) else []

def saplingSigMessage : Bytes :=
  serializeInt16 txTo.nVersion ++ serializeInt16 txTo.nType ++
    Uint256.bytes (sigHashPrevouts txTo nHashType) ++
    Uint256.bytes (sigHashSequence txTo nHashType) ++
    Uint256.bytes (sigHashOutputs txTo nIn nHashType) ++
    sigBytesSapling txTo ++ sigBytesInput scriptCode txTo nIn amount ++ sigBytesPayload txTo ++
    serializeUInt32 txTo.nLockTime ++ serializeInt32 nHashType

def legacySigMessage : Bytes :=
  CTransactionSignatureSerializer.serialize txTo scriptCode nIn nHashType ++
    serializeInt32 nHashType

-- The error is the `std::runtime_error` that is thrown.
def signatureHash (sigversion : SigVersion) : Except String Uint256 :=
  if nIn ≥ txTo.vin.length && nIn ≠ NOT_AN_INPUT then .ok 1
  else if txTo.isSaplingVersion && sigversion ≠ .SIGVERSION_SAPLING then
    .error "SignatureHash in Sapling tx with wrong sigversion 0"
  else match sigversion with
    | .SIGVERSION_SAPLING =>
      .ok (Crypto.blake2b sigHashPersonalization
        (saplingSigMessage scriptCode txTo nIn nHashType amount))
    | .SIGVERSION_BASE =>
      if fHashSingle nHashType && nIn ≥ txTo.vout.length then .ok 1
      else .ok (hash256 (legacySigMessage scriptCode txTo nIn nHashType))

end Qrax
