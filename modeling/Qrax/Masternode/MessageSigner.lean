import Qrax.Primitives.Serialize

open Encoding

namespace Qrax

-- `CPubKey::RecoverCompact`: the key of a compact signature of a hash.
class CompactCrypto extends Crypto where
  recoverCompact : Uint256 → (vchSig : Bytes) → Option Bytes

@[reducible]
def CompactCrypto.toy : CompactCrypto where
  toCrypto := Crypto.toy
  recoverCompact hash vchSig := if vchSig.take 32 = hash.bytes then some (vchSig.drop 32) else none

def hexDigit (n : ℕ) : Char :=
  Char.ofNat (if n < 10 then 48 + n else 87 + n)

def hexStr (v : Bytes) : String :=
  String.ofList (v.flatMap fun b => [hexDigit (b.toNat / 16), hexDigit (b.toNat % 16)])

def Uint256.toStr (h : Uint256) : String :=
  hexStr h.bytes.reverse

def COutPoint.toStringShort (o : COutPoint) : String :=
  o.hash.toStr ++ "-" ++ toString o.n.toNat

def serializeString (s : String) : Bytes :=
  serializeBytes s.toUTF8.toList

def MESS_VER_STRMESS : Int32 := 0
def MESS_VER_HASH : Int32 := 1

def strMessageMagic : String :=
  "DarkNet Signed Message:\n"

structure CSignedMessage where
  vchSig : Bytes := []
  nMessVersion : Int32 := MESS_VER_HASH
  deriving DecidableEq

variable [CompactCrypto]

def CPubKey.getID (vch : Bytes) : CKeyID :=
  hash160 vch

def CMessageSigner.getMessageHash (strMessage : String) : Uint256 :=
  hash256 (serializeString strMessageMagic ++ serializeString strMessage)

def CHashSigner.verifyHash (hash : Uint256) (keyID : CKeyID) (vchSig : Bytes) : Bool :=
  match CompactCrypto.recoverCompact hash vchSig with
  | none => false
  | some pubkeyFromSig => CPubKey.getID pubkeyFromSig == keyID

def CSignedMessage.checkSignature (message : CSignedMessage) (signatureHash : Uint256) (strMessage : String)
    (keyID : CKeyID) : Bool :=
  if message.nMessVersion = MESS_VER_HASH then CHashSigner.verifyHash signatureHash keyID message.vchSig
  else CHashSigner.verifyHash (CMessageSigner.getMessageHash strMessage) keyID message.vchSig

end Qrax
