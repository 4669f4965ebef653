import Qrax.Masternode.MessageSigner

namespace Qrax

structure CSporkDef where
  sporkId : Int32
  defaultValue : Int64
  name : String

def sporkDefs : List CSporkDef := [
  ⟨10004, 1000, "SPORK_5_MAX_VALUE"⟩,
  ⟨10007, 4070908800, "SPORK_8_MASTERNODE_PAYMENT_ENFORCEMENT"⟩,
  ⟨10008, 4070908800, "SPORK_9_MASTERNODE_BUDGET_ENFORCEMENT"⟩,
  ⟨10012, 4070908800, "SPORK_13_ENABLE_SUPERBLOCKS"⟩,
  ⟨10013, 4070908800, "SPORK_14_NEW_PROTOCOL_ENFORCEMENT"⟩,
  ⟨10014, 4070908800, "SPORK_15_NEW_PROTOCOL_ENFORCEMENT"⟩,
  ⟨10019, 4070908800, "SPORK_19_COLDSTAKING_MAINTENANCE"⟩,
  ⟨10020, 4070908800, "SPORK_20_SAPLING_MAINTENANCE"⟩]

def getSporkNameByID (nSporkID : Int32) : String :=
  match sporkDefs.find? (·.sporkId = nSporkID) with
  | none => "Unknown"
  | some sporkDef => sporkDef.name

structure CSporkMessage extends CSignedMessage where
  nSporkID : Int32
  nValue : Int64
  nTimeSigned : Int64
  deriving DecidableEq

structure CSporkManager where
  mapSporksActive : AList fun _ : Int32 => CSporkMessage := ∅

def CSporkManager.getSporkValue (man : CSporkManager) (nSporkID : Int32) : Int64 :=
  match man.mapSporksActive.lookup nSporkID, sporkDefs.find? (·.sporkId = nSporkID) with
  | some spork, _ => spork.nValue
  | none, some sporkDef => sporkDef.defaultValue
  | none, none => -1

variable [CompactCrypto]

namespace CSporkMessage

def getSignatureHash (spork : CSporkMessage) : Uint256 :=
  hash256 (serializeInt32 spork.nMessVersion ++ serializeInt32 spork.nSporkID ++ serializeInt64 spork.nValue ++
    serializeInt64 spork.nTimeSigned)

def getStrMessage (spork : CSporkMessage) : String :=
  toString spork.nSporkID ++ toString spork.nValue ++ toString spork.nTimeSigned

def checkSignature (spork : CSporkMessage) (keyID : CKeyID) : Bool :=
  spork.toCSignedMessage.checkSignature spork.getSignatureHash spork.getStrMessage keyID

end CSporkMessage

-- The manager and the ban score. `sporkPubKey` is the key of the chain parameters.
def CSporkManager.processSporkMsg (sporkPubKey : Bytes) (getAdjustedTime : ℤ) (man : CSporkManager)
    (spork : CSporkMessage) : CSporkManager × ℤ :=
  if getSporkNameByID spork.nSporkID = "Unknown" then (man, 0)
  else if spork.nTimeSigned.toInt > getAdjustedTime + 2 * 60 * 60 then (man, 100)
  else if spork.nMessVersion ≠ MESS_VER_HASH then (man, 0)
  else if (man.mapSporksActive.lookup spork.nSporkID).any (·.nTimeSigned ≥ spork.nTimeSigned) then (man, 0)
  else if !spork.checkSignature (CPubKey.getID sporkPubKey) then (man, 100)
  else ({ man with mapSporksActive := man.mapSporksActive.insert spork.nSporkID spork }, 0)

end Qrax
