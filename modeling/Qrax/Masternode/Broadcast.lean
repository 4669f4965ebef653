import Qrax.Masternode.Masternode
import Qrax.Validation.Stake

open Encoding KeyedUpdate

namespace Qrax

def MN_COLL_AMT : CAmount := 50000 * COIN
def MNPING_DEPTH : ℤ := 12
def PROTOCOL_VERSION : ℤ := 70923
def MIN_PEER_CACHEDVERSION : ℤ := 70922
def MIN_PEER_MNANNOUNCE : ℤ := 70919
def MASTERNODE_SYNC_THRESHOLD : ℕ := 2

def masternodeBroadcastSeconds (p : CChainParams) : ℤ :=
  if p.isRegTestNet then 25 else 5 * 60

def masternodeCollateralMinConf (p : CChainParams) : ℕ :=
  if p.isRegTestNet then 1 else 15

def Uint160.toStr (h : Uint160) : String :=
  hexStr (leBytes 20 h.toNat).reverse

def COutPoint.toStr (o : COutPoint) : String :=
  "COutPoint(" ++ (o.hash.toStr.take 10).toString ++ ", " ++ toString o.n.toNat ++ ")"

def CTxIn.toStr (txin : CTxIn) : String :=
  let source :=
    if txin.prevout.isNull then
      if txin.isMultiMiningSpend then ", assets " ++ ((hexStr txin.scriptSig).take 25).toString ++ "..."
      else ", coinbase " ++ hexStr txin.scriptSig
    else ", scriptSig=" ++ ((hexStr txin.scriptSig).take 24).toString
  let sequence := if txin.nSequence = 0xffffffff then "" else ", nSequence=" ++ toString txin.nSequence.toNat
  "CTxIn(" ++ txin.prevout.toStr ++ source ++ sequence ++ ")"

structure CService where
  ip : Bytes
  port : UInt16
  toStr : String
  deriving DecidableEq

def CService.serialize (addr : CService) : Bytes :=
  addr.ip ++ (leBytes 2 addr.port.toNat).reverse

structure SignedPing extends CMasternodePing, CSignedMessage
  deriving DecidableEq

-- `CMasternodeBroadcast` becomes an entry of the list, with the address and the two signatures.
structure CMasternodeBroadcast extends CMasternode, CSignedMessage where
  addr : CService
  pingMessage : CSignedMessage := {}
  deriving DecidableEq

def CMasternodeBroadcast.ping (mnb : CMasternodeBroadcast) : SignedPing where
  toCMasternodePing := mnb.lastPing
  toCSignedMessage := mnb.pingMessage

inductive ActiveMasternodeStatus
  | ACTIVE_MASTERNODE_INITIAL
  | ACTIVE_MASTERNODE_SYNC_IN_PROCESS
  | ACTIVE_MASTERNODE_NOT_CAPABLE
  | ACTIVE_MASTERNODE_STARTED
  deriving DecidableEq, Repr

structure CActiveMasternode where
  vin : Option CTxIn := none
  service : Option CService := none
  pubKeyMasternode : Bytes := []
  status : ActiveMasternodeStatus := .ACTIVE_MASTERNODE_INITIAL

-- The list with what the handlers of masternode messages keep besides.
structure MasternodeLists where
  man : CMasternodeMan
  mapSeenMasternodeBroadcast : AList fun _ : Uint256 => CMasternodeBroadcast := ∅
  mapSeenMasternodePing : AList fun _ : Uint256 => SignedPing := ∅
  mapSeenSyncMNB : AList fun _ : Uint256 => ℕ := ∅
  activeMasternode : CActiveMasternode := {}

structure Judged where
  result : Bool
  nDoS : ℤ
  lists : MasternodeLists

-- The exits of `CheckInputsAndAdd` in the order of the source. The result of `Add` is ignored.
inductive BroadcastOutcome
  | ours
  | badPing
  | alreadyEnabled
  | vinSpent
  | fewConfirmations
  | badSigTime
  | notAdded
  | added
  deriving DecidableEq, Repr

def BroadcastOutcome.result : BroadcastOutcome → Bool
  | ours | alreadyEnabled | notAdded | added => true
  | badPing | vinSpent | fewConfirmations | badSigTime => false

namespace CMasternode

def isAvailableState (globals : MasternodeGlobals) (mn : CMasternode) : Bool :=
  mn.getActiveState globals == .MASTERNODE_ENABLED || mn.getActiveState globals == .MASTERNODE_PRE_ENABLED

def isBroadcastedWithin (globals : MasternodeGlobals) (mn : CMasternode) (seconds : ℤ) : Bool :=
  globals.getAdjustedTime - mn.sigTime < seconds

def isPingedWithinOf (globals : MasternodeGlobals) (mn : CMasternode) (seconds now : ℤ) : Bool :=
  let now := if now = -1 then globals.getAdjustedTime else now
  !mn.lastPing.isNull && now - mn.lastPing.sigTime < seconds

def copy (mn : CMasternode) : CMasternode :=
  { mn with fCollateralSpent := false }

end CMasternode

namespace CMasternodeMan

def replace (man : CMasternodeMan) (mn : CMasternode) : CMasternodeMan :=
  { man with
    mapMasternodes := man.mapMasternodes.insert mn.vin.prevout mn
    keyed := by
      intro collateral mn' found
      rw [lookup_insert] at found
      split at found
      case isTrue same => exact Option.some.inj found ▸ same.symm
      case isFalse => exact man.keyed collateral mn' found }

def add (globals : MasternodeGlobals) (man : CMasternodeMan) (mn : CMasternode) : Bool × CMasternodeMan :=
  if !mn.isAvailableState globals then (false, man)
  else if man.find mn.vin.prevout = none then (true, man.replace mn.copy)
  else (false, man)

def remove (man : CMasternodeMan) (collateralOut : COutPoint) : CMasternodeMan :=
  { man with
    mapMasternodes := man.mapMasternodes.erase collateralOut
    keyed := by
      intro collateral mn found
      rw [lookup_erase] at found
      split at found
      case isTrue => cases found
      case isFalse => exact man.keyed collateral mn found }

def isWithinDepth (globals : MasternodeGlobals) (man : CMasternodeMan) (nHash : Uint256) (depth : ℤ) : Bool :=
  if nHash = 0 then false
  else if depth < 0 || depth ≥ CACHED_BLOCK_HASHES then false
  else
    let nStopHeight := max 0 (man.nBestHeight - depth)
    (List.range (man.nBestHeight + 1 - nStopHeight).toNat).any fun i =>
      man.getHashAtHeight globals (man.nBestHeight - i) == nHash

end CMasternodeMan

def MasternodeLists.addedMasternodeList (lists : MasternodeLists) (hash : Uint256) : MasternodeLists :=
  if hash ∈ lists.mapSeenMasternodeBroadcast then
    let count := (lists.mapSeenSyncMNB.lookup hash).getD 0
    let count := if count < MASTERNODE_SYNC_THRESHOLD then count + 1 else count
    { lists with mapSeenSyncMNB := lists.mapSeenSyncMNB.insert hash count }
  else { lists with mapSeenSyncMNB := emplace lists.mapSeenSyncMNB hash 1 }

section

variable [CompactCrypto]

def CMasternode.broadcastHash (mn : CMasternode) : Uint256 :=
  hash256 (serializeInt64 (Int64.ofInt mn.sigTime) ++ serializeBytes mn.pubKeyCollateralAddress)

def CMasternodeBroadcast.getHash (mnb : CMasternodeBroadcast) : Uint256 :=
  mnb.broadcastHash

namespace SignedPing

def getHash (ping : SignedPing) : Uint256 :=
  hash256 (ping.vin.serialize ++ (if ping.nMessVersion = MESS_VER_HASH then ping.blockHash.bytes else []) ++
    serializeInt64 (Int64.ofInt ping.sigTime))

def getStrMessage (ping : SignedPing) : String :=
  ping.vin.toStr ++ ping.blockHash.toStr ++ toString ping.sigTime

def checkSignature (ping : SignedPing) (keyID : CKeyID) : Bool :=
  ping.toCSignedMessage.checkSignature ping.getHash ping.getStrMessage keyID

end SignedPing

namespace CMasternodeBroadcast

def getSignatureHash (mnb : CMasternodeBroadcast) : Uint256 :=
  hash256 (serializeInt32 mnb.nMessVersion ++ mnb.addr.serialize ++ serializeInt64 (Int64.ofInt mnb.sigTime) ++
    serializeBytes mnb.pubKeyCollateralAddress ++ serializeBytes mnb.pubKeyMasternode ++
    serializeInt32 (Int32.ofInt mnb.protocolVersion))

def getStrMessage (mnb : CMasternodeBroadcast) : String :=
  mnb.addr.toStr ++ toString mnb.sigTime ++ Uint160.toStr (CPubKey.getID mnb.pubKeyCollateralAddress) ++
    Uint160.toStr (CPubKey.getID mnb.pubKeyMasternode) ++ toString mnb.protocolVersion

def checkSignature (mnb : CMasternodeBroadcast) : Bool :=
  let strMessage := if mnb.nMessVersion = MESS_VER_HASH then mnb.getSignatureHash.toStr else mnb.getStrMessage
  CHashSigner.verifyHash (CMessageSigner.getMessageHash strMessage) (CPubKey.getID mnb.pubKeyCollateralAddress)
    mnb.vchSig

end CMasternodeBroadcast

end

structure MasternodeContext [CompactCrypto] where
  globals : MasternodeGlobals
  store : BlockStore
  chain : ActiveChain
  fMasterNode : Bool := false

variable [CompactCrypto] (ctx : MasternodeContext)

def MasternodeLists.acceptPing (lists : MasternodeLists) (ping : SignedPing) (pmn : CMasternode) : MasternodeLists :=
  let pmn := { pmn with lastPing := ping.toCMasternodePing }
  let hash := pmn.broadcastHash
  { lists with
    man := lists.man.replace pmn
    mapSeenMasternodePing := emplace lists.mapSeenMasternodePing ping.getHash ping
    mapSeenMasternodeBroadcast :=
      match lists.mapSeenMasternodeBroadcast.lookup hash with
      | none => lists.mapSeenMasternodeBroadcast
      | some mnb => lists.mapSeenMasternodeBroadcast.insert hash
          { mnb with lastPing := ping.toCMasternodePing, pingMessage := ping.toCSignedMessage } }

def SignedPing.checkAndUpdate (ping : SignedPing) (nDoS : ℤ) (fRequireAvailable fCheckSigTimeOnly : Bool)
    (lists : MasternodeLists) : Judged :=
  if ping.sigTime > ctx.globals.getAdjustedTime + 60 * 60 then ⟨false, 30, lists⟩
  else if ping.sigTime ≤ ctx.globals.getAdjustedTime - 60 * 60 then ⟨false, 30, lists⟩
  else if !lists.man.isWithinDepth ctx.globals ping.blockHash (2 * MNPING_DEPTH) then
    ⟨false, if activeProtocol ctx.globals < MIN_PEER_CACHEDVERSION then 0 else 33, lists⟩
  else
    let found := lists.man.find ping.vin.prevout
    let isSignatureValid := found.any fun pmn => ping.checkSignature (CPubKey.getID pmn.pubKeyMasternode)
    if fCheckSigTimeOnly then
      if found.isSome && !isSignatureValid then ⟨false, 33, lists⟩ else ⟨true, nDoS, lists⟩
    else
      match found with
      | none => ⟨false, nDoS, lists⟩
      | some pmn =>
        if pmn.protocolVersion < activeProtocol ctx.globals then ⟨false, nDoS, lists⟩
        else if fRequireAvailable && !pmn.isAvailableState ctx.globals then ⟨false, 20, lists⟩
        else if pmn.isPingedWithinOf ctx.globals (masternodeMinPingSeconds ctx.globals.params - 60) ping.sigTime then
          ⟨false, nDoS, lists⟩
        else if !isSignatureValid then ⟨false, 33, lists⟩
        else ⟨{ pmn with lastPing := ping.toCMasternodePing }.isEnabled ctx.globals, nDoS, lists.acceptPing ping pmn⟩

-- The entry takes over the broadcast before its ping is checked.
def CMasternode.updateFromNewBroadcast (pmn : CMasternode) (mnb : CMasternodeBroadcast) (lists : MasternodeLists) :
    MasternodeLists :=
  if mnb.sigTime > pmn.sigTime then
    let pmn := { pmn with
      pubKeyMasternode := mnb.pubKeyMasternode
      pubKeyCollateralAddress := mnb.pubKeyCollateralAddress
      sigTime := mnb.sigTime
      protocolVersion := mnb.protocolVersion }
    let lists := { lists with man := lists.man.replace pmn }
    if mnb.lastPing.isNull then
      { lists with
        man := lists.man.replace { pmn with lastPing := mnb.lastPing }
        mapSeenMasternodePing := emplace lists.mapSeenMasternodePing mnb.ping.getHash mnb.ping }
    else
      let judged := mnb.ping.checkAndUpdate ctx 0 false false lists
      if judged.result then
        { judged.lists with
          man := judged.lists.man.replace { pmn with lastPing := mnb.lastPing }
          mapSeenMasternodePing := emplace judged.lists.mapSeenMasternodePing mnb.ping.getHash mnb.ping }
      else judged.lists
  else lists

namespace CMasternodeBroadcast

def payee (mn : CMasternode) : CScript :=
  getScriptForDestination (.CKeyID (CPubKey.getID mn.pubKeyCollateralAddress))

def hasRightPort (mnb : CMasternodeBroadcast) : Bool :=
  if ctx.globals.params.network = .MAIN then mnb.addr.port == 18962 else mnb.addr.port != 18962

def checkPing (mnb : CMasternodeBroadcast) (nDoS : ℤ) (lists : MasternodeLists) : Judged :=
  if mnb.lastPing.isNull then ⟨false, nDoS, lists⟩ else mnb.ping.checkAndUpdate ctx nDoS false true lists

def checkAndUpdate (mnb : CMasternodeBroadcast) (nDoS : ℤ) (lists : MasternodeLists) : Judged :=
  if mnb.sigTime > ctx.globals.getAdjustedTime + 60 * 60 then ⟨false, 1, lists⟩
  else if mnb.protocolVersion < activeProtocol ctx.globals then ⟨false, nDoS, lists⟩
  else if (payee mnb.toCMasternode).length ≠ 25 then ⟨false, 100, lists⟩
  else if (getScriptForDestination (.CKeyID (CPubKey.getID mnb.pubKeyMasternode))).length ≠ 25 then ⟨false, 100, lists⟩
  else if mnb.vin.scriptSig ≠ [] then ⟨false, nDoS, lists⟩
  else if !mnb.checkSignature then ⟨false, if mnb.protocolVersion < MIN_PEER_MNANNOUNCE then 0 else 100, lists⟩
  else if !mnb.hasRightPort ctx then ⟨false, nDoS, lists⟩
  else
    let ⟨result, nDoS, lists⟩ := mnb.checkPing ctx nDoS lists
    if !result then ⟨false, nDoS, lists⟩
    else
      match lists.man.find mnb.vin.prevout with
      | none => ⟨true, nDoS, lists⟩
      | some pmn =>
        if pmn.sigTime ≥ mnb.sigTime then ⟨false, nDoS, lists⟩
        else if !pmn.isEnabled ctx.globals then ⟨true, nDoS, lists⟩
        else if pmn.pubKeyCollateralAddress = mnb.pubKeyCollateralAddress ∧
            !pmn.isBroadcastedWithin ctx.globals (masternodeBroadcastSeconds ctx.globals.params) then
          ⟨true, nDoS, (pmn.updateFromNewBroadcast ctx mnb lists).addedMasternodeList mnb.getHash⟩
        else ⟨true, nDoS, lists⟩

def isInputAssociatedWithPubkey (mn : CMasternode) : Bool :=
  match getTransaction ctx.store ctx.chain mn.vin.prevout.hash with
  | none => false
  | some (txVin, _) => txVin.vout.any fun out => out.nValue == MN_COLL_AMT && out.scriptPubKey == payee mn

def isOurs (mnb : CMasternodeBroadcast) (lists : MasternodeLists) : Bool :=
  ctx.fMasterNode && (lists.activeMasternode.vin.any fun vin => mnb.vin.prevout == vin.prevout) &&
    mnb.pubKeyMasternode == lists.activeMasternode.pubKeyMasternode &&
    lists.activeMasternode.status == .ACTIVE_MASTERNODE_STARTED

def forget (mnb : CMasternodeBroadcast) (lists : MasternodeLists) : MasternodeLists :=
  { lists with
    mapSeenMasternodeBroadcast := lists.mapSeenMasternodeBroadcast.erase mnb.getHash
    mapSeenSyncMNB := lists.mapSeenSyncMNB.erase mnb.getHash }

-- `EnableHotColdMasterNode`, for a broadcast with the key of this node.
def activate (mnb : CMasternodeBroadcast) (lists : MasternodeLists) : MasternodeLists :=
  if mnb.pubKeyMasternode = lists.activeMasternode.pubKeyMasternode ∧ mnb.protocolVersion = PROTOCOL_VERSION ∧
      ctx.fMasterNode then
    { lists with activeMasternode := { lists.activeMasternode with
        vin := some mnb.vin
        service := some mnb.addr
        status := .ACTIVE_MASTERNODE_STARTED } }
  else lists

-- The part about the collateral. The block of the last confirmation is used without a null test.
def checkCollateral (mnb : CMasternodeBroadcast) (nChainHeight : ℤ) (lists : MasternodeLists) :
    Except Failure (BroadcastOutcome × MasternodeLists) :=
  let collateralUtxo := (ctx.chain.pcoinsTip.accessCoin mnb.vin.prevout).1
  let minConf := masternodeCollateralMinConf ctx.globals.params
  if collateralUtxo.isSpent then .ok (.vinSpent, lists)
  else if nChainHeight - collateralUtxo.nHeight + 1 < minConf then .ok (.fewConfirmations, mnb.forget lists)
  else
    match ctx.chain.chainActive.at' (collateralUtxo.nHeight + minConf - 1) with
    | none => .error (.assertion "pConfIndex")
    | some pConfIndex =>
      if (ctx.store.nTime pConfIndex).toNat > mnb.sigTime then .ok (.badSigTime, lists)
      else
        let (fAdded, man) := lists.man.add ctx.globals mnb.toCMasternode.copy
        .ok (if fAdded then .added else .notAdded, mnb.activate ctx { lists with man })

def checkInputsAndAdd (mnb : CMasternodeBroadcast) (nChainHeight nDoS : ℤ) (lists : MasternodeLists) :
    Except Failure (BroadcastOutcome × ℤ × MasternodeLists) :=
  if mnb.isOurs ctx lists then .ok (.ours, nDoS, lists)
  else
    let ⟨result, nDoS, lists⟩ := mnb.checkPing ctx nDoS lists
    if !result then .ok (.badPing, nDoS, lists)
    else
      match lists.man.find mnb.vin.prevout with
      | none => (mnb.checkCollateral ctx nChainHeight lists).map fun (outcome, lists) => (outcome, nDoS, lists)
      | some pmn =>
        if pmn.isEnabled ctx.globals then .ok (.alreadyEnabled, nDoS, lists)
        else
          let lists := { lists with man := lists.man.remove pmn.vin.prevout }
          (mnb.checkCollateral ctx nChainHeight lists).map fun (outcome, lists) => (outcome, nDoS, lists)

end CMasternodeBroadcast

def MasternodeLists.processMNBroadcast (lists : MasternodeLists) (mnb : CMasternodeBroadcast) :
    Except Failure (ℤ × Option BroadcastOutcome × MasternodeLists) :=
  if mnb.getHash ∈ lists.mapSeenMasternodeBroadcast then .ok (0, none, lists.addedMasternodeList mnb.getHash)
  else
    let ⟨result, nDoS, lists⟩ := mnb.checkAndUpdate ctx 0 lists
    if !result then .ok (nDoS, none, lists)
    else if !CMasternodeBroadcast.isInputAssociatedWithPubkey ctx mnb.toCMasternode then .ok (33, none, lists)
    else do
      let lists := { lists with
        mapSeenMasternodeBroadcast := emplace lists.mapSeenMasternodeBroadcast mnb.getHash mnb }
      let (outcome, nDoS, lists) ← mnb.checkInputsAndAdd ctx lists.man.nBestHeight nDoS lists
      if outcome.result then .ok (0, some outcome, lists.addedMasternodeList mnb.getHash)
      else .ok (nDoS, some outcome, lists)

end Qrax
