import Qrax.Lib.KeyOrder
import Qrax.Masternode.MessageSigner
import Qrax.Validation.Pow

open Encoding KeyOrder

namespace Qrax

def COutPoint.le (a b : COutPoint) : Bool :=
  a.hash < b.hash || a.hash == b.hash && a.n ≤ b.n

-- The active chain is its block hashes, the genesis block first. `fProtocolEnforced` is
-- `SPORK_15_NEW_PROTOCOL_ENFORCEMENT`.
structure MasternodeGlobals where
  params : CChainParams
  isSporkActive : SporkId → Bool
  fProtocolEnforced : Bool := false
  isSynced : Bool := true
  isBlockchainSynced : Bool := true
  fLiteMode : Bool := false
  getTime : ℤ
  getAdjustedTime : ℤ
  chainActive : List Uint256

def MIN_PEER_PROTO_VERSION_BEFORE_ENFORCEMENT : ℤ := 70922
def MIN_PEER_PROTO_VERSION_AFTER_ENFORCEMENT : ℤ := 70923

def activeProtocol (globals : MasternodeGlobals) : ℤ :=
  if globals.fProtocolEnforced then MIN_PEER_PROTO_VERSION_AFTER_ENFORCEMENT
  else MIN_PEER_PROTO_VERSION_BEFORE_ENFORCEMENT

def masternodeMinPingSeconds (p : CChainParams) : ℤ :=
  if p.isRegTestNet then 90 else 10 * 60

def masternodeExpirationSeconds (p : CChainParams) : ℤ :=
  if p.isRegTestNet then 180 else 120 * 60

def masternodeRemovalSeconds (p : CChainParams) : ℤ :=
  if p.isRegTestNet then 200 else 130 * 60

structure CMasternodePing where
  vin : CTxIn := { prevout := .null }
  blockHash : Uint256 := 0
  sigTime : ℤ := 0
  deriving DecidableEq

def CMasternodePing.isNull (ping : CMasternodePing) : Bool :=
  ping.blockHash == 0 || ping.vin.prevout.isNull

inductive MasternodeState
  | MASTERNODE_PRE_ENABLED
  | MASTERNODE_ENABLED
  | MASTERNODE_EXPIRED
  | MASTERNODE_REMOVE
  | MASTERNODE_VIN_SPENT
  deriving DecidableEq, Repr

structure CMasternode where
  vin : CTxIn
  pubKeyCollateralAddress : Bytes
  pubKeyMasternode : Bytes
  sigTime : ℤ := 0
  protocolVersion : ℤ := 70923
  lastPing : CMasternodePing := {}
  fCollateralSpent : Bool := false
  deriving DecidableEq

namespace CMasternode

def isPingedWithin (globals : MasternodeGlobals) (mn : CMasternode) (seconds : ℤ) : Bool :=
  !mn.lastPing.isNull && globals.getAdjustedTime - mn.lastPing.sigTime < seconds

def getActiveState (globals : MasternodeGlobals) (mn : CMasternode) : MasternodeState :=
  if mn.fCollateralSpent then .MASTERNODE_VIN_SPENT
  else if !mn.isPingedWithin globals (masternodeRemovalSeconds globals.params) then .MASTERNODE_REMOVE
  else if !mn.isPingedWithin globals (masternodeExpirationSeconds globals.params) then .MASTERNODE_EXPIRED
  else if mn.lastPing.sigTime - mn.sigTime < masternodeMinPingSeconds globals.params then .MASTERNODE_PRE_ENABLED
  else .MASTERNODE_ENABLED

def isEnabled (globals : MasternodeGlobals) (mn : CMasternode) : Bool :=
  mn.getActiveState globals == .MASTERNODE_ENABLED

def calculateScore [Crypto] (mn : CMasternode) (hash : Uint256) : Uint256 :=
  let hash2 := hash256 hash.bytes
  let aux : Uint256 := mn.vin.prevout.hash + BitVec.ofNat 256 mn.vin.prevout.n.toNat
  let hash3 := hash256 (hash.bytes ++ aux.bytes)
  if hash3 > hash2 then hash3 - hash2 else hash2 - hash3

end CMasternode

def CACHED_BLOCK_HASHES : ℕ := 200
def MN_WINNER_MINIMUM_AGE : ℤ := 8000

-- The masternodes by their collateral. The cache of the last hashes is a `CyclingVector`.
structure CMasternodeMan where
  mapMasternodes : AList fun _ : COutPoint => CMasternode
  nBestHeight : ℤ
  cvLastBlockHashes : Fin CACHED_BLOCK_HASHES → Uint256
  keyed : ∀ collateral mn, mapMasternodes.lookup collateral = some mn → mn.vin.prevout = collateral

namespace CMasternodeMan

theorem keyed_empty (collateral : COutPoint) (mn : CMasternode)
    (found : AList.lookup collateral (∅ : AList fun _ : COutPoint => CMasternode) = some mn) :
    mn.vin.prevout = collateral := by
  cases found

def find (man : CMasternodeMan) (collateralOut : COutPoint) : Option CMasternode :=
  man.mapMasternodes.lookup collateralOut

def masternodes (man : CMasternodeMan) : List CMasternode :=
  man.mapMasternodes.entries.map (·.2)

def countEnabled (globals : MasternodeGlobals) (man : CMasternodeMan) : ℕ :=
  man.masternodes.countP fun mn => activeProtocol globals ≤ mn.protocolVersion && mn.isEnabled globals

def getHashAtHeight (globals : MasternodeGlobals) (man : CMasternodeMan) (nHeight : ℤ) : Uint256 :=
  if nHeight < 0 then 0
  else if nHeight > man.nBestHeight then 0
  else if nHeight > man.nBestHeight - CACHED_BLOCK_HASHES then
    man.cvLastBlockHashes ⟨nHeight.toNat % CACHED_BLOCK_HASHES, Nat.mod_lt _ (by decide)⟩
  else globals.chainActive.getD nHeight.toNat 0

def isRanked (globals : MasternodeGlobals) (minProtocol : ℤ) (fOnlyActive : Bool) (mn : CMasternode) : Bool :=
  !(mn.protocolVersion < minProtocol) &&
    !(globals.isSporkActive .SPORK_8_MASTERNODE_PAYMENT_ENFORCEMENT &&
      globals.getAdjustedTime - mn.sigTime < MN_WINNER_MINIMUM_AGE) &&
    !(fOnlyActive && !mn.isEnabled globals)

variable [Crypto]

def rankedCollaterals (globals : MasternodeGlobals) (man : CMasternodeMan) (hash : Uint256) (minProtocol : ℤ)
    (fOnlyActive : Bool) : List COutPoint :=
  let vecMasternodeScores := (man.masternodes.filter (isRanked globals minProtocol fOnlyActive)).map fun mn =>
    ((mn.calculateScore hash).getCompact, mn.vin.prevout)
  (vecMasternodeScores.mergeSort fun s t => t.1 ≤ s.1).map (·.2)

def getMasternodeRank (globals : MasternodeGlobals) (man : CMasternodeMan) (vin : CTxIn) (nBlockHeight minProtocol : ℤ)
    (fOnlyActive : Bool) : ℤ :=
  let hash := man.getHashAtHeight globals (nBlockHeight - 1)
  if hash = 0 then -1
  else
    match (man.rankedCollaterals globals hash minProtocol fOnlyActive).idxOf? vin.prevout with
    | none => -1
    | some i => i + 1

def getCurrentMasterNode (globals : MasternodeGlobals) (man : CMasternodeMan) : Option CMasternode :=
  let hash := man.getHashAtHeight globals (0 - 1)
  let scan := fun (score, winner) (mn : CMasternode) =>
    let n2 := ((mn.calculateScore hash).getCompact).toNat
    if mn.isEnabled globals && n2 > score then (n2, some mn) else (score, winner)
  (((inOrder COutPoint.le man.mapMasternodes).map (·.2)).foldl scan (0, none)).2

end CMasternodeMan

end Qrax
