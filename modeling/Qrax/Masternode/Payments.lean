import Qrax.Masternode.Masternode

open Encoding KeyedUpdate

namespace Qrax

def MNPAYMENTS_SIGNATURES_REQUIRED : ℕ := 6
def MNPAYMENTS_SIGNATURES_TOTAL : ℤ := 10

structure CMasternodePaymentWinner extends CSignedMessage where
  vinMasternode : CTxIn
  nBlockHeight : Int32
  payee : CScript
  deriving DecidableEq

namespace CMasternodePaymentWinner

variable [CompactCrypto]

def getHash (winner : CMasternodePaymentWinner) : Uint256 :=
  hash256 (serializeBytes winner.payee ++ serializeInt32 winner.nBlockHeight ++ winner.vinMasternode.prevout.serialize)

def getStrMessage (winner : CMasternodePaymentWinner) : String :=
  winner.vinMasternode.prevout.toStringShort ++ toString winner.nBlockHeight.toInt ++ hexStr winner.payee

def checkSignature (winner : CMasternodePaymentWinner) (keyID : CKeyID) : Bool :=
  winner.toCSignedMessage.checkSignature winner.getHash winner.getStrMessage keyID

def rank (globals : MasternodeGlobals) (man : CMasternodeMan) (winner : CMasternodePaymentWinner) : ℤ :=
  man.getMasternodeRank globals winner.vinMasternode (winner.nBlockHeight.toInt - 100) (activeProtocol globals) true

def isValid (globals : MasternodeGlobals) (man : CMasternodeMan) (winner : CMasternodePaymentWinner) :
    Except String Unit :=
  match man.find winner.vinMasternode.prevout with
  | none     => .error ("Unknown Masternode " ++ winner.vinMasternode.prevout.hash.toStr)
  | some pmn =>
    if pmn.protocolVersion < activeProtocol globals then
      .error ("Masternode protocol too old " ++ toString pmn.protocolVersion ++ " - req " ++
        toString (activeProtocol globals))
    else
      let n := winner.rank globals man
      if n > MNPAYMENTS_SIGNATURES_TOTAL * 2 then
        .error ("Masternode not in the top " ++ toString (MNPAYMENTS_SIGNATURES_TOTAL * 2) ++ " (" ++ toString n ++ ")")
      else if n > MNPAYMENTS_SIGNATURES_TOTAL then .error ""
      else .ok ()

end CMasternodePaymentWinner

structure CMasternodePayee where
  scriptPubKey : CScript
  nVotes : ℕ
  deriving DecidableEq

structure CMasternodeBlockPayees where
  nBlockHeight : Int32
  vecPayments : List CMasternodePayee := []
  deriving DecidableEq

namespace CMasternodeBlockPayees

def addVotes (payeeIn : CScript) (nIncrement : ℕ) : List CMasternodePayee → List CMasternodePayee
  | [] => [⟨payeeIn, nIncrement⟩]
  | payee :: payees =>
    if payee.scriptPubKey = payeeIn then { payee with nVotes := payee.nVotes + nIncrement } :: payees
    else payee :: addVotes payeeIn nIncrement payees

def addPayee (block : CMasternodeBlockPayees) (payeeIn : CScript) (nIncrement : ℕ) : CMasternodeBlockPayees :=
  { block with vecPayments := addVotes payeeIn nIncrement block.vecPayments }

def scanPayee (acc : ℤ × Option CScript) (p : CMasternodePayee) : ℤ × Option CScript :=
  if p.nVotes > acc.1 then (p.nVotes, some p.scriptPubKey) else acc

def getPayee (block : CMasternodeBlockPayees) : Option CScript :=
  (block.vecPayments.foldl scanPayee (-1, none)).2

def pays (requiredMasternodePayment : ℤ) (txNew : CTransaction) (payee : CMasternodePayee) : Bool :=
  txNew.vout.any fun out => payee.scriptPubKey == out.scriptPubKey && out.nValue.toInt == requiredMasternodePayment

def isTransactionValid (p : CChainParams) (block : CMasternodeBlockPayees) (txNew : CTransaction) : Bool :=
  let elected := block.vecPayments.filter (MNPAYMENTS_SIGNATURES_REQUIRED ≤ ·.nVotes)
  -- Without six signatures for a payee, the longest chain decides.
  if elected = [] then true
  else elected.any (pays (p.getMasternodePayment block.nBlockHeight.toInt.toNat) txNew)

end CMasternodeBlockPayees

-- `CMasternodePayments`. Votes are kept under their height.
structure MasternodePayments where
  mapMasternodePayeeVotes : AList fun _ : Uint256 => CMasternodePaymentWinner := ∅
  mapMasternodeBlocks : AList fun _ : Int32 => CMasternodeBlockPayees := ∅
  mapMasternodesLastVote : AList fun _ : COutPoint => Int32 := ∅
  keyed : ∀ nHeight block, mapMasternodeBlocks.lookup nHeight = some block →
    block.nBlockHeight = nHeight := by intro _ _ found; cases found

inductive WinnerOutcome
  | ignored
  | alreadySeen
  | outOfRange
  | oldVersion
  | invalid (strError : String)
  | alreadyVoted
  | invalidSignature
  | notAdded
  | added
  deriving DecidableEq

namespace MasternodePayments

def canVote (payments : MasternodePayments) (outMasternode : COutPoint) (nBlockHeight : Int32) : Bool :=
  payments.mapMasternodesLastVote.lookup outMasternode ≠ some nBlockHeight

-- What `CanVote` does besides, when it allows the vote.
def recordVote (payments : MasternodePayments) (outMasternode : COutPoint) (nBlockHeight : Int32) :
    MasternodePayments :=
  { payments with mapMasternodesLastVote := payments.mapMasternodesLastVote.insert outMasternode nBlockHeight }

def blockAt (payments : MasternodePayments) (nHeight : Int32) : CMasternodeBlockPayees :=
  (payments.mapMasternodeBlocks.lookup nHeight).getD { nBlockHeight := nHeight }

theorem blockAt_nBlockHeight (payments : MasternodePayments) (nHeight : Int32) :
    (payments.blockAt nHeight).nBlockHeight = nHeight := by
  unfold blockAt
  cases found : payments.mapMasternodeBlocks.lookup nHeight
  case none => rfl
  case some block => exact payments.keyed nHeight block found

def oldVotes (payments : MasternodePayments) (mnCount : ℕ) (nHeight : ℤ) :
    List ((_ : Uint256) × CMasternodePaymentWinner) :=
  payments.mapMasternodePayeeVotes.entries.filter fun e =>
    nHeight - e.2.nBlockHeight.toInt > max (5 * mnCount / 4 : ℕ) 1000

-- The votes for past blocks are dropped, and all votes for those blocks with them.
def cleanPaymentList (mnCount : ℕ) (nHeight : ℤ) (payments : MasternodePayments) : MasternodePayments where
  mapMasternodePayeeVotes := ((payments.oldVotes mnCount nHeight).map (·.1)).foldl (fun votes hash => votes.erase hash)
    payments.mapMasternodePayeeVotes
  mapMasternodeBlocks := ((payments.oldVotes mnCount nHeight).map (·.2.nBlockHeight)).foldl
    (fun blocks h => blocks.erase h) payments.mapMasternodeBlocks
  mapMasternodesLastVote := payments.mapMasternodesLastVote
  keyed := fun nHeight block found => by
    rw [lookup_foldl_erase] at found
    split at found
    case isTrue => cases found
    case isFalse => exact payments.keyed nHeight block found

-- The extra 25 % of masternodes are computed in floating point.
def isInRange (globals : MasternodeGlobals) (man : CMasternodeMan) (winner : CMasternodePaymentWinner) : Bool :=
  let nHeight := man.nBestHeight
  let nFirstBlock := (4 * nHeight - 5 * man.countEnabled globals).tdiv 4
  !(winner.nBlockHeight.toInt < nFirstBlock || winner.nBlockHeight.toInt > nHeight + 20)

def getBlockPayee (payments : MasternodePayments) (nBlockHeight : Int32) : Option CScript :=
  (payments.mapMasternodeBlocks.lookup nBlockHeight).bind (·.getPayee)

def isTransactionValid (p : CChainParams) (payments : MasternodePayments) (txNew : CTransaction)
    (nBlockHeight : Int32) : Bool :=
  match payments.mapMasternodeBlocks.lookup nBlockHeight with
  | none => true
  | some block => block.isTransactionValid p txNew

variable [CompactCrypto]

def countVote (payments : MasternodePayments) (winner : CMasternodePaymentWinner) : MasternodePayments where
  mapMasternodePayeeVotes := payments.mapMasternodePayeeVotes.insert winner.getHash winner
  mapMasternodeBlocks := payments.mapMasternodeBlocks.insert winner.nBlockHeight
    ((payments.blockAt winner.nBlockHeight).addPayee winner.payee 1)
  mapMasternodesLastVote := payments.mapMasternodesLastVote
  keyed := by
    intro nHeight block found
    rw [lookup_insert] at found
    split at found
    case isTrue eq =>
      cases found
      exact (payments.blockAt_nBlockHeight _).trans eq.symm
    case isFalse => exact payments.keyed nHeight block found

def addWinningMasternode (man : CMasternodeMan) (payments : MasternodePayments) (winnerIn : CMasternodePaymentWinner) :
    Option MasternodePayments :=
  if winnerIn.nBlockHeight.toInt - 100 > man.nBestHeight + 1 then none
  else if winnerIn.getHash ∈ payments.mapMasternodePayeeVotes then none
  else some (payments.countVote winnerIn)

def isSignedBy (man : CMasternodeMan) (winner : CMasternodePaymentWinner) : Bool :=
  match man.find winner.vinMasternode.prevout with
  | none => false
  | some pmn => winner.checkSignature (CPubKey.getID pmn.pubKeyMasternode)

def processWinner (globals : MasternodeGlobals) (man : CMasternodeMan) (pfromVersion : ℤ)
    (winner : CMasternodePaymentWinner) (payments : MasternodePayments) : WinnerOutcome × MasternodePayments :=
  if !globals.isBlockchainSynced || globals.fLiteMode || pfromVersion < activeProtocol globals then (.ignored, payments)
  else if winner.getHash ∈ payments.mapMasternodePayeeVotes then (.alreadySeen, payments)
  else if !isInRange globals man winner then (.outOfRange, payments)
  else if winner.nMessVersion ≠ MESS_VER_HASH then (.oldVersion, payments)
  else
    match winner.isValid globals man with
    | .error strError => (.invalid strError, payments)
    | .ok () =>
      if !payments.canVote winner.vinMasternode.prevout winner.nBlockHeight then (.alreadyVoted, payments)
      else
        let payments := payments.recordVote winner.vinMasternode.prevout winner.nBlockHeight
        if !isSignedBy man winner then (.invalidSignature, payments)
        else
          match payments.addWinningMasternode man winner with
          | none => (.notAdded, payments)
          | some payments => (.added, payments)

end MasternodePayments

end Qrax
