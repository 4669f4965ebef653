import Qrax.Masternode.Masternode

open Encoding

namespace Qrax

def VOTE_ABSTAIN : Int32 := 0
def VOTE_YES : Int32 := 1
def VOTE_NO : Int32 := 2

-- The direction is a number off the stream, not checked.
structure CBudgetVote extends CSignedMessage where
  nProposalHash : Uint256
  nVote : Int32
  nTime : Int64
  vin : CTxIn
  fValid : Bool := true
  deriving DecidableEq

structure CFinalizedBudgetVote extends CSignedMessage where
  vin : CTxIn
  nBudgetHash : Uint256
  nTime : Int64
  fValid : Bool := true
  deriving DecidableEq

section

variable [CompactCrypto]

def CBudgetVote.getHash (vote : CBudgetVote) : Uint256 :=
  hash256 (vote.vin.serialize ++ vote.nProposalHash.bytes ++ serializeInt32 vote.nVote ++ serializeInt64 vote.nTime)

def CBudgetVote.getStrMessage (vote : CBudgetVote) : String :=
  vote.vin.prevout.toStringShort ++ " " ++ vote.nProposalHash.toStr ++ " " ++ toString vote.nVote.toInt ++ " " ++
    toString vote.nTime.toInt

def CBudgetVote.checkSignature (vote : CBudgetVote) (keyID : CKeyID) : Bool :=
  vote.toCSignedMessage.checkSignature vote.getHash vote.getStrMessage keyID

def CFinalizedBudgetVote.getHash (vote : CFinalizedBudgetVote) : Uint256 :=
  hash256 (vote.vin.serialize ++ vote.nBudgetHash.bytes ++ serializeInt64 vote.nTime)

def CFinalizedBudgetVote.getStrMessage (vote : CFinalizedBudgetVote) : String :=
  vote.vin.prevout.toStringShort ++ " " ++ vote.nBudgetHash.toStr ++ " " ++ toString vote.nTime.toInt

def CFinalizedBudgetVote.checkSignature (vote : CFinalizedBudgetVote) (keyID : CKeyID) : Bool :=
  vote.toCSignedMessage.checkSignature vote.getHash vote.getStrMessage keyID

end

-- `getItemHash` is `GetProposalHash` or `GetBudgetHash`, `notFound` the error for an unknown hash.
class MasternodeVote (V : Type) where
  getVin : V → CTxIn
  getTime : V → ℤ
  getHash : V → Uint256
  getItemHash : V → Uint256
  checkSignature : V → CKeyID → Bool
  notFound : V → String

instance [CompactCrypto] : MasternodeVote CBudgetVote where
  getVin := CBudgetVote.vin
  getTime vote := vote.nTime.toInt
  getHash := CBudgetVote.getHash
  getItemHash := CBudgetVote.nProposalHash
  checkSignature := CBudgetVote.checkSignature
  notFound _ := "Proposal not found!"

instance [CompactCrypto] : MasternodeVote CFinalizedBudgetVote where
  getVin := CFinalizedBudgetVote.vin
  getTime vote := vote.nTime.toInt
  getHash := CFinalizedBudgetVote.getHash
  getItemHash := CFinalizedBudgetVote.nBudgetHash
  checkSignature := CFinalizedBudgetVote.checkSignature
  notFound vote := "Finalized Budget " ++ vote.nBudgetHash.toStr ++ " not found!"

def BUDGET_VOTE_UPDATE_MIN : ℤ := 60 * 60

variable {V : Type} [MasternodeVote V]

open MasternodeVote

def voteError (now : ℤ) (old : Option V) (vote : V) : Option String :=
  let hash := (getHash vote).toStr
  let tooFar := "new vote is too far ahead of current time - " ++ hash ++ " - nTime " ++ toString (getTime vote) ++
    " - Max Time " ++ toString (now + 60 * 60) ++ "\n"
  let ahead := if getTime vote > now + 60 * 60 then some tooFar else none
  match old with
  | none => ahead
  | some old =>
    if getTime old > getTime vote then some ("new vote older than existing vote - " ++ hash ++ "\n")
    else if getTime vote - getTime old < BUDGET_VOTE_UPDATE_MIN then
      some ("time between votes is too soon - " ++ hash ++ " - " ++ toString (getTime vote - getTime old) ++ " sec < " ++
        toString BUDGET_VOTE_UPDATE_MIN ++ " sec\n")
    else ahead

def addOrUpdateVote (now : ℤ) (mapVotes : AList fun _ : COutPoint => V) (vote : V) :
    Except String (AList fun _ : COutPoint => V) :=
  let mnId := (getVin vote).prevout
  match voteError now (mapVotes.lookup mnId) vote with
  | some strError => .error strError
  | none => .ok (mapVotes.insert mnId vote)

end Qrax
