import Qrax.Budget.FinalizedBudget

open KeyedUpdate KeyOrder

namespace Qrax

open MasternodeVote

class VotedItem (Item : Type) (V : outParam Type) [MasternodeVote V] where
  mapVotes : Item → AList fun _ : COutPoint => V
  addOrUpdateVote : BudgetContext → Item → V → Except String Item
  votes_addOrUpdateVote : ∀ ctx item vote,
    (addOrUpdateVote ctx item vote).map mapVotes = Qrax.addOrUpdateVote ctx.globals.getTime (mapVotes item) vote

instance [CompactCrypto] : VotedItem CBudgetProposal CBudgetVote where
  mapVotes := CBudgetProposal.mapVotes
  addOrUpdateVote ctx := CBudgetProposal.addOrUpdateVote ctx
  votes_addOrUpdateVote ctx prop vote := by
    unfold CBudgetProposal.addOrUpdateVote
    cases Qrax.addOrUpdateVote ctx.globals.getTime prop.mapVotes vote <;> rfl

instance [CompactCrypto] : VotedItem CFinalizedBudget CFinalizedBudgetVote where
  mapVotes := CFinalizedBudget.mapVotes
  addOrUpdateVote ctx fin := CFinalizedBudget.addOrUpdateVote fin ctx
  votes_addOrUpdateVote ctx budget vote := by
    unfold CFinalizedBudget.addOrUpdateVote
    cases Qrax.addOrUpdateVote ctx.globals.getTime budget.mapVotes vote <;> rfl

inductive VoteOutcome
  | alreadySeen
  | unknownMasternode
  | invalidSignature
  | rejected (strError : String)
  | added
  deriving DecidableEq

def VoteOutcome.ofError : Option String → VoteOutcome
  | none => added
  | some strError => rejected strError

def uint256Le (a b : Uint256) : Bool :=
  a ≤ b

-- `mapProposals`, `mapSeenProposalVotes` and `mapOrphanProposalVotes`, or those of the finalized budgets.
structure VoteMaps (Item V : Type) [MasternodeVote V] where
  items : AList fun _ : Uint256 => Item := ∅
  seenVotes : AList fun _ : Uint256 => V := ∅
  orphanVotes : AList fun _ : Uint256 => V := ∅
  keyed : ∀ nHash vote, orphanVotes.lookup nHash = some vote → getItemHash vote = nHash := by
    intro _ _ found; cases found

namespace VoteMaps

variable {Item V : Type} [MasternodeVote V]

def empty : VoteMaps Item V := {}

def withItems (maps : VoteMaps Item V) (items : AList fun _ : Uint256 => Item) : VoteMaps Item V :=
  { maps with items }

def addSeen (maps : VoteMaps Item V) (vote : V) : VoteMaps Item V :=
  { maps with seenVotes := emplace maps.seenVotes (getHash vote) vote }

def park (maps : VoteMaps Item V) (vote : V) : VoteMaps Item V :=
  { maps with
    orphanVotes := maps.orphanVotes.insert (getItemHash vote) vote
    keyed := by
      intro nHash vote' found
      rw [lookup_insert] at found
      split at found
      case isTrue eq => cases found; exact eq.symm
      case isFalse => exact maps.keyed nHash vote' found }

def unpark (maps : VoteMaps Item V) (nHash : Uint256) : VoteMaps Item V :=
  { maps with
    orphanVotes := maps.orphanVotes.erase nHash
    keyed := by
      intro nHash' vote found
      rw [lookup_erase] at found
      split at found
      case isTrue => cases found
      case isFalse => exact maps.keyed nHash' vote found }

variable [VotedItem Item V] (ctx : BudgetContext)

-- `UpdateProposal` and `UpdateFinalizedBudget`, with the error if the vote is not added.
def update (fromPeer : Bool) (maps : VoteMaps Item V) (vote : V) : Option String × VoteMaps Item V :=
  match maps.items.lookup (getItemHash vote) with
  | none =>
    if !fromPeer then (some (notFound vote), maps)
    else if !ctx.globals.isSynced then (some "", maps)
    else (some (notFound vote), maps.park vote)
  | some item =>
    match VotedItem.addOrUpdateVote ctx item vote with
    | .error strError => (some strError, maps)
    | .ok item => (none, { maps with items := maps.items.insert (getItemHash vote) item })

def replay (maps : VoteMaps Item V) (parked : Uint256 × V) : VoteMaps Item V :=
  match maps.update ctx false parked.2 with
  | (none, maps) => maps.unpark parked.1
  | (some _, maps) => maps

def checkOrphanVotes (maps : VoteMaps Item V) : VoteMaps Item V :=
  (inOrder uint256Le maps.orphanVotes).foldl (replay ctx) maps

def judge [CompactCrypto] (pmn : CMasternode) (maps : VoteMaps Item V) (vote : V) : VoteOutcome × VoteMaps Item V :=
  if !checkSignature vote (CPubKey.getID pmn.pubKeyMasternode) then (.invalidSignature, maps)
  else if !pmn.isEnabled ctx.globals then (.rejected "", maps)
  else
    let (strError, maps) := maps.update ctx true vote
    (.ofError strError, maps)

def processVote [CompactCrypto] (maps : VoteMaps Item V) (vote : V) : VoteOutcome × VoteMaps Item V :=
  if getHash vote ∈ maps.seenVotes then (.alreadySeen, maps)
  else
    match ctx.man.find (getVin vote).prevout with
    | none => (.unknownMasternode, maps)
    | some pmn => (maps.addSeen vote).judge ctx pmn vote

end VoteMaps

end Qrax
