import Qrax.Budget.Vote

open Encoding

namespace Qrax

-- Transactions come with the hash of their block, blocks of the active chain with height and time.
structure BudgetContext where
  globals : MasternodeGlobals
  man : CMasternodeMan
  newP2CSRules : Bool := false
  getTransaction : Uint256 → Option (CTransaction × Uint256) := fun _ => none
  activeBlock : Uint256 → Option (ℤ × ℤ) := fun _ => none

namespace BudgetContext

def params (ctx : BudgetContext) : CChainParams :=
  ctx.globals.params

def countEnabled (ctx : BudgetContext) : ℕ :=
  ctx.man.countEnabled ctx.globals

def nBudgetCycleBlocks (ctx : BudgetContext) : ℤ :=
  ctx.params.consensus.nBudgetCycleBlocks

def nMaxProposalPayments (ctx : BudgetContext) : ℤ :=
  if ctx.params.network = .MAIN then 6 else 20

def nProposalEstablishmentTime (ctx : BudgetContext) : ℤ :=
  if ctx.params.network = .MAIN then 60 * 60 * 24 else 60 * 5

def nBudgetFeeConfirmations (ctx : BudgetContext) : ℤ :=
  if ctx.params.network = .MAIN then 6 else 3

def isMasternodeEnabled (ctx : BudgetContext) (collateral : COutPoint) : Bool :=
  (ctx.man.find collateral).any (·.isEnabled ctx.globals)

end BudgetContext

structure CBudgetProposal where
  nAllotted : CAmount := 0
  fValid : Bool := true
  strInvalid : String := ""
  mapVotes : AList fun _ : COutPoint => CBudgetVote := ∅
  strProposalName : String := "unknown"
  strURL : String := ""
  nBlockStart : Int32 := 0
  nBlockEnd : Int32 := 0
  address : CScript := []
  nAmount : CAmount := 0
  nFeeTXHash : Uint256 := 0
  nTime : ℤ := 0

namespace CBudgetProposal

variable (ctx : BudgetContext)

def getHash [CompactCrypto] (prop : CBudgetProposal) : Uint256 :=
  hash256 (serializeString prop.strProposalName ++ serializeString prop.strURL ++ serializeInt32 prop.nBlockStart ++
    serializeInt32 prop.nBlockEnd ++ serializeInt64 prop.nAmount ++ serializeBytes prop.address)

def getVoteCount (prop : CBudgetProposal) (vd : Int32) : ℤ :=
  prop.mapVotes.entries.countP fun e => e.2.nVote = vd && e.2.fValid

def getYeas (prop : CBudgetProposal) : ℤ :=
  prop.getVoteCount VOTE_YES

def getNays (prop : CBudgetProposal) : ℤ :=
  prop.getVoteCount VOTE_NO

def getBlockCycle (nHeight : ℤ) : ℤ :=
  nHeight - nHeight.tmod ctx.nBudgetCycleBlocks

def getTotalPaymentCount (prop : CBudgetProposal) : ℤ :=
  (prop.nBlockEnd.toInt - getBlockCycle ctx prop.nBlockStart.toInt).tdiv ctx.nBudgetCycleBlocks

def getRemainingPaymentCount (prop : CBudgetProposal) (nCurrentHeight : ℤ) : ℤ :=
  let nPayments := (prop.nBlockEnd.toInt - getBlockCycle ctx nCurrentHeight).tdiv ctx.nBudgetCycleBlocks - 1
  min nPayments (prop.getTotalPaymentCount ctx)

def ofPayments (name url : String) (paycount : Int32) (payee : CScript) (amount : CAmount) (blockstart : Int32)
    (nfeetxhash : Uint256) : CBudgetProposal where
  strProposalName := name
  strURL := url
  nBlockStart := blockstart
  nBlockEnd :=
    .ofInt (getBlockCycle ctx blockstart.toInt + (ctx.nBudgetCycleBlocks + 1) * paycount.toInt)
  address := payee
  nAmount := amount
  nFeeTXHash := nfeetxhash

def checkStartEnd (prop : CBudgetProposal) : Except String Unit :=
  let fNewRules := ctx.params.consensus.networkUpgradeActive prop.nBlockStart.toInt.toNat .ACTIVATE_HUSH
  if prop.nBlockStart.toInt < 0 || fNewRules && prop.nBlockStart.toInt.tmod ctx.nBudgetCycleBlocks ≠ 0 then
    .error "Invalid nBlockStart"
  else if prop.nBlockEnd.toInt < prop.nBlockStart.toInt then .error "Invalid nBlockEnd (end before start)"
  else if fNewRules && prop.getTotalPaymentCount ctx > ctx.nMaxProposalPayments then .error "Invalid payment count"
  else .ok ()

def checkAmount (prop : CBudgetProposal) (nTotalBudget : ℤ) : Except String Unit :=
  if prop.nAmount.toInt < 10 * COIN.toInt then .error "Invalid nAmount (too low)"
  else if prop.nAmount.toInt > nTotalBudget then .error "Invalid nAmount (too high)"
  else .ok ()

def checkAddress [CompactCrypto] (prop : CBudgetProposal) : Except String Unit :=
  if prop.address.isPayToScriptHash then .error "Multisig is not currently supported."
  else
    match extractDestination ctx.newP2CSRules prop.address false with
    | none => .error "Invalid script"
    | some dest => if isValidDestination dest then .ok () else .error "Invalid recipient address"

def isWellFormed [CompactCrypto] (prop : CBudgetProposal) (nTotalBudget : ℤ) : Except String Unit := do
  prop.checkStartEnd ctx
  prop.checkAmount nTotalBudget
  prop.checkAddress ctx

def isHeavilyDownvoted (prop : CBudgetProposal) (fNewRules : Bool) : Bool :=
  prop.getNays - prop.getYeas > (((if fNewRules then 3 else 1) * ctx.countEnabled / 10 : ℕ) : ℤ)

def isExpired (prop : CBudgetProposal) (nCurrentHeight : ℤ) : Bool :=
  prop.nBlockEnd.toInt < nCurrentHeight

def updateValid (prop : CBudgetProposal) (nCurrentHeight : ℤ) : CBudgetProposal :=
  let fNewRules := ctx.params.consensus.networkUpgradeActive nCurrentHeight.toNat .ACTIVATE_HUSH
  if (!fNewRules || nCurrentHeight > prop.nBlockStart.toInt) && prop.isHeavilyDownvoted ctx fNewRules then
    { prop with fValid := false, strInvalid := "Heavily Downvoted" }
  else if prop.isExpired nCurrentHeight then { prop with fValid := false, strInvalid := "Proposal expired" }
  else { prop with fValid := true, strInvalid := "" }

def isEstablished (prop : CBudgetProposal) : Bool :=
  prop.nTime < ctx.globals.getAdjustedTime - ctx.nProposalEstablishmentTime

def isPassing (prop : CBudgetProposal) (nBlockStartBudget nBlockEndBudget : ℤ) (mnCount : ℕ) : Bool :=
  prop.fValid && !(prop.nBlockStart.toInt > nBlockStartBudget) && !(prop.nBlockEnd.toInt < nBlockEndBudget) &&
    !(prop.getYeas - prop.getNays ≤ (mnCount / 10 : ℕ)) && prop.isEstablished ctx

def ptrHigherYes (a b : CBudgetProposal) : Bool :=
  let netYes_a := a.getYeas - a.getNays
  let netYes_b := b.getYeas - b.getNays
  if netYes_a = netYes_b then a.nFeeTXHash > b.nFeeTXHash else netYes_a > netYes_b

def addOrUpdateVote [CompactCrypto] (prop : CBudgetProposal) (vote : CBudgetVote) : Except String CBudgetProposal := do
  let mapVotes ← Qrax.addOrUpdateVote ctx.globals.getTime prop.mapVotes vote
  return { prop with mapVotes }

end CBudgetProposal

end Qrax
