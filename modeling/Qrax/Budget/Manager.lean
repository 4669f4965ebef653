import Qrax.Budget.VoteMaps

open Encoding KeyedUpdate KeyOrder Fallible

namespace Qrax

def PROPOSAL_FEE_TX : CAmount := 50 * COIN
def BUDGET_FEE_TX : CAmount := 5 * COIN

def checkCollateralConfs (ctx : BudgetContext) (nCurrentHeight nProposalHeight : ℤ) : Except String Unit :=
  let nConf := nCurrentHeight - nProposalHeight + 1
  if nConf < ctx.nBudgetFeeConfirmations then
    .error ("Collateral requires at least " ++ toString ctx.nBudgetFeeConfirmations ++ " confirmations - " ++
      toString nConf ++ " confirmations (current height: " ++ toString nCurrentHeight ++ ", fee tx height: " ++
      toString nProposalHeight ++ ")")
  else .ok ()

def findOpReturn (findScript : CScript) (fee : CAmount) : List CTxOut → Except String Bool
  | [] => .ok false
  | o :: vout =>
    if !o.scriptPubKey.isPayToPublicKeyHash && !o.scriptPubKey.isUnspendable then .error "Invalid Script"
    else if o.scriptPubKey = findScript && o.nValue ≥ fee then .ok true
    else findOpReturn findScript fee vout

def checkCollateral (ctx : BudgetContext) (nTxCollateralHash nExpectedHash : Uint256) (nCurrentHeight : ℤ)
    (fBudgetFinalization : Bool) : Except String ℤ :=
  match ctx.getTransaction nTxCollateralHash with
  | none => .error ("Can't find collateral tx " ++ nTxCollateralHash.toStr)
  | some (txCollateral, nBlockHash) => do
    failIf (txCollateral.vout.isEmpty || txCollateral.nLockTime ≠ 0) ""
    let fee := if fBudgetFinalization then BUDGET_FEE_TX else PROPOSAL_FEE_TX
    let findScript := Opcodetype.OP_RETURN.toByte :: CScript.push nExpectedHash.bytes
    let foundOpReturn ← findOpReturn findScript fee txCollateral.vout
    failIf (!foundOpReturn) ("Couldn't find opReturn " ++ nExpectedHash.toStr)
    failIf (nBlockHash = 0) ("Collateral transaction " ++ nTxCollateralHash.toStr ++ " is unconfirmed")
    let (nProposalHeight, nTime) := (ctx.activeBlock nBlockHash).getD (0, 0)
    failIf (nProposalHeight = 0) ("Collateral transaction " ++ nTxCollateralHash.toStr ++ " not in Active chain")
    checkCollateralConfs ctx nCurrentHeight nProposalHeight
    return nTime

structure BudgetManager [CompactCrypto] where
  mapUnconfirmedFeeTx : AList fun _ : Uint256 => Uint256 := ∅
  mapFeeTxToProposal : AList fun _ : Uint256 => Uint256 := ∅
  mapFeeTxToBudget : AList fun _ : Uint256 => Uint256 := ∅
  proposals : VoteMaps CBudgetProposal CBudgetVote := .empty
  budgets : VoteMaps CFinalizedBudget CFinalizedBudgetVote := .empty
  nBestHeight : ℤ := 0

def getTotalBudget (ctx : BudgetContext) (nHeight : ℤ) : ℤ :=
  (ctx.params.getBlockValue nHeight.toNat).tdiv 5 * ctx.nBudgetCycleBlocks

variable (ctx : BudgetContext)

-- `RemoveStaleVotesOnProposal` and `RemoveStaleVotesOnFinalBudget`: votes are flagged, none is removed.
def CBudgetProposal.removeStaleVotes (prop : CBudgetProposal) : CBudgetProposal :=
  { prop with
    mapVotes := mapValues (fun mnId vote => { vote with fValid := ctx.isMasternodeEnabled mnId }) prop.mapVotes }

def CFinalizedBudget.removeStaleVotes (fbud : CFinalizedBudget) : CFinalizedBudget :=
  { fbud with
    mapVotes := mapValues (fun mnId vote => { vote with fValid := ctx.isMasternodeEnabled mnId }) fbud.mapVotes }

namespace BudgetManager

variable [CompactCrypto] (ctx : BudgetContext)

def mapProposals (bm : BudgetManager) : AList fun _ : Uint256 => CBudgetProposal :=
  bm.proposals.items

def mapFinalizedBudgets (bm : BudgetManager) : AList fun _ : Uint256 => CFinalizedBudget :=
  bm.budgets.items

def removeStaleVotesOnFinalBudgets (bm : BudgetManager) : BudgetManager :=
  { bm with
    budgets := bm.budgets.withItems (mapValues (fun _ fbud => fbud.removeStaleVotes ctx) bm.mapFinalizedBudgets) }

def finalizedBudgets (bm : BudgetManager) : List CFinalizedBudget :=
  (inOrder uint256Le bm.mapFinalizedBudgets).map (·.2)

def scanBudget (chainHeight : ℤ) (acc : ℤ × Option CFinalizedBudget) (fbud : CFinalizedBudget) :
    ℤ × Option CFinalizedBudget :=
  if fbud.getVoteCount > acc.1 && chainHeight ≥ fbud.getBlockStart && chainHeight ≤ fbud.getBlockEnd then
    (fbud.getVoteCount, some fbud)
  else acc

def getBudgetWithHighestVoteCount (bm : BudgetManager) (chainHeight : ℤ) : Option CFinalizedBudget :=
  (bm.finalizedBudgets.foldl (scanBudget chainHeight) (0, none)).2

def getHighestVoteCount (bm : BudgetManager) (chainHeight : ℤ) : ℤ :=
  (bm.getBudgetWithHighestVoteCount chainHeight).elim (-1) (·.getVoteCount)

def nCountThreshold (bm : BudgetManager) (nBlockHeight : ℤ) : ℤ :=
  let nHighestCount := bm.getHighestVoteCount nBlockHeight
  let nCountThreshold := nHighestCount - (ctx.countEnabled / 10 : ℕ)
  if nCountThreshold = nHighestCount then nCountThreshold - 1 else nCountThreshold

def isBudgetPaymentBlock (bm : BudgetManager) (nBlockHeight : ℤ) : Bool :=
  bm.getHighestVoteCount nBlockHeight > (ctx.countEnabled / 20 : ℕ)

def getPayeeAndAmount (bm : BudgetManager) (chainHeight : ℤ) : Option (CScript × CAmount) :=
  if !bm.isBudgetPaymentBlock ctx chainHeight then none
  else
    match bm.getBudgetWithHighestVoteCount chainHeight with
    | none => none
    | some pfb =>
      match pfb.getPayeeAndAmount chainHeight with
      | none => none
      | some due => if pfb.getVoteCount > bm.nCountThreshold ctx chainHeight then some due else none

def isTransactionValid (isOnChain : Uint256 → Bool) (bm : BudgetManager) (txNew : CTransaction) (nBlockHash : Uint256)
    (nBlockHeight : ℤ) (history : PaymentHistory) : TrxValidationStatus × PaymentHistory :=
  if !bm.isBudgetPaymentBlock ctx nBlockHeight then (.InValid, history)
  else
    match bm.getBudgetWithHighestVoteCount nBlockHeight with
    | none => (.VoteThreshold, history)
    | some budget =>
      if budget.getVoteCount > bm.nCountThreshold ctx nBlockHeight then
        let (status, history) := budget.isTransactionValid isOnChain txNew nBlockHash nBlockHeight history
        -- A double payment is reported as an invalid one.
        (if status = .Valid then .Valid else .InValid, history)
      else (.VoteThreshold, history)

def allot (nTotalBudget nBlockStart nBlockEnd : ℤ) (mnCount : ℕ) :
    ℤ → List (Uint256 × CBudgetProposal) → List (Uint256 × CBudgetProposal × Bool)
  | _, [] => []
  | nBudgetAllocated, (nHash, prop) :: proposals =>
    if prop.isPassing ctx nBlockStart nBlockEnd mnCount then
      if prop.nAmount.toInt + nBudgetAllocated ≤ nTotalBudget then
        (nHash, { prop with nAllotted := prop.nAmount }, true) ::
          allot nTotalBudget nBlockStart nBlockEnd mnCount (nBudgetAllocated + prop.nAmount.toInt) proposals
      else
        (nHash, { prop with nAllotted := 0 }, false) ::
          allot nTotalBudget nBlockStart nBlockEnd mnCount nBudgetAllocated proposals
    else (nHash, prop, false) :: allot nTotalBudget nBlockStart nBlockEnd mnCount nBudgetAllocated proposals

def getBudget (bm : BudgetManager) : List CBudgetProposal × BudgetManager :=
  let nHeight := bm.nBestHeight
  if nHeight ≤ 0 then ([], bm)
  else
    let cleaned := mapValues (fun _ prop => prop.removeStaleVotes ctx) bm.mapProposals
    let sorted := (inOrder uint256Le cleaned).mergeSort fun a b => !CBudgetProposal.ptrHigherYes b.2 a.2
    let nBlockStart := CBudgetProposal.getBlockCycle ctx nHeight + ctx.nBudgetCycleBlocks
    let nBlockEnd := nBlockStart + ctx.nBudgetCycleBlocks - 1
    let allotted := allot ctx (getTotalBudget ctx nBlockStart) nBlockStart nBlockEnd ctx.countEnabled 0 sorted
    let items := mapValues (fun nHash prop => ((allotted.lookup nHash).map (·.1)).getD prop) cleaned
    ((allotted.filter (·.2.2)).map (·.2.1), { bm with proposals := { bm.proposals with items } })

def addProposal (bm : BudgetManager) (budgetProposal : CBudgetProposal) : Except String BudgetManager := do
  let nHash := budgetProposal.getHash
  failIf (nHash ∈ bm.mapProposals) "already added"
  budgetProposal.isWellFormed ctx (getTotalBudget ctx budgetProposal.nBlockStart.toInt)
  let nTime ← checkCollateral ctx budgetProposal.nFeeTXHash nHash bm.nBestHeight false
  let budgetProposal := { budgetProposal with nTime }.updateValid ctx bm.nBestHeight
  failIf (!budgetProposal.fValid) budgetProposal.strInvalid
  return { bm with
    proposals := { bm.proposals with items := emplace bm.mapProposals nHash budgetProposal }
    mapFeeTxToProposal := emplace bm.mapFeeTxToProposal budgetProposal.nFeeTXHash nHash }

def winningProposals (vBudget : List CBudgetProposal) : AList fun _ : Uint256 => CBudgetProposal :=
  vBudget.foldl (fun winning p => emplace winning p.getHash p) ∅

def checkFinalizedBudget (bm : BudgetManager) (finalizedBudget : CFinalizedBudget) :
    Except String CFinalizedBudget := do
  let nHash := finalizedBudget.getHash
  failIf (nHash ∈ bm.mapFinalizedBudgets) "already added"
  finalizedBudget.isWellFormed ctx (getTotalBudget ctx finalizedBudget.getBlockStart)
  let nTime ← checkCollateral ctx finalizedBudget.nFeeTXHash nHash bm.nBestHeight true
  let finalizedBudget := { finalizedBudget with nTime }.updateValid ctx bm.nBestHeight
  failIf (!finalizedBudget.fValid) finalizedBudget.strInvalid
  return finalizedBudget

def addFinalizedBudget (bm : BudgetManager) (finalizedBudget : CFinalizedBudget) : Except String Unit × BudgetManager :=
  match bm.checkFinalizedBudget ctx finalizedBudget with
  | .error strError => (.error strError, bm)
  | .ok finalizedBudget =>
    let (vBudget, bm) := bm.getBudget ctx
    if !finalizedBudget.checkProposals (winningProposals vBudget) then (.error "Invalid proposals", bm)
    else
      let nHash := finalizedBudget.getHash
      (.ok (),
        { bm with
          budgets := { bm.budgets with items := emplace bm.mapFinalizedBudgets nHash finalizedBudget }
          mapFeeTxToBudget := emplace bm.mapFeeTxToBudget finalizedBudget.nFeeTXHash nHash
          mapUnconfirmedFeeTx := bm.mapUnconfirmedFeeTx.erase nHash })

def checkOrphanVotes (bm : BudgetManager) : BudgetManager :=
  { bm with proposals := bm.proposals.checkOrphanVotes ctx, budgets := bm.budgets.checkOrphanVotes ctx }

def processProposal (bm : BudgetManager) (proposal : CBudgetProposal) : BudgetManager :=
  if proposal.getHash ∈ bm.mapProposals then bm
  else
    match bm.addProposal ctx proposal with
    | .error _ => bm
    | .ok bm => bm.checkOrphanVotes ctx

def processProposalVote (bm : BudgetManager) (vote : CBudgetVote) : VoteOutcome × BudgetManager :=
  let (outcome, proposals) := bm.proposals.processVote ctx vote
  (outcome, { bm with proposals })

def processFinalizedBudget (bm : BudgetManager) (finalbudget : CFinalizedBudget) : BudgetManager :=
  if finalbudget.getHash ∈ bm.mapFinalizedBudgets then bm
  else
    match bm.addFinalizedBudget ctx finalbudget with
    | (.error _, bm) => bm
    | (.ok _, bm) => bm.checkOrphanVotes ctx

def processFinalizedBudgetVote (bm : BudgetManager) (vote : CFinalizedBudgetVote) : VoteOutcome × BudgetManager :=
  let (outcome, budgets) := bm.budgets.processVote ctx vote
  (outcome, { bm with budgets })

end BudgetManager

-- Items come with the fields of their broadcast, and a vote counts as valid.
inductive BudgetMessage
  | proposal (proposal : CBudgetProposal)
  | proposalVote (vote : CBudgetVote)
  | finalBudget (finalbudget : CFinalizedBudget)
  | finalBudgetVote (vote : CFinalizedBudgetVote)

def CBudgetProposal.parseBroadcast (prop : CBudgetProposal) : CBudgetProposal :=
  { prop with nAllotted := 0, fValid := true, strInvalid := "", mapVotes := ∅ }

def CFinalizedBudget.parseBroadcast (budget : CFinalizedBudget) : CFinalizedBudget :=
  { budget with fValid := true, strInvalid := "", mapVotes := ∅, nTime := 0 }

def BudgetManager.dispatch [CompactCrypto] (ctx : BudgetContext) (bm : BudgetManager) : BudgetMessage → BudgetManager
  | .proposal proposal => bm.processProposal ctx proposal.parseBroadcast
  | .proposalVote vote => (bm.processProposalVote ctx { vote with fValid := true }).2
  | .finalBudget finalbudget => bm.processFinalizedBudget ctx finalbudget.parseBroadcast
  | .finalBudgetVote vote => (bm.processFinalizedBudgetVote ctx { vote with fValid := true }).2

def BudgetManager.processMessageInner [CompactCrypto] (ctx : BudgetContext) (bm : BudgetManager) (msg : BudgetMessage) :
    BudgetManager :=
  if ctx.globals.fLiteMode then bm
  else if !ctx.globals.isBlockchainSynced then bm
  else bm.dispatch ctx msg

def BudgetManager.run [CompactCrypto] (bm : BudgetManager) (events : List (BudgetContext × BudgetMessage)) :
    BudgetManager :=
  events.foldl (fun bm e => bm.processMessageInner e.1 e.2) bm

end Qrax
