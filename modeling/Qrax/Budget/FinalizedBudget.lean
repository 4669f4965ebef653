import Qrax.Budget.Proposal

open Encoding KeyedUpdate

namespace Qrax

structure CTxBudgetPayment where
  nProposalHash : Uint256
  payee : CScript
  nAmount : CAmount
  deriving DecidableEq

def CTxBudgetPayment.serialize (payment : CTxBudgetPayment) : Bytes :=
  serializeBytes payment.payee ++ serializeInt64 payment.nAmount ++ payment.nProposalHash.bytes

-- `mapPayment_History`: the block that first checked the payment of a proposal, and its height.
abbrev PaymentHistory := AList fun _ : Uint256 => Uint256 × ℤ

structure CFinalizedBudget where
  fValid : Bool := true
  strInvalid : String := ""
  mapVotes : AList fun _ : COutPoint => CFinalizedBudgetVote := ∅
  strBudgetName : String := ""
  nBlockStart : Int32 := 0
  vecBudgetPayments : List CTxBudgetPayment := []
  nFeeTXHash : Uint256 := 0
  nTime : ℤ := 0

namespace CFinalizedBudget

variable (budget : CFinalizedBudget)

def getHash [CompactCrypto] : Uint256 :=
  hash256 (serializeString budget.strBudgetName ++ serializeInt32 budget.nBlockStart ++
    serializeVector CTxBudgetPayment.serialize budget.vecBudgetPayments)

def getBlockStart : ℤ :=
  budget.nBlockStart.toInt

def getBlockEnd : ℤ :=
  budget.nBlockStart.toInt + (budget.vecBudgetPayments.length - 1)

def getVoteCount : ℤ :=
  budget.mapVotes.entries.length

def getTotalPayout : ℤ :=
  (budget.vecBudgetPayments.map (·.nAmount.toInt)).sum

def checkStartEnd (ctx : BudgetContext) : Except String Unit :=
  if budget.nBlockStart = 0 then .error "Invalid BlockStart == 0"
  else if budget.nBlockStart.toInt.tmod ctx.nBudgetCycleBlocks ≠ 0 then .error "Invalid BlockStart"
  else if budget.getBlockEnd - budget.getBlockStart > 100 then .error "Invalid BlockEnd"
  else if budget.vecBudgetPayments.length > 100 then .error "Invalid budget payments count (too many)"
  else .ok ()

def checkAmount (nTotalBudget : ℤ) : Except String Unit :=
  if budget.getTotalPayout > nTotalBudget then .error "Invalid Payout (more than max)" else .ok ()

def checkName : Except String Unit :=
  if budget.strBudgetName = "" then .error "Invalid Budget Name" else .ok ()

def isWellFormed (ctx : BudgetContext) (nTotalBudget : ℤ) : Except String Unit := do
  budget.checkStartEnd ctx
  budget.checkAmount nTotalBudget
  budget.checkName

def isExpired (ctx : BudgetContext) (nCurrentHeight : ℤ) : Bool :=
  budget.getBlockEnd < CBudgetProposal.getBlockCycle ctx nCurrentHeight

def updateValid (ctx : BudgetContext) (nCurrentHeight : ℤ) : CFinalizedBudget :=
  if budget.isExpired ctx nCurrentHeight then
    { budget with
      fValid := false
      strInvalid := "(ends at block " ++ toString budget.getBlockEnd ++ ") too old and obsolete" }
  else { budget with fValid := true, strInvalid := "" }

def addOrUpdateVote [CompactCrypto] (ctx : BudgetContext) (vote : CFinalizedBudgetVote) :
    Except String CFinalizedBudget := do
  let mapVotes ← Qrax.addOrUpdateVote ctx.globals.getTime budget.mapVotes vote
  return { budget with mapVotes }

def matchesProposal (mapWinningProposals : AList fun _ : Uint256 => CBudgetProposal) (p : CTxBudgetPayment) : Bool :=
  match mapWinningProposals.lookup p.nProposalHash with
  | none => false
  | some prop => p.payee = prop.address && p.nAmount = prop.nAmount

def checkProposals (mapWinningProposals : AList fun _ : Uint256 => CBudgetProposal) : Bool :=
  if mapWinningProposals.entries.isEmpty then false
  else if mapWinningProposals.entries.length ≠ budget.vecBudgetPayments.length then false
  else budget.vecBudgetPayments.all (matchesProposal mapWinningProposals)

def getBudgetPaymentByBlock (nBlockHeight : ℤ) : Option CTxBudgetPayment :=
  let i := nBlockHeight - budget.getBlockStart
  if i < 0 then none else budget.vecBudgetPayments[i.toNat]?

def getPayeeAndAmount (nBlockHeight : ℤ) : Option (CScript × CAmount) :=
  (budget.getBudgetPaymentByBlock nBlockHeight).map fun payment => (payment.payee, payment.nAmount)

def forget (history : PaymentHistory) : PaymentHistory :=
  ((history.entries.filter fun e => e.2.2 < budget.getBlockStart || e.2.2 > budget.getBlockEnd).map (·.1)).foldl
    (fun history hash => history.erase hash) history

def isPaidAlready (isOnChain : Uint256 → Bool) (nProposalHash nBlockHash : Uint256) (nBlockHeight : ℤ)
    (history : PaymentHistory) : Bool × PaymentHistory :=
  let history := budget.forget history
  match history.lookup nProposalHash with
  | none => (false, history.insert nProposalHash (nBlockHash, nBlockHeight))
  | some (nPaidBlockHash, _) => (nBlockHash ≠ nPaidBlockHash && isOnChain nPaidBlockHash, history)

def isTransactionValid (isOnChain : Uint256 → Bool) (txNew : CTransaction) (nBlockHash : Uint256) (nBlockHeight : ℤ)
    (history : PaymentHistory) : TrxValidationStatus × PaymentHistory :=
  if nBlockHeight > budget.getBlockEnd then (.InValid, history)
  else if nBlockHeight < budget.getBlockStart then (.InValid, history)
  else
    match budget.getBudgetPaymentByBlock nBlockHeight with
    | none => (.InValid, history)
    | some payment =>
      let (paid, history) := budget.isPaidAlready isOnChain payment.nProposalHash nBlockHash nBlockHeight history
      if paid then (.DoublePayment, history)
      else if txNew.vout.any fun out => payment.payee == out.scriptPubKey && payment.nAmount == out.nValue then
        (.Valid, history)
      else (.InValid, history)

end CFinalizedBudget

end Qrax
