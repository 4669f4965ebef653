import Qrax.Budget.Manager
import Qrax.Masternode.Payments
import Qrax.Validation.ConnectBlock

namespace Qrax

def CTransaction.appendOutput (txNew : CTransaction) (payee : CScript) (nAmount : CAmount) : CTransaction :=
  { txNew with vout := txNew.vout ++ [⟨nAmount, payee⟩] }

def CTransaction.setOutputs (txNew : CTransaction) (nValue : CAmount) (payee : CScript) (nAmount : CAmount) :
    CTransaction :=
  { txNew with vout := [{ txNew.vout.headD {} with nValue }, ⟨nAmount, payee⟩] }

variable [CompactCrypto]

def BudgetManager.fillBlockPayee (ctx : BudgetContext) (bm : BudgetManager) (txNew : CTransaction) (nHeight : ℕ)
    (fProofOfStake : Bool) : Option CTransaction :=
  if nHeight = 0 then none
  else
    match bm.getPayeeAndAmount ctx nHeight with
    | none => none
    | some (payee, nAmount) =>
      let blockValue := Int64.ofInt (ctx.params.getBlockValue nHeight)
      some (if fProofOfStake then txNew.appendOutput payee nAmount else txNew.setOutputs blockValue payee nAmount)

def MasternodePayments.payeeAt (ctx : BudgetContext) (payments : MasternodePayments) (nHeight : ℕ) : Option CScript :=
  match payments.getBlockPayee (Int32.ofNat nHeight) with
  | some payee => some payee
  | none => (ctx.man.getCurrentMasterNode ctx.globals).map fun winningNode =>
      getScriptForDestination (.CKeyID (CPubKey.getID winningNode.pubKeyCollateralAddress))

def MasternodePayments.fillBlockPayee (ctx : BudgetContext) (payments : MasternodePayments) (txNew : CTransaction)
    (nHeight : ℕ) (fProofOfStake : Bool) : CTransaction :=
  if nHeight = 0 then txNew
  else
    match payments.payeeAt ctx nHeight with
    | none => txNew
    | some payee =>
      let masternodePayment := ctx.params.getMasternodePayment nHeight
      if fProofOfStake then txNew.appendOutput payee (Int64.ofInt masternodePayment)
      else
        txNew.setOutputs (Int64.ofInt (ctx.params.getBlockValue nHeight - masternodePayment)) payee
          (Int64.ofInt masternodePayment)

structure PayeeState where
  ctx : BudgetContext
  budgetman : BudgetManager := {}
  payments : MasternodePayments := {}
  isOnChain : Uint256 → Bool := fun _ => false
  history : PaymentHistory := ∅

namespace PayeeState

variable (state : PayeeState)

def isSporkActive (spork : SporkId) : Bool :=
  state.ctx.globals.isSporkActive spork

def fillBlockPayee (txNew : CTransaction) (nHeight : ℕ) (fProofOfStake : Bool) : CTransaction :=
  if nHeight = 0 || !fProofOfStake then txNew
  else
    let byBudget :=
      if state.isSporkActive .SPORK_13_ENABLE_SUPERBLOCKS then
        state.budgetman.fillBlockPayee state.ctx txNew nHeight fProofOfStake
      else none
    byBudget.getD (state.payments.fillBlockPayee state.ctx txNew nHeight fProofOfStake)

def node (node : Node) : Node :=
  { node with
    params := state.ctx.params
    isSynced := state.ctx.globals.isSynced
    isSporkActive := state.isSporkActive
    budgetman := {
      isBudgetPaymentBlock := fun nBlockHeight => state.budgetman.isBudgetPaymentBlock state.ctx nBlockHeight
      getTotalBudget := fun nHeight => getTotalBudget state.ctx nHeight
      getExpectedPayeeAmount := fun nHeight => (state.budgetman.getPayeeAndAmount state.ctx nHeight).map (·.2.toInt)
      isTransactionValid := fun txNew nBlockHash nBlockHeight =>
        (state.budgetman.isTransactionValid state.ctx state.isOnChain txNew nBlockHash nBlockHeight state.history).1
    }
    masternodePayments := {
      isTransactionValid := fun txNew nBlockHeight =>
        state.payments.isTransactionValid state.ctx.params txNew (Int32.ofNat nBlockHeight)
    } }

end PayeeState

end Qrax
