import Qrax.Lib.Highest
import Qrax.Budget.Theorems.PaymentHistory
import Qrax.Budget.Theorems.VoteCount
import Qrax.Masternode.BlockPayee

open List

namespace Qrax

open CFinalizedBudget BudgetManager CMasternodeBlockPayees

def CMasternodeBlockPayees.Elects (block : CMasternodeBlockPayees) (payee : CMasternodePayee) : Prop :=
  payee ∈ block.vecPayments ∧ MNPAYMENTS_SIGNATURES_REQUIRED ≤ payee.nVotes

namespace CMasternodeBlockPayees

variable {block : CMasternodeBlockPayees} {payee : CMasternodePayee} {tx : CTransaction} {p : CChainParams}

theorem scanPayee_higher {acc : ℤ × Option CScript} (lt : acc.1 < payee.nVotes) :
    scanPayee acc payee = ((payee.nVotes : ℤ), some payee.scriptPubKey) :=
  if_pos lt

theorem scanPayee_lower {acc : ℤ × Option CScript} (not : ¬(True ∧ acc.1 < payee.nVotes)) : scanPayee acc payee = acc :=
  if_neg fun lt => not ⟨trivial, lt⟩

theorem Elects.getPayee (elects : block.Elects payee) :
    ∃ payee', block.Elects payee' ∧ block.getPayee = some payee'.scriptPubKey := by
  have scanned := Highest.foldl_scan (fun _ => True) (fun payee : CMasternodePayee => (payee.nVotes : ℤ))
    CMasternodePayee.scriptPubKey scanPayee (fun _ _ _ => scanPayee_higher) (fun _ _ => scanPayee_lower)
    block.vecPayments (-1, none)
  cases scanned
  case inl none =>
    have le : (payee.nVotes : ℤ) ≤ -1 := none.2 payee elects.1 trivial
    omega
  case inr some =>
    obtain ⟨payee', ends, _⟩ := some
    have le := ends.highest payee elects.1 trivial
    refine ⟨payee', ⟨ends.mem, elects.2.trans (Int.ofNat_le.mp le)⟩, ?_⟩
    exact congrArg Prod.snd ends.found

theorem isTransactionValid_of_not (none : ∀ payee, ¬block.Elects payee) : block.isTransactionValid p tx := by
  unfold isTransactionValid
  dsimp only
  rw [if_pos]
  rw [filter_eq_nil_iff]
  intro payee mem votes
  exact none payee ⟨mem, of_decide_eq_true votes⟩

theorem isTransactionValid_iff (elects : block.Elects payee) :
    block.isTransactionValid p tx ↔ ∃ payee, block.Elects payee ∧ ∃ out ∈ tx.vout,
      payee.scriptPubKey = out.scriptPubKey ∧
        out.nValue.toInt = p.getMasternodePayment block.nBlockHeight.toInt.toNat := by
  unfold isTransactionValid
  dsimp only
  rw [if_neg]
  case hnc =>
    rw [filter_eq_nil_iff]
    intro none
    exact none payee elects.1 (decide_eq_true elects.2)
  simp only [any_eq_true, mem_filter, decide_eq_true_eq, pays, Bool.and_eq_true, beq_iff_eq]
  rfl

end CMasternodeBlockPayees

theorem CChainParams.toInt_getMasternodePayment (p : CChainParams) (nHeight : ℕ) :
    (Int64.ofInt (p.getMasternodePayment nHeight)).toInt = p.getMasternodePayment nHeight := by
  have bounds := p.getMasternodePayment_bounds nHeight
  have coin : COIN.toInt = 100000000 := rfl
  exact Int64.toInt_ofInt_of_le (by omega) (by omega)

namespace CFinalizedBudget

theorem due_of_window {budget : CFinalizedBudget} {nHeight : ℤ} (start : budget.getBlockStart ≤ nHeight)
    (stop : nHeight ≤ budget.getBlockEnd) : ∃ payment, budget.getBudgetPaymentByBlock nHeight = some payment := by
  have lt : (nHeight - budget.getBlockStart).toNat < budget.vecBudgetPayments.length := by
    unfold getBlockEnd at stop
    unfold getBlockStart at start ⊢
    omega
  refine ⟨budget.vecBudgetPayments[(nHeight - budget.getBlockStart).toNat], ?_⟩
  unfold getBudgetPaymentByBlock
  rw [if_neg (by omega), getElem?_eq_getElem lt]

end CFinalizedBudget

namespace BudgetManager

variable [CompactCrypto] {ctx : BudgetContext} {bm : BudgetManager} {nHeight : ℤ}

structure Pays (ctx : BudgetContext) (bm : BudgetManager) (nHeight : ℤ) (budget : CFinalizedBudget)
    (payment : CTxBudgetPayment) : Prop where
  highest : bm.getBudgetWithHighestVoteCount nHeight = some budget
  votes : budget.getVoteCount > bm.nCountThreshold ctx nHeight
  due : budget.getBudgetPaymentByBlock nHeight = some payment

theorem getBudgetWithHighestVoteCount_window {budget : CFinalizedBudget}
    (highest : bm.getBudgetWithHighestVoteCount nHeight = some budget) :
    budget.getBlockStart ≤ nHeight ∧ nHeight ≤ budget.getBlockEnd := by
  have scanned := Highest.foldl_scan (fun fbud => fbud.getBlockStart ≤ nHeight ∧ nHeight ≤ fbud.getBlockEnd)
    getVoteCount id (scanBudget nHeight)
    (fun acc fbud fits lt => if_pos (by simpa [fits] using lt))
    (fun acc fbud not => if_neg (by simpa [and_comm, and_assoc] using not)) bm.finalizedBudgets (0, none)
  rw [getBudgetWithHighestVoteCount] at highest
  cases scanned
  case inl none =>
    rw [none.1] at highest
    cases highest
  case inr some =>
    obtain ⟨fbud, ends, _⟩ := some
    rw [ends.found] at highest
    cases highest
    exact ends.fits

theorem nCountThreshold_lt : bm.nCountThreshold ctx nHeight < bm.getHighestVoteCount nHeight := by
  unfold nCountThreshold
  dsimp only
  split
  case isTrue => omega
  case isFalse => omega

theorem pays_of_isBudgetPaymentBlock (block : bm.isBudgetPaymentBlock ctx nHeight) :
    ∃ budget payment, bm.Pays ctx nHeight budget payment := by
  have count : bm.getHighestVoteCount nHeight > (ctx.countEnabled / 20 : ℕ) := of_decide_eq_true block
  have threshold : bm.nCountThreshold ctx nHeight < bm.getHighestVoteCount nHeight := nCountThreshold_lt
  rw [getHighestVoteCount] at count threshold
  cases highest : bm.getBudgetWithHighestVoteCount nHeight
  case none =>
    rw [highest, Option.elim_none] at count
    omega
  case some budget =>
    rw [highest] at threshold
    have ⟨start, stop⟩ := getBudgetWithHighestVoteCount_window highest
    have ⟨payment, due⟩ := due_of_window start stop
    exact ⟨budget, payment, highest, threshold, due⟩

variable {budget : CFinalizedBudget} {payment : CTxBudgetPayment}

section

variable (pays : bm.Pays ctx nHeight budget payment) (block : bm.isBudgetPaymentBlock ctx nHeight)

include pays block

theorem Pays.getPayeeAndAmount :
    bm.getPayeeAndAmount ctx nHeight = some (payment.payee, payment.nAmount) := by
  unfold BudgetManager.getPayeeAndAmount
  rw [if_neg (by simpa using block), pays.highest]
  simp only [CFinalizedBudget.getPayeeAndAmount, pays.due, Option.map_some, pays.votes, if_true]

theorem Pays.isTransactionValid {isOnChain : Uint256 → Bool} {tx : CTransaction} {nHash : Uint256}
    {history : PaymentHistory} :
    (bm.isTransactionValid ctx isOnChain tx nHash nHeight history).1 =
      if (budget.isTransactionValid isOnChain tx nHash nHeight history).1 = .Valid then .Valid else .InValid := by
  unfold BudgetManager.isTransactionValid
  rw [if_neg (by simpa using block), pays.highest]
  simp only [pays.votes, if_true]

end

end BudgetManager

namespace IsBlockPayeeValid

variable [Crypto] {node : Node} {block : CBlock} {nHeight : ℕ}

def txOf (node : Node) (nHeight : ℕ) (block : CBlock) : CTransaction :=
  block.vtx.getD (if node.consensus.networkUpgradeActive nHeight .ACTIVATE_POS then 1 else 0) {}

def PaysBudget (node : Node) (nHeight : ℕ) : Prop :=
  node.isSporkActive .SPORK_13_ENABLE_SUPERBLOCKS ∧ node.budgetman.isBudgetPaymentBlock nHeight

def PaysMasternode (node : Node) (nHeight : ℕ) (block : CBlock) : Prop :=
  node.masternodePayments.isTransactionValid (txOf node nHeight block) nHeight ∨
    ¬node.isSporkActive .SPORK_8_MASTERNODE_PAYMENT_ENFORCEMENT

theorem of_unsynced (unsynced : ¬node.isSynced) : isBlockPayeeValid node block nHeight := by
  unfold isBlockPayeeValid
  rw [if_pos (by simpa using unsynced)]

theorem of_budget (pays : PaysBudget node nHeight)
    (valid : node.budgetman.isTransactionValid (txOf node nHeight block) block.getHash nHeight = .Valid) :
    isBlockPayeeValid node block nHeight := by
  unfold isBlockPayeeValid
  rw [txOf] at valid
  simp only [pays.1, pays.2, Bool.and_self, if_true, valid]
  split <;> rfl

theorem without_budget (synced : node.isSynced) (pays : ¬PaysBudget node nHeight) :
    isBlockPayeeValid node block nHeight ↔ PaysMasternode node nHeight block := by
  unfold isBlockPayeeValid
  rw [if_neg (by simpa using synced), if_neg fun h => pays (Bool.and_eq_true_iff.mp h)]
  simp [PaysMasternode, txOf]

theorem with_invalid_budget (synced : node.isSynced) (pays : PaysBudget node nHeight)
    (invalid : node.budgetman.isTransactionValid (txOf node nHeight block) block.getHash nHeight = .InValid) :
    isBlockPayeeValid node block nHeight ↔
      ¬node.isSporkActive .SPORK_9_MASTERNODE_BUDGET_ENFORCEMENT ∧ PaysMasternode node nHeight block := by
  unfold isBlockPayeeValid
  rw [txOf] at invalid
  simp only [synced, pays.1, pays.2, Bool.and_self, if_true, invalid]
  simp [PaysMasternode, txOf]

end IsBlockPayeeValid

open IsBlockPayeeValid

namespace PayeeState

variable [CompactCrypto] (state : PayeeState) (nHeight : ℕ)

def isPoSActive : Bool :=
  state.ctx.params.consensus.networkUpgradeActive nHeight .ACTIVATE_POS

def PaysBudget : Prop :=
  state.isSporkActive .SPORK_13_ENABLE_SUPERBLOCKS ∧ state.budgetman.isBudgetPaymentBlock state.ctx nHeight

def Unpaid : Prop :=
  ∀ budget payment nPaid height, state.budgetman.getBudgetWithHighestVoteCount nHeight = some budget →
    budget.getBudgetPaymentByBlock nHeight = some payment →
    state.history.lookup payment.nProposalHash = some (nPaid, height) → state.isOnChain nPaid = false

def ElectsPayee : Prop :=
  ∃ block payee, state.payments.mapMasternodeBlocks.lookup (Int32.ofNat nHeight) = some block ∧ block.Elects payee

def Demands : Prop :=
  state.ctx.globals.isSynced ∧
    (state.PaysBudget nHeight ∧ state.isSporkActive .SPORK_9_MASTERNODE_BUDGET_ENFORCEMENT ∨
      state.isSporkActive .SPORK_8_MASTERNODE_PAYMENT_ENFORCEMENT ∧ state.ElectsPayee nHeight)

def Completes (block : CBlock) : Prop :=
  ∃ txNew, block.vtx.getD (if state.isPoSActive nHeight then 1 else 0) {} =
    state.fillBlockPayee txNew nHeight (state.isPoSActive nHeight)

variable {state nHeight} {node : Node} {block : CBlock}

variable {tx : CTransaction} {n : ℕ}

theorem isTransactionValid_of_not_electsPayee (none : ¬state.ElectsPayee nHeight) :
    state.payments.isTransactionValid state.ctx.params tx (Int32.ofNat nHeight) := by
  unfold MasternodePayments.isTransactionValid
  cases found : state.payments.mapMasternodeBlocks.lookup (Int32.ofNat nHeight)
  case none => rfl
  case some block =>
    apply isTransactionValid_of_not
    exact fun payee elects => none ⟨block, payee, found, elects⟩

theorem fillBlockPayee_budget (pays : state.PaysBudget (n + 1)) :
    ∃ budget payment, state.budgetman.Pays state.ctx (n + 1 : ℕ) budget payment ∧
      ∀ txNew, state.fillBlockPayee txNew (n + 1) true = txNew.appendOutput payment.payee payment.nAmount := by
  have ⟨budget, payment, due⟩ := pays_of_isBudgetPaymentBlock pays.2
  refine ⟨budget, payment, due, ?_⟩
  intro txNew
  rw [fillBlockPayee, if_neg (by simp), if_pos pays.1, BudgetManager.fillBlockPayee, if_neg (Nat.succ_ne_zero n),
    due.getPayeeAndAmount pays.2]
  rfl

theorem fillBlockPayee_masternode (pays : ¬state.PaysBudget (n + 1)) (txNew : CTransaction) :
    state.fillBlockPayee txNew (n + 1) true = state.payments.fillBlockPayee state.ctx txNew (n + 1) true := by
  unfold fillBlockPayee
  rw [if_neg (by simp)]
  dsimp only
  split
  case isFalse => rfl
  case isTrue superblocks =>
    have not : ¬state.budgetman.isBudgetPaymentBlock state.ctx (n + 1 : ℕ) := fun block => pays ⟨superblocks, block⟩
    have unpaid : state.budgetman.getPayeeAndAmount state.ctx (n + 1 : ℕ) = none := by
      unfold BudgetManager.getPayeeAndAmount
      rw [if_pos (by simpa using not)]
    rw [BudgetManager.fillBlockPayee, if_neg (Nat.succ_ne_zero n), unpaid]
    rfl

theorem fillBlockPayee_elected {block : CMasternodeBlockPayees} {payee : CMasternodePayee}
    (found : state.payments.mapMasternodeBlocks.lookup (Int32.ofNat (n + 1)) = some block)
    (elects : block.Elects payee) :
    ∃ payee, block.Elects payee ∧ ∀ txNew, state.payments.fillBlockPayee state.ctx txNew (n + 1) true =
      txNew.appendOutput payee.scriptPubKey (Int64.ofInt (state.ctx.params.getMasternodePayment (n + 1))) := by
  have ⟨payee, elects, getPayee⟩ := elects.getPayee
  have payeeAt : state.payments.payeeAt state.ctx (n + 1) = some payee.scriptPubKey := by
    rw [MasternodePayments.payeeAt, MasternodePayments.getBlockPayee, found, Option.bind_some, getPayee]
  refine ⟨payee, elects, ?_⟩
  intro txNew
  rw [MasternodePayments.fillBlockPayee, if_neg (Nat.succ_ne_zero n), payeeAt]
  rfl

theorem isTransactionValid_fillBlockPayee (small : n + 1 < 2 ^ 31) (txNew : CTransaction) :
    state.payments.isTransactionValid state.ctx.params (state.payments.fillBlockPayee state.ctx txNew (n + 1) true)
      (Int32.ofNat (n + 1)) := by
  by_cases elected : state.ElectsPayee (n + 1)
  case neg => exact isTransactionValid_of_not_electsPayee elected
  case pos =>
    have ⟨block, payee, found, elects⟩ := elected
    have ⟨payee', elects', fill⟩ := fillBlockPayee_elected found elects
    have height : block.nBlockHeight.toInt.toNat = n + 1 := by
      rw [state.payments.keyed _ block found, Int32.toInt_ofNat_of_lt small]
      rfl
    rw [MasternodePayments.isTransactionValid, found]
    dsimp only
    rw [isTransactionValid_iff elects]
    refine ⟨payee', elects', ⟨Int64.ofInt (state.ctx.params.getMasternodePayment (n + 1)), payee'.scriptPubKey⟩,
      ?_, rfl, ?_⟩
    case refine_1 =>
      rw [fill txNew]
      exact mem_append_right _ (mem_singleton_self _)
    case refine_2 => rw [height, CChainParams.toInt_getMasternodePayment]

theorem valid_of_unsynced (unsynced : ¬state.ctx.globals.isSynced) :
    isBlockPayeeValid (state.node node) block nHeight :=
  of_unsynced unsynced

theorem valid_of_budget (pays : state.PaysBudget nHeight)
    (valid : (state.budgetman.isTransactionValid state.ctx state.isOnChain
      (txOf (state.node node) nHeight block) block.getHash nHeight state.history).1 = .Valid) :
    isBlockPayeeValid (state.node node) block nHeight :=
  of_budget pays valid

theorem valid_iff_masternode (synced : state.ctx.globals.isSynced) (pays : ¬state.PaysBudget nHeight) :
    isBlockPayeeValid (state.node node) block nHeight ↔
      PaysMasternode (state.node node) nHeight block :=
  without_budget synced pays

theorem valid_iff_of_invalid (synced : state.ctx.globals.isSynced) (pays : state.PaysBudget nHeight)
    (invalid : (state.budgetman.isTransactionValid state.ctx state.isOnChain
      (txOf (state.node node) nHeight block) block.getHash nHeight state.history).1 = .InValid) :
    isBlockPayeeValid (state.node node) block nHeight ↔
      ¬state.isSporkActive .SPORK_9_MASTERNODE_BUDGET_ENFORCEMENT ∧
        PaysMasternode (state.node node) nHeight block :=
  with_invalid_budget synced pays invalid

theorem isTransactionValid_eq (pays : state.PaysBudget nHeight) {nHash : Uint256} :
    (state.budgetman.isTransactionValid state.ctx state.isOnChain tx nHash nHeight state.history).1 = .Valid ∨
      (state.budgetman.isTransactionValid state.ctx state.isOnChain tx nHash nHeight state.history).1 = .InValid := by
  have ⟨budget, payment, due⟩ := pays_of_isBudgetPaymentBlock pays.2
  rw [due.isTransactionValid pays.2]
  split
  case isTrue => exact .inl rfl
  case isFalse => exact .inr rfl

theorem valid_of_not_demands (demands : ¬state.Demands nHeight) : isBlockPayeeValid (state.node node) block nHeight := by
  by_cases synced : state.ctx.globals.isSynced
  case neg => exact valid_of_unsynced synced
  have masternode : PaysMasternode (state.node node) nHeight block := by
    by_cases elected : state.ElectsPayee nHeight
    case neg => exact .inl (isTransactionValid_of_not_electsPayee elected)
    case pos => exact .inr fun enforced => demands ⟨synced, .inr ⟨enforced, elected⟩⟩
  by_cases pays : state.PaysBudget nHeight
  case neg => exact (valid_iff_masternode synced pays).mpr masternode
  case pos =>
    cases isTransactionValid_eq pays
    case inl valid => exact valid_of_budget pays valid
    case inr invalid =>
      apply (valid_iff_of_invalid synced pays invalid).mpr
      exact ⟨fun enforced => demands ⟨synced, .inl ⟨pays, enforced⟩⟩, masternode⟩

theorem valid_of_isPoSActive (small : n + 1 < 2 ^ 31) (unpaid : state.PaysBudget (n + 1) → state.Unpaid (n + 1))
    (active : state.isPoSActive (n + 1)) (completes : state.Completes (n + 1) block) :
    isBlockPayeeValid (state.node node) block (n + 1) := by
  have ⟨txNew, complete⟩ := completes
  have tx : txOf (state.node node) (n + 1) block = state.fillBlockPayee txNew (n + 1) true :=
    active ▸ complete
  by_cases synced : state.ctx.globals.isSynced
  case neg => exact valid_of_unsynced synced
  by_cases pays : state.PaysBudget (n + 1)
  case pos =>
    have ⟨budget, payment, due, fill⟩ := fillBlockPayee_budget pays
    apply valid_of_budget pays
    rw [tx, fill, due.isTransactionValid pays.2, if_pos]
    apply isTransactionValid_unpaid due.due
    case unpaid => exact fun nPaid height => unpaid pays budget payment nPaid height due.highest due.due
    case pays => simp [CTransaction.appendOutput]
  case neg =>
    apply (valid_iff_masternode synced pays).mpr
    refine .inl ?_
    rw [tx, fillBlockPayee_masternode pays]
    exact isTransactionValid_fillBlockPayee small txNew

def idleBlock : CBlock :=
  { vtx := [{}] }

theorem completes_idleBlock (inactive : ¬state.isPoSActive nHeight) : state.Completes nHeight idleBlock := by
  have same : state.fillBlockPayee {} nHeight false = {} := by rw [fillBlockPayee, if_pos (by simp)]
  refine ⟨{}, ?_⟩
  rw [Bool.not_eq_true] at inactive
  rw [inactive, same]
  rfl

theorem txOf_idleBlock : txOf (state.node node) nHeight idleBlock = {} := by
  rw [txOf]
  split <;> rfl

theorem invalid_idleBlock (pays : state.PaysBudget nHeight) :
    (state.budgetman.isTransactionValid state.ctx state.isOnChain
      (txOf (state.node node) nHeight idleBlock) idleBlock.getHash nHeight state.history).1 =
      .InValid := by
  have ⟨budget, payment, due⟩ := pays_of_isBudgetPaymentBlock pays.2
  rw [due.isTransactionValid pays.2, if_neg]
  rw [txOf_idleBlock, isTransactionValid_due due.due]
  dsimp only
  split
  case isTrue => simp
  case isFalse => simp

theorem not_paysMasternode_idleBlock (enforced : state.isSporkActive .SPORK_8_MASTERNODE_PAYMENT_ENFORCEMENT)
    (elected : state.ElectsPayee nHeight) : ¬PaysMasternode (state.node node) nHeight idleBlock := by
  rintro (valid | off)
  case inr => exact off enforced
  case inl =>
    have ⟨block, payee, found, elects⟩ := elected
    rw [txOf_idleBlock] at valid
    have valid : state.payments.isTransactionValid state.ctx.params {} (Int32.ofNat nHeight) := valid
    rw [MasternodePayments.isTransactionValid, found] at valid
    have ⟨_, _, out, mem, _⟩ := (isTransactionValid_iff elects).mp valid
    cases mem

theorem not_valid_idleBlock (demands : state.Demands nHeight) :
    ¬isBlockPayeeValid (state.node node) idleBlock nHeight := by
  intro valid
  have ⟨synced, insists⟩ := demands
  by_cases pays : state.PaysBudget nHeight
  case pos =>
    have ⟨off, masternode⟩ := (valid_iff_of_invalid synced pays (invalid_idleBlock pays)).mp valid
    cases insists
    case inl budget => exact off budget.2
    case inr elected => exact not_paysMasternode_idleBlock elected.1 elected.2 masternode
  case neg =>
    have masternode := (valid_iff_masternode synced pays).mp valid
    cases insists
    case inl budget => exact pays budget.1
    case inr elected => exact not_paysMasternode_idleBlock elected.1 elected.2 masternode

-- `FillBlockPayee` leaves every coinbase without the payment, which the check looks for there too.
theorem fillBlockPayee_accepted_iff (state : PayeeState) (small : n + 1 < 2 ^ 31)
    (unpaid : state.PaysBudget (n + 1) → state.Unpaid (n + 1)) :
    (∀ node block, state.Completes (n + 1) block → isBlockPayeeValid (state.node node) block (n + 1)) ↔
      state.isPoSActive (n + 1) ∨ ¬state.Demands (n + 1) := by
  constructor
  case mp =>
    intro accepted
    by_contra neither
    rw [not_or, not_not] at neither
    exact not_valid_idleBlock neither.2 (accepted (Node.start state.ctx.params) idleBlock (completes_idleBlock neither.1))
  case mpr =>
    rintro (active | lenient) node block completes
    case inl => exact valid_of_isPoSActive small unpaid active completes
    case inr => exact valid_of_not_demands lenient

end PayeeState

section

attribute [local instance] CompactCrypto.toy

def sixVotes (nBlockHeight : Int32) (payee : CScript) : MasternodePayments :=
  [⟨1, 0⟩, ⟨2, 0⟩, ⟨3, 0⟩, ⟨4, 0⟩, ⟨5, 0⟩, ⟨6, 0⟩].foldl
    (fun payments prevout => payments.countVote { vinMasternode := { prevout }, nBlockHeight, payee }) {}

def electingState (nHeight : Int32) : PayeeState where
  ctx := { soloContext with
    globals := { soloGlobals with isSporkActive := (· = .SPORK_8_MASTERNODE_PAYMENT_ENFORCEMENT) } }
  payments := sixVotes nHeight [1]

theorem fillBlockPayee_accepted_staked :
    (electingState 50000).ElectsPayee 50000 ∧ ∀ node block, (electingState 50000).Completes 50000 block →
      isBlockPayeeValid ((electingState 50000).node node) block 50000 := by
  constructor
  case left =>
    refine ⟨{ nBlockHeight := 50000, vecPayments := [⟨[1], 6⟩] }, ⟨[1], 6⟩, by decide, ?_⟩
    exact ⟨by decide, by decide⟩
  case right =>
    have accepted := PayeeState.fillBlockPayee_accepted_iff (electingState 50000) (show 49999 + 1 < 2 ^ 31 by decide)
      fun pays => absurd pays.1 (by decide)
    exact accepted.mpr (.inl (by decide))

def minerCoinbase : CTransaction where
  vin := [{ prevout := .null }]
  vout := [⟨Int64.ofInt (CChainParams.main.getBlockValue 150), [2]⟩]

theorem fillBlockPayee_coinbase_refused :
    (electingState 150).fillBlockPayee minerCoinbase 150 ((electingState 150).isPoSActive 150) = minerCoinbase ∧
      (electingState 150).Completes 150 { vtx := [minerCoinbase] } ∧
      ¬isBlockPayeeValid ((electingState 150).node (Node.start .main)) { vtx := [minerCoinbase] } 150 := by
  refine ⟨by decide, ⟨minerCoinbase, by decide⟩, by decide⟩

end

end Qrax
