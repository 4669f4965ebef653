import Qrax.Budget.FinalizedBudget

open KeyedUpdate List

namespace Qrax

open CFinalizedBudget

namespace CFinalizedBudget

variable {budget : CFinalizedBudget} {isOnChain : Uint256 → Bool} {tx : CTransaction} {nHash nPaid : Uint256}
  {nHeight : ℤ} {history : PaymentHistory}

def Schedules (budget : CFinalizedBudget) (nProposalHash : Uint256) (nHeight : ℤ) : Prop :=
  ∃ payment, budget.getBudgetPaymentByBlock nHeight = some payment ∧ payment.nProposalHash = nProposalHash

variable {nProposalHash : Uint256} {paid : Uint256 × ℤ} {payment : CTxBudgetPayment}

theorem lookup_of_forget
    (found : (budget.forget history).lookup nProposalHash = some paid) : history.lookup nProposalHash = some paid := by
  unfold forget at found
  rw [lookup_foldl_erase] at found
  split at found
  case isTrue => cases found
  case isFalse => exact found

theorem lookup_of_isPaidAlready {nProposalHash nProposalHash' : Uint256}
    (found : (budget.isPaidAlready isOnChain nProposalHash nHash nHeight history).2.lookup nProposalHash' = some paid) :
    history.lookup nProposalHash' = some paid ∨ nProposalHash' = nProposalHash ∧ paid = (nHash, nHeight) := by
  unfold isPaidAlready at found
  dsimp only at found
  split at found
  case h_1 =>
    rw [lookup_insert] at found
    split at found
    case isTrue eq =>
      cases found
      exact .inr ⟨eq, rfl⟩
    case isFalse => exact .inl (lookup_of_forget found)
  case h_2 => exact .inl (lookup_of_forget found)

theorem of_isPaidAlready (paid : (budget.isPaidAlready isOnChain nProposalHash nHash nHeight history).1) :
    ∃ nPaidBlockHash nPaidHeight, history.lookup nProposalHash = some (nPaidBlockHash, nPaidHeight) ∧
      isOnChain nPaidBlockHash := by
  unfold isPaidAlready at paid
  dsimp only at paid
  split at paid
  case h_1 => cases paid
  case h_2 nPaidBlockHash nPaidHeight found =>
    exact ⟨nPaidBlockHash, nPaidHeight, lookup_of_forget found, (Bool.and_eq_true_iff.mp paid).2⟩

theorem window_of_due (due : budget.getBudgetPaymentByBlock nHeight = some payment) :
    budget.getBlockStart ≤ nHeight ∧ nHeight ≤ budget.getBlockEnd := by
  unfold getBudgetPaymentByBlock at due
  dsimp only at due
  split at due
  case isTrue => cases due
  case isFalse nonneg =>
    have ⟨lt, _⟩ := List.getElem?_eq_some_iff.mp due
    unfold getBlockEnd
    unfold getBlockStart at lt nonneg ⊢
    omega

theorem isTransactionValid_due (due : budget.getBudgetPaymentByBlock nHeight = some payment) :
    budget.isTransactionValid isOnChain tx nHash nHeight history =
      let (paid, history) := budget.isPaidAlready isOnChain payment.nProposalHash nHash nHeight history
      if paid then (.DoublePayment, history)
      else if tx.vout.any fun out => payment.payee == out.scriptPubKey && payment.nAmount == out.nValue then
        (.Valid, history)
      else (.InValid, history) := by
  have ⟨start, stop⟩ := window_of_due due
  unfold isTransactionValid
  rw [if_neg (not_lt.mpr stop), if_neg (not_lt.mpr start), due]

theorem isTransactionValid_undue (undue : budget.getBudgetPaymentByBlock nHeight = none) :
    budget.isTransactionValid isOnChain tx nHash nHeight history = (.InValid, history) := by
  unfold isTransactionValid
  rw [undue]
  split
  case isTrue => rfl
  case isFalse => split <;> rfl

theorem history_isTransactionValid (due : budget.getBudgetPaymentByBlock nHeight = some payment) :
    (budget.isTransactionValid isOnChain tx nHash nHeight history).2 =
      (budget.isPaidAlready isOnChain payment.nProposalHash nHash nHeight history).2 := by
  rw [isTransactionValid_due due]
  dsimp only
  split
  case isTrue => rfl
  case isFalse => split <;> rfl

theorem of_isTransactionValid_double
    (double : (budget.isTransactionValid isOnChain tx nHash nHeight history).1 = .DoublePayment) :
    ∃ nProposalHash, budget.Schedules nProposalHash nHeight ∧ ∃ nPaidBlockHash nPaidHeight,
      history.lookup nProposalHash = some (nPaidBlockHash, nPaidHeight) ∧ isOnChain nPaidBlockHash := by
  cases due : budget.getBudgetPaymentByBlock nHeight
  case none =>
    rw [isTransactionValid_undue due] at double
    cases double
  case some payment =>
    rw [isTransactionValid_due due] at double
    dsimp only at double
    split at double
    case isTrue paid => exact ⟨payment.nProposalHash, ⟨payment, due, rfl⟩, of_isPaidAlready paid⟩
    case isFalse => split at double <;> cases double

theorem lookup_of_isTransactionValid
    (found : (budget.isTransactionValid isOnChain tx nHash nHeight history).2.lookup nProposalHash = some paid) :
    history.lookup nProposalHash = some paid ∨ budget.Schedules nProposalHash nHeight ∧ paid = (nHash, nHeight) := by
  cases due : budget.getBudgetPaymentByBlock nHeight
  case none =>
    rw [isTransactionValid_undue due] at found
    exact .inl found
  case some payment =>
    rw [history_isTransactionValid due] at found
    refine (lookup_of_isPaidAlready found).imp_right fun ⟨eq, paid⟩ => ?_
    exact ⟨⟨payment, due, eq.symm⟩, paid⟩

theorem isTransactionValid_unpaid (due : budget.getBudgetPaymentByBlock nHeight = some payment)
    (unpaid : ∀ nPaid height, history.lookup payment.nProposalHash = some (nPaid, height) → isOnChain nPaid = false)
    (pays : tx.vout.any fun out => payment.payee == out.scriptPubKey && payment.nAmount == out.nValue) :
    (budget.isTransactionValid isOnChain tx nHash nHeight history).1 = .Valid := by
  have free : ¬(budget.isPaidAlready isOnChain payment.nProposalHash nHash nHeight history).1 := by
    intro paid
    have ⟨nPaid, height, found, onChain⟩ := of_isPaidAlready paid
    rw [unpaid nPaid height found] at onChain
    cases onChain
  rw [isTransactionValid_due due]
  dsimp only
  rw [if_neg free, if_pos pays]

section

variable (found : history.lookup nProposalHash = some paid) (start : budget.getBlockStart ≤ paid.2)
  (stop : paid.2 ≤ budget.getBlockEnd)

include found start stop

theorem lookup_forget :
    (budget.forget history).lookup nProposalHash = some paid := by
  unfold forget
  rw [lookup_foldl_erase, if_neg, found]
  intro old
  have ⟨e, mem, eq⟩ := mem_map.mp old
  have ⟨mem, outside⟩ := mem_filter.mp mem
  subst eq
  rw [← AList.mem_lookup_iff] at mem
  cases found.symm.trans mem
  simp only [Bool.or_eq_true, decide_eq_true_eq] at outside
  omega

theorem lookup_isTransactionValid :
    (budget.isTransactionValid isOnChain tx nHash nHeight history).2.lookup nProposalHash = some paid := by
  cases due : budget.getBudgetPaymentByBlock nHeight
  case none =>
    rw [isTransactionValid_undue due]
    exact found
  case some payment =>
    have kept := lookup_forget found start stop
    rw [history_isTransactionValid due]
    unfold isPaidAlready
    dsimp only
    split
    case h_1 absent =>
      have ne : nProposalHash ≠ payment.nProposalHash := by
        intro eq
        cases (eq ▸ absent).symm.trans kept
      exact (AList.lookup_insert_ne ne).trans kept
    case h_2 => exact kept

end

theorem noted_isTransactionValid (due : budget.getBudgetPaymentByBlock nHeight = some payment) :
    (budget.isTransactionValid isOnChain tx nHash nHeight ∅).2.lookup payment.nProposalHash = some (nHash, nHeight) := by
  rw [history_isTransactionValid due]
  exact AList.lookup_insert _

end CFinalizedBudget

structure JudgedBlock where
  hash : Uint256
  height : ℤ
  coinstake : CTransaction
  budget : CFinalizedBudget
  status : TrxValidationStatus

def JudgedBlock.Pays (block : JudgedBlock) (nProposalHash : Uint256) : Prop :=
  ∃ payment, block.budget.getBudgetPaymentByBlock block.height = some payment ∧
    payment.nProposalHash = nProposalHash ∧
    ∃ out ∈ block.coinstake.vout, payment.payee = out.scriptPubKey ∧ payment.nAmount = out.nValue

-- A block on top of the tip is checked against the budget with the most votes then, and rejected or connected.
inductive WindowEvent
  | offer (budget : CFinalizedBudget) (hash : Uint256) (coinstake : CTransaction) (connects : Bool)
  | disconnect

-- The blocks above height `base`, from the tip down, and the payment history.
structure WindowRun where
  chain : List JudgedBlock := []
  history : PaymentHistory := ∅

namespace WindowRun

-- A block has a height of its own, from its predecessors.
variable (base : ℤ) (heightOf : Uint256 → ℤ)

def tipHeight (r : WindowRun) : ℤ :=
  base + r.chain.length

def isOnChain (r : WindowRun) (hash : Uint256) : Bool :=
  r.chain.any (·.hash = hash)

def step (r : WindowRun) : WindowEvent → WindowRun
  | .disconnect => { r with chain := r.chain.tail }
  | .offer budget hash coinstake connects =>
    let height := r.tipHeight base + 1
    if heightOf hash ≠ height then r
    else
      let (status, history) := budget.isTransactionValid r.isOnChain coinstake hash height r.history
      { chain := if connects then { hash, height, coinstake, budget, status } :: r.chain else r.chain, history }

def run (events : List WindowEvent) : WindowRun :=
  events.foldl (step base heightOf) {}

end WindowRun

def WindowEvent.By (B : CFinalizedBudget → Prop) : WindowEvent → Prop
  | offer budget _ _ _ => B budget
  | disconnect => True

structure SoundChain (chain : List JudgedBlock) : Prop where
  double : ∀ above block below, chain = above ++ block :: below → block.status = .DoublePayment →
    ∀ nProposalHash, block.Pays nProposalHash → ∃ earlier ∈ below, JudgedBlock.Pays earlier nProposalHash
  once : chain.Pairwise fun block earlier => ∀ nProposalHash, block.Pays nProposalHash →
    earlier.Pays nProposalHash → ¬(block.status = .Valid ∧ earlier.status = .Valid)

def Aligned (B : CFinalizedBudget → Prop) : Prop :=
  ∀ budget budget' nProposalHash height height', B budget → B budget' → budget.Schedules nProposalHash height →
    budget'.Schedules nProposalHash height' → height = height'

namespace WindowRun

variable {B : CFinalizedBudget → Prop} {base : ℤ} {heightOf : Uint256 → ℤ} {r : WindowRun}

structure Settled (B : CFinalizedBudget → Prop) (base : ℤ) (heightOf : Uint256 → ℤ) (r : WindowRun) : Prop where
  byBudget : ∀ block ∈ r.chain, B block.budget
  indexed : ∀ block ∈ r.chain, heightOf block.hash = block.height
  below : ∀ block ∈ r.chain, block.height ≤ r.tipHeight base
  ordered : r.chain.Pairwise fun block earlier => earlier.height < block.height
  noted : ∀ nProposalHash hash height, r.history.lookup nProposalHash = some (hash, height) →
    heightOf hash = height ∧ ∃ budget, B budget ∧ budget.Schedules nProposalHash height
  single : ∀ block ∈ r.chain, block.status ≠ .DoublePayment

theorem Settled.sound (settled : Settled B base heightOf r) (aligned : Aligned B) : SoundChain r.chain where
  double above block below eq double := by
    have mem : block ∈ r.chain := eq ▸ mem_append_right above mem_cons_self
    exact absurd double (settled.single block mem)
  once := by
    apply settled.ordered.imp_of_mem
    intro block earlier mem mem' lt nProposalHash ⟨payment, due, same, _⟩ ⟨payment', due', same', _⟩
    have eq := aligned block.budget earlier.budget nProposalHash _ _ (settled.byBudget block mem)
      (settled.byBudget earlier mem') ⟨payment, due, same⟩ ⟨payment', due', same'⟩
    exact absurd eq lt.ne'

theorem Settled.start : Settled B base heightOf {} where
  byBudget _ mem := nomatch mem
  indexed _ mem := nomatch mem
  below _ mem := nomatch mem
  ordered := .nil
  noted _ _ _ found := nomatch found
  single _ mem := nomatch mem

theorem Settled.disconnect (settled : Settled B base heightOf r) :
    Settled B base heightOf (r.step base heightOf .disconnect) := by
  have kept {block : JudgedBlock} (mem : block ∈ r.chain.tail) : block ∈ r.chain := mem_of_mem_tail mem
  constructor
  case byBudget => exact fun block mem => settled.byBudget block (kept mem)
  case indexed => exact fun block mem => settled.indexed block (kept mem)
  case ordered => exact settled.ordered.tail
  case noted => exact settled.noted
  case single => exact fun block mem => settled.single block (kept mem)
  case below =>
    intro block mem
    cases chain : r.chain
    case nil =>
      rw [step, chain] at mem
      cases mem
    case cons tip rest =>
      simp only [step, chain, tail_cons] at mem
      have lt : block.height < tip.height := by
        have ordered := settled.ordered
        rw [chain] at ordered
        exact rel_of_pairwise_cons ordered mem
      have le := settled.below tip (chain ▸ mem_cons_self)
      simp only [tipHeight, step, chain, tail_cons, length_cons] at le ⊢
      omega

variable {budget : CFinalizedBudget} {hash : Uint256} {tx : CTransaction}

theorem Settled.judged (settled : Settled B base heightOf r) (aligned : Aligned B)
    (byBudget : B budget) :
    (budget.isTransactionValid r.isOnChain tx hash (r.tipHeight base + 1) r.history).1 ≠ .DoublePayment := by
  intro double
  have ⟨nProposalHash, due, nPaidBlockHash, nPaidHeight, found, onChain⟩ :=
    of_isTransactionValid_double double
  have ⟨indexed, budget', byBudget', due'⟩ := settled.noted nProposalHash nPaidBlockHash nPaidHeight found
  have same := aligned budget budget' nProposalHash _ _ byBudget byBudget' due due'
  have ⟨block, mem, eq⟩ := any_eq_true.mp onChain
  have height := settled.indexed block mem
  have le := settled.below block mem
  rw [of_decide_eq_true eq] at height
  omega

theorem Settled.offer (settled : Settled B base heightOf r) (aligned : Aligned B)
    {connects : Bool} (byBudget : B budget) :
    Settled B base heightOf (r.step base heightOf (.offer budget hash tx connects)) := by
  unfold step
  dsimp only
  split
  case isTrue => exact settled
  case isFalse indexed =>
    have noted (nProposalHash hash' : Uint256) (height : ℤ)
        (found : (budget.isTransactionValid r.isOnChain tx hash (r.tipHeight base + 1) r.history).2.lookup nProposalHash =
          some (hash', height)) :
        heightOf hash' = height ∧ ∃ budget, B budget ∧ budget.Schedules nProposalHash height := by
      cases lookup_of_isTransactionValid found
      case inl found => exact settled.noted nProposalHash hash' height found
      case inr new =>
        have ⟨due, eq⟩ := new
        cases eq
        exact ⟨not_not.mp indexed, budget, byBudget, due⟩
    cases connects
    case false => exact { settled with noted := noted }
    case true =>
      constructor
      case byBudget => exact forall_mem_cons.mpr ⟨byBudget, settled.byBudget⟩
      case indexed => exact forall_mem_cons.mpr ⟨not_not.mp indexed, settled.indexed⟩
      case single => exact forall_mem_cons.mpr ⟨settled.judged aligned byBudget, settled.single⟩
      case noted => exact noted
      case ordered =>
        refine pairwise_cons.mpr ⟨fun earlier mem => ?_, settled.ordered⟩
        exact Int.lt_add_one_of_le (settled.below earlier mem)
      case below =>
        intro block mem
        have le : block.height ≤ r.tipHeight base + 1 := by
          cases mem
          case head => exact Int.le_refl _
          case tail mem => exact (settled.below block mem).trans (Int.le_add_one (Int.le_refl _))
        simp only [tipHeight, if_true, length_cons] at le ⊢
        omega

theorem Settled.run {events : List WindowEvent} (aligned : Aligned B) (by' : ∀ event ∈ events, event.By B) :
    Settled B base heightOf (WindowRun.run base heightOf events) := by
  have fold (r : WindowRun) (settled : Settled B base heightOf r) :
      Settled B base heightOf (events.foldl (step base heightOf) r) := by
    induction events generalizing r
    case nil => exact settled
    case cons event events ih =>
      have ⟨here, by'⟩ := forall_mem_cons.mp by'
      apply ih by'
      cases event
      case offer => exact settled.offer aligned here
      case disconnect => exact settled.disconnect
  exact fold {} .start

section

def paying (payment : CTxBudgetPayment) : CTransaction where
  vin := []
  vout := [⟨payment.nAmount, payment.payee⟩]

def idle : CTransaction where
  vin := []
  vout := []

def heightFrom (h : ℤ) (hash : Uint256) : ℤ :=
  h + (hash.toNat - 1 : ℕ)

theorem heightFrom_ofNat {h : ℤ} {m : ℕ} (small : m + 1 < 2 ^ 256) :
    heightFrom h (BitVec.ofNat 256 (m + 1)) = h + m := by
  rw [heightFrom, BitVec.toNat_ofNat, Nat.mod_eq_of_lt small, Nat.add_sub_cancel]

variable {budget budget' : CFinalizedBudget} {payment payment' : CTxBudgetPayment} {hash : Uint256} {tx : CTransaction}
  {h h' : ℤ} {m : ℕ}

theorem step_offer {connects : Bool} {height : ℤ} (tip : r.tipHeight base + 1 = height)
    (indexed : heightOf hash = height) :
    r.step base heightOf (.offer budget hash tx connects) =
      { chain :=
          if connects then
            ⟨hash, height, tx, budget, (budget.isTransactionValid r.isOnChain tx hash height r.history).1⟩ :: r.chain
          else r.chain
        history := (budget.isTransactionValid r.isOnChain tx hash height r.history).2 } := by
  unfold step
  dsimp only
  rw [tip, if_neg (not_not.mpr indexed)]

-- The proposal is paid, but noted for a block off the chain.
structure Doubling (nProposalHash : Uint256) (h : ℤ) (m : ℕ) (r : WindowRun) : Prop where
  length : r.chain.length = m + 1
  absent : ∀ block ∈ r.chain, block.hash ≠ 0
  noted : r.history.lookup nProposalHash = some (0, h)
  paid : ∃ block ∈ r.chain, JudgedBlock.Pays block nProposalHash ∧ block.status = .Valid

theorem pays_paying {status : TrxValidationStatus} (due : budget.getBudgetPaymentByBlock h = some payment) :
    JudgedBlock.Pays ⟨hash, h, paying payment, budget, status⟩ payment.nProposalHash :=
  ⟨payment, due, rfl, _, mem_singleton.mpr rfl, rfl, rfl⟩

theorem judged_paying {nProposalHash : Uint256} (due : budget.getBudgetPaymentByBlock h' = some payment)
    (same : payment.nProposalHash = nProposalHash) (absent : ∀ block ∈ r.chain, block.hash ≠ 0)
    (noted : r.history.lookup nProposalHash = some (0, h)) :
    (budget.isTransactionValid r.isOnChain (paying payment) hash h' r.history).1 = .Valid := by
  apply isTransactionValid_unpaid due
  case unpaid =>
    intro nPaid height found
    rw [same, noted] at found
    cases found
    rw [isOnChain, any_eq_false]
    exact fun block mem eq => absent block mem (of_decide_eq_true eq)
  case pays => simp [paying]

theorem doubling_start (due : budget.getBudgetPaymentByBlock h = some payment) :
    Doubling payment.nProposalHash h 0
      (run (h - 1) (heightFrom h) [.offer budget 0 idle false, .offer budget 1 (paying payment) true]) := by
  have ⟨start, stop⟩ := window_of_due due
  have tip (history : PaymentHistory) : tipHeight (h - 1) { history } + 1 = h := by simp [tipHeight]
  have first : step (h - 1) (heightFrom h) {} (.offer budget 0 WindowRun.idle false) =
      { history := (budget.isTransactionValid _ WindowRun.idle 0 h ∅).2 } :=
    step_offer (tip ∅) (by simp [heightFrom])
  have noted : (budget.isTransactionValid (isOnChain {}) WindowRun.idle 0 h ∅).2.lookup payment.nProposalHash =
      some (0, h) :=
    noted_isTransactionValid due
  rw [run, foldl_cons, foldl_cons, foldl_nil, first, step_offer (tip _) (by simp [heightFrom])]
  constructor
  case length => rfl
  case absent =>
    intro block mem
    rw [mem_singleton.mp mem]
    exact (by decide : (1 : Uint256) ≠ 0)
  case noted => exact lookup_isTransactionValid noted start stop
  case paid =>
    refine ⟨_, mem_singleton.mpr rfl, pays_paying due, ?_⟩
    exact judged_paying due rfl (fun _ mem => nomatch mem) noted

theorem Doubling.tip (doubling : Doubling payment.nProposalHash h m r) : r.tipHeight (h - 1) + 1 = h + (m + 1 : ℕ) := by
  rw [tipHeight, doubling.length]
  omega

theorem Doubling.idle (doubling : Doubling payment.nProposalHash h m r)
    (due : budget.getBudgetPaymentByBlock h = some payment) (small : m + 2 < 2 ^ 256) :
    Doubling payment.nProposalHash h (m + 1)
      (r.step (h - 1) (heightFrom h) (.offer budget (BitVec.ofNat 256 (m + 2)) WindowRun.idle true)) := by
  have ⟨start, stop⟩ := window_of_due due
  rw [step_offer doubling.tip (heightFrom_ofNat small)]
  constructor
  case length => rw [if_pos rfl, length_cons, doubling.length]
  case noted => exact lookup_isTransactionValid doubling.noted start stop
  case absent =>
    refine forall_mem_cons.mpr ⟨fun eq => ?_, doubling.absent⟩
    have zero := congrArg BitVec.toNat eq
    rw [BitVec.toNat_ofNat, Nat.mod_eq_of_lt small] at zero
    cases zero
  case paid =>
    have ⟨block, mem, paid⟩ := doubling.paid
    exact ⟨block, mem_cons_of_mem _ mem, paid⟩

def doublingEvents (budget : CFinalizedBudget) (payment : CTxBudgetPayment) : ℕ → List WindowEvent
  | 0 => [.offer budget 0 idle false, .offer budget 1 (paying payment) true]
  | m + 1 => doublingEvents budget payment m ++ [.offer budget (BitVec.ofNat 256 (m + 2)) idle true]

theorem run_append {events : List WindowEvent} {event : WindowEvent} :
    run base heightOf (events ++ [event]) = (run base heightOf events).step base heightOf event := by
  rw [run, foldl_append]
  rfl

theorem doubling_run (due : budget.getBudgetPaymentByBlock h = some payment) (small : m + 1 < 2 ^ 256) :
    Doubling payment.nProposalHash h m (run (h - 1) (heightFrom h) (doublingEvents budget payment m)) := by
  induction m
  case zero => exact doubling_start due
  case succ m ih =>
    rw [doublingEvents, run_append]
    exact (ih (by omega)).idle due small

theorem by_doublingEvents (byBudget : B budget) : ∀ event ∈ doublingEvents budget payment m, event.By B := by
  induction m
  case zero =>
    intro event mem
    simp only [doublingEvents, mem_cons, not_mem_nil, or_false] at mem
    cases mem
    case inl eq => exact eq ▸ byBudget
    case inr eq => exact eq ▸ byBudget
  case succ m ih =>
    intro event mem
    cases mem_append.mp mem
    case inl mem => exact ih event mem
    case inr mem => exact mem_singleton.mp mem ▸ byBudget

theorem doubling_unsound (due : budget.getBudgetPaymentByBlock h = some payment)
    (due' : budget'.getBudgetPaymentByBlock (h + (m + 1 : ℕ)) = some payment')
    (same : payment'.nProposalHash = payment.nProposalHash) (small : m + 2 < 2 ^ 256) :
    ¬SoundChain (run (h - 1) (heightFrom h) (doublingEvents budget payment m ++
      [.offer budget' (BitVec.ofNat 256 (m + 2)) (paying payment') true])).chain := by
  intro sound
  have doubling := doubling_run due (Nat.lt_of_succ_lt small)
  have once := sound.once
  rw [run_append, step_offer doubling.tip (heightFrom_ofNat small), if_pos rfl] at once
  have ⟨block, mem, pays, valid⟩ := doubling.paid
  have apart := rel_of_pairwise_cons once mem
  exact apart _ (same ▸ pays_paying due') pays ⟨judged_paying due' same doubling.absent doubling.noted, valid⟩

end

theorem height_bounds {payment : CTxBudgetPayment} {h : ℤ}
    (short : budget.vecBudgetPayments.length ≤ 100) (due : budget.getBudgetPaymentByBlock h = some payment) :
    -2 ^ 31 ≤ h ∧ h < 2 ^ 31 + 100 := by
  have ⟨start, stop⟩ := window_of_due due
  have lower := Int32.le_toInt budget.nBlockStart
  have upper := Int32.toInt_lt budget.nBlockStart
  unfold getBlockStart at start
  unfold getBlockEnd at stop
  omega

def Sound (B : CFinalizedBudget → Prop) : Prop :=
  ∀ base heightOf events, (∀ event ∈ events, WindowEvent.By B event) → SoundChain (run base heightOf events).chain

theorem Sound.not_lt (sound : Sound B) (short : ∀ budget, B budget → budget.vecBudgetPayments.length ≤ 100)
    {budget budget' : CFinalizedBudget} {nProposalHash : Uint256} {h h' : ℤ} (byBudget : B budget) (byBudget' : B budget')
    (scheduled : budget.Schedules nProposalHash h) (scheduled' : budget'.Schedules nProposalHash h') : ¬h < h' := by
  intro lt
  have ⟨payment, due, same⟩ := scheduled
  have ⟨payment', due', same'⟩ := scheduled'
  have bounds := height_bounds (short budget byBudget) due
  have bounds' := height_bounds (short budget' byBudget') due'
  obtain ⟨m, rfl⟩ : ∃ m : ℕ, h' = h + (m + 1 : ℕ) := ⟨(h' - h - 1).toNat, by omega⟩
  refine doubling_unsound due due' (same'.trans same.symm) (by omega) (sound _ _ _ ?_)
  intro event mem
  cases mem_append.mp mem
  case inl mem => exact by_doublingEvents byBudget event mem
  case inr mem => exact mem_singleton.mp mem ▸ byBudget'

-- The judgements are right if every proposal has one place in the schedule. If one has two, some run rejects a block
-- and then has two valid blocks that pay the proposal.
theorem doublePayment_iff :
    (Aligned B → Sound B) ∧
      ((∀ budget, B budget → budget.vecBudgetPayments.length ≤ 100) → (Sound B ↔ Aligned B)) := by
  have sound (aligned : Aligned B) : Sound B := fun base heightOf events by' => (Settled.run aligned by').sound aligned
  refine ⟨sound, fun short => ⟨fun h => ?_, sound⟩⟩
  intro budget budget' nProposalHash height height' byBudget byBudget' scheduled scheduled'
  have le := not_lt.mp (h.not_lt short byBudget byBudget' scheduled scheduled')
  have ge := not_lt.mp (h.not_lt short byBudget' byBudget scheduled' scheduled)
  exact ge.antisymm le

def repeatedPayment : CTxBudgetPayment :=
  ⟨1, [1], 10⟩

def repeatingBudget : CFinalizedBudget where
  nBlockStart := 200
  vecBudgetPayments := [repeatedPayment, repeatedPayment]

def reorganised : WindowRun :=
  run 199 (heightFrom 200) [.offer repeatingBudget 0 idle false, .offer repeatingBudget 1 (paying repeatedPayment) true,
    .offer repeatingBudget 2 (paying repeatedPayment) true]

def unpaid : WindowRun :=
  run 199 (heightFrom 200) [.offer repeatingBudget 1 idle true, .offer repeatingBudget 2 (paying repeatedPayment) true]

-- After a rejected block, two valid blocks pay one proposal. And a block is judged to pay again what the one before it
-- did not pay.
theorem doublePayment_misjudged :
    reorganised.chain.map (fun block => (block.coinstake.vout, block.status)) =
        [((paying repeatedPayment).vout, .Valid), ((paying repeatedPayment).vout, .Valid)] ∧
      unpaid.chain.map (fun block => (block.coinstake.vout, block.status)) =
        [((paying repeatedPayment).vout, .DoublePayment), ([], .InValid)] ∧
      ¬SoundChain reorganised.chain := by
  refine ⟨by decide, by decide, ?_⟩
  have due : repeatingBudget.getBudgetPaymentByBlock 200 = some repeatedPayment := by decide
  have due' : repeatingBudget.getBudgetPaymentByBlock 201 = some repeatedPayment := by decide
  exact doubling_unsound (m := 0) due due' rfl (by decide)

end WindowRun

end Qrax
