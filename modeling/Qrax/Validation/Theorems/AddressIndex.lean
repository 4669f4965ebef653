import Qrax.Validation.Theorems.Issuance
import Qrax.Validation.Theorems.Simulation
import Qrax.Validation.Theorems.Spending

open Fallible

namespace Qrax

open CCoinsViewCache (NoneBelow)

theorem bmod_add_add (a b c : ℤ) (n : ℕ) : (a.bmod n + b + c).bmod n = (a + b + c).bmod n := by
  rw [add_assoc, Int.bmod_add_bmod, add_assoc]

theorem bmod_add_add_add (a b c d : ℤ) (n : ℕ) : (a.bmod n + b + c + d).bmod n = (a + b + c + d).bmod n := by
  rw [add_assoc, bmod_add_add, ← add_assoc]

section

variable [Crypto]

def blockTotals (node : Node) (nHeight : ℕ) : Utxo → List CTransaction → Totals
  | _, [] => {}
  | u, tx :: vtx => tx.totals node u + blockTotals node nHeight (tx.applied node nHeight tx.inputsSpent u) vtx

variable {arith : Arith} {node : Node} {nHeight i : ℕ} {s s' : ConnectState} {tx : CTransaction}
  {vtx : List CTransaction} {u : Utxo}

theorem TxsConnected.totals (h : TxsConnected arith node nHeight i s vtx s') (ne : arith ≠ .int64)
    (start : NoneBelow u s.view) (new : ∀ tx ∈ vtx, ∀ p ∈ tx.coins (node.skips nHeight) nHeight, u p.1 = none) :
    s'.totals = s.totals + blockTotals node nHeight s.view.utxo vtx := by
  induction h
  case nil => exact (Totals.add_zero _).symm
  case cons head _ ih =>
    have ⟨new₁, new⟩ := List.forall_mem_cons.mp new
    have ⟨start₁, applied⟩ := head.applied start new₁
    rw [ih start₁ new, head.totals ne, applied, Totals.add_assoc]
    rfl

def MintFits (node : Node) (nHeight : ℕ) (t : Totals) : Prop :=
  let fAssetValidation := node.consensus.networkUpgradeActive nHeight .ACTIVATE_ASSET_VALIDATION
  mintUnchecked node nHeight ∨
    (t.nValueOut - t.nValueIn + t.nFees + if fAssetValidation then 0 else -t.nAssetValue).bmod (2 ^ 64) ≤
      (node.params.getBlockValue nHeight + t.nFees + node.params.getMasternodePayment nHeight +
        (if fAssetValidation then node.multiMiningManager.getSummaryAssetsToReward else 0) +
        budgetAllowance node nHeight).bmod (2 ^ 64)

instance (node : Node) (nHeight : ℕ) (t : Totals) : Decidable (MintFits node nHeight t) :=
  inferInstanceAs (Decidable (_ ∨ _))

omit [Crypto] in
theorem isMintValid_int64 :
    isMintValid .int64 node nHeight s = .ok true ↔ MintFits node nHeight s.totals := by
  unfold isMintValid isBlockValueValid MintFits mintUnchecked
  cases node.consensus.networkUpgradeActive nHeight .ACTIVATE_ASSET_VALIDATION
  all_goals
    simp only [Bool.false_eq_true, if_false, if_true, ok_bind, Arith.norm, Int.bmod_add_bmod, Int.add_bmod_bmod,
      bmod_add_add, bmod_add_add_add, add_zero, ConnectState.totals]
    split
    case isTrue early => simp [early]
    case isFalse early => simp [early]

omit [Crypto] in
theorem MintFits.congr {t : ConnectState} (h : Alike Wrapped s t) :
    MintFits node nHeight s.totals ↔ MintFits node nHeight t.totals := by
  have tally := Tally.int64
  have assets : Wrapped (-s.nAssetValue) (-t.nAssetValue) := by
    simpa only [zero_sub] using tally.sub (tally.refl 0) h.nAssetValue
  have minted (c : Bool) : Wrapped (s.nValueOut - s.nValueIn + s.nFees + if c then 0 else -s.nAssetValue)
      (t.nValueOut - t.nValueIn + t.nFees + if c then 0 else -t.nAssetValue) := by
    refine tally.add (tally.add (tally.sub h.nValueOut h.nValueIn) h.nFees) ?_
    split
    case isTrue => exact tally.refl 0
    case isFalse => exact assets
  have limit (k l m n : ℤ) : Wrapped (k + s.nFees + l + m + n) (k + t.nFees + l + m + n) :=
    tally.add (tally.add (tally.add (tally.add (tally.refl k) h.nFees) (tally.refl l)) (tally.refl m)) (tally.refl n)
  unfold Wrapped at minted limit
  simp only [MintFits, ConnectState.totals, minted, limit]

variable {block : CBlock} {pindex : CBlockIndex} {pprev : Option CBlockIndex} {view : CCoinsViewCache} {fJustCheck : Bool}

structure FinallyValid (node : Node) (block : CBlock) (pindex : CBlockIndex) (s : ConnectState) : Prop where
  root : ¬(node.consensus.networkUpgradeActive pindex.nHeight .ACTIVATE_HUSH &&
    block.hashFinalSaplingRoot != s.saplingTree.root)
  payee : ¬(!node.isInitialBlockDownload && !isBlockPayeeValid node block pindex.nHeight)
  scripts : ¬s.vChecks.any fun check => check.run node ≠ .ok ()

theorem checkConnected_int64 : checkConnected .int64 node block pindex s = .ok () ↔
    FinallyValid node block pindex s ∧ MintFits node pindex.nHeight s.totals := by
  rw [← isMintValid_int64]
  simp only [checkConnected, bind_eq_ok, exists_unit, failIf_eq_ok, Bool.not_eq_true', Bool.not_eq_false]
  constructor
  · rintro ⟨root, fMintValid, mint, rfl, payee, scripts⟩
    exact ⟨⟨root, payee, scripts⟩, mint⟩
  · rintro ⟨valid, mint⟩
    exact ⟨valid.root, true, mint, rfl, valid.payee, valid.scripts⟩

structure LoopValid (node : Node) (block : CBlock) (pindex : CBlockIndex) (view : CCoinsViewCache) (s : ConnectState) :
    Prop where
  header : checkHeader node block pindex = .ok ()
  loop : connectTransactions .int64 node block pindex view.getBestBlock.2 = .ok s

structure Opened (node : Node) (block : CBlock) (pprev : Option CBlockIndex) (view : CCoinsViewCache) (fJustCheck : Bool) :
    Prop where
  recheck : (recheckBlock node block fJustCheck).isOk
  prev : pprev.elim 0 (·.phashBlock) = view.getBestBlock.1

theorem connectBlock_isOk (other : block.getHash ≠ node.consensus.hashGenesisBlock) :
    (connectBlock .int64 node block pindex pprev view fJustCheck).isOk ↔
      Opened node block pprev view fJustCheck ∧ ∃ s, LoopValid node block pindex view s ∧
        FinallyValid node block pindex s ∧ MintFits node pindex.nHeight s.totals := by
  rw [isOk_iff]
  simp only [connectBlock, bind_eq_ok, exists_unit, failIf_eq_ok, not_not, if_neg other]
  constructor
  · rintro ⟨r, block', recheck, prev, header, s, loop, final, _⟩
    exact ⟨⟨isOk_iff.mpr ⟨block', recheck⟩, prev⟩, s, ⟨header, loop⟩, checkConnected_int64.mp final⟩
  · rintro ⟨opened, s, ⟨header, loop⟩, final⟩
    obtain ⟨block', recheck⟩ := isOk_iff.mp opened.recheck
    have final := checkConnected_int64.mpr final
    by_cases just : fJustCheck
    case pos => exact ⟨_, block', recheck, opened.prev, header, s, loop, final, if_pos just⟩
    case neg => exact ⟨_, block', recheck, opened.prev, header, s, loop, final, if_neg just⟩

def OtherwiseValid (node : Node) (block : CBlock) (pindex : CBlockIndex) (pprev : Option CBlockIndex)
    (view : CCoinsViewCache) (fJustCheck : Bool) : Prop :=
  Opened node block pprev view fJustCheck ∧
    ∃ s, LoopValid node block pindex view s ∧ FinallyValid node block pindex s

variable {b b' : Bool}

theorem Opened.checked (h : Opened node block pprev view fJustCheck) (earned : block.FlagEarned node.params) :
    ∀ tx ∈ block.vtx, tx.Checked node.consensus := by
  have ⟨_, recheck⟩ := isOk_iff.mp h.recheck
  have ⟨checked, _⟩ := checkBlock_ok earned (recheckBlock_ok recheck)
  exact checked.transactions

theorem connectTransactions_totals (consistent : view.Consistent)
    (checked : ∀ tx ∈ block.vtx, tx.Checked node.consensus)
    (absent : ∀ tx ∈ block.vtx, ∀ p ∈ tx.coins (node.skips pindex.nHeight) pindex.nHeight, view.utxo p.1 = none)
    (h : connectTransactions arith node block pindex view.getBestBlock.2 = .ok s) (ne : arith ≠ .int64) :
    s.totals = blockTotals node pindex.nHeight view.utxo block.vtx := by
  have ⟨_, loop⟩ := connectTransactions_ok h
  have fetched := loopStart_fetched view
  have start := (NoneBelow.start consistent).fetched fetched
  have totals := (connectTxs_ok checked loop).totals ne start absent
  have zero : (loopStart view).totals = {} := rfl
  rw [totals, zero, Totals.zero_add, fetched.utxo]

theorem exactLoop (checked : ∀ tx ∈ block.vtx, tx.Checked node.consensus)
    (loop : connectTransactions .int64 node block pindex view.getBestBlock.2 = .ok s) :
    ∃ t, connectTransactions .exact node block pindex view.getBestBlock.2 = .ok t ∧ Alike Wrapped s t := by
  have sim : Sim Sim.never (Alike Wrapped) (connectTransactions .int64 node block pindex view.getBestBlock.2)
      (connectTransactions .exact node block pindex view.getBestBlock.2) :=
    connectTransactions_sim Tally.int64 (.same Tally.int64 node node.fAddressIndex) checked
  rw [loop] at sim
  generalize connectTransactions .exact node block pindex view.getBestBlock.2 = run at sim
  cases sim
  case ok t alike => exact ⟨t, rfl, alike⟩

theorem LoopValid.mintFits (h : LoopValid node block pindex view s) (consistent : view.Consistent)
    (checked : ∀ tx ∈ block.vtx, tx.Checked node.consensus)
    (absent : ∀ tx ∈ block.vtx, ∀ p ∈ tx.coins (node.skips pindex.nHeight) pindex.nHeight, view.utxo p.1 = none) :
    MintFits node pindex.nHeight s.totals ↔
      MintFits node pindex.nHeight (blockTotals node pindex.nHeight view.utxo block.vtx) := by
  have ⟨t, exact, alike⟩ := exactLoop checked h.loop
  rw [MintFits.congr alike, connectTransactions_totals consistent checked absent exact nofun]

omit [Crypto] in
theorem countOutputs_alike (txid : Uint256) (s : ConnectState) (k : ℕ) (vout : List CTxOut) :
    ∃ s', countOutputs .int64 node tx txid s k vout = .ok s' ∧ Alike (fun _ _ => True) s' s := by
  induction vout generalizing s k
  case nil => exact ⟨s, rfl, rfl, rfl, rfl, rfl, rfl, trivial, trivial, trivial, trivial⟩
  case cons out vout ih =>
    simp only [countOutputs, Arith.norm, ok_bind]
    split
    case isTrue => exact ih s (k + 1)
    case isFalse =>
      split
      all_goals exact (ih _ (k + 1)).imp fun s' h => ⟨h.left, { h.right with }⟩

theorem countTx_alike (node : Node) (tx : CTransaction) (b : Bool) (s : ConnectState) :
    ∃ s', (if b then countOutputs .int64 node tx tx.getHash s 0 tx.vout else .ok s) = .ok s' ∧
      Alike (fun _ _ => True) s' s := by
  cases b
  case true => exact countOutputs_alike _ s 0 tx.vout
  case false => exact ⟨s, rfl, rfl, rfl, rfl, rfl, rfl, trivial, trivial, trivial, trivial⟩

theorem CountsAlike.any (node : Node) (b b' : Bool) : CountsAlike Sim.never (fun _ _ => True) .int64 .int64 node b b' := by
  intro tx s t alike
  have ⟨s', eq, left⟩ := countTx_alike node tx b s
  have ⟨t', eq', right⟩ := countTx_alike node tx b' t
  rw [eq, eq']
  refine .ok ⟨?_, ?_, ?_, ?_, ?_, trivial, trivial, trivial, trivial⟩
  · rw [left.view, alike.view, right.view]
  · rw [left.saplingTree, alike.saplingTree, right.saplingTree]
  · rw [left.nSigOps, alike.nSigOps, right.nSigOps]
  · rw [left.vChecks, alike.vChecks, right.vChecks]
  · rw [left.vtxundo, alike.vtxundo, right.vtxundo]

theorem LoopValid.withIndex (h : LoopValid (node.withIndex b) block pindex view s)
    (final : FinallyValid (node.withIndex b) block pindex s) (checked : ∀ tx ∈ block.vtx, tx.Checked node.consensus)
    (b' : Bool) :
    ∃ t, LoopValid (node.withIndex b') block pindex view t ∧ FinallyValid (node.withIndex b') block pindex t := by
  have tally : Tally Sim.never .int64 .int64 (fun _ _ => True) fun _ _ => True := .any nofun nofun
  have sim : Sim Sim.never (Alike fun _ _ => True) (connectTransactions .int64 (node.withIndex b') block pindex view.getBestBlock.2)
      (connectTransactions .int64 (node.withIndex b) block pindex view.getBestBlock.2) :=
    connectTransactions_sim tally (.any node b' b) checked
  have ⟨t, loop, alike⟩ := sim.of_ok h.loop
  refine ⟨t, ⟨h.header, loop⟩, ?_, final.payee, ?_⟩
  · rw [alike.saplingTree]
    exact final.root
  · rw [alike.vChecks]
    exact final.scripts

theorem otherwiseValid_withIndex (earned : block.FlagEarned node.params) :
    OtherwiseValid (node.withIndex b) block pindex pprev view fJustCheck ↔
      OtherwiseValid node block pindex pprev view fJustCheck := by
  constructor
  · rintro ⟨opened, s, loop, final⟩
    exact ⟨⟨opened.recheck, opened.prev⟩, loop.withIndex final (opened.checked earned) node.fAddressIndex⟩
  · rintro ⟨opened, s, loop, final⟩
    exact ⟨⟨opened.recheck, opened.prev⟩, LoopValid.withIndex (b := node.fAddressIndex) loop final (opened.checked earned) b⟩

theorem connectBlock_isOk_iff (other : block.getHash ≠ node.consensus.hashGenesisBlock) (consistent : view.Consistent)
    (earned : block.FlagEarned node.params)
    (absent : ∀ tx ∈ block.vtx, ∀ p ∈ tx.coins (node.skips pindex.nHeight) pindex.nHeight, view.utxo p.1 = none) :
    (connectBlock .int64 node block pindex pprev view fJustCheck).isOk ↔
      OtherwiseValid node block pindex pprev view fJustCheck ∧
        MintFits node pindex.nHeight (blockTotals node pindex.nHeight view.utxo block.vtx) := by
  rw [connectBlock_isOk other]
  constructor
  · rintro ⟨opened, s, loop, final, mint⟩
    exact ⟨⟨opened, s, loop, final⟩, (loop.mintFits consistent (opened.checked earned) absent).mp mint⟩
  · rintro ⟨⟨opened, s, loop, final⟩, mint⟩
    exact ⟨opened, s, loop, final, (loop.mintFits consistent (opened.checked earned) absent).mpr mint⟩

-- The address index decides on validity when just one of the totals, with and without the outputs' sum, is within the
-- limit of the mint.
theorem connectBlock_index_iff (node : Node) (block : CBlock) (pindex : CBlockIndex) (pprev : Option CBlockIndex)
    (view : CCoinsViewCache) (fJustCheck : Bool) (consistent : view.Consistent) (earned : block.FlagEarned node.params)
    (absent : ∀ tx ∈ block.vtx, ∀ p ∈ tx.coins (node.skips pindex.nHeight) pindex.nHeight, view.utxo p.1 = none) :
    (connectBlock .int64 (node.withIndex true) block pindex pprev view fJustCheck).isOk =
        (connectBlock .int64 (node.withIndex false) block pindex pprev view fJustCheck).isOk ↔
      (block.getHash ≠ node.consensus.hashGenesisBlock → OtherwiseValid node block pindex pprev view fJustCheck →
        (MintFits node pindex.nHeight (blockTotals (node.withIndex true) pindex.nHeight view.utxo block.vtx) ↔
          MintFits node pindex.nHeight (blockTotals (node.withIndex false) pindex.nHeight view.utxo block.vtx))) := by
  by_cases genesis : block.getHash = node.consensus.hashGenesisBlock
  case pos =>
    refine ⟨fun _ other => absurd genesis other, fun _ => ?_⟩
    have same (b : Bool) : (node.withIndex b).consensus.hashGenesisBlock = block.getHash := genesis.symm
    simp only [connectBlock, same, if_true]
    rfl
  case neg =>
    have verdict (b : Bool) : (connectBlock .int64 (node.withIndex b) block pindex pprev view fJustCheck).isOk ↔
        OtherwiseValid node block pindex pprev view fJustCheck ∧
          MintFits node pindex.nHeight (blockTotals (node.withIndex b) pindex.nHeight view.utxo block.vtx) := by
      rw [← otherwiseValid_withIndex earned]
      exact connectBlock_isOk_iff genesis consistent earned absent
    rw [Bool.eq_iff_iff, verdict, verdict, and_congr_right_iff]
    exact ⟨fun h _ => h, fun h => h genesis⟩

end

theorem connectBlock_index_payments :
    let _crypto := Crypto.toy
    let node := exampleNode .regtest exampleTip
    let block := exampleBlock exampleTip [minerTx, paymentTx, changeTx]
    (connectBlock .int64 (node.withIndex true) block exampleIndex (some exampleTip) exampleView false).isOk =
      (connectBlock .int64 (node.withIndex false) block exampleIndex (some exampleTip) exampleView false).isOk := by
  intro _crypto node block
  have absent : ∀ tx ∈ block.vtx, ∀ p ∈ tx.coins (node.skips 10) 10, exampleView.utxo p.1 = none := by decide
  have fits (b : Bool) : MintFits node 10 (blockTotals (node.withIndex b) 10 exampleView.utxo block.vtx) := by
    cases b <;> decide
  refine (connectBlock_index_iff node block exampleIndex (some exampleTip) exampleView false exampleView_consistent
    (exampleBlock_earned _ _ _) absent).mpr fun _ _ => ?_
  exact iff_of_true (fits true) (fits false)

def greedyMinerTx : CTransaction :=
  { minerTx with vout := [{ nValue := 20000000 * COIN, scriptPubKey := [0x51] }] }

theorem connectBlock_index_greedy :
    let _crypto := Crypto.toy
    let node := exampleNode .regtest exampleTip
    let block := exampleBlock exampleTip [greedyMinerTx]
    (connectBlock .int64 (node.withIndex true) block exampleIndex (some exampleTip) exampleView false).isOk = false ∧
      (connectBlock .int64 (node.withIndex false) block exampleIndex (some exampleTip) exampleView false).isOk := by
  decide +kernel

end Qrax
