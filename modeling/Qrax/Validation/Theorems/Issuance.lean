import Qrax.Coins.Theorems.Value
import Qrax.Validation.Theorems.Ledger

open Fallible Function List

namespace Qrax

open CCoinsViewCache (Accounted)

variable {txid : Uint256} {vout : List CTxOut} {arith : Arith} {block : CBlock} {pindex : CBlockIndex}
  {pprev : Option CBlockIndex} {view : CCoinsViewCache} {fJustCheck : Bool} {r : Connected}

theorem outputCoins_value_le {skip : COutPoint → Bool} {nHeight i : ℕ} {fCoinBase fCoinStake : Bool}
    (nonneg : ∀ txout ∈ vout, 0 ≤ txout.nValue.toInt) :
    ((outputCoins skip txid nHeight fCoinBase fCoinStake i vout).map (·.2.out.nValue.toInt)).sum ≤
      (vout.map (·.nValue.toInt)).sum := by
  induction vout generalizing i
  case nil => exact le_rfl
  case cons out vout ih =>
    have ⟨first, rest⟩ := forall_mem_cons.mp nonneg
    have le := ih (i := i + 1) rest
    simp only [outputCoins]
    split
    case isTrue =>
      rw [map_cons, sum_cons]
      omega
    case isFalse =>
      rw [map_cons, sum_cons, map_cons, sum_cons]
      exact Int.add_le_add_left le _

theorem countedOut_eq {banned : COutPoint → Bool} {k : ℕ}
    (h : ∀ j, k ≤ j → j < k + vout.length → banned { hash := txid, n := UInt32.ofNat j } = false) :
    countedOut banned txid k vout = (vout.map (·.nValue.toInt)).sum := by
  induction vout generalizing k
  case nil => rfl
  case cons out vout ih =>
    rw [length_cons] at h
    simp only [countedOut, h k le_rfl (by omega), Bool.false_eq_true, if_false, map_cons, sum_cons]
    rw [ih fun j lower upper => h j (by omega) (by omega)]

theorem delta_spends (u : Utxo) (vin : List CTxIn) :
    ((vin.map fun txin => CoinWrite.spend txin.prevout (u txin.prevout)).map CCoinsViewCache.delta).sum =
      -u.valueIn vin := by
  induction vin
  case nil => rfl
  case cons txin vin ih =>
    rw [map_cons, map_cons, sum_cons, ih, Utxo.valueIn_cons, neg_add]
    rfl

variable [Crypto] {node : Node} {nHeight i : ℕ} {tx : CTransaction} {txundo : CTxUndo} {s s' : ConnectState}
  {v₁ : CCoinsViewCache} {ws : List CoinWrite} {vtx : List CTransaction}

theorem CTransaction.Avoids.valueCounted_eq (h : tx.Avoids node.containsOutPoint) (index : node.fAddressIndex) :
    tx.valueCounted node = (tx.vout.map (·.nValue.toInt)).sum := by
  rw [CTransaction.valueCounted, if_pos index]
  exact countedOut_eq fun j _ upper => h j (by omega)

def ConnectState.minted (s : ConnectState) : ℤ :=
  s.nValueOut - s.nValueIn

theorem TxConnected.worth (h : TxConnected .exact node nHeight tx i s txundo v₁ ws s') (accounted : s.view.Accounted)
    (finite : HasFiniteSupport s.view.worth) (checked : tx.Checked node.consensus) (index : node.fAddressIndex)
    (avoids : tx.Avoids node.containsOutPoint) :
    s'.view.Accounted ∧ HasFiniteSupport s'.view.worth ∧
      ∑ᶠ o, s'.view.worth o - ∑ᶠ o, s.view.worth o ≤ s'.minted - s.minted := by
  obtain ⟨accounted₁, finite₁, spent⟩ := h.updated.spends.worth accounted finite
  obtain ⟨accounted', finite', added⟩ := h.updated.adds.worth accounted₁ finite₁
  refine ⟨accounted', finite', ?_⟩
  have outs : (ws.map CCoinsViewCache.delta).sum ≤ (tx.vout.map (·.nValue.toInt)).sum := by
    rw [h.updated.exact avoids, map_map]
    exact outputCoins_value_le fun txout mem => (checked.amounts.each txout mem).left
  rw [delta_spends] at spent
  have totals := h.totals nofun
  simp only [ConnectState.totals, Totals.add_def, CTransaction.totals, Totals.mk.injEq,
    avoids.valueCounted_eq index] at totals
  obtain ⟨_, nValueIn, nValueOut, _⟩ := totals
  simp only [ConnectState.minted, nValueIn, nValueOut]
  omega

theorem TxsConnected.worth (h : TxsConnected .exact node nHeight i s vtx s') (accounted : s.view.Accounted)
    (finite : HasFiniteSupport s.view.worth) (checked : ∀ tx ∈ vtx, tx.Checked node.consensus)
    (index : node.fAddressIndex) (avoids : ∀ tx ∈ vtx, tx.Avoids node.containsOutPoint) :
    s'.view.Accounted ∧ HasFiniteSupport s'.view.worth ∧
      ∑ᶠ o, s'.view.worth o - ∑ᶠ o, s.view.worth o ≤ s'.minted - s.minted := by
  induction h
  case nil => exact ⟨accounted, finite, by omega⟩
  case cons head _ ih =>
    have ⟨checked₁, checked⟩ := forall_mem_cons.mp checked
    have ⟨avoids₁, avoids⟩ := forall_mem_cons.mp avoids
    have ⟨accounted₁, finite₁, le₁⟩ := head.worth accounted finite checked₁ index avoids₁
    have ⟨accounted', finite', le⟩ := ih accounted₁ finite₁ checked avoids
    exact ⟨accounted', finite', by omega⟩

theorem connectBlock_amounts (consistent : view.Consistent)
    (amounts : ∀ o c, view.utxo o = some c → 0 ≤ c.out.nValue.toInt) (earned : block.FlagEarned node.params)
    (avoids : ∀ tx ∈ block.vtx, tx.Avoids node.containsOutPoint)
    (absent : ∀ tx ∈ block.vtx, ∀ p ∈ tx.allCoins pindex.nHeight, view.utxo p.1 = none)
    (accepted : connectBlock arith node block pindex pprev view fJustCheck = .ok r) :
    r.view.Consistent ∧ ∀ o c, r.view.utxo o = some c → 0 ≤ c.out.nValue.toInt := by
  have ⟨checked, _⟩ := connectBlock_ok earned accepted
  exact connectBlock_keeps consistent earned avoids absent accepted amounts fun tx mem p coin =>
    ((checked.transactions tx mem).amounts.each p.2.out (outputCoins_mem coin).out).left

def mintLimit (node : Node) (nHeight : ℕ) : ℤ :=
  node.params.getBlockValue nHeight + node.params.getMasternodePayment nHeight +
    node.multiMiningManager.getSummaryAssetsToReward + budgetAllowance node nHeight

-- `IsBlockValueValid` returns before it compares.
def mintUnchecked (node : Node) (nHeight : ℕ) : Bool :=
  !node.isSynced && nHeight % node.consensus.nBudgetCycleBlocks < 100 && node.params.network == .TESTNET

omit [Crypto] in
theorem isMintValid_exact (assets : node.consensus.networkUpgradeActive nHeight .ACTIVATE_ASSET_VALIDATION)
    (checked : mintUnchecked node nHeight = false) (h : isMintValid .exact node nHeight s = .ok true) :
    s.minted ≤ mintLimit node nHeight := by
  have early : ¬(!node.isSynced && decide (nHeight % node.consensus.nBudgetCycleBlocks < 100) &&
      node.params.network == .TESTNET) := by
    rw [← mintUnchecked, checked]
    exact Bool.false_ne_true
  simp only [isMintValid, assets, if_true, Arith.norm_exact, ok_bind, isBlockValueValid, if_neg early, Except.ok.injEq,
    decide_eq_true_eq] at h
  simp only [ConnectState.minted, mintLimit]
  omega

theorem checkConnected_mint
    (h : checkConnected arith node block pindex s = .ok ()) : isMintValid arith node pindex.nHeight s = .ok true := by
  simp only [checkConnected, bind_eq_ok, exists_unit, failIf_eq_ok, Bool.not_eq_true', Bool.not_eq_false] at h
  obtain ⟨_, fMintValid, mint, valid, _⟩ := h
  rw [mint, valid]

-- A block creates no more than the reward, the masternode's payment, the assets and the budget allow.
theorem connectBlock_issuance (consistent : view.Consistent)
    (amounts : ∀ o c, view.utxo o = some c → 0 ≤ c.out.nValue.toInt) (earned : block.FlagEarned node.params)
    (index : node.fAddressIndex) (avoids : ∀ tx ∈ block.vtx, tx.Avoids node.containsOutPoint)
    (assets : node.consensus.networkUpgradeActive pindex.nHeight .ACTIVATE_ASSET_VALIDATION)
    (notEarly : mintUnchecked node pindex.nHeight = false)
    (accepted : connectBlock .exact node block pindex pprev view fJustCheck = .ok r) :
    r.view.utxo.total - view.utxo.total ≤
      if block.getHash = node.consensus.hashGenesisBlock then 0 else mintLimit node pindex.nHeight := by
  have ⟨checked, _, connected⟩ := connectBlock_ok earned accepted
  cases connected
  case genesis v genesis fetched =>
    rw [if_pos genesis]
    have same : (if fJustCheck then v else v.setBestBlock pindex.phashBlock).utxo = view.utxo := by
      split <;> exact fetched.utxo
    rw [same, sub_self]
  case loop s other _ loop final _ view' =>
    rw [if_neg other]
    have fetched := loopStart_fetched view
    have start := (Accounted.start consistent amounts).fetched fetched
    have worth : (loopStart view).view.worth = view.utxo.valueAt := by
      rw [CCoinsViewCache.worth_fetched fetched, CCoinsViewCache.worth_of_consistent consistent]
    have finite : HasFiniteSupport (loopStart view).view.worth := worth ▸ view.hasFiniteSupport_valueAt
    have ⟨stop, finite', le⟩ := (connectTxs_ok checked.transactions loop).worth start finite checked.transactions
      index avoids
    have mint := isMintValid_exact assets notEarly (checkConnected_mint final)
    have upper : s.view.utxo.total ≤ ∑ᶠ o, s.view.worth o :=
      FiniteTotal.finsum_mono s.view.hasFiniteSupport_valueAt finite' stop.valueAt_le
    have same : r.view.utxo = s.view.utxo := view' ▸ (s.view.finished_sameCoins ..).utxo
    calc r.view.utxo.total - view.utxo.total
      _ = s.view.utxo.total - ∑ᶠ o, (loopStart view).view.worth o := by rw [same, worth, Utxo.total, Utxo.total]
      _ ≤ ∑ᶠ o, s.view.worth o - ∑ᶠ o, (loopStart view).view.worth o := Int.sub_le_sub_right upper _
      _ ≤ s.minted - (loopStart view).minted := le
      _ = s.minted := Int.sub_zero _
      _ ≤ mintLimit node pindex.nHeight := mint

omit [Crypto] in
theorem connectBlock_issuance_payments :
    let _crypto := Crypto.toy
    let params := CChainParams.regtest.updateNetworkUpgradeParameters .ACTIVATE_ASSET_VALIDATION (some 0)
    let node := exampleNode params exampleTip
    let block := exampleBlock exampleTip [minerTx, paymentTx, changeTx]
    ∃ r, connectBlock .exact node block exampleIndex (some exampleTip) exampleView false = .ok r ∧
      r.view.utxo.total - exampleView.utxo.total ≤ mintLimit node 10 := by
  intro _crypto params node block
  have accepted : (connectBlock .exact node block exampleIndex (some exampleTip) exampleView false).isOk := by
    decide +kernel
  have ⟨r, accepted⟩ := isOk_iff.mp accepted
  have other : block.getHash ≠ node.consensus.hashGenesisBlock := by decide
  have bound := connectBlock_issuance exampleView_consistent (fun o c found => (exampleView_found found).right ▸ by decide)
    (exampleBlock_earned _ _ _) rfl (fun _ _ _ _ => rfl) (by decide) (by decide) accepted
  rw [if_neg other] at bound
  exact ⟨r, accepted, bound⟩

end Qrax
