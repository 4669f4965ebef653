import Qrax.Consensus.Theorems.Merkle
import Qrax.Validation.Theorems.AddressIndex

open Encoding Fallible List Nat

namespace Qrax

open CTransaction Uint256 CCoinsViewCache
open Arith (addAll_of_lt norm_exact)

-- Whether the totals of `ConnectBlock` stay within 64-bit integers.

namespace Totals

-- Totals of nonnegative amounts: the fees lie between what went out and what came in.
structure Bounded (t : Totals) : Prop where
  valueIn : 0 ≤ t.nValueIn
  valueOut : 0 ≤ t.nValueOut
  assetValue : 0 ≤ t.nAssetValue
  lower : -t.nValueOut ≤ t.nFees
  upper : t.nFees ≤ t.nValueIn

structure Fits (t : Totals) : Prop where
  valueIn : t.nValueIn < 2 ^ 63
  valueOut : t.nValueOut < 2 ^ 63
  assetValue : t.nAssetValue < 2 ^ 63

variable {t t' : Totals}

theorem Bounded.add (h : t.Bounded) (h' : t'.Bounded) : (t + t').Bounded := by
  have ⟨_, _, _, _, _⟩ := h
  have ⟨_, _, _, _, _⟩ := h'
  constructor <;> simp only [add_def] <;> omega

theorem Fits.of_add (h : (t + t').Fits) (h' : t'.Bounded) : t.Fits := by
  have ⟨valueIn, valueOut, assetValue⟩ := h
  have ⟨_, _, _, _, _⟩ := h'
  simp only [add_def] at valueIn valueOut assetValue
  constructor <;> omega

end Totals

def Utxo.Amounts (u : Utxo) : Prop :=
  ∀ o c, u o = some c → 0 ≤ c.out.nValue.toInt

theorem Utxo.Amounts.valueAt {u : Utxo} (h : u.Amounts) (o : COutPoint) : 0 ≤ u.valueAt o := by
  unfold Utxo.valueAt
  cases found : u o
  case none => exact le_rfl
  case some c => exact h o c found

theorem Utxo.Amounts.each {u : Utxo} (h : u.Amounts) (vin : List CTxIn) :
    ∀ amount ∈ vin.map (fun txin => u.valueAt txin.prevout), 0 ≤ amount := by
  intro amount mem
  have ⟨txin, _, eq⟩ := mem_map.mp mem
  exact eq ▸ h.valueAt txin.prevout

theorem Utxo.Amounts.valueIn {u : Utxo} (h : u.Amounts) (vin : List CTxIn) : 0 ≤ u.valueIn vin :=
  sum_nonneg (h.each vin)

theorem countedOut_nonneg {banned : COutPoint → Bool} {txid : Uint256} {k : ℕ} {vout : List CTxOut}
    (nonneg : ∀ txout ∈ vout, 0 ≤ txout.nValue.toInt) : 0 ≤ countedOut banned txid k vout := by
  induction vout generalizing k
  case nil => exact le_rfl
  case cons out vout ih =>
    have ⟨first, nonneg⟩ := forall_mem_cons.mp nonneg
    have rest := ih (k := k + 1) nonneg
    simp only [countedOut]
    split <;> omega

section

variable [Crypto] {node : Node} {nHeight : ℕ} {tx : CTransaction} {s : ConnectState} {params : Consensus.Params}

variable {u : Utxo} {vtx : List CTransaction}

theorem CTransaction.Checked.totals_bounded (checked : tx.Checked params) (amounts : u.Amounts) :
    (tx.totals node u).Bounded := by
  have nonneg : ∀ txout ∈ tx.vout, 0 ≤ txout.nValue.toInt := fun txout mem => (checked.amounts.each txout mem).left
  have valueIn := amounts.valueIn tx.inputsSpent
  have valueOut : 0 ≤ tx.valueCounted node := by
    unfold valueCounted
    split
    case isTrue => exact countedOut_nonneg nonneg
    case isFalse => exact le_rfl
  have outs : 0 ≤ (tx.vout.map (·.nValue.toInt)).sum := List.sum_nonneg (forall_mem_map.mpr nonneg)
  have fees : -tx.valueCounted node ≤ (tx.totals node u).nFees ∧ (tx.totals node u).nFees ≤ u.valueIn tx.inputsSpent := by
    simp only [totals]
    split_ifs <;> omega
  have assetValue : 0 ≤ (tx.totals node u).nAssetValue := by
    simp only [totals]
    split_ifs <;> omega
  exact ⟨valueIn, valueOut, assetValue, fees.left, fees.right⟩

section

variable (arith : Arith) (amounts : s.view.utxo.Amounts)

include amounts

section

variable (coinBase : tx.isCoinBase = false) (assets : tx.containsAssets = false) (holds : s.view.utxo.Holds tx.vin)

include coinBase assets holds

theorem getValueIn_exact (lt : s.view.utxo.valueIn tx.vin < 2 ^ 63) :
    s.view.getValueIn arith tx = s.view.getValueIn .exact tx := by
  have ⟨v', _, eq⟩ := getValueIn_eq coinBase assets holds
  have lt : 0 + (tx.vin.map fun txin => s.view.utxo.valueAt txin.prevout).sum < 2 ^ 63 := by
    rwa [zero_add]
  rw [eq, eq, addAll_of_lt arith (amounts.each _) le_rfl lt,
    addAll_of_lt .exact (amounts.each _) le_rfl lt]

theorem addFees_exact (lower : -2 ^ 63 ≤ s.nFees) (upper : s.nFees + s.view.utxo.valueIn tx.vin < 2 ^ 63)
    (lt : s.view.utxo.valueIn tx.vin < 2 ^ 63) : addFees arith tx s = addFees .exact tx s := by
  unfold addFees
  split
  case isTrue => rfl
  case isFalse =>
    rw [getValueIn_exact arith amounts coinBase assets holds lt]
    refine bind_congr_ok ?_
    rintro ⟨n, v⟩ value
    have ⟨_, sum⟩ := getValueIn_ok coinBase assets holds value
    have nonneg := amounts.valueIn tx.vin
    have inRange : Arith.InRange (s.nFees + n) := by
      rw [sum nofun]
      exact ⟨by omega, upper⟩
    dsimp only
    rw [arith.norm_of_inRange inRange, norm_exact]

end

theorem connectInputs_exact (checked : tx.Checked params) (holds : s.view.utxo.Holds tx.inputsSpent)
    (bounded : s.totals.Bounded) (fits : s.totals.Fits) (lt : s.nValueIn + s.view.utxo.valueIn tx.inputsSpent < 2 ^ 63) :
    connectInputs arith node nHeight tx s = connectInputs .exact node nHeight tx s := by
  unfold connectInputs
  split
  case isFalse => rfl
  case isTrue ordinary =>
    rw [inputsSpent_of_ordinary ordinary] at holds lt
    simp only [Bool.and_eq_true, Bool.not_eq_true'] at ordinary
    obtain ⟨coinBase, assets⟩ := ordinary
    obtain ⟨_, valueOut, _⟩ := fits
    obtain ⟨nonneg, _, _, lower, upper⟩ := bounded
    simp only [ConnectState.totals] at valueOut nonneg lower upper
    rw [addFees_exact arith amounts coinBase assets holds (by omega) (by omega) (by omega)]
    refine bind_congr_ok fun s₁ fees => ?_
    obtain ⟨kept, totals⟩ := addFees_ok coinBase assets holds fees
    have same := kept.view.utxo
    rw [getValueIn_exact arith (same ▸ amounts) coinBase assets (same ▸ holds) (by rw [same]; omega)]
    refine bind_congr_ok ?_
    rintro ⟨n, v⟩ value
    obtain ⟨_, sum⟩ := getValueIn_ok coinBase assets (same ▸ holds) value
    have nValueIn : s₁.nValueIn = s.nValueIn := (congrArg Totals.nValueIn (totals (by rintro ⟨⟩))).trans (add_zero _)
    have worth := amounts.valueIn tx.vin
    have inRange : Arith.InRange (s₁.nValueIn + n) := by
      rw [sum (by rintro ⟨⟩), nValueIn, same]
      exact ⟨by omega, lt⟩
    dsimp only
    rw [arith.norm_of_inRange inRange, norm_exact]
    refine bind_congr_ok fun m _ => ?_
    rw [checkInputs_congr checked arith .exact]

end

variable (arith : Arith)

omit [Crypto] in
theorem countOutputs_exact {txid : Uint256} {k : ℕ} {vout : List CTxOut}
    (nonneg : ∀ txout ∈ vout, 0 ≤ txout.nValue.toInt) (pos : 0 ≤ s.nValueOut)
    (lt : s.nValueOut + countedOut node.containsOutPoint txid k vout < 2 ^ 63)
    (lower : -2 ^ 63 ≤ s.nFees - countedOut node.containsOutPoint txid k vout) (upper : s.nFees < 2 ^ 63) :
    countOutputs arith node tx txid s k vout = countOutputs .exact node tx txid s k vout := by
  induction vout generalizing s k
  case nil => rfl
  case cons out vout ih =>
    have ⟨first, nonneg⟩ := forall_mem_cons.mp nonneg
    have rest : 0 ≤ countedOut node.containsOutPoint txid (k + 1) vout := countedOut_nonneg nonneg
    simp only [countedOut] at lt lower
    simp only [countOutputs]
    split at lt
    case isTrue banned =>
      simp only [banned, if_true] at lower ⊢
      exact ih nonneg pos lt lower upper
    case isFalse banned =>
      simp only [banned, Bool.false_eq_true, if_false, ite_bind] at lower ⊢
      have value : Arith.InRange (s.nValueOut + out.nValue.toInt) := ⟨by omega, by omega⟩
      have fees : Arith.InRange (s.nFees - out.nValue.toInt) := ⟨by omega, by omega⟩
      rw [arith.norm_of_inRange value, norm_exact, ok_bind, ok_bind]
      split
      case isTrue => exact ih nonneg (by dsimp only; omega) (by dsimp only; omega) (by dsimp only; omega) upper
      case isFalse =>
        rw [arith.norm_of_inRange fees, norm_exact, ok_bind, ok_bind]
        exact ih nonneg (by dsimp only; omega) (by dsimp only; omega) (by dsimp only; omega) (by dsimp only; omega)

omit [Crypto] in
theorem countAssets_exact (nonneg : ∀ txout ∈ tx.vout, 0 ≤ txout.nValue.toInt) (pos : 0 ≤ s.nAssetValue)
    (lt : s.nAssetValue + (if tx.containsAssets then (tx.vout.map (·.nValue.toInt)).sum else 0) < 2 ^ 63) :
    countAssets arith tx s = countAssets .exact tx s := by
  unfold countAssets
  split
  case isFalse => rfl
  case isTrue assets =>
    rw [if_pos assets] at lt
    have amounts := forall_mem_map.mpr nonneg
    have sum := sum_nonneg amounts
    have inRange : Arith.InRange (s.nAssetValue + (0 + (tx.vout.map (·.nValue.toInt)).sum)) := ⟨by omega, by omega⟩
    rw [getMultiMiningSpend_eq, getMultiMiningSpend_eq, addAll_of_lt arith amounts le_rfl (by omega),
      Arith.addAll_exact, ok_bind, ok_bind, arith.norm_of_inRange inRange, norm_exact]

theorem connectTx_exact (arith : Arith) (block : CBlock) (i : ℕ) (checked : tx.Checked params)
    (amounts : s.view.utxo.Amounts) (bounded : s.totals.Bounded) (fits : (s.totals + tx.totals node s.view.utxo).Fits) :
    connectTx arith node nHeight tx block i s = connectTx .exact node nHeight tx block i s := by
  have nonneg : ∀ txout ∈ tx.vout, 0 ≤ txout.nValue.toInt := fun txout mem => (checked.amounts.each txout mem).left
  have own : (tx.totals node s.view.utxo).Bounded := checked.totals_bounded amounts
  have room := fits.of_add own
  simp only [connectTx, ite_bind]
  refine bind_congr_ok fun _ _ => bind_congr_ok fun _ _ => bind_congr_ok fun s₁ available => ?_
  obtain ⟨kept₁, totals₁, holds⟩ := checkAvailable_ok available
  have same₁ := kept₁.view.utxo
  have totals₁ : s₁.totals = s.totals := totals₁
  rw [← same₁] at fits amounts own
  rw [← totals₁] at fits bounded room
  obtain ⟨valueIn, valueOut, assetValue⟩ := fits
  have pos := bounded.valueOut
  have posAssets := bounded.assetValue
  have lower := bounded.lower
  have upper := bounded.upper
  obtain ⟨_, _, _, _, _⟩ := own
  simp only [ConnectState.totals, totals, Totals.add_def] at valueIn valueOut assetValue pos posAssets lower upper
  rw [connectInputs_exact arith amounts checked (same₁ ▸ holds) bounded room valueIn]
  refine bind_congr_ok fun s₂ inputs => ?_
  obtain ⟨_, _, _, totals₂⟩ := connectInputs_ok (same₁ ▸ holds) inputs
  have totals₂ := totals₂ (by rintro ⟨⟩)
  simp only [ConnectState.totals, Totals.add_def, Totals.mk.injEq, add_zero] at totals₂
  obtain ⟨fees₂, _, out₂, assets₂⟩ := totals₂
  have worth := amounts.valueIn tx.inputsSpent
  have counts : (if node.fAddressIndex then countOutputs arith node tx tx.getHash s₂ 0 tx.vout else .ok s₂) =
      (if node.fAddressIndex then countOutputs .exact node tx tx.getHash s₂ 0 tx.vout else .ok s₂) := by
    split
    case isFalse => rfl
    case isTrue index =>
      simp only [valueCounted, index, if_true] at valueOut
      have upper₂ : s₂.nFees ≤ s₁.nFees + s₁.view.utxo.valueIn tx.inputsSpent ∧ s₁.nFees ≤ s₂.nFees := by
        rw [fees₂]
        split_ifs <;> omega
      exact countOutputs_exact arith nonneg (by omega) (by omega) (by omega) (by omega)
  rw [counts]
  refine bind_congr_ok fun s₃ outputs => ?_
  obtain ⟨_, _, _, totals₃⟩ := countTx_ok outputs
  have assets₃ : s₃.nAssetValue = s₂.nAssetValue := (congrArg Totals.nAssetValue (totals₃ (by rintro ⟨⟩))).trans (add_zero _)
  rw [countAssets_exact arith nonneg (by omega) (by omega)]

theorem CTransaction.Checked.applied_amounts {vin : List CTxIn} (checked : tx.Checked params)
    (amounts : u.Amounts) : (tx.applied node nHeight vin u).Amounts :=
  applied_forall amounts fun p coin => (checked.amounts.each p.2.out (outputCoins_mem coin).out).left

theorem blockTotals_bounded (checked : ∀ tx ∈ vtx, tx.Checked params)
    (amounts : u.Amounts) : (blockTotals node nHeight u vtx).Bounded := by
  induction vtx generalizing u
  case nil => exact ⟨le_rfl, le_rfl, le_rfl, le_rfl, le_rfl⟩
  case cons tx vtx ih =>
    have ⟨checked₁, checked⟩ := forall_mem_cons.mp checked
    exact (checked₁.totals_bounded amounts).add (ih checked (checked₁.applied_amounts amounts))

theorem connectTxs_exact (arith : Arith) (block : CBlock) (i : ℕ)
    (checked : ∀ tx ∈ vtx, tx.Checked params) (start : NoneBelow u s.view)
    (new : ∀ tx ∈ vtx, ∀ p ∈ tx.coins (node.skips nHeight) nHeight, u p.1 = none) (amounts : s.view.utxo.Amounts)
    (bounded : s.totals.Bounded) (fits : (s.totals + blockTotals node nHeight s.view.utxo vtx).Fits) :
    connectTxs arith node nHeight block i s vtx = connectTxs .exact node nHeight block i s vtx := by
  induction vtx generalizing i s
  case nil => rfl
  case cons tx vtx ih =>
    obtain ⟨checked₁, checked⟩ := forall_mem_cons.mp checked
    obtain ⟨new₁, new⟩ := forall_mem_cons.mp new
    have amounts₁ : (tx.applied node nHeight tx.inputsSpent s.view.utxo).Amounts := checked₁.applied_amounts amounts
    rw [blockTotals, ← Totals.add_assoc] at fits
    have room := fits.of_add (blockTotals_bounded checked amounts₁)
    simp only [connectTxs]
    rw [connectTx_exact arith block i checked₁ amounts bounded room]
    refine bind_congr_ok fun s₁ step => ?_
    obtain ⟨_, _, _, connected⟩ := connectTx_ok checked₁.distinct step
    obtain ⟨start₁, applied⟩ := connected.applied start new₁
    have totals := connected.totals (by rintro ⟨⟩)
    rw [← applied] at amounts₁ fits
    rw [← totals] at fits
    exact ih (i + 1) checked start₁ new amounts₁ (totals ▸ bounded.add (checked₁.totals_bounded amounts)) fits

end

def mintFigures (node : Node) (nHeight : ℕ) (t : Totals) : List ℤ :=
  let fAssetValidation := node.consensus.networkUpgradeActive nHeight .ACTIVATE_ASSET_VALIDATION
  let assetToMint := if fAssetValidation then 0 else -t.nAssetValue
  let nMint := t.nValueOut - t.nValueIn
  let nExpectedMint := node.params.getBlockValue nHeight + t.nFees
  let nRewards := nExpectedMint + node.params.getMasternodePayment nHeight +
    if fAssetValidation then node.multiMiningManager.getSummaryAssetsToReward else 0
  [assetToMint, nMint, nMint + t.nFees, nMint + t.nFees + assetToMint, nExpectedMint,
    nExpectedMint + node.params.getMasternodePayment nHeight, nRewards,
    if mintUnchecked node nHeight then 0 else nRewards + budgetAllowance node nHeight]

variable {node : Node} {nHeight : ℕ} {s : ConnectState}

theorem isMintValid_of_inRange (h : ∀ n ∈ mintFigures node nHeight s.totals, Arith.InRange n) (arith : Arith) :
    isMintValid arith node nHeight s = isMintValid .exact node nHeight s := by
  simp only [mintFigures, forall_mem_cons, ConnectState.totals] at h
  obtain ⟨assetToMint, nMint, withFees, withAssets, nExpectedMint, payment, rewards, budget, _⟩ := h
  unfold isMintValid isBlockValueValid
  cases fAssetValidation : node.consensus.networkUpgradeActive nHeight .ACTIVATE_ASSET_VALIDATION
  all_goals
    simp only [fAssetValidation, Bool.false_eq_true, if_false, if_true, add_zero] at assetToMint withAssets rewards budget
    simp only [Bool.false_eq_true, if_false, if_true, norm_exact, ok_bind, add_zero,
      arith.norm_of_inRange assetToMint, arith.norm_of_inRange nMint, arith.norm_of_inRange withFees,
      arith.norm_of_inRange withAssets, arith.norm_of_inRange nExpectedMint, arith.norm_of_inRange payment,
      arith.norm_of_inRange rewards]
    split
    case isTrue => rfl
    case isFalse early =>
      rw [mintUnchecked, if_neg early] at budget
      rw [arith.norm_of_inRange budget, ok_bind]

theorem inRange_of_isBlockValueValid {nExpectedValue nMinted : ℤ} {b : Bool}
    (h : isBlockValueValid node .checked nHeight nExpectedValue nMinted = .ok b) :
    Arith.InRange (if mintUnchecked node nHeight then 0 else nExpectedValue + budgetAllowance node nHeight) := by
  unfold isBlockValueValid at h
  unfold mintUnchecked
  split at h
  case isTrue early =>
    rw [if_pos early]
    decide
  case isFalse early =>
    rw [if_neg early]
    have ⟨_, norm, _⟩ := bind_eq_ok.mp h
    exact (Arith.norm_checked_eq_ok.mp norm).left

theorem inRange_of_isMintValid {b : Bool} (h : isMintValid .checked node nHeight s = .ok b) :
    ∀ n ∈ mintFigures node nHeight s.totals, Arith.InRange n := by
  simp only [mintFigures, forall_mem_cons, ConnectState.totals]
  unfold isMintValid at h
  cases fAssetValidation : node.consensus.networkUpgradeActive nHeight .ACTIVATE_ASSET_VALIDATION
  all_goals
    simp only [fAssetValidation, Bool.false_eq_true, if_false, if_true, ok_bind, bind_eq_ok, Arith.norm_checked_eq_ok,
      add_zero] at h ⊢
  case false =>
    obtain ⟨_, ⟨assetToMint, rfl⟩, _, ⟨nMint, rfl⟩, _, ⟨withFees, rfl⟩, _, ⟨withAssets, rfl⟩, _, ⟨nExpectedMint, rfl⟩, _,
      ⟨payment, rfl⟩, value⟩ := h
    exact ⟨assetToMint, nMint, withFees, withAssets, nExpectedMint, payment, payment,
      inRange_of_isBlockValueValid value, by simp⟩
  case true =>
    obtain ⟨_, ⟨nMint, rfl⟩, _, ⟨withFees, rfl⟩, _, ⟨withAssets, rfl⟩, _, ⟨nExpectedMint, rfl⟩, _,
      ⟨payment, rfl⟩, _, ⟨rewards, rfl⟩, value⟩ := h
    exact ⟨by decide, nMint, withFees, withFees, nExpectedMint, payment, rewards,
      inRange_of_isBlockValueValid value, by simp⟩

theorem overflow_of_isMintValid : ∀ e, isMintValid .checked node nHeight s = .error e → e = .overflow := by
  have value (n m : ℤ) : ∀ e, isBlockValueValid node .checked nHeight n m = .error e → e = .overflow := by
    unfold isBlockValueValid
    split
    case isTrue => nofun
    case isFalse => exact error_of_bind (Arith.norm_checked_error _) nofun
  unfold isMintValid
  cases node.consensus.networkUpgradeActive nHeight .ACTIVATE_ASSET_VALIDATION
  all_goals
    simp only [Bool.false_eq_true, if_false, if_true, ok_bind]
    repeat refine error_of_bind (Arith.norm_checked_error _) fun _ => ?_
    exact value _ _

theorem isMintValid_exact_ok (node : Node) (nHeight : ℕ) (s : ConnectState) :
    ∃ b, isMintValid .exact node nHeight s = .ok b := by
  have value (n m : ℤ) : ∃ b, isBlockValueValid node .exact nHeight n m = .ok b := by
    unfold isBlockValueValid
    split <;> exact ⟨_, rfl⟩
  unfold isMintValid
  cases node.consensus.networkUpgradeActive nHeight .ACTIVATE_ASSET_VALIDATION <;> exact value _ _

section

variable [Crypto] {node : Node} {block : CBlock} {pindex : CBlockIndex} {pprev : Option CBlockIndex} {view : CCoinsViewCache}
  {fJustCheck : Bool}

-- The totals and all that is computed of them are 64-bit integers.
def TotalsFit (node : Node) (nHeight : ℕ) (u : Utxo) (vtx : List CTransaction) : Prop :=
  (blockTotals node nHeight u vtx).Fits ∧
    ∀ n ∈ mintFigures node nHeight (blockTotals node nHeight u vtx), Arith.InRange n

theorem connectTransactions_exact (arith : Arith) (consistent : view.Consistent)
    (checked : ∀ tx ∈ block.vtx, tx.Checked node.consensus)
    (absent : ∀ tx ∈ block.vtx, ∀ p ∈ tx.coins (node.skips pindex.nHeight) pindex.nHeight, view.utxo p.1 = none)
    (amounts : view.utxo.Amounts) (fits : (blockTotals node pindex.nHeight view.utxo block.vtx).Fits) :
    connectTransactions arith node block pindex view.getBestBlock.2 =
      connectTransactions .exact node block pindex view.getBestBlock.2 := by
  have ⟨v₁, best, fetched₁⟩ := view.getBestBlock_eq
  have ⟨v₂, anchor, fetched₂⟩ := v₁.getBestAnchor_eq
  have ⟨v₃, tree, fetched₃⟩ := v₂.getSaplingAnchorAt_eq v₁.view.bestAnchor
  simp only [connectTransactions, best, anchor, tree]
  split
  case h_1 => rfl
  case h_2 eq =>
    obtain ⟨_, rfl⟩ := Prod.mk.inj eq
    have fetched := (fetched₁.trans fetched₂).trans fetched₃
    refine connectTxs_exact arith block 0 checked ((NoneBelow.start consistent).fetched fetched) absent ?_ ?_ ?_
    · exact fetched.utxo ▸ amounts
    · exact ⟨le_rfl, le_rfl, le_rfl, le_rfl, le_rfl⟩
    · rw [fetched.utxo]
      exact (Totals.zero_add (blockTotals ..)).symm ▸ fits

theorem connectBlock_exact (arith : Arith) (consistent : view.Consistent) (earned : block.FlagEarned node.params)
    (absent : ∀ tx ∈ block.vtx, ∀ p ∈ tx.coins (node.skips pindex.nHeight) pindex.nHeight, view.utxo p.1 = none)
    (amounts : view.utxo.Amounts) (fits : TotalsFit node pindex.nHeight view.utxo block.vtx) :
    connectBlock arith node block pindex pprev view fJustCheck =
      connectBlock .exact node block pindex pprev view fJustCheck := by
  simp only [connectBlock]
  refine bind_congr_ok fun block' recheck => bind_congr_ok fun _ _ => ?_
  obtain ⟨checked, _⟩ := checkBlock_ok earned (recheckBlock_ok recheck)
  split
  case isTrue => rfl
  case isFalse =>
    refine bind_congr_ok fun _ _ => ?_
    rw [connectTransactions_exact arith consistent checked.transactions absent amounts fits.left]
    refine bind_congr_ok fun s loop => ?_
    have totals := connectTransactions_totals consistent checked.transactions absent loop (by rintro ⟨⟩)
    have figures := fits.right
    rw [← totals] at figures
    have supply : Arith.InRange (s.nValueOut - s.nValueIn) := figures _ (by simp [mintFigures, ConnectState.totals])
    simp only [checkConnected, isMintValid_of_inRange figures arith, arith.norm_of_inRange supply, norm_exact]

theorem connectBlock_exact_error {s : ConnectState} {e : Failure}
    (other : block.getHash ≠ node.consensus.hashGenesisBlock) (opened : Opened node block pprev view fJustCheck)
    (header : checkHeader node block pindex = .ok ())
    (loop : connectTransactions .exact node block pindex view.getBestBlock.2 = .ok s)
    (final : FinallyValid node block pindex s)
    (h : connectBlock .exact node block pindex pprev view fJustCheck = .error e) :
    e = dos 100 REJECT_INVALID "bad-cb-amount" := by
  have ⟨block', recheck⟩ := isOk_iff.mp opened.recheck
  have ⟨b, mint⟩ := isMintValid_exact_ok node pindex.nHeight s
  simp only [connectBlock, recheck, ok_bind, failIf_of_not (not_not.mpr opened.prev), if_neg other, header, loop,
    checkConnected, failIf_of_not final.root, mint, failIf_of_not final.payee, failIf_of_not final.scripts] at h
  cases b
  case false => exact (Except.error.inj h).symm
  case true =>
    simp only [Bool.not_true, Bool.false_eq_true, failIf_false, ok_bind, norm_exact] at h
    split at h <;> cases h

-- For an otherwise valid block the run with an alarm succeeds just when the totals fit.
theorem totalsFit_of_alarm (other : block.getHash ≠ node.consensus.hashGenesisBlock) (consistent : view.Consistent)
    (earned : block.FlagEarned node.params)
    (absent : ∀ tx ∈ block.vtx, ∀ p ∈ tx.coins (node.skips pindex.nHeight) pindex.nHeight, view.utxo p.1 = none)
    (valid : OtherwiseValid node block pindex pprev view fJustCheck)
    (h : connectBlock .checked node block pindex pprev view fJustCheck =
      connectBlock .exact node block pindex pprev view fJustCheck) :
    TotalsFit node pindex.nHeight view.utxo block.vtx := by
  obtain ⟨opened, s, ⟨header, loop⟩, final⟩ := valid
  have checked := opened.checked earned
  obtain ⟨t, exact, alike⟩ := exactLoop checked loop
  have final : FinallyValid node block pindex t :=
    ⟨alike.saplingTree ▸ final.root, final.payee, alike.vChecks ▸ final.scripts⟩
  obtain ⟨block', recheck⟩ := isOk_iff.mp opened.recheck
  have silent : connectBlock .checked node block pindex pprev view fJustCheck ≠ .error .overflow := by
    intro alarm
    have := connectBlock_exact_error other opened header exact final (h.symm.trans alarm)
    cases this
  have sim : Sim (· = .overflow) (Alike fun m n => m = n ∧ Arith.InRange m)
      (connectTransactions .checked node block pindex view.getBestBlock.2)
      (connectTransactions .exact node block pindex view.getBestBlock.2) :=
    connectTransactions_sim Tally.checked (.same Tally.checked node node.fAddressIndex) checked
  rw [exact] at sim
  generalize run : connectTransactions .checked node block pindex view.getBestBlock.2 = r at sim
  simp only [connectBlock, recheck, ok_bind, failIf_of_not (not_not.mpr opened.prev), if_neg other, header, run] at silent
  cases sim
  case stop e stop =>
    exact absurd (by rw [stop]; rfl) silent
  case ok c alike =>
    have totals := connectTransactions_totals consistent checked absent run (by rintro ⟨⟩)
    rw [TotalsFit, ← totals]
    refine ⟨⟨alike.nValueIn.right.right, alike.nValueOut.right.right, alike.nAssetValue.right.right⟩, ?_⟩
    cases mint : isMintValid .checked node pindex.nHeight c
    case ok b => exact inRange_of_isMintValid mint
    case error e =>
      rw [overflow_of_isMintValid e mint] at mint
      have root := alike.saplingTree ▸ final.root
      exact absurd (by simp only [checkConnected, failIf_of_not root, ok_bind, mint, error_bind]) silent

-- No total leaves 64 bits, and the verdict is that of exact totals.
def StaysExact (node : Node) (block : CBlock) (pindex : CBlockIndex) (pprev : Option CBlockIndex) (view : CCoinsViewCache)
    (fJustCheck : Bool) : Prop :=
  connectBlock .checked node block pindex pprev view fJustCheck =
      connectBlock .exact node block pindex pprev view fJustCheck ∧
    (connectBlock .int64 node block pindex pprev view fJustCheck).isOk =
      (connectBlock .exact node block pindex pprev view fJustCheck).isOk

theorem connectBlock_staysExact_iff (node : Node) (block : CBlock) (pindex : CBlockIndex) (pprev : Option CBlockIndex)
    (view : CCoinsViewCache) (fJustCheck : Bool) (consistent : view.Consistent) (earned : block.FlagEarned node.params)
    (absent : ∀ tx ∈ block.vtx, ∀ p ∈ tx.coins (node.skips pindex.nHeight) pindex.nHeight, view.utxo p.1 = none)
    (amounts : view.utxo.Amounts) :
    (TotalsFit node pindex.nHeight view.utxo block.vtx → StaysExact node block pindex pprev view fJustCheck) ∧
      (block.getHash ≠ node.consensus.hashGenesisBlock → OtherwiseValid node block pindex pprev view fJustCheck →
        StaysExact node block pindex pprev view fJustCheck → TotalsFit node pindex.nHeight view.utxo block.vtx) := by
  constructor
  · intro fits
    constructor
    · exact connectBlock_exact .checked consistent earned absent amounts fits
    · rw [connectBlock_exact .int64 consistent earned absent amounts fits]
  · intro other valid exact
    exact totalsFit_of_alarm other consistent earned absent valid exact.left

end

theorem connectBlock_staysExact_payments :
    let _crypto := Crypto.toy
    let node := exampleNode .regtest exampleTip
    let block := exampleBlock exampleTip [minerTx, paymentTx, changeTx]
    StaysExact node block exampleIndex (some exampleTip) exampleView false := by
  intro _crypto node block
  have absent : ∀ tx ∈ block.vtx, ∀ p ∈ tx.coins (node.skips 10) 10, exampleView.utxo p.1 = none := by decide
  have ⟨exact, _⟩ := connectBlock_staysExact_iff node block exampleIndex (some exampleTip) exampleView false
    exampleView_consistent (exampleBlock_earned _ _ _) absent fun o c found => (exampleView_found found).right ▸ by decide
  exact exact ⟨⟨by decide, by decide, by decide⟩, by decide⟩

section

variable [Crypto] {node : Node} {nHeight : ℕ} {tx : CTransaction} {s : ConnectState}

structure CTransaction.Free (tx : CTransaction) (node : Node) (out : CTxOut) : Prop where
  vout : tx.vout = [out]
  inputs : (!tx.isCoinBase && !tx.containsAssets) = false
  plain : tx.isShieldedTx = false
  amount : out.isNull = false
  spendable : out.scriptPubKey.isUnspendable = false
  avoids : tx.Avoids node.containsOutPoint

omit [Crypto] in
theorem countAssets_alike (tx : CTransaction) (s : ConnectState) :
    ∃ s', countAssets .int64 tx s = .ok s' ∧ Alike (fun _ _ => True) s' s := by
  unfold countAssets
  split
  case isFalse => exact ⟨s, rfl, rfl, rfl, rfl, rfl, rfl, trivial, trivial, trivial, trivial⟩
  case isTrue =>
    rw [getMultiMiningSpend_eq]
    have ⟨n, sum⟩ : ∃ n, Arith.int64.addAll 0 (tx.vout.map (·.nValue.toInt)) = .ok n := by
      generalize (0 : ℤ) = n
      induction tx.vout.map (·.nValue.toInt) generalizing n
      case nil => exact ⟨n, rfl⟩
      case cons ih => exact ih _
    rw [sum]
    exact ⟨_, rfl, rfl, rfl, rfl, rfl, rfl, trivial, trivial, trivial, trivial⟩

theorem addCoins_free {out : CTxOut} {v : CCoinsViewCache} (nHeight : ℕ) (fSkipInvalid : Bool) (free : tx.Free node out)
    (new : v.cache.cacheCoins.lookup ⟨tx.getHash, 0⟩ = none) :
    ∃ v', addCoins node.containsOutPoint v tx nHeight false fSkipInvalid = .ok v' ∧
      ∀ o, o ≠ ⟨tx.getHash, 0⟩ → v'.cache.cacheCoins.lookup o = v.cache.cacheCoins.lookup o := by
  have banned : node.containsOutPoint ⟨tx.getHash, UInt32.ofNat 0⟩ = false :=
    free.avoids 0 (by rw [free.vout]; exact one_pos)
  have new : v.cache.cacheCoins.lookup ⟨tx.getHash, UInt32.ofNat 0⟩ = none := new
  have unspent (fCoinBase fCoinStake : Bool) : Coin.isSpent ⟨fCoinBase, fCoinStake, out, nHeight⟩ = false := free.amount
  simp only [addCoins, free.vout, addCoinsFrom, banned, Bool.and_false, Bool.false_eq_true, if_false,
    addCoin, CoinsCache.addCoin, unspent, free.spendable, new, Option.getD_none]
  refine ⟨_, rfl, fun o other => ?_⟩
  have other : o ≠ ⟨tx.getHash, UInt32.ofNat 0⟩ := other
  simp only
  rw [AList.lookup_insert_ne other, AList.lookup_insert_ne other]

theorem connectTx_free {out : CTxOut} (nHeight : ℕ) (free : tx.Free node out) (block : CBlock) (i : ℕ)
    (room : s.nSigOps + getLegacySigOpCount tx ≤ MAX_BLOCK_SIGOPS_CURRENT)
    (new : s.view.cache.cacheCoins.lookup ⟨tx.getHash, 0⟩ = none) :
    ∃ s', connectTx .int64 node nHeight tx block i s = .ok s' ∧ s'.nSigOps = s.nSigOps + getLegacySigOpCount tx ∧
      s'.saplingTree = s.saplingTree ∧ s'.vChecks = s.vChecks ∧
      ∀ o, o ≠ ⟨tx.getHash, 0⟩ → s'.view.cache.cacheCoins.lookup o = s.view.cache.cacheCoins.lookup o := by
  have available (s : ConnectState) (room : s.nSigOps ≤ MAX_BLOCK_SIGOPS_CURRENT) : checkAvailable tx s = .ok s := by
    unfold checkAvailable
    split
    case isTrue => rfl
    case isFalse coinBase =>
      have assets : tx.containsAssets = true := by simpa [coinBase] using free.inputs
      simp only [haveInputs, haveShieldedRequirements, getP2SHSigOpCount, free.plain, assets,
        Bool.not_true, Bool.and_false, Bool.or_true, Bool.false_eq_true, if_false, if_true, failIf_false, ok_bind, add_zero,
        failIf_of_not (not_lt.mpr room)]
  have inputs (s : ConnectState) : connectInputs .int64 node nHeight tx s = .ok s := by
    unfold connectInputs
    rw [free.inputs]
    rfl
  have tree (t : SaplingMerkleTree) : appendCommitments tx t = .ok t := by
    unfold appendCommitments
    rw [free.plain]
    rfl
  let s₁ : ConnectState := { s with nSigOps := s.nSigOps + getLegacySigOpCount tx }
  obtain ⟨s₂, outputs, alike₂⟩ := countTx_alike node tx node.fAddressIndex s₁
  obtain ⟨s₃, assets, alike₃⟩ := countAssets_alike tx s₂
  have view : s₃.view = s.view := alike₃.view.trans alike₂.view
  rw [← view] at new
  obtain ⟨v', add, frame⟩ := addCoins_free nHeight (node.skipInvalidUTXOS nHeight) free new
  have update : updateCoins node tx s₃.view nHeight (node.skipInvalidUTXOS nHeight) = .ok ({}, v') := by
    simp only [updateCoins, free.inputs, Bool.false_eq_true, if_false, add, ok_bind]
  let s' : ConnectState := { s₃ with view := v', vtxundo := if i > 0 then s₃.vtxundo ++ [{}] else s₃.vtxundo }
  refine ⟨s', ?_, ?_, ?_, ?_, fun o other => ?_⟩
  · simp only [connectTx, ite_bind, bind_eq_ok, exists_unit, failIf_eq_ok, Except.ok.injEq]
    exact ⟨not_lt.mpr room, by simp [free.plain], s₁, available s₁ room, s₁, inputs s₁, s₂, outputs, s₃, assets, _, update,
      s₃.saplingTree, tree _, rfl⟩
  · exact alike₃.nSigOps.trans alike₂.nSigOps
  · exact alike₃.saplingTree.trans alike₂.saplingTree
  · exact alike₃.vChecks.trans alike₂.vChecks
  · rw [frame o other, view]

theorem connectTxs_free {vtx : List CTransaction} (nHeight : ℕ) (free : ∀ tx ∈ vtx, ∃ out, tx.Free node out) (block : CBlock) (i : ℕ)
    (room : s.nSigOps + (vtx.map getLegacySigOpCount).sum ≤ MAX_BLOCK_SIGOPS_CURRENT)
    (distinct : (vtx.map (·.getHash)).Nodup)
    (new : ∀ tx ∈ vtx, s.view.cache.cacheCoins.lookup ⟨tx.getHash, 0⟩ = none) :
    ∃ s', connectTxs .int64 node nHeight block i s vtx = .ok s' ∧ s'.saplingTree = s.saplingTree ∧
      s'.vChecks = s.vChecks := by
  induction vtx generalizing i s
  case nil => exact ⟨s, rfl, rfl, rfl⟩
  case cons tx vtx ih =>
    have ⟨⟨out, free₁⟩, free⟩ := forall_mem_cons.mp free
    have ⟨new₁, new⟩ := forall_mem_cons.mp new
    have ⟨fresh, distinct⟩ := nodup_cons.mp distinct
    rw [map_cons, sum_cons] at room
    have ⟨s₁, step, nSigOps, tree₁, checks₁, frame⟩ := connectTx_free nHeight free₁ block i (by omega) new₁
    have ⟨s', run, tree, checks⟩ := ih (s := s₁) free (i + 1) (by omega) distinct fun tx' mem => by
      rw [frame, new tx' mem]
      intro same
      exact fresh (mem_map.mpr ⟨tx', mem, congrArg COutPoint.hash same⟩)
    refine ⟨s', ?_, tree.trans tree₁, checks.trans checks₁⟩
    rw [connectTxs, step]
    exact run

end

section

attribute [local instance] Crypto.toy

theorem toy_hash256_bytes {msg : Bytes} (h : 32 ≤ msg.length) : bytes (hash256 msg) = msg.take 32 := by
  have once (front : Bytes) (length : front.length = 32) :
      bytes (BitVec.ofNat 256 (leNat (front.take 32))) = front := by
    have lt : leNat front < 2 ^ 256 := by
      have lt := leNat_lt front
      rw [length] at lt
      exact lt
    have full : front.take 32 = front := take_of_length_le length.le
    rw [full, bytes, BitVec.toNat_ofNat, mod_eq_of_lt lt, ← length, leBytes_leNat]
  have front : (msg.take 32).length = 32 := by
    rw [length_take]
    omega
  have first := once (msg.take 32) front
  rw [take_take, min_self] at first
  have eq : hash256 msg = BitVec.ofNat 256 (leNat ((msg.take 32).take 32)) := by
    change BitVec.ofNat 256 (leNat ((bytes (BitVec.ofNat 256 (leNat (msg.take 32)))).take 32)) = _
    rw [first]
  rw [eq]
  exact once (msg.take 32) front

theorem toy_merkleHash (l r : Uint256) : merkleHash l r = l := by
  apply bytes_injective
  rw [merkleHash, toy_hash256_bytes (by simp), take_append_of_le_length (by simp)]
  exact take_of_length_le (by simp)

open MerkleTree in
theorem toy_root (k : ℕ) (l : List Uint256) : root merkleHash k l = l.headD default := by
  induction k generalizing l
  case zero => rfl
  case succ k ih =>
    simp only [root, toy_merkleHash, ih]
    split
    case isTrue => rfl
    case isFalse =>
      cases l
      case nil => rw [take_nil]
      case cons a l => rw [take_cons (Nat.two_pow_pos k)]; rfl

open MerkleTree in
theorem toy_mutated {k : ℕ} {l : List Uint256} (distinct : l.Nodup) : mutated merkleHash k l = false := by
  induction k generalizing l
  case zero => rfl
  case succ k ih =>
    have left := ih (distinct.sublist (take_sublist (2 ^ k) l))
    have right := ih (distinct.sublist (drop_sublist (2 ^ k) l))
    by_cases short : l.length ≤ 2 ^ k
    case pos => rw [mutated_short short, ih distinct]
    case neg =>
      have long := not_le.mp short
      have heads : (l.take (2 ^ k)).headD default ≠ (l.drop (2 ^ k)).headD default := by
        cases l
        case nil => exact absurd long (not_lt_zero _)
        case cons a l =>
          have ⟨m, eq⟩ := exists_eq_succ_of_ne_zero (Nat.two_pow_pos k).ne'
          rw [eq, length_cons] at long
          have ⟨b, rest, drop⟩ := exists_cons_of_ne_nil (drop_eq_nil_iff.not.mpr (by omega : ¬l.length ≤ m))
          have mem : b ∈ l := mem_of_mem_drop (drop ▸ mem_cons_self ..)
          rw [eq, drop_succ_cons, drop]
          exact fun same : a = b => (nodup_cons.mp distinct).left (same ▸ mem)
      rw [mutated_long long, left, right, toy_root, toy_root, beq_eq_false_iff_ne.mpr heads, Bool.and_false]
      rfl

theorem toy_getHash {tx tx' : CTransaction} (long : 32 ≤ tx.serialize.length) (long' : 32 ≤ tx'.serialize.length)
    (h : tx.getHash = tx'.getHash) : tx.nType = tx'.nType := by
  have front : tx.serialize.take 32 = tx'.serialize.take 32 := by
    rw [← toy_hash256_bytes long, ← toy_hash256_bytes long']
    exact congrArg bytes h
  have four (tx : CTransaction) : tx.serialize.take 4 = serializeInt16 tx.nVersion ++ serializeInt16 tx.nType := by
    simp only [serialize, append_assoc]
    rw [← append_assoc]
    exact take_left' (by simp)
  have front := congrArg (take 4) front
  rw [take_take, take_take] at front
  have same := (four tx).symm.trans (front.trans (four tx'))
  exact serializeInt16_prefixFree.injOn trivial trivial (serializeInt16_prefixFree.inj same).right

end

section

attribute [local instance] Crypto.toy

def hoardTx (k : ℕ) : CTransaction :=
  { mintTx with
    nType := Int16.ofNat k
    vout := [{ nValue := 43199500 * COIN, scriptPubKey := [0x76, 0xa9, 0xd4] ++ List.replicate 21 0 ++ [0x88, 0xac] }] }

def hoard (n : ℕ) : List CTransaction :=
  (List.range n).map fun k => hoardTx (k + 1)

def hoardNode : Node := exampleNode .regtest exampleTip

def hoardBlock (n : ℕ) : CBlock := exampleBlock exampleTip (greedyMinerTx :: hoard n)

theorem hoardTx_length (k : ℕ) : (hoardTx k).serialize.length = 147 := by
  simp only [serialize, length_append, serializeInt16_length, serializeUInt32_length, Uint160.bytes_length]
  rfl

theorem forall_hoard {P : CTransaction → Prop} (h : ∀ k, P (hoardTx k)) (n : ℕ) : ∀ tx ∈ hoard n, P tx := by
  intro tx mem
  have ⟨k, _, eq⟩ := mem_map.mp mem
  exact eq ▸ h (k + 1)

theorem hoard_sum (f : CTransaction → ℕ) (c n : ℕ) (h : ∀ k, f (hoardTx k) = c) : ((hoard n).map f).sum = n * c := by
  have each : (hoard n).map f = replicate n c := by
    rw [eq_replicate_iff]
    refine ⟨by simp [hoard], fun b mem => ?_⟩
    have ⟨tx, found, eq⟩ := mem_map.mp mem
    exact eq ▸ forall_hoard (P := fun tx => f tx = c) h n tx found
  rw [each, sum_replicate, smul_eq_mul]

variable {n : ℕ}

theorem hoard_distinct (h : n < 2 ^ 15) : ((greedyMinerTx :: hoard n).map (·.getHash)).Nodup := by
  have types : (greedyMinerTx :: hoard n).map (·.nType) = (range (n + 1)).map Int16.ofNat := by
    rw [range_succ_eq_map, map_cons, map_cons, hoard, map_map, map_map]
    rfl
  have distinct : ((greedyMinerTx :: hoard n).map (·.nType)).Nodup := by
    rw [types]
    refine nodup_range.map_on fun j hj k hk eq => ?_
    have eq := congrArg (·.toBitVec.toNat) eq
    rw [mem_range] at hj hk
    have small (m : ℕ) (lt : m < n + 1) : (Int16.ofNat m).toBitVec.toNat = m := mod_eq_of_lt (by omega)
    rwa [small j hj, small k hk] at eq
  have long : ∀ tx ∈ greedyMinerTx :: hoard n, 32 ≤ tx.serialize.length :=
    forall_mem_cons.mpr ⟨by decide, forall_hoard (fun k => by rw [hoardTx_length]; decide) n⟩
  rw [List.Nodup, pairwise_map] at distinct ⊢
  exact distinct.imp_of_mem fun mem mem' ne same => ne (toy_getHash (long _ mem) (long _ mem') same)

theorem hoardTx_free (k : ℕ) : ∃ out, (hoardTx k).Free hoardNode out :=
  ⟨_, rfl, rfl, rfl, rfl, rfl, fun _ _ => rfl⟩

theorem hoardBlock_merkle (h : n < 2 ^ 15) : checkMerkleRoot (hoardBlock n) = .ok () := by
  have pos : 0 < ((greedyMinerTx :: hoard n).map getHash).length := succ_pos _
  have fits : ((greedyMinerTx :: hoard n).map getHash).length ≤ 2 ^ 31 := by
    simp [hoard]
    omega
  have clean : (hoardBlock n).blockMerkleRoot.2 = false :=
    (congrArg Prod.snd (computeMerkleRoot_eq pos fits)).trans (toy_mutated (hoard_distinct h))
  have root : (hoardBlock n).hashMerkleRoot = (hoardBlock n).blockMerkleRoot.1 := rfl
  simp [checkMerkleRoot, clean, root]

theorem hoardBlock_stake (n : ℕ) : (hoardBlock n).isProofOfStake = false := by
  unfold CBlock.isProofOfStake
  split
  case h_1 eq =>
    have mem := forall_hoard (P := fun tx => tx.isCoinStake = false) (fun _ => rfl) n
    rw [(cons.inj eq).right] at mem
    exact mem _ (mem_cons_self ..)
  case h_2 => rfl

theorem hoardBlock_size (h : n ≤ 10000) : checkBlockSize (hoardBlock n) = .ok () := by
  have header : (hoardBlock n).toCBlockHeader.serialize.length = 144 := by
    simp only [CBlockHeader.serialize, length_append, bytes_length, serializeInt32_length,
      serializeUInt32_length]
    rfl
  have vtx : (serializeVector serialize (hoardBlock n).vtx).length ≤ 9 + 100 + n * 147 := by
    have count := writeCompactSize_length_le (hoardBlock n).vtx.length
    have miner : greedyMinerTx.serialize.length ≤ 100 := by decide
    have sum := hoard_sum (·.serialize.length) 147 n hoardTx_length
    have all : ((hoardBlock n).vtx.map fun tx => tx.serialize.length).sum = greedyMinerTx.serialize.length + n * 147 := by
      rw [← sum]
      rfl
    rw [serializeVector, length_append, length_flatMap, all]
    omega
  have reg : (serializeVector CAssetRegistration.serialize (hoardBlock n).vReg).length = 1 := rfl
  have size : (hoardBlock n).serialize.length ≤ 144 + (9 + 100 + n * 147) + 1 := by
    rw [CBlock.serialize, hoardBlock_stake, length_append, length_append, length_append, header, reg]
    exact Nat.add_le_add_right (Nat.add_le_add_left vtx _) _
  have shielded : getTotalShieldedTxSize (hoardBlock n) = 0 := by
    have none : (hoardBlock n).vtx.filter (·.isShieldedTx) = [] :=
      filter_eq_nil_iff.mpr (forall_mem_cons.mpr ⟨by decide, forall_hoard (fun _ => by rintro ⟨⟩) n⟩)
    rw [getTotalShieldedTxSize, none]
    rfl
  have length : (hoardBlock n).vtx.length = n + 1 := by simp [hoardBlock, exampleBlock, hoard]
  have some : (hoardBlock n).vtx.isEmpty = false := rfl
  simp only [checkBlockSize, seq_eq_ok, failIf_eq_ok, shielded, length, some, MAX_BLOCK_SIZE_CURRENT,
    MAX_BLOCK_SHIELDED_TXES_SIZE, Bool.or_eq_true, decide_eq_true_eq, Bool.and_eq_true]
  constructor
  · simp only [Bool.false_eq_true, false_or, not_or]
    refine ⟨by omega, fun large => ?_⟩
    have large := of_decide_eq_true large
    omega
  · rintro ⟨_, large⟩
    exact absurd large (by decide)

theorem hoardBlock_sigOps (n : ℕ) : ((hoardBlock n).vtx.map getLegacySigOpCount).sum = n := by
  have sum := hoard_sum getLegacySigOpCount 1 n fun _ => rfl
  rw [mul_one] at sum
  exact (zero_add _).trans sum

theorem hoardBlock_check (h : n ≤ 10000) :
    checkBlock hoardNode (hoardBlock n) true true true = .ok { hoardBlock n with fChecked := true } := by
  have coinBase : checkCoinBase (hoardBlock n) = .ok () := by
    have none : ((hoardBlock n).vtx.tail.any fun tx => tx.isCoinBase && !tx.containsAssets) = false :=
      any_eq_false.mpr (forall_hoard (fun _ => by rintro ⟨⟩) n)
    simp only [checkCoinBase, none]
    rfl
  have each : (hoardBlock n).vtx.forM (fun tx =>
      (checkTransaction hoardNode tx true false).mapError Failure.rewrapped) = .ok () := by
    refine forM_eq_ok.mpr (forall_mem_cons.mpr ⟨by decide, ?_⟩)
    exact forall_hoard (P := fun tx => (checkTransaction hoardNode tx true false).mapError Failure.rewrapped = .ok ())
      (fun _ => rfl) n
  have pow : checkProofOfWork hoardNode.params (hoardBlock n).getHash (hoardBlock n).nBits = true := rfl
  have signature : checkBlockSignature hoardNode (hoardBlock n) = true := by
    rw [checkBlockSignature, CBlock.isProofOfWork, hoardBlock_stake]
    rfl
  have sapling : hoardNode.consensus.networkUpgradeActive hoardNode.nextHeight .ACTIVATE_HUSH = false := rfl
  have assets : hoardNode.consensus.networkUpgradeActive hoardNode.nextHeight .ACTIVATE_ASSET_VALIDATION = false := rfl
  have cold : checkColdStaking hoardNode (hoardBlock n) = .ok true := rfl
  rw [checkBlock, if_neg (by exact Bool.false_ne_true)]
  simp only [hoardBlock_stake, pow, hoardBlock_merkle (by omega : n < 2 ^ 15), assets, hoardBlock_size h, coinBase, cold,
    sapling, each, hoardBlock_sigOps, signature, Bool.not_true, Bool.and_false, Bool.false_and, Bool.false_eq_true, failIf_false,
    onlyIf_true, onlyIf_false, ok_bind]
  rw [failIf_of_not (by unfold MAX_BLOCK_SIGOPS_LEGACY MAX_BLOCK_SIZE_LEGACY; omega)]
  rfl

theorem hoardBlock_otherwiseValid (h : n ≤ 10000) :
    OtherwiseValid hoardNode (hoardBlock n) exampleIndex (some exampleTip) exampleView false := by
  have recheck : (recheckBlock hoardNode (hoardBlock n) false).isOk := by
    rw [recheckBlock, Bool.not_false, hoardBlock_check h]
    rfl
  refine ⟨⟨recheck, rfl⟩, ?_⟩
  have free : ∀ tx ∈ (hoardBlock n).vtx, ∃ out, tx.Free hoardNode out :=
    forall_mem_cons.mpr ⟨⟨_, rfl, rfl, rfl, rfl, rfl, fun _ _ => rfl⟩, forall_hoard hoardTx_free n⟩
  have start : connectTransactions .int64 hoardNode (hoardBlock n) exampleIndex exampleView.getBestBlock.2 =
      connectTxs .int64 hoardNode 10 (hoardBlock n) 0 (loopStart exampleView) (hoardBlock n).vtx := rfl
  have room : (loopStart exampleView).nSigOps + ((hoardBlock n).vtx.map getLegacySigOpCount).sum ≤
      MAX_BLOCK_SIGOPS_CURRENT := by
    rw [hoardBlock_sigOps]
    unfold MAX_BLOCK_SIGOPS_CURRENT MAX_BLOCK_SIZE_CURRENT
    exact (zero_add n).trans_le (by omega)
  obtain ⟨s, loop, tree, checks⟩ := connectTxs_free 10 free (hoardBlock n) 0 room (hoard_distinct (by omega)) fun _ _ => rfl
  refine ⟨s, ⟨?_, start.trans loop⟩, nofun, nofun, ?_⟩
  · rw [checkHeader, hoardBlock_stake]
    rfl
  · rw [checks]
    nofun

theorem hoardTx_totals (u : Utxo) (k : ℕ) :
    (hoardTx k).totals hoardNode u = ⟨-4319950000000000, 0, 4319950000000000, 4319950000000000⟩ := by
  rfl

theorem hoard_totals (u : Utxo) (n : ℕ) : blockTotals hoardNode 10 u (hoard n) =
    ⟨-4319950000000000 * n, 0, 4319950000000000 * n, 4319950000000000 * n⟩ := by
  have length : (range n).length = n := length_range
  unfold hoard
  generalize range n = l at length
  subst length
  induction l generalizing u
  case nil => rfl
  case cons k l ih =>
    rw [map_cons, blockTotals, ih, hoardTx_totals, Totals.add_def, length_cons]
    dsimp only
    rw [Totals.mk.injEq]
    exact ⟨by omega, by omega, by omega, by omega⟩

theorem hoardBlock_totals : blockTotals hoardNode 10 exampleView.utxo (hoardBlock 2135).vtx =
    ⟨-9225093250000000000, 0, 9225093250000000000, 9223093250000000000⟩ := by
  have miner : greedyMinerTx.totals hoardNode exampleView.utxo = ⟨-2000000000000000, 0, 2000000000000000, 0⟩ := rfl
  change blockTotals hoardNode 10 exampleView.utxo (greedyMinerTx :: hoard 2135) = _
  rw [blockTotals, hoard_totals, miner]
  rfl

theorem hoardBlock_absent (n : ℕ) :
    ∀ tx ∈ (hoardBlock n).vtx, ∀ p ∈ tx.coins (hoardNode.skips 10) 10, exampleView.utxo p.1 = none := by
  have other : ∀ tx ∈ (hoardBlock n).vtx, tx.getHash ≠ 5 := by
    refine forall_mem_cons.mpr ⟨by decide, forall_hoard (fun k same => ?_) n⟩
    have first := congrArg (fun h => (bytes h).take 1) same
    simp only [getHash] at first
    rw [toy_hash256_bytes (by rw [hoardTx_length]; decide), take_take] at first
    have first : [1] = (bytes 5).take 1 := first
    exact absurd first (by decide)
  intro tx mem p coin
  have ⟨_, _, _, key⟩ := (outputCoins_mem coin).index
  cases found : exampleView.utxo p.1
  case none => rfl
  case some c =>
    have ⟨spent, _⟩ := exampleView_found found
    exact absurd (congrArg COutPoint.hash (key.symm.trans spent)) (other tx mem)

-- Each transaction is within the limits, the totals are not: the excess mint is not noticed.
theorem hoardBlock_not_staysExact :
    (checkBlock hoardNode (hoardBlock 2135) true true true).isOk ∧
      (connectBlock .int64 hoardNode (hoardBlock 2135) exampleIndex (some exampleTip) exampleView false).isOk ∧
      (connectBlock .exact hoardNode (hoardBlock 2135) exampleIndex (some exampleTip) exampleView false).isOk = false ∧
      ¬StaysExact hoardNode (hoardBlock 2135) exampleIndex (some exampleTip) exampleView false := by
  have checked : (checkBlock hoardNode (hoardBlock 2135) true true true).isOk := by
    rw [hoardBlock_check (by decide)]
    rfl
  have other : (hoardBlock 2135).getHash ≠ hoardNode.consensus.hashGenesisBlock := by
    decide
  have earned := exampleBlock_earned hoardNode.params exampleTip (greedyMinerTx :: hoard 2135)
  have accepted :
      (connectBlock .int64 hoardNode (hoardBlock 2135) exampleIndex (some exampleTip) exampleView false).isOk := by
    refine (connectBlock_isOk_iff other exampleView_consistent earned (hoardBlock_absent 2135)).mpr
      ⟨hoardBlock_otherwiseValid (by decide), ?_⟩
    rw [exampleIndex, hoardBlock_totals]
    decide
  have rejected :
      (connectBlock .exact hoardNode (hoardBlock 2135) exampleIndex (some exampleTip) exampleView false).isOk = false := by
    refine Bool.eq_false_iff.mpr fun accepted => ?_
    have ⟨r, accepted⟩ := isOk_iff.mp accepted
    have ⟨checked, _, connected⟩ := connectBlock_ok earned accepted
    cases connected
    case genesis genesis _ => exact other genesis
    case loop s _ _ loop final _ _ =>
      have fetched := loopStart_fetched exampleView
      have start := (NoneBelow.start exampleView_consistent).fetched fetched
      have totals := (connectTxs_ok checked.transactions loop).totals nofun start (hoardBlock_absent 2135)
      rw [fetched.utxo] at totals
      have totals := totals.trans (congrArg ((loopStart exampleView).totals + ·) hoardBlock_totals)
      have mint := checkConnected_mint final
      cases s
      cases totals
      have mint : (Except.ok false : Except Failure Bool) = .ok true := mint
      cases mint
  refine ⟨checked, accepted, rejected, fun exact => ?_⟩
  have same := exact.right
  rw [accepted, rejected] at same
  cases same

end

end Qrax
