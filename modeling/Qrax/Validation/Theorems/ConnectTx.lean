import Qrax.Validation.Theorems.CheckInputs
import Qrax.Validation.Theorems.UpdateCoins

open Fallible Except

namespace Qrax

open CCoinsViewCache (Fetched)
open ConnectState

theorem CTransaction.inputsSpent_of_ordinary {tx : CTransaction} (h : (!tx.isCoinBase && !tx.containsAssets) = true) :
    tx.inputsSpent = tx.vin :=
  if_pos h

theorem CTransaction.inputsSpent_of_other {tx : CTransaction} (h : (!tx.isCoinBase && !tx.containsAssets) ≠ true) :
    tx.inputsSpent = [] :=
  if_neg h

structure Totals where
  nFees : ℤ := 0
  nValueIn : ℤ := 0
  nValueOut : ℤ := 0
  nAssetValue : ℤ := 0
  deriving DecidableEq

namespace Totals

instance : Add Totals where
  add t t' := ⟨t.nFees + t'.nFees, t.nValueIn + t'.nValueIn, t.nValueOut + t'.nValueOut, t.nAssetValue + t'.nAssetValue⟩

theorem add_def (t t' : Totals) : t + t' =
    ⟨t.nFees + t'.nFees, t.nValueIn + t'.nValueIn, t.nValueOut + t'.nValueOut, t.nAssetValue + t'.nAssetValue⟩ := rfl

theorem add_assoc (t₁ t₂ t₃ : Totals) : t₁ + t₂ + t₃ = t₁ + (t₂ + t₃) := by
  simp only [add_def, mk.injEq]
  omega

theorem add_zero (t : Totals) : t + {} = t := by
  simp only [add_def, Int.add_zero]

theorem zero_add (t : Totals) : {} + t = t := by
  simp only [add_def, Int.zero_add]

end Totals

def ConnectState.totals (s : ConnectState) : Totals :=
  ⟨s.nFees, s.nValueIn, s.nValueOut, s.nAssetValue⟩

def countedOut (banned : COutPoint → Bool) (txid : Uint256) (k : ℕ) : List CTxOut → ℤ
  | [] => 0
  | out :: vout =>
    let rest := countedOut banned txid (k + 1) vout
    if banned { hash := txid, n := UInt32.ofNat k } then rest else out.nValue.toInt + rest

section

variable [Crypto]

def CTransaction.valueCounted (tx : CTransaction) (node : Node) : ℤ :=
  if node.fAddressIndex then countedOut node.containsOutPoint tx.getHash 0 tx.vout else 0

def CTransaction.totals (tx : CTransaction) (node : Node) (u : Utxo) : Totals where
  nFees := if tx.isCoinStake then 0 else u.valueIn tx.inputsSpent - tx.valueCounted node
  nValueIn := u.valueIn tx.inputsSpent
  nValueOut := tx.valueCounted node
  nAssetValue := if tx.containsAssets then (tx.vout.map (·.nValue.toInt)).sum else 0

end

variable {arith : Arith} {node : Node} {nHeight : ℕ} {tx : CTransaction} {s s' : ConnectState}

theorem countOutputs_ok {txid : Uint256} {k : ℕ} {vout : List CTxOut}
    (h : countOutputs arith node tx txid s k vout = .ok s') :
    s'.view = s.view ∧ s'.saplingTree = s.saplingTree ∧ s'.vtxundo = s.vtxundo ∧ (arith ≠ .int64 →
      s'.totals = s.totals + {
        nFees := if tx.isCoinStake then 0 else -countedOut node.containsOutPoint txid k vout
        nValueOut := countedOut node.containsOutPoint txid k vout }) := by
  induction vout generalizing s k
  case nil =>
    cases h
    exact ⟨rfl, rfl, rfl, fun _ => by simp [countedOut, Totals.add_zero]⟩
  case cons out vout ih =>
    simp only [countOutputs] at h
    simp only [countedOut]
    split at h
    case isTrue banned => simpa only [banned, if_true] using ih h
    case isFalse banned =>
      simp only [ite_bind, bind_eq_ok] at h
      have ⟨nValueOut, norm, nFees, fees, rest⟩ := h
      have ⟨view, saplingTree, vtxundo, totals⟩ := ih rest
      refine ⟨view, saplingTree, vtxundo, fun ne => (totals ne).trans ?_⟩
      have fees : nFees = if tx.isCoinStake then s.nFees else s.nFees - out.nValue.toInt := by
        split at fees
        case isTrue coinStake => rw [if_pos coinStake, ok.inj fees]
        case isFalse coinStake => rw [if_neg coinStake, Arith.norm_ok ne fees]
      simp only [ConnectState.totals, Totals.add_def, Totals.mk.injEq, banned, Bool.false_eq_true, if_false, fees,
        Arith.norm_ok ne norm]
      refine ⟨?_, trivial, by omega, trivial⟩
      split_ifs <;> omega

theorem getMultiMiningSpend_eq (arith : Arith) (tx : CTransaction) :
    tx.getMultiMiningSpend arith = arith.addAll 0 (tx.vout.map (·.nValue.toInt)) := by
  rw [Arith.addAll, List.foldlM_map]
  rfl

theorem countAssets_ok (h : countAssets arith tx s = .ok s') :
    s'.view = s.view ∧ s'.saplingTree = s.saplingTree ∧ s'.vtxundo = s.vtxundo ∧ (arith ≠ .int64 →
      s'.totals = s.totals +
        { nAssetValue := if tx.containsAssets then (tx.vout.map (·.nValue.toInt)).sum else 0 }) := by
  unfold countAssets at h
  split at h
  case isFalse assets =>
    cases h
    rw [if_neg assets]
    exact ⟨rfl, rfl, rfl, fun _ => (Totals.add_zero _).symm⟩
  case isTrue assets =>
    simp only [bind_eq_ok, ok.injEq, getMultiMiningSpend_eq] at h
    have ⟨n, sum, nAssetValue, norm, eq⟩ := h
    subst eq
    refine ⟨rfl, rfl, rfl, fun ne => ?_⟩
    simp only [totals, Totals.add_def, if_pos assets, Arith.norm_ok ne norm, Arith.addAll_ok ne sum,
      add_zero, zero_add]

variable [Crypto]

structure Kept (s s' : ConnectState) : Prop where
  view : Fetched s.view s'.view
  saplingTree : s'.saplingTree = s.saplingTree
  vtxundo : s'.vtxundo = s.vtxundo

namespace Kept

theorem refl (s : ConnectState) : Kept s s :=
  ⟨.refl _, rfl, rfl⟩

end Kept

theorem checkAvailable_ok (h : checkAvailable tx s = .ok s') :
    Kept s s' ∧ s'.totals = s.totals ∧ s.view.utxo.Holds tx.inputsSpent := by
  simp only [checkAvailable] at h
  split at h
  case isTrue coinBase =>
    cases h
    refine ⟨.refl _, rfl, ?_⟩
    rw [CTransaction.inputsSpent_of_other (by simp [coinBase])]
    exact fun _ mem => absurd mem List.not_mem_nil
  case isFalse coinBase =>
    simp only [bind_eq_ok, exists_unit, failIf_eq_ok, ok.injEq, Bool.not_eq_true', Bool.not_eq_false] at h
    obtain ⟨available, _, _, eq⟩ := h
    subst eq
    have found : s.view.haveInputs tx = (true, (s.view.haveInputs tx).2) := Prod.ext available rfl
    obtain ⟨fetched₁, holds⟩ := CCoinsViewCache.haveInputs_eq found
    have fetched₂ := (s.view.haveInputs tx).2.haveShieldedRequirements_fetched tx
    have fetched₃ := getP2SHSigOpCount_fetched tx ((s.view.haveInputs tx).2.haveShieldedRequirements tx).2
    refine ⟨⟨(fetched₁.trans fetched₂).trans fetched₃, rfl, rfl⟩, rfl, ?_⟩
    rw [Bool.not_eq_true] at coinBase
    cases assets : tx.containsAssets
    case false =>
      rw [CTransaction.inputsSpent_of_ordinary (by simp [coinBase, assets])]
      exact holds coinBase assets
    case true =>
      rw [CTransaction.inputsSpent_of_other (by simp [assets])]
      exact fun _ mem => absurd mem List.not_mem_nil

section

variable (coinBase : tx.isCoinBase = false) (assets : tx.containsAssets = false) (holds : s.view.utxo.Holds tx.vin)

include coinBase assets holds

theorem getValueIn_ok {n : ℤ} {v : CCoinsViewCache} (h : s.view.getValueIn arith tx = .ok (n, v)) :
    Fetched s.view v ∧ (arith ≠ .int64 → n = s.view.utxo.valueIn tx.vin) := by
  have ⟨v', fetched, eq⟩ := CCoinsViewCache.getValueIn_eq coinBase assets holds
  rw [eq, map_eq_ok] at h
  have ⟨m, sum, eq⟩ := h
  cases eq
  exact ⟨fetched, fun ne => (Arith.addAll_ok ne sum).trans (zero_add _)⟩

theorem addFees_ok (h : addFees arith tx s = .ok s') :
    Kept s s' ∧ (arith ≠ .int64 →
      s'.totals = s.totals + { nFees := if tx.isCoinStake then 0 else s.view.utxo.valueIn tx.vin }) := by
  unfold addFees at h
  split at h
  case isTrue coinStake =>
    cases h
    rw [if_pos coinStake]
    exact ⟨.refl _, fun _ => (Totals.add_zero _).symm⟩
  case isFalse coinStake =>
    rw [if_neg coinStake]
    simp only [bind_eq_ok, ok.injEq] at h
    have ⟨⟨n, v⟩, value, nFees, norm, eq⟩ := h
    subst eq
    have ⟨fetched, sum⟩ := getValueIn_ok coinBase assets holds value
    refine ⟨⟨fetched, rfl, rfl⟩, fun ne => ?_⟩
    simp only [totals, Totals.add_def, Arith.norm_ok ne norm, sum ne, add_zero]

end

theorem connectInputs_ok (holds : s.view.utxo.Holds tx.inputsSpent) (h : connectInputs arith node nHeight tx s = .ok s') :
    Kept s s' ∧ InputsChecked node.consensus s.view.utxo tx.inputsSpent ∧
      (tx.isCoinBase = false → tx.containsAssets = false → tx.isCoinStake = false →
        checkTxFee node arith tx (s.view.utxo.valueIn tx.vin) = .ok ()) ∧
      (arith ≠ .int64 → s'.totals = s.totals + {
        nFees := if tx.isCoinStake then 0 else s.view.utxo.valueIn tx.inputsSpent
        nValueIn := s.view.utxo.valueIn tx.inputsSpent }) := by
  unfold connectInputs at h
  split at h
  case isFalse other =>
    cases h
    rw [CTransaction.inputsSpent_of_other other]
    refine ⟨.refl _, ⟨nofun, nofun⟩, fun coinBase assets => ?_, fun _ => ?_⟩
    · exact absurd (by simp [coinBase, assets]) other
    · simp [Utxo.valueIn, Totals.add_zero]
  case isTrue ordinary =>
    rw [CTransaction.inputsSpent_of_ordinary ordinary] at holds ⊢
    simp only [Bool.and_eq_true, Bool.not_eq_true'] at ordinary
    obtain ⟨coinBase, assets⟩ := ordinary
    simp only [bind_eq_ok, ok.injEq] at h
    obtain ⟨s₁, fees, ⟨n, v⟩, value, nValueIn, norm, ⟨_, v'⟩, inputs, eq⟩ := h
    subst eq
    obtain ⟨kept, totals⟩ := addFees_ok coinBase assets holds fees
    obtain ⟨fetched₁, sum⟩ := getValueIn_ok coinBase assets (kept.view.utxo ▸ holds) value
    obtain ⟨fetched₂, checked, _, fee, _⟩ := checkInputs_ok coinBase assets inputs
    rw [fetched₁.utxo, kept.view.utxo] at checked fee
    refine ⟨⟨(kept.view.trans fetched₁).trans fetched₂, kept.saplingTree, kept.vtxundo⟩, checked,
      fun _ _ => fee, fun ne => ?_⟩
    have totals := totals ne
    simp only [ConnectState.totals, Totals.add_def, Totals.mk.injEq, add_zero] at totals ⊢
    rw [Arith.norm_ok ne norm, sum ne, kept.view.utxo]
    exact ⟨totals.left, congrArg (· + _) totals.right.left, totals.right.right.left, totals.right.right.right⟩

theorem countTx_ok
    (h : (if node.fAddressIndex then countOutputs arith node tx tx.getHash s 0 tx.vout else .ok s) = .ok s') :
    s'.view = s.view ∧ s'.saplingTree = s.saplingTree ∧ s'.vtxundo = s.vtxundo ∧ (arith ≠ .int64 →
      s'.totals = s.totals + {
        nFees := if tx.isCoinStake then 0 else -tx.valueCounted node
        nValueOut := tx.valueCounted node }) := by
  unfold CTransaction.valueCounted
  split at h
  case isTrue index => simpa only [index, if_true] using countOutputs_ok h
  case isFalse index =>
    cases h
    exact ⟨rfl, rfl, rfl, fun _ => by simp [index, Totals.add_zero]⟩

-- The coins of its inputs are taken out, leading to `v₁`, and `ws` are the changes for its outputs.
structure TxConnected (arith : Arith) (node : Node) (nHeight : ℕ) (tx : CTransaction) (i : ℕ) (s : ConnectState)
    (txundo : CTxUndo) (v₁ : CCoinsViewCache) (ws : List CoinWrite) (s' : ConnectState) : Prop where
  updated : CoinsUpdated node nHeight tx s.view txundo v₁ ws s'.view
  inputs : InputsChecked node.consensus s.view.utxo tx.inputsSpent
  fee : tx.isCoinBase = false → tx.containsAssets = false → tx.isCoinStake = false →
    checkTxFee node arith tx (s.view.utxo.valueIn tx.vin) = .ok ()
  undo : s'.vtxundo = if i > 0 then s.vtxundo ++ [txundo] else s.vtxundo
  totals : arith ≠ .int64 → s'.totals = s.totals + tx.totals node s.view.utxo

theorem connectTx_ok {block : CBlock} {i : ℕ} (distinct : (tx.vin.map (·.prevout)).Nodup)
    (h : connectTx arith node nHeight tx block i s = .ok s') :
    ∃ txundo v₁ ws, TxConnected arith node nHeight tx i s txundo v₁ ws s' := by
  simp only [connectTx, ite_bind, bind_eq_ok, exists_unit, failIf_eq_ok, ok.injEq] at h
  obtain ⟨_, _, s₁, available, s₂, inputs, s₃, outputs, s₄, assets, ⟨txundo, v'⟩, update, tree, _, eq⟩ := h
  obtain ⟨kept₁, totals₁, holds⟩ := checkAvailable_ok available
  obtain ⟨kept₂, checked, fee, totals₂⟩ := connectInputs_ok (kept₁.view.utxo ▸ holds) inputs
  obtain ⟨view₃, _, vtxundo₃, totals₃⟩ := countTx_ok outputs
  obtain ⟨view₄, _, vtxundo₄, totals₄⟩ := countAssets_ok assets
  rw [view₄, view₃] at update
  obtain ⟨v₁, ws, updated⟩ := updateCoins_ok distinct update
  have fetched := kept₁.view.trans kept₂.view
  subst eq
  refine ⟨txundo, v₁, ws, ?_⟩
  constructor
  case updated => exact updated.after fetched
  case inputs => exact kept₁.view.utxo ▸ checked
  case fee => exact kept₁.view.utxo ▸ fee
  case undo => simp only [vtxundo₄, vtxundo₃, kept₂.vtxundo, kept₁.vtxundo]
  case totals =>
    intro ne
    have total := totals₄ ne
    rw [totals₃ ne, totals₂ ne, totals₁, kept₁.view.utxo] at total
    refine Eq.trans ?_ (total.trans ?_)
    · rfl
    · simp only [CTransaction.totals, Totals.add_def, totals, Totals.mk.injEq]
      refine ⟨?_, by omega, by omega, by omega⟩
      split_ifs <;> omega

end Qrax
