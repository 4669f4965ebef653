import Qrax.Coins.Theorems.Reads
import Qrax.Validation.CheckInputs

open Fallible Option

namespace Qrax

open CCoinsViewCache

variable [Crypto] {node : Node} {arith : Arith} {v v' : CCoinsViewCache} {tx : CTransaction}

theorem CCoinsViewCache.accessCoin_ok {o : COutPoint} (unspent : ¬(v.accessCoin o).1.isSpent) :
    v.utxo o = some (v.accessCoin o).1 ∧ Fetched v (v.accessCoin o).2 := by
  have ⟨v₁, eq, fetched⟩ := v.accessCoin_eq o
  rw [eq] at unspent ⊢
  refine ⟨?_, fetched⟩
  cases hp : v.view.peek o
  case none =>
    rw [hp] at unspent
    exact absurd rfl unspent
  case some c =>
    rw [hp, getD_some, Bool.not_eq_true] at unspent
    simp only [utxo, CCoinsView.utxo, hp, bind_some, getD_some]
    exact Coin.unspent_of_not_spent unspent

theorem p2shSigOps_fetched (v : CCoinsViewCache) (vin : List CTxIn) : Fetched v (p2shSigOps v vin).2 := by
  induction vin generalizing v
  case nil => exact .refl v
  case cons txin vin ih =>
    have ⟨v₁, eq, fetched⟩ := v.accessCoin_eq txin.prevout
    simp only [p2shSigOps, eq]
    split
    case isTrue => exact fetched.trans (ih v₁)
    case isFalse => exact fetched.trans (ih v₁)

theorem getP2SHSigOpCount_fetched (tx : CTransaction) (v : CCoinsViewCache) :
    Fetched v (getP2SHSigOpCount tx v).2 := by
  simp only [getP2SHSigOpCount]
  split
  case isTrue => exact .refl v
  case isFalse => exact p2shSigOps_fetched v tx.vin

theorem getSpendHeight_ok {h : ℕ} (eq : getSpendHeight node v = .ok (h, v')) : Fetched v v' := by
  have ⟨v₁, best, fetched⟩ := v.getBestBlock_eq
  simp only [getSpendHeight, best] at eq
  cases hp : node.mapBlockIndex v.view.bestBlock <;> simp only [hp] at eq
  case none => cases eq
  case some p =>
    cases eq
    exact fetched

structure InputsChecked (params : Consensus.Params) (u : Utxo) (vin : List CTxIn) : Prop where
  holds : u.Holds vin
  amounts : ∀ txin ∈ vin, params.moneyRange (u.valueAt txin.prevout)

variable {nSpendHeight : ℕ} {n n' : ℤ} {vin : List CTxIn} {nFlags : ScriptFlags} {vChecks : List CScriptCheck}

theorem checkTxIn_ok {txin : CTxIn}
    (h : checkTxIn node nSpendHeight (n, v) txin = .ok (n', v')) :
    Fetched v v' ∧ (v.utxo txin.prevout).isSome ∧ node.consensus.moneyRange (v.utxo.valueAt txin.prevout) ∧
      n' = n + v.utxo.valueAt txin.prevout ∧ node.consensus.moneyRange n' := by
  simp only [checkTxIn, bind_eq_ok, exists_unit, failIf_eq_ok, Except.ok.injEq, Prod.mk.injEq] at h
  obtain ⟨unspent, _, range, eq, view⟩ := h
  obtain ⟨found, fetched⟩ := accessCoin_ok unspent
  have value : v.utxo.valueAt txin.prevout = (v.accessCoin txin.prevout).1.out.nValue.toInt := by
    simp only [Utxo.valueAt, found, elim_some]
  simp only [Bool.or_eq_true, Bool.not_eq_true', not_or, Bool.not_eq_false] at range
  subst view
  refine ⟨fetched, by rw [found]; rfl, ?_, ?_, ?_⟩
  · rw [value]
    exact range.left
  · rw [value, ← eq]
  · rw [← eq]
    exact range.right

theorem checkTxIns_ok (h : vin.foldlM (checkTxIn node nSpendHeight) (n, v) = .ok (n', v')) :
    Fetched v v' ∧ InputsChecked node.consensus v.utxo vin ∧ n' = n + v.utxo.valueIn vin ∧
      (node.consensus.moneyRange n → node.consensus.moneyRange n') := by
  induction vin generalizing n v
  case nil =>
    cases h
    exact ⟨.refl _, ⟨nofun, nofun⟩, by simp [Utxo.valueIn], id⟩
  case cons txin vin ih =>
    simp only [List.foldlM_cons, bind_eq_ok] at h
    obtain ⟨⟨m, v₁⟩, head, tail⟩ := h
    obtain ⟨fetched₁, found, range, eq₁, total₁⟩ := checkTxIn_ok head
    obtain ⟨fetched₂, ⟨holds, amounts⟩, eq₂, total₂⟩ := ih tail
    rw [fetched₁.utxo] at holds amounts eq₂
    refine ⟨fetched₁.trans fetched₂, ⟨?_, ?_⟩, ?_, fun _ => total₂ total₁⟩
    · exact Utxo.holds_cons.mpr ⟨found, holds⟩
    · exact List.forall_mem_cons.mpr ⟨range, amounts⟩
    · rw [eq₂, eq₁, Utxo.valueIn_cons, add_assoc]

theorem checkTxInputs_ok (h : checkTxInputs node arith tx v nSpendHeight = .ok v') :
    Fetched v v' ∧ InputsChecked node.consensus v.utxo tx.vin ∧
      node.consensus.moneyRange (v.utxo.valueIn tx.vin) ∧
      (tx.isCoinStake = false → checkTxFee node arith tx (v.utxo.valueIn tx.vin) = .ok ()) := by
  simp only [checkTxInputs, bind_eq_ok, exists_unit, failIf_eq_ok, onlyIf_eq_ok, Except.ok.injEq, Bool.not_eq_true',
    Bool.not_eq_false] at h
  obtain ⟨available, _, ⟨n, v₃⟩, checked, fee, eq⟩ := h
  have found : v.haveInputs tx = (true, (v.haveInputs tx).2) := Prod.ext available rfl
  obtain ⟨fetched₁, _⟩ := haveInputs_eq found
  have fetched₂ := fetched₁.trans ((v.haveInputs tx).2.haveShieldedRequirements_fetched tx)
  obtain ⟨fetched₃, inputs, total, range⟩ := checkTxIns_ok checked
  rw [fetched₂.utxo] at inputs total
  rw [zero_add] at total
  subst total eq
  refine ⟨fetched₂.trans fetched₃, inputs, range ?_, fee⟩
  rw [Consensus.Params.moneyRange_iff]
  exact ⟨le_rfl, node.consensus.nMaxMoneyOut_pos.le⟩

def CScriptCheck.ofInputs (u : Utxo) (tx : CTransaction) (nFlags : ScriptFlags) (nIn : ℕ) :
    List CTxIn → List CScriptCheck
  | [] => []
  | txin :: vin =>
    let out := ((u txin.prevout).getD {}).out
    { scriptPubKey := out.scriptPubKey, amount := out.nValue, txTo := tx, nIn, nFlags } ::
      ofInputs u tx nFlags (nIn + 1) vin

theorem checkScripts_ok {fQueue : Bool} {nIn : ℕ}
    (h : checkScripts node fQueue tx nFlags nIn v vin = .ok (vChecks, v')) :
    Fetched v v' ∧
      (fQueue = false → ∀ check ∈ CScriptCheck.ofInputs v.utxo tx nFlags nIn vin, check.verify node = .ok ()) := by
  induction vin generalizing nIn v vChecks
  case nil =>
    cases h
    exact ⟨.refl _, nofun⟩
  case cons txin vin ih =>
    simp only [checkScripts, bind_eq_ok, exists_unit, failIf_eq_ok, onlyIf_eq_ok, Except.ok.injEq, Bool.not_eq_true',
      Prod.mk.injEq] at h
    obtain ⟨unspent, now, ⟨_, v₂⟩, tail, _, eq⟩ := h
    subst eq
    obtain ⟨found, fetched₁⟩ := accessCoin_ok unspent
    obtain ⟨fetched₂, rest⟩ := ih tail
    refine ⟨fetched₁.trans fetched₂, fun direct => ?_⟩
    rw [fetched₁.utxo] at rest
    simp only [CScriptCheck.ofInputs, found, getD_some]
    exact List.forall_mem_cons.mpr ⟨now direct, rest direct⟩

theorem checkInputs_ok {fScriptChecks fQueue : Bool}
    (coinBase : tx.isCoinBase = false) (assets : tx.containsAssets = false)
    (h : checkInputs node arith tx v fScriptChecks nFlags fQueue = .ok (vChecks, v')) :
    Fetched v v' ∧ InputsChecked node.consensus v.utxo tx.vin ∧
      node.consensus.moneyRange (v.utxo.valueIn tx.vin) ∧
      (tx.isCoinStake = false → checkTxFee node arith tx (v.utxo.valueIn tx.vin) = .ok ()) ∧
      (fScriptChecks → fQueue = false →
        ∀ check ∈ CScriptCheck.ofInputs v.utxo tx nFlags 0 tx.vin, check.verify node = .ok ()) := by
  simp only [checkInputs, coinBase, assets, Bool.not_false, Bool.and_self, if_true, bind_eq_ok] at h
  have ⟨⟨_, v₁⟩, height, v₂, checked, scripts⟩ := h
  have fetched₁ := getSpendHeight_ok height
  have ⟨fetched₂, inputs, range, fee⟩ := checkTxInputs_ok checked
  have fetched₂ := fetched₁.trans fetched₂
  rw [fetched₁.utxo] at inputs range fee
  split at scripts
  case isTrue =>
    have ⟨fetched₃, verified⟩ := checkScripts_ok scripts
    rw [fetched₂.utxo] at verified
    exact ⟨fetched₂.trans fetched₃, inputs, range, fee, fun _ => verified⟩
  case isFalse skipped =>
    cases scripts
    exact ⟨fetched₂, inputs, range, fee, fun on => absurd on skipped⟩

end Qrax
