import Qrax.Coins.Theorems.Writes
import Qrax.Validation.ConnectBlock

open Fallible List

namespace Qrax

def CTransaction.inputsSpent (tx : CTransaction) : List CTxIn :=
  if !tx.isCoinBase && !tx.containsAssets then tx.vin else []

variable {tx : CTransaction} {node : Node} {nHeight : ℕ} {txundo : CTxUndo}

theorem CTransaction.inputsSpent_distinct (h : (tx.vin.map (·.prevout)).Nodup) :
    (tx.inputsSpent.map (·.prevout)).Nodup := by
  unfold inputsSpent
  split
  case isTrue => exact h
  case isFalse => exact nodup_nil

def outputCoins (skip : COutPoint → Bool) (txid : Uint256) (nHeight : ℕ) (fCoinBase fCoinStake : Bool) (i : ℕ) :
    List CTxOut → List (COutPoint × Coin)
  | [] => []
  | out :: vout =>
    let o : COutPoint := { hash := txid, n := UInt32.ofNat i }
    let rest := outputCoins skip txid nHeight fCoinBase fCoinStake (i + 1) vout
    if skip o || out.scriptPubKey.isUnspendable then rest
    else (o, { fCoinBase, fCoinStake, out, nHeight }) :: rest

-- What outputs write: a banned one is taken out, if there.
def outputWrites (skip : COutPoint → Bool) (txid : Uint256) (nHeight : ℕ) (fCoinBase fCoinStake : Bool) (i : ℕ) :
    List CTxOut → List (COutPoint × Option Coin)
  | [] => []
  | out :: vout =>
    let o : COutPoint := { hash := txid, n := UInt32.ofNat i }
    let rest := outputWrites skip txid nHeight fCoinBase fCoinStake (i + 1) vout
    if skip o then (o, none) :: rest
    else if out.scriptPubKey.isUnspendable then rest
    else (o, some { fCoinBase, fCoinStake, out, nHeight }) :: rest

def Node.skips (node : Node) (nHeight : ℕ) (o : COutPoint) : Bool :=
  node.skipInvalidUTXOS nHeight && node.containsOutPoint o

section

variable {skip : COutPoint → Bool} {txid : Uint256} {nHeight i : ℕ} {fCoinBase fCoinStake : Bool} {vout : List CTxOut}

theorem outputCoins_unskipped
    (h : ∀ j, i ≤ j → j < i + vout.length → skip { hash := txid, n := UInt32.ofNat j } = false) :
    outputCoins skip txid nHeight fCoinBase fCoinStake i vout =
      outputCoins (fun _ => false) txid nHeight fCoinBase fCoinStake i vout := by
  induction vout generalizing i
  case nil => rfl
  case cons out vout ih =>
    rw [length_cons] at h
    simp only [outputCoins, h i le_rfl (by omega)]
    rw [ih fun j lower upper => h j (by omega) (by omega)]

structure IsOutputCoin (txid : Uint256) (nHeight i : ℕ) (vout : List CTxOut) (p : COutPoint × Coin) : Prop where
  index : ∃ j, i ≤ j ∧ j < i + vout.length ∧ p.1 = { hash := txid, n := UInt32.ofNat j }
  height : p.2.nHeight = nHeight
  out : p.2.out ∈ vout
  spendable : ¬p.2.out.scriptPubKey.isUnspendable

theorem outputCoins_mem {p : COutPoint × Coin} (h : p ∈ outputCoins skip txid nHeight fCoinBase fCoinStake i vout) :
    IsOutputCoin txid nHeight i vout p := by
  induction vout generalizing i
  case nil => cases h
  case cons out vout ih =>
    have later (h : p ∈ outputCoins skip txid nHeight fCoinBase fCoinStake (i + 1) vout) :
        IsOutputCoin txid nHeight i (out :: vout) p := by
      have ⟨⟨j, lower, upper, key⟩, height, mem, spendable⟩ := ih h
      refine ⟨⟨j, Nat.le_of_succ_le lower, ?_, key⟩, height, mem_cons_of_mem out mem, spendable⟩
      rw [length_cons]
      omega
    simp only [outputCoins] at h
    split at h
    case isTrue => exact later h
    case isFalse kept =>
      cases mem_cons.mp h
      case inr h => exact later h
      case inl eq =>
        subst eq
        simp only [Bool.or_eq_true, not_or] at kept
        exact ⟨⟨i, le_rfl, by simp, rfl⟩, rfl, mem_cons_self .., kept.right⟩

theorem outputWrites_some {o : COutPoint} {c : Coin} :
    (o, some c) ∈ outputWrites skip txid nHeight fCoinBase fCoinStake i vout ↔
      (o, c) ∈ outputCoins skip txid nHeight fCoinBase fCoinStake i vout := by
  induction vout generalizing i
  case nil => simp [outputWrites, outputCoins]
  case cons out vout ih =>
    simp only [outputWrites, outputCoins, Bool.or_eq_true]
    split_ifs <;> simp_all

theorem outputWrites_isNone {o : COutPoint} {c : Option Coin}
    (h : (o, c) ∈ outputWrites skip txid nHeight fCoinBase fCoinStake i vout) : c.isNone = skip o := by
  induction vout generalizing i
  case nil => cases h
  case cons out vout ih =>
    simp only [outputWrites] at h
    split_ifs at h
    case pos banned =>
      cases mem_cons.mp h
      case inl eq => cases eq; exact banned.symm
      case inr h => exact ih h
    case pos => exact ih h
    case neg kept _ =>
      cases mem_cons.mp h
      case inl eq => cases eq; exact (Bool.eq_false_iff.mpr kept).symm
      case inr h => exact ih h

end

variable [Crypto]

def CTransaction.coins (tx : CTransaction) (skip : COutPoint → Bool) (nHeight : ℕ) : List (COutPoint × Coin) :=
  outputCoins skip tx.getHash nHeight tx.isCoinBase tx.isCoinStake 0 tx.vout

def CTransaction.writes (tx : CTransaction) (skip : COutPoint → Bool) (nHeight : ℕ) : List (COutPoint × Option Coin) :=
  outputWrites skip tx.getHash nHeight tx.isCoinBase tx.isCoinStake 0 tx.vout

def CTransaction.Avoids (tx : CTransaction) (banned : COutPoint → Bool) : Prop :=
  ∀ j < tx.vout.length, banned { hash := tx.getHash, n := UInt32.ofNat j } = false

def CTransaction.allCoins (tx : CTransaction) (nHeight : ℕ) : List (COutPoint × Coin) :=
  tx.coins (fun _ => false) nHeight

theorem CTransaction.Avoids.coins_eq (h : tx.Avoids node.containsOutPoint)
    (nHeight : ℕ) : tx.coins (node.skips nHeight) nHeight = tx.allCoins nHeight := by
  refine outputCoins_unskipped fun j _ upper => ?_
  rw [Node.skips, h j (by omega), Bool.and_false]

namespace CCoinsViewCache

variable {v v' : CCoinsViewCache}

theorem spendInputs_writes (v : CCoinsViewCache) {vin : List CTxIn} (distinct : (vin.map (·.prevout)).Nodup) :
    Writes v (vin.map fun txin => .spend txin.prevout (v.utxo txin.prevout)) (spendInputs v vin).2 := by
  induction vin generalizing v
  case nil => exact .nil (.refl v)
  case cons txin vin ih =>
    have ⟨notMem, distinct⟩ := nodup_cons.mp distinct
    have rest := ih (v.spendCoin txin.prevout).2 distinct
    have same : vin.map (fun i => CoinWrite.spend i.prevout ((v.spendCoin txin.prevout).2.utxo i.prevout)) =
        vin.map fun i => .spend i.prevout (v.utxo i.prevout) := by
      apply map_congr_left
      intro i mem
      rw [utxo_spendCoin_of_ne]
      intro eq
      exact notMem (mem_map.mpr ⟨i, mem, eq⟩)
    rw [same] at rest
    exact .spend txin.prevout (.refl v) rest

theorem spendInputs_coins {vin : List CTxIn} (distinct : (vin.map (·.prevout)).Nodup) (holds : v.utxo.Holds vin) :
    (spendInputs v vin).1.map some = vin.map fun txin => v.utxo txin.prevout := by
  induction vin generalizing v
  case nil => rfl
  case cons txin vin ih =>
    have ⟨notMem, distinct⟩ := nodup_cons.mp distinct
    have ⟨found, holds⟩ := Utxo.holds_cons.mp holds
    have ⟨c, hc⟩ := Option.isSome_iff_exists.mp found
    have same (i : CTxIn) (mem : i ∈ vin) : (v.spendCoin txin.prevout).2.utxo i.prevout = v.utxo i.prevout := by
      apply utxo_spendCoin_of_ne
      intro eq
      exact notMem (mem_map.mpr ⟨i, mem, eq⟩)
    have ⟨_, _, _, spend⟩ := v.spendCoin_eq txin.prevout
    have coin : (v.spendCoin txin.prevout).1 = some c := by rw [spend, (peek_of_utxo hc).left]
    have rest := ih (v := (v.spendCoin txin.prevout).2) distinct fun i mem => same i mem ▸ holds i mem
    simp only [spendInputs, coin, Option.getD_some, map_cons, hc, rest]
    rw [map_congr_left same]

-- The coins of spendable outputs are added; a banned one is taken out instead.
theorem addCoinsFrom_writes {banned : COutPoint → Bool} {txid : Uint256} {nHeight i : ℕ}
    {fCoinBase fCoinStake fSkipInvalid : Bool} {vout : List CTxOut}
    (h : addCoinsFrom banned txid nHeight fCoinBase fCoinStake false fSkipInvalid v i vout = .ok v') :
    ∃ ws, Writes v ws v' ∧
      let outs := outputCoins (fun o => fSkipInvalid && banned o) txid nHeight fCoinBase fCoinStake i vout
      ws.map (·.written) = outputWrites (fun o => fSkipInvalid && banned o) txid nHeight fCoinBase fCoinStake i vout ∧
      ws.filterMap CoinWrite.added? = outs ∧
      ((∀ j, i ≤ j → j < i + vout.length → banned { hash := txid, n := UInt32.ofNat j } = false) →
        ws = outs.map fun p => .add p.1 p.2) := by
  induction vout generalizing v i
  case nil =>
    cases h
    exact ⟨[], .nil (.refl _), rfl, rfl, fun _ => rfl⟩
  case cons out vout ih =>
    simp only [addCoinsFrom, Bool.false_eq_true, if_false] at h
    simp only [outputCoins, outputWrites]
    have later (none : ∀ j, i ≤ j → j < i + (out :: vout).length → banned { hash := txid, n := UInt32.ofNat j } = false)
        (j : ℕ) (lower : i + 1 ≤ j) (upper : j < i + 1 + vout.length) :
        banned { hash := txid, n := UInt32.ofNat j } = false :=
      none j (by omega) (by rw [length_cons]; omega)
    split at h
    case isTrue skip =>
      have ⟨ws, writes, written, added, unskipped⟩ := ih h
      refine ⟨_ :: ws, .spend _ (.refl v) writes, ?_, ?_, fun none => ?_⟩
      · rw [map_cons, if_pos skip, written]
        rfl
      · rw [filterMap_cons_none rfl, if_pos (by rw [skip]; rfl), added]
      · rw [none i le_rfl (by simp), Bool.and_false] at skip
        cases skip
    case isFalse keep =>
      have ⟨v₁, head, tail⟩ := bind_eq_ok.mp h
      have ⟨ws, writes, written, added, unskipped⟩ := ih tail
      by_cases unspendable : out.scriptPubKey.isUnspendable
      case pos =>
        have ⟨_, eq⟩ := addCoin_eq_ok.mp head
        rw [if_pos unspendable] at eq
        subst eq
        simp only [unspendable, Bool.or_true, if_true, if_neg keep]
        exact ⟨ws, writes, written, added, fun none => unskipped (later none)⟩
      case neg =>
        have kept : ¬((fSkipInvalid && banned { hash := txid, n := UInt32.ofNat i }) ||
            out.scriptPubKey.isUnspendable) := by simp [keep, unspendable]
        refine ⟨_ :: ws, .add (.refl v) unspendable head writes, ?_, ?_, fun none => ?_⟩
        · rw [map_cons, if_neg keep, if_neg unspendable, written]
          rfl
        · rw [if_neg kept, ← added]
          rfl
        · rw [if_neg kept, map_cons, ← unskipped (later none)]

end CCoinsViewCache

-- `UpdateCoins` takes out the inputs' coins, leading to `v₁`, then makes the changes `ws` for the outputs.
structure CoinsUpdated (node : Node) (nHeight : ℕ) (tx : CTransaction) (v : CCoinsViewCache) (txundo : CTxUndo)
    (v₁ : CCoinsViewCache) (ws : List CoinWrite) (v' : CCoinsViewCache) : Prop where
  spends : v.Writes (tx.inputsSpent.map fun txin => .spend txin.prevout (v.utxo txin.prevout)) v₁
  adds : v₁.Writes ws v'
  writes : ws.map (·.written) = tx.writes (node.skips nHeight) nHeight
  coins : ws.filterMap CoinWrite.added? = tx.coins (node.skips nHeight) nHeight
  exact : tx.Avoids node.containsOutPoint → ws = (tx.allCoins nHeight).map fun p => .add p.1 p.2
  undo : v.utxo.Holds tx.inputsSpent →
    txundo.vprevout.map some = tx.inputsSpent.map fun txin => v.utxo txin.prevout

theorem CoinsUpdated.after {v₀ v v₁ v' : CCoinsViewCache}
    {ws : List CoinWrite} (fetched : v₀.Fetched v)
    (h : CoinsUpdated node nHeight tx v txundo v₁ ws v') : CoinsUpdated node nHeight tx v₀ txundo v₁ ws v' where
  spends := fetched.utxo ▸ h.spends.after fetched
  adds := h.adds
  writes := h.writes
  coins := h.coins
  exact := h.exact
  undo := fetched.utxo ▸ h.undo

theorem updateCoins_eq (node : Node) (tx : CTransaction) (v : CCoinsViewCache) (nHeight : ℕ) (fSkipInvalid : Bool) :
    updateCoins node tx v nHeight fSkipInvalid = (do
      let v' ← addCoins node.containsOutPoint (spendInputs v tx.inputsSpent).2 tx nHeight false fSkipInvalid
      .ok ({ vprevout := (spendInputs v tx.inputsSpent).1 }, v')) := by
  have split : (if !tx.isCoinBase && !tx.containsAssets then spendInputs v tx.vin else ([], v)) =
      spendInputs v tx.inputsSpent := by
    unfold CTransaction.inputsSpent
    split <;> rfl
  simp only [updateCoins, split]

theorem updateCoins_ok {v v' : CCoinsViewCache}
    (distinct : (tx.vin.map (·.prevout)).Nodup)
    (h : updateCoins node tx v nHeight (node.skipInvalidUTXOS nHeight) = .ok (txundo, v')) :
    ∃ v₁ ws, CoinsUpdated node nHeight tx v txundo v₁ ws v' := by
  have distinct := CTransaction.inputsSpent_distinct distinct
  simp only [updateCoins_eq, bind_eq_ok, Except.ok.injEq, Prod.mk.injEq] at h
  have ⟨v₂, added, undo, eq⟩ := h
  subst undo eq
  have ⟨ws, adds, writes, coins, exact⟩ := CCoinsViewCache.addCoinsFrom_writes added
  refine ⟨_, ws, CCoinsViewCache.spendInputs_writes v distinct, adds, writes, coins, fun avoids => ?_,
    CCoinsViewCache.spendInputs_coins distinct⟩
  rw [← avoids.coins_eq]
  exact exact fun j _ upper => avoids j (by omega)

end Qrax
