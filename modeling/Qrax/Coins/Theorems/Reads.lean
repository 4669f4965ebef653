import Qrax.Coins.Theorems.Operations

open Fallible

namespace Qrax

namespace Utxo

def valueAt (u : Utxo) (o : COutPoint) : ℤ :=
  (u o).elim 0 (·.out.nValue.toInt)

def valueIn (u : Utxo) (vin : List CTxIn) : ℤ :=
  (vin.map fun txin => u.valueAt txin.prevout).sum

def Holds (u : Utxo) (vin : List CTxIn) : Prop :=
  ∀ txin ∈ vin, (u txin.prevout).isSome

theorem valueIn_cons (u : Utxo) (txin : CTxIn) (vin : List CTxIn) :
    u.valueIn (txin :: vin) = u.valueAt txin.prevout + u.valueIn vin := by
  simp only [valueIn, List.map_cons, List.sum_cons]

theorem holds_cons {u : Utxo} {txin : CTxIn} {vin : List CTxIn} :
    u.Holds (txin :: vin) ↔ (u txin.prevout).isSome ∧ u.Holds vin :=
  List.forall_mem_cons

end Utxo

namespace CCoinsViewCache

open CCoinsView (Same)

theorem peek_of_utxo {v : CCoinsViewCache} {o : COutPoint} {c : Coin} (h : v.utxo o = some c) :
    v.view.peek o = some c ∧ c.isSpent = false := by
  simp only [utxo, CCoinsView.utxo, Option.bind_eq_some_iff, Coin.unspent_eq_some] at h
  obtain ⟨d, peek, unspent, eq⟩ := h
  exact eq ▸ ⟨peek, unspent⟩

theorem utxo_singleCoin {bestBlock : Option Uint256} {o o' : COutPoint} {c c' : Coin}
    (h : ({ base := .db { coins := AList.insert o c ∅, bestBlock } } : CCoinsViewCache).utxo o' = some c') :
    o' = o ∧ c' = c := by
  have ⟨found, _⟩ := peek_of_utxo h
  have found : (AList.insert o c (∅ : AList fun _ : COutPoint => Coin)).lookup o' = some c' := found
  by_cases eq : o' = o
  case pos =>
    rw [eq, AList.lookup_insert] at found
    exact ⟨eq, (Option.some.inj found).symm⟩
  case neg =>
    rw [AList.lookup_insert_ne eq] at found
    cases found

variable [Crypto] {v v' : CCoinsViewCache}

theorem Fetched.of_entries (same : Same v.view v'.view) (base : Same v.base v'.base)
    (cacheCoins : v'.cache.cacheCoins = v.cache.cacheCoins) : Fetched v v' where
  same := same
  base := base
  entry _ := .inl (by simp only [CCoinsViewCache.entry, cacheCoins])

theorem accessCoin_unspent {o : COutPoint} {c : Coin} (h : v.utxo o = some c) :
    ∃ v', v.accessCoin o = (c, v') ∧ Fetched v v' := by
  have ⟨v', eq, fetched⟩ := v.accessCoin_eq o
  rw [(peek_of_utxo h).left] at eq
  exact ⟨v', eq, fetched⟩

theorem getBestBlock_eq (v : CCoinsViewCache) :
    ∃ v', v.getBestBlock = (v.view.bestBlock, v') ∧ Fetched v v' := by
  have ⟨base', h, same⟩ := v.base.getBestBlock_eq
  simp only [getBestBlock, view, CCoinsView.bestBlock]
  by_cases hc : v.cache.hashBlock = 0 <;> simp only [hc, h, if_true, if_false]
  case pos => exact ⟨_, rfl, .of_entries ((same.cache _).trans (same.bestBlock ▸ .setHashBlock hc)) same rfl⟩
  case neg => exact ⟨_, rfl, .refl v⟩

theorem getNullifier_eq (v : CCoinsViewCache) (nf : Uint256) : Fetched v (v.getNullifier nf).2 := by
  have same := v.base.getNullifier_eq nf
  simp only [getNullifier]
  cases v.cache.cacheSaplingNullifiers.lookup nf
  case some => exact .refl v
  case none => exact .of_entries ((same.cache _).trans (.setNullifiers ..)) same rfl

theorem getSaplingAnchorAt_eq (v : CCoinsViewCache) (rt : Uint256) :
    ∃ v', v.getSaplingAnchorAt rt = (v.view.anchorAt rt, v') ∧ Fetched v v' := by
  have ⟨base', h, same⟩ := v.base.getSaplingAnchorAt_eq rt
  simp only [getSaplingAnchorAt, view, CCoinsView.anchorAt]
  cases hc : v.cache.cacheSaplingAnchors.lookup rt
  case some e => exact ⟨v, rfl, .refl v⟩
  case none =>
    cases hb : v.base.anchorAt rt <;> simp only [h, hb]
    case none => exact ⟨_, rfl, .of_entries (same.cache _) same rfl⟩
    case some tree =>
      have emplaced := Same.emplaceAnchor hc (same.anchorAt rt ▸ hb)
        (v.cache.cachedCoinsUsage + tree.dynamicMemoryUsage)
      exact ⟨_, rfl, .of_entries ((same.cache _).trans emplaced) same rfl⟩

theorem getBestAnchor_eq (v : CCoinsViewCache) :
    ∃ v', v.getBestAnchor = (v.view.bestAnchor, v') ∧ Fetched v v' := by
  have ⟨base', h, same⟩ := v.base.getBestAnchor_eq
  simp only [getBestAnchor, view, CCoinsView.bestAnchor]
  by_cases hc : v.cache.hashSaplingAnchor = 0 <;> simp only [hc, h, if_true, if_false]
  case pos => exact ⟨_, rfl, .of_entries ((same.cache _).trans (same.bestAnchor ▸ .setBestAnchor hc)) same rfl⟩
  case neg => exact ⟨_, rfl, .refl v⟩

theorem haveSpends_fetched (v : CCoinsViewCache) (spends : List SpendDescription) :
    Fetched v (v.haveSpends spends).2 := by
  induction spends generalizing v
  case nil => exact .refl v
  case cons s spends ih =>
    have fetched₁ := v.getNullifier_eq s.nullifier
    simp only [haveSpends]
    generalize v.getNullifier s.nullifier = r at fetched₁ ⊢
    have ⟨found, v₁⟩ := r
    cases found
    case true => exact fetched₁
    case false =>
      have ⟨v₂, eq, fetched₂⟩ := v₁.getSaplingAnchorAt_eq s.anchor
      simp only [eq]
      cases v₁.view.anchorAt s.anchor
      case none => exact fetched₁.trans fetched₂
      case some tree => exact (fetched₁.trans fetched₂).trans (ih v₂)

theorem haveShieldedRequirements_fetched (v : CCoinsViewCache) (tx : CTransaction) :
    Fetched v (v.haveShieldedRequirements tx).2 := by
  simp only [haveShieldedRequirements]
  split
  case isTrue => exact v.haveSpends_fetched _
  case isFalse => exact .refl v

theorem haveInputs_eq {tx : CTransaction} (h : v.haveInputs tx = (true, v')) :
    Fetched v v' ∧ (tx.isCoinBase = false → tx.containsAssets = false → v.utxo.Holds tx.vin) := by
  simp only [haveInputs] at h
  split at h
  case isFalse skip =>
    cases h
    refine ⟨.refl v, fun coinBase assets => absurd ?_ skip⟩
    simp [coinBase, assets]
  case isTrue =>
    have ⟨v₁, eq, fetched⟩ := v.haveCoins_eq (tx.vin.map (·.prevout))
    rw [eq] at h
    have ⟨all, eq⟩ := Prod.mk.inj h
    refine ⟨eq ▸ fetched, fun _ _ => ?_⟩
    simpa [Utxo.Holds] using all

theorem getValueIn_eq {tx : CTransaction} (coinBase : tx.isCoinBase = false) (assets : tx.containsAssets = false)
    (holds : v.utxo.Holds tx.vin) :
    ∃ v', Fetched v v' ∧ ∀ arith : Arith, v.getValueIn arith tx =
      (·, v') <$> arith.addAll 0 (tx.vin.map fun txin => v.utxo.valueAt txin.prevout) := by
  simp only [getValueIn, coinBase, assets, Bool.or_self, Bool.false_eq_true, if_false]
  generalize tx.vin = vin at holds ⊢
  suffices loop : ∃ v', Fetched v v' ∧ ∀ (arith : Arith) (n : ℤ),
      vin.foldlM (addValueIn arith) (n, v) =
      (·, v') <$> arith.addAll n (vin.map fun txin => v.utxo.valueAt txin.prevout) by
    obtain ⟨v', fetched, eq⟩ := loop
    exact ⟨v', fetched, fun arith => eq arith 0⟩
  induction vin generalizing v
  case nil => exact ⟨v, .refl v, fun _ _ => rfl⟩
  case cons txin vin ih =>
    obtain ⟨isSome, holds⟩ := Utxo.holds_cons.mp holds
    obtain ⟨c, hc⟩ := Option.isSome_iff_exists.mp isSome
    obtain ⟨v₁, eq, fetched⟩ := accessCoin_unspent hc
    have value : v.utxo.valueAt txin.prevout = c.out.nValue.toInt := by simp only [Utxo.valueAt, hc, Option.elim_some]
    obtain ⟨v₂, fetched₂, eq₂⟩ := ih (v := v₁) (fetched.utxo ▸ holds)
    rw [fetched.utxo] at eq₂
    refine ⟨v₂, fetched.trans fetched₂, fun arith n => ?_⟩
    simp only [List.foldlM_cons, addValueIn, List.map_cons, Arith.addAll_cons, eq, value]
    cases arith.norm (n + c.out.nValue.toInt)
    case error e => rfl
    case ok m => exact eq₂ arith m

end CCoinsViewCache

end Qrax
