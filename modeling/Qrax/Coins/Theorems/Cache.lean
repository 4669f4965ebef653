import Qrax.Lib.KeyedUpdate
import Qrax.Coins.Utxo

open Function KeyedUpdate

namespace Qrax

namespace CCoinsView

theorem utxo_cache (c : CoinsCache) (base : CCoinsView) (o : COutPoint) :
    (cache c base).utxo o = ((c.cacheCoins.lookup o).map (·.coin.unspent)).getD (base.utxo o) := by
  simp only [utxo, peek]
  cases c.cacheCoins.lookup o
  case none => rfl
  case some e => rfl

theorem fetched_agrees (tmp : Coin) :
    CCoinsCacheEntry.Agrees { coin := tmp, fresh := tmp.isSpent } tmp.unspent where
  fresh h := Coin.unspent_of_spent h
  clean _ := rfl

namespace Same

variable [Crypto]

theorem refl (v : CCoinsView) : Same v v where
  peek _ := rfl
  bestBlock := rfl
  anchorAt _ := rfl
  bestAnchor := rfl
  consistent := id
  layered := id

theorem trans {v₁ v₂ v₃ : CCoinsView} (h₁ : Same v₁ v₂) (h₂ : Same v₂ v₃) : Same v₁ v₃ where
  peek o := (h₂.peek o).trans (h₁.peek o)
  bestBlock := h₂.bestBlock.trans h₁.bestBlock
  anchorAt rt := (h₂.anchorAt rt).trans (h₁.anchorAt rt)
  bestAnchor := h₂.bestAnchor.trans h₁.bestAnchor
  consistent := h₂.consistent ∘ h₁.consistent
  layered := h₂.layered ∘ h₁.layered

theorem utxo {v v' : CCoinsView} (h : Same v v') : v'.utxo = v.utxo := by
  funext o
  simp only [CCoinsView.utxo, h.peek]

theorem memPool {base base' : CCoinsView} (pool : PoolTransactions) (h : Same base base') :
    Same (memPool pool base) (memPool pool base') where
  peek o := by simp only [CCoinsView.peek, h.peek]
  bestBlock := h.bestBlock
  anchorAt := h.anchorAt
  bestAnchor := h.bestAnchor
  consistent := h.consistent
  layered := False.elim

theorem cache {base base' : CCoinsView} (c : CoinsCache) (h : Same base base') :
    Same (cache c base) (cache c base') where
  peek o := by simp only [CCoinsView.peek, h.peek]
  bestBlock := by simp only [CCoinsView.bestBlock, h.bestBlock]
  anchorAt rt := by simp only [CCoinsView.anchorAt, h.anchorAt]
  bestAnchor := by simp only [CCoinsView.bestAnchor, h.bestAnchor]
  layered := h.layered
  consistent hc := by
    refine ⟨h.consistent hc.left, fun o e he => ?_⟩
    rw [h.utxo]
    exact hc.right o e he

variable {c : CoinsCache} {base : CCoinsView}

theorem emplace {o : COutPoint} {tmp : Coin}
    (hc : c.cacheCoins.lookup o = none) (hb : base.peek o = some tmp) :
    Same (.cache c base) (.cache (c.emplace o tmp) base) where
  peek o' := by
    simp only [CCoinsView.peek, CoinsCache.emplace, lookup_insert]
    by_cases eq : o' = o
    case pos =>
      subst eq
      simp [hc, hb]
    case neg => simp [eq]
  bestBlock := rfl
  anchorAt _ := rfl
  bestAnchor := rfl
  layered := id
  consistent h := by
    refine ⟨h.left, fun o' e he => ?_⟩
    rw [CoinsCache.emplace, lookup_insert] at he
    split at he
    case isFalse => exact h.right o' e he
    case isTrue eq =>
      cases he
      have : base.utxo o' = tmp.unspent := by simp [eq, CCoinsView.utxo, hb]
      exact this ▸ fetched_agrees tmp

theorem setHashBlock (hc : c.hashBlock = 0) :
    Same (.cache c base) (.cache { c with hashBlock := base.bestBlock } base) where
  peek _ := rfl
  bestBlock := by simp [CCoinsView.bestBlock, hc]
  anchorAt _ := rfl
  bestAnchor := rfl
  consistent := id
  layered := id

theorem setNullifiers (c : CoinsCache) (base : CCoinsView) (nullifiers : CNullifiersMap) :
    Same (.cache c base) (.cache { c with cacheSaplingNullifiers := nullifiers } base) where
  peek _ := rfl
  bestBlock := rfl
  anchorAt _ := rfl
  bestAnchor := rfl
  consistent := id
  layered := id

theorem emplaceAnchor {rt : Uint256} {tree : SaplingMerkleTree}
    (hc : c.cacheSaplingAnchors.lookup rt = none) (hb : base.anchorAt rt = some tree) (usage : ℤ) :
    let anchors := c.cacheSaplingAnchors.insert rt { entered := true, tree }
    Same (.cache c base)
      (.cache { c with cacheSaplingAnchors := anchors, cachedCoinsUsage := usage } base) where
  peek _ := rfl
  bestBlock := rfl
  anchorAt rt' := by
    simp only [CCoinsView.anchorAt, lookup_insert]
    by_cases eq : rt' = rt
    case pos =>
      subst eq
      simp [hc, hb]
    case neg => simp [eq]
  bestAnchor := rfl
  consistent := id
  layered := id

theorem setBestAnchor (hc : c.hashSaplingAnchor = 0) :
    Same (.cache c base) (.cache { c with hashSaplingAnchor := base.bestAnchor } base) where
  peek _ := rfl
  bestBlock := rfl
  anchorAt _ := rfl
  bestAnchor := by simp [CCoinsView.bestAnchor, hc]
  consistent := id
  layered := id

end Same

variable [Crypto]

theorem getCoin_eq (o : COutPoint) (v : CCoinsView) :
    ∃ v', v.getCoin o = (v.peek o, v') ∧ Same v v' := by
  induction v
  case db d => exact ⟨_, rfl, .refl _⟩
  case memPool pool base ih =>
    have ⟨base', h, same⟩ := ih
    simp only [getCoin, peek]
    cases pool.mapTx.lookup o.hash
    case none => exact ⟨memPool pool base', by rw [h], same.memPool pool⟩
    case some tx => exact ⟨_, rfl, .refl _⟩
  case cache c base ih =>
    have ⟨base', h, same⟩ := ih
    simp only [getCoin, peek]
    cases hc : c.cacheCoins.lookup o
    case some e => exact ⟨_, rfl, .refl _⟩
    case none =>
      cases hb : base.peek o <;> simp only [h, hb]
      case none => exact ⟨_, rfl, same.cache c⟩
      case some tmp => exact ⟨_, rfl, (same.cache c).trans (.emplace hc (same.peek o ▸ hb))⟩

theorem getBestBlock_eq (v : CCoinsView) : ∃ v', v.getBestBlock = (v.bestBlock, v') ∧ Same v v' := by
  induction v
  case db d => exact ⟨_, rfl, .refl _⟩
  case memPool pool base ih =>
    have ⟨base', h, same⟩ := ih
    exact ⟨memPool pool base', by simp only [getBestBlock, h, bestBlock], same.memPool pool⟩
  case cache c base ih =>
    have ⟨base', h, same⟩ := ih
    by_cases hc : c.hashBlock = 0 <;> simp only [getBestBlock, bestBlock, hc, h, if_true, if_false]
    case pos => exact ⟨_, rfl, (same.cache c).trans (same.bestBlock ▸ .setHashBlock hc)⟩
    case neg => exact ⟨_, rfl, .refl _⟩

theorem getNullifier_eq (nf : Uint256) (v : CCoinsView) : Same v (v.getNullifier nf).2 := by
  induction v
  case db d => exact .refl _
  case memPool pool base ih =>
    simp only [getNullifier]
    split
    case isTrue => exact .refl _
    case isFalse => exact ih.memPool pool
  case cache c base ih =>
    simp only [getNullifier]
    split
    case h_1 => exact .refl _
    case h_2 => exact (ih.cache c).trans (.setNullifiers ..)

theorem getSaplingAnchorAt_eq (rt : Uint256) (v : CCoinsView) :
    ∃ v', v.getSaplingAnchorAt rt = (v.anchorAt rt, v') ∧ Same v v' := by
  induction v
  case db d => exact ⟨_, rfl, .refl _⟩
  case memPool pool base ih =>
    have ⟨base', h, same⟩ := ih
    exact ⟨memPool pool base', by simp only [getSaplingAnchorAt, h, anchorAt], same.memPool pool⟩
  case cache c base ih =>
    have ⟨base', h, same⟩ := ih
    simp only [getSaplingAnchorAt, anchorAt]
    cases hc : c.cacheSaplingAnchors.lookup rt
    case some e => exact ⟨_, rfl, .refl _⟩
    case none =>
      cases hb : base.anchorAt rt <;> simp only [h, hb]
      case none => exact ⟨_, rfl, same.cache c⟩
      case some tree =>
        exact ⟨_, rfl, (same.cache c).trans (.emplaceAnchor hc (same.anchorAt rt ▸ hb) _)⟩

theorem getBestAnchor_eq (v : CCoinsView) : ∃ v', v.getBestAnchor = (v.bestAnchor, v') ∧ Same v v' := by
  induction v
  case db d => exact ⟨_, rfl, .refl _⟩
  case memPool pool base ih =>
    have ⟨base', h, same⟩ := ih
    exact ⟨memPool pool base', by simp only [getBestAnchor, h, bestAnchor], same.memPool pool⟩
  case cache c base ih =>
    have ⟨base', h, same⟩ := ih
    by_cases hc : c.hashSaplingAnchor = 0 <;>
      simp only [getBestAnchor, bestAnchor, hc, h, if_true, if_false]
    case pos => exact ⟨_, rfl, (same.cache c).trans (same.bestAnchor ▸ .setBestAnchor hc)⟩
    case neg => exact ⟨_, rfl, .refl _⟩

end CCoinsView

namespace CoinsCache

def mergeEntry (us : Option CCoinsCacheEntry) (e : CCoinsCacheEntry) :
    Except Failure (Option CCoinsCacheEntry) :=
  if !e.dirty then .ok us
  else
    match us with
    | none =>
      if e.fresh && e.coin.isSpent then .ok none
      else .ok (some { coin := e.coin, dirty := true, fresh := e.fresh })
    | some us =>
      if e.fresh && !us.coin.isSpent then
        .error (.logicError
          "FRESH flag misapplied to cache entry for base transaction with spendable outputs")
      else if us.fresh && e.coin.isSpent then .ok none
      else .ok (some { us with coin := e.coin, dirty := true })

theorem writeCoin_acts :
    KeyedUpdate.Acts (fun c o => c.cacheCoins.lookup o) writeCoin mergeEntry := by
  intro c o e r h
  have same (us : Option CCoinsCacheEntry) (hus : c.cacheCoins.lookup o = us) :
      (fun o' => c.cacheCoins.lookup o') = update (fun o' => c.cacheCoins.lookup o') o us := by
    rw [← hus, update_eq_self]
  simp only [mergeEntry] at h
  simp only [writeCoin]
  split at h
  case isTrue clean =>
    cases h
    exact ⟨c, if_pos clean, same _ rfl⟩
  case isFalse dirty =>
    rw [if_neg dirty]
    cases hus : c.cacheCoins.lookup o <;> simp only [hus] at h ⊢
    case none =>
      split at h <;> cases h
      case isTrue drop =>
        exact ⟨c, if_pos drop, same none hus⟩
      case isFalse keep =>
        refine ⟨_, if_neg keep, ?_⟩
        funext o'
        simp only [lookup_insert, update_apply]
    case some us =>
      split at h
      case isTrue => cases h
      case isFalse allowed =>
        rw [if_neg allowed]
        split at h <;> cases h
        case isTrue drop =>
          refine ⟨_, if_pos drop, ?_⟩
          funext o'
          simp only [lookup_erase, update_apply]
        case isFalse keep =>
          refine ⟨_, if_neg keep, ?_⟩
          funext o'
          simp only [lookup_insert, update_apply]

theorem mergeEntry_ok {us : Option CCoinsCacheEntry} {e : CCoinsCacheEntry} {g : Option Coin}
    (agrees : ∀ u, us = some u → u.Agrees g)
    (fresh : e.dirty = true → e.fresh = true → (us.map (·.coin.unspent)).getD g = none) :
    ∃ r, mergeEntry us e = .ok r ∧ (∀ u, r = some u → u.Agrees g) ∧
      (r.map (·.coin.unspent)).getD g =
        if e.dirty then e.coin.unspent else (us.map (·.coin.unspent)).getD g := by
  unfold mergeEntry
  cases he : e.dirty
  case false => exact ⟨us, rfl, agrees, rfl⟩
  case true =>
    specialize fresh he
    cases us
    case none =>
      by_cases drop : e.fresh && e.coin.isSpent
      case pos =>
        simp only [Bool.and_eq_true] at drop
        refine ⟨none, by simp [drop], by simp, ?_⟩
        rw [if_pos rfl, Coin.unspent_of_spent drop.right]
        exact fresh drop.left
      case neg =>
        refine ⟨_, by simp only [drop]; rfl, fun u hu => ?_, rfl⟩
        cases hu
        exact ⟨fresh, nofun⟩
    case some us =>
      have ⟨below, _⟩ := agrees us rfl
      have allowed : (e.fresh && !us.coin.isSpent) = false := by
        cases hf : e.fresh
        case false => rfl
        case true => simpa using Coin.unspent_eq_none.mp (fresh hf)
      by_cases drop : us.fresh && e.coin.isSpent
      case pos =>
        refine ⟨none, by simp only [allowed, drop]; rfl, by simp, ?_⟩
        simp only [Bool.and_eq_true] at drop
        rw [if_pos rfl, Coin.unspent_of_spent drop.right]
        exact below drop.left
      case neg =>
        refine ⟨_, by simp only [allowed, drop]; rfl, fun u hu => ?_, rfl⟩
        cases hu
        exact ⟨below, nofun⟩

theorem writeAnchor_cacheCoins (c : CoinsCache) (rt : Uint256) (e : CAnchorsSaplingCacheEntry) :
    (c.writeAnchor rt e).cacheCoins = c.cacheCoins := by
  simp only [writeAnchor]
  split <;> [rfl; (split <;> [rfl; (split <;> rfl)])]

theorem writeNullifier_cacheCoins (c : CoinsCache) (nf : Uint256) (e : CNullifiersCacheEntry) :
    (c.writeNullifier nf e).cacheCoins = c.cacheCoins := by
  simp only [writeNullifier]
  split <;> [rfl; (split <;> [rfl; (split <;> rfl)])]

theorem batchWrite_ok (c child : CoinsCache) {P : COutPoint → Option CCoinsCacheEntry → Prop}
    (hm : ∀ o e, child.cacheCoins.lookup o = some e →
      ∃ r, mergeEntry (c.cacheCoins.lookup o) e = .ok r ∧ P o r)
    (hn : ∀ o, child.cacheCoins.lookup o = none → P o (c.cacheCoins.lookup o)) :
    ∃ c', c.batchWrite child = .ok c' ∧ ∀ o, P o (c'.cacheCoins.lookup o) := by
  have ⟨c', h, hc'⟩ := writeCoin_acts.foldl child.cacheCoins c hm hn
  refine ⟨_, by rw [batchWrite, h]; rfl, fun o => ?_⟩
  change P o ((CoinsCache.cacheCoins (AList.foldl _ (AList.foldl _ c' _) _)).lookup o)
  rw [foldl_keeps writeNullifier_cacheCoins,
    foldl_keeps writeAnchor_cacheCoins]
  exact hc' o

end CoinsCache

namespace CCoinsViewDB

theorem writeNullifier_coins (d : CCoinsViewDB) (nf : Uint256) (e : CNullifiersCacheEntry) :
    (d.writeNullifier nf e).coins = d.coins := by
  simp only [writeNullifier]
  split_ifs <;> rfl

theorem lookup_writeCoin (coins : AList fun _ : COutPoint => Coin) (o : COutPoint)
    (e : CCoinsCacheEntry) :
    (fun o' => (writeCoin coins o e).lookup o') =
      update (fun o' => coins.lookup o') o
        (if e.dirty then e.coin.unspent else coins.lookup o) := by
  funext o'
  cases he : e.dirty
  case false => simp [writeCoin, he]
  case true =>
    cases hs : e.coin.isSpent
    case false =>
      simp [writeCoin, he, hs, Coin.unspent, lookup_insert, update_apply]
    case true =>
      simp [writeCoin, he, hs, Coin.unspent, lookup_erase, update_apply]

variable [Crypto] (d : CCoinsViewDB)

theorem writeAnchor_coins (rt : Uint256) (e : CAnchorsSaplingCacheEntry) :
    (d.writeAnchor rt e).coins = d.coins := by
  simp only [writeAnchor]
  split_ifs <;> rfl

theorem lookup_batchWrite (child : CoinsCache) (o : COutPoint) :
    (d.batchWrite child).coins.lookup o =
      (child.cacheCoins.lookup o).elim (d.coins.lookup o)
        fun e => if e.dirty then e.coin.unspent else d.coins.lookup o := by
  change (CCoinsViewDB.coins (AList.foldl _ (AList.foldl _ _ _) _)).lookup o = _
  rw [foldl_keeps writeNullifier_coins, foldl_keeps writeAnchor_coins]
  exact foldl_total (fun coins o => coins.lookup o)
    (fun r e => if e.dirty then e.coin.unspent else r) lookup_writeCoin child.cacheCoins d.coins o

end CCoinsViewDB

namespace CCoinsView

variable {c : CoinsCache} {base : CCoinsView}

theorem utxo_write_of_consistent (consistent : (cache c base).Consistent) :
    base.utxo.write c.cacheCoins = (cache c base).utxo := by
  funext o
  rw [utxo_cache, Utxo.write]
  cases h : c.cacheCoins.lookup o
  case none => rfl
  case some e =>
    cases he : e.dirty
    case true => simp [he]
    case false => simpa [he] using (consistent.right o e h).clean he

theorem clear_consistent (c : CoinsCache) (h : base.Consistent) :
    (cache c.clear base).Consistent :=
  ⟨h, fun _ _ he => nomatch he⟩

theorem clear_utxo (c : CoinsCache) (base : CCoinsView) : (cache c.clear base).utxo = base.utxo := by
  funext o
  exact utxo_cache ..

variable [Crypto]

theorem db_batchWrite_utxo (d : CCoinsViewDB) (child : CoinsCache) :
    (db (d.batchWrite child)).utxo = (db d).utxo.write child.cacheCoins := by
  funext o
  simp only [utxo, peek, Utxo.write, CCoinsViewDB.lookup_batchWrite]
  cases child.cacheCoins.lookup o
  case none => rfl
  case some e =>
    cases he : e.dirty
    case false => simp [he]
    case true => cases h : e.coin.isSpent <;> simp [he, Coin.unspent, h]

theorem batchWrite_ok {v : CCoinsView} {child : CoinsCache} (consistent : v.Consistent)
    (layered : v.Layered)
    (fresh : ∀ o e, child.cacheCoins.lookup o = some e → e.dirty = true → e.fresh = true →
      v.utxo o = none) :
    ∃ v', v.batchWrite child = .ok v' ∧ v'.Consistent ∧ v'.Layered ∧
      v'.utxo = v.utxo.write child.cacheCoins := by
  cases v
  case db d => exact ⟨_, rfl, trivial, trivial, db_batchWrite_utxo d child⟩
  case memPool => exact layered.elim
  case cache c base =>
    have ⟨c', h, hc'⟩ := CoinsCache.batchWrite_ok c child
      (P := fun o r => (∀ u, r = some u → u.Agrees (base.utxo o)) ∧
        (r.map (·.coin.unspent)).getD (base.utxo o) =
          (cache c base).utxo.write child.cacheCoins o)
      (fun o e he => by
        have fresh := fresh o e he
        simp only [Utxo.write, he]
        rw [utxo_cache] at fresh ⊢
        exact CoinsCache.mergeEntry_ok (consistent.right o) fresh)
      (fun o ho => by
        simp only [Utxo.write, ho]
        exact ⟨consistent.right o, (utxo_cache ..).symm⟩)
    refine ⟨cache c' base, by rw [batchWrite, h]; rfl, ?_, layered, ?_⟩
    · exact ⟨consistent.left, fun o => (hc' o).left⟩
    · funext o
      rw [utxo_cache]
      exact (hc' o).right

theorem flush_ok (consistent : (cache c base).Consistent)
    (layered : base.Layered) :
    ∃ base', base.batchWrite c = .ok base' ∧ base'.Consistent ∧ base'.Layered ∧
      base'.utxo = (cache c base).utxo := by
  have ⟨base', h, consistent', layered', same⟩ := batchWrite_ok consistent.left layered
    fun o e he _ => (consistent.right o e he).fresh
  exact ⟨base', h, consistent', layered', same.trans (utxo_write_of_consistent consistent)⟩

end CCoinsView

end Qrax
