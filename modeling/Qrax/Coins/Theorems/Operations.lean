import Qrax.Coins.Theorems.Cache

open KeyedUpdate

namespace Qrax.CCoinsViewCache

open CCoinsView (Same)

theorem utxo_eq (v : CCoinsViewCache) (o : COutPoint) :
    v.utxo o = ((v.entry o).map (·.coin.unspent)).getD (v.base.utxo o) :=
  CCoinsView.utxo_cache ..

theorem utxo_of_entry {v : CCoinsViewCache} {o : COutPoint} {e : CCoinsCacheEntry}
    (h : v.entry o = some e) : v.utxo o = e.coin.unspent := by
  rw [utxo_eq, h]
  rfl

theorem utxo_of_entry_none {v : CCoinsViewCache} {o : COutPoint} (h : v.entry o = none) :
    v.utxo o = v.base.utxo o := by
  rw [utxo_eq, h]
  rfl

section

variable [Crypto]

-- A cache after reads: the same answers, with copies of the parent's as new entries.
structure Fetched (v v' : CCoinsViewCache) : Prop where
  same : Same v.view v'.view
  base : Same v.base v'.base
  entry : ∀ o, v'.entry o = v.entry o ∨
    v.entry o = none ∧ ∃ coin, v.base.peek o = some coin ∧
      v'.entry o = some { coin, fresh := coin.isSpent }

namespace Fetched

theorem refl (v : CCoinsViewCache) : Fetched v v where
  same := .refl _
  base := .refl _
  entry _ := .inl rfl

theorem trans {v₁ v₂ v₃ : CCoinsViewCache} (h₁ : Fetched v₁ v₂) (h₂ : Fetched v₂ v₃) :
    Fetched v₁ v₃ where
  same := h₁.same.trans h₂.same
  base := h₁.base.trans h₂.base
  entry o := by
    cases h₂.entry o
    case inl eq₂ =>
      rw [eq₂]
      exact h₁.entry o
    case inr new =>
      have ⟨none₂, coin, hcoin, eq₃⟩ := new
      cases h₁.entry o
      case inl eq₁ => exact .inr ⟨eq₁ ▸ none₂, coin, h₁.base.peek o ▸ hcoin, eq₃⟩
      case inr old =>
        have ⟨_, _, _, eq₂⟩ := old
        rw [eq₂] at none₂
        cases none₂

variable {v v' : CCoinsViewCache}

theorem utxo (h : Fetched v v') : v'.utxo = v.utxo :=
  h.same.utxo

theorem consistent (h : Fetched v v') (hc : v.Consistent) : v'.Consistent :=
  h.same.consistent hc

theorem entry_of_some {o : COutPoint} {e : CCoinsCacheEntry}
    (h : Fetched v v') (he : v.entry o = some e) : v'.entry o = some e := by
  cases h.entry o
  case inl eq => rw [eq, he]
  case inr new => exact absurd (he ▸ new.left) nofun

end Fetched

section

variable (v : CCoinsViewCache) (o : COutPoint)

include v o

theorem fetchCoin_eq :
    ∃ v', v.fetchCoin o = (v'.entry o, v') ∧ Fetched v v' ∧
      (v'.entry o).map (·.coin) = v.view.peek o := by
  have ⟨base', h, same⟩ := v.base.getCoin_eq o
  simp only [fetchCoin, view, CCoinsView.peek]
  cases hc : v.cache.cacheCoins.lookup o
  case some e =>
    exact ⟨v, by simp only [entry, hc], .refl v, by simp only [entry, hc, Option.map_some]⟩
  case none =>
    cases hb : v.base.peek o <;> simp only [h, hb]
    case none =>
      refine ⟨{ v with base := base' }, by simp only [entry, hc], ?_, by simp only [entry, hc]; rfl⟩
      exact ⟨same.cache _, same, fun _ => .inl rfl⟩
    case some tmp =>
      let v' : CCoinsViewCache := { cache := v.cache.emplace o tmp, base := base' }
      have lookup (o' : COutPoint) :
          v'.entry o' = if o' = o then some { coin := tmp, fresh := tmp.isSpent } else v.entry o' :=
        lookup_insert ..
      refine ⟨v', by rw [lookup, if_pos rfl], ?_, by rw [lookup, if_pos rfl]; rfl⟩
      refine ⟨(same.cache _).trans (.emplace hc (same.peek o ▸ hb)), same, fun o' => ?_⟩
      rw [lookup]
      by_cases eq : o' = o
      case pos =>
        subst eq
        exact .inr ⟨hc, tmp, hb, if_pos rfl⟩
      case neg => exact .inl (if_neg eq)

theorem getCoin_eq :
    ∃ v', v.getCoin o = (v.view.peek o, v') ∧ Fetched v v' := by
  have ⟨v', h, fetched, coin⟩ := v.fetchCoin_eq o
  exact ⟨v', by simp only [getCoin, h, coin], fetched⟩

theorem accessCoin_eq :
    ∃ v', v.accessCoin o = ((v.view.peek o).getD {}, v') ∧ Fetched v v' := by
  have ⟨v', h, fetched, coin⟩ := v.fetchCoin_eq o
  refine ⟨v', ?_, fetched⟩
  rw [← coin]
  simp only [accessCoin, h]
  cases v'.entry o <;> rfl

theorem haveCoin_eq :
    ∃ v', v.haveCoin o = ((v.utxo o).isSome, v') ∧ Fetched v v' := by
  have ⟨v', h, fetched, coin⟩ := v.fetchCoin_eq o
  refine ⟨v', ?_, fetched⟩
  simp only [haveCoin, h, utxo, CCoinsView.utxo, ← coin]
  cases v'.entry o
  case none => rfl
  case some e => cases he : e.coin.isSpent <;> simp [Coin.unspent, he]

end

theorem haveCoins_eq (v : CCoinsViewCache) (os : List COutPoint) :
    ∃ v', v.haveCoins os = (os.all fun o => (v.utxo o).isSome, v') ∧ Fetched v v' := by
  induction os generalizing v
  case nil => exact ⟨v, rfl, .refl v⟩
  case cons o os ih =>
    have ⟨v₁, h₁, fetched₁⟩ := v.haveCoin_eq o
    simp only [haveCoins, h₁, List.all_cons]
    cases (v.utxo o).isSome
    case false => exact ⟨v₁, rfl, fetched₁⟩
    case true =>
      have ⟨v₂, h₂, fetched₂⟩ := ih v₁
      exact ⟨v₂, by simp [h₂, fetched₁.utxo], fetched₁.trans fetched₂⟩

end

def added (v : CCoinsViewCache) (o : COutPoint) (coin : Coin) (possibleOverwrite : Bool) :
    CCoinsViewCache :=
  let e := (v.entry o).getD {}
  { v with cache := { v.cache with
      cacheCoins := v.cache.cacheCoins.insert o
        { coin, dirty := true, fresh := e.fresh || !possibleOverwrite && !e.dirty }
      cachedCoinsUsage :=
        v.cache.cachedCoinsUsage - e.coin.dynamicMemoryUsage + coin.dynamicMemoryUsage } }

variable {o : COutPoint} {coin : Coin} {ow : Bool} {v : CCoinsViewCache} {e : CCoinsCacheEntry}

theorem addCoin_eq_ok {v v' : CCoinsViewCache} :
    v.addCoin o coin ow = .ok v' ↔
      coin.isSpent = false ∧
        if coin.out.scriptPubKey.isUnspendable then v = v'
        else (ow = true ∨ ((v.entry o).getD {}).coin.isSpent = true) ∧ v.added o coin ow = v' := by
  simp only [addCoin, CoinsCache.addCoin]
  cases hs : coin.isSpent
  case true => simp
  case false =>
    by_cases hu : coin.out.scriptPubKey.isUnspendable
    case pos => simp [hu]
    case neg =>
      simp only [hu, entry]
      generalize he : (v.cache.cacheCoins.lookup o).getD {} = e
      cases ow <;> cases hsp : e.coin.isSpent <;>
        simp [added, entry, he, AList.insert_insert]

theorem entry_added (v : CCoinsViewCache) (o o' : COutPoint) (coin : Coin) (ow : Bool) :
    (v.added o coin ow).entry o' =
      if o' = o then
        let e := (v.entry o).getD {}
        some { coin, dirty := true, fresh := e.fresh || !ow && !e.dirty }
      else v.entry o' :=
  lookup_insert ..

theorem utxo_added (v : CCoinsViewCache) (o : COutPoint) (coin : Coin) (ow : Bool) :
    (v.added o coin ow).utxo = Function.update v.utxo o coin.unspent := by
  funext o'
  rw [utxo_eq, entry_added, Function.update_apply]
  split
  case isTrue => rfl
  case isFalse => rw [utxo_eq]; rfl

theorem added_consistent (h : v.Consistent) (ho : ow = false → v.utxo o = none) : (v.added o coin ow).Consistent := by
  refine ⟨h.left, fun o' e he => ?_⟩
  change (v.added o coin ow).entry o' = some e at he
  rw [entry_added] at he
  split at he
  case isFalse => exact h.right o' e he
  case isTrue eq =>
    subst eq
    cases he
    refine ⟨fun fresh => ?_, nofun⟩
    simp only [Bool.or_eq_true, Bool.and_eq_true, Bool.not_eq_true'] at fresh
    cases he : v.entry o'
    case none =>
      rw [he] at fresh
      simp only [Option.getD_none, Bool.false_eq_true, false_or] at fresh
      rw [← ho fresh.left]
      exact (utxo_of_entry_none he).symm
    case some e =>
      rw [he] at fresh
      have agrees := h.right o' e he
      cases fresh
      case inl hf => exact agrees.fresh hf
      case inr hf =>
        refine (agrees.clean hf.right).trans ?_
        rw [← ho hf.left, utxo_of_entry he]

def spent (v : CCoinsViewCache) (o : COutPoint) (e : CCoinsCacheEntry) : CCoinsViewCache where
  __ := v
  cache := v.cache.spendEntry o e

theorem entry_spent (v : CCoinsViewCache) (o o' : COutPoint) (e : CCoinsCacheEntry) :
    (v.spent o e).entry o' =
      if o' = o then if e.fresh then none else some { e with coin := {}, dirty := true }
      else v.entry o' := by
  simp only [entry, spent, CoinsCache.spendEntry]
  cases e.fresh
  case false => exact lookup_insert ..
  case true => exact lookup_erase ..

theorem utxo_spent (h : v.Consistent)
    (he : v.entry o = some e) : (v.spent o e).utxo = Function.update v.utxo o none := by
  funext o'
  rw [utxo_eq, entry_spent, Function.update_apply]
  split
  case isFalse => rw [utxo_eq]; rfl
  case isTrue eq =>
    subst eq
    cases hf : e.fresh
    case false => rfl
    case true => exact (h.right o' e he).fresh hf

theorem spent_consistent (h : v.Consistent) : (v.spent o e).Consistent := by
  refine ⟨h.left, fun o' e' he' => ?_⟩
  change (v.spent o e).entry o' = some e' at he'
  rw [entry_spent] at he'
  split at he'
  case isFalse => exact h.right o' e' he'
  case isTrue =>
    split at he' <;> cases he'
    case isFalse hf => exact ⟨fun fresh => absurd fresh hf, nofun⟩

variable [Crypto]

theorem spendCoin_eq (v : CCoinsViewCache) (o : COutPoint) :
    ∃ v₁, Fetched v v₁ ∧ (v₁.entry o).map (·.coin) = v.view.peek o ∧
      v.spendCoin o = (v.view.peek o, (v₁.entry o).elim v₁ (v₁.spent o)) := by
  have ⟨v₁, h, fetched, coin⟩ := v.fetchCoin_eq o
  refine ⟨v₁, fetched, coin, ?_⟩
  rw [← coin]
  simp only [spendCoin, h]
  cases v₁.entry o <;> rfl

theorem spendCoin_consistent (h : v.Consistent) (o : COutPoint) :
    (v.spendCoin o).2.Consistent ∧ (v.spendCoin o).2.utxo = Function.update v.utxo o none := by
  have ⟨v₁, fetched, coin, eq⟩ := v.spendCoin_eq o
  have h₁ := fetched.consistent h
  rw [eq, ← fetched.utxo]
  cases he : v₁.entry o
  case some e => exact ⟨spent_consistent h₁, utxo_spent h₁ he⟩
  case none =>
    -- Nothing is found, neither here nor below.
    have : v₁.utxo o = none := by
      rw [he] at coin
      rw [fetched.utxo]
      simp [utxo, CCoinsView.utxo, ← coin]
    exact ⟨h₁, (Function.update_eq_self_iff.mpr this.symm).symm⟩

end Qrax.CCoinsViewCache
