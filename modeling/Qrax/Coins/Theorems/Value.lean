import Qrax.Lib.FiniteTotal
import Qrax.Coins.Theorems.Writes

open FiniteTotal

namespace Qrax

open Function Coin Utxo

def Coin.value (c : Option Coin) : ℤ :=
  c.elim 0 (·.out.nValue.toInt)

@[simp]
theorem Coin.value_none : value none = 0 := rfl

theorem Coin.filter_bind_unspent (c : Option Coin) : (c.filter (!·.isSpent)).bind unspent = c.bind unspent := by
  cases c
  case none => rfl
  case some c => cases h : c.isSpent <;> simp [Option.filter, unspent, h]

namespace Utxo

theorem valueAt_eq (u : Utxo) (o : COutPoint) : u.valueAt o = value (u o) := rfl

noncomputable def total (u : Utxo) : ℤ :=
  ∑ᶠ o, u.valueAt o

end Utxo

namespace CCoinsView

theorem finite_keys {α β : Type} [DecidableEq α] (m : AList fun _ : α => β) : {a | (m.lookup a).isSome}.Finite := by
  refine (List.finite_toSet m.keys).subset fun o found => ?_
  exact AList.mem_keys.mpr (AList.lookup_isSome.mp found)

theorem finite_outpoints (hashes : Set Uint256) (h : hashes.Finite) : {o : COutPoint | o.hash ∈ hashes}.Finite := by
  have : Finite UInt32 :=
    .of_injective (fun n => (⟨n.toNat, n.toNat_lt⟩ : Fin (2 ^ 32))) fun n m eq => UInt32.toNat_inj.mp (Fin.mk.inj eq)
  refine ((h.prod Set.finite_univ).image fun p : Uint256 × UInt32 => COutPoint.mk p.1 p.2).subset fun o mem => ?_
  exact ⟨(o.hash, o.n), ⟨mem, trivial⟩, rfl⟩

theorem finite_utxo (v : CCoinsView) : {o | (v.utxo o).isSome}.Finite := by
  induction v
  case db d =>
    refine (finite_keys d.coins).subset fun o found => ?_
    simp only [utxo, peek, Set.mem_ofPred_eq] at found ⊢
    exact Option.isSome_of_isSome_bind found
  case memPool pool base ih =>
    refine ((finite_outpoints _ (finite_keys pool.mapTx)).union ih).subset fun o found => ?_
    cases he : pool.mapTx.lookup o.hash
    case some tx => exact .inl (by simp [he])
    case none =>
      refine .inr ?_
      simp only [Set.mem_ofPred_eq, utxo, peek, he, filter_bind_unspent] at found
      exact found
  case cache c base ih =>
    refine ((finite_keys c.cacheCoins).union ih).subset fun o found => ?_
    cases he : c.cacheCoins.lookup o
    case some e => exact .inl (by simp [he])
    case none =>
      refine .inr ?_
      simpa [utxo_cache, he] using found

end CCoinsView

namespace CCoinsViewCache

theorem hasFiniteSupport_valueAt (v : CCoinsViewCache) : HasFiniteSupport v.utxo.valueAt := by
  refine v.view.finite_utxo.subset fun o value => ?_
  rw [mem_support, valueAt_eq] at value
  cases h : v.utxo o
  case none =>
    rw [h] at value
    exact absurd rfl value
  case some c => exact Option.isSome_iff_exists.mpr ⟨c, h⟩

-- What an outpoint is worth with the coin below a fresh entry counted too: it comes to light when the entry is spent,
-- so no flag has to be right.
def worth (v : CCoinsViewCache) (o : COutPoint) : ℤ :=
  match v.entry o with
  | none => v.base.utxo.valueAt o
  | some e => Coin.value e.coin.unspent + if e.fresh then v.base.utxo.valueAt o else 0

-- Entries without changes are copies of what is below, and no coin that may come to light is negative.
structure Accounted (v : CCoinsViewCache) : Prop where
  clean : ∀ o e, v.entry o = some e → e.dirty = false → v.base.utxo o = e.coin.unspent
  below : ∀ o, (∀ e, v.entry o = some e → e.fresh = true ∨ e.dirty = false) → 0 ≤ v.base.utxo.valueAt o

variable {v v' : CCoinsViewCache} {o : COutPoint} {coin : Coin}

theorem Accounted.start (consistent : v.Consistent) (amounts : ∀ o c, v.utxo o = some c → 0 ≤ c.out.nValue.toInt) :
    Accounted v where
  clean o e he clean := (consistent.right o e he).clean clean
  below o unchanged := by
    have nonneg : 0 ≤ v.utxo.valueAt o := by
      rw [valueAt_eq]
      cases h : v.utxo o
      case none => exact le_rfl
      case some c => exact amounts o c h
    cases he : v.entry o
    case none =>
      rw [valueAt_eq, utxo_of_entry_none he] at nonneg
      exact nonneg
    case some e =>
      have agrees := consistent.right o e he
      rw [valueAt_eq]
      cases unchanged e he
      case inl fresh => rw [agrees.fresh fresh]; exact le_rfl
      case inr clean =>
        rw [agrees.clean clean, ← utxo_of_entry he]
        exact nonneg

theorem worth_of_entry_none (h : v.entry o = none) : v.worth o = v.base.utxo.valueAt o := by
  simp only [worth, h]

variable {e : CCoinsCacheEntry}

theorem worth_of_entry (h : v.entry o = some e) :
    v.worth o = value e.coin.unspent + if e.fresh then v.base.utxo.valueAt o else 0 := by
  simp only [worth, h]

theorem valueAt_of_entry_none (h : v.entry o = none) : v.utxo.valueAt o = v.base.utxo.valueAt o := by
  rw [valueAt_eq, utxo_of_entry_none h, valueAt_eq]

theorem valueAt_of_entry (h : v.entry o = some e) :
    v.utxo.valueAt o = value e.coin.unspent := by
  rw [valueAt_eq, utxo_of_entry h]

theorem worth_of_consistent (consistent : v.Consistent) : v.worth = v.utxo.valueAt := by
  funext o
  cases he : v.entry o
  case none => rw [worth_of_entry_none he, valueAt_of_entry_none he]
  case some e =>
    rw [worth_of_entry he, valueAt_of_entry he]
    split
    case isFalse => rw [add_zero]
    case isTrue new => rw [valueAt_eq, (consistent.right o e he).fresh new, value_none, add_zero]

theorem Accounted.valueAt_le (h : v.Accounted) (o : COutPoint) : v.utxo.valueAt o ≤ v.worth o := by
  cases he : v.entry o
  case none => rw [worth_of_entry_none he, valueAt_of_entry_none he]
  case some e =>
    rw [worth_of_entry he, valueAt_of_entry he]
    split
    case isFalse => rw [add_zero]
    case isTrue new =>
      have := h.below o fun e' he' => by
        rw [he] at he'
        cases he'
        exact .inl new
      omega

theorem Accounted.spent (h : v.Accounted) (he : v.entry o = some e) :
    (v.spent o e).Accounted where
  clean o' e' he' clean := by
    rw [entry_spent] at he'
    split at he'
    case isFalse => exact h.clean o' e' he' clean
    case isTrue =>
      split at he' <;> cases he'
      cases clean
  below o' unchanged := by
    refine h.below o' fun e' he' => ?_
    by_cases eq : o' = o
    case neg => exact unchanged e' (by rw [entry_spent, if_neg eq, he'])
    case pos =>
      subst eq
      rw [he] at he'
      cases he'
      cases fresh : e.fresh
      case true => exact .inl rfl
      case false =>
        have := unchanged { e with coin := {}, dirty := true } (by simp [entry_spent, fresh])
        simp [fresh] at this

theorem worth_spent (he : v.entry o = some e) :
    (v.spent o e).worth = update v.worth o (v.worth o + -value e.coin.unspent) := by
  funext o'
  by_cases eq : o' = o
  case neg =>
    rw [update_of_ne eq, worth, worth, entry_spent, if_neg eq]
    rfl
  case pos =>
    subst eq
    rw [update_self, worth_of_entry he]
    cases fresh : e.fresh
    case true =>
      have gone : (v.spent o' e).entry o' = none := by simp [entry_spent, fresh]
      rw [worth_of_entry_none gone, if_pos rfl]
      change v.base.utxo.valueAt o' = _
      omega
    case false =>
      have left : (v.spent o' e).entry o' = some { e with coin := {}, dirty := true } := by simp [entry_spent, fresh]
      rw [worth_of_entry left]
      simp [fresh]

theorem Accounted.added (h : v.Accounted) : (v.added o coin false).Accounted where
  clean o' e' he' clean := by
    rw [entry_added] at he'
    split at he'
    case isFalse => exact h.clean o' e' he' clean
    case isTrue =>
      cases he'
      cases clean
  below o' unchanged := by
    refine h.below o' fun e' he' => ?_
    by_cases eq : o' = o
    case neg => exact unchanged e' (by rw [entry_added, if_neg eq, he'])
    case pos =>
      subst eq
      have := unchanged _ (by rw [entry_added, if_pos rfl])
      rw [he'] at this
      simpa using this

theorem worth_added (h : v.Accounted) (spent : ((v.entry o).getD {}).coin.isSpent = true) :
    (v.added o coin false).worth = update v.worth o (v.worth o + value coin.unspent) := by
  funext o'
  by_cases eq : o' = o
  case neg =>
    rw [update_of_ne eq, worth, worth, entry_added, if_neg eq]
    rfl
  case pos =>
    subst eq
    have new := entry_added v o' o' coin false
    rw [if_pos rfl] at new
    rw [update_self, worth_of_entry new]
    change _ + (if _ then v.base.utxo.valueAt o' else 0) = _
    cases he : v.entry o' <;> rw [he] at spent
    case none =>
      rw [worth_of_entry_none he]
      simp [add_comm]
    case some e =>
      have gone : e.coin.unspent = none := unspent_of_spent spent
      rw [worth_of_entry he, gone]
      cases fresh : e.fresh <;> cases dirty : e.dirty
      case true.false | true.true | false.true => simp [fresh, dirty, add_comm]
      case false.false => simp [fresh, dirty, valueAt_eq, h.clean o' e he dirty, gone]

section

variable [Crypto]

theorem Accounted.fetched (h : v.Accounted) (fetched : Fetched v v') : v'.Accounted where
  clean o e he clean := by
    rw [fetched.base.utxo]
    cases fetched.entry o
    case inl eq => exact h.clean o e (eq ▸ he) clean
    case inr new =>
      have ⟨_, coin, peek, eq⟩ := new
      rw [he] at eq
      cases eq
      simp only [CCoinsView.utxo, peek, Option.bind_some]
  below o unchanged := by
    rw [fetched.base.utxo]
    refine h.below o fun e he => unchanged e (fetched.entry_of_some he)

theorem worth_fetched (fetched : Fetched v v') : v'.worth = v.worth := by
  funext o
  cases fetched.entry o
  case inl eq => rw [worth, worth, eq, fetched.base.utxo]
  case inr new =>
    have ⟨uncached, coin, peek, eq⟩ := new
    have below : v.base.utxo o = coin.unspent := by simp only [CCoinsView.utxo, peek, Option.bind_some]
    rw [worth_of_entry eq, worth_of_entry_none uncached, fetched.base.utxo, valueAt_eq, below]
    split
    case isFalse => rw [add_zero]
    case isTrue spent => rw [unspent_of_spent spent, value_none, add_zero]

theorem spendCoin_worth (h : v.Accounted) (o : COutPoint) :
    (v.spendCoin o).2.Accounted ∧
      (v.spendCoin o).2.worth = update v.worth o (v.worth o + -v.utxo.valueAt o) := by
  have ⟨v₁, fetched, coin, eq⟩ := v.spendCoin_eq o
  have h₁ := h.fetched fetched
  rw [eq, ← worth_fetched fetched, ← fetched.utxo]
  cases he : v₁.entry o
  case some e =>
    refine ⟨h₁.spent he, ?_⟩
    rw [valueAt_of_entry he]
    exact worth_spent he
  case none =>
    have absent : v₁.utxo.valueAt o = 0 := by
      rw [he] at coin
      rw [fetched.utxo, valueAt_eq, utxo, CCoinsView.utxo, ← coin]
      rfl
    rw [absent, neg_zero, add_zero, update_eq_self]
    exact ⟨h₁, rfl⟩

end

def delta : CoinWrite → ℤ
  | .spend _ coin => -Coin.value coin
  | .add _ coin => coin.out.nValue.toInt

theorem Writes.worth [Crypto] {ws : List CoinWrite} (h : Writes v ws v') (accounted : v.Accounted)
    (finite : HasFiniteSupport v.worth) :
    v'.Accounted ∧ HasFiniteSupport v'.worth ∧ ∑ᶠ o, v'.worth o = ∑ᶠ o, v.worth o + (ws.map delta).sum := by
  induction h
  case nil fetched =>
    rw [worth_fetched fetched]
    exact ⟨accounted.fetched fetched, finite, by simp⟩
  case spend v v₁ _ ws o fetched _ ih =>
    have ⟨accounted₁, worth₁⟩ := spendCoin_worth (accounted.fetched fetched) o
    rw [worth_fetched fetched, fetched.utxo] at worth₁
    rw [worth₁] at ih
    have ⟨stop, finite', sum⟩ := ih accounted₁ (hasFiniteSupport_update finite o _)
    refine ⟨stop, finite', sum.trans ?_⟩
    rw [finsum_update finite, List.map_cons, List.sum_cons, add_assoc]
    rfl
  case add v v₁ v₂ _ ws o coin fetched spendable ok _ ih =>
    have ⟨unspent, spent, eq⟩ := addCoin_new ok spendable
    have accounted₁ := accounted.fetched fetched
    have worth₂ : (v₁.added o coin false).worth = _ := worth_added accounted₁ spent
    rw [← eq, worth_fetched fetched, unspent_of_not_spent unspent] at worth₂
    rw [worth₂] at ih
    have ⟨stop, finite', sum⟩ := ih (eq ▸ accounted₁.added) (hasFiniteSupport_update finite o _)
    refine ⟨stop, finite', sum.trans ?_⟩
    rw [finsum_update finite, List.map_cons, List.sum_cons, add_assoc]
    rfl

end CCoinsViewCache

end Qrax
