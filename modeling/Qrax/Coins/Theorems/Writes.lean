import Qrax.Lib.Journal
import Qrax.Coins.Theorems.Reads

open List

namespace Qrax

-- A change of a cache: `SpendCoin` with the coin found, or `AddCoin` without overwriting.
inductive CoinWrite
  | spend (o : COutPoint) (coin : Option Coin)
  | add (o : COutPoint) (coin : Coin)

namespace CoinWrite

def outpoint : CoinWrite → COutPoint
  | spend o _ => o
  | add o _ => o

def written : CoinWrite → COutPoint × Option Coin
  | spend o _ => (o, none)
  | add o coin => (o, some coin)

def added? : CoinWrite → Option (COutPoint × Coin)
  | spend _ _ => none
  | add o coin => some (o, coin)

end CoinWrite

namespace CCoinsViewCache

open CCoinsView (Same)

section

variable {v v' : CCoinsViewCache} {o o' : COutPoint} {coin : Coin}

theorem addCoin_new (h : v.addCoin o coin false = .ok v') (spendable : ¬coin.out.scriptPubKey.isUnspendable) :
    coin.isSpent = false ∧ ((v.entry o).getD {}).coin.isSpent = true ∧ v' = v.added o coin false := by
  have ⟨unspent, h⟩ := addCoin_eq_ok.mp h
  rw [if_neg spendable] at h
  simp only [Bool.false_eq_true, false_or] at h
  exact ⟨unspent, h.left, h.right.symm⟩

theorem utxo_spendCoin_of_ne [Crypto] (ne : o' ≠ o) : (v.spendCoin o).2.utxo o' = v.utxo o' := by
  have ⟨v₁, fetched, _, eq⟩ := v.spendCoin_eq o
  rw [eq, ← fetched.utxo]
  cases v₁.entry o
  case none => rfl
  case some e =>
    rw [Option.elim_some, utxo_eq, entry_spent, if_neg ne, utxo_eq]
    rfl

end

variable [Crypto]

inductive Writes : CCoinsViewCache → List CoinWrite → CCoinsViewCache → Prop
  | nil {v v'} : Fetched v v' → Writes v [] v'
  | spend {v v₁ v' ws} (o : COutPoint) :
    Fetched v v₁ → Writes (v₁.spendCoin o).2 ws v' → Writes v (.spend o (v.utxo o) :: ws) v'
  | add {v v₁ v₂ v' ws o coin} :
    Fetched v v₁ → ¬coin.out.scriptPubKey.isUnspendable → v₁.addCoin o coin false = .ok v₂ →
    Writes v₂ ws v' → Writes v (.add o coin :: ws) v'

namespace Writes

variable {v v₁ v₂ v' : CCoinsViewCache} {ws ws' : List CoinWrite}

theorem after (fetched : Fetched v v₁) (h : Writes v₁ ws v') : Writes v ws v' := by
  match h with
  | .nil fetched' => exact .nil (fetched.trans fetched')
  | .spend o fetched' rest =>
    rw [fetched.utxo]
    exact .spend o (fetched.trans fetched') rest
  | .add fetched' spendable ok rest => exact .add (fetched.trans fetched') spendable ok rest

end Writes

structure Framed (v v' : CCoinsViewCache) : Prop where
  base : Same v.base v'.base
  anchorAt : ∀ rt, v'.view.anchorAt rt = v.view.anchorAt rt
  bestAnchor : v'.view.bestAnchor = v.view.bestAnchor

namespace Framed

variable {v v₁ v' : CCoinsViewCache}

theorem trans (h₁ : Framed v v₁) (h₂ : Framed v₁ v') : Framed v v' where
  base := h₁.base.trans h₂.base
  anchorAt rt := (h₂.anchorAt rt).trans (h₁.anchorAt rt)
  bestAnchor := h₂.bestAnchor.trans h₁.bestAnchor

theorem fetched (h : Fetched v v') : Framed v v' :=
  ⟨h.base, h.same.anchorAt, h.same.bestAnchor⟩

theorem spendCoin (v : CCoinsViewCache) (o : COutPoint) : Framed v (v.spendCoin o).2 := by
  have ⟨v₁, fetched, _, eq⟩ := v.spendCoin_eq o
  rw [eq]
  cases v₁.entry o
  case none => exact .fetched fetched
  case some e => exact (Framed.fetched fetched).trans ⟨.refl _, fun _ => rfl, rfl⟩

theorem addCoin {o : COutPoint} {coin : Coin} {ow : Bool} (h : v.addCoin o coin ow = .ok v') : Framed v v' := by
  have ⟨_, h⟩ := addCoin_eq_ok.mp h
  split at h
  case isTrue => exact h ▸ .fetched (.refl v)
  case isFalse => exact h.right ▸ ⟨.refl _, fun _ => rfl, rfl⟩

end Framed

theorem Writes.framed {v v' : CCoinsViewCache} {ws : List CoinWrite} (h : Writes v ws v') : Framed v v' := by
  induction h
  case nil fetched => exact .fetched fetched
  case spend o fetched _ ih => exact (Framed.fetched fetched).trans ((Framed.spendCoin _ o).trans ih)
  case add fetched _ ok _ ih => exact (Framed.fetched fetched).trans ((Framed.addCoin ok).trans ih)

structure All (P : Coin → Prop) (v : CCoinsViewCache) : Prop where
  found : ∀ o c, v.utxo o = some c → P c
  below : ∀ o c, v.base.utxo o = some c → P c

namespace All

variable {P : Coin → Prop} {v v' : CCoinsViewCache} {o : COutPoint} {coin : Coin} {ws : List CoinWrite}

theorem fetched (h : All P v) (fetched : Fetched v v') : All P v' where
  found := fetched.utxo ▸ h.found
  below := fetched.base.utxo ▸ h.below

theorem spendCoin (h : All P v) (o : COutPoint) : All P (v.spendCoin o).2 where
  found o' c hc := by
    by_cases same : o' = o
    case neg =>
      rw [utxo_spendCoin_of_ne same] at hc
      exact h.found o' c hc
    case pos =>
      have ⟨v₁, fetched, _, eq⟩ := v.spendCoin_eq o
      have h₁ := h.fetched fetched
      rw [eq] at hc
      cases he : v₁.entry o <;> rw [he] at hc
      case none => exact h₁.found o' c hc
      case some e =>
        rw [Option.elim_some, utxo_eq, entry_spent, if_pos same] at hc
        split at hc
        case isTrue => exact h₁.below o' c hc
        case isFalse => cases hc
  below := (Framed.spendCoin v o).base.utxo ▸ h.below

theorem addCoin (h : All P v) {ow : Bool} (add : v.addCoin o coin ow = .ok v') (new : P coin) : All P v' where
  found o' c hc := by
    have ⟨unspent, eq⟩ := addCoin_eq_ok.mp add
    split at eq
    case isTrue => exact h.found o' c (eq ▸ hc)
    case isFalse =>
      rw [← eq.right, utxo_added, Coin.unspent_of_not_spent unspent, Function.update_apply] at hc
      split at hc
      case isTrue => exact Option.some.inj hc ▸ new
      case isFalse => exact h.found o' c hc
  below := (Framed.addCoin add).base.utxo ▸ h.below

theorem writes (h : All P v) (writes : Writes v ws v') (new : ∀ p ∈ ws.filterMap CoinWrite.added?, P p.2) :
    All P v' := by
  induction writes
  case nil fetched => exact h.fetched fetched
  case spend o fetched _ ih => exact ih ((h.fetched fetched).spendCoin o) new
  case add fetched _ add _ ih =>
    have ⟨first, rest⟩ := forall_mem_cons.mp new
    exact ih ((h.fetched fetched).addCoin add first) rest

end All

-- The flags are right, and an initially absent coin is not below the cache.
structure NoneBelow (u : Utxo) (v : CCoinsViewCache) : Prop where
  consistent : v.Consistent
  below : ∀ o, u o = none → v.entry o = none → v.base.utxo o = none

namespace NoneBelow

variable {u : Utxo} {v v' : CCoinsViewCache} {o : COutPoint} {coin : Coin}

omit [Crypto] in
theorem start (h : v.Consistent) : NoneBelow v.utxo v where
  consistent := h
  below _ absent uncached := by rw [← utxo_of_entry_none uncached, absent]

section

variable (h : NoneBelow u v)

include h

theorem fetched (fetched : Fetched v v') : NoneBelow u v' where
  consistent := fetched.consistent h.consistent
  below o absent uncached := by
    rw [fetched.base.utxo]
    refine h.below o absent ?_
    cases he : v.entry o
    case none => rfl
    case some e => rw [fetched.entry_of_some he] at uncached; cases uncached

theorem spendCoin (o : COutPoint) : NoneBelow u (v.spendCoin o).2 where
  consistent := (spendCoin_consistent h.consistent o).left
  below o' absent uncached := by
    have ⟨v₁, fetched, coin, eq⟩ := v.spendCoin_eq o
    have h₁ := h.fetched fetched
    rw [eq] at uncached ⊢
    cases he : v₁.entry o <;> simp only [he, Option.elim_none, Option.elim_some] at uncached ⊢
    case none => exact h₁.below o' absent uncached
    case some e =>
      rw [entry_spent] at uncached
      split at uncached
      case isFalse => exact h₁.below o' absent uncached
      case isTrue same =>
        -- Only a fresh entry goes, and no coin is below it.
        subst same
        cases fresh : e.fresh <;> rw [fresh] at uncached
        case false => cases uncached
        case true => exact (h₁.consistent.right o' e he).fresh fresh

omit [Crypto] in
theorem absent (new : u o = none) (spent : ((v.entry o).getD {}).coin.isSpent = true) :
    v.utxo o = none := by
  cases he : v.entry o
  case none => rw [utxo_of_entry_none he, h.below o new he]
  case some e =>
    rw [he] at spent
    rw [utxo_of_entry he]
    exact Coin.unspent_of_spent spent

omit [Crypto] in
theorem added (absent : v.utxo o = none) : NoneBelow u (v.added o coin false) where
  consistent := added_consistent h.consistent fun _ => absent
  below o' absent' uncached := by
    rw [entry_added] at uncached
    split at uncached
    case isTrue => cases uncached
    case isFalse => exact h.below o' absent' uncached

omit [Crypto] in
theorem addCoin (new : u o = none) (spendable : ¬coin.out.scriptPubKey.isUnspendable)
    (ok : v.addCoin o coin false = .ok v') :
    v.utxo o = none ∧ NoneBelow u v' ∧ v'.utxo = Function.update v.utxo o (some coin) := by
  have ⟨unspent, spent, eq⟩ := addCoin_new ok spendable
  have absent := h.absent new spent
  subst eq
  refine ⟨absent, h.added absent, ?_⟩
  rw [utxo_added, Coin.unspent_of_not_spent unspent]

end

end NoneBelow

namespace Writes

variable {u : Utxo} {v v' : CCoinsViewCache} {ws : List CoinWrite}

theorem noneBelow (h : Writes v ws v') (start : NoneBelow u v) (new : ∀ o coin, .add o coin ∈ ws → u o = none) :
    NoneBelow u v' ∧ v'.utxo = Journal.replay v.utxo (ws.map (·.written)) := by
  induction h
  case nil fetched => exact ⟨start.fetched fetched, fetched.utxo⟩
  case spend o fetched _ ih =>
    have start₁ := start.fetched fetched
    have ⟨stop, eq⟩ := ih (start₁.spendCoin o) fun o coin mem => new o coin (mem_cons_of_mem _ mem)
    refine ⟨stop, eq.trans ?_⟩
    rw [(spendCoin_consistent start₁.consistent o).right, fetched.utxo]
    rfl
  case add o coin fetched spendable ok _ ih =>
    have new₁ := new o coin (mem_cons_self ..)
    have ⟨_, start₂, eq₂⟩ := (start.fetched fetched).addCoin new₁ spendable ok
    have ⟨stop, eq⟩ := ih start₂ fun o coin mem => new o coin (mem_cons_of_mem _ mem)
    refine ⟨stop, eq.trans ?_⟩
    rw [eq₂, fetched.utxo]
    rfl

theorem adds_absent {outs : List (COutPoint × Coin)} (h : Writes v (outs.map fun p => .add p.1 p.2) v')
    (start : NoneBelow u v) (new : ∀ p ∈ outs, u p.1 = none) : ∀ p ∈ outs, v.utxo p.1 = none := by
  induction outs generalizing v
  case nil => nofun
  case cons p outs ih =>
    match h with
    | .add fetched spendable ok rest =>
      have ⟨absent, start₂, eq₂⟩ := (start.fetched fetched).addCoin (new p (mem_cons_self ..)) spendable ok
      have rest := ih rest start₂ fun q mem => new q (mem_cons_of_mem _ mem)
      rw [fetched.utxo] at absent eq₂
      intro q mem
      cases mem_cons.mp mem
      case inl eq => exact eq ▸ absent
      case inr mem =>
        have later := rest q mem
        rw [eq₂, Function.update_apply] at later
        split at later
        case isTrue => cases later
        case isFalse => exact later

end Writes

end CCoinsViewCache

end Qrax
