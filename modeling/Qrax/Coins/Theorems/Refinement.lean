import Qrax.Coins.Theorems.Operations

namespace Qrax

open CCoinsView

abbrev UnspentCoin := { c : Coin // c.isSpent = false }

-- The calls on a stack of caches. `uncache` and `flush` may reach below the top; `pop` flushes and drops the top.
inductive ViewOp
  | addCoin (o : COutPoint) (coin : UnspentCoin) (possibleOverwrite : Bool)
  | spendCoin (o : COutPoint)
  | getCoin (o : COutPoint)
  | haveCoin (o : COutPoint)
  | uncache (depth : ℕ) (o : COutPoint)
  | batchWrite (child : CoinsCache)
  | flush (depth : ℕ)
  | push
  | pop

namespace ViewOp

def apply : ViewOp → Utxo → Utxo
  | addCoin o coin _, u =>
    if coin.val.out.scriptPubKey.isUnspendable then u else Function.update u o (some coin)
  | spendCoin o, u => Function.update u o none
  | batchWrite child, u => u.write child.cacheCoins
  | _, u => u

end ViewOp

namespace CCoinsViewCache

def onLayer (f : CCoinsViewCache → Except Failure CCoinsViewCache) :
    ℕ → CCoinsViewCache → Except Failure CCoinsViewCache
  | 0, v => f v
  | depth + 1, v =>
    match v.base with
    | .cache c base => do
      let below ← onLayer f depth { cache := c, base }
      .ok { v with base := below.view }
    | _ => .ok v

variable [Crypto]

def step (v : CCoinsViewCache) : ViewOp → Except Failure CCoinsViewCache
  | .addCoin o coin possibleOverwrite => v.addCoin o coin possibleOverwrite
  | .spendCoin o => .ok (v.spendCoin o).2
  | .getCoin o => .ok (v.getCoin o).2
  | .haveCoin o => .ok (v.haveCoin o).2
  | .uncache depth o => v.onLayer (fun v => .ok (v.uncache o)) depth
  | .batchWrite child => v.batchWrite child
  | .flush depth => v.onLayer flush depth
  | .push => .ok { base := v.view }
  | .pop => do
    let v ← v.flush
    match v.base with
    | .cache c base => .ok { cache := c, base }
    | _ => .ok v

def run (v : CCoinsViewCache) : List ViewOp → Except Failure CCoinsViewCache
  | [] => .ok v
  | op :: ops => do
    let v ← v.step op
    v.run ops

-- What the caller owes: overwrites are announced, and a child marks an entry fresh only without an unspent coin here.
def Allowed (v : CCoinsViewCache) : ViewOp → Prop
  | .addCoin o _ false => (v.haveCoin o).1 = false
  | .batchWrite child => ∀ o e, child.cacheCoins.lookup o = some e →
      e.dirty = true → e.fresh = true → (v.haveCoin o).1 = false
  | _ => True

def AllowedRun (v : CCoinsViewCache) : List ViewOp → Prop
  | [] => True
  | op :: ops => v.Allowed op ∧ ∀ v', v.step op = .ok v' → v'.AllowedRun ops

end CCoinsViewCache

namespace CCoinsView

def layers : CCoinsView → ℕ
  | db _ => 0
  | memPool _ base => base.layers
  | cache _ base => base.layers + 1

variable [Crypto]

def drain : ℕ → CCoinsView → Except Failure CCoinsView
  | n + 1, cache c base => do
    let base ← base.batchWrite c
    drain n base
  | _, v => .ok v

def flushAll (v : CCoinsView) : Except Failure CCoinsView :=
  drain v.layers v

theorem batchWrite_layers {v v' : CCoinsView} {child : CoinsCache} (h : v.batchWrite child = .ok v') :
    v'.layers = v.layers := by
  induction v generalizing v'
  case db d =>
    cases h
    rfl
  case memPool pool base ih =>
    have ⟨base', h', eq⟩ := Fallible.bind_eq_ok.mp h
    cases eq
    have layers := ih h'
    exact layers
  case cache c base ih =>
    have ⟨c', _, eq⟩ := Fallible.bind_eq_ok.mp h
    cases eq
    rfl

theorem drain_ok {v : CCoinsView} {n : ℕ} (hn : v.layers = n) (consistent : v.Consistent)
    (layered : v.Layered) : ∃ d, v.drain n = .ok (db d) ∧ (db d).utxo = v.utxo := by
  induction n generalizing v
  case zero =>
    cases v
    case db d => exact ⟨d, rfl, rfl⟩
    case memPool => exact layered.elim
    case cache => cases hn
  case succ n ih =>
    cases v
    case db d => cases hn
    case memPool => exact layered.elim
    case cache c base =>
      have ⟨base', h, consistent', layered', same⟩ := flush_ok consistent layered
      have layers : base'.layers = n := (batchWrite_layers h).trans (Nat.succ.inj hn)
      have ⟨d, hd, same'⟩ := ih layers consistent' layered'
      refine ⟨d, ?_, same'.trans same⟩
      rw [drain, h]
      exact hd

end CCoinsView

namespace CCoinsViewCache

def Rearranges (f : CCoinsViewCache → Except Failure CCoinsViewCache) : Prop :=
  ∀ ⦃v⦄, v.Consistent → v.view.Layered →
    ∃ v', f v = .ok v' ∧ v'.Consistent ∧ v'.view.Layered ∧ v'.utxo = v.utxo

theorem Rearranges.onLayer {f : CCoinsViewCache → Except Failure CCoinsViewCache}
    (hf : Rearranges f) (depth : ℕ) : Rearranges (onLayer f depth) := by
  induction depth
  case zero => exact hf
  case succ depth ih =>
    intro v consistent layered
    have ⟨cache, base⟩ := v
    cases base
    case db d => exact ⟨_, rfl, consistent, layered, rfl⟩
    case memPool => exact layered.elim
    case cache c base =>
      have ⟨w, h, consistent', layered', same⟩ := @ih { cache := c, base } consistent.left layered
      refine ⟨{ cache, base := w.view }, by simp only [CCoinsViewCache.onLayer, h]; rfl, ?_, layered', ?_⟩
      · refine ⟨consistent', fun o e he => ?_⟩
        change e.Agrees (w.utxo o)
        rw [same]
        exact consistent.right o e he
      · funext o
        rw [utxo_eq, utxo_eq]
        exact congrArg _ (congrFun same o)

theorem uncache_rearranges (o : COutPoint) : Rearranges fun v => .ok (v.uncache o) := by
  intro v consistent layered
  refine ⟨_, rfl, ?_⟩
  simp only [uncache, CoinsCache.uncache]
  split
  case h_2 => exact ⟨consistent, layered, rfl⟩
  case h_1 coin he =>
    -- An entry without flags repeats the parent's answer.
    have agrees := consistent.right o _ he
    refine ⟨⟨consistent.left, fun o' e he' => ?_⟩, layered, ?_⟩
    · rw [KeyedUpdate.lookup_erase] at he'
      split at he'
      case isTrue => cases he'
      case isFalse => exact consistent.right o' e he'
    · funext o'
      rw [utxo_eq, utxo_eq]
      simp only [entry, KeyedUpdate.lookup_erase]
      split
      case isFalse => rfl
      case isTrue eq =>
        subst eq
        rw [he]
        exact agrees.clean rfl

variable [Crypto]

theorem flush_rearranges : Rearranges flush := by
  intro v consistent layered
  have ⟨base', h, consistent', layered', same⟩ := flush_ok consistent layered
  refine ⟨{ cache := v.cache.clear, base := base' }, by rw [flush, h]; rfl, ?_, layered', ?_⟩
  · exact clear_consistent v.cache consistent'
  · exact (clear_utxo v.cache base').trans same

theorem Fetched.rearranges {v v' : CCoinsViewCache} (h : Fetched v v') (consistent : v.Consistent)
    (layered : v.view.Layered) : v'.Consistent ∧ v'.view.Layered ∧ v'.utxo = v.utxo :=
  ⟨h.consistent consistent, h.same.layered layered, h.utxo⟩

variable {v : CCoinsViewCache}

theorem haveCoin_eq_false {o : COutPoint} (h : (v.haveCoin o).1 = false) :
    v.utxo o = none := by
  have ⟨_, eq, _⟩ := v.haveCoin_eq o
  rw [eq] at h
  exact Option.isNone_iff_eq_none.mp (Option.isSome_eq_false_iff.mp h)

omit [Crypto] in
theorem addCoin_step (o : COutPoint) (coin : UnspentCoin) (ow : Bool)
    (consistent : v.Consistent) (ho : ow = false → v.utxo o = none) :
    ∃ v', v.addCoin o coin ow = .ok v' ∧ v'.Consistent ∧ v'.base = v.base ∧
      v'.utxo = (ViewOp.addCoin o coin ow).apply v.utxo := by
  by_cases hu : coin.val.out.scriptPubKey.isUnspendable
  case pos =>
    refine ⟨v, addCoin_eq_ok.mpr ⟨coin.property, by rw [if_pos hu]⟩, consistent, rfl, ?_⟩
    exact (if_pos hu).symm
  case neg =>
    have allowed : ow = true ∨ ((v.entry o).getD {}).coin.isSpent = true := by
      cases ow
      case true => exact .inl rfl
      case false =>
        cases he : v.entry o
        case none => exact .inr rfl
        case some e => exact .inr (Coin.unspent_eq_none.mp (utxo_of_entry he ▸ ho rfl))
    refine ⟨v.added o coin ow, ?_, added_consistent consistent ho, rfl, ?_⟩
    · exact addCoin_eq_ok.mpr ⟨coin.property, by rw [if_neg hu]; exact ⟨allowed, rfl⟩⟩
    · rw [utxo_added, ViewOp.apply, if_neg hu, Coin.unspent_of_not_spent coin.property]

theorem step_ok {op : ViewOp} (consistent : v.Consistent)
    (layered : v.view.Layered) (allowed : v.Allowed op) :
    ∃ v', v.step op = .ok v' ∧ v'.Consistent ∧ v'.view.Layered ∧ v'.utxo = op.apply v.utxo := by
  cases op
  case addCoin o coin ow =>
    have ⟨v', h, consistent', base, utxo⟩ := addCoin_step o coin ow consistent fun how =>
      haveCoin_eq_false (by subst how; exact allowed)
    refine ⟨v', h, consistent', ?_, utxo⟩
    change v'.base.Layered
    exact base ▸ layered
  case spendCoin o =>
    have ⟨consistent', utxo⟩ := spendCoin_consistent consistent o
    refine ⟨_, rfl, consistent', ?_, utxo⟩
    have ⟨v₁, fetched, _, eq⟩ := v.spendCoin_eq o
    rw [eq]
    cases v₁.entry o <;> exact fetched.base.layered layered
  case getCoin o =>
    have ⟨v', h, fetched⟩ := v.getCoin_eq o
    exact ⟨v', by rw [step, h], fetched.rearranges consistent layered⟩
  case haveCoin o =>
    have ⟨v', h, fetched⟩ := v.haveCoin_eq o
    exact ⟨v', by rw [step, h], fetched.rearranges consistent layered⟩
  case uncache depth o => exact (uncache_rearranges o).onLayer depth consistent layered
  case flush depth => exact flush_rearranges.onLayer depth consistent layered
  case batchWrite child =>
    have ⟨w, h, consistent', layered', utxo⟩ := batchWrite_ok consistent layered
      fun o e he dirty fresh => haveCoin_eq_false (allowed o e he dirty fresh)
    have ⟨c', h', eq⟩ := Fallible.bind_eq_ok.mp h
    cases eq
    exact ⟨{ v with cache := c' }, by rw [step, batchWrite, h']; rfl, consistent', layered', utxo⟩
  case push =>
    refine ⟨_, rfl, ⟨consistent, nofun⟩, layered, ?_⟩
    funext o
    rw [utxo_eq]
    rfl
  case pop =>
    have ⟨base', h, consistent', layered', same⟩ := flush_ok consistent layered
    have flushed : v.flush = .ok { cache := v.cache.clear, base := base' } := by
      rw [flush, h]
      rfl
    cases base'
    case memPool => exact layered'.elim
    case cache c base =>
      exact ⟨{ cache := c, base }, by rw [step, flushed]; rfl, consistent', layered', same⟩
    case db d =>
      refine ⟨{ cache := v.cache.clear, base := .db d }, by rw [step, flushed]; rfl, ?_, trivial, ?_⟩
      · exact clear_consistent v.cache trivial
      · exact (clear_utxo v.cache _).trans same

theorem run_ok {ops : List ViewOp} (consistent : v.Consistent)
    (layered : v.view.Layered) (allowed : v.AllowedRun ops) :
    ∃ v', v.run ops = .ok v' ∧ v'.Consistent ∧ v'.view.Layered ∧
      v'.utxo = ops.foldl (fun u op => op.apply u) v.utxo := by
  induction ops generalizing v
  case nil => exact ⟨v, rfl, consistent, layered, rfl⟩
  case cons op ops ih =>
    have ⟨v₁, h₁, consistent₁, layered₁, utxo₁⟩ := step_ok consistent layered allowed.left
    have ⟨v', h', consistent', layered', utxo'⟩ := ih consistent₁ layered₁ (allowed.right v₁ h₁)
    refine ⟨v', ?_, consistent', layered', ?_⟩
    · rw [run, h₁]
      exact h'
    · rw [utxo', utxo₁]
      rfl

-- A stack of caches stands for the coins: no call throws, the top answers like the coins, all flags are right, and the
-- coins end up in the database.
theorem run_refines_utxo (d : CCoinsViewDB) (ops : List ViewOp)
    (allowed : AllowedRun { base := .db d } ops) :
    ∃ v, run { base := .db d } ops = .ok v ∧
      (∀ o, (v.getCoin o).1.bind Coin.unspent =
        ops.foldl (fun u op => op.apply u) (CCoinsView.db d).utxo o) ∧
      (∀ o, (v.haveCoin o).1 =
        (ops.foldl (fun u op => op.apply u) (CCoinsView.db d).utxo o).isSome) ∧
      v.Consistent ∧
      ∃ d', v.view.flushAll = .ok (.db d') ∧
        (CCoinsView.db d').utxo = ops.foldl (fun u op => op.apply u) (CCoinsView.db d).utxo := by
  have initial : Consistent { base := .db d } := ⟨trivial, nofun⟩
  have ⟨v, h, consistent, layered, utxo⟩ := run_ok initial trivial allowed
  have start : CCoinsViewCache.utxo { base := .db d } = (CCoinsView.db d).utxo := by
    funext o
    rw [utxo_eq]
    rfl
  rw [start] at utxo
  refine ⟨v, h, fun o => ?get, fun o => ?has, consistent, ?flush⟩
  case get =>
    have ⟨_, eq, _⟩ := v.getCoin_eq o
    rw [eq, ← utxo]
    rfl
  case has =>
    have ⟨_, eq, _⟩ := v.haveCoin_eq o
    rw [eq, ← utxo]
  case flush =>
    rw [← utxo]
    exact CCoinsView.drain_ok rfl consistent layered

omit [Crypto] in
theorem run_refines_utxo_respent :
    let _crypto := Crypto.toy
    let o : COutPoint := { hash := 7, n := 0 }
    let coin : UnspentCoin := ⟨{ out := { nValue := 5, scriptPubKey := [] }, nHeight := 1 }, rfl⟩
    let ops : List ViewOp :=
      [.addCoin o coin false, .push, .spendCoin o, .flush 1, .addCoin o coin true, .uncache 0 o, .pop]
    AllowedRun { base := .db {} } ops ∧
      ∃ v, run { base := .db {} } ops = .ok v ∧ (v.haveCoin o).1 = true := by
  intro _crypto o coin ops
  have allowed : AllowedRun { base := .db {} } ops := by
    refine ⟨rfl, fun _ h => ?_⟩
    cases h
    refine ⟨trivial, fun _ h => ?_⟩
    cases h
    refine ⟨trivial, fun _ h => ?_⟩
    cases h
    refine ⟨trivial, fun _ h => ?_⟩
    cases h
    refine ⟨trivial, fun _ h => ?_⟩
    cases h
    refine ⟨trivial, fun _ h => ?_⟩
    cases h
    exact ⟨trivial, fun _ _ => trivial⟩
  have ⟨v, h, _, has, _⟩ := run_refines_utxo {} ops allowed
  refine ⟨allowed, v, h, ?_⟩
  rw [has]
  rfl

end CCoinsViewCache

end Qrax
