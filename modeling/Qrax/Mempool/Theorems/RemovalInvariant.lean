import Qrax.Mempool.Theorems.Links

open KeyedUpdate List

namespace Qrax.TxMemPool

variable [Crypto]

-- What is kept when entries are removed with all their descendants.
structure RemovalInvariant (Inv : TxMemPool → Prop) : Prop where
  linked : ∀ {pool}, Inv pool → pool.Linked
  removeClosed : ∀ {pool s}, Inv pool → pool.Closed s → Inv (pool.removeStaged s false)
  clearPrioritisation : ∀ {pool hash}, Inv pool → Inv (pool.clearPrioritisation hash)

theorem mem_spendersOf {pool : TxMemPool} {tx : CTransaction} {h : Uint256} (mem : h ∈ pool.spendersOf tx) :
    h ∈ pool.mapTx := by
  have ⟨i, _, spender⟩ := mem_filterMap.mp mem
  have ⟨tx', _, spender⟩ := Option.bind_eq_some_iff.mp spender
  split at spender
  case isTrue present => exact Option.some.inj spender ▸ present
  case isFalse => cases spender

namespace RemovalInvariant

variable {Inv : TxMemPool → Prop} (keeps : RemovalInvariant Inv) {pool : TxMemPool}

include keeps

section

variable (inv : Inv pool)

include inv

theorem removeAll {its : List Uint256} (mem : ∀ h ∈ its, h ∈ pool.mapTx) :
    Inv (pool.removeStaged (pool.calculateAllDescendants its) false) :=
  keeps.removeClosed inv ((keeps.linked inv).closed_calculateAllDescendants mem)

theorem removeRecursive (tx : CTransaction) : Inv (pool.removeRecursive tx) := by
  refine keeps.removeAll inv fun h mem => ?_
  rw [UniqueList.mem_toList, UniqueList.mem_ofList] at mem
  split at mem
  case isFalse => exact mem_spendersOf mem
  case isTrue present =>
    rw [mem_singleton.mp mem]
    exact present

theorem removeForReorg (accessCoin : COutPoint → Coin) (checkFinalTx : CTransaction → Bool)
    (nMemPoolHeight nCoinbaseMaturity : ℕ) :
    Inv (pool.removeForReorg accessCoin checkFinalTx nMemPoolHeight nCoinbaseMaturity) :=
  keeps.removeAll inv fun _ mem => IndexedTransactionSet.mem_keys.mp (mem_of_mem_filter mem)

theorem removeWithAnchor (invalidRoot : Uint256) : Inv (pool.removeWithAnchor invalidRoot) :=
  foldlRecOn _ _ inv fun _ inv tx _ => keeps.removeRecursive inv tx

theorem removeConflict (tx : CTransaction) (txConflict : Option CTransaction) :
    Inv (pool.removeConflict tx txConflict) := by
  cases txConflict
  case none => exact inv
  case some txConflict =>
    rw [TxMemPool.removeConflict]
    split
    case isTrue => exact inv
    case isFalse => exact keeps.clearPrioritisation (keeps.removeRecursive inv txConflict)

theorem removeConflicts (tx : CTransaction) : Inv (pool.removeConflicts tx) := by
  have inputs : Inv (tx.vin.foldl (fun pool txin => pool.removeConflict tx (pool.mapNextTx.lookup txin.prevout)) pool) :=
    foldlRecOn _ _ inv fun _ inv _ _ => keeps.removeConflict inv tx _
  unfold TxMemPool.removeConflicts
  split
  case isFalse => exact inputs
  case isTrue => exact foldlRecOn _ _ inputs fun _ inv _ _ => keeps.removeConflict inv tx _

end

theorem removeForBlock (confirmed : ∀ {pool tx}, Inv pool → CTransaction.getHash tx ∈ pool.mapTx →
    Inv (pool.removeStaged (UniqueList.insert ∅ tx.getHash) true)) (inv : Inv pool) (vtx : List CTransaction) :
    Inv (pool.removeForBlock vtx) := by
  refine foldlRecOn vtx _ inv fun pool inv tx _ => ?_
  unfold removeForBlockTx
  dsimp only
  split
  case isTrue mem => exact keeps.clearPrioritisation (keeps.removeConflicts (confirmed inv mem) tx)
  case isFalse => exact keeps.clearPrioritisation (keeps.removeConflicts inv tx)

theorem expire (inv : Inv pool) (time : ℤ) : Inv (pool.expire time) :=
  keeps.removeAll inv fun _ mem => IndexedTransactionSet.mem_keys.mp (mem_of_mem_filter mem)

theorem trimToSize (inv : Inv pool) (eviction : Eviction) (sizelimit : ℕ) : Inv (pool.trimToSize eviction sizelimit) := by
  unfold TxMemPool.trimToSize
  generalize pool.mapTx.keys.length = fuel
  induction fuel generalizing pool
  case zero => exact inv
  case succ fuel ih =>
    unfold trimRounds
    split
    case isFalse => exact inv
    case isTrue =>
      split
      case h_2 => exact inv
      case h_1 it lowest =>
        have mem : ∀ h ∈ [it], h ∈ pool.mapTx := by
          simpa using eviction.lowestScore_mem lowest
        exact ih (keeps.removeAll inv mem)

theorem limitMempoolSize (inv : Inv pool) (eviction : Eviction) (sizelimit : ℕ) (time : ℤ) :
    Inv (pool.limitMempoolSize eviction sizelimit time) :=
  keeps.trimToSize (keeps.expire inv time) eviction sizelimit

end RemovalInvariant

end Qrax.TxMemPool
