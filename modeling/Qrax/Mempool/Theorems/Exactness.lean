import Qrax.Mempool.Theorems.Addition
import Qrax.Mempool.Theorems.RemovalInvariant

open KeyedUpdate Relation Ancestry

namespace Qrax

open IndexedTransactionSet

inductive PoolCall [Crypto]
  | addUnchecked (tx : CTransaction) (nFee : CAmount) (nTime : ℤ) (spendsCoinbaseOrCoinstake : Bool) (sigOps : UInt32)
      (limits : AncestorLimits)
  | removeRecursive (tx : CTransaction)
  | removeForBlock (vtx : List CTransaction)
  | removeConflicts (tx : CTransaction)
  | expire (time : ℤ)
  | trimToSize (eviction : Eviction) (sizelimit : ℕ)

namespace PoolCall

variable [Crypto]

-- A transaction enters with the ancestors of `CalculateMemPoolAncestors`, if within the limits.
def run (pool : TxMemPool) : PoolCall → TxMemPool
  | addUnchecked tx nFee nTime spends sigOps limits =>
    let e := CTxMemPoolEntry.new tx nFee nTime spends sigOps
    match pool.calculateMemPoolAncestors limits e true with
    | some setAncestors => pool.addUnchecked tx.getHash e setAncestors
    | none => pool
  | removeRecursive tx => pool.removeRecursive tx
  | removeForBlock vtx => pool.removeForBlock vtx
  | removeConflicts tx => pool.removeConflicts tx
  | expire time => pool.expire time
  | trimToSize eviction sizelimit => pool.trimToSize eviction sizelimit

def unspent (pool : TxMemPool) : PoolCall → Bool
  | addUnchecked tx .. => pool.mapTx.keys.all fun it => tx.getHash ∉ (pool.entry it).parentHashes
  | _ => true

def parentsFirst (pool : TxMemPool) : List CTransaction → List Uint256 → Bool
  | [], _ => true
  | tx :: vtx, before =>
    (tx.getHash ∉ pool.mapTx ||
      (pool.entry tx.getHash).parentHashes.all fun p => p ∉ pool.mapTx || p = tx.getHash || p ∈ before) &&
      parentsFirst pool vtx (tx.getHash :: before)

def proper (pool : TxMemPool) : PoolCall → Bool
  | addUnchecked tx .. => tx.getHash ∉ pool.mapTx
  | removeForBlock vtx => parentsFirst pool vtx []
  | _ => true

end PoolCall

section

variable [Crypto]

inductive TxMemPool.Reached (admits : TxMemPool → PoolCall → Prop) : TxMemPool → Prop
  | empty (mapDeltas : AList fun _ : Uint256 => CAmount) : Reached admits { mapDeltas := mapDeltas }
  | call {pool : TxMemPool} (call : PoolCall) : Reached admits pool → admits pool call → Reached admits (call.run pool)

end

namespace TxMemPool

variable [Crypto] {pool pool' : TxMemPool} {h : Uint256} {tx : CTransaction}

theorem Reached.mono {admits admits' : TxMemPool → PoolCall → Prop} (weaker : ∀ pool call, admits pool call → admits' pool call)
    (reached : Reached admits pool) : Reached admits' pool := by
  induction reached
  case empty mapDeltas => exact .empty mapDeltas
  case call call _ admitted from' => exact .call call from' (weaker _ _ admitted)

theorem exact_empty (mapDeltas : AList fun _ : Uint256 => CAmount) :
    ({ mapDeltas := mapDeltas } : TxMemPool).Exact where
  toLinked := linked_of_empty rfl rfl
  spends p _ := ⟨fun link => absurd link (UniqueList.notMem_empty p), fun ⟨mem, _⟩ => nomatch mem⟩
  ancestors _ _ found := nomatch found
  descendants _ _ found := nomatch found

def Keeps (pool pool' : TxMemPool) : Prop :=
  pool'.Exact ∧ Shrinks pool pool'

theorem Exact.keeps (exact : pool.Exact) : Keeps pool pool :=
  ⟨exact, .refl pool⟩

theorem removalInvariant_keeps (pool : TxMemPool) : RemovalInvariant (Keeps pool) where
  linked kept := kept.left.toLinked
  removeClosed := fun ⟨exact, shrinks⟩ closed => by
    have removed := exact.toLinked.removeStaged fun r mem => (closed r mem).left
    exact ⟨exact.removeClosed closed removed, shrinks.trans ⟨_, removed.leaves⟩⟩
  clearPrioritisation := fun ⟨exact, shrinks⟩ => ⟨exact.congr rfl rfl, shrinks⟩

theorem not_spent {call : PoolCall} (unspent : call.unspent pool) {nFee : CAmount} {nTime : ℤ} {spends : Bool} {sigOps : UInt32}
    {limits : AncestorLimits} (eq : call = .addUnchecked tx nFee nTime spends sigOps limits) (x : Uint256) (e : CTxMemPoolEntry)
    (found : pool.mapTx.find x = some e) : tx.getHash ∉ e.parentHashes := by
  subst eq
  rw [PoolCall.unspent, List.all_eq_true] at unspent
  have := unspent x (IndexedTransactionSet.mem_keys.mpr (mem_iff.mpr ⟨e, found⟩))
  simpa [entry_of_find found] using this

def ParentsFirst (pool : TxMemPool) : List CTransaction → List Uint256 → Prop
  | [], _ => True
  | tx :: vtx, before =>
    (∀ p, pool.Spends p tx.getHash → p = tx.getHash ∨ p ∈ before) ∧ ParentsFirst pool vtx (tx.getHash :: before)

variable {vtx : List CTransaction} {before : List Uint256}

theorem parentsFirst_of (order : PoolCall.parentsFirst pool vtx before) :
    pool.ParentsFirst vtx before := by
  induction vtx generalizing before
  case nil => trivial
  case cons tx vtx ih =>
    rw [PoolCall.parentsFirst, Bool.and_eq_true] at order
    refine ⟨fun p ⟨mem, e, found, parent⟩ => ?_, ih order.right⟩
    have present : tx.getHash ∈ pool.mapTx := mem_iff.mpr ⟨e, found⟩
    have all : ∀ p ∈ e.parentHashes, p ∉ pool.mapTx ∨ p = tx.getHash ∨ p ∈ before := by
      simpa [present, entry_of_find found, or_assoc] using order.left
    exact (all p parent).resolve_left (not_not_intro mem)

theorem ParentsFirst.shrink
    (order : pool.ParentsFirst vtx before) (shrinks : Shrinks pool pool') : pool'.ParentsFirst vtx before := by
  induction vtx generalizing before
  case nil => trivial
  case cons tx vtx ih => exact ⟨fun p spends => order.left p (shrinks.spends spends), ih order.right⟩

theorem Exact.removeForBlockTx (exact : pool.Exact) (tx : CTransaction) (top : ∀ p, pool.Spends p tx.getHash → p = tx.getHash) :
    Keeps pool (pool.removeForBlockTx tx) ∧ tx.getHash ∉ (pool.removeForBlockTx tx).mapTx := by
  have later {pool : TxMemPool} (exact : pool.Exact) :
      Keeps pool ((pool.removeConflicts tx).clearPrioritisation tx.getHash) :=
    (removalInvariant_keeps pool).clearPrioritisation ((removalInvariant_keeps pool).removeConflicts exact.keeps tx)
  unfold TxMemPool.removeForBlockTx
  dsimp only
  split
  case isFalse absent =>
    have kept := later exact
    exact ⟨kept, fun mem => absent (kept.right.mem mem)⟩
  case isTrue present =>
    have ⟨exact', leaves⟩ := exact.removeConfirmed present top
    have ⟨exact'', shrinks⟩ := later exact'
    refine ⟨⟨exact'', .trans ⟨_, leaves⟩ shrinks⟩, fun mem => ?_⟩
    exact (leaves.mem.mp (shrinks.mem mem)).left (Finset.mem_singleton_self _)

theorem Exact.removeForBlock (exact : pool.Exact)
    (order : pool.ParentsFirst vtx before) (gone : ∀ p ∈ before, p ∉ pool.mapTx) :
    (pool.removeForBlock vtx).Exact := by
  induction vtx generalizing pool before
  case nil => exact exact
  case cons tx vtx ih =>
    have top (p : Uint256) (spends : pool.Spends p tx.getHash) : p = tx.getHash :=
      (order.left p spends).resolve_right fun mem => gone p mem spends.left
    have ⟨kept, absent⟩ := exact.removeForBlockTx tx top
    refine ih kept.left (order.right.shrink kept.right) fun p mem present => ?_
    obtain rfl | mem := List.mem_cons.mp mem
    case inl => exact absent present
    case inr => exact gone p mem (kept.right.mem present)

theorem Exact.run (exact : pool.Exact) (call : PoolCall) (admitted : call.unspent pool ∧ call.proper pool) :
    (call.run pool).Exact := by
  have ⟨unspent, proper⟩ := admitted
  have invariant := removalInvariant_keeps pool
  cases call
  case removeRecursive tx => exact (invariant.removeRecursive exact.keeps tx).left
  case removeForBlock vtx =>
    exact exact.removeForBlock (parentsFirst_of proper) fun p mem => absurd mem List.not_mem_nil
  case removeConflicts tx => exact (invariant.removeConflicts exact.keeps tx).left
  case expire time => exact (invariant.expire exact.keeps time).left
  case trimToSize eviction sizelimit => exact (invariant.trimToSize exact.keeps eviction sizelimit).left
  case addUnchecked tx nFee nTime spends sigOps limits =>
    rw [PoolCall.run]
    split
    case h_2 => exact exact
    case h_1 setAncestors searched =>
      exact exact.addUnchecked tx.getHash (CTxMemPoolEntry.alone_new ..) (of_decide_eq_true proper)
        (not_spent unspent rfl) searched

theorem exact_of_reached (reached : Reached (fun pool call => call.unspent pool ∧ call.proper pool) pool) :
    pool.Exact := by
  induction reached
  case empty mapDeltas => exact exact_empty mapDeltas
  case call call _ admitted exact => exact exact.run call admitted

theorem Exact.ancestorState_entry (exact : pool.Exact) (mem : h ∈ pool.mapTx) (acyclic : h ∉ pool.ancestorsOf h) :
    (pool.entry h).ancestorState =
      pool.ancestorWeight h + ((pool.ancestorsOf h).toList.map pool.ancestorWeight).sum := by
  classical
  have ⟨e, found⟩ := mem_iff.mp mem
  have walked := exact.within.mem_ancestorsOf mem
  have above : pool.keys.filter (ReflTransGen pool.Spends · h) = insert h (pool.ancestorsOf h).toFinset := by
    ext a
    rw [Finset.mem_filter, ← exact.parent_eq, Finset.mem_insert, UniqueList.mem_toFinset, walked,
      reflTransGen_iff_eq_or_transGen, eq_comm, mem_keys, and_iff_right_iff_imp]
    rintro (rfl | path)
    case inl => exact mem
    case inr =>
      have ⟨_, link, _⟩ := TransGen.head'_iff.mp path
      exact (exact.within _ _ link).left
  rw [entry, found, Option.getD_some, exact.ancestors h e found, upTotal, above,
    Finset.sum_insert (by simpa using acyclic), UniqueList.sum_toList]

-- What stays spends only what stays, so that the new pool decides on each transaction as the old one did.
theorem Exact.removeForReorg_settles (exact : pool.Exact) (accessCoin : COutPoint → Coin)
    (checkFinalTx : CTransaction → Bool) (nMemPoolHeight nCoinbaseMaturity : ℕ) :
    let pool' := pool.removeForReorg accessCoin checkFinalTx nMemPoolHeight nCoinbaseMaturity
    pool'.Exact ∧ ∀ h e, pool'.mapTx.find h = some e → checkFinalTx e.tx ∧
      (e.spendsCoinbaseOrCoinstake → ¬pool'.spendsImmature accessCoin nMemPoolHeight nCoinbaseMaturity e.tx) := by
  refine ⟨((removalInvariant_keeps pool).removeForReorg exact.keeps ..).left, fun h e found => ?_⟩
  unfold removeForReorg at found ⊢
  dsimp only at found ⊢
  generalize eq : pool.mapTx.keys.filter _ = its at found ⊢
  have within (h : Uint256) (mem : h ∈ its) : h ∈ pool.mapTx :=
    IndexedTransactionSet.mem_keys.mp (List.mem_of_mem_filter (eq ▸ mem))
  have ⟨closed, reaches⟩ := exact.toLinked.foldl_calculateDescendants within closed_empty
  have removed := exact.toLinked.removeStaged fun r mem => (closed r mem).left
  obtain ⟨stays, e, present, rfl⟩ := removed.found found
  have kept : h ∉ its := fun mem => stays ((reaches h).mpr (.inr ⟨h, mem, .refl⟩))
  have mem := mem_iff.mpr ⟨e, present⟩
  simp only [← eq, List.mem_filter, IndexedTransactionSet.mem_keys, mem, true_and, entry_of_find present,
    Bool.or_eq_true, Bool.not_eq_true', Bool.and_eq_true, not_or, Bool.not_eq_false, not_and] at kept
  refine ⟨kept.left, fun flag immature => ?_⟩
  have ⟨txin, input, lost⟩ := List.any_eq_true.mp immature
  rw [Bool.and_eq_true, decide_eq_true_eq] at lost
  by_cases parent : txin.prevout.hash ∈ pool.mapTx
  case pos =>
    have gone := not_not.mp fun out => lost.left (removed.leaves.mem.mpr ⟨mt UniqueList.mem_toFinset.mp out, parent⟩)
    have spends : pool.Spends txin.prevout.hash h := ⟨parent, e, present, List.mem_map_of_mem input⟩
    exact stays ((closed _ gone).right h ((exact.spends ..).mpr spends))
  case neg =>
    refine kept.right flag (List.any_eq_true.mpr ⟨txin, input, ?_⟩)
    rw [Bool.and_eq_true, decide_eq_true_eq]
    exact ⟨parent, lost.right⟩

end TxMemPool

section

attribute [local instance] Crypto.toy

open TxMemPool

def grandparentTx : CTransaction where
  vin := [{ prevout := ⟨5, 0⟩ }]
  vout := [{ nValue := 3 }]

def parentTx : CTransaction where
  vin := [{ prevout := ⟨grandparentTx.getHash, 0⟩ }]
  vout := [{ nValue := 2 }]

def childTx : CTransaction where
  vin := [{ prevout := ⟨parentTx.getHash, 0⟩ }]
  vout := [{ nValue := 1 }]

def addTx (tx : CTransaction) : PoolCall :=
  .addUnchecked tx 1 0 false 0 nNoLimit

def chainPool : TxMemPool :=
  [addTx grandparentTx, addTx parentTx, addTx childTx].foldl PoolCall.run {}

theorem reached_chainPool : Reached (fun pool call => call.unspent pool ∧ call.proper pool) chainPool :=
  .call (addTx childTx) (.call (addTx parentTx) (.call (addTx grandparentTx) (.empty ∅) (by decide))
    (by decide)) (by decide)

theorem exact_chainPool : chainPool.Exact :=
  (((exact_empty ∅).run (addTx grandparentTx) (by decide)).run (addTx parentTx)
    (by decide)).run (addTx childTx) (by decide)

theorem exact_of_reached_block :
    Reached (fun pool call => call.unspent pool ∧ call.proper pool) (chainPool.removeForBlock [grandparentTx, parentTx]) ∧
      (chainPool.removeForBlock [grandparentTx, parentTx]).Exact :=
  have reached := .call (.removeForBlock [grandparentTx, parentTx]) reached_chainPool (by decide)
  ⟨reached, exact_of_reached reached⟩

theorem removeForReorg_settles_chain :
    let pool' := chainPool.removeForReorg (fun _ => {}) (· != parentTx) 9 1
    pool'.mapTx.keys = [grandparentTx.getHash] ∧ pool'.Exact ∧ ∀ h e, pool'.mapTx.find h = some e → e.tx != parentTx :=
  have ⟨exact, settled⟩ := exact_chainPool.removeForReorg_settles (fun _ => {}) (· != parentTx) 9 1
  ⟨by decide, exact, fun h e found => (settled h e found).left⟩

-- A block takes the middle one, and the last still counts the first. A transaction enters twice, and counts its parent
-- twice.
theorem exact_fails :
    (Reached (fun pool call => call.unspent pool) (chainPool.removeForBlock [parentTx]) ∧
      ¬(chainPool.removeForBlock [parentTx]).Exact) ∧
    (Reached (fun pool call => call.unspent pool) ((addTx childTx).run chainPool) ∧
      ¬((addTx childTx).run chainPool).Exact) := by
  have reached := reached_chainPool.mono fun _ _ admitted => admitted.left
  refine ⟨⟨.call (.removeForBlock [parentTx]) reached rfl, fun exact => ?_⟩,
    .call (addTx childTx) reached (by decide), fun exact => ?_⟩
  case refine_1 =>
    have total := exact.ancestorState_entry (h := childTx.getHash) (by decide) (by decide)
    exact absurd total (by decide)
  case refine_2 =>
    have total := exact.ancestorState_entry (h := childTx.getHash) (by decide) (by decide)
    exact absurd total (by decide)

end

end Qrax
