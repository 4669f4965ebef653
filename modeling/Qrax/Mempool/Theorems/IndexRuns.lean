import Qrax.Mempool.Theorems.Belonging

open KeyedUpdate

namespace Qrax

-- The calls that change the pool. A transaction enters with the indexes of the node.
inductive IndexedCall [Crypto]
  | add (tx : CTransaction) (nFee : CAmount) (nTime : ℤ) (spendsCoinbaseOrCoinstake : Bool) (sigOps : UInt32)
      (limits : AncestorLimits) (newP2CSRules : Bool) (accessCoin : COutPoint → Coin) (fAddressIndex fSpentIndex : Bool)
  | removeRecursive (tx : CTransaction)
  | removeForReorg (accessCoin : COutPoint → Coin) (checkFinalTx : CTransaction → Bool) (nMemPoolHeight nCoinbaseMaturity : ℕ)
  | removeWithAnchor (invalidRoot : Uint256)
  | removeConflicts (tx : CTransaction)
  | removeForBlock (vtx : List CTransaction)
  | expire (time : ℤ)
  | trimToSize (eviction : Eviction) (sizelimit : ℕ)
  | clear
  | prioritiseTransaction (hash : Uint256) (nFeeDelta : CAmount)
  | clearPrioritisation (hash : Uint256)
  | updateTransactionsFromBlock (vHashesToUpdate : List Uint256)

namespace IndexedCall

variable [Crypto]

def run (pool : TxMemPool) : IndexedCall → TxMemPool
  | add tx nFee nTime spends sigOps limits newP2CSRules accessCoin fAddressIndex fSpentIndex =>
    let e := CTxMemPoolEntry.new tx nFee nTime spends sigOps
    match pool.calculateMemPoolAncestors limits e true with
    | none => pool
    | some setAncestors =>
      let pool := pool.addUnchecked tx.getHash e setAncestors
      let pool := if fAddressIndex then pool.addAddressIndex newP2CSRules e accessCoin else pool
      if fSpentIndex then pool.addSpentIndex newP2CSRules e accessCoin else pool
  | removeRecursive tx => pool.removeRecursive tx
  | removeForReorg accessCoin checkFinalTx h m => pool.removeForReorg accessCoin checkFinalTx h m
  | removeWithAnchor invalidRoot => pool.removeWithAnchor invalidRoot
  | removeConflicts tx => pool.removeConflicts tx
  | removeForBlock vtx => pool.removeForBlock vtx
  | expire time => pool.expire time
  | trimToSize eviction sizelimit => pool.trimToSize eviction sizelimit
  | clear => pool.clear
  | prioritiseTransaction hash nFeeDelta => pool.prioritiseTransaction hash nFeeDelta
  | clearPrioritisation hash => pool.clearPrioritisation hash
  | updateTransactionsFromBlock vHashesToUpdate => pool.updateTransactionsFromBlock vHashesToUpdate

-- No transaction enters twice or, with an address index, spends an output with a staker and an owner; and the pool is
-- not cleared while something is noted.
def contained (pool : TxMemPool) : IndexedCall → Bool
  | add tx _ _ _ _ _ newP2CSRules accessCoin fAddressIndex _ =>
    tx.getHash ∉ pool.mapTx && (!fAddressIndex || TxMemPool.undelegated newP2CSRules tx accessCoin)
  | clear => pool.mapSaplingNullifiers.keys = [] && pool.mapAddressInserted.keys = [] && pool.mapSpentInserted.keys = []
  | _ => true

end IndexedCall

namespace TxMemPool

variable [Crypto] {pool pool' : TxMemPool}

inductive Maintained (admits : TxMemPool → IndexedCall → Prop) : TxMemPool → Prop
  | empty : Maintained admits {}
  | call {pool : TxMemPool} (call : IndexedCall) : Maintained admits pool → admits pool call →
    Maintained admits (call.run pool)

structure Indexed (pool : TxMemPool) : Prop where
  linked : pool.Linked
  tracked : pool.Tracked

theorem Tracked.of_empty (mapNextTx : pool.mapNextTx = ∅) (mapSaplingNullifiers : pool.mapSaplingNullifiers = ∅)
    (addressListed : OwnedKeys.Listed (fun key _ => key.txhash) pool.mapAddress pool.mapAddressInserted)
    (addressInserted : pool.mapAddressInserted = ∅)
    (spentListed : OwnedKeys.Listed (fun _ value => value.txid) pool.mapSpent pool.mapSpentInserted)
    (spentInserted : pool.mapSpentInserted = ∅) : pool.Tracked where
  nextTx o tx looked := by rw [mapNextTx] at looked; cases looked
  nullifiers nullifier tx looked := by rw [mapSaplingNullifiers] at looked; cases looked
  addressListed := addressListed
  addressInserted h mem := absurd (addressInserted ▸ mem) (AList.notMem_empty h)
  spent key value looked :=
    absurd (spentInserted ▸ spentListed.mem_owners looked) (AList.notMem_empty value.txid)
  spentListed := spentListed
  spentInserted h mem := absurd (spentInserted ▸ mem) (AList.notMem_empty h)

theorem indexed_empty : ({} : TxMemPool).Indexed :=
  ⟨linked_of_empty rfl rfl, .of_empty rfl rfl (fun _ _ looked => nomatch looked) rfl (fun _ _ looked => nomatch looked) rfl⟩

theorem removalInvariant_indexed : RemovalInvariant Indexed where
  linked indexed := indexed.linked
  removeClosed indexed closed :=
    ⟨(indexed.linked.removeStaged fun r mem => (closed r mem).left).linked,
      indexed.tracked.removeStaged (fun r mem => (closed r mem).left) false⟩
  clearPrioritisation indexed := ⟨indexed.linked.congr rfl fun _ => Iff.rfl, indexed.tracked.alike ⟨rfl, rfl⟩⟩

section

variable (indexed : pool.Indexed)

include indexed

theorem Indexed.removeConfirmed {h : Uint256} (mem : h ∈ pool.mapTx) :
    (pool.removeStaged (UniqueList.insert ∅ h) true).Indexed := by
  have only : ∀ r ∈ UniqueList.insert (∅ : SetEntries) h, r ∈ pool.mapTx := by simpa using mem
  have alike := alike_updateDescendantsForRemoval pool h
  have linked := (indexed.linked.alike alike (mapLinks_updateDescendantsForRemoval pool h)).linked
  exact ⟨(linked.removeStaged fun r mem => alike.mem.mpr (only r mem)).linked, indexed.tracked.removeStaged only true⟩

theorem Indexed.prioritiseTransaction (hash : Uint256) (nFeeDelta : CAmount) :
    (pool.prioritiseTransaction hash nFeeDelta).Indexed := by
  have noted (mapDeltas : AList fun _ : Uint256 => CAmount) : Alike pool { pool with mapDeltas } := ⟨rfl, rfl⟩
  have alike : Alike pool (pool.prioritiseTransaction hash nFeeDelta) := by
    unfold TxMemPool.prioritiseTransaction
    dsimp only
    split
    case isFalse => exact noted _
    case isTrue =>
      refine .foldl (.modify (noted _) ?_) ?_ _
      case refine_1 =>
        intro e
        rfl
      case refine_2 =>
        intro pool _
        exact .modify (.refl pool) fun _ => rfl
  have links : (pool.prioritiseTransaction hash nFeeDelta).mapLinks = pool.mapLinks := by
    unfold TxMemPool.prioritiseTransaction
    dsimp only
    split
    case isFalse => rfl
    case isTrue => exact foldl_modify_mapLinks
  exact ⟨(indexed.linked.alike alike links).linked, indexed.tracked.alike alike⟩

theorem Indexed.clear (contained : IndexedCall.clear.contained pool) : pool.clear.Indexed := by
  simp only [IndexedCall.contained, Bool.and_eq_true, decide_eq_true_eq] at contained
  have ⟨⟨nullifiers, address⟩, spent⟩ := contained
  exact ⟨linked_of_empty rfl rfl, .of_empty rfl (eq_empty_of_keys nullifiers) indexed.tracked.addressListed
    (eq_empty_of_keys address) indexed.tracked.spentListed (eq_empty_of_keys spent)⟩

theorem Indexed.add {tx : CTransaction} {nFee : CAmount} {nTime : ℤ} {spends : Bool}
    {sigOps : UInt32} {limits : AncestorLimits} {newP2CSRules : Bool} {accessCoin : COutPoint → Coin}
    {fAddressIndex fSpentIndex : Bool}
    (contained : (IndexedCall.add tx nFee nTime spends sigOps limits newP2CSRules accessCoin fAddressIndex
      fSpentIndex).contained pool) :
    ((IndexedCall.add tx nFee nTime spends sigOps limits newP2CSRules accessCoin fAddressIndex fSpentIndex).run
      pool).Indexed := by
  simp only [IndexedCall.contained, Bool.and_eq_true, decide_eq_true_eq] at contained
  have ⟨new, plain⟩ := contained
  unfold IndexedCall.run
  dsimp only
  split
  case h_1 => exact indexed
  case h_2 setAncestors searched =>
    have notMem : tx.getHash ∉ setAncestors := fun mem =>
      new (AncestorsOf.mem (indexed.linked.within.mem_searched searched) indexed.linked mem)
    have added := indexed.linked.addUnchecked (e := .new tx nFee nTime spends sigOps) tx.getHash new notMem
    have enters := enters_addUnchecked (e := .new tx nFee nTime spends sigOps) tx.getHash setAncestors new
    have tracked := indexed.tracked.enters enters new
    have unlisted : tx.getHash ∉ (pool.addUnchecked tx.getHash (.new tx nFee nTime spends sigOps) setAncestors).mapAddressInserted ∧
        tx.getHash ∉ (pool.addUnchecked tx.getHash (.new tx nFee nTime spends sigOps) setAncestors).mapSpentInserted := by
      have rest := enters.rest
      simp only [indexes, Prod.mk.injEq] at rest
      rw [rest.right.left, rest.right.right.right]
      exact ⟨fun mem => new (indexed.tracked.addressInserted _ mem), fun mem => new (indexed.tracked.spentInserted _ mem)⟩
    have linked := added.linked
    generalize pool.addUnchecked tx.getHash (.new tx nFee nTime spends sigOps) setAncestors = pool₁ at *
    have entered : tx.getHash ∈ pool₁.mapTx := enters.mem.mpr (.inl rfl)
    have tracked₂ : (if fAddressIndex then pool₁.addAddressIndex newP2CSRules (.new tx nFee nTime spends sigOps) accessCoin
        else pool₁).Tracked := by
      split
      case isFalse => exact tracked
      case isTrue flag =>
        have undelegated : undelegated newP2CSRules tx accessCoin := by simpa [flag] using plain
        exact tracked.addAddressIndex entered unlisted.left undelegated
    constructor
    case linked =>
      refine linked.congr ?_ fun h => ?_
      case refine_1 => split <;> split <;> rfl
      case refine_2 => split <;> split <;> exact Iff.rfl
    case tracked =>
      split
      case isFalse => exact tracked₂
      case isTrue =>
        refine tracked₂.addSpentIndex ?_ ?_
        case refine_1 => split <;> exact enters.holds_self
        case refine_2 => split <;> exact unlisted.right

theorem Indexed.run (call : IndexedCall) (contained : call.contained pool) :
    (call.run pool).Indexed := by
  have invariant := removalInvariant_indexed
  cases call
  case add => exact indexed.add contained
  case removeRecursive tx => exact invariant.removeRecursive indexed tx
  case removeForReorg coins final h m => exact invariant.removeForReorg indexed coins final h m
  case removeWithAnchor invalidRoot => exact invariant.removeWithAnchor indexed invalidRoot
  case removeConflicts tx => exact invariant.removeConflicts indexed tx
  case removeForBlock vtx => exact invariant.removeForBlock (·.removeConfirmed) indexed vtx
  case expire time => exact invariant.expire indexed time
  case trimToSize eviction sizelimit => exact invariant.trimToSize indexed eviction sizelimit
  case clear => exact indexed.clear contained
  case prioritiseTransaction hash delta => exact indexed.prioritiseTransaction hash delta
  case clearPrioritisation hash => exact invariant.clearPrioritisation indexed
  case updateTransactionsFromBlock hashes =>
    have relinked := indexed.linked.updateTransactionsFromBlock indexed.tracked.spendersWithin hashes
    exact ⟨relinked.linked, indexed.tracked.alike relinked.toAlike⟩

end

theorem belongs_of_maintained (maintained : Maintained (fun pool call => call.contained pool) pool) : pool.Belongs := by
  have indexed : pool.Indexed := by
    induction maintained
    case empty => exact indexed_empty
    case call call _ contained indexed => exact indexed.run call contained
  exact indexed.tracked.belongs

end TxMemPool

section

attribute [local instance] Crypto.toy

open TxMemPool Opcodetype

def delegatedScript : CScript :=
  [0, 0, (OP_ROT : UInt8), 0, (OP_CHECKCOLDSTAKEVERIFY : UInt8), 0x14] ++ List.replicate 21 0 ++ [0x14] ++
    List.replicate 21 0 ++ [(OP_EQUALVERIFY : UInt8), (OP_CHECKSIG : UInt8)]

def spenderTx : CTransaction where
  vin := [{ prevout := ⟨5, 0⟩ }]
  vout := [{ nValue := 3 }]

def addSpender (script : CScript) : IndexedCall :=
  .add spenderTx 1 0 false 0 nNoLimit false (fun _ => { out := { nValue := 4, scriptPubKey := script } }) true true

theorem belongs_of_maintained_removed :
    Maintained (fun pool call => call.contained pool)
        ((IndexedCall.removeRecursive spenderTx).run ((addSpender [0x51]).run {})) ∧
      ((IndexedCall.removeRecursive spenderTx).run ((addSpender [0x51]).run {})).Belongs :=
  have maintained := .call (.removeRecursive spenderTx) (.call (addSpender [0x51]) .empty (by decide)) rfl
  ⟨maintained, belongs_of_maintained maintained⟩

-- Its keys stay when it leaves, and a cleared pool keeps its whole index.
theorem belongs_fails :
    (Maintained (fun _ _ => True) ((IndexedCall.removeRecursive spenderTx).run ((addSpender delegatedScript).run {})) ∧
      ¬((IndexedCall.removeRecursive spenderTx).run ((addSpender delegatedScript).run {})).Belongs) ∧
    (Maintained (fun _ _ => True) (IndexedCall.clear.run ((addSpender [0x51]).run {})) ∧
      ¬(IndexedCall.clear.run ((addSpender [0x51]).run {})).Belongs) := by
  refine ⟨⟨.call _ (.call _ .empty trivial) trivial, fun belongs => ?_⟩, .call _ (.call _ .empty trivial) trivial,
    fun belongs => ?_⟩
  case refine_1 =>
    have held := belongs.address ⟨.STAKING_ADDRESS, 0, spenderTx.getHash, 0, true⟩ (by decide)
    exact absurd held (by decide)
  case refine_2 =>
    have ⟨value, looked⟩ := Option.isSome_iff_exists.mp (show
      ((IndexedCall.clear.run ((addSpender [0x51]).run {})).mapSpent.lookup ⟨5, 0⟩).isSome by decide)
    have ⟨_, holds, _⟩ := belongs.spent ⟨5, 0⟩ value looked
    have ⟨_, content⟩ := holds
    cases content

end

end Qrax
