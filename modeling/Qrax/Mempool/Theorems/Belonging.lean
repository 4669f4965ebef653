import Qrax.Lib.OwnedKeys
import Qrax.Mempool.Theorems.Addition
import Qrax.Mempool.Theorems.Relinking
import Qrax.Mempool.Theorems.RemovalInvariant

open KeyedUpdate OwnedKeys List Option

namespace Qrax

open CTransaction

def CTransaction.poolNullifiers (tx : CTransaction) : List Uint256 :=
  if tx.isShieldedTx then (tx.sapData.elim [] (·.vShieldedSpend)).map (·.nullifier) else []

def CTransaction.outPoints (tx : CTransaction) : List COutPoint :=
  tx.vin.map (·.prevout)

namespace TxMemPool

variable [Crypto] {pool pool' : TxMemPool} {h it : Uint256}

def Holds (pool : TxMemPool) (tx : CTransaction) : Prop :=
  ∃ flag, pool.content tx.getHash = some (tx, flag)

structure Belongs (pool : TxMemPool) : Prop where
  nextTx : ∀ o tx, pool.mapNextTx.lookup o = some tx → pool.Holds tx ∧ o ∈ tx.outPoints
  nullifiers : ∀ nullifier tx, pool.mapSaplingNullifiers.lookup nullifier = some tx →
    pool.Holds tx ∧ nullifier ∈ tx.poolNullifiers
  address : ∀ key ∈ pool.mapAddress, key.txhash ∈ pool.mapTx
  spent : ∀ key value, pool.mapSpent.lookup key = some value → ∃ tx, pool.Holds tx ∧ tx.getHash = value.txid ∧
    ({ hash := key.txid, n := key.outputIndex } : COutPoint) ∈ tx.outPoints

structure Tracked (pool : TxMemPool) : Prop where
  nextTx : ∀ o tx, pool.mapNextTx.lookup o = some tx → pool.Holds tx ∧ o ∈ tx.outPoints
  nullifiers : ∀ nullifier tx, pool.mapSaplingNullifiers.lookup nullifier = some tx →
    pool.Holds tx ∧ nullifier ∈ tx.poolNullifiers
  addressListed : Listed (fun key _ => key.txhash) pool.mapAddress pool.mapAddressInserted
  addressInserted : ∀ h ∈ pool.mapAddressInserted, h ∈ pool.mapTx
  spent : ∀ key value, pool.mapSpent.lookup key = some value → ∃ tx, pool.Holds tx ∧ tx.getHash = value.txid ∧
    ({ hash := key.txid, n := key.outputIndex } : COutPoint) ∈ tx.outPoints
  spentListed : Listed (fun _ value => value.txid) pool.mapSpent pool.mapSpentInserted
  spentInserted : ∀ h ∈ pool.mapSpentInserted, h ∈ pool.mapTx

theorem Tracked.belongs (tracked : pool.Tracked) : pool.Belongs where
  nextTx := tracked.nextTx
  nullifiers := tracked.nullifiers
  address key mem := by
    have ⟨_, looked⟩ := isSome_iff_exists.mp (AList.lookup_isSome.mpr mem)
    exact tracked.addressInserted _ (tracked.addressListed.mem_owners looked)
  spent := tracked.spent

theorem Tracked.spendersWithin (tracked : pool.Tracked) : pool.SpendersWithin := by
  intro o tx looked
  have ⟨⟨flag, content⟩, _⟩ := tracked.nextTx o tx looked
  rw [mem_iff_content, content]
  rfl

theorem Tracked.alike (tracked : pool.Tracked) (alike : Alike pool pool') : pool'.Tracked := by
  have holds (tx : CTransaction) : pool'.Holds tx ↔ pool.Holds tx := by rw [Holds, alike.content]; rfl
  have indexes := alike.indexes
  simp only [TxMemPool.indexes, Prod.mk.injEq] at indexes
  have ⟨nextTx, nullifiers, address, addressInserted, spent, spentInserted⟩ := indexes
  have ⟨t₁, t₂, t₃, t₄, t₅, t₆, t₇⟩ := tracked
  constructor <;> simpa only [holds, alike.mem, nextTx, nullifiers, address, addressInserted, spent, spentInserted]

section

variable (pool it)

theorem removeAddressIndex_keeps {δ : Type} (π : TxMemPool → δ) (h : ∀ pool mapAddress mapAddressInserted,
    π { pool with mapAddress, mapAddressInserted } = π pool) : π (pool.removeAddressIndex it) = π pool := by
  unfold removeAddressIndex
  split
  case h_1 => exact h ..
  case h_2 => rfl

theorem removeSpentIndex_keeps {δ : Type} (π : TxMemPool → δ) (h : ∀ pool mapSpent mapSpentInserted,
    π { pool with mapSpent, mapSpentInserted } = π pool) : π (pool.removeSpentIndex it) = π pool := by
  unfold removeSpentIndex
  split
  case h_1 => exact h ..
  case h_2 => rfl

theorem content_removeUnchecked (h : Uint256) :
    (pool.removeUnchecked it).content h = if h = it then none else pool.content h := by
  rw [content, mapTx_removeUnchecked, IndexedTransactionSet.find_erase]
  split <;> rfl

theorem mapNextTx_removeUnchecked (o : COutPoint) : (pool.removeUnchecked it).mapNextTx.lookup o =
    if o ∈ (pool.entry it).tx.outPoints then none else pool.mapNextTx.lookup o := by
  rw [outPoints, ← lookup_foldl_erase, foldl_map, removeUnchecked,
    removeSpentIndex_keeps _ _ mapNextTx fun _ _ _ => rfl, removeAddressIndex_keeps _ _ mapNextTx fun _ _ _ => rfl]

theorem nullifiers_removeUnchecked (nullifier : Uint256) :
    (pool.removeUnchecked it).mapSaplingNullifiers.lookup nullifier =
      if nullifier ∈ (pool.entry it).tx.poolNullifiers then none else pool.mapSaplingNullifiers.lookup nullifier := by
  rw [← lookup_foldl_erase, removeUnchecked, removeSpentIndex_keeps _ _ mapSaplingNullifiers fun _ _ _ => rfl,
    removeAddressIndex_keeps _ _ mapSaplingNullifiers fun _ _ _ => rfl, poolNullifiers]
  by_cases shielded : (pool.entry it).tx.isShieldedTx
  case pos => simp only [if_pos shielded, foldl_map]
  case neg => simp only [if_neg shielded, foldl_nil]

theorem address_removeUnchecked : Left (pool.entry it).tx.getHash pool.mapAddress (pool.removeUnchecked it).mapAddress
    pool.mapAddressInserted (pool.removeUnchecked it).mapAddressInserted := by
  constructor
  case keys =>
    intro key
    rw [← lookup_foldl_erase, removeUnchecked, removeSpentIndex_keeps _ _ mapAddress fun _ _ _ => rfl, removeAddressIndex]
    dsimp only
    cases pool.mapAddressInserted.lookup (pool.entry it).tx.getHash <;> rfl
  case owners =>
    intro h
    rw [removeUnchecked, removeSpentIndex_keeps _ _ mapAddressInserted fun _ _ _ => rfl, removeAddressIndex]
    dsimp only
    cases listed : pool.mapAddressInserted.lookup (pool.entry it).tx.getHash
    case some => exact lookup_erase ..
    case none => exact lookup_of_absent listed h

theorem spent_removeUnchecked : Left (pool.entry it).tx.getHash pool.mapSpent (pool.removeUnchecked it).mapSpent
    pool.mapSpentInserted (pool.removeUnchecked it).mapSpentInserted := by
  unfold removeUnchecked removeSpentIndex
  dsimp only
  rw [removeAddressIndex_keeps _ _ mapSpentInserted fun _ _ _ => rfl]
  cases listed : pool.mapSpentInserted.lookup (pool.entry it).tx.getHash
  all_goals
    dsimp only
    rw [removeAddressIndex_keeps _ _ mapSpent fun _ _ _ => rfl]
  case some => exact ⟨fun key => by rw [listed]; exact lookup_foldl_erase .., lookup_erase _ _⟩
  case none =>
    rw [removeAddressIndex_keeps _ _ mapSpentInserted fun _ _ _ => rfl]
    exact ⟨fun key => by rw [listed]; rfl, lookup_of_absent listed⟩

end

theorem holds_removeUnchecked (tx : CTransaction) :
    (pool.removeUnchecked it).Holds tx ↔ tx.getHash ≠ it ∧ pool.Holds tx := by
  simp only [Holds, content_removeUnchecked]
  split <;> simp_all

theorem mem_removeUnchecked : h ∈ (pool.removeUnchecked it).mapTx ↔ h ≠ it ∧ h ∈ pool.mapTx := by
  rw [mem_iff_content, content_removeUnchecked, mem_iff_content]
  split <;> simp_all

theorem Tracked.removeUnchecked (tracked : pool.Tracked) (mem : it ∈ pool.mapTx) : (pool.removeUnchecked it).Tracked := by
  obtain ⟨e, found⟩ := IndexedTransactionSet.mem_iff.mp mem
  have entry := entry_of_find found
  have txid : e.tx.getHash = it := pool.mapTx.txid found
  have own {tx : CTransaction} (holds : pool.Holds tx) (eq : tx.getHash = it) : tx = e.tx := by
    obtain ⟨flag, content⟩ := holds
    rw [TxMemPool.content, eq, found] at content
    cases content
    rfl
  have address := pool.address_removeUnchecked it
  have spent := pool.spent_removeUnchecked it
  rw [entry, txid] at address spent
  constructor
  case nextTx =>
    intro o tx looked
    rw [mapNextTx_removeUnchecked, entry, ite_none_left_eq_some] at looked
    obtain ⟨holds, mem⟩ := tracked.nextTx o tx looked.right
    exact ⟨(holds_removeUnchecked tx).mpr ⟨fun eq => looked.left (own holds eq ▸ mem), holds⟩, mem⟩
  case nullifiers =>
    intro nullifier tx looked
    rw [nullifiers_removeUnchecked, entry, ite_none_left_eq_some] at looked
    obtain ⟨holds, mem⟩ := tracked.nullifiers nullifier tx looked.right
    exact ⟨(holds_removeUnchecked tx).mpr ⟨fun eq => looked.left (own holds eq ▸ mem), holds⟩, mem⟩
  case addressListed => exact address.listed tracked.addressListed
  case addressInserted =>
    intro h mem
    exact mem_removeUnchecked.mpr ((address.mem_owners mem).imp_right (tracked.addressInserted h))
  case spentListed => exact spent.listed tracked.spentListed
  case spentInserted =>
    intro h mem
    exact mem_removeUnchecked.mpr ((spent.mem_owners mem).imp_right (tracked.spentInserted h))
  case spent =>
    intro key value looked
    obtain ⟨tx, holds, eq, mem⟩ := tracked.spent key value (spent.stays looked)
    exact ⟨tx, (holds_removeUnchecked tx).mpr ⟨eq ▸ spent.owner_ne tracked.spentListed looked, holds⟩, eq, mem⟩

theorem alike_updateAncestorsOf (pool : TxMemPool) (add : Bool) (it : Uint256) (setAncestors : SetEntries) :
    Alike pool (pool.updateAncestorsOf add it setAncestors) := by
  refine Alike.foldl (.foldl (.refl pool) ?_ _) ?_ _
  case refine_1 =>
    intro pool _
    exact ⟨rfl, rfl⟩
  case refine_2 =>
    intro pool _
    exact .modify (.refl pool) fun _ => rfl

theorem alike_updateDescendantsForRemoval (pool : TxMemPool) (it : Uint256) :
    Alike pool (pool.updateDescendantsForRemoval it) := by
  refine Alike.foldl (.refl pool) ?_ _
  intro pool _
  exact .modify (.refl pool) fun e => by cases e; rfl

theorem alike_updateChildrenForRemoval (pool : TxMemPool) (it : Uint256) :
    Alike pool (pool.updateChildrenForRemoval it) := by
  refine Alike.foldl (.refl pool) ?_ _
  intro pool _
  exact ⟨rfl, rfl⟩

theorem alike_updateForRemoveFromMempool (pool : TxMemPool) (s : SetEntries) (updateDescendants : Bool) :
    Alike pool (pool.updateForRemoveFromMempool s updateDescendants) := by
  have first : Alike pool (if updateDescendants then s.toList.foldl updateDescendantsForRemoval pool else pool) := by
    split
    case isTrue => exact .foldl (.refl pool) alike_updateDescendantsForRemoval _
    case isFalse => exact .refl pool
  refine Alike.foldl (.foldl first ?_ _) alike_updateChildrenForRemoval _
  intro pool it
  exact alike_updateAncestorsOf pool false it _

theorem Tracked.foldl_removeUnchecked {l : List Uint256} (tracked : pool.Tracked) (nodup : l.Nodup)
    (mem : ∀ r ∈ l, r ∈ pool.mapTx) : (l.foldl TxMemPool.removeUnchecked pool).Tracked := by
  induction l generalizing pool
  case nil => exact tracked
  case cons it l ih =>
    have ⟨notMem, nodup⟩ := nodup_cons.mp nodup
    refine ih (tracked.removeUnchecked (mem it (mem_cons_self ..))) nodup fun r rest => ?_
    exact mem_removeUnchecked.mpr ⟨fun eq => notMem (eq ▸ rest), mem r (mem_cons_of_mem _ rest)⟩

theorem Tracked.removeStaged (tracked : pool.Tracked) {s : SetEntries} (mem : ∀ r ∈ s, r ∈ pool.mapTx)
    (updateDescendants : Bool) : (pool.removeStaged s updateDescendants).Tracked := by
  have alike := alike_updateForRemoveFromMempool pool s updateDescendants
  exact (tracked.alike alike).foldl_removeUnchecked s.nodup fun r staged => alike.mem.mpr (mem r staged)

variable {e : CTxMemPoolEntry}

structure Enters (e : CTxMemPoolEntry) (pool pool' : TxMemPool) : Prop where
  content : ∀ x, pool'.content x = if x = e.tx.getHash then some (e.tx, e.spendsCoinbaseOrCoinstake) else pool.content x
  nextTx : ∀ o, pool'.mapNextTx.lookup o =
    if o ∈ e.tx.outPoints then some ((pool.mapNextTx.lookup o).getD e.tx) else pool.mapNextTx.lookup o
  nullifiers : ∀ nullifier, pool'.mapSaplingNullifiers.lookup nullifier =
    if nullifier ∈ e.tx.poolNullifiers then some e.tx else pool.mapSaplingNullifiers.lookup nullifier
  rest : pool'.indexes.2.2 = pool.indexes.2.2

theorem flag_applyDelta (pool : TxMemPool) (hash : Uint256) (e : CTxMemPoolEntry) :
    (pool.applyDelta hash e).spendsCoinbaseOrCoinstake = e.spendsCoinbaseOrCoinstake := by
  unfold applyDelta
  split
  case h_1 => split <;> rfl
  case h_2 => rfl

theorem indexes_insertEntry (pool : TxMemPool) (hash : Uint256) (e : CTxMemPoolEntry) :
    (pool.insertEntry hash e).indexes = pool.indexes := by
  unfold insertEntry
  dsimp only
  split
  case h_1 => split <;> rfl
  case h_2 => rfl

theorem enters_addUnchecked (hash : Uint256) (setAncestors : SetEntries) (new : e.tx.getHash ∉ pool.mapTx) :
    Enters e pool (pool.addUnchecked hash e setAncestors) := by
  have found := find_insertEntry hash new
  have maps := indexes_insertEntry pool hash e
  have tx : ((pool.insertEntry hash e).entry e.tx.getHash).tx = e.tx := by
    rw [entry, found, if_pos rfl]
    exact tx_applyDelta pool hash e
  simp only [TxMemPool.addUnchecked, tx]
  generalize pool.insertEntry hash e = pool₁ at found maps
  have linking : Alike (pool₁.spendInputs e.tx) ((((pool₁.spendInputs e.tx).linkParents e.tx.getHash e.tx).updateAncestorsOf
      true e.tx.getHash setAncestors).updateEntryForAncestors e.tx.getHash setAncestors) := by
    refine .modify (.trans (.foldl (.refl _) (fun pool phash => ?_) _) (alike_updateAncestorsOf ..)) fun e => by cases e; rfl
    split
    case isTrue => exact ⟨rfl, rfl⟩
    case isFalse => exact .refl pool
  generalize TxMemPool.updateEntryForAncestors _ e.tx.getHash setAncestors = pool₂ at linking
  have nullifiers : (pool₂.spendNullifiers e.tx).indexes = (pool₂.mapNextTx, e.tx.poolNullifiers.foldl
      (fun m nullifier => m.insert nullifier e.tx) pool₂.mapSaplingNullifiers, pool₂.indexes.2.2) := by
    unfold spendNullifiers poolNullifiers
    split
    case isTrue => rw [foldl_map]; rfl
    case isFalse => rfl
  have same : (pool₂.spendNullifiers e.tx).content = pool₂.content := by
    unfold content
    rw [(spendNullifiers_keeps ..).left]
  generalize pool₂.spendNullifiers e.tx = pool₃ at nullifiers same
  constructor
  case content =>
    intro x
    rw [same, linking.content]
    change (pool₁.mapTx.find x).map _ = _
    rw [found]
    split
    case isTrue => rw [map_some, tx_applyDelta, flag_applyDelta]
    case isFalse => rfl
  case nextTx =>
    intro o
    have eq : pool₃.mapNextTx = pool₂.mapNextTx := congrArg Prod.fst nullifiers
    have eq' : pool₂.mapNextTx = (pool₁.spendInputs e.tx).mapNextTx := congrArg Prod.fst linking.indexes
    have eq'' : pool₁.mapNextTx = pool.mapNextTx := congrArg Prod.fst maps
    rw [eq, eq', outPoints, ← lookup_foldl_emplace, foldl_map, ← eq'']
    rfl
  case nullifiers =>
    intro nullifier
    have eq : pool₃.mapSaplingNullifiers = _ := congrArg (·.2.1) nullifiers
    have eq' : pool₂.mapSaplingNullifiers = pool₁.mapSaplingNullifiers := congrArg (·.2.1) linking.indexes
    have eq'' : pool₁.mapSaplingNullifiers = pool.mapSaplingNullifiers := congrArg (·.2.1) maps
    rw [eq, lookup_foldl_insert, eq', eq'']
  case rest =>
    rw [congrArg (·.2.2) nullifiers, congrArg (·.2.2) linking.indexes]
    exact congrArg (·.2.2) maps

theorem Enters.holds (enters : Enters e pool pool') (new : e.tx.getHash ∉ pool.mapTx)
    {tx : CTransaction} (holds : pool.Holds tx) : pool'.Holds tx := by
  have ⟨flag, content⟩ := holds
  have ne : tx.getHash ≠ e.tx.getHash := by
    intro eq
    rw [mem_iff_content, ← eq, content] at new
    exact new rfl
  exact ⟨flag, by rw [enters.content, if_neg ne, content]⟩

theorem Enters.holds_self (enters : Enters e pool pool') : pool'.Holds e.tx :=
  ⟨_, (enters.content _).trans (if_pos rfl)⟩

theorem Enters.mem (enters : Enters e pool pool') : h ∈ pool'.mapTx ↔ h = e.tx.getHash ∨ h ∈ pool.mapTx := by
  rw [mem_iff_content, mem_iff_content, enters.content]
  split <;> simp_all

theorem Tracked.enters (tracked : pool.Tracked) (enters : Enters e pool pool') (new : e.tx.getHash ∉ pool.mapTx) :
    pool'.Tracked := by
  have rest := enters.rest
  simp only [indexes, Prod.mk.injEq] at rest
  have ⟨address, addressInserted, spent, spentInserted⟩ := rest
  constructor
  case nextTx =>
    intro o tx looked
    rw [enters.nextTx] at looked
    split at looked
    case isFalse => exact (tracked.nextTx o tx looked).imp_left (enters.holds new)
    case isTrue mem =>
      cases old : pool.mapNextTx.lookup o <;> rw [old] at looked <;> cases looked
      case none => exact ⟨enters.holds_self, mem⟩
      case some => exact (tracked.nextTx o _ old).imp_left (enters.holds new)
  case nullifiers =>
    intro nullifier tx looked
    rw [enters.nullifiers] at looked
    split at looked
    case isFalse => exact (tracked.nullifiers nullifier tx looked).imp_left (enters.holds new)
    case isTrue mem =>
      cases looked
      exact ⟨enters.holds_self, mem⟩
  case addressListed => rw [address, addressInserted]; exact tracked.addressListed
  case addressInserted => exact fun h mem => enters.mem.mpr (.inr (tracked.addressInserted h (addressInserted ▸ mem)))
  case spentListed => rw [spent, spentInserted]; exact tracked.spentListed
  case spentInserted => exact fun h mem => enters.mem.mpr (.inr (tracked.spentInserted h (spentInserted ▸ mem)))
  case spent =>
    intro key value looked
    rw [spent] at looked
    have ⟨tx, holds, rest⟩ := tracked.spent key value looked
    exact ⟨tx, enters.holds new holds, rest⟩

variable {newP2CSRules : Bool} {accessCoin : COutPoint → Coin} {m : AddressIndex}

structure AddressesFrom (m : AddressIndex) (txhash : Uint256) (index : AddressIndex) : Prop where
  new : ∀ key delta, index.1.lookup key = some delta → m.1.lookup key = some delta ∨ key ∈ index.2
  about : ∀ key ∈ index.2, key.txhash = txhash

theorem addressDeltaKeys_txhash {script : CScript} {txhash : Uint256} {index : ℕ} {spending : Bool}
    {key : CMempoolAddressDeltaKey} (mem : key ∈ addressDeltaKeys newP2CSRules script txhash index spending) :
    key.txhash = txhash := by
  unfold addressDeltaKeys at mem
  dsimp only at mem
  split at mem
  case isTrue => grind
  case isFalse => split at mem <;> grind

omit [Crypto] in
theorem AddressesFrom.insertDeltas {index : AddressIndex} {txhash : Uint256} (from' : AddressesFrom m txhash index)
    {keys : List CMempoolAddressDeltaKey} (about : ∀ key ∈ keys, key.txhash = txhash) (delta : CMempoolAddressDelta) :
    AddressesFrom m txhash (insertDeltas index keys delta true) := by
  constructor
  case new =>
    intro key delta' looked
    rw [TxMemPool.insertDeltas, lookup_foldl_emplace] at looked
    rw [TxMemPool.insertDeltas, if_pos rfl, mem_append]
    split at looked
    case isTrue mem => exact .inr (.inr mem)
    case isFalse => exact (from'.new key delta' looked).imp_right .inl
  case about =>
    intro key mem
    rw [TxMemPool.insertDeltas, if_pos rfl, mem_append] at mem
    exact mem.elim (from'.about key) (about key)

def undelegated (newP2CSRules : Bool) (tx : CTransaction) (accessCoin : COutPoint → Coin) : Bool :=
  tx.vin.all fun txin => !isDelegated newP2CSRules (accessCoin txin.prevout).out.scriptPubKey

theorem addressesFrom_addAddressIndex (plain : undelegated newP2CSRules e.tx accessCoin) :
    AddressesFrom m e.tx.getHash (e.tx.vout.zipIdx.foldl (indexOutput newP2CSRules e)
      (e.tx.vin.zipIdx.foldl (indexInput newP2CSRules e accessCoin) (m.1, []))) := by
  have start : AddressesFrom m e.tx.getHash (m.1, []) := ⟨fun _ _ looked => .inl looked, fun _ mem => nomatch mem⟩
  have inputs : AddressesFrom m e.tx.getHash (e.tx.vin.zipIdx.foldl (indexInput newP2CSRules e accessCoin) (m.1, [])) := by
    refine List.foldlRecOn _ _ start fun index from' (txin, j) mem => ?_
    have input : txin ∈ e.tx.vin := fst_mem_of_mem_zipIdx mem
    have listed := all_eq_true.mp plain txin input
    rw [indexInput, listed]
    exact from'.insertDeltas (fun _ => addressDeltaKeys_txhash) _
  exact List.foldlRecOn _ _ inputs fun index from' _ _ => from'.insertDeltas (fun _ => addressDeltaKeys_txhash) _

theorem Tracked.addAddressIndex (tracked : pool.Tracked) (mem : e.tx.getHash ∈ pool.mapTx)
    (new : e.tx.getHash ∉ pool.mapAddressInserted) (plain : undelegated newP2CSRules e.tx accessCoin) :
    (pool.addAddressIndex newP2CSRules e accessCoin).Tracked := by
  have from' := addressesFrom_addAddressIndex (m := (pool.mapAddress, [])) plain
  unfold TxMemPool.addAddressIndex
  constructor
  case addressListed =>
    refine tracked.addressListed.enter new fun key delta looked => ?_
    exact (from'.new key delta looked).imp_right fun listed => ⟨from'.about key listed, listed⟩
  case addressInserted =>
    intro h inserted
    rw [← AList.lookup_isSome, lookup_emplace] at inserted
    split at inserted
    case isTrue eq => exact eq ▸ mem
    case isFalse => exact tracked.addressInserted h (AList.lookup_isSome.mp inserted)
  case nextTx => exact tracked.nextTx
  case nullifiers => exact tracked.nullifiers
  case spent => exact tracked.spent
  case spentListed => exact tracked.spentListed
  case spentInserted => exact tracked.spentInserted

def SpentFrom (mapSpent : AList fun _ : CSpentIndexKey => MempoolSpentValue) (tx : CTransaction) (index : SpentIndex) : Prop :=
  ∀ key value, index.1.lookup key = some value → mapSpent.lookup key = some value ∨
    value.txid = tx.getHash ∧ key ∈ index.2 ∧ ({ hash := key.txid, n := key.outputIndex } : COutPoint) ∈ tx.outPoints

theorem SpentFrom.insertSpent {mapSpent : AList fun _ : CSpentIndexKey => MempoolSpentValue} {tx : CTransaction}
    {index : SpentIndex} {key : CSpentIndexKey} {value : MempoolSpentValue} (from' : SpentFrom mapSpent tx index)
    (txid : value.txid = tx.getHash) (input : ({ hash := key.txid, n := key.outputIndex } : COutPoint) ∈ tx.outPoints) :
    SpentFrom mapSpent tx (insertSpent index key value) := by
  intro key' value' looked
  have old (looked : index.1.lookup key' = some value') :=
    (from' key' value' looked).imp_right fun ⟨txid, listed, input⟩ =>
      (⟨txid, mem_append_left [key] listed, input⟩ : _ ∧ _ ∧ _)
  rw [TxMemPool.insertSpent, lookup_emplace] at looked
  split at looked
  case isFalse => exact old looked
  case isTrue eq =>
    cases before : index.1.lookup key <;> rw [before] at looked <;> cases looked
    case some => exact old (eq ▸ before)
    case none => exact .inr ⟨txid, mem_append_right _ (mem_singleton.mpr eq), eq ▸ input⟩

theorem spentFrom_addSpentIndex (newP2CSRules : Bool) (e : CTxMemPoolEntry) (accessCoin : COutPoint → Coin)
    (mapSpent : AList fun _ : CSpentIndexKey => MempoolSpentValue) :
    SpentFrom mapSpent e.tx (e.tx.vin.zipIdx.foldl (indexSpent newP2CSRules e accessCoin) (mapSpent, [])) := by
  refine List.foldlRecOn _ _ (fun _ _ looked => .inl looked) fun index from' (txin, j) mem => ?_
  have input : txin.prevout ∈ e.tx.outPoints := mem_map_of_mem (fst_mem_of_mem_zipIdx mem)
  unfold indexSpent
  dsimp only
  split
  case isTrue => exact (from'.insertSpent rfl input).insertSpent rfl input
  case isFalse => exact from'.insertSpent rfl input

theorem Tracked.addSpentIndex (tracked : pool.Tracked) (holds : pool.Holds e.tx)
    (new : e.tx.getHash ∉ pool.mapSpentInserted) : (pool.addSpentIndex newP2CSRules e accessCoin).Tracked := by
  have from' := spentFrom_addSpentIndex newP2CSRules e accessCoin pool.mapSpent
  unfold TxMemPool.addSpentIndex
  constructor
  case spent =>
    intro key value looked
    obtain old | ⟨txid, _, input⟩ := from' key value looked
    case inl => exact tracked.spent key value old
    case inr => exact ⟨e.tx, holds, txid.symm, input⟩
  case spentListed =>
    refine tracked.spentListed.enter new fun key value looked => ?_
    exact (from' key value looked).imp_right fun ⟨txid, listed, _⟩ => ⟨txid, listed⟩
  case spentInserted =>
    intro h inserted
    rw [← AList.lookup_isSome, lookup_emplace] at inserted
    split at inserted
    case isFalse => exact tracked.spentInserted h (AList.lookup_isSome.mp inserted)
    case isTrue eq =>
      have ⟨flag, content⟩ := holds
      exact mem_iff_content.mpr (by rw [eq]; exact isSome_iff_exists.mpr ⟨_, content⟩)
  case nextTx => exact tracked.nextTx
  case nullifiers => exact tracked.nullifiers
  case addressListed => exact tracked.addressListed
  case addressInserted => exact tracked.addressInserted

end TxMemPool

end Qrax
