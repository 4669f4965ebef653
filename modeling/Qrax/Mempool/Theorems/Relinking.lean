import Qrax.Mempool.Theorems.Links

open KeyedUpdate List

namespace Qrax.TxMemPool

variable [Crypto]

section

variable (pool : TxMemPool)

def content (h : Uint256) : Option (CTransaction × Bool) :=
  (pool.mapTx.find h).map fun e => (e.tx, e.spendsCoinbaseOrCoinstake)

def indexes :=
  (pool.mapNextTx, pool.mapSaplingNullifiers, pool.mapAddress, pool.mapAddressInserted, pool.mapSpent, pool.mapSpentInserted)

variable {pool} {pool' : TxMemPool} {h it : Uint256}

theorem mem_iff_content : h ∈ pool.mapTx ↔ (pool.content h).isSome := by
  rw [content, Option.isSome_map]
  rfl

-- Only the totals, the links and the fee deltas may differ.
structure Alike (pool pool' : TxMemPool) : Prop where
  content : pool'.content = pool.content
  indexes : pool'.indexes = pool.indexes

namespace Alike

theorem refl (pool : TxMemPool) : Alike pool pool :=
  ⟨rfl, rfl⟩

theorem trans {pool'' : TxMemPool} (first : Alike pool pool') (second : Alike pool' pool'') : Alike pool pool'' :=
  ⟨second.content.trans first.content, second.indexes.trans first.indexes⟩

theorem mem (alike : Alike pool pool') : h ∈ pool'.mapTx ↔ h ∈ pool.mapTx := by
  rw [mem_iff_content, alike.content, ← mem_iff_content]

theorem foldl {α : Type} {f : TxMemPool → α → TxMemPool} (alike : Alike pool pool')
    (step : ∀ pool a, Alike pool (f pool a)) (l : List α) : Alike pool (l.foldl f pool') :=
  List.foldlRecOn l f alike fun pool alike a _ => alike.trans (step pool a)

theorem modify {f : CTxMemPoolEntry → CTxMemPoolEntry} {keeps : ∀ e, (f e).tx = e.tx} (alike : Alike pool pool')
    (flag : ∀ e, (f e).spendsCoinbaseOrCoinstake = e.spendsCoinbaseOrCoinstake) :
    Alike pool (pool'.modify it f keeps) := by
  refine alike.trans ⟨funext fun h => ?_, rfl⟩
  rw [TxMemPool.content, find_modify]
  split
  case isFalse => rfl
  case isTrue eq =>
    rw [Option.map_map, TxMemPool.content, eq]
    refine congrArg (Option.map · _) (funext fun e => ?_)
    rw [Function.comp_apply, keeps, flag]

end Alike

end

variable {pool pool' pool'' : TxMemPool} {hash : Uint256}

-- More entries are linked, and only the totals have changed.
structure Relinked (link : Uint256 → Uint256 → Prop) (pool pool' : TxMemPool) : Prop extends Alike pool pool' where
  linked : pool'.Linked
  parent : ∀ p c, pool'.Parent p c ↔ pool.Parent p c ∨ link p c

namespace Relinked

variable {link link' : Uint256 → Uint256 → Prop}

theorem refl (linked : pool.Linked) : Relinked (fun _ _ => False) pool pool :=
  ⟨.refl pool, linked, fun _ _ => (or_false _).to_iff.symm⟩

theorem trans (first : Relinked link pool pool') (second : Relinked link' pool' pool'') :
    Relinked (fun p c => link p c ∨ link' p c) pool pool'' where
  toAlike := first.toAlike.trans second.toAlike
  linked := second.linked
  parent p c := by rw [second.parent, first.parent, or_assoc]

theorem congr (relinked : Relinked link pool pool') (same : ∀ p c, link p c ↔ link' p c) : Relinked link' pool pool' where
  toAlike := relinked.toAlike
  linked := relinked.linked
  parent p c := by rw [relinked.parent, same]

end Relinked

theorem Linked.linkChild (linked : pool.Linked) {child : Uint256} (memP : hash ∈ pool.mapTx) (memC : child ∈ pool.mapTx) :
    Relinked (fun p c => p = hash ∧ c = child) pool (pool.linkChild hash child) := by
  have parent (p c : Uint256) : (pool.linkChild hash child).Parent p c ↔ pool.Parent p c ∨ p = hash ∧ c = child := by
    rw [Parent, TxMemPool.linkChild, mem_parents_updateParent, if_pos rfl, getMemPoolParents_updateChild]
    exact or_congr_right and_comm
  refine ⟨⟨rfl, rfl⟩, ⟨fun h => ?_, fun p c => ?_, fun p c link => ?_⟩, parent⟩
  case refine_1 =>
    rw [TxMemPool.linkChild, mem_mapLinks_updateParent, mem_mapLinks_updateChild, linked.domain]
    change h = child ∨ h = hash ∨ h ∈ pool.mapTx ↔ h ∈ pool.mapTx
    grind
  case refine_2 =>
    rw [parent, TxMemPool.linkChild, getMemPoolChildren_updateParent, mem_children_updateChild, if_pos rfl, linked.children]
  case refine_3 =>
    obtain link | ⟨rfl, rfl⟩ := (parent p c).mp link
    case inl => exact linked.within p c link
    case inr => exact ⟨memP, memC⟩

theorem Linked.foldl_linkChild (linked : pool.Linked) {children : List Uint256} (memP : hash ∈ pool.mapTx)
    (memC : ∀ c ∈ children, c ∈ pool.mapTx) :
    Relinked (fun p c => p = hash ∧ c ∈ children) pool (children.foldl (·.linkChild hash ·) pool) := by
  induction children generalizing pool
  case nil => exact (Relinked.refl linked).congr fun p c => by simp
  case cons child children ih =>
    have first := linked.linkChild memP (memC child (mem_cons_self ..))
    have rest := ih first.linked (first.mem.mpr memP) fun c mem =>
      first.mem.mpr (memC c (mem_cons_of_mem _ mem))
    refine (first.trans rest).congr fun p c => ?_
    rw [mem_cons, and_or_left]

theorem Linked.alike (linked : pool.Linked) (alike : Alike pool pool') (mapLinks : pool'.mapLinks = pool.mapLinks) :
    Relinked (fun _ _ => False) pool pool' where
  toAlike := alike
  linked := linked.congr mapLinks fun _ => alike.mem
  parent p c := by simp only [Parent, getMemPoolParents, getLinks, mapLinks, or_false]

theorem Linked.updateForDescendants (linked : pool.Linked) (hash : Uint256) (cachedDescendants : CacheMap)
    (setExclude : List Uint256) :
    Relinked (fun _ _ => False) pool (pool.updateForDescendants hash cachedDescendants setExclude).1 := by
  unfold TxMemPool.updateForDescendants
  dsimp only
  refine linked.alike (.modify (.foldl (.refl pool) ?_ _) ?_) ?_
  case refine_1 =>
    intro pool _
    exact .modify (.refl pool) fun _ => rfl
  case refine_2 =>
    intro e
    rfl
  case refine_3 => exact Eq.trans rfl foldl_modify_mapLinks

theorem mem_spendersIn {p c : Uint256} :
    c ∈ pool.spendersIn p ↔ ∃ o tx, pool.mapNextTx.lookup o = some tx ∧ o.hash = p ∧ tx.getHash = c := by
  simp only [spendersIn, UniqueList.mem_ofList, mem_map, mem_filter, decide_eq_true_eq]
  constructor
  case mp =>
    rintro ⟨⟨o, tx⟩, ⟨mem, hash⟩, eq⟩
    exact ⟨o, tx, AList.mem_lookup_iff.mpr mem, hash, eq⟩
  case mpr =>
    rintro ⟨o, tx, found, hash, eq⟩
    exact ⟨⟨o, tx⟩, ⟨AList.mem_lookup_iff.mp found, hash⟩, eq⟩

variable {vHashesToUpdate : List Uint256}

def SpendersWithin (pool : TxMemPool) : Prop :=
  ∀ o tx, pool.mapNextTx.lookup o = some tx → tx.getHash ∈ pool.mapTx

-- An entry of the disconnected block and one that was in the pool before.
def Rejoined (vHashesToUpdate : List Uint256) (pool : TxMemPool) (p c : Uint256) : Prop :=
  p ∈ pool.mapTx ∧ c ∈ pool.spendersIn p ∧ c ∉ vHashesToUpdate

theorem Relinked.spendersIn {link : Uint256 → Uint256 → Prop} (relinked : Relinked link pool pool') :
    pool'.spendersIn = pool.spendersIn := by
  have same : pool'.mapNextTx = pool.mapNextTx := congrArg Prod.fst relinked.indexes
  funext p
  rw [TxMemPool.spendersIn, same]
  rfl

section

variable (linked : pool.Linked) (within : pool.SpendersWithin)

include linked within

theorem Linked.updateTransactionFromBlock
    (vHashesToUpdate : List Uint256) (cache : CacheMap) (hash : Uint256) : Relinked (fun p c => p = hash ∧ Rejoined vHashesToUpdate pool p c) pool
      (updateTransactionFromBlock vHashesToUpdate (pool, cache) hash).1 := by
  unfold TxMemPool.updateTransactionFromBlock
  dsimp only
  split
  case isFalse absent =>
    refine (Relinked.refl linked).congr fun p c => iff_of_false id ?_
    rintro ⟨rfl, mem, _⟩
    exact absent mem
  case isTrue present =>
    have memC : ∀ c ∈ (pool.spendersIn hash).toList.filter (· ∉ vHashesToUpdate), c ∈ pool.mapTx := by
      intro c mem
      have ⟨_, _, found, _, eq⟩ := mem_spendersIn.mp (UniqueList.mem_toList.mp (mem_of_mem_filter mem))
      exact eq ▸ within _ _ found
    have joined := linked.foldl_linkChild present memC
    have totals := joined.linked.updateForDescendants hash cache vHashesToUpdate
    refine (joined.trans totals).congr fun p c => ?_
    simp only [Rejoined, mem_filter, UniqueList.mem_toList, decide_eq_true_eq, or_false]
    refine and_congr_right ?_
    rintro rfl
    exact (and_iff_right present).symm

theorem Linked.foldl_updateTransactionFromBlock (l : List Uint256)
    (cache : CacheMap) : Relinked (fun p c => p ∈ l ∧ Rejoined vHashesToUpdate pool p c) pool
      (l.foldl (TxMemPool.updateTransactionFromBlock vHashesToUpdate) (pool, cache)).1 := by
  induction l generalizing pool cache
  case nil => exact (Relinked.refl linked).congr fun p c => by simp
  case cons hash l ih =>
    have first := linked.updateTransactionFromBlock within vHashesToUpdate cache hash
    rw [foldl_cons]
    generalize TxMemPool.updateTransactionFromBlock vHashesToUpdate (pool, cache) hash = s at first
    have same : Rejoined vHashesToUpdate s.1 = Rejoined vHashesToUpdate pool := by
      funext p c
      rw [Rejoined, Rejoined, first.spendersIn, first.mem]
    have within' : s.1.SpendersWithin := fun o tx found =>
      first.mem.mpr (within o tx (by rwa [show s.1.mapNextTx = pool.mapNextTx from congrArg Prod.fst first.indexes] at found))
    refine (first.trans (ih first.linked within' s.2)).congr fun p c => ?_
    rw [same, ← or_and_right, mem_cons]

theorem Linked.updateTransactionsFromBlock (vHashesToUpdate : List Uint256) :
    Relinked (fun p c => p ∈ vHashesToUpdate ∧ Rejoined vHashesToUpdate pool p c) pool
      (pool.updateTransactionsFromBlock vHashesToUpdate) :=
  (linked.foldl_updateTransactionFromBlock within vHashesToUpdate.reverse ∅).congr fun p c => by rw [mem_reverse]

end

end Qrax.TxMemPool
