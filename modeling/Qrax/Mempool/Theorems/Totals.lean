import Qrax.Mempool.Theorems.Removal

open KeyedUpdate Relation Ancestry Finset Option UniqueList

namespace Qrax.TxMemPool

open CTxMemPoolEntry (Ancestors Descendants null parentHashes)

variable [Crypto] {pool pool' : TxMemPool} {h p c : Uint256}

def Spends (pool : TxMemPool) (p c : Uint256) : Prop :=
  p ∈ pool.mapTx ∧ ∃ e, pool.mapTx.find c = some e ∧ p ∈ e.parentHashes

-- The links are those of the transactions, the totals those over ancestors and descendants.
structure Exact (pool : TxMemPool) : Prop extends pool.Linked where
  spends : ∀ p c, pool.Parent p c ↔ pool.Spends p c
  ancestors : ∀ h e, pool.mapTx.find h = some e → e.ancestorState = upTotal pool.keys pool.Spends pool.ancestorWeight h
  descendants : ∀ h e, pool.mapTx.find h = some e →
    e.descendantState = downTotal pool.keys pool.Spends pool.descendantWeight h

theorem Exact.parent_eq (exact : pool.Exact) : pool.Parent = pool.Spends :=
  funext fun p => funext fun c => propext (exact.spends p c)

theorem Exact.congr (exact : pool.Exact) (mapTx : pool'.mapTx = pool.mapTx) (mapLinks : pool'.mapLinks = pool.mapLinks) :
    pool'.Exact := by
  cases pool
  cases pool'
  cases mapTx
  cases mapLinks
  obtain ⟨⟨domain, children, within⟩, spends, ancestors, descendants⟩ := exact
  exact ⟨⟨domain, children, within⟩, spends, ancestors, descendants⟩

def Leaves (s : Finset Uint256) (pool pool' : TxMemPool) : Prop :=
  ∀ h, (pool'.mapTx.find h).map (·.body) = if h ∈ s then none else (pool.mapTx.find h).map (·.body)

namespace Leaves

variable {s : Finset Uint256} (leaves : Leaves s pool pool')

include leaves

theorem found {e' : CTxMemPoolEntry} (found' : pool'.mapTx.find h = some e') :
    h ∉ s ∧ ∃ e, pool.mapTx.find h = some e ∧ e'.body = e.body := by
  have eq := leaves h
  rw [found', map_some] at eq
  split at eq
  case isTrue => cases eq
  case isFalse out =>
    have ⟨e, found, same⟩ := map_eq_some_iff.mp eq.symm
    exact ⟨out, e, found, same.symm⟩

theorem stays {e : CTxMemPoolEntry} (found : pool.mapTx.find h = some e) (out : h ∉ s) :
    ∃ e', pool'.mapTx.find h = some e' ∧ e'.body = e.body := by
  have eq := leaves h
  rw [if_neg out, found, map_some] at eq
  exact map_eq_some_iff.mp eq

theorem mem : h ∈ pool'.mapTx ↔ h ∉ s ∧ h ∈ pool.mapTx := by
  simp only [IndexedTransactionSet.mem_iff]
  constructor
  case mp =>
    intro ⟨e', found'⟩
    have ⟨out, e, found, _⟩ := leaves.found found'
    exact ⟨out, e, found⟩
  case mpr =>
    intro ⟨out, e, found⟩
    have ⟨e', found', _⟩ := leaves.stays found out
    exact ⟨e', found'⟩

theorem keys : pool'.keys = pool.keys \ s := by
  ext h
  rw [mem_sdiff, mem_keys, mem_keys, leaves.mem, and_comm]

theorem ancestorWeight (out : h ∉ s) : pool'.ancestorWeight h = pool.ancestorWeight h := by
  have read (pool : TxMemPool) :
      pool.ancestorWeight h = (((pool.mapTx.find h).map (·.body)).getD null.body).2 := by
    rw [TxMemPool.ancestorWeight, entry, getD_map]
    rfl
  rw [read, read, leaves, if_neg out]

theorem descendantWeight (out : h ∉ s) : pool'.descendantWeight h = pool.descendantWeight h :=
  congrArg Ancestors.toDescendants (leaves.ancestorWeight out)

theorem spends : Restricts s pool.Spends pool'.Spends := by
  intro p c
  simp only [Spends, leaves.mem]
  constructor
  case mp =>
    rintro ⟨⟨out, mem⟩, e', found', parent⟩
    obtain ⟨outC, e, found, same⟩ := leaves.found found'
    have tx : e'.tx = e.tx := congrArg Prod.fst same
    exact ⟨out, outC, mem, e, found, by rwa [parentHashes, tx] at parent⟩
  case mpr =>
    rintro ⟨out, outC, mem, e, found, parent⟩
    obtain ⟨e', found', same⟩ := leaves.stays found outC
    have tx : e'.tx = e.tx := congrArg Prod.fst same
    exact ⟨⟨out, mem⟩, e', found', by rwa [parentHashes, tx]⟩

end Leaves

def Shrinks (pool pool' : TxMemPool) : Prop :=
  ∃ s, Leaves s pool pool'

theorem Shrinks.refl (pool : TxMemPool) : Shrinks pool pool :=
  ⟨∅, fun h => by simp⟩

theorem Shrinks.trans {pool'' : TxMemPool} (first : Shrinks pool pool') (second : Shrinks pool' pool'') :
    Shrinks pool pool'' := by
  have ⟨s, leaves⟩ := first
  have ⟨s', leaves'⟩ := second
  refine ⟨s ∪ s', fun h => ?_⟩
  rw [leaves', leaves]
  grind

theorem Shrinks.mem (shrinks : Shrinks pool pool') (mem : h ∈ pool'.mapTx) : h ∈ pool.mapTx := by
  have ⟨_, leaves⟩ := shrinks
  exact (leaves.mem.mp mem).right

theorem Shrinks.spends (shrinks : Shrinks pool pool') (spends : pool'.Spends p c) : pool.Spends p c := by
  have ⟨_, leaves⟩ := shrinks
  exact ((leaves.spends p c).mp spends).right.right

theorem Removed.leaves {s : SetEntries} (removed : Removed s pool pool') : Leaves s.toFinset pool pool' := by
  intro h
  rw [removed.find]
  simp only [UniqueList.mem_toFinset]
  split
  case isTrue => rfl
  case isFalse => rw [Option.map_map]; rfl

theorem Removed.found {s : SetEntries} (removed : Removed s pool pool') {e' : CTxMemPoolEntry}
    (found' : pool'.mapTx.find h = some e') :
    h ∉ s ∧ ∃ e, pool.mapTx.find h = some e ∧ e' = e.addDescendants (-pool.weightBelow s.toList h) := by
  rw [removed.find] at found'
  split at found'
  case isTrue => cases found'
  case isFalse out =>
    have ⟨e, found, eq⟩ := map_eq_some_iff.mp found'
    exact ⟨out, e, found, eq.symm⟩

section

open Classical in
theorem weightBelow_eq {s : SetEntries} (out : h ∉ s) :
    pool.weightBelow s.toList h = ∑ b ∈ s.toFinset with ReflTransGen pool.Parent h b, pool.descendantWeight b := by
  rw [weightBelow, sum_filter, UniqueList.sum_toList]
  refine sum_congr rfl fun b mem => ?_
  have ne : b ≠ h := fun eq => out (eq ▸ mem_toFinset.mp mem)
  have strict : ReflTransGen pool.Parent h b ↔ TransGen pool.Parent h b := by
    rw [reflTransGen_iff_eq_or_transGen, or_iff_right ne]
  simp only [strict]

theorem Closed.closedBelow {s : SetEntries} (closed : pool.Closed s) : ClosedBelow s.toFinset pool.Parent :=
  fun p c parent mem => (closed p mem).right c parent

theorem Exact.removeClosed {s : SetEntries} (exact : pool.Exact) (closed : pool.Closed s) (removed : Removed s pool pool') :
    pool'.Exact := by
  have restricts := removed.leaves.spends
  have below : ClosedBelow s.toFinset pool.Spends := exact.parent_eq ▸ closed.closedBelow
  have sub : s.toFinset ⊆ pool.keys := fun r mem => mem_keys.mpr (closed r mem).left
  refine ⟨removed.linked, fun p c => ?_, fun h e' found' => ?_, fun h e' found' => ?_⟩
  case refine_1 =>
    rw [removed.parent, exact.spends]
    exact (restricts p c).symm
  all_goals
    have ⟨out, e, found, eq⟩ := removed.found found'
    rw [eq, removed.leaves.keys]
  case refine_2 =>
    rw [CTxMemPoolEntry.ancestorState_addDescendants, exact.ancestors h e found]
    exact (upTotal_below restricts below (fun _ => removed.leaves.ancestorWeight) out).symm
  case refine_3 =>
    have split := downTotal_below (x := h) restricts below (fun _ => removed.leaves.descendantWeight) sub
    rw [CTxMemPoolEntry.descendantState_addDescendants, exact.descendants h e found, weightBelow_eq out, exact.parent_eq,
      ← sub_eq_add_neg]
    exact sub_eq_of_eq_add split.symm

end

open Classical in
theorem find_updateDescendantsForRemoval (linked : pool.Linked) {r : Uint256} (mem : r ∈ pool.mapTx) (h : Uint256) :
    (pool.updateDescendantsForRemoval r).mapTx.find h =
      (pool.mapTx.find h).map (·.addAncestors (if h ≠ r ∧ ReflTransGen pool.Parent r h then -pool.ancestorWeight r else 0)) := by
  have found (x : Uint256) : x ∈ (pool.calculateDescendants r ∅).erase r ↔ x ≠ r ∧ ReflTransGen pool.Parent r x := by
    rw [UniqueList.mem_erase, linked.mem_calculateDescendants mem closed_empty]
    simp
  unfold updateDescendantsForRemoval
  dsimp only
  rw [find_foldl_modify (nodup _)]
  simp only [UniqueList.mem_toList, found]
  split
  case isTrue => rfl
  case isFalse => simp

theorem mapLinks_updateDescendantsForRemoval (pool : TxMemPool) (r : Uint256) :
    (pool.updateDescendantsForRemoval r).mapLinks = pool.mapLinks :=
  foldl_modify_mapLinks

open Classical in
-- The entry `r`, which depends on no other, is gone, and none counts or knows it.
structure Confirmed (r : Uint256) (pool pool' : TxMemPool) : Prop where
  find : ∀ h, pool'.mapTx.find h = if h = r then none else
    (pool.mapTx.find h).map (·.addAncestors (if ReflTransGen pool.Parent r h then -pool.ancestorWeight r else 0))
  parent : ∀ p c, pool'.Parent p c ↔ p ≠ r ∧ c ≠ r ∧ pool.Parent p c
  linked : pool'.Linked

open Classical in
theorem Linked.confirmed (linked : pool.Linked) {r : Uint256} (mem : r ∈ pool.mapTx) (top : ClosedAbove {r} pool.Parent) :
    Confirmed r pool (pool.removeStaged (insert ∅ r) true) := by
  have found₁ := find_updateDescendantsForRemoval linked mem
  have links₁ := mapLinks_updateDescendantsForRemoval pool r
  change Confirmed r pool ((pool.updateDescendantsForRemoval r).removeStaged (insert ∅ r) false)
  generalize pool.updateDescendantsForRemoval r = pool₁ at found₁ links₁
  have same : SameBodies pool pool₁ := .of_map found₁ fun _ _ => rfl
  have removed := (linked.congr links₁ fun _ => same.mem).removeStaged (s := insert ∅ r)
    (by simpa using same.mem.mpr mem)
  have single (x : Uint256) : x ∈ insert (∅ : SetEntries) r ↔ x = r := by simp
  have parent₁ : pool₁.Parent = pool.Parent := by
    funext p c
    simp only [Parent, getMemPoolParents, getLinks, links₁]
  refine ⟨fun h => ?_, fun p c => ?_, removed.linked⟩
  case refine_2 => rw [removed.parent, single, single, parent₁]
  case refine_1 =>
    rw [removed.find, found₁]
    simp only [single]
    split
    case isTrue => rfl
    case isFalse ne =>
      -- nothing that is left has `r` below it
      have none_below : ∑ b ∈ (insert (∅ : SetEntries) r).toFinset with ReflTransGen pool₁.Parent h b,
          pool₁.descendantWeight b = 0 := by
        refine sum_eq_zero fun b below => ?_
        rw [mem_filter, UniqueList.mem_toFinset, single, parent₁] at below
        have := top.reach (below.left ▸ below.right) (mem_singleton_self r)
        exact absurd (mem_singleton.mp this) ne
      rw [weightBelow_eq ((single h).not.mpr ne), none_below, Option.map_map]
      simp [Function.comp_def, ne]

theorem Confirmed.leaves {r : Uint256} (confirmed : Confirmed r pool pool') : Leaves {r} pool pool' := by
  intro h
  rw [confirmed.find]
  simp only [mem_singleton]
  split
  case isTrue => rfl
  case isFalse => rw [Option.map_map]; rfl

theorem Exact.removeConfirmed (exact : pool.Exact) {r : Uint256} (mem : r ∈ pool.mapTx) (top : ∀ p, pool.Spends p r → p = r) :
    (pool.removeStaged (insert ∅ r) true).Exact ∧ Leaves {r} pool (pool.removeStaged (insert ∅ r) true) := by
  classical
  have above : ClosedAbove {r} pool.Spends := by
    intro a b spends mem
    rw [mem_singleton] at mem ⊢
    exact top a (mem ▸ spends)
  have confirmed := exact.toLinked.confirmed mem (exact.parent_eq ▸ above)
  generalize pool.removeStaged (insert ∅ r) true = pool' at confirmed
  have restricts := confirmed.leaves.spends
  have sub : {r} ⊆ pool.keys := singleton_subset_iff.mpr (mem_keys.mpr mem)
  refine ⟨⟨confirmed.linked, fun p c => ?_, fun h e' found' => ?_, fun h e' found' => ?_⟩, confirmed.leaves⟩
  case refine_1 =>
    rw [confirmed.parent, exact.spends, restricts, mem_singleton, mem_singleton]
  all_goals
    rw [confirmed.find, ite_none_left_eq_some] at found'
    obtain ⟨ne, found'⟩ := found'
    obtain ⟨e, found, eq⟩ := map_eq_some_iff.mp found'
    have out : h ∉ ({r} : Finset Uint256) := notMem_singleton.mpr ne
    rw [← eq, confirmed.leaves.keys]
  case refine_2 =>
    have split := upTotal_above (x := h) restricts above (fun _ => confirmed.leaves.ancestorWeight) sub
    rw [CTxMemPoolEntry.ancestorState_addAncestors, exact.ancestors h e found, ← split, exact.parent_eq,
      sum_filter, sum_singleton]
    split <;> simp
  case refine_3 =>
    rw [CTxMemPoolEntry.descendantState_addAncestors, exact.descendants h e found]
    exact (downTotal_above restricts above (fun _ => confirmed.leaves.descendantWeight) out).symm

end Qrax.TxMemPool
