import Qrax.Mempool.Theorems.Exactness

open KeyedUpdate Relation Ancestry Option

namespace Qrax

open IndexedTransactionSet CTxMemPoolEntry Ancestors

namespace CTxMemPoolEntry

variable (e : CTxMemPoolEntry) (delta : CAmount)

def Ancestors.ofFee (fee : CAmount) : Ancestors :=
  (0, 0, fee, 0)

def Descendants.ofFee (fee : CAmount) : Descendants :=
  (0, 0, fee)

theorem asAncestor_updateFeeDelta :
    (e.updateFeeDelta delta).asAncestor = e.asAncestor + ofFee (delta - e.feeDelta) := by
  simp only [asAncestor, getModifiedFee, updateFeeDelta, ofFee, Prod.mk_add_mk, add_zero, Prod.mk.injEq, true_and,
    and_true]
  exact (add_add_sub_cancel ..).symm

theorem ancestorState_updateFeeDelta :
    (e.updateFeeDelta delta).ancestorState = e.ancestorState + ofFee (delta - e.feeDelta) := by
  simp [ancestorState, updateFeeDelta, ofFee]

theorem descendantState_updateFeeDelta :
    (e.updateFeeDelta delta).descendantState = e.descendantState + Descendants.ofFee (delta - e.feeDelta) := by
  simp [descendantState, updateFeeDelta, Descendants.ofFee]

theorem Ancestors.ofFee_eq_zero {fee : CAmount} : ofFee fee = 0 ↔ fee = 0 := by
  simp [ofFee, Prod.ext_iff]

theorem Descendants.ofFee_inj {fee fee' : CAmount} : Descendants.ofFee fee = Descendants.ofFee fee' ↔ fee = fee' := by
  simp [ofFee]

end CTxMemPoolEntry

namespace TxMemPool


variable [Crypto] {pool pool' : TxMemPool} {hash h : Uint256} {nFeeDelta : CAmount}

def feeChange (pool : TxMemPool) (hash : Uint256) (nFeeDelta : CAmount) : CAmount :=
  (pool.mapDeltas.lookup hash).getD 0 + nFeeDelta - (pool.entry hash).feeDelta

theorem Linked.mem_ancestorsOf_modify (linked : pool.Linked) (mem : hash ∈ pool.mapTx) (f : CTxMemPoolEntry → CTxMemPoolEntry)
    (keeps : ∀ e, (f e).tx = e.tx) (a : Uint256) :
    a ∈ (pool.modify hash f keeps).ancestorsOf hash ↔ TransGen pool.Parent a hash := by
  have same (x : Uint256) : x ∈ (pool.modify hash f keeps).mapTx ↔ x ∈ pool.mapTx := by
    simp only [mem_iff, find_modify]
    split <;> simp_all
  have linked' : (pool.modify hash f keeps).Linked := linked.congr rfl same
  exact linked'.within.mem_ancestorsOf ((same hash).mpr mem) a

section

variable (pool hash nFeeDelta)

open Classical in
noncomputable def repriced (h : Uint256) (e : CTxMemPoolEntry) : CTxMemPoolEntry :=
  (if h = hash then e.updateFeeDelta ((pool.mapDeltas.lookup hash).getD 0 + nFeeDelta) else e).addDescendants
    (if TransGen pool.Parent h hash then Descendants.ofFee nFeeDelta else 0)

end

section

variable (linked : pool.Linked) (mem : hash ∈ pool.mapTx)

include linked mem

open Classical in
theorem find_prioritiseTransaction (nFeeDelta : CAmount) (h : Uint256) :
    (pool.prioritiseTransaction hash nFeeDelta).mapTx.find h =
      (pool.mapTx.find h).map (pool.repriced hash nFeeDelta h) := by
  have linked' (mapDeltas : AList fun _ : Uint256 => CAmount) : ({ pool with mapDeltas } : TxMemPool).Linked :=
    linked.congr rfl fun _ => Iff.rfl
  unfold prioritiseTransaction
  dsimp only
  rw [if_pos mem, find_foldl_modify (UniqueList.nodup _)]
  generalize AList.insert hash _ pool.mapDeltas = mapDeltas
  refine (if_congr (UniqueList.mem_toList.trans ((linked' mapDeltas).mem_ancestorsOf_modify mem _ _ h)) rfl rfl).trans ?_
  simp only [find_modify]
  change ite (TransGen pool.Parent h hash) _ _ = _
  cases found : pool.mapTx.find h
  case none =>
    have ne : h ≠ hash := by
      rintro rfl
      exact absurd mem (by simp [mem_iff, found])
    simp [ne]
  case some e =>
    have entered : (if h = hash then (pool.mapTx.find hash).map
        (·.updateFeeDelta ((pool.mapDeltas.lookup hash).getD 0 + nFeeDelta)) else some e) =
          some (if h = hash then e.updateFeeDelta ((pool.mapDeltas.lookup hash).getD 0 + nFeeDelta) else e) := by
      split
      case isTrue eq => rw [← eq, found, map_some]
      case isFalse => rfl
    rw [entered, map_some, map_some, repriced]
    split
    case isTrue => rfl
    case isFalse => rw [addDescendants_zero]

theorem sameTxs_prioritiseTransaction (nFeeDelta : CAmount) (h : Uint256) :
    ((pool.prioritiseTransaction hash nFeeDelta).mapTx.find h).map (·.tx) = (pool.mapTx.find h).map (·.tx) := by
  rw [find_prioritiseTransaction linked mem, Option.map_map]
  refine congrArg (Option.map · _) (funext fun e => ?_)
  simp only [Function.comp_apply, repriced]
  split <;> rfl

theorem ancestorWeight_prioritiseTransaction (nFeeDelta : CAmount) (h : Uint256) :
    (pool.prioritiseTransaction hash nFeeDelta).ancestorWeight h =
      pool.ancestorWeight h + if h = hash then ofFee (pool.feeChange hash nFeeDelta) else 0 := by
  rw [ancestorWeight, ancestorWeight, entry, entry, find_prioritiseTransaction linked mem]
  cases found : pool.mapTx.find h
  case none =>
    have ne : h ≠ hash := by
      rintro rfl
      exact absurd mem (by simp [mem_iff, found])
    rw [if_neg ne, add_zero]
    rfl
  case some e =>
    rw [map_some, getD_some, getD_some]
    change (if h = hash then _ else _ : CTxMemPoolEntry).asAncestor = _
    split
    case isFalse => rw [add_zero]
    case isTrue eq => rw [asAncestor_updateFeeDelta, feeChange, ← eq, entry_of_find found]

end

theorem ancestorState_repriced (nFeeDelta : CAmount) {e : CTxMemPoolEntry} (found : pool.mapTx.find h = some e) :
    (pool.repriced hash nFeeDelta h e).ancestorState =
      e.ancestorState + if h = hash then ofFee (pool.feeChange hash nFeeDelta) else 0 := by
  rw [repriced, ancestorState_addDescendants]
  split
  case isFalse => rw [add_zero]
  case isTrue eq => rw [ancestorState_updateFeeDelta, feeChange, ← eq, entry_of_find found]

open Classical in
theorem descendantState_repriced (nFeeDelta : CAmount) {e : CTxMemPoolEntry} (found : pool.mapTx.find h = some e) :
    (pool.repriced hash nFeeDelta h e).descendantState =
      e.descendantState + (if h = hash then Descendants.ofFee (pool.feeChange hash nFeeDelta) else 0) +
        if TransGen pool.Parent h hash then Descendants.ofFee nFeeDelta else 0 := by
  rw [repriced, descendantState_addDescendants]
  refine congrArg (· + _) ?_
  split
  case isFalse => rw [add_zero]
  case isTrue eq => rw [descendantState_updateFeeDelta, feeChange, ← eq, entry_of_find found]

theorem spends_congr (same : ∀ h, (pool'.mapTx.find h).map (·.tx) = (pool.mapTx.find h).map (·.tx)) :
    pool'.Spends = pool.Spends := by
  have reads (pool : TxMemPool) (p c : Uint256) : pool.Spends p c ↔ ((pool.mapTx.find p).map (·.tx)).isSome ∧
      ∃ tx, (pool.mapTx.find c).map (·.tx) = some tx ∧ p ∈ tx.vin.map (·.prevout.hash) := by
    rw [Spends, isSome_map]
    refine and_congr Iff.rfl ⟨?_, ?_⟩
    · rintro ⟨e, found, parent⟩
      exact ⟨e.tx, by rw [found, map_some], parent⟩
    · rintro ⟨tx, found, parent⟩
      obtain ⟨e, found, eq⟩ := map_eq_some_iff.mp found
      exact ⟨e, found, by rwa [parentHashes, eq]⟩
  funext p c
  exact propext ((reads pool' p c).trans (by rw [same, same, ← reads]))

section

variable (exact : pool.Exact) (mem : hash ∈ pool.mapTx) (nFeeDelta : CAmount)

include exact mem

open Classical in
theorem upTotal_prioritiseTransaction (h : Uint256) :
    upTotal pool.keys pool.Spends (pool.prioritiseTransaction hash nFeeDelta).ancestorWeight h =
      upTotal pool.keys pool.Spends pool.ancestorWeight h +
        if ReflTransGen pool.Spends hash h then ofFee (pool.feeChange hash nFeeDelta) else 0 :=
  sum_reweighed (mem_keys.mpr mem) fun a => ancestorWeight_prioritiseTransaction exact.toLinked mem nFeeDelta a

open Classical in
theorem downTotal_prioritiseTransaction (h : Uint256) :
    downTotal pool.keys pool.Spends (pool.prioritiseTransaction hash nFeeDelta).descendantWeight h =
      downTotal pool.keys pool.Spends pool.descendantWeight h +
        if ReflTransGen pool.Spends h hash then Descendants.ofFee (pool.feeChange hash nFeeDelta) else 0 := by
  refine sum_reweighed (mem_keys.mpr mem) fun a => ?_
  have weight := congrArg toDescendants (ancestorWeight_prioritiseTransaction exact.toLinked mem nFeeDelta a)
  refine weight.trans ?_
  split <;> rfl

theorem ancestors_prioritiseTransaction {e : CTxMemPoolEntry} (found : pool.mapTx.find h = some e) :
    (pool.repriced hash nFeeDelta h e).ancestorState =
        upTotal pool.keys pool.Spends (pool.prioritiseTransaction hash nFeeDelta).ancestorWeight h ↔
      (TransGen pool.Spends hash h → h = hash ∨ pool.feeChange hash nFeeDelta = 0) := by
  classical
  rw [upTotal_prioritiseTransaction exact mem, ancestorState_repriced nFeeDelta found, exact.ancestors h e found,
    add_right_inj]
  simp only [reflTransGen_iff_eq_or_transGen]
  by_cases eq : h = hash
  case pos => simp [eq]
  case neg =>
    simp only [eq, false_or, if_false]
    rw [eq_comm, ite_eq_right_iff, ofFee_eq_zero]

-- The entries it depends on are told the delta, not the change; on a cycle it is told itself.
theorem descendants_prioritiseTransaction {e : CTxMemPoolEntry} (found : pool.mapTx.find h = some e) :
    (pool.repriced hash nFeeDelta h e).descendantState =
        downTotal pool.keys pool.Spends (pool.prioritiseTransaction hash nFeeDelta).descendantWeight h ↔
      (TransGen pool.Spends h hash →
        if h = hash then nFeeDelta = 0 else pool.feeChange hash nFeeDelta = nFeeDelta) := by
  classical
  rw [downTotal_prioritiseTransaction exact mem, descendantState_repriced nFeeDelta found, exact.descendants h e found,
    add_assoc, add_right_inj, exact.parent_eq]
  simp only [reflTransGen_iff_eq_or_transGen]
  by_cases eq : h = hash
  case pos =>
    simp only [eq, true_or, if_true, add_eq_left, ite_eq_right_iff]
    exact forall_congr' fun _ => Descendants.ofFee_inj
  case neg =>
    simp only [eq, Ne.symm eq, false_or, if_false, zero_add]
    by_cases above : TransGen pool.Spends h hash
    case pos => simp [above, Descendants.ofFee_inj, eq_comm]
    case neg => simp [above]

theorem prioritiseTransaction_exact_iff : (pool.prioritiseTransaction hash nFeeDelta).Exact ↔
    (∀ h, TransGen pool.Spends h hash →
      if h = hash then nFeeDelta = 0 else pool.feeChange hash nFeeDelta = nFeeDelta) ∧
    ∀ h, TransGen pool.Spends hash h → h = hash ∨ pool.feeChange hash nFeeDelta = 0 := by
  have same := sameTxs_prioritiseTransaction exact.toLinked mem nFeeDelta
  have find := find_prioritiseTransaction exact.toLinked mem nFeeDelta
  have up {h : Uint256} {e : CTxMemPoolEntry} (found : pool.mapTx.find h = some e) :=
    ancestors_prioritiseTransaction exact mem nFeeDelta found
  have down {h : Uint256} {e : CTxMemPoolEntry} (found : pool.mapTx.find h = some e) :=
    descendants_prioritiseTransaction exact mem nFeeDelta found
  have links : (pool.prioritiseTransaction hash nFeeDelta).mapLinks = pool.mapLinks := by
    rw [prioritiseTransaction, if_pos mem, foldl_modify_mapLinks]
    rfl
  generalize pool.prioritiseTransaction hash nFeeDelta = pool' at *
  have spends := spends_congr same
  have present (h : Uint256) : h ∈ pool'.mapTx ↔ h ∈ pool.mapTx := by
    simp only [IndexedTransactionSet.mem_iff, find]
    simp
  have keys : pool'.keys = pool.keys := by
    ext h
    rw [mem_keys, mem_keys, present]
  have within {a b : Uint256} (path : TransGen pool.Spends a b) : a ∈ pool.mapTx ∧ b ∈ pool.mapTx := by
    obtain ⟨_, first, _⟩ := TransGen.head'_iff.mp path
    obtain ⟨_, _, last⟩ := TransGen.tail'_iff.mp path
    exact ⟨first.left, IndexedTransactionSet.mem_iff.mpr (last.right.imp fun _ => And.left)⟩
  constructor
  case mp =>
    intro exact'
    refine ⟨fun h path => ?_, fun h path => ?_⟩
    case refine_1 =>
      obtain ⟨e, found⟩ := IndexedTransactionSet.mem_iff.mp (within path).left
      have total := exact'.descendants h _ ((find h).trans (congrArg _ found))
      exact (down found).mp (by rwa [keys, spends] at total) path
    case refine_2 =>
      obtain ⟨e, found⟩ := IndexedTransactionSet.mem_iff.mp (within path).right
      have total := exact'.ancestors h _ ((find h).trans (congrArg _ found))
      exact (up found).mp (by rwa [keys, spends] at total) path
  case mpr =>
    intro ⟨above, below⟩
    have linked := exact.toLinked.congr links present
    refine ⟨linked, fun p c => ?_, fun h e' found' => ?_, fun h e' found' => ?_⟩
    case refine_1 =>
      rw [spends, ← exact.spends]
      simp only [Parent, getMemPoolParents, getLinks, links]
    all_goals
      rw [find] at found'
      obtain ⟨e, found, eq⟩ := Option.map_eq_some_iff.mp found'
      rw [← eq, keys, spends]
    case refine_2 => exact (up found).mpr (below h)
    case refine_3 => exact (down found).mpr (above h)

end

end TxMemPool

section

attribute [local instance] Crypto.toy

open TxMemPool

theorem prioritiseTransaction_exact_child : chainPool.Exact ∧ (chainPool.prioritiseTransaction childTx.getHash 1).Exact := by
  have mem : childTx.getHash ∈ chainPool.mapTx := by decide
  have exact := exact_chainPool
  have above := exact.within.mem_ancestorsOf mem
  have below := exact.toLinked.mem_calculateDescendants mem closed_empty
  rw [exact.parent_eq] at above below
  refine ⟨exact, (prioritiseTransaction_exact_iff exact mem 1).mpr ⟨fun h path => ?_, fun h path => .inl ?_⟩⟩
  case refine_1 =>
    have ne : h ≠ childTx.getHash := by
      rintro rfl
      exact absurd ((above _).mpr path) (by decide)
    rw [if_neg ne]
    decide
  case refine_2 =>
    have found : h ∈ (chainPool.calculateDescendants childTx.getHash ∅).toList := (below h).mpr (.inr path.to_reflTransGen)
    have only : (chainPool.calculateDescendants childTx.getHash ∅).toList = [childTx.getHash] := by decide
    exact List.mem_singleton.mp (only ▸ found)

-- The first one is, and the others miss its new fee.
theorem prioritiseTransaction_not_exact : chainPool.Exact ∧ grandparentTx.getHash ∈ chainPool.mapTx ∧
    ¬(chainPool.prioritiseTransaction grandparentTx.getHash 1).Exact := by
  refine ⟨exact_chainPool, by decide, fun exact => ?_⟩
  have total := exact.ancestorState_entry (h := childTx.getHash) (by decide) (by decide)
  exact absurd total (by decide)

end

end Qrax
