import Qrax.Mempool.Theorems.Totals

open KeyedUpdate Relation Ancestry Finset Option

namespace Qrax

open IndexedTransactionSet

structure CTxMemPoolEntry.Alone (e : CTxMemPoolEntry) : Prop where
  ancestors : e.ancestorState = e.asAncestor
  descendants : e.descendantState = e.asDescendant

theorem CTxMemPoolEntry.alone_new (tx : CTransaction) (nFee : CAmount) (nTime : ℤ) (spends : Bool) (sigOps : UInt32) :
    (new tx nFee nTime spends sigOps).Alone := by
  constructor <;> simp [new, ancestorState, descendantState, asAncestor, asDescendant, Ancestors.toDescendants, getModifiedFee]

theorem CTxMemPoolEntry.Alone.updateFeeDelta {e : CTxMemPoolEntry} (alone : e.Alone) (delta : CAmount) :
    (e.updateFeeDelta delta).Alone := by
  have ⟨ancestors, descendants⟩ := alone
  simp only [ancestorState, descendantState, asAncestor, asDescendant, Ancestors.toDescendants, getModifiedFee,
    Prod.mk.injEq] at ancestors descendants
  constructor
  case ancestors =>
    simp only [CTxMemPoolEntry.updateFeeDelta, ancestorState, asAncestor, getModifiedFee, ancestors, Prod.mk.injEq, true_and,
      and_true]
    exact add_add_sub_cancel ..
  case descendants =>
    simp only [CTxMemPoolEntry.updateFeeDelta, descendantState, asDescendant, asAncestor, Ancestors.toDescendants,
      getModifiedFee, descendants, Prod.mk.injEq, true_and]
    exact add_add_sub_cancel ..

namespace TxMemPool

open CTxMemPoolEntry (Ancestors Descendants asAncestor parentHashes)

variable [Crypto] {pool pool' : TxMemPool} {h p c : Uint256}

def applyDelta (pool : TxMemPool) (hash : Uint256) (e : CTxMemPoolEntry) : CTxMemPoolEntry :=
  match pool.mapDeltas.lookup hash with
  | some delta => if delta = 0 then e else e.updateFeeDelta delta
  | none => e

theorem tx_applyDelta (pool : TxMemPool) (hash : Uint256) (e : CTxMemPoolEntry) : (pool.applyDelta hash e).tx = e.tx := by
  unfold applyDelta
  split
  case h_1 => split <;> rfl
  case h_2 => rfl

variable {e : CTxMemPoolEntry} {newit : Uint256} {tx : CTransaction}

theorem alone_applyDelta {hash : Uint256} (alone : e.Alone) : (pool.applyDelta hash e).Alone := by
  unfold applyDelta
  split
  case h_2 => exact alone
  case h_1 =>
    split
    case isTrue => exact alone
    case isFalse => exact alone.updateFeeDelta _

theorem find_insertEntry (hash : Uint256) (new : e.tx.getHash ∉ pool.mapTx) (x : Uint256) :
    (pool.insertEntry hash e).mapTx.find x =
      if x = e.tx.getHash then some (pool.applyDelta hash e) else pool.mapTx.find x := by
  have absent : pool.mapTx.find e.tx.getHash = none := by
    rwa [← not_isSome_iff_eq_none]
  have inserted (x : Uint256) : (pool.mapTx.insert e).find x = if x = e.tx.getHash then some e else pool.mapTx.find x := by
    rw [find_insert, absent, getD_none]
  unfold insertEntry applyDelta
  dsimp only
  cases pool.mapDeltas.lookup hash
  case none => exact inserted x
  case some delta =>
    dsimp only
    split
    case isTrue => exact inserted x
    case isFalse =>
      rw [find_modify]
      simp only [inserted, if_true, map_some]
      split <;> rfl

theorem mapLinks_insertEntry (pool : TxMemPool) (hash : Uint256) (e : CTxMemPoolEntry) :
    (pool.insertEntry hash e).mapLinks = emplace pool.mapLinks e.tx.getHash {} := by
  unfold insertEntry
  dsimp only
  split
  case h_1 => split <;> rfl
  case h_2 => rfl

theorem mem_parents_linkParents : p ∈ (pool.linkParents newit tx).getMemPoolParents c ↔
    pool.Parent p c ∨ c = newit ∧ p ∈ tx.vin.map (·.prevout.hash) ∧ p ∈ pool.mapTx := by
  have fold (l : List Uint256) : p ∈ (l.foldl (fun pool phash =>
      if phash ∈ pool.mapTx then pool.updateParent newit phash true else pool) pool).getMemPoolParents c ↔
        pool.Parent p c ∨ c = newit ∧ p ∈ l ∧ p ∈ pool.mapTx := by
    induction l generalizing pool
    case nil => simp
    case cons phash l ih =>
      rw [List.foldl_cons, ih]
      split
      case isFalse => grind
      case isTrue mem =>
        rw [Parent, mem_parents_updateParent, if_pos rfl]
        have same : (pool.updateParent newit phash true).mapTx = pool.mapTx := rfl
        grind
  rw [linkParents, fold, UniqueList.mem_toList, UniqueList.mem_ofList]

theorem linkParents_keeps {δ : Type} (π : TxMemPool → δ)
    (keeps : ∀ pool phash, π (updateParent pool newit phash true) = π pool) : π (pool.linkParents newit tx) = π pool := by
  apply foldl_list_keeps π
  intro pool phash
  split
  case isTrue => exact keeps pool phash
  case isFalse => rfl

theorem mem_mapLinks_linkParents (mem : newit ∈ pool.mapLinks) :
    h ∈ (pool.linkParents newit tx).mapLinks ↔ h ∈ pool.mapLinks := by
  have fold (l : List Uint256) : h ∈ (l.foldl (fun pool phash =>
      if phash ∈ pool.mapTx then pool.updateParent newit phash true else pool) pool).mapLinks ↔ h ∈ pool.mapLinks := by
    induction l generalizing pool
    case nil => simp
    case cons phash l ih =>
      rw [List.foldl_cons]
      split
      case isFalse => exact ih mem
      case isTrue =>
        rw [ih (mem_mapLinks_updateParent.mpr (.inr mem)), mem_mapLinks_updateParent]
        grind
  exact fold _

theorem sum_ancestorWeight (pool : TxMemPool) (l : List Uint256) : (l.map pool.ancestorWeight).sum =
    (UInt64.ofNat l.length, (l.map fun a => (pool.entry a).nTxSize).sum, (l.map fun a => (pool.entry a).getModifiedFee).sum,
      (l.map fun a => (pool.entry a).sigOpCount).sum) := by
  induction l
  case nil => rfl
  case cons a l ih =>
    rw [List.map_cons, List.sum_cons, ih]
    simp [ancestorWeight, asAncestor, add_comm]

theorem find_updateEntryForAncestors (pool : TxMemPool) (it : Uint256) (setAncestors : SetEntries) (x : Uint256) :
    (pool.updateEntryForAncestors it setAncestors).mapTx.find x =
      if x = it then (pool.mapTx.find it).map (·.addAncestors (∑ a ∈ setAncestors.toFinset, pool.ancestorWeight a))
      else pool.mapTx.find x := by
  rw [← UniqueList.sum_toList, sum_ancestorWeight, updateEntryForAncestors, find_modify]
  rfl

-- The entry `e` stands under `h`, and counts in `setAncestors` as these count in it.
structure Added (h : Uint256) (e : CTxMemPoolEntry) (setAncestors : SetEntries) (pool pool' : TxMemPool) : Prop where
  find : ∀ x, pool'.mapTx.find x =
    if x = h then some (e.addAncestors (∑ a ∈ setAncestors.toFinset, pool.ancestorWeight a))
    else if x ∈ setAncestors then (pool.mapTx.find x).map (·.addDescendants e.asDescendant)
    else pool.mapTx.find x
  parent : ∀ p c, pool'.Parent p c ↔ pool.Parent p c ∨ c = h ∧ p ∈ e.parentHashes ∧ (p = h ∨ p ∈ pool.mapTx)
  linked : pool'.Linked

-- The pool with the entry linked to its parents, but not they to it.
structure Entered (h : Uint256) (e : CTxMemPoolEntry) (pool pool' : TxMemPool) : Prop where
  find : ∀ x, pool'.mapTx.find x = if x = h then some e else pool.mapTx.find x
  parent : ∀ p c, pool'.Parent p c ↔ pool.Parent p c ∨ c = h ∧ p ∈ e.parentHashes ∧ (p = h ∨ p ∈ pool.mapTx)
  children : pool'.getMemPoolChildren = pool.getMemPoolChildren
  domain : ∀ x, x ∈ pool'.mapLinks ↔ x = h ∨ x ∈ pool.mapLinks

theorem Entered.mem (entered : Entered h e pool pool') (x : Uint256) :
    x ∈ pool'.mapTx ↔ x = h ∨ x ∈ pool.mapTx := by
  simp only [mem_iff, entered.find]
  split <;> simp_all

theorem entered (hash : Uint256) (new : e.tx.getHash ∉ pool.mapTx) :
    Entered e.tx.getHash (pool.applyDelta hash e) pool
      (((pool.insertEntry hash e).spendInputs e.tx).linkParents e.tx.getHash e.tx) := by
  have found := find_insertEntry hash new
  have mapLinks := mapLinks_insertEntry pool hash e
  generalize pool.insertEntry hash e = pool₁ at found mapLinks
  have links : (pool₁.spendInputs e.tx).getLinks = pool.getLinks := by
    funext x
    change (pool₁.mapLinks.lookup x).getD {} = _
    rw [mapLinks, lookup_emplace]
    split
    case isTrue eq => rw [eq]; rfl
    case isFalse => rfl
  have mem (x : Uint256) : x ∈ (pool₁.spendInputs e.tx).mapTx ↔ x = e.tx.getHash ∨ x ∈ pool.mapTx := by
    change x ∈ pool₁.mapTx ↔ _
    simp only [mem_iff, found]
    split <;> simp_all
  have domain (x : Uint256) : x ∈ (pool₁.spendInputs e.tx).mapLinks ↔ x = e.tx.getHash ∨ x ∈ pool.mapLinks := by
    change x ∈ pool₁.mapLinks ↔ _
    rw [mapLinks, ← AList.lookup_isSome, lookup_emplace, ← AList.lookup_isSome]
    split <;> simp_all
  constructor
  case find =>
    intro x
    rw [linkParents_keeps TxMemPool.mapTx fun _ _ => rfl]
    exact found x
  case children =>
    rw [linkParents_keeps getMemPoolChildren fun _ _ => getMemPoolChildren_updateParent]
    funext x
    rw [getMemPoolChildren, links]
    rfl
  case parent =>
    intro p c
    rw [Parent, mem_parents_linkParents, mem, Parent, getMemPoolParents, links, parentHashes, tx_applyDelta]
    rfl
  case domain =>
    intro x
    rw [mem_mapLinks_linkParents ((domain _).mpr (.inl rfl)), domain]

variable {setAncestors : SetEntries}

theorem Entered.find_added (entered : Entered h e pool pool') (notMem : h ∉ setAncestors) (x : Uint256) :
    ((pool'.updateAncestorsOf true h setAncestors).updateEntryForAncestors h setAncestors).mapTx.find x =
      if x = h then some (e.addAncestors (∑ a ∈ setAncestors.toFinset, pool.ancestorWeight a))
      else if x ∈ setAncestors then (pool.mapTx.find x).map (·.addDescendants e.asDescendant)
      else pool.mapTx.find x := by
  have own : pool'.entry h = e := by
    rw [entry, entered.find, if_pos rfl, getD_some]
  have weights : ∑ a ∈ setAncestors.toFinset, (pool'.updateAncestorsOf true h setAncestors).ancestorWeight a =
      ∑ a ∈ setAncestors.toFinset, pool.ancestorWeight a := by
    refine sum_congr rfl fun a mem => ?_
    have ne : a ≠ h := fun eq => notMem (eq ▸ UniqueList.mem_toFinset.mp mem)
    rw [(sameBodies_updateAncestorsOf pool' true h setAncestors).ancestorWeight, ancestorWeight, entry, entered.find, if_neg ne]
    rfl
  rw [find_updateEntryForAncestors, weights, find_updateAncestorsOf, if_neg notMem, find_updateAncestorsOf, descendantWeight,
    own, if_pos rfl]
  simp only [entered.find]
  split
  case isTrue => rfl
  case isFalse => rfl

theorem Entered.added (entered : Entered h e pool pool') (linked : pool.Linked) (new : h ∉ pool.mapTx)
    (notMem : h ∉ setAncestors) : Added h e setAncestors pool
      ((pool'.updateAncestorsOf true h setAncestors).updateEntryForAncestors h setAncestors) := by
  have found := entered.find_added notMem
  have mem (x : Uint256) : x ∈ pool'.mapTx ↔
      x ∈ ((pool'.updateAncestorsOf true h setAncestors).updateEntryForAncestors h setAncestors).mapTx := by
    simp only [mem_iff, entered.find, found]
    split
    case isTrue => simp
    case isFalse => split <;> simp
  have parents : ((pool'.updateAncestorsOf true h setAncestors).updateEntryForAncestors h setAncestors).getMemPoolParents =
      pool'.getMemPoolParents := getMemPoolParents_updateAncestorsOf ..
  have children (p c : Uint256) :
      c ∈ ((pool'.updateAncestorsOf true h setAncestors).updateEntryForAncestors h setAncestors).getMemPoolChildren p ↔ _ :=
    mem_children_updateAncestorsOf pool' true h setAncestors p c
  have domain (x : Uint256) :
      x ∈ ((pool'.updateAncestorsOf true h setAncestors).updateEntryForAncestors h setAncestors).mapLinks ↔ _ :=
    mem_mapLinks_updateAncestorsOf pool' true h setAncestors x
  generalize (pool'.updateAncestorsOf true h setAncestors).updateEntryForAncestors h setAncestors = pool'' at *
  have noLink (p : Uint256) : ¬pool.Parent p h := fun link => new (linked.within p h link).right
  have parent (p c : Uint256) : pool''.Parent p c ↔ pool'.Parent p c := by rw [Parent, parents]
  refine ⟨found, fun p c => (parent p c).trans (entered.parent p c), fun x => ?_, fun p c => ?_, fun p c link => ?_⟩
  case refine_1 =>
    rw [domain, entered.domain, linked.domain, ← mem, entered.mem, entered.parent]
    grind
  case refine_2 =>
    rw [children, if_pos rfl, entered.children, linked.children, parent, entered.parent, entered.parent]
    grind
  case refine_3 =>
    rw [← mem, ← mem, entered.mem, entered.mem]
    rw [parent, entered.parent] at link
    obtain link | ⟨rfl, _, memP⟩ := link
    case inl => exact (linked.within p c link).imp .inr .inr
    case inr => exact ⟨memP, .inl rfl⟩

def AncestorsOf (pool : TxMemPool) (e : CTxMemPoolEntry) (setAncestors : SetEntries) : Prop :=
  ∀ a, a ∈ setAncestors ↔ ∃ p ∈ e.parentHashes, p ∈ pool.mapTx ∧ ReflTransGen pool.Parent a p

theorem AncestorsOf.mem (of : pool.AncestorsOf e setAncestors) (linked : pool.Linked) {a : Uint256} (mem : a ∈ setAncestors) :
    a ∈ pool.mapTx := by
  have ⟨p, _, memP, path⟩ := (of a).mp mem
  cases path using ReflTransGen.head_induction_on
  case refl => exact memP
  case head link _ => exact (linked.within _ _ link).left

namespace Added

variable (added : Added h e setAncestors pool pool')

include added

theorem leaves (new : h ∉ pool.mapTx) : Leaves {h} pool' pool := by
  intro x
  simp only [added.find, mem_singleton]
  split
  case isTrue eq =>
    have absent : pool.mapTx.find x = none := by
      rw [eq]
      rwa [← not_isSome_iff_eq_none]
    rw [absent]
    rfl
  case isFalse =>
    split
    case isTrue => rw [Option.map_map]; rfl
    case isFalse => rfl

variable {x : Uint256} {e' : CTxMemPoolEntry}

theorem mem : x ∈ pool'.mapTx ↔ x = h ∨ x ∈ pool.mapTx := by
  simp only [mem_iff, added.find]
  split
  case isTrue eq => simp [eq]
  case isFalse => split <;> simp_all

theorem parentHashes (found' : pool'.mapTx.find x = some e') :
    (x = h ∧ e'.parentHashes = e.parentHashes) ∨
      (x ≠ h ∧ ∃ e₀, pool.mapTx.find x = some e₀ ∧ e'.parentHashes = e₀.parentHashes) := by
  rw [added.find] at found'
  split at found'
  case isTrue eq =>
    cases found'
    exact .inl ⟨eq, rfl⟩
  case isFalse ne =>
    split at found'
    case isFalse => exact .inr ⟨ne, e', found', rfl⟩
    case isTrue =>
      have ⟨e₀, found, eq⟩ := map_eq_some_iff.mp found'
      exact .inr ⟨ne, e₀, found, eq ▸ rfl⟩

theorem spends (exact : pool.Exact) (new : h ∉ pool.mapTx)
    (leaf : ∀ x e₀, pool.mapTx.find x = some e₀ → h ∉ e₀.parentHashes) (p c : Uint256) :
    pool'.Parent p c ↔ pool'.Spends p c := by
  rw [added.parent, Spends, added.mem, exact.spends]
  constructor
  case mp =>
    rintro (⟨mem, e₀, found, parent⟩ | ⟨rfl, parent, mem⟩)
    case inl =>
      obtain ⟨_, e', found', same⟩ := (added.leaves new).found found
      have tx : e₀.tx = e'.tx := congrArg Prod.fst same
      exact ⟨.inr mem, e', found', by rwa [CTxMemPoolEntry.parentHashes, tx] at parent⟩
    case inr => exact ⟨mem, _, (added.find c).trans (if_pos rfl), parent⟩
  case mpr =>
    rintro ⟨mem, e', found', parent⟩
    obtain ⟨eq, same⟩ | ⟨ne, e₀, found, same⟩ := added.parentHashes found'
    case inl => exact .inr ⟨eq, same ▸ parent, mem⟩
    case inr =>
      rw [same] at parent
      have other : p ≠ h := fun eq => leaf c e₀ found (eq ▸ parent)
      exact .inl ⟨mem.resolve_left other, e₀, found, parent⟩

theorem ancestorWeight : pool'.ancestorWeight h = e.asAncestor := by
  rw [TxMemPool.ancestorWeight, entry, added.find, if_pos rfl]
  rfl

theorem found_other (ne : x ≠ h) (found' : pool'.mapTx.find x = some e') :
    ∃ e₀, pool.mapTx.find x = some e₀ ∧ e' = if x ∈ setAncestors then e₀.addDescendants e.asDescendant else e₀ := by
  rw [added.find, if_neg ne] at found'
  split at found'
  case isFalse out => exact ⟨e', found', by rw [if_neg out]⟩
  case isTrue mem =>
    have ⟨e₀, found, eq⟩ := map_eq_some_iff.mp found'
    exact ⟨e₀, found, by rw [if_pos mem, eq]⟩

section

variable (exact : pool.Exact) (new : h ∉ pool.mapTx)
  (leaf : ∀ x e₀, pool.mapTx.find x = some e₀ → h ∉ e₀.parentHashes)

include exact new leaf

theorem reaches (of : pool.AncestorsOf e setAncestors) (a : Uint256) :
    ReflTransGen pool'.Spends a h ↔ a = h ∨ a ∈ setAncestors := by
  have spends := added.spends exact new leaf
  constructor
  case mp =>
    intro path
    induction path using ReflTransGen.head_induction_on
    case refl => exact .inl rfl
    case head a c step _ ih =>
      rw [← spends, added.parent] at step
      by_cases eq : a = h
      case pos => exact .inl eq
      case neg =>
        right
        obtain link | ⟨_, parent, mem⟩ := step
        case inr => exact (of a).mpr ⟨a, parent, mem.resolve_left eq, .refl⟩
        case inl =>
          have other : c ≠ h := fun eq => new (eq ▸ (exact.within a c link).right)
          have ⟨p, parent, mem, path⟩ := (of c).mp (ih.resolve_left other)
          exact (of a).mpr ⟨p, parent, mem, .head link path⟩
  case mpr =>
    rintro (rfl | mem)
    case inl => exact .refl
    case inr =>
      have ⟨p, parent, mem, path⟩ := (of a).mp mem
      have path' : ReflTransGen pool'.Spends a p :=
        ReflTransGen.mono (fun a b link => (spends a b).mp ((added.parent a b).mpr (.inl link))) _ _ path
      exact path'.tail ((spends p h).mp ((added.parent p h).mpr (.inr ⟨rfl, parent, .inr mem⟩)))

theorem closedBelow : ClosedBelow {h} pool'.Spends := by
  intro a b step mem
  rw [mem_singleton] at mem ⊢
  rw [mem, ← added.spends exact new leaf, added.parent] at step
  obtain link | ⟨eq, _⟩ := step
  case inl => exact absurd (exact.within h b link).left new
  case inr => exact eq

end

theorem descendantWeight : pool'.descendantWeight h = e.asDescendant :=
  congrArg Ancestors.toDescendants added.ancestorWeight

theorem upTotal_self (exact : pool.Exact) (new : h ∉ pool.mapTx)
    (leaf : ∀ x e₀, pool.mapTx.find x = some e₀ → h ∉ e₀.parentHashes) (of : pool.AncestorsOf e setAncestors) :
    upTotal pool'.keys pool'.Spends pool'.ancestorWeight h =
      e.asAncestor + ∑ a ∈ setAncestors.toFinset, pool.ancestorWeight a := by
  classical
  have notMem : h ∉ setAncestors := fun mem => new (of.mem exact.toLinked mem)
  have above : pool'.keys.filter (ReflTransGen pool'.Spends · h) = insert h setAncestors.toFinset := by
    ext a
    rw [mem_filter, added.reaches exact new leaf of, Finset.mem_insert, UniqueList.mem_toFinset, mem_keys, added.mem,
      and_iff_right_iff_imp]
    exact Or.imp_right (of.mem exact.toLinked)
  rw [upTotal, above, sum_insert (by simpa using notMem), added.ancestorWeight]
  congr 1
  refine sum_congr rfl fun a mem => ((added.leaves new).ancestorWeight ?_).symm
  rw [notMem_singleton]
  exact fun eq => notMem (eq ▸ UniqueList.mem_toFinset.mp mem)

theorem downTotal_self (below : ClosedBelow {h} pool'.Spends) :
    downTotal pool'.keys pool'.Spends pool'.descendantWeight h = e.asDescendant := by
  classical
  have only : pool'.keys.filter (ReflTransGen pool'.Spends h ·) = {h} := by
    ext b
    rw [mem_filter, mem_singleton, mem_keys, added.mem]
    constructor
    case mp => exact fun ⟨_, path⟩ => mem_singleton.mp (below.reach path (mem_singleton_self h))
    case mpr => exact fun eq => ⟨.inl eq, eq ▸ .refl⟩
  rw [downTotal, only, sum_singleton, added.descendantWeight]

end Added

theorem Exact.added (exact : pool.Exact) (added : Added h e setAncestors pool pool') (alone : e.Alone) (new : h ∉ pool.mapTx)
    (leaf : ∀ x e₀, pool.mapTx.find x = some e₀ → h ∉ e₀.parentHashes) (of : pool.AncestorsOf e setAncestors) :
    pool'.Exact := by
  have leaves := added.leaves new
  have restricts := leaves.spends
  have below := added.closedBelow exact new leaf
  refine ⟨added.linked, added.spends exact new leaf, fun x e' found' => ?_, fun x e' found' => ?_⟩
  all_goals
    by_cases eq : x = h
  case pos =>
    rw [added.find, if_pos eq] at found'
    cases found'
    rw [eq, added.upTotal_self exact new leaf of, CTxMemPoolEntry.ancestorState_addAncestors, alone.ancestors]
  case neg =>
    have ⟨e₀, found, eq'⟩ := added.found_other eq found'
    have total := upTotal_below (S := pool'.keys) restricts below (fun _ => leaves.ancestorWeight)
      (notMem_singleton.mpr eq)
    rw [← total, ← leaves.keys, ← exact.ancestors x e₀ found, eq']
    split <;> rfl
  case pos =>
    rw [added.find, if_pos eq] at found'
    cases found'
    rw [eq, added.downTotal_self below, CTxMemPoolEntry.descendantState_addAncestors, alone.descendants]
  case neg =>
    have ⟨e₀, found, eq'⟩ := added.found_other eq found'
    have mem : h ∈ pool'.keys := mem_keys.mpr (added.mem.mpr (.inl rfl))
    have total := downTotal_below (x := x) restricts below (fun _ => leaves.descendantWeight)
      (singleton_subset_iff.mpr mem)
    rw [← total, ← leaves.keys, ← exact.descendants x e₀ found, eq', sum_filter, sum_singleton,
      added.descendantWeight]
    simp only [added.reaches exact new leaf of, eq, false_or]
    split
    case isTrue => rfl
    case isFalse => exact (add_zero _).symm

theorem Added.congr {pool'' : TxMemPool} (added : Added h e setAncestors pool pool') (mapTx : pool''.mapTx = pool'.mapTx)
    (mapLinks : pool''.mapLinks = pool'.mapLinks) : Added h e setAncestors pool pool'' := by
  cases pool'
  cases pool''
  cases mapTx
  cases mapLinks
  obtain ⟨find, parent, domain, children, within⟩ := added
  exact ⟨find, parent, domain, children, within⟩

theorem spendNullifiers_keeps (pool : TxMemPool) (tx : CTransaction) :
    (pool.spendNullifiers tx).mapTx = pool.mapTx ∧ (pool.spendNullifiers tx).mapLinks = pool.mapLinks := by
  unfold spendNullifiers
  split <;> exact ⟨rfl, rfl⟩

theorem Linked.addUnchecked (linked : pool.Linked) (hash : Uint256) (new : e.tx.getHash ∉ pool.mapTx)
    (notMem : e.tx.getHash ∉ setAncestors) :
    Added e.tx.getHash (pool.applyDelta hash e) setAncestors pool (pool.addUnchecked hash e setAncestors) := by
  have tx : ((pool.insertEntry hash e).entry e.tx.getHash).tx = e.tx := by
    rw [entry, find_insertEntry hash new, if_pos rfl]
    exact tx_applyDelta pool hash e
  have added := (entered hash new).added linked new notMem
  simp only [TxMemPool.addUnchecked, tx]
  exact added.congr (spendNullifiers_keeps ..).left (spendNullifiers_keeps ..).right

theorem Exact.addUnchecked (exact : pool.Exact) (hash : Uint256) (alone : e.Alone) (new : e.tx.getHash ∉ pool.mapTx)
    (leaf : ∀ x e₀, pool.mapTx.find x = some e₀ → e.tx.getHash ∉ e₀.parentHashes) {limits : AncestorLimits}
    (searched : pool.calculateMemPoolAncestors limits e true = some setAncestors) :
    (pool.addUnchecked hash e setAncestors).Exact := by
  have of : pool.AncestorsOf e setAncestors := exact.within.mem_searched searched
  have of' : pool.AncestorsOf (pool.applyDelta hash e) setAncestors := by
    intro a
    rw [of a, parentHashes, parentHashes, tx_applyDelta]
  have added := exact.toLinked.addUnchecked hash new fun mem => new (of.mem exact.toLinked mem)
  exact exact.added added (alone_applyDelta alone) new leaf of'

end TxMemPool

end Qrax
