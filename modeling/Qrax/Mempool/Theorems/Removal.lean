import Qrax.Mempool.Theorems.Links

open KeyedUpdate Relation List
open UniqueList (mem_toList)

namespace Qrax

namespace CTxMemPoolEntry

variable (e : CTxMemPoolEntry)

-- How many transactions, their sizes and fees; for the ancestors also their signature operations.
abbrev Descendants := UInt64 × UInt64 × CAmount
abbrev Ancestors := UInt64 × UInt64 × CAmount × UInt32

def descendantState : Descendants :=
  (e.nCountWithDescendants, e.nSizeWithDescendants, e.nModFeesWithDescendants)

def ancestorState : Ancestors :=
  (e.nCountWithAncestors, e.nSizeWithAncestors, e.nModFeesWithAncestors, e.nSigOpCountWithAncestors)

def asAncestor : Ancestors :=
  (1, e.nTxSize, e.getModifiedFee, e.sigOpCount)

def Ancestors.toDescendants (w : Ancestors) : Descendants :=
  (w.1, w.2.1, w.2.2.1)

def asDescendant : Descendants :=
  e.asAncestor.toDescendants

def body : CTransaction × Ancestors :=
  (e.tx, e.asAncestor)

def addDescendants (d : Descendants) : CTxMemPoolEntry :=
  e.updateDescendantState d.2.1 d.2.2 d.1

def addAncestors (d : Ancestors) : CTxMemPoolEntry :=
  e.updateAncestorState d.2.1 d.2.2.1 d.1 d.2.2.2

variable {e} {d : Descendants}

@[simp]
theorem body_addDescendants : (e.addDescendants d).body = e.body := rfl

@[simp]
theorem body_addAncestors {d : Ancestors} : (e.addAncestors d).body = e.body := rfl

@[simp]
theorem descendantState_addDescendants :
    (e.addDescendants d).descendantState = e.descendantState + d := rfl

@[simp]
theorem ancestorState_addDescendants : (e.addDescendants d).ancestorState = e.ancestorState := rfl

@[simp]
theorem ancestorState_addAncestors {d : Ancestors} : (e.addAncestors d).ancestorState = e.ancestorState + d := rfl

@[simp]
theorem descendantState_addAncestors {d : Ancestors} : (e.addAncestors d).descendantState = e.descendantState := rfl

@[simp]
theorem addDescendants_zero : e.addDescendants 0 = e := by
  simp [addDescendants, updateDescendantState]

@[simp]
theorem addAncestors_zero : e.addAncestors 0 = e := by
  simp [addAncestors, updateAncestorState]

theorem addDescendants_add (d d' : Descendants) : (e.addDescendants d).addDescendants d' = e.addDescendants (d + d') := by
  simp [addDescendants, updateDescendantState, add_assoc]

end CTxMemPoolEntry

namespace TxMemPool

open CTxMemPoolEntry (Ancestors Descendants addDescendants asAncestor asDescendant null)

variable [Crypto] {pool pool' pool'' : TxMemPool} {h p c : Uint256}

def ancestorWeight (pool : TxMemPool) (h : Uint256) : Ancestors :=
  (pool.entry h).asAncestor

def descendantWeight (pool : TxMemPool) (h : Uint256) : Descendants :=
  (pool.entry h).asDescendant

def SameBodies (pool pool' : TxMemPool) : Prop :=
  ∀ h, (pool'.mapTx.find h).map (·.body) = (pool.mapTx.find h).map (·.body)

namespace SameBodies

theorem of_map {f : Uint256 → CTxMemPoolEntry → CTxMemPoolEntry} (find : ∀ h, pool'.mapTx.find h = (pool.mapTx.find h).map (f h))
    (keeps : ∀ h e, (f h e).body = e.body) : SameBodies pool pool' := by
  intro h
  rw [find, Option.map_map]
  exact congrArg (Option.map · _) (funext fun e => keeps h e)

section

variable (same : SameBodies pool pool')

include same

theorem entry (h : Uint256) : (pool'.entry h).body = (pool.entry h).body := by
  have read (pool : TxMemPool) :
      (pool.entry h).body = ((pool.mapTx.find h).map (·.body)).getD null.body := by
    rw [TxMemPool.entry, Option.getD_map]
  rw [read, read, same h]

theorem mem : h ∈ pool'.mapTx ↔ h ∈ pool.mapTx := by
  have : ((pool'.mapTx.find h).map (·.body)).isSome = ((pool.mapTx.find h).map (·.body)).isSome := by rw [same h]
  rw [Option.isSome_map, Option.isSome_map] at this
  exact iff_of_eq (congrArg (· = true) this)

theorem ancestorWeight : pool'.ancestorWeight = pool.ancestorWeight :=
  funext fun h => congrArg Prod.snd (same.entry h)

theorem descendantWeight : pool'.descendantWeight = pool.descendantWeight :=
  funext fun h => congrArg Ancestors.toDescendants (congrFun same.ancestorWeight h)

end

end SameBodies

section

variable (pool : TxMemPool) (add : Bool) (it : Uint256) (setAncestors : SetEntries)

theorem find_updateAncestorsOf (h : Uint256) : (pool.updateAncestorsOf add it setAncestors).mapTx.find h =
    if h ∈ setAncestors then
      (pool.mapTx.find h).map (·.addDescendants (if add then pool.descendantWeight it else -pool.descendantWeight it))
    else pool.mapTx.find h := by
  have keeps : ((pool.getMemPoolParents it).toList.foldl (fun pool p => pool.updateChild p it add) pool).mapTx =
      pool.mapTx := by
    apply foldl_list_keeps mapTx
    intros
    rfl
  unfold updateAncestorsOf
  dsimp only
  rw [find_foldl_modify setAncestors.nodup]
  simp only [keeps, entry, mem_toList]
  refine if_congr Iff.rfl (congrArg (Option.map · _) (funext fun e => ?_)) rfl
  cases add <;> simp [addDescendants, descendantWeight, entry, asDescendant,
    asAncestor, Ancestors.toDescendants, Int64.neg_mul]

theorem getMemPoolParents_updateAncestorsOf :
    (pool.updateAncestorsOf add it setAncestors).getMemPoolParents = pool.getMemPoolParents := by
  have keeps : ((pool.getMemPoolParents it).toList.foldl (fun pool p => pool.updateChild p it add) pool).getMemPoolParents =
      pool.getMemPoolParents := by
    apply foldl_list_keeps getMemPoolParents
    intros
    exact getMemPoolParents_updateChild
  rw [← keeps]
  funext h
  simp only [updateAncestorsOf, getMemPoolParents, getLinks, foldl_modify_mapLinks]

theorem mem_children_updateAncestorsOf (h c : Uint256) :
    c ∈ (pool.updateAncestorsOf add it setAncestors).getMemPoolChildren h ↔
      if add then c ∈ pool.getMemPoolChildren h ∨ pool.Parent h it ∧ c = it
      else c ∈ pool.getMemPoolChildren h ∧ ¬(pool.Parent h it ∧ c = it) := by
  have children : (pool.updateAncestorsOf add it setAncestors).getMemPoolChildren =
      ((pool.getMemPoolParents it).toList.foldl (fun pool p => pool.updateChild p it add) pool).getMemPoolChildren := by
    funext h
    simp only [updateAncestorsOf, getMemPoolChildren, getLinks, foldl_modify_mapLinks]
  rw [children, mem_children_foldl_updateChild]
  rfl

theorem mem_mapLinks_updateAncestorsOf (h : Uint256) :
    h ∈ (pool.updateAncestorsOf add it setAncestors).mapLinks ↔ pool.Parent h it ∨ h ∈ pool.mapLinks := by
  simp only [updateAncestorsOf, foldl_modify_mapLinks]
  exact mem_mapLinks_foldl_updateChild

theorem sameBodies_updateAncestorsOf : SameBodies pool (pool.updateAncestorsOf add it setAncestors) := by
  intro h
  rw [find_updateAncestorsOf]
  split
  case isTrue => rw [Option.map_map]; rfl
  case isFalse => rfl

end

section

open Classical

noncomputable def weightBelow (pool : TxMemPool) (l : List Uint256) (h : Uint256) : Descendants :=
  (l.map fun r => if TransGen pool.Parent h r then pool.descendantWeight r else 0).sum

-- The ancestors of the entries in `l` have lost track of them.
structure Severed (l : List Uint256) (pool pool' : TxMemPool) : Prop where
  find : ∀ h, pool'.mapTx.find h = (pool.mapTx.find h).map (·.addDescendants (-pool.weightBelow l h))
  parents : pool'.getMemPoolParents = pool.getMemPoolParents
  children : ∀ p c, c ∈ pool'.getMemPoolChildren p ↔ c ∈ pool.getMemPoolChildren p ∧ ¬(c ∈ l ∧ pool.Parent p c)
  domain : ∀ h, h ∈ pool'.mapLinks ↔ (∃ r ∈ l, pool.Parent h r) ∨ h ∈ pool.mapLinks

theorem Severed.sameBodies {l : List Uint256} (severed : Severed l pool pool') : SameBodies pool pool' :=
  .of_map severed.find fun _ _ => rfl

theorem Severed.trans {l l' : List Uint256} (first : Severed l pool pool') (second : Severed l' pool' pool'') :
    Severed (l ++ l') pool pool'' := by
  have parent : pool'.Parent = pool.Parent := by
    funext p c
    rw [Parent, first.parents]
  have weight : pool'.weightBelow l' = pool.weightBelow l' := by
    funext h
    rw [weightBelow, weightBelow, parent, first.sameBodies.descendantWeight]
  constructor
  case parents => rw [second.parents, first.parents]
  case children =>
    intro p c
    simp only [second.children, first.children, Parent, first.parents, mem_append]
    tauto
  case domain =>
    intro h
    simp only [second.domain, first.domain, Parent, first.parents, mem_append, or_and_right, exists_or]
    exact or_left_comm.trans or_assoc.symm
  case find =>
    intro h
    rw [second.find, first.find, Option.map_map, weight]
    refine congrArg (Option.map · _) (funext fun e => ?_)
    rw [Function.comp_apply, CTxMemPoolEntry.addDescendants_add, ← neg_add]
    simp only [weightBelow, map_append, sum_append]

theorem severed_single {r : Uint256} (inside : pool.ParentsWithin) (mem : r ∈ pool.mapTx) :
    Severed [r] pool (pool.updateAncestorsOf false r (pool.ancestorsOf r)) := by
  constructor
  case parents => exact getMemPoolParents_updateAncestorsOf ..
  case children =>
    intro p c
    rw [mem_children_updateAncestorsOf, if_neg Bool.false_ne_true, mem_singleton]
    grind
  case domain =>
    intro h
    rw [mem_mapLinks_updateAncestorsOf]
    simp
  case find =>
    intro h
    rw [find_updateAncestorsOf, if_neg Bool.false_ne_true]
    simp only [inside.mem_ancestorsOf mem, weightBelow, map_singleton, sum_singleton]
    split <;> simp

theorem severed_foldl {l : List Uint256} (inside : pool.ParentsWithin) (mem : ∀ r ∈ l, r ∈ pool.mapTx) :
    Severed l pool (l.foldl (fun pool r => pool.updateAncestorsOf false r (pool.ancestorsOf r)) pool) := by
  induction l generalizing pool
  case nil =>
    refine ⟨fun h => ?_, rfl, fun p c => ?_, fun h => ?_⟩
    · simp [weightBelow]
    · simp
    · simp
  case cons r l ih =>
    have first := severed_single inside (mem r (mem_cons_self ..))
    have inside' : (pool.updateAncestorsOf false r (pool.ancestorsOf r)).ParentsWithin := by
      intro p c parent
      rw [Parent, first.parents] at parent
      exact (inside p c parent).imp first.sameBodies.mem.mpr first.sameBodies.mem.mpr
    exact first.trans (ih inside' fun r' rest => first.sameBodies.mem.mpr (mem r' (mem_cons_of_mem _ rest)))

end

variable {l : List Uint256} {s : SetEntries}

-- The children of the entries in `l` have lost track of them.
structure Orphaned (l : List Uint256) (pool pool' : TxMemPool) : Prop where
  mapTx : pool'.mapTx = pool.mapTx
  children : pool'.getMemPoolChildren = pool.getMemPoolChildren
  parents : ∀ p c, pool'.Parent p c ↔ pool.Parent p c ∧ ¬(p ∈ l ∧ c ∈ pool.getMemPoolChildren p)
  domain : ∀ h, h ∈ pool'.mapLinks ↔ (∃ r ∈ l, h ∈ pool.getMemPoolChildren r) ∨ h ∈ pool.mapLinks

theorem orphaned_single (pool : TxMemPool) (r : Uint256) : Orphaned [r] pool (pool.updateChildrenForRemoval r) := by
  constructor
  case mapTx =>
    apply foldl_list_keeps TxMemPool.mapTx
    intros
    rfl
  case children =>
    apply foldl_list_keeps getMemPoolChildren
    intros
    exact getMemPoolChildren_updateParent
  case parents =>
    intro p c
    unfold updateChildrenForRemoval
    rw [Parent, mem_parents_foldl_updateParent, if_neg Bool.false_ne_true, mem_toList, mem_singleton]
    grind
  case domain =>
    intro h
    unfold updateChildrenForRemoval
    rw [mem_mapLinks_foldl_updateParent, mem_toList]
    simp

theorem orphaned_foldl (pool : TxMemPool) (l : List Uint256) : Orphaned l pool (l.foldl updateChildrenForRemoval pool) := by
  induction l generalizing pool
  case nil => exact ⟨rfl, rfl, fun p c => by simp, fun h => by simp⟩
  case cons r l ih =>
    have first := orphaned_single pool r
    have second := ih (pool.updateChildrenForRemoval r)
    rw [foldl_cons]
    constructor
    case mapTx => rw [second.mapTx, first.mapTx]
    case children => rw [second.children, first.children]
    case parents =>
      intro p c
      rw [second.parents, first.parents, first.children]
      grind
    case domain =>
      intro h
      rw [second.domain, first.domain, first.children]
      grind

-- The entries outside of `s` no longer count or know `s`.
structure Detached (s : SetEntries) (pool pool' : TxMemPool) : Prop where
  find : ∀ h, pool'.mapTx.find h = (pool.mapTx.find h).map (·.addDescendants (-pool.weightBelow s.toList h))
  parent : ∀ p c, pool'.Parent p c ↔ pool.Parent p c ∧ (p ∉ s ∨ c ∈ s)
  children : ∀ p c, c ∈ pool'.getMemPoolChildren p ↔ pool.Parent p c ∧ c ∉ s
  domain : ∀ h, h ∈ pool'.mapLinks ↔ h ∈ pool.mapTx

theorem Linked.detached (linked : pool.Linked) (mem : ∀ r ∈ s, r ∈ pool.mapTx) :
    Detached s pool (pool.updateForRemoveFromMempool s false) := by
  have severed := severed_foldl linked.within mem
  have orphaned := orphaned_foldl
    (s.toList.foldl (fun pool r => pool.updateAncestorsOf false r (pool.ancestorsOf r)) pool) s.toList
  have children (p c : Uint256) := severed.children p c
  simp only [linked.children, mem_toList] at children
  constructor
  case find =>
    intro h
    exact (congrArg (·.find h) orphaned.mapTx).trans (severed.find h)
  case children =>
    intro p c
    refine (iff_of_eq (congrArg (fun next => c ∈ next p) orphaned.children)).trans ((children p c).trans ?_)
    tauto
  case parent =>
    intro p c
    refine (orphaned.parents p c).trans ?_
    rw [children, Parent, severed.parents, mem_toList]
    tauto
  case domain =>
    intro h
    refine (orphaned.domain h).trans ?_
    rw [severed.domain, linked.domain]
    simp only [children]
    constructor
    case mpr => exact fun mem => .inr (.inr mem)
    case mp =>
      rintro (⟨r, _, link, _⟩ | ⟨r, _, link⟩ | mem)
      case inl => exact (linked.within r h link).right
      case inr.inl => exact (linked.within h r link).left
      case inr.inr => exact mem

theorem mapTx_removeUnchecked (pool : TxMemPool) (it : Uint256) : (pool.removeUnchecked it).mapTx = pool.mapTx.erase it := by
  simp only [removeUnchecked, removeSpentIndex, removeAddressIndex]
  split <;> split <;> rfl

theorem mapLinks_removeUnchecked (pool : TxMemPool) (it : Uint256) :
    (pool.removeUnchecked it).mapLinks = pool.mapLinks.erase it := by
  simp only [removeUnchecked, removeSpentIndex, removeAddressIndex]
  split <;> split <;> rfl

theorem find_foldl_removeUnchecked (pool : TxMemPool) (l : List Uint256) (h : Uint256) :
    (l.foldl removeUnchecked pool).mapTx.find h = if h ∈ l then none else pool.mapTx.find h := by
  induction l generalizing pool
  case nil => rfl
  case cons it l ih =>
    rw [foldl_cons, ih, mapTx_removeUnchecked, IndexedTransactionSet.find_erase]
    grind

theorem lookup_foldl_removeUnchecked (pool : TxMemPool) (l : List Uint256) (h : Uint256) :
    (l.foldl removeUnchecked pool).mapLinks.lookup h = if h ∈ l then none else pool.mapLinks.lookup h := by
  induction l generalizing pool
  case nil => rfl
  case cons it l ih =>
    rw [foldl_cons, ih, mapLinks_removeUnchecked, lookup_erase]
    grind

-- The entries of `s` are gone, and none counts or knows them.
structure Removed (s : SetEntries) (pool pool' : TxMemPool) : Prop where
  find : ∀ h, pool'.mapTx.find h =
    if h ∈ s then none else (pool.mapTx.find h).map (·.addDescendants (-pool.weightBelow s.toList h))
  parent : ∀ p c, pool'.Parent p c ↔ p ∉ s ∧ c ∉ s ∧ pool.Parent p c
  linked : pool'.Linked

theorem Detached.removed (detached : Detached s pool pool') (linked : pool.Linked) :
    Removed s pool (s.toList.foldl removeUnchecked pool') := by
  have looked (h : Uint256) : (s.toList.foldl removeUnchecked pool').mapLinks.lookup h =
      if h ∈ s then none else pool'.mapLinks.lookup h := lookup_foldl_removeUnchecked ..
  have found (h : Uint256) : (s.toList.foldl removeUnchecked pool').mapTx.find h =
      if h ∈ s then none else (pool.mapTx.find h).map (·.addDescendants (-pool.weightBelow s.toList h)) := by
    rw [find_foldl_removeUnchecked, detached.find]
    rfl
  generalize s.toList.foldl removeUnchecked pool' = pool'' at looked found
  have links (h : Uint256) : pool''.getLinks h = if h ∈ s then {} else pool'.getLinks h := by
    rw [getLinks, looked]
    split <;> rfl
  have parent (p c : Uint256) : pool''.Parent p c ↔ p ∉ s ∧ c ∉ s ∧ pool.Parent p c := by
    have := detached.parent p c
    simp only [Parent, getMemPoolParents, links] at this ⊢
    split
    case isTrue inside => simp [inside]
    case isFalse out => rw [this]; tauto
  have mem (h : Uint256) : h ∈ pool''.mapTx ↔ h ∉ s ∧ h ∈ pool.mapTx := by
    simp only [IndexedTransactionSet.mem_iff, found]
    split <;> simp_all
  refine ⟨found, parent, ?_, ?_, ?_⟩
  case refine_1 =>
    intro h
    rw [mem, ← detached.domain, ← AList.lookup_isSome, ← AList.lookup_isSome, looked]
    split <;> simp_all
  case refine_2 =>
    intro p c
    have := detached.children p c
    rw [parent]
    simp only [getMemPoolChildren, links] at this ⊢
    split
    case isTrue inside => simp [inside]
    case isFalse out => rw [this]; tauto
  case refine_3 =>
    intro p c link
    obtain ⟨outP, outC, link⟩ := (parent p c).mp link
    obtain ⟨memP, memC⟩ := linked.within p c link
    exact ⟨(mem p).mpr ⟨outP, memP⟩, (mem c).mpr ⟨outC, memC⟩⟩

theorem Linked.removeStaged (linked : pool.Linked) (mem : ∀ r ∈ s, r ∈ pool.mapTx) :
    Removed s pool (pool.removeStaged s false) :=
  (linked.detached mem).removed linked

end TxMemPool

end Qrax
