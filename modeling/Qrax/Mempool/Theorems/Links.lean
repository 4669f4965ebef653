import Qrax.Lib.Ancestry
import Qrax.Mempool.TxMemPool

open KeyedUpdate Relation List UniqueList Worklist

namespace Qrax.TxMemPool

variable {limits : AncestorLimits} {stage done found : SetEntries}

theorem not_gt_limit (n : UInt64) : ¬n > 0xffffffffffffffff := by
  rw [gt_iff_lt, UInt64.lt_iff_toNat_lt]
  have := n.toNat_lt
  change ¬18446744073709551615 < n.toNat
  omega

theorem stageParents_eq {l : List Uint256} (h : stageParents limits done stage l = some found) :
    found = .insertNew done stage l := by
  induction l generalizing stage
  case nil => exact (Option.some.inj h).symm
  case cons p l ih =>
    rw [stageParents, Option.ite_none_left_eq_some] at h
    exact ih h.right

theorem stageParents_nNoLimit (l : List Uint256) : stageParents nNoLimit done stage l = some (.insertNew done stage l) := by
  induction l generalizing stage
  case nil => rfl
  case cons p l ih =>
    rw [stageParents, if_neg (show ¬_ > nNoLimit.limitAncestorCount from not_gt_limit _)]
    exact ih

variable [Crypto] {pool : TxMemPool} {it h p c : Uint256}

abbrev Parent (pool : TxMemPool) (p c : Uint256) : Prop :=
  p ∈ pool.getMemPoolParents c

def ParentsWithin (pool : TxMemPool) : Prop :=
  ∀ p c, pool.Parent p c → p ∈ pool.mapTx ∧ c ∈ pool.mapTx

structure Linked (pool : TxMemPool) : Prop where
  domain : ∀ h, h ∈ pool.mapLinks ↔ h ∈ pool.mapTx
  children : ∀ p c, c ∈ pool.getMemPoolChildren p ↔ pool.Parent p c
  within : pool.ParentsWithin

theorem linked_of_empty (mapTx : pool.mapTx = {}) (mapLinks : pool.mapLinks = ∅) : pool.Linked := by
  have links (h : Uint256) : pool.getLinks h = {} := by
    rw [getLinks, mapLinks]
    rfl
  refine ⟨fun h => ?_, fun p c => ?_, fun p c link => ?_⟩
  case refine_1 => simp [mapTx, mapLinks, IndexedTransactionSet.mem_iff, IndexedTransactionSet.find]
  all_goals simp only [getMemPoolChildren, Parent, getMemPoolParents, links] at *
  case refine_2 => exact iff_of_false (notMem_empty c) (notMem_empty p)
  case refine_3 => exact absurd link (notMem_empty p)

theorem entry_of_find {e : CTxMemPoolEntry} (found : pool.mapTx.find h = some e) : pool.entry h = e := by
  rw [entry, found, Option.getD_some]

section

variable {f : CTxMemPoolEntry → CTxMemPoolEntry} {keeps : ∀ e, (f e).tx = e.tx} {add : Bool}

theorem find_modify : (pool.modify it f keeps).mapTx.find h =
    if h = it then (pool.mapTx.find it).map f else pool.mapTx.find h :=
  IndexedTransactionSet.find_modify _ _ _ _ keeps

theorem getLinks_insert {links : TxLinks} :
    ({ pool with mapLinks := pool.mapLinks.insert it links } : TxMemPool).getLinks h =
      if h = it then links else pool.getLinks h := by
  simp only [getLinks, lookup_insert]
  split <;> rfl

theorem getMemPoolParents_updateChild : (pool.updateChild it c add).getMemPoolParents = pool.getMemPoolParents := by
  funext h
  simp only [getMemPoolParents, updateChild, getLinks_insert]
  split
  case isTrue eq => rw [eq]
  case isFalse => rfl

theorem getMemPoolChildren_updateParent : (pool.updateParent it p add).getMemPoolChildren = pool.getMemPoolChildren := by
  funext h
  simp only [getMemPoolChildren, updateParent, getLinks_insert]
  split
  case isTrue eq => rw [eq]
  case isFalse => rfl

theorem mem_children_updateChild {c' : Uint256} : c' ∈ (pool.updateChild it c add).getMemPoolChildren h ↔
    if add then c' ∈ pool.getMemPoolChildren h ∨ h = it ∧ c' = c
    else c' ∈ pool.getMemPoolChildren h ∧ ¬(h = it ∧ c' = c) := by
  simp only [getMemPoolChildren, updateChild, getLinks_insert]
  cases add <;> by_cases eq : h = it <;> simp [eq] <;> tauto

theorem mem_parents_updateParent {p' : Uint256} : p' ∈ (pool.updateParent it p add).getMemPoolParents h ↔
    if add then p' ∈ pool.getMemPoolParents h ∨ h = it ∧ p' = p
    else p' ∈ pool.getMemPoolParents h ∧ ¬(h = it ∧ p' = p) := by
  simp only [getMemPoolParents, updateParent, getLinks_insert]
  cases add <;> by_cases eq : h = it <;> simp [eq] <;> tauto

theorem mem_mapLinks_updateChild : h ∈ (pool.updateChild it c add).mapLinks ↔ h = it ∨ h ∈ pool.mapLinks :=
  AList.mem_insert _

theorem mem_mapLinks_updateParent : h ∈ (pool.updateParent it p add).mapLinks ↔ h = it ∨ h ∈ pool.mapLinks :=
  AList.mem_insert _

end

section

variable {f : CTxMemPoolEntry → CTxMemPoolEntry} {keeps : ∀ e, (f e).tx = e.tx} {add : Bool} {l : List Uint256}

theorem find_foldl_modify (nodup : l.Nodup) : (l.foldl (fun pool it => pool.modify it f keeps) pool).mapTx.find h =
    if h ∈ l then (pool.mapTx.find h).map f else pool.mapTx.find h := by
  induction l generalizing pool
  case nil => rfl
  case cons it l ih =>
    have ⟨notMem, nodup⟩ := nodup_cons.mp nodup
    rw [foldl_cons, ih nodup, find_modify]
    by_cases eq : h = it
    case pos => simp [eq, notMem]
    case neg => simp [eq]

theorem foldl_modify_mapLinks : (l.foldl (fun pool it => pool.modify it f keeps) pool).mapLinks = pool.mapLinks := by
  apply foldl_list_keeps mapLinks
  intros
  rfl

theorem mem_children_foldl_updateChild : c ∈ (l.foldl (fun pool p => pool.updateChild p it add) pool).getMemPoolChildren h ↔
    if add then c ∈ pool.getMemPoolChildren h ∨ h ∈ l ∧ c = it else c ∈ pool.getMemPoolChildren h ∧ ¬(h ∈ l ∧ c = it) := by
  induction l generalizing pool
  case nil => simp
  case cons p l ih =>
    rw [foldl_cons, ih, mem_children_updateChild, mem_cons]
    cases add <;> simp <;> tauto

theorem mem_parents_foldl_updateParent :
    p ∈ (l.foldl (fun pool c => pool.updateParent c it add) pool).getMemPoolParents h ↔
      if add then p ∈ pool.getMemPoolParents h ∨ h ∈ l ∧ p = it else p ∈ pool.getMemPoolParents h ∧ ¬(h ∈ l ∧ p = it) := by
  induction l generalizing pool
  case nil => simp
  case cons c l ih =>
    rw [foldl_cons, ih, mem_parents_updateParent, mem_cons]
    cases add <;> simp <;> tauto

theorem mem_mapLinks_foldl_updateChild :
    h ∈ (l.foldl (fun pool p => pool.updateChild p it add) pool).mapLinks ↔ h ∈ l ∨ h ∈ pool.mapLinks := by
  induction l generalizing pool
  case nil => simp
  case cons p l ih => rw [foldl_cons, ih, mem_mapLinks_updateChild, mem_cons]; tauto

theorem mem_mapLinks_foldl_updateParent :
    h ∈ (l.foldl (fun pool c => pool.updateParent c it add) pool).mapLinks ↔ h ∈ l ∨ h ∈ pool.mapLinks := by
  induction l generalizing pool
  case nil => simp
  case cons c l ih => rw [foldl_cons, ih, mem_mapLinks_updateParent, mem_cons]; tauto

end

variable {nTxSize total : UInt64} {fuel : ℕ}

def keys (pool : TxMemPool) : Finset Uint256 :=
  pool.mapTx.keys.toFinset

theorem mem_keys : h ∈ pool.keys ↔ h ∈ pool.mapTx := by
  rw [keys, List.mem_toFinset, IndexedTransactionSet.mem_keys]

theorem card_keys_le : (pool.keys \ done.toFinset).card ≤ pool.mapTx.keys.length :=
  (Finset.card_le_card Finset.sdiff_subset).trans (toFinset_card_le _)

theorem walkAncestors_eq (h : pool.walkAncestors limits nTxSize fuel stage done total = some found) :
    found = close pool.getMemPoolParents fuel stage done := by
  induction fuel generalizing stage done total
  case zero => exact (Option.some.inj h).symm
  case succ fuel ih =>
    unfold walkAncestors at h
    unfold close
    split at h
    case h_1 eq => rw [eq]; exact (Option.some.inj h).symm
    case h_2 stageit _ eq =>
      rw [eq]
      dsimp only at h ⊢
      split_ifs at h
      obtain ⟨stage', staged, h⟩ := Option.bind_eq_some_iff.mp h
      rw [← stageParents_eq staged]
      exact ih h

theorem walkAncestors_nNoLimit : pool.walkAncestors nNoLimit nTxSize fuel stage done total =
    some (close pool.getMemPoolParents fuel stage done) := by
  induction fuel generalizing stage done total
  case zero => rfl
  case succ fuel ih =>
    unfold walkAncestors close
    cases eq : stage.toList
    case nil => rfl
    case cons stageit _ =>
      dsimp only
      rw [if_neg (show ¬_ > nNoLimit.limitDescendantSize from not_gt_limit _),
        if_neg (show ¬_ > nNoLimit.limitDescendantCount from not_gt_limit _),
        if_neg (show ¬_ > nNoLimit.limitAncestorSize from not_gt_limit _), stageParents_nNoLimit]
      exact ih

theorem searchForParents_eq {vin : List CTxIn} (h : pool.searchForParents limits stage vin = some found) :
    c ∈ found ↔ c ∈ stage ∨ c ∈ vin.map (·.prevout.hash) ∧ c ∈ pool.mapTx := by
  induction vin generalizing stage
  case nil => simp [Option.some.inj h]
  case cons txin vin ih =>
    rw [searchForParents] at h
    split at h
    case isFalse => grind
    case isTrue =>
      rw [Option.ite_none_left_eq_some] at h
      rw [ih h.right, mem_insert]
      grind

namespace ParentsWithin

section

variable (inside : pool.ParentsWithin)

include inside

theorem searching (within : ∀ a ∈ stage, a ∈ pool.mapTx) :
    Searching pool.getMemPoolParents pool.keys stage ∅ :=
  .start (fun a mem => mem_keys.mpr (within a mem)) fun a _ b mem => mem_keys.mpr (inside b a mem).left

theorem mem_close_parents (within : ∀ a ∈ stage, a ∈ pool.mapTx) (a : Uint256) :
    a ∈ close pool.getMemPoolParents pool.mapTx.keys.length stage ∅ ↔ ∃ p ∈ stage, ReflTransGen pool.Parent a p := by
  rw [(inside.searching within).mem_close card_keys_le]
  simp only [notMem_empty, false_or]
  refine exists_congr fun p => and_congr_right fun _ => ?_
  exact reflTransGen_swap

theorem mem_ancestorsOf (mem : h ∈ pool.mapTx) (a : Uint256) :
    a ∈ pool.ancestorsOf h ↔ TransGen pool.Parent a h := by
  have ⟨e, found⟩ := IndexedTransactionSet.mem_iff.mp mem
  have hash : (pool.entry h).tx.getHash = h := by
    rw [entry, found]
    exact pool.mapTx.txid found
  have walked : pool.ancestorsOf h =
      close pool.getMemPoolParents pool.mapTx.keys.length (pool.getMemPoolParents h) ∅ := by
    simp only [ancestorsOf, calculateMemPoolAncestors, hash, Bool.false_eq_true, if_false, Option.bind_eq_bind,
      Option.bind_some, walkAncestors_nNoLimit, Option.getD_some]
  rw [walked, inside.mem_close_parents fun p parent => (inside p h parent).left, TransGen.tail'_iff]
  simp only [and_comm]

theorem mem_searched {e : CTxMemPoolEntry}
    (searched : pool.calculateMemPoolAncestors limits e true = some found) (a : Uint256) :
    a ∈ found ↔ ∃ p ∈ e.parentHashes, p ∈ pool.mapTx ∧ ReflTransGen pool.Parent a p := by
  rw [calculateMemPoolAncestors, if_pos rfl, Option.bind_eq_bind, Option.bind_eq_some_iff] at searched
  have ⟨stage, staged, walked⟩ := searched
  have mem_stage (p : Uint256) : p ∈ stage ↔ p ∈ e.parentHashes ∧ p ∈ pool.mapTx := by
    rw [searchForParents_eq staged]
    simp [CTxMemPoolEntry.parentHashes]
  rw [walkAncestors_eq walked, inside.mem_close_parents fun p mem => ((mem_stage p).mp mem).right]
  simp only [mem_stage, and_assoc]

end

end ParentsWithin

def Closed (pool : TxMemPool) (s : SetEntries) : Prop :=
  ∀ p ∈ s, p ∈ pool.mapTx ∧ ∀ c, pool.Parent p c → c ∈ s

theorem closed_empty : pool.Closed ∅ :=
  fun p mem => absurd mem (notMem_empty p)

namespace Linked

section

variable (linked : pool.Linked)

include linked

theorem congr {pool' : TxMemPool} (mapLinks : pool'.mapLinks = pool.mapLinks)
    (mem : ∀ h, h ∈ pool'.mapTx ↔ h ∈ pool.mapTx) : pool'.Linked := by
  have links : pool'.getLinks = pool.getLinks := by
    funext h
    rw [getLinks, getLinks, mapLinks]
  constructor
  case domain =>
    intro h
    rw [mapLinks, mem, linked.domain]
  case children =>
    intro p c
    have := linked.children p c
    simpa only [Parent, getMemPoolParents, getMemPoolChildren, links] using this
  case within =>
    intro p c parent
    simp only [Parent, getMemPoolParents, links] at parent
    exact (linked.within p c parent).imp (mem p).mpr (mem c).mpr

theorem searching_children (closed : pool.Closed done)
    (within : ∀ a ∈ stage, a ∈ pool.mapTx ∧ a ∉ done) :
    Searching pool.getMemPoolChildren pool.keys stage done where
  within a staged := mem_keys.mpr (within a staged).left
  next_mem a _ b child := mem_keys.mpr (linked.within a b ((linked.children a b).mp child)).right
  fresh a staged := (within a staged).right
  pending a mem b child := .inl ((closed a mem).right b ((linked.children a b).mp child))

theorem mem_calculateDescendants (mem : h ∈ pool.mapTx) (closed : pool.Closed done) (c : Uint256) :
    c ∈ pool.calculateDescendants h done ↔ c ∈ done ∨ ReflTransGen pool.Parent h c := by
  have reaches (a : Uint256) : Worklist.Reaches pool.getMemPoolChildren a c ↔ ReflTransGen pool.Parent a c := by
    simp only [Worklist.Reaches, linked.children]
  unfold calculateDescendants
  dsimp only
  split
  case isTrue finished =>
    have searching : Searching pool.getMemPoolChildren pool.keys ∅ done :=
      linked.searching_children closed fun a staged => absurd staged (notMem_empty a)
    have below : Ancestry.ClosedBelow done.toFinset pool.Parent := fun a b parent mem => (closed a mem).right b parent
    rw [searching.mem_close card_keys_le]
    simp only [notMem_empty, false_and, exists_false, or_false]
    exact ⟨.inl, Or.rec id fun path => below.reach path finished⟩
  case isFalse new =>
    have searching : Searching pool.getMemPoolChildren pool.keys (insert ∅ h) done := by
      refine linked.searching_children closed fun a staged => ?_
      obtain rfl : a = h := by simpa using staged
      exact ⟨mem, new⟩
    rw [searching.mem_close card_keys_le]
    simp [reaches]

theorem mem_of_reaches (mem : h ∈ pool.mapTx) (path : ReflTransGen pool.Parent h c) :
    c ∈ pool.mapTx := by
  cases path
  case refl => exact mem
  case tail parent => exact (linked.within _ _ parent).right

theorem closed_calculateDescendants (mem : h ∈ pool.mapTx) (closed : pool.Closed done) :
    pool.Closed (pool.calculateDescendants h done) := by
  intro p found
  rw [linked.mem_calculateDescendants mem closed] at found
  refine ⟨?_, fun c parent => (linked.mem_calculateDescendants mem closed c).mpr ?_⟩
  case refine_1 => exact found.elim (fun finished => (closed p finished).left) (linked.mem_of_reaches mem)
  case refine_2 => exact found.imp (fun finished => (closed p finished).right c parent) (·.tail parent)

theorem foldl_calculateDescendants {its : List Uint256} (mem : ∀ h ∈ its, h ∈ pool.mapTx)
    (closed : pool.Closed done) :
    pool.Closed (its.foldl (fun s it => pool.calculateDescendants it s) done) ∧
      ∀ c, c ∈ its.foldl (fun s it => pool.calculateDescendants it s) done ↔
        c ∈ done ∨ ∃ h ∈ its, ReflTransGen pool.Parent h c := by
  induction its generalizing done
  case nil => exact ⟨closed, fun c => by simp⟩
  case cons it its ih =>
    have mem_it := mem it (mem_cons_self ..)
    have ⟨closed', mem'⟩ := ih (fun h rest => mem h (mem_cons_of_mem _ rest))
      (linked.closed_calculateDescendants mem_it closed)
    refine ⟨closed', fun c => ?_⟩
    rw [foldl_cons, mem', linked.mem_calculateDescendants mem_it closed, or_assoc]
    simp only [mem_cons, exists_eq_or_imp]

theorem closed_calculateAllDescendants {its : List Uint256} (mem : ∀ h ∈ its, h ∈ pool.mapTx) :
    pool.Closed (pool.calculateAllDescendants its) :=
  (linked.foldl_calculateDescendants mem closed_empty).left

end

end Linked

end Qrax.TxMemPool
