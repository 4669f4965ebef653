import Qrax.Validation.Indexes
import Qrax.Validation.Theorems.DisconnectBlock

open Fallible List Journal

namespace Qrax

open IndexUpdates Globals

def CAddressUnspentValue.stored (v : CAddressUnspentValue) : Option DBValue :=
  if v.isNull then none else some (.unspent v)

def CSpentIndexValue.stored (v : CSpentIndexValue) : Option DBValue :=
  if v.isNull then none else some (.spent v)

def DBKey.isIndex : DBKey → Bool
  | addressIdentIndex _ => false
  | supplyIndex _ => false
  | other _ _ => false
  | _ => true

namespace IndexUpdates

-- The amounts are put on connecting and erased on disconnecting.
def entries (put : Bool) (u : IndexUpdates) : List (DBKey × Option DBValue) :=
  u.addressIndex.map (fun e => (.addressIndex e.1, if put then some (.amount e.2) else none)) ++
  u.addressUnspentIndex.map (fun e => (.addressUnspentIndex e.1, e.2.stored)) ++
  u.addressDelegationIndex.map (fun e => (.addressDelegationIndex e.1, if put then some (.amount e.2) else none)) ++
  u.addressDelegationUnspentIndex.map (fun e => (.addressDelegationUnspentIndex e.1, e.2.stored)) ++
  u.spentIndex.map (fun e => (.spentIndex e.1, e.2.stored))

variable {put : Bool} {u v : IndexUpdates} {k : DBKey}

theorem append_def (u v : IndexUpdates) : u ++ v = {
    addressIndex := u.addressIndex ++ v.addressIndex
    addressUnspentIndex := u.addressUnspentIndex ++ v.addressUnspentIndex
    spentIndex := u.spentIndex ++ v.spentIndex
    addressDelegationIndex := u.addressDelegationIndex ++ v.addressDelegationIndex
    addressDelegationUnspentIndex := u.addressDelegationUnspentIndex ++ v.addressDelegationUnspentIndex } := rfl

theorem isIndex_of_mem {e : DBKey × Option DBValue} (h : e ∈ u.entries put) : e.1.isIndex := by
  simp only [entries, mem_append, mem_map] at h
  rcases h with ((((⟨_, _, rfl⟩ | ⟨_, _, rfl⟩) | ⟨_, _, rfl⟩) | ⟨_, _, rfl⟩) | ⟨_, _, rfl⟩) <;> rfl

theorem filter_map_eq {α : Type} {l : List α} {key : α → DBKey} {value : α → Option DBValue}
    (ne : ∀ a, key a ≠ k) : (l.map fun a => (key a, value a)).filter (·.1 = k) = [] := by
  rw [filter_eq_nil_iff]
  intro e mem
  have ⟨a, _, eq⟩ := mem_map.mp mem
  rw [← eq, decide_eq_true_eq]
  exact ne a

theorem filter_entries_append (u v : IndexUpdates) :
    ((u ++ v).entries put).filter (·.1 = k) = (u.entries put).filter (·.1 = k) ++ (v.entries put).filter (·.1 = k) := by
  simp only [entries, append_def, map_append, filter_append]
  cases k
  all_goals
    simp only [filter_map_eq, ne_eq, reduceCtorEq, not_false_eq_true, implies_true, append_nil, nil_append]

theorem replay_entries_append (f : DBKey → Option DBValue) (u v : IndexUpdates) :
    replay f ((u ++ v).entries put) = replay (replay f (u.entries put)) (v.entries put) := by
  funext k
  rw [← replay_append]
  refine replay_filter_congr ?_
  rw [filter_entries_append, filter_append]

def unbanned (banned : COutPoint → Bool) (u : IndexUpdates) : IndexUpdates :=
  { u with addressIndex := u.addressIndex.filter fun (key, _) => !banned { hash := key.txhash, n := key.index } }

structure Guarded (fAddressIndex fSpentIndex : Bool) (u : IndexUpdates) : Prop where
  address : fAddressIndex = false → u.addressIndex = [] ∧ u.addressUnspentIndex = [] ∧ u.addressDelegationIndex = [] ∧
    u.addressDelegationUnspentIndex = []
  spent : fSpentIndex = false → u.spentIndex = []

end IndexUpdates

namespace CBlockTreeDB

variable {db : CBlockTreeDB} {k : DBKey}

theorem get_writeBatch_of_ne {batch : List DBWrite} (h : ∀ w ∈ batch, w.key ≠ k) :
    (db.writeBatch batch).get k = db.get k := by
  rw [get_writeBatch]
  refine replay_of_not_mem fun mem => ?_
  rw [map_map] at mem
  have ⟨w, hw, eq⟩ := mem_map.mp mem
  exact h w hw eq

theorem get_writeBatch_map {α : Type} (db : CBlockTreeDB) (l : List α) {w : α → DBWrite}
    {e : α → DBKey × Option DBValue} (h : ∀ a, (w a).entry = e a) : (db.writeBatch (l.map w)).get = replay db.get (l.map e) := by
  rw [get_writeBatch, map_map]
  exact congrArg _ (map_congr_left fun a _ => h a)

variable (db)

theorem get_updateSpentIndex (vect : List (CSpentIndexKey × CSpentIndexValue)) :
    (db.updateSpentIndex vect).get = replay db.get (vect.map fun e => (.spentIndex e.1, e.2.stored)) := by
  refine db.get_writeBatch_map vect fun e => Prod.ext rfl ?_
  simp only [DBWrite.entry, DBWrite.spentIndex, CSpentIndexValue.stored]
  split <;> rfl

theorem get_updateAddressUnspentIndex (vect : List (CAddressUnspentKey × CAddressUnspentValue)) :
    (db.updateAddressUnspentIndex vect).get =
      replay db.get (vect.map fun e => (.addressUnspentIndex e.1, e.2.stored)) := by
  refine db.get_writeBatch_map vect fun e => Prod.ext rfl ?_
  simp only [DBWrite.entry, DBWrite.addressUnspentIndex, CAddressUnspentValue.stored]
  split <;> rfl

theorem get_updateAddressDelegationUnspentIndex (vect : List (CAddressDelegationUnspentKey × CAddressUnspentValue)) :
    (db.updateAddressDelegationUnspentIndex vect).get =
      replay db.get (vect.map fun e => (.addressDelegationUnspentIndex e.1, e.2.stored)) := by
  refine db.get_writeBatch_map vect fun e => Prod.ext rfl ?_
  simp only [DBWrite.entry, DBWrite.addressDelegationUnspentIndex, CAddressUnspentValue.stored]
  split <;> rfl

theorem get_writeAddressIndex (banned : COutPoint → Bool) (vect : List (CAddressIndexKey × CAmount)) :
    (db.writeAddressIndex banned vect).get = replay db.get
      ((vect.filter fun (key, _) => !banned { hash := key.txhash, n := key.index }).map fun e =>
        (.addressIndex e.1, some (.amount e.2))) :=
  db.get_writeBatch_map _ fun _ => rfl

theorem get_eraseAddressIndex (vect : List (CAddressIndexKey × CAmount)) :
    (db.eraseAddressIndex vect).get = replay db.get (vect.map fun e => (.addressIndex e.1, none)) :=
  db.get_writeBatch_map vect fun _ => rfl

theorem get_writeDelegationAddressIndex (vect : List (CAddressDelegationIndexKey × CAmount)) :
    (db.writeDelegationAddressIndex vect).get =
      replay db.get (vect.map fun e => (.addressDelegationIndex e.1, some (.amount e.2))) :=
  db.get_writeBatch_map vect fun _ => rfl

theorem get_eraseAddressDelegationIndex (vect : List (CAddressDelegationIndexKey × CAmount)) :
    (db.eraseAddressDelegationIndex vect).get =
      replay db.get (vect.map fun e => (.addressDelegationIndex e.1, none)) :=
  db.get_writeBatch_map vect fun _ => rfl

theorem get_eraseAddressIdentification (vect : List CAddressIndexIteratorKey) :
    (db.eraseAddressIdentification vect).get =
      replay db.get (vect.map fun key => (.addressIdentIndex key, none)) :=
  db.get_writeBatch_map vect fun _ => rfl

theorem get_writeAddressIdentification (vect : List (CAddressIndexIteratorKey × CAddressOwnerIdentificator)) :
    (db.writeAddressIdentification vect).get = replay db.get
      ((vect.filter fun (key, _) => (db.readAddressIdentification key.hashBytes key.type).isNone).map fun e =>
        (.addressIdentIndex e.1, some (.owner e.2))) :=
  db.get_writeBatch_map _ fun _ => rfl

variable {db}

theorem get_updateSupplyIndex_of_ne {key : CSupplyIndexKey} {satoshis : CAmount} (ne : k ≠ .supplyIndex key) :
    (db.updateSupplyIndex key satoshis).get k = db.get k :=
  get_writeBatch_of_ne fun w mem => by
    rw [mem_singleton.mp mem]
    exact ne.symm

end CBlockTreeDB

variable {fAddressIndex fSpentIndex : Bool} {u v : IndexUpdates}

namespace IndexUpdates.Guarded

theorem empty : Guarded fAddressIndex fSpentIndex {} :=
  ⟨fun _ => ⟨rfl, rfl, rfl, rfl⟩, fun _ => rfl⟩

theorem append (hu : Guarded fAddressIndex fSpentIndex u) (hv : Guarded fAddressIndex fSpentIndex v) :
    Guarded fAddressIndex fSpentIndex (u ++ v) := by
  constructor
  case address =>
    intro off
    have ⟨u₁, u₂, u₃, u₄⟩ := hu.address off
    have ⟨v₁, v₂, v₃, v₄⟩ := hv.address off
    simp [append_def, u₁, u₂, u₃, u₄, v₁, v₂, v₃, v₄]
  case spent =>
    intro off
    simp [append_def, hu.spent off, hv.spent off]

theorem join {l : List IndexUpdates} (h : ∀ u ∈ l, Guarded fAddressIndex fSpentIndex u) :
    Guarded fAddressIndex fSpentIndex (.join l) := by
  induction l
  case nil => exact empty
  case cons u l ih =>
    have ⟨head, tail⟩ := forall_mem_cons.mp h
    exact head.append (ih tail)

end IndexUpdates.Guarded

namespace Globals

variable {g : Globals} {node : Node} {fSpentIndex : Bool} {updates : IndexUpdates} {k : DBKey}

theorem spentIndex_get (guarded : updates.Guarded node.fAddressIndex fSpentIndex) (db : CBlockTreeDB) :
    (if fSpentIndex then db.updateSpentIndex updates.spentIndex else db).get =
      replay db.get (updates.spentIndex.map fun e => (.spentIndex e.1, e.2.stored)) := by
  cases on : fSpentIndex
  case true => exact db.get_updateSpentIndex _
  case false =>
    rw [guarded.spent on]
    rfl

open CBlockTreeDB in
theorem writeIndexes_get (guarded : updates.Guarded node.fAddressIndex fSpentIndex)
    (identsKeys : List CAddressIdentification) (index : k.isIndex) :
    (g.writeIndexes node fSpentIndex updates identsKeys).get k =
      replay g.pblocktree.get ((updates.unbanned node.containsOutPoint).entries true) k := by
  simp only [writeIndexes, spentIndex_get guarded]
  cases h : node.fAddressIndex
  case false =>
    obtain ⟨h₁, h₂, h₃, h₄⟩ := guarded.address h
    refine replay_filter_congr ?_
    simp [entries, unbanned, h₁, h₂, h₃, h₄]
  case true =>
    simp only [if_true, get_updateAddressDelegationUnspentIndex, get_writeDelegationAddressIndex,
      get_writeAddressIdentification, get_updateAddressUnspentIndex, get_writeAddressIndex, ← replay_append]
    refine replay_filter_congr ?_
    simp only [entries, unbanned, filter_append, if_true]
    cases k
    all_goals first
      | (cases index; done)
      | simp only [filter_map_eq, ne_eq, reduceCtorEq, not_false_eq_true, implies_true, append_nil,
          nil_append]

open CBlockTreeDB in
theorem eraseIndexes_get (guarded : updates.Guarded node.fAddressIndex fSpentIndex)
    (removedIdentsKeys : List CAddressIndexIteratorKey) (index : k.isIndex) :
    (g.eraseIndexes node fSpentIndex updates removedIdentsKeys).get k =
      replay g.pblocktree.get (updates.entries false) k := by
  simp only [eraseIndexes]
  cases h : node.fAddressIndex
  case false =>
    obtain ⟨h₁, h₂, h₃, h₄⟩ := guarded.address h
    simp only [Bool.false_eq_true, if_false, spentIndex_get guarded]
    refine replay_filter_congr ?_
    simp [entries, h₁, h₂, h₃, h₄]
  case true =>
    simp only [if_true, get_eraseAddressIdentification, get_updateAddressDelegationUnspentIndex,
      get_updateAddressUnspentIndex, get_eraseAddressDelegationIndex, get_eraseAddressIndex, spentIndex_get guarded,
      ← replay_append]
    refine replay_filter_congr ?_
    simp only [entries, filter_append, Bool.false_eq_true, if_false]
    cases k
    all_goals first
      | (cases index; done)
      | simp only [filter_map_eq, ne_eq, reduceCtorEq, not_false_eq_true, implies_true, append_nil,
          nil_append]

variable {key : CAddressIndexIteratorKey}

theorem spentIndex_ident (fSpentIndex : Bool) (db : CBlockTreeDB) (vect : List (CSpentIndexKey × CSpentIndexValue)) :
    (if fSpentIndex then db.updateSpentIndex vect else db).get (.addressIdentIndex key) =
      db.get (.addressIdentIndex key) := by
  split
  case isTrue =>
    rw [CBlockTreeDB.get_updateSpentIndex]
    exact replay_of_not_mem (by simp)
  case isFalse => rfl

open CBlockTreeDB in
theorem writeIndexes_ident {identsKeys : List CAddressIdentification} (new : key ∉ identsKeys.map (·.iteratorKey)) :
    (g.writeIndexes node fSpentIndex updates identsKeys).get (.addressIdentIndex key) =
      g.pblocktree.get (.addressIdentIndex key) := by
  simp only [writeIndexes, spentIndex_ident]
  split
  case isFalse => rfl
  case isTrue =>
    simp only [get_updateAddressDelegationUnspentIndex, get_writeDelegationAddressIndex, get_writeAddressIdentification,
      get_updateAddressUnspentIndex, get_writeAddressIndex, ← replay_append]
    refine replay_of_not_mem fun mem => new ?_
    simp only [map_append, map_map, mem_append, mem_map, Function.comp_apply, reduceCtorEq,
      and_false, exists_false, false_or, or_false, mem_filter] at mem
    obtain ⟨_, ⟨⟨ident, mem, eq⟩, _⟩, same⟩ := mem
    subst eq
    exact mem_map.mpr ⟨ident, mem, DBKey.addressIdentIndex.inj same⟩

open CBlockTreeDB in
theorem eraseIndexes_ident (removedIdentsKeys : List CAddressIndexIteratorKey) :
    (g.eraseIndexes node fSpentIndex updates removedIdentsKeys).get (.addressIdentIndex key) =
      if node.fAddressIndex ∧ key ∈ removedIdentsKeys then none else g.pblocktree.get (.addressIdentIndex key) := by
  simp only [eraseIndexes]
  generalize same : (if fSpentIndex then g.pblocktree.updateSpentIndex updates.spentIndex else g.pblocktree) = db
  rw [← spentIndex_ident fSpentIndex g.pblocktree updates.spentIndex, same]
  cases node.fAddressIndex
  case false => rfl
  case true =>
    simp only [if_true, true_and, get_eraseAddressIdentification]
    split
    case isTrue mem => exact replay_const_of_mem (mem_map_of_mem mem)
    case isFalse notMem =>
      have kept : DBKey.addressIdentIndex key ∉ removedIdentsKeys.map DBKey.addressIdentIndex := by
        intro mem
        obtain ⟨key', mem, eq⟩ := mem_map.mp mem
        exact notMem (DBKey.addressIdentIndex.inj eq ▸ mem)
      rw [replay_const_of_not_mem kept]
      simp only [get_updateAddressDelegationUnspentIndex, get_updateAddressUnspentIndex,
        get_eraseAddressDelegationIndex, get_eraseAddressIndex, ← replay_append]
      exact replay_of_not_mem (by simp)

end Globals

section

variable [Crypto] {g g' : Globals} {node : Node} {fSpentIndex : Bool} {block : CBlock} {pindex pprev : CBlockIndex}
  {view : CCoinsViewCache} {r : Connected} {d : Disconnected} {vtxundo : List CTxUndo}

theorem connectBlock_returns (other : block.getHash ≠ node.consensus.hashGenesisBlock)
    (h : connectBlock .int64 node block pindex (some pprev) view false = .ok r) :
    ∃ s, connectTransactions .int64 node block pindex view.getBestBlock.2 = .ok s ∧ r.vtxundo = s.vtxundo ∧
      r.supplyChange = (s.nValueOut - s.nValueIn).bmod (2 ^ 64) ∧
      r.identsKeys = if node.fAddressIndex then identsKeys block pindex.nHeight else [] := by
  simp only [connectBlock, bind_eq_ok, exists_unit, failIf_eq_ok, not_not, if_neg other, Bool.false_eq_true, if_false,
    Except.ok.injEq] at h
  obtain ⟨_, _, _, _, s, loop, _, _, norm, eq⟩ := h
  subst eq
  exact ⟨s, loop, rfl, (Except.ok.inj norm).symm, rfl⟩

namespace Globals

structure Connects (g : Globals) (node : Node) (fSpentIndex : Bool) (block : CBlock) (pindex : CBlockIndex)
    (view : CCoinsViewCache) (r : Connected) (updates : IndexUpdates) (g' : Globals) : Prop where
  indexed : indexBlock node fSpentIndex block pindex view = .ok updates
  supply : g'.moneySupply.nSupply = g.moneySupply.nSupply + Int64.ofInt r.supplyChange
  get : ∀ k, k ≠ .supplyIndex (supplyKey pindex) →
    g'.pblocktree.get k = (g.writeIndexes node fSpentIndex updates r.identsKeys).get k

theorem connectBlock_ok {pprev : Option CBlockIndex} (other : block.getHash ≠ node.consensus.hashGenesisBlock)
    (h : g.connectBlock node fSpentIndex block pindex pprev view false = .ok (r, g')) :
    Qrax.connectBlock .int64 node block pindex pprev view false = .ok r ∧
      ∃ updates, g.Connects node fSpentIndex block pindex view r updates g' := by
  simp only [connectBlock, bind_eq_ok, Bool.false_or, decide_eq_true_eq, if_neg other, Except.ok.injEq,
    Prod.mk.injEq] at h
  have ⟨_, accepted, updates, indexed, eq, eq'⟩ := h
  subst eq eq'
  exact ⟨accepted, updates, indexed, rfl, fun k ne => CBlockTreeDB.get_updateSupplyIndex_of_ne ne⟩

structure Disconnects (g : Globals) (node : Node) (fSpentIndex : Bool) (block : CBlock) (pindex : CBlockIndex)
    (vtxundo : List CTxUndo) (view : CCoinsViewCache) (d : Disconnected) (updates : IndexUpdates) (g' : Globals) :
    Prop where
  unindexed : unindexBlock node fSpentIndex block pindex vtxundo view = .ok updates
  supply : g'.moneySupply.nSupply = g.moneySupply.nSupply + Int64.ofInt d.supplyChange
  get : ∀ k, k ≠ .supplyIndex (supplyKey pindex) → g'.pblocktree.get k =
    (g.eraseIndexes node fSpentIndex updates ((identsKeys block pindex.nHeight).map (·.iteratorKey))).get k

theorem disconnectBlock_ok (h : g.disconnectBlock node fSpentIndex block pindex pprev vtxundo view = .ok (d, g'))
    (done : d.result ≠ .DISCONNECT_FAILED) :
    Qrax.disconnectBlock .int64 node block pprev (some vtxundo) view = .ok d ∧
      ∃ updates, g.Disconnects node fSpentIndex block pindex vtxundo view d updates g' := by
  have ⟨d', disconnected, h⟩ := bind_eq_ok.mp h
  dsimp only at h
  split at h
  case isTrue failed =>
    cases h
    exact absurd failed done
  case isFalse =>
    have ⟨updates, unindexed, eq⟩ := bind_eq_ok.mp h
    cases eq
    exact ⟨disconnected, updates, unindexed, rfl, fun k ne => CBlockTreeDB.get_updateSupplyIndex_of_ne ne⟩

end Globals

end

section

variable [Crypto] {g g₁ g₂ : Globals} {node node' : Node} {fSpentIndex fSpentIndex' : Bool} {block : CBlock}
  {pindex pprev : CBlockIndex} {view view' : CCoinsViewCache} {r : Connected} {d : Disconnected}
  {key : CAddressIndexIteratorKey}

theorem Globals.connectBlock_ident
    (connected : g.connectBlock node fSpentIndex block pindex (some pprev) view false = .ok (r, g₁))
    (new : ¬(node.fAddressIndex ∧ key ∈ (identsKeys block pindex.nHeight).map (·.iteratorKey))) :
    g₁.pblocktree.get (.addressIdentIndex key) = g.pblocktree.get (.addressIdentIndex key) := by
  by_cases genesis : block.getHash = node.consensus.hashGenesisBlock
  case pos =>
    have ⟨_, _, eq⟩ := bind_eq_ok.mp connected
    rw [if_pos (by simp [genesis])] at eq
    cases eq
    rfl
  case neg =>
    have ⟨accepted, updates, connects⟩ := connectBlock_ok genesis connected
    have ⟨_, _, _, _, idents⟩ := connectBlock_returns genesis accepted
    rw [connects.get (.addressIdentIndex key) nofun]
    refine writeIndexes_ident fun mem => new ?_
    rw [idents] at mem
    split at mem
    case isTrue on => exact ⟨on, mem⟩
    case isFalse => cases mem

-- A block takes its registrations out of the identified addresses, even those put there by another.
theorem identification_restored_iff (same : node'.fAddressIndex = node.fAddressIndex)
    (connected : g.connectBlock node fSpentIndex block pindex (some pprev) view false = .ok (r, g₁))
    (disconnected : g₁.disconnectBlock node' fSpentIndex' block pindex pprev r.vtxundo view' = .ok (d, g₂))
    (done : d.result ≠ .DISCONNECT_FAILED) :
    (∀ key, g₂.pblocktree.get (.addressIdentIndex key) = g.pblocktree.get (.addressIdentIndex key)) ↔
      (node.fAddressIndex → ∀ ident ∈ identsKeys block pindex.nHeight,
        g.pblocktree.get (.addressIdentIndex ident.iteratorKey) = none) := by
  have ⟨_, updates, disconnects⟩ := Globals.disconnectBlock_ok disconnected done
  have after (key : CAddressIndexIteratorKey) : g₂.pblocktree.get (.addressIdentIndex key) =
      if node.fAddressIndex ∧ key ∈ (identsKeys block pindex.nHeight).map (·.iteratorKey) then none
      else g.pblocktree.get (.addressIdentIndex key) := by
    rw [disconnects.get (.addressIdentIndex key) nofun, Globals.eraseIndexes_ident, same]
    split
    case isTrue => rfl
    case isFalse new => exact Globals.connectBlock_ident connected new
  constructor
  · intro restored on ident mem
    rw [← restored, after, if_pos ⟨on, mem_map_of_mem mem⟩]
  · intro new key
    rw [after]
    split
    case isFalse => rfl
    case isTrue registered =>
      have ⟨on, mem⟩ := registered
      have ⟨ident, mem, eq⟩ := mem_map.mp mem
      exact eq ▸ (new on ident mem).symm

end

section

attribute [local instance] Crypto.toy

def Globals.roundTrip (g : Globals) (node : Node) (fSpentIndex : Bool) (block : CBlock) (pindex pprev : CBlockIndex)
    (view : CCoinsViewCache) : Except Failure (Connected × Globals × Disconnected × Globals) := do
  let (r, g₁) ← g.connectBlock node fSpentIndex block pindex (some pprev) view false
  let (d, g₂) ← g₁.disconnectBlock node fSpentIndex block pindex pprev r.vtxundo r.view
  .ok (r, g₁, d, g₂)

theorem Globals.roundTrip_ok {g : Globals} {node : Node} {fSpentIndex : Bool} {block : CBlock}
    {pindex pprev : CBlockIndex} {view : CCoinsViewCache} {t : Connected × Globals × Disconnected × Globals}
    (h : g.roundTrip node fSpentIndex block pindex pprev view = .ok t) :
    g.connectBlock node fSpentIndex block pindex (some pprev) view false = .ok (t.1, t.2.1) ∧
      t.2.1.disconnectBlock node fSpentIndex block pindex pprev t.1.vtxundo t.1.view = .ok (t.2.2.1, t.2.2.2) := by
  have ⟨⟨r, g₁⟩, connected, h⟩ := bind_eq_ok.mp h
  have ⟨⟨d, g₂⟩, disconnected, eq⟩ := bind_eq_ok.mp h
  cases eq
  exact ⟨connected, disconnected⟩

def registeringBlock : CBlock :=
  { exampleBlock exampleTip [minerTx] with vReg := [{ owner := 3, key := 4, type := 0 }] }

def registeredGlobals : Globals where
  pblocktree := CBlockTreeDB.empty.writeAddressIdentification
    [({ type := 0, hashBytes := 4 }, { type := .PUBKEY_ADDRESS, hashBytes := 9, blockHeight := 2 })]

-- The address was registered by an earlier block and is gone.
theorem identification_lost :
    let node := exampleNode .regtest exampleTip
    let key : CAddressIndexIteratorKey := { type := 0, hashBytes := 4 }
    ∃ r g₁ d g₂,
      registeredGlobals.connectBlock node true registeringBlock exampleIndex (some exampleTip) exampleView false =
        .ok (r, g₁) ∧
      g₁.disconnectBlock node true registeringBlock exampleIndex exampleTip r.vtxundo r.view = .ok (d, g₂) ∧
      d.result = .DISCONNECT_OK ∧ (registeredGlobals.pblocktree.get (.addressIdentIndex key)).isSome ∧
      g₂.pblocktree.get (.addressIdentIndex key) = none := by
  intro node key
  have run : ((registeredGlobals.roundTrip node true registeringBlock exampleIndex exampleTip exampleView).map
      fun t => (t.2.2.1.result, t.2.2.2.pblocktree.get (.addressIdentIndex key))) = .ok (.DISCONNECT_OK, none) := by
    decide +kernel
  have ⟨t, ok, eq⟩ := map_eq_ok.mp run
  have ⟨connected, disconnected⟩ := Globals.roundTrip_ok ok
  have ⟨result, lost⟩ := Prod.mk.inj eq
  exact ⟨_, _, _, _, connected, disconnected, result, by decide, lost⟩

theorem identification_restored_new :
    let node := exampleNode .regtest exampleTip
    ∃ r g₁ d g₂,
      ({} : Globals).connectBlock node true registeringBlock exampleIndex (some exampleTip) exampleView false =
        .ok (r, g₁) ∧
      g₁.disconnectBlock node true registeringBlock exampleIndex exampleTip r.vtxundo r.view = .ok (d, g₂) ∧
      ∀ key, g₂.pblocktree.get (.addressIdentIndex key) = ({} : Globals).pblocktree.get (.addressIdentIndex key) := by
  intro node
  have run : ((({} : Globals).roundTrip node true registeringBlock exampleIndex exampleTip exampleView).map
      fun t => t.2.2.1.result) = .ok .DISCONNECT_OK := by
    decide +kernel
  have ⟨t, ok, result⟩ := map_eq_ok.mp run
  have ⟨connected, disconnected⟩ := Globals.roundTrip_ok ok
  have done : t.2.2.1.result ≠ .DISCONNECT_FAILED := by
    rw [result]
    decide
  exact ⟨_, _, _, _, connected, disconnected,
    (identification_restored_iff rfl connected disconnected done).mpr fun _ _ _ => rfl⟩

end

end Qrax
