import Qrax.Validation.Theorems.UnspentIndex

open Fallible List

namespace Qrax

open CTransaction IndexUpdates CCoinsViewCache

-- What connecting and disconnecting a block leaves in the indexes.

theorem IndexUpdates.append_empty (updates : IndexUpdates) : updates ++ ({} : IndexUpdates) = updates := by
  simp only [append_def, append_nil]

theorem IndexUpdates.mem_entries_unbanned {put : Bool} {banned : COutPoint → Bool} {updates : IndexUpdates}
    {w : DBKey × Option DBValue} (h : w ∈ (updates.unbanned banned).entries put) : w ∈ updates.entries put := by
  simp only [entries, unbanned, mem_append, mem_map, mem_filter] at h ⊢
  refine h.imp_left (Or.imp_left (Or.imp_left (Or.imp_left ?_)))
  rintro ⟨e, ⟨mem, _⟩, eq⟩
  exact ⟨e, mem, eq⟩

section

variable [Crypto] {node : Node} {fSpentIndex : Bool} {nHeight i : ℕ} {tx : CTransaction} {txundo : CTxUndo}
  {u u' : Utxo} {l : List (CTransaction × CTxUndo)}

section

theorem CCoinsViewCache.accessCoins_eq (v : CCoinsViewCache) (vin : List CTxIn) :
    v.accessCoins vin = vin.map fun txin => (v.view.peek txin.prevout).getD {} := by
  induction vin generalizing v
  case nil => rfl
  case cons txin vin ih =>
    have ⟨v₁, access, fetched⟩ := v.accessCoin_eq txin.prevout
    simp only [accessCoins, access, map_cons, ih, fetched.same.peek]

def redoUpdates (node : Node) (fSpentIndex : Bool) (nHeight i : ℕ) (l : List (CTransaction × CTxUndo)) : IndexUpdates :=
  .join ((l.zipIdx i).map fun ((tx, txundo), i) => indexTx node fSpentIndex nHeight i tx txundo.vprevout)

variable {block : CBlock} {s s' : ConnectState}

theorem indexTx_accessCoins (step : Utxo.Step nHeight tx txundo s.view.utxo u') :
    indexTx node fSpentIndex nHeight i tx (s.view.accessCoins tx.vin) =
      indexTx node fSpentIndex nHeight i tx txundo.vprevout := by
  by_cases ordinary : !tx.isCoinBase && !tx.containsAssets
  case neg => simp only [indexTx, ordinary, Bool.false_and, Bool.false_eq_true, if_false]
  case pos =>
    have undo := step.undo
    rw [inputsSpent_of_ordinary ordinary] at undo
    rw [accessCoins_eq]
    congr 1
    refine map_injective_iff.mpr (Option.some_injective _) ?_
    rw [undo, map_map]
    refine map_congr_left fun txin mem => ?_
    obtain ⟨c, _, found⟩ : ∃ c, c ∈ txundo.vprevout ∧ some c = s.view.utxo txin.prevout := by
      have := mem_map_of_mem (f := fun txin : CTxIn => s.view.utxo txin.prevout) mem
      rwa [← undo, mem_map] at this
    rw [← found, Function.comp_apply, (peek_of_utxo found.symm).left]
    rfl

variable (fSpentIndex) in
theorem indexTxs_ok {params : Consensus.Params} (checked : ∀ p ∈ l, p.1.Checked params)
    (steps : Utxo.Steps nHeight s.view.utxo l u') (start : NoneBelow u s.view)
    (avoids : ∀ p ∈ l, p.1.Avoids node.containsOutPoint) (new : ∀ q ∈ l, ∀ p ∈ q.1.allCoins nHeight, u p.1 = none)
    (h : connectTxs .int64 node nHeight block i s (l.map (·.1)) = .ok s') :
    indexTxs node fSpentIndex nHeight block i s (l.map (·.1)) = .ok (redoUpdates node fSpentIndex nHeight i l) := by
  induction l generalizing s i
  case nil => rfl
  case cons p l ih =>
    have ⟨tx, txundo⟩ := p
    have ⟨checked₁, checked⟩ := forall_mem_cons.mp checked
    have ⟨avoids₁, avoids⟩ := forall_mem_cons.mp avoids
    have ⟨new₁, new⟩ := forall_mem_cons.mp new
    have ⟨s₁, head, tail⟩ := bind_eq_ok.mp h
    have ⟨_, _, _, connected⟩ := connectTx_ok checked₁.distinct head
    have ⟨start₁, step₁⟩ := connected.step start (avoids₁.coins_eq nHeight ▸ new₁) avoids₁
    cases steps
    case cons u₁ step steps =>
      have same : u₁ = s₁.view.utxo := step.result.trans step₁.result.symm
      have rest := ih checked (same ▸ steps) start₁ avoids new tail
      simp only [map_cons, indexTxs, head, ok_bind, rest, indexTx_accessCoins step]
      rfl

end

variable {s : DisconnectState}

theorem unindexInputs_ok {l : List ((CTxIn × Coin) × ℕ)} {source : ℕ → IndexSource} {v : CCoinsViewCache}
    (consistent : v.Consistent) (restorable : ∀ p ∈ l, p.1.2.Restorable) :
    unindexInputs node fSpentIndex source v l = .ok (.join (l.map fun ((txin, coin), j) =>
      unindexInput node fSpentIndex (source j) txin.prevout coin.out coin.nHeight)) := by
  induction l generalizing v
  case nil => rfl
  case cons p l ih =>
    have ⟨⟨txin, undo⟩, j⟩ := p
    have ⟨restorable₁, restorable⟩ := forall_mem_cons.mp restorable
    have ⟨v₁, apply, leads⟩ := applyTxInUndo_restores consistent restorable₁ txin.prevout
    have ⟨v₂, access, fetched⟩ := v₁.accessCoin_eq txin.prevout
    have found : v₁.utxo txin.prevout = some undo := by
      rw [leads.utxo]
      exact Function.update_self ..
    rw [(peek_of_utxo found).left, Option.getD_some] at access
    simp only [unindexInputs, apply, ok_bind, access, ih (fetched.consistent leads.consistent) restorable]
    rfl

theorem unindexTx_ok (on : node.fAddressIndex) (step : Utxo.Step nHeight tx txundo u u')
    (restorable : ∀ o c, u o = some c → c.Restorable) (consistent : s.view.Consistent) :
    unindexTx node fSpentIndex nHeight i tx txundo s =
      .ok (tx.undoUpdates node fSpentIndex nHeight i txundo.vprevout) := by
  simp only [unindexTx, on, if_true, CTransaction.undoUpdates]
  split
  case isTrue other =>
    have none : tx.inputsSpent = [] := inputsSpent_of_other (by
      rw [← Bool.not_or, other]
      decide)
    simp only [CTransaction.unspendUpdates, none]
    exact congrArg Except.ok (append_empty _).symm
  case isFalse ordinary =>
    have all : tx.inputsSpent = tx.vin := inputsSpent_of_ordinary (by
      rw [← Bool.not_or, Bool.eq_false_iff.mpr ordinary]
      rfl)
    have undone : Leads s.view _ (undoOutputs tx.getHash s 0 tx.vout).view :=
      undoOutputs_leads nHeight tx.isCoinBase tx.isCoinStake consistent
    rw [unindexInputs_ok undone.consistent fun p mem => ?_, CTransaction.unspendUpdates, all]
    · rfl
    · rw [← all] at mem
      exact restorable _ _ (step.coin (mem_reverse.mp mem)).left

theorem unindexTxs_ok {params : Consensus.Params} (on : node.fAddressIndex) (positive : nHeight ≠ 0)
    (checked : ∀ p ∈ l, p.1.Checked params) (steps : Utxo.Steps nHeight u l u')
    (restorable : ∀ o c, u o = some c → c.Restorable) (consistent : s.view.Consistent) (utxo : s.view.utxo = u') :
    unindexTxs node fSpentIndex nHeight s l.zipIdx.reverse = .ok (undoUpdates node fSpentIndex nHeight l) := by
  induction l using List.reverseRecOn generalizing s u'
  case nil => rfl
  case append_singleton l p ih =>
    have ⟨u₁, steps, last⟩ := steps.concat
    have ⟨checked, checked₁⟩ := forall_mem_append.mp checked
    have checked₁ := checked₁ p (mem_singleton_self p)
    have restorable₁ := steps.keeps restorable fun q mem => (checked q mem).restorable positive
    have ⟨s₁, done, undone⟩ := disconnectTx_ok node checked₁ last restorable₁ consistent utxo
    rw [undoUpdates_concat]
    simp only [zipIdx_append, zipIdx_singleton, reverse_concat, Nat.zero_add, unindexTxs, done, ok_bind,
      unindexTx_ok on last restorable₁ consistent, ih checked steps undone.consistent undone.utxo]

variable {node' : Node} {coins : List Coin} {k : DBKey} {w : DBKey × Option DBValue}

theorem indexSpent_key {source : IndexSource} {o : COutPoint} {prevout : CTxOut} {e : CSpentIndexKey × CSpentIndexValue}
    (h : e ∈ indexSpent node source o prevout) : e.1 = spentKey o := by
  simp only [indexSpent] at h
  split_ifs at h
  · cases h
  · rw [mem_singleton.mp h]
  · rcases mem_pair.mp h with rfl | rfl <;> rfl

-- Scripts taken apart alike under the old and new rules for cold staking.
def SameAddress (node node' : Node) (script : CScript) : Prop :=
  scriptAddress node.newP2CSRules script = scriptAddress node'.newP2CSRules script

theorem CTransaction.indexTx_cover (on : node.fAddressIndex) (on' : node'.fAddressIndex)
    (avoids : tx.Avoids node.containsOutPoint) (outputs : ∀ out ∈ tx.vout, SameAddress node node' out.scriptPubKey)
    (inputs : ∀ c ∈ coins, SameAddress node node' c.out.scriptPubKey)
    (h : w ∈ (indexTx node fSpentIndex nHeight i tx coins).entries true) :
    w.1 ∈ tx.undoKeys node' fSpentIndex nHeight i coins := by
  rw [indexTx_eq on, mem_entries_append] at h
  rw [mem_undoKeys on']
  cases h
  case inl h =>
    have ⟨txin, coin, j, mem, h⟩ := (mem_spendUpdates on).mp h
    have same : scriptAddress _ _ = _ := inputs coin (of_mem_zip (fst_mem_of_mem_zipIdx mem)).right
    rw [same] at h
    refine .inr ⟨txin, coin, j, mem, h.imp And.left (Or.imp And.left ?_)⟩
    rintro ⟨spent, e, mem, eq⟩
    rw [eq, indexSpent_key mem]
    exact ⟨spent, rfl⟩
  case inr h =>
    have ⟨out, n, mem, h⟩ := (mem_createUpdates avoids).mp h
    have same : scriptAddress _ _ = _ := outputs out (fst_mem_of_mem_zipIdx mem)
    rw [same] at h
    exact .inl ⟨out, n, mem, h.imp And.left And.left⟩

theorem mem_undoKeys : k ∈ undoKeys node fSpentIndex nHeight l ↔
    ∃ tx txundo i, ((tx, txundo), i) ∈ l.zipIdx ∧ k ∈ tx.undoKeys node fSpentIndex nHeight i txundo.vprevout := by
  simp only [undoKeys, undoUpdates, mem_map, mem_entries_join, mem_reverse,
    CTransaction.undoKeys, Prod.exists]
  tauto

theorem isIndex_of_mem_undoKeys (h : k ∈ undoKeys node fSpentIndex nHeight l) : k.isIndex := by
  have ⟨_, mem, eq⟩ := mem_map.mp h
  exact eq ▸ isIndex_of_mem mem

theorem redoUpdates_cover (on : node.fAddressIndex) (on' : node'.fAddressIndex)
    (avoids : ∀ p ∈ l, p.1.Avoids node.containsOutPoint)
    (outputs : ∀ p ∈ l, ∀ out ∈ p.1.vout, SameAddress node node' out.scriptPubKey)
    (inputs : ∀ p ∈ l, ∀ c ∈ p.2.vprevout, SameAddress node node' c.out.scriptPubKey)
    (h : w ∈ (redoUpdates node fSpentIndex nHeight 0 l).entries true) : w.1 ∈ undoKeys node' fSpentIndex nHeight l := by
  have ⟨⟨⟨tx, txundo⟩, i⟩, mem, h⟩ := mem_entries_join.mp h
  have tx_mem := fst_mem_of_mem_zipIdx mem
  exact mem_undoKeys.mpr ⟨tx, txundo, i, mem, indexTx_cover on on' (avoids _ tx_mem) (outputs _ tx_mem)
    (inputs _ tx_mem) h⟩

section

variable {k : DBKey} {o : COutPoint} {c : Coin}

theorem Utxo.Steps.origin (steps : Utxo.Steps nHeight u l u') (found : u' o = some c) :
    u o = some c ∨ ∃ q ∈ l, ∃ n < q.1.vout.length, o = ⟨q.1.getHash, UInt32.ofNat n⟩ := by
  induction steps
  case nil => exact .inl found
  case cons step _ ih =>
    cases ih found
    case inr later =>
      have ⟨q, mem, output⟩ := later
      exact .inr ⟨q, mem_cons_of_mem _ mem, output⟩
    case inl now =>
      rw [step.result] at now
      cases create_eq_some now
      case inr old => exact .inl (spend_eq_some old).left
      case inl new =>
        have ⟨n, _, upper, eq⟩ := (outputCoins_mem new).index
        rw [Nat.zero_add] at upper
        exact .inr ⟨_, mem_cons_self .., n, upper, eq⟩

theorem Utxo.Steps.undo_coins {P : Coin → Prop} (steps : Utxo.Steps nHeight u l u') (old : ∀ o c, u o = some c → P c)
    (new : ∀ q ∈ l, ∀ p ∈ q.1.allCoins nHeight, P p.2) : ∀ q ∈ l, ∀ c ∈ q.2.vprevout, P c := by
  induction steps
  case nil => nofun
  case cons u tx txundo _ _ _ step _ ih =>
    have ⟨new₁, new⟩ := forall_mem_cons.mp new
    refine forall_mem_cons.mpr ⟨fun c mem => ?_, ih (step.keeps old new₁) new⟩
    have mem := mem_map_of_mem (f := some) mem
    rw [step.undo, mem_map] at mem
    have ⟨txin, _, found⟩ := mem
    exact old _ c found

def SpentIn (l : List (CTransaction × CTxUndo)) (o : COutPoint) : Prop :=
  ∃ q ∈ l, o ∈ q.1.inputsSpent.map (·.prevout)

variable (on : node.fAddressIndex) (steps : Utxo.Steps nHeight u l u')
  (fresh : ∀ q ∈ l, ∀ n < q.1.vout.length, u ⟨q.1.getHash, UInt32.ofNat n⟩ = none)

include on steps fresh

theorem of_mem_undoKeys (h : k ∈ undoKeys node fSpentIndex nHeight l) :
    (∃ q ∈ l, k.txid = some q.1.getHash ∧ u.unspentIndex (scriptAddress node.newP2CSRules) k = none) ∨
    ∃ o c, u o = some c ∧ SpentIn l o ∧ (k ∈ (scriptAddress node.newP2CSRules c.out.scriptPubKey).unspentKeys o ∨
      fSpentIndex ∧ k = .spentIndex (spentKey o)) := by
  induction l using List.reverseRecOn generalizing u'
  case nil => cases h
  case append_singleton l p ih =>
    have ⟨u₁, steps, last⟩ := steps.concat
    have ⟨fresh, fresh₁⟩ := forall_mem_append.mp fresh
    have here : p ∈ l ++ [p] := mem_append_right l (mem_singleton_self p)
    cases mem_undoKeys_concat.mp h
    case inr earlier =>
      refine (ih steps fresh earlier).imp ?_ ?_
      · exact fun ⟨q, mem, own⟩ => ⟨q, mem_append_left _ mem, own⟩
      · exact fun ⟨o, c, found, ⟨q, mem, spent⟩, key⟩ => ⟨o, c, found, ⟨q, mem_append_left _ mem, spent⟩, key⟩
    case inl now =>
      have amount {a : ScriptAddress} {source : IndexSource} {spending : Bool} (hash : source.txhash = p.1.getHash)
          (key : k ∈ a.amountKeys source spending) :
          k.txid = some p.1.getHash ∧ u.unspentIndex (scriptAddress node.newP2CSRules) k = none :=
        have ⟨other, txid⟩ := DBKey.of_mem_amountKeys key
        ⟨hash ▸ txid, Utxo.unspentIndex_of_other other⟩
      rcases (CTransaction.mem_undoKeys on).mp now with ⟨out, n, output, key | key⟩ | ⟨txin, coin, j, input, key⟩
      · have outPoint := DBKey.unspentOutPoint_of_mem key
        exact .inl ⟨p, here, DBKey.txid_of_unspentOutPoint outPoint, Utxo.unspentIndex_of_none outPoint
          (fresh₁ p (mem_singleton_self p) n (snd_lt_of_mem_zipIdx output))⟩
      · exact .inl ⟨p, here, amount rfl key⟩
      · have ⟨found, spent⟩ := last.coin input
        -- A coin created in the block belongs to one of its transactions.
        rcases steps.origin found with old | ⟨q, mem, n, upper, eq⟩
        · rcases key with key | key | key
          · exact .inr ⟨_, coin, old, ⟨p, here, mem_map_of_mem spent⟩, .inl key⟩
          · exact .inl ⟨p, here, amount rfl key⟩
          · exact .inr ⟨_, coin, old, ⟨p, here, mem_map_of_mem spent⟩, .inr key⟩
        · rcases key with key | key | ⟨_, rfl⟩
          · rw [eq] at key
            have outPoint := DBKey.unspentOutPoint_of_mem key
            exact .inl ⟨q, mem_append_left _ mem, DBKey.txid_of_unspentOutPoint outPoint,
              Utxo.unspentIndex_of_none outPoint (fresh q mem n upper)⟩
          · exact .inl ⟨p, here, amount rfl key⟩
          · rw [eq]
            exact .inl ⟨q, mem_append_left _ mem, rfl, Utxo.unspentIndex_of_other rfl⟩

theorem mem_undoKeys_of_spent (found : u o = some c) (spent : SpentIn l o)
    (h : k ∈ (scriptAddress node.newP2CSRules c.out.scriptPubKey).unspentKeys o ∨
      fSpentIndex ∧ k = .spentIndex (spentKey o)) : k ∈ undoKeys node fSpentIndex nHeight l := by
  induction l using List.reverseRecOn generalizing u'
  case nil =>
    have ⟨_, mem, _⟩ := spent
    cases mem
  case append_singleton l p ih =>
    have ⟨u₁, steps, last⟩ := steps.concat
    have ⟨fresh, _⟩ := forall_mem_append.mp fresh
    have ⟨q, mem, input⟩ := spent
    rw [mem_undoKeys_concat]
    cases mem_append.mp mem
    case inl mem => exact .inr (ih steps fresh ⟨q, mem, input⟩)
    case inr mem =>
      rw [mem_singleton.mp mem] at input
      have ⟨txin, mem, eq⟩ := mem_map.mp input
      -- The coin is from before, as no output of the block has its outpoint.
      have ⟨coin, found₁⟩ : ∃ coin, u₁ o = some coin := by
        have := mem_map_of_mem (f := fun txin : CTxIn => u₁ txin.prevout) mem
        rw [← last.undo, mem_map] at this
        have ⟨coin, _, eq'⟩ := this
        exact ⟨coin, eq ▸ eq'.symm⟩
      have same : c = coin := by
        rcases steps.origin found₁ with old | ⟨q, mem, n, upper, eq⟩
        · exact Option.some.inj (found.symm.trans old)
        · rw [eq, fresh q mem n upper] at found
          cases found
      have ⟨txin, j, input, eq⟩ := last.exists_coin found₁ input
      refine .inl ((CTransaction.mem_undoKeys on).mpr (.inr ⟨txin, coin, j, input, ?_⟩))
      rw [eq, ← same]
      exact h.imp_right .inr

end

section


omit [Crypto] in
theorem ScriptAddress.updates_guarded (a : ScriptAddress) (o : COutPoint) (source : IndexSource) (spending : Bool)
    (nValue : CAmount) (value : CAddressUnspentValue) (fSpentIndex : Bool) :
    Guarded true fSpentIndex (a.updates o source spending nValue value) := by
  refine ⟨by rintro ⟨⟩, fun _ => ?_⟩
  unfold updates
  split <;> rfl

theorem redoUpdates_guarded (on : node.fAddressIndex) :
    Guarded node.fAddressIndex fSpentIndex (redoUpdates node fSpentIndex nHeight i l) := by
  rw [on]
  refine .join fun updates mem => ?_
  obtain ⟨⟨⟨tx, txundo⟩, i⟩, _, eq⟩ := mem_map.mp mem
  subst eq
  simp only [indexTx_eq on]
  refine .append (.join fun updates mem => ?_) (.join fun updates mem => ?_)
  · obtain ⟨p, _, eq⟩ := mem_map.mp mem
    subst eq
    exact ⟨by rintro ⟨⟩, fun off => if_neg (Bool.eq_false_iff.mp off)⟩
  · obtain ⟨p, _, eq⟩ := mem_map.mp mem
    subst eq
    simp only [indexOutput]
    split
    · exact .empty
    · exact ScriptAddress.updates_guarded ..

theorem undoUpdates_guarded (on : node.fAddressIndex) :
    Guarded node.fAddressIndex fSpentIndex (undoUpdates node fSpentIndex nHeight l) := by
  rw [on]
  refine .join fun updates mem => ?_
  obtain ⟨⟨⟨tx, txundo⟩, i⟩, _, eq⟩ := mem_map.mp mem
  subst eq
  refine .append (.join fun updates mem => ?_) (.join fun updates mem => ?_)
  · obtain ⟨p, _, eq⟩ := mem_map.mp mem
    subst eq
    exact ScriptAddress.updates_guarded ..
  · obtain ⟨p, _, eq⟩ := mem_map.mp mem
    subst eq
    exact ⟨by rintro ⟨⟩, fun off => if_neg (Bool.eq_false_iff.mp off)⟩

end

section

variable {block : CBlock} {pindex pprev : CBlockIndex} {view view' : CCoinsViewCache} {r : Connected} {d : Disconnected}

def Connected.undone (r : Connected) (block : CBlock) : List (CTransaction × CTxUndo) :=
  block.vtx.zip ({} :: r.vtxundo)

structure Connected.Indexed (r : Connected) (node : Node) (fSpentIndex : Bool) (block : CBlock) (pindex : CBlockIndex)
    (view : CCoinsViewCache) : Prop where
  txs : (r.undone block).map (·.1) = block.vtx
  steps : Utxo.Steps pindex.nHeight view.utxo (r.undone block) r.view.utxo
  consistent : r.view.Consistent
  indexed : indexBlock node fSpentIndex block pindex view =
    .ok (redoUpdates node fSpentIndex pindex.nHeight 0 (r.undone block))

theorem indexBlock_eq (anchor : view.AnchorFound) : indexBlock node fSpentIndex block pindex view =
    indexTxs node fSpentIndex pindex.nHeight block 0 (loopStart view) block.vtx := by
  have ⟨v₁, best, fetched₁⟩ := view.getBestBlock_eq
  have ⟨v₂, anchor', fetched₂⟩ := v₁.getBestAnchor_eq
  have ⟨v₃, tree, fetched₃⟩ := v₂.getSaplingAnchorAt_eq v₁.view.bestAnchor
  have ⟨saplingTree, found⟩ := Option.isSome_iff_exists.mp anchor
  rw [fetched₂.same.anchorAt, fetched₁.same.anchorAt, fetched₁.same.bestAnchor, found] at tree
  rw [fetched₁.same.bestAnchor] at anchor'
  simp only [indexBlock, loopStart, best, anchor', tree, Option.getD_some]

-- What `ConnectBlock` may assume: the coins can be put back, none is in the way of the block's outputs, and no output
-- is banned.
structure Ready (node : Node) (block : CBlock) (pindex : CBlockIndex) (view : CCoinsViewCache) : Prop where
  consistent : view.Consistent
  restorable : ∀ o c, view.utxo o = some c → c.Restorable
  earned : block.FlagEarned node.params
  other : block.getHash ≠ node.consensus.hashGenesisBlock
  positive : pindex.nHeight ≠ 0
  avoids : ∀ tx ∈ block.vtx, tx.Avoids node.containsOutPoint
  fresh : ∀ tx ∈ block.vtx, ∀ n < tx.vout.length, view.utxo ⟨tx.getHash, UInt32.ofNat n⟩ = none

theorem Ready.new (ready : Ready node block pindex view) :
    ∀ tx ∈ block.vtx, ∀ p ∈ tx.allCoins pindex.nHeight, view.utxo p.1 = none := by
  intro tx mem p coin
  have ⟨n, _, upper, eq⟩ := (outputCoins_mem coin).index
  rw [eq]
  exact ready.fresh tx mem n (by omega)

theorem connectBlock_indexed (ready : Ready node block pindex view)
    (accepted : connectBlock .int64 node block pindex (some pprev) view false = .ok r) :
    r.Indexed node fSpentIndex block pindex view := by
  have ⟨checked, _, connected⟩ := connectBlock_ok ready.earned accepted
  cases connected
  case genesis genesis _ => exact absurd genesis ready.other
  case loop s _ anchor loop _ undo view' =>
    have same := s.view.finished_sameCoins s.saplingTree pindex.phashBlock false
    rw [← view'] at same
    have fetched := loopStart_fetched view
    have start := (NoneBelow.start ready.consistent).fetched fetched
    have ⟨stop, txundos, length, written, steps⟩ :=
      (connectTxs_ok checked.transactions loop).steps start ready.avoids ready.new
    have ⟨zip, count⟩ := zip_vtxundo checked.coinBase length steps.undo_head
    have undone : r.undone block = block.vtx.zip txundos := by
      rw [Connected.undone, undo, written]
      exact zip
    have txs : (block.vtx.zip txundos).map (·.1) = block.vtx := map_fst_zip length.ge
    have member (p : CTransaction × CTxUndo) (mem : p ∈ block.vtx.zip txundos) : p.1 ∈ block.vtx :=
      (of_mem_zip mem).left
    have collected := indexTxs_ok fSpentIndex (fun p mem => checked.transactions p.1 (member p mem)) steps start
      (fun p mem => ready.avoids p.1 (member p mem)) (fun p mem => ready.new p.1 (member p mem)) (txs.symm ▸ loop)
    rw [txs] at collected
    constructor
    case txs => rw [undone, txs]
    case steps => rw [undone, same.utxo, ← fetched.utxo]; exact steps
    case consistent => exact same.consistent stop.consistent
    case indexed => rw [indexBlock_eq anchor, undone, collected]

section

variable {node' : Node} {params : Consensus.Params} (indexed : r.Indexed node fSpentIndex block pindex view)
  (checked : ∀ tx ∈ block.vtx, tx.Checked params) (positive : pindex.nHeight ≠ 0)
  (restorable : ∀ o c, view.utxo o = some c → c.Restorable)
  (consistent : view'.Consistent) (utxo : view'.utxo = r.view.utxo)

include indexed checked positive restorable consistent utxo

theorem unindexBlock_ok (on : node'.fAddressIndex) : unindexBlock node' fSpentIndex block pindex r.vtxundo view' =
    .ok (undoUpdates node' fSpentIndex pindex.nHeight (r.undone block)) :=
  unindexTxs_ok on positive (fun p mem => checked p.1 (of_mem_zip mem).left) indexed.steps restorable consistent
    utxo

end

namespace Globals

variable {node' : Node} {g g' g₁ g₂ : Globals} {k : DBKey}

omit [Crypto] in
theorem ne_supplyIndex (index : k.isIndex) : k ≠ .supplyIndex (supplyKey pindex) := by
  rintro rfl
  cases index

theorem connectBlock_get (ready : Ready node block pindex view) (on : node.fAddressIndex)
    (connected : g.connectBlock node fSpentIndex block pindex (some pprev) view false = .ok (r, g₁))
    (index : k.isIndex) :
    g₁.pblocktree.get k = Journal.replay g.pblocktree.get
      (((redoUpdates node fSpentIndex pindex.nHeight 0 (r.undone block)).unbanned node.containsOutPoint).entries true)
      k := by
  have ⟨accepted, _, connects⟩ := connectBlock_ok ready.other connected
  have collected := connects.indexed
  rw [(connectBlock_indexed ready accepted).indexed] at collected
  cases collected
  rw [connects.get k (ne_supplyIndex index), writeIndexes_get (redoUpdates_guarded on) _ index]

theorem connectBlock_kept (ready : Ready node block pindex view) (on : node.fAddressIndex) (on' : node'.fAddressIndex)
    (coins : ∀ o c, view.utxo o = some c → SameAddress node node' c.out.scriptPubKey)
    (outputs : ∀ tx ∈ block.vtx, ∀ out ∈ tx.vout, SameAddress node node' out.scriptPubKey)
    (connected : g.connectBlock node fSpentIndex block pindex (some pprev) view false = .ok (r, g₁)) (index : k.isIndex)
    (kept : k ∉ undoKeys node' fSpentIndex pindex.nHeight (r.undone block)) :
    g₁.pblocktree.get k = g.pblocktree.get k := by
  have ⟨accepted, _⟩ := connectBlock_ok ready.other connected
  have indexed : r.Indexed node fSpentIndex block pindex view := connectBlock_indexed ready accepted
  have member (p : CTransaction × CTxUndo) (mem : p ∈ r.undone block) : p.1 ∈ block.vtx := (of_mem_zip mem).left
  have inputs := indexed.steps.undo_coins coins fun q mem p coin =>
    outputs q.1 (member q mem) p.2.out (outputCoins_mem coin).out
  rw [connectBlock_get ready on connected index]
  refine Journal.replay_of_not_mem fun mem => kept ?_
  have ⟨w, mem, eq⟩ := mem_map.mp mem
  rw [← eq]
  exact redoUpdates_cover on on' (fun p mem => ready.avoids p.1 (member p mem))
    (fun p mem => outputs p.1 (member p mem)) inputs (mem_entries_unbanned mem)

variable (ready : Ready node block pindex view) (on' : node'.fAddressIndex)
  (accepted : Qrax.connectBlock .int64 node block pindex (some pprev) view false = .ok r)

include ready on' accepted

theorem disconnectBlock_get (consistent : view'.Consistent) (utxo : view'.utxo = r.view.utxo)
    (disconnected : g.disconnectBlock node' fSpentIndex block pindex pprev r.vtxundo view' = .ok (d, g'))
    (done : d.result ≠ .DISCONNECT_FAILED) (index : k.isIndex) :
    g'.pblocktree.get k = Journal.patch (view.utxo.unspentIndex (scriptAddress node'.newP2CSRules)) g.pblocktree.get
      (undoKeys node' fSpentIndex pindex.nHeight (r.undone block)) k := by
  have ⟨_, _, disconnects⟩ := disconnectBlock_ok disconnected done
  have ⟨checked, _⟩ := Qrax.connectBlock_ok ready.earned accepted
  have indexed : r.Indexed node fSpentIndex block pindex view := connectBlock_indexed ready accepted
  have member (p : CTransaction × CTxUndo) (mem : p ∈ r.undone block) : p.1 ∈ block.vtx := (of_mem_zip mem).left
  have collected := disconnects.unindexed
  rw [unindexBlock_ok indexed checked.transactions ready.positive ready.restorable consistent utxo on'] at collected
  cases collected
  have ⟨eq, _⟩ := indexed.steps.undone fSpentIndex on' (fun o c found => (ready.restorable o c found).unspent)
    (fun q mem p coin => ((checked.transactions q.1 (member q mem)).restorable ready.positive p coin).unspent)
    (fun q mem => ready.fresh q.1 (member q mem)) g.pblocktree.get
  rw [disconnects.get k (ne_supplyIndex index), eraseIndexes_get (undoUpdates_guarded on') _ index, eq]

end Globals

def CBlock.Spends (block : CBlock) (o : COutPoint) : Prop :=
  ∃ tx ∈ block.vtx, o ∈ tx.inputsSpent.map (·.prevout)

-- The indexes know an unspent coin: its records are there, none of them a spend.
structure CBlockTreeDB.Knows (db : CBlockTreeDB) (node : Node) (fSpentIndex : Bool) (o : COutPoint) (c : Coin) :
    Prop where
  unspent : ∀ k ∈ (scriptAddress node.newP2CSRules c.out.scriptPubKey).unspentKeys o,
    db.get k = some (.unspent (unspentValue c.out c.nHeight))
  spent : fSpentIndex → db.get (.spentIndex (spentKey o)) = none

-- Connecting and disconnecting a block restores the indexes just when they know the coins it spends.
theorem indexes_restored_iff {node' : Node} {g g₁ g₂ : Globals} (ready : Ready node block pindex view)
    (on : node.fAddressIndex) (on' : node'.fAddressIndex) (rules : node'.newP2CSRules = node.newP2CSRules)
    (unindexed : ∀ tx ∈ block.vtx, ∀ k : DBKey, k.txid = some tx.getHash → g.pblocktree.get k = none)
    (connected : g.connectBlock node fSpentIndex block pindex (some pprev) view false = .ok (r, g₁))
    (consistent : view'.Consistent) (utxo : view'.utxo = r.view.utxo)
    (disconnected : g₁.disconnectBlock node' fSpentIndex block pindex pprev r.vtxundo view' = .ok (d, g₂))
    (done : d.result ≠ .DISCONNECT_FAILED) :
    (∀ k : DBKey, k.isIndex → g₂.pblocktree.get k = g.pblocktree.get k) ↔
      ∀ o c, view.utxo o = some c → block.Spends o → g.pblocktree.Knows node fSpentIndex o c := by
  obtain ⟨accepted, _⟩ := Globals.connectBlock_ok ready.other connected
  have indexed : r.Indexed node fSpentIndex block pindex view := connectBlock_indexed ready accepted
  have member (p : CTransaction × CTxUndo) (mem : p ∈ r.undone block) : p.1 ∈ block.vtx := (of_mem_zip mem).left
  have fresh (q : CTransaction × CTxUndo) (mem : q ∈ r.undone block) := ready.fresh q.1 (member q mem)
  have alike (script : CScript) : SameAddress node node' script := by
    rw [SameAddress, rules]
  have after (k : DBKey) (index : k.isIndex) : g₂.pblocktree.get k =
      if k ∈ undoKeys node' fSpentIndex pindex.nHeight (r.undone block) then
        view.utxo.unspentIndex (scriptAddress node'.newP2CSRules) k
      else g.pblocktree.get k := by
    rw [Globals.disconnectBlock_get ready on' accepted consistent utxo disconnected done index, Journal.patch]
    split
    case isTrue => rfl
    case isFalse kept =>
      exact Globals.connectBlock_kept ready on on' (fun _ _ _ => alike _) (fun _ _ _ _ => alike _) connected index kept
  constructor
  case mp =>
    rintro restored o c found ⟨tx, mem, spent⟩
    rw [← indexed.txs] at mem
    obtain ⟨q, mem, eq⟩ := mem_map.mp mem
    have old (k : DBKey) (key : k ∈ (scriptAddress node'.newP2CSRules c.out.scriptPubKey).unspentKeys o ∨
        fSpentIndex ∧ k = .spentIndex (spentKey o)) :
        g.pblocktree.get k = view.utxo.unspentIndex (scriptAddress node'.newP2CSRules) k := by
      have touched : k ∈ undoKeys node' fSpentIndex pindex.nHeight (r.undone block) :=
        mem_undoKeys_of_spent on' indexed.steps fresh found ⟨q, mem, eq ▸ spent⟩ key
      have index := isIndex_of_mem_undoKeys touched
      rw [← restored k index, after k index, if_pos touched]
    constructor
    case unspent =>
      intro k key
      rw [← rules] at key
      rw [old k (.inl key), Utxo.unspentIndex_of_mem found key]
    case spent =>
      intro on
      rw [old _ (.inr ⟨on, rfl⟩), Utxo.unspentIndex_of_other rfl]
  case mpr =>
    intro knows k index
    rw [after k index]
    split
    case isFalse => rfl
    case isTrue touched =>
      rcases of_mem_undoKeys on' indexed.steps fresh touched with ⟨q, mem, own, none⟩ | ⟨o, c, found, spent, key⟩
      · rw [none, unindexed q.1 (member q mem) k own]
      · obtain ⟨q, mem, spent⟩ := spent
        have known := knows o c found ⟨q.1, member q mem, spent⟩
        rcases key with key | ⟨on, rfl⟩
        · rw [Utxo.unspentIndex_of_mem found key, known.unspent k (rules ▸ key)]
        · rw [Utxo.unspentIndex_of_other rfl, known.spent on]

end

end

section

attribute [local instance] Crypto.toy

def oneScript : CScript :=
  [0xa9, 0x14, 0x51] ++ List.replicate 19 0 ++ [0x87]

def oneCoin : Coin where
  out := { nValue := 100, scriptPubKey := oneScript }
  nHeight := 3

def oneView : CCoinsViewCache where
  base := .db {
    coins := AList.insert ⟨5, 0⟩ oneCoin ∅
    bestBlock := some 7
  }

def oneTx : CTransaction where
  vin := [{ prevout := ⟨5, 0⟩, scriptSig := [0x01, 0x51] }]
  vout := [{ nValue := 90, scriptPubKey := oneScript }]

def oneChangeTx : CTransaction where
  vin := [{ prevout := ⟨oneTx.getHash, 0⟩, scriptSig := [0x01, 0x51] }]
  vout := [{ nValue := 80, scriptPubKey := oneScript }]

def oneBlock : CBlock :=
  exampleBlock exampleTip [minerTx, oneTx, oneChangeTx]

def oneKey : CAddressUnspentKey :=
  (scriptAddress false oneScript).unspentKey ⟨5, 0⟩

-- Without the coin's record from before the block leaves one.
theorem unspent_record_appears :
    let node := exampleNode .regtest exampleTip
    ∃ r g₁ d g₂,
      ({} : Globals).connectBlock node true oneBlock exampleIndex (some exampleTip) oneView false = .ok (r, g₁) ∧
      g₁.disconnectBlock node true oneBlock exampleIndex exampleTip r.vtxundo r.view = .ok (d, g₂) ∧
      d.result = .DISCONNECT_OK ∧ ({} : Globals).pblocktree.get (.addressUnspentIndex oneKey) = none ∧
      g₂.pblocktree.get (.addressUnspentIndex oneKey) = some (.unspent (unspentValue oneCoin.out 3)) := by
  intro node
  have run : ((({} : Globals).roundTrip node true oneBlock exampleIndex exampleTip oneView).map
      fun t => (t.2.2.1.result, t.2.2.2.pblocktree.get (.addressUnspentIndex oneKey))) =
      .ok (.DISCONNECT_OK, some (.unspent (unspentValue oneCoin.out 3))) := by
    decide +kernel
  have ⟨t, ok, eq⟩ := map_eq_ok.mp run
  have ⟨connected, disconnected⟩ := Globals.roundTrip_ok ok
  have ⟨result, left⟩ := Prod.mk.inj eq
  exact ⟨_, _, _, _, connected, disconnected, result, rfl, left⟩

theorem oneView_ready : Ready (exampleNode .regtest exampleTip) oneBlock exampleIndex oneView where
  consistent := ⟨trivial, nofun⟩
  restorable := fun o c found => (utxo_singleCoin found).right ▸ ⟨rfl, by decide, by decide⟩
  earned := exampleBlock_earned _ _ _
  other := by decide
  positive := by decide
  avoids := fun _ _ _ _ => rfl
  fresh := by decide

def oneGlobals : Globals where
  pblocktree := CBlockTreeDB.empty.updateAddressUnspentIndex [(oneKey, unspentValue oneCoin.out 3)]

theorem oneGlobals_unindexed {tx : CTransaction} (mem : tx ∈ oneBlock.vtx) {k : DBKey}
    (own : k.txid = some tx.getHash) : oneGlobals.pblocktree.get k = none := by
  have other : ∀ tx ∈ oneBlock.vtx, tx.getHash ≠ 5 := by
    decide
  rw [oneGlobals, CBlockTreeDB.get_updateAddressUnspentIndex, Journal.replay_of_not_mem]
  · rfl
  · intro named
    rw [map_singleton, map_singleton, mem_singleton] at named
    rw [named] at own
    exact other tx mem (Option.some.inj own).symm

theorem indexes_restored_payments :
    let node := exampleNode .regtest exampleTip
    ∃ r g₁ d g₂,
      oneGlobals.connectBlock node true oneBlock exampleIndex (some exampleTip) oneView false = .ok (r, g₁) ∧
      g₁.disconnectBlock node true oneBlock exampleIndex exampleTip r.vtxundo r.view = .ok (d, g₂) ∧
      ∀ k : DBKey, k.isIndex → g₂.pblocktree.get k = oneGlobals.pblocktree.get k := by
  intro node
  have run : ((oneGlobals.roundTrip node true oneBlock exampleIndex exampleTip oneView).map
      fun t => t.2.2.1.result) = .ok .DISCONNECT_OK := by
    decide +kernel
  have ⟨t, ok, result⟩ := map_eq_ok.mp run
  have ⟨connected, disconnected⟩ := Globals.roundTrip_ok ok
  have ⟨accepted, _⟩ := Globals.connectBlock_ok oneView_ready.other connected
  have indexed : t.1.Indexed node true oneBlock exampleIndex oneView := connectBlock_indexed oneView_ready accepted
  have done : t.2.2.1.result ≠ .DISCONNECT_FAILED := by
    rw [result]
    decide
  refine ⟨_, _, _, _, connected, disconnected, (indexes_restored_iff oneView_ready rfl rfl rfl
    (fun _ mem _ own => oneGlobals_unindexed mem own) connected indexed.consistent rfl disconnected done).mpr ?_⟩
  intro o c found _
  have ⟨eq, eq'⟩ := CCoinsViewCache.utxo_singleCoin found
  subst eq eq'
  exact ⟨by decide, fun _ => by decide⟩

end

end Qrax
