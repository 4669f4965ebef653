import Qrax.Chain.Theorems.Chain
import Qrax.Validation.Theorems.Undo

open Fallible List Journal

namespace Qrax

open CCoinsViewCache (Fetched Framed Leads NoneBelow SameCoins)
open Forest (Anc)
open CTransaction CCoinsView Utxo

section

variable [Crypto]

-- A transaction with an id that no coin has, and its undo data.
structure Utxo.Applied (node : Node) (nHeight : ℕ) (tx : CTransaction) (txundo : CTxUndo) (u u' : Utxo) : Prop where
  undo : txundo.vprevout.map some = tx.inputsSpent.map fun txin => u txin.prevout
  new : ∀ o, o.hash = tx.getHash → u o = none
  result : u' = tx.applied node nHeight tx.inputsSpent u

inductive Utxo.Applieds (node : Node) (nHeight : ℕ) : Utxo → List (CTransaction × CTxUndo) → Utxo → Prop
  | nil {u} : Applieds node nHeight u [] u
  | cons {u tx txundo u₁ l u'} : Utxo.Applied node nHeight tx txundo u u₁ → Applieds node nHeight u₁ l u' →
    Applieds node nHeight u ((tx, txundo) :: l) u'

variable {skip : COutPoint → Bool} {txid : Uint256} {nHeight i : ℕ} {fCoinBase fCoinStake : Bool} {vout : List CTxOut}

omit [Crypto] in
theorem outputWrites_hash {w : COutPoint × Option Coin}
    (h : w ∈ outputWrites skip txid nHeight fCoinBase fCoinStake i vout) : w.1.hash = txid := by
  induction vout generalizing i
  case nil => cases h
  case cons out vout ih =>
    simp only [outputWrites] at h
    split_ifs at h
    case pos => exact (mem_cons.mp h).elim (· ▸ rfl) ih
    case pos => exact ih h
    case neg => exact (mem_cons.mp h).elim (· ▸ rfl) ih

variable {node : Node} {tx : CTransaction} {txundo : CTxUndo} {u u' : Utxo} {o : COutPoint}

def CTransaction.written (tx : CTransaction) (node : Node) (nHeight : ℕ) : List COutPoint :=
  tx.inputsSpent.map (·.prevout) ++ (tx.writes (node.skips nHeight) nHeight).map (·.1)

theorem Utxo.Applied.same (step : Applied node nHeight tx txundo u u') (h : o ∉ tx.touched nHeight) :
    u' o = u o := by
  have ⟨unspent, uncreated⟩ := not_or.mp (mem_append.not.mp h)
  rw [step.result]
  by_cases written : o ∈ (tx.writes (node.skips nHeight) nHeight).map (·.1)
  case neg => rw [applied_of_not_written written, spend_of_not_mem unspent]
  case pos =>
    -- A banned output that is unspendable as well: it was not there.
    have ⟨w, mem, eq⟩ := mem_map.mp written
    rw [step.new o (eq ▸ outputWrites_hash mem)]
    have created : o ∉ (tx.move node nHeight).creates := by
      intro created
      have ⟨p, coin, eq⟩ := mem_map.mp created
      exact uncreated (mem_map.mpr ⟨p, mem_outputs_of_mem_coins coin, eq⟩)
    cases applied_of_not_created u tx.inputsSpent created
    case inl none => exact none
    case inr left => rw [left, spend_of_not_mem unspent, step.new o (eq ▸ outputWrites_hash mem)]

theorem CTransaction.applied_eq_patch (u w : Utxo) :
    tx.applied node nHeight tx.inputsSpent w =
      patch (tx.applied node nHeight tx.inputsSpent u) w (tx.written node nHeight) := by
  have replays (u : Utxo) : tx.applied node nHeight tx.inputsSpent u =
      replay u ((tx.inputsSpent.map fun txin => (txin.prevout, none)) ++
        tx.writes (node.skips nHeight) nHeight) :=
    (replay_append ..).symm
  rw [replays w, replay_eq_patch u w, ← replays u, map_append, map_map]
  rfl

theorem Utxo.Applied.absent (step : Applied node nHeight tx txundo u u') :
    ∀ p ∈ tx.allCoins nHeight, u.spend tx.inputsSpent p.1 = none := by
  intro p coin
  obtain ⟨j, _, _, key⟩ := (outputCoins_mem coin).index
  exact spend_of_none (step.new p.1 (by rw [key]))

variable {l : List (CTransaction × CTxUndo)} {vtx : List CTransaction}

section

variable (steps : Utxo.Applieds node nHeight u l u')

include steps

theorem Utxo.Applieds.same (h : o ∉ l.flatMap (·.1.touched nHeight)) :
    u' o = u o := by
  induction steps
  case nil => rfl
  case cons step _ ih =>
    have ⟨now, later⟩ := not_or.mp (mem_append.not.mp h)
    rw [ih later, step.same now]

theorem Utxo.Applieds.undo_head :
    ∀ p ∈ l.head?, p.2.vprevout.map some = p.1.inputsSpent.map fun txin => u txin.prevout := by
  cases steps
  case nil => nofun
  case cons step _ =>
    rintro _ ⟨⟩
    exact step.undo

theorem Utxo.Applieds.ledger_eq :
    u' = ledger node nHeight inputsSpent u (l.map (·.1)) := by
  induction steps
  case nil => rfl
  case cons step _ ih => rw [ih, step.result, map_cons, ledger_cons]

end

variable {params : Consensus.Params}

theorem Utxo.Applied.restorable (step : Applied node nHeight tx txundo u u')
    (checked : tx.Checked params) (positive : nHeight ≠ 0) (restorable : ∀ o c, u o = some c → c.Restorable) :
    ∀ o c, u' o = some c → c.Restorable := by
  rw [step.result]
  exact applied_forall restorable fun p mem =>
    checked.restorable positive p (mem_outputs_of_mem_coins mem)

theorem Utxo.Applieds.restorable (steps : Applieds node nHeight u l u')
    (checked : ∀ p ∈ l, p.1.Checked params) (positive : nHeight ≠ 0)
    (restorable : ∀ o c, u o = some c → c.Restorable) : ∀ o c, u' o = some c → c.Restorable := by
  induction steps
  case nil => exact restorable
  case cons step _ ih =>
    have ⟨checked₁, checked⟩ := forall_mem_cons.mp checked
    exact ih checked (step.restorable checked₁ positive restorable)

theorem disconnectTxs_reverts {s : DisconnectState} (node' : Node) (positive : nHeight ≠ 0)
    (checked : ∀ p ∈ l, p.1.Checked params) (steps : Applieds node nHeight u l u')
    (restorable : ∀ o c, u o = some c → c.Restorable) (consistent : s.view.Consistent) :
    ∃ s', disconnectTxs .int64 node' s l.reverse = .ok (.done s') ∧
      Leads s.view (patch u s.view.utxo (l.flatMap (·.1.touched nHeight))) s'.view := by
  induction steps
  case nil =>
    refine ⟨s, rfl, consistent, .fetched (.refl _), ?_⟩
    rw [flatMap_nil, patch_nil]
  case cons u tx txundo u₁ l u' step _ ih =>
    have ⟨checked₁, checked⟩ := forall_mem_cons.mp checked
    have ⟨s₁, done₁, later⟩ := ih checked (step.restorable checked₁ positive restorable)
    have ⟨s', done, first, _⟩ := disconnectTx_reverts node' checked₁ step.undo step.absent restorable later.consistent
    rw [later.utxo, patch_patch fun o kept => step.same kept] at first
    refine ⟨s', ?_, later.trans first⟩
    rw [reverse_cons, disconnectTxs_append, done₁, ok_bind]
    simp only [Undone.andThen, disconnectTxs, done, ok_bind]

theorem ledger_of_not_written (h : o ∉ vtx.flatMap (·.written node nHeight)) :
    ledger node nHeight inputsSpent u vtx o = u o := by
  induction vtx generalizing u
  case nil => rfl
  case cons tx vtx ih =>
    have ⟨now, later⟩ := not_or.mp (mem_append.not.mp h)
    rw [ledger_cons, ih later, applied_eq_patch u u, patch, if_neg now]

theorem ledger_eq_patch (u w : Utxo) : ledger node nHeight inputsSpent w vtx =
    patch (ledger node nHeight inputsSpent u vtx) w (vtx.flatMap (·.written node nHeight)) := by
  induction vtx generalizing u w
  case nil => exact (patch_nil ..).symm
  case cons tx vtx ih =>
    rw [ledger_cons, ledger_cons, ih (tx.applied node nHeight tx.inputsSpent u), applied_eq_patch u w,
      patch_patch fun o kept => (ledger_of_not_written kept).symm]
    refine patch_congr fun o => ?_
    rw [flatMap_cons, mem_append, mem_append, or_comm]

variable {arith : Arith} {s s' : ConnectState} {u₀ : Utxo}

theorem TxsConnected.applieds (h : TxsConnected arith node nHeight i s vtx s') (start : NoneBelow u₀ s.view)
    (distinct : (vtx.map (·.getHash)).Nodup) (new₀ : ∀ tx ∈ vtx, ∀ o : COutPoint, o.hash = tx.getHash → u₀ o = none)
    (new : ∀ tx ∈ vtx, ∀ o : COutPoint, o.hash = tx.getHash → s.view.utxo o = none) :
    NoneBelow u₀ s'.view ∧ ∃ txundos, txundos.length = vtx.length ∧ s'.vtxundo = s.vtxundo ++ txundos.drop (1 - i) ∧
      Applieds node nHeight s.view.utxo (vtx.zip txundos) s'.view.utxo := by
  induction h
  case nil => exact ⟨start, [], rfl, by simp, .nil⟩
  case cons i s tx txundo v₁ ws s₁ vtx s' head _ ih =>
    have ⟨apart, distinct⟩ := nodup_cons.mp distinct
    have ⟨new₁, new⟩ := forall_mem_cons.mp new
    have ⟨own₀, new₀⟩ := forall_mem_cons.mp new₀
    have ⟨start₁, applied⟩ := head.applied start fun p coin => by
      have ⟨j, _, _, key⟩ := (outputCoins_mem coin).index
      exact own₀ p.1 (by rw [key])
    have step : Applied node nHeight tx txundo s.view.utxo s₁.view.utxo :=
      ⟨head.updated.undo head.inputs.holds, new₁, applied⟩
    have ⟨stop, txundos, length, undo, steps⟩ := ih start₁ distinct new₀ fun tx' mem o own => by
      have unwritten : o ∉ (tx.writes (node.skips nHeight) nHeight).map (·.1) := by
        intro written
        have ⟨w, hw, eq⟩ := mem_map.mp written
        refine apart (mem_map.mpr ⟨tx', mem, ?_⟩)
        rw [← own, ← eq, outputWrites_hash hw]
      rw [applied, applied_of_not_written unwritten]
      exact spend_of_none (new tx' mem o own)
    refine ⟨stop, txundo :: txundos, by simp [length], ?_, .cons step steps⟩
    rw [undo, head.undo]
    cases i
    case zero => simp
    case succ i => simp

end

section

variable [Crypto]

def finalRoot (node : Node) (pindex : CBlockIndex) : Uint256 :=
  if node.consensus.networkUpgradeActive pindex.nHeight .ACTIVATE_HUSH then pindex.hashFinalSaplingRoot
  else SaplingMerkleTree.emptyRoot

-- A block as connected, from the coins `u` to `u'`, and what is on disk. The banned outputs are the same then and now.
structure Stored (node : Node) (files : BlockFiles) (b : Uint256) (u u' : Utxo) (l : Link) : Prop where
  consistent : l.view.Consistent
  found : l.view.utxo = u
  left : l.result.view.utxo = u'
  index : l.pindex = files.index b
  other : l.block.getHash ≠ l.node.consensus.hashGenesisBlock
  skips : l.node.skips = node.skips
  block : files.readBlockFromDisk b = some l.block
  undo : files.undoReadFromDisk b = some l.result.vtxundo

-- A block without assets and without an id that another transaction of it or a coin has.
structure CBlock.Plain (block : CBlock) (u : Utxo) : Prop where
  assets : ∀ tx ∈ block.vtx, tx.containsAssets = false
  distinct : (block.vtx.map (·.getHash)).Nodup
  new : ∀ tx ∈ block.vtx, ∀ o : COutPoint, o.hash = tx.getHash → u o = none

variable {node : Node} {files : BlockFiles} {b : Uint256} {u u' : Utxo} {l : Link} {v : CCoinsViewCache}

theorem Stored.applieds (stored : Stored node files b u u' l) (plain : l.block.Plain u) :
    l.result.vtxundo.length + 1 = l.block.vtx.length ∧
      Applieds l.node (files.index b).nHeight u (l.block.vtx.zip ({} :: l.result.vtxundo)) u' := by
  have ⟨checked, _, connected⟩ := connectBlock_ok l.earned l.accepted
  have ⟨consistent, found, left, index, other, _, _, _⟩ := stored
  rw [← index, ← left]
  generalize l.result = r at connected ⊢
  cases connected
  case genesis genesis _ => exact absurd genesis other
  case loop s _ _ loop _ undo view' =>
    simp only [Bool.false_eq_true, if_false] at undo view'
    have fetched := loopStart_fetched l.view
    have start := (NoneBelow.start consistent).fetched fetched
    have same : r.view.utxo = s.view.utxo := view' ▸ (s.view.pushAnchor_sameCoins s.saplingTree).utxo
    have before : (loopStart l.view).view.utxo = u := fetched.utxo.trans found
    rw [found] at start
    have ⟨_, txundos, length, written, steps⟩ := (connectTxs_ok checked.transactions loop).applieds start plain.distinct
      plain.new (before ▸ plain.new)
    rw [before] at steps
    rw [written] at undo
    change r.vtxundo = txundos.drop 1 at undo
    have ⟨zip, count⟩ := zip_vtxundo checked.coinBase length steps.undo_head
    rw [← undo] at zip count
    exact ⟨count, by rw [zip, same]; exact steps⟩

theorem CCoinsViewCache.popAnchor_leaves (found : v.AnchorFound) {newrt : Uint256} (nonzero : newrt ≠ 0) :
    ∃ v', v.popAnchor newrt = .ok v' ∧ CCoinsView.Same v.base v'.base ∧ v'.view.bestAnchor = newrt ∧
      ∀ rt, rt = newrt ∨ rt ≠ v.view.bestAnchor → v'.view.anchorAt rt = v.view.anchorAt rt := by
  obtain ⟨v₁, best, fetched₁⟩ := v.getBestAnchor_eq
  obtain ⟨v₂, anchor, fetched₂⟩ := v₁.getSaplingAnchorAt_eq v.view.bestAnchor
  obtain ⟨tree, known⟩ := Option.isSome_iff_exists.mp found
  simp only [popAnchor, best]
  split
  case isTrue same =>
    exact ⟨v₁, rfl, fetched₁.base, fetched₁.same.bestAnchor.trans same, fun rt _ => fetched₁.same.anchorAt rt⟩
  case isFalse leaves =>
    rw [fetched₁.same.anchorAt, known] at anchor
    rw [anchor]
    have fetched := fetched₁.trans fetched₂
    refine ⟨_, rfl, fetched.base, ?_, fun rt kept => ?_⟩
    · simp only [view, bestAnchor, if_neg nonzero]
    · have other : rt ≠ v.view.bestAnchor := kept.elim (fun eq => eq ▸ Ne.symm leaves) id
      rw [← fetched.same.anchorAt rt]
      rw [view] at other
      simp only [anchorAt, view, AList.lookup_insert_ne other]

variable {vtx : List CTransaction} {o : COutPoint}

theorem zip_touched {vtxundo : List CTxUndo} (nHeight : ℕ)
    (count : vtxundo.length + 1 = vtx.length) :
    (vtx.zip ({} :: vtxundo)).flatMap (·.1.touched nHeight) = vtx.flatMap (·.touched nHeight) := by
  have first : (vtx.zip ({} :: vtxundo)).map (·.1) = vtx := map_fst_zip (by rw [length_cons]; omega)
  conv_rhs => rw [← first, flatMap_map]

structure Reverted (v : CCoinsViewCache) (u : Utxo) (rt : Uint256) (keys : List COutPoint) (v' : CCoinsViewCache) :
    Prop where
  consistent : v'.Consistent
  base : CCoinsView.Same v.base v'.base
  utxo : v'.utxo = patch u v.utxo keys
  bestAnchor : v'.view.bestAnchor = rt
  anchorAt : ∀ rt', rt' = rt ∨ rt' ≠ v.view.bestAnchor → v'.view.anchorAt rt' = v.view.anchorAt rt'

section

variable (stored : Stored node files b u u' l) (plain : l.block.Plain u)

include stored plain

theorem Stored.reverts (node' : Node)
    (pprev : CBlockIndex) (nonzero : finalRoot node' pprev ≠ 0) (positive : (files.index b).nHeight ≠ 0)
    (restorable : ∀ o c, u o = some c → c.Restorable) (consistent : v.Consistent) (found : v.AnchorFound) :
    ∃ d, disconnectBlock .int64 node' l.block pprev (files.undoReadFromDisk b) v = .ok d ∧
      d.result ≠ .DISCONNECT_FAILED ∧ Reverted v u (finalRoot node' pprev)
        (l.block.vtx.flatMap (·.touched (files.index b).nHeight)) d.view := by
  obtain ⟨checked, _⟩ := connectBlock_ok l.earned l.accepted
  obtain ⟨count, steps⟩ := stored.applieds plain
  obtain ⟨s, done, leads⟩ := disconnectTxs_reverts node' positive
    (fun p mem => checked.transactions p.1 (of_mem_zip mem).left) steps restorable (s := { view := v }) consistent
  obtain ⟨v₁, pop, base, best, anchors⟩ := CCoinsViewCache.popAnchor_leaves (found.framed leads.framed) nonzero
  have same := CCoinsViewCache.popAnchor_sameCoins pop
  have keys := zip_touched (files.index b).nHeight count
  let d : Disconnected := {
    result := if s.fClean then .DISCONNECT_OK else .DISCONNECT_UNCLEAN
    view := v₁.setBestBlock pprev.phashBlock
    supplyChange := (s.nValueIn - s.nValueOut).bmod (2 ^ 64) }
  refine ⟨d, ?_, ?_, ?_⟩
  case refine_1 =>
    simp only [disconnectBlock, stored.undo, count, ne_eq, not_true_eq_false, if_false, done, ok_bind, Arith.norm]
    rw [finalRoot] at pop
    rw [pop, ok_bind]
  case refine_2 => dsimp only [d]; split <;> rintro ⟨⟩
  case refine_3 =>
    constructor
    case consistent => exact same.consistent leads.consistent
    case base => exact leads.framed.base.trans base
    case utxo => exact (same.utxo.trans leads.utxo).trans (by rw [keys])
    case bestAnchor => exact best
    case anchorAt =>
      intro rt' kept
      rw [← leads.framed.anchorAt rt']
      exact anchors rt' (kept.imp id fun ne => by rw [leads.framed.bestAnchor]; exact ne)

theorem Stored.same (h : o ∉ l.block.vtx.flatMap (·.touched (files.index b).nHeight)) : u' o = u o := by
  have ⟨count, steps⟩ := stored.applieds plain
  exact steps.same (zip_touched _ count ▸ h)

theorem Stored.restorable (positive : (files.index b).nHeight ≠ 0) (restorable : ∀ o c, u o = some c → c.Restorable) :
    ∀ o c, u' o = some c → c.Restorable := by
  have ⟨checked, _⟩ := connectBlock_ok l.earned l.accepted
  exact (stored.applieds plain).right.restorable
    (fun p mem => checked.transactions p.1 (of_mem_zip mem).left) positive restorable

end

theorem ledger_inputsRolled {nHeight : ℕ} (assets : ∀ tx ∈ vtx, tx.containsAssets = false) :
    ledger node nHeight inputsRolled u vtx = ledger node nHeight inputsSpent u vtx := by
  induction vtx generalizing u
  case nil => rfl
  case cons tx vtx ih =>
    have ⟨assets₁, assets⟩ := forall_mem_cons.mp assets
    rw [ledger_cons, ledger_cons, inputsRolled_of_no_assets assets₁, ih assets]

section

variable (stored : Stored node files b u u' l) (plain : l.block.Plain u)

include stored plain

theorem Stored.ledger_eq :
    u' = ledger node (files.index b).nHeight inputsSpent u l.block.vtx := by
  have ⟨count, steps⟩ := stored.applieds plain
  have first : (l.block.vtx.zip ({} :: l.result.vtxundo)).map (·.1) = l.block.vtx :=
    map_fst_zip (by rw [length_cons]; omega)
  rw [steps.ledger_eq, first]
  unfold ledger applied
  rw [stored.skips]

theorem Stored.unwritten (h : o ∉ l.block.vtx.flatMap (·.written node (files.index b).nHeight)) : u' o = u o := by
  rw [stored.ledger_eq plain]
  exact ledger_of_not_written h

theorem Stored.redoes (consistent : v.Consistent) :
    ∃ v', rollforwardBlock node (files.index b).nHeight l.block v = .ok v' ∧
      Leads v (patch u' v.utxo (l.block.vtx.flatMap (·.written node (files.index b).nHeight))) v' := by
  have ⟨checked, _⟩ := connectBlock_ok l.earned l.accepted
  have ⟨v', rolled, leads⟩ := rollforwardTxs_ok node (files.index b).nHeight consistent fun tx mem txout out =>
    ((checked.transactions tx mem).amounts.each txout out).left
  rw [ledger_inputsRolled plain.assets, ledger_eq_patch u, ← stored.ledger_eq plain] at leads
  exact ⟨v', rolled, leads⟩

end

end

section

variable [Crypto]

-- The blocks from `base` up to a tip: `link` has how each was connected, `coinsAt` the coins it left.
structure Branch (node : Node) (tree : BlockTree) (files : BlockFiles) (coinsAt : Uint256 → Utxo)
    (link : Uint256 → Link) (base tip : Uint256) : Prop where
  start : Anc tree.pprev base tip
  stored : ∀ {b p}, tree.pprev b = some p → Anc tree.pprev base p → Anc tree.pprev b tip →
    Stored node files b (coinsAt p) (coinsAt b) (link b)
  plain : ∀ {b p}, tree.pprev b = some p → Anc tree.pprev base p → Anc tree.pprev b tip →
    (link b).block.Plain (coinsAt p)

-- The Sapling part of a view at block `b`: the roots down to `base` are known.
structure Anchored (node : Node) (tree : BlockTree) (files : BlockFiles) (base : Uint256) (v : CCoinsView)
    (b : Uint256) : Prop where
  best : v.bestAnchor = finalRoot node (files.index b)
  known : ∀ a, Anc tree.pprev a b → Anc tree.pprev base a → (v.anchorAt (finalRoot node (files.index a))).isSome

-- The commitment tree only grows, so a left root does not come back.
structure RootsGrow (node : Node) (tree : BlockTree) (files : BlockFiles) (base tip : Uint256) : Prop where
  nonzero : ∀ b, Anc tree.pprev base b → Anc tree.pprev b tip → finalRoot node (files.index b) ≠ 0
  apart : ∀ a b c, Anc tree.pprev base a → Anc tree.pprev a b → Anc tree.pprev b c → Anc tree.pprev c tip →
    finalRoot node (files.index a) = finalRoot node (files.index c) →
    finalRoot node (files.index b) = finalRoot node (files.index c)

variable {node : Node} {tree : BlockTree} {files : BlockFiles} {coinsAt : Uint256 → Utxo} {link : Uint256 → Link}
  {base tip b p : Uint256}

theorem Branch.restorable (branch : Branch node tree files coinsAt link base tip)
    (heights : ∀ b, (files.index b).nHeight = tree.nHeight b)
    (sound : ∀ o c, coinsAt base o = some c → c.Restorable) (above : Anc tree.pprev base b)
    (below : Anc tree.pprev b tip) :
    ∀ o c, coinsAt b o = some c → c.Restorable := by
  induction above
  case refl => exact sound
  case step b p parent above ih =>
    refine (branch.stored parent above below).restorable (branch.plain parent above below) ?_
      (ih ((Anc.step parent .refl).trans below))
    rw [heights, tree.graded.child parent]
    exact Nat.succ_ne_zero _

variable {v : CCoinsViewCache}

section

variable (branch : Branch node tree files coinsAt link base tip)
  (heights : ∀ b, (files.index b).nHeight = tree.nHeight b)

include branch heights

theorem rollback_reverts (roots : RootsGrow node tree files base tip)
    (sound : ∀ o c, coinsAt base o = some c → c.Restorable) (above : Anc tree.pprev base b)
    (below : Anc tree.pprev b tip)
    {n : ℕ} (enough : tree.nHeight b < n) (consistent : v.Consistent)
    (anchored : Anchored node tree files base v.view b) :
    ∃ v' keys, rollback .int64 node tree files (some base) n (some b) v = .ok v' ∧ v'.Consistent ∧
      CCoinsView.Same v.base v'.base ∧ v'.utxo = patch (coinsAt base) v.utxo keys ∧
      ∀ o ∉ keys, coinsAt b o = coinsAt base o := by
  induction above generalizing n v
  case refl =>
    cases n
    case zero => exact absurd enough (Nat.not_lt_zero _)
    case succ n =>
      refine ⟨v, [], ?_, consistent, .refl _, (patch_nil ..).symm, fun _ _ => rfl⟩
      simp only [rollback, ne_eq, not_true, if_false]
  case step b p parent above ih =>
    cases n
    case zero => exact absurd enough (Nat.not_lt_zero _)
    case succ n =>
      have up := tree.graded.child parent
      have other : b ≠ base := by
        rintro rfl
        have := tree.graded.height_le above
        omega
      have lower := (Anc.step parent .refl).trans below
      have stored := branch.stored parent above below
      have plain := branch.plain parent above below
      have found : v.AnchorFound := by
        have known := anchored.known b .refl (.step parent above)
        rwa [← anchored.best] at known
      obtain ⟨d, disconnected, done, reverted⟩ := stored.reverts plain node (files.index p)
        (roots.nonzero p above lower) (by rw [heights]; omega) (branch.restorable heights sound above lower)
        consistent found
      -- The roots below differ from the one left.
      have anchored' : Anchored node tree files base d.view.view p := by
        refine ⟨reverted.bestAnchor, fun a anc from_ => ?_⟩
        rw [reverted.anchorAt]
        case a =>
          by_cases same : finalRoot node (files.index a) = finalRoot node (files.index b)
          case pos => exact .inl (same.trans (roots.apart a p b from_ anc (.step parent .refl) below same).symm)
          case neg => exact .inr (anchored.best ▸ same)
        exact anchored.known a (anc.trans (.step parent .refl)) from_
      obtain ⟨v', keys, back, consistent', base', utxo, same⟩ :=
        ih (n := n) lower (by omega) reverted.consistent anchored'
      refine ⟨v', keys ++ (link b).block.vtx.flatMap (·.touched (files.index b).nHeight), ?_, consistent',
        reverted.base.trans base', ?_, fun o kept => ?_⟩
      · simp only [rollback, ne_eq, Option.some.injEq, other, not_false_eq_true, if_true]
        rw [if_pos (by omega), rollbackBlock, stored.block, parent]
        simp only [disconnected, ok_bind, failIf_of_not done]
        exact back
      · rw [utxo, reverted.utxo, patch_patch same]
      · obtain ⟨kept₁, kept₂⟩ := not_or.mp (mem_append.not.mp kept)
        rw [stored.same plain kept₂, same o kept₁]

theorem rollforward_redoes (above : Anc tree.pprev base b)
    (below : Anc tree.pprev b tip) (consistent : v.Consistent) :
    ∃ v' keys, (range' (tree.nHeight base + 1) (tree.nHeight b - tree.nHeight base)).foldlM
        (rollforwardAt node tree files tip) v = .ok v' ∧ v'.Consistent ∧ CCoinsView.Same v.base v'.base ∧
      v'.utxo = patch (coinsAt b) v.utxo keys ∧ ∀ o ∉ keys, coinsAt b o = coinsAt base o := by
  induction above
  case refl =>
    refine ⟨v, [], ?_, consistent, .refl _, (patch_nil ..).symm, fun _ _ => rfl⟩
    rw [Nat.sub_self]
    rfl
  case step b p parent above ih =>
    have up := tree.graded.child parent
    have low := tree.graded.height_le above
    have stored := branch.stored parent above below
    have plain := branch.plain parent above below
    have ⟨v₁, keys, rolled, consistent₁, base₁, utxo, same⟩ := ih ((Anc.step parent .refl).trans below)
    have ⟨v', last, leads⟩ := stored.redoes plain consistent₁
    have here : tree.getAncestor tip (tree.nHeight b) = some b := BlockTree.getAncestor_eq_some.mpr ⟨below, rfl⟩
    refine ⟨v', (link b).block.vtx.flatMap (·.written node (files.index b).nHeight) ++ keys, ?_, leads.consistent,
      base₁.trans leads.framed.base, ?_, fun o kept => ?_⟩
    · rw [show tree.nHeight b - tree.nHeight base = (tree.nHeight p - tree.nHeight base) + 1 by omega,
        range'_concat, foldlM_append, rolled, ok_bind, Nat.one_mul,
        show tree.nHeight base + 1 + (tree.nHeight p - tree.nHeight base) = tree.nHeight b by omega]
      simp only [foldlM_cons, foldlM_nil, rollforwardAt, here, Option.bind_some, stored.block]
      rw [← heights b, last]
      rfl
    · rw [leads.utxo, utxo, patch_patch fun o kept => (stored.unwritten plain kept).symm]
    · have ⟨kept₁, kept₂⟩ := not_or.mp (mem_append.not.mp kept)
      rw [stored.unwritten plain kept₁, same o kept₂]

end

theorem CCoinsView.batchWrite_bestBlock {v v' : CCoinsView} {child : CoinsCache} (nonzero : child.hashBlock ≠ 0)
    (h : v.batchWrite child = .ok v') : v'.bestBlock = child.hashBlock := by
  induction v generalizing v'
  case db d =>
    cases h
    rfl
  case memPool pool base ih =>
    have ⟨base', below, eq⟩ := bind_eq_ok.mp h
    cases eq
    change base'.bestBlock = _
    exact ih below
  case cache c base _ =>
    have ⟨c', write, eq⟩ := bind_eq_ok.mp h
    cases eq
    have ⟨c₁, _, eq⟩ := bind_eq_ok.mp write
    cases eq
    exact if_neg nonzero

theorem CoinsDatabase.batchWrite_flushes {new : Uint256} (hashOld : Uint256)
    (consistent : v.Consistent)
    (layered : v.base.Layered) (nonzero : new ≠ 0) :
    ∃ database, CoinsDatabase.batchWrite { view := v.base, getHeadBlocks := [new, hashOld] }
        (v.setBestBlock new).cache = .ok database ∧
      database.view.utxo = v.utxo ∧ database.view.bestBlock = new ∧ database.getHeadBlocks = [] := by
  have ⟨base', best, same⟩ := getBestBlock_eq v.base
  have below : (cache (v.setBestBlock new).cache base').Consistent := by
    refine ⟨same.consistent consistent.left, fun o e found => ?_⟩
    rw [same.utxo]
    exact consistent.right o e found
  have ⟨view, write, _, _, utxo⟩ := flush_ok below (same.layered layered)
  refine ⟨{ view, getHeadBlocks := [] }, ?_, ?_, batchWrite_bestBlock nonzero write, rfl⟩
  · simp only [CoinsDatabase.batchWrite, best]
    rw [failIf_of_not (show (v.setBestBlock new).cache.hashBlock ≠ 0 from nonzero), ok_bind,
      failIf_of_not fun h => h.right.right rfl, ok_bind, write, ok_bind]
  · funext o
    rw [utxo, utxo_cache, same.utxo]
    exact (utxo_cache ..).symm

-- Whenever the writing stops, every outpoint has its coin from before or after.
theorem CCoinsViewDB.interrupted_mixed (d : CCoinsViewDB) (child : CoinsCache) (n : ℕ) (o : COutPoint) :
    (db (d.interrupted child n)).utxo o = (db d).utxo o ∨
      (db (d.interrupted child n)).utxo o = (db (d.batchWrite child)).utxo o := by
  let written : CCoinsMap :=
    ⟨child.cacheCoins.entries.take n, child.cacheCoins.nodupKeys.sublist (take_sublist ..)⟩
  have result : (d.interrupted child n).coins.lookup o =
      (written.lookup o).elim (d.coins.lookup o) fun e => if e.dirty then e.coin.unspent else d.coins.lookup o :=
    KeyedUpdate.foldl_total (fun coins o => coins.lookup o)
      (fun r e => if e.dirty then e.coin.unspent else r) CCoinsViewDB.lookup_writeCoin written d.coins o
  simp only [utxo, peek]
  cases found : written.lookup o
  case none =>
    rw [found] at result
    exact .inl (by rw [result]; rfl)
  case some e =>
    have mem : ⟨o, e⟩ ∈ written.entries := AList.mem_lookup_iff.mp found
    have whole : child.cacheCoins.lookup o = some e := AList.mem_lookup_iff.mpr (mem_of_mem_take mem)
    rw [found] at result
    exact .inr (by rw [result, CCoinsViewDB.lookup_batchWrite, whole])

variable {d : CCoinsViewDB} {new : Uint256} {old : Option Uint256}

-- `old` is the old tip, or nothing if the first flush was interrupted. Then the new branch starts with the genesis
-- block, whose outputs are no coins.
theorem replayBlocks_recovers (heights : ∀ b, (files.index b).nHeight = tree.nHeight b)
    (known : new ∈ tree.mapBlockIndex) (nonzero : new ≠ 0)
    (fork : match old with
      | none => tree.pprev base = none ∧ ∀ o, coinsAt base o = none
      | some t => t ∈ tree.mapBlockIndex ∧ t ≠ 0 ∧ tree.Meet t new base)
    (sound : ∀ o c, coinsAt base o = some c → c.Restorable)
    (newBranch : Branch node tree files coinsAt link base new)
    (oldBranch : ∀ t ∈ old, Branch node tree files coinsAt link base t)
    (anchored : ∀ t ∈ old, Anchored node tree files base (.db d) t ∧ RootsGrow node tree files base t)
    (mixed : ∀ o, (CCoinsView.db d).utxo o = old.elim none (coinsAt · o) ∨ (CCoinsView.db d).utxo o = coinsAt new o) :
    ∃ database,
      replayBlocks .int64 node tree files { view := .db d, getHeadBlocks := [new, old.getD 0] } = .ok database ∧
      database.view.utxo = coinsAt new ∧ database.view.bestBlock = new ∧ database.getHeadBlocks = [] := by
  have start : CCoinsViewCache.Consistent { base := .db d } := ⟨trivial, by rintro _ _ ⟨⟩⟩
  have before : CCoinsViewCache.utxo { base := .db d } = (CCoinsView.db d).utxo :=
    funext fun o => CCoinsView.utxo_cache ..
  -- After undoing the old branch, the new one is redone and written.
  have finish {v : CCoinsViewCache} {k : List COutPoint} (consistent : v.Consistent)
      (below : CCoinsView.Same (.db d) v.base) (utxo : v.utxo = patch (coinsAt base) (CCoinsView.db d).utxo k)
      (same : ∀ o ∉ k, old.elim none (coinsAt · o) = coinsAt base o) :
      ∃ database, ((List.range' (tree.nHeight base + 1) (tree.nHeight new - tree.nHeight base)).foldlM
            (rollforwardAt node tree files new) v >>= fun cache =>
          CoinsDatabase.batchWrite { view := (cache.setBestBlock new).base, getHeadBlocks := [new, old.getD 0] }
            (cache.setBestBlock new).cache) = .ok database ∧
        database.view.utxo = coinsAt new ∧ database.view.bestBlock = new ∧ database.getHeadBlocks = [] := by
    obtain ⟨v', keys', rolled, consistent', below', utxo', same'⟩ :=
      rollforward_redoes newBranch heights newBranch.start .refl consistent
    obtain ⟨database, write, coins, best, heads⟩ := CoinsDatabase.batchWrite_flushes (old.getD 0) consistent'
      ((below.trans below').layered trivial) nonzero
    refine ⟨database, by rw [rolled, ok_bind]; exact write, ?_, best, heads⟩
    rw [coins, utxo', utxo]
    exact patch_recover same same' mixed
  cases old
  case none =>
    obtain ⟨root, empty⟩ := fork
    have zero := tree.graded.root root
    obtain ⟨database, done, result⟩ := finish (v := { base := .db d }) (k := []) start (.refl _)
      (before.trans (patch_nil ..).symm) fun o _ => (empty o).symm
    refine ⟨database, ?_, result⟩
    rw [zero] at done
    simp only [replayBlocks, Option.getD_none]
    rw [failIf_of_not (not_not.mpr known), ok_bind, if_pos True.intro, ok_bind]
    exact done
  case some t =>
    obtain ⟨indexed, nonzero', meet⟩ := fork
    obtain ⟨anchored, roots⟩ := anchored t rfl
    obtain ⟨c, last, meet'⟩ := BlockTree.lastCommonAncestor_eq ⟨meet.left, meet.right⟩
    have same : c = base :=
      tree.graded.antisymm (meet.greatest meet'.left meet'.right) (meet'.greatest meet.left meet.right)
    subst same
    have view : Anchored node tree files c (CCoinsViewCache.view { base := .db d }) t :=
      ⟨(if_pos rfl).trans anchored.best, anchored.known⟩
    obtain ⟨v, keys, back, consistent, below, utxo, kept⟩ := rollback_reverts (oldBranch t rfl) heights roots sound
      meet.left .refl (Nat.lt_succ_self _) start view
    rw [before] at utxo
    obtain ⟨database, done, result⟩ := finish consistent below utxo kept
    refine ⟨database, ?_, result⟩
    simp only [replayBlocks, Option.getD_some]
    rw [failIf_of_not (not_not.mpr known), ok_bind, if_neg nonzero', failIf_of_not (not_not.mpr indexed), ok_bind, last,
      ok_bind, failIf_of_not (by rintro ⟨⟩), ok_bind, ok_bind]
    dsimp only
    rw [back, ok_bind]
    exact done

end

section

attribute [local instance] Crypto.toy

theorem fork_parent {b p : Uint256} (h : (if b = 8 ∨ b = 9 then some (7 : Uint256) else none) = some p) :
    (b = 8 ∨ b = 9) ∧ p = 7 := by
  split at h
  case isTrue leaf => exact ⟨leaf, (Option.some.inj h).symm⟩
  case isFalse => cases h

def forkTree : BlockTree where
  mapBlockIndex := [7, 8, 9]
  pprev b := if b = 8 ∨ b = 9 then some 7 else none
  pskip b := if b = 8 ∨ b = 9 then some 7 else none
  nHeight b := if b = 8 ∨ b = 9 then 1 else 0
  nChainWork b := if b = 8 ∨ b = 9 then 2 else 1
  nodup := by decide
  graded := by
    constructor
    case root =>
      intro b h
      split at h
      case isTrue => cases h
      case isFalse notLeaf => exact if_neg notLeaf
    case child =>
      intro b p h
      obtain ⟨leaf, rfl⟩ := fork_parent h
      rw [if_pos leaf]
      rfl
  closed := by
    intro b p h
    obtain ⟨rfl | rfl, rfl⟩ := fork_parent h <;> decide
  works := by
    intro b p h
    obtain ⟨leaf, rfl⟩ := fork_parent h
    rw [if_pos leaf]
    decide
  skips := by
    intro b p h
    obtain ⟨leaf, rfl⟩ := fork_parent h
    refine ⟨7, if_pos leaf, .step (if_pos leaf) .refl, ?_⟩
    rw [if_pos leaf]
    rfl

def forkIndex (b : Uint256) : CBlockIndex where
  phashBlock := b
  nHeight := forkTree.nHeight b

def forkNode : Node :=
  exampleNode .regtest (forkIndex 7)

def forkBlock (b : Uint256) : CBlock :=
  exampleBlock (forkIndex 7) (if b = 8 then [minerTx] else [minerTx, paymentTx])

def minedCoin : Coin where
  fCoinBase := true
  out := { nValue := 5, scriptPubKey := [0x51] }
  nHeight := 1

-- The coin that the new block spends is gone, what it creates is not there yet.
def tornDatabase : CCoinsViewDB where
  coins := AList.insert ⟨minerTx.getHash, 0⟩ minedCoin ∅

theorem forkTree_anc {a t : Uint256} (h : Anc forkTree.pprev a t) : a = t ∨ a = 7 ∧ (t = 8 ∨ t = 9) := by
  cases h
  case refl => exact .inl rfl
  case step up anc =>
    obtain ⟨leaf, rfl⟩ := fork_parent anc
    cases up
    case refl => exact .inr ⟨rfl, leaf⟩
    case step _ parent => cases parent

theorem forkTree_meet : forkTree.Meet 8 9 7 := by
  refine ⟨.step rfl .refl, .step rfl .refl, ?_⟩
  intro a left right
  obtain rfl | ⟨rfl, _⟩ := forkTree_anc left
  · exact absurd (forkTree_anc right) (by decide)
  · exact .refl

theorem forkBlock_plain {b : Uint256} (leaf : b = 8 ∨ b = 9) : (forkBlock b).Plain exampleView.utxo := by
  have other : ∀ tx ∈ (forkBlock b).vtx, tx.getHash ≠ 5 := by obtain rfl | rfl := leaf <;> decide
  constructor
  case assets => obtain rfl | rfl := leaf <;> decide
  case distinct => obtain rfl | rfl := leaf <;> decide
  case new => exact fun tx mem o id => exampleView_none fun eq => other tx mem (id.symm.trans (congrArg (·.hash) eq))

theorem replayBlocks_recovers_torn :
    ∃ r₈ r₉ database,
      connectBlock .int64 forkNode (forkBlock 8) (forkIndex 8) (some (forkIndex 7)) exampleView false = .ok r₈ ∧
      connectBlock .int64 forkNode (forkBlock 9) (forkIndex 9) (some (forkIndex 7)) exampleView false = .ok r₉ ∧
      replayBlocks .int64 forkNode forkTree {
          index := forkIndex
          readBlockFromDisk := fun b => some (forkBlock b)
          undoReadFromDisk := fun b => some (if b = 8 then r₈.vtxundo else r₉.vtxundo)
        } { view := .db tornDatabase, getHeadBlocks := [9, 8] } = .ok database ∧
      database.view.utxo = r₉.view.utxo ∧ database.view.bestBlock = 9 := by
  have run₉ : (do
      let r ← connectBlock .int64 forkNode (forkBlock 9) (forkIndex 9) (some (forkIndex 7)) exampleView false
      .ok (r.view.utxo ⟨5, 0⟩, r.view.utxo ⟨minerTx.getHash, 0⟩)) = .ok (none, some minedCoin) := by
    decide +kernel
  have ⟨r₈, accepted₈⟩ := isOk_iff.mp (show (connectBlock .int64 forkNode (forkBlock 8) (forkIndex 8)
    (some (forkIndex 7)) exampleView false).isOk by decide +kernel)
  have ⟨r₉, accepted₉, at₉⟩ := bind_eq_ok.mp run₉
  have ⟨spent, mined⟩ := Prod.mk.inj (Except.ok.inj at₉)
  let files : BlockFiles := {
    index := forkIndex
    readBlockFromDisk := fun b => some (forkBlock b)
    undoReadFromDisk := fun b => some (if b = 8 then r₈.vtxundo else r₉.vtxundo) }
  let coinsAt (b : Uint256) : Utxo :=
    if b = 8 then r₈.view.utxo else if b = 9 then r₉.view.utxo else exampleView.utxo
  let link₈ : Link :=
    ⟨forkNode, forkBlock 8, forkIndex 8, some (forkIndex 7), exampleView, r₈, exampleBlock_earned _ _ _, accepted₈⟩
  let link₉ : Link :=
    ⟨forkNode, forkBlock 9, forkIndex 9, some (forkIndex 7), exampleView, r₉, exampleBlock_earned _ _ _, accepted₉⟩
  let link (b : Uint256) : Link := if b = 8 then link₈ else link₉
  have stored (b : Uint256) (leaf : b = 8 ∨ b = 9) : Stored forkNode files b (coinsAt 7) (coinsAt b) (link b) := by
    have other : (forkBlock b).getHash ≠ forkNode.consensus.hashGenesisBlock := by obtain rfl | rfl := leaf <;> decide
    obtain rfl | rfl := leaf <;> exact ⟨exampleView_consistent, rfl, rfl, rfl, other, rfl, rfl, rfl⟩
  have branch (t : Uint256) (leaf : t = 8 ∨ t = 9) : Branch forkNode forkTree files coinsAt link 7 t := by
    constructor
    case start => exact .step (if_pos leaf) .refl
    case stored =>
      intro b p parent _ _
      obtain ⟨leaf, rfl⟩ := fork_parent parent
      exact stored b leaf
    case plain =>
      intro b p parent _ _
      obtain ⟨rfl | rfl, rfl⟩ := fork_parent parent <;> exact forkBlock_plain (by decide)
  have empty : SaplingMerkleTree.emptyRoot ≠ 0 := by decide
  have anchored : Anchored forkNode forkTree files 7 (.db tornDatabase) 8 :=
    ⟨rfl, fun _ _ _ => rfl⟩
  have roots : RootsGrow forkNode forkTree files 7 8 := ⟨fun b _ _ => empty, fun _ _ _ _ _ _ _ _ => rfl⟩
  have sound (o : COutPoint) (c : Coin) (found : coinsAt 7 o = some c) : c.Restorable :=
    (exampleView_found found).right ▸ ⟨by decide, by decide, by decide⟩
  have mixed (o : COutPoint) :
      (CCoinsView.db tornDatabase).utxo o = coinsAt 8 o ∨ (CCoinsView.db tornDatabase).utxo o = coinsAt 9 o := by
    by_cases written : o = ⟨5, 0⟩ ∨ o = ⟨minerTx.getHash, 0⟩
    · refine .inr ?_
      obtain rfl | rfl := written
      · exact (show (CCoinsView.db tornDatabase).utxo ⟨5, 0⟩ = none by decide).trans spent.symm
      · exact (show (CCoinsView.db tornDatabase).utxo ⟨minerTx.getHash, 0⟩ = some minedCoin by decide).trans
          mined.symm
    · have ⟨notSpent, notMined⟩ := not_or.mp written
      have keys : (forkBlock 8).vtx.flatMap (·.written forkNode 1) = [⟨minerTx.getHash, 0⟩] := by decide
      have same : coinsAt 8 o = exampleView.utxo o :=
        (stored 8 (.inl rfl)).unwritten (forkBlock_plain (.inl rfl)) (show o ∉ (forkBlock 8).vtx.flatMap (·.written forkNode 1) by
          rw [keys]; exact not_mem_cons_of_ne_of_not_mem notMined not_mem_nil)
      refine .inl ?_
      rw [same, exampleView_none notSpent]
      have absent : tornDatabase.coins.lookup o = none := AList.lookup_insert_ne notMined
      exact congrArg (·.bind Coin.unspent) absent
  have ⟨database, replayed, utxo, best, _⟩ :=
    @replayBlocks_recovers _ forkNode forkTree files coinsAt link 7 tornDatabase 9 (some 8) (fun b => rfl) (by decide)
      (by decide) ⟨by decide, by decide, forkTree_meet⟩ sound (branch 9 (.inr rfl))
      (fun t mem => by cases mem; exact branch 8 (.inl rfl)) (fun t mem => by cases mem; exact ⟨anchored, roots⟩) mixed
  exact ⟨r₈, r₉, database, accepted₈, accepted₉, replayed, utxo, best⟩

end

end Qrax
