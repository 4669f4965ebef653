import Qrax.Validation.Theorems.CheckBlock
import Qrax.Validation.Theorems.ConnectTx

open Fallible

namespace Qrax

open CCoinsViewCache (Fetched NoneBelow Writes)

variable [Crypto] {arith : Arith} {node : Node} {nHeight : ℕ} {block : CBlock}

inductive TxsConnected (arith : Arith) (node : Node) (nHeight : ℕ) :
    ℕ → ConnectState → List CTransaction → ConnectState → Prop
  | nil {i s} : TxsConnected arith node nHeight i s [] s
  | cons {i s tx txundo v₁ ws s₁ vtx s'} :
    TxConnected arith node nHeight tx i s txundo v₁ ws s₁ →
    TxsConnected arith node nHeight (i + 1) s₁ vtx s' →
    TxsConnected arith node nHeight i s (tx :: vtx) s'

theorem connectTxs_ok {params : Consensus.Params} {i : ℕ} {s s' : ConnectState} {vtx : List CTransaction}
    (checked : ∀ tx ∈ vtx, tx.Checked params)
    (h : connectTxs arith node nHeight block i s vtx = .ok s') : TxsConnected arith node nHeight i s vtx s' := by
  induction vtx generalizing i s
  case nil =>
    cases h
    exact .nil
  case cons tx vtx ih =>
    have ⟨s₁, head, tail⟩ := bind_eq_ok.mp h
    have ⟨checked₁, checked⟩ := List.forall_mem_cons.mp checked
    have ⟨txundo, v₁, ws, connected⟩ := connectTx_ok checked₁.distinct head
    exact .cons connected (ih checked tail)

theorem connectTxs_append (i : ℕ) (s : ConnectState) (vtx vtx' : List CTransaction) :
    connectTxs arith node nHeight block i s (vtx ++ vtx') =
      connectTxs arith node nHeight block i s vtx >>= fun s =>
        connectTxs arith node nHeight block (i + vtx.length) s vtx' := by
  induction vtx generalizing i s
  case nil => rfl
  case cons tx vtx ih =>
    simp only [List.cons_append, connectTxs, List.length_cons]
    cases connectTx arith node nHeight tx block i s
    case error e => rfl
    case ok s₁ =>
      rw [ok_bind, ok_bind, ih, Nat.add_right_comm, Nat.add_assoc]

-- The end of `ConnectBlock` changes blocks and anchors of the view, not the coins.
structure CCoinsViewCache.SameCoins (v v' : CCoinsViewCache) : Prop where
  utxo : v'.utxo = v.utxo
  consistent : v.Consistent → v'.Consistent

theorem CCoinsViewCache.pushAnchor_sameCoins (v : CCoinsViewCache) (tree : SaplingMerkleTree) :
    SameCoins v (v.pushAnchor tree) := by
  have ⟨v₁, eq, fetched⟩ := v.getBestAnchor_eq
  simp only [pushAnchor, eq]
  split
  case isTrue => exact ⟨fetched.utxo, fetched.consistent⟩
  case isFalse => exact ⟨fetched.utxo, fetched.consistent⟩

theorem CCoinsViewCache.finished_sameCoins (v : CCoinsViewCache) (tree : SaplingMerkleTree) (hashBlock : Uint256)
    (fJustCheck : Bool) :
    SameCoins v (if fJustCheck then v.pushAnchor tree else (v.pushAnchor tree).setBestBlock hashBlock) := by
  have same := v.pushAnchor_sameCoins tree
  split
  case isTrue => exact same
  case isFalse => exact ⟨same.utxo, same.consistent⟩

def loopStart (view : CCoinsViewCache) : ConnectState :=
  let (_, view) := view.getBestBlock
  let (rt, view) := view.getBestAnchor
  let (tree, view) := view.getSaplingAnchorAt rt
  { view, saplingTree := tree.getD {} }

theorem loopStart_fetched (view : CCoinsViewCache) : Fetched view (loopStart view).view := by
  have ⟨v₁, best, fetched₁⟩ := view.getBestBlock_eq
  have ⟨v₂, anchor, fetched₂⟩ := v₁.getBestAnchor_eq
  have ⟨v₃, tree, fetched₃⟩ := v₂.getSaplingAnchorAt_eq v₁.view.bestAnchor
  simp only [loopStart, best, anchor, tree]
  exact (fetched₁.trans fetched₂).trans fetched₃

inductive BlockConnected (arith : Arith) (node : Node) (block : CBlock) (pindex : CBlockIndex) (view : CCoinsViewCache)
    (fJustCheck : Bool) : Connected → Prop
  | genesis {v} : block.getHash = node.consensus.hashGenesisBlock → Fetched view v →
    BlockConnected arith node block pindex view fJustCheck
      { view := if fJustCheck then v else v.setBestBlock pindex.phashBlock }
  | loop {s r} : block.getHash ≠ node.consensus.hashGenesisBlock →
    (view.view.anchorAt view.view.bestAnchor).isSome →
    connectTxs arith node pindex.nHeight block 0 (loopStart view) block.vtx = .ok s →
    checkConnected arith node block pindex s = .ok () →
    r.vtxundo = (if fJustCheck then [] else s.vtxundo) →
    r.view = (if fJustCheck then s.view.pushAnchor s.saplingTree
      else (s.view.pushAnchor s.saplingTree).setBestBlock pindex.phashBlock) →
    BlockConnected arith node block pindex view fJustCheck r

variable {fJustCheck : Bool} {pindex : CBlockIndex} {view : CCoinsViewCache}

theorem recheckBlock_ok {block' : CBlock} (h : recheckBlock node block fJustCheck = .ok block') :
    checkBlock node block (!fJustCheck) (!fJustCheck) (!fJustCheck) = .ok block' := by
  unfold recheckBlock at h
  split at h
  case h_1 => cases h
  case h_2 => exact h

theorem connectTransactions_ok {s : ConnectState}
    (h : connectTransactions arith node block pindex view.getBestBlock.2 = .ok s) :
    (view.view.anchorAt view.view.bestAnchor).isSome ∧
      connectTxs arith node pindex.nHeight block 0 (loopStart view) block.vtx = .ok s := by
  have ⟨v₁, best, fetched₁⟩ := view.getBestBlock_eq
  have ⟨v₂, anchor, fetched₂⟩ := v₁.getBestAnchor_eq
  have ⟨v₃, tree, _⟩ := v₂.getSaplingAnchorAt_eq v₁.view.bestAnchor
  simp only [connectTransactions, best, anchor, tree] at h
  simp only [loopStart, best, anchor, tree]
  have same := (fetched₁.trans fetched₂).same
  rw [← same.anchorAt, ← same.bestAnchor, fetched₂.same.bestAnchor]
  cases found : v₂.view.anchorAt v₁.view.bestAnchor <;> simp only [found] at h
  case none => cases h
  case some tree => exact ⟨rfl, h⟩

theorem connectBlock_ok {pprev : Option CBlockIndex}
    {r : Connected} (earned : block.FlagEarned node.params)
    (h : connectBlock arith node block pindex pprev view fJustCheck = .ok r) :
    block.Checked node.params ∧ pprev.elim 0 (·.phashBlock) = view.view.bestBlock ∧
      BlockConnected arith node block pindex view fJustCheck r := by
  have ⟨v₁, best, fetched⟩ := view.getBestBlock_eq
  simp only [connectBlock, bind_eq_ok, exists_unit, failIf_eq_ok, not_not] at h
  have ⟨_, recheck, prev, h⟩ := h
  have ⟨checked, _⟩ := checkBlock_ok earned (recheckBlock_ok recheck)
  refine ⟨checked, prev.trans (by rw [best]), ?_⟩
  split at h
  case isTrue genesis =>
    cases h
    exact .genesis genesis (by rw [best]; exact fetched)
  case isFalse other =>
    simp only [bind_eq_ok, exists_unit] at h
    have ⟨_, s, loop, final, h⟩ := h
    have ⟨found, connected⟩ := connectTransactions_ok loop
    split at h
    case isTrue justCheck =>
      cases h
      exact .loop other found connected final (if_pos justCheck).symm (if_pos justCheck).symm
    case isFalse connect =>
      have ⟨_, _, eq⟩ := bind_eq_ok.mp h
      cases eq
      exact .loop other found connected final (if_neg connect).symm (if_neg connect).symm

def exampleNode (params : CChainParams) (tip : CBlockIndex) : Node :=
  { Node.start params with
    tip := some tip
    mapBlockIndex := fun h => if h = tip.phashBlock then some tip else none
    tip_isSome := fun _ => rfl
    tip_indexed := by
      rintro _ ⟨⟩
      exact if_pos rfl }

def exampleTip : CBlockIndex where
  phashBlock := 7
  nHeight := 9

def exampleIndex : CBlockIndex where
  phashBlock := 8
  nHeight := 10

def exampleCoin : Coin where
  out := { nValue := 100, scriptPubKey := [0x51] }
  nHeight := 3

def exampleView : CCoinsViewCache where
  base := .db {
    coins := AList.insert ⟨5, 0⟩ exampleCoin ∅
    bestBlock := some 7
  }

omit [Crypto] in
theorem exampleView_consistent : exampleView.Consistent :=
  ⟨trivial, nofun⟩

omit [Crypto] in
theorem exampleView_found {o : COutPoint} {c : Coin} (h : exampleView.utxo o = some c) : o = ⟨5, 0⟩ ∧ c = exampleCoin :=
  CCoinsViewCache.utxo_singleCoin h

omit [Crypto] in
theorem exampleView_none {o : COutPoint} (other : o ≠ ⟨5, 0⟩) : exampleView.utxo o = none :=
  Option.eq_none_iff_forall_ne_some.mpr fun _ found => other (exampleView_found found).left

def minerTx : CTransaction where
  vin := [{ prevout := .null, scriptSig := [0, 0] }]
  vout := [{ nValue := 5, scriptPubKey := [0x51] }]

def paymentTx : CTransaction where
  vin := [{ prevout := ⟨5, 0⟩ }]
  vout := [{ nValue := 90, scriptPubKey := [0x51] }, { nValue := 4, scriptPubKey := [0x6a] }]

def changeTx : CTransaction where
  vin := [{ prevout := ⟨paymentTx.getHash, 0⟩ }]
  vout := [{ nValue := 80, scriptPubKey := [0x51] }]

def exampleBlock (tip : CBlockIndex) (vtx : List CTransaction) : CBlock where
  hashPrevBlock := tip.phashBlock
  hashMerkleRoot := (computeMerkleRoot (vtx.map (·.getHash))).1
  vtx := vtx

theorem exampleBlock_earned (params : CChainParams) (tip : CBlockIndex) (vtx : List CTransaction) :
    (exampleBlock tip vtx).FlagEarned params :=
  nofun

end Qrax
