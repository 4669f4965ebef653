import Qrax.Coins.Theorems.Refinement
import Qrax.Validation.DisconnectBlock
import Qrax.Validation.Theorems.Ledger

open Fallible List Journal

namespace Qrax

open CTransaction CCoinsView CCoinsViewCache

section

variable {skip : COutPoint → Bool} {txid : Uint256} {nHeight i : ℕ} {fCoinBase fCoinStake : Bool} {vout : List CTxOut}

theorem ofNat_inj {i j : ℕ} (hi : i < 2 ^ 32) (hj : j < 2 ^ 32) (h : UInt32.ofNat i = UInt32.ofNat j) : i = j := by
  have := congrArg UInt32.toNat h
  rwa [UInt32.toNat_ofNat_of_lt' hi, UInt32.toNat_ofNat_of_lt' hj] at this

theorem outputCoins_nodup (fits : i + vout.length ≤ 2 ^ 32) :
    ((outputCoins skip txid nHeight fCoinBase fCoinStake i vout).map (·.1)).Nodup := by
  induction vout generalizing i
  case nil => exact nodup_nil
  case cons out vout ih =>
    rw [length_cons] at fits
    simp only [outputCoins]
    split
    case isTrue => exact ih (by omega)
    case isFalse =>
      refine nodup_cons.mpr ⟨fun mem => ?_, ih (by omega)⟩
      obtain ⟨p, hp, eq⟩ := mem_map.mp mem
      obtain ⟨j, lower, upper, key⟩ := (outputCoins_mem hp).index
      rw [key] at eq
      have := ofNat_inj (by omega) (by omega) (congrArg COutPoint.n eq)
      omega

end

theorem CTxOut.isNull_of_nonneg {txout : CTxOut} (h : 0 ≤ txout.nValue.toInt) : txout.isNull = false := by
  rw [CTxOut.isNull, beq_eq_false_iff_ne]
  intro eq
  rw [eq] at h
  exact absurd h (by decide)

section

variable [Crypto]

namespace CCoinsViewCache

variable {v : CCoinsViewCache}

structure Leads (v : CCoinsViewCache) (u : Utxo) (v' : CCoinsViewCache) : Prop where
  consistent : v'.Consistent
  framed : Framed v v'
  utxo : v'.utxo = u

theorem Leads.trans {v₁ v₂ : CCoinsViewCache} {u₁ u₂ : Utxo} (h₁ : Leads v u₁ v₁) (h₂ : Leads v₁ u₂ v₂) :
    Leads v u₂ v₂ :=
  ⟨h₂.consistent, h₁.framed.trans h₂.framed, h₂.utxo⟩

theorem spendCoin_leads (consistent : v.Consistent) (o : COutPoint) :
    Leads v (Function.update v.utxo o none) (v.spendCoin o).2 :=
  have ⟨consistent', utxo⟩ := spendCoin_consistent consistent o
  ⟨consistent', .spendCoin v o, utxo⟩

theorem addCoin_checked {o : COutPoint} {coin : Coin} (consistent : v.Consistent) (unspent : coin.isSpent = false) :
    ∃ v', (v.haveCoin o).2.addCoin o coin (v.haveCoin o).1 = .ok v' ∧
      Leads v (if coin.out.scriptPubKey.isUnspendable then v.utxo else Function.update v.utxo o (some coin)) v' := by
  have ⟨v₁, have', fetched⟩ := v.haveCoin_eq o
  rw [have', ← fetched.utxo]
  have ⟨v', add, consistent', _, utxo⟩ := addCoin_step o ⟨coin, unspent⟩ (v₁.utxo o).isSome
    (fetched.consistent consistent) fun absent => Option.isNone_iff_eq_none.mp (Option.isSome_eq_false_iff.mp absent)
  exact ⟨v', add, consistent', (Framed.fetched fetched).trans (.addCoin add), utxo⟩

end CCoinsViewCache


variable {arith : Arith} {node : Node}

-- A state of `DisconnectBlock` with the coins `u` again and no sign of an unclean block.
structure Undoes (u : Utxo) (s s' : DisconnectState) : Prop where
  consistent : s'.view.Consistent
  utxo : s'.view.utxo = u
  clean : s'.fClean = s.fClean
  framed : Framed s.view s'.view

variable {u u' : Utxo} {txid : Uint256} {vout : List CTxOut} {s : DisconnectState} {nHeight i : ℕ}
  {params : Consensus.Params} {vtx : List CTransaction}

theorem Undoes.trans {s₁ s₂ s₃ : DisconnectState} (h₁ : Undoes u s₁ s₂) (h₂ : Undoes u' s₂ s₃) :
    Undoes u' s₁ s₃ :=
  ⟨h₂.consistent, h₂.utxo, h₂.clean.trans h₁.clean, h₁.framed.trans h₂.framed⟩

theorem undoOutputs_leads (nHeight : ℕ) (fCoinBase fCoinStake : Bool)
    (consistent : s.view.Consistent) :
    Leads s.view (replay s.view.utxo
        ((outputCoins (fun _ => false) txid nHeight fCoinBase fCoinStake i vout).map fun p => (p.1, none)))
      (undoOutputs txid s i vout).view := by
  induction vout generalizing s i
  case nil => exact ⟨consistent, .fetched (.refl _), rfl⟩
  case cons out vout ih =>
    simp only [undoOutputs, outputCoins, Bool.false_or]
    split
    case isTrue => exact ih consistent
    case isFalse =>
      have first := spendCoin_leads consistent { hash := txid, n := UInt32.ofNat i }
      have later := fun fClean => ih (i := i + 1) (s := { s with view := _, fClean }) first.consistent
      simp only [first.utxo] at later
      exact first.trans (later _)

theorem undoOutputs_clean {fCoinBase fCoinStake : Bool}
    (fits : i + vout.length ≤ 2 ^ 32) (consistent : s.view.Consistent)
    (found : ∀ p ∈ outputCoins (fun _ => false) txid nHeight fCoinBase fCoinStake i vout, s.view.utxo p.1 = some p.2) :
    (undoOutputs txid s i vout).fClean = s.fClean := by
  induction vout generalizing s i
  case nil => rfl
  case cons out vout ih =>
    have distinct : ((outputCoins (fun _ => false) txid nHeight fCoinBase fCoinStake i (out :: vout)).map (·.1)).Nodup :=
      outputCoins_nodup fits
    rw [length_cons] at fits
    simp only [outputCoins, Bool.false_or, undoOutputs] at distinct found ⊢
    by_cases unspendable : out.scriptPubKey.isUnspendable
    case pos =>
      simp only [unspendable, if_true] at found ⊢
      exact ih (by omega) consistent found
    case neg =>
      simp only [unspendable, Bool.false_eq_true, if_false, map_cons] at distinct found ⊢
      obtain ⟨head, rest⟩ := forall_mem_cons.mp found
      obtain ⟨notMem, _⟩ := nodup_cons.mp distinct
      generalize ({ hash := txid, n := UInt32.ofNat i } : COutPoint) = o at head notMem ⊢
      have first := spendCoin_leads consistent o
      obtain ⟨_, _, _, spend⟩ := s.view.spendCoin_eq o
      have coin : (s.view.spendCoin o).1 = some { fCoinBase, fCoinStake, out, nHeight } := by
        rw [spend, (peek_of_utxo head).left]
      simp only [coin, Option.getD_some, beq_self_eq_true, Bool.and_true]
      refine ih (s := { s with view := (s.view.spendCoin o).2 }) (by omega) first.consistent fun p mem => ?_
      rw [first.utxo, Function.update_of_ne, rest p mem]
      intro eq
      exact notMem (mem_map.mpr ⟨p, mem, eq⟩)

-- A coin that `ApplyTxInUndo` can put back: with its height, and not dropped by `AddCoin`.
structure Coin.Restorable (c : Coin) : Prop where
  unspent : c.isSpent = false
  height : c.nHeight ≠ 0
  spendable : ¬c.out.scriptPubKey.isUnspendable

theorem applyTxInUndo_restores {undo : Coin} {v : CCoinsViewCache} (consistent : v.Consistent)
    (restorable : undo.Restorable) (out : COutPoint) :
    ∃ v', applyTxInUndo undo v out =
        .ok (if (v.utxo out).isSome then .DISCONNECT_UNCLEAN else .DISCONNECT_OK, v') ∧
      Leads v (Function.update v.utxo out (some undo)) v' := by
  obtain ⟨v₁, found, _⟩ := v.haveCoin_eq out
  obtain ⟨v', add, leads⟩ := addCoin_checked (o := out) consistent restorable.unspent
  rw [if_neg restorable.spendable] at leads
  refine ⟨v', ?_, leads⟩
  rw [found] at add
  simp only [applyTxInUndo, undoMetadata, restorable.height, if_false, found]
  rw [add, ok_bind]

theorem countRestored_ok (node : Node) (s : DisconnectState) (out : COutPoint) :
    ∃ s', countRestored .int64 node s out = .ok s' ∧ s'.fClean = s.fClean ∧ Fetched s.view s'.view := by
  have ⟨v₁, access, fetched⟩ := s.view.accessCoin_eq out
  unfold countRestored
  split
  case isTrue =>
    rw [access]
    exact ⟨_, rfl, rfl, fetched⟩
  case isFalse => exact ⟨s, rfl, rfl, .refl _⟩

theorem undoInputs_restores (node : Node) {l : List (CTxIn × Coin)} (consistent : s.view.Consistent)
    (restorable : ∀ p ∈ l, p.2.Restorable) :
    ∃ s', undoInputs .int64 node s l = .ok (.done s') ∧
      Leads s.view (replay s.view.utxo (l.map fun p => (p.1.prevout, some p.2))) s'.view ∧
      ((l.map (·.1.prevout)).Nodup → (∀ p ∈ l, s.view.utxo p.1.prevout = none) → s'.fClean = s.fClean) := by
  induction l generalizing s
  case nil => exact ⟨s, rfl, ⟨consistent, .fetched (.refl _), rfl⟩, fun _ _ => rfl⟩
  case cons p l ih =>
    obtain ⟨txin, undo⟩ := p
    obtain ⟨restorable₁, restorable⟩ := forall_mem_cons.mp restorable
    obtain ⟨v₁, apply, leads⟩ := applyTxInUndo_restores consistent restorable₁ txin.prevout
    generalize hres : (if (s.view.utxo txin.prevout).isSome then _ else _ : DisconnectResult) = res at apply
    have done : res ≠ .DISCONNECT_FAILED := by
      rw [← hres]
      split <;> rintro ⟨⟩
    obtain ⟨s₂, count, clean₂, fetched⟩ := countRestored_ok node
      { s with view := v₁, fClean := s.fClean && res != .DISCONNECT_UNCLEAN } txin.prevout
    have first : Leads s.view (Function.update s.view.utxo txin.prevout (some undo)) s₂.view :=
      ⟨fetched.consistent leads.consistent, leads.framed.trans (.fetched fetched), fetched.utxo.trans leads.utxo⟩
    obtain ⟨s', undone, later, clean⟩ := ih first.consistent restorable
    rw [first.utxo] at later clean
    refine ⟨s', ?_, first.trans later, fun distinct absent => ?_⟩
    case refine_1 =>
      simp only [undoInputs, apply, ok_bind, done, if_false]
      exact (congrArg (· >>= _) count).trans undone
    case refine_2 =>
      obtain ⟨notMem, distinct⟩ := nodup_cons.mp distinct
      obtain ⟨absent₁, absent⟩ := forall_mem_cons.mp absent
      have same : s₂.fClean = s.fClean := by simp [clean₂, ← hres, absent₁]
      refine (clean distinct fun q mem => ?_).trans same
      rw [Function.update_of_ne, absent q mem]
      intro eq
      exact notMem (mem_map.mpr ⟨q, mem, eq⟩)

omit [Crypto] in
theorem zip_undo {vin : List CTxIn} {vprevout : List Coin}
    (h : vprevout.map some = vin.map fun txin => u txin.prevout) : ∀ p ∈ vin.zip vprevout, u p.1.prevout = some p.2 := by
  induction vin generalizing vprevout
  case nil => nofun
  case cons txin vin ih =>
    cases vprevout
    case nil => cases h
    case cons c vprevout =>
      have ⟨head, tail⟩ := cons.inj h
      exact forall_mem_cons.mpr ⟨head.symm, ih tail⟩

section

variable {params : Consensus.Params} {nHeight : ℕ} {tx : CTransaction} {txundo : CTxUndo}
  {u u' : Utxo} {s : DisconnectState}

theorem disconnectTx_eq (node : Node) (checked : tx.Checked params)
    (length : txundo.vprevout.length = tx.inputsSpent.length) :
    ∃ nValueOut, disconnectTx .int64 node tx txundo s = undoInputs .int64 node
      { undoOutputs tx.getHash s 0 tx.vout with nValueOut } (tx.inputsSpent.zip txundo.vprevout).reverse := by
  obtain ⟨_, _, value⟩ := checked.getValueOut_eq
  simp only [disconnectTx, value, ok_bind, Arith.norm]
  generalize Int.bmod _ _ = nValueOut
  refine ⟨nValueOut, ?_⟩
  split
  case isTrue other =>
    rw [inputsSpent_of_other (by rw [← Bool.not_or, other]; decide)]
    rfl
  case isFalse ordinary =>
    rw [inputsSpent_of_ordinary (by rw [← Bool.not_or, Bool.eq_false_iff.mpr ordinary]; rfl)] at length ⊢
    rw [if_neg (not_not.mpr length)]

def CTransaction.touched (tx : CTransaction) (nHeight : ℕ) : List COutPoint :=
  tx.inputsSpent.map (·.prevout) ++ (tx.allCoins nHeight).map (·.1)

-- Undoing a transaction gives its outpoints the coins from before, whatever was there, and leaves the others.
theorem disconnectTx_reverts (node : Node) (checked : tx.Checked params)
    (undo : txundo.vprevout.map some = tx.inputsSpent.map fun txin => u txin.prevout)
    (absent : ∀ p ∈ tx.allCoins nHeight, u.spend tx.inputsSpent p.1 = none)
    (restorable : ∀ o c, u o = some c → c.Restorable) (consistent : s.view.Consistent) :
    ∃ s', disconnectTx .int64 node tx txundo s = .ok (.done s') ∧
      Leads s.view (patch u s.view.utxo (tx.touched nHeight)) s'.view ∧
      (s.view.utxo = (u.spend tx.inputsSpent).create (tx.allCoins nHeight) → s'.fClean = s.fClean) := by
  have first : Leads s.view (replay s.view.utxo ((tx.allCoins nHeight).map fun p => (p.1, none)))
      (undoOutputs tx.getHash s 0 tx.vout).view := undoOutputs_leads nHeight tx.isCoinBase tx.isCoinStake consistent
  have cleared : replay s.view.utxo ((tx.allCoins nHeight).map fun p => (p.1, none)) =
      patch (u.spend tx.inputsSpent) s.view.utxo ((tx.allCoins nHeight).map (·.1)) := by
    rw [replay_values (f := u.spend tx.inputsSpent), map_map]
    · rfl
    · intro w mem
      obtain ⟨p, coin, rfl⟩ := mem_map.mp mem
      exact (absent p coin).symm
  rw [cleared] at first
  have length : txundo.vprevout.length = tx.inputsSpent.length := by simpa using congrArg length undo
  obtain ⟨nValueOut, eq⟩ := disconnectTx_eq node checked length (s := s)
  have coins := zip_undo undo
  obtain ⟨s', done, later, clean⟩ := undoInputs_restores node (s := { undoOutputs tx.getHash s 0 tx.vout with nValueOut })
    (l := (tx.inputsSpent.zip txundo.vprevout).reverse) first.consistent
    fun p mem => restorable _ _ (coins p (mem_reverse.mp mem))
  have values (w : COutPoint × Option Coin)
      (mem : w ∈ (tx.inputsSpent.zip txundo.vprevout).reverse.map fun p => (p.1.prevout, some p.2)) : w.2 = u w.1 := by
    obtain ⟨p, hp, eq⟩ := mem_map.mp mem
    subst eq
    exact (coins p (mem_reverse.mp hp)).symm
  have keys : (tx.inputsSpent.zip txundo.vprevout).reverse.map (·.1.prevout) =
      (tx.inputsSpent.map (·.prevout)).reverse := by
    rw [map_reverse]
    conv_rhs => rw [← map_fst_zip length.ge, map_map]
    rfl
  refine ⟨s', eq.trans done, ⟨later.consistent, first.framed.trans later.framed, ?_⟩, fun before => ?_⟩
  case refine_1 =>
    rw [later.utxo, first.utxo, replay_values values, map_map]
    change patch u _ ((tx.inputsSpent.zip txundo.vprevout).reverse.map (·.1.prevout)) = _
    rw [keys, patch_patch fun o kept => Utxo.spend_of_not_mem (mt mem_reverse.mpr kept)]
    exact patch_congr fun o => by simp only [touched, mem_append, mem_reverse]
  case refine_2 =>
    have fits : 0 + tx.vout.length ≤ 2 ^ 32 := by
      have := checked.vout_length_lt
      omega
    have created : (((tx.allCoins nHeight).map fun p => (p.1, some p.2)).map (·.1)).Nodup := by
      rw [map_map]
      exact outputCoins_nodup fits
    have found (p : COutPoint × Coin) (mem : p ∈ tx.allCoins nHeight) : s.view.utxo p.1 = some p.2 := by
      rw [before]
      exact replay_eq_of_mem created (mem_map.mpr ⟨p, mem, rfl⟩)
    refine (clean ?_ fun p mem => ?_).trans (undoOutputs_clean fits consistent found)
    · rw [keys, nodup_reverse, inputsSpent]
      split <;> [exact checked.distinct; exact nodup_nil]
    · have spent : p.1.prevout ∈ tx.inputsSpent.map (·.prevout) :=
        mem_map_of_mem (of_mem_zip (mem_reverse.mp mem)).left
      rw [first.utxo, patch, Utxo.spend_of_mem spent, before]
      split
      case isTrue => rfl
      case isFalse kept =>
        rw [Utxo.create, replay_of_not_mem (by rwa [map_map]), Utxo.spend_of_mem spent]

theorem disconnectTx_ok (node : Node) (checked : tx.Checked params)
    (step : Utxo.Step nHeight tx txundo u u') (restorable : ∀ o c, u o = some c → c.Restorable)
    (consistent : s.view.Consistent) (utxo : s.view.utxo = u') :
    ∃ s', disconnectTx .int64 node tx txundo s = .ok (.done s') ∧ Undoes u s s' := by
  obtain ⟨s', done, leads, clean⟩ := disconnectTx_reverts node checked step.undo step.absent restorable consistent
  refine ⟨s', done, leads.consistent, leads.utxo.trans (funext fun o => ?_), clean (utxo.trans step.result), leads.framed⟩
  unfold patch
  split
  case isTrue => rfl
  case isFalse untouched =>
    obtain ⟨unspent, uncreated⟩ := not_or.mp (mem_append.not.mp untouched)
    rw [utxo, step.result, Utxo.create, replay_of_not_mem (by rwa [map_map]),
      Utxo.spend_of_not_mem unspent]

end

theorem CTransaction.Checked.restorable {tx : CTransaction}
    (checked : tx.Checked params) (positive : nHeight ≠ 0) : ∀ p ∈ tx.allCoins nHeight, p.2.Restorable := by
  intro p mem
  have coin := outputCoins_mem mem
  constructor
  case unspent => exact CTxOut.isNull_of_nonneg (checked.amounts.each p.2.out coin.out).left
  case height => exact coin.height ▸ positive
  case spendable => exact coin.spendable

theorem disconnectTxs_append (node : Node) (s : DisconnectState) (l l' : List (CTransaction × CTxUndo)) :
    disconnectTxs arith node s (l ++ l') =
      disconnectTxs arith node s l >>= Undone.andThen fun s => disconnectTxs arith node s l' := by
  induction l generalizing s
  case nil => rfl
  case cons p l ih =>
    have ⟨tx, txundo⟩ := p
    simp only [cons_append, disconnectTxs]
    cases disconnectTx arith node tx txundo s
    case error e => rfl
    case ok r =>
      cases r
      case failed => rfl
      case done s => exact ih s

theorem disconnectTxs_ok {l : List (CTransaction × CTxUndo)} (node : Node)
    (positive : nHeight ≠ 0) (checked : ∀ p ∈ l, p.1.Checked params) (steps : Utxo.Steps nHeight u l u')
    (restorable : ∀ o c, u o = some c → c.Restorable)
    (consistent : s.view.Consistent) (utxo : s.view.utxo = u') :
    ∃ s', disconnectTxs .int64 node s l.reverse = .ok (.done s') ∧ Undoes u s s' := by
  induction steps
  case nil => exact ⟨s, rfl, consistent, utxo, rfl, .fetched (.refl _)⟩
  case cons u tx txundo u₁ l u' step _ ih =>
    have ⟨checked₁, checked⟩ := forall_mem_cons.mp checked
    have ⟨s₁, done₁, undone₁⟩ := ih checked (step.keeps restorable (checked₁.restorable positive)) utxo
    have ⟨s', done, undone⟩ := disconnectTx_ok node checked₁ step restorable undone₁.consistent
      undone₁.utxo
    refine ⟨s', ?_, undone₁.trans undone⟩
    rw [reverse_cons, disconnectTxs_append, done₁, ok_bind]
    simp only [Undone.andThen, disconnectTxs, done, ok_bind]

structure BlockDisconnected (arith : Arith) (node : Node) (block : CBlock) (pprev : CBlockIndex) (vtxundo : List CTxUndo)
    (view : CCoinsViewCache) (s : DisconnectState) (v : CCoinsViewCache) (d : Disconnected) : Prop where
  length : vtxundo.length + 1 = block.vtx.length
  txs : disconnectTxs arith node { view } (block.vtx.zip ({} :: vtxundo)).reverse = .ok (.done s)
  supply : arith.norm (s.nValueIn - s.nValueOut) = .ok d.supplyChange
  anchor : ∃ rt, s.view.popAnchor rt = .ok v
  view : d.view = v.setBestBlock pprev.phashBlock
  result : d.result = if s.fClean then .DISCONNECT_OK else .DISCONNECT_UNCLEAN

theorem disconnectBlock_ok {block : CBlock} {pprev : CBlockIndex} {vtxundo : List CTxUndo} {view : CCoinsViewCache}
    {d : Disconnected} (h : disconnectBlock arith node block pprev (some vtxundo) view = .ok d)
    (done : d.result ≠ .DISCONNECT_FAILED) :
    ∃ s v, BlockDisconnected arith node block pprev vtxundo view s v d := by
  simp only [disconnectBlock] at h
  split at h
  case isTrue =>
    cases h
    exact absurd rfl done
  case isFalse length =>
    have ⟨u, txs, h⟩ := bind_eq_ok.mp h
    cases u
    case failed =>
      cases h
      exact absurd rfl done
    case done s =>
      simp only [bind_eq_ok, Except.ok.injEq] at h
      have ⟨_, supply, v, anchor, eq⟩ := h
      subst eq
      exact ⟨s, v, not_not.mp length, txs, supply, ⟨_, anchor⟩, rfl, rfl⟩

def CCoinsViewCache.AnchorFound (v : CCoinsViewCache) : Prop :=
  (v.view.anchorAt v.view.bestAnchor).isSome

variable {v v' : CCoinsViewCache}

theorem CCoinsViewCache.AnchorFound.framed (h : v.AnchorFound) (framed : Framed v v') : v'.AnchorFound := by
  unfold AnchorFound
  rw [framed.bestAnchor, framed.anchorAt]
  exact h

theorem CCoinsViewCache.pushAnchor_found (h : v.AnchorFound) {tree : SaplingMerkleTree} (root : tree.root ≠ 0) :
    (v.pushAnchor tree).AnchorFound ∧ CCoinsView.Same v.base (v.pushAnchor tree).base := by
  have ⟨v₁, eq, fetched⟩ := v.getBestAnchor_eq
  simp only [pushAnchor, eq]
  split
  case isTrue => exact ⟨h.framed (.fetched fetched), fetched.base⟩
  case isFalse =>
    refine ⟨?_, fetched.base⟩
    simp only [AnchorFound, view, bestAnchor, anchorAt, root, if_false, AList.lookup_insert,
      if_true, Option.isSome_some]

theorem CCoinsViewCache.popAnchor_ok (h : v.AnchorFound) (newrt : Uint256) :
    ∃ v', v.popAnchor newrt = .ok v' ∧ v'.utxo = v.utxo ∧ CCoinsView.Same v.base v'.base := by
  have ⟨v₁, best, fetched₁⟩ := v.getBestAnchor_eq
  have ⟨v₂, anchor, fetched₂⟩ := v₁.getSaplingAnchorAt_eq v.view.bestAnchor
  have ⟨tree, found⟩ := Option.isSome_iff_exists.mp h
  simp only [popAnchor, best]
  split
  case isTrue => exact ⟨v₁, rfl, fetched₁.utxo, fetched₁.base⟩
  case isFalse =>
    rw [fetched₁.same.anchorAt, found] at anchor
    rw [anchor]
    exact ⟨_, rfl, (fetched₁.trans fetched₂).utxo, (fetched₁.trans fetched₂).base⟩

theorem TxsConnected.framed {s s' : ConnectState}
    (h : TxsConnected arith node nHeight i s vtx s') : Framed s.view s'.view := by
  induction h
  case nil => exact .fetched (.refl _)
  case cons head _ ih => exact (head.updated.spends.framed.trans head.updated.adds.framed).trans ih

omit [Crypto] in
theorem zip_vtxundo {txundos : List CTxUndo}
    (coinBase : (vtx.headD {}).isCoinBase) (length : txundos.length = vtx.length)
    (first : ∀ p ∈ (vtx.zip txundos).head?, p.2.vprevout.map some = p.1.inputsSpent.map fun txin => u txin.prevout) :
    vtx.zip ({} :: txundos.drop 1) = vtx.zip txundos ∧ (txundos.drop 1).length + 1 = vtx.length := by
  cases vtx
  case nil => cases coinBase
  case cons tx vtx =>
    cases txundos
    case nil => cases length
    case cons txundo txundos =>
      have undo := first (tx, txundo) rfl
      rw [inputsSpent_of_other (by simp at coinBase; simp [coinBase])] at undo
      have empty : txundo = {} := by
        have := map_eq_nil_iff.mp undo
        exact congrArg CTxUndo.mk this
      exact ⟨by rw [empty, drop_one, tail_cons], by simpa using length⟩

theorem CCoinsViewCache.setBestBlock_bestBlock {v v₀ : CCoinsViewCache} {hash : Uint256}
    (base : CCoinsView.Same v₀.base v.base) (eq : hash = v₀.view.bestBlock) :
    (v.setBestBlock hash).view.bestBlock = v₀.view.bestBlock := by
  simp only [setBestBlock, view, bestBlock]
  split
  case isFalse => exact eq
  case isTrue null =>
    -- Without its own hash the cache answers with the view below, before as after.
    rw [null, view, bestBlock] at eq
    split at eq
    case isTrue own => rw [if_pos own, base.bestBlock]
    case isFalse own => exact absurd eq.symm own

variable {node : Node} {block : CBlock} {pindex pprev : CBlockIndex} {view : CCoinsViewCache} {r : Connected}

theorem connectBlock_restorable (consistent : view.Consistent)
    (restorable : ∀ o c, view.utxo o = some c → c.Restorable) (earned : block.FlagEarned node.params)
    (positive : pindex.nHeight ≠ 0) (avoids : ∀ tx ∈ block.vtx, tx.Avoids node.containsOutPoint)
    (new : ∀ tx ∈ block.vtx, ∀ p ∈ tx.allCoins pindex.nHeight, view.utxo p.1 = none)
    (accepted : connectBlock .int64 node block pindex (some pprev) view false = .ok r) :
    r.view.Consistent ∧ ∀ o c, r.view.utxo o = some c → c.Restorable := by
  have ⟨checked, _⟩ := connectBlock_ok earned accepted
  exact connectBlock_keeps consistent earned avoids new accepted restorable fun tx mem =>
    (checked.transactions tx mem).restorable positive

-- The undo data of `ConnectBlock` take `DisconnectBlock` back to the coins from before.
theorem disconnectBlock_undoes (node' : Node) (roots : ∀ tree : SaplingMerkleTree, tree.root ≠ 0)
    (consistent : view.Consistent) (heights : ∀ o c, view.utxo o = some c → 1 ≤ c.nHeight)
    (spendable : ∀ o c, view.utxo o = some c → ¬c.out.scriptPubKey.isUnspendable)
    (earned : block.FlagEarned node.params) (height : pindex.nHeight = pprev.nHeight + 1)
    (notGenesis : block.getHash ≠ node.consensus.hashGenesisBlock)
    (avoids : ∀ tx ∈ block.vtx, tx.Avoids node.containsOutPoint)
    (new : ∀ tx ∈ block.vtx, ∀ p ∈ tx.allCoins pindex.nHeight, view.utxo p.1 = none)
    (accepted : connectBlock .int64 node block pindex (some pprev) view false = .ok r) :
    ∃ d, disconnectBlock .int64 node' block pprev (some r.vtxundo) r.view = .ok d ∧ d.result = .DISCONNECT_OK ∧
      d.view.utxo = view.utxo ∧ d.view.view.bestBlock = view.view.bestBlock := by
  have restorable (o : COutPoint) (c : Coin) (found : view.utxo o = some c) : c.Restorable :=
    ⟨(CCoinsViewCache.peek_of_utxo found).right, Nat.one_le_iff_ne_zero.mp (heights o c found), spendable o c found⟩
  have ⟨checked, prev, connected⟩ := connectBlock_ok earned accepted
  cases connected
  case genesis genesis _ => exact absurd genesis notGenesis
  case loop s _ anchor loop _ undo view' =>
    simp only [Bool.false_eq_true, if_false] at undo view'
    have loop := connectTxs_ok checked.transactions loop
    have fetched := loopStart_fetched view
    have start := (CCoinsViewCache.NoneBelow.start consistent).fetched fetched
    have ⟨stop, txundos, length, written, steps⟩ := loop.steps start avoids new
    have ⟨zip, count⟩ := zip_vtxundo checked.coinBase length steps.undo_head
    rw [written] at undo
    change r.vtxundo = txundos.drop 1 at undo
    rw [← undo] at zip count
    have found : (loopStart view).view.AnchorFound := CCoinsViewCache.AnchorFound.framed anchor (.fetched fetched)
    have ⟨found', base'⟩ := CCoinsViewCache.pushAnchor_found (found.framed loop.framed) (roots s.saplingTree)
    have same := CCoinsViewCache.pushAnchor_sameCoins s.view s.saplingTree
    have ⟨s', done, undone⟩ := disconnectTxs_ok node' (height ▸ Nat.succ_ne_zero _)
      (fun p mem => checked.transactions p.1 (of_mem_zip mem).left) steps
      (fetched.utxo ▸ restorable) (s := { view := r.view })
      (view' ▸ same.consistent stop.consistent) (view' ▸ same.utxo)
    have framed := undone.framed
    have found₁ : r.view.AnchorFound := view' ▸ found'
    let rt := if node'.consensus.networkUpgradeActive pprev.nHeight .ACTIVATE_HUSH then pprev.hashFinalSaplingRoot
      else SaplingMerkleTree.emptyRoot
    have ⟨v₁, pop, utxo₁, base₁⟩ := CCoinsViewCache.popAnchor_ok (found₁.framed framed) rt
    have base : CCoinsView.Same view.base v₁.base := by
      have below : CCoinsView.Same view.base r.view.base :=
        (fetched.base.trans loop.framed.base).trans (view' ▸ base')
      exact (below.trans framed.base).trans base₁
    have clean : s'.fClean = true := undone.clean
    let d : Disconnected := {
      result := .DISCONNECT_OK
      view := v₁.setBestBlock pprev.phashBlock
      supplyChange := (s'.nValueIn - s'.nValueOut).bmod (2 ^ 64) }
    refine ⟨d, ?_, rfl, ?_, CCoinsViewCache.setBestBlock_bestBlock base prev⟩
    · simp only [disconnectBlock, count, ne_eq, not_true_eq_false, if_false, zip, done, ok_bind, Arith.norm, clean,
        if_true]
      rw [pop, ok_bind]
    · rw [undone.utxo] at utxo₁
      exact utxo₁.trans fetched.utxo

end

theorem toy_roots :
    let _crypto := Crypto.toy
    ∀ tree : SaplingMerkleTree, tree.root ≠ 0 := by
  intro _crypto tree
  refine tree.root_of_combine (P := (· ≠ 0)) fun l r _ null => ?_
  have odd := congrArg (BitVec.getLsbD · 0) null
  simp [Crypto.pedersenCombine, _crypto] at odd

theorem disconnectBlock_undoes_payments :
    let _crypto := Crypto.toy
    let node := exampleNode .regtest exampleTip
    let block := exampleBlock exampleTip [minerTx, paymentTx, changeTx]
    ∃ r d, connectBlock .int64 node block exampleIndex (some exampleTip) exampleView false = .ok r ∧
      disconnectBlock .int64 node block exampleTip (some r.vtxundo) r.view = .ok d ∧ d.result = .DISCONNECT_OK ∧
      d.view.utxo = exampleView.utxo ∧ d.view.view.bestBlock = exampleView.view.bestBlock := by
  intro _crypto node block
  have accepted : (connectBlock .int64 node block exampleIndex (some exampleTip) exampleView false).isOk := by
    decide +kernel
  have ⟨r, accepted⟩ := isOk_iff.mp accepted
  have ⟨d, undone⟩ := disconnectBlock_undoes node toy_roots exampleView_consistent
    (fun o c found => (exampleView_found found).right ▸ by decide) (fun o c found => (exampleView_found found).right ▸ by decide)
    (exampleBlock_earned _ _ _) rfl (by decide) (fun _ _ _ _ => rfl) (by decide) accepted
  exact ⟨r, d, accepted, undone⟩

end Qrax
