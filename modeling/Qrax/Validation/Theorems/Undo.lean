import Qrax.Validation.Theorems.Rollforward

open Fallible List

namespace Qrax

open CCoinsViewCache (Fetched Framed Leads SameCoins)

-- `DisconnectBlock` on a view in order, with any coins.

variable [Crypto] {arith : Arith} {node : Node} {nHeight i : ℕ} {s s' : DisconnectState} {v v' : CCoinsViewCache}
  {tx : CTransaction} {txundo : CTxUndo} {out : COutPoint} {undo : Coin}

theorem accessByTxidFrom_fetched (txid : Uint256) (v : CCoinsViewCache) (n limit : ℕ) :
    Fetched v (accessByTxidFrom txid v n limit).2 := by
  induction limit generalizing v n
  case zero => exact .refl v
  case succ limit ih =>
    have ⟨v₁, eq, fetched⟩ := v.accessCoin_eq { hash := txid, n := UInt32.ofNat n }
    simp only [accessByTxidFrom, eq]
    split
    case isTrue => exact fetched
    case isFalse => exact fetched.trans (ih v₁ (n + 1))

theorem undoMetadata_fetched (undo : Coin) (v : CCoinsViewCache) (out : COutPoint) :
    Fetched v (undoMetadata undo v out).2 := by
  have fetched : Fetched v (accessByTxid v out.hash).2 := accessByTxidFrom_fetched ..
  simp only [undoMetadata]
  split_ifs
  · exact fetched
  · exact fetched
  · exact .refl v

theorem applyTxInUndo_leads (consistent : v.Consistent) {res : DisconnectResult}
    (h : applyTxInUndo undo v out = .ok (res, v')) (done : res ≠ .DISCONNECT_FAILED) :
    ∃ c : Coin, Leads v (if c.out.scriptPubKey.isUnspendable then v.utxo else Function.update v.utxo out (some c)) v' := by
  obtain ⟨v₁, have', fetched₁⟩ := v.haveCoin_eq out
  have fetched₂ := undoMetadata_fetched undo v₁ out
  simp only [applyTxInUndo, have'] at h
  generalize undoMetadata undo v₁ out = r at fetched₂ h
  obtain ⟨c, v₂⟩ := r
  cases c
  case none =>
    cases h
    exact absurd rfl done
  case some c =>
    obtain ⟨v₃, add, eq⟩ := bind_eq_ok.mp h
    cases eq
    have fetched := fetched₁.trans fetched₂
    obtain ⟨unspent, _⟩ := CCoinsViewCache.addCoin_eq_ok.mp add
    obtain ⟨v'', add', consistent', _, utxo⟩ := CCoinsViewCache.addCoin_step out ⟨c, unspent⟩ (v.utxo out).isSome
      (fetched.consistent consistent) fun absent => by
        rw [fetched.utxo]
        exact Option.isNone_iff_eq_none.mp (Option.isSome_eq_false_iff.mp absent)
    rw [add] at add'
    cases add'
    rw [fetched.utxo] at utxo
    exact ⟨c, consistent', (Framed.fetched fetched).trans (.addCoin add), utxo⟩

theorem countRestored_fetched (h : countRestored arith node s out = .ok s') : Fetched s.view s'.view := by
  have ⟨v₁, access, fetched⟩ := s.view.accessCoin_eq out
  unfold countRestored at h
  split at h
  case isFalse =>
    cases h
    exact .refl _
  case isTrue =>
    rw [access] at h
    have ⟨_, _, eq⟩ := bind_eq_ok.mp h
    cases eq
    exact fetched

theorem undoInputs_unspent {l : List (CTxIn × Coin)} (consistent : s.view.Consistent)
    (h : undoInputs arith node s l = .ok (.done s')) :
    s'.view.Consistent ∧ ∀ o ∈ s'.view.utxo.unspent, o ∈ s.view.utxo.unspent ∨ o ∈ l.map (·.1.prevout) := by
  induction l generalizing s
  case nil =>
    cases h
    exact ⟨consistent, fun _ mem => .inl mem⟩
  case cons p l ih =>
    have ⟨txin, undo⟩ := p
    have ⟨⟨res, v₁⟩, apply, h⟩ := bind_eq_ok.mp h
    dsimp only at h
    split at h
    case isTrue => cases h
    case isFalse done =>
      have ⟨s₂, count, rest⟩ := bind_eq_ok.mp h
      have ⟨c, leads⟩ := applyTxInUndo_leads consistent apply done
      have fetched := countRestored_fetched count
      have ⟨consistent', left⟩ := ih (fetched.consistent leads.consistent) rest
      refine ⟨consistent', fun o mem => ?_⟩
      cases left o mem
      case inr later => exact .inr (mem_cons_of_mem _ later)
      case inl now =>
        rw [fetched.utxo] at now
        change (v₁.utxo o).isSome at now
        rw [leads.utxo] at now
        split at now
        case isTrue => exact .inl now
        case isFalse =>
          by_cases same : o = txin.prevout
          case pos => exact .inr (same ▸ mem_cons_self ..)
          case neg => exact .inl (by rwa [Function.update_of_ne same] at now)

omit [Crypto] in
theorem mem_outputs_of_mem_coins {skip : COutPoint → Bool} {txid : Uint256} {fCoinBase fCoinStake : Bool}
    {vout : List CTxOut} {p : COutPoint × Coin} (h : p ∈ outputCoins skip txid nHeight fCoinBase fCoinStake i vout) :
    p ∈ outputCoins (fun _ => false) txid nHeight fCoinBase fCoinStake i vout := by
  induction vout generalizing i
  case nil => cases h
  case cons out vout ih =>
    simp only [outputCoins, Bool.false_or, Bool.or_eq_true] at h ⊢
    split at h
    case isTrue =>
      split
      case isTrue => exact ih h
      case isFalse => exact mem_cons_of_mem _ (ih h)
    case isFalse kept =>
      rw [if_neg fun unspendable => kept (.inr unspendable)]
      exact (mem_cons.mp h).elim (· ▸ mem_cons_self ..) fun h => mem_cons_of_mem _ (ih h)

theorem disconnectTx_returns (node' : Node) (nHeight : ℕ) (consistent : s.view.Consistent)
    (h : disconnectTx arith node tx txundo s = .ok (.done s')) :
    s'.view.Consistent ∧ (tx.move node' nHeight).Returns s.view.utxo.unspent s'.view.utxo.unspent := by
  have first : Leads s.view (Journal.replay s.view.utxo ((tx.allCoins nHeight).map fun p => (p.1, none)))
      (undoOutputs tx.getHash s 0 tx.vout).view := undoOutputs_leads nHeight tx.isCoinBase tx.isCoinStake consistent
  -- What is left of the outputs is not the transaction's.
  have kept (o : COutPoint) (mem : o ∈ (undoOutputs tx.getHash s 0 tx.vout).view.utxo.unspent) :
      o ∈ s.view.utxo.unspent ∧ o ∉ (tx.move node' nHeight).creates := by
    change ((undoOutputs tx.getHash s 0 tx.vout).view.utxo o).isSome at mem
    rw [first.utxo] at mem
    by_cases output : o ∈ (tx.allCoins nHeight).map (·.1)
    case pos =>
      rw [Journal.replay_const_of_mem output] at mem
      cases mem
    case neg =>
      rw [Journal.replay_const_of_not_mem output] at mem
      refine ⟨mem, fun created => output ?_⟩
      obtain ⟨p, coin, eq⟩ := mem_map.mp created
      exact mem_map.mpr ⟨p, mem_outputs_of_mem_coins coin, eq⟩
  simp only [disconnectTx, bind_eq_ok] at h
  obtain ⟨_, _, nValueOut, _, h⟩ := h
  split_ifs at h with other length
  case pos =>
    cases h
    exact ⟨first.consistent, fun o mem => .inl (kept o mem)⟩
  case pos => cases h
  case neg =>
    have all : tx.inputsSpent = tx.vin := CTransaction.inputsSpent_of_ordinary (by
      rw [← Bool.not_or, Bool.eq_false_iff.mpr other]
      rfl)
    obtain ⟨consistent', left⟩ := undoInputs_unspent
      (s := { undoOutputs tx.getHash s 0 tx.vout with nValueOut }) first.consistent h
    refine ⟨consistent', fun o mem => ?_⟩
    cases left o mem
    case inl old => exact .inl (kept o old)
    case inr named =>
      obtain ⟨p, hp, eq⟩ := mem_map.mp named
      have input : p.1 ∈ tx.vin := (of_mem_zip (mem_reverse.mp hp)).left
      refine .inr ?_
      rw [CTransaction.move, all, ← eq]
      exact mem_map_of_mem input

theorem disconnectTxs_back (node' : Node) (nHeight : ℕ) {l : List (CTransaction × CTxUndo)}
    (consistent : s.view.Consistent) (h : disconnectTxs arith node s l.reverse = .ok (.done s')) :
    s'.view.Consistent ∧
      SpendOnce.Back s.view.utxo.unspent (l.map (·.1.move node' nHeight)) s'.view.utxo.unspent := by
  induction l generalizing s'
  case nil =>
    cases h
    exact ⟨consistent, .nil (Set.Subset.refl _)⟩
  case cons p l ih =>
    have ⟨tx, txundo⟩ := p
    rw [reverse_cons, disconnectTxs_append, bind_eq_ok] at h
    have ⟨r, later, h⟩ := h
    cases r
    case failed => cases h
    case done s₁ =>
      have ⟨r, first, h⟩ := bind_eq_ok.mp h
      cases r
      case failed => cases h
      case done s₂ =>
        cases h
        have ⟨consistent₁, back⟩ := ih later
        have ⟨consistent', returns⟩ := disconnectTx_returns node' nHeight consistent₁ first
        exact ⟨consistent', .cons back returns⟩

theorem CCoinsViewCache.popAnchor_sameCoins {newrt : Uint256} (h : v.popAnchor newrt = .ok v') : SameCoins v v' := by
  have ⟨v₁, best, fetched₁⟩ := v.getBestAnchor_eq
  have ⟨v₂, anchor, fetched₂⟩ := v₁.getSaplingAnchorAt_eq v.view.bestAnchor
  simp only [popAnchor, best] at h
  split at h
  case isTrue =>
    cases h
    exact ⟨fetched₁.utxo, fetched₁.consistent⟩
  case isFalse =>
    rw [anchor] at h
    have fetched := fetched₁.trans fetched₂
    cases found : v₁.view.anchorAt v.view.bestAnchor <;> rw [found] at h <;> cases h
    exact ⟨fetched.utxo, fetched.consistent⟩

-- A disconnected block leaves nothing its transactions created, and only what they spent comes in.
theorem disconnectBlock_back (node' : Node) (nHeight : ℕ) {block : CBlock} {pprev : CBlockIndex}
    {blockUndo : Option (List CTxUndo)} {d : Disconnected} (consistent : v.Consistent)
    (h : disconnectBlock arith node block pprev blockUndo v = .ok d) (done : d.result ≠ .DISCONNECT_FAILED) :
    d.view.Consistent ∧
      SpendOnce.Back v.utxo.unspent (block.vtx.map (·.move node' nHeight)) d.view.utxo.unspent := by
  cases blockUndo
  case none =>
    cases h
    exact absurd rfl done
  case some vtxundo =>
    have ⟨s, v₁, disconnected⟩ := disconnectBlock_ok h done
    have ⟨rt, pop⟩ := disconnected.anchor
    have ⟨consistent', back⟩ := disconnectTxs_back node' nHeight (s := { view := v }) consistent disconnected.txs
    have same := CCoinsViewCache.popAnchor_sameCoins pop
    have zip : (block.vtx.zip ({} :: vtxundo)).map (·.1) = block.vtx :=
      map_fst_zip (by rw [length_cons, disconnected.length])
    have moves : (block.vtx.zip ({} :: vtxundo)).map (·.1.move node' nHeight) =
        block.vtx.map (·.move node' nHeight) := by
      conv_rhs => rw [← zip, map_map]
      rfl
    rw [moves] at back
    rw [disconnected.view]
    exact ⟨same.consistent consistent', (show v₁.utxo = s.view.utxo from same.utxo) ▸ back⟩

end Qrax
