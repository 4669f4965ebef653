import Qrax.Validation.Theorems.AddressIndex
import Qrax.Validation.Theorems.Indexes

open Fallible List

namespace Qrax

open CTransaction CCoinsViewCache

namespace CTxUndo

def value (txundo : CTxUndo) : ℤ :=
  (txundo.vprevout.map (·.out.nValue.toInt)).sum

theorem value_eq {txundo : CTxUndo} {u : Utxo} {vin : List CTxIn}
    (h : txundo.vprevout.map some = vin.map fun txin => u txin.prevout) : txundo.value = u.valueIn vin := by
  have values : txundo.vprevout.map (·.out.nValue.toInt) =
      (txundo.vprevout.map some).map fun c => c.elim 0 (·.out.nValue.toInt) := by
    rw [map_map]
    rfl
  rw [value, values, h, map_map]
  rfl

end CTxUndo

section

variable [Crypto] {arith : Arith} {node : Node} {nHeight i : ℕ}
variable {s s' : ConnectState} {tx : CTransaction} {vtx : List CTransaction} {P : Coin → Prop}

structure Undoable (P : Coin → Prop) (l : List (CTransaction × CTxUndo)) : Prop where
  length : ∀ p ∈ l, p.2.vprevout.length = p.1.inputsSpent.length
  coins : ∀ p ∈ l, ∀ c ∈ p.2.vprevout, P c

theorem TxConnected.undoable {txundo : CTxUndo} {v₁ : CCoinsViewCache} {ws : List CoinWrite}
    (h : TxConnected arith node nHeight tx i s txundo v₁ ws s') (all : All P s.view)
    (new : ∀ p ∈ tx.coins (node.skips nHeight) nHeight, P p.2) :
    All P s'.view ∧ txundo.vprevout.length = tx.inputsSpent.length ∧ ∀ c ∈ txundo.vprevout, P c := by
  have undo := h.updated.undo h.inputs.holds
  have spent : All P v₁ := all.writes h.updated.spends fun p mem => by
    have ⟨w, hw, eq⟩ := mem_filterMap.mp mem
    have ⟨_, _, eq'⟩ := mem_map.mp hw
    cases eq' ▸ eq
  refine ⟨spent.writes h.updated.adds (h.updated.coins ▸ new), ?_, fun c mem => ?_⟩
  · have length := congrArg List.length undo
    rwa [length_map, length_map] at length
  · have found := mem_map_of_mem (f := some) mem
    rw [undo] at found
    have ⟨txin, _, eq⟩ := mem_map.mp found
    exact all.found txin.prevout c eq

theorem TxsConnected.undoable (h : TxsConnected arith node nHeight i s vtx s') (all : All P s.view)
    (new : ∀ tx ∈ vtx, ∀ p ∈ tx.coins (node.skips nHeight) nHeight, P p.2) :
    ∃ txundos, txundos.length = vtx.length ∧ s'.vtxundo = s.vtxundo ++ txundos.drop (1 - i) ∧
      Undoable P (vtx.zip txundos) ∧ (arith ≠ .int64 →
        s'.nValueIn = s.nValueIn + (txundos.map (·.value)).sum ∧
        s'.nValueOut = s.nValueOut + (vtx.map (·.valueCounted node)).sum) := by
  induction h
  case nil => exact ⟨[], rfl, by simp, ⟨nofun, nofun⟩, fun _ => by simp⟩
  case cons i s tx txundo v₁ ws s₁ vtx s' head _ ih =>
    have ⟨new₁, new⟩ := forall_mem_cons.mp new
    have ⟨all₁, length₁, coins₁⟩ := head.undoable all new₁
    have ⟨txundos, length, undo, undoable, totals⟩ := ih all₁ new
    refine ⟨txundo :: txundos, by simp [length], ?_, ?_, fun ne => ?_⟩
    · rw [undo, head.undo]
      cases i
      case zero => simp
      case succ i => simp
    · exact ⟨forall_mem_cons.mpr ⟨length₁, undoable.length⟩, forall_mem_cons.mpr ⟨coins₁, undoable.coins⟩⟩
    · have ⟨valueIn, valueOut⟩ := totals ne
      have total := head.totals ne
      simp only [ConnectState.totals, CTransaction.totals, Totals.add_def, Totals.mk.injEq] at total
      have value := CTxUndo.value_eq (head.updated.undo head.inputs.holds)
      simp only [map_cons, sum_cons]
      omega

omit [Crypto] in
theorem Undoable.head {txundos : List CTxUndo} (undoable : Undoable P (vtx.zip txundos))
    (coinBase : (vtx.headD {}).isCoinBase) (length : txundos.length = vtx.length) :
    txundos = {} :: txundos.drop 1 := by
  cases vtx
  case nil => cases coinBase
  case cons tx vtx =>
    cases txundos
    case nil => cases length
    case cons txundo txundos =>
      have coinBase : tx.isCoinBase := coinBase
      have length := undoable.length (tx, txundo) (mem_cons_self ..)
      rw [inputsSpent_of_other (by simp [coinBase])] at length
      have empty : txundo = {} := congrArg CTxUndo.mk (eq_nil_of_length_eq_zero length)
      rw [empty]
      rfl

variable {block : CBlock} {pindex pprev : CBlockIndex} {view : CCoinsViewCache} {r : Connected}

theorem connectBlock_supply (other : block.getHash ≠ node.consensus.hashGenesisBlock)
    (earned : block.FlagEarned node.params) (all : All P view)
    (new : ∀ tx ∈ block.vtx, ∀ p ∈ tx.coins (node.skips pindex.nHeight) pindex.nHeight, P p.2)
    (accepted : connectBlock .int64 node block pindex (some pprev) view false = .ok r) :
    Undoable P (block.vtx.zip ({} :: r.vtxundo)) ∧
      ∃ t, connectTransactions .exact node block pindex view.getBestBlock.2 = .ok t ∧
        t.nValueIn = ((block.vtx.zip ({} :: r.vtxundo)).map (·.2.value)).sum ∧
        Wrapped r.supplyChange ((block.vtx.map (·.valueCounted node)).sum - t.nValueIn) := by
  have ⟨checked, _⟩ := connectBlock_ok earned accepted
  have ⟨s, loop, vtxundo, change, _⟩ := connectBlock_returns other accepted
  have ⟨t, exact, alike⟩ := exactLoop checked.transactions loop
  have ⟨_, exact'⟩ := connectTransactions_ok exact
  have ⟨txundos, length, undo, undoable, totals⟩ := (connectTxs_ok checked.transactions exact').undoable
    (all.fetched (loopStart_fetched view)) new
  have ⟨valueIn, valueOut⟩ := totals nofun
  have head := undoable.head checked.coinBase length
  have kept : r.vtxundo = txundos.drop 1 := vtxundo.trans (alike.vtxundo.trans undo)
  have sum : ((block.vtx.zip txundos).map (·.2.value)).sum = (txundos.map (·.value)).sum := by
    have coins : (block.vtx.zip txundos).map (·.2) = txundos := map_snd_zip (by omega)
    conv_rhs => rw [← coins, map_map]
    rfl
  rw [kept, ← head, sum]
  refine ⟨undoable, t, exact, valueIn.trans (zero_add _), ?_⟩
  have zero : (loopStart view).nValueOut = 0 := rfl
  rw [zero, zero_add] at valueOut
  rw [change, ← valueOut]
  exact Int.bmod_bmod.trans (Tally.int64.sub alike.nValueOut alike.nValueIn)

variable {s s' : DisconnectState} {v v' : CCoinsViewCache} {tx : CTransaction} {txundo : CTxUndo} {undo : Coin}
  {out : COutPoint}

def Coin.Spendable (c : Coin) : Prop :=
  ¬c.out.scriptPubKey.isUnspendable

omit [Crypto] in
theorem undoMetadata_out {c : Coin} (h : undoMetadata undo v out = (some c, v')) : c.out = undo.out := by
  simp only [undoMetadata] at h
  split_ifs at h
  case pos => exact Option.some.inj (congrArg Prod.fst h) ▸ rfl
  case neg => cases congrArg Prod.fst h
  case neg => exact Option.some.inj (congrArg Prod.fst h) ▸ rfl

theorem applyTxInUndo_found {res : DisconnectResult} (h : applyTxInUndo undo v out = .ok (res, v'))
    (done : res ≠ .DISCONNECT_FAILED) (spendable : undo.Spendable) : ∃ c, v'.utxo out = some c ∧ c.out = undo.out := by
  obtain ⟨v₁, have', _⟩ := v.haveCoin_eq out
  simp only [applyTxInUndo, have'] at h
  generalize metadata : undoMetadata undo v₁ out = m at h
  obtain ⟨c, v₂⟩ := m
  cases c
  case none =>
    cases h
    exact absurd rfl done
  case some c =>
    have same := undoMetadata_out metadata
    obtain ⟨v₃, add, eq⟩ := bind_eq_ok.mp h
    cases eq
    obtain ⟨unspent, h⟩ := addCoin_eq_ok.mp add
    rw [if_neg (same ▸ spendable)] at h
    refine ⟨c, ?_, same⟩
    rw [← h.right, utxo_added, Function.update_self, Coin.unspent_of_not_spent unspent]

theorem countRestored_counts {prevout : CTxOut}
    (found : node.fAddressIndex → ∃ c, s.view.utxo out = some c ∧ c.out = prevout)
    (h : countRestored .int64 node s out = .ok s') :
    Wrapped s'.nValueIn (s.nValueIn + if node.fAddressIndex then prevout.nValue.toInt else 0) ∧
      s'.nValueOut = s.nValueOut := by
  unfold countRestored at h
  split at h
  case isFalse off =>
    cases h
    rw [if_neg off, add_zero]
    exact ⟨rfl, rfl⟩
  case isTrue on =>
    have ⟨c, found, same⟩ := found on
    have ⟨v₁, access, _⟩ := accessCoin_unspent found
    rw [access] at h
    have ⟨n, norm, eq⟩ := bind_eq_ok.mp h
    cases eq
    rw [if_pos on, ← same]
    exact ⟨Except.ok.inj norm ▸ Int.bmod_bmod, rfl⟩

theorem undoInputs_counts {l : List (CTxIn × Coin)} (spendable : node.fAddressIndex → ∀ p ∈ l, p.2.Spendable)
    (h : undoInputs .int64 node s l = .ok (.done s')) :
    Wrapped s'.nValueIn (s.nValueIn + if node.fAddressIndex then (l.map (·.2.out.nValue.toInt)).sum else 0) ∧
      s'.nValueOut = s.nValueOut := by
  induction l generalizing s
  case nil =>
    cases h
    simp [Wrapped]
  case cons p l ih =>
    obtain ⟨txin, undo⟩ := p
    obtain ⟨⟨res, v₁⟩, apply, h⟩ := bind_eq_ok.mp h
    dsimp only at h
    split at h
    case isTrue => cases h
    case isFalse done =>
      obtain ⟨s₂, count, rest⟩ := bind_eq_ok.mp h
      obtain ⟨valueIn, valueOut⟩ := ih (fun on p mem => spendable on p (mem_cons_of_mem _ mem)) rest
      obtain ⟨valueIn₁, valueOut₁⟩ := countRestored_counts
        (fun on => applyTxInUndo_found apply done (spendable on _ (mem_cons_self ..))) count
      refine ⟨valueIn.trans (Eq.trans (Tally.int64.add valueIn₁ rfl) ?_), valueOut.trans valueOut₁⟩
      split <;> simp [add_assoc]

omit [Crypto] in
theorem undoOutputs_counts (txid : Uint256) (s : DisconnectState) (o : ℕ) (vout : List CTxOut) :
    (undoOutputs txid s o vout).nValueIn = s.nValueIn ∧ (undoOutputs txid s o vout).nValueOut = s.nValueOut := by
  induction vout generalizing s o
  case nil => exact ⟨rfl, rfl⟩
  case cons out vout ih =>
    simp only [undoOutputs]
    split
    case isTrue => exact ih s (o + 1)
    case isFalse => exact ih _ (o + 1)

def CTransaction.valueOut (tx : CTransaction) : ℤ :=
  (tx.vout.map (·.nValue.toInt)).sum + tx.shieldedOut

variable {params : Consensus.Params}

theorem disconnectTx_counts (checked : tx.Checked params)
    (length : txundo.vprevout.length = tx.inputsSpent.length)
    (spendable : node.fAddressIndex → ∀ c ∈ txundo.vprevout, c.Spendable)
    (h : disconnectTx .int64 node tx txundo s = .ok (.done s')) :
    Wrapped s'.nValueIn (s.nValueIn + if node.fAddressIndex then txundo.value else 0) ∧
      Wrapped s'.nValueOut (s.nValueOut + tx.valueOut) := by
  obtain ⟨valueIn₁, valueOut₁⟩ := undoOutputs_counts tx.getHash s 0 tx.vout
  simp only [disconnectTx, checked.getValueOut_shielded, ok_bind, bind_eq_ok] at h
  obtain ⟨nValueOut, norm, h⟩ := h
  have out : Wrapped nValueOut (s.nValueOut + tx.valueOut) := by
    rw [← Except.ok.inj norm, valueOut₁]
    exact Int.bmod_bmod
  split_ifs at h with other mismatch
  case pos =>
    cases h
    have none : txundo.vprevout = [] := by
      rw [inputsSpent_of_other (by rw [← Bool.not_or, other]; decide)] at length
      exact eq_nil_of_length_eq_zero length
    refine ⟨?_, out⟩
    simp only [CTxUndo.value, none, map_nil, sum_nil, ite_self, add_zero, valueIn₁]
    rfl
  case pos => cases h
  case neg =>
    obtain ⟨valueIn, valueOut⟩ := undoInputs_counts
      (fun on p mem => spendable on p.2 (of_mem_zip (mem_reverse.mp mem)).right) h
    have sum : ((tx.vin.zip txundo.vprevout).reverse.map (·.2.out.nValue.toInt)).sum = txundo.value := by
      have coins : (tx.vin.zip txundo.vprevout).map (·.2) = txundo.vprevout := map_snd_zip (by omega)
      rw [map_reverse, sum_reverse, CTxUndo.value, ← coins, map_map, coins]
      rfl
    rw [sum, valueIn₁] at valueIn
    exact ⟨valueIn, valueOut ▸ out⟩

theorem disconnectTxs_counts {l : List (CTransaction × CTxUndo)}
    (checked : ∀ p ∈ l, p.1.Checked params) (length : ∀ p ∈ l, p.2.vprevout.length = p.1.inputsSpent.length)
    (spendable : node.fAddressIndex → ∀ p ∈ l, ∀ c ∈ p.2.vprevout, c.Spendable)
    (h : disconnectTxs .int64 node s l = .ok (.done s')) :
    Wrapped s'.nValueIn (s.nValueIn + if node.fAddressIndex then (l.map (·.2.value)).sum else 0) ∧
      Wrapped s'.nValueOut (s.nValueOut + (l.map (·.1.valueOut)).sum) := by
  induction l generalizing s
  case nil =>
    cases h
    simp [Wrapped]
  case cons p l ih =>
    obtain ⟨tx, txundo⟩ := p
    obtain ⟨checked₁, checked⟩ := forall_mem_cons.mp checked
    obtain ⟨length₁, length⟩ := forall_mem_cons.mp length
    obtain ⟨r, first, h⟩ := bind_eq_ok.mp h
    cases r
    case failed => cases h
    case done s₁ =>
      obtain ⟨valueIn₁, valueOut₁⟩ := disconnectTx_counts checked₁ length₁
        (fun on => (forall_mem_cons.mp (spendable on)).left) first
      obtain ⟨valueIn, valueOut⟩ := ih checked length (fun on => (forall_mem_cons.mp (spendable on)).right) h
      refine ⟨valueIn.trans (Eq.trans (Tally.int64.add valueIn₁ rfl) ?_),
        valueOut.trans (Eq.trans (Tally.int64.add valueOut₁ rfl) ?_)⟩
      · split <;> simp [add_assoc]
      · simp [add_assoc]

theorem disconnectBlock_supply {block : CBlock} {pprev : CBlockIndex}
    {vtxundo : List CTxUndo} {d : Disconnected} (checked : ∀ tx ∈ block.vtx, tx.Checked params)
    (undoable : Undoable (fun c => node.fAddressIndex → c.Spendable) (block.vtx.zip ({} :: vtxundo)))
    (h : disconnectBlock .int64 node block pprev (some vtxundo) v = .ok d) (done : d.result ≠ .DISCONNECT_FAILED) :
    Wrapped d.supplyChange ((if node.fAddressIndex then ((block.vtx.zip ({} :: vtxundo)).map (·.2.value)).sum else 0) -
      (block.vtx.map (·.valueOut)).sum) := by
  have ⟨s, _, disconnected⟩ := disconnectBlock_ok h done
  have ⟨valueIn, valueOut⟩ := disconnectTxs_counts
    (fun p mem => checked p.1 (of_mem_zip (mem_reverse.mp mem)).left)
    (fun p mem => undoable.length p (mem_reverse.mp mem))
    (fun on p mem c hc => undoable.coins p (mem_reverse.mp mem) c hc on) disconnected.txs
  have txs : (block.vtx.zip ({} :: vtxundo)).map (·.1) = block.vtx :=
    map_fst_zip (by rw [length_cons, disconnected.length])
  have sum : ((block.vtx.zip ({} :: vtxundo)).map (·.1.valueOut)).sum = (block.vtx.map (·.valueOut)).sum := by
    conv_rhs => rw [← txs, map_map]
    rfl
  simp only [map_reverse, sum_reverse, zero_add, sum] at valueIn valueOut
  rw [← Except.ok.inj disconnected.supply]
  exact Int.bmod_bmod.trans (Tally.int64.sub valueIn valueOut)

def bannedOut (banned : COutPoint → Bool) (txid : Uint256) (k : ℕ) : List CTxOut → ℤ
  | [] => 0
  | out :: vout =>
    (if banned { hash := txid, n := UInt32.ofNat k } then out.nValue.toInt else 0) + bannedOut banned txid (k + 1) vout

omit [Crypto] in
theorem countedOut_add_bannedOut (banned : COutPoint → Bool) (txid : Uint256) (k : ℕ) (vout : List CTxOut) :
    countedOut banned txid k vout + bannedOut banned txid k vout = (vout.map (·.nValue.toInt)).sum := by
  induction vout generalizing k
  case nil => rfl
  case cons out vout ih =>
    have ih := ih (k + 1)
    simp only [countedOut, bannedOut, map_cons, sum_cons]
    split <;> omega

-- What connecting and disconnecting a block takes out of the supply. Banned outputs and what goes into the shielded
-- pool count on the way back only. Without the address index all outputs do, and spent coins only on the way there.
def supplyLost (node : Node) (nHeight : ℕ) (u : Utxo) (vtx : List CTransaction) : ℤ :=
  if node.fAddressIndex then
    (vtx.map fun tx => bannedOut node.containsOutPoint tx.getHash 0 tx.vout + tx.shieldedOut).sum
  else (blockTotals node nHeight u vtx).nValueIn + (vtx.map (·.valueOut)).sum

variable {vtx : List CTransaction}

theorem valueCounted_sum (on : node.fAddressIndex) (nHeight : ℕ) (u : Utxo) :
    (vtx.map (·.valueCounted node)).sum - (vtx.map (·.valueOut)).sum = -supplyLost node nHeight u vtx := by
  rw [supplyLost, if_pos on]
  induction vtx
  case nil => rfl
  case cons tx vtx ih =>
    have parts := countedOut_add_bannedOut node.containsOutPoint tx.getHash 0 tx.vout
    simp only [map_cons, sum_cons, valueCounted, if_pos on, valueOut] at ih ⊢
    omega

variable {g g₁ g₂ : Globals} {node' : Node} {fSpentIndex fSpentIndex' : Bool} {block : CBlock}
  {pindex pprev : CBlockIndex} {view view' : CCoinsViewCache} {r : Connected} {d : Disconnected}

-- The supply comes back just if the amounts counted one way only cancel out.
theorem supply_restored_iff (other : block.getHash ≠ node.consensus.hashGenesisBlock)
    (same : node'.fAddressIndex = node.fAddressIndex) (earned : block.FlagEarned node.params)
    (spendable : node.fAddressIndex = true → All Coin.Spendable view)
    (absent : node.fAddressIndex = false → view.Consistent ∧
      ∀ tx ∈ block.vtx, ∀ p ∈ tx.coins (node.skips pindex.nHeight) pindex.nHeight, view.utxo p.1 = none)
    (connected : g.connectBlock node fSpentIndex block pindex (some pprev) view false = .ok (r, g₁))
    (disconnected : g₁.disconnectBlock node' fSpentIndex' block pindex pprev r.vtxundo view' = .ok (d, g₂))
    (done : d.result ≠ .DISCONNECT_FAILED) :
    g₂.moneySupply.nSupply = g.moneySupply.nSupply ↔
      (supplyLost node pindex.nHeight view.utxo block.vtx).bmod (2 ^ 64) = 0 := by
  have ⟨accepted, _, connects⟩ := Globals.connectBlock_ok other connected
  have ⟨disconnected, _, disconnects⟩ := Globals.disconnectBlock_ok disconnected done
  have ⟨checked, _⟩ := connectBlock_ok earned accepted
  have all : All (fun c => node.fAddressIndex → c.Spendable) view :=
    ⟨fun o c hc on => (spendable on).found o c hc, fun o c hc on => (spendable on).below o c hc⟩
  have new (tx : CTransaction) (_ : tx ∈ block.vtx) (p : COutPoint × Coin)
      (mem : p ∈ tx.coins (node.skips pindex.nHeight) pindex.nHeight) (_ : node.fAddressIndex) : p.2.Spendable :=
    (outputCoins_mem mem).spendable
  have ⟨undoable, t, exact, valueIn, change⟩ := connectBlock_supply other earned all new accepted
  have change' := disconnectBlock_supply checked.transactions (same ▸ undoable) disconnected done
  rw [same, ← valueIn] at change'
  have total : Wrapped (r.supplyChange + d.supplyChange) (-supplyLost node pindex.nHeight view.utxo block.vtx) := by
    refine (Tally.int64.add change change').trans (congrArg (Int.bmod · _) ?_)
    cases on : node.fAddressIndex
    case true =>
      rw [← valueCounted_sum on, if_pos rfl]
      omega
    case false =>
      have ⟨consistent, absent⟩ := absent on
      have totals := connectTransactions_totals consistent checked.transactions absent exact nofun
      have spent : t.nValueIn = (blockTotals node pindex.nHeight view.utxo block.vtx).nValueIn :=
        congrArg Totals.nValueIn totals
      have none : (block.vtx.map (·.valueCounted node)).sum = 0 := by
        simp [CTransaction.valueCounted, on]
      rw [supplyLost, on, none, spent]
      simp only [Bool.false_eq_true, if_false]
      omega
  rw [disconnects.supply, connects.supply, Int64.add_assoc, Int64.add_eq_left, ← Int64.ofInt_add,
    Int64.ofInt_eq_iff_bmod_eq_toInt, show (r.supplyChange + d.supplyChange).bmod (2 ^ 64) = _ from total,
    Int64.toInt_zero, ← Int.dvd_iff_bmod_eq_zero, ← Int.dvd_iff_bmod_eq_zero, Int.dvd_neg]

end

section

attribute [local instance] Crypto.toy

theorem exampleView_spendable : All Coin.Spendable exampleView := by
  have spendable (o : COutPoint) (c : Coin) (found : exampleView.utxo o = some c) : c.Spendable := by
    rw [(exampleView_found found).right]
    unfold Coin.Spendable
    decide
  exact ⟨spendable, fun o c found => spendable o c ((utxo_of_entry_none rfl).trans found)⟩

-- Without the address index the supply is off by all that the block spends and pays.
theorem supply_lost_unindexed :
    let node := (exampleNode .regtest exampleTip).withIndex false
    let block := exampleBlock exampleTip [minerTx, paymentTx, changeTx]
    ∃ r g₁ d g₂,
      ({} : Globals).connectBlock node false block exampleIndex (some exampleTip) exampleView false = .ok (r, g₁) ∧
      g₁.disconnectBlock node false block exampleIndex exampleTip r.vtxundo r.view = .ok (d, g₂) ∧
      d.result = .DISCONNECT_OK ∧ g₂.moneySupply.nSupply = -369 := by
  intro node block
  have run : ((({} : Globals).roundTrip node false block exampleIndex exampleTip exampleView).map
      fun t => (t.2.2.1.result, t.2.2.2.moneySupply.nSupply)) = .ok (.DISCONNECT_OK, -369) := by
    decide +kernel
  have ⟨t, ok, eq⟩ := map_eq_ok.mp run
  have ⟨connected, disconnected⟩ := Globals.roundTrip_ok ok
  have ⟨result, lost⟩ := Prod.mk.inj eq
  exact ⟨_, _, _, _, connected, disconnected, result, lost⟩

theorem supply_restored_payments :
    let node := exampleNode .regtest exampleTip
    let block := exampleBlock exampleTip [minerTx, paymentTx, changeTx]
    ∃ r g₁ d g₂,
      ({} : Globals).connectBlock node true block exampleIndex (some exampleTip) exampleView false = .ok (r, g₁) ∧
      g₁.disconnectBlock node true block exampleIndex exampleTip r.vtxundo r.view = .ok (d, g₂) ∧
      g₂.moneySupply.nSupply = ({} : Globals).moneySupply.nSupply := by
  intro node block
  have run : ((({} : Globals).roundTrip node true block exampleIndex exampleTip exampleView).map
      fun t => t.2.2.1.result) = .ok .DISCONNECT_OK := by
    decide +kernel
  have ⟨t, ok, result⟩ := map_eq_ok.mp run
  have ⟨connected, disconnected⟩ := Globals.roundTrip_ok ok
  have done : t.2.2.1.result ≠ .DISCONNECT_FAILED := by
    rw [result]
    decide
  have indexed : node.fAddressIndex ≠ false := by
    decide
  exact ⟨_, _, _, _, connected, disconnected,
    (supply_restored_iff (by decide) rfl (exampleBlock_earned _ _ _) (fun _ => exampleView_spendable)
      (fun off => absurd off indexed) connected disconnected done).mpr (by decide)⟩

end

end Qrax
