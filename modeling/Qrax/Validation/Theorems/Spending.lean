import Qrax.Lib.SpendOnce
import Qrax.Validation.Theorems.Ledger

open Fallible List Option SpendOnce

namespace Qrax

open CCoinsViewCache (Fetched NoneBelow SameCoins)

def Utxo.unspent (u : Utxo) : Set COutPoint :=
  {o | (u o).isSome}

namespace CTransaction

def namedPrevouts (tx : CTransaction) : List COutPoint :=
  (tx.vin.map (·.prevout)).filter (!·.isNull)

variable {tx : CTransaction}

theorem namedPrevouts_of_isCoinBase (h : tx.isCoinBase) : tx.namedPrevouts = [] := by
  unfold isCoinBase at h
  split at h
  case h_2 => cases h
  case h_1 txin eq =>
    simp only [Bool.and_eq_true] at h
    simp [namedPrevouts, eq, h.left.left.left]

theorem Checked.namedPrevouts_eq {params : Consensus.Params} (checked : tx.Checked params)
    (assetInputs : tx.containsAssets → tx.namedPrevouts = []) :
    tx.namedPrevouts = tx.inputsSpent.map (·.prevout) := by
  cases coinBase : tx.isCoinBase
  case true =>
    rw [namedPrevouts_of_isCoinBase coinBase, inputsSpent_of_other (by simp [coinBase])]
    rfl
  case false =>
    cases assets : tx.containsAssets
    case true =>
      rw [assetInputs assets, inputsSpent_of_other (by simp [assets])]
      rfl
    case false =>
      rw [inputsSpent_of_ordinary (by simp [coinBase, assets]), namedPrevouts, filter_eq_self]
      intro o mem
      have ⟨txin, input, eq⟩ := mem_map.mp mem
      subst eq
      rw [Bool.not_eq_true', Bool.eq_false_iff]
      intro null
      have spend := checked.prevouts coinBase txin input null
      have : tx.hasAssetsSpendInputs := any_eq_true.mpr ⟨txin, input, spend⟩
      simp [containsAssets, this] at assets

variable [Crypto]

def move (tx : CTransaction) (node : Node) (nHeight : ℕ) : SpendOnce.Move COutPoint where
  spends := tx.inputsSpent.map (·.prevout)
  creates := (tx.coins (node.skips nHeight) nHeight).map (·.1)

end CTransaction

section

variable [Crypto] {arith : Arith} {node : Node} {nHeight i : ℕ} {tx : CTransaction} {txundo : CTxUndo}
  {s s' : ConnectState} {v₁ : CCoinsViewCache} {ws : List CoinWrite} {vtx : List CTransaction} {u : Utxo}

theorem coins_absent (fresh : Fresh u.unspent (vtx.map (·.move node nHeight))) :
    ∀ tx ∈ vtx, ∀ p ∈ tx.coins (node.skips nHeight) nHeight, u p.1 = none := by
  intro tx mem p coin
  refine not_isSome_iff_eq_none.mp (fresh.absent p.1 ?_)
  exact mem_flatMap.mpr ⟨_, mem_map_of_mem mem, mem_map_of_mem coin⟩

theorem TxConnected.takes (h : TxConnected arith node nHeight tx i s txundo v₁ ws s') (start : NoneBelow u s.view)
    (new : ∀ o ∈ (tx.move node nHeight).creates, u o = none) (distinct : (tx.vin.map (·.prevout)).Nodup) :
    NoneBelow u s'.view ∧ (tx.move node nHeight).Takes s.view.utxo.unspent s'.view.utxo.unspent := by
  have new (p : COutPoint × Coin) (mem : p ∈ tx.coins (node.skips nHeight) nHeight) : u p.1 = none :=
    new p.1 (mem_map_of_mem mem)
  have ⟨_, spent⟩ := h.spends start
  have ⟨stop, eq⟩ := h.noneBelow start new
  refine ⟨stop, CTransaction.inputsSpent_distinct distinct, ?_, fun o mem => ?_⟩
  case refine_1 =>
    intro o mem
    have ⟨txin, mem, eq⟩ := mem_map.mp mem
    exact eq ▸ h.inputs.holds txin mem
  case refine_2 =>
    have ⟨c, hc⟩ := isSome_iff_exists.mp mem
    by_cases written : o ∈ (ws.map (·.written)).map (·.1)
    case pos =>
      -- What was written last under `o` is an added coin.
      have last := Journal.replay_mem (f := v₁.utxo) written
      rw [← eq, hc] at last
      have ⟨w, hw, eq⟩ := mem_map.mp last
      cases w
      case spend => cases eq
      case add o' c' =>
        cases eq
        refine .inr (mem_map.mpr ⟨(o, c), ?_, rfl⟩)
        rw [← h.updated.coins]
        exact mem_filterMap.mpr ⟨_, hw, rfl⟩
    case neg =>
      rw [eq, Journal.replay_of_not_mem written, spent] at hc
      have ⟨old, kept⟩ := Utxo.spend_eq_some hc
      exact .inl ⟨isSome_iff_exists.mpr ⟨c, old⟩, kept⟩

theorem TxsConnected.run (h : TxsConnected arith node nHeight i s vtx s') (start : NoneBelow u s.view)
    (new : ∀ o ∈ created (vtx.map (·.move node nHeight)), u o = none)
    (checked : ∀ tx ∈ vtx, tx.Checked node.consensus) :
    NoneBelow u s'.view ∧
      Run s.view.utxo.unspent (vtx.map (·.move node nHeight)) s'.view.utxo.unspent := by
  induction h
  case nil => exact ⟨start, .nil (Set.Subset.refl _)⟩
  case cons head _ ih =>
    have ⟨checked₁, checked⟩ := forall_mem_cons.mp checked
    have ⟨start₁, takes⟩ := head.takes start (fun o mem => new o (mem_append_left _ mem)) checked₁.distinct
    have ⟨stop, run⟩ := ih start₁ (fun o mem => new o (mem_append_right _ mem)) checked
    exact ⟨stop, .cons takes run⟩

omit [Crypto] in
theorem take_append_of_getElem? (h : vtx[i]? = some tx) : vtx = vtx.take i ++ tx :: vtx.drop (i + 1) := by
  have ⟨lt, eq⟩ := List.getElem?_eq_some_iff.mp h
  rw [← eq, getElem_cons_drop, take_append_drop]

structure Link where
  node : Node
  block : CBlock
  pindex : CBlockIndex
  pprev : Option CBlockIndex
  view : CCoinsViewCache
  result : Connected
  earned : block.FlagEarned node.params
  accepted : connectBlock .int64 node block pindex pprev view false = .ok result

namespace Link

-- The next block finds the coins that the last left, in whatever caches.
def Follows (l l' : Link) : Prop :=
  SameCoins l.result.view l'.view

-- The transactions of the genesis block are not connected.
def txs (l : Link) : List CTransaction :=
  if l.block.getHash = l.node.consensus.hashGenesisBlock then [] else l.block.vtx

def moves (l : Link) : List (SpendOnce.Move COutPoint) :=
  l.txs.map (·.move l.node l.pindex.nHeight)

def created (l : Link) : List COutPoint :=
  SpendOnce.created l.moves

def namedPrevouts (l : Link) : List COutPoint :=
  l.txs.flatMap (·.namedPrevouts)

theorem checked (l : Link) : ∀ tx ∈ l.txs, tx.Checked l.node.consensus := by
  have ⟨checked, _⟩ := connectBlock_ok l.earned l.accepted
  unfold txs
  split
  case isTrue => nofun
  case isFalse => exact checked.transactions

theorem run (l : Link) (consistent : l.view.Consistent) (absent : ∀ o ∈ l.created, l.view.utxo o = none) :
    l.result.view.Consistent ∧ Run l.view.utxo.unspent l.moves l.result.view.utxo.unspent := by
  have ⟨checked, _, connected⟩ := connectBlock_ok l.earned l.accepted
  unfold created at absent
  unfold moves txs at absent ⊢
  generalize l.result = r at connected ⊢
  cases connected
  case genesis v genesis fetched =>
    rw [if_pos genesis]
    refine ⟨fetched.consistent consistent, .nil ?_⟩
    exact (congrArg Utxo.unspent fetched.utxo).le
  case loop s other _ loop _ _ view' =>
    rw [if_neg other] at absent ⊢
    have fetched := loopStart_fetched l.view
    have start := (NoneBelow.start consistent).fetched fetched
    have ⟨stop, run⟩ := (connectTxs_ok checked.transactions loop).run start absent checked.transactions
    have same : SameCoins s.view r.view := view' ▸ s.view.finished_sameCoins ..
    rw [fetched.utxo] at run
    exact ⟨same.consistent stop.consistent, same.utxo ▸ run⟩

theorem chain_fresh {links : List Link} {S : Set COutPoint} (follows : links.IsChain Follows)
    (consistent : ∀ l ∈ links.head?, l.view.Consistent) (start : ∀ l ∈ links.head?, l.view.utxo.unspent ⊆ S)
    (fresh : Fresh S (links.flatMap moves)) :
    (∀ l ∈ links, l.view.Consistent ∧ Fresh l.view.utxo.unspent l.moves) ∧
      ∃ S', Run S (links.flatMap moves) S' := by
  induction links generalizing S
  case nil => exact ⟨fun _ mem => absurd mem not_mem_nil, S, .nil (Set.Subset.refl _)⟩
  case cons l links ih =>
    have start := start l rfl
    have fresh₁ : Fresh l.view.utxo.unspent (l.moves ++ links.flatMap moves) :=
      ⟨fresh.distinct, fun o mem now => fresh.absent o mem (start now)⟩
    have now : Fresh l.view.utxo.unspent l.moves := fresh₁.take
    have ⟨consistent₁, run⟩ := l.run (consistent l rfl) fun o mem =>
      not_isSome_iff_eq_none.mp (now.absent o mem)
    have next (l' : Link) (mem : l' ∈ links.head?) : Follows l l' := follows.rel_head? mem
    have ⟨later, S', run'⟩ := ih follows.tail
      (fun l' mem => (next l' mem).consistent consistent₁)
      (fun l' mem => (congrArg Utxo.unspent (next l' mem).utxo).le)
      (fresh₁.drop run)
    exact ⟨forall_mem_cons.mpr ⟨⟨consistent l rfl, now⟩, later⟩, S', (run.mono start).append run'⟩

structure Processes (l : Link) (i : ℕ) (tx : CTransaction) (s s' : ConnectState) : Prop where
  before : connectTxs .int64 l.node l.pindex.nHeight l.block 0 (loopStart l.view) (l.txs.take i) = .ok s
  step : connectTx .int64 l.node l.pindex.nHeight tx l.block i s = .ok s'

theorem connectTxs_txs (l : Link) :
    ∃ s, connectTxs .int64 l.node l.pindex.nHeight l.block 0 (loopStart l.view) l.txs = .ok s := by
  have ⟨_, _, connected⟩ := connectBlock_ok l.earned l.accepted
  unfold txs
  generalize l.result = r at connected
  cases connected
  case genesis genesis _ => exact ⟨_, by rw [if_pos genesis]; rfl⟩
  case loop s other _ loop _ _ _ => exact ⟨s, by rw [if_neg other]; exact loop⟩

theorem processes (l : Link) (h : l.txs[i]? = some tx) : ∃ s s', l.Processes i tx s s' := by
  have ⟨_, loop⟩ := l.connectTxs_txs
  have ⟨lt, _⟩ := List.getElem?_eq_some_iff.mp h
  rw [take_append_of_getElem? h, connectTxs_append, bind_eq_ok] at loop
  have ⟨s, before, rest⟩ := loop
  have ⟨s', step, _⟩ := bind_eq_ok.mp rest
  refine ⟨s, s', before, ?_⟩
  rwa [length_take, Nat.min_eq_left lt.le, Nat.zero_add] at step

end Link

-- A transaction takes every coin it names, and pays no more than it took, unless it stakes or redeems an asset reward.
structure SpendsCoins (tx : CTransaction) (u u' : Utxo) : Prop where
  before : ∀ txin ∈ tx.vin, ¬txin.prevout.isNull → (u txin.prevout).isSome
  after : ∀ txin ∈ tx.vin, ¬txin.prevout.isNull → u' txin.prevout = none
  value : tx.isCoinStake = false → (∀ txin ∈ tx.vin, ¬txin.isMultiMiningSpend) →
    (tx.vout.map (·.nValue.toInt)).sum ≤ u.valueIn tx.vin

omit [Crypto] in
theorem checkTxFee_le {params : Consensus.Params} {n : ℤ} (checked : tx.Checked params)
    (h : checkTxFee node arith tx n = .ok ()) : (tx.vout.map (·.nValue.toInt)).sum ≤ n := by
  obtain ⟨shielded, nonneg, value⟩ := checked.getValueOut_eq
  simp only [checkTxFee, value, ok_bind, bind_eq_ok, exists_unit, failIf_eq_ok] at h
  obtain ⟨enough, _⟩ := h
  omega

namespace Link

section

variable (l : Link) (consistent : l.view.Consistent) (fresh : SpendOnce.Fresh l.view.utxo.unspent l.moves)
  (found : l.txs[i]? = some tx) (processes : l.Processes i tx s s')

include l consistent fresh found processes

theorem connected :
    ∃ txundo v₁ ws ms, TxConnected .int64 l.node l.pindex.nHeight tx i s txundo v₁ ws s' ∧
      NoneBelow l.view.utxo s.view ∧ (∀ o ∈ (tx.move l.node l.pindex.nHeight).creates, l.view.utxo o = none) ∧
      Fresh s.view.utxo.unspent (tx.move l.node l.pindex.nHeight :: ms) := by
  have split := take_append_of_getElem? found
  have checked := l.checked
  have absent (o : COutPoint) (mem : o ∈ l.created) : l.view.utxo o = none :=
    not_isSome_iff_eq_none.mp (fresh.absent o mem)
  unfold created at absent
  unfold moves at absent fresh
  rw [split, map_append] at fresh absent
  rw [split] at checked
  have ⟨checked₀, checked⟩ := forall_mem_append.mp checked
  have ⟨checked₁, _⟩ := forall_mem_cons.mp checked
  have start := (NoneBelow.start consistent).fetched (loopStart_fetched l.view)
  -- The transactions before this one lead to `s`.
  have ⟨start₁, run⟩ := (connectTxs_ok checked₀ processes.before).run start
    (fun o mem => absent o (by rw [SpendOnce.created, flatMap_append]; exact mem_append_left _ mem)) checked₀
  rw [(loopStart_fetched l.view).utxo] at run
  have ⟨txundo, v₁, ws, connected⟩ := connectTx_ok checked₁.distinct processes.step
  refine ⟨txundo, v₁, ws, _, connected, start₁, fun o mem => absent o ?_, fresh.drop run⟩
  rw [SpendOnce.created, flatMap_append, map_cons, flatMap_cons]
  exact mem_append_right _ (mem_append_left _ mem)

theorem spendsCoins (coinBase : tx.isCoinBase = false)
    (assets : tx.containsAssets = false) : SpendsCoins tx s.view.utxo s'.view.utxo := by
  have all : tx.inputsSpent = tx.vin := CTransaction.inputsSpent_of_ordinary (by simp [coinBase, assets])
  have checked := l.checked tx (mem_of_getElem? found)
  have ⟨_, _, _, _, connected, start, new, fresh⟩ := l.connected consistent fresh found processes
  have ⟨_, takes⟩ := connected.takes start new checked.distinct
  constructor
  case before =>
    intro txin mem _
    exact connected.inputs.holds txin (all ▸ mem)
  case after =>
    intro txin mem _
    refine not_isSome_iff_eq_none.mp (takes.gone fresh ?_)
    exact mem_map_of_mem (all ▸ mem)
  case value =>
    intro coinStake _
    exact checkTxFee_le checked (connected.fee coinBase assets coinStake)

-- With assets a transaction takes out nothing it names.
theorem not_spendsCoins (named : tx.namedPrevouts ≠ []) (assets : tx.containsAssets)
    (avoids : tx.Avoids l.node.containsOutPoint) : ¬SpendsCoins tx s.view.utxo s'.view.utxo := by
  intro spends
  have none : tx.inputsSpent = [] := CTransaction.inputsSpent_of_other (by simp [assets])
  have ⟨_, _, _, _, connected, start, new, _⟩ := l.connected consistent fresh found processes
  have ⟨_, step⟩ := connected.step start (fun p mem => new p.1 (mem_map_of_mem mem)) avoids
  have ⟨o, mem⟩ := exists_mem_of_ne_nil _ named
  have ⟨mem, named⟩ := mem_filter.mp mem
  have ⟨txin, input, eq⟩ := mem_map.mp mem
  subst eq
  have named : ¬txin.prevout.isNull := by simpa using named
  have kept := Utxo.create_isSome (tx.allCoins l.pindex.nHeight) (spends.before txin input named)
  have gone := spends.after txin input named
  rw [step.result, none, Utxo.spend, map_nil, Journal.replay_nil] at gone
  rw [gone] at kept
  cases kept

end

end Link

theorem Link.namedPrevouts_eq (l : Link) (assetInputs : ∀ tx ∈ l.txs, tx.containsAssets → tx.namedPrevouts = []) :
    l.namedPrevouts = spent l.moves := by
  unfold namedPrevouts spent moves
  rw [flatMap_map]
  apply flatMap_congr
  intro tx mem
  exact (l.checked tx mem).namedPrevouts_eq (assetInputs tx mem)

-- Over a chain that creates no outpoint again, the transactions that spend what they name are those without assets, and
-- nothing is named twice if those with assets name nothing.
theorem chain_spends_once (links : List Link) (follows : links.IsChain Link.Follows)
    (consistent : ∀ l ∈ links.head?, l.view.Consistent)
    (fresh : ∀ l ∈ links.head?, SpendOnce.Fresh l.view.utxo.unspent (links.flatMap Link.moves)) :
    (∀ l ∈ links, ∀ i tx, l.txs[i]? = some tx → ∃ s s', l.Processes i tx s s' ∧
      (tx.isCoinBase = false → tx.namedPrevouts ≠ [] →
        (tx.containsAssets = false → SpendsCoins tx s.view.utxo s'.view.utxo) ∧
        (tx.containsAssets → tx.Avoids l.node.containsOutPoint → ¬SpendsCoins tx s.view.utxo s'.view.utxo))) ∧
    ((∀ l ∈ links, ∀ tx ∈ l.txs, tx.containsAssets → tx.namedPrevouts = []) →
      (links.flatMap Link.namedPrevouts).Nodup) := by
  cases links
  case nil => exact ⟨fun _ mem => absurd mem not_mem_nil, fun _ => nodup_nil⟩
  case cons l₀ links =>
    have fresh := fresh l₀ rfl
    have ⟨each, _, run⟩ := Link.chain_fresh follows consistent
      (fun l mem => by cases mem; exact Set.Subset.refl _) fresh
    refine ⟨fun l mem i tx found => ?_, fun assetInputs => ?_⟩
    · have ⟨s, s', processes⟩ := l.processes found
      have ⟨consistent, fresh⟩ := each l mem
      refine ⟨s, s', processes, fun coinBase named => ⟨fun assets => ?_, fun assets avoids => ?_⟩⟩
      · exact l.spendsCoins consistent fresh found processes coinBase assets
      · exact l.not_spendsCoins consistent fresh found processes named assets avoids
    · have spent : (l₀ :: links).flatMap Link.namedPrevouts =
          SpendOnce.spent ((l₀ :: links).flatMap Link.moves) := by
        rw [SpendOnce.spent, flatMap_assoc]
        apply flatMap_congr
        intro l mem
        exact l.namedPrevouts_eq (assetInputs l mem)
      rw [spent]
      exact run.spent_nodup fresh

end

def laterMinerTx : CTransaction :=
  { minerTx with nType := 1 }

theorem chain_spends_once_payments :
    let _crypto := Crypto.toy
    ∃ l l' : Link, l.txs = [minerTx, paymentTx] ∧ l'.txs = [laterMinerTx, changeTx] ∧ l.Follows l' ∧
      (∃ s s', l.Processes 1 paymentTx s s' ∧ SpendsCoins paymentTx s.view.utxo s'.view.utxo) ∧
      (l.namedPrevouts ++ l'.namedPrevouts).Nodup := by
  intro _crypto
  let node := exampleNode .regtest exampleTip
  let node' := exampleNode .regtest exampleIndex
  let block := exampleBlock exampleTip [minerTx, paymentTx]
  let block' := exampleBlock exampleIndex [laterMinerTx, changeTx]
  let next : CBlockIndex := { phashBlock := 9, nHeight := 11 }
  have accepted : (connectBlock .int64 node block exampleIndex (some exampleTip) exampleView false >>= fun r =>
      connectBlock .int64 node' block' next (some exampleIndex) r.view false).isOk := by
    decide +kernel
  have ⟨r', accepted⟩ := isOk_iff.mp accepted
  have ⟨r, accepted, accepted'⟩ := bind_eq_ok.mp accepted
  let l : Link := ⟨node, block, exampleIndex, _, _, r, exampleBlock_earned _ _ _, accepted⟩
  let l' : Link := ⟨node', block', next, _, _, r', exampleBlock_earned _ _ _, accepted'⟩
  have other : block.getHash ≠ node.consensus.hashGenesisBlock := by decide
  have other' : block'.getHash ≠ node'.consensus.hashGenesisBlock := by decide
  have txs : l.txs = [minerTx, paymentTx] := if_neg other
  have txs' : l'.txs = [laterMinerTx, changeTx] := if_neg other'
  have follows : l.Follows l' := ⟨rfl, id⟩
  have moves : [l, l'].flatMap Link.moves =
      [minerTx, paymentTx].map (·.move node 10) ++ [laterMinerTx, changeTx].map (·.move node' 11) := by
    rw [flatMap_cons, flatMap_cons, flatMap_nil, append_nil, Link.moves, Link.moves, txs, txs']
    rfl
  have fresh : SpendOnce.Fresh exampleView.utxo.unspent ([l, l'].flatMap Link.moves) := by
    rw [moves]
    constructor
    case distinct => decide
    case absent =>
      have absent : ∀ o ∈ SpendOnce.created ([minerTx, paymentTx].map (·.move node 10) ++
          [laterMinerTx, changeTx].map (·.move node' 11)), exampleView.utxo o = none := by
        decide
      exact fun o mem => not_isSome_iff_eq_none.mpr (absent o mem)
  have ⟨each, nodup⟩ := chain_spends_once [l, l'] (isChain_pair.mpr follows)
    (by rintro _ ⟨⟩; exact exampleView_consistent) (by rintro _ ⟨⟩; exact fresh)
  have ⟨s, s', processes, spends⟩ := each l (mem_cons_self ..) 1 paymentTx (by rw [txs]; rfl)
  refine ⟨l, l', txs, txs', follows, ⟨s, s', processes, ?_⟩, ?_⟩
  · exact (spends (by decide) (by decide)).left (by decide)
  · rw [flatMap_cons, flatMap_cons, flatMap_nil, append_nil] at nodup
    refine nodup (forall_mem_cons.mpr ⟨?_, forall_mem_singleton.mpr ?_⟩)
    · rw [txs]
      decide
    · rw [txs']
      decide

-- It names a coin for anyone and one that does not exist, and mints an asset.
def mintTx : CTransaction where
  vin := [{ prevout := ⟨9, 0⟩ }, { prevout := ⟨5, 0⟩ }]
  vout := [{ nValue := 1000, scriptPubKey := [0x76, 0xa9, 0xd4] ++ List.replicate 21 0 ++ [0x88, 0xac] }]

-- An asset mint is accepted with any prevouts and leaves them, so another may name them again.
theorem mint_spends_nothing :
    let _crypto := Crypto.toy
    ∃ l : Link, l.view = exampleView ∧ l.txs = [minerTx, mintTx, paymentTx] ∧
      (∃ s s', l.Processes 1 mintTx s s' ∧ mintTx.isCoinBase = false ∧ ⟨9, 0⟩ ∈ mintTx.namedPrevouts ∧
        ⟨5, 0⟩ ∈ mintTx.namedPrevouts ∧ s.view.utxo ⟨9, 0⟩ = none ∧ (s'.view.utxo ⟨5, 0⟩).isSome) ∧
      ¬l.namedPrevouts.Nodup := by
  intro _crypto
  let node := exampleNode .regtest exampleTip
  let block := exampleBlock exampleTip [minerTx, mintTx, paymentTx]
  have accepted : (connectBlock .int64 node block exampleIndex (some exampleTip) exampleView false).isOk := by
    decide +kernel
  have ⟨r, accepted⟩ := isOk_iff.mp accepted
  let l : Link := ⟨node, block, exampleIndex, _, _, r, exampleBlock_earned _ _ _, accepted⟩
  have other : block.getHash ≠ node.consensus.hashGenesisBlock := by decide
  have txs : l.txs = [minerTx, mintTx, paymentTx] := if_neg other
  have found : l.txs[1]? = some mintTx := by rw [txs]; rfl
  have ⟨s, s', processes⟩ := l.processes found
  have before := processes.before
  have step := processes.step
  rw [txs] at before
  have run : (do
      let s ← connectTxs .int64 node 10 block 0 (loopStart exampleView) [minerTx]
      let s' ← connectTx .int64 node 10 mintTx block 1 s
      .ok (s.view.utxo ⟨9, 0⟩, (s'.view.utxo ⟨5, 0⟩).isSome)) = .ok (none, true) := by
    decide
  change connectTxs .int64 node 10 block 0 (loopStart exampleView) [minerTx] = .ok s at before
  change connectTx .int64 node 10 mintTx block 1 s = .ok s' at step
  rw [before, ok_bind, step, ok_bind, Except.ok.injEq, Prod.mk.injEq] at run
  refine ⟨l, rfl, txs, ⟨s, s', processes, by decide, by decide, by decide, run⟩, ?_⟩
  rw [Link.namedPrevouts, txs]
  decide

end Qrax
