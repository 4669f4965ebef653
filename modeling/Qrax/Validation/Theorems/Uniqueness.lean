import Qrax.Validation.Theorems.Chain

open Fallible IssueOnce List Set

namespace Qrax

open CCoinsViewCache (Fetched NoneBelow SameCoins addCoin addCoin_eq_ok addCoin_step entry utxo utxo_of_entry)
open CTransaction Link COutPoint

namespace CTransaction

-- It takes no coin, though no coinbase: it has assets or no inputs.
def isFree (tx : CTransaction) : Bool :=
  !tx.isCoinBase && tx.inputsSpent.isEmpty

variable {tx tx' : CTransaction}

theorem inputsSpent_of_wire (h : tx.wire = tx'.wire) : tx.inputsSpent = tx'.inputsSpent := by
  have same (tx : CTransaction) : tx.inputsSpent = tx.wire.inputsSpent := rfl
  rw [same, h, ← same]

theorem isCoinBase_of_wire (h : tx.wire = tx'.wire) : tx.isCoinBase = tx'.isCoinBase := by
  have same (tx : CTransaction) : tx.isCoinBase = tx.wire.isCoinBase := rfl
  rw [same, h, ← same]

theorem isFree_of_wire (h : tx.wire = tx'.wire) : tx.isFree = tx'.isFree := by
  rw [isFree, isFree, isCoinBase_of_wire h, inputsSpent_of_wire h]

theorem vin_of_wire (h : tx.wire = tx'.wire) : tx.vin = tx'.vin := by
  have same (tx : CTransaction) : tx.vin = tx.wire.vin := rfl
  rw [same, h, ← same]

variable [Crypto]

def issue (tx : CTransaction) (node : Node) (nHeight : ℕ) : Issue Uint256 COutPoint where
  __ := tx.move node nHeight
  id := tx.getHash

theorem issue_owned (tx : CTransaction) (node : Node) (nHeight : ℕ) :
    ∀ o ∈ (tx.issue node nHeight).creates, o.hash = (tx.issue node nHeight).id := by
  intro o mem
  have ⟨p, coin, eq⟩ := mem_map.mp mem
  have ⟨_, _, _, key⟩ := (outputCoins_mem coin).index
  rw [← eq, key]
  rfl

end CTransaction

section

variable [Crypto]

def Known (hashed : Set Bytes) : Set (Issue Uint256 COutPoint) :=
  {i | ∃ tx params node nHeight, CTransaction.Checked params tx ∧ tx.serialize ∈ hashed ∧ i = tx.issue node nHeight}

variable {hashed : Set Bytes} {params : Consensus.Params} {tx tx' : CTransaction}

theorem wire_eq_of_getHash (inj : Set.InjOn hash256 hashed) (checked : tx.Checked params)
    (mem : tx.serialize ∈ hashed) (mem' : tx'.serialize ∈ hashed) (eq : tx.getHash = tx'.getHash) : tx.wire = tx'.wire := by
  refine wire_eq_of_serialize (checked.size.trans ?_) (inj mem mem' eq)
  simp only [MAX_TX_SIZE_AFTER_SAPLING, MAX_SIZE]
  omega

theorem Known.spends_eq (inj : Set.InjOn hash256 hashed) {i : Issue Uint256 COutPoint} (known : i ∈ Known hashed)
    (mem : tx.serialize ∈ hashed) (eq : i.id = tx.getHash) : i.spends = tx.inputsSpent.map (·.prevout) := by
  have ⟨tx', _, _, _, checked, mem', issue⟩ := known
  subst issue
  have wire := wire_eq_of_getHash inj checked mem' mem eq
  rw [← inputsSpent_of_wire wire]
  rfl

def issues (node : Node) (nHeight : ℕ) (vtx : List CTransaction) : Set (Issue Uint256 COutPoint) :=
  {i | ∃ tx ∈ vtx, i = tx.issue node nHeight}

theorem issues_nil (node : Node) (nHeight : ℕ) (H : Set (Issue Uint256 COutPoint)) : H ∪ issues node nHeight [] = H := by
  refine union_eq_left.mpr ?_
  rintro i ⟨_, mem, _⟩
  cases mem

theorem issues_cons (node : Node) (nHeight : ℕ) (tx : CTransaction) (vtx : List CTransaction)
    (H : Set (Issue Uint256 COutPoint)) :
    insert (tx.issue node nHeight) H ∪ issues node nHeight vtx = H ∪ issues node nHeight (tx :: vtx) := by
  ext i
  simp only [issues, mem_union, mem_insert_iff, mem_ofPred_eq, exists_mem_cons_iff]
  tauto

structure Awaited (hashed : Set Bytes) (H : Set (Issue Uint256 COutPoint)) (tx : CTransaction) : Prop where
  message : tx.serialize ∈ hashed
  free : tx.inputsSpent = [] → ∀ i ∈ H, i.id ≠ tx.getHash

inductive AllAwaited (hashed : Set Bytes) (node : Node) (nHeight : ℕ) :
    Set (Issue Uint256 COutPoint) → List CTransaction → Prop
  | nil {H} : AllAwaited hashed node nHeight H []
  | cons {H tx vtx} : Awaited hashed H tx → AllAwaited hashed node nHeight (insert (tx.issue node nHeight) H) vtx →
    AllAwaited hashed node nHeight H (tx :: vtx)

section

variable {arith : Arith} {node : Node} {nHeight i : ℕ} {block : CBlock} {s s' : ConnectState}
  {H : Set (Issue Uint256 COutPoint)} {vtx vtx' : List CTransaction}

theorem AllAwaited.of_append (h : AllAwaited hashed node nHeight H (vtx ++ vtx')) :
    AllAwaited hashed node nHeight H vtx ∧ AllAwaited hashed node nHeight (H ∪ issues node nHeight vtx) vtx' := by
  induction vtx generalizing H
  case nil =>
    rw [issues_nil]
    exact ⟨.nil, h⟩
  case cons tx vtx ih =>
    cases h
    case cons head tail =>
      have ⟨first, rest⟩ := ih tail
      rw [issues_cons] at rest
      exact ⟨.cons head first, rest⟩

theorem Awaited.new (h : Awaited hashed H tx) (inj : Set.InjOn hash256 hashed) (known : H ⊆ Known hashed) {u : Utxo}
    (settled : Settled hash H u.unspent) (holds : u.Holds tx.inputsSpent) : ∀ i ∈ H, i.id ≠ tx.getHash := by
  by_cases none : tx.inputsSpent = []
  case pos => exact h.free none
  case neg =>
    let new : Issue Uint256 COutPoint := { spends := tx.inputsSpent.map (·.prevout), creates := [], id := tx.getHash }
    refine settled.new_of_spends (i := new) (fun o mem => ?_) (fun empty => ?_) fun i mem eq => ?_
    · have ⟨txin, input, eq⟩ := mem_map.mp mem
      exact eq ▸ holds txin input
    · exact none (map_eq_nil_iff.mp empty)
    · exact Known.spends_eq inj (known mem) h.message eq

theorem TxConnected.settled {txundo : CTxUndo} {v₁ : CCoinsViewCache} {ws : List CoinWrite}
    (h : TxConnected arith node nHeight tx i s txundo v₁ ws s') (consistent : s.view.Consistent)
    (distinct : (tx.vin.map (·.prevout)).Nodup) (settled : Settled hash H s.view.utxo.unspent)
    (new : ∀ i ∈ H, i.id ≠ tx.getHash) :
    s'.view.Consistent ∧ Settled hash (insert (tx.issue node nHeight) H) s'.view.utxo.unspent ∧
      (tx.move node nHeight).Takes s.view.utxo.unspent s'.view.utxo.unspent := by
  have absent (o : COutPoint) (mem : o ∈ (tx.move node nHeight).creates) : s.view.utxo o = none := by
    refine Option.not_isSome_iff_eq_none.mp (settled.absent fun i mem' => ?_)
    rw [tx.issue_owned node nHeight o mem]
    exact new i mem'
  have ⟨stop, takes⟩ := h.takes (NoneBelow.start consistent) absent distinct
  exact ⟨stop.consistent, settled.step takes (tx.issue_owned node nHeight) new, takes⟩

theorem connectTxs_settled (inj : Set.InjOn hash256 hashed) (known : H ⊆ Known hashed)
    (consistent : s.view.Consistent) (settled : Settled hash H s.view.utxo.unspent)
    (checked : ∀ tx ∈ vtx, tx.Checked params) (awaited : AllAwaited hashed node nHeight H vtx)
    (h : connectTxs arith node nHeight block i s vtx = .ok s') :
    s'.view.Consistent ∧ H ∪ issues node nHeight vtx ⊆ Known hashed ∧
      Settled hash (H ∪ issues node nHeight vtx) s'.view.utxo.unspent ∧
      SpendOnce.Run s.view.utxo.unspent (vtx.map (·.move node nHeight)) s'.view.utxo.unspent := by
  induction vtx generalizing i s H
  case nil =>
    cases h
    rw [issues_nil]
    exact ⟨consistent, known, settled, .nil (Set.Subset.refl _)⟩
  case cons tx vtx ih =>
    cases awaited
    case cons head tail =>
      have ⟨checked₁, checked⟩ := forall_mem_cons.mp checked
      have ⟨s₁, first, rest⟩ := bind_eq_ok.mp h
      have ⟨_, _, _, connected⟩ := connectTx_ok checked₁.distinct first
      have new := head.new inj known settled connected.inputs.holds
      have ⟨consistent₁, settled₁, takes⟩ := connected.settled consistent checked₁.distinct settled new
      have known₁ : insert (tx.issue node nHeight) H ⊆ Known hashed :=
        insert_subset ⟨tx, _, _, _, checked₁, head.message, rfl⟩ known
      have ⟨consistent', known', settled', run⟩ := ih known₁ consistent₁ settled₁ checked tail rest
      rw [issues_cons] at known' settled'
      exact ⟨consistent', known', settled', .cons takes run⟩

end

def freeIds (vtx : List CTransaction) : List Uint256 :=
  (vtx.filter (·.isFree)).map (·.getHash)

-- No collisions in `hashed`, and no transaction that takes no coin comes again.
structure NoRepeat (hashed : Set Bytes) (vtx past : List CTransaction) : Prop where
  messages : ∀ tx ∈ vtx, tx.serialize ∈ hashed
  free : (freeIds (vtx ++ past)).Nodup

def Unrepeated (hashed : Set Bytes) (links : List Link) (l : Link) : Prop :=
  NoRepeat hashed l.txs (links.flatMap Link.txs)

def history (links : List Link) : Set (Issue Uint256 COutPoint) :=
  {i | ∃ l ∈ links, i ∈ issues l.node l.pindex.nHeight l.txs}

theorem history_cons (l : Link) (links : List Link) :
    history (l :: links) = history links ∪ issues l.node l.pindex.nHeight l.txs := by
  ext i
  simp only [history, mem_union, mem_ofPred_eq, exists_mem_cons_iff]
  exact or_comm

section

variable {node : Node} {nHeight : ℕ} {H : Set (Issue Uint256 COutPoint)} {vtx past : List CTransaction}

theorem AllAwaited.of_pairwise (messages : ∀ tx ∈ vtx, tx.serialize ∈ hashed)
    (free : ∀ tx ∈ vtx, tx.inputsSpent = [] → ∀ i ∈ H, i.id ≠ tx.getHash)
    (pairwise : vtx.Pairwise fun tx tx' => tx'.inputsSpent = [] → tx.getHash ≠ tx'.getHash) :
    AllAwaited hashed node nHeight H vtx := by
  induction vtx generalizing H
  case nil => exact .nil
  case cons tx vtx ih =>
    have ⟨message, messages⟩ := forall_mem_cons.mp messages
    have ⟨free₁, free⟩ := forall_mem_cons.mp free
    have ⟨apart, pairwise⟩ := pairwise_cons.mp pairwise
    refine .cons ⟨message, free₁⟩ (ih messages (fun tx' mem none i old => ?_) pairwise)
    cases old
    case inl eq => exact eq ▸ apart tx' mem none
    case inr old => exact free tx' mem none i old

variable (inj : Set.InjOn hash256 hashed) (noRepeat : NoRepeat hashed vtx past) (checked : ∀ tx ∈ vtx, tx.Checked params)

include inj noRepeat checked

theorem NoRepeat.pairwise (coinBase : (vtx.headD {}).isCoinBase) (others : ∀ tx ∈ vtx.tail, tx.isCoinBase = false) :
    vtx.Pairwise fun tx tx' => tx'.inputsSpent = [] → tx.getHash ≠ tx'.getHash := by
  cases vtx
  case nil => exact .nil
  case cons tx₀ vtx =>
    have messages := noRepeat.messages
    refine pairwise_cons.mpr ⟨fun tx mem _ eq => ?_, ?_⟩
    case refine_1 =>
      have wire := wire_eq_of_getHash inj (checked tx₀ (mem_cons_self ..)) (messages tx₀ (mem_cons_self ..))
        (messages tx (mem_cons_of_mem _ mem)) eq
      have coinBase : tx₀.isCoinBase = true := coinBase
      rw [isCoinBase_of_wire wire, others tx mem] at coinBase
      cases coinBase
    case refine_2 =>
      have nodup : (freeIds vtx).Nodup := by
        refine noRepeat.free.sublist (List.Sublist.map _ (List.Sublist.filter _ ?_))
        exact (sublist_cons_self tx₀ vtx).trans (sublist_append_left ..)
      have apart := pairwise_filter.mp (pairwise_map.mp nodup)
      refine apart.imp_of_mem fun {tx tx'} mem mem' apart none eq => ?_
      have wire := wire_eq_of_getHash inj (checked tx (mem_cons_of_mem _ mem))
        (messages tx (mem_cons_of_mem _ mem)) (messages tx' (mem_cons_of_mem _ mem')) eq
      have free' : tx'.isFree = true := by
        rw [isFree, others tx' mem', none]
        rfl
      exact apart (isFree_of_wire wire ▸ free') free' eq

theorem NoRepeat.apart (mem : tx ∈ vtx) (mem' : tx' ∈ past) (message' : tx'.serialize ∈ hashed) (free : tx.isFree) :
    tx'.getHash ≠ tx.getHash := by
  intro eq
  have wire := wire_eq_of_getHash inj (checked tx mem) (noRepeat.messages tx mem) message' eq.symm
  have free' : tx'.isFree := isFree_of_wire wire ▸ free
  have nodup := noRepeat.free
  rw [freeIds, filter_append, map_append] at nodup
  refine disjoint_of_nodup_append nodup (a := tx.getHash) ?_ ?_
  · exact mem_map_of_mem (mem_filter.mpr ⟨mem, free⟩)
  · exact eq ▸ mem_map_of_mem (mem_filter.mpr ⟨mem', free'⟩)

end

section

variable [Librustzcash]

-- The sets of unspent coins that the blocks of a chain lead to.
inductive Piled (hashed : Set Bytes) : List Link → Set COutPoint → Prop
  | nil {S} : S ⊆ ∅ → Piled hashed [] S
  | cons {l links S₀ S} : Piled hashed links S₀ → Extends links l.node l.block l.pindex l.pprev →
    Unrepeated hashed links l → Settled COutPoint.hash (history (l :: links)) S →
    SpendOnce.Run S₀ l.moves S → Piled hashed (l :: links) S

variable {links : List Link} {S S' : Set COutPoint} {node : Node} {block : CBlock} {pindex : CBlockIndex}
  {pprev : Option CBlockIndex}

namespace Piled

section

variable (h : Piled hashed links S)

include h

theorem mono (sub : S' ⊆ S) : Piled hashed links S' := by
  cases h
  case nil none => exact .nil (sub.trans none)
  case cons below extends' noRepeat settled run =>
    refine .cons below extends' noRepeat (settled.mono sub) ?_
    have run' := run.append (.nil sub)
    rwa [append_nil] at run'

theorem settled : Settled hash (history links) S := by
  cases h
  case cons settled _ => exact settled
  case nil none =>
    refine ⟨fun _ mem => absurd (none mem) (notMem_empty _), ?_⟩
    rintro _ ⟨_, mem, _⟩
    cases mem

theorem each : ∀ l ∈ links, ∃ links', Extends links' l.node l.block l.pindex l.pprev ∧
    ∀ tx ∈ l.txs, tx.serialize ∈ hashed := by
  induction h
  case nil => exact fun _ mem => absurd mem not_mem_nil
  case cons below extends' noRepeat _ _ ih =>
    exact forall_mem_cons.mpr ⟨⟨_, extends', noRepeat.messages⟩, ih⟩

theorem known : history links ⊆ Known hashed := by
  rintro i ⟨l, mem, tx, tx_mem, eq⟩
  have ⟨_, _, messages⟩ := h.each l mem
  exact ⟨tx, _, _, _, l.checked tx tx_mem, messages tx tx_mem, eq⟩

theorem height_lt (ext : Extends links node block pindex pprev) :
    ∀ l ∈ links, l.pindex.nHeight < pindex.nHeight := by
  induction h generalizing node block pindex pprev
  case nil => exact fun _ mem => absurd mem not_mem_nil
  case cons l links _ _ _ extends' _ _ _ ih =>
    have height := ext.height
    rw [ext.parent] at height
    change pindex.nHeight = l.pindex.nHeight + 1 at height
    refine forall_mem_cons.mpr ⟨by omega, fun l' mem => ?_⟩
    have := ih extends' l' mem
    omega

end

end Piled

theorem Extends.coinBase_script (ext : Extends links node block pindex pprev)
    (other : block.getHash ≠ node.consensus.hashGenesisBlock) :
    CScript.pushInt64 pindex.nHeight <+: block.coinBaseScript := by
  have some : pprev.isSome := Option.isSome_iff_ne_none.mpr fun none => other (ext.genesis.mp none)
  have ⟨_, contextual⟩ := ext.contextual some
  have height := ext.height
  cases pprev
  case none => cases some
  case some p => exact height ▸ contextualCheckBlock_height contextual

section

variable (h : Piled hashed links S) (inj : Set.InjOn hash256 hashed) (ext : Extends links node block pindex pprev)
  (checked : block.Checked node.params) (other : block.getHash ≠ node.consensus.hashGenesisBlock)

include h inj ext checked other

theorem Piled.coinBase_apart (mem : tx ∈ block.vtx) (message : tx.serialize ∈ hashed)
    (coinBase : tx.isCoinBase) {l : Link} (mem' : l ∈ links) (tx_mem' : tx' ∈ l.txs) : tx'.getHash ≠ tx.getHash := by
  intro eq
  have ⟨_, ext', messages'⟩ := h.each l mem'
  have wire := wire_eq_of_getHash inj (checked.transactions tx mem) message (messages' tx' tx_mem') eq.symm
  have lt := h.height_lt ext l mem'
  have script := ext.coinBase_script other
  have ⟨checked', _⟩ := connectBlock_ok l.earned l.accepted
  have other' : l.block.getHash ≠ l.node.consensus.hashGenesisBlock := by
    intro genesis
    rw [txs, if_pos genesis] at tx_mem'
    cases tx_mem'
  have script' := ext'.coinBase_script other'
  rw [txs, if_neg other'] at tx_mem'
  rw [CBlock.coinBaseScript, ← checked.head_of_isCoinBase mem coinBase] at script
  rw [CBlock.coinBaseScript, ← checked'.head_of_isCoinBase tx_mem' (isCoinBase_of_wire wire ▸ coinBase),
    ← vin_of_wire wire] at script'
  have ⟨x, hx⟩ := script
  have ⟨y, hy⟩ := script'
  have fits := ext.fits
  have ⟨same, _⟩ := CScript.pushInt64_prefixFree (a := pindex.nHeight) (by rw [mem_ofPred_eq]; omega)
    (b := l.pindex.nHeight) (by rw [mem_ofPred_eq]; omega) (hx.trans hy.symm)
  omega

theorem Piled.awaited (noRepeat : NoRepeat hashed block.vtx (links.flatMap Link.txs)) :
    AllAwaited hashed node pindex.nHeight (history links) block.vtx := by
  refine .of_pairwise noRepeat.messages (fun tx mem none i old => ?_)
    (noRepeat.pairwise inj checked.transactions checked.coinBase checked.others)
  have ⟨l, mem', tx', tx_mem', issue⟩ := old
  subst issue
  cases coinBase : tx.isCoinBase
  case true => exact h.coinBase_apart inj ext checked other mem (noRepeat.messages tx mem) coinBase mem' tx_mem'
  case false =>
    have ⟨_, _, messages'⟩ := h.each l mem'
    refine noRepeat.apart inj checked.transactions mem (mem_flatMap.mpr ⟨l, mem', tx_mem'⟩)
      (messages' tx' tx_mem') ?_
    rw [isFree, coinBase, none]
    rfl

end

theorem Piled.connect (h : Piled hashed links S) (inj : Set.InjOn hash256 hashed) {l : Link}
    (consistent : l.view.Consistent) (unspent : l.view.utxo.unspent = S)
    (ext : Extends links l.node l.block l.pindex l.pprev) (noRepeat : Unrepeated hashed links l) :
    l.result.view.Consistent ∧ Piled hashed (l :: links) l.result.view.utxo.unspent := by
  subst unspent
  have ⟨checked, _, connected⟩ := connectBlock_ok l.earned l.accepted
  suffices step : l.result.view.Consistent ∧ Settled hash (history (l :: links)) l.result.view.utxo.unspent ∧
      SpendOnce.Run l.view.utxo.unspent l.moves l.result.view.utxo.unspent from
    ⟨step.left, .cons h ext noRepeat step.right.left step.right.right⟩
  rw [history_cons]
  unfold Unrepeated at noRepeat
  unfold moves
  unfold txs at noRepeat ⊢
  generalize l.result = r at connected ⊢
  cases connected
  case genesis v genesis fetched =>
    rw [if_pos genesis, issues_nil]
    have same : v.utxo = l.view.utxo := fetched.utxo
    refine ⟨fetched.consistent consistent, ?_, .nil ?_⟩
    · exact (show (v.setBestBlock l.pindex.phashBlock).utxo = l.view.utxo from same) ▸ h.settled
    · exact (congrArg Utxo.unspent same).le
  case loop s other _ loop _ _ view' =>
    rw [if_neg other] at noRepeat ⊢
    have fetched := loopStart_fetched l.view
    have ⟨consistent', _, settled, run⟩ := connectTxs_settled inj h.known (fetched.consistent consistent)
      (fetched.utxo ▸ h.settled) checked.transactions (h.awaited inj ext checked other noRepeat) loop
    have same : SameCoins s.view r.view := view' ▸ s.view.finished_sameCoins ..
    rw [fetched.utxo] at run
    exact ⟨same.consistent consistent', same.utxo ▸ settled, same.utxo ▸ run⟩

end

-- The calls of `AddCoin` for the outputs of a transaction, each with the cache then.
def addCoinCalls (skip : COutPoint → Bool) (txid : Uint256) (nHeight : ℕ) (fCoinBase fCoinStake : Bool)
    (cache : CCoinsViewCache) (i : ℕ) : List CTxOut → List (COutPoint × CCoinsViewCache)
  | [] => []
  | out :: vout =>
    let o : COutPoint := { hash := txid, n := UInt32.ofNat i }
    if skip o then addCoinCalls skip txid nHeight fCoinBase fCoinStake (cache.spendCoin o).2 (i + 1) vout
    else (o, cache) ::
      match cache.addCoin o { fCoinBase, fCoinStake, out, nHeight } false with
      | .ok cache => addCoinCalls skip txid nHeight fCoinBase fCoinStake cache (i + 1) vout
      | .error _ => []

def updateCoinsCalls (node : Node) (tx : CTransaction) (inputs : CCoinsViewCache) (nHeight : ℕ) :
    List (COutPoint × CCoinsViewCache) :=
  addCoinCalls (node.skips nHeight) tx.getHash nHeight tx.isCoinBase tx.isCoinStake (spendInputs inputs tx.inputsSpent).2
    0 tx.vout

section

variable {node : Node} {nHeight i : ℕ} {v v' : CCoinsViewCache} {o : COutPoint} {coin : Coin} {vout : List CTxOut}
  {txid : Uint256} {fCoinBase fCoinStake : Bool}

omit [Crypto] in
theorem addCoinsFrom_error {banned : COutPoint → Bool} {fSkipInvalid : Bool} {e : Failure}
    (h : addCoinsFrom banned txid nHeight fCoinBase fCoinStake false fSkipInvalid v i vout = .error e) :
    ∃ call ∈ addCoinCalls (fun o => fSkipInvalid && banned o) txid nHeight fCoinBase fCoinStake v i vout,
      ∃ coin, call.2.addCoin call.1 coin false = .error e := by
  induction vout generalizing v i
  case nil => cases h
  case cons out vout ih =>
    simp only [addCoinsFrom, Bool.false_eq_true, if_false] at h
    simp only [addCoinCalls]
    split at h
    case isTrue skip =>
      rw [if_pos skip]
      exact ih h
    case isFalse keep =>
      rw [if_neg keep]
      generalize ({ hash := txid, n := UInt32.ofNat i } : COutPoint) = o at h ⊢
      cases add : v.addCoin o { fCoinBase, fCoinStake, out, nHeight } false <;> rw [add] at h
      case error e' =>
        cases h
        exact ⟨(o, v), mem_cons_self .., _, add⟩
      case ok v₁ =>
        obtain ⟨call, mem, thrown⟩ := ih h
        exact ⟨call, mem_cons_of_mem _ mem, thrown⟩

omit [Crypto] in
theorem addCoin_ne_logicError (absent : v.utxo o = none) :
    v.addCoin o coin false ≠ .error (.logicError "Adding new coin that replaces non-pruned entry") := by
  have spent : ((v.entry o).getD {}).coin.isSpent = true := by
    cases he : v.entry o
    case none => rfl
    case some e =>
      rw [utxo_of_entry he] at absent
      exact Coin.unspent_eq_none.mp absent
  simp only [entry] at spent
  simp only [addCoin, CoinsCache.addCoin, spent, Bool.not_true, Bool.and_false, Bool.false_eq_true,
    if_false]
  split_ifs <;> simp

theorem addCoinCalls_absent {skip : COutPoint → Bool} (fits : i + vout.length ≤ 2 ^ 32) (consistent : v.Consistent)
    (before : ∀ o ∈ v.utxo.unspent, o.hash = txid → ∃ j < i, o.n = UInt32.ofNat j) :
    ∀ call ∈ addCoinCalls skip txid nHeight fCoinBase fCoinStake v i vout, call.2.utxo call.1 = none := by
  induction vout generalizing v i
  case nil => nofun
  case cons out vout ih =>
    rw [length_cons] at fits
    simp only [addCoinCalls]
    split
    case isTrue =>
      have leads := CCoinsViewCache.spendCoin_leads consistent { hash := txid, n := UInt32.ofNat i }
      refine ih (by omega) leads.consistent fun o mem owner => ?_
      change (utxo _ o).isSome at mem
      rw [leads.utxo, Function.update_apply] at mem
      split at mem
      case isTrue => cases mem
      case isFalse =>
        have ⟨j, lt, eq⟩ := before o mem owner
        exact ⟨j, by omega, eq⟩
    case isFalse =>
      have absent : v.utxo { hash := txid, n := UInt32.ofNat i } = none := by
        refine Option.not_isSome_iff_eq_none.mp fun now => ?_
        have ⟨j, lt, eq⟩ := before _ now rfl
        have := ofNat_inj (by omega) (by omega) eq
        omega
      refine forall_mem_cons.mpr ⟨absent, ?_⟩
      cases add : v.addCoin { hash := txid, n := UInt32.ofNat i } { fCoinBase, fCoinStake, out, nHeight } false
      case error => nofun
      case ok v₁ =>
        have ⟨unspent, _⟩ := addCoin_eq_ok.mp add
        have ⟨v₂, add', consistent', _, utxo⟩ := addCoin_step _ ⟨_, unspent⟩ false consistent
          fun _ => absent
        rw [add] at add'
        cases add'
        refine ih (by omega) consistent' fun o mem owner => ?_
        change (CCoinsViewCache.utxo _ o).isSome at mem
        by_cases here : o = { hash := txid, n := UInt32.ofNat i }
        case pos => exact ⟨i, by omega, by rw [here]⟩
        case neg =>
          rw [utxo] at mem
          have old : o ∈ v.utxo.unspent := by
            simp only [ViewOp.apply] at mem
            split at mem
            case isTrue => exact mem
            case isFalse => rwa [Function.update_of_ne here] at mem
          have ⟨j, lt, eq⟩ := before o old owner
          exact ⟨j, by omega, eq⟩

end

def prepareTx (arith : Arith) (node : Node) (nHeight : ℕ) (tx : CTransaction) (block : CBlock) (s : ConnectState) :
    Except Failure ConnectState := do
  let nSigOps := s.nSigOps + getLegacySigOpCount tx
  failIf (nSigOps > MAX_BLOCK_SIGOPS_CURRENT) (dos 100 REJECT_INVALID "bad-blk-sigops")
  failIf (!node.isInitialBlockDownload && tx.isShieldedTx &&
      (block.nTime.toNat : ℤ) > node.getSporkValue .SPORK_20_SAPLING_MAINTENANCE)
    (dos 100 0 "")
  let s ← checkAvailable tx { s with nSigOps }
  let s ← connectInputs arith node nHeight tx s
  let s ← if node.fAddressIndex then countOutputs arith node tx tx.getHash s 0 tx.vout else .ok s
  countAssets arith tx s

section

variable {arith : Arith} {node : Node} {nHeight i : ℕ} {block : CBlock} {s s' : ConnectState}

theorem connectTx_eq (i : ℕ) (s : ConnectState) :
    connectTx arith node nHeight tx block i s = prepareTx arith node nHeight tx block s >>= (fun s => do
      let (txundo, view) ← updateCoins node tx s.view nHeight (node.skipInvalidUTXOS nHeight)
      let saplingTree ← appendCommitments tx s.saplingTree
      .ok { s with view, saplingTree, vtxundo := if i > 0 then s.vtxundo ++ [txundo] else s.vtxundo }) := by
  simp only [connectTx, prepareTx, ite_bind, bind_assoc]

theorem prepareTx_ok (h : prepareTx arith node nHeight tx block s = .ok s') :
    Fetched s.view s'.view ∧ s.view.utxo.Holds tx.inputsSpent := by
  simp only [prepareTx, ite_bind, bind_eq_ok, exists_unit, failIf_eq_ok] at h
  obtain ⟨_, _, s₁, available, s₂, inputs, s₃, outputs, assets⟩ := h
  obtain ⟨kept₁, _, holds⟩ := checkAvailable_ok available
  obtain ⟨kept₂, _⟩ := connectInputs_ok (kept₁.view.utxo ▸ holds) inputs
  obtain ⟨view₃, _⟩ := countTx_ok outputs
  obtain ⟨view₄, _⟩ := countAssets_ok assets
  rw [view₄, view₃]
  exact ⟨kept₁.view.trans kept₂.view, holds⟩

end

structure Prepares (node : Node) (block : CBlock) (pindex : CBlockIndex) (view : CCoinsViewCache) (i : ℕ)
    (tx : CTransaction) (s s' : ConnectState) : Prop where
  notGenesis : block.getHash ≠ node.consensus.hashGenesisBlock
  found : block.vtx[i]? = some tx
  before : connectTxs .int64 node pindex.nHeight block 0 (loopStart view) (block.vtx.take i) = .ok s
  prepared : prepareTx .int64 node pindex.nHeight tx block s = .ok s'

variable [Librustzcash] {links : List Link} {v view : CCoinsViewCache} {node : Node} {block : CBlock}
  {pindex : CBlockIndex} {pprev : Option CBlockIndex}

theorem Reached.piled (inj : Set.InjOn hash256 hashed)
    (h : Reached (Unrepeated hashed) links v) :
    v.Consistent ∧ Piled hashed links v.utxo.unspent := by
  induction h
  case start consistent none =>
    refine ⟨consistent, .nil fun o mem => ?_⟩
    change (utxo _ o).isSome at mem
    rw [none] at mem
    cases mem
  case connect l _ same ext noRepeat ih =>
    exact ih.right.connect inj (same.consistent ih.left) (congrArg Utxo.unspent same.utxo) ext noRepeat
  case disconnect l node pprev d _ same parent undone clean ih =>
    have ⟨consistent, piled⟩ := ih
    cases piled
    case cons below ext noRepeat run settled =>
      have other : l.block.getHash ≠ l.node.consensus.hashGenesisBlock := by
        rw [ne_eq, ← ext.genesis, parent]
        nofun
      have ⟨consistent', back⟩ := disconnectBlock_back l.node l.pindex.nHeight (same.consistent consistent) undone
        (by rw [clean]; nofun)
      rw [same.utxo] at back
      rw [moves, txs, if_neg other] at run
      exact ⟨consistent', below.mono (run.back back)⟩

-- The unspent coins come from the connected blocks, and what these spent is gone for good.
theorem Reached.coins_of_chain (inj : Set.InjOn hash256 hashed) (reached : Reached (Unrepeated hashed) links v) :
    (∀ o ∈ v.utxo.unspent, ∃ tx ∈ links.flatMap Link.txs, tx.getHash = o.hash) ∧
      ∀ tx ∈ links.flatMap Link.txs, ∀ txin ∈ tx.inputsSpent, txin.prevout ∉ v.utxo.unspent ∧
        ∃ tx' ∈ links.flatMap Link.txs, tx'.getHash = txin.prevout.hash := by
  have ⟨_, piled⟩ := reached.piled inj
  have settled := piled.settled
  have creator {o : COutPoint} (h : ∃ i ∈ history links, i.id = o.hash) :
      ∃ tx ∈ links.flatMap Link.txs, tx.getHash = o.hash := by
    obtain ⟨_, ⟨l, mem, tx, tx_mem, rfl⟩, eq⟩ := h
    exact ⟨tx, mem_flatMap.mpr ⟨l, mem, tx_mem⟩, eq⟩
  refine ⟨fun o mem => creator (settled.owned o mem), fun tx mem txin input => ?_⟩
  have ⟨l, mem, tx_mem⟩ := mem_flatMap.mp mem
  have ⟨gone, issued⟩ := settled.spent (tx.issue l.node l.pindex.nHeight) ⟨l, mem, tx, tx_mem, rfl⟩ txin.prevout
    (mem_map_of_mem input)
  exact ⟨gone, creator issued⟩

-- If no transaction that takes no coin is repeated, all coins the next block adds are new.
theorem Reached.adds_new_coins (inj : Set.InjOn hash256 hashed)
    (reached : Reached (Unrepeated hashed) links v)
    (same : SameCoins v view) (earned : block.FlagEarned node.params)
    (checked : (checkBlock node block true true true).isOk) (ext : Extends links node block pindex pprev)
    (noRepeat : NoRepeat hashed block.vtx (links.flatMap Link.txs)) :
    ∀ i tx s s', Prepares node block pindex view i tx s s' →
      (∀ call ∈ updateCoinsCalls node tx s'.view pindex.nHeight, call.2.utxo call.1 = none) ∧
      updateCoins node tx s'.view pindex.nHeight (node.skipInvalidUTXOS pindex.nHeight) ≠
        .error (.logicError "Adding new coin that replaces non-pruned entry") := by
  intro i tx s s' prepares
  have ⟨consistent, piled⟩ := reached.piled inj
  have ⟨_, checked⟩ := isOk_iff.mp checked
  have ⟨checked, _⟩ := checkBlock_ok earned checked
  have split := take_append_of_getElem? prepares.found
  have awaited := piled.awaited inj ext checked prepares.notGenesis noRepeat
  have transactions := checked.transactions
  rw [split] at awaited transactions
  have ⟨awaited₀, awaited⟩ := awaited.of_append
  have ⟨checked₀, rest⟩ := forall_mem_append.mp transactions
  have checked₁ := rest tx (mem_cons_self ..)
  have fetched := loopStart_fetched view
  have settled : Settled COutPoint.hash (history links) (loopStart view).view.utxo.unspent := by
    rw [fetched.utxo, same.utxo]
    exact piled.settled
  have ⟨consistent₀, known, settled, _⟩ := connectTxs_settled inj piled.known
    (fetched.consistent (same.consistent consistent)) settled checked₀ awaited₀ prepares.before
  have ⟨fetched₁, holds⟩ := prepareTx_ok prepares.prepared
  cases awaited
  case cons awaited₁ _ =>
    have new := awaited₁.new inj known settled holds
    have ⟨stop, utxo⟩ := (CCoinsViewCache.spendInputs_writes s'.view
      (CTransaction.inputsSpent_distinct checked₁.distinct)).noneBelow
      (NoneBelow.start (fetched₁.consistent consistent₀)) fun o coin mem => by
        have ⟨_, _, eq⟩ := mem_map.mp mem
        cases eq
    have absent : ∀ call ∈ updateCoinsCalls node tx s'.view pindex.nHeight, call.2.utxo call.1 = none := by
      refine addCoinCalls_absent (by have := checked₁.vout_length_lt; omega) stop.consistent fun o mem owner => ?_
      -- None of this transaction's outputs is there.
      exfalso
      have ⟨c, found⟩ := Option.isSome_iff_exists.mp mem
      rw [utxo, map_map, fetched₁.utxo] at found
      change s.view.utxo.spend tx.inputsSpent o = some c at found
      have old := (Utxo.spend_eq_some found).left
      exact settled.absent (fun i mem => owner ▸ new i mem) (Option.isSome_iff_exists.mpr ⟨c, old⟩)
    refine ⟨absent, fun thrown => ?_⟩
    rw [updateCoins_eq] at thrown
    cases added : addCoins node.containsOutPoint (spendInputs s'.view tx.inputsSpent).2 tx pindex.nHeight false
      (node.skipInvalidUTXOS pindex.nHeight) <;> rw [added] at thrown <;> cases thrown
    have ⟨call, mem, coin, thrown⟩ := addCoinsFrom_error added
    exact addCoin_ne_logicError (absent call mem) thrown

end

section

attribute [local instance] Crypto.toy Librustzcash.toy

def genesisIndex : CBlockIndex :=
  indexOf (genesisBlock .regtest) 0

def mintBlock : CBlock :=
  exampleBlock genesisIndex [minerTxAt 1, mintTx]

def mintIndex : CBlockIndex :=
  indexOf mintBlock 1

def laterMintTx : CTransaction :=
  { mintTx with vin := [{ prevout := ⟨10, 0⟩ }] }

def mintMessages : List Bytes :=
  [minerTxAt 1, minerTxAt 2, mintTx, laterMintTx].map (·.serialize)

theorem mintMessages_injOn : Set.InjOn hash256 {m | m ∈ mintMessages} := by
  have inj : ∀ m ∈ mintMessages, ∀ m' ∈ mintMessages, hash256 m = hash256 m' → m = m' := by decide
  exact fun m mem m' mem' eq => inj m mem m' mem' eq

def mintNode : Node :=
  exampleNode .regtest genesisIndex

def connectMint : Except Failure Connected := do
  let r ← connectBlock .int64 (Node.start .regtest) (genesisBlock .regtest) genesisIndex none emptyView false
  connectBlock .int64 mintNode mintBlock mintIndex (some genesisIndex) r.view false

theorem connectMint_reached {r : Connected} (h : connectMint = .ok r) :
    ∃ l₀ l₁ : Link, l₁.pindex = mintIndex ∧ [l₁, l₀].flatMap Link.txs = [minerTxAt 1, mintTx] ∧
      Reached (Unrepeated {m | m ∈ mintMessages}) [l₁, l₀] r.view := by
  have ⟨r₀, first, second⟩ := bind_eq_ok.mp h
  have ⟨l₀, pindex₀, txs₀, reached⟩ := genesis_reached (Unrepeated {m | m ∈ mintMessages})
    (by decide) (by decide) first fun l _ txs => by
    rw [Unrepeated, txs]
    exact ⟨nofun, by decide⟩
  have other : mintBlock.getHash ≠ mintNode.consensus.hashGenesisBlock := by decide
  have ext : Extends [l₀] mintNode mintBlock mintIndex (some genesisIndex) :=
    extends_tip pindex₀ other rfl (by decide) (by decide)
  have ⟨l₁, pindex₁, txs₁, reached⟩ := block_reached reached rfl other ext second fun l _ txs => by
    rw [Unrepeated, txs, flatMap_cons, txs₀]
    exact ⟨by decide, by decide⟩
  refine ⟨l₀, l₁, pindex₁, ?_, reached⟩
  rw [flatMap_cons, flatMap_cons, txs₀, txs₁]
  rfl

def nextNode : Node :=
  exampleNode .regtest mintIndex

def nextBlock (tx : CTransaction) : CBlock :=
  exampleBlock mintIndex [minerTxAt 2, tx]

def prepareNext (tx : CTransaction) (view : CCoinsViewCache) : Except Failure (ConnectState × ConnectState) := do
  let s ← connectTxs .int64 nextNode 2 (nextBlock tx) 0 (loopStart view) [minerTxAt 2]
  let s' ← prepareTx .int64 nextNode 2 tx (nextBlock tx) s
  .ok (s, s')

theorem prepareNext_ok {tx : CTransaction} {view : CCoinsViewCache} {s s' : ConnectState}
    (other : (nextBlock tx).getHash ≠ nextNode.consensus.hashGenesisBlock) (h : prepareNext tx view = .ok (s, s')) :
    Prepares nextNode (nextBlock tx) (indexOf (nextBlock tx) 2) view 1 tx s s' := by
  simp only [prepareNext, bind_eq_ok, Except.ok.injEq, Prod.mk.injEq] at h
  have ⟨_, before, _, prepared, eq, eq'⟩ := h
  subst eq eq'
  exact ⟨other, rfl, before, prepared⟩

theorem reached_adds_new_coins_mints : ∃ links v s s',
    Reached (Unrepeated {m | m ∈ mintMessages}) links v ∧
    Prepares nextNode (nextBlock laterMintTx) (indexOf (nextBlock laterMintTx) 2) v 1 laterMintTx s s' ∧
    updateCoinsCalls nextNode laterMintTx s'.view 2 ≠ [] ∧
    ∀ call ∈ updateCoinsCalls nextNode laterMintTx s'.view 2, call.2.utxo call.1 = none := by
  have run : (do
      let r ← connectMint
      let (_, s') ← prepareNext laterMintTx r.view
      .ok (updateCoinsCalls nextNode laterMintTx s'.view 2).isEmpty) = .ok false := by
    decide +kernel
  have ⟨r, mint, run⟩ := bind_eq_ok.mp run
  have ⟨⟨s, s'⟩, prepare, run⟩ := bind_eq_ok.mp run
  have ⟨l₀, l₁, pindex, txs, reached⟩ := connectMint_reached mint
  have other : (nextBlock laterMintTx).getHash ≠ nextNode.consensus.hashGenesisBlock := by decide
  have prepares := prepareNext_ok other prepare
  have noRepeat : NoRepeat {m | m ∈ mintMessages} (nextBlock laterMintTx).vtx ([l₁, l₀].flatMap Link.txs) := by
    rw [txs]
    exact ⟨by decide, by decide⟩
  have ⟨absent, _⟩ := Reached.adds_new_coins mintMessages_injOn reached ⟨rfl, id⟩ (exampleBlock_earned _ _ _) (by decide +kernel)
    (extends_tip pindex other rfl (by decide) (by decide)) noRepeat 1 laterMintTx s s' prepares
  refine ⟨_, _, s, s', reached, prepares, fun none => ?_, absent⟩
  rw [Except.ok.injEq, none] at run
  cases run

theorem coins_of_chain_mints : ∃ links v, Reached (Unrepeated {m | m ∈ mintMessages}) links v ∧
    links.flatMap Link.txs = [minerTxAt 1, mintTx] ∧
    ∀ o ∈ v.utxo.unspent, ∃ tx ∈ links.flatMap Link.txs, tx.getHash = o.hash := by
  have ⟨r, mint⟩ := isOk_iff.mp (show connectMint.isOk by decide +kernel)
  have ⟨l₀, l₁, _, txs, reached⟩ := connectMint_reached mint
  exact ⟨_, _, reached, txs, (reached.coins_of_chain mintMessages_injOn).left⟩

-- Blocks may contain the same transaction twice: for the second `AddCoin` is called for the coin of the first, and
-- throws.
theorem mint_twice_throws : ∃ links v,
    Reached (Unrepeated {m | m ∈ mintMessages}) links v ∧
    (∀ tx ∈ (nextBlock mintTx).vtx, tx.serialize ∈ mintMessages) ∧
    (checkBlock nextNode (nextBlock mintTx) true true true).isOk ∧
    Extends links nextNode (nextBlock mintTx) (indexOf (nextBlock mintTx) 2) (some mintIndex) ∧
    (∃ s s', Prepares nextNode (nextBlock mintTx) (indexOf (nextBlock mintTx) 2) v 1 mintTx s s' ∧
      ∃ call ∈ updateCoinsCalls nextNode mintTx s'.view 2, (call.2.utxo call.1).isSome) ∧
    connectBlock .int64 nextNode (nextBlock mintTx) (indexOf (nextBlock mintTx) 2) (some mintIndex) v false =
      .error (.logicError "Adding new coin that replaces non-pruned entry") := by
  have run : (do
      let r ← connectMint
      let (_, s') ← prepareNext mintTx r.view
      .ok ((updateCoinsCalls nextNode mintTx s'.view 2).any fun call => (call.2.utxo call.1).isSome)) = .ok true := by
    decide +kernel
  have thrown : (do
      let r ← connectMint
      match connectBlock .int64 nextNode (nextBlock mintTx) (indexOf (nextBlock mintTx) 2) (some mintIndex) r.view false with
      | .ok _ => .ok none
      | .error e => .ok (some e)) =
      (.ok (some (.logicError "Adding new coin that replaces non-pruned entry")) : Except Failure (Option Failure)) := by
    decide +kernel
  have ⟨r, mint, run⟩ := bind_eq_ok.mp run
  have ⟨⟨s, s'⟩, prepare, run⟩ := bind_eq_ok.mp run
  rw [mint, ok_bind] at thrown
  have ⟨l₀, l₁, pindex, _, reached⟩ := connectMint_reached mint
  have other : (nextBlock mintTx).getHash ≠ nextNode.consensus.hashGenesisBlock := by decide
  refine ⟨_, _, reached, by decide +kernel, by decide +kernel,
    extends_tip pindex other rfl (by decide) (by decide), ⟨s, s', prepareNext_ok other prepare, ?_⟩, ?_⟩
  · rw [Except.ok.injEq, any_eq_true] at run
    exact run
  · split at thrown
    case h_1 => cases thrown
    case h_2 e eq =>
      rw [eq]
      exact congrArg Except.error (Option.some.inj (Except.ok.inj thrown))

end

end Qrax
