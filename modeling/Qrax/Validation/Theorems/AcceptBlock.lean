import Qrax.Validation.AcceptBlock
import Qrax.Validation.Theorems.Chain
import Qrax.Validation.Theorems.ReceiveBlock
import Qrax.Validation.Theorems.Stake

open Fallible Forest List Journal

namespace Qrax

open CTransaction

section

variable [Crypto]

section

variable (node : Node) (tree : BlockTree) (store : BlockStore)

def connectedTxs (b : Uint256) : List CTransaction :=
  if tree.pprev b = none then [] else (store.readBlockFromDisk b).elim [] (·.vtx)

-- The coins after more blocks, whose transactions take out the inputs chosen by `inputs`.
def coinsAfter (inputs : CTransaction → List CTxIn) (u : Utxo) (bs : List Uint256) : Utxo :=
  bs.foldl (fun u b => ledger node (tree.nHeight b) inputs u (connectedTxs tree store b)) u

def chainUtxo (b : Uint256) : Utxo :=
  coinsAfter node tree store CTransaction.inputsSpent (fun _ => none) (path tree.pprev tree.nHeight b)

def sideCoins (f : Uint256) (bs : List Uint256) : Utxo :=
  coinsAfter node tree store (fun _ => []) (chainUtxo node tree store f) bs

end

variable {node : Node} {tree : BlockTree} {store : BlockStore} {stakeTx : CTransaction} {o : COutPoint} {u u' : Utxo}

variable {tx : CTransaction} {nHeight : ℕ} {txin : CTxIn} {bs : List Uint256}

theorem CTransaction.applied_congr {vin vin' : List CTxIn} (same : u o = u' o)
    (out : o ∉ vin.map (·.prevout)) (out' : o ∉ vin'.map (·.prevout)) :
    tx.applied node nHeight vin u o = tx.applied node nHeight vin' u' o := by
  unfold applied
  by_cases written : o ∈ (tx.writes (node.skips nHeight) nHeight).map (·.1)
  case pos => exact replay_congr written _ _
  case neg =>
    rw [replay_of_not_mem written, replay_of_not_mem written, Utxo.spend_of_not_mem out,
      Utxo.spend_of_not_mem out', same]

theorem ledger_congr {inputs inputs' : CTransaction → List CTxIn} {vtx : List CTransaction}
    (same : u o = u' o) (out : ∀ tx ∈ vtx, o ∉ (inputs tx).map (·.prevout) ∧ o ∉ (inputs' tx).map (·.prevout)) :
    ledger node nHeight inputs u vtx o = ledger node nHeight inputs' u' vtx o := by
  induction vtx generalizing u u'
  case nil => exact same
  case cons tx vtx ih =>
    have ⟨here, out⟩ := forall_mem_cons.mp out
    rw [ledger_cons, ledger_cons]
    exact ih (applied_congr same here.left here.right) out

omit [Crypto] in
theorem mem_vin_of_mem_inputsSpent (mem : o ∈ tx.inputsSpent.map (·.prevout)) :
    o ∈ tx.vin.map (·.prevout) := by
  unfold inputsSpent at mem
  split at mem
  case isTrue => exact mem
  case isFalse => cases mem

omit [Crypto] in
theorem not_mem_of_spentBy {bl : CBlock} (kept : spentBy stakeTx bl = false) (mem : txin ∈ stakeTx.vin)
    (tx_mem : tx ∈ bl.vtx) : txin.prevout ∉ tx.vin.map (·.prevout) := by
  intro spent
  have ⟨txin', mem', eq⟩ := mem_map.mp spent
  refine Bool.eq_false_iff.mp kept ?_
  simp only [spentBy, any_eq_true, decide_eq_true_eq]
  exact ⟨tx, tx_mem, txin', mem', txin, mem, eq.symm⟩

theorem coinsAfter_congr (mem : txin ∈ stakeTx.vin)
    (same : u txin.prevout = u' txin.prevout)
    (kept : ∀ b ∈ bs, ∃ bl, store.readBlockFromDisk b = some bl ∧ spentBy stakeTx bl = false) :
    coinsAfter node tree store inputsSpent u bs txin.prevout =
      coinsAfter node tree store (fun _ => []) u' bs txin.prevout := by
  induction bs generalizing u u'
  case nil => exact same
  case cons b bs ih =>
    have ⟨⟨bl, disk, here⟩, kept⟩ := forall_mem_cons.mp kept
    refine ih (ledger_congr same fun tx tx_mem => ⟨fun spent => ?_, nofun⟩) kept
    unfold connectedTxs at tx_mem
    split at tx_mem
    case isTrue => cases tx_mem
    case isFalse =>
      rw [disk] at tx_mem
      exact not_mem_of_spentBy here mem tx_mem (mem_vin_of_mem_inputsSpent spent)

theorem chainUtxo_of_way {f p : Uint256} (way : Way tree.pprev f bs p) :
    chainUtxo node tree store p =
      coinsAfter node tree store inputsSpent (chainUtxo node tree store f) bs := by
  unfold chainUtxo coinsAfter
  rw [tree.graded.path_of_way way, foldl_append]

variable {chainActive : CChain} {t prev : Uint256} {nMaxReorgDepth readBlock : ℤ} {n : ℕ} {bl : CBlock}

theorem checkSideBranch_ok (is : CChain.IsPath tree chainActive t) (enough : tree.nHeight prev < n)
    (disk : store.readBlockFromDisk prev = some bl)
    (passed : checkSideBranch tree chainActive store.readBlockFromDisk nMaxReorgDepth stakeTx n prev bl readBlock =
      .ok ()) :
    ∃ f bs, tree.Meet t prev f ∧ Way tree.pprev f bs prev ∧
      ∀ b ∈ bs, ∃ bl, store.readBlockFromDisk b = some bl ∧ spentBy stakeTx bl = false := by
  induction n generalizing prev bl readBlock
  case zero => exact absurd enough (Nat.not_lt_zero _)
  case succ n ih =>
    rw [checkSideBranch] at passed
    split at passed
    case isTrue active =>
      have anc := is.contains_iff.mp active
      exact ⟨prev, [], ⟨anc, .refl, fun _ h => h⟩, .nil, nofun⟩
    case isFalse side =>
      simp only [seq_eq_ok, failIf_eq_ok] at passed
      obtain ⟨_, kept, rest⟩ := passed
      split at rest
      case h_1 => cases rest
      case h_2 q up =>
        split at rest
        case h_1 => cases rest
        case h_2 bl' disk' =>
          obtain ⟨f, bs, meet, way, all⟩ := ih (by have := tree.graded.child up; omega) disk' rest
          refine ⟨f, bs ++ [prev], ⟨meet.left, .step up meet.right, fun left right => ?_⟩, way.snoc up, ?_⟩
          · obtain rfl | right := (Anc.iff_of_child up).mp right
            case inl => exact absurd (is.contains_iff.mpr left) side
            case inr => exact meet.greatest left right
          · intro b mem
            obtain mem | here := mem_append.mp mem
            case inl => exact all b mem
            case inr => exact mem_singleton.mp here ▸ ⟨bl, disk, Bool.eq_false_iff.mpr kept⟩

section

variable {tree' : BlockTree} {chain : ActiveChain} {nMaxReorgDepth readBlock : ℤ} {p t : Uint256}

structure BlockTree.Extends (tree tree' : BlockTree) : Prop where
  pprev : ∀ {b}, b ∈ tree.mapBlockIndex → tree'.pprev b = tree.pprev b
  nHeight : ∀ {b}, b ∈ tree.mapBlockIndex → tree'.nHeight b = tree.nHeight b

theorem checkSideBranch_extends (extends' : tree.Extends tree') {chainActive : CChain} {n : ℕ} {prev : Uint256}
    {bl : CBlock} (known : prev ∈ tree.mapBlockIndex) :
    checkSideBranch tree' chainActive store.readBlockFromDisk nMaxReorgDepth stakeTx n prev bl readBlock =
      checkSideBranch tree chainActive store.readBlockFromDisk nMaxReorgDepth stakeTx n prev bl readBlock := by
  induction n generalizing prev bl readBlock
  case zero => rfl
  case succ n ih =>
    have contains : chainActive.contains tree' prev = chainActive.contains tree prev := by
      simp only [CChain.contains, extends'.nHeight known]
    simp only [checkSideBranch, contains, extends'.pprev known]
    split
    case isTrue => rfl
    case isFalse =>
      refine bind_congr_ok fun _ _ => bind_congr_ok fun _ _ => ?_
      cases up : tree.pprev prev
      case none => rfl
      case some q =>
        dsimp only
        cases store.readBlockFromDisk q
        case none => rfl
        case some bl => exact ih (tree.closed up).right

theorem checkStakeInputs_extends (extends' : tree.Extends tree') (known : p ∈ tree.mapBlockIndex) :
    checkStakeInputs tree' store chain nMaxReorgDepth stakeTx (some p) =
      checkStakeInputs tree store chain nMaxReorgDepth stakeTx (some p) := by
  simp only [checkStakeInputs, checkSideBranch_extends extends' known, extends'.nHeight known]

theorem isSpent_iff_utxo {v : CCoinsViewCache} : (v.accessCoin o).1.isSpent = true ↔ v.utxo o = none := by
  have ⟨v₁, eq, _⟩ := v.accessCoin_eq o
  rw [eq, utxo_of_peek]
  cases spent : ((v.view.peek o).getD {}).isSpent
  case true => exact ⟨fun _ => Coin.unspent_of_spent spent, fun _ => rfl⟩
  case false => exact ⟨nofun, fun gone => absurd ((Coin.unspent_of_not_spent spent).symm.trans gone) nofun⟩

-- On top of the tip the coins are looked up, on a branch only its blocks.
theorem checkStakeInputs_ok (is : CChain.IsPath tree chain.chainActive t)
    (passed : checkStakeInputs tree store chain nMaxReorgDepth stakeTx (some p) = .ok ()) :
    if t = p then ∀ txin ∈ stakeTx.vin, chain.pcoinsTip.utxo txin.prevout ≠ none
    else ∃ f bs, tree.Meet t p f ∧ Way tree.pprev f bs p ∧
      ∀ b ∈ bs, ∃ bl, store.readBlockFromDisk b = some bl ∧ spentBy stakeTx bl = false := by
  simp only [checkStakeInputs, is.tip_eq, seq_eq_ok, onlyIf_eq_ok, forM_eq_ok, failIf_eq_ok] at passed
  have ⟨branch, coins⟩ := passed
  split
  case isTrue here =>
    intro txin mem gone
    exact coins txin mem (by simp [isSpent_iff_utxo.mpr gone, here])
  case isFalse side =>
    have branch := branch (by simp [side])
    split at branch
    case h_1 => cases branch
    case h_2 bl disk => exact checkSideBranch_ok is (by omega) disk branch

end

section

variable {rules : HeaderRules} {adjustedTime : ℤ} {chain : ActiveChain} {blocks blocks' : Blocks}
  {block : CBlock} {t : Uint256}

theorem getPrevIndex_ok {pindexPrev : Uint256} (done : getPrevIndex node rules blocks block = .ok (some pindexPrev)) :
    pindexPrev = block.hashPrevBlock ∧ pindexPrev ∈ blocks.index.mapBlockIndex := by
  unfold getPrevIndex at done
  split at done
  case isTrue => cases done
  case isFalse =>
    simp only [seq_eq_ok, failIf_eq_ok, not_not] at done
    have ⟨known, _, eq⟩ := done
    cases eq
    exact ⟨rfl, known⟩

theorem acceptBlockHeader_extends {pindexPrev : Option Uint256}
    (known : block.hashPrevBlock ∈ blocks.index.mapBlockIndex)
    (done : acceptBlockHeader node rules blocks block pindexPrev = .ok blocks') :
    blocks.index.toBlockTree.Extends blocks'.index.toBlockTree := by
  unfold acceptBlockHeader at done
  split at done
  case isTrue =>
    simp only [seq_eq_ok] at done
    cases done.right
    exact ⟨fun _ => rfl, fun _ => rfl⟩
  case isFalse new =>
    simp only [seq_eq_ok] at done
    cases done.right
    let header : BlockHeader :=
      ⟨block.getHash, block.hashPrevBlock, rules.getBlockProof block.nBits, rules.positive block.nBits⟩
    have entered : Blocks.Entered blocks header _ := Blocks.addToBlockIndex_enters new known
    have ne {b : Uint256} (mem : b ∈ blocks.index.mapBlockIndex) : b ≠ block.getHash := fun eq => new (eq ▸ mem)
    exact ⟨fun mem => entered.pprev_eq (ne mem), fun mem => entered.nHeight _ (ne mem)⟩

variable [Librustzcash]

theorem acceptBlock_stored (stakes : block.isProofOfStake)
    (stored : acceptBlock node rules adjustedTime store chain blocks block = .ok (blocks', true)) :
    checkStakeInputs blocks.index.toBlockTree store { chain with chainActive := blocks.state.chainActive }
      rules.nMaxReorgDepth (coinStakeTx block) (some block.hashPrevBlock) = .ok () := by
  simp only [acceptBlock, bind_eq_ok, mapError_eq_ok, exists_unit, onlyIf_eq_ok, stakes, true_implies] at stored
  have ⟨pindexPrev, prev, _, stake, entered, header, rest⟩ := stored
  cases pindexPrev
  case none => cases stake
  case some p =>
    have ⟨eq, known⟩ := getPrevIndex_ok prev
    subst eq
    split at rest
    case isTrue => cases rest
    case isFalse =>
      simp only [bind_eq_ok, exists_unit, onlyIf_true, mapError_eq_ok] at rest
      have ⟨_, inputs, _⟩ := rest
      rwa [checkStakeInputs_extends (acceptBlockHeader_extends known header) known] at inputs

-- The inputs of a block on a branch are coins of its parent just when none was gone where the branch began.
theorem acceptBlock_stake_unspent_iff (stakes : block.isProofOfStake)
    (is : CChain.IsPath blocks.index.toBlockTree blocks.state.chainActive t)
    (coins : chain.pcoinsTip.utxo = chainUtxo node blocks.index.toBlockTree store t)
    (stored : acceptBlock node rules adjustedTime store chain blocks block = .ok (blocks', true)) :
    (∀ txin ∈ (coinStakeTx block).vin,
        chainUtxo node blocks.index.toBlockTree store block.hashPrevBlock txin.prevout ≠ none) ↔
      t = block.hashPrevBlock ∨ ∃ f bs, blocks.index.Meet t block.hashPrevBlock f ∧
        Way blocks.index.pprev f bs block.hashPrevBlock ∧ ∀ txin ∈ (coinStakeTx block).vin,
          sideCoins node blocks.index.toBlockTree store f bs txin.prevout ≠ none := by
  have passed := checkStakeInputs_ok is (acceptBlock_stored stakes stored)
  split at passed
  case isTrue here => exact ⟨fun _ => .inl here, fun _ => here ▸ coins ▸ passed⟩
  case isFalse side =>
    have ⟨f, bs, meet, way, kept⟩ := passed
    have same {txin : CTxIn} (mem : txin ∈ (coinStakeTx block).vin) :
        chainUtxo node blocks.index.toBlockTree store block.hashPrevBlock txin.prevout =
          sideCoins node blocks.index.toBlockTree store f bs txin.prevout := by
      rw [chainUtxo_of_way way]
      exact coinsAfter_congr mem rfl kept
    constructor
    case mp => exact fun unspent => .inr ⟨f, bs, meet, way, fun txin mem => same mem ▸ unspent txin mem⟩
    case mpr =>
      rintro (here | ⟨f', bs', meet', way', unspent⟩) txin mem
      case inl => exact absurd here side
      case inr =>
        cases meet'.unique meet
        cases blocks.index.graded.way_unique way' way
        exact same mem ▸ unspent txin mem

end

end

section

attribute [local instance] Crypto.toy Librustzcash.toy

def idleTx (nType : Int16) : CTransaction where
  nType := nType
  vin := [{ prevout := .null, scriptSig := [1, 1] }]
  vout := [{ nValue := 0, scriptPubKey := [0x6a] }]

def spendingTx : CTransaction where
  vin := [{ prevout := ⟨(fundingTx 1).getHash, 0⟩ }]
  vout := [{ nValue := 100, scriptPubKey := [0x6a] }]

def chainBlock (parent : CBlock) (vtx : List CTransaction) : CBlock where
  nVersion := 9
  hashPrevBlock := parent.getHash
  vtx := vtx

def fundingBlock : CBlock :=
  chainBlock stakeGenesis [fundingTx 1]

def spendingBlock : CBlock :=
  chainBlock fundingBlock [idleTx 2, spendingTx]

def tipBlock : CBlock :=
  chainBlock spendingBlock [idleTx 3]

def spentChain : List CBlock :=
  [stakeGenesis, fundingBlock, spendingBlock, tipBlock]

@[irreducible]
def spentBlocks : Blocks :=
  let add (blocks : Blocks) (block : CBlock) :=
    blocks.addToBlockIndex ⟨block.getHash, block.hashPrevBlock, 1, Nat.one_pos⟩
  let address : Uint256 ↪ ℕ := ⟨BitVec.toNat, Uint256.toNat_injective⟩
  let blocks := spentChain.foldl add (.empty stakeGenesis.getHash address)
  { blocks with state := { blocks.state with chainActive := { vChain := spentChain.map (some ·.getHash) } } }

def spentStore : BlockStore where
  readBlockFromDisk b := spentChain.find? (·.getHash = b)
  nTime _ := 0
  getStakeModifierV2 _ := 0
  hash found := by simpa using find?_some found

def spentActive : ActiveChain where
  chainActive := { vChain := spentChain.map (some ·.getHash) }
  pcoinsTip := emptyView
  mempool _ := none
  fTxIndex := true
  readTxIndex h := if h = (fundingTx 1).getHash then some ⟨fundingBlock.getHash, 0⟩ else none
  newP2CSRules := false

def easyRules : HeaderRules where
  getNextWorkRequired _ _ := 0x207fffff
  getBlockProof _ := 1
  checkBlockTime _ _ := .ok ()
  checkpointAllows _ _ := true
  matchesCheckpoint _ _ := false
  lastCheckpoint := none
  nMaxReorgDepth := 100
  positive _ := Nat.one_pos

def stakerKey : Bytes :=
  2 :: List.replicate 32 0

def respendingBlock (parent : CBlock) : CBlock :=
  let coinbase : CTransaction := { vin := [{ prevout := .null, scriptSig := [0x53, 0] }], vout := [{ nValue := 0 }] }
  let coinstake : CTransaction := {
    vin := [{ prevout := ⟨(fundingTx 1).getHash, 0⟩ }]
    vout := [{ nValue := 0 }, { nValue := 100, scriptPubKey := 33 :: stakerKey ++ [0xac] }]
  }
  let block : CBlock := {
    nVersion := 10
    hashPrevBlock := parent.getHash
    hashMerkleRoot := (computeMerkleRoot [coinbase.getHash, coinstake.getHash]).1
    nBits := 0x207fffff
    vtx := [coinbase, coinstake]
  }
  { block with vchBlockSig := stakerKey ++ block.getHash.bytes }

def stores (blocks : Blocks) (chain : ActiveChain) (store : BlockStore) (block : CBlock) : Bool :=
  match acceptBlock (Node.start .regtest) easyRules 0 store chain blocks block with
  | .ok (_, stored) => stored
  | .error _ => false

theorem respendingBlock_stored : stores spentBlocks spentActive spentStore (respendingBlock spendingBlock) := by
  decide +kernel

theorem spentBlocks_eval :
    let tree := spentBlocks.index.toBlockTree
    let txs := connectedTxs tree spentStore
    CChain.IsPath tree spentBlocks.state.chainActive tipBlock.getHash ∧
      tree.pprev tipBlock.getHash = some spendingBlock.getHash ∧
      path tree.pprev tree.nHeight spendingBlock.getHash =
        [stakeGenesis.getHash, fundingBlock.getHash, spendingBlock.getHash] ∧
      txs stakeGenesis.getHash = [] ∧ txs fundingBlock.getHash = [fundingTx 1] ∧
      txs spendingBlock.getHash = [idleTx 2, spendingTx] ∧ txs tipBlock.getHash = [idleTx 3] := by
  unfold CChain.IsPath
  decide +kernel

theorem idleTx_applied (nType : Int16) (nHeight : ℕ) (vin : List CTxIn) (u : Utxo) :
    (idleTx nType).applied (Node.start .regtest) nHeight vin u = u.spend vin :=
  rfl

theorem spendingTx_applied (nHeight : ℕ) (vin : List CTxIn) (u : Utxo) :
    spendingTx.applied (Node.start .regtest) nHeight vin u = u.spend vin :=
  rfl

theorem fundingTx_applied (nHeight : ℕ) (u : Utxo) : ∃ c,
    (fundingTx 1).applied (Node.start .regtest) nHeight [] u = Function.update u ⟨(fundingTx 1).getHash, 0⟩ (some c) :=
  ⟨_, rfl⟩

theorem spending_leaves_nothing (nHeight nHeight' : ℕ) :
    let node := Node.start .regtest
    ledger node nHeight' inputsSpent
      (ledger node nHeight inputsSpent (fun _ => none) [fundingTx 1]) [idleTx 2, spendingTx] =
    fun _ => none := by
  have ⟨c, funded⟩ := fundingTx_applied nHeight fun _ => none
  have none₁ : (fundingTx 1).inputsSpent = [] := by decide
  have none₂ : (idleTx 2).inputsSpent = [] := by decide
  have spent : spendingTx.inputsSpent = [{ prevout := ⟨(fundingTx 1).getHash, 0⟩ }] := by decide
  simp only [ledger, foldl_cons, foldl_nil, none₁, none₂, spent, funded, idleTx_applied, spendingTx_applied,
    Utxo.spend, map_cons, map_nil, replay_cons, replay_nil, Function.update_idem]
  exact Function.update_eq_self (f := fun _ : COutPoint => (none : Option Coin)) _

theorem spendingBlock_utxo :
    chainUtxo (Node.start .regtest) spentBlocks.index.toBlockTree spentStore spendingBlock.getHash = fun _ => none := by
  obtain ⟨_, _, path, genesis, funding, spending, _⟩ := spentBlocks_eval
  simp only [chainUtxo, path, coinsAfter, foldl_cons, foldl_nil, genesis, funding, spending]
  exact spending_leaves_nothing _ _

theorem tipBlock_utxo :
    chainUtxo (Node.start .regtest) spentBlocks.index.toBlockTree spentStore tipBlock.getHash = fun _ => none := by
  have idle : (idleTx 3).inputsSpent = [] := by decide
  obtain ⟨_, parent, _, _, _, _, tip⟩ := spentBlocks_eval
  rw [chainUtxo_of_way (.cons parent .nil), spendingBlock_utxo]
  simp only [coinsAfter, foldl_cons, foldl_nil, tip, ledger, idle, idleTx_applied, Utxo.spend, map_nil,
    replay_nil]

theorem respendingBlock_accepted : ∃ blocks',
    acceptBlock (Node.start .regtest) easyRules 0 spentStore spentActive spentBlocks (respendingBlock spendingBlock) =
      .ok (blocks', true) := by
  have stored := respendingBlock_stored
  unfold stores at stored
  split at stored
  case h_1 blocks' _ eq => exact ⟨blocks', stored ▸ eq⟩
  case h_2 => cases stored

theorem acceptBlock_stores_respending :
    let block := respendingBlock spendingBlock
    let tree := spentBlocks.index.toBlockTree
    CChain.IsPath tree spentBlocks.state.chainActive tipBlock.getHash ∧
      spentActive.pcoinsTip.utxo = chainUtxo (Node.start .regtest) tree spentStore tipBlock.getHash ∧
      block.isProofOfStake ∧
      (∃ blocks', acceptBlock (Node.start .regtest) easyRules 0 spentStore spentActive spentBlocks block =
        .ok (blocks', true)) ∧
      ∃ txin ∈ (coinStakeTx block).vin,
        chainUtxo (Node.start .regtest) tree spentStore block.hashPrevBlock txin.prevout = none :=
  ⟨spentBlocks_eval.left, tipBlock_utxo.symm, by decide, respendingBlock_accepted, _, mem_singleton_self _,
    congrFun spendingBlock_utxo _⟩

theorem acceptBlock_stake_gone_before :
    let tree := spentBlocks.index.toBlockTree
    tipBlock.getHash ≠ spendingBlock.getHash ∧
      ¬∃ f bs, tree.Meet tipBlock.getHash spendingBlock.getHash f ∧ Way tree.pprev f bs spendingBlock.getHash ∧
        ∀ txin ∈ (coinStakeTx (respendingBlock spendingBlock)).vin,
          sideCoins (Node.start .regtest) tree spentStore f bs txin.prevout ≠ none := by
  have ⟨_, stored⟩ := respendingBlock_accepted
  have coins : spentActive.pcoinsTip.utxo = _ := tipBlock_utxo.symm
  have unspent := (acceptBlock_stake_unspent_iff (by decide) spentBlocks_eval.left coins stored).mpr
  have gone := congrFun spendingBlock_utxo
  exact ⟨fun tip => unspent (.inl tip) _ (mem_singleton_self _) (gone _),
    fun side => unspent (.inr side) _ (mem_singleton_self _) (gone _)⟩

end

end Qrax
