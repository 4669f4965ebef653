import Qrax.Coins.Theorems.Reads
import Qrax.Validation.ReceiveBlock
import Qrax.Validation.Stake

open Fallible Forest List Option

namespace Qrax

section

variable [Crypto]

section

variable (tree : BlockTree) (store : BlockStore) (chain : ActiveChain)

def BlockStore.Holds (b : Uint256) (tx : CTransaction) : Prop :=
  ∃ block, store.readBlockFromDisk b = some block ∧ tx ∈ block.vtx

def BlockStore.Distinct : Prop :=
  ∀ {b b' tx tx'}, store.Holds b tx → store.Holds b' tx' → tx.getHash = tx'.getHash → tx = tx'

-- The last block of the chain up to `t` with a transaction of that id.
structure LastHolder (t hash b : Uint256) (tx : CTransaction) : Prop where
  anc : Anc tree.pprev b t
  holds : store.Holds b tx
  id : tx.getHash = hash
  last : ∀ {b' tx'}, Anc tree.pprev b' t → store.Holds b' tx' → tx'.getHash = hash → Anc tree.pprev b' b

namespace ActiveChain

-- The transaction index, the coins and the pool agree with the active chain, ending in `t`. The genesis block is not
-- indexed.
structure InStep (t : Uint256) : Prop where
  path : CChain.IsPath tree chain.chainActive t
  known : t ∈ tree.mapBlockIndex
  null : 0 ∉ tree.mapBlockIndex
  pool : ∀ {hash b tx}, chain.mempool hash ≠ none → Anc tree.pprev b t → store.Holds b tx → tx.getHash ≠ hash
  indexed : chain.fTxIndex → ∀ {hash b tx}, LastHolder tree store t hash b tx → tree.pprev b ≠ none →
    ∃ nTx, chain.readTxIndex hash = some ⟨b, nTx⟩
  placed : chain.fTxIndex → ∀ {hash postx}, chain.readTxIndex hash = some postx → Anc tree.pprev postx.block t →
    tree.pprev postx.block ≠ none ∧ ∃ block tx, store.readBlockFromDisk postx.block = some block ∧
      block.vtx[postx.nTx]? = some tx ∧ LastHolder tree store t hash postx.block tx
  coins : ∀ {o c}, chain.pcoinsTip.utxo o = some c → ∃ b tx, LastHolder tree store t o.hash b tx ∧
    tree.nHeight b = c.nHeight

def Finds (hash b : Uint256) : Prop :=
  if chain.fTxIndex then tree.pprev b ≠ none
  else ∃ n < MAX_OUTPUTS_PER_BLOCK, chain.pcoinsTip.utxo { hash, n := UInt32.ofNat n } ≠ none

structure Stakes (t : Uint256) (block : CBlock) (pindexPrev b : Uint256) (tx : CTransaction) (out : CTxOut) :
    Prop where
  holder : LastHolder tree store t (stakeTxIn block).prevout.hash b tx
  finds : chain.Finds tree (stakeTxIn block).prevout.hash b
  output : tx.vout[(stakeTxIn block).prevout.n.toNat]? = some out
  kernel : checkKernelHash store pindexPrev ⟨out, (stakeTxIn block).prevout, b⟩ block.nBits block.nTime
  script : verifyStakeScript chain.newP2CSRules block out = .ok ()

end ActiveChain

end

variable {tree : BlockTree} {store : BlockStore} {chain : ActiveChain} {t hash b : Uint256} {tx : CTransaction}

variable {v : CCoinsViewCache} {n limit : ℕ}

omit [Crypto] in
theorem utxo_of_peek (o : COutPoint) : v.utxo o = ((v.view.peek o).getD {}).unspent := by
  rw [CCoinsViewCache.utxo, CCoinsView.utxo]
  cases v.view.peek o <;> rfl

theorem accessByTxidFrom_spec :
    ((accessByTxidFrom hash v n limit).1.isSpent = false → ∃ i, i < n + limit ∧
      v.utxo { hash, n := UInt32.ofNat i } = some (accessByTxidFrom hash v n limit).1) ∧
    ((accessByTxidFrom hash v n limit).1.isSpent → ∀ i, n ≤ i → i < n + limit →
      v.utxo { hash, n := UInt32.ofNat i } = none) := by
  induction limit generalizing v n
  case zero => exact ⟨nofun, fun _ i le lt => absurd le (by omega)⟩
  case succ limit ih =>
    have ⟨v₁, eq, fetched⟩ := v.accessCoin_eq { hash, n := UInt32.ofNat n }
    have same (o : COutPoint) : v₁.utxo o = v.utxo o := congrFun fetched.utxo o
    have here := utxo_of_peek (v := v) { hash, n := UInt32.ofNat n }
    simp only [accessByTxidFrom, eq]
    split
    case isTrue unspent =>
      rw [Bool.not_eq_true'] at unspent
      refine ⟨fun _ => ⟨n, by omega, here.trans (Coin.unspent_of_not_spent unspent)⟩, fun spent => ?_⟩
      exact absurd spent (Bool.eq_false_iff.mp unspent)
    case isFalse spent =>
      rw [Bool.not_eq_true', Bool.not_eq_false] at spent
      have ⟨found, later⟩ := ih (v := v₁) (n := n + 1)
      refine ⟨fun unspent => ?_, fun spent' i le lt => ?_⟩
      · have ⟨i, lt, eq⟩ := found unspent
        exact ⟨i, by omega, (same _).symm.trans eq⟩
      · obtain rfl | le := Nat.eq_or_lt_of_le le
        case inl => exact here.trans (Coin.unspent_of_spent spent)
        case inr => exact (same _).symm.trans (later spent' i le (by omega))

section

theorem LastHolder.eq {b' : Uint256} {tx' : CTransaction} (h : LastHolder tree store t hash b tx)
    (h' : LastHolder tree store t hash b' tx') : b = b' :=
  tree.graded.antisymm (h'.last h.anc h.holds h.id) (h.last h'.anc h'.holds h'.id)

variable (inStep : chain.InStep tree store t) (distinct : store.Distinct)
include inStep distinct

theorem getTransaction_found (found : getTransaction store chain hash = some (tx, b)) (known : b ∈ tree.mapBlockIndex)
    (active : Anc tree.pprev b t) : LastHolder tree store t hash b tx ∧ chain.Finds tree hash b := by
  unfold getTransaction at found
  unfold ActiveChain.Finds
  split at found
  case h_1 =>
    cases found
    exact absurd known inStep.null
  case h_2 =>
    split at found
    case isTrue indexed =>
      simp only [bind_eq_bind, bind_eq_some_iff, ite_none_left_eq_some] at found
      have ⟨postx, pos, block, disk, tx', entry, _, eq⟩ := found
      cases eq
      have here := store.hash disk
      rw [here] at active ⊢
      have ⟨child, block', tx', disk', entry', holder⟩ := inStep.placed indexed pos active
      cases disk.symm.trans disk'
      cases entry.symm.trans entry'
      exact ⟨holder, by rwa [if_pos indexed]⟩
    case isFalse slow =>
      simp only [bind_eq_bind] at found
      split at found
      case isFalse => cases found
      case isTrue unspent =>
        simp only [bind_eq_some_iff] at found
        have ⟨pindexSlow, place, block, disk, tx', first, eq⟩ := found
        cases eq
        rw [Bool.not_eq_true'] at unspent
        have ⟨i, lt, coin⟩ := accessByTxidFrom_spec.left unspent
        have ⟨b', tx', holder, level⟩ := inStep.coins coin
        have ⟨_, level'⟩ := inStep.path.at'_eq_some.mp place
        cases tree.graded.eq_of_height active holder.anc (level'.trans level.symm)
        have id : tx.getHash = hash := by simpa using find?_some first
        have holds : store.Holds b tx := ⟨block, disk, mem_of_find?_eq_some first⟩
        cases distinct holds holder.holds (id.trans holder.id.symm)
        refine ⟨holder, ?_⟩
        rw [if_neg slow]
        exact ⟨i, by omega, coin ▸ nofun⟩

theorem getTransaction_of_last (holder : LastHolder tree store t hash b tx) (finds : chain.Finds tree hash b) :
    getTransaction store chain hash = some (tx, b) := by
  have pool : chain.mempool hash = none := by
    by_contra present
    exact inStep.pool present holder.anc holder.holds holder.id
  have ⟨block, disk, mem⟩ := holder.holds
  unfold getTransaction
  unfold ActiveChain.Finds at finds
  rw [pool]
  by_cases indexed : chain.fTxIndex
  case pos =>
    rw [if_pos indexed] at finds
    have ⟨nTx, pos⟩ := inStep.indexed indexed holder finds
    have ⟨_, block', tx', disk', entry, holder'⟩ := inStep.placed indexed pos holder.anc
    cases disk.symm.trans disk'
    cases distinct holder.holds holder'.holds (holder.id.trans holder'.id.symm)
    simp [indexed, pos, disk, entry, holder.id, store.hash disk]
  case neg =>
    rw [if_neg indexed] at finds
    have ⟨n, lt, unspent⟩ := finds
    have unspent : (accessByTxid chain.pcoinsTip hash).1.isSpent = false :=
      Bool.eq_false_iff.mpr fun spent => unspent (accessByTxidFrom_spec.right spent n (Nat.zero_le n) (by omega))
    have ⟨i, _, coin⟩ := accessByTxidFrom_spec.left unspent
    have ⟨b', tx', holder', level⟩ := inStep.coins coin
    cases holder.eq holder'
    have place : chain.chainActive.at' (accessByTxid chain.pcoinsTip hash).1.nHeight = some b :=
      inStep.path.at'_eq_some.mpr ⟨holder.anc, level⟩
    have ⟨tx', first⟩ : ∃ tx', block.vtx.find? (·.getHash = hash) = some tx' := by
      rw [← isSome_iff_exists, find?_isSome]
      exact ⟨tx, mem, decide_eq_true holder.id⟩
    have id : tx'.getHash = hash := by simpa using find?_some first
    cases distinct ⟨block, disk, mem_of_find?_eq_some first⟩ holder.holds (id.trans holder.id.symm)
    simp [indexed, unspent, place, disk, first]

variable {stake : CNewStake} {block : CBlock} {pindexPrev : Uint256}

theorem newStake_eq_some_iff {txin : CTxIn} : newStake tree store chain txin = .ok (some stake) ↔
    ∃ b tx out, LastHolder tree store t txin.prevout.hash b tx ∧ chain.Finds tree txin.prevout.hash b ∧
      tx.vout[txin.prevout.n.toNat]? = some out ∧ stake = ⟨out, txin.prevout, b⟩ := by
  unfold newStake
  constructor
  case mp =>
    intro done
    split at done
    case h_1 => cases done
    case h_2 tx b found =>
      split at done
      case isFalse => cases done
      case isTrue at_ =>
        have active := inStep.path.contains_iff.mp at_.right
        have ⟨holder, finds⟩ := getTransaction_found inStep distinct found at_.left active
        split at done
        case h_1 => cases done
        case h_2 out entry => exact ⟨b, tx, out, holder, finds, entry, (Option.some.inj (Except.ok.inj done)).symm⟩
  case mpr =>
    rintro ⟨b, tx, out, holder, finds, entry, rfl⟩
    have known := tree.mem_of_anc holder.anc inStep.known
    simp only [getTransaction_of_last inStep distinct holder finds,
      if_pos (And.intro known (inStep.path.contains_iff.mpr holder.anc)), entry]

omit inStep distinct in
theorem loadStakeInput_eq_ok :
    loadStakeInput tree store chain block pindexPrev = .ok stake ↔ block.hashPrevBlock = pindexPrev ∧
      block.isProofOfStake ∧ newStake tree store chain (stakeTxIn block) = .ok (some stake) := by
  simp only [loadStakeInput, bind_eq_ok, failIf_eq_ok, exists_unit, not_not, Bool.not_eq_true', Bool.not_eq_false]
  refine and_congr_right fun _ => and_congr_right fun _ => ⟨fun ⟨r, done, eq⟩ => ?_, fun done => ⟨_, done, rfl⟩⟩
  cases r
  case none => cases eq
  case some _ => exact done.trans (congrArg _ (congrArg _ (Except.ok.inj eq)))

omit inStep distinct in
theorem checkProofOfStake_eq_ok :
    checkProofOfStake tree store chain block pindexPrev = .ok () ↔
      block.hashPrevBlock = pindexPrev ∧ block.isProofOfStake ∧
        ∃ stake, newStake tree store chain (stakeTxIn block) = .ok (some stake) ∧
          checkKernelHash store pindexPrev stake block.nBits block.nTime ∧
          verifyStakeScript chain.newP2CSRules block stake.outputFrom = .ok () := by
  unfold checkProofOfStake
  simp only [bind_eq_ok, failIf_eq_ok, loadStakeInput_eq_ok, exists_unit, mapError_eq_ok, Bool.not_eq_true',
    Bool.not_eq_false]
  constructor
  case mp => exact fun ⟨stake, ⟨parent, stakes, found⟩, kernel, script⟩ => ⟨parent, stakes, stake, found, kernel, script⟩
  case mpr => exact fun ⟨parent, stakes, stake, found, kernel, script⟩ => ⟨stake, ⟨parent, stakes, found⟩, kernel, script⟩

theorem checkProofOfStake_ok_iff :
    checkProofOfStake tree store chain block pindexPrev = .ok () ↔
      block.hashPrevBlock = pindexPrev ∧ block.isProofOfStake ∧
        ∃ b tx out, chain.Stakes tree store t block pindexPrev b tx out := by
  simp only [checkProofOfStake_eq_ok, newStake_eq_some_iff inStep distinct]
  refine and_congr_right fun _ => and_congr_right fun _ => ?_
  constructor
  case mp =>
    rintro ⟨stake, ⟨b, tx, out, holder, finds, entry, rfl⟩, kernel, script⟩
    exact ⟨b, tx, out, holder, finds, entry, kernel, script⟩
  case mpr =>
    rintro ⟨b, tx, out, holder, finds, entry, kernel, script⟩
    exact ⟨_, ⟨b, tx, out, holder, finds, entry, rfl⟩, kernel, script⟩

end

-- Two nodes with the same blocks agree just when the staked transaction lets the block pass on both chains or neither.
theorem checkProofOfStake_agrees_iff {chain₁ chain₂ : ActiveChain} {t₁ t₂ : Uint256} {block : CBlock}
    {pindexPrev : Uint256} (stakes : block.isProofOfStake) (distinct : store.Distinct)
    (inStep₁ : chain₁.InStep tree store t₁) (inStep₂ : chain₂.InStep tree store t₂) :
    (checkProofOfStake tree store chain₁ block pindexPrev).isOk =
        (checkProofOfStake tree store chain₂ block pindexPrev).isOk ↔
      (block.hashPrevBlock = pindexPrev →
        ((∃ b tx out, chain₁.Stakes tree store t₁ block pindexPrev b tx out) ↔
          ∃ b tx out, chain₂.Stakes tree store t₂ block pindexPrev b tx out)) := by
  have ok {x : Except Failure Unit} : x.isOk ↔ x = .ok () := isOk_iff.trans exists_unit
  rw [Bool.eq_iff_iff, ok, ok, checkProofOfStake_ok_iff inStep₁ distinct, checkProofOfStake_ok_iff inStep₂ distinct,
    and_congr_right_iff]
  refine forall_congr' fun _ => ?_
  rw [and_congr_right_iff]
  exact ⟨fun h => h stakes, fun h _ => h⟩

end

section

attribute [local instance] Crypto.toy

def fundingTx (nType : Int16) : CTransaction where
  nType := nType
  vin := [{ prevout := .null, scriptSig := [1, 1] }]
  vout := [{ nValue := 100, scriptPubKey := [0x51] }]

def stakeGenesis : CBlock where
  nVersion := 7

def branchBlock (nVersion : Int32) (nType : Int16) : CBlock where
  nVersion := nVersion
  hashPrevBlock := stakeGenesis.getHash
  vtx := [fundingTx nType]

def leftBlock : CBlock :=
  branchBlock 1 1

def rightBlock : CBlock :=
  branchBlock 2 2

@[irreducible]
def branchTree : BlockTree :=
  let add (blocks : Blocks) (block : CBlock) :=
    blocks.addToBlockIndex ⟨block.getHash, block.hashPrevBlock, 1, Nat.one_pos⟩
  let address : Uint256 ↪ ℕ := ⟨BitVec.toNat, Uint256.toNat_injective⟩
  (add (add (add (.empty stakeGenesis.getHash address) stakeGenesis) leftBlock) rightBlock).index.toBlockTree

def branchStore : BlockStore where
  readBlockFromDisk b := [stakeGenesis, leftBlock, rightBlock].find? (·.getHash = b)
  nTime _ := 0
  getStakeModifierV2 _ := 0
  hash found := by simpa using find?_some found

def branchChain (block : CBlock) (tx : CTransaction) : ActiveChain where
  chainActive := { vChain := [some stakeGenesis.getHash, some block.getHash] }
  pcoinsTip := { base := .db { coins := AList.insert ⟨tx.getHash, 0⟩ { out := tx.vout.headD {}, nHeight := 1 } ∅ } }
  mempool _ := none
  fTxIndex := true
  readTxIndex h := if h = tx.getHash then some ⟨block.getHash, 0⟩ else none
  newP2CSRules := false

def stakingBlock : CBlock where
  nVersion := 1
  hashPrevBlock := leftBlock.getHash
  nBits := 0x207fffff
  vtx := [fundingTx 3, {
    vin := [{ prevout := ⟨(fundingTx 1).getHash, 0⟩ }]
    vout := [{ nValue := 0 }, { nValue := 100, scriptPubKey := [0x51] }]
  }]

theorem branchTree_eval : branchTree.pprev stakeGenesis.getHash = none ∧ 0 ∉ branchTree.mapBlockIndex ∧
    (branchTree.pprev leftBlock.getHash = some stakeGenesis.getHash ∧
      CChain.IsPath branchTree (branchChain leftBlock (fundingTx 1)).chainActive leftBlock.getHash) ∧
    branchTree.pprev rightBlock.getHash = some stakeGenesis.getHash ∧
      CChain.IsPath branchTree (branchChain rightBlock (fundingTx 2)).chainActive rightBlock.getHash := by
  unfold CChain.IsPath
  decide +kernel

theorem branchChain_inStep (block : CBlock) (tx : CTransaction)
    (parent : branchTree.pprev block.getHash = some stakeGenesis.getHash)
    (path : CChain.IsPath branchTree (branchChain block tx).chainActive block.getHash)
    (disk : branchStore.readBlockFromDisk block.getHash = some block) (vtx : block.vtx = [tx]) :
    (branchChain block tx).InStep branchTree branchStore block.getHash := by
  have ⟨root, null, _⟩ := branchTree_eval
  have holder : LastHolder branchTree branchStore block.getHash tx.getHash block.getHash tx :=
    ⟨.refl, ⟨block, disk, vtx ▸ mem_singleton_self tx⟩, rfl, fun anc _ _ => anc⟩
  constructor
  case path => exact path
  case known => exact (branchTree.closed parent).left
  case null => exact null
  case pool => exact fun present => absurd rfl present
  case indexed =>
    intro _ hash b tx' last child
    obtain rfl | anc := (Anc.iff_of_child parent).mp last.anc
    case inl =>
      have ⟨block', disk', mem⟩ := last.holds
      cases disk.symm.trans disk'
      rw [vtx, mem_singleton] at mem
      exact ⟨0, if_pos (last.id.symm.trans (congrArg _ mem))⟩
    case inr => exact absurd ((Anc.iff_of_root root).mp anc ▸ root) child
  case placed =>
    intro _ hash postx pos _
    have ⟨id, at_⟩ := ite_none_right_eq_some.mp pos
    have at_ := Option.some.inj at_
    subst at_
    exact ⟨parent ▸ nofun, block, tx, disk, vtx ▸ rfl, id ▸ holder⟩
  case coins =>
    intro o c coin
    have ⟨at_, here⟩ := CCoinsViewCache.utxo_singleCoin coin
    subst at_ here
    exact ⟨block.getHash, tx, holder, branchTree.graded.child parent ▸ by rw [branchTree.graded.root root]⟩

theorem branchStore_distinct : branchStore.Distinct := by
  have held {b : Uint256} {tx : CTransaction} (holds : branchStore.Holds b tx) : tx ∈ [fundingTx 1, fundingTx 2] := by
    have ⟨block, disk, mem⟩ := holds
    have all : ([stakeGenesis, leftBlock, rightBlock].flatMap (·.vtx)) = [fundingTx 1, fundingTx 2] := rfl
    rw [← all]
    have disk : [stakeGenesis, leftBlock, rightBlock].find? (·.getHash = b) = some block := disk
    exact mem_flatMap.mpr ⟨block, mem_of_find?_eq_some disk, mem⟩
  have inj : ∀ tx ∈ [fundingTx 1, fundingTx 2], ∀ tx' ∈ [fundingTx 1, fundingTx 2],
      tx.getHash = tx'.getHash → tx = tx' := by
    decide
  exact fun {_ _ _ _} h h' => inj _ (held h) _ (held h')

theorem stakingBlock_verdicts : stakingBlock.isProofOfStake ∧
    checkProofOfStake branchTree branchStore (branchChain leftBlock (fundingTx 1)) stakingBlock leftBlock.getHash =
      .ok () ∧
    checkProofOfStake branchTree branchStore (branchChain rightBlock (fundingTx 2)) stakingBlock leftBlock.getHash =
      .error (.error "stake input initialization failed") := by
  decide +kernel

theorem leftChain_inStep :
    (branchChain leftBlock (fundingTx 1)).InStep branchTree branchStore leftBlock.getHash :=
  have ⟨_, _, ⟨parent, path⟩, _⟩ := branchTree_eval
  branchChain_inStep leftBlock (fundingTx 1) parent path (by decide) rfl

theorem rightChain_inStep :
    (branchChain rightBlock (fundingTx 2)).InStep branchTree branchStore rightBlock.getHash :=
  have ⟨_, _, _, parent, path⟩ := branchTree_eval
  branchChain_inStep rightBlock (fundingTx 2) parent path (by decide) rfl

theorem checkProofOfStake_differs :
    (branchChain leftBlock (fundingTx 1)).InStep branchTree branchStore leftBlock.getHash ∧
      (branchChain rightBlock (fundingTx 2)).InStep branchTree branchStore rightBlock.getHash ∧
      (checkProofOfStake branchTree branchStore (branchChain leftBlock (fundingTx 1)) stakingBlock
        leftBlock.getHash).isOk ≠
      (checkProofOfStake branchTree branchStore (branchChain rightBlock (fundingTx 2)) stakingBlock
        leftBlock.getHash).isOk := by
  refine ⟨leftChain_inStep, rightChain_inStep, ?_⟩
  rw [stakingBlock_verdicts.right.left, stakingBlock_verdicts.right.right]
  nofun

theorem checkProofOfStake_agrees_branches :
    ¬((∃ b tx out, (branchChain leftBlock (fundingTx 1)).Stakes branchTree branchStore leftBlock.getHash stakingBlock
        leftBlock.getHash b tx out) ↔
      ∃ b tx out, (branchChain rightBlock (fundingTx 2)).Stakes branchTree branchStore rightBlock.getHash stakingBlock
        leftBlock.getHash b tx out) := by
  have ⟨stakes, left, right⟩ := stakingBlock_verdicts
  intro agree
  have same := (checkProofOfStake_agrees_iff stakes branchStore_distinct leftChain_inStep rightChain_inStep).mpr
    fun _ => agree
  rw [left, right] at same
  cases same

end

end Qrax
