import Qrax.Chain.Theorems.Chain
import Qrax.Validation.ChainState

open Forest List Function

namespace Qrax

-- What `AddToBlockIndex` reads of a block. `proof` is `GetBlockProof`, not zero after `CheckWork`.
structure BlockHeader where
  hash : Uint256
  hashPrevBlock : Uint256
  proof : ℕ
  positive : 0 < proof

namespace BlockTree

variable (tree : BlockTree) {hash a b p : Uint256}

theorem pprev_of_not_mem (new : hash ∉ tree.mapBlockIndex) : tree.pprev hash = none := by
  cases eq : tree.pprev hash
  case none => rfl
  case some p => exact absurd (tree.closed eq).left new

theorem ne_of_pprev (new : hash ∉ tree.mapBlockIndex) (eq : tree.pprev b = some p) : b ≠ hash ∧ p ≠ hash :=
  ⟨fun h => new (h ▸ (tree.closed eq).left), fun h => new (h ▸ (tree.closed eq).right)⟩

theorem anc_update {prev : Option Uint256} (new : hash ∉ tree.mapBlockIndex) (anc : Anc tree.pprev a b) :
    Anc (update tree.pprev hash prev) a b := by
  induction anc
  case refl => exact .refl
  case step eq _ ih => exact .step (by rw [update_of_ne (tree.ne_of_pprev new eq).left, eq]) ih

def insert (hash : Uint256) (prev : Option Uint256) (proof : ℕ) (new : hash ∉ tree.mapBlockIndex)
    (known : ∀ p ∈ prev, p ∈ tree.mapBlockIndex) (positive : 0 < proof) : BlockTree where
  mapBlockIndex := tree.mapBlockIndex ++ [hash]
  pprev := Function.update tree.pprev hash prev
  pskip := Function.update tree.pskip hash <|
    prev.bind fun p => tree.getAncestor p (getSkipHeight (tree.nHeight p + 1))
  nHeight := Function.update tree.nHeight hash (prev.elim 0 (tree.nHeight · + 1))
  nChainWork := Function.update tree.nChainWork hash (prev.elim 0 tree.nChainWork + proof)
  nodup := by
    rw [nodup_append]
    exact ⟨tree.nodup, nodup_cons.mpr ⟨not_mem_nil, nodup_nil⟩, fun a mem b here eq => new (mem_singleton.mp here ▸ eq ▸ mem)⟩
  graded := by
    constructor
    case root =>
      intro b root
      by_cases at_ : b = hash
      case pos =>
        subst at_
        rw [update_self] at root ⊢
        rw [root]
        rfl
      case neg =>
        rw [update_of_ne at_] at root ⊢
        exact tree.graded.root root
    case child =>
      intro b p child
      by_cases at_ : b = hash
      case pos =>
        subst at_
        rw [update_self] at child ⊢
        have ne : p ≠ b := fun h => new (h ▸ known p child)
        rw [update_of_ne ne, child]
        rfl
      case neg =>
        rw [update_of_ne at_] at child ⊢
        rw [update_of_ne (tree.ne_of_pprev new child).right]
        exact tree.graded.child child
  closed := by
    intro b p child
    by_cases at_ : b = hash
    case pos =>
      subst at_
      rw [update_self] at child
      exact ⟨mem_append_right _ (mem_singleton_self _), mem_append_left _ (known p child)⟩
    case neg =>
      rw [update_of_ne at_] at child
      exact ⟨mem_append_left _ (tree.closed child).left, mem_append_left _ (tree.closed child).right⟩
  works := by
    intro b p child
    by_cases at_ : b = hash
    case pos =>
      subst at_
      rw [update_self] at child ⊢
      have ne : p ≠ b := fun h => new (h ▸ known p child)
      rw [update_of_ne ne, child]
      exact Nat.lt_add_of_pos_right positive
    case neg =>
      rw [update_of_ne at_] at child ⊢
      rw [update_of_ne (tree.ne_of_pprev new child).right]
      exact tree.works child
  skips := by
    intro b p child
    by_cases at_ : b = hash
    case pos =>
      subst at_
      rw [update_self] at child
      have below : getSkipHeight (tree.nHeight p + 1) ≤ tree.nHeight p :=
        Nat.le_of_lt_succ (getSkipHeight_lt (Nat.succ_pos _))
      have ⟨a, skip, anc, level⟩ := getAncestor_of_le below
      have ne : a ≠ b := fun h => new (h ▸ tree.mem_of_anc anc (known p child))
      refine ⟨a, ?_, .step (by rw [update_self, child]) (tree.anc_update new anc), ?_⟩
      · rw [update_self, child]
        exact skip
      · rw [update_self, update_of_ne ne, level, child]
        rfl
    case neg =>
      rw [update_of_ne at_] at child
      have ⟨a, skip, anc, level⟩ := tree.skips child
      have ne : a ≠ hash := fun h => new (h ▸ tree.mem_of_anc anc (tree.closed child).left)
      refine ⟨a, by rw [update_of_ne at_, skip], tree.anc_update new anc, ?_⟩
      rw [update_of_ne ne, update_of_ne at_, level]

end BlockTree

-- The block index with the chain state. The counter is the next `nSequenceId`.
structure Blocks where
  index : BlockIndex
  state : ChainState := {}
  nBlockSequenceId : ℕ := 1

namespace Blocks

def empty (hashGenesisBlock : Uint256) (address : Uint256 ↪ ℕ) : Blocks where
  index := {
    mapBlockIndex := []
    pprev _ := none
    pskip _ := none
    nHeight _ := 0
    nChainWork _ := 0
    nodup := nodup_nil
    graded := ⟨fun _ => rfl, nofun⟩
    closed := nofun
    works := nofun
    skips := nofun
    hashGenesisBlock
    address
  }

variable (blocks : Blocks)

def addToBlockIndex (header : BlockHeader) : Blocks :=
  if new : header.hash ∉ blocks.index.mapBlockIndex then
    let prev := if header.hashPrevBlock ∈ blocks.index.mapBlockIndex then some header.hashPrevBlock else none
    have known : ∀ p ∈ prev, p ∈ blocks.index.mapBlockIndex := by
      intro p mem
      simp only [prev] at mem
      split at mem
      case isTrue found => exact Option.some.inj mem ▸ found
      case isFalse => cases mem
    { blocks with
      index := { blocks.index with
        toBlockTree := blocks.index.insert header.hash prev header.proof new known header.positive
        haveData := Function.update blocks.index.haveData header.hash false
        nTx := Function.update blocks.index.nTx header.hash 0
        nChainTx := Function.update blocks.index.nChainTx header.hash 0
        nSequenceId := Function.update blocks.index.nSequenceId header.hash 0 }
      state := blocks.state.setStatus header.hash (({} : BlockStatus).raiseValidity .TREE) }
  else blocks

def link (pindex : Uint256) : Blocks :=
  let nChainTx := (blocks.index.pprev pindex).elim 0 blocks.index.nChainTx + blocks.index.nTx pindex
  let index := { blocks.index with
    nChainTx := Function.update blocks.index.nChainTx pindex nChainTx
    nSequenceId := Function.update blocks.index.nSequenceId pindex blocks.nBlockSequenceId }
  { index
    nBlockSequenceId := blocks.nBlockSequenceId + 1
    state :=
      if ¬blocks.state.worseThanTip index pindex then blocks.state.insertCandidate pindex else blocks.state }

def unlinkedChildren (pindex : Uint256) : List Uint256 :=
  (blocks.state.mapBlocksUnlinked.filter (·.1 = some pindex)).map (·.2)

def dropUnlinked (pindex : Uint256) : Blocks :=
  { blocks with state := { blocks.state with
      mapBlocksUnlinked := blocks.state.mapBlocksUnlinked.filter (·.1 ≠ some pindex) } }

def linkQueue : ℕ → List Uint256 → Blocks → Blocks
  | n + 1, pindex :: queue, blocks =>
    linkQueue n (queue ++ blocks.unlinkedChildren pindex) ((blocks.link pindex).dropUnlinked pindex)
  | _, _, blocks => blocks

-- `nTx` counts the block's transactions. What enters the queue leaves `mapBlocksUnlinked`.
def receivedBlockTransactions (nTx : ℕ) (pindexNew : Uint256) : Blocks :=
  let blocks := { blocks with
    index := { blocks.index with
      haveData := Function.update blocks.index.haveData pindexNew true
      nTx := Function.update blocks.index.nTx pindexNew nTx
      nChainTx := Function.update blocks.index.nChainTx pindexNew 0 }
    state := blocks.state.setStatus pindexNew ((blocks.state.nStatus pindexNew).raiseValidity .TRANSACTIONS) }
  match blocks.index.pprev pindexNew with
  | none => linkQueue (blocks.state.mapBlocksUnlinked.length + 1) [pindexNew] blocks
  | some pprev =>
    if blocks.index.nChainTx pprev ≠ 0 then
      linkQueue (blocks.state.mapBlocksUnlinked.length + 1) [pindexNew] blocks
    else if (blocks.state.nStatus pprev).isValid .TREE then
      { blocks with state := { blocks.state with
          mapBlocksUnlinked := blocks.state.mapBlocksUnlinked ++ [(some pprev, pindexNew)] } }
    else blocks

end Blocks

end Qrax
