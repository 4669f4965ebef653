import Qrax.Validation.Theorems.InvalidateBlock

open Fallible Forest List

namespace Qrax

open ChainState BlockStatus

namespace Blocks

variable {connectBlock : Uint256 → Bool} {blocks blocks' : Blocks} {t b : Uint256}

def loaded (genesis : BlockHeader) (address : Uint256 ↪ ℕ) (nTx : ℕ) : Blocks :=
  ((Blocks.empty genesis.hash address).addToBlockIndex genesis).receivedBlockTransactions nTx genesis.hash

structure Loaded (blocks : Blocks) (g : Uint256) : Prop where
  hashGenesisBlock : blocks.index.hashGenesisBlock = g
  mapBlockIndex : blocks.index.mapBlockIndex = [g]
  pprev : ∀ b, blocks.index.pprev b = none
  haveData : blocks.index.haveData g
  nTx : 0 < blocks.index.nTx g
  nChainTx : blocks.index.nChainTx g ≠ 0
  nStatus : blocks.state.nStatus g = { validity := .TRANSACTIONS }
  candidates : blocks.state.setBlockIndexCandidates = [g]
  unlinked : blocks.state.mapBlocksUnlinked = []
  chainActive : blocks.state.chainActive = {}

theorem loaded_loaded (genesis : BlockHeader) (address : Uint256 ↪ ℕ) {nTx : ℕ} (nonempty : 0 < nTx) :
    (loaded genesis address nTx).Loaded genesis.hash := by
  constructor
  all_goals
    simp [loaded, addToBlockIndex, Blocks.empty, BlockTree.insert, receivedBlockTransactions, linkQueue, link,
      dropUnlinked, worseThanTip, CChain.tip, insertCandidate, setStatus, raiseValidity,
      failed, reached, BlockValidity.toNat, unlinkedChildren, nonempty, nonempty.ne']

namespace Loaded

variable {g : Uint256} (h : blocks.Loaded g)
include h

theorem findMostWorkChain : blocks.state.findMostWorkChain blocks.index = .ok (some g, blocks.state) := by
  have usable : blocks.state.firstUnusable blocks.index (blocks.index.nHeight g + 1) (some g) = .ok none := by
    simp [firstUnusable, CChain.contains, CChain.at', h.chainActive, failIf_of_not, h.nChainTx, h.nStatus,
      failed, h.haveData, h.pprev]
  simp [ChainState.findMostWorkChain, mostWorkLoop, h.candidates, BlockIndex.greatest, usable]

theorem height : blocks.index.nHeight g = 0 :=
  blocks.index.graded.root (h.pprev g)

theorem tip : blocks.state.chainActive.tip = none := by
  rw [h.chainActive]
  rfl

theorem setTip : blocks.state.chainActive.setTip blocks.index.toBlockTree (some g) = { vChain := [some g] } := by
  simp [h.chainActive, CChain.setTip, h.height, takeD, CChain.fill]

theorem connectTip {r : ChainState × Bool} (done : blocks.state.connectTip blocks.index connectBlock g = .ok r) :
    connectBlock g ∧ r = ({ blocks.state with chainActive := { vChain := [some g] } }, true) := by
  rw [ChainState.connectTip, failIf_of_not (by rw [h.tip, h.pprev]; exact fun h => h rfl), ok_bind] at done
  split at done
  case isTrue valid =>
    simp only [if_pos h.hashGenesisBlock.symm, h.setTip] at done
    exact ⟨valid, (Except.ok.inj done).symm⟩
  case isFalse =>
    have tip : ((blocks.state.markFailedValid g).eraseCandidate g).chainActive.tip = none := h.tip
    simp [invalidBlockFound, invalidChainFound, tip, failIf] at done

theorem pruneBlockIndexCandidates :
    let s := { blocks.state with chainActive := { vChain := [some g] } }
    s.pruneBlockIndexCandidates blocks.index = .ok s := by
  simp [ChainState.pruneBlockIndexCandidates, h.candidates, worseThanTip, CChain.tip, BlockIndex.workComparator,
    failIf]

theorem activateBestChainStep {step : Step}
    (done : blocks.state.activateBestChainStep blocks.index connectBlock g = .ok step) :
    connectBlock g ∧
      step = { state := { blocks.state with chainActive := { vChain := [some g] } }, fContinue := false } := by
  have ancestor : blocks.index.getAncestor g 0 = some g := BlockTree.getAncestor_eq_some.mpr ⟨.refl, h.height⟩
  have fork : blocks.state.chainActive.findFork blocks.index.toBlockTree g = none := by
    rw [h.chainActive]
    simp [CChain.findFork, CChain.lastContained]
  have chain : blocks.state.chainActive.vChain = [] := by rw [h.chainActive]
  simp [ChainState.activateBestChainStep, fork, chain, h.tip, disconnectTo, h.height, connectTowards, ancestor,
    blocksToConnect, connectBlocks] at done
  obtain ⟨x, connected, rest⟩ := bind_eq_ok.mp done
  obtain ⟨valid, eq⟩ := h.connectTip connected
  subst eq
  simp [h.pruneBlockIndexCandidates] at rest
  exact ⟨valid, rest.symm⟩

theorem activateBestChain {shutdownRequested : ℕ → Bool} {n : ℕ} {a : Activation}
    (done : blocks.state.activateBestChain blocks.index connectBlock shutdownRequested n = .ok (some a)) :
    connectBlock g ∧ a.state = { blocks.state with chainActive := { vChain := [some g] } } := by
  rcases n with _ | _ | n
  case zero => cases done
  case succ.zero => cases done
  case succ.succ =>
    rw [ChainState.activateBestChain, activateRounds, connectRounds, Activation.choose, h.findMostWorkChain] at done
    simp [h.tip] at done
    obtain ⟨x, stepped, rest⟩ := bind_eq_ok.mp done
    obtain ⟨valid, eq⟩ := h.activateBestChainStep stepped
    subst eq
    simp [CChain.tip] at rest
    exact ⟨valid, rest ▸ rfl⟩

theorem kept (valid : connectBlock g) :
    Kept connectBlock { blocks with state := { blocks.state with chainActive := { vChain := [some g] } } } g := by
  obtain ⟨hashGenesisBlock, mapBlockIndex, pprev, haveData, nTx, nChainTx, nStatus, candidates, unlinked, _⟩ := h
  have known {b : Uint256} : b ∈ blocks.index.mapBlockIndex ↔ b = g := by rw [mapBlockIndex, mem_singleton]
  have anc {a b : Uint256} : Anc blocks.index.pprev a b ↔ a = b := Anc.iff_of_root (pprev b)
  have linked : blocks.index.Linked g := fun a above => anc.mp above ▸ haveData
  refine Linking.kept ?_
  constructor
  case standing =>
    constructor
    case path => exact congrArg (map some) (blocks.index.graded.path_of_root (pprev g)).symm
    case known => exact known.mpr rfl
    case candidates => exact fun c mem => known.mpr (mem_singleton.mp (candidates ▸ mem))
    case data => exact linked
    case failed =>
      intro a above
      rw [anc.mp above, nStatus]
      rfl
    case scripts => exact fun a _ child => absurd (pprev a) child
  case marked =>
    have high {b : Uint256} (mem : b ∈ blocks.index.mapBlockIndex) (v : BlockValidity) :
        (blocks.state.nStatus b).reached v ↔ v.toNat ≤ BlockValidity.TRANSACTIONS.toNat := by
      rw [known.mp mem, nStatus]
      exact decide_eq_true_iff
    constructor
    case data => exact fun b mem => iff_of_true ((high mem _).mpr (le_refl _)) (known.mp mem ▸ nTx)
    case tree => exact fun b mem child => absurd (pprev b) child
    case chain => exact fun b mem _ a _ child => absurd (pprev a) child
    case scripts => exact fun b mem _ a _ child => absurd (pprev a) child
    case failed =>
      intro b mem _
      rw [known.mp mem, nStatus]
      rfl
  case valid => exact fun a above => anc.mp above ▸ valid
  case unlinked =>
    constructor
    case mem_iff =>
      intro p b
      rw [unlinked]
      refine iff_of_false not_mem_nil ?_
      rintro ⟨_, q, _, up, _⟩
      cases (pprev b).symm.trans up
    case nodup => exact unlinked ▸ nodup_nil
  case genesis => exact ⟨known.mpr hashGenesisBlock, pprev _⟩
  case single => exact fun b mem _ => (known.mp mem).trans hashGenesisBlock.symm
  case data =>
    intro b mem
    rw [known.mp mem, haveData]
    exact iff_of_false (by rintro ⟨⟩) nTx.ne'
  case sequence => exact fun b mem zero => absurd (known.mp mem ▸ zero) nChainTx
  case linked =>
    intro b mem
    rw [known.mp mem]
    exact iff_of_true nChainTx ⟨linked, by simp⟩
  case tip => exact nChainTx
  case candidates =>
    intro c mem
    have mem : c ∈ [g] := candidates ▸ mem
    rw [mem_singleton.mp mem]
    exact ⟨nChainTx, le_refl _⟩
  case complete =>
    intro c mem _ _ _
    rw [known.mp mem, candidates]
    exact mem_singleton_self g
  case queued => simp
  case nodup => exact nodup_nil

end Loaded

-- A completing call of one of the four functions, as `ProcessNewBlock` and the RPC make it.
inductive Call (connectBlock : Uint256 → Bool) : Blocks → Blocks → Prop
  | add {blocks header} : header.hashPrevBlock ∈ blocks.index.mapBlockIndex →
    Call connectBlock blocks (blocks.addToBlockIndex header)
  | receive {blocks nTx pindexNew p} : blocks.Expected nTx pindexNew p →
    Call connectBlock blocks (blocks.receivedBlockTransactions nTx pindexNew)
  | invalidate {blocks pindex s} : blocks.state.invalidateBlock blocks.index pindex = .ok s →
    Call connectBlock blocks { blocks with state := s }
  | activate {blocks shutdownRequested n a} :
    blocks.state.activateBestChain blocks.index connectBlock shutdownRequested n = .ok (some a) →
    Call connectBlock blocks { blocks with state := a.state }

-- The genesis block was loaded and connected.
inductive Fresh (connectBlock : Uint256 → Bool) : Blocks → Prop
  | connected {genesis address nTx shutdownRequested n a} : 0 < nTx →
    (loaded genesis address nTx).state.activateBestChain (loaded genesis address nTx).index connectBlock
      shutdownRequested n = .ok (some a) →
    Fresh connectBlock { loaded genesis address nTx with state := a.state }

theorem Fresh.kept (fresh : Fresh connectBlock blocks) : ∃ t, Kept connectBlock blocks t := by
  cases fresh
  case connected genesis address nTx _ _ a nonempty done =>
    have loaded := loaded_loaded genesis address nonempty
    have ⟨valid, eq⟩ := loaded.activateBestChain done
    exact ⟨genesis.hash, eq ▸ loaded.kept valid⟩

theorem Call.kept (call : Call connectBlock blocks blocks') (h : Kept connectBlock blocks t) :
    ∃ t', Kept connectBlock blocks' t' := by
  cases call
  case add known => exact ⟨t, h.addToBlockIndex known⟩
  case receive expected => exact ⟨t, h.receivedBlockTransactions expected⟩
  case invalidate done => exact h.invalidateBlock done
  case activate shutdownRequested n a done =>
    have active := h.standing.active h.checked h.valid
    obtain ⟨out, _⟩ | ⟨a', t', done', changed, _⟩ :=
      activateBestChain_ends shutdownRequested n h.checked.filed active
    case inl => exact absurd (done.symm.trans out) nofun
    case inr =>
      cases done.symm.trans done'
      have active' : Active blocks.index connectBlock a.state t' := changed.moves.active active
      have worn : Worn connectBlock blocks.state a.state := changed.moves.worn
      refine ⟨t', active'.standing, changed.checked h.checked active, ?_, ?_, ?_⟩
      · exact fun b anc => (active'.accepted b anc).valid
      · rw [worn.unlinked]
        exact h.unlinked.mem_iff
      · rw [worn.unlinked]
        exact h.unlinked.nodup

-- Known and marked `BLOCK_FAILED_VALID`.
def Rejected (blocks : Blocks) (b : Uint256) : Prop :=
  b ∈ blocks.index.mapBlockIndex ∧ (blocks.state.nStatus b).failedValid

theorem Rejected.linkQueue (n : ℕ) (queue : List Uint256) (h : blocks.Rejected b) :
    (linkQueue n queue blocks).Rejected b := by
  fun_induction Blocks.linkQueue n queue blocks
  case case1 ih =>
    refine ih ⟨h.left, ?_⟩
    simp only [link, dropUnlinked]
    split <;> exact h.right
  case case2 => exact h

theorem Rejected.receivedBlockTransactions (h : blocks.Rejected b) (nTx : ℕ) {pindexNew : Uint256}
    (ne : b ≠ pindexNew) : (blocks.receivedBlockTransactions nTx pindexNew).Rejected b := by
  have stored : (blocks.store nTx pindexNew).Rejected b := ⟨h.left, (nStatus_store ne).symm ▸ h.right⟩
  unfold Blocks.receivedBlockTransactions
  dsimp only
  split
  case h_1 => exact stored.linkQueue ..
  case h_2 =>
    split
    case isTrue => exact stored.linkQueue ..
    case isFalse => split <;> exact stored

theorem Call.rejected (call : Call connectBlock blocks blocks') (kept : Kept connectBlock blocks t)
    (h : blocks.Rejected b) : blocks'.Rejected b := by
  cases call
  case add header parent =>
    by_cases new : header.hash ∉ blocks.index.mapBlockIndex
    case pos =>
      have entered := addToBlockIndex_enters new parent
      exact ⟨entered.mem_iff.mpr (.inl h.left), (entered.nStatus_eq fun eq => new (eq ▸ h.left)).symm ▸ h.right⟩
    case neg => rwa [addToBlockIndex, dif_neg new]
  case receive expected =>
    -- Data are only taken for a block that has not failed.
    refine h.receivedBlockTransactions _ ?_
    rintro rfl
    simpa [BlockStatus.failed, h.right] using expected.failed
  case invalidate done =>
    obtain ⟨_, invalidated⟩ := invalidateBlock_invalidates kept.standing.path done
    exact ⟨h.left, (invalidated.failedValid b).mpr (.inl h.right)⟩
  case activate shutdownRequested n a done =>
    obtain ⟨out, _⟩ | ⟨a', t', done', changed, _⟩ :=
      activateBestChain_ends shutdownRequested n kept.checked.filed (kept.standing.active kept.checked kept.valid)
    case inl => cases done.symm.trans out
    case inr =>
      cases done.symm.trans done'
      exact ⟨h.left, changed.moves.worn.kept b h.right⟩

section

variable (fresh : Fresh connectBlock blocks) (calls : Relation.ReflTransGen (Call connectBlock) blocks blocks')

include fresh calls

theorem calls_kept : ∃ t, Kept connectBlock blocks' t := by
  induction calls
  case refl => exact fresh.kept
  case tail call ih =>
    have ⟨_, kept⟩ := ih
    exact call.kept kept

end

@[irreducible]
def exampleLoaded : Blocks :=
  loaded (exampleHeader 7 0) ⟨BitVec.toNat, Uint256.toNat_injective⟩ 1

def lateData : Except Failure Blocks := do
  let a ← exampleLoaded.state.activateBestChain exampleLoaded.index (fun _ => true) (fun _ => false) 5
  let blocks := { exampleLoaded with state := a.elim exampleLoaded.state Activation.state }
  let blocks := blocks.addToBlockIndex (exampleHeader 8 7)
  let s ← blocks.state.invalidateBlock blocks.index 8
  let blocks := { blocks with state := s }
  .ok (blocks.receivedBlockTransactions 1 8)

end Blocks

end Qrax
