import Qrax.Validation.Theorems.ReceiveBlock

open Fallible Forest Function

namespace Qrax

namespace ChainState

variable {index : BlockIndex} {s s' : ChainState} {t t' b c pindex p : Uint256}

structure FailedChildren (s : ChainState) (marked : Uint256 → Prop) (s' : ChainState) : Prop where
  failedValid : ∀ b, (s'.nStatus b).failedValid = (s.nStatus b).failedValid
  failed : ∀ b, (s'.nStatus b).failed ↔ (s.nStatus b).failed ∨ marked b
  validity : ∀ b, (s'.nStatus b).validity = (s.nStatus b).validity
  candidates : ∀ c, c ∈ s'.setBlockIndexCandidates ↔ c ∈ s.setBlockIndexCandidates ∧ ¬marked c
  unlinked : s'.mapBlocksUnlinked = s.mapBlocksUnlinked

variable {s'' : ChainState} {marked marked' : Uint256 → Prop}

theorem FailedChildren.trans (h : FailedChildren s marked s')
    (h' : FailedChildren s' marked' s'') : FailedChildren s (fun b => marked b ∨ marked' b) s'' where
  failedValid b := (h'.failedValid b).trans (h.failedValid b)
  failed b := by rw [h'.failed, h.failed, or_assoc]
  validity b := (h'.validity b).trans (h.validity b)
  candidates c := by rw [h'.candidates, h.candidates, not_or, and_assoc]
  unlinked := h'.unlinked.trans h.unlinked

theorem FailedChildren.congr (h : FailedChildren s marked s')
    (iff : ∀ b, marked b ↔ marked' b) : FailedChildren s marked' s' :=
  funext (fun b => propext (iff b)) ▸ h

theorem FailedChildren.disconnects (h : FailedChildren s marked s')
    (moved : Disconnects index s' t s'' p) : FailedChildren s marked s'' where
  failedValid b := by rw [moved.nStatus, h.failedValid]
  failed b := by rw [moved.nStatus, h.failed]
  validity b := by rw [moved.nStatus, h.validity]
  candidates c := by rw [moved.candidates, h.candidates]
  unlinked := moved.unlinked.trans h.unlinked

theorem failedChildren_mark (s : ChainState) (t : Uint256) :
    FailedChildren s (· = t) ((s.markFailedChild t).eraseCandidate t) := by
  have self : ((s.markFailedChild t).eraseCandidate t).nStatus t = { s.nStatus t with failedChild := true } :=
    update_self ..
  have other {b : Uint256} (ne : b ≠ t) : ((s.markFailedChild t).eraseCandidate t).nStatus b = s.nStatus b :=
    update_of_ne ne ..
  constructor
  case failedValid =>
    intro b
    by_cases eq : b = t
    case pos => rw [eq, self]
    case neg => rw [other eq]
  case failed =>
    intro b
    by_cases eq : b = t
    case pos => exact iff_of_true (by rw [eq, self]; exact Bool.or_true _) (.inr eq)
    case neg => rw [other eq, or_iff_left eq]
  case validity =>
    intro b
    by_cases eq : b = t
    case pos => rw [eq, self]
    case neg => rw [other eq]
  case candidates => exact fun c => mem_eraseCandidate
  case unlinked => rfl

-- The active chain was taken back below `pindex`, and the blocks leaving it are marked.
structure Withdrawn (index : BlockIndex) (s : ChainState) (pindex t : Uint256) (s' : ChainState) (p : Uint256) :
    Prop where
  parent : index.pprev pindex = some p
  path : CChain.IsPath index.toBlockTree s'.chainActive p
  marks : FailedChildren s (fun b => Anc index.pprev pindex b ∧ Anc index.pprev b t) s'

theorem disconnectFailed_withdraws {n : ℕ} (path : CChain.IsPath index.toBlockTree s.chainActive t)
    (anc : Anc index.pprev pindex t) (enough : index.nHeight t < index.nHeight pindex + n)
    (done : disconnectFailed index pindex n s = .ok s') : ∃ p, Withdrawn index s pindex t s' p := by
  induction n generalizing s t
  case zero => exact absurd (index.graded.height_le anc) (by omega)
  case succ n ih =>
    unfold disconnectFailed at done
    rw [if_pos (path.contains_iff.mpr anc), path.tip_eq, Option.elim_some] at done
    obtain ⟨s₁, first, loop⟩ := bind_eq_ok.mp done
    have path₁ : CChain.IsPath index.toBlockTree ((s.markFailedChild t).eraseCandidate t).chainActive t := path
    cases up : index.pprev t
    case none =>
      simp only [disconnectTip, path₁.tip_eq, up] at first
      cases first
    case some q =>
      obtain ⟨s₂, eq, moved⟩ := disconnectTip_ok path₁ up
      cases first.symm.trans eq
      have level := index.graded.child up
      have marks := (failedChildren_mark s t).disconnects moved
      cases anc
      case refl =>
        have outside : ¬Anc index.pprev pindex q := fun below => by
          have := index.graded.height_le below
          omega
        have stays : disconnectFailed index pindex n s₁ = .ok s₁ := by
          cases n
          case zero => rfl
          case succ n => exact if_neg (mt moved.path.contains_iff.mp outside)
        cases stays.symm.trans loop
        refine ⟨q, up, moved.path, marks.congr fun b => ⟨?_, ?_⟩⟩
        · rintro rfl
          exact ⟨.refl, .refl⟩
        · rintro ⟨above, below⟩
          exact index.graded.antisymm below above
      case step r anc eq =>
        cases up.symm.trans eq
        obtain ⟨p, parent, path, rest⟩ := ih moved.path anc (by omega) loop
        refine ⟨p, parent, path, (marks.trans rest).congr fun b => ?_⟩
        rw [Anc.iff_of_child up, and_or_left]
        exact or_congr_left (and_iff_right_of_imp fun eq' => eq' ▸ .step up anc).symm

def Readded (index : BlockIndex) (s : ChainState) (t c : Uint256) : Prop :=
  (s.nStatus c).isValid .TRANSACTIONS ∧ index.nChainTx c ≠ 0 ∧ index.rank t ≤ index.rank c

theorem readdCandidates_eq {l : List Uint256} (path : CChain.IsPath index.toBlockTree s.chainActive t) :
    ∃ candidates, l.foldl (readdCandidate index) s = { s with setBlockIndexCandidates := candidates } ∧
      ∀ c, c ∈ candidates ↔ c ∈ s.setBlockIndexCandidates ∨ c ∈ l ∧ Readded index s t c := by
  induction l generalizing s
  case nil => exact ⟨_, rfl, fun c => (or_iff_left fun h => List.not_mem_nil h.left).symm⟩
  case cons b l ih =>
    have cond : ((s.nStatus b).isValid .TRANSACTIONS && index.nChainTx b ≠ 0 && !s.worseThanTip index b) = true ↔
        Readded index s t b := by
      rw [Bool.and_eq_true, Bool.and_eq_true, decide_eq_true_eq, and_assoc, Bool.not_eq_true', ← Bool.not_eq_true,
        worseThanTip_iff path, not_lt]
      rfl
    have step : s.readdCandidate index b = s ∧ ¬Readded index s t b ∨
        s.readdCandidate index b = s.insertCandidate b ∧ Readded index s t b := by
      unfold readdCandidate
      split
      case isTrue here => exact .inr ⟨rfl, cond.mp here⟩
      case isFalse none => exact .inl ⟨rfl, mt cond.mpr none⟩
    rw [List.foldl_cons]
    obtain ⟨eq, none⟩ | ⟨eq, here⟩ := step
    case inl =>
      have ⟨candidates, fold, mem_iff⟩ := ih path
      refine ⟨candidates, by rw [eq, fold], fun c => ?_⟩
      rw [mem_iff, List.mem_cons]
      refine or_congr_right (and_congr_left fun readded => (or_iff_right ?_).symm)
      rintro rfl
      exact none readded
    case inr =>
      have ⟨candidates, fold, mem_iff⟩ := ih (s := s.insertCandidate b) path
      refine ⟨candidates, by rw [eq, fold]; rfl, fun c => ?_⟩
      rw [mem_iff, List.mem_cons, or_and_right, ← or_assoc]
      refine or_congr_left (List.mem_insert_iff.trans (or_comm.trans (or_congr_right ?_)))
      exact (and_iff_left_of_imp fun eq' => eq' ▸ here).symm

structure Invalidated (index : BlockIndex) (s : ChainState) (pindex t : Uint256) (s' : ChainState) (t' : Uint256) :
    Prop where
  path : CChain.IsPath index.toBlockTree s'.chainActive t'
  below : Anc index.pprev t' t
  outside : ¬Anc index.pprev pindex t'
  failedValid : ∀ b, (s'.nStatus b).failedValid ↔ (s.nStatus b).failedValid ∨ b = pindex
  failed : ∀ b, (s'.nStatus b).failed → (s.nStatus b).failed ∨ Anc index.pprev pindex b
  validity : ∀ b, (s'.nStatus b).validity = (s.nStatus b).validity
  candidates : ∀ c ∈ s'.setBlockIndexCandidates,
    c ∈ s.setBlockIndexCandidates ∨ c ∈ index.mapBlockIndex ∧ Readded index s' t' c
  readded : ∀ c ∈ index.mapBlockIndex, Readded index s' t' c → c ∈ s'.setBlockIndexCandidates
  unlinked : s'.mapBlocksUnlinked = s.mapBlocksUnlinked

theorem disconnectFailed_ok (path : CChain.IsPath index.toBlockTree s.chainActive t)
    (done : disconnectFailed index pindex s.chainActive.vChain.length s = .ok s') :
    ∃ t' marked, CChain.IsPath index.toBlockTree s'.chainActive t' ∧ Anc index.pprev t' t ∧
      ¬Anc index.pprev pindex t' ∧ (∀ b, marked b → Anc index.pprev pindex b) ∧ FailedChildren s marked s' := by
  by_cases anc : Anc index.pprev pindex t
  case pos =>
    have enough : index.nHeight t < index.nHeight pindex + s.chainActive.vChain.length := by
      rw [path, List.length_map, index.graded.path_length]
      omega
    have ⟨p, parent, path', marks⟩ := disconnectFailed_withdraws path anc enough done
    have outside : ¬Anc index.pprev pindex p := fun below => by
      have := index.graded.height_le below
      have := index.graded.child parent
      omega
    exact ⟨p, _, path', Anc.trans (.step parent .refl) anc, outside, fun b h => h.left, marks⟩
  case neg =>
    have stays (n : ℕ) : disconnectFailed index pindex n s = .ok s := by
      cases n
      case zero => rfl
      case succ n => exact if_neg (mt path.contains_iff.mp anc)
    cases (stays _).symm.trans done
    exact ⟨t, fun _ => False, path, .refl, anc, nofun, fun _ => rfl, fun b => (or_iff_left not_false).symm,
      fun _ => rfl, fun c => (and_iff_left not_false).symm, rfl⟩

theorem invalidateBlock_invalidates (path : CChain.IsPath index.toBlockTree s.chainActive t)
    (done : s.invalidateBlock index pindex = .ok s') : ∃ t', Invalidated index s pindex t s' t' := by
  have ⟨s₁, first, last⟩ := bind_eq_ok.mp done
  have self : ((s.markFailedValid pindex).eraseCandidate pindex).nStatus pindex =
      { s.nStatus pindex with failedValid := true } := update_self ..
  have other {b : Uint256} (ne : b ≠ pindex) :
      ((s.markFailedValid pindex).eraseCandidate pindex).nStatus b = s.nStatus b := update_of_ne ne ..
  have erased {c : Uint256} : c ∈ ((s.markFailedValid pindex).eraseCandidate pindex).setBlockIndexCandidates →
      c ∈ s.setBlockIndexCandidates := fun mem => (mem_eraseCandidate.mp mem).left
  have path₀ : CChain.IsPath index.toBlockTree ((s.markFailedValid pindex).eraseCandidate pindex).chainActive t := path
  have ⟨t', marked, path₁, below, outside, above, marks⟩ := disconnectFailed_ok path₀ first
  have ⟨candidates, fold, mem_iff⟩ := readdCandidates_eq (l := index.mapBlockIndex) path₁
  have ⟨best, final⟩ := invalidChainFound_ok (s := { s₁ with setBlockIndexCandidates := candidates }) path₁ pindex
  rw [fold, final] at last
  cases last
  refine ⟨t', ?_⟩
  constructor
  case path => exact path₁
  case below => exact below
  case outside => exact outside
  case failedValid =>
    intro b
    rw [marks.failedValid]
    by_cases eq : b = pindex
    case pos => exact iff_of_true (by rw [eq, self]) (.inr eq)
    case neg => rw [other eq, or_iff_left eq]
  case failed =>
    intro b failed
    by_cases eq : b = pindex
    case pos => exact .inr (eq ▸ .refl)
    case neg =>
      obtain old | new := (marks.failed b).mp failed
      case inl => exact .inl (other eq ▸ old)
      case inr => exact .inr (above b new)
  case validity =>
    intro b
    rw [marks.validity]
    by_cases eq : b = pindex
    case pos => rw [eq, self]
    case neg => rw [other eq]
  case candidates =>
    intro c mem
    exact ((mem_iff c).mp mem).imp_left fun mem => erased ((marks.candidates c).mp mem).left
  case readded => exact fun c known here => (mem_iff c).mpr (.inr ⟨known, here⟩)
  case unlinked => exact marks.unlinked

end ChainState

namespace Blocks

open ChainState

variable {connectBlock : Uint256 → Bool} {blocks : Blocks} {s' : ChainState} {t pindex : Uint256}

theorem Kept.invalidateBlock (h : Kept connectBlock blocks t)
    (done : blocks.state.invalidateBlock blocks.index pindex = .ok s') :
    ∃ t', Kept connectBlock { blocks with state := s' } t' := by
  obtain ⟨t', invalidated⟩ := invalidateBlock_invalidates h.standing.path done
  obtain ⟨path, below, outside, failedValid, failed, validity, candidates, readded, unlinked⟩ := invalidated
  have filed := h.checked.filed
  have known := blocks.index.mem_of_anc below h.standing.known
  have reached (b : Uint256) (v : BlockValidity) : (s'.nStatus b).reached v = (blocks.state.nStatus b).reached v := by
    rw [BlockStatus.reached, BlockStatus.reached, validity]
  have clean {b : Uint256} (clean' : s'.Clean blocks.index b) :
      blocks.state.Clean blocks.index b ∧ ¬Anc blocks.index.pprev pindex b := by
    refine ⟨fun a anc => ?_, fun anc => ?_⟩
    · refine Bool.eq_false_iff.mpr fun mark => ?_
      exact absurd ((failedValid a).mpr (.inl mark)) (Bool.eq_false_iff.mp (clean' a anc))
    · exact absurd ((failedValid pindex).mpr (.inr rfl)) (Bool.eq_false_iff.mp (clean' pindex anc))
  have unfailed {b : Uint256} (old : (blocks.state.nStatus b).failed = false) (off : ¬Anc blocks.index.pprev pindex b) :
      (s'.nStatus b).failed = false :=
    Bool.eq_false_iff.mpr fun mark => (failed b mark).elim (Bool.eq_false_iff.mp old) off
  have within {c : Uint256} (mem : c ∈ s'.setBlockIndexCandidates) : c ∈ blocks.index.mapBlockIndex :=
    (candidates c mem).elim (fun old => h.standing.candidates old) And.left
  refine ⟨t', ⟨path, known, fun c => within, ?_, ?_, ?_⟩, ?_, fun a anc => h.valid a (anc.trans below), ?_⟩
  case refine_1 => exact fun a anc => h.standing.data a (anc.trans below)
  case refine_2 =>
    exact fun a anc => unfailed (h.standing.failed a (anc.trans below)) fun off => outside (off.trans anc)
  case refine_3 => exact fun a anc child => (reached a _).trans (h.standing.scripts a (anc.trans below) child)
  case refine_5 => exact ⟨by rw [unlinked]; exact h.unlinked.mem_iff, by rw [unlinked]; exact h.unlinked.nodup⟩
  case refine_4 =>
    have marked := h.checked.marked
    constructor
    case filed => exact filed
    case genesis => exact path.genesis_eq (filed.root known) filed.genesis.right
    case marked =>
      constructor
      case data => simpa only [reached] using marked.data
      case tree => simpa only [reached] using marked.tree
      case chain => simpa only [reached] using marked.chain
      case scripts => simpa only [reached] using marked.scripts
      case failed => exact fun b mem clean' => unfailed (marked.failed b mem (clean clean').left) (clean clean').right
    case complete =>
      intro g mem linked clean' le
      have data := (filed.data g mem).not.mp (Bool.not_eq_false _ |>.mpr (linked g .refl))
      refine readded g mem ⟨?_, ?_, le⟩
      · rw [BlockStatus.isValid, unfailed (marked.failed g mem (clean clean').left) (clean clean').right, reached]
        exact (marked.data g mem).mpr (Nat.pos_of_ne_zero data)
      · exact fun zero => (filed.linked g mem).mp zero linked
    case candidates =>
      intro b mem here
      obtain old | ⟨_, _, nonzero, le⟩ := candidates b here
      case inl =>
        obtain ⟨linked, le⟩ := h.checked.candidates b mem old
        exact ⟨linked, (BlockIndex.rank_le_of_anc below).trans le⟩
      case inr => exact ⟨not_not.mp (mt (filed.linked b mem).mpr nonzero), le⟩
    case unlinked =>
      intro b mem child data not clean'
      rw [unlinked]
      exact h.checked.unlinked b mem child data not (clean clean').left
    case unlinkedOnly =>
      intro b mem here
      exact h.checked.unlinkedOnly b mem (unlinked ▸ here)

end Blocks

end Qrax
