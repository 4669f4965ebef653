import Qrax.Validation.Theorems.BestChain

open Fallible Forest List Function
open Bool (and_eq_true eq_false_iff not_eq_true')

namespace Qrax

open BlockIndex BlockStatus

def BlockStatus.cleared (nStatus : BlockStatus) : BlockStatus :=
  { nStatus with failedValid := false, failedChild := false }

theorem BlockStatus.cleared_of_not_failed {nStatus : BlockStatus} (h : nStatus.failed = false) :
    nStatus.cleared = nStatus := by
  cases nStatus
  have ⟨valid, child⟩ := Bool.or_eq_false_iff.mp h
  exact congrArg₂ _ valid.symm child.symm

namespace ChainState

section

variable (index : BlockIndex) (s : ChainState) (pindex : Uint256)

def InLine (b : Uint256) : Prop :=
  Anc index.pprev b pindex ∨ Anc index.pprev pindex b

structure Revived (t b : Uint256) : Prop where
  anc : Anc index.pprev pindex b
  failed : (s.nStatus b).failed
  ready : (s.nStatus b).reached .TRANSACTIONS
  linked : index.nChainTx b ≠ 0
  better : index.rank t < index.rank b

structure Reconsidered (t : Uint256) (s' : ChainState) : Prop where
  chainActive : s'.chainActive = s.chainActive
  unlinked : s'.mapBlocksUnlinked = s.mapBlocksUnlinked
  inLine : ∀ b ∈ index.mapBlockIndex, InLine index pindex b → s'.nStatus b = (s.nStatus b).cleared
  elsewhere : ∀ b, ¬InLine index pindex b → s'.nStatus b = s.nStatus b
  candidates : ∀ c, c ∈ s'.setBlockIndexCandidates ↔
    c ∈ s.setBlockIndexCandidates ∨ c ∈ index.mapBlockIndex ∧ s.Revived index pindex t c

-- All invalid ancestors are in line with `pindex`, so none is left.
def Unblocked (b : Uint256) : Prop :=
  ∀ a, Anc index.pprev a b → (s.nStatus a).failedValid → InLine index pindex a

-- What keeps the assertions of `CheckBlockIndex` when the marks in line are taken off.
structure Reconsiderable (t : Uint256) : Prop where
  marks : ∀ b ∈ index.mapBlockIndex, ¬InLine index pindex b → (s.nStatus b).failed → ¬s.Unblocked index pindex b
  candidates : ∀ b ∈ index.mapBlockIndex, index.Linked b → index.rank t ≤ index.rank b → s.Unblocked index pindex b →
    b ∈ s.setBlockIndexCandidates ∨ Anc index.pprev pindex b ∧ (s.nStatus b).failed
  unlinked : ∀ b ∈ index.mapBlockIndex, index.pprev b ≠ none → index.haveData b → ¬index.Linked b →
    s.Unblocked index pindex b → (index.pprev b, b) ∈ s.mapBlocksUnlinked

end

variable {index : BlockIndex} {connectBlock : Uint256 → Bool} {s s' : ChainState} {t b c pindex : Uint256}

theorem isValid_cleared (nStatus : BlockStatus) (v : BlockValidity) : nStatus.cleared.isValid v = nStatus.reached v :=
  Bool.true_and _

theorem betterThanTip_iff (path : CChain.IsPath index.toBlockTree s.chainActive t) :
    s.betterThanTip index b ↔ index.rank t < index.rank b := by
  rw [betterThanTip, path.tip_eq, Option.any_some, workComparator_iff]

structure Passed (index : BlockIndex) (s : ChainState) (pindex t : Uint256) (l : List Uint256) (s' : ChainState) :
    Prop where
  chainActive : s'.chainActive = s.chainActive
  unlinked : s'.mapBlocksUnlinked = s.mapBlocksUnlinked
  cleared : ∀ b ∈ l, Anc index.pprev pindex b → s'.nStatus b = (s.nStatus b).cleared
  elsewhere : ∀ b, ¬(b ∈ l ∧ Anc index.pprev pindex b) → s'.nStatus b = s.nStatus b
  candidates : ∀ c, c ∈ s'.setBlockIndexCandidates ↔
    c ∈ s.setBlockIndexCandidates ∨ c ∈ l ∧ s.Revived index pindex t c

variable {l : List Uint256}

theorem Passed.forget (passed : Passed index s pindex t l s') :
    Passed index s pindex t l
      (if s'.pindexBestInvalid = some b then { s' with pindexBestInvalid := none } else s') := by
  split
  case isTrue => exact ⟨passed.chainActive, passed.unlinked, passed.cleared, passed.elsewhere, passed.candidates⟩
  case isFalse => exact passed

theorem Revived.congr (revived : s.Revived index pindex t b) (eq : s'.nStatus b = s.nStatus b) :
    s'.Revived index pindex t b :=
  ⟨revived.anc, eq ▸ revived.failed, eq ▸ revived.ready, revived.linked, revived.better⟩

theorem Passed.cons {s₁ : ChainState} (first : Passed index s pindex t [b] s₁) (new : b ∉ l)
    (rest : Passed index s₁ pindex t l s') : Passed index s pindex t (b :: l) s' := by
  have same {c : Uint256} (mem : c ∈ l) : s₁.nStatus c = s.nStatus c :=
    first.elsewhere c fun h => new (mem_singleton.mp h.left ▸ mem)
  constructor
  case chainActive => exact rest.chainActive.trans first.chainActive
  case unlinked => exact rest.unlinked.trans first.unlinked
  case cleared =>
    intro c mem anc
    obtain rfl | mem := mem_cons.mp mem
    case inl => exact (rest.elsewhere c fun h => new h.left).trans (first.cleared c (mem_singleton_self c) anc)
    case inr => rw [rest.cleared c mem anc, same mem]
  case elsewhere =>
    intro c h
    have here : ¬(c ∈ [b] ∧ Anc index.pprev pindex c) := fun ⟨mem, anc⟩ =>
      h ⟨mem_cons.mpr (.inl (mem_singleton.mp mem)), anc⟩
    exact (rest.elsewhere c fun ⟨mem, anc⟩ => h ⟨mem_cons_of_mem _ mem, anc⟩).trans (first.elsewhere c here)
  case candidates =>
    intro c
    have later : c ∈ l ∧ s₁.Revived index pindex t c ↔ c ∈ l ∧ s.Revived index pindex t c :=
      and_congr_right fun mem => ⟨fun h => h.congr (same mem).symm, fun h => h.congr (same mem)⟩
    rw [rest.candidates, first.candidates, later, or_assoc, ← or_and_right, mem_singleton, mem_cons]

theorem reconsiderDescendant_passes (path : CChain.IsPath index.toBlockTree s.chainActive t) (pindex b : Uint256) :
    Passed index s pindex t [b] (s.reconsiderDescendant index pindex b) := by
  have anc_iff : index.getAncestor b (index.nHeight pindex) = some pindex ↔ Anc index.pprev pindex b :=
    BlockTree.getAncestor_eq_some.trans (and_iff_left rfl)
  unfold reconsiderDescendant
  split
  case isFalse skipped =>
    rw [and_eq_true, not_eq_true', decide_eq_true_eq, anc_iff, not_and'] at skipped
    have valid (anc : Anc index.pprev pindex b) : (s.nStatus b).failed = false := by
      have valid := eq_false_iff.not_left.mp (skipped anc)
      exact not_eq_true' _ |>.mp (Bool.and_eq_true_iff.mp valid).left
    refine ⟨rfl, rfl, fun c mem anc => ?_, fun _ _ => rfl, fun c => (or_iff_left fun ⟨mem, revived⟩ => ?_).symm⟩
    case refine_1 =>
      cases mem_singleton.mp mem
      exact (cleared_of_not_failed (valid anc)).symm
    case refine_2 =>
      cases mem_singleton.mp mem
      exact absurd revived.failed (eq_false_iff.mp (valid revived.anc))
  case isTrue taken =>
    rw [and_eq_true, not_eq_true', decide_eq_true_eq, anc_iff] at taken
    have ⟨invalid, anc⟩ := taken
    have self : (s.clearFailed b).nStatus b = (s.nStatus b).cleared := update_self ..
    have cleared (c : Uint256) (mem : c ∈ [b]) (_ : Anc index.pprev pindex c) :
        (s.clearFailed b).nStatus c = (s.nStatus c).cleared :=
      mem_singleton.mp mem ▸ self
    have other (c : Uint256) (h : ¬(c ∈ [b] ∧ Anc index.pprev pindex c)) :
        (s.clearFailed b).nStatus c = s.nStatus c :=
      update_of_ne (fun eq => h ⟨mem_singleton.mpr eq, eq ▸ anc⟩) ..
    have revived : ((s.clearFailed b).nStatus b).isValid .TRANSACTIONS && index.nChainTx b ≠ 0 &&
        (s.clearFailed b).betterThanTip index b ↔ s.Revived index pindex t b := by
      rw [self, isValid_cleared, and_eq_true, and_eq_true, decide_eq_true_eq,
        betterThanTip_iff (s := s.clearFailed b) path]
      constructor
      case mp =>
        intro ⟨⟨ready, linked⟩, better⟩
        refine ⟨anc, ?_, ready, linked, better⟩
        by_contra valid
        rw [isValid, ready, Bool.and_true, Bool.not_eq_false'] at invalid
        exact valid invalid
      case mpr => exact fun ⟨_, _, ready, linked, better⟩ => ⟨⟨ready, linked⟩, better⟩
    have passed : Passed index s pindex t [b]
        (if ((s.clearFailed b).nStatus b).isValid .TRANSACTIONS && index.nChainTx b ≠ 0 &&
          (s.clearFailed b).betterThanTip index b then (s.clearFailed b).insertCandidate b else s.clearFailed b) := by
      split
      case isTrue ready =>
        refine ⟨rfl, rfl, cleared, other, fun c => ?_⟩
        have only : c ∈ [b] ∧ s.Revived index pindex t c ↔ c = b := by
          rw [mem_singleton, and_iff_left_iff_imp]
          exact fun eq => eq ▸ revived.mp ready
        rw [only, or_comm]
        exact mem_insert_iff
      case isFalse notReady =>
        refine ⟨rfl, rfl, cleared, other, fun c => (or_iff_left fun ⟨mem, h⟩ => ?_).symm⟩
        exact notReady (revived.mpr (mem_singleton.mp mem ▸ h))
    exact passed.forget

theorem reconsiderDescendants_passes (path : CChain.IsPath index.toBlockTree s.chainActive t) (nodup : l.Nodup)
    (pindex : Uint256) :
    Passed index s pindex t l (l.foldl (fun s b => s.reconsiderDescendant index pindex b) s) := by
  induction l generalizing s
  case nil => exact ⟨rfl, rfl, nofun, fun _ _ => rfl, fun c => (or_iff_left fun h => nomatch h.left).symm⟩
  case cons b l ih =>
    have ⟨new, nodup⟩ := nodup_cons.mp nodup
    have first := reconsiderDescendant_passes path pindex b
    exact first.cons new (ih (first.chainActive ▸ path) nodup)

structure Climbed (index : BlockIndex) (s : ChainState) (pindex : Uint256) (s' : ChainState) : Prop where
  chainActive : s'.chainActive = s.chainActive
  unlinked : s'.mapBlocksUnlinked = s.mapBlocksUnlinked
  candidates : s'.setBlockIndexCandidates = s.setBlockIndexCandidates
  cleared : ∀ b, Anc index.pprev b pindex → s'.nStatus b = (s.nStatus b).cleared
  elsewhere : ∀ b, ¬Anc index.pprev b pindex → s'.nStatus b = s.nStatus b

theorem reconsiderAncestors_climbs {n : ℕ} (enough : index.nHeight pindex < n) :
    Climbed index s pindex (reconsiderAncestors index n (some pindex) s) := by
  induction n generalizing pindex s
  case zero => exact absurd enough (Nat.not_lt_zero _)
  case succ n ih =>
    unfold reconsiderAncestors
    have here : (if (s.nStatus pindex).failed then s.clearFailed pindex else s) = s.clearFailed pindex := by
      split
      case isTrue => rfl
      case isFalse valid =>
        have same := cleared_of_not_failed (eq_false_iff.mpr valid)
        have status : s.nStatus = Function.update s.nStatus pindex (s.nStatus pindex).cleared := by
          rw [same, update_eq_self]
        exact congrArg (fun f => { s with nStatus := f }) status
    have self : (s.clearFailed pindex).nStatus pindex = (s.nStatus pindex).cleared := update_self ..
    have other {b : Uint256} (ne : b ≠ pindex) : (s.clearFailed pindex).nStatus b = s.nStatus b :=
      update_of_ne ne ..
    simp only [here]
    cases eq : index.pprev pindex
    case none =>
      have stop : reconsiderAncestors index n none (s.clearFailed pindex) = s.clearFailed pindex := by cases n <;> rfl
      rw [stop]
      refine ⟨rfl, rfl, rfl, fun b anc => ?_, fun b h => other fun eq => h (eq ▸ .refl)⟩
      cases (Anc.iff_of_root eq).mp anc
      exact self
    case some p =>
      have up := index.graded.child eq
      have climbed := ih (s := s.clearFailed pindex) (show index.nHeight p < n by omega)
      have outside : ¬Anc index.pprev pindex p := fun anc => by
        have := index.graded.height_le anc
        omega
      refine ⟨climbed.chainActive, climbed.unlinked, climbed.candidates, fun b anc => ?_, fun b h => ?_⟩
      · obtain rfl | anc := (Anc.iff_of_child eq).mp anc
        case inl => exact (climbed.elsewhere b outside).trans self
        case inr => rw [climbed.cleared b anc, other fun eq => outside (eq ▸ anc)]
      · have ⟨ne, lower⟩ := not_or.mp (mt (Anc.iff_of_child eq).mpr h)
        exact (climbed.elsewhere b lower).trans (other ne)

theorem reconsiderBlock_reconsiders (path : CChain.IsPath index.toBlockTree s.chainActive t) (pindex : Uint256) :
    s.Reconsidered index pindex t (s.reconsiderBlock index pindex) := by
  have passed := reconsiderDescendants_passes path index.nodup pindex
  have climbed := reconsiderAncestors_climbs (Nat.lt_succ_self (index.nHeight pindex))
    (s := index.mapBlockIndex.foldl (fun s b => s.reconsiderDescendant index pindex b) s)
  refine ⟨climbed.chainActive.trans passed.chainActive, climbed.unlinked.trans passed.unlinked, fun b known line => ?_,
    fun b off => ?_, fun c => ?_⟩
  case refine_1 =>
    by_cases below : Anc index.pprev pindex b
    case pos =>
      have cleared := passed.cleared b known below
      by_cases above : Anc index.pprev b pindex
      case pos => exact (climbed.cleared b above).trans (by rw [cleared]; rfl)
      case neg => exact (climbed.elsewhere b above).trans cleared
    case neg =>
      have same := passed.elsewhere b fun h => below h.right
      exact (climbed.cleared b (line.resolve_right below)).trans (congrArg cleared same)
  case refine_2 =>
    have ⟨above, below⟩ := not_or.mp off
    exact (climbed.elsewhere b above).trans (passed.elsewhere b fun h => below h.right)
  case refine_3 =>
    exact (iff_of_eq (congrArg (c ∈ ·) climbed.candidates)).trans (passed.candidates c)

section

variable (h : s.Reconsidered index pindex t s')

include h

theorem Reconsidered.clean_iff (known : b ∈ index.mapBlockIndex) :
    s'.Clean index b ↔ s.Unblocked index pindex b := by
  refine forall_congr' fun a => forall_congr' fun anc => ?_
  by_cases line : InLine index pindex a
  case pos =>
    rw [h.inLine a (index.mem_of_anc anc known) line]
    exact ⟨fun _ _ => line, fun _ => rfl⟩
  case neg =>
    rw [h.elsewhere a line, eq_false_iff]
    exact ⟨fun clean mark => absurd mark clean, fun inLine mark => line (inLine mark)⟩

theorem Reconsidered.reached_eq (known : b ∈ index.mapBlockIndex)
    (v : BlockValidity) : (s'.nStatus b).reached v = (s.nStatus b).reached v := by
  by_cases line : InLine index pindex b
  case pos => rw [h.inLine b known line]; rfl
  case neg => rw [h.elsewhere b line]

theorem Reconsidered.standing (standing : s.Standing index t) :
    s'.Standing index t := by
  have within {a : Uint256} (anc : Anc index.pprev a t) := index.mem_of_anc anc standing.known
  constructor
  case path => exact h.chainActive ▸ standing.path
  case known => exact standing.known
  case candidates => exact fun c mem => ((h.candidates c).mp mem).elim (fun mem => standing.candidates mem) (·.left)
  case data => exact standing.data
  case failed =>
    intro a anc
    by_cases line : InLine index pindex a
    case pos => rw [h.inLine a (within anc) line]; rfl
    case neg => rw [h.elsewhere a line, standing.failed a anc]
  case scripts =>
    intro a anc child
    rw [h.reached_eq (within anc)]
    exact standing.scripts a anc child

theorem Reconsidered.linked (checked : s.Checked index t)
    (known : b ∈ index.mapBlockIndex) (mem : b ∈ s'.setBlockIndexCandidates) :
    index.Linked b ∧ index.rank t ≤ index.rank b := by
  obtain mem | ⟨_, revived⟩ := (h.candidates b).mp mem
  case inl => exact checked.candidates b known mem
  case inr =>
    exact ⟨not_not.mp fun unlinked => revived.linked ((checked.filed.linked b known).mpr unlinked), revived.better.le⟩

theorem Reconsidered.checked (checked : s.Checked index t)
    (standing : s.Standing index t) (able : s.Reconsiderable index pindex t) : s'.Checked index t := by
  have reached {b : Uint256} (known : b ∈ index.mapBlockIndex) := h.reached_eq known
  constructor
  case filed => exact checked.filed
  case genesis => exact h.chainActive ▸ checked.genesis
  case marked =>
    have marked := checked.marked
    constructor
    case data => exact fun b known => (reached known _).symm ▸ marked.data b known
    case tree => exact fun b known => (reached known _).symm ▸ marked.tree b known
    case chain =>
      intro b known here a anc child
      rw [reached (index.mem_of_anc anc known)]
      exact marked.chain b known (reached known _ ▸ here) a anc child
    case scripts =>
      intro b known here a anc child
      rw [reached (index.mem_of_anc anc known)]
      exact marked.scripts b known (reached known _ ▸ here) a anc child
    case failed =>
      intro b known clean
      by_cases line : InLine index pindex b
      case pos => rw [h.inLine b known line]; rfl
      case neg =>
        rw [h.elsewhere b line]
        exact eq_false_iff.mpr fun mark => able.marks b known line mark ((h.clean_iff known).mp clean)
  case complete =>
    intro b known linked clean le
    refine (h.candidates b).mpr ((able.candidates b known linked le ((h.clean_iff known).mp clean)).imp_right ?_)
    intro ⟨anc, failed⟩
    have data : index.nTx b ≠ 0 := fun zero =>
      absurd (linked b .refl) (eq_false_iff.mp ((checked.filed.data b known).mpr zero))
    have other : t ≠ b := by
      rintro rfl
      exact absurd failed (eq_false_iff.mp (standing.failed t .refl))
    exact ⟨known, anc, failed, (checked.marked.data b known).mpr (Nat.pos_of_ne_zero data),
      fun zero => (checked.filed.linked b known).mp zero linked,
      lt_of_le_of_ne le fun eq => other (rank_inj.mp eq)⟩
  case candidates => exact fun b => h.linked checked
  case unlinked =>
    intro b known child data unlinked clean
    rw [h.unlinked]
    exact able.unlinked b known child data unlinked ((h.clean_iff known).mp clean)
  case unlinkedOnly => exact fun b known mem => checked.unlinkedOnly b known (h.unlinked ▸ mem)

theorem Reconsidered.active (checked : s.Checked index t)
    (standing : s.Standing index t) (valid : ∀ a, Anc index.pprev a t → connectBlock a) :
    Active index connectBlock s' t := by
  have standing' := h.standing standing
  refine ⟨standing'.path, standing'.known, fun a anc => ?_, fun c mem => ?_⟩
  case refine_1 => exact ⟨valid a anc, standing'.data a anc, standing'.failed a anc, standing'.scripts a anc⟩
  case refine_2 => exact ⟨standing'.candidates mem, h.linked checked (standing'.candidates mem) mem⟩

-- If all assertions hold after the activation, the blocks it could not touch were right before.
theorem Reconsidered.reconsiderable (checked : s.Checked index t)
    (standing : s.Standing index t)
    (ends : ∀ connectBlock, (∀ a, Anc index.pprev a t → connectBlock a) →
      ∃ (a : Activation) (t' : Uint256), Changed index connectBlock s' t a t' ∧ a.state.Checked index t') :
    s.Reconsiderable index pindex t := by
  -- Nothing is found invalid.
  have ⟨a, t', changed, checked'⟩ := ends (fun _ => true) fun _ _ => rfl
  have worn : Worn (fun _ => true) s' a.state := changed.moves.worn
  have clean {b : Uint256} (known : b ∈ index.mapBlockIndex) (unblocked : s.Unblocked index pindex b) :
      a.state.Clean index b :=
    worn.clean_of_valid ((h.clean_iff known).mpr unblocked) fun _ _ => rfl
  constructor
  case marks =>
    intro b known off failed unblocked
    have mark := worn.failed b (by rw [h.elsewhere b off, failed])
    exact absurd mark (eq_false_iff.mp (checked'.marked.failed b known (clean known unblocked)))
  case unlinked =>
    intro b known child data unlinked unblocked
    rw [← h.unlinked, ← worn.unlinked]
    exact checked'.unlinked b known child data unlinked (clean known unblocked)
  case candidates =>
    -- Only the blocks up to the tip and to `b` are valid, so the new tip is not better than `b`.
    intro b known linked le unblocked
    classical
    have ⟨a, t', changed, checked'⟩ := ends (fun c => decide (Anc index.pprev c t ∨ Anc index.pprev c b))
      fun c anc => decide_eq_true (.inl anc)
    have active' := changed.moves.active (h.active checked standing fun c anc => decide_eq_true (.inl anc))
    have clean : a.state.Clean index b :=
      changed.moves.worn.clean_of_valid ((h.clean_iff known).mpr unblocked) fun c anc => decide_eq_true (.inr anc)
    have below : index.rank t' ≤ index.rank b := by
      obtain anc | anc := of_decide_eq_true (active'.accepted t' .refl).valid
      case inl => exact (rank_le_of_anc anc).trans le
      case inr => exact rank_le_of_anc anc
    have mem := changed.moves.worn.candidates (checked'.complete b known linked clean below)
    exact ((h.candidates b).mp mem).imp_right fun ⟨_, revived⟩ => ⟨revived.anc, revived.failed⟩

end

theorem reconsiderBlock_checked_iff (checked : s.checkBlockIndex index = .ok ()) (standing : s.Standing index t)
    (pindex : Uint256) :
    (∀ connectBlock shutdownRequested, (∀ a, Anc index.pprev a t → connectBlock a) → ∃ n₀, ∀ n ≥ n₀, ∃ a,
        (s.reconsiderBlock index pindex).activateBestChain index connectBlock shutdownRequested n = .ok (some a) ∧
          a.state.checkBlockIndex index = .ok ()) ↔
      s.Reconsiderable index pindex t := by
  have checked := (checkBlockIndex_ok_iff standing.path).mp checked
  have h := reconsiderBlock_reconsiders standing.path pindex
  constructor
  case mp =>
    intro property
    refine h.reconsiderable checked standing fun connectBlock valid => ?_
    have active := h.active checked standing valid
    have ⟨n, ends⟩ := property connectBlock (fun _ => false) valid
    have ⟨a, done, checked'⟩ := ends n (le_refl n)
    obtain ⟨out, _⟩ | ⟨a', t', done', changed, _⟩ := activateBestChain_ends (fun _ => false) n checked.filed active
    case inl => exact absurd (done.symm.trans out) nofun
    case inr =>
      cases done.symm.trans done'
      have active' : Active index connectBlock a.state t' := changed.moves.active active
      exact ⟨a, t', changed, (checkBlockIndex_ok_iff active'.path).mp checked'⟩
  case mpr =>
    intro able connectBlock shutdownRequested valid
    have active := h.active checked standing valid
    refine ⟨budget index { state := s.reconsiderBlock index pindex } + 2, fun n enough => ?_⟩
    obtain ⟨_, out⟩ | ⟨a, t', done, changed, _⟩ := activateBestChain_ends shutdownRequested n checked.filed active
    case inl => omega
    case inr =>
      have active' : Active index connectBlock a.state t' := changed.moves.active active
      exact ⟨a, done, (checkBlockIndex_ok_iff active'.path).mpr
        (changed.checked (h.checked checked standing able) active)⟩

-- The genesis block 7, block 8 on top, and two blocks, 9 and 10, on top of that.
@[irreducible]
def forkedBlocks : Blocks :=
  (threeBlocks.addToBlockIndex (exampleHeader 10 8)).receivedBlockTransactions 1 10

-- The chain up to 9 was active, block 8 was invalidated, and the other branch given up for it.
def invalidatedBranch : Except Failure ChainState := do
  let s := forkedBlocks.state
  let a ← s.activateBestChain forkedBlocks.index (fun _ => true) (fun _ => false) 20
  let s ← (a.elim s Activation.state).invalidateBlock forkedBlocks.index 8
  let a ← s.activateBestChain forkedBlocks.index (fun _ => true) (fun _ => false) 20
  .ok (a.elim s Activation.state)

-- Block 10 stays marked as a child of a failed block although none has failed.
theorem reconsiderBlock_keeps_child :
    ∃ s a, invalidatedBranch = .ok s ∧ s.checkBlockIndex forkedBlocks.index = .ok () ∧
      (s.reconsiderBlock forkedBlocks.index 9).activateBestChain forkedBlocks.index (fun _ => true)
        (fun _ => false) 20 = .ok (some a) ∧
      (a.state.nStatus 10).failedChild ∧
      (forkedBlocks.index.mapBlockIndex.all fun b => !(a.state.nStatus b).failedValid) ∧
      a.state.checkBlockIndex forkedBlocks.index =
        .error (.assertion "(pindex->nStatus & BLOCK_FAILED_MASK) == 0") := by
  have run : (do
      let s ← invalidatedBranch
      let a ← (s.reconsiderBlock forkedBlocks.index 9).activateBestChain forkedBlocks.index (fun _ => true)
        (fun _ => false) 20
      .ok (s.checkBlockIndex forkedBlocks.index, a.map fun a : Activation => ((a.state.nStatus 10).failedChild,
        forkedBlocks.index.mapBlockIndex.all fun b => !(a.state.nStatus b).failedValid,
        a.state.checkBlockIndex forkedBlocks.index))) =
      .ok (.ok (), some (true, true, .error (.assertion "(pindex->nStatus & BLOCK_FAILED_MASK) == 0"))) := by
    decide +kernel
  have ⟨s, before, run⟩ := bind_eq_ok.mp run
  have ⟨a, done, run⟩ := bind_eq_ok.mp run
  have ⟨checked, after⟩ := Prod.mk.inj (Except.ok.inj run)
  cases a
  case none => cases after
  case some a =>
    have ⟨child, after⟩ := Prod.mk.inj (Option.some.inj after)
    have ⟨unmarked, failed⟩ := Prod.mk.inj after
    exact ⟨s, a, before, checked, done, child, unmarked, failed⟩

theorem reconsiderBlock_checked_three :
    threeBlocks.state.checkBlockIndex threeBlocks.index = .ok () ∧
    ∀ connectBlock shutdownRequested, (∀ a, Anc threeBlocks.index.pprev a 7 → connectBlock a) → ∃ n₀, ∀ n ≥ n₀, ∃ a,
      (threeBlocks.state.reconsiderBlock threeBlocks.index 8).activateBestChain threeBlocks.index connectBlock
        shutdownRequested n = .ok (some a) ∧ a.state.checkBlockIndex threeBlocks.index = .ok () := by
  have checked := (checkBlockIndex_ok_iff threeBlocks_standing.path).mp threeBlocks_checked
  have clean {b : Uint256} (known : b ∈ threeBlocks.index.mapBlockIndex) :
      threeBlocks.state.Clean threeBlocks.index b :=
    fun a anc => (Bool.or_eq_false_iff.mp (threeBlocks_unmarked a (threeBlocks.index.mem_of_anc anc known))).left
  refine ⟨threeBlocks_checked, (reconsiderBlock_checked_iff threeBlocks_checked threeBlocks_standing 8).mpr ⟨?_, ?_, ?_⟩⟩
  case refine_1 => exact fun b known _ failed => absurd failed (Bool.eq_false_iff.mp (threeBlocks_unmarked b known))
  case refine_2 => exact fun b known linked le _ => .inl (checked.complete b known linked (clean known) le)
  case refine_3 => exact fun b known child data unlinked _ => checked.unlinked b known child data unlinked (clean known)

end ChainState

end Qrax
