import Qrax.Validation.CheckBlockIndex
import Qrax.Validation.Theorems.ActivateBestChain

open Fallible Forest List

namespace Qrax

namespace ChainState

section

variable (index : BlockIndex) (s : ChainState)

-- A stage that the block and all its ancestors but the genesis block reached.
def Reached (v : BlockValidity) (b : Uint256) : Prop :=
  ∀ a, Anc index.pprev a b → index.pprev a ≠ none → (s.nStatus a).reached v

structure Describes (first : FirstBlocks) (b : Uint256) : Prop where
  invalid : first.pindexFirstInvalid = none ↔ s.Clean index b
  missing : first.pindexFirstMissing = none ↔ index.Linked b
  tree : first.pindexFirstNotTreeValid = none ↔ s.Reached index .TREE b
  chain : first.pindexFirstNotChainValid = none ↔ s.Reached index .CHAIN b
  scripts : first.pindexFirstNotScriptsValid = none ↔ s.Reached index .SCRIPTS b

-- The assertions for one block. Heights, work and skip pointers are right by the laws of the tree.
structure EntryChecked (t b : Uint256) : Prop where
  genesis : index.pprev b = none → b = index.hashGenesisBlock ∧ some b = s.chainActive.genesis
  data : index.haveData b = false ↔ index.nTx b = 0
  transactions : (s.nStatus b).reached .TRANSACTIONS ↔ index.nTx b > 0
  sequence : index.nChainTx b = 0 → index.nSequenceId b = 0
  linked : ¬index.Linked b ↔ index.nChainTx b = 0
  tree : s.Reached index .TREE b
  chain : (s.nStatus b).reached .CHAIN → s.Reached index .CHAIN b
  scripts : (s.nStatus b).reached .SCRIPTS → s.Reached index .SCRIPTS b
  failed : s.Clean index b → (s.nStatus b).failed = false
  candidate : index.rank t ≤ index.rank b → index.Linked b → s.Clean index b → b ∈ s.setBlockIndexCandidates
  only : b ∈ s.setBlockIndexCandidates → index.rank t ≤ index.rank b ∧ index.Linked b
  unlinked : index.pprev b ≠ none → index.haveData b → ¬index.Linked b → s.Clean index b →
    (index.pprev b, b) ∈ s.mapBlocksUnlinked
  unlinkedOnly : (index.pprev b, b) ∈ s.mapBlocksUnlinked →
    index.pprev b ≠ none ∧ index.haveData b ∧ ¬index.Linked b

end

variable {index : BlockIndex} {s : ChainState} {t b p : Uint256}

theorem oldest_eq_none {first : Option Uint256} {here : Bool} :
    oldest first b here = none ↔ first = none ∧ here = false := by
  unfold oldest
  cases first <;> cases here <;> simp

theorem notReached_eq_false {v : BlockValidity} :
    s.notReached index b v = false ↔ (index.pprev b ≠ none → (s.nStatus b).reached v) := by
  unfold notReached
  cases index.pprev b <;> simp

variable {first : FirstBlocks}

theorem firstBlocks_describes (start : match index.pprev b with
      | none => first = {}
      | some p => s.Describes index first p) :
    s.Describes index (s.firstBlocks index b first) b := by
  have all {P : Uint256 → Prop} {x : Option Uint256} {here : Bool} (now : here = false ↔ P b)
      (before : match index.pprev b with
        | none => x = none
        | some p => x = none ↔ ∀ a, Anc index.pprev a p → P a) :
      oldest x b here = none ↔ ∀ a, Anc index.pprev a b → P a := by
    rw [oldest_eq_none, now]
    cases eq : index.pprev b
    case none =>
      simp only [eq] at before
      simp only [before, true_and, Anc.iff_of_root eq, forall_eq]
    case some p =>
      simp only [eq] at before
      simp only [before, Anc.iff_of_child eq, forall_eq_or_imp]
      exact and_comm
  cases eq : index.pprev b
  case none =>
    simp only [eq] at start
    subst start
    exact ⟨all Iff.rfl (by simp only [eq]), all (by simp) (by simp only [eq]), all notReached_eq_false (by simp only [eq]),
      all notReached_eq_false (by simp only [eq]), all notReached_eq_false (by simp only [eq])⟩
  case some p =>
    simp only [eq] at start
    exact ⟨all Iff.rfl (by simp only [eq]; exact start.invalid), all (by simp) (by simp only [eq]; exact start.missing),
      all notReached_eq_false (by simp only [eq]; exact start.tree),
      all notReached_eq_false (by simp only [eq]; exact start.chain),
      all notReached_eq_false (by simp only [eq]; exact start.scripts)⟩

theorem checkCandidate_ok_iff (path : CChain.IsPath index.toBlockTree s.chainActive t)
    (describes : s.Describes index first b) :
    s.checkCandidate index b first = .ok () ↔
      (index.rank t ≤ index.rank b → index.Linked b → s.Clean index b → b ∈ s.setBlockIndexCandidates) ∧
        (b ∈ s.setBlockIndexCandidates → index.rank t ≤ index.rank b ∧ index.Linked b) := by
  simp only [checkCandidate, ite_eq_iff', onlyIf_eq_ok, failIf_eq_ok, not_not, worseThanTip_iff path, not_lt,
    describes.missing, describes.invalid, and_imp]
  exact and_congr_right fun _ => not_imp_not

theorem checkUnlinked_ok_iff (describes : s.Describes index first b) :
    s.checkUnlinked index b first = .ok () ↔
      (index.pprev b ≠ none → index.haveData b → ¬index.Linked b → s.Clean index b →
        (index.pprev b, b) ∈ s.mapBlocksUnlinked) ∧
      ((index.pprev b, b) ∈ s.mapBlocksUnlinked → index.pprev b ≠ none ∧ index.haveData b ∧ ¬index.Linked b) := by
  simp only [checkUnlinked, ite_eq_iff', onlyIf_eq_ok, failIf_eq_ok, not_not, ne_eq, describes.missing,
    describes.invalid, and_imp]
  exact and_congr_right fun _ => not_imp_not

theorem checkEntry_ok_iff (path : CChain.IsPath index.toBlockTree s.chainActive t)
    (describes : s.Describes index first b) :
    s.checkEntry index b (index.nHeight b) first = .ok () ↔ s.EntryChecked index t b := by
  simp only [checkEntry, bind_eq_ok, exists_unit, failIf_eq_ok, onlyIf_eq_ok, not_not,
    checkCandidate_ok_iff path describes, checkUnlinked_ok_iff describes, describes.missing, describes.invalid,
    describes.tree, describes.chain, describes.scripts, ne_eq]
  constructor
  case mp =>
    rintro ⟨genesis, data, transactions, sequence, linked, _, _, _, tree, _, chain, scripts, failed, ⟨candidate, only⟩,
      unlinked, unlinkedOnly⟩
    exact ⟨genesis, data, transactions, sequence, linked, tree, chain, scripts,
      fun clean => Bool.eq_false_iff.mpr (failed clean), candidate, only, unlinked, unlinkedOnly⟩
  case mpr =>
    intro h
    have work : ¬(index.pprev b).any (index.nChainWork b < index.nChainWork ·) := by
      cases eq : index.pprev b
      case none => rintro ⟨⟩
      case some p => simpa using (index.works eq).le
    have skip : index.nHeight b < 2 ∨ (index.pskip b).any (index.nHeight · < index.nHeight b) := by
      cases eq : index.pprev b
      case none => exact .inl (by rw [index.graded.root eq]; decide)
      case some p =>
        obtain ⟨a, at_, _, level⟩ := index.skips eq
        have lower := getSkipHeight_lt (show 0 < index.nHeight b by rw [index.graded.child eq]; exact Nat.succ_pos _)
        exact .inr (by rw [at_, Option.any_some, level]; exact decide_eq_true lower)
    exact ⟨h.genesis, h.data, h.transactions, h.sequence, h.linked, trivial, work, skip, h.tree, fun _ => h.tree, h.chain,
      h.scripts, fun clean => Bool.eq_false_iff.mp (h.failed clean), ⟨h.candidate, h.only⟩, h.unlinked, h.unlinkedOnly⟩

theorem mem_forward {c : Uint256} : c ∈ forward index (some b) ↔ index.pprev c = some b := by
  simp only [forward, mem_filter, decide_eq_true_eq, and_iff_right_iff_imp]
  exact fun eq => (index.closed eq).left

theorem checkFrom_ok_iff {n k : ℕ} (path : CChain.IsPath index.toBlockTree s.chainActive t)
    (start : match index.pprev b with
      | none => first = {}
      | some p => s.Describes index first p) :
    s.checkFrom index n b (index.nHeight b) first = .ok k ↔
      (∀ c ∈ preorder (fun b => forward index (some b)) n b, s.EntryChecked index t c) ∧
        k = (preorder (fun b => forward index (some b)) n b).length := by
  induction n generalizing b first k
  case zero => simp [checkFrom, preorder, eq_comm]
  case succ n ih =>
    have describes := firstBlocks_describes start
    simp only [checkFrom, bind_eq_ok, exists_unit, checkEntry_ok_iff path describes]
    rw [foldlM_add_eq_ok (P := fun c => ∀ d ∈ preorder (fun b => forward index (some b)) n c, s.EntryChecked index t d)
      (g := fun c => (preorder (fun b => forward index (some b)) n c).length)]
    · rw [preorder, forall_mem_cons, length_cons, length_flatMap, and_assoc, Nat.add_comm 1]
      simp only [mem_flatMap, forall_exists_index, and_imp]
      refine and_congr_right fun _ => and_congr_left fun _ => ?_
      exact ⟨fun h d c mem below => h c mem d below, fun h c mem d below => h d c mem below⟩
    · intro c mem x
      have parent := mem_forward.mp mem
      rw [← index.graded.child parent]
      exact ih (by simp only [parent]; exact describes)

structure Checked (index : BlockIndex) (s : ChainState) (t : Uint256) : Prop where
  filed : index.Filed
  genesis : s.chainActive.genesis = some index.hashGenesisBlock
  marked : s.Marked index
  complete : s.Complete index (index.rank t)
  candidates : ∀ b ∈ index.mapBlockIndex, b ∈ s.setBlockIndexCandidates →
    index.Linked b ∧ index.rank t ≤ index.rank b
  unlinked : ∀ b ∈ index.mapBlockIndex, index.pprev b ≠ none → index.haveData b → ¬index.Linked b →
    s.Clean index b → (index.pprev b, b) ∈ s.mapBlocksUnlinked
  unlinkedOnly : ∀ b ∈ index.mapBlockIndex, (index.pprev b, b) ∈ s.mapBlocksUnlinked →
    index.pprev b ≠ none ∧ index.haveData b ∧ ¬index.Linked b

theorem Checked.entry (checked : Checked index s t) (known : b ∈ index.mapBlockIndex) : s.EntryChecked index t b := by
  have ⟨filed, genesis, marked, complete, candidates, unlinked, unlinkedOnly⟩ := checked
  constructor
  case genesis =>
    intro root
    rw [filed.single b known root]
    exact ⟨rfl, genesis.symm⟩
  case data => exact filed.data b known
  case transactions => exact marked.data b known
  case sequence => exact filed.sequence b known
  case linked => exact (filed.linked b known).symm
  case tree => exact fun a anc child => marked.tree a (index.mem_of_anc anc known) child
  case chain => exact marked.chain b known
  case scripts => exact marked.scripts b known
  case failed => exact marked.failed b known
  case candidate => exact fun le linked clean => complete b known linked clean le
  case only => exact fun mem => (candidates b known mem).symm
  case unlinked => exact unlinked b known
  case unlinkedOnly => exact unlinkedOnly b known

theorem Checked.of_entries (known : b ∈ index.mapBlockIndex) (root : index.pprev b = none)
    (single : ∀ c ∈ index.mapBlockIndex, index.pprev c = none → c = b)
    (entries : ∀ c ∈ index.mapBlockIndex, s.EntryChecked index t c) : Checked index s t := by
  have ⟨genesis, first⟩ := (entries b known).genesis root
  subst genesis
  constructor
  case filed =>
    exact ⟨⟨known, root⟩, single, fun c known => (entries c known).data, fun c known => (entries c known).sequence,
      fun c known => (entries c known).linked.symm⟩
  case genesis => exact first.symm
  case marked =>
    exact ⟨fun c known => (entries c known).transactions, fun c known => (entries c known).tree c .refl,
      fun c known => (entries c known).chain, fun c known => (entries c known).scripts,
      fun c known => (entries c known).failed⟩
  case complete => exact fun c known linked clean le => (entries c known).candidate le linked clean
  case candidates => exact fun c known mem => ((entries c known).only mem).symm
  case unlinked => exact fun c known => (entries c known).unlinked
  case unlinkedOnly => exact fun c known => (entries c known).unlinkedOnly

theorem checkBlockIndex_ok_iff (path : CChain.IsPath index.toBlockTree s.chainActive t) :
    s.checkBlockIndex index = .ok () ↔ Checked index s t := by
  have chain : s.chainActive.vChain ≠ [] := by
    rw [path, ne_eq, map_eq_nil_iff, ← length_eq_zero_iff, index.graded.path_length]
    exact Nat.succ_ne_zero _
  have roots (b : Uint256) : b ∈ forward index none ↔ b ∈ index.mapBlockIndex ∧ index.pprev b = none := by
    rw [forward, mem_filter, decide_eq_true_eq]
  have children (b c : Uint256) : c ∈ forward index (some b) ↔ index.pprev c = some b := mem_forward
  have whole {b c : Uint256} (root : index.pprev b = none) (anc : Anc index.pprev b c)
      (known : c ∈ index.mapBlockIndex) :
      c ∈ preorder (fun b => forward index (some b)) index.mapBlockIndex.length b := by
    rw [index.graded.mem_preorder children, index.graded.root root, Nat.zero_add]
    exact ⟨anc, index.nHeight_lt_length known⟩
  unfold checkBlockIndex
  rw [if_neg chain]
  constructor
  case mp =>
    intro h
    split at h
    case h_2 => cases h
    case h_1 b single =>
      have ⟨known, root⟩ := (roots b).mp (single ▸ mem_singleton_self b)
      have only (c : Uint256) (known : c ∈ index.mapBlockIndex) (root : index.pprev c = none) : c = b :=
        mem_singleton.mp (single ▸ (roots c).mpr ⟨known, root⟩)
      have reaches (c : Uint256) (known : c ∈ index.mapBlockIndex) : Anc index.pprev b c := by
        induction c using index.graded.induction
        case root c eq => exact only c known eq ▸ .refl
        case child c p eq ih => exact .step eq (ih (index.closed eq).right)
      have ⟨k, done, _⟩ := bind_eq_ok.mp h
      rw [← index.graded.root root, checkFrom_ok_iff path (by simp only [root])] at done
      exact .of_entries known root only fun c known => done.left c (whole root (reaches c known) known)
  case mpr =>
    intro checked
    have ⟨known, root⟩ := checked.filed.genesis
    have single : forward index none = [index.hashGenesisBlock] := by
      refine perm_singleton.mp ((perm_ext_iff_of_nodup (index.nodup.filter _) (nodup_singleton _)).mpr ?_)
      intro b
      refine (roots b).trans (Iff.trans ?_ mem_singleton.symm)
      constructor
      case mp => exact fun ⟨known, root⟩ => checked.filed.single b known root
      case mpr =>
        rintro rfl
        exact ⟨known, root⟩
    have count : (preorder (fun b => forward index (some b)) index.mapBlockIndex.length index.hashGenesisBlock).length =
        index.mapBlockIndex.length := by
      refine List.Perm.length_eq ((perm_ext_iff_of_nodup ?_ index.nodup).mpr fun c => ?_)
      · exact index.graded.preorder_nodup children fun b => index.nodup.filter _
      · refine ⟨fun mem => ?_, fun known => whole root (checked.filed.root known) known⟩
        have ⟨anc, _⟩ := (index.graded.mem_preorder children).mp mem
        exact index.mem_of_root anc known
    have start : match index.pprev index.hashGenesisBlock with
        | none => ({} : FirstBlocks) = {}
        | some p => s.Describes index {} p := by
      simp only [root]
    have done := (checkFrom_ok_iff (n := index.mapBlockIndex.length) path start).mpr
      ⟨fun c mem => checked.entry (index.mem_of_root ((index.graded.mem_preorder children).mp mem).left known), rfl⟩
    rw [index.graded.root root] at done
    simp only [single, done, ok_bind, count]
    exact failIf_of_not (not_not.mpr rfl)

end ChainState

end Qrax
