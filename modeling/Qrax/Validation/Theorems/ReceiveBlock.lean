import Qrax.Validation.Theorems.BestChain

open Fallible Forest List Function

namespace Qrax

open ChainState BlockStatus

namespace Blocks

section

variable (connectBlock : Uint256 → Bool) (blocks : Blocks) (t : Uint256)

structure Unlinked : Prop where
  mem_iff : ∀ p b, (p, b) ∈ blocks.state.mapBlocksUnlinked ↔
    blocks.index.haveData b ∧ ∃ q, p = some q ∧ blocks.index.pprev b = some q ∧ blocks.index.nChainTx q = 0
  nodup : blocks.state.mapBlocksUnlinked.Nodup

structure Kept : Prop where
  standing : blocks.state.Standing blocks.index t
  checked : blocks.state.Checked blocks.index t
  valid : ∀ a, Anc blocks.index.pprev a t → connectBlock a
  unlinked : blocks.Unlinked

-- The same while the queue of `ReceivedBlockTransactions` is worked off: the blocks from the queue upwards wait.
structure Linking (queue : List Uint256) : Prop where
  standing : blocks.state.Standing blocks.index t
  marked : blocks.state.Marked blocks.index
  valid : ∀ a, Anc blocks.index.pprev a t → connectBlock a
  unlinked : blocks.Unlinked
  genesis : blocks.index.hashGenesisBlock ∈ blocks.index.mapBlockIndex ∧
    blocks.index.pprev blocks.index.hashGenesisBlock = none
  single : ∀ b ∈ blocks.index.mapBlockIndex, blocks.index.pprev b = none → b = blocks.index.hashGenesisBlock
  data : ∀ b ∈ blocks.index.mapBlockIndex, blocks.index.haveData b = false ↔ blocks.index.nTx b = 0
  sequence : ∀ b ∈ blocks.index.mapBlockIndex, blocks.index.nChainTx b = 0 → blocks.index.nSequenceId b = 0
  linked : ∀ b ∈ blocks.index.mapBlockIndex, blocks.index.nChainTx b ≠ 0 ↔
    blocks.index.Linked b ∧ ∀ q ∈ queue, ¬Anc blocks.index.pprev q b
  tip : blocks.index.nChainTx t ≠ 0
  candidates : ∀ c ∈ blocks.state.setBlockIndexCandidates,
    blocks.index.nChainTx c ≠ 0 ∧ blocks.index.rank t ≤ blocks.index.rank c
  complete : ∀ g ∈ blocks.index.mapBlockIndex, blocks.index.nChainTx g ≠ 0 → blocks.state.Clean blocks.index g →
    blocks.index.rank t ≤ blocks.index.rank g → g ∈ blocks.state.setBlockIndexCandidates
  queued : ∀ q ∈ queue, q ∈ blocks.index.mapBlockIndex ∧ blocks.index.Linked q ∧
    ∀ p, blocks.index.pprev q = some p → blocks.index.nChainTx p ≠ 0
  nodup : queue.Nodup

end

variable {connectBlock : Uint256 → Bool} {blocks : Blocks} {t q : Uint256} {queue : List Uint256}

theorem Unlinked.mem_iff_of_filed (unlinked : blocks.Unlinked) (filed : blocks.index.Filed) {b : Uint256} :
    (blocks.index.pprev b, b) ∈ blocks.state.mapBlocksUnlinked ↔
      blocks.index.pprev b ≠ none ∧ blocks.index.haveData b ∧ ¬blocks.index.Linked b := by
  rw [unlinked.mem_iff]
  constructor
  case mp =>
    intro ⟨data, p, eq, _, zero⟩
    refine ⟨eq ▸ nofun, data, fun linked => ?_⟩
    exact (filed.linked p (blocks.index.closed eq).right).mp zero (linked.of_anc (.step eq .refl))
  case mpr =>
    intro ⟨child, data, not⟩
    have ⟨p, eq⟩ := Option.ne_none_iff_exists'.mp child
    refine ⟨data, p, eq, eq, (filed.linked p (blocks.index.closed eq).right).mpr fun linked => not fun a anc => ?_⟩
    obtain rfl | anc := (Anc.iff_of_child eq).mp anc
    case inl => exact data
    case inr => exact linked a anc

theorem Linking.filed (h : Linking connectBlock blocks t []) : blocks.index.Filed where
  genesis := h.genesis
  single := h.single
  data := h.data
  sequence := h.sequence
  linked b mem := by
    rw [← not_iff_not, not_not, ← ne_eq, h.linked b mem]
    exact and_iff_left nofun

theorem Linking.kept (h : Linking connectBlock blocks t []) : Kept connectBlock blocks t := by
  have filed := h.filed
  have linked {b : Uint256} (mem : b ∈ blocks.index.mapBlockIndex) :
      blocks.index.nChainTx b ≠ 0 ↔ blocks.index.Linked b :=
    (h.linked b mem).trans (and_iff_left nofun)
  refine ⟨h.standing, ?_, h.valid, h.unlinked⟩
  constructor
  case filed => exact filed
  case genesis => exact h.standing.path.genesis_eq (filed.root h.standing.known) filed.genesis.right
  case marked => exact h.marked
  case complete => exact fun g mem link => h.complete g mem ((linked mem).mpr link)
  case candidates => exact fun b mem here => (h.candidates b here).imp_left (linked mem).mp
  case unlinked =>
    exact fun b _ child data not _ => (h.unlinked.mem_iff_of_filed filed).mpr ⟨child, data, not⟩
  case unlinkedOnly => exact fun b _ mem => (h.unlinked.mem_iff_of_filed filed).mp mem

theorem Linking.apart (h : Linking connectBlock blocks t queue) {r : Uint256} (mem : q ∈ queue) (mem' : r ∈ queue)
    (anc : Anc blocks.index.pprev q r) : q = r := by
  cases anc
  case refl => rfl
  case step p anc eq =>
    have ⟨known, _, parent⟩ := h.queued r mem'
    exact absurd anc (((h.linked p (blocks.index.closed eq).right).mp (parent p eq)).right q mem)

theorem Linking.waiting (h : Linking connectBlock blocks t queue) (mem : q ∈ queue) : blocks.index.nChainTx q = 0 := by
  by_contra done
  exact ((h.linked q (h.queued q mem).left).mp done).right q mem .refl

theorem mem_unlinkedChildren {c : Uint256} :
    c ∈ blocks.unlinkedChildren q ↔ (some q, c) ∈ blocks.state.mapBlocksUnlinked := by
  simp [unlinkedChildren]

-- The block in front is linked, and those that waited for it leave the map.
def next (blocks : Blocks) (q : Uint256) : Blocks :=
  (blocks.link q).dropUnlinked q

theorem next_state (path : CChain.IsPath blocks.index.toBlockTree blocks.state.chainActive t) (q : Uint256) :
    ∃ candidates, (blocks.next q).state = { blocks.state with
        setBlockIndexCandidates := candidates
        mapBlocksUnlinked := blocks.state.mapBlocksUnlinked.filter (·.1 ≠ some q) } ∧
      ∀ c, c ∈ candidates ↔ c ∈ blocks.state.setBlockIndexCandidates ∨
        c = q ∧ (blocks.next q).index.rank t ≤ (blocks.next q).index.rank q := by
  have worse : blocks.state.worseThanTip (blocks.next q).index q ↔ _ := worseThanTip_iff path
  by_cases lt : (blocks.next q).index.rank q < (blocks.next q).index.rank t
  case pos =>
    refine ⟨blocks.state.setBlockIndexCandidates, ?_, fun c => (or_iff_left fun h => not_le.mpr lt h.right).symm⟩
    have same : (blocks.link q).state = blocks.state := if_neg (not_not.mpr (worse.mpr lt))
    rw [next, dropUnlinked, same]
  case neg =>
    refine ⟨blocks.state.setBlockIndexCandidates.insert q, ?_, fun c => ?_⟩
    · have inserted : (blocks.link q).state = blocks.state.insertCandidate q := if_pos (mt worse.mp lt)
      rw [next, dropUnlinked, inserted]
      rfl
    · rw [mem_insert_iff, or_comm]
      exact or_congr_right (and_iff_left (not_lt.mp lt)).symm

theorem rank_next {b : Uint256} (ne : b ≠ q) : (blocks.next q).index.rank b = blocks.index.rank b := by
  have same : (blocks.next q).index.nSequenceId b = blocks.index.nSequenceId b := update_of_ne ne ..
  rw [BlockIndex.rank, same]
  rfl

theorem Linking.next (h : Linking connectBlock blocks t (q :: queue)) :
    Linking connectBlock (blocks.next q) t (queue ++ blocks.unlinkedChildren q) := by
  have ⟨candidates, state, mem_candidates⟩ := next_state h.standing.path q
  have ⟨known, data, parent⟩ := h.queued q mem_cons_self
  have waiting := h.waiting mem_cons_self
  have ⟨new, nodup⟩ := nodup_cons.mp h.nodup
  have positive : 0 < blocks.index.nTx q :=
    Nat.pos_of_ne_zero fun zero => absurd (data q .refl) (Bool.eq_false_iff.mp ((h.data q known).mpr zero))
  have done : (blocks.next q).index.nChainTx q ≠ 0 := by
    have sum : (blocks.next q).index.nChainTx q =
        (blocks.index.pprev q).elim 0 blocks.index.nChainTx + blocks.index.nTx q := update_self ..
    omega
  have other {b : Uint256} (ne : b ≠ q) : (blocks.next q).index.nChainTx b = blocks.index.nChainTx b :=
    update_of_ne ne ..
  have more {b : Uint256} (nonzero : blocks.index.nChainTx b ≠ 0) : (blocks.next q).index.nChainTx b ≠ 0 := by
    by_cases eq : b = q
    case pos => exact eq ▸ done
    case neg => rwa [other eq]
  have tip : t ≠ q := fun eq => h.tip (eq ▸ waiting)
  have child {c : Uint256} (mem : c ∈ blocks.unlinkedChildren q) :
      blocks.index.haveData c ∧ blocks.index.pprev c = some q := by
    have ⟨data, p, eq, up, _⟩ := (h.unlinked.mem_iff _ _).mp (mem_unlinkedChildren.mp mem)
    cases eq
    exact ⟨data, up⟩
  constructor
  case standing =>
    have ⟨path, known, cands, data, failed, scripts⟩ := h.standing
    rw [state]
    refine ⟨path, known, fun c mem => ?_, data, failed, scripts⟩
    obtain mem | ⟨rfl, _⟩ := (mem_candidates c).mp mem
    case inl => exact cands mem
    case inr => exact (h.queued c mem_cons_self).left
  case marked => rw [state]; exact ⟨h.marked.data, h.marked.tree, h.marked.chain, h.marked.scripts, h.marked.failed⟩
  case valid => exact h.valid
  case unlinked =>
    constructor
    case mem_iff =>
      intro p b
      rw [state, mem_filter, h.unlinked.mem_iff, decide_eq_true_eq]
      constructor
      case mp =>
        rintro ⟨⟨data, r, rfl, up, zero⟩, ne⟩
        exact ⟨data, r, rfl, up, (other fun eq => ne (congrArg some eq)).trans zero⟩
      case mpr =>
        rintro ⟨data, r, rfl, up, zero⟩
        have ne : r ≠ q := fun eq => done (eq ▸ zero)
        exact ⟨⟨data, r, rfl, up, (other ne).symm.trans zero⟩, fun eq => ne (Option.some.inj eq)⟩
    case nodup => rw [state]; exact h.unlinked.nodup.filter _
  case genesis => exact h.genesis
  case single => exact h.single
  case data => exact h.data
  case sequence =>
    intro b mem zero
    have ne : b ≠ q := fun eq => done (eq ▸ zero)
    rw [other ne] at zero
    exact (update_of_ne ne ..).trans (h.sequence b mem zero)
  case linked =>
    intro b mem
    by_cases ne : b = q
    case pos =>
      subst ne
      refine iff_of_true done ⟨data, fun r mem anc => ?_⟩
      obtain mem | mem := mem_append.mp mem
      case inl => exact new (h.apart (mem_cons_of_mem _ mem) mem_cons_self anc ▸ mem)
      case inr =>
        have up := blocks.index.graded.child (child mem).right
        have := blocks.index.graded.height_le anc
        omega
    case neg =>
      rw [other ne, h.linked b mem]
      refine and_congr_right fun linked => ⟨fun all r mem anc => ?_, fun all r mem anc => ?_⟩
      · obtain mem | mem := mem_append.mp mem
        case inl => exact all r (mem_cons_of_mem q mem) anc
        case inr => exact all q mem_cons_self (Anc.trans (.step (child mem).right .refl) anc)
      · obtain rfl | mem := mem_cons.mp mem
        case inl =>
          -- The way up to `b` starts with one that waits for the block.
          have ⟨c, up, anc⟩ := anc.exists_child (Ne.symm ne)
          have waits := (h.unlinked.mem_iff (some r) c).mpr ⟨linked c anc, r, rfl, up, waiting⟩
          exact all c (mem_append_right _ (mem_unlinkedChildren.mpr waits)) anc
        case inr => exact all r (mem_append_left _ mem) anc
  case tip => exact more h.tip
  case candidates =>
    intro c mem
    rw [state] at mem
    obtain mem | ⟨rfl, le⟩ := (mem_candidates c).mp mem
    case inl =>
      have ⟨nonzero, le⟩ := h.candidates c mem
      have ne : c ≠ q := fun eq => nonzero (eq ▸ waiting)
      exact ⟨more nonzero, by rwa [rank_next tip, rank_next ne]⟩
    case inr => exact ⟨done, le⟩
  case complete =>
    intro g mem nonzero clean le
    rw [state] at clean ⊢
    rw [mem_candidates]
    by_cases eq : g = q
    case pos => exact .inr ⟨eq, eq ▸ le⟩
    case neg =>
      rw [other eq] at nonzero
      rw [rank_next tip, rank_next eq] at le
      exact .inl (h.complete g mem nonzero clean le)
  case queued =>
    intro r mem
    obtain mem | mem := mem_append.mp mem
    case inl =>
      have ⟨known, linked, parent⟩ := h.queued r (mem_cons_of_mem q mem)
      exact ⟨known, linked, fun p eq => more (parent p eq)⟩
    case inr =>
      have ⟨here, up⟩ := child mem
      refine ⟨(blocks.index.closed up).left, fun a anc => ?_, fun p eq => ?_⟩
      · obtain rfl | anc := (Anc.iff_of_child up).mp anc
        case inl => exact here
        case inr => exact data a anc
      · cases up.symm.trans eq
        exact done
  case nodup =>
    refine nodup_append.mpr ⟨nodup, ?_, fun r mem c mem' eq => ?_⟩
    · refine (h.unlinked.nodup.filter _).map_on fun x mem y mem' eq => Prod.ext ?_ eq
      exact (of_decide_eq_true (mem_filter.mp mem).right).trans
        (of_decide_eq_true (mem_filter.mp mem').right).symm
    · subst eq
      exact (h.queued r (mem_cons_of_mem q mem)).right.right q (child mem').right waiting

theorem linkQueue_links {n : ℕ} (h : Linking connectBlock blocks t queue)
    (enough : queue.length + blocks.state.mapBlocksUnlinked.length ≤ n) :
    Linking connectBlock (linkQueue n queue blocks) t [] := by
  induction n generalizing blocks queue
  case zero =>
    cases length_eq_zero_iff.mp (Nat.eq_zero_of_le_zero ((Nat.le_add_right _ _).trans enough))
    exact h
  case succ n ih =>
    cases queue
    case nil => exact h
    case cons q queue =>
      have ⟨_, state, _⟩ := next_state h.standing.path q
      have left : (blocks.next q).state.mapBlocksUnlinked = blocks.state.mapBlocksUnlinked.filter (¬·.1 = some q) := by
        rw [state]
      -- What enters the queue leaves the map.
      have parts := length_eq_length_filter_add (l := blocks.state.mapBlocksUnlinked) (·.1 = some q)
      simp only [← decide_not] at parts
      have entered : (blocks.unlinkedChildren q).length =
          (blocks.state.mapBlocksUnlinked.filter (·.1 = some q)).length := length_map ..
      have bound : (queue ++ blocks.unlinkedChildren q).length + (blocks.next q).state.mapBlocksUnlinked.length ≤ n := by
        rw [length_cons] at enough
        rw [length_append, left, entered]
        omega
      exact ih h.next bound

def withUnlinked (blocks : Blocks) (mapBlocksUnlinked : List (Option Uint256 × Uint256)) : Blocks :=
  { blocks with state := { blocks.state with mapBlocksUnlinked } }

theorem withUnlinked_index (blocks : Blocks) (mapBlocksUnlinked : List (Option Uint256 × Uint256)) :
    (blocks.withUnlinked mapBlocksUnlinked).index = blocks.index :=
  rfl

def store (blocks : Blocks) (nTx : ℕ) (pindexNew : Uint256) : Blocks :=
  { blocks with
    index := { blocks.index with
      haveData := Function.update blocks.index.haveData pindexNew true
      nTx := Function.update blocks.index.nTx pindexNew nTx
      nChainTx := Function.update blocks.index.nChainTx pindexNew 0 }
    state := blocks.state.setStatus pindexNew ((blocks.state.nStatus pindexNew).raiseValidity .TRANSACTIONS) }

-- What the checks ensure: the data are new, neither the block nor its parent failed, and it has transactions.
structure Expected (blocks : Blocks) (nTx : ℕ) (pindexNew p : Uint256) : Prop where
  known : pindexNew ∈ blocks.index.mapBlockIndex
  new : blocks.index.haveData pindexNew = false
  failed : (blocks.state.nStatus pindexNew).failed = false
  parent : blocks.index.pprev pindexNew = some p
  unfailed : (blocks.state.nStatus p).failed = false
  nonempty : 0 < nTx

section

variable {nTx : ℕ} {pindexNew p b : Uint256}

theorem haveData_store (ne : b ≠ pindexNew) :
    (blocks.store nTx pindexNew).index.haveData b = blocks.index.haveData b :=
  update_of_ne ne ..

theorem haveData_store_self : (blocks.store nTx pindexNew).index.haveData pindexNew :=
  update_self ..

theorem nTx_store (ne : b ≠ pindexNew) : (blocks.store nTx pindexNew).index.nTx b = blocks.index.nTx b :=
  update_of_ne ne ..

theorem nTx_store_self : (blocks.store nTx pindexNew).index.nTx pindexNew = nTx :=
  update_self ..

theorem nStatus_store (ne : b ≠ pindexNew) :
    (blocks.store nTx pindexNew).state.nStatus b = blocks.state.nStatus b :=
  update_of_ne ne ..

theorem nStatus_store_self : (blocks.store nTx pindexNew).state.nStatus pindexNew =
    (blocks.state.nStatus pindexNew).raiseValidity .TRANSACTIONS :=
  update_self ..

theorem linked_store (new : blocks.index.haveData pindexNew = false) :
    blocks.index.Linked b ↔ (blocks.store nTx pindexNew).index.Linked b ∧ ¬Anc blocks.index.pprev pindexNew b := by
  constructor
  case mp =>
    intro linked
    refine ⟨fun a anc => ?_, fun anc => absurd (linked pindexNew anc) (Bool.eq_false_iff.mp new)⟩
    have ne : a ≠ pindexNew := fun eq => absurd (linked a anc) (Bool.eq_false_iff.mp (eq ▸ new))
    exact (haveData_store ne).trans (linked a anc)
  case mpr =>
    intro ⟨linked, off⟩ a anc
    have ne : a ≠ pindexNew := fun eq => off (eq ▸ anc)
    exact (haveData_store ne).symm.trans (linked a anc)

theorem failed_store : ((blocks.store nTx pindexNew).state.nStatus b).failed = (blocks.state.nStatus b).failed := by
  by_cases eq : b = pindexNew
  case pos => rw [eq, nStatus_store_self, failed_raiseValidity]
  case neg => rw [nStatus_store eq]

theorem clean_store : (blocks.store nTx pindexNew).state.Clean blocks.index b ↔ blocks.state.Clean blocks.index b := by
  refine forall₂_congr fun a _ => ?_
  by_cases eq : a = pindexNew
  case pos => rw [eq, nStatus_store_self, failedValid_raiseValidity]
  case neg => rw [nStatus_store eq]

variable (h : Kept connectBlock blocks t) (expected : blocks.Expected nTx pindexNew p)
include h expected

theorem Kept.nChainTx_store : (blocks.store nTx pindexNew).index.nChainTx = blocks.index.nChainTx := by
  refine update_eq_self_iff.mpr ((h.checked.filed.linked _ expected.known).mpr fun linked => ?_).symm
  exact absurd (linked pindexNew .refl) (Bool.eq_false_iff.mp expected.new)

theorem Kept.not_reached : ¬(blocks.state.nStatus pindexNew).reached .TRANSACTIONS := by
  have none := (h.checked.filed.data _ expected.known).mp expected.new
  rw [h.checked.marked.data _ expected.known, none]
  exact Nat.lt_irrefl 0

theorem Kept.reached_store_self (v : BlockValidity) :
    ((blocks.store nTx pindexNew).state.nStatus pindexNew).reached v ↔
      v.toNat ≤ BlockValidity.TRANSACTIONS.toNat := by
  have below := h.not_reached expected
  rw [nStatus_store_self, reached_raiseValidity expected.failed]
  refine or_iff_right_of_imp fun reached => ?_
  simp only [BlockStatus.reached, decide_eq_true_eq] at below reached
  omega

theorem Kept.reached_store {v : BlockValidity} (high : BlockValidity.TRANSACTIONS.toNat < v.toNat) (b : Uint256) :
    ((blocks.store nTx pindexNew).state.nStatus b).reached v ↔ (blocks.state.nStatus b).reached v := by
  by_cases eq : b = pindexNew
  case pos =>
    rw [eq, h.reached_store_self expected]
    exact iff_of_false (Nat.not_le.mpr high) (mt (reached_of_le high.le) (h.not_reached expected))
  case neg => rw [nStatus_store eq]

theorem Kept.marked_store : (blocks.store nTx pindexNew).state.Marked (blocks.store nTx pindexNew).index := by
  constructor
  case data =>
    intro b known
    by_cases eq : b = pindexNew
    case pos =>
      rw [eq, h.reached_store_self expected, nTx_store_self]
      exact iff_of_true (le_refl _) expected.nonempty
    case neg =>
      rw [nStatus_store eq, nTx_store eq]
      exact h.checked.marked.data b known
  case tree =>
    intro b known child
    by_cases eq : b = pindexNew
    case pos =>
      rw [eq, h.reached_store_self expected]
      decide
    case neg =>
      rw [nStatus_store eq]
      exact h.checked.marked.tree b known child
  case chain =>
    intro b known reached a anc child
    rw [h.reached_store expected (by decide)] at reached ⊢
    exact h.checked.marked.chain b known reached a anc child
  case scripts =>
    intro b known reached a anc child
    rw [h.reached_store expected (by decide)] at reached ⊢
    exact h.checked.marked.scripts b known reached a anc child
  case failed =>
    intro b known clean
    rw [failed_store]
    exact h.checked.marked.failed b known (clean_store.mp clean)

theorem Kept.standing_store : (blocks.store nTx pindexNew).state.Standing (blocks.store nTx pindexNew).index t := by
  have ⟨path, known, candidates, data, failed, scripts⟩ := h.standing
  have ne {a : Uint256} (anc : Anc blocks.index.pprev a t) : a ≠ pindexNew :=
    fun eq => absurd (data a anc) (Bool.eq_false_iff.mp (eq ▸ expected.new))
  refine ⟨path, known, candidates, fun a anc => ?_, fun a anc => ?_, fun a anc child => ?_⟩
  · exact (haveData_store (ne anc)).trans (data a anc)
  · exact failed_store.trans (failed a anc)
  · exact (h.reached_store expected (by decide) a).mpr (scripts a anc child)

theorem Kept.linking_store {mapBlocksUnlinked : List (Option Uint256 × Uint256)}
    (unlinked : ((blocks.store nTx pindexNew).withUnlinked mapBlocksUnlinked).Unlinked)
    (linked : ∀ b ∈ blocks.index.mapBlockIndex, blocks.index.Linked b ↔
      (blocks.store nTx pindexNew).index.Linked b ∧ ∀ q ∈ queue, ¬Anc blocks.index.pprev q b)
    (queued : ∀ q ∈ queue, q ∈ blocks.index.mapBlockIndex ∧ (blocks.store nTx pindexNew).index.Linked q ∧
      ∀ p, blocks.index.pprev q = some p → blocks.index.nChainTx p ≠ 0) (nodup : queue.Nodup) :
    Linking connectBlock ((blocks.store nTx pindexNew).withUnlinked mapBlocksUnlinked) t queue := by
  have same := h.nChainTx_store expected
  have filed := h.checked.filed
  have nonzero {b : Uint256} (mem : b ∈ blocks.index.mapBlockIndex) :
      blocks.index.nChainTx b ≠ 0 ↔ blocks.index.Linked b := by
    rw [ne_eq, filed.linked b mem, not_not]
  constructor
  case standing =>
    obtain ⟨path, known, candidates, data, failed, scripts⟩ := h.standing_store expected
    exact ⟨path, known, candidates, data, failed, scripts⟩
  case marked =>
    obtain ⟨data, tree, chain, scripts, failed⟩ := h.marked_store expected
    exact ⟨data, tree, chain, scripts, failed⟩
  case valid => exact h.valid
  case unlinked => exact unlinked
  case genesis => exact filed.genesis
  case single => exact filed.single
  case data =>
    intro b mem
    rw [withUnlinked_index]
    by_cases eq : b = pindexNew
    case pos =>
      subst eq
      exact iff_of_false (by rw [haveData_store_self]; rintro ⟨⟩) (by rw [nTx_store_self]; exact expected.nonempty.ne')
    case neg =>
      have := filed.data b mem
      rwa [← haveData_store eq, ← nTx_store eq] at this
  case sequence => rw [withUnlinked_index, same]; exact filed.sequence
  case linked =>
    intro b mem
    rw [withUnlinked_index, same, nonzero mem]
    exact linked b mem
  case tip => rw [withUnlinked_index, same]; exact (nonzero h.standing.known).mpr h.standing.data
  case candidates =>
    intro c mem
    have known := h.standing.candidates mem
    rw [withUnlinked_index, same, nonzero known]
    exact h.checked.candidates c known mem
  case complete =>
    intro g mem linked clean
    have clean : (blocks.store nTx pindexNew).state.Clean blocks.index g := clean
    rw [withUnlinked_index, same, nonzero mem] at linked
    exact h.checked.complete g mem linked (clean_store.mp clean)
  case queued => rw [withUnlinked_index, same]; exact queued
  case nodup => exact nodup

theorem Kept.unlinked_store {r : Option Uint256} :
    ((blocks.store nTx pindexNew).index.haveData b ∧
      ∃ q, r = some q ∧ blocks.index.pprev b = some q ∧ (blocks.store nTx pindexNew).index.nChainTx q = 0) ↔
      (r, b) ∈ blocks.state.mapBlocksUnlinked ∨ (r, b) = (some p, pindexNew) ∧ blocks.index.nChainTx p = 0 := by
  rw [h.nChainTx_store expected, h.unlinked.mem_iff]
  by_cases eq : b = pindexNew
  case pos =>
    subst eq
    simp only [haveData_store_self, expected.new, expected.parent, Option.some.injEq, Prod.mk.injEq, true_and,
      Bool.false_eq_true, false_and, false_or, and_true]
    constructor
    case mp =>
      rintro ⟨q, rfl, rfl, zero⟩
      exact ⟨rfl, zero⟩
    case mpr =>
      rintro ⟨rfl, zero⟩
      exact ⟨p, rfl, rfl, zero⟩
  case neg =>
    rw [haveData_store eq]
    exact (or_iff_left fun new => eq (Prod.mk.inj new.left).right).symm

theorem Kept.receivedBlockTransactions :
    Kept connectBlock (blocks.receivedBlockTransactions nTx pindexNew) t := by
  have filed := h.checked.filed
  have ⟨known, new, _, parent, unfailed, _⟩ := expected
  have up := blocks.index.graded.child parent
  have outside : ¬Anc blocks.index.pprev pindexNew p := fun anc => by
    have := blocks.index.graded.height_le anc
    omega
  have ne : p ≠ pindexNew := fun eq => outside (eq ▸ .refl)
  have same := h.nChainTx_store expected
  have zero_iff := filed.linked p (blocks.index.closed parent).right
  have waits {r : Option Uint256} {b : Uint256} := h.unlinked_store expected (r := r) (b := b)
  have unfolded : blocks.receivedBlockTransactions nTx pindexNew =
      if (blocks.store nTx pindexNew).index.nChainTx p ≠ 0 then
        linkQueue (blocks.state.mapBlocksUnlinked.length + 1) [pindexNew] (blocks.store nTx pindexNew)
      else if ((blocks.store nTx pindexNew).state.nStatus p).isValid .TREE then
        (blocks.store nTx pindexNew).withUnlinked (blocks.state.mapBlocksUnlinked ++ [(some p, pindexNew)])
      else blocks.store nTx pindexNew := by
    simp only [Blocks.receivedBlockTransactions, parent]
    rfl
  rw [unfolded, same]
  split
  case isTrue nonzero =>
    have linked : blocks.index.Linked p := not_not.mp (mt zero_iff.mpr nonzero)
    have start : Linking connectBlock (blocks.store nTx pindexNew) t [pindexNew] := by
      refine h.linking_store expected ⟨fun r b => ?_, h.unlinked.nodup⟩ ?_ ?_ (nodup_singleton _)
      case refine_1 => exact (or_iff_left fun new => nonzero new.right).symm.trans waits.symm
      case refine_2 =>
        intro b _
        rw [linked_store new, forall_mem_singleton]
      case refine_3 =>
        intro q mem
        cases mem_singleton.mp mem
        refine ⟨known, fun a anc => ?_, fun q eq => ?_⟩
        · obtain rfl | anc := (Anc.iff_of_child parent).mp anc
          case inl => exact haveData_store_self
          case inr => exact ((linked_store new).mp linked).left a anc
        · cases parent.symm.trans eq
          exact nonzero
    exact (linkQueue_links start (Nat.add_comm _ _).le).kept
  case isFalse zero =>
    have zero := not_not.mp zero
    have valid : ((blocks.store nTx pindexNew).state.nStatus p).isValid .TREE := by
      have child : blocks.index.pprev p ≠ none := fun root => by
        have data : blocks.index.Linked blocks.index.hashGenesisBlock :=
          fun a anc => h.standing.data a (anc.trans (filed.root h.standing.known))
        exact zero_iff.mp zero (filed.single p (blocks.index.closed parent).right root ▸ data)
      rw [nStatus_store ne, isValid, unfailed]
      exact h.checked.marked.tree p (blocks.index.closed parent).right child
    rw [if_pos valid]
    refine Linking.kept (h.linking_store expected ⟨fun r b => ?_, ?_⟩ ?_ nofun nodup_nil)
    case refine_1 =>
      refine mem_append.trans (Iff.trans (or_congr_right ?_) waits.symm)
      rw [mem_singleton, and_iff_left zero]
    case refine_2 =>
      refine nodup_append.mpr ⟨h.unlinked.nodup, nodup_singleton _, fun x mem y mem' eq => ?_⟩
      cases mem_singleton.mp mem'
      cases eq
      exact absurd ((h.unlinked.mem_iff _ _).mp mem).left (Bool.eq_false_iff.mp new)
    case refine_3 =>
      intro b _
      rw [linked_store new]
      refine and_congr_right fun linked => iff_of_true (fun anc => ?_) nofun
      have below : (blocks.store nTx pindexNew).index.Linked p := linked.of_anc (Anc.trans (.step parent .refl) anc)
      exact zero_iff.mp zero ((linked_store new).mpr ⟨below, outside⟩)

end

variable {header : BlockHeader} {b a : Uint256}

structure Entered (blocks : Blocks) (header : BlockHeader) (blocks' : Blocks) : Prop where
  mapBlockIndex : blocks'.index.mapBlockIndex = blocks.index.mapBlockIndex ++ [header.hash]
  pprev : blocks'.index.pprev = Function.update blocks.index.pprev header.hash (some header.hashPrevBlock)
  nHeight : ∀ b, b ≠ header.hash → blocks'.index.nHeight b = blocks.index.nHeight b
  rank : ∀ b, b ≠ header.hash → blocks'.index.rank b = blocks.index.rank b
  hashGenesisBlock : blocks'.index.hashGenesisBlock = blocks.index.hashGenesisBlock
  haveData : blocks'.index.haveData = Function.update blocks.index.haveData header.hash false
  nTx : blocks'.index.nTx = Function.update blocks.index.nTx header.hash 0
  nChainTx : blocks'.index.nChainTx = Function.update blocks.index.nChainTx header.hash 0
  nSequenceId : blocks'.index.nSequenceId = Function.update blocks.index.nSequenceId header.hash 0
  state : blocks'.state = blocks.state.setStatus header.hash { validity := .TREE }

theorem addToBlockIndex_enters (new : header.hash ∉ blocks.index.mapBlockIndex)
    (known : header.hashPrevBlock ∈ blocks.index.mapBlockIndex) :
    Entered blocks header (blocks.addToBlockIndex header) := by
  unfold addToBlockIndex
  rw [dif_pos new]
  constructor
  case mapBlockIndex => rfl
  case pprev => simp only [BlockTree.insert, if_pos known]
  case nHeight => exact fun b ne => update_of_ne ne ..
  case rank =>
    intro b ne
    simp only [BlockIndex.rank, BlockTree.insert, update_of_ne ne]
  case hashGenesisBlock => rfl
  case haveData => rfl
  case nTx => rfl
  case nChainTx => rfl
  case nSequenceId => rfl
  case state => rfl

namespace Entered

variable {blocks' : Blocks} (entered : Entered blocks header blocks')
include entered

theorem pprev_eq (ne : b ≠ header.hash) : blocks'.index.pprev b = blocks.index.pprev b := by
  rw [entered.pprev, update_of_ne ne]

theorem pprev_hash : blocks'.index.pprev header.hash = some header.hashPrevBlock := by
  rw [entered.pprev, update_self]

theorem haveData_eq (ne : b ≠ header.hash) : blocks'.index.haveData b = blocks.index.haveData b := by
  rw [entered.haveData, update_of_ne ne]

theorem haveData_hash : blocks'.index.haveData header.hash = false := by
  rw [entered.haveData, update_self]

theorem nChainTx_eq (ne : b ≠ header.hash) : blocks'.index.nChainTx b = blocks.index.nChainTx b := by
  rw [entered.nChainTx, update_of_ne ne]

theorem nStatus_eq (ne : b ≠ header.hash) : blocks'.state.nStatus b = blocks.state.nStatus b := by
  rw [entered.state]
  exact update_of_ne ne ..

theorem nStatus_hash : blocks'.state.nStatus header.hash = { validity := .TREE } := by
  rw [entered.state]
  exact update_self ..

theorem mem_iff : b ∈ blocks'.index.mapBlockIndex ↔ b ∈ blocks.index.mapBlockIndex ∨ b = header.hash := by
  rw [entered.mapBlockIndex, mem_append, mem_singleton]

theorem linked_hash : ¬blocks'.index.Linked header.hash :=
  fun linked => absurd (linked header.hash .refl) (Bool.eq_false_iff.mp entered.haveData_hash)

variable (new : header.hash ∉ blocks.index.mapBlockIndex)
include new

omit entered in
theorem ne_of_known (known : b ∈ blocks.index.mapBlockIndex) : b ≠ header.hash :=
  fun eq => new (eq ▸ known)

theorem forall_known {P : Uint256 → Prop} (here : P header.hash)
    (old : ∀ b ∈ blocks.index.mapBlockIndex, b ≠ header.hash → P b) : ∀ b ∈ blocks'.index.mapBlockIndex, P b := by
  intro b mem
  obtain known | rfl := entered.mem_iff.mp mem
  case inl => exact old b known (ne_of_known new known)
  case inr => exact here

theorem anc_iff (ne : b ≠ header.hash) : Anc blocks'.index.pprev a b ↔ Anc blocks.index.pprev a b := by
  constructor
  case mp =>
    intro anc
    induction anc
    case refl => exact .refl
    case step eq _ ih =>
      rw [entered.pprev_eq ne] at eq
      exact .step eq (ih (blocks.index.ne_of_pprev new eq).right)
  case mpr =>
    intro anc
    rw [entered.pprev]
    exact blocks.index.anc_update new anc

theorem linked_iff (known : b ∈ blocks.index.mapBlockIndex) : blocks'.index.Linked b ↔ blocks.index.Linked b := by
  refine forall_congr' fun a => ?_
  rw [entered.anc_iff new (ne_of_known new known)]
  refine forall_congr' fun anc => ?_
  rw [entered.haveData_eq (ne_of_known new (blocks.index.mem_of_anc anc known))]

theorem clean_iff (known : b ∈ blocks.index.mapBlockIndex) :
    blocks'.state.Clean blocks'.index b ↔ blocks.state.Clean blocks.index b := by
  refine forall_congr' fun a => ?_
  rw [entered.anc_iff new (ne_of_known new known)]
  refine forall_congr' fun anc => ?_
  rw [entered.nStatus_eq (ne_of_known new (blocks.index.mem_of_anc anc known))]

theorem standing (h : blocks.state.Standing blocks.index t) : blocks'.state.Standing blocks'.index t := by
  have ⟨path, known, candidates, data, failed, scripts⟩ := h
  have ne := ne_of_known new known
  have within {a : Uint256} (anc : Anc blocks'.index.pprev a t) : Anc blocks.index.pprev a t ∧ a ≠ header.hash := by
    rw [entered.anc_iff new ne] at anc
    exact ⟨anc, ne_of_known new (blocks.index.mem_of_anc anc known)⟩
  constructor
  case path =>
    have size : blocks.state.chainActive.vChain.length = blocks.index.nHeight t + 1 := by
      rw [path, length_map, blocks.index.graded.path_length]
    rw [entered.state]
    refine CChain.isPath_of_forall ?_ fun a anc => ?_
    · rw [entered.nHeight t ne]
      exact size
    · have ⟨anc, ne⟩ := within anc
      rw [entered.nHeight a ne]
      exact CChain.join_eq_some.mp (path.at'_eq_some.mpr ⟨anc, rfl⟩)
  case known => exact entered.mem_iff.mpr (.inl known)
  case candidates =>
    rw [entered.state]
    exact fun c mem => entered.mem_iff.mpr (.inl (candidates mem))
  case data =>
    intro a anc
    have ⟨anc, ne⟩ := within anc
    rw [entered.haveData_eq ne]
    exact data a anc
  case failed =>
    intro a anc
    have ⟨anc, ne⟩ := within anc
    rw [entered.nStatus_eq ne]
    exact failed a anc
  case scripts =>
    intro a anc child
    have ⟨anc, ne⟩ := within anc
    rw [entered.nStatus_eq ne]
    exact scripts a anc (entered.pprev_eq ne ▸ child)

theorem filed (h : blocks.index.Filed) : blocks'.index.Filed := by
  constructor
  case genesis =>
    rw [entered.hashGenesisBlock, entered.pprev_eq (ne_of_known new h.genesis.left)]
    exact ⟨entered.mem_iff.mpr (.inl h.genesis.left), h.genesis.right⟩
  case single =>
    refine entered.forall_known new (fun root => absurd (entered.pprev_hash.symm.trans root) nofun) ?_
    intro b known ne root
    rw [entered.pprev_eq ne] at root
    rw [entered.hashGenesisBlock]
    exact h.single b known root
  case data =>
    refine entered.forall_known new ?_ fun b known ne => ?_
    · rw [entered.nTx, update_self]
      exact iff_of_true entered.haveData_hash rfl
    · rw [entered.haveData_eq ne, entered.nTx, update_of_ne ne]
      exact h.data b known
  case sequence =>
    refine entered.forall_known new ?_ fun b known ne => ?_
    · rw [entered.nSequenceId, update_self]
      exact fun _ => rfl
    · rw [entered.nChainTx_eq ne, entered.nSequenceId, update_of_ne ne]
      exact h.sequence b known
  case linked =>
    refine entered.forall_known new ?_ fun b known ne => ?_
    · rw [entered.nChainTx, update_self]
      exact iff_of_true rfl entered.linked_hash
    · rw [entered.nChainTx_eq ne, entered.linked_iff new known]
      exact h.linked b known

theorem marked (h : blocks.state.Marked blocks.index) : blocks'.state.Marked blocks'.index := by
  have low {v : BlockValidity} (high : BlockValidity.TREE.toNat < v.toNat) :
      ¬(blocks'.state.nStatus header.hash).reached v := by
    rw [entered.nStatus_hash]
    exact fun reached => absurd (of_decide_eq_true reached) (Nat.not_le.mpr high)
  -- Only known blocks are above the header's stage.
  have above {v : BlockValidity} (high : BlockValidity.TREE.toNat < v.toNat)
      (old : ∀ b ∈ blocks.index.mapBlockIndex, (blocks.state.nStatus b).reached v →
        ∀ a, Anc blocks.index.pprev a b → blocks.index.pprev a ≠ none → (blocks.state.nStatus a).reached v) :
      ∀ b ∈ blocks'.index.mapBlockIndex, (blocks'.state.nStatus b).reached v →
        ∀ a, Anc blocks'.index.pprev a b → blocks'.index.pprev a ≠ none → (blocks'.state.nStatus a).reached v := by
    refine entered.forall_known new (fun reached => absurd reached (low high)) ?_
    intro b known ne reached a anc child
    rw [entered.anc_iff new ne] at anc
    have ne' := ne_of_known new (blocks.index.mem_of_anc anc known)
    rw [entered.nStatus_eq ne] at reached
    rw [entered.pprev_eq ne'] at child
    rw [entered.nStatus_eq ne']
    exact old b known reached a anc child
  constructor
  case data =>
    refine entered.forall_known new ?_ fun b known ne => ?_
    · rw [entered.nTx, update_self]
      exact iff_of_false (low (by decide)) (Nat.lt_irrefl 0)
    · rw [entered.nStatus_eq ne, entered.nTx, update_of_ne ne]
      exact h.data b known
  case tree =>
    refine entered.forall_known new (fun _ => ?_) fun b known ne child => ?_
    · rw [entered.nStatus_hash]
      rfl
    · rw [entered.pprev_eq ne] at child
      rw [entered.nStatus_eq ne]
      exact h.tree b known child
  case chain => exact above (by decide) h.chain
  case scripts => exact above (by decide) h.scripts
  case failed =>
    refine entered.forall_known new (fun _ => ?_) fun b known ne clean => ?_
    · rw [entered.nStatus_hash]
      rfl
    · rw [entered.nStatus_eq ne]
      exact h.failed b known ((entered.clean_iff new known).mp clean)

theorem unlinked (h : blocks.Unlinked) : blocks'.Unlinked := by
  constructor
  case nodup => rw [entered.state]; exact h.nodup
  case mem_iff =>
    intro p b
    rw [entered.state]
    refine (h.mem_iff p b).trans ?_
    by_cases eq : b = header.hash
    case pos =>
      rw [eq, entered.haveData_hash, blocks.index.pprev_of_not_mem new]
      exact iff_of_false (by rintro ⟨_, _, _, ⟨⟩, _⟩) (by rintro ⟨⟨⟩, _⟩)
    case neg =>
      rw [entered.haveData_eq eq, entered.pprev_eq eq]
      refine and_congr_right fun _ => exists_congr fun q => and_congr_right fun _ => and_congr_right fun up => ?_
      rw [entered.nChainTx_eq (blocks.index.ne_of_pprev new up).right]

end Entered

theorem Kept.addToBlockIndex (h : Kept connectBlock blocks t)
    (known : header.hashPrevBlock ∈ blocks.index.mapBlockIndex) :
    Kept connectBlock (blocks.addToBlockIndex header) t := by
  by_cases new : header.hash ∈ blocks.index.mapBlockIndex
  case pos =>
    rw [Blocks.addToBlockIndex, dif_neg (not_not.mpr new)]
    exact h
  case neg =>
    have entered := addToBlockIndex_enters new known
    have ne {b : Uint256} := Entered.ne_of_known new (b := b)
    have filed := entered.filed new h.checked.filed
    have unlinked := entered.unlinked new h.unlinked
    have tip := ne h.standing.known
    refine ⟨entered.standing new h.standing, ?_, ?_, unlinked⟩
    case refine_2 =>
      intro a anc
      exact h.valid a ((entered.anc_iff new tip).mp anc)
    constructor
    case filed => exact filed
    case genesis => rw [entered.state, entered.hashGenesisBlock]; exact h.checked.genesis
    case marked => exact entered.marked new h.checked.marked
    case complete =>
      refine entered.forall_known new (fun linked => absurd linked entered.linked_hash) ?_
      intro g known ne linked clean le
      rw [entered.linked_iff new known] at linked
      rw [entered.clean_iff new known] at clean
      rw [entered.rank t tip, entered.rank g ne] at le
      rw [entered.state]
      exact h.checked.complete g known linked clean le
    case candidates =>
      intro b _ mem
      rw [entered.state] at mem
      have mem' := h.standing.candidates mem
      rw [entered.linked_iff new mem', entered.rank t tip, entered.rank b (ne mem')]
      exact h.checked.candidates b mem' mem
    case unlinked =>
      exact fun b _ child data not _ => (unlinked.mem_iff_of_filed filed).mpr ⟨child, data, not⟩
    case unlinkedOnly => exact fun b _ mem => (unlinked.mem_iff_of_filed filed).mp mem

theorem getAncestor_follows_pprev (hashGenesisBlock : Uint256) (address : Uint256 ↪ ℕ) (headers : List BlockHeader)
    (b : Uint256) :
    let tree := (headers.foldl addToBlockIndex (empty hashGenesisBlock address)).index.toBlockTree
    (∀ height : ℤ,
      (tree.getAncestorInt b height = if 0 ≤ height ∧ height ≤ tree.nHeight b then
        (·.bind tree.pprev)^[tree.nHeight b - height.toNat] (some b) else none) ∧
      (0 ≤ height ∧ height ≤ tree.nHeight b → ∀ n ≥ tree.nHeight b,
        tree.walkBack height.toNat n b (tree.nHeight b) = tree.getAncestorInt b height)) ∧
    ∀ p, tree.pprev b = some p → ∃ a, tree.pskip b = some a ∧ a ≠ b ∧ Anc tree.pprev a b ∧
      tree.nHeight a = getSkipHeight (tree.nHeight b) := by
  intro tree
  refine ⟨tree.getAncestorInt_eq b, fun p up => ?_⟩
  obtain ⟨a, skip, anc, height⟩ := tree.skips up
  refine ⟨a, skip, ?_, anc, height⟩
  rintro rfl
  have lower := getSkipHeight_lt (show 0 < tree.nHeight a by rw [tree.graded.child up]; exact Nat.succ_pos _)
  omega

end Blocks

end Qrax
