import Qrax.Chain.Theorems.BlockIndex
import Qrax.Validation.ChainState

open Forest Bool
open Function (update_of_ne update_self)

namespace Qrax

open BlockStatus

namespace ChainState

section

variable (index : BlockIndex) (connectBlock : Uint256 → Bool) (s : ChainState)

def Clean (b : Uint256) : Prop :=
  ∀ a, Anc index.pprev a b → (s.nStatus a).failedValid = false

-- What `CheckBlockIndex` asserts of the stages and the marks of failures.
structure Marked : Prop where
  data : ∀ b ∈ index.mapBlockIndex, (s.nStatus b).reached .TRANSACTIONS ↔ 0 < index.nTx b
  tree : ∀ b ∈ index.mapBlockIndex, index.pprev b ≠ none → (s.nStatus b).reached .TREE
  chain : ∀ b ∈ index.mapBlockIndex, (s.nStatus b).reached .CHAIN →
    ∀ a, Anc index.pprev a b → index.pprev a ≠ none → (s.nStatus a).reached .CHAIN
  scripts : ∀ b ∈ index.mapBlockIndex, (s.nStatus b).reached .SCRIPTS →
    ∀ a, Anc index.pprev a b → index.pprev a ≠ none → (s.nStatus a).reached .SCRIPTS
  failed : ∀ b ∈ index.mapBlockIndex, s.Clean index b → (s.nStatus b).failed = false

structure Accepted (b : Uint256) : Prop where
  valid : connectBlock b
  data : index.haveData b
  failed : (s.nStatus b).failed = false
  scripts : index.pprev b ≠ none → (s.nStatus b).reached .SCRIPTS

structure Active (t : Uint256) : Prop where
  path : CChain.IsPath index.toBlockTree s.chainActive t
  known : t ∈ index.mapBlockIndex
  accepted : ∀ a, Anc index.pprev a t → s.Accepted index connectBlock a
  candidates : ∀ c ∈ s.setBlockIndexCandidates,
    c ∈ index.mapBlockIndex ∧ index.Linked c ∧ index.rank t ≤ index.rank c

-- Every available block without an invalid ancestor is a candidate, from some rank on.
def Complete (r : ℕ ×ₗ ℕᵒᵈ ×ₗ ℕᵒᵈ) : Prop :=
  ∀ g ∈ index.mapBlockIndex, index.Linked g → s.Clean index g → r ≤ index.rank g → g ∈ s.setBlockIndexCandidates

-- The assertions on marks and candidates, the latter from some rank on.
structure Sound (r : ℕ ×ₗ ℕᵒᵈ ×ₗ ℕᵒᵈ) : Prop where
  marked : s.Marked index
  complete : s.Complete index r

-- How the state and the tip change. `pindexBestInvalid` is open, as nothing depends on it.
structure Disconnects (s : ChainState) (t : Uint256) (s' : ChainState) (p : Uint256) : Prop where
  parent : index.pprev t = some p
  path : CChain.IsPath index.toBlockTree s'.chainActive p
  nStatus : s'.nStatus = s.nStatus
  candidates : s'.setBlockIndexCandidates = s.setBlockIndexCandidates
  unlinked : s'.mapBlocksUnlinked = s.mapBlocksUnlinked

structure Connects (s : ChainState) (t : Uint256) (s' : ChainState) (b : Uint256) : Prop where
  parent : index.pprev b = some t
  valid : connectBlock b
  data : index.haveData b
  failed : (s.nStatus b).failed = false
  path : CChain.IsPath index.toBlockTree s'.chainActive b
  nStatus : s'.nStatus = Function.update s.nStatus b ((s.nStatus b).raiseValidity .SCRIPTS)
  candidates : ∀ c, c ∈ s'.setBlockIndexCandidates ↔
    c ∈ s.setBlockIndexCandidates ∧ index.rank b ≤ index.rank c
  unlinked : s'.mapBlocksUnlinked = s.mapBlocksUnlinked

structure Fails (s : ChainState) (t : Uint256) (s' : ChainState) (b : Uint256) : Prop where
  parent : index.pprev b = some t
  invalid : connectBlock b = false
  chainActive : s'.chainActive = s.chainActive
  nStatus : s'.nStatus = Function.update s.nStatus b { s.nStatus b with failedValid := true }
  candidates : ∀ c, c ∈ s'.setBlockIndexCandidates ↔ c ∈ s.setBlockIndexCandidates ∧ c ≠ b
  unlinked : s'.mapBlocksUnlinked = s.mapBlocksUnlinked

structure Rejects (s s' : ChainState) (x m : Uint256) : Prop where
  failed : (s.nStatus x).failed
  chainActive : s'.chainActive = s.chainActive
  above : ∀ c, Anc index.pprev x c → Anc index.pprev c m → c ≠ x →
    s'.nStatus c = { s.nStatus c with failedChild := true }
  elsewhere : ∀ c, ¬(Anc index.pprev x c ∧ Anc index.pprev c m ∧ c ≠ x) → s'.nStatus c = s.nStatus c
  candidates : ∀ c, c ∈ s'.setBlockIndexCandidates ↔
    c ∈ s.setBlockIndexCandidates ∧ ¬(Anc index.pprev x c ∧ Anc index.pprev c m)
  unlinked : s'.mapBlocksUnlinked = s.mapBlocksUnlinked

inductive Move : ChainState × Uint256 → ChainState × Uint256 → Prop
  | disconnect {s s' t p} : Disconnects index s t s' p → Move (s, t) (s', p)
  | connect {s s' t b} : Connects index connectBlock s t s' b → Move (s, t) (s', b)
  | fail {s s' t b} : Fails index connectBlock s t s' b → Move (s, t) (s', t)
  | reject {s s' t x m} : Rejects index s s' x m → Move (s, t) (s', t)

abbrev Moves :=
  Relation.ReflTransGen (Move index connectBlock)

structure Worn (s s' : ChainState) : Prop where
  candidates : s'.setBlockIndexCandidates ⊆ s.setBlockIndexCandidates
  failed : ∀ b, (s.nStatus b).failed → (s'.nStatus b).failed
  kept : ∀ b, (s.nStatus b).failedValid → (s'.nStatus b).failedValid
  found : ∀ b, (s'.nStatus b).failedValid → (s.nStatus b).failedValid ∨ connectBlock b = false
  unlinked : s'.mapBlocksUnlinked = s.mapBlocksUnlinked

end

variable {index : BlockIndex} {connectBlock : Uint256 → Bool} {s s' s'' : ChainState} {t t' b c m x : Uint256}

theorem Worn.refl (s : ChainState) : Worn connectBlock s s :=
  ⟨List.Subset.refl _, fun _ h => h, fun _ h => h, fun _ h => .inl h, rfl⟩

theorem Worn.trans (h : Worn connectBlock s s') (h' : Worn connectBlock s' s'') : Worn connectBlock s s'' where
  candidates := List.Subset.trans h'.candidates h.candidates
  failed b := h'.failed b ∘ h.failed b
  kept b := h'.kept b ∘ h.kept b
  found b := fun mark => (h'.found b mark).elim (h.found b) .inr
  unlinked := h'.unlinked.trans h.unlinked

theorem Worn.clean (h : Worn connectBlock s s') (clean : s'.Clean index b) : s.Clean index b := by
  intro a anc
  have kept := h.kept a
  rw [clean a anc] at kept
  exact eq_false_iff.mpr fun mark => nomatch kept mark

theorem Worn.clean_of_valid (h : Worn connectBlock s s') (clean : s.Clean index b)
    (valid : ∀ a, Anc index.pprev a b → connectBlock a) : s'.Clean index b := by
  intro a anc
  refine eq_false_iff.mpr fun mark => ?_
  obtain old | invalid := h.found a mark
  case inl => exact absurd old (eq_false_iff.mp (clean a anc))
  case inr => exact absurd (valid a anc) (eq_false_iff.mp invalid)

theorem Connects.failed_eq (h : Connects index connectBlock s t s' b) (c : Uint256) :
    (s'.nStatus c).failed = (s.nStatus c).failed := by
  rw [h.nStatus]
  by_cases eq : c = b
  case pos => rw [eq, update_self, failed_raiseValidity]
  case neg => rw [update_of_ne eq]

theorem Connects.failedValid_eq (h : Connects index connectBlock s t s' b) (c : Uint256) :
    (s'.nStatus c).failedValid = (s.nStatus c).failedValid := by
  rw [h.nStatus]
  by_cases eq : c = b
  case pos => rw [eq, update_self, failedValid_raiseValidity]
  case neg => rw [update_of_ne eq]

theorem Connects.reached_iff (h : Connects index connectBlock s t s' b) (c : Uint256) (v : BlockValidity) :
    (s'.nStatus c).reached v ↔ (s.nStatus c).reached v ∨ c = b := by
  rw [h.nStatus]
  by_cases eq : c = b
  case pos =>
    rw [eq, update_self, reached_raiseValidity h.failed]
    exact or_congr_right ⟨fun _ => rfl, fun _ => by cases v <;> decide⟩
  case neg => rw [update_of_ne eq, or_iff_left eq]

theorem Fails.failedValid_iff (h : Fails index connectBlock s t s' b) (c : Uint256) :
    (s'.nStatus c).failedValid ↔ (s.nStatus c).failedValid ∨ c = b := by
  rw [h.nStatus]
  by_cases eq : c = b
  case pos => rw [eq, update_self]; simp
  case neg => rw [update_of_ne eq, or_iff_left eq]

theorem Fails.failed_iff (h : Fails index connectBlock s t s' b) (c : Uint256) :
    (s'.nStatus c).failed ↔ (s.nStatus c).failed ∨ c = b := by
  rw [h.nStatus]
  by_cases eq : c = b
  case pos => rw [eq, update_self]; simp [failed]
  case neg => rw [update_of_ne eq, or_iff_left eq]

theorem Fails.reached_eq (h : Fails index connectBlock s t s' b) (c : Uint256) (v : BlockValidity) :
    (s'.nStatus c).reached v = (s.nStatus c).reached v := by
  rw [h.nStatus]
  by_cases eq : c = b
  case pos => rw [eq, update_self]; rfl
  case neg => rw [update_of_ne eq]

theorem Rejects.cases (h : Rejects index s s' x m) (c : Uint256) :
    s'.nStatus c = { s.nStatus c with failedChild := true } ∧ Anc index.pprev x c ∧ Anc index.pprev c m ∧ c ≠ x ∨
      s'.nStatus c = s.nStatus c := by
  by_cases on : Anc index.pprev x c ∧ Anc index.pprev c m ∧ c ≠ x
  case pos => exact .inl ⟨h.above c on.left on.right.left on.right.right, on⟩
  case neg => exact .inr (h.elsewhere c on)

theorem Rejects.failedValid_eq (h : Rejects index s s' x m) (c : Uint256) :
    (s'.nStatus c).failedValid = (s.nStatus c).failedValid := by
  obtain ⟨eq, _⟩ | eq := h.cases c <;> rw [eq]

theorem Rejects.reached_eq (h : Rejects index s s' x m) (c : Uint256) (v : BlockValidity) :
    (s'.nStatus c).reached v = (s.nStatus c).reached v := by
  obtain ⟨eq, _⟩ | eq := h.cases c <;> rw [eq]
  rfl

theorem Disconnects.worn (h : Disconnects index s t s' t') : Worn connectBlock s s' :=
  ⟨h.candidates ▸ List.Subset.refl _, fun _ => h.nStatus ▸ id, fun _ => h.nStatus ▸ id,
    fun _ mark => .inl (h.nStatus ▸ mark), h.unlinked⟩

theorem Connects.worn (h : Connects index connectBlock s t s' b) : Worn connectBlock s s' :=
  ⟨fun c mem => ((h.candidates c).mp mem).left, fun c => (h.failed_eq c).symm ▸ id,
    fun c => (h.failedValid_eq c).symm ▸ id, fun c mark => .inl (h.failedValid_eq c ▸ mark), h.unlinked⟩

theorem Fails.worn (h : Fails index connectBlock s t s' b) : Worn connectBlock s s' := by
  refine ⟨fun c mem => ((h.candidates c).mp mem).left, fun c mark => (h.failed_iff c).mpr (.inl mark),
    fun c mark => (h.failedValid_iff c).mpr (.inl mark), fun c mark => ?_, h.unlinked⟩
  exact ((h.failedValid_iff c).mp mark).imp_right fun (eq : c = b) => eq ▸ h.invalid

theorem Rejects.worn (h : Rejects index s s' x m) : Worn connectBlock s s' := by
  refine ⟨fun c mem => ((h.candidates c).mp mem).left, fun c mark => ?_, fun c => (h.failedValid_eq c).symm ▸ id,
    fun c mark => .inl (h.failedValid_eq c ▸ mark), h.unlinked⟩
  obtain ⟨eq, _⟩ | eq := h.cases c
  case inl => rw [eq, BlockStatus.failed, Bool.or_true]
  case inr => rw [eq, mark]

theorem Move.worn (move : Move index connectBlock (s, t) (s', t')) : Worn connectBlock s s' := by
  cases move
  case disconnect h => exact h.worn
  case connect h => exact h.worn
  case fail h => exact h.worn
  case reject h => exact h.worn

theorem Moves.worn {z z' : ChainState × Uint256} (moves : Moves index connectBlock z z') :
    Worn connectBlock z.1 z'.1 := by
  induction moves
  case refl => exact .refl _
  case tail move ih => exact ih.trans move.worn

theorem Marked.congr (marked : s.Marked index)
    (reached : ∀ c v, (s'.nStatus c).reached v = (s.nStatus c).reached v)
    (failed : ∀ b ∈ index.mapBlockIndex, s'.Clean index b → (s'.nStatus b).failed = false) : s'.Marked index := by
  constructor
  case failed => exact failed
  all_goals simp only [reached]
  case data => exact marked.data
  case tree => exact marked.tree
  case chain => exact marked.chain
  case scripts => exact marked.scripts

theorem Marked.clean_of_failed (marked : s.Marked index) (known : b ∈ index.mapBlockIndex)
    (failed : (s.nStatus b).failed) : ¬s.Clean index b :=
  fun clean => absurd failed (eq_false_iff.mp (marked.failed b known clean))

theorem Connects.marked (h : Connects index connectBlock s t s' b) (filed : index.Filed)
    (active : Active index connectBlock s t) (marked : s.Marked index) : s'.Marked index := by
  have up (v : BlockValidity) (le : v.toNat ≤ BlockValidity.SCRIPTS.toNat) (a : Uint256)
      (anc : Anc index.pprev a b) (child : index.pprev a ≠ none) : (s'.nStatus a).reached v := by
    rw [h.reached_iff]
    obtain eq | anc := (Anc.iff_of_child h.parent).mp anc
    case inl => exact .inr eq
    case inr => exact .inl (reached_of_le le ((active.accepted a anc).scripts child))
  constructor
  case data =>
    intro c known
    rw [h.reached_iff, marked.data c known]
    refine or_iff_left_of_imp fun eq => Nat.pos_of_ne_zero fun zero => ?_
    have missing := (filed.data c known).mpr zero
    rw [eq, h.data] at missing
    cases missing
  case tree =>
    intro c known child
    exact (h.reached_iff c _).mpr (.inl (marked.tree c known child))
  case chain =>
    intro c known reached a anc child
    obtain before | rfl := (h.reached_iff c _).mp reached
    case inl => exact (h.reached_iff a _).mpr (.inl (marked.chain c known before a anc child))
    case inr => exact up .CHAIN (by decide) a anc child
  case scripts =>
    intro c known reached a anc child
    obtain before | rfl := (h.reached_iff c _).mp reached
    case inl => exact (h.reached_iff a _).mpr (.inl (marked.scripts c known before a anc child))
    case inr => exact up .SCRIPTS (by decide) a anc child
  case failed =>
    intro c known clean
    rw [h.failed_eq]
    exact marked.failed c known (h.worn.clean clean)

theorem Fails.marked (h : Fails index connectBlock s t s' b) (marked : s.Marked index) : s'.Marked index := by
  refine marked.congr h.reached_eq fun c known clean => eq_false_iff.mpr fun mark => ?_
  obtain before | rfl := (h.failed_iff c).mp mark
  case inl => exact marked.clean_of_failed known before (h.worn.clean clean)
  case inr => exact absurd ((h.failedValid_iff c).mpr (.inr rfl)) (eq_false_iff.mp (clean c .refl))

theorem Rejects.marked (h : Rejects index s s' x m) (marked : s.Marked index) : s'.Marked index := by
  refine marked.congr h.reached_eq fun c known clean => ?_
  have before : s.Clean index c := fun a anc => h.failedValid_eq a ▸ clean a anc
  obtain ⟨_, anc, _⟩ | eq := h.cases c
  case inl =>
    have known' := index.mem_of_anc anc known
    exact absurd (fun a anc' => before a (anc'.trans anc)) (marked.clean_of_failed known' h.failed)
  case inr => rw [eq, marked.failed c known before]

theorem Move.accepted (move : Move index connectBlock (s, t) (s', t')) (active : Active index connectBlock s t) :
    ∀ a, Anc index.pprev a t' → s'.Accepted index connectBlock a := by
  have accepted := active.accepted
  cases move
  case disconnect h =>
    intro a anc
    have ⟨valid, data, failed, scripts⟩ := accepted a (.step h.parent anc)
    exact ⟨valid, data, by rw [h.nStatus, failed], by rw [h.nStatus]; exact scripts⟩
  case connect h =>
    intro a anc
    obtain rfl | anc := (Anc.iff_of_child h.parent).mp anc
    case inl => exact ⟨h.valid, h.data, by rw [h.failed_eq, h.failed], fun _ => (h.reached_iff _ _).mpr (.inr rfl)⟩
    case inr =>
      have ⟨valid, data, failed, scripts⟩ := accepted a anc
      exact ⟨valid, data, by rw [h.failed_eq, failed], fun child => (h.reached_iff _ _).mpr (.inl (scripts child))⟩
  case fail b h =>
    intro a anc
    have ⟨valid, data, failed, scripts⟩ := accepted a anc
    refine ⟨valid, data, eq_false_iff.mpr fun mark => ?_, by rw [h.reached_eq]; exact scripts⟩
    obtain before | rfl := (h.failed_iff a).mp mark
    case inl => exact absurd before (eq_false_iff.mp failed)
    case inr => exact absurd valid (eq_false_iff.mp h.invalid)
  case reject x m h =>
    intro a anc
    have ⟨valid, data, failed, scripts⟩ := accepted a anc
    refine ⟨valid, data, ?_, by rw [h.reached_eq]; exact scripts⟩
    obtain ⟨_, above, _⟩ | eq := h.cases a
    case inl => exact absurd h.failed (eq_false_iff.mp (accepted x (above.trans anc)).failed)
    case inr => rw [eq, failed]

theorem Move.active (move : Move index connectBlock (s, t) (s', t')) (active : Active index connectBlock s t) : Active index connectBlock s' t' := by
  refine ⟨?_, ?_, move.accepted active, ?_⟩
  case refine_1 =>
    cases move
    case disconnect h => exact h.path
    case connect h => exact h.path
    case fail h => exact h.chainActive ▸ active.path
    case reject h => exact h.chainActive ▸ active.path
  case refine_2 =>
    cases move
    case disconnect h => exact (index.closed h.parent).right
    case connect h => exact (index.closed h.parent).left
    case fail h => exact active.known
    case reject h => exact active.known
  case refine_3 =>
    intro c mem
    have ⟨known, linked, le⟩ := active.candidates c (move.worn.candidates mem)
    refine ⟨known, linked, ?_⟩
    cases move
    case disconnect h => exact (BlockIndex.rank_lt_of_pprev h.parent).le.trans le
    case connect h => exact ((h.candidates c).mp mem).right
    case fail h => exact le
    case reject h => exact le

theorem Moves.active {z z' : ChainState × Uint256} (moves : Moves index connectBlock z z')
    (active : Active index connectBlock z.1 z.2) : Active index connectBlock z'.1 z'.2 := by
  induction moves
  case refl => exact active
  case tail move ih => exact move.active ih

variable {r r' : ℕ ×ₗ ℕᵒᵈ ×ₗ ℕᵒᵈ}

theorem Complete.mono (complete : s.Complete index r) (le : r ≤ r') : s.Complete index r' :=
  fun g known linked clean above => complete g known linked clean (le.trans above)

theorem Sound.mono (sound : s.Sound index r) (le : r ≤ r') : s.Sound index r' :=
  ⟨sound.marked, sound.complete.mono le⟩

theorem Sound.congr (sound : s.Sound index r) (nStatus : s'.nStatus = s.nStatus)
    (candidates : s'.setBlockIndexCandidates = s.setBlockIndexCandidates) : s'.Sound index r := by
  have clean {b : Uint256} (h : s'.Clean index b) : s.Clean index b := fun a anc => nStatus ▸ h a anc
  refine ⟨sound.marked.congr (fun c v => by rw [nStatus]) fun c known h => ?_, fun g known linked h above => ?_⟩
  case refine_1 =>
    rw [nStatus]
    exact sound.marked.failed c known (clean h)
  case refine_2 =>
    rw [candidates]
    exact sound.complete g known linked (clean h) above

theorem Connects.sound (h : Connects index connectBlock s t s' b) (filed : index.Filed)
    (active : Active index connectBlock s t) (sound : s.Sound index r) : s'.Sound index (max r (index.rank b)) := by
  refine ⟨h.marked filed active sound.marked, fun g known linked clean above => ?_⟩
  have ⟨above, better⟩ := max_le_iff.mp above
  exact (h.candidates g).mpr ⟨sound.complete g known linked (h.worn.clean clean) above, better⟩

theorem Fails.sound (h : Fails index connectBlock s t s' b) (sound : s.Sound index r) : s'.Sound index r := by
  refine ⟨h.marked sound.marked, fun g known linked clean above => ?_⟩
  refine (h.candidates g).mpr ⟨sound.complete g known linked (h.worn.clean clean) above, ?_⟩
  rintro rfl
  exact absurd ((h.failedValid_iff g).mpr (.inr rfl)) (eq_false_iff.mp (clean g .refl))

theorem Rejects.sound (h : Rejects index s s' x m) (sound : s.Sound index r) : s'.Sound index r := by
  refine ⟨h.marked sound.marked, fun g known linked clean above => ?_⟩
  have before : s.Clean index g := fun a anc => h.failedValid_eq a ▸ clean a anc
  refine (h.candidates g).mpr ⟨sound.complete g known linked before above, fun ⟨anc, _⟩ => ?_⟩
  exact sound.marked.clean_of_failed (index.mem_of_anc anc known) h.failed fun a anc' => before a (anc'.trans anc)

end ChainState

end Qrax
