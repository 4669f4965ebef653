import Qrax.Validation.ReceiveBlock
import Qrax.Validation.Theorems.CheckBlockIndex

open Fallible Forest

namespace Qrax

namespace ChainState

section

variable (index : BlockIndex) (connectBlock : Uint256 → Bool) (s : ChainState)

-- The state between two calls, with tip `t`: the active blocks were connected, and the set holds entries of the index.
structure Standing (t : Uint256) : Prop where
  path : CChain.IsPath index.toBlockTree s.chainActive t
  known : t ∈ index.mapBlockIndex
  candidates : s.setBlockIndexCandidates ⊆ index.mapBlockIndex
  data : ∀ a, Anc index.pprev a t → index.haveData a
  failed : ∀ a, Anc index.pprev a t → (s.nStatus a).failed = false
  scripts : ∀ a, Anc index.pprev a t → index.pprev a ≠ none → (s.nStatus a).reached .SCRIPTS

structure FullyValid (b : Uint256) : Prop where
  known : b ∈ index.mapBlockIndex
  valid : ∀ a, Anc index.pprev a b → connectBlock a
  data : ∀ a, Anc index.pprev a b → index.haveData a

end

variable {index : BlockIndex} {connectBlock : Uint256 → Bool} {s s' : ChainState} {t t' b : Uint256}

theorem Standing.active (standing : s.Standing index t) (checked : s.Checked index t)
    (valid : ∀ a, Anc index.pprev a t → connectBlock a) : Active index connectBlock s t := by
  refine ⟨standing.path, standing.known, fun a anc => ?_, fun c mem => ?_⟩
  case refine_1 => exact ⟨valid a anc, standing.data a anc, standing.failed a anc, standing.scripts a anc⟩
  case refine_2 =>
    have known := standing.candidates mem
    exact ⟨known, checked.candidates c known mem⟩

theorem Checked.sound (checked : s.Checked index t) : s.Sound index (index.rank t) :=
  ⟨checked.marked, checked.complete⟩

theorem Active.standing (active : Active index connectBlock s t) : s.Standing index t :=
  ⟨active.path, active.known, fun c mem => (active.candidates c mem).left, fun a anc => (active.accepted a anc).data,
    fun a anc => (active.accepted a anc).failed, fun a anc => (active.accepted a anc).scripts⟩

theorem Changed.checked {a : Activation} (changed : Changed index connectBlock s t a t') (checked : s.Checked index t)
    (active : Active index connectBlock s t) : a.state.Checked index t' := by
  have active' : Active index connectBlock a.state t' := changed.moves.active active
  have worn : Worn connectBlock s a.state := changed.moves.worn
  have ⟨marked, complete⟩ := changed.sound checked.sound
  constructor
  case filed => exact checked.filed
  case genesis => exact active'.path.genesis_eq (checked.filed.root active'.known) checked.filed.genesis.right
  case marked => exact marked
  case complete => exact complete
  case candidates => exact fun b _ mem => (active'.candidates b mem).right
  case unlinked =>
    intro b known child data unlinked clean
    rw [worn.unlinked]
    exact checked.unlinked b known child data unlinked (worn.clean clean)
  case unlinkedOnly => exact fun b known mem => checked.unlinkedOnly b known (worn.unlinked ▸ mem)

-- The best candidate is the tip, so no available block without an invalid ancestor is better.
theorem Finished.greatest {a : Activation} (underway : Underway index connectBlock a t) (finished : Finished index a t)
    (complete : a.state.Complete index (index.rank t)) (known : b ∈ index.mapBlockIndex) (linked : index.Linked b)
    (clean : a.state.Clean index b) : index.rank b ≤ index.rank t := by
  by_contra better
  have mem := complete b known linked clean (not_le.mp better).le
  cases target : a.pindexMostWork
  case none => exact absurd (finished.empty target ▸ mem) List.not_mem_nil
  case some m =>
    cases finished.best m target
    exact better ((underway.aimed _ target).max b mem)

theorem activateBestChain_greatest (checked : s.checkBlockIndex index = .ok ()) (standing : s.Standing index t)
    (valid : ∀ a, Anc index.pprev a t → connectBlock a)
    (truthful : ∀ b ∈ index.mapBlockIndex, (s.nStatus b).failedValid →
      ∃ a, Anc index.pprev a b ∧ connectBlock a = false) :
    (∃ n₀, ∀ n ≥ n₀, ∃ a, s.activateBestChain index connectBlock (fun _ => false) n = .ok (some a)) ∧
      ∀ n a, s.activateBestChain index connectBlock (fun _ => false) n = .ok (some a) →
        ∃ t', a.state.chainActive.tip = some t' ∧ FullyValid index connectBlock t' ∧
          (∀ b, FullyValid index connectBlock b → b = t' ∨ index.workComparator b t') ∧
          ∀ p ∈ a.attempts, connectBlock p.2 = false ∧ ∀ c, Anc index.pprev p.2 c → Anc index.pprev c p.1 →
            (a.state.nStatus c).failed ∧ c ∉ a.state.setBlockIndexCandidates := by
  have checked := (checkBlockIndex_ok_iff standing.path).mp checked
  have active := standing.active checked valid
  constructor
  case left =>
    refine ⟨budget index { state := s } + 2, fun n le => ?_⟩
    obtain ⟨_, out⟩ | ⟨a, _, done, _⟩ := activateBestChain_ends (fun _ => false) n checked.filed active
    case inl => omega
    case inr => exact ⟨a, done⟩
  case right =>
    intro n a returns
    obtain ⟨out, _⟩ | ⟨a', t', done, changed, finished⟩ :=
      activateBestChain_ends (fun _ => false) n checked.filed active
    case inl => exact absurd (returns.symm.trans out) nofun
    case inr =>
      cases returns.symm.trans done
      have finished := finished fun _ => rfl
      have active' : Active index connectBlock a.state t' := changed.moves.active active
      have full' : FullyValid index connectBlock t' :=
        ⟨active'.known, fun b anc => (active'.accepted b anc).valid, fun b anc => (active'.accepted b anc).data⟩
      refine ⟨t', active'.path.tip_eq, full', fun b full => ?_,
        fun p mem => ⟨(changed.underway.attempts p mem).left, finished.attempts p mem⟩⟩
      have clean : s.Clean index b := fun x anc => Bool.eq_false_iff.mpr fun mark => by
        have ⟨y, anc', invalid⟩ := truthful x (index.mem_of_anc anc full.known) mark
        exact absurd (full.valid y (anc'.trans anc)) (Bool.eq_false_iff.mp invalid)
      have le := finished.greatest changed.underway (changed.sound checked.sound).complete full.known full.data
        (changed.moves.worn.clean_of_valid clean full.valid)
      obtain lt | eq := le.lt_or_eq
      case inl => exact .inr (BlockIndex.workComparator_iff.mpr lt)
      case inr => exact .inl (BlockIndex.rank_inj.mp eq)

def exampleHeader (hash hashPrevBlock : Uint256) : BlockHeader :=
  ⟨hash, hashPrevBlock, 1, Nat.one_pos⟩

@[irreducible]
def threeBlocks : Blocks :=
  let blocks := (Blocks.empty 7 ⟨BitVec.toNat, Uint256.toNat_injective⟩).addToBlockIndex (exampleHeader 7 0)
  let blocks := blocks.receivedBlockTransactions 1 7
  let blocks := { blocks with state.chainActive := { vChain := [some 7] } }
  let blocks := (blocks.addToBlockIndex (exampleHeader 8 7)).receivedBlockTransactions 1 8
  (blocks.addToBlockIndex (exampleHeader 9 8)).receivedBlockTransactions 1 9

theorem threeBlocks_checked : threeBlocks.state.checkBlockIndex threeBlocks.index = .ok () := by
  decide +kernel

theorem threeBlocks_eval :
    (threeBlocks.index.mapBlockIndex.all threeBlocks.index.haveData ∧
      threeBlocks.index.mapBlockIndex.all fun b => !(threeBlocks.state.nStatus b).failed) ∧
    threeBlocks.index.pprev 7 = none ∧ (7 : Uint256) ∈ threeBlocks.index.mapBlockIndex ∧
      CChain.IsPath threeBlocks.index.toBlockTree threeBlocks.state.chainActive 7 ∧
      threeBlocks.state.setBlockIndexCandidates ⊆ threeBlocks.index.mapBlockIndex := by
  unfold CChain.IsPath
  decide +kernel

theorem threeBlocks_data (b : Uint256) (known : b ∈ threeBlocks.index.mapBlockIndex) :
    threeBlocks.index.haveData b :=
  List.all_eq_true.mp threeBlocks_eval.left.left b known

theorem threeBlocks_unmarked (b : Uint256) (known : b ∈ threeBlocks.index.mapBlockIndex) :
    (threeBlocks.state.nStatus b).failed = false :=
  Bool.not_eq_true' _ |>.mp (List.all_eq_true.mp threeBlocks_eval.left.right b known)

theorem threeBlocks_root : threeBlocks.index.pprev 7 = none :=
  threeBlocks_eval.right.left

theorem threeBlocks_standing : threeBlocks.state.Standing threeBlocks.index 7 := by
  have ⟨_, _, known, path, candidates⟩ := threeBlocks_eval
  have within {a : Uint256} (anc : Anc threeBlocks.index.pprev a 7) := threeBlocks.index.mem_of_anc anc known
  constructor
  case path => exact path
  case known => exact known
  case candidates => exact candidates
  case data => exact fun a anc => threeBlocks_data a (within anc)
  case failed => exact fun a anc => threeBlocks_unmarked a (within anc)
  case scripts =>
    intro a anc child
    cases (Anc.iff_of_root threeBlocks_root).mp anc
    exact absurd threeBlocks_root child

-- A shutdown request ends the call after the first block.
theorem activateBestChain_shutdown :
    threeBlocks.state.checkBlockIndex threeBlocks.index = .ok () ∧ threeBlocks.state.Standing threeBlocks.index 7 ∧
      ∃ a, threeBlocks.state.activateBestChain threeBlocks.index (fun _ => true) (fun _ => true) 5 = .ok (some a) ∧
        a.state.chainActive.tip = some 8 ∧ FullyValid threeBlocks.index (fun _ => true) 9 ∧
        threeBlocks.index.workComparator 8 9 := by
  have known : (9 : Uint256) ∈ threeBlocks.index.mapBlockIndex := by decide +kernel
  have run : (do
      let a ← threeBlocks.state.activateBestChain threeBlocks.index (fun _ => true) (fun _ => true) 5
      .ok (a.map fun a : Activation => a.state.chainActive.tip)) = .ok (some (some 8)) := by
    decide +kernel
  have ⟨a, done, tip⟩ := bind_eq_ok.mp run
  cases a
  case none => cases tip
  case some a =>
    refine ⟨threeBlocks_checked, threeBlocks_standing, a, done, Option.some.inj (Except.ok.inj tip),
      ⟨known, fun _ _ => rfl, fun b anc => ?_⟩, by decide +kernel⟩
    exact threeBlocks_data b (threeBlocks.index.mem_of_anc anc known)

theorem activateBestChain_greatest_branch :
    ∃ n a t, threeBlocks.state.activateBestChain threeBlocks.index (fun b => b != 9) (fun _ => false) n = .ok (some a) ∧
      a.state.chainActive.tip = some t ∧ FullyValid threeBlocks.index (fun b => b != 9) t ∧
      (∀ b, FullyValid threeBlocks.index (fun b => b != 9) b → b = t ∨ threeBlocks.index.workComparator b t) ∧
      ∀ p ∈ a.attempts, ∀ c, Anc threeBlocks.index.pprev p.2 c → Anc threeBlocks.index.pprev c p.1 →
        (a.state.nStatus c).failed ∧ c ∉ a.state.setBlockIndexCandidates := by
  have unmarked (b : Uint256) (known : b ∈ threeBlocks.index.mapBlockIndex) :=
    (Bool.or_eq_false_iff.mp (threeBlocks_unmarked b known)).left
  have valid (a : Uint256) (anc : Anc threeBlocks.index.pprev a 7) : a != 9 := by
    cases (Anc.iff_of_root threeBlocks_root).mp anc
    decide
  have ⟨⟨n, ends⟩, result⟩ := activateBestChain_greatest threeBlocks_checked threeBlocks_standing valid
    fun b known mark => absurd mark (Bool.eq_false_iff.mp (unmarked b known))
  have ⟨a, done⟩ := ends n (le_refl n)
  have ⟨t, tip, valid, greatest, marked⟩ := result n a done
  exact ⟨n, a, t, done, tip, valid, greatest, fun p mem => (marked p mem).right⟩

end ChainState

end Qrax
