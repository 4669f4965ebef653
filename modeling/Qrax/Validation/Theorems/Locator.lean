import Qrax.Validation.Theorems.Recovery

open Forest List

namespace Qrax

namespace CChain

-- The entries of a locator from `x` on. However looked up, each is the ancestor at the next height.
inductive Located (tree : BlockTree) : (nStep size : ℕ) → Uint256 → List Uint256 → Prop
  | last {nStep size x} : tree.nHeight x = 0 → Located tree nStep size x [x]
  | next {nStep size x y l} : 0 < tree.nHeight x → Anc tree.pprev y x → tree.nHeight y = tree.nHeight x - nStep →
    Located tree (if size + 1 > 10 then nStep * 2 else nStep) (size + 1) y l → Located tree nStep size x (x :: l)

variable {tree : BlockTree} {chain other : CChain} {a b c t x : Uint256} {nStep size : ℕ} {l : List Uint256}

theorem locate_located (is : IsPath tree chain t) {n : ℕ} (enough : tree.nHeight x < n) (pos : 0 < nStep) :
    Located tree nStep size x (chain.locate tree n nStep size (some x)) := by
  induction n generalizing nStep size x
  case zero => exact absurd enough (Nat.not_lt_zero _)
  case succ n ih =>
    simp only [locate]
    split
    case isTrue root => exact .last root
    case isFalse notRoot =>
      obtain ⟨y, eq, anc, at_⟩ :
          ∃ y, (if chain.contains tree x then chain.at' (tree.nHeight x - nStep)
              else tree.getAncestor x (tree.nHeight x - nStep)) = some y ∧
            Anc tree.pprev y x ∧ tree.nHeight y = tree.nHeight x - nStep := by
        obtain ⟨y, eq, anc, at_⟩ := BlockTree.getAncestor_of_le ((tree.nHeight x).sub_le nStep)
        refine ⟨y, ?_, anc, at_⟩
        split
        case isTrue inside => exact is.at'_eq_some.mpr ⟨anc.trans (is.contains_iff.mp inside), at_⟩
        case isFalse => exact eq
      rw [eq]
      exact .next (by omega) anc at_ (ih (by omega) (by split <;> omega))

namespace Located

theorem anc (located : Located tree nStep size x l) : ∀ y ∈ l, Anc tree.pprev y x := by
  induction located
  case last => exact forall_mem_singleton.mpr .refl
  case next up _ _ ih => exact forall_mem_cons.mpr ⟨.refl, fun y mem => (ih y mem).trans up⟩

theorem decreasing (located : Located tree nStep size x l) (pos : 0 < nStep) :
    l.Pairwise fun y z => tree.nHeight z < tree.nHeight y := by
  induction located
  case last => exact pairwise_singleton ..
  case next up at_ rest ih =>
    refine pairwise_cons.mpr ⟨fun z mem => ?_, ih (by split <;> omega)⟩
    have := tree.graded.height_le (rest.anc z mem)
    omega

theorem ends (located : Located tree nStep size x l) : ∃ g, l.getLast? = some g ∧ tree.nHeight g = 0 := by
  induction located
  case last x root => exact ⟨x, rfl, root⟩
  case next rest ih =>
    obtain ⟨g, final, root⟩ := ih
    exact ⟨g, mem_getLast?_cons final, root⟩

-- The first entry not above `c`. While the step is 1 the distance to `a` is the number of entries, from the eleventh on
-- 9 more than the step.
theorem finds (located : Located tree nStep size x l) {p : Uint256 → Bool} {f top : ℕ}
    (below : ∀ y, Anc tree.pprev y a → (p y ↔ tree.nHeight y ≤ f)) (anc : Anc tree.pprev x a) (le : f ≤ top)
    (spaced : 0 < tree.nHeight x → size ≤ 10 ∧ nStep = 1 ∧ tree.nHeight x + size = top ∨
      10 < size ∧ 2 ≤ nStep ∧ tree.nHeight x + 9 + nStep = top)
    (near : tree.nHeight x ≤ f → f ≤ tree.nHeight x + (top - f) ∧ (top - f ≤ 11 → tree.nHeight x = f)) :
    ∃ y, l.find? p = some y ∧ Anc tree.pprev y a ∧ tree.nHeight y ≤ f ∧ f ≤ tree.nHeight y + (top - f) ∧
      (top - f ≤ 11 → tree.nHeight y = f) := by
  induction located
  case last x root =>
    have low : tree.nHeight x ≤ f := by omega
    exact ⟨x, find?_cons_of_pos ((below x anc).mpr low), anc, low, near low⟩
  case next x y l pos up at_ _ ih =>
    by_cases low : tree.nHeight x ≤ f
    case pos => exact ⟨x, find?_cons_of_pos ((below x anc).mpr low), anc, low, near low⟩
    case neg =>
      rw [find?_cons_of_neg ((below x anc).not.mpr low)]
      have spaced := spaced pos
      refine ih (up.trans anc) (fun pos' => ?_) fun low' => ⟨by omega, by omega⟩
      split <;> omega

end Located

theorem findForkInGlobalIndex_getLocator (tree : BlockTree) (chain other : CChain) (a b c t : Uint256)
    (pindex : Option Uint256) (known : a ∈ tree.mapBlockIndex) (meet : tree.Meet a b c) (is : IsPath tree chain b)
    (is' : IsPath tree other t) (tip : pindex.or other.tip = some a) :
    (∃ x, chain.findForkInGlobalIndex tree (other.getLocator tree pindex) = some x ∧ Anc tree.pprev x a ∧
      Anc tree.pprev x b ∧ tree.nHeight x ≤ tree.nHeight c ∧
      tree.nHeight c - (tree.nHeight a - tree.nHeight c) ≤ tree.nHeight x ∧
      (tree.nHeight a - tree.nHeight c ≤ 11 → x = c)) ∧
    ((other.getLocator tree pindex).Pairwise fun x y => tree.nHeight y < tree.nHeight x) ∧
    ∃ g, (other.getLocator tree pindex).getLast? = some g ∧ tree.nHeight g = 0 ∧ Anc tree.pprev g a := by
  have located : Located tree 1 0 a (other.getLocator tree pindex) := by
    simp only [getLocator, tip]
    exact locate_located is' (Nat.lt_succ_self _) Nat.one_pos
  have shared {x : Uint256} (anc : Anc tree.pprev x a) : Anc tree.pprev x b ↔ tree.nHeight x ≤ tree.nHeight c :=
    ⟨fun right => tree.graded.height_le (meet.greatest anc right),
      fun le => (tree.graded.linear anc meet.left le).trans meet.right⟩
  have le := tree.graded.height_le meet.left
  obtain ⟨x, found, anc, low, high, exact⟩ := located.finds
    (p := fun hash => hash ∈ tree.mapBlockIndex && chain.contains tree hash) (a := a) (f := tree.nHeight c)
    (fun y anc => by simp [tree.mem_of_anc anc known, is.contains_iff, shared anc]) .refl le
    (fun _ => .inl ⟨Nat.zero_le _, rfl, rfl⟩) fun low => ⟨by omega, fun _ => le_antisymm low le⟩
  obtain ⟨g, last, root⟩ := located.ends
  refine ⟨⟨x, ?_, anc, (shared anc).mpr low, low, by omega, fun few => ?_⟩, located.decreasing Nat.one_pos, g, last, root,
    located.anc g (mem_of_getLast? last)⟩
  · rw [findForkInGlobalIndex, found, Option.some_or]
  · exact tree.graded.eq_of_height anc meet.left (exact few)

end CChain

theorem locator_finds_fork :
    let chain : CChain := { vChain := [some 7, some 9] }
    let other : CChain := { vChain := [some 7, some 8] }
    chain.findForkInGlobalIndex forkTree (other.getLocator forkTree none) = some 7 := by
  intro chain other
  obtain ⟨⟨x, found, _, _, _, _, exact⟩, _⟩ := CChain.findForkInGlobalIndex_getLocator forkTree chain other 8 9 7 8 none
    (by decide) forkTree_meet rfl rfl rfl
  exact found.trans (congrArg some (exact (by decide)))

end Qrax
