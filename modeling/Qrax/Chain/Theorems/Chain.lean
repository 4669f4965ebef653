import Qrax.Chain.Chain

open Fallible Forest List Option

namespace Qrax

theorem invertLowestOne_lt {n : ℕ} (pos : 0 < n) : invertLowestOne n < n := by
  have : n &&& (n - 1) ≤ n - 1 := Nat.and_le_right
  unfold invertLowestOne
  omega

theorem invertLowestOne_le (n : ℕ) : invertLowestOne n ≤ n :=
  Nat.and_le_left

theorem getSkipHeight_lt {height : ℕ} (pos : 0 < height) : getSkipHeight height < height := by
  unfold getSkipHeight
  split
  case isTrue => exact pos
  case isFalse ge =>
    split
    case isTrue =>
      have := invertLowestOne_lt (n := height - 1) (by omega)
      have := invertLowestOne_le (invertLowestOne (height - 1))
      omega
    case isFalse => exact invertLowestOne_lt pos

namespace BlockTree

variable {tree : BlockTree} {a b c p : Uint256}

theorem pprev_of_height_pos (tree : BlockTree) (pos : 0 < tree.nHeight b) : ∃ p, tree.pprev b = some p := by
  cases eq : tree.pprev b
  case none => exact absurd (tree.graded.root eq) (by omega)
  case some p => exact ⟨p, rfl⟩

theorem mem_of_anc (tree : BlockTree) (anc : Anc tree.pprev a b) (known : b ∈ tree.mapBlockIndex) :
    a ∈ tree.mapBlockIndex := by
  induction anc
  case refl => exact known
  case step eq _ ih => exact ih (tree.closed eq).right

theorem mem_of_root (tree : BlockTree) (anc : Anc tree.pprev a b) (known : a ∈ tree.mapBlockIndex) :
    b ∈ tree.mapBlockIndex := by
  cases anc
  case refl => exact known
  case step _ eq => exact (tree.closed eq).left

theorem nHeight_lt_length (tree : BlockTree) (known : b ∈ tree.mapBlockIndex) :
    tree.nHeight b < tree.mapBlockIndex.length := by
  have within : path tree.pprev tree.nHeight b ⊆ tree.mapBlockIndex :=
    fun a mem => tree.mem_of_anc (tree.graded.mem_path.mp mem) known
  have le := ((tree.graded.path_nodup b).subperm within).length_le
  rwa [tree.graded.path_length] at le

-- Both kinds of jumps stay on the way to the root, not below the height asked for.
theorem walkBack_eq_some {n height : ℕ} (enough : tree.nHeight b ≤ n) (le : height ≤ tree.nHeight b) :
    tree.walkBack height n b (tree.nHeight b) = some a ↔ Anc tree.pprev a b ∧ tree.nHeight a = height := by
  induction n generalizing b
  case zero =>
    have root : tree.nHeight b = 0 := by omega
    simp only [walkBack, some.injEq]
    constructor
    case mp =>
      rintro rfl
      exact ⟨.refl, by omega⟩
    case mpr => exact fun ⟨anc, at_⟩ => (tree.graded.eq_of_height_le anc (by omega)).symm
  case succ n ih =>
    have jump {c : Uint256} (anc : Anc tree.pprev c b) (lt : tree.nHeight c < tree.nHeight b)
        (ge : height ≤ tree.nHeight c) : tree.walkBack height n c (tree.nHeight c) = some a ↔
          Anc tree.pprev a b ∧ tree.nHeight a = height := by
      rw [ih (by omega) ge]
      exact ⟨fun h => ⟨h.left.trans anc, h.right⟩,
        fun h => ⟨tree.graded.linear h.left anc (by omega), h.right⟩⟩
    simp only [walkBack]
    split
    case isTrue lt =>
      have ⟨p, eq⟩ := tree.pprev_of_height_pos (b := b) (by omega)
      have ⟨c, skip, anc, at_⟩ := tree.skips eq
      have low := getSkipHeight_lt (show 0 < tree.nHeight b by omega)
      have up := tree.graded.child eq
      split
      case isTrue far =>
        rw [skip, bind_some, ← at_]
        exact jump anc (by omega) (by omega)
      case isFalse =>
        rw [eq, bind_some, show tree.nHeight b - 1 = tree.nHeight p by omega]
        exact jump (.step eq .refl) (by omega) (by omega)
    case isFalse ge =>
      rw [some.injEq]
      constructor
      case mp =>
        rintro rfl
        exact ⟨.refl, by omega⟩
      case mpr => exact fun ⟨anc, at_⟩ => (tree.graded.eq_of_height_le anc (by omega)).symm

theorem getAncestor_eq_some {height : ℕ} :
    tree.getAncestor b height = some a ↔ Anc tree.pprev a b ∧ tree.nHeight a = height := by
  unfold getAncestor
  split
  case isTrue gt =>
    refine ⟨nofun, fun ⟨anc, at_⟩ => ?_⟩
    have := tree.graded.height_le anc
    omega
  case isFalse le => exact walkBack_eq_some (Nat.le_refl _) (by omega)

theorem getAncestor_of_le {height : ℕ} (le : height ≤ tree.nHeight b) :
    ∃ a, tree.getAncestor b height = some a ∧ Anc tree.pprev a b ∧ tree.nHeight a = height := by
  have ⟨a, anc, at_⟩ := tree.graded.exists_at le
  exact ⟨a, getAncestor_eq_some.mpr ⟨anc, at_⟩, anc, at_⟩

theorem iterate_pprev (tree : BlockTree) (b : Uint256) {k : ℕ} (le : k ≤ tree.nHeight b) :
    ∃ a, (·.bind tree.pprev)^[k] (some b) = some a ∧ Anc tree.pprev a b ∧ tree.nHeight a + k = tree.nHeight b := by
  induction k
  case zero => exact ⟨b, rfl, .refl, rfl⟩
  case succ k ih =>
    obtain ⟨a, eq, anc, level⟩ := ih (by omega)
    obtain ⟨p, up⟩ := tree.pprev_of_height_pos (b := a) (by omega)
    have child := tree.graded.child up
    refine ⟨p, ?_, (Anc.step up .refl).trans anc, by omega⟩
    rw [Function.iterate_succ_apply', eq, bind_some, up]

theorem getAncestorInt_eq (tree : BlockTree) (b : Uint256) (height : ℤ) :
    (tree.getAncestorInt b height = if 0 ≤ height ∧ height ≤ tree.nHeight b then
      (·.bind tree.pprev)^[tree.nHeight b - height.toNat] (some b) else none) ∧
    (0 ≤ height ∧ height ≤ tree.nHeight b → ∀ n ≥ tree.nHeight b,
      tree.walkBack height.toNat n b (tree.nHeight b) = tree.getAncestorInt b height) := by
  unfold getAncestorInt
  by_cases h : 0 ≤ height ∧ height ≤ tree.nHeight b
  case neg => exact ⟨by rw [if_neg h, if_pos (by omega)], fun h' => absurd h' h⟩
  case pos =>
    obtain ⟨a, eq, anc, level⟩ := iterate_pprev tree b (Nat.sub_le _ height.toNat)
    have at_ : tree.nHeight a = height.toNat := by omega
    rw [if_pos h, if_neg (by omega), eq, getAncestor_eq_some.mpr ⟨anc, at_⟩]
    exact ⟨rfl, fun _ n enough => (walkBack_eq_some enough (by omega)).mpr ⟨anc, at_⟩⟩

structure Meet (tree : BlockTree) (a b c : Uint256) : Prop where
  left : Anc tree.pprev c a
  right : Anc tree.pprev c b
  greatest : ∀ {d}, Anc tree.pprev d a → Anc tree.pprev d b → Anc tree.pprev d c

theorem lockstep_eq {n : ℕ} (enough : tree.nHeight a < n) (level : tree.nHeight a = tree.nHeight b)
    (common : Anc tree.pprev p a ∧ Anc tree.pprev p b) :
    ∃ c, tree.lockstep n (some a) (some b) = (some c, some c) ∧ tree.Meet a b c := by
  induction n generalizing a b
  case zero => exact absurd enough (Nat.not_lt_zero _)
  case succ n ih =>
    simp only [lockstep]
    split
    case isFalse eq =>
      cases not_not.mp eq
      exact ⟨a, rfl, .refl, .refl, fun h _ => h⟩
    case isTrue ne =>
      have below {d : Uint256} (left : Anc tree.pprev d a) (right : Anc tree.pprev d b) :
          tree.nHeight d < tree.nHeight a := by
        refine lt_of_le_of_ne (tree.graded.height_le left) fun at_ => ne ?_
        exact (tree.graded.eq_of_height_le left at_.ge).symm.trans
          (tree.graded.eq_of_height_le right (by omega))
      have lt := below common.left common.right
      have ⟨pa, ea⟩ := tree.pprev_of_height_pos (b := a) (by omega)
      have ⟨pb, eb⟩ := tree.pprev_of_height_pos (b := b) (by omega)
      have ha := tree.graded.child ea
      have hb := tree.graded.child eb
      have up {d : Uint256} (left : Anc tree.pprev d a) (right : Anc tree.pprev d b) :
          Anc tree.pprev d pa ∧ Anc tree.pprev d pb := by
        have := below left right
        exact ⟨tree.graded.linear left (.step ea .refl) (by omega),
          tree.graded.linear right (.step eb .refl) (by omega)⟩
      have ⟨c, eq, meet⟩ := ih (a := pa) (b := pb) (by omega) (by omega) (up common.left common.right)
      refine ⟨c, by rw [ea, eb, eq], .step ea meet.left, .step eb meet.right, fun left right => ?_⟩
      have ⟨left, right⟩ := up left right
      exact meet.greatest left right

theorem Meet.unique {c' : Uint256} (meet : tree.Meet a b c) (meet' : tree.Meet a b c') : c = c' :=
  tree.graded.antisymm (meet'.greatest meet.left meet.right) (meet.greatest meet'.left meet'.right)

theorem Meet.symm (meet : tree.Meet a b c) : tree.Meet b a c :=
  ⟨meet.right, meet.left, fun left right => meet.greatest right left⟩

theorem Meet.of_ancestor {a' : Uint256} (anc : Anc tree.pprev a' a) (le : tree.nHeight b ≤ tree.nHeight a')
    (meet : tree.Meet a' b c) : tree.Meet a b c := by
  refine ⟨meet.left.trans anc, meet.right, fun left right => ?_⟩
  exact meet.greatest (tree.graded.linear left anc ((tree.graded.height_le right).trans le)) right

theorem lastCommonAncestor_eq (common : Anc tree.pprev p a ∧ Anc tree.pprev p b) :
    ∃ c, tree.lastCommonAncestor a b = .ok (some c) ∧ tree.Meet a b c := by
  have done {c : Uint256} (eq : tree.lockstep (min (tree.nHeight a) (tree.nHeight b) + 1)
      (if tree.nHeight a > tree.nHeight b then tree.getAncestor a (tree.nHeight b) else some a)
      (if tree.nHeight b > tree.nHeight a then tree.getAncestor b (tree.nHeight a) else some b) = (some c, some c)) :
      tree.lastCommonAncestor a b = .ok (some c) := by
    simp only [lastCommonAncestor, eq, ne_eq, not_true, failIf_false, ok_bind]
  have lowA := tree.graded.height_le common.left
  have lowB := tree.graded.height_le common.right
  obtain lt | eq | gt := Nat.lt_trichotomy (tree.nHeight a) (tree.nHeight b)
  case inl =>
    have ⟨b', at_, anc, level⟩ := getAncestor_of_le lt.le
    have shared := tree.graded.linear common.right anc (by omega)
    have ⟨c, eq, meet⟩ := lockstep_eq (n := min (tree.nHeight a) (tree.nHeight b) + 1) (a := a) (b := b')
      (by omega) level.symm ⟨common.left, shared⟩
    refine ⟨c, done ?_, (meet.symm.of_ancestor anc (by omega)).symm⟩
    rw [if_neg (by omega), if_pos lt, at_, eq]
  case inr.inl =>
    have ⟨c, eq', meet⟩ := lockstep_eq (n := min (tree.nHeight a) (tree.nHeight b) + 1) (by omega) eq common
    refine ⟨c, done ?_, meet⟩
    rw [if_neg (by omega), if_neg (by omega), eq']
  case inr.inr =>
    have ⟨a', at_, anc, level⟩ := getAncestor_of_le gt.le
    have shared := tree.graded.linear common.left anc (by omega)
    have ⟨c, eq, meet⟩ := lockstep_eq (n := min (tree.nHeight a) (tree.nHeight b) + 1) (a := a') (b := b)
      (by omega) level ⟨shared, common.right⟩
    refine ⟨c, done ?_, meet.of_ancestor anc (by omega)⟩
    rw [if_pos gt, if_neg (by omega), at_, eq]

end BlockTree

namespace CChain

variable {tree : BlockTree} {chain : CChain} {a b c t : Uint256}

def IsPath (tree : BlockTree) (chain : CChain) (t : Uint256) : Prop :=
  chain.vChain = (path tree.pprev tree.nHeight t).map some

section

variable (is : IsPath tree chain t)

include is

theorem IsPath.at'_eq_some {h : ℕ} :
    chain.at' h = some a ↔ Anc tree.pprev a t ∧ tree.nHeight a = h := by
  rw [at', is, getElem?_map, ← tree.graded.path_getElem?]
  cases (path tree.pprev tree.nHeight t)[h]? <;> simp

theorem IsPath.contains_iff : chain.contains tree b ↔ Anc tree.pprev b t := by
  rw [contains, beq_iff_eq, is.at'_eq_some]
  exact and_iff_left rfl

theorem IsPath.tip_eq : chain.tip = some t := by
  rw [tip, is, getLast?_map, tree.graded.path_getLast?]
  rfl

theorem IsPath.genesis_eq (root : Anc tree.pprev a t) (bottom : tree.pprev a = none) :
    chain.genesis = some a := by
  have first := is.at'_eq_some.mpr ⟨root, tree.graded.root bottom⟩
  rwa [at', ← head?_eq_getElem?] at first

end

-- What is left of the former chain: an entry stands above its ancestors.
def Aligned (tree : BlockTree) (vChain : List (Option Uint256)) (h : ℕ) : Prop :=
  ∀ x, tree.nHeight x < h → vChain[tree.nHeight x]? = some (some x) →
    ∀ a, Anc tree.pprev a x → vChain[tree.nHeight a]? = some (some a)

variable {l : List (Option Uint256)} {v : List (Option Uint256)}

theorem join_eq_some {h : ℕ} :
    (l[h]?).join = some a ↔ l[h]? = some (some a) := by
  cases l[h]? <;> simp

theorem takeD_join {n h : ℕ} (lt : h < n) :
    ((l.takeD n none)[h]?).join = (l[h]?).join := by
  induction n generalizing l h
  case zero => exact absurd lt (Nat.not_lt_zero _)
  case succ n ih =>
    rw [takeD_succ]
    cases h
    case zero => cases l <;> rfl
    case succ h => rw [getElem?_cons_succ, ih (by omega), getElem?_tail]

-- Everything is in place above the current entry, and below it is the former chain.
theorem fill_spec {n : ℕ} (enough : tree.nHeight c < n)
    (size : v.length = tree.nHeight b + 1) (anc : Anc tree.pprev c b)
    (above : ∀ a, Anc tree.pprev a b → tree.nHeight c < tree.nHeight a → v[tree.nHeight a]? = some (some a))
    (aligned : Aligned tree v (tree.nHeight c + 1)) :
    (fill tree n v (some c)).length = tree.nHeight b + 1 ∧
      ∀ a, Anc tree.pprev a b → (fill tree n v (some c))[tree.nHeight a]? = some (some a) := by
  induction n generalizing c v
  case zero => exact absurd enough (Nat.not_lt_zero _)
  case succ n ih =>
    simp only [fill]
    split
    case isFalse same =>
      have here := join_eq_some.mp (not_not.mp same)
      refine ⟨size, fun a anc' => ?_⟩
      by_cases lt : tree.nHeight c < tree.nHeight a
      case pos => exact above a anc' lt
      case neg => exact aligned c (Nat.lt_succ_self _) here a (tree.graded.linear anc' anc (by omega))
    case isTrue =>
      have fits := tree.graded.height_le anc
      have set {a : Uint256} (anc' : Anc tree.pprev a b) (ge : tree.nHeight c ≤ tree.nHeight a) :
          (v.set (tree.nHeight c) (some c))[tree.nHeight a]? = some (some a) := by
        by_cases eq : tree.nHeight a = tree.nHeight c
        case pos =>
          rw [tree.graded.eq_of_height anc' anc eq, getElem?_set_self (by omega)]
        case neg =>
          rw [getElem?_set_ne (by omega)]
          exact above a anc' (by omega)
      cases eq : tree.pprev c
      case none =>
        have zero := tree.graded.root eq
        have stop : fill tree n (v.set (tree.nHeight c) (some c)) none = v.set (tree.nHeight c) (some c) := by
          cases n <;> rfl
        rw [stop, length_set]
        exact ⟨size, fun a anc' => set anc' (by omega)⟩
      case some p =>
        have up := tree.graded.child eq
        refine ih (by omega) (by rw [length_set, size]) ((Anc.step eq .refl).trans anc)
          (fun a anc' lt => set anc' (by omega)) ?_
        intro x lt here a anc'
        have low := tree.graded.height_le anc'
        rw [getElem?_set_ne (by omega)] at here ⊢
        exact aligned x (by omega) here a anc'

theorem isPath_of_forall (size : v.length = tree.nHeight b + 1)
    (all : ∀ a, Anc tree.pprev a b → v[tree.nHeight a]? = some (some a)) : IsPath tree { vChain := v } b := by
  refine ext_getElem? fun h => ?_
  by_cases lt : h < tree.nHeight b + 1
  case pos =>
    have ⟨a, anc, at_⟩ := tree.graded.exists_at (b := b) (h := h) (by omega)
    rw [getElem?_map, tree.graded.path_getElem?.mpr ⟨anc, at_⟩, ← at_]
    exact all a anc
  case neg =>
    rw [getElem?_eq_none (by rw [size]; omega),
      getElem?_eq_none (by rw [length_map, tree.graded.path_length]; omega)]

theorem setTip_isPath (former : chain.vChain = [] ∨ ∃ t, IsPath tree chain t) :
    IsPath tree (chain.setTip tree (some b)) b := by
  have entry {h : ℕ} {x : Uint256} (lt : h < tree.nHeight b + 1) :
      (chain.vChain.takeD (tree.nHeight b + 1) none)[h]? = some (some x) ↔ chain.vChain[h]? = some (some x) := by
    rw [← join_eq_some, takeD_join lt, join_eq_some]
  have aligned : Aligned tree (chain.vChain.takeD (tree.nHeight b + 1) none) (tree.nHeight b + 1) := by
    intro x lt here a anc
    have low := tree.graded.height_le anc
    rw [entry (by omega)] at here ⊢
    obtain empty | ⟨t, is⟩ := former
    case inl => rw [empty] at here; cases here
    case inr =>
      have top := (is.at'_eq_some.mp (join_eq_some.mpr here)).left
      exact join_eq_some.mp (is.at'_eq_some.mpr ⟨anc.trans top, rfl⟩)
  have ⟨size, all⟩ := fill_spec (n := tree.nHeight b + 1) (Nat.lt_succ_self _) (takeD_length ..) .refl
    (fun a anc lt => absurd (tree.graded.height_le anc) (by omega)) aligned
  exact isPath_of_forall size all

theorem IsPath.lastContained_eq (is : IsPath tree chain t) {n : ℕ} (enough : tree.nHeight b < n)
    (common : Anc tree.pprev a t ∧ Anc tree.pprev a b) :
    ∃ c, chain.lastContained tree n (some b) = some c ∧ tree.Meet t b c := by
  induction n generalizing b
  case zero => exact absurd enough (Nat.not_lt_zero _)
  case succ n ih =>
    simp only [lastContained]
    split
    case isTrue inside => exact ⟨b, rfl, is.contains_iff.mp inside, .refl, fun _ h => h⟩
    case isFalse outside =>
      have apart {d : Uint256} (left : Anc tree.pprev d t) : d ≠ b := by
        rintro rfl
        exact outside (is.contains_iff.mpr left)
      cases eq : tree.pprev b
      case none => exact absurd ((Anc.iff_of_root eq).mp common.right) (apart common.left)
      case some p =>
        have up {d : Uint256} (left : Anc tree.pprev d t) (right : Anc tree.pprev d b) : Anc tree.pprev d p :=
          ((Anc.iff_of_child eq).mp right).resolve_left (apart left)
        have ⟨c, at_, meet⟩ := ih (by have := tree.graded.child eq; omega) ⟨common.left, up common.left common.right⟩
        exact ⟨c, at_, meet.left, .step eq meet.right, fun left right => meet.greatest left (up left right)⟩

theorem IsPath.findFork_eq (is : IsPath tree chain t) (common : Anc tree.pprev a t ∧ Anc tree.pprev a b) :
    ∃ c, chain.findFork tree b = some c ∧ tree.Meet t b c := by
  have size : chain.vChain.length = tree.nHeight t + 1 := by rw [is, length_map, tree.graded.path_length]
  simp only [findFork, size]
  split
  case isTrue gt =>
    have ⟨b', at_, anc, level⟩ := BlockTree.getAncestor_of_le (show tree.nHeight t ≤ tree.nHeight b by omega)
    have shared := tree.graded.linear common.right anc (by rw [level]; exact tree.graded.height_le common.left)
    have ⟨c, eq, meet⟩ := is.lastContained_eq (n := tree.nHeight b + 1) (b := b') (by omega) ⟨common.left, shared⟩
    refine ⟨c, ?_, (meet.symm.of_ancestor anc (by omega)).symm⟩
    rw [if_neg (by omega), Nat.add_sub_cancel, at_, eq]
  case isFalse => exact is.lastContained_eq (Nat.lt_succ_self _) common

theorem lastContained_eq_none {n : ℕ} (enough : tree.nHeight b < n)
    (apart : ∀ a, Anc tree.pprev a b → ¬chain.contains tree a) : chain.lastContained tree n (some b) = none := by
  induction n generalizing b
  case zero => exact absurd enough (Nat.not_lt_zero _)
  case succ n ih =>
    simp only [lastContained, apart b .refl, Bool.false_eq_true, if_false]
    cases eq : tree.pprev b
    case none => cases n <;> rfl
    case some p =>
      have up := tree.graded.child eq
      exact ih (by omega) fun a anc => apart a (.step eq anc)

theorem findFork_eq_none (apart : ∀ a, Anc tree.pprev a b → ¬chain.contains tree a) :
    chain.findFork tree b = none := by
  simp only [findFork]
  split
  case isFalse => exact lastContained_eq_none (Nat.lt_succ_self _) apart
  case isTrue =>
    split
    case isTrue => rfl
    case isFalse =>
      cases eq : tree.getAncestor b (chain.vChain.length - 1)
      case none => rfl
      case some b' =>
        have anc := (BlockTree.getAncestor_eq_some.mp eq).left
        have low := tree.graded.height_le anc
        exact lastContained_eq_none (by omega) fun a anc' => apart a (anc'.trans anc)

-- Between calls the chain is that of the last tip, so `SetTip` may stop at the first right entry.
theorem foldl_setTip (tree : BlockTree) (calls : List (Option Uint256)) :
    (calls.getLast?.join = none → (calls.foldl (setTip tree) {}).vChain = []) ∧
      ∀ t, calls.getLast?.join = some t → IsPath tree (calls.foldl (setTip tree) {}) t := by
  induction calls using List.reverseRecOn
  case nil => exact ⟨fun _ => rfl, by rintro t ⟨⟩⟩
  case append_singleton calls call ih =>
    rw [foldl_append, getLast?_append]
    cases call
    case none => exact ⟨fun _ => rfl, by rintro t ⟨⟩⟩
    case some t =>
      refine ⟨by rintro ⟨⟩, ?_⟩
      rintro _ ⟨⟩
      refine setTip_isPath ?_
      cases last : calls.getLast?.join
      case none => exact .inl (ih.left last)
      case some t' => exact .inr ⟨t', ih.right t' last⟩

theorem setTip_findFork (tree : BlockTree) (calls : List (Option Uint256)) :
    let chain := calls.foldl (setTip tree) {}
    (calls.getLast?.join = none → chain.vChain = []) ∧
    (∀ t, calls.getLast?.join = some t → chain.vChain.length = tree.nHeight t + 1 ∧
      ∀ i ≤ tree.nHeight t, ∃ a, chain.vChain[i]? = some (some a) ∧ Anc tree.pprev a t ∧ tree.nHeight a = i) ∧
    ∀ b c, chain.findFork tree b = some c ↔ (chain.contains tree c ∧ Anc tree.pprev c b) ∧
      ∀ d, chain.contains tree d → Anc tree.pprev d b → tree.nHeight d ≤ tree.nHeight c := by
  intro chain
  obtain ⟨empty, is⟩ := foldl_setTip tree calls
  refine ⟨empty, fun t last => ⟨?_, fun i le => ?_⟩, fun b c => ?_⟩
  · rw [is t last, length_map, tree.graded.path_length]
  · obtain ⟨a, anc, at_⟩ := tree.graded.exists_at le
    exact ⟨a, join_eq_some.mp ((is t last).at'_eq_some.mpr ⟨anc, at_⟩), anc, at_⟩
  · by_cases common : ∃ a, chain.contains tree a ∧ Anc tree.pprev a b
    case neg =>
      rw [findFork_eq_none fun a anc inside => common ⟨a, inside, anc⟩]
      exact ⟨by rintro ⟨⟩, fun h => absurd ⟨c, h.left⟩ common⟩
    case pos =>
      obtain ⟨a, inside, anc⟩ := common
      obtain ⟨t, last⟩ : ∃ t, calls.getLast?.join = some t := by
        refine Option.ne_none_iff_exists'.mp fun last => ?_
        have none : chain.at' (tree.nHeight a) = none := by rw [at', empty last]; rfl
        rw [contains, none] at inside
        cases inside
      have on (d : Uint256) : chain.contains tree d ↔ Anc tree.pprev d t := (is t last).contains_iff
      obtain ⟨f, fork, meet⟩ := (is t last).findFork_eq ⟨(on a).mp inside, anc⟩
      rw [fork, Option.some.injEq]
      constructor
      case mp =>
        rintro rfl
        exact ⟨⟨(on f).mpr meet.left, meet.right⟩,
          fun d inside anc => tree.graded.height_le (meet.greatest ((on d).mp inside) anc)⟩
      case mpr =>
        rintro ⟨⟨inside, anc⟩, highest⟩
        have up := tree.graded.height_le (meet.greatest ((on _).mp inside) anc)
        exact tree.graded.eq_of_height meet.right anc (le_antisymm (highest f ((on f).mpr meet.left) meet.right) up)

end CChain

end Qrax
