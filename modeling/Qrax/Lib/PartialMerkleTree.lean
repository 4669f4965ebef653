import Qrax.Lib.MerkleTree

open List Nat Set

-- Parts of binary hash trees: a subtree is given by its root, or by its parts down to the leaves shown.

namespace MerkleTree

variable {α : Type}

inductive Partial (α : Type) : ℕ → Type
  | pruned {k : ℕ} (hash : α) : Partial α k
  | shown (leaf : α) : Partial α 0
  | single {k : ℕ} (left : Partial α k) : Partial α (k + 1)
  | node {k : ℕ} (left right : Partial α k) : Partial α (k + 1)

namespace Partial

variable (combine : α → α → α)

def root : {k : ℕ} → Partial α k → α
  | _, pruned hash => hash
  | _, shown leaf => leaf
  | _, single left => combine left.root left.root
  | _, node left right => combine left.root right.root

def pairs : {k : ℕ} → Partial α k → Set (α × α)
  | _, pruned _ => ∅
  | _, shown _ => ∅
  | _, single left => insert (left.root combine, left.root combine) left.pairs
  | _, node left right => insert (left.root combine, right.root combine) (left.pairs ∪ right.pairs)

def leaves : {k : ℕ} → Partial α k → List α
  | _, pruned _ => []
  | _, shown leaf => [leaf]
  | _, single left => left.leaves
  | _, node left right => left.leaves ++ right.leaves

def positions : {k : ℕ} → Partial α k → List ℕ
  | _, pruned _ => []
  | _, shown _ => [0]
  | _, single left => left.positions
  | k + 1, node left right => left.positions ++ right.positions.map (2 ^ k + ·)

end Partial

variable [Inhabited α]

-- The leaf at a position of the complete tree of height `k` over `l`, with repeated nodes.
def leafAt : ℕ → List α → ℕ → α
  | 0, l, _ => l.headD default
  | k + 1, l, i =>
    if l.length ≤ 2 ^ k then leafAt k l (i % 2 ^ k)
    else if i < 2 ^ k then leafAt k (l.take (2 ^ k)) i
    else leafAt k (l.drop (2 ^ k)) (i - 2 ^ k)

theorem leafAt_mem {k : ℕ} {l : List α} {i : ℕ} (nonempty : l ≠ []) : leafAt k l i ∈ l := by
  induction k generalizing l i
  case zero =>
    have ⟨a, l', eq⟩ := exists_cons_of_ne_nil nonempty
    subst eq
    exact mem_cons_self
  case succ k ih =>
    have pos := Nat.two_pow_pos k
    rw [leafAt]
    split_ifs
    case pos => exact ih nonempty
    case pos long _ => exact mem_of_mem_take (ih (ne_nil_of_length_pos (by rw [length_take]; omega)))
    case neg long _ => exact mem_of_mem_drop (ih (ne_nil_of_length_pos (by rw [length_drop]; omega)))

theorem leafAt_eq {k : ℕ} {l : List α} {i : ℕ} (fits : l.length ≤ 2 ^ k) (lt : i < l.length) :
    leafAt k l i = l[i] := by
  induction k generalizing l i
  case zero =>
    obtain rfl : i = 0 := by rw [pow_zero] at fits; omega
    rw [leafAt, headD_eq_head?_getD, head?_eq_getElem?, getElem?_eq_getElem lt]
    rfl
  case succ k ih =>
    rw [leafAt]
    split_ifs with short left
    case pos =>
      have lt' : i < 2 ^ k := by omega
      rw [ih short (by rwa [mod_eq_of_lt lt'])]
      simp only [mod_eq_of_lt lt']
    case pos =>
      rw [ih (by rw [length_take]; omega) (by rw [length_take]; omega), getElem_take]
    case neg =>
      rw [pow_succ] at fits
      rw [ih (by rw [length_drop]; omega) (by rw [length_drop]; omega), getElem_drop]
      simp only [show 2 ^ k + (i - 2 ^ k) = i by omega]

-- The leaves of the two subtrees, the same twice where the right one is missing.
structure Halves (combine : α → α → α) (k : ℕ) (l l₁ l₂ : List α) : Prop where
  root : root combine (k + 1) l = combine (root combine k l₁) (root combine k l₂)
  pair : (MerkleTree.root combine k l₁, MerkleTree.root combine k l₂) ∈ pairs combine (k + 1) l
  left : pairs combine k l₁ ⊆ pairs combine (k + 1) l
  right : pairs combine k l₂ ⊆ pairs combine (k + 1) l
  subset : l₁ ⊆ l ∧ l₂ ⊆ l
  nonempty : l ≠ [] → l₁ ≠ [] ∧ l₂ ≠ []
  leaf₁ : ∀ i < 2 ^ k, leafAt (k + 1) l i = leafAt k l₁ i
  leaf₂ : ∀ i < 2 ^ k, leafAt (k + 1) l (2 ^ k + i) = leafAt k l₂ i

theorem exists_halves (combine : α → α → α) (k : ℕ) (l : List α) : ∃ l₁ l₂, Halves combine k l l₁ l₂ := by
  by_cases short : l.length ≤ 2 ^ k
  case pos =>
    refine ⟨l, l, root_short short, ?_, ?_, ?_, ⟨List.Subset.refl l, List.Subset.refl l⟩, fun h => ⟨h, h⟩, ?_, ?_⟩
    · exact pairs_short short ▸ mem_insert ..
    · exact pairs_short short ▸ subset_insert ..
    · exact pairs_short short ▸ subset_insert ..
    · intro i lt
      rw [leafAt, if_pos short, mod_eq_of_lt lt]
    · intro i lt
      rw [leafAt, if_pos short, add_mod_left, mod_eq_of_lt lt]
  case neg =>
    have long := not_le.mp short
    have pos := Nat.two_pow_pos k
    refine ⟨l.take (2 ^ k), l.drop (2 ^ k), root_long long, ?_, ?_, ?_, ⟨take_subset .., drop_subset ..⟩, ?_, ?_, ?_⟩
    · exact pairs_long long ▸ mem_insert ..
    · rw [pairs_long long]
      exact fun q mem => mem_insert_of_mem _ (mem_union_left _ mem)
    · rw [pairs_long long]
      exact fun q mem => mem_insert_of_mem _ (mem_union_right _ mem)
    · refine fun _ => ⟨ne_nil_of_length_pos ?_, ne_nil_of_length_pos ?_⟩
      · rw [length_take]; omega
      · rw [length_drop]; omega
    · intro i lt
      rw [leafAt, if_neg short, if_pos lt]
    · intro i lt
      rw [leafAt, if_neg short, if_neg (by omega), Nat.add_sub_cancel_left]

namespace Partial

section

omit [Inhabited α]

variable {k : ℕ}

theorem positions_lt (p : Partial α k) : ∀ i ∈ p.positions, i < 2 ^ k := by
  induction p
  case pruned => exact nofun
  case shown => simp [positions]
  case single p ih =>
    intro i mem
    have := ih i mem
    rw [pow_succ]
    omega
  case node l r ihₗ ihᵣ =>
    intro i mem
    rw [pow_succ]
    obtain mem | mem := mem_append.mp mem
    case inl =>
      have := ihₗ i mem
      omega
    case inr =>
      have ⟨j, mem, eq⟩ := mem_map.mp mem
      have := ihᵣ j mem
      omega

theorem positions_nodup (p : Partial α k) : p.positions.Nodup := by
  induction p
  case pruned => exact nodup_nil
  case shown => exact nodup_singleton 0
  case single p ih => exact ih
  case node k l r ihₗ ihᵣ =>
    refine nodup_append.mpr ⟨ihₗ, ihᵣ.map fun _ _ => add_left_cancel, fun i mem j mem' => ?_⟩
    have := l.positions_lt i mem
    have ⟨j', _, eq⟩ := mem_map.mp mem'
    omega

theorem leaves_eq_nil_iff {p : Partial α k} : p.leaves = [] ↔ p.positions = [] := by
  induction p
  case pruned => simp [leaves, positions]
  case shown => simp [leaves, positions]
  case single p ih => exact ih
  case node l r ihₗ ihᵣ => simp [leaves, positions, ihₗ, ihᵣ]

end

variable {combine : α → α → α} {hashed : Set (α × α)} {k : ℕ}

section

omit [Inhabited α]

variable {p q : Partial α k}

theorem pair_single (sub : (single p).pairs combine ⊆ hashed) :
    (p.root combine, p.root combine) ∈ hashed ∧ p.pairs combine ⊆ hashed :=
  ⟨sub (mem_insert ..), fun _ mem => sub (mem_insert_of_mem _ mem)⟩

theorem pair_node (sub : (node p q).pairs combine ⊆ hashed) :
    (p.root combine, q.root combine) ∈ hashed ∧ p.pairs combine ⊆ hashed ∧ q.pairs combine ⊆ hashed := by
  refine ⟨sub (mem_insert ..), fun _ mem => ?_, fun _ mem => ?_⟩
  · exact sub (mem_insert_of_mem _ (mem_union_left _ mem))
  · exact sub (mem_insert_of_mem _ (mem_union_right _ mem))

end

variable {l : List α} {p : Partial α k}

section

variable (inj : hashed.InjOn fun q => combine q.1 q.2)

include inj

theorem exists_halves_of_root {x y : α}
    (pair : (x, y) ∈ hashed) (sub : MerkleTree.pairs combine (k + 1) l ⊆ hashed)
    (h : combine x y = MerkleTree.root combine (k + 1) l) :
    ∃ l₁ l₂, Halves combine k l l₁ l₂ ∧ x = MerkleTree.root combine k l₁ ∧ y = MerkleTree.root combine k l₂ := by
  have ⟨l₁, l₂, halves⟩ := exists_halves combine k l
  have top := inj pair (sub halves.pair) (h.trans halves.root)
  exact ⟨l₁, l₂, halves, (Prod.mk.inj top).left, (Prod.mk.inj top).right⟩

theorem leaves_eq (subₚ : p.pairs combine ⊆ hashed) (subₗ : MerkleTree.pairs combine k l ⊆ hashed)
    (h : p.root combine = MerkleTree.root combine k l) : p.leaves = p.positions.map (leafAt k l) := by
  induction p generalizing l
  case pruned => rfl
  case shown leaf => exact congrArg (fun a => [a]) h
  case single p ih =>
    have ⟨pair, below⟩ := pair_single subₚ
    have ⟨l₁, l₂, halves, eq, _⟩ := exists_halves_of_root inj pair subₗ h
    rw [leaves, positions, ih below (halves.left.trans subₗ) eq]
    exact map_congr_left fun i mem => (halves.leaf₁ i (p.positions_lt i mem)).symm
  case node p₁ p₂ ih₁ ih₂ =>
    have ⟨pair, below₁, below₂⟩ := pair_node subₚ
    have ⟨l₁, l₂, halves, eq₁, eq₂⟩ := exists_halves_of_root inj pair subₗ h
    rw [leaves, positions, ih₁ below₁ (halves.left.trans subₗ) eq₁, ih₂ below₂ (halves.right.trans subₗ) eq₂,
      map_append, map_map]
    congr 1
    · exact map_congr_left fun i mem => (halves.leaf₁ i (p₁.positions_lt i mem)).symm
    · exact map_congr_left fun i mem => (halves.leaf₂ i (p₂.positions_lt i mem)).symm

theorem leaves_mem_inner {j : ℕ}
    (subₚ : p.pairs combine ⊆ hashed) (subₗ : MerkleTree.pairs combine (k + j + 1) l ⊆ hashed)
    (h : p.root combine = MerkleTree.root combine (k + j + 1) l) : ∀ a ∈ p.leaves, a ∈ inner combine (k + j + 1) l := by
  induction p generalizing l
  case pruned => exact nofun
  case shown leaf =>
    intro a mem
    have ⟨l₁, l₂, halves⟩ := exists_halves combine (0 + j) l
    rw [mem_singleton.mp mem]
    exact ⟨_, halves.pair, halves.root.symm.trans h.symm⟩
  case single k p ih =>
    rw [show k + 1 + j + 1 = k + j + 1 + 1 by omega] at subₗ h ⊢
    have ⟨pair, below⟩ := pair_single subₚ
    have ⟨l₁, l₂, halves, eq, _⟩ := exists_halves_of_root inj pair subₗ h
    intro a mem
    have ⟨q, mem, eq⟩ := ih below (halves.left.trans subₗ) eq a mem
    exact ⟨q, halves.left mem, eq⟩
  case node k p₁ p₂ ih₁ ih₂ =>
    rw [show k + 1 + j + 1 = k + j + 1 + 1 by omega] at subₗ h ⊢
    have ⟨pair, below₁, below₂⟩ := pair_node subₚ
    have ⟨l₁, l₂, halves, eq₁, eq₂⟩ := exists_halves_of_root inj pair subₗ h
    intro a mem
    obtain mem | mem := mem_append.mp mem
    case inl =>
      have ⟨q, mem, eq⟩ := ih₁ below₁ (halves.left.trans subₗ) eq₁ a mem
      exact ⟨q, halves.left mem, eq⟩
    case inr =>
      have ⟨q, mem, eq⟩ := ih₂ below₂ (halves.right.trans subₗ) eq₂ a mem
      exact ⟨q, halves.right mem, eq⟩

end

theorem exists_leaf_mem_pairs {n : ℕ} {p : Partial α n} (lt : k < n)
    (inj : hashed.InjOn fun q => combine q.1 q.2) (subₚ : p.pairs combine ⊆ hashed)
    (subₗ : MerkleTree.pairs combine k l ⊆ hashed) (nonempty : l ≠ []) (h : p.root combine = MerkleTree.root combine k l)
    (shows' : p.leaves ≠ []) : ∃ a ∈ l, ∃ q ∈ p.pairs combine, combine q.1 q.2 = a := by
  induction p generalizing k l
  case pruned => exact absurd rfl shows'
  case shown => omega
  case single p ih =>
    cases k
    case zero =>
      refine ⟨_, ?_, _, mem_insert .., h⟩
      exact leafAt_mem (k := 0) (i := 0) nonempty
    case succ k =>
      have ⟨pair, below⟩ := pair_single subₚ
      have ⟨l₁, l₂, halves, eq, _⟩ := exists_halves_of_root inj pair subₗ h
      have ⟨a, mem, q, mem', eq⟩ := ih (by omega) below (halves.left.trans subₗ) (halves.nonempty nonempty).left eq shows'
      exact ⟨a, halves.subset.left mem, q, mem_insert_of_mem _ mem', eq⟩
  case node p₁ p₂ ih₁ ih₂ =>
    cases k
    case zero =>
      refine ⟨_, ?_, _, mem_insert .., h⟩
      exact leafAt_mem (k := 0) (i := 0) nonempty
    case succ k =>
      have ⟨pair, below₁, below₂⟩ := pair_node subₚ
      have ⟨l₁, l₂, halves, eq₁, eq₂⟩ := exists_halves_of_root inj pair subₗ h
      obtain shows₁ | shows₂ : p₁.leaves ≠ [] ∨ p₂.leaves ≠ [] := by
        rwa [← not_and_or, ← append_eq_nil_iff]
      case inl =>
        have ⟨a, mem, q, mem', eq⟩ := ih₁ (by omega) below₁ (halves.left.trans subₗ)
          (halves.nonempty nonempty).left eq₁ shows₁
        exact ⟨a, halves.subset.left mem, q, mem_insert_of_mem _ (mem_union_left _ mem'), eq⟩
      case inr =>
        have ⟨a, mem, q, mem', eq⟩ := ih₂ (by omega) below₂ (halves.right.trans subₗ)
          (halves.nonempty nonempty).right eq₂ shows₂
        exact ⟨a, halves.subset.right mem, q, mem_insert_of_mem _ (mem_union_right _ mem'), eq⟩

-- Leaves are shown, each once, just when nothing is shown or the heights agree and no leaf is at two of the positions.
theorem leaves_sound_iff (inj : hashed.InjOn fun q => combine q.1 q.2)
    (subₚ : p.pairs combine ⊆ hashed) (subₗ : MerkleTree.pairs combine (height l) l ⊆ hashed) (nonempty : l ≠ [])
    (apart : ∀ q ∈ hashed, combine q.1 q.2 ∉ l) (h : p.root combine = MerkleTree.root combine (height l) l) :
    (∀ a ∈ p.leaves, a ∈ l) ∧ p.leaves.Nodup ↔
      p.positions = [] ∨ k = height l ∧ (p.positions.map (leafAt (height l) l)).Nodup := by
  obtain lt | eq | lt := lt_trichotomy k (height l)
  case inl =>
    rw [← leaves_eq_nil_iff]
    constructor
    case mp =>
      rintro ⟨mem, _⟩
      refine .inl (eq_nil_iff_forall_not_mem.mpr fun a shown => ?_)
      have ⟨j, eq⟩ := Nat.exists_eq_add_of_lt lt
      have ⟨q, mem', eq'⟩ := leaves_mem_inner inj subₚ (eq ▸ subₗ) (eq ▸ h) a shown
      have eq' : combine q.1 q.2 = a := eq'
      exact apart q (subₗ (eq ▸ mem')) (eq' ▸ mem a shown)
    case mpr =>
      rintro (none | ⟨eq, _⟩)
      · simp [none]
      · omega
  case inr.inl =>
    subst eq
    rw [leaves_eq inj subₚ subₗ h]
    constructor
    case mp => exact fun ⟨_, nodup⟩ => .inr ⟨rfl, nodup⟩
    case mpr =>
      rintro (none | ⟨_, nodup⟩)
      · simp [none]
      · refine ⟨fun a mem => ?_, nodup⟩
        have ⟨i, _, eq⟩ := mem_map.mp mem
        exact eq ▸ leafAt_mem nonempty
  case inr.inr =>
    have none : p.leaves = [] := by
      by_contra shows'
      have ⟨a, mem, q, mem', eq⟩ := exists_leaf_mem_pairs lt inj subₚ subₗ nonempty h shows'
      exact apart q (subₚ mem') (eq ▸ mem)
    simp [none, leaves_eq_nil_iff.mp none]

end Partial

end MerkleTree
