import Mathlib

open List Nat

-- Binary hash trees in which a level of odd length repeats its last node. `root k l` is the root of the tree of height
-- `k` over at most `2 ^ k` leaves.

namespace MerkleTree

variable {α : Type} [Inhabited α] (combine : α → α → α)

def root : ℕ → List α → α
  | 0, l => l.headD default
  | k + 1, l =>
    if l.length ≤ 2 ^ k then combine (root k l) (root k l)
    else combine (root k (l.take (2 ^ k))) (root k (l.drop (2 ^ k)))

def mutated [DecidableEq α] : ℕ → List α → Bool
  | 0, _ => false
  | k + 1, l =>
    if l.length ≤ 2 ^ k then mutated k l
    else
      mutated k (l.take (2 ^ k)) || mutated k (l.drop (2 ^ k)) ||
        ((l.drop (2 ^ k)).length == 2 ^ k &&
          root combine k (l.take (2 ^ k)) == root combine k (l.drop (2 ^ k)))

def pairs : ℕ → List α → Set (α × α)
  | 0, _ => ∅
  | k + 1, l =>
    if l.length ≤ 2 ^ k then insert (root combine k l, root combine k l) (pairs k l)
    else
      insert (root combine k (l.take (2 ^ k)), root combine k (l.drop (2 ^ k)))
        (pairs k (l.take (2 ^ k)) ∪ pairs k (l.drop (2 ^ k)))

def inner (k : ℕ) (l : List α) : Set α :=
  (fun p => combine p.1 p.2) '' pairs combine k l

section

variable {combine} {k : ℕ} {l : List α}

theorem root_short (h : l.length ≤ 2 ^ k) :
    root combine (k + 1) l = combine (root combine k l) (root combine k l) :=
  if_pos h

theorem root_long (h : 2 ^ k < l.length) :
    root combine (k + 1) l =
      combine (root combine k (l.take (2 ^ k))) (root combine k (l.drop (2 ^ k))) :=
  if_neg (not_le.mpr h)

theorem pairs_short (h : l.length ≤ 2 ^ k) :
    pairs combine (k + 1) l = insert (root combine k l, root combine k l) (pairs combine k l) :=
  if_pos h

theorem pairs_long (h : 2 ^ k < l.length) :
    pairs combine (k + 1) l =
      insert (root combine k (l.take (2 ^ k)), root combine k (l.drop (2 ^ k)))
        (pairs combine k (l.take (2 ^ k)) ∪ pairs combine k (l.drop (2 ^ k))) :=
  if_neg (not_le.mpr h)

theorem mutated_short [DecidableEq α] (h : l.length ≤ 2 ^ k) :
    mutated combine (k + 1) l = mutated combine k l :=
  if_pos h

theorem mutated_long [DecidableEq α] (h : 2 ^ k < l.length) :
    mutated combine (k + 1) l =
      (mutated combine k (l.take (2 ^ k)) || mutated combine k (l.drop (2 ^ k)) ||
        ((l.drop (2 ^ k)).length == 2 ^ k &&
          root combine k (l.take (2 ^ k)) == root combine k (l.drop (2 ^ k)))) :=
  if_neg (not_le.mpr h)

omit [Inhabited α] in
theorem length_halves (h : 2 ^ k < l.length) (hl : l.length ≤ 2 ^ (k + 1)) :
    (l.take (2 ^ k)).length = 2 ^ k ∧ 0 < (l.drop (2 ^ k)).length ∧ (l.drop (2 ^ k)).length ≤ 2 ^ k := by
  rw [length_take, length_drop]
  rw [pow_succ] at hl
  omega

theorem root_succ (combine : α → α → α) (k : ℕ) (l : List α) :
    ∃ l₁ l₂, root combine (k + 1) l = combine (root combine k l₁) (root combine k l₂) ∧
      (root combine k l₁, root combine k l₂) ∈ pairs combine (k + 1) l ∧
      pairs combine k l₁ ⊆ pairs combine (k + 1) l ∧ l₁ <+: l ∧ (l ≠ [] → l₁ ≠ []) := by
  by_cases h : l.length ≤ 2 ^ k
  case pos =>
    refine ⟨l, l, root_short h, ?_, ?_, prefix_refl l, id⟩
    · exact pairs_short h ▸ Set.mem_insert ..
    · exact pairs_short h ▸ Set.subset_insert ..
  case neg =>
    have h := not_le.mp h
    refine ⟨l.take (2 ^ k), l.drop (2 ^ k), root_long h, ?_, ?_, take_prefix .., fun _ eq => ?_⟩
    · exact pairs_long h ▸ Set.mem_insert ..
    · rw [pairs_long h]
      exact fun p hp => Set.mem_insert_of_mem _ (Set.mem_union_left _ hp)
    · have := congrArg List.length eq
      rw [length_take, length_nil] at this
      have := Nat.two_pow_pos k
      omega

end

section

variable {combine} [DecidableEq α]

-- The leaves `l` of a tree of height `k` that repeats nothing, with its hashes among `hashed`.
structure Clean (combine : α → α → α) (hashed : Set (α × α)) (k : ℕ) (l : List α) : Prop where
  pos : 0 < l.length
  fits : l.length ≤ 2 ^ k
  distinct : mutated combine k l = false
  hashed : pairs combine k l ⊆ hashed

namespace Clean

variable {hashed : Set (α × α)} {k : ℕ} {l m : List α}

theorem short (h : Clean combine hashed (k + 1) l) (hl : l.length ≤ 2 ^ k) :
    Clean combine hashed k l ∧ (root combine k l, root combine k l) ∈ hashed where
  left := {
    pos := h.pos
    fits := hl
    distinct := mutated_short hl ▸ h.distinct
    hashed := fun _ hp => h.hashed (pairs_short hl ▸ Set.mem_insert_of_mem _ hp)
  }
  right := h.hashed (pairs_short hl ▸ Set.mem_insert ..)

theorem long (h : Clean combine hashed (k + 1) l) (hl : 2 ^ k < l.length) :
    Clean combine hashed k (l.take (2 ^ k)) ∧ Clean combine hashed k (l.drop (2 ^ k)) ∧
      l.take (2 ^ k) ≠ l.drop (2 ^ k) ∧
      (root combine k (l.take (2 ^ k)), root combine k (l.drop (2 ^ k))) ∈ hashed := by
  obtain ⟨full, pos, fits⟩ := length_halves hl h.fits
  have distinct := h.distinct
  rw [mutated_long hl] at distinct
  simp only [Bool.or_eq_false_iff] at distinct
  have sub := pairs_long hl ▸ h.hashed
  refine ⟨⟨?_, full.le, distinct.left.left, ?_⟩, ⟨pos, fits, distinct.left.right, ?_⟩, fun same => ?_, ?_⟩
  · rw [full]
    exact Nat.two_pow_pos k
  · exact fun p hp => sub (.inr (.inl hp))
  · exact fun p hp => sub (.inr (.inr hp))
  · have := distinct.right
    rw [← same, full] at this
    simp at this
  · exact sub (Set.mem_insert ..)

theorem root_inj (inj : hashed.InjOn fun p => combine p.1 p.2) (hl : Clean combine hashed k l)
    (hm : Clean combine hashed k m) (h : root combine k l = root combine k m) : l = m := by
  induction k generalizing l m
  case zero =>
    have ⟨a, ha⟩ := length_eq_one_iff.mp (le_antisymm hl.fits hl.pos)
    have ⟨b, hb⟩ := length_eq_one_iff.mp (le_antisymm hm.fits hm.pos)
    subst ha hb
    exact congrArg (fun a => [a]) h
  case succ k ih =>
    -- A list that fits into half of the tree would be both halves of a longer one.
    have differ {l m : List α} (hl : Clean combine hashed (k + 1) l)
        (hm : Clean combine hashed (k + 1) m) (hl' : l.length ≤ 2 ^ k) (hm' : 2 ^ k < m.length) :
        root combine (k + 1) l ≠ root combine (k + 1) m := by
      intro h
      have ⟨clean, mem⟩ := hl.short hl'
      have ⟨left, right, ne, mem'⟩ := hm.long hm'
      rw [root_short hl', root_long hm'] at h
      have ⟨top₁, top₂⟩ := Prod.mk.inj (inj mem mem' h)
      exact ne ((ih clean left top₁).symm.trans (ih clean right top₂))
    by_cases hl' : l.length ≤ 2 ^ k
    case pos =>
      by_cases hm' : m.length ≤ 2 ^ k
      case neg => exact absurd h (differ hl hm hl' (not_le.mp hm'))
      case pos =>
        have ⟨cleanₗ, memₗ⟩ := hl.short hl'
        have ⟨cleanₘ, memₘ⟩ := hm.short hm'
        rw [root_short hl', root_short hm'] at h
        exact ih cleanₗ cleanₘ (Prod.mk.inj (inj memₗ memₘ h)).left
    case neg =>
      by_cases hm' : m.length ≤ 2 ^ k
      case pos => exact absurd h.symm (differ hm hl hm' (not_le.mp hl'))
      case neg =>
        have ⟨leftₗ, rightₗ, _, memₗ⟩ := hl.long (not_le.mp hl')
        have ⟨leftₘ, rightₘ, _, memₘ⟩ := hm.long (not_le.mp hm')
        rw [root_long (not_le.mp hl'), root_long (not_le.mp hm')] at h
        have ⟨top₁, top₂⟩ := Prod.mk.inj (inj memₗ memₘ h)
        rw [← take_append_drop (2 ^ k) l, ih leftₗ leftₘ top₁, ih rightₗ rightₘ top₂,
          take_append_drop]

end Clean

omit [DecidableEq α] in
-- Trees of different heights with one root: down on the left, a leaf of the lower is an inner node of the other.
theorem leaf_mem_inner {hashed : Set (α × α)} {k j : ℕ} {l m : List α}
    (inj : hashed.InjOn fun p => combine p.1 p.2) (subₗ : pairs combine k l ⊆ hashed)
    (subₘ : pairs combine (k + j + 1) m ⊆ hashed) (hl : l ≠ []) (h : root combine k l = root combine (k + j + 1) m) :
    ∃ a ∈ l, a ∈ inner combine (k + j + 1) m := by
  induction k generalizing l m
  case zero =>
    have ⟨m₁, m₂, eq, mem, _⟩ := root_succ combine (0 + j) m
    have ⟨a, l', ha⟩ := exists_cons_of_ne_nil hl
    subst ha
    exact ⟨a, mem_cons_self, _, mem, eq.symm.trans h.symm⟩
  case succ k ih =>
    rw [show k + 1 + j + 1 = k + j + 1 + 1 by omega] at subₘ h ⊢
    have ⟨l₁, l₂, eqₗ, memₗ, belowₗ, preₗ, neₗ⟩ := root_succ combine k l
    have ⟨m₁, m₂, eqₘ, memₘ, belowₘ, _⟩ := root_succ combine (k + j + 1) m
    rw [eqₗ, eqₘ] at h
    have top := inj (subₗ memₗ) (subₘ memₘ) h
    have ⟨a, mem, p, hp, eq⟩ := ih (belowₗ.trans subₗ) (belowₘ.trans subₘ) (neₗ hl)
      (Prod.mk.inj top).left
    exact ⟨a, preₗ.subset mem, p, belowₘ hp, eq⟩

def height (l : List α) : ℕ :=
  Nat.clog 2 l.length

omit [Inhabited α] [DecidableEq α] in
theorem length_le_height (l : List α) : l.length ≤ 2 ^ height l :=
  le_pow_clog (by decide) _

theorem eq_of_root_eq {hashed : Set (α × α)} {l m : List α}
    (inj : hashed.InjOn fun p => combine p.1 p.2) (hl : Clean combine hashed (height l) l)
    (hm : Clean combine hashed (height m) m) (leavesₗ : ∀ a ∈ l, a ∉ inner combine (height m) m)
    (leavesₘ : ∀ a ∈ m, a ∉ inner combine (height l) l)
    (h : root combine (height l) l = root combine (height m) m) : l = m := by
  have lower {l m : List α} (hl : Clean combine hashed (height l) l)
      (hm : Clean combine hashed (height m) m) (leaves : ∀ a ∈ l, a ∉ inner combine (height m) m)
      (h : root combine (height l) l = root combine (height m) m) : ¬height l < height m := by
    intro lt
    have ⟨j, hj⟩ := Nat.exists_eq_add_of_lt lt
    have ⟨a, ha, mem⟩ := leaf_mem_inner inj hl.hashed (hj ▸ hm.hashed)
      (ne_nil_of_length_pos hl.pos) (hj ▸ h)
    exact leaves a ha (hj ▸ mem)
  have same : height l = height m :=
    le_antisymm (not_lt.mp (lower hm hl leavesₘ h.symm)) (not_lt.mp (lower hl hm leavesₗ h))
  rw [← same] at hm h
  exact hl.root_inj inj hm h

end

end MerkleTree
