import Mathlib

open List

-- Trees that are given by parent pointers.

namespace Forest

variable {ι : Type}

-- The first node lies on the way from the second to its root. Every node lies on its own.
inductive Anc (parent : ι → Option ι) (a : ι) : ι → Prop
  | refl : Anc parent a a
  | step {b p} : parent b = some p → Anc parent a p → Anc parent a b

-- The height counts the pointers that lead to the root.
structure Graded (parent : ι → Option ι) (height : ι → ℕ) : Prop where
  root : ∀ {b}, parent b = none → height b = 0
  child : ∀ {b p}, parent b = some p → height b = height p + 1

-- The nodes passed on the way down from a node to a descendant.
inductive Way (parent : ι → Option ι) : ι → List ι → ι → Prop
  | nil {a} : Way parent a [] a
  | cons {a b c l} : parent b = some a → Way parent b l c → Way parent a (b :: l) c

def climb (parent : ι → Option ι) : ℕ → ι → List ι
  | 0, b => [b]
  | n + 1, b => b :: (parent b).elim [] (climb parent n)

def path (parent : ι → Option ι) (height : ι → ℕ) (b : ι) : List ι :=
  (climb parent (height b) b).reverse

def preorder (children : ι → List ι) : ℕ → ι → List ι
  | 0, _ => []
  | n + 1, b => b :: (children b).flatMap (preorder children n)

variable {parent : ι → Option ι} {height : ι → ℕ} {a b c p : ι}

namespace Anc

theorem exists_child (h : Anc parent a b) (ne : a ≠ b) : ∃ c, parent c = some a ∧ Anc parent c b := by
  induction h
  case refl => exact absurd rfl ne
  case step b p eq _ ih =>
    by_cases here : a = p
    case pos => exact ⟨b, here ▸ eq, .refl⟩
    case neg =>
      have ⟨c, up, anc⟩ := ih here
      exact ⟨c, up, .step eq anc⟩

theorem trans (h : Anc parent a b) (h' : Anc parent b c) : Anc parent a c := by
  induction h'
  case refl => exact h
  case step eq _ ih => exact .step eq ih

theorem iff_of_root (eq : parent b = none) : Anc parent a b ↔ a = b := by
  constructor
  case mp =>
    intro h
    cases h
    case refl => rfl
    case step _ eq' => exact absurd (eq.symm.trans eq') nofun
  case mpr =>
    rintro rfl
    exact .refl

theorem iff_of_child (eq : parent b = some p) : Anc parent a b ↔ a = b ∨ Anc parent a p := by
  constructor
  case mp =>
    intro h
    cases h
    case refl => exact .inl rfl
    case step anc eq' => exact .inr (Option.some.inj (eq.symm.trans eq') ▸ anc)
  case mpr =>
    rintro (rfl | anc)
    case inl => exact .refl
    case inr => exact .step eq anc

end Anc

namespace Way

variable {l : List ι}

theorem snoc (way : Way parent a l p) (eq : parent b = some p) : Way parent a (l ++ [b]) b := by
  induction way
  case nil => exact .cons eq .nil
  case cons up _ ih => exact .cons up (ih eq)

theorem anc (way : Way parent a l c) : Anc parent a c := by
  induction way
  case nil => exact .refl
  case cons up _ ih => exact Anc.trans (.step up .refl) ih

end Way

namespace Graded

variable (g : Graded parent height)

include g

theorem induction {motive : ι → Prop} (root : ∀ b, parent b = none → motive b)
    (child : ∀ b p, parent b = some p → motive p → motive b) (b : ι) : motive b := by
  generalize eq : height b = n
  induction n generalizing b
  case zero =>
    cases h : parent b
    case none => exact root b h
    case some p => exact absurd (g.child h) (by omega)
  case succ n ih =>
    cases h : parent b
    case none => exact root b h
    case some p => exact child b p h (ih p (by have := g.child h; omega))

theorem height_le (h : Anc parent a b) : height a ≤ height b := by
  induction h
  case refl => exact Nat.le_refl _
  case step eq _ ih => exact Nat.le_trans ih (by rw [g.child eq]; exact Nat.le_succ _)

theorem eq_of_height_le (h : Anc parent a b) (le : height b ≤ height a) : a = b := by
  cases h
  case refl => rfl
  case step p anc eq =>
    have := g.height_le anc
    have := g.child eq
    omega

theorem antisymm (h : Anc parent a b) (h' : Anc parent b a) : a = b :=
  g.eq_of_height_le h (g.height_le h')

theorem linear (ha : Anc parent a c) (hb : Anc parent b c) (le : height a ≤ height b) : Anc parent a b := by
  induction hb
  case refl => exact ha
  case step c p eq hb ih =>
    cases ha
    case refl =>
      have := g.height_le hb
      have := g.child eq
      omega
    case step p' ha eq' =>
      cases eq.symm.trans eq'
      exact ih ha

theorem eq_of_height (ha : Anc parent a c) (hb : Anc parent b c) (eq : height a = height b) : a = b :=
  g.eq_of_height_le (g.linear ha hb (Nat.le_of_eq eq)) (Nat.le_of_eq eq.symm)

theorem exists_at {h : ℕ} (le : h ≤ height b) : ∃ a, Anc parent a b ∧ height a = h := by
  induction b using g.induction
  case root b eq => exact ⟨b, .refl, by have := g.root eq; omega⟩
  case child b p eq ih =>
    by_cases top : h = height b
    case pos => exact ⟨b, .refl, top.symm⟩
    case neg =>
      have ⟨a, anc, at_⟩ := ih (by have := g.child eq; omega)
      exact ⟨a, .step eq anc, at_⟩

theorem path_of_root (eq : parent b = none) : path parent height b = [b] := by
  rw [path, g.root eq]
  rfl

theorem path_of_child (eq : parent b = some p) : path parent height b = path parent height p ++ [b] := by
  simp only [path, g.child eq, climb, eq, Option.elim, reverse_cons]

theorem path_of_way {l : List ι} (way : Way parent a l c) : path parent height c = path parent height a ++ l := by
  induction way
  case nil => rw [append_nil]
  case cons up _ ih => rw [ih, g.path_of_child up, append_assoc, singleton_append]

theorem way_unique {l l' : List ι} (way : Way parent a l c) (way' : Way parent a l' c) : l = l' :=
  append_cancel_left ((g.path_of_way way).symm.trans (g.path_of_way way'))

theorem path_length (b : ι) : (path parent height b).length = height b + 1 := by
  induction b using g.induction
  case root b eq => rw [g.path_of_root eq, g.root eq]; rfl
  case child b p eq ih => rw [g.path_of_child eq, length_append, ih, g.child eq]; rfl

theorem path_getElem? {h : ℕ} : (path parent height b)[h]? = some a ↔ Anc parent a b ∧ height a = h := by
  induction b using g.induction
  case root b eq =>
    rw [g.path_of_root eq, Anc.iff_of_root eq]
    have zero := g.root eq
    cases h
    case zero => exact ⟨fun e => by cases e; exact ⟨rfl, zero⟩, fun ⟨e, _⟩ => congrArg some e.symm⟩
    case succ h => exact ⟨nofun, fun ⟨e, at_⟩ => by rw [e] at at_; omega⟩
  case child b p eq ih =>
    have up := g.child eq
    rw [g.path_of_child eq, Anc.iff_of_child eq]
    have len := g.path_length p
    by_cases lt : h < height p + 1
    case pos =>
      rw [getElem?_append_left (by omega), ih]
      constructor
      case mp => exact fun ⟨anc, at_⟩ => ⟨.inr anc, at_⟩
      case mpr =>
        rintro ⟨rfl | anc, at_⟩
        case inl => omega
        case inr => exact ⟨anc, at_⟩
    case neg =>
      rw [getElem?_append_right (by omega)]
      constructor
      case mp =>
        intro e
        cases k : h - (path parent height p).length
        case zero =>
          rw [k] at e
          cases e
          exact ⟨.inl rfl, by omega⟩
        case succ => rw [k] at e; cases e
      case mpr =>
        rintro ⟨rfl | anc, at_⟩
        case inl => rw [len, ← at_, up, Nat.sub_self]; rfl
        case inr => have := g.height_le anc; omega

theorem mem_path : a ∈ path parent height b ↔ Anc parent a b := by
  rw [mem_iff_getElem?]
  simp only [g.path_getElem?]
  exact ⟨fun ⟨_, anc, _⟩ => anc, fun anc => ⟨_, anc, rfl⟩⟩

theorem path_map_height (b : ι) : (path parent height b).map height = List.range (height b + 1) := by
  induction b using g.induction
  case root b eq => rw [g.path_of_root eq, map_singleton, g.root eq]; rfl
  case child b p eq ih => rw [g.path_of_child eq, map_append, ih, map_singleton, g.child eq, ← range_succ]

theorem path_nodup (b : ι) : (path parent height b).Nodup :=
  List.Nodup.of_map height (g.path_map_height b ▸ nodup_range)

theorem path_getLast? (b : ι) : (path parent height b).getLast? = some b := by
  rw [getLast?_eq_getElem?, g.path_length, g.path_getElem?]
  exact ⟨.refl, rfl⟩

section

variable {children : ι → List ι} (child : ∀ b c, c ∈ children b ↔ parent c = some b)

include child

theorem mem_preorder {n : ℕ} : c ∈ preorder children n b ↔ Anc parent b c ∧ height c < height b + n := by
  induction n generalizing b
  case zero => exact ⟨nofun, fun ⟨anc, lt⟩ => absurd (g.height_le anc) (by omega)⟩
  case succ n ih =>
    simp only [preorder, mem_cons, mem_flatMap, child, ih]
    constructor
    case mp =>
      rintro (rfl | ⟨d, eq, anc, lt⟩)
      case inl => exact ⟨.refl, by omega⟩
      case inr => exact ⟨Anc.trans (.step eq .refl) anc, by have := g.child eq; omega⟩
    case mpr =>
      intro ⟨anc, lt⟩
      by_cases here : b = c
      case pos => exact .inl here.symm
      case neg =>
        have ⟨d, eq, anc⟩ := anc.exists_child here
        exact .inr ⟨d, eq, anc, by have := g.child eq; omega⟩

theorem preorder_nodup (nodup : ∀ b, (children b).Nodup) {n : ℕ} : (preorder children n b).Nodup := by
  induction n generalizing b
  case zero => exact nodup_nil
  case succ n ih =>
    rw [preorder, nodup_cons, nodup_flatMap]
    refine ⟨fun mem => ?_, fun _ _ => ih, (nodup b).imp_of_mem fun {d d'} mem mem' apart => ?_⟩
    case refine_1 =>
      have ⟨d, mem, below⟩ := mem_flatMap.mp mem
      have := g.child ((child b d).mp mem)
      have := g.height_le ((g.mem_preorder child).mp below).left
      omega
    case refine_2 =>
      intro c below below'
      have up := g.child ((child b d).mp mem)
      have up' := g.child ((child b d').mp mem')
      exact apart (g.eq_of_height ((g.mem_preorder child).mp below).left ((g.mem_preorder child).mp below').left
        (by omega))

end

end Graded

end Forest
