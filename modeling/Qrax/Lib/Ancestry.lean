import Mathlib

-- Totals over all above or below an element of a finite relation, itself included.

open Relation Finset

namespace Ancestry

variable {κ : Type}

def Restricts (D : Finset κ) (R R' : κ → κ → Prop) : Prop :=
  ∀ a b, R' a b ↔ a ∉ D ∧ b ∉ D ∧ R a b

def ClosedBelow (D : Finset κ) (R : κ → κ → Prop) : Prop :=
  ∀ a b, R a b → a ∈ D → b ∈ D

def ClosedAbove (D : Finset κ) (R : κ → κ → Prop) : Prop :=
  ∀ a b, R a b → b ∈ D → a ∈ D

variable {S D : Finset κ} {R R' : κ → κ → Prop} {a b x : κ}

theorem ClosedBelow.reach (closed : ClosedBelow D R) (path : ReflTransGen R a b) (mem : a ∈ D) : b ∈ D := by
  induction path
  case refl => exact mem
  case tail step ih => exact closed _ _ step ih

theorem ClosedAbove.reach (closed : ClosedAbove D R) (path : ReflTransGen R a b) (mem : b ∈ D) : a ∈ D := by
  induction path
  case refl => exact mem
  case tail step ih => exact ih (closed _ _ step mem)

theorem Restricts.reach (r : Restricts D R R') (path : ReflTransGen R' a b) : ReflTransGen R a b :=
  ReflTransGen.mono (fun a b step => ((r a b).mp step).right.right) _ _ path

theorem Restricts.reach_below (r : Restricts D R R') (closed : ClosedBelow D R) (out : b ∉ D) :
    ReflTransGen R' a b ↔ ReflTransGen R a b := by
  refine ⟨r.reach, fun path => ?_⟩
  induction path
  case refl => exact .refl
  case tail c b path step ih =>
    have out' : c ∉ D := fun mem => out (closed c b step mem)
    exact (ih out').tail ((r c b).mpr ⟨out', out, step⟩)

theorem Restricts.reach_above (r : Restricts D R R') (closed : ClosedAbove D R) (out : a ∉ D) :
    ReflTransGen R' a b ↔ ReflTransGen R a b := by
  refine ⟨r.reach, fun path => ?_⟩
  induction path using ReflTransGen.head_induction_on
  case refl => exact .refl
  case head c step path ih =>
    have out' : c ∉ D := fun mem => out (closed _ c step mem)
    exact .head ((r _ c).mpr ⟨out, out', step⟩) (ih out')

open Classical

variable {M : Type} [AddCommMonoid M] {w w' : κ → M}

noncomputable def upTotal (S : Finset κ) (R : κ → κ → Prop) (w : κ → M) (x : κ) : M :=
  ∑ a ∈ S with ReflTransGen R a x, w a

noncomputable def downTotal (S : Finset κ) (R : κ → κ → Prop) (w : κ → M) (x : κ) : M :=
  ∑ b ∈ S with ReflTransGen R x b, w b

variable [DecidableEq κ]

theorem sum_untouched {P P' : κ → Prop} (outside : ∀ a, P a → a ∉ D) (weight : ∀ a ∉ D, w' a = w a)
    (same : ∀ a, P' a ↔ P a) : ∑ a ∈ S \ D with P' a, w' a = ∑ a ∈ S with P a, w a := by
  refine sum_congr ?_ fun a mem => weight a (outside a (mem_filter.mp mem).right)
  ext a
  simp only [mem_filter, mem_sdiff, same]
  constructor
  case mp => exact fun ⟨⟨mem, _⟩, holds⟩ => ⟨mem, holds⟩
  case mpr => exact fun ⟨mem, holds⟩ => ⟨⟨mem, outside a holds⟩, holds⟩

theorem upTotal_below (r : Restricts D R R') (closed : ClosedBelow D R) (weight : ∀ a ∉ D, w' a = w a) (out : x ∉ D) :
    upTotal (S \ D) R' w' x = upTotal S R w x :=
  sum_untouched (fun _ path inside => out (closed.reach path inside)) weight fun _ => r.reach_below closed out

theorem downTotal_above (r : Restricts D R R') (closed : ClosedAbove D R) (weight : ∀ a ∉ D, w' a = w a) (out : x ∉ D) :
    downTotal (S \ D) R' w' x = downTotal S R w x :=
  sum_untouched (fun _ path inside => out (closed.reach path inside)) weight fun _ => r.reach_above closed out

theorem sum_taken {P P' : κ → Prop} (sub : D ⊆ S) (weight : ∀ a ∉ D, w' a = w a) (same : ∀ a ∉ D, P' a ↔ P a) :
    ∑ a ∈ S \ D with P' a, w' a + ∑ a ∈ D with P a, w a = ∑ a ∈ S with P a, w a := by
  have left : ∑ a ∈ S \ D with P' a, w' a = ∑ a ∈ S \ D with P a, w a := by
    refine sum_congr (filter_congr fun a mem => same a (mem_sdiff.mp mem).right) fun a mem => ?_
    exact weight a (mem_sdiff.mp (mem_filter.mp mem).left).right
  rw [left, sum_filter, sum_filter, sum_filter, sum_sdiff sub]

theorem downTotal_below (r : Restricts D R R') (closed : ClosedBelow D R) (weight : ∀ a ∉ D, w' a = w a) (sub : D ⊆ S) :
    downTotal (S \ D) R' w' x + ∑ b ∈ D with ReflTransGen R x b, w b = downTotal S R w x :=
  sum_taken sub weight fun _ out => r.reach_below closed out

theorem upTotal_above (r : Restricts D R R') (closed : ClosedAbove D R) (weight : ∀ a ∉ D, w' a = w a) (sub : D ⊆ S) :
    upTotal (S \ D) R' w' x + ∑ a ∈ D with ReflTransGen R a x, w a = upTotal S R w x :=
  sum_taken sub weight fun _ out => r.reach_above closed out

theorem sum_reweighed {P : κ → Prop} {y : κ} {d : M} (mem : y ∈ S) (weight : ∀ a, w' a = w a + if a = y then d else 0) :
    ∑ a ∈ S with P a, w' a = ∑ a ∈ S with P a, w a + if P y then d else 0 := by
  rw [sum_congr rfl fun a _ => weight a, sum_add_distrib, sum_ite_eq']
  simp only [mem_filter, mem, true_and]

end Ancestry
