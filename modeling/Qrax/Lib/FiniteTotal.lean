import Mathlib

-- Totals of amounts under keys, finitely many of them not zero.

open Function List

namespace FiniteTotal

variable {κ : Type} [DecidableEq κ] {f g : κ → ℤ}

theorem update_eq_add (f : κ → ℤ) (k : κ) (d : ℤ) : update f k (f k + d) = f + update (0 : κ → ℤ) k d := by
  funext k'
  by_cases eq : k' = k
  case pos =>
    subst eq
    simp
  case neg => simp [eq]

theorem hasFiniteSupport_update_zero (k : κ) (d : ℤ) : HasFiniteSupport (update (0 : κ → ℤ) k d) := by
  refine (Set.finite_singleton k).subset fun k' mem => ?_
  by_contra ne
  exact mem (update_of_ne ne ..)

theorem hasFiniteSupport_update (h : HasFiniteSupport f) (k : κ) (d : ℤ) :
    HasFiniteSupport (update f k (f k + d)) := by
  rw [update_eq_add]
  exact h.add (hasFiniteSupport_update_zero k d)

theorem finsum_update (h : HasFiniteSupport f) (k : κ) (d : ℤ) :
    ∑ᶠ k', update f k (f k + d) k' = ∑ᶠ k', f k' + d := by
  have single : ∑ᶠ k', update (0 : κ → ℤ) k d k' = d := by
    rw [finsum_eq_single _ k fun k' ne => update_of_ne ne .., update_self]
  rw [update_eq_add]
  exact (finsum_add_distrib h (hasFiniteSupport_update_zero k d)).trans (congrArg _ single)

omit [DecidableEq κ] in
theorem finsum_mono (hf : HasFiniteSupport f) (hg : HasFiniteSupport g) (le : ∀ k, f k ≤ g k) :
    ∑ᶠ k, f k ≤ ∑ᶠ k, g k := by
  have diff := finsum_nonneg fun k => sub_nonneg.mpr (le k)
  rw [finsum_sub_distrib hg hf] at diff
  exact sub_nonneg.mp diff

variable {β : Type}

def total (w : β → ℤ) (m : AList fun _ : κ => β) : ℤ :=
  (m.entries.map (w ·.2)).sum

theorem total_erase (w : β → ℤ) (m : AList fun _ : κ => β) (a : κ) :
    total w (m.erase a) = total w m - (m.lookup a).elim 0 w := by
  change (List.map _ (m.entries.kerase a)).sum = (m.entries.map _).sum - (m.entries.dlookup a).elim 0 w
  induction m.entries
  case nil => rfl
  case cons e l ih =>
    by_cases eq : e.1 = a
    case pos =>
      subst eq
      rw [kerase_cons_eq rfl, dlookup_cons_eq, map_cons, sum_cons, Option.elim_some]
      ring
    case neg =>
      rw [kerase_cons_ne (Ne.symm eq), dlookup_cons_ne _ _ (Ne.symm eq), map_cons, map_cons,
        sum_cons, sum_cons, ih]
      ring

theorem total_insert (w : β → ℤ) (m : AList fun _ : κ => β) (a : κ) (b : β) :
    total w (m.insert a b) = total w m - (m.lookup a).elim 0 w + w b := by
  rw [← total_erase, add_comm]
  exact sum_cons

end FiniteTotal
