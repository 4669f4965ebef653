import Mathlib

open List

-- Scans for the first element with the highest count.
namespace Highest

variable {α β γ : Type} [LinearOrder γ] (P : α → Prop) (count : α → γ) (value : α → β)

structure EndsOn (l : List α) (found : γ × Option β) (a : α) : Prop where
  mem : a ∈ l
  fits : P a
  found : found = (count a, some (value a))
  highest : ∀ b ∈ l, P b → count b ≤ count a

theorem foldl_scan (scan : γ × Option β → α → γ × Option β)
    (take : ∀ acc a, P a → acc.1 < count a → scan acc a = (count a, some (value a)))
    (skip : ∀ acc a, ¬(P a ∧ acc.1 < count a) → scan acc a = acc) (l : List α) (acc : γ × Option β) :
    (l.foldl scan acc = acc ∧ ∀ a ∈ l, P a → count a ≤ acc.1) ∨
      ∃ a, EndsOn P count value l (l.foldl scan acc) a ∧ acc.1 < count a := by
  induction l generalizing acc
  case nil => exact .inl ⟨rfl, fun _ mem => nomatch mem⟩
  case cons a l ih =>
    rw [foldl_cons]
    by_cases higher : P a ∧ acc.1 < count a
    case neg =>
      rw [skip acc a higher]
      have lower (fits : P a) : count a ≤ acc.1 := not_lt.mp fun lt => higher ⟨fits, lt⟩
      cases ih acc
      case inl h => exact .inl ⟨h.1, forall_mem_cons.mpr ⟨lower, h.2⟩⟩
      case inr h =>
        have ⟨b, ends, lt⟩ := h
        refine .inr ⟨b, ⟨mem_cons_of_mem a ends.mem, ends.fits, ends.found, ?_⟩, lt⟩
        exact forall_mem_cons.mpr ⟨fun fits => (lower fits).trans lt.le, ends.highest⟩
    case pos =>
      rw [take acc a higher.1 higher.2]
      cases ih (count a, some (value a))
      case inl h =>
        refine .inr ⟨a, ⟨mem_cons_self, higher.1, h.1, ?_⟩, higher.2⟩
        exact forall_mem_cons.mpr ⟨fun _ => le_rfl, h.2⟩
      case inr h =>
        have ⟨b, ends, lt⟩ := h
        refine .inr ⟨b, ⟨mem_cons_of_mem a ends.mem, ends.fits, ends.found, ?_⟩, higher.2.trans lt⟩
        exact forall_mem_cons.mpr ⟨fun _ => lt.le, ends.highest⟩

end Highest
