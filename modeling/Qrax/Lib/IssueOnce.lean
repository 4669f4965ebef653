import Qrax.Lib.SpendOnce

-- Moves with ids, where every key belongs to the id of its creator.

namespace IssueOnce

open SpendOnce (Move)

variable {ι κ : Type}

structure Issue (ι κ : Type) extends Move κ where
  id : ι

-- The keys left come from past issues, and what these spent does not come back.
structure Settled (owner : κ → ι) (H : Set (Issue ι κ)) (S : Set κ) : Prop where
  owned : ∀ k ∈ S, ∃ i ∈ H, i.id = owner k
  spent : ∀ i ∈ H, ∀ k ∈ i.spends, k ∉ S ∧ ∃ j ∈ H, j.id = owner k

namespace Settled

variable {owner : κ → ι} {H : Set (Issue ι κ)} {S S' : Set κ} {i : Issue ι κ} {k : κ}

theorem mono (h : Settled owner H S) (sub : S' ⊆ S) : Settled owner H S' where
  owned k mem := h.owned k (sub mem)
  spent i mem k s := ⟨fun now => (h.spent i mem k s).left (sub now), (h.spent i mem k s).right⟩

theorem absent (h : Settled owner H S) (new : ∀ j ∈ H, j.id ≠ owner k) : k ∉ S := by
  intro now
  have ⟨j, mem, eq⟩ := h.owned k now
  exact new j mem eq

theorem new_of_spends (h : Settled owner H S) (found : ∀ k ∈ i.spends, k ∈ S) (some : i.spends ≠ [])
    (same : ∀ j ∈ H, j.id = i.id → j.spends = i.spends) : ∀ j ∈ H, j.id ≠ i.id := by
  intro j mem eq
  have ⟨k, spends⟩ := List.exists_mem_of_ne_nil _ some
  have gone := (h.spent j mem k (same j mem eq ▸ spends)).left
  exact gone (found k spends)

theorem step (h : Settled owner H S) (takes : i.Takes S S') (owned : ∀ k ∈ i.creates, owner k = i.id)
    (new : ∀ j ∈ H, j.id ≠ i.id) : Settled owner (insert i H) S' where
  owned k mem := by
    cases takes.left k mem
    case inl old =>
      have ⟨j, mem, eq⟩ := h.owned k old.left
      exact ⟨j, .inr mem, eq⟩
    case inr created => exact ⟨i, .inl rfl, (owned k created).symm⟩
  spent j mem k spends := by
    -- The key belongs to a past issue, so this one does not create it.
    have known : ∃ j ∈ H, j.id = owner k := by
      cases mem
      case inl eq => exact h.owned k (takes.found k (eq ▸ spends))
      case inr old => exact (h.spent j old k spends).right
    have ⟨j', mem', eq'⟩ := known
    refine ⟨fun now => ?_, j', .inr mem', eq'⟩
    cases takes.left k now
    case inr created => exact new j' mem' (eq'.trans (owned k created))
    case inl old =>
      cases mem
      case inl eq => exact old.right (eq ▸ spends)
      case inr mem => exact (h.spent j mem k spends).left old.left

end Settled

end IssueOnce
