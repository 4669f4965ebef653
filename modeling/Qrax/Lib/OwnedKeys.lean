import Qrax.Lib.KeyedUpdate

-- Maps whose keys have owners, with a list per owner of the keys to take out when it leaves.

namespace OwnedKeys

variable {κ β ω : Type} [DecidableEq κ] [DecidableEq ω] {owner : κ → β → ω}
  {m m' : AList fun _ : κ => β} {lists lists' : AList fun _ : ω => List κ} {w : ω}

def Listed (owner : κ → β → ω) (m : AList fun _ : κ => β) (lists : AList fun _ : ω => List κ) : Prop :=
  ∀ k b, m.lookup k = some b → ∃ l, lists.lookup (owner k b) = some l ∧ k ∈ l

theorem Listed.mem_owners (listed : Listed owner m lists) {k : κ} {b : β} (looked : m.lookup k = some b) :
    owner k b ∈ lists := by
  have ⟨l, found, _⟩ := listed k b looked
  exact AList.lookup_isSome.mp (by rw [found]; rfl)

-- `w` leaves, with its listed keys.
structure Left (w : ω) (m m' : AList fun _ : κ => β) (lists lists' : AList fun _ : ω => List κ) : Prop where
  keys : ∀ k, m'.lookup k = if k ∈ (lists.lookup w).getD [] then none else m.lookup k
  owners : ∀ v, lists'.lookup v = if v = w then none else lists.lookup v

namespace Left

variable (left : Left w m m' lists lists')

include left

theorem stays {k : κ} {b : β} (looked : m'.lookup k = some b) : m.lookup k = some b := by
  rw [left.keys, Option.ite_none_left_eq_some] at looked
  exact looked.right

theorem owner_ne (listed : Listed owner m lists) {k : κ} {b : β} (looked : m'.lookup k = some b) : owner k b ≠ w := by
  rw [left.keys, Option.ite_none_left_eq_some] at looked
  have ⟨l, found, mem⟩ := listed k b looked.right
  intro eq
  rw [← eq, found, Option.getD_some] at looked
  exact looked.left mem

theorem listed (listed : Listed owner m lists) : Listed owner m' lists' := by
  intro k b looked
  rw [left.owners, if_neg (left.owner_ne listed looked)]
  exact listed k b (left.stays looked)

theorem mem_owners {v : ω} (mem : v ∈ lists') : v ≠ w ∧ v ∈ lists := by
  rw [← AList.lookup_isSome, left.owners] at mem
  split at mem
  case isTrue => cases mem
  case isFalse ne => exact ⟨ne, AList.lookup_isSome.mp mem⟩

end Left

theorem Listed.enter {l : List κ} (listed : Listed owner m lists) (absent : w ∉ lists)
    (new : ∀ k b, m'.lookup k = some b → m.lookup k = some b ∨ owner k b = w ∧ k ∈ l) :
    Listed owner m' (KeyedUpdate.emplace lists w l) := by
  intro k b looked
  rw [KeyedUpdate.lookup_emplace, AList.lookup_eq_none.mpr absent, Option.getD_none]
  obtain old | ⟨eq, mem⟩ := new k b looked
  case inr => exact ⟨l, if_pos eq, mem⟩
  case inl =>
    have ne : owner k b ≠ w := fun eq => absent (eq ▸ listed.mem_owners old)
    rw [if_neg ne]
    exact listed k b old

end OwnedKeys
