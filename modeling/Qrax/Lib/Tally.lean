import Mathlib

open Classical List

-- Entries offered in some order. Each is looked at once, and held in its slot if it may replace what is held there.
structure Tally (ι κ V : Type) where
  id : V → ι
  slot : V → κ
  takes : Option V → V → Prop

namespace Tally

@[ext]
structure State (ι κ V : Type) where
  seen : Set ι
  held : κ → Option V

variable {ι κ V : Type} (T : Tally ι κ V)

def Accepts (s : State ι κ V) (v : V) : Prop :=
  T.id v ∉ s.seen ∧ T.takes (s.held (T.slot v)) v

structure Apart (v w : V) : Prop where
  id : T.id v ≠ T.id w
  slot : T.slot v ≠ T.slot w

theorem Apart.symm {T : Tally ι κ V} {v w : V} (apart : T.Apart v w) : T.Apart w v :=
  ⟨apart.id.symm, apart.slot.symm⟩

instance : Std.Symm T.Apart where
  symm _ _ := Apart.symm

variable [DecidableEq κ]

noncomputable def offer (s : State ι κ V) (v : V) : State ι κ V where
  seen := insert (T.id v) s.seen
  held := if T.Accepts s v then Function.update s.held (T.slot v) (some v) else s.held

variable {T}

variable {s : State ι κ V} {v w : V} {l l' : List V}

theorem Accepts.held_offer (accepts : T.Accepts s v) : (T.offer s v).held = Function.update s.held (T.slot v) (some v) :=
  if_pos accepts

theorem held_offer_of_not (refused : ¬T.Accepts s v) : (T.offer s v).held = s.held :=
  if_neg refused

theorem held_offer_of_ne {k : κ} (ne : k ≠ T.slot v) : (T.offer s v).held k = s.held k := by
  unfold offer
  dsimp only
  split
  case isTrue => exact Function.update_of_ne ne ..
  case isFalse => rfl

theorem Apart.accepts_iff (apart : T.Apart v w) : T.Accepts (T.offer s v) w ↔ T.Accepts s w := by
  have seen : T.id w ∈ (T.offer s v).seen ↔ T.id w ∈ s.seen :=
    Set.mem_insert_iff.trans (or_iff_right apart.id.symm)
  unfold Accepts
  rw [seen, held_offer_of_ne apart.slot.symm]

theorem Apart.offer_comm (apart : T.Apart v w) : T.offer (T.offer s v) w = T.offer (T.offer s w) v := by
  apply State.ext
  case seen => exact Set.insert_comm ..
  case held =>
    have held_v : (T.offer s v).held = if T.Accepts s v then _ else s.held := rfl
    have held_w : (T.offer s w).held = if T.Accepts s w then _ else s.held := rfl
    rw [offer, offer.eq_def _ (T.offer s w)]
    dsimp only
    rw [if_congr apart.accepts_iff rfl rfl, if_congr apart.symm.accepts_iff rfl rfl, held_v, held_w]
    by_cases accepts_v : T.Accepts s v
    case neg => simp only [accepts_v, if_false]
    case pos =>
      by_cases accepts_w : T.Accepts s w
      case neg => simp only [accepts_w, if_false]
      case pos =>
        simp only [accepts_v, accepts_w, if_true]
        exact Function.update_comm apart.slot ..

theorem foldl_offer_perm (perm : l.Perm l') (apart : l.Pairwise T.Apart) :
    l.foldl T.offer s = l'.foldl T.offer s := by
  apply perm.foldl_eq'
  intro v hv w hw s
  by_cases eq : v = w
  case pos => rw [eq]
  case neg => exact (apart.forall hv hw eq).offer_comm

theorem accepts_foldl_offer (apart : ∀ w ∈ l, T.Apart w v) : T.Accepts (l.foldl T.offer s) v ↔ T.Accepts s v := by
  induction l generalizing s
  case nil => rfl
  case cons w l ih =>
    have ⟨here, apart⟩ := forall_mem_cons.mp apart
    rw [foldl_cons, ih apart, here.accepts_iff]

theorem held_foldl_offer (apart : ∀ w ∈ l, T.Apart w v) : (l.foldl T.offer s).held (T.slot v) = s.held (T.slot v) := by
  induction l generalizing s
  case nil => rfl
  case cons w l ih =>
    have ⟨here, apart⟩ := forall_mem_cons.mp apart
    rw [foldl_cons, ih apart, held_offer_of_ne here.slot.symm]

theorem Accepts.held_foldl_offer (accepts : T.Accepts s v) (mem : v ∈ l) (apart : l.Pairwise T.Apart) :
    (l.foldl T.offer s).held (T.slot v) = some v := by
  have ⟨before, after, eq⟩ := append_of_mem mem
  rw [eq, pairwise_append, pairwise_cons] at apart
  have ⟨_, ⟨apart_after, _⟩, apart_before⟩ := apart
  have accepts : T.Accepts (before.foldl T.offer s) v :=
    (accepts_foldl_offer fun w mem => apart_before w mem v mem_cons_self).mpr accepts
  rw [eq, foldl_append, foldl_cons, Tally.held_foldl_offer fun w mem => (apart_after w mem).symm]
  rw [accepts.held_offer]
  exact Function.update_self ..

end Tally
