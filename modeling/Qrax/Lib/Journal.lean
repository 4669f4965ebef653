import Mathlib

open List Function

-- Writes to the values of keys, in order, and how they are taken back.

namespace Journal

variable {κ ν : Type} [DecidableEq κ]

def replay (f : κ → ν) (ws : List (κ × ν)) : κ → ν :=
  ws.foldl (fun f w => Function.update f w.1 w.2) f

variable {f : κ → ν} {ws ws' : List (κ × ν)} {k : κ}

@[simp]
theorem replay_nil (f : κ → ν) : replay f [] = f := rfl

@[simp]
theorem replay_cons (f : κ → ν) (w : κ × ν) (ws : List (κ × ν)) :
    replay f (w :: ws) = replay (Function.update f w.1 w.2) ws := rfl

theorem replay_append (f : κ → ν) (ws ws' : List (κ × ν)) :
    replay f (ws ++ ws') = replay (replay f ws) ws' :=
  foldl_append ..

theorem replay_of_not_mem (h : k ∉ ws.map (·.1)) : replay f ws k = f k := by
  induction ws generalizing f
  case nil => rfl
  case cons w ws ih =>
    rw [map_cons, mem_cons, not_or] at h
    rw [replay_cons, ih h.right, update_of_ne h.left]

theorem replay_mem (h : k ∈ ws.map (·.1)) : (k, replay f ws k) ∈ ws := by
  induction ws generalizing f
  case nil => cases h
  case cons w ws ih =>
    by_cases later : k ∈ ws.map (·.1)
    case pos => exact mem_cons_of_mem _ (ih later)
    case neg =>
      rw [map_cons, mem_cons, or_iff_left later] at h
      rw [replay_cons, replay_of_not_mem later, h, update_self]
      exact mem_cons_self ..

theorem replay_congr (h : k ∈ ws.map (·.1)) (f g : κ → ν) : replay f ws k = replay g ws k := by
  induction ws generalizing f g
  case nil => cases h
  case cons w ws ih =>
    by_cases later : k ∈ ws.map (·.1)
    case pos => exact ih later _ _
    case neg =>
      rw [map_cons, mem_cons, or_iff_left later] at h
      rw [replay_cons, replay_cons, replay_of_not_mem later, replay_of_not_mem later, h, update_self,
        update_self]

variable {v : ν} {α : Type} {l : List α} {key : α → κ}

theorem replay_eq_of_mem (nodup : (ws.map (·.1)).Nodup) (h : (k, v) ∈ ws) :
    replay f ws k = v := by
  have mem := replay_mem (f := f) (mem_map_of_mem (f := (·.1)) h)
  have := inj_on_of_nodup_map nodup mem h rfl
  exact congrArg Prod.snd this

theorem replay_const_of_mem (h : k ∈ l.map key) :
    replay f (l.map fun a => (key a, v)) k = v := by
  have written : k ∈ (l.map fun a => (key a, v)).map (·.1) := by rwa [map_map]
  have ⟨_, _, eq⟩ := mem_map.mp (replay_mem (f := f) written)
  exact (congrArg Prod.snd eq).symm

theorem replay_const_of_not_mem (h : k ∉ l.map key) :
    replay f (l.map fun a => (key a, v)) k = f k :=
  replay_of_not_mem (by rwa [map_map])

theorem replay_filter (f : κ → ν) (ws : List (κ × ν)) (k : κ) :
    replay f ws k = replay f (ws.filter (·.1 = k)) k := by
  induction ws generalizing f
  case nil => rfl
  case cons w ws ih =>
    by_cases now : w.1 = k
    case pos => rw [filter_cons_of_pos (by simpa using now), replay_cons, replay_cons, ih]
    case neg =>
      rw [filter_cons_of_neg (by simpa using now), replay_cons, ih]
      by_cases later : k ∈ (ws.filter (·.1 = k)).map (·.1)
      case pos => exact replay_congr later _ _
      case neg => rw [replay_of_not_mem later, replay_of_not_mem later, update_of_ne (Ne.symm now)]

theorem replay_filter_congr (h : ws.filter (·.1 = k) = ws'.filter (·.1 = k)) :
    replay f ws k = replay f ws' k := by
  rw [replay_filter f ws, h, ← replay_filter]

def patch (f g : κ → ν) (keys : List κ) : κ → ν :=
  fun k => if k ∈ keys then f k else g k

variable {f₁ f₂ g : κ → ν} {keys keys₁ keys₂ : List κ}

@[simp]
theorem patch_nil (f g : κ → ν) : patch f g [] = g :=
  funext fun _ => if_neg not_mem_nil

theorem patch_congr (h : ∀ k, k ∈ keys₁ ↔ k ∈ keys₂) : patch f g keys₁ = patch f g keys₂ :=
  funext fun k => if_congr (h k) rfl rfl

theorem patch_patch (same : ∀ k ∉ keys, f₁ k = f k) :
    patch f (patch f₁ g keys₁) keys = patch f g (keys ++ keys₁) := by
  funext k
  simp only [patch, mem_append]
  by_cases now : k ∈ keys
  case pos => rw [if_pos now, if_pos (.inl now)]
  case neg =>
    rw [if_neg now, same k now]
    exact if_congr (or_iff_right now).symm rfl rfl

theorem replay_eq_patch (f g : κ → ν) (ws : List (κ × ν)) :
    replay g ws = patch (replay f ws) g (ws.map (·.1)) := by
  funext k
  unfold patch
  split
  case isTrue written => exact replay_congr written g f
  case isFalse kept => exact replay_of_not_mem kept

theorem replay_values (h : ∀ w ∈ ws, w.2 = f w.1) : replay g ws = patch f g (ws.map (·.1)) := by
  funext k
  unfold patch
  split
  case isTrue written => exact h _ (replay_mem written)
  case isFalse kept => exact replay_of_not_mem kept

-- Values that are, key by key, from one of two branches become those of the second when the first is undone and the
-- second redone.
theorem patch_recover (undone : ∀ k ∉ keys₁, f₁ k = f k) (redone : ∀ k ∉ keys₂, f₂ k = f k)
    (mixed : ∀ k, g k = f₁ k ∨ g k = f₂ k) : patch f₂ (patch f g keys₁) keys₂ = f₂ := by
  funext k
  unfold patch
  split
  case isTrue => rfl
  case isFalse kept₂ =>
    split
    case isTrue => exact (redone k kept₂).symm
    case isFalse kept₁ =>
      cases mixed k
      case inl old => rw [old, undone k kept₁, redone k kept₂]
      case inr new => exact new

end Journal
