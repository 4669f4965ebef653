import Qrax.Lib.KeyedUpdate

open List

-- Finite maps walked in the order of their keys.
namespace KeyOrder

variable {α β γ : Type} [DecidableEq α]

def inOrder (le : α → α → Bool) (m : AList fun _ : α => β) : List (α × β) :=
  (m.entries.map fun e => (e.1, e.2)).mergeSort fun a b => le a.1 b.1

variable {le : α → α → Bool} {m : AList fun _ : α => β} {a : α} {f : α → β → γ}

theorem mem_inOrder {b : β} :
    (a, b) ∈ inOrder le m ↔ m.lookup a = some b := by
  rw [inOrder, mem_mergeSort, mem_map, ← Option.mem_def, AList.mem_lookup_iff]
  constructor
  case mp =>
    rintro ⟨⟨_, _⟩, mem, eq⟩
    cases eq
    exact mem
  case mpr => exact fun mem => ⟨⟨a, b⟩, mem, rfl⟩

omit [DecidableEq α] in
theorem keys_map (f : α → β → γ) (l : List ((_ : α) × β)) :
    (l.map fun e => (⟨e.1, f e.1 e.2⟩ : (_ : α) × γ)).keys = l.keys := by
  simp [List.keys]

def mapValues (f : α → β → γ) (m : AList fun _ : α => β) : AList fun _ : α => γ where
  entries := m.entries.map fun e => ⟨e.1, f e.1 e.2⟩
  nodupKeys := by
    rw [List.NodupKeys, keys_map]
    exact m.nodupKeys

theorem lookup_mapValues :
    (mapValues f m).lookup a = (m.lookup a).map (f a) := by
  apply Option.ext
  intro c
  rw [Option.map_eq_some_iff]
  simp only [← Option.mem_def, AList.mem_lookup_iff, mapValues, mem_map]
  constructor
  case mp =>
    rintro ⟨⟨_, b⟩, mem, eq⟩
    cases eq
    exact ⟨b, mem, rfl⟩
  case mpr =>
    rintro ⟨b, mem, rfl⟩
    exact ⟨⟨a, b⟩, mem, rfl⟩

omit [DecidableEq α] in
theorem mem_mapValues : a ∈ mapValues f m ↔ a ∈ m := by
  rw [AList.mem_keys, AList.mem_keys, AList.keys, AList.keys, mapValues, keys_map]

theorem mapValues_eq_self {f : α → β → β}
    (h : ∀ a b, m.lookup a = some b → f a b = b) : mapValues f m = m := by
  apply AList.ext
  refine (map_congr_left fun e mem => ?_).trans (map_id _)
  rw [h e.1 e.2 (AList.mem_lookup_iff.mpr mem)]
  rfl

theorem perm_foldl_erase (l : List α) (m : AList fun _ : α => β) :
    (l.foldl (fun m a => m.erase a) m).entries.Perm (m.entries.filter fun e => e.1 ∉ l) := by
  have nodup := List.NodupKeys.sublist (filter_sublist (p := fun e => e.1 ∉ l)) m.nodupKeys
  apply lookup_ext (AList.nodupKeys _) nodup
  intro a b
  rw [mem_dlookup_iff nodup, mem_filter, decide_eq_true_eq, ← AList.mem_lookup_iff]
  have found := KeyedUpdate.lookup_foldl_erase l m a
  rw [AList.lookup] at found
  rw [found]
  split
  case isTrue erased => simp [erased]
  case isFalse kept => simp [kept]

end KeyOrder
