import Qrax.Lib.Journal

open List

-- Finite maps kept in the order of their encoded keys, read from a position on.

structure OrderedStore {κ σ : Type} [LinearOrder σ] (enc : κ → σ) (ν : Type) where
  entries : List (κ × ν)
  sorted : entries.Pairwise fun e e' => enc e.1 < enc e'.1

namespace OrderedStore

variable {κ σ ν : Type} [LinearOrder σ] {enc : κ → σ}

def empty : OrderedStore enc ν :=
  ⟨[], .nil⟩

def write (s : OrderedStore enc ν) (k : κ) (v : Option ν) : OrderedStore enc ν where
  entries := s.entries.filter (enc ·.1 < enc k) ++ ((v.map (k, ·)).toList ++ s.entries.filter (enc k < enc ·.1))
  sorted := by
    have below (e : κ × ν) (he : e ∈ s.entries.filter (enc ·.1 < enc k)) : enc e.1 < enc k :=
      of_decide_eq_true (mem_filter.mp he).right
    have above (e : κ × ν) (he : e ∈ s.entries.filter (enc k < enc ·.1)) : enc k < enc e.1 :=
      of_decide_eq_true (mem_filter.mp he).right
    have new (e : κ × ν) (he : e ∈ (v.map (k, ·)).toList) : e.1 = k := by
      have ⟨_, _, eq⟩ := Option.map_eq_some_iff.mp (Option.mem_toList.mp he)
      rw [← eq]
    refine pairwise_append.mpr ⟨s.sorted.filter _, pairwise_append.mpr ⟨?_, s.sorted.filter _, ?_⟩, ?_⟩
    · cases v
      case none => exact .nil
      case some v => exact pairwise_singleton ..
    · intro e he e' he'
      exact new e he ▸ above e' he'
    · intro e he e' he'
      cases mem_append.mp he'
      case inl he' => exact new e' he' ▸ below e he
      case inr he' => exact (below e he).trans (above e' he')

def seek (s : OrderedStore enc ν) (t : σ) : List (κ × ν) :=
  s.entries.dropWhile (enc ·.1 < t)

variable {l : List (κ × ν)} {s : OrderedStore enc ν} {e : κ × ν} {p : κ × ν → Bool}

theorem dropWhile_lt (sorted : l.Pairwise fun e e' => enc e.1 < enc e'.1) (t : σ) :
    l.dropWhile (enc ·.1 < t) = l.filter (t ≤ enc ·.1) := by
  induction sorted
  case nil => rfl
  case cons e l first rest ih =>
    by_cases lt : enc e.1 < t
    case pos =>
      rw [dropWhile_cons_of_pos (by simpa using lt), filter_cons_of_neg (by simpa using lt), ih]
    case neg =>
      have le : t ≤ enc e.1 := not_lt.mp lt
      have all : ∀ e' ∈ e :: l, t ≤ enc e'.1 :=
        forall_mem_cons.mpr ⟨le, fun e' he' => le.trans (first e' he').le⟩
      rw [dropWhile_cons_of_neg (by simpa using lt), filter_eq_self.mpr (by simpa using all)]

theorem seek_eq_filter (s : OrderedStore enc ν) (t : σ) : s.seek t = s.entries.filter (t ≤ enc ·.1) :=
  dropWhile_lt s.sorted t

theorem entries_unique (s : OrderedStore enc ν) {e e' : κ × ν} (he : e ∈ s.entries) (he' : e' ∈ s.entries)
    (eq : enc e.1 = enc e'.1) : e = e' := by
  have symm : Std.Symm fun e e' : κ × ν => enc e.1 = enc e'.1 → e = e' := ⟨fun _ _ h eq => (h eq.symm).symm⟩
  have apart : s.entries.Pairwise fun e e' => enc e.1 = enc e'.1 → e = e' := s.sorted.imp fun lt eq => absurd eq lt.ne
  exact apart.forall_of_forall (fun _ _ _ => rfl) he he' eq

theorem mem_seek {t : σ} : e ∈ s.seek t ↔ e ∈ s.entries ∧ t ≤ enc e.1 := by
  rw [seek_eq_filter, mem_filter, decide_eq_true_eq]

theorem mem_takeWhile_of_sorted (sorted : l.Pairwise fun e e' => enc e.1 < enc e'.1) :
    e ∈ l.takeWhile p ↔ e ∈ l ∧ ∀ e' ∈ l, enc e'.1 ≤ enc e.1 → p e' := by
  induction sorted
  case nil => simp
  case cons first l least _ ih =>
    by_cases pass : p first
    case neg =>
      rw [takeWhile_cons_of_neg pass]
      refine iff_of_false not_mem_nil fun ⟨mem, all⟩ => pass (all first (mem_cons_self ..) ?_)
      cases mem_cons.mp mem
      case inl eq => rw [eq]
      case inr rest => exact (least e rest).le
    case pos =>
      rw [takeWhile_cons_of_pos pass, mem_cons, mem_cons, ih]
      constructor
      · rintro (rfl | ⟨mem, all⟩)
        · refine ⟨.inl rfl, forall_mem_cons.mpr ⟨fun _ => pass, fun e' he' le => ?_⟩⟩
          exact absurd le (not_le.mpr (least e' he'))
        · exact ⟨.inr mem, forall_mem_cons.mpr ⟨fun _ => pass, all⟩⟩
      · rintro ⟨rfl | mem, all⟩
        · exact .inl rfl
        · exact .inr ⟨mem, (forall_mem_cons.mp all).right⟩

theorem mem_scan {t : σ} :
    e ∈ (s.seek t).takeWhile p ↔
      (e ∈ s.entries ∧ t ≤ enc e.1) ∧ ∀ e' ∈ s.entries, t ≤ enc e'.1 → enc e'.1 ≤ enc e.1 → p e' := by
  have sorted : (s.seek t).Pairwise fun e e' => enc e.1 < enc e'.1 := by
    rw [seek_eq_filter]
    exact s.sorted.filter _
  simp only [mem_takeWhile_of_sorted sorted, mem_seek, and_imp]

section

variable [DecidableEq κ]

def get (s : OrderedStore enc ν) (k : κ) : Option ν :=
  (s.entries.find? (·.1 = k)).map (·.2)

variable {s t : OrderedStore enc ν} {k : κ} {v : ν}

theorem get_eq_some : s.get k = some v ↔ (k, v) ∈ s.entries := by
  constructor
  · intro h
    have ⟨e, found, eq⟩ := Option.map_eq_some_iff.mp h
    have key : e.1 = k := by simpa using find?_some found
    exact eq ▸ key ▸ mem_of_find?_eq_some found
  · intro mem
    cases found : s.entries.find? (·.1 = k)
    case none => simpa using find?_eq_none.mp found (k, v) mem
    case some e =>
      have key : e.1 = k := by simpa using find?_some found
      have same : e = (k, v) := s.entries_unique (mem_of_find?_eq_some found) mem (congrArg enc key)
      rw [get, found, same]
      rfl

omit [DecidableEq κ] in
theorem mem_write (inj : enc.Injective) {w : Option ν} :
    e ∈ (s.write k w).entries ↔ (e ∈ s.entries ∧ e.1 ≠ k) ∨ (e.1 = k ∧ some e.2 = w) := by
  have ne : e.1 ≠ k ↔ enc e.1 < enc k ∨ enc k < enc e.1 := inj.ne_iff.symm.trans lt_or_lt_iff_ne.symm
  simp only [write, mem_append, mem_filter, decide_eq_true_eq, Option.mem_toList, Option.map_eq_some_iff, ne]
  constructor
  · rintro (⟨mem, lt⟩ | ⟨v, hv, rfl⟩ | ⟨mem, lt⟩)
    · exact .inl ⟨mem, .inl lt⟩
    · exact .inr ⟨rfl, hv.symm⟩
    · exact .inl ⟨mem, .inr lt⟩
  · rintro (⟨mem, lt | lt⟩ | ⟨key, hw⟩)
    · exact .inl ⟨mem, lt⟩
    · exact .inr (.inr ⟨mem, lt⟩)
    · exact .inr (.inl ⟨e.2, hw.symm, key ▸ rfl⟩)

theorem get_write (inj : enc.Injective) (s : OrderedStore enc ν) (k : κ) (w : Option ν) :
    (s.write k w).get = Function.update s.get k w := by
  funext k'
  refine Option.ext fun v => ?_
  rw [get_eq_some, mem_write inj]
  by_cases eq : k' = k
  case pos =>
    subst eq
    rw [Function.update_self]
    simp [eq_comm]
  case neg =>
    rw [Function.update_of_ne eq, get_eq_some]
    simp [eq]

end

end OrderedStore
