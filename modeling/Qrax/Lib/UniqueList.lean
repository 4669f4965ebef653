import Mathlib

-- Finite sets gone through one by one.

structure UniqueList (α : Type) where
  toList : List α
  nodup : toList.Nodup
  deriving DecidableEq

namespace UniqueList

variable {α : Type}

instance : Membership α (UniqueList α) where
  mem s a := a ∈ s.toList

instance : EmptyCollection (UniqueList α) where
  emptyCollection := ⟨[], .nil⟩

def toFinset (s : UniqueList α) : Finset α :=
  ⟨s.toList, s.nodup⟩

variable {s : UniqueList α} {l : List α}

@[simp]
theorem mem_toFinset {a : α} : a ∈ s.toFinset ↔ a ∈ s :=
  Iff.rfl

theorem mem_toList {a : α} : a ∈ s.toList ↔ a ∈ s :=
  Iff.rfl

@[simp]
theorem notMem_empty (a : α) : a ∉ (∅ : UniqueList α) :=
  List.not_mem_nil

theorem sum_toList {M : Type} [AddCommMonoid M] (s : UniqueList α) (f : α → M) :
    (s.toList.map f).sum = ∑ a ∈ s.toFinset, f a :=
  rfl

variable [DecidableEq α]

instance (a : α) (s : UniqueList α) : Decidable (a ∈ s) :=
  inferInstanceAs (Decidable (a ∈ s.toList))

def insert (s : UniqueList α) (a : α) : UniqueList α where
  toList := s.toList.insert a
  nodup := s.nodup.insert

def erase (s : UniqueList α) (a : α) : UniqueList α where
  toList := s.toList.erase a
  nodup := s.nodup.erase a

def insertNew (done stage : UniqueList α) (l : List α) : UniqueList α :=
  l.foldl (fun stage a => if a ∈ done then stage else stage.insert a) stage

def ofList (l : List α) : UniqueList α :=
  l.foldl insert ∅

@[simp]
theorem mem_insert {a b : α} : b ∈ s.insert a ↔ b = a ∨ b ∈ s :=
  List.mem_insert_iff

@[simp]
theorem mem_erase {a b : α} : b ∈ s.erase a ↔ b ≠ a ∧ b ∈ s :=
  s.nodup.mem_erase_iff

@[simp]
theorem mem_insertNew {done stage : UniqueList α} {b : α} :
    b ∈ insertNew done stage l ↔ b ∈ stage ∨ b ∈ l ∧ b ∉ done := by
  unfold insertNew
  induction l generalizing stage
  case nil => simp
  case cons a l ih =>
    rw [List.foldl_cons, ih, List.mem_cons]
    split
    case isTrue => grind
    case isFalse => grind [mem_insert]

@[simp]
theorem mem_ofList {b : α} : b ∈ ofList l ↔ b ∈ l := by
  have fold (s : UniqueList α) : b ∈ l.foldl insert s ↔ b ∈ s ∨ b ∈ l := by
    induction l generalizing s
    case nil => simp
    case cons a l ih => grind [mem_insert]
  simp [ofList, fold]

@[simp]
theorem toFinset_insert (s : UniqueList α) (a : α) : (s.insert a).toFinset = Insert.insert a s.toFinset := by
  ext b
  simp

end UniqueList
