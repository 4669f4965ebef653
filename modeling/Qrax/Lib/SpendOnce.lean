import Mathlib

open List

-- Runs that take keys out of a set and put new ones into it.

namespace SpendOnce

variable {κ : Type}

structure Move (κ : Type) where
  spends : List κ
  creates : List κ

-- A move takes out keys that are there, and only the keys it creates come in.
structure Move.Takes (m : Move κ) (S S' : Set κ) : Prop where
  distinct : m.spends.Nodup
  found : ∀ k ∈ m.spends, k ∈ S
  left : ∀ k ∈ S', k ∈ S ∧ k ∉ m.spends ∨ k ∈ m.creates

inductive Run : Set κ → List (Move κ) → Set κ → Prop
  | nil {S S'} : S' ⊆ S → Run S [] S'
  | cons {S S₁ S' m ms} : m.Takes S S₁ → Run S₁ ms S' → Run S (m :: ms) S'

def Move.Returns (m : Move κ) (S S' : Set κ) : Prop :=
  ∀ k ∈ S', k ∈ S ∧ k ∉ m.creates ∨ k ∈ m.spends

-- Moves are taken back from the last to the first.
inductive Back : Set κ → List (Move κ) → Set κ → Prop
  | nil {S S'} : S' ⊆ S → Back S [] S'
  | cons {S S₁ S' m ms} : Back S ms S₁ → m.Returns S₁ S' → Back S (m :: ms) S'

def created (ms : List (Move κ)) : List κ :=
  ms.flatMap (·.creates)

def spent (ms : List (Move κ)) : List κ :=
  ms.flatMap (·.spends)

structure Fresh (S : Set κ) (ms : List (Move κ)) : Prop where
  distinct : (created ms).Nodup
  absent : ∀ k ∈ created ms, k ∉ S

namespace Run

variable {S S₁ S' : Set κ} {m : Move κ} {ms ms' : List (Move κ)} {k : κ}

theorem mono (sub : S₁ ⊆ S) (h : Run S₁ ms S') : Run S ms S' := by
  cases h
  case nil le => exact .nil (le.trans sub)
  case cons takes rest =>
    refine .cons ⟨takes.distinct, fun k mem => sub (takes.found k mem), fun k mem => ?_⟩ rest
    exact (takes.left k mem).imp (fun old => ⟨sub old.left, old.right⟩) id

theorem append (h : Run S ms S₁) (h' : Run S₁ ms' S') : Run S (ms ++ ms') S' := by
  induction h
  case nil le => exact h'.mono le
  case cons takes _ ih => exact .cons takes (ih h')

theorem found (h : Run S ms S') (mem : k ∈ spent ms) : k ∈ S ∨ k ∈ created ms := by
  induction h
  case nil => cases mem
  case cons m ms takes _ ih =>
    cases mem_append.mp mem
    case inl head => exact .inl (takes.found k head)
    case inr tail =>
      cases ih tail
      case inr later => exact .inr (mem_append_right _ later)
      case inl now =>
        cases takes.left k now
        case inl old => exact .inl old.left
        case inr new => exact .inr (mem_append_left _ new)

end Run

variable {S S₁ S' : Set κ} {m : Move κ} {ms : List (Move κ)} {k : κ}

theorem Fresh.mono (fresh : Fresh S ms) (sub : S₁ ⊆ S) : Fresh S₁ ms :=
  ⟨fresh.distinct, fun k mem now => fresh.absent k mem (sub now)⟩

theorem Fresh.grow (fresh : Fresh S (m :: ms)) : Fresh (S ∪ {k | k ∈ m.creates}) ms where
  distinct := (nodup_append.mp fresh.distinct).right.left
  absent k mem now := by
    cases now
    case inl old => exact fresh.absent k (mem_append_right _ mem) old
    case inr new => exact disjoint_of_nodup_append fresh.distinct new mem

theorem Fresh.tail (fresh : Fresh S (m :: ms)) (takes : m.Takes S S₁) : Fresh S₁ ms :=
  fresh.grow.mono fun k now => (takes.left k now).imp And.left id

theorem Fresh.take {ms' : List (Move κ)} (fresh : Fresh S (ms ++ ms')) : Fresh S ms := by
  have both : created (ms ++ ms') = created ms ++ created ms' := flatMap_append
  have ⟨distinct, absent⟩ := fresh
  rw [both] at distinct absent
  exact ⟨(nodup_append.mp distinct).left, fun k mem => absent k (mem_append_left _ mem)⟩

theorem Fresh.drop (run : Run S ms S₁) {ms' : List (Move κ)} (fresh : Fresh S (ms ++ ms')) : Fresh S₁ ms' := by
  induction run
  case nil le => exact fresh.mono le
  case cons takes _ ih => exact ih (fresh.tail takes)

theorem Move.Takes.gone (takes : m.Takes S S₁) (fresh : Fresh S (m :: ms)) (mem : k ∈ m.spends) : k ∉ S₁ := by
  intro now
  cases takes.left k now
  case inl old => exact old.right mem
  case inr new => exact fresh.absent k (mem_append_left _ new) (takes.found k mem)

theorem Run.spent_nodup (h : Run S ms S') (fresh : Fresh S ms) : (spent ms).Nodup := by
  induction h
  case nil => exact nodup_nil
  case cons m ms takes rest ih =>
    refine nodup_append'.mpr ⟨takes.distinct, ih (fresh.tail takes), fun k now later => ?_⟩
    cases rest.found later
    case inl back => exact takes.gone fresh now back
    case inr new => exact fresh.absent k (mem_append_right _ new) (takes.found k now)

theorem Run.back {S₀ : Set κ} (run : Run S₀ ms S) (back : Back S ms S') : S' ⊆ S₀ := by
  induction run generalizing S'
  case nil le =>
    cases back
    case nil le' => exact le'.trans le
  case cons m ms takes _ ih =>
    cases back
    case cons later returns =>
      intro k mem
      cases returns k mem
      case inr spent => exact takes.found k spent
      case inl kept =>
        have ⟨now, old⟩ := kept
        cases takes.left k (ih later now)
        case inl before => exact before.left
        case inr new => exact absurd new old

end SpendOnce
