import Qrax.Lib.UniqueList

-- The search that takes an element from its stage, marks it done and stages its neighbours.

open Relation Finset UniqueList

namespace Worklist

variable {α : Type} [DecidableEq α] (next : α → UniqueList α)

def close : ℕ → UniqueList α → UniqueList α → UniqueList α
  | 0, _, done => done
  | fuel + 1, stage, done =>
    match stage.toList with
    | [] => done
    | a :: _ =>
      close fuel (.insertNew (done.insert a) (stage.erase a) (next a).toList) (done.insert a)

abbrev Reaches : α → α → Prop :=
  ReflTransGen fun a b => b ∈ next a

-- The search stays within `univ`, and neighbours of what is done are done or staged.
structure Searching (univ : Finset α) (stage done : UniqueList α) : Prop where
  within : ∀ a ∈ stage, a ∈ univ
  next_mem : ∀ a ∈ univ, ∀ b ∈ next a, b ∈ univ
  fresh : ∀ a ∈ stage, a ∉ done
  pending : ∀ a ∈ done, ∀ b ∈ next a, b ∈ done ∨ b ∈ stage

variable {next} {univ : Finset α} {stage done : UniqueList α}

namespace Searching

omit [DecidableEq α] in
theorem start (within : ∀ a ∈ stage, a ∈ univ) (next_mem : ∀ a ∈ univ, ∀ b ∈ next a, b ∈ univ) :
    Searching next univ stage ∅ where
  within
  next_mem
  fresh a _ := UniqueList.notMem_empty a
  pending a mem := absurd mem (UniqueList.notMem_empty a)

section

variable (s : Searching next univ stage done)

include s

theorem step {a : α} (staged : a ∈ stage) :
    Searching next univ (.insertNew (done.insert a) (stage.erase a) (next a).toList) (done.insert a) := by
  constructor
  case next_mem => exact s.next_mem
  case within =>
    intro b mem
    obtain mem | ⟨mem, _⟩ := mem_insertNew.mp mem
    case inl => exact s.within b (mem_erase.mp mem).right
    case inr => exact s.next_mem a (s.within a staged) b mem
  case fresh =>
    intro b mem
    obtain mem | ⟨_, new⟩ := mem_insertNew.mp mem
    case inr => exact new
    case inl =>
      have ⟨ne, mem⟩ := mem_erase.mp mem
      rw [UniqueList.mem_insert]
      exact not_or.mpr ⟨ne, s.fresh b mem⟩
  case pending =>
    intro c mem b hb
    rw [mem_insertNew]
    by_cases finished : b ∈ done.insert a
    case pos => exact .inl finished
    case neg =>
      obtain rfl | mem := mem_insert.mp mem
      case inl => exact .inr (.inr ⟨hb, finished⟩)
      case inr =>
        rw [UniqueList.mem_insert, not_or] at finished
        have staged := (s.pending c mem b hb).resolve_left finished.right
        exact .inr (.inl (mem_erase.mpr ⟨finished.left, staged⟩))

omit [DecidableEq α] in
theorem done_or_reached {a b : α} (mem : a ∈ done) (path : Reaches next a b) :
    b ∈ done ∨ ∃ c ∈ stage, Reaches next c b := by
  induction path using ReflTransGen.head_induction_on
  case refl => exact .inl mem
  case head c hc path ih =>
    obtain mem | staged := s.pending _ mem c hc
    case inl => exact ih mem
    case inr => exact .inr ⟨c, staged, path⟩

theorem mem_step {a : α} (staged : a ∈ stage) (b : α) :
    (b ∈ done.insert a ∨ ∃ c ∈ insertNew (done.insert a) (stage.erase a) (next a).toList, Reaches next c b) ↔
      b ∈ done ∨ ∃ c ∈ stage, Reaches next c b := by
  constructor
  case mp =>
    rintro (mem | ⟨c, mem, path⟩)
    case inl =>
      obtain rfl | mem := mem_insert.mp mem
      case inl => exact .inr ⟨b, staged, .refl⟩
      case inr => exact .inl mem
    case inr =>
      obtain mem | ⟨mem, _⟩ := mem_insertNew.mp mem
      case inl => exact .inr ⟨c, (mem_erase.mp mem).right, path⟩
      case inr => exact .inr ⟨a, staged, .head mem path⟩
  case mpr =>
    have step := s.step staged
    rintro (mem | ⟨c, mem, path⟩)
    case inl => exact .inl (mem_insert.mpr (.inr mem))
    case inr =>
      by_cases eq : c = a
      case pos => exact step.done_or_reached (mem_insert.mpr (.inl eq)) path
      case neg => exact .inr ⟨c, mem_insertNew.mpr (.inl (mem_erase.mpr ⟨eq, mem⟩)), path⟩

theorem card_step {a : α} (staged : a ∈ stage) {fuel : ℕ}
    (enough : (univ \ done.toFinset).card ≤ fuel + 1) : (univ \ (done.insert a).toFinset).card ≤ fuel := by
  have mem : a ∈ univ \ done.toFinset := by
    rw [mem_sdiff, mem_toFinset]
    exact ⟨s.within a staged, s.fresh a staged⟩
  rw [toFinset_insert, sdiff_insert, card_erase_of_mem mem]
  omega

theorem mem_close {fuel : ℕ} (enough : (univ \ done.toFinset).card ≤ fuel) (b : α) :
    b ∈ close next fuel stage done ↔ b ∈ done ∨ ∃ c ∈ stage, Reaches next c b := by
  induction fuel generalizing stage done
  case zero =>
    have empty : ∀ c, c ∉ stage := by
      intro c staged
      have mem : c ∈ univ \ done.toFinset := by
        rw [mem_sdiff, mem_toFinset]
        exact ⟨s.within c staged, s.fresh c staged⟩
      exact absurd (card_pos.mpr ⟨c, mem⟩) (by omega)
    simp [close, empty]
  case succ fuel ih =>
    unfold close
    split
    case h_1 eq =>
      have empty : ∀ c, c ∉ stage := by
        intro c staged
        rw [← UniqueList.mem_toList, eq] at staged
        exact absurd staged List.not_mem_nil
      simp [empty]
    case h_2 a _ eq =>
      have staged : a ∈ stage := by
        rw [← UniqueList.mem_toList, eq]
        exact List.mem_cons_self ..
      exact (ih (s.step staged) (s.card_step staged enough)).trans (s.mem_step staged b)

end

end Searching

end Worklist
