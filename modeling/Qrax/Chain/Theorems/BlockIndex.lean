import Qrax.Chain.BlockIndex
import Qrax.Chain.Theorems.Chain

open Forest OrderDual List

namespace Qrax

namespace BlockStatus

variable {nStatus : BlockStatus} {v w : BlockValidity}

@[simp]
theorem failedValid_raiseValidity : (nStatus.raiseValidity v).failedValid = nStatus.failedValid := by
  unfold raiseValidity
  split
  case isTrue => rfl
  case isFalse => split <;> rfl

@[simp]
theorem failed_raiseValidity : (nStatus.raiseValidity v).failed = nStatus.failed := by
  unfold raiseValidity
  split
  case isTrue => rfl
  case isFalse => split <;> rfl

theorem reached_raiseValidity (valid : nStatus.failed = false) :
    (nStatus.raiseValidity v).reached w ↔ nStatus.reached w ∨ w.toNat ≤ v.toNat := by
  simp only [raiseValidity, valid, Bool.false_eq_true, if_false]
  split
  case isTrue here =>
    simp only [reached, decide_eq_true_eq] at here ⊢
    omega
  case isFalse below =>
    simp only [reached, decide_eq_true_eq] at below ⊢
    omega

theorem reached_of_le (le : w.toNat ≤ v.toNat) (h : nStatus.reached v) : nStatus.reached w := by
  simp only [reached, decide_eq_true_eq] at h ⊢
  omega

end BlockStatus

namespace BlockIndex

variable {index : BlockIndex} {a b p : Uint256} {l : List Uint256}

def rank (index : BlockIndex) (b : Uint256) : ℕ ×ₗ ℕᵒᵈ ×ₗ ℕᵒᵈ :=
  toLex (index.nChainWork b, toLex (toDual (index.nSequenceId b), toDual (index.address b)))

theorem workComparator_iff : index.workComparator a b ↔ index.rank a < index.rank b := by
  simp only [rank, Prod.Lex.toLex_lt_toLex, toDual_lt_toDual, toDual_inj]
  unfold workComparator
  split_ifs <;> simp <;> omega

theorem rank_inj : index.rank a = index.rank b ↔ a = b := by
  constructor
  case mp =>
    intro eq
    have ⟨_, eq⟩ := Prod.mk.inj (toLex.injective eq)
    have ⟨_, eq⟩ := Prod.mk.inj (toLex.injective eq)
    exact index.address.injective (toDual.injective eq)
  case mpr => exact congrArg _

theorem greatest_eq_none : index.greatest l = none ↔ l = [] := by
  cases l
  case nil => exact ⟨fun _ => rfl, fun _ => rfl⟩
  case cons b bs =>
    refine ⟨?_, nofun⟩
    unfold greatest
    intro h
    split at h
    case h_1 => cases h
    case h_2 => split at h <;> cases h

theorem greatest_eq_some (h : index.greatest l = some a) :
    a ∈ l ∧ ∀ c ∈ l, index.rank c ≤ index.rank a := by
  induction l generalizing a
  case nil => cases h
  case cons b bs ih =>
    unfold greatest at h
    split at h
    case h_1 none =>
      cases h
      rw [greatest_eq_none.mp none]
      exact ⟨mem_singleton_self _, fun c mem => mem_singleton.mp mem ▸ le_refl _⟩
    case h_2 a' some =>
      have ⟨mem, max⟩ := ih some
      split at h
      case isTrue less =>
        cases h
        refine ⟨mem_cons_self, forall_mem_cons.mpr ⟨le_refl _, fun c mem => ?_⟩⟩
        exact (max c mem).trans (workComparator_iff.mp less).le
      case isFalse notLess =>
        cases h
        refine ⟨mem_cons_of_mem _ mem, forall_mem_cons.mpr ⟨?_, max⟩⟩
        exact not_lt.mp fun lt => notLess (workComparator_iff.mpr lt)

theorem greatest_eq (mem : a ∈ l) (max : ∀ c ∈ l, index.rank c ≤ index.rank a) :
    index.greatest l = some a := by
  cases h : index.greatest l
  case none => exact absurd (greatest_eq_none.mp h ▸ mem) not_mem_nil
  case some c =>
    have ⟨mem', max'⟩ := greatest_eq_some h
    exact congrArg some (rank_inj.mp (le_antisymm (max c mem') (max' a mem)))

theorem rank_lt_of_pprev (eq : index.pprev b = some p) : index.rank p < index.rank b :=
  Prod.Lex.toLex_lt_toLex.mpr (.inl (index.works eq))

theorem rank_le_of_anc (anc : Anc index.pprev a b) : index.rank a ≤ index.rank b := by
  induction anc
  case refl => exact le_refl _
  case step eq _ ih => exact ih.trans (rank_lt_of_pprev eq).le

theorem eq_of_anc_of_rank_le (anc : Anc index.pprev a b) (le : index.rank b ≤ index.rank a) : a = b :=
  rank_inj.mp (le_antisymm (rank_le_of_anc anc) le)

def Linked (index : BlockIndex) (b : Uint256) : Prop :=
  ∀ a, Anc index.pprev a b → index.haveData a

theorem Linked.of_anc (linked : index.Linked b) (anc : Anc index.pprev a b) : index.Linked a :=
  fun a' anc' => linked a' (anc'.trans anc)

-- What `CheckBlockIndex` asserts of the index alone.
structure Filed (index : BlockIndex) : Prop where
  genesis : index.hashGenesisBlock ∈ index.mapBlockIndex ∧ index.pprev index.hashGenesisBlock = none
  single : ∀ b ∈ index.mapBlockIndex, index.pprev b = none → b = index.hashGenesisBlock
  data : ∀ b ∈ index.mapBlockIndex, index.haveData b = false ↔ index.nTx b = 0
  sequence : ∀ b ∈ index.mapBlockIndex, index.nChainTx b = 0 → index.nSequenceId b = 0
  linked : ∀ b ∈ index.mapBlockIndex, index.nChainTx b = 0 ↔ ¬index.Linked b

theorem Filed.root (filed : index.Filed) (known : b ∈ index.mapBlockIndex) :
    Anc index.pprev index.hashGenesisBlock b := by
  induction b using index.graded.induction
  case root b eq => exact filed.single b known eq ▸ .refl
  case child b p eq ih => exact .step eq (ih (index.closed eq).right)

end BlockIndex

end Qrax
