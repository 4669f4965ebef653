import Qrax.Budget.Manager

open KeyedUpdate

namespace Qrax

def CTxBudgetPayment.ofProposal (winning : (_ : Uint256) × CBudgetProposal) : CTxBudgetPayment where
  nProposalHash := winning.1
  payee := winning.2.address
  nAmount := winning.2.nAmount

namespace CFinalizedBudget

variable {budget : CFinalizedBudget} {mapWinningProposals : AList fun _ : Uint256 => CBudgetProposal}

theorem matchesProposal_iff {p : CTxBudgetPayment} :
    matchesProposal mapWinningProposals p ↔ p ∈ mapWinningProposals.entries.map CTxBudgetPayment.ofProposal := by
  unfold matchesProposal
  rw [List.mem_map]
  split
  case h_1 absent =>
    constructor
    case mp => exact fun h => nomatch h
    case mpr =>
      rintro ⟨⟨nHash, prop⟩, mem, rfl⟩
      rw [← AList.mem_lookup_iff] at mem
      cases absent.symm.trans mem
  case h_2 prop found =>
    rw [Bool.and_eq_true, decide_eq_true_iff, decide_eq_true_iff]
    constructor
    case mp =>
      intro ⟨payee, amount⟩
      refine ⟨⟨p.nProposalHash, prop⟩, AList.mem_lookup_iff.mp found, ?_⟩
      cases p
      cases payee
      cases amount
      rfl
    case mpr =>
      rintro ⟨⟨nHash, prop'⟩, mem, rfl⟩
      rw [← AList.mem_lookup_iff] at mem
      cases found.symm.trans mem
      exact ⟨rfl, rfl⟩

theorem of_checkProposals (h : budget.checkProposals mapWinningProposals) :
    budget.vecBudgetPayments.length = (mapWinningProposals.entries.map CTxBudgetPayment.ofProposal).length ∧
      budget.vecBudgetPayments ⊆ mapWinningProposals.entries.map CTxBudgetPayment.ofProposal := by
  unfold checkProposals at h
  split at h
  case isTrue => cases h
  case isFalse =>
    split at h
    case isTrue => cases h
    case isFalse eq =>
      rw [List.length_map]
      refine ⟨(not_not.mp eq).symm, fun p mem => ?_⟩
      exact matchesProposal_iff.mp (List.all_eq_true.mp h p mem)

-- The check tells payments from winning proposals just when no proposal is listed twice.
theorem checkProposals_exact (h : budget.checkProposals mapWinningProposals) :
    budget.vecBudgetPayments.Perm (mapWinningProposals.entries.map CTxBudgetPayment.ofProposal) ↔
      (budget.vecBudgetPayments.map (·.nProposalHash)).Nodup := by
  have ⟨length, subset⟩ := of_checkProposals h
  constructor
  case mp =>
    intro perm
    have keys := perm.map (·.nProposalHash)
    rw [List.map_map] at keys
    exact keys.nodup_iff.mpr mapWinningProposals.nodupKeys
  case mpr =>
    intro distinct
    have subperm := List.subperm_of_subset distinct.of_map subset
    exact subperm.perm_of_length_le length.ge

end CFinalizedBudget

def winner (nAmount : CAmount) : CBudgetProposal :=
  { address := [1], nAmount }

def twoWinners : AList fun _ : Uint256 => CBudgetProposal :=
  AList.insert 1 (winner 10) (AList.singleton 2 (winner 20))

-- The first proposal is paid twice, the second not at all.
theorem checkProposals_duplicate :
    let budget : CFinalizedBudget := { vecBudgetPayments := [⟨1, [1], 10⟩, ⟨1, [1], 10⟩] }
    budget.checkProposals twoWinners ∧
      ¬budget.vecBudgetPayments.Perm (twoWinners.entries.map CTxBudgetPayment.ofProposal) := by
  decide

theorem checkProposals_exact_two :
    let budget : CFinalizedBudget := { vecBudgetPayments := [⟨2, [1], 20⟩, ⟨1, [1], 10⟩] }
    budget.checkProposals twoWinners ∧
      budget.vecBudgetPayments.Perm (twoWinners.entries.map CTxBudgetPayment.ofProposal) := by
  have accepted : CFinalizedBudget.checkProposals { vecBudgetPayments := [⟨2, [1], 20⟩, ⟨1, [1], 10⟩] } twoWinners := by
    decide
  exact ⟨accepted, (CFinalizedBudget.checkProposals_exact accepted).mpr (by decide)⟩

end Qrax
