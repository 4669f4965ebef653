import Qrax.Budget.Theorems.VoteCount

open Finset

namespace Qrax

namespace CBudgetProposal

variable (ctx : BudgetContext)

-- What `IsPassing` asks of the blocks of a proposal, for the budget of a superblock.
def includes (prop : CBudgetProposal) (superblock : ℤ) : Bool :=
  !(prop.nBlockStart.toInt > superblock) && !(prop.nBlockEnd.toInt < superblock + ctx.nBudgetCycleBlocks - 1)

theorem isPassing_includes {ctx : BudgetContext} {prop : CBudgetProposal} {superblock : ℤ} {mnCount : ℕ}
    (h : prop.isPassing ctx superblock (superblock + ctx.nBudgetCycleBlocks - 1) mnCount) :
    prop.includes ctx superblock := by
  simp only [isPassing, includes, Bool.and_eq_true] at h ⊢
  exact ⟨h.left.left.left.right, h.left.left.right⟩

noncomputable def superblocks (prop : CBudgetProposal) : Finset ℤ :=
  {h ∈ Icc 0 prop.nBlockEnd.toInt | ctx.nBudgetCycleBlocks ∣ h ∧ prop.includes ctx h}

variable {ctx} {prop : CBudgetProposal}

theorem card_superblocks (start : 0 ≤ prop.nBlockStart.toInt) (cycle : 0 < ctx.nBudgetCycleBlocks) (h : ℤ) :
    (#{s ∈ prop.superblocks ctx | h < s} : ℤ) =
      max ((prop.nBlockEnd.toInt - ctx.nBudgetCycleBlocks + 1) / ctx.nBudgetCycleBlocks -
        max h (prop.nBlockStart.toInt - 1) / ctx.nBudgetCycleBlocks) 0 := by
  have heights : {s ∈ prop.superblocks ctx | h < s} =
      {s ∈ Ioc (max h (prop.nBlockStart.toInt - 1)) (prop.nBlockEnd.toInt - ctx.nBudgetCycleBlocks + 1) |
        ctx.nBudgetCycleBlocks ∣ s} := by
    ext s
    simp only [superblocks, includes, mem_filter, mem_Icc, mem_Ioc, Bool.and_eq_true, Bool.not_eq_true',
      decide_eq_false_iff_not]
    omega
  rw [heights, Int.Ioc_filter_dvd_card _ _ cycle]
  simp only [BudgetContext.nBudgetCycleBlocks, Int.cast_natCast, Rat.floor_intCast_div_natCast]

theorem card_superblocks_eq (start : 0 ≤ prop.nBlockStart.toInt) (cycle : 0 < ctx.nBudgetCycleBlocks) :
    (#(prop.superblocks ctx) : ℤ) =
      max ((prop.nBlockEnd.toInt - ctx.nBudgetCycleBlocks + 1) / ctx.nBudgetCycleBlocks -
        (prop.nBlockStart.toInt - 1) / ctx.nBudgetCycleBlocks) 0 := by
  have all : {s ∈ prop.superblocks ctx | -1 < s} = prop.superblocks ctx := by
    refine filter_true_of_mem fun s mem => ?_
    have := (mem_Icc.mp (mem_filter.mp mem).left).left
    omega
  have first : max (-1) (prop.nBlockStart.toInt - 1) = prop.nBlockStart.toInt - 1 := max_eq_right (by omega)
  rw [← all, card_superblocks start cycle, first]

theorem checkStartEnd_ok (accepted : prop.checkStartEnd ctx = .ok ()) :
    0 ≤ prop.nBlockStart.toInt ∧ prop.nBlockStart.toInt ≤ prop.nBlockEnd.toInt := by
  simp only [checkStartEnd] at accepted
  split at accepted
  case isTrue => cases accepted
  case isFalse start =>
    split at accepted
    case isTrue => cases accepted
    case isFalse ordered =>
      simp only [Bool.or_eq_true, decide_eq_true_eq, not_or] at start
      exact ⟨not_lt.mp start.left, not_lt.mp ordered⟩

theorem payment_counts_iff {name url : String} {payee : CScript} {amount : CAmount} {nfeetxhash : Uint256}
    {paycount blockstart : Int32} {h : ℕ} (network : ctx.nBudgetCycleBlocks ∈ [44000, 1440, 144])
    (start : ctx.nBudgetCycleBlocks ∣ blockstart.toInt)
    (made : prop = ofPayments ctx name url paycount payee amount blockstart nfeetxhash)
    (accepted : prop.checkStartEnd ctx = .ok ()) (upToEnd : h ≤ prop.nBlockEnd.toInt) :
    (prop.getTotalPaymentCount ctx = paycount.toInt ∧ #(prop.superblocks ctx) = paycount.toInt ∧
      prop.getRemainingPaymentCount ctx h = #{s ∈ prop.superblocks ctx | (h : ℤ) < s}) ↔
    paycount.toInt + 1 < ctx.nBudgetCycleBlocks ∧
      h < blockstart.toInt + paycount.toInt * ctx.nBudgetCycleBlocks := by
  have cycle : 0 < ctx.nBudgetCycleBlocks := by
    simp only [List.mem_cons, List.not_mem_nil, or_false] at network
    omega
  have starts : prop.nBlockStart = blockstart := by rw [made]; rfl
  have cycleStart : getBlockCycle ctx blockstart.toInt = blockstart.toInt := by
    rw [getBlockCycle, Int.tmod_eq_zero_of_dvd start, sub_zero]
  have ends : prop.nBlockEnd.toInt =
      (blockstart.toInt + (ctx.nBudgetCycleBlocks + 1) * paycount.toInt).bmod 4294967296 := by
    rw [made, ofPayments, Int32.toInt_ofInt, cycleStart]
  have last := prop.nBlockEnd.toInt_lt
  obtain ⟨nonneg, ordered⟩ := checkStartEnd_ok accepted
  have cycleOf : getBlockCycle ctx h = h - h % ctx.nBudgetCycleBlocks := by
    rw [getBlockCycle, Int.tmod_eq_emod_of_nonneg (by omega)]
  have passed : 0 ≤ (h : ℤ) % ctx.nBudgetCycleBlocks := Int.emod_nonneg _ cycle.ne'
  rw [getRemainingPaymentCount, getTotalPaymentCount, card_superblocks nonneg cycle,
    card_superblocks_eq nonneg cycle, cycleOf, starts, cycleStart]
  rw [starts] at nonneg ordered
  rw [Int.tdiv_eq_ediv_of_nonneg (by omega), Int.tdiv_eq_ediv_of_nonneg (by omega)]
  have lower := paycount.le_toInt
  have upper := paycount.toInt_lt
  -- The end block may wrap around, but not if the counts are right or the payments few.
  obtain ⟨wraps, ends⟩ : ∃ wraps, prop.nBlockEnd.toInt =
      blockstart.toInt + (ctx.nBudgetCycleBlocks + 1) * paycount.toInt - 4294967296 * wraps := by
    refine ⟨(blockstart.toInt + (ctx.nBudgetCycleBlocks + 1) * paycount.toInt).bdiv 4294967296, ?_⟩
    rw [ends, Int.bmod_eq_self_sub_mul_bdiv]
    rfl
  generalize prop.nBlockEnd.toInt = e at *
  generalize blockstart.toInt = s at *
  generalize paycount.toInt = p at *
  generalize ctx.nBudgetCycleBlocks = c at *
  simp only [List.mem_cons, List.not_mem_nil, or_false] at network
  constructor
  case mp =>
    rintro ⟨total, count, left⟩
    have exact : wraps = 0 := by
      clear count left
      rcases network with rfl | rfl | rfl <;> omega
    subst exact
    rcases network with rfl | rfl | rfl <;> omega
  case mpr =>
    rintro ⟨few, before⟩
    have exact : wraps = 0 := by
      rcases network with rfl | rfl | rfl <;> omega
    subst exact
    obtain ⟨first, rfl⟩ := start
    have paid : 0 ≤ p := by rcases network with rfl | rfl | rfl <;> omega
    have total : (e - c * first) / c = p := by rcases network with rfl | rfl | rfl <;> omega
    have after : (e - c + 1) / c = first + p - 1 := by rcases network with rfl | rfl | rfl <;> omega
    have ahead : (e - (h - h % c)) / c = first + p - h / c := by rcases network with rfl | rfl | rfl <;> omega
    have before : h / c < first + p := by rcases network with rfl | rfl | rfl <;> omega
    have started : (c * first - 1) / c = first - 1 := by rcases network with rfl | rfl | rfl <;> omega
    have passed : max (h : ℤ) (c * first - 1) / c = max (h / c) (first - 1) := by
      rcases network with rfl | rfl | rfl <;> omega
    rw [total, after, ahead, started, passed]
    omega

end CBudgetProposal

def twoPayments : CBudgetProposal :=
  .ofPayments soloContext "two" "" 2 [1] 1000000000 88000 9

theorem last_cycle_counts_less :
    twoPayments.checkStartEnd soloContext = .ok () ∧ 176000 ≤ twoPayments.nBlockEnd.toInt ∧
      twoPayments.getRemainingPaymentCount soloContext 176000 = -1 ∧
      twoPayments.getRemainingPaymentCount soloContext 176000 ≠
        #{s ∈ twoPayments.superblocks soloContext | (176000 : ℤ) < s} := by
  have less : twoPayments.getRemainingPaymentCount soloContext 176000 = -1 := by decide
  refine ⟨by rfl, by decide, less, ?_⟩
  rw [less]
  omega

theorem two_payments_counted :
    twoPayments.getTotalPaymentCount soloContext = 2 ∧ #(twoPayments.superblocks soloContext) = (2 : ℤ) ∧
      twoPayments.getRemainingPaymentCount soloContext (88000 : ℕ) =
        #{s ∈ twoPayments.superblocks soloContext | ((88000 : ℕ) : ℤ) < s} :=
  (CBudgetProposal.payment_counts_iff (by decide) (by decide) rfl (by rfl) (by decide)).mpr (by decide)

end Qrax
