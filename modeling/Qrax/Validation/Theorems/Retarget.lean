import Qrax.Lib.Checked
import Qrax.Validation.Theorems.Compact

open List Option BitVec

namespace Qrax

open Checked

-- The retarget computation without a result where 256 bits, or 32 for a factor, do not suffice.
section

def setCompactChecked (nBits : UInt32) : Option Uint256 :=
  if (setCompact nBits).2.2 then none else some (setCompact nBits).1

def Uint256.scaleChecked (bn : Uint256) (num den : ℤ) : Option Uint256 :=
  if 0 ≤ num ∧ num < 2 ^ 32 ∧ 0 < den ∧ den < 2 ^ 64 then
    (Checked.mul bn (BitVec.ofNat 256 num.toNat)).map (· / BitVec.ofNat 256 den.toNat)
  else none

def DarkGravity.readChecked (s : DarkGravity) (blockReading : CBlockHeader) : Option DarkGravity := do
  let countBlocks := s.countBlocks + 1
  let target ← setCompactChecked blockReading.nBits
  if countBlocks = 1 then return s.read blockReading
  let product ← Checked.mul s.pastDifficultyAverage (BitVec.ofNat 256 countBlocks)
  let sum ← Checked.add product target
  return { s.read blockReading with pastDifficultyAverage := sum / BitVec.ofNat 256 (countBlocks + 1) }

variable (p : CChainParams)

def nextStakeWorkChecked (pindexLast : CBlockHeader) (rest : List CBlockHeader) : Option UInt32 := do
  let consensus := p.consensus
  let nHeight := rest.length
  let fTimeV2 := !p.isRegTestNet && consensus.isTimeProtocolV2 (nHeight + 1)
  let bnTargetLimit := consensus.proofOfStakeLimit fTimeV2
  let nActualSpacing := rest.head?.elim 0 fun pprev => pindexLast.getBlockTime - pprev.getBlockTime
  let nActualSpacing := if nActualSpacing < 0 then 1 else nActualSpacing
  let nActualSpacing := if fTimeV2 then min nActualSpacing (consensus.nTargetSpacing * 10) else nActualSpacing
  let bnNew ← setCompactChecked pindexLast.nBits
  let bnNew ← if fTimeV2 && !consensus.isTimeProtocolV2 nHeight then Checked.shiftLeft bnNew 4 else some bnNew
  let nInterval := (consensus.targetTimespan fTimeV2).tdiv consensus.nTargetSpacing
  let bnNew ← Uint256.scaleChecked bnNew
    ((nInterval - 1) * consensus.nTargetSpacing + nActualSpacing + nActualSpacing)
    ((nInterval + 1) * consensus.nTargetSpacing)
  return Uint256.getCompact (if bnNew = 0 || bnNew > bnTargetLimit then bnTargetLimit else bnNew)

def darkGravityWorkChecked (pindexLast : CBlockHeader) (rest : List CBlockHeader) : Option UInt32 := do
  let s ← ((pindexLast :: rest).dropLast.take PAST_BLOCKS).foldlM DarkGravity.readChecked {}
  let nTargetTimespan : ℤ := s.countBlocks * p.consensus.nTargetSpacing
  let nActualTimespan := max s.nActualTimespan (nTargetTimespan.tdiv 3)
  let nActualTimespan := min nActualTimespan (nTargetTimespan * 3)
  let bnNew ← Uint256.scaleChecked s.pastDifficultyAverage nActualTimespan nTargetTimespan
  return Uint256.getCompact (if bnNew > p.consensus.powLimit then p.consensus.powLimit else bnNew)

def getNextWorkRequiredChecked : List CBlockHeader → Option UInt32
  | [] => some (Uint256.getCompact p.consensus.powLimit)
  | pindexLast :: rest =>
    if p.isRegTestNet then some pindexLast.nBits
    else if rest.length < PAST_BLOCKS then some (Uint256.getCompact p.consensus.powLimit)
    else if p.consensus.networkUpgradeActive (rest.length + 1) .ACTIVATE_POS then
      nextStakeWorkChecked p pindexLast rest
    else darkGravityWorkChecked p pindexLast rest

end

-- The limits and times that keep it within 256 bits.
structure Retargets (p : CChainParams) : Prop where
  isRegTestNet : p.isRegTestNet = false
  powLimit : p.consensus.powLimit.toNat < 2 ^ 236
  posLimit : p.consensus.posLimitV2.toNat < 2 ^ 236
  posLimit_pos : p.consensus.posLimitV2 ≠ 0
  nTargetSpacing : p.consensus.nTargetSpacing = 60
  nTargetTimespan : p.consensus.nTargetTimespanV2 = 1800
  posHeight : ∀ nHeight, p.consensus.networkUpgradeActive nHeight .ACTIVATE_POS → PAST_BLOCKS < nHeight

theorem retargets_main : Retargets .main where
  isRegTestNet := rfl
  powLimit := by decide
  posLimit := by decide
  posLimit_pos := by decide
  nTargetSpacing := rfl
  nTargetTimespan := rfl
  posHeight nHeight active := by
    have : 44000 ≤ nHeight := of_decide_eq_true active
    exact lt_of_lt_of_le (by decide) this

theorem retargets_testnet : Retargets .testnet where
  isRegTestNet := rfl
  powLimit := by decide
  posLimit := by decide
  posLimit_pos := by decide
  nTargetSpacing := rfl
  nTargetTimespan := rfl
  posHeight nHeight active := by
    have : 200 ≤ nHeight := of_decide_eq_true active
    exact lt_of_lt_of_le (by decide) this

theorem scaleChecked_eq {bn : Uint256} {num den : ℤ} (target : bn.toNat < 2 ^ 240) (nonneg : 0 ≤ num)
    (factor : num < 2 ^ 16) (pos : 0 < den) (lt : den < 2 ^ 16) :
    Uint256.scaleChecked bn num den = some (Uint256.scale bn num den) := by
  have numMod : num % 2 ^ 32 = num := Int.emod_eq_of_lt nonneg (by omega)
  have denMod : den % 2 ^ 64 = den := Int.emod_eq_of_lt pos.le (by omega)
  have small : (BitVec.ofNat 256 num.toNat).toNat = num.toNat := by
    rw [toNat_ofNat]
    exact Nat.mod_eq_of_lt (by omega)
  have fits : bn.toNat * (BitVec.ofNat 256 num.toNat).toNat < 2 ^ 256 := by
    rw [small]
    calc bn.toNat * num.toNat ≤ bn.toNat * 2 ^ 16 := Nat.mul_le_mul_left _ (by omega)
      _ < 2 ^ 240 * 2 ^ 16 := Nat.mul_lt_mul_of_pos_right target (by decide)
  rw [Uint256.scaleChecked, if_pos ⟨nonneg, by omega, pos, by omega⟩, mul_of_fits fits, Uint256.scale, numMod,
    denMod]
  rfl

variable {p : CChainParams}

theorem limited_bounds {bn limit : Uint256} (pos : limit ≠ 0) :
    (if bn = 0 || bn > limit then limit else bn) ≠ 0 ∧ (if bn = 0 || bn > limit then limit else bn) ≤ limit := by
  split
  case isTrue => exact ⟨pos, BitVec.le_refl _⟩
  case isFalse within =>
    rw [Bool.not_eq_true, Bool.or_eq_false_iff] at within
    exact ⟨of_decide_eq_false within.left, BitVec.not_lt.mp (of_decide_eq_false within.right)⟩

theorem nextStakeWork_bounds (r : Retargets p) (pindexLast : CBlockHeader) (rest : List CBlockHeader)
    (active : p.consensus.networkUpgradeActive (rest.length + 1) .ACTIVATE_POS) :
    ∃ bn : Uint256, nextStakeWork p pindexLast rest = bn.getCompact ∧ bn ≠ 0 ∧ bn ≤ p.consensus.posLimitV2 := by
  have limit : p.consensus.proofOfStakeLimit (!p.isRegTestNet && p.consensus.isTimeProtocolV2 (rest.length + 1)) =
      p.consensus.posLimitV2 := by
    rw [r.isRegTestNet, Consensus.Params.isTimeProtocolV2, active]
    rfl
  refine ⟨_, rfl, (limited_bounds ?_).left, BitVec.le_trans (limited_bounds ?_).right ?_⟩ <;> rw [limit]
  case refine_1 | refine_2 => exact r.posLimit_pos
  case refine_3 => exact BitVec.le_refl _

theorem darkGravityWork_bounds (pindexLast : CBlockHeader) (rest : List CBlockHeader) :
    ∃ bn : Uint256, darkGravityWork p pindexLast rest = bn.getCompact ∧ bn ≤ p.consensus.powLimit := by
  refine ⟨_, rfl, ?_⟩
  split
  case isTrue => exact BitVec.le_refl _
  case isFalse within => exact BitVec.not_lt.mp within

theorem getNextWorkRequired_bounds (r : Retargets p) (headers : List CBlockHeader) :
    ∃ bn : Uint256, getNextWorkRequired p headers = bn.getCompact ∧
      if p.consensus.networkUpgradeActive headers.length .ACTIVATE_POS then bn ≠ 0 ∧ bn ≤ p.consensus.posLimitV2
      else bn ≤ p.consensus.powLimit := by
  have early (nHeight : ℕ) (le : nHeight ≤ PAST_BLOCKS) :
      ¬p.consensus.networkUpgradeActive nHeight .ACTIVATE_POS := fun active => by
    have := r.posHeight nHeight active
    omega
  cases headers
  case nil =>
    exact ⟨_, rfl, by rw [if_neg (early _ (by simp))]; exact BitVec.le_refl _⟩
  case cons pindexLast rest =>
    simp only [getNextWorkRequired, r.isRegTestNet, Bool.false_eq_true, if_false, length_cons]
    split
    case isTrue short =>
      exact ⟨_, rfl, by rw [if_neg (early _ (by omega))]; exact BitVec.le_refl _⟩
    case isFalse =>
      split
      case isTrue active => exact nextStakeWork_bounds r pindexLast rest active
      case isFalse => exact darkGravityWork_bounds pindexLast rest

def CBlockHeader.Limited (header : CBlockHeader) : Prop :=
  (setCompact header.nBits).1.toNat < 2 ^ 236 ∧ (setCompact header.nBits).2.2 = false

variable {header : CBlockHeader} {rest : List CBlockHeader} {s : DarkGravity} {pindexLast : CBlockHeader}

theorem CBlockHeader.Limited.checked (h : header.Limited) :
    setCompactChecked header.nBits = some (setCompact header.nBits).1 := by
  rw [setCompactChecked, h.right]
  rfl

theorem HeaderChain.limited (r : Retargets p) (chain : HeaderChain p)
    (suffix : header :: rest <:+ chain.headers) (nonempty : rest ≠ []) :
    header.Limited := by
  have ⟨bn, eq, bounds⟩ := getNextWorkRequired_bounds r rest
  have compact := setCompact_getCompact bn
  rw [← eq, ← chain.required header rest suffix nonempty] at compact
  have lt : bn.toNat < 2 ^ 236 := by
    split at bounds
    case isTrue => exact Nat.lt_of_le_of_lt bounds.right r.posLimit
    case isFalse => exact Nat.lt_of_le_of_lt bounds r.powLimit
  exact ⟨compact.left.trans_lt lt, compact.right.right⟩

theorem exists_suffix_of_mem_dropLast {α : Type} {l : List α} {a : α} (mem : a ∈ l.dropLast) :
    ∃ rest, a :: rest <:+ l ∧ rest ≠ [] := by
  induction l
  case nil => cases mem
  case cons b l ih =>
    cases l
    case nil => cases mem
    case cons c l =>
      rw [dropLast_cons_cons, mem_cons] at mem
      cases mem
      case inl eq => exact ⟨c :: l, eq ▸ suffix_rfl, cons_ne_nil _ _⟩
      case inr mem =>
        have ⟨rest, suffix, nonempty⟩ := ih mem
        exact ⟨rest, suffix.trans (suffix_cons _ _), nonempty⟩

theorem DarkGravity.readChecked_eq
    (average : s.pastDifficultyAverage.toNat < 2 ^ 236) (few : s.countBlocks < PAST_BLOCKS) (h : header.Limited) :
    s.readChecked header = some (s.read header) ∧ (s.read header).pastDifficultyAverage.toNat < 2 ^ 236 := by
  have few : s.countBlocks < 24 := few
  rw [readChecked, h.checked, bind_eq_bind, bind_some]
  by_cases first : s.countBlocks + 1 = 1
  case pos =>
    refine ⟨if_pos first, ?_⟩
    simp only [read, first, if_true]
    exact h.left
  case neg =>
    have count : (BitVec.ofNat 256 (s.countBlocks + 1)).toNat = s.countBlocks + 1 := by
      rw [toNat_ofNat]; omega
    have next : (BitVec.ofNat 256 (s.countBlocks + 1 + 1)).toNat = s.countBlocks + 1 + 1 := by
      rw [toNat_ofNat]; omega
    have product : s.pastDifficultyAverage.toNat * (s.countBlocks + 1) ≤ 2 ^ 236 * (s.countBlocks + 1) :=
      Nat.mul_le_mul_right _ average.le
    have fits : s.pastDifficultyAverage.toNat * (BitVec.ofNat 256 (s.countBlocks + 1)).toNat < 2 ^ 256 := by
      rw [count]; omega
    have target := h.left
    have sum : (s.pastDifficultyAverage * BitVec.ofNat 256 (s.countBlocks + 1)).toNat +
        (setCompact header.nBits).1.toNat < 2 ^ 256 := by
      rw [toNat_mul_of_fits fits, count]; omega
    rw [if_neg first, mul_of_fits fits, bind_some, add_of_fits sum, bind_some]
    constructor
    case left => simp only [read, if_neg first]; rfl
    case right =>
      simp only [read, if_neg first]
      rw [toNat_udiv, toNat_add_of_fits sum, toNat_mul_of_fits fits, count, next,
        Nat.div_lt_iff_lt_mul (Nat.succ_pos _)]
      omega

theorem DarkGravity.foldlM_readChecked {l : List CBlockHeader}
    (average : s.pastDifficultyAverage.toNat < 2 ^ 236) (few : s.countBlocks + l.length ≤ PAST_BLOCKS)
    (limited : ∀ header ∈ l, header.Limited) :
    l.foldlM readChecked s = some (l.foldl read s) ∧ (l.foldl read s).pastDifficultyAverage.toNat < 2 ^ 236 ∧
      (l.foldl read s).countBlocks = s.countBlocks + l.length := by
  induction l generalizing s
  case nil => exact ⟨rfl, average, rfl⟩
  case cons header l ih =>
    rw [length_cons] at few ⊢
    have ⟨checked, lt⟩ := readChecked_eq average (by omega) (limited header (mem_cons_self ..))
    have count : (s.read header).countBlocks = s.countBlocks + 1 := rfl
    have ⟨fold, lt, all⟩ := ih lt (by omega) fun header mem => limited header (mem_cons_of_mem _ mem)
    rw [foldlM_cons, checked]
    exact ⟨fold, lt, by rw [foldl_cons, all]; omega⟩

theorem darkGravityWorkChecked_eq (r : Retargets p)
    (long : PAST_BLOCKS ≤ rest.length) (limited : ∀ header ∈ (pindexLast :: rest).dropLast, header.Limited) :
    darkGravityWorkChecked p pindexLast rest = some (darkGravityWork p pindexLast rest) := by
  have length : ((pindexLast :: rest).dropLast.take PAST_BLOCKS).length = PAST_BLOCKS := by
    rw [length_take, length_dropLast, length_cons]
    omega
  have ⟨fold, average, count⟩ := DarkGravity.foldlM_readChecked (l := (pindexLast :: rest).dropLast.take PAST_BLOCKS)
    (s := {}) (by decide) (by rw [length]; decide) fun header mem => limited header (mem_of_mem_take mem)
  have count : (foldl DarkGravity.read {} ((pindexLast :: rest).dropLast.take PAST_BLOCKS)).countBlocks = 24 := by
    rw [count, length]
    rfl
  rw [darkGravityWorkChecked, fold, bind_eq_bind, bind_some, darkGravityWork, count, r.nTargetSpacing]
  have third : ((24 : ℕ) * 60 : ℤ).tdiv 3 = 480 := rfl
  dsimp only
  rw [scaleChecked_eq (by omega) (by omega) (by omega) (by omega) (by omega)]
  rfl

theorem nextStakeWorkChecked_eq (r : Retargets p)
    (active : p.consensus.networkUpgradeActive (rest.length + 1) .ACTIVATE_POS) (limited : pindexLast.Limited) :
    nextStakeWorkChecked p pindexLast rest = some (nextStakeWork p pindexLast rest) := by
  have fTimeV2 : (!p.isRegTestNet && p.consensus.isTimeProtocolV2 (rest.length + 1)) = true := by
    rw [r.isRegTestNet, Consensus.Params.isTimeProtocolV2, active]
    rfl
  have interval : (p.consensus.targetTimespan true).tdiv p.consensus.nTargetSpacing = 30 := by
    rw [Consensus.Params.targetTimespan, if_pos rfl, r.nTargetTimespan, r.nTargetSpacing]
    rfl
  have target := limited.left
  -- The spacing that the rule sees.
  have spacing (n : ℤ) : 0 ≤ min (if n < 0 then 1 else n) (60 * 10) ∧ min (if n < 0 then 1 else n) (60 * 10) ≤ 600 := by
    split <;> omega
  have ⟨nonneg, le⟩ := spacing (rest.head?.elim 0 fun pprev => pindexLast.getBlockTime - pprev.getBlockTime)
  have shifted : (setCompact pindexLast.nBits).1.toNat * 2 ^ 4 < 2 ^ 256 := by omega
  rw [nextStakeWorkChecked, nextStakeWork, fTimeV2, interval, r.nTargetSpacing, limited.checked, bind_eq_bind,
    bind_some]
  by_cases first : p.consensus.isTimeProtocolV2 rest.length
  case pos =>
    simp only [first, Bool.not_true, Bool.and_false, Bool.false_eq_true, if_false, if_true, bind_some]
    rw [scaleChecked_eq (by omega) (by omega) (by omega) (by omega) (by omega)]
    rfl
  case neg =>
    have lt : ((setCompact pindexLast.nBits).1 <<< 4).toNat < 2 ^ 240 := by
      rw [toNat_shiftLeft_of_fits shifted]
      omega
    simp only [first, Bool.not_false, Bool.and_true, if_true, shiftLeft_of_fits shifted, bind_some]
    rw [scaleChecked_eq lt (by omega) (by omega) (by omega) (by omega)]
    rfl

theorem HeaderChain.checked_eq (r : Retargets p) (chain : HeaderChain p) :
    getNextWorkRequiredChecked p chain.headers = some (getNextWorkRequired p chain.headers) := by
  have limited (header : CBlockHeader) (mem : header ∈ chain.headers.dropLast) : header.Limited := by
    have ⟨rest, suffix, nonempty⟩ := exists_suffix_of_mem_dropLast mem
    exact chain.limited r suffix nonempty
  cases eq : chain.headers
  case nil => rfl
  case cons pindexLast rest =>
    rw [eq] at limited
    simp only [getNextWorkRequiredChecked, getNextWorkRequired, r.isRegTestNet, Bool.false_eq_true, if_false]
    split
    case isTrue => rfl
    case isFalse long =>
      have nonempty : rest ≠ [] := fun nil => long (by rw [nil]; decide)
      split
      case isTrue active =>
        refine nextStakeWorkChecked_eq r active (limited pindexLast ?_)
        rw [dropLast_cons_of_ne_nil nonempty]
        exact mem_cons_self ..
      case isFalse => exact darkGravityWorkChecked_eq r (Nat.not_lt.mp long) limited

-- On the two public networks no block times make the computation overflow, and its result is within the limit of its
-- height.
theorem getNextWorkRequired_exact (network : p = .main ∨ p = .testnet) (chain : HeaderChain p) :
    getNextWorkRequiredChecked p chain.headers = some (getNextWorkRequired p chain.headers) ∧
      if p.consensus.networkUpgradeActive chain.headers.length .ACTIVATE_POS then
        (setCompact (getNextWorkRequired p chain.headers)).1 ≠ 0 ∧
          (setCompact (getNextWorkRequired p chain.headers)).1 ≤ p.consensus.proofOfStakeLimit true
      else (setCompact (getNextWorkRequired p chain.headers)).1 ≤ p.consensus.powLimit := by
  have r : Retargets p := by
    rcases network with rfl | rfl
    case inl => exact retargets_main
    case inr => exact retargets_testnet
  have ⟨bn, eq, bounds⟩ := getNextWorkRequired_bounds r chain.headers
  have ⟨le, nonzero, _⟩ := setCompact_getCompact bn
  refine ⟨chain.checked_eq r, ?_⟩
  rw [eq]
  split at bounds
  case isTrue active =>
    rw [if_pos active]
    exact ⟨nonzero bounds.left, BitVec.le_trans le bounds.right⟩
  case isFalse inactive =>
    rw [if_neg inactive]
    exact BitVec.le_trans le bounds

def firstHeaders : List CBlockHeader :=
  (List.range 25).map fun i => { nBits := 0x1e0fffff, nTime := 1618207620 + UInt32.ofNat (50 * (24 - i)) }

def firstChain : HeaderChain .main where
  headers := firstHeaders
  required := by
    intro header rest suffix nonempty
    have bits (h : CBlockHeader) (mem : h ∈ firstHeaders) : h.nBits = 0x1e0fffff := by
      have ⟨_, _, eq⟩ := mem_map.mp mem
      exact eq ▸ rfl
    have length : rest.length < 25 := suffix.length_le
    rw [bits header (suffix.subset (mem_cons_self ..))]
    cases rest
    case nil => exact absurd rfl nonempty
    case cons h hs =>
      have short : hs.length < PAST_BLOCKS := Nat.lt_of_succ_lt_succ length
      rw [getNextWorkRequired, if_neg (by decide), if_pos short]
      decide

theorem getNextWorkRequired_exact_first :
    (CChainParams.main = .main ∨ CChainParams.main = .testnet) ∧
      getNextWorkRequiredChecked .main firstChain.headers = some (getNextWorkRequired .main firstChain.headers) ∧
      (setCompact (getNextWorkRequired .main firstChain.headers)).1 ≤ CChainParams.main.consensus.powLimit :=
  have exact := getNextWorkRequired_exact (.inl rfl) firstChain
  ⟨.inl rfl, exact.left, exact.right⟩

end Qrax
