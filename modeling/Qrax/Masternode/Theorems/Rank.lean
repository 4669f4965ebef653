import Qrax.Masternode.Theorems.Winners

open List

namespace Qrax

open CMasternodeMan

section

variable {globals : MasternodeGlobals} {man : CMasternodeMan} {winner : CMasternodePaymentWinner}

theorem CMasternodeMan.mem_masternodes {mn : CMasternode} :
    mn ∈ man.masternodes ↔ man.find mn.vin.prevout = some mn := by
  rw [masternodes, mem_map]
  constructor
  case mp =>
    rintro ⟨⟨collateral, mn⟩, mem, rfl⟩
    have found := AList.mem_lookup_iff.mpr mem
    rw [find, man.keyed collateral mn found]
    exact found
  case mpr =>
    intro found
    exact ⟨⟨_, mn⟩, AList.mem_lookup_iff.mp found, rfl⟩

variable [Crypto]

theorem CMasternodeMan.mem_rankedCollaterals {hash : Uint256} {minProtocol : ℤ} {fOnlyActive : Bool}
    {collateral : COutPoint} :
    collateral ∈ man.rankedCollaterals globals hash minProtocol fOnlyActive ↔
      ∃ mn, man.find collateral = some mn ∧ isRanked globals minProtocol fOnlyActive mn := by
  rw [rankedCollaterals, mem_map]
  constructor
  case mp =>
    rintro ⟨_, mem, rfl⟩
    have ⟨mn, mem, eq⟩ := mem_map.mp (mem_mergeSort.mp mem)
    have ⟨mem, ranked⟩ := mem_filter.mp mem
    rw [← eq]
    exact ⟨mn, mem_masternodes.mp mem, ranked⟩
  case mpr =>
    rintro ⟨mn, found, ranked⟩
    have eq := man.keyed collateral mn found
    have mem := mem_filter.mpr ⟨mem_masternodes.mpr (eq ▸ found), ranked⟩
    exact ⟨((mn.calculateScore hash).getCompact, mn.vin.prevout),
      mem_mergeSort.mpr (mem_map.mpr ⟨mn, mem, rfl⟩), eq⟩

theorem CMasternodeMan.getMasternodeRank_pos_iff {vin : CTxIn} {nBlockHeight minProtocol : ℤ} {fOnlyActive : Bool} :
    1 ≤ man.getMasternodeRank globals vin nBlockHeight minProtocol fOnlyActive ↔
      man.getHashAtHeight globals (nBlockHeight - 1) ≠ 0 ∧
        ∃ mn, man.find vin.prevout = some mn ∧ isRanked globals minProtocol fOnlyActive mn := by
  unfold getMasternodeRank
  by_cases unknown : man.getHashAtHeight globals (nBlockHeight - 1) = 0
  case pos => simp [unknown]
  case neg =>
    have ranked : vin.prevout ∈ man.rankedCollaterals globals (man.getHashAtHeight globals (nBlockHeight - 1))
        minProtocol fOnlyActive ↔ ∃ mn, man.find vin.prevout = some mn ∧ isRanked globals minProtocol fOnlyActive mn :=
      mem_rankedCollaterals
    simp only [unknown, if_false, ne_eq, not_false_eq_true, true_and, ← ranked]
    split
    case h_1 none => simpa using none
    case h_2 i place =>
      have mem := isSome_idxOf?.mp (by rw [place]; rfl)
      exact iff_of_true (by omega) mem

end

section

variable [CompactCrypto] {globals : MasternodeGlobals} {man : CMasternodeMan} {winner : CMasternodePaymentWinner}

theorem CMasternodePaymentWinner.isValid_eq_ok :
    winner.isValid globals man = .ok () ↔
      ∃ pmn, man.find winner.vinMasternode.prevout = some pmn ∧ activeProtocol globals ≤ pmn.protocolVersion ∧
        winner.rank globals man ≤ MNPAYMENTS_SIGNATURES_TOTAL := by
  unfold isValid
  split
  case h_1 unknown => simp [unknown]
  case h_2 pmn found =>
    have total : MNPAYMENTS_SIGNATURES_TOTAL = 10 := rfl
    simp only [found, Option.some.injEq, exists_eq_left', total]
    split
    case isTrue old => simp; omega
    case isFalse =>
      split
      case isTrue => simp; omega
      case isFalse =>
        split
        case isTrue => simp; omega
        case isFalse => simp; omega

-- The two cases in which `GetMasternodeRank` gives no rank are let through.
theorem CMasternodePaymentWinner.isValid_ranked_iff (accepted : winner.isValid globals man = .ok ()) :
    ∃ pmn, man.find winner.vinMasternode.prevout = some pmn ∧
      ((1 ≤ winner.rank globals man ∧ winner.rank globals man ≤ MNPAYMENTS_SIGNATURES_TOTAL) ↔
        man.getHashAtHeight globals (winner.nBlockHeight.toInt - 100 - 1) ≠ 0 ∧ pmn.isEnabled globals ∧
          (globals.isSporkActive .SPORK_8_MASTERNODE_PAYMENT_ENFORCEMENT →
            MN_WINNER_MINIMUM_AGE ≤ globals.getAdjustedTime - pmn.sigTime)) := by
  have ⟨pmn, found, protocol, top⟩ := isValid_eq_ok.mp accepted
  have ranked : CMasternodeMan.isRanked globals (activeProtocol globals) true pmn ↔ pmn.isEnabled globals ∧
      (globals.isSporkActive .SPORK_8_MASTERNODE_PAYMENT_ENFORCEMENT →
        MN_WINNER_MINIMUM_AGE ≤ globals.getAdjustedTime - pmn.sigTime) := by
    cases spork8 : globals.isSporkActive .SPORK_8_MASTERNODE_PAYMENT_ENFORCEMENT
    case false => simp [CMasternodeMan.isRanked, protocol, spork8]
    case true => simp [CMasternodeMan.isRanked, protocol, spork8, and_comm]
  refine ⟨pmn, found, ?_⟩
  rw [and_iff_left top, rank, CMasternodeMan.getMasternodeRank_pos_iff]
  simp only [found, Option.some.injEq, exists_eq_left', ranked]

end

section

attribute [local instance] CompactCrypto.toy

theorem isValid_ranked_solo :
    (soloVote 150 [1] false).winner.isValid soloGlobals soloMan = .ok () ∧
      ∃ pmn, soloMan.find ⟨7, 0⟩ = some pmn ∧
        ((1 ≤ (soloVote 150 [1] false).winner.rank soloGlobals soloMan ∧
            (soloVote 150 [1] false).winner.rank soloGlobals soloMan ≤ MNPAYMENTS_SIGNATURES_TOTAL) ↔
          soloMan.getHashAtHeight soloGlobals 49 ≠ 0 ∧ pmn.isEnabled soloGlobals ∧
            (soloGlobals.isSporkActive .SPORK_8_MASTERNODE_PAYMENT_ENFORCEMENT →
              MN_WINNER_MINIMUM_AGE ≤ soloGlobals.getAdjustedTime - pmn.sigTime)) :=
  have accepted : (soloVote 150 [1] false).winner.isValid soloGlobals soloMan = .ok () := by decide +kernel
  ⟨accepted, CMasternodePaymentWinner.isValid_ranked_iff accepted⟩

-- Two hours after its last ping the masternode is expired, without a rank.
theorem isValid_unranked :
    (soloVote 150 [1] false).winner.isValid { soloGlobals with getAdjustedTime := 10000 + 7200 } soloMan = .ok () ∧
      (soloVote 150 [1] false).winner.rank { soloGlobals with getAdjustedTime := 10000 + 7200 } soloMan = -1 := by
  decide +kernel

end

end Qrax
