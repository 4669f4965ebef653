import Qrax.Basic

namespace Qrax

namespace Consensus

inductive UpgradeIndex
  | BASE_NETWORK
  | ACTIVATE_POS
  | ACTIVATE_NEW_COLDSTAKE
  | ACTIVATE_NEW_FEE_RULES
  | ACTIVATE_ASSET_VALIDATION
  | ACTIVATE_HUSH
  | UPGRADE_TESTDUMMY
  deriving DecidableEq, Repr

-- The parameters that checks read. An upgrade without a height has `NO_ACTIVATION_HEIGHT`. Two amounts that pass
-- `MoneyRange` can be added in 64 bits.
structure Params where
  hashGenesisBlock : Uint256
  powLimit : Uint256
  posLimitV1 : Uint256
  posLimitV2 : Uint256
  nBudgetCycleBlocks : ℕ
  nCoinbaseMaturity : ℕ
  nMaxMoneyOut : CAmount
  nStakeMinDepth : ℕ
  nTargetTimespan : ℤ
  nTargetTimespanV2 : ℤ
  nTargetSpacing : ℤ
  vUpgrades : UpgradeIndex → Option ℕ
  nMaxMoneyOut_pos : 0 < nMaxMoneyOut.toInt
  nMaxMoneyOut_fits : 2 * nMaxMoneyOut.toInt < 2 ^ 63

namespace Params

def moneyRange (params : Params) (nValue : ℤ) : Bool :=
  0 ≤ nValue && nValue ≤ params.nMaxMoneyOut.toInt

def networkUpgradeActive (params : Params) (nHeight : ℕ) (idx : UpgradeIndex) : Bool :=
  match params.vUpgrades idx with
  | none => false
  | some nActivationHeight => nHeight ≥ nActivationHeight

def isTimeProtocolV2 (params : Params) (nHeight : ℕ) : Bool :=
  params.networkUpgradeActive nHeight .ACTIVATE_POS

def targetTimespan (params : Params) (fV2 : Bool) : ℤ :=
  if fV2 then params.nTargetTimespanV2 else params.nTargetTimespan

def proofOfStakeLimit (params : Params) (fV2 : Bool) : Uint256 :=
  if fV2 then params.posLimitV2 else params.posLimitV1

def hasStakeMinAgeOrDepth (params : Params) (contextHeight utxoFromBlockHeight : ℕ) : Bool :=
  (contextHeight : ℤ) - utxoFromBlockHeight ≥ params.nStakeMinDepth

@[simp]
theorem moneyRange_iff {params : Params} {nValue : ℤ} :
    params.moneyRange nValue ↔ 0 ≤ nValue ∧ nValue ≤ params.nMaxMoneyOut.toInt := by
  simp [moneyRange]

end Params

end Consensus

inductive Network
  | MAIN
  | TESTNET
  | REGTEST
  deriving DecidableEq, Repr

structure CChainParams where
  network : Network
  consensus : Consensus.Params

namespace CChainParams

open Consensus UpgradeIndex

def isRegTestNet (p : CChainParams) : Bool :=
  p.network == .REGTEST

def main : CChainParams where
  network := .MAIN
  consensus := {
    hashGenesisBlock := 0x00000e2864f744c05d9fc94c4f02f0810927ab2100abaae3f75e87f915dbcec1
    powLimit := BitVec.allOnes 256 >>> 20
    posLimitV1 := BitVec.allOnes 256 >>> 24
    posLimitV2 := BitVec.allOnes 256 >>> 20
    nBudgetCycleBlocks := 44000
    nCoinbaseMaturity := 20
    nMaxMoneyOut := 10000000 * COIN
    nStakeMinDepth := 100
    nTargetTimespan := 40 * 60
    nTargetTimespanV2 := 30 * 60
    nTargetSpacing := 1 * 60
    vUpgrades := fun
      | BASE_NETWORK => some 0
      | ACTIVATE_POS => some 44000
      | ACTIVATE_NEW_COLDSTAKE => some 512000
      | ACTIVATE_NEW_FEE_RULES => some 512000
      | _ => none
    nMaxMoneyOut_pos := by decide
    nMaxMoneyOut_fits := by decide
  }

def testnet : CChainParams where
  network := .TESTNET
  consensus := {
    hashGenesisBlock := 0x00000ee2d6a0046735414b92173442086f02af56a2a62208412c0d091a6461f5
    powLimit := BitVec.allOnes 256 >>> 20
    posLimitV1 := BitVec.allOnes 256 >>> 24
    posLimitV2 := BitVec.allOnes 256 >>> 20
    nBudgetCycleBlocks := 1440
    nCoinbaseMaturity := 15
    nMaxMoneyOut := 20000000 * COIN
    nStakeMinDepth := 100
    nTargetTimespan := 40 * 60
    nTargetTimespanV2 := 30 * 60
    nTargetSpacing := 1 * 60
    vUpgrades := fun
      | BASE_NETWORK => some 0
      | ACTIVATE_POS => some 200
      | ACTIVATE_NEW_COLDSTAKE => some 2000
      | ACTIVATE_NEW_FEE_RULES => some 306500
      | _ => none
    nMaxMoneyOut_pos := by decide
    nMaxMoneyOut_fits := by decide
  }

def regtest : CChainParams where
  network := .REGTEST
  consensus := {
    hashGenesisBlock := 0x000005f32049fdad20ebfaa813a666116fc2f0a0ab257685126fbc83ec6688a1
    powLimit := BitVec.allOnes 256 >>> 20
    posLimitV1 := BitVec.allOnes 256 >>> 24
    posLimitV2 := BitVec.allOnes 256 >>> 20
    nBudgetCycleBlocks := 144
    nCoinbaseMaturity := 100
    nMaxMoneyOut := 43199500 * COIN
    nStakeMinDepth := 2
    nTargetTimespan := 40 * 60
    nTargetTimespanV2 := 30 * 60
    nTargetSpacing := 1 * 60
    vUpgrades := fun
      | BASE_NETWORK => some 0
      | ACTIVATE_POS => some 360
      | ACTIVATE_NEW_COLDSTAKE => some 720
      | ACTIVATE_NEW_FEE_RULES => some 720
      | _ => none
    nMaxMoneyOut_pos := by decide
    nMaxMoneyOut_fits := by decide
  }

def updateNetworkUpgradeParameters (p : CChainParams) (idx : UpgradeIndex) (nActivationHeight : Option ℕ) :
    CChainParams :=
  { p with
    consensus := { p.consensus with
      vUpgrades := fun idx' => if idx' = idx then nActivationHeight else p.consensus.vUpgrades idx' } }

def getBlockValue (p : CChainParams) (nHeight : ℕ) : ℤ :=
  if p.isRegTestNet then 3500 * COIN.toInt
  else if nHeight = 1 && p.network == .MAIN then 1200400 * COIN.toInt
  else if nHeight = 1 && p.network == .TESTNET then 12004000 * COIN.toInt
  else if nHeight > 1 && !p.consensus.networkUpgradeActive nHeight ACTIVATE_POS then
    if nHeight ≥ 30000 && nHeight < 35000 then 2200 * COIN.toInt else 200 * COIN.toInt
  else
    let count : ℤ := ↑(nHeight / p.consensus.nBudgetCycleBlocks) - 1
    if count ≤ 0 then 10 * COIN.toInt
    else if count ≥ 10 then COIN.toInt
    else (10 - count) * COIN.toInt

def getMasternodePayment (p : CChainParams) (nHeight : ℕ) : ℤ :=
  let count : ℤ := ↑(nHeight / p.consensus.nBudgetCycleBlocks) - 1
  if count ≤ 0 then 50 * COIN.toInt
  else if count ≥ 10 then 5 * COIN.toInt
  else (50 - count * 5) * COIN.toInt

theorem getMasternodePayment_bounds (p : CChainParams) (nHeight : ℕ) :
    0 ≤ p.getMasternodePayment nHeight ∧ p.getMasternodePayment nHeight ≤ 50 * COIN.toInt := by
  have hc : COIN.toInt = 100000000 := rfl
  simp only [getMasternodePayment, hc]
  split_ifs <;> omega

end CChainParams

end Qrax
