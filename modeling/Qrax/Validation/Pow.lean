import Qrax.Validation.CheckBlock

namespace Qrax

namespace Uint256

def bits (bn : Uint256) : ℕ :=
  if bn = 0 then 0 else bn.toNat.log2 + 1

def getCompact (bn : Uint256) : UInt32 :=
  let nSize := (bn.bits + 7) / 8
  let nCompact := if nSize ≤ 3 then bn.toNat <<< (8 * (3 - nSize)) else bn.toNat >>> (8 * (nSize - 3))
  let nCompact := UInt32.ofNat nCompact
  -- The bit 0x00800000 is the sign.
  let (nCompact, nSize) := if nCompact &&& 0x00800000 ≠ 0 then (nCompact >>> 8, nSize + 1) else (nCompact, nSize)
  nCompact ||| UInt32.ofNat nSize <<< 24

-- `operator*=` with a 32-bit factor, and `operator/=` with a 256-bit one.
def scale (bn : Uint256) (num den : ℤ) : Uint256 :=
  bn * BitVec.ofNat 256 (num % 2 ^ 32).toNat / BitVec.ofNat 256 (den % 2 ^ 64).toNat

end Uint256

def CBlockHeader.getBlockTime (header : CBlockHeader) : ℤ :=
  header.nTime.toNat

-- The state of the loop of `GetNextWorkRequired`. `PastDifficultyAveragePrev` is the average before.
structure DarkGravity where
  countBlocks : ℕ := 0
  pastDifficultyAverage : Uint256 := 0
  nActualTimespan : ℤ := 0
  lastBlockTime : ℤ := 0

def DarkGravity.read (s : DarkGravity) (blockReading : CBlockHeader) : DarkGravity :=
  let countBlocks := s.countBlocks + 1
  let target := (setCompact blockReading.nBits).1
  { countBlocks
    pastDifficultyAverage :=
      if countBlocks = 1 then target
      else (s.pastDifficultyAverage * BitVec.ofNat 256 countBlocks + target) / BitVec.ofNat 256 (countBlocks + 1)
    nActualTimespan :=
      if s.lastBlockTime > 0 then s.nActualTimespan + (s.lastBlockTime - blockReading.getBlockTime)
      else s.nActualTimespan
    lastBlockTime := blockReading.getBlockTime }

variable (p : CChainParams)

def PAST_BLOCKS : ℕ := 24

-- The headers of a chain, the last first. A block's height is the number before it.
def nextStakeWork (pindexLast : CBlockHeader) (rest : List CBlockHeader) : UInt32 :=
  let consensus := p.consensus
  let nHeight := rest.length
  let fTimeV2 := !p.isRegTestNet && consensus.isTimeProtocolV2 (nHeight + 1)
  let bnTargetLimit := consensus.proofOfStakeLimit fTimeV2
  let nActualSpacing := rest.head?.elim 0 fun pprev => pindexLast.getBlockTime - pprev.getBlockTime
  let nActualSpacing := if nActualSpacing < 0 then 1 else nActualSpacing
  let nActualSpacing := if fTimeV2 then min nActualSpacing (consensus.nTargetSpacing * 10) else nActualSpacing
  let bnNew := (setCompact pindexLast.nBits).1
  -- The first block of the second time protocol is 16 times easier.
  let bnNew := if fTimeV2 && !consensus.isTimeProtocolV2 nHeight then bnNew <<< 4 else bnNew
  let nInterval := (consensus.targetTimespan fTimeV2).tdiv consensus.nTargetSpacing
  let bnNew := Uint256.scale bnNew ((nInterval - 1) * consensus.nTargetSpacing + nActualSpacing + nActualSpacing)
    ((nInterval + 1) * consensus.nTargetSpacing)
  Uint256.getCompact (if bnNew = 0 || bnNew > bnTargetLimit then bnTargetLimit else bnNew)

def darkGravityWork (pindexLast : CBlockHeader) (rest : List CBlockHeader) : UInt32 :=
  -- The genesis block is not read.
  let s := ((pindexLast :: rest).dropLast.take PAST_BLOCKS).foldl .read ({} : DarkGravity)
  let nTargetTimespan : ℤ := s.countBlocks * p.consensus.nTargetSpacing
  let nActualTimespan := max s.nActualTimespan (nTargetTimespan.tdiv 3)
  let nActualTimespan := min nActualTimespan (nTargetTimespan * 3)
  let bnNew := Uint256.scale s.pastDifficultyAverage nActualTimespan nTargetTimespan
  Uint256.getCompact (if bnNew > p.consensus.powLimit then p.consensus.powLimit else bnNew)

def getNextWorkRequired : List CBlockHeader → UInt32
  | [] => Uint256.getCompact p.consensus.powLimit
  | pindexLast :: rest =>
    if p.isRegTestNet then pindexLast.nBits
    else if rest.length < PAST_BLOCKS then Uint256.getCompact p.consensus.powLimit
    else if p.consensus.networkUpgradeActive (rest.length + 1) .ACTIVATE_POS then nextStakeWork p pindexLast rest
    else darkGravityWork p pindexLast rest

-- The headers of a chain, the last first, each with the work its parents demand.
structure HeaderChain where
  headers : List CBlockHeader
  required : ∀ header rest, header :: rest <:+ headers → rest ≠ [] → header.nBits = getNextWorkRequired p rest

def getBlockProof (nBits : UInt32) : Uint256 :=
  let (bnTarget, fNegative, fOverflow) := setCompact nBits
  if fNegative || fOverflow || bnTarget == 0 then 0 else ~~~bnTarget / (bnTarget + 1) + 1

-- `nChainWork` that `AddToBlockIndex` gives the last block of a chain, from the genesis block on.
def chainWork (chain : List UInt32) : Uint256 :=
  chain.foldl (fun nChainWork nBits => nChainWork + getBlockProof nBits) 0

end Qrax
