import Qrax.Validation.ChainState

open Fallible

namespace Qrax

structure FirstBlocks where
  pindexFirstInvalid : Option Uint256 := none
  pindexFirstMissing : Option Uint256 := none
  pindexFirstNotTreeValid : Option Uint256 := none
  pindexFirstNotChainValid : Option Uint256 := none
  pindexFirstNotScriptsValid : Option Uint256 := none

namespace ChainState

variable (index : BlockIndex) (s : ChainState)

def oldest (first : Option Uint256) (pindex : Uint256) (here : Bool) : Option Uint256 :=
  if first = none && here then some pindex else first

def notReached (pindex : Uint256) (nUpTo : BlockValidity) : Bool :=
  index.pprev pindex ≠ none && !(s.nStatus pindex).reached nUpTo

def firstBlocks (pindex : Uint256) (first : FirstBlocks) : FirstBlocks where
  pindexFirstInvalid := oldest first.pindexFirstInvalid pindex (s.nStatus pindex).failedValid
  pindexFirstMissing := oldest first.pindexFirstMissing pindex !index.haveData pindex
  pindexFirstNotTreeValid := oldest first.pindexFirstNotTreeValid pindex (s.notReached index pindex .TREE)
  pindexFirstNotChainValid := oldest first.pindexFirstNotChainValid pindex (s.notReached index pindex .CHAIN)
  pindexFirstNotScriptsValid := oldest first.pindexFirstNotScriptsValid pindex (s.notReached index pindex .SCRIPTS)

def checkCandidate (pindex : Uint256) (first : FirstBlocks) : Except Failure Unit :=
  if ¬s.worseThanTip index pindex ∧ first.pindexFirstMissing = none then
    onlyIf (first.pindexFirstInvalid = none) do
      failIf (pindex ∉ s.setBlockIndexCandidates) (.assertion "setBlockIndexCandidates.count(pindex)")
  else failIf (pindex ∈ s.setBlockIndexCandidates) (.assertion "setBlockIndexCandidates.count(pindex) == 0")

def checkUnlinked (pindex : Uint256) (first : FirstBlocks) : Except Failure Unit :=
  let foundInUnlinked := (index.pprev pindex, pindex) ∈ s.mapBlocksUnlinked
  if index.pprev pindex ≠ none ∧ index.haveData pindex ∧ first.pindexFirstMissing ≠ none then
    onlyIf (first.pindexFirstInvalid = none) do
      failIf (¬foundInUnlinked) (.assertion "foundInUnlinked")
  else failIf foundInUnlinked (.assertion "!foundInUnlinked")

def checkEntry (pindex : Uint256) (nHeight : ℕ) (first : FirstBlocks) : Except Failure Unit := do
  let nStatus := s.nStatus pindex
  onlyIf (index.pprev pindex = none) do
    failIf (pindex ≠ index.hashGenesisBlock)
      (.assertion "pindex->GetBlockHash() == Params().GetConsensus().hashGenesisBlock")
    failIf (some pindex ≠ s.chainActive.genesis) (.assertion "pindex == chainActive.Genesis()")
  failIf (¬(index.haveData pindex = false ↔ index.nTx pindex = 0))
    (.assertion "!(pindex->nStatus & BLOCK_HAVE_DATA) == (pindex->nTx == 0)")
  failIf (¬(nStatus.reached .TRANSACTIONS ↔ index.nTx pindex > 0))
    (.assertion "((pindex->nStatus & BLOCK_VALID_MASK) >= BLOCK_VALID_TRANSACTIONS) == (pindex->nTx > 0)")
  onlyIf (index.nChainTx pindex = 0) do
    failIf (index.nSequenceId pindex ≠ 0) (.assertion "pindex->nSequenceId == 0")
  failIf (¬(first.pindexFirstMissing ≠ none ↔ index.nChainTx pindex = 0))
    (.assertion "(pindexFirstMissing != NULL) == (pindex->nChainTx == 0)")
  failIf (index.nHeight pindex ≠ nHeight) (.assertion "pindex->nHeight == nHeight")
  failIf ((index.pprev pindex).any (index.nChainWork pindex < index.nChainWork ·))
    (.assertion "pindex->pprev == NULL || pindex->nChainWork >= pindex->pprev->nChainWork")
  failIf (¬(nHeight < 2 ∨ (index.pskip pindex).any (index.nHeight · < nHeight)))
    (.assertion "nHeight < 2 || (pindex->pskip && (pindex->pskip->nHeight < nHeight))")
  failIf (first.pindexFirstNotTreeValid ≠ none) (.assertion "pindexFirstNotTreeValid == NULL")
  onlyIf (nStatus.reached .TREE) do
    failIf (first.pindexFirstNotTreeValid ≠ none) (.assertion "pindexFirstNotTreeValid == NULL")
  onlyIf (nStatus.reached .CHAIN) do
    failIf (first.pindexFirstNotChainValid ≠ none) (.assertion "pindexFirstNotChainValid == NULL")
  onlyIf (nStatus.reached .SCRIPTS) do
    failIf (first.pindexFirstNotScriptsValid ≠ none) (.assertion "pindexFirstNotScriptsValid == NULL")
  onlyIf (first.pindexFirstInvalid = none) do
    failIf nStatus.failed (.assertion "(pindex->nStatus & BLOCK_FAILED_MASK) == 0")
  s.checkCandidate index pindex first
  s.checkUnlinked index pindex first

def forward (pprev : Option Uint256) : List Uint256 :=
  index.mapBlockIndex.filter (index.pprev · = pprev)

-- The search goes down from `pindex` and counts the nodes. A variable is reset at its block on the way up, so a branch
-- starts with what its parent had.
def checkFrom : ℕ → Uint256 → ℕ → FirstBlocks → Except Failure ℕ
  | 0, _, _, _ => .ok 0
  | n + 1, pindex, nHeight, first => do
    let first := s.firstBlocks index pindex first
    s.checkEntry index pindex nHeight first
    (forward index (some pindex)).foldlM (fun nNodes child => do
      let below ← checkFrom n child (nHeight + 1) first
      .ok (nNodes + below)) 1

def checkBlockIndex : Except Failure Unit :=
  if s.chainActive.vChain = [] then
    failIf (index.mapBlockIndex.length > 1) (.assertion "mapBlockIndex.size() <= 1")
  else
    match forward index none with
    | [pindex] => do
      let nNodes ← s.checkFrom index index.mapBlockIndex.length pindex 0 {}
      failIf (nNodes ≠ index.mapBlockIndex.length) (.assertion "nNodes == forward.size()")
    | _ => .error (.assertion "rangeGenesis.first == rangeGenesis.second")

end ChainState

end Qrax
