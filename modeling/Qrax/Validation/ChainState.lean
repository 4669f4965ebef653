import Qrax.Chain.BlockIndex

open Fallible

namespace Qrax

structure ChainState where
  nStatus : Uint256 → BlockStatus := fun _ => {}
  chainActive : CChain := {}
  setBlockIndexCandidates : List Uint256 := []
  mapBlocksUnlinked : List (Option Uint256 × Uint256) := []
  pindexBestInvalid : Option Uint256 := none

namespace ChainState

variable (index : BlockIndex) (s : ChainState)

def setStatus (b : Uint256) (nStatus : BlockStatus) : ChainState :=
  { s with nStatus := Function.update s.nStatus b nStatus }

def markFailedValid (b : Uint256) : ChainState :=
  s.setStatus b { s.nStatus b with failedValid := true }

def markFailedChild (b : Uint256) : ChainState :=
  s.setStatus b { s.nStatus b with failedChild := true }

def clearFailed (b : Uint256) : ChainState :=
  s.setStatus b { s.nStatus b with failedValid := false, failedChild := false }

def eraseCandidate (b : Uint256) : ChainState :=
  { s with setBlockIndexCandidates := s.setBlockIndexCandidates.filter (· ≠ b) }

def insertCandidate (b : Uint256) : ChainState :=
  { s with setBlockIndexCandidates := s.setBlockIndexCandidates.insert b }

-- `value_comp()(pindex, chainActive.Tip())`
def worseThanTip (b : Uint256) : Bool :=
  s.chainActive.tip.any (index.workComparator b)

def noteInvalid (pindexNew : Uint256) : ChainState :=
  if s.pindexBestInvalid.all (index.nChainWork pindexNew > index.nChainWork ·) then
    { s with pindexBestInvalid := some pindexNew }
  else s

def invalidChainFound (pindexNew : Uint256) : Except Failure ChainState := do
  failIf (s.chainActive.tip = none) (.assertion "pChainTip")
  .ok (s.noteInvalid index pindexNew)

def invalidBlockFound (pindex : Uint256) : Except Failure ChainState :=
  ((s.markFailedValid pindex).eraseCandidate pindex).invalidChainFound index pindex

def firstUnusable : ℕ → Option Uint256 → Except Failure (Option Uint256)
  | n + 1, some pindexTest =>
    if s.chainActive.contains index.toBlockTree pindexTest then .ok none
    else do
      failIf (index.nChainTx pindexTest = 0 ∧ index.nHeight pindexTest ≠ 0)
        (.assertion "pindexTest->nChainTx || pindexTest->nHeight == 0")
      if (s.nStatus pindexTest).failed || !index.haveData pindexTest then .ok (some pindexTest)
      else firstUnusable n (index.pprev pindexTest)
  | _, _ => .ok none

-- The blocks from `pindexFailed` down to `pindexTest` leave the set, the last unmarked.
def removeChain (fFailedChain : Bool) (pindexTest : Uint256) : ℕ → Uint256 → ChainState → ChainState
  | n + 1, pindexFailed, s =>
    if pindexTest ≠ pindexFailed then
      let s :=
        if fFailedChain then s.markFailedChild pindexFailed
        else { s with mapBlocksUnlinked := s.mapBlocksUnlinked ++ [(index.pprev pindexFailed, pindexFailed)] }
      let s := s.eraseCandidate pindexFailed
      (index.pprev pindexFailed).elim s fun pindexFailed => removeChain fFailedChain pindexTest n pindexFailed s
    else s
  | 0, _, s => s

def mostWorkLoop : ℕ → ChainState → Except Failure (Option Uint256 × ChainState)
  | n + 1, s =>
    match index.greatest s.setBlockIndexCandidates with
    | none => .ok (none, s)
    | some pindexNew => do
      match ← s.firstUnusable index (index.nHeight pindexNew + 1) (some pindexNew) with
      | none => .ok (some pindexNew, s)
      | some pindexTest =>
        let fFailedChain := (s.nStatus pindexTest).failed
        let s := if fFailedChain then s.noteInvalid index pindexNew else s
        let s := removeChain index fFailedChain pindexTest (index.nHeight pindexNew + 1) pindexNew s
        mostWorkLoop n (s.eraseCandidate pindexTest)
  | 0, s => .ok (none, s)

def findMostWorkChain : Except Failure (Option Uint256 × ChainState) :=
  mostWorkLoop index (s.setBlockIndexCandidates.length + 1) s

-- The set is ordered, so the loop meets all that are worse than the tip.
def pruneBlockIndexCandidates : Except Failure ChainState := do
  let s := { s with setBlockIndexCandidates := s.setBlockIndexCandidates.filter (!s.worseThanTip index ·) }
  failIf (s.setBlockIndexCandidates = []) (.assertion "!setBlockIndexCandidates.empty()")
  .ok s

-- The genesis block has no undo data, so `DisconnectBlock` fails for it.
def disconnectTip : Except Failure ChainState := do
  match s.chainActive.tip with
  | none => .error (.assertion "pindexDelete")
  | some pindexDelete =>
    match index.pprev pindexDelete with
    | none => .error .refused
    | some p => .ok { s with chainActive := s.chainActive.setTip index.toBlockTree (some p) }

def disconnectTo (pindexFork : Option Uint256) : ℕ → ChainState → Except Failure ChainState
  | n + 1, s =>
    if s.chainActive.tip ≠ none ∧ s.chainActive.tip ≠ pindexFork then do
      disconnectTo pindexFork n (← s.disconnectTip index)
    else .ok s
  | 0, s => .ok s

-- `ConnectBlock` raises every block but the genesis block, where it returns early.
def connectTip (connectBlock : Uint256 → Bool) (pindexNew : Uint256) : Except Failure (ChainState × Bool) := do
  failIf (index.pprev pindexNew ≠ s.chainActive.tip) (.assertion "pindexNew->pprev == chainActive.Tip()")
  if connectBlock pindexNew then
    let s :=
      if pindexNew = index.hashGenesisBlock then s
      else s.setStatus pindexNew ((s.nStatus pindexNew).raiseValidity .SCRIPTS)
    .ok ({ s with chainActive := s.chainActive.setTip index.toBlockTree (some pindexNew) }, true)
  else do
    let s ← s.invalidBlockFound index pindexNew
    .ok (s, false)

-- How far `ActivateBestChainStep` came. `invalid` is the block that set `fInvalidFound`.
structure Step where
  state : ChainState
  fContinue : Bool := true
  invalid : Option Uint256 := none

def connectBlocks (connectBlock : Uint256 → Bool) (pindexOldTip : Option Uint256) (front : Uint256) :
    List Uint256 → ChainState → Except Failure Step
  | [], s => .ok { state := s }
  | pindexConnect :: blocks, s => do
    let (s, connected) ← s.connectTip index connectBlock pindexConnect
    if connected then
      let s ← s.pruneBlockIndexCandidates index
      if pindexOldTip.all (index.nChainWork pindexConnect > index.nChainWork ·) then
        .ok { state := s, fContinue := false }
      else connectBlocks connectBlock pindexOldTip front blocks s
    else
      let s ← s.invalidChainFound index front
      .ok { state := s, fContinue := false, invalid := some pindexConnect }

def blocksToConnect (nHeight : ℤ) : ℕ → Option Uint256 → List Uint256
  | n + 1, some pindexIter =>
    if index.nHeight pindexIter ≠ nHeight then pindexIter :: blocksToConnect nHeight n (index.pprev pindexIter)
    else []
  | _, _ => []

def connectTowards (connectBlock : Uint256 → Bool) (pindexOldTip : Option Uint256) (pindexMostWork : Uint256) :
    ℕ → ℤ → ChainState → Except Failure Step
  | n + 1, nHeight, s =>
    if nHeight ≠ index.nHeight pindexMostWork then do
      let nTargetHeight := min (nHeight + 32) (index.nHeight pindexMostWork)
      let pindexIter := index.getAncestor pindexMostWork nTargetHeight.toNat
      let vpindexToConnect := blocksToConnect index nHeight (index.nHeight pindexMostWork + 1) pindexIter
      let step ← connectBlocks index connectBlock pindexOldTip (vpindexToConnect.headD pindexMostWork)
        vpindexToConnect.reverse s
      if step.fContinue then
        connectTowards connectBlock pindexOldTip pindexMostWork n nTargetHeight step.state
      else .ok step
    else .ok { state := s }
  | 0, _, s => .ok { state := s }

def activateBestChainStep (connectBlock : Uint256 → Bool) (pindexMostWork : Uint256) : Except Failure Step := do
  let pindexOldTip := s.chainActive.tip
  let pindexFork := s.chainActive.findFork index.toBlockTree pindexMostWork
  let s ← disconnectTo index pindexFork s.chainActive.vChain.length s
  let nHeight : ℤ := pindexFork.elim (-1) (index.nHeight ·)
  connectTowards index connectBlock pindexOldTip pindexMostWork (index.nHeight pindexMostWork + 2) nHeight s

-- The variables of the loops of `ActivateBestChain`. `attempts` lists what was found invalid, with the block that was
-- to become the tip.
structure Activation where
  state : ChainState
  pindexMostWork : Option Uint256 := none
  blocksConnected : Bool := false
  attempts : List (Uint256 × Uint256) := []

def Activation.choose (a : Activation) : Except Failure Activation :=
  match a.pindexMostWork with
  | some _ => .ok a
  | none => do
    let (pindexMostWork, s) ← a.state.findMostWorkChain index
    .ok { a with pindexMostWork, state := s }

-- The loop that keeps the lock, for at most `n` rounds, and nothing if these do not suffice.
def connectRounds (connectBlock : Uint256 → Bool) (startingTip : Option Uint256) :
    ℕ → Activation → Except Failure (Option Activation)
  | 0, _ => .ok none
  | n + 1, a => do
    let a ← a.choose index
    match a.pindexMostWork with
    | none => .ok (some a)
    | some pindexMostWork =>
      if a.state.chainActive.tip = some pindexMostWork then .ok (some a)
      else
        let step ← a.state.activateBestChainStep index connectBlock pindexMostWork
        let a : Activation := {
          state := step.state
          pindexMostWork := if step.invalid = none then some pindexMostWork else none
          blocksConnected := true
          attempts := step.invalid.elim a.attempts fun b => (pindexMostWork, b) :: a.attempts
        }
        if a.state.chainActive.tip.all fun tip => startingTip.any (index.workComparator tip) then
          connectRounds connectBlock startingTip n a
        else .ok (some a)

def activateRounds (connectBlock : Uint256 → Bool) (shutdownRequested : ℕ → Bool) :
    ℕ → ℕ → Activation → Except Failure (Option Activation)
  | 0, _, _ => .ok none
  | n + 1, round, a => do
    match ← connectRounds index connectBlock a.state.chainActive.tip n { a with blocksConnected := false } with
    | none => .ok none
    | some a =>
      if !a.blocksConnected then .ok (some a)
      else if shutdownRequested round then .ok (some a)
      else if a.pindexMostWork ≠ a.state.chainActive.tip then
        activateRounds connectBlock shutdownRequested n (round + 1) a
      else .ok (some a)

def activateBestChain (connectBlock : Uint256 → Bool) (shutdownRequested : ℕ → Bool) (n : ℕ) :
    Except Failure (Option Activation) :=
  activateRounds index connectBlock shutdownRequested n 0 { state := s }

def disconnectFailed (pindex : Uint256) : ℕ → ChainState → Except Failure ChainState
  | n + 1, s =>
    if s.chainActive.contains index.toBlockTree pindex then do
      let s := s.chainActive.tip.elim s fun pindexWalk => (s.markFailedChild pindexWalk).eraseCandidate pindexWalk
      disconnectFailed pindex n (← s.disconnectTip index)
    else .ok s
  | 0, s => .ok s

def readdCandidate (b : Uint256) : ChainState :=
  if (s.nStatus b).isValid .TRANSACTIONS && index.nChainTx b ≠ 0 && !s.worseThanTip index b then s.insertCandidate b
  else s

def invalidateBlock (pindex : Uint256) : Except Failure ChainState := do
  let s := (s.markFailedValid pindex).eraseCandidate pindex
  let s ← disconnectFailed index pindex s.chainActive.vChain.length s
  (index.mapBlockIndex.foldl (readdCandidate index) s).invalidChainFound index pindex

-- `value_comp()(chainActive.Tip(), pindex)`
def betterThanTip (b : Uint256) : Bool :=
  s.chainActive.tip.any (index.workComparator · b)

def reconsiderDescendant (pindex b : Uint256) : ChainState :=
  if !(s.nStatus b).isValid .TRANSACTIONS && index.getAncestor b (index.nHeight pindex) = some pindex then
    let s := s.clearFailed b
    let s :=
      if (s.nStatus b).isValid .TRANSACTIONS && index.nChainTx b ≠ 0 && s.betterThanTip index b then
        s.insertCandidate b
      else s
    if s.pindexBestInvalid = some b then { s with pindexBestInvalid := none } else s
  else s

def reconsiderAncestors : ℕ → Option Uint256 → ChainState → ChainState
  | n + 1, some pindex, s =>
    let s := if (s.nStatus pindex).failed then s.clearFailed pindex else s
    reconsiderAncestors n (index.pprev pindex) s
  | _, _, s => s

def reconsiderBlock (pindex : Uint256) : ChainState :=
  let s := index.mapBlockIndex.foldl (fun s b => s.reconsiderDescendant index pindex b) s
  reconsiderAncestors index (index.nHeight pindex + 1) (some pindex) s

end ChainState

end Qrax
