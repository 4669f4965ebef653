import Qrax.Failure
import Qrax.Lib.Forest

open Fallible

namespace Qrax

def invertLowestOne (n : ℕ) : ℕ :=
  n &&& (n - 1)

def getSkipHeight (height : ℕ) : ℕ :=
  if height < 2 then 0
  else if height % 2 = 1 then invertLowestOne (invertLowestOne (height - 1)) + 1
  else invertLowestOne height

-- The fixed part of the block index. An entry is named by its hash, and no other hash has a parent or is one. Every
-- header but the genesis block passes `CheckWork`, so it adds work.
structure BlockTree where
  mapBlockIndex : List Uint256
  pprev : Uint256 → Option Uint256
  pskip : Uint256 → Option Uint256
  nHeight : Uint256 → ℕ
  nChainWork : Uint256 → ℕ
  nodup : mapBlockIndex.Nodup
  graded : Forest.Graded pprev nHeight
  closed : ∀ {b p}, pprev b = some p → b ∈ mapBlockIndex ∧ p ∈ mapBlockIndex
  works : ∀ {b p}, pprev b = some p → nChainWork p < nChainWork b
  skips : ∀ {b p}, pprev b = some p →
    ∃ a, pskip b = some a ∧ Forest.Anc pprev a b ∧ nHeight a = getSkipHeight (nHeight b)

namespace BlockTree

variable (tree : BlockTree)

def walkBack (height : ℕ) : ℕ → (pindexWalk : Uint256) → (heightWalk : ℕ) → Option Uint256
  | 0, pindexWalk, _ => some pindexWalk
  | n + 1, pindexWalk, heightWalk =>
    if heightWalk > height then
      let heightSkip := getSkipHeight heightWalk
      let heightSkipPrev := getSkipHeight (heightWalk - 1)
      if heightSkip = height ∨
          (heightSkip > height ∧ ¬(heightSkipPrev < heightSkip - 2 ∧ heightSkipPrev ≥ height)) then
        (tree.pskip pindexWalk).bind fun pindexWalk => walkBack height n pindexWalk heightSkip
      else
        (tree.pprev pindexWalk).bind fun pindexWalk => walkBack height n pindexWalk (heightWalk - 1)
    else some pindexWalk

def getAncestor (pindex : Uint256) (height : ℕ) : Option Uint256 :=
  if height > tree.nHeight pindex then none
  else tree.walkBack height (tree.nHeight pindex) pindex (tree.nHeight pindex)

def getAncestorInt (pindex : Uint256) (height : ℤ) : Option Uint256 :=
  if height > tree.nHeight pindex ∨ height < 0 then none else tree.getAncestor pindex height.toNat

def lockstep : ℕ → Option Uint256 → Option Uint256 → Option Uint256 × Option Uint256
  | n + 1, some pa, some pb =>
    if pa ≠ pb then lockstep n (tree.pprev pa) (tree.pprev pb) else (some pa, some pb)
  | _, pa, pb => (pa, pb)

def lastCommonAncestor (pa pb : Uint256) : Except Failure (Option Uint256) := do
  let pa' := if tree.nHeight pa > tree.nHeight pb then tree.getAncestor pa (tree.nHeight pb) else some pa
  let pb' := if tree.nHeight pb > tree.nHeight pa then tree.getAncestor pb (tree.nHeight pa) else some pb
  let (pa, pb) := tree.lockstep (min (tree.nHeight pa) (tree.nHeight pb) + 1) pa' pb'
  failIf (pa ≠ pb) (.assertion "pa == pb")
  .ok pa

end BlockTree

-- `CChain`: the entry at each height, as pointers.
structure CChain where
  vChain : List (Option Uint256) := []
  deriving DecidableEq

namespace CChain

variable (tree : BlockTree) (chain : CChain)

def genesis : Option Uint256 :=
  chain.vChain.head?.join

def tip : Option Uint256 :=
  chain.vChain.getLast?.join

def at' (nHeight : ℕ) : Option Uint256 :=
  (chain.vChain[nHeight]?).join

def contains (pindex : Uint256) : Bool :=
  chain.at' (tree.nHeight pindex) == some pindex

def fill : ℕ → List (Option Uint256) → Option Uint256 → List (Option Uint256)
  | n + 1, vChain, some pindex =>
    if (vChain[tree.nHeight pindex]?).join ≠ some pindex then
      fill n (vChain.set (tree.nHeight pindex) (some pindex)) (tree.pprev pindex)
    else vChain
  | _, vChain, _ => vChain

def setTip : Option Uint256 → CChain
  | none => { vChain := [] }
  | some pindex =>
    let size := tree.nHeight pindex + 1
    { vChain := fill tree size (chain.vChain.takeD size none) (some pindex) }

def lastContained : ℕ → Option Uint256 → Option Uint256
  | n + 1, some pindex => if chain.contains tree pindex then some pindex else lastContained n (tree.pprev pindex)
  | _, pindex => pindex

-- `Height()` is the size less one: -1 without blocks, where there is no ancestor.
def findFork (pindex : Uint256) : Option Uint256 :=
  let size := chain.vChain.length
  let start :=
    if tree.nHeight pindex + 1 > size then (if size = 0 then none else tree.getAncestor pindex (size - 1))
    else some pindex
  chain.lastContained tree (tree.nHeight pindex + 1) start

-- The loop of `GetLocator`, with the size of `vHave`.
def locate : ℕ → (nStep size : ℕ) → Option Uint256 → List Uint256
  | n + 1, nStep, size, some pindex =>
    if tree.nHeight pindex = 0 then [pindex]
    else
      let nHeight := tree.nHeight pindex - nStep
      let next := if chain.contains tree pindex then chain.at' nHeight else tree.getAncestor pindex nHeight
      pindex :: locate n (if size + 1 > 10 then nStep * 2 else nStep) (size + 1) next
  | _, _, _, _ => []

def getLocator (pindex : Option Uint256) : List Uint256 :=
  let pindex := pindex.or chain.tip
  chain.locate tree (pindex.elim 0 tree.nHeight + 1) 1 0 pindex

def findForkInGlobalIndex (vHave : List Uint256) : Option Uint256 :=
  (vHave.find? fun hash => hash ∈ tree.mapBlockIndex && chain.contains tree hash).or chain.genesis

end CChain

end Qrax
