import Qrax.Coins.View
import Qrax.Consensus.Merkle

namespace Qrax

-- What a peer sends of the tree of a block. `fBad` is false when received.
structure CPartialMerkleTree where
  nTransactions : UInt32
  vBits : List Bool
  vHash : List Uint256

namespace CPartialMerkleTree

structure Traversal where
  nBitsUsed : ℕ := 0
  nHashUsed : ℕ := 0
  vMatch : List Uint256 := []
  fBad : Bool := false

variable (t : CPartialMerkleTree)

-- In 32 bits too, for the sizes that `ExtractMatches` lets pass.
def calcTreeWidth (height : ℕ) : ℕ :=
  (t.nTransactions.toNat + 2 ^ height - 1) >>> height

def calcHeight : (fuel : ℕ) → (nHeight : ℕ) → ℕ
  | 0, nHeight => nHeight
  | fuel + 1, nHeight => if t.calcTreeWidth nHeight > 1 then calcHeight fuel (nHeight + 1) else nHeight

def useHash (matched : Bool) (s : Traversal) : Uint256 × Traversal :=
  match t.vHash[s.nHashUsed]? with
  | none => (0, { s with fBad := true })
  | some hash =>
    (hash, { s with nHashUsed := s.nHashUsed + 1, vMatch := if matched then s.vMatch ++ [hash] else s.vMatch })

def traverseAndExtract [Crypto] : (height pos : ℕ) → Traversal → Uint256 × Traversal
  | 0, _, s =>
    match t.vBits[s.nBitsUsed]? with
    | none => (0, { s with fBad := true })
    | some fParentOfMatch => t.useHash fParentOfMatch { s with nBitsUsed := s.nBitsUsed + 1 }
  | height + 1, pos, s =>
    match t.vBits[s.nBitsUsed]? with
    | none => (0, { s with fBad := true })
    | some false => t.useHash false { s with nBitsUsed := s.nBitsUsed + 1 }
    | some true =>
      let (left, s) := traverseAndExtract height (pos * 2) { s with nBitsUsed := s.nBitsUsed + 1 }
      if pos * 2 + 1 < t.calcTreeWidth height then
        let (right, s) := traverseAndExtract height (pos * 2 + 1) s
        (merkleHash left right, s)
      else (merkleHash left left, s)

-- The root, or 0 for a failure, and `vMatch`, which a failure does not empty.
def extractMatches [Crypto] : Uint256 × List Uint256 :=
  if t.nTransactions = 0 then (0, [])
  else if t.nTransactions.toNat > MAX_BLOCK_SIZE_CURRENT / 60 then (0, [])
  else if t.vHash.length > t.nTransactions.toNat then (0, [])
  else if t.vBits.length < t.vHash.length then (0, [])
  else
    let (hashMerkleRoot, s) := t.traverseAndExtract (t.calcHeight 32 0) 0 {}
    if s.fBad then (0, s.vMatch)
    else if (s.nBitsUsed + 7) / 8 ≠ (t.vBits.length + 7) / 8 then (0, s.vMatch)
    else if s.nHashUsed ≠ t.vHash.length then (0, s.vMatch)
    else (hashMerkleRoot, s.vMatch)

end CPartialMerkleTree

end Qrax
