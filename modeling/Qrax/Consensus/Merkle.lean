import Qrax.Basic

namespace Qrax

variable [Crypto]

def merkleHash (left right : Uint256) : Uint256 :=
  hash256 (Uint256.bytes left ++ Uint256.bytes right)

namespace MerkleComputation

-- The loop over the low zero bits of `count`: each belongs to an earlier hash. `level` stays within the 32 hashes.
def climb (count : ℕ) (inner : ℕ → Uint256) :
    (fuel : ℕ) → ℕ → Uint256 → Bool → ℕ × Uint256 × Bool
  | 0, level, h, mutated => (level, h, mutated)
  | fuel + 1, level, h, mutated =>
    if count.testBit level then (level, h, mutated)
    else
      climb count inner fuel (level + 1) (merkleHash (inner level) h) (mutated || inner level == h)

structure State where
  count : ℕ := 0
  inner : ℕ → Uint256 := fun _ => 0
  mutated : Bool := false

def addLeaf (s : State) (leaf : Uint256) : State :=
  let count := s.count + 1
  let (level, h, mutated) := climb count s.inner 32 0 leaf s.mutated
  { count, inner := Function.update s.inner level h, mutated }

def skipZeros (count : ℕ) : (fuel : ℕ) → ℕ → ℕ
  | 0, level => level
  | fuel + 1, level => if count.testBit level then level else skipZeros count fuel (level + 1)

-- The sweep over the rightmost branch, its two nested loops as one: a hash without a partner is combined with itself,
-- as one more entry of its level.
def sweep (inner : ℕ → Uint256) : (fuel : ℕ) → ℕ → ℕ → Uint256 → Uint256
  | 0, _, _, h => h
  | fuel + 1, count, level, h =>
    if count = 2 ^ level then h
    else if count.testBit level then
      sweep inner fuel (count + 2 ^ level) (level + 1) (merkleHash h h)
    else sweep inner fuel count (level + 1) (merkleHash (inner level) h)

end MerkleComputation

open MerkleComputation in
def computeMerkleRoot (leaves : List Uint256) : Uint256 × Bool :=
  if leaves.isEmpty then (0, false)
  else
    let s := leaves.foldl addLeaf {}
    let level := skipZeros s.count 32 0
    (sweep s.inner (32 - level) s.count level (s.inner level), s.mutated)

end Qrax
