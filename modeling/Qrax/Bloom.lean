import Qrax.Basic

namespace Qrax

-- Cells of 16 entries with two bits each.
abbrev BloomData := List (BitVec 32)

namespace BloomData

def get (data : BloomData) (position : ℕ) : ℕ :=
  (data.getD ((position >>> 4) % data.length) 0 >>> (2 * (position &&& 0xf)) &&& 3#32).toNat

def put (data : BloomData) (position val : ℕ) : BloomData :=
  data.modify ((position >>> 4) % data.length) fun cell =>
    cell &&& ~~~(3#32 <<< (2 * (position &&& 0xf))) ||| BitVec.ofNat 32 val <<< (2 * (position &&& 0xf))

end BloomData

-- `hash` is `MurmurHash3`.
structure CRollingBloomFilter where
  nEntriesPerGeneration : ℕ
  nEntriesThisGeneration : ℕ := 0
  nGeneration : ℕ := 1
  data : BloomData
  nTweak : UInt32
  nHashFuncs : ℕ
  hash : UInt32 → Bytes → UInt32

namespace CRollingBloomFilter

-- The constructor, with what it computes in floating point.
def new (nElements : UInt32) (nHashFuncs size : ℕ) (nTweak : UInt32) (hash : UInt32 → Bytes → UInt32) :
    CRollingBloomFilter where
  nEntriesPerGeneration := ((nElements + 1) / 2).toNat
  data := List.replicate size 0
  nTweak
  nHashFuncs
  hash

variable (filter : CRollingBloomFilter)

def position (nHashNum : ℕ) (vKey : Bytes) : ℕ :=
  (filter.hash (UInt32.ofNat nHashNum * 0xFBA4C795 + filter.nTweak) vKey).toNat % (filter.data.length * 16)

def nextGeneration : CRollingBloomFilter :=
  let nGeneration := if filter.nGeneration + 1 = 4 then 1 else filter.nGeneration + 1
  { filter with
    nEntriesThisGeneration := 0
    nGeneration
    data := (List.range (filter.data.length * 16)).foldl
      (fun data p => if data.get p = nGeneration then data.put p 0 else data) filter.data }

def mark (vKey : Bytes) : CRollingBloomFilter :=
  { filter with
    nEntriesThisGeneration := filter.nEntriesThisGeneration + 1
    data := (List.range filter.nHashFuncs).foldl
      (fun data n => data.put (filter.position n vKey) filter.nGeneration) filter.data }

def insert (vKey : Bytes) : CRollingBloomFilter :=
  (if filter.nEntriesThisGeneration = filter.nEntriesPerGeneration then filter.nextGeneration else filter).mark vKey

def contains (vKey : Bytes) : Bool :=
  (List.range filter.nHashFuncs).all fun n => filter.data.get (filter.position n vKey) ≠ 0

end CRollingBloomFilter

end Qrax
