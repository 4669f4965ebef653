import Qrax.Chain.Chain

namespace Qrax

inductive BlockValidity
  | UNKNOWN
  | HEADER
  | TREE
  | TRANSACTIONS
  | CHAIN
  | SCRIPTS
  deriving DecidableEq, Repr

def BlockValidity.toNat : BlockValidity → ℕ
  | UNKNOWN => 0
  | HEADER => 1
  | TREE => 2
  | TRANSACTIONS => 3
  | CHAIN => 4
  | SCRIPTS => 5

-- What validation changes of `nStatus`: the stage and the two marks of failure.
structure BlockStatus where
  validity : BlockValidity := .UNKNOWN
  failedValid : Bool := false
  failedChild : Bool := false
  deriving DecidableEq, Repr

namespace BlockStatus

variable (nStatus : BlockStatus) (nUpTo : BlockValidity)

-- `nStatus & BLOCK_FAILED_MASK`
def failed : Bool :=
  nStatus.failedValid || nStatus.failedChild

-- `(nStatus & BLOCK_VALID_MASK) >= nUpTo`
def reached : Bool :=
  nUpTo.toNat ≤ nStatus.validity.toNat

def isValid : Bool :=
  !nStatus.failed && nStatus.reached nUpTo

def raiseValidity : BlockStatus :=
  if nStatus.failed then nStatus
  else if nStatus.reached nUpTo then nStatus
  else { nStatus with validity := nUpTo }

end BlockStatus

-- `haveData` is `BLOCK_HAVE_DATA` of `nStatus`, `address` the place of an entry in memory.
structure BlockIndex extends BlockTree where
  hashGenesisBlock : Uint256
  address : Uint256 ↪ ℕ
  haveData : Uint256 → Bool := fun _ => false
  nTx : Uint256 → ℕ := fun _ => 0
  nChainTx : Uint256 → ℕ := fun _ => 0
  nSequenceId : Uint256 → ℕ := fun _ => 0

namespace BlockIndex

variable (index : BlockIndex)

-- `CBlockIndexWorkComparator`: the first entry is worse.
def workComparator (pa pb : Uint256) : Bool :=
  if index.nChainWork pa > index.nChainWork pb then false
  else if index.nChainWork pa < index.nChainWork pb then true
  else if index.nSequenceId pa < index.nSequenceId pb then false
  else if index.nSequenceId pa > index.nSequenceId pb then true
  else if index.address pa < index.address pb then false
  else if index.address pa > index.address pb then true
  else false

def greatest : List Uint256 → Option Uint256
  | [] => none
  | b :: bs =>
    match greatest bs with
    | none => some b
    | some a => if index.workComparator a b then some b else some a

end BlockIndex

end Qrax
