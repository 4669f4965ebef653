import Qrax.Failure

namespace Qrax

def SAPLING_INCREMENTAL_MERKLE_TREE_DEPTH : ℕ := 32

-- The frontier of the commitment tree: the last pair of leaves, and the completed left subtrees ordered toward the
-- root.
structure SaplingMerkleTree where
  left : Option Uint256 := none
  right : Option Uint256 := none
  parents : List (Option Uint256) := []
  deriving DecidableEq

namespace SaplingMerkleTree

def dynamicMemoryUsage (t : SaplingMerkleTree) : ℕ :=
  32 + 32 + t.parents.length * 32

def isComplete (t : SaplingMerkleTree) (depth : ℕ) : Bool :=
  t.left.isSome && t.right.isSome && t.parents.length == depth - 1 && t.parents.all Option.isSome

-- `1 << (i+1)` is an `int`.
def parentsSize : (i : ℕ) → List (Option Uint256) → ℤ
  | _, [] => 0
  | i, p :: ps => (if p.isSome then Int.bmod (2 ^ (i + 1)) (2 ^ 32) else 0) + parentsSize (i + 1) ps

-- A `size_t` has 64 bits.
def size (t : SaplingMerkleTree) : ℕ :=
  let ret : ℤ := (if t.left.isSome then 1 else 0) + if t.right.isSome then 1 else 0
  ((ret + parentsSize 0 t.parents) % 2 ^ 64).toNat

variable [Crypto]

def propagate (i : ℕ) (combined : Uint256) : List (Option Uint256) → List (Option Uint256)
  | [] => [some combined]
  | none :: ps => some combined :: ps
  | some p :: ps => none :: propagate (i + 1) (Crypto.pedersenCombine p combined (i + 1)) ps

def append (t : SaplingMerkleTree) (obj : Uint256) : Except Failure SaplingMerkleTree :=
  if t.isComplete SAPLING_INCREMENTAL_MERKLE_TREE_DEPTH then
    .error (.runtimeError "tree is full")
  else
    match t.left, t.right with
    | none, _ => .ok { t with left := some obj }
    | some _, none => .ok { t with right := some obj }
    | some l, some r => .ok {
        left := some obj
        right := none
        parents := propagate 0 (Crypto.pedersenCombine l r 0) t.parents
      }

def climb (root : Uint256) (d : ℕ) : List (Option Uint256) → Uint256 × ℕ
  | [] => (root, d)
  | some p :: ps => climb (Crypto.pedersenCombine p root d) (d + 1) ps
  | none :: ps => climb (Crypto.pedersenCombine root (Crypto.pedersenEmptyRoot d) d) (d + 1) ps

def fill (root : Uint256) (d : ℕ) : ℕ → Uint256
  | 0 => root
  | gap + 1 => fill (Crypto.pedersenCombine root (Crypto.pedersenEmptyRoot d) d) (d + 1) gap

def root (t : SaplingMerkleTree) : Uint256 :=
  let combineLeft := t.left.getD (Crypto.pedersenEmptyRoot 0)
  let combineRight := t.right.getD (Crypto.pedersenEmptyRoot 0)
  let (r, d) := climb (Crypto.pedersenCombine combineLeft combineRight 0) 1 t.parents
  fill r d (SAPLING_INCREMENTAL_MERKLE_TREE_DEPTH - d)

def emptyRoot : Uint256 :=
  Crypto.pedersenEmptyRoot SAPLING_INCREMENTAL_MERKLE_TREE_DEPTH

theorem root_of_combine {P : Uint256 → Prop} (h : ∀ l r d, P (Crypto.pedersenCombine l r d)) (t : SaplingMerkleTree) :
    P t.root := by
  have climbed (root : Uint256) (d : ℕ) (ps : List (Option Uint256)) (hr : P root) : P (climb root d ps).1 := by
    induction ps generalizing root d
    case nil => exact hr
    case cons p ps ih =>
      cases p
      case none => exact ih _ _ (h ..)
      case some p => exact ih _ _ (h ..)
  have filled (root : Uint256) (d gap : ℕ) (hr : P root) : P (fill root d gap) := by
    induction gap generalizing root d
    case zero => exact hr
    case succ gap ih => exact ih _ _ (h ..)
  exact filled _ _ _ (climbed _ _ _ (h ..))

end SaplingMerkleTree

structure SaplingWitness where
  tree : SaplingMerkleTree

def SaplingMerkleTree.witness (t : SaplingMerkleTree) : SaplingWitness :=
  { tree := t }

def SaplingWitness.position (w : SaplingWitness) : ℕ :=
  ((w.tree.size - 1 : ℤ) % 2 ^ 64).toNat

end Qrax
