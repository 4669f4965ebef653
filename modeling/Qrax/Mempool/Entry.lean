import Qrax.Lib.KeyedUpdate
import Qrax.Lib.UniqueList
import Qrax.Primitives.Serialize

open KeyedUpdate

namespace Qrax

-- The totals wrap around, as the amounts do.
instance addCommGroupInt64 : AddCommGroup Int64 where
  add_assoc := Int64.add_assoc
  zero_add := Int64.zero_add
  add_zero := Int64.add_zero
  add_comm := Int64.add_comm
  neg_add_cancel := Int64.add_left_neg
  sub_eq_add_neg := Int64.sub_eq_add_neg
  nsmul := nsmulRec
  zsmul := zsmulRec

-- An entry of the pool, without its priority and memory.
structure CTxMemPoolEntry where
  tx : CTransaction
  nFee : CAmount
  nTxSize : UInt64
  nTime : ℤ
  spendsCoinbaseOrCoinstake : Bool
  sigOpCount : UInt32
  feeDelta : CAmount
  -- the transactions of the pool that depend on this one, with it
  nCountWithDescendants : UInt64
  nSizeWithDescendants : UInt64
  nModFeesWithDescendants : CAmount
  -- the transactions of the pool that this one depends on, with it
  nCountWithAncestors : UInt64
  nSizeWithAncestors : UInt64
  nModFeesWithAncestors : CAmount
  nSigOpCountWithAncestors : UInt32
  deriving DecidableEq

namespace CTxMemPoolEntry

def new (tx : CTransaction) (nFee : CAmount) (nTime : ℤ) (spendsCoinbaseOrCoinstake : Bool) (sigOps : UInt32) :
    CTxMemPoolEntry where
  tx := tx
  nFee := nFee
  nTxSize := .ofNat tx.getTotalSize
  nTime := nTime
  spendsCoinbaseOrCoinstake := spendsCoinbaseOrCoinstake
  sigOpCount := sigOps
  feeDelta := 0
  nCountWithDescendants := 1
  nSizeWithDescendants := .ofNat tx.getTotalSize
  nModFeesWithDescendants := nFee
  nCountWithAncestors := 1
  nSizeWithAncestors := .ofNat tx.getTotalSize
  nModFeesWithAncestors := nFee
  nSigOpCountWithAncestors := sigOps

variable (e : CTxMemPoolEntry)

def getModifiedFee : CAmount :=
  e.nFee + e.feeDelta

def isShielded : Bool :=
  e.tx.isShieldedTx

def updateFeeDelta (newFeeDelta : CAmount) : CTxMemPoolEntry := { e with
  nModFeesWithDescendants := e.nModFeesWithDescendants + (newFeeDelta - e.feeDelta)
  nModFeesWithAncestors := e.nModFeesWithAncestors + (newFeeDelta - e.feeDelta)
  feeDelta := newFeeDelta }

-- What is taken off is added as a two's complement.
def updateDescendantState (modifySize : UInt64) (modifyFee : CAmount) (modifyCount : UInt64) : CTxMemPoolEntry := { e with
  nSizeWithDescendants := e.nSizeWithDescendants + modifySize
  nModFeesWithDescendants := e.nModFeesWithDescendants + modifyFee
  nCountWithDescendants := e.nCountWithDescendants + modifyCount }

def updateAncestorState (modifySize : UInt64) (modifyFee : CAmount) (modifyCount : UInt64) (modifySigOps : UInt32) :
    CTxMemPoolEntry := { e with
  nSizeWithAncestors := e.nSizeWithAncestors + modifySize
  nModFeesWithAncestors := e.nModFeesWithAncestors + modifyFee
  nCountWithAncestors := e.nCountWithAncestors + modifyCount
  nSigOpCountWithAncestors := e.nSigOpCountWithAncestors + modifySigOps }

def parentHashes : List Uint256 :=
  e.tx.vin.map (·.prevout.hash)

end CTxMemPoolEntry

structure IndexedTransactionSet [Crypto] where
  entries : AList (fun _ : Uint256 => CTxMemPoolEntry) := ∅
  txid : ∀ {h e}, entries.lookup h = some e → e.tx.getHash = h := by intro _ _ found; cases found

namespace IndexedTransactionSet

variable [Crypto]

def find (m : IndexedTransactionSet) (h : Uint256) : Option CTxMemPoolEntry :=
  m.entries.lookup h

instance : Membership Uint256 IndexedTransactionSet where
  mem m h := (m.find h).isSome

instance (h : Uint256) (m : IndexedTransactionSet) : Decidable (h ∈ m) :=
  inferInstanceAs (Decidable ((m.find h).isSome = true))

def keys (m : IndexedTransactionSet) : List Uint256 :=
  m.entries.keys

def insert (m : IndexedTransactionSet) (e : CTxMemPoolEntry) : IndexedTransactionSet where
  entries := emplace m.entries e.tx.getHash e
  txid := by
    intro h e' found
    rw [lookup_emplace] at found
    split at found
    case isFalse => exact m.txid found
    case isTrue eq =>
      cases old : m.entries.lookup e.tx.getHash <;> rw [old] at found <;> cases found
      case none => exact eq.symm
      case some => exact (m.txid old).trans eq.symm

def modify (m : IndexedTransactionSet) (h : Uint256) (f : CTxMemPoolEntry → CTxMemPoolEntry)
    (keeps : ∀ e, (f e).tx = e.tx := by intro; rfl) : IndexedTransactionSet where
  entries :=
    match m.entries.lookup h with
    | some e => m.entries.insert h (f e)
    | none => m.entries
  txid := by
    intro h' e' found
    split at found
    case h_2 => exact m.txid found
    case h_1 e old =>
      rw [lookup_insert] at found
      split at found
      case isFalse => exact m.txid found
      case isTrue eq =>
        cases found
        rw [keeps, eq]
        exact m.txid old

def erase (m : IndexedTransactionSet) (h : Uint256) : IndexedTransactionSet where
  entries := m.entries.erase h
  txid := by
    intro h' e' found
    rw [lookup_erase] at found
    split at found
    case isTrue => cases found
    case isFalse => exact m.txid found

variable {m : IndexedTransactionSet} {h : Uint256}

theorem mem_iff : h ∈ m ↔ ∃ e, m.find h = some e :=
  Option.isSome_iff_exists

theorem mem_keys : h ∈ m.keys ↔ h ∈ m := by
  rw [keys, ← AList.mem_keys, ← AList.lookup_isSome]
  rfl

theorem find_insert (m : IndexedTransactionSet) (e : CTxMemPoolEntry) (h : Uint256) :
    (m.insert e).find h = if h = e.tx.getHash then some ((m.find e.tx.getHash).getD e) else m.find h :=
  lookup_emplace ..

theorem find_modify (m : IndexedTransactionSet) (h h' : Uint256) (f : CTxMemPoolEntry → CTxMemPoolEntry)
    (keeps : ∀ e, (f e).tx = e.tx) : (m.modify h f keeps).find h' = if h' = h then (m.find h).map f else m.find h' := by
  simp only [find, modify]
  cases old : m.entries.lookup h
  case some e => simp [lookup_insert]
  case none =>
    by_cases eq : h' = h
    case pos => simpa [eq] using eq ▸ old
    case neg => simp [eq]

theorem find_erase (m : IndexedTransactionSet) (h h' : Uint256) :
    (m.erase h).find h' = if h' = h then none else m.find h' :=
  lookup_erase ..

end IndexedTransactionSet

end Qrax
