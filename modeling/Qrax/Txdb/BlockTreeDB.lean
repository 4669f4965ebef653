import Qrax.Failure
import Qrax.Lib.OrderedStore
import Qrax.Txdb.SpentIndex

open ByteOrder

namespace Qrax

def DB_ADDRESSINDEX : UInt8 := 0x61
def DB_ADDRESSDELEGATIONINDEX : UInt8 := 0x64
def DB_ADDRESSDELEGATIONUNSPENTINDEX : UInt8 := 0x44
def DB_ADDRESSUNSPENTINDEX : UInt8 := 0x75
def DB_SPENTINDEX : UInt8 := 0x70
def DB_ADDRESSIDENTINDEX : UInt8 := 0x69
def DB_SUPPLYINDEX : UInt8 := 0x73

def indexBytes : List UInt8 :=
  [DB_ADDRESSINDEX, DB_ADDRESSDELEGATIONINDEX, DB_ADDRESSDELEGATIONUNSPENTINDEX, DB_ADDRESSUNSPENTINDEX, DB_SPENTINDEX,
    DB_ADDRESSIDENTINDEX, DB_SUPPLYINDEX]

-- The first byte of a key is the kind of record. Records of no index (block files, the block index, flags) are bytes.
inductive DBKey
  | addressIndex (key : CAddressIndexKey)
  | addressDelegationIndex (key : CAddressDelegationIndexKey)
  | addressDelegationUnspentIndex (key : CAddressDelegationUnspentKey)
  | addressUnspentIndex (key : CAddressUnspentKey)
  | spentIndex (key : CSpentIndexKey)
  | addressIdentIndex (key : CAddressIndexIteratorKey)
  | supplyIndex (key : CSupplyIndexKey)
  | other (first : { b : UInt8 // b ∉ indexBytes }) (rest : Bytes)
  deriving DecidableEq

inductive DBValue
  | amount (satoshis : CAmount)
  | unspent (value : CAddressUnspentValue)
  | spent (value : CSpentIndexValue)
  | owner (value : CAddressOwnerIdentificator)
  | other (value : Bytes)
  deriving DecidableEq

namespace DBKey

def serialize : DBKey → Bytes
  | addressIndex key => DB_ADDRESSINDEX :: key.serialize
  | addressDelegationIndex key => DB_ADDRESSDELEGATIONINDEX :: key.serialize
  | addressDelegationUnspentIndex key => DB_ADDRESSDELEGATIONUNSPENTINDEX :: key.serialize
  | addressUnspentIndex key => DB_ADDRESSUNSPENTINDEX :: key.serialize
  | spentIndex key => DB_SPENTINDEX :: key.serialize
  | addressIdentIndex key => DB_ADDRESSIDENTINDEX :: key.serialize
  | supplyIndex key => DB_SUPPLYINDEX :: key.serialize
  | other first rest => first.val :: rest

theorem other_ne (first : { b : UInt8 // b ∉ indexBytes }) {b : UInt8} (h : b ∈ indexBytes) : first.val ≠ b :=
  fun eq => first.property (eq ▸ h)

theorem serialize_injective : Function.Injective serialize := by
  intro k k' h
  cases k <;> cases k' <;> have ⟨first, rest⟩ := List.cons.inj h
  case addressIndex.addressIndex => exact congrArg _ (CAddressIndexKey.serialize_injective rest)
  case addressDelegationIndex.addressDelegationIndex =>
    exact congrArg _ (CAddressDelegationIndexKey.serialize_injective rest)
  case addressDelegationUnspentIndex.addressDelegationUnspentIndex =>
    exact congrArg _ (CAddressDelegationUnspentKey.serialize_injective rest)
  case addressUnspentIndex.addressUnspentIndex => exact congrArg _ (CAddressUnspentKey.serialize_injective rest)
  case spentIndex.spentIndex => exact congrArg _ (CSpentIndexKey.serialize_injective rest)
  case addressIdentIndex.addressIdentIndex => exact congrArg _ (CAddressIndexIteratorKey.serialize_injective rest)
  case supplyIndex.supplyIndex => exact congrArg _ (CSupplyIndexKey.serialize_injective rest)
  case other.other => rw [Subtype.ext first, rest]
  -- The first bytes tell records of different kinds apart.
  all_goals first
    | exact absurd first (by decide)
    | exact absurd first (other_ne _ (by decide))
    | exact absurd first.symm (other_ne _ (by decide))

def rank (k : DBKey) : List ℕ :=
  ByteOrder.rank k.serialize

theorem rank_injective : Function.Injective rank :=
  ByteOrder.rank_injective.comp serialize_injective

def stores : DBKey → DBValue → Bool
  | addressIndex _, .amount _ => true
  | addressDelegationIndex _, .amount _ => true
  | addressDelegationUnspentIndex _, .unspent _ => true
  | addressUnspentIndex _, .unspent _ => true
  | spentIndex _, .spent _ => true
  | addressIdentIndex _, .owner _ => true
  | supplyIndex _, .amount _ => true
  | other _ _, .other _ => true
  | _, _ => false

end DBKey

-- Puts a value of the right kind under a key, or erases it.
structure DBWrite where
  key : DBKey
  value : Option DBValue
  typed : ∀ v ∈ value, key.stores v

namespace DBWrite

def addressIndex (key : CAddressIndexKey) (value : Option CAmount) : DBWrite :=
  ⟨.addressIndex key, value.map .amount, by cases value <;> simp [DBKey.stores]⟩

def addressDelegationIndex (key : CAddressDelegationIndexKey) (value : Option CAmount) : DBWrite :=
  ⟨.addressDelegationIndex key, value.map .amount, by cases value <;> simp [DBKey.stores]⟩

def addressDelegationUnspentIndex (key : CAddressDelegationUnspentKey) (value : Option CAddressUnspentValue) : DBWrite :=
  ⟨.addressDelegationUnspentIndex key, value.map .unspent, by cases value <;> simp [DBKey.stores]⟩

def addressUnspentIndex (key : CAddressUnspentKey) (value : Option CAddressUnspentValue) : DBWrite :=
  ⟨.addressUnspentIndex key, value.map .unspent, by cases value <;> simp [DBKey.stores]⟩

def spentIndex (key : CSpentIndexKey) (value : Option CSpentIndexValue) : DBWrite :=
  ⟨.spentIndex key, value.map .spent, by cases value <;> simp [DBKey.stores]⟩

def addressIdentIndex (key : CAddressIndexIteratorKey) (value : Option CAddressOwnerIdentificator) : DBWrite :=
  ⟨.addressIdentIndex key, value.map .owner, by cases value <;> simp [DBKey.stores]⟩

def supplyIndex (key : CSupplyIndexKey) (value : Option CAmount) : DBWrite :=
  ⟨.supplyIndex key, value.map .amount, by cases value <;> simp [DBKey.stores]⟩

def entry (w : DBWrite) : DBKey × Option DBValue :=
  (w.key, w.value)

end DBWrite

structure CBlockTreeDB where
  records : OrderedStore DBKey.rank DBValue := .empty
  typed : ∀ e ∈ records.entries, e.1.stores e.2 := by nofun

namespace CBlockTreeDB

def empty : CBlockTreeDB := {}

def get (db : CBlockTreeDB) (key : DBKey) : Option DBValue :=
  db.records.get key

def write (db : CBlockTreeDB) (w : DBWrite) : CBlockTreeDB where
  records := db.records.write w.key w.value
  typed := by
    intro e he
    cases (OrderedStore.mem_write DBKey.rank_injective).mp he
    case inl old => exact db.typed e old.left
    case inr new => exact new.left ▸ w.typed e.2 new.right.symm

def writeBatch (db : CBlockTreeDB) (batch : List DBWrite) : CBlockTreeDB :=
  batch.foldl write db

theorem get_writeBatch (db : CBlockTreeDB) (batch : List DBWrite) :
    (db.writeBatch batch).get = Journal.replay db.get (batch.map (·.entry)) := by
  induction batch generalizing db
  case nil => rfl
  case cons w batch ih =>
    rw [List.map_cons, Journal.replay_cons]
    have first : (db.write w).get = Function.update db.get w.key w.value :=
      OrderedStore.get_write DBKey.rank_injective ..
    exact (ih (db.write w)).trans (congrArg (Journal.replay · _) first)

def updateSpentIndex (db : CBlockTreeDB) (vect : List (CSpentIndexKey × CSpentIndexValue)) : CBlockTreeDB :=
  db.writeBatch <| vect.map fun (key, value) => .spentIndex key (if value.isNull then none else some value)

def updateAddressUnspentIndex (db : CBlockTreeDB) (vect : List (CAddressUnspentKey × CAddressUnspentValue)) : CBlockTreeDB :=
  db.writeBatch <| vect.map fun (key, value) => .addressUnspentIndex key (if value.isNull then none else some value)

def updateAddressDelegationUnspentIndex (db : CBlockTreeDB)
    (vect : List (CAddressDelegationUnspentKey × CAddressUnspentValue)) : CBlockTreeDB :=
  db.writeBatch <| vect.map fun (key, value) =>
    .addressDelegationUnspentIndex key (if value.isNull then none else some value)

def updateSupplyIndex (db : CBlockTreeDB) (key : CSupplyIndexKey) (satoshis : CAmount) : CBlockTreeDB :=
  db.writeBatch [.supplyIndex key (if satoshis == -1 then none else some satoshis)]

def writeAddressIndex (db : CBlockTreeDB) (banned : COutPoint → Bool) (vect : List (CAddressIndexKey × CAmount)) :
    CBlockTreeDB :=
  db.writeBatch <| (vect.filter fun (key, _) => !banned { hash := key.txhash, n := key.index }).map fun (key, value) =>
    .addressIndex key (some value)

def eraseAddressIndex (db : CBlockTreeDB) (vect : List (CAddressIndexKey × CAmount)) : CBlockTreeDB :=
  db.writeBatch <| vect.map fun (key, _) => .addressIndex key none

def writeDelegationAddressIndex (db : CBlockTreeDB) (vect : List (CAddressDelegationIndexKey × CAmount)) : CBlockTreeDB :=
  db.writeBatch <| vect.map fun (key, value) => .addressDelegationIndex key (some value)

def eraseAddressDelegationIndex (db : CBlockTreeDB) (vect : List (CAddressDelegationIndexKey × CAmount)) : CBlockTreeDB :=
  db.writeBatch <| vect.map fun (key, _) => .addressDelegationIndex key none

def seek (db : CBlockTreeDB) (key : Bytes) : List (DBKey × DBValue) :=
  db.records.seek (ByteOrder.rank key)

-- The first record is the answer if it has the hash, whatever its type.
def readAddressIdentification (db : CBlockTreeDB) (addressHash : Uint160) (type : Int16) :
    Option CAddressOwnerIdentificator :=
  let position : CAddressIndexIteratorKey := { type, hashBytes := addressHash }
  match (db.seek (DB_ADDRESSIDENTINDEX :: position.serialize)).head? with
  | some (.addressIdentIndex key, .owner ident) => if key.hashBytes = addressHash then some ident else none
  | _ => none

def writeAddressIdentification (db : CBlockTreeDB)
    (vect : List (CAddressIndexIteratorKey × CAddressOwnerIdentificator)) : CBlockTreeDB :=
  db.writeBatch <| (vect.filter fun (key, _) => (db.readAddressIdentification key.hashBytes key.type).isNone).map
    fun (key, value) => .addressIdentIndex key (some value)

def eraseAddressIdentification (db : CBlockTreeDB) (vect : List CAddressIndexIteratorKey) : CBlockTreeDB :=
  db.writeBatch <| vect.map fun key => .addressIdentIndex key none

variable (addressHash : Uint160)

def scanAddressIndex (last : Int32) : List (DBKey × DBValue) → Except Failure (List (CAddressIndexKey × CAmount))
  | (.addressIndex key, value) :: rest =>
    if key.hashBytes = addressHash then
      if last > 0 && key.blockHeight > last then .ok []
      else
        match value with
        | .amount nValue => do
          let addressIndex ← scanAddressIndex last rest
          .ok ((key, nValue) :: addressIndex)
        | _ => .error (.error "failed to get address index value")
    else .ok []
  | _ => .ok []

def readAddressIndex (db : CBlockTreeDB) (type : Base58Type) (start last : Int32) :
    Except Failure (List (CAddressIndexKey × CAmount)) :=
  let position : Bytes :=
    if start > 0 && last > 0 then
      ({ type := type.toInt16, hashBytes := addressHash, blockHeight := start } : CAddressIndexIteratorHeightKey).serialize
    else ({ type := type.toInt16, hashBytes := addressHash } : CAddressIndexIteratorKey).serialize
  scanAddressIndex addressHash last (db.seek (DB_ADDRESSINDEX :: position))

def scanAddressUnspentIndex : List (DBKey × DBValue) → Except Failure (List (CAddressUnspentKey × CAddressUnspentValue))
  | (.addressUnspentIndex key, value) :: rest =>
    if key.hashBytes = addressHash then
      match value with
      | .unspent nValue => do
        let unspentOutputs ← scanAddressUnspentIndex rest
        .ok ((key, nValue) :: unspentOutputs)
      | _ => .error (.error "failed to get address unspent value")
    else .ok []
  | _ => .ok []

def readAddressUnspentIndex (db : CBlockTreeDB) (type : Base58Type) :
    Except Failure (List (CAddressUnspentKey × CAddressUnspentValue)) :=
  let position : CAddressIndexIteratorKey := { type := type.toInt16, hashBytes := addressHash }
  scanAddressUnspentIndex addressHash (db.seek (DB_ADDRESSUNSPENTINDEX :: position.serialize))

end CBlockTreeDB

end Qrax
