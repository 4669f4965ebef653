import Qrax.Lib.ByteOrder
import Qrax.Primitives.Serialize

open Encoding ByteOrder List

namespace Qrax

inductive Base58Type
  | UNKNOWN_TYPE
  | PUBKEY_ADDRESS
  | SCRIPT_ADDRESS
  | SECRET_KEY
  | EXT_PUBLIC_KEY
  | EXT_SECRET_KEY
  | EXT_COIN_TYPE
  | STAKING_ADDRESS
  deriving DecidableEq, Repr

def Base58Type.toInt16 : Base58Type → Int16
  | UNKNOWN_TYPE => -1
  | PUBKEY_ADDRESS => 0
  | SCRIPT_ADDRESS => 1
  | SECRET_KEY => 2
  | EXT_PUBLIC_KEY => 3
  | EXT_SECRET_KEY => 4
  | EXT_COIN_TYPE => 5
  | STAKING_ADDRESS => 6

-- The keys and values of the indexes. Of the `size_t` of an output 32 bits are stored.

structure CAddressIndexKey where
  type : Int16
  hashBytes : Uint160
  blockHeight : Int32
  txindex : UInt32
  txhash : Uint256
  index : UInt32
  spending : Bool
  delegated : Bool
  deriving DecidableEq

structure CAddressUnspentKey where
  type : Int16
  hashBytes : Uint160
  txhash : Uint256
  index : UInt32
  deriving DecidableEq

-- The amount -1 stands for no value at all.
structure CAddressUnspentValue where
  satoshis : CAmount := -1
  script : CScript := []
  blockHeight : ℕ := 0
  deriving DecidableEq

def CAddressUnspentValue.isNull (v : CAddressUnspentValue) : Bool :=
  v.satoshis == -1

structure CSpentIndexKey where
  txid : Uint256
  outputIndex : UInt32
  deriving DecidableEq

structure CSpentIndexValue where
  txid : Uint256 := 0
  inputIndex : ℕ := 0
  blockHeight : ℕ := 0
  satoshis : CAmount := 0
  addressType : Base58Type := .UNKNOWN_TYPE
  addressHash : Uint160 := 0
  deriving DecidableEq

def CSpentIndexValue.isNull (v : CSpentIndexValue) : Bool :=
  v.txid == 0

structure CAddressDelegationIndexKey where
  stakerHash : Uint160
  ownerHash : Uint160
  blockHeight : Int32
  txindex : UInt32
  txhash : Uint256
  index : UInt32
  spending : Bool
  deriving DecidableEq

structure CAddressDelegationUnspentKey where
  stakerHash : Uint160
  ownerHash : Uint160
  txhash : Uint256
  index : UInt32
  deriving DecidableEq

structure CAddressIndexIteratorKey where
  type : Int16
  hashBytes : Uint160
  deriving DecidableEq

structure CAddressIndexIteratorHeightKey where
  type : Int16
  hashBytes : Uint160
  blockHeight : Int32

structure CAddressOwnerIdentificator where
  type : Base58Type
  hashBytes : Uint160
  blockHeight : ℕ
  deriving DecidableEq

structure CSupplyIndexKey where
  blockHeight : Int32
  deriving DecidableEq

def serWriteData32be (n : Int32) : Bytes :=
  beBytes 4 n.toBitVec.toNat

def serWriteBool (b : Bool) : Bytes :=
  [if b then 1 else 0]

def CAddressIndexIteratorKey.serialize (k : CAddressIndexIteratorKey) : Bytes :=
  leBytes 2 k.type.toBitVec.toNat ++ k.hashBytes.bytes

def CAddressIndexIteratorHeightKey.serialize (k : CAddressIndexIteratorHeightKey) : Bytes :=
  leBytes 2 k.type.toBitVec.toNat ++ (k.hashBytes.bytes ++ serWriteData32be k.blockHeight)

def CAddressIndexKey.serialize (k : CAddressIndexKey) : Bytes :=
  leBytes 2 k.type.toBitVec.toNat ++ (k.hashBytes.bytes ++ (serWriteData32be k.blockHeight ++
    (beBytes 4 k.txindex.toNat ++ (k.txhash.bytes ++ (leBytes 4 k.index.toNat ++
      (serWriteBool k.spending ++ serWriteBool k.delegated))))))

def CAddressUnspentKey.serialize (k : CAddressUnspentKey) : Bytes :=
  leBytes 2 k.type.toBitVec.toNat ++ (k.hashBytes.bytes ++ (k.txhash.bytes ++ leBytes 4 k.index.toNat))

def CSpentIndexKey.serialize (k : CSpentIndexKey) : Bytes :=
  k.txid.bytes ++ leBytes 4 k.outputIndex.toNat

def CAddressDelegationIndexKey.serialize (k : CAddressDelegationIndexKey) : Bytes :=
  k.stakerHash.bytes ++ (k.ownerHash.bytes ++ (serWriteData32be k.blockHeight ++ (beBytes 4 k.txindex.toNat ++
    (k.txhash.bytes ++ (leBytes 4 k.index.toNat ++ serWriteBool k.spending)))))

def CAddressDelegationUnspentKey.serialize (k : CAddressDelegationUnspentKey) : Bytes :=
  k.stakerHash.bytes ++ (k.ownerHash.bytes ++ (k.txhash.bytes ++ leBytes 4 k.index.toNat))

def CSupplyIndexKey.serialize (k : CSupplyIndexKey) : Bytes :=
  leBytes 4 k.blockHeight.toBitVec.toNat

theorem beBytes_uint32_prefixFree : PrefixFreeOn Set.univ fun n : UInt32 => beBytes 4 n.toNat :=
  (beBytes_prefixFree 4).comap (fun _ _ h => UInt32.toNat_inj.mp h) UInt32.toNat_lt

theorem serWriteData32be_prefixFree : PrefixFreeOn Set.univ serWriteData32be :=
  (beBytes_prefixFree 4).comap (fun _ _ h => Int32.toBitVec_inj.mp (BitVec.eq_of_toNat_eq h)) fun n => n.toBitVec.isLt

theorem serWriteBool_prefixFree : PrefixFreeOn Set.univ serWriteBool := by
  refine .of_length (fun b _ b' _ h => ?_) fun _ _ => rfl
  cases b <;> cases b' <;> simp_all [serWriteBool]

@[simp]
theorem serWriteData32be_length (n : Int32) : (serWriteData32be n).length = 4 :=
  beBytes_length ..

theorem CAddressIndexKey.serialize_injective : Function.Injective serialize := by
  rintro ⟨type, hashBytes, blockHeight, txindex, txhash, index, spending, delegated⟩ ⟨⟩ h
  obtain ⟨rfl, h⟩ := serializeInt16_prefixFree.inj h
  obtain ⟨rfl, h⟩ := uint160_bytes_prefixFree.inj h
  obtain ⟨rfl, h⟩ := serWriteData32be_prefixFree.inj h
  obtain ⟨rfl, h⟩ := beBytes_uint32_prefixFree.inj h
  obtain ⟨rfl, h⟩ := uint256_bytes_prefixFree.inj h
  obtain ⟨rfl, h⟩ := serializeUInt32_prefixFree.inj h
  obtain ⟨rfl, h⟩ := serWriteBool_prefixFree.inj h
  cases serWriteBool_prefixFree.injOn trivial trivial h
  rfl

theorem CAddressUnspentKey.serialize_injective : Function.Injective serialize := by
  rintro ⟨type, hashBytes, txhash, index⟩ ⟨⟩ h
  obtain ⟨rfl, h⟩ := serializeInt16_prefixFree.inj h
  obtain ⟨rfl, h⟩ := uint160_bytes_prefixFree.inj h
  obtain ⟨rfl, h⟩ := uint256_bytes_prefixFree.inj h
  cases serializeUInt32_prefixFree.injOn trivial trivial h
  rfl

theorem CSpentIndexKey.serialize_injective : Function.Injective serialize := by
  rintro ⟨txid, outputIndex⟩ ⟨⟩ h
  obtain ⟨rfl, h⟩ := uint256_bytes_prefixFree.inj h
  cases serializeUInt32_prefixFree.injOn trivial trivial h
  rfl

theorem CAddressDelegationIndexKey.serialize_injective : Function.Injective serialize := by
  rintro ⟨stakerHash, ownerHash, blockHeight, txindex, txhash, index, spending⟩ ⟨⟩ h
  obtain ⟨rfl, h⟩ := uint160_bytes_prefixFree.inj h
  obtain ⟨rfl, h⟩ := uint160_bytes_prefixFree.inj h
  obtain ⟨rfl, h⟩ := serWriteData32be_prefixFree.inj h
  obtain ⟨rfl, h⟩ := beBytes_uint32_prefixFree.inj h
  obtain ⟨rfl, h⟩ := uint256_bytes_prefixFree.inj h
  obtain ⟨rfl, h⟩ := serializeUInt32_prefixFree.inj h
  cases serWriteBool_prefixFree.injOn trivial trivial h
  rfl

theorem CAddressDelegationUnspentKey.serialize_injective : Function.Injective serialize := by
  rintro ⟨stakerHash, ownerHash, txhash, index⟩ ⟨⟩ h
  obtain ⟨rfl, h⟩ := uint160_bytes_prefixFree.inj h
  obtain ⟨rfl, h⟩ := uint160_bytes_prefixFree.inj h
  obtain ⟨rfl, h⟩ := uint256_bytes_prefixFree.inj h
  cases serializeUInt32_prefixFree.injOn trivial trivial h
  rfl

theorem CAddressIndexIteratorKey.serialize_injective : Function.Injective serialize := by
  rintro ⟨type, hashBytes⟩ ⟨⟩ h
  obtain ⟨rfl, h⟩ := serializeInt16_prefixFree.inj h
  cases uint160_bytes_prefixFree.injOn trivial trivial h
  rfl

theorem CSupplyIndexKey.serialize_injective : Function.Injective serialize := by
  rintro ⟨blockHeight⟩ ⟨⟩ h
  cases serializeInt32_prefixFree.injOn trivial trivial h
  rfl

end Qrax
