import Qrax.Primitives.Transaction

open Encoding List

namespace Qrax

def serializeInt16 (a : Int16) : Bytes :=
  leBytes 2 a.toBitVec.toNat

def serializeInt32 (a : Int32) : Bytes :=
  leBytes 4 a.toBitVec.toNat

def serializeUInt32 (a : UInt32) : Bytes :=
  leBytes 4 a.toNat

def serializeInt64 (a : Int64) : Bytes :=
  leBytes 8 a.toBitVec.toNat

@[simp]
theorem serializeInt16_length (a : Int16) : (serializeInt16 a).length = 2 :=
  leBytes_length ..

@[simp]
theorem serializeInt32_length (a : Int32) : (serializeInt32 a).length = 4 :=
  leBytes_length ..

@[simp]
theorem serializeUInt32_length (a : UInt32) : (serializeUInt32 a).length = 4 :=
  leBytes_length ..

@[simp]
theorem serializeInt64_length (a : Int64) : (serializeInt64 a).length = 8 :=
  leBytes_length ..

theorem serializeInt16_prefixFree : PrefixFreeOn Set.univ serializeInt16 :=
  (leBytes_prefixFree 2).comap (fun _ _ h => Int16.toBitVec_inj.mp (BitVec.eq_of_toNat_eq h)) fun a => a.toBitVec.isLt

theorem serializeInt32_prefixFree : PrefixFreeOn Set.univ serializeInt32 :=
  (leBytes_prefixFree 4).comap (fun _ _ h => Int32.toBitVec_inj.mp (BitVec.eq_of_toNat_eq h)) fun a => a.toBitVec.isLt

theorem serializeUInt32_prefixFree : PrefixFreeOn Set.univ serializeUInt32 :=
  (leBytes_prefixFree 4).comap (fun _ _ h => UInt32.toNat_inj.mp h) UInt32.toNat_lt

theorem serializeInt64_prefixFree : PrefixFreeOn Set.univ serializeInt64 :=
  (leBytes_prefixFree 8).comap (fun _ _ h => Int64.toBitVec_inj.mp (BitVec.eq_of_toNat_eq h)) fun a => a.toBitVec.isLt

theorem uint256_bytes_prefixFree : PrefixFreeOn Set.univ Uint256.bytes :=
  .of_length Uint256.bytes_injective.injOn fun _ _ => Uint256.bytes_length _

theorem uint160_bytes_prefixFree : PrefixFreeOn Set.univ Uint160.bytes :=
  .of_length Uint160.bytes_injective.injOn fun _ _ => Uint160.bytes_length _

theorem vector_toList_prefixFree (n : ℕ) :
    PrefixFreeOn Set.univ (Vector.toList (α := UInt8) (n := n)) :=
  .of_length (fun _ _ _ _ h => Vector.toList_inj.mp h) fun _ _ => Vector.length_toList

theorem uint256_pair_inj {p q : Uint256 × Uint256}
    (h : Uint256.bytes p.1 ++ Uint256.bytes p.2 = Uint256.bytes q.1 ++ Uint256.bytes q.2) : p = q := by
  have ⟨left, right⟩ := uint256_bytes_prefixFree.inj h
  exact Prod.ext left (Uint256.bytes_injective right)

namespace COutPoint

def serialize (o : COutPoint) : Bytes :=
  Uint256.bytes o.hash ++ serializeUInt32 o.n

theorem serialize_prefixFree : PrefixFreeOn Set.univ serialize := by
  rintro ⟨⟩ - ⟨⟩ - x y e
  simp only [serialize, append_assoc] at e
  have ⟨_, e⟩ := uint256_bytes_prefixFree.inj e
  have ⟨_, e⟩ := serializeUInt32_prefixFree.inj e
  exact ⟨by congr, e⟩

end COutPoint

namespace CTxIn

def serialize (txin : CTxIn) : Bytes :=
  txin.prevout.serialize ++ serializeBytes txin.scriptSig ++ serializeUInt32 txin.nSequence

def SizesFit (txin : CTxIn) : Prop :=
  txin.scriptSig.length ≤ MAX_SIZE

theorem serialize_prefixFree : PrefixFreeOn {txin | SizesFit txin} serialize := by
  rintro ⟨⟩ hs ⟨⟩ hs' x y e
  simp only [serialize, append_assoc] at e
  have ⟨_, e⟩ := COutPoint.serialize_prefixFree.inj e
  have ⟨_, e⟩ := serializeBytes_prefixFree hs hs' e
  have ⟨_, e⟩ := serializeUInt32_prefixFree.inj e
  exact ⟨by congr, e⟩

end CTxIn

namespace CTxOut

def serialize (txout : CTxOut) : Bytes :=
  serializeInt64 txout.nValue ++ serializeBytes txout.scriptPubKey

def SizesFit (txout : CTxOut) : Prop :=
  txout.scriptPubKey.length ≤ MAX_SIZE

theorem serialize_prefixFree : PrefixFreeOn {txout | SizesFit txout} serialize := by
  rintro ⟨⟩ hs ⟨⟩ hs' x y e
  simp only [serialize, append_assoc] at e
  have ⟨_, e⟩ := serializeInt64_prefixFree.inj e
  have ⟨_, e⟩ := serializeBytes_prefixFree hs hs' e
  exact ⟨by congr, e⟩

end CTxOut

namespace SpendDescription

def serialize (s : SpendDescription) : Bytes :=
  Uint256.bytes s.cv ++ Uint256.bytes s.anchor ++ Uint256.bytes s.nullifier ++
    Uint256.bytes s.rk ++ s.zkproof.toList ++ s.spendAuthSig.toList

theorem serialize_prefixFree : PrefixFreeOn Set.univ serialize := by
  rintro ⟨⟩ - ⟨⟩ - x y e
  simp only [serialize, append_assoc] at e
  have ⟨_, e⟩ := uint256_bytes_prefixFree.inj e
  have ⟨_, e⟩ := uint256_bytes_prefixFree.inj e
  have ⟨_, e⟩ := uint256_bytes_prefixFree.inj e
  have ⟨_, e⟩ := uint256_bytes_prefixFree.inj e
  have ⟨_, e⟩ := (vector_toList_prefixFree 192).inj e
  have ⟨_, e⟩ := (vector_toList_prefixFree 64).inj e
  exact ⟨by congr, e⟩

end SpendDescription

namespace OutputDescription

def serialize (o : OutputDescription) : Bytes :=
  Uint256.bytes o.cv ++ Uint256.bytes o.cmu ++ Uint256.bytes o.ephemeralKey ++
    o.encCiphertext.toList ++ o.outCiphertext.toList ++ o.zkproof.toList

theorem serialize_prefixFree : PrefixFreeOn Set.univ serialize := by
  rintro ⟨⟩ - ⟨⟩ - x y e
  simp only [serialize, append_assoc] at e
  have ⟨_, e⟩ := uint256_bytes_prefixFree.inj e
  have ⟨_, e⟩ := uint256_bytes_prefixFree.inj e
  have ⟨_, e⟩ := uint256_bytes_prefixFree.inj e
  have ⟨_, e⟩ := (vector_toList_prefixFree 580).inj e
  have ⟨_, e⟩ := (vector_toList_prefixFree 80).inj e
  have ⟨_, e⟩ := (vector_toList_prefixFree 192).inj e
  exact ⟨by congr, e⟩

end OutputDescription

namespace SaplingTxData

def serialize (d : SaplingTxData) : Bytes :=
  serializeInt64 d.valueBalance ++
    serializeVector SpendDescription.serialize d.vShieldedSpend ++
    serializeVector OutputDescription.serialize d.vShieldedOutput ++ d.bindingSig.toList

def SizesFit (d : SaplingTxData) : Prop :=
  d.vShieldedSpend.length ≤ MAX_SIZE ∧ d.vShieldedOutput.length ≤ MAX_SIZE

theorem serialize_prefixFree : PrefixFreeOn {d | SizesFit d} serialize := by
  rintro ⟨⟩ ⟨hs, ho⟩ ⟨⟩ ⟨hs', ho'⟩ x y e
  simp only [serialize, append_assoc] at e
  have ⟨_, e⟩ := serializeInt64_prefixFree.inj e
  have ⟨_, e⟩ := serializeVector_prefixFree SpendDescription.serialize_prefixFree
    ⟨hs, fun _ _ => trivial⟩ ⟨hs', fun _ _ => trivial⟩ e
  have ⟨_, e⟩ := serializeVector_prefixFree OutputDescription.serialize_prefixFree
    ⟨ho, fun _ _ => trivial⟩ ⟨ho', fun _ _ => trivial⟩ e
  have ⟨_, e⟩ := (vector_toList_prefixFree 64).inj e
  exact ⟨by congr, e⟩

end SaplingTxData

namespace CTransaction

def serialize (tx : CTransaction) : Bytes :=
  serializeInt16 tx.nVersion ++ serializeInt16 tx.nType ++
    serializeVector CTxIn.serialize tx.vin ++ serializeVector CTxOut.serialize tx.vout ++
    serializeUInt32 tx.nLockTime ++
    (if tx.isSaplingVersion then
      serializeOptional SaplingTxData.serialize tx.sapData ++
        (if !tx.isNormalType then serializeOptional serializeBytes tx.extraPayload else [])
    else []) ++
    Uint160.bytes tx.walletSenderId

def getHash [Crypto] (tx : CTransaction) : Uint256 :=
  hash256 tx.serialize

def getTotalSize (tx : CTransaction) : ℕ :=
  tx.serialize.length

theorem serialize_length_pos (tx : CTransaction) : 0 < tx.serialize.length := by
  simp only [serialize, length_append, serializeInt16_length]
  omega

-- The transaction a peer reads: other fields have their defaults.
def wire (tx : CTransaction) : CTransaction :=
  { tx with
    sapData := if tx.isSaplingVersion then tx.sapData else some {}
    extraPayload := if tx.isSaplingVersion && !tx.isNormalType then tx.extraPayload else none }

structure SizesFit (tx : CTransaction) : Prop where
  vin : tx.vin.length ≤ MAX_SIZE ∧ ∀ txin ∈ tx.vin, txin.SizesFit
  vout : tx.vout.length ≤ MAX_SIZE ∧ ∀ txout ∈ tx.vout, txout.SizesFit
  sapData : ∀ d ∈ tx.sapData, d.SizesFit
  extraPayload : ∀ p ∈ tx.extraPayload, p.length ≤ MAX_SIZE

theorem wire_serialize (tx : CTransaction) : tx.wire.serialize = tx.serialize := by
  simp only [wire, serialize, isSaplingVersion, isNormalType]
  split_ifs <;> simp_all

variable {tx tx' : CTransaction}

theorem serialize_prefix (hs : tx.SizesFit) (hs' : tx'.SizesFit)
    {x y : Bytes} (e : tx.serialize ++ x = tx'.serialize ++ y) : tx.wire = tx'.wire ∧ x = y := by
  simp only [serialize, append_assoc] at e
  have ⟨hv, e⟩ := serializeInt16_prefixFree.inj e
  have ⟨ht, e⟩ := serializeInt16_prefixFree.inj e
  have ⟨hi, e⟩ := serializeVector_prefixFree CTxIn.serialize_prefixFree hs.vin hs'.vin e
  have ⟨ho, e⟩ := serializeVector_prefixFree CTxOut.serialize_prefixFree hs.vout hs'.vout e
  have ⟨hl, e⟩ := serializeUInt32_prefixFree.inj e
  have hv' : tx.isSaplingVersion = tx'.isSaplingVersion := by simp only [isSaplingVersion, hv]
  have ht' : tx.isNormalType = tx'.isNormalType := by simp only [isNormalType, ht]
  simp only [wire, hv', ht', hv, ht, hi, ho, hl] at e ⊢
  cases hsv : tx'.isSaplingVersion
  case false =>
    simp only [hsv, Bool.false_eq_true, if_false, nil_append] at e
    have ⟨hw, e⟩ := uint160_bytes_prefixFree.inj e
    simp [hw, e]
  case true =>
    simp only [hsv, if_true, append_assoc] at e
    have ⟨hd, e⟩ := serializeOptional_prefixFree SaplingTxData.serialize_prefixFree
      hs.sapData hs'.sapData e
    cases hnt : tx'.isNormalType
    case true =>
      simp only [hnt, Bool.not_true, Bool.false_eq_true, if_false, nil_append] at e
      have ⟨hw, e⟩ := uint160_bytes_prefixFree.inj e
      simp [hd, hw, e]
    case false =>
      simp only [hnt, Bool.not_false, if_true] at e
      have ⟨hp, e⟩ := serializeOptional_prefixFree serializeBytes_prefixFree
        hs.extraPayload hs'.extraPayload e
      have ⟨hw, e⟩ := uint160_bytes_prefixFree.inj e
      simp [hd, hp, hw, e]

theorem serialize_wire_inj (hs : tx.SizesFit) (hs' : tx'.SizesFit)
    (e : tx.serialize = tx'.serialize) : tx.wire = tx'.wire :=
  serialize_prefix (x := []) (y := []) hs hs' (by rw [e]) |>.left

theorem wire_wire (tx : CTransaction) : tx.wire.wire = tx.wire := by
  simp only [wire, isSaplingVersion, isNormalType]
  split_ifs <;> simp_all

theorem wire_sizesFit {tx : CTransaction} (h : tx.getTotalSize ≤ MAX_SIZE) : tx.wire.SizesFit := by
  simp only [getTotalSize, serialize, length_append] at h
  constructor
  case vin =>
    have count : tx.vin.length ≤ (serializeVector CTxIn.serialize tx.vin).length :=
      length_le_serializeVector fun txin _ => by
        simp only [CTxIn.serialize, length_append, serializeUInt32_length]
        omega
    refine ⟨by simp only [wire]; omega, fun txin (mem : txin ∈ tx.vin) => ?_⟩
    have whole := length_le_serializeVector_of_mem CTxIn.serialize mem
    have script := length_le_serializeBytes txin.scriptSig
    simp only [CTxIn.serialize, length_append] at whole
    simp only [CTxIn.SizesFit]
    omega
  case vout =>
    have count : tx.vout.length ≤ (serializeVector CTxOut.serialize tx.vout).length :=
      length_le_serializeVector fun txout _ => by
        simp only [CTxOut.serialize, length_append, serializeInt64_length]
        omega
    refine ⟨by simp only [wire]; omega, fun txout (mem : txout ∈ tx.vout) => ?_⟩
    have whole := length_le_serializeVector_of_mem CTxOut.serialize mem
    have script := length_le_serializeBytes txout.scriptPubKey
    simp only [CTxOut.serialize, length_append] at whole
    simp only [CTxOut.SizesFit]
    omega
  case sapData =>
    intro d mem
    simp only [wire] at mem
    split at mem
    case isFalse => cases mem; exact ⟨Nat.zero_le _, Nat.zero_le _⟩
    case isTrue sapling =>
      have spends : d.vShieldedSpend.length ≤ (serializeVector SpendDescription.serialize d.vShieldedSpend).length :=
        length_le_serializeVector fun _ _ => by simp [SpendDescription.serialize]
      have outputs : d.vShieldedOutput.length ≤ (serializeVector OutputDescription.serialize d.vShieldedOutput).length :=
        length_le_serializeVector fun _ _ => by simp [OutputDescription.serialize]
      simp only [sapling, if_true, Option.mem_def.mp mem, serializeOptional, length_append,
        length_cons, SaplingTxData.serialize] at h
      exact ⟨by omega, by omega⟩
  case extraPayload =>
    intro p mem
    simp only [wire] at mem
    split at mem
    case isFalse => cases mem
    case isTrue special =>
      obtain ⟨sapling, normal⟩ := Bool.and_eq_true_iff.mp special
      have payload := length_le_serializeBytes p
      simp only [sapling, normal, if_true, Option.mem_def.mp mem, serializeOptional, length_append,
        length_cons] at h
      omega

theorem wire_eq_of_serialize (h : tx.getTotalSize ≤ MAX_SIZE)
    (e : tx.serialize = tx'.serialize) : tx.wire = tx'.wire := by
  have h' : tx'.getTotalSize ≤ MAX_SIZE := by rwa [getTotalSize, ← e]
  have eq := serialize_wire_inj (wire_sizesFit h) (wire_sizesFit h') (by rwa [wire_serialize, wire_serialize])
  rwa [wire_wire, wire_wire] at eq

end CTransaction

end Qrax
