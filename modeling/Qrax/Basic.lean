import Qrax.Lib.Encoding

open Encoding List

namespace Qrax

abbrev Bytes := List UInt8

-- Blobs are arrays of raw bytes, the least significant one first.
abbrev Uint256 := BitVec 256
abbrev Uint160 := BitVec 160
abbrev CKeyID := Uint160

abbrev CAmount := Int64

def COIN : CAmount := 100000000
def CENT : CAmount := 1000000

-- The primitives the node links against: digests, ECDSA (`CPubKey::Verify`, `CPubKey::CheckLowS`), and the nodes of the
-- Sapling tree (`PedersenHash`).
class Crypto where
  ripemd160 : Bytes → Uint160
  sha1 : Bytes → Uint160
  sha256 : Bytes → Uint256
  blake2b : (personal : Bytes) → Bytes → Uint256
  verify : (pubkey : Bytes) → Uint256 → (sig : Bytes) → Bool
  checkLowS : (sig : Bytes) → Bool
  pedersenCombine : Uint256 → Uint256 → (depth : ℕ) → Uint256
  pedersenEmptyRoot : (depth : ℕ) → Uint256

-- A stand-in: a digest is the front of the message, a signature the key followed by what is signed.
@[reducible]
def Crypto.toy : Crypto where
  ripemd160 msg := BitVec.ofNat 160 (leNat (msg.take 20))
  sha1 msg := BitVec.ofNat 160 (leNat (msg.take 20))
  sha256 msg := BitVec.ofNat 256 (leNat (msg.take 32))
  blake2b personal msg := BitVec.ofNat 256 (leNat ((personal ++ msg).take 32))
  verify pubkey h sig := sig == pubkey ++ leBytes 32 h.toNat
  checkLowS _ := true
  pedersenCombine l r _ := (l + r) ||| 1
  pedersenEmptyRoot _ := 1

namespace Uint256

instance lawfulBEq : LawfulBEq Uint256 :=
  inferInstance

theorem toNat_injective : Function.Injective (BitVec.toNat : Uint256 → ℕ) :=
  fun _ _ => BitVec.eq_of_toNat_eq

def bytes (h : Uint256) : Bytes :=
  leBytes 32 h.toNat

@[simp]
theorem bytes_length (h : Uint256) : h.bytes.length = 32 :=
  leBytes_length ..

theorem bytes_injective : Function.Injective bytes := by
  intro h h' e
  exact BitVec.eq_of_toNat_eq <| leBytes_injOn 32 h.isLt h'.isLt e

end Uint256

namespace Uint160

def bytes (h : Uint160) : Bytes :=
  leBytes 20 h.toNat

@[simp]
theorem bytes_length (h : Uint160) : h.bytes.length = 20 :=
  leBytes_length ..

theorem bytes_injective : Function.Injective bytes := by
  intro h h' e
  exact BitVec.eq_of_toNat_eq <| leBytes_injOn 20 h.isLt h'.isLt e

end Uint160

section

variable [Crypto]

def hash256 (msg : Bytes) : Uint256 :=
  Crypto.sha256 (Uint256.bytes (Crypto.sha256 msg))

def hash160 (msg : Bytes) : Uint160 :=
  Crypto.ripemd160 (Uint256.bytes (Crypto.sha256 msg))

end

def writeCompactSize (nSize : ℕ) : Bytes :=
  if nSize < 253 then leBytes 1 nSize
  else if nSize ≤ 0xffff then 253 :: leBytes 2 nSize
  else if nSize ≤ 0xffffffff then 254 :: leBytes 4 nSize
  else 255 :: leBytes 8 nSize

def MAX_SIZE : ℕ := 0x02000000

def serializeVector {α : Type} (ser : α → Bytes) (v : List α) : Bytes :=
  writeCompactSize v.length ++ v.flatMap ser

def serializeBytes (v : Bytes) : Bytes :=
  writeCompactSize v.length ++ v

def serializeOptional {α : Type} (ser : α → Bytes) : Option α → Bytes
  | none => [0]
  | some a => 1 :: ser a

theorem writeCompactSize_length_le (n : ℕ) : (writeCompactSize n).length ≤ 9 := by
  unfold writeCompactSize
  split_ifs <;> simp

-- The first byte tells the four forms apart, each of a fixed width.
theorem writeCompactSize_prefixFree : PrefixFreeOn {n | n < 2 ^ 64} writeCompactSize := by
  intro n hn m hm x y h
  have short {k : ℕ} (hk : k < 253) {b : UInt8} (hb : 253 ≤ b.toNat) : UInt8.ofNat k ≠ b := by
    rintro rfl
    rw [UInt8.toNat_ofNat'] at hb
    omega
  have fixed (w : ℕ) (hn : n < 256 ^ w) (hm : m < 256 ^ w)
      (h : leBytes w n ++ x = leBytes w m ++ y) : n = m ∧ x = y :=
    leBytes_prefixFree w hn hm h
  simp only [Set.mem_ofPred_eq] at hn hm
  unfold writeCompactSize at h
  split_ifs at h
  all_goals simp only [leBytes_one, cons_append, nil_append, List.cons.injEq] at h
  all_goals first
    | exact fixed 1 (by omega) (by omega) (by simpa [leBytes_one] using h)
    | exact fixed 2 (by omega) (by omega) h.right
    | exact fixed 4 (by omega) (by omega) h.right
    | exact fixed 8 (by omega) (by omega) h.right
    | exact absurd h.left (by decide)
    | exact absurd h.left (short ‹_› (by decide))
    | exact absurd h.left.symm (short ‹_› (by decide))

theorem max_size_lt : {n | n ≤ MAX_SIZE} ⊆ {n | n < 2 ^ 64} := by
  intro n hn
  simp only [Set.mem_ofPred_eq, MAX_SIZE] at hn ⊢
  omega

variable {α : Type} {s : Set α} {ser : α → Bytes} {v : List α}

theorem serializeVector_prefixFree (h : PrefixFreeOn s ser) :
    PrefixFreeOn {v | v.length ≤ MAX_SIZE ∧ ∀ a ∈ v, a ∈ s} (serializeVector ser) :=
  .vector (writeCompactSize_prefixFree.mono max_size_lt) h

theorem serializeBytes_eq (v : Bytes) : serializeBytes v = serializeVector (fun b => [b]) v := by
  simp [serializeBytes, serializeVector]

theorem serializeBytes_prefixFree :
    PrefixFreeOn {v : Bytes | v.length ≤ MAX_SIZE} serializeBytes := by
  have hb : PrefixFreeOn Set.univ (fun b : UInt8 => [b]) :=
    .of_length (n := 1) (by simp [Set.InjOn]) (by simp)
  have h := serializeVector_prefixFree hb
  simp only [← funext serializeBytes_eq] at h
  exact h.mono (by simp)

theorem serializeOptional_prefixFree (h : PrefixFreeOn s ser) :
    PrefixFreeOn {o : Option α | ∀ a ∈ o, a ∈ s} (serializeOptional ser) := by
  rintro (_ | a) ha (_ | b) hb x y e <;> simp_all [serializeOptional]
  exact h ha hb e

theorem length_le_serializeVector (h : ∀ a ∈ v, 0 < (ser a).length) :
    v.length ≤ (serializeVector ser v).length := by
  rw [serializeVector, length_append, length_flatMap]
  have sum : v.length ≤ (v.map fun a => (ser a).length).sum := by
    rw [← length_map (fun a => (ser a).length)]
    exact length_le_sum_of_one_le _ (by simpa [Nat.one_le_iff_ne_zero, Nat.pos_iff_ne_zero] using h)
  omega

theorem length_le_serializeVector_of_mem (ser : α → Bytes) {a : α} (h : a ∈ v) :
    (ser a).length ≤ (serializeVector ser v).length := by
  have part : (ser a).Sublist (v.flatMap ser) := by
    rw [flatMap_def]
    exact sublist_flatten_of_mem (mem_map_of_mem h)
  rw [serializeVector, length_append]
  exact Nat.le_add_left_of_le part.length_le

theorem length_le_serializeBytes (v : Bytes) : v.length ≤ (serializeBytes v).length := by
  rw [serializeBytes, length_append]
  omega

end Qrax
