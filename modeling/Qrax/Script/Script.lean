import Qrax.Basic
import Qrax.Lib.Fallible

open Encoding

namespace Qrax

def MAX_SCRIPT_ELEMENT_SIZE : ℕ := 520
def MAX_SCRIPT_SIZE : ℕ := 10000
def LOCKTIME_THRESHOLD : ℕ := 500000000

abbrev CScript := Bytes

inductive Opcodetype
  -- push value
  | OP_0 | OP_PUSHDATA1 | OP_PUSHDATA2 | OP_PUSHDATA4 | OP_1NEGATE | OP_RESERVED | OP_1
  | OP_2 | OP_3 | OP_4 | OP_5 | OP_6 | OP_7 | OP_8 | OP_9 | OP_10 | OP_11 | OP_12 | OP_13
  | OP_14 | OP_15 | OP_16
  -- control
  | OP_NOP | OP_VER | OP_IF | OP_NOTIF | OP_VERIF | OP_VERNOTIF | OP_ELSE | OP_ENDIF
  | OP_VERIFY | OP_RETURN
  -- stack ops
  | OP_TOALTSTACK | OP_FROMALTSTACK | OP_2DROP | OP_2DUP | OP_3DUP | OP_2OVER | OP_2ROT
  | OP_2SWAP | OP_IFDUP | OP_DEPTH | OP_DROP | OP_DUP | OP_NIP | OP_OVER | OP_PICK | OP_ROLL
  | OP_ROT | OP_SWAP | OP_TUCK
  -- splice ops
  | OP_CAT | OP_SUBSTR | OP_LEFT | OP_RIGHT | OP_SIZE
  -- bit logic
  | OP_INVERT | OP_AND | OP_OR | OP_XOR | OP_EQUAL | OP_EQUALVERIFY | OP_RESERVED1
  | OP_RESERVED2
  -- numeric
  | OP_1ADD | OP_1SUB | OP_2MUL | OP_2DIV | OP_NEGATE | OP_ABS | OP_NOT | OP_0NOTEQUAL
  | OP_ADD | OP_SUB | OP_MUL | OP_DIV | OP_MOD | OP_LSHIFT | OP_RSHIFT | OP_BOOLAND
  | OP_BOOLOR | OP_NUMEQUAL | OP_NUMEQUALVERIFY | OP_NUMNOTEQUAL | OP_LESSTHAN
  | OP_GREATERTHAN | OP_LESSTHANOREQUAL | OP_GREATERTHANOREQUAL | OP_MIN | OP_MAX
  | OP_WITHIN
  -- crypto
  | OP_RIPEMD160 | OP_SHA1 | OP_SHA256 | OP_HASH160 | OP_HASH256 | OP_CODESEPARATOR
  | OP_CHECKSIG | OP_CHECKSIGVERIFY | OP_CHECKMULTISIG | OP_CHECKMULTISIGVERIFY
  -- expansion
  | OP_NOP1 | OP_NOP2 | OP_NOP3 | OP_NOP4 | OP_NOP5 | OP_NOP6 | OP_NOP7 | OP_NOP8 | OP_NOP9
  | OP_NOP10
  -- multimining reward
  | OP_ASSETSMINT | OP_ASSETSSPEND | OP_DPOSASSETSMINT
  -- cold staking
  | OP_CHECKCOLDSTAKEVERIFY
  | OP_INVALIDOPCODE
  deriving DecidableEq, Repr

namespace Opcodetype

def toByte : Opcodetype → UInt8
  | .OP_0 => 0x00 | .OP_PUSHDATA1 => 0x4c | .OP_PUSHDATA2 => 0x4d | .OP_PUSHDATA4 => 0x4e
  | .OP_1NEGATE => 0x4f | .OP_RESERVED => 0x50 | .OP_1 => 0x51 | .OP_2 => 0x52 | .OP_3 => 0x53
  | .OP_4 => 0x54 | .OP_5 => 0x55 | .OP_6 => 0x56 | .OP_7 => 0x57 | .OP_8 => 0x58
  | .OP_9 => 0x59 | .OP_10 => 0x5a | .OP_11 => 0x5b | .OP_12 => 0x5c | .OP_13 => 0x5d
  | .OP_14 => 0x5e | .OP_15 => 0x5f | .OP_16 => 0x60 | .OP_NOP => 0x61 | .OP_VER => 0x62
  | .OP_IF => 0x63 | .OP_NOTIF => 0x64 | .OP_VERIF => 0x65 | .OP_VERNOTIF => 0x66
  | .OP_ELSE => 0x67 | .OP_ENDIF => 0x68 | .OP_VERIFY => 0x69 | .OP_RETURN => 0x6a
  | .OP_TOALTSTACK => 0x6b | .OP_FROMALTSTACK => 0x6c | .OP_2DROP => 0x6d | .OP_2DUP => 0x6e
  | .OP_3DUP => 0x6f | .OP_2OVER => 0x70 | .OP_2ROT => 0x71 | .OP_2SWAP => 0x72
  | .OP_IFDUP => 0x73 | .OP_DEPTH => 0x74 | .OP_DROP => 0x75 | .OP_DUP => 0x76 | .OP_NIP => 0x77
  | .OP_OVER => 0x78 | .OP_PICK => 0x79 | .OP_ROLL => 0x7a | .OP_ROT => 0x7b | .OP_SWAP => 0x7c
  | .OP_TUCK => 0x7d | .OP_CAT => 0x7e | .OP_SUBSTR => 0x7f | .OP_LEFT => 0x80
  | .OP_RIGHT => 0x81 | .OP_SIZE => 0x82 | .OP_INVERT => 0x83 | .OP_AND => 0x84 | .OP_OR => 0x85
  | .OP_XOR => 0x86 | .OP_EQUAL => 0x87 | .OP_EQUALVERIFY => 0x88 | .OP_RESERVED1 => 0x89
  | .OP_RESERVED2 => 0x8a | .OP_1ADD => 0x8b | .OP_1SUB => 0x8c | .OP_2MUL => 0x8d
  | .OP_2DIV => 0x8e | .OP_NEGATE => 0x8f | .OP_ABS => 0x90 | .OP_NOT => 0x91
  | .OP_0NOTEQUAL => 0x92 | .OP_ADD => 0x93 | .OP_SUB => 0x94 | .OP_MUL => 0x95
  | .OP_DIV => 0x96 | .OP_MOD => 0x97 | .OP_LSHIFT => 0x98 | .OP_RSHIFT => 0x99
  | .OP_BOOLAND => 0x9a | .OP_BOOLOR => 0x9b | .OP_NUMEQUAL => 0x9c | .OP_NUMEQUALVERIFY => 0x9d
  | .OP_NUMNOTEQUAL => 0x9e | .OP_LESSTHAN => 0x9f | .OP_GREATERTHAN => 0xa0
  | .OP_LESSTHANOREQUAL => 0xa1 | .OP_GREATERTHANOREQUAL => 0xa2 | .OP_MIN => 0xa3
  | .OP_MAX => 0xa4 | .OP_WITHIN => 0xa5 | .OP_RIPEMD160 => 0xa6 | .OP_SHA1 => 0xa7
  | .OP_SHA256 => 0xa8 | .OP_HASH160 => 0xa9 | .OP_HASH256 => 0xaa | .OP_CODESEPARATOR => 0xab
  | .OP_CHECKSIG => 0xac | .OP_CHECKSIGVERIFY => 0xad | .OP_CHECKMULTISIG => 0xae
  | .OP_CHECKMULTISIGVERIFY => 0xaf | .OP_NOP1 => 0xb0 | .OP_NOP2 => 0xb1 | .OP_NOP3 => 0xb2
  | .OP_NOP4 => 0xb3 | .OP_NOP5 => 0xb4 | .OP_NOP6 => 0xb5 | .OP_NOP7 => 0xb6 | .OP_NOP8 => 0xb7
  | .OP_NOP9 => 0xb8 | .OP_NOP10 => 0xb9 | .OP_ASSETSMINT => 0xd4 | .OP_ASSETSSPEND => 0xd5
  | .OP_DPOSASSETSMINT => 0xd6 | .OP_CHECKCOLDSTAKEVERIFY => 0xd1 | .OP_INVALIDOPCODE => 0xff

instance : Coe Opcodetype UInt8 := ⟨toByte⟩

@[match_pattern]
abbrev OP_CHECKLOCKTIMEVERIFY : Opcodetype := OP_NOP2

def enumerators : List Opcodetype :=
  [.OP_0, .OP_PUSHDATA1, .OP_PUSHDATA2, .OP_PUSHDATA4, .OP_1NEGATE, .OP_RESERVED, .OP_1, .OP_2,
   .OP_3, .OP_4, .OP_5, .OP_6, .OP_7, .OP_8, .OP_9, .OP_10, .OP_11, .OP_12, .OP_13, .OP_14,
   .OP_15, .OP_16, .OP_NOP, .OP_VER, .OP_IF, .OP_NOTIF, .OP_VERIF, .OP_VERNOTIF, .OP_ELSE,
   .OP_ENDIF, .OP_VERIFY, .OP_RETURN, .OP_TOALTSTACK, .OP_FROMALTSTACK, .OP_2DROP, .OP_2DUP,
   .OP_3DUP, .OP_2OVER, .OP_2ROT, .OP_2SWAP, .OP_IFDUP, .OP_DEPTH, .OP_DROP, .OP_DUP, .OP_NIP,
   .OP_OVER, .OP_PICK, .OP_ROLL, .OP_ROT, .OP_SWAP, .OP_TUCK, .OP_CAT, .OP_SUBSTR, .OP_LEFT,
   .OP_RIGHT, .OP_SIZE, .OP_INVERT, .OP_AND, .OP_OR, .OP_XOR, .OP_EQUAL, .OP_EQUALVERIFY,
   .OP_RESERVED1, .OP_RESERVED2, .OP_1ADD, .OP_1SUB, .OP_2MUL, .OP_2DIV, .OP_NEGATE, .OP_ABS,
   .OP_NOT, .OP_0NOTEQUAL, .OP_ADD, .OP_SUB, .OP_MUL, .OP_DIV, .OP_MOD, .OP_LSHIFT, .OP_RSHIFT,
   .OP_BOOLAND, .OP_BOOLOR, .OP_NUMEQUAL, .OP_NUMEQUALVERIFY, .OP_NUMNOTEQUAL, .OP_LESSTHAN,
   .OP_GREATERTHAN, .OP_LESSTHANOREQUAL, .OP_GREATERTHANOREQUAL, .OP_MIN, .OP_MAX, .OP_WITHIN,
   .OP_RIPEMD160, .OP_SHA1, .OP_SHA256, .OP_HASH160, .OP_HASH256, .OP_CODESEPARATOR,
   .OP_CHECKSIG, .OP_CHECKSIGVERIFY, .OP_CHECKMULTISIG, .OP_CHECKMULTISIGVERIFY, .OP_NOP1,
   .OP_NOP2, .OP_NOP3, .OP_NOP4, .OP_NOP5, .OP_NOP6, .OP_NOP7, .OP_NOP8, .OP_NOP9, .OP_NOP10,
   .OP_ASSETSMINT, .OP_ASSETSSPEND, .OP_DPOSASSETSMINT, .OP_CHECKCOLDSTAKEVERIFY,
   .OP_INVALIDOPCODE]

-- Bytes without enumerator are read as instructions too, but cannot be executed.
def ofByte (b : UInt8) : Option Opcodetype :=
  enumerators.find? (·.toByte = b)

theorem mem_enumerators (op : Opcodetype) : op ∈ enumerators := by
  have h : (enumerators[op.ctorIdx]?) = some op := by cases op <;> rfl
  exact List.mem_of_getElem? h

@[simp]
theorem ofByte_toByte (op : Opcodetype) : ofByte op.toByte = some op := by
  have h : ∀ op ∈ enumerators, ofByte op.toByte = some op := by decide +kernel
  exact h op op.mem_enumerators

end Opcodetype

open Opcodetype

-- The second component is where `pc` is left: a truncated instruction has consumed its opcode and size.
def getOp2 : Bytes → Option (UInt8 × Bytes) × Bytes
  | [] => (none, [])
  | opcode :: pc =>
    let operand (nSize : ℕ) (pc : Bytes) : Option (UInt8 × Bytes) × Bytes :=
      if pc.length < nSize then (none, pc)
      else (some (opcode, pc.take nSize), pc.drop nSize)
    if opcode > OP_PUSHDATA4 then (some (opcode, []), pc)
    else if opcode < OP_PUSHDATA1 then operand opcode.toNat pc
    else if opcode = OP_PUSHDATA1 then
      if pc.length < 1 then (none, pc) else operand (leNat (pc.take 1)) (pc.drop 1)
    else if opcode = OP_PUSHDATA2 then
      if pc.length < 2 then (none, pc) else operand (leNat (pc.take 2)) (pc.drop 2)
    else
      if pc.length < 4 then (none, pc) else operand (leNat (pc.take 4)) (pc.drop 4)

-- A script as the loops over `GetOp` see it: instructions with operand and position, up to the end or a truncated
-- instruction.
inductive Code
  | done
  | truncated (pc : Bytes)
  | instr (opcode : UInt8) (vch pc : Bytes) (next : Code)

namespace Code

def decodeFrom : ℕ → Bytes → Code
  | 0, _ => done
  | _ + 1, [] => done
  | n + 1, b :: pc =>
    match getOp2 (b :: pc) with
    | (some (opcode, vch), pc') => instr opcode vch pc' (decodeFrom n pc')
    | (none, pc') => truncated pc'

def decode (script : CScript) : Code :=
  decodeFrom script.length script

theorem getOp2_length (b : UInt8) (pc : Bytes) :
    (getOp2 (b :: pc)).snd.length ≤ pc.length := by
  simp only [getOp2]
  split_ifs <;> simp

theorem decodeFrom_of_le {n m : ℕ} {pc : Bytes} (hn : pc.length ≤ n) (hm : pc.length ≤ m) :
    decodeFrom n pc = decodeFrom m pc := by
  induction n generalizing m pc with
  | zero =>
    obtain rfl : pc = [] := List.length_eq_zero_iff.mp (by omega)
    cases m <;> rfl
  | succ n ih =>
    cases pc with
    | nil => cases m <;> rfl
    | cons b pc =>
      obtain ⟨m, rfl⟩ := Nat.exists_eq_add_of_le' (Nat.lt_of_lt_of_le (Nat.succ_pos _) hm)
      have hl := getOp2_length b pc
      simp only [List.length_cons] at hn hm
      simp only [decodeFrom]
      split <;> simp_all
      exact ih (by omega) (by omega)

@[simp]
theorem decode_nil : decode [] = done := rfl

theorem decode_cons (b : UInt8) (pc : Bytes) :
    decode (b :: pc) = match getOp2 (b :: pc) with
      | (some (opcode, vch), pc') => instr opcode vch pc' (decode pc')
      | (none, pc') => truncated pc' := by
  have hl := getOp2_length b pc
  simp only [decode, List.length_cons, decodeFrom]
  split <;> simp_all
  exact decodeFrom_of_le hl le_rfl

theorem decode_opcode {b : UInt8} (pc : Bytes) (h : b > OP_PUSHDATA4) :
    decode (b :: pc) = instr b [] pc (decode pc) := by
  simp [decode_cons, getOp2, h]

theorem decode_push {b : UInt8} {vch : Bytes} (pc : Bytes) (hb : b < OP_PUSHDATA1)
    (hv : vch.length = b.toNat) : decode (b :: (vch ++ pc)) = instr b vch pc (decode pc) := by
  have hb' : ¬b > OP_PUSHDATA4 := by
    simp only [gt_iff_lt, UInt8.lt_iff_toNat_lt, toByte] at hb ⊢
    simp at hb ⊢
    omega
  have hl : ¬vch.length + pc.length < vch.length := by omega
  simp [decode_cons, getOp2, hb', hb, ← hv, hl]

end Code

namespace CScript

def push (b : Bytes) : CScript :=
  if b.length < (OP_PUSHDATA1 : UInt8).toNat then UInt8.ofNat b.length :: b
  else if b.length ≤ 0xff then OP_PUSHDATA1.toByte :: leBytes 1 b.length ++ b
  else if b.length ≤ 0xffff then OP_PUSHDATA2.toByte :: leBytes 2 b.length ++ b
  else OP_PUSHDATA4.toByte :: leBytes 4 b.length ++ b

def findAndDeleteFrom (b : CScript) : ℕ → CScript → CScript
  | 0, pc => pc
  | n + 1, pc =>
    if b.isPrefixOf pc then findAndDeleteFrom b n (pc.drop b.length)
    else match getOp2 pc with
      | (some _, pc') => pc.take (pc.length - pc'.length) ++ findAndDeleteFrom b n pc'
      | (none, _) => pc

def findAndDelete (script b : CScript) : CScript :=
  if b.isEmpty then script else findAndDeleteFrom b (script.length + 1) script

def isPayToScriptHash (s : CScript) : Bool :=
  s.length == 23 &&
  s[0]? == some (OP_HASH160 : UInt8) &&
  s[1]? == some 0x14 &&
  s[22]? == some (OP_EQUAL : UInt8)

def isPayToPublicKeyHash (s : CScript) : Bool :=
  s.length == 25 &&
  s[0]? == some (OP_DUP : UInt8) &&
  s[1]? == some (OP_HASH160 : UInt8) &&
  s[2]? == some 0x14 &&
  s[23]? == some (OP_EQUALVERIFY : UInt8) &&
  s[24]? == some (OP_CHECKSIG : UInt8)

def isPayToPublicKey (s : CScript) : Bool :=
  if s.length == 35 then
    (s[1]? == some 0x02 || s[1]? == some 0x03) && s[34]? == some (OP_CHECKSIG : UInt8)
  else if s.length == 67 then
    s[1]? == some 0x04 && s[66]? == some (OP_CHECKSIG : UInt8)
  else false

def isPayToColdStaking (newP2CSRules : Bool) (s : CScript) : Bool :=
  s.length == 51 &&
  (!newP2CSRules || s[0]? == some (OP_DUP : UInt8)) &&
  (!newP2CSRules || s[1]? == some (OP_HASH160 : UInt8)) &&
  s[2]? == some (OP_ROT : UInt8) &&
  (!newP2CSRules || s[3]? == some (OP_IF : UInt8)) &&
  s[4]? == some (OP_CHECKCOLDSTAKEVERIFY : UInt8) &&
  s[5]? == some 0x14 &&
  (!newP2CSRules || s[26]? == some (OP_ELSE : UInt8)) &&
  s[27]? == some 0x14 &&
  (!newP2CSRules || s[48]? == some (OP_ENDIF : UInt8)) &&
  s[49]? == some (OP_EQUALVERIFY : UInt8) &&
  s[50]? == some (OP_CHECKSIG : UInt8)

def isPayAssetScriptHash (s : CScript) : Bool :=
  s.length == 26 &&
  s[0]? == some (OP_DUP : UInt8) &&
  s[1]? == some (OP_HASH160 : UInt8) &&
  s[2]? == some (OP_ASSETSMINT : UInt8) &&
  s[24]? == some (OP_EQUALVERIFY : UInt8) &&
  s[25]? == some (OP_CHECKSIG : UInt8)

def isPayAssetDposScript (s : CScript) : Bool :=
  s.length == 51 &&
  s[2]? == some (OP_ROT : UInt8) &&
  s[4]? == some (OP_DPOSASSETSMINT : UInt8) &&
  s[5]? == some 0x14 &&
  s[27]? == some 0x14 &&
  s[49]? == some (OP_EQUALVERIFY : UInt8) &&
  s[50]? == some (OP_CHECKSIG : UInt8)

def startsWithOpcode (s : CScript) (opcode : Opcodetype) : Bool :=
  s.head? == some opcode.toByte

def isMultiMiningSpend (s : CScript) : Bool :=
  s.startsWithOpcode OP_ASSETSSPEND

def isUnspendable (s : CScript) : Bool :=
  s.startsWithOpcode OP_RETURN || s.length > MAX_SCRIPT_SIZE

def isPushOnly (s : CScript) : Bool :=
  go (Code.decode s)
where
  go : Code → Bool
    | .done => true
    | .truncated _ => false
    | .instr opcode _ _ next => opcode ≤ OP_16 && go next

def decodeOpN (opcode : UInt8) : ℕ :=
  if opcode = OP_0 then 0 else opcode.toNat - ((OP_1 : UInt8).toNat - 1)

def getSigOpCount (fAccurate : Bool) (s : CScript) : ℕ :=
  go OP_INVALIDOPCODE (Code.decode s)
where
  go (lastOpcode : UInt8) : Code → ℕ
    | .done | .truncated _ => 0
    | .instr opcode _ _ next =>
      let n :=
        if opcode = OP_CHECKSIG || opcode = OP_CHECKSIGVERIFY then 1
        else if opcode = OP_CHECKMULTISIG || opcode = OP_CHECKMULTISIGVERIFY then
          if fAccurate && lastOpcode ≥ OP_1 && lastOpcode ≤ OP_16 then decodeOpN lastOpcode
          else 20
        else 0
      n + go opcode next

def lastPush (s : CScript) : Option Bytes :=
  go [] (Code.decode s)
where
  go (data : Bytes) : Code → Option Bytes
    | .done => some data
    | .truncated _ => none
    | .instr opcode vch _ next => if opcode > OP_16 then none else go vch next

def getSigOpCountP2SH (s scriptSig : CScript) : ℕ :=
  if !s.isPayToScriptHash then s.getSigOpCount true
  else match scriptSig.lastPush with
    | none => 0
    | some subscript => getSigOpCount true subscript

end CScript

-- Numbers on the stack: little-endian magnitude, with the sign as the top bit.
namespace CScriptNum

def nDefaultMaxNumSize : ℕ := 4

def magnitude : ℕ → ℕ → Bytes
  | 0, _ => []
  | _ + 1, 0 => []
  | n + 1, v + 1 => UInt8.ofNat (v + 1) :: magnitude n ((v + 1) / 256)

-- The value is an `int64_t`, so eight bytes always hold its magnitude.
def serialize (value : ℤ) : Bytes :=
  if value = 0 then []
  else
    let neg := value < 0
    let result := magnitude 8 value.natAbs
    let back := result.getLastD 0
    if back &&& 0x80 ≠ 0 then result ++ [if neg then 0x80 else 0]
    else if neg then result.dropLast ++ [back ||| 0x80]
    else result

def setVch (vch : Bytes) : ℤ :=
  if vch.isEmpty then 0
  else if vch.getLastD 0 &&& 0x80 ≠ 0 then
    -((leNat vch : ℤ) - 0x80 * 256 ^ (vch.length - 1))
  else leNat vch

def isMinimal (vch : Bytes) : Bool :=
  vch.isEmpty || vch.getLastD 0 &&& 0x7f ≠ 0 ||
    !(vch.length ≤ 1 || vch.dropLast.getLastD 0 &&& 0x80 = 0)

-- `none` stands for the `scriptnum_error` the constructor throws.
def ofVch? (vch : Bytes) (fRequireMinimal : Bool) (nMaxNumSize : ℕ) :
    Option ℤ :=
  if vch.length > nMaxNumSize then none
  else if fRequireMinimal && !isMinimal vch then none
  else some (setVch vch)

def getint (n : ℤ) : ℤ :=
  max (-2 ^ 31) (min n (2 ^ 31 - 1))

end CScriptNum

end Qrax
