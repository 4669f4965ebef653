import Qrax.Script.SignatureHash

open Encoding

namespace Qrax

open Opcodetype

inductive ScriptError
  | SCRIPT_ERR_UNKNOWN_ERROR
  | SCRIPT_ERR_EVAL_FALSE
  | SCRIPT_ERR_OP_RETURN
  -- max sizes
  | SCRIPT_ERR_SCRIPT_SIZE
  | SCRIPT_ERR_PUSH_SIZE
  | SCRIPT_ERR_OP_COUNT
  | SCRIPT_ERR_STACK_SIZE
  | SCRIPT_ERR_SIG_COUNT
  | SCRIPT_ERR_PUBKEY_COUNT
  -- failed verify operations
  | SCRIPT_ERR_VERIFY
  | SCRIPT_ERR_EQUALVERIFY
  | SCRIPT_ERR_CHECKCOLDSTAKEVERIFY
  | SCRIPT_ERR_CHECKMULTISIGVERIFY
  | SCRIPT_ERR_CHECKSIGVERIFY
  | SCRIPT_ERR_NUMEQUALVERIFY
  -- logical, format and canonical errors
  | SCRIPT_ERR_BAD_OPCODE
  | SCRIPT_ERR_DISABLED_OPCODE
  | SCRIPT_ERR_INVALID_STACK_OPERATION
  | SCRIPT_ERR_INVALID_ALTSTACK_OPERATION
  | SCRIPT_ERR_UNBALANCED_CONDITIONAL
  | SCRIPT_ERR_NEGATIVE_LOCKTIME
  | SCRIPT_ERR_UNSATISFIED_LOCKTIME
  | SCRIPT_ERR_SIG_HASHTYPE
  | SCRIPT_ERR_SIG_DER
  | SCRIPT_ERR_MINIMALDATA
  | SCRIPT_ERR_SIG_PUSHONLY
  | SCRIPT_ERR_SIG_HIGH_S
  | SCRIPT_ERR_SIG_NULLDUMMY
  | SCRIPT_ERR_PUBKEYTYPE
  | SCRIPT_ERR_DISCOURAGE_UPGRADABLE_NOPS
  deriving DecidableEq, Repr

open ScriptError Fallible

abbrev ScriptFlags := UInt32

def SCRIPT_VERIFY_NONE : ScriptFlags := 0
def SCRIPT_VERIFY_P2SH : ScriptFlags := 0x1
def SCRIPT_VERIFY_STRICTENC : ScriptFlags := 0x2
def SCRIPT_VERIFY_DERSIG : ScriptFlags := 0x4
def SCRIPT_VERIFY_LOW_S : ScriptFlags := 0x8
def SCRIPT_VERIFY_NULLDUMMY : ScriptFlags := 0x10
def SCRIPT_VERIFY_SIGPUSHONLY : ScriptFlags := 0x20
def SCRIPT_VERIFY_MINIMALDATA : ScriptFlags := 0x40
def SCRIPT_VERIFY_DISCOURAGE_UPGRADABLE_NOPS : ScriptFlags := 0x80
def SCRIPT_VERIFY_CHECKLOCKTIMEVERIFY : ScriptFlags := 0x200

def MANDATORY_SCRIPT_VERIFY_FLAGS : ScriptFlags := SCRIPT_VERIFY_P2SH

def STANDARD_SCRIPT_VERIFY_FLAGS : ScriptFlags :=
  MANDATORY_SCRIPT_VERIFY_FLAGS ||| SCRIPT_VERIFY_DERSIG ||| SCRIPT_VERIFY_STRICTENC |||
    SCRIPT_VERIFY_MINIMALDATA ||| SCRIPT_VERIFY_NULLDUMMY |||
    SCRIPT_VERIFY_DISCOURAGE_UPGRADABLE_NOPS ||| SCRIPT_VERIFY_LOW_S

def ScriptFlags.has (flags f : ScriptFlags) : Bool :=
  flags &&& f != 0

-- Negative zero is false as well.
def castToBool : Bytes → Bool
  | [] => false
  | [b] => b != 0 && b != 0x80
  | b :: bs => b != 0 || castToBool bs

def isCompressedOrUncompressedPubKey (vchPubKey : Bytes) : Bool :=
  match vchPubKey.head? with
  | some 0x04 => vchPubKey.length == 65
  | some 0x02 => vchPubKey.length == 33
  | some 0x03 => vchPubKey.length == 33
  | _ => false

-- `<30> <total len> <02> <len R> <R> <02> <len S> <S> <hashtype>`
def isValidSignatureEncoding (sig : Bytes) : Bool :=
  let byte (i : ℕ) : UInt8 := sig.getD i 0
  let lenR := (byte 3).toNat
  let lenS := (byte (5 + lenR)).toNat
  9 ≤ sig.length && sig.length ≤ 73 &&
  byte 0 == 0x30 &&
  (byte 1).toNat == sig.length - 3 &&
  5 + lenR < sig.length &&
  lenR + lenS + 7 == sig.length &&
  byte 2 == 0x02 &&
  lenR != 0 &&
  byte 4 &&& 0x80 == 0 &&
  !(lenR > 1 && byte 4 == 0x00 && byte 5 &&& 0x80 == 0) &&
  byte (lenR + 4) == 0x02 &&
  lenS != 0 &&
  byte (lenR + 6) &&& 0x80 == 0 &&
  !(lenS > 1 && byte (lenR + 6) == 0x00 && byte (lenR + 7) &&& 0x80 == 0)

def isLowDERSignature [Crypto] (vchSig : Bytes) : Except ScriptError Unit :=
  if !isValidSignatureEncoding vchSig then .error SCRIPT_ERR_SIG_DER
  else if !Crypto.checkLowS vchSig.dropLast then .error SCRIPT_ERR_SIG_HIGH_S
  else .ok ()

def isDefinedHashtypeSignature (vchSig : Bytes) : Bool :=
  match vchSig.getLast? with
  | none => false
  | some b => 1 ≤ b &&& 0x7f && b &&& 0x7f ≤ 3

def checkSignatureEncoding [Crypto] (vchSig : Bytes) (flags : ScriptFlags) :
    Except ScriptError Unit :=
  if vchSig.isEmpty then .ok ()
  else if flags.has (SCRIPT_VERIFY_DERSIG ||| SCRIPT_VERIFY_LOW_S ||| SCRIPT_VERIFY_STRICTENC) &&
      !isValidSignatureEncoding vchSig then
    .error SCRIPT_ERR_SIG_DER
  else do
    onlyIf (flags.has SCRIPT_VERIFY_LOW_S) (isLowDERSignature vchSig)
    failIf (flags.has SCRIPT_VERIFY_STRICTENC && !isDefinedHashtypeSignature vchSig)
      SCRIPT_ERR_SIG_HASHTYPE

def checkPubKeyEncoding (vchPubKey : Bytes) (flags : ScriptFlags) : Except ScriptError Unit :=
  if flags.has SCRIPT_VERIFY_STRICTENC && !isCompressedOrUncompressedPubKey vchPubKey then
    .error SCRIPT_ERR_PUBKEYTYPE
  else .ok ()

def checkMinimalPush (data : Bytes) (opcode : UInt8) : Bool :=
  match data with
  | [] => opcode == OP_0
  | [b] =>
    if 1 ≤ b && b ≤ 16 then opcode == OP_1.toByte + (b - 1)
    else if b = 0x81 then opcode == OP_1NEGATE
    else opcode == 1
  | _ =>
    if data.length ≤ 75 then opcode.toNat == data.length
    else if data.length ≤ 255 then opcode == OP_PUSHDATA1
    else if data.length ≤ 65535 then opcode == OP_PUSHDATA2
    else true

-- What `EvalScript` asks about the spending transaction. A signature check may throw.
structure SignatureChecker where
  checkSig : (vchSig vchPubKey : Bytes) → CScript → SigVersion → Except String Bool
  checkLockTime : ℤ → Bool
  checkColdStake : CScript → (stack : List Bytes) → ScriptFlags → Except ScriptError Unit

structure ScriptState where
  stack : List Bytes
  altstack : List Bytes := []
  vfExec : List Bool := []
  nOpCount : ℕ := 0
  pbegincodehash : CScript

-- The stacks, also that of conditionals, grow at the head.
namespace ScriptState

def fExec (s : ScriptState) : Bool :=
  s.vfExec.all id

def push (s : ScriptState) (vch : Bytes) : ScriptState :=
  { s with stack := vch :: s.stack }

end ScriptState

-- An opcode lets the loop go on or makes `EvalScript` return.
inductive Flow
  | next (s : ScriptState)
  | return (stack : List Bytes)

def Flow.andThen (k : ScriptState → Except ScriptError (List Bytes)) :
    Flow → Except ScriptError (List Bytes)
  | .next s => k s
  | .return stack => .ok stack

def vchFalse : Bytes := []
def vchTrue : Bytes := [1]

def vchBool (b : Bool) : Bytes :=
  if b then vchTrue else vchFalse

section

def scriptNum (fRequireMinimal : Bool) (nMaxNumSize : ℕ) (vch : Bytes) : Except ScriptError ℤ :=
  match CScriptNum.ofVch? vch fRequireMinimal nMaxNumSize with
  | none => .error SCRIPT_ERR_UNKNOWN_ERROR
  | some n => .ok n

def stackOp : Opcodetype → List Bytes → Option (List Bytes)
  | OP_2DROP, _ :: _ :: st => some st
  | OP_2DUP, x2 :: x1 :: st => some (x2 :: x1 :: x2 :: x1 :: st)
  | OP_3DUP, x3 :: x2 :: x1 :: st => some (x3 :: x2 :: x1 :: x3 :: x2 :: x1 :: st)
  | OP_2OVER, x4 :: x3 :: x2 :: x1 :: st => some (x2 :: x1 :: x4 :: x3 :: x2 :: x1 :: st)
  | OP_2ROT, x6 :: x5 :: x4 :: x3 :: x2 :: x1 :: st =>
    some (x2 :: x1 :: x6 :: x5 :: x4 :: x3 :: st)
  | OP_2SWAP, x4 :: x3 :: x2 :: x1 :: st => some (x2 :: x1 :: x4 :: x3 :: st)
  | OP_IFDUP, x :: st => some (if castToBool x then x :: x :: st else x :: st)
  | OP_DEPTH, st => some (CScriptNum.serialize st.length :: st)
  | OP_DROP, _ :: st => some st
  | OP_DUP, x :: st => some (x :: x :: st)
  | OP_NIP, x2 :: _ :: st => some (x2 :: st)
  | OP_OVER, x2 :: x1 :: st => some (x1 :: x2 :: x1 :: st)
  | OP_ROT, x3 :: x2 :: x1 :: st => some (x1 :: x3 :: x2 :: st)
  | OP_SWAP, x2 :: x1 :: st => some (x1 :: x2 :: st)
  | OP_TUCK, x2 :: x1 :: st => some (x2 :: x1 :: x2 :: st)
  | OP_SIZE, x :: st => some (CScriptNum.serialize x.length :: x :: st)
  | _, _ => none

def unaryOp : Opcodetype → ℤ → ℤ
  | OP_1ADD, bn => bn + 1
  | OP_1SUB, bn => bn - 1
  | OP_NEGATE, bn => -bn
  | OP_ABS, bn => if bn < 0 then -bn else bn
  | OP_NOT, bn => if bn = 0 then 1 else 0
  | _, bn => if bn ≠ 0 then 1 else 0

def binaryOp (op : Opcodetype) (bn1 bn2 : ℤ) : ℤ :=
  let bool (b : Bool) : ℤ := if b then 1 else 0
  match op with
  | OP_ADD => bn1 + bn2
  | OP_SUB => bn1 - bn2
  | OP_BOOLAND => bool (bn1 ≠ 0 && bn2 ≠ 0)
  | OP_BOOLOR => bool (bn1 ≠ 0 || bn2 ≠ 0)
  | OP_NUMNOTEQUAL => bool (bn1 ≠ bn2)
  | OP_LESSTHAN => bool (bn1 < bn2)
  | OP_GREATERTHAN => bool (bn1 > bn2)
  | OP_LESSTHANOREQUAL => bool (bn1 ≤ bn2)
  | OP_GREATERTHANOREQUAL => bool (bn1 ≥ bn2)
  | OP_MIN => if bn1 < bn2 then bn1 else bn2
  | OP_MAX => if bn1 > bn2 then bn1 else bn2
  -- OP_NUMEQUAL, OP_NUMEQUALVERIFY
  | _ => bool (bn1 = bn2)

def hashOp [Crypto] : Opcodetype → Bytes → Bytes
  | OP_RIPEMD160, vch => Uint160.bytes (Crypto.ripemd160 vch)
  | OP_SHA1, vch => Uint160.bytes (Crypto.sha1 vch)
  | OP_SHA256, vch => Uint256.bytes (Crypto.sha256 vch)
  | OP_HASH160, vch => Uint160.bytes (hash160 vch)
  | _, vch => Uint256.bytes (hash256 vch)

variable [Crypto] (flags : ScriptFlags) (checker : SignatureChecker) (sigversion : SigVersion)

def checkSigOp (scriptCode : CScript) (vchSig vchPubKey : Bytes) : Except ScriptError Bool := do
  checkSignatureEncoding vchSig flags
  checkPubKeyEncoding vchPubKey flags
  match checker.checkSig vchSig vchPubKey scriptCode sigversion with
  | .ok fSuccess => .ok fSuccess
  | .error _ => .error SCRIPT_ERR_UNKNOWN_ERROR

-- The signatures match the keys in order; it stops with more signatures left than keys.
def multisigLoop (scriptCode : CScript) : (sigs keys : List Bytes) → Except ScriptError Bool
  | [], _ => .ok true
  | _ :: _, [] => .ok false
  | vchSig :: sigs, vchPubKey :: keys => do
    let fOk ← checkSigOp flags checker sigversion scriptCode vchSig vchPubKey
    let sigs := if fOk then sigs else vchSig :: sigs
    if sigs.length > keys.length then .ok false else multisigLoop scriptCode sigs keys
  termination_by structural _ keys => keys

-- The stack after pushing a truth value; `fVerify` is the variant that insists on it.
def pushVerify (fVerify fSuccess : Bool) (e : ScriptError) (st : List Bytes) :
    Except ScriptError (List Bytes) :=
  if !fVerify then .ok (vchBool fSuccess :: st)
  else if fSuccess then .ok st
  else .error e

def checkMultisig (fVerify : Bool) (s : ScriptState) : Except ScriptError ScriptState := do
  let fRequireMinimal := flags.has SCRIPT_VERIFY_MINIMALDATA
  let num (vch : Option Bytes) : Except ScriptError ℤ :=
    match vch with
    | none => .error SCRIPT_ERR_INVALID_STACK_OPERATION
    | some v => CScriptNum.getint <$> scriptNum fRequireMinimal CScriptNum.nDefaultMaxNumSize v
  let nKeysCount ← num s.stack[0]?
  failIf (nKeysCount < 0 ∨ nKeysCount > 20) SCRIPT_ERR_PUBKEY_COUNT
  let nKeys := nKeysCount.toNat
  let nOpCount := s.nOpCount + nKeys
  failIf (nOpCount > 201) SCRIPT_ERR_OP_COUNT
  let nSigsCount ← num s.stack[1 + nKeys]?
  failIf (nSigsCount < 0 ∨ nSigsCount > nKeysCount) SCRIPT_ERR_SIG_COUNT
  let nSigs := nSigsCount.toNat
  match s.stack.drop (2 + nKeys + nSigs) with
  | [] => .error SCRIPT_ERR_INVALID_STACK_OPERATION
  | dummy :: st =>
    let keys := (s.stack.drop 1).take nKeys
    let sigs := (s.stack.drop (2 + nKeys)).take nSigs
    let scriptCode := sigs.foldl (fun c vchSig => c.findAndDelete (CScript.push vchSig))
      s.pbegincodehash
    let fSuccess ← multisigLoop flags checker sigversion scriptCode sigs keys
    failIf (flags.has SCRIPT_VERIFY_NULLDUMMY && !dummy.isEmpty) SCRIPT_ERR_SIG_NULLDUMMY
    let st ← pushVerify fVerify fSuccess SCRIPT_ERR_CHECKMULTISIGVERIFY st
    .ok { s with stack := st, nOpCount := nOpCount }

def checkLockTimeVerify (s : ScriptState) : Except ScriptError ScriptState :=
  if !flags.has SCRIPT_VERIFY_CHECKLOCKTIMEVERIFY then
    -- not enabled; treat as a NOP2
    if flags.has SCRIPT_VERIFY_DISCOURAGE_UPGRADABLE_NOPS then
      .error SCRIPT_ERR_DISCOURAGE_UPGRADABLE_NOPS
    else .ok s
  else match s.stack with
    | [] => .error SCRIPT_ERR_INVALID_STACK_OPERATION
    | vch :: _ => do
      let nLockTime ← scriptNum (flags.has SCRIPT_VERIFY_MINIMALDATA) 5 vch
      if nLockTime < 0 then .error SCRIPT_ERR_NEGATIVE_LOCKTIME
      else if !checker.checkLockTime nLockTime then .error SCRIPT_ERR_UNSATISFIED_LOCKTIME
      else .ok s

def pickRoll (fRoll : Bool) (s : ScriptState) : Except ScriptError ScriptState :=
  match s.stack with
  | vch :: x :: st => do
    let bn ← scriptNum (flags.has SCRIPT_VERIFY_MINIMALDATA) CScriptNum.nDefaultMaxNumSize vch
    let n := CScriptNum.getint bn
    if n < 0 then .error SCRIPT_ERR_INVALID_STACK_OPERATION
    else match (x :: st)[n.toNat]? with
      | none => .error SCRIPT_ERR_INVALID_STACK_OPERATION
      | some xn =>
        .ok { s with stack := xn :: if fRoll then (x :: st).eraseIdx n.toNat else x :: st }
  | _ => .error SCRIPT_ERR_INVALID_STACK_OPERATION

-- The `switch` of `EvalScript`, for an executed opcode or a conditional. `pc` is behind the opcode.
def execOpcode (script : CScript) (op : Opcodetype) (pc : Bytes) (s : ScriptState) :
    Except ScriptError Flow :=
  let fRequireMinimal := flags.has SCRIPT_VERIFY_MINIMALDATA
  let num := scriptNum fRequireMinimal CScriptNum.nDefaultMaxNumSize
  let bad := Except.error SCRIPT_ERR_INVALID_STACK_OPERATION
  match op with
  -- push value
  | OP_1NEGATE | OP_1 | OP_2 | OP_3 | OP_4 | OP_5 | OP_6 | OP_7 | OP_8 | OP_9 | OP_10 | OP_11
  | OP_12 | OP_13 | OP_14 | OP_15 | OP_16 =>
    .ok (.next (s.push (CScriptNum.serialize (op.toByte.toNat - (OP_1.toByte.toNat - 1)))))
  -- control
  | OP_NOP => .ok (.next s)
  | OP_CHECKLOCKTIMEVERIFY => .next <$> checkLockTimeVerify flags checker s
  | OP_NOP1 | OP_NOP3 | OP_NOP4 | OP_NOP5 | OP_NOP6 | OP_NOP7 | OP_NOP8 | OP_NOP9 | OP_NOP10 =>
    if flags.has SCRIPT_VERIFY_DISCOURAGE_UPGRADABLE_NOPS then
      .error SCRIPT_ERR_DISCOURAGE_UPGRADABLE_NOPS
    else .ok (.next s)
  | OP_IF | OP_NOTIF =>
    if !s.fExec then .ok (.next { s with vfExec := false :: s.vfExec })
    else match s.stack with
      | [] => .error SCRIPT_ERR_UNBALANCED_CONDITIONAL
      | vch :: st =>
        let fValue := if op = OP_NOTIF then !castToBool vch else castToBool vch
        .ok (.next { s with stack := st, vfExec := fValue :: s.vfExec })
  | OP_ELSE =>
    match s.vfExec with
    | [] => .error SCRIPT_ERR_UNBALANCED_CONDITIONAL
    | f :: fs => .ok (.next { s with vfExec := (!f) :: fs })
  | OP_ENDIF =>
    match s.vfExec with
    | [] => .error SCRIPT_ERR_UNBALANCED_CONDITIONAL
    | _ :: fs => .ok (.next { s with vfExec := fs })
  | OP_VERIFY =>
    match s.stack with
    | [] => bad
    | vch :: st => if castToBool vch then .ok (.next { s with stack := st })
                   else .error SCRIPT_ERR_VERIFY
  | OP_RETURN => .error SCRIPT_ERR_OP_RETURN
  -- stack ops
  | OP_TOALTSTACK =>
    match s.stack with
    | [] => bad
    | x :: st => .ok (.next { s with stack := st, altstack := x :: s.altstack })
  | OP_FROMALTSTACK =>
    match s.altstack with
    | [] => .error SCRIPT_ERR_INVALID_ALTSTACK_OPERATION
    | x :: st => .ok (.next { s with stack := x :: s.stack, altstack := st })
  | OP_PICK | OP_ROLL => .next <$> pickRoll flags (op = OP_ROLL) s
  | OP_2DROP | OP_2DUP | OP_3DUP | OP_2OVER | OP_2ROT | OP_2SWAP | OP_IFDUP | OP_DEPTH | OP_DROP
  | OP_DUP | OP_NIP | OP_OVER | OP_ROT | OP_SWAP | OP_TUCK | OP_SIZE =>
    match stackOp op s.stack with
    | none => bad
    | some st => .ok (.next { s with stack := st })
  -- bit logic
  | OP_EQUAL | OP_EQUALVERIFY =>
    match s.stack with
    | x2 :: x1 :: st => do
      let st ← pushVerify (op = OP_EQUALVERIFY) (x1 = x2) SCRIPT_ERR_EQUALVERIFY st
      .ok (.next { s with stack := st })
    | _ => bad
  -- numeric
  | OP_1ADD | OP_1SUB | OP_NEGATE | OP_ABS | OP_NOT | OP_0NOTEQUAL =>
    match s.stack with
    | [] => bad
    | x :: st => do
      let bn ← num x
      .ok (.next { s with stack := CScriptNum.serialize (unaryOp op bn) :: st })
  | OP_ADD | OP_SUB | OP_BOOLAND | OP_BOOLOR | OP_NUMEQUAL | OP_NUMEQUALVERIFY | OP_NUMNOTEQUAL
  | OP_LESSTHAN | OP_GREATERTHAN | OP_LESSTHANOREQUAL | OP_GREATERTHANOREQUAL | OP_MIN | OP_MAX =>
    match s.stack with
    | x2 :: x1 :: st => do
      let bn1 ← num x1
      let bn2 ← num x2
      let bn := binaryOp op bn1 bn2
      if op ≠ OP_NUMEQUALVERIFY then
        .ok (.next { s with stack := CScriptNum.serialize bn :: st })
      else if castToBool (CScriptNum.serialize bn) then .ok (.next { s with stack := st })
      else .error SCRIPT_ERR_NUMEQUALVERIFY
    | _ => bad
  | OP_WITHIN =>
    match s.stack with
    | x3 :: x2 :: x1 :: st => do
      let bn1 ← num x1
      let bn2 ← num x2
      let bn3 ← num x3
      .ok (.next { s with stack := vchBool (bn2 ≤ bn1 && bn1 < bn3) :: st })
    | _ => bad
  -- crypto
  | OP_RIPEMD160 | OP_SHA1 | OP_SHA256 | OP_HASH160 | OP_HASH256 =>
    match s.stack with
    | [] => bad
    | x :: st => .ok (.next { s with stack := hashOp op x :: st })
  | OP_CODESEPARATOR => .ok (.next { s with pbegincodehash := pc })
  | OP_CHECKSIG | OP_CHECKSIGVERIFY =>
    match s.stack with
    | vchPubKey :: vchSig :: st => do
      let scriptCode := s.pbegincodehash.findAndDelete (CScript.push vchSig)
      let fSuccess ← checkSigOp flags checker sigversion scriptCode vchSig vchPubKey
      let st ← pushVerify (op = OP_CHECKSIGVERIFY) fSuccess SCRIPT_ERR_CHECKSIGVERIFY st
      .ok (.next { s with stack := st })
    | _ => bad
  | OP_CHECKMULTISIG | OP_CHECKMULTISIGVERIFY =>
    .next <$> checkMultisig flags checker sigversion (op = OP_CHECKMULTISIGVERIFY) s
  -- The evaluation returns what the cold stake check says.
  | OP_CHECKCOLDSTAKEVERIFY => do
    checker.checkColdStake script s.stack flags
    .ok (.return s.stack)
  | OP_ASSETSMINT | OP_ASSETSSPEND => .ok (.next s)
  | _ => .error SCRIPT_ERR_BAD_OPCODE

def isDisabled : Opcodetype → Bool
  | OP_CAT | OP_SUBSTR | OP_LEFT | OP_RIGHT | OP_INVERT | OP_AND | OP_OR | OP_XOR | OP_2MUL
  | OP_2DIV | OP_MUL | OP_DIV | OP_MOD | OP_LSHIFT | OP_RSHIFT => true
  | _ => false

def checkStackSize : Flow → Except ScriptError Flow
  | .return stack => .ok (.return stack)
  | .next s =>
    if s.stack.length + s.altstack.length > 1000 then .error SCRIPT_ERR_STACK_SIZE
    else .ok (.next s)

def execInstr (script : CScript) (opcode : UInt8) (vch pc : Bytes) (s : ScriptState) :
    Except ScriptError Flow := do
  failIf (vch.length > MAX_SCRIPT_ELEMENT_SIZE) SCRIPT_ERR_PUSH_SIZE
  let s := if opcode > OP_16 then { s with nOpCount := s.nOpCount + 1 } else s
  failIf (opcode > OP_16 ∧ s.nOpCount > 201) SCRIPT_ERR_OP_COUNT
  failIf ((Opcodetype.ofByte opcode).any isDisabled) SCRIPT_ERR_DISABLED_OPCODE
  let flow ←
    if s.fExec && opcode ≤ OP_PUSHDATA4 then
      if flags.has SCRIPT_VERIFY_MINIMALDATA && !checkMinimalPush vch opcode then
        .error SCRIPT_ERR_MINIMALDATA
      else .ok (.next (s.push vch))
    else if s.fExec || (OP_IF.toByte ≤ opcode && opcode ≤ OP_ENDIF) then
      match Opcodetype.ofByte opcode with
      | none => .error SCRIPT_ERR_BAD_OPCODE
      | some op => execOpcode flags checker sigversion script op pc s
    else .ok (.next s)
  checkStackSize flow

def evalCode (script : CScript) : Code → ScriptState → Except ScriptError (List Bytes)
  | .done, s =>
    if s.vfExec.isEmpty then .ok s.stack else .error SCRIPT_ERR_UNBALANCED_CONDITIONAL
  | .truncated _, _ => .error SCRIPT_ERR_BAD_OPCODE
  | .instr opcode vch pc next, s =>
    execInstr flags checker sigversion script opcode vch pc s >>= Flow.andThen (evalCode script next)

def evalScript (stack : List Bytes) (script : CScript) : Except ScriptError (List Bytes) :=
  if script.length > MAX_SCRIPT_SIZE then .error SCRIPT_ERR_SCRIPT_SIZE
  else evalCode flags checker sigversion script (Code.decode script)
    { stack := stack, pbegincodehash := script }

def evalTrue (stack : List Bytes) (script : CScript) : Except ScriptError Unit := do
  match ← evalScript flags checker sigversion stack script with
  | [] => .error SCRIPT_ERR_EVAL_FALSE
  | x :: _ => if castToBool x then .ok () else .error SCRIPT_ERR_EVAL_FALSE

def verifyScript (scriptSig scriptPubKey : CScript) : Except ScriptError Unit := do
  failIf (flags.has SCRIPT_VERIFY_SIGPUSHONLY && !scriptSig.isPushOnly) SCRIPT_ERR_SIG_PUSHONLY
  let stack ← evalScript flags checker sigversion [] scriptSig
  evalTrue flags checker sigversion stack scriptPubKey
  -- Additional validation for spend-to-script-hash transactions.
  onlyIf (flags.has SCRIPT_VERIFY_P2SH && scriptPubKey.isPayToScriptHash) do
    failIf (!scriptSig.isPushOnly) SCRIPT_ERR_SIG_PUSHONLY
    match stack with
    | [] => .error SCRIPT_ERR_UNKNOWN_ERROR
    | pubKeySerialized :: st => evalTrue flags checker sigversion st pubKeySerialized

end

namespace CPubKey

def getLen (chHeader : UInt8) : ℕ :=
  if chHeader = 2 || chHeader = 3 then 33
  else if chHeader = 4 || chHeader = 6 || chHeader = 7 then 65
  else 0

def isValid (vch : Bytes) : Bool :=
  match vch.head? with
  | none => false
  | some chHeader => getLen chHeader != 0 && getLen chHeader == vch.length

end CPubKey

namespace TransactionSignatureChecker

variable [Crypto] (newP2CSRules : Bool) (txTo : CTransaction) (nIn : ℕ) (amount : CAmount)

def checkSig (vchSig vchPubKey : Bytes) (scriptCode : CScript) (sigversion : SigVersion) :
    Except String Bool :=
  if !CPubKey.isValid vchPubKey then .ok false
  else match vchSig.getLast? with
    | none => .ok false
    | some nHashType => do
      let sighash ←
        signatureHash scriptCode txTo nIn (Int32.ofNat nHashType.toNat) amount sigversion
      .ok (Crypto.verify vchPubKey sighash vchSig.dropLast)

def checkLockTime (nLockTime : ℤ) : Bool :=
  let txLockTime := txTo.nLockTime.toNat
  ((txLockTime < LOCKTIME_THRESHOLD && nLockTime < LOCKTIME_THRESHOLD) ||
    (txLockTime ≥ LOCKTIME_THRESHOLD && nLockTime ≥ LOCKTIME_THRESHOLD)) &&
  !(nLockTime > txLockTime) &&
  !(txTo.vin[nIn]?).any CTxIn.isFinal

-- What goes back to the spent script, behind the first output. Only the last of three or more may have another script.
def coldStakeOutValue (prevoutScript : CScript) (outs : ℕ) :
    List CTxOut → CAmount → Except ScriptError CAmount
  | [], outValue => .ok outValue
  | txout :: vout, outValue =>
    if txout.scriptPubKey ≠ prevoutScript then
      if !vout.isEmpty || outs < 3 then .error SCRIPT_ERR_CHECKCOLDSTAKEVERIFY
      else coldStakeOutValue prevoutScript outs vout outValue
    else coldStakeOutValue prevoutScript outs vout (outValue + txout.nValue)

-- The stack can contain only `<sig> <pk> <pkh>` once the new rules are enforced.
def checkColdStakeStack (stack : List Bytes) (flags : ScriptFlags) : Except ScriptError Unit :=
  match stack with
  | [vchPubKeyHash, vchPubKey, vchSig] => do
    checkSignatureEncoding vchSig flags
    checkPubKeyEncoding vchPubKey flags
    failIf (vchPubKeyHash.length ≠ 20) SCRIPT_ERR_SCRIPT_SIZE
  | _ => .error SCRIPT_ERR_INVALID_STACK_OPERATION

def checkColdStake (prevoutScript : CScript) (stack : List Bytes) (flags : ScriptFlags) :
    Except ScriptError Unit := do
  onlyIf newP2CSRules (checkColdStakeStack stack flags)
  failIf (!txTo.isCoinStake) SCRIPT_ERR_CHECKCOLDSTAKEVERIFY
  failIf (txTo.vin.length ≠ 1) SCRIPT_ERR_CHECKCOLDSTAKEVERIFY
  let outValue ← coldStakeOutValue prevoutScript txTo.vout.length txTo.vout.tail 0
  failIf (outValue < amount) SCRIPT_ERR_CHECKCOLDSTAKEVERIFY

def checker : SignatureChecker where
  checkSig := checkSig txTo nIn amount
  checkLockTime := checkLockTime txTo nIn
  checkColdStake := checkColdStake newP2CSRules txTo amount

end TransactionSignatureChecker

end Qrax
