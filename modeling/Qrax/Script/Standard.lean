import Qrax.Script.Interpreter

namespace Qrax

open Opcodetype Code

inductive Txnouttype
  | TX_NONSTANDARD
  | TX_PUBKEY
  | TX_PUBKEYHASH
  | TX_SCRIPTHASH
  | TX_MULTISIG
  | TX_NULL_DATA
  | TX_COLDSTAKE
  | TX_ASSETSMINT
  | TX_DPOSASSETMINT
  deriving DecidableEq, Repr

open Txnouttype

def getScriptForStakeDelegation (stakingKey spendingKey : CKeyID) : CScript :=
  [OP_DUP.toByte, OP_HASH160.toByte, OP_ROT.toByte, OP_IF.toByte,
    OP_CHECKCOLDSTAKEVERIFY.toByte] ++ CScript.push (Uint160.bytes stakingKey) ++
    [OP_ELSE.toByte] ++ CScript.push (Uint160.bytes spendingKey) ++
    [OP_ENDIF.toByte, OP_EQUALVERIFY.toByte, OP_CHECKSIG.toByte]

def getScriptForMultiminingDestination (ownerKey : CKeyID) : CScript :=
  [OP_DUP.toByte, OP_HASH160.toByte, OP_ASSETSMINT.toByte] ++
    CScript.push (Uint160.bytes ownerKey) ++ [OP_EQUALVERIFY.toByte, OP_CHECKSIG.toByte]

def getScriptForAssetsDposDestination (owner staker : CKeyID) : CScript :=
  [OP_DUP.toByte, OP_HASH160.toByte, OP_ROT.toByte, OP_IF.toByte,
    OP_DPOSASSETSMINT.toByte] ++ CScript.push (Uint160.bytes staker) ++
    [OP_ELSE.toByte] ++ CScript.push (Uint160.bytes owner) ++
    [OP_ENDIF.toByte, OP_EQUALVERIFY.toByte, OP_CHECKSIG.toByte]

inductive CTxDestination
  | CNoDestination
  | CKeyID (keyID : Uint160)
  | CScriptID (scriptID : Uint160)
  deriving DecidableEq

def getScriptForDestination : CTxDestination → CScript
  | .CNoDestination => []
  | .CKeyID keyID => [OP_DUP.toByte, OP_HASH160.toByte] ++ CScript.push keyID.bytes ++
    [OP_EQUALVERIFY.toByte, OP_CHECKSIG.toByte]
  | .CScriptID scriptID => [OP_HASH160.toByte] ++ CScript.push scriptID.bytes ++ [OP_EQUAL.toByte]

def getScriptForRawPubKey (pubKey : Bytes) : CScript :=
  CScript.push pubKey ++ [OP_CHECKSIG.toByte]

def CScript.encodeOpN (n : ℕ) : UInt8 :=
  if n = 0 then OP_0.toByte else UInt8.ofNat (OP_1.toByte.toNat + n - 1)

def getScriptForMultisig (nRequired : ℕ) (keys : List Bytes) : CScript :=
  CScript.encodeOpN nRequired :: keys.flatMap CScript.push ++ [CScript.encodeOpN keys.length, OP_CHECKMULTISIG.toByte]

def isSmallInteger (opcode : UInt8) : Bool :=
  OP_1.toByte ≤ opcode && opcode ≤ OP_16

def matchPayToPubkey (script : CScript) : Option Bytes :=
  let pubkey := script.tail.dropLast
  if (script.length == 67 && script[0]? == some 65 || script.length == 35 && script[0]? == some 33) &&
      script.getLast? == some OP_CHECKSIG.toByte && CPubKey.isValid pubkey then
    some pubkey
  else none

def multisigKeys : Code → List Bytes × UInt8 × Bytes
  | .done => ([], OP_INVALIDOPCODE, [])
  | .truncated pc => ([], OP_INVALIDOPCODE, pc)
  | .instr opcode data pc next =>
    if CPubKey.isValid data then
      let (keys, rest) := multisigKeys next
      (data :: keys, rest)
    else ([], opcode, pc)

def matchMultisig (script : CScript) : Option (ℕ × List Bytes) :=
  if script.getLast? != some OP_CHECKMULTISIG.toByte then none
  else match Code.decode script with
    | .instr opcode _ _ next =>
      let required := CScript.decodeOpN opcode
      let (pubkeys, opcode', it) := multisigKeys next
      let keys := CScript.decodeOpN opcode'
      if isSmallInteger opcode && isSmallInteger opcode' && pubkeys.length == keys &&
          required ≤ keys && it.length == 1 then
        some (required, pubkeys)
      else none
    | _ => none

def solver (newP2CSRules : Bool) (scriptPubKey : CScript) : Option (Txnouttype × List Bytes) :=
  let keyHashes := [(scriptPubKey.drop 6).take 20, (scriptPubKey.drop 28).take 20]
  if scriptPubKey.isEmpty then none
  else if scriptPubKey.isPayToScriptHash then
    some (TX_SCRIPTHASH, [(scriptPubKey.drop 2).take 20])
  else if scriptPubKey.isPayAssetScriptHash then
    some (TX_ASSETSMINT, [(scriptPubKey.drop 4).take 20])
  else if scriptPubKey.startsWithOpcode OP_RETURN && CScript.isPushOnly scriptPubKey.tail then
    some (TX_NULL_DATA, [])
  else if let some pubkey := matchPayToPubkey scriptPubKey then some (TX_PUBKEY, [pubkey])
  else if scriptPubKey.isPayToPublicKeyHash then
    some (TX_PUBKEYHASH, [(scriptPubKey.drop 3).take 20])
  else if scriptPubKey.isPayToColdStaking newP2CSRules then some (TX_COLDSTAKE, keyHashes)
  else if scriptPubKey.isPayAssetDposScript then some (TX_DPOSASSETMINT, keyHashes)
  else if let some (required, keys) := matchMultisig scriptPubKey then
    some (TX_MULTISIG, [UInt8.ofNat required] :: keys ++ [[UInt8.ofNat keys.length]])
  else none

def Uint160.ofBytes (vch : Bytes) : Uint160 :=
  BitVec.ofNat 160 (Encoding.leNat vch)

def extractDestination [Crypto] (newP2CSRules : Bool) (scriptPubKey : CScript) (fColdStake : Bool) :
    Option CTxDestination :=
  match solver newP2CSRules scriptPubKey with
  | some (TX_PUBKEY, vSolutions) =>
    if CPubKey.isValid (vSolutions.headD []) then some (.CKeyID (hash160 (vSolutions.headD []))) else none
  | some (TX_PUBKEYHASH, vSolutions) | some (TX_ASSETSMINT, vSolutions) =>
    some (.CKeyID (Uint160.ofBytes (vSolutions.headD [])))
  | some (TX_SCRIPTHASH, vSolutions) => some (.CScriptID (Uint160.ofBytes (vSolutions.headD [])))
  | some (TX_COLDSTAKE, vSolutions) | some (TX_DPOSASSETMINT, vSolutions) =>
    some (.CKeyID (Uint160.ofBytes (vSolutions.getD (if fColdStake then 0 else 1) [])))
  | _ => none

def extractDestinations [Crypto] (newP2CSRules : Bool) (scriptPubKey : CScript) :
    Option (Txnouttype × List CTxDestination × ℕ) :=
  match solver newP2CSRules scriptPubKey with
  | none | some (TX_NULL_DATA, _) => none
  | some (typeRet, vSolutions) =>
    if typeRet = TX_COLDSTAKE || typeRet = TX_DPOSASSETMINT then
      if vSolutions.length < 2 then none
      else
        some (typeRet, [.CKeyID (.ofBytes (vSolutions.getD 0 [])), .CKeyID (.ofBytes (vSolutions.getD 1 []))], 2)
    else (extractDestination newP2CSRules scriptPubKey false).map fun address => (typeRet, [address], 1)

def isValidDestination (dest : CTxDestination) : Bool :=
  dest ≠ .CNoDestination

def scriptSigArgsExpected (t : Txnouttype) (vSolutions : List Bytes) : ℤ :=
  match t with
  | TX_NONSTANDARD | TX_NULL_DATA => -1
  | TX_PUBKEY => 1
  | TX_ASSETSMINT | TX_PUBKEYHASH => 2
  | TX_COLDSTAKE | TX_DPOSASSETMINT => 3
  | TX_MULTISIG =>
    match vSolutions with
    | (required :: _) :: _ => required.toNat + 1
    | _ => -1
  | TX_SCRIPTHASH => 1

variable (stakingKey spendingKey : CKeyID)

theorem push_uint160 (h : Uint160) : CScript.push (Uint160.bytes h) = 0x14 :: Uint160.bytes h := by
  have hl : (Uint160.bytes h).length = 20 := Uint160.bytes_length h
  have hp : OP_PUSHDATA1.toByte.toNat = 76 := rfl
  simp only [CScript.push, hl, hp]
  rfl

theorem getScriptForStakeDelegation_length :
    (getScriptForStakeDelegation stakingKey spendingKey).length = 51 := by
  simp [getScriptForStakeDelegation, push_uint160]

theorem decode_getScriptForStakeDelegation :
    ∃ p₁ p₂ p₃ p₄ p₅ p₆ p₇ p₈ p₉ p₁₀,
      Code.decode (getScriptForStakeDelegation stakingKey spendingKey) =
        .instr OP_DUP [] p₁ (.instr OP_HASH160 [] p₂ (.instr OP_ROT [] p₃ (.instr OP_IF [] p₄
        (.instr OP_CHECKCOLDSTAKEVERIFY [] p₅ (.instr 0x14 (Uint160.bytes stakingKey) p₆
        (.instr OP_ELSE [] p₇ (.instr 0x14 (Uint160.bytes spendingKey) p₈
        (.instr OP_ENDIF [] p₉ (.instr OP_EQUALVERIFY [] p₁₀
        (.instr OP_CHECKSIG [] [] .done)))))))))) := by
  simp only [getScriptForStakeDelegation, push_uint160, List.cons_append, List.nil_append,
    List.append_assoc]
  rw [decode_opcode _ (by decide), decode_opcode _ (by decide),
    decode_opcode _ (by decide), decode_opcode _ (by decide),
    decode_opcode _ (by decide), decode_push _ (by decide) (Uint160.bytes_length _),
    decode_opcode _ (by decide), decode_push _ (by decide) (Uint160.bytes_length _),
    decode_opcode _ (by decide), decode_opcode _ (by decide),
    decode_opcode _ (by decide), decode_nil]
  exact ⟨_, _, _, _, _, _, _, _, _, _, rfl⟩

end Qrax
