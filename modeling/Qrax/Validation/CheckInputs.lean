import Qrax.Consensus.TxVerify
import Qrax.Script.Interpreter

open Fallible

namespace Qrax

def scriptErrorString : ScriptError → String
  | .SCRIPT_ERR_EVAL_FALSE =>
    "Script evaluated without error but finished with a false/empty top stack element"
  | .SCRIPT_ERR_VERIFY => "Script failed an OP_VERIFY operation"
  | .SCRIPT_ERR_EQUALVERIFY => "Script failed an OP_EQUALVERIFY operation"
  | .SCRIPT_ERR_CHECKCOLDSTAKEVERIFY => "Script failed an OP_CHECKCOLDSTAKEVERIFY operation"
  | .SCRIPT_ERR_CHECKMULTISIGVERIFY => "Script failed an OP_CHECKMULTISIGVERIFY operation"
  | .SCRIPT_ERR_CHECKSIGVERIFY => "Script failed an OP_CHECKSIGVERIFY operation"
  | .SCRIPT_ERR_NUMEQUALVERIFY => "Script failed an OP_NUMEQUALVERIFY operation"
  | .SCRIPT_ERR_SCRIPT_SIZE => "Script is too big"
  | .SCRIPT_ERR_PUSH_SIZE => "Push value size limit exceeded"
  | .SCRIPT_ERR_OP_COUNT => "Operation limit exceeded"
  | .SCRIPT_ERR_STACK_SIZE => "Stack size limit exceeded"
  | .SCRIPT_ERR_SIG_COUNT => "Signature count negative or greater than pubkey count"
  | .SCRIPT_ERR_PUBKEY_COUNT => "Pubkey count negative or limit exceeded"
  | .SCRIPT_ERR_BAD_OPCODE => "Opcode missing or not understood"
  | .SCRIPT_ERR_DISABLED_OPCODE => "Attempted to use a disabled opcode"
  | .SCRIPT_ERR_INVALID_STACK_OPERATION => "Operation not valid with the current stack size"
  | .SCRIPT_ERR_INVALID_ALTSTACK_OPERATION => "Operation not valid with the current altstack size"
  | .SCRIPT_ERR_OP_RETURN => "OP_RETURN was encountered"
  | .SCRIPT_ERR_UNBALANCED_CONDITIONAL => "Invalid OP_IF construction"
  | .SCRIPT_ERR_NEGATIVE_LOCKTIME => "Negative locktime"
  | .SCRIPT_ERR_UNSATISFIED_LOCKTIME => "Locktime requirement not satisfied"
  | .SCRIPT_ERR_SIG_HASHTYPE => "Signature hash type missing or not understood"
  | .SCRIPT_ERR_SIG_DER => "Non-canonical DER signature"
  | .SCRIPT_ERR_MINIMALDATA => "Data push larger than necessary"
  | .SCRIPT_ERR_SIG_PUSHONLY => "Only non-push operators allowed in signatures"
  | .SCRIPT_ERR_SIG_HIGH_S => "Non-canonical signature: S value is unnecessarily high"
  | .SCRIPT_ERR_SIG_NULLDUMMY => "Dummy CHECKMULTISIG argument must be zero"
  | .SCRIPT_ERR_DISCOURAGE_UPGRADABLE_NOPS => "NOPx reserved for soft-fork upgrades"
  | .SCRIPT_ERR_PUBKEYTYPE => "Public key is neither compressed or uncompressed"
  | .SCRIPT_ERR_UNKNOWN_ERROR => "unknown error"

def STANDARD_NOT_MANDATORY_VERIFY_FLAGS : ScriptFlags :=
  STANDARD_SCRIPT_VERIFY_FLAGS &&& ~~~MANDATORY_SCRIPT_VERIFY_FLAGS

structure CScriptCheck where
  scriptPubKey : CScript
  amount : CAmount
  txTo : CTransaction
  nIn : ℕ
  nFlags : ScriptFlags
  deriving DecidableEq

section

variable (node : Node)

def getSpendHeight (inputs : CCoinsViewCache) : Except Failure (ℕ × CCoinsViewCache) :=
  let (hash, inputs) := inputs.getBestBlock
  match node.mapBlockIndex hash with
  | none => .error (.assertion "mapBlockIndex.find(inputs.GetBestBlock())")
  | some pindexPrev => .ok (pindexPrev.nHeight + 1, inputs)

def checkTxIn (nSpendHeight : ℕ) : ℤ × CCoinsViewCache → CTxIn → Except Failure (ℤ × CCoinsViewCache)
  | (nValueIn, inputs), txin => do
    let (coin, inputs) := inputs.accessCoin txin.prevout
    failIf coin.isSpent (.assertion "!coin.IsSpent()")
    failIf ((coin.fCoinBase || coin.fCoinStake) &&
        (nSpendHeight : ℤ) - coin.nHeight < node.consensus.nCoinbaseMaturity)
      (dos 0 REJECT_INVALID "bad-txns-premature-spend-of-coinbase-coinstake")
    let nValueIn := nValueIn + coin.out.nValue.toInt
    failIf (!node.consensus.moneyRange coin.out.nValue.toInt || !node.consensus.moneyRange nValueIn)
      (dos 100 REJECT_INVALID "bad-txns-inputvalues-outofrange")
    .ok (nValueIn, inputs)

def checkTxFee (arith : Arith) (tx : CTransaction) (nValueIn : ℤ) : Except Failure Unit := do
  let nValueOut ← tx.getValueOut arith
  failIf (nValueIn < nValueOut) (dos 100 REJECT_INVALID "bad-txns-in-belowout")
  let nTxFee := nValueIn - nValueOut
  failIf (nTxFee < 0) (dos 100 REJECT_INVALID "bad-txns-fee-negative")
  failIf (!node.consensus.moneyRange nTxFee) (dos 100 REJECT_INVALID "bad-txns-fee-outofrange")

end

variable [Crypto] (node : Node)

namespace CScriptCheck

def run (check : CScriptCheck) : Except ScriptError Unit :=
  let scriptSig := (check.txTo.vin[check.nIn]?).elim [] (·.scriptSig)
  verifyScript check.nFlags
    (TransactionSignatureChecker.checker node.newP2CSRules check.txTo check.nIn check.amount)
    check.txTo.getRequiredSigVersion scriptSig check.scriptPubKey

def verify (check : CScriptCheck) : Except Failure Unit :=
  match check.run node with
  | .ok _ => .ok ()
  | .error e =>
    let mandatory := { check with nFlags := check.nFlags &&& ~~~STANDARD_NOT_MANDATORY_VERIFY_FLAGS }
    if check.nFlags &&& STANDARD_NOT_MANDATORY_VERIFY_FLAGS ≠ 0 ∧ mandatory.run node = .ok () then
      .error (dos 0 REJECT_NONSTANDARD ("non-mandatory-script-verify-flag (" ++ scriptErrorString e ++ ")"))
    else
      .error (dos 100 REJECT_INVALID ("mandatory-script-verify-flag-failed (" ++ scriptErrorString e ++ ")"))

end CScriptCheck

def checkTxInputs (arith : Arith) (tx : CTransaction) (inputs : CCoinsViewCache) (nSpendHeight : ℕ) :
    Except Failure CCoinsViewCache := do
  let (have', inputs) := inputs.haveInputs tx
  failIf (!have') (dos 0 0 "")
  let (met, inputs) := inputs.haveShieldedRequirements tx
  failIf (!met) (dos 0 0 "")
  let (nValueIn, inputs) ← tx.vin.foldlM (checkTxIn node nSpendHeight) (0, inputs)
  onlyIf (!tx.isCoinStake) (checkTxFee node arith tx nValueIn)
  .ok inputs

def checkScripts (fQueue : Bool) (tx : CTransaction) (nFlags : ScriptFlags) (nIn : ℕ) (inputs : CCoinsViewCache) :
    List CTxIn → Except Failure (List CScriptCheck × CCoinsViewCache)
  | [] => .ok ([], inputs)
  | txin :: vin => do
    let (coin, inputs) := inputs.accessCoin txin.prevout
    failIf coin.isSpent (.assertion "!coin.IsSpent()")
    let check : CScriptCheck :=
      { scriptPubKey := coin.out.scriptPubKey, amount := coin.out.nValue, txTo := tx, nIn, nFlags }
    onlyIf (!fQueue) (check.verify node)
    let (vChecks, inputs) ← checkScripts fQueue tx nFlags (nIn + 1) inputs vin
    .ok (if fQueue then check :: vChecks else vChecks, inputs)

def checkInputs (arith : Arith) (tx : CTransaction) (inputs : CCoinsViewCache) (fScriptChecks : Bool)
    (nFlags : ScriptFlags) (fQueue : Bool) : Except Failure (List CScriptCheck × CCoinsViewCache) :=
  if !tx.isCoinBase && !tx.containsAssets then do
    let (nSpendHeight, inputs) ← getSpendHeight node inputs
    let inputs ← checkTxInputs node arith tx inputs nSpendHeight
    if fScriptChecks then checkScripts node fQueue tx nFlags 0 inputs tx.vin
    else .ok ([], inputs)
  else .ok ([], inputs)

end Qrax
