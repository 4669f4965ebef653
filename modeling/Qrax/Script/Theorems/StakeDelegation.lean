import Qrax.Script.Standard
import Qrax.Script.Theorems.Evaluation

namespace Qrax

open Opcodetype ScriptError Fallible Uint160

theorem checkMinimalPush_uint160 (h : Uint160) : checkMinimalPush (bytes h) 0x14 := by
  have hl : (bytes h).length = 20 := bytes_length h
  unfold checkMinimalPush
  split
  · simp_all
  · simp_all
  · simp [hl]

section

variable [Crypto] {flags : ScriptFlags} {checker : SignatureChecker} {sigversion : SigVersion}
variable {script : CScript}
variable (stakingKey spendingKey : CKeyID) {pk sel : Bytes} {rest : List Bytes}

variable {next : Code} {p : Bytes} {st : List Bytes}

-- The script before the branches: it hashes the key and consumes the selector.
theorem evalCode_selectBranch (hl : rest.length + 2 < 1000) {p₁ p₂ p₃ p₄ : Bytes} :
    evalCode flags checker sigversion script
      (.instr OP_DUP [] p₁ (.instr OP_HASH160 [] p₂ (.instr OP_ROT [] p₃
        (.instr OP_IF [] p₄ next))))
      { stack := pk :: sel :: rest, pbegincodehash := script } =
    evalCode flags checker sigversion script next
      { stack := bytes (hash160 pk) :: pk :: rest, vfExec := [castToBool sel]
        nOpCount := 4, pbegincodehash := script } := by
  rw [evalCode_next (by decide) rfl (.inl rfl) (by simp) rfl (by simp; omega),
    evalCode_next (by decide) rfl (.inl rfl) (by simp) rfl (by simp; omega),
    evalCode_next (by decide) rfl (.inl rfl) (by simp) rfl (by simp; omega),
    evalCode_next (by decide) rfl (.inl rfl) (by simp) rfl (by simp; omega)]
  rfl

-- The opcode of the staking branch returns: key hash and signature are never read.
theorem evalCode_stakingBranch {hash : Bytes} :
    evalCode flags checker sigversion script (.instr OP_CHECKCOLDSTAKEVERIFY [] p next)
      { stack := hash :: st, vfExec := [true], nOpCount := 4, pbegincodehash := script } =
    (do checker.checkColdStake script (hash :: st) flags; .ok (hash :: st)) := by
  rw [evalCode_op (by decide) rfl (.inl rfl) (by simp)]
  change (checker.checkColdStake script (hash :: st) flags >>= fun _ => .ok (.return (hash :: st)))
    >>= checkStackSize >>= _ = _
  cases checker.checkColdStake script (hash :: st) flags <;> rfl

theorem evalCode_skipStaking (hl : st.length ≤ 1000) {p₅ p₆ : Bytes}
    :
    evalCode flags checker sigversion script
      (.instr OP_CHECKCOLDSTAKEVERIFY [] p₅ (.instr 0x14 (bytes stakingKey) p₆ next))
      { stack := st, vfExec := [false], nOpCount := 4, pbegincodehash := script } =
    evalCode flags checker sigversion script next
      { stack := st, vfExec := [false], nOpCount := 5, pbegincodehash := script } := by
  have hv : (bytes stakingKey).length ≤ MAX_SCRIPT_ELEMENT_SIZE := by
    simp [MAX_SCRIPT_ELEMENT_SIZE]
  rw [evalCode, execInstr_skip (by simp) (by decide) rfl (by decide) (by simp),
    if_pos (by decide), checkStackSize_next (by simpa using hl), ok_bind, Flow.andThen,
    evalCode, execInstr_skip hv (by decide) rfl (by decide) (by simp),
    if_neg (by decide), checkStackSize_next (by simpa using hl), ok_bind, Flow.andThen]

-- What remains behind OP_ENDIF: pay-to-pubkey-hash with the hash of the branch.
def spendKeyHash (flags : ScriptFlags) (checker : SignatureChecker) (sigversion : SigVersion)
    (script : CScript) (keyHash : Bytes) : List Bytes → Except ScriptError (List Bytes)
  | hash :: vchPubKey :: vchSig :: st =>
    if hash = keyHash then do
      let fSuccess ← checkSigOp flags checker sigversion
        (script.findAndDelete (CScript.push vchSig)) vchSig vchPubKey
      .ok (vchBool fSuccess :: st)
    else .error SCRIPT_ERR_EQUALVERIFY
  | hash :: _ =>
    if hash = keyHash then .error SCRIPT_ERR_INVALID_STACK_OPERATION
    else .error SCRIPT_ERR_EQUALVERIFY
  | [] => .error SCRIPT_ERR_INVALID_STACK_OPERATION

theorem evalCode_elseBranch (hl : st.length < 1000) {p₇ p₈ p₉ : Bytes}
    :
    evalCode flags checker sigversion script
      (.instr OP_ELSE [] p₇ (.instr 0x14 (bytes spendingKey) p₈
        (.instr OP_ENDIF [] p₉ next)))
      { stack := st, vfExec := [false], nOpCount := 5, pbegincodehash := script } =
    evalCode flags checker sigversion script next
      { stack := bytes spendingKey :: st, nOpCount := 7, pbegincodehash := script } := by
  have hv : (bytes spendingKey).length ≤ MAX_SCRIPT_ELEMENT_SIZE := by
    simp [MAX_SCRIPT_ELEMENT_SIZE]
  rw [evalCode_next (by decide) rfl (.inr (by decide)) (by simp) rfl (by simp; omega), evalCode,
    execInstr_push (by decide) (by decide) hv (checkMinimalPush_uint160 _) rfl,
    checkStackSize_next (by simp [ScriptState.push]; omega), ok_bind, Flow.andThen,
    evalCode_next (by decide) rfl (.inl rfl) (by simp [ScriptState.push]) rfl
      (by simp [ScriptState.push]; omega)]
  rfl

theorem evalCode_equalVerifyCheckSig {keyHash hash : Bytes}
    (hl : st.length ≤ 1000) :
    evalCode flags checker sigversion script
      (.instr OP_EQUALVERIFY [] p (.instr OP_CHECKSIG [] [] .done))
      { stack := keyHash :: hash :: st, nOpCount := 7, pbegincodehash := script } =
    spendKeyHash flags checker sigversion script keyHash (hash :: st) := by
  rw [evalCode_op (by decide) rfl (.inl rfl) (by simp)]
  change (pushVerify true (decide (hash = keyHash)) SCRIPT_ERR_EQUALVERIFY st >>= fun st =>
    .ok (Flow.next { stack := st, nOpCount := 8, pbegincodehash := script })) >>= checkStackSize >>=
    _ = _
  by_cases he : hash = keyHash
  case neg => rcases st with _ | ⟨_, _ | _⟩ <;> simp [spendKeyHash, pushVerify, he]
  case pos =>
    have hp : pushVerify true (decide (hash = keyHash)) SCRIPT_ERR_EQUALVERIFY st = .ok st := by
      simp [pushVerify, he]
    rw [hp, ok_bind, ok_bind, checkStackSize_next (by simpa using hl), ok_bind, Flow.andThen,
      evalCode_op (by decide) rfl (.inl rfl) (by simp)]
    rcases st with _ | ⟨vchPubKey, _ | ⟨vchSig, st⟩⟩ <;> simp only [spendKeyHash, he, if_true]
    case nil | cons.nil => rfl
    case cons.cons =>
      change (checkSigOp flags checker sigversion (script.findAndDelete (CScript.push vchSig))
        vchSig vchPubKey >>= _) >>= _ >>= _ = _
      cases checkSigOp flags checker sigversion
        (script.findAndDelete (CScript.push vchSig)) vchSig vchPubKey
      case error => rfl
      case ok fSuccess =>
        have hs : ¬1000 < st.length + 1 := by simp at hl; omega
        simp [pushVerify, checkStackSize, Flow.andThen, evalCode, hs]

theorem evalScript_stakeDelegation (hl : rest.length + 2 < 1000) :
    evalScript flags checker sigversion (pk :: sel :: rest)
      (getScriptForStakeDelegation stakingKey spendingKey) =
    let script := getScriptForStakeDelegation stakingKey spendingKey
    let stack := bytes (hash160 pk) :: pk :: rest
    if castToBool sel then do checker.checkColdStake script stack flags; .ok stack
    else spendKeyHash flags checker sigversion script (bytes spendingKey) stack := by
  have hs : ¬(getScriptForStakeDelegation stakingKey spendingKey).length > MAX_SCRIPT_SIZE := by
    rw [getScriptForStakeDelegation_length]
    decide
  obtain ⟨p₁, p₂, p₃, p₄, p₅, p₆, p₇, p₈, p₉, p₁₀, hd⟩ :=
    decode_getScriptForStakeDelegation stakingKey spendingKey
  rw [evalScript, if_neg hs, hd, evalCode_selectBranch hl]
  cases castToBool sel
  case true => exact evalCode_stakingBranch
  case false =>
    rw [evalCode_skipStaking _ (by simp; omega), evalCode_elseBranch _ (by simp; omega),
      evalCode_equalVerifyCheckSig (by simp; omega)]
    rfl

theorem evalScript_stakeDelegation_ok {stack st : List Bytes}
    (h : evalScript flags checker sigversion stack
      (getScriptForStakeDelegation stakingKey spendingKey) = .ok st) :
    ∃ pk sel rest, stack = pk :: sel :: rest ∧ rest.length + 2 < 1000 := by
  have hs : ¬(getScriptForStakeDelegation stakingKey spendingKey).length > MAX_SCRIPT_SIZE := by
    rw [getScriptForStakeDelegation_length]
    decide
  obtain ⟨p₁, p₂, p₃, p₄, p₅, p₆, p₇, p₈, p₉, p₁₀, hd⟩ :=
    decode_getScriptForStakeDelegation stakingKey spendingKey
  rw [evalScript, if_neg hs, hd, evalCode_op (by decide) rfl (.inl rfl) (by simp)] at h
  rcases stack with _ | ⟨pk, stack⟩
  case nil => cases h
  case cons =>
    by_cases hl : stack.length + 2 ≤ 1000
    case neg =>
      have hl' : 1000 < stack.length + 1 + 1 := by omega
      change (checkStackSize (.next ⟨pk :: pk :: stack, [], [], 1, _⟩)) >>= _ = _ at h
      simp [checkStackSize, hl'] at h
    case pos =>
      rcases stack with _ | ⟨sel, rest⟩
      case cons => exact ⟨pk, sel, rest, rfl, by simp at hl; omega⟩
      case nil => cases h

end

namespace TransactionSignatureChecker

variable [Crypto] {newP2CSRules : Bool} {txTo : CTransaction} {amount : CAmount}
variable {script : CScript} {flags : ScriptFlags}

theorem checkColdStake_ok {stack : List Bytes}
    (h : checkColdStake newP2CSRules txTo amount script stack flags = .ok ()) :
    txTo.isCoinStake ∧ txTo.vin.length = 1 ∧
      ∃ outValue, coldStakeOutValue script txTo.vout.length txTo.vout.tail 0 = .ok outValue ∧
        ¬outValue < amount := by
  simp only [checkColdStake, bind_eq_ok, exists_unit, failIf_eq_ok] at h
  obtain ⟨_, hc, hv, outValue, ho, ha⟩ := h
  exact ⟨by simpa using hc, by simpa using hv, outValue, ho, ha⟩

end TransactionSignatureChecker

open TransactionSignatureChecker

def CTransaction.valueTo (tx : CTransaction) (script : CScript) : ℤ :=
  ((tx.vout.filter (·.scriptPubKey = script)).map (·.nValue.toInt)).sum

section

variable [Crypto] (newP2CSRules : Bool) (txTo : CTransaction) (nIn : ℕ) (amount : CAmount)
variable (sigversion : SigVersion) (stakingKey spendingKey : CKeyID)

-- The key is one of the script, the signature is one of this input under it, and only the owner may do more than stake.
structure KeyAuthorized (vchPubKey vchSig : Bytes) : Prop where
  key : hash160 vchPubKey = stakingKey ∨ hash160 vchPubKey = spendingKey
  sig : checkSig txTo nIn amount vchSig vchPubKey
    ((getScriptForStakeDelegation stakingKey spendingKey).findAndDelete (CScript.push vchSig))
    sigversion = .ok true
  stake : hash160 vchPubKey ≠ spendingKey → txTo.isCoinStake ∧ txTo.vin.length = 1 ∧
    amount.toInt ≤ txTo.valueTo (getScriptForStakeDelegation stakingKey spendingKey)

def scriptSigStack (scriptSig : CScript) : Except ScriptError (List Bytes) :=
  evalScript STANDARD_SCRIPT_VERIFY_FLAGS (checker newP2CSRules txTo nIn amount) sigversion []
    scriptSig

def SpendAuthorized (scriptSig : CScript) : Prop :=
  ∃ pk sel sig rest,
    scriptSigStack newP2CSRules txTo nIn amount sigversion scriptSig = .ok (pk :: sel :: sig :: rest) ∧
    KeyAuthorized txTo nIn amount sigversion stakingKey spendingKey pk sig

structure StakingBranch (pk sel : Bytes) (rest : List Bytes) : Prop where
  sel : castToBool sel
  hash : castToBool (Uint160.bytes (hash160 pk))
  size : rest.length + 2 < 1000
  stake : checkColdStake newP2CSRules txTo amount
    (getScriptForStakeDelegation stakingKey spendingKey)
    (Uint160.bytes (hash160 pk) :: pk :: rest) STANDARD_SCRIPT_VERIFY_FLAGS = .ok ()

variable {newP2CSRules txTo nIn amount sigversion stakingKey spendingKey} {scriptSig : CScript}

theorem verifyScript_stakeDelegation :
    verifyScript STANDARD_SCRIPT_VERIFY_FLAGS (checker newP2CSRules txTo nIn amount) sigversion
      scriptSig (getScriptForStakeDelegation stakingKey spendingKey) = .ok () ↔
    ∃ stack, scriptSigStack newP2CSRules txTo nIn amount sigversion scriptSig = .ok stack ∧
      evalTrue STANDARD_SCRIPT_VERIFY_FLAGS (checker newP2CSRules txTo nIn amount) sigversion stack
        (getScriptForStakeDelegation stakingKey spendingKey) = .ok () := by
  have hp : STANDARD_SCRIPT_VERIFY_FLAGS.has SCRIPT_VERIFY_SIGPUSHONLY = false := by decide
  have hs : (getScriptForStakeDelegation stakingKey spendingKey).isPayToScriptHash = false := by
    simp [CScript.isPayToScriptHash, getScriptForStakeDelegation_length]
  simp [verifyScript, hp, hs, bind_eq_ok, exists_unit, scriptSigStack]

theorem evalTrue_eq_ok {flags : ScriptFlags} {checker : SignatureChecker} {stack : List Bytes}
    {script : CScript} : evalTrue flags checker sigversion stack script = .ok () ↔
      ∃ x st, evalScript flags checker sigversion stack script = .ok (x :: st) ∧ castToBool x := by
  simp only [evalTrue, bind_eq_ok]
  constructor
  · rintro ⟨_ | ⟨x, st⟩, he, h⟩
    · simp at h
    · exact ⟨x, st, he, by simpa using h⟩
  · rintro ⟨x, st, he, hx⟩
    exact ⟨x :: st, he, by simp [hx]⟩

theorem keyAuthorized_of_spendKeyHash {pk : Bytes} {rest : List Bytes} {x : Bytes}
    {st : List Bytes} (hx : castToBool x)
    (h : spendKeyHash STANDARD_SCRIPT_VERIFY_FLAGS (checker newP2CSRules txTo nIn amount) sigversion
      (getScriptForStakeDelegation stakingKey spendingKey) (bytes spendingKey)
      (bytes (hash160 pk) :: pk :: rest) = .ok (x :: st)) :
    ∃ sig rest', rest = sig :: rest' ∧
      KeyAuthorized txTo nIn amount sigversion stakingKey spendingKey pk sig := by
  rcases rest with _ | ⟨sig, rest⟩
  case nil =>
    simp only [spendKeyHash] at h
    split at h <;> cases h
  case cons =>
    simp only [spendKeyHash] at h
    split at h
    case isFalse => cases h
    case isTrue hk =>
      obtain ⟨fSuccess, hc, hs⟩ := bind_eq_ok.mp h
      simp only [Except.ok.injEq, List.cons.injEq] at hs
      have hk := bytes_injective hk
      refine ⟨sig, rest, rfl, .inr hk, ?_, fun hn => absurd hk hn⟩
      simp only [checkSigOp, seq_eq_ok] at hc
      obtain ⟨_, _, hc⟩ := hc
      split at hc
      case h_2 => cases hc
      case h_1 f hf =>
        cases f
        case true => exact hf
        case false =>
          cases hc
          simp [← hs.left, vchBool, vchFalse, castToBool] at hx

-- The staking branch accepts any key and signature, so the spend is authorized just when the pair happens to be right.
theorem verifyScript_stakeDelegation_authorized_iff :
    (verifyScript STANDARD_SCRIPT_VERIFY_FLAGS (checker newP2CSRules txTo nIn amount) sigversion
      scriptSig (getScriptForStakeDelegation stakingKey spendingKey) = .ok () →
      SpendAuthorized newP2CSRules txTo nIn amount sigversion stakingKey spendingKey scriptSig) ↔
    ∀ pk sel rest,
      scriptSigStack newP2CSRules txTo nIn amount sigversion scriptSig = .ok (pk :: sel :: rest) →
      StakingBranch newP2CSRules txTo amount stakingKey spendingKey pk sel rest →
      ∃ sig rest', rest = sig :: rest' ∧
        KeyAuthorized txTo nIn amount sigversion stakingKey spendingKey pk sig := by
  rw [verifyScript_stakeDelegation]
  constructor
  case mp =>
    intro h pk sel rest hs hb
    have ht : evalTrue STANDARD_SCRIPT_VERIFY_FLAGS (checker newP2CSRules txTo nIn amount) sigversion
        (pk :: sel :: rest) (getScriptForStakeDelegation stakingKey spendingKey) = .ok () := by
      refine evalTrue_eq_ok.mpr ⟨Uint160.bytes (hash160 pk), pk :: rest, ?_, hb.hash⟩
      rw [evalScript_stakeDelegation _ _ hb.size]
      simp only [hb.sel, if_true]
      exact seq_eq_ok.mpr ⟨hb.stake, rfl⟩
    obtain ⟨pk', sel', sig, rest', hs', ha⟩ := h ⟨_, hs, ht⟩
    rw [hs] at hs'
    cases hs'
    exact ⟨sig, rest', rfl, ha⟩
  case mpr =>
    rintro h ⟨stack, hs, ht⟩
    obtain ⟨x, st, he, hx⟩ := evalTrue_eq_ok.mp ht
    obtain ⟨pk, sel, rest, rfl, hl⟩ := evalScript_stakeDelegation_ok _ _ he
    have ⟨sig, rest', hr, ha⟩ : ∃ sig rest', rest = sig :: rest' ∧
        KeyAuthorized txTo nIn amount sigversion stakingKey spendingKey pk sig := by
      rw [evalScript_stakeDelegation _ _ hl] at he
      cases hc : castToBool sel
      case true =>
        simp only [hc, if_true] at he
        have ⟨hstake, he⟩ := seq_eq_ok.mp he
        cases he
        exact h pk sel rest hs ⟨hc, hx, hl, hstake⟩
      case false =>
        simp only [hc] at he
        exact keyAuthorized_of_spendKeyHash hx he
    exact ⟨pk, sel, sig, rest', hr ▸ hs, ha⟩

end

-- A coinstake that anybody can make: an empty signature, the staking selector and any key.
def unsignedStake : CTransaction where
  vin := [{ prevout := ⟨7, 0⟩, scriptSig := [0x00, 0x51, 0x21, 0x02] ++ List.replicate 32 9 }]
  vout := [{ nValue := 0 }, { nValue := 100, scriptPubKey := getScriptForStakeDelegation 1 2 }]

theorem unsignedStake_accepted_not_authorized :
    let _crypto := Crypto.toy
    let scriptSig := [0x00, 0x51, 0x21, 0x02] ++ List.replicate 32 9
    (unsignedStake.vin.map (·.scriptSig) = [scriptSig] ∧
      verifyScript STANDARD_SCRIPT_VERIFY_FLAGS (checker true unsignedStake 0 100) .SIGVERSION_BASE
        scriptSig (getScriptForStakeDelegation 1 2) = .ok ()) ∧
    ¬SpendAuthorized true unsignedStake 0 100 .SIGVERSION_BASE 1 2 scriptSig := by
  intro _crypto scriptSig
  have hs : scriptSigStack true unsignedStake 0 100 .SIGVERSION_BASE scriptSig =
      .ok [0x02 :: List.replicate 32 9, [1], []] := by decide
  refine ⟨⟨rfl, by decide⟩, ?_⟩
  rintro ⟨pk, sel, sig, rest, hs', -, hsig, -⟩
  rw [hs] at hs'
  cases hs'
  simp [checkSig, CPubKey.isValid, CPubKey.getLen] at hsig

end Qrax
