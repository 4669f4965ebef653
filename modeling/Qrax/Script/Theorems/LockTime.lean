import Qrax.Script.Interpreter

open Fallible

namespace Qrax

open Opcodetype TransactionSignatureChecker

-- The second flags enforce the same, apart from the lock times.
structure ScriptFlags.WithoutLockTime (flags flags' : ScriptFlags) : Prop where
  pushOnly : flags'.has SCRIPT_VERIFY_SIGPUSHONLY = flags.has SCRIPT_VERIFY_SIGPUSHONLY
  p2sh : flags'.has SCRIPT_VERIFY_P2SH = flags.has SCRIPT_VERIFY_P2SH
  minimal : flags'.has SCRIPT_VERIFY_MINIMALDATA = flags.has SCRIPT_VERIFY_MINIMALDATA
  nullDummy : flags'.has SCRIPT_VERIFY_NULLDUMMY = flags.has SCRIPT_VERIFY_NULLDUMMY
  lowS : flags'.has SCRIPT_VERIFY_LOW_S = flags.has SCRIPT_VERIFY_LOW_S
  strict : flags'.has SCRIPT_VERIFY_STRICTENC = flags.has SCRIPT_VERIFY_STRICTENC
  encoding : flags'.has (SCRIPT_VERIFY_DERSIG ||| SCRIPT_VERIFY_LOW_S ||| SCRIPT_VERIFY_STRICTENC) =
    flags.has (SCRIPT_VERIFY_DERSIG ||| SCRIPT_VERIFY_LOW_S ||| SCRIPT_VERIFY_STRICTENC)
  lockTime : flags'.has SCRIPT_VERIFY_CHECKLOCKTIMEVERIFY = false
  discourage : flags.has SCRIPT_VERIFY_DISCOURAGE_UPGRADABLE_NOPS = false
  discourage' : flags'.has SCRIPT_VERIFY_DISCOURAGE_UPGRADABLE_NOPS = false

theorem MANDATORY_SCRIPT_VERIFY_FLAGS.withoutLockTime :
    (MANDATORY_SCRIPT_VERIFY_FLAGS ||| SCRIPT_VERIFY_CHECKLOCKTIMEVERIFY).WithoutLockTime
      MANDATORY_SCRIPT_VERIFY_FLAGS := by
  constructor <;> decide

variable {flags flags' : ScriptFlags} {checker : SignatureChecker} {sigversion : SigVersion}

section

variable (without : flags.WithoutLockTime flags')
include without

theorem checkPubKeyEncoding_without (vchPubKey : Bytes) :
    checkPubKeyEncoding vchPubKey flags' = checkPubKeyEncoding vchPubKey flags := by
  simp only [checkPubKeyEncoding, without.strict]

theorem pickRoll_without : pickRoll flags' = pickRoll flags := by
  funext fRoll s
  simp only [pickRoll, without.minimal]

theorem checkLockTimeVerify_without {s s' : ScriptState} (done : checkLockTimeVerify flags checker s = .ok s') :
    checkLockTimeVerify flags' checker s = .ok s' := by
  have same : s' = s := by
    unfold checkLockTimeVerify at done
    split at done
    case isTrue =>
      rw [without.discourage] at done
      exact (Except.ok.inj done).symm
    case isFalse =>
      split at done
      case h_1 => cases done
      case h_2 =>
        have ⟨_, _, done⟩ := bind_eq_ok.mp done
        split at done
        case isTrue => cases done
        case isFalse =>
          split at done
          case isTrue => cases done
          case isFalse => exact (Except.ok.inj done).symm
  simp [checkLockTimeVerify, without.lockTime, without.discourage', same]

variable [Crypto]

theorem checkSignatureEncoding_without (vchSig : Bytes) :
    checkSignatureEncoding vchSig flags' = checkSignatureEncoding vchSig flags := by
  simp only [checkSignatureEncoding, without.encoding, without.lowS, without.strict]

theorem checkSigOp_without : checkSigOp flags' checker sigversion = checkSigOp flags checker sigversion := by
  funext scriptCode vchSig vchPubKey
  simp only [checkSigOp, checkSignatureEncoding_without without, checkPubKeyEncoding_without without]

theorem multisigLoop_without (scriptCode : CScript) (sigs keys : List Bytes) :
    multisigLoop flags' checker sigversion scriptCode sigs keys =
      multisigLoop flags checker sigversion scriptCode sigs keys := by
  induction keys generalizing sigs
  case nil => cases sigs <;> rfl
  case cons vchPubKey keys ih =>
    cases sigs
    case nil => rfl
    case cons => simp only [multisigLoop, checkSigOp_without without, ih]

theorem checkMultisig_without : checkMultisig flags' checker sigversion = checkMultisig flags checker sigversion := by
  funext fVerify s
  simp only [checkMultisig, without.minimal, without.nullDummy, multisigLoop_without without]

variable (coldStake : ∀ script stack, checker.checkColdStake script stack flags' =
  checker.checkColdStake script stack flags)
include coldStake

variable {script : CScript} {s : ScriptState} {flow : Flow}

theorem execOpcode_without {op : Opcodetype} {pc : Bytes}
    (done : execOpcode flags checker sigversion script op pc s = .ok flow) :
    execOpcode flags' checker sigversion script op pc s = .ok flow := by
  by_cases lock : op = OP_CHECKLOCKTIMEVERIFY
  case pos =>
    subst lock
    have done : Flow.next <$> checkLockTimeVerify flags checker s = .ok flow := done
    have ⟨s', ran, eq⟩ := map_eq_ok.mp done
    exact map_eq_ok.mpr ⟨s', checkLockTimeVerify_without without ran, eq⟩
  case neg =>
    have same : execOpcode flags' checker sigversion script op pc s =
        execOpcode flags checker sigversion script op pc s := by
      simp only [execOpcode, without.minimal, without.discourage, without.discourage', pickRoll_without without,
        checkSigOp_without without, checkMultisig_without without, coldStake]
      cases op
      case OP_NOP2 => exact absurd rfl lock
      all_goals rfl
    exact same.trans done

theorem execInstr_without {opcode : UInt8} {vch pc : Bytes}
    (done : execInstr flags checker sigversion script opcode vch pc s = .ok flow) :
    execInstr flags' checker sigversion script opcode vch pc s = .ok flow := by
  simp only [execInstr, bind_eq_ok, exists_unit, without.minimal] at done ⊢
  generalize (if opcode > OP_16 then ({ s with nOpCount := s.nOpCount + 1 } : ScriptState) else s) = s₁ at done ⊢
  have ⟨size, count, enabled, done⟩ := done
  refine ⟨size, count, enabled, ?_⟩
  split at done
  case isTrue push => rwa [if_pos push]
  case isFalse other =>
    rw [if_neg other]
    split at done
    case isFalse skipped => rwa [if_neg skipped]
    case isTrue run =>
      rw [if_pos run]
      cases op : Opcodetype.ofByte opcode <;> rw [op] at done
      case none => exact done
      case some op =>
        have ⟨flow, ran, fits⟩ := bind_eq_ok.mp done
        exact bind_eq_ok.mpr ⟨flow, execOpcode_without without coldStake ran, fits⟩

theorem evalCode_without {code : Code} {stack : List Bytes}
    (done : evalCode flags checker sigversion script code s = .ok stack) :
    evalCode flags' checker sigversion script code s = .ok stack := by
  induction code generalizing s
  case done => exact done
  case truncated => exact done
  case instr opcode vch pc next ih =>
    rw [evalCode, bind_eq_ok] at done ⊢
    have ⟨flow, step, rest⟩ := done
    refine ⟨flow, execInstr_without without coldStake step, ?_⟩
    match flow, rest with
    | .next _, rest => exact ih rest
    | .return _, rest => exact rest

theorem evalScript_without {st stack : List Bytes}
    (done : evalScript flags checker sigversion st script = .ok stack) :
    evalScript flags' checker sigversion st script = .ok stack := by
  unfold evalScript at done ⊢
  split
  case isTrue big => rwa [if_pos big] at done
  case isFalse fits =>
    rw [if_neg fits] at done
    exact evalCode_without without coldStake done

theorem evalTrue_without {st : List Bytes}
    (done : evalTrue flags checker sigversion st script = .ok ()) :
    evalTrue flags' checker sigversion st script = .ok () := by
  rw [evalTrue, bind_eq_ok] at done ⊢
  have ⟨stack, ran, top⟩ := done
  exact ⟨stack, evalScript_without without coldStake ran, top⟩

theorem verifyScript_without {scriptSig scriptPubKey : CScript}
    (done : verifyScript flags checker sigversion scriptSig scriptPubKey = .ok ()) :
    verifyScript flags' checker sigversion scriptSig scriptPubKey = .ok () := by
  simp only [verifyScript, bind_eq_ok, exists_unit, onlyIf_eq_ok, without.pushOnly, without.p2sh] at done ⊢
  obtain ⟨pushOnly, stack, ran, top, redeem⟩ := done
  refine ⟨pushOnly, stack, evalScript_without without coldStake ran, evalTrue_without without coldStake top, ?_⟩
  intro p2sh
  obtain ⟨pushOnly, redeem⟩ := redeem p2sh
  refine ⟨pushOnly, ?_⟩
  cases stack
  case nil => exact redeem
  case cons => exact evalTrue_without without coldStake redeem

end

theorem checkColdStake_without [Crypto] (without : flags.WithoutLockTime flags') {newP2CSRules : Bool}
    {tx : CTransaction} {amount : CAmount} (script : CScript) (stack : List Bytes) :
    checkColdStake newP2CSRules tx amount script stack flags' =
      checkColdStake newP2CSRules tx amount script stack flags := by
  simp only [checkColdStake, checkColdStakeStack,
    checkSignatureEncoding_without without, checkPubKeyEncoding_without without]

end Qrax
