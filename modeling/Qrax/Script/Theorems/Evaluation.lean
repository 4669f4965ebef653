import Qrax.Script.Interpreter

namespace Qrax

open Opcodetype ScriptError Fallible

theorem checkStackSize_next {s : ScriptState} (h : s.stack.length + s.altstack.length ≤ 1000) :
    checkStackSize (.next s) = .ok (.next s) := by
  simp [checkStackSize, h]

variable [Crypto] {flags : ScriptFlags} {checker : SignatureChecker} {sigversion : SigVersion}
variable {script : CScript} {pc : Bytes} {s : ScriptState}

-- The three ways in which the loop of `EvalScript` handles an instruction.

variable {op : Opcodetype} {opcode : UInt8} {vch : Bytes} {next : Code}

theorem execInstr_op (ho : op.toByte > OP_16) (hd : isDisabled op = false)
    (he : s.fExec ∨ OP_IF.toByte ≤ op.toByte ∧ op.toByte ≤ OP_ENDIF) (hn : s.nOpCount < 201) :
    execInstr flags checker sigversion script op [] pc s =
      execOpcode flags checker sigversion script op pc { s with nOpCount := s.nOpCount + 1 } >>=
        checkStackSize := by
  have hp : ¬op.toByte ≤ OP_PUSHDATA4 := by
    have h4 : OP_PUSHDATA4.toByte < OP_16.toByte := by decide
    exact UInt8.not_le.mpr (UInt8.lt_trans h4 ho)
  have hn' : ¬s.nOpCount + 1 > 201 := by omega
  have hf : ({ s with nOpCount := s.nOpCount + 1 } : ScriptState).fExec = s.fExec := rfl
  simp [execInstr, ho, hd, hp, hn', hf, he, MAX_SCRIPT_ELEMENT_SIZE]

theorem execInstr_skip (hv : vch.length ≤ MAX_SCRIPT_ELEMENT_SIZE)
    (hd : (ofByte opcode).any isDisabled = false) (he : s.fExec = false)
    (hc : ¬(OP_IF.toByte ≤ opcode ∧ opcode ≤ OP_ENDIF)) (hn : s.nOpCount < 201) :
    execInstr flags checker sigversion script opcode vch pc s = checkStackSize
      (.next (if opcode > OP_16 then { s with nOpCount := s.nOpCount + 1 } else s)) := by
  have hv' : ¬vch.length > MAX_SCRIPT_ELEMENT_SIZE := by omega
  by_cases ho : opcode > OP_16
  · have hf : ({ s with nOpCount := s.nOpCount + 1 } : ScriptState).fExec = s.fExec := rfl
    have hn' : ¬s.nOpCount + 1 > 201 := by omega
    simp [execInstr, hv', ho, hd, hf, he, hc, hn']
  · simp [execInstr, hv', ho, hd, he, hc]

theorem execInstr_push (ho : opcode ≤ OP_PUSHDATA4)
    (hd : (ofByte opcode).any isDisabled = false)
    (hv : vch.length ≤ MAX_SCRIPT_ELEMENT_SIZE) (hm : checkMinimalPush vch opcode)
    (he : s.fExec) :
    execInstr flags checker sigversion script opcode vch pc s =
      checkStackSize (.next (s.push vch)) := by
  have hv' : ¬vch.length > MAX_SCRIPT_ELEMENT_SIZE := by omega
  have ho' : ¬opcode > OP_16 := by
    have h4 : OP_PUSHDATA4.toByte < OP_16.toByte := by decide
    exact UInt8.not_lt.mpr (UInt8.le_trans ho (UInt8.le_of_lt h4))
  simp [execInstr, hv', ho', ho, hd, he, hm]

section

variable (ho : op.toByte > OP_16) (hd : isDisabled op = false)
  (he : s.fExec ∨ OP_IF.toByte ≤ op.toByte ∧ op.toByte ≤ OP_ENDIF) (hn : s.nOpCount < 201)

include ho hd he hn

theorem evalCode_op :
    evalCode flags checker sigversion script (.instr op [] pc next) s =
      execOpcode flags checker sigversion script op pc { s with nOpCount := s.nOpCount + 1 } >>=
        checkStackSize >>= Flow.andThen (evalCode flags checker sigversion script next) := by
  rw [evalCode, execInstr_op ho hd he hn]

theorem evalCode_next {s' : ScriptState}
    (h : execOpcode flags checker sigversion script op pc { s with nOpCount := s.nOpCount + 1 } =
      .ok (.next s'))
    (hs : s'.stack.length + s'.altstack.length ≤ 1000) :
    evalCode flags checker sigversion script (.instr op [] pc next) s =
      evalCode flags checker sigversion script next s' := by
  rw [evalCode_op ho hd he hn, h, ok_bind, checkStackSize_next hs]
  rfl

end

end Qrax
