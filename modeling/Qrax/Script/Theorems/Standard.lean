import Qrax.Script.Standard

open Encoding List

namespace Qrax

open Opcodetype Txnouttype CScript

-- Which scripts the constructors make of their keys.

def CPubKey.ofBytes (vch : Bytes) : Bytes :=
  if CPubKey.isValid vch then vch else []

theorem Uint160.bytes_ofBytes {vch : Bytes} (h : vch.length = 20) : (Uint160.ofBytes vch).bytes = vch := by
  have lt := leNat_lt vch
  rw [h] at lt
  have eq := leBytes_leNat vch
  rw [h] at eq
  rw [bytes, ofBytes, BitVec.toNat_ofNat, Nat.mod_eq_of_lt (lt.trans_eq (by decide)), eq]

def rebuildScript : Txnouttype → List Bytes → Option CScript
  | TX_PUBKEY, [pubkey] => some (getScriptForRawPubKey (CPubKey.ofBytes pubkey))
  | TX_PUBKEYHASH, [hash] => some (getScriptForDestination (.CKeyID (.ofBytes hash)))
  | TX_SCRIPTHASH, [hash] => some (getScriptForDestination (.CScriptID (.ofBytes hash)))
  | TX_COLDSTAKE, [staker, owner] => some (getScriptForStakeDelegation (.ofBytes staker) (.ofBytes owner))
  | TX_ASSETSMINT, [hash] => some (getScriptForMultiminingDestination (.ofBytes hash))
  | TX_DPOSASSETMINT, [staker, owner] => some (getScriptForAssetsDposDestination (.ofBytes owner) (.ofBytes staker))
  | _, _ => none

def Txnouttype.hasConstructor : Txnouttype → Bool
  | TX_PUBKEY | TX_PUBKEYHASH | TX_SCRIPTHASH | TX_COLDSTAKE | TX_ASSETSMINT | TX_DPOSASSETMINT => true
  | _ => false

-- The template bytes that the matchers leave out.
def CScript.FillsTemplate (script : CScript) : Txnouttype → Prop
  | TX_ASSETSMINT => script[3]? = some 0x14
  | TX_DPOSASSETMINT =>
    script[0]? = some OP_DUP.toByte ∧ script[1]? = some OP_HASH160.toByte ∧ script[3]? = some OP_IF.toByte ∧
      script[26]? = some OP_ELSE.toByte ∧ script[48]? = some OP_ENDIF.toByte
  | _ => True

variable {script : CScript} {i n : ℕ} {b : UInt8}

theorem drop_of_getElem? (h : script[i]? = some b) : script.drop i = b :: script.drop (i + 1) := by
  have ⟨lt, eq⟩ := List.getElem?_eq_some_iff.mp h
  rw [drop_eq_getElem_cons lt, eq]

theorem drop_eq_append (script : CScript) (i n : ℕ) : script.drop i = (script.drop i).take n ++ script.drop (i + n) := by
  rw [← drop_drop, take_append_drop]

theorem push_hash (script : CScript) (i : ℕ) (le : i + 20 ≤ script.length) :
    push (Uint160.ofBytes ((script.drop i).take 20)).bytes = 0x14 :: (script.drop i).take 20 := by
  rw [push_uint160, Uint160.bytes_ofBytes]
  simp only [length_take, length_drop]
  omega

theorem isPayToScriptHash_template (h : script.isPayToScriptHash) :
    getScriptForDestination (.CScriptID (.ofBytes ((script.drop 2).take 20))) = script := by
  simp only [isPayToScriptHash, Bool.and_eq_true, beq_iff_eq] at h
  have ⟨⟨⟨length, b₀⟩, b₁⟩, b₂₂⟩ := h
  conv_rhs =>
    rw [← drop_zero (l := script), drop_of_getElem? b₀, drop_of_getElem? b₁, drop_eq_append script _ 20,
      drop_of_getElem? b₂₂, drop_of_length_le length.le]
  rw [getScriptForDestination, push_hash script 2 (by omega)]
  rfl

theorem isPayToPublicKeyHash_template (h : script.isPayToPublicKeyHash) :
    getScriptForDestination (.CKeyID (.ofBytes ((script.drop 3).take 20))) = script := by
  simp only [isPayToPublicKeyHash, Bool.and_eq_true, beq_iff_eq] at h
  have ⟨⟨⟨⟨⟨length, b₀⟩, b₁⟩, b₂⟩, b₂₃⟩, b₂₄⟩ := h
  conv_rhs =>
    rw [← drop_zero (l := script), drop_of_getElem? b₀, drop_of_getElem? b₁, drop_of_getElem? b₂,
      drop_eq_append script _ 20, drop_of_getElem? b₂₃, drop_of_getElem? b₂₄, drop_of_length_le length.le]
  rw [getScriptForDestination, push_hash script 3 (by omega)]
  rfl

theorem isPayToColdStaking_template (h : script.isPayToColdStaking true) :
    getScriptForStakeDelegation (.ofBytes ((script.drop 6).take 20)) (.ofBytes ((script.drop 28).take 20)) = script := by
  simp only [isPayToColdStaking, Bool.not_true, Bool.false_or, Bool.and_eq_true, beq_iff_eq] at h
  have ⟨⟨⟨⟨⟨⟨⟨⟨⟨⟨⟨length, b₀⟩, b₁⟩, b₂⟩, b₃⟩, b₄⟩, b₅⟩, b₂₆⟩, b₂₇⟩, b₄₈⟩, b₄₉⟩, b₅₀⟩ := h
  conv_rhs =>
    rw [← drop_zero (l := script), drop_of_getElem? b₀, drop_of_getElem? b₁, drop_of_getElem? b₂,
      drop_of_getElem? b₃, drop_of_getElem? b₄, drop_of_getElem? b₅, drop_eq_append script (5 + 1) 20,
      drop_of_getElem? b₂₆, drop_of_getElem? b₂₇, drop_eq_append script (27 + 1) 20, drop_of_getElem? b₄₈,
      drop_of_getElem? b₄₉, drop_of_getElem? b₅₀, drop_of_length_le length.le]
  rw [getScriptForStakeDelegation, push_hash script 6 (by omega), push_hash script 28 (by omega)]
  simp only [cons_append, nil_append, append_assoc]

theorem isPayAssetScriptHash_template (h : script.isPayAssetScriptHash) :
    getScriptForMultiminingDestination (.ofBytes ((script.drop 4).take 20)) = script ↔ script[3]? = some 0x14 := by
  simp only [isPayAssetScriptHash, Bool.and_eq_true, beq_iff_eq] at h
  have ⟨⟨⟨⟨⟨length, b₀⟩, b₁⟩, b₂⟩, b₂₄⟩, b₂₅⟩ := h
  have ⟨c, b₃⟩ : ∃ c, script[3]? = some c := ⟨_, getElem?_eq_getElem (by omega)⟩
  conv_lhs =>
    rhs
    rw [← drop_zero (l := script), drop_of_getElem? b₀, drop_of_getElem? b₁, drop_of_getElem? b₂,
      drop_of_getElem? b₃, drop_eq_append script _ 20, drop_of_getElem? b₂₄, drop_of_getElem? b₂₅,
      drop_of_length_le length.le]
  rw [getScriptForMultiminingDestination, push_hash script 4 (by omega), b₃]
  simp [eq_comm]

theorem isPayAssetDposScript_template (h : script.isPayAssetDposScript) :
    getScriptForAssetsDposDestination (.ofBytes ((script.drop 28).take 20)) (.ofBytes ((script.drop 6).take 20)) =
      script ↔ script.FillsTemplate TX_DPOSASSETMINT := by
  simp only [isPayAssetDposScript, Bool.and_eq_true, beq_iff_eq] at h
  have ⟨⟨⟨⟨⟨⟨length, b₂⟩, b₄⟩, b₅⟩, b₂₇⟩, b₄₉⟩, b₅₀⟩ := h
  have byte (i : ℕ) (lt : i < 51) : ∃ c, script[i]? = some c := ⟨_, getElem?_eq_getElem (by omega)⟩
  have ⟨c₀, b₀⟩ := byte 0 (by decide)
  have ⟨c₁, b₁⟩ := byte 1 (by decide)
  have ⟨c₃, b₃⟩ := byte 3 (by decide)
  have ⟨c₂₆, b₂₆⟩ := byte 26 (by decide)
  have ⟨c₄₈, b₄₈⟩ := byte 48 (by decide)
  conv_lhs =>
    rhs
    rw [← drop_zero (l := script), drop_of_getElem? b₀, drop_of_getElem? b₁, drop_of_getElem? b₂,
      drop_of_getElem? b₃, drop_of_getElem? b₄, drop_of_getElem? b₅, drop_eq_append script (5 + 1) 20,
      drop_of_getElem? b₂₆, drop_of_getElem? b₂₇, drop_eq_append script (27 + 1) 20, drop_of_getElem? b₄₈,
      drop_of_getElem? b₄₉, drop_of_getElem? b₅₀, drop_of_length_le length.le]
  rw [getScriptForAssetsDposDestination, push_hash script 6 (by omega), push_hash script 28 (by omega)]
  simp only [CScript.FillsTemplate, b₀, b₁, b₃, b₂₆, b₄₈, cons_append, nil_append, append_assoc,
    cons.injEq, append_cancel_left_eq, true_and, and_true, Option.some.injEq, eq_comm]

theorem matchPayToPubkey_template {pubkey : Bytes} (h : matchPayToPubkey script = some pubkey) :
    getScriptForRawPubKey (CPubKey.ofBytes pubkey) = script := by
  simp only [matchPayToPubkey] at h
  split at h
  case isFalse => cases h
  case isTrue match' =>
    cases h
    simp only [Bool.and_eq_true, Bool.or_eq_true, beq_iff_eq] at match'
    have ⟨⟨size, last⟩, valid⟩ := match'
    rw [getScriptForRawPubKey, CPubKey.ofBytes, if_pos valid]
    cases script
    case nil => cases last
    case cons b rest =>
      rw [tail_cons]
      have checksig : rest.dropLast ++ [OP_CHECKSIG.toByte] = rest := by
        refine dropLast_append_getLast? _ ?_
        cases rest
        case nil => simp at size
        case cons => exact last
      have ⟨short, head⟩ : rest.dropLast.length < OP_PUSHDATA1.toByte.toNat ∧ UInt8.ofNat rest.dropLast.length = b := by
        simp only [length_cons, getElem?_cons_zero, Option.some.injEq] at size
        rw [length_dropLast]
        rcases size with ⟨length, eq⟩ | ⟨length, eq⟩ <;> rw [eq, Nat.succ.inj length] <;> decide
      rw [push, if_pos short, head, cons_append, checksig]

-- A recognised script is what the constructor makes of the solutions just when it has the template bytes that the
-- matcher ignores.
theorem solver_rebuilds_iff {script : CScript} {t : Txnouttype} {vSolutions : List Bytes}
    (solved : solver true script = some (t, vSolutions)) (keyed : t.hasConstructor) :
    rebuildScript t vSolutions = some script ↔ script.FillsTemplate t := by
  simp only [solver] at solved
  split at solved
  · cases solved
  split at solved
  case isTrue scriptHash =>
    cases solved
    exact iff_of_true (congrArg some (isPayToScriptHash_template scriptHash)) trivial
  split at solved
  case isTrue asset =>
    cases solved
    exact Option.some_inj.trans (isPayAssetScriptHash_template asset)
  split at solved
  · cases solved
    cases keyed
  split at solved
  case h_1 pubkey matched =>
    cases solved
    exact iff_of_true (congrArg some (matchPayToPubkey_template matched)) trivial
  split at solved
  case isTrue keyHash =>
    cases solved
    exact iff_of_true (congrArg some (isPayToPublicKeyHash_template keyHash)) trivial
  split at solved
  case isTrue delegation =>
    cases solved
    exact iff_of_true (congrArg some (isPayToColdStaking_template delegation)) trivial
  split at solved
  case isTrue dpos =>
    cases solved
    exact Option.some_inj.trans (isPayAssetDposScript_template dpos)
  split at solved
  · cases solved
    cases keyed
  · cases solved

-- An asset output whose hash has 21 announced bytes, with the following opcode in it.
theorem solver_loses_size :
    let script : CScript := [OP_DUP.toByte, OP_HASH160.toByte, OP_ASSETSMINT.toByte, 0x15] ++ List.replicate 20 7 ++
      [OP_EQUALVERIFY.toByte, OP_CHECKSIG.toByte]
    ∃ vSolutions rebuilt, solver true script = some (TX_ASSETSMINT, vSolutions) ∧
      rebuildScript TX_ASSETSMINT vSolutions = some rebuilt ∧ rebuilt ≠ script :=
  ⟨[List.replicate 20 7], getScriptForMultiminingDestination (.ofBytes (List.replicate 20 7)), by decide, rfl, by decide⟩

theorem solver_rebuilds_asset :
    let script := getScriptForMultiminingDestination 7
    solver true script = some (TX_ASSETSMINT, [Uint160.bytes 7]) ∧
      rebuildScript TX_ASSETSMINT [Uint160.bytes 7] = some script := by
  intro script
  have solved : solver true script = some (TX_ASSETSMINT, [Uint160.bytes 7]) := by
    decide
  exact ⟨solved, (solver_rebuilds_iff solved rfl).mpr rfl⟩

section

variable {newP2CSRules : Bool} {script : CScript} {t : Txnouttype} {vSolutions : List Bytes}
  (solved : solver newP2CSRules script = some (t, vSolutions))

include solved

theorem solver_cases :
    t = TX_NULL_DATA ∨ t = TX_MULTISIG ∨ (t = TX_PUBKEY ∧ ∃ key, vSolutions = [key] ∧ CPubKey.isValid key) ∨
      ((t = TX_PUBKEYHASH ∨ t = TX_SCRIPTHASH ∨ t = TX_ASSETSMINT) ∧ ∃ hash, vSolutions = [hash]) ∨
      (t = TX_COLDSTAKE ∨ t = TX_DPOSASSETMINT) ∧ ∃ staker owner, vSolutions = [staker, owner] := by
  have valid (key : Bytes) (matched : matchPayToPubkey script = some key) : CPubKey.isValid key := by
    unfold matchPayToPubkey at matched
    grind
  simp only [solver] at solved
  repeat' split at solved
  all_goals cases solved
  all_goals grind

theorem solver_of_checkMultisig (last : script.getLast? = some OP_CHECKMULTISIG.toByte)
    (first : script.startsWithOpcode OP_RETURN = false) : t = TX_MULTISIG := by
  have at_end (n : ℕ) (length : script.length = n + 1) : script[n]? = some OP_CHECKMULTISIG.toByte := by
    rw [getLast?_eq_getElem?, length] at last
    exact last
  have equal : OP_EQUAL.toByte ≠ OP_CHECKMULTISIG.toByte := by decide
  have checksig : OP_CHECKSIG.toByte ≠ OP_CHECKMULTISIG.toByte := by decide
  simp only [solver] at solved
  repeat' split at solved
  all_goals cases solved
  all_goals grind [isPayToScriptHash, isPayAssetScriptHash, isPayToPublicKeyHash,
    isPayToColdStaking, isPayAssetDposScript, matchPayToPubkey]

end

def destinationsFound [Crypto] : Txnouttype → List Bytes → List CTxDestination × ℕ
  | TX_MULTISIG, vSolutions =>
    (vSolutions.tail.dropLast.map fun key => .CKeyID (hash160 key), ((vSolutions.headD []).headD 0).toNat)
  | TX_PUBKEY, vSolutions => (vSolutions.map fun key => .CKeyID (hash160 key), 1)
  | TX_SCRIPTHASH, vSolutions => (vSolutions.map fun hash => .CScriptID (.ofBytes hash), 1)
  | _, vSolutions => (vSolutions.map fun hash => .CKeyID (.ofBytes hash), vSolutions.length)

theorem extractDestinations_eq [Crypto] {newP2CSRules : Bool} {script : CScript} {t : Txnouttype}
    {vSolutions : List Bytes} (solved : solver newP2CSRules script = some (t, vSolutions)) :
    extractDestinations newP2CSRules script =
      if t = TX_NULL_DATA ∨ t = TX_MULTISIG then none else some (t, destinationsFound t vSolutions) := by
  rw [extractDestinations, extractDestination, solved]
  obtain rfl | rfl | ⟨rfl, key, rfl, valid⟩ | ⟨rfl | rfl | rfl, hash, rfl⟩ | ⟨rfl | rfl, staker, owner, rfl⟩ :=
    solver_cases solved
  case inr.inr.inl => simp [destinationsFound, valid]
  all_goals rfl

-- `ExtractDestinations` has no multisig branch, and `ExtractDestination` refuses such scripts.
theorem extractDestinations_found_iff [Crypto] (newP2CSRules : Bool) :
    (∀ script t vSolutions, solver newP2CSRules script = some (t, vSolutions) → t ≠ TX_NULL_DATA →
      (extractDestinations newP2CSRules script = some (t, destinationsFound t vSolutions) ↔ t ≠ TX_MULTISIG)) ∧
    (∀ script t found, extractDestinations newP2CSRules script = some (t, found) →
      ∃ vSolutions, solver newP2CSRules script = some (t, vSolutions) ∧ found = destinationsFound t vSolutions) ∧
    ∀ m keys, 1 ≤ m → m ≤ 16 → extractDestinations newP2CSRules (getScriptForMultisig m keys) = none := by
  refine ⟨fun script t vSolutions solved data => ?_, fun script t found extracted => ?_, fun m keys pos max => ?_⟩
  · rw [extractDestinations_eq solved]
    simp [data]
  · cases solved : solver newP2CSRules script
    case none => simp [extractDestinations, solved] at extracted
    case some =>
      rw [extractDestinations_eq solved] at extracted
      split at extracted
      case isTrue => cases extracted
      case isFalse =>
        cases extracted
        exact ⟨_, rfl, rfl⟩
  · cases solved : solver newP2CSRules (getScriptForMultisig m keys)
    case none => simp [extractDestinations, solved]
    case some =>
      have last : (getScriptForMultisig m keys).getLast? = some OP_CHECKMULTISIG.toByte := by
        rw [getScriptForMultisig, getLast?_append]
        rfl
      have first : ∀ m < 17, 0 < m → (CScript.encodeOpN m == OP_RETURN.toByte) = false := by decide
      rw [extractDestinations_eq solved, if_pos (.inr (solver_of_checkMultisig solved last (first m (by omega) pos)))]

theorem multisig_not_extracted :
    let _crypto := Crypto.toy
    let keys := [2 :: List.replicate 32 0, 3 :: List.replicate 32 0]
    solver true (getScriptForMultisig 2 keys) = some (TX_MULTISIG, [2] :: keys ++ [[2]]) ∧
      destinationsFound TX_MULTISIG ([2] :: keys ++ [[2]]) = (keys.map fun key => .CKeyID (hash160 key), 2) ∧
      extractDestinations true (getScriptForMultisig 2 keys) = none := by
  decide

end Qrax
