import Qrax.Script.Theorems.StakeDelegation
import Qrax.Validation.Theorems.CheckBlock

open Fallible List Option

namespace Qrax

open TransactionSignatureChecker

section

variable [Crypto] {flags : ScriptFlags} {newP2CSRules : Bool} {txTo : CTransaction} {nIn : ℕ} {amount : CAmount}
variable {sigversion : SigVersion} {scriptSig : CScript} {stakingKey spendingKey : CKeyID}

theorem checkColdStake_of_verifyScript {pk sel : Bytes} {rest : List Bytes}
    (spend : verifyScript flags (checker newP2CSRules txTo nIn amount) sigversion scriptSig
      (getScriptForStakeDelegation stakingKey spendingKey) = .ok ())
    (stack : evalScript flags (checker newP2CSRules txTo nIn amount) sigversion [] scriptSig =
      .ok (pk :: sel :: rest)) (branch : castToBool sel) :
    ∃ st, checkColdStake newP2CSRules txTo amount (getScriptForStakeDelegation stakingKey spendingKey) st flags =
      .ok () := by
  simp only [verifyScript, bind_eq_ok, exists_unit, stack, Except.ok.injEq, exists_eq_left'] at spend
  obtain ⟨_, eval, _⟩ := spend
  obtain ⟨x, st, he, _⟩ := evalTrue_eq_ok.mp eval
  obtain ⟨_, _, _, same, size⟩ := evalScript_stakeDelegation_ok _ _ he
  cases same
  rw [evalScript_stakeDelegation _ _ size] at he
  simp only [branch, if_true, seq_eq_ok] at he
  exact ⟨_, he.left⟩

end

theorem isPayToColdStaking_stakeDelegation (newP2CSRules : Bool) (stakingKey spendingKey : CKeyID) :
    (getScriptForStakeDelegation stakingKey spendingKey).isPayToColdStaking newP2CSRules := by
  have length := getScriptForStakeDelegation_length stakingKey spendingKey
  simp only [CScript.isPayToColdStaking, length]
  simp [getScriptForStakeDelegation, push_uint160]

variable {script : CScript} {outs : ℕ} {vout : List CTxOut} {acc out : CAmount}

theorem coldStakeOutValue_scripts (h : coldStakeOutValue script outs vout acc = .ok out) :
    (∀ txout ∈ vout.dropLast, txout.scriptPubKey = script) ∧
      ∀ txout ∈ vout.getLast?, txout.scriptPubKey = script ∨ 3 ≤ outs := by
  induction vout generalizing acc
  case nil => exact ⟨nofun, nofun⟩
  case cons txout vout ih =>
    rw [coldStakeOutValue] at h
    split at h
    case isTrue other =>
      split at h
      case isTrue => cases h
      case isFalse last =>
        simp only [Bool.or_eq_true, Bool.not_eq_true', decide_eq_true_eq, not_or, Bool.not_eq_false,
          List.isEmpty_iff, not_lt] at last
        have ⟨empty, three⟩ := last
        subst empty
        exact ⟨nofun, fun _ _ => .inr three⟩
    case isFalse same =>
      have ⟨front, back⟩ := ih h
      cases vout
      case nil => exact ⟨nofun, fun _ mem => .inl (by cases mem; exact not_not.mp same)⟩
      case cons =>
        rw [dropLast_cons_cons, getLast?_cons_cons]
        exact ⟨forall_mem_cons.mpr ⟨not_not.mp same, front⟩, back⟩

theorem coldStakeOutValue_toInt (h : coldStakeOutValue script outs vout acc = .ok out)
    (nonneg : 0 ≤ acc.toInt) (each : ∀ txout ∈ vout, 0 ≤ txout.nValue.toInt)
    (fits : acc.toInt + (vout.map (·.nValue.toInt)).sum < 2 ^ 63) :
    out.toInt = acc.toInt + ((vout.filter (·.scriptPubKey = script)).map (·.nValue.toInt)).sum := by
  induction vout generalizing acc
  case nil =>
    cases h
    simp
  case cons txout vout ih =>
    have ⟨pos, each⟩ := forall_mem_cons.mp each
    have rest : 0 ≤ (vout.map (·.nValue.toInt)).sum := sum_nonneg (forall_mem_map.mpr each)
    rw [map_cons, sum_cons] at fits
    rw [coldStakeOutValue] at h
    split at h
    case isTrue other =>
      split at h
      case isTrue => cases h
      case isFalse =>
        rw [ih h nonneg each (by omega), filter_cons_of_neg (by simpa using other)]
    case isFalse same =>
      have sum : (acc + txout.nValue).toInt = acc.toInt + txout.nValue.toInt := by
        rw [Int64.toInt_add]
        exact Int.bmod_eq_of_le (by omega) (by omega)
      rw [ih h (by omega) each (by omega), filter_cons_of_pos (by simpa using same), sum, map_cons,
        sum_cons]
      omega

-- A coinstake that keeps delegated coins: the outputs behind the first pay to the script again, apart from a
-- masternode's payment, and are worth what was spent.
structure DelegationKept (params : CChainParams) (nHeight : ℕ) (script : CScript) (amount : CAmount)
    (tx : CTransaction) : Prop where
  middle : ∀ txout ∈ tx.vout.tail.dropLast, txout.scriptPubKey = script
  last : ∀ txout ∈ tx.vout.tail.getLast?, txout.scriptPubKey = script ∨
    txout.nValue.toInt = params.getMasternodePayment nHeight
  value : amount.toInt ≤ tx.valueTo script

section

variable {node : Node} {tx : CTransaction} {nHeight : ℕ} {script : CScript}

theorem checkColdStakeFreeOutput_ok (synced : node.isSynced)
    (budget : node.budgetman.isBudgetPaymentBlock nHeight = false)
    (h : checkColdStakeFreeOutput node tx nHeight = .ok true) (p2cs : tx.hasP2CSOutputs node.newP2CSRules)
    (three : 3 ≤ tx.vout.length)
    (free : (tx.vout.getD (tx.vout.length - 1) {}).scriptPubKey ≠
      (tx.vout.getD (tx.vout.length - 2) {}).scriptPubKey) :
    (tx.vout.getD (tx.vout.length - 1) {}).nValue.toInt = node.params.getMasternodePayment nHeight := by
  have cond : (decide (tx.vout.length ≥ 3) && (tx.vout.getD (tx.vout.length - 1) {}).scriptPubKey !=
      (tx.vout.getD (tx.vout.length - 2) {}).scriptPubKey) = true := by
    rw [Bool.and_eq_true_iff, decide_eq_true_eq, bne_iff_ne]
    exact ⟨three, free⟩
  simp only [checkColdStakeFreeOutput, p2cs, cond, Bool.not_true, Bool.false_eq_true, if_false, if_true, synced,
    budget, Bool.false_and] at h
  split at h
  case isTrue paid => exact paid
  case isFalse =>
    split at h
    all_goals cases h

theorem checkColdStakeFreeOutput_of_checkBlock [Crypto] {block block' : CBlock} {parent : CBlockIndex}
    {fCheckPOW fCheckMerkleRoot fCheckSig : Bool} (flag : block.fChecked = false)
    (h : checkBlock node block fCheckPOW fCheckMerkleRoot fCheckSig = .ok block')
    (known : node.mapBlockIndex block.hashPrevBlock = some parent) (notIBD : node.isInitialBlockDownload = false)
    (pos : block.isProofOfStake) :
    checkColdStakeFreeOutput node (block.vtx.getD 1 {}) (parent.nHeight + 1) = .ok true := by
  obtain ⟨tip, eq⟩ := isSome_iff_exists.mp (node.tip_isSome notIBD)
  have height : blockHeight node block tip = parent.nHeight + 1 := by
    unfold blockHeight
    split
    case isTrue same =>
      have indexed := node.tip_indexed tip eq
      rw [same, known] at indexed
      cases indexed
      rfl
    case isFalse => rw [known, elim_some]
  simp only [checkBlock, flag, Bool.false_eq_true, if_false, bind_eq_ok, exists_unit, checkColdStaking, eq, height,
    notIBD, pos, Bool.not_false, Bool.and_true, gt_iff_lt, Nat.zero_lt_succ, decide_true, if_true,
    failIf_eq_ok] at h
  obtain ⟨_, _, _, _, _, _, _, ⟨free, check, accepted, _⟩, _⟩ := h
  rw [check]
  simpa using accepted

end

variable {α : Type} {l : List α} {tx : CTransaction}

theorem getD_last {a d x : α} (h : x ∈ l.getLast?) :
    (a :: l).getD ((a :: l).length - 1) d = x := by
  cases l
  case nil => cases h
  case cons b l =>
    rw [getLast?_eq_getElem?, mem_def] at h
    rw [getD_eq_getElem?_getD, length_cons, Nat.add_sub_cancel, length_cons,
      getElem?_cons_succ, ← Nat.add_sub_cancel (l.length) 1, ← length_cons (a := b), h]
    rfl

theorem getD_penultimate_mem {a d : α} (h : 2 ≤ l.length) :
    (a :: l).getD ((a :: l).length - 2) d ∈ l.dropLast := by
  have index : (a :: l).length - 2 = (l.length - 2) + 1 := by
    rw [length_cons]
    omega
  have lt : l.length - 2 < l.dropLast.length := by
    rw [length_dropLast]
    omega
  have eq : (a :: l).getD ((a :: l).length - 2) d = l.dropLast[l.length - 2] := by
    rw [index, getD_cons_succ, getElem_dropLast, getD_eq_getElem?_getD,
      getElem?_eq_getElem (by omega), getD_some]
  rw [eq]
  exact getElem_mem lt

theorem CBlock.isProofOfStake_eq {block : CBlock} (h : block.vtx[1]? = some tx) :
    block.isProofOfStake = tx.isCoinStake := by
  unfold isProofOfStake
  split
  case h_1 eq =>
    rw [eq] at h
    cases h
    rfl
  case h_2 short =>
    have ⟨lt, _⟩ := List.getElem?_eq_some_iff.mp h
    match eq : block.vtx with
    | [] | [_] => simp [eq] at lt
    | a :: b :: l => exact absurd eq (short a b l)

theorem CTransaction.vout_of_isCoinStake (h : tx.isCoinStake) :
    ∃ first second rest, tx.vout = first :: second :: rest := by
  unfold isCoinStake at h
  split at h
  case h_1 first second rest _ eq => exact ⟨_, _, _, eq⟩
  case h_2 => cases h

theorem valueTo_ge_of_checkColdStake {params : Consensus.Params} {script : CScript}
    {amount outValue : CAmount} (checked : tx.Checked params)
    (sum : coldStakeOutValue script tx.vout.length tx.vout.tail 0 = .ok outValue) (enough : ¬outValue < amount) :
    amount.toInt ≤ tx.valueTo script := by
  have each : ∀ txout ∈ tx.vout, 0 ≤ txout.nValue.toInt := fun _ mem => (checked.amounts.each _ mem).left
  have total := checked.amounts.total
  have fits := params.nMaxMoneyOut_fits
  have pos := params.nMaxMoneyOut_pos
  rw [Int64.lt_iff_toInt_lt] at enough
  unfold CTransaction.valueTo
  cases eq : tx.vout
  case nil =>
    rw [eq] at sum
    cases sum
    simpa using enough
  case cons first tail =>
    rw [eq] at each total sum
    rw [tail_cons] at sum
    have ⟨nonneg, each⟩ := forall_mem_cons.mp each
    rw [map_cons, sum_cons] at total
    have exact := coldStakeOutValue_toInt sum (by decide) each (by rw [Int64.toInt_zero]; omega)
    rw [Int64.toInt_zero] at exact
    rw [filter_cons]
    split
    case isTrue =>
      rw [map_cons, sum_cons]
      omega
    case isFalse => omega

-- Both checks together: whoever stakes delegated coins can neither move nor keep them.
theorem checkBlock_delegationKept [Crypto] {node : Node} {block block' : CBlock} {parent : CBlockIndex}
    {fCheckPOW fCheckMerkleRoot fCheckSig newP2CSRules : Bool} {nIn : ℕ} {amount : CAmount}
    {flags : ScriptFlags} {sigversion : SigVersion} {scriptSig : CScript} {stakingKey spendingKey : CKeyID}
    {pk sel : Bytes} {rest : List Bytes} (flag : block.fChecked = false)
    (accepted : checkBlock node block fCheckPOW fCheckMerkleRoot fCheckSig = .ok block')
    (known : node.mapBlockIndex block.hashPrevBlock = some parent) (notIBD : node.isInitialBlockDownload = false)
    (synced : node.isSynced) (budget : node.budgetman.isBudgetPaymentBlock (parent.nHeight + 1) = false)
    (coinStake : block.vtx[1]? = some tx)
    (spend : verifyScript flags (checker newP2CSRules tx nIn amount) sigversion scriptSig
      (getScriptForStakeDelegation stakingKey spendingKey) = .ok ())
    (stack : evalScript flags (checker newP2CSRules tx nIn amount) sigversion [] scriptSig =
      .ok (pk :: sel :: rest)) (branch : castToBool sel) :
    DelegationKept node.params (parent.nHeight + 1) (getScriptForStakeDelegation stakingKey spendingKey)
      amount tx := by
  have ⟨_, stake⟩ := checkColdStake_of_verifyScript spend stack branch
  have ⟨isCoinStake, _, outValue, sum, enough⟩ := checkColdStake_ok stake
  have checked := (checkBlock_unflagged flag accepted).left.transactions tx (mem_of_getElem? coinStake)
  have ⟨middle, last⟩ := coldStakeOutValue_scripts sum
  constructor
  case middle => exact middle
  case value => exact valueTo_ge_of_checkColdStake checked sum enough
  case last =>
    intro txout mem
    by_cases same : txout.scriptPubKey = getScriptForStakeDelegation stakingKey spendingKey
    case pos => exact .inl same
    case neg =>
      have ⟨first, second, others, eq⟩ := CTransaction.vout_of_isCoinStake isCoinStake
      have three := (last txout mem).resolve_left same
      have pos : block.isProofOfStake := by rwa [CBlock.isProofOfStake_eq coinStake]
      have check := checkColdStakeFreeOutput_of_checkBlock flag accepted known notIBD pos
      rw [getD_eq_getElem?_getD, coinStake, getD_some] at check
      have two : 2 ≤ tx.vout.tail.length := by
        rw [length_tail]
        omega
      have lastOut : tx.vout.getD (tx.vout.length - 1) {} = txout := by
        rw [eq] at mem ⊢
        exact getD_last mem
      have mem' : tx.vout.getD (tx.vout.length - 2) {} ∈ tx.vout.tail.dropLast := by
        rw [eq] at two ⊢
        exact getD_penultimate_mem two
      have penultimate := middle _ mem'
      have p2cs : tx.hasP2CSOutputs node.newP2CSRules := by
        refine any_eq_true.mpr ⟨_, mem_of_mem_tail (dropLast_subset _ mem'), ?_⟩
        rw [penultimate]
        exact isPayToColdStaking_stakeDelegation ..
      have paid := checkColdStakeFreeOutput_ok synced budget check p2cs three (by rwa [lastOut, penultimate])
      rw [lastOut] at paid
      exact .inr paid

def coldStakingNode : Node :=
  { Node.start .testnet with
    tip := some { phashBlock := 1, nHeight := 20000 }
    mapBlockIndex := fun h => if h = 1 then some { phashBlock := 1, nHeight := 20000 } else none
    isInitialBlockDownload := false
    tip_indexed := by decide
    tip_isSome := by decide }

def stakedDelegation : CTransaction where
  vin := [{ prevout := ⟨7, 0⟩, scriptSig := [0x00, 0x01, 0x01, 0x21, 0x02] ++ List.replicate 32 9 }]
  vout := [{ nValue := 0 }, { nValue := 110, scriptPubKey := getScriptForStakeDelegation 1 2 },
    { nValue := 500000000 }]

def stakedDelegationBlock [Crypto] : CBlock :=
  let coinBase : CTransaction := { vin := [{ prevout := .null, scriptSig := [0, 0] }], vout := [{ nValue := 0 }] }
  let header : CBlockHeader := {
    hashPrevBlock := 1
    hashMerkleRoot := (computeMerkleRoot [coinBase.getHash, stakedDelegation.getHash]).1
  }
  { header with
    vtx := [coinBase, stakedDelegation]
    vchBlockSig := (0x02 :: List.replicate 32 9) ++ Uint256.bytes header.getHash }

theorem checkBlock_delegationKept_staked :
    let _crypto := Crypto.toy
    checkBlock coldStakingNode stakedDelegationBlock true true true =
        .ok { stakedDelegationBlock with fChecked := true } ∧
      DelegationKept .testnet 20001 (getScriptForStakeDelegation 1 2) 100 stakedDelegation := by
  intro _crypto
  have accepted : checkBlock coldStakingNode stakedDelegationBlock true true true =
      .ok { stakedDelegationBlock with fChecked := true } := by decide +kernel
  let scriptSig : CScript := [0x00, 0x01, 0x01, 0x21, 0x02] ++ List.replicate 32 9
  have known : coldStakingNode.mapBlockIndex stakedDelegationBlock.hashPrevBlock =
      some { phashBlock := 1, nHeight := 20000 } := rfl
  have stack : evalScript SCRIPT_VERIFY_P2SH (checker false stakedDelegation 0 100) .SIGVERSION_BASE [] scriptSig =
      .ok [0x02 :: List.replicate 32 9, [1], []] := by decide
  have spend : verifyScript SCRIPT_VERIFY_P2SH (checker false stakedDelegation 0 100) .SIGVERSION_BASE scriptSig
      (getScriptForStakeDelegation 1 2) = .ok () := by decide
  exact ⟨accepted, checkBlock_delegationKept rfl accepted known rfl rfl rfl rfl spend stack (by decide)⟩

end Qrax
