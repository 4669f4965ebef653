import Qrax.Validation.Theorems.Stake

open Fallible

namespace Qrax

section

-- The key is in the first payment of the coinstake, or in its first input.
def CTransaction.ShowsKey (newP2CSRules : Bool) (tx : CTransaction) (key : Bytes) : Prop :=
  let scriptSig := (tx.vin.headD { prevout := .null }).scriptSig
  let behind (start : ℕ) := ∃ front : Bytes, front.length = start ∧ scriptSig = front ++ key
  match solver newP2CSRules (tx.vout.getD 1 {}).scriptPubKey with
  | some (.TX_PUBKEY, vSolutions) => vSolutions.head? = some key
  | some (.TX_PUBKEYHASH, _) => scriptSig.length ≠ 73 ∧ behind (skipPush scriptSig 0 + 1)
  | some (.TX_ASSETSMINT, _) => scriptSig.length ≠ 73 ∧ behind 3
  | some (.TX_COLDSTAKE, _) | some (.TX_DPOSASSETMINT, _) =>
    behind (skipPush scriptSig (skipPush scriptSig 0) + 1)
  | _ => False

variable {newP2CSRules : Bool} {tx : CTransaction} {key : Bytes}

theorem ne_nil_of_isValid (valid : CPubKey.isValid key) : key ≠ [] := by
  rintro rfl
  cases valid

theorem drop_eq_iff {l : Bytes} {n : ℕ} (nonempty : key ≠ []) :
    l.drop n = key ↔ ∃ front : Bytes, front.length = n ∧ l = front ++ key := by
  constructor
  case mp =>
    intro eq
    have lt : n < l.length := by
      by_contra le
      exact nonempty (eq ▸ List.drop_eq_nil_of_le (by omega))
    exact ⟨l.take n, List.length_take_of_le (by omega), by rw [← eq, List.take_append_drop]⟩
  case mpr =>
    rintro ⟨front, rfl, rfl⟩
    exact List.drop_left

theorem blockSignatureKey_eq_some (nonempty : key ≠ []) :
    blockSignatureKey newP2CSRules tx = some key ↔ tx.ShowsKey newP2CSRules key := by
  unfold blockSignatureKey CTransaction.ShowsKey
  cases solver newP2CSRules (tx.vout.getD 1 {}).scriptPubKey
  case none => exact ⟨nofun, nofun⟩
  case some solution =>
    have ⟨t, vSolutions⟩ := solution
    cases t
    case TX_PUBKEY =>
      cases vSolutions
      case nil => simpa using nonempty.symm
      case cons k ks => simp
    case TX_PUBKEYHASH | TX_ASSETSMINT =>
      rw [Option.ite_none_left_eq_some, Option.some_inj, drop_eq_iff nonempty]
    case TX_COLDSTAKE | TX_DPOSASSETMINT => rw [Option.some_inj, drop_eq_iff nonempty]
    all_goals simpa using nonempty.symm

variable [Crypto]

def CTxOut.namesKey (newP2CSRules : Bool) (out : CTxOut) (key : Bytes) : Bool :=
  match solver newP2CSRules out.scriptPubKey with
  | some (.TX_PUBKEY, vSolutions) => vSolutions.contains key
  | some (.TX_PUBKEYHASH, vSolutions) => vSolutions.contains (Uint160.bytes (hash160 key))
  | some (.TX_COLDSTAKE, vSolutions) => vSolutions.contains (Uint160.bytes (hash160 key))
  | _ => false

variable {node : Node} {block : CBlock}

theorem checkBlockSignature_eq_true (stakes : block.isProofOfStake) (signed : checkBlockSignature node block) :
    ∃ key, blockSignatureKey node.newP2CSRules (coinStakeTx block) = some key ∧ key ≠ [] ∧
      Crypto.verify key block.getHash block.vchBlockSig := by
  have work : block.isProofOfWork = false := by rw [CBlock.isProofOfWork, stakes]; rfl
  rw [checkBlockSignature, work] at signed
  simp only [Bool.false_eq_true, if_false] at signed
  split at signed
  case isTrue => cases signed
  case isFalse =>
    split at signed
    case h_1 => cases signed
    case h_2 key eq =>
      have ⟨valid, verified⟩ := Bool.and_eq_true_iff.mp signed
      exact ⟨key, eq, ne_nil_of_isValid valid, verified⟩

section

variable (tree : BlockTree) (store : BlockStore) (chain : ActiveChain) (node : Node) (block : CBlock)

def SignedByStake : Prop :=
  ∀ stake, newStake tree store chain (stakeTxIn block) = .ok (some stake) →
    ∃ key, stake.outputFrom.namesKey node.newP2CSRules key ∧ Crypto.verify key block.getHash block.vchBlockSig

def ShowsStakeKey : Prop :=
  ∀ stake, newStake tree store chain (stakeTxIn block) = .ok (some stake) →
    ∃ key ≠ [], (coinStakeTx block).ShowsKey node.newP2CSRules key ∧ stake.outputFrom.namesKey node.newP2CSRules key

end

-- A block that passes both checks is signed by a key of the staked output just when the coinstake shows such a key,
-- unless the signature verifies under keys it does not show.
theorem signedByStake_iff {tree : BlockTree} {store : BlockStore} {chain : ActiveChain} {pindexPrev : Uint256}
    (accepted : checkProofOfStake tree store chain block pindexPrev = .ok ()) (signed : checkBlockSignature node block) :
    (ShowsStakeKey tree store chain node block → SignedByStake tree store chain node block) ∧
      ((∀ key, Crypto.verify key block.getHash block.vchBlockSig →
          key ≠ [] ∧ (coinStakeTx block).ShowsKey node.newP2CSRules key) →
        SignedByStake tree store chain node block → ShowsStakeKey tree store chain node block) := by
  have ⟨key, eq, nonempty, verified⟩ := checkBlockSignature_eq_true (checkProofOfStake_eq_ok.mp accepted).right.left signed
  constructor
  case left =>
    intro shown stake found
    have ⟨key', nonempty', shows', names⟩ := shown stake found
    cases eq.symm.trans ((blockSignatureKey_eq_some nonempty').mpr shows')
    exact ⟨key, names, verified⟩
  case right =>
    intro sole named stake found
    have ⟨key', names, verified'⟩ := named stake found
    have ⟨nonempty', shows'⟩ := sole key' verified'
    exact ⟨key', nonempty', shows', names⟩

end

section

attribute [local instance] Crypto.toy

def delegatedOut (staker : CKeyID) : CTxOut where
  nValue := 100
  scriptPubKey := getScriptForStakeDelegation staker 2

def delegatedTx (staker : CKeyID) : CTransaction where
  nType := 4
  vin := [{ prevout := .null, scriptSig := [1, 1] }]
  vout := [delegatedOut staker]

def delegatedBlock (staker : CKeyID) : CBlock :=
  { leftBlock with vtx := [delegatedTx staker] }

def delegatedStore (staker : CKeyID) : BlockStore where
  readBlockFromDisk b := if b = (delegatedBlock staker).getHash then some (delegatedBlock staker) else none
  nTime _ := 0
  getStakeModifierV2 _ := 0
  hash found := by
    have ⟨eq, here⟩ := Option.ite_none_right_eq_some.mp found
    cases here
    exact eq.symm

def delegatedChain (staker : CKeyID) : ActiveChain :=
  branchChain (delegatedBlock staker) (delegatedTx staker)

def ownKey : Bytes :=
  2 :: List.replicate 32 9

def delegatedStake (staker : CKeyID) : CBlock :=
  let block : CBlock := {
    nVersion := 1
    hashPrevBlock := (delegatedBlock staker).getHash
    nBits := 0x207fffff
    vtx := [fundingTx 3, {
      vin := [{ prevout := ⟨(delegatedTx staker).getHash, 0⟩, scriptSig := [0x00, 0x01, 0x51, 0x21] ++ ownKey }]
      vout := [{ nValue := 0 }, delegatedOut staker]
    }]
  }
  { block with vchBlockSig := ownKey ++ Uint256.bytes block.getHash }

theorem delegatedStake_eval (staker : CKeyID) (id : staker = 1 ∨ staker = hash160 ownKey) :
    newStake branchTree (delegatedStore staker) (delegatedChain staker) (stakeTxIn (delegatedStake staker)) =
        .ok (some ⟨delegatedOut staker, ⟨(delegatedTx staker).getHash, 0⟩, (delegatedBlock staker).getHash⟩) ∧
      checkProofOfStake branchTree (delegatedStore staker) (delegatedChain staker) (delegatedStake staker)
        (delegatedBlock staker).getHash = .ok () := by
  obtain rfl | rfl := id <;> decide +kernel

theorem signedByStake_stranger :
    checkProofOfStake branchTree (delegatedStore 1) (delegatedChain 1) (delegatedStake 1)
        (delegatedBlock 1).getHash = .ok () ∧
      checkBlockSignature (.start .main) (delegatedStake 1) ∧
      ¬SignedByStake branchTree (delegatedStore 1) (delegatedChain 1) (.start .main) (delegatedStake 1) := by
  have ⟨found, accepted⟩ := delegatedStake_eval 1 (.inl rfl)
  refine ⟨accepted, by decide, fun signed => ?_⟩
  have ⟨key, names, verified⟩ := signed _ found
  have eq : ownKey ++ Uint256.bytes (delegatedStake 1).getHash = key ++ Uint256.bytes (delegatedStake 1).getHash :=
    eq_of_beq verified
  rw [← List.append_cancel_right eq] at names
  exact absurd names (by decide)

theorem signedByStake_staker : SignedByStake branchTree (delegatedStore (hash160 ownKey))
    (delegatedChain (hash160 ownKey)) (.start .main) (delegatedStake (hash160 ownKey)) := by
  have ⟨stakes, accepted⟩ := delegatedStake_eval (hash160 ownKey) (.inr rfl)
  have signed : checkBlockSignature (.start .main) (delegatedStake (hash160 ownKey)) := by decide
  have nonempty : ownKey ≠ [] := by decide
  refine (signedByStake_iff accepted signed).left fun stake' found => ?_
  cases stakes.symm.trans found
  exact ⟨ownKey, nonempty, (blockSignatureKey_eq_some nonempty).mp (by decide), by decide⟩

end

end Qrax
