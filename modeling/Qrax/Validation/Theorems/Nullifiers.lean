import Qrax.Validation.Theorems.Chain

open Fallible List

namespace Qrax

def CTransaction.nullifiers (tx : CTransaction) : List Uint256 :=
  if tx.isShieldedTx then tx.sapData.elim [] (·.vShieldedSpend.map (·.nullifier)) else []

def CTransaction.revealsNullifiers (tx : CTransaction) : Bool :=
  !tx.nullifiers.isEmpty

variable {node : Node} {tx : CTransaction} {fColdStakingActive fSaplingActive : Bool}

theorem checkTransaction_nullifiers (h : checkTransaction node tx fColdStakingActive fSaplingActive = .ok ()) :
    tx.nullifiers.Nodup ∧ (fSaplingActive = false → tx.nullifiers = []) := by
  simp only [checkTransaction, bind_eq_ok, exists_unit] at h
  obtain ⟨_, _, _, _, n, sapling, _⟩ := h
  unfold CTransaction.nullifiers
  split
  case isFalse => exact ⟨nodup_nil, fun _ => rfl⟩
  case isTrue shielded =>
    obtain ⟨_, data⟩ := Bool.and_eq_true_iff.mp shielded
    simp only [SaplingValidation.checkTransaction, data, Bool.not_true, Bool.false_eq_true, if_false, Bool.and_true,
      bind_eq_ok, exists_unit, failIf_eq_ok, Bool.not_eq_true', Bool.not_eq_false,
      SaplingValidation.checkTransactionWithoutProofVerification] at sapling
    obtain ⟨_, _, active, _, _, _, _, distinct, _⟩ := sapling
    refine ⟨?_, fun inactive => ?_⟩
    · cases eq : tx.sapData
      case none => exact nodup_nil
      case some d =>
        rw [eq] at distinct
        exact not_not.mp distinct
    · rw [inactive] at active
      cases active

theorem Consensus.Params.networkUpgradeActive_of_none {params : Consensus.Params} {idx : Consensus.UpgradeIndex}
    (h : params.vUpgrades idx = none) (nHeight : ℕ) : params.networkUpgradeActive nHeight idx = false := by
  simp only [networkUpgradeActive, h]

section

variable [Crypto]

variable {block block' : CBlock} {fCheckPOW fCheckMerkleRoot fCheckSig : Bool}

theorem checkBlock_transactions_unflagged (flag : block.fChecked = false)
    (h : checkBlock node block fCheckPOW fCheckMerkleRoot fCheckSig = .ok block') :
    ∀ tx ∈ block.vtx, ∃ fColdStakingActive, checkTransaction node tx fColdStakingActive
      (node.consensus.networkUpgradeActive node.nextHeight .ACTIVATE_HUSH) = .ok () := by
  simp only [checkBlock, flag, Bool.false_eq_true, if_false, bind_eq_ok, exists_unit, forM_eq_ok, mapError_eq_ok] at h
  obtain ⟨_, _, _, _, _, _, fColdStakingActive, _, transactions, _⟩ := h
  exact fun tx mem => ⟨fColdStakingActive, transactions tx mem⟩

theorem checkBlock_transactions (earned : block.FlagEarned node.params)
    (h : checkBlock node block fCheckPOW fCheckMerkleRoot fCheckSig = .ok block') :
    ∃ node' : Node, node'.params = node.params ∧ ∀ tx ∈ block.vtx, ∃ fColdStakingActive,
      checkTransaction node' tx fColdStakingActive
        (node'.consensus.networkUpgradeActive node'.nextHeight .ACTIVATE_HUSH) = .ok () := by
  cases flag : block.fChecked
  case false => exact ⟨node, rfl, checkBlock_transactions_unflagged flag h⟩
  case true =>
    have ⟨node', same, full⟩ := earned flag
    have checked := checkBlock_transactions_unflagged rfl full
    exact ⟨node', same, checked⟩

namespace Link

def nullifiers (l : Link) : List Uint256 :=
  l.txs.flatMap (·.nullifiers)

theorem nullifiers_checked (l : Link) : ∀ tx ∈ l.txs, tx.nullifiers.Nodup ∧
    (l.node.consensus.vUpgrades .ACTIVATE_HUSH = none → tx.nullifiers = []) := by
  have accepted := l.accepted
  simp only [connectBlock, bind_eq_ok] at accepted
  obtain ⟨_, recheck, _⟩ := accepted
  obtain ⟨node', same, transactions⟩ := checkBlock_transactions l.earned (recheckBlock_ok recheck)
  intro tx mem
  have mem : tx ∈ l.block.vtx := by
    unfold txs at mem
    split at mem
    case isTrue => cases mem
    case isFalse => exact mem
  obtain ⟨_, checked⟩ := transactions tx mem
  obtain ⟨nodup, inactive⟩ := checkTransaction_nullifiers checked
  refine ⟨nodup, fun never => inactive ?_⟩
  have never' : node'.consensus.vUpgrades .ACTIVATE_HUSH = none := by
    rw [Node.consensus, same]
    exact never
  exact Consensus.Params.networkUpgradeActive_of_none never' _

end Link

def OneReveals (links : List Link) : Prop :=
  ((links.flatMap Link.txs).filter (·.revealsNullifiers)).length ≤ 1

omit [Crypto] in
theorem flatMap_nullifiers_filter (vtx : List CTransaction) :
    vtx.flatMap (·.nullifiers) = (vtx.filter (·.revealsNullifiers)).flatMap (·.nullifiers) := by
  induction vtx
  case nil => rfl
  case cons tx vtx ih =>
    rw [flatMap_cons, ih, filter_cons]
    split
    case isTrue => rfl
    case isFalse none =>
      have none : tx.nullifiers = [] := by simpa [CTransaction.revealsNullifiers] using none
      rw [none, nil_append]

-- Shielded data is never allowed, or the block brings no second transaction with nullifiers.
def RevealsAlone (links : List Link) (l : Link) : Prop :=
  l.node.consensus.vUpgrades .ACTIVATE_HUSH = none ∨ OneReveals (l :: links)

theorem OneReveals.nodup {links : List Link} (h : OneReveals links) : (links.flatMap Link.nullifiers).Nodup := by
  have all : links.flatMap Link.nullifiers = (links.flatMap Link.txs).flatMap (·.nullifiers) := by
    rw [flatMap_assoc]
    rfl
  have checked : ∀ tx ∈ (links.flatMap Link.txs).filter (·.revealsNullifiers), tx.nullifiers.Nodup := by
    intro tx mem
    have ⟨l, _, mem⟩ := mem_flatMap.mp (mem_filter.mp mem).left
    exact (l.nullifiers_checked tx mem).left
  rw [all, flatMap_nullifiers_filter]
  unfold OneReveals at h
  generalize (links.flatMap Link.txs).filter (·.revealsNullifiers) = vtx at h checked ⊢
  match vtx with
  | [] => exact nodup_nil
  | [tx] =>
    rw [flatMap_cons, flatMap_nil, append_nil]
    exact checked tx (mem_cons_self ..)
  | _ :: _ :: _ =>
    simp only [length_cons] at h
    omega

variable [Librustzcash] {links : List Link} {v : CCoinsViewCache}

theorem Reached.oneReveals (h : Reached RevealsAlone links v) :
    OneReveals links := by
  induction h
  case start => exact Nat.zero_le 1
  case disconnect l _ _ _ _ _ _ _ _ ih =>
    refine le_trans (List.Sublist.length_le (List.Sublist.filter _ ?_)) ih
    rw [flatMap_cons]
    exact sublist_append_right ..
  case connect links _ l _ _ _ allowed ih =>
    cases allowed
    case inr one => exact one
    case inl never =>
      -- Without the upgrade the block reveals nothing.
      have none : l.txs.filter (·.revealsNullifiers) = [] := by
        refine filter_eq_nil_iff.mpr fun tx mem => ?_
        rw [CTransaction.revealsNullifiers, (l.nullifiers_checked tx mem).right never]
        decide
      unfold OneReveals
      rw [flatMap_cons, filter_append, none, nil_append]
      exact ih

theorem Reached.nullifiers_nodup (h : Reached RevealsAlone links v) :
    (links.flatMap Link.nullifiers).Nodup :=
  h.oneReveals.nodup

end

section

attribute [local instance] Crypto.toy Librustzcash.toy

def saplingParams : CChainParams :=
  CChainParams.regtest.updateNetworkUpgradeParameters .ACTIVATE_HUSH (some 1)

def exampleSpend : SpendDescription where
  cv := 0
  anchor := SaplingMerkleTree.emptyRoot
  nullifier := 77
  rk := 0
  zkproof := Vector.replicate 192 0
  spendAuthSig := Vector.replicate 64 0

def nullifierTx (scriptPubKey : CScript) : CTransaction where
  nVersion := CTransaction.TxVersion.SAPLING.toInt16
  vout := [{ nValue := 0, scriptPubKey }]
  sapData := some { vShieldedSpend := [exampleSpend] }

def saplingBlock (tip : CBlockIndex) (nHeight : ℕ) (vtx : List CTransaction) : CBlock :=
  let miner := { minerTxAt nHeight with nVersion := Int16.ofNat nHeight, nType := CTransaction.NORMAL }
  { exampleBlock tip (miner :: vtx) with hashFinalSaplingRoot := SaplingMerkleTree.root {} }

def saplingGenesis : CBlockIndex :=
  indexOf (genesisBlock saplingParams) 0

def firstBlock (vtx : List CTransaction) : CBlock :=
  saplingBlock saplingGenesis 1 vtx

def firstNode : Node :=
  exampleNode saplingParams saplingGenesis

def secondBlock (vtx vtx' : List CTransaction) : CBlock :=
  saplingBlock (indexOf (firstBlock vtx) 1) 2 vtx'

def secondNode (vtx : List CTransaction) : Node :=
  exampleNode saplingParams (indexOf (firstBlock vtx) 1)

def connectBoth (vtx vtx' : List CTransaction) : Except Failure Connected := do
  let r ← connectBlock .int64 (Node.start saplingParams) (genesisBlock saplingParams) saplingGenesis none emptyView false
  let r ← connectBlock .int64 firstNode (firstBlock vtx) (indexOf (firstBlock vtx) 1) (some saplingGenesis) r.view false
  connectBlock .int64 (secondNode vtx) (secondBlock vtx vtx') (indexOf (secondBlock vtx vtx') 2)
    (some (indexOf (firstBlock vtx) 1)) r.view false

structure BothFit (vtx vtx' : List CTransaction) : Prop where
  first : (firstBlock vtx).getHash ≠ firstNode.consensus.hashGenesisBlock
  second : (secondBlock vtx vtx').getHash ≠ (secondNode vtx).consensus.hashGenesisBlock
  check : contextualCheckBlock firstNode 0 (firstBlock vtx) (some saplingGenesis) = .ok ()
  check' : contextualCheckBlock (secondNode vtx) 0 (secondBlock vtx vtx') (some (indexOf (firstBlock vtx) 1)) = .ok ()

theorem connectBoth_reached (allowed : List Link → Link → Prop) {vtx vtx' : List CTransaction} (fit : BothFit vtx vtx')
    (accepted : (connectBoth vtx vtx').isOk) (genesis : ∀ l : Link, l.txs = [] → allowed [] l)
    (first : ∀ l₀ l₁ : Link, l₀.txs = [] → l₁.txs = (firstBlock vtx).vtx → allowed [l₀] l₁)
    (second : ∀ l₀ l₁ l₂ : Link, l₀.txs = [] → l₁.txs = (firstBlock vtx).vtx → l₂.txs = (secondBlock vtx vtx').vtx →
      allowed [l₁, l₀] l₂) :
    ∃ links v, Reached allowed links v ∧ links.flatMap Link.nullifiers =
      (secondBlock vtx vtx').vtx.flatMap (·.nullifiers) ++ (firstBlock vtx).vtx.flatMap (·.nullifiers) := by
  have ⟨r₂, accepted⟩ := isOk_iff.mp accepted
  have ⟨r₀, accepted₀, accepted⟩ := bind_eq_ok.mp accepted
  have ⟨r₁, accepted₁, accepted₂⟩ := bind_eq_ok.mp accepted
  have ⟨l₀, pindex₀, txs₀, reached⟩ := genesis_reached allowed (by decide) rfl accepted₀ fun l _ => genesis l
  have ext₁ : Extends [l₀] firstNode (firstBlock vtx) (indexOf (firstBlock vtx) 1) (some saplingGenesis) :=
    extends_tip pindex₀ fit.first rfl (by change 1 < 2 ^ 31; decide) fit.check
  have ⟨l₁, pindex₁, txs₁, reached⟩ := block_reached reached rfl fit.first ext₁ accepted₁ fun l _ txs =>
    first l₀ l txs₀ txs
  have ext₂ : Extends [l₁, l₀] (secondNode vtx) (secondBlock vtx vtx') (indexOf (secondBlock vtx vtx') 2)
      (some (indexOf (firstBlock vtx) 1)) :=
    extends_tip pindex₁ fit.second rfl (by change 2 < 2 ^ 31; decide) fit.check'
  have ⟨l₂, _, txs₂, reached⟩ := block_reached reached rfl fit.second ext₂ accepted₂ fun l _ txs =>
    second l₀ l₁ l txs₀ txs₁ txs
  refine ⟨_, _, reached, ?_⟩
  simp only [flatMap_cons, flatMap_nil, Link.nullifiers, txs₀, txs₁, txs₂, append_nil]

theorem nullifiers_nodup_once : ∃ links v,
    Reached RevealsAlone links v ∧
    links.flatMap Link.nullifiers = [77] ∧ (links.flatMap Link.nullifiers).Nodup := by
  have fit : BothFit [nullifierTx [0x51]] [] :=
    ⟨by decide, by decide, by decide, by decide⟩
  have ⟨links, v, reached, nullifiers⟩ := connectBoth_reached RevealsAlone fit (by decide +kernel)
    (fun l txs => .inr (by simp only [OneReveals, flatMap_cons, flatMap_nil, txs]; decide))
    (fun l₀ l₁ txs₀ txs₁ => .inr (by simp only [OneReveals, flatMap_cons, flatMap_nil, txs₀, txs₁]; decide))
    (fun l₀ l₁ l₂ txs₀ txs₁ txs₂ => .inr (by
      simp only [OneReveals, flatMap_cons, flatMap_nil, txs₀, txs₁, txs₂]
      decide))
  exact ⟨links, v, reached, nullifiers, reached.nullifiers_nodup⟩

-- Three transactions with one nullifier, two of them in one block.
theorem nullifier_revealed_again : ∃ links v, Reached (fun _ _ => True) links v ∧
    links.flatMap Link.nullifiers = [77, 77, 77] := by
  have fit : BothFit [nullifierTx [0x51], nullifierTx [0x52]] [nullifierTx [0x53]] :=
    ⟨by decide, by decide, by decide, by decide⟩
  exact connectBoth_reached (fun _ _ => True) fit (by decide +kernel) (fun _ _ => trivial) (fun _ _ _ _ => trivial)
    fun _ _ _ _ _ _ => trivial

end

end Qrax
