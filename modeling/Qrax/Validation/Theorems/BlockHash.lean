import Qrax.Consensus.Theorems.Merkle
import Qrax.Validation.Theorems.CheckBlock

open MerkleTree List Set

namespace Qrax

open CBlock

section

variable [Crypto]

namespace CBlock

def txids (block : CBlock) : List Uint256 :=
  block.vtx.map CTransaction.getHash

def innerNodes (block : CBlock) : Set Uint256 :=
  inner merkleHash (height block.txids) block.txids

def messages (block : CBlock) : Set Bytes :=
  {block.toCBlockHeader.serialize} ∪ CTransaction.serialize '' {tx | tx ∈ block.vtx} ∪
    (fun p => Uint256.bytes p.1 ++ Uint256.bytes p.2) ''
      pairs merkleHash (height block.txids) block.txids

variable {block : CBlock}

theorem header_mem_messages : block.toCBlockHeader.serialize ∈ block.messages :=
  .inl (.inl rfl)

theorem tx_mem_messages {tx : CTransaction} (h : tx ∈ block.vtx) : tx.serialize ∈ block.messages :=
  .inl (.inr ⟨tx, h, rfl⟩)

theorem pair_mem_messages {p : Uint256 × Uint256}
    (h : p ∈ pairs merkleHash (height block.txids) block.txids) :
    Uint256.bytes p.1 ++ Uint256.bytes p.2 ∈ block.messages :=
  .inr ⟨p, h, rfl⟩

end CBlock

variable {params : CChainParams} {block : CBlock}

namespace CBlock.Checked

theorem merkleRoot_eq (h : block.Checked params) :
    block.blockMerkleRoot =
      (root merkleHash (height block.txids) block.txids, mutated merkleHash (height block.txids) block.txids) := by
  have length : block.txids.length = block.vtx.length := length_map ..
  have le := h.vtx_length_le
  simp only [MAX_BLOCK_SIZE_CURRENT] at le
  exact computeMerkleRoot_eq (length ▸ h.vtx_pos) (length ▸ by omega)

theorem clean (h : block.Checked params) (merkle : block.MerkleRootMatches) {hashed : Set (Uint256 × Uint256)}
    (sub : pairs merkleHash (height block.txids) block.txids ⊆ hashed) :
    Clean merkleHash hashed (height block.txids) block.txids where
  pos := by rw [txids, length_map]; exact h.vtx_pos
  fits := length_le_height _
  distinct := by have := merkle.mutated; rwa [h.merkleRoot_eq] at this
  hashed := sub

end CBlock.Checked

theorem map_wire_eq_of_txids {a b : CBlock} (checked : a.Checked params)
    (inj : Set.InjOn hash256 (a.messages ∪ b.messages)) (h : a.txids = b.txids) :
    a.vtx.map CTransaction.wire = b.vtx.map CTransaction.wire := by
  have length : a.vtx.length = b.vtx.length := by
    have := congrArg length h
    rwa [txids, txids, length_map, length_map] at this
  refine ext_getElem (by rw [length_map, length_map, length]) fun i hi hi' => ?_
  rw [length_map] at hi hi'
  have ids : a.vtx[i].getHash = b.vtx[i].getHash := by
    have := getElem_of_eq h (by rwa [txids, length_map] : i < a.txids.length)
    simpa only [txids, getElem_map] using this
  have memₐ := getElem_mem hi
  have memᵦ := getElem_mem hi'
  have eq := inj (.inl (tx_mem_messages memₐ)) (.inr (tx_mem_messages memᵦ)) ids
  rw [getElem_map, getElem_map]
  exact checked.wire_eq_of_serialize memₐ eq

theorem getHash_commits_vtx {node node' : Node} {a b a' b' : CBlock} {fCheckPOW fCheckSig fCheckPOW' fCheckSig' : Bool}
    (ha : checkBlock node a fCheckPOW true fCheckSig = .ok a')
    (hb : checkBlock node' b fCheckPOW' true fCheckSig' = .ok b')
    (earnedₐ : a.FlagEarned node.params) (earnedᵦ : b.FlagEarned node'.params) (hash : a.getHash = b.getHash)
    (inj : Set.InjOn hash256 (a.messages ∪ b.messages))
    (leavesₐ : ∀ tx ∈ a.vtx, tx.getHash ∉ b.innerNodes) (leavesᵦ : ∀ tx ∈ b.vtx, tx.getHash ∉ a.innerNodes) :
    a.vtx.map CTransaction.wire = b.vtx.map CTransaction.wire := by
  have ⟨checkedₐ, merkleₐ⟩ := checkBlock_ok earnedₐ ha
  have ⟨checkedᵦ, merkleᵦ⟩ := checkBlock_ok earnedᵦ hb
  have header := CBlockHeader.hashMerkleRoot_of_serialize
    (inj (.inl CBlock.header_mem_messages) (.inr CBlock.header_mem_messages) hash)
  have roots := (merkleₐ rfl).root.symm.trans (header.trans (merkleᵦ rfl).root)
  rw [checkedₐ.merkleRoot_eq, checkedᵦ.merkleRoot_eq] at roots
  let hashed := pairs merkleHash (height a.txids) a.txids ∪ pairs merkleHash (height b.txids) b.txids
  have hashedInj : hashed.InjOn fun p => merkleHash p.1 p.2 := by
    intro p hp q hq h
    exact uint256_pair_inj (inj (hp.imp CBlock.pair_mem_messages CBlock.pair_mem_messages)
      (hq.imp CBlock.pair_mem_messages CBlock.pair_mem_messages) h)
  refine map_wire_eq_of_txids checkedₐ inj ?_
  exact eq_of_root_eq hashedInj (checkedₐ.clean (merkleₐ rfl) Set.subset_union_left)
    (checkedᵦ.clean (merkleᵦ rfl) Set.subset_union_right) (forall_mem_map.mpr leavesₐ)
    (forall_mem_map.mpr leavesᵦ) roots

end

def coinBaseTx : CTransaction where
  vin := [{ prevout := .null, scriptSig := [0, 0] }]
  vout := [{ nValue := 5 }]

def registrationBlock [Crypto] (vReg : List CAssetRegistration) : CBlock where
  hashMerkleRoot := coinBaseTx.getHash
  vtx := [coinBaseTx]
  vReg := vReg

theorem innerNodes_registrationBlock [Crypto] (vReg : List CAssetRegistration) :
    (registrationBlock vReg).innerNodes = ∅ := by
  have flat : height (registrationBlock vReg).txids = 0 := Nat.clog_one_right 2
  rw [innerNodes, flat, MerkleTree.inner, pairs, image_empty]

theorem messages_registrationBlock [Crypto] (vReg : List CAssetRegistration) :
    (registrationBlock vReg).messages =
      {(registrationBlock []).toCBlockHeader.serialize, coinBaseTx.serialize} := by
  have flat : height (registrationBlock vReg).txids = 0 := Nat.clog_one_right 2
  rw [messages, flat, pairs, image_empty, union_empty]
  have txs : {tx | tx ∈ (registrationBlock vReg).vtx} = {coinBaseTx} := by
    ext tx
    simp [registrationBlock]
  rw [txs, image_singleton]
  rfl

theorem injOn_messages_registrationBlock :
    let _crypto := Crypto.toy
    ∀ vReg vReg', Set.InjOn hash256 ((registrationBlock vReg).messages ∪ (registrationBlock vReg').messages) := by
  intro _crypto vReg vReg'
  have differ : hash256 (registrationBlock []).toCBlockHeader.serialize ≠ hash256 coinBaseTx.serialize := by
    decide
  rw [messages_registrationBlock, messages_registrationBlock, union_self]
  exact (Set.injOn_pair).mpr fun h => absurd h differ

theorem not_mem_innerNodes_registrationBlock [Crypto] (vReg : List CAssetRegistration) (h : Uint256) :
    h ∉ (registrationBlock vReg).innerNodes := by
  rw [innerNodes_registrationBlock]
  exact notMem_empty h

theorem getHash_commits_vtx_registered :
    let _crypto := Crypto.toy
    let node := Node.start .regtest
    let a := registrationBlock []
    let b := registrationBlock [{ owner := 1, key := 2, type := 3 }]
    a.getHash = b.getHash ∧ checkBlock node a true true true = .ok { a with fChecked := true } ∧
      a.vtx.map CTransaction.wire = b.vtx.map CTransaction.wire := by
  intro _crypto node a b
  have acceptedₐ : checkBlock node a true true true = .ok { a with fChecked := true } := by decide +kernel
  have acceptedᵦ : checkBlock node b true true true = .ok { b with fChecked := true } := by decide +kernel
  exact ⟨rfl, acceptedₐ, getHash_commits_vtx acceptedₐ acceptedᵦ nofun nofun rfl
    (injOn_messages_registrationBlock _ _) (fun _ _ => not_mem_innerNodes_registrationBlock _ _)
    fun _ _ => not_mem_innerNodes_registrationBlock _ _⟩

-- The registrations of a block are not covered by its hash.
theorem registrations_not_committed :
    let _crypto := Crypto.toy
    let node := Node.start .regtest
    let a := registrationBlock []
    let b := registrationBlock [{ owner := 1, key := 2, type := 3 }]
    checkBlock node a true true true = .ok { a with fChecked := true } ∧
      checkBlock node b true true true = .ok { b with fChecked := true } ∧
      a.getHash = b.getHash ∧ Set.InjOn hash256 (a.messages ∪ b.messages) ∧
      (∀ tx ∈ a.vtx, tx.getHash ∉ b.innerNodes) ∧ (∀ tx ∈ b.vtx, tx.getHash ∉ a.innerNodes) ∧
      a.vReg ≠ b.vReg := by
  intro _crypto node a b
  exact ⟨by decide +kernel, by decide +kernel, rfl, injOn_messages_registrationBlock _ _,
    fun _ _ => not_mem_innerNodes_registrationBlock _ _,
    fun _ _ => not_mem_innerNodes_registrationBlock _ _, by decide⟩

end Qrax
