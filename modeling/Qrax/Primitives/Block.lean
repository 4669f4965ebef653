import Qrax.Primitives.Serialize
import Qrax.Consensus.Merkle

open Encoding

namespace Qrax

structure CAssetRegistration where
  owner : Uint160
  key : Uint160
  type : Int16
  deriving DecidableEq

def CAssetRegistration.serialize (r : CAssetRegistration) : Bytes :=
  Uint160.bytes r.owner ++ Uint160.bytes r.key ++ serializeInt16 r.type

structure CBlockHeader where
  nVersion : Int32 := 5
  hashPrevBlock : Uint256 := 0
  hashMerkleRoot : Uint256 := 0
  nTime : UInt32 := 0
  nBits : UInt32 := 0
  nNonce : UInt32 := 0
  hashFinalSaplingRoot : Uint256 := 0
  assetRootHash : Uint256 := 0
  deriving DecidableEq

namespace CBlockHeader

def serialize (h : CBlockHeader) : Bytes :=
  serializeInt32 h.nVersion ++ Uint256.bytes h.hashPrevBlock ++ Uint256.bytes h.hashMerkleRoot ++
    serializeUInt32 h.nTime ++ serializeUInt32 h.nBits ++ serializeUInt32 h.nNonce ++
    (if h.nVersion ≥ 2 then Uint256.bytes h.hashFinalSaplingRoot else []) ++
    (if h.nVersion ≥ 3 then Uint256.bytes h.assetRootHash else [])

def getHash [Crypto] (h : CBlockHeader) : Uint256 :=
  hash256 h.serialize

theorem hashMerkleRoot_of_serialize {h h' : CBlockHeader} (e : h.serialize = h'.serialize) :
    h.hashMerkleRoot = h'.hashMerkleRoot := by
  simp only [serialize, List.append_assoc] at e
  have ⟨_, e⟩ := serializeInt32_prefixFree.inj e
  have ⟨_, e⟩ := uint256_bytes_prefixFree.inj e
  have ⟨root, _⟩ := uint256_bytes_prefixFree.inj e
  exact root

end CBlockHeader

-- `fChecked` is kept in memory only.
structure CBlock extends CBlockHeader where
  vtx : List CTransaction := []
  vReg : List CAssetRegistration := []
  vchBlockSig : Bytes := []
  fChecked : Bool := false
  deriving DecidableEq

namespace CBlock

def isProofOfStake (block : CBlock) : Bool :=
  match block.vtx with
  | _ :: tx :: _ => tx.isCoinStake
  | _ => false

def isProofOfWork (block : CBlock) : Bool :=
  !block.isProofOfStake

def serialize (block : CBlock) : Bytes :=
  block.toCBlockHeader.serialize ++ serializeVector CTransaction.serialize block.vtx ++
    serializeVector CAssetRegistration.serialize block.vReg ++
    (if block.isProofOfStake then serializeBytes block.vchBlockSig else [])

variable [Crypto]

def getHash (block : CBlock) : Uint256 :=
  block.toCBlockHeader.getHash

def blockMerkleRoot (block : CBlock) : Uint256 × Bool :=
  computeMerkleRoot (block.vtx.map CTransaction.getHash)

end CBlock

end Qrax
