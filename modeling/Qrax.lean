import Qrax.Budget.Theorems.CheckProposals
import Qrax.Budget.Theorems.Interleaving
import Qrax.Budget.Theorems.PaymentCount
import Qrax.Coins.Theorems.Usage
import Qrax.Consensus.Theorems.MerkleBlock
import Qrax.Masternode.Theorems.BlockPayee
import Qrax.Masternode.Theorems.Broadcast
import Qrax.Masternode.Theorems.Rank
import Qrax.Masternode.Theorems.Spork
import Qrax.Masternode.Theorems.VoteTally
import Qrax.Mempool.Theorems.IndexRuns
import Qrax.Mempool.Theorems.Prioritise
import Qrax.NetProcessing.Theorems.NodeState
import Qrax.Sapling.Theorems.IncrementalMerkleTree
import Qrax.Script.Theorems.SignatureHash
import Qrax.Script.Theorems.Standard
import Qrax.Txdb.Theorems.Scan
import Qrax.Validation.Theorems.AcceptBlock
import Qrax.Validation.Theorems.AcceptToMemoryPool
import Qrax.Validation.Theorems.ArithUint256
import Qrax.Validation.Theorems.BlockCalls
import Qrax.Validation.Theorems.BlockHash
import Qrax.Validation.Theorems.BlockProof
import Qrax.Validation.Theorems.BlockSignature
import Qrax.Validation.Theorems.CheckBlockState
import Qrax.Validation.Theorems.ColdStaking
import Qrax.Validation.Theorems.IndexUndo
import Qrax.Validation.Theorems.Kernel
import Qrax.Validation.Theorems.Locator
import Qrax.Validation.Theorems.Nullifiers
import Qrax.Validation.Theorems.Overflow
import Qrax.Validation.Theorems.ReconsiderBlock
import Qrax.Validation.Theorems.Retarget
import Qrax.Validation.Theorems.Supply
import Qrax.Validation.Theorems.Uniqueness
import Qrax.Theorems.Base58
import Qrax.Theorems.Bloom
