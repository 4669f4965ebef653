import Qrax.Lib.IssueOnce
import Qrax.Validation.Theorems.ContextualCheck
import Qrax.Validation.Theorems.Undo

open Fallible

namespace Qrax

open CCoinsViewCache (Fetched NoneBelow SameCoins)

section

variable [Crypto] [Librustzcash]

-- A block on top of `links`, the newest first: only the genesis block has no parent (`GetPrevIndex`), and the
-- contextual checks passed. Heights are of type `int`.
structure Extends (links : List Link) (node : Node) (block : CBlock) (pindex : CBlockIndex)
    (pprev : Option CBlockIndex) : Prop where
  parent : pprev = links.head?.map (·.pindex)
  genesis : pprev = none ↔ block.getHash = node.consensus.hashGenesisBlock
  height : pindex.nHeight = pprev.elim 0 (·.nHeight + 1)
  fits : pindex.nHeight < 2 ^ 31
  contextual : pprev.isSome → ∃ adjustedTime, contextualCheckBlock node adjustedTime block pprev = .ok ()

-- The views that blocks lead to, with the connected blocks. In between the coins may move to other caches.
inductive Reached (allowed : List Link → Link → Prop) : List Link → CCoinsViewCache → Prop
  | start {v} : v.Consistent → (∀ o, v.utxo o = none) → Reached allowed [] v
  | connect {links v} (l : Link) : Reached allowed links v → SameCoins v l.view →
    Extends links l.node l.block l.pindex l.pprev → allowed links l →
    Reached allowed (l :: links) l.result.view
  | disconnect {links v v' l node pprev d} : Reached allowed (l :: links) v → SameCoins v v' → l.pprev = some pprev →
    disconnectBlock .int64 node l.block pprev (some l.result.vtxundo) v' = .ok d → d.result = .DISCONNECT_OK →
    Reached allowed links d.view

end

section

attribute [local instance] Crypto.toy Librustzcash.toy

def emptyView : CCoinsViewCache where
  base := .db {}

theorem emptyView_reached (allowed : List Link → Link → Prop) : Reached allowed [] emptyView :=
  .start ⟨trivial, nofun⟩ fun _ => rfl

def minerTxAt (nHeight : ℕ) : CTransaction where
  nType := Int16.ofNat nHeight
  vin := [{ prevout := .null, scriptSig := CScript.pushInt64 nHeight ++ [0] }]
  vout := [{ nValue := 5, scriptPubKey := [0x51] }]

-- The digest is the front of the header, so one can be made for any hash.
def genesisBlock (params : CChainParams) : CBlock :=
  let hash := params.consensus.hashGenesisBlock
  { exampleBlock exampleTip [minerTxAt 0] with
    nVersion := Int32.ofBitVec (hash.setWidth 32)
    hashPrevBlock := hash >>> 32 }

def indexOf (block : CBlock) (nHeight : ℕ) : CBlockIndex where
  phashBlock := block.getHash
  nHeight := nHeight
  hashFinalSaplingRoot := block.hashFinalSaplingRoot

variable {allowed : List Link → Link → Prop} {links : List Link} {v : CCoinsViewCache} {r : Connected}

theorem genesis_reached (allowed : List Link → Link → Prop) {params : CChainParams} {pindex : CBlockIndex}
    (genesis : (genesisBlock params).getHash = params.consensus.hashGenesisBlock) (height : pindex.nHeight = 0)
    (accepted : connectBlock .int64 (Node.start params) (genesisBlock params) pindex none emptyView false = .ok r)
    (first : ∀ l : Link, l.node.params = params → l.txs = [] → allowed [] l) :
    ∃ l : Link, l.pindex = pindex ∧ l.txs = [] ∧ Reached allowed [l] r.view := by
  let l : Link := ⟨Node.start params, genesisBlock params, pindex, none, emptyView, r, nofun, accepted⟩
  have txs : l.txs = [] := if_pos genesis
  have ext : Extends [] (Node.start params) (genesisBlock params) pindex none :=
    ⟨rfl, ⟨fun _ => genesis, fun _ => rfl⟩, height, by rw [height]; decide, nofun⟩
  exact ⟨l, rfl, txs, .connect l (emptyView_reached allowed) ⟨rfl, id⟩ ext (first l rfl txs)⟩

variable {node : Node} {block : CBlock} {pindex pprev : CBlockIndex}

theorem block_reached (reached : Reached allowed links v)
    (unflagged : block.fChecked = false) (other : block.getHash ≠ node.consensus.hashGenesisBlock)
    (ext : Extends links node block pindex (some pprev))
    (accepted : connectBlock .int64 node block pindex (some pprev) v false = .ok r)
    (next : ∀ l : Link, l.node = node → l.txs = block.vtx → allowed links l) :
    ∃ l : Link, l.pindex = pindex ∧ l.txs = block.vtx ∧ Reached allowed (l :: links) r.view := by
  have earned : block.FlagEarned node.params := fun flag => by rw [unflagged] at flag; cases flag
  let l : Link := ⟨node, block, pindex, some pprev, v, r, earned, accepted⟩
  have txs : l.txs = block.vtx := if_neg other
  exact ⟨l, rfl, txs, .connect l reached ⟨rfl, id⟩ ext (next l rfl txs)⟩

theorem extends_tip {l : Link} (tip : l.pindex = pprev)
    (other : block.getHash ≠ node.consensus.hashGenesisBlock) (height : pindex.nHeight = pprev.nHeight + 1)
    (fits : pindex.nHeight < 2 ^ 31) (contextual : contextualCheckBlock node 0 block (some pprev) = .ok ()) :
    Extends (l :: links) node block pindex (some pprev) where
  parent := congrArg some tip.symm
  genesis := ⟨nofun, fun genesis => absurd genesis other⟩
  height := height
  fits := fits
  contextual _ := ⟨0, contextual⟩

end

end Qrax
