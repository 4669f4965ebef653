import Qrax.Coins.View

namespace Qrax

abbrev Utxo := COutPoint → Option Coin

def Coin.unspent (c : Coin) : Option Coin :=
  if c.isSpent then none else some c

namespace Coin

@[simp]
theorem unspent_default : ({} : Coin).unspent = none := rfl

theorem unspent_of_spent {c : Coin} (h : c.isSpent = true) : c.unspent = none :=
  if_pos h

theorem unspent_of_not_spent {c : Coin} (h : c.isSpent = false) : c.unspent = some c := by
  simp [unspent, h]

theorem unspent_eq_none {c : Coin} : c.unspent = none ↔ c.isSpent = true := by
  simp [unspent]

theorem unspent_eq_some {c d : Coin} : c.unspent = some d ↔ c.isSpent = false ∧ c = d := by
  simp [unspent]

end Coin

def Utxo.write (u : Utxo) (mapCoins : CCoinsMap) : Utxo :=
  fun o =>
    match mapCoins.lookup o with
    | some e => if e.dirty then e.coin.unspent else u o
    | none => u o

namespace CCoinsView

-- The answer of `GetCoin`, without the entries it leaves in caches.
def peek (o : COutPoint) : CCoinsView → Option Coin
  | db d => d.coins.lookup o
  | memPool pool base =>
    match pool.mapTx.lookup o.hash with
    | some tx => tx.vout[o.n.toNat]?.map fun out => { out, nHeight := MEMPOOL_HEIGHT }
    | none => (base.peek o).filter (!·.isSpent)
  | cache c base =>
    match c.cacheCoins.lookup o with
    | some e => some e.coin
    | none => base.peek o

def utxo (v : CCoinsView) : Utxo :=
  fun o => (v.peek o).bind Coin.unspent

def bestBlock : CCoinsView → Uint256
  | db d => d.bestBlock.getD 0
  | memPool _ base => base.bestBlock
  | cache c base => if c.hashBlock = 0 then base.bestBlock else c.hashBlock

variable [Crypto]

def anchorAt (rt : Uint256) : CCoinsView → Option SaplingMerkleTree
  | db d => d.getSaplingAnchorAt rt
  | memPool _ base => base.anchorAt rt
  | cache c base =>
    match c.cacheSaplingAnchors.lookup rt with
    | some e => if e.entered then some e.tree else none
    | none => base.anchorAt rt

def bestAnchor : CCoinsView → Uint256
  | db d => d.getBestAnchor
  | memPool _ base => base.bestAnchor
  | cache c base => if c.hashSaplingAnchor = 0 then base.bestAnchor else c.hashSaplingAnchor

end CCoinsView

structure CCoinsCacheEntry.Agrees (e : CCoinsCacheEntry) (parent : Option Coin) : Prop where
  fresh : e.fresh = true → parent = none
  clean : e.dirty = false → parent = e.coin.unspent

namespace CCoinsView

def Consistent : CCoinsView → Prop
  | db _ => True
  | memPool _ base => base.Consistent
  | cache c base =>
    base.Consistent ∧ ∀ o e, c.cacheCoins.lookup o = some e → e.Agrees (base.utxo o)

def Layered : CCoinsView → Prop
  | db _ => True
  | memPool _ _ => False
  | cache _ base => base.Layered

structure Same [Crypto] (v v' : CCoinsView) : Prop where
  peek : ∀ o, v'.peek o = v.peek o
  bestBlock : v'.bestBlock = v.bestBlock
  anchorAt : ∀ rt, v'.anchorAt rt = v.anchorAt rt
  bestAnchor : v'.bestAnchor = v.bestAnchor
  consistent : v.Consistent → v'.Consistent
  layered : v.Layered → v'.Layered

end CCoinsView

namespace CCoinsViewCache

def entry (v : CCoinsViewCache) (o : COutPoint) : Option CCoinsCacheEntry :=
  v.cache.cacheCoins.lookup o

def utxo (v : CCoinsViewCache) : Utxo :=
  v.view.utxo

def Consistent (v : CCoinsViewCache) : Prop :=
  v.view.Consistent

end CCoinsViewCache

end Qrax
