import Qrax.Primitives.Serialize
import Qrax.Sapling.IncrementalMerkleTree

namespace Qrax

namespace memusage

def mallocUsage (alloc : ℕ) : ℕ :=
  if alloc = 0 then 0 else ((alloc + 31) >>> 4) <<< 4

def dynamicUsage (script : CScript) : ℕ :=
  mallocUsage (if script.length ≤ 28 then 0 else script.length)

end memusage

structure Coin where
  fCoinBase : Bool := false
  fCoinStake : Bool := false
  out : CTxOut := {}
  nHeight : ℕ := 0
  deriving DecidableEq

namespace Coin

def isSpent (c : Coin) : Bool :=
  c.out.isNull

def dynamicMemoryUsage (c : Coin) : ℕ :=
  memusage.dynamicUsage c.out.scriptPubKey

@[simp]
theorem isSpent_default : ({} : Coin).isSpent = true := rfl

end Coin

structure CCoinsCacheEntry where
  coin : Coin := {}
  dirty : Bool := false
  fresh : Bool := false
  deriving DecidableEq

structure CAnchorsSaplingCacheEntry where
  entered : Bool := false
  tree : SaplingMerkleTree := {}
  dirty : Bool := false
  deriving DecidableEq

structure CNullifiersCacheEntry where
  entered : Bool := false
  dirty : Bool := false
  deriving DecidableEq

abbrev CCoinsMap := AList fun _ : COutPoint => CCoinsCacheEntry
abbrev CAnchorsSaplingMap := AList fun _ : Uint256 => CAnchorsSaplingCacheEntry
abbrev CNullifiersMap := AList fun _ : Uint256 => CNullifiersCacheEntry

-- The members of `CCoinsViewCache` besides the view below, also the arguments of `BatchWrite`.
structure CoinsCache where
  hashBlock : Uint256 := 0
  cacheCoins : CCoinsMap := ∅
  hashSaplingAnchor : Uint256 := 0
  cacheSaplingAnchors : CAnchorsSaplingMap := ∅
  cacheSaplingNullifiers : CNullifiersMap := ∅
  cachedCoinsUsage : ℤ := 0

structure CCoinsViewDB where
  coins : AList (fun _ : COutPoint => Coin) := ∅
  bestBlock : Option Uint256 := none
  saplingAnchors : AList (fun _ : Uint256 => SaplingMerkleTree) := ∅
  saplingNullifiers : AList (fun _ : Uint256 => Bool) := ∅
  bestSaplingAnchor : Option Uint256 := none

structure PoolTransactions where
  mapTx : AList (fun _ : Uint256 => CTransaction) := ∅
  mapSaplingNullifiers : AList (fun _ : Uint256 => CTransaction) := ∅

def MEMPOOL_HEIGHT : ℕ := 0x7FFFFFFF

inductive CCoinsView
  | db (db : CCoinsViewDB)
  | memPool (mempool : PoolTransactions) (base : CCoinsView)
  | cache (cache : CoinsCache) (base : CCoinsView)

structure CCoinsViewCache where
  cache : CoinsCache := {}
  base : CCoinsView

namespace CCoinsViewDB

section

variable [Crypto]

def getSaplingAnchorAt (d : CCoinsViewDB) (rt : Uint256) : Option SaplingMerkleTree :=
  if rt = SaplingMerkleTree.emptyRoot then some {} else d.saplingAnchors.lookup rt

def getBestAnchor (d : CCoinsViewDB) : Uint256 :=
  d.bestSaplingAnchor.getD SaplingMerkleTree.emptyRoot

def writeAnchor (d : CCoinsViewDB) (rt : Uint256) (e : CAnchorsSaplingCacheEntry) : CCoinsViewDB :=
  if !e.dirty then d
  else if !e.entered then { d with saplingAnchors := d.saplingAnchors.erase rt }
  else if rt = SaplingMerkleTree.emptyRoot then d
  else { d with saplingAnchors := d.saplingAnchors.insert rt e.tree }

end

def writeCoin (coins : AList fun _ : COutPoint => Coin) (o : COutPoint) (e : CCoinsCacheEntry) :
    AList fun _ : COutPoint => Coin :=
  if !e.dirty then coins
  else if e.coin.isSpent then coins.erase o
  else coins.insert o e.coin

def writeNullifier (d : CCoinsViewDB) (nf : Uint256) (e : CNullifiersCacheEntry) : CCoinsViewDB :=
  if !e.dirty then d
  else if !e.entered then { d with saplingNullifiers := d.saplingNullifiers.erase nf }
  else { d with saplingNullifiers := d.saplingNullifiers.insert nf true }

def batchWrite [Crypto] (d : CCoinsViewDB) (child : CoinsCache) : CCoinsViewDB :=
  let d := { d with coins := child.cacheCoins.foldl writeCoin d.coins }
  let d := child.cacheSaplingAnchors.foldl writeAnchor d
  let d := child.cacheSaplingNullifiers.foldl writeNullifier d
  { d with
    bestBlock := some child.hashBlock
    bestSaplingAnchor :=
      if child.hashSaplingAnchor = 0 then d.bestSaplingAnchor else some child.hashSaplingAnchor }

end CCoinsViewDB

namespace CoinsCache

-- Stores the answer of the view below, as `FetchCoin` does; an empty one is fresh.
def emplace (c : CoinsCache) (o : COutPoint) (tmp : Coin) : CoinsCache where
  __ := c
  cacheCoins := c.cacheCoins.insert o { coin := tmp, fresh := tmp.isSpent }
  cachedCoinsUsage := c.cachedCoinsUsage + tmp.dynamicMemoryUsage

-- A call that throws leaves the changed cache.
def addCoin (c : CoinsCache) (o : COutPoint) (coin : Coin) (possibleOverwrite : Bool) :
    Except (Failure × CoinsCache) CoinsCache :=
  if coin.isSpent then .error (.assertion "!coin.IsSpent()", c)
  else if coin.out.scriptPubKey.isUnspendable then .ok c
  else
    let e := (c.cacheCoins.lookup o).getD {}
    let c := { c with
      cacheCoins := c.cacheCoins.insert o e
      cachedCoinsUsage := c.cachedCoinsUsage - e.coin.dynamicMemoryUsage }
    if !possibleOverwrite && !e.coin.isSpent then
      .error (.logicError "Adding new coin that replaces non-pruned entry", c)
    else
      let fresh := !possibleOverwrite && !e.dirty
      .ok { c with
        cacheCoins := c.cacheCoins.insert o { coin, dirty := true, fresh := e.fresh || fresh }
        cachedCoinsUsage := c.cachedCoinsUsage + coin.dynamicMemoryUsage }

def spendEntry (c : CoinsCache) (o : COutPoint) (e : CCoinsCacheEntry) : CoinsCache where
  __ := c
  cacheCoins :=
    if e.fresh then c.cacheCoins.erase o
    else c.cacheCoins.insert o { e with coin := {}, dirty := true }
  cachedCoinsUsage := c.cachedCoinsUsage - e.coin.dynamicMemoryUsage

def uncache (c : CoinsCache) (o : COutPoint) : CoinsCache :=
  match c.cacheCoins.lookup o with
  | some { coin, dirty := false, fresh := false } => { c with
      cacheCoins := c.cacheCoins.erase o
      cachedCoinsUsage := c.cachedCoinsUsage - coin.dynamicMemoryUsage }
  | _ => c

def writeCoin (c : CoinsCache) (o : COutPoint) (e : CCoinsCacheEntry) : Except Failure CoinsCache :=
  if !e.dirty then .ok c
  else
    match c.cacheCoins.lookup o with
    | none =>
      -- The child deleted a coin unknown below.
      if e.fresh && e.coin.isSpent then .ok c
      else .ok { c with
        cacheCoins := c.cacheCoins.insert o { coin := e.coin, dirty := true, fresh := e.fresh }
        cachedCoinsUsage := c.cachedCoinsUsage + e.coin.dynamicMemoryUsage }
    | some us =>
      if e.fresh && !us.coin.isSpent then
        .error (.logicError
          "FRESH flag misapplied to cache entry for base transaction with spendable outputs")
      else if us.fresh && e.coin.isSpent then .ok { c with
        cacheCoins := c.cacheCoins.erase o
        cachedCoinsUsage := c.cachedCoinsUsage - us.coin.dynamicMemoryUsage }
      else .ok { c with
        cacheCoins := c.cacheCoins.insert o { us with coin := e.coin, dirty := true }
        cachedCoinsUsage :=
          c.cachedCoinsUsage - us.coin.dynamicMemoryUsage + e.coin.dynamicMemoryUsage }

def writeAnchor (c : CoinsCache) (rt : Uint256) (e : CAnchorsSaplingCacheEntry) : CoinsCache :=
  if !e.dirty then c
  else
    match c.cacheSaplingAnchors.lookup rt with
    | none => { c with
        cacheSaplingAnchors := c.cacheSaplingAnchors.insert rt { e with dirty := true }
        cachedCoinsUsage := c.cachedCoinsUsage + e.tree.dynamicMemoryUsage }
    | some us =>
      if us.entered = e.entered then c
      else { c with
        cacheSaplingAnchors :=
          c.cacheSaplingAnchors.insert rt { us with entered := e.entered, dirty := true } }

def writeNullifier (c : CoinsCache) (nf : Uint256) (e : CNullifiersCacheEntry) : CoinsCache :=
  if !e.dirty then c
  else
    match c.cacheSaplingNullifiers.lookup nf with
    | none => { c with
        cacheSaplingNullifiers :=
          c.cacheSaplingNullifiers.insert nf { entered := e.entered, dirty := true } }
    | some us =>
      if us.entered = e.entered then c
      else { c with
        cacheSaplingNullifiers :=
          c.cacheSaplingNullifiers.insert nf { entered := e.entered, dirty := true } }

def batchWrite (c child : CoinsCache) : Except Failure CoinsCache := do
  let c ← child.cacheCoins.foldl (fun c o e => c >>= (·.writeCoin o e)) (.ok c)
  let c := child.cacheSaplingAnchors.foldl writeAnchor c
  let c := child.cacheSaplingNullifiers.foldl writeNullifier c
  .ok { c with hashSaplingAnchor := child.hashSaplingAnchor, hashBlock := child.hashBlock }

def clear (c : CoinsCache) : CoinsCache where
  hashBlock := c.hashBlock
  hashSaplingAnchor := c.hashSaplingAnchor

end CoinsCache

namespace CCoinsView

def getCoin (o : COutPoint) : CCoinsView → Option Coin × CCoinsView
  | db d => (d.coins.lookup o, db d)
  | memPool pool base =>
    match pool.mapTx.lookup o.hash with
    | some tx =>
      (tx.vout[o.n.toNat]?.map fun out => { out, nHeight := MEMPOOL_HEIGHT }, memPool pool base)
    | none =>
      let (coin, base) := base.getCoin o
      (coin.filter (!·.isSpent), memPool pool base)
  | cache c base =>
    match c.cacheCoins.lookup o with
    | some e => (some e.coin, cache c base)
    | none =>
      match base.getCoin o with
      | (none, base) => (none, cache c base)
      | (some tmp, base) => (some tmp, cache (c.emplace o tmp) base)

def getBestBlock : CCoinsView → Uint256 × CCoinsView
  | db d => (d.bestBlock.getD 0, db d)
  | memPool pool base =>
    let (h, base) := base.getBestBlock
    (h, memPool pool base)
  | cache c base =>
    if c.hashBlock = 0 then
      let (h, base) := base.getBestBlock
      (h, cache { c with hashBlock := h } base)
    else (c.hashBlock, cache c base)

def getNullifier (nf : Uint256) : CCoinsView → Bool × CCoinsView
  | db d => ((d.saplingNullifiers.lookup nf).isSome, db d)
  | memPool pool base =>
    if (pool.mapSaplingNullifiers.lookup nf).isSome then (true, memPool pool base)
    else
      let (entered, base) := base.getNullifier nf
      (entered, memPool pool base)
  | cache c base =>
    match c.cacheSaplingNullifiers.lookup nf with
    | some e => (e.entered, cache c base)
    | none =>
      let (entered, base) := base.getNullifier nf
      let nullifiers := c.cacheSaplingNullifiers.insert nf { entered }
      (entered, cache { c with cacheSaplingNullifiers := nullifiers } base)

def batchWrite [Crypto] (child : CoinsCache) : CCoinsView → Except Failure CCoinsView
  | db d => .ok (db (d.batchWrite child))
  | memPool pool base => do
    let base ← base.batchWrite child
    .ok (memPool pool base)
  | cache c base => do
    let c ← c.batchWrite child
    .ok (cache c base)

variable [Crypto]

def getSaplingAnchorAt (rt : Uint256) : CCoinsView → Option SaplingMerkleTree × CCoinsView
  | db d => (d.getSaplingAnchorAt rt, db d)
  | memPool pool base =>
    let (tree, base) := base.getSaplingAnchorAt rt
    (tree, memPool pool base)
  | cache c base =>
    match c.cacheSaplingAnchors.lookup rt with
    | some e => (if e.entered then some e.tree else none, cache c base)
    | none =>
      match base.getSaplingAnchorAt rt with
      | (none, base) => (none, cache c base)
      | (some tree, base) =>
        let anchors := c.cacheSaplingAnchors.insert rt { entered := true, tree }
        let usage := c.cachedCoinsUsage + tree.dynamicMemoryUsage
        (some tree, cache { c with cacheSaplingAnchors := anchors, cachedCoinsUsage := usage } base)

def getBestAnchor : CCoinsView → Uint256 × CCoinsView
  | db d => (d.getBestAnchor, db d)
  | memPool pool base =>
    let (h, base) := base.getBestAnchor
    (h, memPool pool base)
  | cache c base =>
    if c.hashSaplingAnchor = 0 then
      let (h, base) := base.getBestAnchor
      (h, cache { c with hashSaplingAnchor := h } base)
    else (c.hashSaplingAnchor, cache c base)

end CCoinsView

namespace CCoinsViewCache

def view (v : CCoinsViewCache) : CCoinsView :=
  .cache v.cache v.base

def fetchCoin (v : CCoinsViewCache) (o : COutPoint) : Option CCoinsCacheEntry × CCoinsViewCache :=
  match v.cache.cacheCoins.lookup o with
  | some e => (some e, v)
  | none =>
    match v.base.getCoin o with
    | (none, base) => (none, { v with base })
    | (some tmp, base) =>
      (some { coin := tmp, fresh := tmp.isSpent }, { cache := v.cache.emplace o tmp, base })

def getCoin (v : CCoinsViewCache) (o : COutPoint) : Option Coin × CCoinsViewCache :=
  let (it, v) := v.fetchCoin o
  (it.map (·.coin), v)

def accessCoin (v : CCoinsViewCache) (o : COutPoint) : Coin × CCoinsViewCache :=
  let (it, v) := v.fetchCoin o
  (it.elim {} (·.coin), v)

def haveCoin (v : CCoinsViewCache) (o : COutPoint) : Bool × CCoinsViewCache :=
  let (it, v) := v.fetchCoin o
  (it.any (!·.coin.isSpent), v)

def haveCoinInCache (v : CCoinsViewCache) (o : COutPoint) : Bool :=
  (v.cache.cacheCoins.lookup o).isSome

def addCoin (v : CCoinsViewCache) (o : COutPoint) (coin : Coin) (possibleOverwrite : Bool) :
    Except Failure CCoinsViewCache :=
  match v.cache.addCoin o coin possibleOverwrite with
  | .ok cache => .ok { v with cache }
  | .error (what, _) => .error what

def spendCoin (v : CCoinsViewCache) (o : COutPoint) : Option Coin × CCoinsViewCache :=
  match v.fetchCoin o with
  | (none, v) => (none, v)
  | (some e, v) => (some e.coin, { v with cache := v.cache.spendEntry o e })

def uncache (v : CCoinsViewCache) (o : COutPoint) : CCoinsViewCache where
  __ := v
  cache := v.cache.uncache o

def batchWrite (v : CCoinsViewCache) (child : CoinsCache) : Except Failure CCoinsViewCache := do
  let cache ← v.cache.batchWrite child
  .ok { v with cache }

def flush [Crypto] (v : CCoinsViewCache) : Except Failure CCoinsViewCache := do
  let base ← v.base.batchWrite v.cache
  .ok { cache := v.cache.clear, base }

def getBestBlock (v : CCoinsViewCache) : Uint256 × CCoinsViewCache :=
  if v.cache.hashBlock = 0 then
    let (h, base) := v.base.getBestBlock
    (h, { cache := { v.cache with hashBlock := h }, base })
  else (v.cache.hashBlock, v)

def setBestBlock (v : CCoinsViewCache) (hashBlock : Uint256) : CCoinsViewCache where
  __ := v
  cache := { v.cache with hashBlock }

def addValueIn (arith : Arith) (acc : ℤ × CCoinsViewCache) (txin : CTxIn) : Except Failure (ℤ × CCoinsViewCache) := do
  let (coin, v) := acc.2.accessCoin txin.prevout
  let nResult ← arith.norm (acc.1 + coin.out.nValue.toInt)
  .ok (nResult, v)

def getValueIn (arith : Arith) (v : CCoinsViewCache) (tx : CTransaction) :
    Except Failure (ℤ × CCoinsViewCache) :=
  if tx.isCoinBase || tx.containsAssets then .ok (0, v) else tx.vin.foldlM (addValueIn arith) (0, v)

def haveCoins (v : CCoinsViewCache) : List COutPoint → Bool × CCoinsViewCache
  | [] => (true, v)
  | o :: os =>
    match v.haveCoin o with
    | (false, v) => (false, v)
    | (true, v) => v.haveCoins os

def haveInputs (v : CCoinsViewCache) (tx : CTransaction) : Bool × CCoinsViewCache :=
  if !tx.isCoinBase && !tx.containsAssets then v.haveCoins (tx.vin.map (·.prevout))
  else (true, v)

def getNullifier (v : CCoinsViewCache) (nf : Uint256) : Bool × CCoinsViewCache :=
  match v.cache.cacheSaplingNullifiers.lookup nf with
  | some e => (e.entered, v)
  | none =>
    let (entered, base) := v.base.getNullifier nf
    let nullifiers := v.cache.cacheSaplingNullifiers.insert nf { entered }
    (entered, { cache := { v.cache with cacheSaplingNullifiers := nullifiers }, base })

variable [Crypto]

def getSaplingAnchorAt (v : CCoinsViewCache) (rt : Uint256) :
    Option SaplingMerkleTree × CCoinsViewCache :=
  match v.cache.cacheSaplingAnchors.lookup rt with
  | some e => (if e.entered then some e.tree else none, v)
  | none =>
    match v.base.getSaplingAnchorAt rt with
    | (none, base) => (none, { v with base })
    | (some tree, base) =>
      let anchors := v.cache.cacheSaplingAnchors.insert rt { entered := true, tree }
      let usage := v.cache.cachedCoinsUsage + tree.dynamicMemoryUsage
      (some tree,
        { cache := { v.cache with cacheSaplingAnchors := anchors, cachedCoinsUsage := usage }, base })

def getBestAnchor (v : CCoinsViewCache) : Uint256 × CCoinsViewCache :=
  if v.cache.hashSaplingAnchor = 0 then
    let (h, base) := v.base.getBestAnchor
    (h, { cache := { v.cache with hashSaplingAnchor := h }, base })
  else (v.cache.hashSaplingAnchor, v)

def pushAnchor (v : CCoinsViewCache) (tree : SaplingMerkleTree) : CCoinsViewCache :=
  let newrt := tree.root
  let (currentRoot, v) := v.getBestAnchor
  if currentRoot = newrt then v
  else
    let anchors := v.cache.cacheSaplingAnchors
    let usage := if (anchors.lookup newrt).isSome then 0 else tree.dynamicMemoryUsage
    { v with cache := { v.cache with
        cacheSaplingAnchors := anchors.insert newrt { entered := true, tree, dirty := true }
        cachedCoinsUsage := v.cache.cachedCoinsUsage + usage
        hashSaplingAnchor := newrt } }

def popAnchor (v : CCoinsViewCache) (newrt : Uint256) : Except Failure CCoinsViewCache :=
  let (currentRoot, v) := v.getBestAnchor
  if currentRoot = newrt then .ok v
  else
    match v.getSaplingAnchorAt currentRoot with
    | (none, _) => .error (.assertion "GetSaplingAnchorAt(currentRoot, tree)")
    | (some _, v) =>
      let anchors := v.cache.cacheSaplingAnchors
      let entry := (anchors.lookup currentRoot).getD {}
      .ok { v with cache := { v.cache with
        cacheSaplingAnchors := anchors.insert currentRoot { entry with entered := false, dirty := true }
        hashSaplingAnchor := newrt } }

def haveSpends (v : CCoinsViewCache) : List SpendDescription → Bool × CCoinsViewCache
  | [] => (true, v)
  | s :: ss =>
    match v.getNullifier s.nullifier with
    | (true, v) => (false, v)
    | (false, v) =>
      match v.getSaplingAnchorAt s.anchor with
      | (none, v) => (false, v)
      | (some _, v) => v.haveSpends ss

def haveShieldedRequirements (v : CCoinsViewCache) (tx : CTransaction) : Bool × CCoinsViewCache :=
  if tx.isShieldedTx then v.haveSpends (tx.sapData.elim [] (·.vShieldedSpend))
  else (true, v)

end CCoinsViewCache

section

variable [Crypto]

-- `banned` is `invalid_out::ContainsOutPoint`, and `i` the position of the first output left.
def addCoinsFrom (banned : COutPoint → Bool) (txid : Uint256) (nHeight : ℕ)
    (fCoinBase fCoinStake check fSkipInvalid : Bool) (cache : CCoinsViewCache) (i : ℕ) :
    List CTxOut → Except Failure CCoinsViewCache
  | [] => .ok cache
  | out :: vout => do
    let o : COutPoint := { hash := txid, n := UInt32.ofNat i }
    let cache ←
      if fSkipInvalid && banned o then .ok (cache.spendCoin o).2
      else
        let (overwrite, cache) := if check then cache.haveCoin o else (false, cache)
        cache.addCoin o { fCoinBase, fCoinStake, out, nHeight } overwrite
    addCoinsFrom banned txid nHeight fCoinBase fCoinStake check fSkipInvalid cache (i + 1) vout

def addCoins (banned : COutPoint → Bool) (cache : CCoinsViewCache) (tx : CTransaction) (nHeight : ℕ)
    (check fSkipInvalid : Bool) : Except Failure CCoinsViewCache :=
  addCoinsFrom banned tx.getHash nHeight tx.isCoinBase tx.isCoinStake check fSkipInvalid cache 0 tx.vout

end

def MAX_BLOCK_SIZE_CURRENT : ℕ := 2000000
def MAX_OUTPUTS_PER_BLOCK : ℕ := MAX_BLOCK_SIZE_CURRENT / (CTxOut.serialize {}).length

def accessByTxidFrom (txid : Uint256) (view : CCoinsViewCache) (n : ℕ) : ℕ → Coin × CCoinsViewCache
  | 0 => ({}, view)
  | limit + 1 =>
    let (alternate, view) := view.accessCoin { hash := txid, n := UInt32.ofNat n }
    if !alternate.isSpent then (alternate, view)
    else accessByTxidFrom txid view (n + 1) limit

def accessByTxid (view : CCoinsViewCache) (txid : Uint256) : Coin × CCoinsViewCache :=
  accessByTxidFrom txid view 0 MAX_OUTPUTS_PER_BLOCK

end Qrax
