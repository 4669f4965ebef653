import Qrax.Lib.Worklist
import Qrax.Mempool.Entry
import Qrax.Validation.Indexes

open KeyedUpdate

namespace Qrax

-- Iterators into `mapTx` are hashes.
abbrev SetEntries := UniqueList Uint256

structure TxLinks where
  parents : SetEntries := ∅
  children : SetEntries := ∅
  deriving DecidableEq

structure CMempoolAddressDeltaKey where
  type : Base58Type
  addressBytes : Uint160
  txhash : Uint256
  index : ℕ
  spending : Bool
  deriving DecidableEq

structure CMempoolAddressDelta where
  time : ℤ
  amount : CAmount
  prevhash : Uint256 := 0
  prevout : UInt32 := 0
  deriving DecidableEq

-- A `CSpentIndexValue` without the height, which is -1 in the pool.
structure MempoolSpentValue where
  txid : Uint256
  inputIndex : ℕ
  satoshis : CAmount
  addressType : Base58Type
  addressHash : Uint160
  deriving DecidableEq

structure TxMemPool [Crypto] where
  mapTx : IndexedTransactionSet := {}
  mapLinks : AList (fun _ : Uint256 => TxLinks) := ∅
  mapNextTx : AList (fun _ : COutPoint => CTransaction) := ∅
  mapDeltas : AList (fun _ : Uint256 => CAmount) := ∅
  mapSaplingNullifiers : AList (fun _ : Uint256 => CTransaction) := ∅
  mapAddress : AList (fun _ : CMempoolAddressDeltaKey => CMempoolAddressDelta) := ∅
  mapAddressInserted : AList (fun _ : Uint256 => List CMempoolAddressDeltaKey) := ∅
  mapSpent : AList (fun _ : CSpentIndexKey => MempoolSpentValue) := ∅
  mapSpentInserted : AList (fun _ : Uint256 => List CSpentIndexKey) := ∅

structure AncestorLimits where
  limitAncestorCount : UInt64
  limitAncestorSize : UInt64
  limitDescendantCount : UInt64
  limitDescendantSize : UInt64

def nNoLimit : AncestorLimits where
  limitAncestorCount := 0xffffffffffffffff
  limitAncestorSize := 0xffffffffffffffff
  limitDescendantCount := 0xffffffffffffffff
  limitDescendantSize := 0xffffffffffffffff

def CTxMemPoolEntry.null : CTxMemPoolEntry :=
  .new { sapData := none } 0 0 false 0

namespace TxMemPool

variable [Crypto] (pool : TxMemPool)

def entry (it : Uint256) : CTxMemPoolEntry :=
  (pool.mapTx.find it).getD .null

def modify (it : Uint256) (f : CTxMemPoolEntry → CTxMemPoolEntry)
    (keeps : ∀ e, (f e).tx = e.tx := by intro e; cases e; rfl) : TxMemPool :=
  { pool with mapTx := pool.mapTx.modify it f keeps }

def getLinks (it : Uint256) : TxLinks :=
  (pool.mapLinks.lookup it).getD {}

def getMemPoolParents (it : Uint256) : SetEntries :=
  (pool.getLinks it).parents

def getMemPoolChildren (it : Uint256) : SetEntries :=
  (pool.getLinks it).children

def updateChild (it child : Uint256) (add : Bool) : TxMemPool :=
  let links := pool.getLinks it
  let children := if add then links.children.insert child else links.children.erase child
  { pool with mapLinks := pool.mapLinks.insert it { links with children } }

def updateParent (it parent : Uint256) (add : Bool) : TxMemPool :=
  let links := pool.getLinks it
  let parents := if add then links.parents.insert parent else links.parents.erase parent
  { pool with mapLinks := pool.mapLinks.insert it { links with parents } }

variable (limits : AncestorLimits)

def searchForParents : SetEntries → List CTxIn → Option SetEntries
  | parentHashes, [] => some parentHashes
  | parentHashes, txin :: vin =>
    if txin.prevout.hash ∈ pool.mapTx then
      let parentHashes := parentHashes.insert txin.prevout.hash
      if UInt64.ofNat parentHashes.toList.length + 1 > limits.limitAncestorCount then none
      else searchForParents parentHashes vin
    else searchForParents parentHashes vin

def stageParents (setAncestors : SetEntries) : SetEntries → List Uint256 → Option SetEntries
  | parentHashes, [] => some parentHashes
  | parentHashes, phash :: l =>
    let parentHashes := if phash ∈ setAncestors then parentHashes else parentHashes.insert phash
    if UInt64.ofNat (parentHashes.toList.length + setAncestors.toList.length) + 1 > limits.limitAncestorCount then none
    else stageParents setAncestors parentHashes l

def walkAncestors (nTxSize : UInt64) : ℕ → SetEntries → SetEntries → UInt64 → Option SetEntries
  | 0, _, setAncestors, _ => some setAncestors
  | fuel + 1, parentHashes, setAncestors, totalSizeWithAncestors => do
    match parentHashes.toList with
    | [] => some setAncestors
    | stageit :: _ =>
      let setAncestors := setAncestors.insert stageit
      let parentHashes := parentHashes.erase stageit
      let e := pool.entry stageit
      let totalSizeWithAncestors := totalSizeWithAncestors + e.nTxSize
      if e.nSizeWithDescendants + nTxSize > limits.limitDescendantSize then none
      else if e.nCountWithDescendants + 1 > limits.limitDescendantCount then none
      else if totalSizeWithAncestors > limits.limitAncestorSize then none
      else
        let parentHashes ← stageParents limits setAncestors parentHashes (pool.getMemPoolParents stageit).toList
        walkAncestors nTxSize fuel parentHashes setAncestors totalSizeWithAncestors

-- One round per entry of the pool is enough. The error text is only logged.
def calculateMemPoolAncestors (e : CTxMemPoolEntry) (fSearchForParents : Bool) : Option SetEntries := do
  let parentHashes ←
    if fSearchForParents then pool.searchForParents limits ∅ e.tx.vin
    else some (pool.getMemPoolParents e.tx.getHash)
  pool.walkAncestors limits e.nTxSize pool.mapTx.keys.length parentHashes ∅ e.nTxSize

def ancestorsOf (it : Uint256) : SetEntries :=
  (pool.calculateMemPoolAncestors nNoLimit (pool.entry it) false).getD ∅

def calculateDescendants (it : Uint256) (setDescendants : SetEntries) : SetEntries :=
  let stage := if it ∈ setDescendants then ∅ else UniqueList.insert ∅ it
  Worklist.close pool.getMemPoolChildren pool.mapTx.keys.length stage setDescendants

def calculateAllDescendants (its : List Uint256) : SetEntries :=
  its.foldl (fun setAllRemoves it => pool.calculateDescendants it setAllRemoves) ∅

def updateAncestorsOf (add : Bool) (it : Uint256) (setAncestors : SetEntries) : TxMemPool :=
  let pool := (pool.getMemPoolParents it).toList.foldl (fun pool piter => pool.updateChild piter it add) pool
  let e := pool.entry it
  let updateCount : UInt64 := if add then 1 else -1
  let updateSize := updateCount * e.nTxSize
  let updateFee := (if add then 1 else -1) * e.getModifiedFee
  setAncestors.toList.foldl
    (fun pool ancestorIt => pool.modify ancestorIt (·.updateDescendantState updateSize updateFee updateCount)) pool

def updateEntryForAncestors (it : Uint256) (setAncestors : SetEntries) : TxMemPool :=
  let updateCount := UInt64.ofNat setAncestors.toList.length
  let updateSize := (setAncestors.toList.map fun ancestorIt => (pool.entry ancestorIt).nTxSize).sum
  let updateFee := (setAncestors.toList.map fun ancestorIt => (pool.entry ancestorIt).getModifiedFee).sum
  let updateSigOps := (setAncestors.toList.map fun ancestorIt => (pool.entry ancestorIt).sigOpCount).sum
  pool.modify it (·.updateAncestorState updateSize updateFee updateCount updateSigOps)

def updateChildrenForRemoval (it : Uint256) : TxMemPool :=
  (pool.getMemPoolChildren it).toList.foldl (fun pool updateIt => pool.updateParent updateIt it false) pool

def updateDescendantsForRemoval (removeIt : Uint256) : TxMemPool :=
  let setDescendants := (pool.calculateDescendants removeIt ∅).erase removeIt
  let e := pool.entry removeIt
  let modifySize := -e.nTxSize
  let modifyFee := -e.getModifiedFee
  let modifySigOps := -e.sigOpCount
  setDescendants.toList.foldl
    (fun pool dit => pool.modify dit (·.updateAncestorState modifySize modifyFee (-1) modifySigOps)) pool

def updateForRemoveFromMempool (entriesToRemove : SetEntries) (updateDescendants : Bool) : TxMemPool :=
  let pool := if updateDescendants then entriesToRemove.toList.foldl updateDescendantsForRemoval pool else pool
  let pool := entriesToRemove.toList.foldl
    (fun pool removeIt => pool.updateAncestorsOf false removeIt (pool.ancestorsOf removeIt)) pool
  entriesToRemove.toList.foldl updateChildrenForRemoval pool

-- An entry that is there stays. The fee delta set for the hash is applied.
def insertEntry (hash : Uint256) (e : CTxMemPoolEntry) : TxMemPool :=
  let newit := e.tx.getHash
  let pool := { pool with
    mapTx := pool.mapTx.insert e
    mapLinks := emplace pool.mapLinks newit {} }
  match pool.mapDeltas.lookup hash with
  | some delta => if delta = 0 then pool else pool.modify newit (·.updateFeeDelta delta)
  | none => pool

def spendInputs (tx : CTransaction) : TxMemPool := { pool with
  mapNextTx := tx.vin.foldl (fun mapNextTx txin => emplace mapNextTx txin.prevout tx) pool.mapNextTx }

def linkParents (newit : Uint256) (tx : CTransaction) : TxMemPool :=
  let setParentTransactions := UniqueList.ofList (tx.vin.map (·.prevout.hash))
  setParentTransactions.toList.foldl
    (fun pool phash => if phash ∈ pool.mapTx then pool.updateParent newit phash true else pool) pool

def spendNullifiers (tx : CTransaction) : TxMemPool :=
  if tx.isShieldedTx then { pool with
    mapSaplingNullifiers := (tx.sapData.elim [] (·.vShieldedSpend)).foldl
      (fun mapSaplingNullifiers sd => mapSaplingNullifiers.insert sd.nullifier tx) pool.mapSaplingNullifiers }
  else pool

def addUnchecked (hash : Uint256) (e : CTxMemPoolEntry) (setAncestors : SetEntries) : TxMemPool :=
  let newit := e.tx.getHash
  let pool := pool.insertEntry hash e
  let tx := (pool.entry newit).tx
  let pool := pool.spendInputs tx
  let pool := pool.linkParents newit tx
  let pool := pool.updateAncestorsOf true newit setAncestors
  let pool := pool.updateEntryForAncestors newit setAncestors
  pool.spendNullifiers tx

def addUncheckedEntry (hash : Uint256) (e : CTxMemPoolEntry) : TxMemPool :=
  pool.addUnchecked hash e ((pool.calculateMemPoolAncestors nNoLimit e true).getD ∅)

variable (newP2CSRules : Bool) (e : CTxMemPoolEntry) (accessCoin : COutPoint → Coin)

-- The pool takes scripts apart as `ConnectBlock` does, with two keys for a staker and an owner.
def isDelegated (script : CScript) : Bool :=
  (scriptAddress newP2CSRules script).isColdstake || (scriptAddress newP2CSRules script).isDposReward

def addressDeltaKeys (script : CScript) (txhash : Uint256) (index : ℕ) (spending : Bool) : List CMempoolAddressDeltaKey :=
  let a := scriptAddress newP2CSRules script
  if isDelegated newP2CSRules script then
    [⟨.STAKING_ADDRESS, a.hashBytesStaker, txhash, index, spending⟩, ⟨.PUBKEY_ADDRESS, a.hashBytes, txhash, index, spending⟩]
  else if a.addressType = .UNKNOWN_TYPE then []
  else [⟨a.addressType, a.hashBytes, txhash, index, spending⟩]

-- `mapAddress`, and the keys listed for the transaction.
abbrev AddressIndex := AList (fun _ : CMempoolAddressDeltaKey => CMempoolAddressDelta) × List CMempoolAddressDeltaKey

def insertDeltas (index : AddressIndex) (keys : List CMempoolAddressDeltaKey) (delta : CMempoolAddressDelta) (list : Bool) :
    AddressIndex :=
  (keys.foldl (fun mapAddress key => emplace mapAddress key delta) index.1, if list then index.2 ++ keys else index.2)

-- The keys of an input with a staker and an owner are not listed.
def indexInput (index : AddressIndex) : CTxIn × ℕ → AddressIndex
  | (input, j) =>
    let prevout := (accessCoin input.prevout).out
    insertDeltas index (addressDeltaKeys newP2CSRules prevout.scriptPubKey e.tx.getHash j true)
      { time := e.nTime, amount := prevout.nValue * -1, prevhash := input.prevout.hash, prevout := input.prevout.n }
      (!isDelegated newP2CSRules prevout.scriptPubKey)

def indexOutput (index : AddressIndex) : CTxOut × ℕ → AddressIndex
  | (out, k) =>
    insertDeltas index (addressDeltaKeys newP2CSRules out.scriptPubKey e.tx.getHash k false)
      { time := e.nTime, amount := out.nValue } true

def addAddressIndex : TxMemPool :=
  let index := e.tx.vin.zipIdx.foldl (indexInput newP2CSRules e accessCoin) (pool.mapAddress, [])
  let index := e.tx.vout.zipIdx.foldl (indexOutput newP2CSRules e) index
  { pool with
    mapAddress := index.1
    mapAddressInserted := emplace pool.mapAddressInserted e.tx.getHash index.2 }

-- `mapSpent`, and the keys listed for the transaction.
abbrev SpentIndex := AList (fun _ : CSpentIndexKey => MempoolSpentValue) × List CSpentIndexKey

def insertSpent (index : SpentIndex) (key : CSpentIndexKey) (value : MempoolSpentValue) : SpentIndex :=
  (emplace index.1 key value, index.2 ++ [key])

-- Of an output with a staker and an owner the staker's record stays.
def indexSpent (index : SpentIndex) : CTxIn × ℕ → SpentIndex
  | (input, j) =>
    let prevout := (accessCoin input.prevout).out
    let a := scriptAddress newP2CSRules prevout.scriptPubKey
    let key : CSpentIndexKey := { txid := input.prevout.hash, outputIndex := input.prevout.n }
    let value : MempoolSpentValue :=
      { txid := e.tx.getHash, inputIndex := j, satoshis := prevout.nValue, addressType := a.addressType, addressHash := a.hashBytes }
    if isDelegated newP2CSRules prevout.scriptPubKey then
      let valueS := { value with addressType := .STAKING_ADDRESS, addressHash := a.hashBytesStaker }
      insertSpent (insertSpent index key valueS) key value
    else insertSpent index key value

def addSpentIndex : TxMemPool :=
  let index := e.tx.vin.zipIdx.foldl (indexSpent newP2CSRules e accessCoin) (pool.mapSpent, [])
  { pool with
    mapSpent := index.1
    mapSpentInserted := emplace pool.mapSpentInserted e.tx.getHash index.2 }

def removeAddressIndex (txhash : Uint256) : TxMemPool :=
  match pool.mapAddressInserted.lookup txhash with
  | some keys => { pool with
    mapAddress := keys.foldl (fun mapAddress key => mapAddress.erase key) pool.mapAddress
    mapAddressInserted := pool.mapAddressInserted.erase txhash }
  | none => pool

def removeSpentIndex (txhash : Uint256) : TxMemPool :=
  match pool.mapSpentInserted.lookup txhash with
  | some keys => { pool with
    mapSpent := keys.foldl (fun mapSpent key => mapSpent.erase key) pool.mapSpent
    mapSpentInserted := pool.mapSpentInserted.erase txhash }
  | none => pool

def removeUnchecked (it : Uint256) : TxMemPool :=
  let tx := (pool.entry it).tx
  let hash := tx.getHash
  let pool := { pool with
    mapNextTx := tx.vin.foldl (fun mapNextTx (txin : CTxIn) => mapNextTx.erase txin.prevout) pool.mapNextTx
    mapSaplingNullifiers :=
      if tx.isShieldedTx then
        (tx.sapData.elim [] (·.vShieldedSpend)).foldl
          (fun mapSaplingNullifiers (sd : SpendDescription) => mapSaplingNullifiers.erase sd.nullifier) pool.mapSaplingNullifiers
      else pool.mapSaplingNullifiers
    mapLinks := pool.mapLinks.erase it
    mapTx := pool.mapTx.erase it }
  (pool.removeAddressIndex hash).removeSpentIndex hash

def removeStaged (stage : SetEntries) (updateDescendants : Bool) : TxMemPool :=
  stage.toList.foldl removeUnchecked (pool.updateForRemoveFromMempool stage updateDescendants)

def spendersOf (origTx : CTransaction) : List Uint256 :=
  (List.range origTx.vout.length).filterMap fun i => do
    let tx ← pool.mapNextTx.lookup { hash := origTx.getHash, n := UInt32.ofNat i }
    if tx.getHash ∈ pool.mapTx then some tx.getHash else none

def removeRecursive (origTx : CTransaction) : TxMemPool :=
  let txToRemove := if origTx.getHash ∈ pool.mapTx then [origTx.getHash] else pool.spendersOf origTx
  pool.removeStaged (pool.calculateAllDescendants (UniqueList.ofList txToRemove).toList) false

-- Whether a transaction that spends a coinbase or coinstake lost a coin, or may not spend it yet.
def spendsImmature (accessCoin : COutPoint → Coin) (nMemPoolHeight nCoinbaseMaturity : ℕ) (tx : CTransaction) : Bool :=
  tx.vin.any fun txin =>
    txin.prevout.hash ∉ pool.mapTx &&
      ((accessCoin txin.prevout).isSpent ||
        ((accessCoin txin.prevout).fCoinBase || (accessCoin txin.prevout).fCoinStake) &&
          (nMemPoolHeight : ℤ) - (accessCoin txin.prevout).nHeight < nCoinbaseMaturity)

def removeForReorg (accessCoin : COutPoint → Coin) (checkFinalTx : CTransaction → Bool)
    (nMemPoolHeight nCoinbaseMaturity : ℕ) : TxMemPool :=
  let txToRemove := pool.mapTx.keys.filter fun it =>
    let e := pool.entry it
    !checkFinalTx e.tx ||
      e.spendsCoinbaseOrCoinstake && pool.spendsImmature accessCoin nMemPoolHeight nCoinbaseMaturity e.tx
  pool.removeStaged (pool.calculateAllDescendants txToRemove) false

def removeWithAnchor (invalidRoot : Uint256) : TxMemPool :=
  let transactionsToRemove := (pool.mapTx.keys.map fun it => (pool.entry it).tx).filter fun tx =>
    tx.isShieldedTx && (tx.sapData.elim [] (·.vShieldedSpend)).any (·.anchor == invalidRoot)
  transactionsToRemove.foldl removeRecursive pool

def clearPrioritisation (hash : Uint256) : TxMemPool :=
  { pool with mapDeltas := pool.mapDeltas.erase hash }

def removeConflict (tx : CTransaction) : Option CTransaction → TxMemPool
  | some txConflict =>
    if txConflict.getHash = tx.getHash then pool
    else (pool.removeRecursive txConflict).clearPrioritisation txConflict.getHash
  | none => pool

def removeConflicts (tx : CTransaction) : TxMemPool :=
  let pool := tx.vin.foldl (fun pool txin => pool.removeConflict tx (pool.mapNextTx.lookup txin.prevout)) pool
  if tx.isShieldedTx then
    (tx.sapData.elim [] (·.vShieldedSpend)).foldl
      (fun pool sd => pool.removeConflict tx (pool.mapSaplingNullifiers.lookup sd.nullifier)) pool
  else pool

def removeForBlockTx (tx : CTransaction) : TxMemPool :=
  let pool := if tx.getHash ∈ pool.mapTx then pool.removeStaged (UniqueList.insert ∅ tx.getHash) true else pool
  (pool.removeConflicts tx).clearPrioritisation tx.getHash

def removeForBlock (vtx : List CTransaction) : TxMemPool :=
  vtx.foldl removeForBlockTx pool

-- The indexes, the nullifiers and the fee deltas stay.
def clear : TxMemPool := { pool with
  mapLinks := ∅
  mapTx := {}
  mapNextTx := ∅ }

def expire (time : ℤ) : TxMemPool :=
  let toremove := pool.mapTx.keys.filter fun it => (pool.entry it).nTime < time
  pool.removeStaged (pool.calculateAllDescendants toremove) false

def prioritiseTransaction (hash : Uint256) (nFeeDelta : CAmount) : TxMemPool :=
  let delta := (pool.mapDeltas.lookup hash).getD 0 + nFeeDelta
  let pool := { pool with mapDeltas := pool.mapDeltas.insert hash delta }
  if hash ∈ pool.mapTx then
    let pool := pool.modify hash (·.updateFeeDelta delta)
    (pool.ancestorsOf hash).toList.foldl
      (fun pool ancestorIt => pool.modify ancestorIt (·.updateDescendantState 0 nFeeDelta 0)) pool
  else pool

end TxMemPool

-- What decides on evictions: the memory of the pool, and the first entry by descendant score.
structure Eviction [Crypto] where
  dynamicMemoryUsage : TxMemPool → ℕ
  lowestScore : TxMemPool → Option Uint256
  lowestScore_mem : ∀ {pool it}, lowestScore pool = some it → it ∈ pool.mapTx

namespace TxMemPool

variable [Crypto] (eviction : Eviction) (sizelimit : ℕ)

def trimRounds : ℕ → TxMemPool → TxMemPool
  | 0, pool => pool
  | fuel + 1, pool =>
    if eviction.dynamicMemoryUsage pool > sizelimit then
      match eviction.lowestScore pool with
      | some it => trimRounds fuel (pool.removeStaged (pool.calculateDescendants it ∅) false)
      | none => pool
    else pool

def trimToSize (pool : TxMemPool) : TxMemPool :=
  trimRounds eviction sizelimit pool.mapTx.keys.length pool

def limitMempoolSize (time : ℤ) (pool : TxMemPool) : TxMemPool :=
  (pool.expire time).trimToSize eviction sizelimit

end TxMemPool

namespace TxMemPool

variable [Crypto] (pool : TxMemPool)

abbrev CacheMap := AList (fun _ : Uint256 => SetEntries)

def stageChildren (cachedDescendants : CacheMap) : SetEntries × SetEntries → List Uint256 → SetEntries × SetEntries
  | s, [] => s
  | (stageEntries, setAllDescendants), childEntry :: l =>
    match cachedDescendants.lookup childEntry with
    | some cached => stageChildren cachedDescendants (stageEntries, cached.toList.foldl .insert setAllDescendants) l
    | none =>
      if childEntry ∈ setAllDescendants then stageChildren cachedDescendants (stageEntries, setAllDescendants) l
      else stageChildren cachedDescendants (stageEntries.insert childEntry, setAllDescendants) l

def walkDescendants (cachedDescendants : CacheMap) : ℕ → SetEntries → SetEntries → SetEntries
  | 0, _, setAllDescendants => setAllDescendants
  | fuel + 1, stageEntries, setAllDescendants =>
    match stageEntries.toList with
    | [] => setAllDescendants
    | cit :: _ =>
      let s := stageChildren cachedDescendants (stageEntries.erase cit, setAllDescendants.insert cit)
        (pool.getMemPoolChildren cit).toList
      walkDescendants cachedDescendants fuel s.1 s.2

def updateForDescendants (updateIt : Uint256) (cachedDescendants : CacheMap) (setExclude : List Uint256) :
    TxMemPool × CacheMap :=
  let setAllDescendants := pool.walkDescendants cachedDescendants pool.mapTx.keys.length (pool.getMemPoolChildren updateIt) ∅
  let included := setAllDescendants.toList.filter (· ∉ setExclude)
  let modifySize := (included.map fun cit => (pool.entry cit).nTxSize).sum
  let modifyFee := (included.map fun cit => (pool.entry cit).getModifiedFee).sum
  let modifyCount := UInt64.ofNat included.length
  let e := pool.entry updateIt
  let pool := included.foldl
    (fun pool cit => pool.modify cit (·.updateAncestorState e.nTxSize e.getModifiedFee 1 e.sigOpCount)) pool
  let pool := pool.modify updateIt (·.updateDescendantState modifySize modifyFee modifyCount)
  let cached := (cachedDescendants.lookup updateIt).getD ∅
  (pool, if included = [] then cachedDescendants else cachedDescendants.insert updateIt (included.foldl .insert cached))

def spendersIn (hash : Uint256) : SetEntries :=
  UniqueList.ofList ((pool.mapNextTx.entries.filter (·.1.hash = hash)).map (·.2.getHash))

def linkChild (hash childHash : Uint256) : TxMemPool :=
  (pool.updateChild hash childHash true).updateParent childHash hash true

def updateTransactionFromBlock (vHashesToUpdate : List Uint256) (s : TxMemPool × CacheMap) (hash : Uint256) :
    TxMemPool × CacheMap :=
  if hash ∈ s.1.mapTx then
    let children := (s.1.spendersIn hash).toList.filter (· ∉ vHashesToUpdate)
    (children.foldl (·.linkChild hash ·) s.1).updateForDescendants hash s.2 vHashesToUpdate
  else s

def updateTransactionsFromBlock (vHashesToUpdate : List Uint256) : TxMemPool :=
  (vHashesToUpdate.reverse.foldl (updateTransactionFromBlock vHashesToUpdate) (pool, ∅)).1

end TxMemPool

end Qrax
