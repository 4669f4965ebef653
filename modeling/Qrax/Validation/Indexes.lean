import Qrax.Txdb.BlockTreeDB
import Qrax.Validation.DisconnectBlock

open Encoding Fallible

namespace Qrax

section

variable [Crypto] (newP2CSRules : Bool) (script : CScript)

def CScript.hashAt (script : CScript) (n : ℕ) : Uint160 :=
  BitVec.ofNat 160 (leNat ((script.drop n).take 20))

-- The address of an output, that of the owner where there is a staker.
structure ScriptAddress where
  addressType : Base58Type := .UNKNOWN_TYPE
  hashBytes : Uint160 := 0
  hashBytesStaker : Uint160 := 0
  isColdstake : Bool := false
  isDposReward : Bool := false
  deriving DecidableEq

def ScriptAddress.addressTypeStaker (a : ScriptAddress) : Base58Type :=
  if a.isColdstake then .STAKING_ADDRESS
  else if a.isDposReward then .PUBKEY_ADDRESS
  else .UNKNOWN_TYPE

def scriptAddress : ScriptAddress :=
  if script.isPayToScriptHash then { addressType := .SCRIPT_ADDRESS, hashBytes := script.hashAt 2 }
  else if script.isPayToPublicKeyHash then { addressType := .PUBKEY_ADDRESS, hashBytes := script.hashAt 3 }
  else if script.isPayToPublicKey then { addressType := .PUBKEY_ADDRESS, hashBytes := hash160 script.tail.dropLast }
  else if script.isPayAssetScriptHash then { addressType := .PUBKEY_ADDRESS, hashBytes := script.hashAt 4 }
  else if script.isPayToColdStaking newP2CSRules then {
    addressType := .PUBKEY_ADDRESS
    hashBytes := script.hashAt 28
    hashBytesStaker := script.hashAt 6
    isColdstake := true }
  else if script.isPayAssetDposScript then {
    addressType := .PUBKEY_ADDRESS
    hashBytes := script.hashAt 28
    hashBytesStaker := script.hashAt 6
    isDposReward := true }
  else {}

def getHashBytesFromScriptPubKey : List Uint160 :=
  if script.isPayToScriptHash then [script.hashAt 2]
  else if script.isPayToPublicKeyHash then [script.hashAt 3]
  else if script.isPayToPublicKey then [hash160 script.tail.dropLast]
  else if script.isPayAssetScriptHash then [script.hashAt 4]
  else if script.isPayToColdStaking newP2CSRules || script.isPayAssetDposScript then
    [script.hashAt 6, script.hashAt 28]
  else []

def hashesAddress : ScriptAddress :=
  match getHashBytesFromScriptPubKey newP2CSRules script with
  | [hash] => {
    addressType := if script.isPayToScriptHash then .SCRIPT_ADDRESS else .PUBKEY_ADDRESS
    hashBytes := hash }
  | [staker, owner] => {
    addressType := .PUBKEY_ADDRESS
    hashBytes := owner
    hashBytesStaker := staker
    isColdstake := script.isPayToColdStaking newP2CSRules
    isDposReward := !script.isPayToColdStaking newP2CSRules }
  | _ => {}

end

structure IndexUpdates where
  addressIndex : List (CAddressIndexKey × CAmount) := []
  addressUnspentIndex : List (CAddressUnspentKey × CAddressUnspentValue) := []
  spentIndex : List (CSpentIndexKey × CSpentIndexValue) := []
  addressDelegationIndex : List (CAddressDelegationIndexKey × CAmount) := []
  addressDelegationUnspentIndex : List (CAddressDelegationUnspentKey × CAddressUnspentValue) := []

namespace IndexUpdates

instance : Append IndexUpdates where
  append u v := {
    addressIndex := u.addressIndex ++ v.addressIndex
    addressUnspentIndex := u.addressUnspentIndex ++ v.addressUnspentIndex
    spentIndex := u.spentIndex ++ v.spentIndex
    addressDelegationIndex := u.addressDelegationIndex ++ v.addressDelegationIndex
    addressDelegationUnspentIndex := u.addressDelegationUnspentIndex ++ v.addressDelegationUnspentIndex }

def join (l : List IndexUpdates) : IndexUpdates :=
  l.foldr (· ++ ·) {}

end IndexUpdates

structure IndexSource where
  nHeight : ℕ
  i : ℕ
  txhash : Uint256
  n : ℕ

namespace IndexSource

variable (s : IndexSource) (a : ScriptAddress) (spending : Bool)

def outPoint : COutPoint where
  hash := s.txhash
  n := UInt32.ofNat s.n

def addressKey : CAddressIndexKey where
  type := a.addressType.toInt16
  hashBytes := a.hashBytes
  blockHeight := Int32.ofNat s.nHeight
  txindex := UInt32.ofNat s.i
  txhash := s.txhash
  index := UInt32.ofNat s.n
  spending := spending
  delegated := a.isColdstake

def delegationKey : CAddressDelegationIndexKey where
  stakerHash := a.hashBytesStaker
  ownerHash := a.hashBytes
  blockHeight := Int32.ofNat s.nHeight
  txindex := UInt32.ofNat s.i
  txhash := s.txhash
  index := UInt32.ofNat s.n
  spending := spending

end IndexSource

namespace ScriptAddress

variable (a : ScriptAddress) (o : COutPoint)

def unspentKey : CAddressUnspentKey where
  type := a.addressType.toInt16
  hashBytes := a.hashBytes
  txhash := o.hash
  index := o.n

def delegationUnspentKey : CAddressDelegationUnspentKey where
  stakerHash := a.hashBytesStaker
  ownerHash := a.hashBytes
  txhash := o.hash
  index := o.n

-- The address gets or gives `nValue`, and the output `o` is there with `value` or, if null, no longer.
def updates (s : IndexSource) (spending : Bool) (nValue : CAmount) (value : CAddressUnspentValue) : IndexUpdates :=
  if a.addressType = .UNKNOWN_TYPE then {}
  else {
    addressIndex := [(s.addressKey a spending, nValue)]
    addressUnspentIndex := [(a.unspentKey o, value)]
    addressDelegationIndex := if a.isColdstake then [(s.delegationKey a spending, nValue)] else []
    addressDelegationUnspentIndex := if a.isColdstake then [(a.delegationUnspentKey o, value)] else [] }

end ScriptAddress

def unspentValue (out : CTxOut) (nHeight : ℕ) : CAddressUnspentValue where
  satoshis := out.nValue
  script := out.scriptPubKey
  blockHeight := nHeight

def spentKey (o : COutPoint) : CSpentIndexKey where
  txid := o.hash
  outputIndex := o.n

def CCoinsViewCache.accessCoins (view : CCoinsViewCache) : List CTxIn → List Coin
  | [] => []
  | txin :: vin =>
    let (coin, view) := view.accessCoin txin.prevout
    coin :: view.accessCoins vin

section

variable [Crypto] (node : Node) (fSpentIndex : Bool)

-- The second record has the key of the first.
def indexSpent (s : IndexSource) (o : COutPoint) (prevout : CTxOut) : List (CSpentIndexKey × CSpentIndexValue) :=
  let a := scriptAddress node.newP2CSRules prevout.scriptPubKey
  let record (addressType : Base58Type) (addressHash : Uint160) : CSpentIndexKey × CSpentIndexValue :=
    (spentKey o, {
      txid := s.txhash
      inputIndex := s.n
      blockHeight := s.nHeight
      satoshis := prevout.nValue
      addressType := addressType
      addressHash := addressHash })
  if a.addressType = .UNKNOWN_TYPE then []
  else if a.addressTypeStaker = .UNKNOWN_TYPE then [record a.addressType a.hashBytes]
  else [record a.addressType a.hashBytes, record a.addressTypeStaker a.hashBytesStaker]

def indexInput (s : IndexSource) (o : COutPoint) (prevout : CTxOut) : IndexUpdates :=
  let a := scriptAddress node.newP2CSRules prevout.scriptPubKey
  let updates := if node.fAddressIndex then a.updates o s true (-prevout.nValue) {} else {}
  { updates with spentIndex := if fSpentIndex then indexSpent node s o prevout else [] }

def indexOutput (s : IndexSource) (out : CTxOut) : IndexUpdates :=
  let a := scriptAddress node.newP2CSRules out.scriptPubKey
  if node.containsOutPoint s.outPoint then {}
  else a.updates s.outPoint s false out.nValue (unspentValue out s.nHeight)

def indexTx (nHeight i : ℕ) (tx : CTransaction) (coins : List Coin) : IndexUpdates :=
  let source := IndexSource.mk nHeight i tx.getHash
  let inputs : IndexUpdates :=
    if !tx.isCoinBase && !tx.containsAssets && (node.fAddressIndex || fSpentIndex) then
      .join ((tx.vin.zip coins).zipIdx.map fun ((txin, coin), j) =>
        indexInput node fSpentIndex (source j) txin.prevout coin.out)
    else {}
  let outputs : IndexUpdates :=
    if node.fAddressIndex then .join (tx.vout.zipIdx.map fun (out, k) => indexOutput node (source k) out) else {}
  inputs ++ outputs

-- The coins are those the loop of `ConnectBlock` finds.
def indexTxs (nHeight : ℕ) (block : CBlock) (i : ℕ) (s : ConnectState) :
    List CTransaction → Except Failure IndexUpdates
  | [] => .ok {}
  | tx :: vtx => do
    let updates := indexTx node fSpentIndex nHeight i tx (s.view.accessCoins tx.vin)
    let s ← connectTx .int64 node nHeight tx block i s
    let rest ← indexTxs nHeight block (i + 1) s vtx
    .ok (updates ++ rest)

def indexBlock (block : CBlock) (pindex : CBlockIndex) (view : CCoinsViewCache) : Except Failure IndexUpdates :=
  let (_, view) := view.getBestBlock
  let (rt, view) := view.getBestAnchor
  match view.getSaplingAnchorAt rt with
  | (none, _) => .error (.assertion "view.GetSaplingAnchorAt(view.GetBestAnchor(), sapling_tree)")
  | (some saplingTree, view) => indexTxs node fSpentIndex pindex.nHeight block 0 { view, saplingTree } block.vtx

end

section

variable [Crypto] (node : Node) (fSpentIndex : Bool)

def unindexOutput (s : IndexSource) (out : CTxOut) : IndexUpdates :=
  (hashesAddress node.newP2CSRules out.scriptPubKey).updates s.outPoint s false (-out.nValue) {}

-- The record of a spent output goes, whatever its script.
def unindexInput (s : IndexSource) (o : COutPoint) (prevout : CTxOut) (undoHeight : ℕ) : IndexUpdates :=
  let a := hashesAddress node.newP2CSRules prevout.scriptPubKey
  let updates := if node.fAddressIndex then a.updates o s true prevout.nValue (unspentValue prevout undoHeight) else {}
  { updates with spentIndex := if fSpentIndex then [(spentKey o, {})] else [] }

-- The inputs as `undoInputs` visits them, with positions. A coin is read once put back.
def unindexInputs (source : ℕ → IndexSource) (view : CCoinsViewCache) :
    List ((CTxIn × Coin) × ℕ) → Except Failure IndexUpdates
  | [] => .ok {}
  | ((txin, undo), j) :: rest => do
    let (_, view) ← applyTxInUndo undo view txin.prevout
    let (coin, view) := view.accessCoin txin.prevout
    let updates ← unindexInputs source view rest
    .ok (unindexInput node fSpentIndex (source j) txin.prevout coin.out undo.nHeight ++ updates)

def unindexTx (nHeight i : ℕ) (tx : CTransaction) (txundo : CTxUndo) (s : DisconnectState) :
    Except Failure IndexUpdates := do
  let source := IndexSource.mk nHeight i tx.getHash
  let outputs : IndexUpdates :=
    if node.fAddressIndex then .join (tx.vout.zipIdx.reverse.map fun (out, k) => unindexOutput node (source k) out)
    else {}
  if tx.isCoinBase || tx.containsAssets then .ok outputs
  else do
    let s := undoOutputs tx.getHash s 0 tx.vout
    let inputs ← unindexInputs node fSpentIndex source s.view (tx.vin.zip txundo.vprevout).zipIdx.reverse
    .ok (outputs ++ inputs)

-- The transactions with positions, from the last on. A failure writes nothing.
def unindexTxs (nHeight : ℕ) (s : DisconnectState) : List ((CTransaction × CTxUndo) × ℕ) → Except Failure IndexUpdates
  | [] => .ok {}
  | ((tx, txundo), i) :: rest => do
    match ← disconnectTx .int64 node tx txundo s with
    | .failed => .ok {}
    | .done s' => do
      let updates ← unindexTx node fSpentIndex nHeight i tx txundo s
      let rest ← unindexTxs nHeight s' rest
      .ok (updates ++ rest)

def unindexBlock (block : CBlock) (pindex : CBlockIndex) (vtxundo : List CTxUndo) (view : CCoinsViewCache) :
    Except Failure IndexUpdates :=
  unindexTxs node fSpentIndex pindex.nHeight { view } (block.vtx.zip ({} :: vtxundo)).zipIdx.reverse

end

def CAddressIdentification.iteratorKey (ident : CAddressIdentification) : CAddressIndexIteratorKey where
  type := ident.type
  hashBytes := ident.key

def CAddressIdentification.identificator (ident : CAddressIdentification) : CAddressOwnerIdentificator where
  type := .PUBKEY_ADDRESS
  hashBytes := ident.owner
  blockHeight := ident.blockHeight

structure CMoneySupply where
  nSupply : CAmount := 0
  nHeight : ℕ := 0

structure Globals where
  pblocktree : CBlockTreeDB := {}
  moneySupply : CMoneySupply := {}

namespace Globals

def updateSupply (g : Globals) (change : ℤ) (nHeight : ℕ) : Globals :=
  { g with moneySupply := { nSupply := g.moneySupply.nSupply + Int64.ofInt change, nHeight } }

section

variable (g : Globals) (node : Node) (fSpentIndex : Bool)

def writeIndexes (updates : IndexUpdates) (identsKeys : List CAddressIdentification) : CBlockTreeDB :=
  let db := g.pblocktree
  let db :=
    if node.fAddressIndex then
      let db := db.writeAddressIndex node.containsOutPoint updates.addressIndex
      let db := db.updateAddressUnspentIndex updates.addressUnspentIndex
      let db := db.writeAddressIdentification (identsKeys.map fun ident => (ident.iteratorKey, ident.identificator))
      let db := db.writeDelegationAddressIndex updates.addressDelegationIndex
      db.updateAddressDelegationUnspentIndex updates.addressDelegationUnspentIndex
    else db
  if fSpentIndex then db.updateSpentIndex updates.spentIndex else db

def eraseIndexes (updates : IndexUpdates) (removedIdentsKeys : List CAddressIndexIteratorKey) : CBlockTreeDB :=
  let db := g.pblocktree
  let db := if fSpentIndex then db.updateSpentIndex updates.spentIndex else db
  if node.fAddressIndex then
    let db := db.eraseAddressIndex updates.addressIndex
    let db := db.eraseAddressDelegationIndex updates.addressDelegationIndex
    let db := db.updateAddressUnspentIndex updates.addressUnspentIndex
    let db := db.updateAddressDelegationUnspentIndex updates.addressDelegationUnspentIndex
    db.eraseAddressIdentification removedIdentsKeys
  else db

end

def supplyKey (pindex : CBlockIndex) : CSupplyIndexKey where
  blockHeight := Int32.ofNat pindex.nHeight

variable [Crypto] (g : Globals) (node : Node) (fSpentIndex : Bool) (block : CBlock) (pindex : CBlockIndex)

-- `ConnectBlock` with its effects. The genesis block writes nothing.
def connectBlock (pprev : Option CBlockIndex) (view : CCoinsViewCache) (fJustCheck : Bool) :
    Except Failure (Connected × Globals) := do
  let r ← Qrax.connectBlock .int64 node block pindex pprev view fJustCheck
  if fJustCheck || block.getHash = node.consensus.hashGenesisBlock then .ok (r, g)
  else do
    let updates ← indexBlock node fSpentIndex block pindex view
    let db := g.writeIndexes node fSpentIndex updates r.identsKeys
    let g := { g with pblocktree := db }.updateSupply r.supplyChange pindex.nHeight
    .ok (r, { g with pblocktree := g.pblocktree.updateSupplyIndex (supplyKey pindex) g.moneySupply.nSupply })

-- `DisconnectBlock` with its effects, none if it fails.
def disconnectBlock (pprev : CBlockIndex) (vtxundo : List CTxUndo) (view : CCoinsViewCache) :
    Except Failure (Disconnected × Globals) := do
  let d ← Qrax.disconnectBlock .int64 node block pprev (some vtxundo) view
  if d.result = .DISCONNECT_FAILED then .ok (d, g)
  else do
    let updates ← unindexBlock node fSpentIndex block pindex vtxundo view
    let removedIdentsKeys := (identsKeys block pindex.nHeight).map (·.iteratorKey)
    let db := g.eraseIndexes node fSpentIndex updates removedIdentsKeys
    let g := { g with pblocktree := db }.updateSupply d.supplyChange pprev.nHeight
    .ok (d, { g with pblocktree := g.pblocktree.updateSupplyIndex (supplyKey pindex) (-1) })

end Globals

end Qrax
