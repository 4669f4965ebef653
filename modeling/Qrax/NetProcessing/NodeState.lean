import Qrax.Failure
import Qrax.Lib.KeyedUpdate

open KeyedUpdate

namespace Qrax

abbrev NodeId := ℤ

structure QueuedBlock where
  hash : Uint256
  pindex : Option Uint256
  nTime : ℤ
  nValidatedQueuedBefore : ℤ
  fValidatedHeaders : Bool
  deriving DecidableEq, Repr

structure CNodeState where
  fCurrentlyConnected : Bool := false
  nMisbehavior : ℤ := 0
  fSyncStarted : Bool := false
  nStallingSince : ℤ := 0
  vBlocksInFlight : List QueuedBlock := []
  nBlocksInFlight : ℤ := 0
  fPreferredDownload : Bool := false
  deriving DecidableEq, Repr

structure CNode where
  id : NodeId
  fInbound : Bool := false
  fWhitelisted : Bool := false
  fOneShot : Bool := false
  fClient : Bool := false

-- An iterator into a peer's list is its entry: entries never change, and a list has no two with one hash.
structure NodeStates where
  mapNodeState : AList fun _ : NodeId => CNodeState := ∅
  mapBlocksInFlight : AList fun _ : Uint256 => NodeId × QueuedBlock := ∅
  nQueuedValidatedHeaders : ℤ := 0
  nPreferredDownload : ℤ := 0
  nSyncStarted : ℤ := 0

namespace NodeStates

variable (s : NodeStates)

-- `State`, with the failure of using its null pointer.
def state (pnode : NodeId) : Except Failure CNodeState :=
  match s.mapNodeState.lookup pnode with
  | none => .error (.assertion "state != NULL")
  | some state => .ok state

def setState (pnode : NodeId) (state : CNodeState) : NodeStates :=
  { s with mapNodeState := s.mapNodeState.insert pnode state }

def updatePreferredDownload (node : CNode) : Except Failure NodeStates := do
  let state ← s.state node.id
  let fPreferredDownload := (!node.fInbound || node.fWhitelisted) && !node.fOneShot && !node.fClient
  return { s.setState node.id { state with fPreferredDownload } with
    nPreferredDownload := s.nPreferredDownload - state.fPreferredDownload.toInt + fPreferredDownload.toInt }

-- The first message of an outbound connection is left out.
def initializeNode (pnode : CNode) : NodeStates :=
  { s with mapNodeState := emplace s.mapNodeState pnode.id {} }

-- Also returns `fUpdateConnectionTime`. The orphans of the peer are not kept here.
def finalizeNode (nodeid : NodeId) : Except Failure (Bool × NodeStates) := do
  let state ← s.state nodeid
  return (state.nMisbehavior = 0 && state.fCurrentlyConnected,
    { s with
      nSyncStarted := s.nSyncStarted - state.fSyncStarted.toInt
      mapBlocksInFlight := (state.vBlocksInFlight.map (·.hash)).foldl (fun m hash => m.erase hash) s.mapBlocksInFlight
      nPreferredDownload := s.nPreferredDownload - state.fPreferredDownload.toInt
      mapNodeState := s.mapNodeState.erase nodeid })

def markBlockAsReceived (hash : Uint256) : Except Failure NodeStates :=
  match s.mapBlocksInFlight.lookup hash with
  | none => .ok s
  | some (nodeid, entry) => do
    let state ← s.state nodeid
    return { s.setState nodeid { state with
        vBlocksInFlight := state.vBlocksInFlight.erase entry
        nBlocksInFlight := state.nBlocksInFlight - 1
        nStallingSince := 0 } with
      nQueuedValidatedHeaders := s.nQueuedValidatedHeaders - entry.fValidatedHeaders.toInt
      mapBlocksInFlight := s.mapBlocksInFlight.erase hash }

def markBlockAsInFlight (nodeid : NodeId) (hash : Uint256) (pindex : Option Uint256) (nTime : ℤ) :
    Except Failure NodeStates := do
  let _ ← s.state nodeid
  let s ← s.markBlockAsReceived hash
  let state ← s.state nodeid
  let newentry : QueuedBlock :=
    { hash, pindex, nTime, nValidatedQueuedBefore := s.nQueuedValidatedHeaders, fValidatedHeaders := pindex.isSome }
  return { s.setState nodeid { state with
      vBlocksInFlight := state.vBlocksInFlight ++ [newentry]
      nBlocksInFlight := state.nBlocksInFlight + 1 } with
    nQueuedValidatedHeaders := s.nQueuedValidatedHeaders + newentry.fValidatedHeaders.toInt
    mapBlocksInFlight := s.mapBlocksInFlight.insert hash (nodeid, newentry) }

end NodeStates

end Qrax
