import Qrax.NetProcessing.NodeState
import Qrax.Lib.FiniteTotal

open KeyedUpdate FiniteTotal List Fallible

namespace Qrax

open CNodeState

def CNodeState.validated (state : CNodeState) : ℤ :=
  state.vBlocksInFlight.countP (·.fValidatedHeaders)

namespace NodeStates

variable {s s' : NodeStates}

def Holds (s : NodeStates) (n : NodeId) (e : QueuedBlock) : Prop :=
  ∃ state, s.mapNodeState.lookup n = some state ∧ e ∈ state.vBlocksInFlight

structure Exact (s : NodeStates) : Prop where
  queued : s.nQueuedValidatedHeaders = total CNodeState.validated s.mapNodeState
  preferred : s.nPreferredDownload = total (·.fPreferredDownload.toInt) s.mapNodeState
  lengths : ∀ n state, s.mapNodeState.lookup n = some state → state.nBlocksInFlight = state.vBlocksInFlight.length
  nodup : ∀ n state, s.mapNodeState.lookup n = some state → state.vBlocksInFlight.Nodup
  listed : ∀ h n e, s.mapBlocksInFlight.lookup h = some (n, e) ↔ e.hash = h ∧ s.Holds n e

theorem state_eq_ok {n : NodeId} {state : CNodeState} : s.state n = .ok state ↔ s.mapNodeState.lookup n = some state := by
  unfold NodeStates.state
  cases s.mapNodeState.lookup n <;> simp

theorem Exact.set (h : s.Exact) {n : NodeId} {state : CNodeState} {nSyncStarted q p : ℤ}
    {m : AList fun _ : Uint256 => NodeId × QueuedBlock}
    (queued : q = s.nQueuedValidatedHeaders - (s.mapNodeState.lookup n).elim 0 CNodeState.validated + state.validated)
    (preferred : p = s.nPreferredDownload - (s.mapNodeState.lookup n).elim 0 (·.fPreferredDownload.toInt) +
      state.fPreferredDownload.toInt)
    (length : state.nBlocksInFlight = state.vBlocksInFlight.length) (nodup : state.vBlocksInFlight.Nodup)
    (listed : ∀ hash n' e, m.lookup hash = some (n', e) ↔
      e.hash = hash ∧ if n' = n then e ∈ state.vBlocksInFlight else s.Holds n' e) :
    Exact ⟨s.mapNodeState.insert n state, m, q, p, nSyncStarted⟩ where
  queued := by rw [queued, h.queued, total_insert]
  preferred := by rw [preferred, h.preferred, total_insert]
  lengths n' state' found := by
    have := h.lengths n' state'
    grind [lookup_insert]
  nodup n' state' found := by
    have := h.nodup n' state'
    grind [lookup_insert]
  listed hash n' e := by
    rw [listed]
    grind [Holds, lookup_insert]

theorem Exact.updatePreferredDownload (h : s.Exact) {node : CNode} (called : s.updatePreferredDownload node = .ok s') :
    s'.Exact := by
  obtain ⟨state, found, last⟩ := bind_eq_ok.mp called
  cases last
  rw [state_eq_ok] at found
  refine h.set ?_ (by rw [found]; rfl) (h.lengths _ state found) (h.nodup _ state found) fun hash n e => ?_
  · rw [found]
    exact (sub_add_cancel ..).symm
  · refine (h.listed hash n e).trans ?_
    grind [Holds]

theorem Exact.initializeNode (h : s.Exact) (pnode : CNode) : (s.initializeNode pnode).Exact := by
  unfold NodeStates.initializeNode emplace
  split
  case isTrue => exact h
  case isFalse absent =>
    have absent := AList.lookup_eq_none.mpr absent
    refine h.set ?_ ?_ rfl .nil fun hash n e => ?_
    · simp [absent, validated]
    · simp [absent]
    · rw [h.listed]
      grind [Holds]

theorem Exact.markBlockAsReceived (h : s.Exact) {hash : Uint256} (called : s.markBlockAsReceived hash = .ok s') :
    s'.Exact ∧ s'.mapBlocksInFlight.lookup hash = none := by
  unfold NodeStates.markBlockAsReceived at called
  split at called
  case h_1 absent =>
    cases called
    exact ⟨h, absent⟩
  case h_2 nodeid entry inFlight =>
    obtain ⟨state, found, last⟩ := bind_eq_ok.mp called
    cases last
    rw [state_eq_ok] at found
    obtain ⟨hashes, state', found', mem⟩ := (h.listed hash nodeid entry).mp inFlight
    cases found.symm.trans found'
    have nodup := h.nodup _ _ found
    refine ⟨h.set ?_ ?_ ?_ (nodup.erase _) fun hash' n e => ?_, AList.lookup_erase ..⟩
    · have counted := (perm_cons_erase mem).countP_eq (·.fValidatedHeaders)
      rw [countP_cons] at counted
      simp only [found, Option.elim_some, validated, counted]
      cases entry.fValidatedHeaders
      case false => simp
      case true =>
        simp
        omega
    · rw [found]
      exact (sub_add_cancel ..).symm
    · have := length_pos_of_mem mem
      simp only [length_erase_of_mem mem, h.lengths _ _ found]
      omega
    · have := h.listed hash' n e
      rw [lookup_erase, nodup.mem_erase_iff]
      grind [Holds]

theorem Exact.markBlockAsInFlight (h : s.Exact) {nodeid : NodeId} {hash : Uint256} {pindex : Option Uint256} {nTime : ℤ}
    (called : s.markBlockAsInFlight nodeid hash pindex nTime = .ok s') : s'.Exact := by
  obtain ⟨_, _, called⟩ := bind_eq_ok.mp called
  obtain ⟨s, received, called⟩ := bind_eq_ok.mp called
  obtain ⟨state, found, last⟩ := bind_eq_ok.mp called
  cases last
  obtain ⟨h, absent⟩ := h.markBlockAsReceived received
  rw [state_eq_ok] at found
  have fresh : ∀ e ∈ state.vBlocksInFlight, e.hash ≠ hash := by
    intro e mem eq
    have := (h.listed hash nodeid e).mpr ⟨eq, state, found, mem⟩
    rw [absent] at this
    cases this
  refine h.set ?_ ?_ ?_ ?_ fun hash' n e => ?_
  · rw [found]
    cases pindex <;> simp [validated]
    ring
  · rw [found]
    exact (sub_add_cancel ..).symm
  · simp [h.lengths _ _ found]
  · have := h.nodup _ _ found
    grind [nodup_append]
  · have := h.listed hash' n e
    rw [lookup_insert]
    grind [Holds]

-- The entries of a leaving peer stay counted.
theorem Exact.finalizeNode_iff (h : s.Exact) {nodeid : NodeId} {fUpdateConnectionTime : Bool}
    (called : s.finalizeNode nodeid = .ok (fUpdateConnectionTime, s')) :
    s'.Exact ↔ ∀ e, s.Holds nodeid e → e.fValidatedHeaders = false := by
  obtain ⟨state, found, last⟩ := bind_eq_ok.mp called
  cases last
  rw [state_eq_ok] at found
  have ⟨queued, preferred, lengths, nodup, listed⟩ := h
  have counted : (∀ e, s.Holds nodeid e → e.fValidatedHeaders = false) ↔ state.validated = 0 := by
    simp [validated, Holds, found]
  rw [counted]
  constructor
  · intro exact
    have := exact.queued
    simp only [total_erase, found, Option.elim_some] at this
    omega
  · intro none
    constructor <;> simp only [total_erase, found, Option.elim_some, Holds, lookup_erase, lookup_foldl_erase]
    case queued => rw [queued, none, sub_zero]
    case preferred => rw [preferred]
    case lengths => grind
    case nodup => grind
    case listed =>
      intro hash n e
      have here := listed hash n e
      rw [Holds] at here
      by_cases mine : hash ∈ state.vBlocksInFlight.map (·.hash)
      case pos =>
        obtain ⟨e', mem, eq⟩ := mem_map.mp mine
        have held := (listed hash nodeid e').mpr ⟨eq, state, found, mem⟩
        grind
      case neg =>
        rw [if_neg mine, here]
        grind

inductive NodeCall
  | initializeNode (pnode : CNode)
  | updatePreferredDownload (node : CNode)
  | markBlockAsInFlight (nodeid : NodeId) (hash : Uint256) (pindex : Option Uint256) (nTime : ℤ)
  | markBlockAsReceived (hash : Uint256)
  | finalizeNode (nodeid : NodeId)

def call (s : NodeStates) : NodeCall → Except Failure NodeStates
  | .initializeNode pnode => .ok (s.initializeNode pnode)
  | .updatePreferredDownload node => s.updatePreferredDownload node
  | .markBlockAsInFlight nodeid hash pindex nTime => s.markBlockAsInFlight nodeid hash pindex nTime
  | .markBlockAsReceived hash => s.markBlockAsReceived hash
  | .finalizeNode nodeid => (s.finalizeNode nodeid).map (·.2)

def CallsExactly (s : NodeStates) : NodeCall → Prop
  | .finalizeNode nodeid => ∀ e, s.Holds nodeid e → e.fValidatedHeaders = false
  | _ => True

theorem Exact.call_iff (h : s.Exact) {c : NodeCall} (called : s.call c = .ok s') : s'.Exact ↔ s.CallsExactly c := by
  cases c
  case initializeNode pnode =>
    cases called
    exact iff_of_true (h.initializeNode pnode) trivial
  case updatePreferredDownload => exact iff_of_true (h.updatePreferredDownload called) trivial
  case markBlockAsInFlight => exact iff_of_true (h.markBlockAsInFlight called) trivial
  case markBlockAsReceived => exact iff_of_true (h.markBlockAsReceived called).left trivial
  case finalizeNode =>
    obtain ⟨⟨_, _⟩, finalized, last⟩ := map_eq_ok.mp called
    cases last
    exact h.finalizeNode_iff finalized

-- The states after calls none of which takes away a peer that a block with validated headers is asked of.
inductive Reached : NodeStates → Prop
  | fresh : Reached {}
  | call {s s' : NodeStates} {c : NodeCall} (before : Reached s) (exactly : s.CallsExactly c) (called : s.call c = .ok s') :
      Reached s'

theorem Reached.exact (h : Reached s) : s.Exact := by
  induction h
  case fresh => exact ⟨rfl, rfl, by rintro _ _ ⟨⟩, by rintro _ _ ⟨⟩, fun _ _ _ => ⟨by rintro ⟨⟩, by rintro ⟨_, _, ⟨⟩, _⟩⟩⟩
  case call exactly called ih => exact (ih.call_iff called).mpr exactly

theorem exact_after_call_iff {c : NodeCall} (reached : Reached s) (called : s.call c = .ok s') :
    s'.Exact ↔ s.CallsExactly c :=
  reached.exact.call_iff called

end NodeStates

def askingStates (pindex : Option Uint256) : Except Failure NodeStates :=
  NodeStates.markBlockAsInFlight (NodeStates.initializeNode {} { id := 1 }) 1 7 pindex 0

theorem queued_header_stays :
    (do let s ← (← askingStates (some 7)).call (.finalizeNode 1)
        return (s.nQueuedValidatedHeaders, s.mapNodeState.keys)) = .ok (1, []) := by
  decide

theorem unvalidated_peer_leaves :
    ∃ s s', askingStates none = .ok s ∧ s.call (.finalizeNode 1) = .ok s' ∧ s'.Exact := by
  have added : NodeStates.Reached (NodeStates.initializeNode {} { id := 1 }) :=
    .call (c := .initializeNode { id := 1 }) .fresh trivial rfl
  have asked : NodeStates.Reached _ := .call (c := .markBlockAsInFlight 1 7 none 0) added trivial rfl
  refine ⟨_, _, rfl, rfl, (NodeStates.exact_after_call_iff (c := .finalizeNode 1) asked rfl).mpr ?_⟩
  rintro e ⟨_, ⟨⟩, mem⟩
  cases mem_singleton.mp mem
  rfl

end Qrax
