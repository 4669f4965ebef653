import Qrax.Budget.Theorems.Forged
import Qrax.Budget.Theorems.Polls

open KeyedUpdate KeyOrder Fallible

namespace Qrax

open MasternodeVote VoteMaps

def BudgetMessage.vote? : BudgetMessage → Option CBudgetVote
  | proposalVote vote => some { vote with fValid := true }
  | _ => none

theorem CBudgetProposal.mapVotes_updateValid {ctx : BudgetContext} {prop : CBudgetProposal} {nHeight : ℤ} :
    (prop.updateValid ctx nHeight).mapVotes = prop.mapVotes := by
  unfold updateValid
  dsimp only
  split
  case isTrue => rfl
  case isFalse => split <;> rfl

def BudgetContext.takesMessages (ctx : BudgetContext) : Bool :=
  !ctx.globals.fLiteMode && ctx.globals.isBlockchainSynced

section

variable [CompactCrypto]

def BudgetMessage.Brings (nHash : Uint256) : BudgetMessage → Prop
  | proposal prop => prop.getHash = nHash
  | _ => False

namespace BudgetManager

-- Proposals that the node takes, and signed votes on proposals by enabled masternodes that it knows.
inductive Admits (ctx : BudgetContext) (bm : BudgetManager) : BudgetMessage → Prop
  | proposal {prop} (ready : ctx.takesMessages)
      (accepted : prop.getHash ∈ bm.mapProposals ∨ (bm.addProposal ctx prop.parseBroadcast).isOk)
      (inTime : ∀ vote ∈ bm.proposals.orphanVotes.lookup prop.getHash, InTime ctx vote) :
      Admits ctx bm (.proposal prop)
  | vote {vote : CBudgetVote} (ready : ctx.takesMessages) (cast : IsCast ctx { vote with fValid := true }) :
      Admits ctx bm (.proposalVote vote)

-- An early vote finds the node synced, and no other vote waiting for the proposal.
def Places (ctx : BudgetContext) (bm : BudgetManager) (msg : BudgetMessage) : Prop :=
  ∀ vote ∈ msg.vote?, HasPlace ctx bm.proposals vote

def Along (P : BudgetContext → BudgetManager → BudgetMessage → Prop) :
    BudgetManager → List (BudgetContext × BudgetMessage) → Prop
  | _, [] => True
  | bm, e :: events => P e.1 bm e.2 ∧ Along P (bm.processMessageInner e.1 e.2) events

def countedVote (bm : BudgetManager) (nHash : Uint256) (mn : COutPoint) : Option CBudgetVote :=
  (bm.mapProposals.lookup nHash).bind (·.mapVotes.lookup mn)

variable {ctx : BudgetContext} {bm bm' : BudgetManager}

variable {prop : CBudgetProposal} {msg : BudgetMessage} {nHash : Uint256} {mn : COutPoint}

theorem addProposal_ok (ok : bm.addProposal ctx prop = .ok bm') :
    prop.getHash ∉ bm.mapProposals ∧ ∃ prop' : CBudgetProposal, prop'.mapVotes = prop.mapVotes ∧
      bm'.proposals = bm.proposals.addItem prop.getHash prop' := by
  simp only [addProposal, bind_eq_ok, exists_unit, failIf_eq_ok] at ok
  obtain ⟨new, _, nTime, _, _, eq⟩ := ok
  refine ⟨new, { prop with nTime }.updateValid ctx bm.nBestHeight, CBudgetProposal.mapVotes_updateValid, ?_⟩
  cases eq
  simp only [emplace, if_neg new]
  rfl

theorem processProposal_known (known : prop.getHash ∈ bm.mapProposals) :
    bm.processProposal ctx prop = bm :=
  if_pos known

theorem processProposal_new (ok : bm.addProposal ctx prop = .ok bm') :
    bm.processProposal ctx prop = bm'.checkOrphanVotes ctx := by
  unfold processProposal
  rw [if_neg (addProposal_ok ok).1, ok]

structure Steps (bm bm' : BudgetManager) (msg : BudgetMessage) : Prop where
  polls : bm'.proposals.polls = msg.vote?.toList.foldl (poll CBudgetVote).offer bm.proposals.polls
  items : ∀ nHash, nHash ∈ bm'.mapProposals ↔ nHash ∈ bm.mapProposals ∨ msg.Brings nHash
  tidy : bm'.proposals.Tidy

theorem steps_proposal (tidy : bm.proposals.Tidy)
    (accepted : prop.getHash ∈ bm.mapProposals ∨ (bm.addProposal ctx prop.parseBroadcast).isOk)
    (inTime : ∀ vote ∈ bm.proposals.orphanVotes.lookup prop.getHash, InTime ctx vote) :
    Steps bm (bm.processProposal ctx prop.parseBroadcast) (.proposal prop) := by
  by_cases known : prop.getHash ∈ bm.mapProposals
  case pos =>
    have same : bm.processProposal ctx prop.parseBroadcast = bm := processProposal_known known
    rw [same]
    exact ⟨rfl, fun nHash => (or_iff_left_of_imp fun eq => eq ▸ known).symm, tidy⟩
  case neg =>
    have ⟨bm', ok⟩ := isOk_iff.mp (accepted.resolve_left known)
    have ⟨_, prop', fresh, added⟩ := addProposal_ok ok
    rw [processProposal_new ok]
    have ⟨item, arrived⟩ : ∃ item, Arrived bm.proposals (bm'.checkOrphanVotes ctx).proposals prop.getHash item := by
      unfold checkOrphanVotes
      rw [added]
      exact arrived_checkOrphanVotes tidy fresh inTime
    constructor
    case polls => exact arrived.polls_eq known
    case items => exact fun nHash => arrived.mem_items.trans (or_comm.trans (or_congr_right eq_comm))
    case tidy => exact arrived.tidy tidy

theorem steps_vote {vote : CBudgetVote} (tidy : bm.proposals.Tidy) (cast : IsCast ctx { vote with fValid := true })
    (place : HasPlace ctx bm.proposals { vote with fValid := true }) :
    Steps bm (bm.processProposalVote ctx { vote with fValid := true }).2 (.proposalVote vote) := by
  have ⟨polls, items, tidies⟩ := cast.polls_processVote place
  exact ⟨polls, fun nHash => (items nHash).trans (or_false _).symm.to_iff, tidies tidy⟩

theorem processMessageInner_ready (ready : ctx.takesMessages) :
    bm.processMessageInner ctx msg = bm.dispatch ctx msg := by
  have ⟨full, synced⟩ := Bool.and_eq_true_iff.mp ready
  unfold processMessageInner
  rw [if_neg (by simpa using full), if_neg (by simpa using synced)]

theorem Admits.steps (admits : bm.Admits ctx msg) (places : bm.Places ctx msg)
    (tidy : bm.proposals.Tidy) : Steps bm (bm.processMessageInner ctx msg) msg := by
  cases admits
  case proposal ready accepted inTime =>
    rw [processMessageInner_ready ready]
    exact steps_proposal tidy accepted inTime
  case vote ready cast =>
    rw [processMessageInner_ready ready]
    exact steps_vote tidy cast (places _ rfl)

variable {events events' : List (BudgetContext × BudgetMessage)}

-- Votes go to the polls in the order of the run, wherever the proposals come in.
structure Tallies (bm bm' : BudgetManager) (msgs : List BudgetMessage) : Prop where
  polls : bm'.proposals.polls = (msgs.filterMap (·.vote?)).foldl (poll CBudgetVote).offer bm.proposals.polls
  items : ∀ nHash, nHash ∈ bm'.mapProposals ↔ nHash ∈ bm.mapProposals ∨ ∃ msg ∈ msgs, msg.Brings nHash

theorem tallies_run (tidy : bm.proposals.Tidy) (admitted : Along Admits bm events) (placed : Along Places bm events) :
    Tallies bm (bm.run events) (events.map (·.2)) := by
  induction events generalizing bm
  case nil => exact ⟨rfl, fun nHash => by simp [run]⟩
  case cons e events ih =>
    have step := admitted.1.steps placed.1 tidy
    have rest := ih step.tidy admitted.2 placed.2
    constructor
    case polls =>
      rw [run, List.foldl_cons, ← run, rest.polls, step.polls]
      cases vote : e.2.vote?
      case none => simp [vote]
      case some vote => simp [vote]
    case items =>
      intro nHash
      rw [run, List.foldl_cons, ← run, rest.items, step.items]
      simp only [List.map_cons, List.mem_cons, exists_eq_or_imp, or_assoc]

theorem countedVote_eq (known : nHash ∈ bm.mapProposals) :
    bm.countedVote nHash mn = bm.proposals.polls.held (nHash, mn) := by
  have ⟨prop, found⟩ := Option.isSome_iff_exists.mp (AList.lookup_isSome.mpr known)
  unfold countedVote
  rw [found]
  exact (voteOf_known found).symm

theorem countedVote_unknown (unknown : nHash ∉ bm.mapProposals) :
    bm.countedVote nHash mn = none := by
  unfold countedVote
  rw [AList.lookup_eq_none.mpr unknown]
  rfl

-- The order of proposals and votes does not matter if each early vote waits alone for its proposal, at a synced node.
theorem interleaving_irrelevant (tidy : bm.proposals.Tidy) (perm : (events.map (·.2)).Perm (events'.map (·.2)))
    (apart : ((events.map (·.2)).filterMap (·.vote?)).Pairwise (poll CBudgetVote).Apart)
    (admitted : Along Admits bm events) (admitted' : Along Admits bm events')
    (placed : Along Places bm events) (placed' : Along Places bm events') :
    (∀ nHash mn, (bm.run events).countedVote nHash mn = (bm.run events').countedVote nHash mn) ∧
      ∀ vote ∈ (events.map (·.2)).filterMap (·.vote?), (poll CBudgetVote).Accepts bm.proposals.polls vote →
        vote.nProposalHash ∈ (bm.run events).mapProposals →
          (bm.run events).countedVote vote.nProposalHash vote.vin.prevout = some vote := by
  have tallies := tallies_run tidy admitted placed
  have tallies' := tallies_run tidy admitted' placed'
  constructor
  case left =>
    intro nHash mn
    have polls : (bm.run events).proposals.polls = (bm.run events').proposals.polls := by
      rw [tallies.polls, tallies'.polls]
      exact Tally.foldl_offer_perm (perm.filterMap _) apart
    have items : nHash ∈ (bm.run events).mapProposals ↔ nHash ∈ (bm.run events').mapProposals := by
      simp only [tallies.items, tallies'.items, perm.mem_iff]
    by_cases known : nHash ∈ (bm.run events).mapProposals
    case pos => rw [countedVote_eq known, countedVote_eq (items.mp known), polls]
    case neg => rw [countedVote_unknown known, countedVote_unknown (known ∘ items.mpr)]
  case right =>
    intro vote mem accepts known
    rw [countedVote_eq known, tallies.polls]
    exact accepts.held_foldl_offer mem apart

end BudgetManager

end

section

attribute [local instance] CompactCrypto.toy

def secondMasternode : CMasternode :=
  { soloMasternode with
    vin := { prevout := ⟨8, 0⟩ }
    pubKeyMasternode := [4]
    lastPing := { soloMasternode.lastPing with vin := { prevout := ⟨8, 0⟩ } } }

def duoMan : CMasternodeMan where
  mapMasternodes := soloMan.mapMasternodes.insert ⟨8, 0⟩ secondMasternode
  nBestHeight := 150
  cvLastBlockHashes := fun _ => 1
  keyed := by
    intro collateral mn found
    rw [lookup_insert] at found
    split at found
    case isTrue eq => cases found; exact eq.symm
    case isFalse => exact soloMan.keyed collateral mn found

def duoProposal : CBudgetProposal where
  nBlockStart := 432000
  nBlockEnd := 475199
  nAmount := 10 * COIN
  address := [0x76, 0xa9, 20] ++ List.replicate 20 1 ++ [0x88, 0xac]
  nFeeTXHash := 9

def duoFee : CTransaction where
  vin := []
  vout := [⟨PROPOSAL_FEE_TX, Opcodetype.OP_RETURN.toByte :: CScript.push duoProposal.getHash.bytes⟩]

def duoContext : BudgetContext :=
  { soloContext with
    man := duoMan
    getTransaction := fun _ => some (duoFee, 1)
    activeBlock := fun _ => some (1, 100) }

def duoUnsynced : BudgetContext :=
  { duoContext with globals := { duoContext.globals with isSynced := false } }

def duoVote (mn : Uint256) (key : UInt8) : CBudgetVote :=
  let vote : CBudgetVote :=
    { vin := { prevout := ⟨mn, 0⟩ }, nProposalHash := duoProposal.getHash, nVote := VOTE_YES, nTime := 10000 }
  { vote with vchSig := vote.getHash.bytes ++ [key] }

def duoStart : BudgetManager where
  nBestHeight := 150

-- Two votes come before their proposal, or one to a node that is not synced.
theorem early_votes_lost :
    let early := duoStart.run [(duoContext, .proposalVote (duoVote 7 3)), (duoContext, .proposalVote (duoVote 8 4)),
      (duoContext, .proposal duoProposal)]
    let late := duoStart.run [(duoContext, .proposal duoProposal), (duoContext, .proposalVote (duoVote 7 3)),
      (duoContext, .proposalVote (duoVote 8 4))]
    let dropped := duoStart.run [(duoUnsynced, .proposalVote (duoVote 7 3)), (duoUnsynced, .proposal duoProposal)]
    early.countedVote duoProposal.getHash ⟨7, 0⟩ = none ∧ early.countedVote duoProposal.getHash ⟨8, 0⟩ = duoVote 8 4 ∧
      late.countedVote duoProposal.getHash ⟨7, 0⟩ = duoVote 7 3 ∧
      late.countedVote duoProposal.getHash ⟨8, 0⟩ = duoVote 8 4 ∧
      dropped.countedVote duoProposal.getHash ⟨7, 0⟩ = none := by
  decide +kernel

def earlyEvents : List (BudgetContext × BudgetMessage) :=
  [(duoContext, .proposalVote (duoVote 7 3)), (duoContext, .proposal duoProposal)]

def lateEvents : List (BudgetContext × BudgetMessage) :=
  [(duoContext, .proposal duoProposal), (duoContext, .proposalVote (duoVote 7 3))]

theorem interleaving_irrelevant_early :
    (duoStart.run earlyEvents).countedVote duoProposal.getHash ⟨7, 0⟩ =
      (duoStart.run lateEvents).countedVote duoProposal.getHash ⟨7, 0⟩ := by
  have cast : IsCast duoContext (duoVote 7 3) :=
    ⟨⟨soloMasternode, by decide, by decide, by decide⟩, by decide⟩
  have fresh : (duoStart.addProposal duoContext duoProposal.parseBroadcast).isOk := by decide +kernel
  have early : (BudgetManager.addProposal duoContext (duoStart.processMessageInner duoContext
      (.proposalVote (duoVote 7 3))) duoProposal.parseBroadcast).isOk := by
    decide +kernel
  have tidy : duoStart.proposals.Tidy := fun _ mem => nomatch mem
  have perm : (earlyEvents.map (·.2)).Perm (lateEvents.map (·.2)) := List.Perm.swap ..
  refine (BudgetManager.interleaving_irrelevant tidy perm ?apart ?admitted ?admitted' ?placed ?placed').left
    duoProposal.getHash ⟨7, 0⟩
  case apart => exact List.pairwise_singleton ..
  case admitted => exact ⟨.vote rfl cast, .proposal rfl (.inr early) (by decide +kernel), trivial⟩
  case admitted' => exact ⟨.proposal rfl (.inr fresh) (fun _ mem => nomatch mem), .vote rfl cast, trivial⟩
  case placed =>
    refine ⟨?_, ?_, trivial⟩
    case refine_1 =>
      intro vote eq
      cases eq
      exact .inr ⟨rfl, rfl⟩
    case refine_2 => exact fun _ mem => nomatch mem
  case placed' =>
    refine ⟨?_, ?_, trivial⟩
    case refine_1 => exact fun _ mem => nomatch mem
    case refine_2 =>
      intro vote eq
      cases eq
      exact .inl (by decide +kernel)

end

end Qrax
