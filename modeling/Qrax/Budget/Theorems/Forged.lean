import Qrax.Budget.Theorems.VoteCount
import Qrax.Budget.Theorems.VoteMaps

open KeyedUpdate KeyOrder Fallible

namespace Qrax

open MasternodeVote VoteMaps BudgetManager

section

variable [CompactCrypto] {ctx : BudgetContext} {bm : BudgetManager}

namespace BudgetManager

def withSeen (seenVotes : AList fun _ : Uint256 => CBudgetVote)
    (seenBudgetVotes : AList fun _ : Uint256 => CFinalizedBudgetVote) (bm : BudgetManager) : BudgetManager :=
  { bm with proposals := bm.proposals.withSeen seenVotes, budgets := bm.budgets.withSeen seenBudgetVotes }

variable {sp : AList fun _ : Uint256 => CBudgetVote} {sb : AList fun _ : Uint256 => CFinalizedBudgetVote}

theorem withSeen_checkOrphanVotes :
    (bm.withSeen sp sb).checkOrphanVotes ctx = (bm.checkOrphanVotes ctx).withSeen sp sb := by
  unfold checkOrphanVotes withSeen
  rw [VoteMaps.withSeen_checkOrphanVotes, VoteMaps.withSeen_checkOrphanVotes]

variable {proposal : CBudgetProposal} {finalbudget : CFinalizedBudget}

theorem withSeen_addProposal :
    (bm.withSeen sp sb).addProposal ctx proposal = (bm.addProposal ctx proposal).map (withSeen sp sb) := by
  unfold addProposal
  simp only [map_bind]
  rfl

theorem withSeen_getBudget :
    (bm.withSeen sp sb).getBudget ctx = ((bm.getBudget ctx).1, (bm.getBudget ctx).2.withSeen sp sb) := by
  have height : (bm.withSeen sp sb).nBestHeight = bm.nBestHeight := rfl
  unfold getBudget
  dsimp only
  rw [height]
  split
  case isTrue => rfl
  case isFalse => rfl

theorem withSeen_addFinalizedBudget :
    (bm.withSeen sp sb).addFinalizedBudget ctx finalbudget =
      ((bm.addFinalizedBudget ctx finalbudget).1, (bm.addFinalizedBudget ctx finalbudget).2.withSeen sp sb) := by
  have checked : (bm.withSeen sp sb).checkFinalizedBudget ctx finalbudget = bm.checkFinalizedBudget ctx finalbudget := rfl
  unfold addFinalizedBudget
  rw [checked, withSeen_getBudget]
  cases bm.checkFinalizedBudget ctx finalbudget
  case error => rfl
  case ok budget =>
    dsimp only
    split
    case isTrue => rfl
    case isFalse => rfl

theorem withSeen_processProposal :
    (bm.withSeen sp sb).processProposal ctx proposal = (bm.processProposal ctx proposal).withSeen sp sb := by
  have items : (bm.withSeen sp sb).mapProposals = bm.mapProposals := rfl
  unfold processProposal
  rw [withSeen_addProposal, items]
  split
  case isTrue => rfl
  case isFalse =>
    cases bm.addProposal ctx proposal
    case error => rfl
    case ok => exact withSeen_checkOrphanVotes

theorem withSeen_processFinalizedBudget :
    (bm.withSeen sp sb).processFinalizedBudget ctx finalbudget =
      (bm.processFinalizedBudget ctx finalbudget).withSeen sp sb := by
  have items : (bm.withSeen sp sb).mapFinalizedBudgets = bm.mapFinalizedBudgets := rfl
  unfold processFinalizedBudget
  rw [withSeen_addFinalizedBudget, items]
  split
  case isTrue => rfl
  case isFalse =>
    have ⟨added, bm'⟩ := bm.addFinalizedBudget ctx finalbudget
    cases added
    case error => rfl
    case ok => exact withSeen_checkOrphanVotes

-- Managers that differ at most in which votes with a hash in `p` or `q` were seen.
structure Agree (p q : Uint256 → Prop) (bm bm' : BudgetManager) : Prop where
  rest : { bm' with proposals := bm.proposals, budgets := bm.budgets } = bm
  proposals : bm.proposals.Agree p bm'.proposals
  budgets : bm.budgets.Agree q bm'.budgets

variable {p q : Uint256 → Prop} {bm' : BudgetManager}

theorem Agree.eq (agree : Agree p q bm bm') :
    bm' = bm.withSeen bm'.proposals.seenVotes bm'.budgets.seenVotes := by
  unfold withSeen
  rw [← agree.proposals.eq, ← agree.budgets.eq, ← agree.rest]

theorem Agree.passive {f : BudgetManager → BudgetManager} (h : ∀ bm sp sb, f (withSeen sp sb bm) = (f bm).withSeen sp sb)
    (agree : Agree p q bm bm') : Agree p q (f bm) (f bm') := by
  have self : f bm = (f bm).withSeen bm.proposals.seenVotes bm.budgets.seenVotes := h bm _ _
  rw [agree.eq, h, self]
  refine ⟨rfl, ⟨rfl, agree.proposals.seen⟩, ⟨rfl, agree.budgets.seen⟩⟩

end BudgetManager

end

inductive Ballot
  | proposal (vote : CBudgetVote)
  | finalBudget (vote : CFinalizedBudgetVote)

section

variable [CompactCrypto]

def BudgetMessage.key? : BudgetMessage → Option (Bool × Uint256)
  | proposalVote vote => some (true, vote.getHash)
  | finalBudgetVote vote => some (false, vote.getHash)
  | _ => none

def BudgetManager.seen (bm : BudgetManager) (key : Bool × Uint256) : Prop :=
  if key.1 then key.2 ∈ bm.proposals.seenVotes else key.2 ∈ bm.budgets.seenVotes

namespace Ballot

def key : Ballot → Bool × Uint256
  | proposal vote => (true, vote.getHash)
  | finalBudget vote => (false, vote.getHash)

def masternode : Ballot → COutPoint
  | proposal vote => vote.vin.prevout
  | finalBudget vote => vote.vin.prevout

def checkSignature : Ballot → CKeyID → Bool
  | proposal vote => vote.checkSignature
  | finalBudget vote => vote.checkSignature

def process (ctx : BudgetContext) (bm : BudgetManager) : Ballot → VoteOutcome × BudgetManager
  | proposal vote => bm.processProposalVote ctx vote
  | finalBudget vote => bm.processFinalizedBudgetVote ctx vote

def IsCounted (bm : BudgetManager) : Ballot → Prop
  | proposal vote => ∃ prop, bm.mapProposals.lookup vote.nProposalHash = some prop ∧
      prop.mapVotes.lookup vote.vin.prevout = some vote
  | finalBudget vote => ∃ budget, bm.mapFinalizedBudgets.lookup vote.nBudgetHash = some budget ∧
      budget.mapVotes.lookup vote.vin.prevout = some vote

def Counts (ctx : BudgetContext) (bm : BudgetManager) (b : Ballot) : Prop :=
  (b.process ctx bm).1 = .added ∧ b.IsCounted (b.process ctx bm).2

variable {ctx : BudgetContext} {bm bm' : BudgetManager} {b : Ballot}

theorem counts_iff : b.Counts ctx bm ↔ (b.process ctx bm).1 = .added := by
  refine ⟨And.left, fun added => ⟨added, ?_⟩⟩
  cases b
  case proposal => exact counted_of_added added
  case finalBudget => exact counted_of_added added

end Ballot

abbrev BudgetManager.AgreeBut (key : Bool × Uint256) (bm bm' : BudgetManager) : Prop :=
  Agree (fun nHash => (true, nHash) = key) (fun nHash => (false, nHash) = key) bm bm'

namespace BudgetManager

variable {ctx : BudgetContext} {bm bm' : BudgetManager} {key : Bool × Uint256}

variable {b : Ballot} {msg : BudgetMessage} {events : List (BudgetContext × BudgetMessage)}

theorem AgreeBut.process (agree : AgreeBut key bm bm') (other : b.key ≠ key) :
    (b.process ctx bm').1 = (b.process ctx bm).1 ∧ AgreeBut key (b.process ctx bm).2 (b.process ctx bm').2 := by
  cases b
  case proposal vote =>
    have ⟨outcome, proposals⟩ := agree.proposals.processVote ctx other
    refine ⟨outcome, ?_, proposals, agree.budgets⟩
    exact congrArg (fun rest => { rest with proposals := (bm.proposals.processVote ctx vote).2 }) agree.rest
  case finalBudget vote =>
    have ⟨outcome, budgets⟩ := agree.budgets.processVote ctx other
    refine ⟨outcome, ?_, agree.proposals, budgets⟩
    exact congrArg (fun rest => { rest with budgets := (bm.budgets.processVote ctx vote).2 }) agree.rest

theorem AgreeBut.message (agree : AgreeBut key bm bm') (other : msg.key? ≠ some key) :
    AgreeBut key (bm.processMessageInner ctx msg) (bm'.processMessageInner ctx msg) := by
  unfold processMessageInner
  split
  case isTrue => exact agree
  case isFalse =>
    split
    case isTrue => exact agree
    case isFalse =>
      cases msg
      case proposal prop =>
        exact agree.passive (f := (processProposal ctx · prop.parseBroadcast)) fun _ _ _ => withSeen_processProposal
      case finalBudget fin =>
        exact agree.passive (f := (processFinalizedBudget ctx · fin.parseBroadcast))
          fun _ _ _ => withSeen_processFinalizedBudget
      case proposalVote vote =>
        exact (AgreeBut.process (b := .proposal { vote with fValid := true }) agree fun eq => other (congrArg some eq)).2
      case finalBudgetVote vote =>
        exact (AgreeBut.process (b := .finalBudget { vote with fValid := true }) agree
          fun eq => other (congrArg some eq)).2

theorem AgreeBut.run (agree : AgreeBut key bm bm')
    (others : ∀ e ∈ events, e.2.key? ≠ some key) : AgreeBut key (bm.run events) (bm'.run events) := by
  induction events generalizing bm bm'
  case nil => exact agree
  case cons e events ih =>
    have ⟨other, others⟩ := List.forall_mem_cons.mp others
    exact ih (agree.message other) others

theorem seen_process (seen : bm.seen key) : (b.process ctx bm).2.seen key := by
  unfold BudgetManager.seen at seen ⊢
  split
  case isTrue kind =>
    rw [if_pos kind] at seen
    cases b
    case proposal => exact mem_seenVotes_processVote seen
    case finalBudget => exact seen
  case isFalse kind =>
    rw [if_neg kind] at seen
    cases b
    case proposal => exact seen
    case finalBudget => exact mem_seenVotes_processVote seen

theorem seen_passive {f : BudgetManager → BudgetManager} (h : ∀ bm sp sb, f (withSeen sp sb bm) = (f bm).withSeen sp sb)
    (seen : bm.seen key) : (f bm).seen key := by
  have self : f bm = (f bm).withSeen bm.proposals.seenVotes bm.budgets.seenVotes := h bm _ _
  rw [self]
  exact seen

theorem seen_message (seen : bm.seen key) : (bm.processMessageInner ctx msg).seen key := by
  unfold processMessageInner
  split
  case isTrue => exact seen
  case isFalse =>
    split
    case isTrue => exact seen
    case isFalse =>
      cases msg
      case proposal prop =>
        exact seen_passive (f := (processProposal ctx · prop.parseBroadcast)) (fun _ _ _ => withSeen_processProposal) seen
      case finalBudget fin =>
        exact seen_passive (f := (processFinalizedBudget ctx · fin.parseBroadcast))
          (fun _ _ _ => withSeen_processFinalizedBudget) seen
      case proposalVote vote => exact seen_process (b := .proposal { vote with fValid := true }) seen
      case finalBudgetVote vote => exact seen_process (b := .finalBudget { vote with fValid := true }) seen

theorem seen_run (seen : bm.seen key) : (bm.run events).seen key := by
  induction events generalizing bm
  case nil => exact seen
  case cons e events ih => exact ih (seen_message seen)

end BudgetManager

variable {ctx ctx' : BudgetContext} {bm : BudgetManager} {f g : Ballot}

def Ballot.IsForged (ctx : BudgetContext) (f : Ballot) : Prop :=
  ∀ pmn, ctx.man.find f.masternode = some pmn → ¬f.checkSignature (CPubKey.getID pmn.pubKeyMasternode)

theorem Ballot.process_seen (seen : bm.seen f.key) : f.process ctx bm = (.alreadySeen, bm) := by
  cases f
  case proposal vote =>
    have eq : bm.proposals.processVote ctx vote = (.alreadySeen, bm.proposals) := processVote_seen ctx seen
    simp only [Ballot.process, processProposalVote, eq]
  case finalBudget vote =>
    have eq : bm.budgets.processVote ctx vote = (.alreadySeen, bm.budgets) := processVote_seen ctx seen
    simp only [Ballot.process, processFinalizedBudgetVote, eq]

theorem Ballot.process_unknown (unknown : ctx.man.find f.masternode = none) : (f.process ctx bm).2 = bm := by
  cases f
  case proposal vote =>
    unfold Ballot.process processProposalVote
    dsimp only
    rw [processVote_unknown unknown]
  case finalBudget vote =>
    unfold Ballot.process processFinalizedBudgetVote
    dsimp only
    rw [processVote_unknown unknown]

theorem Ballot.IsForged.process {pmn : CMasternode} (forged : f.IsForged ctx) (unseen : ¬bm.seen f.key)
    (known : ctx.man.find f.masternode = some pmn) :
    bm.AgreeBut f.key (f.process ctx bm).2 ∧ (f.process ctx bm).2.seen f.key := by
  have unsigned := forged pmn known
  cases f
  case proposal vote =>
    unfold Ballot.process processProposalVote
    dsimp only
    rw [processVote_forged unseen known unsigned]
    refine ⟨⟨rfl, agree_addSeen rfl, rfl, fun _ _ => Iff.rfl⟩, ?_⟩
    exact mem_addSeen.mpr (.inl rfl)
  case finalBudget vote =>
    unfold Ballot.process processFinalizedBudgetVote
    dsimp only
    rw [processVote_forged unseen known unsigned]
    refine ⟨⟨rfl, ⟨rfl, fun _ _ => Iff.rfl⟩, agree_addSeen rfl⟩, ?_⟩
    exact mem_addSeen.mpr (.inl rfl)

-- A countable vote is counted after the forged one too, unless both have one hash, the masternode was known when the
-- forged one came, and the node had not seen it.
theorem Ballot.forged_ballot_harmless_iff {later : List (BudgetContext × BudgetMessage)} (forged : f.IsForged ctx)
    (others : ∀ e ∈ later, e.2.key? ≠ some f.key) (counts : g.Counts ctx' (bm.run later)) :
    g.Counts ctx' ((f.process ctx bm).2.run later) ↔
      g.key ≠ f.key ∨ ctx.man.find f.masternode = none ∨ bm.seen f.key := by
  by_cases seen : bm.seen f.key
  case pos =>
    rw [Ballot.process_seen seen]
    exact iff_of_true counts (.inr (.inr seen))
  case neg =>
    cases known : ctx.man.find f.masternode
    case none =>
      rw [Ballot.process_unknown known]
      exact iff_of_true counts (.inr (.inl rfl))
    case some pmn =>
      have ⟨agree, marked⟩ := forged.process seen known
      simp only [seen, or_false, reduceCtorEq]
      rw [counts_iff] at counts ⊢
      constructor
      case mp =>
        intro added same
        rw [Ballot.process_seen (same ▸ BudgetManager.seen_run marked)] at added
        cases added
      case mpr =>
        intro other
        rw [((agree.run others).process other).1]
        exact counts

end

section

attribute [local instance] CompactCrypto.toy

def soloProposalBallot (forged : Bool) : Ballot :=
  let vote : CBudgetVote := { vin := { prevout := ⟨7, 0⟩ }, nProposalHash := 5, nVote := VOTE_YES, nTime := 10000 }
  .proposal { vote with vchSig := if forged then [] else vote.getHash.bytes ++ [3] }

def soloBudgetBallot (forged : Bool) : Ballot :=
  .finalBudget (if forged then unsignedBudgetVote else soloBudgetVote)

def soloManager : BudgetManager :=
  { soloBudgets with proposals := VoteMaps.empty.withItems (AList.singleton 5 {}) }

-- The forged votes are refused for their signature, the real ones after them as seen.
theorem forged_ballots_block :
    (soloProposalBallot false).Counts soloContext soloManager ∧ (soloBudgetBallot false).Counts soloContext soloManager ∧
      ((soloProposalBallot true).process soloContext soloManager).1 = .invalidSignature ∧
      ((soloBudgetBallot true).process soloContext soloManager).1 = .invalidSignature ∧
      ((soloProposalBallot false).process soloContext
        ((soloProposalBallot true).process soloContext soloManager).2).1 = .alreadySeen ∧
      ((soloBudgetBallot false).process soloContext
        ((soloBudgetBallot true).process soloContext soloManager).2).1 = .alreadySeen := by
  simp only [Ballot.counts_iff]
  decide

theorem forged_ballot_harmless_early :
    (soloProposalBallot true).IsForged { soloContext with man := emptyMan } ∧
      (soloProposalBallot false).Counts soloContext
        ((soloProposalBallot true).process { soloContext with man := emptyMan } soloManager).2 := by
  have forged : (soloProposalBallot true).IsForged { soloContext with man := emptyMan } := by
    intro pmn known
    cases known
  have counts : (soloProposalBallot false).Counts soloContext (soloManager.run []) :=
    Ballot.counts_iff.mpr (by decide)
  have others (e : BudgetContext × BudgetMessage) (mem : e ∈ []) : e.2.key? ≠ some (soloProposalBallot true).key :=
    nomatch mem
  exact ⟨forged, (Ballot.forged_ballot_harmless_iff forged others counts).mpr (.inr (.inl rfl))⟩

end

end Qrax
