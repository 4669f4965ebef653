import Qrax.Budget.Manager
import Qrax.Masternode.Theorems.Winners

open KeyedUpdate KeyOrder List

namespace Qrax

open CFinalizedBudget

variable (ctx : BudgetContext)

def CFinalizedBudget.currentVotes (fbud : CFinalizedBudget) : CFinalizedBudget :=
  { fbud with
    mapVotes :=
      { entries := fbud.mapVotes.entries.filter fun e => ctx.isMasternodeEnabled e.1
        nodupKeys := List.NodupKeys.sublist filter_sublist fbud.mapVotes.nodupKeys } }

section

variable {ctx} {fbud : CFinalizedBudget}

theorem CFinalizedBudget.getVoteCount_currentVotes :
    fbud.getVoteCount = (fbud.currentVotes ctx).getVoteCount ↔ ∀ mnId ∈ fbud.mapVotes, ctx.isMasternodeEnabled mnId := by
  unfold getVoteCount currentVotes
  dsimp only
  rw [Int.natCast_inj, eq_comm, length_filter_eq_length_iff]
  constructor
  case mp =>
    intro all mnId mem
    have ⟨e, mem, eq⟩ := mem_map.mp mem
    exact eq ▸ all e mem
  case mpr =>
    intro all e mem
    exact all e.1 (mem_map_of_mem mem)

theorem CFinalizedBudget.currentVotes_eq_self (current : ∀ mnId ∈ fbud.mapVotes, ctx.isMasternodeEnabled mnId) :
    fbud.currentVotes ctx = fbud := by
  have entries : (fbud.mapVotes.entries.filter fun e => ctx.isMasternodeEnabled e.1) = fbud.mapVotes.entries :=
    filter_eq_self.mpr fun e mem => current e.1 (mem_map_of_mem mem)
  unfold currentVotes
  congr

theorem CFinalizedBudget.mem_removeStaleVotes {mnId : COutPoint} :
    mnId ∈ (fbud.removeStaleVotes ctx).mapVotes ↔ mnId ∈ fbud.mapVotes :=
  mem_mapValues

end

namespace BudgetManager

variable [CompactCrypto]

def currentVotes (bm : BudgetManager) : BudgetManager :=
  { bm with
    budgets := bm.budgets.withItems (mapValues (fun _ fbud => fbud.currentVotes ctx) bm.mapFinalizedBudgets) }

-- The counts that decide on payments are those of the current votes.
structure CountsCurrent (bm : BudgetManager) : Prop where
  voteCount : ∀ fbud ∈ bm.finalizedBudgets, fbud.getVoteCount = (fbud.currentVotes ctx).getVoteCount
  highestBudget : ∀ chainHeight,
    bm.getBudgetWithHighestVoteCount chainHeight = (bm.currentVotes ctx).getBudgetWithHighestVoteCount chainHeight
  highestCount : ∀ chainHeight,
    bm.getHighestVoteCount chainHeight = (bm.currentVotes ctx).getHighestVoteCount chainHeight
  payeeAndAmount : ∀ chainHeight,
    bm.getPayeeAndAmount ctx chainHeight = (bm.currentVotes ctx).getPayeeAndAmount ctx chainHeight
  paymentBlock : ∀ nBlockHeight,
    bm.isBudgetPaymentBlock ctx nBlockHeight = (bm.currentVotes ctx).isBudgetPaymentBlock ctx nBlockHeight

variable {ctx} {bm : BudgetManager}

theorem mem_finalizedBudgets {fbud : CFinalizedBudget} :
    fbud ∈ bm.finalizedBudgets ↔ ∃ nHash, bm.mapFinalizedBudgets.lookup nHash = some fbud := by
  simp only [finalizedBudgets, mem_map, Prod.exists, mem_inOrder, exists_eq_right]

theorem mem_finalizedBudgets_removeStaleVotes {fbud : CFinalizedBudget} :
    fbud ∈ (bm.removeStaleVotesOnFinalBudgets ctx).finalizedBudgets ↔
      ∃ fbud' ∈ bm.finalizedBudgets, fbud'.removeStaleVotes ctx = fbud := by
  simp only [mem_finalizedBudgets, removeStaleVotesOnFinalBudgets, mapFinalizedBudgets, VoteMaps.withItems,
    lookup_mapValues, Option.map_eq_some_iff]
  exact ⟨fun ⟨nHash, fbud', found, eq⟩ => ⟨fbud', ⟨nHash, found⟩, eq⟩,
    fun ⟨fbud', ⟨nHash, found⟩, eq⟩ => ⟨nHash, fbud', found, eq⟩⟩

theorem currentVotes_eq_self
    (current : ∀ fbud ∈ bm.finalizedBudgets, ∀ mnId ∈ fbud.mapVotes, ctx.isMasternodeEnabled mnId) :
    bm.currentVotes ctx = bm := by
  have items : mapValues (fun _ fbud => CFinalizedBudget.currentVotes ctx fbud) bm.mapFinalizedBudgets =
      bm.budgets.items := by
    apply mapValues_eq_self
    intro nHash fbud found
    exact CFinalizedBudget.currentVotes_eq_self (current fbud (mem_finalizedBudgets.mpr ⟨nHash, found⟩))
  unfold currentVotes
  rw [items]
  rfl

-- The count does not look at the flag of stale votes, so it is right only while there are none.
theorem countsCurrent_iff :
    (bm.removeStaleVotesOnFinalBudgets ctx).CountsCurrent ctx ↔
      ∀ fbud ∈ bm.finalizedBudgets, ∀ mnId ∈ fbud.mapVotes, ctx.isMasternodeEnabled mnId := by
  constructor
  case mp =>
    intro counts fbud mem mnId voted
    have count := counts.voteCount _ (mem_finalizedBudgets_removeStaleVotes.mpr ⟨fbud, mem, rfl⟩)
    have current := CFinalizedBudget.getVoteCount_currentVotes.mp count
    exact current mnId (CFinalizedBudget.mem_removeStaleVotes.mpr voted)
  case mpr =>
    intro current
    have current : ∀ fbud ∈ (bm.removeStaleVotesOnFinalBudgets ctx).finalizedBudgets, ∀ mnId ∈ fbud.mapVotes,
        ctx.isMasternodeEnabled mnId := by
      intro fbud mem mnId voted
      have ⟨fbud', mem, eq⟩ := mem_finalizedBudgets_removeStaleVotes.mp mem
      rw [← eq, CFinalizedBudget.mem_removeStaleVotes] at voted
      exact current fbud' mem mnId voted
    have same := currentVotes_eq_self current
    constructor
    case voteCount =>
      intro fbud mem
      exact CFinalizedBudget.getVoteCount_currentVotes.mpr (current fbud mem)
    all_goals
      intro height
      rw [same]

end BudgetManager

section

attribute [local instance] CompactCrypto.toy

def soloContext : BudgetContext where
  globals := { soloGlobals with isSynced := true, isBlockchainSynced := true }
  man := soloMan

def emptyMan : CMasternodeMan where
  mapMasternodes := ∅
  nBestHeight := 150
  cvLastBlockHashes := fun _ => 1
  keyed := CMasternodeMan.keyed_empty

def unsignedBudgetVote : CFinalizedBudgetVote where
  vin := { prevout := ⟨7, 0⟩ }
  nBudgetHash := 5
  nTime := 10000

def soloBudgetVote : CFinalizedBudgetVote :=
  { unsignedBudgetVote with vchSig := unsignedBudgetVote.getHash.bytes ++ [3] }

def soloBudgets : BudgetManager where
  budgets := VoteMaps.empty.withItems
    (AList.singleton 5 { nBlockStart := 200, vecBudgetPayments := [⟨1, [1], 10⟩] })

-- The masternode votes and leaves, and its vote still decides that block 200 pays the budget.
theorem staleVote_counted :
    let voted := soloBudgets.processMessageInner soloContext (.finalBudgetVote soloBudgetVote)
    let left := { soloContext with man := emptyMan }
    (voted.removeStaleVotesOnFinalBudgets left).getHighestVoteCount 200 = 1 ∧
      (voted.removeStaleVotesOnFinalBudgets left).isBudgetPaymentBlock left 200 ∧
      (voted.removeStaleVotesOnFinalBudgets left).getPayeeAndAmount left 200 = some ([1], 10) ∧
      ∀ collateral, left.man.find collateral = none := by
  refine ⟨by decide +kernel, by decide +kernel, by decide +kernel, fun _ => rfl⟩

end

end Qrax
