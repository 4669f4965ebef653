import Qrax.Lib.Tally
import Qrax.Budget.Theorems.VoteMaps

open KeyedUpdate KeyOrder Fallible
open AList (lookup_eq_none lookup_insert_ne lookup_isSome)

namespace Qrax

open MasternodeVote VotedItem

namespace VoteMaps

variable {Item V : Type} [MasternodeVote V]

-- A masternode has one vote on an item, replaced only by one at least an hour younger.
def poll (V : Type) [MasternodeVote V] : Tally Uint256 (Uint256 × COutPoint) V where
  id := getHash
  slot vote := (getItemHash vote, (getVin vote).prevout)
  takes old vote := ∀ v ∈ old, BUDGET_VOTE_UPDATE_MIN ≤ getTime vote - getTime v

def InTime (ctx : BudgetContext) (vote : V) : Prop :=
  getTime vote ≤ ctx.globals.getTime + 60 * 60

instance {ctx : BudgetContext} {vote : V} : Decidable (InTime ctx vote) :=
  inferInstanceAs (Decidable (_ ≤ _))

theorem voteError_eq_none_iff {ctx : BudgetContext} {old : Option V} {vote : V} (inTime : InTime ctx vote) :
    voteError ctx.globals.getTime old vote = none ↔ (poll V).takes old vote := by
  have ahead : ¬getTime vote > ctx.globals.getTime + 60 * 60 := not_lt.mpr inTime
  have positive : 0 ≤ BUDGET_VOTE_UPDATE_MIN := by decide
  unfold voteError poll
  cases old
  case none =>
    simp only [ahead, if_false, true_iff]
    exact fun _ mem => nomatch mem
  case some old =>
    simp only [ahead, if_false, Option.mem_some_iff, forall_eq']
    split
    case isTrue older =>
      simp only [reduceCtorEq, false_iff]
      omega
    case isFalse =>
      split
      case isTrue soon => simpa using soon
      case isFalse => simp only [true_iff]; omega

variable [VotedItem Item V]

def voteOf (maps : VoteMaps Item V) (slot : Uint256 × COutPoint) : Option V :=
  match maps.items.lookup slot.1 with
  | some item => (VotedItem.mapVotes item).lookup slot.2
  | none => (maps.orphanVotes.lookup slot.1).filter fun vote => (getVin vote).prevout = slot.2

def polls (maps : VoteMaps Item V) : Tally.State Uint256 (Uint256 × COutPoint) V where
  seen := { nHash | nHash ∈ maps.seenVotes }
  held := maps.voteOf

def Tidy (maps : VoteMaps Item V) : Prop :=
  ∀ nHash ∈ maps.items, maps.orphanVotes.lookup nHash = none

variable {maps : VoteMaps Item V} {nHash : Uint256} {mn : COutPoint}

theorem voteOf_known {item : Item} (found : maps.items.lookup nHash = some item) :
    maps.voteOf (nHash, mn) = (mapVotes item).lookup mn := by
  unfold voteOf
  rw [found]

theorem voteOf_unknown (absent : maps.items.lookup nHash = none) :
    maps.voteOf (nHash, mn) = (maps.orphanVotes.lookup nHash).filter fun vote => (getVin vote).prevout = mn := by
  unfold voteOf
  rw [absent]

theorem voteOf_congr {maps' : VoteMaps Item V} (items : maps'.items.lookup nHash = maps.items.lookup nHash)
    (orphans : maps'.orphanVotes.lookup nHash = maps.orphanVotes.lookup nHash) :
    maps'.voteOf (nHash, mn) = maps.voteOf (nHash, mn) := by
  unfold voteOf
  rw [items, orphans]

omit [VotedItem Item V] in
theorem eq_update_slot {votes votes' : Uint256 × COutPoint → Option V} {vote : V}
    (here : ∀ mn, votes' (getItemHash vote, mn) =
      if mn = (getVin vote).prevout then some vote else votes (getItemHash vote, mn))
    (others : ∀ nHash mn, nHash ≠ getItemHash vote → votes' (nHash, mn) = votes (nHash, mn)) :
    votes' = Function.update votes ((poll V).slot vote) (some vote) := by
  funext ⟨nHash, mn⟩
  by_cases same : nHash = getItemHash vote
  case neg =>
    rw [Function.update_of_ne fun eq => same (congrArg Prod.fst eq)]
    exact others nHash mn same
  case pos =>
    subst same
    rw [here]
    split
    case isTrue same =>
      subst same
      exact (Function.update_self ((poll V).slot vote) (some vote) votes).symm
    case isFalse ne => rw [Function.update_of_ne fun eq => ne (congrArg Prod.snd eq)]

variable {vote : V}

theorem voteOf_counted {item item' : Item} (found : maps.items.lookup (getItemHash vote) = some item)
    (votes : mapVotes item' = (mapVotes item).insert (getVin vote).prevout vote) :
    ({ maps with items := maps.items.insert (getItemHash vote) item' } : VoteMaps Item V).voteOf =
      Function.update maps.voteOf ((poll V).slot vote) (some vote) := by
  apply eq_update_slot
  case here =>
    intro mn
    rw [voteOf_known (AList.lookup_insert _), votes, lookup_insert, voteOf_known found]
  case others =>
    intro nHash mn ne
    exact voteOf_congr (lookup_insert_ne ne) rfl

theorem voteOf_park (absent : maps.items.lookup (getItemHash vote) = none)
    (free : maps.orphanVotes.lookup (getItemHash vote) = none) :
    (maps.park vote).voteOf = Function.update maps.voteOf ((poll V).slot vote) (some vote) := by
  apply eq_update_slot
  case here =>
    intro mn
    have absent' : (maps.park vote).items.lookup (getItemHash vote) = none := absent
    have parked : (maps.park vote).orphanVotes.lookup (getItemHash vote) = some vote := AList.lookup_insert _
    rw [voteOf_unknown absent', voteOf_unknown absent, parked, free]
    simp only [Option.filter_some, decide_eq_true_eq, Option.filter_none]
    exact if_congr eq_comm rfl rfl
  case others =>
    intro nHash mn ne
    exact voteOf_congr rfl (lookup_insert_ne ne)

structure IsCast [CompactCrypto] (ctx : BudgetContext) (vote : V) : Prop where
  byMasternode : ∃ pmn, ctx.man.find (getVin vote).prevout = some pmn ∧
    checkSignature vote (CPubKey.getID pmn.pubKeyMasternode) ∧ pmn.isEnabled ctx.globals
  inTime : InTime ctx vote

def HasPlace (ctx : BudgetContext) (maps : VoteMaps Item V) (vote : V) : Prop :=
  getItemHash vote ∈ maps.items ∨ ctx.globals.isSynced ∧ maps.orphanVotes.lookup (getItemHash vote) = none

variable {ctx : BudgetContext}

theorem IsCast.processVote [CompactCrypto] (cast : IsCast ctx vote) (unseen : getHash vote ∉ maps.seenVotes) :
    (maps.processVote ctx vote).2 = ((maps.addSeen vote).update ctx true vote).2 := by
  have ⟨pmn, known, signed, enabled⟩ := cast.byMasternode
  unfold VoteMaps.processVote judge
  rw [if_neg unseen, known]
  dsimp only
  rw [if_neg (by simpa using signed), if_neg (by simpa using enabled)]

theorem isOk_addOrUpdateVote {item : Item} (inTime : InTime ctx vote) :
    (VotedItem.addOrUpdateVote ctx item vote).isOk ↔
      (poll V).takes ((mapVotes item).lookup (getVin vote).prevout) vote := by
  rw [← isOk_map, votes_addOrUpdateVote, ← voteError_eq_none_iff inTime]
  unfold Qrax.addOrUpdateVote
  dsimp only
  split
  case h_1 strError refused =>
    rw [refused]
    simp [Except.isOk, Except.toBool]
  case h_2 fine =>
    rw [fine]
    simp [Except.isOk, Except.toBool]

variable {fromPeer : Bool} {item : Item}

theorem update_refused {strError : String} (found : maps.items.lookup (getItemHash vote) = some item)
    (refused : VotedItem.addOrUpdateVote ctx item vote = .error strError) :
    maps.update ctx fromPeer vote = (some strError, maps) := by
  unfold update
  rw [found]
  dsimp only
  rw [refused]

theorem update_parked (absent : maps.items.lookup (getItemHash vote) = none) (synced : ctx.globals.isSynced) :
    maps.update ctx true vote = (some (notFound vote), maps.park vote) := by
  unfold update
  rw [absent]
  simp [synced]

theorem update_notFound (absent : maps.items.lookup (getItemHash vote) = none) :
    maps.update ctx false vote = (some (notFound vote), maps) := by
  unfold update
  rw [absent]
  rfl

omit [VotedItem Item V] in
theorem mem_items_of_insert {item item' : Item} (found : maps.items.lookup (getItemHash vote) = some item) :
    nHash ∈ maps.items.insert (getItemHash vote) item' ↔ nHash ∈ maps.items := by
  rw [AList.mem_insert]
  refine or_iff_right_of_imp fun eq => ?_
  rw [eq, ← lookup_isSome, found]
  rfl

structure Updates (maps maps' : VoteMaps Item V) (vote : V) : Prop where
  taken : (poll V).takes (maps.voteOf ((poll V).slot vote)) vote →
    maps'.voteOf = Function.update maps.voteOf ((poll V).slot vote) (some vote)
  refused : ¬(poll V).takes (maps.voteOf ((poll V).slot vote)) vote → maps'.voteOf = maps.voteOf
  items : ∀ nHash, nHash ∈ maps'.items ↔ nHash ∈ maps.items
  tidy : maps.Tidy → maps'.Tidy

theorem update_unknown (absent : maps.items.lookup (getItemHash vote) = none) (synced : ctx.globals.isSynced)
    (free : maps.orphanVotes.lookup (getItemHash vote) = none) : Updates maps (maps.update ctx true vote).2 vote := by
  rw [update_parked absent synced]
  constructor
  case taken => exact fun _ => voteOf_park absent free
  case refused =>
    intro refused
    refine absurd (fun v mem => ?_) refused
    have none : maps.voteOf ((poll V).slot vote) = none := by
      rw [poll, voteOf_unknown absent, free]
      rfl
    rw [none] at mem
    cases mem
  case items => exact fun _ => Iff.rfl
  case tidy =>
    intro tidy nHash mem
    have ne : nHash ≠ getItemHash vote := fun eq => lookup_eq_none.mp absent (eq ▸ mem)
    exact (lookup_insert_ne ne).trans (tidy nHash mem)

theorem update_of_known {item : Item} (inTime : InTime ctx vote)
    (found : maps.items.lookup (getItemHash vote) = some item) : Updates maps (maps.update ctx true vote).2 vote := by
  have slot : (poll V).slot vote = (getItemHash vote, (getVin vote).prevout) := rfl
  have takes : (VotedItem.addOrUpdateVote ctx item vote).isOk ↔ _ := isOk_addOrUpdateVote inTime
  rw [← voteOf_known found, ← slot] at takes
  cases added : VotedItem.addOrUpdateVote ctx item vote
  case error strError =>
    rw [added] at takes
    rw [update_refused found added]
    exact ⟨fun taken => (nomatch takes.mpr taken), fun _ => rfl, fun _ => Iff.rfl, id⟩
  case ok item' =>
    rw [added] at takes
    rw [update_known found added]
    constructor
    case taken => exact fun _ => voteOf_counted found (votes_of_ok added)
    case refused => exact fun refused => absurd (takes.mp rfl) refused
    case items => exact fun _ => mem_items_of_insert found
    case tidy => exact fun tidy nHash mem => tidy nHash ((mem_items_of_insert found).mp mem)

theorem HasPlace.update (inTime : InTime ctx vote) (place : HasPlace ctx maps vote) :
    Updates maps (maps.update ctx true vote).2 vote := by
  cases found : maps.items.lookup (getItemHash vote)
  case some item => exact update_of_known inTime found
  case none =>
    have ⟨synced, free⟩ := place.resolve_left (lookup_eq_none.mp found)
    exact update_unknown found synced free

theorem IsCast.polls_processVote [CompactCrypto] (cast : IsCast ctx vote) (place : HasPlace ctx maps vote) :
    (maps.processVote ctx vote).2.polls = (poll V).offer maps.polls vote ∧
      (∀ nHash, nHash ∈ (maps.processVote ctx vote).2.items ↔ nHash ∈ maps.items) ∧
      (maps.Tidy → (maps.processVote ctx vote).2.Tidy) := by
  by_cases seen : getHash vote ∈ maps.seenVotes
  case pos =>
    rw [processVote_seen ctx seen]
    refine ⟨?_, fun _ => Iff.rfl, id⟩
    apply Tally.State.ext
    case seen => exact (Set.insert_eq_of_mem seen).symm
    case held => exact (Tally.held_offer_of_not fun accepts => accepts.1 seen).symm
  case neg =>
    rw [cast.processVote seen]
    have place' : HasPlace ctx (maps.addSeen vote) vote := place
    have updates := place'.update cast.inTime
    refine ⟨?_, updates.items, updates.tidy⟩
    apply Tally.State.ext
    case seen =>
      ext nHash
      rw [polls, seenVotes_update]
      exact mem_addSeen
    case held =>
      by_cases takes : (poll V).takes (maps.voteOf ((poll V).slot vote)) vote
      case pos =>
        have accepts : (poll V).Accepts maps.polls vote := ⟨seen, takes⟩
        rw [accepts.held_offer]
        exact updates.taken takes
      case neg =>
        have refuses : ¬(poll V).Accepts maps.polls vote := fun accepts => takes accepts.2
        rw [Tally.held_offer_of_not refuses]
        exact updates.refused takes

section

variable {item item' : Item}

def addItem (maps : VoteMaps Item V) (nHash : Uint256) (item : Item) : VoteMaps Item V :=
  { maps with items := maps.items.insert nHash item }

theorem replay_unknown (absent : maps.items.lookup nHash = none) (keyed : getItemHash vote = nHash) :
    maps.replay ctx (nHash, vote) = maps := by
  subst keyed
  unfold replay
  rw [update_notFound absent]

theorem replay_known (found : maps.items.lookup nHash = some item) (keyed : getItemHash vote = nHash)
    (added : VotedItem.addOrUpdateVote ctx item vote = .ok item') :
    maps.replay ctx (nHash, vote) = (maps.addItem nHash item').unpark nHash := by
  subst keyed
  unfold replay
  rw [update_known found added]
  rfl

theorem replay_again (inTime : InTime ctx vote) (found : maps.items.lookup nHash = some item)
    (keyed : getItemHash vote = nHash) (counted : (mapVotes item).lookup (getVin vote).prevout = some vote) :
    maps.replay ctx (nHash, vote) = maps := by
  subst keyed
  have refused : ¬(VotedItem.addOrUpdateVote ctx item vote).isOk := by
    rw [isOk_addOrUpdateVote inTime, counted]
    intro takes
    have soon := takes vote rfl
    rw [Int.sub_self] at soon
    exact absurd soon (by decide)
  cases added : VotedItem.addOrUpdateVote ctx item vote
  case ok item' => exact absurd (added ▸ rfl) refused
  case error strError =>
    unfold replay
    rw [update_refused found added]

structure Arrived (maps maps' : VoteMaps Item V) (nHash : Uint256) (item : Item) : Prop where
  found : maps'.items.lookup nHash = some item
  items : ∀ h, h ≠ nHash → maps'.items.lookup h = maps.items.lookup h
  votes : ∀ mn, (VotedItem.mapVotes item).lookup mn =
    (maps.orphanVotes.lookup nHash).filter fun vote => (getVin vote).prevout = mn
  orphan : maps'.orphanVotes.lookup nHash = none
  orphans : ∀ h, h ≠ nHash → maps'.orphanVotes.lookup h = maps.orphanVotes.lookup h
  seen : maps'.seenVotes = maps.seenVotes

variable {maps' : VoteMaps Item V}

section

variable (arrived : Arrived maps maps' nHash item)

include arrived

theorem Arrived.polls_eq (new : nHash ∉ maps.items) :
    maps'.polls = maps.polls := by
  apply Tally.State.ext
  case seen => rw [polls, polls, arrived.seen]
  case held =>
    funext ⟨h, mn⟩
    by_cases eq : h = nHash
    case pos =>
      rw [eq]
      exact (voteOf_known arrived.found).trans
        ((arrived.votes mn).trans (voteOf_unknown (lookup_eq_none.mpr new)).symm)
    case neg => exact voteOf_congr (arrived.items h eq) (arrived.orphans h eq)

theorem Arrived.mem_items {h : Uint256} :
    h ∈ maps'.items ↔ h = nHash ∨ h ∈ maps.items := by
  by_cases eq : h = nHash
  case pos =>
    rw [eq, ← lookup_isSome, arrived.found]
    simp
  case neg => rw [← lookup_isSome, arrived.items h eq, lookup_isSome, or_iff_right eq]

theorem Arrived.tidy (tidy : maps.Tidy) : maps'.Tidy := by
  intro h mem
  by_cases eq : h = nHash
  case pos => rw [eq, arrived.orphan]
  case neg =>
    rw [arrived.orphans h eq]
    exact tidy h ((arrived.mem_items.mp mem).resolve_left eq)

end

theorem Tidy.replay_other {e : Uint256 × V} (tidy : maps.Tidy) (mem : e ∈ inOrder uint256Le maps.orphanVotes)
    (items : maps'.items.lookup e.1 = maps.items.lookup e.1) : maps'.replay ctx e = maps' := by
  have found := mem_inOrder.mp mem
  have unknown : maps.items.lookup e.1 = none := by
    rw [lookup_eq_none]
    intro known
    cases (tidy e.1 known).symm.trans found
  exact replay_unknown (items.trans unknown) (maps.keyed e.1 e.2 found)

section

variable (tidy : maps.Tidy) (fresh : VotedItem.mapVotes item = ∅)

include tidy fresh

theorem arrived_alone (free : maps.orphanVotes.lookup nHash = none) :
    Arrived maps ((maps.addItem nHash item).checkOrphanVotes ctx) nHash item := by
  have walked : (maps.addItem nHash item).checkOrphanVotes ctx = maps.addItem nHash item := by
    apply foldl_stays
    intro e mem
    have ne : e.1 ≠ nHash := by
      intro eq
      cases free.symm.trans (eq ▸ mem_inOrder.mp mem)
    exact tidy.replay_other mem (lookup_insert_ne ne)
  rw [walked]
  refine ⟨AList.lookup_insert _, fun h ne => lookup_insert_ne ne, ?_, free, fun _ _ => rfl, rfl⟩
  intro mn
  rw [fresh, free]
  rfl

theorem arrived_awaited (parked : maps.orphanVotes.lookup nHash = some vote) (inTime : InTime ctx vote) :
    ∃ item', Arrived maps ((maps.addItem nHash item).checkOrphanVotes ctx) nHash item' := by
  have keyed : getItemHash vote = nHash := maps.keyed nHash vote parked
  have taken : (VotedItem.addOrUpdateVote ctx item vote).isOk := by
    rw [isOk_addOrUpdateVote inTime, fresh]
    exact fun _ mem => nomatch mem
  have ⟨item', added⟩ := isOk_iff.mp taken
  have votes (mn : COutPoint) : (VotedItem.mapVotes item').lookup mn =
      if mn = (getVin vote).prevout then some vote else none := by
    rw [votes_of_ok added, fresh, lookup_insert]
    rfl
  have only {e : Uint256 × V} (mem : e ∈ inOrder uint256Le maps.orphanVotes) (eq : e.1 = nHash) : e = (nHash, vote) := by
    have found := mem_inOrder.mp mem
    rw [eq, parked] at found
    cases found
    rw [← eq]
  have walked : (maps.addItem nHash item).checkOrphanVotes ctx =
      ((maps.addItem nHash item).addItem nHash item').unpark nHash := by
    apply foldl_reaches (mem_inOrder.mpr parked) (replay_known (AList.lookup_insert _) keyed added)
    case others =>
      intro e mem ne
      exact tidy.replay_other mem (lookup_insert_ne fun eq => ne (only mem eq))
    case stays =>
      intro e mem
      by_cases eq : e.1 = nHash
      case pos =>
        rw [only mem eq]
        refine replay_again inTime (AList.lookup_insert _) keyed ?_
        rw [votes, if_pos rfl]
      case neg => exact tidy.replay_other mem ((lookup_insert_ne eq).trans (lookup_insert_ne eq))
  rw [walked]
  refine ⟨item', AList.lookup_insert _, ?_, ?_, AList.lookup_erase .., fun h ne => AList.lookup_erase_ne ne, rfl⟩
  case refine_1 => exact fun h ne => (lookup_insert_ne ne).trans (lookup_insert_ne ne)
  case refine_2 =>
    intro mn
    rw [votes, parked, Option.filter_some]
    simp only [decide_eq_true_eq]
    exact if_congr eq_comm rfl rfl

theorem arrived_checkOrphanVotes (inTime : ∀ vote, maps.orphanVotes.lookup nHash = some vote → InTime ctx vote) :
    ∃ item', Arrived maps ((maps.addItem nHash item).checkOrphanVotes ctx) nHash item' := by
  cases parked : maps.orphanVotes.lookup nHash
  case none => exact ⟨item, arrived_alone tidy fresh parked⟩
  case some vote => exact arrived_awaited tidy fresh parked (inTime vote parked)

end

end

end VoteMaps

end Qrax
