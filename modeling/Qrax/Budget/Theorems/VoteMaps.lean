import Qrax.Budget.VoteMaps

open KeyedUpdate KeyOrder

namespace Qrax

open MasternodeVote

namespace VoteMaps

variable {Item V : Type} [MasternodeVote V]

def withSeen (seenVotes : AList fun _ : Uint256 => V) (maps : VoteMaps Item V) : VoteMaps Item V :=
  { maps with seenVotes }

structure Agree (p : Uint256 → Prop) (maps maps' : VoteMaps Item V) : Prop where
  eq : maps' = maps.withSeen maps'.seenVotes
  seen : ∀ nHash, ¬p nHash → (nHash ∈ maps'.seenVotes ↔ nHash ∈ maps.seenVotes)

variable {p : Uint256 → Prop} {maps maps' : VoteMaps Item V}

variable {vote : V} {nHash : Uint256}

theorem mem_addSeen :
    nHash ∈ (maps.addSeen vote).seenVotes ↔ nHash = getHash vote ∨ nHash ∈ maps.seenVotes := by
  rw [addSeen, ← AList.lookup_isSome, ← AList.lookup_isSome, lookup_emplace]
  split
  case isTrue eq => simp [eq]
  case isFalse ne => simp [ne]

theorem agree_addSeen (h : p (getHash vote)) : maps.Agree p (maps.addSeen vote) where
  eq := rfl
  seen nHash other := by
    rw [mem_addSeen]
    exact or_iff_right fun eq => other (eq ▸ h)

theorem Agree.addSeen (agree : Agree p maps maps') (vote : V) : Agree p (maps.addSeen vote) (maps'.addSeen vote) where
  eq := by
    rw [agree.eq]
    rfl
  seen nHash other := by
    rw [mem_addSeen, mem_addSeen, agree.seen nHash other]

variable [VotedItem Item V] {ctx : BudgetContext} {seen : AList fun _ : Uint256 => V}

variable {fromPeer : Bool} {pmn : CMasternode}

theorem withSeen_update :
    (maps.withSeen seen).update ctx fromPeer vote =
      ((maps.update ctx fromPeer vote).1, (maps.update ctx fromPeer vote).2.withSeen seen) := by
  have items : (maps.withSeen seen).items = maps.items := rfl
  unfold update
  rw [items]
  cases maps.items.lookup (getItemHash vote)
  case none =>
    cases fromPeer
    case false => rfl
    case true =>
      cases ctx.globals.isSynced
      case false => rfl
      case true => rfl
  case some item =>
    dsimp only
    cases VotedItem.addOrUpdateVote ctx item vote
    case error => rfl
    case ok => rfl

theorem withSeen_replay {parked : Uint256 × V} :
    (maps.withSeen seen).replay ctx parked = (maps.replay ctx parked).withSeen seen := by
  unfold replay
  rw [withSeen_update]
  have ⟨strError, updated⟩ := maps.update ctx false parked.2
  cases strError
  case none => rfl
  case some _ => rfl

theorem withSeen_checkOrphanVotes :
    (maps.withSeen seen).checkOrphanVotes ctx = (maps.checkOrphanVotes ctx).withSeen seen := by
  unfold checkOrphanVotes
  have fold (l : List (Uint256 × V)) (maps : VoteMaps Item V) :
      l.foldl (replay ctx) (maps.withSeen seen) = (l.foldl (replay ctx) maps).withSeen seen := by
    induction l generalizing maps
    case nil => rfl
    case cons parked l ih => rw [List.foldl_cons, withSeen_replay, ih, List.foldl_cons]
  exact fold _ maps

theorem withSeen_judge [CompactCrypto] :
    (maps.withSeen seen).judge ctx pmn vote =
      ((maps.judge ctx pmn vote).1, (maps.judge ctx pmn vote).2.withSeen seen) := by
  unfold judge
  rw [withSeen_update]
  split
  case isTrue => rfl
  case isFalse =>
    split
    case isTrue => rfl
    case isFalse => rfl

theorem seenVotes_update :
    (maps.update ctx fromPeer vote).2.seenVotes = maps.seenVotes := by
  have eq : (maps.withSeen maps.seenVotes).update ctx fromPeer vote = maps.update ctx fromPeer vote := rfl
  rw [← eq, withSeen_update]
  rfl

theorem seenVotes_judge [CompactCrypto] :
    (maps.judge ctx pmn vote).2.seenVotes = maps.seenVotes := by
  have eq : (maps.withSeen maps.seenVotes).judge ctx pmn vote = maps.judge ctx pmn vote := rfl
  rw [← eq, withSeen_judge]
  rfl

theorem Agree.judge [CompactCrypto] {pmn : CMasternode} (agree : Agree p maps maps') :
    (maps'.judge ctx pmn vote).1 = (maps.judge ctx pmn vote).1 ∧
      Agree p (maps.judge ctx pmn vote).2 (maps'.judge ctx pmn vote).2 := by
  have judged : (maps.withSeen maps'.seenVotes).judge ctx pmn vote = _ := withSeen_judge
  rw [← agree.eq] at judged
  rw [judged]
  exact ⟨rfl, rfl, fun nHash other => by rw [seenVotes_judge]; exact agree.seen nHash other⟩

theorem Agree.processVote [CompactCrypto] (agree : Agree p maps maps') (ctx : BudgetContext)
    (other : ¬p (getHash vote)) :
    (maps'.processVote ctx vote).1 = (maps.processVote ctx vote).1 ∧
      Agree p (maps.processVote ctx vote).2 (maps'.processVote ctx vote).2 := by
  unfold VoteMaps.processVote
  simp only [agree.seen _ other]
  split
  case isTrue => exact ⟨rfl, agree⟩
  case isFalse =>
    split
    case h_1 => exact ⟨rfl, agree⟩
    case h_2 pmn => exact (agree.addSeen vote).judge

theorem mem_seenVotes_processVote [CompactCrypto] (mem : nHash ∈ maps.seenVotes) :
    nHash ∈ (maps.processVote ctx vote).2.seenVotes := by
  unfold VoteMaps.processVote
  split
  case isTrue => exact mem
  case isFalse =>
    split
    case h_1 => exact mem
    case h_2 =>
      rw [seenVotes_judge, mem_addSeen]
      exact .inr mem

section

variable [CompactCrypto] {vote : V}

theorem processVote_seen (ctx : BudgetContext) (seen : getHash vote ∈ maps.seenVotes) :
    maps.processVote ctx vote = (.alreadySeen, maps) := by
  unfold processVote
  rw [if_pos seen]

theorem processVote_unknown (unknown : ctx.man.find (getVin vote).prevout = none) :
    (maps.processVote ctx vote).2 = maps := by
  unfold processVote
  split
  case isTrue => rfl
  case isFalse => rw [unknown]

theorem processVote_forged {pmn : CMasternode} (unseen : getHash vote ∉ maps.seenVotes)
    (known : ctx.man.find (getVin vote).prevout = some pmn)
    (unsigned : ¬checkSignature vote (CPubKey.getID pmn.pubKeyMasternode)) :
    (maps.processVote ctx vote).2 = maps.addSeen vote := by
  unfold processVote judge
  rw [if_neg unseen, known]
  dsimp only
  rw [if_pos (by simpa using unsigned)]

end

variable {item item' : Item}

omit [VotedItem Item V] in
theorem addOrUpdateVote_ok {now : ℤ} {mapVotes mapVotes' : AList fun _ : COutPoint => V}
    (h : addOrUpdateVote now mapVotes vote = .ok mapVotes') : mapVotes' = mapVotes.insert (getVin vote).prevout vote := by
  unfold addOrUpdateVote at h
  dsimp only at h
  split at h
  case h_1 => cases h
  case h_2 => cases h; rfl

theorem votes_of_ok (h : VotedItem.addOrUpdateVote ctx item vote = .ok item') :
    VotedItem.mapVotes item' = (VotedItem.mapVotes item).insert (getVin vote).prevout vote := by
  have votes := VotedItem.votes_addOrUpdateVote ctx item vote
  rw [h] at votes
  exact addOrUpdateVote_ok votes.symm

theorem update_known (found : maps.items.lookup (getItemHash vote) = some item)
    (added : VotedItem.addOrUpdateVote ctx item vote = .ok item') :
    maps.update ctx fromPeer vote = (none, { maps with items := maps.items.insert (getItemHash vote) item' }) := by
  unfold update
  rw [found]
  dsimp only
  rw [added]

theorem of_update_added (updated : (maps.update ctx fromPeer vote).1 = none) :
    ∃ item item', maps.items.lookup (getItemHash vote) = some item ∧
      VotedItem.addOrUpdateVote ctx item vote = .ok item' := by
  unfold update at updated
  split at updated
  case h_1 =>
    split at updated
    case isTrue => cases updated
    case isFalse => split at updated <;> cases updated
  case h_2 item found =>
    split at updated
    case h_1 => cases updated
    case h_2 item' ok => exact ⟨item, item', found, ok⟩

theorem of_judge_added [CompactCrypto] {pmn : CMasternode} (added : (maps.judge ctx pmn vote).1 = .added) :
    (maps.update ctx true vote).1 = none ∧ (maps.judge ctx pmn vote).2 = (maps.update ctx true vote).2 := by
  unfold judge at added ⊢
  split
  case isTrue unsigned => rw [if_pos unsigned] at added; cases added
  case isFalse signed =>
    rw [if_neg signed] at added
    split
    case isTrue disabled => rw [if_pos disabled] at added; cases added
    case isFalse enabled =>
      rw [if_neg enabled] at added
      refine ⟨?_, rfl⟩
      cases h : (maps.update ctx true vote).1
      case none => rfl
      case some _ => simp only [h, VoteOutcome.ofError] at added; cases added

theorem of_processVote_added [CompactCrypto] (added : (maps.processVote ctx vote).1 = .added) :
    ∃ pmn, maps.processVote ctx vote = (maps.addSeen vote).judge ctx pmn vote := by
  unfold processVote at added ⊢
  split
  case isTrue seen => rw [if_pos seen] at added; cases added
  case isFalse unseen =>
    rw [if_neg unseen] at added
    split
    case h_1 unknown => rw [unknown] at added; cases added
    case h_2 pmn _ => exact ⟨pmn, rfl⟩

theorem counted_of_added [CompactCrypto] (added : (maps.processVote ctx vote).1 = .added) :
    ∃ item, (maps.processVote ctx vote).2.items.lookup (getItemHash vote) = some item ∧
      (VotedItem.mapVotes item).lookup (getVin vote).prevout = some vote := by
  have ⟨pmn, judged⟩ := of_processVote_added added
  rw [judged] at added ⊢
  have ⟨updated, same⟩ := of_judge_added added
  have ⟨item, item', found, ok⟩ := of_update_added updated
  rw [same, update_known found ok]
  refine ⟨item', AList.lookup_insert _, ?_⟩
  rw [votes_of_ok ok]
  exact AList.lookup_insert _

end VoteMaps

end Qrax
