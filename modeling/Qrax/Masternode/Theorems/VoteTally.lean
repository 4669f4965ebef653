import Qrax.Masternode.Payments

open KeyedUpdate KeyOrder List

namespace Qrax

inductive PaymentsCall
  | addWinningMasternode (man : CMasternodeMan) (winnerIn : CMasternodePaymentWinner)
  | cleanPaymentList (mnCount : ℕ) (nHeight : ℤ)

namespace CMasternodeBlockPayees

def votesFor (block : CMasternodeBlockPayees) (payee : CScript) : ℕ :=
  (block.vecPayments.find? (·.scriptPubKey = payee)).elim 0 (·.nVotes)

end CMasternodeBlockPayees

namespace MasternodePayments

def votesFor (payments : MasternodePayments) (nHeight : Int32) (payee : CScript) : ℕ :=
  (payments.mapMasternodeBlocks.lookup nHeight).elim 0 (·.votesFor payee)

def isVoteFor (nHeight : Int32) (payee : CScript) (winner : CMasternodePaymentWinner) : Bool :=
  winner.nBlockHeight = nHeight ∧ winner.payee = payee

def countFor (payments : MasternodePayments) (nHeight : Int32) (payee : CScript) : ℕ :=
  payments.mapMasternodePayeeVotes.entries.countP fun e => isVoteFor nHeight payee e.2

def call [CompactCrypto] (payments : MasternodePayments) : PaymentsCall → MasternodePayments
  | .addWinningMasternode man winnerIn => (payments.addWinningMasternode man winnerIn).getD payments
  | .cleanPaymentList mnCount nHeight => payments.cleanPaymentList mnCount nHeight

structure Tallied (payments : MasternodePayments) : Prop where
  tally : ∀ nHeight payee, payments.votesFor nHeight payee = payments.countFor nHeight payee
  positive : ∀ nHeight block, payments.mapMasternodeBlocks.lookup nHeight = some block →
    ∀ payee ∈ block.vecPayments, payee.nVotes ≠ 0
  distinct : ∀ nHeight block, payments.mapMasternodeBlocks.lookup nHeight = some block →
    (block.vecPayments.map (·.scriptPubKey)).Nodup

end MasternodePayments

variable {payee : CScript} {payees : List CMasternodePayee} {n : ℕ}

namespace CMasternodeBlockPayees

theorem find?_addVotes (payee' : CScript) :
    ((addVotes payee n payees).find? (·.scriptPubKey = payee')).elim 0 (·.nVotes) =
      (payees.find? (·.scriptPubKey = payee')).elim 0 (·.nVotes) + if payee = payee' then n else 0 := by
  induction payees
  case nil =>
    by_cases same : payee = payee'
    case pos => simp [addVotes, same]
    case neg => simp [addVotes, same]
  case cons p payees ih =>
    unfold addVotes
    by_cases own : p.scriptPubKey = payee
    case pos =>
      rw [if_pos own]
      by_cases same : payee = payee'
      case pos => simp [own, same]
      case neg => simp [own, same]
    case neg =>
      rw [if_neg own]
      by_cases other : p.scriptPubKey = payee'
      case pos =>
        have differ : payee ≠ payee' := fun eq => own (other.trans eq.symm)
        simp [other, differ]
      case neg => simpa [other] using ih

theorem scripts_addVotes : (addVotes payee n payees).map (·.scriptPubKey) =
    if payee ∈ payees.map (·.scriptPubKey) then payees.map (·.scriptPubKey)
    else payees.map (·.scriptPubKey) ++ [payee] := by
  induction payees
  case nil => simp [addVotes]
  case cons p payees ih =>
    unfold addVotes
    by_cases own : p.scriptPubKey = payee
    case pos => simp [own]
    case neg =>
      rw [if_neg own, map_cons, ih, map_cons]
      split
      case isTrue mem => rw [if_pos (mem_cons_of_mem _ mem)]
      case isFalse out => rw [if_neg (not_mem_cons_of_ne_of_not_mem (Ne.symm own) out), cons_append]

theorem nodup_addVotes (nodup : (payees.map (·.scriptPubKey)).Nodup) :
    ((addVotes payee n payees).map (·.scriptPubKey)).Nodup := by
  rw [scripts_addVotes]
  split
  case isTrue => exact nodup
  case isFalse out =>
    rw [← concat_eq_append]
    exact nodup.concat out

theorem positive_addVotes (positive : ∀ p ∈ payees, p.nVotes ≠ 0) (pos : n ≠ 0) :
    ∀ p ∈ addVotes payee n payees, p.nVotes ≠ 0 := by
  induction payees
  case nil => simpa [addVotes] using pos
  case cons p payees ih =>
    obtain ⟨here, positive⟩ := forall_mem_cons.mp positive
    unfold addVotes
    split
    case isTrue => exact forall_mem_cons.mpr ⟨by simp [here], positive⟩
    case isFalse => exact forall_mem_cons.mpr ⟨here, ih positive⟩

end CMasternodeBlockPayees

namespace MasternodePayments

variable {payments : MasternodePayments}

theorem blockAt_votesFor (nHeight : Int32) (payee : CScript) :
    (payments.blockAt nHeight).votesFor payee = payments.votesFor nHeight payee := by
  unfold blockAt votesFor
  cases payments.mapMasternodeBlocks.lookup nHeight
  case none => rfl
  case some b => rfl

section

variable [CompactCrypto] {winner : CMasternodePaymentWinner}

theorem votesFor_countVote (nHeight : Int32) (payee : CScript) :
    (payments.countVote winner).votesFor nHeight payee =
      payments.votesFor nHeight payee + if isVoteFor nHeight payee winner then 1 else 0 := by
  rw [votesFor, countVote, lookup_insert]
  split
  case isTrue same =>
    rw [Option.elim_some, same, ← blockAt_votesFor]
    refine (CMasternodeBlockPayees.find?_addVotes payee).trans ?_
    simp [isVoteFor, CMasternodeBlockPayees.votesFor]
  case isFalse other =>
    have differ : isVoteFor nHeight payee winner = false := by simp [isVoteFor, Ne.symm other]
    rw [differ]
    rfl

theorem countFor_countVote (new : winner.getHash ∉ payments.mapMasternodePayeeVotes) (nHeight : Int32)
    (payee : CScript) :
    (payments.countVote winner).countFor nHeight payee =
      payments.countFor nHeight payee + if isVoteFor nHeight payee winner then 1 else 0 := by
  rw [countFor, countVote, AList.entries_insert_of_notMem new, countP_cons]
  rfl

theorem Tallied.countVote (tallied : payments.Tallied) (new : winner.getHash ∉ payments.mapMasternodePayeeVotes) :
    (payments.countVote winner).Tallied := by
  have kept (nHeight : Int32) (block : CMasternodeBlockPayees)
      (found : (payments.countVote winner).mapMasternodeBlocks.lookup nHeight = some block) :
      (nHeight = winner.nBlockHeight ∧ block = (payments.blockAt nHeight).addPayee winner.payee 1) ∨
        payments.mapMasternodeBlocks.lookup nHeight = some block := by
    rw [MasternodePayments.countVote, lookup_insert] at found
    split at found
    case isTrue same =>
      cases found
      exact .inl ⟨same, by rw [same]⟩
    case isFalse => exact .inr found
  have before {P : List CMasternodePayee → Prop} (empty : P [])
      (all : ∀ nHeight block, payments.mapMasternodeBlocks.lookup nHeight = some block → P block.vecPayments)
      (nHeight : Int32) : P (payments.blockAt nHeight).vecPayments := by
    unfold blockAt
    cases found : payments.mapMasternodeBlocks.lookup nHeight
    case none => exact empty
    case some block => exact all nHeight block found
  constructor
  case tally =>
    intro nHeight payee
    rw [votesFor_countVote, countFor_countVote new, tallied.tally]
  case positive =>
    intro nHeight block found
    rcases kept nHeight block found with ⟨_, rfl⟩ | found
    case inl =>
      apply CMasternodeBlockPayees.positive_addVotes _ one_ne_zero
      exact before (P := fun payees => ∀ p ∈ payees, p.nVotes ≠ 0) (by simp) tallied.positive nHeight
    case inr => exact tallied.positive nHeight block found
  case distinct =>
    intro nHeight block found
    rcases kept nHeight block found with ⟨_, rfl⟩ | found
    case inl =>
      apply CMasternodeBlockPayees.nodup_addVotes
      exact before (P := fun payees => (payees.map (·.scriptPubKey)).Nodup) nodup_nil tallied.distinct nHeight
    case inr => exact tallied.distinct nHeight block found

end

variable {mnCount : ℕ} {nHeight : ℤ}

def isOldAt (mnCount : ℕ) (nHeight : ℤ) (nBlockHeight : Int32) : Bool :=
  nHeight - nBlockHeight.toInt > max (5 * mnCount / 4 : ℕ) 1000

theorem mem_oldVotes {e : (_ : Uint256) × CMasternodePaymentWinner} :
    e ∈ payments.oldVotes mnCount nHeight ↔
      e ∈ payments.mapMasternodePayeeVotes.entries ∧ isOldAt mnCount nHeight e.2.nBlockHeight := by
  rw [oldVotes, mem_filter]
  rfl

theorem mem_oldHashes {e : (_ : Uint256) × CMasternodePaymentWinner}
    (mem : e ∈ payments.mapMasternodePayeeVotes.entries) :
    e.1 ∈ (payments.oldVotes mnCount nHeight).map (·.1) ↔ isOldAt mnCount nHeight e.2.nBlockHeight := by
  rw [mem_map]
  constructor
  case mp =>
    rintro ⟨e', mem', same⟩
    obtain ⟨mem', old⟩ := mem_oldVotes.mp mem'
    rwa [payments.mapMasternodePayeeVotes.nodupKeys.eq_of_fst_eq mem mem' same.symm]
  case mpr => exact fun old => ⟨e, mem_oldVotes.mpr ⟨mem, old⟩, rfl⟩

theorem countFor_clean (h : Int32) (payee : CScript) :
    (payments.cleanPaymentList mnCount nHeight).countFor h payee =
      if isOldAt mnCount nHeight h then 0 else payments.countFor h payee := by
  rw [countFor, cleanPaymentList, (perm_foldl_erase _ _).countP_eq, countP_filter]
  split
  case isTrue old =>
    rw [countP_eq_zero]
    intro e mem vote
    rw [Bool.and_eq_true, decide_eq_true_eq, mem_oldHashes mem] at vote
    have same : e.2.nBlockHeight = h := by simpa [isVoteFor] using And.left (of_decide_eq_true vote.1)
    exact vote.2 (same ▸ old)
  case isFalse recent =>
    apply countP_congr
    intro e mem
    rw [Bool.and_eq_true, decide_eq_true_eq, mem_oldHashes mem]
    refine and_iff_left_of_imp fun vote => ?_
    have same : e.2.nBlockHeight = h := And.left (of_decide_eq_true vote)
    rwa [same]

theorem lookup_clean (h : Int32) :
    (payments.cleanPaymentList mnCount nHeight).mapMasternodeBlocks.lookup h =
      if h ∈ (payments.oldVotes mnCount nHeight).map (·.2.nBlockHeight) then none
      else payments.mapMasternodeBlocks.lookup h := by
  rw [cleanPaymentList, lookup_foldl_erase]

theorem countFor_of_kept {h : Int32} (kept : h ∉ (payments.oldVotes mnCount nHeight).map (·.2.nBlockHeight))
    (payee : CScript) :
    (payments.cleanPaymentList mnCount nHeight).countFor h payee = payments.countFor h payee := by
  rw [countFor_clean]
  split
  case isFalse => rfl
  case isTrue old =>
    rw [eq_comm, countFor, countP_eq_zero]
    intro e mem vote
    have same : e.2.nBlockHeight = h := And.left (of_decide_eq_true vote)
    exact kept (mem_map.mpr ⟨e, mem_oldVotes.mpr ⟨mem, same ▸ old⟩, same⟩)

theorem Tallied.clean (tallied : payments.Tallied) : (payments.cleanPaymentList mnCount nHeight).Tallied := by
  have kept (h : Int32) (block : CMasternodeBlockPayees)
      (found : (payments.cleanPaymentList mnCount nHeight).mapMasternodeBlocks.lookup h = some block) :
      payments.mapMasternodeBlocks.lookup h = some block := by
    rw [lookup_clean] at found
    split at found
    case isTrue => cases found
    case isFalse => exact found
  constructor
  case tally =>
    intro h payee
    by_cases erased : h ∈ (payments.oldVotes mnCount nHeight).map (·.2.nBlockHeight)
    case pos =>
      obtain ⟨e, mem, same⟩ := mem_map.mp erased
      have old : isOldAt mnCount nHeight h := same ▸ (mem_oldVotes.mp mem).2
      rw [votesFor, lookup_clean, if_pos erased, countFor_clean, if_pos old]
      rfl
    case neg =>
      rw [votesFor, lookup_clean, if_neg erased, countFor_of_kept erased, ← tallied.tally]
      rfl
  case positive => exact fun h block found => tallied.positive h block (kept h block found)
  case distinct => exact fun h block found => tallied.distinct h block (kept h block found)

theorem Tallied.empty : Tallied {} where
  tally _ _ := rfl
  positive _ _ found := by cases found
  distinct _ _ found := by cases found

variable [CompactCrypto]

theorem Tallied.call (tallied : payments.Tallied) (c : PaymentsCall) : (payments.call c).Tallied := by
  cases c
  case cleanPaymentList mnCount nHeight => exact tallied.clean
  case addWinningMasternode man winnerIn =>
    unfold MasternodePayments.call addWinningMasternode
    dsimp only
    split
    case isTrue => exact tallied
    case isFalse =>
      split
      case isTrue => exact tallied
      case isFalse new => exact tallied.countVote new

theorem tallied_calls (calls : List PaymentsCall) :
    (calls.foldl MasternodePayments.call ({} : MasternodePayments)).Tallied :=
  List.foldlRecOn calls MasternodePayments.call Tallied.empty fun _ tallied c _ => tallied.call c

end MasternodePayments

end Qrax
