import Qrax.Masternode.Payments

open KeyedUpdate List

namespace Qrax

open MasternodePayments CMasternodeBlockPayees

structure Arrival where
  globals : MasternodeGlobals
  man : CMasternodeMan
  pfromVersion : ℤ
  winner : CMasternodePaymentWinner

namespace Arrival

def masternode (a : Arrival) : COutPoint :=
  a.winner.vinMasternode.prevout

variable [CompactCrypto]

def process (a : Arrival) (s : MasternodePayments) : WinnerOutcome × MasternodePayments :=
  s.processWinner a.globals a.man a.pfromVersion a.winner

def passes (a : Arrival) (s : MasternodePayments) : Bool :=
  !(!a.globals.isBlockchainSynced || a.globals.fLiteMode || a.pfromVersion < activeProtocol a.globals) &&
    a.winner.getHash ∉ s.mapMasternodePayeeVotes && MasternodePayments.isInRange a.globals a.man a.winner &&
    a.winner.nMessVersion = MESS_VER_HASH && (a.winner.isValid a.globals a.man).isOk

def records (a : Arrival) (s : MasternodePayments) : Bool :=
  a.passes s && s.canVote a.masternode a.winner.nBlockHeight

def isSigned (a : Arrival) : Bool :=
  MasternodePayments.isSignedBy a.man a.winner

variable {a : Arrival} {s : MasternodePayments}

theorem records_iff :
    a.records s ↔ ¬(!a.globals.isBlockchainSynced || a.globals.fLiteMode || a.pfromVersion < activeProtocol a.globals) ∧
      a.winner.getHash ∉ s.mapMasternodePayeeVotes ∧ isInRange a.globals a.man a.winner ∧
      a.winner.nMessVersion = MESS_VER_HASH ∧ a.winner.isValid a.globals a.man = .ok () ∧
      s.canVote a.masternode a.winner.nBlockHeight := by
  have valid : (a.winner.isValid a.globals a.man).isOk ↔ a.winner.isValid a.globals a.man = .ok () :=
    Fallible.isOk_iff.trans Fallible.exists_unit
  simp only [records, passes, Bool.and_eq_true, decide_eq_true_eq, Bool.not_eq_true', Bool.not_eq_true, valid,
    and_assoc]

theorem process_unrecorded (h : ¬a.records s) : (a.process s).2 = s ∧ (a.process s).1 ≠ .added := by
  rw [records_iff] at h
  unfold process processWinner
  split
  case isTrue => exact ⟨rfl, nofun⟩
  case isFalse listens =>
    split
    case isTrue => exact ⟨rfl, nofun⟩
    case isFalse unseen =>
      split
      case isTrue => exact ⟨rfl, nofun⟩
      case isFalse inRange =>
        split
        case isTrue => exact ⟨rfl, nofun⟩
        case isFalse version =>
          split
          case h_1 => exact ⟨rfl, nofun⟩
          case h_2 valid =>
            split
            case isTrue => exact ⟨rfl, nofun⟩
            case isFalse canVote =>
              rw [Bool.not_eq_true', Bool.not_eq_false] at inRange canVote
              exact absurd ⟨listens, unseen, inRange, not_not.mp version, valid, canVote⟩ h

theorem process_recorded (h : a.records s) :
    a.process s = if a.isSigned then (.added, (s.recordVote a.masternode a.winner.nBlockHeight).countVote a.winner)
      else (.invalidSignature, s.recordVote a.masternode a.winner.nBlockHeight) := by
  have ⟨listens, unseen, inRange, version, valid, canVote⟩ := records_iff.mp h
  have near : ¬a.winner.nBlockHeight.toInt - 100 > a.man.nBestHeight + 1 := by
    simp only [isInRange, Bool.not_eq_true', Bool.or_eq_false_iff, decide_eq_false_iff_not]
      at inRange
    omega
  have added : (s.recordVote a.masternode a.winner.nBlockHeight).addWinningMasternode a.man a.winner =
      some ((s.recordVote a.masternode a.winner.nBlockHeight).countVote a.winner) := by
    rw [addWinningMasternode, if_neg near]
    exact if_neg unseen
  unfold process processWinner
  rw [if_neg listens, if_neg unseen, inRange, if_neg (by decide), if_neg (not_not.mpr version), valid]
  unfold masternode at canVote added
  simp only [canVote, Bool.not_true, Bool.false_eq_true, if_false, added]
  unfold isSigned
  cases signed : isSignedBy a.man a.winner
  case true => rfl
  case false => rfl

end Arrival

inductive PaymentsEvent
  | message (a : Arrival)
  | clean (mnCount : ℕ) (nHeight : ℤ)

-- The votes that a run counted, the last first, and the state it led to.
structure PaymentsRun where
  counted : List CMasternodePaymentWinner
  payments : MasternodePayments

namespace PaymentsRun

variable [CompactCrypto]

def step (r : PaymentsRun) : PaymentsEvent → PaymentsRun
  | .message a =>
    let (outcome, payments) := a.process r.payments
    ⟨if outcome = .added then a.winner :: r.counted else r.counted, payments⟩
  | .clean mnCount nHeight => ⟨r.counted, r.payments.cleanPaymentList mnCount nHeight⟩

def run (r : PaymentsRun) (events : List PaymentsEvent) : PaymentsRun :=
  events.foldl step r

def ascends (r : PaymentsRun) : PaymentsEvent → Bool
  | .message a => (r.payments.mapMasternodesLastVote.lookup a.masternode).all (·.toInt ≤ a.winner.nBlockHeight.toInt)
  | .clean .. => true

def Ascending (r : PaymentsRun) : List PaymentsEvent → Bool
  | [] => true
  | event :: events => r.ascends event && (r.step event).Ascending events

end PaymentsRun

def MasternodePayments.votesAt (payments : MasternodePayments) (nHeight : Int32) : ℕ :=
  ((payments.blockAt nHeight).vecPayments.map (·.nVotes)).sum

variable {payments : MasternodePayments}

theorem sum_addVotes (payee : CScript) (n : ℕ) (payees : List CMasternodePayee) :
    ((addVotes payee n payees).map (·.nVotes)).sum = (payees.map (·.nVotes)).sum + n := by
  induction payees
  case nil => simp [addVotes]
  case cons p payees ih =>
    unfold addVotes
    split
    case isTrue => simp only [map_cons, sum_cons]; omega
    case isFalse => simp only [map_cons, sum_cons, ih]; omega

theorem votesAt_countVote [CompactCrypto] (winner : CMasternodePaymentWinner) (nHeight : Int32) :
    (payments.countVote winner).votesAt nHeight =
      payments.votesAt nHeight + if nHeight = winner.nBlockHeight then 1 else 0 := by
  unfold votesAt blockAt countVote
  rw [lookup_insert]
  split
  case isTrue eq => rw [eq]; exact sum_addVotes ..
  case isFalse => omega

theorem votesAt_clean_le {mnCount : ℕ} {nHeight : ℤ} (h : Int32) :
    (payments.cleanPaymentList mnCount nHeight).votesAt h ≤ payments.votesAt h := by
  unfold votesAt blockAt cleanPaymentList
  rw [lookup_foldl_erase]
  split
  case isTrue => exact Nat.zero_le _
  case isFalse => exact Nat.le_refl _

namespace PaymentsRun

section

variable [CompactCrypto] {r : PaymentsRun} {a : Arrival}

theorem step_unrecorded (h : ¬a.records r.payments) : r.step (.message a) = r := by
  have ⟨same, notAdded⟩ := a.process_unrecorded h
  simp only [step, same, notAdded, if_false]

theorem step_unsigned (h : a.records r.payments) (unsigned : ¬a.isSigned) :
    r.step (.message a) = ⟨r.counted, r.payments.recordVote a.masternode a.winner.nBlockHeight⟩ := by
  simp only [step, a.process_recorded h, if_neg unsigned]
  rfl

theorem step_signed (h : a.records r.payments) (signed : a.isSigned) :
    r.step (.message a) =
      ⟨a.winner :: r.counted, (r.payments.recordVote a.masternode a.winner.nBlockHeight).countVote a.winner⟩ := by
  simp only [step, a.process_recorded h, if_pos signed, if_true]

end

variable {start : MasternodePayments} {r : PaymentsRun}

-- A masternode last voted for the highest of its counted heights, or above.
structure Fair (start : MasternodePayments) (r : PaymentsRun) : Prop where
  recorded : ∀ w ∈ r.counted, ∃ last, r.payments.mapMasternodesLastVote.lookup w.vinMasternode.prevout = some last ∧
    w.nBlockHeight.toInt ≤ last.toInt
  once : ∀ mn h, r.counted.countP (fun w => w.vinMasternode.prevout = mn ∧ w.nBlockHeight = h) ≤ 1
  votes : ∀ h, r.payments.votesAt h ≤ start.votesAt h + r.counted.countP (·.nBlockHeight = h)

theorem Fair.refl (start : MasternodePayments) : Fair start ⟨[], start⟩ where
  recorded _ mem := nomatch mem
  once _ _ := Nat.zero_le 1
  votes _ := Nat.le_refl _

variable {a : Arrival}

theorem ascends_le {last : Int32} (ascends : r.ascends (.message a))
    (found : r.payments.mapMasternodesLastVote.lookup a.masternode = some last) :
    last.toInt ≤ a.winner.nBlockHeight.toInt := by
  simpa [PaymentsRun.ascends, found] using ascends

theorem Fair.record (fair : Fair start r) (ascends : r.ascends (.message a)) :
    Fair start ⟨r.counted, r.payments.recordVote a.masternode a.winner.nBlockHeight⟩ where
  recorded w mem := by
    have ⟨last, found, le⟩ := fair.recorded w mem
    simp only [recordVote, lookup_insert]
    split
    case isTrue same =>
      rw [same] at found
      exact ⟨_, rfl, le.trans (ascends_le ascends found)⟩
    case isFalse => exact ⟨last, found, le⟩
  once := fair.once
  votes := fair.votes

variable [CompactCrypto]

theorem Fair.fresh (fair : Fair start r) (ascends : r.ascends (.message a)) (records : a.records r.payments)
    {w : CMasternodePaymentWinner} (mem : w ∈ r.counted) (same : w.vinMasternode.prevout = a.masternode) :
    w.nBlockHeight ≠ a.winner.nBlockHeight := by
  intro eq
  have ⟨last, found, le⟩ := fair.recorded w mem
  rw [same] at found
  have height : last = a.winner.nBlockHeight := Int32.toInt_inj.mp ((ascends_le ascends found).antisymm (eq ▸ le))
  have canVote := (a.records_iff.mp records).right.right.right.right.right
  rw [MasternodePayments.canVote, found, height] at canVote
  simp at canVote

theorem Fair.message (fair : Fair start r) (ascends : r.ascends (.message a)) :
    Fair start (r.step (.message a)) := by
  by_cases records : a.records r.payments
  case neg => rwa [step_unrecorded records]
  case pos =>
    have noted := fair.record ascends
    by_cases signed : a.isSigned
    case neg => rwa [step_unsigned records signed]
    case pos =>
      rw [step_signed records signed]
      constructor
      case recorded =>
        intro w mem
        cases mem
        case head =>
          refine ⟨a.winner.nBlockHeight, ?_, le_rfl⟩
          exact AList.lookup_insert _
        case tail mem => exact noted.recorded w mem
      case once =>
        intro mn h
        rw [countP_cons]
        split
        case isFalse => exact noted.once mn h
        case isTrue same =>
          have ⟨hmn, hh⟩ := of_decide_eq_true same
          have none : r.counted.countP (fun w => w.vinMasternode.prevout = mn ∧ w.nBlockHeight = h) = 0 := by
            rw [countP_eq_zero]
            intro w mem same'
            have ⟨hmn', hh'⟩ := of_decide_eq_true same'
            exact fair.fresh ascends records mem (hmn'.trans hmn.symm) (hh'.trans hh.symm)
          rw [none]
      case votes =>
        intro h
        rw [votesAt_countVote, countP_cons]
        have le := noted.votes h
        by_cases eq : h = a.winner.nBlockHeight
        case pos => simp only [eq, if_true, decide_true] at le ⊢; omega
        case neg =>
          have : ¬a.winner.nBlockHeight = h := Ne.symm eq
          simp only [eq, this, if_false, decide_false] at le ⊢
          simpa using le

theorem Fair.clean {mnCount : ℕ} {nHeight : ℤ} (fair : Fair start r) :
    Fair start (r.step (.clean mnCount nHeight)) where
  recorded := fair.recorded
  once := fair.once
  votes h := (votesAt_clean_le h).trans (fair.votes h)

theorem Fair.run {events : List PaymentsEvent} (fair : Fair start r) (ascending : r.Ascending events) :
    Fair start (r.run events) := by
  induction events generalizing r
  case nil => exact fair
  case cons event events ih =>
    have ⟨ascends, ascending⟩ := Bool.and_eq_true_iff.mp ascending
    cases event
    case message a => exact ih (fair.message ascends) ascending
    case clean mnCount nHeight => exact ih fair.clean ascending

end PaymentsRun

open PaymentsRun

-- While no message takes a masternode back below its last vote, its votes for a height are counted once, and no others
-- are.
theorem MasternodePayments.winner_votes_once [CompactCrypto] {start : MasternodePayments}
    {events : List PaymentsEvent} (ascending : PaymentsRun.Ascending ⟨[], start⟩ events) :
    (∀ mn h, (PaymentsRun.run ⟨[], start⟩ events).counted.countP
        (fun w => w.vinMasternode.prevout = mn ∧ w.nBlockHeight = h) ≤ 1) ∧
      ∀ h, (PaymentsRun.run ⟨[], start⟩ events).payments.votesAt h ≤
        start.votesAt h + (PaymentsRun.run ⟨[], start⟩ events).counted.countP (·.nBlockHeight = h) :=
  have fair := (PaymentsRun.Fair.refl start).run ascending
  ⟨fair.once, fair.votes⟩

section

variable [CompactCrypto] {s : MasternodePayments} {f g : Arrival}

structure Arrival.Genuine (g f : Arrival) (s : MasternodePayments) : Prop where
  masternode : g.masternode = f.masternode
  height : g.winner.nBlockHeight = f.winner.nBlockHeight
  passes : g.passes s
  isSigned : g.isSigned

theorem Arrival.Genuine.counted (genuine : g.Genuine f s) (records : f.records s) :
    (run ⟨[], s⟩ [.message g]).counted = [g.winner] := by
  have canVote : s.canVote g.masternode g.winner.nBlockHeight := by
    rw [genuine.masternode, genuine.height]
    exact (Bool.and_eq_true_iff.mp records).right
  have records : g.records s := Bool.and_eq_true_iff.mpr ⟨genuine.passes, canVote⟩
  rw [run, foldl_cons, step_signed (r := ⟨[], s⟩) records genuine.isSigned]
  rfl

theorem Arrival.Genuine.refused (genuine : g.Genuine f s) :
    (run ⟨[], s.recordVote f.masternode f.winner.nBlockHeight⟩ [.message g]).counted = [] := by
  have refused : ¬g.records (s.recordVote f.masternode f.winner.nBlockHeight) := by
    intro records
    have canVote := (Bool.and_eq_true_iff.mp records).right
    rw [MasternodePayments.canVote, genuine.masternode, genuine.height] at canVote
    exact of_decide_eq_true canVote (AList.lookup_insert _)
  rw [run, foldl_cons, step_unrecorded (r := ⟨[], s.recordVote ..⟩) refused]
  rfl

-- A message with a bad signature changes nothing for later ones unless it reaches the record of the last vote. Then the
-- real vote of its masternode for the height is lost.
theorem MasternodePayments.forged_harmless_iff (forged : ¬f.isSigned) :
    (¬f.records s → ∀ later : List PaymentsEvent,
        (PaymentsRun.run ⟨[], (f.process s).2⟩ later).counted = (PaymentsRun.run ⟨[], s⟩ later).counted) ∧
      ((∃ g, Arrival.Genuine g f s) →
        ((∀ later : List PaymentsEvent,
            (PaymentsRun.run ⟨[], (f.process s).2⟩ later).counted = (PaymentsRun.run ⟨[], s⟩ later).counted) ↔
          ¬f.records s)) := by
  have harmless (h : ¬f.records s) (later : List PaymentsEvent) :
      (PaymentsRun.run ⟨[], (f.process s).2⟩ later).counted = (PaymentsRun.run ⟨[], s⟩ later).counted := by
    rw [(f.process_unrecorded h).left]
  refine ⟨harmless, fun ⟨g, genuine⟩ => ⟨fun same records => ?_, harmless⟩⟩
  have effect : (f.process s).2 = s.recordVote f.masternode f.winner.nBlockHeight := by
    rw [f.process_recorded records, if_neg forged]
  have lost := same [.message g]
  rw [effect, genuine.refused, genuine.counted records] at lost
  cases lost

end

section

attribute [local instance] CompactCrypto.toy

def soloMasternode : CMasternode where
  vin := { prevout := ⟨7, 0⟩ }
  pubKeyCollateralAddress := [2]
  pubKeyMasternode := [3]
  lastPing := { vin := { prevout := ⟨7, 0⟩ }, blockHash := 1, sigTime := 10000 }

def soloMan : CMasternodeMan where
  mapMasternodes := AList.singleton ⟨7, 0⟩ soloMasternode
  nBestHeight := 150
  cvLastBlockHashes := fun _ => 1
  keyed := fun collateral mn found => by
    have mem := AList.mem_lookup_iff.mp found
    cases mem_singleton.mp mem
    rfl

def soloGlobals : MasternodeGlobals where
  params := .main
  isSporkActive := fun _ => false
  getTime := 10000
  getAdjustedTime := 10000
  chainActive := []

def soloVote (nBlockHeight : Int32) (payee : CScript) (forged : Bool) : Arrival :=
  let winner : CMasternodePaymentWinner := { vinMasternode := { prevout := ⟨7, 0⟩ }, nBlockHeight, payee }
  { globals := soloGlobals
    man := soloMan
    pfromVersion := 70923
    winner := { winner with vchSig := if forged then [] else winner.getHash.bytes ++ [3] } }

-- The last recorded vote is for 151 when the second vote for 150 comes in.
theorem winner_votes_twice :
    (PaymentsRun.run ⟨[], {}⟩ [.message (soloVote 150 [1] false), .message (soloVote 151 [1] false),
        .message (soloVote 150 [2] false)]).counted.countP
          (fun w => w.vinMasternode.prevout = ⟨7, 0⟩ ∧ w.nBlockHeight = 150) = 2 ∧
      (PaymentsRun.run ⟨[], {}⟩ [.message (soloVote 150 [1] false), .message (soloVote 151 [1] false),
        .message (soloVote 150 [2] false)]).payments.votesAt 150 = 2 := by
  decide +kernel

theorem winner_votes_once_ascending :
    PaymentsRun.Ascending ⟨[], {}⟩ [.message (soloVote 150 [1] false), .message (soloVote 150 [2] false),
        .message (soloVote 151 [1] false)] ∧
      (PaymentsRun.run ⟨[], {}⟩ [.message (soloVote 150 [1] false), .message (soloVote 150 [2] false),
        .message (soloVote 151 [1] false)]).counted.countP
          (fun w => w.vinMasternode.prevout = ⟨7, 0⟩ ∧ w.nBlockHeight = 150) ≤ 1 :=
  ⟨by decide +kernel, (MasternodePayments.winner_votes_once (by decide +kernel)).left ⟨7, 0⟩ 150⟩

-- The forged vote is refused for its signature, the real one because its masternode has voted.
theorem forged_vote_blocks :
    ¬(soloVote 150 [1] true).isSigned ∧ (soloVote 150 [1] false).isSigned ∧
      (PaymentsRun.run ⟨[], {}⟩ [.message (soloVote 150 [1] false)]).counted = [(soloVote 150 [1] false).winner] ∧
      (PaymentsRun.run ⟨[], ((soloVote 150 [1] true).process {}).2⟩
        [.message (soloVote 150 [1] false)]).counted = [] := by
  decide +kernel

theorem forged_harmless_voted :
    ¬(soloVote 150 [2] true).isSigned ∧
      ∀ later : List PaymentsEvent,
        (PaymentsRun.run ⟨[], ((soloVote 150 [2] true).process ((soloVote 150 [1] false).process {}).2).2⟩
            later).counted =
          (PaymentsRun.run ⟨[], ((soloVote 150 [1] false).process {}).2⟩ later).counted :=
  ⟨by decide +kernel, (MasternodePayments.forged_harmless_iff (by decide +kernel)).left (by decide +kernel)⟩

end

end Qrax
