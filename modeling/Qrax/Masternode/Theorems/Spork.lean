import Qrax.Lib.Highest
import Qrax.Masternode.Spork

namespace Qrax

structure SporkArrival [CompactCrypto] (sporkPubKey : Bytes) where
  spork : CSporkMessage
  getAdjustedTime : ℤ
  known : getSporkNameByID spork.nSporkID ≠ "Unknown"
  present : spork.nTimeSigned.toInt ≤ getAdjustedTime + 2 * 60 * 60
  version : spork.nMessVersion = MESS_VER_HASH
  signed : spork.checkSignature (CPubKey.getID sporkPubKey)

namespace CSporkManager

def signedAt (spork : CSporkMessage) : WithBot ℤ :=
  spork.nTimeSigned.toInt

def active (man : CSporkManager) (id : Int32) : WithBot ℤ × Option CSporkMessage :=
  ((man.mapSporksActive.lookup id).elim ⊥ signedAt, man.mapSporksActive.lookup id)

variable [CompactCrypto] {sporkPubKey : Bytes} {man : CSporkManager} {run : List (SporkArrival sporkPubKey)}
  {spork : CSporkMessage} {id : Int32}

def receive (man : CSporkManager) (arrival : SporkArrival sporkPubKey) : CSporkManager :=
  (man.processSporkMsg sporkPubKey arrival.getAdjustedTime arrival.spork).1

noncomputable def scan (id : Int32) (acc : WithBot ℤ × Option CSporkMessage) (arrival : SporkArrival sporkPubKey) :=
  if arrival.spork.nSporkID = id ∧ acc.1 < signedAt arrival.spork then
    (signedAt arrival.spork, some arrival.spork)
  else acc

def messages (run : List (SporkArrival sporkPubKey)) : Set CSporkMessage :=
  {spork | ∃ arrival ∈ run, arrival.spork = spork}

structure Newest (man : CSporkManager) (msgs : Set CSporkMessage) (spork : CSporkMessage) : Prop where
  mem : spork ∈ msgs
  later : (man.active spork.nSporkID).1 < signedAt spork
  highest : ∀ s ∈ msgs, s.nSporkID = spork.nSporkID → signedAt s ≤ signedAt spork

theorem active_receive (id : Int32) (man : CSporkManager) (arrival : SporkArrival sporkPubKey) :
    scan id (man.active id) arrival = (man.receive arrival).active id := by
  obtain ⟨spork, t, known, present, version, signed⟩ := arrival
  have recent : (man.mapSporksActive.lookup spork.nSporkID).any (·.nTimeSigned ≥ spork.nTimeSigned) = true ↔
      ¬(man.active spork.nSporkID).1 < signedAt spork := by
    unfold active
    cases man.mapSporksActive.lookup spork.nSporkID
    case none => simp [signedAt, WithBot.bot_lt_coe]
    case some s => simp [signedAt, Int64.le_iff_toInt_le]
  rw [receive, processSporkMsg, if_neg known, if_neg (not_lt.mpr present), if_neg (not_not.mpr version), signed,
    if_congr recent rfl rfl, scan]
  by_cases own : spork.nSporkID = id
  case pos =>
    subst own
    by_cases later : (man.active spork.nSporkID).1 < signedAt spork
    case pos =>
      rw [if_pos ⟨rfl, later⟩, if_neg (not_not.mpr later)]
      simp [active]
    case neg => simp [later]
  case neg =>
    rw [if_neg fun h => own h.1]
    split
    case isTrue => rfl
    case isFalse => simp [active, Ne.symm own]

theorem active_foldl (man : CSporkManager) (run : List (SporkArrival sporkPubKey)) (id : Int32) :
    ((run.foldl receive man).active id = man.active id ∧ ∀ a, man.Newest (messages run) a → a.nSporkID ≠ id) ∨
    ∃ a, man.Newest (messages run) a ∧ a.nSporkID = id ∧ (run.foldl receive man).active id = (signedAt a, some a) := by
  rw [← List.foldl_hom (active · id) (active_receive id)]
  obtain ⟨same, lower⟩ | ⟨arrival, ends, later⟩ := Highest.foldl_scan
    (fun arrival : SporkArrival sporkPubKey => arrival.spork.nSporkID = id) (signedAt ·.spork) (·.spork) (scan id)
    (fun _ _ own later => if_pos ⟨own, later⟩) (fun _ _ older => if_neg older) run (man.active id)
  case inl =>
    refine .inl ⟨same, ?_⟩
    rintro _ ⟨⟨arrival, mem, rfl⟩, later, _⟩ rfl
    exact (lower arrival mem rfl).not_gt later
  case inr =>
    refine .inr ⟨arrival.spork, ⟨⟨arrival, ends.mem, rfl⟩, ends.fits ▸ later, ?_⟩, ends.fits, ends.found⟩
    rintro _ ⟨b, mem, rfl⟩ own
    exact ends.highest b mem (own.trans ends.fits)

theorem Newest.first {arrival : SporkArrival sporkPubKey} (newest : man.Newest (messages run) arrival.spork) :
    (run.foldl receive (man.receive arrival)).mapSporksActive.lookup arrival.spork.nSporkID = some arrival.spork := by
  have first := active_receive arrival.spork.nSporkID man arrival
  rw [scan, if_pos ⟨rfl, newest.later⟩] at first
  obtain ⟨same, _⟩ | ⟨a, ⟨mem, later, _⟩, own, _⟩ := active_foldl (man.receive arrival) run arrival.spork.nSporkID
  case inl => exact congrArg Prod.snd (same.trans first.symm)
  case inr =>
    rw [own, ← first] at later
    exact absurd later (newest.highest a mem own).not_gt

-- `ProcessSporkMsg` keeps the first of two messages signed at one time.
theorem sporks_agree_iff (man : CSporkManager) (run : List (SporkArrival sporkPubKey)) :
    (∀ run' : List (SporkArrival sporkPubKey), messages run' = messages run →
      ∀ id, (run'.foldl receive man).mapSporksActive.lookup id = (run.foldl receive man).mapSporksActive.lookup id ∧
        (run'.foldl receive man).getSporkValue id = (run.foldl receive man).getSporkValue id) ↔
    ∀ a b, man.Newest (messages run) a → man.Newest (messages run) b → a.nSporkID = b.nSporkID → a = b := by
  constructor
  case mp =>
    intro agree a b newest newest' own
    have stays (c : CSporkMessage) (newest : man.Newest (messages run) c) :
        (run.foldl receive man).mapSporksActive.lookup c.nSporkID = some c := by
      obtain ⟨arrival, mem, rfl⟩ := newest.mem
      have same : messages (arrival :: run) = messages run := by
        ext c
        simp only [messages, List.exists_mem_cons_iff, Set.mem_ofPred_eq, or_iff_right_iff_imp]
        exact fun eq => ⟨arrival, mem, eq⟩
      exact (agree (arrival :: run) same _).1.symm.trans newest.first
    exact Option.some.inj ((stays a newest).symm.trans (own ▸ stays b newest'))
  case mpr =>
    intro unique run' same id
    have eq : (run'.foldl receive man).active id = (run.foldl receive man).active id := by
      have before := active_foldl man run' id
      rw [same] at before
      obtain ⟨kept, none⟩ | ⟨a, newest, own, found⟩ := before <;>
        obtain ⟨kept', none'⟩ | ⟨b, newest', own', found'⟩ := active_foldl man run id
      · rw [kept, kept']
      · exact absurd own' (none b newest')
      · exact absurd own (none' a newest)
      · rw [found, found', unique a b newest newest' (own.trans own'.symm)]
    have lookup : (run'.foldl receive man).mapSporksActive.lookup id = (run.foldl receive man).mapSporksActive.lookup id :=
      congrArg Prod.snd eq
    exact ⟨lookup, by simp only [getSporkValue, lookup]⟩

end CSporkManager

section

attribute [local instance] CompactCrypto.toy

def tiedSpork (nValue : Int64) : CSporkMessage :=
  let spork : CSporkMessage := { nSporkID := 10007, nValue, nTimeSigned := 1600000000 }
  { spork with vchSig := spork.getSignatureHash.bytes ++ [2] }

theorem tied_sporks_disagree :
    let receive man spork := (CSporkManager.processSporkMsg [2] 1600000000 man spork).1
    let value man := CSporkManager.getSporkValue man 10007
    value ([tiedSpork 0, tiedSpork 1].foldl receive {}) = 0 ∧ value ([tiedSpork 1, tiedSpork 0].foldl receive {}) = 1 := by
  decide

end

end Qrax
