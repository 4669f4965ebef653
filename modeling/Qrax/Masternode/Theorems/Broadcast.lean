import Qrax.Coins.Theorems.Reads
import Qrax.Masternode.Broadcast

open Fallible KeyedUpdate List

namespace Qrax

open CMasternodeMan CMasternodeBroadcast

namespace CMasternodeMan

variable {man : CMasternodeMan} {globals : MasternodeGlobals} {mn : CMasternode} {o : COutPoint}

theorem find_remove (man : CMasternodeMan) (o o' : COutPoint) :
    (man.remove o).find o' = if o' = o then none else man.find o' := by
  rw [find, remove, lookup_erase]
  rfl

theorem remove_eq_self_iff : (man.remove o).mapMasternodes = man.mapMasternodes ↔ man.find o = none := by
  constructor
  case mp =>
    intro same
    have erased := man.find_remove o o
    rwa [if_pos rfl, find, same] at erased
  case mpr =>
    intro absent
    apply AList.ext
    exact kerase_of_notMem_keys (AList.lookup_eq_none.mp absent)

theorem remove_of_find_eq_none (absent : man.find o = none) : man.remove o = man := by
  have same := remove_eq_self_iff.mpr absent
  unfold remove at same ⊢
  congr

theorem lookup_of_mem (mem : mn ∈ man.masternodes) : man.mapMasternodes.lookup mn.vin.prevout = some mn := by
  obtain ⟨⟨collateral, mn⟩, filed, rfl⟩ := mem_map.mp mem
  have found : man.mapMasternodes.lookup collateral = some mn := AList.mem_lookup_iff.mpr filed
  rwa [man.keyed collateral mn found]

theorem eq_of_prevout {mn' : CMasternode} (mem : mn ∈ man.masternodes) (mem' : mn' ∈ man.masternodes)
    (same : mn.vin.prevout = mn'.vin.prevout) : mn = mn' := by
  have found := lookup_of_mem mem
  rw [same, lookup_of_mem mem'] at found
  exact (Option.some.inj found).symm

theorem add_eq (globals : MasternodeGlobals) (man : CMasternodeMan) (mn : CMasternode) :
    man.add globals mn = (false, man) ∨
      (man.add globals mn = (true, man.replace mn.copy) ∧ man.find mn.vin.prevout = none ∧
        mn.isAvailableState globals) := by
  unfold add
  split
  case isTrue => exact .inl rfl
  case isFalse available =>
    split
    case isFalse => exact .inl rfl
    case isTrue none => exact .inr ⟨rfl, none, by simpa using available⟩

end CMasternodeMan

namespace CMasternodeBroadcast

variable [CompactCrypto] {ctx : MasternodeContext} {mnb : CMasternodeBroadcast} {lists lists' : MasternodeLists}
  {nChainHeight nDoS n : ℤ} {outcome : BroadcastOutcome}

theorem checkPing_lists (ctx : MasternodeContext) (mnb : CMasternodeBroadcast) (nDoS : ℤ) (lists : MasternodeLists) :
    (mnb.checkPing ctx nDoS lists).lists = lists := by
  unfold checkPing SignedPing.checkAndUpdate
  simp only [↓reduceIte]
  repeat' split
  all_goals rfl

def withdrawn (mnb : CMasternodeBroadcast) (lists : MasternodeLists) : MasternodeLists :=
  { lists with man := lists.man.remove mnb.vin.prevout }

theorem activate_man (lists : MasternodeLists) : (mnb.activate ctx lists).man = lists.man := by
  unfold activate
  split
  case isTrue => rfl
  case isFalse => rfl

structure Looked (ctx : MasternodeContext) (mnb : CMasternodeBroadcast) (lists : MasternodeLists)
    (outcome : BroadcastOutcome) (lists' : MasternodeLists) : Prop where
  quiet : outcome ≠ .added → lists'.man = lists.man
  put : outcome = .added → lists'.man = lists.man.replace mnb.toCMasternode.copy ∧
    lists.man.find mnb.vin.prevout = none ∧ mnb.toCMasternode.copy.isAvailableState ctx.globals
  unspent : outcome.result → (ctx.chain.pcoinsTip.accessCoin mnb.vin.prevout).1.isSpent = false
  exits : outcome ≠ .ours ∧ outcome ≠ .badPing ∧ outcome ≠ .alreadyEnabled

theorem checkCollateral_looked (done : mnb.checkCollateral ctx nChainHeight lists = .ok (outcome, lists')) :
    Looked ctx mnb lists outcome lists' := by
  unfold checkCollateral at done
  dsimp only at done
  split at done
  case isTrue =>
    cases done
    exact ⟨fun _ => rfl, by rintro ⟨⟩, by rintro ⟨⟩, by simp⟩
  case isFalse unspent =>
    split at done
    case isTrue =>
      cases done
      exact ⟨fun _ => rfl, by rintro ⟨⟩, by rintro ⟨⟩, by simp⟩
    case isFalse =>
      split at done
      case h_1 => cases done
      case h_2 =>
        split at done
        case isTrue =>
          cases done
          exact ⟨fun _ => rfl, by rintro ⟨⟩, by rintro ⟨⟩, by simp⟩
        case isFalse =>
          rcases add_eq ctx.globals lists.man mnb.toCMasternode.copy with same | ⟨put, new, available⟩
          case inl =>
            rw [same] at done
            cases done
            exact ⟨fun _ => activate_man _, by rintro ⟨⟩, fun _ => by simpa using unspent, by simp⟩
          case inr =>
            rw [put] at done
            cases done
            exact ⟨by simp, fun _ => ⟨activate_man _, new, available⟩, fun _ => by simpa using unspent, by simp⟩

-- Either the call ends before the collateral is checked and changes nothing, or an entry for the collateral that is not
-- enabled is taken out first.
theorem checkInputsAndAdd_cases (done : mnb.checkInputsAndAdd ctx nChainHeight nDoS lists = .ok (outcome, n, lists')) :
    (lists' = lists ∧ (outcome = .ours ∨ outcome = .alreadyEnabled ∨
        outcome = .badPing ∧ (mnb.checkPing ctx nDoS lists).result = false)) ∨
      ((mnb.checkPing ctx nDoS lists).result = true ∧
        (∀ pmn, lists.man.find mnb.vin.prevout = some pmn → pmn.isEnabled ctx.globals = false) ∧
        Looked ctx mnb (mnb.withdrawn lists) outcome lists') := by
  unfold checkInputsAndAdd at done
  split at done
  case isTrue =>
    cases done
    exact .inl ⟨rfl, .inl rfl⟩
  case isFalse =>
    have kept := checkPing_lists ctx mnb nDoS lists
    generalize mnb.checkPing ctx nDoS lists = judged at done kept ⊢
    obtain ⟨result, nDoS, lists₁⟩ := judged
    dsimp only at done kept ⊢
    subst kept
    split at done
    case isTrue bad =>
      cases done
      exact .inl ⟨rfl, .inr (.inr ⟨rfl, by simpa using bad⟩)⟩
    case isFalse good =>
      have good : result = true := by simpa using good
      split at done
      case h_1 absent =>
        obtain ⟨⟨outcome, lists'⟩, looked, eq⟩ := map_eq_ok.mp done
        cases eq
        refine .inr ⟨good, fun pmn found => ?_, ?_⟩
        · cases absent.symm.trans found
        · rw [withdrawn, remove_of_find_eq_none absent]
          exact checkCollateral_looked looked
      case h_2 pmn found =>
        split at done
        case isTrue =>
          cases done
          exact .inl ⟨rfl, .inr (.inl rfl)⟩
        case isFalse disabled =>
          obtain ⟨⟨outcome, lists'⟩, looked, eq⟩ := map_eq_ok.mp done
          cases eq
          refine .inr ⟨good, fun pmn' found' => ?_, ?_⟩
          · cases found.symm.trans found'
            simpa using disabled
          · rw [lists₁.man.keyed _ pmn found] at looked
            exact checkCollateral_looked looked

theorem looked_of_added (done : mnb.checkInputsAndAdd ctx nChainHeight nDoS lists = .ok (.added, n, lists')) :
    Looked ctx mnb (mnb.withdrawn lists) .added lists' := by
  rcases checkInputsAndAdd_cases done with ⟨_, ours | enabled | ⟨bad, _⟩⟩ | ⟨_, _, looked⟩
  case inl.inl => cases ours
  case inl.inr.inl => cases enabled
  case inl.inr.inr => cases bad
  case inr => exact looked

-- A refused broadcast can only remove the entry that it was to replace.
theorem checkInputsAndAdd_unchanged_iff
    (done : mnb.checkInputsAndAdd ctx nChainHeight nDoS lists = .ok (outcome, n, lists'))
    (refused : outcome.result = false) :
    lists'.man.mapMasternodes = lists.man.mapMasternodes ↔
      lists.man.find mnb.vin.prevout = none ∨ (mnb.checkPing ctx nDoS lists).result = false := by
  rcases checkInputsAndAdd_cases done with ⟨rfl, rfl | rfl | ⟨rfl, bad⟩⟩ | ⟨good, _, looked⟩
  case inl.inl => cases refused
  case inl.inr.inl => cases refused
  case inl.inr.inr => exact iff_of_true rfl (.inr bad)
  case inr =>
    have quiet : outcome ≠ .added := by
      rintro rfl
      cases refused
    rw [looked.quiet quiet, good]
    simp [withdrawn, CMasternodeMan.remove_eq_self_iff]

end CMasternodeBroadcast

section

variable [CompactCrypto]

def MasternodeContext.Backs (ctx : MasternodeContext) (mn : CMasternode) : Prop :=
  ∃ coin, ctx.chain.pcoinsTip.utxo mn.vin.prevout = some coin ∧ coin.out.nValue = MN_COLL_AMT ∧
    coin.out.scriptPubKey = CMasternodeBroadcast.payee mn

def MasternodeContext.namesCollateral (ctx : MasternodeContext) (mn : CMasternode) : Bool :=
  (getTransaction ctx.store ctx.chain mn.vin.prevout.hash).any fun (txVin, _) =>
    (txVin.vout[mn.vin.prevout.n.toNat]?).any fun out =>
      out.nValue == MN_COLL_AMT && out.scriptPubKey == CMasternodeBroadcast.payee mn

-- The unspent coins are outputs of the transactions found under their hashes.
def MasternodeContext.Agrees (ctx : MasternodeContext) : Prop :=
  ∀ o coin txVin hashBlock, ctx.chain.pcoinsTip.utxo o = some coin →
    getTransaction ctx.store ctx.chain o.hash = some (txVin, hashBlock) → txVin.vout[o.n.toNat]? = some coin.out

-- The broadcasts a node receives. `put` has what `CheckInputsAndAdd` put into the list, and when.
structure BroadcastRun where
  lists : MasternodeLists
  put : List (MasternodeContext × CMasternode) := []

def BroadcastRun.receive (run : BroadcastRun) (arrival : MasternodeContext × CMasternodeBroadcast) : BroadcastRun :=
  match run.lists.processMNBroadcast arrival.1 arrival.2 with
  | .error _ => run
  | .ok (_, some .added, lists) => ⟨lists, (arrival.1, arrival.2.toCMasternode.copy) :: run.put⟩
  | .ok (_, _, lists) => { run with lists }

variable {ctx : MasternodeContext} {mnb : CMasternodeBroadcast} {mn : CMasternode} {lists lists' : MasternodeLists}

theorem utxo_of_accessCoin {v : CCoinsViewCache} {o : COutPoint} (unspent : (v.accessCoin o).1.isSpent = false) :
    v.utxo o = some (v.accessCoin o).1 := by
  obtain ⟨v', eq, _⟩ := v.accessCoin_eq o
  rw [eq] at unspent ⊢
  unfold CCoinsViewCache.utxo CCoinsView.utxo
  cases peeked : v.view.peek o
  case none =>
    rw [peeked] at unspent
    cases unspent
  case some coin =>
    rw [peeked] at unspent
    exact Coin.unspent_of_not_spent unspent

theorem processMNBroadcast_added {score : ℤ}
    (done : lists.processMNBroadcast ctx mnb = .ok (score, some .added, lists')) :
    isInputAssociatedWithPubkey ctx mnb.toCMasternode ∧
      ∃ coin, ctx.chain.pcoinsTip.utxo mnb.vin.prevout = some coin := by
  unfold MasternodeLists.processMNBroadcast at done
  split at done
  case isTrue => cases done
  case isFalse =>
    dsimp only at done
    split at done
    case isTrue => cases done
    case isFalse =>
      split at done
      case isTrue => cases done
      case isFalse associated =>
        obtain ⟨⟨outcome, nDoS, lists₁⟩, checked, rest⟩ := bind_eq_ok.mp done
        have added : outcome = .added := by
          dsimp only at rest
          split at rest
          case isTrue => exact Option.some.inj (congrArg (·.2.1) (Except.ok.inj rest))
          case isFalse => exact Option.some.inj (congrArg (·.2.1) (Except.ok.inj rest))
        subst added
        refine ⟨by simpa using associated, _, utxo_of_accessCoin ?_⟩
        exact (looked_of_added checked).unspent rfl

theorem backs_iff_namesCollateral (agrees : ctx.Agrees)
    (associated : isInputAssociatedWithPubkey ctx mn) {coin : Coin}
    (unspent : ctx.chain.pcoinsTip.utxo mn.vin.prevout = some coin) :
    ctx.Backs mn ↔ ctx.namesCollateral mn := by
  unfold isInputAssociatedWithPubkey at associated
  split at associated
  case h_1 => cases associated
  case h_2 txVin hashBlock found =>
    have named := agrees _ _ _ _ unspent found
    simp [MasternodeContext.Backs, MasternodeContext.namesCollateral, found, named, unspent]

def BroadcastRun.Checked (run : BroadcastRun) : Prop :=
  ∀ e ∈ run.put, CMasternodeBroadcast.isInputAssociatedWithPubkey e.1 e.2 ∧
    ∃ coin, e.1.chain.pcoinsTip.utxo e.2.vin.prevout = some coin

theorem BroadcastRun.Checked.receive {run : BroadcastRun} (checked : run.Checked)
    (arrival : MasternodeContext × CMasternodeBroadcast) : (run.receive arrival).Checked := by
  unfold BroadcastRun.receive
  split
  case h_1 => exact checked
  case h_2 done => exact forall_mem_cons.mpr ⟨processMNBroadcast_added done, checked⟩
  case h_3 => exact checked

theorem BroadcastRun.Checked.run {run : BroadcastRun} (checked : run.Checked)
    (arrivals : List (MasternodeContext × CMasternodeBroadcast)) : (arrivals.foldl BroadcastRun.receive run).Checked :=
  List.foldlRecOn arrivals BroadcastRun.receive checked fun _ checked arrival _ => checked.receive arrival

theorem BroadcastRun.mem_put {e : MasternodeContext × CMasternode}
    {arrivals : List (MasternodeContext × CMasternodeBroadcast)} {run : BroadcastRun}
    (mem : e ∈ (arrivals.foldl BroadcastRun.receive run).put) :
    e ∈ run.put ∨ ∃ arrival ∈ arrivals, e = (arrival.1, arrival.2.toCMasternode.copy) := by
  induction arrivals generalizing run
  case nil => exact .inl mem
  case cons arrival arrivals ih =>
    rcases ih mem with before | ⟨later, mem, eq⟩
    case inr => exact .inr ⟨later, mem_cons_of_mem _ mem, eq⟩
    case inl =>
      unfold BroadcastRun.receive at before
      split at before
      case h_1 => exact .inl before
      case h_2 =>
        rcases mem_cons.mp before with eq | before
        case inl => exact .inr ⟨arrival, mem_cons_self, eq⟩
        case inr => exact .inl before
      case h_3 => exact .inl before

end

section

attribute [local instance] CompactCrypto.toy

def collateralTx : CTransaction where
  vin := [{ prevout := .null, scriptSig := [1, 1] }]
  vout := [{ nValue := MN_COLL_AMT, scriptPubKey := getScriptForDestination (.CKeyID (CPubKey.getID [2])) },
    { nValue := 1, scriptPubKey := [0x51] }]

def collateralBlock : CBlock where
  vtx := [collateralTx]

def collateralCoin (n : ℕ) (nHeight : ℕ) : Coin where
  fCoinBase := true
  out := collateralTx.vout.getD n {}
  nHeight := nHeight

def collateralCoins (nHeight : ℕ) : AList fun _ : COutPoint => Coin :=
  (AList.singleton ⟨collateralTx.getHash, 0⟩ (collateralCoin 0 nHeight)).insert ⟨collateralTx.getHash, 1⟩
    (collateralCoin 1 nHeight)

def collateralView (nHeight : ℕ) : CCoinsViewCache where
  base := .db { coins := collateralCoins nHeight }

def collateralContext (params : CChainParams) (nHeight : ℕ) : MasternodeContext where
  globals := {
    params := params
    isSporkActive := fun _ => false
    getTime := 10000
    getAdjustedTime := 10000
    chainActive := [collateralBlock.getHash]
  }
  store := {
    readBlockFromDisk := fun b => if b = collateralBlock.getHash then some collateralBlock else none
    nTime := fun _ => 0
    getStakeModifierV2 := fun _ => 0
    hash := by
      intro b block found
      obtain ⟨same, eq⟩ := Option.ite_none_right_eq_some.mp found
      rw [same, ← Option.some.inj eq]
  }
  chain := {
    chainActive := { vChain := [some collateralBlock.getHash] }
    pcoinsTip := collateralView nHeight
    mempool := fun _ => none
    fTxIndex := false
    readTxIndex := fun _ => none
    newP2CSRules := false
  }

def emptyLists (nBestHeight : ℤ) : MasternodeLists where
  man := {
    mapMasternodes := ∅
    nBestHeight := nBestHeight
    cvLastBlockHashes := fun _ => collateralBlock.getHash
    keyed := CMasternodeMan.keyed_empty
  }

def collateralMasternode (n : UInt32) (sigTime : ℤ) : CMasternode where
  vin := { prevout := ⟨collateralTx.getHash, n⟩ }
  pubKeyCollateralAddress := [2]
  pubKeyMasternode := [3]
  sigTime := sigTime
  lastPing := {
    vin := { prevout := ⟨collateralTx.getHash, n⟩ }
    blockHash := collateralBlock.getHash
    sigTime := 10000
  }

def collateralBroadcast (n : UInt32) (sigTime : ℤ) : CMasternodeBroadcast :=
  let mnb : CMasternodeBroadcast := {
    toCMasternode := collateralMasternode n sigTime
    addr := { ip := [127, 0, 0, 1], port := 1, toStr := "127.0.0.1:1" }
  }
  { mnb with
    vchSig := (CMessageSigner.getMessageHash mnb.getSignatureHash.toStr).bytes ++ [2]
    pingMessage := { vchSig := mnb.ping.getHash.bytes ++ [3] } }

def listedLists : MasternodeLists :=
  { emptyLists 10 with man := (emptyLists 10).man.replace (collateralMasternode 0 9999) }

theorem refused_broadcast_removes :
    listedLists.man.mapMasternodes.keys = [⟨collateralTx.getHash, 0⟩] ∧
      ((collateralBroadcast 0 10000).checkInputsAndAdd (collateralContext .main 5) 10 0 listedLists).map
          (fun r => (r.1, r.1.result, r.2.2.man.mapMasternodes.keys)) =
        .ok (.fewConfirmations, false, []) := by
  decide +kernel

theorem refused_broadcast_unlisted :
    (emptyLists 10).man.find ⟨collateralTx.getHash, 0⟩ = none ∧
      ∃ outcome n lists',
        (collateralBroadcast 0 10000).checkInputsAndAdd (collateralContext .main 5) 10 0 (emptyLists 10) =
            .ok (outcome, n, lists') ∧
          lists'.man.mapMasternodes = (emptyLists 10).man.mapMasternodes := by
  have outcome :
      ((collateralBroadcast 0 10000).checkInputsAndAdd (collateralContext .main 5) 10 0 (emptyLists 10)).map (·.1) =
        .ok .fewConfirmations := by
    decide +kernel
  obtain ⟨⟨outcome, n, lists'⟩, done, rfl⟩ := map_eq_ok.mp outcome
  exact ⟨rfl, _, n, lists', done, (CMasternodeBroadcast.checkInputsAndAdd_unchanged_iff done rfl).mpr (.inl rfl)⟩

theorem collateralContext_agrees : (collateralContext .regtest 0).Agrees := by
  intro o coin txVin hashBlock unspent found
  have peeked : (collateralView 0).view.peek o = some coin := by
    obtain ⟨coin', peeked, unspent⟩ := Option.bind_eq_some_iff.mp unspent
    rw [← (Coin.unspent_eq_some.mp unspent).2]
    exact peeked
  have coins : (collateralCoins 0).lookup o = some coin := peeked
  have tx : getTransaction (collateralContext .regtest 0).store (collateralContext .regtest 0).chain
      collateralTx.getHash = some (collateralTx, collateralBlock.getHash) := by
    decide +kernel
  rw [collateralCoins, lookup_insert] at coins
  split at coins
  case isTrue second =>
    subst second
    cases tx.symm.trans found
    cases coins
    rfl
  case isFalse =>
    have first := mem_singleton.mp (AList.mem_lookup_iff.mp coins)
    cases first
    cases tx.symm.trans found
    rfl

end

end Qrax
