import Qrax.Validation.Replay
import Qrax.Validation.Theorems.DisconnectBlock
import Qrax.Validation.Theorems.Spending

open Fallible List Option Journal

namespace Qrax

open CTransaction Utxo

section

variable [Crypto]

namespace CCoinsViewCache

variable {v : CCoinsViewCache}

theorem addCoinsFrom_checked {banned : COutPoint → Bool} {txid : Uint256} {nHeight i : ℕ}
    {fCoinBase fCoinStake fSkipInvalid : Bool} {vout : List CTxOut} (consistent : v.Consistent)
    (amounts : ∀ txout ∈ vout, 0 ≤ txout.nValue.toInt) :
    ∃ v', addCoinsFrom banned txid nHeight fCoinBase fCoinStake true fSkipInvalid v i vout = .ok v' ∧
      Leads v (replay v.utxo
        (outputWrites (fun o => fSkipInvalid && banned o) txid nHeight fCoinBase fCoinStake i vout)) v' := by
  induction vout generalizing v i
  case nil => exact ⟨v, rfl, consistent, .fetched (.refl v), rfl⟩
  case cons out vout ih =>
    obtain ⟨amount, amounts⟩ := forall_mem_cons.mp amounts
    simp only [addCoinsFrom, outputWrites, if_true]
    split
    case isTrue banned =>
      have first := spendCoin_leads consistent { hash := txid, n := UInt32.ofNat i }
      obtain ⟨v', added, later⟩ := ih (i := i + 1) first.consistent amounts
      rw [first.utxo] at later
      exact ⟨v', added, first.trans later⟩
    case isFalse =>
      have unspent : Coin.isSpent { fCoinBase, fCoinStake, out, nHeight } = false := CTxOut.isNull_of_nonneg amount
      obtain ⟨v₁, add, first⟩ := addCoin_checked (o := { hash := txid, n := UInt32.ofNat i }) consistent unspent
      obtain ⟨v', added, later⟩ := ih (i := i + 1) first.consistent amounts
      rw [first.utxo] at later
      refine ⟨v', ?_, ?_⟩
      · rw [add, ok_bind]
        exact added
      · split_ifs at later ⊢ <;> exact first.trans later

theorem addCoins_checked {tx : CTransaction} (banned : COutPoint → Bool) (nHeight : ℕ) (fSkipInvalid : Bool)
    (consistent : v.Consistent) (amounts : ∀ txout ∈ tx.vout, 0 ≤ txout.nValue.toInt) :
    ∃ v', addCoins banned v tx nHeight true fSkipInvalid = .ok v' ∧
      Leads v (replay v.utxo (tx.writes (fun o => fSkipInvalid && banned o) nHeight)) v' :=
  addCoinsFrom_checked consistent amounts

theorem foldl_spendCoin_leads (consistent : v.Consistent) (vin : List CTxIn) :
    Leads v (v.utxo.spend vin) (vin.foldl (fun v txin => (v.spendCoin txin.prevout).2) v) := by
  induction vin generalizing v
  case nil => exact ⟨consistent, .fetched (.refl v), rfl⟩
  case cons txin vin ih =>
    have first := spendCoin_leads consistent txin.prevout
    have later := ih first.consistent
    rw [first.utxo] at later
    exact first.trans later

end CCoinsViewCache

open CCoinsViewCache (Leads Framed NoneBelow)

namespace CTransaction

-- `RollforwardBlock` does not tell transactions with assets apart.
def inputsRolled (tx : CTransaction) : List CTxIn :=
  if !tx.isCoinBase then tx.vin else []

omit [Crypto] in
theorem inputsRolled_of_assets {tx : CTransaction} (assets : tx.containsAssets) : tx.inputsRolled = tx.vin := by
  have other : tx.isCoinBase = false := by
    by_contra coinBase
    rw [not_containsAssets_of_isCoinBase (Bool.not_eq_false _ ▸ coinBase)] at assets
    cases assets
  rw [inputsRolled, other]
  rfl

omit [Crypto] in
theorem inputsRolled_of_no_assets {tx : CTransaction} (h : tx.containsAssets = false) :
    tx.inputsRolled = tx.inputsSpent := by
  rw [inputsRolled, inputsSpent, h, Bool.not_false, Bool.and_true]

end CTransaction

variable {node : Node} {nHeight : ℕ} {tx : CTransaction} {v : CCoinsViewCache}

theorem rollforwardTx_ok (node : Node) (nHeight : ℕ) (consistent : v.Consistent) (amounts : ∀ txout ∈ tx.vout, 0 ≤ txout.nValue.toInt) :
    ∃ v', rollforwardTx node nHeight v tx = .ok v' ∧ Leads v (tx.applied node nHeight tx.inputsRolled v.utxo) v' := by
  have spends : (if !tx.isCoinBase then tx.vin.foldl (fun v txin => (v.spendCoin txin.prevout).2) v else v) =
      tx.inputsRolled.foldl (fun v txin => (v.spendCoin txin.prevout).2) v := by
    unfold inputsRolled
    split <;> rfl
  have first := CCoinsViewCache.foldl_spendCoin_leads consistent tx.inputsRolled
  have ⟨v', added, later⟩ := CCoinsViewCache.addCoins_checked node.containsOutPoint nHeight
    (node.skipInvalidUTXOS nHeight) first.consistent amounts
  rw [first.utxo] at later
  refine ⟨v', ?_, first.trans later⟩
  rw [rollforwardTx, spends]
  exact added

theorem rollforwardTxs_ok (node : Node) (nHeight : ℕ) {vtx : List CTransaction} (consistent : v.Consistent)
    (amounts : ∀ tx ∈ vtx, ∀ txout ∈ tx.vout, 0 ≤ txout.nValue.toInt) :
    ∃ v', vtx.foldlM (rollforwardTx node nHeight) v = .ok v' ∧
      Leads v (ledger node nHeight inputsRolled v.utxo vtx) v' := by
  induction vtx generalizing v
  case nil => exact ⟨v, rfl, consistent, .fetched (.refl v), rfl⟩
  case cons tx vtx ih =>
    have ⟨amounts₁, amounts⟩ := forall_mem_cons.mp amounts
    have ⟨v₁, head, first⟩ := rollforwardTx_ok node nHeight consistent amounts₁
    have ⟨v', tail, later⟩ := ih first.consistent amounts
    rw [first.utxo] at later
    refine ⟨v', ?_, first.trans later⟩
    rw [foldlM_cons, head, ok_bind, tail]

namespace CTransaction

def Clears (tx : CTransaction) (node : Node) (nHeight : ℕ) (o : COutPoint) : Prop :=
  o ∈ tx.inputsSpent.map (·.prevout) ∨ (o, none) ∈ tx.writes (node.skips nHeight) nHeight

variable {u u' : Utxo} {vin : List CTxIn} {o : COutPoint}

theorem mem_creates {c : Coin} (h : (o, some c) ∈ tx.writes (node.skips nHeight) nHeight) :
    o ∈ (tx.move node nHeight).creates :=
  mem_map.mpr ⟨(o, c), outputWrites_some.mp h, rfl⟩

theorem applied_of_not_written (h : o ∉ (tx.writes (node.skips nHeight) nHeight).map (·.1)) :
    tx.applied node nHeight vin u o = u.spend vin o :=
  replay_of_not_mem h

theorem applied_of_not_created (u : Utxo) (vin : List CTxIn) (h : o ∉ (tx.move node nHeight).creates) :
    tx.applied node nHeight vin u o = none ∨ tx.applied node nHeight vin u o = u.spend vin o := by
  by_cases written : o ∈ (tx.writes (node.skips nHeight) nHeight).map (·.1)
  case neg => exact .inr (applied_of_not_written written)
  case pos =>
    refine .inl ?_
    have mem := replay_mem (f := u.spend vin) written
    cases last : tx.applied node nHeight vin u o
    case none => rfl
    case some c =>
      rw [applied] at last
      rw [last] at mem
      exact absurd (mem_creates mem) h

theorem applied_of_created (h : o ∈ (tx.move node nHeight).creates) : (tx.applied node nHeight vin u o).isSome := by
  have ⟨p, mem, eq⟩ := mem_map.mp h
  subst eq
  have added : (p.1, some p.2) ∈ tx.writes (node.skips nHeight) nHeight := outputWrites_some.mpr mem
  have last := replay_mem (f := u.spend vin) (mem_map_of_mem (f := (·.1)) added)
  have kept := outputWrites_isNone added
  rw [← outputWrites_isNone last] at kept
  rw [← not_isNone, applied, ← kept]
  rfl

theorem applied_keeps (h : (u o).isSome) (kept : ¬tx.Clears node nHeight o) :
    (tx.applied node nHeight tx.inputsSpent u o).isSome := by
  have ⟨unspent, unwritten⟩ := not_or.mp kept
  by_cases created : o ∈ (tx.move node nHeight).creates
  case pos => exact applied_of_created created
  case neg =>
    by_cases written : o ∈ (tx.writes (node.skips nHeight) nHeight).map (·.1)
    case neg => rwa [applied_of_not_written written, spend_of_not_mem unspent]
    case pos =>
      have mem := replay_mem (f := u.spend tx.inputsSpent) written
      cases last : tx.applied node nHeight tx.inputsSpent u o
      case some c => rfl
      case none =>
        rw [applied] at last
        rw [last] at mem
        exact absurd mem unwritten

theorem applied_cleared (h : tx.Clears node nHeight o) (new : o ∉ (tx.move node nHeight).creates) :
    tx.applied node nHeight tx.inputsSpent u o = none := by
  cases applied_of_not_created u tx.inputsSpent new
  case inl none => exact none
  case inr left =>
    cases h
    case inl named => rw [left, spend_of_mem named]
    case inr banned =>
      have last := replay_mem (f := u.spend tx.inputsSpent) (mem_map_of_mem (f := (·.1)) banned)
      have gone := outputWrites_isNone banned
      rw [← outputWrites_isNone last] at gone
      exact isNone_iff_eq_none.mp gone.symm

theorem not_created_of_banned {tx' : CTransaction} (h : (o, none) ∈ tx.writes (node.skips nHeight) nHeight) :
    o ∉ (tx'.move node nHeight).creates := by
  intro created
  have ⟨p, mem, eq⟩ := mem_map.mp created
  subst eq
  have kept := outputWrites_isNone (outputWrites_some.mpr mem)
  rw [← outputWrites_isNone h] at kept
  cases kept

end CTransaction

-- A transaction with assets names an outpoint of `K` or of the transactions before it.
inductive NamedWithAssets (node : Node) (nHeight : ℕ) : Set COutPoint → List CTransaction → COutPoint → Prop
  | here {K tx vtx o} :
    tx.containsAssets → o ∈ tx.vin.map (·.prevout) → o ∈ K → NamedWithAssets node nHeight K (tx :: vtx) o
  | there {K tx vtx o} :
    NamedWithAssets node nHeight (K ∪ {o | o ∈ (tx.move node nHeight).creates}) vtx o →
    NamedWithAssets node nHeight K (tx :: vtx) o

variable {vtx : List CTransaction} {u w : Utxo} {K B : Set COutPoint} {o : COutPoint}

-- What is created is new to `K`, which has all possibly unspent outpoints.
structure Tracked (node : Node) (nHeight : ℕ) (K : Set COutPoint) (u : Utxo) (vtx : List CTransaction) : Prop where
  alive : ∀ o, (u o).isSome → o ∈ K
  fresh : SpendOnce.Fresh K (vtx.map (·.move node nHeight))

theorem Tracked.step (h : Tracked node nHeight K u (tx :: vtx)) :
    Tracked node nHeight (K ∪ {o | o ∈ (tx.move node nHeight).creates}) (tx.applied node nHeight tx.inputsSpent u) vtx where
  alive o some := by
    by_cases created : o ∈ (tx.move node nHeight).creates
    case pos => exact .inr created
    case neg =>
      refine .inl (h.alive o ?_)
      cases applied_of_not_created u tx.inputsSpent created
      case inl none => rw [none] at some; cases some
      case inr left =>
        rw [left] at some
        have ⟨c, found⟩ := isSome_iff_exists.mp some
        rw [(spend_eq_some found).left]
        rfl
  fresh := h.fresh.grow

-- The two loops agree except for outpoints of `B`, unspent before and gone in the second.
structure Diverged (K B : Set COutPoint) (u w : Utxo) : Prop where
  known : B ⊆ K
  gone : ∀ o ∈ B, w o = none
  same : ∀ o ∉ B, w o = u o

theorem Diverged.step (h : Diverged K B u w) (tracked : Tracked node nHeight K u (tx :: vtx)) :
    Diverged (K ∪ {o | o ∈ (tx.move node nHeight).creates})
      (B ∪ {o | tx.containsAssets ∧ o ∈ tx.vin.map (·.prevout) ∧ o ∈ K})
      (tx.applied node nHeight tx.inputsSpent u) (tx.applied node nHeight tx.inputsRolled w) := by
  constructor
  case known =>
    rintro o (old | new)
    case inl => exact .inl (h.known old)
    case inr => exact .inl new.right.right
  case gone =>
    intro o mem
    have known : o ∈ K := mem.elim (fun old => h.known old) fun new => new.right.right
    have notCreated : o ∉ (tx.move node nHeight).creates := fun created =>
      tracked.fresh.absent o (mem_append_left _ created) known
    cases applied_of_not_created w tx.inputsRolled notCreated
    case inl none => exact none
    case inr left =>
      rw [left]
      cases mem
      case inl old => exact spend_of_none (h.gone o old)
      case inr new =>
        rw [inputsRolled_of_assets new.left]
        exact spend_of_mem new.right.left
  case same =>
    intro o notMem
    have ⟨old, new⟩ := not_or.mp notMem
    by_cases written : o ∈ (tx.writes (node.skips nHeight) nHeight).map (·.1)
    case pos => exact replay_congr written _ _
    case neg =>
      rw [applied_of_not_written written, applied_of_not_written written]
      cases assets : tx.containsAssets
      case false =>
        rw [inputsRolled_of_no_assets assets]
        exact spend_congr (h.same o old)
      case true =>
        -- What such a transaction names outside of `K` is no coin in either loop.
        have nothing : u.spend tx.inputsSpent o = u o := by
          rw [inputsSpent_of_other (by simp [assets])]
          rfl
        rw [nothing, inputsRolled_of_assets assets]
        by_cases named : o ∈ tx.vin.map (·.prevout)
        case neg => rw [spend_of_not_mem named, h.same o old]
        case pos =>
          rw [spend_of_mem named]
          refine (not_isSome_iff_eq_none.mp fun some => ?_).symm
          exact new ⟨assets, named, tracked.alive o some⟩

theorem Diverged.run (h : Diverged K B u w) (tracked : Tracked node nHeight K u vtx) :
    Diverged Set.univ (B ∪ {o | NamedWithAssets node nHeight K vtx o})
      (ledger node nHeight inputsSpent u vtx) (ledger node nHeight inputsRolled w vtx) := by
  induction vtx generalizing K B u w
  case nil =>
    have none : B ∪ {o | NamedWithAssets node nHeight K [] o} = B := by
      refine Set.union_eq_left.mpr ?_
      rintro o ⟨⟩
    rw [none]
    exact ⟨Set.subset_univ _, h.gone, h.same⟩
  case cons tx vtx ih =>
    have later := ih (h.step tracked) tracked.step
    have same : B ∪ {o | tx.containsAssets ∧ o ∈ tx.vin.map (·.prevout) ∧ o ∈ K} ∪
          {o | NamedWithAssets node nHeight (K ∪ {o | o ∈ (tx.move node nHeight).creates}) vtx o} =
        B ∪ {o | NamedWithAssets node nHeight K (tx :: vtx) o} := by
      rw [Set.union_assoc]
      congr 1
      ext o
      constructor
      · rintro (⟨assets, named, known⟩ | later)
        · exact .here assets named known
        · exact .there later
      · rintro (⟨assets, named, known⟩ | later)
        · exact .inl ⟨assets, named, known⟩
        · exact .inr later
    rw [same] at later
    exact later

theorem ledger_of_none (absent : u o = none) (new : o ∉ SpendOnce.created (vtx.map (·.move node nHeight))) :
    ledger node nHeight inputsSpent u vtx o = none := by
  induction vtx generalizing u
  case nil => exact absent
  case cons tx vtx ih =>
    have ⟨new₁, new⟩ := not_or.mp (mem_append.not.mp new)
    refine ih ?_ new
    cases applied_of_not_created u tx.inputsSpent new₁
    case inl gone => exact gone
    case inr left => exact left.trans (spend_of_none absent)

theorem ledger_cleared (tracked : Tracked node nHeight K u vtx) (funded : Funded node nHeight u vtx)
    (h : ∃ tx ∈ vtx, tx.Clears node nHeight o) : ledger node nHeight inputsSpent u vtx o = none := by
  induction vtx generalizing K u
  case nil => have ⟨_, mem, _⟩ := h; cases mem
  case cons tx vtx ih =>
    have ⟨tx', mem, clears⟩ := h
    cases mem_cons.mp mem
    case inr later => exact ih tracked.step funded.right ⟨tx', later, clears⟩
    case inl now =>
      subst now
      -- No transaction from here on creates the outpoint.
      have new : o ∉ SpendOnce.created ((tx' :: vtx).map (·.move node nHeight)) := by
        cases clears
        case inl named =>
          have ⟨txin, mem, eq⟩ := mem_map.mp named
          subst eq
          exact fun created => tracked.fresh.absent _ created (tracked.alive _ (funded.left txin mem))
        case inr banned =>
          intro created
          have ⟨m, mem, created⟩ := mem_flatMap.mp created
          have ⟨tx, _, eq⟩ := mem_map.mp mem
          subst eq
          exact not_created_of_banned banned created
      have ⟨new₁, new⟩ := not_or.mp (mem_append.not.mp new)
      rw [ledger_cons]
      exact ledger_of_none (applied_cleared clears new₁) new

theorem ledger_kept (kept : ∀ tx ∈ vtx, ¬tx.Clears node nHeight o) (some : (u o).isSome) :
    (ledger node nHeight inputsSpent u vtx o).isSome := by
  induction vtx generalizing u
  case nil => exact some
  case cons tx vtx ih =>
    have ⟨kept₁, kept⟩ := forall_mem_cons.mp kept
    exact ih kept (applied_keeps some kept₁)

theorem ledger_named (h : NamedWithAssets node nHeight K vtx o) (alive : o ∈ K → (u o).isSome)
    (kept : ∀ tx ∈ vtx, ¬tx.Clears node nHeight o) :
    (ledger node nHeight inputsSpent u vtx o).isSome := by
  induction h generalizing u
  case here known => exact ledger_kept kept (alive known)
  case there ih =>
    have ⟨kept₁, kept⟩ := forall_mem_cons.mp kept
    refine ih ?_ kept
    rintro (old | new)
    case inl => exact applied_keeps (alive old) kept₁
    case inr => exact applied_of_created new

-- The two loops lead to the same coins when every possible coin that a transaction with assets names is taken out by
-- the block anyway.
theorem ledger_eq_iff (tracked : Tracked node nHeight u.unspent u vtx) (funded : Funded node nHeight u vtx) :
    ledger node nHeight inputsRolled u vtx = ledger node nHeight inputsSpent u vtx ↔
      ∀ o, NamedWithAssets node nHeight u.unspent vtx o → ∃ tx ∈ vtx, tx.Clears node nHeight o := by
  have start : Diverged u.unspent ∅ u u := ⟨Set.empty_subset _, nofun, fun _ _ => rfl⟩
  have ⟨_, gone, same⟩ := start.run tracked
  rw [Set.empty_union] at gone same
  constructor
  case mp =>
    intro eq o named
    by_contra kept
    have left := ledger_named named id fun tx mem clears => kept ⟨tx, mem, clears⟩
    rw [← eq, gone o named] at left
    cases left
  case mpr =>
    intro cleared
    funext o
    by_cases named : NamedWithAssets node nHeight u.unspent vtx o
    case neg => exact same o named
    case pos => rw [gone o named, ledger_cleared tracked funded (cleared o named)]

theorem rollforwardBlock_agrees_iff {block : CBlock} {pindex : CBlockIndex} {pprev : Option CBlockIndex}
    {view : CCoinsViewCache} {fJustCheck : Bool} {r : Connected} (consistent : view.Consistent)
    (earned : block.FlagEarned node.params) (notGenesis : block.getHash ≠ node.consensus.hashGenesisBlock)
    (fresh : SpendOnce.Fresh view.utxo.unspent (block.vtx.map (·.move node pindex.nHeight)))
    (accepted : connectBlock .int64 node block pindex pprev view fJustCheck = .ok r) :
    ∃ v, rollforwardBlock node pindex.nHeight block view = .ok v ∧
      (v.utxo = r.view.utxo ↔ ∀ o, NamedWithAssets node pindex.nHeight view.utxo.unspent block.vtx o →
        ∃ tx ∈ block.vtx, tx.Clears node pindex.nHeight o) := by
  have ⟨checked, _, connected⟩ := connectBlock_ok earned accepted
  cases connected
  case genesis genesis _ => exact absurd genesis notGenesis
  case loop s _ _ loop _ _ view' =>
    have fetched := loopStart_fetched view
    have start := (NoneBelow.start consistent).fetched fetched
    have ⟨_, eq, funded⟩ := (connectTxs_ok checked.transactions loop).ledger start (coins_absent fresh)
    rw [fetched.utxo] at eq funded
    have same : r.view.utxo = s.view.utxo := view' ▸ (s.view.finished_sameCoins ..).utxo
    have ⟨v, rolled, leads⟩ := rollforwardTxs_ok node pindex.nHeight consistent fun tx mem txout out =>
      ((checked.transactions tx mem).amounts.each txout out).left
    refine ⟨v, rolled, ?_⟩
    rw [leads.utxo, same, eq]
    exact ledger_eq_iff ⟨fun _ some => some, fresh⟩ funded

end

theorem rollforwardBlock_agrees_payments :
    let _crypto := Crypto.toy
    let node := exampleNode .regtest exampleTip
    let block := exampleBlock exampleTip [minerTx, paymentTx, changeTx]
    ∃ r v, connectBlock .int64 node block exampleIndex (some exampleTip) exampleView false = .ok r ∧
      rollforwardBlock node 10 block exampleView = .ok v ∧ v.utxo = r.view.utxo := by
  intro _crypto node block
  have accepted : (connectBlock .int64 node block exampleIndex (some exampleTip) exampleView false).isOk := by
    decide +kernel
  have ⟨r, accepted⟩ := isOk_iff.mp accepted
  have distinct : (SpendOnce.created (block.vtx.map (·.move node 10))).Nodup := by decide
  have absent : ∀ o ∈ SpendOnce.created (block.vtx.map (·.move node 10)), exampleView.utxo o = none := by decide
  have ⟨v, rolled, agrees⟩ := rollforwardBlock_agrees_iff exampleView_consistent (exampleBlock_earned _ _ _)
    (by decide) ⟨distinct, fun o mem => not_isSome_iff_eq_none.mpr (absent o mem)⟩ accepted
  refine ⟨r, v, accepted, rolled, agrees.mpr fun o named => ?_⟩
  -- No transaction of the block has assets.
  exfalso
  rcases named with ⟨assets, _, _⟩ | ⟨assets, _, _⟩ | ⟨assets, _, _⟩ | ⟨⟨⟩⟩
  all_goals exact absurd assets (by decide)

-- `RollforwardBlock` takes out a coin that `ConnectBlock` left.
theorem rollforwardBlock_spends_named :
    let _crypto := Crypto.toy
    let node := exampleNode .regtest exampleTip
    let block := exampleBlock exampleTip [minerTx, mintTx]
    ∃ r v, connectBlock .int64 node block exampleIndex (some exampleTip) exampleView false = .ok r ∧
      rollforwardBlock node 10 block exampleView = .ok v ∧
      r.view.utxo ⟨5, 0⟩ = some exampleCoin ∧ v.utxo ⟨5, 0⟩ = none := by
  intro _crypto node block
  have run : (do
      let r ← connectBlock .int64 node block exampleIndex (some exampleTip) exampleView false
      let v ← rollforwardBlock node 10 block exampleView
      .ok (r.view.utxo ⟨5, 0⟩, v.utxo ⟨5, 0⟩)) = .ok (some exampleCoin, none) := by
    decide +kernel
  have ⟨r, connected, run⟩ := bind_eq_ok.mp run
  have ⟨v, rolled, run⟩ := bind_eq_ok.mp run
  rw [Except.ok.injEq, Prod.mk.injEq] at run
  exact ⟨r, v, connected, rolled, run⟩

end Qrax
