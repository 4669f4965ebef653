import Qrax.Script.Theorems.LockTime
import Qrax.Validation.AcceptToMemoryPool
import Qrax.Validation.Theorems.Spending

open Fallible Option List

namespace Qrax

open CCoinsViewCache (Fetched)
open CCoinsView CScriptCheck

section

variable (node : Node) (pcoinsTip : CCoinsViewCache) (pool : CTxMemPool) (tx : CTransaction)

def poolCoins : Utxo := fun o =>
  match pool.mapTx.lookup o.hash with
  | some tx => (tx.vout[o.n.toNat]?).bind fun out => ({ out, nHeight := MEMPOOL_HEIGHT } : Coin).unspent
  | none => pcoinsTip.utxo o

variable [Crypto]

-- The transaction is entitled to what it spends, and pays no more than it takes.
structure Entitled : Prop where
  coins : (poolCoins pcoinsTip pool).Holds tx.vin
  scripts : ∀ i txin c, tx.vin[i]? = some txin → poolCoins pcoinsTip pool txin.prevout = some c →
    verifyScript MANDATORY_SCRIPT_VERIFY_FLAGS
      (TransactionSignatureChecker.checker node.newP2CSRules tx i c.out.nValue) tx.getRequiredSigVersion
      txin.scriptSig c.out.scriptPubKey = .ok ()
  value : (tx.vout.map (·.nValue.toInt)).sum ≤ (poolCoins pcoinsTip pool).valueIn tx.vin

-- The checks of scripts and amounts that `CheckInputs` skips for a transaction with assets.
structure SkippedChecks : Prop where
  scripts : ∀ check ∈ CScriptCheck.ofInputs (poolCoins pcoinsTip pool) tx MANDATORY_SCRIPT_VERIFY_FLAGS 0 tx.vin,
    check.run node = .ok ()
  value : (tx.vout.map (·.nValue.toInt)).sum ≤ (poolCoins pcoinsTip pool).valueIn tx.vin

end

variable {node : Node} {pcoinsTip : CCoinsViewCache} {pool pool' : CTxMemPool} {tx : CTransaction}

theorem viewMemPool_utxo (pcoinsTip : CCoinsViewCache) (pool : CTxMemPool) :
    (viewMemPool pcoinsTip pool).utxo = poolCoins pcoinsTip pool := by
  funext o
  have empty : (viewMemPool pcoinsTip pool).view.peek o =
      (memPool pool.toPoolTransactions pcoinsTip.view).peek o := rfl
  simp only [CCoinsViewCache.utxo, utxo, empty, peek, poolCoins]
  cases pool.mapTx.lookup o.hash
  case some tx => rw [bind_map]; rfl
  case none =>
    dsimp only
    cases pcoinsTip.view.peek o
    case none => rfl
    case some c =>
      cases spent : c.isSpent <;> simp [Option.filter, spent, Coin.unspent]

theorem utxo_of_detached {v : CCoinsViewCache} {o : COutPoint} {c : Coin}
    (h : ({ v with base := .db {} } : CCoinsViewCache).utxo o = some c) : v.utxo o = some c := by
  simp only [CCoinsViewCache.utxo, CCoinsViewCache.view, utxo, peek] at h ⊢
  cases entry : v.cache.cacheCoins.lookup o <;> simp only [entry] at h ⊢
  case none => cases h
  case some e => exact h

theorem Utxo.Holds.agrees {u u' : Utxo} {vin : List CTxIn} (holds : u.Holds vin)
    (known : ∀ o c, u o = some c → u' o = some c) : ∀ txin ∈ vin, u txin.prevout = u' txin.prevout := by
  intro txin mem
  have ⟨c, coin⟩ := isSome_iff_exists.mp (holds txin mem)
  rw [coin, known _ c coin]

theorem Utxo.valueIn_congr {u u' : Utxo} {vin : List CTxIn}
    (agrees : ∀ txin ∈ vin, u txin.prevout = u' txin.prevout) : u.valueIn vin = u'.valueIn vin := by
  unfold valueIn valueAt
  exact congrArg sum (map_congr_left fun txin mem => by rw [agrees txin mem])

theorem mem_addUnchecked [Crypto] {o : COutPoint} (mem : o ∈ (pool.addUnchecked tx).mapNextTx) :
    o ∈ pool.mapNextTx ∨ o ∈ tx.vin.map (·.prevout) := by
  have mem : o ∈ tx.vin.foldl (fun mapNextTx txin =>
    if txin.prevout ∈ mapNextTx then mapNextTx else mapNextTx.insert txin.prevout tx) pool.mapNextTx := mem
  generalize pool.mapNextTx = mapNextTx, tx.vin = vin at mem ⊢
  induction vin generalizing mapNextTx
  case nil => exact .inl mem
  case cons txin vin ih =>
    rw [map_cons, mem_cons]
    obtain before | later := ih _ mem
    case inr => exact .inr (.inr later)
    case inl =>
      dsimp only at before
      split at before
      case isTrue => exact .inl before
      case isFalse =>
        rw [AList.mem_insert] at before
        exact before.elim (fun eq => .inr (.inl eq)) .inl

section

variable [Crypto] {u : Utxo} {vin : List CTxIn} {nFlags : ScriptFlags} {check : CScriptCheck} {n : ℕ}

omit [Crypto] in
theorem CScriptCheck.mem_ofInputs : check ∈ ofInputs u tx nFlags n vin ↔ ∃ i txin, vin[i]? = some txin ∧
    check = ⟨((u txin.prevout).getD {}).out.scriptPubKey, ((u txin.prevout).getD {}).out.nValue, tx, n + i, nFlags⟩ := by
  induction vin generalizing n
  case nil => simp [ofInputs]
  case cons txin vin ih =>
    rw [ofInputs, mem_cons, ih]
    constructor
    case mp =>
      rintro (rfl | ⟨i, txin', found, rfl⟩)
      case inl => exact ⟨0, txin, rfl, rfl⟩
      case inr => exact ⟨i + 1, txin', found, by rw [Nat.add_right_comm, Nat.add_assoc]⟩
    case mpr =>
      rintro ⟨i, txin', found, rfl⟩
      cases i
      case zero =>
        cases found
        exact .inl rfl
      case succ i => exact .inr ⟨i, txin', found, by rw [Nat.add_right_comm, Nat.add_assoc]⟩

theorem CScriptCheck.run_of_verify (h : check.verify node = .ok ()) : check.run node = .ok () := by
  unfold verify at h
  split at h
  case h_1 done => exact done
  case h_2 =>
    dsimp only at h
    split at h
    case isTrue => cases h
    case isFalse => cases h

theorem CScriptCheck.run_mandatory {script : CScript} {amount : CAmount} {i : ℕ}
    (h : run node ⟨script, amount, tx, i, MANDATORY_SCRIPT_VERIFY_FLAGS ||| SCRIPT_VERIFY_CHECKLOCKTIMEVERIFY⟩ = .ok ()) :
    run node ⟨script, amount, tx, i, MANDATORY_SCRIPT_VERIFY_FLAGS⟩ = .ok () :=
  verifyScript_without MANDATORY_SCRIPT_VERIFY_FLAGS.withoutLockTime
    (checkColdStake_without MANDATORY_SCRIPT_VERIFY_FLAGS.withoutLockTime) h

-- Lock times only refuse more.
theorem CScriptCheck.run_without {flags : ScriptFlags} (without : check.nFlags.WithoutLockTime flags)
    (h : check.run node = .ok ()) : run node { check with nFlags := flags } = .ok () :=
  verifyScript_without without (checkColdStake_without without) h

theorem entitled_iff_skippedChecks (coins : (poolCoins pcoinsTip pool).Holds tx.vin) :
    Entitled node pcoinsTip pool tx ↔ SkippedChecks node pcoinsTip pool tx := by
  constructor
  case mp =>
    intro entitled
    refine ⟨fun check mem => ?_, entitled.value⟩
    have ⟨i, txin, found, eq⟩ := mem_ofInputs.mp mem
    have ⟨c, coin⟩ := isSome_iff_exists.mp (coins txin (mem_of_getElem? found))
    rw [coin, getD_some, Nat.zero_add] at eq
    have verified := entitled.scripts i txin c found coin
    rw [eq]
    simp only [run, found, elim_some]
    exact verified
  case mpr =>
    intro skipped
    refine ⟨coins, fun i txin c found coin => ?_, skipped.value⟩
    have verified := skipped.scripts _ (mem_ofInputs.mpr ⟨i, txin, found, rfl⟩)
    rw [coin, getD_some, Nat.zero_add] at verified
    simp only [run, found, elim_some] at verified
    exact verified

end

section

variable [Crypto] [Librustzcash] {policy : PoolPolicy} {adjustedTime medianTimePast : ℤ} {fOverrideMempoolLimit : Bool}

theorem preChecks_ok {chainHeight : ℕ}
    (passed : preChecks node policy adjustedTime medianTimePast pool tx chainHeight = .ok ()) :
    tx.Checked node.consensus ∧ tx.isCoinBase = false ∧ tx.isCoinStake = false := by
  simp only [preChecks, bind_eq_ok, exists_unit, failIf_eq_ok] at passed
  have ⟨_, checked, _, coinBase, coinStake, _⟩ := passed
  exact ⟨checkTransaction_ok checked, Bool.eq_false_iff.mpr coinBase, Bool.eq_false_iff.mpr coinStake⟩

omit [Librustzcash] in
theorem haveOutput_fetched (tx : CTransaction) (v : CCoinsViewCache) (outs : List ℕ) : Fetched v (haveOutput tx v outs).2 := by
  induction outs generalizing v
  case nil => exact .refl v
  case cons out outs ih =>
    have ⟨v₁, eq, fetched⟩ := v.haveCoin_eq { hash := tx.getHash, n := UInt32.ofNat out }
    simp only [haveOutput, eq]
    cases (v.utxo { hash := tx.getHash, n := UInt32.ofNat out }).isSome
    case true => exact fetched
    case false => exact fetched.trans (ih v₁)

omit [Librustzcash] in
theorem fetchInputs_ok {nValueIn : ℤ} {v : CCoinsViewCache} (coinBase : tx.isCoinBase = false)
    (fetched : fetchInputs pcoinsTip pool tx = .ok (nValueIn, v)) :
    (poolCoins pcoinsTip pool).Holds tx.vin ∧ (tx.containsAssets = false →
      ∀ o c, v.utxo o = some c → poolCoins pcoinsTip pool o = some c) := by
  have fetched₁ := haveOutput_fetched tx (viewMemPool pcoinsTip pool) (range tx.vout.length)
  simp only [fetchInputs, bind_eq_ok, exists_unit, failIf_eq_ok, Bool.not_eq_true', Bool.not_eq_false] at fetched
  generalize (haveOutput tx (viewMemPool pcoinsTip pool) (range tx.vout.length)) = r₁ at fetched fetched₁
  obtain ⟨v₂, have', fetched₂⟩ := r₁.2.haveCoins_eq (tx.vin.map (·.prevout))
  rw [have'] at fetched
  obtain ⟨_, found, _, ⟨n, v'⟩, value, eq⟩ := fetched
  cases eq
  have reads := fetched₁.trans fetched₂
  have holds : (poolCoins pcoinsTip pool).Holds tx.vin := by
    rw [fetched₁.utxo, viewMemPool_utxo] at found
    simpa [Utxo.Holds] using found
  refine ⟨holds, fun assets o c coin => ?_⟩
  have reads := reads.trans (v₂.haveShieldedRequirements_fetched tx)
  obtain ⟨v₄, best, fetched₄⟩ := (v₂.haveShieldedRequirements tx).2.getBestBlock_eq
  have reads := reads.trans fetched₄
  rw [best] at value
  obtain ⟨v₅, fetched₅, sum⟩ := CCoinsViewCache.getValueIn_eq coinBase assets (v := v₄)
    (by rw [reads.utxo, viewMemPool_utxo]; exact holds)
  rw [sum, map_eq_ok] at value
  obtain ⟨_, _, eq⟩ := value
  cases eq
  have coin := utxo_of_detached coin
  rwa [(reads.trans fetched₅).utxo, viewMemPool_utxo] at coin

structure Accepted (node : Node) (pcoinsTip : CCoinsViewCache) (pool pool' : CTxMemPool) (tx : CTransaction) : Prop where
  holds : (poolCoins pcoinsTip pool).Holds tx.vin
  ordinary : tx.containsAssets = false → SkippedChecks node pcoinsTip pool tx
  occupied : ∀ o ∈ pool'.mapNextTx, o ∈ pool.mapNextTx ∨ o ∈ tx.vin.map (·.prevout)

section

variable
  (accepted : acceptToMemoryPool node policy adjustedTime medianTimePast pcoinsTip pool tx fOverrideMempoolLimit = .ok pool')

include accepted

theorem acceptToMemoryPool_ok : Accepted node pcoinsTip pool pool' tx := by
  unfold acceptToMemoryPool at accepted
  split at accepted
  case h_1 => cases accepted
  case h_2 tip _ =>
    simp only [bind_eq_ok, exists_unit, failIf_eq_ok] at accepted
    have ⟨passed, ⟨nValueIn, v⟩, fetched, _, _, nValueOut, _, nFees, _, _, _, ⟨_, v₁⟩, standard, ⟨_, v₂⟩, mandatory, _,
      _, eq⟩ := accepted
    have ⟨checked, coinBase, coinStake⟩ := preChecks_ok passed
    have ⟨holds, known⟩ := fetchInputs_ok coinBase fetched
    constructor
    case holds => exact holds
    case ordinary =>
      intro assets
      have ⟨fetched₁, _⟩ := checkInputs_ok coinBase assets standard
      have same := ((getP2SHSigOpCount_fetched tx v).trans fetched₁).utxo
      have ⟨_, inputs, _, fee, verified⟩ := checkInputs_ok coinBase assets mandatory
      rw [same] at inputs fee verified
      have agrees := inputs.holds.agrees (known assets)
      refine ⟨fun check mem => ?_, ?_⟩
      · have ⟨i, txin, found, eq⟩ := mem_ofInputs.mp mem
        rw [← agrees txin (mem_of_getElem? found)] at eq
        have ran := run_of_verify (verified rfl rfl _ (mem_ofInputs.mpr ⟨i, txin, found, rfl⟩))
        exact eq ▸ run_mandatory ran
      · rw [← Utxo.valueIn_congr agrees]
        exact checkTxFee_le checked (fee coinStake)
    case occupied =>
      intro o mem
      cases eq
      have mem := policy.trim_removes mem
      split at mem
      case isTrue => exact mem_addUnchecked mem
      case isFalse => exact mem_addUnchecked (policy.limit_removes mem)

-- Without assets, or if what they switch off would have passed.
theorem acceptToMemoryPool_entitled_iff :
    (∀ o ∈ pool'.mapNextTx, o ∈ pool.mapNextTx ∨ o ∈ tx.vin.map (·.prevout)) ∧
      (Entitled node pcoinsTip pool tx ↔ (tx.containsAssets → SkippedChecks node pcoinsTip pool tx)) := by
  have ⟨holds, ordinary, occupied⟩ := acceptToMemoryPool_ok accepted
  refine ⟨occupied, ?_⟩
  rw [entitled_iff_skippedChecks holds]
  refine ⟨fun passed _ => passed, fun passed => ?_⟩
  cases assets : tx.containsAssets
  case true => exact passed assets
  case false => exact ordinary assets

end

end

section

attribute [local instance] Crypto.toy Librustzcash.toy

def keyHashScript : CScript :=
  [0x76, 0xa9, 0x14] ++ List.replicate 20 9 ++ [0x88, 0xac]

def walletView : CCoinsViewCache where
  base := .db {
    coins := AList.insert ⟨5, 0⟩ { out := { nValue := 200000, scriptPubKey := [0x51] }, nHeight := 3 } <|
      AList.insert ⟨6, 0⟩ { out := { nValue := 200000, scriptPubKey := keyHashScript }, nHeight := 3 } ∅
    bestBlock := some 7
  }

def simpleTx : CTransaction where
  vin := [{ prevout := ⟨5, 0⟩ }]
  vout := [{ nValue := 150000, scriptPubKey := keyHashScript }]

def unsignedMintTx : CTransaction where
  vin := [{ prevout := ⟨6, 0⟩ }]
  vout := [{ nValue := 900000, scriptPubKey := getScriptForMultiminingDestination 9 }]

def poolEntry (tx : CTransaction) : Except Failure CTxMemPool :=
  acceptToMemoryPool (exampleNode .regtest exampleTip) {} 0 0 walletView {} tx false

theorem run_without_mandatory :
    run (exampleNode .regtest exampleTip) ⟨[0x51], 5, simpleTx, 0, MANDATORY_SCRIPT_VERIFY_FLAGS⟩ = .ok () :=
  @CScriptCheck.run_without _ _ ⟨_, _, _, _, _⟩ _ MANDATORY_SCRIPT_VERIFY_FLAGS.withoutLockTime (by decide)

theorem acceptToMemoryPool_unsigned :
    (∃ pool, poolEntry unsignedMintTx = .ok pool ∧ ⟨6, 0⟩ ∈ pool.mapNextTx) ∧
      verifyScript MANDATORY_SCRIPT_VERIFY_FLAGS (TransactionSignatureChecker.checker false unsignedMintTx 0 200000)
        unsignedMintTx.getRequiredSigVersion [] keyHashScript ≠ .ok () ∧
      ¬Entitled (exampleNode .regtest exampleTip) walletView {} unsignedMintTx := by
  have entered : ((poolEntry unsignedMintTx).toOption.any fun pool => ⟨6, 0⟩ ∈ pool.mapNextTx) = true := by
    decide
  have value : ¬(unsignedMintTx.vout.map (·.nValue.toInt)).sum ≤ (poolCoins walletView {}).valueIn unsignedMintTx.vin := by
    decide
  refine ⟨?_, by decide, fun entitled => value entitled.value⟩
  cases eq : poolEntry unsignedMintTx <;> rw [eq] at entered
  case error => cases entered
  case ok pool => exact ⟨pool, rfl, by simpa [Except.toOption] using entered⟩

theorem acceptToMemoryPool_simple : Entitled (exampleNode .regtest exampleTip) walletView {} simpleTx := by
  have entered : (poolEntry simpleTx).isOk := by decide
  have ⟨_, accepted⟩ := isOk_iff.mp entered
  have plain : simpleTx.containsAssets = false := by decide
  refine (acceptToMemoryPool_entitled_iff accepted).right.mpr fun assets => ?_
  rw [plain] at assets
  cases assets

end

end Qrax
