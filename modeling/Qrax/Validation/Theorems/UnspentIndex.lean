import Qrax.Validation.Theorems.Indexes
import Qrax.Validation.Theorems.Undo

open Fallible List Journal
open Option (bind_eq_bind bind_none bind_some ext)

namespace Qrax

open ScriptAddress CTransaction IndexUpdates

-- The unspent records as a function of the coins, and what transactions write of them.

namespace ScriptAddress

variable (a : ScriptAddress) (o : COutPoint) (s : IndexSource) (spending : Bool)

def unspentKeys : List DBKey :=
  if a.addressType = .UNKNOWN_TYPE then []
  else .addressUnspentIndex (a.unspentKey o) ::
    if a.isColdstake then [.addressDelegationUnspentIndex (a.delegationUnspentKey o)] else []

def amountKeys : List DBKey :=
  if a.addressType = .UNKNOWN_TYPE then []
  else .addressIndex (s.addressKey a spending) ::
    if a.isColdstake then [.addressDelegationIndex (s.delegationKey a spending)] else []

end ScriptAddress

namespace DBKey

def unspentOutPoint : DBKey → Option COutPoint
  | addressUnspentIndex key => some { hash := key.txhash, n := key.index }
  | addressDelegationUnspentIndex key => some { hash := key.txhash, n := key.index }
  | _ => none

def txid : DBKey → Option Uint256
  | addressIndex key => some key.txhash
  | addressDelegationIndex key => some key.txhash
  | addressDelegationUnspentIndex key => some key.txhash
  | addressUnspentIndex key => some key.txhash
  | spentIndex key => some key.txid
  | _ => none

variable {k : DBKey} {a : ScriptAddress} {o : COutPoint} {s : IndexSource} {spending : Bool}

theorem unspentOutPoint_of_mem (h : k ∈ a.unspentKeys o) : k.unspentOutPoint = some o := by
  simp only [unspentKeys] at h
  split at h
  case isTrue => cases h
  case isFalse =>
    cases mem_cons.mp h
    case inl eq => rw [eq]; rfl
    case inr h =>
      split at h
      case isTrue => rw [mem_singleton.mp h]; rfl
      case isFalse => cases h

theorem txid_of_unspentOutPoint (h : k.unspentOutPoint = some o) : k.txid = some o.hash := by
  cases k <;> cases h <;> rfl

theorem of_mem_amountKeys (h : k ∈ a.amountKeys s spending) : k.unspentOutPoint = none ∧ k.txid = some s.txhash := by
  simp only [amountKeys] at h
  split at h
  case isTrue => cases h
  case isFalse =>
    cases mem_cons.mp h
    case inl eq => rw [eq]; exact ⟨rfl, rfl⟩
    case inr h =>
      split at h
      case isTrue => rw [mem_singleton.mp h]; exact ⟨rfl, rfl⟩
      case isFalse => cases h

end DBKey

theorem IndexUpdates.mem_entries_updates {put : Bool} {a : ScriptAddress} {o : COutPoint} {s : IndexSource}
    {spending : Bool} {nValue : CAmount} {value : CAddressUnspentValue} {w : DBKey × Option DBValue} :
    w ∈ (a.updates o s spending nValue value).entries put ↔
      w.1 ∈ a.unspentKeys o ∧ w.2 = value.stored ∨
      w.1 ∈ a.amountKeys s spending ∧ w.2 = if put then some (.amount nValue) else none := by
  have ⟨k, v⟩ := w
  simp only [updates, unspentKeys, amountKeys, entries]
  split_ifs <;> simp <;> tauto

-- The unspent records when every coin has those that `addr` gives its script.
def Utxo.unspentIndex (addr : CScript → ScriptAddress) (u : Utxo) (k : DBKey) : Option DBValue := do
  let o ← k.unspentOutPoint
  let c ← u o
  if k ∈ (addr c.out.scriptPubKey).unspentKeys o then some (.unspent (unspentValue c.out c.nHeight)) else none

namespace Utxo

variable {addr : CScript → ScriptAddress} {u u' : Utxo} {k : DBKey} {o : COutPoint} {c : Coin}

theorem unspentIndex_of_mem (found : u o = some c) (mem : k ∈ (addr c.out.scriptPubKey).unspentKeys o) :
    u.unspentIndex addr k = some (.unspent (unspentValue c.out c.nHeight)) := by
  simp only [unspentIndex, DBKey.unspentOutPoint_of_mem mem, found, bind_eq_bind, bind_some, if_pos mem]

theorem unspentIndex_eq_some {v : DBValue} (h : u.unspentIndex addr k = some v) :
    ∃ o c, k.unspentOutPoint = some o ∧ u o = some c ∧ k ∈ (addr c.out.scriptPubKey).unspentKeys o ∧
      v = .unspent (unspentValue c.out c.nHeight) := by
  simp only [unspentIndex, bind_eq_bind, Option.bind_eq_some_iff] at h
  have ⟨o, key, c, found, h⟩ := h
  split at h
  case isTrue mem => exact ⟨o, c, key, found, mem, (Option.some.inj h).symm⟩
  case isFalse => cases h

theorem unspentIndex_of_none (key : k.unspentOutPoint = some o) (none : u o = none) :
    u.unspentIndex addr k = Option.none := by
  simp only [unspentIndex, key, none, bind_eq_bind, bind_some, bind_none]

theorem unspentIndex_of_other (key : k.unspentOutPoint = none) : u.unspentIndex addr k = none := by
  simp only [unspentIndex, key, bind_eq_bind, bind_none]

end Utxo

namespace IndexUpdates

variable {put : Bool} {w : DBKey × Option DBValue}

theorem mem_entries_append {u v : IndexUpdates} : w ∈ (u ++ v).entries put ↔ w ∈ u.entries put ∨ w ∈ v.entries put := by
  simp only [entries, append_def, map_append, mem_append]
  tauto

theorem mem_entries_join {α : Type} {l : List α} {f : α → IndexUpdates} :
    w ∈ (join (l.map f)).entries put ↔ ∃ a ∈ l, w ∈ (f a).entries put := by
  induction l
  case nil => simp [join, entries]
  case cons a l ih => rw [exists_mem_cons_iff, ← ih, ← mem_entries_append]; rfl

theorem mem_entries_spent {a : ScriptAddress} {o : COutPoint} {s : IndexSource} {spending : Bool} {nValue : CAmount}
    {value : CAddressUnspentValue} {l : List (CSpentIndexKey × CSpentIndexValue)} :
    w ∈ { a.updates o s spending nValue value with spentIndex := l }.entries put ↔
      w ∈ (a.updates o s spending nValue value).entries put ∨ ∃ e ∈ l, w = (.spentIndex e.1, e.2.stored) := by
  have none : (a.updates o s spending nValue value).spentIndex = [] := by
    unfold updates
    split <;> rfl
  simp only [entries, none, mem_append, mem_map, map_nil, not_mem_nil, or_false, eq_comm (a := w)]

end IndexUpdates

section

theorem unspentValue_stored {c : Coin} (unspent : c.isSpent = false) (nHeight : ℕ) :
    (unspentValue c.out nHeight).stored = some (.unspent (unspentValue c.out nHeight)) :=
  if_neg (Bool.eq_false_iff.mp unspent)

variable [Crypto]

theorem hashesAddress_eq (newP2CSRules : Bool) (script : CScript) :
    hashesAddress newP2CSRules script = scriptAddress newP2CSRules script := by
  simp only [hashesAddress, getHashBytesFromScriptPubKey, scriptAddress]
  split_ifs <;> simp_all

section

variable (node : Node) (fSpentIndex : Bool) (nHeight i : ℕ) (tx : CTransaction) (coins : List Coin)

-- What a transaction at position `i` spending `coins` adds to the indexes, and what is written on disconnecting it.
def CTransaction.spendUpdates : IndexUpdates :=
  .join ((tx.inputsSpent.zip coins).zipIdx.map fun ((txin, coin), j) =>
    indexInput node fSpentIndex ⟨nHeight, i, tx.getHash, j⟩ txin.prevout coin.out)

def CTransaction.createUpdates : IndexUpdates :=
  .join (tx.vout.zipIdx.map fun (out, k) => indexOutput node ⟨nHeight, i, tx.getHash, k⟩ out)

def CTransaction.uncreateUpdates : IndexUpdates :=
  .join (tx.vout.zipIdx.reverse.map fun (out, k) => unindexOutput node ⟨nHeight, i, tx.getHash, k⟩ out)

def CTransaction.unspendUpdates : IndexUpdates :=
  .join ((tx.inputsSpent.zip coins).zipIdx.reverse.map fun ((txin, coin), j) =>
    unindexInput node fSpentIndex ⟨nHeight, i, tx.getHash, j⟩ txin.prevout coin.out coin.nHeight)

def CTransaction.undoUpdates : IndexUpdates :=
  tx.uncreateUpdates node nHeight i ++ tx.unspendUpdates node fSpentIndex nHeight i coins

def CTransaction.undoKeys : List DBKey :=
  ((tx.undoUpdates node fSpentIndex nHeight i coins).entries false).map (·.1)

end

variable {node : Node} {fSpentIndex : Bool} {nHeight i : ℕ} {tx : CTransaction} {coins : List Coin}
  {w : DBKey × Option DBValue}

theorem indexTx_eq (on : node.fAddressIndex) :
    indexTx node fSpentIndex nHeight i tx coins =
      tx.spendUpdates node fSpentIndex nHeight i coins ++ tx.createUpdates node nHeight i := by
  simp only [indexTx, on, Bool.true_or, Bool.and_true, if_true, spendUpdates, createUpdates,
    inputsSpent]
  split <;> rfl

variable {put : Bool}

theorem CTransaction.mem_createUpdates (avoids : tx.Avoids node.containsOutPoint) :
    w ∈ (tx.createUpdates node nHeight i).entries put ↔ ∃ out n, (out, n) ∈ tx.vout.zipIdx ∧
      (w.1 ∈ (scriptAddress node.newP2CSRules out.scriptPubKey).unspentKeys ⟨tx.getHash, UInt32.ofNat n⟩ ∧
          w.2 = (unspentValue out nHeight).stored ∨
        w.1 ∈ (scriptAddress node.newP2CSRules out.scriptPubKey).amountKeys ⟨nHeight, i, tx.getHash, n⟩ false ∧
          w.2 = if put then some (.amount out.nValue) else none) := by
  simp only [createUpdates, mem_entries_join, Prod.exists]
  refine exists_congr fun out => exists_congr fun n => and_congr_right fun mem => ?_
  have free : node.containsOutPoint (IndexSource.mk nHeight i tx.getHash n).outPoint = false :=
    avoids n (snd_lt_of_mem_zipIdx mem)
  rw [indexOutput, if_neg (Bool.eq_false_iff.mp free), mem_entries_updates]
  rfl

theorem CTransaction.mem_uncreateUpdates :
    w ∈ (tx.uncreateUpdates node nHeight i).entries put ↔ ∃ out n, (out, n) ∈ tx.vout.zipIdx ∧
      (w.1 ∈ (scriptAddress node.newP2CSRules out.scriptPubKey).unspentKeys ⟨tx.getHash, UInt32.ofNat n⟩ ∧ w.2 = none ∨
        w.1 ∈ (scriptAddress node.newP2CSRules out.scriptPubKey).amountKeys ⟨nHeight, i, tx.getHash, n⟩ false ∧
          w.2 = if put then some (.amount (-out.nValue)) else none) := by
  simp only [uncreateUpdates, mem_entries_join, mem_reverse, Prod.exists, unindexOutput,
    mem_entries_updates, hashesAddress_eq]
  rfl

theorem CTransaction.mem_spendUpdates (on : node.fAddressIndex) :
    w ∈ (tx.spendUpdates node fSpentIndex nHeight i coins).entries put ↔ ∃ txin coin j,
      ((txin, coin), j) ∈ (tx.inputsSpent.zip coins).zipIdx ∧
      (w.1 ∈ (scriptAddress node.newP2CSRules coin.out.scriptPubKey).unspentKeys txin.prevout ∧ w.2 = none ∨
        w.1 ∈ (scriptAddress node.newP2CSRules coin.out.scriptPubKey).amountKeys ⟨nHeight, i, tx.getHash, j⟩ true ∧
          (w.2 = if put then some (.amount (-coin.out.nValue)) else none) ∨
        fSpentIndex ∧ ∃ e ∈ indexSpent node ⟨nHeight, i, tx.getHash, j⟩ txin.prevout coin.out,
          w = (.spentIndex e.1, e.2.stored)) := by
  simp only [spendUpdates, mem_entries_join, Prod.exists, indexInput, on, if_true,
    mem_entries_spent, mem_entries_updates]
  refine exists_congr fun txin => exists_congr fun coin => exists_congr fun j => and_congr_right fun _ => ?_
  rw [or_assoc]
  cases fSpentIndex
  case true => simp [CAddressUnspentValue.stored, CAddressUnspentValue.isNull]
  case false => simp [CAddressUnspentValue.stored, CAddressUnspentValue.isNull]

theorem CTransaction.mem_unspendUpdates (on : node.fAddressIndex) :
    w ∈ (tx.unspendUpdates node fSpentIndex nHeight i coins).entries put ↔ ∃ txin coin j,
      ((txin, coin), j) ∈ (tx.inputsSpent.zip coins).zipIdx ∧
      (w.1 ∈ (scriptAddress node.newP2CSRules coin.out.scriptPubKey).unspentKeys txin.prevout ∧
          w.2 = (unspentValue coin.out coin.nHeight).stored ∨
        w.1 ∈ (scriptAddress node.newP2CSRules coin.out.scriptPubKey).amountKeys ⟨nHeight, i, tx.getHash, j⟩ true ∧
          (w.2 = if put then some (.amount coin.out.nValue) else none) ∨
        fSpentIndex ∧ w = (.spentIndex (spentKey txin.prevout), none)) := by
  simp only [unspendUpdates, mem_entries_join, mem_reverse, Prod.exists, unindexInput, on,
    if_true, mem_entries_spent, mem_entries_updates, hashesAddress_eq]
  refine exists_congr fun txin => exists_congr fun coin => exists_congr fun j => and_congr_right fun _ => ?_
  rw [or_assoc]
  cases fSpentIndex
  case true => simp [CSpentIndexValue.stored, CSpentIndexValue.isNull]
  case false => simp

omit [Crypto] in
theorem mem_outputCoins {txid : Uint256} {fCoinBase fCoinStake : Bool} {vout : List CTxOut} {p : COutPoint × Coin} :
    p ∈ outputCoins (fun _ => false) txid nHeight fCoinBase fCoinStake i vout ↔ ∃ out n, (out, n) ∈ vout.zipIdx i ∧
      ¬out.scriptPubKey.isUnspendable ∧
      p = ({ hash := txid, n := UInt32.ofNat n }, { fCoinBase, fCoinStake, out, nHeight }) := by
  induction vout generalizing i
  case nil => simp [outputCoins]
  case cons out vout ih =>
    simp only [outputCoins, Bool.false_or, zipIdx_cons, mem_cons, Prod.mk.injEq, or_and_right, exists_or,
      ← ih, and_assoc]
    by_cases unspendable : out.scriptPubKey.isUnspendable <;> simp [unspendable]

section

variable {txundo : CTxUndo} {u u' : Utxo} {k : DBKey}

namespace Utxo.Step

variable (step : Utxo.Step nHeight tx txundo u u')

include step

theorem coin {txin : CTxIn} {coin : Coin} {j : ℕ}
    (h : ((txin, coin), j) ∈ (tx.inputsSpent.zip txundo.vprevout).zipIdx) :
    u txin.prevout = some coin ∧ txin ∈ tx.inputsSpent := by
  have mem := fst_mem_of_mem_zipIdx h
  exact ⟨zip_undo step.undo _ mem, (of_mem_zip mem).left⟩

theorem exists_coin {o : COutPoint} {c : Coin} (found : u o = some c) (spent : o ∈ tx.inputsSpent.map (·.prevout)) :
    ∃ txin j, ((txin, c), j) ∈ (tx.inputsSpent.zip txundo.vprevout).zipIdx ∧ txin.prevout = o := by
  have ⟨txin, mem, eq⟩ := mem_map.mp spent
  have ⟨n, lt, entry⟩ := mem_iff_getElem.mp mem
  have undo := congrArg (·[n]?) step.undo
  simp only [getElem?_map, getElem?_eq_getElem lt, entry, eq, found, Option.map_some,
    Option.map_eq_some_iff] at undo
  have ⟨coin, at', same⟩ := undo
  refine ⟨txin, n, mem_zipIdx_iff_getElem?.mpr ?_, eq⟩
  rw [getElem?_zip_eq_some]
  exact ⟨by rw [getElem?_eq_getElem lt, entry], Option.some.inj same ▸ at'⟩

theorem unspend_value (on : node.fAddressIndex) (unspent : ∀ o c, u o = some c → c.isSpent = false)
    (h : w ∈ (tx.unspendUpdates node fSpentIndex nHeight i txundo.vprevout).entries false) :
    w.2 = u.unspentIndex (scriptAddress node.newP2CSRules) w.1 := by
  have ⟨txin, coin, j, mem, h⟩ := (mem_unspendUpdates on).mp h
  have ⟨found, _⟩ := step.coin mem
  rcases h with ⟨key, eq⟩ | ⟨key, eq⟩ | ⟨_, rfl⟩
  · rw [eq, unspentIndex_of_mem found key, unspentValue_stored (unspent _ _ found)]
  · exact eq.trans (unspentIndex_of_other (DBKey.of_mem_amountKeys key).left).symm
  · exact (unspentIndex_of_other rfl).symm

end Utxo.Step

theorem CTransaction.uncreate_value (h : w ∈ (tx.uncreateUpdates node nHeight i).entries false) : w.2 = none := by
  have ⟨_, _, _, h⟩ := mem_uncreateUpdates.mp h
  rcases h with ⟨_, eq⟩ | ⟨_, eq⟩ <;> exact eq

theorem CTransaction.uncreate_absent (fresh : ∀ n < tx.vout.length, u ⟨tx.getHash, UInt32.ofNat n⟩ = none)
    {addr : CScript → ScriptAddress} (h : w ∈ (tx.uncreateUpdates node nHeight i).entries false) :
    u.unspentIndex addr w.1 = none := by
  have ⟨_, n, mem, h⟩ := mem_uncreateUpdates.mp h
  rcases h with ⟨key, _⟩ | ⟨key, _⟩
  · exact Utxo.unspentIndex_of_none (DBKey.unspentOutPoint_of_mem key) (fresh n (snd_lt_of_mem_zipIdx mem))
  · exact Utxo.unspentIndex_of_other (DBKey.of_mem_amountKeys key).left

theorem CTransaction.mem_undoKeys (on : node.fAddressIndex) : k ∈ tx.undoKeys node fSpentIndex nHeight i coins ↔
    (∃ out n, (out, n) ∈ tx.vout.zipIdx ∧
      (k ∈ (scriptAddress node.newP2CSRules out.scriptPubKey).unspentKeys ⟨tx.getHash, UInt32.ofNat n⟩ ∨
        k ∈ (scriptAddress node.newP2CSRules out.scriptPubKey).amountKeys ⟨nHeight, i, tx.getHash, n⟩ false)) ∨
    ∃ txin coin j, ((txin, coin), j) ∈ (tx.inputsSpent.zip coins).zipIdx ∧
      (k ∈ (scriptAddress node.newP2CSRules coin.out.scriptPubKey).unspentKeys txin.prevout ∨
        k ∈ (scriptAddress node.newP2CSRules coin.out.scriptPubKey).amountKeys ⟨nHeight, i, tx.getHash, j⟩ true ∨
        fSpentIndex ∧ k = .spentIndex (spentKey txin.prevout)) := by
  rw [undoKeys, mem_map]
  constructor
  case mp =>
    rintro ⟨w, mem, rfl⟩
    cases mem_entries_append.mp mem
    case inl mem =>
      have ⟨out, n, output, h⟩ := mem_uncreateUpdates.mp mem
      exact .inl ⟨out, n, output, h.imp And.left And.left⟩
    case inr mem =>
      have ⟨txin, coin, j, input, h⟩ := (mem_unspendUpdates on).mp mem
      exact .inr ⟨txin, coin, j, input,
        h.imp And.left (Or.imp And.left fun ⟨spent, eq⟩ => ⟨spent, congrArg Prod.fst eq⟩)⟩
  case mpr =>
    rintro (⟨out, n, output, h⟩ | ⟨txin, coin, j, input, h⟩)
    · refine ⟨(k, none), mem_entries_append.mpr (.inl (mem_uncreateUpdates.mpr ⟨out, n, output, ?_⟩)), rfl⟩
      exact h.imp (⟨·, rfl⟩) (⟨·, rfl⟩)
    · have back (v : Option DBValue) (h : (k, v) ∈ (tx.unspendUpdates node fSpentIndex nHeight i coins).entries false) :
          ∃ w ∈ (tx.undoUpdates node fSpentIndex nHeight i coins).entries false, w.1 = k :=
        ⟨(k, v), mem_entries_append.mpr (.inr h), rfl⟩
      rcases h with h | h | ⟨spent, rfl⟩
      · exact back _ ((mem_unspendUpdates on).mpr ⟨txin, coin, j, input, .inl ⟨h, rfl⟩⟩)
      · exact back none ((mem_unspendUpdates on).mpr ⟨txin, coin, j, input, .inr (.inl ⟨h, rfl⟩)⟩)
      · exact back none ((mem_unspendUpdates on).mpr ⟨txin, coin, j, input, .inr (.inr ⟨spent, rfl⟩)⟩)

namespace Utxo.Step

variable (step : Utxo.Step nHeight tx txundo u u')

include step

theorem result_of_not_spent {o : COutPoint} {c : Coin} (found : u o = some c)
    (kept : o ∉ tx.inputsSpent.map (·.prevout)) : u' o = some c := by
  have left := (spend_of_not_mem kept).trans found
  rw [step.result, create, replay_of_not_mem, left]
  intro mem
  rw [map_map] at mem
  obtain ⟨p, coin, eq⟩ := mem_map.mp mem
  have absent := step.absent p coin
  rw [show p.1 = o from eq, left] at absent
  cases absent

theorem unspentIndex_eq (on : node.fAddressIndex) (kept : k ∉ tx.undoKeys node fSpentIndex nHeight i txundo.vprevout) :
    u'.unspentIndex (scriptAddress node.newP2CSRules) k = u.unspentIndex (scriptAddress node.newP2CSRules) k := by
  refine ext fun v => ⟨fun h => ?_, fun h => ?_⟩
  · have ⟨o, c, _, found, key, value⟩ := unspentIndex_eq_some h
    rw [step.result] at found
    cases create_eq_some found
    case inl new =>
      have ⟨out, n, output, _, eq⟩ := mem_outputCoins.mp new
      cases eq
      exact absurd ((mem_undoKeys on).mpr (.inl ⟨out, n, output, .inl key⟩)) kept
    case inr old =>
      rw [value]
      exact unspentIndex_of_mem (spend_eq_some old).left key
  · have ⟨o, c, _, found, key, value⟩ := unspentIndex_eq_some h
    rw [value]
    refine unspentIndex_of_mem (step.result_of_not_spent found fun spent => ?_) key
    have ⟨txin, j, input, eq⟩ := step.exists_coin found spent
    exact kept ((mem_undoKeys on).mpr (.inr ⟨txin, c, j, input, .inl (eq ▸ key)⟩))

theorem undo_value (on : node.fAddressIndex) (unspent : ∀ o c, u o = some c → c.isSpent = false)
    (f : DBKey → Option DBValue) (h : k ∈ tx.undoKeys node fSpentIndex nHeight i txundo.vprevout) :
    let value := replay f ((tx.undoUpdates node fSpentIndex nHeight i txundo.vprevout).entries false) k
    value = u.unspentIndex (scriptAddress node.newP2CSRules) k ∨
      (k, value) ∈ (tx.uncreateUpdates node nHeight i).entries false := by
  intro value
  have split : value = replay _ _ k := congrFun (replay_entries_append f _ _) k
  by_cases input : k ∈ ((tx.unspendUpdates node fSpentIndex nHeight i txundo.vprevout).entries false).map (·.1)
  case pos =>
    rw [split]
    exact .inl (step.unspend_value on unspent (replay_mem input))
  case neg =>
    rw [replay_of_not_mem input] at split
    rw [split]
    have ⟨w, mem, eq⟩ := mem_map.mp h
    cases mem_entries_append.mp mem
    case inl output => exact .inr (replay_mem (mem_map.mpr ⟨w, output, eq⟩))
    case inr mem => exact absurd (mem_map.mpr ⟨w, mem, eq⟩) input

end Utxo.Step

end

section

variable (node : Node) (fSpentIndex : Bool) (nHeight : ℕ) (l : List (CTransaction × CTxUndo))

def undoUpdates : IndexUpdates :=
  .join (l.zipIdx.reverse.map fun ((tx, txundo), i) => tx.undoUpdates node fSpentIndex nHeight i txundo.vprevout)

def undoKeys : List DBKey :=
  ((undoUpdates node fSpentIndex nHeight l).entries false).map (·.1)

end

variable {l : List (CTransaction × CTxUndo)} {p : CTransaction × CTxUndo} {u u' : Utxo} {k : DBKey}

theorem undoUpdates_concat : undoUpdates node fSpentIndex nHeight (l ++ [p]) =
    p.1.undoUpdates node fSpentIndex nHeight l.length p.2.vprevout ++ undoUpdates node fSpentIndex nHeight l := by
  simp only [undoUpdates, zipIdx_append, zipIdx_singleton, reverse_concat, map_cons, Nat.zero_add]
  rfl

theorem mem_undoKeys_concat : k ∈ undoKeys node fSpentIndex nHeight (l ++ [p]) ↔
    k ∈ p.1.undoKeys node fSpentIndex nHeight l.length p.2.vprevout ∨ k ∈ undoKeys node fSpentIndex nHeight l := by
  simp only [undoKeys, undoUpdates_concat, mem_map, IndexUpdates.mem_entries_append, or_and_right, exists_or,
    CTransaction.undoKeys]

theorem Utxo.Steps.concat (h : Utxo.Steps nHeight u (l ++ [p]) u') :
    ∃ u₁, Utxo.Steps nHeight u l u₁ ∧ Utxo.Step nHeight p.1 p.2 u₁ u' := by
  induction l generalizing u
  case nil =>
    cases h
    case cons step rest =>
      cases rest
      exact ⟨u, .nil, step⟩
  case cons q l ih =>
    cases h
    case cons step rest =>
      have ⟨u₁, steps, last⟩ := ih rest
      exact ⟨u₁, .cons step steps, last⟩

variable (fSpentIndex) in
-- A transaction connected earlier is disconnected later, so the induction is from the end of the block.
theorem Utxo.Steps.undone (on : node.fAddressIndex) (steps : Utxo.Steps nHeight u l u')
    (unspent : ∀ o c, u o = some c → c.isSpent = false)
    (created : ∀ q ∈ l, ∀ p ∈ q.1.allCoins nHeight, p.2.isSpent = false)
    (fresh : ∀ q ∈ l, ∀ n < q.1.vout.length, u ⟨q.1.getHash, UInt32.ofNat n⟩ = none) (f : DBKey → Option DBValue) :
    replay f ((undoUpdates node fSpentIndex nHeight l).entries false) =
      patch (u.unspentIndex (scriptAddress node.newP2CSRules)) f (undoKeys node fSpentIndex nHeight l) ∧
    ∀ k ∉ undoKeys node fSpentIndex nHeight l,
      u'.unspentIndex (scriptAddress node.newP2CSRules) k = u.unspentIndex (scriptAddress node.newP2CSRules) k := by
  induction l using reverseRecOn generalizing u' f
  case nil =>
    cases steps
    exact ⟨(patch_nil _ _).symm, fun _ _ => rfl⟩
  case append_singleton l p ih =>
    have ⟨u₁, steps, last⟩ := steps.concat
    have ⟨created, created₁⟩ := forall_mem_append.mp created
    have ⟨fresh, fresh₁⟩ := forall_mem_append.mp fresh
    have unspent₁ := steps.keeps unspent created
    constructor
    · funext k
      rw [undoUpdates_concat, replay_entries_append, (ih steps created fresh _).left]
      simp only [patch, mem_undoKeys_concat]
      by_cases earlier : k ∈ undoKeys node fSpentIndex nHeight l
      case pos => rw [if_pos earlier, if_pos (.inr earlier)]
      case neg =>
        rw [if_neg earlier]
        by_cases now : k ∈ p.1.undoKeys node fSpentIndex nHeight l.length p.2.vprevout
        case neg => rw [if_neg (not_or_intro now earlier), replay_of_not_mem now]
        case pos =>
          rw [if_pos (.inl now), ← (ih steps created fresh f).right k earlier]
          cases last.undo_value on unspent₁ f now
          case inl eq => exact eq
          case inr output =>
            rw [(ih steps created fresh f).right k earlier]
            exact (uncreate_value output).trans
              (uncreate_absent (fresh₁ p (mem_singleton_self p)) output).symm
    · intro k kept
      rw [mem_undoKeys_concat, not_or] at kept
      rw [last.unspentIndex_eq on kept.left, (ih steps created fresh f).right k kept.right]

end

end Qrax
