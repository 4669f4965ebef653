import Qrax.Validation.Theorems.ConnectBlock

open Fallible Sim

namespace Qrax

-- Two runs of `ConnectBlock` with different arithmetic or address index.

-- Two ways of adding up the same amounts, unless the first `stops`: `E` relates the sums, `N` what is kept.
structure Tally (stops : Failure → Prop) (arith arith' : Arith) (E N : ℤ → ℤ → Prop) : Prop where
  refl : ∀ n, E n n
  add : ∀ {m m' n n'}, E m m' → E n n' → E (m + n) (m' + n')
  sub : ∀ {m m' n n'}, E m m' → E n n' → E (m - n) (m' - n')
  norm : ∀ {n n'}, E n n' → Sim stops N (arith.norm n) (arith'.norm n')
  kept : ∀ {n n'}, N n n' → E n n'
  zero : N 0 0

structure Alike (N : ℤ → ℤ → Prop) (s t : ConnectState) : Prop where
  view : s.view = t.view
  saplingTree : s.saplingTree = t.saplingTree
  nSigOps : s.nSigOps = t.nSigOps
  vChecks : s.vChecks = t.vChecks
  vtxundo : s.vtxundo = t.vtxundo
  nFees : N s.nFees t.nFees
  nValueIn : N s.nValueIn t.nValueIn
  nValueOut : N s.nValueOut t.nValueOut
  nAssetValue : N s.nAssetValue t.nAssetValue

variable {stops : Failure → Prop} {arith arith' : Arith} {E N : ℤ → ℤ → Prop} {node : Node} {nHeight : ℕ}
  {tx : CTransaction} {params : Consensus.Params} {s t : ConnectState}

-- Wrapping sums are right modulo 2^64.
def Wrapped (m n : ℤ) : Prop :=
  m.bmod (2 ^ 64) = n.bmod (2 ^ 64)

theorem Tally.int64 : Tally Sim.never .int64 .exact Wrapped Wrapped where
  refl _ := rfl
  add h h' := by rw [Wrapped, Int.add_bmod, h, h', ← Int.add_bmod]
  sub h h' := by rw [Wrapped, Int.sub_bmod, h, h', ← Int.sub_bmod]
  norm h := .ok (Int.bmod_bmod.trans h)
  kept h := h
  zero := rfl

-- The run with an alarm is exact until it stops.
theorem Tally.checked : Tally (· = .overflow) .checked .exact Eq fun m n => m = n ∧ Arith.InRange m where
  refl _ := rfl
  add h h' := h ▸ h' ▸ rfl
  sub h h' := h ▸ h' ▸ rfl
  norm h := by
    subst h
    simp only [Arith.norm]
    split
    case isTrue inRange => exact .ok ⟨rfl, inRange⟩
    case isFalse => exact .stop rfl
  kept h := h.left
  zero := ⟨rfl, by decide⟩

theorem Tally.any (h : arith ≠ .checked) (h' : arith' ≠ .checked) : 
    Tally Sim.never arith arith' (fun _ _ => True) fun _ _ => True where
  refl _ := trivial
  add _ _ := trivial
  sub _ _ := trivial
  norm _ := by
    cases arith <;> cases arith' <;> first | exact .ok trivial | exact absurd rfl h | exact absurd rfl h'
  kept _ := trivial
  zero := trivial

section

variable (tally : Tally stops arith arith' E N)

include tally

theorem getValueIn_sim (v : CCoinsViewCache) (tx : CTransaction) :
    Sim stops (fun p q => N p.1 q.1 ∧ p.2 = q.2) (v.getValueIn arith tx) (v.getValueIn arith' tx) := by
  simp only [CCoinsViewCache.getValueIn]
  split
  case isTrue => exact .ok ⟨tally.zero, rfl⟩
  case isFalse =>
    have loop (vin : List CTxIn) (n n' : ℤ) (v : CCoinsViewCache) (h : N n n') :
        Sim stops (fun p q : ℤ × CCoinsViewCache => N p.1 q.1 ∧ p.2 = q.2)
          (vin.foldlM (CCoinsViewCache.addValueIn arith) (n, v))
          (vin.foldlM (CCoinsViewCache.addValueIn arith') (n', v)) := by
      induction vin generalizing n n' v
      case nil => exact .ok ⟨h, rfl⟩
      case cons txin vin ih =>
        rw [List.foldlM_cons, List.foldlM_cons]
        refine bind (R := fun p q => N p.1 q.1 ∧ p.2 = q.2) ?_ ?_
        · exact bind (tally.norm (tally.add (tally.kept h) (tally.refl _))) fun m m' hm => .ok ⟨hm, rfl⟩
        · rintro ⟨m, v₁⟩ ⟨m', _⟩ ⟨hm, rfl⟩
          exact ih m m' v₁ hm
    exact loop tx.vin 0 0 v tally.zero

theorem addFees_sim (h : Alike N s t) : Sim stops (Alike N) (addFees arith tx s) (addFees arith' tx t) := by
  unfold addFees
  split
  case isTrue => exact .ok h
  case isFalse =>
    rw [h.view]
    refine bind (getValueIn_sim tally t.view tx) ?_
    rintro ⟨n, v⟩ ⟨n', _⟩ ⟨hn, rfl⟩
    refine bind (tally.norm (tally.add (tally.kept h.nFees) (tally.kept hn))) fun m m' hm => .ok ?_
    exact { h with view := rfl, nFees := hm }

theorem countOutputs_sim (h : Alike N s t) (txid : Uint256) (k : ℕ) (vout : List CTxOut) :
    Sim stops (Alike N) (countOutputs arith node tx txid s k vout) (countOutputs arith' node tx txid t k vout) := by
  induction vout generalizing s t k
  case nil => exact .ok h
  case cons out vout ih =>
    simp only [countOutputs]
    split
    case isTrue => exact ih h _
    case isFalse =>
      refine bind (tally.norm (tally.add (tally.kept h.nValueOut) (tally.refl _))) fun m m' hm => ?_
      rw [ite_bind, ite_bind]
      refine bind (R := N) ?_ fun n n' hn => ?_
      · split
        case isTrue => exact .ok h.nFees
        case isFalse => exact tally.norm (tally.sub (tally.kept h.nFees) (tally.refl _))
      · apply ih
        exact { h with nValueOut := hm, nFees := hn }

theorem getMultiMiningSpend_sim (tx : CTransaction) :
    Sim stops N (tx.getMultiMiningSpend arith) (tx.getMultiMiningSpend arith') := by
  have loop (vout : List CTxOut) (n n' : ℤ) (h : N n n') :
      Sim stops N (vout.foldlM (fun n txout => arith.norm (n + txout.nValue.toInt)) n)
        (vout.foldlM (fun n txout => arith'.norm (n + txout.nValue.toInt)) n') := by
    induction vout generalizing n n'
    case nil => exact .ok h
    case cons out vout ih =>
      rw [List.foldlM_cons, List.foldlM_cons]
      exact bind (tally.norm (tally.add (tally.kept h) (tally.refl _))) ih
  exact loop tx.vout 0 0 tally.zero

theorem countAssets_sim (h : Alike N s t) : Sim stops (Alike N) (countAssets arith tx s) (countAssets arith' tx t) := by
  unfold countAssets
  split
  case isFalse => exact .ok h
  case isTrue =>
    refine bind (getMultiMiningSpend_sim tally tx) fun n n' hn => ?_
    refine bind (tally.norm (tally.add (tally.kept h.nAssetValue) (tally.kept hn))) fun m m' hm => .ok ?_
    exact { h with nAssetValue := hm }

end

variable [Crypto]

theorem checkAvailable_sim (h : Alike N s t) : Sim stops (Alike N) (checkAvailable tx s) (checkAvailable tx t) := by
  unfold checkAvailable
  split
  case isTrue => exact .ok h
  case isFalse =>
    rw [h.view, h.nSigOps]
    refine .failIf (.failIf (.failIf (.ok ?_)))
    exact { h with view := rfl, nSigOps := rfl }

section

variable (checked : tx.Checked params)

include checked

omit [Crypto] in
theorem checkTxFee_congr (arith arith' : Arith) (n : ℤ) : checkTxFee node arith tx n = checkTxFee node arith' tx n := by
  obtain ⟨_, _, value⟩ := checked.getValueOut_eq
  rw [checkTxFee, checkTxFee, value, value]

theorem checkInputs_congr (arith arith' : Arith) (v : CCoinsViewCache) (fScriptChecks : Bool) (nFlags : ScriptFlags)
    (fQueue : Bool) :
    checkInputs node arith tx v fScriptChecks nFlags fQueue = checkInputs node arith' tx v fScriptChecks nFlags fQueue := by
  simp only [checkInputs, checkTxInputs, checkTxFee_congr checked arith arith']

end

theorem connectInputs_sim (tally : Tally stops arith arith' E N) (checked : tx.Checked params) (h : Alike N s t) :
    Sim stops (Alike N) (connectInputs arith node nHeight tx s) (connectInputs arith' node nHeight tx t) := by
  unfold connectInputs
  split
  case isFalse => exact .ok h
  case isTrue =>
    refine bind (addFees_sim tally h) fun s t h => ?_
    rw [h.view]
    refine bind (getValueIn_sim tally t.view tx) ?_
    rintro ⟨n, v⟩ ⟨n', _⟩ ⟨hn, rfl⟩
    refine bind (tally.norm (tally.add (tally.kept h.nValueIn) (tally.kept hn))) fun m m' hm => ?_
    dsimp only
    rw [checkInputs_congr checked arith arith', h.vChecks]
    refine bind (refl (R := Eq) (fun _ => rfl) _) ?_
    rintro p _ rfl
    exact .ok { h with view := rfl, nValueIn := hm, vChecks := rfl }

def Node.withIndex (node : Node) (fAddressIndex : Bool) : Node :=
  { node with fAddressIndex }

variable {b b' : Bool}

variable {fQueue : Bool} {nFlags : ScriptFlags} {v : CCoinsViewCache}

theorem checkScripts_withIndex {nIn : ℕ} {vin : List CTxIn} :
    checkScripts (node.withIndex b) fQueue tx nFlags nIn v vin = checkScripts node fQueue tx nFlags nIn v vin := by
  induction vin generalizing nIn v
  case nil => rfl
  case cons txin vin ih => simp only [checkScripts, ih]; rfl

theorem checkInputs_withIndex {fScriptChecks : Bool} :
    checkInputs (node.withIndex b) arith tx v fScriptChecks nFlags fQueue =
      checkInputs node arith tx v fScriptChecks nFlags fQueue := by
  simp only [checkInputs, checkScripts_withIndex]
  rfl

theorem connectInputs_withIndex :
    connectInputs arith (node.withIndex b) nHeight tx s = connectInputs arith node nHeight tx s := by
  simp only [connectInputs, checkInputs_withIndex]
  rfl

omit [Crypto] in
theorem countOutputs_withIndex {txid : Uint256} {k : ℕ} {vout : List CTxOut} :
    countOutputs arith (node.withIndex b) tx txid s k vout = countOutputs arith node tx txid s k vout := by
  induction vout generalizing s k
  case nil => rfl
  case cons out vout ih => simp only [countOutputs, ih]; rfl

-- The runs count the outputs of a transaction, or not, with related totals.
def CountsAlike (stops : Failure → Prop) (N : ℤ → ℤ → Prop) (arith arith' : Arith) (node : Node) (b b' : Bool) : Prop :=
  ∀ (tx : CTransaction) (s t : ConnectState), Alike N s t →
    Sim stops (Alike N)
      (if b then countOutputs arith node tx tx.getHash s 0 tx.vout else .ok s)
      (if b' then countOutputs arith' node tx tx.getHash t 0 tx.vout else .ok t)

theorem CountsAlike.same (tally : Tally stops arith arith' E N) (node : Node) (b : Bool) : CountsAlike stops N arith arith' node b b := by
  intro tx s t h
  cases b
  case false => exact .ok h
  case true => exact countOutputs_sim tally h _ _ _

section

variable (tally : Tally stops arith arith' E N) (counts : CountsAlike stops N arith arith' node b b')

include tally counts

theorem connectTx_sim (checked : tx.Checked params) (block : CBlock) (i : ℕ) (h : Alike N s t) :
    Sim stops (Alike N) (connectTx arith (node.withIndex b) nHeight tx block i s)
      (connectTx arith' (node.withIndex b') nHeight tx block i t) := by
  unfold connectTx
  rw [h.nSigOps]
  refine .failIf (.failIf ?_)
  refine bind (checkAvailable_sim { h with nSigOps := rfl }) fun s t h => ?_
  rw [connectInputs_withIndex, connectInputs_withIndex]
  refine bind (connectInputs_sim tally checked h) fun s t h => ?_
  rw [ite_bind, ite_bind, countOutputs_withIndex, countOutputs_withIndex]
  refine bind (counts tx s t h) fun s t h => ?_
  refine bind (countAssets_sim tally h) fun s t h => ?_
  rw [h.view, h.saplingTree, h.vtxundo]
  refine bind (refl (R := Eq) (fun _ => rfl) _) ?_
  rintro p _ rfl
  refine bind (refl (R := Eq) (fun _ => rfl) _) ?_
  rintro tree _ rfl
  exact .ok { h with view := rfl, saplingTree := rfl, vtxundo := rfl }

theorem connectTxs_sim {vtx : List CTransaction}
    (checked : ∀ tx ∈ vtx, tx.Checked params) (block : CBlock) (i : ℕ)
    (h : Alike N s t) :
    Sim stops (Alike N) (connectTxs arith (node.withIndex b) nHeight block i s vtx)
      (connectTxs arith' (node.withIndex b') nHeight block i t vtx) := by
  induction vtx generalizing i s t
  case nil => exact .ok h
  case cons tx vtx ih =>
    have ⟨checked₁, checked⟩ := List.forall_mem_cons.mp checked
    exact bind (connectTx_sim tally counts checked₁ block i h) fun s t h => ih checked (i + 1) h

theorem connectTransactions_sim {block : CBlock} {pindex : CBlockIndex} {view : CCoinsViewCache}
    (checked : ∀ tx ∈ block.vtx, tx.Checked params) :
    Sim stops (Alike N) (connectTransactions arith (node.withIndex b) block pindex view)
      (connectTransactions arith' (node.withIndex b') block pindex view) := by
  simp only [connectTransactions]
  split
  case h_1 => exact .error _
  case h_2 =>
    refine connectTxs_sim tally counts checked block 0 ?_
    exact ⟨rfl, rfl, rfl, rfl, rfl, tally.zero, tally.zero, tally.zero, tally.zero⟩

end

end Qrax
