import Qrax.Validation.Theorems.ConnectBlock

open Fallible List Journal

namespace Qrax

open CCoinsViewCache (Fetched NoneBelow Writes)

-- What transactions do to the set of unspent coins.

namespace Utxo

def spend (u : Utxo) (vin : List CTxIn) : Utxo :=
  replay u (vin.map fun txin => (txin.prevout, none))

def create (u : Utxo) (coins : List (COutPoint × Coin)) : Utxo :=
  replay u (coins.map fun p => (p.1, some p.2))

variable {u : Utxo} {vin : List CTxIn} {coins : List (COutPoint × Coin)} {o : COutPoint} {c : Coin}

theorem spend_of_mem (h : o ∈ vin.map (·.prevout)) : u.spend vin o = none :=
  replay_const_of_mem h

theorem spend_of_not_mem (h : o ∉ vin.map (·.prevout)) : u.spend vin o = u o :=
  replay_const_of_not_mem h

theorem spend_eq_some (h : u.spend vin o = some c) : u o = some c ∧ o ∉ vin.map (·.prevout) := by
  by_cases mem : o ∈ vin.map (·.prevout)
  case pos =>
    rw [spend_of_mem mem] at h
    cases h
  case neg => exact ⟨(spend_of_not_mem mem).symm.trans h, mem⟩

theorem spend_of_none (h : u o = none) : u.spend vin o = none := by
  by_cases mem : o ∈ vin.map (·.prevout)
  case pos => exact spend_of_mem mem
  case neg => rw [spend_of_not_mem mem, h]

theorem spend_congr {u' : Utxo} (h : u o = u' o) : u.spend vin o = u'.spend vin o := by
  by_cases mem : o ∈ vin.map (·.prevout)
  case pos => rw [spend_of_mem mem, spend_of_mem mem]
  case neg => rw [spend_of_not_mem mem, spend_of_not_mem mem, h]

theorem create_eq_some (h : u.create coins o = some c) : (o, c) ∈ coins ∨ u o = some c := by
  by_cases mem : o ∈ (coins.map fun p => (p.1, some p.2)).map (·.1)
  case pos =>
    have written := replay_mem (f := u) mem
    have ⟨p, hp, eq⟩ := mem_map.mp written
    have value : some p.2 = some c := (congrArg Prod.snd eq).trans h
    have key : p.1 = o := congrArg Prod.fst eq
    cases value
    exact .inl (key ▸ hp)
  case neg => exact .inr ((replay_of_not_mem mem).symm.trans h)

theorem create_isSome (coins : List (COutPoint × Coin)) (h : (u o).isSome) : (u.create coins o).isSome := by
  by_cases mem : o ∈ (coins.map fun p => (p.1, some p.2)).map (·.1)
  case pos =>
    have ⟨p, _, eq⟩ := mem_map.mp (replay_mem (f := u) mem)
    have value : some p.2 = u.create coins o := congrArg Prod.snd eq
    rw [← value]
    rfl
  case neg => rwa [create, replay_of_not_mem mem]

end Utxo

variable [Crypto]

structure Utxo.Step (nHeight : ℕ) (tx : CTransaction) (txundo : CTxUndo) (u u' : Utxo) : Prop where
  undo : txundo.vprevout.map some = tx.inputsSpent.map fun txin => u txin.prevout
  absent : ∀ p ∈ tx.allCoins nHeight, u.spend tx.inputsSpent p.1 = none
  result : u' = (u.spend tx.inputsSpent).create (tx.allCoins nHeight)

inductive Utxo.Steps (nHeight : ℕ) : Utxo → List (CTransaction × CTxUndo) → Utxo → Prop
  | nil {u} : Steps nHeight u [] u
  | cons {u tx txundo u₁ l u'} : Utxo.Step nHeight tx txundo u u₁ → Steps nHeight u₁ l u' →
    Steps nHeight u ((tx, txundo) :: l) u'

namespace Utxo

variable {P : Coin → Prop} {nHeight : ℕ} {u u' : Utxo}

theorem Step.keeps {tx : CTransaction} {txundo : CTxUndo} (step : Step nHeight tx txundo u u')
    (old : ∀ o c, u o = some c → P c) (new : ∀ p ∈ tx.allCoins nHeight, P p.2) : ∀ o c, u' o = some c → P c := by
  intro o c h
  rw [step.result] at h
  cases create_eq_some h
  case inl new' => exact new (o, c) new'
  case inr left => exact old o c (spend_eq_some left).left

theorem Steps.undo_head {l : List (CTransaction × CTxUndo)} (steps : Steps nHeight u l u') :
    ∀ p ∈ l.head?, p.2.vprevout.map some = p.1.inputsSpent.map fun txin => u txin.prevout := by
  cases steps
  case nil => nofun
  case cons step _ =>
    rintro _ ⟨⟩
    exact step.undo

theorem Steps.keeps {l : List (CTransaction × CTxUndo)} (steps : Steps nHeight u l u')
    (old : ∀ o c, u o = some c → P c) (new : ∀ q ∈ l, ∀ p ∈ q.1.allCoins nHeight, P p.2) :
    ∀ o c, u' o = some c → P c := by
  induction steps
  case nil => exact old
  case cons step _ ih =>
    have ⟨new₁, new⟩ := forall_mem_cons.mp new
    exact ih (step.keeps old new₁) new

end Utxo

def CTransaction.applied (tx : CTransaction) (node : Node) (nHeight : ℕ) (vin : List CTxIn) (u : Utxo) : Utxo :=
  replay (u.spend vin) (tx.writes (node.skips nHeight) nHeight)

def ledger (node : Node) (nHeight : ℕ) (inputs : CTransaction → List CTxIn) (u : Utxo) (vtx : List CTransaction) : Utxo :=
  vtx.foldl (fun u tx => tx.applied node nHeight (inputs tx) u) u

def Funded (node : Node) (nHeight : ℕ) : Utxo → List CTransaction → Prop
  | _, [] => True
  | u, tx :: vtx => u.Holds tx.inputsSpent ∧ Funded node nHeight (tx.applied node nHeight tx.inputsSpent u) vtx

variable {arith : Arith} {node : Node} {nHeight i : ℕ} {tx : CTransaction} {txundo : CTxUndo} {s s' : ConnectState}
  {v₁ : CCoinsViewCache} {ws : List CoinWrite} {u : Utxo} {vtx : List CTransaction}

theorem ledger_cons (inputs : CTransaction → List CTxIn) (u : Utxo) (vtx : List CTransaction) :
    ledger node nHeight inputs u (tx :: vtx) = ledger node nHeight inputs (tx.applied node nHeight (inputs tx) u) vtx :=
  rfl

theorem CTransaction.applied_forall {P : Coin → Prop} {vin : List CTxIn} (old : ∀ o c, u o = some c → P c)
    (new : ∀ p ∈ tx.coins (node.skips nHeight) nHeight, P p.2) :
    ∀ o c, tx.applied node nHeight vin u o = some c → P c := by
  intro o c h
  by_cases written : o ∈ (tx.writes (node.skips nHeight) nHeight).map (·.1)
  case pos =>
    have mem : (o, tx.applied node nHeight vin u o) ∈ tx.writes (node.skips nHeight) nHeight :=
      replay_mem written
    rw [h] at mem
    exact new (o, c) (outputWrites_some.mp mem)
  case neg =>
    have kept := replay_of_not_mem (f := u.spend vin) written
    exact old o c (Utxo.spend_eq_some (kept.symm.trans h)).left

namespace TxConnected

variable (h : TxConnected arith node nHeight tx i s txundo v₁ ws s') (start : NoneBelow u s.view)

include h start

theorem spends : NoneBelow u v₁ ∧ v₁.utxo = s.view.utxo.spend tx.inputsSpent := by
  have ⟨stop, eq⟩ := h.updated.spends.noneBelow start fun o coin mem => by
    have ⟨_, _, eq⟩ := mem_map.mp mem
    cases eq
  refine ⟨stop, eq.trans ?_⟩
  rw [map_map]
  rfl

variable (new : ∀ p ∈ tx.coins (node.skips nHeight) nHeight, u p.1 = none)

include new

theorem noneBelow : NoneBelow u s'.view ∧ s'.view.utxo = Journal.replay v₁.utxo (ws.map (·.written)) := by
  refine h.updated.adds.noneBelow (h.spends start).left fun o coin mem => ?_
  refine new (o, coin) ?_
  rw [← h.updated.coins]
  exact mem_filterMap.mpr ⟨_, mem, rfl⟩

theorem applied : NoneBelow u s'.view ∧ s'.view.utxo = tx.applied node nHeight tx.inputsSpent s.view.utxo := by
  have ⟨_, spent⟩ := h.spends start
  have ⟨stop, eq⟩ := h.noneBelow start new
  rw [h.updated.writes, spent] at eq
  exact ⟨stop, eq⟩

theorem step (avoids : tx.Avoids node.containsOutPoint) :
    NoneBelow u s'.view ∧ Utxo.Step nHeight tx txundo s.view.utxo s'.view.utxo := by
  have ⟨start₁, spent⟩ := h.spends start
  have ⟨stop, eq⟩ := h.noneBelow start new
  have adds := h.updated.adds
  rw [h.updated.exact avoids] at adds eq
  rw [avoids.coins_eq] at new
  refine ⟨stop, h.updated.undo h.inputs.holds, ?_, ?_⟩
  · rw [← spent]
    exact adds.adds_absent start₁ new
  · rw [eq, ← spent, map_map]
    rfl

end TxConnected

theorem TxsConnected.ledger (h : TxsConnected arith node nHeight i s vtx s') (start : NoneBelow u s.view)
    (new : ∀ tx ∈ vtx, ∀ p ∈ tx.coins (node.skips nHeight) nHeight, u p.1 = none) :
    NoneBelow u s'.view ∧ s'.view.utxo = ledger node nHeight CTransaction.inputsSpent s.view.utxo vtx ∧
      Funded node nHeight s.view.utxo vtx := by
  induction h
  case nil => exact ⟨start, rfl, trivial⟩
  case cons head _ ih =>
    have ⟨new₁, new⟩ := forall_mem_cons.mp new
    have ⟨start₁, applied⟩ := head.applied start new₁
    have ⟨stop, eq, funded⟩ := ih start₁ new
    rw [applied] at eq funded
    exact ⟨stop, eq, head.inputs.holds, funded⟩

theorem TxsConnected.steps (h : TxsConnected arith node nHeight i s vtx s') (start : NoneBelow u s.view)
    (avoids : ∀ tx ∈ vtx, tx.Avoids node.containsOutPoint)
    (new : ∀ tx ∈ vtx, ∀ p ∈ tx.allCoins nHeight, u p.1 = none) :
    NoneBelow u s'.view ∧ ∃ txundos, txundos.length = vtx.length ∧ s'.vtxundo = s.vtxundo ++ txundos.drop (1 - i) ∧
      Utxo.Steps nHeight s.view.utxo (vtx.zip txundos) s'.view.utxo := by
  induction h
  case nil => exact ⟨start, [], rfl, by simp, .nil⟩
  case cons i s tx txundo v₁ ws s₁ vtx s' head _ ih =>
    have ⟨avoids₁, avoids⟩ := forall_mem_cons.mp avoids
    have ⟨new₁, new⟩ := forall_mem_cons.mp new
    have ⟨start₁, step⟩ := head.step start (avoids₁.coins_eq nHeight ▸ new₁) avoids₁
    have ⟨stop, txundos, length, undo, steps⟩ := ih start₁ avoids new
    refine ⟨stop, txundo :: txundos, by simp [length], ?_, .cons step steps⟩
    rw [undo, head.undo]
    cases i
    case zero => simp
    case succ i => simp

theorem connectBlock_keeps {P : Coin → Prop} {block : CBlock} {pindex : CBlockIndex} {pprev : Option CBlockIndex}
    {view : CCoinsViewCache} {fJustCheck : Bool} {r : Connected} (consistent : view.Consistent)
    (earned : block.FlagEarned node.params) (avoids : ∀ tx ∈ block.vtx, tx.Avoids node.containsOutPoint)
    (absent : ∀ tx ∈ block.vtx, ∀ p ∈ tx.allCoins pindex.nHeight, view.utxo p.1 = none)
    (accepted : connectBlock arith node block pindex pprev view fJustCheck = .ok r)
    (old : ∀ o c, view.utxo o = some c → P c) (new : ∀ tx ∈ block.vtx, ∀ p ∈ tx.allCoins pindex.nHeight, P p.2) :
    r.view.Consistent ∧ ∀ o c, r.view.utxo o = some c → P c := by
  have ⟨checked, _, connected⟩ := connectBlock_ok earned accepted
  cases connected
  case genesis v _ fetched =>
    have same : CCoinsViewCache.SameCoins view (if fJustCheck then v else v.setBestBlock pindex.phashBlock) := by
      split <;> exact ⟨fetched.utxo, fetched.consistent⟩
    exact ⟨same.consistent consistent, same.utxo ▸ old⟩
  case loop s _ _ loop _ _ view' =>
    have fetched := loopStart_fetched view
    have start := (NoneBelow.start consistent).fetched fetched
    have ⟨stop, txundos, _, _, steps⟩ := (connectTxs_ok checked.transactions loop).steps start avoids absent
    have same := s.view.finished_sameCoins s.saplingTree pindex.phashBlock fJustCheck
    rw [← view'] at same
    refine ⟨same.consistent stop.consistent, same.utxo ▸ ?_⟩
    exact steps.keeps (fetched.utxo ▸ old) fun q mem => new q.1 (of_mem_zip mem).left

end Qrax
