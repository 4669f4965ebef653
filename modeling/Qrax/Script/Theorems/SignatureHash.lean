import Qrax.Script.SignatureHash

open Encoding
open List (append_assoc append_inj' length map_cons ne_nil_of_length_pos)

namespace Qrax

open SpendDescription CTransaction

def SpendDescription.unsigned (s : SpendDescription) : SpendDescription :=
  { s with spendAuthSig := Vector.replicate 64 0 }

namespace CTransaction

def withoutScriptSigs (tx : CTransaction) : CTransaction :=
  { tx.wire with vin := tx.vin.map ({ · with scriptSig := [] }) }

-- What a Sapling signature covers of the shielded part, if there is one.
def shieldedParts (tx : CTransaction) :
    Option (List SpendDescription × List OutputDescription × CAmount) :=
  match tx.sapData with
  | none => none
  | some d =>
    if d.vShieldedSpend.isEmpty && d.vShieldedOutput.isEmpty then none
    else some (d.vShieldedSpend.map (·.unsigned), d.vShieldedOutput, d.valueBalance)

structure SignedAlike (sigversion : SigVersion) (tx tx' : CTransaction) : Prop where
  nVersion : tx.nVersion = tx'.nVersion
  nType : tx.nType = tx'.nType
  prevouts : tx.vin.map (·.prevout) = tx'.vin.map (·.prevout)
  sequences : tx.vin.map (·.nSequence) = tx'.vin.map (·.nSequence)
  vout : tx.vout = tx'.vout
  nLockTime : tx.nLockTime = tx'.nLockTime
  shielded : sigversion = .SIGVERSION_SAPLING → tx.isNormalType → tx.shieldedParts = tx'.shieldedParts

end CTransaction

namespace CTransactionSignatureSerializer

-- With `SIGHASH_ALL` every input is written, with an empty script or the script code, depending only on its position.
theorem serializeInput_all_inj {scriptCode : CScript} {nIn i : ℕ} {txin txin' : CTxIn} {x y : Bytes}
    (h : serializeInput scriptCode nIn SIGHASH_ALL i txin ++ x =
      serializeInput scriptCode nIn SIGHASH_ALL i txin' ++ y) :
    txin.prevout = txin'.prevout ∧ txin.nSequence = txin'.nSequence ∧ x = y := by
  have all : (fHashSingle SIGHASH_ALL || fHashNone SIGHASH_ALL) = false := by decide
  simp only [serializeInput, all, Bool.and_false, Bool.false_eq_true, if_false,
    append_assoc] at h
  have ⟨hp, h⟩ := COutPoint.serialize_prefixFree.inj h
  have ⟨hs, h⟩ := serializeUInt32_prefixFree trivial trivial (List.append_cancel_left h)
  exact ⟨hp, hs, h⟩

theorem inputs_all_inj {scriptCode : CScript} {nIn k : ℕ} {vin vin' : List CTxIn} {x y : Bytes}
    (hn : vin.length = vin'.length)
    (h : (vin.zipIdx k).flatMap (fun p => serializeInput scriptCode nIn SIGHASH_ALL p.2 p.1) ++ x =
      (vin'.zipIdx k).flatMap (fun p => serializeInput scriptCode nIn SIGHASH_ALL p.2 p.1) ++ y) :
    vin.map (·.prevout) = vin'.map (·.prevout) ∧ vin.map (·.nSequence) = vin'.map (·.nSequence) ∧
      x = y := by
  induction vin generalizing vin' k
  case nil =>
    cases vin'
    case nil => exact ⟨rfl, rfl, h⟩
    case cons => cases hn
  case cons txin vin ih =>
    cases vin'
    case nil => cases hn
    case cons txin' vin' =>
      simp only [List.zipIdx_cons, List.flatMap_cons, append_assoc] at h
      have ⟨hp, hs, h⟩ := serializeInput_all_inj h
      have ⟨hps, hss, hxy⟩ := ih (Nat.succ.inj hn) h
      exact ⟨by simp only [map_cons, hp, hps], by simp only [map_cons, hs, hss], hxy⟩

theorem serializeOutput_all (nIn i : ℕ) (txout : CTxOut) :
    serializeOutput nIn SIGHASH_ALL i txout = txout.serialize := by
  have all : fHashSingle SIGHASH_ALL = false := by decide
  simp only [serializeOutput, all, Bool.false_and, Bool.false_eq_true, if_false]

theorem outputs_all (nIn k : ℕ) (vout : List CTxOut) :
    (vout.zipIdx k).flatMap (fun p => serializeOutput nIn SIGHASH_ALL p.2 p.1) =
      vout.flatMap CTxOut.serialize := by
  induction vout generalizing k
  case nil => rfl
  case cons txout vout ih => rw [List.zipIdx_cons, List.flatMap_cons, ih, serializeOutput_all]; rfl

theorem serialize_all (tx : CTransaction) (scriptCode : CScript) (nIn : ℕ) :
    serialize tx scriptCode nIn SIGHASH_ALL =
      serializeInt16 tx.nVersion ++ serializeInt16 tx.nType ++
        (writeCompactSize tx.vin.length ++
          (tx.vin.zipIdx 0).flatMap
            (fun p => serializeInput scriptCode nIn SIGHASH_ALL p.2 p.1)) ++
        serializeVector CTxOut.serialize tx.vout ++ serializeUInt32 tx.nLockTime := by
  have anyone : fAnyoneCanPay SIGHASH_ALL = false := by decide
  have none : fHashNone SIGHASH_ALL = false := by decide
  have single : fHashSingle SIGHASH_ALL = false := by decide
  simp only [serialize, inputs, outputs, anyone, none, single, Bool.false_eq_true, if_false,
    serializeVector, List.length_map, List.length_zipIdx, List.flatMap_map, outputs_all]

end CTransactionSignatureSerializer

variable {tx tx' : CTransaction} {scriptCode : CScript} {nIn : ℕ} {amount amount' : CAmount}

theorem signedAlike_of_legacySigMessage (hs : tx.SizesFit) (hs' : tx'.SizesFit)
    (h : legacySigMessage scriptCode tx nIn SIGHASH_ALL =
      legacySigMessage scriptCode tx' nIn SIGHASH_ALL) :
    CTransaction.SignedAlike .SIGVERSION_BASE tx tx' := by
  simp only [legacySigMessage, CTransactionSignatureSerializer.serialize_all, append_assoc] at h
  have ⟨hv, h⟩ := serializeInt16_prefixFree.inj h
  have ⟨ht, h⟩ := serializeInt16_prefixFree.inj h
  have ⟨hn, h⟩ := writeCompactSize_prefixFree (max_size_lt hs.vin.left) (max_size_lt hs'.vin.left) h
  have ⟨hp, hq, h⟩ := CTransactionSignatureSerializer.inputs_all_inj hn h
  have ⟨ho, h⟩ := serializeVector_prefixFree CTxOut.serialize_prefixFree hs.vout hs'.vout h
  have ⟨hl, _⟩ := serializeUInt32_prefixFree.inj h
  exact ⟨hv, ht, hp, hq, ho, hl, nofun⟩

section

theorem SpendDescription.sigBytes_prefixFree :
    PrefixFreeOn {s : SpendDescription | s.unsigned = s} sigBytes := by
  intro s hs s' hs' x y e
  have ⟨a, b, c, d, z, g⟩ := s
  have ⟨a', b', c', d', z', g'⟩ := s'
  simp only [unsigned, Set.mem_ofPred_eq, mk.injEq] at hs hs'
  simp only [sigBytes, append_assoc] at e
  have ⟨h₁, e⟩ := uint256_bytes_prefixFree.inj e
  have ⟨h₂, e⟩ := uint256_bytes_prefixFree.inj e
  have ⟨h₃, e⟩ := uint256_bytes_prefixFree.inj e
  have ⟨h₄, e⟩ := uint256_bytes_prefixFree.inj e
  have ⟨h₅, e⟩ := (vector_toList_prefixFree 192).inj e
  simp_all

theorem spends_inj {l l' : List SpendDescription}
    (h : l.flatMap sigBytes = l'.flatMap sigBytes) :
    l.map (·.unsigned) = l'.map (·.unsigned) := by
  refine sigBytes_prefixFree.map_eq_of_flatMap (fun s _ => ?_) (fun _ => rfl) h
  exact ne_nil_of_length_pos (by simp [sigBytes])

theorem shieldedOutputs_inj {l l' : List OutputDescription}
    (h : l.flatMap OutputDescription.serialize = l'.flatMap OutputDescription.serialize) : l = l' := by
  refine OutputDescription.serialize_prefixFree.flatMap_inj (fun o _ => ?_) (fun _ _ => trivial)
    (fun _ _ => trivial) h
  exact ne_nil_of_length_pos (by simp [OutputDescription.serialize])

theorem prevouts_inj {vin vin' : List CTxIn}
    (h : vin.flatMap (·.prevout.serialize) = vin'.flatMap (·.prevout.serialize)) :
    vin.map (·.prevout) = vin'.map (·.prevout) := by
  refine COutPoint.serialize_prefixFree.map_eq_of_flatMap (fun o _ => ?_) (fun _ => trivial) h
  exact ne_nil_of_length_pos (by simp [COutPoint.serialize])

theorem sequences_inj {vin vin' : List CTxIn}
    (h : vin.flatMap (serializeUInt32 ·.nSequence) = vin'.flatMap (serializeUInt32 ·.nSequence)) :
    vin.map (·.nSequence) = vin'.map (·.nSequence) := by
  refine serializeUInt32_prefixFree.map_eq_of_flatMap (fun n _ => ?_) (fun _ => trivial) h
  exact ne_nil_of_length_pos (by simp)

theorem outputs_inj {vout vout' : List CTxOut} (hs : ∀ o ∈ vout, o.SizesFit)
    (hs' : ∀ o ∈ vout', o.SizesFit)
    (h : vout.flatMap CTxOut.serialize = vout'.flatMap CTxOut.serialize) : vout = vout' := by
  refine CTxOut.serialize_prefixFree.flatMap_inj (fun o _ => ?_) hs hs' h
  refine ne_nil_of_length_pos ?_
  simp only [CTxOut.serialize, List.length_append, serializeInt64_length]
  omega

theorem eq_of_guarded_digest {α β : Type} {l m : List α} {D : List α → Uint256} {f : List α → β}
    (hf : D l = D m → f l = f m) (hl : l ≠ [] → D l ≠ 0) (hm : m ≠ [] → D m ≠ 0)
    (h : (if l.isEmpty then 0 else D l) = if m.isEmpty then 0 else D m) : f l = f m := by
  cases l
  case nil =>
    cases m
    case nil => rfl
    case cons b m => exact absurd h.symm (hm nofun)
  case cons a l =>
    cases m
    case nil => exact absurd h (hl nofun)
    case cons b m => exact hf h

variable [Crypto]

-- No collisions in what is hashed for the two signatures, and no digest of a shielded part is null.
structure SigHashInjective (scriptCode : CScript) (nIn : ℕ) (amount amount' : CAmount)
    (tx tx' : CTransaction) : Prop where
  legacy : Set.InjOn hash256
    {legacySigMessage scriptCode tx nIn SIGHASH_ALL, legacySigMessage scriptCode tx' nIn SIGHASH_ALL}
  sapling : Set.InjOn (Crypto.blake2b sigHashPersonalization)
    {saplingSigMessage scriptCode tx nIn SIGHASH_ALL amount,
      saplingSigMessage scriptCode tx' nIn SIGHASH_ALL amount'}
  prevouts : Set.InjOn (Crypto.blake2b QRAX_PREVOUTS_HASH_PERSONALIZATION)
    {tx.vin.flatMap (·.prevout.serialize), tx'.vin.flatMap (·.prevout.serialize)}
  sequences : Set.InjOn (Crypto.blake2b QRAX_SEQUENCE_HASH_PERSONALIZATION)
    {tx.vin.flatMap (serializeUInt32 ·.nSequence), tx'.vin.flatMap (serializeUInt32 ·.nSequence)}
  outputs : Set.InjOn (Crypto.blake2b QRAX_OUTPUTS_HASH_PERSONALIZATION)
    {tx.vout.flatMap CTxOut.serialize, tx'.vout.flatMap CTxOut.serialize}
  spends : ∀ d ∈ tx.sapData, ∀ d' ∈ tx'.sapData,
    Set.InjOn (Crypto.blake2b QRAX_SHIELDED_SPENDS_HASH_PERSONALIZATION)
      {d.vShieldedSpend.flatMap SpendDescription.sigBytes,
        d'.vShieldedSpend.flatMap SpendDescription.sigBytes}
  shieldedOutputs : ∀ d ∈ tx.sapData, ∀ d' ∈ tx'.sapData,
    Set.InjOn (Crypto.blake2b QRAX_SHIELDED_OUTPUTS_HASH_PERSONALIZATION)
      {d.vShieldedOutput.flatMap OutputDescription.serialize,
        d'.vShieldedOutput.flatMap OutputDescription.serialize}
  notNull : ∀ t ∈ [tx, tx'], ∀ d ∈ t.sapData,
    (d.vShieldedSpend ≠ [] → getShieldedSpendsHash d ≠ 0) ∧
      (d.vShieldedOutput ≠ [] → getShieldedOutputsHash d ≠ 0)

theorem sigBytesSapling_cases (tx : CTransaction) :
    sigBytesSapling tx = [] ∧ tx.shieldedParts = none ∨
      ∃ d ∈ tx.sapData,
        sigBytesSapling tx =
          Uint256.bytes (if d.vShieldedSpend.isEmpty then 0 else getShieldedSpendsHash d) ++
            Uint256.bytes (if d.vShieldedOutput.isEmpty then 0 else getShieldedOutputsHash d) ++
            serializeInt64 d.valueBalance ∧
        tx.shieldedParts =
          some (d.vShieldedSpend.map (·.unsigned), d.vShieldedOutput, d.valueBalance) := by
  cases h : tx.sapData
  case none => exact .inl (by simp only [sigBytesSapling, shieldedParts, h, and_self])
  case some d =>
    simp only [sigBytesSapling, shieldedParts, h]
    split
    case isTrue => exact .inl ⟨rfl, rfl⟩
    case isFalse => exact .inr ⟨d, rfl, rfl, rfl⟩

variable {tx tx' : CTransaction} {scriptCode : CScript} {nIn : ℕ} {amount amount' : CAmount}

theorem shieldedParts_eq (hi : SigHashInjective scriptCode nIn amount amount' tx tx')
    (h : sigBytesSapling tx = sigBytesSapling tx') : tx.shieldedParts = tx'.shieldedParts := by
  cases sigBytesSapling_cases tx
  case inl empty =>
    cases sigBytesSapling_cases tx'
    case inl empty' => rw [empty.right, empty'.right]
    case inr data' =>
      have ⟨d', _, bytes', _⟩ := data'
      have := congrArg length (h.symm.trans empty.left)
      simp [bytes'] at this
  case inr data =>
    have ⟨d, hd, bytes, parts⟩ := data
    cases sigBytesSapling_cases tx'
    case inl empty' =>
      have := congrArg length (h.trans empty'.left)
      simp [bytes] at this
    case inr data' =>
      have ⟨d', hd', bytes', parts'⟩ := data'
      rw [bytes, bytes', append_assoc, append_assoc] at h
      have ⟨hs, h⟩ := uint256_bytes_prefixFree.inj h
      have ⟨ho, h⟩ := uint256_bytes_prefixFree.inj h
      have hv := serializeInt64_prefixFree.injOn trivial trivial h
      have ⟨spend, out⟩ := hi.notNull tx (by simp) d hd
      have ⟨spend', out'⟩ := hi.notNull tx' (by simp) d' hd'
      have spendsOf (eq : getShieldedSpendsHash d = getShieldedSpendsHash d') :=
        spends_inj (hi.spends d hd d' hd' (.inl rfl) (.inr rfl) eq)
      have outputsOf (eq : getShieldedOutputsHash d = getShieldedOutputsHash d') :=
        shieldedOutputs_inj (hi.shieldedOutputs d hd d' hd' (.inl rfl) (.inr rfl) eq)
      have spends := eq_of_guarded_digest (f := fun l => l.map (·.unsigned))
        (D := fun l => Crypto.blake2b _ (l.flatMap sigBytes)) spendsOf spend spend' hs
      have outputs := eq_of_guarded_digest (f := id)
        (D := fun l => Crypto.blake2b _ (l.flatMap OutputDescription.serialize)) outputsOf out out' ho
      simp only [id] at outputs
      rw [parts, parts', hv, spends, outputs]

omit [Crypto] in
theorem nIn_ne_notAnInput (hs : tx.SizesFit) (hn : nIn < tx.vin.length) : nIn ≠ NOT_AN_INPUT := by
  have := hs.vin.left
  unfold MAX_SIZE at this
  unfold NOT_AN_INPUT
  omega

omit [Crypto] in
theorem sigBytesInput_length (hs : tx.SizesFit) (hn : nIn < tx.vin.length) :
    (sigBytesInput scriptCode tx nIn amount).length =
      36 + (serializeBytes scriptCode).length + 8 + 4 := by
  simp only [sigBytesInput, nIn_ne_notAnInput hs hn, if_false, List.getElem?_eq_getElem hn,
    List.length_append, COutPoint.serialize, Uint256.bytes_length, serializeUInt32_length,
    serializeInt64_length]

section

variable (hi : SigHashInjective scriptCode nIn amount amount' tx tx') (hs : tx.SizesFit) (hs' : tx'.SizesFit)
  (hn : nIn < tx.vin.length) (hn' : nIn < tx'.vin.length)

include hi hs hs' hn hn'

-- The digests come first and the lock time last, of fixed widths; without a payload the shielded part and the input are
-- between.
theorem signedAlike_of_saplingSigMessage (h : saplingSigMessage scriptCode tx nIn SIGHASH_ALL amount =
      saplingSigMessage scriptCode tx' nIn SIGHASH_ALL amount') :
    CTransaction.SignedAlike .SIGVERSION_SAPLING tx tx' := by
  have anyone : fAnyoneCanPay SIGHASH_ALL = false := by decide
  have none : fHashNone SIGHASH_ALL = false := by decide
  have single : fHashSingle SIGHASH_ALL = false := by decide
  simp only [saplingSigMessage, sigHashPrevouts, sigHashSequence, sigHashOutputs, anyone, none, single,
    Bool.not_false, Bool.and_self, if_true, append_assoc] at h
  obtain ⟨hv, h⟩ := serializeInt16_prefixFree.inj h
  obtain ⟨ht, h⟩ := serializeInt16_prefixFree.inj h
  obtain ⟨hp, h⟩ := uint256_bytes_prefixFree.inj h
  obtain ⟨hq, h⟩ := uint256_bytes_prefixFree.inj h
  obtain ⟨ho, h⟩ := uint256_bytes_prefixFree.inj h
  simp only [← append_assoc] at h
  obtain ⟨h, _⟩ := append_inj' h rfl
  obtain ⟨h, hl⟩ := append_inj' h (by rw [serializeUInt32_length, serializeUInt32_length])
  refine ⟨hv, ht, ?prevouts, ?sequences, ?vout, ?nLockTime, fun _ normal => ?shielded⟩
  case prevouts => exact prevouts_inj (hi.prevouts (.inl rfl) (.inr rfl) hp)
  case sequences => exact sequences_inj (hi.sequences (.inl rfl) (.inr rfl) hq)
  case vout => exact outputs_inj hs.vout.right hs'.vout.right (hi.outputs (.inl rfl) (.inr rfl) ho)
  case nLockTime => exact serializeUInt32_prefixFree.injOn trivial trivial hl
  case shielded =>
    have normal' : tx'.isNormalType := by
      rw [isNormalType, ← ht]
      exact normal
    simp only [sigBytesPayload, isSpecialTx, normal, normal', Bool.not_true, Bool.and_false,
      Bool.false_and, Bool.false_eq_true, if_false, List.append_nil] at h
    obtain ⟨h, _⟩ := append_inj' h (by
      rw [sigBytesInput_length hs hn, sigBytesInput_length hs' hn'])
    exact shieldedParts_eq hi h

end

end

def shieldedSpend (spendAuthSig : Vector UInt8 64) : SpendDescription where
  cv := 1
  anchor := 2
  nullifier := 3
  rk := 4
  zkproof := Vector.replicate 192 0
  spendAuthSig := spendAuthSig

def shieldedTx (scriptSig : CScript) (spendAuthSig : Vector UInt8 64) : CTransaction where
  nVersion := CTransaction.TxVersion.SAPLING.toInt16
  vin := [{ prevout := { hash := 7, n := 0 }, scriptSig }]
  vout := [{ nValue := 5, scriptPubKey := [] }]
  sapData := some { valueBalance := 1, vShieldedSpend := [shieldedSpend spendAuthSig] }

theorem shieldedTx_sizesFit {scriptSig : CScript} (h : scriptSig.length ≤ MAX_SIZE)
    (spendAuthSig : Vector UInt8 64) : (shieldedTx scriptSig spendAuthSig).SizesFit where
  vin := ⟨by simp [shieldedTx, MAX_SIZE], by simpa [shieldedTx, CTxIn.SizesFit] using h⟩
  vout := ⟨by simp [shieldedTx, MAX_SIZE], by simp [shieldedTx, CTxOut.SizesFit]⟩
  sapData d hd := by
    cases hd
    exact ⟨by simp [MAX_SIZE], by simp⟩
  extraPayload := nofun

theorem injOn_pair {α β : Type} {f : α → β} {a b : α} (h : a = b) : Set.InjOn f {a, b} := by
  rw [h, Set.pair_eq_singleton]
  exact Set.injOn_singleton f b

end Qrax
