import Qrax.Txdb.BlockTreeDB

open ByteOrder List OrderedStore Int32

namespace Qrax

open DBKey

namespace CBlockTreeDB

structure Lists {α β : Type} (db : CBlockTreeDB) (key : α → DBKey) (value : β → DBValue) (P : α → Prop)
    (l : List (α × β)) : Prop where
  mem : ∀ a b, (a, b) ∈ l ↔ db.get (key a) = some (value b) ∧ P a
  sorted : l.Pairwise fun e e' => (key e.1).rank < (key e'.1).rank

theorem get_eq_some {db : CBlockTreeDB} {k : DBKey} {v : DBValue} :
    db.get k = some v ↔ (k, v) ∈ db.records.entries :=
  OrderedStore.get_eq_some

section

variable {α β : Type} {db : CBlockTreeDB} {key : α → DBKey} {value : β → DBValue}
  {decode : DBKey × DBValue → Option (α × β)} (decodes : ∀ e a b, decode e = some (a, b) ↔ e = (key a, value b))

include decodes

theorem scan_lists_iff {t : Bytes} {p : DBKey × DBValue → Bool} {P : α → Prop} :
    db.Lists key value P (((db.seek t).takeWhile p).filterMap decode) ↔
      ∀ a b, (key a, value b) ∈ db.records.entries → (P a ↔ rank t ≤ (key a).rank ∧
        ∀ e ∈ db.records.entries, rank t ≤ e.1.rank → e.1.rank ≤ (key a).rank → p e) := by
  have found (a : α) (b : β) : (a, b) ∈ ((db.seek t).takeWhile p).filterMap decode ↔
      ((key a, value b) ∈ db.records.entries ∧ rank t ≤ (key a).rank) ∧
        ∀ e ∈ db.records.entries, rank t ≤ e.1.rank → e.1.rank ≤ (key a).rank → p e := by
    rw [mem_filterMap, ← mem_scan (e := (key a, value b))]
    constructor
    · rintro ⟨e, mem, eq⟩
      exact (decodes e a b).mp eq ▸ mem
    · exact fun mem => ⟨_, mem, (decodes _ a b).mpr rfl⟩
  constructor
  · rintro ⟨mem, _⟩ a b stored
    have := mem a b
    rw [found, get_eq_some] at this
    tauto
  · intro exact
    refine ⟨fun a b => ?_, ?_⟩
    · rw [found, get_eq_some]
      have := exact a b
      tauto
    · have seek : (db.seek t).Pairwise fun e e' => e.1.rank < e'.1.rank := by
        rw [CBlockTreeDB.seek, seek_eq_filter]
        exact db.records.sorted.filter _
      refine List.Pairwise.filterMap decode (fun e e' lt a ha a' ha' => ?_) (seek.sublist (takeWhile_sublist p))
      rw [(decodes e a.1 a.2).mp ha, (decodes e' a'.1 a'.2).mp ha'] at lt
      exact lt

end

end CBlockTreeDB

section

def addressPosition (first : UInt8) (type : Int16) (hash : Uint160) : Bytes :=
  first :: ({ type, hashBytes := hash } : CAddressIndexIteratorKey).serialize

variable {first first' : UInt8} {type type' : Int16} {hash hash' : Uint160}

@[simp]
theorem addressPosition_length : (addressPosition first type hash).length = 23 := by
  simp [addressPosition, CAddressIndexIteratorKey.serialize]

theorem addressPosition_inj (h : addressPosition first type hash = addressPosition first type' hash') :
    type = type' ∧ hash = hash' := by
  have eq := CAddressIndexIteratorKey.serialize_injective (cons.inj h).right
  exact ⟨congrArg CAddressIndexIteratorKey.type eq, congrArg CAddressIndexIteratorKey.hashBytes eq⟩

theorem addressIndex_serialize (key : CAddressIndexKey) :
    ∃ rest, (addressIndex key).serialize = addressPosition DB_ADDRESSINDEX key.type key.hashBytes ++
      (serWriteData32be key.blockHeight ++ rest) :=
  ⟨_, by simp only [addressPosition, CAddressIndexIteratorKey.serialize, cons_append, append_assoc]; rfl⟩

theorem addressUnspentIndex_serialize (key : CAddressUnspentKey) :
    ∃ rest, (addressUnspentIndex key).serialize =
      addressPosition DB_ADDRESSUNSPENTINDEX key.type key.hashBytes ++ rest :=
  ⟨_, by simp only [addressPosition, CAddressIndexIteratorKey.serialize, cons_append, append_assoc]; rfl⟩

theorem take_serialize {k : DBKey} (h : k.rank.take 23 = rank (addressPosition first type hash)) :
    k.serialize.take 23 = addressPosition first type hash := by
  rw [DBKey.rank, ByteOrder.rank, ← map_take] at h
  exact ByteOrder.rank_injective h

theorem head_of_take {b : UInt8} {rest : Bytes} (h : (b :: rest).take 23 = addressPosition first type hash) :
    b = first :=
  (cons.inj h).left

theorem addressIndex_of_take {k : DBKey} (h : k.rank.take 23 = rank (addressPosition DB_ADDRESSINDEX type hash)) :
    ∃ key, k = .addressIndex key ∧ key.type = type ∧ key.hashBytes = hash := by
  replace h := take_serialize h
  cases k
  case addressIndex key =>
    have ⟨_, eq⟩ := addressIndex_serialize key
    rw [eq, take_left' addressPosition_length] at h
    have ⟨type, hash⟩ := addressPosition_inj h
    exact ⟨key, rfl, type, hash⟩
  case other first _ => exact absurd (head_of_take h) (other_ne first (by decide))
  all_goals exact absurd (head_of_take h) (by decide)

theorem addressUnspentIndex_of_take {k : DBKey}
    (h : k.rank.take 23 = rank (addressPosition DB_ADDRESSUNSPENTINDEX type hash)) :
    ∃ key, k = .addressUnspentIndex key ∧ key.type = type ∧ key.hashBytes = hash := by
  replace h := take_serialize h
  cases k
  case addressUnspentIndex key =>
    have ⟨_, eq⟩ := addressUnspentIndex_serialize key
    rw [eq, take_left' addressPosition_length] at h
    have ⟨type, hash⟩ := addressPosition_inj h
    exact ⟨key, rfl, type, hash⟩
  case other first _ => exact absurd (head_of_take h) (other_ne first (by decide))
  all_goals exact absurd (head_of_take h) (by decide)

theorem addressIndex_take (key : CAddressIndexKey) :
    (DBKey.addressIndex key).rank.take 23 = rank (addressPosition DB_ADDRESSINDEX key.type key.hashBytes) := by
  have ⟨_, eq⟩ := addressIndex_serialize key
  rw [DBKey.rank, eq, rank_append, take_left' (by simp)]

theorem addressUnspentIndex_take (key : CAddressUnspentKey) :
    (DBKey.addressUnspentIndex key).rank.take 23 =
      rank (addressPosition DB_ADDRESSUNSPENTINDEX key.type key.hashBytes) := by
  have ⟨_, eq⟩ := addressUnspentIndex_serialize key
  rw [DBKey.rank, eq, rank_append, take_left' (by simp)]

end

-- Heights are in unsigned byte order: negative ones come last.
theorem serWriteData32be_le (n m : Int32) :
    rank (serWriteData32be n) ≤ rank (serWriteData32be m) ↔ if n < 0 ↔ m < 0 then n ≤ m else m < 0 := by
  have signed (n : Int32) : n.toInt = if 2 * n.toBitVec.toNat < 2 ^ 32 then (n.toBitVec.toNat : ℤ)
      else n.toBitVec.toNat - 2 ^ 32 := n.toBitVec.toInt_eq_toNat_cond
  have below (n : Int32) : n.toBitVec.toNat < 256 ^ 4 := n.toBitVec.isLt
  rw [serWriteData32be, serWriteData32be, rank_beBytes_le, Nat.mod_eq_of_lt (below n), Nat.mod_eq_of_lt (below m)]
  simp only [lt_iff_toInt_lt, le_iff_toInt_le, toInt_zero]
  rw [signed n, signed m]
  have := below n
  have := below m
  split_ifs <;> omega

section

variable (db : CBlockTreeDB) (addressHash : Uint160) (type : Base58Type)

def CBlockTreeDB.IsEntry (key : CAddressIndexKey) : Prop :=
  (db.get (.addressIndex key)).isSome ∧ key.type = type.toInt16 ∧ key.hashBytes = addressHash

def CBlockTreeDB.behind (position : Bytes) : List (DBKey × DBValue) :=
  db.records.entries.filter fun e => rank position < e.1.rank.take position.length

def CBlockTreeDB.next (position : Bytes) : Option (DBKey × DBValue) :=
  (db.behind position).head?

def passesAddress (last : Int32) (e : DBKey × DBValue) : Bool :=
  match e.1 with
  | .addressIndex key => key.hashBytes = addressHash && !(last > 0 && key.blockHeight > last)
  | _ => false

def passesUnspent (e : DBKey × DBValue) : Bool :=
  match e.1 with
  | .addressUnspentIndex key => key.hashBytes = addressHash
  | _ => false

def asAddress : DBKey × DBValue → Option (CAddressIndexKey × CAmount)
  | (.addressIndex key, .amount n) => some (key, n)
  | _ => none

def asUnspent : DBKey × DBValue → Option (CAddressUnspentKey × CAddressUnspentValue)
  | (.addressUnspentIndex key, .unspent v) => some (key, v)
  | _ => none

theorem asAddress_eq_some (e : DBKey × DBValue) (key : CAddressIndexKey) (n : CAmount) :
    asAddress e = some (key, n) ↔ e = (.addressIndex key, .amount n) := by
  unfold asAddress
  split <;> simp_all

theorem asUnspent_eq_some (e : DBKey × DBValue) (key : CAddressUnspentKey) (v : CAddressUnspentValue) :
    asUnspent e = some (key, v) ↔ e = (.addressUnspentIndex key, .unspent v) := by
  unfold asUnspent
  split <;> simp_all

variable {addressHash} {last : Int32} {l : List (DBKey × DBValue)} (typed : ∀ e ∈ l, e.1.stores e.2)

include typed

theorem scanAddressIndex_eq :
    CBlockTreeDB.scanAddressIndex addressHash last l = .ok ((l.takeWhile (passesAddress addressHash last)).filterMap asAddress) := by
  induction l
  case nil => rfl
  case cons e l ih =>
    have ⟨typed₁, rest⟩ := forall_mem_cons.mp typed
    have ⟨k, v⟩ := e
    cases k
    case addressIndex key =>
      by_cases pass : passesAddress addressHash last (.addressIndex key, v)
      case pos =>
        rw [takeWhile_cons_of_pos pass]
        simp only [passesAddress, Bool.and_eq_true, decide_eq_true_eq, Bool.not_eq_true'] at pass
        cases v <;> simp only [stores, Bool.false_eq_true] at typed₁
        simp only [CBlockTreeDB.scanAddressIndex, pass, if_true, Bool.false_eq_true, if_false, ih rest, Fallible.ok_bind]
        rfl
      case neg =>
        rw [takeWhile_cons_of_neg pass]
        simp only [passesAddress, Bool.and_eq_true, decide_eq_true_eq, Bool.not_eq_true', not_and, Bool.not_eq_false] at pass
        simp only [CBlockTreeDB.scanAddressIndex]
        split
        case isTrue hash => rw [if_pos (by simpa using pass hash)]; rfl
        case isFalse => rfl
    all_goals rfl

theorem scanAddressUnspentIndex_eq :
    CBlockTreeDB.scanAddressUnspentIndex addressHash l = .ok ((l.takeWhile (passesUnspent addressHash)).filterMap asUnspent) := by
  induction l
  case nil => rfl
  case cons e l ih =>
    have ⟨typed₁, rest⟩ := forall_mem_cons.mp typed
    have ⟨k, v⟩ := e
    cases k
    case addressUnspentIndex key =>
      by_cases pass : passesUnspent addressHash (.addressUnspentIndex key, v)
      case pos =>
        rw [takeWhile_cons_of_pos pass]
        simp only [passesUnspent, decide_eq_true_eq] at pass
        cases v <;> simp only [stores, Bool.false_eq_true] at typed₁
        simp only [CBlockTreeDB.scanAddressUnspentIndex, pass, if_true, ih rest, Fallible.ok_bind]
        rfl
      case neg =>
        rw [takeWhile_cons_of_neg pass]
        simp only [passesUnspent, decide_eq_true_eq] at pass
        simp only [CBlockTreeDB.scanAddressUnspentIndex, if_neg pass]
        rfl
    all_goals rfl

end

section

variable {type : Int16} {hash : Uint160} {key key' : CAddressIndexKey}

def addressStart (type : Int16) (hash : Uint160) (start : Int32) : Bytes :=
  addressPosition DB_ADDRESSINDEX type hash ++ if start > 0 then serWriteData32be start else []

theorem addressStart_take (start : Int32) :
    (rank (addressStart type hash start)).take 23 = rank (addressPosition DB_ADDRESSINDEX type hash) := by
  rw [addressStart, rank_append, take_left' (by simp)]

theorem addressIndex_rank (key : CAddressIndexKey) :
    ∃ rest, (addressIndex key).rank = rank (addressPosition DB_ADDRESSINDEX key.type key.hashBytes) ++
      (rank (serWriteData32be key.blockHeight) ++ rest) := by
  have ⟨rest, eq⟩ := addressIndex_serialize key
  exact ⟨rank rest, by rw [DBKey.rank, eq, rank_append, rank_append]⟩

variable {db : CBlockTreeDB} {base : Base58Type} (entry : db.IsEntry hash base key) (entry' : db.IsEntry hash base key')

include entry entry'

theorem addressIndex_rank_le (le : (addressIndex key').rank ≤ (addressIndex key).rank) :
    rank (serWriteData32be key'.blockHeight) ≤ rank (serWriteData32be key.blockHeight) := by
  have ⟨rest, eq⟩ := addressIndex_rank key
  have ⟨rest', eq'⟩ := addressIndex_rank key'
  rw [eq, eq', entry.right.left, entry.right.right, entry'.right.left, entry'.right.right, append_le_append rfl] at le
  have le := take_mono 4 (le.resolve_left (lt_irrefl _)).right
  rwa [take_left' (by simp), take_left' (by simp)] at le

theorem addressIndex_rank_lt (nonneg : 0 ≤ key'.blockHeight) (negative : key.blockHeight < 0) :
    (addressIndex key').rank < (addressIndex key).rank := by
  by_contra notBelow
  have le := addressIndex_rank_le entry' entry (not_lt.mp notBelow)
  rw [serWriteData32be_le] at le
  simp only [lt_iff_toInt_lt, le_iff_toInt_le, toInt_zero] at *
  split_ifs at le <;> omega

omit entry entry' in
theorem addressStart_le (key : CAddressIndexKey) (start : Int32) :
    rank (addressStart key.type key.hashBytes start) ≤ (addressIndex key).rank ↔
      key.blockHeight < 0 ∨ start ≤ key.blockHeight := by
  have ⟨rest, eq⟩ := addressIndex_rank key
  rw [eq, addressStart, rank_append, append_le_append rfl, or_iff_right (lt_irrefl _), and_iff_right rfl]
  split
  case isTrue positive =>
    rw [le_iff_le_take (n := 4) (by simp), take_left' (by simp), serWriteData32be_le]
    simp only [lt_iff_toInt_lt, le_iff_toInt_le, toInt_zero, gt_iff_lt] at positive ⊢
    split_ifs <;> omega
  case isFalse first =>
    refine iff_of_true (not_lt.mp (not_lt_nil _)) ?_
    simp only [lt_iff_toInt_lt, le_iff_toInt_le, toInt_zero, gt_iff_lt] at first ⊢
    omega

end

section

variable {db : CBlockTreeDB} {hash : Uint160} {type : Base58Type} {start last : Int32} {p : DBKey × DBValue → Bool}
  {position : Bytes}

variable {e : DBKey × DBValue} {key : CAddressIndexKey} {v : DBValue} {r : DBKey × DBValue} {n : CAmount}

theorem mem_behind :
    e ∈ db.behind position ↔ e ∈ db.records.entries ∧ rank position < e.1.rank.take position.length := by
  rw [CBlockTreeDB.behind, mem_filter, decide_eq_true_eq]

theorem next_le (h : r ∈ db.next position) (he : e ∈ db.behind position) :
    r.1.rank ≤ e.1.rank := by
  have sorted : (db.behind position).Pairwise fun e e' => e.1.rank < e'.1.rank := db.records.sorted.filter _
  rw [CBlockTreeDB.next] at h
  generalize db.behind position = l at *
  cases l
  case nil => cases h
  case cons r' l =>
    cases h
    cases mem_cons.mp he
    case inl eq => rw [eq]
    case inr mem => exact (rel_of_pairwise_cons sorted mem).le

theorem next_exists (he : e ∈ db.behind position) : ∃ r, r ∈ db.next position :=
  ⟨_, head?_eq_some_head (ne_nil_of_mem he)⟩

theorem take_of_between {type : Int16} {x y : List ℕ} (above : rank (addressStart type hash start) ≤ x) (upto : x ≤ y)
    (within : y.take 23 = rank (addressPosition DB_ADDRESSINDEX type hash)) :
    x.take 23 = rank (addressPosition DB_ADDRESSINDEX type hash) := by
  refine ((take_mono 23 upto).trans_eq within).antisymm ?_
  rw [← addressStart_take start]
  exact take_mono 23 above

def CBlockTreeDB.Stops (db : CBlockTreeDB) (hash : Uint160) (type : Base58Type) (last : Int32) : Prop :=
  ∃ key, db.IsEntry hash type key ∧ last < key.blockHeight

-- What makes the scan return what is asked for: it neither stops before such an entry nor goes on to another.
structure AddressScanExact (db : CBlockTreeDB) (hash : Uint160) (type : Base58Type) (start last : Int32) : Prop where
  negative : ∀ key, db.IsEntry hash type key → key.blockHeight < 0 → (start ≤ key.blockHeight ↔ ¬db.Stops hash type last)
  next : ¬db.Stops hash type last →
    ∀ r ∈ db.next (addressPosition DB_ADDRESSINDEX type.toInt16 hash), passesAddress hash last r = false

def Reaches (db : CBlockTreeDB) (hash : Uint160) (type : Base58Type) (start last : Int32) (k : DBKey) : Prop :=
  rank (addressStart type.toInt16 hash start) ≤ k.rank ∧
    ∀ e ∈ db.records.entries, rank (addressStart type.toInt16 hash start) ≤ e.1.rank → e.1.rank ≤ k.rank →
      passesAddress hash last e

theorem CBlockTreeDB.IsEntry.stored (h : db.IsEntry hash type key) :
    ∃ n, (addressIndex key, DBValue.amount n) ∈ db.records.entries := by
  have ⟨v, found⟩ := Option.isSome_iff_exists.mp h.left
  have mem := CBlockTreeDB.get_eq_some.mp found
  have typed := db.typed _ mem
  cases v <;> simp only [stores, Bool.false_eq_true] at typed
  exact ⟨_, mem⟩

theorem isEntry_of_mem (mem : (addressIndex key, v) ∈ db.records.entries)
    (types : key.type = type.toInt16) (hashes : key.hashBytes = hash) : db.IsEntry hash type key :=
  ⟨Option.isSome_iff_exists.mpr ⟨v, CBlockTreeDB.get_eq_some.mpr mem⟩, types, hashes⟩

def Wanted (hash : Uint160) (type : Base58Type) (start last : Int32) (key : CAddressIndexKey) : Prop :=
  key.type = type.toInt16 ∧ key.hashBytes = hash ∧ start ≤ key.blockHeight ∧ key.blockHeight ≤ last

variable (positive : 0 < last) (le : start ≤ last)

include positive

theorem passes_of_entry (hashes : key.hashBytes = hash) :
    passesAddress hash last (.addressIndex key, v) ↔ key.blockHeight ≤ last := by
  simp [passesAddress, hashes, positive, Int32.not_lt]

omit positive in
theorem passes_address (typed : r.1.stores r.2) (pass : passesAddress hash last r) :
    ∃ key n, r = (.addressIndex key, .amount n) := by
  have ⟨k, v⟩ := r
  cases k <;> simp only [passesAddress, Bool.false_eq_true] at pass
  cases v <;> simp only [stores, Bool.false_eq_true] at typed
  exact ⟨_, _, rfl⟩

theorem reaches_entry (types : key.type = type.toInt16) (hashes : key.hashBytes = hash)
    (above : rank (addressStart type.toInt16 hash start) ≤ (addressIndex key).rank)
    (below : ∀ key', db.IsEntry hash type key' → (addressIndex key').rank ≤ (addressIndex key).rank →
      key'.blockHeight ≤ last) :
    Reaches db hash type start last (.addressIndex key) := by
  refine ⟨above, fun e he above upto => ?_⟩
  have within := addressIndex_take key
  rw [types, hashes] at within
  have ⟨key', eq, types', hashes'⟩ := addressIndex_of_take (take_of_between above upto within)
  have ⟨k, v⟩ := e
  subst eq
  exact (passes_of_entry positive hashes').mpr (below key' (isEntry_of_mem he types' hashes') upto)

theorem reaches_next (unstopped : ¬db.Stops hash type last)
    (next : r ∈ db.next (addressPosition DB_ADDRESSINDEX type.toInt16 hash)) (pass : passesAddress hash last r) :
    Reaches db hash type start last r.1 := by
  have ⟨mem, behind⟩ := mem_behind.mp (mem_of_head? next)
  rw [addressPosition_length] at behind
  refine ⟨(lt_of_take_lt 23 (by rwa [addressStart_take])).le, fun e he above upto => ?_⟩
  have above := take_mono 23 above
  rw [addressStart_take] at above
  cases above.lt_or_eq
  case inl lt =>
    have le := next_le next (mem_behind.mpr ⟨he, by rwa [addressPosition_length]⟩)
    rw [db.records.entries_unique he mem (upto.antisymm le)]
    exact pass
  case inr eq =>
    have ⟨key, eq, types, hashes⟩ := addressIndex_of_take eq.symm
    have ⟨k, v⟩ := e
    subst eq
    rw [passes_of_entry positive hashes]
    by_contra above
    exact unstopped ⟨key, isEntry_of_mem he types hashes, Int32.not_le.mp above⟩

theorem Wanted.reached (exact : AddressScanExact db hash type start last)
    (stored : (addressIndex key, DBValue.amount n) ∈ db.records.entries) (h : Wanted hash type start last key) :
    Reaches db hash type start last (.addressIndex key) := by
  have ⟨types, hashes, start_le, le_last⟩ := h
  have entry := isEntry_of_mem stored types hashes
  refine reaches_entry positive types hashes ?_ fun key' entry' le' => ?_
  · rw [← types, ← hashes, addressStart_le]
    exact .inr start_le
  · have le' := addressIndex_rank_le entry entry' le'
    by_contra high
    have high := Int32.not_le.mp high
    have stops : db.Stops hash type last := ⟨key', entry', high⟩
    have negative : ¬key.blockHeight < 0 := fun negative => (exact.negative key entry negative).mp start_le stops
    rw [serWriteData32be_le] at le'
    simp only [lt_iff_toInt_lt, le_iff_toInt_le, toInt_zero] at *
    split_ifs at le' <;> omega

include le

theorem Reaches.not_stopped {k : DBKey} (h : Reaches db hash type start last k)
    (entry : db.IsEntry hash type key) (above : last < key.blockHeight) : k.rank < (addressIndex key).rank := by
  have ⟨n, mem⟩ := entry.stored
  by_contra notBelow
  have start_le : rank (addressStart type.toInt16 hash start) ≤ (addressIndex key).rank := by
    rw [← entry.right.left, ← entry.right.right, addressStart_le]
    exact .inr (Int32.le_trans le (Int32.le_of_lt above))
  have pass := h.right _ mem start_le (not_lt.mp notBelow)
  rw [passes_of_entry positive entry.right.right] at pass
  exact absurd above (Int32.not_lt.mpr pass)

theorem Reaches.unstopped (h : Reaches db hash type start last (.addressIndex key)) (entry : db.IsEntry hash type key)
    (negative : key.blockHeight < 0) : ¬db.Stops hash type last := by
  rintro ⟨key', entry', high⟩
  have lt := addressIndex_rank_lt entry entry' (Int32.le_of_lt (Int32.lt_trans positive high)) negative
  exact lt.asymm (h.not_stopped positive le entry' high)

theorem Reaches.wanted (exact : AddressScanExact db hash type start last)
    (stored : (addressIndex key, DBValue.amount n) ∈ db.records.entries)
    (h : Reaches db hash type start last (.addressIndex key)) : Wanted hash type start last key := by
  have pass := h.right _ stored h.left le_rfl
  have above := take_mono 23 h.left
  rw [addressStart_take] at above
  cases above.lt_or_eq
  case inl behind =>
    -- The records of the address are passed, up to the next one.
    have unstopped : ¬db.Stops hash type last := by
      rintro ⟨key', entry, high⟩
      have lt := h.not_stopped positive le entry high
      have within := addressIndex_take key'
      rw [entry.right.left, entry.right.right] at within
      exact not_lt.mpr (take_mono 23 lt.le) (within ▸ behind)
    have mem := mem_behind.mpr ⟨stored, by rwa [addressPosition_length]⟩
    have ⟨r, next⟩ := next_exists mem
    have ⟨hr, behind'⟩ := mem_behind.mp (mem_of_head? next)
    rw [addressPosition_length] at behind'
    have reached := h.right r hr (lt_of_take_lt 23 (by rwa [addressStart_take])).le (next_le next mem)
    rw [exact.next unstopped r next] at reached
    cases reached
  case inr eq =>
    have ⟨_, eq, types, hashes⟩ := addressIndex_of_take eq.symm
    cases eq
    refine ⟨types, hashes, ?_, (passes_of_entry positive hashes).mp pass⟩
    have entry := isEntry_of_mem stored types hashes
    have above := h.left
    rw [← types, ← hashes, addressStart_le] at above
    cases above
    case inr start_le => exact start_le
    case inl negative =>
      exact (exact.negative key entry negative).mpr (h.unstopped positive le entry negative)

theorem reaches_wanted_iff :
    (∀ key n, (addressIndex key, DBValue.amount n) ∈ db.records.entries →
        (Wanted hash type start last key ↔ Reaches db hash type start last (.addressIndex key))) ↔
      AddressScanExact db hash type start last := by
  constructor
  · intro h
    constructor
    case negative =>
      intro key entry negative
      have ⟨n, stored⟩ := entry.stored
      constructor
      · intro start_le
        have low : key.blockHeight ≤ last := Int32.le_of_lt (Int32.lt_trans negative positive)
        have reached := (h key n stored).mp ⟨entry.right.left, entry.right.right, start_le, low⟩
        exact reached.unstopped positive le entry negative
      · intro unstopped
        refine ((h key n stored).mpr (reaches_entry positive entry.right.left entry.right.right ?_ ?_)).right.right.left
        · rw [← entry.right.left, ← entry.right.right, addressStart_le]
          exact .inl negative
        · intro key' entry' _
          by_contra high
          exact unstopped ⟨key', entry', Int32.not_le.mp high⟩
    case next =>
      intro unstopped r next
      by_contra pass
      rw [Bool.not_eq_false] at pass
      have reached : Reaches db hash type start last r.1 := reaches_next positive unstopped next pass
      have ⟨mem, behind⟩ := mem_behind.mp (mem_of_head? next)
      have ⟨key, n, eq⟩ := passes_address (db.typed r mem) pass
      subst eq
      have ⟨types, hashes, _⟩ := (h key n mem).mpr reached
      rw [addressPosition_length, addressIndex_take, types, hashes] at behind
      exact lt_irrefl _ behind
  · intro exact key n stored
    exact ⟨fun wanted => wanted.reached positive exact stored, fun reached => reached.wanted positive le exact stored⟩

end

section

variable {db : CBlockTreeDB} {hash : Uint160} {type : Base58Type}

theorem passes_unspent {r : DBKey × DBValue} (typed : r.1.stores r.2) (pass : passesUnspent hash r) :
    ∃ key v, r = (.addressUnspentIndex key, .unspent v) := by
  have ⟨k, v⟩ := r
  cases k <;> simp only [passesUnspent, Bool.false_eq_true] at pass
  cases v <;> simp only [stores, Bool.false_eq_true] at typed
  exact ⟨_, _, rfl⟩

theorem passes_of_take {type : Int16} {e : DBKey × DBValue}
    (within : e.1.rank.take 23 = rank (addressPosition DB_ADDRESSUNSPENTINDEX type hash)) : passesUnspent hash e := by
  have ⟨key, eq, _, hashes⟩ := addressUnspentIndex_of_take within
  simp only [passesUnspent, eq, hashes, decide_true]

theorem position_le_iff {first : UInt8} {type : Int16} {x : List ℕ} :
    rank (addressPosition first type hash) ≤ x ↔ rank (addressPosition first type hash) ≤ x.take 23 :=
  le_iff_le_take (by simp)

theorem reaches_unspent_iff :
    (∀ key v, (addressUnspentIndex key, DBValue.unspent v) ∈ db.records.entries →
        (key.type = type.toInt16 ∧ key.hashBytes = hash ↔
          rank (addressPosition DB_ADDRESSUNSPENTINDEX type.toInt16 hash) ≤ (addressUnspentIndex key).rank ∧
            ∀ e ∈ db.records.entries, rank (addressPosition DB_ADDRESSUNSPENTINDEX type.toInt16 hash) ≤ e.1.rank →
              e.1.rank ≤ (addressUnspentIndex key).rank → passesUnspent hash e)) ↔
      ∀ r ∈ db.next (addressPosition DB_ADDRESSUNSPENTINDEX type.toInt16 hash), passesUnspent hash r = false := by
  constructor
  · intro h r next
    by_contra pass
    rw [Bool.not_eq_false] at pass
    have ⟨mem, behind⟩ := mem_behind.mp (mem_of_head? next)
    have ⟨key, v, eq⟩ := passes_unspent (db.typed r mem) pass
    subst eq
    rw [addressPosition_length] at behind
    -- The record behind those of the address is reached, though of another type.
    have ⟨types, hashes⟩ := (h key v mem).mpr ⟨position_le_iff.mpr behind.le, fun e he above upto => by
      cases (position_le_iff.mp above).lt_or_eq
      case inr eq => exact passes_of_take eq.symm
      case inl lt =>
        have le := next_le next (mem_behind.mpr ⟨he, by rwa [addressPosition_length]⟩)
        rw [db.records.entries_unique he mem (upto.antisymm le)]
        exact pass⟩
    rw [addressUnspentIndex_take, types, hashes] at behind
    exact lt_irrefl _ behind
  · intro stops key v mem
    have within := addressUnspentIndex_take key
    constructor
    · rintro ⟨types, hashes⟩
      rw [types, hashes] at within
      refine ⟨position_le_iff.mpr within.ge, fun e he above upto => ?_⟩
      exact passes_of_take (((take_mono 23 upto).trans_eq within).antisymm (position_le_iff.mp above))
    · rintro ⟨above, all⟩
      cases (position_le_iff.mp above).lt_or_eq
      case inr eq => 
        have ⟨_, eq, types, hashes⟩ := addressUnspentIndex_of_take eq.symm
        cases eq
        exact ⟨types, hashes⟩
      case inl lt =>
        have behind := mem_behind.mpr ⟨mem, by rwa [addressPosition_length]⟩
        have ⟨r, next⟩ := next_exists behind
        have ⟨hr, behind'⟩ := mem_behind.mp (mem_of_head? next)
        rw [addressPosition_length] at behind'
        have reached := all r hr (position_le_iff.mpr behind'.le) (next_le next behind)
        rw [stops r next] at reached
        cases reached

end

variable {db : CBlockTreeDB} {addressHash : Uint160} {type : Base58Type} {start last : Int32}

theorem typed_seek (db : CBlockTreeDB) (t : Bytes) : ∀ e ∈ db.seek t, e.1.stores e.2 :=
  fun e he => db.typed e (mem_seek.mp he).left

theorem readAddressIndex_eq (positive : 0 < last) :
    db.readAddressIndex addressHash type start last =
      .ok (((db.seek (addressStart type.toInt16 addressHash start)).takeWhile (passesAddress addressHash last)).filterMap
        asAddress) := by
  have position : DB_ADDRESSINDEX :: (if start > 0 && last > 0 then
      ({ type := type.toInt16, hashBytes := addressHash, blockHeight := start } : CAddressIndexIteratorHeightKey).serialize
      else ({ type := type.toInt16, hashBytes := addressHash } : CAddressIndexIteratorKey).serialize) =
      addressStart type.toInt16 addressHash start := by
    simp only [addressStart, addressPosition, gt_iff_lt, positive, decide_true, Bool.and_true, decide_eq_true_eq]
    split
    case isTrue => rw [CAddressIndexIteratorKey.serialize, cons_append, append_assoc]; rfl
    case isFalse => rw [append_nil]
  rw [← scanAddressIndex_eq (typed_seek db _), ← position]
  rfl

theorem readAddressUnspentIndex_eq :
    db.readAddressUnspentIndex addressHash type =
      .ok (((db.seek (addressPosition DB_ADDRESSUNSPENTINDEX type.toInt16 addressHash)).takeWhile
        (passesUnspent addressHash)).filterMap asUnspent) := by
  rw [← scanAddressUnspentIndex_eq (typed_seek db _)]
  rfl

-- The scans compare the hash of a record but not its type, so they run on into records of another type.
theorem readAddress_exact_iff (db : CBlockTreeDB) (addressHash : Uint160) (type : Base58Type) :
    (∀ start last, start ≤ last → 0 < last →
      ((∃ l, db.readAddressIndex addressHash type start last = .ok l ∧
          db.Lists .addressIndex .amount (Wanted addressHash type start last) l) ↔
        AddressScanExact db addressHash type start last)) ∧
      ((∃ l, db.readAddressUnspentIndex addressHash type = .ok l ∧
          db.Lists .addressUnspentIndex .unspent (fun key => key.type = type.toInt16 ∧ key.hashBytes = addressHash) l) ↔
        ∀ r ∈ db.next (addressPosition DB_ADDRESSUNSPENTINDEX type.toInt16 addressHash),
          passesUnspent addressHash r = false) := by
  have returned {α : Type} {P : α → Prop} {a : α} : (∃ l, (Except.ok a : Except Failure α) = .ok l ∧ P l) ↔ P a := by
    simp
  refine ⟨fun start last le positive => ?_, ?_⟩
  · rw [readAddressIndex_eq positive, returned, CBlockTreeDB.scan_lists_iff asAddress_eq_some,
      ← reaches_wanted_iff positive le]
    rfl
  · rw [readAddressUnspentIndex_eq, returned, CBlockTreeDB.scan_lists_iff asUnspent_eq_some, reaches_unspent_iff]

def exampleEntries (type : Base58Type) (txhash : Uint256) (db : CBlockTreeDB) : CBlockTreeDB :=
  (db.writeAddressIndex (fun _ => false) [({
    type := type.toInt16, hashBytes := 5, blockHeight := 3, txindex := 0, txhash, index := 0, spending := false,
    delegated := false }, 100)]).updateAddressUnspentIndex
      [({ type := type.toInt16, hashBytes := 5, txhash, index := 0 }, { satoshis := 100, blockHeight := 3 })]

theorem readAddress_exact_single :
    let db := exampleEntries .PUBKEY_ADDRESS 7 {}
    (∃ l, db.readAddressIndex 5 .PUBKEY_ADDRESS 1 9 = .ok l ∧
        db.Lists .addressIndex .amount (Wanted 5 .PUBKEY_ADDRESS 1 9) l) ∧
      ∃ l, db.readAddressUnspentIndex 5 .PUBKEY_ADDRESS = .ok l ∧
        db.Lists .addressUnspentIndex .unspent (fun key => key.type = Base58Type.PUBKEY_ADDRESS.toInt16 ∧ key.hashBytes = 5) l := by
  intro db
  have ⟨index, unspent⟩ := readAddress_exact_iff db 5 .PUBKEY_ADDRESS
  have next : (db.next (addressPosition DB_ADDRESSINDEX Base58Type.PUBKEY_ADDRESS.toInt16 5)).all
      (passesAddress 5 9 · = false) := by decide
  have next' : (db.next (addressPosition DB_ADDRESSUNSPENTINDEX Base58Type.PUBKEY_ADDRESS.toInt16 5)).all
      (passesUnspent 5 · = false) := by decide
  have heights : db.records.entries.all (fun e => (asAddress e).all (0 ≤ ·.1.blockHeight)) := by decide
  refine ⟨(index 1 9 (by decide) (by decide)).mpr ⟨fun key entry negative => ?_, fun _ r hr => ?_⟩, unspent.mpr fun r hr => ?_⟩
  · have ⟨n, mem⟩ := entry.stored
    have nonneg : 0 ≤ key.blockHeight := of_decide_eq_true (all_eq_true.mp heights _ mem)
    exact absurd negative (Int32.not_lt.mpr nonneg)
  · rw [Option.mem_def.mp hr] at next
    exact of_decide_eq_true next
  · rw [Option.mem_def.mp hr] at next'
    exact of_decide_eq_true next'

-- A public key and a script with one hash: the script's entries are returned for the key.
theorem readAddress_other_type :
    let db := exampleEntries .SCRIPT_ADDRESS 8 (exampleEntries .PUBKEY_ADDRESS 7 {})
    (db.readAddressIndex 5 .PUBKEY_ADDRESS 1 9).toOption.map (·.map (·.1.type)) =
        some [Base58Type.PUBKEY_ADDRESS.toInt16, Base58Type.SCRIPT_ADDRESS.toInt16] ∧
      (db.readAddressUnspentIndex 5 .PUBKEY_ADDRESS).toOption.map (·.map (·.1.type)) =
        some [Base58Type.PUBKEY_ADDRESS.toInt16, Base58Type.SCRIPT_ADDRESS.toInt16] := by
  decide

end Qrax
