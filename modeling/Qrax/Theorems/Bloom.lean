import Qrax.Bloom

open List Nat


namespace Qrax

namespace BloomData

variable {data : BloomData} {p q val : ℕ}

theorem entry_set (cell : BitVec 32) {j k : ℕ} (hk : k < 16) (hv : val < 4) :
    (cell &&& ~~~(3#32 <<< (2 * j)) ||| BitVec.ofNat 32 val <<< (2 * j)) >>> (2 * k) &&& 3#32 =
      if k = j then BitVec.ofNat 32 val else cell >>> (2 * k) &&& 3#32 := by
  refine BitVec.eq_of_getLsbD_eq fun i hi => ?_
  have mask (n : ℕ) : testBit 3 n = decide (n < 2) := testBit_two_pow_sub_one 2 n
  have high {n : ℕ} (le : 2 ≤ n) : val.testBit n = false :=
    Nat.testBit_lt_two_pow (hv.trans_le (Nat.pow_le_pow_right (n := 2) (by norm_num) le))
  rw [apply_ite (BitVec.getLsbD · i)]
  simp only [BitVec.getLsbD_and, BitVec.getLsbD_or, BitVec.getLsbD_ushiftRight, BitVec.getLsbD_not,
    BitVec.getLsbD_shiftLeft, BitVec.getLsbD_ofNat, mask]
  by_cases low : i < 2
  case neg => simp [low, high (not_lt.mp low)]
  case pos =>
    have fits : 2 * k + i < 32 := by omega
    by_cases same : k = j
    case pos => simp [same ▸ fits, same, low, hi]
    case neg =>
      by_cases below : 2 * k + i < 2 * j
      case pos => simp [same, below, low, fits]
      case neg =>
        have far : 2 ≤ 2 * k + i - 2 * j := by omega
        simp [same, below, far.not_gt, high far, low, fits]

theorem length_put : (data.put p val).length = data.length :=
  length_modify ..

theorem get_put (hp : p < data.length * 16) (hq : q < data.length * 16) (hv : val < 4) :
    (data.put p val).get q = if q = p then val else data.get q := by
  have cell {n : ℕ} (h : n < data.length * 16) : (n >>> 4) % data.length = n / 16 := by
    rw [shiftRight_eq_div_pow]
    exact mod_eq_of_lt (by omega)
  have low (n : ℕ) : n &&& 0xf = n % 16 := and_two_pow_sub_one_eq_mod n 4
  simp only [get, put, length_modify, cell hp, cell hq, low, getD_eq_getElem?_getD, getElem?_modify]
  rw [getElem?_eq_getElem (by omega)]
  simp only [Option.map_eq_map, Option.map_some, Option.getD_some]
  by_cases here : p / 16 = q / 16
  case neg => rw [if_neg here, if_neg (by rintro rfl; exact here rfl)]
  case pos =>
    rw [if_pos here, entry_set _ (mod_lt q (by norm_num)) hv]
    by_cases same : q = p
    case pos =>
      rw [if_pos (by rw [same]), if_pos same, BitVec.toNat_ofNat]
      exact mod_eq_of_lt (by omega)
    case neg => rw [if_neg (by omega), if_neg same]

-- The loops that stamp positions with `val` and that wipe a generation: `c` is the test on the entry before.
theorem foldl_put (c : ℕ → Prop) [DecidablePred c] (hv : val < 4) (l : List ℕ)
    (hl : ∀ p ∈ l, p < data.length * 16) :
    let data' := l.foldl (fun data p => if c (data.get p) then data.put p val else data) data
    data'.length = data.length ∧
      ∀ q < data.length * 16, data'.get q = if q ∈ l ∧ c (data.get q) then val else data.get q := by
  induction l generalizing data
  case nil => simp
  case cons p l ih =>
    obtain ⟨hp, hl⟩ := forall_mem_cons.mp hl
    rw [foldl_cons]
    split
    case isFalse skipped =>
      refine ⟨(ih hl).1, fun q hq => ((ih hl).2 q hq).trans (if_congr ?_ rfl rfl)⟩
      by_cases same : q = p <;> simp [same, skipped]
    case isTrue put =>
      have length : (data.put p val).length = data.length := length_put
      obtain ⟨size, entries⟩ := ih (by rwa [length])
      refine ⟨size.trans length, fun q hq => (entries q (by rwa [length])).trans ?_⟩
      rw [get_put hp hq hv]
      by_cases same : q = p <;> simp [same, put]

theorem get_le (data : BloomData) (p : ℕ) : data.get p ≤ 3 := by
  rw [get, BitVec.toNat_and]
  exact and_le_right

end BloomData

namespace CRollingBloomFilter

variable {filter : CRollingBloomFilter} {keys : List Bytes}

-- The entries of the key are of the last `n` generations or the current one.
def Alive (filter : CRollingBloomFilter) (n : ℕ) (vKey : Bytes) : Prop :=
  ∀ i < filter.nHashFuncs, filter.data.get (filter.position i vKey) ≠ 0 ∧
    (filter.nGeneration + 3 - filter.data.get (filter.position i vKey)) % 3 ≤ n

-- What is promised of the inserted keys, the last one first.
structure Remembers (filter : CRollingBloomFilter) (keys : List Bytes) : Prop where
  size : 0 < filter.data.length
  generation : 1 ≤ filter.nGeneration ∧ filter.nGeneration ≤ 3
  alive : ∀ n ≤ 2, ∀ vKey ∈ keys.take (filter.nEntriesThisGeneration + n * filter.nEntriesPerGeneration),
    filter.Alive n vKey
  endless : filter.nEntriesPerGeneration = 0 → keys.length ≤ filter.nEntriesThisGeneration

theorem position_congr {data : BloomData} (h : data.length = filter.data.length) (i : ℕ) (vKey : Bytes) :
    { filter with data }.position i vKey = filter.position i vKey := by
  simp only [position, h]

theorem position_lt (size : 0 < filter.data.length) (i : ℕ) (vKey : Bytes) :
    filter.position i vKey < filter.data.length * 16 :=
  mod_lt _ (by omega)

theorem Remembers.nextGeneration (h : filter.Remembers keys)
    (full : filter.nEntriesThisGeneration = filter.nEntriesPerGeneration) : filter.nextGeneration.Remembers keys := by
  obtain ⟨size, entries⟩ := BloomData.foldl_put (· = filter.nextGeneration.nGeneration) (show 0 < 4 by norm_num)
    (range (filter.data.length * 16)) (fun p mem => mem_range.mp mem)
  have generation :
      filter.nextGeneration.nGeneration = if filter.nGeneration = 3 then 1 else filter.nGeneration + 1 := by
    simp [CRollingBloomFilter.nextGeneration]
  have range := h.generation
  constructor
  case size => exact h.size.trans_eq size.symm
  case generation =>
    rw [generation]
    split <;> omega
  case endless => exact fun zero => (h.endless zero).trans_eq (full.trans zero)
  case alive =>
    rintro (_ | n) le vKey mem
    case zero =>
      rw [zero_mul] at mem
      exact absurd mem not_mem_nil
    case succ =>
      have before := h.alive n (by omega) vKey (by
        rwa [full, add_comm, ← succ_mul, ← zero_add ((n + 1) * _)])
      intro i lt
      obtain ⟨used, young⟩ := before i lt
      have bound := filter.data.get_le (filter.position i vKey)
      have other : filter.data.get (filter.position i vKey) ≠ filter.nextGeneration.nGeneration := by
        rw [generation]
        split <;> omega
      have kept := entries _ (position_lt h.size i vKey)
      rw [if_neg (other ·.2)] at kept
      rw [show filter.nextGeneration.position i vKey = _ from position_congr size i vKey,
        show filter.nextGeneration.data.get _ = _ from kept, generation]
      refine ⟨used, ?_⟩
      split <;> omega

theorem Remembers.mark (h : filter.Remembers keys) (vKey : Bytes) : (filter.mark vKey).Remembers (vKey :: keys) := by
  have range := h.generation
  obtain ⟨size, entries⟩ := BloomData.foldl_put (fun _ => True) (show filter.nGeneration < 4 by omega)
    ((List.range filter.nHashFuncs).map (filter.position · vKey)) (by
      intro p mem
      obtain ⟨i, -, rfl⟩ := mem_map.mp mem
      exact position_lt h.size i vKey)
  simp only [if_true, and_true, foldl_map] at size entries
  constructor
  case size => exact h.size.trans_eq size.symm
  case generation => exact range
  case endless => exact fun zero => succ_le_succ (h.endless zero)
  case alive =>
    intro n le vKey' mem
    rw [show (filter.mark vKey).nEntriesThisGeneration + n * (filter.mark vKey).nEntriesPerGeneration =
      filter.nEntriesThisGeneration + n * filter.nEntriesPerGeneration + 1 from add_right_comm ..,
      take_succ_cons, mem_cons] at mem
    intro i lt
    rw [show (filter.mark vKey).position i vKey' = _ from position_congr size i vKey',
      show (filter.mark vKey).data.get _ = _ from entries _ (position_lt h.size i vKey')]
    split
    case isTrue => exact ⟨by omega, by simp [CRollingBloomFilter.mark]⟩
    case isFalse unmarked =>
      obtain rfl | old := mem
      case inl => exact absurd (mem_map_of_mem (mem_range.mpr lt)) unmarked
      case inr => exact h.alive n le vKey' old i lt

theorem Remembers.insert (h : filter.Remembers keys) (vKey : Bytes) :
    (filter.insert vKey).Remembers (vKey :: keys) := by
  rw [CRollingBloomFilter.insert]
  split
  case isTrue full => exact (h.nextGeneration full).mark vKey
  case isFalse => exact h.mark vKey

theorem Remembers.foldl_insert (h : filter.Remembers keys) (l : List Bytes) :
    (l.foldl CRollingBloomFilter.insert filter).Remembers (l.reverse ++ keys) := by
  induction l generalizing filter keys
  case nil => exact h
  case cons vKey l ih =>
    rw [foldl_cons, reverse_cons, append_assoc]
    exact ih (h.insert vKey)

theorem contains_last_inserted (nElements : UInt32) (nHashFuncs size : ℕ) (nTweak : UInt32)
    (hash : UInt32 → Bytes → UInt32) (keys : List Bytes) :
    (keys.reverse.take nElements.toNat).all
      (keys.foldl insert (.new nElements nHashFuncs (size + 1) nTweak hash)).contains = true := by
  have start : (new nElements nHashFuncs (size + 1) nTweak hash).Remembers [] :=
    ⟨by simp [new], ⟨le_rfl, by simp [new]⟩, by simp, fun _ => Nat.le_refl 0⟩
  have remembers := start.foldl_insert keys
  have fixed (filter : CRollingBloomFilter) (l : List Bytes) :
      (l.foldl insert filter).nEntriesPerGeneration = filter.nEntriesPerGeneration := by
    induction l generalizing filter
    case nil => rfl
    case cons vKey l ih =>
      rw [foldl_cons, ih, insert]
      split <;> rfl
  have half : (keys.foldl insert (new nElements nHashFuncs (size + 1) nTweak hash)).nEntriesPerGeneration =
      (nElements.toNat + 1) % 2 ^ 32 / 2 := by
    rw [fixed, new, UInt32.toNat_div, UInt32.toNat_add]
    rfl
  revert remembers half
  generalize keys.foldl insert _ = filter
  intro remembers half
  rw [append_nil] at remembers
  simp only [all_eq_true, contains, mem_range, decide_eq_true_eq]
  intro vKey mem i lt
  refine (remembers.alive 2 le_rfl vKey ?_ i lt).1
  have bound := nElements.toNat_lt
  by_cases zero : filter.nEntriesPerGeneration = 0
  case pos =>
    rw [take_of_length_le ((remembers.endless zero).trans (Nat.le_add_right ..))]
    exact mem_of_mem_take mem
  case neg => exact (take_sublist_take_left (by omega)).subset mem

end CRollingBloomFilter

end Qrax
