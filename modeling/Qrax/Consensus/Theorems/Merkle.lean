import Qrax.Lib.MerkleTree
import Qrax.Consensus.Merkle

open MerkleTree List Function Nat

namespace Qrax.MerkleComputation

theorem testBit_of_dvd {k c : ℕ} (h : 2 ^ (k + 1) ∣ c) : c.testBit k = false := by
  have ⟨q, hq⟩ := h
  rw [hq, testBit_two_pow_mul]
  simp

theorem testBit_add_of_dvd {k c : ℕ} (h : 2 ^ (k + 1) ∣ c) : (c + 2 ^ k).testBit k = true := by
  have ⟨q, hq⟩ := h
  rw [hq, testBit_eq_decide_div_mod_eq]
  have : (2 ^ (k + 1) * q + 2 ^ k) / 2 ^ k = 2 * q + 1 := by
    rw [show 2 ^ (k + 1) * q + 2 ^ k = 2 ^ k * (2 * q + 1) by ring]
    exact Nat.mul_div_cancel_left _ (Nat.two_pow_pos k)
  rw [this]
  simp

theorem dvd_of_testBit {k c : ℕ} (h : 2 ^ k ∣ c) (bit : c.testBit k = false) : 2 ^ (k + 1) ∣ c := by
  have ⟨q, hq⟩ := h
  have : q % 2 = 0 := by
    rw [hq, testBit_two_pow_mul] at bit
    simpa [testBit_zero] using bit
  have ⟨r, hr⟩ := dvd_of_mod_eq_zero this
  exact ⟨r, by rw [hq, hr]; ring⟩

variable [Crypto]

def climbFrom (count : ℕ) (inner : ℕ → Uint256) (level : ℕ) (h : Uint256) (mutated : Bool) :=
  climb count inner (32 - level) level h mutated

def sweepFrom (inner : ℕ → Uint256) (count level : ℕ) (h : Uint256) : Uint256 :=
  sweep inner (32 - level) count level h

variable {count level : ℕ} {inner : ℕ → Uint256} {h : Uint256}

theorem climbFrom_stop {mutated : Bool} (hl : level < 32) (bit : count.testBit level = true) :
    climbFrom count inner level h mutated = (level, h, mutated) := by
  rw [climbFrom, show 32 - level = (31 - level) + 1 by omega, climb, if_pos bit]

theorem climbFrom_step {mutated : Bool} (hl : level < 32) (bit : count.testBit level = false) :
    climbFrom count inner level h mutated =
      climbFrom count inner (level + 1) (merkleHash (inner level) h) (mutated || inner level == h) := by
  rw [climbFrom, show 32 - level = (32 - (level + 1)) + 1 by omega, climb, bit]
  rfl

theorem sweepFrom_stop (hl : level < 32)
    (hc : count = 2 ^ level) : sweepFrom inner count level h = h := by
  rw [sweepFrom, show 32 - level = (31 - level) + 1 by omega, sweep, if_pos hc]

theorem sweepFrom_double (hl : level < 32)
    (hc : count ≠ 2 ^ level) (bit : count.testBit level = true) :
    sweepFrom inner count level h =
      sweepFrom inner (count + 2 ^ level) (level + 1) (merkleHash h h) := by
  rw [sweepFrom, show 32 - level = (32 - (level + 1)) + 1 by omega, sweep, if_neg hc, if_pos bit]
  rfl

theorem sweepFrom_join (hl : level < 32)
    (bit : count.testBit level = false) :
    sweepFrom inner count level h =
      sweepFrom inner count (level + 1) (merkleHash (inner level) h) := by
  have hc : count ≠ 2 ^ level := by
    intro eq
    rw [eq, testBit_two_pow_self] at bit
    cases bit
  rw [sweepFrom, show 32 - level = (32 - (level + 1)) + 1 by omega, sweep, if_neg hc, bit]
  rfl

theorem sweep_congr {inner inner' : ℕ → Uint256} {fuel count level : ℕ}
    (hi : ∀ l, level < l → inner' l = inner l) (bit : count.testBit level = false → inner' level = inner level) :
    sweep inner' fuel count level h = sweep inner fuel count level h := by
  induction fuel generalizing count level h
  case zero => rfl
  case succ fuel ih =>
    have above (l : ℕ) (hl : level + 1 < l) : inner' l = inner l := hi l (by omega)
    simp only [sweep]
    split
    case isTrue => rfl
    case isFalse =>
      split
      case isTrue => exact ih above fun _ => hi (level + 1) (by omega)
      case isFalse zero =>
        rw [bit (Bool.eq_false_iff.mpr zero)]
        exact ih above fun _ => hi (level + 1) (by omega)

def store (count : ℕ) (inner : ℕ → Uint256) (r : ℕ × Uint256 × Bool) : State where
  count := count
  inner := Function.update inner r.1 r.2.1
  mutated := r.2.2

-- A complete subtree acts like one hash that enters at its level.
theorem foldl_complete {k : ℕ} {x : List Uint256} (hx : x.length = 2 ^ k) (hk : k < 32) {s : State}
    (hs : 2 ^ k ∣ s.count) :
    ∃ inner, (∀ l, k ≤ l → inner l = s.inner l) ∧
      x.foldl addLeaf s =
        store (s.count + 2 ^ k) inner
          (climbFrom (s.count + 2 ^ k) inner k (root merkleHash k x)
            (s.mutated || mutated merkleHash k x)) := by
  induction k generalizing x s
  case zero =>
    obtain ⟨a, ha⟩ := length_eq_one_iff.mp hx
    subst ha
    refine ⟨s.inner, fun _ _ => rfl, ?_⟩
    simp [addLeaf, store, climbFrom, root, mutated]
  case succ k ih =>
    have hlt : 2 ^ k < x.length := by
      rw [hx, pow_succ]
      have := Nat.two_pow_pos k
      omega
    obtain ⟨full, _, _⟩ := length_halves hlt hx.le
    have full' : (x.drop (2 ^ k)).length = 2 ^ k := by
      rw [length_drop, hx, pow_succ]
      omega
    have dvd : 2 ^ k ∣ s.count := (pow_dvd_pow 2 (le_succ k)).trans hs
    -- The first half stops at level `k`, where the second half finds it.
    obtain ⟨inner₁, above₁, eq₁⟩ := ih full (by omega) dvd
    rw [climbFrom_stop (by omega) (testBit_add_of_dvd hs)] at eq₁
    obtain ⟨inner₂, above₂, eq₂⟩ := ih (s := (x.take (2 ^ k)).foldl addLeaf s) full' (by omega)
      (by rw [eq₁]; exact (Nat.dvd_add_right dvd).mpr (dvd_refl _))
    have count : s.count + 2 ^ k + 2 ^ k = s.count + 2 ^ (k + 1) := by
      rw [pow_succ]
      omega
    rw [eq₁] at above₂ eq₂
    have left : inner₂ k = root merkleHash k (x.take (2 ^ k)) := by
      rw [above₂ k (le_refl k)]
      exact update_self ..
    have bit : (s.count + 2 ^ (k + 1)).testBit k = false :=
      testBit_of_dvd ((Nat.dvd_add_right hs).mpr (dvd_refl _))
    refine ⟨inner₂, fun l hl => ?_, ?_⟩
    · rw [above₂ l (by omega), ← above₁ l (by omega)]
      exact update_of_ne (by change l ≠ k; omega) ..
    · conv_lhs => rw [← take_append_drop (2 ^ k) x, foldl_append, eq₁, eq₂]
      simp only [store, count]
      rw [climbFrom_step (by omega) bit, left, root_long hlt, mutated_long hlt, full']
      simp [Bool.or_assoc]

theorem climb_mutated (count : ℕ) (inner : ℕ → Uint256) (fuel level : ℕ) (h : Uint256) (m : Bool) :
    (climb count inner fuel level h m).2.2 = (m || (climb count inner fuel level h false).2.2) := by
  induction fuel generalizing level h m
  case zero => simp [climb]
  case succ fuel ih =>
    simp only [climb]
    split
    case isTrue => simp
    case isFalse => rw [ih, ih (m := false || _), Bool.false_or, Bool.or_assoc]

theorem climb_ends (inner : ℕ → Uint256) (h : Uint256) (m : Bool)
    (dvd : 2 ^ level ∣ count) (pos : 0 < count) (lt : count < 2 ^ 32) (hl : level ≤ 32) :
    ∃ t h' m', climbFrom count inner level h m = (t, h', m') ∧ t < 32 ∧ count.testBit t = true ∧
      skipZeros count (32 - level) level = t ∧
      sweepFrom inner count level h = sweepFrom inner count t h' := by
  obtain ⟨fuel, hf⟩ : ∃ fuel, fuel = 32 - level := ⟨_, rfl⟩
  induction fuel generalizing level h m
  case zero =>
    have : level = 32 := by omega
    subst this
    have := le_of_dvd pos dvd
    omega
  case succ fuel ih =>
    cases bit : count.testBit level
    case true =>
      refine ⟨level, h, m, climbFrom_stop (by omega) bit, by omega, bit, ?_, rfl⟩
      rw [← hf, skipZeros, if_pos bit]
    case false =>
      have ⟨t, h', m', climbs, ht, bit', skips, sweeps⟩ := ih
        (merkleHash (inner level) h) (m || inner level == h) (dvd_of_testBit dvd bit) (by omega) (by omega)
      refine ⟨t, h', m', ?_, ht, bit', ?_, ?_⟩
      · rw [climbFrom_step (by omega) bit, climbs]
      · rw [← hf, skipZeros, bit, ← skips, show fuel = 32 - (level + 1) by omega]
        rfl
      · rw [sweepFrom_join (by omega) bit, sweeps]

omit [Crypto] in
theorem skipZeros_of_dvd {count k : ℕ} (dvd : 2 ^ k ∣ count) (hk : k ≤ 32) :
    skipZeros count 32 0 = skipZeros count (32 - k) k := by
  induction k
  case zero => rfl
  case succ k ih =>
    have bit := testBit_of_dvd dvd
    rw [ih ((pow_dvd_pow 2 (le_succ k)).trans dvd) (by omega),
      show 32 - k = (32 - (k + 1)) + 1 by omega, skipZeros, bit]
    rfl

def result (s : State) : Uint256 :=
  let level := skipZeros s.count 32 0
  sweepFrom s.inner s.count level (s.inner level)

theorem result_store {count k : ℕ} {m : Bool}
    (dvd : 2 ^ k ∣ count) (pos : 0 < count) (lt : count < 2 ^ 32) (hk : k < 32) :
    result (store count inner (climbFrom count inner k h m)) = sweepFrom inner count k h := by
  have ⟨t, h', m', climbs, _, bit, skips, sweeps⟩ := climb_ends inner h m dvd pos lt hk.le
  rw [climbs, sweeps]
  simp only [result, store, skipZeros_of_dvd dvd hk.le, skips, update_self]
  refine sweep_congr (fun l hl => ?_) fun zero => ?_
  · exact update_of_ne (by omega) ..
  · rw [bit] at zero
    cases zero

-- What the leaves of the last, maybe incomplete subtree of height `k` come to.
structure Swept (s : State) (k : ℕ) (x : List Uint256) (inner : ℕ → Uint256) : Prop where
  above : ∀ l, k ≤ l → inner l = s.inner l
  mutated : (x.foldl addLeaf s).mutated =
    (s.mutated || mutated merkleHash k x ||
      (x.length == 2 ^ k && (climbFrom (s.count + 2 ^ k) inner k (root merkleHash k x) false).2.2))
  result : result (x.foldl addLeaf s) = sweepFrom inner (s.count + 2 ^ k) k (root merkleHash k x)

variable {k : ℕ} {x : List Uint256} {s : State}

theorem foldl_full (full : x.length = 2 ^ k) (hk : k < 32) (hs : 2 ^ k ∣ s.count)
    (lt : s.count + 2 ^ k < 2 ^ 32) : ∃ inner, Swept s k x inner := by
  have ⟨stored, above, eq⟩ := foldl_complete full hk hs
  refine ⟨stored, above, ?_, ?_⟩
  · rw [eq, full, beq_self_eq_true, Bool.true_and]
    exact climb_mutated ..
  · rw [eq]
    exact result_store ((Nat.dvd_add_right hs).mpr (Nat.dvd_refl _))
      (Nat.add_pos_right _ (Nat.two_pow_pos k)) lt hk

theorem Swept.double (h : Swept s k x inner) (short : x.length ≤ 2 ^ k) (hk : k < 32)
    (hs : 2 ^ (k + 1) ∣ s.count) (pos : s.count ≠ 0) : Swept s (k + 1) x inner := by
  have bit := testBit_add_of_dvd hs
  have twice : s.count + 2 ^ k + 2 ^ k = s.count + 2 ^ (k + 1) := by rw [pow_succ]; omega
  constructor
  case above => exact fun l hl => h.above l (by omega)
  case mutated =>
    have part : (x.length == 2 ^ (k + 1)) = false := by
      have := Nat.two_pow_pos k
      rw [beq_eq_false_iff_ne, pow_succ]
      omega
    rw [h.mutated, climbFrom_stop hk bit, mutated_short short, part]
    simp
  case result =>
    rw [h.result, sweepFrom_double hk (by omega) bit, twice, root_short short]

theorem Swept.join {inner inner' : ℕ → Uint256} (long : 2 ^ k < x.length) (part : x.length < 2 ^ (k + 1))
    (hk : k < 32) (hs : 2 ^ (k + 1) ∣ s.count) (hi : ∀ l, k ≤ l → inner l = s.inner l)
    (left : (x.take (2 ^ k)).foldl addLeaf s =
      store (s.count + 2 ^ k) inner
        (k, root merkleHash k (x.take (2 ^ k)), s.mutated || MerkleTree.mutated merkleHash k (x.take (2 ^ k))))
    (right : Swept ((x.take (2 ^ k)).foldl addLeaf s) k (x.drop (2 ^ k)) inner') :
    Swept s (k + 1) x inner' := by
  have twice : s.count + 2 ^ k + 2 ^ k = s.count + 2 ^ (k + 1) := by rw [pow_succ]; omega
  have halves (t : State) : x.foldl addLeaf t = (x.drop (2 ^ k)).foldl addLeaf ((x.take (2 ^ k)).foldl addLeaf t) := by
    rw [← foldl_append, take_append_drop]
  have lacks : ((x.drop (2 ^ k)).length == 2 ^ k) = false := by
    rw [beq_eq_false_iff_ne, length_drop]
    rw [pow_succ] at part
    omega
  rw [left] at right
  constructor
  case above =>
    intro l hl
    rw [right.above l (by omega), ← hi l (by omega)]
    exact update_of_ne (by omega : l ≠ k) ..
  case mutated =>
    rw [halves, left, right.mutated, mutated_long long, lacks, beq_eq_false_iff_ne.mpr part.ne]
    simp [store, Bool.or_assoc]
  case result =>
    have own : inner' k = root merkleHash k (x.take (2 ^ k)) := by
      rw [right.above k le_rfl]
      exact update_self ..
    have bit : (s.count + 2 ^ (k + 1)).testBit k = false :=
      testBit_of_dvd ((Nat.dvd_add_right hs).mpr (Nat.dvd_refl _))
    rw [halves, left, right.result]
    simp only [store, twice]
    rw [sweepFrom_join hk bit, own, root_long long]

theorem foldl_last (pos : 0 < x.length) (fits : x.length ≤ 2 ^ k) (hk : k < 32) (hs : 2 ^ k ∣ s.count)
    (lt : s.count + 2 ^ k < 2 ^ 32) (low : s.count ≠ 0 ∨ 2 ^ k < 2 * x.length) :
    ∃ inner, Swept s k x inner := by
  induction k generalizing x s
  case zero => exact foldl_full (le_antisymm fits pos) hk hs lt
  case succ k ih =>
    have hs' : 2 ^ k ∣ s.count := (pow_dvd_pow 2 (le_succ k)).trans hs
    have twice : s.count + 2 ^ k + 2 ^ k = s.count + 2 ^ (k + 1) := by rw [pow_succ]; omega
    by_cases full : x.length = 2 ^ (k + 1)
    case pos => exact foldl_full full hk hs lt
    case neg =>
      by_cases short : x.length ≤ 2 ^ k
      case pos =>
        have nonzero : s.count ≠ 0 := by
          rw [pow_succ] at low
          omega
        obtain ⟨stored, swept⟩ := ih pos short (by omega) hs' (by omega) (.inl nonzero)
        exact ⟨stored, swept.double short (by omega) hs nonzero⟩
      case neg =>
        have long := not_le.mp short
        obtain ⟨hl, hr, hr'⟩ := length_halves long fits
        obtain ⟨stored, above, left⟩ := foldl_complete hl (by omega) hs'
        rw [climbFrom_stop (by omega) (testBit_add_of_dvd hs)] at left
        obtain ⟨inner', right⟩ := ih (s := (x.take (2 ^ k)).foldl addLeaf s) hr hr' (by omega)
          (by rw [left]; exact (Nat.dvd_add_right hs').mpr (dvd_refl _))
          (by rw [left]; simp only [store]; omega)
          (.inl (by rw [left]; have := Nat.two_pow_pos k; simp only [store]; omega))
        exact ⟨inner', right.join long (by omega) (by omega) hs above left⟩

end Qrax.MerkleComputation

namespace Qrax

open MerkleComputation

variable [Crypto]

-- The loops compute the root of the tree over the leaves, and `mutated` says that two complete neighbouring subtrees
-- have one root.
theorem computeMerkleRoot_eq {leaves : List Uint256} (pos : 0 < leaves.length) (fits : leaves.length ≤ 2 ^ 31) :
    computeMerkleRoot leaves =
      (root merkleHash (height leaves) leaves, mutated merkleHash (height leaves) leaves) := by
  have hk : height leaves ≤ 31 := clog_le_of_le_pow fits
  have low : 2 ^ height leaves < 2 * leaves.length := by
    cases eq : height leaves
    case zero => omega
    case succ k =>
      have := (lt_clog_iff_pow_lt (b := 2) (by decide)).mp (show k < height leaves by omega)
      rw [pow_succ]
      omega
  have lt : 2 ^ height leaves < 2 ^ 32 := Nat.pow_lt_pow_right (by decide) (by omega)
  have ⟨stored, swept⟩ := foldl_last (s := {}) pos (length_le_height leaves) (by omega) (dvd_zero _)
    (by simpa using lt) (.inr low)
  have bit : (0 + 2 ^ height leaves).testBit (height leaves) = true := by
    rw [zero_add, testBit_two_pow_self]
  have nonempty : leaves.isEmpty = false := by
    rw [isEmpty_eq_false_iff]
    exact ne_nil_of_length_pos pos
  have eq : computeMerkleRoot leaves = (result (leaves.foldl addLeaf {}), (leaves.foldl addLeaf {}).mutated) := by
    rw [computeMerkleRoot, nonempty]
    rfl
  rw [eq, swept.result, swept.mutated, sweepFrom_stop (by omega) (zero_add _), climbFrom_stop (by omega) bit]
  simp

end Qrax
