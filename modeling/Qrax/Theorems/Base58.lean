import Qrax.Base58

open Fallible List Nat

namespace Qrax

namespace DigitBuffer

variable {factor base : ℕ} {b : DigitBuffer} {size value : ℕ} {digits l : List ℕ}

theorem ofDigits_zeros (h : ∀ d ∈ l, d = 0) : ofDigits base l = 0 := by
  rw [eq_replicate_of_mem h, ofDigits_replicate_zero]

theorem dropWhile_zeros (h : ∀ d ∈ l, d < base) (two : 1 < base) :
    l.dropWhile (· = 0) = (Nat.digits base (ofDigits base l.reverse)).reverse ∧
      ofDigits base (l.dropWhile (· = 0)).reverse = ofDigits base l.reverse := by
  induction l
  case nil => simp
  case cons d l ih =>
    by_cases zero : d = 0
    case pos =>
      have same : ofDigits base (d :: l).reverse = ofDigits base l.reverse := by
        rw [reverse_cons, ofDigits_append, zero]
        simp
      rw [same, dropWhile_cons_of_pos (by simp [zero])]
      exact ih (forall_mem_cons.mp h).right
    case neg =>
      rw [dropWhile_cons_of_neg (by simp [zero]), digits_ofDigits base two, reverse_reverse]
      · exact ⟨rfl, rfl⟩
      · exact fun x mem => h x (mem_reverse.mp mem)
      · simpa using zero

-- The buffer holds the number `value`, with zeros where it is not in use.
structure Holds (base size : ℕ) (b : DigitBuffer) (value : ℕ) : Prop where
  size : b.digits.length = size
  lt : ∀ d ∈ b.digits, d < base
  unused : ∀ d ∈ b.digits.drop b.length, d = 0
  value : Nat.ofDigits base b.digits = value

theorem mulAdd_spec (pos : 0 < base) {length : ℕ} (carry : ℕ) (lt : ∀ d ∈ digits, d < base)
    (unused : ∀ d ∈ digits.drop length, d = 0) :
    let r := mulAdd factor base length carry digits
    r.1.length = digits.length ∧ (∀ d ∈ r.1, d < base) ∧ (∀ d ∈ r.1.drop r.2.2, d = 0) ∧
      ofDigits base r.1 + base ^ digits.length * r.2.1 = carry + factor * ofDigits base digits := by
  induction digits generalizing length carry
  case nil => simp [mulAdd]
  case cons d digits ih =>
    by_cases busy : carry ≠ 0 ∨ 0 < length
    case pos =>
      have rest : ∀ d ∈ digits.drop (length - 1), d = 0 := by
        cases length
        case zero => exact (forall_mem_cons.mp unused).right
        case succ length => exact unused
      obtain ⟨size, lt', unused', eq⟩ := ih ((carry + factor * d) / base) (forall_mem_cons.mp lt).right rest
      rw [mulAdd, if_pos busy]
      refine ⟨congrArg succ size, forall_mem_cons.mpr ⟨mod_lt _ pos, lt'⟩, unused', ?_⟩
      have split := mod_add_div (carry + factor * d) base
      simp only [ofDigits_cons, length_cons, pow_succ]
      linear_combination base * eq + split
    case neg =>
      rw [mulAdd, if_neg busy]
      simp only [not_or, not_not, not_lt, le_zero] at busy
      obtain ⟨rfl, rfl⟩ := busy
      refine ⟨rfl, lt, unused, ?_⟩
      simp [ofDigits_zeros (l := d :: digits) unused]

theorem Holds.apply (h : Holds base size b value) (pos : 0 < base) (factor carry : ℕ) :
    (∃ b', b.apply factor base carry = .ok b' ∧ Holds base size b' (carry + factor * value)) ∨
      b.apply factor base carry = .error (.assertion "carry == 0") ∧ base ^ size ≤ carry + factor * value := by
  obtain ⟨size', lt, unused, eq⟩ := mulAdd_spec pos carry h.lt h.unused
  rw [h.size, h.value] at eq
  unfold DigitBuffer.apply
  by_cases left : (mulAdd factor base b.length carry b.digits).2.1 = 0
  case pos =>
    rw [left, mul_zero, add_zero] at eq
    exact .inl ⟨_, if_neg (not_not.mpr left), size'.trans h.size, lt, unused, eq⟩
  case neg =>
    refine .inr ⟨if_pos left, ?_⟩
    rw [← eq]
    exact (Nat.le_mul_of_pos_right _ (Nat.pos_of_ne_zero left)).trans (Nat.le_add_left _ _)

theorem le_foldl (pos : 0 < factor) (l : List ℕ) (v : ℕ) : v ≤ l.foldl (fun v d => d + factor * v) v := by
  induction l generalizing v
  case nil => exact le_rfl
  case cons d l ih => exact (le_add_left_of_le (Nat.le_mul_of_pos_left v pos)).trans (ih _)

theorem Holds.foldlM (h : Holds base size b value) (pos : 0 < base) (pos' : 0 < factor) (l : List ℕ) :
    (∃ b', l.foldlM (DigitBuffer.apply factor base) b = .ok b' ∧
      Holds base size b' (l.foldl (fun v d => d + factor * v) value)) ∨
    l.foldlM (DigitBuffer.apply factor base) b = .error (.assertion "carry == 0") ∧
      base ^ size ≤ l.foldl (fun v d => d + factor * v) value := by
  induction l generalizing b value
  case nil => exact .inl ⟨b, rfl, h⟩
  case cons d l ih =>
    rw [foldlM_cons, foldl_cons]
    obtain ⟨b', eq, holds⟩ | ⟨eq, big⟩ := h.apply pos factor d
    case inl =>
      rw [eq]
      exact ih holds
    case inr =>
      rw [eq]
      exact .inr ⟨rfl, big.trans (le_foldl pos' l _)⟩

theorem foldlM_alloc (factor base : ℕ) (two : 1 < base) (pos : 0 < factor) (l : List ℕ) (size : ℕ) :
    let result := l.foldlM (apply factor base) ⟨List.replicate size 0, 0⟩
    let value := ofDigits factor l.reverse
    value < base ^ size ∧ (∃ b, result = .ok b ∧ b.significant = (Nat.digits base value).reverse) ∨
      base ^ size ≤ value ∧ result = .error (.assertion "carry == 0") := by
  intro result value
  have start : Holds base size ⟨replicate size 0, 0⟩ 0 :=
    ⟨by simp, by simp; omega, by simp, ofDigits_replicate_zero ..⟩
  have read : value = l.foldl (fun v d => d + factor * v) 0 := by
    rw [foldl_eq_foldr_reverse]
    exact ofDigits_eq_foldr ..
  rw [read]
  obtain ⟨b, eq, h⟩ | ⟨eq, big⟩ := start.foldlM two.le pos l
  case inr => exact .inr ⟨big, eq⟩
  case inl =>
    have room := ofDigits_lt_base_pow_length two h.lt
    rw [h.value, h.size] at room
    refine .inl ⟨room, b, eq, ?_⟩
    have used : ofDigits base (b.digits.take b.length) = ofDigits base b.digits := by
      conv => right; rw [← take_append_drop b.length b.digits]
      rw [ofDigits_append, ofDigits_zeros h.unused, mul_zero, add_zero]
    have lt : ∀ d ∈ (b.digits.take b.length).reverse, d < base :=
      fun d mem => h.lt d (mem_of_mem_take (mem_reverse.mp mem))
    rw [significant, (dropWhile_zeros lt two).left, reverse_reverse, used, h.value]

theorem alloc_of_lt (h : size < 2 ^ 31) : alloc size = .ok ⟨replicate size 0, 0⟩ := by
  have eq : (size : ℤ).bmod (2 ^ 32) = size := Int.bmod_eq_of_le_mul_two (by omega) (by omega)
  rw [alloc, eq, failIf_of_not (by omega)]
  rfl

end DigitBuffer

open DigitBuffer

-- A rational bound on the logarithm gives room for numbers of any length.
theorem foldlM_of_ratio {factor p q size : ℕ} (base : ℕ) {l : List ℕ} (ratio : factor ^ q ≤ base ^ p)
    (two : q ≠ 0 ∧ 1 < factor ∧ 1 < base) (lt : ∀ d ∈ l, d < factor) (enough : p * l.length ≤ q * size) :
    let value := ofDigits factor l.reverse
    value < base ^ size ∧ ∃ b, l.foldlM (apply factor base) ⟨List.replicate size 0, 0⟩ = .ok b ∧
      b.significant = (digits base value).reverse := by
  have bound : factor ^ l.length ≤ base ^ size := by
    rw [← Nat.pow_le_pow_iff_left two.left]
    calc (factor ^ l.length) ^ q = (factor ^ q) ^ l.length := pow_right_comm ..
      _ ≤ (base ^ p) ^ l.length := Nat.pow_le_pow_left ratio _
      _ = base ^ (p * l.length) := (pow_mul ..).symm
      _ ≤ base ^ (q * size) := Nat.pow_le_pow_right two.right.right.le enough
      _ = (base ^ size) ^ q := pow_mul' ..
  have below := ofDigits_lt_base_pow_length two.right.left fun d mem => lt d (mem_reverse.mp mem)
  rw [length_reverse] at below
  obtain fits | ⟨big, _⟩ := foldlM_alloc factor base two.right.right two.right.left.le l size
  case inl => exact fits
  case inr => exact absurd (below.trans_le bound) big.not_gt

theorem base58Char_spec {d : ℕ} (h : d < 58) :
    pszBase58.idxOf? (base58Char d) = some d ∧ isSpace (base58Char d) = false := by
  decide +revert

theorem base58Char_eq_one : (fun c => decide (c = '1')) ∘ base58Char = fun d => decide (d = 0) := by
  funext d
  by_cases h : d < 58
  case pos => decide +revert
  case neg =>
    have blank : base58Char d = ' ' := getD_eq_default _ _ (not_lt.mp h)
    simp [blank, show d ≠ 0 by omega]

theorem decodeChars_map {ds : List ℕ} (lt : ∀ d ∈ ds, d < 58) (b : DigitBuffer) :
    decodeChars b (ds.map base58Char) = (ds.foldlM (apply 58 256) b).map some := by
  induction ds generalizing b
  case nil => rfl
  case cons d ds ih =>
    obtain ⟨head, rest⟩ := forall_mem_cons.mp lt
    rw [map_cons, decodeChars, (base58Char_spec head).left, foldlM_cons]
    change (b.apply 58 256 d >>= fun b => decodeChars b (ds.map base58Char)) = _
    cases b.apply 58 256 d
    case error e => rfl
    case ok b => exact ih rest b

theorem toNat_lt (vch : Bytes) : ∀ d ∈ vch.map UInt8.toNat, d < 256 := by
  simp only [forall_mem_map]
  exact fun c _ => c.toNat_lt

theorem encodeBase58_eq {vch rest : Bytes} (tail : vch.dropWhile (· = 0) = rest)
    (zeroes : (vch.takeWhile (· = 0)).length < 2 ^ 31) (fits : rest.length * 138 / 100 + 1 < 2 ^ 31) :
    let value := ofDigits 256 (rest.map UInt8.toNat).reverse
    value < 58 ^ (rest.length * 138 / 100 + 1) ∧ encodeBase58 vch =
      .ok ((replicate (vch.takeWhile (· = 0)).length 0 ++ (digits 58 value).reverse).map base58Char) := by
  have enough : 11 * (rest.map UInt8.toNat).length ≤ 8 * (rest.length * 138 / 100 + 1) := by
    rw [length_map]
    omega
  obtain ⟨room, b, eq, digits⟩ := foldlM_of_ratio 58 (by norm_num) (by decide) (toNat_lt rest) enough
  have alloc := alloc_of_lt fits
  push_cast at alloc
  refine ⟨room, ?_⟩
  simp only [encodeBase58, tail, failIf_of_not zeroes.not_ge, alloc, ok_bind, eq, digits, map_append,
    map_replicate]
  rfl

theorem decodeBase58_eq {ds rest : List ℕ} (tail : ds.dropWhile (· = 0) = rest) (lt : ∀ d ∈ ds, d < 58)
    (zeroes : (ds.takeWhile (· = 0)).length < 2 ^ 31) (fits : rest.length * 733 / 1000 + 1 < 2 ^ 31) :
    decodeBase58 (ds.map base58Char) = .ok (some (replicate (ds.takeWhile (· = 0)).length 0 ++
      (digits 256 (ofDigits 58 rest.reverse)).reverse.map UInt8.ofNat)) := by
  have lt' : ∀ d ∈ rest, d < 58 := fun d mem => lt d ((dropWhile_sublist _).mem (tail ▸ mem))
  have clean : ∀ l : List ℕ, (∀ d ∈ l, d < 58) → ∀ c ∈ l.map base58Char, isSpace c = false := by
    intro l lt c mem
    obtain ⟨d, mem', rfl⟩ := mem_map.mp mem
    exact (base58Char_spec (lt d mem')).right
  have lead : (ds.map base58Char).dropWhile isSpace = ds.map base58Char :=
    dropWhile_eq_self_iff.mpr fun pos => Bool.not_eq_true _ ▸ clean ds lt _ (getElem_mem pos)
  have all : (rest.map base58Char).takeWhile (!isSpace ·) = rest.map base58Char :=
    takeWhile_eq_self_iff.mpr fun c mem => by simp [clean rest lt' c mem]
  have none : (rest.map base58Char).dropWhile (!isSpace ·) = [] :=
    dropWhile_eq_nil_iff.mpr fun c mem => by simp [clean rest lt' c mem]
  have ones : ((ds.map base58Char).takeWhile (· = '1')).length = (ds.takeWhile (· = 0)).length := by
    rw [takeWhile_map, base58Char_eq_one, length_map]
  have other : (ds.map base58Char).dropWhile (· = '1') = rest.map base58Char := by
    rw [dropWhile_map, base58Char_eq_one, tail]
  have enough : 52 * rest.length ≤ 71 * (rest.length * 733 / 1000 + 1) := by omega
  obtain ⟨_, b, eq, digits⟩ := foldlM_of_ratio 256 (by norm_num) (by decide) lt' enough
  have alloc := alloc_of_lt fits
  push_cast at alloc
  simp only [decodeBase58, lead, ones, failIf_of_not zeroes.not_ge, other, length_map, alloc, ok_bind, all,
    decodeChars_map lt', eq, Except.map, none, dropWhile_nil, ne_eq, not_true_eq_false, if_false,
    Option.map_some, digits]

theorem decodeBase58_digits {zeroes value size : ℕ} (count : zeroes < 2 ^ 31) (fits : size < 2 ^ 31)
    (room : value < 58 ^ size) :
    decodeBase58 ((replicate zeroes 0 ++ (digits 58 value).reverse).map base58Char) =
      .ok (some (replicate zeroes 0 ++ (digits 256 value).reverse.map UInt8.ofNat)) := by
  have short := (digits_length_le_iff (by norm_num) value).mpr room
  rw [← length_reverse] at short
  generalize digits : (digits 58 value).reverse = ds at short
  have lt : ∀ d ∈ ds, d < 58 :=
    fun d mem => digits_lt_base (by norm_num) (mem_reverse.mp (digits ▸ mem))
  have back : ofDigits 58 ds.reverse = value := by
    rw [← digits, reverse_reverse, ofDigits_digits]
  have rest : (replicate zeroes 0 ++ ds).dropWhile (· = 0) = ds := by
    rw [dropWhile_append_of_pos (by simp), (dropWhile_zeros lt (by norm_num)).left, back, digits]
  have zeros : ((replicate zeroes 0 ++ ds).takeWhile (· = 0)).length = zeroes := by
    have whole := congrArg List.length
      (takeWhile_append_dropWhile (p := (· = 0)) (l := replicate zeroes 0 ++ ds))
    rw [rest, length_append, length_append, length_replicate] at whole
    exact add_right_cancel whole
  rw [decodeBase58_eq rest (forall_mem_append.mpr ⟨by simp, lt⟩) (zeros.trans_lt count) (by omega), zeros, back]

theorem bytes_of_digits (vch : Bytes) :
    replicate (vch.takeWhile (· = 0)).length 0 ++
      (Nat.digits 256 (ofDigits 256 ((vch.dropWhile (· = 0)).map UInt8.toNat).reverse)).reverse.map UInt8.ofNat =
        vch := by
  have zero : (fun d : ℕ => decide (d = 0)) ∘ UInt8.toNat = fun c => decide (c = 0) := by
    funext c
    simp [← UInt8.toNat_inj]
  have rest := dropWhile_zeros (toNat_lt vch) (by norm_num)
  rw [← rest.right, dropWhile_map, zero] at rest
  rw [← rest.left, map_map]
  have back : UInt8.ofNat ∘ UInt8.toNat = id := funext fun c => UInt8.ofNat_toNat
  have zeros : vch.takeWhile (· = 0) = replicate (vch.takeWhile (· = 0)).length 0 :=
    eq_replicate_of_mem fun c mem => by simpa using mem_takeWhile_imp mem
  rw [back, map_id, ← zeros]
  exact takeWhile_append_dropWhile

-- The leading zeros are counted apart, as are the ones for them.
theorem base58_round_trip :
    (∀ vch : Bytes, (vch.takeWhile (· = 0)).length < 2 ^ 31 →
      (vch.dropWhile (· = 0)).length * 138 / 100 + 1 < 2 ^ 31 →
      ∃ psz, encodeBase58 vch = .ok psz ∧ decodeBase58 psz = .ok (some vch)) ∧
    ∀ psz : List Char, (∀ c ∈ psz, c ∈ pszBase58) → (psz.takeWhile (· = '1')).length < 2 ^ 31 →
      (psz.dropWhile (· = '1')).length * 733 / 1000 + 1 < 2 ^ 31 → ∃ vch, decodeBase58 psz = .ok (some vch) := by
  refine ⟨fun vch zeroes fits => ?_, fun psz mem zeroes fits => ?_⟩
  · obtain ⟨room, encoded⟩ := encodeBase58_eq rfl zeroes fits
    refine ⟨_, encoded, ?_⟩
    rw [decodeBase58_digits zeroes fits room, bytes_of_digits]
  · obtain ⟨ds, lt, rfl⟩ : ∃ ds : List ℕ, (∀ d ∈ ds, d < 58) ∧ ds.map base58Char = psz := by
      refine ⟨psz.map pszBase58.idxOf, ?_, ?_⟩
      · simp only [forall_mem_map]
        exact fun c mem' => idxOf_lt_length_of_mem (mem c mem')
      · rw [map_map]
        refine (map_congr_left fun c mem' => ?_).trans (map_id psz)
        exact (getD_eq_getElem _ _ (idxOf_lt_length_of_mem (mem c mem'))).trans (getElem_idxOf _)
    rw [takeWhile_map, base58Char_eq_one, length_map] at zeroes
    rw [dropWhile_map, base58Char_eq_one, length_map] at fits
    exact ⟨_, decodeBase58_eq rfl lt zeroes fits⟩

theorem encodeBase58_wraps {m : ℕ} (size : ℕ) (wraps : (((m + 1 : ℕ) : ℤ) * 138 / 100 + 1).bmod (2 ^ 32) = size)
    (small : size ≤ m) : encodeBase58 (1 :: replicate m 0) = .error (.assertion "carry == 0") := by
  have value : ofDigits 256 (1 :: replicate m 0).reverse = 256 ^ m := by
    simp [ofDigits_append, ofDigits_replicate_zero]
  have alloc : alloc (((m + 1 : ℕ) : ℤ) * 138 / 100 + 1) = .ok ⟨replicate size 0, 0⟩ := by
    rw [alloc, wraps, failIf_of_not (by omega)]
    rfl
  have big : 58 ^ size ≤ 256 ^ m :=
    (Nat.pow_le_pow_left (by norm_num) size).trans (Nat.pow_le_pow_right (by norm_num) small)
  obtain ⟨room, _⟩ | ⟨_, failed⟩ := foldlM_alloc 256 58 (by norm_num) (by norm_num) (1 :: replicate m 0) size
  case inl =>
    rw [value] at room
    exact absurd room big.not_gt
  case inr =>
    have lead : (1 :: replicate m 0 : Bytes).dropWhile (· = 0) = 1 :: replicate m 0 := rfl
    have none : ((1 :: replicate m 0 : Bytes).takeWhile (· = 0)).length = 0 := rfl
    have bytes : (1 :: replicate m 0 : Bytes).map UInt8.toNat = 1 :: replicate m 0 := by simp
    simp only [encodeBase58, none, failIf_of_not (show ¬2 ^ 31 ≤ 0 by decide), lead, bytes, length_cons,
      length_replicate, alloc, ok_bind, failed, error_bind]

-- The size 4295000898 becomes 33602.
theorem base58_size_wraps :
    encodeBase58 (1 :: List.replicate 3112319490 0) = .error (.assertion "carry == 0") :=
  encodeBase58_wraps 33602 (by decide) (by norm_num)

end Qrax
