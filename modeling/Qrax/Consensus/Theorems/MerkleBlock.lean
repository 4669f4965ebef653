import Qrax.Consensus.MerkleBlock
import Qrax.Consensus.Theorems.Merkle
import Qrax.Lib.PartialMerkleTree

open MerkleTree List Option Nat Partial

namespace Qrax.CPartialMerkleTree

variable {t : CPartialMerkleTree} {k : ℕ}

theorem lt_calcTreeWidth {x : ℕ} : x < t.calcTreeWidth k ↔ x * 2 ^ k < t.nTransactions.toNat := by
  have pos := Nat.two_pow_pos k
  rw [calcTreeWidth, shiftRight_eq_div_pow, lt_iff_add_one_le, le_div_iff_mul_le pos, succ_mul]
  omega

theorem calcHeight_eq {fuel : ℕ} (le : k ≤ clog 2 t.nTransactions.toNat)
    (enough : clog 2 t.nTransactions.toNat ≤ k + fuel) : t.calcHeight fuel k = clog 2 t.nTransactions.toNat := by
  induction fuel generalizing k
  case zero => exact le_antisymm le enough
  case succ fuel ih =>
    have wide : t.calcTreeWidth k > 1 ↔ k < clog 2 t.nTransactions.toNat := by
      rw [gt_iff_lt, lt_calcTreeWidth, one_mul, lt_clog_iff_pow_lt (by decide)]
    rw [calcHeight]
    split
    case isTrue more => exact ih (wide.mp more) (by omega)
    case isFalse done => exact le_antisymm le (not_lt.mp fun lt => done (wide.mpr lt))

section

variable (t : CPartialMerkleTree)

def readPart : (height pos : ℕ) → List Bool → List Uint256 →
    Option (Partial Uint256 height × List Bool × List Uint256)
  | 0, _, bit :: bits, hash :: hashes => some (if bit then .shown hash else .pruned hash, bits, hashes)
  | _ + 1, _, false :: bits, hash :: hashes => some (.pruned hash, bits, hashes)
  | height + 1, pos, true :: bits, hashes => do
    let (left, bits, hashes) ← readPart height (pos * 2) bits hashes
    if pos * 2 + 1 < t.calcTreeWidth height then
      let (right, bits, hashes) ← readPart height (pos * 2 + 1) bits hashes
      some (.node left right, bits, hashes)
    else some (.single left, bits, hashes)
  | _, _, _, _ => none

def part : Option (Partial Uint256 (t.calcHeight 32 0)) :=
  (t.readPart (t.calcHeight 32 0) 0 t.vBits t.vHash).map (·.1)

def marked : List ℕ :=
  t.part.elim [] (·.positions)

def hashed [Crypto] : Set (Uint256 × Uint256) :=
  t.part.elim ∅ (·.pairs merkleHash)

end

section

variable {t : CPartialMerkleTree} {matched : Bool} {s : Traversal}

theorem useHash_fBad (bad : s.fBad) : (t.useHash matched s).2.fBad := by
  unfold useHash
  split
  case h_1 => rfl
  case h_2 => exact bad

theorem drop_of_getElem?_eq {α : Type} {l : List α} {i : ℕ} {a : α} (h : l[i]? = some a) :
    l.drop i = a :: l.drop (i + 1) := by
  have ⟨lt, eq⟩ := List.getElem?_eq_some_iff.mp h
  rw [drop_eq_getElem_cons lt, eq]

theorem useHash_eq (good : (t.useHash matched s).2.fBad = false) :
    ∃ hash, t.vHash.drop s.nHashUsed = hash :: t.vHash.drop (s.nHashUsed + 1) ∧
      t.useHash matched s = (hash, { s with
        nHashUsed := s.nHashUsed + 1, vMatch := if matched then s.vMatch ++ [hash] else s.vMatch }) := by
  unfold useHash at good ⊢
  split at good
  case h_1 => cases good
  case h_2 hash eq => exact ⟨hash, drop_of_getElem?_eq eq, rfl⟩

theorem passed {c : Prop} [Decidable c] {m : List Uint256} {r : Uint256 × List Uint256}
    (h : (if c then (0, m) else r).1 ≠ 0) : ¬c ∧ r.1 ≠ 0 := by
  split at h
  case isTrue => exact absurd rfl h
  case isFalse failed => exact ⟨failed, h⟩

variable [Crypto] (t)

structure Traversed (height pos : ℕ) (s : Traversal) (r : Uint256 × Traversal) (p : Partial Uint256 height) :
    Prop where
  part : t.readPart height pos (t.vBits.drop s.nBitsUsed) (t.vHash.drop s.nHashUsed) =
    some (p, t.vBits.drop r.2.nBitsUsed, t.vHash.drop r.2.nHashUsed)
  root : r.1 = p.root merkleHash
  vMatch : r.2.vMatch = s.vMatch ++ p.leaves

variable {t} {height pos : ℕ}

theorem traverse_fBad (bad : s.fBad) : (t.traverseAndExtract height pos s).2.fBad := by
  induction height generalizing pos s
  case zero =>
    unfold traverseAndExtract
    split
    case h_1 => rfl
    case h_2 => exact useHash_fBad bad
  case succ height ih =>
    unfold traverseAndExtract
    split
    case h_1 => rfl
    case h_2 => exact useHash_fBad bad
    case h_3 =>
      have left : (t.traverseAndExtract height (pos * 2) { s with nBitsUsed := s.nBitsUsed + 1 }).2.fBad := ih bad
      simp only
      split
      case isTrue => exact ih left
      case isFalse => exact left

theorem traverse_spec (good : (t.traverseAndExtract height pos s).2.fBad = false) :
    ∃ p, t.Traversed height pos s (t.traverseAndExtract height pos s) p := by
  induction height generalizing pos s
  case zero =>
    unfold traverseAndExtract at good ⊢
    split at good
    case h_1 => cases good
    case h_2 bit eq =>
      obtain ⟨hash, rest, used⟩ := useHash_eq good
      simp only [used]
      refine ⟨if bit then .shown hash else .pruned hash, ?_, ?_, ?_⟩
      · rw [drop_of_getElem?_eq eq, rest, readPart]
      · cases bit <;> rfl
      · cases bit <;> simp [leaves]
  case succ height ih =>
    unfold traverseAndExtract at good ⊢
    split at good
    case h_1 => cases good
    case h_2 eq =>
      obtain ⟨hash, rest, used⟩ := useHash_eq good
      simp only [used]
      refine ⟨.pruned hash, ?_, rfl, by simp [leaves]⟩
      rw [drop_of_getElem?_eq eq, rest, readPart]
    case h_3 eq =>
      simp only at good ⊢
      by_cases wide : pos * 2 + 1 < t.calcTreeWidth height
      case pos =>
        simp only [if_pos wide] at good ⊢
        have goodₗ : (t.traverseAndExtract height (pos * 2) { s with nBitsUsed := s.nBitsUsed + 1 }).2.fBad = false := by
          by_contra bad
          rw [traverse_fBad (Bool.not_eq_false _ ▸ bad)] at good
          cases good
        obtain ⟨p, left⟩ := ih goodₗ
        obtain ⟨q, right⟩ := ih good
        refine ⟨.node p q, ?_, ?_, ?_⟩
        · rw [drop_of_getElem?_eq eq, readPart]
          simp only [left.part, right.part, bind_eq_bind, bind_some, if_pos wide]
        · rw [Partial.root, ← left.root, ← right.root]
        · rw [leaves, right.vMatch, left.vMatch, append_assoc]
      case neg =>
        simp only [if_neg wide] at good ⊢
        obtain ⟨p, left⟩ := ih good
        refine ⟨.single p, ?_, ?_, left.vMatch⟩
        · rw [drop_of_getElem?_eq eq, readPart]
          simp only [left.part, bind_eq_bind, bind_some, if_neg wide]
        · rw [Partial.root, ← left.root]

theorem extractMatches_eq (success : t.extractMatches.1 ≠ 0) :
    0 < t.nTransactions.toNat ∧ ∃ p, t.part = some p ∧ t.extractMatches = (p.root merkleHash, p.leaves) := by
  unfold extractMatches at success ⊢
  have ⟨c₁, success⟩ := passed success
  have ⟨c₂, success⟩ := passed success
  have ⟨c₃, success⟩ := passed success
  have ⟨c₄, success⟩ := passed success
  have ⟨c₅, success⟩ := passed success
  have ⟨c₆, success⟩ := passed success
  have ⟨c₇, _⟩ := passed success
  have ⟨p, traversed⟩ := traverse_spec (Bool.eq_false_iff.mpr c₅)
  refine ⟨pos_of_ne_zero fun zero => c₁ (UInt32.toNat_inj.mp zero), p, ?_, ?_⟩
  · have part := traversed.part
    rw [drop_zero, drop_zero] at part
    rw [CPartialMerkleTree.part, part, map_some]
  · simp only [if_neg c₁, if_neg c₂, if_neg c₃, if_neg c₄, if_neg c₅, if_neg c₆, if_neg c₇, traversed.root,
      traversed.vMatch, nil_append]

end

theorem readPart_positions {height pos : ℕ} {bits bits' : List Bool} {hashes hashes' : List Uint256}
    {p : Partial Uint256 height} (read : t.readPart height pos bits hashes = some (p, bits', hashes'))
    (lt : pos * 2 ^ height < t.nTransactions.toNat) :
    ∀ i ∈ p.positions, pos * 2 ^ height + i < t.nTransactions.toNat := by
  induction height generalizing pos bits hashes bits' hashes'
  case zero =>
    intro i mem
    have := p.positions_lt i mem
    rw [pow_zero] at this
    omega
  case succ height ih =>
    cases bits
    case nil => cases read
    case cons bit bits =>
      cases bit
      case false =>
        cases hashes
        case nil => cases read
        case cons =>
          cases read
          exact nofun
      case true =>
        have double (x : ℕ) : x * 2 * 2 ^ height = x * 2 ^ (height + 1) := by rw [pow_succ]; ring
        rw [readPart, bind_eq_bind, bind_eq_some_iff] at read
        obtain ⟨⟨left, bits₁, hashes₁⟩, readₗ, read⟩ := read
        have ltₗ := ih readₗ (double pos ▸ lt)
        simp only at read
        split at read
        case isFalse =>
          cases read
          exact fun i mem => double pos ▸ ltₗ i mem
        case isTrue wide =>
          rw [bind_eq_some_iff] at read
          obtain ⟨⟨right, bits₂, hashes₂⟩, readᵣ, eq⟩ := read
          cases eq
          have ltᵣ := ih readᵣ (lt_calcTreeWidth.mp wide)
          intro i mem
          obtain mem | mem := mem_append.mp mem
          case inl => exact double pos ▸ ltₗ i mem
          case inr =>
            obtain ⟨j, mem, eq⟩ := mem_map.mp mem
            have lt := ltᵣ j mem
            rw [succ_mul, double] at lt
            omega

theorem marked_lt (pos : 0 < t.nTransactions.toNat) : ∀ i ∈ t.marked, i < t.nTransactions.toNat := by
  unfold marked part
  cases read : t.readPart (t.calcHeight 32 0) 0 t.vBits t.vHash
  case none => exact nofun
  case some r =>
    intro i mem
    have := readPart_positions read (by omega) i mem
    omega

theorem marked_nodup : t.marked.Nodup := by
  unfold marked
  cases t.part
  case none => exact nodup_nil
  case some p => exact p.positions_nodup

section

variable [Crypto]

-- What is hashed for the block and for the received part has no collisions, and no transaction of the block is an inner
-- node.
structure CollisionFree (t : CPartialMerkleTree) (txids : List Uint256) : Prop where
  inj : (pairs merkleHash (height txids) txids ∪ t.hashed).InjOn fun q => merkleHash q.1 q.2
  apart : ∀ q ∈ pairs merkleHash (height txids) txids ∪ t.hashed, merkleHash q.1 q.2 ∉ txids

variable {t : CPartialMerkleTree} {txids : List Uint256}

-- The matches are transactions of the block, each once, just when nothing is marked, or the sender's count gives the
-- right height and no transaction is at two marked positions.
theorem extractMatches_sound_iff (nonempty : txids ≠ []) (fits : txids.length ≤ 2 ^ 31)
    (nonnull : (computeMerkleRoot txids).1 ≠ 0) (free : t.CollisionFree txids)
    (found : t.extractMatches.1 = (computeMerkleRoot txids).1) :
    ((∀ txid ∈ t.extractMatches.2, txid ∈ txids) ∧ t.extractMatches.2.Nodup ↔
      t.marked = [] ∨ t.calcHeight 32 0 = height txids ∧ (t.marked.map (leafAt (height txids) txids)).Nodup) ∧
    (txids.Nodup → t.nTransactions.toNat = txids.length →
      (∀ txid ∈ t.extractMatches.2, txid ∈ txids) ∧ t.extractMatches.2.Nodup) := by
  have ⟨pos, p, part, eq⟩ := extractMatches_eq (found ▸ nonnull)
  rw [eq, computeMerkleRoot_eq (length_pos_iff.mpr nonempty) fits] at found
  have subₚ : p.pairs merkleHash ⊆ t.hashed := by rw [hashed, part]; rfl
  have sound := Partial.leaves_sound_iff free.inj (subₚ.trans Set.subset_union_right) Set.subset_union_left nonempty
    free.apart found
  have marked : t.marked = p.positions := by rw [marked, part]; rfl
  rw [eq, sound, ← marked]
  refine ⟨Iff.rfl, fun nodup size => .inr ⟨?_, ?_⟩⟩
  · rw [height, ← size]
    exact calcHeight_eq (Nat.zero_le _) (Nat.clog_le_of_le_pow (by omega))
  · refine marked_nodup.map_on fun i mem j mem' eq => ?_
    rw [leafAt_eq (length_le_height txids) (size ▸ marked_lt pos i mem),
      leafAt_eq (length_le_height txids) (size ▸ marked_lt pos j mem')] at eq
    exact nodup.getElem_inj_iff.mp eq

end

section

@[reducible]
def shortDigest : Crypto :=
  { Crypto.toy with
    sha256 := fun msg => BitVec.ofNat 256 (Encoding.leNat (msg.take 1) + 16 * Encoding.leNat ((msg.drop 32).take 1)) }

attribute [local instance] shortDigest

def lastOfThree : CPartialMerkleTree where
  nTransactions := 3
  vBits := [true, false, true, true, false, false, false, false]
  vHash := [merkleHash 1 2, 3]

def fourOfThree : CPartialMerkleTree where
  nTransactions := 4
  vBits := [true, true, true, true, true, true, true, false]
  vHash := [1, 2, 3, 3]

def twoOfFour : CPartialMerkleTree where
  nTransactions := 2
  vBits := [true, true, true, false, false, false, false, false]
  vHash := [merkleHash 1 2, merkleHash 3 4]

theorem CollisionFree.of_list {t : CPartialMerkleTree} {txids : List Uint256} {p : Partial Uint256 (t.calcHeight 32 0)}
    (qs : List (Uint256 × Uint256)) (part : t.part = some p)
    (subₗ : ∀ q ∈ pairs merkleHash (height txids) txids, q ∈ qs) (subₚ : ∀ q ∈ p.pairs merkleHash, q ∈ qs)
    (inj : (qs.map fun q => merkleHash q.1 q.2).Nodup) (apart : qs.all fun q => merkleHash q.1 q.2 ∉ txids) :
    t.CollisionFree txids := by
  have sub {q : Uint256 × Uint256} (mem : q ∈ pairs merkleHash (height txids) txids ∪ t.hashed) : q ∈ qs := by
    rw [hashed, part] at mem
    obtain mem | mem := mem
    · exact subₗ q mem
    · exact subₚ q mem
  refine ⟨fun q mem q' mem' => inj_on_of_nodup_map inj (sub mem) (sub mem'), fun q mem => ?_⟩
  exact of_decide_eq_true (all_eq_true.mp apart q (sub mem))

theorem height_four {txids : List Uint256} (gt : 2 < txids.length) (le : txids.length ≤ 4) : height txids = 2 :=
  le_antisymm (clog_le_of_le_pow le) ((lt_clog_iff_pow_lt (by decide)).mpr gt)

theorem pairs_three : ∀ q ∈ pairs merkleHash (height ([1, 2, 3] : List Uint256)) [1, 2, 3],
    q ∈ [(merkleHash 1 2, merkleHash 3 3), (1, 2), (3, 3)] := by
  rw [height_four (by decide) (by decide)]
  rintro q (rfl | (rfl | (⟨⟨⟩⟩ | ⟨⟨⟩⟩)) | rfl | ⟨⟨⟩⟩) <;> decide

theorem pairs_four : ∀ q ∈ pairs merkleHash (height ([1, 2, 3, 4] : List Uint256)) [1, 2, 3, 4],
    q ∈ [(merkleHash 1 2, merkleHash 3 4), (1, 2), (3, 4)] := by
  rw [height_four (by decide) (by decide)]
  rintro q (rfl | (rfl | (⟨⟨⟩⟩ | ⟨⟨⟩⟩)) | rfl | (⟨⟨⟩⟩ | ⟨⟨⟩⟩)) <;> decide

theorem fourOfThree_free : fourOfThree.CollisionFree [1, 2, 3] := by
  have part : fourOfThree.part = some (.node (.node (.shown 1) (.shown 2)) (.node (.shown 3) (.shown 3))) := rfl
  refine .of_list _ part pairs_three ?_ (by decide) (by decide)
  rintro q (rfl | (rfl | (⟨⟨⟩⟩ | ⟨⟨⟩⟩)) | rfl | (⟨⟨⟩⟩ | ⟨⟨⟩⟩)) <;> decide

theorem twoOfFour_free : twoOfFour.CollisionFree [1, 2, 3, 4] := by
  have part : twoOfFour.part = some (.node (.shown (merkleHash 1 2)) (.shown (merkleHash 3 4))) := rfl
  refine .of_list _ part pairs_four ?_ (by decide) (by decide)
  rintro q (rfl | (⟨⟨⟩⟩ | ⟨⟨⟩⟩))
  decide

theorem lastOfThree_free : lastOfThree.CollisionFree [1, 2, 3] := by
  have part : lastOfThree.part = some (.node (.pruned (merkleHash 1 2)) (.single (.shown 3))) := rfl
  refine .of_list _ part pairs_three ?_ (by decide) (by decide)
  rintro q (rfl | (⟨⟨⟩⟩ | (rfl | ⟨⟨⟩⟩))) <;> decide

theorem extractMatches_unsound :
    (fourOfThree.CollisionFree [1, 2, 3] ∧ (computeMerkleRoot [1, 2, 3]).2 = false ∧
      fourOfThree.extractMatches = ((computeMerkleRoot [1, 2, 3]).1, [1, 2, 3, 3])) ∧
    twoOfFour.CollisionFree [1, 2, 3, 4] ∧ (computeMerkleRoot [1, 2, 3, 4]).2 = false ∧
      twoOfFour.extractMatches = ((computeMerkleRoot [1, 2, 3, 4]).1, [merkleHash 1 2, merkleHash 3 4]) ∧
      merkleHash 1 2 ∉ ([1, 2, 3, 4] : List Uint256) := by
  refine ⟨⟨fourOfThree_free, ?_⟩, twoOfFour_free, ?_⟩ <;> decide

theorem extractMatches_sound_last : lastOfThree.marked = [2] ∧
    (∀ txid ∈ lastOfThree.extractMatches.2, txid ∈ [1, 2, 3]) ∧ lastOfThree.extractMatches.2.Nodup := by
  refine ⟨rfl, (extractMatches_sound_iff (by decide) (by decide) (by decide) lastOfThree_free
    (by decide)).left.mpr (.inr ⟨?_, nodup_singleton _⟩)⟩
  rw [height_four (by decide) (by decide)]
  rfl

end

end Qrax.CPartialMerkleTree
