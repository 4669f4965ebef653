import Mathlib

open List

-- Encoders whose values can be read back off the front of a stream.

namespace Encoding

variable {α β σ : Type*}

def PrefixFreeOn (s : Set α) (e : α → List σ) : Prop :=
  ∀ ⦃a⦄, a ∈ s → ∀ ⦃b⦄, b ∈ s → ∀ ⦃x y : List σ⦄, e a ++ x = e b ++ y → a = b ∧ x = y

namespace PrefixFreeOn

variable {e : α → List σ} {s : Set α} {l l' : List α}

theorem mono {s t : Set α} (h : PrefixFreeOn t e) (hs : s ⊆ t) :
    PrefixFreeOn s e :=
  fun _ ha _ hb _ _ he => h (hs ha) (hs hb) he

theorem injOn (h : PrefixFreeOn s e) : s.InjOn e := by
  intro a ha b hb he
  exact h (x := []) (y := []) ha hb (by simpa using he) |>.left

theorem inj (h : PrefixFreeOn Set.univ e) {a b : α} {x y : List σ} (eq : e a ++ x = e b ++ y) : a = b ∧ x = y :=
  h trivial trivial eq

theorem comap (h : PrefixFreeOn s e) {f : β → α} (inj : f.Injective) (mem : ∀ b, f b ∈ s) :
    PrefixFreeOn Set.univ fun b => e (f b) := by
  intro a _ b _ x y eq
  have ⟨same, rest⟩ := h (mem a) (mem b) eq
  exact ⟨inj same, rest⟩

theorem of_length {n : ℕ} (hi : s.InjOn e)
    (hl : ∀ a ∈ s, (e a).length = n) : PrefixFreeOn s e := by
  intro a ha b hb x y he
  have ⟨h, h'⟩ := append_inj he (by rw [hl a ha, hl b hb])
  exact ⟨hi ha hb h, h'⟩

theorem flatMap_of_length (he : PrefixFreeOn s e)
    (hl : ∀ a ∈ l, a ∈ s) (hl' : ∀ a ∈ l', a ∈ s) (hn : l.length = l'.length) {x y : List σ}
    (h : l.flatMap e ++ x = l'.flatMap e ++ y) : l = l' ∧ x = y := by
  induction l generalizing l' with
  | nil =>
    obtain rfl : l' = [] := length_eq_zero_iff.mp hn.symm
    exact ⟨rfl, by simpa using h⟩
  | cons a l ih =>
    cases l' with
    | nil => simp at hn
    | cons b l' =>
      simp only [flatMap_cons, append_assoc] at h
      have ⟨h₁, h₂⟩ := he (hl a mem_cons_self) (hl' b mem_cons_self) h
      have ⟨h₃, h₄⟩ := ih (fun c hc => hl c (mem_cons_of_mem _ hc))
        (fun c hc => hl' c (mem_cons_of_mem _ hc)) (by simpa using hn) h₂
      exact ⟨by rw [h₁, h₃], h₄⟩

theorem flatMap_inj (he : PrefixFreeOn s e) (hne : ∀ a ∈ s, e a ≠ [])
    (hl : ∀ a ∈ l, a ∈ s) (hl' : ∀ a ∈ l', a ∈ s)
    (h : l.flatMap e = l'.flatMap e) : l = l' := by
  induction l generalizing l' with
  | nil =>
    cases l' with
    | nil => rfl
    | cons b l' =>
      have := append_eq_nil_iff.mp h.symm
      exact absurd this.left (hne b (hl' b mem_cons_self))
  | cons a l ih =>
    cases l' with
    | nil =>
      have := append_eq_nil_iff.mp h
      exact absurd this.left (hne a (hl a mem_cons_self))
    | cons b l' =>
      simp only [flatMap_cons] at h
      have ⟨h₁, h₂⟩ := he (hl a mem_cons_self) (hl' b mem_cons_self) h
      have h₃ := ih (fun c hc => hl c (mem_cons_of_mem _ hc))
        (fun c hc => hl' c (mem_cons_of_mem _ hc)) h₂
      rw [h₁, h₃]

theorem map_eq_of_flatMap (he : PrefixFreeOn s e)
    (hne : ∀ a ∈ s, e a ≠ []) {g : β → α} (hg : ∀ b, g b ∈ s) {l l' : List β}
    (h : l.flatMap (fun b => e (g b)) = l'.flatMap (fun b => e (g b))) : l.map g = l'.map g := by
  have through (l : List β) : (l.map g).flatMap e = l.flatMap (fun b => e (g b)) :=
    flatMap_map ..
  have mem (l : List β) (a : α) (ha : a ∈ l.map g) : a ∈ s := by
    have ⟨b, _, hb⟩ := mem_map.mp ha
    exact hb ▸ hg b
  refine he.flatMap_inj hne (mem l) (mem l') ?_
  rw [through, through, h]

theorem vector {t : Set ℕ} {len : ℕ → List σ}
    (hlen : PrefixFreeOn t len) (he : PrefixFreeOn s e) :
    PrefixFreeOn {l : List α | l.length ∈ t ∧ ∀ a ∈ l, a ∈ s}
      (fun l => len l.length ++ l.flatMap e) := by
  rintro l ⟨hl, hls⟩ l' ⟨hl', hls'⟩ x y h
  simp only [append_assoc] at h
  have ⟨h₁, h₂⟩ := hlen hl hl' h
  exact flatMap_of_length he hls hls' h₁ h₂

end PrefixFreeOn

def leBytes : ℕ → ℕ → List UInt8
  | 0, _ => []
  | n + 1, v => UInt8.ofNat v :: leBytes n (v / 256)

def leNat : List UInt8 → ℕ
  | [] => 0
  | b :: bs => b.toNat + 256 * leNat bs

@[simp]
theorem leBytes_length (n v : ℕ) : (leBytes n v).length = n := by
  induction n generalizing v <;> simp_all [leBytes]

theorem leBytes_one (v : ℕ) : leBytes 1 v = [UInt8.ofNat v] := rfl

theorem leNat_lt (bs : List UInt8) : leNat bs < 256 ^ bs.length := by
  induction bs with
  | nil => simp [leNat]
  | cons b bs ih =>
    have hb := b.toNat_lt
    simp only [leNat, length_cons, Nat.pow_succ]
    omega

theorem leNat_leBytes {n v : ℕ} (h : v < 256 ^ n) : leNat (leBytes n v) = v := by
  induction n generalizing v with
  | zero => simp_all [leBytes, leNat]
  | succ n ih =>
    have hd : v / 256 < 256 ^ n := by
      rw [Nat.pow_succ] at h
      omega
    simp only [leBytes, leNat, ih hd, UInt8.toNat_ofNat']
    omega

theorem leBytes_leNat (bs : List UInt8) : leBytes bs.length (leNat bs) = bs := by
  induction bs with
  | nil => rfl
  | cons b bs ih =>
    have hb := b.toNat_lt
    have hdiv : (b.toNat + 256 * leNat bs) / 256 = leNat bs := by omega
    have hmod : UInt8.ofNat (b.toNat + 256 * leNat bs) = b := by
      apply UInt8.toNat_inj.mp
      rw [UInt8.toNat_ofNat']
      omega
    simp only [length_cons, leBytes, leNat, hdiv, hmod, ih]

theorem leBytes_injOn (n : ℕ) : Set.InjOn (leBytes n) {v | v < 256 ^ n} := by
  intro v hv w hw h
  rw [← leNat_leBytes hv, ← leNat_leBytes hw, h]

theorem leBytes_prefixFree (n : ℕ) : PrefixFreeOn {v | v < 256 ^ n} (leBytes n) :=
  .of_length (leBytes_injOn n) fun _ _ => leBytes_length ..

end Encoding
