import Mathlib

open List

-- Computations that may fail, and loops of them.

namespace Fallible

variable {ε α β : Type}

@[simp]
theorem ok_bind (a : α) (f : α → Except ε β) : (Except.ok a >>= f) = f a := rfl

@[simp]
theorem error_bind (e : ε) (f : α → Except ε β) : (Except.error e >>= f) = Except.error e := rfl

variable {x : Except ε α} {f : α → Except ε β} {b : β} {c : Prop} {u : Unit} {l : List α}

theorem isOk_iff : x.isOk ↔ ∃ a, x = .ok a := by
  cases x <;> simp [Except.isOk, Except.toBool]

theorem bind_eq_ok :
    (x >>= f) = .ok b ↔ ∃ a, x = .ok a ∧ f a = .ok b := by
  cases x <;> simp

theorem error_of_bind {p : ε → Prop} (hx : ∀ e, x = .error e → p e)
    (hf : ∀ a e, f a = .error e → p e) : ∀ e, (x >>= f) = .error e → p e := by
  cases x
  case error e =>
    rintro _ ⟨⟩
    exact hx e rfl
  case ok a => exact hf a

theorem bind_congr_ok {f g : α → Except ε β} (h : ∀ a, x = .ok a → f a = g a) : x >>= f = x >>= g := by
  cases x
  case error e => rfl
  case ok a => exact h a rfl

theorem seq_eq_ok {x : Except ε Unit} {f : Unit → Except ε β} :
    (x >>= f) = .ok b ↔ x = .ok () ∧ f () = .ok b := by
  cases x <;> simp

theorem ite_bind [Decidable c] {x y : Except ε α} :
    (if c then x >>= f else y >>= f) = (if c then x else y) >>= f := by
  split <;> rfl

theorem exists_unit {p : Unit → Prop} : (∃ u, p u) ↔ p () :=
  ⟨fun ⟨_, h⟩ => h, fun h => ⟨_, h⟩⟩

theorem map_eq_ok {f : α → β} :
    (f <$> x) = .ok b ↔ ∃ a, x = .ok a ∧ f a = b := by
  cases x <;> simp [Functor.map, Except.map]

theorem isOk_map {f : α → β} : (x.map f).isOk = x.isOk := by
  cases x <;> rfl

theorem map_bind {γ : Type} {g : β → γ} :
    (x >>= f).map g = x >>= fun a => (f a).map g := by
  cases x <;> rfl

def failIf (c : Prop) [Decidable c] (e : ε) : Except ε Unit :=
  if c then .error e else .ok ()

def onlyIf (c : Prop) [Decidable c] (x : Except ε Unit) : Except ε Unit :=
  if c then x else .ok ()

@[simp]
theorem failIf_eq_ok [Decidable c] {e : ε} :
    failIf c e = .ok u ↔ ¬c := by
  unfold failIf
  split <;> simp_all

@[simp]
theorem failIf_false (e : ε) : failIf False e = .ok () := rfl

@[simp]
theorem failIf_true (e : ε) : failIf True e = .error e := rfl

@[simp]
theorem onlyIf_false (x : Except ε Unit) : onlyIf False x = .ok () := rfl

@[simp]
theorem onlyIf_true (x : Except ε Unit) : onlyIf True x = x := rfl

theorem failIf_of_not [Decidable c] {e : ε} (h : ¬c) : failIf c e = .ok () :=
  if_neg h

@[simp]
theorem onlyIf_eq_ok [Decidable c] {x : Except ε Unit} :
    onlyIf c x = .ok u ↔ (c → x = .ok u) := by
  unfold onlyIf
  split <;> simp_all

theorem mapError_eq_ok {δ : Type} {f : ε → δ} {a : α} :
    x.mapError f = .ok a ↔ x = .ok a := by
  cases x <;> simp [Except.mapError]

theorem forM_eq_ok {f : α → Except ε Unit} :
    l.forM f = .ok u ↔ ∀ a ∈ l, f a = .ok () := by
  induction l
  case nil => exact ⟨fun _ _ h => absurd h not_mem_nil, fun _ => rfl⟩
  case cons a l ih =>
    rw [forall_mem_cons, ← ih]
    exact seq_eq_ok

theorem foldlM_add_eq_ok {f : α → Except ε ℕ} {P : α → Prop} {g : α → ℕ} {n k : ℕ}
    (spec : ∀ c ∈ l, ∀ x, f c = .ok x ↔ P c ∧ x = g c) :
    l.foldlM (fun n c => do
      let x ← f c
      .ok (n + x)) n = .ok k ↔ (∀ c ∈ l, P c) ∧ k = n + (l.map g).sum := by
  induction l generalizing n
  case nil => simp [pure, Except.pure, eq_comm]
  case cons c l ih =>
    have ⟨here, rest⟩ := forall_mem_cons.mp spec
    simp only [foldlM_cons, bind_eq_ok, here, Except.ok.injEq, ih rest, forall_mem_cons, map_cons,
      sum_cons]
    constructor
    case mp =>
      rintro ⟨_, ⟨x, ⟨holds, rfl⟩, rfl⟩, all, rfl⟩
      exact ⟨⟨holds, all⟩, Nat.add_assoc ..⟩
    case mpr =>
      rintro ⟨⟨holds, all⟩, rfl⟩
      exact ⟨_, ⟨_, ⟨holds, rfl⟩, rfl⟩, all, (Nat.add_assoc ..).symm⟩

-- Two computations with the same error or related results, unless the first stops with an error of its own.
inductive Sim (stops : ε → Prop) (R : α → β → Prop) : Except ε α → Except ε β → Prop
  | ok {a b} : R a b → Sim stops R (.ok a) (.ok b)
  | error (e) : Sim stops R (.error e) (.error e)
  | stop {e y} : stops e → Sim stops R (.error e) y

namespace Sim

def never (_ : ε) : Prop :=
  False

variable {α' β' : Type} {stops : ε → Prop} {R : α → β → Prop} {S : α' → β' → Prop} {x : Except ε α} {y : Except ε β}

theorem refl {R : α → α → Prop} (h : ∀ a, R a a) (x : Except ε α) : Sim stops R x x := by
  cases x
  case ok a => exact .ok (h a)
  case error e => exact .error e

theorem bind {f : α → Except ε α'} {g : β → Except ε β'} (h : Sim stops R x y)
    (k : ∀ a b, R a b → Sim stops S (f a) (g b)) : Sim stops S (x >>= f) (y >>= g) := by
  cases h
  case ok a b h => exact k a b h
  case error e => exact .error e
  case stop h => exact .stop h

theorem of_ok (h : Sim never R x y) (eq : y = .ok b) : ∃ a, x = .ok a ∧ R a b := by
  cases h
  case ok a b' h =>
    cases eq
    exact ⟨a, rfl, h⟩
  case error e => cases eq
  case stop h => exact h.elim

theorem failIf [Decidable c] {e : ε} {f : Unit → Except ε α'} {g : Unit → Except ε β'}
    (h : Sim stops S (f ()) (g ())) : Sim stops S (failIf c e >>= f) (failIf c e >>= g) :=
  bind (refl (fun _ => rfl) _) fun _ _ (_ : () = ()) => h

end Sim

end Fallible
