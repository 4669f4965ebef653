import Qrax.Lib.Fallible

open List AList

namespace KeyedUpdate

variable {α β γ σ ε δ : Type} {l : List α}

theorem foldl_list_keeps (π : σ → δ) {f : σ → α → σ} (h : ∀ s a, π (f s a) = π s) (l : List α) (s : σ) :
    π (l.foldl f s) = π s := by
  induction l generalizing s
  case nil => rfl
  case cons a l ih => exact (ih _).trans (h s a)

theorem foldl_stays {f : σ → α → σ} {s : σ} (stays : ∀ a ∈ l, f s a = s) : l.foldl f s = s := by
  induction l
  case nil => rfl
  case cons a l ih =>
    have ⟨here, stays⟩ := forall_mem_cons.mp stays
    rw [foldl_cons, here, ih stays]

-- One element makes the step from `s` to `t`, the others do nothing.
theorem foldl_reaches {f : σ → α → σ} {s t : σ} {a : α} (mem : a ∈ l) (step : f s a = t)
    (others : ∀ b ∈ l, b ≠ a → f s b = s) (stays : ∀ b ∈ l, f t b = t) : l.foldl f s = t := by
  induction l
  case nil => cases mem
  case cons b l ih =>
    have ⟨skip, others⟩ := forall_mem_cons.mp others
    have ⟨_, stays⟩ := forall_mem_cons.mp stays
    rw [foldl_cons]
    by_cases eq : b = a
    case pos => rw [eq, step, foldl_stays stays]
    case neg =>
      have mem := (mem_cons.mp mem).resolve_left (Ne.symm eq)
      rw [skip eq, ih mem others stays]

theorem foldl_keeps {π : σ → δ} {f : σ → α → β → σ} (h : ∀ s a b, π (f s a b) = π s)
    (m : AList fun _ : α => β) (s : σ) : π (m.foldl f s) = π s :=
  foldl_list_keeps π (fun s (e : Σ _ : α, β) => h s e.1 e.2) m.entries s

variable [DecidableEq α]

theorem lookup_insert (m : AList fun _ : α => β) (a a' : α) (b : β) :
    (m.insert a b).lookup a' = if a' = a then some b else m.lookup a' := by
  split
  case isTrue h => rw [h, AList.lookup_insert]
  case isFalse h => rw [lookup_insert_ne h]

theorem lookup_erase (m : AList fun _ : α => β) (a a' : α) :
    (m.erase a).lookup a' = if a' = a then none else m.lookup a' := by
  split
  case isTrue h => rw [h, AList.lookup_erase]
  case isFalse h => rw [lookup_erase_ne h]

variable {m : AList fun _ : α => β} {P : α → γ → Prop}

theorem lookup_of_absent {a : α} (absent : m.lookup a = none) (a' : α) :
    m.lookup a' = if a' = a then none else m.lookup a' := by
  split
  case isTrue eq => rw [eq, absent]
  case isFalse => rfl

omit [DecidableEq α] in
theorem eq_empty_of_keys (none : m.keys = []) : m = ∅ := by
  have entries : m.entries = [] := map_eq_nil_iff.mp none
  exact ext entries

def emplace (m : AList fun _ : α => β) (a : α) (b : β) : AList fun _ : α => β :=
  if a ∈ m then m else m.insert a b

theorem lookup_emplace (m : AList fun _ : α => β) (a a' : α) (b : β) :
    (emplace m a b).lookup a' = if a' = a then some ((m.lookup a).getD b) else m.lookup a' := by
  unfold emplace
  split
  case isFalse absent =>
    rw [lookup_insert, lookup_eq_none.mpr absent]
    rfl
  case isTrue present =>
    have ⟨b', eq⟩ := Option.isSome_iff_exists.mp (lookup_isSome.mpr present)
    split
    case isTrue h => rw [h, eq, Option.getD_some]
    case isFalse h => rfl

theorem lookup_foldl_erase (l : List α) (m : AList fun _ : α => β) (a : α) :
    (l.foldl (fun m a => m.erase a) m).lookup a = if a ∈ l then none else m.lookup a := by
  induction l generalizing m
  case nil => rfl
  case cons a' l ih =>
    rw [foldl_cons, ih, lookup_erase]
    grind

theorem lookup_foldl_insert (l : List α) (m : AList fun _ : α => β) (a : α) (b : β) :
    (l.foldl (fun m a => m.insert a b) m).lookup a = if a ∈ l then some b else m.lookup a := by
  induction l generalizing m
  case nil => rfl
  case cons a' l ih =>
    rw [foldl_cons, ih, lookup_insert]
    grind

theorem lookup_foldl_emplace (l : List α) (m : AList fun _ : α => β) (a : α) (b : β) :
    (l.foldl (fun m a => emplace m a b) m).lookup a = if a ∈ l then some ((m.lookup a).getD b) else m.lookup a := by
  induction l generalizing m
  case nil => rfl
  case cons a' l ih =>
    rw [foldl_cons, ih, lookup_emplace]
    grind

-- Writing `b` under `a` with `f` changes what is under `a` as `act` says, and nothing else.
def Acts (look : σ → α → γ) (f : σ → α → β → Except ε σ) (act : γ → β → Except ε γ) : Prop :=
  ∀ ⦃s a b c⦄, act (look s a) b = .ok c → ∃ s', f s a b = .ok s' ∧ look s' = Function.update (look s) a c

variable {look : σ → α → γ} {f : σ → α → β → Except ε σ} {act : γ → β → Except ε γ}

-- `P` holds under every key after the fold, if each write brings it about and it holds without one.
theorem Acts.foldl_entries (h : Acts look f act) (l : List (Σ _ : α, β))
    (nodup : l.NodupKeys) (s : σ) (hl : ∀ e ∈ l, ∃ c, act (look s e.1) e.2 = .ok c ∧ P e.1 c)
    (hn : ∀ a ∉ l.keys, P a (look s a)) :
    ∃ s', l.foldl (fun s e => s >>= (f · e.1 e.2)) (.ok s) = .ok s' ∧ ∀ a, P a (look s' a) := by
  induction l generalizing s
  case nil =>
    exact ⟨s, rfl, fun a => hn a not_mem_nil⟩
  case cons e l ih =>
    have ⟨notMem, nodup⟩ := nodupKeys_cons.mp nodup
    have ⟨c, hc, hP⟩ := hl e (mem_cons_self ..)
    have ⟨s₁, h₁, hs₁⟩ := h hc
    -- The entries left have other keys, where `s₁` still looks like `s`.
    have away {a : α} (ha : a ∈ l.keys) : look s₁ a = look s a := by
      rw [hs₁, Function.update_of_ne]
      intro eq
      exact notMem (eq ▸ ha)
    have ⟨s', h', hs'⟩ := ih nodup s₁
      (fun e' he' => by
        rw [away (mem_keys_of_mem he')]
        exact hl e' (mem_cons_of_mem _ he'))
      (fun a ha => by
        rw [hs₁]
        by_cases eq : a = e.1
        · rw [eq, Function.update_self]
          exact hP
        · rw [Function.update_of_ne eq]
          exact hn a (by simp [eq, ha]))
    refine ⟨s', ?_, hs'⟩
    rw [foldl_cons, Fallible.ok_bind, h₁]
    exact h'

theorem Acts.foldl (h : Acts look f act) (m : AList fun _ : α => β) (s : σ)
    (hm : ∀ a b, m.lookup a = some b → ∃ c, act (look s a) b = .ok c ∧ P a c)
    (hn : ∀ a, m.lookup a = none → P a (look s a)) :
    ∃ s', m.foldl (fun s a b => s >>= (f · a b)) (.ok s) = .ok s' ∧ ∀ a, P a (look s' a) := by
  refine h.foldl_entries m.entries m.nodupKeys s (fun e he => ?_) (fun a ha => ?_)
  · exact hm e.1 e.2 (mem_lookup_iff.mpr he)
  · exact hn a (lookup_eq_none.mpr ha)

theorem foldl_total (look : σ → α → γ) (act : γ → β → γ) {f : σ → α → β → σ}
    (h : ∀ s a b, look (f s a b) = Function.update (look s) a (act (look s a) b))
    (m : AList fun _ : α => β) (s : σ) (a : α) :
    look (m.foldl f s) a = (m.lookup a).elim (look s a) (act (look s a)) := by
  have acts : Acts look (fun s a b => (.ok (f s a b) : Except Empty σ)) (fun c b => .ok (act c b)) := by
    intro s a b c hc
    cases hc
    exact ⟨_, rfl, h s a b⟩
  have total (l : List (Σ _ : α, β)) (s : σ) :
      l.foldl (fun s e => s >>= fun s => (.ok (f s e.1 e.2) : Except Empty σ)) (.ok s) =
        .ok (l.foldl (fun s e => f s e.1 e.2) s) := by
    induction l generalizing s
    case nil => rfl
    case cons e l ih => exact ih (f s e.1 e.2)
  have ⟨s', h', hs'⟩ := acts.foldl m s
    (P := fun a c => c = (m.lookup a).elim (look s a) (act (look s a)))
    (fun a b hab => ⟨_, rfl, by rw [hab]; rfl⟩) (fun a ha => by rw [ha]; rfl)
  rw [AList.foldl, total] at h'
  cases h'
  exact hs' a

end KeyedUpdate
