import Qrax.Validation.Theorems.ChainState

open Fallible Forest List Option Nat
open Bool (eq_false_iff)

namespace Qrax

open BlockIndex CChain

namespace ChainState

section

variable (index : BlockIndex) (s : ChainState) (t m : Uint256)

-- The best candidate, with no failed block before the active chain.
structure Aimed : Prop where
  mem : m ∈ s.setBlockIndexCandidates
  max : ∀ c ∈ s.setBlockIndexCandidates, index.rank c ≤ index.rank m
  clear : ∀ a, Anc index.pprev a m → ¬Anc index.pprev a t → (s.nStatus a).failed = false

-- The block `b` on the way to `m` was found invalid on the tip, and `m` not yet given up.
structure Pending (b : Uint256) : Prop where
  parent : index.pprev b = some t
  anc : Anc index.pprev b m
  failed : (s.nStatus b).failedValid
  absent : b ∉ s.setBlockIndexCandidates
  mem : m ≠ b → m ∈ s.setBlockIndexCandidates
  max : ∀ c ∈ s.setBlockIndexCandidates, index.rank c ≤ index.rank m
  between : ∀ a, Anc index.pprev b a → Anc index.pprev a m → a ≠ b → (s.nStatus a).failed = false

-- All blocks from `m` to the invalid block `b` are marked and out of the set.
def GivenUp (b : Uint256) : Prop :=
  ∀ c, Anc index.pprev b c → Anc index.pprev c m → (s.nStatus c).failed ∧ c ∉ s.setBlockIndexCandidates

end

variable {index : BlockIndex} {connectBlock : Uint256 → Bool} {s s' : ChainState} {t t' b f m u : Uint256}

theorem worseThanTip_iff (path : IsPath index.toBlockTree s.chainActive t) :
    s.worseThanTip index b ↔ index.rank b < index.rank t := by
  rw [worseThanTip, path.tip_eq, any_some, workComparator_iff]

theorem noteInvalid_eq (index : BlockIndex) (s : ChainState) (b : Uint256) :
    ∃ best, s.noteInvalid index b = { s with pindexBestInvalid := best } := by
  unfold noteInvalid
  split
  case isTrue => exact ⟨_, rfl⟩
  case isFalse => exact ⟨_, rfl⟩

theorem invalidChainFound_ok (path : IsPath index.toBlockTree s.chainActive t) (b : Uint256) :
    ∃ best, s.invalidChainFound index b = .ok { s with pindexBestInvalid := best } := by
  have ⟨best, eq⟩ := noteInvalid_eq index s b
  exact ⟨best, by rw [invalidChainFound, path.tip_eq, failIf_of_not nofun, ok_bind, eq]⟩

theorem disconnectTip_ok (path : IsPath index.toBlockTree s.chainActive t) (eq : index.pprev t = some p) :
    ∃ s', s.disconnectTip index = .ok s' ∧ Disconnects index s t s' p := by
  refine ⟨{ s with chainActive := s.chainActive.setTip index.toBlockTree (some p) }, ?_, ?_⟩
  · simp only [disconnectTip, path.tip_eq, eq]
  · exact ⟨eq, setTip_isPath (.inr ⟨t, path⟩), rfl, rfl, rfl⟩

variable {n : ℕ} {step : Step} {x : Uint256} {a : Activation}

theorem disconnectTo_ok (connectBlock : Uint256 → Bool)
    (path : IsPath index.toBlockTree s.chainActive t) (anc : Anc index.pprev f t)
    (enough : index.nHeight t ≤ index.nHeight f + n) :
    ∃ s', disconnectTo index (some f) n s = .ok s' ∧ Moves index connectBlock (s, t) (s', f) ∧
      s'.nStatus = s.nStatus ∧ s'.setBlockIndexCandidates = s.setBlockIndexCandidates := by
  induction n generalizing s t
  case zero =>
    cases index.graded.eq_of_height_le anc enough
    exact ⟨s, rfl, .refl, rfl, rfl⟩
  case succ n ih =>
    unfold disconnectTo
    rw [path.tip_eq]
    cases anc
    case refl => exact ⟨s, if_neg fun h => h.right rfl, .refl, rfl, rfl⟩
    case step p anc eq =>
      have other : t ≠ f := by
        rintro rfl
        exact absurd (index.graded.height_le anc) (by have := index.graded.child eq; omega)
      have ⟨s₁, done, moved⟩ := disconnectTip_ok path eq
      have ⟨s', rest, moves, status, cands⟩ := ih moved.path anc (by have := index.graded.child eq; omega)
      refine ⟨s', ?_, .head (.disconnect moved) moves, status.trans moved.nStatus, cands.trans moved.candidates⟩
      rw [if_pos ⟨nofun, fun h => other (some.inj h)⟩, done, ok_bind, rest]

theorem connectTip_valid (filed : index.Filed) (path : IsPath index.toBlockTree s.chainActive t)
    (parent : index.pprev b = some t) (valid : connectBlock b) (data : index.haveData b)
    (failed : (s.nStatus b).failed = false)
    (target : ∃ c ∈ s.setBlockIndexCandidates, index.rank b ≤ index.rank c) :
    ∃ s₁ s', s.connectTip index connectBlock b = .ok (s₁, true) ∧ s₁.pruneBlockIndexCandidates index = .ok s' ∧
      Connects index connectBlock s t s' b := by
  have other : b ≠ index.hashGenesisBlock := by
    rintro rfl
    cases filed.genesis.right.symm.trans parent
  have path' : IsPath index.toBlockTree (s.chainActive.setTip index.toBlockTree (some b)) b :=
    setTip_isPath (.inr ⟨t, path⟩)
  let s₁ : ChainState := { s.setStatus b ((s.nStatus b).raiseValidity .SCRIPTS) with
    chainActive := s.chainActive.setTip index.toBlockTree (some b) }
  have worse (c : Uint256) : s₁.worseThanTip index c ↔ index.rank c < index.rank b :=
    worseThanTip_iff (s := s₁) path'
  let s' : ChainState := { s₁ with
    setBlockIndexCandidates := s.setBlockIndexCandidates.filter (!s₁.worseThanTip index ·) }
  have cands (c : Uint256) : c ∈ s'.setBlockIndexCandidates ↔
      c ∈ s.setBlockIndexCandidates ∧ index.rank b ≤ index.rank c := by
    rw [mem_filter, Bool.not_eq_true', eq_false_iff, ne_eq, worse, not_lt]
  refine ⟨s₁, s', ?_, ?_, parent, valid, data, failed, path', rfl, cands, rfl⟩
  · unfold connectTip
    rw [path.tip_eq, failIf_of_not (not_not.mpr parent), ok_bind, if_pos valid, if_neg other]
    rfl
  · obtain ⟨c, mem, le⟩ := target
    have some : s'.setBlockIndexCandidates ≠ [] := ne_nil_of_mem ((cands c).mpr ⟨mem, le⟩)
    exact (congrArg (· >>= fun _ => Except.ok s') (failIf_of_not some)).trans rfl

theorem connectTip_invalid (path : IsPath index.toBlockTree s.chainActive t)
    (parent : index.pprev b = some t) (invalid : connectBlock b = false) (front : Uint256) :
    ∃ s₁ s', s.connectTip index connectBlock b = .ok (s₁, false) ∧ s₁.invalidChainFound index front = .ok s' ∧
      Fails index connectBlock s t s' b := by
  let s₀ := (s.markFailedValid b).eraseCandidate b
  have ⟨best, found⟩ := invalidChainFound_ok (s := s₀) path b
  have ⟨best', found'⟩ := invalidChainFound_ok (s := { s₀ with pindexBestInvalid := best }) path front
  refine ⟨_, _, ?_, found', parent, invalid, rfl, rfl, ?_, rfl⟩
  · unfold connectTip invalidBlockFound
    rw [path.tip_eq, failIf_of_not (not_not.mpr parent), ok_bind, if_neg (eq_false_iff.mp invalid), found, ok_bind]
  · intro c
    exact mem_filter.trans (and_congr_right fun _ => decide_eq_true_iff)

theorem blocksToConnect_way (anc : Anc index.pprev f u) (enough : index.nHeight u < index.nHeight f + n) :
    Way index.pprev f (blocksToConnect index (index.nHeight f) n (some u)).reverse u := by
  induction n generalizing u
  case zero => exact absurd (index.graded.height_le anc) (by omega)
  case succ n ih =>
    unfold blocksToConnect
    cases anc
    case refl =>
      rw [if_neg (not_not.mpr rfl)]
      exact .nil
    case step p anc eq =>
      have up := index.graded.child eq
      have below := index.graded.height_le anc
      rw [if_pos (by omega), eq, reverse_cons]
      exact (ih anc (by omega)).snoc eq

structure Advanced (index : BlockIndex) (connectBlock : Uint256 → Bool) (s : ChainState) (t u m : Uint256) (step : Step)
    (t' : Uint256) : Prop where
  moves : Moves index connectBlock (s, t) (step.state, t')
  above : Anc index.pprev t t'
  below : Anc index.pprev t' u
  sound : ∀ r, s.Sound index r → step.state.Sound index (max r (index.rank t'))
  outcome : match step.invalid with
    | none => Aimed index step.state t' m ∧ (step.fContinue = true → t' = u) ∧ (step.fContinue = false → t' ≠ t)
    | some b => Pending index step.state t' m b ∧ step.fContinue = false ∧ (s.nStatus b).failedValid = false

theorem Aimed.connects (aimed : Aimed index s t m) (h : Connects index connectBlock s t s' b)
    (on : Anc index.pprev b m) : Aimed index s' b m := by
  refine ⟨(h.candidates m).mpr ⟨aimed.mem, rank_le_of_anc on⟩, ?_, ?_⟩
  case refine_1 =>
    intro c mem
    exact aimed.max c ((h.candidates c).mp mem).left
  case refine_2 =>
    intro a anc outside
    rw [h.failed_eq]
    exact aimed.clear a anc fun inside => outside (.step h.parent inside)

theorem Aimed.fails (aimed : Aimed index s t m) (h : Fails index connectBlock s t s' b)
    (on : Anc index.pprev b m) : Pending index s' t m b := by
  constructor
  case parent => exact h.parent
  case anc => exact on
  case failed => exact (h.failedValid_iff b).mpr (.inr rfl)
  case absent => exact fun mem => ((h.candidates b).mp mem).right rfl
  case mem => exact fun other => (h.candidates m).mpr ⟨aimed.mem, other⟩
  case max => exact fun c mem => aimed.max c ((h.candidates c).mp mem).left
  case between =>
    intro a above below other
    refine eq_false_iff.mpr fun mark => ?_
    have before := ((h.failed_iff a).mp mark).resolve_right other
    have outside : ¬Anc index.pprev a t := fun anc => by
      have := index.graded.height_le (above.trans anc)
      have := index.graded.child h.parent
      omega
    exact absurd before (eq_false_iff.mp (aimed.clear a below outside))

theorem Advanced.head {v : Uint256} (moves : Moves index connectBlock (s, t) (s', u))
    (above : Anc index.pprev t u) (sound : ∀ r, s.Sound index r → s'.Sound index (max r (index.rank u)))
    (h : Advanced index connectBlock s' u v m step t') : Advanced index connectBlock s t v m step t' := by
  refine ⟨moves.trans h.moves, above.trans h.above, h.below, ?_, ?_⟩
  case refine_1 =>
    intro r before
    have eq : max (max r (index.rank u)) (index.rank t') = max r (index.rank t') := by
      rw [max_assoc, max_eq_right (rank_le_of_anc h.above)]
    exact eq ▸ h.sound _ (sound r before)
  case refine_2 =>
    have outcome := h.outcome
    cases found : step.invalid
    case none =>
      rw [found] at outcome
      refine ⟨outcome.left, outcome.right.left, fun stops => ?_⟩
      rintro rfl
      exact outcome.right.right stops (index.graded.antisymm above h.above)
    case some b =>
      rw [found] at outcome
      refine ⟨outcome.left, outcome.right.left, eq_false_iff.mpr fun mark => ?_⟩
      exact absurd (moves.worn.kept b mark) (eq_false_iff.mp outcome.right.right)

theorem connectBlocks_advances {blocks : List Uint256} (filed : index.Filed) (active : Active index connectBlock s t)
    (aimed : Aimed index s t m) (way : Way index.pprev t blocks u) (target : Anc index.pprev u m)
    (oldTip : Option Uint256) (front : Uint256) :
    ∃ step t', connectBlocks index connectBlock oldTip front blocks s = .ok step ∧
      Advanced index connectBlock s t u m step t' := by
  induction way generalizing s
  case nil t =>
    exact ⟨{ state := s }, t, rfl, .refl, .refl, .refl, fun r sound => sound.mono (le_max_left _ _), aimed,
      fun _ => rfl, nofun⟩
  case cons t b u blocks parent way ih =>
    have here : Anc index.pprev t b := .step parent .refl
    have on : Anc index.pprev b m := way.anc.trans target
    have outside : ¬Anc index.pprev b t := fun anc => by
      have := index.graded.height_le anc
      have := index.graded.child parent
      omega
    have failed := aimed.clear b on outside
    unfold connectBlocks
    cases valid : connectBlock b
    case false =>
      have ⟨s₁, s', done, found, fails⟩ := connectTip_invalid active.path parent valid front
      refine ⟨{ state := s', fContinue := false, invalid := some b }, t, ?_, .single (.fail fails), .refl,
        here.trans way.anc, fun r sound => (fails.sound sound).mono (le_max_left _ _),
        aimed.fails fails on, rfl, ?_⟩
      · rw [done, ok_bind]
        simp only [Bool.false_eq_true, if_false]
        rw [found, ok_bind]
      · exact (Bool.or_eq_false_iff.mp failed).left
    case true =>
      have ⟨known, linked, _⟩ := active.candidates m aimed.mem
      have ⟨s₁, s', done, pruned, connects⟩ := connectTip_valid filed active.path parent valid (linked b on) failed
        ⟨m, aimed.mem, rank_le_of_anc on⟩
      have aimed' := aimed.connects connects on
      simp only [done, ok_bind, if_true, pruned]
      split
      case isTrue =>
        exact ⟨{ state := s', fContinue := false }, b, rfl, .single (.connect connects), here, way.anc,
          fun r => connects.sound filed active, aimed', nofun, fun _ eq => outside (eq ▸ .refl)⟩
      case isFalse =>
        have ⟨step, t', rest, advanced⟩ := ih ((Move.connect connects).active active) aimed' target
        exact ⟨step, t', rest, advanced.head (.single (.connect connects)) here fun r => connects.sound filed active⟩

theorem connectTowards_advances (filed : index.Filed) (active : Active index connectBlock s t)
    (aimed : Aimed index s t m) (anc : Anc index.pprev t m) (enough : index.nHeight m < index.nHeight t + n)
    (oldTip : Option Uint256) :
    ∃ step t', connectTowards index connectBlock oldTip m n (index.nHeight t) s = .ok step ∧
      Advanced index connectBlock s t m m step t' := by
  induction n generalizing s t
  case zero => exact absurd (index.graded.height_le anc) (by omega)
  case succ n ih =>
    unfold connectTowards
    by_cases top : index.nHeight t = index.nHeight m
    case pos =>
      cases index.graded.eq_of_height_le anc (by omega)
      refine ⟨{ state := s }, m, if_neg (by omega), .refl, .refl, .refl, ?_, aimed, fun _ => rfl, nofun⟩
      exact fun r sound => sound.mono (le_max_left _ _)
    case neg =>
      have below := index.graded.height_le anc
      have ⟨u, at_, on, level⟩ := BlockTree.getAncestor_of_le
        (show min (index.nHeight t + 32) (index.nHeight m) ≤ index.nHeight m from min_le_right _ _)
      have high : index.nHeight t < index.nHeight u := by omega
      have above := index.graded.linear anc on (le_of_lt high)
      have cast : min ((index.nHeight t : ℤ) + 32) (index.nHeight m) = index.nHeight u := by omega
      have way := blocksToConnect_way (n := index.nHeight m + 1) above (by omega)
      have ⟨step, t', done, advanced⟩ := connectBlocks_advances filed active aimed way on oldTip
        ((blocksToConnect index (index.nHeight t) (index.nHeight m + 1) (some u)).headD m)
      rw [if_pos (by omega)]
      simp only [cast, Int.toNat_natCast, level ▸ at_, done, ok_bind]
      have outcome := advanced.outcome
      cases continues : step.fContinue
      case false =>
        refine ⟨step, t', by simp, advanced.moves, advanced.above, advanced.below.trans on, advanced.sound, ?_⟩
        cases found : step.invalid
        case none =>
          rw [found] at outcome
          refine ⟨outcome.left, fun h => absurd h (eq_false_iff.mp continues), outcome.right.right⟩
        case some b =>
          rw [found] at outcome
          exact outcome
      case true =>
        cases found : step.invalid
        case none =>
          rw [found] at outcome
          cases outcome.right.left continues
          have active' : Active index connectBlock step.state u := advanced.moves.active active
          have ⟨step', t'', rest, advanced'⟩ := ih active' outcome.left on (by omega)
          exact ⟨step', t'', by simpa using rest, advanced'.head advanced.moves above advanced.sound⟩
        case some b =>
          rw [found] at outcome
          exact absurd continues (eq_false_iff.mp outcome.right.left)

structure Stepped (index : BlockIndex) (connectBlock : Uint256 → Bool) (s : ChainState) (t m : Uint256) (step : Step)
    (t' : Uint256) : Prop where
  moves : Moves index connectBlock (s, t) (step.state, t')
  sound : ∀ r, s.Sound index r → step.state.Sound index (max r (index.rank t'))
  outcome : match step.invalid with
    | none => Aimed index step.state t' m ∧ Anc index.pprev t' m ∧
      ∀ f, index.Meet t m f → index.nHeight f < index.nHeight t'
    | some b => Pending index step.state t' m b ∧ (s.nStatus b).failedValid = false

theorem activateBestChainStep_steps (filed : index.Filed) (active : Active index connectBlock s t)
    (aimed : Aimed index s t m) (other : m ≠ t) :
    ∃ step t', s.activateBestChainStep index connectBlock m = .ok step ∧
      Stepped index connectBlock s t m step t' := by
  have ⟨known, linked, better⟩ := active.candidates m aimed.mem
  have ⟨f, fork, meet⟩ := active.path.findFork_eq ⟨filed.root active.known, filed.root known⟩
  have size : s.chainActive.vChain.length = index.nHeight t + 1 := by
    rw [active.path, length_map, index.graded.path_length]
  have ⟨s₁, undone, moves, status, cands⟩ := disconnectTo_ok connectBlock (n := index.nHeight t + 1)
    active.path meet.left (by omega)
  have active₁ : Active index connectBlock s₁ f := moves.active active
  have aimed₁ : Aimed index s₁ f m := by
    refine ⟨cands ▸ aimed.mem, cands ▸ aimed.max, fun a on outside => ?_⟩
    rw [status]
    exact aimed.clear a on fun inside => outside (meet.greatest inside on)
  have ⟨step, t', done, advanced⟩ := connectTowards_advances (n := index.nHeight m + 2) filed active₁ aimed₁ meet.right
    (by omega) (some t)
  have apart : f ≠ m := by
    rintro rfl
    exact other (eq_of_anc_of_rank_le meet.left better)
  refine ⟨step, t', ?_, moves.trans advanced.moves, ?_, ?_⟩
  · simp only [activateBestChainStep, fork, active.path.tip_eq, size, undone, ok_bind]
    exact done
  · exact fun r sound => advanced.sound r (sound.congr status cands)
  · have outcome := advanced.outcome
    cases found : step.invalid
    case none =>
      rw [found] at outcome
      have ⟨aimed', arrives, leaves⟩ := outcome
      have moved : t' ≠ f := by
        cases continues : step.fContinue
        case true => exact fun eq => apart (eq ▸ arrives continues)
        case false => exact leaves continues
      refine ⟨aimed', advanced.below, fun f' meet' => ?_⟩
      cases index.graded.antisymm (meet.greatest meet'.left meet'.right) (meet'.greatest meet.left meet.right)
      exact Nat.lt_of_not_le fun le => moved (index.graded.eq_of_height_le advanced.above le).symm
    case some b =>
      rw [found] at outcome
      exact ⟨outcome.left, status ▸ outcome.right.right⟩

theorem firstUnusable_ok (filed : index.Filed) (path : IsPath index.toBlockTree s.chainActive t)
    (known : b ∈ index.mapBlockIndex) (linked : index.Linked b) (enough : index.nHeight b < n) :
    ∃ r, s.firstUnusable index n (some b) = .ok r ∧ match r with
      | none => ∀ a, Anc index.pprev a b → ¬Anc index.pprev a t → (s.nStatus a).failed = false
      | some x => Anc index.pprev x b ∧ ¬Anc index.pprev x t ∧ (s.nStatus x).failed ∧
        ∀ a, Anc index.pprev x a → Anc index.pprev a b → a ≠ x → (s.nStatus a).failed = false := by
  induction n generalizing b
  case zero => exact absurd enough (not_lt_zero _)
  case succ n ih =>
    unfold firstUnusable
    by_cases inside : s.chainActive.contains index.toBlockTree b
    case pos =>
      have below := path.contains_iff.mp inside
      exact ⟨none, if_pos inside, fun a anc outside => absurd (anc.trans below) outside⟩
    case neg =>
      have outside : ¬Anc index.pprev b t := fun anc => inside (path.contains_iff.mpr anc)
      have filled : index.nChainTx b ≠ 0 := fun zero => (filed.linked b known).mp zero linked
      rw [if_neg inside, failIf_of_not fun h => filled h.left, ok_bind, linked b .refl, Bool.not_true, Bool.or_false]
      cases failed : (s.nStatus b).failed
      case true =>
        refine ⟨some b, if_pos rfl, .refl, outside, failed, fun a above below other => ?_⟩
        exact absurd (index.graded.antisymm below above) other
      case false =>
        rw [if_neg (by decide)]
        cases eq : index.pprev b
        case none =>
          refine ⟨none, by cases n <;> rfl, fun a anc _ => ?_⟩
          exact (Anc.iff_of_root eq).mp anc ▸ failed
        case some p =>
          have up := index.graded.child eq
          have ⟨r, found, spec⟩ := ih (index.closed eq).right (linked.of_anc (.step eq .refl)) (by omega)
          refine ⟨r, found, ?_⟩
          cases r
          case none =>
            intro a anc outside'
            obtain rfl | anc := (Anc.iff_of_child eq).mp anc
            case inl => exact failed
            case inr => exact spec a anc outside'
          case some x =>
            have ⟨anc, outside', mark, clear⟩ := spec
            refine ⟨.step eq anc, outside', mark, fun a above below other => ?_⟩
            obtain rfl | below := (Anc.iff_of_child eq).mp below
            case inl => exact failed
            case inr => exact clear a above below other

structure Removed (index : BlockIndex) (s s' : ChainState) (x m : Uint256) : Prop where
  chainActive : s'.chainActive = s.chainActive
  above : ∀ c, Anc index.pprev x c → Anc index.pprev c m → c ≠ x →
    s'.nStatus c = { s.nStatus c with failedChild := true }
  elsewhere : ∀ c, ¬(Anc index.pprev x c ∧ Anc index.pprev c m ∧ c ≠ x) → s'.nStatus c = s.nStatus c
  candidates : ∀ c, c ∈ s'.setBlockIndexCandidates ↔
    c ∈ s.setBlockIndexCandidates ∧ ¬(Anc index.pprev x c ∧ Anc index.pprev c m ∧ c ≠ x)
  sublist : s'.setBlockIndexCandidates.Sublist s.setBlockIndexCandidates
  unlinked : s'.mapBlocksUnlinked = s.mapBlocksUnlinked

theorem mem_eraseCandidate {c : Uint256} :
    c ∈ (s.eraseCandidate b).setBlockIndexCandidates ↔ c ∈ s.setBlockIndexCandidates ∧ c ≠ b :=
  mem_filter.trans (and_congr_right fun _ => decide_eq_true_iff)

theorem removeChain_removes (anc : Anc index.pprev x m)
    (enough : index.nHeight m < index.nHeight x + n) :
    Removed index s (removeChain index true x n m s) x m := by
  induction n generalizing s m
  case zero => exact absurd (index.graded.height_le anc) (by omega)
  case succ n ih =>
    unfold removeChain
    cases anc
    case refl =>
      rw [if_neg (not_not.mpr rfl)]
      have none (c : Uint256) : ¬(Anc index.pprev x c ∧ Anc index.pprev c x ∧ c ≠ x) :=
        fun ⟨up, down, ne⟩ => ne (index.graded.antisymm down up)
      exact ⟨rfl, fun c up down ne => absurd ⟨up, down, ne⟩ (none c), fun _ _ => rfl,
        fun c => (and_iff_left (none c)).symm, List.Sublist.refl _, rfl⟩
    case step p anc eq =>
      have up := index.graded.child eq
      have low := index.graded.height_le anc
      have other : x ≠ m := by
        rintro rfl
        omega
      simp only [if_pos other, eq, if_true, elim_some]
      have removed := ih (s := (s.markFailedChild m).eraseCandidate m) anc (by omega)
      have on (c : Uint256) : (Anc index.pprev x c ∧ Anc index.pprev c m ∧ c ≠ x) ↔
          c = m ∨ (Anc index.pprev x c ∧ Anc index.pprev c p ∧ c ≠ x) := by
        rw [Anc.iff_of_child eq]
        constructor
        case mp => exact fun ⟨above, below, ne⟩ => below.imp_right fun below => ⟨above, below, ne⟩
        case mpr =>
          rintro (rfl | ⟨above, below, ne⟩)
          case inl => exact ⟨.step eq anc, .inl rfl, other.symm⟩
          case inr => exact ⟨above, .inr below, ne⟩
      have top : ¬(Anc index.pprev x m ∧ Anc index.pprev m p ∧ m ≠ x) := fun ⟨_, below, _⟩ => by
        have := index.graded.height_le below
        omega
      refine ⟨removed.chainActive, fun c above below ne => ?_, fun c off => ?_, fun c => ?_,
        removed.sublist.trans filter_sublist, removed.unlinked⟩
      · obtain rfl | lower := (on c).mp ⟨above, below, ne⟩
        case inl => exact (removed.elsewhere c top).trans (Function.update_self ..)
        case inr =>
          have apart : c ≠ m := fun eq => top (eq ▸ lower)
          have same : ((s.markFailedChild m).eraseCandidate m).nStatus c = s.nStatus c :=
            Function.update_of_ne apart ..
          rw [removed.above c lower.left lower.right.left ne, same]
      · have ⟨apart, lower⟩ := not_or.mp (mt (on c).mpr off)
        exact (removed.elsewhere c lower).trans (Function.update_of_ne apart ..)
      · rw [removed.candidates, mem_eraseCandidate, on, not_or, and_assoc]
        rfl

theorem Removed.rejects (removed : Removed index s s' x m) (failed : (s.nStatus x).failed)
    (anc : Anc index.pprev x m) : Rejects index s (s'.eraseCandidate x) x m := by
  refine ⟨failed, removed.chainActive, removed.above, removed.elsewhere, fun c => ?_, removed.unlinked⟩
  rw [mem_eraseCandidate, removed.candidates, and_assoc]
  refine and_congr_right fun _ => ⟨fun ⟨off, other⟩ ⟨above, below⟩ => off ⟨above, below, other⟩, fun off => ?_⟩
  refine ⟨fun ⟨above, below, _⟩ => off ⟨above, below⟩, ?_⟩
  rintro rfl
  exact off ⟨.refl, anc⟩

theorem GivenUp.worn (given : GivenUp index s m b) (worn : Worn connectBlock s s') : GivenUp index s' m b :=
  fun c above below =>
    have ⟨failed, absent⟩ := given c above below
    ⟨worn.failed c failed, fun mem => absent (worn.candidates mem)⟩

theorem Rejects.givenUp (h : Rejects index s s' x m) : GivenUp index s' m x := by
  refine fun c above below => ⟨?_, fun mem => ((h.candidates c).mp mem).right ⟨above, below⟩⟩
  by_cases eq : c = x
  case pos =>
    rw [h.elsewhere c fun on => on.right.right eq, eq]
    exact h.failed
  case neg => rw [h.above c above below eq, BlockStatus.failed, Bool.or_true]

structure Chosen (index : BlockIndex) (connectBlock : Uint256 → Bool) (s : ChainState) (t : Uint256)
    (r : Option Uint256) (s' : ChainState) : Prop where
  moves : Moves index connectBlock (s, t) (s', t)
  sound : ∀ r, s.Sound index r → s'.Sound index r
  givenUp : ∀ m b, Pending index s t m b → GivenUp index s' m b
  outcome : match r with
    | none => s'.setBlockIndexCandidates = []
    | some m => Aimed index s' t m

theorem Pending.givenUp_self (pending : Pending index s t m m) : GivenUp index s m m := by
  intro c above below
  cases index.graded.antisymm below above
  exact ⟨Bool.or_eq_true_iff.mpr (.inl pending.failed), pending.absent⟩

theorem Pending.outside (pending : Pending index s t m b) : ¬Anc index.pprev b t := fun anc => by
  have := index.graded.height_le anc
  have := index.graded.child pending.parent
  omega

theorem Pending.eq_of_first (pending : Pending index s t m b) (anc : Anc index.pprev x m)
    (failed : (s.nStatus x).failed)
    (clear : ∀ a, Anc index.pprev x a → Anc index.pprev a m → a ≠ x → (s.nStatus a).failed = false) : x = b := by
  have mark : (s.nStatus b).failed := Bool.or_eq_true_iff.mpr (.inl pending.failed)
  by_contra other
  obtain le | le := le_total (index.nHeight x) (index.nHeight b)
  case inl =>
    have above := index.graded.linear anc pending.anc le
    exact absurd mark (eq_false_iff.mp (clear b above pending.anc (Ne.symm other)))
  case inr =>
    have above := index.graded.linear pending.anc anc le
    exact absurd failed (eq_false_iff.mp (pending.between x above anc other))

theorem mostWorkLoop_chooses (filed : index.Filed) (active : Active index connectBlock s t)
    (enough : s.setBlockIndexCandidates.length < n) :
    ∃ r s', mostWorkLoop index n s = .ok (r, s') ∧ Chosen index connectBlock s t r s' := by
  induction n generalizing s
  case zero => exact absurd enough (not_lt_zero _)
  case succ n ih =>
    unfold mostWorkLoop
    cases best : index.greatest s.setBlockIndexCandidates
    case none =>
      have empty := greatest_eq_none.mp best
      refine ⟨none, s, rfl, .refl, fun _ h => h, fun m b pending => ?_, empty⟩
      by_cases eq : m = b
      case pos =>
        subst eq
        exact pending.givenUp_self
      case neg => exact absurd (pending.mem eq) (empty ▸ not_mem_nil)
    case some m =>
      have ⟨mem, max⟩ := greatest_eq_some best
      have ⟨known, linked, _⟩ := active.candidates m mem
      have ⟨r, found, spec⟩ := firstUnusable_ok (n := index.nHeight m + 1) filed active.path known linked (by omega)
      have same {m' b : Uint256} (pending : Pending index s t m' b) (other : m' ≠ b) : m' = m :=
        some.inj ((greatest_eq (pending.mem other) pending.max).symm.trans best)
      simp only [found, ok_bind]
      cases r
      case none =>
        refine ⟨some m, s, rfl, .refl, fun _ h => h, fun m' b pending => ?_, mem, max, spec⟩
        by_cases eq : m' = b
        case pos =>
          subst eq
          exact pending.givenUp_self
        case neg =>
          have clear := spec b (same pending eq ▸ pending.anc) pending.outside
          exact absurd pending.failed (eq_false_iff.mp (Bool.or_eq_false_iff.mp clear).left)
      case some x =>
        have ⟨anc, outside, failed, clear⟩ := spec
        have ⟨invalid, noted⟩ := noteInvalid_eq index s m
        simp only [failed, if_true, noted]
        let s₀ : ChainState := { s with pindexBestInvalid := invalid }
        let s₁ : ChainState := removeChain index true x (index.nHeight m + 1) m s₀
        have cut : Removed index s₀ s₁ x m := removeChain_removes anc (by omega)
        have removed : Removed index s s₁ x m :=
          ⟨cut.chainActive, cut.above, cut.elsewhere, cut.candidates, cut.sublist, cut.unlinked⟩
        have rejects := removed.rejects failed anc
        have fewer : (s₁.eraseCandidate x).setBlockIndexCandidates.length < s.setBlockIndexCandidates.length := by
          have sublist : (s₁.eraseCandidate x).setBlockIndexCandidates.Sublist s.setBlockIndexCandidates :=
            filter_sublist.trans removed.sublist
          refine lt_of_le_of_ne sublist.length_le fun eq => ?_
          exact ((rejects.candidates m).mp (sublist.eq_of_length eq ▸ mem)).right ⟨anc, .refl⟩
        have move : Move index connectBlock (s, t) (s₁.eraseCandidate x, t) := .reject rejects
        have ⟨r, s', rest, chosen⟩ := ih (move.active active) (by omega)
        refine ⟨r, s', rest, .head move chosen.moves,
          fun r sound => chosen.sound r (rejects.sound sound), fun m' b pending => ?_,
          chosen.outcome⟩
        refine GivenUp.worn ?_ chosen.moves.worn
        by_cases eq : m' = b
        case pos =>
          subst eq
          exact pending.givenUp_self.worn move.worn
        case neg =>
          cases same pending eq
          cases pending.eq_of_first anc failed clear
          exact rejects.givenUp

-- An invalid block is given up with the way to its candidate, at the latest when the next is chosen.
structure Underway (index : BlockIndex) (connectBlock : Uint256 → Bool) (a : Activation) (t : Uint256) : Prop where
  aimed : ∀ m, a.pindexMostWork = some m → Aimed index a.state t m
  attempts : ∀ p ∈ a.attempts, connectBlock p.2 = false ∧
    (GivenUp index a.state p.1 p.2 ∨ a.pindexMostWork = none ∧ Pending index a.state t p.1 p.2)

structure Finished (index : BlockIndex) (a : Activation) (t : Uint256) : Prop where
  best : ∀ m, a.pindexMostWork = some m → m = t
  empty : a.pindexMostWork = none → a.state.setBlockIndexCandidates = []
  attempts : ∀ p ∈ a.attempts, GivenUp index a.state p.1 p.2

def unfailed (index : BlockIndex) (s : ChainState) : List Uint256 :=
  index.mapBlockIndex.filter fun b => !(s.nStatus b).failedValid

def distance (index : BlockIndex) (s : ChainState) (m : Uint256) : ℕ :=
  index.mapBlockIndex.length - (s.chainActive.findFork index.toBlockTree m).elim 0 index.nHeight

-- A bound on the rounds left: each finds a block invalid or brings the tip nearer to the candidate.
def budget (index : BlockIndex) (a : Activation) : ℕ :=
  (unfailed index a.state).length * (index.mapBlockIndex.length + 2) +
    a.pindexMostWork.elim (index.mapBlockIndex.length + 1) (distance index a.state)

theorem unfailed_sublist (index : BlockIndex) (worn : Worn connectBlock s s') : (unfailed index s').Sublist (unfailed index s) := by
  refine monotone_filter_right _ fun b unfailed => ?_
  rw [Bool.not_eq_true', eq_false_iff] at unfailed ⊢
  exact fun mark => unfailed (worn.kept b mark)

theorem unfailed_lt (worn : Worn connectBlock s s') (known : b ∈ index.mapBlockIndex)
    (before : (s.nStatus b).failedValid = false) (after : (s'.nStatus b).failedValid) :
    (unfailed index s').length < (unfailed index s).length := by
  have sublist := unfailed_sublist index worn
  refine lt_of_le_of_ne sublist.length_le fun eq => ?_
  have mem : b ∈ unfailed index s' :=
    sublist.eq_of_length eq ▸ mem_filter.mpr ⟨known, by rw [before, Bool.not_false]⟩
  have unmarked := (mem_filter.mp mem).right
  rw [after] at unmarked
  cases unmarked

theorem distance_le (index : BlockIndex) (s : ChainState) (m : Uint256) :
    distance index s m ≤ index.mapBlockIndex.length :=
  sub_le _ _

theorem budget_le (a' : Activation) (worn : Worn connectBlock a.state a'.state)
    (far : a.pindexMostWork = none) : budget index a' ≤ budget index a := by
  have fewer := (unfailed_sublist index worn).length_le
  have near : a'.pindexMostWork.elim (index.mapBlockIndex.length + 1) (distance index a'.state) ≤
      index.mapBlockIndex.length + 1 := by
    cases a'.pindexMostWork
    case none => exact le_refl _
    case some m => exact (distance_le ..).trans (le_succ _)
  unfold budget
  rw [far]
  exact Nat.add_le_add (Nat.mul_le_mul_right _ fewer) near

theorem budget_lt_of_failed (a' : Activation) (worn : Worn connectBlock a.state a'.state)
    (known : b ∈ index.mapBlockIndex) (before : (a.state.nStatus b).failedValid = false)
    (after : (a'.state.nStatus b).failedValid) (none : a'.pindexMostWork = none) : budget index a' < budget index a := by
  have fewer := unfailed_lt worn known before after
  have whole := mul_le_mul_right (index.mapBlockIndex.length + 2) fewer
  unfold budget
  rw [none, elim_none]
  rw [succ_mul] at whole
  omega

theorem distance_eq (active : Active index connectBlock s t) (on : Anc index.pprev t m) :
    distance index s m = index.mapBlockIndex.length - index.nHeight t := by
  have ⟨f, fork, meet⟩ := active.path.findFork_eq ⟨.refl, on⟩
  cases index.graded.antisymm meet.left (meet.greatest .refl on)
  rw [distance, fork, elim_some]

theorem findMostWorkChain_chooses (filed : index.Filed) (active : Active index connectBlock s t) :
    ∃ r s', s.findMostWorkChain index = .ok (r, s') ∧ Chosen index connectBlock s t r s' :=
  mostWorkLoop_chooses filed active (lt_succ_self _)

theorem choose_ok (filed : index.Filed) (active : Active index connectBlock a.state t)
    (underway : Underway index connectBlock a t) :
    ∃ a', a.choose index = .ok a' ∧ Moves index connectBlock (a.state, t) (a'.state, t) ∧
      (∀ r, a.state.Sound index r → a'.state.Sound index r) ∧ Underway index connectBlock a' t ∧
      (∀ p ∈ a'.attempts, GivenUp index a'.state p.1 p.2) ∧
      (a'.pindexMostWork = none → a'.state.setBlockIndexCandidates = []) ∧
      a'.blocksConnected = a.blocksConnected ∧ budget index a' ≤ budget index a := by
  unfold Activation.choose
  cases chosen : a.pindexMostWork
  case some m =>
    have given (p : Uint256 × Uint256) (mem : p ∈ a.attempts) : GivenUp index a.state p.1 p.2 :=
      (underway.attempts p mem).right.resolve_right fun h => absurd (chosen.symm.trans h.left) nofun
    exact ⟨a, rfl, .refl, fun _ h => h, underway, given, fun h => absurd (chosen.symm.trans h) nofun, rfl, le_refl _⟩
  case none =>
    have ⟨r, s', found, chosen'⟩ := findMostWorkChain_chooses filed active
    have given (p : Uint256 × Uint256) (mem : p ∈ a.attempts) : GivenUp index s' p.1 p.2 := by
      obtain given | ⟨_, pending⟩ := (underway.attempts p mem).right
      case inl => exact given.worn chosen'.moves.worn
      case inr => exact chosen'.givenUp _ _ pending
    refine ⟨{ a with pindexMostWork := r, state := s' }, by simp only [found, ok_bind], chosen'.moves, chosen'.sound,
      ⟨?_, fun p mem => ⟨(underway.attempts p mem).left, .inl (given p mem)⟩⟩, given, ?_, rfl, ?_⟩
    · rintro m rfl
      exact chosen'.outcome
    · rintro rfl
      exact chosen'.outcome
    · exact budget_le { a with pindexMostWork := r, state := s' } chosen'.moves.worn chosen

theorem budget_lt_of_stepped (a' : Activation)
    (worn : Worn connectBlock a.state a'.state) (active : Active index connectBlock a'.state t') (on : Anc index.pprev t' m)
    (fork : a.state.chainActive.findFork index.toBlockTree m = some f) (closer : index.nHeight f < index.nHeight t')
    (before : a.pindexMostWork = some m) (after : a'.pindexMostWork = some m) : budget index a' < budget index a := by
  have fewer := mul_le_mul_right (index.mapBlockIndex.length + 2) (unfailed_sublist index worn).length_le
  have near : distance index a'.state m < distance index a.state m := by
    have := index.nHeight_lt_length active.known
    rw [distance_eq active on, distance, fork, elim_some]
    omega
  unfold budget
  rw [before, after, elim_some, elim_some]
  omega

def Activation.after (a : Activation) (m : Uint256) (step : Step) : Activation where
  state := step.state
  pindexMostWork := if step.invalid = none then some m else none
  blocksConnected := true
  attempts := step.invalid.elim a.attempts fun b => (m, b) :: a.attempts

theorem Stepped.underway (stepped : Stepped index connectBlock a.state t m step t')
    (underway : Underway index connectBlock a t) (given : ∀ p ∈ a.attempts, GivenUp index a.state p.1 p.2) :
    Underway index connectBlock (a.after m step) t' := by
  have outcome := stepped.outcome
  have kept (p : Uint256 × Uint256) (mem : p ∈ a.attempts) : connectBlock p.2 = false ∧ GivenUp index step.state p.1 p.2 :=
    ⟨(underway.attempts p mem).left, (given p mem).worn stepped.moves.worn⟩
  cases found : step.invalid
  case none =>
    rw [found] at outcome
    simp only [Activation.after, found, if_true, elim_none]
    exact ⟨fun m' eq => some.inj eq ▸ outcome.left, fun p mem => ⟨(kept p mem).left, .inl (kept p mem).right⟩⟩
  case some b =>
    rw [found] at outcome
    simp only [Activation.after, found, reduceCtorEq, if_false, elim_some]
    refine ⟨nofun, forall_mem_cons.mpr ⟨⟨?_, .inr ⟨rfl, outcome.left⟩⟩, ?_⟩⟩
    · exact (stepped.moves.worn.found b outcome.left.failed).resolve_left (eq_false_iff.mp outcome.right)
    · exact fun p mem => ⟨(kept p mem).left, .inl (kept p mem).right⟩

theorem Stepped.budget_lt (filed : index.Filed)
    (active : Active index connectBlock a.state t) (chosen : a.pindexMostWork = some m)
    (known : m ∈ index.mapBlockIndex) (stepped : Stepped index connectBlock a.state t m step t') :
    budget index (a.after m step) < budget index a := by
  have outcome := stepped.outcome
  have active' : Active index connectBlock step.state t' := stepped.moves.active active
  have ⟨f, fork, meet⟩ := active.path.findFork_eq ⟨filed.root active.known, filed.root known⟩
  cases found : step.invalid
  case none =>
    rw [found] at outcome
    have ⟨_, on, closer⟩ := outcome
    exact budget_lt_of_stepped (a.after m step) stepped.moves.worn active' on fork (closer f meet) chosen
      (if_pos found)
  case some b =>
    rw [found] at outcome
    have ⟨pending, before⟩ := outcome
    exact budget_lt_of_failed (a.after m step) stepped.moves.worn (index.closed pending.parent).left before
      pending.failed (if_neg (by rw [found]; nofun))

structure Changed (index : BlockIndex) (connectBlock : Uint256 → Bool) (s : ChainState) (t : Uint256) (a : Activation)
    (t' : Uint256) : Prop where
  moves : Moves index connectBlock (s, t) (a.state, t')
  underway : Underway index connectBlock a t'
  sound : s.Sound index (index.rank t) → a.state.Sound index (index.rank t')

theorem tip_mem_of_complete (active : Active index connectBlock s t) (moves : Moves index connectBlock (s, t) (s', t'))
    (complete : s'.Complete index (index.rank t)) : t ∈ s'.setBlockIndexCandidates := by
  refine complete t active.known (fun a anc => (active.accepted a anc).data) ?_ (le_refl _)
  refine moves.worn.clean_of_valid (fun a anc => ?_) fun a anc => (active.accepted a anc).valid
  exact (Bool.or_eq_false_iff.mp (active.accepted a anc).failed).left

theorem connectRounds_rests (filed : index.Filed) (active : Active index connectBlock s t)
    (moves : Moves index connectBlock (s, t) (a.state, t')) (underway : Underway index connectBlock a t')
    (sound : s.Sound index (index.rank t) → a.state.Sound index (index.rank t)) :
    (connectRounds index connectBlock (some t) n a = .ok none ∧ n ≤ budget index a) ∨
      ∃ a' u, connectRounds index connectBlock (some t) n a = .ok (some a') ∧ Changed index connectBlock s t a' u ∧
        (a'.blocksConnected = a.blocksConnected ∧ Finished index a' u ∧ budget index a' ≤ budget index a ∨
          a'.blocksConnected ∧ budget index a' < budget index a) := by
  induction n generalizing a t'
  case zero => exact .inl ⟨rfl, zero_le _⟩
  case succ n ih =>
    have active' : Active index connectBlock a.state t' := moves.active active
    obtain ⟨a₁, chosen, moves₁, sound₁, underway₁, given, empty, connected, cost⟩ := choose_ok filed active' underway
    have active₁ : Active index connectBlock a₁.state t' := moves₁.active active'
    have moves := moves.trans moves₁
    unfold connectRounds
    simp only [chosen, ok_bind]
    cases target : a₁.pindexMostWork
    case none =>
      refine .inr ⟨a₁, t', rfl, ⟨moves, underway₁, fun h => ?_⟩, .inl ⟨connected, ⟨?_, empty, given⟩, cost⟩⟩
      · have mem := tip_mem_of_complete active moves (sound₁ _ (sound h)).complete
        exact absurd (empty target ▸ mem) not_mem_nil
      · intro m eq
        cases target.symm.trans eq
    case some m =>
      have aimed := underway₁.aimed m target
      simp only [active₁.path.tip_eq, some.injEq]
      split
      case isTrue eq =>
        cases eq
        refine .inr ⟨a₁, t', rfl, ⟨moves, underway₁, fun h => ?_⟩, .inl ⟨connected, ⟨?_, empty, given⟩, cost⟩⟩
        · have done := sound₁ _ (sound h)
          exact done.mono (aimed.max t (tip_mem_of_complete active moves done.complete))
        · exact fun m eq => some.inj (eq.symm.trans target)
      case isFalse other =>
        obtain ⟨known, _, _⟩ := active₁.candidates m aimed.mem
        obtain ⟨step, t₂, done, stepped⟩ := activateBestChainStep_steps filed active₁ aimed (Ne.symm other)
        have active₂ : Active index connectBlock step.state t₂ := stepped.moves.active active₁
        have underway₂ := stepped.underway underway₁ given
        have cost₂ := stepped.budget_lt filed active₁ target known
        have moves₂ := moves.trans stepped.moves
        simp only [done, ok_bind, active₂.path.tip_eq, all_some, any_some]
        have sound₂ (h : s.Sound index (index.rank t)) :
            step.state.Sound index (max (index.rank t) (index.rank t₂)) :=
          stepped.sound _ (sound₁ _ (sound h))
        split
        case isTrue worse =>
          have below := workComparator_iff.mp worse
          rw [max_eq_left below.le] at sound₂
          obtain ⟨out, left⟩ | ⟨a', u, ends, changed, rest⟩ := ih (a := a₁.after m step) moves₂ underway₂ sound₂
          case inl => exact .inl ⟨out, by omega⟩
          case inr =>
            refine .inr ⟨a', u, ends, changed, .inr ?_⟩
            obtain ⟨same, _, le⟩ | ⟨connected, lt⟩ := rest
            case inl => exact ⟨same, by omega⟩
            case inr => exact ⟨connected, by omega⟩
        case isFalse better =>
          have above := not_lt.mp fun lt => better (workComparator_iff.mpr lt)
          rw [max_eq_right above] at sound₂
          exact .inr ⟨a₁.after m step, t₂, rfl, ⟨moves₂, underway₂, sound₂⟩, .inr ⟨rfl, by omega⟩⟩

theorem Changed.trans {a a' : Activation} (h : Changed index connectBlock s t a t')
    (h' : Changed index connectBlock a.state t' a' u) : Changed index connectBlock s t a' u :=
  ⟨h.moves.trans h'.moves, h'.underway, h'.sound ∘ h.sound⟩

theorem activateRounds_ends {n round : ℕ} {shutdownRequested : ℕ → Bool} (filed : index.Filed)
    (active : Active index connectBlock a.state t) (underway : Underway index connectBlock a t) :
    (activateRounds index connectBlock shutdownRequested n round a = .ok none ∧ n ≤ budget index a + 1) ∨
      ∃ a' t', activateRounds index connectBlock shutdownRequested n round a = .ok (some a') ∧
        Changed index connectBlock a.state t a' t' ∧ ((∀ i, shutdownRequested i = false) → Finished index a' t') := by
  induction n generalizing a t round
  case zero => exact .inl ⟨rfl, zero_le _⟩
  case succ n ih =>
    unfold activateRounds
    rw [active.path.tip_eq]
    have rounds := connectRounds_rests (n := n) (a := { a with blocksConnected := false }) filed active .refl
      ⟨underway.aimed, underway.attempts⟩ id
    obtain ⟨out, left⟩ | ⟨a₁, t₁, rests, changed, outcome⟩ := rounds
    case inl => exact .inl ⟨by rw [out, ok_bind], succ_le_succ left⟩
    case inr =>
      have active₁ : Active index connectBlock a₁.state t₁ := changed.moves.active active
      simp only [rests, ok_bind, active₁.path.tip_eq]
      cases connected : a₁.blocksConnected
      case false =>
        obtain ⟨_, finished, _⟩ | ⟨connected', _⟩ := outcome
        case inl => exact .inr ⟨a₁, t₁, rfl, changed, fun _ => finished⟩
        case inr => cases connected.symm.trans connected'
      case true =>
        have cost : budget index a₁ < budget index a := by
          obtain ⟨same, _⟩ | ⟨_, lt⟩ := outcome
          case inl => cases connected.symm.trans same
          case inr => exact lt
        simp only [Bool.not_true, Bool.false_eq_true, if_false]
        split
        case isTrue stop => exact .inr ⟨a₁, t₁, rfl, changed, fun never => absurd stop (eq_false_iff.mp (never _))⟩
        case isFalse =>
          split
          case isTrue =>
            obtain ⟨out, left⟩ | ⟨a', t', ends, changed', finished⟩ := ih active₁ changed.underway
            case inl => exact .inl ⟨out, by omega⟩
            case inr => exact .inr ⟨a', t', ends, changed.trans changed', finished⟩
          case isFalse arrived =>
            have best := not_not.mp arrived
            refine .inr ⟨a₁, t₁, rfl, changed, fun _ => ⟨?_, fun none => ?_, fun p mem => ?_⟩⟩
            · exact fun m eq => some.inj (eq.symm.trans best)
            · cases none.symm.trans best
            · exact (changed.underway.attempts p mem).right.resolve_right fun h =>
                absurd (h.left.symm.trans best) (by rintro ⟨⟩)

theorem activateBestChain_ends (shutdownRequested : ℕ → Bool) (n : ℕ) (filed : index.Filed)
    (active : Active index connectBlock s t) :
    (s.activateBestChain index connectBlock shutdownRequested n = .ok none ∧ n ≤ budget index { state := s } + 1) ∨
      ∃ a t', s.activateBestChain index connectBlock shutdownRequested n = .ok (some a) ∧
        Changed index connectBlock s t a t' ∧ ((∀ i, shutdownRequested i = false) → Finished index a t') :=
  activateRounds_ends filed active ⟨nofun, nofun⟩

end ChainState

end Qrax
