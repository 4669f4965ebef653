import Qrax.Coins.Theorems.Refinement
import Qrax.Lib.FiniteTotal

open FiniteTotal KeyedUpdate Option

namespace Qrax

namespace CoinsCache

def coinsUsage (c : CoinsCache) : ℤ :=
  total (fun e => (e.coin.dynamicMemoryUsage : ℤ)) c.cacheCoins

def anchorsUsage (c : CoinsCache) : ℤ :=
  total (fun e => (e.tree.dynamicMemoryUsage : ℤ)) c.cacheSaplingAnchors

def UsageExact (c : CoinsCache) : Prop :=
  c.cachedCoinsUsage = c.coinsUsage + c.anchorsUsage

variable {c c' child : CoinsCache} {o : COutPoint}

section

variable (h : c.UsageExact)

include h

theorem UsageExact.emplace (absent : c.cacheCoins.lookup o = none) (tmp : Coin) :
    (c.emplace o tmp).UsageExact := by
  simp only [UsageExact, coinsUsage, anchorsUsage, CoinsCache.emplace, total_insert, absent, elim_none] at h ⊢
  omega

theorem UsageExact.spendEntry {e : CCoinsCacheEntry} (found : c.cacheCoins.lookup o = some e) :
    (c.spendEntry o e).UsageExact := by
  have empty : ({} : Coin).dynamicMemoryUsage = 0 := rfl
  simp only [UsageExact, coinsUsage, anchorsUsage, CoinsCache.spendEntry] at h ⊢
  split <;> simp only [total_insert, total_erase, found, elim_some, empty] <;> omega

theorem UsageExact.uncache : (c.uncache o).UsageExact := by
  unfold CoinsCache.uncache
  split
  case h_1 coin found =>
    simp only [UsageExact, coinsUsage, anchorsUsage, total_erase, found, elim_some] at h ⊢
    omega
  case h_2 => exact h

theorem UsageExact.writeCoin {e : CCoinsCacheEntry} (write : c.writeCoin o e = .ok c') :
    c'.UsageExact := by
  simp only [CoinsCache.writeCoin] at write
  split at write
  case isTrue => cases write; exact h
  case isFalse =>
    split at write
    case h_1 found =>
      split at write <;> cases write
      case isTrue => exact h
      case isFalse =>
        simp only [UsageExact, coinsUsage, anchorsUsage, total_insert, found, elim_none] at h ⊢
        omega
    case h_2 us found =>
      split at write
      case isTrue => cases write
      case isFalse =>
        split at write <;> cases write <;>
          simp only [UsageExact, coinsUsage, anchorsUsage, total_insert, total_erase, found,
            elim_some] at h ⊢ <;>
          omega

theorem UsageExact.writeAnchor (rt : Uint256) (e : CAnchorsSaplingCacheEntry) :
    (c.writeAnchor rt e).UsageExact := by
  simp only [CoinsCache.writeAnchor]
  split
  case isTrue => exact h
  case isFalse =>
    split
    case h_1 found =>
      simp only [UsageExact, coinsUsage, anchorsUsage, total_insert, found, elim_none] at h ⊢
      omega
    case h_2 us found =>
      split
      case isTrue => exact h
      case isFalse =>
        simp only [UsageExact, coinsUsage, anchorsUsage, total_insert, found, elim_some] at h ⊢
        omega

theorem UsageExact.writeNullifier (nf : Uint256) (e : CNullifiersCacheEntry) :
    (c.writeNullifier nf e).UsageExact := by
  simp only [CoinsCache.writeNullifier]
  split <;> [exact h; (split <;> [exact h; (split <;> exact h)])]

theorem UsageExact.batchWrite (write : c.batchWrite child = .ok c') : c'.UsageExact := by
  obtain ⟨coins, written, last⟩ := Fallible.bind_eq_ok.mp write
  cases last
  have coins : coins.UsageExact := by
    refine List.foldlRecOn (motive := fun (acc : Except Failure CoinsCache) => ∀ c, acc = .ok c → c.UsageExact) _ _
      ?_ ?_ coins written
    case refine_1 =>
      intro _ start
      cases start
      exact h
    case refine_2 =>
      intro acc exact e _ c' step
      obtain ⟨c, before, write⟩ := Fallible.bind_eq_ok.mp step
      exact (exact c before).writeCoin write
  have anchors := List.foldlRecOn (motive := UsageExact) child.cacheSaplingAnchors.entries _ coins
    fun c exact e _ => exact.writeAnchor e.1 e.2
  exact List.foldlRecOn (motive := UsageExact) _ _ anchors fun c exact e _ => exact.writeNullifier e.1 e.2

end

theorem usageExact_clear (c : CoinsCache) : c.clear.UsageExact := rfl

def afterAddCoin (c : CoinsCache) (o : COutPoint) (coin : Coin) (possibleOverwrite : Bool) : CoinsCache :=
  match c.addCoin o coin possibleOverwrite with
  | .ok c => c
  | .error (_, c) => c

-- A call that replaces an unspent coin unannounced throws after taking the coin off the counter.
def AddsExactly (c : CoinsCache) (o : COutPoint) (coin : Coin) (possibleOverwrite : Bool) : Prop :=
  !coin.isSpent → !coin.out.scriptPubKey.isUnspendable → !possibleOverwrite →
    ∀ e, c.cacheCoins.lookup o = some e → !e.coin.isSpent → e.coin.dynamicMemoryUsage = 0

theorem afterAddCoin_usageExact_iff (h : c.UsageExact) {coin : Coin} {possibleOverwrite : Bool} :
    (c.afterAddCoin o coin possibleOverwrite).UsageExact ↔ c.AddsExactly o coin possibleOverwrite := by
  unfold afterAddCoin AddsExactly CoinsCache.addCoin
  cases coin.isSpent
  case true => simp [h]
  case false =>
    cases coin.out.scriptPubKey.isUnspendable
    case true => simp [h]
    case false =>
      have spent : ({} : CCoinsCacheEntry).coin.isSpent = true := rfl
      have empty : ({} : CCoinsCacheEntry).coin.dynamicMemoryUsage = 0 := rfl
      simp only [UsageExact, coinsUsage, anchorsUsage] at h
      cases found : c.cacheCoins.lookup o
      case none =>
        simp [UsageExact, coinsUsage, anchorsUsage, total_insert, found, spent, empty, h]
        omega
      case some e =>
        cases possibleOverwrite <;> cases replaced : e.coin.isSpent <;>
          simp [UsageExact, coinsUsage, anchorsUsage, total_insert, found, replaced, h]
        all_goals omega

end CoinsCache

inductive CoinCall
  | addCoin (o : COutPoint) (coin : Coin) (possibleOverwrite : Bool)
  | spendCoin (o : COutPoint)
  | getCoin (o : COutPoint)
  | uncache (o : COutPoint)
  | batchWrite (child : CoinsCache)
  | flush

namespace CCoinsViewCache

variable [Crypto] {v v' : CCoinsViewCache}

def call (v : CCoinsViewCache) : CoinCall → Except Failure CCoinsViewCache
  | .addCoin o coin possibleOverwrite => .ok { v with cache := v.cache.afterAddCoin o coin possibleOverwrite }
  | .spendCoin o => .ok (v.spendCoin o).2
  | .getCoin o => .ok (v.getCoin o).2
  | .uncache o => .ok (v.uncache o)
  | .batchWrite child => v.batchWrite child
  | .flush => v.flush

def CallsExactly (v : CCoinsViewCache) : CoinCall → Prop
  | .addCoin o coin possibleOverwrite => v.cache.AddsExactly o coin possibleOverwrite
  | _ => True

-- The states after calls none of which throws in `AddCoin` over a coin with memory.
inductive Reached (base : CCoinsView) : CCoinsViewCache → Prop
  | start : Reached base { base }
  | call {v v' : CCoinsViewCache} {c : CoinCall} (before : Reached base v) (exactly : v.CallsExactly c)
      (called : v.call c = .ok v') : Reached base v'

omit [Crypto] in
theorem fetchCoin_usageExact (h : v.cache.UsageExact) (o : COutPoint) :
    (v.fetchCoin o).2.cache.UsageExact ∧ (v.fetchCoin o).1 = (v.fetchCoin o).2.cache.cacheCoins.lookup o := by
  unfold fetchCoin
  cases found : v.cache.cacheCoins.lookup o
  case some e => exact ⟨h, found.symm⟩
  case none =>
    rcases v.base.getCoin o with ⟨_ | tmp, base⟩
    case none => exact ⟨h, found.symm⟩
    case some => exact ⟨h.emplace found tmp, (AList.lookup_insert v.cache.cacheCoins).symm⟩

theorem call_usageExact_iff (h : v.cache.UsageExact) {c : CoinCall} (called : v.call c = .ok v') :
    v'.cache.UsageExact ↔ v.CallsExactly c := by
  cases c
  case addCoin o coin possibleOverwrite =>
    cases called
    exact CoinsCache.afterAddCoin_usageExact_iff h
  case spendCoin o =>
    cases called
    obtain ⟨fetched, entry⟩ := fetchCoin_usageExact h o
    refine iff_of_true ?_ trivial
    unfold spendCoin
    rcases eq : v.fetchCoin o with ⟨_ | e, v'⟩ <;> rw [eq] at fetched entry
    case none => exact fetched
    case some => exact fetched.spendEntry entry.symm
  case getCoin o =>
    cases called
    exact iff_of_true (fetchCoin_usageExact h o).left trivial
  case uncache o =>
    cases called
    exact iff_of_true h.uncache trivial
  case batchWrite child =>
    obtain ⟨cache, written, last⟩ := Fallible.bind_eq_ok.mp called
    cases last
    exact iff_of_true (h.batchWrite written) trivial
  case flush =>
    obtain ⟨base, written, last⟩ := Fallible.bind_eq_ok.mp called
    cases last
    exact iff_of_true (CoinsCache.usageExact_clear _) trivial

theorem Reached.usageExact {base : CCoinsView} (h : Reached base v) : v.cache.UsageExact := by
  induction h
  case start => rfl
  case call exactly called ih => exact (call_usageExact_iff ih called).mpr exactly

theorem usage_after_call_iff {base : CCoinsView} {c : CoinCall} (reached : Reached base v)
    (called : v.call c = .ok v') :
    v'.cache.cachedCoinsUsage = v'.cache.coinsUsage + v'.cache.anchorsUsage ↔ v.CallsExactly c :=
  call_usageExact_iff reached.usageExact called

end CCoinsViewCache

def heapCoin : Coin where
  out := { nValue := 5, scriptPubKey := List.replicate 29 1 }
  nHeight := 1

def heapView : CCoinsViewCache where
  base := .db {}
  cache := CoinsCache.afterAddCoin {} ⟨7, 0⟩ heapCoin false

theorem refused_coin_uncounted :
    let c := heapView.cache.afterAddCoin ⟨7, 0⟩ heapCoin false
    heapView.cache.cachedCoinsUsage = 48 ∧ heapView.cache.coinsUsage = 48 ∧
      c.cachedCoinsUsage = 0 ∧ c.coinsUsage = 48 ∧ c.anchorsUsage = 0 := by
  decide

theorem heap_coin_counted :
    heapView.cache.cachedCoinsUsage = heapView.cache.coinsUsage + heapView.cache.anchorsUsage := by
  let _crypto := Crypto.toy
  have fresh : CCoinsViewCache.Reached (.db {}) { base := .db {} } := .start
  refine (CCoinsViewCache.usage_after_call_iff (c := .addCoin ⟨7, 0⟩ heapCoin false) fresh rfl).mpr ?_
  rintro _ _ _ _ ⟨⟩

end Qrax
