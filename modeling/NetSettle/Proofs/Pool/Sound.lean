import NetSettle.Proofs.Pool.Operations
import NetSettle.Proofs.SortedMap

/-!
# Sound pools

A pool is sound if its tokens are in order, its shares add up, it is empty on both sides exactly
when it has no shares, and the square of its shares is at most the product of its reserves. A
fresh pool of a canonical pair is sound, and every operation keeps a sound pool sound: a deposit
and a burning leave each share at least the part of both reserves that it had, and a swap does not
lower the product. All but the order of the tokens holds of pools of any pair, and no operation
changes the pair.
-/
namespace NetSettle

open Faulting

theorem Pair.canonical_eq_ok {token0 token1 : Address} {pair : Pair}
    (h : Pair.canonical token0 token1 = .ok pair) :
    pair = ⟨token0, token1⟩ ∧ 0 < token0 ∧ token0 < token1 := by
  unfold Pair.canonical at h
  simp only [bind_eq_ok] at h
  obtain ⟨_, h0, _, h1, h⟩ := h
  obtain ⟨rfl, hne⟩ := requireToken_eq_ok.1 h0
  obtain ⟨rfl, -⟩ := requireToken_eq_ok.1 h1
  split at h
  · rename_i hlt
    cases h
    exact ⟨rfl, (BitVec.pos_iff_ne_zero _).2 hne, hlt⟩
  · cases h

namespace Pool

/-- What holds of every pool that the engine ever stores. -/
structure Sound (p : Pool) : Prop where
  token0_pos : 0 < p.pair.token0
  ordered : p.pair.token0 < p.pair.token1
  shares_sum : (p.totalShares.toNat : Int) = p.shares.sumBy fun _ n => n.toNat
  shares_pos : ∀ owner n, p.shares.find? owner = some n → 1 ≤ n.toNat
  empty0 : p.totalShares = 0 ↔ p.reserve0 = 0
  empty1 : p.totalShares = 0 ↔ p.reserve1 = 0
  backed : p.totalShares.toNat ^ 2 ≤ p.reserve0.toNat * p.reserve1.toNat

/-- What holds of every pool that came about by operations, whatever its tokens. -/
structure Coherent (p : Pool) : Prop where
  shares_sum : (p.totalShares.toNat : Int) = p.shares.sumBy fun _ n => n.toNat
  shares_pos : ∀ owner n, p.shares.find? owner = some n → 1 ≤ n.toNat
  empty0 : p.totalShares = 0 ↔ p.reserve0 = 0
  empty1 : p.totalShares = 0 ↔ p.reserve1 = 0
  backed : p.totalShares.toNat ^ 2 ≤ p.reserve0.toNat * p.reserve1.toNat

theorem coherent_fresh (pair : Pair) : (fresh pair).Coherent where
  shares_sum := rfl
  shares_pos := by
    intro owner n hn
    cases hn
  empty0 := Iff.rfl
  empty1 := Iff.rfl
  backed := le_rfl

variable {p p' : Pool}

theorem Sound.coherent (h : p.Sound) : p.Coherent :=
  ⟨h.shares_sum, h.shares_pos, h.empty0, h.empty1, h.backed⟩

theorem Coherent.sound (h : p.Coherent) (h0 : 0 < p.pair.token0)
    (hlt : p.pair.token0 < p.pair.token1) : p.Sound :=
  ⟨h0, hlt, h.shares_sum, h.shares_pos, h.empty0, h.empty1, h.backed⟩

theorem sound_fresh {pair : Pair} (h0 : 0 < pair.token0) (h : pair.token0 < pair.token1) :
    (fresh pair).Sound :=
  (coherent_fresh pair).sound h0 h

theorem Sound.of_coherent (h : p.Sound) (hpair : p'.pair = p.pair) (h' : p'.Coherent) : p'.Sound :=
  h'.sound (hpair ▸ h.token0_pos) (hpair ▸ h.ordered)

theorem toNat_eq_zero {a : Amount} : a = 0 ↔ a.toNat = 0 :=
  ⟨fun h => by rw [h]; rfl, fun h => BitVec.eq_of_toNat_eq h⟩

theorem emptiness_of_backed (hpos : p.totalShares ≠ 0)
    (h : p.totalShares.toNat ^ 2 ≤ p.reserve0.toNat * p.reserve1.toNat) :
    (p.totalShares = 0 ↔ p.reserve0 = 0) ∧ (p.totalShares = 0 ↔ p.reserve1 = 0) := by
  have hsq : 0 < p.totalShares.toNat ^ 2 := Nat.pow_pos (Nat.pos_of_ne_zero (toNat_ne_zero hpos))
  have hprod : p.reserve0.toNat * p.reserve1.toNat ≠ 0 := by omega
  rw [Nat.mul_ne_zero_iff] at hprod
  simp only [hpos, toNat_eq_zero, hprod.1, hprod.2, and_self]

theorem Coherent.of_product (h : p.Coherent) (hpos : p.totalShares ≠ 0)
    (htotal : p'.totalShares = p.totalShares) (hshares : p'.shares = p.shares)
    (hprod : p.reserve0.toNat * p.reserve1.toNat ≤ p'.reserve0.toNat * p'.reserve1.toNat) :
    p'.Coherent := by
  have hbacked : p'.totalShares.toNat ^ 2 ≤ p'.reserve0.toNat * p'.reserve1.toNat := by
    rw [htotal]
    exact h.backed.trans hprod
  have hempty := emptiness_of_backed (htotal ▸ hpos) hbacked
  exact {
    shares_sum := by
      rw [htotal, hshares]
      exact h.shares_sum
    shares_pos := hshares ▸ h.shares_pos
    empty0 := hempty.1
    empty1 := hempty.2
    backed := hbacked }

theorem Coherent.swap (h : p.Coherent) {direction : Direction} {amountIn : Amount}
    {fees : FeeSettings} {q : SwapQuote} (hrun : (swap direction amountIn fees).run p = .ok q p') :
    p'.Coherent := by
  obtain ⟨hpos, hswapped⟩ := swap_eq_ok hrun
  cases hswapped with
  | zeroForOne hprices => exact h.of_product hpos rfl rfl hprices.product_le
  | oneForZero hprices =>
    refine h.of_product hpos rfl rfl ?_
    rw [Nat.mul_comm p.reserve0.toNat, Nat.mul_comm q.reserveOut.toNat]
    exact hprices.product_le

theorem Sound.swap (h : p.Sound) {direction : Direction} {amountIn : Amount} {fees : FeeSettings}
    {q : SwapQuote} (hrun : (swap direction amountIn fees).run p = .ok q p') : p'.Sound := by
  refine h.of_coherent ?_ (h.coherent.swap hrun)
  obtain ⟨-, hswapped⟩ := swap_eq_ok hrun
  cases hswapped with
  | zeroForOne => rfl
  | oneForZero => rfl

theorem Coherent.sharesOf_le (h : p.Coherent) (owner : Address) :
    (p.sharesOf owner).toNat ≤ p.totalShares.toNat := by
  have hsum := h.shares_sum
  unfold sharesOf
  cases hfind : p.shares.find? owner with
  | none => exact Nat.zero_le _
  | some n =>
    have hle := p.shares.le_sumBy (f := fun _ n => (n.toNat : Int))
      (fun _ _ => Int.natCast_nonneg _) hfind
    rw [← hsum] at hle
    exact Int.ofNat_le.1 hle

theorem Coherent.reserves_ne_zero (h : p.Coherent) (hlive : p.totalShares ≠ 0)
    (direction : Direction) : p.reserveIn direction ≠ 0 ∧ p.reserveOut direction ≠ 0 := by
  have h0 : p.reserve0 ≠ 0 := fun hzero => hlive (h.empty0.2 hzero)
  have h1 : p.reserve1 ≠ 0 := fun hzero => hlive (h.empty1.2 hzero)
  cases direction with
  | zeroForOne => exact ⟨h0, h1⟩
  | oneForZero => exact ⟨h1, h0⟩

/-- If the shares of a pool change from `s` to `s'` and each reserve keeps at least its part for
each share, so does the product for the square. -/
theorem product_le_of_parts {s s' r₀ r₁ r₀' r₁' : Nat} (h₀ : r₀ * s' ≤ s * r₀')
    (h₁ : r₁ * s' ≤ s * r₁') : r₀ * r₁ * s' ^ 2 ≤ r₀' * r₁' * s ^ 2 := by
  calc r₀ * r₁ * s' ^ 2 = (r₀ * s') * (r₁ * s') := by ring
    _ ≤ (s * r₀') * (s * r₁') := Nat.mul_le_mul h₀ h₁
    _ = r₀' * r₁' * s ^ 2 := by ring

theorem square_le_of_parts {s s' r₀ r₁ r₀' r₁' : Nat} (hs : 0 < s) (h : s ^ 2 ≤ r₀ * r₁)
    (h₀ : r₀ * s' ≤ s * r₀') (h₁ : r₁ * s' ≤ s * r₁') : s' ^ 2 ≤ r₀' * r₁' := by
  have hscaled : s ^ 2 * s' ^ 2 ≤ s ^ 2 * (r₀' * r₁') := by
    calc s ^ 2 * s' ^ 2 ≤ r₀ * r₁ * s' ^ 2 := Nat.mul_le_mul_right _ h
      _ ≤ r₀' * r₁' * s ^ 2 := product_le_of_parts h₀ h₁
      _ = s ^ 2 * (r₀' * r₁') := Nat.mul_comm _ _
  exact Nat.le_of_mul_le_mul_left hscaled (Nat.pow_pos hs)

theorem part_le_of_ceilDiv {s n r a : Nat} (hs : 0 < s) (ha : a = n * r ⌈/⌉ s) :
    r * (s + n) ≤ s * (r + a) := by
  have hceil : n * r ≤ s * a := by
    rw [ha]
    exact (ceilDiv_le_iff_le_mul hs).1 le_rfl
  calc r * (s + n) = s * r + n * r := by ring
    _ ≤ s * r + s * a := Nat.add_le_add_left hceil _
    _ = s * (r + a) := by ring

theorem part_le_of_div {s s' n r r' a : Nat} (ha : a = n * r / s) (hs : s' + n = s)
    (hr : r' + a = r) : r * s' ≤ s * r' := by
  have hfloor : s * a ≤ n * r := by
    rw [ha]
    exact Nat.mul_div_le _ _
  have hsum : r * s' + n * r = s * r' + s * a := by
    rw [← hs, ← hr]
    ring
  omega

theorem Coherent.backed_of_quoteMint (h : p.Coherent) {max0 max1 : Amount} {q : MintQuote}
    (hquote : quoteMint p.reserve0 p.reserve1 p.totalShares max0 max1 = .ok q) :
    (p.totalShares.toNat + q.shares.toNat) ^ 2 ≤
      (p.reserve0.toNat + q.amount0.toNat) * (p.reserve1.toNat + q.amount1.toNat) := by
  obtain ⟨-, -, -, ⟨hzero, hseeds⟩ | ⟨htotal, hextends⟩⟩ := quoteMint_eq_ok hquote
  · rw [toNat_eq_zero.1 hzero, toNat_eq_zero.1 (h.empty0.1 hzero),
      toNat_eq_zero.1 (h.empty1.1 hzero), Nat.zero_add, Nat.zero_add, Nat.zero_add,
      hseeds.shares_eq, hseeds.amount0_eq, hseeds.amount1_eq]
    exact Nat.sqrt_le' _
  · have htotal' := Nat.pos_of_ne_zero htotal
    exact square_le_of_parts htotal' h.backed (part_le_of_ceilDiv htotal' hextends.amount0_eq)
      (part_le_of_ceilDiv htotal' hextends.amount1_eq)

theorem counted_eq (p : Pool) (owner : Address) :
    ((p.shares.find? owner).map fun n : Amount => (n.toNat : Int)).getD 0 =
      (p.sharesOf owner).toNat := by
  unfold sharesOf
  cases p.shares.find? owner <;> rfl

theorem Coherent.addLiquidity (h : p.Coherent) {recipient : Address} {max0 max1 : Amount}
    {q : MintQuote} (hrun : (addLiquidity recipient max0 max1).run p = .ok q p') :
    p'.Coherent := by
  obtain ⟨hquote, hminted⟩ := addLiquidity_eq_ok hrun
  obtain ⟨-, -, hne, -⟩ := quoteMint_eq_ok hquote
  obtain ⟨owned, howned, hshares⟩ := hminted.owned
  have htotal := hminted.total
  have hpos : p'.totalShares ≠ 0 := by
    rw [Ne, toNat_eq_zero]
    omega
  have hbacked : p'.totalShares.toNat ^ 2 ≤ p'.reserve0.toNat * p'.reserve1.toNat := by
    rw [htotal, hminted.reserve0, hminted.reserve1]
    exact h.backed_of_quoteMint hquote
  have hempty := emptiness_of_backed hpos hbacked
  exact {
    shares_sum := by
      have hsum := h.shares_sum
      rw [hshares, SortedMap.sumBy_insert, counted_eq]
      omega
    shares_pos := by
      intro owner n hn
      rw [hshares, SortedMap.find?_insert] at hn
      split at hn
      · cases hn
        omega
      · exact h.shares_pos owner n hn
    empty0 := hempty.1
    empty1 := hempty.2
    backed := hbacked }

theorem Sound.addLiquidity (h : p.Sound) {recipient : Address} {max0 max1 : Amount} {q : MintQuote}
    (hrun : (addLiquidity recipient max0 max1).run p = .ok q p') : p'.Sound :=
  h.of_coherent (addLiquidity_eq_ok hrun).2.pair (h.coherent.addLiquidity hrun)

theorem Coherent.removeLiquidity (h : p.Coherent) {owner : Address} {shares : Amount}
    {q : BurnQuote} (hrun : (removeLiquidity owner shares).run p = .ok q p') : p'.Coherent := by
  obtain ⟨hreleases, hburned⟩ := removeLiquidity_eq_ok hrun
  obtain ⟨remaining, hremaining, hshares⟩ := hburned.owned
  have htotal := hburned.total
  have hr0 := hburned.reserve0
  have hr1 := hburned.reserve1
  have hne := hreleases.shares_ne
  have hpos : 0 < p.totalShares.toNat := by omega
  have hbacked : p'.totalShares.toNat ^ 2 ≤ p'.reserve0.toNat * p'.reserve1.toNat := by
    apply square_le_of_parts hpos h.backed
    · exact part_le_of_div hreleases.amount0_eq htotal hr0
    · exact part_le_of_div hreleases.amount1_eq htotal hr1
  have hempty : (p'.totalShares = 0 ↔ p'.reserve0 = 0) ∧
      (p'.totalShares = 0 ↔ p'.reserve1 = 0) := by
    by_cases hlast : p'.totalShares = 0
    · -- The last shares release the reserves in full.
      have hall : shares.toNat = p.totalShares.toNat := by
        rw [toNat_eq_zero] at hlast
        omega
      have ha0 := hreleases.amount0_eq
      have ha1 := hreleases.amount1_eq
      rw [hall, Nat.mul_div_cancel_left _ hpos] at ha0 ha1
      simp only [hlast, toNat_eq_zero, true_iff]
      omega
    · exact emptiness_of_backed hlast hbacked
  exact {
    shares_sum := by
      have hsum := h.shares_sum
      rw [hshares]
      split
      · rename_i hzero
        rw [toNat_eq_zero] at hzero
        rw [SortedMap.sumBy_erase, counted_eq]
        omega
      · rw [SortedMap.sumBy_insert, counted_eq]
        omega
    shares_pos := by
      intro other n hn
      by_cases hother : other = owner
      · subst hother
        rw [hshares] at hn
        split at hn
        · rw [SortedMap.find?_erase_self] at hn
          cases hn
        · rename_i hzero
          rw [SortedMap.find?_insert_self] at hn
          cases hn
          rw [toNat_eq_zero] at hzero
          omega
      · apply h.shares_pos other n
        rw [← hn, hshares]
        split
        · rw [SortedMap.find?_erase_ne _ hother]
        · rw [SortedMap.find?_insert_ne _ hother]
    empty0 := hempty.1
    empty1 := hempty.2
    backed := hbacked }

theorem Sound.removeLiquidity (h : p.Sound) {owner : Address} {shares : Amount} {q : BurnQuote}
    (hrun : (removeLiquidity owner shares).run p = .ok q p') : p'.Sound :=
  h.of_coherent (removeLiquidity_eq_ok hrun).2.pair (h.coherent.removeLiquidity hrun)

theorem Coherent.takeAccruedFees (h : p.Coherent) : p.takeAccruedFees.2.Coherent := by
  cases h
  constructor <;> assumption

theorem Sound.takeAccruedFees (h : p.Sound) : p.takeAccruedFees.2.Sound :=
  h.of_coherent rfl h.coherent.takeAccruedFees

end Pool

end NetSettle
