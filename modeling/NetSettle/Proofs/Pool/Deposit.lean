import NetSettle.Proofs.Pool.Quote

/-!
# The best deposit

A deposit into a pool that has shares mints as many as the depositor can afford: one share more
would cost more than a maximum allows, on one side at least. The charge for them is the least amount
on each side that leaves the other owners their part of the reserve.
-/
namespace NetSettle

/-- Shares that cost no more than the maximum on either side. -/
def Affordable (reserve0 reserve1 total max0 max1 : Amount) (shares : Nat) : Prop :=
  shares * reserve0.toNat ⌈/⌉ total.toNat ≤ max0.toNat ∧
    shares * reserve1.toNat ⌈/⌉ total.toNat ≤ max1.toNat

/-- An amount that is charged for shares on one side: something, but within the maximum, and no
more than it takes to keep what each share stands for. -/
structure ChargesLeast (reserve total max : Amount) (shares : Nat) (amount : Amount) : Prop where
  pos : 1 ≤ amount.toNat
  le_max : amount.toNat ≤ max.toNat
  least : IsLeast
    {a : Nat | reserve.toNat * (total.toNat + shares) ≤ (reserve.toNat + a) * total.toNat}
    amount.toNat

theorem ceilDiv_le_iff_le_div {shares max reserve total : Nat} (hreserve : 0 < reserve)
    (htotal : 0 < total) :
    shares * reserve ⌈/⌉ total ≤ max ↔ shares ≤ max * total / reserve := by
  rw [ceilDiv_le_iff_le_mul htotal, Nat.le_div_iff_mul_le hreserve, Nat.mul_comm total]

theorem isLeast_ceilDiv (reserve shares : Nat) {total : Nat} (htotal : 0 < total) :
    IsLeast {a : Nat | reserve * (total + shares) ≤ (reserve + a) * total}
      (shares * reserve ⌈/⌉ total) := by
  have hmem (a : Nat) : reserve * (total + shares) ≤ (reserve + a) * total ↔
      shares * reserve ⌈/⌉ total ≤ a := by
    rw [ceilDiv_le_iff_le_mul htotal, Nat.mul_add, Nat.add_mul, Nat.add_le_add_iff_left,
      Nat.mul_comm reserve shares, Nat.mul_comm a total]
  exact ⟨(hmem _).2 le_rfl, fun a ha => (hmem a).1 ha⟩

variable {reserve0 reserve1 total max0 max1 : Amount}

theorem affordable_iff (h0 : reserve0 ≠ 0) (h1 : reserve1 ≠ 0) (htotal : total ≠ 0)
    {shares : Nat} : Affordable reserve0 reserve1 total max0 max1 shares ↔
      shares ≤ mostShares reserve0 reserve1 total max0 max1 := by
  have htotal' := Nat.pos_of_ne_zero (toNat_ne_zero htotal)
  rw [Affordable, mostShares, le_min_iff,
    ceilDiv_le_iff_le_div (Nat.pos_of_ne_zero (toNat_ne_zero h0)) htotal',
    ceilDiv_le_iff_le_div (Nat.pos_of_ne_zero (toNat_ne_zero h1)) htotal']

theorem isGreatest_mostShares (h0 : reserve0 ≠ 0) (h1 : reserve1 ≠ 0) (htotal : total ≠ 0) :
    IsGreatest {shares | Affordable reserve0 reserve1 total max0 max1 shares}
      (mostShares reserve0 reserve1 total max0 max1) :=
  ⟨(affordable_iff h0 h1 htotal).2 le_rfl, fun _ h => (affordable_iff h0 h1 htotal).1 h⟩

theorem chargesLeast_ceilDiv {reserve max amount : Amount} {shares : Nat} (hreserve : reserve ≠ 0)
    (htotal : total ≠ 0) (hshares : 0 < shares)
    (hamount : amount.toNat = shares * reserve.toNat ⌈/⌉ total.toNat)
    (hmax : shares * reserve.toNat ⌈/⌉ total.toNat ≤ max.toNat) :
    ChargesLeast reserve total max shares amount := by
  have htotal' := Nat.pos_of_ne_zero (toNat_ne_zero htotal)
  refine ⟨?_, hamount ▸ hmax, hamount ▸ isLeast_ceilDiv _ _ htotal'⟩
  -- A charge of nothing would cover a cost that is more than nothing.
  by_contra hnothing
  have hcost : shares * reserve.toNat ≤ total.toNat * 0 :=
    (ceilDiv_le_iff_le_mul htotal').1 (by omega)
  have hpos : 0 < shares * reserve.toNat :=
    Nat.mul_pos hshares (Nat.pos_of_ne_zero (toNat_ne_zero hreserve))
  omega

/-- A deposit into a pool that has shares and reserves mints the greatest number of shares that is
affordable and charges the least for them; it is refused if that number is zero, or no amount. -/
theorem deposit_mints_most_affordable (reserve0 reserve1 total max0 max1 : Amount)
    (h0 : reserve0 ≠ 0) (h1 : reserve1 ≠ 0) (htotal : total ≠ 0) (hmax0 : max0 ≠ 0)
    (hmax1 : max1 ≠ 0) :
    ∃ most, IsGreatest {shares | Affordable reserve0 reserve1 total max0 max1 shares} most ∧
      (most = 0 →
        quoteMint reserve0 reserve1 total max0 max1 = .error .insufficientLiquidityMinted) ∧
      (2 ^ 128 ≤ most → quoteMint reserve0 reserve1 total max0 max1 = .error .reserveOverflow) ∧
      (0 < most → most < 2 ^ 128 →
        ∃ q, quoteMint reserve0 reserve1 total max0 max1 = .ok q ∧ q.shares.toNat = most ∧
          ChargesLeast reserve0 total max0 most q.amount0 ∧
          ChargesLeast reserve1 total max1 most q.amount1) := by
  have hmax := not_or.2 ⟨hmax0, hmax1⟩
  have hpool := not_or.2 ⟨h0, h1⟩
  refine ⟨_, isGreatest_mostShares h0 h1 htotal, ?_, ?_, ?_⟩
  · intro hnone
    exact quoteMint_eq_error_iff.2 (.unaffordable hmax htotal hpool hnone)
  · intro hmany
    exact quoteMint_eq_error_iff.2 (.excessive hmax htotal hpool hmany)
  · intro hsome hfits
    cases hquote : quoteMint reserve0 reserve1 total max0 max1 with
    | error fault =>
      cases quoteMint_eq_error hquote with
      | nothing h => exact absurd h hmax
      | unreserved _ _ h => exact absurd h hpool
      | excessive _ _ _ h => omega
      | unaffordable _ _ _ h => omega
    | ok q =>
      obtain ⟨-, -, -, ⟨hzero, -⟩ | ⟨-, hextends⟩⟩ := quoteMint_eq_ok hquote
      · exact absurd hzero htotal
      have hshares : q.shares.toNat = mostShares reserve0 reserve1 total max0 max1 :=
        hextends.shares_eq
      obtain ⟨hcost0, hcost1⟩ : Affordable reserve0 reserve1 total max0 max1
          (mostShares reserve0 reserve1 total max0 max1) := (isGreatest_mostShares h0 h1 htotal).1
      refine ⟨q, rfl, hshares, ?_, ?_⟩
      · exact chargesLeast_ceilDiv h0 htotal hsome (hshares ▸ hextends.amount0_eq) hcost0
      · exact chargesLeast_ceilDiv h1 htotal hsome (hshares ▸ hextends.amount1_eq) hcost1

theorem deposit_mints_most_affordable_uneven :
    ∃ q, quoteMint 1001 334 100 1000 101 = .ok q ∧ q.shares.toNat = 30 ∧
      ChargesLeast 1001 100 1000 30 q.amount0 ∧ ChargesLeast 334 100 101 30 q.amount1 := by
  obtain ⟨most, hgreatest, -, -, hminted⟩ := deposit_mints_most_affordable 1001 334 100 1000 101
    (by decide) (by decide) (by decide) (by decide) (by decide)
  have hmost : most = 30 := hgreatest.unique (isGreatest_mostShares (by decide) (by decide)
    (by decide))
  subst hmost
  exact hminted (by decide) (by decide)

end NetSettle
