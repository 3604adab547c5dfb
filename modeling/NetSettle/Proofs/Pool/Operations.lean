import NetSettle.Proofs.Pool.Sides

/-!
# What an operation does to a pool

An operation on a pool that ended well changed it as its terms say. The tokens that a pool holds,
in its reserves and in its accrued fees, change by what the operation charges and pays.
-/
namespace NetSettle.Pool

open Faulting

variable {p p' : Pool}

inductive Swapped (p : Pool) (amountIn : Amount) (fees : FeeSettings) (q : SwapQuote) :
    Direction → Pool → Prop
  | zeroForOne {accrued : Amount}
      (hprices : q.Prices p.reserve0 p.reserve1 amountIn fees.swapFeeBps fees.protocolFeePpt)
      (haccrued : accrued.toNat = p.accruedFee0.toNat + q.protocolFee.toNat) :
      Swapped p amountIn fees q .zeroForOne
        { p with reserve0 := q.reserveIn, reserve1 := q.reserveOut, accruedFee0 := accrued }
  | oneForZero {accrued : Amount}
      (hprices : q.Prices p.reserve1 p.reserve0 amountIn fees.swapFeeBps fees.protocolFeePpt)
      (haccrued : accrued.toNat = p.accruedFee1.toNat + q.protocolFee.toNat) :
      Swapped p amountIn fees q .oneForZero
        { p with reserve1 := q.reserveIn, reserve0 := q.reserveOut, accruedFee1 := accrued }

theorem swap_eq_ok {direction : Direction} {amountIn : Amount} {fees : FeeSettings} {q : SwapQuote}
    (h : (swap direction amountIn fees).run p = .ok q p') :
    p.totalShares ≠ 0 ∧ p.Swapped amountIn fees q direction p' := by
  obtain ⟨hlive, hquote, accrued, haccrued, rfl⟩ := swap_eq_ok_iff.1 h
  have hprices := quoteSwap_eq_ok hquote
  have hfees := addAmounts_eq_ok haccrued
  cases direction with
  | zeroForOne => exact ⟨hlive, .zeroForOne hprices hfees⟩
  | oneForZero => exact ⟨hlive, .oneForZero hprices hfees⟩

structure Minted (p p' : Pool) (recipient : Address) (q : MintQuote) : Prop where
  reserve0 : p'.reserve0.toNat = p.reserve0.toNat + q.amount0.toNat
  reserve1 : p'.reserve1.toNat = p.reserve1.toNat + q.amount1.toNat
  total : p'.totalShares.toNat = p.totalShares.toNat + q.shares.toNat
  owned : ∃ owned : Amount, owned.toNat = (p.sharesOf recipient).toNat + q.shares.toNat ∧
    p'.shares = p.shares.insert recipient owned
  pair : p'.pair = p.pair
  fee0 : p'.accruedFee0 = p.accruedFee0
  fee1 : p'.accruedFee1 = p.accruedFee1

theorem Minted.sharesOf_recipient {recipient : Address} {q : MintQuote}
    (h : p.Minted p' recipient q) :
    (p'.sharesOf recipient).toNat = (p.sharesOf recipient).toNat + q.shares.toNat := by
  obtain ⟨owned, howned, hshares⟩ := h.owned
  rw [← howned, sharesOf, hshares, SortedMap.find?_insert_self]
  rfl

theorem Minted.sharesOf_of_ne {recipient owner : Address} {q : MintQuote}
    (h : p.Minted p' recipient q) (hne : owner ≠ recipient) :
    p'.sharesOf owner = p.sharesOf owner := by
  obtain ⟨owned, -, hshares⟩ := h.owned
  rw [sharesOf, sharesOf, hshares, SortedMap.find?_insert_ne _ hne]

theorem addLiquidity_eq_ok {recipient : Address} {max0 max1 : Amount} {q : MintQuote}
    (h : (addLiquidity recipient max0 max1).run p = .ok q p') :
    quoteMint p.reserve0 p.reserve1 p.totalShares max0 max1 = .ok q ∧ p.Minted p' recipient q := by
  unfold addLiquidity at h
  simp only [run_bind_eq_ok, run_lift_eq_ok, run_pure_eq_ok, run_get_eq_ok, run_set_eq_ok] at h
  obtain ⟨_, _, ⟨rfl, rfl⟩, quote, _, ⟨hquote, rfl⟩, r0, _, ⟨hr0, rfl⟩, r1, _, ⟨hr1, rfl⟩, total, _,
    ⟨htotal, rfl⟩, owned, _, ⟨howned, rfl⟩, _, _, rfl, rfl, rfl⟩ := h
  exact ⟨hquote, addAmounts_eq_ok hr0, addAmounts_eq_ok hr1, addAmounts_eq_ok htotal,
    ⟨owned, addAmounts_eq_ok howned, rfl⟩, rfl, rfl, rfl⟩

structure Burned (p p' : Pool) (owner : Address) (shares : Amount) (q : BurnQuote) : Prop where
  available : shares.toNat ≤ (p.sharesOf owner).toNat
  reserve0 : p'.reserve0.toNat + q.amount0.toNat = p.reserve0.toNat
  reserve1 : p'.reserve1.toNat + q.amount1.toNat = p.reserve1.toNat
  total : p'.totalShares.toNat + shares.toNat = p.totalShares.toNat
  owned : ∃ remaining : Amount, remaining.toNat + shares.toNat = (p.sharesOf owner).toNat ∧
    p'.shares = if remaining = 0 then p.shares.erase owner else p.shares.insert owner remaining
  pair : p'.pair = p.pair
  fee0 : p'.accruedFee0 = p.accruedFee0
  fee1 : p'.accruedFee1 = p.accruedFee1

theorem Burned.sharesOf_owner {owner : Address} {shares : Amount} {q : BurnQuote}
    (h : p.Burned p' owner shares q) :
    (p'.sharesOf owner).toNat + shares.toNat = (p.sharesOf owner).toNat := by
  obtain ⟨remaining, hremaining, hshares⟩ := h.owned
  have hleft : p'.sharesOf owner = remaining := by
    rw [sharesOf, hshares]
    split
    · rename_i hzero
      rw [hzero, SortedMap.find?_erase_self]
      rfl
    · rw [SortedMap.find?_insert_self, Option.getD_some]
  rw [hleft, hremaining]

theorem Burned.find?_of_ne {owner other : Address} {shares : Amount} {q : BurnQuote}
    (h : p.Burned p' owner shares q) (hne : other ≠ owner) :
    p'.shares.find? other = p.shares.find? other := by
  obtain ⟨remaining, -, hshares⟩ := h.owned
  rw [hshares]
  split
  · rw [SortedMap.find?_erase_ne _ hne]
  · rw [SortedMap.find?_insert_ne _ hne]

theorem Burned.sharesOf_of_ne {owner other : Address} {shares : Amount} {q : BurnQuote}
    (h : p.Burned p' owner shares q) (hne : other ≠ owner) :
    p'.sharesOf other = p.sharesOf other := by
  rw [sharesOf, sharesOf, h.find?_of_ne hne]

theorem removeLiquidity_eq_ok {owner : Address} {shares : Amount} {q : BurnQuote}
    (h : (removeLiquidity owner shares).run p = .ok q p') :
    q.Releases p.reserve0 p.reserve1 p.totalShares shares ∧ p.Burned p' owner shares q := by
  unfold removeLiquidity at h
  simp only [run_bind_eq_ok, run_lift_eq_ok, run_pure_eq_ok, run_get_eq_ok, run_guard_eq_ok,
    run_modify_eq_ok] at h
  obtain ⟨_, _, ⟨rfl, rfl⟩, hle, quote, _, ⟨hquote, rfl⟩, r0, _, ⟨hr0, rfl⟩, _, _, rfl, r1, _,
    ⟨hr1, rfl⟩, _, _, rfl, total, _, ⟨htotal, rfl⟩, _, _, rfl, _, _, rfl, rfl, rfl⟩ := h
  have hle' : shares.toNat ≤ (p.sharesOf owner).toNat := Nat.not_lt.1 hle
  have hsub : (p.sharesOf owner - shares).toNat + shares.toNat = (p.sharesOf owner).toNat := by
    rw [BitVec.toNat_sub_of_le hle']
    omega
  exact ⟨quoteBurn_eq_ok hquote, hle', subAmounts_eq_ok hr0, subAmounts_eq_ok hr1,
    subAmounts_eq_ok htotal, ⟨_, hsub, rfl⟩, rfl, rfl, rfl⟩

variable {fault : Fault}

theorem swap_eq_error {direction : Direction} {amountIn : Amount} {fees : FeeSettings}
    (h : (swap direction amountIn fees).run p = .error fault p') : p' = p :=
  (swap_eq_error_iff.1 h).1

inductive Overfilled (p : Pool) (recipient : Address) (q : MintQuote) : Prop
  | reserve0 (h : 2 ^ 128 ≤ p.reserve0.toNat + q.amount0.toNat)
  | reserve1 (h : 2 ^ 128 ≤ p.reserve1.toNat + q.amount1.toNat)
  | total (h : 2 ^ 128 ≤ p.totalShares.toNat + q.shares.toNat)
  | owned (h : 2 ^ 128 ≤ (p.sharesOf recipient).toNat + q.shares.toNat)

theorem addLiquidity_eq_error {recipient : Address} {max0 max1 : Amount}
    (h : (addLiquidity recipient max0 max1).run p = .error fault p') :
    p' = p ∧ (quoteMint p.reserve0 p.reserve1 p.totalShares max0 max1 = .error fault ∨
      ∃ q, quoteMint p.reserve0 p.reserve1 p.totalShares max0 max1 = .ok q ∧
        fault = .reserveOverflow ∧ p.Overfilled recipient q) := by
  rw [addLiquidity, run_get_bind_eq_error] at h
  simp only [run_lift_bind_eq_error, addAmounts_eq_error] at h
  rcases h with ⟨hquote, rfl⟩ | ⟨q, hquote, ⟨⟨hfull, rfl⟩, rfl⟩ | ⟨_, -, ⟨⟨hfull, rfl⟩, rfl⟩ |
    ⟨_, -, ⟨⟨hfull, rfl⟩, rfl⟩ | ⟨_, -, ⟨⟨hfull, rfl⟩, rfl⟩ | ⟨_, -, h⟩⟩⟩⟩⟩
  · exact ⟨rfl, .inl hquote⟩
  · exact ⟨rfl, .inr ⟨q, hquote, rfl, .reserve0 hfull⟩⟩
  · exact ⟨rfl, .inr ⟨q, hquote, rfl, .reserve1 hfull⟩⟩
  · exact ⟨rfl, .inr ⟨q, hquote, rfl, .total hfull⟩⟩
  · exact ⟨rfl, .inr ⟨q, hquote, rfl, .owned hfull⟩⟩
  · cases h

/-- Once its terms are quoted a burning goes through, so none stops half way. -/
theorem removeLiquidity_eq_error {owner : Address} {shares : Amount}
    (h : (removeLiquidity owner shares).run p = .error fault p') :
    p' = p ∧
      (p.sharesOf owner < shares ∧ fault = .insufficientShares owner (p.sharesOf owner) shares ∨
      shares.toNat ≤ (p.sharesOf owner).toNat ∧
        quoteBurn p.reserve0 p.reserve1 p.totalShares shares = .error fault) := by
  rw [removeLiquidity, run_get_bind_eq_error, run_guard_eq_error] at h
  rcases h with ⟨hmore, rfl, rfl⟩ | ⟨hle, h⟩
  · exact ⟨rfl, .inl ⟨hmore, rfl⟩⟩
  rw [run_lift_bind_eq_error] at h
  rcases h with ⟨hquote, rfl⟩ | ⟨quote, hquote, h⟩
  · exact ⟨rfl, .inr ⟨Nat.not_lt.1 hle, hquote⟩⟩
  · have hreleases := quoteBurn_eq_ok hquote
    obtain ⟨r0, hr0⟩ := exists_subAmounts hreleases.amounts_le.1
    obtain ⟨r1, hr1⟩ := exists_subAmounts hreleases.amounts_le.2
    obtain ⟨total, htotal⟩ := exists_subAmounts hreleases.shares_le
    rw [hr0, hr1, htotal] at h
    cases h

end NetSettle.Pool
