import NetSettle.Proofs.Keeping
import NetSettle.Proofs.Pool.Deposit
import NetSettle.Proofs.Pool.Refusal
import NetSettle.Proofs.Pool.Trading

/-!
# When a pool fails a call

A pool that came about by calls has few ways to fail one, and each has its exact condition. Most of
the checks on the way cannot fire: the shares are at most the geometric mean of the reserves, also
after a deposit, so they fit where the reserves fit; and a deposit mints no more than the geometric
mean of its maxima.
-/
namespace NetSettle

open Faulting

/-- The lesser of two amounts that are scaled by `t / x` and `t / y` is at most the geometric mean
of the amounts, if `t` is at most that of `x` and `y`. -/
theorem min_div_sq_le {a b t x y : Nat} (ht : 0 < t) (h : t ^ 2 ≤ x * y) :
    min (a * t / x) (b * t / y) ^ 2 ≤ a * b := by
  have ha : a * t / x * x ≤ a * t := Nat.div_mul_le_self _ _
  have hb : b * t / y * y ≤ b * t := Nat.div_mul_le_self _ _
  refine Nat.le_of_mul_le_mul_right (c := t ^ 2) ?_ (Nat.pow_pos ht)
  calc min (a * t / x) (b * t / y) ^ 2 * t ^ 2
      ≤ a * t / x * (b * t / y) * t ^ 2 := by
        rw [Nat.pow_two]
        exact Nat.mul_le_mul_right _ (Nat.mul_le_mul (min_le_left _ _) (min_le_right _ _))
    _ ≤ a * t / x * (b * t / y) * (x * y) := Nat.mul_le_mul_left _ h
    _ = a * t / x * x * (b * t / y * y) := by ring
    _ ≤ a * t * (b * t) := Nat.mul_le_mul ha hb
    _ = a * b * t ^ 2 := by ring

theorem lt_of_sq_le_mul {n x y : Nat} (h : n ^ 2 ≤ x * y) (hx : x < 2 ^ 128) (hy : y < 2 ^ 128) :
    n < 2 ^ 128 := by
  refine lt_of_pow_lt_pow_left₀ 2 (Nat.zero_le _) ?_
  calc n ^ 2 ≤ x * y := h
    _ < 2 ^ 128 * 2 ^ 128 := Nat.mul_lt_mul'' hx hy
    _ = (2 ^ 128) ^ 2 := (Nat.pow_two _).symm

theorem mostShares_eq_zero_iff {reserve0 reserve1 total max0 max1 : Amount} (h0 : reserve0 ≠ 0)
    (h1 : reserve1 ≠ 0) (htotal : total ≠ 0) :
    mostShares reserve0 reserve1 total max0 max1 = 0 ↔
      ∀ shares, 0 < shares → ¬ Affordable reserve0 reserve1 total max0 max1 shares := by
  simp only [affordable_iff h0 h1 htotal]
  constructor
  · intro hnone shares hpos hle
    omega
  · intro hnone
    by_contra hsome
    exact hnone _ (Nat.pos_of_ne_zero hsome) le_rfl

namespace Pool

variable {p p' : Pool} {fault : Fault}

/-- What calls can make of a fresh pool, whether they succeed or fail. -/
inductive Reached : Pool → Prop
  | fresh (pair : Pair) : Reached (fresh pair)
  | traded {p : Pool} (h : Reached p) (t : Trade) : Reached (finalState (t.make.run p))
  | feesTaken {p : Pool} (h : Reached p) : Reached p.takeAccruedFees.2

theorem Coherent.make (h : p.Coherent) {t : Trade} {turnover : Turnover}
    (hrun : t.make.run p = .ok turnover p') : p'.Coherent := by
  cases make_eq_ok hrun with
  | swap hswap => exact h.swap hswap
  | addLiquidity hadd => exact h.addLiquidity hadd
  | removeLiquidity hremove => exact h.removeLiquidity hremove

theorem keeps_make (t : Trade) : Keeps Coherent t.make := by
  intro p h
  cases hrun : t.make.run p with
  | ok turnover p' => exact h.make hrun
  | error fault p' => exact make_eq_error hrun ▸ h

theorem Reached.coherent (h : p.Reached) : p.Coherent := by
  induction h with
  | fresh pair => exact coherent_fresh pair
  | traded _ t ih => exact keeps_make t _ ih
  | feesTaken _ ih => exact ih.takeAccruedFees

inductive SwapFails (p : Pool) (direction : Direction) (amountIn : Amount) (fees : FeeSettings) :
    Fault → Prop
  | unissued (h : p.totalShares = 0) : SwapFails p direction amountIn fees .poolNotInitialized
  | overfull (hlive : p.isInitialized = true)
      (h : 2 ^ 128 ≤ (p.reserveIn direction).toNat +
          netIn amountIn.toNat fees.protocolFeePpt.toNat ∨
        2 ^ 128 ≤ (p.accruedIn direction).toNat +
          amountIn.toNat * fees.protocolFeePpt.toNat / 1000) :
      SwapFails p direction amountIn fees .reserveOverflow

variable {direction : Direction} {amountIn : Amount} {fees : FeeSettings}

theorem swapFails_of_error (h : p.Coherent) (hamount : amountIn ≠ 0)
    (hfees : fees.validate = .ok ())
    (hrun : (swap direction amountIn fees).run p = .error fault p') :
    p.SwapFails direction amountIn fees fault := by
  obtain ⟨hbps, hppt⟩ := FeeSettings.validate_eq_ok hfees
  obtain ⟨-, ⟨hempty, rfl⟩ | ⟨hlive, hrun⟩⟩ := swap_eq_error_iff.1 hrun
  · exact .unissued hempty
  rcases hrun with hquote | ⟨q, hquote, hadd⟩
  · cases quoteSwap_eq_error hquote with
    | unreserved hpool => exact absurd hpool (not_or.2 (h.reserves_ne_zero hlive direction))
    | nothing _ hzero => exact absurd hzero hamount
    | fees _ _ hrange => omega
    | overfull _ _ _ hfull => exact .overfull (isInitialized_iff.2 hlive) (.inl hfull)
  · obtain ⟨hfull, rfl⟩ := addAmounts_eq_error.1 hadd
    rw [(quoteSwap_eq_ok hquote).fee_eq] at hfull
    exact .overfull (isInitialized_iff.2 hlive) (.inr hfull)

theorem not_swapFails_of_ok {q : SwapQuote}
    (hrun : (swap direction amountIn fees).run p = .ok q p') :
    ¬ p.SwapFails direction amountIn fees fault := by
  obtain ⟨hlive, hquote, accrued, haccrued, -⟩ := swap_eq_ok_iff.1 hrun
  have hprices := quoteSwap_eq_ok hquote
  have hin := hprices.in_eq
  have hfees := addAmounts_eq_ok haccrued
  rw [hprices.net_eq] at hin
  rw [hprices.fee_eq] at hfees
  have hlt := q.reserveIn.isLt
  have hlt' := accrued.isLt
  intro hfails
  cases hfails with
  | unissued hempty => exact hlive hempty
  | overfull _ hfull => omega

theorem SwapFails.unique {fault' : Fault} (h : p.SwapFails direction amountIn fees fault)
    (h' : p.SwapFails direction amountIn fees fault') : fault = fault' := by
  cases h with
  | unissued hempty =>
    cases h' with
    | unissued => rfl
    | overfull hlive => exact absurd hempty (isInitialized_iff.1 hlive)
  | overfull hlive =>
    cases h' with
    | unissued hempty => exact absurd hempty (isInitialized_iff.1 hlive)
    | overfull => rfl

theorem Coherent.swap_fault_iff (h : p.Coherent) (hamount : amountIn ≠ 0)
    (hfees : fees.validate = .ok ()) :
    fault? ((Pool.swap direction amountIn fees).run p) = some fault ↔
      p.SwapFails direction amountIn fees fault :=
  fault?_eq_some_iff (fun _ _ hrun => swapFails_of_error h hamount hfees hrun)
    (fun _ _ hrun _ => not_swapFails_of_ok hrun) (fun _ _ => SwapFails.unique)

inductive BurnFails (p : Pool) (owner : Address) (shares : Amount) : Fault → Prop
  | insufficient (h : p.sharesOf owner < shares) :
      BurnFails p owner shares (.insufficientShares owner (p.sharesOf owner) shares)
  | nothing (h : shares = 0) : BurnFails p owner shares .zeroAmount

variable {owner : Address} {shares : Amount}

theorem burnFails_of_error (h : p.Coherent)
    (hrun : (removeLiquidity owner shares).run p = .error fault p') :
    p.BurnFails owner shares fault := by
  rcases (removeLiquidity_eq_error hrun).2 with ⟨hmore, rfl⟩ | ⟨hle, hquote⟩
  · exact .insufficient hmore
  · have htotal := hle.trans (h.sharesOf_le owner)
    cases quoteBurn_eq_error hquote with
    | nothing hzero => exact .nothing hzero
    | unissued hshares hzero =>
      rw [hzero] at htotal
      exact absurd (Nat.le_zero.1 htotal) (toNat_ne_zero hshares)
    | excessive _ _ hmore => exact absurd hmore (Nat.not_lt.2 htotal)

theorem not_burnFails_of_ok {q : BurnQuote}
    (hrun : (removeLiquidity owner shares).run p = .ok q p') :
    ¬ p.BurnFails owner shares fault := by
  obtain ⟨hreleases, hburned⟩ := removeLiquidity_eq_ok hrun
  intro hfails
  cases hfails with
  | insufficient hmore => exact absurd hmore (Nat.not_lt.2 hburned.available)
  | nothing hzero => exact hreleases.shares_ne (toNat_eq_zero.1 hzero)

theorem BurnFails.unique {fault' : Fault} (h : p.BurnFails owner shares fault)
    (h' : p.BurnFails owner shares fault') : fault = fault' := by
  have hnone (hmore : p.sharesOf owner < shares) (hzero : shares = 0) : False := by
    subst hzero
    exact absurd hmore (Nat.not_lt_zero _)
  cases h with
  | insufficient hmore =>
    cases h' with
    | insufficient => rfl
    | nothing hzero => exact (hnone hmore hzero).elim
  | nothing hzero =>
    cases h' with
    | insufficient hmore => exact (hnone hmore hzero).elim
    | nothing => rfl

theorem Coherent.removeLiquidity_fault_iff (h : p.Coherent) :
    fault? ((Pool.removeLiquidity owner shares).run p) = some fault ↔
      p.BurnFails owner shares fault :=
  fault?_eq_some_iff (fun _ _ hrun => burnFails_of_error h hrun)
    (fun _ _ hrun _ => not_burnFails_of_ok hrun) (fun _ _ => BurnFails.unique)

inductive DepositFails (p : Pool) (max0 max1 : Amount) : Fault → Prop
  | nothing (h : max0 = 0 ∨ max1 = 0) : DepositFails p max0 max1 .zeroAmount
  | unaffordable (hmax : ¬ (max0 = 0 ∨ max1 = 0)) (hlive : p.isInitialized = true)
      (h : ∀ shares, 0 < shares →
        ¬ Affordable p.reserve0 p.reserve1 p.totalShares max0 max1 shares) :
      DepositFails p max0 max1 .insufficientLiquidityMinted
  | overfull {q : MintQuote}
      (hquote : quoteMint p.reserve0 p.reserve1 p.totalShares max0 max1 = .ok q)
      (h : 2 ^ 128 ≤ p.reserve0.toNat + q.amount0.toNat ∨
        2 ^ 128 ≤ p.reserve1.toNat + q.amount1.toNat) : DepositFails p max0 max1 .reserveOverflow

variable {recipient : Address} {max0 max1 : Amount} {q : MintQuote}

theorem Coherent.mostShares_sq_le (h : p.Coherent) (hlive : p.totalShares ≠ 0)
    (max0 max1 : Amount) :
    mostShares p.reserve0 p.reserve1 p.totalShares max0 max1 ^ 2 ≤ max0.toNat * max1.toNat :=
  min_div_sq_le (Nat.pos_of_ne_zero (toNat_ne_zero hlive)) h.backed

theorem Coherent.mostShares_lt (h : p.Coherent) (hlive : p.totalShares ≠ 0) (max0 max1 : Amount) :
    mostShares p.reserve0 p.reserve1 p.totalShares max0 max1 < 2 ^ 128 :=
  lt_of_sq_le_mul (h.mostShares_sq_le hlive max0 max1) max0.isLt max1.isLt

theorem Coherent.shares_fit (h : p.Coherent)
    (hquote : quoteMint p.reserve0 p.reserve1 p.totalShares max0 max1 = .ok q)
    (h0 : p.reserve0.toNat + q.amount0.toNat < 2 ^ 128)
    (h1 : p.reserve1.toNat + q.amount1.toNat < 2 ^ 128) (recipient : Address) :
    p.totalShares.toNat + q.shares.toNat < 2 ^ 128 ∧
      (p.sharesOf recipient).toNat + q.shares.toNat < 2 ^ 128 := by
  have htotal := lt_of_sq_le_mul (h.backed_of_quoteMint hquote) h0 h1
  have howned := h.sharesOf_le recipient
  exact ⟨htotal, by omega⟩

theorem Coherent.shares_le_sqrt (h : p.Coherent)
    (hquote : quoteMint p.reserve0 p.reserve1 p.totalShares max0 max1 = .ok q) :
    q.shares.toNat ≤ (max0.toNat * max1.toNat).sqrt := by
  obtain ⟨-, -, -, ⟨-, hseeds⟩ | ⟨htotal, hextends⟩⟩ := quoteMint_eq_ok hquote
  · exact hseeds.shares_eq.le
  · have hlive : p.totalShares ≠ 0 := fun hzero => htotal (toNat_eq_zero.1 hzero)
    rw [Nat.le_sqrt', hextends.shares_eq]
    exact h.mostShares_sq_le hlive max0 max1

theorem Coherent.exists_narrow (h : p.Coherent) {by0 by1 : Word}
    (hby0 : mulDivDown max0 p.totalShares p.reserve0 = .ok by0)
    (hby1 : mulDivDown max1 p.totalShares p.reserve1 = .ok by1) :
    ∃ shares, narrow (if by0 ≤ by1 then by0 else by1) = .ok shares := by
  obtain ⟨hne, h0⟩ := mulDivDown_eq_ok hby0
  have hlive : p.totalShares ≠ 0 := fun hzero => hne (h.empty0.1 hzero)
  have hlt := h.mostShares_lt hlive max0 max1
  rw [mostShares, ← h0, ← (mulDivDown_eq_ok hby1).2, ← toNat_min_word] at hlt
  exact ⟨_, if_pos hlt⟩

theorem depositFails_of_quote (h : p.Coherent)
    (hquote : quoteMint p.reserve0 p.reserve1 p.totalShares max0 max1 = .error fault) :
    p.DepositFails max0 max1 fault := by
  have hpool (hlive : p.totalShares ≠ 0) := h.reserves_ne_zero hlive .zeroForOne
  cases quoteMint_eq_error hquote with
  | nothing hmax => exact .nothing hmax
  | unreserved _ hlive hempty => exact absurd hempty (not_or.2 (hpool hlive))
  | excessive _ hlive _ hmany =>
    have hlt := h.mostShares_lt hlive max0 max1
    omega
  | unaffordable hmax hlive _ hnone =>
    exact .unaffordable hmax (isInitialized_iff.2 hlive)
      ((mostShares_eq_zero_iff (hpool hlive).1 (hpool hlive).2 hlive).1 hnone)

theorem depositFails_of_error (h : p.Coherent)
    (hrun : (addLiquidity recipient max0 max1).run p = .error fault p') :
    p.DepositFails max0 max1 fault := by
  rcases (addLiquidity_eq_error hrun).2 with hquote | ⟨q, hquote, rfl, hfull⟩
  · exact depositFails_of_quote h hquote
  · refine .overfull hquote ?_
    by_contra hfits
    obtain ⟨hfits0, hfits1⟩ := not_or.1 hfits
    obtain ⟨htotal, howned⟩ :=
      h.shares_fit hquote (Nat.not_le.1 hfits0) (Nat.not_le.1 hfits1) recipient
    cases hfull <;> omega

theorem DepositFails.quoted (hfails : p.DepositFails max0 max1 fault) (h : p.Coherent) :
    quoteMint p.reserve0 p.reserve1 p.totalShares max0 max1 = .error fault ∨
      ∃ q, quoteMint p.reserve0 p.reserve1 p.totalShares max0 max1 = .ok q ∧
        fault = .reserveOverflow ∧
        (2 ^ 128 ≤ p.reserve0.toNat + q.amount0.toNat ∨
          2 ^ 128 ≤ p.reserve1.toNat + q.amount1.toNat) := by
  cases hfails with
  | nothing hmax => exact .inl (quoteMint_eq_error_iff.2 (.nothing hmax))
  | unaffordable hmax hinit hnone =>
    have hlive := isInitialized_iff.1 hinit
    obtain ⟨h0, h1⟩ := h.reserves_ne_zero hlive .zeroForOne
    exact .inl (quoteMint_eq_error_iff.2 (.unaffordable hmax hlive (not_or.2 ⟨h0, h1⟩)
      ((mostShares_eq_zero_iff h0 h1 hlive).2 hnone)))
  | overfull hquote hfull => exact .inr ⟨_, hquote, rfl, hfull⟩

theorem not_depositFails_of_ok (h : p.Coherent)
    (hrun : (addLiquidity recipient max0 max1).run p = .ok q p') :
    ¬ p.DepositFails max0 max1 fault := by
  obtain ⟨hquote, hminted⟩ := addLiquidity_eq_ok hrun
  intro hfails
  rcases hfails.quoted h with hquote' | ⟨q', hquote', -, hfull⟩
  · cases hquote.symm.trans hquote'
  · cases hquote.symm.trans hquote'
    have h0 := hminted.reserve0
    have h1 := hminted.reserve1
    have hlt0 := p'.reserve0.isLt
    have hlt1 := p'.reserve1.isLt
    omega

theorem DepositFails.unique {fault' : Fault} (hfails : p.DepositFails max0 max1 fault)
    (hfails' : p.DepositFails max0 max1 fault') (h : p.Coherent) : fault = fault' := by
  rcases hfails.quoted h with hquote | ⟨_, hquote, rfl, -⟩
  · rcases hfails'.quoted h with hquote' | ⟨_, hquote', -, -⟩
    · cases hquote.symm.trans hquote'
      rfl
    · cases hquote.symm.trans hquote'
  · rcases hfails'.quoted h with hquote' | ⟨_, -, rfl, -⟩
    · cases hquote.symm.trans hquote'
    · rfl

theorem Coherent.addLiquidity_fault_iff (h : p.Coherent) :
    fault? ((Pool.addLiquidity recipient max0 max1).run p) = some fault ↔
      p.DepositFails max0 max1 fault :=
  fault?_eq_some_iff (fun _ _ hrun => depositFails_of_error h hrun)
    (fun _ _ hrun _ => not_depositFails_of_ok h hrun) (fun _ _ hfails hfails' =>
      hfails.unique hfails' h)

/-- When the calls on a pool that came about by calls fail, and with which faults. A deposit mints
no more than the geometric mean of its maxima. Narrowing the count of shares that it mints never
fails, nor does adding these shares to the others. -/
theorem failures_of_reached (h : p.Reached) :
    (∀ recipient max0 max1 fault,
      fault? ((addLiquidity recipient max0 max1).run p) = some fault ↔
        p.DepositFails max0 max1 fault) ∧
    (∀ recipient max0 max1 q p', (addLiquidity recipient max0 max1).run p = .ok q p' →
      q.shares.toNat ≤ (max0.toNat * max1.toNat).sqrt) ∧
    (∀ max0 max1 by0 by1, mulDivDown max0 p.totalShares p.reserve0 = .ok by0 →
      mulDivDown max1 p.totalShares p.reserve1 = .ok by1 →
      ∃ shares, narrow (if by0 ≤ by1 then by0 else by1) = .ok shares) ∧
    (∀ recipient max0 max1 q reserve0 reserve1,
      quoteMint p.reserve0 p.reserve1 p.totalShares max0 max1 = .ok q →
      addAmounts p.reserve0 q.amount0 = .ok reserve0 →
      addAmounts p.reserve1 q.amount1 = .ok reserve1 →
      (∃ total, addAmounts p.totalShares q.shares = .ok total) ∧
        ∃ owned, addAmounts (p.sharesOf recipient) q.shares = .ok owned) ∧
    (∀ owner shares fault,
      fault? ((removeLiquidity owner shares).run p) = some fault ↔
        p.BurnFails owner shares fault) ∧
    (∀ direction amountIn fees fault, amountIn ≠ 0 → fees.validate = .ok () →
      (fault? ((swap direction amountIn fees).run p) = some fault ↔
        p.SwapFails direction amountIn fees fault)) := by
  have hcoherent := h.coherent
  refine ⟨?_, ?_, ?_, ?_, ?_, ?_⟩
  · intro recipient max0 max1 fault
    exact hcoherent.addLiquidity_fault_iff
  · intro recipient max0 max1 q p' hrun
    exact hcoherent.shares_le_sqrt (addLiquidity_eq_ok hrun).1
  · intro max0 max1 by0 by1 hby0 hby1
    exact hcoherent.exists_narrow hby0 hby1
  · intro recipient max0 max1 q reserve0 reserve1 hquote h0 h1
    obtain ⟨htotal, howned⟩ := hcoherent.shares_fit hquote
      (addAmounts_eq_ok h0 ▸ reserve0.isLt) (addAmounts_eq_ok h1 ▸ reserve1.isLt) recipient
    exact ⟨⟨_, if_pos htotal⟩, _, if_pos howned⟩
  · intro owner shares fault
    exact hcoherent.removeLiquidity_fault_iff
  · intro direction amountIn fees fault hamount hfees
    exact hcoherent.swap_fault_iff hamount hfees

def founded : Pool := finalState ((Trade.addLiquidity 7 1 1).make.run (fresh ⟨1, 2⟩))

theorem failures_of_reached_founded :
    founded.Reached ∧
      fault? ((addLiquidity 8 Amount.max Amount.max).run founded) = some .reserveOverflow ∧
      fault? ((removeLiquidity 7 2).run founded) = some (.insufficientShares 7 1 2) ∧
      fault? ((swap .oneForZero Amount.max .standard).run founded) = some .reserveOverflow := by
  have hreached : founded.Reached := (Reached.fresh ⟨1, 2⟩).traded (.addLiquidity 7 1 1)
  obtain ⟨hdeposit, -, -, -, hburn, hswap⟩ := failures_of_reached hreached
  have hquote : quoteMint founded.reserve0 founded.reserve1 founded.totalShares Amount.max
      Amount.max = .ok ⟨Amount.max, Amount.max, Amount.max⟩ := by decide +kernel
  refine ⟨hreached, ?_, ?_, ?_⟩
  · exact (hdeposit _ _ _ _).2 (.overfull hquote (.inl (by decide +kernel)))
  · exact (hburn _ _ _).2 (.insufficient (by decide +kernel))
  · exact (hswap _ _ _ _ (by decide) (by decide)).2
      (.overfull (by decide +kernel) (.inl (by decide +kernel)))

end Pool

end NetSettle
