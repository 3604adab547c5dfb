import NetSettle.Pool.Quote
import NetSettle.Proofs.Arithmetic

/-!
# What the quotes promise

The terms of a swap, a deposit and a burning in exact numbers, and the faults with which each is
refused. Every rounding favours the pool, so the product of the reserves never falls by a swap, and
a deposit and a burning leave each share at least the part of both reserves that it had.
-/
namespace NetSettle

theorem toNat_ofUInt16 (x : UInt16) : (BitVec.ofNat 128 x.toNat).toNat = x.toNat := by
  have hx := x.toNat_lt
  rw [BitVec.toNat_ofNat]
  exact Nat.mod_eq_of_lt (by omega)

theorem toNat_ne_zero {a : Amount} (h : a ≠ 0) : a.toNat ≠ 0 :=
  fun h0 => h (BitVec.eq_of_toNat_eq h0)

def netIn (amountIn ppt : Nat) : Nat := amountIn - amountIn * ppt / 1000

def effectiveIn (net feeBps : Nat) : Nat := net * (10000 - feeBps) / 10000

/-- The terms of a swap that was quoted. -/
structure SwapQuote.Prices (q : SwapQuote) (reserveIn reserveOut amountIn : Amount)
    (feeBps ppt : UInt16) : Prop where
  reserveIn_ne : reserveIn.toNat ≠ 0
  reserveOut_ne : reserveOut.toNat ≠ 0
  amountIn_ne : amountIn.toNat ≠ 0
  amountIn_eq : q.amountIn = amountIn
  fee_eq : q.protocolFee.toNat = amountIn.toNat * ppt.toNat / 1000
  fee_le : q.protocolFee.toNat ≤ amountIn.toNat
  in_eq : q.reserveIn.toNat = reserveIn.toNat + (amountIn.toNat - q.protocolFee.toNat)
  out_eq : q.reserveOut.toNat = reserveIn.toNat * reserveOut.toNat ⌈/⌉
    (reserveIn.toNat + effectiveIn (amountIn.toNat - q.protocolFee.toNat) feeBps.toNat)
  paid_eq : q.amountOut.toNat + q.reserveOut.toNat = reserveOut.toNat

theorem effectiveIn_le (net feeBps : Nat) : effectiveIn net feeBps ≤ net :=
  Nat.div_le_of_le_mul (by
    rw [Nat.mul_comm]
    exact Nat.mul_le_mul_right _ (Nat.sub_le _ _))

theorem ceilDiv_le_right {r o e : Nat} (hr : 0 < r) : r * o ⌈/⌉ (r + e) ≤ o := by
  rw [ceilDiv_le_iff_le_mul (by omega)]
  exact Nat.mul_le_mul_right _ (Nat.le_add_right _ _)

theorem skim_le {ppt : Nat} (amountIn : Nat) (h : ppt < 1000) : amountIn * ppt / 1000 ≤ amountIn :=
  Nat.div_le_of_le_mul (by nlinarith)

/-- What the steps of a swap compute on their way to the new reserves. Nothing wraps. -/
structure SwapSteps (reserveIn amountIn : Amount) (feeBps ppt : UInt16) (skim : Amount)
    (effective : Word) : Prop where
  skim_eq : skim.toNat = amountIn.toNat * ppt.toNat / 1000
  skim_le : skim.toNat ≤ amountIn.toNat
  net_eq : (amountIn - skim).toNat = netIn amountIn.toNat ppt.toNat
  effective_eq : effective.toNat = effectiveIn (netIn amountIn.toNat ppt.toNat) feeBps.toNat
  divisor_eq : (Amount.widen reserveIn + effective).toNat =
    reserveIn.toNat + effectiveIn (netIn amountIn.toNat ppt.toNat) feeBps.toNat

theorem swapSteps_of_ok {reserveIn amountIn skim : Amount} {feeBps ppt : UInt16}
    {w₁ effective : Word} (hbps : feeBps.toNat < 10000) (hppt : ppt.toNat < 1000)
    (hw₁ : mulDivDown amountIn (BitVec.ofNat 128 ppt.toNat) pptScale = .ok w₁)
    (hskim : narrow w₁ = .ok skim)
    (heff : mulDivDown (amountIn - skim) (bpsScale - BitVec.ofNat 128 feeBps.toNat) bpsScale =
      .ok effective) : SwapSteps reserveIn amountIn feeBps ppt skim effective := by
  have hskim' : skim.toNat = amountIn.toNat * ppt.toNat / 1000 := by
    rw [narrow_eq_ok hskim, (mulDivDown_eq_ok hw₁).2, toNat_ofUInt16]
    rfl
  have hle : skim.toNat ≤ amountIn.toNat := by
    rw [hskim']
    exact NetSettle.skim_le _ hppt
  have hnet : (amountIn - skim).toNat = netIn amountIn.toNat ppt.toNat := by
    rw [BitVec.toNat_sub_of_le hle, hskim', netIn]
  have hscale : (bpsScale - BitVec.ofNat 128 feeBps.toNat).toNat = 10000 - feeBps.toNat := by
    have hfee : (BitVec.ofNat 128 feeBps.toNat).toNat ≤ bpsScale.toNat := by
      rw [toNat_ofUInt16]
      change feeBps.toNat ≤ 10000
      omega
    rw [BitVec.toNat_sub_of_le hfee, toNat_ofUInt16]
    rfl
  have heff' : effective.toNat = effectiveIn (netIn amountIn.toNat ppt.toNat) feeBps.toNat := by
    rw [(mulDivDown_eq_ok heff).2, hnet, hscale]
    rfl
  refine ⟨hskim', hle, hnet, heff', ?_⟩
  have heffle := effectiveIn_le (netIn amountIn.toNat ppt.toNat) feeBps.toNat
  have hnetle : netIn amountIn.toNat ppt.toNat ≤ amountIn.toNat := Nat.sub_le _ _
  have h₁ := reserveIn.isLt
  have h₂ := amountIn.isLt
  rw [BitVec.toNat_add, Amount.toNat_widen, heff', Nat.mod_eq_of_lt (by omega)]

theorem quoteSwap_eq_ok {reserveIn reserveOut amountIn : Amount} {feeBps ppt : UInt16}
    {q : SwapQuote} (h : quoteSwap reserveIn reserveOut amountIn feeBps ppt = .ok q) :
    q.Prices reserveIn reserveOut amountIn feeBps ppt := by
  unfold quoteSwap at h
  simp only [Faulting.guard_eq_ok, Faulting.bind_eq_ok, Faulting.pure_eq_ok, not_or] at h
  obtain ⟨⟨hin, hout⟩, hamount, ⟨hbps, hppt⟩, w₁, hw₁, skim, hskim, effective, heff, newIn, hnewIn,
    w₂, hw₂, newOut, hnewOut, rfl⟩ := h
  have hin' := toNat_ne_zero hin
  have hsteps : SwapSteps reserveIn amountIn feeBps ppt skim effective :=
    swapSteps_of_ok (by omega) (by omega) hw₁ hskim heff
  have hnet : netIn amountIn.toNat ppt.toNat = amountIn.toNat - skim.toNat := by
    rw [netIn, hsteps.skim_eq]
  have hnewOut' : newOut.toNat = reserveIn.toNat * reserveOut.toNat ⌈/⌉
      (reserveIn.toNat + effectiveIn (amountIn.toNat - skim.toNat) feeBps.toNat) := by
    rw [narrow_eq_ok hnewOut, (divUp_eq_ok hw₂).2, toNat_widen_mul, hsteps.divisor_eq, hnet]
  have hle : newOut.toNat ≤ reserveOut.toNat := by
    rw [hnewOut']
    exact ceilDiv_le_right (by omega)
  exact {
    reserveIn_ne := hin'
    reserveOut_ne := toNat_ne_zero hout
    amountIn_ne := toNat_ne_zero hamount
    amountIn_eq := rfl
    fee_eq := hsteps.skim_eq
    fee_le := hsteps.skim_le
    in_eq := (addAmounts_eq_ok hnewIn).trans (by rw [hsteps.net_eq, hnet])
    out_eq := hnewOut'
    paid_eq := by
      change (reserveOut - newOut).toNat + newOut.toNat = _
      rw [BitVec.toNat_sub_of_le hle]
      omega }

/-- Why a swap is not quoted. The checks are made in this order, and the last is the only one that
depends on how large the numbers are. -/
inductive SwapQuote.Refused (reserveIn reserveOut amountIn : Amount) (feeBps ppt : UInt16) :
    Fault → Prop
  | unreserved (h : reserveIn = 0 ∨ reserveOut = 0) :
      Refused reserveIn reserveOut amountIn feeBps ppt .poolNotInitialized
  | nothing (hpool : ¬ (reserveIn = 0 ∨ reserveOut = 0)) (h : amountIn = 0) :
      Refused reserveIn reserveOut amountIn feeBps ppt .zeroAmount
  | fees (hpool : ¬ (reserveIn = 0 ∨ reserveOut = 0)) (hamount : ¬ amountIn = 0)
      (h : feeBps.toNat ≥ 10000 ∨ ppt.toNat ≥ 1000) :
      Refused reserveIn reserveOut amountIn feeBps ppt (.invalidFeeSettings .outOfRange)
  | overfull (hpool : ¬ (reserveIn = 0 ∨ reserveOut = 0)) (hamount : ¬ amountIn = 0)
      (hfees : ¬ (feeBps.toNat ≥ 10000 ∨ ppt.toNat ≥ 1000))
      (h : 2 ^ 128 ≤ reserveIn.toNat + netIn amountIn.toNat ppt.toNat) :
      Refused reserveIn reserveOut amountIn feeBps ppt .reserveOverflow

theorem quoteSwap_eq_error {reserveIn reserveOut amountIn : Amount} {feeBps ppt : UInt16}
    {fault : Fault} (h : quoteSwap reserveIn reserveOut amountIn feeBps ppt = .error fault) :
    SwapQuote.Refused reserveIn reserveOut amountIn feeBps ppt fault := by
  unfold quoteSwap at h
  rw [Faulting.guard_eq_error] at h
  rcases h with ⟨hpool, rfl⟩ | ⟨hpool, h⟩
  · exact .unreserved hpool
  rw [Faulting.guard_eq_error] at h
  rcases h with ⟨hamount, rfl⟩ | ⟨hamount, h⟩
  · exact .nothing hpool hamount
  rw [Faulting.guard_eq_error] at h
  rcases h with ⟨hfees, rfl⟩ | ⟨hfees, h⟩
  · exact .fees hpool hamount hfees
  have hin := toNat_ne_zero (not_or.1 hpool).1
  simp only [Faulting.bind_eq_error, Faulting.pure_eq_error, and_false, exists_false, or_false] at h
  rcases h with h | ⟨w₁, hw₁, h | ⟨skim, hskim, h | ⟨effective, heff, h⟩⟩⟩
  · exact absurd (mulDivDown_eq_error.1 h).1 (by decide)
  · -- The protocol's part is no more than the input.
    have hwide := (narrow_eq_error.1 h).1
    have hle : w₁.toNat ≤ amountIn.toNat := by
      rw [(mulDivDown_eq_ok hw₁).2, toNat_ofUInt16]
      exact skim_le _ (by omega)
    have hlt := amountIn.isLt
    omega
  · exact absurd (mulDivDown_eq_error.1 h).1 (by decide)
  have hsteps : SwapSteps reserveIn amountIn feeBps ppt skim effective :=
    swapSteps_of_ok (by omega) (by omega) hw₁ hskim heff
  rcases h with h | ⟨newIn, -, h | ⟨w₂, hw₂, h⟩⟩
  · obtain ⟨hfull, rfl⟩ := addAmounts_eq_error.1 h
    rw [hsteps.net_eq] at hfull
    exact .overfull hpool hamount hfees hfull
  · -- The divisor is the input reserve and something more.
    have hzero := congrArg BitVec.toNat (divUp_eq_error.1 h).1
    rw [hsteps.divisor_eq] at hzero
    exact absurd (Nat.eq_zero_of_add_eq_zero_right hzero) hin
  · -- The new output reserve is no more than the old one.
    have hwide := (narrow_eq_error.1 h).1
    have hle : w₂.toNat ≤ reserveOut.toNat := by
      rw [(divUp_eq_ok hw₂).2, toNat_widen_mul, hsteps.divisor_eq]
      exact ceilDiv_le_right (by omega)
    have hlt := reserveOut.isLt
    omega

theorem quoteSwap_eq_error_iff {reserveIn reserveOut amountIn : Amount} {feeBps ppt : UInt16}
    {fault : Fault} : quoteSwap reserveIn reserveOut amountIn feeBps ppt = .error fault ↔
      SwapQuote.Refused reserveIn reserveOut amountIn feeBps ppt fault := by
  refine ⟨quoteSwap_eq_error, fun h => ?_⟩
  cases h with
  | unreserved h =>
    rw [quoteSwap, if_pos h]
    rfl
  | nothing hpool h =>
    rw [quoteSwap, if_neg hpool, if_pos h]
    rfl
  | fees hpool hamount h =>
    rw [quoteSwap, if_neg hpool, if_neg hamount, if_pos h]
    rfl
  | overfull hpool hamount hfees hfull =>
    cases hrun : quoteSwap reserveIn reserveOut amountIn feeBps ppt with
    | ok q =>
      have hprices := quoteSwap_eq_ok hrun
      have hin := hprices.in_eq
      rw [hprices.fee_eq] at hin
      have hlt := q.reserveIn.isLt
      rw [netIn] at hfull
      omega
    | error fault =>
      cases quoteSwap_eq_error hrun with
      | unreserved h => exact absurd h hpool
      | nothing _ h => exact absurd h hamount
      | fees _ _ h => exact absurd h hfees
      | overfull => rfl

theorem SwapQuote.Prices.net_eq {q : SwapQuote} {reserveIn reserveOut amountIn : Amount}
    {feeBps ppt : UInt16} (h : q.Prices reserveIn reserveOut amountIn feeBps ppt) :
    amountIn.toNat - q.protocolFee.toNat = netIn amountIn.toNat ppt.toNat := by
  rw [h.fee_eq, netIn]

theorem SwapQuote.Prices.in_le {q : SwapQuote} {reserveIn reserveOut amountIn : Amount}
    {feeBps ppt : UInt16} (h : q.Prices reserveIn reserveOut amountIn feeBps ppt) :
    q.reserveIn.toNat ≤ reserveIn.toNat + q.amountIn.toNat := by
  rw [h.in_eq, h.amountIn_eq]
  exact Nat.add_le_add_left (Nat.sub_le _ _) _

theorem SwapQuote.Prices.gain_in {q : SwapQuote} {reserveIn reserveOut amountIn : Amount}
    {feeBps ppt : UInt16} (h : q.Prices reserveIn reserveOut amountIn feeBps ppt)
    {fees accrued : Amount} (haccrued : accrued.toNat = fees.toNat + q.protocolFee.toNat) :
    (q.reserveIn.toNat + accrued.toNat : Int) =
      reserveIn.toNat + fees.toNat + q.amountIn.toNat := by
  have hin := h.in_eq
  have hfee := h.fee_le
  rw [h.amountIn_eq]
  omega

theorem SwapQuote.Prices.gain_out {q : SwapQuote} {reserveIn reserveOut amountIn : Amount}
    {feeBps ppt : UInt16} (h : q.Prices reserveIn reserveOut amountIn feeBps ppt) (fees : Amount) :
    (q.reserveOut.toNat + fees.toNat : Int) =
      reserveOut.toNat + fees.toNat + -q.amountOut.toNat := by
  have hpaid := h.paid_eq
  omega

theorem SwapQuote.Prices.product_le {q : SwapQuote} {reserveIn reserveOut amountIn : Amount}
    {feeBps ppt : UInt16} (h : q.Prices reserveIn reserveOut amountIn feeBps ppt) :
    reserveIn.toNat * reserveOut.toNat ≤ q.reserveIn.toNat * q.reserveOut.toNat := by
  have hpos := Nat.pos_of_ne_zero h.reserveIn_ne
  have hceil : reserveIn.toNat * reserveOut.toNat ≤
      (reserveIn.toNat + effectiveIn (amountIn.toNat - q.protocolFee.toNat) feeBps.toNat) *
        q.reserveOut.toNat := by
    rw [h.out_eq]
    exact (ceilDiv_le_iff_le_mul (by omega)).1 le_rfl
  refine hceil.trans (Nat.mul_le_mul_right _ ?_)
  rw [h.in_eq]
  exact Nat.add_le_add_left (effectiveIn_le _ _) _

structure MintQuote.Seeds (q : MintQuote) (max0 max1 : Amount) : Prop where
  shares_eq : q.shares.toNat = (max0.toNat * max1.toNat).sqrt
  amount0_eq : q.amount0 = max0
  amount1_eq : q.amount1 = max1

/-- The terms of a later deposit: as many shares as both maxima allow, at their price. -/
structure MintQuote.Extends (q : MintQuote) (reserve0 reserve1 total max0 max1 : Amount) :
    Prop where
  reserve0_ne : reserve0.toNat ≠ 0
  reserve1_ne : reserve1.toNat ≠ 0
  shares_eq : q.shares.toNat = min (max0.toNat * total.toNat / reserve0.toNat)
    (max1.toNat * total.toNat / reserve1.toNat)
  amount0_eq : q.amount0.toNat = q.shares.toNat * reserve0.toNat ⌈/⌉ total.toNat
  amount1_eq : q.amount1.toNat = q.shares.toNat * reserve1.toNat ⌈/⌉ total.toNat

theorem toNat_min_word (a b : Word) : (if a ≤ b then a else b).toNat = min a.toNat b.toNat := by
  split
  · rename_i h
    exact (min_eq_left h).symm
  · rename_i h
    exact (min_eq_right (Nat.le_of_lt (Nat.not_le.1 h))).symm

theorem quoteMint_eq_ok {reserve0 reserve1 total max0 max1 : Amount} {q : MintQuote}
    (h : quoteMint reserve0 reserve1 total max0 max1 = .ok q) :
    max0.toNat ≠ 0 ∧ max1.toNat ≠ 0 ∧ q.shares.toNat ≠ 0 ∧
      (total = 0 ∧ q.Seeds max0 max1 ∨
        total.toNat ≠ 0 ∧ q.Extends reserve0 reserve1 total max0 max1) := by
  unfold quoteMint at h
  rw [Faulting.guard_eq_ok, not_or] at h
  obtain ⟨⟨h0, h1⟩, h⟩ := h
  refine ⟨toNat_ne_zero h0, toNat_ne_zero h1, ?_⟩
  split at h
  · rename_i htotal
    simp only [Faulting.guard_eq_ok, Faulting.bind_eq_ok, Faulting.pure_eq_ok] at h
    obtain ⟨shares, hshares, hne, rfl⟩ := h
    refine ⟨toNat_ne_zero hne, Or.inl ⟨htotal, ?_, rfl, rfl⟩⟩
    rw [narrow_eq_ok hshares, toNat_sqrt, toNat_widen_mul]
  · rename_i htotal
    simp only [Faulting.guard_eq_ok, Faulting.bind_eq_ok, Faulting.pure_eq_ok, not_or] at h
    obtain ⟨⟨hr0, hr1⟩, by0, hby0, by1, hby1, shares, hshares, hne, w0, hw0, amount0, hamount0,
      w1, hw1, amount1, hamount1, rfl⟩ := h
    refine ⟨toNat_ne_zero hne, Or.inr ⟨toNat_ne_zero htotal, ?_⟩⟩
    exact {
      reserve0_ne := toNat_ne_zero hr0
      reserve1_ne := toNat_ne_zero hr1
      shares_eq := by
        rw [narrow_eq_ok hshares, toNat_min_word, (mulDivDown_eq_ok hby0).2,
          (mulDivDown_eq_ok hby1).2]
      amount0_eq := by rw [narrow_eq_ok hamount0, (mulDivUp_eq_ok hw0).2]
      amount1_eq := by rw [narrow_eq_ok hamount1, (mulDivUp_eq_ok hw1).2] }

def mostShares (reserve0 reserve1 total max0 max1 : Amount) : Nat :=
  min (max0.toNat * total.toNat / reserve0.toNat) (max1.toNat * total.toNat / reserve1.toNat)

theorem ceilDiv_le_of_le_div {shares max reserve total : Nat} (htotal : 0 < total)
    (h : shares ≤ max * total / reserve) : shares * reserve ⌈/⌉ total ≤ max := by
  rw [ceilDiv_le_iff_le_mul htotal, Nat.mul_comm total]
  exact (Nat.mul_le_mul_right _ h).trans (Nat.div_mul_le_self _ _)

theorem sqrt_mul_lt (a b : Amount) : (a.toNat * b.toNat).sqrt < 2 ^ 128 :=
  Nat.sqrt_lt.2 (Nat.mul_lt_mul'' a.isLt b.isLt)

theorem sqrt_mul_pos {a b : Amount} (ha : a ≠ 0) (hb : b ≠ 0) : 0 < (a.toNat * b.toNat).sqrt :=
  Nat.sqrt_pos.2 (Nat.mul_pos (Nat.pos_of_ne_zero (toNat_ne_zero ha))
    (Nat.pos_of_ne_zero (toNat_ne_zero hb)))

inductive MintQuote.Refused (reserve0 reserve1 total max0 max1 : Amount) : Fault → Prop
  | nothing (h : max0 = 0 ∨ max1 = 0) : Refused reserve0 reserve1 total max0 max1 .zeroAmount
  | unreserved (hmax : ¬ (max0 = 0 ∨ max1 = 0)) (htotal : ¬ total = 0)
      (h : reserve0 = 0 ∨ reserve1 = 0) :
      Refused reserve0 reserve1 total max0 max1 .poolNotInitialized
  | excessive (hmax : ¬ (max0 = 0 ∨ max1 = 0)) (htotal : ¬ total = 0)
      (hpool : ¬ (reserve0 = 0 ∨ reserve1 = 0))
      (h : 2 ^ 128 ≤ mostShares reserve0 reserve1 total max0 max1) :
      Refused reserve0 reserve1 total max0 max1 .reserveOverflow
  | unaffordable (hmax : ¬ (max0 = 0 ∨ max1 = 0)) (htotal : ¬ total = 0)
      (hpool : ¬ (reserve0 = 0 ∨ reserve1 = 0))
      (h : mostShares reserve0 reserve1 total max0 max1 = 0) :
      Refused reserve0 reserve1 total max0 max1 .insufficientLiquidityMinted

theorem quoteMint_eq_error {reserve0 reserve1 total max0 max1 : Amount} {fault : Fault}
    (h : quoteMint reserve0 reserve1 total max0 max1 = .error fault) :
    MintQuote.Refused reserve0 reserve1 total max0 max1 fault := by
  unfold quoteMint at h
  rw [Faulting.guard_eq_error] at h
  rcases h with ⟨hmax, rfl⟩ | ⟨hmax, h⟩
  · exact .nothing hmax
  split at h
  · -- The root of a product of two amounts is an amount, and is not zero if they are not.
    have hroot : (sqrt (Amount.widen max0 * Amount.widen max1)).toNat =
        (max0.toNat * max1.toNat).sqrt := by
      rw [toNat_sqrt, toNat_widen_mul]
    simp only [Faulting.guard_eq_error, Faulting.bind_eq_error, Faulting.pure_eq_error, and_false,
      or_false] at h
    rcases h with h | ⟨shares, hshares, hnone, -⟩
    · have hwide := (narrow_eq_error.1 h).1
      have hsmall := sqrt_mul_lt max0 max1
      rw [hroot] at hwide
      omega
    · have hzero := congrArg BitVec.toNat hnone
      rw [narrow_eq_ok hshares, hroot] at hzero
      obtain ⟨h0, h1⟩ := not_or.1 hmax
      exact absurd hzero (sqrt_mul_pos h0 h1).ne'
  · rename_i htotal
    have htotal' := Nat.pos_of_ne_zero (toNat_ne_zero htotal)
    rw [Faulting.guard_eq_error] at h
    rcases h with ⟨hpool, rfl⟩ | ⟨hpool, h⟩
    · exact .unreserved hmax htotal hpool
    obtain ⟨hr0, hr1⟩ := not_or.1 hpool
    simp only [Faulting.guard_eq_error, Faulting.bind_eq_error, Faulting.pure_eq_error, and_false,
      exists_false, or_false] at h
    rcases h with h | ⟨by0, hby0, h | ⟨by1, hby1, h⟩⟩
    · exact absurd (mulDivDown_eq_error.1 h).1 hr0
    · exact absurd (mulDivDown_eq_error.1 h).1 hr1
    have hmost : (if by0 ≤ by1 then by0 else by1).toNat =
        mostShares reserve0 reserve1 total max0 max1 := by
      rw [toNat_min_word, (mulDivDown_eq_ok hby0).2, (mulDivDown_eq_ok hby1).2, mostShares]
    rcases h with h | ⟨shares, hshares, ⟨hnone, rfl⟩ | ⟨-, h⟩⟩
    · obtain ⟨hwide, rfl⟩ := narrow_eq_error.1 h
      rw [hmost] at hwide
      exact .excessive hmax htotal hpool hwide
    · rw [hnone] at hshares
      exact .unaffordable hmax htotal hpool (hmost.symm.trans (narrow_eq_ok hshares).symm)
    -- The charges are within the maxima.
    have hcharge {r max : Amount} {w : Word} (hw : mulDivUp shares r total = .ok w)
        (hle : shares.toNat ≤ max.toNat * total.toNat / r.toNat) : w.toNat < 2 ^ 128 := by
      rw [(mulDivUp_eq_ok hw).2]
      exact (ceilDiv_le_of_le_div htotal' hle).trans_lt max.isLt
    have hle : shares.toNat = mostShares reserve0 reserve1 total max0 max1 :=
      (narrow_eq_ok hshares).trans hmost
    rcases h with h | ⟨w0, hw0, h | ⟨-, -, h | ⟨w1, hw1, h⟩⟩⟩
    · exact absurd (mulDivUp_eq_error.1 h).1 htotal
    · have hwide := (narrow_eq_error.1 h).1
      have hsmall := hcharge hw0 (hle.le.trans (min_le_left _ _))
      omega
    · exact absurd (mulDivUp_eq_error.1 h).1 htotal
    · have hwide := (narrow_eq_error.1 h).1
      have hsmall := hcharge hw1 (hle.le.trans (min_le_right _ _))
      omega

theorem quoteMint_eq_error_iff {reserve0 reserve1 total max0 max1 : Amount} {fault : Fault} :
    quoteMint reserve0 reserve1 total max0 max1 = .error fault ↔
      MintQuote.Refused reserve0 reserve1 total max0 max1 fault := by
  refine ⟨quoteMint_eq_error, fun h => ?_⟩
  have hextends {q : MintQuote} (htotal : ¬ total = 0)
      (hrun : quoteMint reserve0 reserve1 total max0 max1 = .ok q) :
      q.shares.toNat ≠ 0 ∧ q.shares.toNat = mostShares reserve0 reserve1 total max0 max1 := by
    obtain ⟨-, -, hne, ⟨hzero, -⟩ | ⟨-, hextends⟩⟩ := quoteMint_eq_ok hrun
    · exact absurd hzero htotal
    · exact ⟨hne, hextends.shares_eq⟩
  cases h with
  | nothing h =>
    rw [quoteMint, if_pos h]
    rfl
  | unreserved hmax htotal h =>
    rw [quoteMint, if_neg hmax, if_neg htotal, if_pos h]
    rfl
  | excessive hmax htotal hpool hmost =>
    cases hrun : quoteMint reserve0 reserve1 total max0 max1 with
    | ok q =>
      have hshares := (hextends htotal hrun).2
      have hlt := q.shares.isLt
      omega
    | error fault =>
      cases quoteMint_eq_error hrun with
      | nothing h => exact absurd h hmax
      | unreserved _ _ h => exact absurd h hpool
      | excessive => rfl
      | unaffordable _ _ _ h => omega
  | unaffordable hmax htotal hpool hmost =>
    cases hrun : quoteMint reserve0 reserve1 total max0 max1 with
    | ok q =>
      have hshares := hextends htotal hrun
      omega
    | error fault =>
      cases quoteMint_eq_error hrun with
      | nothing h => exact absurd h hmax
      | unreserved _ _ h => exact absurd h hpool
      | excessive _ _ _ h => omega
      | unaffordable => rfl

structure BurnQuote.Releases (q : BurnQuote) (reserve0 reserve1 total shares : Amount) : Prop where
  shares_ne : shares.toNat ≠ 0
  shares_le : shares.toNat ≤ total.toNat
  amount0_eq : q.amount0.toNat = shares.toNat * reserve0.toNat / total.toNat
  amount1_eq : q.amount1.toNat = shares.toNat * reserve1.toNat / total.toNat

theorem quoteBurn_eq_ok {reserve0 reserve1 total shares : Amount} {q : BurnQuote}
    (h : quoteBurn reserve0 reserve1 total shares = .ok q) :
    q.Releases reserve0 reserve1 total shares := by
  unfold quoteBurn at h
  simp only [Faulting.guard_eq_ok, Faulting.bind_eq_ok, Faulting.pure_eq_ok] at h
  obtain ⟨hne, -, hle, w0, hw0, amount0, hamount0, w1, hw1, amount1, hamount1, rfl⟩ := h
  exact {
    shares_ne := toNat_ne_zero hne
    shares_le := Nat.not_lt.1 hle
    amount0_eq := by rw [narrow_eq_ok hamount0, (mulDivDown_eq_ok hw0).2]
    amount1_eq := by rw [narrow_eq_ok hamount1, (mulDivDown_eq_ok hw1).2] }

theorem BurnQuote.Releases.amounts_le {q : BurnQuote} {reserve0 reserve1 total shares : Amount}
    (h : q.Releases reserve0 reserve1 total shares) :
    q.amount0.toNat ≤ reserve0.toNat ∧ q.amount1.toNat ≤ reserve1.toNat := by
  rw [h.amount0_eq, h.amount1_eq]
  exact ⟨Nat.div_le_of_le_mul (Nat.mul_le_mul_right _ h.shares_le),
    Nat.div_le_of_le_mul (Nat.mul_le_mul_right _ h.shares_le)⟩

inductive BurnQuote.Refused (total shares : Amount) : Fault → Prop
  | nothing (h : shares = 0) : Refused total shares .zeroAmount
  | unissued (hshares : ¬ shares = 0) (h : total = 0) : Refused total shares .poolNotInitialized
  | excessive (hshares : ¬ shares = 0) (htotal : ¬ total = 0) (h : total < shares) :
      Refused total shares .overflow

theorem quoteBurn_eq_error {reserve0 reserve1 total shares : Amount} {fault : Fault}
    (h : quoteBurn reserve0 reserve1 total shares = .error fault) :
    BurnQuote.Refused total shares fault := by
  unfold quoteBurn at h
  rw [Faulting.guard_eq_error] at h
  rcases h with ⟨hshares, rfl⟩ | ⟨hshares, h⟩
  · exact .nothing hshares
  rw [Faulting.guard_eq_error] at h
  rcases h with ⟨htotal, rfl⟩ | ⟨htotal, h⟩
  · exact .unissued hshares htotal
  rw [Faulting.guard_eq_error] at h
  rcases h with ⟨hmore, rfl⟩ | ⟨hle, h⟩
  · exact .excessive hshares htotal hmore
  have hle' : shares.toNat ≤ total.toNat := Nat.not_lt.1 hle
  have hpart {r : Amount} {w : Word} (hw : mulDivDown shares r total = .ok w) :
      w.toNat < 2 ^ 128 := by
    rw [(mulDivDown_eq_ok hw).2]
    exact (Nat.div_le_of_le_mul (Nat.mul_le_mul_right _ hle')).trans_lt r.isLt
  simp only [Faulting.bind_eq_error, Faulting.pure_eq_error, and_false, exists_false,
    or_false] at h
  rcases h with h | ⟨w0, hw0, h | ⟨-, -, h | ⟨w1, hw1, h⟩⟩⟩
  · exact absurd (mulDivDown_eq_error.1 h).1 htotal
  · have hwide := (narrow_eq_error.1 h).1
    have hsmall := hpart hw0
    omega
  · exact absurd (mulDivDown_eq_error.1 h).1 htotal
  · have hwide := (narrow_eq_error.1 h).1
    have hsmall := hpart hw1
    omega

theorem quoteBurn_eq_error_iff {reserve0 reserve1 total shares : Amount} {fault : Fault} :
    quoteBurn reserve0 reserve1 total shares = .error fault ↔
      BurnQuote.Refused total shares fault := by
  refine ⟨quoteBurn_eq_error, fun h => ?_⟩
  cases h with
  | nothing h =>
    rw [quoteBurn, if_pos h]
    rfl
  | unissued hshares h =>
    rw [quoteBurn, if_neg hshares, if_pos h]
    rfl
  | excessive hshares htotal h =>
    rw [quoteBurn, if_neg hshares, if_neg htotal, if_pos h]
    rfl

end NetSettle
