import NetSettle.Proofs.Pool.Quote

/-!
# The price of a swap

A swap is quoted if its pool has reserves, its input is not nothing, the fees are in range and the
net input fits on top of the reserve, and it is refused for no other reason. It pays the part of the
output reserve that the effective input has in the new divisor, rounded down, although the steps
compute what remains, rounded up. `quoteSwapStrict` takes the same steps and faults as soon as one
wraps: it has the same answers, and this fault is not among them.
-/
namespace NetSettle

theorem netIn_pos {amountIn ppt : Nat} (hamount : 0 < amountIn) (hppt : ppt < 1000) :
    0 < netIn amountIn ppt := by
  have hskim : amountIn * ppt / 1000 < amountIn := by
    rw [Nat.div_lt_iff_lt_mul (by decide)]
    exact Nat.mul_lt_mul_of_pos_left hppt hamount
  exact Nat.sub_pos_of_lt hskim

theorem effectiveIn_lt {net feeBps : Nat} (hnet : 0 < net) (hfee : 0 < feeBps) :
    effectiveIn net feeBps < net := by
  rw [effectiveIn, Nat.div_lt_iff_lt_mul (by decide)]
  exact Nat.mul_lt_mul_of_pos_left (by omega) hnet

theorem div_add_ceilDiv {r : Nat} (o e : Nat) (hr : 0 < r) :
    o * e / (r + e) + r * o ⌈/⌉ (r + e) = o := by
  have hpos : 0 < r + e := by omega
  have hsplit : r * o + o * e = (r + e) * o := by ring
  apply le_antisymm
  · have hfloor : (r + e) * (o * e / (r + e)) ≤ o * e := Nat.mul_div_le _ _
    have hpaid : o * e / (r + e) ≤ o := Nat.le_of_mul_le_mul_left (by omega) hpos
    have hceil : r * o ⌈/⌉ (r + e) ≤ o - o * e / (r + e) := by
      rw [ceilDiv_le_iff_le_mul hpos, Nat.mul_sub]
      omega
    omega
  · have hceil : r * o ≤ (r + e) * (r * o ⌈/⌉ (r + e)) :=
      (ceilDiv_le_iff_le_mul hpos).1 le_rfl
    have hfloor : o * e < (r + e) * (o * e / (r + e) + 1) := Nat.lt_mul_div_succ _ hpos
    refine Nat.le_of_lt_succ (Nat.lt_of_mul_lt_mul_left (a := r + e) ?_)
    calc (r + e) * o = r * o + o * e := hsplit.symm
      _ < (r + e) * (r * o ⌈/⌉ (r + e)) + (r + e) * (o * e / (r + e) + 1) :=
        Nat.add_lt_add_of_le_of_lt hceil hfloor
      _ = (r + e) * (o * e / (r + e) + r * o ⌈/⌉ (r + e) + 1) := by ring

namespace SwapQuote.Prices

variable {q : SwapQuote} {reserveIn reserveOut amountIn : Amount} {feeBps ppt : UInt16}

theorem amountOut_eq (h : q.Prices reserveIn reserveOut amountIn feeBps ppt) :
    q.amountOut.toNat = reserveOut.toNat *
      effectiveIn (netIn amountIn.toNat ppt.toNat) feeBps.toNat /
        (reserveIn.toNat + effectiveIn (netIn amountIn.toNat ppt.toNat) feeBps.toNat) := by
  have hwhole := div_add_ceilDiv reserveOut.toNat
    (effectiveIn (netIn amountIn.toNat ppt.toNat) feeBps.toNat)
    (Nat.pos_of_ne_zero h.reserveIn_ne)
  have hpaid := h.paid_eq
  rw [h.out_eq, h.net_eq] at hpaid
  omega

theorem product_le_effective (h : q.Prices reserveIn reserveOut amountIn feeBps ppt) :
    reserveIn.toNat * reserveOut.toNat ≤
      (reserveIn.toNat + effectiveIn (netIn amountIn.toNat ppt.toNat) feeBps.toNat) *
        q.reserveOut.toNat := by
  have hpos := Nat.pos_of_ne_zero h.reserveIn_ne
  rw [h.out_eq, h.net_eq]
  exact (ceilDiv_le_iff_le_mul (by omega)).1 le_rfl

theorem reserveOut_pos (h : q.Prices reserveIn reserveOut amountIn feeBps ppt) :
    0 < q.reserveOut.toNat := by
  have hproduct : 0 < reserveIn.toNat * reserveOut.toNat :=
    Nat.mul_pos (Nat.pos_of_ne_zero h.reserveIn_ne) (Nat.pos_of_ne_zero h.reserveOut_ne)
  exact Nat.pos_of_mul_pos_left (hproduct.trans_le h.product_le_effective)

/-- A swap fee stays in the reserves, whatever the roundings. -/
theorem product_lt (h : q.Prices reserveIn reserveOut amountIn feeBps ppt)
    (hppt : ppt.toNat < 1000) (hfee : 0 < feeBps.toNat) :
    reserveIn.toNat * reserveOut.toNat < q.reserveIn.toNat * q.reserveOut.toNat := by
  refine h.product_le_effective.trans_lt (Nat.mul_lt_mul_of_pos_right ?_ h.reserveOut_pos)
  rw [h.in_eq, h.net_eq]
  exact Nat.add_lt_add_left
    (effectiveIn_lt (netIn_pos (Nat.pos_of_ne_zero h.amountIn_ne) hppt) hfee) _

end SwapQuote.Prices

section

variable {reserveIn reserveOut amountIn : Amount} {feeBps ppt : UInt16}

theorem fees_inRange_of_quoteSwap {q : SwapQuote}
    (h : quoteSwap reserveIn reserveOut amountIn feeBps ppt = .ok q) :
    feeBps.toNat < 10000 ∧ ppt.toNat < 1000 := by
  have hprices := quoteSwap_eq_ok h
  by_contra hrange
  have hrefused : SwapQuote.Refused reserveIn reserveOut amountIn feeBps ppt
      (.invalidFeeSettings .outOfRange) := by
    refine .fees ?_ ?_ (by omega)
    · rintro (rfl | rfl)
      · exact hprices.reserveIn_ne rfl
      · exact hprices.reserveOut_ne rfl
    · rintro rfl
      exact hprices.amountIn_ne rfl
  rw [quoteSwap_eq_error_iff.2 hrefused] at h
  cases h

theorem exists_quoteSwap_iff : (∃ q, quoteSwap reserveIn reserveOut amountIn feeBps ppt = .ok q) ↔
    reserveIn ≠ 0 ∧ reserveOut ≠ 0 ∧ amountIn ≠ 0 ∧ feeBps.toNat < 10000 ∧ ppt.toNat < 1000 ∧
      reserveIn.toNat + netIn amountIn.toNat ppt.toNat < 2 ^ 128 := by
  constructor
  · rintro ⟨q, hquote⟩
    have hprices := quoteSwap_eq_ok hquote
    obtain ⟨hbps, hppt⟩ := fees_inRange_of_quoteSwap hquote
    have hin := hprices.in_eq
    rw [hprices.net_eq] at hin
    refine ⟨?_, ?_, ?_, hbps, hppt, hin ▸ q.reserveIn.isLt⟩
    · rintro rfl
      exact hprices.reserveIn_ne rfl
    · rintro rfl
      exact hprices.reserveOut_ne rfl
    · rintro rfl
      exact hprices.amountIn_ne rfl
  · rintro ⟨hin, hout, hamount, hbps, hppt, hroom⟩
    cases hquote : quoteSwap reserveIn reserveOut amountIn feeBps ppt with
    | ok q => exact ⟨q, rfl⟩
    | error fault =>
      cases quoteSwap_eq_error hquote with
      | unreserved h => exact absurd h (not_or.2 ⟨hin, hout⟩)
      | nothing _ h => exact absurd h hamount
      | fees _ _ h => omega
      | overfull _ _ _ h => omega

end

def addStrict (a b : Word) : Except Fault Word :=
  if a.toNat + b.toNat < 2 ^ 256 then .ok (a + b) else .error .overflow

def mulStrict (a b : Word) : Except Fault Word :=
  if a.toNat * b.toNat < 2 ^ 256 then .ok (a * b) else .error .overflow

def mulDivDownStrict (a b d : Amount) : Except Fault Word := do
  if d = 0 then
    throw .poolNotInitialized
  let product ← mulStrict (Amount.widen a) (Amount.widen b)
  return product / Amount.widen d

def divUpStrict (n d : Word) : Except Fault Word := do
  if d = 0 then
    throw .poolNotInitialized
  if n % d = 0 then
    return n / d
  addStrict (n / d) 1

/-- The steps of a quote, each of which faults with `overflow` where it would wrap. -/
def quoteSwapStrict (reserveIn reserveOut amountIn : Amount) (feeBps ppt : UInt16) :
    Except Fault SwapQuote := do
  if reserveIn = 0 ∨ reserveOut = 0 then
    throw .poolNotInitialized
  if amountIn = 0 then
    throw .zeroAmount
  if feeBps.toNat ≥ 10000 ∨ ppt.toNat ≥ 1000 then
    throw (.invalidFeeSettings .outOfRange)
  let skim ← narrow (← mulDivDownStrict amountIn (BitVec.ofNat 128 ppt.toNat) pptScale)
  let net ← subAmounts amountIn skim
  let traded ← subAmounts bpsScale (BitVec.ofNat 128 feeBps.toNat)
  let effective ← mulDivDownStrict net traded bpsScale
  let newIn ← addAmounts reserveIn net
  let product ← mulStrict (Amount.widen reserveIn) (Amount.widen reserveOut)
  let divisor ← addStrict (Amount.widen reserveIn) effective
  let newOut ← narrow (← divUpStrict product divisor)
  let amountOut ← subAmounts reserveOut newOut
  return ⟨amountIn, amountOut, skim, newIn, newOut⟩

theorem mulStrict_widen (a b : Amount) :
    mulStrict (Amount.widen a) (Amount.widen b) = .ok (Amount.widen a * Amount.widen b) := by
  have hlt : a.toNat * b.toNat < 2 ^ 128 * 2 ^ 128 := Nat.mul_lt_mul'' a.isLt b.isLt
  refine if_pos ?_
  rw [Amount.toNat_widen, Amount.toNat_widen]
  omega

theorem mulDivDownStrict_eq (a b d : Amount) : mulDivDownStrict a b d = mulDivDown a b d := by
  unfold mulDivDownStrict mulDivDown
  rw [mulStrict_widen]
  split <;> rfl

theorem divUpStrict_eq (n d : Word) : divUpStrict n d = divUp n d := by
  unfold divUpStrict divUp
  by_cases hd : d = 0
  · rw [if_pos hd, if_pos hd]
    rfl
  rw [if_neg hd, if_neg hd]
  by_cases hmod : n % d = 0
  · rw [if_pos hmod, if_pos hmod]
    rfl
  rw [if_neg hmod, if_neg hmod]
  have hd' : d.toNat ≠ 0 := fun h0 => hd (BitVec.eq_of_toNat_eq h0)
  have hmod' : n.toNat % d.toNat ≠ 0 := fun h0 => hmod (BitVec.eq_of_toNat_eq (by
    rw [BitVec.toNat_umod, h0]
    rfl))
  have hdm := Nat.div_add_mod n.toNat d.toNat
  have hquot : n.toNat / d.toNat ≤ d.toNat * (n.toNat / d.toNat) :=
    Nat.le_mul_of_pos_left _ (Nat.pos_of_ne_zero hd')
  have hn := n.isLt
  refine if_pos ?_
  rw [BitVec.toNat_udiv]
  change n.toNat / d.toNat + 1 < 2 ^ 256
  omega

theorem subAmounts_of_le {a b : Amount} (h : b.toNat ≤ a.toNat) : subAmounts a b = .ok (a - b) :=
  if_pos h

/-- No step of a quote wraps, whatever the numbers. -/
theorem quoteSwapStrict_eq (reserveIn reserveOut amountIn : Amount) (feeBps ppt : UInt16) :
    quoteSwapStrict reserveIn reserveOut amountIn feeBps ppt =
      quoteSwap reserveIn reserveOut amountIn feeBps ppt := by
  refine Faulting.guard_congr fun hpool => Faulting.guard_congr fun _ =>
    Faulting.guard_congr fun hfees => ?_
  have hin := Nat.pos_of_ne_zero (toNat_ne_zero (not_or.1 hpool).1)
  rw [mulDivDownStrict_eq]
  refine Faulting.bind_congr_ok fun w₁ hw₁ => Faulting.bind_congr_ok fun skim hskim => ?_
  have hskimle : skim.toNat ≤ amountIn.toNat := by
    rw [narrow_eq_ok hskim, (mulDivDown_eq_ok hw₁).2, toNat_ofUInt16]
    exact skim_le _ (by omega)
  have hfeele : (BitVec.ofNat 128 feeBps.toNat).toNat ≤ bpsScale.toNat := by
    rw [toNat_ofUInt16]
    change feeBps.toNat ≤ 10000
    omega
  rw [subAmounts_of_le hskimle, Faulting.ok_bind, subAmounts_of_le hfeele, Faulting.ok_bind,
    mulDivDownStrict_eq]
  refine Faulting.bind_congr_ok fun effective heff => Faulting.bind_congr_ok fun newIn hnewIn => ?_
  have hsteps : SwapSteps reserveIn amountIn feeBps ppt skim effective :=
    swapSteps_of_ok (by omega) (by omega) hw₁ hskim heff
  have hdivisor : addStrict (Amount.widen reserveIn) effective =
      .ok (Amount.widen reserveIn + effective) := by
    refine if_pos ?_
    have hlt := (Amount.widen reserveIn + effective).isLt
    rw [hsteps.divisor_eq] at hlt
    rw [Amount.toNat_widen, hsteps.effective_eq]
    exact hlt
  rw [mulStrict_widen, Faulting.ok_bind, hdivisor, Faulting.ok_bind, divUpStrict_eq]
  refine Faulting.bind_congr_ok fun w₂ hw₂ => Faulting.bind_congr_ok fun newOut hnewOut => ?_
  have hremains : newOut.toNat ≤ reserveOut.toNat := by
    rw [narrow_eq_ok hnewOut, (divUp_eq_ok hw₂).2, toNat_widen_mul, hsteps.divisor_eq]
    exact ceilDiv_le_right hin
  rw [subAmounts_of_le hremains]
  rfl

theorem quoteSwap_ne_overflow (reserveIn reserveOut amountIn : Amount) (feeBps ppt : UInt16) :
    quoteSwap reserveIn reserveOut amountIn feeBps ppt ≠ .error .overflow := by
  intro h
  cases quoteSwap_eq_error h

/-- When a swap is quoted, and what the quote says, for all numbers. No step of it wraps, and the
product of the reserves does not fall; it grows if there is a swap fee. -/
theorem swap_quote_exact (reserveIn reserveOut amountIn : Amount) (feeBps ppt : UInt16) :
    let skim := amountIn.toNat * ppt.toNat / 1000
    let net := amountIn.toNat - skim
    let eff := net * (10000 - feeBps.toNat) / 10000
    ((∃ q, quoteSwap reserveIn reserveOut amountIn feeBps ppt = .ok q) ↔
      reserveIn ≠ 0 ∧ reserveOut ≠ 0 ∧ amountIn ≠ 0 ∧ feeBps.toNat < 10000 ∧ ppt.toNat < 1000 ∧
        reserveIn.toNat + net < 2 ^ 128) ∧
    quoteSwapStrict reserveIn reserveOut amountIn feeBps ppt =
      quoteSwap reserveIn reserveOut amountIn feeBps ppt ∧
    quoteSwap reserveIn reserveOut amountIn feeBps ppt ≠ .error .overflow ∧
    ∀ q, quoteSwap reserveIn reserveOut amountIn feeBps ppt = .ok q →
      q.amountIn = amountIn ∧ q.protocolFee.toNat = skim ∧ 1 ≤ net ∧
        q.reserveIn.toNat = reserveIn.toNat + net ∧
        q.amountOut.toNat = reserveOut.toNat * eff / (reserveIn.toNat + eff) ∧
        q.amountOut.toNat < reserveOut.toNat ∧
        q.reserveOut.toNat = reserveOut.toNat - q.amountOut.toNat ∧ 1 ≤ q.reserveOut.toNat ∧
        reserveIn.toNat * reserveOut.toNat ≤ q.reserveIn.toNat * q.reserveOut.toNat ∧
        (1 ≤ feeBps.toNat →
          reserveIn.toNat * reserveOut.toNat < q.reserveIn.toNat * q.reserveOut.toNat) := by
  intro skim net eff
  refine ⟨exists_quoteSwap_iff, quoteSwapStrict_eq _ _ _ _ _, quoteSwap_ne_overflow _ _ _ _ _,
    fun q hquote => ?_⟩
  have hprices := quoteSwap_eq_ok hquote
  have hppt := (fees_inRange_of_quoteSwap hquote).2
  have hpaid := hprices.paid_eq
  have hremains := hprices.reserveOut_pos
  have hin := hprices.in_eq
  rw [hprices.net_eq] at hin
  exact ⟨hprices.amountIn_eq, hprices.fee_eq,
    netIn_pos (Nat.pos_of_ne_zero hprices.amountIn_ne) hppt, hin, hprices.amountOut_eq, by omega,
    by omega, hremains, hprices.product_le, hprices.product_lt hppt⟩

theorem swap_quote_exact_filled :
    ∃ q, quoteSwap (Amount.max - 1) Amount.max 1 1 0 = .ok q ∧ q.amountOut.toNat = 0 ∧
      (Amount.max - 1).toNat * Amount.max.toNat < q.reserveIn.toNat * q.reserveOut.toNat := by
  obtain ⟨hquoted, -, -, hterms⟩ := swap_quote_exact (Amount.max - 1) Amount.max 1 1 0
  obtain ⟨q, hquote⟩ := hquoted.2 (by decide)
  obtain ⟨-, -, -, -, hout, -, -, -, -, hgrows⟩ := hterms q hquote
  exact ⟨q, hquote, by rw [hout]; decide, hgrows (by decide)⟩

end NetSettle
