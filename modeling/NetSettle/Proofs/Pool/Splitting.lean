import NetSettle.Proofs.Pool.Sides
import NetSettle.Proofs.Pool.SwapPrice

/-!
# Sales in pieces

An amount may be sold at once or in pieces. Each piece rounds its effective input and its output for
itself, and the fee that it leaves in the reserve is there when the next piece is priced. All of
this favours the pool: as long as the protocol takes no part, the pieces fetch no more than the
whole. One sale leaves the least output reserve that covers the old product for its effective input,
and sales in turn leave a reserve that covers it for what they trade with together.
-/
namespace NetSettle

theorem netIn_of_zero {ppt : UInt16} (hppt : ppt = 0) (amountIn : Nat) :
    netIn amountIn ppt.toNat = amountIn := by
  subst hppt
  simp [netIn]

theorem effectiveIn_add_le (a b feeBps : Nat) :
    effectiveIn a feeBps + effectiveIn b feeBps ≤ effectiveIn (a + b) feeBps := by
  unfold effectiveIn
  rw [Nat.add_mul]
  exact Nat.div_add_div_le_add_div

/-- Two sales, the first of which puts `a` into the reserve `x` but trades with `e` of it only,
cover the product for what they trade with together. -/
theorem product_le_of_two_sales {x y y' y'' a e e' : Nat} (hx : 0 < x) (he : e ≤ a)
    (hfirst : x * y ≤ (x + e) * y') (hsecond : (x + a) * y' ≤ (x + a + e') * y'') :
    x * y ≤ (x + (e + e')) * y'' := by
  -- The fee `a - e` of the first sale deepens the reserve against which `e'` is traded.
  have hcross : (x + e) * (x + a + e') ≤ (x + a) * (x + (e + e')) := by
    have hfee : e * e' ≤ a * e' := Nat.mul_le_mul_right _ he
    calc (x + e) * (x + a + e') = (x + e) * (x + a) + x * e' + e * e' := by ring
      _ ≤ (x + e) * (x + a) + x * e' + a * e' := Nat.add_le_add_left hfee _
      _ = (x + a) * (x + (e + e')) := by ring
  refine Nat.le_of_mul_le_mul_left (c := x + a) ?_ (by omega)
  calc (x + a) * (x * y) ≤ (x + a) * ((x + e) * y') := Nat.mul_le_mul_left _ hfirst
    _ = (x + e) * ((x + a) * y') := by ring
    _ ≤ (x + e) * ((x + a + e') * y'') := Nat.mul_le_mul_left _ hsecond
    _ = (x + e) * (x + a + e') * y'' := by ring
    _ ≤ (x + a) * (x + (e + e')) * y'' := Nat.mul_le_mul_right _ hcross
    _ = (x + a) * ((x + (e + e')) * y'') := by ring

namespace Pool

open Faulting

/-- What becomes of a pool that takes `amount` on one side and pays `paid` on the other, in one sale
or in several, if it keeps all that comes in. -/
structure Sold (direction : Direction) (feeBps : Nat) (p : Pool) (amount paid : Nat) (p' : Pool) :
    Prop where
  total : p'.totalShares = p.totalShares
  taken : (p'.reserveIn direction).toNat = (p.reserveIn direction).toNat + amount
  given : (p'.reserveOut direction).toNat + paid = (p.reserveOut direction).toNat
  covered : (p.reserveIn direction).toNat * (p.reserveOut direction).toNat ≤
    ((p.reserveIn direction).toNat + effectiveIn amount feeBps) * (p'.reserveOut direction).toNat

variable {p p' p'' : Pool} {direction : Direction} {fees : FeeSettings} {feeBps : Nat}

theorem Sold.refl (direction : Direction) (feeBps : Nat) (p : Pool) :
    Sold direction feeBps p 0 0 p where
  total := rfl
  taken := rfl
  given := rfl
  covered := Nat.mul_le_mul_right _ (Nat.le_add_right _ _)

theorem Sold.trans {a b paid paid' : Nat} (h : Sold direction feeBps p a paid p')
    (h' : Sold direction feeBps p' b paid' p'') (hin : p.reserveIn direction ≠ 0) :
    Sold direction feeBps p (a + b) (paid + paid') p'' where
  total := h'.total.trans h.total
  taken := by rw [h'.taken, h.taken, Nat.add_assoc]
  given := by rw [← h.given, ← h'.given, Nat.add_right_comm, Nat.add_assoc]
  covered := by
    have hsecond := h'.covered
    rw [h.taken] at hsecond
    refine (product_le_of_two_sales (Nat.pos_of_ne_zero (toNat_ne_zero hin))
      (effectiveIn_le a feeBps) h.covered hsecond).trans (Nat.mul_le_mul_right _ ?_)
    exact Nat.add_le_add_left (effectiveIn_add_le a b feeBps) _

theorem Sold.reserves_ne_zero {amount paid : Nat} (h : Sold direction feeBps p amount paid p')
    (hin : p.reserveIn direction ≠ 0) (hout : p.reserveOut direction ≠ 0) :
    p'.reserveIn direction ≠ 0 ∧ p'.reserveOut direction ≠ 0 := by
  have hin' := Nat.pos_of_ne_zero (toNat_ne_zero hin)
  have hproduct := Nat.mul_pos hin' (Nat.pos_of_ne_zero (toNat_ne_zero hout))
  constructor
  · intro hzero
    have htaken := h.taken
    rw [hzero] at htaken
    change 0 = _ at htaken
    omega
  · intro hzero
    have hcovered := h.covered
    rw [hzero] at hcovered
    exact absurd (hproduct.trans_le hcovered) (Nat.lt_irrefl _)

theorem sold_of_swap {amountIn : Amount} {q : SwapQuote} (hppt : fees.protocolFeePpt = 0)
    (h : (swap direction amountIn fees).run p = .ok q p') :
    Sold direction fees.swapFeeBps.toNat p amountIn.toNat q.amountOut.toNat p' := by
  obtain ⟨-, hquote, accrued, -, rfl⟩ := swap_eq_ok_iff.1 h
  have hprices := quoteSwap_eq_ok hquote
  have hnet := netIn_of_zero hppt amountIn.toNat
  have hin := hprices.in_eq
  have hpaid := hprices.paid_eq
  have hcovered := hprices.product_le_effective
  rw [hprices.net_eq, hnet] at hin
  rw [hnet] at hcovered
  refine ⟨totalShares_swapped, ?_, ?_, ?_⟩
  · rw [reserveIn_swapped, hin]
  · rw [reserveOut_swapped, Nat.add_comm, hpaid]
  · rwa [reserveOut_swapped]

theorem reserveOut_le_of_swap {amountIn : Amount} {q : SwapQuote} {reserve : Nat}
    (hppt : fees.protocolFeePpt = 0) (h : (swap direction amountIn fees).run p = .ok q p')
    (hcovered : (p.reserveIn direction).toNat * (p.reserveOut direction).toNat ≤
      ((p.reserveIn direction).toNat + effectiveIn amountIn.toNat fees.swapFeeBps.toNat) *
        reserve) : (p'.reserveOut direction).toNat ≤ reserve := by
  obtain ⟨-, hquote, accrued, -, rfl⟩ := swap_eq_ok_iff.1 h
  have hprices := quoteSwap_eq_ok hquote
  have hin := Nat.pos_of_ne_zero hprices.reserveIn_ne
  rwa [reserveOut_swapped, hprices.out_eq, hprices.net_eq, netIn_of_zero hppt,
    ceilDiv_le_iff_le_mul (by omega)]

theorem exists_swap {amountIn : Amount} (hlive : p.totalShares ≠ 0)
    (hin : p.reserveIn direction ≠ 0) (hout : p.reserveOut direction ≠ 0)
    (hbps : fees.swapFeeBps.toNat < 10000) (hppt : fees.protocolFeePpt = 0) (ha : amountIn ≠ 0)
    (hroom : (p.reserveIn direction).toNat + amountIn.toNat < 2 ^ 128) :
    ∃ q p', (swap direction amountIn fees).run p = .ok q p' := by
  have hnet := netIn_of_zero hppt amountIn.toNat
  obtain ⟨q, hquote⟩ := exists_quoteSwap_iff.2
    ⟨hin, hout, ha, hbps, hppt ▸ (by decide), hnet.symm ▸ hroom⟩
  have hskim : q.protocolFee.toNat = 0 := by
    rw [(quoteSwap_eq_ok hquote).fee_eq, hppt]
    exact Nat.zero_div _
  have haccrued : (p.accruedIn direction).toNat + q.protocolFee.toNat < 2 ^ 128 := by
    rw [hskim]
    exact (p.accruedIn direction).isLt
  exact ⟨q, _, swap_eq_ok_iff.2 ⟨hlive, hquote, _, if_pos haccrued, rfl⟩⟩

def swapEach (direction : Direction) (fees : FeeSettings) (amounts : List Amount) :
    Faulting Pool (List SwapQuote) :=
  amounts.mapM fun amountIn => swap direction amountIn fees

def totalIn (amounts : List Amount) : Nat := (amounts.map (·.toNat)).sum

def totalOut (quotes : List SwapQuote) : Nat := (quotes.map (·.amountOut.toNat)).sum

@[simp] theorem totalIn_cons (amountIn : Amount) (amounts : List Amount) :
    totalIn (amountIn :: amounts) = amountIn.toNat + totalIn amounts := rfl

theorem exists_swapEach {amounts : List Amount} (hlive : p.totalShares ≠ 0)
    (hin : p.reserveIn direction ≠ 0) (hout : p.reserveOut direction ≠ 0)
    (hbps : fees.swapFeeBps.toNat < 10000) (hppt : fees.protocolFeePpt = 0)
    (hpos : ∀ a ∈ amounts, a ≠ 0)
    (hroom : (p.reserveIn direction).toNat + totalIn amounts < 2 ^ 128) :
    ∃ quotes p', (swapEach direction fees amounts).run p = .ok quotes p' ∧
      Sold direction fees.swapFeeBps.toNat p (totalIn amounts) (totalOut quotes) p' := by
  induction amounts generalizing p with
  | nil => exact ⟨[], p, rfl, Sold.refl _ _ _⟩
  | cons a rest ih =>
    obtain ⟨ha, hrest⟩ := List.forall_mem_cons.1 hpos
    rw [totalIn_cons] at hroom
    -- `Sold` says of the pool after one sale all that the rest of the sales start from.
    obtain ⟨q, next, hswap⟩ := exists_swap hlive hin hout hbps hppt ha (by omega)
    have hsold := sold_of_swap hppt hswap
    obtain ⟨hin', hout'⟩ := hsold.reserves_ne_zero hin hout
    obtain ⟨quotes, last, hrun, hsolds⟩ := ih (hsold.total ▸ hlive) hin' hout' hrest
      (by rw [hsold.taken]; omega)
    exact ⟨q :: quotes, last, run_mapM_cons_of_ok hswap hrun, hsold.trans hsolds hin⟩

/-- The amounts can be sold in turn, and all at once, and in turn they fetch no more. The input
reserve comes to the same. -/
def SplittingNeverPays (p : Pool) (direction : Direction) (fees : FeeSettings)
    (amounts : List Amount) : Prop :=
  ∃ quotes split whole merged,
    (swapEach direction fees amounts).run p = .ok quotes split ∧
    (swap direction (BitVec.ofNat 128 (totalIn amounts)) fees).run p = .ok whole merged ∧
    totalOut quotes ≤ whole.amountOut.toNat ∧
    split.reserveIn direction = merged.reserveIn direction

theorem totalIn_pos {amounts : List Amount} (hsome : amounts ≠ []) (hpos : ∀ a ∈ amounts, a ≠ 0) :
    0 < totalIn amounts := by
  obtain ⟨a, rest, rfl⟩ := List.exists_cons_of_ne_nil hsome
  have ha := toNat_ne_zero (hpos a List.mem_cons_self)
  rw [totalIn_cons]
  omega

/-- Sales in pieces fetch no more than one sale if there is something to sell, the pool has shares
and reserves to sell to, the sum fits, and the protocol takes no part. -/
theorem splitting_never_pays {amounts : List Amount} (hlive : p.isInitialized = true)
    (hin : p.reserveIn direction ≠ 0) (hout : p.reserveOut direction ≠ 0)
    (hbps : fees.swapFeeBps.toNat < 10000) (hppt : fees.protocolFeePpt = 0)
    (hsome : amounts ≠ []) (hpos : ∀ a ∈ amounts, a ≠ 0)
    (hroom : (p.reserveIn direction).toNat + totalIn amounts < 2 ^ 128) :
    SplittingNeverPays p direction fees amounts := by
  have hlive' := isInitialized_iff.1 hlive
  obtain ⟨quotes, split, hsplit, hsolds⟩ := exists_swapEach hlive' hin hout hbps hppt hpos hroom
  have hsum : (BitVec.ofNat 128 (totalIn amounts)).toNat = totalIn amounts := by
    rw [BitVec.toNat_ofNat]
    exact Nat.mod_eq_of_lt (by omega)
  have hsum_ne : BitVec.ofNat 128 (totalIn amounts) ≠ 0 := by
    intro hzero
    rw [hzero] at hsum
    have hpos' := totalIn_pos hsome hpos
    rw [← hsum] at hpos'
    exact absurd hpos' (by decide)
  obtain ⟨whole, merged, hwhole⟩ := exists_swap (p := p) hlive' hin hout hbps hppt hsum_ne
    (by rwa [hsum])
  have hsold := sold_of_swap hppt hwhole
  have hleast := reserveOut_le_of_swap hppt hwhole (hsum.symm ▸ hsolds.covered)
  rw [hsum] at hsold
  have hgiven := hsold.given
  have hgivens := hsolds.given
  refine ⟨quotes, split, whole, merged, hsplit, hwhole, by omega, ?_⟩
  apply BitVec.eq_of_toNat_eq
  rw [hsolds.taken, hsold.taken]

theorem splitting_never_pays_three :
    SplittingNeverPays ⟨⟨1, 2⟩, 1000, 900, 5, 0, 0, SortedMap.empty.insert 7 5⟩ .oneForZero
      ⟨30, 0, 0⟩ [1, 400, 1] :=
  splitting_never_pays (by decide) (by decide) (by decide) (by decide) (by decide) (by decide)
    (by simp) (by decide)

/-- Having shares is not enough: a pool with nothing on its output side refuses every sale. -/
theorem not_splitting_never_pays_unreserved :
    ¬ ∀ (p : Pool) (direction : Direction) (fees : FeeSettings) (amounts : List Amount),
      p.isInitialized = true → fees.swapFeeBps.toNat < 10000 → fees.protocolFeePpt = 0 →
      amounts ≠ [] → (∀ a ∈ amounts, a ≠ 0) →
      (p.reserveIn direction).toNat + totalIn amounts < 2 ^ 128 →
      SplittingNeverPays p direction fees amounts := by
  intro h
  obtain ⟨-, -, whole, merged, -, hwhole, -⟩ :=
    h ⟨⟨1, 2⟩, 10, 0, 5, 0, 0, SortedMap.empty.insert 7 5⟩ .zeroForOne ⟨30, 0, 0⟩ [1] (by decide)
      (by decide) (by decide) (by decide) (by simp) (by decide)
  exact absurd (swap_eq_ok_iff.1 hwhole).2.1 nofun

end Pool

end NetSettle
