import NetSettle.Proofs.Flow
import NetSettle.Proofs.Pool.Operations

/-!
# What pools hold

A pool holds its reserves and its accrued fees. An operation on a pool changes what it holds by
what the operation charges and pays, token by token.
-/
namespace NetSettle.Pool

open Faulting

def holding (p : Pool) (t : Address) : Int :=
  only p.pair.token0 (p.reserve0.toNat + p.accruedFee0.toNat) t +
    only p.pair.token1 (p.reserve1.toNat + p.accruedFee1.toNat) t

@[simp] theorem holding_fresh (pair : Pair) (t : Address) : (fresh pair).holding t = 0 := by
  simp [holding, fresh]

variable {p p' : Pool}

theorem holding_of_gains (hpair : p'.pair = p.pair) (n0 n1 : Int)
    (h0 : (p'.reserve0.toNat + p'.accruedFee0.toNat : Int) =
      p.reserve0.toNat + p.accruedFee0.toNat + n0)
    (h1 : (p'.reserve1.toNat + p'.accruedFee1.toNat : Int) =
      p.reserve1.toNat + p.accruedFee1.toNat + n1) (t : Address) :
    p'.holding t = p.holding t + (only p.pair.token0 n0 t + only p.pair.token1 n1 t) := by
  unfold holding
  rw [hpair, h0, h1]
  unfold only
  split <;> split <;> omega

theorem holding_swap {direction : Direction} {amountIn : Amount} {fees : FeeSettings}
    {q : SwapQuote} (h : (swap direction amountIn fees).run p = .ok q p') :
    p'.pair = p.pair ∧ ∀ t, p'.holding t = p.holding t +
      (only (p.pair.route direction).1 q.amountIn.toNat t -
        only (p.pair.route direction).2 q.amountOut.toNat t) := by
  obtain ⟨-, hswapped⟩ := swap_eq_ok h
  cases hswapped with
  | zeroForOne hprices haccrued =>
    refine ⟨rfl, fun t => ?_⟩
    rw [holding_of_gains (p := p) (by rfl) _ _ (hprices.gain_in haccrued) (hprices.gain_out _),
      only_neg]
    rfl
  | oneForZero hprices haccrued =>
    refine ⟨rfl, fun t => ?_⟩
    rw [holding_of_gains (p := p) (by rfl) _ _ (hprices.gain_out _) (hprices.gain_in haccrued),
      only_neg, Int.add_comm (-_)]
    rfl

theorem holding_addLiquidity {recipient : Address} {max0 max1 : Amount} {q : MintQuote}
    (h : (addLiquidity recipient max0 max1).run p = .ok q p') :
    p'.pair = p.pair ∧ ∀ t, p'.holding t = p.holding t +
      (only p.pair.token0 q.amount0.toNat t + only p.pair.token1 q.amount1.toNat t) := by
  obtain ⟨-, hminted⟩ := addLiquidity_eq_ok h
  have h0 := hminted.reserve0
  have h1 := hminted.reserve1
  refine ⟨hminted.pair, holding_of_gains hminted.pair _ _ ?_ ?_⟩
  · rw [hminted.fee0]
    omega
  · rw [hminted.fee1]
    omega

theorem holding_removeLiquidity {owner : Address} {shares : Amount} {q : BurnQuote}
    (h : (removeLiquidity owner shares).run p = .ok q p') :
    p'.pair = p.pair ∧ ∀ t, p'.holding t = p.holding t +
      (-only p.pair.token0 q.amount0.toNat t - only p.pair.token1 q.amount1.toNat t) := by
  obtain ⟨-, hburned⟩ := removeLiquidity_eq_ok h
  have h0 := hburned.reserve0
  have h1 := hburned.reserve1
  refine ⟨hburned.pair, fun t => ?_⟩
  have hgain := holding_of_gains hburned.pair (-q.amount0.toNat) (-q.amount1.toNat)
    (by rw [hburned.fee0]; omega) (by rw [hburned.fee1]; omega) t
  rw [only_neg, only_neg, ← Int.sub_eq_add_neg] at hgain
  exact hgain

theorem holding_takeAccruedFees (p : Pool) (t : Address) :
    p.takeAccruedFees.2.holding t = p.holding t +
      (-only p.pair.token0 p.accruedFee0.toNat t - only p.pair.token1 p.accruedFee1.toNat t) := by
  refine (holding_of_gains (p := p) (by rfl) (-p.accruedFee0.toNat) (-p.accruedFee1.toNat)
    ?_ ?_ t).trans ?_
  · simp [takeAccruedFees]
  · simp [takeAccruedFees]
  · rw [only_neg, only_neg, ← Int.sub_eq_add_neg]

end NetSettle.Pool
