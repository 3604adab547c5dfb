import NetSettle.Pool.Basic
import NetSettle.Proofs.Pool.Quote

/-!
# Swaps by their sides

The direction of a swap says which reserve is its input side. A swap reads and writes the two sides
in the same way whichever they are, so that what holds of swaps can be said once for both
directions.
-/
namespace NetSettle.Pool

open Faulting

def reserveIn (p : Pool) : Direction → Amount
  | .zeroForOne => p.reserve0
  | .oneForZero => p.reserve1

def reserveOut (p : Pool) : Direction → Amount
  | .zeroForOne => p.reserve1
  | .oneForZero => p.reserve0

def accruedIn (p : Pool) : Direction → Amount
  | .zeroForOne => p.accruedFee0
  | .oneForZero => p.accruedFee1

def swapped (p : Pool) (direction : Direction) (q : SwapQuote) (accrued : Amount) : Pool :=
  match direction with
  | .zeroForOne =>
    { p with reserve0 := q.reserveIn, reserve1 := q.reserveOut, accruedFee0 := accrued }
  | .oneForZero =>
    { p with reserve1 := q.reserveIn, reserve0 := q.reserveOut, accruedFee1 := accrued }

variable {p p' : Pool} {direction : Direction} {amountIn accrued : Amount} {fees : FeeSettings}
  {q : SwapQuote} {fault : Fault}

@[simp] theorem reserveIn_swapped : (p.swapped direction q accrued).reserveIn direction =
    q.reserveIn := by
  cases direction <;> rfl

@[simp] theorem reserveOut_swapped : (p.swapped direction q accrued).reserveOut direction =
    q.reserveOut := by
  cases direction <;> rfl

@[simp] theorem totalShares_swapped : (p.swapped direction q accrued).totalShares =
    p.totalShares := by
  cases direction <;> rfl

theorem swap_eq (direction : Direction) (amountIn : Amount) (fees : FeeSettings) :
    swap direction amountIn fees = do
      let p ← get
      if !p.isInitialized then
        throw .poolNotInitialized
      let quote ← quoteSwap (p.reserveIn direction) (p.reserveOut direction) amountIn
        fees.swapFeeBps fees.protocolFeePpt
      let accrued ← addAmounts (p.accruedIn direction) quote.protocolFee
      set (p.swapped direction quote accrued)
      return quote := by
  cases direction <;> rfl

theorem not_isInitialized_iff : (!p.isInitialized) = true ↔ p.totalShares = 0 := by
  simp [isInitialized]

theorem isInitialized_iff : p.isInitialized = true ↔ p.totalShares ≠ 0 := by
  rw [Ne, ← not_isInitialized_iff, Bool.not_eq_true', Bool.not_eq_false]

theorem swap_eq_ok_iff : (swap direction amountIn fees).run p = .ok q p' ↔
    p.totalShares ≠ 0 ∧
      quoteSwap (p.reserveIn direction) (p.reserveOut direction) amountIn fees.swapFeeBps
        fees.protocolFeePpt = .ok q ∧
      ∃ accrued, addAmounts (p.accruedIn direction) q.protocolFee = .ok accrued ∧
        p' = p.swapped direction q accrued := by
  rw [swap_eq, run_get_bind_eq_ok, run_guard_eq_ok, not_isInitialized_iff]
  have hset (quote : SwapQuote) (next : Pool) :
      (do set next; return quote : Faulting Pool SwapQuote).run p = .ok q p' ↔
        quote = q ∧ next = p' := by
    simp only [run_bind_eq_ok, run_set_eq_ok, run_pure_eq_ok, exists_const, exists_eq_left']
  simp only [run_lift_bind_eq_ok, hset]
  constructor
  · rintro ⟨hlive, quote, hquote, accrued, haccrued, rfl, rfl⟩
    exact ⟨hlive, hquote, accrued, haccrued, rfl⟩
  · rintro ⟨hlive, hquote, accrued, haccrued, rfl⟩
    exact ⟨hlive, q, hquote, accrued, haccrued, rfl, rfl⟩

theorem swap_eq_error_iff : (swap direction amountIn fees).run p = .error fault p' ↔
    p' = p ∧ (p.totalShares = 0 ∧ fault = .poolNotInitialized ∨
      p.totalShares ≠ 0 ∧
        (quoteSwap (p.reserveIn direction) (p.reserveOut direction) amountIn fees.swapFeeBps
            fees.protocolFeePpt = .error fault ∨
          ∃ q, quoteSwap (p.reserveIn direction) (p.reserveOut direction) amountIn
              fees.swapFeeBps fees.protocolFeePpt = .ok q ∧
            addAmounts (p.accruedIn direction) q.protocolFee = .error fault)) := by
  rw [swap_eq, run_get_bind_eq_error, run_guard_eq_error, not_isInitialized_iff]
  have hset (quote : SwapQuote) (next : Pool) :
      (do set next; return quote : Faulting Pool SwapQuote).run p ≠ .error fault p' := nofun
  simp only [run_lift_bind_eq_error, hset, and_false, exists_false, or_false]
  constructor
  · rintro (⟨hempty, rfl, rfl⟩ | ⟨hlive, ⟨hquote, rfl⟩ | ⟨quote, hquote, haccrued, rfl⟩⟩)
    · exact ⟨rfl, .inl ⟨hempty, rfl⟩⟩
    · exact ⟨rfl, .inr ⟨hlive, .inl hquote⟩⟩
    · exact ⟨rfl, .inr ⟨hlive, .inr ⟨quote, hquote, haccrued⟩⟩⟩
  · rintro ⟨rfl, ⟨hempty, rfl⟩ | ⟨hlive, hquote | ⟨quote, hquote, haccrued⟩⟩⟩
    · exact .inl ⟨hempty, rfl, rfl⟩
    · exact .inr ⟨hlive, .inl ⟨hquote, rfl⟩⟩
    · exact .inr ⟨hlive, .inr ⟨quote, hquote, haccrued, rfl⟩⟩

end NetSettle.Pool
