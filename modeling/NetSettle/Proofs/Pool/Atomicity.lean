import NetSettle.Proofs.Pool.Operations
import NetSettle.Proofs.Pool.SwapPrice

/-!
# Calls on a pool that take effect as a whole

A call on a pool either is refused and leaves every field as it was, or is done and writes the few
fields that are its own. This holds of any pool, also of one whose numbers do not go together: a
burning writes its fields one after the other, but once its price is quoted nothing on the way can
fail, for its price is never more than the reserves.
-/
namespace NetSettle.Pool

open Faulting

/-- How a call ended that was made on a pool: with a fault and the pool as it was, or with an answer
and a pool that has changed. -/
inductive Atomic {α : Type} (p : Pool) (refusal : Fault → Prop) (change : α → Pool → Prop) :
    EStateM.Result Fault Pool α → Prop
  | refused {fault : Fault} (h : refusal fault) : Atomic p refusal change (.error fault p)
  | done {a : α} {p' : Pool} (h : change a p') : Atomic p refusal change (.ok a p')

structure Exchanged (p p' : Pool) (direction : Direction) (q : SwapQuote) : Prop where
  frame : ∃ accrued, p' = p.swapped direction q accrued
  reserveIn : (p'.reserveIn direction).toNat + q.protocolFee.toNat =
    (p.reserveIn direction).toNat + q.amountIn.toNat
  reserveOut : (p'.reserveOut direction).toNat + q.amountOut.toNat =
    (p.reserveOut direction).toNat
  accrued : (p'.accruedIn direction).toNat =
    (p.accruedIn direction).toNat + q.protocolFee.toNat

structure Deposited (p p' : Pool) (recipient : Address) (q : MintQuote) : Prop where
  minted : p.Minted p' recipient q
  others : ∀ other, other ≠ recipient → p'.shares.find? other = p.shares.find? other

structure Withdrawn (p p' : Pool) (owner : Address) (shares : Amount) (q : BurnQuote) : Prop where
  burned : p.Burned p' owner shares q
  entry : p'.shares.find? owner = none ↔ p'.sharesOf owner = 0
  others : ∀ other, other ≠ owner → p'.shares.find? other = p.shares.find? other

inductive DepositRefusal (p : Pool) (max0 max1 : Amount) : Fault → Prop
  | unquoted {fault : Fault}
      (h : quoteMint p.reserve0 p.reserve1 p.totalShares max0 max1 = .error fault) :
      DepositRefusal p max0 max1 fault
  | overfull : DepositRefusal p max0 max1 .reserveOverflow

inductive BurnRefusal (p : Pool) (owner : Address) (shares : Amount) : Fault → Prop
  | unowned (h : p.sharesOf owner < shares) :
      BurnRefusal p owner shares (.insufficientShares owner (p.sharesOf owner) shares)
  | unquoted {fault : Fault}
      (h : quoteBurn p.reserve0 p.reserve1 p.totalShares shares = .error fault) :
      BurnRefusal p owner shares fault

variable {p p' : Pool}

@[simp] theorem accruedIn_swapped {direction : Direction} {q : SwapQuote} {accrued : Amount} :
    (p.swapped direction q accrued).accruedIn direction = accrued := by
  cases direction <;> rfl

theorem atomic_swap (p : Pool) (direction : Direction) (amountIn : Amount) (fees : FeeSettings) :
    p.Atomic (· ≠ .overflow) (fun q p' => p.Exchanged p' direction q)
      ((swap direction amountIn fees).run p) := by
  cases hrun : (swap direction amountIn fees).run p with
  | ok q p' =>
    obtain ⟨-, hquote, accrued, haccrued, rfl⟩ := swap_eq_ok_iff.1 hrun
    have hprices := quoteSwap_eq_ok hquote
    have hin := hprices.in_eq
    have hfee := hprices.fee_le
    refine .done ⟨⟨accrued, rfl⟩, ?_, ?_, ?_⟩
    · rw [reserveIn_swapped, hprices.amountIn_eq]
      omega
    · rw [reserveOut_swapped, Nat.add_comm]
      exact hprices.paid_eq
    · rw [accruedIn_swapped]
      exact addAmounts_eq_ok haccrued
  | error fault p' =>
    obtain ⟨rfl, ⟨-, rfl⟩ | ⟨-, hquote | ⟨q, -, hadd⟩⟩⟩ := swap_eq_error_iff.1 hrun
    · exact .refused nofun
    · refine .refused ?_
      rintro rfl
      exact quoteSwap_ne_overflow _ _ _ _ _ hquote
    · obtain ⟨-, rfl⟩ := addAmounts_eq_error.1 hadd
      exact .refused nofun

theorem Minted.find?_of_ne {recipient other : Address} {q : MintQuote}
    (h : p.Minted p' recipient q) (hne : other ≠ recipient) :
    p'.shares.find? other = p.shares.find? other := by
  obtain ⟨owned, -, hshares⟩ := h.owned
  rw [hshares, SortedMap.find?_insert_ne _ hne]

theorem atomic_addLiquidity (p : Pool) (recipient : Address) (max0 max1 : Amount) :
    p.Atomic (p.DepositRefusal max0 max1) (fun q p' => p.Deposited p' recipient q)
      ((addLiquidity recipient max0 max1).run p) := by
  cases hrun : (addLiquidity recipient max0 max1).run p with
  | ok q p' =>
    obtain ⟨-, hminted⟩ := addLiquidity_eq_ok hrun
    exact .done ⟨hminted, fun other hne => hminted.find?_of_ne hne⟩
  | error fault p' =>
    obtain ⟨rfl, hquote | ⟨-, -, rfl, -⟩⟩ := addLiquidity_eq_error hrun
    · exact .refused (.unquoted hquote)
    · exact .refused .overfull

theorem Burned.find?_owner {owner : Address} {shares : Amount} {q : BurnQuote}
    (h : p.Burned p' owner shares q) :
    p'.shares.find? owner = none ↔ p'.sharesOf owner = 0 := by
  obtain ⟨remaining, -, hshares⟩ := h.owned
  rw [sharesOf, hshares]
  by_cases hzero : remaining = 0
  · rw [if_pos hzero, SortedMap.find?_erase_self]
    exact iff_of_true rfl rfl
  · rw [if_neg hzero, SortedMap.find?_insert_self]
    exact iff_of_false (Option.some_ne_none remaining) hzero

theorem atomic_removeLiquidity (p : Pool) (owner : Address) (shares : Amount) :
    p.Atomic (p.BurnRefusal owner shares) (fun q p' => p.Withdrawn p' owner shares q)
      ((removeLiquidity owner shares).run p) := by
  cases hrun : (removeLiquidity owner shares).run p with
  | ok q p' =>
    obtain ⟨-, hburned⟩ := removeLiquidity_eq_ok hrun
    exact .done ⟨hburned, hburned.find?_owner, fun other hne => hburned.find?_of_ne hne⟩
  | error fault p' =>
    obtain ⟨rfl, ⟨hmore, rfl⟩ | ⟨-, hquote⟩⟩ := removeLiquidity_eq_error hrun
    · exact .refused (.unowned hmore)
    · exact .refused (.unquoted hquote)

/-- Calls on any pool take effect as a whole or not at all, and none takes away more than there is:
the quote of a swap is the same if each of its steps checks, and what else is subtracted are the
parts of a burning, which are refused before anything is written or leave a remainder. -/
theorem operations_atomic (p : Pool) :
    (∀ direction amountIn fees,
      p.Atomic (· ≠ .overflow) (fun q p' => p.Exchanged p' direction q)
        ((swap direction amountIn fees).run p) ∧
      quoteSwapStrict (p.reserveIn direction) (p.reserveOut direction) amountIn fees.swapFeeBps
          fees.protocolFeePpt =
        quoteSwap (p.reserveIn direction) (p.reserveOut direction) amountIn fees.swapFeeBps
          fees.protocolFeePpt) ∧
    (∀ recipient max0 max1,
      p.Atomic (p.DepositRefusal max0 max1) (fun q p' => p.Deposited p' recipient q)
        ((addLiquidity recipient max0 max1).run p)) ∧
    ∀ owner shares,
      p.Atomic (p.BurnRefusal owner shares) (fun q p' => p.Withdrawn p' owner shares q)
        ((removeLiquidity owner shares).run p) := by
  refine ⟨fun direction amountIn fees => ?_, p.atomic_addLiquidity, p.atomic_removeLiquidity⟩
  exact ⟨p.atomic_swap direction amountIn fees, quoteSwapStrict_eq ..⟩

example :
    let p : Pool := ⟨⟨1, 2⟩, 10, 10, 5, 0, 0, SortedMap.empty.insert 7 9⟩
    (removeLiquidity 7 9).run p = .error .overflow p := by
  rfl

end NetSettle.Pool
