import NetSettle.Receipt
import Mathlib.Algebra.BigOperators.Group.List.Basic
import Mathlib.Algebra.Order.Ring.Int

/-!
# Flows of tokens

What an event moves, token by token and in exact numbers: what it adds to the caller's debt, to
the holdings of the pools, to the engine's balance, and to what is to be delivered elsewhere. Every
event balances: debt and balance together grow by as much as the pools and the deliveries.
-/
namespace NetSettle

def only (token : Address) (n : Int) (t : Address) : Int := if t = token then n else 0

@[simp] theorem only_zero (token t : Address) : only token 0 t = 0 := ite_self 0

@[simp] theorem only_self (token : Address) (n : Int) : only token n token = n := if_pos rfl

theorem only_of_ne {token t : Address} (h : t ≠ token) (n : Int) : only token n t = 0 := if_neg h

theorem only_neg (token t : Address) (n : Int) : only token (-n) t = -only token n t := by
  unfold only
  split <;> rfl

theorem only_nonneg {n : Int} (h : 0 ≤ n) (token t : Address) : 0 ≤ only token n t := by
  unfold only
  split
  · exact h
  · exact Int.le_refl 0

theorem only_le_only {m n : Int} (h : m ≤ n) (token t : Address) :
    only token m t ≤ only token n t := by
  unfold only
  split
  · exact h
  · exact Int.le_refl 0

namespace Event

/-- What an event adds to the debt of the caller. -/
def net : Event → Address → Int
  | .swap tokenIn tokenOut amountIn amountOut _, t =>
    only tokenIn amountIn.toNat t - only tokenOut amountOut.toNat t
  | .liquidityAdded token0 token1 _ _ amount0 amount1, t =>
    only token0 amount0.toNat t + only token1 amount1.toNat t
  | .liquidityRemoved token0 token1 _ _ amount0 amount1, t
  | .feesClaimed token0 token1 amount0 amount1, t =>
    -only token0 amount0.toNat t - only token1 amount1.toNat t
  | .settled token (.sent _) amount, t | .settled token .markedReceived amount, t =>
    only token amount.toNat t
  | .settled token .received amount, t | .settled token .receivedViaCallback amount, t =>
    -only token amount.toNat t
  | .deposited token amount, t => -only token amount.toNat t
  | .withdrawn token _ amount, t => only token amount.toNat t
  | .permitGranted _ _ _, _ => 0

def pooled : Event → Address → Int
  | .swap tokenIn tokenOut amountIn amountOut _, t =>
    only tokenIn amountIn.toNat t - only tokenOut amountOut.toNat t
  | .liquidityAdded token0 token1 _ _ amount0 amount1, t =>
    only token0 amount0.toNat t + only token1 amount1.toNat t
  | .liquidityRemoved token0 token1 _ _ amount0 amount1, t
  | .feesClaimed token0 token1 amount0 amount1, t =>
    -only token0 amount0.toNat t - only token1 amount1.toNat t
  | .settled .., _ | .deposited .., _ | .withdrawn .., _ | .permitGranted .., _ => 0

def paid : Event → Address → Int
  | .settled token (.sent _) amount, t => -only token amount.toNat t
  | .settled token .received amount, t | .settled token .receivedViaCallback amount, t =>
    only token amount.toNat t
  | .deposited token amount, t => only token amount.toNat t
  | .withdrawn token _ amount, t => -only token amount.toNat t
  | .settled _ .markedReceived _, _ | .swap .., _ | .liquidityAdded .., _
  | .liquidityRemoved .., _ | .feesClaimed .., _ | .permitGranted .., _ => 0

def released : Event → Address → Int
  | .settled token .markedReceived amount, t => only token amount.toNat t
  | .settled _ (.sent _) _, _ | .settled _ .received _, _ | .settled _ .receivedViaCallback _, _
  | .swap .., _ | .liquidityAdded .., _ | .liquidityRemoved .., _ | .feesClaimed .., _
  | .deposited .., _ | .withdrawn .., _ | .permitGranted .., _ => 0

/-- What an event of `caller` moves to `holder`, if that is not the engine. -/
def delivered (caller holder : Address) : Event → Address → Int
  | .settled token (.sent recipient) amount, t =>
    if holder = recipient then only token amount.toNat t else 0
  | .settled token .received amount, t | .settled token .receivedViaCallback amount, t =>
    if holder = caller then -only token amount.toNat t else 0
  | .deposited token amount, t => if holder = caller then -only token amount.toNat t else 0
  | .withdrawn token recipient amount, t =>
    if holder = recipient then only token amount.toNat t else 0
  | .settled _ .markedReceived _, _ | .swap .., _ | .liquidityAdded .., _
  | .liquidityRemoved .., _ | .feesClaimed .., _ | .permitGranted .., _ => 0

def due : Event → List (Address × Word)
  | .settled token .markedReceived amount => if amount = 0 then [] else [(token, amount)]
  | .settled _ (.sent _) _ | .settled _ .received _ | .settled _ .receivedViaCallback _
  | .swap .. | .liquidityAdded .. | .liquidityRemoved .. | .feesClaimed .. | .deposited ..
  | .withdrawn .. | .permitGranted .. => []

theorem due_of_settled_zero {token : Address} {kind : Settlement} {n : Word} (hzero : n = 0) :
    (Event.settled token kind n).due = [] := by
  cases kind with
  | markedReceived => exact if_pos hzero
  | sent | received | receivedViaCallback => rfl

theorem balanced (e : Event) (t : Address) :
    e.net t + e.paid t = e.pooled t + e.released t := by
  cases e with
  | settled token kind amount => cases kind <;> simp [net, paid, pooled, released]
  | swap | liquidityAdded | liquidityRemoved | deposited | withdrawn | permitGranted
  | feesClaimed => simp [net, paid, pooled, released]

end Event

def flow (f : Event → Address → Int) (events : List Event) (t : Address) : Int :=
  (events.map fun e => f e t).sum

section

variable (f : Event → Address → Int) (t : Address)

@[simp] theorem flow_singleton (e : Event) : flow f [e] t = f e t := by simp [flow]

theorem flow_append (events more : List Event) :
    flow f (events ++ more) t = flow f events t + flow f more t := by
  simp [flow]

end

theorem flow_balanced (events : List Event) (t : Address) :
    flow Event.net events t + flow Event.paid events t =
      flow Event.pooled events t + flow Event.released events t := by
  induction events with
  | nil => rfl
  | cons e events ih =>
    have he := e.balanced t
    unfold flow at ih ⊢
    simp only [List.map_cons, List.sum_cons]
    omega

def totalOf (amounts : List (Address × Word)) (t : Address) : Int :=
  (amounts.map fun entry => only entry.1 entry.2.toNat t).sum

@[simp] theorem totalOf_nil (t : Address) : totalOf [] t = 0 := rfl

theorem totalOf_append (amounts more : List (Address × Word)) (t : Address) :
    totalOf (amounts ++ more) t = totalOf amounts t + totalOf more t := by
  simp [totalOf]

theorem totalOf_due (e : Event) (t : Address) : totalOf e.due t = e.released t := by
  cases e with
  | settled token kind amount =>
    cases kind with
    | markedReceived =>
      by_cases hzero : amount = 0
      · subst hzero
        exact (only_zero token t).symm
      · simp only [Event.due, Event.released, if_neg hzero]
        exact Int.add_zero _
    | sent | received | receivedViaCallback => rfl
  | swap | liquidityAdded | liquidityRemoved | deposited | withdrawn | permitGranted
  | feesClaimed => rfl

theorem totalOf_flatMap_due (events : List Event) (t : Address) :
    totalOf (events.flatMap Event.due) t = flow Event.released events t := by
  induction events with
  | nil => rfl
  | cons e events ih =>
    rw [List.flatMap_cons, totalOf_append, totalOf_due, ih]
    exact List.sum_cons.symm

end NetSettle
