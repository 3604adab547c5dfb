import NetSettle.Quantity

/-!
# Receipts

A committed execution answers with a receipt: the events of its operations in order, and the
amounts that were cleared without a transfer and are to be delivered elsewhere.
-/
namespace NetSettle

inductive Settlement where
  | sent (recipient : Address)
  | received
  | receivedViaCallback
  | markedReceived
  deriving DecidableEq, Repr

inductive Event where
  | swap (tokenIn tokenOut : Address) (amountIn amountOut protocolFee : Amount)
  | liquidityAdded (token0 token1 recipient : Address) (shares amount0 amount1 : Amount)
  | liquidityRemoved (token0 token1 owner : Address) (shares amount0 amount1 : Amount)
  | settled (token : Address) (kind : Settlement) (amount : Word)
  | deposited (token : Address) (amount : Amount)
  | withdrawn (token recipient : Address) (amount : Amount)
  | permitGranted (token : Address) (amount : Amount) (deadline : UInt64)
  | feesClaimed (token0 token1 : Address) (amount0 amount1 : Amount)
  deriving DecidableEq, Repr

structure Receipt where
  caller : Address
  operations : Nat
  ledgerCapacity : Nat
  ledgerProbes : Nat
  released : List (Address × Word)
  events : List Event
  deriving DecidableEq, Repr

def Receipt.releasedOf (r : Receipt) (token : Address) : Word :=
  (r.released.filter fun entry => entry.1 = token).foldl
    (fun total entry => Word.addSaturating total entry.2) 0

end NetSettle
