import NetSettle.Quantity

/-!
# Faults

Everything that can go wrong, by its cause. A `Fault` voids the whole execution in which it
arises; a `HostFault` is what the outside world answers when it will not move tokens, and is
carried inside a fault. `Fault.class` sorts the faults into seven families, so that a client can
tell a malformed program from a slippage bound or a failed transfer.
-/
namespace NetSettle

inductive FaultClass where
  | malformedProgram
  | ledgerViolation
  | arithmetic
  | invariantViolation
  | boundViolation
  | external
  | access
  deriving DecidableEq, Repr

inductive HostFault where
  | insufficientBalance (token holder : Address) (available required : Word)
  | insufficientAllowance (token owner : Address) (available required : Word)
  | permitExpired (deadline now : UInt64)
  | invalidSignature
  | rejected (reason : String)
  deriving DecidableEq, Repr

inductive FeeProblem where
  | swapFeeTooHigh
  | protocolFeeTooHigh
  | receiverMissing
  | outOfRange
  deriving DecidableEq, Repr

inductive Fault where
  | truncatedProgram (offset needed : Nat)
  | unknownOperation (opcode : UInt8)
  | invalidFieldWidth (width : Nat)
  | zeroLedgerCapacity
  | zeroToken
  | unsortedPair (token0 token1 : Address)
  | unsettledBalances (outstanding : Nat)
  | ledgerFull (capacity : Nat)
  | overflow
  | reserveOverflow
  | poolNotInitialized
  | zeroAmount
  | insufficientLiquidityMinted
  | wrongSettlementSign (token : Address) (delta : Delta)
  | insufficientShares (owner : Address) (available requested : Amount)
  | boundViolation (amount : Word) (min max : Amount)
  | transfer (cause : HostFault)
  | settlementRefused (token : Address)
  | settlementShortfall (token : Address) (expected received : Word)
  | permit (cause : HostFault)
  | reentrancy
  | unauthorized (caller : Address)
  | invalidFeeSettings (problem : FeeProblem)
  | statePoisoned
  deriving DecidableEq, Repr

def Fault.class : Fault → FaultClass
  | .truncatedProgram .. | .unknownOperation _ | .invalidFieldWidth _ | .zeroLedgerCapacity
  | .zeroToken | .unsortedPair .. => .malformedProgram
  | .unsettledBalances _ | .ledgerFull _ => .ledgerViolation
  | .overflow | .reserveOverflow | .poolNotInitialized | .zeroAmount
  | .insufficientLiquidityMinted => .arithmetic
  | .wrongSettlementSign .. | .insufficientShares .. => .invariantViolation
  | .boundViolation .. => .boundViolation
  | .transfer _ | .settlementRefused _ | .settlementShortfall .. | .permit _ => .external
  | .reentrancy | .unauthorized _ | .invalidFeeSettings _ | .statePoisoned => .access

/-- Work that may fault in the middle: what it did before the fault stays done. -/
abbrev Faulting (σ : Type) := EStateM Fault σ

instance liftExcept {ε σ : Type} : MonadLift (Except ε) (EStateM ε σ) where
  monadLift
    | .ok a => fun s => .ok a s
    | .error e => fun s => .error e s

end NetSettle
