import NetSettle.FeeSettings
import NetSettle.Program.Operation
import NetSettle.Receipt
import NetSettle.Fault.Message

/-!
# The journal

What the engine and the simulated world write down as they go, one line for each entry.
-/
namespace NetSettle

inductive JournalEntry where
  | operation (index offset : Nat) (kind : OpKind)
  | performed (caller : Address) (event : Event)
  | unsettled (token : Address) (delta : Delta)
  | committed (caller : Address) (operations probes : Nat)
  | failed (caller : Address) (fault : Fault)
  | feesUpdated (settings : FeeSettings)
  | callerShort (fault : HostFault)
  deriving DecidableEq, Repr

def OpKind.name : OpKind → String
  | .swap => "Swap"
  | .addLiquidity => "AddLiquidity"
  | .removeLiquidity => "RemoveLiquidity"
  | .sendAll => "SendAll"
  | .receiveAll => "ReceiveAll"
  | .receiveAllViaCallback => "ReceiveAllViaCallback"
  | .markReceived => "MarkReceived"
  | .deposit => "Deposit"
  | .withdraw => "Withdraw"
  | .permit => "Permit"
  | .claimFees => "ClaimFees"

def Settlement.describe : Settlement → String
  | .sent recipient => "Sent \x7b recipient: " ++ recipient.toHex ++ " \x7d"
  | .received => "Received"
  | .receivedViaCallback => "ReceivedViaCallback"
  | .markedReceived => "MarkedReceived"

def Event.describe (caller : Address) : Event → String
  | .swap tokenIn tokenOut amountIn amountOut protocolFee =>
    s!"swap {amountIn.toNat} " ++ tokenIn.checksummed ++ s!" -> {amountOut.toNat} " ++
      tokenOut.checksummed ++ s!" (protocol fee {protocolFee.toNat})"
  | .liquidityAdded token0 token1 recipient shares amount0 amount1 =>
    "add liquidity " ++ token0.checksummed ++ "/" ++ token1.checksummed ++
      s!": {shares.toNat} shares to " ++ recipient.checksummed ++
      s!" for ({amount0.toNat}, {amount1.toNat})"
  | .liquidityRemoved token0 token1 owner shares amount0 amount1 =>
    "remove liquidity " ++ token0.checksummed ++ "/" ++ token1.checksummed ++
      s!": {shares.toNat} shares from " ++ owner.checksummed ++
      s!" for ({amount0.toNat}, {amount1.toNat})"
  | .settled token kind amount =>
    "settle " ++ kind.describe ++ s!" {amount.toNat} of " ++ token.checksummed
  | .deposited token amount =>
    s!"deposit {amount.toNat} of " ++ token.checksummed ++ " from " ++ caller.checksummed
  | .withdrawn token recipient amount =>
    s!"withdraw {amount.toNat} of " ++ token.checksummed ++ " to " ++ recipient.checksummed
  | .permitGranted token amount deadline =>
    s!"permit {amount.toNat} of " ++ token.checksummed ++ " from " ++ caller.checksummed ++
      s!" until {deadline}"
  | .feesClaimed token0 token1 amount0 amount1 =>
    "claim fees " ++ token0.checksummed ++ "/" ++ token1.checksummed ++
      s!": ({amount0.toNat}, {amount1.toNat})"

def JournalEntry.line : JournalEntry → String
  | .operation index offset kind => s!"DEBUG op #{index} at offset {offset}: {kind.name}"
  | .performed caller event => "DEBUG " ++ event.describe caller
  | .unsettled token delta => "DEBUG unsettled " ++ token.checksummed ++ s!": {delta.val}"
  | .committed caller operations probes =>
    "INFO execution by " ++ caller.checksummed ++
      s!" committed: {operations} operations, {probes} ledger probes"
  | .failed caller fault =>
    "WARN execution by " ++ caller.checksummed ++ s!" failed ({fault.class.name}): " ++
      fault.message
  | .feesUpdated settings =>
    s!"INFO fee settings updated: swap fee {settings.swapFeeBps} bps, " ++
      s!"protocol fee {settings.protocolFeePpt} ppt, receiver " ++ settings.receiver.checksummed
  | .callerShort fault => "WARN simulated caller could not settle: " ++ fault.message

end NetSettle
