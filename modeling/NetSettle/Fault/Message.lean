import NetSettle.Fault
import NetSettle.Text.Checksum

/-!
# What faults are called

The text of each fault. Addresses are checksummed and numbers are decimal.
-/
namespace NetSettle

def FaultClass.name : FaultClass → String
  | .malformedProgram => "MalformedProgram"
  | .ledgerViolation => "LedgerViolation"
  | .arithmetic => "Arithmetic"
  | .invariantViolation => "InvariantViolation"
  | .boundViolation => "BoundViolation"
  | .external => "External"
  | .access => "Access"

def HostFault.message : HostFault → String
  | .insufficientBalance token holder available required =>
    "insufficient balance of " ++ token.checksummed ++ " for " ++ holder.checksummed ++
      s!": have {available.toNat}, need {required.toNat}"
  | .insufficientAllowance token owner available required =>
    "insufficient allowance of " ++ token.checksummed ++ " from " ++ owner.checksummed ++
      s!": have {available.toNat}, need {required.toNat}"
  | .permitExpired deadline now => s!"permit expired at {deadline} (now {now})"
  | .invalidSignature => "invalid permit signature"
  | .rejected reason => s!"host rejected the request: {reason}"

def FeeProblem.message : FeeProblem → String
  | .swapFeeTooHigh => "swap fee must be below 10000 bps"
  | .protocolFeeTooHigh => "protocol fee must be below 1000 ppt"
  | .receiverMissing => "protocol fee needs a fee receiver"
  | .outOfRange => "fee out of range"

def Fault.message : Fault → String
  | .truncatedProgram offset needed =>
    s!"program truncated at offset {offset}: {needed} more bytes needed"
  | .unknownOperation opcode =>
    "unknown operation in opcode " ++ Hex.encode [opcode]
  | .invalidFieldWidth width => s!"invalid field width {width} (must be 1..=32)"
  | .zeroLedgerCapacity => "ledger capacity must be non-zero"
  | .zeroToken => "zero token identifier"
  | .unsortedPair token0 token1 =>
    "pool tokens " ++ token0.checksummed ++ " / " ++ token1.checksummed ++
      " are not in canonical order"
  | .unsettledBalances outstanding => s!"{outstanding} token balance(s) left unsettled"
  | .ledgerFull capacity => s!"ledger full: no free slot among {capacity}"
  | .overflow => "arithmetic overflow"
  | .reserveOverflow => "reserve exceeds 128 bits"
  | .poolNotInitialized => "pool has no liquidity"
  | .zeroAmount => "amount must be non-zero"
  | .insufficientLiquidityMinted => "deposit too small to mint any liquidity"
  | .wrongSettlementSign token delta =>
    "settlement of " ++ token.checksummed ++ s!" observed delta {delta.val} with the wrong sign"
  | .insufficientShares owner available requested =>
    "owner " ++ owner.checksummed ++
      s!" holds {available.toNat} shares, {requested.toNat} requested"
  | .boundViolation amount min max =>
    s!"amount {amount.toNat} outside bounds [{min.toNat}, {max.toNat}]"
  | .transfer cause => "token transfer failed: " ++ cause.message
  | .settlementRefused token => "settlement callback refused for " ++ token.checksummed
  | .settlementShortfall token expected received =>
    "settlement of " ++ token.checksummed ++
      s!" short: expected {expected.toNat}, received {received.toNat}"
  | .permit cause => "permit failed: " ++ cause.message
  | .reentrancy => "re-entrant execution rejected"
  | .unauthorized caller => "caller " ++ caller.checksummed ++ " is not authorized"
  | .invalidFeeSettings problem => "invalid fee settings: " ++ problem.message
  | .statePoisoned => "engine state lock poisoned"

end NetSettle
