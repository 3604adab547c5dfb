import NetSettle.Execution.Context

/-!
# Performing operations

Swaps, deposits of liquidity, withdrawals and fee claims change a pool and record on the ledger
what the caller and the pools owe each other. The four settlements clear the entry of a token in
full and move as much between the engine and the caller; an entry of the wrong sign is a fault,
and an entry of zero moves nothing.
-/
namespace NetSettle

namespace Context

variable {σ : Type} [Host σ]

def swap (token0 token1 : Address) (direction : Direction) (amount : SwapAmount) :
    Faulting (Context σ) Unit := do
  let pair ← Pair.canonical token0 token1
  let (tokenIn, tokenOut) := pair.route direction
  let amountIn ← match amount with
    | .exact amount => pure amount
    | .fromLedger => do
      let delta ← balance tokenIn
      if 0 ≤ delta.val then
        throw (.wrongSettlementSign tokenIn delta)
      monadLift (narrow delta.magnitude)
  let fees := (← get).fees
  let quote ← onPool pair (Pool.swap direction amountIn fees)
  change tokenIn (.owedToPool quote.amountIn)
  change tokenOut (.owedToCaller quote.amountOut)
  emit (.swap tokenIn tokenOut quote.amountIn quote.amountOut quote.protocolFee)

def addLiquidity (token0 token1 recipient : Address) (max0 max1 : Amount)
    (minShares : Option Amount) : Faulting (Context σ) Unit := do
  let pair ← Pair.canonical token0 token1
  let minted ← onPool pair (Pool.addLiquidity recipient max0 max1)
  if let some min := minShares then
    if minted.shares < min then
      throw (.boundViolation (Amount.widen minted.shares) min Amount.max)
  change token0 (.owedToPool minted.amount0)
  change token1 (.owedToPool minted.amount1)
  emit (.liquidityAdded token0 token1 recipient minted.shares minted.amount0 minted.amount1)

def removeLiquidity (token0 token1 : Address) (shares : Option Amount) :
    Faulting (Context σ) Unit := do
  let pair ← Pair.canonical token0 token1
  let owner := (← get).caller
  let (shares, burned) ← onPool pair do
    let shares := shares.getD ((← get).sharesOf owner)
    let burned ← Pool.removeLiquidity owner shares
    return (shares, burned)
  change token0 (.owedToCaller burned.amount0)
  change token1 (.owedToCaller burned.amount1)
  emit (.liquidityRemoved token0 token1 owner shares burned.amount0 burned.amount1)

def claimFees (token0 token1 : Address) : Faulting (Context σ) Unit := do
  let c ← get
  if c.caller ≠ c.fees.receiver then
    throw (.unauthorized c.caller)
  let pair ← Pair.canonical token0 token1
  let (amount0, amount1) ← onPool pair (modifyGet Pool.takeAccruedFees)
  change token0 (.owedToCaller amount0)
  change token1 (.owedToCaller amount1)
  emit (.feesClaimed token0 token1 amount0 amount1)

inductive Side where
  | toCaller
  | toPool
  deriving DecidableEq, Repr

def Side.rejects : Side → Delta → Bool
  | .toCaller, delta => 0 < delta.val
  | .toPool, delta => delta.val < 0

/-- Clears the entry of a token and returns its size. The entry is cleared before its sign and the
bounds are checked. -/
def take (token : Address) (side : Side) (bounds : Bounds) : Faulting (Context σ) Word := do
  let token ← requireToken token
  let delta ← clear token
  if side.rejects delta then
    throw (.wrongSettlementSign token delta)
  bounds.check delta.magnitude
  return delta.magnitude

variable (nested : Runner σ)

def sendAll (token recipient : Address) (bounds : Bounds) : Faulting (Context σ) Unit := do
  let amount ← take token .toCaller bounds
  if amount ≠ 0 then
    onHost nested .transfer (.sendOut token recipient amount)
  emit (.settled token (.sent recipient) amount)

def receiveAll (token : Address) (bounds : Bounds) : Faulting (Context σ) Unit := do
  let amount ← take token .toPool bounds
  if amount ≠ 0 then
    let caller := (← get).caller
    onHost nested .transfer (.pullIn token caller amount)
  emit (.settled token .received amount)

def receiveAllViaCallback (token : Address) (bounds : Bounds) :
    Faulting (Context σ) Unit := do
  let amount ← take token .toPool bounds
  if amount ≠ 0 then
    let caller := (← get).caller
    let engine := (← get).engine.address
    let before ← ask nested (.balanceOf token engine)
    let marker ← ask nested (.settle caller token amount)
    if marker ≠ Marker.accepted then
      throw (.settlementRefused token)
    let received := Word.subSaturating (← ask nested (.balanceOf token engine)) before
    if received < amount then
      throw (.settlementShortfall token amount received)
  emit (.settled token .receivedViaCallback amount)

def markReceived (token : Address) (bounds : Bounds) : Faulting (Context σ) Unit := do
  let amount ← take token .toCaller bounds
  if amount ≠ 0 then
    modify fun c => { c with released := c.released ++ [(token, amount)] }
  emit (.settled token .markedReceived amount)

def deposit (token : Address) (amount : Amount) : Faulting (Context σ) Unit := do
  let token ← requireToken token
  if amount = 0 then
    return
  let caller := (← get).caller
  onHost nested .transfer (.pullIn token caller (Amount.widen amount))
  change token (.owedToCaller amount)
  emit (.deposited token amount)

def withdraw (token recipient : Address) (amount : Amount) : Faulting (Context σ) Unit := do
  let token ← requireToken token
  if amount = 0 then
    return
  onHost nested .transfer (.sendOut token recipient (Amount.widen amount))
  change token (.owedToPool amount)
  emit (.withdrawn token recipient amount)

def permit (token : Address) (amount : Amount) (deadline : UInt64) (signature : Signature) :
    Faulting (Context σ) Unit := do
  let token ← requireToken token
  let owner := (← get).caller
  onHost nested .permit (.grantPermit owner token amount deadline signature)
  emit (.permitGranted token amount deadline)

def perform : Operation → Faulting (Context σ) Unit
  | .swap token0 token1 direction amount => swap token0 token1 direction amount
  | .addLiquidity token0 token1 recipient max0 max1 minShares =>
    addLiquidity token0 token1 recipient max0 max1 minShares
  | .removeLiquidity token0 token1 shares => removeLiquidity token0 token1 shares
  | .sendAll token recipient bounds => sendAll nested token recipient bounds
  | .receiveAll token bounds => receiveAll nested token bounds
  | .receiveAllViaCallback token bounds => receiveAllViaCallback nested token bounds
  | .markReceived token bounds => markReceived token bounds
  | .deposit token amount => deposit nested token amount
  | .withdraw token recipient amount => withdraw nested token recipient amount
  | .permit token amount deadline signature => permit nested token amount deadline signature
  | .claimFees token0 token1 => claimFees token0 token1

end Context

end NetSettle
