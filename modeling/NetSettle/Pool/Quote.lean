import NetSettle.FeeSettings

/-!
# Prices of a constant-product pool

What a swap pays out, what a deposit mints and what burned shares release. The product of the two
reserves never falls by a swap, and every rounding favours the pool. Products are taken in 256
bits; reserves, shares and amounts must fit 128.
-/
namespace NetSettle

structure SwapQuote where
  amountIn : Amount
  amountOut : Amount
  protocolFee : Amount
  reserveIn : Amount
  reserveOut : Amount
  deriving DecidableEq, Repr

structure MintQuote where
  shares : Amount
  amount0 : Amount
  amount1 : Amount
  deriving DecidableEq, Repr

structure BurnQuote where
  amount0 : Amount
  amount1 : Amount
  deriving DecidableEq, Repr

/-- Prices the sale of exactly `amountIn`. The protocol's part is taken off first and the pool's
part stays in the input reserve; the output reserve becomes the old product over the input reserve
plus what is left to trade with, rounded up. -/
def quoteSwap (reserveIn reserveOut amountIn : Amount) (feeBps ppt : UInt16) :
    Except Fault SwapQuote := do
  if reserveIn = 0 ∨ reserveOut = 0 then
    throw .poolNotInitialized
  if amountIn = 0 then
    throw .zeroAmount
  if feeBps.toNat ≥ 10000 ∨ ppt.toNat ≥ 1000 then
    throw (.invalidFeeSettings .outOfRange)
  let skim ← narrow (← mulDivDown amountIn (BitVec.ofNat 128 ppt.toNat) pptScale)
  let net := amountIn - skim
  let effective ← mulDivDown net (bpsScale - BitVec.ofNat 128 feeBps.toNat) bpsScale
  let newIn ← addAmounts reserveIn net
  let product := Amount.widen reserveIn * Amount.widen reserveOut
  let newOut ← narrow (← divUp product (Amount.widen reserveIn + effective))
  return ⟨amountIn, reserveOut - newOut, skim, newIn, newOut⟩

/-- Prices a deposit of at most `max0` and `max1`. The first deposit is taken whole, mints the
square root of its product and so sets the price. A later one mints as many shares as both
maxima allow and is charged what those shares cost on each side, rounded up. -/
def quoteMint (reserve0 reserve1 totalShares max0 max1 : Amount) : Except Fault MintQuote := do
  if max0 = 0 ∨ max1 = 0 then
    throw .zeroAmount
  if totalShares = 0 then
    let shares ← narrow (sqrt (Amount.widen max0 * Amount.widen max1))
    if shares = 0 then
      throw .insufficientLiquidityMinted
    return ⟨shares, max0, max1⟩
  if reserve0 = 0 ∨ reserve1 = 0 then
    throw .poolNotInitialized
  let by0 ← mulDivDown max0 totalShares reserve0
  let by1 ← mulDivDown max1 totalShares reserve1
  let shares ← narrow (if by0 ≤ by1 then by0 else by1)
  if shares = 0 then
    throw .insufficientLiquidityMinted
  let amount0 ← narrow (← mulDivUp shares reserve0 totalShares)
  let amount1 ← narrow (← mulDivUp shares reserve1 totalShares)
  return ⟨shares, amount0, amount1⟩

def quoteBurn (reserve0 reserve1 totalShares shares : Amount) : Except Fault BurnQuote := do
  if shares = 0 then
    throw .zeroAmount
  if totalShares = 0 then
    throw .poolNotInitialized
  if shares > totalShares then
    throw .overflow
  let amount0 ← narrow (← mulDivDown shares reserve0 totalShares)
  let amount1 ← narrow (← mulDivDown shares reserve1 totalShares)
  return ⟨amount0, amount1⟩

end NetSettle
