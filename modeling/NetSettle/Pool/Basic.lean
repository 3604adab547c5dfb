import NetSettle.Pair
import NetSettle.Pool.Quote

/-!
# Pools

A pool holds a reserve of each of its two tokens, the shares that its owners hold, and the fees
that it keeps for the protocol. The operations change the pool step by step and may fault on the
way; `Pool.swap`, `Pool.addLiquidity` and `Pool.removeLiquidity` take their terms from the
quotes.
-/
namespace NetSettle

structure Pool where
  pair : Pair
  reserve0 : Amount
  reserve1 : Amount
  totalShares : Amount
  accruedFee0 : Amount
  accruedFee1 : Amount
  shares : SortedMap Address Amount
  deriving DecidableEq

namespace Pool

def fresh (pair : Pair) : Pool := ⟨pair, 0, 0, 0, 0, 0, .empty⟩

def isInitialized (p : Pool) : Bool := 0 < p.totalShares

def sharesOf (p : Pool) (owner : Address) : Amount := (p.shares.find? owner).getD 0

def owners (p : Pool) : List (Address × Amount) := p.shares.toList

def swap (direction : Direction) (amountIn : Amount) (fees : FeeSettings) :
    Faulting Pool SwapQuote := do
  let p ← get
  if !p.isInitialized then
    throw .poolNotInitialized
  match direction with
  | .zeroForOne =>
    let quote ← quoteSwap p.reserve0 p.reserve1 amountIn fees.swapFeeBps fees.protocolFeePpt
    let accrued ← addAmounts p.accruedFee0 quote.protocolFee
    set { p with reserve0 := quote.reserveIn, reserve1 := quote.reserveOut, accruedFee0 := accrued }
    return quote
  | .oneForZero =>
    let quote ← quoteSwap p.reserve1 p.reserve0 amountIn fees.swapFeeBps fees.protocolFeePpt
    let accrued ← addAmounts p.accruedFee1 quote.protocolFee
    set { p with reserve1 := quote.reserveIn, reserve0 := quote.reserveOut, accruedFee1 := accrued }
    return quote

def addLiquidity (recipient : Address) (max0 max1 : Amount) : Faulting Pool MintQuote := do
  let p ← get
  let quote ← quoteMint p.reserve0 p.reserve1 p.totalShares max0 max1
  let reserve0 ← addAmounts p.reserve0 quote.amount0
  let reserve1 ← addAmounts p.reserve1 quote.amount1
  let total ← addAmounts p.totalShares quote.shares
  let owned ← addAmounts (p.sharesOf recipient) quote.shares
  set { p with
    reserve0 := reserve0, reserve1 := reserve1, totalShares := total,
    shares := p.shares.insert recipient owned }
  return quote

/-- Burns shares of `owner`. The fields change one after the other; an owner who is left with
nothing loses its entry. -/
def removeLiquidity (owner : Address) (shares : Amount) : Faulting Pool BurnQuote := do
  let p ← get
  let available := p.sharesOf owner
  if available < shares then
    throw (.insufficientShares owner available shares)
  let quote ← quoteBurn p.reserve0 p.reserve1 p.totalShares shares
  let reserve0 ← subAmounts p.reserve0 quote.amount0
  modify ({ · with reserve0 := reserve0 })
  let reserve1 ← subAmounts p.reserve1 quote.amount1
  modify ({ · with reserve1 := reserve1 })
  let total ← subAmounts p.totalShares shares
  modify ({ · with totalShares := total })
  let remaining := available - shares
  modify fun p => { p with
    shares := if remaining = 0 then p.shares.erase owner else p.shares.insert owner remaining }
  return quote

def takeAccruedFees (p : Pool) : (Amount × Amount) × Pool :=
  ((p.accruedFee0, p.accruedFee1), { p with accruedFee0 := 0, accruedFee1 := 0 })

end Pool

end NetSettle
