import NetSettle.Program.Operation
import NetSettle.Proofs.Pool.Holding
import NetSettle.Proofs.Pool.Sound

/-!
# Deals with pools

Four kinds of operations deal with one pool each, and an event says what became of it. A deal
depends on the pool, on the caller and the fee settings, and on what the caller is owed when its
input is taken from the ledger. All other operations leave the pools alone and change the caller's
debt by what they settle, deposit or withdraw.
-/
namespace NetSettle

open Faulting

def Event.pair? : Event → Option Pair
  | .swap tokenIn tokenOut _ _ _ =>
    some (if tokenIn < tokenOut then ⟨tokenIn, tokenOut⟩ else ⟨tokenOut, tokenIn⟩)
  | .liquidityAdded token0 token1 .. | .liquidityRemoved token0 token1 ..
  | .feesClaimed token0 token1 .. => some ⟨token0, token1⟩
  | .settled .. | .deposited .. | .withdrawn .. | .permitGranted .. => none

namespace Event

variable {e : Event} {pair : Pair}

theorem pooled_of_pair?_none (h : e.pair? = none) (t : Address) : e.pooled t = 0 := by
  cases e with
  | swap | liquidityAdded | liquidityRemoved | feesClaimed => cases h
  | settled | deposited | withdrawn | permitGranted => rfl

theorem paid_of_pair? (h : e.pair? = some pair) (t : Address) : e.paid t = 0 := by
  cases e with
  | swap | liquidityAdded | liquidityRemoved | feesClaimed => rfl
  | settled | deposited | withdrawn | permitGranted => cases h

theorem delivered_of_pair? (h : e.pair? = some pair) (caller holder t : Address) :
    e.delivered caller holder t = 0 := by
  cases e with
  | swap | liquidityAdded | liquidityRemoved | feesClaimed => rfl
  | settled | deposited | withdrawn | permitGranted => cases h

theorem due_of_pair? (h : e.pair? = some pair) : e.due = [] := by
  cases e with
  | swap | liquidityAdded | liquidityRemoved | feesClaimed => rfl
  | settled | deposited | withdrawn | permitGranted => cases h

end Event

def SwapAmount.resolve (debt : Int) : SwapAmount → Amount
  | .exact amount => amount
  | .fromLedger => BitVec.ofInt 128 (-debt)

structure Deal where
  pair : Pair
  work : Faulting Pool Event

namespace Operation

def pair? : Operation → Option Pair
  | .swap token0 token1 .. | .addLiquidity token0 token1 .. | .removeLiquidity token0 token1 _
  | .claimFees token0 token1 => some ⟨token0, token1⟩
  | .sendAll .. | .receiveAll .. | .receiveAllViaCallback .. | .markReceived .. | .deposit ..
  | .withdraw .. | .permit .. => none

/-- The deal that an operation makes for a caller with the given debts, if it makes one. -/
def deal? (caller : Address) (fees : FeeSettings) (debt : Address → Int) : Operation → Option Deal
  | .swap token0 token1 direction amount =>
    let pair : Pair := ⟨token0, token1⟩
    let (tokenIn, tokenOut) := pair.route direction
    some ⟨pair, do
      let quote ← Pool.swap direction (amount.resolve (debt tokenIn)) fees
      return .swap tokenIn tokenOut quote.amountIn quote.amountOut quote.protocolFee⟩
  | .addLiquidity token0 token1 recipient max0 max1 _ =>
    some ⟨⟨token0, token1⟩, do
      let minted ← Pool.addLiquidity recipient max0 max1
      return .liquidityAdded token0 token1 recipient minted.shares minted.amount0 minted.amount1⟩
  | .removeLiquidity token0 token1 shares =>
    some ⟨⟨token0, token1⟩, do
      let shares := shares.getD ((← get).sharesOf caller)
      let burned ← Pool.removeLiquidity caller shares
      return .liquidityRemoved token0 token1 caller shares burned.amount0 burned.amount1⟩
  | .claimFees token0 token1 =>
    some ⟨⟨token0, token1⟩, do
      let (amount0, amount1) ← modifyGet Pool.takeAccruedFees
      return .feesClaimed token0 token1 amount0 amount1⟩
  | .sendAll .. | .receiveAll .. | .receiveAllViaCallback .. | .markReceived .. | .deposit ..
  | .withdraw .. | .permit .. => none

def posting (debt : Address → Int) : Operation → Address → Int
  | .sendAll token _ _, t | .receiveAll token _, t | .receiveAllViaCallback token _, t
  | .markReceived token _, t => only token (-debt token) t
  | .deposit token amount, t => only token (-amount.toNat) t
  | .withdraw token _ amount, t => only token amount.toNat t
  | .swap .., _ | .addLiquidity .., _ | .removeLiquidity .., _ | .claimFees .., _
  | .permit .., _ => 0

variable {op : Operation} {caller : Address} {fees : FeeSettings} {debt : Address → Int}
  {deal : Deal}

theorem pair?_of_deal? (h : op.deal? caller fees debt = some deal) :
    op.pair? = some deal.pair := by
  cases op with
  | swap | addLiquidity | removeLiquidity | claimFees =>
    cases h
    rfl
  | sendAll | receiveAll | receiveAllViaCallback | markReceived | deposit | withdraw | permit =>
    cases h

theorem tokens_of_deal? (h : op.deal? caller fees debt = some deal) :
    op.tokens = [deal.pair.token0, deal.pair.token1] := by
  cases op with
  | swap | addLiquidity | removeLiquidity | claimFees =>
    cases h
    rfl
  | sendAll | receiveAll | receiveAllViaCallback | markReceived | deposit | withdraw | permit =>
    cases h

end Operation

inductive Pool.Dealt (pair : Pair) (p : Pool) : Event → Pool → Prop
  | swap {direction : Direction} {amountIn : Amount} {fees : FeeSettings} {quote : SwapQuote}
      {p' : Pool} (h : (Pool.swap direction amountIn fees).run p = .ok quote p') :
      Dealt pair p (.swap (pair.route direction).1 (pair.route direction).2 quote.amountIn
        quote.amountOut quote.protocolFee) p'
  | addLiquidity {recipient : Address} {max0 max1 : Amount} {quote : MintQuote} {p' : Pool}
      (h : (Pool.addLiquidity recipient max0 max1).run p = .ok quote p') :
      Dealt pair p (.liquidityAdded pair.token0 pair.token1 recipient quote.shares quote.amount0
        quote.amount1) p'
  | removeLiquidity {owner : Address} {shares : Amount} {quote : BurnQuote} {p' : Pool}
      (h : (Pool.removeLiquidity owner shares).run p = .ok quote p') :
      Dealt pair p (.liquidityRemoved pair.token0 pair.token1 owner shares quote.amount0
        quote.amount1) p'
  | claimFees :
      Dealt pair p (.feesClaimed pair.token0 pair.token1 p.accruedFee0 p.accruedFee1)
        p.takeAccruedFees.2

theorem Operation.dealt_of_deal? {op : Operation} {caller : Address} {fees : FeeSettings}
    {debt : Address → Int} {deal : Deal} (h : op.deal? caller fees debt = some deal) {p p' : Pool}
    {e : Event} (hrun : deal.work.run p = .ok e p') : p.Dealt deal.pair e p' := by
  cases op with
  | swap =>
    cases h
    simp only [run_bind_eq_ok, run_pure_eq_ok] at hrun
    obtain ⟨quote, _, hswap, rfl, rfl⟩ := hrun
    exact .swap hswap
  | addLiquidity =>
    cases h
    simp only [run_bind_eq_ok, run_pure_eq_ok] at hrun
    obtain ⟨quote, _, hadd, rfl, rfl⟩ := hrun
    exact .addLiquidity hadd
  | removeLiquidity =>
    cases h
    simp only [run_bind_eq_ok, run_get_eq_ok, run_pure_eq_ok] at hrun
    obtain ⟨_, _, ⟨rfl, rfl⟩, quote, _, hremove, rfl, rfl⟩ := hrun
    exact .removeLiquidity hremove
  | claimFees =>
    cases h
    simp only [run_bind_eq_ok, run_modifyGet_eq_ok, run_pure_eq_ok] at hrun
    obtain ⟨_, _, ⟨rfl, rfl⟩, rfl, rfl⟩ := hrun
    exact .claimFees
  | sendAll | receiveAll | receiveAllViaCallback | markReceived | deposit | withdraw | permit =>
    cases h

namespace Pool.Dealt

variable {pair : Pair} {p p' : Pool} {e : Event}

theorem pair_eq (h : p.Dealt pair e p') : p'.pair = p.pair := by
  cases h with
  | swap h => exact (holding_swap h).1
  | addLiquidity h => exact (holding_addLiquidity h).1
  | removeLiquidity h => exact (holding_removeLiquidity h).1
  | claimFees => rfl

theorem sound (h : p.Dealt pair e p') (hp : p.Sound) : p'.Sound := by
  cases h with
  | swap h => exact hp.swap h
  | addLiquidity h => exact hp.addLiquidity h
  | removeLiquidity h => exact hp.removeLiquidity h
  | claimFees => exact hp.takeAccruedFees

theorem holding (h : p.Dealt pair e p') (hkey : p.pair = pair) (t : Address) :
    p'.holding t = p.holding t + e.pooled t := by
  subst hkey
  cases h with
  | swap h => exact (holding_swap h).2 t
  | addLiquidity h => exact (holding_addLiquidity h).2 t
  | removeLiquidity h => exact (holding_removeLiquidity h).2 t
  | claimFees => exact holding_takeAccruedFees p t

theorem pair?_eq (h : p.Dealt pair e p') (hlt : pair.token0 < pair.token1) :
    e.pair? = some pair := by
  cases h with
  | @swap direction =>
    cases direction with
    | zeroForOne => exact congrArg some (if_pos hlt)
    | oneForZero => exact congrArg some (if_neg (BitVec.not_lt.2 (BitVec.le_of_lt hlt)))
  | addLiquidity => rfl
  | removeLiquidity => rfl
  | claimFees => rfl

end Pool.Dealt

end NetSettle
