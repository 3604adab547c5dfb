import NetSettle.Proofs.Keeping
import NetSettle.Proofs.Pool.Dilution
import Mathlib.Data.List.Infix

/-!
# Trading with a pool

Anybody may trade with a pool, any number of times and at any fees, and a trade that fails leaves
the pool as it was. Whatever the trades, each share stands for as much of the product of both
reserves as before or for more. So parties who leave a pool with as many shares as it had cannot
have taken out as much as they paid in of both tokens, and more of one.
-/
namespace NetSettle

structure Turnover where
  paid0 : Nat
  paid1 : Nat
  received0 : Nat
  received1 : Nat
  deriving DecidableEq, Repr

namespace Turnover

def none : Turnover := ⟨0, 0, 0, 0⟩

def add (t u : Turnover) : Turnover :=
  ⟨t.paid0 + u.paid0, t.paid1 + u.paid1, t.received0 + u.received0, t.received1 + u.received1⟩

/-- Nothing is lost on either token, and something is won on one. -/
def Profits (t : Turnover) : Prop :=
  t.paid0 ≤ t.received0 ∧ t.paid1 ≤ t.received1 ∧
    (t.paid0 < t.received0 ∨ t.paid1 < t.received1)

end Turnover

def SwapQuote.turnover (q : SwapQuote) : Direction → Turnover
  | .zeroForOne => ⟨q.amountIn.toNat, 0, 0, q.amountOut.toNat⟩
  | .oneForZero => ⟨0, q.amountIn.toNat, q.amountOut.toNat, 0⟩

namespace Pool

open Faulting

inductive Trade where
  | swap (direction : Direction) (amountIn : Amount) (fees : FeeSettings)
  | addLiquidity (recipient : Address) (max0 max1 : Amount)
  | removeLiquidity (owner : Address) (shares : Amount)
  deriving DecidableEq, Repr

def Trade.make : Trade → Faulting Pool Turnover
  | .swap direction amountIn fees => do
    let quote ← Pool.swap direction amountIn fees
    return quote.turnover direction
  | .addLiquidity recipient max0 max1 => do
    let quote ← Pool.addLiquidity recipient max0 max1
    return ⟨quote.amount0.toNat, quote.amount1.toNat, 0, 0⟩
  | .removeLiquidity owner shares => do
    let quote ← Pool.removeLiquidity owner shares
    return ⟨0, 0, quote.amount0.toNat, quote.amount1.toNat⟩

/-- Makes one trade after the other and adds up what is paid and received. A trade that fails does
not end the sequence. -/
def trade : List Trade → Pool → Turnover × Pool
  | [], p => (.none, p)
  | t :: later, p =>
    match t.make.run p with
    | .ok turnover p =>
      let (rest, p) := trade later p
      (turnover.add rest, p)
    | .error _ p => trade later p

/-- What trades do to a pool: the product of the reserves for the square of the shares does not
fall, and of each token no more stays in the reserve than was paid and not taken out. -/
structure Traded (p p' : Pool) (t : Turnover) : Prop where
  value : p.reserve0.toNat * p.reserve1.toNat * p'.totalShares.toNat ^ 2 ≤
    p'.reserve0.toNat * p'.reserve1.toNat * p.totalShares.toNat ^ 2
  reserve0 : p'.reserve0.toNat + t.received0 ≤ p.reserve0.toNat + t.paid0
  reserve1 : p'.reserve1.toNat + t.received1 ≤ p.reserve1.toNat + t.paid1

theorem traded_refl (p : Pool) : p.Traded p .none := ⟨le_rfl, le_rfl, le_rfl⟩

theorem Traded.trans {p q r : Pool} {t u : Turnover} (hq : q.totalShares ≠ 0)
    (h : p.Traded q t) (h' : q.Traded r u) : p.Traded r (t.add u) where
  value := by
    have hpos : 0 < q.totalShares.toNat ^ 2 :=
      Nat.pow_pos (Nat.pos_of_ne_zero (toNat_ne_zero hq))
    apply Nat.le_of_mul_le_mul_left _ hpos
    calc q.totalShares.toNat ^ 2 * (p.reserve0.toNat * p.reserve1.toNat * r.totalShares.toNat ^ 2)
        = p.reserve0.toNat * p.reserve1.toNat * q.totalShares.toNat ^ 2 *
            r.totalShares.toNat ^ 2 := by ring
      _ ≤ q.reserve0.toNat * q.reserve1.toNat * p.totalShares.toNat ^ 2 *
            r.totalShares.toNat ^ 2 := Nat.mul_le_mul_right _ h.value
      _ = q.reserve0.toNat * q.reserve1.toNat * r.totalShares.toNat ^ 2 *
            p.totalShares.toNat ^ 2 := by ring
      _ ≤ r.reserve0.toNat * r.reserve1.toNat * q.totalShares.toNat ^ 2 *
            p.totalShares.toNat ^ 2 := Nat.mul_le_mul_right _ h'.value
      _ = q.totalShares.toNat ^ 2 *
            (r.reserve0.toNat * r.reserve1.toNat * p.totalShares.toNat ^ 2) := by ring
  reserve0 := by
    have h₁ := h.reserve0
    have h₂ := h'.reserve0
    simp only [Turnover.add]
    omega
  reserve1 := by
    have h₁ := h.reserve1
    have h₂ := h'.reserve1
    simp only [Turnover.add]
    omega

variable {p p' : Pool}

theorem traded_swap {direction : Direction} {amountIn : Amount} {fees : FeeSettings} {q : SwapQuote}
    (h : (swap direction amountIn fees).run p = .ok q p') : p.Traded p' (q.turnover direction) := by
  obtain ⟨-, hswapped⟩ := swap_eq_ok h
  cases hswapped with
  | zeroForOne hprices =>
    exact {
      value := Nat.mul_le_mul_right _ hprices.product_le
      reserve0 := hprices.in_le
      reserve1 := ((Nat.add_comm ..).trans hprices.paid_eq).le }
  | oneForZero hprices =>
    have hproduct := hprices.product_le
    rw [Nat.mul_comm p.reserve1.toNat, Nat.mul_comm q.reserveIn.toNat] at hproduct
    exact {
      value := Nat.mul_le_mul_right _ hproduct
      reserve0 := ((Nat.add_comm ..).trans hprices.paid_eq).le
      reserve1 := hprices.in_le }

theorem traded_addLiquidity (hlive : p.totalShares ≠ 0) {recipient : Address} {max0 max1 : Amount}
    {q : MintQuote} (h : (addLiquidity recipient max0 max1).run p = .ok q p') :
    p.Traded p' ⟨q.amount0.toNat, q.amount1.toNat, 0, 0⟩ := by
  obtain ⟨-, hminted⟩ := addLiquidity_eq_ok h
  obtain ⟨h0, h1⟩ := undiluted_addLiquidity hlive h
  exact ⟨product_le_of_parts h0 h1, hminted.reserve0.le, hminted.reserve1.le⟩

theorem traded_removeLiquidity {owner : Address} {shares : Amount} {q : BurnQuote}
    (h : (removeLiquidity owner shares).run p = .ok q p') :
    p.Traded p' ⟨0, 0, q.amount0.toNat, q.amount1.toNat⟩ := by
  obtain ⟨-, hburned⟩ := removeLiquidity_eq_ok h
  obtain ⟨h0, h1⟩ := undiluted_removeLiquidity h
  exact ⟨product_le_of_parts h0 h1, hburned.reserve0.le, hburned.reserve1.le⟩

inductive Makes (p p' : Pool) : Trade → Turnover → Prop
  | swap {direction : Direction} {amountIn : Amount} {fees : FeeSettings} {q : SwapQuote}
      (h : (Pool.swap direction amountIn fees).run p = .ok q p') :
      Makes p p' (.swap direction amountIn fees) (q.turnover direction)
  | addLiquidity {recipient : Address} {max0 max1 : Amount} {q : MintQuote}
      (h : (Pool.addLiquidity recipient max0 max1).run p = .ok q p') :
      Makes p p' (.addLiquidity recipient max0 max1) ⟨q.amount0.toNat, q.amount1.toNat, 0, 0⟩
  | removeLiquidity {owner : Address} {shares : Amount} {q : BurnQuote}
      (h : (Pool.removeLiquidity owner shares).run p = .ok q p') :
      Makes p p' (.removeLiquidity owner shares) ⟨0, 0, q.amount0.toNat, q.amount1.toNat⟩

theorem make_eq_ok {t : Trade} {turnover : Turnover} (h : t.make.run p = .ok turnover p') :
    Makes p p' t turnover := by
  cases t with
  | swap direction amountIn fees =>
    obtain ⟨q, _, hswap, hpure⟩ := run_bind_eq_ok.1 h
    obtain ⟨rfl, rfl⟩ := run_pure_eq_ok.1 hpure
    exact .swap hswap
  | addLiquidity recipient max0 max1 =>
    obtain ⟨q, _, hadd, hpure⟩ := run_bind_eq_ok.1 h
    obtain ⟨rfl, rfl⟩ := run_pure_eq_ok.1 hpure
    exact .addLiquidity hadd
  | removeLiquidity owner shares =>
    obtain ⟨q, _, hremove, hpure⟩ := run_bind_eq_ok.1 h
    obtain ⟨rfl, rfl⟩ := run_pure_eq_ok.1 hpure
    exact .removeLiquidity hremove

theorem traded_make (hlive : p.totalShares ≠ 0) {t : Trade} {turnover : Turnover}
    (h : t.make.run p = .ok turnover p') : p.Traded p' turnover := by
  cases make_eq_ok h with
  | swap hswap => exact traded_swap hswap
  | addLiquidity hadd => exact traded_addLiquidity hlive hadd
  | removeLiquidity hremove => exact traded_removeLiquidity hremove

theorem make_eq_error {t : Trade} {fault : Fault} (h : t.make.run p = .error fault p') :
    p' = p := by
  cases t with
  | swap direction amountIn fees => exact swap_eq_error (run_bind_pure_eq_error.1 h)
  | addLiquidity recipient max0 max1 => exact (addLiquidity_eq_error (run_bind_pure_eq_error.1 h)).1
  | removeLiquidity owner shares =>
    exact (removeLiquidity_eq_error (run_bind_pure_eq_error.1 h)).1

variable {t : Trade} {trades : List Trade}

theorem trade_cons_of_ok {turnover : Turnover} (h : t.make.run p = .ok turnover p') :
    (trade (t :: trades) p).2 = (trade trades p').2 := by
  rw [trade, h]

theorem trade_cons_of_error {fault : Fault} (h : t.make.run p = .error fault p') :
    (trade (t :: trades) p).2 = (trade trades p).2 := by
  rw [trade, h, make_eq_error h]

theorem trade_append (before after : List Trade) (p : Pool) :
    (trade (before ++ after) p).2 = (trade after (trade before p).2).2 := by
  induction before generalizing p with
  | nil => rfl
  | cons t later ih =>
    rw [List.cons_append]
    cases hmake : t.make.run p with
    | ok turnover q => rw [trade_cons_of_ok hmake, trade_cons_of_ok hmake, ih]
    | error fault q => rw [trade_cons_of_error hmake, trade_cons_of_error hmake, ih]

theorem trade_keeps {P : Pool → Prop} (hkeep : ∀ t ∈ trades, Keeps P t.make) (h : P p) :
    P (trade trades p).2 := by
  induction trades generalizing p with
  | nil => exact h
  | cons t later ih =>
    obtain ⟨hnow, hlater⟩ := List.forall_mem_cons.1 hkeep
    have hnext := hnow p h
    cases hmake : t.make.run p with
    | ok turnover q =>
      rw [hmake] at hnext
      rw [trade_cons_of_ok hmake]
      exact ih hlater hnext
    | error fault q =>
      rw [trade_cons_of_error hmake]
      exact ih hlater h

theorem traded_trade {trades : List Trade}
    (hlive : ∀ earlier ∈ trades.inits, (trade earlier p).2.totalShares ≠ 0) :
    p.Traded (trade trades p).2 (trade trades p).1 := by
  induction trades generalizing p with
  | nil => exact traded_refl p
  | cons t later ih =>
    have hnow : p.totalShares ≠ 0 := hlive [] (by simp)
    have hlater (earlier : List Trade) (hmem : earlier ∈ later.inits) :
        (trade (t :: earlier) p).2.totalShares ≠ 0 :=
      hlive _ (by simpa using hmem)
    rw [trade]
    simp only [trade] at hlater
    cases hmake : t.make.run p with
    | ok turnover q =>
      rw [hmake] at hlater
      have hq : q.totalShares ≠ 0 := hlater [] (by simp)
      exact (traded_make hnow hmake).trans hq (ih hlater)
    | error fault q =>
      rw [hmake] at hlater
      obtain rfl := make_eq_error hmake
      exact ih hlater

/-- Over any trades between which a pool always has shares, the product of the reserves for the
square of the shares does not fall; and if there are as many shares in the end as before, the
parties have not made a profit together. -/
theorem value_per_share_never_falls (p : Pool) (trades : List Trade)
    (hlive : ∀ earlier ∈ trades.inits, (trade earlier p).2.totalShares ≠ 0) :
    p.reserve0.toNat * p.reserve1.toNat * (trade trades p).2.totalShares.toNat ^ 2 ≤
        (trade trades p).2.reserve0.toNat * (trade trades p).2.reserve1.toNat *
          p.totalShares.toNat ^ 2 ∧
      (p.reserve0 ≠ 0 → p.reserve1 ≠ 0 → (trade trades p).2.totalShares = p.totalShares →
        ¬ (trade trades p).1.Profits) := by
  obtain ⟨hvalue, h0, h1⟩ := traded_trade hlive
  refine ⟨hvalue, fun hr0 hr1 htotal hprofits => ?_⟩
  have hpos0 := Nat.pos_of_ne_zero (toNat_ne_zero hr0)
  have hpos1 := Nat.pos_of_ne_zero (toNat_ne_zero hr1)
  have hsquare : 0 < p.totalShares.toNat ^ 2 :=
    Nat.pow_pos (Nat.pos_of_ne_zero (toNat_ne_zero (hlive [] (by simp))))
  rw [htotal] at hvalue
  have hproduct := Nat.le_of_mul_le_mul_right hvalue hsquare
  obtain ⟨hpaid0, hpaid1, hwon⟩ := hprofits
  have hle0 : (trade trades p).2.reserve0.toNat ≤ p.reserve0.toNat := by omega
  have hle1 : (trade trades p).2.reserve1.toNat ≤ p.reserve1.toNat := by omega
  refine absurd hproduct (Nat.not_le.2 ?_)
  rcases hwon with hwon | hwon
  · calc (trade trades p).2.reserve0.toNat * (trade trades p).2.reserve1.toNat
        ≤ (trade trades p).2.reserve0.toNat * p.reserve1.toNat := Nat.mul_le_mul_left _ hle1
      _ < p.reserve0.toNat * p.reserve1.toNat := Nat.mul_lt_mul_of_pos_right (by omega) hpos1
  · calc (trade trades p).2.reserve0.toNat * (trade trades p).2.reserve1.toNat
        ≤ p.reserve0.toNat * (trade trades p).2.reserve1.toNat := Nat.mul_le_mul_right _ hle0
      _ < p.reserve0.toNat * p.reserve1.toNat := Nat.mul_lt_mul_of_pos_left (by omega) hpos0

def sharedPool : Pool :=
  ⟨⟨1, 2⟩, 1000, 2000, 1000, 0, 0, (SortedMap.empty.insert 7 600).insert 8 400⟩

def roundTrip : List Trade :=
  [.swap .zeroForOne 100 ⟨30, 100, 9⟩, .swap .oneForZero 0 .standard, .addLiquidity 9 50 500,
    .removeLiquidity 9 100, .removeLiquidity 9 45, .swap .oneForZero 163 ⟨0, 0, 0⟩]

theorem value_per_share_never_falls_roundTrip :
    (∀ earlier ∈ roundTrip.inits, (trade earlier sharedPool).2.totalShares ≠ 0) ∧
      (trade roundTrip sharedPool).2.totalShares = sharedPool.totalShares ∧
      1000 * 2000 * 1000 ^ 2 ≤ (trade roundTrip sharedPool).2.reserve0.toNat *
        (trade roundTrip sharedPool).2.reserve1.toNat * 1000 ^ 2 ∧
      ¬ (trade roundTrip sharedPool).1.Profits := by
  have hlive : ∀ earlier ∈ roundTrip.inits, (trade earlier sharedPool).2.totalShares ≠ 0 := by
    decide +kernel
  have htotal : (trade roundTrip sharedPool).2.totalShares = sharedPool.totalShares := by
    decide +kernel
  obtain ⟨hvalue, hprofits⟩ := value_per_share_never_falls sharedPool roundTrip hlive
  rw [htotal] at hvalue
  exact ⟨hlive, htotal, hvalue, hprofits (by decide) (by decide) htotal⟩

end Pool

end NetSettle
