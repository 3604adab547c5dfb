import NetSettle.Proofs.Keeping
import NetSettle.Proofs.Pool.SwapPrice
import NetSettle.Proofs.Pool.Sides

/-!
# The two sides of a pool are alike

A pool treats its first token as it treats its second. What is done to the mirror image of a pool,
with every direction turned round and every pair of amounts exchanged, ends as it ends for the pool
itself, whether it succeeds or fails, and leaves the mirror image of what it leaves there.
-/
namespace NetSettle

open Faulting

namespace MintQuote

def mirror (q : MintQuote) : MintQuote := ⟨q.shares, q.amount1, q.amount0⟩

theorem ext_toNat {q q' : MintQuote} (hshares : q.shares.toNat = q'.shares.toNat)
    (h0 : q.amount0.toNat = q'.amount0.toNat) (h1 : q.amount1.toNat = q'.amount1.toNat) :
    q = q' := by
  cases q
  cases q'
  simp only [mk.injEq]
  exact ⟨BitVec.eq_of_toNat_eq hshares, BitVec.eq_of_toNat_eq h0, BitVec.eq_of_toNat_eq h1⟩

variable {q q' : MintQuote} {reserve0 reserve1 total max0 max1 : Amount} {fault : Fault}

theorem Seeds.eq_mirror (h : q.Seeds max0 max1) (h' : q'.Seeds max1 max0) : q' = q.mirror := by
  apply ext_toNat
  · rw [h'.shares_eq, Nat.mul_comm]
    exact h.shares_eq.symm
  · rw [h'.amount0_eq, mirror, h.amount1_eq]
  · rw [h'.amount1_eq, mirror, h.amount0_eq]

theorem Extends.eq_mirror (h : q.Extends reserve0 reserve1 total max0 max1)
    (h' : q'.Extends reserve1 reserve0 total max1 max0) : q' = q.mirror := by
  have hshares : q'.shares.toNat = q.shares.toNat := by
    rw [h'.shares_eq, h.shares_eq, Nat.min_comm]
  apply ext_toNat
  · exact hshares
  · rw [h'.amount0_eq, hshares]
    exact h.amount1_eq.symm
  · rw [h'.amount1_eq, hshares]
    exact h.amount0_eq.symm

theorem Refused.mirror (h : Refused reserve0 reserve1 total max0 max1 fault) :
    Refused reserve1 reserve0 total max1 max0 fault := by
  have hmost : mostShares reserve1 reserve0 total max1 max0 =
      mostShares reserve0 reserve1 total max0 max1 := Nat.min_comm _ _
  cases h with
  | nothing h => exact .nothing h.symm
  | unreserved hmax htotal h => exact .unreserved (hmax ·.symm) htotal h.symm
  | excessive hmax htotal hpool h =>
    exact .excessive (hmax ·.symm) htotal (hpool ·.symm) (hmost ▸ h)
  | unaffordable hmax htotal hpool h =>
    exact .unaffordable (hmax ·.symm) htotal (hpool ·.symm) (hmost ▸ h)

end MintQuote

theorem quoteMint_mirror (reserve0 reserve1 total max0 max1 : Amount) :
    quoteMint reserve1 reserve0 total max1 max0 =
      (quoteMint reserve0 reserve1 total max0 max1).map MintQuote.mirror := by
  cases hquote : quoteMint reserve0 reserve1 total max0 max1 with
  | error fault => exact quoteMint_eq_error_iff.2 (quoteMint_eq_error hquote).mirror
  | ok q =>
    cases hquote' : quoteMint reserve1 reserve0 total max1 max0 with
    | error fault =>
      rw [quoteMint_eq_error_iff.2 (quoteMint_eq_error hquote').mirror] at hquote
      cases hquote
    | ok q' =>
      obtain ⟨-, -, -, hterms⟩ := quoteMint_eq_ok hquote
      obtain ⟨-, -, -, hterms'⟩ := quoteMint_eq_ok hquote'
      rcases hterms with ⟨hzero, hseeds⟩ | ⟨hlive, hextends⟩
      · rcases hterms' with ⟨-, hseeds'⟩ | ⟨hlive, -⟩
        · exact congrArg Except.ok (hseeds.eq_mirror hseeds')
        · exact absurd (congrArg BitVec.toNat hzero) hlive
      · rcases hterms' with ⟨hzero, -⟩ | ⟨-, hextends'⟩
        · exact absurd (congrArg BitVec.toNat hzero) hlive
        · exact congrArg Except.ok (hextends.eq_mirror hextends')

def BurnQuote.mirror (q : BurnQuote) : BurnQuote := ⟨q.amount1, q.amount0⟩

theorem BurnQuote.Releases.eq_mirror {q q' : BurnQuote} {reserve0 reserve1 total shares : Amount}
    (h : q.Releases reserve0 reserve1 total shares)
    (h' : q'.Releases reserve1 reserve0 total shares) : q' = q.mirror := by
  have h0 : q'.amount0.toNat = q.amount1.toNat := h'.amount0_eq.trans h.amount1_eq.symm
  have h1 : q'.amount1.toNat = q.amount0.toNat := h'.amount1_eq.trans h.amount0_eq.symm
  cases q'
  simp only [BurnQuote.mirror, BurnQuote.mk.injEq]
  exact ⟨BitVec.eq_of_toNat_eq h0, BitVec.eq_of_toNat_eq h1⟩

theorem quoteBurn_mirror (reserve0 reserve1 total shares : Amount) :
    quoteBurn reserve1 reserve0 total shares =
      (quoteBurn reserve0 reserve1 total shares).map BurnQuote.mirror := by
  cases hquote : quoteBurn reserve0 reserve1 total shares with
  | error fault => exact quoteBurn_eq_error_iff.2 (quoteBurn_eq_error hquote)
  | ok q =>
    cases hquote' : quoteBurn reserve1 reserve0 total shares with
    | error fault =>
      rw [quoteBurn_eq_error_iff.2 (quoteBurn_eq_error hquote')] at hquote
      cases hquote
    | ok q' =>
      exact congrArg Except.ok ((quoteBurn_eq_ok hquote).eq_mirror (quoteBurn_eq_ok hquote'))

def Direction.opposite : Direction → Direction
  | .zeroForOne => .oneForZero
  | .oneForZero => .zeroForOne

namespace Pool

def mirror (p : Pool) : Pool :=
  { p with
    reserve0 := p.reserve1, reserve1 := p.reserve0
    accruedFee0 := p.accruedFee1, accruedFee1 := p.accruedFee0 }

def mirrorEnd {α : Type} (mirrorAnswer : α → α) :
    EStateM.Result Fault Pool α → EStateM.Result Fault Pool α
  | .ok a p => .ok (mirrorAnswer a) p.mirror
  | .error fault p => .error fault p.mirror

section

variable {α β γ : Type} {f : α → α} {p : Pool}

theorem finalState_mirrorEnd (f : α → α) (r : EStateM.Result Fault Pool α) :
    finalState (mirrorEnd f r) = (finalState r).mirror := by
  cases r <;> rfl

theorem mirrorEnd_lift_bind {g : β → γ} {x : Except Fault β} {y : Except Fault γ}
    {next : β → Faulting Pool α} {next' : γ → Faulting Pool α} (hxy : y = x.map g)
    (hnext : ∀ b, (next' (g b)).run p.mirror = mirrorEnd f ((next b).run p)) :
    (monadLift y >>= next').run p.mirror = mirrorEnd f ((monadLift x >>= next).run p) := by
  subst hxy
  cases x with
  | ok b => exact hnext b
  | error fault => rfl

theorem mirrorEnd_same_bind {x : Except Fault β} {next next' : β → Faulting Pool α}
    (hnext : ∀ b, (next' b).run p.mirror = mirrorEnd f ((next b).run p)) :
    (monadLift x >>= next').run p.mirror = mirrorEnd f ((monadLift x >>= next).run p) :=
  mirrorEnd_lift_bind (g := id) (by cases x <;> rfl) hnext

theorem mirrorEnd_guard {P : Prop} [Decidable P] {fault : Fault} {x x' : β → Faulting Pool α}
    {y y' : Faulting Pool α} (hy : y'.run p.mirror = mirrorEnd f (y.run p)) :
    (if P then throw fault >>= x' else y').run p.mirror =
      mirrorEnd f ((if P then throw fault >>= x else y).run p) := by
  by_cases h : P
  · rw [if_pos h, if_pos h]
    rfl
  · rwa [if_neg h, if_neg h]

end

variable (p : Pool)

theorem reserveIn_mirror (direction : Direction) :
    p.mirror.reserveIn direction.opposite = p.reserveIn direction := by
  cases direction <;> rfl

theorem reserveOut_mirror (direction : Direction) :
    p.mirror.reserveOut direction.opposite = p.reserveOut direction := by
  cases direction <;> rfl

theorem accruedIn_mirror (direction : Direction) :
    p.mirror.accruedIn direction.opposite = p.accruedIn direction := by
  cases direction <;> rfl

theorem swapped_mirror (direction : Direction) (q : SwapQuote) (accrued : Amount) :
    p.mirror.swapped direction.opposite q accrued = (p.swapped direction q accrued).mirror := by
  cases direction <;> rfl

theorem swap_mirror (direction : Direction) (amountIn : Amount) (fees : FeeSettings) :
    (swap direction.opposite amountIn fees).run p.mirror =
      mirrorEnd id ((swap direction amountIn fees).run p) := by
  rw [swap_eq, swap_eq, run_get_bind, run_get_bind, reserveIn_mirror, reserveOut_mirror,
    accruedIn_mirror]
  refine mirrorEnd_guard (mirrorEnd_same_bind fun quote => mirrorEnd_same_bind fun accrued => ?_)
  rw [swapped_mirror]
  rfl

theorem addAmounts_comm {α : Type} (a b c d : Amount)
    (next : Amount → Amount → Faulting Pool α) :
    (do let x ← addAmounts a b; let y ← addAmounts c d; next x y : Faulting Pool α) =
      (do let y ← addAmounts c d; let x ← addAmounts a b; next x y) := by
  cases hx : addAmounts a b with
  | ok x => rfl
  | error fault =>
    cases hy : addAmounts c d with
    | ok y => rfl
    | error fault' =>
      obtain ⟨-, rfl⟩ := addAmounts_eq_error.1 hx
      obtain ⟨-, rfl⟩ := addAmounts_eq_error.1 hy
      rfl

theorem addLiquidity_mirror (recipient : Address) (max0 max1 : Amount) :
    (addLiquidity recipient max1 max0).run p.mirror =
      mirrorEnd MintQuote.mirror ((addLiquidity recipient max0 max1).run p) := by
  rw [addLiquidity, addLiquidity, run_get_bind, run_get_bind]
  refine mirrorEnd_lift_bind (quoteMint_mirror ..) fun quote => ?_
  rw [addAmounts_comm]
  refine mirrorEnd_same_bind fun reserve0 => mirrorEnd_same_bind fun reserve1 => ?_
  exact mirrorEnd_same_bind fun total => mirrorEnd_same_bind fun owned => rfl

def burned (owner : Address) (shares : Amount) (q : BurnQuote) : Pool :=
  let remaining := p.sharesOf owner - shares
  { p with
    reserve0 := p.reserve0 - q.amount0, reserve1 := p.reserve1 - q.amount1
    totalShares := p.totalShares - shares
    shares := if remaining = 0 then p.shares.erase owner else p.shares.insert owner remaining }

/-- Once it is quoted, a burning goes through, and might as well write all its fields at once. -/
theorem removeLiquidity_eq (owner : Address) (shares : Amount) :
    removeLiquidity owner shares = do
      let p ← get
      if p.sharesOf owner < shares then
        throw (.insufficientShares owner (p.sharesOf owner) shares)
      let quote ← quoteBurn p.reserve0 p.reserve1 p.totalShares shares
      set (p.burned owner shares quote)
      return quote := by
  funext p
  change (removeLiquidity owner shares).run p = EStateM.run _ p
  rw [removeLiquidity, run_get_bind, run_get_bind]
  by_cases hless : p.sharesOf owner < shares
  · rw [if_pos hless, if_pos hless]
    rfl
  rw [if_neg hless, if_neg hless]
  cases hquote : quoteBurn p.reserve0 p.reserve1 p.totalShares shares with
  | error fault => rfl
  | ok quote =>
    have hreleases := quoteBurn_eq_ok hquote
    beta_reduce
    rw [run_lift_ok_bind, run_lift_ok_bind, subAmounts_of_le hreleases.amounts_le.1,
      subAmounts_of_le hreleases.amounts_le.2, subAmounts_of_le hreleases.shares_le]
    rfl

theorem removeLiquidity_mirror (owner : Address) (shares : Amount) :
    (removeLiquidity owner shares).run p.mirror =
      mirrorEnd BurnQuote.mirror ((removeLiquidity owner shares).run p) := by
  rw [removeLiquidity_eq, run_get_bind, run_get_bind]
  exact mirrorEnd_guard (mirrorEnd_lift_bind (quoteBurn_mirror ..) fun quote => rfl)

inductive Call where
  | swap (direction : Direction) (amountIn : Amount) (fees : FeeSettings)
  | addLiquidity (recipient : Address) (max0 max1 : Amount)
  | removeLiquidity (owner : Address) (shares : Amount)
  | takeAccruedFees
  deriving DecidableEq

inductive Answer where
  | exchanged (q : SwapQuote)
  | minted (q : MintQuote)
  | released (q : BurnQuote)
  | taken (amount0 amount1 : Amount)
  deriving DecidableEq

namespace Call

def make : Call → Faulting Pool Answer
  | swap direction amountIn fees => do
    return .exchanged (← Pool.swap direction amountIn fees)
  | addLiquidity recipient max0 max1 => do
    return .minted (← Pool.addLiquidity recipient max0 max1)
  | removeLiquidity owner shares => do
    return .released (← Pool.removeLiquidity owner shares)
  | takeAccruedFees => do
    let (amount0, amount1) ← modifyGet Pool.takeAccruedFees
    return .taken amount0 amount1

def mirror : Call → Call
  | swap direction amountIn fees => swap direction.opposite amountIn fees
  | addLiquidity recipient max0 max1 => addLiquidity recipient max1 max0
  | removeLiquidity owner shares => removeLiquidity owner shares
  | takeAccruedFees => takeAccruedFees

end Call

def Answer.mirror : Answer → Answer
  | exchanged q => exchanged q
  | minted q => minted q.mirror
  | released q => released q.mirror
  | taken amount0 amount1 => taken amount1 amount0

/-- How each of the calls ends that are made one after the other, whether they succeed or fail, and
the pool that it leaves. -/
def trace : List Call → Pool → List (EStateM.Result Fault Pool Answer)
  | [], _ => []
  | call :: later, p => call.make.run p :: trace later (finalState (call.make.run p))

theorem mirrorEnd_answer {α : Type} {f : α → α} {answer : α → Answer} {x x' : Faulting Pool α}
    (hanswer : ∀ a, answer (f a) = (answer a).mirror)
    (hrun : x'.run p.mirror = mirrorEnd f (x.run p)) :
    (do return answer (← x')).run p.mirror =
      mirrorEnd Answer.mirror ((do return answer (← x)).run p) := by
  rw [EStateM.run_bind, EStateM.run_bind, hrun]
  cases x.run p with
  | ok a q => exact congrArg (EStateM.Result.ok · q.mirror) (hanswer a)
  | error fault q => rfl

theorem make_mirror (call : Call) :
    call.mirror.make.run p.mirror = mirrorEnd Answer.mirror (call.make.run p) := by
  cases call with
  | swap direction amountIn fees =>
    exact p.mirrorEnd_answer (fun _ => rfl) (p.swap_mirror direction amountIn fees)
  | addLiquidity recipient max0 max1 =>
    exact p.mirrorEnd_answer (fun _ => rfl) (p.addLiquidity_mirror recipient max0 max1)
  | removeLiquidity owner shares =>
    exact p.mirrorEnd_answer (fun _ => rfl) (p.removeLiquidity_mirror owner shares)
  | takeAccruedFees => rfl

/-- Calls in turn on the mirror image of a pool end, one by one, in the mirror image of how they end
on the pool. -/
theorem sides_alike (calls : List Call) (p : Pool) :
    trace (calls.map Call.mirror) p.mirror = (trace calls p).map (mirrorEnd Answer.mirror) := by
  induction calls generalizing p with
  | nil => rfl
  | cons call later ih =>
    rw [List.map_cons, trace, trace, List.map_cons, make_mirror, finalState_mirrorEnd, ih]

end Pool

end NetSettle
