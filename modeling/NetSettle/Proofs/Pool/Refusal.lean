import NetSettle.Program.Operation
import NetSettle.Proofs.Pool.Sound
import NetSettle.Proofs.Raising

/-!
# What a sound pool refuses

The checks of the arithmetic are there for numbers that a sound pool does not have: its reserves are
not zero while it has shares, nobody owns more shares than there are, and a burning pays no more
than the reserves. What is left are the faults that a caller can bring about, and the fault of a
swap with a pool that has no shares.
-/
namespace NetSettle

open Faulting

def Fault.Ordinary : Fault → Prop
  | .overflow | .poolNotInitialized | .invalidFeeSettings _ | .invalidFieldWidth _ | .reentrancy
  | .statePoisoned => False
  | _ => True

open Fault (Ordinary)

theorem ordinary_narrow {w : Word} : Refuses Ordinary (narrow w) := .ite (.ok _) (.error trivial)

theorem ordinary_addAmounts {a b : Amount} : Refuses Ordinary (addAmounts a b) :=
  .ite (.ok _) (.error trivial)

theorem ordinary_requireToken (token : Address) : Refuses Ordinary (requireToken token) :=
  .ite (.error trivial) (.ok _)

theorem ordinary_canonical (token0 token1 : Address) :
    Refuses Ordinary (Pair.canonical token0 token1) :=
  .bind (ordinary_requireToken _) fun _ => .bind (ordinary_requireToken _) fun _ =>
    .ite (.ok _) (.error trivial)

theorem ordinary_check {b : Bounds} {amount : Word} : Refuses Ordinary (b.check amount) :=
  .ite (.error trivial) (.ok _)

theorem ordinary_quoteSwap {reserveIn reserveOut amountIn : Amount} {feeBps ppt : UInt16}
    (hin : reserveIn ≠ 0) (hout : reserveOut ≠ 0) (hbps : feeBps.toNat < 10000)
    (hppt : ppt.toNat < 1000) :
    Refuses Ordinary (quoteSwap reserveIn reserveOut amountIn feeBps ppt) := by
  intro fault hquote
  cases quoteSwap_eq_error hquote with
  | unreserved h => exact absurd h (not_or.2 ⟨hin, hout⟩)
  | nothing => trivial
  | fees _ _ h => omega
  | overfull => trivial

theorem ordinary_quoteMint {reserve0 reserve1 totalShares max0 max1 : Amount}
    (h0 : totalShares ≠ 0 → reserve0 ≠ 0) (h1 : totalShares ≠ 0 → reserve1 ≠ 0) :
    Refuses Ordinary (quoteMint reserve0 reserve1 totalShares max0 max1) := by
  intro fault hquote
  cases quoteMint_eq_error hquote with
  | nothing => trivial
  | unreserved _ htotal h => exact absurd h (not_or.2 ⟨h0 htotal, h1 htotal⟩)
  | excessive => trivial
  | unaffordable => trivial

theorem ordinary_quoteBurn {reserve0 reserve1 totalShares shares : Amount}
    (h : shares.toNat ≤ totalShares.toNat) :
    Refuses Ordinary (quoteBurn reserve0 reserve1 totalShares shares) := by
  intro fault hquote
  cases quoteBurn_eq_error hquote with
  | nothing => trivial
  | unissued hshares htotal =>
    rw [htotal] at h
    exact absurd (Nat.le_zero.1 h) (toNat_ne_zero hshares)
  | excessive _ _ hmore => exact absurd hmore (Nat.not_lt.2 h)

theorem FeeSettings.validate_eq_ok {fees : FeeSettings} (h : fees.validate = .ok ()) :
    fees.swapFeeBps.toNat < 10000 ∧ fees.protocolFeePpt.toNat < 1000 := by
  unfold validate at h
  split at h
  · cases h
  split at h
  · cases h
  omega

namespace Pool

variable {p p' : Pool} {fault : Fault}

theorem swap_fault (h : p.Sound) {direction : Direction} {amountIn : Amount}
    {fees : FeeSettings} (hfees : fees.validate = .ok ())
    (hrun : (swap direction amountIn fees).run p = .error fault p') :
    fault.Ordinary ∨ fault = .poolNotInitialized ∧ p.totalShares = 0 := by
  obtain ⟨hbps, hppt⟩ := FeeSettings.validate_eq_ok hfees
  obtain ⟨-, ⟨hempty, rfl⟩ | ⟨hlive, hrun⟩⟩ := swap_eq_error_iff.1 hrun
  · exact .inr ⟨rfl, hempty⟩
  · left
    obtain ⟨hin, hout⟩ := h.coherent.reserves_ne_zero hlive direction
    rcases hrun with hquote | ⟨_, -, hadd⟩
    · exact ordinary_quoteSwap hin hout hbps hppt fault hquote
    · exact ordinary_addAmounts fault hadd

theorem addLiquidity_fault (h : p.Sound) {recipient : Address} {max0 max1 : Amount}
    (hrun : (addLiquidity recipient max0 max1).run p = .error fault p') : fault.Ordinary := by
  rcases (addLiquidity_eq_error hrun).2 with hquote | ⟨_, -, rfl, -⟩
  · exact ordinary_quoteMint (fun htotal hzero => htotal (h.empty0.2 hzero))
      (fun htotal hzero => htotal (h.empty1.2 hzero)) fault hquote
  · trivial

theorem removeLiquidity_fault (h : p.Sound) {owner : Address} {shares : Amount}
    (hrun : (removeLiquidity owner shares).run p = .error fault p') : fault.Ordinary := by
  rcases (removeLiquidity_eq_error hrun).2 with ⟨-, rfl⟩ | ⟨hle, hquote⟩
  · trivial
  · exact ordinary_quoteBurn (hle.trans (h.coherent.sharesOf_le owner)) fault hquote

end Pool

end NetSettle
