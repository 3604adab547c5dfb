import NetSettle.Arithmetic

/-!
# Fee settings

A swap leaves part of its input with the pool, counted in basis points, and part with the
protocol, counted in parts per thousand. Neither part may be the whole, and a protocol that takes
a part needs somebody to receive it.
-/
namespace NetSettle

def bpsScale : Amount := 10000

def pptScale : Amount := 1000

structure FeeSettings where
  swapFeeBps : UInt16
  protocolFeePpt : UInt16
  receiver : Address
  deriving DecidableEq, Repr

namespace FeeSettings

def standard : FeeSettings := ⟨30, 0, 0⟩

def protocolFeeEnabled (fees : FeeSettings) : Bool := 0 < fees.protocolFeePpt

def validate (fees : FeeSettings) : Except Fault Unit :=
  if fees.swapFeeBps.toNat ≥ 10000 then .error (.invalidFeeSettings .swapFeeTooHigh)
  else if fees.protocolFeePpt.toNat ≥ 1000 then .error (.invalidFeeSettings .protocolFeeTooHigh)
  else if fees.protocolFeeEnabled && fees.receiver = 0 then
    .error (.invalidFeeSettings .receiverMissing)
  else .ok ()

end FeeSettings

end NetSettle
