import NetSettle.Fault

/-!
# Checked arithmetic

Quotients of products, rounded down or up, in 256 bits; narrowing to 128 bits; and the integer
square root. Nothing wraps silently: a result that does not fit is a fault.
-/
namespace NetSettle

def mulDivDown (a b d : Amount) : Except Fault Word :=
  if d = 0 then .error .poolNotInitialized
  else .ok (Amount.widen a * Amount.widen b / Amount.widen d)

def divUp (n d : Word) : Except Fault Word :=
  if d = 0 then .error .poolNotInitialized
  else if n % d = 0 then .ok (n / d)
  else .ok (n / d + 1)

def mulDivUp (a b d : Amount) : Except Fault Word :=
  divUp (Amount.widen a * Amount.widen b) (Amount.widen d)

def narrow (w : Word) : Except Fault Amount :=
  if w.toNat < 2 ^ 128 then .ok (w.setWidth 128) else .error .reserveOverflow

def addAmounts (a b : Amount) : Except Fault Amount :=
  if a.toNat + b.toNat < 2 ^ 128 then .ok (a + b) else .error .reserveOverflow

def subAmounts (a b : Amount) : Except Fault Amount :=
  if b ≤ a then .ok (a - b) else .error .overflow

def sqrtLoop (n x y : Word) : Word :=
  if y < x then sqrtLoop n y ((y + n / y) >>> 1) else x
termination_by x.toNat

/-- The integer square root, rounded down. The first guess equals `n` when `n` is 2, so small
numbers are answered at once; half of `n` plus one is a guess that cannot wrap. -/
def sqrt (n : Word) : Word :=
  if n < 4 then (if n = 0 then 0 else 1)
  else sqrtLoop n n ((n >>> 1) + 1)

def requireToken (token : Address) : Except Fault Address :=
  if token = 0 then .error .zeroToken else .ok token

end NetSettle
