import NetSettle.Arithmetic
import NetSettle.SortedMap

/-!
# Token pairs

A pool trades one pair of tokens, named with the smaller token first. Pairs are ordered by their
first token and then by their second. A swap takes one side of the pair as its input.
-/
namespace NetSettle

structure Pair where
  token0 : Address
  token1 : Address
  deriving DecidableEq, Repr

inductive Direction where
  | zeroForOne
  | oneForZero
  deriving DecidableEq, Repr

namespace Direction

def ofFlag (zeroForOne : Bool) : Direction :=
  if zeroForOne then .zeroForOne else .oneForZero

def isZeroForOne : Direction → Bool
  | .zeroForOne => true
  | .oneForZero => false

@[simp] theorem ofFlag_isZeroForOne (d : Direction) : ofFlag d.isZeroForOne = d := by
  cases d <;> rfl

@[simp] theorem isZeroForOne_ofFlag (b : Bool) : (ofFlag b).isZeroForOne = b := by
  cases b <;> rfl

end Direction

namespace Pair

def canonical (token0 token1 : Address) : Except Fault Pair := do
  let token0 ← requireToken token0
  let token1 ← requireToken token1
  if token0 < token1 then .ok ⟨token0, token1⟩ else .error (.unsortedPair token0 token1)

def ofTokens (a b : Address) : Except Fault Pair :=
  if a ≤ b then canonical a b else canonical b a

def route (p : Pair) : Direction → Address × Address
  | .zeroForOne => (p.token0, p.token1)
  | .oneForZero => (p.token1, p.token0)

instance : Ranked Pair where
  rank p := p.token0.toNat * 2 ^ 160 + p.token1.toNat
  rank_inj {a b} h := by
    have ha := a.token1.isLt
    have hb := b.token1.isLt
    have h0 : a.token0.toNat = b.token0.toNat := by omega
    have h1 : a.token1.toNat = b.token1.toNat := by omega
    cases a
    cases b
    simp only [Pair.mk.injEq]
    exact ⟨BitVec.eq_of_toNat_eq h0, BitVec.eq_of_toNat_eq h1⟩

end Pair

end NetSettle
