import NetSettle.Pair

/-!
# Operations

A program is a list of operations on pools, balances and allowances, with the capacity of the
ledger that it needs. There are eleven kinds. The high half of an opcode byte names the kind and
the low half holds flags, of which each kind uses some.
-/
namespace NetSettle

inductive OpKind where
  | swap
  | addLiquidity
  | removeLiquidity
  | sendAll
  | receiveAll
  | receiveAllViaCallback
  | markReceived
  | deposit
  | withdraw
  | permit
  | claimFees
  deriving DecidableEq, Repr

namespace OpKind

def all : List OpKind :=
  [.swap, .addLiquidity, .removeLiquidity, .sendAll, .receiveAll, .receiveAllViaCallback,
    .markReceived, .deposit, .withdraw, .permit, .claimFees]

def code : OpKind → UInt8
  | .swap => 0
  | .addLiquidity => 1
  | .removeLiquidity => 2
  | .sendAll => 3
  | .receiveAll => 4
  | .receiveAllViaCallback => 5
  | .markReceived => 6
  | .deposit => 7
  | .withdraw => 8
  | .permit => 9
  | .claimFees => 10

def ofOpcode (opcode : UInt8) : Except Fault OpKind :=
  match all[opcode.toNat / 16]? with
  | some kind => .ok kind
  | none => .error (.unknownOperation opcode)

def opcode (kind : OpKind) (flags : UInt8) : UInt8 :=
  kind.code <<< 4 ||| (flags &&& 0x0f)

def usedFlags : OpKind → UInt8
  | .swap | .sendAll | .receiveAll | .receiveAllViaCallback | .markReceived => 0b11
  | .addLiquidity | .removeLiquidity => 0b01
  | .deposit | .withdraw | .permit | .claimFees => 0

end OpKind

def flag0 (opcode : UInt8) : Bool := opcode &&& 1 ≠ 0

def flag1 (opcode : UInt8) : Bool := opcode &&& 2 ≠ 0

def flagBits (first second : Bool) : UInt8 :=
  (if first then 1 else 0) ||| (if second then 2 else 0)

structure Bounds where
  min : Option Amount
  max : Option Amount
  deriving DecidableEq, Repr

namespace Bounds

def unbounded : Bounds := ⟨none, none⟩

def flags (b : Bounds) : UInt8 := flagBits b.min.isSome b.max.isSome

def check (b : Bounds) (amount : Word) : Except Fault Unit :=
  let min := b.min.getD 0
  let max := b.max.getD Amount.max
  if amount.toNat < min.toNat ∨ max.toNat < amount.toNat then
    .error (.boundViolation amount min max)
  else .ok ()

end Bounds

inductive SwapAmount where
  | exact (amount : Amount)
  | fromLedger
  deriving DecidableEq, Repr

structure Signature where
  v : UInt8
  r : Word
  s : Word
  deriving DecidableEq, Repr

inductive Operation where
  | swap (token0 token1 : Address) (direction : Direction) (amount : SwapAmount)
  | addLiquidity (token0 token1 recipient : Address) (max0 max1 : Amount)
      (minShares : Option Amount)
  | removeLiquidity (token0 token1 : Address) (shares : Option Amount)
  | sendAll (token recipient : Address) (bounds : Bounds)
  | receiveAll (token : Address) (bounds : Bounds)
  | receiveAllViaCallback (token : Address) (bounds : Bounds)
  | markReceived (token : Address) (bounds : Bounds)
  | deposit (token : Address) (amount : Amount)
  | withdraw (token recipient : Address) (amount : Amount)
  | permit (token : Address) (amount : Amount) (deadline : UInt64) (signature : Signature)
  | claimFees (token0 token1 : Address)
  deriving DecidableEq, Repr

namespace Operation

def kind : Operation → OpKind
  | swap .. => .swap
  | addLiquidity .. => .addLiquidity
  | removeLiquidity .. => .removeLiquidity
  | sendAll .. => .sendAll
  | receiveAll .. => .receiveAll
  | receiveAllViaCallback .. => .receiveAllViaCallback
  | markReceived .. => .markReceived
  | deposit .. => .deposit
  | withdraw .. => .withdraw
  | permit .. => .permit
  | claimFees .. => .claimFees

def flags : Operation → UInt8
  | swap _ _ direction amount => flagBits direction.isZeroForOne (amount = .fromLedger)
  | addLiquidity _ _ _ _ _ minShares => flagBits minShares.isSome false
  | removeLiquidity _ _ shares => flagBits shares.isNone false
  | sendAll _ _ bounds | receiveAll _ bounds | receiveAllViaCallback _ bounds
  | markReceived _ bounds => bounds.flags
  | deposit .. | withdraw .. | permit .. | claimFees .. => 0

def opcode (op : Operation) : UInt8 := op.kind.opcode op.flags

def tokens : Operation → List Address
  | swap token0 token1 _ _ | addLiquidity token0 token1 _ _ _ _ | removeLiquidity token0 token1 _
  | claimFees token0 token1 => [token0, token1]
  | sendAll token _ _ | receiveAll token _ | receiveAllViaCallback token _ | markReceived token _
  | deposit token _ | withdraw token _ _ | permit token _ _ _ => [token]

end Operation

structure Program where
  ledgerCapacity : UInt16
  operations : List Operation
  deriving DecidableEq, Repr

end NetSettle
