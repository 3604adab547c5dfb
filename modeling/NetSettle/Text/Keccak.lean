/-!
# The Keccak-256 digest

The sponge over 25 lanes of 64 bits with a rate of 136 bytes, twenty-four rounds, and the padding
that begins with a one bit and ends with one.
-/
namespace NetSettle.Keccak

abbrev Lanes := Array UInt64

def lane (a : Lanes) (x y : Nat) : UInt64 := a.getD (x % 5 + 5 * (y % 5)) 0

def ofLanes (f : Nat → Nat → UInt64) : Lanes :=
  ((List.range 25).map fun i => f (i % 5) (i / 5)).toArray

def rotate (w : UInt64) (n : Nat) : UInt64 :=
  if n = 0 then w else w <<< UInt64.ofNat n ||| w >>> UInt64.ofNat (64 - n)

def turns : Array Nat :=
  #[0, 1, 62, 28, 27, 36, 44, 6, 55, 20, 3, 10, 43, 25, 39, 41, 45, 15, 21, 8, 18, 2, 61, 56, 14]

def roundConstants : List UInt64 :=
  [0x0000000000000001, 0x0000000000008082, 0x800000000000808A, 0x8000000080008000,
    0x000000000000808B, 0x0000000080000001, 0x8000000080008081, 0x8000000000008009,
    0x000000000000008A, 0x0000000000000088, 0x0000000080008009, 0x000000008000000A,
    0x000000008000808B, 0x800000000000008B, 0x8000000000008089, 0x8000000000008003,
    0x8000000000008002, 0x8000000000000080, 0x000000000000800A, 0x800000008000000A,
    0x8000000080008081, 0x8000000000008080, 0x0000000080000001, 0x8000000080008008]

def theta (a : Lanes) : Lanes :=
  let parity := ((List.range 5).map fun x =>
    lane a x 0 ^^^ lane a x 1 ^^^ lane a x 2 ^^^ lane a x 3 ^^^ lane a x 4).toArray
  let column (x : Nat) : UInt64 := parity.getD (x % 5) 0
  ofLanes fun x y => lane a x y ^^^ column (x + 4) ^^^ rotate (column (x + 1)) 1

def turnAndMove (a : Lanes) : Lanes :=
  ofLanes fun x y =>
    let x' := (x + 3 * y) % 5
    rotate (lane a x' x) (turns.getD (x' + 5 * x) 0)

def chi (a : Lanes) : Lanes :=
  ofLanes fun x y => lane a x y ^^^ (~~~lane a (x + 1) y &&& lane a (x + 2) y)

def round (a : Lanes) (constant : UInt64) : Lanes :=
  let b := chi (turnAndMove (theta a))
  b.setIfInBounds 0 (lane b 0 0 ^^^ constant)

def permute (a : Lanes) : Lanes := roundConstants.foldl round a

def laneOf (bytes : List UInt8) : UInt64 :=
  (bytes.take 8).foldr (fun b w => w <<< 8 ||| b.toUInt64) 0

def bytesOf (w : UInt64) : List UInt8 :=
  (List.range 8).map fun i => (w >>> UInt64.ofNat (8 * i)).toUInt8

def rate : Nat := 136

def pad (message : List UInt8) : List UInt8 :=
  let gap := rate - message.length % rate
  if gap = 1 then message ++ [0x81]
  else message ++ 1 :: List.replicate (gap - 2) 0 ++ [0x80]

def absorb (a : Lanes) (block : List UInt8) : Lanes :=
  permute (ofLanes fun x y =>
    let i := x + 5 * y
    if 8 * i < rate then lane a x y ^^^ laneOf (block.drop (8 * i)) else lane a x y)

def digest (message : List UInt8) : List UInt8 :=
  let padded := pad message
  let blocks := (List.range (padded.length / rate)).map fun i =>
    (padded.drop (rate * i)).take rate
  let final := blocks.foldl absorb (Array.replicate 25 0)
  (final.toList.take 4).flatMap bytesOf

end NetSettle.Keccak
