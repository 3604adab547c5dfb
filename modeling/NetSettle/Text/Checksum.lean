import NetSettle.Text.Hex
import NetSettle.Text.Keccak

/-!
# Checksummed addresses

In messages an address is written with letters of both cases: a letter is a capital where the
digest of the lower-case digits has a digit of eight or more.
-/
namespace NetSettle

def Address.checksummed (a : Address) : String :=
  let digits := Hex.pairs (bigEndian 20 a.toNat)
  let digest := Keccak.digest (digits.map fun c => c.toNat.toUInt8)
  let marks := digest.flatMap fun b => [b.toNat / 16, b.toNat % 16]
  let cased := (digits.zip marks).map fun (c, mark) => if 8 ≤ mark then c.toUpper else c
  String.ofList ('0' :: 'x' :: cased)

end NetSettle
