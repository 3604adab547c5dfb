import NetSettle.Program.BigEndian
import NetSettle.Quantity

/-!
# Hexadecimal text

Bytes are written as pairs of lower-case digits after `0x`. When they are read the letters may be
of either case and `0x` or `0X` may be left out. A word is written with as few digits as it needs.
-/
namespace NetSettle.Hex

def digit (n : Nat) : Char :=
  if n < 10 then Char.ofNat (48 + n) else Char.ofNat (87 + n)

def value? (c : Char) : Option Nat :=
  if '0' ≤ c ∧ c ≤ '9' then some (c.toNat - 48)
  else if 'a' ≤ c ∧ c ≤ 'f' then some (c.toNat - 87)
  else if 'A' ≤ c ∧ c ≤ 'F' then some (c.toNat - 55)
  else none

def pairs : List UInt8 → List Char
  | [] => []
  | b :: bytes => digit (b.toNat / 16) :: digit (b.toNat % 16) :: pairs bytes

def ofPairs? : List Char → Option (List UInt8)
  | [] => some []
  | [_] => none
  | c :: d :: rest => do
    let high ← value? c
    let low ← value? d
    let bytes ← ofPairs? rest
    return UInt8.ofNat (high * 16 + low) :: bytes

def dropMark : List Char → List Char
  | '0' :: 'x' :: rest => rest
  | '0' :: 'X' :: rest => rest
  | cs => cs

def chars (bytes : List UInt8) : List Char := '0' :: 'x' :: pairs bytes

def ofChars? (cs : List Char) : Option (List UInt8) := ofPairs? (dropMark cs)

def encode (bytes : List UInt8) : String := String.ofList (chars bytes)

def decode? (text : String) : Option (List UInt8) := ofChars? text.toList

def fixed? (width : Nat) (text : String) : Option Nat := do
  let bytes ← decode? text
  if bytes.length = width then some (ofBigEndian bytes) else none

theorem value?_digit {n : Nat} (h : n < 16) : value? (digit n) = some n := by
  have : ∀ n < 16, value? (digit n) = some n := by decide
  exact this n h

theorem ofPairs?_pairs (bytes : List UInt8) : ofPairs? (pairs bytes) = some bytes := by
  induction bytes with
  | nil => rfl
  | cons b bytes ih =>
    have hb := b.toNat_lt
    rw [pairs, ofPairs?, value?_digit (by omega), value?_digit (by omega), ih]
    have : UInt8.ofNat (b.toNat / 16 * 16 + b.toNat % 16) = b := by
      rw [Nat.div_add_mod']
      exact UInt8.ofNat_toNat
    exact congrArg (fun c => some (c :: bytes)) this

theorem ofChars?_chars (bytes : List UInt8) : ofChars? (chars bytes) = some bytes :=
  ofPairs?_pairs bytes

end NetSettle.Hex

namespace NetSettle

def Address.toHex (a : Address) : String := Hex.encode (bigEndian 20 a.toNat)

def Address.ofHex? (text : String) : Option Address :=
  (Hex.fixed? 20 text).map (BitVec.ofNat 160)

def Word.toHash (w : Word) : String := Hex.encode (bigEndian 32 w.toNat)

def Word.ofHash? (text : String) : Option Word :=
  (Hex.fixed? 32 text).map (BitVec.ofNat 256)

def Word.toHex (w : Word) : String := String.ofList ('0' :: 'x' :: Nat.toDigits 16 w.toNat)

def numeral? (c : Char) : Option Nat :=
  if '0' ≤ c ∧ c ≤ '9' then some (c.toNat - 48)
  else if 'a' ≤ c ∧ c ≤ 'z' then some (c.toNat - 87)
  else if 'A' ≤ c ∧ c ≤ 'Z' then some (c.toNat - 55)
  else none

def numberFrom? (base : Nat) (n : Nat) : List Char → Option Nat
  | [] => some n
  | '_' :: rest => numberFrom? base n rest
  | c :: rest =>
    match numeral? c with
    | some d => if d < base then numberFrom? base (n * base + d) rest else none
    | none => none

def number? : List Char → Option Nat
  | '0' :: 'x' :: rest | '0' :: 'X' :: rest => numberFrom? 16 0 rest
  | '0' :: 'o' :: rest | '0' :: 'O' :: rest => numberFrom? 8 0 rest
  | '0' :: 'b' :: rest | '0' :: 'B' :: rest => numberFrom? 2 0 rest
  | cs => numberFrom? 10 0 cs

def Word.ofText? (text : String) : Option Word := do
  let n ← number? text.toList
  if n < 2 ^ 256 then some (BitVec.ofNat 256 n) else none

end NetSettle
