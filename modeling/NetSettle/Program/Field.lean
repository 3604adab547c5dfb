import NetSettle.Program.Cursor

/-!
# Typed fields

A field with its value, the bytes that it is written as, and the read that takes it back.
-/
namespace NetSettle

inductive FieldType where
  | uint (width : Nat)
  | uint8
  | uint16
  | uint64
  | amount
  | address
  | word
  deriving DecidableEq, Repr

inductive Field where
  | uint (value : Word) (width : Nat)
  | uint8 (value : UInt8)
  | uint16 (value : UInt16)
  | uint64 (value : UInt64)
  | amount (value : Amount)
  | address (value : Address)
  | word (value : Word)
  deriving DecidableEq, Repr

namespace Field

def type : Field → FieldType
  | uint _ width => .uint width
  | uint8 _ => .uint8
  | uint16 _ => .uint16
  | uint64 _ => .uint64
  | amount _ => .amount
  | address _ => .address
  | word _ => .word

def encode : Field → Except Fault (List UInt8)
  | uint value width =>
    if width = 0 ∨ maxFieldWidth < width then .error (.invalidFieldWidth width)
    else if 1 <<< (8 * width) ≤ value.toNat then .error .overflow
    else .ok (bigEndian width value.toNat)
  | uint8 value => .ok (bigEndian 1 value.toNat)
  | uint16 value => .ok (bigEndian 2 value.toNat)
  | uint64 value => .ok (bigEndian 8 value.toNat)
  | amount value => .ok (bigEndian 16 value.toNat)
  | address value => .ok (bigEndian 20 value.toNat)
  | word value => .ok (bigEndian 32 value.toNat)

def append (f : Field) : Faulting (List UInt8) Unit := do
  let bytes ← f.encode
  modify (· ++ bytes)

end Field

def FieldType.read : FieldType → Decoder Field
  | .uint width => return .uint (← Cursor.readUInt width) width
  | .uint8 => return .uint8 (← Cursor.readUInt8)
  | .uint16 => return .uint16 (← Cursor.readUInt16)
  | .uint64 => return .uint64 (← Cursor.readUInt64)
  | .amount => return .amount (← Cursor.readAmount)
  | .address => return .address (← Cursor.readAddress)
  | .word => return .word (← Cursor.readWord)

end NetSettle
