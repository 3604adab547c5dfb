import NetSettle.FeeSettings
import NetSettle.Json.Basic
import NetSettle.Json.Shape
import NetSettle.SortedMap
import NetSettle.Text.Hex

/-!
# Records in JSON

How the fields of a record, the cases of a choice, numbers, addresses and maps are written as JSON
values and read back. A record is read from an object, whose unknown members are ignored and whose
known members must not be repeated, or from an array that holds its fields in order. A case of a
choice is named by a string, or by the only member of an object.
-/
namespace NetSettle

namespace Json

def member? (members : List (Option String × Json)) (name : String) : Option (Option Json) :=
  match members.filter fun m => m.1 = some name with
  | [] => some none
  | [(_, value)] => some (some value)
  | _ => none

def fields? (shape : Shape) : Json → Option (List (Option Json))
  | .obj members =>
    if members.all fun m => m.1.isSome then shape.names.mapM (member? members) else none
  | .arr items =>
    let missing := shape.names.length - items.length
    if items.length ≤ shape.names.length then
      some (items.map some ++ List.replicate missing none)
    else none
  | _ => none

def choice? : Json → Option (String × Option Json)
  | .str (some name) => some (name, none)
  | .obj [(some name, value)] => some (name, some value)
  | _ => none

def bare? {α : Type} (a : α) : Option Json → Option α
  | none => some a
  | some .null => some a
  | _ => none

def required? {α : Type} (read : Json → Option α) (field : Option Json) : Option α :=
  field.bind read

def withDefault? {α : Type} (default : α) (read : Json → Option α) : Option Json → Option α
  | none => some default
  | some j => read j

def optional? {α : Type} (read : Json → Option α) : Option Json → Option (Option α)
  | none => some none
  | some .null => some none
  | some j => (read j).map some

def bool? : Json → Option Bool
  | .bool b => some b
  | _ => none

def natBelow? (bound : Nat) : Json → Option Nat
  | .nat n => if n < bound then some n else none
  | _ => none

def list? {α : Type} (read : Json → Option α) : Json → Option (List α)
  | .arr items => items.mapM read
  | _ => none

def both? {α β : Type} (readFirst : Json → Option α) (readSecond : Json → Option β) :
    Json → Option (α × β)
  | .arr [a, b] => do
    let a ← readFirst a
    let b ← readSecond b
    return (a, b)
  | _ => none

def bytes? (width : Nat) : Json → Option Nat
  | .str (some text) => Hex.fixed? width text
  | .arr items => do
    let bytes ← items.mapM (natBelow? 256)
    if bytes.length = width then some (ofBigEndian (bytes.map UInt8.ofNat)) else none
  | _ => none

def uint8? (j : Json) : Option UInt8 := (natBelow? (2 ^ 8) j).map UInt8.ofNat

def uint16? (j : Json) : Option UInt16 := (natBelow? (2 ^ 16) j).map UInt16.ofNat

def uint64? (j : Json) : Option UInt64 := (natBelow? (2 ^ 64) j).map UInt64.ofNat

def count? (j : Json) : Option Nat := natBelow? (2 ^ 64) j

def addressMap? {β : Type} (read : Json → Option β) : Json → Option (SortedMap Address β)
  | .obj members => do
    let entries ← members.mapM fun (name, value) => do
      let key ← name.bind Address.ofHex?
      let value ← read value
      return (key, value)
    return .ofList entries
  | _ => none

def addressMap {β : Type} (write : β → Json) (m : SortedMap Address β) : Json :=
  record (m.toList.map fun (key, value) => (Address.toHex key, write value))

def optionalMember {α : Type} (name : String) (write : α → Json) (a : Option α) :
    List (String × Json) :=
  (a.map fun a => (name, write a)).toList

end Json

def Amount.toJson (a : Amount) : Json := .nat a.toNat

def Amount.ofJson? (j : Json) : Option Amount :=
  (j.natBelow? (2 ^ 128)).map (BitVec.ofNat 128)

def Address.toJson (a : Address) : Json := .text (Address.toHex a)

def Address.ofJson? (j : Json) : Option Address := (j.bytes? 20).map (BitVec.ofNat 160)

def Word.toJson (w : Word) : Json := .text (Word.toHex w)

def Word.ofJson? : Json → Option Word
  | .str (some text) => Word.ofText? text
  | .nat n => if n < 2 ^ 64 then some (BitVec.ofNat 256 n) else none
  | _ => none

def Word.hashToJson (w : Word) : Json := .text (Word.toHash w)

def Word.hashOfJson? (j : Json) : Option Word := (j.bytes? 32).map (BitVec.ofNat 256)

def FeeSettings.toJson (fees : FeeSettings) : Json :=
  .record [("swap_fee_bps", .nat fees.swapFeeBps.toNat),
    ("protocol_fee_ppt", .nat fees.protocolFeePpt.toNat),
    ("fee_receiver", fees.receiver.toJson)]

end NetSettle
