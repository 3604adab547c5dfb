import NetSettle.Quantity
import NetSettle.Text.Hex
import NetSettle.Toml.Basic

/-!
# Records in TOML

A record is read from a table, whose unknown entries are ignored, or from an array that begins with
its fields in order.
-/
namespace NetSettle

namespace Toml

def fields? (names : List String) : Toml → Option (List (Option Toml))
  | .table _ entries => some (names.map fun name => entries.lookup name)
  | .arr items => some ((items.map some ++ List.replicate names.length none).take names.length)
  | _ => none

def str? : Toml → Option String
  | .str text => some text
  | _ => none

def bool? : Toml → Option Bool
  | .bool b => some b
  | _ => none

def natBelow? (bound : Nat) : Toml → Option Nat
  | .int (.ofNat n) => if n < bound then some n else none
  | _ => none

def uint16? (t : Toml) : Option UInt16 := (natBelow? (2 ^ 16) t).map UInt16.ofNat

def uint64? (t : Toml) : Option UInt64 := (natBelow? (2 ^ 64) t).map UInt64.ofNat

def list? {α : Type} (read : Toml → Option α) : Toml → Option (List α)
  | .arr items => items.mapM read
  | .tables items => items.mapM fun entries => read (.table .header entries)
  | _ => none

end Toml

def Address.ofToml? : Toml → Option Address
  | .str text => Address.ofHex? text
  | .arr items => do
    let bytes ← (items.take 20).mapM (Toml.natBelow? 256)
    if bytes.length = 20 ∧ (items[20]?.bind (Toml.natBelow? 256)).isNone then
      some (BitVec.ofNat 160 (ofBigEndian (bytes.map UInt8.ofNat)))
    else none
  | _ => none

def Word.ofToml? : Toml → Option Word
  | .str text => Word.ofText? text
  | _ => none

end NetSettle
