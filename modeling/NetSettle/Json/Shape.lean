/-!
# What a JSON text should hold

A byte string may be written as an array of its bytes, and the end of such an array is read by a
rule of its own. A shape tells where in a text byte strings should stand, and it names the fields
of records in their order.
-/
namespace NetSettle.Json

inductive Shape where
  | any
  | bytes (width : Nat)
  | list (item : Shape)
  | tuple (items : List Shape)
  | record (fields : List (String × Shape))

namespace Shape

def address : Shape := .bytes 20

def hash : Shape := .bytes 32

def names : Shape → List String
  | record fields => fields.map (·.1)
  | _ => []

def head : Shape → Shape
  | list item => item
  | tuple (item :: _) => item
  | record ((_, item) :: _) => item
  | _ => any

def tail : Shape → Shape
  | list item => list item
  | tuple (_ :: items) => tuple items
  | record (_ :: fields) => record fields
  | bytes (left + 1) => bytes left
  | _ => any

def member (name : Option String) : Shape → Shape
  | record fields => (name.bind fun name => fields.lookup name).getD any
  | _ => any

theorem member_record_of_lookup {fields : List (String × Shape)} {name : String} {shape : Shape}
    (h : fields.lookup name = some shape) : (record fields).member (some name) = shape := by
  simp [member, h]

end Shape

end NetSettle.Json
