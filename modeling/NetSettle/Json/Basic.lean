/-!
# JSON values

The values of a JSON text. Records have no fields for negative numbers or for numbers with a
fraction or an exponent, so those are told apart from natural numbers and from nothing else.
-/
namespace NetSettle

/-- A JSON value. A string with an escape for half a surrogate pair stands for no text; it may be
passed over but not read. -/
inductive Json where
  | null
  | bool (b : Bool)
  | nat (n : Nat)
  | otherNumber
  | str (text : Option String)
  | arr (items : List Json)
  | obj (members : List (Option String × Json))

namespace Json

def text (s : String) : Json := .str (some s)

def record (members : List (String × Json)) : Json :=
  .obj (members.map fun (name, value) => (some name, value))

def tagged (name : String) (value : Json) : Json := record [(name, value)]

end Json

end NetSettle
