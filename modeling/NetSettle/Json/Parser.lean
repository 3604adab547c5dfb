import NetSettle.Json.Shape
import NetSettle.Json.Surplus

/-!
# Reading JSON

The whole grammar of JSON: no comments, no trailing commas, and nothing but blanks after the value.
Only the end of an array of bytes is read less strictly, where the shape of the text has one. Each
reader takes a value off the front of a text and returns it with the rest.
-/
namespace NetSettle.Json

mutual

/-- Reads a value. Each step takes a character, so the length of the text is fuel enough. -/
def value? : (fuel : Nat) → Shape → List Char → Option (Json × List Char)
  | 0, _, _ => none
  | fuel + 1, shape, s =>
    match skipSpace s with
    | 'n' :: 'u' :: 'l' :: 'l' :: rest => some (.null, rest)
    | 't' :: 'r' :: 'u' :: 'e' :: rest => some (.bool true, rest)
    | 'f' :: 'a' :: 'l' :: 's' :: 'e' :: rest => some (.bool false, rest)
    | '"' :: rest => (string? rest).map fun (text, rest) => (.str text, rest)
    | '[' :: rest =>
      match skipSpace rest with
      | ']' :: rest => some (.arr [], rest)
      | rest => (items? fuel shape rest).map fun (items, rest) => (.arr items, rest)
    | '{' :: rest =>
      match skipSpace rest with
      | '}' :: rest => some (.obj [], rest)
      | rest => (members? fuel shape rest).map fun (members, rest) => (.obj members, rest)
    | s => number? s

def items? : (fuel : Nat) → Shape → List Char → Option (List Json × List Char)
  | 0, _, _ => none
  | _ + 1, .bytes 0, s => (closeBytes? s).map fun rest => ([], rest)
  | fuel + 1, shape, s => do
    let (j, s) ← value? fuel shape.head s
    match skipSpace s with
    | ']' :: rest => some ([j], rest)
    | ',' :: rest => do
      let (items, rest) ← items? fuel shape.tail rest
      some (j :: items, rest)
    | _ => none

def members? : (fuel : Nat) → Shape → List Char → Option (List (Option String × Json) × List Char)
  | 0, _, _ => none
  | fuel + 1, shape, s =>
    match skipSpace s with
    | '"' :: rest => do
      let (name, s) ← string? rest
      match skipSpace s with
      | ':' :: rest => do
        let (j, s) ← value? fuel (shape.member name) rest
        match skipSpace s with
        | '}' :: rest => some ([(name, j)], rest)
        | ',' :: rest => do
          let (members, rest) ← members? fuel shape rest
          some ((name, j) :: members, rest)
        | _ => none
      | _ => none
    | _ => none

end

def ofChars? (shape : Shape) (s : List Char) : Option Json :=
  match value? (s.length + 1) shape s with
  | some (j, rest) => if (skipSpace rest).isEmpty then some j else none
  | none => none

def parse? (shape : Shape) (text : String) : Option Json := ofChars? shape text.toList

def read? {α : Type} (shape : Shape) (ofJson? : Json → Option α) (text : String) : Option α :=
  (parse? shape text).bind ofJson?

end NetSettle.Json
