import NetSettle.Toml.Quoted
import NetSettle.Toml.Scalar

/-!
# Lines of a TOML text

A text is a sequence of entries, each a key with a value, and of headers of tables. A key may have
several parts. Arrays may run over several lines, tables in braces may not.
-/
namespace NetSettle.Toml

def maxDepth : Nat := 79

def isBlankChar (c : Char) : Bool := c == ' ' || c == '\t'

def skipBlanks (s : List Char) : List Char := s.dropWhile isBlankChar

def skipLines : (inComment : Bool) → List Char → List Char
  | _, [] => []
  | true, c :: rest =>
    if isPlain c then skipLines true rest
    else if c == '\n' then skipLines false rest
    else c :: rest
  | false, c :: rest =>
    if isBlankChar c || c == '\n' then skipLines false rest
    else if c == '#' then skipLines true rest
    else c :: rest

def lineEnd? (s : List Char) : Option (List Char) :=
  let rest := match skipBlanks s with
    | '#' :: comment => comment.dropWhile isPlain
    | rest => rest
  match rest with
  | [] => some []
  | '\n' :: rest => some rest
  | _ => none

def isKeyChar (c : Char) : Bool := c.isAlphanum || c == '_' || c == '-'

def keyPart? (s : List Char) : Option (String × List Char) :=
  match s with
  | '"' :: rest => (basic? rest).map fun (text, rest) => (String.ofList text, rest)
  | '\'' :: rest => (literal? rest).map fun (text, rest) => (String.ofList text, rest)
  | _ =>
    match s.span isKeyChar with
    | ([], _) => none
    | (text, rest) => some (String.ofList text, rest)

def keyParts? : (parts : Nat) → List Char → Option (List String × List Char)
  | 0, _ => none
  | parts + 1, s => do
    let (part, s) ← keyPart? (skipBlanks s)
    match skipBlanks s with
    | '.' :: rest => do
      let (key, rest) ← keyParts? parts rest
      return (part :: key, rest)
    | rest => return ([part], rest)

def key? (s : List Char) : Option (List String × List Char) := keyParts? maxDepth s

/-- Adds a value under a key; all parts but the last name tables. A table on the way is made if it
is missing. The last table must be one that keys with dots have made, and nothing is replaced. -/
def insert (value : Toml) : (key : List String) → Entries → Option Entries
  | [], _ => none
  | [name], entries =>
    match entries.lookup name with
    | none => some (entries.put name value)
    | some _ => none
  | name :: key, entries =>
    match entries.lookup name with
    | none => do
      let inner ← insert value key []
      return entries.put name (.table .dotted inner)
    | some (.table .dotted inner) => do
      let inner ← insert value key inner
      return entries.put name (.table .dotted inner)
    | some (.table .implied inner) => do
      if key.length = 1 then none
      let inner ← insert value key inner
      return entries.put name (.table .implied inner)
    | some (.tables items) => do
      if key.length = 1 then none
      let inner ← insert value key (items.getLast?.getD [])
      return entries.put name (.tables (items.dropLast ++ [inner]))
    | some _ => none

mutual

/-- Reads a value. Every step takes a character or follows one that did, so twice the length of the
text is fuel enough. -/
def value? : (fuel depth : Nat) → List Char → Option (Toml × List Char)
  | 0, _, _ => none
  | fuel + 1, depth, s =>
    match s with
    | '[' :: rest =>
      match depth with
      | 0 => none
      | depth + 1 => (items? fuel depth rest).map fun (items, rest) => (.arr items, rest)
    | '\x7b' :: rest =>
      match depth with
      | 0 => none
      | depth + 1 =>
        match skipBlanks rest with
        | '\x7d' :: rest => some (.table .braces [], rest)
        | rest => (members? fuel depth [] rest).map fun (entries, rest) =>
          (.table .braces entries, rest)
    | '"' :: _ | '\'' :: _ => (quoted? s).map fun (text, rest) => (.str text, rest)
    | _ => scalarOf? s

def items? : (fuel depth : Nat) → List Char → Option (List Toml × List Char)
  | 0, _, _ => none
  | fuel + 1, depth, s =>
    match skipLines false s with
    | ']' :: rest => some ([], rest)
    | s => do
      let (item, s) ← value? fuel depth s
      match skipLines false s with
      | ']' :: rest => some ([item], rest)
      | ',' :: rest => do
        let (items, rest) ← items? fuel depth rest
        some (item :: items, rest)
      | _ => none

def members? : (fuel depth : Nat) → Entries → List Char → Option (Entries × List Char)
  | 0, _, _, _ => none
  | fuel + 1, depth, entries, s => do
    let (key, s) ← key? s
    match s with
    | '=' :: s => do
      let (value, s) ← value? fuel depth (skipBlanks s)
      let entries ← insert value key entries
      match skipBlanks s with
      | '\x7d' :: rest => some (entries, rest)
      | ',' :: rest => members? fuel depth entries rest
      | _ => none
    | _ => none

end

inductive Line where
  | entry (key : List String) (value : Toml)
  | header (key : List String)
  | itemHeader (key : List String)

def line? (s : List Char) : Option (Line × List Char) :=
  match s with
  | '[' :: '[' :: rest => do
    let (key, s) ← key? rest
    match s with
    | ']' :: ']' :: rest => return (.itemHeader key, ← lineEnd? rest)
    | _ => none
  | '[' :: rest => do
    let (key, s) ← key? rest
    match s with
    | ']' :: rest => return (.header key, ← lineEnd? rest)
    | _ => none
  | _ => do
    let (key, s) ← key? s
    match s with
    | '=' :: rest =>
      let (value, rest) ← value? (2 * rest.length + 1) maxDepth (skipBlanks rest)
      return (.entry key value, ← lineEnd? rest)
    | _ => none

def lines? : (fuel : Nat) → List Char → Option (List Line)
  | 0, _ => none
  | fuel + 1, s =>
    match skipLines false s with
    | [] => some []
    | s => do
      let (line, rest) ← line? s
      let lines ← lines? fuel rest
      return line :: lines

end NetSettle.Toml
