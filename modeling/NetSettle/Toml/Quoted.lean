import NetSettle.Text.Hex

/-!
# Quoted text

A text stands between double quotes, with escapes, or between single quotes, as it is; three quotes
at either end let it run over several lines. A text is written between double quotes.
-/
namespace NetSettle.Toml

def isPlain (c : Char) : Bool := c == '\t' || (32 ≤ c.toNat && c.toNat != 127)

def unescape? : Char → Option Char
  | 'b' => some '\x08'
  | 't' => some '\t'
  | 'n' => some '\n'
  | 'f' => some '\x0c'
  | 'r' => some '\r'
  | '"' => some '"'
  | '\\' => some '\\'
  | _ => none

def codePoint? (digits : List Char) : Option Char := do
  let values ← digits.mapM Hex.value?
  let n := values.foldl (fun n d => n * 16 + d) 0
  if n.isValidChar then some (Char.ofNat n) else none

def basic? : List Char → Option (List Char × List Char)
  | [] => none
  | '"' :: rest => some ([], rest)
  | '\\' :: 'u' :: a :: b :: c :: d :: rest => do
    let char ← codePoint? [a, b, c, d]
    let (text, rest) ← basic? rest
    return (char :: text, rest)
  | '\\' :: 'U' :: a :: b :: c :: d :: e :: f :: g :: h :: rest => do
    let char ← codePoint? [a, b, c, d, e, f, g, h]
    let (text, rest) ← basic? rest
    return (char :: text, rest)
  | '\\' :: c :: rest => do
    let char ← unescape? c
    let (text, rest) ← basic? rest
    return (char :: text, rest)
  | c :: rest => do
    if !isPlain c || c == '\\' then none
    let (text, rest) ← basic? rest
    return (c :: text, rest)

def endsLine (s : List Char) : Bool :=
  match s.dropWhile fun c => c == ' ' || c == '\t' with
  | '\n' :: _ => true
  | _ => false

/-- Up to two quotes before the closing three belong to the text. -/
def closing (quote : Char) : List Char → List Char × List Char
  | a :: b :: rest =>
    if a = quote then
      if b = quote then ([a, b], rest) else ([a], b :: rest)
    else ([], a :: b :: rest)
  | [a] => if a = quote then ([a], []) else ([], [a])
  | [] => ([], [])

/-- Reads the rest of a text of several lines between double quotes. A backslash at the end of a
line joins it to the next character that is not blank; `joining` says that blanks are being
skipped. -/
def multiBasic? : (joining : Bool) → List Char → Option (List Char × List Char)
  | _, [] => none
  | _, '"' :: '"' :: '"' :: rest => some (closing '"' rest)
  | _, '\\' :: 'u' :: a :: b :: c :: d :: rest => do
    let char ← codePoint? [a, b, c, d]
    let (text, rest) ← multiBasic? false rest
    return (char :: text, rest)
  | _, '\\' :: 'U' :: a :: b :: c :: d :: e :: f :: g :: h :: rest => do
    let char ← codePoint? [a, b, c, d, e, f, g, h]
    let (text, rest) ← multiBasic? false rest
    return (char :: text, rest)
  | _, '\\' :: c :: rest =>
    if endsLine (c :: rest) then multiBasic? true rest
    else do
      let char ← unescape? c
      let (text, rest) ← multiBasic? false rest
      return (char :: text, rest)
  | joining, c :: rest =>
    if joining && (c == ' ' || c == '\t' || c == '\n') then multiBasic? true rest
    else if (c == '\n' || isPlain c) && c != '\\' then do
      let (text, rest) ← multiBasic? false rest
      return (c :: text, rest)
    else none

def literal? : List Char → Option (List Char × List Char)
  | [] => none
  | '\'' :: rest => some ([], rest)
  | c :: rest => do
    if !isPlain c then none
    let (text, rest) ← literal? rest
    return (c :: text, rest)

def multiLiteral? : List Char → Option (List Char × List Char)
  | [] => none
  | '\'' :: '\'' :: '\'' :: rest => some (closing '\'' rest)
  | c :: rest => do
    if !(c == '\n' || isPlain c) then none
    let (text, rest) ← multiLiteral? rest
    return (c :: text, rest)

def dropLineBreak : List Char → List Char
  | '\n' :: rest => rest
  | s => s

def quoted? (s : List Char) : Option (String × List Char) :=
  let found := match s with
    | '"' :: '"' :: '"' :: rest => multiBasic? false (dropLineBreak rest)
    | '"' :: rest => basic? rest
    | '\'' :: '\'' :: '\'' :: rest => multiLiteral? (dropLineBreak rest)
    | '\'' :: rest => literal? rest
    | _ => none
  found.map fun (text, rest) => (String.ofList text, rest)

def escape (c : Char) : List Char :=
  if c = '"' then ['\\', '"']
  else if c = '\\' then ['\\', '\\']
  else if isPlain c then [c]
  else
    ['\\', 'u', '0', '0', Hex.digit (c.toNat / 16), Hex.digit (c.toNat % 16)]

def quote (text : String) : String :=
  String.ofList ('"' :: text.toList.flatMap escape ++ ['"'])

end NetSettle.Toml
