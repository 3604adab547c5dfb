import NetSettle.Json.Basic
import NetSettle.Text.Hex

/-!
# Writing JSON

The compact form has no blanks. The pretty form puts each item and each member on a line of its
own, indented by two blanks a level, and keeps empty arrays and objects together.
-/
namespace NetSettle.Json

def escape (c : Char) : List Char :=
  if c = '"' then ['\\', '"']
  else if c = '\\' then ['\\', '\\']
  else if c = '\n' then ['\\', 'n']
  else if c = '\r' then ['\\', 'r']
  else if c = '\t' then ['\\', 't']
  else if c.toNat = 8 then ['\\', 'b']
  else if c.toNat = 12 then ['\\', 'f']
  else if c.toNat < 32 then
    ['\\', 'u', '0', '0', Hex.digit (c.toNat / 16), Hex.digit (c.toNat % 16)]
  else [c]

def quote (s : String) : List Char := '"' :: s.toList.flatMap escape ++ ['"']

def quoteText (text : Option String) : List Char := quote (text.getD "")

mutual

def chars : Json → List Char
  | .null => ['n', 'u', 'l', 'l']
  | .bool true => ['t', 'r', 'u', 'e']
  | .bool false => ['f', 'a', 'l', 's', 'e']
  | .nat n => Nat.toDigits 10 n
  | .otherNumber => ['0']
  | .str text => quoteText text
  | .arr items => '[' :: itemChars items ++ [']']
  | .obj members => '{' :: memberChars members ++ ['}']

def itemChars : List Json → List Char
  | [] => []
  | [j] => chars j
  | j :: rest => chars j ++ ',' :: itemChars rest

def memberChars : List (Option String × Json) → List Char
  | [] => []
  | [(name, j)] => quoteText name ++ ':' :: chars j
  | (name, j) :: rest => quoteText name ++ ':' :: chars j ++ ',' :: memberChars rest

end

def compact (j : Json) : String := String.ofList (chars j)

def newLine (level : Nat) : String := "\n" ++ String.ofList (List.replicate (2 * level) ' ')

mutual

def prettyAt (level : Nat) : Json → String
  | .arr [] => "[]"
  | .arr items => "[" ++ prettyItems (level + 1) items ++ newLine level ++ "]"
  | .obj [] => "\x7b\x7d"
  | .obj members => "\x7b" ++ prettyMembers (level + 1) members ++ newLine level ++ "\x7d"
  | j => compact j

def prettyItems (level : Nat) : List Json → String
  | [] => ""
  | [j] => newLine level ++ prettyAt level j
  | j :: rest => newLine level ++ prettyAt level j ++ "," ++ prettyItems level rest

def prettyMembers (level : Nat) : List (Option String × Json) → String
  | [] => ""
  | [(name, j)] => newLine level ++ String.ofList (quoteText name) ++ ": " ++ prettyAt level j
  | (name, j) :: rest =>
    newLine level ++ String.ofList (quoteText name) ++ ": " ++ prettyAt level j ++ "," ++
      prettyMembers level rest

end

def pretty (j : Json) : String := prettyAt 0 j

end NetSettle.Json
