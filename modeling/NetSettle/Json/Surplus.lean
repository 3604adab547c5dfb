import NetSettle.Json.Token

/-!
# The end of an array of bytes

After the last byte of an array it is only made sure that no other byte follows. One item that is
no byte is passed over, as far as it can be read: it may be malformed, and then the closing bracket
must stand where reading it stopped. A comma with nothing after it is passed over too. Texts are
read byte by byte, so reading may stop inside a character, and then no bracket follows.
-/
namespace NetSettle.Json

def dropBytes? : (count : Nat) → List Char → Option (List Char)
  | 0, s => some s
  | _ + 1, [] => none
  | n + 1, c :: rest => if c.utf8Size ≤ n + 1 then dropBytes? (n + 1 - c.utf8Size) rest else none

theorem dropBytes?_utf8Size (c : Char) (rest : List Char) :
    dropBytes? c.utf8Size (c :: rest) = some rest := by
  obtain ⟨n, hn⟩ : ∃ n, c.utf8Size = n + 1 := ⟨c.utf8Size - 1, by have := c.utf8Size_pos; omega⟩
  rw [hn, dropBytes?, if_pos (by omega), hn, Nat.sub_self, dropBytes?]

def dropWord? : (word : List Char) → List Char → Option (List Char)
  | [], s => some s
  | _ :: _, [] => none
  | w :: word, c :: rest => if c = w then dropWord? word rest else dropBytes? 1 (c :: rest)

theorem dropWord?_append (word rest : List Char) : dropWord? word (word ++ rest) = some rest := by
  induction word with
  | nil => rfl
  | cons w word ih => simpa [dropWord?] using ih

def dropUnit? (s : List Char) : Option (Option Nat × List Char) :=
  match s with
  | a :: b :: c :: d :: rest =>
    match hex4? a b c d with
    | some unit => some (some unit, rest)
    | none => (dropBytes? 4 s).map fun rest => (none, rest)
  | _ => (dropBytes? 4 s).map fun rest => (none, rest)

def isHighHalf (unit : Nat) : Bool := 0xD800 ≤ unit && unit < 0xDC00

def isLowHalf (unit : Nat) : Bool := 0xDC00 ≤ unit && unit < 0xE000

def dropFault? (s : List Char) : Option (Bool × List Char) :=
  (dropBytes? 1 s).map fun rest => (false, rest)

def dropLowHalf? : List Char → Option (Bool × List Char)
  | '\\' :: 'u' :: rest => (dropUnit? rest).map fun (unit, rest) => (unit.any isLowHalf, rest)
  | '\\' :: rest => dropFault? rest
  | s => dropFault? s

def dropEscape? : List Char → Option (Bool × List Char)
  | [] => none
  | 'u' :: rest => do
    match ← dropUnit? rest with
    | (none, rest) => return (false, rest)
    | (some unit, rest) =>
      if isLowHalf unit then return (false, rest)
      else if isHighHalf unit then dropLowHalf? rest
      else return (true, rest)
  | c :: rest => if (unescape? c).isSome then some (true, rest) else dropFault? (c :: rest)

def dropString? : (fuel : Nat) → List Char → Option (List Char)
  | 0, _ => none
  | _ + 1, [] => none
  | fuel + 1, c :: rest =>
    if c = '"' then some rest
    else if c = '\\' then do
      let (whole, rest) ← dropEscape? rest
      if whole then dropString? fuel rest else some rest
    else if c.toNat < 32 then some rest
    else dropString? fuel rest

def dropExponentDigits : (n : Nat) → List Char → List Char
  | _, [] => []
  | n, c :: rest =>
    if c.isDigit then
      let n := n * 10 + (c.toNat - 48)
      if n < 2 ^ 31 then dropExponentDigits n rest else rest
    else c :: rest

/-- Takes an exponent off the front, up to its first fault. Only a number that it makes too large
is at fault for a large exponent: not zero, and not one with a negative exponent. -/
def dropExponent? (isZero : Bool) : List Char → Option (List Char)
  | [] => some []
  | c :: rest =>
    if c = 'e' ∨ c = 'E' then
      let (negative, digits) := match rest with
        | '+' :: digits => (false, digits)
        | '-' :: digits => (true, digits)
        | digits => (false, digits)
      match spanDigits digits with
      | ([], _) => dropBytes? 1 digits
      | (_, rest) => some (if isZero || negative then rest else dropExponentDigits 0 digits)
    else some (c :: rest)

def spanWhole : List Char → List Char × List Char
  | '0' :: rest => (['0'], rest)
  | s => spanDigits s

def dropNumber? (s : List Char) : Option (List Char) :=
  match spanWhole s with
  | ([], _) => dropBytes? 1 s
  | (whole, '.' :: rest) =>
    match spanDigits rest with
    | ([], _) => some rest
    | (places, rest) => dropExponent? ((whole ++ places).all (· == '0')) rest
  | (whole, rest) => dropExponent? (whole.all (· == '0')) rest

def beginsWithByte (s : List Char) : Bool :=
  match number? s with
  | some (.nat n, _) => n < 256
  | _ => false

def dropSurplus? (s : List Char) : Option (List Char) :=
  match s with
  | 'n' :: rest => dropWord? ['u', 'l', 'l'] rest
  | 't' :: rest => dropWord? ['r', 'u', 'e'] rest
  | 'f' :: rest => dropWord? ['a', 'l', 's', 'e'] rest
  | '"' :: rest => dropString? (rest.length + 1) rest
  | '-' :: rest => dropNumber? rest
  | c :: _ => if c.isDigit && !beginsWithByte s then dropNumber? s else none
  | [] => none

def closeBytes? (s : List Char) : Option (List Char) :=
  match skipSpace s with
  | ']' :: rest => some rest
  | s => do
    match skipSpace (← dropSurplus? s) with
    | ']' :: rest => some rest
    | _ => none

end NetSettle.Json
