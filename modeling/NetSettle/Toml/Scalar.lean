import NetSettle.Text.Hex
import NetSettle.Toml.Basic

/-!
# Numbers, truth values, dates and times

The values that are written without quotes or brackets. Each is a run of letters, digits and a few
signs, and is classified as a whole. Of floats, dates and times it matters only that they are well
formed.
-/
namespace NetSettle.Toml

def isScalarChar (c : Char) : Bool :=
  c.isAlphanum || c == '+' || c == '-' || c == '_' || c == '.' || c == ':'

def digits? (isDigit : Char → Bool) : List Char → Option (List Char)
  | [] => none
  | [c] => if isDigit c then some [c] else none
  | c :: '_' :: rest => if isDigit c then (digits? isDigit rest).map (c :: ·) else none
  | c :: rest => if isDigit c then (digits? isDigit rest).map (c :: ·) else none

def isDigitOf (base : Nat) (c : Char) : Bool := (Hex.value? c).any (· < base)

def natural? (base : Nat) (s : List Char) : Option Nat :=
  (digits? (isDigitOf base) s).map fun ds =>
    ds.foldl (fun n c => n * base + (Hex.value? c).getD 0) 0

def decimalDigits? (s : List Char) : Option (List Char) :=
  match digits? Char.isDigit s with
  | some ('0' :: _ :: _) => none
  | ds => ds

def signed : List Char → Bool × List Char
  | '-' :: rest => (true, rest)
  | '+' :: rest => (false, rest)
  | s => (false, s)

def int? (s : List Char) : Option Int := do
  let n : Int ← match s with
    | '0' :: 'x' :: ds => (natural? 16 ds).map Int.ofNat
    | '0' :: 'o' :: ds => (natural? 8 ds).map Int.ofNat
    | '0' :: 'b' :: ds => (natural? 2 ds).map Int.ofNat
    | _ =>
      let (negative, s) := signed s
      let ds ← decimalDigits? s
      let n := Int.ofNat (Nat.ofDigitChars 10 ds 0)
      some (if negative then -n else n)
  if -2 ^ 63 ≤ n ∧ n < 2 ^ 63 then some n else none

/-- Whether a number with these digits, times a power of ten, is beyond every finite double: half a
unit above the largest one it would be rounded to infinity. -/
def exceedsDouble (digits : List Char) (exponent : Int) : Bool :=
  let digits := digits.dropWhile (· == '0')
  let size : Int := digits.length + exponent
  if digits.isEmpty || size ≤ 308 then false
  else if 310 ≤ size then true
  else
    let m := Nat.ofDigitChars 10 digits 0
    let limit := 2 ^ 1024 - 2 ^ 970
    limit * Nat.pow 10 (-exponent).toNat ≤ m * Nat.pow 10 exponent.toNat

def exponent? (s : List Char) : Option Int := do
  let (negative, s) := signed s
  let ds ← digits? Char.isDigit s
  let n := Int.ofNat (Nat.ofDigitChars 10 ds 0)
  return if negative then -n else n

def splitExponent (s : List Char) : List Char × Option (List Char) :=
  match s.span fun c => c != 'e' && c != 'E' with
  | (mantissa, _ :: exponent) => (mantissa, some exponent)
  | (mantissa, []) => (mantissa, none)

def isFloat (s : List Char) : Bool :=
  let (negative, unsigned) := signed s
  if unsigned = ['i', 'n', 'f'] || unsigned = ['n', 'a', 'n'] then true
  else
    let (mantissa, exponent) := splitExponent unsigned
    let parts := do
      let (whole, point) := mantissa.span (· != '.')
      let whole ← decimalDigits? whole
      let places ← match point with
        | [] => if exponent.isSome then some [] else none
        | _ :: places => digits? Char.isDigit places
      let e ← (exponent.elim (some 0) exponent? : Option Int)
      return (whole ++ places, e - places.length)
    match parts with
    | some (digits, e) => negative || !exceedsDouble digits e
    | none => false

def twoDigits? (low high : Nat) (a b : Char) : Option Nat :=
  let n := (a.toNat - 48) * 10 + (b.toNat - 48)
  if a.isDigit && b.isDigit && low ≤ n && n ≤ high then some n else none

def daysOfMonth (year month : Nat) : Nat :=
  if month = 2 then
    if year % 4 = 0 ∧ (year % 100 ≠ 0 ∨ year % 400 = 0) then 29 else 28
  else if month = 4 ∨ month = 6 ∨ month = 9 ∨ month = 11 then 30
  else 31

def date? : List Char → Option (List Char)
  | a :: b :: c :: d :: '-' :: e :: f :: '-' :: g :: h :: rest => do
    let century ← twoDigits? 0 99 a b
    let year ← twoDigits? 0 99 c d
    let month ← twoDigits? 1 12 e f
    let day ← twoDigits? 1 31 g h
    if day ≤ daysOfMonth (century * 100 + year) month then some rest else none
  | _ => none

def secondFraction? : List Char → Option (List Char)
  | '.' :: c :: rest => if c.isDigit then some (rest.dropWhile Char.isDigit) else none
  | '.' :: [] => none
  | s => some s

def time? : List Char → Option (List Char)
  | a :: b :: ':' :: c :: d :: ':' :: e :: f :: rest => do
    let _ ← twoDigits? 0 23 a b
    let _ ← twoDigits? 0 59 c d
    let _ ← twoDigits? 0 60 e f
    secondFraction? rest
  | _ => none

def isOffset : List Char → Bool
  | [] => true
  | ['Z'] => true
  | ['z'] => true
  | [sign, a, b, ':', c, d] =>
    (sign == '+' || sign == '-') && (twoDigits? 0 23 a b).isSome && (twoDigits? 0 59 c d).isSome
  | _ => false

def isTimeOfDate (s : List Char) : Bool := (time? s).any isOffset

def isDate (s : List Char) : Bool := date? s = some []

def isDateOrTime (s : List Char) : Bool :=
  time? s = some [] ||
    match date? s with
    | some [] => true
    | some (c :: rest) => (c == 'T' || c == 't') && isTimeOfDate rest
    | none => false

def scalar? (s : List Char) : Option Toml :=
  if s = ['t', 'r', 'u', 'e'] then some (.bool true)
  else if s = ['f', 'a', 'l', 's', 'e'] then some (.bool false)
  else
    match int? s with
    | some n => some (.int n)
    | none => if isFloat s || isDateOrTime s then some .other else none

def scalarOf? (s : List Char) : Option (Toml × List Char) := do
  let (token, rest) := s.span isScalarChar
  let value ← scalar? token
  match rest with
  | ' ' :: later =>
    let (time, after) := later.span isScalarChar
    return if isDate token && isTimeOfDate time then (.other, after) else (value, rest)
  | _ => return (value, rest)

end NetSettle.Toml
