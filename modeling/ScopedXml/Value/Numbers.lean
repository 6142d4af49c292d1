/-!
# Numbers

Decimal numbers in the forms of the schema types: `integerValue?` reads an integer exactly, and
`isIntegerWithin` compares it with bounds through words of 128 bits, beyond which only an open side
can hold a value.
-/

namespace ScopedXml.Value

/-- An ASCII digit. -/
def isDigit (c : Char) : Bool := c.isDigit

/-- One digit or more. -/
def isDigits (cs : List Char) : Bool := !cs.isEmpty && cs.all isDigit

/-- The number that digits write. -/
def digitsValue (cs : List Char) : Nat := cs.foldl (fun n c => n * 10 + (c.toNat - 48)) 0

/-- The text behind an optional sign, and whether the sign is a minus. -/
def unsign : List Char → Bool × List Char
  | '+' :: cs => (false, cs)
  | '-' :: cs => (true, cs)
  | cs => (false, cs)

/-- The value of an optional sign and digits. -/
def integerValue? (cs : List Char) : Option Int :=
  let (negative, digits) := unsign cs
  if isDigits digits then
    some (if negative then -(digitsValue digits : Int) else digitsValue digits)
  else none

/-- The integers of a signed word of `bits` bits. -/
def fitsWord (bits : Nat) (n : Int) : Bool :=
  -Int.pow 2 (bits - 1) ≤ n && n < Int.pow 2 (bits - 1)

/-- Bounds of an integer type; an absent one leaves its side open. -/
structure Bounds where
  least : Option Int
  greatest : Option Int
deriving DecidableEq

def Bounds.holds (b : Bounds) (n : Int) : Bool :=
  b.least.all (· ≤ n) && b.greatest.all (n ≤ ·)

/-- An integer within bounds. One that no word of 128 bits holds lies on an open side, or
nowhere. -/
def isIntegerWithin (b : Bounds) (cs : List Char) : Bool :=
  match integerValue? cs with
  | none => false
  | some n =>
    if fitsWord 128 n then b.holds n
    else if cs.head? == some '-' then b.least.isNone
    else b.greatest.isNone

/-- Digits with an optional point among or around them. -/
def isUnsignedDecimal (cs : List Char) : Bool :=
  let whole := cs.takeWhile isDigit
  match cs.dropWhile isDigit with
  | [] => !whole.isEmpty
  | c :: fraction =>
    c == '.' && fraction.all isDigit && !(whole.isEmpty && fraction.isEmpty)

def isDecimal (cs : List Char) : Bool := isUnsignedDecimal (unsign cs).2

/-- A decimal with an optional power of ten, or one of the three special values. -/
def isFloat (cs : List Char) : Bool :=
  let special (s : String) : Bool := cs == s.toList
  let mark (c : Char) : Bool := c == 'e' || c == 'E'
  special "INF" || special "-INF" || special "NaN" ||
    (isDecimal (cs.takeWhile (!mark ·)) &&
      match cs.dropWhile (!mark ·) with
      | [] => true
      | _ :: exponent => isDigits (unsign exponent).2)

end ScopedXml.Value
