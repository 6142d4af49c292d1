/-!
# UTF-16

A character is one 16-bit unit, or two surrogates when it lies above U+FFFF; a unit is two bytes
in either order. `decode?` refuses an odd number of bytes and every surrogate without its partner.
-/

namespace ScopedXml.Text.Utf16

/-- Which byte of a unit comes first. -/
inductive Order
  | littleEndian
  | bigEndian
deriving DecidableEq

/-- The unit made of two consecutive bytes. -/
def Order.unit (order : Order) (a b : UInt8) : Nat :=
  match order with
  | .littleEndian => a.toNat + 256 * b.toNat
  | .bigEndian => 256 * a.toNat + b.toNat

/-- The two bytes of a unit. -/
def Order.bytes (order : Order) (unit : Nat) : List UInt8 :=
  let low := UInt8.ofNat (unit % 256)
  let high := UInt8.ofNat (unit / 256)
  match order with
  | .littleEndian => [low, high]
  | .bigEndian => [high, low]

/-- The units of one character. -/
def unitsOf (c : Char) : List Nat :=
  let n := c.toNat
  if n < 0x10000 then [n]
  else [0xD800 + (n - 0x10000) / 1024, 0xDC00 + (n - 0x10000) % 1024]

def encode (order : Order) (s : String) : List UInt8 :=
  (s.toList.flatMap unitsOf).flatMap order.bytes

/-- The units of a byte string, unless its length is odd. -/
def units? (order : Order) : List UInt8 → Option (List Nat)
  | [] => some []
  | [_] => none
  | a :: b :: rest => (units? order rest).map (order.unit a b :: ·)

def isHighSurrogate (unit : Nat) : Bool := 0xD800 ≤ unit && unit < 0xDC00

def isLowSurrogate (unit : Nat) : Bool := 0xDC00 ≤ unit && unit < 0xE000

/-- The characters that a list of units encodes. -/
def chars? : List Nat → Option (List Char)
  | [] => some []
  | u :: rest =>
    if isHighSurrogate u then
      match rest with
      | [] => none
      | v :: rest =>
        if isLowSurrogate v then
          (chars? rest).map
            (Char.ofNat (0x10000 + (u - 0xD800) * 1024 + (v - 0xDC00)) :: ·)
        else none
    else if isLowSurrogate u then none
    else (chars? rest).map (Char.ofNat u :: ·)

def decode? (order : Order) (bytes : List UInt8) : Option String :=
  ((units? order bytes).bind chars?).map String.ofList

end ScopedXml.Text.Utf16
