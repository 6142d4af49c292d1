/-!
# Windows-1252

Every byte is one character: ASCII below 128, Latin-1 from 160 on, and a table between. The five
bytes that the table leaves open stand for the control characters of their number.
-/

namespace ScopedXml.Text.Windows1252

/-- The characters of the bytes 128 to 159. -/
def upperHalf : List Nat :=
  [0x20AC, 0x0081, 0x201A, 0x0192, 0x201E, 0x2026, 0x2020, 0x2021,
   0x02C6, 0x2030, 0x0160, 0x2039, 0x0152, 0x008D, 0x017D, 0x008F,
   0x0090, 0x2018, 0x2019, 0x201C, 0x201D, 0x2022, 0x2013, 0x2014,
   0x02DC, 0x2122, 0x0161, 0x203A, 0x0153, 0x009D, 0x017E, 0x0178]

def character (b : UInt8) : Char :=
  let n := b.toNat
  if n < 128 || 160 ≤ n then Char.ofNat n else Char.ofNat (upperHalf.getD (n - 128) n)

def decode (bytes : List UInt8) : String := String.ofList (bytes.map character)

end ScopedXml.Text.Windows1252
