import ScopedXml.Text.Jis0208

/-!
# ISO-2022-JP

An encoding in bytes below 128. An escape sequence says which set of characters the bytes behind it
belong to; at the beginning this is ASCII. `decode?` refuses bytes that the set in force does not
hold, escape sequences of any other form, and an escape sequence that follows another one at once.
-/

namespace ScopedXml.Text.Iso2022Jp

/-- The sets of characters between which a text is switched. -/
inductive CharacterSet
  | ascii
  /-- ASCII with a yen sign and an overline. -/
  | roman
  /-- The halfwidth katakana. -/
  | katakana
  /-- The characters of two bytes. -/
  | doubleByte
deriving DecidableEq

/-- The byte that begins an escape sequence. -/
def escape : UInt8 := 0x1B

/-- The set that the two bytes behind an escape byte announce. -/
def announced? (a b : UInt8) : Option CharacterSet :=
  if a = 0x28 then
    if b = 0x42 then some .ascii
    else if b = 0x4A then some .roman
    else if b = 0x49 then some .katakana
    else none
  else if a = 0x24 ∧ (b = 0x40 ∨ b = 0x42) then some .doubleByte
  else none

/-- The ASCII character of a byte. The two shift bytes stand for none. -/
def ascii? (b : UInt8) : Option Char :=
  if b < 128 ∧ b ≠ 0x0E ∧ b ≠ 0x0F then some (Char.ofNat b.toNat) else none

/-- The character of one byte, in the sets that take one byte for each. -/
def CharacterSet.character? (set : CharacterSet) (b : UInt8) : Option Char :=
  match set with
  | ascii => ascii? b
  | roman => if b = 0x5C then some '\u00A5' else if b = 0x7E then some '\u203E' else ascii? b
  | katakana =>
    if 0x21 ≤ b ∧ b ≤ 0x5F then some (Char.ofNat (0xFF61 + (b.toNat - 0x21))) else none
  | doubleByte => none

/-- The characters of the bytes behind a point where `set` is in force; `announced` when an escape
sequence ends right there. -/
def chars? (set : CharacterSet) (announced : Bool) : List UInt8 → Option (List Char)
  | [] => some []
  | b :: rest =>
    if b = escape then
      match rest with
      | x :: y :: rest =>
        match announced? x y with
        | some next => if announced then none else chars? next true rest
        | none => none
      | _ => none
    else if set = .doubleByte then
      match rest with
      | [] => none
      | t :: rest => do
        let c ← Jis0208.character? b t
        return c :: (← chars? set false rest)
    else do
      let c ← set.character? b
      return c :: (← chars? set false rest)

def decode? (bytes : List UInt8) : Option String :=
  (chars? .ascii false bytes).map String.ofList

end ScopedXml.Text.Iso2022Jp
