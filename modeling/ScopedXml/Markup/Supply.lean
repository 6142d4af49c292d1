/-!
# Bytes in buffer fills

The lexer takes its bytes from a buffer that is refilled whenever it runs empty. Two rules of the
lexer look at one fill at a time, so a `Supply` marks the first byte of each fill.
-/

namespace ScopedXml.Markup

/-- One byte of the input; `fresh` when it is the first of a buffer fill. -/
structure Octet where
  byte : UInt8
  fresh : Bool
deriving DecidableEq

/-- The bytes still to be read, and how the source ends: cleanly, or with a failure. -/
structure Supply where
  octets : List Octet
  failure : Option String
deriving DecidableEq

/-- The bytes of one fill. -/
def Octet.fill : List UInt8 → List Octet
  | [] => []
  | b :: rest => ⟨b, true⟩ :: rest.map (⟨·, false⟩)

/-- Split bytes into fills. The `n`-th fill holds at most `limit n` bytes; an empty one ends the
input. -/
def Octet.fills (limit : Nat → Nat) (n : Nat) (bytes : List UInt8) : List Octet :=
  if 0 < limit n ∧ bytes ≠ [] then
    Octet.fill (bytes.take (limit n)) ++ Octet.fills limit (n + 1) (bytes.drop (limit n))
  else []
termination_by bytes.length
decreasing_by
  rename_i h
  have := List.length_pos_iff.2 h.2
  simp only [List.length_drop]
  omega

namespace Supply

/-- All bytes in one fill. -/
def whole (bytes : List UInt8) : Supply := ⟨Octet.fill bytes, none⟩

/-- The bytes of the first fill. -/
def firstFill (s : Supply) : List UInt8 :=
  match s.octets with
  | [] => []
  | o :: rest => o.byte :: (rest.takeWhile (!·.fresh)).map (·.byte)

end Supply

end ScopedXml.Markup
