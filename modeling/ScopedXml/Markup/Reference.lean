import ScopedXml.Text.Quoted

/-!
# References

`expand` puts characters in place of the five named references and of `&#…;` and `&#x…;`. Offsets in
its faults count bytes of the text.
-/

namespace ScopedXml.Markup

inductive ReferenceFault
  | zero (start stop : Nat)
  | unknown (start stop : Nat) (name : String)
  | unclosed (start stop : Nat)
  | longHexadecimal
  | badHexadecimal (digit : Char)
  | longDecimal
  | badDecimal (digit : Char)
  | noCharacter (code : Nat)
deriving DecidableEq

namespace ReferenceFault

/-- A fault tied to a range of the text. -/
def ranged (start stop : Nat) (what : String) : String :=
  s!"Error while escaping character at range {start}..{stop}: " ++ what

def message : ReferenceFault → String
  | zero a b => ranged a b "Null character entity not allowed"
  | unknown a b name => ranged a b ("Unrecognized escape symbol: " ++ Text.quoted name)
  | unclosed a b => ranged a b "Cannot find ';' after '&'"
  | longHexadecimal => "Cannot convert hexadecimal to utf8"
  | badHexadecimal c => "'" ++ c.toString ++ "' is not a valid hexadecimal character"
  | longDecimal => "Cannot convert decimal to utf8"
  | badDecimal c => "'" ++ c.toString ++ "' is not a valid decimal character"
  | noCharacter n => "'" ++ toString n ++ "' is not a valid codepoint"

end ReferenceFault

/-- How many bytes the characters take in UTF-8. -/
def byteLength (cs : List Char) : Nat := cs.foldl (fun n c => n + c.utf8Size) 0

/-- The first byte of a character in UTF-8, read as Latin-1. -/
def firstByte (c : Char) : Char :=
  match (String.utf8EncodeChar c) with
  | [] => c
  | b :: _ => Char.ofNat b.toNat

/-- The value of an ASCII digit in a base up to 16. -/
def digit? (base : Nat) (c : Char) : Option Nat :=
  let n := c.toNat
  let v : Option Nat :=
    if 48 ≤ n && n ≤ 57 then some (n - 48)
    else if 97 ≤ n && n ≤ 102 then some (n - 87)
    else if 65 ≤ n && n ≤ 70 then some (n - 55)
    else none
  v.filter (· < base)

/-- The number that the digits write, or the first character that is no digit. -/
def number (base : Nat) (code : Nat) : List Char → Except Char Nat
  | [] => .ok code
  | c :: rest =>
    match digit? base c with
    | some d => number base (code * base + d) rest
    | none => .error (firstByte c)

/-- The code of a character reference, written without `#`. -/
def referenceCode : List Char → Except ReferenceFault Nat
  | 'x' :: digits =>
    if 6 < byteLength digits then .error .longHexadecimal
    else (number 16 0 digits).mapError .badHexadecimal
  | digits =>
    if 7 < byteLength digits then .error .longDecimal
    else (number 10 0 digits).mapError .badDecimal

/-- The five references with names. -/
def named? (name : List Char) : Option Char :=
  match String.ofList name with
  | "lt" => some '<'
  | "gt" => some '>'
  | "amp" => some '&'
  | "apos" => some '\''
  | "quot" => some '"'
  | _ => none

/-- The character that a reference stands for. `start` is the offset of its `&`. -/
def referenced (start : Nat) (name : List Char) : Except ReferenceFault Char :=
  let stop := start + 1 + byteLength name
  match name with
  | '#' :: digits => do
    let code ← referenceCode digits
    if code = 0 then .error (.zero start stop)
    else if code.isValidChar then .ok (Char.ofNat code)
    else .error (.noCharacter code)
  | _ =>
    match named? name with
    | some c => .ok c
    | none => .error (.unknown (start + 1) stop (String.ofList name))

/-- Expand the references of a text of `total` bytes, from `offset` on. -/
def expandFrom (total offset : Nat) (cs : List Char) : Except ReferenceFault (List Char) :=
  match cs with
  | [] => .ok []
  | c :: rest =>
    if c = '&' then
      let name := rest.takeWhile fun d => d != '&' && d != ';'
      match _hrest : rest.dropWhile fun d => d != '&' && d != ';' with
      | ';' :: more => do
        let d ← referenced offset name
        let ds ← expandFrom total (offset + byteLength name + 2) more
        .ok (d :: ds)
      | _ => .error (.unclosed offset total)
    else do
      let ds ← expandFrom total (offset + c.utf8Size) rest
      .ok (c :: ds)
termination_by cs.length
decreasing_by
  · have := (List.dropWhile_sublist (l := rest) fun d => d != '&' && d != ';').length_le
    rw [_hrest] at this
    simp only [List.length_cons] at this ⊢
    omega
  · simp

/-- The text with its references expanded. -/
def expand (s : String) : Except ReferenceFault String :=
  (expandFrom s.utf8ByteSize 0 s.toList).map String.ofList

end ScopedXml.Markup
