import ScopedXml.Text.WhiteSpace

/-!
# Names and tokens

The character classes of XML names and what is built from them: names with and without colons, name
tokens, qualified names, language tags, and lists of items between blanks.
-/

namespace ScopedXml.Value

open Text

/-- The characters that may begin a name, as ranges of code points. -/
def nameStartRanges : List (Nat × Nat) :=
  [(0x41, 0x5A), (0x61, 0x7A), (0x5F, 0x5F), (0x3A, 0x3A), (0xC0, 0xD6), (0xD8, 0xF6),
   (0xF8, 0x2FF), (0x370, 0x37D), (0x37F, 0x1FFF), (0x200C, 0x200D), (0x2070, 0x218F),
   (0x2C00, 0x2FEF), (0x3001, 0xD7FF), (0xF900, 0xFDCF), (0xFDF0, 0xFFFD), (0x10000, 0xEFFFF)]

/-- The characters that may stand in a name, but not begin it. -/
def nameTailRanges : List (Nat × Nat) :=
  [(0x2D, 0x2E), (0x30, 0x39), (0xB7, 0xB7), (0x300, 0x36F), (0x203F, 0x2040)]

/-- Whether a character lies in one of the ranges. -/
def within (ranges : List (Nat × Nat)) (c : Char) : Bool :=
  ranges.any fun r => r.1 ≤ c.toNat && c.toNat ≤ r.2

def isNameStart (c : Char) : Bool := within nameStartRanges c

def isNameChar (c : Char) : Bool := isNameStart c || within nameTailRanges c

/-- A name, in which colons count as letters. -/
def isName : List Char → Bool
  | [] => false
  | c :: cs => isNameStart c && cs.all isNameChar

/-- A name without colons. -/
def isNcName (cs : List Char) : Bool := isName cs && !cs.contains ':'

def isNameToken (cs : List Char) : Bool := !cs.isEmpty && cs.all isNameChar

/-- One colon at most, and a name without colons on each side of it. -/
def isQualifiedName (cs : List Char) : Bool :=
  match splitAtFirst? ':' cs with
  | some (p, l) => isNcName p && isNcName l
  | none => isNcName cs

/-- At least one item between blanks, and every item as `item` demands. -/
def isListOf (item : List Char → Bool) (cs : List Char) : Bool :=
  !(words cs).isEmpty && (words cs).all item

/-- One to eight characters of a class. -/
def isSubtag (letter : Char → Bool) (cs : List Char) : Bool :=
  1 ≤ cs.length && cs.length ≤ 8 && cs.all letter

/-- The parts of a text between its occurrences of `sep`; there is always one. -/
def partsBetween (sep : Char) : List Char → List (List Char)
  | [] => [[]]
  | c :: cs =>
    if c = sep then [] :: partsBetween sep cs
    else
      match partsBetween sep cs with
      | [] => [[c]]
      | p :: ps => (c :: p) :: ps

/-- A language tag: subtags between hyphens, the first one of letters only. -/
def isLanguage (cs : List Char) : Bool :=
  match partsBetween '-' cs with
  | [] => false
  | first :: others => isSubtag Char.isAlpha first && others.all (isSubtag Char.isAlphanum)

end ScopedXml.Value
