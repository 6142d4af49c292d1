/-!
# White space

Two sets are in use. `isBlank` is the Unicode property White_Space, by which values and text are
trimmed and split; `isMarkupBlank` holds the four bytes that separate the parts of a tag.
-/

namespace ScopedXml.Text

/-- The Unicode property White_Space. -/
def isBlank (c : Char) : Bool :=
  let n := c.toNat
  (9 ≤ n && n ≤ 13) || n == 0x20 || n == 0x85 || n == 0xA0 || n == 0x1680
    || (0x2000 ≤ n && n ≤ 0x200A) || n == 0x2028 || n == 0x2029 || n == 0x202F || n == 0x205F
    || n == 0x3000

/-- Space, tab, carriage return and line feed. -/
def isMarkupBlank (b : UInt8) : Bool := b == 32 || b == 9 || b == 13 || b == 10

/-- Leave out the blanks at both ends. -/
def trimChars (cs : List Char) : List Char :=
  ((cs.dropWhile isBlank).reverse.dropWhile isBlank).reverse

def trim (s : String) : String := String.ofList (trimChars s.toList)

/-- Whether a text holds nothing but blanks. -/
def allBlank (s : String) : Bool := s.toList.all isBlank

/-- The maximal runs of characters that are not blank; `run` is the one being read. -/
def wordsFrom (run : List Char) : List Char → List (List Char)
  | [] => if run.isEmpty then [] else [run]
  | c :: cs =>
    if isBlank c then
      if run.isEmpty then wordsFrom [] cs else run :: wordsFrom [] cs
    else wordsFrom (run ++ [c]) cs

/-- The parts of a text between its blanks. -/
def words (cs : List Char) : List (List Char) := wordsFrom [] cs

/-- The parts before and after the first `sep`, if there is one. -/
def splitAtFirst? (sep : Char) (cs : List Char) : Option (List Char × List Char) :=
  match cs.dropWhile (· != sep) with
  | [] => none
  | _ :: rest => some (cs.takeWhile (· != sep), rest)

end ScopedXml.Text
