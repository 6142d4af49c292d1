import ScopedXml.Text.Charset
import ScopedXml.Markup.AttributeList
import ScopedXml.Markup.Reference

/-!
# Tokens

What the lexer makes of a byte stream: pieces of markup (`Piece`), each with the place behind it
and the encoding in force (`Lexeme`), and the way the stream ended (`Lexing`). Names, text and
attribute values are still bytes.
-/

namespace ScopedXml.Markup

/-- One piece of markup. The content of a tag includes its name. -/
inductive Piece
  | startTag (content : List UInt8) (nameLength : Nat)
  | endTag (name : List UInt8)
  | text (content : List UInt8)
  | cdata (content : List UInt8)
  | declaration (content : List UInt8)
  | instruction
  | comment
  | doctype
deriving DecidableEq

/-- A piece of markup with the offset behind it, the last byte taken from the stream, and the
encoding in which it is to be read. -/
structure Lexeme where
  piece : Piece
  position : Nat
  last : Option UInt8
  charset : Text.Charset
deriving DecidableEq

/-- Why a byte stream cannot be split further. -/
inductive LexFault
  | unreadable (message : String)
  | unexpectedEnd (construct : String)
  | unknownBang (byte : UInt8)
  | emptyDoctype
  /-- An end tag that does not name the innermost open element, or that stands where none is open.
  The names are in bytes of this encoding. -/
  | endMismatch (charset : Text.Charset) (expected : Option (List UInt8)) (found : List UInt8)
deriving DecidableEq

/-- The pieces of a byte stream, and where and why it ended. -/
structure Lexing where
  lexemes : List Lexeme
  position : Nat
  fault : Option LexFault

end ScopedXml.Markup
