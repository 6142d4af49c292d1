import ScopedXml.Text.Printable

/-!
# Quoted text in messages

Text that is quoted in a message is escaped so that it can be read unambiguously: the quote and the
backslash, the usual control characters by letter, and everything that cannot be shown by itself by
code point.
-/

namespace ScopedXml.Text

/-- A code point in braces behind `\u`. -/
def codePointEscape (c : Char) : String :=
  "\\u\x7b" ++ String.ofList (Nat.toDigits 16 c.toNat) ++ "\x7d"

/-- A character within quotes of this kind. -/
def escapeIn (quote : Char) (c : Char) : String :=
  if c = '\x00' then "\\0"
  else if c = '\t' then "\\t"
  else if c = '\r' then "\\r"
  else if c = '\n' then "\\n"
  else if c = '\\' || c = quote then "\\" ++ c.toString
  else if isCombining c || isHidden c then codePointEscape c
  else c.toString

/-- A text in double quotes. -/
def quoted (s : String) : String :=
  "\"" ++ String.join (s.toList.map (escapeIn '"')) ++ "\""

/-- A character in single quotes. -/
def quotedChar (c : Char) : String := "'" ++ escapeIn '\'' c ++ "'"

/-! ## Values in messages -/

/-- A value that may be absent. -/
def shownOption (value : Option String) : String :=
  match value with
  | some v => "Some(" ++ v ++ ")"
  | none => "None"

/-- Values in brackets. -/
def shownList (values : List String) : String := "[" ++ ", ".intercalate values ++ "]"

/-- Named fields in braces. -/
def shownFields (title : String) (fields : List (String × String)) : String :=
  title ++ " \x7b " ++ ", ".intercalate (fields.map fun f => f.1 ++ ": " ++ f.2) ++ " \x7d"

/-- The same, with a sign that there are more fields. -/
def shownSomeFields (title : String) (fields : List (String × String)) : String :=
  title ++ " \x7b " ++ String.join (fields.map fun f => f.1 ++ ": " ++ f.2 ++ ", ") ++ ".. \x7d"

end ScopedXml.Text
