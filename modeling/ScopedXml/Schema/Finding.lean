import ScopedXml.Diagnostic
import ScopedXml.Content.Progress
import ScopedXml.Schema.Model

/-!
# What a validator finds

Each violation of a schema is a `Finding`. All of them are errors, except that a type nobody defines
is only a warning.
-/

namespace ScopedXml.Schema

inductive Finding
  /-- No top-level declaration has this name. -/
  | undefinedElement (name : String)
  /-- The parent can never hold this child. -/
  | foreignElement (name parent : String)
  /-- The parent can hold this child, but not here. -/
  | misplacedElement (name parent : String) (expected : List String)
  | undefinedType (type element : String)
  | undeclaredAttribute (name element : String)
  | missingAttribute (name element : String)
  | badAttribute (element name type value : String)
  | strayText (element : String)
  | incomplete (shortage : Content.Shortage)
  | badText (element type text : String)
deriving DecidableEq

namespace Finding

def severity : Finding → Severity
  | undefinedType _ _ => .warning
  | _ => .error

def message : Finding → String
  | undefinedElement n => "Unknown element '" ++ n ++ "' not defined in schema"
  | foreignElement n p => "Unknown element '" ++ n ++ "' not allowed in '" ++ p ++ "'"
  | misplacedElement n p expected =>
    "Element '" ++ n ++ "' is not expected in '" ++ p ++ "'; " ++
      if expected.isEmpty then "no more elements are allowed"
      else "expected " ++ Content.quotedList expected
  | undefinedType t n =>
    "Type '" ++ t ++ "' of element '" ++ n ++ "' is not defined in schema; content not checked"
  | undeclaredAttribute a n =>
    "Attribute '" ++ a ++ "' is not declared for element '" ++ n ++ "'"
  | missingAttribute a n => "Required attribute '" ++ a ++ "' missing from element '" ++ n ++ "'"
  | badAttribute n a t v =>
    "Attribute validation failed for '" ++ n ++ "." ++ a ++ "': expected type " ++ t
      ++ ", found '" ++ v ++ "'"
  | strayText n => "Text content not allowed in element-only content of '" ++ n ++ "'"
  | incomplete s => s.message
  | badText n t v =>
    "Type validation failed for '" ++ n ++ "': expected " ++ t ++ ", found '" ++ v ++ "'"

end Finding

end ScopedXml.Schema
