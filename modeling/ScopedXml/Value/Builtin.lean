import ScopedXml.Value.Names
import ScopedXml.Value.Calendar

/-!
# The built-in simple types

`Builtin.ofName?` finds a type by its name in the schema namespace. Its form (`Form`) decides which
values it accepts; blanks around a value never count.
-/

namespace ScopedXml.Value

open Text

/-- What the values of a built-in type look like. -/
inductive Form
  | text
  | language
  | name
  | ncName
  | ncNames
  | nameToken
  | nameTokens
  | qualifiedName
  | boolean
  | decimal
  | integer (bounds : Bounds)
  | float
  | duration
  | dateTime
  | date
  | time
  | year
  | yearMonth
  | month
  | day
  | monthDay
  | hexBinary
  | base64Binary
  | uri
deriving DecidableEq

def isHexDigit (c : Char) : Bool :=
  isDigit c || ('a' ≤ c && c ≤ 'f') || ('A' ≤ c && c ≤ 'F')

/-- Pairs of hexadecimal digits. -/
def isHexBinary (cs : List Char) : Bool := cs.length % 2 == 0 && cs.all isHexDigit

/-- Groups of four characters, of which the last may be padded; blanks within do not count. -/
def isBase64Binary (cs : List Char) : Bool :=
  let letter (c : Char) : Bool := c.isAlphanum || c == '+' || c == '/'
  let compact := cs.filter (!isBlank ·)
  let padding := compact.dropWhile letter
  compact.length % 4 == 0 && padding.length ≤ 2 && padding.all (· == '=')

/-- Whether a value, without the blanks around it, has the form. -/
def Form.fits : Form → List Char → Bool
  | text, _ => true
  | language, cs => isLanguage cs
  | name, cs => isName cs
  | ncName, cs => isNcName cs
  | ncNames, cs => isListOf isNcName cs
  | nameToken, cs => isNameToken cs
  | nameTokens, cs => isListOf isNameToken cs
  | qualifiedName, cs => isQualifiedName cs
  | boolean, cs => ["true", "false", "1", "0"].any (cs == ·.toList)
  | decimal, cs => isDecimal cs
  | integer bounds, cs => isIntegerWithin bounds cs
  | float, cs => isFloat cs
  | duration, cs => isDuration cs
  | dateTime, cs => isDateTime cs
  | date, cs => isDate cs
  | time, cs => isTime cs
  | year, cs => isYear cs
  | yearMonth, cs => isYearMonth cs
  | month, cs => isMonthAlone cs
  | day, cs => isDayAlone cs
  | monthDay, cs => isMonthDay cs
  | hexBinary, cs => isHexBinary cs
  | base64Binary, cs => isBase64Binary cs
  | uri, cs => !cs.any isBlank

/-- A built-in type under its name in the schema namespace. -/
structure Builtin where
  name : String
  form : Form
deriving DecidableEq

/-- An integer type with both bounds. -/
def between (least greatest : Int) : Form := .integer ⟨some least, some greatest⟩

def builtins : List Builtin :=
  [⟨"string", .text⟩, ⟨"normalizedString", .text⟩, ⟨"token", .text⟩, ⟨"anySimpleType", .text⟩,
   ⟨"language", .language⟩, ⟨"Name", .name⟩, ⟨"NCName", .ncName⟩, ⟨"ID", .ncName⟩,
   ⟨"IDREF", .ncName⟩, ⟨"ENTITY", .ncName⟩, ⟨"IDREFS", .ncNames⟩, ⟨"ENTITIES", .ncNames⟩,
   ⟨"NMTOKEN", .nameToken⟩, ⟨"NMTOKENS", .nameTokens⟩, ⟨"QName", .qualifiedName⟩,
   ⟨"NOTATION", .qualifiedName⟩, ⟨"boolean", .boolean⟩, ⟨"decimal", .decimal⟩,
   ⟨"integer", .integer ⟨none, none⟩⟩, ⟨"nonPositiveInteger", .integer ⟨none, some 0⟩⟩,
   ⟨"negativeInteger", .integer ⟨none, some (-1)⟩⟩,
   ⟨"nonNegativeInteger", .integer ⟨some 0, none⟩⟩,
   ⟨"positiveInteger", .integer ⟨some 1, none⟩⟩,
   ⟨"long", between (-Int.pow 2 63) (Int.pow 2 63 - 1)⟩,
   ⟨"int", between (-Int.pow 2 31) (Int.pow 2 31 - 1)⟩,
   ⟨"short", between (-Int.pow 2 15) (Int.pow 2 15 - 1)⟩,
   ⟨"byte", between (-Int.pow 2 7) (Int.pow 2 7 - 1)⟩,
   ⟨"unsignedLong", between 0 (Int.pow 2 64 - 1)⟩, ⟨"unsignedInt", between 0 (Int.pow 2 32 - 1)⟩,
   ⟨"unsignedShort", between 0 (Int.pow 2 16 - 1)⟩, ⟨"unsignedByte", between 0 (Int.pow 2 8 - 1)⟩,
   ⟨"float", .float⟩, ⟨"double", .float⟩, ⟨"duration", .duration⟩, ⟨"dateTime", .dateTime⟩,
   ⟨"date", .date⟩, ⟨"time", .time⟩, ⟨"gYear", .year⟩, ⟨"gYearMonth", .yearMonth⟩,
   ⟨"gMonth", .month⟩, ⟨"gDay", .day⟩, ⟨"gMonthDay", .monthDay⟩, ⟨"hexBinary", .hexBinary⟩,
   ⟨"base64Binary", .base64Binary⟩, ⟨"anyURI", .uri⟩]

namespace Builtin

/-- The type with a name. -/
def ofName? (name : String) : Option Builtin := builtins.find? (·.name == name)

/-- The type of text without any rule. -/
def string : Builtin := ⟨"string", .text⟩

def accepts (b : Builtin) (value : String) : Bool := b.form.fits (trimChars value.toList)

end Builtin

end ScopedXml.Value
