import ScopedXml.Markup.Reference
import ScopedXml.Text.Quoted
import ScopedXml.Value.Names

/-!
# Reading a text with its line and column

A `Cursor` is the rest of a text and the place where it begins. Readers move it forward and fail
with a `Fault`, whose place is given by line and column.
-/

namespace ScopedXml.Document

/-- A place in a text, counted in characters from 1. -/
structure Place where
  line : Nat
  column : Nat
deriving DecidableEq

def Place.text (p : Place) : String := toString p.line ++ ":" ++ toString p.column

/-- The place behind one more character. -/
def Place.next (p : Place) (c : Char) : Place :=
  if c = '\n' then ⟨p.line + 1, 1⟩ else ⟨p.line, p.column + 1⟩

/-- Why a text is no document. -/
inductive Fault
  | wrongXmlUri (place : Place)
  | strayXmlUri (place : Place)
  | declaredXmlns (place : Place)
  | xmlnsPrefix (place : Place)
  | repeatedNamespace (name : String) (place : Place)
  | unknownPrefix (name : String) (place : Place)
  | wrongEnd (expected found : String) (place : Place)
  | unknownEntity (name : String) (place : Place)
  | badReference (place : Place)
  | repeatedAttribute (name : String) (place : Place)
  | noRoot
  | unclosedRoot
  | doctype
  | badName (place : Place)
  | badChar (c : Char) (place : Place)
  | expectedChar (expected found : Char) (place : Place)
  | expectedClass (expected : String) (found : Char) (place : Place)
  | expectedText (expected : String) (place : Place)
  | badComment (place : Place)
  | sectionEnd (place : Place)
  | unknownToken (place : Place)
  | strayDeclaration (place : Place)
  | ended
deriving DecidableEq

def Fault.message : Fault → String
  | wrongXmlUri p => "'xml' namespace prefix mapped to wrong URI at " ++ p.text
  | strayXmlUri p => "the 'xml' namespace URI is used for not 'xml' prefix at " ++ p.text
  | declaredXmlns p => "the 'xmlns' URI is used at " ++ p.text ++ ", but it must not be declared"
  | xmlnsPrefix p => "the 'xmlns' prefix is used at " ++ p.text ++ ", but it must not be"
  | repeatedNamespace n p => "namespace '" ++ n ++ "' at " ++ p.text ++ " is already defined"
  | unknownPrefix n p => "an unknown namespace prefix '" ++ n ++ "' at " ++ p.text
  | wrongEnd e f p => "expected '" ++ e ++ "' tag, not '" ++ f ++ "' at " ++ p.text
  | unknownEntity n p => "unknown entity reference '" ++ n ++ "' at " ++ p.text
  | badReference p => "malformed entity reference at " ++ p.text
  | repeatedAttribute n p => "attribute '" ++ n ++ "' at " ++ p.text ++ " is already defined"
  | noRoot => "the document does not have a root node"
  | unclosedRoot => "the root node was opened but never closed"
  | doctype => "XML with DTD detected"
  | badName p => "invalid name token at " ++ p.text
  | badChar c p => "a non-XML character " ++ Text.quotedChar c ++ " found at " ++ p.text
  | expectedChar e f p =>
    "expected '" ++ e.toString ++ "' not '" ++ f.toString ++ "' at " ++ p.text
  | expectedClass e f p => "expected " ++ e ++ " not '" ++ f.toString ++ "' at " ++ p.text
  | expectedText e p => "expected '" ++ e ++ "' at " ++ p.text
  | badComment p => "comment at " ++ p.text ++ " contains '--'"
  | sectionEnd p => "']]>' at " ++ p.text ++ " is not allowed inside a character data"
  | unknownToken p => "unknown token at " ++ p.text
  | strayDeclaration p => "unexpected XML declaration at " ++ p.text
  | ended => "unexpected end of stream"

/-! ## Characters -/

def isSpace (c : Char) : Bool := c == ' ' || c == '\t' || c == '\n' || c == '\r'

/-- The characters that may stand in a document. -/
def isDocumentChar (c : Char) : Bool :=
  if c.toNat < 0x20 then isSpace c else c.toNat != 0xFFFE && c.toNat != 0xFFFF

/-! ## The cursor -/

/-- The rest of a text and where it begins. -/
structure Cursor where
  place : Place
  rest : List Char
deriving DecidableEq

namespace Cursor

def ofText (s : String) : Cursor := ⟨⟨1, 1⟩, s.toList⟩

def atEnd (c : Cursor) : Bool := c.rest.isEmpty

def startsWith (c : Cursor) (s : String) : Bool := s.toList.isPrefixOf c.rest

/-- The cursor behind `n` more characters. -/
def drop : Nat → Cursor → Cursor
  | 0, c => c
  | _ + 1, ⟨p, []⟩ => ⟨p, []⟩
  | n + 1, ⟨p, d :: ds⟩ => drop n ⟨p.next d, ds⟩

/-- The characters in front that belong to a class, and the cursor behind them. -/
def spanFrom (p : Char → Bool) (place : Place) : List Char → List Char × Cursor
  | [] => ([], ⟨place, []⟩)
  | d :: ds =>
    if p d then
      let (taken, c) := spanFrom p (place.next d) ds
      (d :: taken, c)
    else ([], ⟨place, d :: ds⟩)

def span (c : Cursor) (p : Char → Bool) : List Char × Cursor := spanFrom p c.place c.rest

def skipSpaces (c : Cursor) : Cursor := (c.span isSpace).2

/-- The characters up to where `stop` holds of the rest, all of which must be possible in a
document. -/
def takeFrom (stop : List Char → Bool) (place : Place) :
    List Char → Except Fault (List Char × Cursor)
  | [] => .ok ([], ⟨place, []⟩)
  | d :: ds =>
    if !isDocumentChar d then .error (.badChar d place)
    else if stop (d :: ds) then .ok ([], ⟨place, d :: ds⟩)
    else do
      let (taken, c) ← takeFrom stop (place.next d) ds
      return (d :: taken, c)

/-- The characters up to a given text or the end. -/
def takeTo (c : Cursor) (stop : String) : Except Fault (List Char × Cursor) :=
  takeFrom (stop.toList.isPrefixOf ·) c.place c.rest

/-- Pass over one given character. -/
def char (c : Cursor) (expected : Char) : Except Fault Cursor :=
  match c.rest with
  | [] => .error .ended
  | d :: _ =>
    if d = expected then .ok (c.drop 1)
    else .error (.expectedChar expected (Markup.firstByte d) c.place)

/-- Pass over a given text. -/
def text (c : Cursor) (expected : String) : Except Fault Cursor :=
  if c.startsWith expected then .ok (c.drop expected.length)
  else .error (.expectedText expected c.place)

/-- A name, in which colons count as letters. -/
def name (c : Cursor) : Except Fault (String × Cursor) :=
  match c.rest with
  | [] => .error (.badName c.place)
  | d :: _ =>
    if Value.isNameStart d then
      let (taken, c) := c.span Value.isNameChar
      .ok (String.ofList taken, c)
    else .error (.badName c.place)

/-- A name with at most one colon, split into prefix and local part. Both must begin as names do;
the prefix may be empty. -/
def qualifiedName (c : Cursor) : Except Fault (String × String × Cursor) :=
  let (taken, after) := c.span Value.isNameChar
  let begins (cs : List Char) : Bool := cs.head?.any Value.isNameStart
  match Text.splitAtFirst? ':' taken with
  | none =>
    if begins taken then .ok ("", String.ofList taken, after) else .error (.badName c.place)
  | some (p, l) =>
    if l.contains ':' || !begins l || !(p.isEmpty || begins p) then .error (.badName c.place)
    else .ok (String.ofList p, String.ofList l, after)

/-- The `=` between a key and its value. -/
def equals (c : Cursor) : Except Fault Cursor := do
  let c ← c.skipSpaces.char '='
  return c.skipSpaces

/-- The quote that begins a value. -/
def quote (c : Cursor) : Except Fault (Char × Cursor) :=
  match c.rest with
  | [] => .error .ended
  | d :: _ =>
    if d = '\'' || d = '"' then .ok (d, c.drop 1)
    else .error (.expectedClass "a quote" (Markup.firstByte d) c.place)

/-- A value in quotes: where it begins, and its characters. A `<` must not stand in it. -/
def quotedValue (c : Cursor) : Except Fault (Place × List Char × Cursor) := do
  let (q, start) ← c.quote
  let (taken, c) ← takeFrom (fun ds => ds.head?.any fun d => d == q || d == '<') start.place
    start.rest
  let c ← c.char q
  return (start.place, taken, c)

end Cursor

/-! ## References -/

/-- What a reference stands for. -/
inductive Reference
  | char (c : Char)
  | entity (name : String)

/-- The number that digits write in a base, when it fits into 32 bits. -/
def codeOf? (base : Nat) (digits : List Char) : Option Nat :=
  if digits.isEmpty then none
  else
    match Markup.number base 0 digits with
    | .ok n => if n < Nat.pow 2 32 then some n else none
    | .error _ => none

/-- The character with a code; a code without a character gives the replacement character. -/
def charOf? (code : Nat) : Option Char :=
  let c := if code.isValidChar then Char.ofNat code else '\uFFFD'
  if isDocumentChar c then some c else none

/-- The reference behind a `&`, up to and without its `;`. -/
def referenceBody? (c : Cursor) : Option (Reference × Cursor) :=
  match c.rest with
  | '#' :: 'x' :: _ =>
    let (digits, after) := (c.drop 2).span fun d => (Markup.digit? 16 d).isSome
    ((codeOf? 16 digits).bind charOf?).map fun d => (.char d, after)
  | '#' :: _ =>
    let (digits, after) := (c.drop 1).span fun d => (Markup.digit? 10 d).isSome
    ((codeOf? 10 digits).bind charOf?).map fun d => (.char d, after)
  | _ =>
    match c.name with
    | .error _ => none
    | .ok (name, after) =>
      match Markup.named? name.toList with
      | some d => some (.char d, after)
      | none => some (.entity name, after)

/-- The character that a reference stands for, from its `&` on, and the cursor behind it. No
entities are defined but the five with names. -/
def reference (c : Cursor) : Except Fault (Char × Cursor) :=
  match referenceBody? (c.drop 1) with
  | none => .error (.badReference c.place)
  | some (r, after) =>
    match after.char ';', r with
    | .error _, _ => .error (.badReference c.place)
    | .ok after, .char d => .ok (d, after)
    | .ok _, .entity name => .error (.unknownEntity name c.place)

/-- A value with its references expanded and its line ends and tabs turned into blanks. `fuel`
bounds the number of characters. -/
def normalizedFrom : Nat → Cursor → Except Fault (List Char)
  | 0, _ => .ok []
  | fuel + 1, c =>
    match c.rest with
    | [] => .ok []
    | '&' :: _ => do
      let (d, after) ← reference c
      return d :: (← normalizedFrom fuel after)
    | '\r' :: '\n' :: _ => normalizedFrom fuel (c.drop 1)
    | d :: _ => do
      let shown := if isSpace d then ' ' else d
      return shown :: (← normalizedFrom fuel (c.drop 1))

/-- The value of an attribute, written from `place` on. -/
def normalized (place : Place) (written : List Char) : Except Fault String :=
  (normalizedFrom written.length ⟨place, written⟩).map String.ofList

end ScopedXml.Document
