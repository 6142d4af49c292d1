import ScopedXml.Namespace
import ScopedXml.Input
import ScopedXml.Markup.Lexer
import ScopedXml.Reader.Transcript
import ScopedXml.Schema.Validator

/-!
# From markup to events

A reading takes the pieces of markup one after the other. It decodes them, resolves names, checks
what the lexer leaves out (one root element, no text beside it, every element closed), and consults
the validator. Its state (`Reading`) holds the namespace scopes, the open elements and the frames of
the validator.

* `Reading.step`: the items that one piece of markup gives rise to, and how reading goes on.
* `transcript`: all items of a document.
-/

namespace ScopedXml

open Markup

/-- A fault of the document as a whole; it is always fatal. -/
inductive DocumentFault
  | secondRoot (name : String)
  | strayText
  | unclosed (name : String)
  | noRoot
  | unexpectedEnd (name : String)
  | wrongEnd (found expected : String)
  | badNamespace (fault : Namespace.Fault)
deriving DecidableEq

def DocumentFault.message : DocumentFault → String
  | secondRoot n =>
    "Element '" ++ n ++ "' follows the document element; only one root element is allowed"
  | strayText => "Text content is not allowed outside the root element"
  | unclosed n => "Unexpected end of input: element '" ++ n ++ "' is not closed"
  | noRoot => "No root element found"
  | unexpectedEnd n => "Unexpected closing tag '" ++ n ++ "'"
  | wrongEnd found expected =>
    "Closing tag '" ++ found ++ "' does not match open element '" ++ expected ++ "'"
  | badNamespace fault => fault.message

/-- Where the lexer takes its bytes from. -/
inductive Origin
  /-- The bytes of a text that was decoded beforehand. -/
  | text (body : ByteArray)
  | stream

/-- Whether a tag ends in `>`. In a text the byte before the reported offset is looked at, in a
stream the last byte that was taken. -/
def Origin.sees (origin : Origin) (lexeme : Lexeme) : Bool :=
  match origin with
  | text body => lexeme.position ≠ 0 && body[lexeme.position - 1]? == some 62
  | stream => lexeme.last == some 62

/-- The state of a reading between two pieces of markup. -/
structure Reading where
  scopes : Namespace.Scopes
  /-- The names of the open elements, the innermost first. -/
  openElements : List QualifiedName
  seenRoot : Bool
  validator : Option Schema.Validator

/-- How a reading goes on. -/
inductive Onward
  | continue (state : Reading)
  /-- Reading ends here, in this failure unless a fatal diagnostic ended it. -/
  | stop (failure : Option ReadFailure)

/-- What a piece of markup gives rise to. -/
structure Outcome where
  items : List Item
  onward : Onward

namespace Outcome

def fail (e : ReadFailure) : Outcome := ⟨[], .stop (some e)⟩

end Outcome

namespace Reading

def start (validating : Bool) : Reading :=
  ⟨.empty, [], false, if validating then some .start else none⟩

/-- The local names of the open elements, from the root on, each behind a slash. -/
def path (r : Reading) : String :=
  String.join (r.openElements.reverse.map fun n => "/" ++ n.localName)

/-- The diagnostic for a finding of the validator. -/
def diagnostic (r : Reading) (position : Nat) (f : Schema.Finding) : Diagnostic :=
  ⟨f.severity, position, r.path, f.message⟩

/-- Diagnostics for the findings of the validator. -/
def reports (r : Reading) (position : Nat) (findings : List Schema.Finding) : List Item :=
  findings.map fun f => .report (r.diagnostic position f)

/-- A fatal diagnostic, which ends the reading. -/
def fatal (r : Reading) (position : Nat) (fault : DocumentFault) : Outcome :=
  ⟨[.report ⟨.fatal, position, r.path, fault.message⟩], .stop none⟩

/-- Go on as the second part says, unless the first one failed. -/
def orFail {α : Type} (x : Except ReadFailure α) (f : α → Outcome) : Outcome :=
  match x with
  | .ok a => f a
  | .error e => .fail e

/-- The fault of the document that a lexer has ended in. All faults but one are failures of their
own. A name that cannot be decoded is left out. -/
def documentFault [Text.Decoders] (position : Nat) : LexFault → Except ReadFailure DocumentFault
  | .unreadable m => .error (.unreadable m)
  | .unexpectedEnd what =>
    .error (.malformed position ("Unexpected EOF during reading " ++ what))
  | .unknownBang b =>
    .error (.malformed position ("Only Comment (`--`), CDATA (`[CDATA[`) and DOCTYPE (`DOCTYPE`) "
      ++ "nodes can start with a '!', but symbol `" ++ (Char.ofNat b.toNat).toString
      ++ "` found"))
  | .emptyDoctype => .error (.malformed position "DOCTYPE declaration must not be empty")
  | .endMismatch charset expected found =>
    let expected := (expected.bind charset.decode?).getD ""
    let found := (charset.decode? found).getD ""
    .ok (if expected.isEmpty then .unexpectedEnd found else .wrongEnd found expected)

/-- How a fault of the lexer ends the reading. -/
def lexFault [Text.Decoders] (r : Reading) (position : Nat) (fault : LexFault) : Outcome :=
  orFail (documentFault position fault) (r.fatal position)

/-! ## Decoding -/

/-- Names and CDATA sections as text. -/
def decodeName [Text.Decoders] (lexeme : Lexeme) (bytes : List UInt8) :
    Except ReadFailure String :=
  match lexeme.charset.decode? bytes with
  | some s => .ok s
  | none => .error (.undecodable lexeme.position "Malformed input, decoding impossible")

/-- Text and attribute values, with their references expanded. -/
def decodeText [Text.Decoders] (lexeme : Lexeme) (bytes : List UInt8) :
    Except ReadFailure String :=
  match lexeme.charset.decode? bytes with
  | none => .error (.undecodable lexeme.position "invalid byte sequence")
  | some s =>
    match expand s with
    | .ok s => .ok s
    | .error fault => .error (.malformed lexeme.position fault.message)

/-- An attribute as text: a namespace declaration, or a written name and its value. -/
inductive WrittenAttribute
  | declaration (d : Namespace.Declaration)
  | plain (name value : String)
deriving DecidableEq

/-- The prefix that a key declares, if it declares one. -/
def declaredPrefix? (key : String) : Option String :=
  let start := "xmlns:".toList
  if start.isPrefixOf key.toList then some (String.ofList (key.toList.drop start.length)) else none

def writtenAttribute [Text.Decoders] (lexeme : Lexeme) (raw : RawAttribute) :
    Except ReadFailure WrittenAttribute := do
  let key ← decodeName lexeme raw.key
  let value ← decodeText lexeme raw.value
  if key = "xmlns" then return .declaration ⟨none, value⟩
  else
    match declaredPrefix? key with
    | some p => return .declaration ⟨some p, value⟩
    | none => return .plain key value

/-- The attributes of a tag as text. The first mistake counts, whether in decoding or in the list
itself. -/
def writtenAttributes [Text.Decoders] (lexeme : Lexeme) (content : List UInt8)
    (nameLength : Nat) : Except ReadFailure (List WrittenAttribute) := do
  let (raws, fault) := readAttributes content nameLength
  let attributes ← raws.mapM (writtenAttribute lexeme)
  match fault with
  | some fault => .error (.malformed lexeme.position fault.message)
  | none => return attributes

def declarationsOf (attributes : List WrittenAttribute) : List Namespace.Declaration :=
  attributes.filterMap fun
    | .declaration d => some d
    | .plain _ _ => none

def plainOf (attributes : List WrittenAttribute) : List (String × String) :=
  attributes.filterMap fun
    | .declaration _ => none
    | .plain n v => some (n, v)

/-! ## Elements and text -/

/-- The name and the attributes of an element within the scopes that it enters. -/
def resolve (scopes : Namespace.Scopes) (name : String) (attributes : List (String × String)) :
    Except Namespace.Fault (QualifiedName × Attributes) := do
  let name ← scopes.element name
  let attributes ← attributes.mapM fun (n, v) => do return Attribute.mk (← scopes.attr n) v
  return (name, ⟨attributes⟩)

/-- An element opens, with its name and attributes as written. -/
def openElement (schema : Schema) (r : Reading) (position : Nat) (name : String)
    (attributes : List WrittenAttribute) : Outcome :=
  if r.openElements.isEmpty && r.seenRoot then r.fatal position (.secondRoot name)
  else
    match r.scopes.enter (declarationsOf attributes) with
    | .error fault => r.fatal position (.badNamespace fault)
    | .ok scopes =>
      match resolve scopes name (plainOf attributes) with
      | .error fault => r.fatal position (.badNamespace fault)
      | .ok (name, attributes) =>
        let r : Reading :=
          { r with scopes := scopes, openElements := name :: r.openElements, seenRoot := true }
        match r.validator with
        | none => ⟨[.event (.startElement name attributes)], .continue r⟩
        | some v =>
          let (findings, v) := v.startElement schema name attributes
          ⟨r.reports position findings ++ [.event (.startElement name attributes)],
            .continue { r with validator := some v }⟩

/-- The innermost element closes. -/
def closeElement (schema : Schema) (r : Reading) (position : Nat) (written : String) : Outcome :=
  match r.openElements with
  | [] => r.fatal position (.unexpectedEnd written)
  | name :: outer =>
    let closed (v : Option Schema.Validator) : Reading :=
      { r with scopes := r.scopes.leave, openElements := outer, validator := v }
    match r.validator with
    | none => ⟨[.event (.endElement name)], .continue (closed none)⟩
    | some v =>
      let (findings, v) := v.endElement schema
      ⟨r.reports position findings ++ [.event (.endElement name)], .continue (closed (some v))⟩

/-- Text arrives. Outside the root element only blanks may stand, and they count for nothing. -/
def characters (r : Reading) (position : Nat) (s : String) : Outcome :=
  if s.isEmpty then ⟨[], .continue r⟩
  else if r.openElements.isEmpty then
    if Text.allBlank s then ⟨[], .continue r⟩ else r.fatal position .strayText
  else
    match r.validator with
    | none => ⟨[.event (.characters s)], .continue r⟩
    | some v =>
      let (findings, v) := v.characters s
      ⟨r.reports position findings ++ [.event (.characters s)],
        .continue { r with validator := some v }⟩

/-! ## Declarations -/

/-- Whether a document may declare an encoding in an XML declaration that was read byte by byte. -/
def checkEncoding (position : Nat) (label : List UInt8) : Except ReadFailure Unit := do
  let label := Text.Utf8.decodeLossy label
  let charset ← Input.charset label
  if charset.isAsciiCompatible then return ()
  else
    throw (.undecodable position
      ("document declares " ++ label ++ " but is not encoded in it"))

/-- The encoding in an XML declaration must be known and possible; in text it does not matter. -/
def checkDeclaration (origin : Origin) (position : Nat) (content : List UInt8) :
    Except ReadFailure Unit :=
  match Lexer.declared? "encoding" content, origin with
  | .error fault, _ =>
    .error (.malformed position ("error while parsing attribute: " ++ fault.message))
  | .ok (some label), .stream => checkEncoding position label
  | .ok _, _ => .ok ()

/-! ## Whole documents -/

/-- A tag must have been closed before it counts. -/
def checkClosed (origin : Origin) (lexeme : Lexeme) : Except ReadFailure Unit :=
  if origin.sees lexeme then .ok ()
  else .error (.malformed lexeme.position "Unexpected end of input inside a tag")

def step [Text.Decoders] (schema : Schema) (origin : Origin) (r : Reading) (lexeme : Lexeme) :
    Outcome :=
  match lexeme.piece with
  | .startTag content nameLength =>
    orFail (do
      checkClosed origin lexeme
      let name ← decodeName lexeme (content.take nameLength)
      return (name, ← writtenAttributes lexeme content nameLength))
      fun (name, attributes) => openElement schema r lexeme.position name attributes
  | .endTag name =>
    orFail (do
      checkClosed origin lexeme
      decodeName lexeme name)
      fun name => closeElement schema r lexeme.position name
  | .text content => orFail (decodeText lexeme content) (r.characters lexeme.position)
  | .cdata content => orFail (decodeName lexeme content) (r.characters lexeme.position)
  | .declaration content =>
    orFail (do
      checkClosed origin lexeme
      checkDeclaration origin lexeme.position content)
      fun () => ⟨[], .continue r⟩
  | .instruction => orFail (checkClosed origin lexeme) fun () => ⟨[], .continue r⟩
  | .comment => ⟨[], .continue r⟩
  | .doctype => ⟨[], .continue r⟩

/-- The end of the input, or the fault in which the lexer ended. -/
def finish [Text.Decoders] (r : Reading) (position : Nat) (fault : Option LexFault) : Outcome :=
  match fault with
  | some fault => r.lexFault position fault
  | none =>
    match r.openElements with
    | name :: _ => r.fatal position (.unclosed name.written)
    | [] =>
      if r.seenRoot then ⟨[.event .endDocument], .stop none⟩ else r.fatal position .noRoot

/-- The items of the remaining pieces of markup, and the failure at their end. -/
def run [Text.Decoders] (schema : Schema) (origin : Origin) (position : Nat)
    (fault : Option LexFault) (r : Reading) : List Lexeme → Transcript
  | [] =>
    let last := r.finish position fault
    match last.onward with
    | .stop failure => ⟨last.items, failure⟩
    | .continue _ => ⟨last.items, none⟩
  | lexeme :: lexemes =>
    let outcome := r.step schema origin lexeme
    match outcome.onward with
    | .stop failure => ⟨outcome.items, failure⟩
    | .continue r =>
      let later := run schema origin position fault r lexemes
      { later with items := outcome.items ++ later.items }

end Reading

/-- All that reading does with a document that was split into markup. Without a schema nothing is
validated. -/
def transcriptOf [Text.Decoders] (schema : Option Schema) (origin : Origin) (lexing : Lexing) :
    Transcript :=
  let t := (Reading.start schema.isSome).run (schema.getD .empty) origin lexing.position
    lexing.fault lexing.lexemes
  { t with items := .event .startDocument :: t.items }

end ScopedXml
