import ScopedXml.Reader.Reading

/-!
# Driving a reading

A document is read before those who listen: an error policy and a receiver of events, which may
share one state. What is found in a piece of markup is reported, and what happens in it is told, as
soon as it comes up, and the first failure that a listener answers with ends the parse. A fatal
diagnostic ends it whatever the policy answers.

* `Drive`: a part of a parse, over the state of the listeners.
* `Drive.openElement`, `Drive.closeElement`, `Drive.characters`: what a piece of markup comes to.
* `Drive.document`: a whole document.
-/

namespace ScopedXml

open Markup

/-- A part of a parse before listeners whose state is `S`. -/
abbrev Drive (S α : Type) := ExceptT ReadFailure (StateM S) α

namespace Drive

variable {S : Type} (policy : Policy S) (receiver : Receiver S)

/-! ## Listeners -/

def report (d : Diagnostic) : Drive S Unit := fun s => policy.report s d

def tell (e : Event) : Drive S Unit := fun s => receiver.receive s e

/-- Report a fatal diagnostic, for the failure in which the parse then ends. -/
def escalate (d : Diagnostic) : Drive S ReadFailure := fun s =>
  let (e, s) := policy.escalate s d
  (.ok e, s)

/-- Report what the validator has found, one finding after the other. -/
def reportAll (r : Reading) (position : Nat) (findings : List Schema.Finding) : Drive S Unit :=
  findings.forM fun f => report policy (r.diagnostic position f)

/-- A fault of the document ends the parse. -/
def fatal {α : Type} (r : Reading) (position : Nat) (fault : DocumentFault) : Drive S α := do
  throw (← escalate policy ⟨.fatal, position, r.path, fault.message⟩)

/-- A fault of the namespaces is one of the document. -/
def orFatal {α : Type} (r : Reading) (position : Nat) (x : Except Namespace.Fault α) :
    Drive S α :=
  match x with
  | .ok a => pure a
  | .error fault => fatal policy r position (.badNamespace fault)

/-- Have the validator, if there is one, look at something, and report what it finds. -/
def validate (r : Reading) (position : Nat)
    (look : Schema.Validator → List Schema.Finding × Schema.Validator) :
    Drive S (Option Schema.Validator) := do
  match r.validator with
  | none => return none
  | some v =>
    let (findings, v) := look v
    reportAll policy r position findings
    return some v

/-! ## Elements and text -/

/-- The name and the attributes of an element within the scopes that it enters. -/
def resolve (r : Reading) (position : Nat) (scopes : Namespace.Scopes) (name : String)
    (attributes : List (String × String)) : Drive S (QualifiedName × Attributes) := do
  let name ← orFatal policy r position (scopes.element name)
  let attributes ← attributes.mapM fun (n, v) => do
    return Attribute.mk (← orFatal policy r position (scopes.attr n)) v
  return (name, ⟨attributes⟩)

/-- An element opens, with its name and attributes as written. -/
def openElement (schema : Schema) (r : Reading) (position : Nat) (name : String)
    (attributes : List Reading.WrittenAttribute) : Drive S Reading := do
  if r.openElements.isEmpty && r.seenRoot then fatal policy r position (.secondRoot name)
  else
    let scopes ← orFatal policy r position (r.scopes.enter (Reading.declarationsOf attributes))
    let (name, attributes) ← resolve policy r position scopes name (Reading.plainOf attributes)
    let r : Reading :=
      { r with scopes := scopes, openElements := name :: r.openElements, seenRoot := true }
    let validator ← validate policy r position (·.startElement schema name attributes)
    tell receiver (.startElement name attributes)
    return { r with validator := validator }

/-- The innermost element closes. -/
def closeElement (schema : Schema) (r : Reading) (position : Nat) (written : String) :
    Drive S Reading := do
  match r.openElements with
  | [] => fatal policy r position (.unexpectedEnd written)
  | name :: outer =>
    let validator ← validate policy r position (·.endElement schema)
    tell receiver (.endElement name)
    return { r with scopes := r.scopes.leave, openElements := outer, validator := validator }

/-- Text arrives. Outside the root element only blanks may stand, and they count for nothing. -/
def characters (r : Reading) (position : Nat) (s : String) : Drive S Reading := do
  if s.isEmpty then return r
  else if r.openElements.isEmpty then
    if Text.allBlank s then return r else fatal policy r position .strayText
  else
    let validator ← validate policy r position (·.characters s)
    tell receiver (.characters s)
    return { r with validator := validator }

/-! ## Whole documents -/

def step [Text.Decoders] (schema : Schema) (origin : Origin) (r : Reading) (lexeme : Lexeme) :
    Drive S Reading := do
  match lexeme.piece with
  | .startTag content nameLength =>
    Reading.checkClosed origin lexeme
    let name ← Reading.decodeName lexeme (content.take nameLength)
    let attributes ← Reading.writtenAttributes lexeme content nameLength
    openElement policy receiver schema r lexeme.position name attributes
  | .endTag name =>
    Reading.checkClosed origin lexeme
    let name ← Reading.decodeName lexeme name
    closeElement policy receiver schema r lexeme.position name
  | .text content =>
    let s ← Reading.decodeText lexeme content
    characters policy receiver r lexeme.position s
  | .cdata content =>
    let s ← Reading.decodeName lexeme content
    characters policy receiver r lexeme.position s
  | .declaration content =>
    Reading.checkClosed origin lexeme
    Reading.checkDeclaration origin lexeme.position content
    return r
  | .instruction =>
    Reading.checkClosed origin lexeme
    return r
  | .comment => return r
  | .doctype => return r

/-- The end of the input, or the fault in which the lexer ended. -/
def finish [Text.Decoders] (r : Reading) (position : Nat) (fault : Option LexFault) :
    Drive S Unit := do
  match fault with
  | some fault =>
    let fault ← Reading.documentFault position fault
    fatal policy r position fault
  | none =>
    match r.openElements with
    | name :: _ => fatal policy r position (.unclosed name.written)
    | [] => if r.seenRoot then tell receiver .endDocument else fatal policy r position .noRoot

/-- The remaining pieces of markup, and the end. -/
def remaining [Text.Decoders] (schema : Schema) (origin : Origin) (position : Nat)
    (fault : Option LexFault) (r : Reading) : List Lexeme → Drive S Unit
  | [] => finish policy receiver r position fault
  | lexeme :: lexemes => do
    let r ← step policy receiver schema origin r lexeme
    remaining schema origin position fault r lexemes

/-- A document that was split into markup. Without a schema nothing is validated. -/
def document [Text.Decoders] (schema : Option Schema) (origin : Origin) (lexing : Lexing) :
    Drive S Unit := do
  tell receiver .startDocument
  remaining policy receiver (schema.getD .empty) origin lexing.position lexing.fault
    (.start schema.isSome) lexing.lexemes

end Drive

end ScopedXml
