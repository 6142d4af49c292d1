import ScopedXml.Schema.Finding

/-!
# Validation of an event stream

A validator follows the elements of a document with one frame for each that is open, and says what
each event violates. Nothing it finds stops it: below an element that it cannot check it keeps
quiet.
-/

namespace ScopedXml.Schema

/-- The namespace of the attributes that speak to schema processors. They are never checked. -/
def instanceUri : String := "http://www.w3.org/2001/XMLSchema-instance"

/-- What is being checked within one open element. -/
inductive Frame
  /-- An element that holds text only. -/
  | simple (name : String) (rule : ValueRule) (text : String)
  /-- An element with attributes and children. `failed` once a child was out of place, `strayed`
  once text was. -/
  | complex (name : String) (type : ComplexType) (progress : Content.Progress) (failed : Bool)
      (text : String) (strayed : Bool)
  /-- An element whose content is not checked. -/
  | skipped

/-- The open elements, the innermost first. -/
structure Validator where
  frames : List Frame

namespace Validator

def start : Validator := ⟨[]⟩

/-! ## Attributes -/

/-- Whether an attribute is one of those that are never checked. -/
def isInstance (a : Attribute) : Bool := a.name.space == some instanceUri

/-- Attributes of an element that allows none. -/
def undeclared (element : String) (attributes : Attributes) : List Finding :=
  (attributes.toList.filter (!isInstance ·)).map fun a =>
    .undeclaredAttribute a.name.written element

/-- The rule for the values of an attribute, if its type has one. -/
def useRule? (schema : Schema) (use : AttributeUse) : Option ValueRule :=
  let type : Option ValueType :=
    match use.type with
    | some t => some t
    | none => (schema.attr? use.space use.name).map (·.type)
  match type.map schema.resolveValue with
  | some (.value rule) => some rule
  | _ => none

/-- What is wrong with one declared attribute. -/
def checkUse (schema : Schema) (element : String) (attributes : Attributes)
    (use : AttributeUse) : List Finding :=
  match attributes.getIn? use.space use.name with
  | none => if use.required then [.missingAttribute use.name element] else []
  | some value =>
    match useRule? schema use with
    | some rule =>
      if rule.accepts value then [] else [.badAttribute element use.name rule.label value]
    | none => []

/-- Whether a complex type declares an attribute. -/
def declares (type : ComplexType) (a : Attribute) : Bool :=
  type.attributes.any fun use => a.name.denotes use.space use.name

def checkAttributes (schema : Schema) (type : ComplexType) (element : String)
    (attributes : Attributes) : List Finding :=
  type.attributes.flatMap (checkUse schema element attributes) ++
    if type.anyAttribute then []
    else
      (attributes.toList.filter fun a => !isInstance a && !declares type a).map fun a =>
        .undeclaredAttribute a.name.written element

/-! ## Elements -/

/-- The type of a child that a leaf takes, if its content is to be checked. -/
def typeOf (schema : Schema) : Term → List Finding × Option ElementType
  | .element _ _ type => ([], some type)
  | .ref name space =>
    match schema.element? space name with
    | some d => ([], some d.type)
    | none => ([.undefinedElement name], none)
  | .wildcard _ => ([], none)

/-- The first leaf of a model that names this child. -/
def leafNamed? (name : QualifiedName) (p : Content.Particle Term) : Option Term :=
  p.leaves.find? fun t => t.isNamed && t.fits name

/-- A child of an element with a complex type: the progress behind it, whether it is out of place,
and the type that it has nevertheless. -/
def enterChild (schema : Schema) (parent : String) (type : ComplexType)
    (progress : Content.Progress) (name : QualifiedName) :
    Content.Progress × Bool × List Finding × Option ElementType :=
  match type.content with
  | none => (progress, true, [.foreignElement name.localName parent], none)
  | some p =>
    match progress.accept (·.fits name) p with
    | some (term, progress) => (progress, false, typeOf schema term)
    | none =>
      match leafNamed? name p with
      | some term =>
        let (findings, childType) := typeOf schema term
        (progress, true,
          .misplacedElement name.localName parent (progress.expected Term.label p) :: findings,
          childType)
      | none => (progress, true, [.foreignElement name.localName parent], none)

/-- The frame of an element of this type, and what is wrong with its attributes. -/
def frameFor (schema : Schema) (name : String) (attributes : Attributes)
    (type : Option ElementType) : List Finding × Frame :=
  match type.map schema.resolve with
  | none => ([], .skipped)
  | some .anything => ([], .skipped)
  | some (.unknown t) => ([.undefinedType t name], .skipped)
  | some (.value rule) => (undeclared name attributes, .simple name rule "")
  | some (.complex t) =>
    (checkAttributes schema t name attributes, .complex name t .fresh false "" false)

/-- An element opens. -/
def startElement (v : Validator) (schema : Schema) (name : QualifiedName)
    (attributes : Attributes) : List Finding × Validator :=
  let (findings, outer, type) : List Finding × List Frame × Option ElementType :=
    match v.frames with
    | [] =>
      match schema.element? name.space name.localName with
      | some d => ([], [], some d.type)
      | none => ([.undefinedElement name.localName], [], none)
    | .skipped :: _ => ([], v.frames, none)
    | .simple parent _ _ :: _ => ([.foreignElement name.localName parent], v.frames, none)
    | .complex parent t progress failed text strayed :: rest =>
      let (progress, outOfPlace, findings, type) := enterChild schema parent t progress name
      (findings, .complex parent t progress (failed || outOfPlace) text strayed :: rest, type)
  let (more, frame) := frameFor schema name.localName attributes type
  (findings ++ more, ⟨frame :: outer⟩)

/-! ## Text and ends -/

/-- Text arrives. -/
def characters (v : Validator) (chunk : String) : List Finding × Validator :=
  match v.frames with
  | .simple name rule text :: rest => ([], ⟨.simple name rule (text ++ chunk) :: rest⟩)
  | .complex name type progress failed text strayed :: rest =>
    if type.textType.isSome then
      ([], ⟨.complex name type progress failed (text ++ chunk) strayed :: rest⟩)
    else if !type.mixed && !strayed && !Text.allBlank chunk then
      ([.strayText name], ⟨.complex name type progress failed text true :: rest⟩)
    else ([], v)
  | _ => ([], v)

/-- What is wrong with the text of an element. -/
def checkText (name : String) (rule : ValueRule) (text : String) : List Finding :=
  if rule.accepts text then [] else [.badText name rule.label (Text.trim text)]

/-- What is wrong with the children of an element at its end. -/
def checkContent (type : ComplexType) (progress : Content.Progress) (failed : Bool) :
    List Finding :=
  match type.content with
  | some p =>
    if failed then [] else ((progress.missing Term.label p).map Finding.incomplete).toList
  | none => []

/-- What is wrong with the text of simple content. -/
def checkSimpleContent (schema : Schema) (name : String) (type : ComplexType) (text : String) :
    List Finding :=
  match type.textType.map schema.resolveRef with
  | some (.value rule) => checkText name rule text
  | _ => []

/-- An element closes. -/
def endElement (v : Validator) (schema : Schema) : List Finding × Validator :=
  match v.frames with
  | .simple name rule text :: rest => (checkText name rule text, ⟨rest⟩)
  | .complex name type progress failed text _ :: rest =>
    (checkContent type progress failed ++ checkSimpleContent schema name type text, ⟨rest⟩)
  | .skipped :: rest => ([], ⟨rest⟩)
  | [] => ([], v)

end Validator

end ScopedXml.Schema
