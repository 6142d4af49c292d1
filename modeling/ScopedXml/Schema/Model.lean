import ScopedXml.Name
import ScopedXml.Content.Progress
import ScopedXml.Value.Builtin

/-!
# Compiled schemas

What a schema knows after compilation: the top-level declarations and the named types of all its
documents. Types are referred to by name and looked up when they are needed (`Schema.resolve`), so
that documents can be compiled in any order.
-/

namespace ScopedXml

namespace Schema

/-- A restriction of a built-in type, by a list of values unless that is empty. -/
structure SimpleType where
  name : Option String
  base : Value.Builtin
  enumeration : List String
deriving DecidableEq

def SimpleType.accepts (t : SimpleType) (value : String) : Bool :=
  t.base.accepts value && (t.enumeration.isEmpty || t.enumeration.contains (Text.trim value))

/-- What a type name in a schema document denotes. -/
inductive TypeRef
  | builtin (type : Value.Builtin)
  | anyType
  /-- A type of some document, found by its local name. -/
  | named (name : String)
  /-- A name of the schema namespace that is no built-in type. -/
  | unknown (name : String)
deriving DecidableEq

/-- The type of an attribute, or of text. -/
inductive ValueType
  | ref (type : TypeRef)
  | defined (type : SimpleType)
deriving DecidableEq

/-- An attribute of a complex type. One that refers to a top-level declaration has no type of its
own. -/
structure AttributeUse where
  name : String
  space : Option String
  type : Option ValueType
  required : Bool
deriving DecidableEq

/-- The namespaces that a wildcard admits. -/
inductive Wildcard
  | any
  /-- Every namespace but this one; names without a namespace are not admitted. -/
  | other (target : Option String)
  /-- These, where `none` stands for names without a namespace. -/
  | oneOf (spaces : List (Option String))
deriving DecidableEq

def Wildcard.admits (w : Wildcard) (space : Option String) : Bool :=
  match w with
  | any => true
  | other target => space.isSome && space != target
  | oneOf spaces => spaces.contains space

/-- A complex type whose content model has leaves in `T`. -/
structure ComplexTypeOver (T : Type) where
  /-- The content model, unless the element holds no children. -/
  content : Option (Content.Particle T)
  attributes : List AttributeUse
  anyAttribute : Bool
  mixed : Bool
  /-- The type of the text of simple content. -/
  textType : Option TypeRef

/-- The type of an element. -/
inductive ElementTypeOver (T : Type)
  | value (type : ValueType)
  | complex (type : ComplexTypeOver T)

/-- A leaf of a content model. -/
inductive Term
  | element (name : String) (space : Option String) (type : ElementTypeOver Term)
  | ref (name : String) (space : Option String)
  | wildcard (namespaces : Wildcard)

abbrev ComplexType := ComplexTypeOver Term

abbrev ElementType := ElementTypeOver Term

namespace Term

/-- Whether a child with this name is an instance of the leaf. -/
def fits (name : QualifiedName) : Term → Bool
  | element declared space _ => name.denotes space declared
  | ref declared space => name.denotes space declared
  | wildcard w => w.admits name.space

/-- The name of the leaf in messages. -/
def label : Term → String
  | element name _ _ => name
  | ref name _ => name
  | wildcard _ => "xs:any"

/-- Whether the leaf names a child, rather than admitting any of some namespaces. -/
def isNamed : Term → Bool
  | wildcard _ => false
  | _ => true

end Term

/-- A top-level element. -/
structure ElementDecl where
  name : String
  space : Option String
  type : ElementType

/-- A top-level attribute. -/
structure AttributeDecl where
  name : String
  space : Option String
  type : ValueType
deriving DecidableEq

end Schema

/-- The declarations and types of all documents of a schema. Declarations stand in the order in
which they were read, types with the latest first. -/
structure Schema where
  targetNamespace : Option String
  elements : List Schema.ElementDecl
  attributes : List Schema.AttributeDecl
  complexTypes : List (String × Schema.ComplexType)
  simpleTypes : List (String × Schema.SimpleType)
  /-- Where the documents came from, each one behind those it loads. -/
  documents : List String

namespace Schema

def empty : Schema := ⟨none, [], [], [], [], []⟩

/-- What decides over a text or an attribute value. -/
inductive ValueRule
  | builtin (type : Value.Builtin)
  | restricted (type : SimpleType)
deriving DecidableEq

def ValueRule.accepts (r : ValueRule) (value : String) : Bool :=
  match r with
  | builtin t => t.accepts value
  | restricted t => t.accepts value

/-- The name of the rule in messages. -/
def ValueRule.label : ValueRule → String
  | builtin t => "xs:" ++ t.name
  | restricted t =>
    match t.name with
    | some name => name
    | none => "restricted xs:" ++ t.base.name

/-- What a type comes down to. -/
inductive Resolved
  | value (rule : ValueRule)
  | complex (type : ComplexType)
  | anything
  | unknown (name : String)

/-- The first top-level element with a name. -/
def element? (s : Schema) (space : Option String) (name : String) : Option ElementDecl :=
  s.elements.find? fun d => d.name == name && d.space == space

/-- The first top-level attribute with a name. -/
def attr? (s : Schema) (space : Option String) (name : String) : Option AttributeDecl :=
  s.attributes.find? fun d => d.name == name && d.space == space

/-- What a type reference denotes. A complex type hides a simple one of its name. -/
def resolveRef (s : Schema) : TypeRef → Resolved
  | .builtin t => .value (.builtin t)
  | .anyType => .anything
  | .unknown name => .unknown name
  | .named name =>
    match s.complexTypes.find? (·.1 == name) with
    | some (_, t) => .complex t
    | none =>
      match s.simpleTypes.find? (·.1 == name) with
      | some (_, t) => .value (.restricted t)
      | none => .unknown name

def resolveValue (s : Schema) : ValueType → Resolved
  | .ref r => s.resolveRef r
  | .defined t => .value (.restricted t)

/-- What the type of an element comes down to. -/
def resolve (s : Schema) : ElementType → Resolved
  | .value t => s.resolveValue t
  | .complex t => .complex t

end Schema

end ScopedXml
