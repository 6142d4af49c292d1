import ScopedXml.Document.Element
import ScopedXml.Schema.Fault
import ScopedXml.Schema.Model
import ScopedXml.Value.Numbers

/-!
# Declarations in schema documents

What the elements of a schema document declare. `Header` holds what the root element says about all
of them; type names are kept as references, so that a type may be declared later or in another
document.

* `simpleType`, `attributeUse`: declarations without parts that repeat.
* `heldType`, `complexType`, `members`: types and content models, which nest in each other.
* `elementDecl`, `attributeDecl`: what stands directly below the root.
-/

namespace ScopedXml.Schema

open Document (Element)
open Content (Occurs Compositor Particle)

/-- The namespace of schema documents, in which the built-in types are. -/
def schemaUri : String := "http://www.w3.org/2001/XMLSchema"

/-- What a schema document says about its declarations as a whole. -/
structure Header where
  targetNamespace : Option String
  /-- Whether local elements are in the target namespace unless they say otherwise. -/
  qualifiedElements : Bool
  /-- The same for attributes. -/
  qualifiedAttributes : Bool
deriving DecidableEq

namespace Header

def ofElement (root : Element) : Header :=
  ⟨root.attr? "targetNamespace", root.attr? "elementFormDefault" == some "qualified",
    root.attr? "attributeFormDefault" == some "qualified"⟩

/-- The namespace of a local declaration, where `qualified` holds for those without a form of
their own. -/
def localSpace (h : Header) (e : Element) (qualified : Bool) : Option String :=
  if ((e.attr? "form").map (· == "qualified")).getD qualified then h.targetNamespace else none

end Header

/-! ## Values of attributes -/

/-- The name that a declaration of some kind has to have. -/
def declaredName (kind : String) (e : Element) : Except Flaw String :=
  match e.attr? "name" with
  | some name => .ok name
  | none => .error (.unnamed kind)

/-- A count that fits into 64 bits, with an optional plus. -/
def count? (cs : List Char) : Option Nat :=
  let digits := match cs with
    | '+' :: rest => rest
    | _ => cs
  if Value.isDigits digits && Value.digitsValue digits < Nat.pow 2 64 then
    some (Value.digitsValue digits)
  else none

/-- The least number of occurrences, once unless it is given. -/
def leastOccurs (e : Element) : Except Flaw Nat :=
  match e.attr? "minOccurs" with
  | none => .ok 1
  | some value =>
    match count? (Text.trimChars value.toList) with
    | some n => .ok n
    | none => .error (.unreadableLeast value)

/-- The greatest number of occurrences, once unless it is given. -/
def mostOccurs (e : Element) : Except Flaw (Option Nat) :=
  match (e.attr? "maxOccurs").map Text.trim with
  | none => .ok (some 1)
  | some value =>
    if value = "unbounded" then .ok none
    else
      match count? value.toList with
      | some n => .ok (some n)
      | none => .error (.unreadableMost value)

/-- The bounds on the occurrences of a particle. -/
def occurs (e : Element) : Except Flaw Occurs := do
  let least ← leastOccurs e
  let most ← mostOccurs e
  match most with
  | some n => if n < least then throw (.emptyRange least n) else return ⟨least, some n⟩
  | none => return ⟨least, none⟩

/-- The namespace and the local part of a name in an attribute value. -/
def expandedName (e : Element) (value : String) : Option String × String :=
  match Text.splitAtFirst? ':' value.toList with
  | none => (e.uri? none, value)
  | some (p, l) =>
    let p := String.ofList p
    (if p = "xml" then some Namespace.xmlUri else e.uri? (some p), String.ofList l)

/-- The type that a name in an attribute value refers to. Names without any namespace are those of
built-in types where there is one. -/
def typeRef (e : Element) (value : String) : TypeRef :=
  let (space, name) := expandedName e value
  if space = some schemaUri then
    if name = "anyType" then .anyType
    else (Value.Builtin.ofName? name).elim (.unknown value) .builtin
  else if space = none then (Value.Builtin.ofName? name).elim (.named name) .builtin
  else .named name

/-- The namespaces that a wildcard lists. -/
def wildcard (h : Header) (e : Element) : Wildcard :=
  let value := Text.trim ((e.attr? "namespace").getD "##any")
  if value = "##any" then .any
  else if value = "##other" then .other h.targetNamespace
  else
    .oneOf <| (Text.words value.toList).map fun word =>
      let word := String.ofList word
      if word = "##local" then none
      else if word = "##targetNamespace" then h.targetNamespace
      else some word

/-! ## Simple types and attributes -/

/-- The first child with one of some names. -/
def child? (e : Element) (names : List String) : Option Element :=
  e.children.find? fun c => names.contains c.name

/-- A simple type. What is no restriction of a built-in type counts as a restriction of strings. -/
def simpleType (name : Option String) (e : Element) : SimpleType :=
  match child? e ["restriction"] with
  | none => ⟨name, Value.Builtin.string, []⟩
  | some r =>
    let base := match (r.attr? "base").map (typeRef r) with
      | some (.builtin b) => b
      | _ => Value.Builtin.string
    ⟨name, base, (r.children.filter (·.name == "enumeration")).filterMap (·.attr? "value")⟩

/-- The type of an attribute: one that it names, one that it holds, or strings. -/
def attributeType (e : Element) : ValueType :=
  match e.attr? "type", child? e ["simpleType"] with
  | some value, _ => .ref (typeRef e value)
  | none, some t => .defined (simpleType none t)
  | none, none => .ref (.builtin Value.Builtin.string)

/-- An attribute of a complex type, declared in place or by reference. -/
def attributeUse (h : Header) (e : Element) : Except Flaw AttributeUse :=
  let required := e.attr? "use" == some "required"
  match e.attr? "ref" with
  | some value =>
    let (space, name) := expandedName e value
    .ok ⟨name, space, none, required⟩
  | none => do
    let name ← declaredName "Attribute" e
    return ⟨name, h.localSpace e h.qualifiedAttributes, some (attributeType e), required⟩

/-- Add the attributes that an extension or restriction declares. -/
def addDerivedPart (h : Header) (t : ComplexType) (e : Element) : Except Flaw ComplexType :=
  if e.name = "attribute" then do
    let use ← attributeUse h e
    return { t with attributes := t.attributes ++ [use] }
  else if e.name = "anyAttribute" then .ok { t with anyAttribute := true }
  else .ok t

/-- Give a complex type simple content. -/
def addSimpleContent (h : Header) (t : ComplexType) (e : Element) : Except Flaw ComplexType :=
  match child? e ["extension", "restriction"] with
  | none => .error .noDerivation
  | some d =>
    let text := match d.attr? "base" with
      | some value => typeRef d value
      | none => .builtin Value.Builtin.string
    d.children.foldlM (addDerivedPart h) { t with textType := some text }

/-! ## Types and content models -/

/-- The kind of group that an element is, if it is one. -/
def compositor? (e : Element) : Option Compositor :=
  if e.name = "sequence" then some .sequence
  else if e.name = "choice" then some .choice
  else if e.name = "all" then some .all
  else none

/-- Whether a particle is a single child, at most once. -/
def isSingle : Particle Term → Bool
  | .leaf t o => t.isNamed && o.most.any (· ≤ 1)
  | .group _ _ _ => false

/-- A complex type before anything is known of its parts. -/
def plainType (e : Element) : ComplexType :=
  ⟨none, [], false, e.attr? "mixed" == some "true", none⟩

/-- The type of an element: the one that it names, or else the one that it holds. -/
def ownType (e : Element) (held : Except Flaw ElementType) : Except Flaw ElementType :=
  match e.attr? "type" with
  | some value => .ok (.value (.ref (typeRef e value)))
  | none => held

/-- A leaf that refers to a top-level element. -/
def elementRef (e : Element) (value : String) : Term :=
  let (space, name) := expandedName e value
  .ref name space

/-- A leaf that declares an element in place, of a type that counts once the name is known. -/
def localElement (h : Header) (e : Element) (type : Except Flaw ElementType) :
    Except Flaw Term := do
  let name ← declaredName "Element" e
  return .element name (h.localSpace e h.qualifiedElements) (← type)

/-- Put a particle in front of the other members of a group, if the group admits it. -/
def addMember (kind : Compositor) (p : Particle Term)
    (others : Except Flaw (List (Particle Term))) : Except Flaw (List (Particle Term)) :=
  if kind = .all ∧ !isSingle p then .error .crowdedAll
  else (p :: ·) <$> others

mutual

/-- The type that an element holds. -/
def heldType (h : Header) (e : Element) : Except Flaw ElementType :=
  match e with
  | ⟨_, _, _, children⟩ => firstType h children
termination_by structural e

/-- The first type among some elements, or any if there is none. -/
def firstType (h : Header) (es : List Element) : Except Flaw ElementType :=
  match es with
  | [] => .ok (.value (.ref .anyType))
  | e :: rest =>
    if e.name = "complexType" then .complex <$> complexType h e
    else if e.name = "simpleType" then .ok (.value (.defined (simpleType none e)))
    else firstType h rest
termination_by structural es

def complexType (h : Header) (e : Element) : Except Flaw ComplexType :=
  match e with
  | ⟨name, attributes, namespaces, children⟩ =>
    typeParts h (plainType ⟨name, attributes, namespaces, children⟩) children
termination_by structural e

/-- Add what the children of a complex type say about it. Of several content models the last one
counts. -/
def typeParts (h : Header) (t : ComplexType) (es : List Element) : Except Flaw ComplexType :=
  match es with
  | [] => .ok t
  | e :: rest =>
    match compositor? e with
    | some kind => do
      let bounds ← occurs e
      let members ← members h kind e
      typeParts h { t with content := some (.group kind members bounds) } rest
    | none =>
      if e.name = "simpleContent" then do
        let t ← addSimpleContent h t e
        typeParts h t rest
      else if ["complexContent", "group", "attributeGroup"].contains e.name then
        .error (.unsupported e.name)
      else do
        let t ← addDerivedPart h t e
        typeParts h t rest
termination_by structural es

/-- The members of a group. -/
def members (h : Header) (kind : Compositor) (e : Element) :
    Except Flaw (List (Particle Term)) :=
  match e with
  | ⟨_, _, _, children⟩ => particles h kind children
termination_by structural e

/-- The particles that the elements in a group stand for. -/
def particles (h : Header) (kind : Compositor) (es : List Element) :
    Except Flaw (List (Particle Term)) :=
  match es with
  | [] => .ok []
  | e :: rest =>
    match compositor? e with
    | some inner => do
      let bounds ← occurs e
      let members ← members h inner e
      addMember kind (.group inner members bounds) (particles h kind rest)
    | none =>
      if e.name = "element" then do
        let bounds ← occurs e
        let term ←
          match e.attr? "ref" with
          | some value => pure (elementRef e value)
          | none => localElement h e (ownType e (heldType h e))
        addMember kind (.leaf term bounds) (particles h kind rest)
      else if e.name = "any" then do
        let bounds ← occurs e
        addMember kind (.leaf (.wildcard (wildcard h e)) bounds) (particles h kind rest)
      else if e.name = "group" then .error (.unsupported e.name)
      else particles h kind rest
termination_by structural es

end

def elementType (h : Header) (e : Element) : Except Flaw ElementType := ownType e (heldType h e)

/-! ## Top-level declarations -/

def elementDecl (h : Header) (e : Element) : Except Flaw ElementDecl := do
  let name ← declaredName "Element" e
  let type ← elementType h e
  return ⟨name, h.targetNamespace, type⟩

def attributeDecl (h : Header) (e : Element) : Except Flaw AttributeDecl := do
  let name ← declaredName "Attribute" e
  return ⟨name, h.targetNamespace, attributeType e⟩

end ScopedXml.Schema
