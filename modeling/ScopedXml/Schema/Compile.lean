import ScopedXml.Schema.Declaration
import ScopedXml.Schema.Reference

/-!
# Compiling schemas

`Schema.compile` puts the declarations of schema documents together. A reference to another document
is followed where it stands, before anything behind it is read, and a document that was read
already, or that is being read, is not read again.

* `Schema.declare`: one declaration.
* `addDocument`: one document, with those that it refers to.
-/

namespace ScopedXml.Schema

open Document (Element)

/-! ## Declarations -/

def addElement (s : Schema) (d : ElementDecl) : Schema := { s with elements := s.elements ++ [d] }

def addAttribute (s : Schema) (d : AttributeDecl) : Schema :=
  { s with attributes := s.attributes ++ [d] }

def addComplexType (s : Schema) (name : String) (t : ComplexType) : Schema :=
  { s with complexTypes := (name, t) :: s.complexTypes }

def addSimpleType (s : Schema) (name : String) (t : SimpleType) : Schema :=
  { s with simpleTypes := (name, t) :: s.simpleTypes }

/-- Take in what an element directly below the root declares. Elements with unknown names declare
nothing. -/
def declare (h : Header) (s : Schema) (e : Element) : Except Flaw Schema :=
  if e.name = "element" then s.addElement <$> elementDecl h e
  else if e.name = "attribute" then s.addAttribute <$> attributeDecl h e
  else if e.name = "complexType" then do
    let name ← declaredName "Named complexType" e
    let t ← complexType h e
    return s.addComplexType name t
  else if e.name = "simpleType" then do
    let name ← declaredName "Named simpleType" e
    return s.addSimpleType name (simpleType (some name) e)
  else if ["group", "attributeGroup", "redefine", "override"].contains e.name then
    .error (.unsupported e.name)
  else .ok s

/-! ## Documents -/

/-- The root element of a schema document. -/
def Resource.root (r : Resource) : Except Fault Element :=
  match Element.parse r.text with
  | .error f => .error (.malformed r.origin f.message)
  | .ok root =>
    if root.name = "schema" then .ok root else .error (.invalid r.origin .rootNotSchema)

/-- The reference that an element directly below the root makes, if it makes one. -/
def reference? (e : Element) : Option Reference :=
  if e.name = "import" ∨ e.name = "include" then
    some ⟨e.attr? "namespace", e.attr? "schemaLocation"⟩
  else none

/-- Take in one element directly below the root of a document, where `follow` loads what a reference
asks for. -/
def addPart (follow : Schema → Reference → Except Fault Schema) (origin : String) (h : Header)
    (s : Schema) (e : Element) : Except Fault Schema :=
  match reference? e with
  | some ref => follow s ref
  | none => (declare h s e).mapError (.invalid origin)

/-- More documents than this are never being read at once: their names differ, and all but the first
are shorter than 4096 bytes, because longer paths lead nowhere. -/
def deepest : Nat := Nat.pow 256 4096 + 2

/-- Read a document, with those that it refers to, while the documents in `reading` are being read.
The first document of all says what the target namespace of the schema is. -/
def addDocument (files : File.Tree) (depth : Nat) (reading : List String) (r : Resource)
    (s : Schema) : Except Fault Schema :=
  match depth with
  | 0 => .error (.unresolved r.origin)
  | depth + 1 =>
    if s.documents.contains r.origin || reading.contains r.origin then .ok s
    else do
      let root ← r.root
      let h := Header.ofElement root
      let follow (s : Schema) (ref : Reference) : Except Fault Schema := do
        match ← ref.resolve files r.base with
        | some next => addDocument files depth (r.origin :: reading) next s
        | none => throw (.unresolved ref.shown)
      let first := s.documents.isEmpty && reading.isEmpty
      let s := if first then { s with targetNamespace := h.targetNamespace } else s
      let s ← root.children.foldlM (addPart follow r.origin h) s
      return { s with documents := s.documents ++ [r.origin] }
termination_by structural depth

/-- Compile documents in memory, with all that they refer to. -/
def compileResources (files : File.Tree) (rs : List Resource) : Except Fault Schema :=
  rs.foldlM (fun s r => addDocument files deepest [] r s) empty

/-- Read sources and compile them. -/
def compile (files : File.Tree) (sources : List Source) : Except Fault Schema := do
  let rs ← Source.loadAll files sources
  compileResources files rs

end ScopedXml.Schema
