import ScopedXml.Schema.Source

/-!
# References between schema documents

A reference names a namespace, a location, or both. `Reference.resolve` answers it from the bundled
documents first, by location and then by namespace, and otherwise from a file at the location.
Remote addresses are never followed.
-/

namespace ScopedXml.Schema

namespace Bundled

/-- The address at which the attributes of the XML namespace are declared. -/
def xmlAttributesId : String := "http://www.w3.org/2001/xml.xsd"

/-- Declarations of `xml:lang`, `xml:space`, `xml:base` and `xml:id`, line by line. -/
def xmlAttributesLines : List String :=
  ["<?xml version=\"1.0\" encoding=\"UTF-8\"?>",
   "<!--",
   "  The attributes of the XML namespace (xml:lang, xml:space, xml:base, xml:id),",
   "  bundled so that schemas importing http://www.w3.org/2001/xml.xsd compile",
   "  without network access.",
   "-->",
   "<xs:schema xmlns:xs=\"http://www.w3.org/2001/XMLSchema\"",
   "           targetNamespace=\"http://www.w3.org/XML/1998/namespace\"",
   "           xml:lang=\"en\">",
   "",
   "  <xs:attribute name=\"lang\">",
   "    <xs:simpleType>",
   "      <xs:restriction base=\"xs:language\"/>",
   "    </xs:simpleType>",
   "  </xs:attribute>",
   "",
   "  <xs:attribute name=\"space\">",
   "    <xs:simpleType>",
   "      <xs:restriction base=\"xs:NCName\">",
   "        <xs:enumeration value=\"default\"/>",
   "        <xs:enumeration value=\"preserve\"/>",
   "      </xs:restriction>",
   "    </xs:simpleType>",
   "  </xs:attribute>",
   "",
   "  <xs:attribute name=\"base\" type=\"xs:anyURI\"/>",
   "",
   "  <xs:attribute name=\"id\" type=\"xs:ID\"/>",
   "",
   "</xs:schema>",
   ""]

/-- The bundled document at an address. -/
def lookup? (id : String) : Option String :=
  if id = xmlAttributesId then some ("\n".intercalate xmlAttributesLines) else none

end Bundled

/-- A reference from one schema document to another. -/
structure Reference where
  space : Option String
  location : Option String
deriving DecidableEq

namespace Reference

/-- The address of a reference in messages. -/
def shown (r : Reference) : String := (r.location.or r.space).getD "<unspecified>"

/-- The bundled document that a reference asks for. -/
def bundled? (r : Reference) : Option Resource :=
  [r.location, r.space].findSome? fun id => do
    let id ← id
    let text ← Bundled.lookup? id
    return ⟨id, text, none⟩

/-- The document that a reference asks for, if there is a way to it. -/
def resolve (files : File.Tree) (base : Option File.Path) (r : Reference) :
    Except Fault (Option Resource) :=
  match r.bundled? with
  | some document => .ok (some document)
  | none =>
    match r.location.bind fun l => (File.Location.ofText l).pathFrom? base with
    | none => .ok none
    | some path => do
      let text ← readText files path path.text
      return some ⟨path.text, text, path.parent?⟩

end Reference

end ScopedXml.Schema
