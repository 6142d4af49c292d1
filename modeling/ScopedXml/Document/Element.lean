import ScopedXml.Namespace
import ScopedXml.Document.Cursor

/-!
# Documents as trees of elements

`Element.parse` reads a document strictly: names, references, namespaces and nesting must be in
order, and document type declarations are refused. Only elements and attributes are kept, since that
is all that matters in a schema document.
-/

namespace ScopedXml.Document

open Namespace

/-- An element: its local name, its attributes, the namespace declarations in force within it, the
ones that count first, and the elements in it. -/
structure Element where
  name : String
  attributes : Attributes
  namespaces : List Declaration
  children : List Element

namespace Element

/-- The value of an attribute without a namespace. -/
def attr? (e : Element) (name : String) : Option String := e.attributes.get? name

/-- The namespace of a prefix, or of no prefix, within an element. -/
def uri? (e : Element) (p : Option String) : Option String :=
  (e.namespaces.find? (·.nsPrefix == p)).map (·.uri)

end Element

/-! ## Tags -/

/-- An attribute whose prefix has not been resolved yet. -/
structure PendingAttribute where
  place : Place
  nsPrefix : String
  localName : String
  value : String

/-- A start tag as it is read: the attributes, and the declarations that it makes. -/
structure Tag where
  start : Place
  nsPrefix : String
  localName : String
  attributes : List PendingAttribute
  declarations : List Declaration

/-- An element that is open, with the elements in it so far in reverse. -/
structure OpenElement where
  nsPrefix : String
  name : String
  attributes : Attributes
  namespaces : List Declaration
  children : List Element

/-- A written name. -/
def written (p l : String) : String := if p.isEmpty then l else p ++ ":" ++ l

/-- Add the declaration of a prefix to a tag. -/
def Tag.declare (t : Tag) (place : Place) (name uri : String) : Except Fault Tag :=
  if uri = xmlnsUri then .error (.declaredXmlns place)
  else if name = "xml" ∧ uri ≠ xmlUri then .error (.wrongXmlUri place)
  else if name ≠ "xml" ∧ uri = xmlUri then .error (.strayXmlUri place)
  else if t.declarations.any (·.nsPrefix == some name) then
    .error (.repeatedNamespace name place)
  else if uri = xmlUri then .ok t
  else .ok { t with declarations := t.declarations ++ [⟨some name, uri⟩] }

/-- Add the declaration of the default namespace to a tag. -/
def Tag.declareDefault (t : Tag) (place : Place) (uri : String) : Except Fault Tag :=
  if uri = xmlnsUri then .error (.declaredXmlns place)
  else if uri = xmlUri then .error (.strayXmlUri place)
  else .ok { t with declarations := t.declarations ++ [⟨none, uri⟩] }

/-- Add an attribute or a declaration to a tag. -/
def Tag.add (t : Tag) (a : PendingAttribute) : Except Fault Tag :=
  if a.nsPrefix = "xmlns" then t.declare a.place a.localName a.value
  else if a.localName = "xmlns" then t.declareDefault a.place a.value
  else .ok { t with attributes := t.attributes ++ [a] }

/-- The declarations in force within a tag: its own, and those around it that they do not hide. -/
def Tag.scope (t : Tag) (outer : List Declaration) : List Declaration :=
  t.declarations ++ outer.filter fun d => !t.declarations.any (·.nsPrefix == d.nsPrefix)

/-- The namespace of a prefix that must have been declared. -/
def uriOf (scope : List Declaration) (place : Place) (p : String) : Except Fault String :=
  match scope.find? (·.nsPrefix == some p) with
  | some d => .ok d.uri
  | none => .error (.unknownPrefix p place)

/-- An attribute with its namespace, which no earlier one may share with its name. -/
def resolveAttribute (scope : List Declaration) (earlier : List Attribute)
    (a : PendingAttribute) : Except Fault (List Attribute) := do
  let space : Option String ←
    if a.nsPrefix = "xml" then pure (some xmlUri)
    else if a.nsPrefix.isEmpty then pure none
    else some <$> uriOf scope a.place a.nsPrefix
  if earlier.any fun b => b.name.denotes space a.localName then
    throw (.repeatedAttribute a.localName a.place)
  let p := if a.nsPrefix.isEmpty then none else some a.nsPrefix
  return earlier ++ [⟨⟨space, p, a.localName⟩, a.value⟩]

/-- The element that a tag opens. -/
def Tag.open (t : Tag) (outer : List Declaration) : Except Fault OpenElement := do
  let scope := t.scope outer
  let attributes ← t.attributes.foldlM (resolveAttribute scope) []
  if !t.nsPrefix.isEmpty then
    let _ ← uriOf scope (t.start.next '<') t.nsPrefix
  return ⟨t.nsPrefix, t.localName, ⟨attributes⟩, scope, []⟩

/-- The finished element. -/
def OpenElement.close (e : OpenElement) : Element :=
  ⟨e.name, e.attributes, e.namespaces, e.children.reverse⟩

/-! ## Reading -/

/-- The state of reading: the open elements, the innermost first, and the root once it is closed. -/
structure State where
  stack : List OpenElement
  root : Option Element

namespace State

def empty : State := ⟨[], none⟩

/-- The declarations around the next element. -/
def scope (s : State) : List Declaration :=
  match s.stack with
  | [] => []
  | e :: _ => e.namespaces

/-- Put a finished element where it belongs. -/
def finish (s : State) (e : Element) : State :=
  match s.stack with
  | [] => { s with root := some e }
  | parent :: outer => { s with stack := { parent with children := e :: parent.children } :: outer }

/-- Close the innermost element with an end tag. -/
def close (s : State) (place : Place) (p l : String) : Except Fault State :=
  match s.stack with
  | [] => .ok s
  | e :: outer =>
    if p = e.nsPrefix ∧ l = e.name then .ok (finish { s with stack := outer } e.close)
    else .error (.wrongEnd (written e.nsPrefix e.name) (written p l) place)

end State

/-- A comment. It ends at the first `-->`, and must not hold `--` or end in `-`. -/
def comment (start : Cursor) : Except Fault Cursor := do
  let (taken, c) ← (start.drop 4).takeTo "-->"
  let c ← c.text "-->"
  let rec doubled : List Char → Bool
    | '-' :: '-' :: _ => true
    | _ :: ds => doubled ds
    | [] => false
  if doubled taken || taken.getLast? = some '-' then throw (.badComment start.place)
  return c

/-- A processing instruction. -/
def instruction (start : Cursor) : Except Fault Cursor := do
  if start.startsWith "<?xml " then throw (.strayDeclaration start.place)
  let (_, c) ← (start.drop 2).name
  let (_, c) ← c.skipSpaces.takeTo "?>"
  c.text "?>"

/-- Comments, processing instructions and blanks. -/
def misc : Nat → Cursor → Except Fault Cursor
  | 0, c => .ok c
  | fuel + 1, c =>
    if c.atEnd then .ok c
    else
      let c := c.skipSpaces
      if c.startsWith "<!--" then do misc fuel (← comment c)
      else if c.startsWith "<?" then do misc fuel (← instruction c)
      else .ok c

/-- An attribute as written in a tag or declaration. -/
def attributeText (c : Cursor) : Except Fault (String × String × Place × List Char × Cursor) := do
  let (p, l, c) ← c.qualifiedName
  let c ← c.equals
  let (place, value, c) ← c.quotedValue
  return (p, l, place, value, c)

/-- The XML declaration at the start of a document. -/
def declaration (c : Cursor) : Except Fault Cursor := do
  let spaces (c : Cursor) : Except Fault Cursor :=
    match c.rest with
    | [] => .ok c
    | d :: _ =>
      if isSpace d then .ok c.skipSpaces
      else if c.startsWith "?>" then .ok c
      else .error (.expectedClass "a whitespace" (Markup.firstByte d) c.place)
  let optional (key : String) (c : Cursor) : Except Fault Cursor := do
    if c.startsWith key then
      let (_, _, _, _, c) ← attributeText c
      return c
    else return c
  let c ← spaces (c.drop 5)
  if !c.startsWith "version" then
    let _ ← c.text "version"
  let c ← optional "version" c
  let c ← spaces c
  let c ← if c.startsWith "encoding" then do spaces (← optional "encoding" c) else pure c
  let c ← optional "standalone" c
  c.skipSpaces.text "?>"

/-- The rest of a start tag. Without an end it opens nothing. -/
def tagRest : Nat → State → Tag → Cursor → Except Fault (State × Cursor)
  | 0, s, _, c => .ok (s, c)
  | fuel + 1, s, tag, c =>
    if c.atEnd then .ok (s, c)
    else
      let spaced := c.rest.head?.any isSpace
      let c := c.skipSpaces
      match c.rest with
      | [] => .error .ended
      | '/' :: _ => do
        let c ← (c.drop 1).char '>'
        let e ← tag.open s.scope
        return (s.finish e.close, c)
      | '>' :: _ => do
        let e ← tag.open s.scope
        return ({ s with stack := e :: s.stack }, c.drop 1)
      | d :: _ =>
        if !spaced then .error (.expectedClass "a whitespace" (Markup.firstByte d) c.place)
        else do
          let (p, l, place, value, after) ← attributeText c
          let value ← normalized place value
          let tag ← tag.add ⟨c.place, p, l, value⟩
          tagRest fuel s tag after

/-- A start tag, from its `<` on. -/
def startTag (s : State) (start : Cursor) : Except Fault (State × Cursor) := do
  let (p, l, c) ← (start.drop 1).qualifiedName
  if p = "xmlns" then throw (.xmlnsPrefix (start.place.next '<'))
  tagRest (c.rest.length + 1) s ⟨start.place, p, l, [], []⟩ c

/-- An end tag, from its `<` on. -/
def endTag (s : State) (start : Cursor) : Except Fault (State × Cursor) := do
  let (p, l, c) ← (start.drop 2).qualifiedName
  let c ← c.skipSpaces.char '>'
  return (← s.close start.place p l, c)

/-- The references in a text, each of which must stand for a character. -/
def checkReferences : Nat → Cursor → Except Fault Unit
  | 0, _ => .ok ()
  | fuel + 1, c =>
    match c.rest with
    | [] => .ok ()
    | '&' :: _ => do checkReferences fuel (← reference c).2
    | _ :: _ => checkReferences fuel (c.drop 1)

/-- Text up to the next `<`. -/
def textRun (start : Cursor) : Except Fault Cursor := do
  let (taken, c) ← start.takeTo "<"
  let rec ends : List Char → Bool
    | ']' :: ']' :: '>' :: _ => true
    | _ :: ds => ends ds
    | [] => false
  if ends taken then throw (.sectionEnd c.place)
  checkReferences taken.length ⟨start.place, taken⟩
  return c

/-- The content of the open elements, until the root is closed or the text ends. -/
def content : Nat → State → Cursor → Except Fault (State × Cursor)
  | 0, s, c => .ok (s, c)
  | fuel + 1, s, c =>
    if s.stack.isEmpty then .ok (s, c)
    else
      match c.rest with
      | [] => .ok (s, c)
      | ['<'] => .error (.unknownToken c.place)
      | '<' :: '!' :: _ =>
        if c.startsWith "<!--" then do content fuel s (← comment c)
        else if c.startsWith "<![CDATA[" then do
          let (_, after) ← (c.drop 9).takeTo "]]>"
          content fuel s (← after.text "]]>")
        else .error (.unknownToken c.place)
      | '<' :: '?' :: _ => do content fuel s (← instruction c)
      | '<' :: '/' :: _ => do
        let (s, c) ← endTag s c
        content fuel s c
      | '<' :: _ => do
        let (s, c) ← startTag s c
        content fuel s c
      | _ => do content fuel s (← textRun c)

/-- The root element with all that it holds. -/
def rootElement (c : Cursor) : Except Fault (State × Cursor) := do
  let (s, c) ← startTag .empty c
  content (c.rest.length + 1) s c

/-- The root element of a document. -/
def Element.parse (text : String) : Except Fault Element := do
  let c := Cursor.ofText text
  let c := if c.rest.head? = some '\uFEFF' then c.drop 1 else c
  let c ← if c.startsWith "<?xml " then declaration c else pure c
  let c ← misc (c.rest.length + 1) c
  let c := c.skipSpaces
  if c.startsWith "<!DOCTYPE" then throw .doctype
  let (s, c) ← if c.startsWith "<" then rootElement c else pure (.empty, c)
  let c ← misc (c.rest.length + 1) c
  if !c.atEnd then throw (.unknownToken c.place)
  if !s.stack.isEmpty then throw .unclosedRoot
  match s.root with
  | some e => return e
  | none => throw .noRoot

end ScopedXml.Document
