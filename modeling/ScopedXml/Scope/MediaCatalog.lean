import ScopedXml.Namespace
import ScopedXml.Scope.Handler

/-!
# Handlers for media catalogues

A DIDL-Lite document lists objects. Each `item` is given to a handler that makes an object of it,
each `desc` within an item to one that makes a descriptor, and each element directly within a `desc`
to one that copies it with all that it holds, whatever it is.
-/

namespace ScopedXml.Scope

/-- A copy of an element. -/
structure Fragment where
  name : QualifiedName
  attributes : Attributes
  text : String
  children : List Fragment

namespace Fragment

/-- An element that holds nothing yet. -/
def ofStart (name : QualifiedName) (attributes : Attributes) : Fragment :=
  ⟨name, attributes, "", []⟩

/-- The fragment with one more child. -/
def add (f child : Fragment) : Fragment := { f with children := f.children ++ [child] }

mutual

/-- The first element with a local name, going down before going on, this one included. -/
def find? (localName : String) : Fragment → Option Fragment
  | ⟨name, attributes, text, children⟩ =>
    if name.localName = localName then some ⟨name, attributes, text, children⟩
    else findAmong? localName children

def findAmong? (localName : String) : List Fragment → Option Fragment
  | [] => none
  | f :: fs =>
    match find? localName f with
    | some found => some found
    | none => findAmong? localName fs

end

/-- The element that holds the elements of a descriptor. -/
def wrapper : Fragment :=
  .ofStart ⟨some "urn:fourthline-org:cling:support:content-directory-desc-1-0", none,
    "desc-wrapper"⟩ .empty

end Fragment

/-- What a `desc` says of an object. -/
structure Descriptor where
  id : String
  type : Option String
  nameSpace : Option String
  metadata : Fragment

/-- One object of a catalogue. -/
structure MediaObject where
  id : String
  parentId : Option String
  title : String
  language : Option String
  descriptors : List Descriptor

/-- The handlers of a catalogue. -/
inductive CatalogHandler
  | catalog (objects : List MediaObject)
  | item (object : MediaObject)
  | desc (descriptor : Descriptor)
  /-- The elements being copied, the innermost first; the last one is the copy itself. -/
  | fragment (openElements : List Fragment)

namespace CatalogHandler

def ofItem (attributes : Attributes) : CatalogHandler :=
  .item ⟨(attributes.get? "id").getD "", attributes.get? "parentID", "", none, []⟩

def ofDesc (attributes : Attributes) : CatalogHandler :=
  .desc ⟨(attributes.get? "id").getD "", attributes.get? "type", attributes.get? "nameSpace",
    .wrapper⟩

def typeName : CatalogHandler → String
  | catalog _ => "DidlHandler"
  | item _ => "ItemHandler"
  | desc _ => "DescHandler"
  | fragment _ => "FragmentHandler"

variable {N : Type}

def onStart (h : CatalogHandler) (view : View) (name : QualifiedName) (attributes : Attributes) :
    StartReply CatalogHandler N :=
  match h with
  | catalog _ =>
    if name.localName = "item" then (Reply.done h []).delegating (ofItem attributes)
    else (Reply.done h []).alone
  | item object =>
    if name.localName = "desc" then (Reply.done h []).delegating (ofDesc attributes)
    else if name.localName = "title" then
      let language := attributes.getIn? (some Namespace.xmlUri) "lang"
      (Reply.done (item { object with language := language }) []).alone
    else (Reply.done h []).alone
  | desc _ =>
    if view.position.depth = 2 then
      (Reply.done h []).delegating (fragment [.ofStart name attributes])
    else (Reply.done h []).alone
  | fragment openElements =>
    (Reply.done (fragment (.ofStart name attributes :: openElements)) []).alone

def onText (h : CatalogHandler) (text : String) : Reply CatalogHandler N :=
  match h with
  | fragment (f :: outer) => .done (fragment ({ f with text := f.text ++ text } :: outer)) []
  | _ => .done h []

/-- The innermost element of a copy closes. -/
def closeFragment (openElements : List Fragment) : Reply CatalogHandler N :=
  match openElements with
  | [] => .fail (fragment []) "fragment closed more elements than it opened"
  | [_] => .fail (fragment []) "fragment root closed early"
  | f :: parent :: outer => .done (fragment (parent.add f :: outer)) []

def onEnd (h : CatalogHandler) (view : View) (name : QualifiedName) : Reply CatalogHandler N :=
  match h with
  | item object =>
    if name.localName = "title" then .taking (item { object with title := view.text }) []
    else .done h []
  | fragment openElements =>
    if view.position.isBoundary then .done h [] else closeFragment openElements
  | _ => .done h []

def onChild (h child : CatalogHandler) : Reply CatalogHandler N :=
  match h, child with
  | catalog objects, item object => .done (catalog (objects ++ [object])) []
  | catalog _, _ => .fail h "unexpected child of DIDL-Lite"
  | item object, desc d =>
    .done (item { object with descriptors := object.descriptors ++ [d] }) []
  | item _, _ => .fail h "item child is not a desc"
  | desc d, fragment openElements =>
    match openElements.getLast? with
    | some root => .done (desc { d with metadata := d.metadata.add root }) []
    | none => .fail h "desc child is not a fragment"
  | desc _, _ => .fail h "desc child is not a fragment"
  | fragment _, _ => .done h []

def handlers : Handlers CatalogHandler N where
  typeName := typeName
  onStart := onStart
  onText h _ text := h.onText text
  onEnd := onEnd
  isLast _ _ position := (position.isBoundary, [])
  onChild h _ child := h.onChild child

end CatalogHandler

end ScopedXml.Scope
