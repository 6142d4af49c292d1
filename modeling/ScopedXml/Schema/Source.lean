import ScopedXml.File.Location
import ScopedXml.File.Tree
import ScopedXml.Schema.Fault
import ScopedXml.Text.Utf8

/-!
# Schema sources

A `Source` says where a schema document is to be had; a `Resource` is a document that was read, with
its name and the directory that its own references start from.

* `Source.load`, `Source.loadAll`: reading sources, in order.
* `Resource.same`: when two documents are interchangeable, however they were given.
-/

namespace ScopedXml.Schema

/-- A schema document in memory. -/
structure Resource where
  /-- The name of the document in messages, by which repeated references are told. -/
  origin : String
  text : String
  /-- Where relative references in the document start, if anywhere. -/
  base : Option File.Path
deriving DecidableEq

/-- Whether two base directories are the same path. -/
def sameBase : Option File.Path → Option File.Path → Bool
  | none, none => true
  | some p, some q => p.same q
  | _, _ => false

/-- Whether two documents have the same text, name and base directory. -/
def Resource.same (r s : Resource) : Bool :=
  r.origin == s.origin && r.text == s.text && sameBase r.base s.base

/-- Read a file that holds text. -/
def readText (files : File.Tree) (path : File.Path) (origin : String) : Except Fault String :=
  match files.find path with
  | .error _ => .error (.notFound path)
  | .ok .directory => .error (.unreadable origin File.directoryMessage)
  | .ok (.file bytes) =>
    match Text.Utf8.decode? bytes with
    | some text => .ok text
    | none => .error (.unreadable origin File.notTextMessage)

/-- Where the text of a source comes from. -/
inductive SourceContent
  | text (text : String)
  | file (path : File.Path)
deriving DecidableEq

/-- A schema document to compile. -/
structure Source where
  content : SourceContent
  systemId : Option String
deriving DecidableEq

namespace Source

/-- The name of a source: its system identifier or file, or else its place in the list. -/
def origin (s : Source) (index : Nat) : String :=
  match s.systemId, s.content with
  | some id, _ => id
  | none, .file path => path.text
  | none, .text _ => "inline schema " ++ toString (index + 1)

/-- The directory of a source: next to its file, or next to what its identifier names. -/
def base (s : Source) : Option File.Path :=
  match s.content with
  | .file path => path.parent?
  | .text _ => (s.systemId.bind fun id => (File.Location.ofText id).path?).bind File.Path.parent?

/-- Read a source that stands at `index` in its list. -/
def load (files : File.Tree) (s : Source) (index : Nat) : Except Fault Resource := do
  let text ←
    match s.content with
    | .text text => pure text
    | .file path => readText files path (s.origin index)
  return ⟨s.origin index, text, s.base⟩

/-- Read sources in order, where the first stands at `index`. -/
def loadFrom (files : File.Tree) (index : Nat) : List Source → Except Fault (List Resource)
  | [] => .ok []
  | s :: rest => do
    let r ← s.load files index
    let rs ← loadFrom files (index + 1) rest
    return r :: rs

/-- Read all sources of a schema. -/
def loadAll (files : File.Tree) (sources : List Source) : Except Fault (List Resource) :=
  loadFrom files 0 sources

end Source

end ScopedXml.Schema
