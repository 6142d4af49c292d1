import ScopedXml.Scope.Handler

/-!
# Handlers that record

A recorder keeps a record of its element: name, attributes, text, and the records of the elements
that it gave to children. Its notes say when an element is entered and left. The text is what has
gathered when the element closes.
-/

namespace ScopedXml.Scope

/-- What a recorder saw of its element. Attributes are pairs of written name and value. -/
structure ElementRecord where
  name : String
  attributes : List (String × String)
  text : String
  children : List ElementRecord

namespace ElementRecord

def empty : ElementRecord := ⟨"", [], "", []⟩

/-- The value of the first attribute written as `name`. -/
def attr? (r : ElementRecord) (name : String) : Option String :=
  (r.attributes.find? (·.1 == name)).map (·.2)

mutual

/-- The number of records in a tree, this one included. -/
def count : ElementRecord → Nat
  | ⟨_, _, _, children⟩ => 1 + countAll children

def countAll : List ElementRecord → Nat
  | [] => 0
  | r :: rs => count r + countAll rs

end

end ElementRecord

/-- Which elements a recorder gives to children. -/
inductive Delegation
  | never
  | names (localNames : List String)
  | all

def Delegation.wants (d : Delegation) (localName : String) : Bool :=
  match d with
  | never => false
  | names ns => ns.contains localName
  | all => true

/-- A recorder with its record so far. -/
structure Recorder where
  /-- What its notes call it. -/
  label : String
  delegation : Delegation
  /-- The name of an element at which it fails. -/
  failOn : Option String
  record : ElementRecord

namespace Recorder

/-- A recorder that has seen nothing yet. -/
def fresh (label : String) (delegation : Delegation) (failOn : Option String) : Recorder :=
  ⟨label, delegation, failOn, .empty⟩

/-- The recorder for an element that is given to a child. -/
def child (r : Recorder) (name : QualifiedName) (attributes : Attributes) : Recorder :=
  { r with
    label := name.localName
    record := ⟨name.localName, attributes.writtenPairs, "", []⟩ }

def onStart (r : Recorder) (view : View) (name : QualifiedName) (attributes : Attributes) :
    StartReply Recorder String :=
  if r.failOn = some name.localName then
    (Reply.fail r (r.label ++ " refused element '" ++ name.written ++ "'")).alone
  else if view.position.isBoundary then
    let record : ElementRecord :=
      { r.record with name := name.localName, attributes := attributes.writtenPairs }
    (Reply.done { r with record := record } ["enter " ++ r.label]).alone
  else if r.delegation.wants name.localName then
    let child := r.child name attributes
    (Reply.done r ["enter " ++ child.label]).delegating child
  else (Reply.done r []).alone

def onEnd (r : Recorder) (view : View) (_ : QualifiedName) : Reply Recorder String :=
  if view.position.isBoundary then
    let record : ElementRecord := { r.record with text := view.text }
    .taking { r with record := record } ["exit " ++ r.label]
  else .done r []

def onChild (r : Recorder) (_ : View) (child : Recorder) : Reply Recorder String :=
  let record : ElementRecord := { r.record with children := r.record.children ++ [child.record] }
  .done { r with record := record } []

def handlers : Handlers Recorder String where
  typeName _ := "RecordingHandler"
  onStart := onStart
  onText r _ _ := .done r []
  onEnd := onEnd
  isLast _ _ position := (position.isBoundary, [])
  onChild := onChild

end Recorder

end ScopedXml.Scope
