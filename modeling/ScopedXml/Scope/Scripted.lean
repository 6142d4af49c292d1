import ScopedXml.Scope.Handler

/-!
# Handlers that follow rules

A scripted handler does what its rules say of names and callbacks: delegate, take text, retire early
or never, fail. Its notes are a full trace of what it was asked and what it could see.
-/

namespace ScopedXml.Scope

/-- The callbacks of a handler. -/
inductive Callback
  | opened
  | text
  | closed
  | completed
deriving DecidableEq

def Callback.label : Callback → String
  | opened => "start"
  | text => "text"
  | closed => "end"
  | completed => "completed"

/-- What a scripted handler notes: a callback with its argument and its view, or the question
whether an element is the last one. -/
inductive TraceEntry
  | called (callback : Callback) (label argument : String) (view : View)
  | asked (label name : String) (position : Position) (answer : Bool)

/-- The rules that scripted handlers share, mostly as lists of local names. -/
structure Script where
  /-- Labels of the handlers that never retire. -/
  never : List String
  last : List String
  delegate : List String
  /-- Whether the element at the boundary may be delegated. -/
  delegateRoot : Bool
  twice : List String
  take : List String
  /-- Callbacks that delegate at their end. -/
  late : List String
  /-- Callbacks with their argument that fail. -/
  fail : List String

/-- What a scripted handler has gathered. -/
structure ScriptedRecord where
  label : String
  taken : List String
  children : List ScriptedRecord

structure Scripted where
  script : Script
  record : ScriptedRecord

namespace Scripted

def fresh (script : Script) (label : String) : Scripted := ⟨script, ⟨label, [], []⟩⟩

def label (s : Scripted) : String := s.record.label

/-- What every callback does last: delegate if it is late, and fail if it has to. `child` is the
child named so far, and `mayDelegate` holds while an element opens. -/
def conclude (s : Scripted) (callback : Callback) (argument : String) (mayDelegate : Bool)
    (child : Option Scripted) : Except ReadFailure (Option Scripted) := do
  let child ←
    if s.script.late.contains callback.label then
      if !mayDelegate then throw noDelegation
      else if child.isSome then throw secondDelegation
      else pure (some (fresh s.script "late"))
    else pure child
  if s.script.fail.contains (callback.label ++ " " ++ argument) then
    throw (.handler (s.label ++ " failed at " ++ callback.label ++ " " ++ argument))
  return child

/-- The reply of a callback that cannot delegate. -/
def reply (s : Scripted) (callback : Callback) (argument : String) (tookText : Bool)
    (note : TraceEntry) : Reply Scripted TraceEntry :=
  ⟨s, tookText, [note], (s.conclude callback argument false none).map fun _ => ()⟩

/-- The child to which an opening element goes, unless it would be the second one. -/
def childFor (s : Scripted) (localName : String) (position : Position) :
    Except ReadFailure (Option Scripted) :=
  if s.script.delegate.contains localName
      && (s.script.delegateRoot || 1 < position.depth) then
    if s.script.twice.contains localName then .error secondDelegation
    else .ok (some (fresh s.script localName))
  else .ok none

def onStart (s : Scripted) (view : View) (name : QualifiedName) (_ : Attributes) :
    StartReply Scripted TraceEntry :=
  let note := TraceEntry.called .opened s.label name.written view
  let child := do
    s.conclude .opened name.written true (← s.childFor name.localName view.position)
  match child with
  | .ok child => ⟨⟨s, false, [note], .ok ()⟩, child⟩
  | .error e => ⟨⟨s, false, [note], .error e⟩, none⟩

def onText (s : Scripted) (view : View) (text : String) : Reply Scripted TraceEntry :=
  s.reply .text text false (.called .text s.label text view)

def onEnd (s : Scripted) (view : View) (name : QualifiedName) : Reply Scripted TraceEntry :=
  let note := TraceEntry.called .closed s.label name.written view
  if s.script.take.contains name.localName then
    let record : ScriptedRecord := { s.record with taken := s.record.taken ++ [view.text] }
    ({ s with record := record } : Scripted).reply .closed name.written true note
  else s.reply .closed name.written false note

def isLast (s : Scripted) (name : QualifiedName) (position : Position) :
    Bool × List TraceEntry :=
  let last := !s.script.never.contains s.label
    && (position.isBoundary || s.script.last.contains name.localName)
  (last, [.asked s.label name.written position last])

def onChild (s : Scripted) (view : View) (child : Scripted) : Reply Scripted TraceEntry :=
  let record : ScriptedRecord := { s.record with children := s.record.children ++ [child.record] }
  ({ s with record := record } : Scripted).reply .completed child.label false
    (.called .completed s.label child.label view)

def handlers : Handlers Scripted TraceEntry where
  typeName _ := "Script"
  onStart := onStart
  onText := onText
  onEnd := onEnd
  isLast := isLast
  onChild := onChild

end Scripted

end ScopedXml.Scope
