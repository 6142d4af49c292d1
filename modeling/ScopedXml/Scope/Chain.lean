import ScopedXml.Reader.Transcript
import ScopedXml.Scope.Handler
import ScopedXml.Text.Quoted

/-!
# Chains of handlers

A chain keeps the handlers of one document on a stack. The topmost is active and receives the
events; the others are paused until those above them have retired. Each frame of the stack holds
what belongs to one handler: the text gathered, the attributes of the last element, and the depth
within its scope.

* `Chain.receive`: the chain as a receiver of events.
* `Chain.completed`: the root handler, once it has retired.
-/

namespace ScopedXml.Scope

/-- A handler with its scope. -/
structure Frame (H : Type) where
  handler : H
  text : String
  attributes : Option Attributes
  depth : Nat

namespace Frame

variable {H : Type}

/-- A handler that has seen nothing yet, at a depth of its scope. -/
def enter (handler : H) (depth : Nat) : Frame H := ⟨handler, "", none, depth⟩

def view (f : Frame H) (documentDepth : Nat) : View :=
  ⟨f.text, f.attributes, ⟨f.depth, documentDepth⟩⟩

/-- The frame behind a reply of its handler. -/
def after {N : Type} (f : Frame H) (r : Reply H N) : Frame H :=
  { f with handler := r.handler, text := if r.tookText then "" else f.text }

end Frame

/-- The stack of handlers, the active one first. -/
structure Chain (H N : Type) where
  stack : List (Frame H)
  completed : Option H
  documentDepth : Nat
  /-- The notes of all handlers, in the order of the events. -/
  log : List N

namespace Chain

variable {H N : Type}

/-- A chain with a handler for the root element. -/
def ofRoot (root : H) : Chain H N := ⟨[.enter root 0], none, 0, []⟩

/-- The number of handlers that have not retired. -/
def depth (c : Chain H N) : Nat := c.stack.length

def active? (c : Chain H N) : Option H := c.stack.head?.map (·.handler)

/-- The chain with some more notes. -/
def note (c : Chain H N) (notes : List N) : Chain H N := { c with log := c.log ++ notes }

def noHandler (c : Chain H N) : Except ReadFailure Unit × Chain H N := (.error .noActiveHandler, c)

/-- A document begins. -/
def startDocument (c : Chain H N) : Except ReadFailure Unit × Chain H N :=
  if c.stack.isEmpty then c.noHandler else (.ok (), c)

/-- An element opens. The active handler starts with an empty text; when it names a child, the text
from before the element stays with it. -/
def startElement (hs : Handlers H N) (c : Chain H N) (name : QualifiedName)
    (attributes : Attributes) : Except ReadFailure Unit × Chain H N :=
  let c := { c with documentDepth := c.documentDepth + 1 }
  match c.stack with
  | [] => c.noHandler
  | frame :: rest =>
    let opened : Frame H :=
      { frame with text := "", attributes := some attributes, depth := frame.depth + 1 }
    let reply := hs.onStart opened.handler (opened.view c.documentDepth) name attributes
    let c := c.note reply.notes
    let replied := opened.after reply.toReply
    match reply.outcome, reply.child with
    | .error e, _ => (.error e, { c with stack := replied :: rest })
    | .ok (), none => (.ok (), { c with stack := replied :: rest })
    | .ok (), some child =>
      (.ok (), { c with stack := .enter child 1 :: { replied with text := frame.text } :: rest })

/-- Text arrives. -/
def characters (hs : Handlers H N) (c : Chain H N) (text : String) :
    Except ReadFailure Unit × Chain H N :=
  match c.stack with
  | [] => c.noHandler
  | frame :: rest =>
    let filled : Frame H := { frame with text := frame.text ++ text }
    let reply := hs.onText filled.handler (filled.view c.documentDepth) text
    (reply.outcome, { c.note reply.notes with stack := filled.after reply :: rest })

/-- The active handler has retired. The elements that are still open within its scope belong to its
parent from now on. -/
def retire (hs : Handlers H N) (c : Chain H N) (retired : Frame H) (rest : List (Frame H)) :
    Except ReadFailure Unit × Chain H N :=
  match rest with
  | [] => (.ok (), { c with stack := [], completed := some retired.handler })
  | parent :: rest =>
    let parent : Frame H := { parent with depth := parent.depth + (retired.depth - 1) - 1 }
    let reply := hs.onChild parent.handler (parent.view c.documentDepth) retired.handler
    (reply.outcome, { c.note reply.notes with stack := parent.after reply :: rest })

/-- An element closes. -/
def endElement (hs : Handlers H N) (c : Chain H N) (name : QualifiedName) :
    Except ReadFailure Unit × Chain H N :=
  let before := c.documentDepth
  let c := { c with documentDepth := before - 1 }
  match c.stack with
  | [] => c.noHandler
  | frame :: rest =>
    let (last, notes) := hs.isLast frame.handler name ⟨frame.depth, before⟩
    let c := c.note notes
    let frame := if last then { frame with attributes := none } else frame
    let reply := hs.onEnd frame.handler (frame.view before) name
    let c := c.note reply.notes
    let replied := frame.after reply
    match reply.outcome with
    | .error e => (.error e, { c with stack := replied :: rest })
    | .ok () =>
      if last then c.retire hs replied rest
      else (.ok (), { c with stack := { replied with depth := replied.depth - 1 } :: rest })

/-- The document ends. A root handler that is still there retires now. -/
def endDocument (hs : Handlers H N) (c : Chain H N) : Except ReadFailure Unit × Chain H N :=
  match c.stack with
  | [] => if c.completed.isSome then (.ok (), c) else c.noHandler
  | [frame] => (.ok (), { c with stack := [], completed := some frame.handler })
  | frame :: paused =>
    (.error (.handler (toString paused.length
      ++ " handlers still active at end of document (innermost: "
      ++ hs.typeName frame.handler ++ ")")), c)

def receive (hs : Handlers H N) (c : Chain H N) : Event → Except ReadFailure Unit × Chain H N
  | .startDocument => c.startDocument
  | .startElement name attributes => c.startElement hs name attributes
  | .characters text => c.characters hs text
  | .endElement name => c.endElement hs name
  | .endDocument => c.endDocument hs

def receiver (hs : Handlers H N) : Receiver (Chain H N) := ⟨receive hs⟩

/-- The chain in messages, with the handlers from the root on. -/
def shown (hs : Handlers H N) (c : Chain H N) : String :=
  Text.shownFields "HandlerChain"
    [("stack", Text.shownList (c.stack.reverse.map fun f => Text.quoted (hs.typeName f.handler))),
     ("completed", Text.shownOption (c.completed.map fun h => Text.quoted (hs.typeName h))),
     ("document_depth", toString c.documentDepth)]

end Chain

end ScopedXml.Scope
