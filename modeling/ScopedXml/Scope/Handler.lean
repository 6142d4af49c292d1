import ScopedXml.Diagnostic

/-!
# Scope handlers

A handler looks after the events of one element. It has a state of its own and answers each event
with a reply: its new state, notes for an outside log, and whether it failed. While an element opens
it may name a child that takes that element over; when the element that a handler was made for
closes, the handler retires and its state is given to its parent.

`Handlers H N` is a family of handlers with states in `H` and notes in `N`. Statements about all
handlers quantify over it.
-/

namespace ScopedXml.Scope

/-- Where an element stands. `depth` counts from the element that the handler was made for, and
`documentDepth` from the root of the document; both begin with 1. -/
structure Position where
  depth : Nat
  documentDepth : Nat
deriving DecidableEq

/-- Whether the element is the one that the handler was made for. -/
def Position.isBoundary (p : Position) : Bool := p.depth == 1

/-- What a handler can see besides the event: the text that has gathered, the attributes of the last
element that opened, and the position. -/
structure View where
  text : String
  attributes : Option Attributes
  position : Position
deriving DecidableEq

/-- The answer of a handler to an event. -/
structure Reply (H N : Type) where
  handler : H
  /-- Whether the gathered text was taken, so that gathering begins anew. -/
  tookText : Bool
  notes : List N
  outcome : Except ReadFailure Unit

/-- The answer to an element that opens, with the child that takes it over. -/
structure StartReply (H N : Type) extends Reply H N where
  child : Option H

/-- A family of handlers. -/
structure Handlers (H N : Type) where
  typeName : H → String
  onStart : H → View → QualifiedName → Attributes → StartReply H N
  onText : H → View → String → Reply H N
  onEnd : H → View → QualifiedName → Reply H N
  /-- Whether the element that closes is the last one of the handler. -/
  isLast : H → QualifiedName → Position → Bool × List N
  /-- A child has retired. -/
  onChild : H → View → H → Reply H N

/-- Handlers that retire exactly at the element that they were made for. -/
def Handlers.KeepsBoundary {H N : Type} (hs : Handlers H N) : Prop :=
  ∀ h name p, (hs.isLast h name p).1 = p.isBoundary

namespace Reply

variable {H N : Type}

/-- Go on with this state. -/
def done (handler : H) (notes : List N) : Reply H N := ⟨handler, false, notes, .ok ()⟩

/-- Take the gathered text and go on. -/
def taking (handler : H) (notes : List N) : Reply H N := ⟨handler, true, notes, .ok ()⟩

/-- Give up. -/
def fail (handler : H) (message : String) : Reply H N :=
  ⟨handler, false, [], .error (.handler message)⟩

/-- A reply to an element that opens, without a child. -/
def alone (r : Reply H N) : StartReply H N := { r with child := none }

/-- A reply to an element that opens and goes to a child. -/
def delegating (r : Reply H N) (child : H) : StartReply H N := { r with child := some child }

end Reply

/-- The failure of naming a child other than while an element opens. -/
def noDelegation : ReadFailure :=
  .handler "delegate() is only allowed while an element opens"

/-- The failure of naming a second child for one element. -/
def secondDelegation : ReadFailure :=
  .handler "A child handler was already delegated for this element"

end ScopedXml.Scope
