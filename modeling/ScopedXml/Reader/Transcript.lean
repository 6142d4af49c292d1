import ScopedXml.Policy

/-!
# Transcripts

What there is to tell of a document is a list of items, each one a diagnostic for the error policy
or an event for the receiver, and a failure in which the list may end (`Transcript`). Who listens
decides how far the list is carried out (`Transcript.deliver`): up to the first item that is
answered with a failure, or that is a fatal diagnostic.
-/

namespace ScopedXml

/-- What happens in a document, as told to its receiver. -/
inductive Event
  | startDocument
  | startElement (name : QualifiedName) (attributes : Attributes)
  | characters (text : String)
  | endElement (name : QualifiedName)
  | endDocument
deriving DecidableEq

/-- One step of a reader. -/
inductive Item
  | report (diagnostic : Diagnostic)
  | event (event : Event)
deriving DecidableEq

/-- All that a reader does with a document. -/
structure Transcript where
  items : List Item
  /-- The failure in which reading ends of itself. A document that ends in a fatal diagnostic needs
  none. -/
  failure : Option ReadFailure
deriving DecidableEq

/-- A receiver of events, with a state of its own. -/
structure Receiver (C : Type) where
  receive : C → Event → Except ReadFailure Unit × C

/-- The same receiver beside another listener, in the second part of a common state. -/
def Receiver.onSecond {C : Type} (receiver : Receiver C) (P : Type) : Receiver (P × C) where
  receive := fun (p, c) event =>
    let (answer, c) := receiver.receive c event
    (answer, p, c)

namespace Item

/-- Hand one item to its listener. -/
def deliver {P C : Type} (policy : Policy P) (receiver : Receiver C) (p : P) (c : C) :
    Item → Except ReadFailure Unit × P × C
  | report d =>
    let (answer, p) := policy.report p d
    (answer, p, c)
  | event e =>
    let (answer, c) := receiver.receive c e
    (answer, p, c)

end Item

/-- Hand over items in their order, up to the first failure. -/
def deliverItems {P C : Type} (policy : Policy P) (receiver : Receiver C) (p : P) (c : C) :
    List Item → Except ReadFailure Unit × P × C
  | [] => (.ok (), p, c)
  | item :: items =>
    match item.deliver policy receiver p c with
    | (.error e, p, c) => (.error e, p, c)
    | (.ok (), p, c) => deliverItems policy receiver p c items

/-- Carry out a transcript. -/
def Transcript.deliver {P C : Type} (t : Transcript) (policy : Policy P) (receiver : Receiver C)
    (p : P) (c : C) : Except ReadFailure Unit × P × C :=
  match deliverItems policy receiver p c t.items with
  | (.error e, p, c) => (.error e, p, c)
  | (.ok (), p, c) =>
    match t.failure with
    | some e => (.error e, p, c)
    | none => (.ok (), p, c)

end ScopedXml
