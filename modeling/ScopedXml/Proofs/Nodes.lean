import ScopedXml.Reader.Transcript

/-!
# Documents as trees

The events of a document come from a tree of elements and text. A text may reach the receiver in any
number of pieces (`Tells`), so nothing that is said about a tree may depend on where it was cut.
Where it does matter, the pieces are nodes of their own (`Node.documentEvents`). A receiver is fed
with events up to its first failure (`Receiver.feed`).
-/

namespace ScopedXml

/-- A text or an element with its content. -/
inductive Node
  | text (s : String)
  | element (name : QualifiedName) (attributes : Attributes) (content : List Node)

namespace Node

def isText : Node → Bool
  | text _ => true
  | element _ _ _ => false

@[simp] theorem isText_text (s : String) : (text s).isText = true := rfl

@[simp] theorem isText_element (name : QualifiedName) (attributes : Attributes)
    (content : List Node) : (element name attributes content).isText = false := rfl

/-- The text that stands directly in some content, elements left out. -/
def directText : List Node → String
  | [] => ""
  | text s :: rest => s ++ directText rest
  | element _ _ _ :: rest => directText rest

theorem forall_texts_isText (chunks : List String) :
    ∀ n ∈ chunks.map text, n.isText = true := by
  intro n hn
  obtain ⟨chunk, -, rfl⟩ := List.mem_map.mp hn
  rfl

theorem directText_texts (chunks : List String) (rest : List Node) :
    directText (chunks.map .text ++ rest) = String.join chunks ++ directText rest := by
  induction chunks with
  | nil => simp [String.join]
  | cons chunk chunks ih =>
    rw [List.map_cons, List.cons_append, directText, ih, String.join_cons, String.append_assoc]

mutual

/-- The events of a node. Each text is told at once; a text that arrives in pieces is a row of
nodes. -/
def events : Node → List Event
  | text s => [.characters s]
  | element name attributes content =>
    .startElement name attributes :: (allEvents content ++ [.endElement name])

def allEvents : List Node → List Event
  | [] => []
  | node :: rest => events node ++ allEvents rest

end

/-- The events of a document with this root element. -/
def documentEvents (name : QualifiedName) (attributes : Attributes) (content : List Node) :
    List Event :=
  .startDocument :: (events (.element name attributes content) ++ [.endDocument])

end Node

/-- The events of some content, with its text in pieces. -/
inductive Tells : List Node → List Event → Prop
  | nil : Tells [] []
  | text {s : String} {chunks : List String} {rest : List Node} {events : List Event} :
    String.join chunks = s → Tells rest events →
    Tells (.text s :: rest) (chunks.map .characters ++ events)
  | element {name : QualifiedName} {attributes : Attributes} {content rest : List Node}
    {inner events : List Event} :
    Tells content inner → Tells rest events →
    Tells (.element name attributes content :: rest)
      (.startElement name attributes :: inner ++ .endElement name :: events)

namespace Receiver

variable {C : Type}

/-- Hand over events in their order, up to the first failure. -/
def feed (receiver : Receiver C) (c : C) : List Event → Except ReadFailure Unit × C
  | [] => (.ok (), c)
  | event :: events =>
    match receiver.receive c event with
    | (.error e, c) => (.error e, c)
    | (.ok (), c) => feed receiver c events

theorem feed_append (receiver : Receiver C) (c : C) (events more : List Event) :
    receiver.feed c (events ++ more) =
      match receiver.feed c events with
      | (.error e, c) => (.error e, c)
      | (.ok (), c) => receiver.feed c more := by
  induction events generalizing c with
  | nil => rfl
  | cons event events ih =>
    rw [List.cons_append, feed, feed]
    cases hreceive : receiver.receive c event with
    | mk answer next =>
      cases answer with
      | error e => rfl
      | ok _ => exact ih next

theorem feed_singleton (receiver : Receiver C) (c : C) (event : Event) :
    receiver.feed c [event] = receiver.receive c event := by
  rw [feed]
  cases hreceive : receiver.receive c event with
  | mk answer next => cases answer <;> rfl

theorem feed_cons_of_ok {receiver : Receiver C} {c c' : C} {event : Event}
    (h : receiver.receive c event = (.ok (), c')) (events : List Event) :
    receiver.feed c (event :: events) = receiver.feed c' events := by
  rw [feed, h]

theorem feed_append_of_ok {receiver : Receiver C} {c c' : C} {events : List Event}
    (h : receiver.feed c events = (.ok (), c')) (more : List Event) :
    receiver.feed c (events ++ more) = receiver.feed c' more := by
  rw [feed_append, h]

end Receiver

end ScopedXml
