import ScopedXml.Reader.Drive

/-!
# Reading a document

`DocumentReader.drive` reads an input, with or without a schema, before listeners that share a
state, and `DocumentReader.parse` does so before an error policy and a receiver that know nothing of
each other. `DocumentReader.transcript` is all that could be told. An input that cannot be opened
has no events.
-/

namespace ScopedXml

/-- The settings of a reader that do not concern validation. -/
structure ReaderSettings where
  bufferSize : Nat
  trimText : Bool
deriving DecidableEq

def ReaderSettings.standard : ReaderSettings := ⟨65536, false⟩

/-- A reader; it validates when it has a schema. -/
structure DocumentReader where
  schema : Option Schema
  settings : ReaderSettings

namespace DocumentReader

variable [Text.Decoders]

def isValidating (r : DocumentReader) : Bool := r.schema.isSome

/-- The text behind one byte order mark, if it begins with one. -/
def withoutMark (s : String) : String :=
  match s.toList with
  | '\uFEFF' :: cs => String.ofList cs
  | _ => s

def transcriptOfText (r : DocumentReader) (s : String) : Transcript :=
  let body := withoutMark s
  transcriptOf r.schema (.text body.toUTF8) (Markup.lexText r.settings.trimText body)

def transcriptOfStream (r : DocumentReader) (supply : Markup.Supply) : Transcript :=
  transcriptOf r.schema .stream (supply.lex r.settings.trimText)

/-- Read an input before listeners that share a state. -/
def drive {S : Type} (r : DocumentReader) (input : Input) (policy : Policy S)
    (receiver : Receiver S) : Drive S Unit := do
  match ← input.opened r.settings.bufferSize with
  | .text s =>
    let body := withoutMark s
    Drive.document policy receiver r.schema (.text body.toUTF8)
      (Markup.lexText r.settings.trimText body)
  | .stream supply =>
    Drive.document policy receiver r.schema .stream (supply.lex r.settings.trimText)

/-- All that there is to tell of an input. -/
def transcript (r : DocumentReader) (input : Input) : Except ReadFailure Transcript :=
  (input.opened r.settings.bufferSize).map fun
    | .text s => r.transcriptOfText s
    | .stream supply => r.transcriptOfStream supply

/-- Read an input to its end, or up to the first failure. -/
def parse {P C : Type} (r : DocumentReader) (input : Input) (policy : Policy P)
    (receiver : Receiver C) (p : P) (c : C) : Except ReadFailure Unit × P × C :=
  (r.drive input (policy.onFirst C) (receiver.onSecond P)).run.run (p, c)

/-- A reader without a schema in messages. -/
def shown (r : DocumentReader) : String :=
  Text.shownFields "XmlReader"
    [("mode", if r.isValidating then "Validating" else "NonValidating"),
     ("schema", Text.shownOption (r.schema.map fun _ => "Schema")),
     ("buffer_size", toString r.settings.bufferSize),
     ("trim_text", toString r.settings.trimText)]

end DocumentReader

/-! ## Recording events -/

/-- A record of the events of a document. -/
structure EventRecord where
  latestFirst : List Event
deriving DecidableEq

namespace EventRecord

def empty : EventRecord := ⟨[]⟩

/-- The events in their order. -/
def events (r : EventRecord) : List Event := r.latestFirst.reverse

/-- Record an event. An element called `stopAt` is the last one. -/
def receive (stopAt : Option String) (r : EventRecord) (e : Event) :
    Except ReadFailure Unit × EventRecord :=
  let recorded : EventRecord := ⟨e :: r.latestFirst⟩
  match e with
  | .startElement name _ =>
    if stopAt = some name.localName then (.error (.handler "stop requested"), recorded)
    else (.ok (), recorded)
  | _ => (.ok (), recorded)

def receiver (stopAt : Option String) : Receiver EventRecord := ⟨receive stopAt⟩

end EventRecord

end ScopedXml
