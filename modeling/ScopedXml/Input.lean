import ScopedXml.Diagnostic
import ScopedXml.Text.Charset
import ScopedXml.Text.Quoted
import ScopedXml.File.Tree
import ScopedXml.Markup.Supply

/-!
# Inputs

An input is decoded text, or bytes with an optional encoding label. `Input.opened` prepares it for
the lexer: text stays text, bytes with a label or in UTF-16 are decoded as a whole, and all other
bytes are handed on in buffer fills, to be decoded token by token.
-/

namespace ScopedXml

/-- Where bytes come from. -/
inductive ByteSource
  /-- The `n`-th read gives at most `limit n` bytes, and after the last byte comes the end or a
  failure. -/
  | reads (bytes : List UInt8) (limit : Nat → Nat) (failure : Option String)
  /-- A directory can be opened, and every read of it fails. -/
  | directory

inductive InputContent
  | text (s : String)
  | bytes (source : ByteSource) (encoding : Option String)

/-- Where a document is read from. -/
structure Input where
  content : InputContent
  systemId : Option String

/-- An input ready for the lexer. -/
inductive Opened
  | text (s : String)
  | stream (supply : Markup.Supply)

namespace ByteSource

/-- A source that gives everything at once. -/
def ofBytes (bytes : List UInt8) : ByteSource := .reads bytes (fun _ => bytes.length) none

/-- The bytes of a source in reads that ask for at most `size` bytes each. A source that stops
early ends cleanly, and so does one that is asked for nothing, whatever would come next. -/
def supply (source : ByteSource) (size : Nat) : Markup.Supply :=
  match source with
  | .reads bytes limit failure =>
    let octets := Markup.Octet.fills (fun n => min (limit n) size) 0 bytes
    ⟨octets, if octets.length = bytes.length ∧ 0 < size then failure else none⟩
  | .directory => ⟨[], some File.directoryMessage⟩

/-- The number of bytes that are there to be read. -/
def size : ByteSource → Nat
  | .reads bytes _ _ => bytes.length
  | .directory => 0

/-- All bytes up to the end, unless the source fails. -/
def readAll (source : ByteSource) : Except ReadFailure (List UInt8) :=
  let supply := source.supply (source.size + 1)
  match supply.failure with
  | some m => .error (.unreadable m)
  | none => .ok (supply.octets.map (·.byte))

end ByteSource

namespace Input

def ofText (s : String) : Input := ⟨.text s, none⟩

def ofSource (source : ByteSource) : Input := ⟨.bytes source none, none⟩

/-- The file at a path, which becomes the system identifier. -/
def ofFile (files : File.Tree) (path : File.Path) : Except ReadFailure Input :=
  match files.find path with
  | .ok (.file bytes) => .ok ⟨.bytes (.ofBytes bytes) none, some path.text⟩
  | .ok .directory => .ok ⟨.bytes .directory none, some path.text⟩
  | .error fault => .error (.unreadable fault.message)

/-- Declare the encoding of a byte input; text is decoded already and stays as it is. -/
def withEncoding (input : Input) (label : String) : Input :=
  match input.content with
  | .text _ => input
  | .bytes source _ => { input with content := .bytes source (some label) }

def withSystemId (input : Input) (id : String) : Input := { input with systemId := some id }

def encoding? (input : Input) : Option String :=
  match input.content with
  | .text _ => none
  | .bytes _ label => label

def isText (input : Input) : Bool :=
  match input.content with
  | .text _ => true
  | .bytes _ _ => false

/-- The input in messages. -/
def shown (input : Input) : String :=
  Text.shownFields "InputSource"
    [("kind", Text.quoted (if input.isText then "characters" else "bytes")),
     ("encoding", Text.shownOption (input.encoding?.map Text.quoted)),
     ("system_id", Text.shownOption (input.systemId.map Text.quoted))]

/-- The encoding that a label denotes. -/
def charset (label : String) : Except ReadFailure Text.Charset :=
  match Text.Charset.ofLabel? (Text.trim label) with
  | some c => .ok c
  | none => .error (.unknownEncoding label)

/-- UTF-16, recognised by a byte order mark or by the 16-bit form of `<?`. -/
def utf16Order? : List UInt8 → Option Text.Utf16.Order
  | 0xFF :: 0xFE :: _ => some .littleEndian
  | 0x3C :: 0 :: 0x3F :: 0 :: _ => some .littleEndian
  | 0xFE :: 0xFF :: _ => some .bigEndian
  | 0 :: 0x3C :: 0 :: 0x3F :: _ => some .bigEndian
  | _ => none

/-- The text of a whole input. -/
def decoded [Text.Decoders] (charset : Text.Charset) (bytes : List UInt8) :
    Except ReadFailure Opened :=
  match charset.decodeMarked bytes with
  | .ok s => .ok (.text s)
  | .error used => .error (.undecodable 0 ("input is not valid " ++ used.name))

def opened [Text.Decoders] (input : Input) (bufferSize : Nat) : Except ReadFailure Opened :=
  match input.content with
  | .text s => .ok (.text s)
  | .bytes source (some label) => do
    let charset ← charset label
    decoded charset (← source.readAll)
  | .bytes source none =>
    let supply := source.supply bufferSize
    match supply.octets, supply.failure with
    | [], some m => .error (.unreadable m)
    | _, _ =>
      match utf16Order? supply.firstFill with
      | some order => do decoded (.utf16 order) (← source.readAll)
      | none => .ok (.stream supply)

end Input

end ScopedXml
