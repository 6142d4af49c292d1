import ScopedXml.File.Path

/-!
# Trees of files

A `Tree` holds files below a working directory. `Tree.find` walks a path part by part as a file
system does: every part but the last has to be a directory, `..` leads back, and what lies outside
the working directory is a directory of which nothing else is known.
-/

namespace ScopedXml.File

/-- Files by the parts of their paths; a later entry stands in front. -/
structure Tree where
  files : List (List String × List UInt8)
deriving DecidableEq

/-- Why a path leads nowhere. -/
inductive Fault
  | missing
  | notDirectory
  | nameTooLong
  | zeroByte
deriving DecidableEq

def Fault.message : Fault → String
  | missing => "No such file or directory (os error 2)"
  | notDirectory => "Not a directory (os error 20)"
  | nameTooLong => "File name too long (os error 36)"
  | zeroByte => "file name contained an unexpected NUL byte"

/-- A file or a directory. -/
inductive Place
  | file (bytes : List UInt8)
  | directory
deriving DecidableEq

/-- The failure of reading a directory. -/
def directoryMessage : String := "Is a directory (os error 21)"

/-- The failure of reading a file as text that is not UTF-8. -/
def notTextMessage : String := "stream did not contain valid UTF-8"

namespace Tree

def empty : Tree := ⟨[]⟩

/-- Store a file, in place of an earlier one of the same name. -/
def write (t : Tree) (path : Path) (bytes : List UInt8) : Tree :=
  let key := path.parts.filter fun s => !s.isEmpty && s != "."
  ⟨(key, bytes) :: t.files.filter (·.1 != key)⟩

/-- Where a walk stands: in or below the working directory, or in a directory outside it. -/
inductive Spot
  | inside (place : Place) (parts : List String)
  | outside

/-- Where `..` leads from a directory. -/
def Spot.up : Spot → Spot
  | .inside _ parts =>
    match parts.reverse with
    | [] => .outside
    | _ :: above => .inside .directory above.reverse
  | .outside => .outside

/-- The file or directory with these parts. -/
def place? (t : Tree) (parts : List String) : Option Place :=
  match t.files.find? (·.1 == parts) with
  | some (_, bytes) => some (.file bytes)
  | none => if t.files.any (parts.isPrefixOf ·.1) || parts.isEmpty then some .directory else none

/-- Where a name leads from a directory. Outside the working directory no name is known. -/
def enter? (t : Tree) (spot : Spot) (name : String) : Option Spot :=
  match spot with
  | .inside _ parts => (t.place? (parts ++ [name])).map (.inside · (parts ++ [name]))
  | .outside => none

/-- Go one part further. A name has at most 255 bytes, wherever it is looked up. -/
def go (t : Tree) (spot : Spot) (part : String) : Except Fault Spot :=
  match spot with
  | .inside (.file _) _ => .error .notDirectory
  | _ =>
    if part.isEmpty || part == "." then .ok spot
    else if part == ".." then .ok spot.up
    else if 255 < part.utf8ByteSize then .error .nameTooLong
    else
      match t.enter? spot part with
      | some next => .ok next
      | none => .error .missing

/-- What a path leads to. -/
def find (t : Tree) (path : Path) : Except Fault Place :=
  if path.text.toList.contains '\x00' then .error .zeroByte
  else if path.text.isEmpty then .error .missing
  else if 4096 ≤ path.text.utf8ByteSize then .error .nameTooLong
  else
    let start : Spot := if path.isAbsolute then .outside else .inside .directory []
    match path.parts.foldlM t.go start with
    | .ok (.inside place _) => .ok place
    | .ok .outside => .ok .directory
    | .error fault => .error fault

/-- Whether a path leads to anything. -/
def has (t : Tree) (path : Path) : Bool :=
  match t.find path with
  | .ok _ => true
  | .error _ => false

end Tree

end ScopedXml.File
