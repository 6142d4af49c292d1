import ScopedXml.File.Path

/-!
# Locations

A location is a path, a path behind `file://`, or an address with some other scheme. Only a plain
path depends on where it is looked up from.
-/

namespace ScopedXml.File

/-- What a location names. -/
inductive Location
  | plain (path : Path)
  /-- A path behind `file://`. -/
  | address (path : Path)
  | remote
deriving DecidableEq

namespace Location

/-- Whether a text holds `://`. -/
def hasScheme : List Char → Bool
  | ':' :: '/' :: '/' :: _ => true
  | _ :: cs => hasScheme cs
  | [] => false

def ofText (s : String) : Location :=
  match s.toList with
  | 'f' :: 'i' :: 'l' :: 'e' :: ':' :: '/' :: '/' :: cs => .address ⟨String.ofList cs⟩
  | cs => if hasScheme cs then .remote else .plain ⟨s⟩

/-- The path that a location names by itself. -/
def path? : Location → Option Path
  | plain p => some p
  | address p => some p
  | remote => none

/-- The path that a location names from a base directory. -/
def pathFrom? (base : Option Path) : Location → Option Path
  | plain p =>
    match base with
    | some base => some (base.join p)
    | none => some p
  | address p => some p
  | remote => none

end Location

end ScopedXml.File
